import Mathlib.Logic.Relation
import SmsRelay.Message.Event
import SmsRelay.Proofs.Json.Meaning
import SmsRelay.Proofs.Text.Utf8

/-!
# Events however they are written

What becomes of a record depends on the event and not on how the event is written. The members of
the object may stand in any order, with any white space and any escapes; members of other names may
be added; and a field that is left out may be written as `null` or as its default.

## Implementation notes

`Rewriting` speaks of what texts say and not of the texts: it changes the list of the members of an
object. White space and escapes are left to `SpellsObject`, which admits all of them.

A member may be added if its name is made of characters. The grammar admits names with half of a
pair of units, but a name is read as a text, and the record is malformed if it is none. The values
of such members are skipped and may hold anything.

## Main results

* `decode_spelled`: what becomes of a record, by the members of its object.
* `decode_respelled`: rewriting a record changes nothing.
* `decode_halved`: a member with half of a pair in its name does change something.
-/

namespace SmsRelay

namespace Event

open Json

/-- The text that a value stands for in an event. -/
def textOf : Tree → Option String := Tree.orNull? "" Tree.text?

/-- The number of milliseconds that a value stands for in an event. -/
def millisOf : Tree → Option ℤ :=
  Tree.orNull? 0 (Tree.number? fun
    | .nat n => if n < pow2 63 then some n else none
    | .negative n => some (-(n : ℤ))
    | .float _ => none)

/-- What the value of a field does to an event. -/
def mean : String → Tree → Option (Event → Event)
  | "correlationId", t => (textOf t).map fun v e => { e with correlationId := v }
  | "phoneNumber", t => (textOf t).map fun v e => { e with phone := v }
  | "text", t => (textOf t).map fun v e => { e with text := v }
  | "status", t => (textOf t).map fun v e => { e with status := v }
  | "timestamp", t => (millisOf t).map fun v e => { e with timestamp := v }
  | _, _ => none

theorem meaning : Meaning fields mean where
  understands := by
    have htext : Understands (orNull "" Json.text) textOf := understands_text.orNull ""
    have hmillis : Understands (orNull 0 int64) millisOf := (understands_number _).orNull 0
    intro f hf
    simp only [fields, List.mem_cons, List.not_mem_nil, or_false] at hf
    rcases hf with rfl | rfl | rfl | rfl | rfl
    · exact htext.of _ _
    · exact htext.of _ _
    · exact htext.of _ _
    · exact htext.of _ _
    · exact hmillis.of _ _
  optional := by
    intro f hf
    simp only [fields, List.mem_cons, List.not_mem_nil, or_false] at hf
    rcases hf with rfl | rfl | rfl | rfl | rfl <;> rfl

theorem independent : Independent fields mean := by
  intro f hf f' hf' hne t t' change change' hchange hchange' s
  simp only [fields, List.mem_cons, List.not_mem_nil, or_false] at hf hf'
  rcases hf with rfl | rfl | rfl | rfl | rfl <;>
    rcases hf' with rfl | rfl | rfl | rfl | rfl <;>
      first
      | exact absurd rfl hne
      | obtain ⟨v, -, rfl⟩ := Option.map_eq_some_iff.mp hchange
        obtain ⟨v', -, rfl⟩ := Option.map_eq_some_iff.mp hchange'
        rfl

/-- The event that an object tells of. -/
def ofMembers? (ms : Members) : Option Event :=
  (readMembers fields mean ms (∅, blank)).map Prod.snd

/-- **What becomes of a record** that holds one object. -/
theorem decode_spelled {ms : Members} {s : String} (h : SpellsObject ms s.toList) :
    decode (utf8 s) =
      match ofMembers? ms with
      | some e => e.toMessage
      | none => .error .malformed := by
  have hread := whole_spelled meaning h blank
  rw [decode, glyphs_utf8, Glyph.ofString, ofMembers?, reader]
  cases hmembers : readMembers fields mean ms (∅, blank) with
  | none =>
    rw [hmembers] at hread
    obtain ⟨fault, hfault⟩ := hread
    rw [hfault]
    rfl
  | some state =>
    rw [hmembers] at hread
    have hread : whole _ _ = .ok state.2 := hread
    rw [hread]
    rfl

/-- The value that a field has when it is left out. -/
def defaultOf (name : String) : Tree := if name = "timestamp" then .number ['0'] else .text []

/-- A change of an object that does not change what it tells of an event: its members are permuted,
a member of a name that is no field is added, or a field that is left out is written as `null` or as
its default. -/
inductive Rewriting : Members → Members → Prop
  | permuted {ms ms'} (h : ms.Perm ms') : Rewriting ms ms'
  | added {us name} (hname : us.text? = some name) (hunknown : name ∉ fields.map (·.name)) (t ms) :
      Rewriting ms ((us, t) :: ms)
  | written {us name t ms} (hname : us.text? = some name) (hfield : name ∈ fields.map (·.name))
      (habsent : ∀ m ∈ ms, m.1.text? ≠ some name) (ht : t = .null ∨ t = defaultOf name) :
      Rewriting ms ((us, t) :: ms)

theorem find?_of_mem {name : String} (h : name ∈ fields.map (·.name)) :
    ∃ f, Field.find? fields name = some f ∧ f.name = name := by
  obtain ⟨f, hf, rfl⟩ := List.mem_map.mp h
  simp only [fields, List.mem_cons, List.not_mem_nil, or_false] at hf
  rcases hf with rfl | rfl | rfl | rfl | rfl <;> exact ⟨_, rfl, rfl⟩

theorem find?_of_not_mem {name : String} (h : name ∉ fields.map (·.name)) :
    Field.find? fields name = none := by
  rw [Field.find?, List.find?_eq_none]
  intro f hf hname
  exact h (List.mem_map.mpr ⟨f, hf, of_decide_eq_true hname⟩)

/-- A field that is written as `null` or as its default leaves the blank event as it is. -/
theorem mean_defaultOf {name : String} (h : name ∈ fields.map (·.name)) {t : Tree}
    (ht : t = .null ∨ t = defaultOf name) :
    ∃ change, mean name t = some change ∧ change blank = blank := by
  obtain ⟨f, hf, rfl⟩ := List.mem_map.mp h
  simp only [fields, List.mem_cons, List.not_mem_nil, or_false] at hf
  rcases hf with rfl | rfl | rfl | rfl | rfl <;> rcases ht with rfl | rfl <;> exact ⟨_, rfl, rfl⟩

/-- **One change** leaves the event as it is. -/
theorem Rewriting.ofMembers? {ms ms' : Members} (h : Rewriting ms ms') :
    Event.ofMembers? ms = Event.ofMembers? ms' := by
  cases h with
  | permuted h => rw [Event.ofMembers?, Event.ofMembers?, readMembers_perm independent h]
  | @added us name hname hunknown t =>
    have hskip : readMember fields mean (∅, blank) (us, t) = some (∅, blank) := by
      rw [readMember, hname, Option.bind_some, find?_of_not_mem hunknown]
    rw [Event.ofMembers?, Event.ofMembers?, readMembers, readMembers, List.foldlM_cons, hskip]
    rfl
  | @written us name t _ hname hfield habsent ht =>
    obtain ⟨f, hfound, hf⟩ := find?_of_mem hfield
    obtain ⟨change, hchange, hblank⟩ := mean_defaultOf hfield ht
    have hread : readMember fields mean (∅, blank) (us, t) = some (insert name ∅, blank) := by
      rw [readMember, hname, Option.bind_some, hfound]
      simp only [readField, hf, Finset.notMem_empty, if_false, hchange, Option.map_some, hblank]
    rw [Event.ofMembers?, Event.ofMembers?, readMembers, readMembers, List.foldlM_cons, hread]
    exact (readMembers_insert habsent ∅ blank).symm

/-! ### Samples -/

namespace Sample

/-- A member whose name and value are plain texts. -/
def entry (name value : String) : Units × Tree := (.ofString name, .text (.ofString value))

/-- The members of an object without a correlation id and a time. -/
def members : Members := [entry "phoneNumber" "1", entry "text" "t", entry "status" "S"]

/-- The same in another order, with a time that is `null` and a member that is no field. -/
def rewritten : Members :=
  [(.ofString "x", .list [.number "-1.5e3".toList, .record []]), entry "status" "S",
    (.ofString "timestamp", .null), entry "text" "t", entry "phoneNumber" "1"]

/-- What becomes of the members. -/
def message : Message := ⟨"msg-19700101000000.000000000", "", "1", "t", "S", ⟨0, 0⟩⟩

theorem spacing_nil : IsSpacing [] := nofun

theorem spells_entries : ∃ cs, Spells (.members members) cs ∧
    cs = "\"phoneNumber\":\"1\",\"text\":\"t\",\"status\":\"S\"".toList := by
  have hs := spacing_nil
  have hphone := spellsString_plain (s := "phoneNumber") (by decide)
  have htext := spellsString_plain (s := "text") (by decide)
  have hstatus := spellsString_plain (s := "status") (by decide)
  have hvalue := fun s h => Spells.text (spellsString_plain (s := s) h)
  refine ⟨_, .member hs hphone hs hs (hvalue "1" (by decide)) hs
    (.member hs htext hs hs (hvalue "t" (by decide)) hs
      (.lastMember hs hstatus hs hs (hvalue "S" (by decide)) hs)), ?_⟩
  decide +kernel

theorem spells_members : SpellsObject members
    "\x7b\"phoneNumber\":\"1\",\"text\":\"t\",\"status\":\"S\"\x7d".toList := by
  obtain ⟨cs, hcs, rfl⟩ := spells_entries
  refine ⟨[], _, [], spacing_nil, .record hcs, spacing_nil, ?_⟩
  decide +kernel

theorem spells_halved : SpellsObject (([0xD800], .number ['0']) :: members)
    "\x7b\"\\ud800\":0,\"phoneNumber\":\"1\",\"text\":\"t\",\"status\":\"S\"\x7d".toList := by
  have hs := spacing_nil
  have hd : IsHex 'd' 13 ∧ IsHex '8' 8 ∧ IsHex '0' 0 := by decide
  have hname : SpellsString [0xD800] "\\ud800".toList := .code hd.1 hd.2.1 hd.2.2 hd.2.2 .nil
  have hzero : IsDigits ['0'] := by decide
  have hnumber : IsNumber ['0'] := .positive (.mk hzero (fun _ => rfl) .nil .nil)
  obtain ⟨cs, hcs, rfl⟩ := spells_entries
  refine ⟨[], _, [], hs, .record (.member hs hname hs hs (.number hnumber) hs hcs), hs, ?_⟩
  decide +kernel

theorem spells_rewritten : SpellsObject rewritten
    (" \x7b\"\\u0078\":[-1.5e3,\x7b \x7d],\"status\" :\"\\u0053\",\"timestamp\":null,\n" ++
      "\"text\":\"t\",\"phoneNumber\":\"1\"\x7d ").toList := by
  have hs := spacing_nil
  have hspace : IsSpacing [' '] := by decide
  have hline : IsSpacing ['\n'] := by decide
  have hphone := spellsString_plain (s := "phoneNumber") (by decide)
  have htext := spellsString_plain (s := "text") (by decide)
  have hstatus := spellsString_plain (s := "status") (by decide)
  have htime := spellsString_plain (s := "timestamp") (by decide)
  have hvalue := fun s h => Spells.text (spellsString_plain (s := s) h)
  have hhex : IsHex '0' 0 ∧ IsHex '3' 3 ∧ IsHex '5' 5 ∧ IsHex '7' 7 ∧ IsHex '8' 8 := by decide
  obtain ⟨h0, h3, h5, h7, h8⟩ := hhex
  have hx : SpellsString (.ofString "x") "\\u0078".toList := .code h0 h0 h7 h8 .nil
  have hS : SpellsString (.ofString "S") "\\u0053".toList := .code h0 h0 h5 h3 .nil
  have hdigits : IsDigits ['1'] ∧ IsDigits ['5'] ∧ IsDigits ['3'] := by decide
  have hexponent : IsExponent ('e' :: ([] ++ ['3'])) := .mk (.inl rfl) (.inl rfl) hdigits.2.2
  have hnumber : IsNumber "-1.5e3".toList :=
    .negative (.mk hdigits.1 (by decide) (.point hdigits.2.1) hexponent)
  refine ⟨[' '], _, [' '], hspace, .record
    (.member hs hx hs hs (.list (.item hs (.number hnumber) hs
      (.lastItem hs (.emptyRecord hspace) hs))) hs
    (.member hs hstatus hspace hs (.text hS) hs
    (.member hs htime hs hs .null hs
    (.member hline htext hs hs (hvalue "t" (by decide)) hs
    (.lastMember hs hphone hs hs (hvalue "1" (by decide)) hs))))), hspace, ?_⟩
  decide +kernel

theorem rewriting : Relation.EqvGen Rewriting members rewritten := by
  have htime : Rewriting members ((.ofString "timestamp", .null) :: members) :=
    .written (text?_ofString _) (by decide) (by simp [members, entry, text?_ofString]) (.inl rfl)
  have hx := Rewriting.added (text?_ofString "x") (by decide)
    (.list [.number "-1.5e3".toList, .record []]) ((.ofString "timestamp", .null) :: members)
  have horder : ∀ {α : Type} (a b c d : α), [a, b, c, d].Perm [d, a, c, b] := fun a b c d =>
    ((List.reverse_perm [b, c, d]).symm.cons a).trans (.swap d a [c, b])
  have hpermuted := Rewriting.permuted ((horder (.ofString "timestamp", .null)
    (entry "phoneNumber" "1") (entry "text" "t") (entry "status" "S")).cons
      (.ofString "x", .list [.number "-1.5e3".toList, .record []]))
  exact .trans _ _ _ (.rel _ _ htime) (.trans _ _ _ (.rel _ _ hx) (.rel _ _ hpermuted))

end Sample

/-- **How an event is written** does not matter. -/
theorem decode_respelled {ms ms' : Members} {s s' : String} (h : SpellsObject ms s.toList)
    (h' : SpellsObject ms' s'.toList) (hsame : Relation.EqvGen Rewriting ms ms') :
    decode (utf8 s) = decode (utf8 s') := by
  have hevent : ofMembers? ms = ofMembers? ms' := by
    clear h h'
    induction hsame with
    | rel _ _ h => exact h.ofMembers?
    | refl => rfl
    | symm _ _ _ ih => exact ih.symm
    | trans _ _ _ _ _ ih ih' => exact ih.trans ih'
  rw [decode_spelled h, decode_spelled h', hevent]

/-- An object with its members in another order, a time that is `null`, a member that is no field,
white space and escapes. -/
theorem decode_respelled_sample :
    let s := "\x7b\"phoneNumber\":\"1\",\"text\":\"t\",\"status\":\"S\"\x7d"
    let s' := " \x7b\"\\u0078\":[-1.5e3,\x7b \x7d],\"status\" :\"\\u0053\",\"timestamp\":null,\n" ++
      "\"text\":\"t\",\"phoneNumber\":\"1\"\x7d "
    SpellsObject Sample.members s.toList ∧ SpellsObject Sample.rewritten s'.toList ∧
      Relation.EqvGen Rewriting Sample.members Sample.rewritten ∧
      decode (utf8 s) = decode (utf8 s') ∧ decode (utf8 s) = .ok Sample.message := by
  intro s s'
  have hsame := decode_respelled Sample.spells_members Sample.spells_rewritten Sample.rewriting
  exact ⟨Sample.spells_members, Sample.spells_rewritten, Sample.rewriting, hsame,
    by decide +kernel⟩

/-- **Half of a pair in a name**: a member that the grammar admits and that is no field makes the
record malformed. -/
theorem decode_halved :
    let s := "\x7b\"phoneNumber\":\"1\",\"text\":\"t\",\"status\":\"S\"\x7d"
    let s' := "\x7b\"\\ud800\":0,\"phoneNumber\":\"1\",\"text\":\"t\",\"status\":\"S\"\x7d"
    SpellsObject Sample.members s.toList ∧
      SpellsObject (([0xD800], .number ['0']) :: Sample.members) s'.toList ∧
      (∀ f ∈ fields, Units.text? [0xD800] ≠ some f.name) ∧
      decode (utf8 s) = .ok Sample.message ∧ decode (utf8 s') = .error .malformed := by
  intro s s'
  have hnone : Units.text? [0xD800] = none := by decide
  have hname : ∀ f ∈ fields, Units.text? [0xD800] ≠ some f.name := by
    intro f _ hname
    rw [hnone] at hname
    cases hname
  exact ⟨Sample.spells_members, Sample.spells_halved, hname, by decide +kernel, by decide +kernel⟩

end Event

end SmsRelay
