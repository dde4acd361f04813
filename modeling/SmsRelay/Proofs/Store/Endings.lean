import Mathlib.Data.List.DropRight
import SmsRelay.Proofs.Json.Prefix
import SmsRelay.Proofs.Store.Lines

/-!
# How a file ends

Lines are added behind whatever a file holds. A file is finished if nothing but white space follows
its last line feed, and then a line that is added is read as the message it holds. Otherwise the
line runs on from the one that was left open, and the file cannot be read any more.

## Implementation notes

The white space is that of JSON. Other white space makes a blank line as well, and a file that ends
with it is read, but no message is read behind it.

## Main results

* `readLines_append_lines`: what is added to a finished file is read.
* `readLines_append_unfinished`: what is added to another one makes it unreadable.
-/

namespace SmsRelay

namespace Message

/-- What follows a member of a message does not matter. -/
theorem steady_fields : ∀ f ∈ fields, Json.Steady f.read := by
  have hinstant : Json.Steady instantReader := by
    intro gs v rest h hne more
    obtain ⟨⟨s, rest'⟩, htext, h⟩ := bind_eq_ok h
    dsimp only at h
    split at h
    · rename_i t ht
      cases h
      simp only [instantReader, Json.steady_text _ _ _ htext hne, bind, Except.bind, ht]
    · cases h
  intro f hf
  simp only [fields, List.mem_cons, List.not_mem_nil, or_false] at hf
  rcases hf with rfl | rfl | rfl | rfl | rfl | rfl
  · exact Json.Steady.mandatory (Json.steady_text.of _ _)
  · exact Json.Steady.mandatory (Json.steady_text.of _ _)
  · exact Json.Steady.mandatory (Json.steady_text.of _ _)
  · exact Json.Steady.mandatory (Json.steady_text.of _ _)
  · exact Json.Steady.mandatory (Json.steady_text.of _ _)
  · exact Json.Steady.mandatory (hinstant.of _ _)

end Message

namespace FileStore

/-! ### The last line -/

/-- What follows the last line feed. -/
def ending (bs : Bytes) : Bytes := bs.rtakeWhile (· ≠ 10)

/-- The bytes up to the last line feed. -/
def settled (bs : Bytes) : Bytes := bs.rdropWhile (· ≠ 10)

/-- Nothing but white space follows the last line feed. -/
def IsFinished (bs : Bytes) : Prop := ∀ g ∈ glyphs (ending bs), Json.isGap g

instance (bs : Bytes) : Decidable (IsFinished bs) :=
  inferInstanceAs (Decidable (∀ g ∈ glyphs (ending bs), Json.isGap g))

theorem settled_append_ending (bs : Bytes) : settled bs ++ ending bs = bs :=
  List.rdropWhile_append_rtakeWhile

theorem feed_not_mem_ending (bs : Bytes) : 10 ∉ ending bs := by
  intro h
  simpa using List.mem_rtakeWhile_imp h

theorem ending_append_line (bs : Bytes) (m : Message) : ending (bs ++ line m) = [] := by
  rw [line_eq, ← List.append_assoc, ending]
  exact List.rtakeWhile_concat_neg _ _ _ (by decide)

theorem linesFrom_append (reversed bs more : Bytes) :
    linesFrom reversed (bs ++ 10 :: more) = linesFrom reversed (bs ++ [10]) ++ lines more := by
  induction bs generalizing reversed with
  | nil => rfl
  | cons b bs ih =>
    rw [List.cons_append, List.cons_append, linesFrom, linesFrom]
    split
    · rw [ih]
      rfl
    · exact ih _

/-- What is settled ends in a line feed. -/
theorem settled_cases (bs : Bytes) : settled bs = [] ∨ ∃ body, settled bs = body ++ [10] := by
  induction bs using List.reverseRecOn with
  | nil => exact .inl rfl
  | append_singleton bs b ih =>
    rw [settled, List.rdropWhile_concat]
    split
    · exact ih
    · rename_i hfeed
      exact .inr ⟨bs, by rw [show b = 10 by simpa using hfeed]⟩

/-- The lines of what is settled stay as they are. -/
theorem lines_settled_append (bs more : Bytes) :
    lines (settled bs ++ more) = lines (settled bs) ++ lines more := by
  rcases settled_cases bs with hnil | ⟨body, hbody⟩
  · rw [hnil]
    rfl
  · rw [hbody, List.append_assoc]
    exact linesFrom_append [] body more

theorem linesFrom_of_not_mem (reversed : Bytes) {bs : Bytes} (h : 10 ∉ bs) :
    linesFrom reversed bs =
      if bs.reverse ++ reversed = [] then [] else [(bs.reverse ++ reversed).reverse] := by
  induction bs generalizing reversed with
  | nil => rfl
  | cons b bs ih =>
    rw [linesFrom, if_neg (List.ne_of_not_mem_cons h).symm, ih _ (List.not_mem_of_not_mem_cons h)]
    simp

/-- **The last line** is what follows the last line feed, if anything does. -/
theorem lines_eq (bs : Bytes) : lines bs =
    lines (settled bs) ++ if ending bs = [] then [] else [ending bs] := by
  have hlast : lines (ending bs) = if ending bs = [] then [] else [ending bs] := by
    rw [lines, linesFrom_of_not_mem [] (feed_not_mem_ending bs)]
    simp
  rw [← hlast, ← lines_settled_append, settled_append_ending]

/-- **A line that is added** continues the last line. -/
theorem lines_append_line (bs : Bytes) (m : Message) : lines (bs ++ line m) =
    lines (settled bs) ++ [ending bs ++ utf8 m.toJson.render] := by
  have hfeed : 10 ∉ ending bs ++ utf8 m.toJson.render := by
    rw [List.mem_append, not_or]
    exact ⟨feed_not_mem_ending bs, feed_not_mem m⟩
  have hlast : lines (ending bs ++ line m) = [ending bs ++ utf8 m.toJson.render] := by
    rw [line_eq, ← List.append_assoc, lines, linesFrom_append_feed [] _ [] hfeed, List.append_nil,
      closeLine_render]
    rfl
  rw [← hlast, ← lines_settled_append, ← List.append_assoc, settled_append_ending]

theorem readLines_append (path : String) (ls ls' : List Bytes) : readLines path (ls ++ ls') =
    readLines path ls >>= fun ms => (readLines path ls').map (ms ++ ·) := by
  induction ls with
  | nil =>
    show readLines path ls' = (readLines path ls').map fun ms => ms
    cases readLines path ls' <;> rfl
  | cons l ls ih =>
    rw [List.cons_append, readLines, readLines]
    split
    · rfl
    · split
      · exact ih
      · split
        · rw [ih]
          cases readLines path ls with
          | error e => rfl
          | ok ms => cases readLines path ls' <;> rfl
        · rfl

/-! ### A further line -/

/-- White space before a record does not matter. -/
theorem whole_gap {gs : Json.Input} (h : ∀ g ∈ gs, Json.isGap g) (rest : Json.Input) :
    Json.whole Message.reader (gs ++ rest) = Json.whole Message.reader rest := by
  have hskip : Json.skipGap (gs ++ rest) = Json.skipGap rest := by
    rw [Json.skipGap, Json.skipGap, List.dropWhile_append_of_pos h]
  rw [Json.whole, Json.whole, Message.reader, Json.record, Json.record, hskip]

/-- White space is made of characters. -/
theorem exists_text_of_gap {bs : Bytes} (h : ∀ g ∈ glyphs bs, Json.isGap g) :
    ∃ t, bs.text? = some t := by
  have hchars : ∀ gs : List Glyph, (∀ g ∈ gs, Json.isGap g) →
      ∃ cs : List Char, gs = cs.map .char := by
    intro gs hgs
    induction gs with
    | nil => exact ⟨[], rfl⟩
    | cons g gs ih =>
      obtain ⟨hg, hrest⟩ := List.forall_mem_cons.mp hgs
      obtain ⟨cs, rfl⟩ := ih hrest
      cases g with
      | char c => exact ⟨c :: cs, rfl⟩
      | stray => cases hg
  obtain ⟨cs, hcs⟩ := hchars _ h
  refine ⟨String.ofList cs, text?_eq_some_iff.mpr ?_⟩
  rw [hcs, Glyph.ofString, String.toList_ofList]

theorem ofString_append (s t : String) :
    Glyph.ofString (s ++ t) = Glyph.ofString s ++ Glyph.ofString t := by
  rw [Glyph.ofString, String.toList_append, List.map_append]
  rfl

theorem isBlank_append_render (t : String) (m : Message) :
    isBlank (t ++ m.toJson.render) = false := by
  have hrender := isBlank_render m
  rw [isBlank] at hrender ⊢
  rw [String.toList_append, List.all_append, hrender, Bool.and_false]

/-- **A message behind white space** is read. -/
theorem readLines_gap (path : String) {bs : Bytes} (h : ∀ g ∈ glyphs bs, Json.isGap g)
    {m : Message} (hcreated : m.createdAt.isValid) :
    readLines path [bs ++ utf8 m.toJson.render] = .ok [m] := by
  obtain ⟨t, ht⟩ := exists_text_of_gap h
  rw [text?_eq_some_iff.mp ht] at h
  have hwhole : Json.whole Message.reader (Glyph.ofString (t ++ m.toJson.render)) = .ok m := by
    rw [ofString_append, whole_gap h, Message.read_render hcreated]
  rw [readLines, text?_append ht]
  simp only [isBlank_append_render, Bool.false_eq_true, if_false, hwhole, readLines]
  rfl

/-- No white space begins a record. -/
theorem whole_space {t : String} (hblank : isBlank t) {gs : Json.Input}
    (hgap : ¬ ∀ g ∈ Glyph.ofString t, Json.isGap g) :
    ∃ e, Json.whole Message.reader (Glyph.ofString t ++ gs) = .error e := by
  have hne : Json.skipGap (Glyph.ofString t) ≠ [] := by
    rw [Json.skipGap, Ne, List.dropWhile_eq_nil_iff]
    exact hgap
  obtain ⟨g, tail, htail⟩ := List.exists_cons_of_ne_nil hne
  have hmem : g ∈ Glyph.ofString t := by
    refine (List.dropWhile_sublist Json.isGap).subset ?_
    rw [← Json.skipGap, htail]
    exact List.mem_cons_self
  obtain ⟨c, hc, rfl⟩ := List.mem_map.mp hmem
  have hspace := isBlank_iff.mp hblank c hc
  have hmore := Json.skipGap_append htail (List.cons_ne_nil _ _) gs
  have hrecord : ∃ e, Message.reader (Glyph.ofString t ++ gs) = .error e := by
    rw [Message.reader, Json.record, hmore]
    split
    · rename_i heq
      cases heq
      cases hspace
    · rename_i heq
      cases heq
      cases hspace
    · exact ⟨_, rfl⟩
  obtain ⟨e, he⟩ := hrecord
  rw [Json.whole, he]
  exact ⟨e, rfl⟩

/-- **A message behind something else** cannot be read. -/
theorem readLines_unfinished {path : String} {bs : Bytes} {ms : List Message}
    (hread : readLines path [bs] = .ok ms) (h : ¬ ∀ g ∈ glyphs bs, Json.isGap g) (m : Message) :
    ∃ e, readLines path [bs ++ utf8 m.toJson.render] = .error e := by
  rw [readLines] at hread
  split at hread
  · cases hread
  · rename_i t ht
    rw [text?_eq_some_iff.mp ht] at h
    have hwhole : ∃ e, Json.whole Message.reader
        (Glyph.ofString t ++ Glyph.ofString m.toJson.render) = .error e := by
      split at hread
      · rename_i hblank
        exact whole_space hblank h
      · split at hread
        · rename_i m' hm'
          refine ⟨_, Json.whole_record_append Message.steady_fields hm' ?_⟩
          obtain ⟨cs, hcs, -⟩ := m.toJson_chars
          rw [Glyph.ofString, Json.Value.render, String.toList_ofList, hcs]
          exact List.cons_ne_nil _ _
        · cases hread
    obtain ⟨e, he⟩ := hwhole
    rw [readLines, text?_append ht]
    simp only [isBlank_append_render, Bool.false_eq_true, if_false, ofString_append, he]
    exact ⟨_, rfl⟩

/-! ### Further lines -/

variable {path : String} {bs : Bytes} {old ms : List Message}

/-- A file that is read is read up to its last line feed, and then its last line is read. -/
theorem exists_last (hread : readLines path (lines bs) = .ok old) : ∃ before last,
    readLines path (lines (settled bs)) = .ok before ∧
      readLines path (if ending bs = [] then [] else [ending bs]) = .ok last ∧
        before ++ last = old := by
  rw [lines_eq, readLines_append] at hread
  obtain ⟨before, hbefore, hread⟩ := bind_eq_ok hread
  obtain ⟨last, hlast, heq⟩ := map_eq_ok hread
  exact ⟨before, last, hbefore, hlast, heq⟩

/-- Nothing is read from white space. -/
theorem readLines_of_gap (h : ∀ g ∈ glyphs bs, Json.isGap g) : readLines path [bs] = .ok [] := by
  obtain ⟨t, ht⟩ := exists_text_of_gap h
  have hblank : isBlank t := by
    rw [isBlank_iff]
    intro c hc
    rw [text?_eq_some_iff.mp ht] at h
    have hgap := h (.char c) (List.mem_map_of_mem hc)
    simp only [Json.isGap, Bool.or_eq_true, decide_eq_true_eq] at hgap
    rcases hgap with ((rfl | rfl) | rfl) | rfl <;> rfl
  rw [readLines, ht]
  simp only [hblank, if_true]
  rfl

/-- **A line that is added to a finished file** is read. -/
theorem readLines_append_line (hread : readLines path (lines bs) = .ok old) (h : IsFinished bs)
    {m : Message} (hcreated : m.createdAt.isValid) :
    readLines path (lines (bs ++ line m)) = .ok (old ++ [m]) := by
  obtain ⟨before, last, hbefore, hlast, rfl⟩ := exists_last hread
  have hnone : last = [] := by
    split at hlast
    · cases hlast
      rfl
    · rw [readLines_of_gap h] at hlast
      cases hlast
      rfl
  rw [lines_append_line, readLines_append, hbefore, hnone, List.append_nil]
  show (readLines path [ending bs ++ utf8 m.toJson.render]).map (before ++ ·) = _
  rw [readLines_gap path h hcreated]
  rfl

/-- A file is finished when a line has been added to it. -/
theorem isFinished_append_line (bs : Bytes) (m : Message) : IsFinished (bs ++ line m) := by
  rw [IsFinished, ending_append_line]
  exact fun _ hg => absurd hg List.not_mem_nil

/-- **What is added to a finished file** is read. -/
theorem readLines_append_lines (hread : readLines path (lines bs) = .ok old) (h : IsFinished bs)
    (hcreated : ∀ m ∈ ms, m.createdAt.isValid) :
    readLines path (lines (bs ++ ms.flatMap line)) = .ok (old ++ ms) := by
  induction ms generalizing bs old with
  | nil =>
    rw [List.flatMap_nil, List.append_nil, List.append_nil]
    exact hread
  | cons m ms ih =>
    obtain ⟨hm, hms⟩ := List.forall_mem_cons.mp hcreated
    have hrest := ih (readLines_append_line hread h hm) (isFinished_append_line bs m) hms
    rwa [List.append_assoc, List.append_assoc] at hrest

/-- **What is added to an unfinished file** makes it unreadable. -/
theorem readLines_append_unfinished (hread : readLines path (lines bs) = .ok old)
    (h : ¬ IsFinished bs) (m : Message) (ms : List Message) :
    ∃ e, readLines path (lines (bs ++ (m :: ms).flatMap line)) = .error e := by
  obtain ⟨before, last, hbefore, hlast, -⟩ := exists_last hread
  have hopen : ending bs ≠ [] := by
    intro hnil
    rw [IsFinished, hnil] at h
    exact h fun _ hg => absurd hg List.not_mem_nil
  rw [if_neg hopen] at hlast
  obtain ⟨e, he⟩ := readLines_unfinished hlast h m
  have hsettled : settled (bs ++ line m) = bs ++ line m := by
    have hwhole := settled_append_ending (bs ++ line m)
    rwa [ending_append_line, List.append_nil] at hwhole
  refine ⟨e, ?_⟩
  rw [List.flatMap_cons, ← List.append_assoc, ← hsettled, lines_settled_append, hsettled,
    lines_append_line, readLines_append, readLines_append, hbefore]
  show (((readLines path [ending bs ++ utf8 m.toJson.render]).map (before ++ ·)) >>= _) = _
  rw [he]
  rfl

end FileStore

end SmsRelay
