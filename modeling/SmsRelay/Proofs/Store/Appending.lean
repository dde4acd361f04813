import Mathlib.Data.List.Forall2
import SmsRelay.Proofs.Json.Building
import SmsRelay.Proofs.Store.Removal
import SmsRelay.Proofs.Time.Validity

/-!
# Lines are added and read back

The lines of messages are added to a file one by one. Whatever the texts of the messages hold, each
message stands on one line, and the file is read back as the messages in their order. That holds for
all messages that have an instant, and so for all that have been read from anywhere.

## Implementation notes

A message has an instant if its `createdAt` lies within the range of days and, if it lies in a leap
second, ends a minute with it (`Instant.isValid`).

Disks may fail. `appendLines` stops at the first line that cannot be added, and what is said of the
file asks that the coming additions, as many as there are messages, run into no fault.

## Main results

* `Message.isValid_of_read`: messages that are read have an instant.
* `FileStore.readLines_lines_iff`: which messages are read back from their lines.
* `FileStore.read_appended`: an empty file to which lines have been added.
-/

namespace SmsRelay

/-! ### Messages that are read -/

namespace Message

/-- A message keeps having an instant, whichever of its fields is read. -/
theorem keeps_fields : ∀ f ∈ fields, Json.Keeps (fun m => m.createdAt.isValid) f := by
  have hinstant : ∀ gs t rest, instantReader gs = .ok (t, rest) → t.isValid := by
    intro gs t rest h
    obtain ⟨⟨s, rest'⟩, -, h⟩ := bind_eq_ok h
    dsimp only at h
    split at h
    · rename_i hread
      cases h
      exact Rfc3339.isValid_of_read? hread
    · cases h
  intro f hf
  simp only [fields, List.mem_cons, List.not_mem_nil, or_false] at hf
  rcases hf with rfl | rfl | rfl | rfl | rfl | rfl
  · exact Json.Keeps.mandatory (Json.keeps_of fun _ _ _ _ _ h => h)
  · exact Json.Keeps.mandatory (Json.keeps_of fun _ _ _ _ _ h => h)
  · exact Json.Keeps.mandatory (Json.keeps_of fun _ _ _ _ _ h => h)
  · exact Json.Keeps.mandatory (Json.keeps_of fun _ _ _ _ _ h => h)
  · exact Json.Keeps.mandatory (Json.keeps_of fun _ _ _ _ _ h => h)
  · exact Json.Keeps.mandatory (Json.keeps_of fun gs t rest h _ _ => hinstant gs t rest h)

/-- **A message that is read**, from whatever text, has an instant. -/
theorem isValid_of_read {gs : Json.Input} {m : Message} (h : Json.whole reader gs = .ok m) :
    m.createdAt.isValid := by
  have hblank : blank.createdAt.isValid := by decide
  have hkept := Json.whole_record_keeps keeps_fields hblank h
  exact hkept

end Message

namespace FileStore

/-! ### Adding lines -/

/-- Adds the lines of messages to a file one by one, up to the first that cannot be added. -/
def appendLines (path : String) : List Message → Disk → Except DiskError Unit × Disk
  | [], d => (.ok (), d)
  | m :: ms, d =>
    match d.append path (line m) with
    | (.ok (), d') => appendLines path ms d'
    | (.error e, d') => (.error e, d')

/-- No fault strikes the first of the coming additions, nor those after it. -/
theorem calm_cons {faults : List (Option DiskError)} {n : ℕ}
    (h : ∀ f ∈ faults.take (n + 1), f = none) :
    (∀ f ∈ faults.head?, f = none) ∧ ∀ f ∈ faults.tail.take n, f = none := by
  cases faults with
  | nil => simp
  | cons f faults => simpa using h

/-- **Lines are added** behind what a file holds. -/
theorem appendLines_file {ms : List Message} {d : Disk}
    (hcalm : ∀ f ∈ d.faults.take ms.length, f = none) {path : String} {q : Place}
    (hresolve : d.resolve path = .ok q) {content : Bytes} (hfile : d.at? q = some (.file content)) :
    ∃ d', appendLines path ms d = (.ok (), d') ∧ d'.resolve path = .ok q ∧
      d'.at? q = some (.file (content ++ ms.flatMap line)) := by
  induction ms generalizing d content with
  | nil => exact ⟨d, rfl, hresolve, by rw [List.flatMap_nil, List.append_nil, hfile]⟩
  | cons m ms ih =>
    have hq : q ≠ [] := by
      rintro rfl
      cases hfile
    obtain ⟨hfirst, hlater⟩ := calm_cons hcalm
    have hstays : ∀ p, d.at? p = some .directory →
        (({ d with faults := d.faults.tail } : Disk).put q (.file (content ++ line m))).at? p =
          some .directory := by
      intro p hp
      rw [Disk.at?_put _ hq, if_neg]
      · exact hp
      · rintro rfl
        rw [hfile] at hp
        cases hp
    rw [appendLines, Disk.append_calm hfirst hresolve (.inl hfile), List.flatMap_cons,
      ← List.append_assoc]
    refine ih hlater ?_ ?_
    · refine Disk.resolve_mono ?_ hstays hresolve
      rfl
    · rw [Disk.at?_put _ hq, if_pos rfl]

/-! ### What stands on the lines -/

/-- How a message stands on a line: the line holds its text and nothing else, is not blank, and is
read back if and only if the message has an instant. -/
structure Occupies (m : Message) (l : Bytes) : Prop where
  text : Bytes.text? l = some m.toJson.render
  unbroken : 10 ∉ l
  shown : isBlank m.toJson.render = false
  message : onLine l = some m ↔ m.createdAt.isValid
  instant : Rfc3339.read? (Rfc3339.render m.createdAt) = some m.createdAt ↔ m.createdAt.isValid

theorem isValid_of_onLine {l : Bytes} {m : Message} (h : onLine l = some m) :
    m.createdAt.isValid := by
  obtain ⟨t, -, h⟩ := Option.bind_eq_some_iff.mp h
  cases hread : Json.whole Message.reader (Glyph.ofString t) with
  | error e =>
    rw [hread] at h
    cases h
  | ok m' =>
    rw [hread] at h
    cases h
    exact Message.isValid_of_read hread

theorem onLine_render {m : Message} (h : m.createdAt.isValid) :
    onLine (utf8 m.toJson.render) = some m := by
  rw [onLine, text?_utf8, Option.bind_some, Message.read_render h]
  rfl

/-- **Every message** occupies a line. -/
theorem occupies (m : Message) : Occupies m (utf8 m.toJson.render) where
  text := text?_utf8 _
  unbroken := feed_not_mem m
  shown := isBlank_render m
  message := ⟨isValid_of_onLine, onLine_render⟩
  instant := Rfc3339.read?_render_iff

/-- Whatever a file holds, the messages that are read from it have an instant. -/
theorem isValid_of_readLines {path : String} {ls : List Bytes} {ms : List Message}
    (h : readLines path ls = .ok ms) : ∀ m ∈ ms, m.createdAt.isValid := by
  intro m hm
  obtain ⟨l, -, hl⟩ := List.mem_filterMap.mp (mem_onLine_of_readLines h hm)
  exact isValid_of_onLine hl

/-- **Messages are read back** from their lines if and only if each of them has an instant. -/
theorem readLines_lines_iff {path : String} {ms : List Message} :
    readLines path (lines (ms.flatMap line)) = .ok ms ↔ ∀ m ∈ ms, m.createdAt.isValid :=
  ⟨isValid_of_readLines, readLines_lines path⟩

/-- **An empty file** to which the lines of messages have been added one by one holds each message
on a line of its own and is read back as the messages in their order. -/
theorem read_appended {d : Disk} {path : String} (hempty : d.read path = .ok [])
    (ms : List Message) (hcalm : ∀ f ∈ d.faults.take ms.length, f = none) :
    ∃ d' content, appendLines path ms d = (.ok (), d') ∧ d'.read path = .ok content ∧
      List.Forall₂ Occupies ms (lines content) ∧
      (readFile d' path = .ok ms ↔ ∀ m ∈ ms, m.createdAt.isValid) := by
  obtain ⟨q, hresolve, hfile⟩ := read_eq_ok_iff.mp hempty
  obtain ⟨d', hadded, hresolve', hfile'⟩ := appendLines_file hcalm hresolve hfile
  rw [List.nil_append] at hfile'
  have hlines : List.Forall₂ Occupies ms (lines (ms.flatMap line)) := by
    rw [lines_flatMap, List.forall₂_map_right_iff, List.forall₂_same]
    exact fun m _ => occupies m
  have hread : readFile d' path = readLines path (lines (ms.flatMap line)) := by
    rw [readFile, Disk.find, hresolve']
    dsimp only
    rw [hfile']
  exact ⟨d', ms.flatMap line, hadded, read_eq_ok_iff.mpr ⟨q, hresolve', hfile'⟩, hlines,
    hread ▸ readLines_lines_iff⟩

/-- A leap second long after the year 9999 and a nanosecond before the year 0, on a disk that is
about to fail. -/
theorem read_appended_far :
    let d : Disk :=
      { entries := [(["a.jsonl"], .file [])], faults := [none, none, some .noSpace] }
    let ms : List Message :=
      [⟨"msg-1", "c-1", "+100", "\n \"quoted\" \r\n", "PENDING",
        ⟨CivilDate.toDays ⟨10000, 6, 30⟩ * 86400 + 86399, 1500000000⟩⟩,
       ⟨"msg-2", "", "+100", "", "SUCCESS", ⟨CivilDate.toDays ⟨-1, 3, 1⟩ * 86400, 1⟩⟩]
    (d.read "a.jsonl" = .ok [] ∧ ∀ f ∈ d.faults.take ms.length, f = none) ∧
      ∃ d', appendLines "a.jsonl" ms d = (.ok (), d') ∧ readFile d' "a.jsonl" = .ok ms := by
  intro d ms
  have hempty : d.read "a.jsonl" = .ok [] := rfl
  have hcalm : ∀ f ∈ d.faults.take ms.length, f = none := by decide
  have hvalid : ∀ m ∈ ms, m.createdAt.isValid := by decide
  obtain ⟨d', content, hadded, -, -, hread⟩ := read_appended hempty ms hcalm
  exact ⟨⟨hempty, hcalm⟩, d', hadded, hread.mpr hvalid⟩

end FileStore

end SmsRelay
