import SmsRelay.Proofs.Message.RoundTrip
import SmsRelay.Store.File

/-!
# The lines of a file

A message is written on one line, whatever its texts hold, and a file of such lines is read back as
the messages in their order.

## Main results

* `lines_flatMap`: each message takes one line.
* `readLines_lines`: the messages are read back.
-/

namespace SmsRelay

/-! ### One line -/

namespace Json

/-- Line feeds are escaped. -/
theorem ne_feed_of_mem_escaped {c d : Char} (h : c ∈ escaped d) : c ≠ '\n' := by
  have hhex : ∀ n : Fin 32, hexDigit (n.val / 16) ≠ '\n' ∧ hexDigit (n.val % 16) ≠ '\n' := by
    decide
  have hpair : ∀ e, e ≠ '\n' → c ∈ ['\\', e] → c ≠ '\n' := by
    intro e he hc
    rcases List.mem_cons.mp hc with rfl | hc
    · decide
    · rwa [List.mem_singleton.mp hc]
  simp only [escaped] at h
  split at h
  · exact hpair _ (by decide) h
  split at h
  · exact hpair _ (by decide) h
  split at h
  · rename_i hcontrol
    obtain ⟨hhigh, hlow⟩ := hhex ⟨d.toNat, hcontrol⟩
    iterate 5
      split at h
      · exact hpair _ (by decide) h
    simp only [List.mem_cons, List.not_mem_nil, or_false] at h
    rcases h with rfl | rfl | rfl | rfl | rfl | rfl
    · decide
    · decide
    · decide
    · decide
    · exact hhigh
    · exact hlow
  · rename_i hplain
    rw [List.mem_singleton.mp h]
    rintro rfl
    exact hplain (by decide)

theorem ne_feed_of_mem_quoted {s : String} {c : Char} (h : c ∈ quoted s) : c ≠ '\n' := by
  rw [quoted, List.cons_append] at h
  rcases List.mem_cons.mp h with rfl | h
  · decide
  · rcases List.mem_append.mp h with h | h
    · obtain ⟨d, -, hd⟩ := List.mem_flatMap.mp h
      exact ne_feed_of_mem_escaped hd
    · rw [List.mem_singleton.mp h]
      decide

/-- A record of strings is written on one line. -/
theorem ne_feed_of_mem_memberChars (ms : List (String × String)) {c : Char}
    (h : c ∈ memberChars (ms.map fun p => (p.1, .text p.2))) : c ≠ '\n' := by
  induction ms with
  | nil => cases h
  | cons p ms ih =>
    have hmember : c ∈ quoted p.1 ++ ':' :: quoted p.2 → c ≠ '\n' := by
      intro h
      rcases List.mem_append.mp h with h | h
      · exact ne_feed_of_mem_quoted h
      · rcases List.mem_cons.mp h with rfl | h
        · decide
        · exact ne_feed_of_mem_quoted h
    cases ms with
    | nil => exact hmember h
    | cons q ms =>
      rcases List.mem_append.mp h with h | h
      · exact hmember h
      · rcases List.mem_cons.mp h with rfl | h
        · decide
        · exact ih h

end Json

/-- The text of a message stands between braces on one line. -/
theorem Message.toJson_chars (m : Message) : ∃ cs, m.toJson.chars = '{' :: cs ++ ['}'] ∧
    ∀ c ∈ cs, c ≠ '\n' :=
  ⟨_, rfl, fun _ hc => Json.ne_feed_of_mem_memberChars [("id", m.id),
    ("correlationId", m.correlationId), ("phoneNumber", m.phone), ("text", m.text),
    ("status", m.status), ("createdAt", Rfc3339.render m.createdAt)] hc⟩

namespace FileStore

/-! ### Many lines -/

/-- A line ends with its line feed. -/
theorem line_eq (m : Message) : line m = utf8 m.toJson.render ++ [10] := by
  rw [line, utf8, utf8, String.toList_append, List.flatMap_append]
  rfl

theorem feed_not_mem (m : Message) : 10 ∉ utf8 m.toJson.render := by
  intro h
  obtain ⟨cs, hchars, hcs⟩ := m.toJson_chars
  rw [utf8, Json.Value.render, String.toList_ofList, hchars] at h
  obtain ⟨c, hc, hbyte⟩ := List.mem_flatMap.mp h
  have hfeed : c = '\n' := Char.toNat_inj.mp (mem_utf8EncodeChar hbyte (by decide)).symm
  subst hfeed
  rw [List.cons_append] at hc
  rcases List.mem_cons.mp hc with hc | hc
  · cases hc
  · rcases List.mem_append.mp hc with hc | hc
    · exact hcs _ hc rfl
    · cases List.mem_singleton.mp hc

/-- The text of a message ends in a brace. -/
theorem exists_brace (m : Message) : ∃ bs, utf8 m.toJson.render = bs ++ [125] := by
  obtain ⟨cs, hchars, -⟩ := m.toJson_chars
  refine ⟨('{' :: cs).flatMap String.utf8EncodeChar, ?_⟩
  rw [utf8, Json.Value.render, String.toList_ofList, hchars, List.flatMap_append]
  rfl

/-- The closing brace keeps the line from ending in a carriage return. -/
theorem closeLine_render (bs : Bytes) (m : Message) :
    closeLine (bs ++ utf8 m.toJson.render).reverse = bs ++ utf8 m.toJson.render := by
  obtain ⟨before, hbrace⟩ := exists_brace m
  rw [hbrace, ← List.append_assoc, List.reverse_append]
  show (125 :: (bs ++ before).reverse).reverse = _
  rw [List.reverse_cons, List.reverse_reverse]

/-- **Each message takes one line.** -/
theorem lines_flatMap (ms : List Message) :
    lines (ms.flatMap line) = ms.map fun m => utf8 m.toJson.render := by
  induction ms with
  | nil => rfl
  | cons m ms ih =>
    have happend : (m :: ms).flatMap line = utf8 m.toJson.render ++ 10 :: ms.flatMap line := by
      rw [List.flatMap_cons, line_eq, List.append_assoc]
      rfl
    have hclose := closeLine_render [] m
    rw [List.nil_append] at hclose
    rw [lines, happend, linesFrom_append_feed _ _ _ (feed_not_mem m), List.append_nil, hclose,
      List.map_cons, ← ih]
    rfl

theorem isBlank_render (m : Message) : isBlank m.toJson.render = false := by
  obtain ⟨cs, hchars, -⟩ := m.toJson_chars
  rw [isBlank, Json.Value.render, String.toList_ofList, hchars]
  rfl

/-- **A file is read back** as the messages that have been written to it. -/
theorem readLines_lines (path : String) {ms : List Message} (h : ∀ m ∈ ms, m.createdAt.isValid) :
    readLines path (lines (ms.flatMap line)) = .ok ms := by
  rw [lines_flatMap]
  induction ms with
  | nil => rfl
  | cons m ms ih =>
    have hread := Message.read_render (h m List.mem_cons_self)
    rw [List.map_cons, readLines, text?_utf8]
    simp only [isBlank_render, Bool.false_eq_true, if_false, hread,
      ih fun n hn => h n (List.mem_cons_of_mem m hn)]
    rfl

end FileStore

end SmsRelay
