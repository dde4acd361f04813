import SmsRelay.Proofs.Message.Decoding
import SmsRelay.Proofs.Text.Order
import SmsRelay.Proofs.Time.Order

/-!
# Ids in the order of time

The id of a message is made of its time, the year in front, so that ids that are compared byte by
byte stand in the order of time. This holds as long as the years take the same place. A year of four
digits does; one beyond 9999 takes a sign and a fifth digit, and a year before year 0 a sign, behind
which the greater number is the earlier year.

## Implementation notes

`yearBand` names the years whose ids can be compared: three bands of years from year 0 on, and each
negative year for itself. Records are compared by the timestamps that are read from them, so that
nothing is asked of how a record is written.

## Main results

* `Instant.withinYearText_lt_iff`: what an id holds behind the year is sorted as time is.
* `yearText_sorted_iff`: years are sorted as text within a band, and only there.
* `Event.ids_sorted_iff`: when the ids of two records stand in the order of their timestamps.
-/

namespace SmsRelay

/-! ### Behind the year -/

namespace Instant

variable {t t' : Instant}

/-- What an id holds behind the year. -/
def withinYearText (t : Instant) : List Char :=
  padded 2 t.date.month ++ (padded 2 t.date.day ++ (padded 2 t.hour ++ (padded 2 t.minute ++
    (padded 2 t.second ++ '.' :: padded 9 t.fraction))))

theorem toList_messageId (t : Instant) :
    (messageId t).toList = "msg-".toList ++ (Rfc3339.yearText t.date.year ++ t.withinYearText) := by
  refine String.toList_ofList.trans ?_
  simp only [List.append_assoc]
  rfl

/-- What an id holds fits into its places. -/
structure Fits (t : Instant) : Prop where
  month : t.date.month < pow10 2
  day : t.date.day < pow10 2
  hour : t.hour < pow10 2
  minute : t.minute < pow10 2
  second : t.second < pow10 2
  fraction : t.fraction < pow10 9

theorem fits (h : t.isValid) : t.Fits := by
  obtain ⟨-, hday, -⟩ := Rfc3339.instant_bounds h
  obtain ⟨hhour, hminute, -, hsecond⟩ := Rfc3339.clock hday
  obtain ⟨-, hmonth, -, hlast⟩ := CivilDate.isValid_iff.mp (CivilDate.isValid_ofDays t.day)
  have hpow : pow10 2 = 100 := rfl
  have hdate := hlast.trans (CivilDate.daysInMonth_le _ _)
  refine ⟨?_, ?_, ?_, ?_, ?_, Nat.mod_lt _ (by decide)⟩
  · exact Nat.lt_of_le_of_lt hmonth (by decide)
  · exact Nat.lt_of_le_of_lt hdate (by decide)
  all_goals omega

theorem length_withinYearText (h : t.Fits) : t.withinYearText.length = 20 := by
  simp only [withinYearText, List.length_append, List.length_cons, length_padded, h.month, h.day,
    h.hour, h.minute, h.second, h.fraction, Nat.zero_lt_succ]

/-- **Behind the year** text is sorted as time is. -/
theorem withinYearText_lt_iff (h : t.Fits) (h' : t'.Fits) :
    t.withinYearText < t'.withinYearText ↔ t.withinYear < t'.withinYear := by
  have htwo : 0 < 2 := by decide
  have hpoint : ¬ '.' < '.' := Char.lt_irrefl '.'
  simp only [withinYearText, withinYear, List.cons_lt_cons_iff, List.not_lt_nil, and_false,
    or_false, padded_append_lt_iff htwo h.month h'.month, padded_append_lt_iff htwo h.day h'.day,
    padded_append_lt_iff htwo h.hour h'.hour, padded_append_lt_iff htwo h.minute h'.minute,
    padded_append_lt_iff htwo h.second h'.second, hpoint, false_or, true_and,
    padded_lt_padded_iff (by decide : 0 < 9) h.fraction h'.fraction]

end Instant

/-! ### Years -/

/-- The digits that a year takes. -/
def yearWidth (year : ℤ) : ℕ :=
  if year.natAbs < pow10 4 then 4 else if year.natAbs < pow10 5 then 5 else 6

/-- The years that ids are sorted by: those of four, of five and of six digits. A negative year is
in no band with another one. -/
def yearBand (year : ℤ) : ℤ := if year < 0 then year else yearWidth year

/-- A number that needs no zero in front. -/
theorem padded_of_le {w k n : ℕ} (hk : 0 < k) (hw : w ≤ k + 1) (hn : pow10 k ≤ n) :
    padded w n = padded (k + 1) n := by
  have hlong : ¬ (digits n).length ≤ k :=
    fun hle => Nat.not_lt.mpr hn ((Nat.length_toDigits_le_iff (by decide) hk).mp hle)
  have hzeros : w - (digits n).length = 0 ∧ k + 1 - (digits n).length = 0 := by omega
  rw [padded, padded, hzeros.1, hzeros.2]

theorem yearWidth_spec (year : ℤ) :
    4 ≤ yearWidth year ∧ (yearWidth year = 4 ↔ year.natAbs < 10000) := by
  have hpow : pow10 4 = 10000 := rfl
  rw [yearWidth]
  split
  · omega
  · split <;> omega

/-- A year is written with the digits that it takes. -/
theorem padded_year {year : ℤ} (h : year.natAbs < pow10 6) :
    padded 4 year.natAbs = padded (yearWidth year) year.natAbs ∧
      year.natAbs < pow10 (yearWidth year) := by
  rw [yearWidth]
  split
  · exact ⟨rfl, ‹_›⟩
  split
  · exact ⟨padded_of_le (by decide) (by decide) (Nat.not_lt.mp ‹_›), ‹_›⟩
  · exact ⟨padded_of_le (by decide) (by decide) (Nat.not_lt.mp ‹_›), h⟩

open Rfc3339 (yearText)

/-- Years of four digits. -/
theorem yearText_short {year : ℤ} (h : 0 ≤ year) (h' : year ≤ 9999) :
    yearText year = padded (yearWidth year) year.natAbs := by
  have hshort : year.natAbs < pow10 4 := by
    have : pow10 4 = 10000 := rfl
    omega
  rw [yearText, if_pos ⟨h, h'⟩, yearWidth, if_pos hshort]
  congr 1
  omega

/-- Years before year 0. -/
theorem yearText_negative {year : ℤ} (h : year < 0) (hsix : year.natAbs < pow10 6) :
    yearText year = '-' :: padded (yearWidth year) year.natAbs := by
  rw [yearText, if_neg (by omega), if_pos h, (padded_year hsix).1]

/-- Years of more than four digits. -/
theorem yearText_long {year : ℤ} (h : 9999 < year) (hsix : year.natAbs < pow10 6) :
    yearText year = '+' :: padded (yearWidth year) year.natAbs := by
  have hnot : ¬ (0 ≤ year ∧ year ≤ 9999) := by omega
  have hnonneg : ¬ year < 0 := by omega
  rw [yearText, if_neg hnot, if_neg hnonneg, (padded_year hsix).1]

theorem yearText_inj {year year' : ℤ} : yearText year = yearText year' ↔ year = year' := by
  refine ⟨fun h => ?_, fun h => h ▸ rfl⟩
  have hread : Rfc3339.year? (yearText year ++ []) = some (year, []) :=
    Rfc3339.year?_yearText year (by simp)
  rw [h, Rfc3339.year?_yearText year' (by simp)] at hread
  cases hread
  rfl

theorem length_padded_year {year : ℤ} (h : year.natAbs < pow10 6) :
    (padded (yearWidth year) year.natAbs).length = yearWidth year :=
  length_padded (Nat.lt_of_lt_of_le (by decide) (yearWidth_spec year).1) (padded_year h).2

/-- Years of as many digits are sorted by their amount. -/
theorem padded_year_lt_iff {year year' : ℤ} (h : year.natAbs < pow10 6)
    (h' : year'.natAbs < pow10 6) (hwidth : yearWidth year = yearWidth year') :
    padded (yearWidth year) year.natAbs < padded (yearWidth year') year'.natAbs ↔
      year.natAbs < year'.natAbs := by
  have hpos : 0 < yearWidth year := Nat.lt_of_lt_of_le (by decide) (yearWidth_spec year).1
  rw [← hwidth]
  exact padded_lt_padded_iff hpos (padded_year h).2 (hwidth ▸ (padded_year h').2)

/-- **Years as text.** Of two years, the later one stands behind the earlier one and takes as many
characters if and only if both are in one band. -/
theorem yearText_sorted_iff {year year' : ℤ} (h : year.natAbs < pow10 6)
    (h' : year'.natAbs < pow10 6) (hlt : year < year') :
    yearText year < yearText year' ∧ (yearText year).length = (yearText year').length ↔
      yearBand year = yearBand year' := by
  obtain ⟨hfour, hwidth⟩ := yearWidth_spec year
  obtain ⟨hfour', hwidth'⟩ := yearWidth_spec year'
  have hlength := length_padded_year h
  have hlength' := length_padded_year h'
  have hsorted := padded_year_lt_iff h h'
  have hmark : ¬ '-' < '-' ∧ ¬ '+' < '+' ∧ ¬ '-' < '+' ∧ '-' ≠ '+' := by decide
  rcases Int.lt_or_le year 0 with hneg | hnonneg
  · -- no year is sorted behind a negative one
    have hband : yearBand year = year := if_pos hneg
    rw [yearText_negative hneg h, hband]
    rcases Int.lt_or_le year' 0 with hneg' | hnonneg'
    · have hband' : yearBand year' = year' := if_pos hneg'
      rw [yearText_negative hneg' h', hband', List.cons_lt_cons_iff, List.length_cons,
        List.length_cons, hlength, hlength']
      grind
    · have hband' : yearBand year' = yearWidth year' := if_neg (Int.not_lt.mpr hnonneg')
      rcases Int.lt_or_le 9999 year' with hlong | hshort
      · rw [yearText_long hlong h', hband', List.cons_lt_cons_iff]
        grind
      · rw [yearText_short hnonneg' hshort, hband', List.length_cons, hlength, hlength']
        omega
  · have hband : yearBand year = yearWidth year := if_neg (Int.not_lt.mpr hnonneg)
    have hband' : yearBand year' = yearWidth year' := if_neg (by omega)
    rw [hband, hband', Int.natCast_inj]
    rcases Int.lt_or_le 9999 year with hlong | hshort
    · rw [yearText_long hlong h, yearText_long (by omega) h', List.cons_lt_cons_iff,
        List.length_cons, List.length_cons, hlength, hlength']
      grind
    · rw [yearText_short hnonneg hshort]
      rcases Int.lt_or_le 9999 year' with hlong' | hshort'
      · rw [yearText_long hlong' h', List.length_cons, hlength, hlength']
        omega
      · rw [yearText_short (by omega) hshort', hlength, hlength']
        grind

/-! ### Ids -/

/-- A character of one byte. -/
theorem plain_of_isDigit {c : Char} (h : c.isDigit) : c.toNat < 0x80 := by
  have hbounds : 48 ≤ c.toNat ∧ c.toNat ≤ 57 := Char.isDigit_iff_toNat.mp h
  omega

theorem plain_yearText {year : ℤ} {c : Char} (h : c ∈ yearText year) : c.toNat < 0x80 := by
  have hdigit : ∀ {n}, c ∈ padded 4 n → c.toNat < 0x80 :=
    fun hc => plain_of_isDigit (isDigit_of_mem_padded hc)
  rw [yearText] at h
  split at h
  · exact hdigit h
  · rcases List.mem_cons.mp h with rfl | h
    · split <;> decide
    · exact hdigit h

theorem plain_withinYearText {t : Instant} {c : Char} (h : c ∈ t.withinYearText) :
    c.toNat < 0x80 := by
  have hdigit : ∀ {w n}, c ∈ padded w n → c.toNat < 0x80 :=
    fun hc => plain_of_isDigit (isDigit_of_mem_padded hc)
  simp only [Instant.withinYearText, List.mem_append, List.mem_cons] at h
  rcases h with h | h | h | h | h | h | h
  · exact hdigit h
  · exact hdigit h
  · exact hdigit h
  · exact hdigit h
  · exact hdigit h
  · rw [h]
    decide
  · exact hdigit h

theorem plain_messageId (t : Instant) : ∀ c ∈ (messageId t).toList, c.toNat < 0x80 := by
  intro c hc
  rw [Instant.toList_messageId, List.mem_append, List.mem_append] at hc
  rcases hc with hc | hc | hc
  · have hall : "msg-".toList.all (fun c => decide (c.toNat < 0x80)) := by decide
    exact of_decide_eq_true (List.all_eq_true.mp hall c hc)
  · exact plain_yearText hc
  · exact plain_withinYearText hc

theorem length_messageId {t : Instant} (h : t.isValid) :
    (utf8 (messageId t)).length = (yearText t.date.year).length + 24 := by
  rw [length_utf8_ascii (plain_messageId t), Instant.toList_messageId, List.length_append,
    List.length_append, Instant.length_withinYearText (Instant.fits h)]
  have hmsg : "msg-".toList.length = 4 := by decide
  omega

theorem messageId_lt_iff {t t' : Instant} (h : t.isValid) (h' : t'.isValid)
    (hlength : (yearText t.date.year).length = (yearText t'.date.year).length) :
    utf8 (messageId t) < utf8 (messageId t') ↔ yearText t.date.year < yearText t'.date.year ∨
      t.date.year = t'.date.year ∧ t.withinYear < t'.withinYear := by
  rw [utf8_lt_iff (plain_messageId t) (plain_messageId t'), Instant.toList_messageId,
    Instant.toList_messageId, append_lt_append_iff rfl, append_lt_append_iff hlength,
    Instant.withinYearText_lt_iff (Instant.fits h) (Instant.fits h'), yearText_inj]
  simp

/-- **Ids of two instants**, of which the first is the earlier one. -/
theorem messageId_sorted_iff {t t' : Instant} (h : t.isValid) (h' : t'.isValid)
    (hsecond : t.nanos < 1000000000) (hsecond' : t'.nanos < 1000000000)
    (hlt : t.seconds * 1000000000 + t.nanos < t'.seconds * 1000000000 + t'.nanos) :
    utf8 (messageId t) < utf8 (messageId t') ∧
        (utf8 (messageId t)).length = (utf8 (messageId t')).length ↔
      yearBand t.date.year = yearBand t'.date.year := by
  have hpow : pow10 6 = 1000000 := rfl
  have hyear := Instant.year_bounds h
  have hyear' := Instant.year_bounds h'
  rw [length_messageId h, length_messageId h', Nat.add_right_cancel_iff,
    and_congr_left (messageId_lt_iff h h')]
  rcases Instant.year_or_withinYear_lt hsecond hsecond' hlt with hless | ⟨hsame, hwithin⟩
  · rw [← yearText_sorted_iff (by omega) (by omega) hless]
    have hne : t.date.year ≠ t'.date.year := Int.ne_of_lt hless
    simp only [hne, false_and, or_false]
  · rw [hsame]
    exact ⟨fun _ => rfl, fun _ => ⟨.inr ⟨rfl, hwithin⟩, rfl⟩⟩

namespace Event

variable {bs bs' : Bytes} {e e' : Event} {m m' : Message}

/-- The time of a message is the timestamp of the event that was read. -/
theorem id_of_decode (hread : Json.whole reader (glyphs bs) = .ok e) (h : decode bs = .ok m) :
    m.id = messageId m.createdAt ∧ m.createdAt.isValid ∧
      Instant.ofMillis? e.timestamp = some m.createdAt := by
  have hvalid := isValid_of_decode h
  rw [decode, hread] at h
  obtain ⟨-, -, -, t, ht, rfl⟩ := toMessage_ok_iff.mp h
  exact ⟨rfl, hvalid, ht⟩

/-- **Ids in the order of time.** For any two records that become messages: of one timestamp they
have one id; if the first timestamp is the smaller one, its id comes first and takes as many bytes
if and only if both years are in one band; and the id of a year of four digits takes 28 bytes. -/
theorem ids_sorted_iff (hread : Json.whole reader (glyphs bs) = .ok e)
    (hread' : Json.whole reader (glyphs bs') = .ok e') (h : decode bs = .ok m)
    (h' : decode bs' = .ok m') :
    (e.timestamp = e'.timestamp → m.id = m'.id) ∧
      (e.timestamp < e'.timestamp →
        (utf8 m.id < utf8 m'.id ∧ (utf8 m.id).length = (utf8 m'.id).length ↔
          yearBand m.createdAt.date.year = yearBand m'.createdAt.date.year)) ∧
      (0 ≤ m.createdAt.date.year ∧ m.createdAt.date.year ≤ 9999 → (utf8 m.id).length = 28) := by
  obtain ⟨hid, hvalid, htime⟩ := id_of_decode hread h
  obtain ⟨hid', hvalid', htime'⟩ := id_of_decode hread' h'
  obtain ⟨-, hsecond, hmillis⟩ := Instant.ofMillis?_eq_some_iff.mp htime
  obtain ⟨-, hsecond', hmillis'⟩ := Instant.ofMillis?_eq_some_iff.mp htime'
  rw [hid, hid']
  refine ⟨fun hsame => ?_, fun hlt => ?_, fun ⟨hlow, hhigh⟩ => ?_⟩
  · rw [hsame, htime'] at htime
    rw [Option.some.inj htime]
  · exact messageId_sorted_iff hvalid hvalid' hsecond hsecond' (by omega)
  · have hshort : yearWidth m.createdAt.date.year = 4 :=
      (yearWidth_spec _).2.mpr (by omega)
    have hpow : pow10 6 = 1000000 := rfl
    rw [length_messageId hvalid, yearText_short hlow hhigh, length_padded_year (by omega), hshort]

/-- An event of the last millisecond of 1969 and one of the first of 1970. -/
theorem ids_sorted_new_year :
    let e : Event := ⟨"", "1", "a", "FAIL", -1⟩
    let e' : Event := ⟨"", "1", "a", "FAIL", 0⟩
    ∃ m m', decode e.encode = .ok m ∧ decode e'.encode = .ok m' ∧
      m.id = "msg-19691231235959.999000000" ∧ m'.id = "msg-19700101000000.000000000" ∧
      utf8 m.id < utf8 m'.id ∧ (utf8 m.id).length = (utf8 m'.id).length := by
  intro e e'
  have hread := read_encode (e := e) (by decide) (by decide)
  have hread' := read_encode (e := e') (by decide) (by decide)
  have hdecode : decode e.encode
      = .ok ⟨"msg-19691231235959.999000000", "", "1", "a", "FAIL", ⟨-1, 999000000⟩⟩ := by
    rw [decode_encode (by decide) (by decide)]
    decide +kernel
  have hdecode' : decode e'.encode
      = .ok ⟨"msg-19700101000000.000000000", "", "1", "a", "FAIL", ⟨0, 0⟩⟩ := by
    rw [decode_encode (by decide) (by decide)]
    decide +kernel
  obtain ⟨-, hsorted, -⟩ := ids_sorted_iff hread hread' hdecode hdecode'
  obtain ⟨hlt, hlength⟩ := (hsorted (by decide)).mpr (by decide)
  exact ⟨_, _, hdecode, hdecode', rfl, rfl, hlt, hlength⟩

/-- **The last millisecond of the year 9999** and the first one of the year 10000 have ids of
different lengths, and the later one comes first. -/
theorem ids_unsorted :
    let e : Event := ⟨"", "1", "t", "SUCCESS", 253402300799999⟩
    let e' : Event := ⟨"", "1", "t", "SUCCESS", 253402300800000⟩
    e.timestamp < e'.timestamp ∧
      ∃ m m', decode e.encode = .ok m ∧ decode e'.encode = .ok m' ∧
        m.id = "msg-99991231235959.999000000" ∧ m'.id = "msg-+100000101000000.000000000" ∧
        ¬ utf8 m.id < utf8 m'.id ∧ (utf8 m.id).length ≠ (utf8 m'.id).length := by
  intro e e'
  have hdecode : decode e.encode = .ok
      ⟨"msg-99991231235959.999000000", "", "1", "t", "SUCCESS", ⟨253402300799, 999000000⟩⟩ := by
    rw [decode_encode (by decide) (by decide)]
    decide +kernel
  have hdecode' : decode e'.encode = .ok
      ⟨"msg-+100000101000000.000000000", "", "1", "t", "SUCCESS", ⟨253402300800, 0⟩⟩ := by
    rw [decode_encode (by decide) (by decide)]
    decide +kernel
  exact ⟨by decide, _, _, hdecode, hdecode', rfl, rfl, by decide, by decide⟩

end Event

end SmsRelay
