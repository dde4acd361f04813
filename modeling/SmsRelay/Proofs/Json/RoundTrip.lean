import Mathlib.Data.Int.Notation
import SmsRelay.Json.Record
import SmsRelay.Json.Writer
import SmsRelay.Proofs.Text.Digits

/-!
# Reading back what has been written

A value is read back from its compact text, when what follows the text ends a value. Strings come
back whatever characters they hold, and integers of 64 bits; a record comes back when its members
are the fields of the reader.

## Implementation notes

`Reads r v a` says that the reader `r` takes the text of `v` to `a`. Numbers need to know that what
follows is no digit, so `Ends` asks for the end of the input or one of the characters that stand
after a value.

## Main results

* `reads_text`, `reads_int64`: strings and integers are read back.
* `members_read`: members are read back one after the other.
* `record_read`: a record is read back.
-/

namespace SmsRelay.Json

/-- The end of a value: nothing follows, or a character that stands after a value. -/
def Ends (gs : Input) : Prop := gs = [] ∨ ∃ c ∈ [',', '}', ']'], ∃ rest, gs = .char c :: rest

/-- The reader takes the text of a value to `a`. -/
def Reads {α : Type} (r : Reader α) (v : Value) (a : α) : Prop :=
  ∀ rest, Ends rest → r (v.chars.map .char ++ rest) = .ok (a, rest)

theorem ends_nil : Ends [] := .inl rfl

theorem ends_comma (rest : Input) : Ends (.char ',' :: rest) :=
  .inr ⟨',', by decide, rest, rfl⟩

theorem ends_brace (rest : Input) : Ends (.char '}' :: rest) :=
  .inr ⟨'}', by decide, rest, rfl⟩

theorem skipGap_cons {g : Glyph} (h : isGap g = false) (gs : Input) : skipGap (g :: gs) = g :: gs :=
  List.dropWhile_cons_of_neg (by rw [h]; exact Bool.false_ne_true)

/-! ### Strings -/

/-- A control character is spelled with four digits. -/
theorem hexCode?_control {c : Char} (h : c.toNat < 0x20) :
    hexCode? (.char '0') (.char '0') (.char (hexDigit (c.toNat / 16)))
      (.char (hexDigit (c.toNat % 16))) = some c.toNat := by
  have hall : ∀ n : Fin 32, hexCode? (.char '0') (.char '0') (.char (hexDigit (n.val / 16)))
      (.char (hexDigit (n.val % 16))) = some n.val := by decide
  exact hall ⟨c.toNat, h⟩

/-- **A character** of a string is read back. -/
theorem stringBody_escaped (c : Char) (rest : Input) :
    stringBody none ((escaped c).map .char ++ rest) = prepend c (stringBody none rest) := by
  rw [escaped]
  split
  · subst_vars
    rfl
  split
  · subst_vars
    rfl
  split
  · rename_i hcontrol
    have hc : Char.ofNat c.toNat = c := Char.ofNat_toNat c
    split
    · subst_vars
      rfl
    split
    · subst_vars
      rfl
    split
    · subst_vars
      rfl
    split
    · rename_i h8
      rw [← hc, h8]
      rfl
    split
    · rename_i h12
      rw [← hc, h12]
      rfl
    · simp only [List.map_cons, List.map_nil, List.cons_append, List.nil_append]
      rw [stringBody]
      simp only [if_true, hexCode?_control hcontrol]
      rw [if_neg (by omega), if_neg (by omega), hc]
  · rename_i hquote hslash hcontrol
    simp only [List.map_cons, List.map_nil, List.cons_append, List.nil_append]
    rw [stringBody.eq_def]
    dsimp only
    rw [if_neg hslash, if_neg (by simp), if_neg hquote, if_neg hcontrol]

theorem stringBody_quoted (cs : List Char) (rest : Input) :
    stringBody none ((cs.flatMap escaped).map .char ++ .char '"' :: rest) = .ok (cs, rest) := by
  induction cs with
  | nil =>
    show stringBody none (.char '"' :: rest) = _
    rw [stringBody.eq_def]
    rfl
  | cons c cs ih =>
    rw [List.flatMap_cons, List.map_append, List.append_assoc, stringBody_escaped, ih]
    rfl

theorem quoted_map (s : String) (rest : Input) : (quoted s).map .char ++ rest
    = .char '"' :: ((s.toList.flatMap escaped).map .char ++ .char '"' :: rest) := by
  simp [quoted]

/-- **Strings** are read back. -/
theorem reads_text (s : String) : Reads text (.text s) s := by
  intro rest _
  rw [Value.chars, quoted_map, text, skipGap_cons (by decide)]
  show Except.map _
    (stringBody none ((s.toList.flatMap escaped).map .char ++ .char '"' :: rest)) = _
  rw [stringBody_quoted, Except.map]
  dsimp only
  rw [String.ofList_toList]

/-! ### Integers -/

theorem digit?_of_isDigit {c : Char} (h : c.isDigit) : digit? (.char c) = some (c.toNat - 48) :=
  if_pos h

/-- What ends a value is neither a digit nor goes on with a number. -/
theorem digitRun_of_ends {rest : Input} (h : Ends rest) : digitRun rest = ([], rest) ∧
    partDigits rest = .ok (none, rest) ∧ exponentDigits rest = .ok (none, rest) := by
  rcases h with rfl | ⟨c, hc, rest, rfl⟩
  · exact ⟨rfl, rfl, rfl⟩
  · simp only [List.mem_cons, List.not_mem_nil, or_false] at hc
    rcases hc with rfl | rfl | rfl <;> exact ⟨rfl, rfl, rfl⟩

theorem digitRun_append {cs : List Char} (h : ∀ c ∈ cs, c.isDigit) {rest : Input}
    (hrest : digitRun rest = ([], rest)) :
    digitRun (cs.map .char ++ rest) = (cs.map (·.toNat - 48), rest) := by
  induction cs with
  | nil => exact hrest
  | cons c cs ih =>
    rw [List.map_cons, List.cons_append, digitRun, digit?_of_isDigit (h c List.mem_cons_self)]
    dsimp only
    rw [ih fun d hd => h d (List.mem_cons_of_mem c hd), List.map_cons]

/-- Digits that spell a number of 64 bits are all taken. -/
theorem takeDigits_of_lt (cs : List Char) {n : ℕ} (h : Nat.ofDigitChars 10 cs n < pow2 64) :
    takeDigits n (cs.map (·.toNat - 48)) = (Nat.ofDigitChars 10 cs n, []) := by
  induction cs generalizing n with
  | nil => rfl
  | cons c cs ih =>
    have heq : Nat.ofDigitChars 10 (c :: cs) n
        = Nat.ofDigitChars 10 cs (n * 10 + (c.toNat - 48)) := by
      rw [Nat.ofDigitChars_cons, Nat.mul_comm]
      rfl
    rw [heq] at h ⊢
    rw [List.map_cons, takeDigits, if_pos (Nat.lt_of_le_of_lt (le_ofDigitChars cs _) h), ih h]

/-- The zero is the only digit of no value. -/
theorem eq_zero_of_digit {c : Char} (h : c.isDigit) (hc : c.toNat - 48 = 0) : c = '0' := by
  have hbounds : 48 ≤ c.toNat ∧ c.toNat ≤ 57 := Char.isDigit_iff_toNat.mp h
  have hcode : c.toNat = '0'.toNat := by
    show c.toNat = 48
    omega
  exact Char.toNat_inj.mp hcode

theorem wholeDigits_digits (n : ℕ) {rest : Input} (hrest : digitRun rest = ([], rest)) :
    wholeDigits ((digits n).map .char ++ rest) = .ok ((digits n).map (·.toNat - 48), rest) := by
  have hrun := digitRun_append (fun c hc => isDigit_of_mem_digits (n := n) hc) hrest
  obtain ⟨c, cs, hcs⟩ := List.exists_cons_of_ne_nil (digits_ne_nil n)
  have hdigits : someDigits ((digits n).map .char ++ rest)
      = .ok ((digits n).map (·.toNat - 48), rest) := by
    rw [someDigits, hrun, hcs]
    rfl
  have hzero : ∀ d ds, (digits n).map (·.toNat - 48) ≠ 0 :: d :: ds := by
    intro d ds heq
    have hdigit := isDigit_of_mem_digits (n := n) (hcs ▸ List.mem_cons_self)
    rw [hcs, List.map_cons, List.cons.injEq] at heq
    rcases Nat.eq_zero_or_pos n with rfl | hpos
    · rw [digits, Nat.toDigits_zero] at hcs
      cases hcs
      cases heq.2
    · exact head?_digits_ne hpos (by rw [hcs, eq_zero_of_digit hdigit heq.1]; rfl)
  rw [wholeDigits, hdigits]
  simp only [bind, Except.bind]
  split
  · rename_i heq
    exact (hzero _ _ (Prod.mk.inj heq).1).elim
  · rfl

theorem numeral_digits (n : ℕ) {rest : Input} (hrest : Ends rest) :
    numeral ((digits n).map .char ++ rest)
      = .ok (⟨(digits n).map (·.toNat - 48), none, none⟩, rest) := by
  obtain ⟨hrun, hpart, hexponent⟩ := digitRun_of_ends hrest
  simp only [numeral, wholeDigits_digits n hrun, hpart, hexponent, bind, Except.bind]

/-- A numeral of digits alone stands for an integer. -/
theorem toNumber_digits {n : ℕ} (h : n < pow2 64) (isNegative : Bool) :
    Numeral.toNumber ⟨(digits n).map (·.toNat - 48), none, none⟩ isNegative =
      if !isNegative then .ok (.nat n)
      else if n = 0 ∨ pow2 63 < n then .ok (.float (.neg (.ofNat n)))
      else .ok (.negative n) := by
  have hvalue : Nat.ofDigitChars 10 (digits n) 0 = n := digitsValue_digits n
  have htake := takeDigits_of_lt (digits n) (n := 0) (hvalue.symm ▸ h)
  rw [hvalue] at htake
  simp only [Numeral.toNumber, htake]

theorem startsNumber_digits (n : ℕ) (rest : Input) :
    ∃ c gs, (digits n).map .char ++ rest = .char c :: gs ∧ c.isDigit := by
  obtain ⟨c, cs, hcs⟩ := List.exists_cons_of_ne_nil (digits_ne_nil n)
  refine ⟨c, cs.map .char ++ rest, by rw [hcs]; rfl, ?_⟩
  exact isDigit_of_mem_digits (n := n) (hcs ▸ List.mem_cons_self)

/-- **A number** of 64 bits is read back. -/
theorem number_digits {n : ℕ} (h : n < pow2 64) {rest : Input} (hrest : Ends rest) :
    number ((digits n).map .char ++ rest) = .ok (.nat n, rest) := by
  have hnumeral := numeral_digits n hrest
  obtain ⟨c, gs, heq, hc⟩ := startsNumber_digits n rest
  have hminus : c ≠ '-' := by
    rintro rfl
    cases hc
  rw [heq] at hnumeral ⊢
  unfold number
  split
  rename_i isNegative gs' hsign
  split at hsign
  · rename_i hcons
    cases hcons
    exact (hminus rfl).elim
  · cases hsign
    simp only [hnumeral, bind, Except.bind, toNumber_digits h]
    rfl

theorem number_minus {n : ℕ} (h : 0 < n) (h' : n ≤ pow2 63) {rest : Input} (hrest : Ends rest) :
    number (.char '-' :: ((digits n).map .char ++ rest)) = .ok (.negative n, rest) := by
  have hlt : n < pow2 64 := Nat.lt_of_le_of_lt h' (by decide)
  simp only [number, numeral_digits n hrest, bind, Except.bind, toNumber_digits hlt]
  rw [if_neg (by simp), if_neg (by omega)]

theorem numberWith_read {α : Type} {accept : Number → Option α} {c : Char} {gs rest : Input}
    {n : Number} {v : α} (hgap : isGap (.char c) = false) (hstarts : startsNumber (.char c :: gs))
    (hnumber : number (.char c :: gs) = .ok (n, rest)) (haccept : accept n = some v) :
    numberWith accept (.char c :: gs) = .ok (v, rest) := by
  simp only [numberWith, skipGap_cons hgap, hstarts, if_true, hnumber, bind, Except.bind, haccept]

/-- No digit is white space. -/
theorem isGap_of_isDigit {c : Char} (h : c.isDigit) : isGap (.char c) = false := by
  have hne : c ≠ ' ' ∧ c ≠ '\n' ∧ c ≠ '\t' ∧ c ≠ '\r' := by
    refine ⟨?_, ?_, ?_, ?_⟩ <;> rintro rfl <;> cases h
  simp [isGap, hne]

theorem toList_intText_negSucc (n : ℕ) : (intText (.negSucc n)).toList = '-' :: digits (n + 1) := by
  simp [intText, natText]

/-- **Integers** of 64 bits are read back. -/
theorem reads_int64 {i : ℤ} (h : -(pow2 63 : ℤ) ≤ i) (h' : i < (pow2 63 : ℤ)) :
    Reads int64 (.int i) i := by
  intro rest hrest
  have hbound : pow2 63 < pow2 64 := by decide
  rw [Value.chars]
  cases i with
  | ofNat n =>
    have hn : n < pow2 63 := Int.ofNat_lt.mp h'
    have hnumber := number_digits (Nat.lt_trans hn hbound) hrest
    obtain ⟨c, gs, heq, hc⟩ := startsNumber_digits n rest
    rw [intText, natText, String.toList_ofList]
    rw [heq] at hnumber ⊢
    refine numberWith_read (isGap_of_isDigit hc) ?_ hnumber (if_pos hn)
    rw [startsNumber, hc, Bool.or_true]
  | negSucc n =>
    have hn : n + 1 ≤ pow2 63 := by omega
    have hnumber := number_minus (Nat.succ_pos n) hn hrest
    rw [toList_intText_negSucc]
    exact numberWith_read rfl rfl hnumber rfl

/-! ### Defaults -/

/-- A value whose text does not begin like `null` is read where `null` could stand. -/
theorem Reads.orNull {α : Type} {r : Reader α} {v : Value} {a : α} (h : Reads r v a) (default : α)
    (c : Char) (cs : List Char) (hchars : v.chars = c :: cs) (hgap : isGap (.char c) = false)
    (hn : c ≠ 'n') : Reads (orNull default r) v a := by
  intro rest hrest
  have hread := h rest hrest
  rw [hchars] at hread ⊢
  rw [List.map_cons, List.cons_append] at hread ⊢
  rw [Json.orNull, skipGap_cons hgap]
  split
  · rename_i hcons
    cases hcons
    exact (hn rfl).elim
  · exact hread

theorem reads_orNull_text (default s : String) : Reads (orNull default text) (.text s) s :=
  (reads_text s).orNull default _ _ rfl rfl (by decide)

theorem reads_orNull_int64 (default : ℤ) {i : ℤ} (h : -(pow2 63 : ℤ) ≤ i) (h' : i < (pow2 63 : ℤ)) :
    Reads (orNull default int64) (.int i) i := by
  have hread := reads_int64 h h'
  cases i with
  | ofNat n =>
    obtain ⟨c, cs, hcs⟩ := List.exists_cons_of_ne_nil (digits_ne_nil n)
    have hdigit := isDigit_of_mem_digits (n := n) (hcs ▸ List.mem_cons_self)
    refine hread.orNull default c cs ?_ (isGap_of_isDigit hdigit) ?_
    · rw [Value.chars, intText, natText, String.toList_ofList, hcs]
    · rintro rfl
      cases hdigit
  | negSucc n =>
    refine hread.orNull default '-' (digits (n + 1)) ?_ rfl (by decide)
    rw [Value.chars, toList_intText_negSucc]

/-! ### Records -/

/-- A member to be written: its field, its value and the change that reading it makes. -/
structure Entry (σ : Type) where
  field : Field σ
  value : Value
  change : σ → σ

/-- The members of a record. -/
def Entry.member {σ : Type} (e : Entry σ) : String × Value := (e.field.name, e.value)

/-- The text of a member. -/
def Entry.chars {σ : Type} (e : Entry σ) : List Char := quoted e.field.name ++ ':' :: e.value.chars

/-- The entry is read as its change by the field of its name. -/
structure Entry.Fits {σ : Type} (fields : List (Field σ)) (e : Entry σ) : Prop where
  found : Field.find? fields e.field.name = some e.field
  reads : Reads e.field.read e.value e.change

theorem memberChars_eq {σ : Type} (e : Entry σ) (es : List (Entry σ)) :
    memberChars ((e :: es).map Entry.member) = e.chars ++ es.flatMap fun e => ',' :: e.chars := by
  induction es generalizing e with
  | nil => simp [memberChars, Entry.member, Entry.chars]
  | cons e' es ih =>
    have := ih e'
    simp only [List.map_cons, Entry.member, memberChars] at this ⊢
    rw [this]
    simp [Entry.chars]

/-- **One member** is read. -/
theorem members_member {σ : Type} {fields : List (Field σ)} {e : Entry σ} (h : e.Fits fields)
    {seen : List String} (hseen : e.field.name ∉ seen) (n : ℕ) (isFirst : Bool) (s : σ)
    {rest : Input} (hrest : Ends rest) :
    members fields (n + 1) seen isFirst s
        ((if isFirst then [] else [.char ',']) ++ (e.chars.map .char ++ rest))
      = members fields n (e.field.name :: seen) false (e.change s) rest := by
  have htext : e.chars.map .char ++ rest = .char '"' :: ((e.field.name.toList.flatMap escaped).map
      .char ++ .char '"' :: .char ':' :: (e.value.chars.map .char ++ rest)) := by
    simp [Entry.chars, quoted]
  have hread := h.reads rest hrest
  have hquote : isGap (.char '"') = false := rfl
  have hcolon : ∀ gs, colon (.char ':' :: gs) = .ok gs := fun gs => by
    rw [colon, skipGap_cons rfl]
    rfl
  have hcontains : ¬ seen.contains e.field.name = true := by simpa using hseen
  cases isFirst with
  | true =>
    rw [if_pos rfl, List.nil_append, htext, members]
    simp only [skipGap_cons hquote, if_true, stringBody_quoted, String.ofList_toList, bind,
      Except.bind, h.found, if_neg hcontains, hcolon, hread]
  | false =>
    have hcomma : isGap (.char ',') = false := rfl
    rw [if_neg Bool.false_ne_true, List.singleton_append, htext, members]
    simp only [skipGap_cons hcomma, skipGap_cons hquote, if_neg Bool.false_ne_true,
      stringBody_quoted, String.ofList_toList, bind, Except.bind, h.found, if_neg hcontains, hcolon,
      hread]

/-- What is left to be written of the members that follow the first one. -/
def laterChars {σ : Type} (es : List (Entry σ)) : List Char := es.flatMap fun e => ',' :: e.chars

theorem ends_later {σ : Type} (es : List (Entry σ)) (rest : Input) :
    Ends ((laterChars es).map .char ++ .char '}' :: rest) := by
  cases es with
  | nil => exact ends_brace rest
  | cons e es => exact ends_comma _

/-- The fields that must be there are among the names seen and the entries to come. -/
def Complete {σ : Type} (fields : List (Field σ)) (seen : List String) (es : List (Entry σ)) :
    Prop :=
  ∀ f ∈ fields, f.required → f.name ∈ seen ∨ f.name ∈ es.map (·.field.name)

/-- **Members** are read back one after the other. -/
theorem members_read {σ : Type} {fields : List (Field σ)} {es : List (Entry σ)}
    (hfits : ∀ e ∈ es, e.Fits fields) {seen : List String}
    (hnames : (es.map (·.field.name)).Nodup) (hseen : ∀ e ∈ es, e.field.name ∉ seen)
    (hcomplete : Complete fields seen es) {n : ℕ} (hn : es.length < n) (s : σ) (rest : Input) :
    members fields n seen false s ((laterChars es).map .char ++ .char '}' :: rest)
      = .ok (es.foldl (fun s e => e.change s) s, rest) := by
  induction es generalizing seen n s with
  | nil =>
    obtain ⟨n, rfl⟩ := Nat.exists_eq_succ_of_ne_zero (Nat.ne_of_gt hn)
    have hall : fields.all (fun f => !f.required || seen.contains f.name) = true := by
      rw [List.all_eq_true]
      intro f hf
      cases hrequired : f.required with
      | false => rfl
      | true => simpa using (hcomplete f hf hrequired).resolve_right List.not_mem_nil
    show members fields (n + 1) seen false s (.char '}' :: rest) = _
    rw [members]
    simp only [skipGap_cons (show isGap (.char '}') = false from rfl), hall, if_true,
      List.foldl_nil]
  | cons e es ih =>
    obtain ⟨n, rfl⟩ := Nat.exists_eq_succ_of_ne_zero (Nat.ne_of_gt (Nat.zero_lt_of_lt hn))
    rw [List.map_cons, List.nodup_cons] at hnames
    have hmember := members_member (hfits e List.mem_cons_self) (hseen e List.mem_cons_self) n false
      s (ends_later es rest)
    have htext : (laterChars (e :: es)).map .char ++ .char '}' :: rest
        = (if false then [] else [.char ',']) ++
          (e.chars.map .char ++ ((laterChars es).map .char ++ .char '}' :: rest)) := by
      simp [laterChars]
    rw [htext, hmember]
    refine ih (fun e' he' => hfits e' (List.mem_cons_of_mem e he')) hnames.2 (fun e' he' hmem => ?_)
      (fun f hf hrequired => ?_) (Nat.lt_of_succ_lt_succ hn) _
    · rcases List.mem_cons.mp hmem with heq | hmem
      · exact hnames.1 (heq ▸ List.mem_map_of_mem he')
      · exact hseen e' (List.mem_cons_of_mem e he') hmem
    · rcases hcomplete f hf hrequired with hmem | hmem
      · exact .inl (List.mem_cons_of_mem _ hmem)
      · rcases List.mem_cons.mp hmem with heq | hmem
        · exact .inl (heq ▸ List.mem_cons_self)
        · exact .inr hmem

theorem length_le_laterChars {σ : Type} (es : List (Entry σ)) :
    es.length ≤ (laterChars es).length := by
  induction es with
  | nil => exact Nat.le_refl 0
  | cons e es ih =>
    rw [laterChars, List.flatMap_cons, List.length_append, List.length_cons, List.length_cons]
    change es.length ≤ (es.flatMap _).length at ih
    omega

/-- **A record** is read back when its members are fields of the reader. -/
theorem record_read {σ : Type} {fields : List (Field σ)} {es : List (Entry σ)} (hne : es ≠ [])
    (hfits : ∀ e ∈ es, e.Fits fields) (hnames : (es.map (·.field.name)).Nodup)
    (hcomplete : Complete fields [] es) (start : σ) :
    Reads (record fields start) (.record (es.map Entry.member))
      (es.foldl (fun s e => e.change s) start) := by
  intro rest _
  obtain ⟨e, es, rfl⟩ := List.exists_cons_of_ne_nil hne
  have htext : (Value.record ((e :: es).map Entry.member)).chars.map Glyph.char ++ rest
      = .char '{' :: (e.chars.map .char ++ ((laterChars es).map .char ++ .char '}' :: rest)) := by
    rw [Value.chars, memberChars_eq]
    simp [laterChars]
  have hlength : es.length < (e.chars.map Glyph.char ++
      ((laterChars es).map Glyph.char ++ Glyph.char '}' :: rest)).length := by
    have := length_le_laterChars es
    simp only [List.length_append, List.length_map, List.length_cons]
    omega
  rw [List.map_cons, List.nodup_cons] at hnames
  have hmember := members_member (hfits e List.mem_cons_self) List.not_mem_nil (e.chars.map
    Glyph.char ++ ((laterChars es).map Glyph.char ++ Glyph.char '}' :: rest)).length true start
    (ends_later es rest)
  rw [if_pos rfl, List.nil_append] at hmember
  rw [htext, record, skipGap_cons rfl]
  show members fields _ [] true start _ = _
  rw [hmember]
  refine members_read (fun e' he' => hfits e' (List.mem_cons_of_mem e he')) hnames.2
    (fun e' he' hmem => ?_) (fun f hf hrequired => ?_) hlength _ rest
  · exact hnames.1 (List.mem_singleton.mp hmem ▸ List.mem_map_of_mem he')
  · rcases List.mem_cons.mp ((hcomplete f hf hrequired).resolve_left List.not_mem_nil) with
      heq | hmem
    · exact .inl (heq ▸ List.mem_cons_self)
    · exact .inr hmem

/-- A value that is the whole input is read back. -/
theorem whole_read {α : Type} {r : Reader α} {v : Value} {a : α} (h : Reads r v a) :
    whole r (Glyph.ofString v.render) = .ok a := by
  have hread := h [] ends_nil
  rw [List.append_nil] at hread
  simp [whole, Glyph.ofString, Value.render, hread, bind, Except.bind, skipGap]

end SmsRelay.Json
