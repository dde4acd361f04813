import SmsRelay.Proofs.Json.Grammar
import SmsRelay.Proofs.Json.Prefix

/-!
# Reading what is spelled

The readers of strings and numbers and the one that skips values go to the end of what they are
given, however it is written, and take from it what it says: the characters of a string, the number
of a literal, nothing at all of a value that is skipped.

## Implementation notes

Within a string the reader may have a first half of a pair pending. So the induction over the
spelling of a string speaks of the characters of the units that are pending and of those to come.

A number goes on with the digits that follow it; `Stops` says of what follows that it does not.

## Main results

* `stringBody_spelled`: a string is read as the characters that its units form.
* `number_spelled`: a number is read as its literal.
* `skipped`: every value is skipped to its end.
-/

namespace SmsRelay.Json

/-- A reading gives `v?` and leaves `rest`; it fails if there is no such value. -/
def Gives {α : Type} (r : Except Fault (α × Input)) (v? : Option α) (rest : Input) : Prop :=
  match v? with
  | some v => r = .ok (v, rest)
  | none => ∃ fault, r = .error fault

section Gives

variable {α β : Type} {r : Except Fault (α × Input)} {v? : Option α} {rest : Input}

/-- A reading that goes on after the value. -/
theorem Gives.bind (h : Gives r v? rest) {k : α × Input → Except Fault (β × Input)}
    {w : α → Option β} {rest' : Input} (hk : ∀ v, Gives (k (v, rest)) (w v) rest') :
    Gives (r >>= k) (v?.bind w) rest' := by
  cases v? with
  | none =>
    obtain ⟨fault, rfl⟩ := h
    exact ⟨fault, rfl⟩
  | some v =>
    have h : r = .ok (v, rest) := h
    subst h
    exact hk v

theorem Gives.map (h : Gives r v? rest) (f : α → β) :
    Gives (r.map fun (v, rest) => (f v, rest)) (v?.map f) rest := by
  cases v? with
  | none =>
    obtain ⟨fault, rfl⟩ := h
    exact ⟨fault, rfl⟩
  | some v =>
    have h : r = .ok (v, rest) := h
    subst h
    rfl

end Gives

/-! ### White space -/

theorem isGap_of_spacing {g : List Char} (h : IsSpacing g) : ∀ x ∈ g.map Glyph.char, isGap x := by
  intro x hx
  obtain ⟨c, hc, rfl⟩ := List.mem_map.mp hx
  rcases h c hc with rfl | rfl | rfl | rfl <;> rfl

/-- White space is skipped as far as it goes. -/
theorem skipGap_spacing {g : List Char} (h : IsSpacing g) (rest : Input) :
    skipGap (g.map .char ++ rest) = skipGap rest :=
  List.dropWhile_append_of_pos (isGap_of_spacing h)

theorem skipGap_skipGap (gs : Input) : skipGap (skipGap gs) = skipGap gs := by
  induction gs with
  | nil => rfl
  | cons g gs ih =>
    cases h : isGap g with
    | false => rw [skipGap_cons h, skipGap_cons h]
    | true =>
      have hskip : skipGap (g :: gs) = skipGap gs := List.dropWhile_cons_of_pos h
      rw [hskip, ih]

/-! ### Strings -/

theorem chars?_charUnits (c : Char) (us : Units) :
    Units.chars? (charUnits c ++ us) = us.chars?.map (c :: ·) := by
  have hvalid : c.toNat < 0xD800 ∨ 0xDFFF < c.toNat ∧ c.toNat < 0x110000 := c.valid
  have hback : Char.ofNat c.toNat = c := Char.ofNat_toNat c
  rw [charUnits]
  split
  · have hhigh : ¬ IsHigh c.toNat := by
      rw [IsHigh]
      omega
    have hlow : ¬ IsLow c.toNat := by
      rw [IsLow]
      omega
    rw [List.singleton_append, Units.chars?.eq_def]
    dsimp only
    rw [if_neg hhigh, if_neg hlow, hback]
  · have hhigh : IsHigh (0xD800 + (c.toNat - 0x10000) / 0x400) := by
      rw [IsHigh]
      omega
    have hlow : IsLow (0xDC00 + (c.toNat - 0x10000) % 0x400) := by
      rw [IsLow]
      omega
    have hcode : (0xD800 + (c.toNat - 0x10000) / 0x400 - 0xD800) * 0x400
        + (0xDC00 + (c.toNat - 0x10000) % 0x400 - 0xDC00) + 0x10000 = c.toNat := by
      omega
    rw [List.cons_append, List.singleton_append, Units.chars?.eq_def]
    dsimp only
    rw [if_pos hhigh, if_pos hlow, hcode, hback]

/-- The units of a text form this text. -/
theorem text?_ofString (s : String) : (Units.ofString s).text? = some s := by
  have hchars : ∀ cs : List Char, Units.chars? (cs.flatMap charUnits) = some cs := by
    intro cs
    induction cs with
    | nil => rfl
    | cons c cs ih => rw [List.flatMap_cons, chars?_charUnits, ih, Option.map_some]
  rw [Units.text?, Units.ofString, hchars, Option.map_some, String.ofList_toList]

/-- A first half that is not followed by a second half stands alone. -/
theorem chars?_lone {m : ℕ} (hm : IsHigh m) {us : Units} (h : ∀ n ∈ us.head?, ¬ IsLow n) :
    Units.chars? (m :: us) = none := by
  rw [Units.chars?.eq_def]
  dsimp only
  rw [if_pos hm]
  cases us with
  | nil => rfl
  | cons n us => exact if_neg (h n rfl)

theorem head?_charUnits (c : Char) (us : Units) :
    ∀ n ∈ (charUnits c ++ us).head?, ¬ IsLow n := by
  intro n hn
  have hvalid : c.toNat < 0xD800 ∨ 0xDFFF < c.toNat ∧ c.toNat < 0x110000 := c.valid
  rw [charUnits] at hn
  rw [IsLow]
  split at hn
  · cases hn
    omega
  · cases hn
    omega

/-- Characters without quotes, backslashes and control characters. -/
def IsPlain (cs : List Char) : Prop := ∀ c ∈ cs, c ≠ '"' ∧ c ≠ '\\' ∧ 0x20 ≤ c.toNat

instance (cs : List Char) : Decidable (IsPlain cs) := List.decidableBAll _ cs

/-- A plain text may be written as it is. -/
theorem spellsString_plain {s : String} (h : IsPlain s.toList) :
    SpellsString (Units.ofString s) s.toList := by
  rw [Units.ofString]
  generalize s.toList = cs at h ⊢
  induction cs with
  | nil => exact .nil
  | cons c cs ih =>
    obtain ⟨⟨hquote, hslash, hcontrol⟩, hcs⟩ := List.forall_mem_cons.mp h
    exact .plain c hquote hslash hcontrol (ih hcs)

theorem escape_spec {e c : Char} (h : (e, c) ∈ escapes) :
    shortEscape? e = some c ∧ c.toNat < 0x80 := by
  have hall : ∀ p ∈ escapes, shortEscape? p.1 = some p.2 ∧ p.2.toNat < 0x80 := by decide
  exact hall (e, c) h

theorem hexValue?_of_isHex {c : Char} {n : ℕ} (h : IsHex c n) : hexValue? (.char c) = some n := by
  have hsmall : ∀ k : Fin 16, hexValue? (.char ("0123456789abcdef".toList[k.val]?.getD 'x'))
      = some k.val := by decide
  have hcapital : ∀ k : Fin 16, hexValue? (.char ("0123456789ABCDEF".toList[k.val]?.getD 'x'))
      = some k.val := by decide
  have hbound : ∀ {cs : List Char}, cs.length = 16 → cs[n]? = some c → n < 16 := by
    intro cs hlength hget
    rw [← hlength]
    exact (List.getElem?_eq_some_iff.mp hget).1
  rcases h with h | h
  · have hread := hsmall ⟨n, hbound rfl h⟩
    dsimp only at hread
    rwa [h] at hread
  · have hread := hcapital ⟨n, hbound rfl h⟩
    dsimp only at hread
    rwa [h] at hread

theorem hexCode?_of_isHex {c₁ c₂ c₃ c₄ : Char} {n₁ n₂ n₃ n₄ : ℕ} (h₁ : IsHex c₁ n₁)
    (h₂ : IsHex c₂ n₂) (h₃ : IsHex c₃ n₃) (h₄ : IsHex c₄ n₄) :
    hexCode? (.char c₁) (.char c₂) (.char c₃) (.char c₄)
      = some (((n₁ * 16 + n₂) * 16 + n₃) * 16 + n₄) := by
  simp only [hexCode?, hexValue?_of_isHex h₁, hexValue?_of_isHex h₂, hexValue?_of_isHex h₃,
    hexValue?_of_isHex h₄, Option.bind_eq_bind, Option.bind_some]

/-- What stands behind a first half that is pending must be an escape. -/
theorem stringBody_pending {m : ℕ} {c : Char} (hslash : c ≠ '\\') (rest : Input) :
    stringBody (some m) (.char c :: rest) = .error .malformed := by
  rw [stringBody.eq_def]
  dsimp only
  rw [if_neg hslash]
  rfl

theorem stringBody_plain {c : Char} (hquote : c ≠ '"') (hslash : c ≠ '\\')
    (hcontrol : 0x20 ≤ c.toNat) (rest : Input) :
    stringBody none (.char c :: rest) = prepend c (stringBody none rest) := by
  rw [stringBody.eq_def]
  dsimp only
  rw [if_neg hslash, if_neg (by simp), if_neg hquote, if_neg (Nat.not_lt.mpr hcontrol)]

theorem stringBody_pending_escape {m : ℕ} {e : Char} (he : e ≠ 'u') (rest : Input) :
    stringBody (some m) (.char '\\' :: .char e :: rest) = .error .malformed := by
  rw [stringBody.eq_def]
  dsimp only
  rw [if_pos rfl]
  split
  · rename_i heq
    cases heq
    exact absurd rfl he
  · rfl
  · rfl

theorem stringBody_code {a b c d : Glyph} {n : ℕ} (hcode : hexCode? a b c d = some n)
    (high : Option ℕ) (rest : Input) :
    stringBody high (.char '\\' :: .char 'u' :: a :: b :: c :: d :: rest) =
      match high with
      | some m =>
        if IsLow n then
          prepend (Char.ofNat ((m - 0xD800) * 0x400 + (n - 0xDC00) + 0x10000))
            (stringBody none rest)
        else .error .malformed
      | none =>
        if IsHigh n then stringBody (some n) rest
        else if IsLow n then .error .malformed
        else prepend (Char.ofNat n) (stringBody none rest) := by
  rw [stringBody]
  simp only [if_true, hcode]
  rfl

/-- What reading a string gives, by the characters of its units. -/
def bodyOf (cs? : Option (List Char)) (rest : Input) : Except Fault (List Char × Input) :=
  match cs? with
  | some cs => .ok (cs, rest)
  | none => .error .malformed

theorem prepend_bodyOf (c : Char) (cs? : Option (List Char)) (rest : Input) :
    prepend c (bodyOf cs? rest) = bodyOf (cs?.map (c :: ·)) rest := by
  cases cs? <;> rfl

/-- A string is read as the characters of its units, those that are pending in front. -/
theorem stringBody_spelled_from {us : Units} {cs : List Char} (h : SpellsString us cs)
    (high : Option ℕ) (hhigh : ∀ m, high = some m → IsHigh m) (rest : Input) :
    stringBody high (cs.map .char ++ .char '"' :: rest) =
      bodyOf (Units.chars? (high.toList ++ us)) rest := by
  induction h generalizing high with
  | nil =>
    cases high with
    | none =>
      show stringBody none (.char '"' :: rest) = _
      rw [stringBody.eq_def]
      rfl
    | some m =>
      rw [List.append_nil, Option.toList_some, chars?_lone (hhigh m rfl) (by simp)]
      exact stringBody_pending (by decide) rest
  | @plain us cs c hquote hslash hcontrol hrest ih =>
    rw [List.map_cons, List.cons_append]
    cases high with
    | none =>
      rw [stringBody_plain hquote hslash hcontrol, ih none (by simp), prepend_bodyOf]
      exact congrArg (bodyOf · rest) (chars?_charUnits c us).symm
    | some m =>
      rw [stringBody_pending hslash, Option.toList_some, List.singleton_append,
        chars?_lone (hhigh m rfl) (head?_charUnits c us)]
      rfl
  | @short us cs e c hescape hrest ih =>
    obtain ⟨hshort, hplain⟩ := escape_spec hescape
    have hunits : charUnits c ++ us = c.toNat :: us := by
      rw [charUnits, if_pos (by omega)]
      rfl
    rw [List.map_cons, List.map_cons, List.cons_append, List.cons_append, ← hunits]
    cases high with
    | none =>
      rw [stringBody_escape hshort, ih none (by simp), prepend_bodyOf]
      exact congrArg (bodyOf · rest) (chars?_charUnits c us).symm
    | some m =>
      have he : e ≠ 'u' := ne_u_of_shortEscape? (by rw [hshort]; simp)
      rw [stringBody_pending_escape he, Option.toList_some, List.singleton_append,
        chars?_lone (hhigh m rfl) (head?_charUnits c us)]
      rfl
  | @code us cs c₁ c₂ c₃ c₄ n₁ n₂ n₃ n₄ h₁ h₂ h₃ h₄ hrest ih =>
    simp only [List.map_cons, List.cons_append]
    rw [stringBody_code (hexCode?_of_isHex h₁ h₂ h₃ h₄)]
    generalize ((n₁ * 16 + n₂) * 16 + n₃) * 16 + n₄ = n
    cases high with
    | none =>
      dsimp only
      rw [Option.toList_none, List.nil_append]
      split
      · rename_i hn
        exact ih (some n) (fun m hm => Option.some.inj hm ▸ hn)
      · rename_i hn
        rw [Units.chars?.eq_def]
        dsimp only
        rw [if_neg hn]
        split
        · rfl
        · rw [ih none (by simp), prepend_bodyOf]
          rfl
    | some m =>
      dsimp only
      rw [Option.toList_some, List.singleton_append, Units.chars?.eq_def]
      dsimp only
      rw [if_pos (hhigh m rfl)]
      split
      · rw [ih none (by simp), prepend_bodyOf]
        rfl
      · rfl

/-- **A string** is read as the characters that its units form. -/
theorem stringBody_spelled {us : Units} {cs : List Char} (h : SpellsString us cs) (rest : Input) :
    stringBody none (cs.map .char ++ .char '"' :: rest) = bodyOf us.chars? rest :=
  stringBody_spelled_from h none (by simp) rest

/-- A string is skipped whatever units it has. -/
theorem skipString_spelled {us : Units} {cs : List Char} (h : SpellsString us cs) (rest : Input) :
    skipString (cs.map .char ++ .char '"' :: rest) = .ok rest := by
  induction h with
  | nil =>
    show skipString (.char '"' :: rest) = _
    rw [skipString.eq_def]
    rfl
  | plain c hquote hslash hcontrol hrest ih =>
    rw [List.map_cons, List.cons_append, skipString.eq_def]
    dsimp only
    rw [if_neg hslash, if_neg hquote, if_neg (Nat.not_lt.mpr hcontrol), ih]
  | short hescape hrest ih =>
    have hsome : (shortEscape? _).isSome :=
      Option.isSome_iff_exists.mpr ⟨_, (escape_spec hescape).1⟩
    rw [List.map_cons, List.map_cons, List.cons_append, List.cons_append, skipString_escape hsome,
      ih]
  | code h₁ h₂ h₃ h₄ hrest ih =>
    simp only [List.map_cons, List.cons_append]
    rw [skipString]
    simp only [if_true, hexCode?_of_isHex h₁ h₂ h₃ h₄, Option.isSome_some]
    exact ih

/-! ### Numbers -/

/-- What follows a number does not go on with it. -/
def Stops (rest : Input) : Prop :=
  ∀ c, rest.head? = some (.char c) → c.isDigit = false ∧ c ≠ '.' ∧ c ≠ 'e' ∧ c ≠ 'E'

theorem stops_cons {c : Char} (h : c.isDigit = false ∧ c ≠ '.' ∧ c ≠ 'e' ∧ c ≠ 'E')
    (rest : Input) : Stops (.char c :: rest) := by
  intro d hd
  cases hd
  exact h

theorem stops_spacing {g : List Char} (h : IsSpacing g) {rest : Input} (hrest : Stops rest) :
    Stops (g.map .char ++ rest) := by
  cases g with
  | nil => exact hrest
  | cons c g =>
    refine stops_cons ?_ _
    rcases h c List.mem_cons_self with rfl | rfl | rfl | rfl <;> decide

theorem digitRun_of_head {rest : Input}
    (h : ∀ c, rest.head? = some (.char c) → c.isDigit = false) : digitRun rest = ([], rest) := by
  cases rest with
  | nil => rfl
  | cons g rest =>
    cases g with
    | stray => rfl
    | char c =>
      have hdigit : digit? (.char c) = none := if_neg (by rw [h c rfl]; exact Bool.false_ne_true)
      rw [digitRun, hdigit]

theorem partDigits_of_head {rest : Input} (h : ∀ c, rest.head? = some (.char c) → c ≠ '.') :
    partDigits rest = .ok (none, rest) := by
  refine partDigits.eq_2 rest fun tail htail => ?_
  exact h '.' (htail ▸ rfl) rfl

theorem exponentDigits_of_head {rest : Input}
    (h : ∀ c, rest.head? = some (.char c) → c ≠ 'e' ∧ c ≠ 'E') :
    exponentDigits rest = .ok (none, rest) := by
  cases rest with
  | nil => rfl
  | cons g rest =>
    cases g with
    | stray => rfl
    | char c => rw [exponentDigits_cons, if_neg (by simpa using h c rfl)]

theorem someDigits_spelled {ds : List Char} (h : IsDigits ds) {rest : Input}
    (hrest : digitRun rest = ([], rest)) :
    someDigits (ds.map .char ++ rest) = .ok (ds.map (·.toNat - 48), rest) := by
  obtain ⟨c, cs, rfl⟩ := List.exists_cons_of_ne_nil h.1
  rw [someDigits, digitRun_append h.2 hrest]
  rfl

theorem wholeDigits_spelled {ds : List Char} (h : IsDigits ds)
    (hzero : ds.head? = some '0' → ds = ['0']) {rest : Input}
    (hrest : digitRun rest = ([], rest)) :
    wholeDigits (ds.map .char ++ rest) = .ok (ds.map (·.toNat - 48), rest) := by
  rw [wholeDigits, someDigits_spelled h hrest]
  simp only [bind, Except.bind]
  split
  · rename_i heq
    obtain ⟨c, cs, rfl⟩ := List.exists_cons_of_ne_nil h.1
    injection heq with heq
    rw [List.map_cons, List.cons.injEq] at heq
    have hc := hzero (by rw [eq_zero_of_digit (h.2 c List.mem_cons_self) heq.1]; rfl)
    rw [List.cons.injEq] at hc
    rw [hc.2] at heq
    cases heq.2
  · rfl

theorem partDigits_spelled {part : List Char} (h : IsPart part) : ∃ p, ∀ rest : Input,
    (∀ c, rest.head? = some (.char c) → c.isDigit = false ∧ c ≠ '.') →
      partDigits (part.map .char ++ rest) = .ok (p, rest) := by
  cases h with
  | nil => exact ⟨none, fun rest hrest => partDigits_of_head fun c hc => (hrest c hc).2⟩
  | @point ds h =>
    refine ⟨some (ds.map (·.toNat - 48)), fun rest hrest => ?_⟩
    rw [List.map_cons, List.cons_append, partDigits,
      someDigits_spelled h (digitRun_of_head fun c hc => (hrest c hc).1)]
    rfl

theorem signed_spelled {sign : List Char} (h : sign = [] ∨ sign = ['+'] ∨ sign = ['-']) :
    ∃ up, ∀ (c : Char) (rest : Input), c.isDigit →
      signed (sign.map .char ++ .char c :: rest) = (up, .char c :: rest) := by
  rcases h with rfl | rfl | rfl
  · refine ⟨true, fun c rest hc => signed.eq_3 _ (fun tail htail => ?_) fun tail htail => ?_⟩
    · cases htail
      cases hc
    · cases htail
      cases hc
  · exact ⟨true, fun c rest _ => rfl⟩
  · exact ⟨false, fun c rest _ => rfl⟩

theorem exponentDigits_spelled {exponent : List Char} (h : IsExponent exponent) : ∃ x,
    ∀ rest : Input, Stops rest → exponentDigits (exponent.map .char ++ rest) = .ok (x, rest) := by
  cases h with
  | nil => exact ⟨none, fun rest hrest => exponentDigits_of_head fun c hc => (hrest c hc).2.2⟩
  | @mk e sign ds he hsign h =>
    obtain ⟨up, hup⟩ := signed_spelled hsign
    refine ⟨some (up, ds.map (·.toNat - 48)), fun rest hrest => ?_⟩
    have hdigits := someDigits_spelled h (digitRun_of_head fun c hc => (hrest c hc).1)
    obtain ⟨c, cs, rfl⟩ := List.exists_cons_of_ne_nil h.1
    rw [List.map_cons, List.map_append, List.cons_append, List.append_assoc, exponentDigits_cons,
      if_pos he]
    rw [List.map_cons, List.cons_append] at hdigits ⊢
    rw [hup c _ (h.2 c List.mem_cons_self), hdigits]
    rfl

/-- What follows the digits of a number is no digit, and what follows its part is no point. -/
theorem head_exponent {exponent : List Char} (h : IsExponent exponent) {rest : Input}
    (hrest : Stops rest) : ∀ c, (exponent.map Glyph.char ++ rest).head? = some (.char c) →
      c.isDigit = false ∧ c ≠ '.' := by
  intro c hc
  cases h with
  | nil => exact ⟨(hrest c hc).1, (hrest c hc).2.1⟩
  | mk he hsign h =>
    cases hc
    rcases he with rfl | rfl <;> decide

theorem head_part {part : List Char} (h : IsPart part) {rest : Input}
    (hrest : ∀ c, rest.head? = some (.char c) → c.isDigit = false) :
    ∀ c, (part.map Glyph.char ++ rest).head? = some (.char c) → c.isDigit = false := by
  intro c hc
  cases h with
  | nil => exact hrest c hc
  | point h =>
    cases hc
    rfl

/-- A number without its sign is read to its end. -/
theorem numeral_spelled {cs : List Char} (h : IsMagnitude cs) :
    ∃ m, ∀ rest, Stops rest → numeral (cs.map .char ++ rest) = .ok (m, rest) := by
  obtain @⟨ds, part, exponent, h, hzero, hpart, hexponent⟩ := h
  obtain ⟨p, hp⟩ := partDigits_spelled hpart
  obtain ⟨x, hx⟩ := exponentDigits_spelled hexponent
  refine ⟨⟨ds.map (·.toNat - 48), p, x⟩, fun rest hrest => ?_⟩
  have hhead := head_exponent hexponent hrest
  have hwhole := wholeDigits_spelled h hzero
    (digitRun_of_head (head_part hpart fun c hc => (hhead c hc).1))
  simp only [List.map_append, List.append_assoc, numeral, hwhole, hp _ hhead, hx rest hrest, bind,
    Except.bind]

theorem magnitude_head {cs : List Char} (h : IsMagnitude cs) :
    ∃ c tail, cs = c :: tail ∧ c.isDigit := by
  obtain ⟨h, -, -, -⟩ := h
  obtain ⟨c, tail, rfl⟩ := List.exists_cons_of_ne_nil h.1
  exact ⟨c, _, rfl, h.2 c List.mem_cons_self⟩

/-- A number begins with a sign or a digit. -/
theorem number_head {cs : List Char} (h : IsNumber cs) :
    ∃ c tail, cs = c :: tail ∧ (c = '-' ∨ c.isDigit) := by
  cases h with
  | positive h =>
    obtain ⟨c, tail, rfl, hc⟩ := magnitude_head h
    exact ⟨c, tail, rfl, .inr hc⟩
  | negative h => exact ⟨'-', _, rfl, .inl rfl⟩

theorem number_unsigned {c : Char} (h : c.isDigit) (rest : Input) :
    number (.char c :: rest) =
      numeral (.char c :: rest) >>= fun p => (p.1.toNumber false).map (·, p.2) := by
  have hminus : c ≠ '-' := by
    rintro rfl
    cases h
  unfold number
  split
  rename_i isNegative gs hsign
  split at hsign
  · rename_i heq
    cases heq
    exact absurd rfl hminus
  · cases hsign
    cases numeral (.char c :: rest) with
    | error fault => rfl
    | ok p => cases hvalue : p.1.toNumber false <;> simp [bind, Except.bind, Except.map, hvalue]

theorem number_signed (rest : Input) : number (.char '-' :: rest) =
    numeral rest >>= fun p => (p.1.toNumber true).map (·, p.2) := by
  cases h : numeral rest with
  | error fault => simp [number, h, bind, Except.bind]
  | ok p => cases hvalue : p.1.toNumber true <;>
      simp [number, h, bind, Except.bind, Except.map, hvalue]

/-- The number of a literal. -/
def literal? (cs : List Char) : Option Number :=
  match number (cs.map .char) with
  | .ok (n, _) => some n
  | .error _ => none

/-- **A number** is read to its end, and what follows does not matter. -/
theorem number_spelled {cs : List Char} (h : IsNumber cs) {rest : Input} (hrest : Stops rest) :
    Gives (number (cs.map .char ++ rest)) (literal? cs) rest := by
  have hread : ∃ r : Except Fault Number, ∀ rest, Stops rest →
      number (cs.map .char ++ rest) = r.map (·, rest) := by
    cases h with
    | positive h =>
      obtain ⟨m, hm⟩ := numeral_spelled h
      obtain ⟨c, tail, rfl, hc⟩ := magnitude_head h
      refine ⟨m.toNumber false, fun rest hrest => ?_⟩
      have hm := hm rest hrest
      rw [List.map_cons, List.cons_append] at hm ⊢
      rw [number_unsigned hc, hm]
      rfl
    | negative h =>
      obtain ⟨m, hm⟩ := numeral_spelled h
      refine ⟨m.toNumber true, fun rest hrest => ?_⟩
      rw [List.map_cons, List.cons_append, number_signed, hm rest hrest]
      rfl
  obtain ⟨r, hr⟩ := hread
  have halone := hr [] nofun
  rw [List.append_nil] at halone
  rw [literal?, halone, hr rest hrest]
  cases r with
  | ok n => rfl
  | error fault => exact ⟨fault, rfl⟩

/-! ### Values that are skipped -/

theorem word_spelled (cs : List Char) (rest : Input) :
    word cs (cs.map .char ++ rest) = .ok rest := by
  induction cs with
  | nil => rfl
  | cons c cs ih => rw [List.map_cons, List.cons_append, word, if_pos rfl, ih]

/-- The characters that the text of a value may begin with. -/
theorem value_head {t : Tree} {cs : List Char} (h : Spells (.value t) cs) :
    ∃ c tail, cs = c :: tail ∧ isGap (.char c) = false ∧ c ≠ ']' := by
  cases h with
  | null | yes | no | text | emptyList | list | emptyRecord | record =>
    exact ⟨_, _, rfl, by decide, by decide⟩
  | number h =>
    obtain ⟨c, tail, rfl, rfl | hc⟩ := number_head h
    · exact ⟨_, _, rfl, by decide, by decide⟩
    · refine ⟨_, _, rfl, isGap_of_isDigit hc, ?_⟩
      rintro rfl
      cases hc

/-- No value begins with white space. -/
theorem skipGap_value {t : Tree} {cs : List Char} (h : Spells (.value t) cs) (rest : Input) :
    skipGap (cs.map .char ++ rest) = cs.map .char ++ rest := by
  obtain ⟨c, tail, rfl, hgap, -⟩ := value_head h
  rw [List.map_cons, List.cons_append, skipGap_cons hgap]

theorem items_head {ts : List Tree} {cs : List Char} (h : Spells (.items ts) cs) (rest : Input) :
    ∃ c tail, skipGap (cs.map .char ++ rest) = .char c :: tail ∧ c ≠ ']' := by
  cases h with
  | lastItem hg h hg' =>
    obtain ⟨c, tail, rfl, hgap, hc⟩ := value_head h
    rw [List.map_append, List.append_assoc, skipGap_spacing hg]
    exact ⟨c, _, skipGap_cons hgap _, hc⟩
  | item hg h hg' hrest =>
    obtain ⟨c, tail, rfl, hgap, hc⟩ := value_head h
    rw [List.map_append, List.append_assoc, skipGap_spacing hg]
    exact ⟨c, _, skipGap_cons hgap _, hc⟩

/-- The text of a member as the readers find it. -/
theorem map_memberText (g₁ name g₂ g₃ value g₄ : List Char) (rest : Input) :
    (memberText g₁ name g₂ g₃ value g₄).map .char ++ rest =
      g₁.map .char ++ .char '"' :: (name.map .char ++ .char '"' :: (g₂.map .char ++ .char ':' ::
        (g₃.map .char ++ (value.map .char ++ (g₄.map .char ++ rest))))) := by
  simp [memberText]

theorem members_head {ms : Members} {cs : List Char} (h : Spells (.members ms) cs) (rest : Input) :
    ∃ tail, skipGap (cs.map .char ++ rest) = .char '"' :: tail := by
  cases h with
  | lastMember hg₁ =>
    rw [map_memberText, skipGap_spacing hg₁]
    exact ⟨_, skipGap_cons rfl _⟩
  | member hg₁ =>
    rw [List.map_append, List.append_assoc, map_memberText, skipGap_spacing hg₁]
    exact ⟨_, skipGap_cons rfl _⟩

theorem skipValue_skipGap (n : ℕ) (gs : Input) : skipValue n (skipGap gs) = skipValue n gs := by
  cases n with
  | zero => rw [skipValue, skipValue]
  | succ n => rw [skipValue, skipValue, skipGap_skipGap]

theorem skipItems_skipGap (n : ℕ) (gs : Input) : skipItems n (skipGap gs) = skipItems n gs := by
  cases n with
  | zero => rw [skipItems, skipItems]
  | succ n => rw [skipItems, skipItems, skipValue_skipGap]

theorem skipMembers_skipGap (n : ℕ) (gs : Input) :
    skipMembers n (skipGap gs) = skipMembers n gs := by
  cases n with
  | zero => rw [skipMembers, skipMembers]
  | succ n => rw [skipMembers, skipMembers, skipGap_skipGap]

/-- White space in front of a value is skipped with it. -/
theorem skipValue_spacing {g : List Char} (h : IsSpacing g) (n : ℕ) (gs : Input) :
    skipValue n (g.map .char ++ gs) = skipValue n gs := by
  rw [← skipValue_skipGap, skipGap_spacing h, skipValue_skipGap]

theorem skipValue_bracket (n : ℕ) (gs : Input) : skipValue (n + 1) (.char '[' :: gs) =
    match skipGap gs with
    | .char ']' :: r => .ok r
    | r => skipItems n r := by
  rw [skipValue, skipGap_cons rfl]
  rfl

theorem skipValue_brace (n : ℕ) (gs : Input) : skipValue (n + 1) (.char '{' :: gs) =
    match skipGap gs with
    | .char '}' :: r => .ok r
    | r => skipMembers n r := by
  rw [skipValue, skipGap_cons rfl]
  rfl

/-- What stands between brackets. -/
theorem skipValue_items (n : ℕ) {gs : Input} {c : Char} {tail : Input}
    (h : skipGap gs = .char c :: tail) (hc : c ≠ ']') :
    skipValue (n + 1) (.char '[' :: gs) = skipItems n gs := by
  rw [skipValue_bracket, ← skipItems_skipGap, h]
  split
  · rename_i heq
    cases heq
    exact absurd rfl hc
  · rfl

/-- What stands between braces. -/
theorem skipValue_members (n : ℕ) {gs tail : Input} (h : skipGap gs = .char '"' :: tail) :
    skipValue (n + 1) (.char '{' :: gs) = skipMembers n gs := by
  rw [skipValue_brace, ← skipMembers_skipGap, h]
  rfl

theorem skipValue_number {cs : List Char} (h : IsNumber cs) (n : ℕ) {rest : Input}
    (hrest : Stops rest) : skipValue (n + 1) (cs.map .char ++ rest) = .ok rest := by
  cases h with
  | positive h =>
    obtain ⟨m, hm⟩ := numeral_spelled h
    obtain ⟨c, tail, rfl, hc⟩ := magnitude_head h
    have hother : ∀ d : Char, d.isDigit = false → c ≠ d := by
      rintro d hd rfl
      rw [hc] at hd
      cases hd
    have hm := hm rest hrest
    rw [List.map_cons, List.cons_append] at hm ⊢
    rw [skipValue, skipGap_cons (isGap_of_isDigit hc)]
    dsimp only
    rw [if_neg (hother _ rfl), if_neg (hother _ rfl), if_neg (hother _ rfl), if_neg (hother _ rfl),
      if_neg (hother _ rfl), if_neg (hother _ rfl), if_neg (hother _ rfl), if_pos hc, hm]
    rfl
  | negative h =>
    obtain ⟨m, hm⟩ := numeral_spelled h
    rw [List.map_cons, List.cons_append, skipValue, skipGap_cons rfl]
    show (numeral _).map _ = _
    rw [hm rest hrest]
    rfl

/-- What skipping a part of a text takes: as many steps as the part has characters. -/
def Skipped : Phrase → List Char → Prop
  | .value _, cs => ∀ n rest, cs.length ≤ n → Stops rest →
      skipValue n (cs.map .char ++ rest) = .ok rest
  | .items _, cs => ∀ n rest, cs.length < n →
      skipItems n (cs.map .char ++ .char ']' :: rest) = .ok rest
  | .members _, cs => ∀ n rest, cs.length < n →
      skipMembers n (cs.map .char ++ .char '}' :: rest) = .ok rest

theorem stops_comma (rest : Input) : Stops (.char ',' :: rest) := stops_cons (by decide) rest

theorem stops_bracket (rest : Input) : Stops (.char ']' :: rest) := stops_cons (by decide) rest

theorem stops_brace (rest : Input) : Stops (.char '}' :: rest) := stops_cons (by decide) rest

/-- An item is skipped with the white space around it, and what follows it decides. -/
theorem skipItems_value {t : Tree} {cs g g' : List Char} (hg : IsSpacing g) (hg' : IsSpacing g')
    (h : Skipped (.value t) cs) {n : ℕ} (hn : cs.length ≤ n) {rest : Input} (hrest : Stops rest) :
    let r := skipItems (n + 1) (g.map .char ++ (cs.map .char ++ (g'.map .char ++ rest)))
    (∀ tail, skipGap rest = .char ']' :: tail → r = .ok tail) ∧
      ∀ tail, skipGap rest = .char ',' :: tail → r = skipItems n tail := by
  have hvalue := h n _ hn (stops_spacing hg' hrest)
  rw [skipItems, skipValue_spacing hg, hvalue]
  simp only [bind, Except.bind, skipGap_spacing hg']
  exact ⟨fun tail htail => by rw [htail]; rfl, fun tail htail => by rw [htail]; rfl⟩

/-- A member is skipped with the white space around its name and its value, and what follows it
decides. -/
theorem skipMembers_value {us : Units} {t : Tree} {g₁ name g₂ g₃ cs g₄ : List Char}
    (hg₁ : IsSpacing g₁) (hname : SpellsString us name) (hg₂ : IsSpacing g₂) (hg₃ : IsSpacing g₃)
    (h : Skipped (.value t) cs) (hg₄ : IsSpacing g₄) {n : ℕ} (hn : cs.length ≤ n) {rest : Input}
    (hrest : Stops rest) :
    let r := skipMembers (n + 1) ((memberText g₁ name g₂ g₃ cs g₄).map .char ++ rest)
    (∀ tail, skipGap rest = .char '}' :: tail → r = .ok tail) ∧
      ∀ tail, skipGap rest = .char ',' :: tail → r = skipMembers n tail := by
  have hvalue := h n _ hn (stops_spacing hg₄ hrest)
  rw [map_memberText, skipMembers, skipGap_spacing hg₁, skipGap_cons rfl]
  simp only [skipString_spelled hname, bind, Except.bind, skipGap_spacing hg₂,
    skipGap_cons (show isGap (.char ':') = false from rfl), skipValue_spacing hg₃, hvalue,
    skipGap_spacing hg₄]
  exact ⟨fun tail htail => by rw [htail]; rfl, fun tail htail => by rw [htail]; rfl⟩

/-- The text of a member is longer than that of its value. -/
theorem add_three_le_of_memberText {g₁ name g₂ g₃ cs g₄ : List Char} {n : ℕ}
    (h : (memberText g₁ name g₂ g₃ cs g₄).length ≤ n) : cs.length + 3 ≤ n := by
  simp only [memberText, List.length_append, List.length_cons] at h
  omega

/-- **Every value is skipped** to its end. -/
theorem skipped {p : Phrase} {cs : List Char} (h : Spells p cs) : Skipped p cs := by
  induction h with
  | null | yes | no =>
    intro n rest hn _
    obtain ⟨n, rfl⟩ := Nat.exists_eq_add_of_le' hn
    exact word_spelled _ rest
  | number h =>
    intro n rest hn hrest
    obtain ⟨c, tail, rfl, -⟩ := number_head h
    obtain ⟨n, rfl⟩ := Nat.exists_eq_succ_of_ne_zero (Nat.ne_zero_of_lt hn)
    exact skipValue_number h n hrest
  | text h =>
    intro n rest hn _
    obtain ⟨n, rfl⟩ := Nat.exists_eq_succ_of_ne_zero (Nat.ne_zero_of_lt hn)
    rw [List.map_cons, List.cons_append, List.map_append, List.append_assoc, skipValue,
      skipGap_cons rfl]
    exact skipString_spelled h rest
  | emptyList h =>
    intro n rest hn _
    obtain ⟨n, rfl⟩ := Nat.exists_eq_succ_of_ne_zero (Nat.ne_zero_of_lt hn)
    rw [List.map_cons, List.cons_append, List.map_append, List.append_assoc, skipValue_bracket,
      skipGap_spacing h]
    rfl
  | list h ih =>
    intro n rest hn _
    obtain ⟨n, rfl⟩ := Nat.exists_eq_succ_of_ne_zero (Nat.ne_zero_of_lt hn)
    simp only [List.length_cons, List.length_append, List.length_nil] at hn
    obtain ⟨c, tail, hhead, hc⟩ := items_head h (.char ']' :: rest)
    rw [List.map_cons, List.cons_append, List.map_append, List.append_assoc]
    exact (skipValue_items n hhead hc).trans (ih n rest (by omega))
  | emptyRecord h =>
    intro n rest hn _
    obtain ⟨n, rfl⟩ := Nat.exists_eq_succ_of_ne_zero (Nat.ne_zero_of_lt hn)
    rw [List.map_cons, List.cons_append, List.map_append, List.append_assoc, skipValue_brace,
      skipGap_spacing h]
    rfl
  | record h ih =>
    intro n rest hn _
    obtain ⟨n, rfl⟩ := Nat.exists_eq_succ_of_ne_zero (Nat.ne_zero_of_lt hn)
    simp only [List.length_cons, List.length_append, List.length_nil] at hn
    obtain ⟨tail, hhead⟩ := members_head h (.char '}' :: rest)
    rw [List.map_cons, List.cons_append, List.map_append, List.append_assoc]
    exact (skipValue_members n hhead).trans (ih n rest (by omega))
  | lastItem hg h hg' ih =>
    intro n rest hn
    obtain ⟨n, rfl⟩ := Nat.exists_eq_succ_of_ne_zero (Nat.ne_zero_of_lt hn)
    simp only [List.length_append] at hn
    rw [List.map_append, List.map_append, List.append_assoc, List.append_assoc]
    exact (skipItems_value hg hg' ih (by omega) (stops_bracket rest)).1 rest (skipGap_cons rfl _)
  | item hg h hg' hrest ih ihrest =>
    intro n rest hn
    obtain ⟨n, rfl⟩ := Nat.exists_eq_succ_of_ne_zero (Nat.ne_zero_of_lt hn)
    simp only [List.length_append, List.length_cons] at hn
    simp only [List.map_append, List.map_cons, List.append_assoc, List.cons_append]
    refine ((skipItems_value hg hg' ih ?_ (stops_comma _)).2 _ (skipGap_cons rfl _)).trans ?_
    · omega
    · exact ihrest n rest (by omega)
  | lastMember hg₁ hname hg₂ hg₃ h hg₄ ih =>
    intro n rest hn
    obtain ⟨n, rfl⟩ := Nat.exists_eq_succ_of_ne_zero (Nat.ne_zero_of_lt hn)
    have hvalue := add_three_le_of_memberText (Nat.le_of_lt_succ hn)
    exact (skipMembers_value hg₁ hname hg₂ hg₃ ih hg₄ (by omega) (stops_brace rest)).1 rest
      (skipGap_cons rfl _)
  | member hg₁ hname hg₂ hg₃ h hg₄ hrest ih ihrest =>
    intro n rest hn
    obtain ⟨n, rfl⟩ := Nat.exists_eq_succ_of_ne_zero (Nat.ne_zero_of_lt hn)
    rw [List.length_append, List.length_cons] at hn
    have hvalue := add_three_le_of_memberText (Nat.le_of_add_right_le (Nat.le_of_lt_succ hn))
    rw [List.map_append, List.append_assoc, List.map_cons, List.cons_append]
    refine ((skipMembers_value hg₁ hname hg₂ hg₃ ih hg₄ ?_ (stops_comma _)).2 _
      (skipGap_cons rfl _)).trans ?_
    · omega
    · exact ihrest n rest (by omega)

end SmsRelay.Json
