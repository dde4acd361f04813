import Mathlib.Tactic.SplitIfs
import SmsRelay.Proofs.Json.RoundTrip

/-!
# What follows a value

A reader decides where a value ends by looking at the value, and what stands behind it does not
matter: a record that was read is read as before when more has been put behind it. So a text that
holds one record, and then another one, holds no record.

## Implementation notes

A number is the exception, as it goes on with the digits that follow it. But a number that belongs
to a record is never the last thing of the input, so the lemmas about values in general ask that
something was left over.

Skipping and the members of an object count their steps, and a longer input is granted more of them.
Hence the lemmas speak of any greater number of steps as well.

## Main results

* `record_append`: what follows a record does not matter.
* `whole_record_append`: a record with more behind it is not the whole input.
-/

namespace SmsRelay

theorem bind_eq_ok {ε α β : Type} {x : Except ε α} {f : α → Except ε β} {b : β}
    (h : x >>= f = .ok b) : ∃ a, x = .ok a ∧ f a = .ok b := by
  cases x with
  | error e => cases h
  | ok a => exact ⟨a, rfl, h⟩

theorem map_eq_ok {ε α β : Type} {x : Except ε α} {f : α → β} {b : β} (h : x.map f = .ok b) :
    ∃ a, x = .ok a ∧ f a = b := by
  cases x with
  | error e => cases h
  | ok a =>
    cases h
    exact ⟨a, rfl, rfl⟩

namespace Json

/-! ### Strings, words and white space -/

theorem prepend_eq_ok {c : Char} {r : Except Fault (List Char × Input)} {cs : List Char}
    {rest : Input} (h : prepend c r = .ok (cs, rest)) :
    ∃ ds, r = .ok (ds, rest) ∧ cs = c :: ds := by
  cases r with
  | error e => cases h
  | ok p =>
    cases h
    exact ⟨_, rfl, rfl⟩

/-- No escape of two characters begins like one of six. -/
theorem ne_u_of_shortEscape? {e : Char} (h : shortEscape? e ≠ none) : e ≠ 'u' := by
  rintro rfl
  exact h rfl

theorem stringBody_escape {e d : Char} (h : shortEscape? e = some d) (rest : Input) :
    stringBody none (.char '\\' :: .char e :: rest) = prepend d (stringBody none rest) := by
  have he := ne_u_of_shortEscape? (e := e) (by rw [h]; nofun)
  rw [stringBody.eq_def]
  dsimp only
  rw [if_pos rfl]
  split
  · rename_i heq
    cases heq
    exact absurd rfl he
  · rename_i heq
    cases heq
    rw [h]
  · rename_i heq
    exact absurd rfl (heq e rest)

/-- **What follows a string** does not matter. -/
theorem stringBody_append {high : Option ℕ} {gs : Input} {cs : List Char} {rest : Input}
    (h : stringBody high gs = .ok (cs, rest)) (more : Input) :
    stringBody high (gs ++ more) = .ok (cs, rest ++ more) := by
  fun_induction stringBody high gs generalizing cs rest with
  | case1 | case3 | case5 | case8 | case9 | case10 | case12 | case14 => cases h
  | case2 g i j k tail n hcode m hlow ih =>
    obtain ⟨ds, hds, rfl⟩ := prepend_eq_ok h
    simp only [List.cons_append, stringBody, if_true, hcode, hlow, and_self, ih hds, prepend]
  | case4 g i j k tail n hcode hhigh ih =>
    simp only [List.cons_append, stringBody, if_true, hcode, hhigh, and_self, ih h]
  | case6 g i j k tail n hcode hhigh hlow ih =>
    obtain ⟨ds, hds, rfl⟩ := prepend_eq_ok h
    simp only [List.cons_append, stringBody, if_true, hcode, if_neg hhigh, if_neg hlow, ih hds,
      prepend]
  | case7 e tail hnot d hescape ih =>
    obtain ⟨ds, hds, rfl⟩ := prepend_eq_ok h
    rw [List.cons_append, List.cons_append, stringBody_escape hescape, ih hds, prepend]
  | case11 high tail hhigh hslash =>
    cases h
    rw [List.cons_append, stringBody.eq_def]
    simp only [if_neg hslash, if_neg hhigh, if_true]
  | case13 high c tail hslash hhigh hquote hcontrol ih =>
    obtain ⟨ds, hds, rfl⟩ := prepend_eq_ok h
    rw [List.cons_append, stringBody.eq_def]
    simp only [if_neg hslash, if_neg hhigh, if_neg hquote, if_neg hcontrol, ih hds, prepend]

theorem skipString_escape {e : Char} (h : (shortEscape? e).isSome) (rest : Input) :
    skipString (.char '\\' :: .char e :: rest) = skipString rest := by
  have he := ne_u_of_shortEscape? (e := e) (Option.isSome_iff_ne_none.mp h)
  rw [skipString.eq_def]
  dsimp only
  rw [if_pos rfl]
  split
  · rename_i heq
    cases heq
    exact absurd rfl he
  · rename_i heq
    cases heq
    rw [if_pos h]
  · rename_i heq
    exact absurd rfl (heq e rest)

theorem skipString_append {gs rest : Input} (h : skipString gs = .ok rest) (more : Input) :
    skipString (gs ++ more) = .ok (rest ++ more) := by
  fun_induction skipString gs generalizing rest with
  | case3 | case5 | case6 | case8 | case10 => cases h
  | case1 tail ih => rw [List.cons_append, skipString, ih h]
  | case2 g i j k tail hcode ih =>
    simp only [List.cons_append, skipString, if_true, hcode, ih h]
  | case4 e tail hnot hescape ih =>
    rw [List.cons_append, List.cons_append, skipString_escape hescape, ih h]
  | case7 tail hslash =>
    cases h
    rw [List.cons_append, skipString.eq_def]
    simp only [if_neg hslash, if_true]
  | case9 c tail hslash hquote hcontrol ih =>
    rw [List.cons_append, skipString.eq_def]
    simp only [if_neg hslash, if_neg hquote, if_neg hcontrol, ih h]

theorem word_append {cs : List Char} {gs rest : Input} (h : word cs gs = .ok rest) (more : Input) :
    word cs (gs ++ more) = .ok (rest ++ more) := by
  fun_induction word cs gs generalizing rest with
  | case1 =>
    cases h
    rfl
  | case2 c cs gs ih => rw [List.cons_append, word, if_pos rfl, ih h]
  | case3 | case4 => cases h

theorem skipGap_append {gs rest : Input} (h : skipGap gs = rest) (hne : rest ≠ [])
    (more : Input) : skipGap (gs ++ more) = rest ++ more := by
  rw [skipGap] at h ⊢
  rw [List.dropWhile_append, h, if_neg (by simpa using hne)]

/-! ### Numbers -/

theorem digitRun_append_of_ne {gs rest : Input} {ds : List ℕ} (h : digitRun gs = (ds, rest))
    (hne : rest ≠ []) (more : Input) : digitRun (gs ++ more) = (ds, rest ++ more) := by
  induction gs generalizing ds with
  | nil =>
    cases h
    exact absurd rfl hne
  | cons g gs ih =>
    rw [List.cons_append, digitRun]
    rw [digitRun] at h
    split at h
    · cases h
      dsimp only
      rw [ih rfl]
    · cases h
      rfl

theorem someDigits_append {gs rest : Input} {ds : List ℕ} (h : someDigits gs = .ok (ds, rest))
    (hne : rest ≠ []) (more : Input) : someDigits (gs ++ more) = .ok (ds, rest ++ more) := by
  rw [someDigits] at h ⊢
  split at h
  · cases h
  · rename_i hsome
    cases hrun : digitRun gs with
    | mk ds' rest' =>
      rw [hrun] at h hsome
      cases h
      rw [digitRun_append_of_ne hrun hne]
      split
      · rename_i heq
        cases heq
        exact absurd rfl (hsome _)
      · rfl

theorem wholeDigits_append {gs rest : Input} {ds : List ℕ} (h : wholeDigits gs = .ok (ds, rest))
    (hne : rest ≠ []) (more : Input) : wholeDigits (gs ++ more) = .ok (ds, rest ++ more) := by
  obtain ⟨⟨ds', rest'⟩, hdigits, h⟩ := bind_eq_ok h
  split at h
  · cases h
  · rename_i hzero
    cases h
    rw [wholeDigits, someDigits_append hdigits hne]
    dsimp only [bind, Except.bind]
    split
    · rename_i heq
      cases heq
      exact absurd rfl (hzero _ _ _)
    · rfl

theorem partDigits_append {gs rest : Input} {ds : Option (List ℕ)}
    (h : partDigits gs = .ok (ds, rest)) (hne : rest ≠ []) (more : Input) :
    partDigits (gs ++ more) = .ok (ds, rest ++ more) := by
  fun_cases partDigits gs with
  | case1 tail =>
    rw [partDigits] at h
    obtain ⟨⟨ds', rest'⟩, hdigits, h⟩ := bind_eq_ok h
    cases h
    rw [List.cons_append, partDigits, someDigits_append hdigits hne]
    rfl
  | case2 gs hpoint =>
    rw [partDigits.eq_2 gs hpoint] at h
    cases h
    obtain ⟨g, tail, rfl⟩ := List.exists_cons_of_ne_nil hne
    refine partDigits.eq_2 _ fun tail' htail => ?_
    cases htail
    exact hpoint tail rfl

/-- The sign of an exponent. -/
def signed : Input → Bool × Input
  | .char '-' :: r => (false, r)
  | .char '+' :: r => (true, r)
  | r => (true, r)

theorem signed_append {gs : Input} (hne : gs ≠ []) (more : Input) :
    signed (gs ++ more) = ((signed gs).1, (signed gs).2 ++ more) := by
  fun_cases signed gs with
  | case1 | case2 => rfl
  | case3 gs hminus hplus =>
    obtain ⟨g, tail, rfl⟩ := List.exists_cons_of_ne_nil hne
    refine signed.eq_3 _ (fun tail' htail => ?_) fun tail' htail => ?_
    · cases htail
      exact hminus tail rfl
    · cases htail
      exact hplus tail rfl

theorem exponentDigits_cons (c : Char) (gs : Input) : exponentDigits (.char c :: gs) =
    if c = 'e' ∨ c = 'E' then
      someDigits (signed gs).2 >>= fun p => .ok (some ((signed gs).1, p.1), p.2)
    else .ok (none, .char c :: gs) := rfl

theorem exponentDigits_append {gs rest : Input} {ds : Option (Bool × List ℕ)}
    (h : exponentDigits gs = .ok (ds, rest)) (hne : rest ≠ []) (more : Input) :
    exponentDigits (gs ++ more) = .ok (ds, rest ++ more) := by
  cases gs with
  | nil =>
    cases h
    exact absurd rfl hne
  | cons g tail =>
    cases g with
    | stray =>
      cases h
      rfl
    | char c =>
      rw [exponentDigits_cons] at h
      rw [List.cons_append, exponentDigits_cons]
      split at h
      · rename_i hc
        obtain ⟨⟨ds', rest'⟩, hdigits, heq⟩ := bind_eq_ok h
        cases heq
        have htail : tail ≠ [] := by
          rintro rfl
          cases hdigits
        rw [if_pos hc, signed_append htail, someDigits_append hdigits hne]
        rfl
      · rename_i hc
        cases h
        rw [if_neg hc]
        rfl

/-- **What follows a number** does not matter if something was left over. -/
theorem numeral_append {gs rest : Input} {m : Numeral} (h : numeral gs = .ok (m, rest))
    (hne : rest ≠ []) (more : Input) : numeral (gs ++ more) = .ok (m, rest ++ more) := by
  obtain ⟨⟨ds, afterWhole⟩, hwhole, h⟩ := bind_eq_ok h
  obtain ⟨⟨part, afterPart⟩, hpart, h⟩ := bind_eq_ok h
  obtain ⟨⟨exponent, rest'⟩, hexponent, h⟩ := bind_eq_ok h
  cases h
  have hafterPart : afterPart ≠ [] := by
    rintro rfl
    cases hexponent
    exact hne rfl
  have hafterWhole : afterWhole ≠ [] := by
    rintro rfl
    cases hpart
    exact hafterPart rfl
  simp only [numeral, wholeDigits_append hwhole hafterWhole, partDigits_append hpart hafterPart,
    exponentDigits_append hexponent hne, bind, Except.bind]

/-! ### Values that are skipped -/

/-- What follows a value does not matter if it was skipped with `n` steps or more; if something was
left over, or if it was the rest of an array or of an object. -/
structure Skips (n : ℕ) : Prop where
  value : ∀ {gs rest}, skipValue n gs = .ok rest → rest ≠ [] → ∀ k, n ≤ k → ∀ more,
    skipValue k (gs ++ more) = .ok (rest ++ more)
  items : ∀ {gs rest}, skipItems n gs = .ok rest → ∀ k, n ≤ k → ∀ more,
    skipItems k (gs ++ more) = .ok (rest ++ more)
  members : ∀ {gs rest}, skipMembers n gs = .ok rest → ∀ k, n ≤ k → ∀ more,
    skipMembers k (gs ++ more) = .ok (rest ++ more)

theorem skipItems_nil (n : ℕ) (rest : Input) : skipItems n [] ≠ .ok rest := by
  cases n with
  | zero => nofun
  | succ n => cases n <;> nofun

theorem skipMembers_nil (n : ℕ) (rest : Input) : skipMembers n [] ≠ .ok rest := by
  cases n <;> nofun

theorem Skips.value_succ {n : ℕ} (ih : Skips n) {gs rest : Input}
    (h : skipValue (n + 1) gs = .ok rest) (hne : rest ≠ []) {k : ℕ} (hk : n ≤ k) (more : Input) :
    skipValue (k + 1) (gs ++ more) = .ok (rest ++ more) := by
  rw [skipValue] at h
  split at h
  · rename_i c tail hgap
    rw [skipValue, skipGap_append hgap (List.cons_ne_nil _ _), List.cons_append]
    dsimp only
    split_ifs at h ⊢ with hn ht hf hquote hbracket hbrace hminus hdigit
    · exact word_append h more
    · exact word_append h more
    · exact word_append h more
    · exact skipString_append h more
    · split at h
      · rename_i r hclose
        cases h
        rw [skipGap_append hclose (List.cons_ne_nil _ _)]
        rfl
      · rename_i hopen
        have htail : skipGap tail ≠ [] := by
          intro hnil
          rw [hnil] at h
          exact skipItems_nil n rest h
        obtain ⟨g, r, hr⟩ := List.exists_cons_of_ne_nil htail
        rw [hr] at h hopen
        rw [skipGap_append hr (List.cons_ne_nil _ _), ← ih.items h k hk more]
        split
        · rename_i heq
          cases heq
          exact absurd rfl (hopen r)
        · rfl
    · split at h
      · rename_i r hclose
        cases h
        rw [skipGap_append hclose (List.cons_ne_nil _ _)]
        rfl
      · rename_i hopen
        have htail : skipGap tail ≠ [] := by
          intro hnil
          rw [hnil] at h
          exact skipMembers_nil n rest h
        obtain ⟨g, r, hr⟩ := List.exists_cons_of_ne_nil htail
        rw [hr] at h hopen
        rw [skipGap_append hr (List.cons_ne_nil _ _), ← ih.members h k hk more]
        split
        · rename_i heq
          cases heq
          exact absurd rfl (hopen r)
        · rfl
    · obtain ⟨⟨m, rest'⟩, hnumeral, rfl⟩ := map_eq_ok h
      rw [numeral_append hnumeral hne]
      rfl
    · obtain ⟨⟨m, rest'⟩, hnumeral, rfl⟩ := map_eq_ok h
      have happend := numeral_append hnumeral hne more
      rw [List.cons_append] at happend
      rw [happend]
      rfl
  · cases h

theorem Skips.items_succ {n : ℕ} (ih : Skips n) {gs rest : Input}
    (h : skipItems (n + 1) gs = .ok rest) {k : ℕ} (hk : n ≤ k) (more : Input) :
    skipItems (k + 1) (gs ++ more) = .ok (rest ++ more) := by
  rw [skipItems] at h ⊢
  obtain ⟨after, hvalue, h⟩ := bind_eq_ok h
  have hne : after ≠ [] := by
    rintro rfl
    cases h
  rw [ih.value hvalue hne k hk]
  dsimp only [bind, Except.bind]
  split at h
  · rename_i hclose
    cases h
    rw [skipGap_append hclose (List.cons_ne_nil _ _)]
    rfl
  · rename_i hcomma
    rw [skipGap_append hcomma (List.cons_ne_nil _ _)]
    exact ih.items h k hk more
  · cases h

theorem Skips.members_succ {n : ℕ} (ih : Skips n) {gs rest : Input}
    (h : skipMembers (n + 1) gs = .ok rest) {k : ℕ} (hk : n ≤ k) (more : Input) :
    skipMembers (k + 1) (gs ++ more) = .ok (rest ++ more) := by
  rw [skipMembers] at h ⊢
  split at h
  · rename_i tail hquote
    rw [skipGap_append hquote (List.cons_ne_nil _ _)]
    obtain ⟨afterName, hname, h⟩ := bind_eq_ok h
    show (skipString (tail ++ more) >>= _) = _
    rw [skipString_append hname]
    simp only [bind, Except.bind] at h ⊢
    split at h
    · rename_i afterColon hcolon
      rw [skipGap_append hcolon (List.cons_ne_nil _ _)]
      cases hvalue : skipValue n afterColon with
      | error e =>
        rw [hvalue] at h
        cases h
      | ok after =>
        rw [hvalue] at h
        have hne : after ≠ [] := by
          rintro rfl
          cases h
        have hmore := ih.value hvalue hne k hk more
        simp only [List.cons_append, hmore] at h ⊢
        split at h
        · rename_i hclose
          cases h
          rw [skipGap_append hclose (List.cons_ne_nil _ _)]
          rfl
        · rename_i hcomma
          rw [skipGap_append hcomma (List.cons_ne_nil _ _)]
          exact ih.members h k hk more
        · cases h
    · cases h
  · cases h

/-- **What follows a value that is skipped** does not matter. -/
theorem skips (n : ℕ) : Skips n := by
  induction n with
  | zero => exact ⟨nofun, nofun, nofun⟩
  | succ n ih =>
    refine ⟨fun {gs rest} h hne k hk more => ?_, fun {gs rest} h k hk more => ?_,
      fun {gs rest} h k hk more => ?_⟩
    all_goals
      obtain ⟨k, rfl⟩ := Nat.exists_eq_add_one_of_ne_zero (Nat.ne_zero_of_lt hk)
      have hk := Nat.le_of_succ_le_succ hk
    · exact ih.value_succ h hne hk more
    · exact ih.items_succ h hk more
    · exact ih.members_succ h hk more

theorem skip_append {gs rest : Input} (h : skip gs = .ok rest) (hne : rest ≠ []) (more : Input) :
    skip (gs ++ more) = .ok (rest ++ more) := by
  refine (skips _).value h hne _ ?_ more
  rw [List.length_append]
  omega

theorem colon_append {gs rest : Input} (h : colon gs = .ok rest) (more : Input) :
    colon (gs ++ more) = .ok (rest ++ more) := by
  rw [colon] at h ⊢
  split at h
  · rename_i hcolon
    cases h
    rw [skipGap_append hcolon (List.cons_ne_nil _ _)]
    rfl
  · cases h

/-! ### Records -/

/-- What follows does not matter to a reader that leaves something over. -/
def Steady {α : Type} (r : Reader α) : Prop :=
  ∀ gs v rest, r gs = .ok (v, rest) → rest ≠ [] → ∀ more, r (gs ++ more) = .ok (v, rest ++ more)

theorem steady_text : Steady text := by
  intro gs v rest h hne more
  rw [text] at h ⊢
  split at h
  · rename_i hquote
    obtain ⟨⟨cs, rest'⟩, hbody, heq⟩ := map_eq_ok h
    cases heq
    rw [skipGap_append hquote (List.cons_ne_nil _ _)]
    show Except.map _ (stringBody none (_ ++ more)) = _
    rw [stringBody_append hbody]
    rfl
  · cases h

theorem Steady.of {σ α : Type} {r : Reader α} (h : Steady r) (name : String) (set : α → σ → σ) :
    Steady (Field.of name r set).read := by
  intro gs v rest hread hne more
  obtain ⟨⟨a, rest'⟩, hr, heq⟩ := map_eq_ok hread
  cases heq
  show Except.map _ (r (gs ++ more)) = _
  rw [h _ _ _ hr hne]
  rfl

theorem Steady.mandatory {σ : Type} {f : Field σ} (h : Steady f.read) : Steady f.mandatory.read :=
  h

variable {σ : Type} {fields : List (Field σ)}

/-- A member and those that follow it, after its opening quote. -/
def memberFrom (fields : List (Field σ)) (n : ℕ) (seen : List String) (s : σ) : Reader σ :=
  fun gs => do
    let (cs, rest) ← stringBody none gs
    match Field.find? fields (String.ofList cs) with
    | some f =>
      if seen.contains f.name then .error .mismatch
      else do
        let (change, rest) ← f.read (← colon rest)
        members fields n (f.name :: seen) false (change s) rest
    | none => do
      let rest ← skip (← colon rest)
      members fields n seen false s rest

theorem members_succ (n : ℕ) (seen : List String) (isFirst : Bool) (s : σ) (gs : Input) :
    members fields (n + 1) seen isFirst s gs =
      match skipGap gs with
      | .char '}' :: rest =>
        if fields.all fun f => !f.required || seen.contains f.name then .ok (s, rest)
        else .error .mismatch
      | .char ',' :: rest =>
        if isFirst then .error .malformed
        else match skipGap rest with
          | .char '"' :: rest => memberFrom fields n seen s rest
          | _ => .error .malformed
      | .char '"' :: rest =>
        if isFirst then memberFrom fields n seen s rest else .error .malformed
      | _ => .error .malformed := rfl

theorem members_nil (n : ℕ) (seen : List String) (isFirst : Bool) (s : σ) (p : σ × Input) :
    members fields n seen isFirst s [] ≠ .ok p := by
  cases n <;> nofun

/-- What follows a member does not matter if it does not matter to the members after it. -/
theorem memberFrom_append (hfields : ∀ f ∈ fields, Steady f.read) {n k : ℕ} {more : Input}
    (ih : ∀ {seen isFirst s v gs rest}, members fields n seen isFirst s gs = .ok (v, rest) →
      members fields k seen isFirst s (gs ++ more) = .ok (v, rest ++ more))
    {seen : List String} {s v : σ} {gs rest : Input}
    (h : memberFrom fields n seen s gs = .ok (v, rest)) :
    memberFrom fields k seen s (gs ++ more) = .ok (v, rest ++ more) := by
  obtain ⟨⟨cs, afterName⟩, hname, h⟩ := bind_eq_ok h
  rw [memberFrom, stringBody_append hname]
  simp only [bind, Except.bind]
  dsimp only at h
  split at h
  · rename_i f hfound
    split at h
    · cases h
    · rename_i hunseen
      rw [if_neg hunseen]
      obtain ⟨afterColon, hcolon, h⟩ := bind_eq_ok h
      obtain ⟨⟨change, after⟩, hread, h⟩ := bind_eq_ok h
      have hne : after ≠ [] := by
        rintro rfl
        exact members_nil _ _ _ _ _ h
      have hf := hfields f (List.mem_of_find?_eq_some hfound)
      rw [colon_append hcolon]
      dsimp only
      rw [hf _ _ _ hread hne]
      exact ih h
  · obtain ⟨afterColon, hcolon, h⟩ := bind_eq_ok h
    obtain ⟨after, hskip, h⟩ := bind_eq_ok h
    have hne : after ≠ [] := by
      rintro rfl
      exact members_nil _ _ _ _ _ h
    rw [colon_append hcolon]
    dsimp only
    rw [skip_append hskip hne]
    exact ih h

/-- **What follows an object** does not matter. -/
theorem members_append (hfields : ∀ f ∈ fields, Steady f.read) {n : ℕ} {seen : List String}
    {isFirst : Bool} {s v : σ} {gs rest : Input}
    (h : members fields n seen isFirst s gs = .ok (v, rest)) {k : ℕ} (hk : n ≤ k) (more : Input) :
    members fields k seen isFirst s (gs ++ more) = .ok (v, rest ++ more) := by
  induction n generalizing seen isFirst s v gs rest k with
  | zero => cases h
  | succ n ih =>
    obtain ⟨k, rfl⟩ := Nat.exists_eq_add_one_of_ne_zero (Nat.ne_zero_of_lt hk)
    have hk := Nat.le_of_succ_le_succ hk
    have hmember : ∀ {tail}, memberFrom fields n seen s tail = .ok (v, rest) →
        memberFrom fields k seen s (tail ++ more) = .ok (v, rest ++ more) :=
      memberFrom_append hfields fun hrest => ih hrest hk
    rw [members_succ] at h ⊢
    split at h
    · rename_i hclose
      rw [skipGap_append hclose (List.cons_ne_nil _ _)]
      split at h
      · rename_i hall
        cases h
        exact if_pos hall
      · cases h
    · rename_i hcomma
      rw [skipGap_append hcomma (List.cons_ne_nil _ _)]
      split at h
      · cases h
      · rename_i hfirst
        split at h
        · rename_i hquote
          show (if isFirst then _ else match skipGap (_ ++ more) with
            | .char '"' :: rest => memberFrom fields k seen s rest
            | _ => .error .malformed) = _
          rw [if_neg hfirst, skipGap_append hquote (List.cons_ne_nil _ _)]
          exact hmember h
        · cases h
    · rename_i hquote
      rw [skipGap_append hquote (List.cons_ne_nil _ _)]
      split at h
      · rename_i hfirst
        exact (if_pos hfirst).trans (hmember h)
      · cases h
    · cases h

/-- An item and those that follow it. -/
def itemFrom (f : Field σ) (fields : List (Field σ)) (s : σ) : Reader σ := fun gs => do
  let (change, rest) ← f.read gs
  items fields false (change s) rest

/-- An item after its comma. -/
def itemNext (f : Field σ) (fields : List (Field σ)) (s : σ) : Reader σ
  | [] => .error .malformed
  | .char ']' :: _ => .error .malformed
  | gs => itemFrom f fields s gs

theorem items_cons (f : Field σ) (isFirst : Bool) (s : σ) (gs : Input) :
    items (f :: fields) isFirst s gs =
      match skipGap gs with
      | [] => .error .malformed
      | .char ']' :: rest =>
        if (f :: fields).any (·.required) then .error .mismatch else .ok (s, rest)
      | g :: rest =>
        if isFirst then itemFrom f fields s (g :: rest)
        else if g = .char ',' then itemNext f fields s (skipGap rest)
        else .error .malformed := rfl

/-- The items of an array that does not end here. -/
theorem items_open {f : Field σ} {isFirst : Bool} {s : σ} {gs : Input} {g : Glyph} {tail : Input}
    (hgap : skipGap gs = g :: tail) (hopen : g ≠ .char ']') :
    items (f :: fields) isFirst s gs =
      if isFirst then itemFrom f fields s (g :: tail)
      else if g = .char ',' then itemNext f fields s (skipGap tail) else .error .malformed := by
  rw [items_cons, hgap]
  split
  · rename_i heq
    cases heq
  · rename_i heq
    cases heq
    exact absurd rfl hopen
  · rename_i heq
    cases heq
    rfl

theorem items_nil (isFirst : Bool) (s : σ) (p : σ × Input) :
    items fields isFirst s [] ≠ .ok p := by
  cases fields <;> nofun

theorem itemFrom_append {f : Field σ} (hf : Steady f.read) {more : Input}
    (ih : ∀ {s v gs rest}, items fields false s gs = .ok (v, rest) →
      items fields false s (gs ++ more) = .ok (v, rest ++ more))
    {s v : σ} {gs rest : Input} (h : itemFrom f fields s gs = .ok (v, rest)) :
    itemFrom f fields s (gs ++ more) = .ok (v, rest ++ more) := by
  obtain ⟨⟨change, after⟩, hread, h⟩ := bind_eq_ok h
  have hne : after ≠ [] := by
    rintro rfl
    exact items_nil _ _ _ h
  rw [itemFrom, hf _ _ _ hread hne]
  exact ih h

theorem itemNext_append {f : Field σ} {more : Input} {s v : σ} {gs rest : Input}
    (hitem : itemFrom f fields s gs = .ok (v, rest) →
      itemFrom f fields s (gs ++ more) = .ok (v, rest ++ more))
    (h : itemNext f fields s gs = .ok (v, rest)) :
    itemNext f fields s (gs ++ more) = .ok (v, rest ++ more) := by
  fun_cases itemNext f fields s gs with
  | case1 | case2 => cases h
  | case3 gs hne hopen =>
    obtain ⟨g, tail, rfl⟩ := List.exists_cons_of_ne_nil hne
    rw [itemNext.eq_3 _ _ _ _ hne hopen] at h
    have hstays := itemNext.eq_3 f fields s (g :: tail ++ more) (List.cons_ne_nil _ _)
      fun tail' heq => by
        cases heq
        exact hopen tail rfl
    rw [hstays]
    exact hitem h

/-- **What follows an array** does not matter. -/
theorem items_append (hfields : ∀ f ∈ fields, Steady f.read) {isFirst : Bool} {s v : σ}
    {gs rest : Input} (h : items fields isFirst s gs = .ok (v, rest)) (more : Input) :
    items fields isFirst s (gs ++ more) = .ok (v, rest ++ more) := by
  induction fields generalizing isFirst s v gs rest with
  | nil =>
    rw [items] at h ⊢
    split at h
    · rename_i hclose
      cases h
      rw [skipGap_append hclose (List.cons_ne_nil _ _)]
      rfl
    · cases h
  | cons f fields ih =>
    obtain ⟨hf, hfields⟩ := List.forall_mem_cons.mp hfields
    have hitem : ∀ {tail}, itemFrom f fields s tail = .ok (v, rest) →
        itemFrom f fields s (tail ++ more) = .ok (v, rest ++ more) :=
      itemFrom_append hf (ih hfields)
    cases hgap : skipGap gs with
    | nil =>
      rw [items_cons, hgap] at h
      cases h
    | cons g tail =>
      have hmore : skipGap (gs ++ more) = g :: (tail ++ more) :=
        skipGap_append hgap (List.cons_ne_nil _ _) more
      by_cases hclose : g = .char ']'
      · subst hclose
        rw [items_cons, hgap] at h
        rw [items_cons, hmore]
        show (if (f :: fields).any (·.required) then _ else _) = _
        have h : (if (f :: fields).any (·.required) then .error Fault.mismatch
            else Except.ok (s, tail)) = .ok (v, rest) := h
        split at h
        · cases h
        · rename_i hoptional
          cases h
          exact if_neg hoptional
      · rw [items_open hgap hclose] at h
        rw [items_open hmore hclose]
        split at h
        · rename_i hfirst
          exact (if_pos hfirst).trans (hitem h)
        · rename_i hfirst
          split at h
          · rename_i hcomma
            rw [if_neg hfirst, if_pos hcomma]
            have hne : skipGap tail ≠ [] := by
              intro hnil
              rw [hnil] at h
              cases h
            rw [skipGap_append rfl hne]
            exact itemNext_append hitem h
          · cases h

/-- **What follows a record** does not matter. -/
theorem record_append (hfields : ∀ f ∈ fields, Steady f.read) {start v : σ} {gs rest : Input}
    (h : record fields start gs = .ok (v, rest)) (more : Input) :
    record fields start (gs ++ more) = .ok (v, rest ++ more) := by
  rw [record] at h ⊢
  split at h
  · rename_i tail hbrace
    rw [skipGap_append hbrace (List.cons_ne_nil _ _)]
    refine members_append hfields h (Nat.succ_le_succ ?_) more
    show tail.length ≤ (tail ++ more).length
    rw [List.length_append]
    exact Nat.le_add_right _ _
  · rename_i tail hbracket
    rw [skipGap_append hbracket (List.cons_ne_nil _ _)]
    exact items_append hfields h more
  · cases h

/-- **A value with more behind it** is not the whole input. -/
theorem whole_record_append (hfields : ∀ f ∈ fields, Steady f.read) {start v : σ} {gs more : Input}
    (h : whole (record fields start) gs = .ok v) (hmore : skipGap more ≠ []) :
    whole (record fields start) (gs ++ more) = .error .malformed := by
  obtain ⟨⟨v', rest⟩, hread, h⟩ := bind_eq_ok h
  have hrest : skipGap (rest ++ more) ≠ [] := by
    rw [skipGap, List.dropWhile_append]
    split
    · exact hmore
    · rename_i hsome
      intro hnil
      exact hsome (List.isEmpty_iff.mpr (List.append_eq_nil_iff.mp hnil).1)
  rw [whole, record_append hfields hread]
  exact if_neg (by simpa using hrest)

end Json

end SmsRelay
