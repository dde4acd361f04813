import Mathlib.Data.Finset.Insert
import SmsRelay.Proofs.Json.Spelling

/-!
# Reading what a text says

A field of a record understands the values that may stand in it, and an object is read as the list
of its members: each one adds to the record what its field makes of its value, members of unknown
names add nothing, and a field that stands twice spoils the whole. How the object is written does
not matter.

## Main results

* `Understands.orNull`, `understands_text`, `understands_number`: what readers make of values.
* `members_spelled`: the members of an object are read one after the other.
* `whole_spelled`: an object that is the whole input is read as its members.
* `readMembers_perm`: the order of the members does not matter.
-/

namespace SmsRelay.Json

/-! ### Values that are read -/

variable {α : Type}

/-- The reader takes from a value what `mean` says of it, however the value is written. -/
def Understands (r : Reader α) (mean : Tree → Option α) : Prop :=
  ∀ t cs, Spells (.value t) cs → ∀ g, IsSpacing g → ∀ rest, Stops rest →
    Gives (r (g.map .char ++ (cs.map .char ++ rest))) (mean t) rest

/-- The text that a tree is. -/
def Tree.text? : Tree → Option String
  | .text us => us.text?
  | _ => none

/-- The number that a tree is, if it is accepted. -/
def Tree.number? (accept : Number → Option α) : Tree → Option α
  | .number cs => (literal? cs).bind accept
  | _ => none

/-- A default for `null`. -/
def Tree.orNull? (default : α) (mean : Tree → Option α) : Tree → Option α
  | .null => some default
  | t => mean t

theorem understands_text : Understands text Tree.text? := by
  intro t cs h g hg rest _
  rw [text, skipGap_spacing hg, skipGap_value h]
  cases h with
  | @text us cs h =>
    rw [List.map_cons, List.cons_append, List.map_append, List.append_assoc]
    show Gives ((stringBody none (cs.map .char ++ .char '"' :: rest)).map _) (us.text?) rest
    rw [stringBody_spelled h, Units.text?]
    cases us.chars? with
    | none => exact ⟨_, rfl⟩
    | some ds => rfl
  | number h =>
    obtain ⟨c, tail, rfl, hc⟩ := number_head h
    have hquote : c ≠ '"' := by
      rintro rfl
      rcases hc with hc | hc <;> cases hc
    rw [List.map_cons, List.cons_append]
    split
    · rename_i heq
      cases heq
      exact absurd rfl hquote
    · exact ⟨_, rfl⟩
  | null | yes | no | emptyList | list | emptyRecord | record => exact ⟨_, rfl⟩

theorem understands_number (accept : Number → Option α) :
    Understands (numberWith accept) (Tree.number? accept) := by
  intro t cs h g hg rest hrest
  rw [numberWith, skipGap_spacing hg, skipGap_value h]
  cases h with
  | number h =>
    have hstarts : startsNumber (cs.map .char ++ rest) := by
      obtain ⟨c, tail, rfl, hc⟩ := number_head h
      rcases hc with rfl | hc
      · rfl
      · rw [List.map_cons, List.cons_append, startsNumber, hc, Bool.or_true]
    simp only [hstarts, if_true]
    refine (number_spelled h hrest).bind fun n => ?_
    cases accept n with
    | none => exact ⟨_, rfl⟩
    | some v => rfl
  | text | null | yes | no | emptyList | list | emptyRecord | record => exact ⟨_, rfl⟩

theorem Understands.orNull {r : Reader α} {mean : Tree → Option α} (h : Understands r mean)
    (default : α) : Understands (orNull default r) (Tree.orNull? default mean) := by
  intro t cs hcs g hg rest hrest
  have hread := h t cs hcs [] nofun rest hrest
  rw [List.map_nil, List.nil_append] at hread
  rw [Json.orNull, skipGap_spacing hg, skipGap_value hcs]
  cases hcs with
  | null =>
    show Gives ((word "ull".toList ("ull".toList.map .char ++ rest)).map _) (some default) rest
    rw [word_spelled]
    rfl
  | number hnumber =>
    obtain ⟨c, tail, rfl, hc⟩ := number_head hnumber
    have hn : c ≠ 'n' := by
      rintro rfl
      rcases hc with hc | hc <;> cases hc
    rw [List.map_cons, List.cons_append] at hread ⊢
    split
    · rename_i heq
      cases heq
      exact absurd rfl hn
    · exact hread
  | text | yes | no | emptyList | list | emptyRecord | record => exact hread

theorem Understands.of {σ : Type} {r : Reader α} {mean : Tree → Option α} (h : Understands r mean)
    (name : String) (set : α → σ → σ) :
    Understands (Field.of name r set).read fun t => (mean t).map set :=
  fun t cs hcs g hg rest hrest => (h t cs hcs g hg rest hrest).map set

/-! ### Objects -/

section Objects

variable {σ : Type}

/-- The fields of a record with what their values mean. -/
structure Meaning (fields : List (Field σ)) (mean : String → Tree → Option (σ → σ)) : Prop where
  understands : ∀ f ∈ fields, Understands f.read (mean f.name)
  optional : ∀ f ∈ fields, f.required = false

variable {fields : List (Field σ)} {mean : String → Tree → Option (σ → σ)}

theorem find?_spec {name : String} {f : Field σ} (h : Field.find? fields name = some f) :
    f ∈ fields ∧ f.name = name := by
  have hname := List.find?_some h
  exact ⟨List.mem_of_find?_eq_some h, by simpa using hname⟩

/-- What a field adds to the fields seen so far and to the record. -/
def readField (mean : String → Tree → Option (σ → σ)) (f : Field σ) (t : Tree)
    (state : Finset String × σ) : Option (Finset String × σ) :=
  if f.name ∈ state.1 then none
  else (mean f.name t).map fun change => (insert f.name state.1, change state.2)

/-- What a member adds to the fields seen so far and to the record. -/
def readMember (fields : List (Field σ)) (mean : String → Tree → Option (σ → σ))
    (state : Finset String × σ) (m : Units × Tree) : Option (Finset String × σ) :=
  m.1.text?.bind fun name =>
    match Field.find? fields name with
    | none => some state
    | some f => readField mean f m.2 state

/-- What the members of an object say. -/
def readMembers (fields : List (Field σ)) (mean : String → Tree → Option (σ → σ)) (ms : Members)
    (state : Finset String × σ) : Option (Finset String × σ) :=
  ms.foldlM (readMember fields mean) state

theorem members_close (hm : Meaning fields mean) (n : ℕ) (seen : List String) (isFirst : Bool)
    (s : σ) {g : List Char} (hg : IsSpacing g) (rest : Input) :
    members fields (n + 1) seen isFirst s (g.map .char ++ .char '}' :: rest) = .ok (s, rest) := by
  have hall : (fields.all fun f => !f.required || seen.contains f.name) = true := by
    rw [List.all_eq_true]
    intro f hf
    rw [hm.optional f hf]
    rfl
  rw [members_succ, skipGap_spacing hg, skipGap_cons rfl]
  exact if_pos hall

theorem members_first (n : ℕ) (seen : List String) (s : σ) {gs tail : Input}
    (h : skipGap gs = .char '"' :: tail) :
    members fields (n + 1) seen true s gs = memberFrom fields n seen s tail := by
  rw [members_succ, h]
  rfl

theorem members_later (n : ℕ) (seen : List String) (s : σ) {g : List Char} (hg : IsSpacing g)
    {gs tail : Input} (h : skipGap gs = .char '"' :: tail) :
    members fields (n + 1) seen false s (g.map .char ++ .char ',' :: gs)
      = memberFrom fields n seen s tail := by
  rw [members_succ, skipGap_spacing hg, skipGap_cons rfl]
  simp only [h, Bool.false_eq_true, if_false]

theorem colon_spelled {g : List Char} (hg : IsSpacing g) (rest : Input) :
    colon (g.map .char ++ .char ':' :: rest) = .ok rest := by
  rw [colon, skipGap_spacing hg, skipGap_cons rfl]
  rfl

/-- A value that nobody asks for is skipped. -/
theorem skip_spelled {t : Tree} {cs g : List Char} (h : Spells (.value t) cs) (hg : IsSpacing g)
    {rest : Input} (hrest : Stops rest) :
    skip (g.map .char ++ (cs.map .char ++ rest)) = .ok rest := by
  rw [skip, skipValue_spacing hg]
  refine skipped h _ rest ?_ hrest
  simp only [List.length_append, List.length_map]
  omega

/-- **A member** is read as its field says, and then those that follow it. -/
theorem memberFrom_spelled (hm : Meaning fields mean) {us : Units} {t : Tree}
    {name g₂ g₃ cs : List Char} (hname : SpellsString us name) (hg₂ : IsSpacing g₂)
    (hg₃ : IsSpacing g₃) (h : Spells (.value t) cs) {n : ℕ} (seen : List String) (s : σ)
    {after rest : Input} (hafter : Stops after) {ms : Members}
    (hrest : ∀ seen' s', Gives (members fields n seen' false s' after)
      ((readMembers fields mean ms (seen'.toFinset, s')).map Prod.snd) rest) :
    Gives (memberFrom fields n seen s (name.map .char ++ .char '"' :: (g₂.map .char ++
        .char ':' :: (g₃.map .char ++ (cs.map .char ++ after)))))
      ((readMembers fields mean ((us, t) :: ms) (seen.toFinset, s)).map Prod.snd) rest := by
  rw [memberFrom, stringBody_spelled hname, readMembers, List.foldlM_cons, readMember, Units.text?]
  cases us.chars? with
  | none => exact ⟨_, rfl⟩
  | some ds =>
    simp only [bodyOf, bind, Except.bind, Option.map_some, Option.bind_some]
    cases hfound : Field.find? fields (String.ofList ds) with
    | none =>
      simp only [colon_spelled hg₂, skip_spelled h hg₃ hafter]
      exact hrest seen s
    | some f =>
      have hf : f ∈ fields := (find?_spec hfound).1
      by_cases hseen : f.name ∈ seen
      · have hcontains : seen.contains f.name = true := by simpa using hseen
        simp only [readField, List.mem_toFinset, if_pos hseen, if_pos hcontains]
        exact ⟨_, rfl⟩
      · have hcontains : ¬ seen.contains f.name = true := by simpa using hseen
        simp only [readField, List.mem_toFinset, if_neg hseen, if_neg hcontains, colon_spelled hg₂,
          Option.bind_map, Option.map_bind]
        refine (hm.understands f hf t cs h g₃ hg₃ after hafter).bind fun change => ?_
        have hthen := hrest (f.name :: seen) (change s)
        rwa [List.toFinset_cons] at hthen

/-- **The members of an object** are read one after the other. -/
theorem members_spelled (hm : Meaning fields mean) {ms : Members} {cs : List Char}
    (h : Spells (.members ms) cs) {n : ℕ} (hn : cs.length < n) (rest : Input) :
    ∃ tail, skipGap (cs.map .char ++ .char '}' :: rest) = .char '"' :: tail ∧
      ∀ seen s, Gives (memberFrom fields (n - 1) seen s tail)
        ((readMembers fields mean ms (seen.toFinset, s)).map Prod.snd) rest := by
  induction ms generalizing cs n with
  | nil => cases h
  | cons m ms ih =>
    obtain ⟨n, rfl⟩ := Nat.exists_eq_succ_of_ne_zero (Nat.ne_zero_of_lt hn)
    rw [Nat.succ_sub_one]
    cases h with
    | lastMember hg₁ hname hg₂ hg₃ hvalue hg₄ =>
      have hlength := add_three_le_of_memberText (Nat.le_of_lt_succ hn)
      obtain ⟨n, rfl⟩ := Nat.exists_eq_succ_of_ne_zero (show n ≠ 0 by omega)
      rw [map_memberText, skipGap_spacing hg₁]
      refine ⟨_, skipGap_cons rfl _, fun seen s => ?_⟩
      exact memberFrom_spelled hm hname hg₂ hg₃ hvalue seen s
        (stops_spacing hg₄ (stops_brace rest)) fun seen' s' =>
          members_close hm n seen' false s' hg₄ rest
    | @member us t g₁ name g₂ g₃ value g₄ ms ds hg₁ hname hg₂ hg₃ hvalue hg₄ hrest =>
      rw [List.length_append, List.length_cons] at hn
      have hlength := add_three_le_of_memberText (Nat.le_of_add_right_le (Nat.le_of_lt_succ hn))
      obtain ⟨n, rfl⟩ := Nat.exists_eq_succ_of_ne_zero (show n ≠ 0 by omega)
      obtain ⟨tail, htail, hread⟩ := ih hrest (n := n + 1) (by omega)
      rw [List.map_append, List.append_assoc, List.map_cons, List.cons_append, map_memberText,
        skipGap_spacing hg₁]
      refine ⟨_, skipGap_cons rfl _, fun seen s => ?_⟩
      refine memberFrom_spelled hm hname hg₂ hg₃ hvalue seen s
        (stops_spacing hg₄ (stops_comma _)) fun seen' s' => ?_
      rw [members_later n seen' s' hg₄ htail]
      exact hread seen' s'

/-- **An object that is the whole input** is read as its members. -/
theorem whole_spelled (hm : Meaning fields mean) {ms : Members} {cs : List Char}
    (h : SpellsObject ms cs) (start : σ) :
    match readMembers fields mean ms (∅, start) with
    | none => ∃ fault, whole (record fields start) (cs.map .char) = .error fault
    | some state => whole (record fields start) (cs.map .char) = .ok state.2 := by
  obtain ⟨g, body, g', hg, hbody, hg', rfl⟩ := h
  -- the members, without the white space around the object
  have hrecord : Gives (record fields start ((g ++ (body ++ g')).map .char))
      ((readMembers fields mean ms (∅, start)).map Prod.snd) (g'.map .char) := by
    rw [List.map_append, List.map_append, record, skipGap_spacing hg, skipGap_value hbody]
    cases hbody with
    | emptyRecord hspacing =>
      rw [List.map_cons, List.cons_append, List.map_append, List.append_assoc]
      exact members_close hm _ [] true start hspacing (g'.map .char)
    | @record _ cs hmembers =>
      rw [List.map_cons, List.cons_append, List.map_append, List.append_assoc]
      have hlength : cs.length <
          (cs.map Glyph.char ++ .char '}' :: g'.map Glyph.char).length + 1 := by
        simp only [List.length_append, List.length_map]
        omega
      obtain ⟨tail, htail, hread⟩ := members_spelled hm hmembers hlength (g'.map .char)
      show Gives (members fields _ [] true start (cs.map .char ++ .char '}' :: g'.map .char)) _ _
      rw [members_first _ [] start htail]
      exact hread [] start
  have hend : skipGap (g'.map Glyph.char) = [] := by
    have hskip := skipGap_spacing hg' []
    rwa [List.append_nil] at hskip
  cases hmembers : readMembers fields mean ms (∅, start) with
  | none =>
    rw [hmembers] at hrecord
    obtain ⟨fault, hfault⟩ := hrecord
    exact ⟨fault, by rw [whole, hfault]; rfl⟩
  | some state =>
    rw [hmembers] at hrecord
    have hrecord : record fields start _ = .ok (state.2, g'.map .char) := hrecord
    rw [whole, hrecord]
    simp only [bind, Except.bind, hend, List.isEmpty_nil, if_true]

/-! ### The order of the members -/

/-- Changes of different fields can be made in either order. -/
def Independent (fields : List (Field σ)) (mean : String → Tree → Option (σ → σ)) : Prop :=
  ∀ f ∈ fields, ∀ f' ∈ fields, f.name ≠ f'.name → ∀ t t' change change',
    mean f.name t = some change → mean f'.name t' = some change' →
      ∀ s, change (change' s) = change' (change s)

theorem readField_none {f : Field σ} {t : Tree} (h : mean f.name t = none) :
    readField mean f t = fun _ => none := by
  funext state
  simp [readField, h]

theorem readField_comm (hi : Independent fields mean) {f f' : Field σ} (hf : f ∈ fields)
    (hf' : f' ∈ fields) (t t' : Tree) (state : Finset String × σ) :
    (readField mean f t state).bind (readField mean f' t') =
      (readField mean f' t' state).bind (readField mean f t) := by
  obtain ⟨seen, s⟩ := state
  by_cases hsame : f.name = f'.name
  · -- the second of the two finds the name seen
    have hnone : ∀ {a b : Field σ} {u v : Tree}, a.name = b.name →
        (readField mean a u (seen, s)).bind (readField mean b v) = none := by
      intro a b u v hab
      rw [Option.bind_eq_none_iff]
      rintro ⟨seen', s'⟩ hread
      rw [readField] at hread
      split at hread
      · cases hread
      · obtain ⟨change, -, hstate⟩ := Option.map_eq_some_iff.mp hread
        cases hstate
        exact if_pos (hab ▸ Finset.mem_insert_self _ _)
    rw [hnone hsame, hnone hsame.symm]
  · have hne : ¬ f'.name = f.name := fun h => hsame h.symm
    cases hmean : mean f.name t with
    | none => simp [readField_none hmean]
    | some change =>
      cases hmean' : mean f'.name t' with
      | none => simp [readField_none hmean']
      | some change' =>
        have hcomm := hi f hf f' hf' hsame t t' change change' hmean hmean' s
        by_cases hseen : f.name ∈ seen <;> by_cases hseen' : f'.name ∈ seen <;>
          simp [readField, hseen, hseen', hmean, hmean', hsame, hne, hcomm,
            Finset.insert_comm f.name]

/-- **Two members** add the same in either order. -/
theorem readMember_comm (hi : Independent fields mean) (m m' : Units × Tree)
    (state : Finset String × σ) :
    (readMember fields mean state m).bind (readMember fields mean · m') =
      (readMember fields mean state m').bind (readMember fields mean · m) := by
  obtain ⟨us, t⟩ := m
  obtain ⟨us', t'⟩ := m'
  simp only [readMember]
  cases us.text? with
  | none => cases us'.text? <;> simp
  | some name =>
    cases us'.text? with
    | none => simp
    | some name' =>
      simp only [Option.bind_some]
      cases hfound : Field.find? fields name with
      | none => simp
      | some f =>
        cases hfound' : Field.find? fields name' with
        | none => simp
        | some f' =>
          exact readField_comm hi (find?_spec hfound).1 (find?_spec hfound').1 t t' state

/-- **The order of the members** does not matter. -/
theorem readMembers_perm (hi : Independent fields mean) {ms ms' : Members} (h : ms.Perm ms')
    (state : Finset String × σ) :
    readMembers fields mean ms state = readMembers fields mean ms' state := by
  induction h generalizing state with
  | nil => rfl
  | cons m _ ih =>
    simp only [readMembers, List.foldlM_cons]
    exact congrArg _ (funext ih)
  | swap m m' ms =>
    simp only [readMembers, List.foldlM_cons, ← bind_assoc]
    exact congrArg (· >>= _) (readMember_comm hi m' m state)
  | trans _ _ ih ih' => exact (ih state).trans (ih' state)

/-! ### Members that are left out -/

/-- A name that no member has may be taken as seen. -/
theorem readMembers_insert {name : String} {ms : Members}
    (h : ∀ m ∈ ms, m.1.text? ≠ some name) (seen : Finset String) (s : σ) :
    (readMembers fields mean ms (insert name seen, s)).map Prod.snd =
      (readMembers fields mean ms (seen, s)).map Prod.snd := by
  induction ms generalizing seen s with
  | nil => rfl
  | cons m ms ih =>
    obtain ⟨hm, hms⟩ := List.forall_mem_cons.mp h
    have hstep : readMember fields mean (insert name seen, s) m =
        (readMember fields mean (seen, s) m).map fun state => (insert name state.1, state.2) := by
      rw [readMember, readMember]
      cases hname : m.1.text? with
      | none => rfl
      | some name' =>
        rw [hname] at hm
        simp only [Option.bind_some]
        cases hfound : Field.find? fields name' with
        | none => rfl
        | some f =>
          have hf : f.name = name' := (find?_spec hfound).2
          have hne : f.name ≠ name := fun heq => hm (by rw [← hf, heq])
          simp only [readField, Finset.mem_insert, hne, false_or]
          split
          · rfl
          · cases mean f.name m.2 with
            | none => rfl
            | some change =>
              simp only [Option.map_some, Finset.insert_comm name]
    rw [readMembers, readMembers, List.foldlM_cons, List.foldlM_cons, hstep]
    cases readMember fields mean (seen, s) m with
    | none => rfl
    | some state => exact ih hms state.1 state.2

end Objects

end SmsRelay.Json
