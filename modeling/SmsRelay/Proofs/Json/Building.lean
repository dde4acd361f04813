import SmsRelay.Proofs.Json.Prefix

/-!
# How a record comes about

A record starts from its defaults and is changed by one field after the other, whether it is
written as an object or as an array. So whatever holds of the defaults and is kept by the change of
each field holds of every record that is read.

## Main results

* `record_keeps`: what holds of the records that are read.
-/

namespace SmsRelay.Json

variable {σ α : Type} {P : σ → Prop}

/-- What is read for a field changes a record to one with the same property. -/
def Keeps (P : σ → Prop) (f : Field σ) : Prop :=
  ∀ gs change rest, f.read gs = .ok (change, rest) → ∀ s, P s → P (change s)

theorem keeps_of {name : String} {r : Reader α} {set : α → σ → σ}
    (h : ∀ gs a rest, r gs = .ok (a, rest) → ∀ s, P s → P (set a s)) :
    Keeps P (Field.of name r set) := by
  intro gs change rest hread
  obtain ⟨⟨a, _⟩, hr, heq⟩ := map_eq_ok hread
  cases heq
  exact h gs a _ hr

theorem Keeps.mandatory {f : Field σ} (h : Keeps P f) : Keeps P f.mandatory := h

variable {fields : List (Field σ)} {s v : σ} {gs rest : Input}

theorem members_keep (hfields : ∀ f ∈ fields, Keeps P f) (hs : P s) {n : ℕ} {seen : List String}
    {isFirst : Bool} (h : members fields n seen isFirst s gs = .ok (v, rest)) : P v := by
  induction n generalizing seen isFirst s gs with
  | zero => cases h
  | succ n ih =>
    have hmember : ∀ {tail}, memberFrom fields n seen s tail = .ok (v, rest) → P v := by
      intro tail h
      obtain ⟨⟨cs, afterName⟩, -, h⟩ := bind_eq_ok h
      dsimp only at h
      split at h
      · rename_i f hfound
        split at h
        · cases h
        · obtain ⟨afterColon, -, h⟩ := bind_eq_ok h
          obtain ⟨⟨change, after⟩, hread, h⟩ := bind_eq_ok h
          exact ih (hfields f (List.mem_of_find?_eq_some hfound) _ _ _ hread s hs) h
      · obtain ⟨afterColon, -, h⟩ := bind_eq_ok h
        obtain ⟨after, -, h⟩ := bind_eq_ok h
        exact ih hs h
    rw [members_succ] at h
    split at h
    · split at h
      · cases h
        exact hs
      · cases h
    · split at h
      · cases h
      · split at h
        · exact hmember h
        · cases h
    · split at h
      · exact hmember h
      · cases h
    · cases h

theorem itemFrom_of_itemNext {f : Field σ} {p : σ × Input} (h : itemNext f fields s gs = .ok p) :
    itemFrom f fields s gs = .ok p := by
  fun_cases itemNext f fields s gs with
  | case1 | case2 => cases h
  | case3 gs hne hopen => rwa [itemNext.eq_3 _ _ _ _ hne hopen] at h

theorem items_keep (hfields : ∀ f ∈ fields, Keeps P f) (hs : P s) {isFirst : Bool}
    (h : items fields isFirst s gs = .ok (v, rest)) : P v := by
  induction fields generalizing isFirst s gs with
  | nil =>
    rw [items] at h
    split at h
    · cases h
      exact hs
    · cases h
  | cons f fields ih =>
    obtain ⟨hf, hfields⟩ := List.forall_mem_cons.mp hfields
    have hitem : ∀ {tail}, itemFrom f fields s tail = .ok (v, rest) → P v := by
      intro tail h
      obtain ⟨⟨change, after⟩, hread, h⟩ := bind_eq_ok h
      exact ih hfields (hf _ _ _ hread s hs) h
    rw [items_cons] at h
    split at h
    · cases h
    · split at h
      · cases h
      · cases h
        exact hs
    · split at h
      · exact hitem h
      · split at h
        · exact hitem (itemFrom_of_itemNext h)
        · cases h

/-- **A record** has each property of its defaults that its fields keep. -/
theorem record_keeps (hfields : ∀ f ∈ fields, Keeps P f) {start : σ} (hstart : P start)
    (h : record fields start gs = .ok (v, rest)) : P v := by
  rw [record] at h
  split at h
  · exact members_keep hfields hstart h
  · exact items_keep hfields hstart h
  · cases h

theorem whole_record_keeps (hfields : ∀ f ∈ fields, Keeps P f) {start : σ} (hstart : P start)
    (h : whole (record fields start) gs = .ok v) : P v := by
  obtain ⟨⟨v', rest⟩, hread, h⟩ := bind_eq_ok h
  dsimp only at h
  split at h
  · cases h
    exact record_keeps hfields hstart hread
  · cases h

end SmsRelay.Json
