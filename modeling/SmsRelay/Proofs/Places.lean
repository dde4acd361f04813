import Mathlib.Algebra.GroupWithZero.Nat
import Mathlib.Data.List.Count
import Mathlib.Data.List.Nodup

/-!
# Places in lists

Calls, dispatches, loops, workers and partitions are known by their places in lists. What stands in
a list when a member has changed or a new one has come.

## Main results

* `getElem?_set_eq_some_iff`, `getElem?_concat_eq_some_iff`: what stands at a place.
* `mem_or_mem_set`: nothing but the member that has changed goes.
* `sum_map_set`: what becomes of a sum.
* `length_eq_count`: how often something stands in a list.
-/

namespace SmsRelay

/-- A list with one more member. -/
theorem getElem?_concat_eq_some_iff {α : Type} {l : List α} {x y : α} {n : ℕ} :
    (l ++ [x])[n]? = some y ↔ l[n]? = some y ∨ n = l.length ∧ x = y := by
  rcases Nat.lt_trichotomy n l.length with hlt | rfl | hgt
  · rw [List.getElem?_append_left hlt]
    exact (or_iff_left fun hand => Nat.ne_of_lt hlt hand.1).symm
  · rw [List.getElem?_concat_length, List.getElem?_eq_none (Nat.le_refl _)]
    simp
  · rw [List.getElem?_eq_none (by rw [List.length_append]; exact hgt),
      List.getElem?_eq_none (Nat.le_of_lt hgt)]
    simp [Nat.ne_of_gt hgt]

/-- A list with one member changed. -/
theorem getElem?_set_eq_some_iff {α : Type} {l : List α} {x y z : α} {j n : ℕ}
    (h : l[n]? = some x) :
    (l.set n y)[j]? = some z ↔ j = n ∧ y = z ∨ j ≠ n ∧ l[j]? = some z := by
  by_cases hj : j = n
  · subst hj
    rw [List.getElem?_set_self (List.getElem?_eq_some_iff.mp h).1, Option.some_inj]
    simp
  · rw [List.getElem?_set_ne (Ne.symm hj)]
    simp [hj]

/-- What stood in the list is what has been replaced, or it still stands there. -/
theorem mem_or_mem_set {α : Type} {l : List α} {i : ℕ} {a x : α} (b : α) (hi : l[i]? = some a)
    (hx : x ∈ l) : x = a ∨ x ∈ l.set i b := by
  obtain ⟨k, hk⟩ := List.getElem?_of_mem hx
  by_cases hik : i = k
  · subst hik
    exact .inl (Option.some.inj (hk.symm.trans hi))
  · exact .inr (List.mem_of_getElem? ((List.getElem?_set_ne hik).trans hk))

theorem mem_set_self {α : Type} {l : List α} {i : ℕ} {a : α} (b : α) (hi : l[i]? = some a) :
    b ∈ l.set i b :=
  List.mem_set (List.getElem?_eq_some_iff.mp hi).1 b

/-- A change of one member changes a sum as much. -/
theorem sum_map_set {α : Type} (f : α → ℕ) {l : List α} {j : ℕ} {x : α} (y : α)
    (h : l[j]? = some x) : ((l.set j y).map f).sum + f x = (l.map f).sum + f y := by
  induction l generalizing j with
  | nil => cases h
  | cons z rest ih =>
    cases j with
    | zero =>
      cases h
      simp only [List.set_cons_zero, List.map_cons, List.sum_cons]
      omega
    | succ j =>
      have hrest := ih h
      simp only [List.set_cons_succ, List.map_cons, List.sum_cons]
      omega

/-- The places at which something stands are as many as there are of it. -/
theorem length_eq_count {α : Type} [DecidableEq α] {l : List α} {x : α} {places : List ℕ}
    (hnodup : places.Nodup) (h : ∀ k, k ∈ places ↔ l[k]? = some x) :
    places.length = l.count x := by
  have hperm : places.Perm ((List.range l.length).filter (l[·]? = some x)) := by
    refine (List.perm_ext_iff_of_nodup hnodup (List.nodup_range.filter _)).mpr fun k => ?_
    rw [h, List.mem_filter, List.mem_range, decide_eq_true_iff]
    exact ⟨fun hk => ⟨(List.getElem?_eq_some_iff.mp hk).1, hk⟩, And.right⟩
  have hlookup : (List.range l.length).map (l[·]?) = l.map some :=
    List.ext_getElem (by simp) fun i _ _ => by simp
  calc places.length
      = (List.range l.length).countP (l[·]? = some x) := by
        rw [hperm.length_eq, List.countP_eq_length_filter]
    _ = ((List.range l.length).map (l[·]?)).count (some x) := by
        rw [List.count, List.countP_map]
        exact List.countP_congr fun i _ => by simp
    _ = l.count x := by
        rw [hlookup, List.count_map_of_injective _ _ fun _ _ => Option.some.inj]

end SmsRelay
