import SmsRelay.Proofs.Claim.Slots

/-!
# Pools lend their slots

Whatever those who use a pool do and in whatever order, no slot is lost and none is there twice: a
slot is free or belongs to one caller, the free ones are given away first come first served, and one
that comes back goes to one caller or is free. A pool that has been closed gives none away.

## Implementation notes

A caller that has been handed a slot may have to look before it knows. What holds when everyone has
looked is said of states in which to look changes nothing (`PoolDesk.Lawful.settled`).

## Main results

* `PoolDesk.Sound.act`: what each move keeps.
* `PoolDesk.Dismissed.act`: what a closed pool does not do any more.
* `PoolDesk.lawful_run`: what holds after any moves, and for those that follow.
-/

namespace SmsRelay

namespace PoolDesk

variable {s t : PoolDesk} {size k : ℕ} {stage : SlotStage}

/-! ### What a move keeps -/

theorem sound_opened (size : ℕ) : (opened size).Sound size where
  size := rfl
  slots := WorkerPool.slots_create size
  holding k := by simp [opened, WorkerPool.create]
  line k hk := by cases hk
  waiting _ k hk := by cases hk
  full hne := absurd rfl hne
  dismissed _ := rfl
  order := .nil
  known k hk := by cases hk
  account := .rfl
  given k hk := by cases hk

theorem Sound.lt_length (hs : s.Sound size) (h : k ∈ s.pool.offered ++ s.pool.waiting) :
    k < s.callers.length :=
  (List.getElem?_eq_some_iff.mp (hs.line k h)).1

theorem Sound.close (hs : s.Sound size) : Sound size { s with pool := s.pool.close } where
  size := hs.size
  slots := hs.slots
  holding := hs.holding
  line k hk := hs.line k (List.mem_append_left _ (by simpa [WorkerPool.close] using hk))
  waiting hopened := by cases hopened
  full hne := absurd rfl hne
  dismissed _ := rfl
  order := by
    show (s.granted ++ []).Pairwise (· < ·)
    rw [List.append_nil]
    exact (List.pairwise_append.mp hs.order).1
  known := hs.known
  account := hs.account
  given := hs.given

theorem Sound.grant (hs : s.Sound size) (hfree : 0 < s.pool.free) : Sound size { s with
    pool := { s.pool with
      free := s.pool.free - 1
      held := s.pool.held ++ [s.callers.length] }
    callers := s.callers ++ [.holding]
    granted := s.granted ++ [s.callers.length] } := by
  -- Nobody waits beside a free slot, so that the new caller does not overtake anyone.
  have hnobody : s.pool.waiting = [] := by
    by_contra hne
    exact Nat.ne_of_gt hfree (hs.full hne)
  exact
    { size := hs.size
      slots := by
        rw [← hs.slots]
        simp only [WorkerPool.slots, List.length_append, List.length_singleton]
        omega
      holding j := by
        rw [List.mem_append, List.mem_singleton, getElem?_concat_eq_some_iff, hs.holding]
        simp
      line j hj := getElem?_concat_eq_some_iff.mpr (.inl (hs.line j hj))
      waiting hopened j hj := by
        rcases getElem?_concat_eq_some_iff.mp hj with hj | ⟨-, hstage⟩
        · exact hs.waiting hopened j hj
        · cases hstage
      full hne := absurd hnobody hne
      dismissed := hs.dismissed
      order := by
        dsimp only
        rw [hnobody, List.append_nil, List.pairwise_append]
        refine ⟨(List.pairwise_append.mp hs.order).1, List.pairwise_singleton _ _,
          fun j hj i hi => ?_⟩
        rw [List.mem_singleton.mp hi]
        exact hs.known j hj
      known j hj := by
        rw [List.length_append]
        rcases List.mem_append.mp hj with hj | hj
        · exact Nat.lt_succ_of_lt (hs.known j hj)
        · rw [List.mem_singleton.mp hj]
          exact Nat.lt_succ_self _
      account := by
        rw [List.perm_iff_count]
        intro j
        have hcount := hs.account.count_eq j
        simp only [WorkerPool.owners, List.count_append] at hcount ⊢
        omega
      given j hj := by
        rcases getElem?_concat_eq_some_iff.mp hj with hj | ⟨-, hstage⟩
        · exact hs.given j hj
        · cases hstage }

theorem Sound.queue (hs : s.Sound size) (hopened : s.pool.closed = false)
    (hfull : s.pool.free = 0) : Sound size { s with
      pool := { s.pool with waiting := s.pool.waiting ++ [s.callers.length] }
      callers := s.callers ++ [.waiting] } where
  size := hs.size
  slots := hs.slots
  holding j := by
    rw [getElem?_concat_eq_some_iff, hs.holding]
    simp
  line j hj := by
    rw [← List.append_assoc] at hj
    rcases List.mem_append.mp hj with hj | hj
    · exact getElem?_concat_eq_some_iff.mpr (.inl (hs.line j hj))
    · exact getElem?_concat_eq_some_iff.mpr (.inr ⟨List.mem_singleton.mp hj, rfl⟩)
  waiting _ j hj := by
    rw [← List.append_assoc]
    rcases getElem?_concat_eq_some_iff.mp hj with hj | ⟨rfl, -⟩
    · exact List.mem_append_left _ (hs.waiting hopened j hj)
    · exact List.mem_append_right _ (List.mem_singleton.mpr rfl)
  full _ := hfull
  dismissed hclosed := by
    rw [hopened] at hclosed
    cases hclosed
  order := by
    dsimp only
    rw [← List.append_assoc, List.pairwise_append]
    refine ⟨hs.order, List.pairwise_singleton _ _, fun j hj i hi => ?_⟩
    rw [List.mem_singleton.mp hi]
    rcases List.mem_append.mp hj with hj | hj
    · exact hs.known j hj
    · exact hs.lt_length (List.mem_append_right _ hj)
  known j hj := by
    rw [List.length_append]
    exact Nat.lt_succ_of_lt (hs.known j hj)
  account := hs.account
  given j hj := by
    rcases getElem?_concat_eq_some_iff.mp hj with hj | ⟨-, hstage⟩
    · exact hs.given j hj
    · cases hstage

theorem Sound.refuse (hs : s.Sound size) :
    Sound size { s with callers := s.callers ++ [.refused] } := by
  have hstage : ∀ {j : ℕ} {stage : SlotStage}, stage ≠ .refused →
      ((s.callers ++ [.refused])[j]? = some stage ↔ s.callers[j]? = some stage) := by
    intro j stage hne
    rw [getElem?_concat_eq_some_iff]
    exact or_iff_left fun h => hne h.2.symm
  exact
    { size := hs.size
      slots := hs.slots
      holding j := (hs.holding j).trans (hstage (by decide)).symm
      line j hj := (hstage (by decide)).mpr (hs.line j hj)
      waiting hopened j hj := hs.waiting hopened j ((hstage (by decide)).mp hj)
      full := hs.full
      dismissed := hs.dismissed
      order := hs.order
      known j hj := by
        rw [List.length_append]
        exact Nat.lt_succ_of_lt (hs.known j hj)
      account := hs.account
      given j hj := hs.given j ((hstage (by decide)).mp hj) }

/-- The caller `k` comes to the end of its waiting or of its work: it is in the line no longer, and
holds a slot only if it has just taken it. -/
theorem Sound.turn (hs : s.Sound size) {before : SlotStage} (hbefore : s.callers[k]? = some before)
    (hstage : stage ≠ .waiting) {p : WorkerPool} {granted returned : List ℕ}
    (hsize : p.size = s.pool.size) (hslots : p.slots = s.pool.slots)
    (hclosed : p.closed = s.pool.closed)
    (hheld : ∀ j, j ∈ p.held ↔ j = k ∧ stage = .holding ∨ j ≠ k ∧ j ∈ s.pool.held)
    (hline : ∀ j, j ∈ p.offered ++ p.waiting ↔ j ≠ k ∧ j ∈ s.pool.offered ++ s.pool.waiting)
    (hwaiting : p.waiting.Sublist s.pool.waiting) (hfull : p.waiting ≠ [] → p.free = s.pool.free)
    (horder : (granted ++ p.waiting).Sublist (s.granted ++ s.pool.waiting))
    (haccount : granted.Perm (p.owners ++ returned)) (hreturned : s.returned ⊆ returned)
    (hgiven : stage = .returned → k ∈ returned) : Sound size
      { pool := p, callers := s.callers.set k stage, granted, returned } := by
  have hempty : s.pool.waiting = [] → p.waiting = [] := fun hnone =>
    List.sublist_nil.mp (hnone ▸ hwaiting)
  exact
    { size := hsize.trans hs.size
      slots := hslots.trans (hs.slots.trans hsize.symm)
      holding j := by rw [hheld, getElem?_set_eq_some_iff hbefore, hs.holding]
      line j hj := by
        obtain ⟨hne, hj⟩ := (hline j).mp hj
        exact (getElem?_set_eq_some_iff hbefore).mpr (.inr ⟨hne, hs.line j hj⟩)
      waiting hopened j hj := by
        rcases (getElem?_set_eq_some_iff hbefore).mp hj with ⟨-, heq⟩ | ⟨hne, hj⟩
        · exact absurd heq hstage
        · exact (hline j).mpr ⟨hne, hs.waiting (hclosed.symm.trans hopened) j hj⟩
      full hne := (hfull hne).trans (hs.full fun hnone => hne (hempty hnone))
      dismissed h := hempty (hs.dismissed (hclosed.symm.trans h))
      order := hs.order.sublist horder
      known j hj := by
        rw [List.length_set]
        rcases List.mem_append.mp (horder.subset (List.mem_append_left _ hj)) with hj | hj
        · exact hs.known j hj
        · exact hs.lt_length (List.mem_append_right _ hj)
      account := haccount
      given j hj := by
        rcases (getElem?_set_eq_some_iff hbefore).mp hj with ⟨rfl, heq⟩ | ⟨-, hj⟩
        · exact hgiven heq
        · exact hreturned (hs.given j hj) }

theorem Sound.nodup_offered (hs : s.Sound size) : s.pool.offered.Nodup :=
  (List.nodup_append.mp hs.nodup_owners).2.1

theorem Sound.nodup_held (hs : s.Sound size) : s.pool.held.Nodup :=
  (List.nodup_append.mp hs.nodup_owners).1

theorem Sound.take (hs : s.Sound size) (hoffered : k ∈ s.pool.offered) : Sound size { s with
    pool := { s.pool with
      offered := s.pool.offered.erase k
      held := s.pool.held ++ [k] }
    callers := s.callers.set k .holding } := by
  have howner : k ∈ s.pool.owners := List.mem_append_right _ hoffered
  have hwaiting : k ∉ s.pool.waiting := fun h => hs.not_mem_owners h howner
  refine hs.turn (hs.line k (List.mem_append_left _ hoffered)) (by decide) rfl ?_ rfl
    (fun j => ?_) (fun j => ?_) (.refl _) (fun _ => rfl) (.refl _) ?_ (List.Subset.refl _) nofun
  · have hpos := List.length_pos_of_mem hoffered
    simp only [WorkerPool.slots, List.length_append, List.length_singleton,
      List.length_erase_of_mem hoffered]
    omega
  · rw [List.mem_append, List.mem_singleton]
    constructor
    · rintro (hj | rfl)
      · exact .inr ⟨fun heq => hs.offered_of_held (heq ▸ hj) hoffered, hj⟩
      · exact .inl ⟨rfl, rfl⟩
    · rintro (⟨rfl, -⟩ | ⟨-, hj⟩)
      · exact .inr rfl
      · exact .inl hj
  · rw [List.mem_append, List.mem_append, hs.nodup_offered.mem_erase_iff]
    constructor
    · rintro (⟨hne, hj⟩ | hj)
      · exact ⟨hne, .inl hj⟩
      · exact ⟨fun heq => hwaiting (heq ▸ hj), .inr hj⟩
    · rintro ⟨hne, hj | hj⟩
      · exact .inl ⟨hne, hj⟩
      · exact .inr hj
  · refine hs.account.trans (.append_right _ ?_)
    show (s.pool.held ++ s.pool.offered).Perm (s.pool.held ++ [k] ++ s.pool.offered.erase k)
    rw [List.append_assoc]
    exact (List.perm_cons_erase hoffered).append_left _

theorem Sound.leave (hs : s.Sound size) (hwaiting : s.callers[k]? = some .waiting)
    (hoffered : k ∉ s.pool.offered) (hstage : stage = .abandoned ∨ stage = .refused) :
    Sound size { s with
      pool := { s.pool with waiting := s.pool.waiting.erase k }
      callers := s.callers.set k stage } := by
  have hheld : k ∉ s.pool.held := by
    rw [hs.holding, hwaiting]
    nofun
  have hnodup : s.pool.waiting.Nodup :=
    (List.pairwise_append.mp hs.order).2.1.imp Nat.ne_of_lt
  refine hs.turn hwaiting ?_ rfl rfl rfl (fun j => ?_) (fun j => ?_) List.erase_sublist
    (fun _ => rfl) (List.erase_sublist.append_left _) hs.account (List.Subset.refl _) ?_
  · rcases hstage with rfl | rfl <;> decide
  · have hne : j ∈ s.pool.held → j ≠ k := fun hj heq => hheld (heq ▸ hj)
    rcases hstage with rfl | rfl
    · simpa using hne
    · simpa using hne
  · rw [List.mem_append, List.mem_append, hnodup.mem_erase_iff]
    constructor
    · rintro (hj | ⟨hne, hj⟩)
      · exact ⟨fun heq => hoffered (heq ▸ hj), .inl hj⟩
      · exact ⟨hne, .inr hj⟩
    · rintro ⟨hne, hj | hj⟩
      · exact .inl hj
      · exact .inr ⟨hne, hj⟩
  · rcases hstage with rfl | rfl <;> nofun

theorem Sound.back (hs : s.Sound size) {p : WorkerPool} (hreturned : s.pool.Returned k p)
    {before : SlotStage} (hbefore : s.callers[k]? = some before)
    (hstage : stage ≠ .waiting ∧ stage ≠ .holding) : Sound size { s with
      pool := p
      callers := s.callers.set k stage
      granted := s.granted ++ s.pool.waiting.head?.toList
      returned := s.returned ++ [k] } := by
  have hwaiting : k ∉ s.pool.waiting := fun h => hs.not_mem_owners h hreturned.owner
  have hsplit : s.pool.waiting.head?.toList ++ s.pool.waiting.tail = s.pool.waiting := by
    cases s.pool.waiting <;> rfl
  refine hs.turn hbefore hstage.1 hreturned.size hreturned.slots hreturned.closed (fun j => ?_)
    (fun j => ?_) ?_ (fun hne => ?_) ?_ ?_ (List.subset_append_left _ _)
    fun _ => List.mem_append_right _ (List.mem_singleton.mpr rfl)
  · rw [hreturned.held, hs.nodup_held.mem_erase_iff]
    simp [hstage.2]
  · rw [hreturned.offered, hreturned.waiting, List.append_assoc, hsplit, List.mem_append,
      List.mem_append, hs.nodup_offered.mem_erase_iff]
    constructor
    · rintro (⟨hne, hj⟩ | hj)
      · exact ⟨hne, .inl hj⟩
      · exact ⟨fun heq => hwaiting (heq ▸ hj), .inr hj⟩
    · rintro ⟨hne, hj | hj⟩
      · exact .inl ⟨hne, hj⟩
      · exact .inr hj
  · rw [hreturned.waiting]
    exact List.tail_sublist _
  · rw [hreturned.free, if_neg]
    rintro hnone
    rw [hreturned.waiting, hnone] at hne
    exact hne rfl
  · rw [hreturned.waiting, List.append_assoc, hsplit]
  · rw [List.perm_iff_count]
    intro j
    have hcount := hs.account.count_eq j
    have howners := (hreturned.owners hs.nodup_owners).count_eq j
    simp only [List.count_append] at hcount howners ⊢
    omega

/-- **A move** keeps what is known. -/
theorem Sound.act (hs : s.Sound size) (m : PoolMove) : (s.act m).Sound size := by
  have heffect := effect_of_act hs m
  generalize s.act m = t at heffect
  cases heffect with
  | idle => exact hs
  | close => exact hs.close
  | grant _ hfree => exact hs.grant hfree
  | queue hopened hfull => exact hs.queue hopened hfull
  | refuse => exact hs.refuse
  | take _ hoffered => exact hs.take hoffered
  | leave hwaiting hoffered hstage => exact hs.leave hwaiting hoffered (hstage.imp_right And.left)
  | back hreturned hreason =>
    rcases hreason with ⟨hbefore, rfl⟩ | ⟨hbefore, rfl | ⟨rfl, -⟩⟩
    · exact hs.back hreturned hbefore (by decide)
    · exact hs.back hreturned hbefore (by decide)
    · exact hs.back hreturned hbefore (by decide)

/-- **Moves** keep what is known. -/
theorem Sound.run (hs : s.Sound size) (moves : List PoolMove) : (s.run moves).Sound size := by
  induction moves generalizing s with
  | nil => exact hs
  | cons m moves ih => exact ih (hs.act m)

/-! ### A pool that is closed -/

/-- What can become of a wish when the pool is closed: one that waits is not heard any more, and one
that has been heard is not disturbed. -/
inductive Outlives : SlotStage → SlotStage → Prop
  | stay (stage : SlotStage) : Outlives stage stage
  | refuse : Outlives .waiting .refused
  | abandon : Outlives .waiting .abandoned
  | giveBack : Outlives .holding .returned

/-- What has become of a pool since it was closed. -/
structure Dismissed (s t : PoolDesk) : Prop where
  closed : t.pool.closed = true
  granted : t.granted = s.granted
  callers : ∀ (k : ℕ) (stage : SlotStage), s.callers[k]? = some stage →
    ∃ stage', t.callers[k]? = some stage' ∧ Outlives stage stage'
  /-- Those who have come since then are refused. -/
  later : ∀ (k : ℕ) (stage : SlotStage), s.callers.length ≤ k → t.callers[k]? = some stage →
    stage = .refused

theorem Outlives.trans {a b c : SlotStage} (h : Outlives a b) (h' : Outlives b c) :
    Outlives a c := by
  cases h with
  | stay => exact h'
  | refuse =>
    cases h'
    exact .refuse
  | abandon =>
    cases h'
    exact .abandon
  | giveBack =>
    cases h'
    exact .giveBack

/-- One that has come later is refused. -/
theorem Outlives.refused {stage : SlotStage} (h : Outlives .refused stage) : stage = .refused := by
  cases h
  rfl

/-- A caller of a closed pool comes to the end of its waiting or of its work. -/
theorem Dismissed.turn (h : s.Dismissed t) {before : SlotStage}
    (hbefore : t.callers[k]? = some before) (hends : Outlives before stage) {p : WorkerPool}
    (hclosed : p.closed = true) {granted returned : List ℕ} (hgranted : granted = t.granted) :
    s.Dismissed { pool := p, callers := t.callers.set k stage, granted, returned } := by
  refine ⟨hclosed, hgranted.trans h.granted, fun j stage' hj => ?_, fun j stage' hlater hj => ?_⟩
  · obtain ⟨now, hnow, houtlives⟩ := h.callers j stage' hj
    by_cases hjk : j = k
    · subst hjk
      obtain rfl : before = now := Option.some.inj (hbefore.symm.trans hnow)
      exact ⟨stage, (getElem?_set_eq_some_iff hbefore).mpr (.inl ⟨rfl, rfl⟩), houtlives.trans hends⟩
    · exact ⟨now, (getElem?_set_eq_some_iff hbefore).mpr (.inr ⟨hjk, hnow⟩), houtlives⟩
  · rcases (getElem?_set_eq_some_iff hbefore).mp hj with ⟨rfl, rfl⟩ | ⟨-, hj⟩
    · obtain rfl := h.later j before hlater hbefore
      exact hends.refused
    · exact h.later j stage' hlater hj

/-- **A closed pool** gives no slot away. -/
theorem Dismissed.act (h : s.Dismissed t) (ht : t.Sound size) (m : PoolMove) :
    s.Dismissed (t.act m) := by
  have heffect := effect_of_act ht m
  generalize t.act m = u at heffect
  cases heffect with
  | idle => exact h
  | close => exact ⟨rfl, h.granted, h.callers, h.later⟩
  | grant opened | queue opened | take opened =>
    rw [h.closed] at opened
    cases opened
  | refuse =>
    refine ⟨h.closed, h.granted, fun j stage hj => ?_, fun j stage hlater hj => ?_⟩
    · obtain ⟨stage', hstage', houtlives⟩ := h.callers j stage hj
      exact ⟨stage', getElem?_concat_eq_some_iff.mpr (.inl hstage'), houtlives⟩
    · rcases getElem?_concat_eq_some_iff.mp hj with hj | ⟨-, rfl⟩
      · exact h.later j stage hlater hj
      · rfl
  | leave hwaiting _ hreason =>
    rcases hreason with rfl | ⟨rfl, -⟩
    · refine h.turn hwaiting .abandon ?_ rfl
      exact h.closed
    · refine h.turn hwaiting .refuse ?_ rfl
      exact h.closed
  | back hreturned hreason =>
    have hclosed := hreturned.closed.trans h.closed
    have hnobody : t.granted ++ t.pool.waiting.head?.toList = t.granted := by
      rw [ht.dismissed h.closed]
      exact List.append_nil _
    rcases hreason with ⟨hbefore, rfl⟩ | ⟨hbefore, rfl | ⟨rfl, -⟩⟩
    · exact h.turn hbefore .giveBack hclosed hnobody
    · exact h.turn hbefore .abandon hclosed hnobody
    · exact h.turn hbefore .refuse hclosed hnobody

theorem Dismissed.run (h : s.Dismissed t) (ht : t.Sound size) (moves : List PoolMove) :
    s.Dismissed (t.run moves) := by
  induction moves generalizing t with
  | nil => exact h
  | cons m moves ih => exact ih (h.act ht m) (ht.act m)

theorem act_close (s : PoolDesk) : s.act .close = { s with pool := s.pool.close } := by
  rw [PoolDesk.act, note_of_owners]
  rfl

theorem dismissed_close (s : PoolDesk) : s.Dismissed (s.act .close) := by
  rw [act_close]
  refine ⟨rfl, rfl, fun k stage hk => ⟨stage, hk, .stay stage⟩, fun k stage hlater hk => ?_⟩
  rw [List.getElem?_eq_none hlater] at hk
  cases hk

/-! ### What can be relied on -/

/-- The slot of `k` passes on, to the first that waits, or it is free if nobody does. -/
structure Passes (s : PoolDesk) (k : ℕ) (stage : SlotStage) (t : PoolDesk) : Prop where
  callers : t.callers = s.callers.set k stage
  returned : t.returned = s.returned ++ [k]
  granted : t.granted = s.granted ++ s.pool.waiting.head?.toList
  handed : s.pool.waiting.head?.toList ⊆ t.pool.offered
  waiting : t.pool.waiting = s.pool.waiting.tail
  free : t.pool.free = if s.pool.waiting = [] then s.pool.free + 1 else s.pool.free

/-- What can be relied on in a pool, whatever has happened. -/
structure Lawful (size : ℕ) (s : PoolDesk) : Prop where
  size : s.pool.size = max size 1
  /-- Every slot belongs to someone or is free. -/
  conserved : s.pool.owners.length + s.pool.free = s.pool.size
  inFlight : s.pool.inFlight = s.pool.owners.length ∧ s.pool.inFlight ≤ s.pool.size
  /-- Slots belong to those that hold one and to those that have been handed one. -/
  owners : ∀ k, k ∈ s.pool.owners ↔ s.callers[k]? = some .holding ∨
    s.callers[k]? = some .waiting ∧ k ∈ s.pool.offered
  held : s.pool.owners.length = s.callers.count .holding + s.pool.offered.length
  /-- When everyone has looked, the slots in use are those that are held. -/
  settled : (∀ k, s.act (.look k) = s) → s.pool.inFlight = s.callers.count .holding ∧
    (s.pool.closed = true → .waiting ∉ s.callers)
  acquires : (s.act .acquire).callers = s.callers ++
    [if s.pool.closed then .refused else if s.pool.free = 0 then .waiting else .holding]
  tries : (s.act .tryAcquire).callers = s.callers ++
    [if s.pool.closed ∨ s.pool.free = 0 then .refused else .holding]
  /-- Nobody waits beside a free slot. -/
  waits : s.pool.closed = false → ∀ k, s.callers[k]? = some .waiting →
    k ∈ s.pool.offered ∨ k ∈ s.pool.waiting ∧ s.pool.free = 0
  takes : s.pool.closed = false → ∀ k ∈ s.pool.offered,
    (s.act (.look k)).callers[k]? = some .holding
  /-- Callers get slots in the order in which they come, each of them one slot at most. -/
  order : (s.granted ++ s.pool.waiting).Pairwise (· < ·)
  /-- A slot that has been given is in use or has come back, once. -/
  account : s.granted.Perm (s.pool.owners ++ s.returned)
  given : ∀ k, s.callers[k]? = some .returned → k ∈ s.returned
  releases : ∀ k, s.callers[k]? = some .holding →
    s.Passes k .returned (s.act (.release k)) ∧ s.Passes k .returned (s.act (.crash k))
  cancels : ∀ k, s.callers[k]? = some .waiting → if k ∈ s.pool.offered
    then s.Passes k .abandoned (s.act (.cancel k))
    else s.act (.cancel k) = { s with
      pool := { s.pool with waiting := s.pool.waiting.erase k }
      callers := s.callers.set k .abandoned }
  /-- One that still waits when the pool is closed is refused. -/
  refuses : s.pool.closed = true → ∀ k, s.callers[k]? = some .waiting → if k ∈ s.pool.offered
    then s.Passes k .refused (s.act (.look k))
    else s.act (.look k) = { s with callers := s.callers.set k .refused }
  closes : ∀ moves, s.Dismissed ((s.act .close).run moves)

theorem passes_of_returned (hs : s.Sound size) {p : WorkerPool} (h : s.pool.Returned k p)
    (stage : SlotStage) : s.Passes k stage (s.note p (s.callers.set k stage)) := by
  rw [note_of_returned hs h]
  refine ⟨rfl, rfl, rfl, ?_, h.waiting, h.free⟩
  rw [h.offered]
  exact List.subset_append_right _ _

theorem Sound.owners_add_free (hs : s.Sound size) :
    s.pool.owners.length + s.pool.free = s.pool.size := by
  rw [← hs.slots, WorkerPool.slots, WorkerPool.owners, List.length_append]
  omega

theorem Sound.inFlight (hs : s.Sound size) : s.pool.inFlight = s.pool.owners.length := by
  rw [WorkerPool.inFlight, ← hs.owners_add_free, Nat.add_sub_cancel]

/-- A slot is held by each caller that has taken one. -/
theorem Sound.held (hs : s.Sound size) :
    s.pool.owners.length = s.callers.count .holding + s.pool.offered.length := by
  rw [WorkerPool.owners, List.length_append, length_eq_count hs.nodup_held hs.holding]

theorem Sound.mem_owners (hs : s.Sound size) (k : ℕ) : k ∈ s.pool.owners ↔
    s.callers[k]? = some .holding ∨ s.callers[k]? = some .waiting ∧ k ∈ s.pool.offered := by
  rw [WorkerPool.owners, List.mem_append, hs.holding]
  refine or_congr_right ⟨fun h => ⟨hs.line k (List.mem_append_left _ h), h⟩, And.right⟩

/-- One that looks. -/
theorem look_of_offered (hs : s.Sound size) (hoffered : k ∈ s.pool.offered) :
    (s.act (.look k)).callers[k]? =
      some (if s.pool.closed then .refused else .holding) := by
  have hwaiting := hs.line k (List.mem_append_left _ hoffered)
  have hlt := (List.getElem?_eq_some_iff.mp hwaiting).1
  rw [PoolDesk.act, if_pos hwaiting]
  show (s.callers.set k (.ofReply (s.pool.take k).1))[k]? = _
  rw [List.getElem?_set_self hlt, WorkerPool.take, if_pos hoffered]
  split <;> rfl

theorem Sound.refuses (hs : s.Sound size) (hclosed : s.pool.closed = true)
    (hwaiting : s.callers[k]? = some .waiting) : if k ∈ s.pool.offered
      then s.Passes k .refused (s.act (.look k))
      else s.act (.look k) = { s with callers := s.callers.set k .refused } := by
  rw [PoolDesk.act, if_pos hwaiting]
  dsimp only
  split
  · rename_i hoffered
    obtain ⟨hreply, hreturned⟩ := WorkerPool.returned_take hclosed hoffered fun hheld =>
      hs.offered_of_held hheld hoffered
    rw [hreply]
    exact passes_of_returned hs hreturned _
  · rename_i hoffered
    rw [WorkerPool.take, if_neg hoffered, if_pos hclosed]
    exact note_of_owners rfl _

theorem Sound.settled (hs : s.Sound size) (hlook : ∀ k, s.act (.look k) = s) :
    s.pool.inFlight = s.callers.count .holding ∧ (s.pool.closed = true → .waiting ∉ s.callers) := by
  have hoffered : s.pool.offered = [] := by
    refine List.eq_nil_iff_forall_not_mem.mpr fun k hk => ?_
    have hafter := look_of_offered hs hk
    rw [hlook k, hs.line k (List.mem_append_left _ hk)] at hafter
    split at hafter <;> cases hafter
  refine ⟨?_, fun hclosed hmem => ?_⟩
  · rw [hs.inFlight, hs.held, hoffered]
    rfl
  · obtain ⟨k, hk⟩ := List.getElem?_of_mem hmem
    have hafter := hs.refuses hclosed hk
    rw [hoffered, if_neg List.not_mem_nil, hlook k] at hafter
    have hrefused : s.callers[k]? = some .refused := by
      rw [hafter]
      exact List.getElem?_set_self (List.getElem?_eq_some_iff.mp hk).1
    rw [hk] at hrefused
    cases hrefused

theorem callers_acquire (s : PoolDesk) : (s.act .acquire).callers = s.callers ++
    [if s.pool.closed then .refused else if s.pool.free = 0 then .waiting else .holding] := by
  show s.callers ++ [.ofReply (s.pool.acquire s.callers.length).1] = _
  rw [WorkerPool.acquire]
  split
  · rfl
  · split <;> rfl

theorem callers_tryAcquire (s : PoolDesk) : (s.act .tryAcquire).callers = s.callers ++
    [if s.pool.closed ∨ s.pool.free = 0 then .refused else .holding] := by
  show s.callers ++ [if (s.pool.tryAcquire s.callers.length).1 then .holding else .refused] = _
  rw [WorkerPool.tryAcquire]
  split <;> rfl

theorem Sound.waits (hs : s.Sound size) (hopened : s.pool.closed = false)
    (hwaiting : s.callers[k]? = some .waiting) :
    k ∈ s.pool.offered ∨ k ∈ s.pool.waiting ∧ s.pool.free = 0 :=
  (List.mem_append.mp (hs.waiting hopened k hwaiting)).imp_right fun h =>
    ⟨h, hs.full (List.ne_nil_of_mem h)⟩

theorem Sound.cancels (hs : s.Sound size) (hwaiting : s.callers[k]? = some .waiting) :
    if k ∈ s.pool.offered then s.Passes k .abandoned (s.act (.cancel k))
    else s.act (.cancel k) = { s with
      pool := { s.pool with waiting := s.pool.waiting.erase k }
      callers := s.callers.set k .abandoned } := by
  rw [PoolDesk.act, if_pos hwaiting]
  split
  · rename_i hoffered
    exact passes_of_returned hs (WorkerPool.returned_cancel hoffered fun hheld =>
      hs.offered_of_held hheld hoffered) _
  · rename_i hoffered
    rw [WorkerPool.cancel, if_neg hoffered, note_of_owners]
    rfl

theorem Sound.releases (hs : s.Sound size) (hholding : s.callers[k]? = some .holding) :
    s.Passes k .returned (s.act (.release k)) ∧ s.Passes k .returned (s.act (.crash k)) := by
  have hheld := (hs.holding k).mpr hholding
  rw [PoolDesk.act, PoolDesk.act, if_pos hholding]
  exact and_self_iff.mpr (passes_of_returned hs
    (WorkerPool.returned_release hheld (hs.offered_of_held hheld)) _)

/-- **The law of a pool** holds after any moves. -/
theorem lawful_run (size : ℕ) (moves : List PoolMove) :
    Lawful size ((opened size).run moves) := by
  have hs := (sound_opened size).run moves
  generalize (opened size).run moves = s at hs
  refine
    { size := hs.size
      conserved := hs.owners_add_free
      inFlight := ⟨hs.inFlight, Nat.sub_le _ _⟩
      owners := hs.mem_owners
      held := hs.held
      settled := hs.settled
      acquires := callers_acquire s
      tries := callers_tryAcquire s
      waits := fun hopened k => hs.waits hopened
      takes := fun hopened k hoffered => ?_
      order := hs.order
      account := hs.account
      given := hs.given
      releases := fun k => hs.releases
      cancels := fun k => hs.cancels
      refuses := fun hclosed k => hs.refuses hclosed
      closes := (dismissed_close s).run (hs.act .close) }
  rw [look_of_offered hs hoffered, hopened]
  rfl

/-- The first of two that wait has gone away when its slot comes: the second gets it. -/
example : ((opened 0).run [.acquire, .acquire, .acquire, .release 0, .cancel 1, .look 2]).callers =
    [.returned, .abandoned, .holding] := by decide

end PoolDesk

end SmsRelay
