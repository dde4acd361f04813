import Mathlib.Data.List.Perm.Subperm
import SmsRelay.Claim.WorkerPool
import SmsRelay.Proofs.Places

/-!
# The slots of a worker pool

Those who use a pool ask for a slot and wait for it or not, give it back, break down while they hold
it, or stop waiting; and someone closes the pool. What each of these moves can do to a pool of which
nothing has been lost.

## Implementation notes

Callers have numbers, in the order in which they come. A slot belongs to a caller from the moment at
which it is meant for it, also if the caller has not looked yet: `WorkerPool.owners`. Which slots
have been given and which have come back is read off the pool before and after a move
(`PoolDesk.note`), so that the history of a run does not depend on how the pool works.

## Main results

* `WorkerPool.Returned.owners`: to whom the slots belong when one has come back.
* `PoolDesk.effect_of_act`: everything that a move can do.
-/

namespace SmsRelay

namespace WorkerPool

variable {p q : WorkerPool} {k : ℕ}

/-- Those to whom the slots in use belong: they hold one, or have been handed one. -/
def owners (p : WorkerPool) : List ℕ := p.held ++ p.offered

/-- The slot of `k` has come back: it has gone to the first that waits, or is free if nobody
waits. -/
structure Returned (p : WorkerPool) (k : ℕ) (q : WorkerPool) : Prop where
  owner : k ∈ p.owners
  held : q.held = p.held.erase k
  offered : q.offered = p.offered.erase k ++ p.waiting.head?.toList
  waiting : q.waiting = p.waiting.tail
  free : q.free = if p.waiting = [] then p.free + 1 else p.free
  slots : q.slots = p.slots
  size : q.size = p.size
  closed : q.closed = p.closed

/-- The owners before and after a slot has come back. -/
theorem Returned.owners (h : p.Returned k q) (hnodup : p.owners.Nodup) :
    (q.owners ++ [k]).Perm (p.owners ++ p.waiting.head?.toList) := by
  have hone : p.held.count k + p.offered.count k = 1 := by
    rw [← List.count_append]
    exact List.count_eq_one_of_mem hnodup h.owner
  rw [WorkerPool.owners, h.held, h.offered, List.perm_iff_count]
  intro j
  simp only [WorkerPool.owners, List.count_append, List.count_erase, List.count_singleton,
    beq_iff_eq]
  by_cases hj : k = j
  · subst hj
    simp only [if_true]
    omega
  · simp only [if_neg hj]
    omega

/-- A slot that is handed on has come back. -/
theorem returned_handOn (howner : k ∈ p.owners) {held offered : List ℕ}
    (hheld : held = p.held.erase k) (hoffered : offered = p.offered.erase k)
    (hslots : ({ p with held, offered } : WorkerPool).handOn.slots = p.slots) :
    p.Returned k ({ p with held, offered } : WorkerPool).handOn := by
  subst hheld hoffered
  rw [handOn] at hslots ⊢
  cases hwaiting : p.waiting <;>
  · rw [hwaiting] at hslots
    exact ⟨howner, rfl, by simp [hwaiting], by simp [hwaiting], by simp [hwaiting], hslots, rfl,
      rfl⟩

theorem returned_release (hheld : k ∈ p.held) (hoffered : k ∉ p.offered) :
    p.Returned k (p.release k) := by
  have hslots := p.slots_release k
  rw [release, if_pos hheld] at hslots ⊢
  exact returned_handOn (List.mem_append_left _ hheld) rfl (List.erase_of_not_mem hoffered).symm
    hslots

theorem returned_cancel (hoffered : k ∈ p.offered) (hheld : k ∉ p.held) :
    p.Returned k (p.cancel k) := by
  have hslots := p.slots_cancel k
  rw [cancel, if_pos hoffered] at hslots ⊢
  exact returned_handOn (List.mem_append_right _ hoffered) (List.erase_of_not_mem hheld).symm rfl
    hslots

theorem returned_take (hclosed : p.closed = true) (hoffered : k ∈ p.offered) (hheld : k ∉ p.held) :
    p.take k = (.refused, (p.take k).2) ∧ p.Returned k (p.take k).2 := by
  have hslots := p.slots_take k
  rw [take, if_pos hoffered, if_pos hclosed] at hslots ⊢
  exact ⟨rfl, returned_handOn (List.mem_append_right _ hoffered)
    (List.erase_of_not_mem hheld).symm rfl hslots⟩

end WorkerPool

/-- What has become of a wish for a slot. -/
inductive SlotStage where
  /-- The caller waits. It may have been handed a slot and not have looked. -/
  | waiting
  | holding
  /-- The caller has been told that there is no slot for it. -/
  | refused
  /-- The caller has given its slot back. -/
  | returned
  /-- The caller has stopped waiting. -/
  | abandoned
  deriving DecidableEq, Repr

/-- What has become of a wish when the pool has answered. -/
def SlotStage.ofReply : WorkerPool.Reply → SlotStage
  | .slot => holding
  | .wait => waiting
  | .refused => refused

/-- What can happen to a pool. -/
inductive PoolMove where
  /-- Someone new asks for a slot and waits if there is none. -/
  | acquire
  /-- Someone new asks for a slot without waiting. -/
  | tryAcquire
  | release (caller : ℕ)
  /-- The task that holds the slot breaks down. -/
  | crash (caller : ℕ)
  /-- A caller stops waiting. -/
  | cancel (caller : ℕ)
  /-- A caller that waits looks whether there is a slot for it. -/
  | look (caller : ℕ)
  | close
  deriving DecidableEq, Repr

/-- A pool and those who use it. -/
structure PoolDesk where
  pool : WorkerPool
  callers : List SlotStage := []
  /-- Those to whom a slot has been given, in the order in which it was. -/
  granted : List ℕ := []
  /-- Those whose slot has come back. -/
  returned : List ℕ := []
  deriving DecidableEq, Repr

namespace PoolDesk

/-- A new pool, which nobody uses. -/
def opened (size : ℕ) : PoolDesk := { pool := .create size }

/-- The pool and its callers after a move. -/
def note (s : PoolDesk) (p : WorkerPool) (callers : List SlotStage) : PoolDesk where
  pool := p
  callers := callers
  granted := s.granted ++ p.owners.filter (· ∉ s.pool.owners)
  returned := s.returned ++ s.pool.owners.filter (· ∉ p.owners)

/-- What a move leads to. One that is not the caller's to make changes nothing. -/
def act (s : PoolDesk) : PoolMove → PoolDesk
  | .acquire =>
    let (reply, p) := s.pool.acquire s.callers.length
    s.note p (s.callers ++ [.ofReply reply])
  | .tryAcquire =>
    let (found, p) := s.pool.tryAcquire s.callers.length
    s.note p (s.callers ++ [if found then .holding else .refused])
  | .release k | .crash k =>
    if s.callers[k]? = some .holding then
      s.note (s.pool.release k) (s.callers.set k .returned)
    else s
  | .cancel k =>
    if s.callers[k]? = some .waiting then
      s.note (s.pool.cancel k) (s.callers.set k .abandoned)
    else s
  | .look k =>
    if s.callers[k]? = some .waiting then
      let (reply, p) := s.pool.take k
      s.note p (s.callers.set k (.ofReply reply))
    else s
  | .close => s.note s.pool.close s.callers

/-- What moves lead to, one after the other. -/
def run (s : PoolDesk) (moves : List PoolMove) : PoolDesk := moves.foldl act s

variable {s : PoolDesk} {size k : ℕ} {stage : SlotStage} {m : PoolMove}

/-! ### What a move can do -/

/-- What is known of a pool and its callers. -/
structure Sound (size : ℕ) (s : PoolDesk) : Prop where
  size : s.pool.size = max size 1
  slots : s.pool.slots = s.pool.size
  holding : ∀ k, k ∈ s.pool.held ↔ s.callers[k]? = some .holding
  line : ∀ k ∈ s.pool.offered ++ s.pool.waiting, s.callers[k]? = some .waiting
  waiting : s.pool.closed = false → ∀ k, s.callers[k]? = some .waiting →
    k ∈ s.pool.offered ++ s.pool.waiting
  /-- Nobody waits beside a free slot. -/
  full : s.pool.waiting ≠ [] → s.pool.free = 0
  dismissed : s.pool.closed = true → s.pool.waiting = []
  /-- Those who wait have come later than all who have been given a slot, and wait in the order in
  which they came. -/
  order : (s.granted ++ s.pool.waiting).Pairwise (· < ·)
  known : ∀ k ∈ s.granted, k < s.callers.length
  account : s.granted.Perm (s.pool.owners ++ s.returned)
  given : ∀ k, s.callers[k]? = some .returned → k ∈ s.returned

/-- Everything that a move can do. -/
inductive Effect (s : PoolDesk) : PoolDesk → Prop
  | idle : Effect s s
  | close : Effect s { s with pool := s.pool.close }
  /-- Someone new gets a free slot. -/
  | grant (opened : s.pool.closed = false) (free : 0 < s.pool.free) : Effect s { s with
      pool := { s.pool with
        free := s.pool.free - 1
        held := s.pool.held ++ [s.callers.length] }
      callers := s.callers ++ [.holding]
      granted := s.granted ++ [s.callers.length] }
  /-- Someone new has to wait. -/
  | queue (opened : s.pool.closed = false) (full : s.pool.free = 0) : Effect s { s with
      pool := { s.pool with waiting := s.pool.waiting ++ [s.callers.length] }
      callers := s.callers ++ [.waiting] }
  /-- Someone new is refused. -/
  | refuse (reason : s.pool.closed = true ∨ s.pool.free = 0) :
      Effect s { s with callers := s.callers ++ [.refused] }
  /-- One that has been handed a slot takes it. -/
  | take {k : ℕ} (opened : s.pool.closed = false) (offered : k ∈ s.pool.offered) :
      Effect s { s with
        pool := { s.pool with
          offered := s.pool.offered.erase k
          held := s.pool.held ++ [k] }
        callers := s.callers.set k .holding }
  /-- One that has been handed no slot stops waiting, or is told that the pool is closed. -/
  | leave {k : ℕ} {stage : SlotStage} (waiting : s.callers[k]? = some .waiting)
      (unowned : k ∉ s.pool.offered)
      (reason : stage = .abandoned ∨ stage = .refused ∧ s.pool.closed = true) : Effect s { s with
        pool := { s.pool with waiting := s.pool.waiting.erase k }
        callers := s.callers.set k stage }
  /-- A slot comes back. Its owner had taken it, or had not and is gone. -/
  | back {k : ℕ} {p : WorkerPool} {stage : SlotStage} (returned : s.pool.Returned k p)
      (reason : s.callers[k]? = some .holding ∧ stage = .returned ∨
        s.callers[k]? = some .waiting ∧
          (stage = .abandoned ∨ stage = .refused ∧ s.pool.closed = true)) : Effect s { s with
        pool := p
        callers := s.callers.set k stage
        granted := s.granted ++ s.pool.waiting.head?.toList
        returned := s.returned ++ [k] }

theorem Sound.nodup_granted (hs : s.Sound size) : s.granted.Nodup :=
  (List.pairwise_append.mp hs.order).1.imp Nat.ne_of_lt

theorem Sound.nodup (hs : s.Sound size) : (s.pool.owners ++ s.returned).Nodup :=
  hs.account.nodup_iff.mp hs.nodup_granted

theorem Sound.nodup_owners (hs : s.Sound size) : s.pool.owners.Nodup :=
  (List.nodup_append.mp hs.nodup).1

theorem Sound.offered_of_held (hs : s.Sound size) (h : k ∈ s.pool.held) : k ∉ s.pool.offered := by
  intro hoffered
  have hwaiting := hs.line k (List.mem_append_left _ hoffered)
  rw [(hs.holding k).mp h] at hwaiting
  cases hwaiting

theorem Sound.mem_granted (hs : s.Sound size) (h : k ∈ s.pool.owners) : k ∈ s.granted :=
  hs.account.mem_iff.mpr (List.mem_append_left _ h)

theorem Sound.not_mem_owners (hs : s.Sound size) (h : k ∈ s.pool.waiting) : k ∉ s.pool.owners :=
  fun howner => Nat.lt_irrefl k
    ((List.pairwise_append.mp hs.order).2.2 k (hs.mem_granted howner) k h)

theorem filter_eq_nil_of_subset {l l' : List ℕ} (h : l ⊆ l') : l.filter (· ∉ l') = [] :=
  List.filter_eq_nil_iff.mpr fun _ ha => by simpa using h ha

/-- What has come into a list. -/
theorem filter_perm {l l' gone come : List ℕ} (h : (l' ++ gone).Perm (l ++ come))
    (hgone : gone ⊆ l) (hcome : ∀ j ∈ come, j ∉ l) : (l'.filter (· ∉ l)).Perm come := by
  have hfilter := h.filter (· ∉ l)
  have hself : come.filter (· ∉ l) = come := List.filter_eq_self.mpr (by simpa using hcome)
  rwa [List.filter_append, List.filter_append, filter_eq_nil_of_subset hgone,
    filter_eq_nil_of_subset (List.Subset.refl l), hself, List.append_nil,
    List.nil_append] at hfilter

/-- Nothing is noted if slots stay where they are. -/
theorem note_of_perm {p : WorkerPool} (h : p.owners.Perm s.pool.owners)
    (callers : List SlotStage) : s.note p callers = { s with pool := p, callers := callers } := by
  rw [note, filter_eq_nil_of_subset h.subset, filter_eq_nil_of_subset h.symm.subset,
    List.append_nil, List.append_nil]

theorem note_of_owners {p : WorkerPool} (h : p.owners = s.pool.owners)
    (callers : List SlotStage) : s.note p callers = { s with pool := p, callers := callers } :=
  note_of_perm (h ▸ .rfl) callers

/-- A slot that has been free is noted. -/
theorem note_of_grant (hs : s.Sound size) (callers : List SlotStage) :
    let p := { s.pool with
      free := s.pool.free - 1
      held := s.pool.held ++ [s.callers.length] }
    s.note p callers = { s with
      pool := p, callers := callers, granted := s.granted ++ [s.callers.length] } := by
  intro p
  have hnew : s.callers.length ∉ s.pool.owners := fun h =>
    Nat.lt_irrefl _ (hs.known _ (hs.mem_granted h))
  have hperm : p.owners.Perm (s.pool.owners ++ [s.callers.length]) := by
    show (s.pool.held ++ [s.callers.length] ++ s.pool.offered).Perm
      (s.pool.held ++ s.pool.offered ++ [s.callers.length])
    rw [List.append_assoc, List.append_assoc]
    exact List.perm_append_comm.append_left _
  have hgranted : p.owners.filter (· ∉ s.pool.owners) = [s.callers.length] :=
    List.perm_singleton.mp (filter_perm ((List.append_nil _).symm ▸ hperm)
      (List.nil_subset _) (by simpa using hnew))
  have hreturned : s.pool.owners.filter (· ∉ p.owners) = [] :=
    filter_eq_nil_of_subset fun k hk => hperm.symm.subset (List.mem_append_left _ hk)
  rw [note, hgranted, hreturned, List.append_nil]

/-- A slot that comes back is noted, and so is to whom it goes. -/
theorem note_of_returned (hs : s.Sound size) {p : WorkerPool} (h : s.pool.Returned k p)
    (callers : List SlotStage) : s.note p callers = { s with
      pool := p
      callers := callers
      granted := s.granted ++ s.pool.waiting.head?.toList
      returned := s.returned ++ [k] } := by
  have hperm := h.owners hs.nodup_owners
  have hnext : ∀ j ∈ s.pool.waiting.head?.toList, j ∉ s.pool.owners := fun j hj =>
    hs.not_mem_owners (List.mem_of_mem_head? (Option.mem_toList.mp hj))
  -- `k` has had one slot only, so that it owns none any more.
  have hgone : k ∉ p.owners := by
    have hnodup : (s.pool.owners ++ s.pool.waiting.head?.toList).Nodup :=
      List.nodup_append.mpr ⟨hs.nodup_owners, Option.toList_nodup _, fun a ha b hb hab =>
        hnext b hb (hab ▸ ha)⟩
    exact fun hk => (List.nodup_append.mp (hperm.nodup_iff.mpr hnodup)).2.2 k hk k
      List.mem_cons_self rfl
  have hgranted : p.owners.filter (· ∉ s.pool.owners) = s.pool.waiting.head?.toList := by
    have hfilter := filter_perm hperm (List.cons_subset.mpr ⟨h.owner, List.nil_subset _⟩) hnext
    cases hhead : s.pool.waiting.head? with
    | none =>
      rw [hhead] at hfilter
      exact List.perm_nil.mp hfilter
    | some j =>
      rw [hhead] at hfilter
      exact List.perm_singleton.mp hfilter
  have hreturned : s.pool.owners.filter (· ∉ p.owners) = [k] := by
    refine List.perm_singleton.mp (filter_perm hperm.symm (fun j hj => ?_) (by simpa using hgone))
    rw [WorkerPool.owners, h.offered]
    exact List.mem_append_right _ (List.mem_append_right _ hj)
  rw [note, hgranted, hreturned]

theorem effect_acquire (hs : s.Sound size) : s.Effect (s.act .acquire) := by
  show s.Effect (s.note (s.pool.acquire s.callers.length).2
    (s.callers ++ [.ofReply (s.pool.acquire s.callers.length).1]))
  rw [WorkerPool.acquire]
  split
  · rename_i hclosed
    rw [note_of_owners rfl]
    exact .refuse (.inl hclosed)
  · rename_i hopened
    have hopened : s.pool.closed = false := by simpa using hopened
    split
    · rename_i hfull
      rw [note_of_owners]
      · exact .queue hopened hfull
      · rfl
    · rename_i hfree
      rw [note_of_grant hs]
      exact .grant hopened (Nat.pos_of_ne_zero hfree)

theorem effect_tryAcquire (hs : s.Sound size) : s.Effect (s.act .tryAcquire) := by
  show s.Effect (s.note (s.pool.tryAcquire s.callers.length).2
    (s.callers ++ [if (s.pool.tryAcquire s.callers.length).1 then .holding else .refused]))
  rw [WorkerPool.tryAcquire]
  split
  · rename_i hreason
    rw [note_of_owners rfl]
    exact .refuse hreason
  · rename_i hreason
    rw [not_or] at hreason
    rw [note_of_grant hs]
    exact .grant (by simpa using hreason.1) (Nat.pos_of_ne_zero hreason.2)

theorem effect_release (hs : s.Sound size) (hholding : s.callers[k]? = some .holding) :
    s.Effect (s.note (s.pool.release k) (s.callers.set k .returned)) := by
  have hheld := (hs.holding k).mpr hholding
  have hreturned := WorkerPool.returned_release hheld (hs.offered_of_held hheld)
  rw [note_of_returned hs hreturned]
  exact .back hreturned (.inl ⟨hholding, rfl⟩)

theorem effect_cancel (hs : s.Sound size) (hwaiting : s.callers[k]? = some .waiting) :
    s.Effect (s.note (s.pool.cancel k) (s.callers.set k .abandoned)) := by
  by_cases hoffered : k ∈ s.pool.offered
  · have hreturned := WorkerPool.returned_cancel hoffered fun hheld =>
      hs.offered_of_held hheld hoffered
    rw [note_of_returned hs hreturned]
    exact .back hreturned (.inr ⟨hwaiting, .inl rfl⟩)
  · rw [WorkerPool.cancel, if_neg hoffered, note_of_owners]
    · exact .leave hwaiting hoffered (.inl rfl)
    · rfl

/-- One that has been handed a slot takes it, or leaves it if the pool is closed. -/
theorem effect_look_offered (hs : s.Sound size) (hoffered : k ∈ s.pool.offered) :
    s.Effect (s.note (s.pool.take k).2 (s.callers.set k (.ofReply (s.pool.take k).1))) := by
  have hwaiting := hs.line k (List.mem_append_left _ hoffered)
  by_cases hclosed : s.pool.closed = true
  · obtain ⟨hreply, hreturned⟩ := WorkerPool.returned_take hclosed hoffered fun hheld =>
      hs.offered_of_held hheld hoffered
    rw [note_of_returned hs hreturned, hreply]
    exact .back hreturned (.inr ⟨hwaiting, .inr ⟨rfl, hclosed⟩⟩)
  · rw [WorkerPool.take, if_pos hoffered, if_neg hclosed, note_of_perm]
    · exact .take (by simpa using hclosed) hoffered
    · show (s.pool.held ++ [k] ++ s.pool.offered.erase k).Perm (s.pool.held ++ s.pool.offered)
      rw [List.append_assoc]
      exact (List.perm_cons_erase hoffered).symm.append_left _

/-- One that has been handed no slot goes on waiting, or is refused if the pool is closed. -/
theorem effect_look (hs : s.Sound size) (hwaiting : s.callers[k]? = some .waiting)
    (hoffered : k ∉ s.pool.offered) :
    s.Effect (s.note (s.pool.take k).2 (s.callers.set k (.ofReply (s.pool.take k).1))) := by
  rw [WorkerPool.take, if_neg hoffered]
  by_cases hclosed : s.pool.closed = true
  · -- Nobody waits in a closed pool, so that none has to leave the line.
    rw [if_pos hclosed, note_of_owners rfl]
    have hleave := Effect.leave hwaiting hoffered (.inr ⟨rfl, hclosed⟩)
    rwa [hs.dismissed hclosed, List.erase_nil, ← hs.dismissed hclosed] at hleave
  · rw [if_neg hclosed, note_of_owners rfl]
    obtain ⟨hlt, hstage⟩ := List.getElem?_eq_some_iff.mp hwaiting
    have hsame : s.callers.set k (.ofReply .wait) = s.callers := by
      rw [SlotStage.ofReply, ← hstage, List.set_getElem_self]
    rw [hsame]
    exact .idle

/-- **A move** does one of these things. -/
theorem effect_of_act (hs : s.Sound size) (m : PoolMove) : s.Effect (s.act m) := by
  cases m with
  | acquire => exact effect_acquire hs
  | tryAcquire => exact effect_tryAcquire hs
  | release k | crash k =>
    rw [act]
    split
    · rename_i hholding
      exact effect_release hs hholding
    · exact .idle
  | cancel k =>
    rw [act]
    split
    · rename_i hwaiting
      exact effect_cancel hs hwaiting
    · exact .idle
  | look k =>
    rw [act]
    split
    · rename_i hwaiting
      by_cases hoffered : k ∈ s.pool.offered
      · exact effect_look_offered hs hoffered
      · exact effect_look hs hwaiting hoffered
    · exact .idle
  | close =>
    rw [act, note_of_owners]
    · exact .close
    · rfl

end PoolDesk

end SmsRelay
