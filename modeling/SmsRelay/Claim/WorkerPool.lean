/-!
# Worker pools

A bound on how many pieces of work are under way at the same time. A piece of work holds a slot;
whoever finds none free waits, and a slot given back goes to the one that has waited longest. A
closed pool refuses everyone who waits and everyone who comes; slots held stay valid.

## Implementation notes

Those who want slots are known by numbers. A slot that is handed over belongs to `offered` until the
one it was meant for takes it: if that one has gone away, the slot goes on to the next.

## Main results

* `slots_acquire`, `slots_release`, `slots_cancel`, `slots_take`, `slots_close`: no operation gains
  or loses a slot.
-/

namespace SmsRelay

/-- A bounded number of slots. -/
structure WorkerPool where
  size : Nat
  free : Nat
  /-- Those that hold a slot, in the order in which they got it. -/
  held : List Nat := []
  /-- Those that have been handed a slot and have not taken it yet. -/
  offered : List Nat := []
  /-- Those that wait, first come first. -/
  waiting : List Nat := []
  closed : Bool := false
  deriving DecidableEq, Repr

namespace WorkerPool

/-- What becomes of a wish for a slot. -/
inductive Reply where
  | slot
  | wait
  | refused
  deriving DecidableEq, Repr

/-- A pool with `size` free slots, at least one. -/
def create (size : Nat) : WorkerPool := { size := max size 1, free := max size 1 }

/-- How many slots are in use. -/
def inFlight (p : WorkerPool) : Nat := p.size - p.free

/-- How many slots there are, wherever they are. -/
def slots (p : WorkerPool) : Nat := p.free + p.held.length + p.offered.length

/-- Asks for a slot without waiting. -/
def tryAcquire (p : WorkerPool) (who : Nat) : Bool × WorkerPool :=
  if p.closed ∨ p.free = 0 then (false, p)
  else (true, { p with free := p.free - 1, held := p.held ++ [who] })

/-- Asks for a slot and waits if there is none. -/
def acquire (p : WorkerPool) (who : Nat) : Reply × WorkerPool :=
  if p.closed then (.refused, p)
  else if p.free = 0 then (.wait, { p with waiting := p.waiting ++ [who] })
  else (.slot, { p with free := p.free - 1, held := p.held ++ [who] })

/-- A slot is given back: it goes to the first that waits or becomes free. -/
def handOn (p : WorkerPool) : WorkerPool :=
  match p.waiting with
  | [] => { p with free := p.free + 1 }
  | next :: rest => { p with waiting := rest, offered := p.offered ++ [next] }

/-- Gives a held slot back. -/
def release (p : WorkerPool) (who : Nat) : WorkerPool :=
  if who ∈ p.held then { p with held := p.held.erase who }.handOn else p

/-- One that waits goes away; a slot it has been handed goes on to the next. -/
def cancel (p : WorkerPool) (who : Nat) : WorkerPool :=
  if who ∈ p.offered then { p with offered := p.offered.erase who }.handOn
  else { p with waiting := p.waiting.erase who }

/-- One that waits looks whether it has been handed a slot. -/
def take (p : WorkerPool) (who : Nat) : Reply × WorkerPool :=
  if who ∈ p.offered then
    if p.closed then (.refused, { p with offered := p.offered.erase who }.handOn)
    else (.slot, { p with offered := p.offered.erase who, held := p.held ++ [who] })
  else if p.closed then (.refused, p)
  else (.wait, p)

/-- Closes the pool: nobody waits any longer. -/
def close (p : WorkerPool) : WorkerPool := { p with closed := true, waiting := [] }

@[simp] theorem slots_create (size : Nat) : (create size).slots = max size 1 := by
  simp [create, slots]

@[simp] theorem slots_handOn (p : WorkerPool) : p.handOn.slots = p.slots + 1 := by
  unfold handOn
  split <;> simp [slots] <;> omega

theorem slots_acquire (p : WorkerPool) (who : Nat) : (p.acquire who).2.slots = p.slots := by
  unfold acquire
  split
  · rfl
  · split
    · rfl
    · simp [slots]; omega

theorem slots_release (p : WorkerPool) (who : Nat) : (p.release who).slots = p.slots := by
  unfold release
  split
  · rename_i h
    have := List.length_pos_of_mem h
    rw [slots_handOn]
    simp [slots, List.length_erase_of_mem h]; omega
  · rfl

theorem slots_cancel (p : WorkerPool) (who : Nat) : (p.cancel who).slots = p.slots := by
  unfold cancel
  split
  · rename_i h
    have := List.length_pos_of_mem h
    rw [slots_handOn]
    simp [slots, List.length_erase_of_mem h]; omega
  · rfl

theorem slots_take (p : WorkerPool) (who : Nat) : (p.take who).2.slots = p.slots := by
  unfold take
  split
  · rename_i h
    have := List.length_pos_of_mem h
    split
    · rw [slots_handOn]
      simp [slots, List.length_erase_of_mem h]; omega
    · simp [slots, List.length_erase_of_mem h]; omega
  · split <;> rfl

@[simp] theorem slots_close (p : WorkerPool) : p.close.slots = p.slots := rfl

end WorkerPool

end SmsRelay
