import SmsRelay.Failure
import SmsRelay.Text.Blank

/-!
# The block list

The phone numbers to which nothing may be sent. A blank text is no phone number: it is never blocked
and cannot be blocked.

## Main results

* `isBlocked_block`, `isBlocked_unblock`: blocking and unblocking a number change the answer for
  this number alone.
-/

namespace SmsRelay

/-- The numbers to which nothing may be sent. -/
structure BlockList where
  keys : List String := []
  deriving DecidableEq, Repr

namespace BlockList

/-- Refuses a blank key. -/
def blankKey : Failure := ⟨.format, "user id must not be blank"⟩

/-- Whether a key is blocked. -/
def isBlocked (l : BlockList) (key : String) : Bool := !isBlank key && l.keys.contains key

/-- Blocks a key. -/
def block (l : BlockList) (key : String) : Except Failure BlockList :=
  if isBlank key then .error blankKey
  else .ok { keys := if l.keys.contains key then l.keys else key :: l.keys }

/-- Takes a key off the list. -/
def unblock (l : BlockList) (key : String) : Except Failure BlockList :=
  if isBlank key then .error blankKey else .ok { keys := l.keys.filter (· ≠ key) }

theorem isBlocked_block {l l' : BlockList} {key : String} (h : l.block key = .ok l')
    (other : String) : l'.isBlocked other = (other == key || l.isBlocked other) := by
  unfold block at h
  by_cases hb : isBlank key = true
  · simp [hb] at h
  · simp only [Bool.not_eq_true] at hb
    simp only [hb, Bool.false_eq_true, if_false, Except.ok.injEq] at h
    subst h
    by_cases ho : other = key
    · subst ho
      by_cases hc : l.keys.contains other = true <;> simp_all [isBlocked]
    · by_cases hc : l.keys.contains key = true <;> simp_all [isBlocked]

theorem isBlocked_unblock {l l' : BlockList} {key : String} (h : l.unblock key = .ok l')
    (other : String) : l'.isBlocked other = (other != key && l.isBlocked other) := by
  unfold unblock at h
  by_cases hb : isBlank key = true
  · simp [hb] at h
  · simp only [hb, Bool.false_eq_true, if_false, Except.ok.injEq] at h
    subst h
    by_cases ho : other = key <;> simp [isBlocked, ho]

end BlockList

end SmsRelay
