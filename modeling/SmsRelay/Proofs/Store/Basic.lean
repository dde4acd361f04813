import SmsRelay.Proofs.Store.File
import SmsRelay.Proofs.Store.Memory
import SmsRelay.Store.Basic

/-!
# What stores hold

A store that keeps correlation ids unique, in memory or in files, collects the messages of the
batches that are put into it.

## Main results

* `Opened.holds`: a new store holds nothing.
* `Holds.insertBatch`: what becomes of a batch.
* `Holds.list`: all messages are listed.
-/

namespace SmsRelay

namespace Store

/-- The store keeps correlation ids unique, has room for `n` messages and holds the messages. -/
def Holds : Store → ℕ → List Message → Prop
  | memory s, n, ms => s.Holds n ms
  | files s d, _, ms => s.Holds d ms

/-- The store can take messages of the phone number. -/
def Accepts : Store → String → Prop
  | memory _, phone => phone ≠ ""
  | files s _, phone => s.Accepts phone

/-- A new store that keeps correlation ids unique and has room for `n` messages. One in files has
found none in its directory, and the disk has no faults. -/
inductive Opened (n : ℕ) : Store → Prop
  | memory {capacity : ℕ} (room : n ≤ capacity) : Opened n (memory (.create capacity true))
  | files {s : FileStore} {d : Disk} {names : List String} (unique : s.unique)
      (loaded : (s.load d).1 = .ok ()) (faultless : (s.load d).2.2.faults = [])
      (listed : (s.load d).2.2.names s.directory = .ok names)
      (none : ∀ name ∈ names, ¬ FileStore.isKeyFile name) : Opened n (files s d).load.2

theorem Opened.holds {n : ℕ} {s : Store} (h : Opened n s) : s.Holds n [] := by
  cases h with
  | memory room => exact MemoryStore.holds_create room
  | @files s d names unique loaded faultless listed none =>
    show (s.load d).2.1.Holds (s.load d).2.2 []
    rcases hload : s.load d with ⟨result, s', d'⟩
    rw [hload] at loaded faultless listed
    have hnone : names.filter FileStore.isKeyFile = [] := List.filter_eq_nil_iff.mpr none
    have hkeyFiles : s.keyFiles d' = [] := by
      rw [FileStore.keyFiles, listed]
      simp [hnone]
    obtain rfl : result = .ok () := loaded
    rw [FileStore.load] at hload
    split at hload
    · cases hload
    · rename_i d₁ hmade
      have hsame : d₁ = d' := by
        split at hload <;> cases hload
        rfl
      rw [hsame, hkeyFiles] at hload
      cases hload
      exact FileStore.holds_nil unique rfl faultless listed none

/-- A store in files makes its directory. -/
example : Opened 3 (files ⟨"data", true, []⟩ .blank).load.2 :=
  .files rfl (by decide +kernel) (by decide +kernel) (by decide +kernel : _ = Except.ok [])
    fun _ h => absurd h List.not_mem_nil

variable {n : ℕ} {s : Store} {ms : List Message}

/-- **A batch** is collected. -/
theorem Holds.insertBatch (h : s.Holds n ms) {b : List Message}
    (haccepts : ∀ m ∈ b, s.Accepts m.phone)
    (hcreated : ∀ m ∈ b, m.createdAt.isValid) (hid : ∀ m ∈ b, m.correlationId ≠ "")
    (hroom : (b.foldl collect ms).length ≤ n) :
    (s.insertBatch b).2.Holds n (b.foldl collect ms) ∧
      ∀ phone, s.Accepts phone → (s.insertBatch b).2.Accepts phone := by
  cases s with
  | memory s =>
    have hmemory : s.Holds n ms := h
    exact ⟨hmemory.insertBatch haccepts hid hroom, fun _ hphone => hphone⟩
  | files s d =>
    have hfiles : s.Holds d ms := h
    obtain ⟨hholds, hdirectory⟩ := hfiles.insertBatch haccepts hcreated hid
    exact ⟨hholds, fun _ hphone => FileStore.Accepts.of_directory hphone hdirectory⟩

/-- **All messages are listed.** -/
theorem Holds.list (h : s.Holds n ms) : ∃ l, s.list = .ok l ∧ l.Perm ms := by
  cases s with
  | memory s =>
    have hmemory : s.Holds n ms := h
    exact ⟨s.messages, rfl, .of_eq hmemory.messages⟩
  | files s d =>
    have hfiles : s.Holds d ms := h
    exact hfiles.list

end Store

end SmsRelay
