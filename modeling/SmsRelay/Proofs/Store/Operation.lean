import SmsRelay.Proofs.Store.Filing
import SmsRelay.Proofs.Store.Insertion

/-!
# What stores are asked

A program asks a store for one thing after the other and gets an answer to each. Whatever it asks,
the files of a store go on carrying the messages that have been added and not removed.

## Main results

* `insertBatch_agree`: stores that say the same to a message say the same to a batch.
* `FileStore.Carries.insertBatch`: what the files carry after a batch.
-/

namespace SmsRelay

/-- What a store is asked for. -/
inductive StoreOp where
  | insert (m : Message)
  | insertBatch (ms : List Message)
  | findByPhone (phone : String)
  | list
  | deleteAll
  deriving DecidableEq, Repr

/-- The messages that come to the store. -/
def StoreOp.messages : StoreOp → List Message
  | insert m => [m]
  | insertBatch ms => ms
  | _ => []

/-- What a store answers. -/
inductive StoreAnswer where
  | inserted (r : Except StoreError Unit)
  | counted (r : Except StoreError ℕ)
  | found (r : Except StoreError (List Message))
  | listed (r : Except StoreError (List Message))
  | removed (r : Except StoreError ℕ)
  deriving DecidableEq, Repr

namespace Store

/-- Does what the store is asked for. -/
def perform (s : Store) : StoreOp → StoreAnswer × Store
  | .insert m => (.inserted (s.insert m).1, (s.insert m).2)
  | .insertBatch ms => (.counted (s.insertBatch ms).1, (s.insertBatch ms).2)
  | .findByPhone phone => (.found (s.findByPhone phone), s)
  | .list => (.listed s.list, s)
  | .deleteAll => (.removed s.deleteAll.1, s.deleteAll.2)

/-- The answers of a store that is asked for one thing after the other. -/
def answers (s : Store) : List StoreOp → List StoreAnswer
  | [] => []
  | op :: ops => (s.perform op).1 :: (s.perform op).2.answers ops

/-- A single message is a batch of one. -/
theorem perform_insert (s : Store) (m : Message) : s.perform (.insert m) =
    (.inserted (single (s.insertBatch [m]).1), (s.insertBatch [m]).2) := rfl

/-- The messages after an operation. -/
def outcome (s : Store) (ms : List Message) : StoreOp → List Message
  | .insert m => ms ++ s.added [m]
  | .insertBatch b => ms ++ s.added b
  | .deleteAll => []
  | _ => ms

/-- **Stores that say the same to each message** say the same to a batch. `R` relates them when some
messages are still to come. -/
theorem insertBatch_agree {R : List Message → Store → Store → Prop}
    (hput : ∀ m rest s t, R (m :: rest) s t →
      (s.put m).1 = (t.put m).1 ∧ R rest (s.put m).2 (t.put m).2)
    {b : List Message} {s t : Store} (h : R b s t) : (s.insertBatch b).1 = (t.insertBatch b).1 ∧
      R [] (s.insertBatch b).2 (t.insertBatch b).2 := by
  have hfates : (s.fates b).map Prod.snd = (t.fates b).map Prod.snd ∧
      R [] (b.foldl (fun s m => (s.put m).2) s) (b.foldl (fun s m => (s.put m).2) t) := by
    induction b generalizing s t with
    | nil => exact ⟨rfl, h⟩
    | cons m b ih =>
      obtain ⟨hverdict, hnext⟩ := hput m b s t h
      obtain ⟨hrest, hend⟩ := ih hnext
      refine ⟨?_, hend⟩
      rw [fates, fates, List.map_cons, List.map_cons, hrest, hverdict]
  rw [insertBatch_eq, insertBatch_eq, hfates.1]
  exact ⟨rfl, hfates.2⟩

end Store

namespace FileStore

variable {s : FileStore} {d : Disk} {ms : List Message}

/-- **A batch** is added to what the files carry, as far as it is stored. -/
theorem Carries.insertBatch (h : s.Carries d ms) {b : List Message}
    (hcreated : ∀ m ∈ b, m.createdAt.isValid) :
    ∃ s' d', ((Store.files s d).insertBatch b).2 = .files s' d' ∧
      s'.Carries d' (ms ++ (Store.files s d).added b) ∧
      s'.directory = s.directory ∧ s'.unique = s.unique := by
  rw [Store.insertBatch_eq]
  induction b generalizing s d ms with
  | nil =>
    refine ⟨s, d, rfl, ?_, rfl, rfl⟩
    rw [show (Store.files s d).added [] = [] from rfl, List.append_nil]
    exact h
  | cons m b ih =>
    have hput := h.put (hcreated m List.mem_cons_self)
    obtain ⟨hdirectory, hunique⟩ := put_settings s d m
    obtain ⟨s', d', hstore, hcarries, hdirectory', hunique'⟩ :=
      ih hput fun k hk => hcreated k (List.mem_cons_of_mem m hk)
    refine ⟨s', d', hstore, ?_, hdirectory'.trans hdirectory, hunique'.trans hunique⟩
    have hadded : ms ++ (Store.files s d).added (m :: b) =
        (if (FileStore.put (s, d) m).1 = .stored then ms ++ [m] else ms) ++
          (Store.files (FileStore.put (s, d) m).2.1 (FileStore.put (s, d) m).2.2).added b := by
      rw [Store.added_cons, Store.put]
      split
      · rw [List.append_assoc]
        rfl
      · rfl
    rw [hadded]
    exact hcarries

end FileStore

end SmsRelay
