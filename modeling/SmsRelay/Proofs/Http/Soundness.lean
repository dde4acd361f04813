import SmsRelay.Proofs.Http.Desk
import SmsRelay.Proofs.Sender.Dispatch

/-!
# What a desk keeps

Whatever comes in and whatever goes on beside it, the store keeps what has been stored since all
messages were last removed, and a key is blocked exactly if the last request about it was to block
it.

## Implementation notes

Nothing is asked of the disk. What cannot be written is refused, and the client is told so.

## Main results

* `Waiting.Sound.finished`: what the store answers to a message that is handed in.
* `Desk.Sound.step`, `Desk.Sound.reaches`: the desk stays sound.
-/

namespace SmsRelay

/-! ### Blank text -/

/-- Nothing is left of a text exactly if it is blank. -/
theorem trim_eq_empty_iff {s : String} : trim s = "" ↔ isBlank s := by
  have hend : ∀ cs, trimEnd cs = [] ↔ ∀ c ∈ cs, isSpace c := by
    intro cs
    rw [trimEnd, List.reverse_eq_nil_iff, List.dropWhile_eq_nil_iff]
    simp only [List.mem_reverse]
  rw [← String.toList_eq_nil_iff, trim_toList, hend, isBlank_iff, ← List.dropWhile_eq_nil_iff,
    ← List.dropWhile_eq_nil_iff, trimStart, List.dropWhile_idempotent]

namespace Http

theorem Note.phone_ne_empty {n : Note} (h : n.violation? = none) (time : Instant) :
    (n.toMessage time).phone ≠ "" := by
  intro hempty
  have hblank : isBlank n.phone := trim_eq_empty_iff.mp hempty
  rw [violation?, if_pos hblank] at h
  cases h

/-! ### The state of a desk -/

/-- A desk at its beginning: the store and the block list are empty, and nothing has happened. -/
structure Desk.Fresh (t : Desk) : Prop where
  new : t.relay.link.store.New
  mode : t.relay.link.mode = .through
  reads : t.relay.link.readsFail = false
  blockList : t.relay.sender.blockList = {}
  guardFault : t.relay.sender.guardFault = none
  waiting : t.waiting = []
  past : t.past = []

/-- What waits for the store is a message that has been handed in. -/
structure Waiting.Sound (w : Waiting) : Prop where
  named : w.request.Names .messages .post
  mode : w.call.mode = .through
  batch : w.call.batch = [w.message]
  created : w.message.createdAt.isValid
  note : ∃ note, readBody Note.reader w.request = .ok note ∧ note.violation? = none ∧
    w.message = note.toMessage w.arrival.time

/-- The store keeps what has been stored, and the block list says what was last said. -/
structure Desk.Sound (t : Desk) : Prop where
  mode : t.relay.link.mode = .through
  reads : t.relay.link.readsFail = false
  guardFault : t.relay.sender.guardFault = none
  keeps : t.relay.link.store.Keeps (stored t.past)
  blocks : ∀ key, isBlank key = false →
    (t.relay.sender.blockList.isBlocked key ↔ lastBlock? t.past key = some true)
  waiting : ∀ w ∈ t.waiting, w.Sound

namespace Desk

theorem Fresh.sound {t : Desk} (h : t.Fresh) : t.Sound := by
  refine ⟨h.mode, h.reads, h.guardFault, ?_, fun key _ => ?_, ?_⟩
  · rw [h.past]
    exact h.new.keeps
  · rw [h.past, h.blockList]
    simp [BlockList.isBlocked, lastBlock?]
  · rw [h.waiting]
    exact List.forall_mem_nil _

end Desk

/-! ### What an exchange says -/

namespace Exchange

variable {x : Exchange} {resource : Resource} {method : Method}

/-- Only requests about messages store any or remove them. -/
theorem idle_of_named (h : x.request.Names resource method) (hne : resource ≠ .messages) :
    x.created? = none ∧ ¬ x.Removes := by
  refine ⟨if_neg fun hcreated => ?_, fun hremoves => ?_⟩
  · exact hne (h.unique hcreated.1).1
  · exact hne (h.unique hremoves.1).1

/-- Only requests about a key say something about it. -/
theorem block?_of_named (h : x.request.Names resource method) {key : String}
    (hne : resource ≠ .block (some key)) : x.block? key = none := by
  rw [block?, if_neg fun hpost => hne (h.unique hpost).1,
    if_neg fun hdelete => hne (h.unique hdelete).1]

theorem block?_of_post {key : String} (h : x.request.Names (.block (some key)) .post)
    (other : String) : x.block? other = if other = key then some true else none := by
  by_cases heq : other = key
  · rw [if_pos heq, block?, if_pos (heq ▸ h)]
  · rw [if_neg heq]
    refine block?_of_named h fun hblock => heq ?_
    cases hblock
    rfl

theorem block?_of_delete {key : String} (h : x.request.Names (.block (some key)) .delete)
    (other : String) : x.block? other = if other = key then some false else none := by
  by_cases heq : other = key
  · have hpost : ¬ x.request.Names (.block (some other)) .post := fun hpost =>
      absurd (h.unique hpost).2 nofun
    rw [if_pos heq, block?, if_neg hpost, if_pos (heq ▸ h)]
  · rw [if_neg heq]
    refine block?_of_named h fun hblock => heq ?_
    cases hblock
    rfl

end Exchange

/-- An exchange that stores nothing and removes nothing. -/
theorem stored_idle (past : List Happening) {x : Exchange} (hcreated : x.created? = none)
    (hkept : ¬ x.Removes) : stored (past ++ [.answered x]) = stored past := by
  have hkept : ¬ (Happening.answered x).Removes := hkept
  rw [stored_concat, if_neg hkept, Happening.messages, hcreated]
  exact List.append_nil _

namespace Desk

variable {t : Desk}

/-! ### One step -/

/-- The store removes the messages, and counts them. -/
theorem Sound.deleteAll (h : t.Sound) :
    t.relay.link.deleteAll = (.ok (t.relay.link.store.latest (stored t.past)).length,
      { t.relay.link with store := t.relay.link.store.deleteAll.2 }) := by
  rw [StoreLink.deleteAll, if_neg (by rw [h.reads]; nofun), ← h.keeps.deleteAll.1]

/-- A relay that has answered, with what is kept and what the block list says. -/
theorem Sound.exchange (h : t.Sound) {x : Exchange} {r : Relay}
    (mode : r.link.mode = t.relay.link.mode) (reads : r.link.readsFail = t.relay.link.readsFail)
    (guard : r.sender.guardFault = t.relay.sender.guardFault)
    (keeps : r.link.store.Keeps (stored (t.past ++ [.answered x])))
    (blocks : ∀ key, isBlank key = false → r.sender.blockList.isBlocked key =
      (x.block? key).getD (t.relay.sender.blockList.isBlocked key)) : (t.answer r x).Sound := by
  refine ⟨mode.trans h.mode, reads.trans h.reads, guard.trans h.guardFault, keeps,
    fun key hkey => ?_, h.waiting⟩
  rw [answer, lastBlock?_concat, Happening.block?, blocks key hkey]
  cases x.block? key with
  | none => exact h.blocks key hkey
  | some b => cases b <;> simp

/-- A relay that has answered and left the messages as they are. -/
theorem Sound.idle (h : t.Sound) {x : Exchange} {s : Sender}
    (guard : s.guardFault = t.relay.sender.guardFault) (created : x.created? = none)
    (kept : ¬ x.Removes) (blocks : ∀ key, isBlank key = false → s.blockList.isBlocked key =
      (x.block? key).getD (t.relay.sender.blockList.isBlocked key)) :
    (t.answer { t.relay with sender := s } x).Sound := by
  refine h.exchange rfl rfl guard ?_ blocks
  rw [stored_idle _ created kept]
  exact h.keeps

/-- **A request is answered at once.** -/
theorem Sound.answer (h : t.Sound) {x : Exchange} {r : Relay}
    (handled : Api.handle t.relay x.arrival x.request = .done r x.response) :
    (t.answer r x).Sound := by
  have heffect := Api.effect_of_handle t.relay x.arrival x.request
  rw [handled] at heffect
  generalize hresponse : x.response = response at heffect
  cases heffect with
  | answer kept uncreated unblocked =>
    refine h.idle rfl (if_neg fun hcreated => uncreated (hresponse ▸ hcreated.2))
      (fun hremoves => kept hremoves.1) fun key hkey => ?_
    have hnot : ∀ method, method ≠ .get → ¬ x.request.Names (.block (some key)) method := by
      intro method hne hnames
      rcases unblocked key method hnames hne with hblank | hguard
      · exact absurd (hblank.symm.trans hkey) nofun
      · exact hguard h.guardFault
    rw [Exchange.block?, if_neg (hnot .post nofun), if_neg (hnot .delete nofun)]
    rfl
  | send named accepted =>
    obtain rfl := Sender.eq_of_accept accepted
    obtain ⟨hcreated, hkept⟩ := Exchange.idle_of_named named nofun
    refine h.idle rfl hcreated hkept fun key _ => ?_
    rw [Exchange.block?_of_named named nofun]
    rfl
  | @block key sender _ named changed status =>
    obtain ⟨l, hl, rfl⟩ := Sender.eq_of_changeBlockList changed
    obtain ⟨hcreated, hkept⟩ := Exchange.idle_of_named named nofun
    refine h.idle rfl hcreated hkept fun other _ => ?_
    rw [Exchange.block?_of_post named, BlockList.isBlocked_block hl]
    by_cases heq : other = key <;> simp [heq]
  | @unblock key sender _ named changed status =>
    obtain ⟨l, hl, rfl⟩ := Sender.eq_of_changeBlockList changed
    obtain ⟨hcreated, hkept⟩ := Exchange.idle_of_named named nofun
    refine h.idle rfl hcreated hkept fun other _ => ?_
    rw [Exchange.block?_of_delete named, BlockList.isBlocked_unblock hl]
    by_cases heq : other = key <;> simp [heq]
  | @remove result link _ named removed status =>
    rw [h.deleteAll] at removed
    cases removed
    have hremoves : (Happening.answered x).Removes := ⟨named, hresponse ▸ status⟩
    refine h.exchange rfl rfl rfl ?_ fun key _ => ?_
    · rw [stored_concat, if_pos hremoves]
      exact h.keeps.deleteAll.2
    · rw [Exchange.block?_of_named named nofun]
      rfl

/-- **A request waits** for the store. -/
theorem Sound.wait (h : t.Sound) {a : Arrival} {q : Request} {r : Relay} {call : StoreCall}
    {m : Message} (clock : a.time.isValid)
    (handled : Api.handle t.relay a q = .storing r call m) :
    ({ t with relay := r, waiting := t.waiting ++ [⟨a, q, call, m⟩] } : Desk).Sound := by
  have heffect := Api.effect_of_handle t.relay a q
  rw [handled] at heffect
  cases heffect with
  | store named parsed allowed =>
    refine ⟨h.mode, h.reads, h.guardFault, h.keeps, h.blocks, fun w hw => ?_⟩
    rcases List.mem_append.mp hw with hw | hw
    · exact h.waiting w hw
    · obtain rfl := List.mem_singleton.mp hw
      exact ⟨named, h.mode, rfl, clock, _, parsed, allowed, rfl⟩

end Desk

/-! ### The answer of the store -/

/-- What the store answers to a message that is handed in. -/
inductive Finished (r : Relay) (w : Waiting) : Relay → Response → Prop
  | stored {link : StoreLink} (took : (r.link.store.put w.message).1 = .stored)
      (store : link.store = (r.link.store.insertBatch [w.message]).2)
      (mode : link.mode = r.link.mode) (reads : link.readsFail = r.link.readsFail) :
      Finished r w { r with link := link }
        { status := 201, content := .json w.message.toJson }
  | refused {link : StoreLink} {response : Response}
      (refused : (r.link.store.put w.message).1 ≠ .stored)
      (store : link.store = (r.link.store.insertBatch [w.message]).2)
      (mode : link.mode = r.link.mode) (reads : link.readsFail = r.link.readsFail)
      (status : response.status = 500) : Finished r w { r with link := link } response

theorem Waiting.Sound.finished {w : Waiting} (hw : w.Sound) {r r' : Relay} {response : Response}
    (h : Api.finish r w.arrival w.call w.message = (r', response)) : Finished r w r' response := by
  obtain ⟨-, hok⟩ := r.link.store.insertBatch_singleton w.message
  simp only [Api.finish, StoreLink.answer, hw.mode, hw.batch] at h
  cases hresult : (r.link.store.insertBatch [w.message]).1 with
  | error e =>
    simp only [hresult] at h
    cases h
    refine .refused (fun htook => ?_) rfl rfl rfl rfl
    obtain ⟨n, hn⟩ := hok.mpr htook
    cases hn.symm.trans hresult
  | ok n =>
    simp only [hresult] at h
    cases h
    exact .stored (hok.mp ⟨n, hresult⟩) rfl rfl rfl

theorem Waiting.Sound.named_exchange {w : Waiting} (hw : w.Sound) (response : Response) :
    (w.exchange response).request.Names .messages .post := hw.named

/-- The exchange of a request that waited tells what has been stored. -/
theorem Waiting.Sound.stored_concat {w : Waiting} (hw : w.Sound) (past : List Happening)
    (response : Response) : stored (past ++ [.answered (w.exchange response)]) =
      stored past ++ if response.status = 201 then [w.message] else [] := by
  have hkept : ¬ (Happening.answered (w.exchange response)).Removes := fun hremoves =>
    absurd ((hw.named_exchange response).unique hremoves.1).2 nofun
  have hcreated : (w.exchange response).created? =
      if response.status = 201 then some w.message else none := by
    obtain ⟨note, hparsed, -, hmessage⟩ := hw.note
    rw [Exchange.created?, exchange, hparsed, hmessage]
    exact if_congr (and_iff_right hw.named) rfl rfl
  rw [Http.stored_concat, if_neg hkept, Happening.messages, hcreated]
  split <;> rfl

namespace Desk

variable {t t' : Desk}

/-- **The store has answered** a request that waited. -/
theorem Sound.finish (h : t.Sound) {n : ℕ} {w : Waiting} {r : Relay} {response : Response}
    (found : t.waiting[n]? = some w)
    (finished : Api.finish t.relay w.arrival w.call w.message = (r, response)) :
    ({ t.answer r (w.exchange response) with waiting := t.waiting.eraseIdx n } : Desk).Sound := by
  have hw := h.waiting w (List.mem_of_getElem? found)
  have hstored := hw.stored_concat t.past response
  have hblocks : ∀ key, isBlank key = false → t.relay.sender.blockList.isBlocked key =
      ((w.exchange response).block? key).getD (t.relay.sender.blockList.isBlocked key) := by
    intro key _
    rw [Exchange.block?_of_named (hw.named_exchange response) nofun]
    rfl
  obtain ⟨hadded, -⟩ := t.relay.link.store.insertBatch_singleton w.message
  obtain ⟨hkeeps, -⟩ := h.keeps.insertBatch (List.forall_mem_singleton.mpr hw.created)
  have hsound : (t.answer r (w.exchange response)).Sound := by
    cases hw.finished finished with
    | stored took store mode reads =>
      refine h.exchange mode reads rfl ?_ hblocks
      rw [hadded, if_pos took] at hkeeps
      rw [hstored, if_pos rfl, store]
      exact hkeeps
    | refused refused store mode reads status =>
      refine h.exchange mode reads rfl ?_ hblocks
      rw [hadded, if_neg refused] at hkeeps
      rw [hstored, if_neg (by rw [status]; nofun), store]
      exact hkeeps
  exact ⟨hsound.mode, hsound.reads, hsound.guardFault, hsound.keeps, hsound.blocks,
    fun w' hw' => h.waiting w' (List.mem_of_mem_eraseIdx hw')⟩

/-- What goes on elsewhere. -/
theorem Sound.elsewhere (h : t.Sound) {batch : List Message} {r : Relay}
    (beside : Elsewhere t.relay batch r) :
    ({ t with relay := r, past := t.past ++ [.stored (t.relay.link.store.added batch)] } :
      Desk).Sound := by
  obtain ⟨hkeeps, -⟩ := h.keeps.insertBatch beside.created
  have hkept : ¬ (Happening.stored (t.relay.link.store.added batch)).Removes := not_false
  refine ⟨beside.mode.trans h.mode, beside.readsFail.trans h.reads,
    beside.guardFault.trans h.guardFault, ?_, fun key hkey => ?_, h.waiting⟩
  · rw [stored_concat, if_neg hkept, beside.store]
    exact hkeeps
  · rw [lastBlock?_concat, beside.blockList]
    exact h.blocks key hkey

/-- The handling of requests. -/
theorem Sound.handles (h : t.Sound) {x? : Option Exchange} (handles : t.Handles x? t') :
    t'.Sound := by
  cases handles with
  | answer _ handled => exact h.answer handled
  | wait clock handled => exact h.wait clock handled
  | finish found finished => exact h.finish found finished

/-- **Each step.** -/
theorem Sound.step (h : t.Sound) (hstep : t.Step t') : t'.Sound := by
  cases hstep with
  | request handles => exact h.handles handles
  | elsewhere beside => exact h.elsewhere beside

/-- **A whole run.** -/
theorem Sound.reaches (h : t.Sound) (hrun : t.Reaches t') : t'.Sound := by
  induction hrun with
  | refl => exact h
  | tail _ hstep ih => exact ih.step hstep

end Desk

end Http

end SmsRelay
