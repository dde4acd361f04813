import SmsRelay.Proofs.Moves
import SmsRelay.Proofs.Sender.Answers

/-!
# Requests and records

Each request that a sender accepts gets one dispatch, for which the provider is called once and
which appends one record at most. Nothing else appends to the topic of the sender, so requests that
have been published and records correspond one to one, and a request that has been refused leaves no
trace.

## Main results

* `Office.Entries.effect`: what has been appended.
* `OfficeRun.corresponds`: accepted requests and records.
-/

namespace SmsRelay

theorem DeliveryStatus.name_injective {s s' : DeliveryStatus} (h : s.name = s'.name) : s = s' := by
  have hlookup := lookup_name s
  rw [h, lookup_name] at hlookup
  exact (Option.some.inj hlookup).symm

/-- The record tells what became of the text that a request asked to send, under the answer to this
request. -/
structure Record.Reports (a : Record) (q : SendRequest) (reply : SendReply)
    (status : DeliveryStatus) : Prop where
  key : a.key = q.phone
  event : Json.whole Event.reader (glyphs a.value) =
    .ok ⟨reply.correlationId, q.phone, q.message, status.name, reply.timestamp⟩

/-- The record of a dispatch reports of its request. -/
theorem Dispatch.reports_record {d : Dispatch}
    (h : -(pow2 63 : ℤ) ≤ d.timestamp ∧ d.timestamp < (pow2 63 : ℤ)) (topic : String)
    (status : DeliveryStatus) (place : Placement) :
    (d.record topic status place).Reports d.request d.reply status where
  key := rfl
  event := by
    rw [Dispatch.record, Event.read_encode h.1 h.2]
    rfl

/-- The event of the dispatch has been published. -/
def Dispatch.isPublished (d : Dispatch) : Bool :=
  match d.outcome? with
  | some (.published ..) => true
  | _ => false

namespace Office

/-! ### Records -/

/-- The dispatch with a number has been published. -/
structure Published (o : Office) (n : ℕ) (d : Dispatch) (status : DeliveryStatus)
    (place : Placement) : Prop where
  found : o.sender.dispatches[n]? = some d
  outcome : d.outcome? = some (.published status place)

variable {l₀ : Log} {o o' : Office} {j n : ℕ} {d d' e : Dispatch} {status : DeliveryStatus}
  {place : Placement} {h es : List OfficeEvent}

/-- The records that have been appended to the topic of the sender are those of the dispatches that
have been published. -/
structure Entries (l₀ : Log) (o : Office) (h : List OfficeEvent) : Prop where
  numbered : o.log.Numbered
  timestamps : ∀ d ∈ o.sender.dispatches,
    -(pow2 63 : ℤ) ≤ d.timestamp ∧ d.timestamp < (pow2 63 : ℤ)
  appended : ∀ n d status place, o.Published n d status place →
    .log (.appended (d.record o.sender.topic status place)) ∈ h
  below : ∀ n d status place, o.Published n d status place →
    ∃ p, o.log.partitionAt o.sender.topic place.partition = some p ∧ place.offset < p.watermark
  stems : ∀ a, .log (.appended a) ∈ h → a.topic = o.sender.topic →
    ∃ n d status place, o.Published n d status place ∧ a = d.record o.sender.topic status place
  distinct : ∀ n n' d d' status status' place, o.Published n d status place →
    o.Published n' d' status' place → n = n'
  total : o.log.total o.sender.topic =
    l₀.total o.sender.topic + o.sender.dispatches.countP Dispatch.isPublished

theorem Published.isPublished (hpub : o.Published n d status place) : d.isPublished := by
  rw [Dispatch.isPublished, hpub.outcome]

theorem isPublished_of_phase {due : ℕ} {verdict : Option DeliveryStatus}
    (phase : d.phase = .delivering due verdict) : d.isPublished = false := by
  rw [Dispatch.isPublished, Dispatch.outcome?, phase]

theorem isPublished_of_fresh (fresh : d.phase = .fresh) : d.isPublished = false := by
  rw [Dispatch.isPublished, Dispatch.outcome?, fresh]

theorem published_of_dispatches (hdispatches : o'.sender.dispatches = o.sender.dispatches)
    (n : ℕ) (d : Dispatch) (status : DeliveryStatus) (place : Placement) :
    o'.Published n d status place ↔ o.Published n d status place :=
  ⟨fun hpub => ⟨hdispatches ▸ hpub.found, hpub.outcome⟩,
    fun hpub => ⟨hdispatches ▸ hpub.found, hpub.outcome⟩⟩

/-- What has been published when a dispatch goes on that had not been published before. -/
theorem published_set_iff (found : o.sender.dispatches[n]? = some d)
    (unpublished : d.isPublished = false)
    (hset : o'.sender.dispatches = o.sender.dispatches.set n d') :
    o'.Published j e status place ↔ o.Published j e status place ∨
      j = n ∧ e = d' ∧ d'.outcome? = some (.published status place) := by
  have hmember := getElem?_set_eq_some_iff (y := d') (z := e) (j := j) found
  rw [← hset] at hmember
  constructor
  · rintro ⟨hfound, houtcome⟩
    rcases hmember.mp hfound with ⟨rfl, rfl⟩ | ⟨-, hfound⟩
    · exact .inr ⟨rfl, rfl, houtcome⟩
    · exact .inl ⟨hfound, houtcome⟩
  · rintro (hpub | ⟨rfl, rfl, houtcome⟩)
    · have hj : j ≠ n := by
        rintro rfl
        cases found.symm.trans hpub.found
        rw [hpub.isPublished] at unpublished
        cases unpublished
      exact ⟨hmember.mpr (.inr ⟨hj, hpub.found⟩), hpub.outcome⟩
    · exact ⟨hmember.mpr (.inl ⟨rfl, rfl⟩), houtcome⟩

theorem countP_set (found : o.sender.dispatches[n]? = some d) (unpublished : d.isPublished = false)
    (d' : Dispatch) :
    (o.sender.dispatches.set n d').countP Dispatch.isPublished =
      o.sender.dispatches.countP Dispatch.isPublished + if d'.isPublished then 1 else 0 := by
  obtain ⟨hlt, rfl⟩ := List.getElem?_eq_some_iff.mp found
  rw [List.countP_set hlt, unpublished]
  rfl

/-- What is seen of the log. -/
theorem log_mem_events {r : RelayEvent} (hes : ∀ e, .log e ∉ es) (l l' : Log) :
    .log r ∈ es ++ (l.changes l').map .log ↔ r ∈ l.changes l' := by
  rw [List.mem_append, or_iff_right (hes r)]
  exact List.mem_map_of_injective fun _ _ heq => by cases heq; rfl

/-- Nothing is appended to the topic of the sender, and nothing is published. -/
theorem Entries.keep (he : Entries l₀ o h) (numbered : o'.log.Numbered)
    (topic : o'.sender.topic = o.sender.topic)
    (timestamps : ∀ d ∈ o'.sender.dispatches,
      -(pow2 63 : ℤ) ≤ d.timestamp ∧ d.timestamp < (pow2 63 : ℤ))
    (published : ∀ n d status place,
      o'.Published n d status place ↔ o.Published n d status place)
    (count : o'.sender.dispatches.countP Dispatch.isPublished =
      o.sender.dispatches.countP Dispatch.isPublished)
    (partitions : ∀ i, o'.log.partitionAt o.sender.topic i = o.log.partitionAt o.sender.topic i)
    (total : o'.log.total o.sender.topic = o.log.total o.sender.topic)
    (elsewhere : ∀ a, .log (.appended a) ∈ es → a.topic ≠ o.sender.topic) :
    Entries l₀ o' (h ++ es) := by
  refine ⟨numbered, timestamps, ?_, ?_, ?_, ?_, ?_⟩
  · intro n d status place hpub
    rw [topic]
    exact List.mem_append_left _ (he.appended n d status place ((published _ _ _ _).mp hpub))
  · intro n d status place hpub
    rw [topic, partitions]
    exact he.below n d status place ((published _ _ _ _).mp hpub)
  · intro a ha htopic
    rw [topic] at htopic ⊢
    obtain ⟨n, d, status, place, hpub, heq⟩ := he.stems a
      ((List.mem_append.mp ha).resolve_right fun hnew => elsewhere a hnew htopic) htopic
    exact ⟨n, d, status, place, (published _ _ _ _).mpr hpub, heq⟩
  · intro n n' d d' status status' place hpub hpub'
    exact he.distinct n n' d d' status status' place ((published _ _ _ _).mp hpub)
      ((published _ _ _ _).mp hpub')
  · rw [topic, total, count]
    exact he.total

/-- A dispatch that goes on keeps its time. -/
theorem Entries.timestamps_set (he : Entries l₀ o h) (found : o.sender.dispatches[n]? = some d)
    (timestamp : d'.timestamp = d.timestamp) :
    ∀ e ∈ o.sender.dispatches.set n d',
      -(pow2 63 : ℤ) ≤ e.timestamp ∧ e.timestamp < (pow2 63 : ℤ) := by
  intro e hmem
  rcases List.mem_or_eq_of_mem_set hmem with hmem | rfl
  · exact he.timestamps e hmem
  · rw [timestamp]
    exact he.timestamps d (List.mem_of_getElem? found)

/-- What has been published before lies below the watermark of its partition. -/
theorem Entries.offset_lt (he : Entries l₀ o h) (hpub : o.Published n d status place)
    {p : Partition} (hp : o.log.partitionAt o.sender.topic place.partition = some p) :
    place.offset < p.watermark := by
  obtain ⟨p', hp', hlt⟩ := he.below n d status place hpub
  cases hp.symm.trans hp'
  exact hlt

/-- **A record is appended** and its dispatch is published. -/
theorem Entries.grow (he : Entries l₀ o h) (found : o.sender.dispatches[n]? = some d)
    (unpublished : d.isPublished = false)
    (hset : o'.sender.dispatches = o.sender.dispatches.set n d')
    (timestamp : d'.timestamp = d.timestamp) (topic : o'.sender.topic = o.sender.topic)
    (outcome : d'.outcome? = some (.published status place))
    (grown : o.log.Grown o'.log (d'.record o.sender.topic status place))
    (total : o'.log.total o.sender.topic = o.log.total o.sender.topic + 1)
    (hes : ∀ a, .log (.appended a) ∈ es ↔ .appended a ∈ o.log.changes o'.log) :
    Entries l₀ o' (h ++ es) := by
  obtain ⟨p, hplace, hoffset, hplace'⟩ := grown.place
  change o.log.partitionAt o.sender.topic place.partition = some p at hplace
  change place.offset = p.watermark at hoffset
  have hpublished : ∀ j e status' place', o'.Published j e status' place' ↔
      o.Published j e status' place' ∨
        j = n ∧ e = d' ∧ d'.outcome? = some (.published status' place') :=
    fun j e status' place' => published_set_iff found unpublished hset
  have hnew : .log (.appended (d'.record o.sender.topic status place)) ∈ es :=
    (hes _).mpr ((grown.added _).mpr rfl)
  obtain ⟨p', hp', hnext⟩ : ∃ p', o'.log.partitionAt o.sender.topic place.partition = some p' ∧
      p'.watermark = p.watermark + 1 := by
    refine ⟨_, hplace', ?_⟩
    rw [(he.numbered.of_partitionAt hplace).1.watermark]
    rfl
  have hnotOld : ∀ {j e status'}, ¬ o.Published j e status' place := by
    intro j e status' hpub
    exact Nat.lt_irrefl _ (hoffset ▸ he.offset_lt hpub hplace)
  refine ⟨grown.numbered, hset ▸ he.timestamps_set found timestamp, ?_, ?_, ?_, ?_, ?_⟩
  · intro j e status' place' hpub
    rw [topic]
    rcases (hpublished j e status' place').mp hpub with hpub | ⟨rfl, rfl, heq⟩
    · exact List.mem_append_left _ (he.appended j e status' place' hpub)
    · cases outcome.symm.trans heq
      exact List.mem_append_right _ hnew
  · intro j e status' place' hpub
    rw [topic]
    rcases (hpublished j e status' place').mp hpub with hpub | ⟨rfl, rfl, heq⟩
    · by_cases hpart : place'.partition = place.partition
      · have hlt := he.offset_lt hpub (hpart ▸ hplace)
        exact ⟨p', hpart ▸ hp', hnext ▸ Nat.lt_succ_of_lt hlt⟩
      · rw [grown.elsewhere _ _ fun hsame => hpart (Prod.mk.inj hsame).2]
        exact he.below j e status' place' hpub
    · cases outcome.symm.trans heq
      exact ⟨p', hp', hnext ▸ hoffset ▸ Nat.lt_succ_self _⟩
  · intro a ha htopic
    rw [topic] at htopic ⊢
    rcases List.mem_append.mp ha with ha | ha
    · obtain ⟨j, e, status', place', hpub, heq⟩ := he.stems a ha htopic
      exact ⟨j, e, status', place', (hpublished _ _ _ _).mpr (.inl hpub), heq⟩
    · exact ⟨n, d', status, place, (hpublished _ _ _ _).mpr (.inr ⟨rfl, rfl, outcome⟩),
        (grown.added a).mp ((hes a).mp ha)⟩
  · intro j j' e e' status₁ status₂ place' hpub hpub'
    rcases (hpublished _ _ _ _).mp hpub with hpub | ⟨rfl, rfl, heq⟩ <;>
      rcases (hpublished _ _ _ _).mp hpub' with hpub' | ⟨rfl, rfl, heq'⟩
    · exact he.distinct j j' e e' status₁ status₂ place' hpub hpub'
    · cases outcome.symm.trans heq'
      exact (hnotOld hpub).elim
    · cases outcome.symm.trans heq
      exact (hnotOld hpub').elim
    · rfl
  · have hcount := countP_set found unpublished d'
    have hd' : d'.isPublished = true := by rw [Dispatch.isPublished, outcome]
    rw [hd', if_pos rfl] at hcount
    rw [topic, total, hset, hcount, he.total, Nat.add_assoc]

/-- What is seen of a move besides the log tells nothing of the log. -/
theorem Effect.log_not_mem (heffect : Effect o es o') (r : RelayEvent) : .log r ∉ es := by
  cases heffect with
  | turn turned told => exact told.log r
  | accept turned told => exact told.log r
  | provide => exact fun hmem => by simp at hmem
  | _ => exact List.not_mem_nil

/-- Nothing happens to the records. -/
theorem Entries.rest (he : Entries l₀ o h) (topics : o'.log.topics = o.log.topics)
    (topic : o'.sender.topic = o.sender.topic)
    (timestamps : ∀ d ∈ o'.sender.dispatches,
      -(pow2 63 : ℤ) ≤ d.timestamp ∧ d.timestamp < (pow2 63 : ℤ))
    (published : ∀ n d status place,
      o'.Published n d status place ↔ o.Published n d status place)
    (count : o'.sender.dispatches.countP Dispatch.isPublished =
      o.sender.dispatches.countP Dispatch.isPublished)
    (hes : ∀ r, .log r ∉ es) :
    Entries l₀ o' (h ++ (es ++ (o.log.changes o'.log).map .log)) := by
  refine he.keep (he.numbered.of_topics topics) topic timestamps published count
    (Log.partitionAt_of_topics topics _) (Log.total_of_topics topics _) fun a ha => ?_
  rw [Log.changes_of_topics topics, List.map_nil, List.append_nil] at ha
  exact (hes _ ha).elim

/-- A dispatch goes on and is not published. -/
theorem Entries.set (he : Entries l₀ o h) (found : o.sender.dispatches[n]? = some d)
    (unpublished : d.isPublished = false) {phase : DispatchPhase}
    (unpublished' : Dispatch.isPublished { d with phase } = false) (hes : ∀ r, .log r ∉ es)
    (hset : o' = { o with sender := { o.sender with
      dispatches := o.sender.dispatches.set n { d with phase } } }) :
    Entries l₀ o' (h ++ (es ++ (o.log.changes o'.log).map .log)) := by
  subst hset
  refine he.rest rfl rfl (he.timestamps_set found rfl) (fun j e status place => ?_) ?_ hes
  · rw [published_set_iff found unpublished rfl]
    refine or_iff_left ?_
    rintro ⟨-, -, houtcome⟩
    rw [Dispatch.isPublished, houtcome] at unpublished'
    cases unpublished'
  · rw [countP_set found unpublished, unpublished']
    rfl

/-- Someone else appends a record to another topic. -/
theorem Entries.elsewhere (he : Entries l₀ o h) {topic key : String} {value : Bytes}
    (other : topic ≠ o.sender.topic) :
    Entries l₀ { o with log := (o.log.append topic key value).1 }
      (h ++ ([] ++ (o.log.changes (o.log.append topic key value).1).map .log)) := by
  have htotal := o.log.total_append_of_ne other key value
  have happended := he.numbered.appended topic key value
  generalize o.log.append topic key value = e at htotal happended ⊢
  obtain ⟨l', place⟩ := e
  rcases happended.grown? he.numbered with ⟨rfl, -⟩ | hgrown
  · exact he.rest rfl rfl he.timestamps (published_of_dispatches rfl) rfl nofun
  · refine he.keep hgrown.numbered rfl he.timestamps (published_of_dispatches rfl) rfl
      (fun i => ?_) htotal fun a ha => ?_
    · refine hgrown.elsewhere _ _ fun heq => ?_
      exact other (Prod.mk.inj heq).1.symm
    · rw [log_mem_events (fun _ => List.not_mem_nil), hgrown.added] at ha
      rw [ha]
      exact other

/-- The event of a dispatch is appended. -/
theorem Entries.publish (he : Entries l₀ o h) {due : ℕ}
    (found : o.sender.dispatches[n]? = some d) (phase : d.phase = .delivering due (some status))
    (known : o.log.find? o.sender.topic ≠ none) :
    Entries l₀ (o.publish n d status)
      (h ++ ([] ++ (o.log.changes (o.publish n d status).log).map .log)) := by
  have htotal := Log.total_append he.numbered known d.request.phone (d.event status).encode
  have happended := he.numbered.appended o.sender.topic d.request.phone (d.event status).encode
  rw [Office.publish]
  generalize o.log.append o.sender.topic d.request.phone (d.event status).encode = e
    at htotal happended ⊢
  obtain ⟨l', place⟩ := e
  rcases happended.grown? he.numbered with ⟨-, hmissing⟩ | hgrown
  · exact (known hmissing).elim
  · exact he.grow found (isPublished_of_phase phase) rfl rfl rfl rfl hgrown htotal fun a =>
      log_mem_events (fun _ => List.not_mem_nil) _ _

/-- **What has been appended.** -/
theorem Entries.effect (he : Entries l₀ o h) (heffect : Effect o es o') :
    Entries l₀ o' (h ++ (es ++ (o.log.changes o'.log).map .log)) := by
  have hes := heffect.log_not_mem
  cases heffect with
  | quiet topics topic dispatches =>
    exact he.rest topics topic (dispatches ▸ he.timestamps) (published_of_dispatches dispatches)
      (congrArg _ dispatches) hes
  | turn | look => exact he.rest rfl rfl he.timestamps (published_of_dispatches rfl) rfl hes
  | @accept k d calls es turned told fresh timestamp =>
    refine he.rest rfl rfl (fun e hmem => ?_) (fun n e status place => ?_) ?_ hes
    · rcases List.mem_append.mp hmem with hmem | hmem
      · exact he.timestamps e hmem
      · rw [List.mem_singleton.mp hmem]
        exact timestamp
    · constructor <;> rintro ⟨hfound, houtcome⟩
      · rcases getElem?_concat_eq_some_iff.mp hfound with hfound | ⟨-, rfl⟩
        · exact ⟨hfound, houtcome⟩
        · rw [Dispatch.outcome?, fresh] at houtcome
          cases houtcome
      · exact ⟨getElem?_concat_eq_some_iff.mpr (.inl hfound), houtcome⟩
    · show (o.sender.dispatches ++ [d]).countP Dispatch.isPublished = _
      rw [List.countP_append, List.countP_singleton, isPublished_of_fresh fresh]
      rfl
  | provide found fresh => exact he.set found (isPublished_of_fresh fresh) rfl hes rfl
  | @fail n d due verdict outcome found phase unposted follows quiet =>
    refine he.set found (isPublished_of_phase phase) ?_ hes rfl
    cases outcome with
    | published status place => exact (quiet status place rfl).elim
    | publishFailed => rfl
  | @elsewhere topic key value other => exact he.elsewhere other
  | publish found phase known => exact he.publish found phase known

end Office

/-! ### Runs -/

namespace OfficeRun

variable {o₀ o : Office} {h : List OfficeEvent}

theorem answers (run : OfficeRun o₀ o h) : o.Answers h := by
  induction run with
  | start fresh =>
    have hheads : o₀.heads = [] := by rw [Office.heads, fresh.dispatches, List.map_nil]
    constructor <;> simp [fresh.calls, hheads]
  | move run moved ih =>
    rw [Office.events, ← List.append_assoc]
    exact (ih.effect (Office.effect_of_move? run.orderly moved)).keep rfl rfl (by simp) (by simp)

theorem provisions (run : OfficeRun o₀ o h) : o.Provisions h := by
  induction run with
  | start fresh =>
    refine ⟨fun n d hfound => ?_, fun n _ => rfl⟩
    rw [fresh.dispatches] at hfound
    cases hfound
  | move run moved ih =>
    rw [Office.events, ← List.append_assoc]
    exact (ih.effect (Office.effect_of_move? run.orderly moved)).keep rfl (by simp)

theorem entries (run : OfficeRun o₀ o h) : Office.Entries o₀.log o h := by
  induction run with
  | start fresh =>
    have hnone : ∀ n d status place, ¬ o₀.Published n d status place := by
      rintro n d status place ⟨hfound, -⟩
      rw [fresh.dispatches] at hfound
      cases hfound
    refine ⟨fresh.numbered, ?_, ?_, ?_, nofun, ?_, ?_⟩
    · rw [fresh.dispatches]
      exact fun d hd => absurd hd List.not_mem_nil
    · exact fun n d status place hpub => (hnone n d status place hpub).elim
    · exact fun n d status place hpub => (hnone n d status place hpub).elim
    · exact fun n n' d d' status status' place hpub => (hnone n d status place hpub).elim
    · rw [fresh.dispatches, List.countP_nil, Nat.add_zero]
  | move run moved ih => exact ih.effect (Office.effect_of_move? run.orderly moved)

end OfficeRun

namespace Office

/-- The record has been appended to the topic of the sender. -/
def Took (o : Office) (h : List OfficeEvent) (a : Record) : Prop :=
  .log (.appended a) ∈ h ∧ a.topic = o.sender.topic

/-- Requests that have been accepted since the log was `l₀` and records that have been appended
correspond one to one. -/
structure Corresponds (l₀ : Log) (o : Office) (h : List OfficeEvent) : Prop where
  /-- A call that has been refused has no dispatch. -/
  refused : ∀ (k : ℕ) e, .answered k (.error e) ∈ h → ∃ q, o.calls[k]? = some ⟨q, .refused e⟩
  /-- A call whose phone number was blocked has been refused for it. -/
  blocked : ∀ k : ℕ, .asked k (.ok true) ∈ h →
    ∃ q : SendRequest, o.calls[k]? = some ⟨q, .refused (.blocked q.phone)⟩
  /-- A call that has been accepted has a dispatch. -/
  accepted : ∀ (k : ℕ) reply, .answered k (.ok reply) ∈ h →
    ∃ n d, o.sender.dispatches[n]? = some d ∧ d.reply = reply ∧
      o.calls[k]? = some ⟨d.request, .accepted reply n⟩
  /-- A dispatch belongs to one call, which has been answered. -/
  dispatched : ∀ (n : ℕ) d, o.sender.dispatches[n]? = some d →
    ∃! k : ℕ, o.calls[k]? = some ⟨d.request, .accepted d.reply n⟩
  /-- A record comes from a call that has been answered. -/
  recorded : ∀ a, o.Took h a → ∃ (k : ℕ) (q : SendRequest) (reply : SendReply) (n : ℕ)
    (status : DeliveryStatus), o.calls[k]? = some ⟨q, .accepted reply n⟩ ∧
      a.Reports q reply status ∧ o.outcome? n = some (.published status ⟨a.partition, a.offset⟩)
  /-- The provider is called once at most, and once before there is an outcome. -/
  provided : ∀ (k : ℕ) q reply n, o.calls[k]? = some ⟨q, .accepted reply n⟩ →
    (provisions h n = [] ∧ o.outcome? n = none) ∨
      ∃ verdict, provisions h n = [(q.phone, q.message, verdict)] ∧
        ∀ outcome, o.outcome? n = some outcome → outcome.Follows verdict
  /-- The provider is called for dispatches only. -/
  unprovided : ∀ n : ℕ, o.sender.dispatches[n]? = none → provisions h n = []
  /-- An outcome names the place of the record that reports of the request. -/
  published : ∀ (k : ℕ) q reply n, o.calls[k]? = some ⟨q, .accepted reply n⟩ →
    ∀ status place, o.outcome? n = some (.published status place) ↔
      ∃ a, o.Took h a ∧ a.partition = place.partition ∧ a.offset = place.offset ∧
        a.Reports q reply status
  /-- No two records report of a request. -/
  single : ∀ (k : ℕ) q reply n, o.calls[k]? = some ⟨q, .accepted reply n⟩ →
    ∀ a a' status status', o.Took h a → o.Took h a' → a.Reports q reply status →
      a'.Reports q reply status' → a = a'
  /-- No two dispatches end with the same place. -/
  distinct : ∀ n n' status status' place, o.outcome? n = some (.published status place) →
    o.outcome? n' = some (.published status' place) → n = n'
  /-- As many records have been appended as dispatches have been published. -/
  total : o.log.total o.sender.topic =
    l₀.total o.sender.topic + o.sender.dispatches.countP Dispatch.isPublished

variable {l₀ : Log} {o : Office} {h : List OfficeEvent} {n k : ℕ} {q : SendRequest}
  {reply : SendReply} {status : DeliveryStatus} {place : Placement} {d : Dispatch} {a : Record}

theorem outcome?_eq_some_iff {outcome : DispatchOutcome} : o.outcome? n = some outcome ↔
    ∃ d, o.sender.dispatches[n]? = some d ∧ d.outcome? = some outcome :=
  Option.bind_eq_some_iff

theorem outcome?_eq_published_iff : o.outcome? n = some (.published status place) ↔
    ∃ d, o.Published n d status place := by
  rw [outcome?_eq_some_iff]
  refine exists_congr fun d => ?_
  exact ⟨fun hand => ⟨hand.1, hand.2⟩, fun hpub => ⟨hpub.found, hpub.outcome⟩⟩

/-- The dispatch of a call. -/
theorem Answers.dispatch (ha : o.Answers h) (hk : o.calls[k]? = some ⟨q, .accepted reply n⟩) :
    ∃ d, o.sender.dispatches[n]? = some d ∧ d.request = q ∧ d.reply = reply := by
  have hhead := (ha.started n q reply).mpr ⟨k, hk⟩
  rw [heads, List.getElem?_map, Option.map_eq_some_iff] at hhead
  obtain ⟨d, hfound, heq⟩ := hhead
  exact ⟨d, hfound, (Prod.mk.inj heq).1, (Prod.mk.inj heq).2⟩

/-- The call of a dispatch. -/
theorem Answers.call (ha : o.Answers h) (hfound : o.sender.dispatches[n]? = some d) :
    ∃ k : ℕ, o.calls[k]? = some ⟨d.request, .accepted d.reply n⟩ := by
  refine (ha.started n d.request d.reply).mp ?_
  rw [heads, List.getElem?_map, hfound]
  rfl

theorem Entries.took (he : Entries l₀ o h) (hpub : o.Published n d status place) :
    o.Took h (d.record o.sender.topic status place) ∧
      (d.record o.sender.topic status place).Reports d.request d.reply status :=
  ⟨⟨he.appended n d status place hpub, rfl⟩,
    Dispatch.reports_record (he.timestamps d (List.mem_of_getElem? hpub.found)) _ _ _⟩

/-- **A record that reports of a request** comes from its dispatch, if correlation ids do not come
twice. -/
theorem Entries.of_reports (he : Entries l₀ o h)
    (hids : (o.sender.dispatches.map (·.correlationId)).Nodup)
    (hfound : o.sender.dispatches[n]? = some d) (htook : o.Took h a)
    (hreports : a.Reports d.request d.reply status) :
    ∃ place, o.Published n d status place ∧ a = d.record o.sender.topic status place := by
  obtain ⟨n', d', status', place, hpub, rfl⟩ := he.stems a htook.1 htook.2
  have hreports' := (he.took hpub).2
  have hevent := Except.ok.inj (hreports.event.symm.trans hreports'.event)
  obtain ⟨hid, -, -, hstatus, -⟩ := Event.mk.inj hevent
  have hlt : n < (o.sender.dispatches.map (·.correlationId)).length := by
    rw [List.length_map]
    exact (List.getElem?_eq_some_iff.mp hfound).1
  have hn : n = n' := by
    refine (List.getElem?_inj hlt hids).mp ?_
    rw [List.getElem?_map, List.getElem?_map, hfound, hpub.found]
    exact congrArg some hid
  subst hn
  cases hfound.symm.trans hpub.found
  cases DeliveryStatus.name_injective hstatus
  exact ⟨place, hpub, rfl⟩

end Office

/-- **Accepted requests and records correspond one to one.** -/
theorem OfficeRun.corresponds {o₀ o : Office} {h : List OfficeEvent} (run : OfficeRun o₀ o h)
    (ids : (o.sender.dispatches.map (·.correlationId)).Nodup) : o.Corresponds o₀.log h where
  refused k e hk := by
    obtain ⟨c, hfound, hanswer⟩ := (run.answers.answered k _).mp hk
    exact ⟨c.request, by rw [hfound, ← SendCall.answer?_eq_error_iff.mp hanswer]⟩
  blocked := run.answers.blocked
  accepted k reply hk := by
    obtain ⟨c, hfound, hanswer⟩ := (run.answers.answered k _).mp hk
    obtain ⟨n, hstage⟩ := SendCall.answer?_eq_ok_iff.mp hanswer
    have hcall : o.calls[k]? = some ⟨c.request, .accepted reply n⟩ := by rw [hfound, ← hstage]
    obtain ⟨d, hd, hrequest, hreply⟩ := run.answers.dispatch hcall
    exact ⟨n, d, hd, hreply, hrequest ▸ hcall⟩
  dispatched n d hd := by
    obtain ⟨k, hk⟩ := run.answers.call hd
    exact ⟨k, hk, fun k' hk' => run.answers.once k' k _ _ _ _ n hk' hk⟩
  recorded a htook := by
    obtain ⟨n, d, status, place, hpub, rfl⟩ := run.entries.stems a htook.1 htook.2
    obtain ⟨k, hk⟩ := run.answers.call hpub.found
    exact ⟨k, d.request, d.reply, n, status, hk, (run.entries.took hpub).2,
      Office.outcome?_eq_published_iff.mpr ⟨d, hpub⟩⟩
  provided k q reply n hk := by
    obtain ⟨d, hd, rfl, -⟩ := run.answers.dispatch hk
    have houtcome : o.outcome? n = d.outcome? := by rw [Office.outcome?, hd, Option.bind_some]
    rw [houtcome]
    exact (run.provisions.known n d hd).outcome?
  unprovided := run.provisions.unknown
  published k q reply n hk status place := by
    obtain ⟨d, hd, rfl, rfl⟩ := run.answers.dispatch hk
    rw [Office.outcome?_eq_published_iff]
    constructor
    · rintro ⟨d', hpub⟩
      cases hd.symm.trans hpub.found
      obtain ⟨htook, hreports⟩ := run.entries.took hpub
      exact ⟨_, htook, rfl, rfl, hreports⟩
    · rintro ⟨a, htook, hpartition, hoffset, hreports⟩
      obtain ⟨place', hpub, rfl⟩ := run.entries.of_reports ids hd htook hreports
      obtain rfl : place' = place := congrArg₂ Placement.mk hpartition hoffset
      exact ⟨d, hpub⟩
  single k q reply n hk a a' status status' htook htook' hreports hreports' := by
    obtain ⟨d, hd, rfl, rfl⟩ := run.answers.dispatch hk
    obtain ⟨place, hpub, rfl⟩ := run.entries.of_reports ids hd htook hreports
    obtain ⟨place', hpub', rfl⟩ := run.entries.of_reports ids hd htook' hreports'
    cases hpub.outcome.symm.trans hpub'.outcome
    rfl
  distinct n n' status status' place hn hn' := by
    obtain ⟨d, hpub⟩ := Office.outcome?_eq_published_iff.mp hn
    obtain ⟨d', hpub'⟩ := Office.outcome?_eq_published_iff.mp hn'
    exact run.entries.distinct n n' d d' status status' place hpub hpub'
  total := run.entries.total

namespace Office.Sample

/-- A topic with one partition, and a provider that takes five milliseconds. -/
def office : Office where
  log := { retention := 1, topics := [Topic.create "t" 1 1] }
  sender := { topic := "t", provider := fun _ _ => ⟨5, some .success⟩ }

theorem fresh_office : office.Fresh := by
  refine ⟨⟨List.nodup_singleton _, fun t ht => ?_⟩, rfl, rfl, rfl⟩
  rw [List.mem_singleton.mp ht]
  exact Topic.numbered_create "t" Nat.one_pos 1

/-- Two requests are accepted, the later one first. A third one is refused because its number has
been blocked meanwhile, a fourth one at once. One event is appended while another waits for the
partition, which is appended after the log has been shut. -/
def overtaking : List OfficeMove :=
  [.call ⟨"0000000001", "hello"⟩, .call ⟨"0000000001", "again"⟩, .call ⟨"0000000002", "hello"⟩,
    .call ⟨"2", "hello"⟩, .decide 1 "a" 7, .decide 0 "b" 8, .block "0000000002", .decide 2 "c" 9,
    .step 0, .step 1, .elapse 5, .look 0, .step 1, .shutLog, .land 0]

end Office.Sample

open Office.Sample in
theorem OfficeRun.corresponds_overtaking : ∃ o h, OfficeRun office o h ∧
    (o.sender.dispatches.map (·.correlationId)).Nodup ∧
      o.outcome? 0 = some (.published .success ⟨0, 1⟩) ∧
      o.outcome? 1 = some (.published .success ⟨0, 0⟩) ∧
      .answered 2 (.error (.blocked "0000000002")) ∈ h ∧ o.log.closed ∧
      o.Corresponds office.log h := by
  obtain ⟨o, h, run, hids, hfirst, hsecond, hblocked, hclosed⟩ :=
    exists_of_recording Office.move? Office.events (OfficeRun _) office overtaking
      (fun _ => OfficeRun.move) (.start fresh_office) (fun o h =>
      (o.sender.dispatches.map (·.correlationId)).Nodup ∧
        o.outcome? 0 = some (.published .success ⟨0, 1⟩) ∧
        o.outcome? 1 = some (.published .success ⟨0, 0⟩) ∧
        .answered 2 (.error (.blocked "0000000002")) ∈ h ∧ o.log.closed) (by decide +kernel)
  exact ⟨o, h, run, hids, hfirst, hsecond, hblocked, hclosed, run.corresponds hids⟩

end SmsRelay
