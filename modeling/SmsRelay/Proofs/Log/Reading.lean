import SmsRelay.Proofs.Log.Contents
import SmsRelay.Proofs.Log.Fencing

/-!
# Reading under claims

A reader begins where its claim says and reads on from there: each record once, in the order of
offsets, and none is left out unless retention has taken it away. When it waits, there is nothing to
read.

## Implementation notes

A claim could begin beyond the watermark if offsets were marked that nobody has read. So runs are
considered in which only what calls have returned is marked; `marksReturned` says so.

## Main results

* `Reader.Reads.step`: what a step of a reader keeps.
* `Readership.Run.reading`: what a whole run keeps.
* `Readership.Run.claims_served`: starts, deliveries and waiting along a run.
-/

namespace SmsRelay

/-! ### Reading from a partition -/

namespace Partition

variable {p : Partition} {topic : String} {position position' : ℕ}

/-- What is read is the first record kept at or after the position. -/
theorem Numbered.of_readAt (hp : p.Numbered topic) {a : Record}
    (hread : p.readAt position = (some a, position')) : a ∈ p.records ∧ a.topic = topic ∧
      a.partition = p.id ∧ a.offset = max position p.base ∧ position' = a.offset + 1 ∧
      position' ≤ p.watermark := by
  rw [readAt] at hread
  cases ha : p.records[max position p.base - p.base]? with
  | none => simp [ha] at hread
  | some a' =>
    simp only [ha, Prod.mk.injEq, Option.some.injEq] at hread
    obtain ⟨rfl, rfl⟩ := hread
    obtain ⟨htopic, hpartition, hoffset⟩ := hp.records _ _ ha
    have hmem := List.mem_of_getElem? ha
    have hbounds := hp.bounds hmem
    refine ⟨hmem, htopic, hpartition, by omega, by omega, by omega⟩

/-- Nothing is read when the position, or the base, is at the watermark. -/
theorem Numbered.of_readAt_none (hp : p.Numbered topic)
    (hread : p.readAt position = (none, position')) :
    position' = max position p.base ∧ p.watermark ≤ position' := by
  rw [readAt] at hread
  cases ha : p.records[max position p.base - p.base]? with
  | some a => simp [ha] at hread
  | none =>
    simp only [ha, Prod.mk.injEq, true_and] at hread
    have hlength := List.getElem?_eq_none_iff.mp ha
    have hwatermark := hp.watermark
    exact ⟨hread.symm, by omega⟩

/-- The place that is looked up does not lie before the first record, nor after the next one. -/
theorem Numbered.readAt_eq (hp : p.Numbered topic) (hle : position ≤ p.watermark) :
    ∃ k ≤ p.records.length, max position p.base = p.base + k ∧
      p.readAt position = (p.records[k]?, p.base + k + (p.records[k]?).toList.length) := by
  have hwatermark := hp.watermark
  have hmax : max position p.base = p.base + (max position p.base - p.base) := by omega
  refine ⟨max position p.base - p.base, by omega, hmax, ?_⟩
  rw [readAt, ← hmax]
  cases p.records[max position p.base - p.base]? <;> rfl

end Partition

/-! ### What a reader has been given -/

namespace LogEvent

/-- The record that a call of a reader has given. -/
def delivery? (i : ℕ) : LogEvent → Option Record
  | returned j (some a) => if j = i then some a else none
  | _ => none

end LogEvent

/-- The records that the calls of a reader have given, oldest first. -/
def delivered (h : List LogEvent) (i : ℕ) : List Record := h.filterMap (·.delivery? i)

theorem delivered_append (h h' : List LogEvent) (i : ℕ) :
    delivered (h ++ h') i = delivered h i ++ delivered h' i :=
  List.filterMap_append

theorem mem_delivered {h : List LogEvent} {i : ℕ} {a : Record} :
    a ∈ delivered h i ↔ .returned i (some a) ∈ h := by
  refine List.mem_filterMap.trans ⟨?_, fun ha => ⟨_, ha, if_pos rfl⟩⟩
  rintro ⟨e, he, ha⟩
  rcases e with _ | _ | _ | ⟨j, _ | b⟩
  case returned.some =>
    simp only [LogEvent.delivery?] at ha
    split at ha
    · rename_i hj
      cases ha
      exact hj ▸ he
    · cases ha
  all_goals cases ha

theorem delivered_of_not_mem {h : List LogEvent} {i : ℕ} (hh : ∀ a, .returned i (some a) ∉ h) :
    delivered h i = [] :=
  List.eq_nil_iff_forall_not_mem.mpr fun a ha => hh a (mem_delivered.mp ha)

theorem delivered_returned (i : ℕ) (a : Option (Option Record)) :
    delivered (a.map (.returned i)).toList i = a.join.toList := by
  rcases a with _ | _ | a <;> simp [delivered, LogEvent.delivery?]

/-- What a reader of a partition has been given, and where it stands. -/
structure Reader.Reads (x : Reader) (p : Partition) (given : List Record) : Prop where
  start : x.claim.position ≤ x.position
  bound : x.position ≤ p.watermark
  noted : ∀ seen, x.stage = .noted seen → seen ≤ p.watermark
  /-- It has read up to the watermark that it noted. -/
  suspended : ∀ seen, x.stage = .suspended seen → seen ≤ x.position
  within : ∀ a ∈ given, a.topic = x.claim.topic ∧ a.partition = x.claim.partition ∧
    x.claim.position ≤ a.offset ∧ a.offset < x.position
  order : given.Pairwise (·.offset < ·.offset)
  complete : ∀ o, x.claim.position ≤ o → o < x.position → (∃ a ∈ given, a.offset = o) ∨ o < p.base

namespace Reader

variable {x x' : Reader} {p p' : Partition} {l : Log} {m : ReaderMove} {given : List Record}

/-- A reader has been given nothing at the beginning. -/
theorem reads_create {c : Claim} (hc : c.position ≤ p.watermark) : (create c).Reads p [] where
  start := Nat.le_refl _
  bound := hc
  noted := nofun
  suspended := nofun
  within := nofun
  order := List.Pairwise.nil
  complete _ hle hlt := absurd hlt (Nat.not_lt_of_le hle)

/-- A partition grows. -/
theorem Reads.grow (hx : x.Reads p given) (hbase : p.base ≤ p'.base)
    (hwatermark : p.watermark ≤ p'.watermark) : x.Reads p' given where
  start := hx.start
  bound := hx.bound.trans hwatermark
  noted seen hstage := (hx.noted seen hstage).trans hwatermark
  suspended := hx.suspended
  within := hx.within
  order := hx.order
  complete o hle hlt := (hx.complete o hle hlt).imp_right (·.trans_le hbase)

/-- A step that reads nothing. -/
theorem Reads.restage {stage : ReadStage} (hx : x.Reads p given)
    (hnoted : ∀ seen, stage = .noted seen → seen ≤ p.watermark)
    (hsuspended : ∀ seen, stage = .suspended seen → seen ≤ x.position) :
    Reads { x with stage := stage } p given :=
  ⟨hx.start, hx.bound, hnoted, hsuspended, hx.within, hx.order, hx.complete⟩

/-- Offsets that are passed over have been trimmed. -/
theorem Reads.complete_max (hx : x.Reads p given) {o : ℕ} (hle : x.claim.position ≤ o)
    (hlt : o < max x.position p.base) : (∃ a ∈ given, a.offset = o) ∨ o < p.base := by
  rcases Nat.lt_or_ge o x.position with ho | ho
  · exact hx.complete o hle ho
  · exact .inr (by omega)

/-- **A step** of a reader. -/
theorem Reads.step (hx : x.Reads p given) (hp : p.Numbered x.claim.topic)
    (hid : p.id = x.claim.partition) (hplace : x.partition? l = some p)
    {a : Option (Option Record)} (heffect : x.Effect l m x' a) :
    x'.Reads p (given ++ a.join.toList) := by
  have hstart := hx.start
  cases heffect with
  | call | refuse | check | wake | heed | abandon =>
    rw [show Option.join _ = none from rfl, Option.toList_none, List.append_nil]
    exact hx.restage nofun nofun
  | note _ place =>
    obtain rfl := Option.some.inj (place.symm.trans hplace)
    rw [show Option.join _ = none from rfl, Option.toList_none, List.append_nil]
    refine hx.restage (fun seen hseen => ?_) nofun
    cases hseen
    exact Nat.le_refl _
  | @read seen position p' b _ place found =>
    obtain rfl := Option.some.inj (place.symm.trans hplace)
    obtain ⟨-, htopic, hpartition, hoffset, rfl, hbound⟩ := hp.of_readAt found
    refine ⟨by simp only; omega, hbound, nofun, nofun, fun c hc => ?_, ?_, fun o hle hlt => ?_⟩
    · rcases List.mem_append.mp hc with hc | hc
      · obtain ⟨hctopic, hcpartition, hcstart, hcbound⟩ := hx.within c hc
        exact ⟨hctopic, hcpartition, hcstart, by simp only; omega⟩
      · obtain rfl := List.mem_singleton.mp hc
        exact ⟨htopic, hpartition.trans hid, by simp only; omega, Nat.lt_succ_self _⟩
    · refine List.pairwise_append.mpr ⟨hx.order, List.pairwise_singleton _ _, fun c hc b' hb' => ?_⟩
      obtain rfl := List.mem_singleton.mp hb'
      have := (hx.within c hc).2.2.2
      omega
    · rcases Nat.lt_or_ge o b.offset with ho | ho
      · refine (hx.complete_max hle (hoffset ▸ ho)).imp_left ?_
        exact fun ⟨c, hc, hco⟩ => ⟨c, List.mem_append_left _ hc, hco⟩
      · exact .inl ⟨b, List.mem_append_right _ (List.mem_singleton_self _),
          Nat.le_antisymm ho (Nat.lt_succ_iff.mp hlt)⟩
  | @suspend seen position p' stage place nothing =>
    obtain rfl := Option.some.inj (place.symm.trans hplace)
    -- There was nothing to read up to the present watermark, and the noted one is not beyond it. So
    -- whatever is appended from now on changes the watermark from the one that is waited on.
    obtain ⟨rfl, hwatermark⟩ := hp.of_readAt_none nothing
    have hnoted := hx.noted seen stage
    have hbound := hx.bound
    have hnumbered := hp.watermark
    rw [show Option.join _ = none from rfl, Option.toList_none, List.append_nil]
    refine ⟨by simp only; omega, by simp only; omega, nofun, fun seen' hseen => ?_,
      fun c hc => ?_, hx.order, fun o hle hlt => hx.complete_max hle hlt⟩
    · cases hseen
      exact hnoted.trans hwatermark
    · obtain ⟨hctopic, hcpartition, hcstart, hcbound⟩ := hx.within c hc
      exact ⟨hctopic, hcpartition, hcstart, by simp only; omega⟩

/-- **Who can make no step** waits at the watermark, under a claim that has not ended. -/
theorem Reads.waiting (hx : x.Reads p given) (hplace : x.partition? l = some p)
    (hstuck : ∀ m ≠ .abandon, x.step? l m = none) :
    (∃ seen, x.stage = .suspended seen) ∧ x.position = p.watermark ∧
      l.hasEnded x.claim = false := by
  cases hstage : x.stage with
  | resting => simpa [step?, hstage] using hstuck .call nofun
  | asked =>
    have hcheck := hstuck .check nofun
    unfold step? at hcheck
    simp only [hstage] at hcheck
    split at hcheck <;> cases hcheck
  | checked => simpa [step?, hstage, hplace] using hstuck .note nofun
  | noted seen => simpa [step?, hstage, hplace] using hstuck .read nofun
  | suspended seen =>
    have hwake : p.watermark = seen := by
      simpa [step?, hstage, hplace] using hstuck .wake nofun
    have hheed : l.hasEnded x.claim = false := by
      simpa [step?, hstage] using hstuck .heed nofun
    have hseen := hx.suspended seen hstage
    exact ⟨⟨seen, rfl⟩, Nat.le_antisymm hx.bound (hwake ▸ hseen), hheed⟩

end Reader

/-! ### Offsets that have been given out -/

/-- The partition has given out the offset. -/
def Log.Given (l : Log) : OffsetProperty := fun _ topic i o =>
  ∃ p, l.partitionAt topic i = some p ∧ o < p.watermark

theorem Log.Grows.given {l l' : Log} (hl : l.Grows l') {group topic : String} {i o : ℕ}
    (ho : l.Given group topic i o) : l'.Given group topic i o := by
  obtain ⟨p, hp, ho⟩ := ho
  obtain ⟨p', hp', -, hwatermark⟩ := hl topic i p hp
  exact ⟨p', hp', ho.trans_le hwatermark⟩

/-- Offsets are given out below the watermark. -/
theorem Log.le_watermark {l : Log} {group topic : String} {i n : ℕ} {p : Partition}
    (hp : l.partitionAt topic i = some p) (hn : ∀ o < n, l.Given group topic i o) :
    n ≤ p.watermark := by
  by_contra hlt
  obtain ⟨p', hp', ho⟩ := hn p.watermark (Nat.lt_of_not_le hlt)
  obtain rfl := Option.some.inj (hp.symm.trans hp')
  exact Nat.lt_irrefl _ ho

namespace Group

variable {Q : OffsetProperty} {g g' : Group} {m : GroupMove}

/-- **One move** of a group. -/
theorem SettledBelow.move (hg : g.SettledBelow Q) (moved : g.move? m = some g')
    (hbases : ∀ bases, (m = .join bases ∨ ∃ number, m = .leave bases number) →
      BasesSettled Q g.name g.topic bases)
    (hcommit : ∀ partition generation offset, m = .commit partition generation offset →
      ∀ o ≤ offset, Q g.name g.topic partition o) : g'.SettledBelow Q := by
  cases m with
  | join bases =>
    rw [move?] at moved
    split at moved
    · rename_i number g₁ hjoin
      cases moved
      exact (hg.join (hbases bases (.inl rfl)) hjoin).1
    · cases moved
      exact hg
  | leave bases number =>
    cases moved
    exact hg.leave (hbases bases (.inr ⟨number, rfl⟩)) number
  | drop number =>
    cases moved
    exact hg.drop number
  | ask number =>
    rw [move?] at moved
    split at moved
    · cases moved
      exact (hg.nextEvent rfl).1
    · cases moved
  | commit partition generation offset =>
    cases moved
    exact hg.commit (hcommit _ _ _ rfl)
  | close =>
    cases moved
    exact hg.close

/-- The claims that a move grants to be read. -/
theorem SettledBelow.claims (hg : g.SettledBelow Q) :
    ∀ c ∈ (g.events m g').flatMap GroupEvent.claims, c.SettledBelow Q := by
  intro c hc
  rw [claims_events] at hc
  cases m with
  | ask number =>
    simp only at hc
    cases hnext : (g.nextEvent number).1 with
    | none =>
      rw [hnext] at hc
      cases hc
    | some e =>
      rw [hnext] at hc
      obtain ⟨-, -, -, hclaims⟩ := hg.nextEvent (Prod.ext hnext rfl)
      exact hclaims e rfl c hc
  | join | leave | drop | commit | close => cases hc

end Group

/-! ### Runs -/

namespace LogEvent

/-- A call has returned the record that a mark on behalf of a claim is about. -/
def isReturn (c : Claim) (o : ℕ) : LogEvent → Bool
  | returned _ (some a) => a.topic = c.topic && a.partition = c.partition && a.offset = o
  | _ => false

end LogEvent

namespace Readership

/-- Only what the call of some reader has returned is marked. -/
def marksReturned (r : Readership) (h : List LogEvent) : LogMove → Bool
  | .mark i o => (r.readers[i]?).all fun x => h.any (·.isReturn x.claim o)
  | _ => true

variable {allowed : Readership → List LogEvent → LogMove → Prop} {retention : ℕ}
  {r r' : Readership} {h : List LogEvent} {m : LogMove} {es : List LogEvent}

/-- Readers have read what they were given, and nothing is committed beyond a watermark. -/
structure Reading (r : Readership) (h : List LogEvent) : Prop where
  groups : ∀ group topic g, r.log.group? group topic = some g → g.SettledBelow r.log.Given
  readers : ∀ (i : ℕ) (x : Reader), r.readers[i]? = some x →
    ∃ p, x.partition? r.log = some p ∧ x.Reads p (delivered h i)
  unread : ∀ i, r.readers[i]? = none → delivered h i = []

/-- The bases of a topic. -/
theorem bases_getD {topic : String} {i : ℕ} {p : Partition}
    (hp : r.log.partitionAt topic i = some p) : (r.log.bases topic).getD i 0 = p.base := by
  obtain ⟨t, ht, hp⟩ := Option.bind_eq_some_iff.mp hp
  rw [Log.bases, ht]
  simp [List.getD_eq_getElem?_getD, hp]

/-- Bases are not beyond watermarks. -/
theorem basesSettled (hn : r.log.Numbered) (group topic : String) :
    BasesSettled r.log.Given group topic (r.log.bases topic) := by
  intro i o ho
  cases hp : r.log.partitionAt topic i with
  | some p =>
    rw [bases_getD hp] at ho
    refine ⟨p, hp, ?_⟩
    rw [(hn.of_partitionAt hp).1.watermark]
    omega
  | none =>
    have hnone : (r.log.bases topic)[i]? = none := by
      rw [Log.bases]
      rw [Log.partitionAt] at hp
      cases ht : r.log.find? topic with
      | none => rfl
      | some t => simpa [ht] using hp
    simp [List.getD_eq_getElem?_getD, hnone] at ho

/-- The group that is about to make a move. -/
theorem Reading.seat (hr : r.Reading h) {group topic : String} {g : Group}
    (hg : r.log.seat? group topic = some g) :
    g.SettledBelow r.log.Given ∧ g.name = group ∧ g.topic = topic := by
  rw [Log.seat?] at hg
  cases hgroup : r.log.group? group topic with
  | some g₀ =>
    rw [hgroup, Option.some_or] at hg
    cases hg
    exact ⟨hr.groups group topic g hgroup, (Log.mem_of_group? hgroup).2⟩
  | none =>
    rw [hgroup, Option.none_or] at hg
    obtain ⟨t, ht, rfl⟩ := Option.map_eq_some_iff.mp hg
    exact ⟨Log.settledBelow_create group t, rfl, Log.name_of_find? ht⟩

/-- Nothing is committed beyond the watermark. -/
theorem Reading.committed_le (hr : r.Reading h) {group topic : String} {g : Group}
    (hg : r.log.seat? group topic = some g) {i : ℕ} {p : Partition}
    (hp : r.log.partitionAt topic i = some p) : g.committed.getD i 0 ≤ p.watermark := by
  obtain ⟨hsettled, -, rfl⟩ := hr.seat hg
  exact Log.le_watermark hp (hsettled.committed i)

/-- What has been returned has been given out. -/
theorem Reading.given (hr : r.Reading h) {j : ℕ} {a : Record} (ha : a ∈ delivered h j)
    (group : String) : r.log.Given group a.topic a.partition a.offset := by
  cases hx : r.readers[j]? with
  | none =>
    rw [hr.unread j hx] at ha
    cases ha
  | some x =>
    obtain ⟨p, hp, hreads⟩ := hr.readers j x hx
    obtain ⟨htopic, hpartition, -, hlt⟩ := hreads.within a ha
    rw [htopic, hpartition]
    exact ⟨p, hp, hlt.trans_le hreads.bound⟩

/-- A change of members begins with the bases of the topic. -/
theorem bases_of_groupMove? {group topic : String} {m' : GroupMove}
    (concerns : r.groupMove? m = some (group, topic, m')) {bases : List ℕ}
    (hm' : m' = .join bases ∨ ∃ number, m' = .leave bases number) : bases = r.log.bases topic := by
  rcases hm' with rfl | ⟨number, rfl⟩
  · cases m <;> simp [groupMove?] at concerns
    obtain ⟨-, rfl, rfl⟩ := concerns
    rfl
  · cases m <;> simp [groupMove?] at concerns
    obtain ⟨-, rfl, rfl, -⟩ := concerns
    rfl

/-- What is marked has been returned. -/
theorem returned_of_marksReturned {i o : ℕ} (hmarked : marksReturned r h (.mark i o)) {x : Reader}
    (hx : r.readers[i]? = some x) : ∃ j a, .returned j (some a) ∈ h ∧ a.topic = x.claim.topic ∧
      a.partition = x.claim.partition ∧ a.offset = o := by
  rw [marksReturned, hx, Option.all_some] at hmarked
  obtain ⟨e, he, hreturn⟩ := List.any_eq_true.mp hmarked
  rcases e with _ | _ | _ | ⟨j, _ | a⟩
  case returned.some =>
    simp only [LogEvent.isReturn, Bool.and_eq_true, decide_eq_true_eq] at hreturn
    exact ⟨j, a, he, hreturn.1.1, hreturn.1.2, hreturn.2⟩
  all_goals cases hreturn

/-- **One move** and the groups. -/
theorem Reading.settled (hr : r.Reading h) (hn : r.log.Numbered) (heffect : Effect r m r' es)
    (hmarked : marksReturned r h m) (group topic : String) (g' : Group)
    (hg' : r'.log.group? group topic = some g') : g'.SettledBelow r'.log.Given := by
  have hgiven : ∀ n t i o, r.log.Given n t i o → r'.log.Given n t i o :=
    fun _ _ _ _ => (heffect.grows hn).given
  rcases heffect.group group topic with ⟨hgroup, -⟩ | ⟨m', g, g₁, hseat, moved, hgroup, -, horigin⟩
  · exact (hr.groups group topic g' (hgroup ▸ hg')).mono hgiven
  · obtain rfl := Option.some.inj (hgroup.symm.trans hg')
    obtain ⟨hsettled, rfl, rfl⟩ := hr.seat hseat
    refine Group.SettledBelow.mono (hsettled.move moved (fun bases hbases => ?_) ?_) hgiven
    · have concerns := horigin.resolve_left (by rcases hbases with rfl | ⟨-, rfl⟩ <;> nofun)
      obtain rfl := bases_of_groupMove? concerns hbases
      exact basesSettled hn g.name g.topic
    · rintro partition generation offset rfl o ho
      obtain ⟨i, x, rfl, hx, hgroup, htopic, rfl⟩ := mark_of_groupMove? (horigin.resolve_left nofun)
      obtain ⟨j, a, ha, hatopic, hapartition, rfl⟩ := returned_of_marksReturned hmarked hx
      obtain ⟨p, hp, hlt⟩ := hr.given (mem_delivered.mpr ha) g.name
      rw [hatopic, hapartition, htopic] at hp
      exact ⟨p, hp, ho.trans_lt hlt⟩

/-- A record comes from a partition. -/
theorem Effect.of_returned (heffect : Effect r m r' es) {i : ℕ} {a : Record}
    (ha : .returned i (some a) ∈ es) : ∃ x p position, r.readers[i]? = some x ∧
      x.partition? r.log = some p ∧ p.readAt x.position = (some a, position) := by
  cases heffect with
  | @read j rm x x' b found effect =>
    cases effect with
    | read stage place hread =>
      cases List.mem_singleton.mp ha
      exact ⟨x, _, _, found, place, hread⟩
    | refuse | heed => cases List.mem_singleton.mp ha
    | call | check | note | suspend | wake | abandon => cases ha
  | create | append => cases List.mem_singleton.mp ha
  | regroup => simp at ha
  | shut | closeGroups | idle => cases ha

/-- Who begins to read has been granted a claim. -/
theorem Reading.newcomer (hr : r.Reading h) (heffect : Effect r m r' es) {i : ℕ} {x : Reader}
    (hnone : r.readers[i]? = none) (hx : r'.readers[i]? = some x) :
    ∃ c, x = .create c ∧ c.SettledBelow r.log.Given := by
  cases heffect with
  | @regroup _ group topic m' g g' l concerns step =>
    rw [List.getElem?_append_right (List.getElem?_eq_none_iff.mp hnone)] at hx
    obtain ⟨c, hc, rfl⟩ := List.mem_map.mp (List.mem_of_getElem? hx)
    exact ⟨c, rfl, (hr.seat step.before).1.claims c hc⟩
  | @read j rm y y' a found effect =>
    simp only [List.getElem?_set] at hx
    split at hx
    · rename_i hj
      rw [hj, hnone] at found
      cases found
    · rw [hnone] at hx
      cases hx
  | create | append | shut | closeGroups | idle =>
    rw [show r.readers[i]? = some x from hx] at hnone
    cases hnone

/-- **One move**, if it marks only what has been returned. -/
theorem Reading.move (hr : r.Reading h) (hn : r.log.Numbered) (heffect : Effect r m r' es)
    (hmarked : marksReturned r h m) (run' : Run allowed (empty retention) r' (h ++ es)) :
    r'.Reading (h ++ es) := by
  have hgrows := heffect.grows hn
  refine ⟨hr.settled hn heffect hmarked, fun i x hx => ?_, fun i hnone => ?_⟩
  · rw [delivered_append]
    cases hold : r.readers[i]? with
    | some x₀ =>
      obtain ⟨p, hp, hreads⟩ := hr.readers i x₀ hold
      rcases heffect.reader hold with ⟨hx', hes⟩ | ⟨rm, x', a, -, effect, hlog, hx', rfl⟩ <;>
        obtain rfl := Option.some.inj (hx'.symm.trans hx)
      · obtain ⟨p', hp', hbase, hwatermark⟩ := hgrows _ _ p hp
        rw [delivered_of_not_mem fun a => hes (some a), List.append_nil]
        exact ⟨p', hp', hreads.grow hbase hwatermark⟩
      · obtain ⟨hnumbered, hid⟩ := hn.of_partitionAt hp
        rw [delivered_returned, hlog, Reader.partition?, effect.claim]
        exact ⟨p, hp, hreads.step hnumbered hid hp effect⟩
    | none =>
      -- A new reader has been given nothing, and its claim began before this move.
      obtain ⟨c, rfl, hc⟩ := hr.newcomer heffect hold hx
      obtain ⟨g, t, hplaced⟩ := run'.placed (List.mem_of_getElem? hx)
      obtain ⟨p, hp⟩ := hplaced.partitionAt
      have hes : ∀ a, .returned i (some a) ∉ es := fun a ha => by
        obtain ⟨x, -, -, hx, -⟩ := heffect.of_returned ha
        rw [hold] at hx
        cases hx
      rw [hr.unread i hold, delivered_of_not_mem hes, List.append_nil]
      exact ⟨p, hp, Reader.reads_create (Log.le_watermark hp fun o ho => hgrows.given (hc o ho))⟩
  · cases hold : r.readers[i]? with
    | some x₀ =>
      rcases heffect.reader hold with ⟨hx, -⟩ | ⟨-, x', -, -, -, -, hx, -⟩ <;>
        exact absurd (hnone.symm.trans hx) nofun
    | none =>
      rw [delivered_append, hr.unread i hold, List.nil_append]
      refine delivered_of_not_mem fun a ha => ?_
      obtain ⟨x, -, -, hx, -⟩ := heffect.of_returned ha
      rw [hold] at hx
      cases hx

/-- What readers have read, **along a run**. -/
theorem Run.reading (run : Run (fun r h m => marksReturned r h m) (empty retention) r h) :
    r.Reading h := by
  induction run with
  | start => exact ⟨nofun, nofun, fun _ _ => rfl⟩
  | move run permitted moved ih =>
    exact ih.move run.numbered (effect_of_move? moved) permitted (run.move permitted moved)

/-- What has been returned has been sent. -/
theorem Run.sent (run : Run allowed (empty retention) r h) {i : ℕ} {a : Record}
    (ha : .returned i (some a) ∈ h) : a ∈ sends h := by
  induction run with
  | start => cases ha
  | move run permitted moved ih =>
    rw [sends_append]
    refine List.mem_append_left _ ?_
    rcases List.mem_append.mp ha with ha | ha
    · exact ih ha
    · obtain ⟨x, p, position, -, place, hread⟩ := (effect_of_move? moved).of_returned ha
      obtain ⟨hmem, -⟩ := (run.numbered.of_partitionAt place).1.of_readAt hread
      rw [(run.held.holds _ _ p place).records] at hmem
      exact (mem_sentTo.mp (List.mem_of_mem_drop hmem)).1

/-! ### Where claims begin -/

/-- The generation of a claim begins at this move. The claim begins at what its group has committed,
or at the base if that is further on, and not beyond the watermark. -/
structure Starts (r : Readership) (m : LogMove) (r' : Readership) (c : Claim) : Prop where
  moved : r.move? m = some r'
  began : ∃ members, .heard c.group c.topic (.began c.generation members) ∈ r.events m r'
  position : ∃ p, r.log.partitionAt c.topic c.partition = some p ∧
    c.position = max ((r.log.committed? c.group c.topic c.partition).getD 0) p.base ∧
    c.position ≤ p.watermark

/-- A claim that was not granted before. -/
theorem Reading.starts (hr : r.Reading h) (run : Run allowed (empty retention) r h)
    (permitted : allowed r h m) (moved : r.move? m = some r') {c : Claim} (hold : ¬ r.Claimed h c)
    (hc : r'.Claimed (h ++ r.events m r') c) : Starts r m r' c := by
  have heffect := effect_of_move? moved
  obtain ⟨g₁, number, claims, hg₁, hgrants, hmem⟩ := id hc
  rw [groupEvents_append] at hgrants
  rcases heffect.group c.group c.topic with
    ⟨hgroup, hes⟩ | ⟨m', g, g', hseat, gmoved, hg', hes, horigin⟩
  · rw [hes, List.append_nil] at hgrants
    exact absurd ⟨g₁, number, claims, hgroup ▸ hg₁, hgrants, hmem⟩ hold
  · obtain rfl := Option.some.inj (hg'.symm.trans hg₁)
    obtain ⟨t, ht, grun⟩ := (run.grouped c.group c.topic).seat hseat
    rw [hes] at hgrants
    -- The group has granted the claim before, or a generation begins, by a join or a leave.
    rcases grun.dealt.grants_of_move? grun.sound gmoved hgrants with
      hgrants | ⟨⟨members, hbegan⟩, bases, hbases, hposition⟩
    · refine absurd ⟨g, number, claims, ?_, hgrants, hmem⟩ hold
      rcases run.grouped c.group c.topic with ⟨-, hevents⟩ | ⟨g₀, -, hg₀, -⟩
      · rw [grun.dealt.others _ _ (by simp [hevents])] at hgrants
        cases hgrants
      · rwa [Log.seat?, hg₀, Option.some_or, ← hg₀] at hseat
    · have concerns := horigin.resolve_left (by rcases hbases with rfl | ⟨-, rfl⟩ <;> simp)
      obtain rfl := bases_of_groupMove? concerns hbases
      obtain ⟨g₂, t', hplaced⟩ := (run.move permitted moved).placed_of_claimed hc
      obtain ⟨t₁, ht₁, -, hsize⟩ := heffect.find? ht
      obtain rfl := Option.some.inj (ht₁.symm.trans hplaced.topic)
      obtain ⟨p, hp⟩ := Log.partitionAt_of_lt ht (hplaced.partition.trans_eq hsize)
      have hstart : c.position = max (g.committed.getD c.partition 0) p.base :=
        (hposition c hmem).trans (by rw [bases_getD hp])
      refine ⟨moved, ⟨members, mem_groupEvents.mp (hes ▸ hbegan)⟩, p, hp, ?_, ?_⟩
      · rw [hstart, Log.committed?_of_seat? hseat, Group.getD_committedAt]
      · have hcommitted := hr.committed_le hseat hp
        have hwatermark := (run.numbered.of_partitionAt hp).1.watermark
        omega

/-- **Where a claim begins** was settled when its generation began. -/
theorem Run.starts (run : Run (fun r h m => marksReturned r h m) (empty retention) r h) {c : Claim}
    (hc : r.Claimed h c) : ∃ r₁ h₁ m r₂ h₂,
      Run (fun r h m => marksReturned r h m) (empty retention) r₁ h₁ ∧ Starts r₁ m r₂ c ∧
        Run (fun _ _ _ => True) r₂ r h₂ ∧ h = h₁ ++ r₁.events m r₂ ++ h₂ := by
  induction run with
  | start =>
    obtain ⟨g, -, -, hg, -⟩ := hc
    cases hg
  | @move r r' h m run permitted moved ih =>
    by_cases hold : r.Claimed h c
    · obtain ⟨r₁, h₁, m₁, r₂, h₂, run₁, hstarts, run₂, rfl⟩ := ih hold
      exact ⟨r₁, h₁, m₁, r₂, _, run₁, hstarts, run₂.move trivial moved, List.append_assoc _ _ _⟩
    · exact ⟨r, h, m, r', [], run, run.reading.starts run permitted moved hold hc, .start,
        (List.append_nil _).symm⟩

/-! ### The readers of one generation -/

/-- The record that a call has given under a claim of a generation. -/
def deliveryOf? (r : Readership) (group topic : String) (γ : ℕ) : LogEvent → Option Record
  | .returned i (some a) => (r.readers[i]?).bind fun x =>
    if x.claim.group = group ∧ x.claim.topic = topic ∧ x.claim.generation = γ then some a else none
  | _ => none

/-- The records that calls have given under the claims of a generation, oldest first. -/
def deliveries (r : Readership) (h : List LogEvent) (group topic : String) (γ : ℕ) : List Record :=
  h.filterMap (r.deliveryOf? group topic γ)

theorem of_deliveryOf? {group topic : String} {γ : ℕ} {e : LogEvent} {a : Record}
    (he : r.deliveryOf? group topic γ e = some a) : ∃ i x, e = .returned i (some a) ∧
      r.readers[i]? = some x ∧ x.claim.group = group ∧ x.claim.topic = topic ∧
      x.claim.generation = γ := by
  rcases e with _ | _ | _ | ⟨i, _ | b⟩
  case returned.some =>
    obtain ⟨x, hx, heq⟩ := Option.bind_eq_some_iff.mp he
    obtain ⟨hclaim, hb⟩ := Option.ite_none_right_eq_some.mp heq
    cases hb
    exact ⟨i, x, rfl, hx, hclaim⟩
  all_goals cases he

/-- A partition has one reader in a generation. -/
theorem Run.reader_unique (run : Run allowed (empty retention) r h) {i j : ℕ} {x y : Reader}
    (hx : r.readers[i]? = some x) (hy : r.readers[j]? = some y)
    (hgroup : x.claim.group = y.claim.group) (htopic : x.claim.topic = y.claim.topic)
    (hgeneration : x.claim.generation = y.claim.generation)
    (hpartition : x.claim.partition = y.claim.partition) : i = j := by
  obtain ⟨hi, rfl⟩ := List.getElem?_eq_some_iff.mp hx
  obtain ⟨hj, rfl⟩ := List.getElem?_eq_some_iff.mp hy
  have hne := List.pairwise_iff_getElem.mp run.readers_apart
  rcases Nat.lt_trichotomy i j with hlt | heq | hlt
  · exact absurd hpartition (hne i j hi hj hlt hgroup htopic hgeneration)
  · exact heq
  · exact absurd hpartition.symm (hne j i hj hi hlt hgroup.symm htopic.symm hgeneration.symm)

/-- **A generation reads a partition once**, in the order of offsets. -/
theorem Run.ordered (run : Run (fun r h m => marksReturned r h m) (empty retention) r h)
    (group topic : String) (γ : ℕ) : (deliveries r h group topic γ).Pairwise fun a b =>
      a.partition = b.partition → a.offset < b.offset := by
  refine List.pairwise_filterMap.mpr (List.pairwise_iff_forall_sublist.mpr ?_)
  intro e e' hsub a ha b hb hpartition
  obtain ⟨i, x, rfl, hx, hgroup, htopic, hgeneration⟩ := of_deliveryOf? ha
  obtain ⟨j, y, rfl, hy, hgroup', htopic', hgeneration'⟩ := of_deliveryOf? hb
  obtain ⟨p, -, hreads⟩ := run.reading.readers i x hx
  obtain ⟨q, -, hreads'⟩ := run.reading.readers j y hy
  have ha := hreads.within a (mem_delivered.mpr (hsub.subset List.mem_cons_self))
  have hb := hreads'.within b
    (mem_delivered.mpr (hsub.subset (List.mem_cons_of_mem _ List.mem_cons_self)))
  have hsame : i = j := run.reader_unique hx hy (hgroup.trans hgroup'.symm)
    (htopic.trans htopic'.symm) (hgeneration.trans hgeneration'.symm)
    (ha.2.1.symm.trans (hpartition.trans hb.2.1))
  subst hsame
  have horder := List.pairwise_iff_forall_sublist.mp (List.pairwise_filterMap.mp hreads.order) hsub
  exact horder a (if_pos rfl) b (if_pos rfl)

/-! ### Serving claims -/

/-- A step of a reader. -/
theorem step_of_move? {i : ℕ} {rm : ReaderMove} {x : Reader} (hx : r.readers[i]? = some x)
    (moved : r.move? (.read i rm) = some r') : ∃ x' a, x.Effect r.log rm x' a ∧
      r'.readers[i]? = some x' ∧ r.events (.read i rm) r' = (a.map (.returned i)).toList := by
  rw [move?, hx, Option.bind_some] at moved
  obtain ⟨⟨x', a⟩, hstep, rfl⟩ := Option.map_eq_some_iff.mp moved
  refine ⟨x', a, Reader.effect_of_step? hstep, ?_, ?_⟩
  · exact List.getElem?_set_self (List.getElem?_eq_some_iff.mp hx).1
  · rw [events, hx, Option.bind_some, hstep, Option.bind_some]

/-- What a read passes over has been trimmed. -/
theorem skipped_of_read {topic : String} {i : ℕ} {x : Reader} {p : Partition}
    (hx : r.readers[i]? = some x) (hp : p.Numbered topic) (hplace : x.partition? r.log = some p)
    (moved : r.move? (.read i .read) = some r') : ∃ x', r'.readers[i]? = some x' ∧
      ∀ o, x.position ≤ o → o < x'.position → o < p.base ∨
        ∃ a ∈ p.records, a.offset = o ∧ r.events (.read i .read) r' = [.returned i (some a)] := by
  obtain ⟨x', a, effect, hx', hevents⟩ := step_of_move? hx moved
  refine ⟨x', hx', fun o hle hlt => ?_⟩
  cases effect with
  | read _ place found =>
    obtain rfl := Option.some.inj (place.symm.trans hplace)
    obtain ⟨hmem, -, -, hoffset, rfl, -⟩ := hp.of_readAt found
    refine or_iff_not_imp_left.mpr fun hbase => ⟨_, hmem, ?_, hevents⟩
    simp only at hlt
    omega
  | suspend _ place nothing =>
    obtain rfl := Option.some.inj (place.symm.trans hplace)
    obtain ⟨rfl, -⟩ := hp.of_readAt_none nothing
    exact .inl (by simp only at hlt; omega)

/-- Makes a move, if it marks nothing but what has been returned, and adds what is seen of it to the
history. -/
def record? (e : Readership × List LogEvent) (m : LogMove) :
    Option (Readership × List LogEvent) :=
  if marksReturned e.1 e.2 m then recording move? events e m else none

theorem Run.record {e e' : Readership × List LogEvent} {m : LogMove}
    (run : Run (fun r h m => marksReturned r h m) (empty retention) e.1 e.2)
    (made : record? e m = some e') :
    Run (fun r h m => marksReturned r h m) (empty retention) e'.1 e'.2 := by
  obtain ⟨hmarks, made⟩ := Option.ite_none_right_eq_some.mp made
  obtain ⟨r', hmove, rfl⟩ := Option.map_eq_some_iff.mp made
  exact run.move hmarks hmove

/-- **Claims are served**, along any run at which only what has been returned is marked. A claim
that a session has been told of begins at the committed offset or the base, whichever was greater
when its generation began, and not beyond the watermark. Its reader stands between there and the
watermark and has been given records that were sent to its partition, in the order of offsets; of
the offsets that it has passed only trimmed ones are missing. The place that a read looks up is one
of the kept records or the next one, and a read passes over trimmed offsets only. A reader that can
make no step waits at the watermark, and its claim has not ended. No generation of a group is given
an offset of a partition twice. -/
theorem Run.claims_served (run : Run (fun r h m => marksReturned r h m) (empty retention) r h) :
    (∀ c, r.Claimed h c → ∃ r₁ h₁ m r₂ h₂,
      Run (fun r h m => marksReturned r h m) (empty retention) r₁ h₁ ∧ Starts r₁ m r₂ c ∧
        Run (fun _ _ _ => True) r₂ r h₂ ∧ h = h₁ ++ r₁.events m r₂ ++ h₂) ∧
    (∀ i x, r.readers[i]? = some x → r.Claimed h x.claim ∧ ∃ p, x.partition? r.log = some p ∧
      x.Reads p (delivered h i) ∧
      (∀ a ∈ delivered h i, a ∈ sentTo h x.claim.topic x.claim.partition) ∧
      (∃ k ≤ p.records.length, max x.position p.base = p.base + k ∧
        p.readAt x.position = (p.records[k]?, p.base + k + (p.records[k]?).toList.length)) ∧
      (∀ r', r.move? (.read i .read) = some r' → ∃ x', r'.readers[i]? = some x' ∧
        ∀ o, x.position ≤ o → o < x'.position → o < p.base ∨
          ∃ a ∈ p.records, a.offset = o ∧ r.events (.read i .read) r' = [.returned i (some a)]) ∧
      ((∀ rm ≠ .abandon, r.move? (.read i rm) = none) → (∃ seen, x.stage = .suspended seen) ∧
        x.position = p.watermark ∧ r.log.hasEnded x.claim = false)) ∧
    ∀ group topic γ, (deliveries r h group topic γ).Pairwise fun a b =>
      a.partition = b.partition → a.offset < b.offset := by
  refine ⟨fun c => run.starts, fun i x hx => ?_, run.ordered⟩
  obtain ⟨p, hplace, hreads⟩ := run.reading.readers i x hx
  obtain ⟨hnumbered, -⟩ := run.numbered.of_partitionAt hplace
  refine ⟨run.claimed (List.mem_of_getElem? hx), p, hplace, hreads, fun a ha => ?_,
    hnumbered.readAt_eq hreads.bound, fun r' => skipped_of_read hx hnumbered hplace,
    fun hstuck => hreads.waiting hplace fun rm hrm => ?_⟩
  · obtain ⟨htopic, hpartition, -⟩ := hreads.within a ha
    exact mem_sentTo.mpr ⟨run.sent (mem_delivered.mp ha), htopic, hpartition⟩
  · have hnone := hstuck rm hrm
    rw [move?, hx, Option.bind_some] at hnone
    exact Option.map_eq_none_iff.mp hnone

/-- Two of five records are trimmed before a reader, whose second call is given up, comes to read
them. It reads on after them and marks, and the next reader of the partition takes the last record
and waits. -/
theorem claims_served_trimmed :
    ∃ r h, Run (fun r h m => marksReturned r h m) (empty 2) r h ∧ ∃ x y p,
      r.readers = [x, y] ∧ y.partition? r.log = some p ∧ (delivered h 0).map (·.offset) = [0, 3] ∧
      (∃ r₁ m r₂, Starts r₁ m r₂ y.claim) ∧ y.claim.position = 4 ∧ y.Reads p (delivered h 1) ∧
      (∃ k ≤ p.records.length, max y.position p.base = p.base + k) ∧
      y.position = p.watermark ∧ p.watermark = 5 ∧ r.log.hasEnded y.claim = false ∧
      (deliveries r h "g" "t" 2).map (·.offset) = [4] := by
  obtain ⟨⟨r, h⟩, run, hreaders, hzero, hone, hcall, hcheck, hnote, hread, hwake, hheed⟩ :=
    exists_of_foldlM record? (fun e => Run (fun r h m => marksReturned r h m) (empty 2) e.1 e.2)
      (empty 2, [])
      [.createTopic "t" 1, .enrol "g" "t", .ask "g" "t" 1, .append "t" "a" [1], .read 0 .call,
        .read 0 .check, .read 0 .note, .read 0 .read, .append "t" "a" [2], .read 0 .call,
        .read 0 .check, .read 0 .note, .append "t" "a" [3], .append "t" "a" [4],
        .append "t" "a" [5], .read 0 .abandon, .read 0 .call, .read 0 .check, .read 0 .note,
        .read 0 .read, .mark 0 3, .enrol "g" "t", .ask "g" "t" 1, .ask "g" "t" 1, .read 1 .call,
        .read 1 .check, .read 1 .note, .read 1 .read, .read 1 .call, .read 1 .check, .read 1 .note,
        .read 1 .read] (fun _ => Run.record) .start
      (fun e => e.1.readers =
          [⟨⟨"g", "t", 0, 1, 1, 0⟩, 4, .resting⟩, ⟨⟨"g", "t", 0, 2, 2, 4⟩, 5, .suspended 5⟩] ∧
        (delivered e.2 0).map (·.offset) = [0, 3] ∧
        (deliveries e.1 e.2 "g" "t" 2).map (·.offset) = [4] ∧
        (e.1.move? (.read 1 .call)).isNone ∧ (e.1.move? (.read 1 .check)).isNone ∧
        (e.1.move? (.read 1 .note)).isNone ∧ (e.1.move? (.read 1 .read)).isNone ∧
        (e.1.move? (.read 1 .wake)).isNone ∧ (e.1.move? (.read 1 .heed)).isNone)
      (by decide +kernel)
  obtain ⟨hstarts, hserved, -⟩ := run.claims_served
  obtain ⟨hclaimed, p, hplace, hreads, -, ⟨k, hk, hplaced, -⟩, -, hwaiting⟩ :=
    hserved 1 _ (by rw [hreaders]; rfl)
  obtain ⟨r₁, -, m, r₂, -, -, hstart, -⟩ := hstarts _ hclaimed
  obtain ⟨-, hposition, hlive⟩ := hwaiting fun rm hrm => by
    cases rm with
    | abandon => exact absurd rfl hrm
    | _ => exact Option.isNone_iff_eq_none.mp ‹_›
  exact ⟨r, h, run, _, _, p, hreaders, hplace, hzero, ⟨r₁, m, r₂, hstart⟩, rfl, hreads,
    ⟨k, hk, hplaced⟩, hposition, hposition.symm, hlive, hone⟩

end Readership

end SmsRelay
