import SmsRelay.Proofs.Log.Rebalance
import SmsRelay.Proofs.Log.Settlement

/-!
# A log and its readers

A log at work, one move after the other: topics are created, records are appended, members of groups
come and go, groups are closed, and readers call for the records of the claims that sessions have
answered with. A call takes several steps. Anything else can happen between them, and a call can be
given up at each.

## Implementation notes

A call looks whether its claim has ended, notes the watermark, and reads. When there is nothing to
read it waits until the watermark is no longer the one that it noted, or the claim has ended, and
begins anew in the first case. The watermark counts appends, so it is another one after each.
`Log.poll` is a call that nothing comes between: `Reader.poll_of_ended`, `Reader.poll_of_readAt`.

A group moves within its log as `Group.move?` says: `Log.Regrouped` describes this once for all the
operations on groups.

## Main results

* `Readership.effect_of_move?`: everything that a move can do.
* `Reader.poll_of_readAt`: a call that nothing comes between is a poll, a result of its own.
* `Log.regrouped_enrol`: a join is a move of one group.
-/

namespace SmsRelay

/-- What is seen of a log and its readers. -/
inductive LogEvent where
  | created (topic : String) (partitions : ℕ)
  /-- A record has been appended; this is its place. -/
  | sent (topic key : String) (value : Bytes) (place : Placement)
  | heard (group topic : String) (e : GroupEvent)
  /-- A call of a reader is over. It gives no record if the claim has ended. -/
  | returned (reader : ℕ) (r : Option Record)
  deriving DecidableEq

/-! ### Readers -/

/-- How far a call for a record has come. -/
inductive ReadStage where
  /-- No call is under way. -/
  | resting
  /-- It is about to look whether the claim has ended. -/
  | asked
  /-- It is about to note the watermark. -/
  | checked
  /-- It has noted this watermark and is about to read. -/
  | noted (seen : ℕ)
  /-- It waits for a watermark other than this, or for the end of the claim. -/
  | suspended (seen : ℕ)
  deriving DecidableEq

/-- Who reads under a claim. -/
structure Reader where
  /-- The claim as it was granted. -/
  claim : Claim
  /-- The offset to read next. -/
  position : ℕ
  stage : ReadStage := .resting
  deriving DecidableEq

/-- The steps of a call, and the end of one that is given up. -/
inductive ReaderMove where
  | call | check | note | read | wake | heed | abandon
  deriving DecidableEq

/-- Whether a claim of a group of the log has ended. -/
def Log.hasEnded (l : Log) (c : Claim) : Bool := (l.group? c.group c.topic).any (·.hasEnded c)

namespace Reader

/-- The reader of a claim that has just been granted. -/
def create (c : Claim) : Reader := { claim := c, position := c.position }

/-- The partition that is read. -/
def partition? (x : Reader) (l : Log) : Option Partition :=
  l.partitionAt x.claim.topic x.claim.partition

/-- A step of a reader: what becomes of it and, if the call is over, what it gives. -/
def step? (x : Reader) (l : Log) (m : ReaderMove) : Option (Reader × Option (Option Record)) :=
  match m, x.stage with
  | .call, .resting => some ({ x with stage := .asked }, none)
  | .check, .asked =>
    if l.hasEnded x.claim then some ({ x with stage := .resting }, some none)
    else some ({ x with stage := .checked }, none)
  | .note, .checked => (x.partition? l).map fun p => ({ x with stage := .noted p.watermark }, none)
  | .read, .noted seen => (x.partition? l).map fun p =>
    match p.readAt x.position with
    | (some r, position) => ({ x with position := position, stage := .resting }, some (some r))
    | (none, position) => ({ x with position := position, stage := .suspended seen }, none)
  | .wake, .suspended seen => (x.partition? l).bind fun p =>
    if p.watermark = seen then none else some ({ x with stage := .asked }, none)
  | .heed, .suspended _ =>
    if l.hasEnded x.claim then some ({ x with stage := .resting }, some none) else none
  | .abandon, .resting => none
  | .abandon, _ => some ({ x with stage := .resting }, none)
  | _, _ => none

/-- Everything that a step of a reader can do. -/
inductive Effect (x : Reader) (l : Log) : ReaderMove → Reader → Option (Option Record) → Prop
  | call (stage : x.stage = .resting) : Effect x l .call { x with stage := .asked } none
  /-- The claim has ended. -/
  | refuse (stage : x.stage = .asked) (ended : l.hasEnded x.claim = true) :
      Effect x l .check { x with stage := .resting } (some none)
  | check (stage : x.stage = .asked) (live : l.hasEnded x.claim = false) :
      Effect x l .check { x with stage := .checked } none
  | note {p : Partition} (stage : x.stage = .checked) (place : x.partition? l = some p) :
      Effect x l .note { x with stage := .noted p.watermark } none
  | read {seen position : ℕ} {p : Partition} {r : Record} (stage : x.stage = .noted seen)
      (place : x.partition? l = some p) (found : p.readAt x.position = (some r, position)) :
      Effect x l .read { x with position := position, stage := .resting } (some (some r))
  /-- There is nothing to read. -/
  | suspend {seen position : ℕ} {p : Partition} (stage : x.stage = .noted seen)
      (place : x.partition? l = some p) (nothing : p.readAt x.position = (none, position)) :
      Effect x l .read { x with position := position, stage := .suspended seen } none
  | wake {seen : ℕ} {p : Partition} (stage : x.stage = .suspended seen)
      (place : x.partition? l = some p) (changed : p.watermark ≠ seen) :
      Effect x l .wake { x with stage := .asked } none
  | heed {seen : ℕ} (stage : x.stage = .suspended seen) (ended : l.hasEnded x.claim = true) :
      Effect x l .heed { x with stage := .resting } (some none)
  | abandon (stage : x.stage ≠ .resting) : Effect x l .abandon { x with stage := .resting } none

theorem effect_of_step? {x x' : Reader} {l : Log} {m : ReaderMove} {a : Option (Option Record)}
    (h : x.step? l m = some (x', a)) : Effect x l m x' a := by
  unfold step? at h
  split at h
  · rename_i hstage
    cases h
    exact .call hstage
  · rename_i hstage
    split at h <;> rename_i hended <;> cases h
    · exact .refuse hstage hended
    · exact .check hstage (by simpa using hended)
  · rename_i hstage
    obtain ⟨p, hplace, h⟩ := Option.map_eq_some_iff.mp h
    cases h
    exact .note hstage hplace
  · rename_i seen hstage
    obtain ⟨p, hplace, h⟩ := Option.map_eq_some_iff.mp h
    split at h <;> rename_i hread <;> cases h
    · exact .read hstage hplace hread
    · exact .suspend hstage hplace hread
  · rename_i seen hstage
    obtain ⟨p, hplace, h⟩ := Option.bind_eq_some_iff.mp h
    split at h
    · cases h
    · rename_i hchanged
      cases h
      exact .wake hstage hplace hchanged
  · rename_i seen hstage
    split at h
    · rename_i hended
      cases h
      exact .heed hstage hended
    · cases h
  · cases h
  · rename_i hstage
    cases h
    exact .abandon hstage
  · cases h

theorem Effect.claim {x x' : Reader} {l : Log} {m : ReaderMove} {a : Option (Option Record)}
    (h : Effect x l m x' a) : x'.claim = x.claim := by
  cases h <;> rfl

/-! ### A call that nothing comes between -/

variable {x : Reader} {l : Log}

/-- A poll finds that the claim has ended where a call does. -/
theorem poll_of_ended (h : l.hasEnded x.claim = true) :
    l.poll { x.claim with position := x.position }
      = (.ended, { x.claim with position := x.position }) := by
  rw [Log.poll]
  exact if_pos h

/-- A poll reads what a call reads. Runs are made of calls and not of polls, so this is a result of
its own: it says that the steps of a call, taken at once, are the poll of the log. -/
theorem poll_of_readAt {p : Partition} (h : l.hasEnded x.claim = false)
    (hplace : x.partition? l = some p) :
    l.poll { x.claim with position := x.position } =
      ((p.readAt x.position).1.elim .waiting .record,
        { x.claim with position := (p.readAt x.position).2 }) := by
  rw [Log.poll]
  rw [if_neg (by simpa [Log.hasEnded, Group.hasEnded] using h),
    show (l.find? x.claim.topic).bind (·.partitions[x.claim.partition]?) = some p from hplace]
  simp only
  cases (p.readAt x.position).1 <;> rfl

end Reader

/-! ### Groups within a log -/

/-- The claims that an event grants. -/
def GroupEvent.claims : GroupEvent → List Claim
  | answered _ e => e.claims
  | _ => []

namespace Group

variable {g g' : Group} {m : GroupMove}

/-- A group keeps its name and its topic. -/
theorem name_of_move? (h : g.move? m = some g') : g'.name = g.name ∧ g'.topic = g.topic := by
  obtain ⟨es, heffect⟩ := exists_effect h
  cases heffect with
  | join =>
    exact ⟨(assign_eq _ _).1.trans (revoke_eq g).1, (assign_eq _ _).2.trans (revoke_eq g).2⟩
  | leave =>
    exact ⟨(assign_eq _ _).1.trans (revoke_eq _).1, (assign_eq _ _).2.trans (revoke_eq _).2⟩
  | refuse | depart | drop => exact ⟨rfl, rfl⟩
  | ask =>
    rw [nextEvent]
    split
    · exact ⟨rfl, rfl⟩
    · split <;> exact ⟨rfl, rfl⟩
  | commit =>
    rw [commit]
    split <;> exact ⟨rfl, rfl⟩
  | close => exact tellAll_eq g _

/-- Claims are granted in answers. -/
theorem claims_events (g : Group) (m : GroupMove) (g' : Group) :
    (g.events m g').flatMap GroupEvent.claims =
      match m with
      | .ask number => (g.nextEvent number).1.elim [] (·.claims)
      | _ => [] := by
  have hbegan : (if g'.generation = g.generation then []
      else [GroupEvent.began g'.generation g'.members]).flatMap GroupEvent.claims = [] := by
    split <;> rfl
  rw [events, List.flatMap_append, hbegan, List.append_nil, replies.eq_def]
  cases m with
  | join bases =>
    simp only
    split <;> rfl
  | ask number =>
    cases h : (g.nextEvent number).1 <;> simp [h, GroupEvent.claims]
  | leave | drop | commit | close => rfl

end Group

namespace Log

variable {l l' : Log} {name topic : String} {g g' : Group} {m : GroupMove}

/-- The group with a name on a topic, which is created when it does not exist. -/
def seat? (l : Log) (name topic : String) : Option Group :=
  (l.group? name topic).or ((l.find? topic).map (Group.create name))

/-- A group of a log makes a move, and nothing else changes. -/
structure Regrouped (l : Log) (name topic : String) (m : GroupMove) (g g' : Group) (l' : Log) :
    Prop where
  before : l.seat? name topic = some g
  moved : g.move? m = some g'
  after : l'.group? name topic = some g'
  others : ∀ name' topic', (name', topic') ≠ (name, topic) →
    l'.group? name' topic' = l.group? name' topic'
  topics : l'.topics = l.topics
  retention : l'.retention = l.retention

theorem group?_setGroup (l : Log) (g' : Group) (name topic : String) :
    (l.setGroup g').group? name topic = (l.group? name topic).map fun g =>
      if g.name = g'.name ∧ g.topic = g'.topic then g' else g := by
  rw [group?, group?, setGroup, List.find?_map]
  congr 1
  refine congrArg (List.find? · l.groups) (funext fun g => ?_)
  simp only [Function.comp_apply]
  split
  · rename_i hg
    rw [hg.1, hg.2]
  · rfl

theorem regrouped_setGroup (hg : l.group? name topic = some g) (moved : g.move? m = some g') :
    l.Regrouped name topic m g g' (l.setGroup g') := by
  obtain ⟨-, hname, htopic⟩ := mem_of_group? hg
  obtain ⟨hname', htopic'⟩ := Group.name_of_move? moved
  refine ⟨by rw [seat?, hg, Option.some_or], moved, ?_, fun name₁ topic₁ hne => ?_, rfl, rfl⟩
  · rw [group?_setGroup, hg, Option.map_some, if_pos ⟨hname'.symm, htopic'.symm⟩]
  · rw [group?_setGroup]
    cases hother : l.group? name₁ topic₁ with
    | none => rfl
    | some g₁ =>
      obtain ⟨-, hname₁, htopic₁⟩ := mem_of_group? hother
      rw [Option.map_some, if_neg]
      rintro ⟨hsame, hsame'⟩
      refine hne ?_
      rw [← hname₁, ← htopic₁, hsame, hsame', hname', htopic', hname, htopic]

theorem regrouped_updateGroup {f : Group → Group} (hg : l.group? name topic = some g)
    (moved : g.move? m = some (f g)) :
    l.Regrouped name topic m g (f g) (l.updateGroup name topic f) := by
  rw [updateGroup, hg]
  exact regrouped_setGroup hg moved

theorem updateGroup_of_none {f : Group → Group} (hg : l.group? name topic = none) :
    l.updateGroup name topic f = l := by
  rw [updateGroup, hg]

/-- A group is there when a member joins. -/
theorem withGroup_eq (name : String) {t : Topic} (ht : l.find? topic = some t) : ∃ g,
    l.seat? name topic = some g ∧ (l.withGroup name t).2 = g ∧
      (l.withGroup name t).1.group? name topic = some g ∧
      (∀ name' topic', (name', topic') ≠ (name, topic) →
        (l.withGroup name t).1.group? name' topic' = l.group? name' topic') ∧
      (l.withGroup name t).1.topics = l.topics ∧
      (l.withGroup name t).1.retention = l.retention := by
  have htopic := name_of_find? ht
  rw [withGroup, htopic, seat?, ht]
  cases hg : l.group? name topic with
  | some g => exact ⟨g, rfl, rfl, hg, fun _ _ _ => rfl, rfl, rfl⟩
  | none =>
    have hnew : ∀ name' topic', Log.group? { l with groups := l.groups ++ [Group.create name t] }
        name' topic' = (l.group? name' topic').or
          (if name = name' ∧ topic = topic' then some (Group.create name t) else none) := by
      intro name' topic'
      rw [group?, List.find?_append, ← group?, List.find?_singleton]
      congr 1
      simp only [Group.create, htopic, decide_eq_true_eq]
    refine ⟨Group.create name t, rfl, rfl, ?_, fun name' topic' hne => ?_, rfl, rfl⟩
    · rw [hnew, hg, if_pos ⟨rfl, rfl⟩, Option.none_or]
    · rw [hnew, if_neg, Option.or_none]
      rintro ⟨rfl, rfl⟩
      exact hne rfl

/-- **A member joins.** -/
theorem regrouped_enrol {t : Topic} {number : ℕ} (ht : l.find? topic = some t)
    (hjoined : l.enrol name t = .ok (number, l')) :
    ∃ g g', l.Regrouped name topic (.join (l.bases topic)) g g' l' := by
  obtain ⟨g, hseat, hgroup, hfound, hothers, htopics, hretention⟩ := withGroup_eq name ht
  rw [enrol] at hjoined
  rcases hwith : l.withGroup name t with ⟨l₁, g₁⟩
  rw [hwith] at hgroup hfound hothers htopics hretention hjoined
  subst hgroup
  have hbases : l₁.bases t.name = l.bases topic := by
    rw [name_of_find? ht, bases, bases, find?, find?, htopics]
  simp only [hbases] at hjoined
  split at hjoined
  · rename_i number' g' hjoin
    cases hjoined
    have moved : g₁.move? (.join (l.bases topic)) = some g' := by rw [Group.move?, hjoin]
    have hstep := regrouped_setGroup hfound moved
    exact ⟨g₁, g', hseat, moved, hstep.after, fun name' topic' hne =>
      (hstep.others name' topic' hne).trans (hothers name' topic' hne), hstep.topics.trans htopics,
      hstep.retention.trans hretention⟩
  · cases hjoined

/-- A member is refused by a group that is closed. -/
theorem closed_of_enrol {t : Topic} {e : LogError} (ht : l.find? topic = some t)
    (hrefused : l.enrol name t = .error e) :
    ∃ g, l.group? name topic = some g ∧ g.closed = true := by
  have htopic := name_of_find? ht
  have hopen : ∀ (g : Group) (bases : List ℕ), g.closed = false → g.join bases ≠ .error e := by
    intro g bases hclosed hjoin
    rw [Group.join_of_open hclosed] at hjoin
    cases hjoin
  rw [enrol, withGroup, htopic] at hrefused
  cases hg : l.group? name topic with
  | none =>
    simp only [hg] at hrefused
    split at hrefused
    · cases hrefused
    · rename_i hjoin
      cases hrefused
      exact absurd hjoin (hopen _ _ rfl)
  | some g =>
    simp only [hg] at hrefused
    split at hrefused
    · cases hrefused
    · rename_i hjoin
      cases hrefused
      exact ⟨g, rfl, by simpa using fun hclosed => hopen g _ hclosed hjoin⟩

/-- Every group ends. -/
theorem group?_closeGroups (l : Log) (name topic : String) :
    l.closeGroups.group? name topic = (l.group? name topic).map Group.close := by
  rw [group?, group?, closeGroups, List.find?_map]
  congr 1
  refine congrArg (List.find? · l.groups) (funext fun g => ?_)
  obtain ⟨hname, htopic⟩ := Group.name_of_move? (g := g) (m := .close) rfl
  rw [Function.comp_apply, hname, htopic]

end Log

/-! ### Moves -/

/-- A log, and who reads the claims that its sessions have answered with. -/
structure Readership where
  log : Log
  readers : List Reader := []

/-- What can happen to a log and its readers. -/
inductive LogMove where
  | createTopic (name : String) (partitions : ℕ)
  | append (topic key : String) (value : Bytes)
  | enrol (group topic : String)
  | leave (group topic : String) (number : ℕ)
  | drop (group topic : String) (number : ℕ)
  /-- The owner of a session asks for its next event, and reads the claims that it is granted. -/
  | ask (group topic : String) (number : ℕ)
  /-- An offset is marked on behalf of the claim of a reader. -/
  | mark (reader offset : ℕ)
  | read (reader : ℕ) (m : ReaderMove)
  /-- From now on sending and joining are refused. -/
  | shut
  /-- One group is closed. -/
  | close (group topic : String)
  | closeGroups
  deriving DecidableEq

namespace Readership

/-- The result of a move, if it can be made. -/
def move? (r : Readership) : LogMove → Option Readership
  | .createTopic name partitions => match r.log.createTopic name partitions with
    | .ok l => some { r with log := l }
    | .error _ => some r
  | .append topic key value => (r.log.find? topic).map fun _ =>
    { r with log := (r.log.append topic key value).1 }
  | .enrol group topic => (r.log.find? topic).map fun t => match r.log.enrol group t with
    | .ok (_, l) => { r with log := l }
    | .error _ => r
  | .leave group topic number => some { r with log := r.log.leave group topic number }
  | .drop group topic number => some { r with log := r.log.drop group topic number }
  | .ask group topic number =>
    if (r.log.group? group topic).any (·.isListening number) then
      let (e, l) := r.log.nextEvent group topic number
      some ⟨l, r.readers ++ (e.elim [] (·.claims)).map Reader.create⟩
    else none
  | .mark i offset => (r.readers[i]?).map fun x => { r with log := r.log.mark x.claim offset }
  | .read i m => (r.readers[i]?).bind fun x => (x.step? r.log m).map fun p =>
    { r with readers := r.readers.set i p.1 }
  | .shut => some { r with log := r.log.shut }
  | .close group topic => some { r with log := r.log.updateGroup group topic Group.close }
  | .closeGroups => some { r with log := r.log.closeGroups }

/-- The move of one group that a move is. -/
def groupMove? (r : Readership) : LogMove → Option (String × String × GroupMove)
  | .enrol group topic => some (group, topic, .join (r.log.bases topic))
  | .leave group topic number => some (group, topic, .leave (r.log.bases topic) number)
  | .drop group topic number => some (group, topic, .drop number)
  | .ask group topic number => some (group, topic, .ask number)
  | .mark i offset => (r.readers[i]?).map fun x =>
    (x.claim.group, x.claim.topic, .commit x.claim.partition x.claim.generation offset)
  | .close group topic => some (group, topic, .close)
  | _ => none

/-- What is heard of a group that makes a move. -/
def heard (r : Readership) (m : LogMove) (r' : Readership) : List LogEvent :=
  match r.groupMove? m with
  | none => []
  | some (group, topic, m') =>
    match r.log.seat? group topic, r'.log.group? group topic with
    | some g, some g' => (g.events m' g').map (.heard group topic)
    | _, _ => []

/-- What is seen of a move from `r` to `r'`. -/
def events (r : Readership) (m : LogMove) (r' : Readership) : List LogEvent :=
  match m with
  | .createTopic name partitions => match r.log.createTopic name partitions with
    | .ok _ => [.created name partitions]
    | .error _ => []
  | .append topic key value => [.sent topic key value (r.log.append topic key value).2]
  | .read i m =>
    (((r.readers[i]?).bind (·.step? r.log m)).bind fun p => p.2.map (.returned i)).toList
  | m => r.heard m r'

/-- Everything that a move can do, and what is seen of it. -/
inductive Effect (r : Readership) : LogMove → Readership → List LogEvent → Prop
  | create {name : String} {partitions : ℕ} {l : Log}
      (created : r.log.createTopic name partitions = .ok l) :
      Effect r (.createTopic name partitions) { r with log := l } [.created name partitions]
  | append {topic key : String} {value : Bytes} {t : Topic} (found : r.log.find? topic = some t) :
      Effect r (.append topic key value) { r with log := (r.log.append topic key value).1 }
        [.sent topic key value (r.log.append topic key value).2]
  /-- A group makes a move. Who is granted claims reads them. -/
  | regroup {m : LogMove} {group topic : String} {m' : GroupMove} {g g' : Group} {l : Log}
      (concerns : r.groupMove? m = some (group, topic, m'))
      (step : r.log.Regrouped group topic m' g g' l) :
      Effect r m ⟨l, r.readers ++ ((g.events m' g').flatMap GroupEvent.claims).map Reader.create⟩
        ((g.events m' g').map (.heard group topic))
  | read {i : ℕ} {m : ReaderMove} {x x' : Reader} {a : Option (Option Record)}
      (found : r.readers[i]? = some x) (effect : x.Effect r.log m x' a) :
      Effect r (.read i m) { r with readers := r.readers.set i x' } (a.map (.returned i)).toList
  | shut : Effect r .shut { r with log := r.log.shut } []
  | closeGroups : Effect r .closeGroups { r with log := r.log.closeGroups } []
  /-- A topic or a member is refused, or there is no such group. -/
  | idle {m : LogMove} : Effect r m r []

variable {r r' : Readership}

/-- What is heard of a group that makes a move. -/
theorem heard_of_regrouped {m : LogMove} {group topic : String} {m' : GroupMove} {g g' : Group}
    (concerns : r.groupMove? m = some (group, topic, m'))
    (step : r.log.Regrouped group topic m' g g' r'.log) :
    r.heard m r' = (g.events m' g').map (.heard group topic) := by
  rw [heard, concerns]
  simp only [step.before, step.after]

/-- Nothing is heard of a group that does not exist. -/
theorem heard_of_none {m : LogMove} {group topic : String} {m' : GroupMove}
    (concerns : r.groupMove? m = some (group, topic, m'))
    (hnone : r'.log.group? group topic = none) : r.heard m r' = [] := by
  rw [heard, concerns]
  simp only [hnone]
  split <;> simp_all

/-- A change of a group, if it exists, by a move at which no claims are granted. -/
theorem effect_of_updateGroup {m : LogMove} {group topic : String} {m' : GroupMove}
    {f : Group → Group} (concerns : r.groupMove? m = some (group, topic, m'))
    (hf : ∀ g : Group, g.move? m' = some (f g))
    (hclaims : ∀ g g' : Group, (g.events m' g').flatMap GroupEvent.claims = [])
    (heq : r' = { r with log := r.log.updateGroup group topic f }) :
    Effect r m r' (r.heard m r') := by
  cases hg : r.log.group? group topic with
  | none =>
    rw [Log.updateGroup_of_none hg] at heq
    subst heq
    rw [heard_of_none concerns hg]
    exact .idle
  | some g =>
    have step := Log.regrouped_updateGroup hg (hf g)
    subst heq
    rw [heard_of_regrouped concerns step]
    have heffect := Effect.regroup concerns step
    rwa [hclaims, List.map_nil, List.append_nil] at heffect

theorem effect_of_enrol {group topic : String} (h : r.move? (.enrol group topic) = some r') :
    Effect r (.enrol group topic) r' (r.heard (.enrol group topic) r') := by
  obtain ⟨t, ht, h⟩ := Option.map_eq_some_iff.mp h
  split at h
  · rename_i number l hjoined
    obtain ⟨g, g', step⟩ := Log.regrouped_enrol ht hjoined
    subst h
    rw [heard_of_regrouped rfl step]
    have heffect := Effect.regroup (m := .enrol group topic) rfl step
    rwa [Group.claims_events, List.map_nil, List.append_nil] at heffect
  · rename_i e hrefused
    subst h
    -- The group refuses because it is closed, and nothing is heard of a refusal.
    obtain ⟨g, hg, hclosed⟩ := Log.closed_of_enrol ht hrefused
    have hjoin := Group.join_of_closed hclosed (r.log.bases topic)
    have moved : g.move? (.join (r.log.bases topic)) = some g := by rw [Group.move?, hjoin]
    have step := Log.regrouped_setGroup hg moved
    have hsilent : r.heard (.enrol group topic) r = [] := by
      rw [heard]
      simp only [groupMove?, step.before, hg, Group.events, Group.replies, hjoin, if_true]
      rfl
    rw [hsilent]
    exact .idle

theorem effect_of_ask {group topic : String} {number : ℕ}
    (h : r.move? (.ask group topic number) = some r') :
    Effect r (.ask group topic number) r' (r.heard (.ask group topic number) r') := by
  rw [move?] at h
  split at h
  · rename_i hlistening
    obtain ⟨g, hg, hlistening⟩ := (Option.any_eq_true _ _).mp hlistening
    have moved : g.move? (.ask number) = some (g.nextEvent number).2 := if_pos hlistening
    have step := Log.regrouped_setGroup hg moved
    rw [Log.nextEvent, hg] at h
    cases h
    rw [heard_of_regrouped rfl step]
    have heffect := Effect.regroup (m := .ask group topic number) rfl step
    rwa [Group.claims_events] at heffect
  · cases h

/-- **Everything that a move can do.** -/
theorem effect_of_move? {m : LogMove} (h : r.move? m = some r') :
    Effect r m r' (r.events m r') := by
  cases m with
  | createTopic name partitions =>
    rw [move?] at h
    rw [events]
    split at h <;> rename_i hcreated <;> cases h
    · exact .create hcreated
    · exact .idle
  | append topic key value =>
    obtain ⟨t, ht, h⟩ := Option.map_eq_some_iff.mp h
    cases h
    exact .append ht
  | enrol group topic => exact effect_of_enrol h
  | ask group topic number => exact effect_of_ask h
  | leave group topic number =>
    cases h
    exact effect_of_updateGroup rfl (fun _ => rfl) (fun g g' => Group.claims_events g _ g') rfl
  | drop group topic number =>
    cases h
    exact effect_of_updateGroup rfl (fun _ => rfl) (fun g g' => Group.claims_events g _ g') rfl
  | mark i offset =>
    obtain ⟨x, hx, h⟩ := Option.map_eq_some_iff.mp h
    cases h
    have concerns : r.groupMove? (.mark i offset) = some (x.claim.group, x.claim.topic,
        .commit x.claim.partition x.claim.generation offset) := by rw [groupMove?, hx]; rfl
    exact effect_of_updateGroup concerns (fun _ => rfl) (fun g g' => Group.claims_events g _ g') rfl
  | read i m =>
    obtain ⟨x, hx, h⟩ := Option.bind_eq_some_iff.mp h
    obtain ⟨⟨x', a⟩, hstep, h⟩ := Option.map_eq_some_iff.mp h
    cases h
    rw [events, hx, Option.bind_some, hstep, Option.bind_some]
    exact .read hx (Reader.effect_of_step? hstep)
  | shut =>
    cases h
    exact .shut
  | close group topic =>
    cases h
    exact effect_of_updateGroup rfl (fun _ => rfl) (fun g g' => Group.claims_events g _ g') rfl
  | closeGroups =>
    cases h
    exact .closeGroups

end Readership

end SmsRelay
