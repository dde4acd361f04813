import SmsRelay.Proofs.Log.Fencing

/-!
# Closing a log

Sends and joins are let in when they are asked for, and done when they are polled: that is later,
or never if they are given up. Closing the log sets the flag, looks which groups there are, and ends
them one after the other, and other things happen in between. So what has been let in before the
flag was set can still be done while the log is being closed, and after that.

When the call to close has returned, nobody is let in any more. What is sent or joined then had been
let in before, and nothing else grows. A group is closed for good if it was there when the groups
were looked up, and it never comes to be if no join that was under way then was for it. A group that
such a join creates afterwards is not closed: `LogDesk.closed_overtaken`.

## Implementation notes

Everything but the steps of sends, of joins and of one call to close is a move of `Readership`, and
so is what is done when a call is polled: a join creates its group and registers its member at once.
Other calls to close the log may be among these moves.

## Main results

* `LogDesk.Run.closed`: what a call to close settles, along any run.
* `LogDesk.Run.closed_of_idle`: closing is final if nothing was under way.
-/

namespace SmsRelay

/-- A send or a join. -/
inductive LogCall where
  | send (topic key : String) (value : Bytes)
  | join (group topic : String)
  deriving DecidableEq

namespace LogCall

/-- The topic that must exist. -/
def topic : LogCall → String
  | send topic _ _ => topic
  | join _ topic => topic

/-- What is done when it is polled. -/
def move : LogCall → LogMove
  | send topic key value => .append topic key value
  | join group topic => .enrol group topic

end LogCall

/-- How far a call to close a log has come. -/
inductive ClosingStage where
  | idle
  /-- The flag is set. -/
  | shut
  /-- The groups have been looked up. These are still to be ended; when none is left, the call has
  returned. -/
  | ending (rest : List (String × String))
  deriving DecidableEq

/-- A log and its readers, with the sends and joins that are under way and a call to close it. -/
structure LogDesk extends Readership where
  calls : List LogCall := []
  stage : ClosingStage := .idle

/-- What can happen to a log with its calls. -/
inductive DeskMove where
  /-- Something is asked for, and let in or refused. -/
  | ask (c : LogCall)
  /-- A call that is under way is done. -/
  | poll (i : ℕ)
  | abandon (i : ℕ)
  | shut
  | lookUp
  /-- The next group is ended. -/
  | endGroup
  | other (m : LogMove)
  deriving DecidableEq

/-- Whether a move is what a send or a join does. -/
def LogMove.isEntry : LogMove → Bool
  | .append .. | .enrol .. => true
  | _ => false

/-- Whether an event is of a send or of a join. -/
def LogEvent.isEntry : LogEvent → Bool
  | sent .. | heard _ _ (.joined ..) => true
  | _ => false

/-! ### Groups that are closed -/

namespace Group

variable {size : ℕ} {g g' : Group} {m : GroupMove}

/-- A group that is closed stays so. -/
theorem Orderly.closed_of_move? (ho : g.Orderly size) (closed : g.closed = true)
    (moved : g.move? m = some g') : g'.closed = true ∧ g'.generation = g.generation := by
  have heffect := effect_of_move? ho moved
  generalize g.events m g' = es at heffect
  cases heffect with
  | join opened | leave _ opened =>
    rw [closed] at opened
    cases opened
  | refuse | depart | drop => exact ⟨closed, rfl⟩
  | ask =>
    refine ⟨?_, generation_nextEvent g _⟩
    rw [nextEvent]
    split
    · exact closed
    · split <;> exact closed
  | commit =>
    refine ⟨?_, generation_commit g _ _ _⟩
    rw [Group.commit]
    split <;> exact closed
  | close => exact ⟨rfl, generation_close g⟩

/-- What it is for a group to be over. The last that a session has been told is the end, unless its
owner has left or listens no more. -/
structure Over (g : Group) (h : List GroupEvent) : Prop where
  members : g.members = []
  refuses : ∀ bases, g.join bases = .error .closed
  told : ∀ n first s, .joined n first ∈ h → g.session? n = some s → s.listening = true →
    ∃ told k, g.stream h n = told ++ List.replicate k .closed ∧ Told first .over told

theorem Sound.over {h : List GroupEvent} (hs : g.Sound size h) (closed : g.closed = true) :
    g.Over h := by
  obtain ⟨ho, hi⟩ := hs
  have hmembers := ho.dissolved closed
  refine ⟨hmembers, join_of_closed closed, fun n first s hjoined hsession hlistening => ?_⟩
  have hnot : n ∉ g.members := hmembers ▸ List.not_mem_nil
  obtain ⟨stage, told, k, heq, htold, hover⟩ := hi.concluded n first s hjoined hsession hnot
  rw [hover (.inr hlistening)] at htold
  exact ⟨told, k, heq, htold⟩

/-- Only a join is heard of as one. -/
theorem countP_events (g : Group) (m : GroupMove) (g' : Group) (group topic : String) :
    ((g.events m g').map (LogEvent.heard group topic)).countP LogEvent.isEntry ≤ 1 ∧
      ((∀ bases, m ≠ .join bases) →
        ((g.events m g').map (LogEvent.heard group topic)).countP LogEvent.isEntry = 0) := by
  have hbegan : ((if g'.generation = g.generation then []
      else [GroupEvent.began g'.generation g'.members]).map
        (LogEvent.heard group topic)).countP LogEvent.isEntry = 0 := by
    split <;> rfl
  rw [events, List.map_append, List.countP_append, hbegan, Nat.add_zero, replies.eq_def]
  cases m with
  | join bases =>
    refine ⟨?_, fun hm => absurd rfl (hm bases)⟩
    simp only
    split
    · exact Nat.le_refl 1
    · exact Nat.zero_le 1
  | ask number =>
    simp only
    cases (g.nextEvent number).1 with
    | none => exact ⟨Nat.zero_le 1, fun _ => rfl⟩
    | some e => exact ⟨Nat.zero_le 1, fun _ => rfl⟩
  | leave | drop | commit | close => exact ⟨Nat.zero_le 1, fun _ => rfl⟩

end Group

/-! ### Moves of a log -/

namespace Log

variable {l : Log} {name topic : String}

theorem closed_updateGroup (l : Log) (name topic : String) (f : Group → Group) :
    (l.updateGroup name topic f).closed = l.closed := by
  rw [updateGroup]
  split <;> rfl

theorem closed_append (l : Log) (topic key : String) (value : Bytes) :
    (l.append topic key value).1.closed = l.closed := by
  rw [append]
  split <;> rfl

theorem closed_nextEvent (l : Log) (name topic : String) (number : ℕ) :
    (l.nextEvent name topic number).2.closed = l.closed := by
  rw [nextEvent]
  split <;> rfl

theorem closed_enrol {t : Topic} {number : ℕ} {l' : Log}
    (joined : l.enrol name t = .ok (number, l')) : l'.closed = l.closed := by
  have hwith : (l.withGroup name t).1.closed = l.closed := by
    rw [withGroup]
    split <;> rfl
  rw [enrol] at joined
  generalize l.withGroup name t = p at joined hwith
  simp only at joined
  split at joined <;> cases joined
  exact hwith

theorem group?_updateGroup_of_none (hg : l.group? name topic = none) (name' topic' : String)
    (f : Group → Group) : (l.updateGroup name' topic' f).group? name topic = none := by
  rw [updateGroup]
  split
  · rw [group?_setGroup, hg, Option.map_none]
  · exact hg

theorem group?_nextEvent_of_none (hg : l.group? name topic = none) (name' topic' : String)
    (number : ℕ) : (l.nextEvent name' topic' number).2.group? name topic = none := by
  rw [nextEvent]
  split
  · rw [group?_setGroup, hg, Option.map_none]
  · exact hg

end Log

namespace Readership

variable {r r' : Readership} {m : LogMove} {es : List LogEvent} {name topic : String}

/-- A log that is closed stays so. -/
theorem closed_of_move? (moved : r.move? m = some r') (closed : r.log.closed = true) :
    r'.log.closed = true := by
  cases m with
  | createTopic name partitions =>
    rw [move?] at moved
    split at moved <;> rename_i hcreated <;> cases moved
    · obtain ⟨-, -, rfl⟩ := Log.of_createTopic hcreated
      exact closed
    · exact closed
  | append topic key value =>
    obtain ⟨t, -, rfl⟩ := Option.map_eq_some_iff.mp moved
    exact (Log.closed_append _ _ _ _).trans closed
  | enrol group topic =>
    obtain ⟨t, -, rfl⟩ := Option.map_eq_some_iff.mp moved
    split
    · rename_i hjoined
      exact (Log.closed_enrol hjoined).trans closed
    · exact closed
  | ask group topic number =>
    rw [move?] at moved
    split at moved <;> cases moved
    exact (Log.closed_nextEvent _ _ _ _).trans closed
  | leave | drop | close =>
    cases moved
    exact (Log.closed_updateGroup _ _ _ _).trans closed
  | mark i offset =>
    obtain ⟨x, -, rfl⟩ := Option.map_eq_some_iff.mp moved
    exact (Log.closed_updateGroup _ _ _ _).trans closed
  | read i m =>
    obtain ⟨x, -, moved⟩ := Option.bind_eq_some_iff.mp moved
    obtain ⟨p, -, rfl⟩ := Option.map_eq_some_iff.mp moved
    exact closed
  | shut =>
    cases moved
    rfl
  | closeGroups =>
    cases moved
    exact closed

/-- A group comes to be when a member joins. -/
theorem group?_of_none (moved : r.move? m = some r') (hg : r.log.group? name topic = none)
    (hm : m ≠ .enrol name topic) : r'.log.group? name topic = none := by
  cases m with
  | createTopic name partitions =>
    rw [move?] at moved
    split at moved <;> rename_i hcreated <;> cases moved
    · obtain ⟨-, -, rfl⟩ := Log.of_createTopic hcreated
      exact hg
    · exact hg
  | append topic key value =>
    obtain ⟨t, -, rfl⟩ := Option.map_eq_some_iff.mp moved
    exact (congrArg (List.find? _) (Log.groups_append _ _ _ _)).trans hg
  | enrol group topic' =>
    obtain ⟨t, ht, rfl⟩ := Option.map_eq_some_iff.mp moved
    split
    · rename_i hjoined
      obtain ⟨g, g', step⟩ := Log.regrouped_enrol ht hjoined
      refine (step.others name topic ?_).trans hg
      rintro ⟨⟩
      exact hm rfl
    · exact hg
  | ask group topic' number =>
    rw [move?] at moved
    split at moved <;> cases moved
    exact Log.group?_nextEvent_of_none hg _ _ _
  | leave | drop | close =>
    cases moved
    exact Log.group?_updateGroup_of_none hg _ _ _
  | mark i offset =>
    obtain ⟨x, -, rfl⟩ := Option.map_eq_some_iff.mp moved
    exact Log.group?_updateGroup_of_none hg _ _ _
  | read i m =>
    obtain ⟨x, -, moved⟩ := Option.bind_eq_some_iff.mp moved
    obtain ⟨p, -, rfl⟩ := Option.map_eq_some_iff.mp moved
    exact hg
  | shut =>
    cases moved
    exact hg
  | closeGroups =>
    cases moved
    rw [Log.group?_closeGroups, hg, Option.map_none]

/-- A partition grows when a record is sent. -/
theorem Effect.partitionAt (heffect : Effect r m r' es)
    (hm : ∀ key value, m ≠ .append topic key value) (hn : r.log.Numbered) {i : ℕ} {p : Partition}
    (hp : r.log.partitionAt topic i = some p) : r'.log.partitionAt topic i = some p := by
  cases heffect with
  | create created => exact Log.partitionAt_createTopic created hp
  | @append topic' key value t found =>
    have happended := hn.appended topic' key value
    generalize r.log.append topic' key value = e at happended
    cases happended with
    | ignored => exact hp
    | grown _ _ elsewhere =>
      refine (elsewhere topic i ?_).trans hp
      rintro ⟨⟩
      exact hm key value rfl
  | regroup _ step => exact (Log.partitionAt_of_topics step.topics topic i).trans hp
  | read | shut | closeGroups | idle => exact hp

/-- What is sent or joined. -/
theorem Effect.countP_events (heffect : Effect r m r' es) :
    es.countP LogEvent.isEntry ≤ 1 ∧ (m.isEntry = false → es.countP LogEvent.isEntry = 0) := by
  cases heffect with
  | append => exact ⟨Nat.le_refl 1, nofun⟩
  | @regroup _ group topic m' g g' l concerns step =>
    obtain ⟨hle, hzero⟩ := Group.countP_events g m' g' group topic
    refine ⟨hle, fun hentry => hzero ?_⟩
    rintro bases rfl
    cases m with
    | enrol => cases hentry
    | mark i offset =>
      obtain ⟨x, -, heq⟩ := Option.map_eq_some_iff.mp concerns
      cases heq
    | _ => cases concerns
  | @read i m x x' a => cases a <;> exact ⟨Nat.zero_le 1, fun _ => rfl⟩
  | create | shut | closeGroups | idle => exact ⟨Nat.zero_le 1, fun _ => rfl⟩

end Readership

/-! ### Calls and moves -/

namespace LogDesk

/-- A log without topics, and nobody there. -/
def empty (retention : ℕ) : LogDesk := { Readership.empty retention with }

/-- The groups are looked up. -/
def lookUp (d : LogDesk) : LogDesk :=
  { d with stage := .ending (d.log.groups.map fun g => (g.name, g.topic)) }

/-- What becomes of the calls and of the call to close, and what the log or a reader does. -/
def turn? (d : LogDesk) : DeskMove → Option (List LogCall × ClosingStage × Option LogMove)
  | .ask c => match d.log.topic? c.topic with
    | .ok _ => some (d.calls ++ [c], d.stage, none)
    | .error _ => some (d.calls, d.stage, none)
  | .poll i => (d.calls[i]?).map fun c => (d.calls.eraseIdx i, d.stage, some c.move)
  | .abandon i => some (d.calls.eraseIdx i, d.stage, none)
  | .shut => if d.stage = .idle then some (d.calls, .shut, some .shut) else none
  | .lookUp => if d.stage = .shut then some (d.calls, d.lookUp.stage, none) else none
  | .endGroup => match d.stage with
    | .ending ((name, topic) :: rest) => some (d.calls, .ending rest, some (.close name topic))
    | _ => none
  | .other m => if m.isEntry then none else some (d.calls, d.stage, some m)

/-- The result of a move, if it can be made, with what is seen of it. -/
def move? (d : LogDesk) (m : DeskMove) : Option (LogDesk × List LogEvent) :=
  (d.turn? m).bind fun
    | (calls, stage, none) => some ({ d with calls, stage }, [])
    | (calls, stage, some m') => (d.toReadership.move? m').map fun r =>
      ({ r with calls, stage }, d.toReadership.events m' r)

/-- A run from `d₀`, with what is seen of it, oldest first. -/
inductive Run (d₀ : LogDesk) : LogDesk → List LogEvent → Prop
  | start : Run d₀ d₀ []
  | move {d d' : LogDesk} {h es : List LogEvent} {m : DeskMove} (run : Run d₀ d h)
      (moved : d.move? m = some (d', es)) : Run d₀ d' (h ++ es)

/-- Everything that can become of the calls and of the call to close. -/
inductive Turn (d : LogDesk) : List LogCall → ClosingStage → Option LogMove → Prop
  | letIn {c : LogCall} {t : Topic} (opened : d.log.topic? c.topic = .ok t) :
      Turn d (d.calls ++ [c]) d.stage none
  | refuse : Turn d d.calls d.stage none
  | poll {i : ℕ} {c : LogCall} (found : d.calls[i]? = some c) :
      Turn d (d.calls.eraseIdx i) d.stage (some c.move)
  | abandon (i : ℕ) : Turn d (d.calls.eraseIdx i) d.stage none
  | shut (stage : d.stage = .idle) : Turn d d.calls .shut (some .shut)
  | lookUp (stage : d.stage = .shut) : Turn d d.calls d.lookUp.stage none
  | endGroup {name topic : String} {rest : List (String × String)}
      (stage : d.stage = .ending ((name, topic) :: rest)) :
      Turn d d.calls (.ending rest) (some (.close name topic))
  | other {m : LogMove} (entry : m.isEntry = false) : Turn d d.calls d.stage (some m)

/-- Everything that a move can do. -/
inductive Effect (d : LogDesk) : LogDesk → List LogEvent → Prop
  | quiet {calls : List LogCall} {stage : ClosingStage} (turn : Turn d calls stage none) :
      Effect d { d with calls, stage } []
  | move {calls : List LogCall} {stage : ClosingStage} {m : LogMove} {r : Readership}
      (turn : Turn d calls stage (some m)) (moved : d.toReadership.move? m = some r) :
      Effect d { r with calls, stage } (d.toReadership.events m r)

variable {d d' d₀ d₁ : LogDesk} {h h' es : List LogEvent} {m : DeskMove} {retention : ℕ}

theorem turn_of_turn? {calls : List LogCall} {stage : ClosingStage} {m' : Option LogMove}
    (hturn : d.turn? m = some (calls, stage, m')) : Turn d calls stage m' := by
  unfold turn? at hturn
  split at hturn
  · split at hturn <;> rename_i htopic <;> cases hturn
    · exact .letIn htopic
    · exact .refuse
  · obtain ⟨c, hc, hturn⟩ := Option.map_eq_some_iff.mp hturn
    cases hturn
    exact .poll hc
  · cases hturn
    exact .abandon _
  · split at hturn <;> rename_i hstage <;> cases hturn
    exact .shut hstage
  · split at hturn <;> rename_i hstage <;> cases hturn
    exact .lookUp hstage
  · split at hturn <;> rename_i hstage <;> cases hturn
    exact .endGroup hstage
  · split at hturn <;> rename_i hentry <;> cases hturn
    exact .other (by simpa using hentry)

theorem effect_of_move? (moved : d.move? m = some (d', es)) : Effect d d' es := by
  obtain ⟨⟨calls, stage, _ | m'⟩, hturn, moved⟩ := Option.bind_eq_some_iff.mp moved
  · cases moved
    exact .quiet (turn_of_turn? hturn)
  · obtain ⟨r, hr, moved⟩ := Option.map_eq_some_iff.mp moved
    cases moved
    exact .move (turn_of_turn? hturn) hr

/-- **The log and its readers** in a run. -/
theorem Run.readership (run : Run d₀ d h) :
    Readership.Run (fun _ _ _ => True) d₀.toReadership d.toReadership h := by
  induction run with
  | start => exact .start
  | move run moved ih =>
    cases effect_of_move? moved with
    | quiet => rwa [List.append_nil]
    | move _ moved' => exact ih.move trivial moved'

theorem Run.trans (run : Run d₀ d h) (run' : Run d d' h') : Run d₀ d' (h ++ h') := by
  induction run' with
  | start => rwa [List.append_nil]
  | move _ moved ih =>
    rw [← List.append_assoc]
    exact ih.move moved

/-! ### After the flag -/

/-- Nobody is let in when the flag is set. -/
theorem topic?_of_closed {l : Log} (closed : l.closed = true) (topic : String) :
    l.topic? topic = .error .closed :=
  if_pos closed

/-- The calls are fewer and fewer when the flag is set. -/
theorem Turn.sublist {calls : List LogCall} {stage : ClosingStage} {m' : Option LogMove}
    (turn : Turn d calls stage m') (closed : d.log.closed = true) : calls.Sublist d.calls := by
  cases turn with
  | letIn opened =>
    rw [topic?_of_closed closed] at opened
    cases opened
  | poll | abandon => exact List.eraseIdx_sublist _ _
  | refuse | shut | lookUp | endGroup | other => exact List.Sublist.refl _

/-- A call that is under way does what is sent or joined. -/
theorem Turn.mem_of_isEntry {calls : List LogCall} {stage : ClosingStage} {m' : LogMove}
    (turn : Turn d calls stage (some m')) (entry : m'.isEntry = true) :
    ∃ c ∈ d.calls, m' = c.move ∧ calls.length + 1 = d.calls.length := by
  cases turn with
  | poll found =>
    refine ⟨_, List.mem_of_getElem? found, rfl, ?_⟩
    obtain ⟨hlt, -⟩ := List.getElem?_eq_some_iff.mp found
    exact List.length_eraseIdx_add_one hlt
  | shut | endGroup => cases entry
  | other hother =>
    rw [entry] at hother
    cases hother

/-- **One move** after the flag is set. -/
theorem Effect.entries (heffect : Effect d d' es) (closed : d.log.closed = true) :
    d'.log.closed = true ∧ d'.calls.Sublist d.calls ∧
      es.countP LogEvent.isEntry + d'.calls.length ≤ d.calls.length := by
  cases heffect with
  | quiet turn =>
    have hsub := turn.sublist closed
    exact ⟨closed, hsub, (Nat.zero_add _).trans_le hsub.length_le⟩
  | @move calls stage m' r turn moved =>
    have hsub := turn.sublist closed
    refine ⟨Readership.closed_of_move? moved closed, hsub, ?_⟩
    obtain ⟨hone, hzero⟩ := (Readership.effect_of_move? moved).countP_events
    show _ + calls.length ≤ _
    cases hentry : m'.isEntry with
    | true =>
      obtain ⟨-, -, -, hlength⟩ := turn.mem_of_isEntry hentry
      omega
    | false =>
      rw [hzero hentry, Nat.zero_add]
      exact hsub.length_le

/-- **After the flag is set** what is sent or joined had been let in before. -/
theorem Run.entries (run : Run d d' h) (closed : d.log.closed = true) :
    d'.log.closed = true ∧ d'.calls.Sublist d.calls ∧
      h.countP LogEvent.isEntry + d'.calls.length ≤ d.calls.length := by
  induction run with
  | start => exact ⟨closed, List.Sublist.refl _, (Nat.zero_add _).le⟩
  | move run moved ih =>
    obtain ⟨hclosed, hsub, hcount⟩ := ih
    obtain ⟨hclosed', hsub', hcount'⟩ := (effect_of_move? moved).entries hclosed
    refine ⟨hclosed', hsub'.trans hsub, ?_⟩
    rw [List.countP_append]
    omega

/-- A partition that no send under way is for stays as it is. -/
theorem Run.partitionAt (run : Run d d' h) (closed : d.log.closed = true) (hn : d.log.Numbered)
    {topic : String} (hcalls : ∀ key value, .send topic key value ∉ d.calls) {i : ℕ} {p : Partition}
    (hp : d.log.partitionAt topic i = some p) : d'.log.partitionAt topic i = some p := by
  suffices hboth : d'.log.Numbered ∧ d'.log.partitionAt topic i = some p from hboth.2
  induction run with
  | start => exact ⟨hn, hp⟩
  | @move d₁ d' h es m run moved ih =>
    obtain ⟨hn₁, hp₁⟩ := ih
    obtain ⟨-, hsub, -⟩ := run.entries closed
    cases effect_of_move? moved with
    | quiet => exact ⟨hn₁, hp₁⟩
    | move turn moved' =>
      have heffect := Readership.effect_of_move? moved'
      refine ⟨heffect.numbered hn₁, heffect.partitionAt ?_ hn₁ hp₁⟩
      rintro key value rfl
      obtain ⟨c, hc, heq, -⟩ := turn.mem_of_isEntry rfl
      cases c with
      | join => cases heq
      | send =>
        cases heq
        exact hcalls key value (hsub.subset hc)

/-! ### Groups after the flag -/

variable {name topic : String}

/-- A group does not come to be if no join under way is for it. -/
theorem Run.group?_of_none (run : Run d d' h) (closed : d.log.closed = true)
    (hg : d.log.group? name topic = none) (hcalls : .join name topic ∉ d.calls) :
    d'.log.group? name topic = none := by
  induction run with
  | start => exact hg
  | move run moved ih =>
    obtain ⟨-, hsub, -⟩ := run.entries closed
    cases effect_of_move? moved with
    | quiet => exact ih
    | move turn moved' =>
      refine Readership.group?_of_none moved' ih ?_
      rintro rfl
      obtain ⟨c, hc, heq, -⟩ := turn.mem_of_isEntry rfl
      cases c with
      | send => cases heq
      | join =>
        cases heq
        exact hcalls (hsub.subset hc)

theorem Run.orderly (run : Run (empty retention) d h) {g : Group}
    (hg : d.log.group? name topic = some g) : ∃ size, g.Orderly size := by
  obtain ⟨t, -, hrun⟩ := run.readership.group hg
  exact ⟨t.size, hrun.sound.orderly⟩

/-- A group that is closed stays so. -/
theorem Effect.group?_of_closed (heffect : Effect d d' es) {g : Group}
    (hg : d.log.group? name topic = some g) {size : ℕ} (ho : g.Orderly size) :
    ∃ g', d'.log.group? name topic = some g' ∧
      (g.closed = true → g'.closed = true ∧ g'.generation = g.generation) := by
  cases heffect with
  | quiet => exact ⟨g, hg, fun hclosed => ⟨hclosed, rfl⟩⟩
  | move _ moved =>
    rcases (Readership.effect_of_move? moved).group name topic with
      ⟨hgroup, -⟩ | ⟨m', g₁, g', hseat, gmoved, hgroup, -⟩
    · exact ⟨g, hgroup.trans hg, fun hclosed => ⟨hclosed, rfl⟩⟩
    · rw [Log.seat?, hg, Option.some_or] at hseat
      cases hseat
      exact ⟨g', hgroup, fun hclosed => ho.closed_of_move? hclosed gmoved⟩

theorem Run.group?_of_closed (run : Run (empty retention) d h) (run' : Run d d' h') {g : Group}
    (hg : d.log.group? name topic = some g) (hclosed : g.closed = true) :
    ∃ g', d'.log.group? name topic = some g' ∧ g'.closed = true ∧
      g'.generation = g.generation := by
  induction run' with
  | start => exact ⟨g, hg, hclosed, rfl⟩
  | move run' moved ih =>
    obtain ⟨g₁, hg₁, hclosed₁, hgeneration₁⟩ := ih
    obtain ⟨size, ho⟩ := (run.trans run').orderly hg₁
    obtain ⟨g', hg', hkept⟩ := (effect_of_move? moved).group?_of_closed hg₁ ho
    obtain ⟨hclosed', hgeneration'⟩ := hkept hclosed₁
    exact ⟨g', hg', hclosed', hgeneration'.trans hgeneration₁⟩

/-- A group that was there when the groups were looked up: it is closed, or it is still to be
ended. -/
def Ending (d : LogDesk) (name topic : String) : Prop :=
  ∃ g rest, d.log.group? name topic = some g ∧ d.stage = .ending rest ∧
    (g.closed = true ∨ (name, topic) ∈ rest)

theorem ending_lookUp {g : Group} (hg : d.log.group? name topic = some g) :
    d.lookUp.Ending name topic := by
  obtain ⟨hmem, hname, htopic⟩ := Log.mem_of_group? hg
  refine ⟨g, _, hg, rfl, .inr (List.mem_map.mpr ⟨g, hmem, ?_⟩)⟩
  rw [hname, htopic]

/-- **One step** of the call to close ends one group, and nothing opens it again. -/
theorem Ending.move (hd : d.Ending name topic) (heffect : Effect d d' es)
    (ordered : ∀ g, d.log.group? name topic = some g → ∃ size, g.Orderly size) :
    d'.Ending name topic := by
  obtain ⟨g, rest, hg, hstage, hended⟩ := hd
  obtain ⟨size, ho⟩ := ordered g hg
  obtain ⟨g', hg', hkept⟩ := heffect.group?_of_closed hg ho
  have hsame : g'.closed = true ∨ (name, topic) ∈ rest := hended.imp_left fun hclosed =>
    (hkept hclosed).1
  cases heffect with
  | quiet turn =>
    cases turn with
    | letIn | refuse | abandon => exact ⟨g', rest, hg', hstage, hsame⟩
    | lookUp stage =>
      rw [hstage] at stage
      cases stage
  | move turn moved =>
    cases turn with
    | poll | other => exact ⟨g', rest, hg', hstage, hsame⟩
    | shut stage =>
      rw [hstage] at stage
      cases stage
    | @endGroup name' topic' rest' stage =>
      obtain rfl : rest = (name', topic') :: rest' := by
        rw [hstage] at stage
        exact ClosingStage.ending.inj stage
      refine ⟨g', rest', hg', rfl, ?_⟩
      rcases hsame with hclosed | hmem
      · exact .inl hclosed
      · rcases List.mem_cons.mp hmem with heq | hmem
        · -- It is this group's turn.
          cases heq
          cases moved
          have step := Log.regrouped_updateGroup (f := Group.close) (m := .close) hg rfl
          obtain rfl := Option.some.inj (step.after.symm.trans hg')
          exact .inl rfl
        · exact .inr hmem

theorem Run.ending (run : Run (empty retention) d h) (run' : Run d d' h')
    (hd : d.Ending name topic) : d'.Ending name topic := by
  induction run' with
  | start => exact hd
  | move run' moved ih =>
    exact ih.move (effect_of_move? moved) fun g hg => (run.trans run').orderly hg

/-- The flag is the first that is set. -/
theorem Run.closed_of_stage (run : Run (empty retention) d h) (hstage : d.stage ≠ .idle) :
    d.log.closed = true := by
  induction run with
  | start => exact absurd rfl hstage
  | move run moved ih =>
    cases effect_of_move? moved with
    | quiet turn =>
      cases turn with
      | letIn | refuse | abandon => exact ih hstage
      | lookUp stage => exact ih (by rw [stage]; decide)
    | move turn moved' =>
      cases turn with
      | poll | other => exact Readership.closed_of_move? moved' (ih hstage)
      | shut =>
        cases moved'
        rfl
      | endGroup stage =>
        exact Readership.closed_of_move? moved' (ih (by rw [stage]; exact ClosingStage.noConfusion))

theorem Run.lookUp (run : Run (empty retention) d h) (flagged : d.stage = .shut) :
    Run (empty retention) d.lookUp h := by
  have moved : d.move? .lookUp = some (d.lookUp, []) := by
    rw [move?, turn?, if_pos flagged]
    rfl
  rw [← List.append_nil h]
  exact run.move moved

/-- A group that is closed, with those who read its claims. -/
theorem Run.over (run : Run (empty retention) d h) {g : Group}
    (hg : d.log.group? name topic = some g) (hclosed : g.closed = true) :
    g.Over (Readership.groupEvents h name topic) ∧ ∀ i x, d.readers[i]? = some x →
      x.claim.group = name → x.claim.topic = topic → x.stage = .resting ∨ x.stage = .asked →
      ∀ d' h', Run d d' h' → ∀ a, .returned i a ∈ h' → a = none := by
  obtain ⟨t, -, hrun⟩ := run.readership.group hg
  refine ⟨hrun.sound.over hclosed, fun i x hx hname htopic hstage d' h' run' => ?_⟩
  obtain ⟨g', hg', -, hended⟩ := run.readership.hasEnded_iff (List.mem_of_getElem? hx)
  rw [hname, htopic, hg] at hg'
  cases hg'
  exact (run'.readership.silent hx (hended.mpr (.inr hclosed)) hstage).2

/-- **Closing a log**, along any run. When the call to close has returned, whatever happens then,
nobody is let in. What is sent or joined had been let in before, each call at most once, and a
partition that no send under way is for stays as it is. If a group was there when the groups were
looked up, or no join under way then was for it, then it is closed or does not exist, and its
generation stays as it is: it has no members and refuses more, its sessions have been told of the
end unless their owners have left or listen no more, and calls that begin under its claims give
nothing. -/
theorem Run.closed (run₁ : Run (empty retention) d₁ h₁) (flagged : d₁.stage = .shut)
    (run₂ : Run d₁.lookUp d₂ h₂) (returned : d₂.stage = .ending []) (run₃ : Run d₂ d h) :
    (∀ topic, d.log.topic? topic = .error .closed) ∧
    h.countP LogEvent.isEntry + d.calls.length ≤ d₂.calls.length ∧
    (∀ topic, (∀ key value, .send topic key value ∉ d₂.calls) → ∀ i w,
      d₂.log.watermark? topic i = some w → d.log.watermark? topic i = some w) ∧
    ∀ name topic, (d₁.log.group? name topic).isSome ∨ .join name topic ∉ d₁.calls →
      d.log.generation name topic = d₂.log.generation name topic ∧
      ∀ g, d.log.group? name topic = some g →
        g.Over (Readership.groupEvents (h₁ ++ h₂ ++ h) name topic) ∧
        ∀ i x, d.readers[i]? = some x → x.claim.group = name → x.claim.topic = topic →
          x.stage = .resting ∨ x.stage = .asked →
          ∀ d' h', Run d d' h' → ∀ a, .returned i a ∈ h' → a = none := by
  have begun := run₁.lookUp flagged
  have closed₁ : d₁.lookUp.log.closed = true :=
    run₁.closed_of_stage (by rw [flagged]; exact ClosingStage.noConfusion)
  obtain ⟨closed₂, hsub, -⟩ := run₂.entries closed₁
  obtain ⟨closed₃, -, hcount⟩ := run₃.entries closed₂
  have ended := begun.trans run₂
  refine ⟨topic?_of_closed closed₃, hcount, fun topic hcalls i w hw => ?_,
    fun name topic hgroup => ?_⟩
  · obtain ⟨p, hp, rfl⟩ := Option.map_eq_some_iff.mp hw
    have hp' := run₃.partitionAt closed₂ ended.readership.numbered hcalls hp
    exact Option.map_eq_some_iff.mpr ⟨p, hp', rfl⟩
  · cases hg₁ : d₁.log.group? name topic with
    | none =>
      have hcalls : .join name topic ∉ d₁.calls := hgroup.resolve_left (by simp [hg₁])
      have hg₂ := run₂.group?_of_none closed₁ hg₁ hcalls
      have hg₃ := run₃.group?_of_none closed₂ hg₂ fun hmem => hcalls (hsub.subset hmem)
      refine ⟨by rw [Log.generation, Log.generation, hg₂, hg₃], fun g hg => ?_⟩
      rw [hg₃] at hg
      cases hg
    | some g₁ =>
      obtain ⟨g₂, rest, hg₂, hstage, hended⟩ := begun.ending run₂ (ending_lookUp hg₁)
      rw [returned] at hstage
      cases hstage
      have hclosed₂ := hended.resolve_right List.not_mem_nil
      obtain ⟨g₃, hg₃, hclosed₃, hgeneration⟩ := ended.group?_of_closed run₃ hg₂ hclosed₂
      refine ⟨by simp only [Log.generation, hg₂, hg₃, hgeneration], fun g hg => ?_⟩
      obtain rfl := Option.some.inj (hg₃.symm.trans hg)
      exact (ended.trans run₃).over hg₃ hclosed₃

/-- **Closing is final** if nothing was under way when the groups were looked up: then nothing is
sent or joined after the call to close has returned, no partition grows, and all groups are over. -/
theorem Run.closed_of_idle (run₁ : Run (empty retention) d₁ h₁) (flagged : d₁.stage = .shut)
    (idle : d₁.calls = []) (run₂ : Run d₁.lookUp d₂ h₂) (returned : d₂.stage = .ending [])
    (run₃ : Run d₂ d h) :
    (∀ topic, d.log.topic? topic = .error .closed) ∧ h.countP LogEvent.isEntry = 0 ∧
    (∀ topic i w, d₂.log.watermark? topic i = some w → d.log.watermark? topic i = some w) ∧
    ∀ name topic, d.log.generation name topic = d₂.log.generation name topic ∧
      ∀ g, d.log.group? name topic = some g →
        g.Over (Readership.groupEvents (h₁ ++ h₂ ++ h) name topic) ∧
        ∀ i x, d.readers[i]? = some x → x.claim.group = name → x.claim.topic = topic →
          x.stage = .resting ∨ x.stage = .asked →
          ∀ d' h', Run d d' h' → ∀ a, .returned i a ∈ h' → a = none := by
  obtain ⟨hrefused, hcount, hpartitions, hgroups⟩ := run₁.closed flagged run₂ returned run₃
  have closed₁ : d₁.lookUp.log.closed = true :=
    run₁.closed_of_stage (by rw [flagged]; exact ClosingStage.noConfusion)
  have hsub : d₂.calls.Sublist d₁.calls := (run₂.entries closed₁).2.1
  have hnone : d₂.calls = [] := List.sublist_nil.mp (idle ▸ hsub)
  rw [hnone] at hcount hpartitions
  refine ⟨hrefused, ?_, fun topic => hpartitions topic fun _ _ => List.not_mem_nil,
    fun name topic => hgroups name topic (.inr (idle ▸ List.not_mem_nil))⟩
  rw [List.length_nil] at hcount
  omega

/-! ### A close that is overtaken -/

/-- Makes a move and adds what is seen of it to the history. -/
def record? (e : LogDesk × List LogEvent) (m : DeskMove) : Option (LogDesk × List LogEvent) :=
  (e.1.move? m).map fun p => (p.1, e.2 ++ p.2)

theorem Run.record {e e' : LogDesk × List LogEvent} (run : Run d₀ e.1 e.2)
    (made : record? e m = some e') : Run d₀ e'.1 e'.2 := by
  obtain ⟨p, hmove, rfl⟩ := Option.map_eq_some_iff.mp made
  exact run.move hmove

namespace Sample

/-- A send and a join are let in before the log is closed. -/
def entering : List DeskMove :=
  [.other (.createTopic "t" 1), .ask (.send "t" "a" [1]), .ask (.join "g" "t"), .shut]

/-- The join is done, and so is the send, and a reader reads. -/
def late : List DeskMove :=
  [.poll 1, .poll 0, .other (.ask "g" "t" 1), .other (.read 0 .call), .other (.read 0 .check),
    .other (.read 0 .note), .other (.read 0 .read)]

/-- What is seen of it. -/
def IsLate (e : LogDesk × List LogEvent) : Prop :=
  e.1.log.watermark? "t" 0 = some 1 ∧ e.1.log.generation "g" "t" = 1 ∧
    .returned 0 (some ⟨"t", 0, 0, "a", [1]⟩) ∈ e.2

instance : DecidablePred IsLate := fun _ => inferInstanceAs (Decidable (_ ∧ _))

end Sample

open Sample in
/-- A send and a join are let in, the log is closed, and the call to close returns. Then the join is
done, and so is the send: the first generation of a group begins, and its claim gives the record. -/
theorem closed_overtaken : ∃ d₁ h₁ d h, Run (empty 4) d₁ h₁ ∧ d₁.stage = .shut ∧
    d₁.lookUp.stage = .ending [] ∧ Run d₁.lookUp d h ∧
    d₁.log.watermark? "t" 0 = some 0 ∧ d.log.watermark? "t" 0 = some 1 ∧
    d₁.log.generation "g" "t" = 0 ∧ d.log.generation "g" "t" = 1 ∧
    .returned 0 (some ⟨"t", 0, 0, "a", [1]⟩) ∈ h := by
  obtain ⟨⟨d₁, h₁⟩, run₁, hstage, hnone, hwatermark, hgeneration, hlate⟩ :=
    exists_of_foldlM record? (fun e => Run (empty 4) e.1 e.2) (empty 4, []) entering
      (fun _ => Run.record) .start
      (fun e => e.1.stage = .shut ∧ e.1.lookUp.stage = .ending [] ∧
        e.1.log.watermark? "t" 0 = some 0 ∧ e.1.log.generation "g" "t" = 0 ∧
        (late.foldlM record? (e.1.lookUp, [])).any fun e => decide (IsLate e)) (by decide +kernel)
  obtain ⟨⟨d, h⟩, run, hwatermark', hgeneration', hreturned⟩ :=
    exists_of_foldlM record? (fun e => Run d₁.lookUp e.1 e.2) (d₁.lookUp, []) late
      (fun _ => Run.record) .start IsLate hlate
  exact ⟨d₁, h₁, d, h, run₁, hstage, hnone, run, hwatermark, hwatermark', hgeneration,
    hgeneration', hreturned⟩

end LogDesk

end SmsRelay
