import Mathlib.Data.List.Nodup
import SmsRelay.Log.Group

/-!
# Membership

A group and its members, one move after the other: members join, leave, stop listening and ask for
their next event, offsets are committed, and the group is closed.

## Implementation notes

A change of membership goes through a state between two generations: `revoke` leads there, and
`assign` leads on. `Orderly` describes a group within a generation and `Between` one between two.

## Main results

* `Group.revoke_eq_map`, `Group.assign_eq_map`, `Group.close_eq_map`: what becomes of sessions.
* `Group.effect_of_move?`: everything that a move can do.
-/

namespace SmsRelay

/-! ### Moves -/

/-- What can happen to a group. -/
inductive GroupMove where
  | join (bases : List ℕ)
  | leave (bases : List ℕ) (number : ℕ)
  | drop (number : ℕ)
  /-- The owner of a session asks for its next event. -/
  | ask (number : ℕ)
  | commit (partition generation offset : ℕ)
  | close
  deriving DecidableEq

/-- What is seen of a group. -/
inductive GroupEvent where
  /-- A member has joined, and its join has begun a generation. -/
  | joined (number generation : ℕ)
  /-- A session has answered with its next event. -/
  | answered (number : ℕ) (e : SessionEvent)
  /-- A generation begins, with its members in the order in which they joined. -/
  | began (generation : ℕ) (members : List ℕ)
  deriving DecidableEq

namespace Group

/-- The result of a move. A join that is refused changes nothing; a session that has been given up
is not asked any more. -/
def move? (g : Group) : GroupMove → Option Group
  | .join bases => match g.join bases with
    | .ok (_, g') => some g'
    | .error _ => some g
  | .leave bases number => some (g.leave bases number)
  | .drop number => some (g.drop number)
  | .ask number => if g.isListening number then some (g.nextEvent number).2 else none
  | .commit partition generation offset => some (g.commit partition generation offset)
  | .close => some g.close

/-- What the owner of a session or a new member sees of a move. -/
def replies (g : Group) : GroupMove → List GroupEvent
  | .join bases => match g.join bases with
    | .ok (number, g') => [.joined number g'.generation]
    | .error _ => []
  | .ask number => ((g.nextEvent number).1.map (GroupEvent.answered number)).toList
  | _ => []

/-- What is seen of a move from `g` to `g'`. -/
def events (g : Group) (m : GroupMove) (g' : Group) : List GroupEvent :=
  g.replies m ++ if g'.generation = g.generation then [] else [.began g'.generation g'.members]

/-- A run of a group from `g₀`, with what is seen of it, oldest first. -/
inductive Run (g₀ : Group) : Group → List GroupEvent → Prop
  | start : Run g₀ g₀ []
  | move {g g' : Group} {h : List GroupEvent} {m : GroupMove} (run : Run g₀ g h)
      (moved : g.move? m = some g') : Run g₀ g' (h ++ g.events m g')

end Group

/-! ### Sessions -/

/-- A session is told some events, if anyone listens. -/
def Session.hear (s : Session) (es : List SessionEvent) : Session :=
  if s.listening then { s with waiting := s.waiting ++ es } else s

namespace Session

@[simp] theorem number_hear (s : Session) (es : List SessionEvent) :
    (s.hear es).number = s.number := by
  rw [hear]
  split <;> rfl

@[simp] theorem attached_hear (s : Session) (es : List SessionEvent) :
    (s.hear es).attached = s.attached := by
  rw [hear]
  split <;> rfl

@[simp] theorem listening_hear (s : Session) (es : List SessionEvent) :
    (s.hear es).listening = s.listening := by
  rw [hear]
  split <;> rfl

theorem hear_nil (s : Session) : s.hear [] = s := by
  rw [hear, List.append_nil]
  exact ite_self s

theorem hear_hear (s : Session) (es es' : List SessionEvent) :
    (s.hear es).hear es' = s.hear (es ++ es') := by
  cases hs : s.listening <;> simp [hear, hs]

theorem waiting_hear (s : Session) (es : List SessionEvent) :
    (s.hear es).waiting = s.waiting ++ if s.listening then es else [] := by
  rw [hear]
  split <;> simp

end Session

/-- The events for a member. -/
def addressed (number : ℕ) (events : List (ℕ × SessionEvent)) : List SessionEvent :=
  events.filterMap fun p => if p.1 = number then some p.2 else none

theorem addressed_of_not_mem {number : ℕ} {events : List (ℕ × SessionEvent)}
    (h : number ∉ events.map Prod.fst) : addressed number events = [] :=
  List.filterMap_eq_nil_iff.mpr fun p hp =>
    if_neg fun heq => h (List.mem_map.mpr ⟨p, hp, heq⟩)

theorem addressed_cons_self (number : ℕ) (e : SessionEvent) (events : List (ℕ × SessionEvent)) :
    addressed number ((number, e) :: events) = e :: addressed number events := by
  simp [addressed]

theorem addressed_cons_of_ne {number n : ℕ} (h : n ≠ number) (e : SessionEvent)
    (events : List (ℕ × SessionEvent)) :
    addressed number ((n, e) :: events) = addressed number events := by
  simp [addressed, h]

/-- The same event for some members. -/
theorem addressed_const {members : List ℕ} (h : members.Nodup) (number : ℕ) (e : SessionEvent) :
    addressed number (members.map (·, e)) = if number ∈ members then [e] else [] := by
  induction members with
  | nil => rfl
  | cons n rest ih =>
    obtain ⟨hn, hrest⟩ := List.nodup_cons.mp h
    rw [List.map_cons]
    by_cases hnumber : n = number
    · subst hnumber
      rw [addressed_cons_self, ih hrest, if_neg hn, if_pos List.mem_cons_self]
    · rw [addressed_cons_of_ne hnumber, ih hrest]
      simp [Ne.symm hnumber]

/-- An event for each member by its place. -/
def byPlace (members : List ℕ) (e : ℕ → SessionEvent) : List (ℕ × SessionEvent) :=
  members.zipIdx.map fun (n, place) => (n, e place)

theorem addressed_byPlace {members : List ℕ} (h : members.Nodup) (e : ℕ → SessionEvent)
    {k number : ℕ} (hk : members[k]? = some number) :
    addressed number (byPlace members e) = [e k] := by
  suffices hfrom : ∀ start, addressed number
      ((members.zipIdx start).map fun (n, place) => (n, e place)) = [e (start + k)] by
    simpa [byPlace] using hfrom 0
  induction members generalizing k with
  | nil => cases hk
  | cons n rest ih =>
    intro start
    obtain ⟨hn, hrest⟩ := List.nodup_cons.mp h
    rw [List.zipIdx_cons, List.map_cons]
    cases k with
    | zero =>
      obtain rfl : n = number := by simpa using hk
      rw [addressed_cons_self, addressed_of_not_mem]
      · rfl
      · simpa [List.map_map, Function.comp_def] using hn
    | succ k =>
      have hk : rest[k]? = some number := by simpa using hk
      have hne : n ≠ number := fun heq => hn (heq.symm ▸ List.mem_of_getElem? hk)
      rw [addressed_cons_of_ne hne, ih hrest hk]
      congr 2
      omega

theorem addressed_byPlace_of_not_mem {members : List ℕ} (e : ℕ → SessionEvent) {number : ℕ}
    (h : number ∉ members) : addressed number (byPlace members e) = [] := by
  refine addressed_of_not_mem ?_
  simpa [byPlace, List.map_map, Function.comp_def] using h

namespace Group

/-! ### What operations do to sessions -/

theorem session?_of_map {g g' : Group} {f : Session → Session}
    (hg : g'.sessions = g.sessions.map f) (hf : ∀ s, (f s).number = s.number) (number : ℕ) :
    g'.session? number = (g.session? number).map f := by
  rw [session?, session?, hg, List.find?_map]
  congr 1
  refine congrArg (List.find? · g.sessions) (funext fun s => ?_)
  simp only [Function.comp_apply, hf]

theorem number_of_session? {g : Group} {number : ℕ} {s : Session}
    (h : g.session? number = some s) : s.number = number := by
  simpa using List.find?_some h

theorem tellAll_eq_map (g : Group) (events : List (ℕ × SessionEvent)) :
    g.tellAll events =
      { g with sessions := g.sessions.map fun s => s.hear (addressed s.number events) } := by
  induction events generalizing g with
  | nil =>
    have hid : (fun s : Session => s.hear (addressed s.number [])) = id :=
      funext fun s => s.hear_nil
    rw [hid, List.map_id]
    rfl
  | cons p rest ih =>
    have hstep : g.tellAll (p :: rest) = (g.tell p.1 p.2).tellAll rest := rfl
    rw [hstep, ih]
    simp only [tell, updateSession, List.map_map]
    congr 1
    refine List.map_congr_left fun s _ => ?_
    by_cases hs : s.number = p.1
    · have hcons : addressed s.number (p :: rest) = p.2 :: addressed s.number rest := by
        rw [addressed, List.filterMap_cons, if_pos hs.symm]
        rfl
      have htold : (if s.listening then { s with waiting := s.waiting ++ [p.2] } else s)
          = s.hear [p.2] := rfl
      rw [Function.comp_apply, if_pos hs, htold, Session.number_hear, Session.hear_hear, hcons]
      rfl
    · have hcons : addressed s.number (p :: rest) = addressed s.number rest := by
        rw [addressed, List.filterMap_cons, if_neg (Ne.symm hs)]
        rfl
      rw [Function.comp_apply, if_neg hs, hcons]

/-- The members that hear of a revocation. -/
def kept (g : Group) : List ℕ := g.members.filter g.isListening

/-- Ends the lease: those who listen are told, the others are members no more. -/
theorem revoke_eq_map {g : Group} (hnodup : g.members.Nodup)
    (hunborn : g.generation = 0 → g.members = []) :
    g.revoke = { g with
      endedLeases := g.lease :: g.endedLeases
      members := g.kept
      sessions := g.sessions.map fun s =>
        if s.number ∈ g.kept then s.hear [.revoked g.generation]
        else { s with attached := false } } := by
  have hdetached : ∀ s : Session,
      Session.hear (if g.kept.contains s.number then s else { s with attached := false })
        (addressed s.number (g.kept.map (·, .revoked g.generation))) =
      if s.number ∈ g.kept then s.hear [.revoked g.generation]
        else { s with attached := false } := by
    intro s
    have hkept : g.kept.Nodup := hnodup.filter _
    rw [addressed_const hkept]
    by_cases hs : s.number ∈ g.kept
    · simp [hs]
    · simp [hs, Session.hear_nil]
  rw [revoke]
  split
  · rename_i hzero
    have hnone : g.kept = [] := by rw [kept, hunborn hzero, List.filter_nil]
    simp only [← kept.eq_def]
    rw [hnone]
    simp
  · rw [tellAll_eq_map]
    simp only [← kept.eq_def, List.map_map]
    congr 1
    refine List.map_congr_left fun s _ => ?_
    rw [← hdetached s]
    simp only [Function.comp_apply]
    split <;> rfl

/-- The grant of the member at a place. -/
def grant (g : Group) (bases : List ℕ) (place : ℕ) : SessionEvent :=
  .granted (g.generation + 1)
    (Group.share { g with generation := g.generation + 1, lease := g.lease + 1 } bases
      g.members.length place)

/-- Begins the next generation: each member hears of its grant. -/
theorem assign_eq_map (g : Group) (bases : List ℕ) :
    g.assign bases = { g with
      generation := g.generation + 1
      lease := g.lease + 1
      sessions := g.sessions.map fun s =>
        s.hear (addressed s.number (byPlace g.members (g.grant bases))) } := by
  rw [assign, tellAll_eq_map]
  rfl

theorem members_assign (g : Group) (bases : List ℕ) : (g.assign bases).members = g.members := by
  rw [assign_eq_map]

theorem joined_assign (g : Group) (bases : List ℕ) : (g.assign bases).joined = g.joined := by
  rw [assign_eq_map]

theorem generation_assign (g : Group) (bases : List ℕ) :
    (g.assign bases).generation = g.generation + 1 := by
  rw [assign_eq_map]

theorem session?_assign (g : Group) (bases : List ℕ) (n : ℕ) :
    (g.assign bases).session? n = (g.session? n).map fun s =>
      s.hear (addressed n (byPlace g.members (g.grant bases))) := by
  rw [session?_of_map (congrArg sessions (assign_eq_map g bases)) fun s => s.number_hear _]
  exact Option.map_congr fun s hs => by rw [number_of_session? hs]

/-- Adds a member, which is told nothing yet. -/
def welcome (g : Group) : Group :=
  { g with
    joined := g.joined + 1
    members := g.members ++ [g.joined + 1]
    sessions := g.sessions ++ [({ number := g.joined + 1 } : Session)] }

/-- Takes a member away, whose session is given up. -/
def depart (g : Group) (number : ℕ) : Group :=
  { g with
    members := g.members.filter (· ≠ number)
    sessions := g.sessions.map fun s =>
      if s.number = number then { s with attached := false, listening := false } else s }

theorem join_of_open {g : Group} (h : g.closed = false) (bases : List ℕ) :
    g.join bases = .ok (g.revoke.joined + 1, g.revoke.welcome.assign bases) := by
  rw [join, h]
  rfl

theorem join_of_closed {g : Group} (h : g.closed = true) (bases : List ℕ) :
    g.join bases = .error .closed := by
  rw [join, h]
  rfl

theorem leave_eq (g : Group) (bases : List ℕ) (number : ℕ) :
    g.leave bases number =
      if number ∈ g.members ∧ g.closed = false then (g.depart number).revoke.assign bases
      else g.depart number := by
  have hdepart : { (g.updateSession number fun s => { s with attached := false }).drop number with
      members := g.members.filter (· ≠ number) } = g.depart number := by
    simp only [depart, drop, updateSession, List.map_map]
    congr 1
    refine List.map_congr_left fun s _ => ?_
    simp only [Function.comp_apply]
    split <;> simp_all
  have hlength : (g.members.filter (· ≠ number)).length = g.members.length ↔
      number ∉ g.members := by
    rw [List.length_filter_eq_length_iff]
    simp only [decide_eq_true_eq]
    exact ⟨fun h hmem => h number hmem rfl, fun h n hn heq => h (heq ▸ hn)⟩
  rw [leave]
  simp only [hdepart, hlength]
  by_cases hmem : number ∈ g.members <;> cases g.closed <;> simp [hmem]

theorem close_eq_map {g : Group} (hnodup : g.members.Nodup) :
    g.close = { g with
      closed := true
      endedLeases := g.lease :: g.endedLeases
      members := []
      sessions := g.sessions.map fun s => { s.hear (if s.number ∈ g.members then [.closed] else [])
        with attached := false } } := by
  rw [close, tellAll_eq_map]
  simp only [List.map_map]
  congr 1
  refine List.map_congr_left fun s _ => ?_
  rw [Function.comp_apply, addressed_const hnodup]

/-! ### A group in order -/

/-- A group in order: its lease is that of its generation, the leases of earlier generations have
ended, and its members stand in the order in which they joined. -/
structure Orderly (size : ℕ) (g : Group) : Prop where
  size : g.committed.length = size
  lease : g.lease = g.generation
  ended : ∀ l, l ∈ g.endedLeases ↔ l < g.generation ∨ l = g.generation ∧ g.closed = true
  order : g.members.Pairwise (· < ·)
  le_joined : ∀ n ∈ g.members, n ≤ g.joined
  unborn : g.generation = 0 → g.members = []
  dissolved : g.closed = true → g.members = []

/-- A group between two generations: the lease has ended and all members listen. -/
structure Between (size : ℕ) (g : Group) : Prop where
  size : g.committed.length = size
  lease : g.lease = g.generation
  ended : ∀ l, l ∈ g.endedLeases ↔ l ≤ g.generation
  order : g.members.Pairwise (· < ·)
  le_joined : ∀ n ∈ g.members, n ≤ g.joined
  opened : g.closed = false
  listening : ∀ n ∈ g.members, g.isListening n = true

variable {size : ℕ} {g : Group}

theorem Orderly.nodup (ho : g.Orderly size) : g.members.Nodup :=
  ho.order.imp Nat.ne_of_lt

theorem Between.nodup (hb : g.Between size) : g.members.Nodup :=
  hb.order.imp Nat.ne_of_lt

theorem mem_kept {n : ℕ} : n ∈ g.kept ↔ n ∈ g.members ∧ g.isListening n = true :=
  List.mem_filter

section Revoke

variable (ho : g.Orderly size)
include ho

theorem members_revoke : g.revoke.members = g.kept := by
  rw [revoke_eq_map ho.nodup ho.unborn]

theorem joined_revoke : g.revoke.joined = g.joined := by
  rw [revoke_eq_map ho.nodup ho.unborn]

theorem generation_revoke : g.revoke.generation = g.generation := by
  rw [revoke_eq_map ho.nodup ho.unborn]

theorem session?_revoke (n : ℕ) : g.revoke.session? n = (g.session? n).map fun s =>
    if n ∈ g.kept then s.hear [.revoked g.generation] else { s with attached := false } := by
  rw [session?_of_map (congrArg sessions (revoke_eq_map ho.nodup ho.unborn))
    fun s => by split <;> simp]
  exact Option.map_congr fun s hs => by rw [number_of_session? hs]

theorem isListening_revoke (n : ℕ) : g.revoke.isListening n = g.isListening n := by
  rw [isListening, isListening, session?_revoke ho]
  cases g.session? n with
  | none => rfl
  | some s =>
    simp only [Option.map_some, Option.any_some]
    split <;> simp

theorem Orderly.revoke (hopen : g.closed = false) : g.revoke.Between size := by
  have hkept : ∀ n ∈ g.kept, g.revoke.isListening n = true := fun n hn =>
    (isListening_revoke ho n).trans (mem_kept.mp hn).2
  rw [revoke_eq_map ho.nodup ho.unborn] at hkept ⊢
  refine ⟨ho.size, ho.lease, fun l => ?_, ho.order.filter _, fun n hn => ?_, hopen, hkept⟩
  · rw [List.mem_cons, ho.ended, ho.lease, hopen]
    simp only [Bool.false_eq_true, and_false, or_false]
    omega
  · exact ho.le_joined n (mem_kept.mp hn).1

end Revoke

theorem session?_welcome (g : Group) {n : ℕ} (hn : n ≠ g.joined + 1) :
    g.welcome.session? n = g.session? n := by
  rw [session?, session?, welcome, List.find?_append]
  simp [Ne.symm hn]

theorem Between.welcome (hb : g.Between size) (hfresh : g.session? (g.joined + 1) = none) :
    g.welcome.Between size where
  size := hb.size
  lease := hb.lease
  ended := hb.ended
  order := by
    refine List.pairwise_append.mpr ⟨hb.order, List.pairwise_singleton _ _, fun n hn m hm => ?_⟩
    rw [List.mem_singleton.mp hm]
    exact Nat.lt_succ_of_le (hb.le_joined n hn)
  le_joined n hn := by
    rcases List.mem_append.mp hn with hn | hn
    · exact Nat.le_succ_of_le (hb.le_joined n hn)
    · exact Nat.le_of_eq (List.mem_singleton.mp hn)
  opened := hb.opened
  listening n hn := by
    rcases List.mem_append.mp hn with hn | hn
    · have hne : n ≠ g.joined + 1 := by
        have := hb.le_joined n hn
        omega
      rw [isListening, session?_welcome g hne]
      exact hb.listening n hn
    · rw [List.mem_singleton.mp hn, isListening, session?, Group.welcome, List.find?_append,
        ← session?, hfresh]
      simp

theorem Between.assign (hb : g.Between size) (bases : List ℕ) : (g.assign bases).Orderly size := by
  rw [assign_eq_map]
  refine ⟨hb.size, congrArg (· + 1) hb.lease, fun l => ?_, hb.order, hb.le_joined, nofun,
    fun hc => ?_⟩
  · rw [hb.ended, hb.opened]
    simp only [Bool.false_eq_true, and_false, or_false]
    omega
  · exact absurd (hb.opened.symm.trans hc) nofun

theorem Orderly.depart (ho : g.Orderly size) (number : ℕ) : (g.depart number).Orderly size where
  size := ho.size
  lease := ho.lease
  ended := ho.ended
  order := ho.order.filter _
  le_joined n hn := ho.le_joined n (List.mem_filter.mp hn).1
  unborn h := by rw [Group.depart, ho.unborn h, List.filter_nil]
  dissolved h := by rw [Group.depart, ho.dissolved h, List.filter_nil]

theorem Orderly.close (ho : g.Orderly size) : g.close.Orderly size := by
  rw [close_eq_map ho.nodup]
  refine ⟨ho.size, ho.lease, fun l => ?_, List.Pairwise.nil, nofun, fun _ => rfl, fun _ => rfl⟩
  rw [List.mem_cons, ho.ended, ho.lease]
  simp only [and_true]
  tauto

theorem Orderly.commit (ho : g.Orderly size) (partition generation offset : ℕ) :
    (g.commit partition generation offset).Orderly size := by
  rw [Group.commit]
  split
  · exact ⟨by rw [List.length_modify, ho.size], ho.lease, ho.ended, ho.order, ho.le_joined,
      ho.unborn, ho.dissolved⟩
  · exact ho

/-! ### Other operations -/

theorem isListening_eq {n : ℕ} {s : Session} (hs : g.session? n = some s) :
    g.isListening n = s.listening := by
  rw [isListening, hs]
  rfl

theorem session?_updateSession (g : Group) (number n : ℕ) {f : Session → Session}
    (hf : ∀ s, (f s).number = s.number) : (g.updateSession number f).session? n =
      (g.session? n).map fun s => if n = number then f s else s := by
  rw [session?_of_map (g := g) rfl fun s => by split <;> simp [hf]]
  exact Option.map_congr fun s hs => by rw [number_of_session? hs]

theorem session?_depart (g : Group) (number n : ℕ) : (g.depart number).session? n =
    (g.session? n).map fun s =>
      if n = number then { s with attached := false, listening := false } else s :=
  session?_updateSession g number n fun _ => rfl

theorem mem_depart {number n : ℕ} : n ∈ (g.depart number).members ↔ n ∈ g.members ∧ n ≠ number := by
  simp [depart]

theorem session?_close (ho : g.Orderly size) (n : ℕ) : g.close.session? n =
    (g.session? n).map fun s =>
      { s.hear (if n ∈ g.members then [.closed] else []) with attached := false } := by
  rw [session?_of_map (congrArg sessions (close_eq_map ho.nodup)) fun s => s.number_hear _]
  exact Option.map_congr fun s hs => by rw [number_of_session? hs]

/-- What a session answers: the event that waits longest, or that it is over. -/
theorem nextEvent_eq {number : ℕ} {s : Session} (hs : g.session? number = some s) :
    (∃ e rest, s.waiting = e :: rest ∧ g.nextEvent number =
      (some e, g.updateSession number fun s => { s with waiting := rest })) ∨
    (s.waiting = [] ∧ g.nextEvent number = (if s.attached then none else some .closed, g)) := by
  rw [nextEvent, hs]
  cases hwaiting : s.waiting with
  | nil => exact .inr ⟨rfl, by simp only [hwaiting]⟩
  | cons e rest => exact .inl ⟨e, rest, rfl, by simp only [hwaiting]⟩

theorem Orderly.ask (ho : g.Orderly size) (number : ℕ) : (g.nextEvent number).2.Orderly size := by
  rw [nextEvent]
  split
  · exact ho
  · split
    · exact ⟨ho.size, ho.lease, ho.ended, ho.order, ho.le_joined, ho.unborn, ho.dissolved⟩
    · exact ho

/-! ### What a move can do -/

/-- Everything that a move can do, and what is seen of it: a generation begins after a change of
membership, a session answers, or nobody sees anything. -/
inductive Effect (g : Group) : GroupMove → Group → List GroupEvent → Prop
  /-- A generation begins with a new member. -/
  | join {bases : List ℕ} (opened : g.closed = false) :
      Effect g (.join bases) (g.revoke.welcome.assign bases)
        [.joined (g.joined + 1) (g.generation + 1),
          .began (g.generation + 1) (g.revoke.welcome.assign bases).members]
  | refuse {bases : List ℕ} (closed : g.closed = true) : Effect g (.join bases) g []
  /-- A generation begins without a member. -/
  | leave {bases : List ℕ} {number : ℕ} (mem : number ∈ g.members) (opened : g.closed = false) :
      Effect g (.leave bases number) ((g.depart number).revoke.assign bases)
        [.began (g.generation + 1) ((g.depart number).revoke.assign bases).members]
  | depart {bases : List ℕ} {number : ℕ} (idle : ¬ (number ∈ g.members ∧ g.closed = false)) :
      Effect g (.leave bases number) (g.depart number) []
  | drop {number : ℕ} : Effect g (.drop number) (g.drop number) []
  | ask {number : ℕ} (listening : g.isListening number = true) :
      Effect g (.ask number) (g.nextEvent number).2 (g.replies (.ask number))
  | commit {partition generation offset : ℕ} :
      Effect g (.commit partition generation offset) (g.commit partition generation offset) []
  | close : Effect g .close g.close []

theorem generation_nextEvent (g : Group) (number : ℕ) :
    (g.nextEvent number).2.generation = g.generation := by
  rw [nextEvent]
  split
  · rfl
  · split <;> rfl

theorem generation_commit (g : Group) (partition generation offset : ℕ) :
    (g.commit partition generation offset).generation = g.generation := by
  rw [Group.commit]
  split <;> rfl

theorem generation_close (g : Group) : g.close.generation = g.generation := by
  rw [Group.close, tellAll_eq_map]

/-- What is seen of a move that begins no generation. -/
theorem events_of_same {g' : Group} (m : GroupMove) (h : g'.generation = g.generation) :
    g.events m g' = g.replies m := by
  rw [events, if_pos h, List.append_nil]

/-- What is seen of a move that begins a generation. -/
theorem events_of_begun {g' : Group} (m : GroupMove) (h : g'.generation = g.generation + 1) :
    g.events m g' = g.replies m ++ [.began (g.generation + 1) g'.members] := by
  rw [events, if_neg (by omega), h]

section Begun

variable (ho : g.Orderly size)
include ho

theorem generation_join (bases : List ℕ) :
    (g.revoke.welcome.assign bases).generation = g.generation + 1 := by
  rw [generation_assign]
  exact congrArg (· + 1) (generation_revoke ho)

theorem generation_leave (number : ℕ) (bases : List ℕ) :
    ((g.depart number).revoke.assign bases).generation = g.generation + 1 := by
  rw [generation_assign, generation_revoke (ho.depart number)]
  rfl

theorem events_join (hopen : g.closed = false) (bases : List ℕ) :
    g.events (.join bases) (g.revoke.welcome.assign bases) =
      [.joined (g.joined + 1) (g.generation + 1),
        .began (g.generation + 1) (g.revoke.welcome.assign bases).members] := by
  rw [events_of_begun _ (generation_join ho bases), replies, join_of_open hopen]
  simp only
  rw [generation_join ho, joined_revoke ho]
  rfl

end Begun

theorem exists_effect {g' : Group} {m : GroupMove} (h : g.move? m = some g') :
    ∃ es, Effect g m g' es := by
  cases m with
  | join bases =>
    rw [move?] at h
    cases hclosed : g.closed with
    | false =>
      rw [join_of_open hclosed] at h
      cases h
      exact ⟨_, .join hclosed⟩
    | true =>
      rw [join_of_closed hclosed] at h
      cases h
      exact ⟨_, .refuse hclosed⟩
  | leave bases number =>
    cases h
    rw [leave_eq]
    split
    · rename_i hcurrent
      exact ⟨_, .leave hcurrent.1 hcurrent.2⟩
    · rename_i hidle
      exact ⟨_, .depart hidle⟩
  | drop number =>
    cases h
    exact ⟨_, .drop⟩
  | ask number =>
    rw [move?] at h
    split at h
    · rename_i hlistening
      cases h
      exact ⟨_, .ask hlistening⟩
    · cases h
  | commit partition generation offset =>
    cases h
    exact ⟨_, .commit⟩
  | close =>
    cases h
    exact ⟨_, .close⟩

theorem Effect.events_eq {g' : Group} {m : GroupMove} {es : List GroupEvent}
    (heffect : Effect g m g' es) (ho : g.Orderly size) : g.events m g' = es := by
  cases heffect with
  | join opened => exact events_join ho opened _
  | refuse closed => rw [events_of_same _ rfl, replies, join_of_closed closed]
  | leave => exact events_of_begun _ (generation_leave ho _ _)
  | depart => exact events_of_same _ rfl
  | drop => exact events_of_same _ rfl
  | ask => exact events_of_same _ (generation_nextEvent g _)
  | commit => exact events_of_same _ (generation_commit g _ _ _)
  | close => exact events_of_same _ (generation_close g)

/-- **Everything that a move can do.** -/
theorem effect_of_move? {g' : Group} {m : GroupMove} (ho : g.Orderly size)
    (h : g.move? m = some g') : Effect g m g' (g.events m g') := by
  obtain ⟨es, heffect⟩ := exists_effect h
  rwa [heffect.events_eq ho]

end Group

end SmsRelay
