import Mathlib.Data.Int.CardIntervalMod
import SmsRelay.Proofs.Log.Stream
import SmsRelay.Proofs.Moves

/-!
# Rebalancing

Each generation deals the partitions of the topic out in turn, to its members in the order in which
they joined: the member at the place `k` of `n` is granted the partitions `k`, `k + n`, `k + 2 n`
and so on, all at once.

## Implementation notes

What a generation grants is read off the streams: `Group.grants` lists the grants of a generation
that a session has been told of. `Dealt` says what they are for the members of each generation that
has begun, and that nobody else is granted anything.

## Main results

* `Group.Run.dealt`: what the generations of a run have granted.
* `Group.Run.rebalance`: streams, generations and grants along a run.
-/

namespace SmsRelay

/-- The claims that an event grants for a generation. -/
def SessionEvent.granted? (γ : ℕ) : SessionEvent → Option (List Claim)
  | granted γ' claims => if γ' = γ then some claims else none
  | _ => none

/-- The partitions below `size` that leave the remainder `k` when divided by `n`. -/
def residues (size n k : ℕ) : List ℕ := (List.range size).filter (· % n = k)

theorem mem_residues {size n k i : ℕ} : i ∈ residues size n k ↔ i < size ∧ i % n = k := by
  simp [residues]

theorem residues_of_le {size n k : ℕ} (h : size ≤ k) : residues size n k = [] := by
  refine List.filter_eq_nil_iff.mpr fun i hi => ?_
  have hlt := List.mem_range.mp hi
  have hle := Nat.mod_le i n
  simp only [decide_eq_true_eq]
  omega

theorem length_residues {size n k : ℕ} (hk : k < n) :
    (residues size n k).length = size / n + if k < size % n then 1 else 0 := by
  -- Mathlib counts residues with `Nat.count`.
  have hcount : (residues size n k).length = size.count (· ≡ k [MOD n]) := by
    rw [residues]
    induction size with
    | zero => rfl
    | succ size ih =>
      rw [List.range_succ, List.filter_append, List.length_append, ih, Nat.count_succ]
      simp only [Nat.ModEq, Nat.mod_eq_of_lt hk, List.filter_singleton]
      split <;> simp_all
  rw [hcount, Nat.count_modEq_card _ (Nat.zero_lt_of_lt hk), Nat.mod_eq_of_lt hk]

namespace Group

variable {size : ℕ} {g g' : Group} {h h' : List GroupEvent}

/-- The grants of a generation that a session has been told of. -/
def grants (g : Group) (h : List GroupEvent) (γ n : ℕ) : List (List Claim) :=
  (g.stream h n).filterMap (·.granted? γ)

/-- The partitions that these grants are of. -/
def granted (g : Group) (h : List GroupEvent) (γ n : ℕ) : List (List ℕ) :=
  (g.grants h γ n).map (·.map (·.partition))

/-! ### Shares -/

theorem committed_revoke (g : Group) : g.revoke.committed = g.committed := by
  rw [revoke]
  split
  · rfl
  · rw [tellAll_eq_map]

theorem map_partition_share (g : Group) (bases : List ℕ) (count place : ℕ) :
    (g.share bases count place).map (·.partition) = residues g.committed.length count place := by
  rw [share, residues, List.map_filterMap, ← List.filterMap_eq_filter]
  refine List.filterMap_congr fun i _ => ?_
  by_cases hi : i % count = place <;> simp [Option.guard, hi]

/-- What a claim says about its generation and where it starts. -/
theorem of_mem_share {bases : List ℕ} {count place : ℕ} {c : Claim}
    (hc : c ∈ g.share bases count place) :
    c.group = g.name ∧ c.topic = g.topic ∧ c.generation = g.generation ∧ c.lease = g.lease ∧
      c.position = max (g.committed.getD c.partition 0) (bases.getD c.partition 0) := by
  obtain ⟨i, -, hi⟩ := List.mem_filterMap.mp hc
  split at hi
  · cases hi
    exact ⟨rfl, rfl, rfl, rfl, rfl⟩
  · cases hi

/-! ### Grants in streams -/

theorem grants_of_append {n : ℕ} {es : List SessionEvent}
    (hstream : g'.stream h' n = g.stream h n ++ es) (γ : ℕ) :
    g'.grants h' γ n = g.grants h γ n ++ es.filterMap (·.granted? γ) := by
  rw [grants, hstream, List.filterMap_append]
  rfl

theorem grants_of_stream {n : ℕ} (hstream : g'.stream h' n = g.stream h n) (γ : ℕ) :
    g'.grants h' γ n = g.grants h γ n := by
  rw [grants, hstream]
  rfl

/-- What sessions do not answer adds nothing to their streams. -/
theorem stream_of_answers {es : List GroupEvent} {n : ℕ} (hes : answers es n = []) :
    g.stream (h ++ es) n = g.stream h n :=
  stream_congr rfl (by rw [answers_append, hes, List.append_nil])

theorem stream_welcome (hfresh : g.session? (g.joined + 1) = none) (h : List GroupEvent) (n : ℕ) :
    g.welcome.stream h n = g.stream h n := by
  by_cases hn : n = g.joined + 1
  · subst hn
    rw [stream, stream, hfresh, session?, Group.welcome, List.find?_append, ← session?, hfresh]
    simp
  · exact stream_congr (session?_welcome g hn) rfl

/-- An answer adds to a stream at most that it is over. -/
theorem stream_ask {number : ℕ} (hlistening : g.isListening number = true) (h : List GroupEvent)
    (n : ℕ) : ∃ es, (g.nextEvent number).2.stream (h ++ g.replies (.ask number)) n
      = g.stream h n ++ es ∧ ∀ e ∈ es, e = .closed := by
  obtain ⟨s, hs⟩ : ∃ s, g.session? number = some s := by
    cases hs : g.session? number with
    | none => simp [isListening, hs] at hlistening
    | some s => exact ⟨s, rfl⟩
  rw [replies]
  rcases nextEvent_eq hs with ⟨e, rest, hwaiting, heq⟩ | ⟨hwaiting, heq⟩
  · simp only [heq, Option.map_some, Option.toList_some]
    exact ⟨[], by rw [List.append_nil, stream_take hs hwaiting], List.forall_mem_nil _⟩
  · simp only [heq]
    cases s.attached with
    | true => exact ⟨[], by simp, List.forall_mem_nil _⟩
    | false =>
      refine ⟨_, stream_over hs hwaiting .closed n, fun e he => ?_⟩
      split at he
      · exact List.mem_singleton.mp he
      · cases he

/-- Events that grant nothing. -/
theorem grants_of_append_nil {n : ℕ} {es : List SessionEvent}
    (hstream : g'.stream h' n = g.stream h n ++ es) (hes : ∀ e ∈ es, ∀ γ, e.granted? γ = none)
    (γ : ℕ) : g'.grants h' γ n = g.grants h γ n := by
  rw [grants_of_append hstream, List.filterMap_eq_nil_iff.mpr fun e he => hes e he γ,
    List.append_nil]

theorem grants_revoke (ho : g.Orderly size) (h : List GroupEvent) (γ n : ℕ) :
    g.revoke.grants h γ n = g.grants h γ n := by
  refine grants_of_append_nil (stream_revoke ho h n) (fun e he γ => ?_) γ
  split at he
  · rw [List.mem_singleton.mp he]
    rfl
  · cases he

theorem grants_welcome (hfresh : g.session? (g.joined + 1) = none) (h : List GroupEvent)
    (number first γ n : ℕ) : g.welcome.grants (h ++ [.joined number first]) γ n = g.grants h γ n :=
  grants_of_stream ((stream_of_answers rfl).trans (stream_welcome hfresh h n)) γ

theorem grants_depart (g : Group) (number : ℕ) (h : List GroupEvent) (γ n : ℕ) :
    (g.depart number).grants h γ n = g.grants h γ n :=
  grants_of_stream
    (stream_of_waiting (session?_depart g number) (fun n s => by split <;> rfl) n) γ

theorem grants_drop (g : Group) (number : ℕ) (h : List GroupEvent) (γ n : ℕ) :
    (g.drop number).grants h γ n = g.grants h γ n := by
  have hsession : ∀ n, (g.drop number).session? n = _ :=
    fun n => session?_updateSession g number n fun _ => rfl
  exact grants_of_stream (stream_of_waiting hsession (fun n s => by split <;> rfl) n) γ

theorem grants_ask {number : ℕ} (hlistening : g.isListening number = true) (h : List GroupEvent)
    (γ n : ℕ) :
    (g.nextEvent number).2.grants (h ++ g.replies (.ask number)) γ n = g.grants h γ n := by
  obtain ⟨es, hes, hclosed⟩ := stream_ask hlistening h n
  exact grants_of_append_nil hes (fun e he γ => by rw [hclosed e he]; rfl) γ

theorem grants_commit (g : Group) (partition generation offset : ℕ) (h : List GroupEvent)
    (γ n : ℕ) : (g.commit partition generation offset).grants h γ n = g.grants h γ n := by
  rw [commit]
  split <;> rfl

theorem grants_close (ho : g.Orderly size) (h : List GroupEvent) (γ n : ℕ) :
    g.close.grants h γ n = g.grants h γ n := by
  refine grants_of_append_nil (stream_close ho h n) (fun e he γ => ?_) γ
  split at he
  · rw [List.mem_singleton.mp he]
    rfl
  · cases he

/-! ### What has been dealt out -/

/-- What the generations that have begun have granted. -/
structure Dealt (size : ℕ) (g : Group) (h : List GroupEvent) : Prop where
  begun : ∀ γ members, .began γ members ∈ h → γ ≤ g.generation ∧ members.Pairwise (· < ·)
  every : ∀ γ, 0 < γ → γ ≤ g.generation → ∃ members, .began γ members ∈ h
  unique : ∀ γ members members', .began γ members ∈ h → .began γ members' ∈ h → members = members'
  granted : ∀ γ members, .began γ members ∈ h → ∀ k n, members[k]? = some n →
    g.granted h γ n = [residues size members.length k]
  others : ∀ γ n, (∀ members, .began γ members ∈ h → n ∉ members) → g.grants h γ n = []
  claims : ∀ γ n, ∀ claims ∈ g.grants h γ n, ∀ c ∈ claims,
    c.group = g.name ∧ c.topic = g.topic ∧ c.generation = γ ∧ c.lease = γ

/-- A change at which no generation begins and nobody is granted anything. -/
theorem Dealt.frame (hd : g.Dealt size h) (hname : g'.name = g.name) (htopic : g'.topic = g.topic)
    (hgeneration : g'.generation = g.generation)
    (hbegan : ∀ γ members, .began γ members ∈ h' ↔ .began γ members ∈ h)
    (hgrants : ∀ γ n, g'.grants h' γ n = g.grants h γ n) : g'.Dealt size h' := by
  refine ⟨fun γ members hm => ?_, fun γ hpos hle => ?_, fun γ members members' hm hm' => ?_,
    fun γ members hm k n hk => ?_, fun γ n hn => ?_, fun γ n => ?_⟩
  · exact hgeneration ▸ hd.begun γ members ((hbegan γ members).mp hm)
  · obtain ⟨members, hm⟩ := hd.every γ hpos (hgeneration ▸ hle)
    exact ⟨members, (hbegan γ members).mpr hm⟩
  · exact hd.unique γ members members' ((hbegan γ members).mp hm) ((hbegan γ members').mp hm')
  · rw [Group.granted, hgrants]
    exact hd.granted γ members ((hbegan γ members).mp hm) k n hk
  · rw [hgrants]
    exact hd.others γ n fun members hm => hn members ((hbegan γ members).mpr hm)
  · rw [hgrants, hname, htopic]
    exact hd.claims γ n

/-- A change that members do not hear of. -/
theorem Dealt.silent (hd : g.Dealt size h) (hname : g'.name = g.name) (htopic : g'.topic = g.topic)
    (hgeneration : g'.generation = g.generation)
    (hgrants : ∀ γ n, g'.grants h γ n = g.grants h γ n) : g'.Dealt size h :=
  hd.frame hname htopic hgeneration (fun _ _ => Iff.rfl) hgrants

/-- A member is granted something when a generation begins. -/
theorem grants_assign (hb : g.Between size) (bases : List ℕ) {h : List GroupEvent} {γ' : ℕ}
    {members : List ℕ} (γ : ℕ) {k n : ℕ} (hk : g.members[k]? = some n) :
    (g.assign bases).grants (h ++ [.began γ' members]) γ n =
      g.grants h γ n ++ [g.grant bases k].filterMap (·.granted? γ) :=
  grants_of_append ((stream_of_answers rfl).trans (stream_assign hb bases h hk)) γ

/-- Nobody else is granted anything. -/
theorem grants_assign_of_not_mem (bases : List ℕ) {h : List GroupEvent} {γ' : ℕ} {members : List ℕ}
    (γ : ℕ) {n : ℕ} (hn : n ∉ g.members) :
    (g.assign bases).grants (h ++ [.began γ' members]) γ n = g.grants h γ n :=
  grants_of_stream
    ((stream_of_answers rfl).trans (stream_congr (session?_assign_of_not_mem hn bases) rfl)) γ

/-- Nothing is granted for other generations. -/
theorem grants_assign_of_ne (hb : g.Between size) (bases : List ℕ) {h : List GroupEvent} {γ' : ℕ}
    {members : List ℕ} {γ : ℕ} (hγ : γ ≠ g.generation + 1) (n : ℕ) :
    (g.assign bases).grants (h ++ [.began γ' members]) γ n = g.grants h γ n := by
  by_cases hn : n ∈ g.members
  · obtain ⟨k, hk⟩ := List.getElem?_of_mem hn
    rw [grants_assign hb bases γ hk]
    simp [grant, SessionEvent.granted?, Ne.symm hγ]
  · exact grants_assign_of_not_mem bases γ hn

/-- Nothing has been granted for the next generation. -/
theorem Dealt.grants_succ (hd : g.Dealt size h) (n : ℕ) : g.grants h (g.generation + 1) n = [] :=
  hd.others _ n fun _ hm => absurd (hd.begun _ _ hm).1 (Nat.not_succ_le_self _)

/-- What the generation grants that begins. -/
theorem Dealt.grants_assign_self (hd : g.Dealt size h) (hb : g.Between size) (bases : List ℕ)
    {γ' : ℕ} {members : List ℕ} {k n : ℕ} (hk : g.members[k]? = some n) :
    (g.assign bases).grants (h ++ [.began γ' members]) (g.generation + 1) n =
      [Group.share { g with generation := g.generation + 1, lease := g.lease + 1 } bases
        g.members.length k] := by
  rw [grants_assign hb bases _ hk, hd.grants_succ]
  simp [grant, SessionEvent.granted?]

/-- The claims of the generation that begins, and where they begin. -/
theorem Dealt.mem_grants_assign (hd : g.Dealt size h) (hb : g.Between size) (bases : List ℕ)
    {γ' : ℕ} {members : List ℕ} {γ n : ℕ} {claims : List Claim}
    (hclaims : claims ∈ (g.assign bases).grants (h ++ [.began γ' members]) γ n) :
    claims ∈ g.grants h γ n ∨ γ = g.generation + 1 ∧ ∀ c ∈ claims,
      c.group = g.name ∧ c.topic = g.topic ∧ c.generation = γ ∧ c.lease = γ ∧
        c.position = max (g.committed.getD c.partition 0) (bases.getD c.partition 0) := by
  by_cases hγ : γ = g.generation + 1
  · subst hγ
    by_cases hn : n ∈ g.members
    · obtain ⟨k, hk⟩ := List.getElem?_of_mem hn
      rw [hd.grants_assign_self hb bases hk] at hclaims
      refine .inr ⟨rfl, fun c hc => ?_⟩
      obtain ⟨hgroup, htopic, hgeneration, hlease, hposition⟩ :=
        of_mem_share (List.mem_singleton.mp hclaims ▸ hc)
      exact ⟨hgroup, htopic, hgeneration, hlease.trans (congrArg (· + 1) hb.lease), hposition⟩
    · exact .inl (grants_assign_of_not_mem bases _ hn ▸ hclaims)
  · exact .inl (grants_assign_of_ne hb bases hγ n ▸ hclaims)

/-- **A generation begins.** -/
theorem Dealt.assign (hd : g.Dealt size h) (hb : g.Between size) (bases : List ℕ) :
    (g.assign bases).Dealt size (h ++ [.began (g.generation + 1) g.members]) := by
  -- The generations that have begun are split into the new one and the old ones, whose grants stay.
  have hnew : ∀ members, .began (g.generation + 1) members ∉ h := fun members hm =>
    Nat.not_succ_le_self _ (hd.begun _ _ hm).1
  have hbegan : ∀ γ members, .began γ members ∈ h ++ [.began (g.generation + 1) g.members] ↔
      .began γ members ∈ h ∨ γ = g.generation + 1 ∧ members = g.members := by
    simp
  refine ⟨fun γ members hm => ?_, fun γ hpos hle => ?_, fun γ members members' hm hm' => ?_,
    fun γ members hm k n hk => ?_, fun γ n hn => ?_, fun γ n claims hclaims c hc => ?_⟩
  · rw [generation_assign]
    rcases (hbegan γ members).mp hm with hm | ⟨rfl, rfl⟩
    · exact ⟨Nat.le_succ_of_le (hd.begun γ members hm).1, (hd.begun γ members hm).2⟩
    · exact ⟨Nat.le_refl _, hb.order⟩
  · rw [generation_assign] at hle
    rcases Nat.le_succ_iff.mp hle with hle | rfl
    · obtain ⟨members, hm⟩ := hd.every γ hpos hle
      exact ⟨members, (hbegan γ members).mpr (.inl hm)⟩
    · exact ⟨g.members, (hbegan _ _).mpr (.inr ⟨rfl, rfl⟩)⟩
  · rcases (hbegan γ members).mp hm with hm | ⟨rfl, rfl⟩ <;>
      rcases (hbegan _ members').mp hm' with hm' | ⟨hγ, rfl⟩
    · exact hd.unique γ members members' hm hm'
    · exact absurd (hγ ▸ hm) (hnew members)
    · exact absurd hm' (hnew members')
    · rfl
  · rw [Group.granted]
    rcases (hbegan γ members).mp hm with hm | ⟨rfl, rfl⟩
    · rw [grants_assign_of_ne hb bases fun hγ => hnew members (hγ ▸ hm)]
      exact hd.granted γ members hm k n hk
    · rw [hd.grants_assign_self hb bases hk, List.map_singleton, map_partition_share, hb.size]
  · by_cases hγ : γ = g.generation + 1
    · subst hγ
      rw [grants_assign_of_not_mem bases _ (hn _ ((hbegan _ _).mpr (.inr ⟨rfl, rfl⟩))),
        hd.grants_succ]
    · rw [grants_assign_of_ne hb bases hγ]
      exact hd.others γ n fun members hm => hn members ((hbegan γ members).mpr (.inl hm))
  · rw [congrArg name (assign_eq_map g bases), congrArg topic (assign_eq_map g bases)]
    rcases hd.mem_grants_assign hb bases hclaims with hclaims | ⟨-, hnew⟩
    · exact hd.claims γ n claims hclaims c hc
    · obtain ⟨hgroup, htopic, hgeneration, hlease, -⟩ := hnew c hc
      exact ⟨hgroup, htopic, hgeneration, hlease⟩

theorem Dealt.revoke (hd : g.Dealt size h) (ho : g.Orderly size) : g.revoke.Dealt size h := by
  have heq := revoke_eq_map ho.nodup ho.unborn
  exact hd.silent (by rw [heq]) (by rw [heq]) (generation_revoke ho) (grants_revoke ho h)

theorem Dealt.depart (hd : g.Dealt size h) (number : ℕ) : (g.depart number).Dealt size h :=
  hd.silent rfl rfl rfl (grants_depart g number h)

theorem Dealt.welcome (hd : g.Dealt size h) (hfresh : g.session? (g.joined + 1) = none) (γ : ℕ) :
    g.welcome.Dealt size (h ++ [.joined (g.joined + 1) γ]) :=
  hd.frame rfl rfl rfl (fun γ' members => by simp) (grants_welcome hfresh h _ _)

theorem Dealt.close (hd : g.Dealt size h) (ho : g.Orderly size) : g.close.Dealt size h := by
  have heq := close_eq_map ho.nodup
  exact hd.silent (by rw [heq]) (by rw [heq]) (generation_close g) (grants_close ho h)

theorem Dealt.ask (hd : g.Dealt size h) {number : ℕ} (hlistening : g.isListening number = true) :
    (g.nextEvent number).2.Dealt size (h ++ g.replies (.ask number)) := by
  have hkept : (g.nextEvent number).2.name = g.name ∧ (g.nextEvent number).2.topic = g.topic := by
    rw [nextEvent]
    split
    · exact ⟨rfl, rfl⟩
    · split <;> exact ⟨rfl, rfl⟩
  exact hd.frame hkept.1 hkept.2 (generation_nextEvent g number)
    (fun γ members => by simp [replies]) (grants_ask hlistening h)

/-- **One move** deals out what a generation grants, if one begins. -/
theorem Dealt.move {m : GroupMove} (hd : g.Dealt size h) (hs : g.Sound size h)
    (moved : g.move? m = some g') : g'.Dealt size (h ++ g.events m g') := by
  have ⟨ho, hi⟩ := hs
  have heffect := effect_of_move? ho moved
  generalize g.events m g' = es at heffect
  cases heffect with
  | @join bases hopen =>
    have hfresh := (hi.revoke ho).fresh
    have hassigned := ((hd.revoke ho).welcome hfresh (g.generation + 1)).assign
      ((ho.revoke hopen).welcome hfresh) bases
    rw [List.append_assoc, joined_revoke ho, show g.revoke.welcome.generation = g.generation from
      generation_revoke ho] at hassigned
    rwa [members_assign]
  | @leave bases number _ hopen =>
    have ho' := ho.depart number
    have hassigned := ((hd.depart number).revoke ho').assign (ho'.revoke hopen) bases
    rw [generation_revoke ho'] at hassigned
    rwa [members_assign]
  | refuse => rwa [List.append_nil]
  | depart =>
    rw [List.append_nil]
    exact hd.depart _
  | @drop number =>
    rw [List.append_nil]
    exact hd.silent rfl rfl rfl (grants_drop g number h)
  | ask hlistening => exact hd.ask hlistening
  | @commit partition generation offset =>
    rw [List.append_nil]
    refine hd.silent ?_ ?_ (generation_commit g _ _ _) (grants_commit g _ _ _ h) <;>
      (rw [commit]; split <;> rfl)
  | close =>
    rw [List.append_nil]
    exact hd.close ho

/-- **What a move grants.** A grant was there before, or its generation begins, and each claim
begins at what has been committed or at the base. -/
theorem Dealt.grants_of_move? {m : GroupMove} (hd : g.Dealt size h) (hs : g.Sound size h)
    (moved : g.move? m = some g') {γ n : ℕ} {claims : List Claim}
    (hclaims : claims ∈ g'.grants (h ++ g.events m g') γ n) :
    claims ∈ g.grants h γ n ∨
      (∃ members, .began γ members ∈ g.events m g') ∧
        ∃ bases, (m = .join bases ∨ ∃ number, m = .leave bases number) ∧ ∀ c ∈ claims,
          c.position = max (g.committed.getD c.partition 0) (bases.getD c.partition 0) := by
  have ⟨ho, hi⟩ := hs
  have heffect := effect_of_move? ho moved
  generalize g.events m g' = es at heffect hclaims
  cases heffect with
  | @join bases hopen =>
    have hfresh := (hi.revoke ho).fresh
    rw [List.append_cons] at hclaims
    rcases ((hd.revoke ho).welcome hfresh (g.generation + 1)).mem_grants_assign
      ((ho.revoke hopen).welcome hfresh) bases (joined_revoke ho ▸ hclaims) with hold | ⟨rfl, hnew⟩
    · rw [grants_welcome hfresh, grants_revoke ho] at hold
      exact .inl hold
    · have hcommitted : g.revoke.welcome.committed = g.committed := committed_revoke g
      rw [show g.revoke.welcome.generation = g.generation from generation_revoke ho]
      refine .inr ⟨⟨_, List.mem_cons_of_mem _ List.mem_cons_self⟩, bases, .inl rfl, fun c hc => ?_⟩
      rw [(hnew c hc).2.2.2.2, hcommitted]
  | @leave bases number _ hopen =>
    have ho' := ho.depart number
    rcases ((hd.depart number).revoke ho').mem_grants_assign (ho'.revoke hopen) bases hclaims with
      hold | ⟨rfl, hnew⟩
    · rw [grants_revoke ho', grants_depart] at hold
      exact .inl hold
    · have hcommitted : (g.depart number).revoke.committed = g.committed := committed_revoke _
      rw [generation_revoke ho']
      refine .inr ⟨⟨_, List.mem_cons_self⟩, bases, .inr ⟨number, rfl⟩, fun c hc => ?_⟩
      rw [(hnew c hc).2.2.2.2, hcommitted]
  | refuse =>
    rw [List.append_nil] at hclaims
    exact .inl hclaims
  | depart =>
    rw [List.append_nil, grants_depart] at hclaims
    exact .inl hclaims
  | drop =>
    rw [List.append_nil, grants_drop] at hclaims
    exact .inl hclaims
  | ask hlistening => exact .inl (grants_ask hlistening h γ n ▸ hclaims)
  | commit =>
    rw [List.append_nil, grants_commit] at hclaims
    exact .inl hclaims
  | close =>
    rw [List.append_nil, grants_close ho] at hclaims
    exact .inl hclaims

theorem dealt_create (name : String) (t : Topic) : (create name t).Dealt t.size [] where
  begun := nofun
  every _ hpos hle := absurd hpos (Nat.not_lt_of_le hle)
  unique := nofun
  granted := nofun
  others _ _ _ := rfl
  claims := nofun

/-- **Along a run** generations deal out the partitions. -/
theorem Run.dealt {name : String} {t : Topic} (run : Run (create name t) g h) :
    g.Dealt t.size h := by
  induction run with
  | start => exact dealt_create name t
  | move run moved ih => exact ih.move run.sound moved

/-! ### Sessions that nobody listens to -/

/-- Nobody listens to a session any more. -/
def Deaf (g : Group) (n : ℕ) : Prop := ∃ s, g.session? n = some s ∧ s.listening = false

/-- A change at which a session hears nothing, because nobody listens. -/
theorem Deaf.keep {n : ℕ} {f : Session → Session} (hdeaf : g.Deaf n)
    (hsession : g'.session? n = (g.session? n).map f)
    (hf : ∀ s, s.listening = false → (f s).listening = false ∧ (f s).waiting = s.waiting) :
    g'.Deaf n ∧ ∀ h, g'.stream h n = g.stream h n := by
  obtain ⟨s, hs, hlistening⟩ := hdeaf
  rw [hs, Option.map_some] at hsession
  refine ⟨⟨f s, hsession, (hf s hlistening).1⟩, fun h => ?_⟩
  rw [stream_of_session? hsession, stream_of_session? hs, (hf s hlistening).2]

theorem Deaf.not_listening {n : ℕ} (hdeaf : g.Deaf n) : g.isListening n = false := by
  obtain ⟨s, hs, hlistening⟩ := hdeaf
  exact (isListening_eq hs).trans hlistening

theorem Deaf.revoke {n : ℕ} (hdeaf : g.Deaf n) (ho : g.Orderly size) :
    g.revoke.Deaf n ∧ ∀ h, g.revoke.stream h n = g.stream h n := by
  have hkept : n ∉ g.kept := fun hmem => by
    have hlistening := (mem_kept.mp hmem).2
    rw [hdeaf.not_listening] at hlistening
    cases hlistening
  have hsession := session?_revoke ho n
  simp only [if_neg hkept] at hsession
  exact hdeaf.keep hsession fun _ hs => ⟨hs, rfl⟩

theorem Deaf.assign {n : ℕ} (hdeaf : g.Deaf n) (hb : g.Between size) (bases : List ℕ) :
    n ∉ (g.assign bases).members ∧ (g.assign bases).Deaf n ∧
      ∀ h, (g.assign bases).stream h n = g.stream h n := by
  have hmem : n ∉ g.members := fun hmem => by
    have hlistening := hb.listening n hmem
    rw [hdeaf.not_listening] at hlistening
    cases hlistening
  rw [members_assign]
  refine ⟨hmem, hdeaf.keep (f := id) ?_ fun _ hs => ⟨hs, rfl⟩⟩
  rw [session?_assign_of_not_mem hmem, Option.map_id]
  rfl

theorem Deaf.depart {n : ℕ} (hdeaf : g.Deaf n) (number : ℕ) :
    (g.depart number).Deaf n ∧ ∀ h, (g.depart number).stream h n = g.stream h n :=
  hdeaf.keep (session?_depart g number n) fun s hs => by split <;> exact ⟨by simp [hs], rfl⟩

theorem Deaf.welcome {n : ℕ} (hdeaf : g.Deaf n) (hfresh : g.session? (g.joined + 1) = none) :
    g.welcome.Deaf n ∧ ∀ h, g.welcome.stream h n = g.stream h n := by
  have hne : n ≠ g.joined + 1 := by
    rintro rfl
    obtain ⟨s, hs, -⟩ := hdeaf
    rw [hfresh] at hs
    cases hs
  have hsession : g.welcome.session? n = (g.session? n).map id := by
    rw [session?_welcome _ hne, Option.map_id]
    rfl
  exact hdeaf.keep hsession fun _ hs => ⟨hs, rfl⟩

theorem Deaf.drop {n : ℕ} (hdeaf : g.Deaf n) (number : ℕ) :
    (g.drop number).Deaf n ∧ ∀ h, (g.drop number).stream h n = g.stream h n := by
  have hsession : (g.drop number).session? n = _ :=
    session?_updateSession g number n fun _ => rfl
  exact hdeaf.keep hsession fun s hs => by split <;> exact ⟨by simp [hs], rfl⟩

theorem Deaf.commit {n : ℕ} (hdeaf : g.Deaf n) (partition generation offset : ℕ) :
    (g.commit partition generation offset).Deaf n ∧
      ∀ h, (g.commit partition generation offset).stream h n = g.stream h n := by
  rw [Group.commit]
  split <;> exact ⟨hdeaf, fun _ => rfl⟩

theorem Deaf.close {n : ℕ} (hdeaf : g.Deaf n) (ho : g.Orderly size) :
    g.close.Deaf n ∧ ∀ h, g.close.stream h n = g.stream h n :=
  hdeaf.keep (session?_close ho n) fun s hs => by simp [hs, Session.waiting_hear]

/-- The owner of another session asks. -/
theorem Deaf.ask {n number : ℕ} (hdeaf : g.Deaf n) (hlistening : g.isListening number = true) :
    (g.nextEvent number).2.Deaf n ∧
      ∀ h, (g.nextEvent number).2.stream (h ++ g.replies (.ask number)) n = g.stream h n := by
  have hne : n ≠ number := by
    rintro rfl
    rw [hdeaf.not_listening] at hlistening
    cases hlistening
  have hsession : (g.nextEvent number).2.session? n = g.session? n := by
    rw [nextEvent]
    split
    · rfl
    · split
      · rename_i e rest _
        have hsession := session?_updateSession g number n
          (f := fun s => { s with waiting := rest }) fun _ => rfl
        simpa [hne] using hsession
      · rfl
  refine ⟨by rwa [Deaf, hsession], fun h => stream_congr hsession ?_⟩
  rw [replies]
  cases (g.nextEvent number).1 with
  | none => simp
  | some e => simp [answers_answered, hne]

/-- What one move adds to the stream of a session that nobody listens to is nothing. -/
theorem Deaf.move {n : ℕ} {m : GroupMove} (hdeaf : g.Deaf n) (hs : g.Sound size h)
    (moved : g.move? m = some g') :
    g'.Deaf n ∧ g'.stream (h ++ g.events m g') n = g.stream h n ∧
      ∀ γ members, .began γ members ∈ g.events m g' → n ∉ members := by
  have ⟨ho, hi⟩ := hs
  have heffect := effect_of_move? ho moved
  have hnone : ∀ γ members, GroupEvent.began γ members ∈ [] → n ∉ members :=
    fun _ _ hm => absurd hm List.not_mem_nil
  generalize g.events m g' = es at heffect
  cases heffect with
  | @join bases hopen =>
    have hrevoked := hi.revoke ho
    obtain ⟨hdeaf₁, hstream₁⟩ := hdeaf.revoke ho
    obtain ⟨hdeaf₂, hstream₂⟩ := hdeaf₁.welcome hrevoked.fresh
    have hbetween := (ho.revoke hopen).welcome hrevoked.fresh
    obtain ⟨hmem, hdeaf₃, hstream₃⟩ := hdeaf₂.assign hbetween bases
    refine ⟨hdeaf₃, ?_, fun γ members hm => ?_⟩
    · rw [stream_of_answers rfl, hstream₃, hstream₂, hstream₁]
    · simp only [List.mem_cons, reduceCtorEq, GroupEvent.began.injEq, List.not_mem_nil, or_false,
        false_or] at hm
      exact hm.2 ▸ hmem
  | @leave bases number _ hopen =>
    have ho' := ho.depart number
    obtain ⟨hdeaf₁, hstream₁⟩ := hdeaf.depart number
    obtain ⟨hdeaf₂, hstream₂⟩ := hdeaf₁.revoke ho'
    obtain ⟨hmem, hdeaf₃, hstream₃⟩ := hdeaf₂.assign (ho'.revoke hopen) bases
    refine ⟨hdeaf₃, ?_, fun γ members hm => ?_⟩
    · rw [stream_of_answers rfl, hstream₃, hstream₂, hstream₁]
    · simp only [List.mem_singleton, GroupEvent.began.injEq] at hm
      exact hm.2 ▸ hmem
  | ask hlistening =>
    obtain ⟨hdeaf', hstream⟩ := hdeaf.ask hlistening
    exact ⟨hdeaf', hstream h, fun γ members hm => by simp [replies] at hm⟩
  -- No generation begins at the others, and nobody is answered.
  | refuse => exact ⟨hdeaf, by rw [List.append_nil], hnone⟩
  | depart =>
    obtain ⟨hdeaf', hstream⟩ := hdeaf.depart _
    exact ⟨hdeaf', by rw [List.append_nil, hstream], hnone⟩
  | drop =>
    obtain ⟨hdeaf', hstream⟩ := hdeaf.drop _
    exact ⟨hdeaf', by rw [List.append_nil, hstream], hnone⟩
  | commit =>
    obtain ⟨hdeaf', hstream⟩ := hdeaf.commit _ _ _
    exact ⟨hdeaf', by rw [List.append_nil, hstream], hnone⟩
  | close =>
    obtain ⟨hdeaf', hstream⟩ := hdeaf.close ho
    exact ⟨hdeaf', by rw [List.append_nil, hstream], hnone⟩

/-- **A session that nobody listens to** is told nothing more and is a member of no later
generation. -/
theorem Run.deaf {n : ℕ} (hs : g.Sound size h) (hdeaf : g.Deaf n) (run : Run g g' h') :
    g'.Sound size (h ++ h') ∧ g'.Deaf n ∧ g'.stream (h ++ h') n = g.stream h n ∧
      ∀ γ members, .began γ members ∈ h' → n ∉ members := by
  induction run with
  | start => exact ⟨(List.append_nil h).symm ▸ hs, hdeaf, by rw [List.append_nil], nofun⟩
  | move run moved ih =>
    obtain ⟨hs', hdeaf', hstream, hmem⟩ := ih
    obtain ⟨hdeaf'', hstream', hmem'⟩ := hdeaf'.move hs' moved
    rw [← List.append_assoc]
    refine ⟨hs'.move moved, hdeaf'', hstream'.trans hstream, fun γ members hm => ?_⟩
    rcases List.mem_append.mp hm with hm | hm
    · exact hmem γ members hm
    · exact hmem' γ members hm

/-! ### The protocol -/

/-- What a generation with these members grants to whom, by the partitions of each grant. -/
structure Deal (size : ℕ) (members : List ℕ) (granted : ℕ → List (List ℕ)) : Prop where
  /-- Members stand in the order in which they joined. -/
  order : members.Pairwise (· < ·)
  share : ∀ k n, members[k]? = some n → granted n = [residues size members.length k]
  others : ∀ n ∉ members, granted n = []
  /-- Each partition goes to one member. -/
  owner : members ≠ [] → ∀ i < size, ∀ n,
    i ∈ (granted n).flatten ↔ members[i % members.length]? = some n
  balanced : ∀ n ∈ members, ∀ n' ∈ members,
    (granted n).flatten.length ≤ (granted n').flatten.length + 1
  surplus : ∀ k n, members[k]? = some n → size ≤ k → granted n = [[]]

theorem deal_of_share {size : ℕ} {members : List ℕ} {granted : ℕ → List (List ℕ)}
    (order : members.Pairwise (· < ·))
    (share : ∀ k n, members[k]? = some n → granted n = [residues size members.length k])
    (others : ∀ n ∉ members, granted n = []) : Deal size members granted where
  order := order
  share := share
  others := others
  owner hne i hi n := by
    have hpos : 0 < members.length := List.length_pos_iff.mpr hne
    by_cases hn : n ∈ members
    · obtain ⟨k, hk⟩ := List.getElem?_of_mem hn
      have hklt : k < members.length := (List.getElem?_eq_some_iff.mp hk).1
      rw [share k n hk, List.flatten_singleton, mem_residues, and_iff_right hi]
      refine ⟨fun hmod => hmod ▸ hk, fun hmod => ?_⟩
      exact (List.getElem?_inj (Nat.mod_lt i hpos) (order.imp Nat.ne_of_lt)).mp (hmod.trans hk.symm)
    · rw [others n hn]
      exact iff_of_false List.not_mem_nil fun hmem => hn (List.mem_of_getElem? hmem)
  balanced n hn n' hn' := by
    obtain ⟨k, hk⟩ := List.getElem?_of_mem hn
    obtain ⟨k', hk'⟩ := List.getElem?_of_mem hn'
    rw [share k n hk, share k' n' hk', List.flatten_singleton, List.flatten_singleton,
      length_residues (List.getElem?_eq_some_iff.mp hk).1,
      length_residues (List.getElem?_eq_some_iff.mp hk').1]
    split <;> split <;> omega
  surplus k n hk hsize := by
    rw [share k n hk, residues_of_le hsize]

/-- What a generation has granted. -/
theorem Dealt.deal (hd : g.Dealt size h) {γ : ℕ} {members : List ℕ} (hm : .began γ members ∈ h) :
    Deal size members (g.granted h γ) := by
  refine deal_of_share (hd.begun γ members hm).2 (hd.granted γ members hm) fun n hn => ?_
  rw [Group.granted, hd.others γ n fun members' hm' => hd.unique γ members members' hm hm' ▸ hn]
  rfl

/-- A session is granted a partition at most once in a generation. -/
theorem Dealt.nodup (hd : g.Dealt size h) (γ n : ℕ) : (g.granted h γ n).flatten.Nodup := by
  by_cases hn : ∀ members, .began γ members ∈ h → n ∉ members
  · rw [Group.granted, hd.others γ n hn]
    exact List.nodup_nil
  · push Not at hn
    obtain ⟨members, hm, hmem⟩ := hn
    obtain ⟨k, hk⟩ := List.getElem?_of_mem hmem
    rw [hd.granted γ members hm k n hk, List.flatten_singleton]
    exact List.nodup_range.filter _

/-- Sessions are granted different partitions. -/
theorem Dealt.ne (hd : g.Dealt size h) {γ n n' i i' : ℕ} (hne : n ≠ n')
    (hi : i ∈ (g.granted h γ n).flatten) (hi' : i' ∈ (g.granted h γ n').flatten) : i ≠ i' := by
  rintro rfl
  obtain ⟨members, hm, hmem⟩ : ∃ members, .began γ members ∈ h ∧ n ∈ members := by
    by_contra hnone
    push Not at hnone
    rw [Group.granted, hd.others γ n hnone] at hi
    cases hi
  have hdeal := hd.deal hm
  obtain ⟨k, hk⟩ := List.getElem?_of_mem hmem
  have hlt : i < size := by
    rw [hdeal.share k n hk, List.flatten_singleton, mem_residues] at hi
    exact hi.1
  have howner := hdeal.owner (List.ne_nil_of_mem hmem) i hlt
  have hsame := ((howner n).mp hi).symm.trans ((howner n').mp hi')
  exact hne (Option.some.inj hsame)

/-- The members change: a join succeeds, or a member leaves before the group is closed. -/
def changesMembers (g : Group) : GroupMove → Bool
  | .join bases => (g.join bases).isOk
  | .leave _ number => g.members.contains number && !g.closed
  | _ => false

/-- The generation counts the changes of members. -/
theorem generation_of_move? {m : GroupMove} (ho : g.Orderly size) (moved : g.move? m = some g') :
    g'.generation = g.generation + if g.changesMembers m then 1 else 0 := by
  have heffect := effect_of_move? ho moved
  generalize g.events m g' = es at heffect
  cases heffect with
  | @join bases hopen =>
    rw [generation_join ho, changesMembers, join_of_open hopen]
    rfl
  | @refuse bases hclosed =>
    rw [changesMembers, join_of_closed hclosed]
    rfl
  | @leave bases number hmem hopen =>
    rw [generation_leave ho, changesMembers, hopen]
    simp [hmem]
  | @depart bases number hidle =>
    have hno : g.changesMembers (.leave bases number) = false := by
      cases hclosed : g.closed <;> simp_all [changesMembers]
    rw [hno]
    rfl
  | drop => rfl
  | ask => exact generation_nextEvent g _
  | commit => exact generation_commit g _ _ _
  | close => exact generation_close g

/-- **The protocol of a group**, along any run. A session is told of consecutive generations from
that of its own join on, in turn their grant and their revocation, and of the end at most after a
grant; after that it only repeats that it is over. The generation counts the changes of members.
Each generation deals the partitions out to its members, and a session that nobody listens to gets
nothing more and is a member of no later generation. -/
theorem Run.rebalance {name : String} {t : Topic} (run : Run (create name t) g h) :
    (∀ n first, .joined n first ∈ h → ∃ stage told k,
      g.stream h n = told ++ List.replicate k .closed ∧ Told first stage told ∧
        (0 < k → stage = .over)) ∧
    (∀ m g', g.move? m = some g' →
      g'.generation = g.generation + if g.changesMembers m then 1 else 0) ∧
    (∀ γ, 0 < γ → γ ≤ g.generation → ∃ members, .began γ members ∈ h) ∧
    (∀ γ members, .began γ members ∈ h → Deal t.size members (g.granted h γ)) ∧
    ∀ n, g.Deaf n → ∀ g' h', Run g g' h' → g'.stream (h ++ h') n = g.stream h n ∧
      ∀ γ members, .began γ members ∈ h' → n ∉ members := by
  obtain ⟨ho, hi⟩ := run.sound
  have hd := run.dealt
  refine ⟨fun n first hjoined => ?_, fun m g' => generation_of_move? ho, hd.every,
    fun γ members => hd.deal, fun n hdeaf g' h' run' => ?_⟩
  · by_cases hn : n ∈ g.members
    · exact ⟨_, _, 0, by simp, hi.told n first hjoined hn, nofun⟩
    · obtain ⟨s, hs⟩ := Option.isSome_iff_exists.mp ((hi.sessions n).mpr ⟨first, hjoined⟩)
      obtain ⟨stage, told, k, heq, htold, hover⟩ := hi.concluded n first s hjoined hs hn
      exact ⟨stage, told, k, heq, htold, fun hpos => hover (.inl hpos)⟩
  · obtain ⟨-, -, hstream, hmem⟩ := run'.deaf ⟨ho, hi⟩ hdeaf
    exact ⟨hstream, hmem⟩

/-- Three members join a group on a topic of three partitions. The first is not heard of after its
own generation, the second leaves, and the group is closed. -/
theorem rebalance_three : ∃ g h, Run (create "g" (Topic.create "t" 3 1)) g h ∧
    g.generation = 4 ∧ .joined 2 2 ∈ h ∧ .began 3 [2, 3] ∈ h ∧ g.Deaf 1 ∧
    (∃ stage told k, g.stream h 2 = told ++ List.replicate k .closed ∧ Told 2 stage told ∧
      (0 < k → stage = .over)) ∧ Deal 3 [2, 3] (g.granted h 3) := by
  obtain ⟨g, h, run, hgeneration, hjoined, hbegan, hone⟩ :=
    exists_of_recording move? events (Run _) (create "g" (Topic.create "t" 3 1))
      [.join [0, 0, 0], .join [0, 0, 0], .ask 2, .drop 1, .join [0, 0, 0], .leave [0, 0, 0] 2,
        .ask 3, .close, .ask 3, .ask 3, .ask 3, .ask 3] (fun _ => Run.move) .start
      (fun g h => g.generation = 4 ∧ .joined 2 2 ∈ h ∧ .began 3 [2, 3] ∈ h ∧
        (g.session? 1).map (·.listening) = some false) (by decide +kernel)
  have hdeaf : g.Deaf 1 := Option.map_eq_some_iff.mp hone
  obtain ⟨hstreams, -, -, hdeal, -⟩ := run.rebalance
  exact ⟨g, h, run, hgeneration, hjoined, hbegan, hdeaf, hstreams 2 2 hjoined,
    hdeal 3 [2, 3] hbegan⟩

end Group

end SmsRelay
