import SmsRelay.Proofs.Log.Run
import SmsRelay.Proofs.Moves

/-!
# Fencing by generations

The claims of a generation end when the next one begins, and when the group is closed. So of the
claims that have not ended all are of the present generation, each of another partition. Who reads
under a claim that has ended gets nothing more, and its marks are ignored unless its generation is
still the present one.

## Implementation notes

`Group.live` lists the claims of a session that have not ended, whether or not its owner has taken
them. `Readership.Apart` compares claims of one generation.

## Main results

* `Group.live_eq`: the claims that have not ended are those of the present generation.
* `Readership.Run.silent`: calls under a claim that has ended give nothing.
* `Readership.Run.fenced`: claims, calls and marks along a run.
-/

namespace SmsRelay

namespace Group

variable {size : ℕ} {g g' : Group} {h : List GroupEvent}

/-! ### Claims that have not ended -/

/-- The claims of a session that have not ended. -/
def live (g : Group) (h : List GroupEvent) (n : ℕ) : List Claim :=
  ((g.stream h n).flatMap (·.claims)).filter fun c => !g.hasEnded c

/-- The claims of a generation stand in its grants. -/
theorem filter_claims {es : List SessionEvent} {γ : ℕ}
    (hes : ∀ γ', ∀ claims ∈ es.filterMap (·.granted? γ'), ∀ c ∈ claims, c.generation = γ') :
    (es.flatMap (·.claims)).filter (·.generation = γ) = (es.filterMap (·.granted? γ)).flatten := by
  induction es with
  | nil => rfl
  | cons e rest ih =>
    have hrest := ih fun γ' claims hclaims =>
      hes γ' claims ((List.sublist_cons_self e rest).filterMap _ |>.subset hclaims)
    rw [List.flatMap_cons, List.filter_append, hrest]
    cases e with
    | revoked γ' => rfl
    | closed => rfl
    | granted γ' claims =>
      have hclaims : ∀ c ∈ claims, c.generation = γ' :=
        hes γ' claims (List.mem_filterMap.mpr ⟨_, List.mem_cons_self, if_pos rfl⟩)
      have hgranted : (SessionEvent.granted γ' claims).granted? γ
          = if γ' = γ then some claims else none := rfl
      show claims.filter _ ++ _ = _
      rw [List.filterMap_cons, hgranted]
      by_cases hγ : γ' = γ
      · subst hγ
        rw [List.filter_eq_self.mpr fun c hc => decide_eq_true (hclaims c hc), if_pos rfl]
        rfl
      · rw [List.filter_eq_nil_iff.mpr fun c hc => by simpa [hclaims c hc] using hγ, if_neg hγ]
        rfl

/-- A claim ends when the next generation begins, or when the group is closed. -/
theorem hasEnded_iff (ho : g.Orderly size) {c : Claim} (hlease : c.lease = c.generation)
    (hle : c.generation ≤ g.generation) :
    g.hasEnded c = true ↔ c.generation ≠ g.generation ∨ g.closed = true := by
  rw [hasEnded, List.contains_iff_mem, ho.ended, hlease]
  constructor
  · rintro (hlt | ⟨-, hclosed⟩)
    · exact .inl (Nat.ne_of_lt hlt)
    · exact .inr hclosed
  · rintro (hne | hclosed)
    · exact .inl (Nat.lt_of_le_of_ne hle hne)
    · by_cases heq : c.generation = g.generation
      · exact .inr ⟨heq, hclosed⟩
      · exact .inl (Nat.lt_of_le_of_ne hle heq)

/-- **The claims that have not ended** are those that the present generation has granted. -/
theorem live_eq (ho : g.Orderly size) (hd : g.Dealt size h) (n : ℕ) :
    g.live h n = if g.closed then [] else (g.grants h g.generation n).flatten := by
  have hclaim : ∀ c ∈ (g.stream h n).flatMap (·.claims),
      (!g.hasEnded c) = (decide (c.generation = g.generation) && !g.closed) := by
    intro c hc
    obtain ⟨e, he, hc⟩ := List.mem_flatMap.mp hc
    cases e with
    | revoked γ => cases hc
    | closed => cases hc
    | granted γ claims =>
      have hgrants : claims ∈ g.grants h γ n :=
        List.mem_filterMap.mpr ⟨_, he, if_pos rfl⟩
      obtain ⟨-, -, hgeneration, hlease⟩ := hd.claims γ n claims hgrants c hc
      have hle : γ ≤ g.generation := by
        by_contra hlt
        rw [hd.others γ n fun members hm => absurd (hd.begun γ members hm).1 hlt] at hgrants
        cases hgrants
      have hiff := hasEnded_iff ho (hlease.trans hgeneration.symm) (hgeneration.symm ▸ hle)
      cases hended : g.hasEnded c <;> cases hclosed : g.closed <;>
        simp_all
  rw [live, List.filter_congr hclaim]
  split
  · rename_i hclosed
    simp [hclosed]
  · rename_i hopen
    rw [grants, ← filter_claims fun γ claims hclaims c hc =>
      (hd.claims γ n claims hclaims c hc).2.2.1]
    simp [hopen]

/-- A claim that has not ended stands in a grant of the present generation. -/
theorem mem_grants_of_live (ho : g.Orderly size) (hd : g.Dealt size h) {n : ℕ} {c : Claim}
    (hc : c ∈ g.live h n) : c ∈ (g.grants h g.generation n).flatten := by
  rw [live_eq ho hd] at hc
  split at hc
  · cases hc
  · exact hc

theorem generation_of_live (ho : g.Orderly size) (hd : g.Dealt size h) {n : ℕ} {c : Claim}
    (hc : c ∈ g.live h n) : c.generation = g.generation := by
  obtain ⟨claims, hclaims, hc⟩ := List.mem_flatten.mp (mem_grants_of_live ho hd hc)
  exact (hd.claims _ n claims hclaims c hc).2.2.1

theorem mem_granted_of_live (ho : g.Orderly size) (hd : g.Dealt size h) {n : ℕ} {c : Claim}
    (hc : c ∈ g.live h n) : c.partition ∈ (g.granted h g.generation n).flatten := by
  rw [granted, ← List.map_flatten]
  exact List.mem_map_of_mem (mem_grants_of_live ho hd hc)

/-- The claims of a session that have not ended are of different partitions. -/
theorem nodup_live (ho : g.Orderly size) (hd : g.Dealt size h) (n : ℕ) :
    ((g.live h n).map (·.partition)).Nodup := by
  rw [live_eq ho hd]
  split
  · exact List.nodup_nil
  · rw [List.map_flatten]
    exact hd.nodup g.generation n

/-! ### What moves of a group keep -/

variable {m : GroupMove}

theorem endedLeases_revoke (g : Group) : g.revoke.endedLeases = g.lease :: g.endedLeases := by
  rw [revoke]
  split
  · rfl
  · rw [tellAll_eq_map]

/-- What has ended does not begin again. -/
theorem endedLeases_subset (moved : g.move? m = some g') : g.endedLeases ⊆ g'.endedLeases := by
  obtain ⟨es, heffect⟩ := exists_effect moved
  cases heffect with
  | join =>
    rw [assign_eq_map, show g.revoke.welcome.endedLeases = _ from endedLeases_revoke g]
    exact List.subset_cons_self _ _
  | leave =>
    rw [assign_eq_map, endedLeases_revoke]
    exact List.subset_cons_self _ _
  | refuse | depart | drop => exact List.Subset.refl _
  | ask =>
    rw [nextEvent]
    split
    · exact List.Subset.refl _
    · split <;> exact List.Subset.refl _
  | commit =>
    rw [commit]
    split <;> exact List.Subset.refl _
  | close =>
    rw [close, tellAll_eq_map]
    exact List.subset_cons_self _ _

/-- Only commits change what has been committed. -/
theorem committed_of_move? (moved : g.move? m = some g')
    (hm : ∀ partition generation offset, m ≠ .commit partition generation offset) :
    g'.committed = g.committed := by
  obtain ⟨es, heffect⟩ := exists_effect moved
  cases heffect with
  | join => rw [assign_eq_map, show g.revoke.welcome.committed = _ from committed_revoke g]
  | leave =>
    rw [assign_eq_map, committed_revoke]
    rfl
  | refuse | depart | drop => rfl
  | ask =>
    rw [nextEvent]
    split
    · rfl
    · split <;> rfl
  | commit => exact absurd rfl (hm _ _ _)
  | close => rw [close, tellAll_eq_map]

theorem getD_committedAt (g : Group) (i : ℕ) : (g.committedAt i).getD 0 = g.committed.getD i 0 := by
  rw [committedAt, List.getD_eq_getElem?_getD]
  cases g.committed[i]? with
  | none => rfl
  | some n => by_cases hn : n = 0 <;> simp [hn]

/-- What a commit commits. -/
theorem committedAt_commit {partition : ℕ} (hlt : partition < g.committed.length)
    (generation offset i : ℕ) : (g.commit partition generation offset).committedAt i =
      if i = partition ∧ g.generation = generation then
        some (max ((g.committedAt i).getD 0) (offset + 1)) else g.committedAt i := by
  rw [getD_committedAt, commit]
  by_cases hgeneration : g.generation = generation
  · rw [if_pos hgeneration]
    simp only [committedAt, List.getElem?_modify, hgeneration, and_true]
    by_cases hi : i = partition
    · subst hi
      simp [List.getD_eq_getElem?_getD, List.getElem?_eq_getElem hlt]
    · rw [if_neg hi]
      simp only [Ne.symm hi, if_false]
      cases g.committed[i]? <;> rfl
  · rw [if_neg hgeneration, if_neg fun h => hgeneration h.2]

end Group

namespace Log

variable {l l' : Log} {group topic : String} {g : Group}

/-- A group that does not exist has committed nothing. -/
theorem committed?_of_seat? (hg : l.seat? group topic = some g) (i : ℕ) :
    l.committed? group topic i = g.committedAt i := by
  rw [committed?]
  rw [seat?] at hg
  cases hgroup : l.group? group topic with
  | some g₀ =>
    rw [hgroup, Option.some_or] at hg
    cases hg
    rfl
  | none =>
    rw [hgroup, Option.none_or] at hg
    obtain ⟨t, -, rfl⟩ := Option.map_eq_some_iff.mp hg
    simp only [Group.committedAt, Group.create, List.getElem?_replicate]
    by_cases hi : i < t.size <;> simp [hi]

theorem committed?_of_group? (hgroup : l'.group? group topic = l.group? group topic) (i : ℕ) :
    l'.committed? group topic i = l.committed? group topic i := by
  rw [committed?, committed?, hgroup]

end Log

namespace Readership

variable {allowed : Readership → List LogEvent → LogMove → Prop} {retention : ℕ}
  {r r' : Readership} {h h' : List LogEvent} {m : LogMove} {es : List LogEvent}

/-! ### What moves of a log keep -/

/-- What has ended does not begin again. -/
theorem Effect.hasEnded (heffect : Effect r m r' es) {c : Claim}
    (hended : r.log.hasEnded c = true) : r'.log.hasEnded c = true := by
  rcases heffect.group c.group c.topic with ⟨hgroup, -⟩ | ⟨m', g, g', hseat, moved, hgroup, -⟩
  · rwa [Log.hasEnded, hgroup]
  · obtain ⟨g₀, hg₀, hended⟩ := (Option.any_eq_true _ _).mp hended
    rw [Log.seat?, hg₀, Option.some_or] at hseat
    cases hseat
    rw [Log.hasEnded, hgroup, Option.any_some, Group.hasEnded, List.contains_iff_mem]
    exact Group.endedLeases_subset moved (List.contains_iff_mem.mp hended)

/-- Only marks change what has been committed. -/
theorem Effect.committed? (heffect : Effect r m r' es) (hm : ∀ j o, m ≠ .mark j o)
    (group topic : String) (i : ℕ) :
    r'.log.committed? group topic i = r.log.committed? group topic i := by
  rcases heffect.group group topic with ⟨hgroup, -⟩ | ⟨m', g, g', hseat, moved, hgroup, -, horigin⟩
  · exact Log.committed?_of_group? hgroup i
  · have hcommit : ∀ partition generation offset, m' ≠ .commit partition generation offset := by
      rintro partition generation offset rfl
      obtain ⟨j, x, rfl, -⟩ := mark_of_groupMove? (horigin.resolve_left nofun)
      exact hm j offset rfl
    have hseat' : r'.log.seat? group topic = some g' := by
      rw [Log.seat?, hgroup, Option.some_or]
    rw [Log.committed?_of_seat? hseat, Log.committed?_of_seat? hseat', Group.committedAt,
      Group.committedAt, Group.committed_of_move? moved hcommit]

/-- **A mark** commits the offset after it in the partition of its claim, if the generation of the
claim is the present one. -/
theorem Run.committed?_mark (run : Run allowed (empty retention) r h) {x : Reader}
    (hx : x ∈ r.readers) (o : ℕ) (group topic : String) (i : ℕ) :
    (r.log.mark x.claim o).committed? group topic i =
      if (group, topic, i) = (x.claim.group, x.claim.topic, x.claim.partition) ∧
          r.log.generation x.claim.group x.claim.topic = x.claim.generation then
        some (max ((r.log.committed? group topic i).getD 0) (o + 1))
      else r.log.committed? group topic i := by
  obtain ⟨g, t, hplaced⟩ := run.placed hx
  have hg := hplaced.group
  have step : r.log.Regrouped x.claim.group x.claim.topic
      (.commit x.claim.partition x.claim.generation o) g
      (g.commit x.claim.partition x.claim.generation o) (r.log.mark x.claim o) :=
    Log.regrouped_updateGroup (f := (·.commit x.claim.partition x.claim.generation o)) hg rfl
  by_cases hsame : (group, topic) = (x.claim.group, x.claim.topic)
  · cases hsame
    have hlt : x.claim.partition < g.committed.length := by
      rw [hplaced.run.sound.orderly.size]
      exact hplaced.partition
    rw [Log.committed?, step.after, Option.bind_some, Group.committedAt_commit hlt, Log.committed?,
      hg, Option.bind_some, Log.generation, hg]
    simp
  · rw [Log.committed?_of_group? (step.others group topic hsame), if_neg]
    rintro ⟨heq, -⟩
    exact hsame (by cases heq; rfl)

/-- A call that begins under a claim that has ended gives no record. -/
theorem Run.silent {r₀ : Readership} (run : Run allowed r₀ r h) {i : ℕ} {x : Reader}
    (hx : r₀.readers[i]? = some x) (hended : r₀.log.hasEnded x.claim = true)
    (hstage : x.stage = .resting ∨ x.stage = .asked) :
    (∃ x', r.readers[i]? = some x' ∧ x'.claim = x.claim ∧ r.log.hasEnded x.claim = true ∧
      (x'.stage = .resting ∨ x'.stage = .asked)) ∧ ∀ a, .returned i a ∈ h → a = none := by
  -- Since the claim has ended for good, the reader never gets further than to look.
  induction run with
  | start => exact ⟨⟨x, hx, rfl, hended, hstage⟩, nofun⟩
  | move run permitted moved ih =>
    obtain ⟨⟨x₁, hx₁, hclaim, hended₁, hstage₁⟩, hnone⟩ := ih
    have heffect := effect_of_move? moved
    have hended₂ := heffect.hasEnded hended₁
    rcases heffect.reader hx₁ with ⟨hx₂, hes⟩ | ⟨rm, x₂, a, -, effect, -, hx₂, hes⟩
    · refine ⟨⟨x₁, hx₂, hclaim, hended₂, hstage₁⟩, fun a ha => ?_⟩
      exact hnone a ((List.mem_append.mp ha).resolve_right (hes a))
    · refine ⟨⟨x₂, hx₂, effect.claim.trans hclaim, hended₂, ?_⟩, fun a' ha' => ?_⟩
      · cases effect with
        | call => exact .inr rfl
        | refuse | abandon => exact .inl rfl
        | check _ live =>
          rw [hclaim, hended₁] at live
          cases live
        | note stage | read stage | suspend stage | wake stage | heed stage =>
          rw [stage] at hstage₁
          simp at hstage₁
      · rcases List.mem_append.mp ha' with ha' | ha'
        · exact hnone a' ha'
        · rw [hes] at ha'
          cases effect with
          | refuse | heed =>
            exact (LogEvent.returned.inj (List.mem_singleton.mp ha')).2
          | read stage =>
            rw [stage] at hstage₁
            simp at hstage₁
          | call | check | note | suspend | wake | abandon => cases ha'

/-! ### Fencing -/

/-- **When the claim of a reader has ended.** -/
theorem Run.hasEnded_iff (run : Run allowed (empty retention) r h) {x : Reader}
    (hx : x ∈ r.readers) : ∃ g, r.log.group? x.claim.group x.claim.topic = some g ∧
      x.claim.generation ≤ g.generation ∧
      (r.log.hasEnded x.claim = true ↔ x.claim.generation ≠ g.generation ∨ g.closed = true) := by
  obtain ⟨g, t, hplaced⟩ := run.placed hx
  refine ⟨g, hplaced.group, hplaced.generation, ?_⟩
  rw [Log.hasEnded, hplaced.group, Option.any_some]
  exact Group.hasEnded_iff hplaced.run.sound.orderly hplaced.lease hplaced.generation

/-- A claim that has not ended is of the present generation. -/
theorem Run.generation_of_live (run : Run allowed (empty retention) r h) {x : Reader}
    (hx : x ∈ r.readers) (hlive : r.log.hasEnded x.claim = false) {g : Group}
    (hg : r.log.group? x.claim.group x.claim.topic = some g) :
    x.claim.generation = g.generation := by
  obtain ⟨g', hg', -, hiff⟩ := run.hasEnded_iff hx
  obtain rfl := Option.some.inj (hg.symm.trans hg')
  by_contra hne
  rw [hiff.mpr (.inl hne)] at hlive
  cases hlive

/-- The claims of readers that have not ended are of different partitions. -/
theorem Run.live_apart (run : Run allowed (empty retention) r h) :
    r.readers.Pairwise fun x y => x.claim.group = y.claim.group → x.claim.topic = y.claim.topic →
      r.log.hasEnded x.claim = false → r.log.hasEnded y.claim = false →
      x.claim.partition ≠ y.claim.partition := by
  refine run.readers_apart.imp_of_mem fun {x y} hx hy hapart hgroup htopic hlive hlive' => ?_
  obtain ⟨g, hg, -⟩ := run.hasEnded_iff hx
  have hgeneration := run.generation_of_live hx hlive hg
  rw [hgroup, htopic] at hg
  exact hapart hgroup htopic (hgeneration.trans (run.generation_of_live hy hlive' hg).symm)

/-- **No move takes back** what has been committed. -/
theorem Run.committed?_le (run : Run allowed (empty retention) r h) (moved : r.move? m = some r')
    (group topic : String) (i : ℕ) :
    (r.log.committed? group topic i).getD 0 ≤ (r'.log.committed? group topic i).getD 0 := by
  by_cases hm : ∀ j o, m ≠ .mark j o
  · rw [(effect_of_move? moved).committed? hm]
  · push Not at hm
    obtain ⟨j, o, rfl⟩ := hm
    obtain ⟨x, hx, rfl⟩ := Option.map_eq_some_iff.mp moved
    show _ ≤ ((r.log.mark x.claim o).committed? group topic i).getD 0
    rw [run.committed?_mark (List.mem_of_getElem? hx)]
    split
    · exact Nat.le_max_left _ _
    · exact Nat.le_refl _

/-- A call that is about to look finds that its claim has ended. -/
theorem check_of_ended {i : ℕ} {x : Reader} (hx : r.readers[i]? = some x)
    (hstage : x.stage = .asked) (hended : r.log.hasEnded x.claim = true) :
    ∃ r', r.move? (.read i .check) = some r' ∧
      r.events (.read i .check) r' = [.returned i none] := by
  have hstep : x.step? r.log .check = some ({ x with stage := .resting }, some none) := by
    unfold Reader.step?
    simp only [hstage, hended, if_true]
  refine ⟨{ r with readers := r.readers.set i { x with stage := .resting } }, ?_, ?_⟩
  · rw [move?, hx, Option.bind_some, hstep]
    rfl
  · rw [events, hx, Option.bind_some, hstep]
    rfl

/-- **Fencing**, along any run. The claims of a group that have not ended, in whatever session, are
of its present generation and of different partitions, and so are those of readers. A claim has
ended when its generation is not the present one or its group is closed; then a poll gives nothing,
a call that is about to look gives nothing, and so does every later call, whatever else happens. A
mark commits the offset after it in the partition of its claim if its generation is the present one,
and changes nothing else. No move takes back what has been committed, and only marks change it. -/
theorem Run.fenced (run : Run allowed (empty retention) r h) :
    (∀ group topic g, r.log.group? group topic = some g → ∀ n,
      (∀ c ∈ g.live (groupEvents h group topic) n, c.generation = g.generation) ∧
      ((g.live (groupEvents h group topic) n).map (·.partition)).Nodup ∧
      ∀ n', n ≠ n' → ∀ c ∈ g.live (groupEvents h group topic) n,
        ∀ c' ∈ g.live (groupEvents h group topic) n', c.partition ≠ c'.partition) ∧
    (r.readers.Pairwise fun x y => x.claim.group = y.claim.group → x.claim.topic = y.claim.topic →
      r.log.hasEnded x.claim = false → r.log.hasEnded y.claim = false →
      x.claim.partition ≠ y.claim.partition) ∧
    (∀ i x, r.readers[i]? = some x → ∃ g, r.log.group? x.claim.group x.claim.topic = some g ∧
      x.claim.generation ≤ g.generation ∧
      (r.log.hasEnded x.claim = true ↔ x.claim.generation ≠ g.generation ∨ g.closed = true) ∧
      (r.log.hasEnded x.claim = true →
        (r.log.poll { x.claim with position := x.position }).1 = .ended ∧
        (x.stage = .asked → ∃ r', r.move? (.read i .check) = some r' ∧
          r.events (.read i .check) r' = [.returned i none]) ∧
        (x.stage = .resting ∨ x.stage = .asked → ∀ r' h', Run (fun _ _ _ => True) r r' h' →
          ∀ a, .returned i a ∈ h' → a = none))) ∧
    (∀ x ∈ r.readers, ∀ o group topic i, (r.log.mark x.claim o).committed? group topic i =
      if (group, topic, i) = (x.claim.group, x.claim.topic, x.claim.partition) ∧
          r.log.generation x.claim.group x.claim.topic = x.claim.generation then
        some (max ((r.log.committed? group topic i).getD 0) (o + 1))
      else r.log.committed? group topic i) ∧
    ∀ m r', r.move? m = some r' → ∀ group topic i,
      (r.log.committed? group topic i).getD 0 ≤ (r'.log.committed? group topic i).getD 0 ∧
      ((∀ j o, m ≠ .mark j o) →
        r'.log.committed? group topic i = r.log.committed? group topic i) := by
  refine ⟨fun group topic g hg n => ?_, run.live_apart, fun i x hx => ?_,
    fun x hx => run.committed?_mark hx, fun m r' moved group topic i =>
      ⟨run.committed?_le moved group topic i, fun hm =>
        (effect_of_move? moved).committed? hm group topic i⟩⟩
  · obtain ⟨t, -, hrun⟩ := run.group hg
    have ho := hrun.sound.orderly
    have hd := hrun.dealt
    exact ⟨fun c => Group.generation_of_live ho hd, Group.nodup_live ho hd n,
      fun n' hne c hc c' hc' => hd.ne hne (Group.mem_granted_of_live ho hd hc)
        (Group.mem_granted_of_live ho hd hc')⟩
  · obtain ⟨g, hg, hle, hiff⟩ := run.hasEnded_iff (List.mem_of_getElem? hx)
    refine ⟨g, hg, hle, hiff, fun hend => ⟨?_, fun hstage => check_of_ended hx hstage hend,
      fun hstage r' h' run' => (run'.silent hx hend hstage).2⟩⟩
    rw [Reader.poll_of_ended hend]

/-- Of two records a reader has taken one and marked it when a new member begins the next
generation. The other record is there, but a call of the reader gives nothing, and its mark is
ignored. -/
theorem fenced_rejoined : ∃ r h, Run (fun _ _ _ => True) (empty 4) r h ∧ ∃ x y,
    r.readers = [x, y] ∧ x.stage = .asked ∧ r.log.hasEnded x.claim = true ∧
      (∃ r', r.move? (.read 0 .check) = some r' ∧
        r.events (.read 0 .check) r' = [.returned 0 none]) ∧
      r.log.watermark? "t" 0 = some 2 ∧ (r.log.mark x.claim 1).committed? "g" "t" 0 = some 1 ∧
      (r.log.mark y.claim 1).committed? "g" "t" 0 = some 2 := by
  obtain ⟨r, h, run, hreaders, hended, hwatermark, hcommitted, hgeneration⟩ :=
    exists_of_recording move? events (Run _ _) (empty 4)
      [.createTopic "t" 1, .enrol "g" "t", .ask "g" "t" 1, .append "t" "a" [1], .append "t" "a" [2],
        .read 0 .call, .read 0 .check, .read 0 .note, .read 0 .read, .mark 0 0, .enrol "g" "t",
        .ask "g" "t" 1, .ask "g" "t" 1, .read 0 .call] (fun _ run => run.move trivial) .start
      (fun r h => r.readers =
          [⟨⟨"g", "t", 0, 1, 1, 0⟩, 1, .asked⟩, .create ⟨"g", "t", 0, 2, 2, 1⟩] ∧
        r.log.hasEnded ⟨"g", "t", 0, 1, 1, 0⟩ = true ∧ r.log.watermark? "t" 0 = some 2 ∧
        r.log.committed? "g" "t" 0 = some 1 ∧ r.log.generation "g" "t" = 2) (by decide +kernel)
  obtain ⟨-, -, hcalls, hmarks, -⟩ := run.fenced
  obtain ⟨g, -, -, -, hcall⟩ := hcalls 0 _ (by rw [hreaders]; rfl)
  refine ⟨r, h, run, _, _, hreaders, rfl, hended, (hcall hended).2.1 rfl, hwatermark, ?_, ?_⟩
  · rw [hmarks _ (hreaders ▸ List.mem_cons_self), hgeneration, hcommitted]
    rfl
  · rw [hmarks _ (hreaders ▸ List.mem_cons_of_mem _ List.mem_cons_self), Reader.create, hgeneration,
      hcommitted]
    rfl

end Readership

end SmsRelay
