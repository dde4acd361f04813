import SmsRelay.Proofs.Log.Membership

/-!
# What members are told

What a session has answered and what still waits in it are together its stream: all that its member
has been told. Members are told of the generations from their own on, each with its grant and its
revocation, and of the end.

## Implementation notes

Within a generation its members hold their grants, and between two generations they await the next
one. `Informed` describes both, with the stage to which the streams of the members have come.

## Main results

* `Group.Sound.move`: one move keeps members informed.
* `Group.Run.sound`: so they are along a run.
-/

namespace SmsRelay

/-- The answer of a session that an event is. -/
def GroupEvent.answer? (number : ℕ) : GroupEvent → Option SessionEvent
  | answered n e => if n = number then some e else none
  | _ => none

namespace Group

/-- What a session has answered. -/
def answers (h : List GroupEvent) (number : ℕ) : List SessionEvent := h.filterMap (·.answer? number)

/-- All that a session has been told: what it has answered and what waits in it. -/
def stream (g : Group) (h : List GroupEvent) (number : ℕ) : List SessionEvent :=
  answers h number ++ (g.session? number).elim [] (·.waiting)

end Group

/-- How far a session has come. -/
inductive SessionStage where
  /-- It awaits the grant of a generation. -/
  | awaiting (generation : ℕ)
  | holding (generation : ℕ)
  | over
  deriving DecidableEq

/-- What a session is told from the generation `first` on: the grant of each generation and its
revocation, in turn, and perhaps the end after a grant. -/
inductive Told (first : ℕ) : SessionStage → List SessionEvent → Prop
  | nothing : Told first (.awaiting first) []
  | granted {γ : ℕ} {es : List SessionEvent} (claims : List Claim)
      (told : Told first (.awaiting γ) es) : Told first (.holding γ) (es ++ [.granted γ claims])
  | revoked {γ : ℕ} {es : List SessionEvent} (told : Told first (.holding γ) es) :
      Told first (.awaiting (γ + 1)) (es ++ [.revoked γ])
  | closed {γ : ℕ} {es : List SessionEvent} (told : Told first (.holding γ) es) :
      Told first .over (es ++ [.closed])

/-- What a session has been told that is no longer served. A session that is over says so as often
as it is asked. -/
def Concluded (first : ℕ) (listening : Bool) (es : List SessionEvent) : Prop :=
  ∃ stage told k, es = told ++ List.replicate k .closed ∧ Told first stage told ∧
    (0 < k ∨ listening → stage = .over)

theorem Told.concluded {first : ℕ} {stage : SessionStage} {es : List SessionEvent}
    (h : Told first stage es) {listening : Bool} (hl : listening = true → stage = .over) :
    Concluded first listening es :=
  ⟨stage, es, 0, by simp, h, fun hor => hl (hor.resolve_left (Nat.lt_irrefl 0))⟩

theorem Concluded.deaf {first : ℕ} {listening : Bool} {es : List SessionEvent}
    (h : Concluded first listening es) : Concluded first false es := by
  obtain ⟨stage, told, k, heq, htold, hover⟩ := h
  exact ⟨stage, told, k, heq, htold, fun hor => hover (hor.imp_right nofun)⟩

/-- To say that it is over adds to what a session has been told only if it has been told so. -/
theorem Concluded.again {first : ℕ} {es : List SessionEvent} (h : Concluded first true es) :
    Concluded first true (es ++ [.closed]) := by
  obtain ⟨stage, told, k, rfl, htold, hover⟩ := h
  refine ⟨stage, told, k + 1, ?_, htold, fun _ => hover (.inr rfl)⟩
  rw [List.append_assoc, ← List.replicate_succ']

namespace Group

variable {size : ℕ} {g : Group} {h : List GroupEvent} {stage : SessionStage}

/-! ### Members are informed -/

theorem answers_append (h h' : List GroupEvent) (n : ℕ) :
    answers (h ++ h') n = answers h n ++ answers h' n :=
  List.filterMap_append

theorem stream_of_session? {n : ℕ} {s : Session} (hs : g.session? n = some s)
    (h : List GroupEvent) : g.stream h n = answers h n ++ s.waiting := by
  rw [stream, hs]
  rfl

/-- What is answered by others and what waits for others does not concern a session. -/
theorem stream_congr {g' : Group} {h h' : List GroupEvent} {n : ℕ}
    (hsession : g'.session? n = g.session? n) (hanswers : answers h' n = answers h n) :
    g'.stream h' n = g.stream h n := by
  rw [stream, stream, hsession, hanswers]

/-- What waits for a session stays as it is. -/
theorem stream_of_waiting {g' : Group} {f : ℕ → Session → Session}
    (hsession : ∀ n, g'.session? n = (g.session? n).map (f n))
    (hwaiting : ∀ n s, (f n s).waiting = s.waiting) (n : ℕ) : g'.stream h n = g.stream h n := by
  rw [stream, stream, hsession]
  cases g.session? n with
  | none => rfl
  | some s => rw [Option.map_some, Option.elim_some, Option.elim_some, hwaiting]

/-- A session hears what it is told if anyone listens. -/
theorem stream_of_hear {g' : Group} {n : ℕ} {f : Session → Session} {es : List SessionEvent}
    (hsession : g'.session? n = (g.session? n).map f)
    (hwaiting : ∀ s, (f s).waiting = (s.hear es).waiting) :
    g'.stream h n = g.stream h n ++ if g.isListening n then es else [] := by
  rw [stream, stream, hsession, isListening]
  cases g.session? n with
  | none => simp
  | some s => simp [hwaiting, Session.waiting_hear]

theorem stream_revoke (ho : g.Orderly size) (h : List GroupEvent) (n : ℕ) :
    g.revoke.stream h n = g.stream h n ++ if n ∈ g.kept then [.revoked g.generation] else [] := by
  have hsession := session?_revoke ho n
  by_cases hn : n ∈ g.kept
  · simp only [if_pos hn] at hsession
    rw [stream_of_hear hsession fun _ => rfl, (mem_kept.mp hn).2, if_pos rfl, if_pos hn]
  · simp only [if_neg hn] at hsession
    have hsilent : ∀ s : Session, ({ s with attached := false } : Session).waiting
        = (s.hear []).waiting := fun s => by rw [Session.hear_nil]
    rw [stream_of_hear hsession hsilent, ite_self, if_neg hn]

/-- What a group that begins a generation tells its members. -/
theorem stream_assign (hb : g.Between size) (bases : List ℕ) (h : List GroupEvent) {k n : ℕ}
    (hk : g.members[k]? = some n) :
    (g.assign bases).stream h n = g.stream h n ++ [g.grant bases k] := by
  have hsession := session?_assign g bases n
  rw [addressed_byPlace hb.nodup _ hk] at hsession
  rw [stream_of_hear hsession fun _ => rfl, hb.listening n (List.mem_of_getElem? hk), if_pos rfl]

theorem session?_assign_of_not_mem {n : ℕ} (hn : n ∉ g.members) (bases : List ℕ) :
    (g.assign bases).session? n = g.session? n := by
  rw [session?_assign, addressed_byPlace_of_not_mem _ hn]
  simp only [Session.hear_nil, Option.map_id']

theorem stream_close (ho : g.Orderly size) (h : List GroupEvent) (n : ℕ) :
    g.close.stream h n = g.stream h n ++ if n ∈ g.kept then [.closed] else [] := by
  rw [stream_of_hear (session?_close ho n) fun _ => rfl]
  by_cases hmem : n ∈ g.members <;> cases hl : g.isListening n <;> simp [mem_kept, hmem, hl]

theorem answers_answered (h : List GroupEvent) (number n : ℕ) (e : SessionEvent) :
    answers (h ++ [.answered number e]) n = answers h n ++ if n = number then [e] else [] := by
  rw [answers_append]
  congr 1
  by_cases hn : n = number
  · simp [answers, GroupEvent.answer?, hn]
  · simp [answers, GroupEvent.answer?, hn, Ne.symm hn]

/-- An event that has waited is answered. -/
theorem stream_take {number : ℕ} {s : Session} {e : SessionEvent} {rest : List SessionEvent}
    (hs : g.session? number = some s) (hwaiting : s.waiting = e :: rest) (n : ℕ) :
    (g.updateSession number fun s => { s with waiting := rest }).stream
      (h ++ [.answered number e]) n = g.stream h n := by
  have hsession := session?_updateSession g number n
    (f := fun s => { s with waiting := rest }) fun _ => rfl
  rw [stream, stream, answers_answered, hsession]
  by_cases hn : n = number
  · subst hn
    simp [hs, hwaiting]
  · simp [hn]

/-- An answer comes although nothing has waited. -/
theorem stream_over {number : ℕ} {s : Session} (hs : g.session? number = some s)
    (hwaiting : s.waiting = []) (e : SessionEvent) (n : ℕ) :
    g.stream (h ++ [.answered number e]) n = g.stream h n ++ if n = number then [e] else [] := by
  rw [stream, stream, answers_answered]
  by_cases hn : n = number
  · subst hn
    simp [hs, hwaiting]
  · simp [hn]

/-- The members of a group have been told everything up to the stage `stage`, and they alone are
served. -/
structure Informed (g : Group) (h : List GroupEvent) (stage : SessionStage) : Prop where
  sessions : ∀ n, (g.session? n).isSome ↔ ∃ first, .joined n first ∈ h
  bounded : ∀ n first, .joined n first ∈ h → n ≤ g.joined
  silent : ∀ n, g.joined < n → answers h n = []
  served : ∀ n s, g.session? n = some s → (s.attached = true ↔ n ∈ g.members)
  told : ∀ n first, .joined n first ∈ h → n ∈ g.members → Told first stage (g.stream h n)
  concluded : ∀ n first s, .joined n first ∈ h → g.session? n = some s → n ∉ g.members →
    Concluded first s.listening (g.stream h n)

theorem Informed.fresh (hi : g.Informed h stage) : g.session? (g.joined + 1) = none := by
  rw [← Option.not_isSome_iff_eq_none, hi.sessions]
  rintro ⟨first, hjoined⟩
  exact Nat.not_succ_le_self _ (hi.bounded _ _ hjoined)

/-- **A revocation.** -/
theorem Informed.revoke (hi : g.Informed h (.holding g.generation)) (ho : g.Orderly size) :
    g.revoke.Informed h (.awaiting (g.generation + 1)) := by
  have hsession := session?_revoke ho
  refine ⟨fun n => ?_, fun n => ?_, fun n => ?_, fun n s' hs' => ?_, fun n first hfirst hn => ?_,
    fun n first s' hfirst hs' hn => ?_⟩
  · rw [hsession, Option.isSome_map, hi.sessions]
  · rw [joined_revoke ho]
    exact hi.bounded n
  · rw [joined_revoke ho]
    exact hi.silent n
  · rw [hsession] at hs'
    obtain ⟨s, hs, rfl⟩ := Option.map_eq_some_iff.mp hs'
    rw [members_revoke ho]
    split
    · rename_i hkept
      rw [Session.attached_hear, hi.served n s hs]
      exact iff_of_true (mem_kept.mp hkept).1 hkept
    · rename_i hkept
      exact iff_of_false nofun hkept
  · rw [members_revoke ho] at hn
    rw [stream_revoke ho, if_pos hn]
    exact (hi.told n first hfirst (mem_kept.mp hn).1).revoked
  · rw [hsession] at hs'
    obtain ⟨s, hs, rfl⟩ := Option.map_eq_some_iff.mp hs'
    rw [members_revoke ho] at hn
    rw [if_neg hn, stream_revoke ho, if_neg hn, List.append_nil]
    by_cases hmem : n ∈ g.members
    · refine Told.concluded (hi.told n first hfirst hmem) fun hlistening => ?_
      exact (hn (mem_kept.mpr ⟨hmem, (isListening_eq hs).trans hlistening⟩)).elim
    · exact hi.concluded n first s hfirst hs hmem

/-- **A new member** is told of the generations from its own on. -/
theorem Informed.welcome (hi : g.Informed h (.awaiting (g.generation + 1))) :
    g.welcome.Informed (h ++ [.joined (g.joined + 1) (g.generation + 1)])
      (.awaiting (g.generation + 1)) := by
  have hold : ∀ n first, n ≠ g.joined + 1 →
      (.joined n first ∈ h ++ [.joined (g.joined + 1) (g.generation + 1)] ↔
        .joined n first ∈ h) := by
    intro n first hn
    simp [hn]
  have hanswers : ∀ n, answers (h ++ [.joined (g.joined + 1) (g.generation + 1)]) n = answers h n :=
    fun n => (answers_append _ _ _).trans (List.append_nil _)
  have hnew : g.welcome.session? (g.joined + 1) = some { number := g.joined + 1 } := by
    rw [session?, Group.welcome, List.find?_append, ← session?, hi.fresh]
    simp
  have hfirst : ∀ first, .joined (g.joined + 1) first ∈
      h ++ [.joined (g.joined + 1) (g.generation + 1)] ↔ first = g.generation + 1 := by
    intro first
    have hnone : .joined (g.joined + 1) first ∉ h := fun hmem =>
      Nat.not_succ_le_self _ (hi.bounded _ _ hmem)
    simp [hnone]
  have hmem : ∀ n, n ≠ g.joined + 1 → (n ∈ g.welcome.members ↔ n ∈ g.members) := by
    intro n hn
    simp [Group.welcome, hn]
  have hself : g.joined + 1 ∈ g.welcome.members :=
    List.mem_append_right _ (List.mem_singleton_self _)
  -- Each field is split into the new session and the old ones, of which nothing has changed.
  refine ⟨fun n => ?_, fun n first hjoined => ?_, fun n hn => ?_, fun n s hs => ?_,
    fun n first hjoined hn => ?_, fun n first s hjoined hs hn => ?_⟩
  · by_cases hn : n = g.joined + 1
    · subst hn
      rw [hnew]
      exact iff_of_true rfl ⟨_, (hfirst _).mpr rfl⟩
    · rw [session?_welcome g hn, hi.sessions]
      exact exists_congr fun first => (hold n first hn).symm
  · by_cases hn : n = g.joined + 1
    · exact Nat.le_of_eq hn
    · exact Nat.le_succ_of_le (hi.bounded n first ((hold n first hn).mp hjoined))
  · rw [hanswers]
    exact hi.silent n (Nat.lt_of_succ_lt hn)
  · by_cases hn : n = g.joined + 1
    · subst hn
      rw [hnew] at hs
      cases hs
      exact iff_of_true rfl hself
    · rw [session?_welcome g hn] at hs
      rw [hmem n hn]
      exact hi.served n s hs
  · by_cases hne : n = g.joined + 1
    · subst hne
      rw [(hfirst first).mp hjoined, stream_of_session? hnew, hanswers,
        hi.silent _ (Nat.lt_succ_self _)]
      exact .nothing
    · rw [stream_congr (session?_welcome g hne) (hanswers n)]
      exact hi.told n first ((hold n first hne).mp hjoined) ((hmem n hne).mp hn)
  · by_cases hne : n = g.joined + 1
    · exact absurd (hne ▸ hself) hn
    · rw [session?_welcome g hne] at hs
      rw [stream_congr (session?_welcome g hne) (hanswers n)]
      exact hi.concluded n first s ((hold n first hne).mp hjoined) hs (mt (hmem n hne).mpr hn)

/-- **A grant.** -/
theorem Informed.assign (hi : g.Informed h (.awaiting (g.generation + 1))) (hb : g.Between size)
    (bases : List ℕ) (γ : ℕ) (members : List ℕ) :
    (g.assign bases).Informed (h ++ [.began γ members]) (.holding (g.generation + 1)) := by
  have hold : ∀ n first, .joined n first ∈ h ++ [.began γ members] ↔ .joined n first ∈ h := by simp
  have hanswers : ∀ n, answers (h ++ [.began γ members]) n = answers h n :=
    fun n => (answers_append _ _ _).trans (List.append_nil _)
  have hstream : ∀ g' : Group, ∀ n, g'.stream (h ++ [.began γ members]) n = g'.stream h n :=
    fun g' n => stream_congr rfl (hanswers n)
  refine ⟨fun n => ?_, fun n first hfirst => ?_, fun n hn => ?_, fun n s' hs' => ?_,
    fun n first hfirst hn => ?_, fun n first s' hfirst hs' hn => ?_⟩
  · rw [session?_assign, Option.isSome_map, hi.sessions]
    exact exists_congr fun first => (hold n first).symm
  · rw [joined_assign]
    exact hi.bounded n first ((hold n first).mp hfirst)
  · rw [hanswers]
    exact hi.silent n (joined_assign g bases ▸ hn)
  · rw [session?_assign] at hs'
    obtain ⟨s, hs, rfl⟩ := Option.map_eq_some_iff.mp hs'
    rw [Session.attached_hear, members_assign]
    exact hi.served n s hs
  · rw [members_assign] at hn
    obtain ⟨k, hk⟩ := List.getElem?_of_mem hn
    have hfirst := (hold n first).mp hfirst
    rw [hstream, stream_assign hb bases h hk]
    exact (hi.told n first hfirst hn).granted _
  · rw [members_assign] at hn
    have hsession := session?_assign_of_not_mem hn bases
    rw [hsession] at hs'
    rw [stream_congr hsession (hanswers n)]
    exact hi.concluded n first s' ((hold n first).mp hfirst) hs' hn

/-- A change at which nobody is told anything. Sessions that nobody serves have been given up. -/
theorem Informed.quiet {g' : Group} {h' : List GroupEvent} {f : ℕ → Session → Session}
    (hi : g.Informed h stage) (hsession : ∀ n, g'.session? n = (g.session? n).map (f n))
    (hjoined : g'.joined = g.joined)
    (hfirst : ∀ n first, .joined n first ∈ h' ↔ .joined n first ∈ h)
    (hstream : ∀ n, g'.stream h' n = g.stream h n) (hmembers : ∀ n ∈ g'.members, n ∈ g.members)
    (hserved : ∀ n s, g.session? n = some s → ((f n s).attached = true ↔ n ∈ g'.members))
    (hlistening : ∀ n s, n ∉ g'.members → (f n s).listening = true →
      s.listening = true ∧ n ∉ g.members) : g'.Informed h' stage := by
  refine ⟨fun n => ?_, fun n first hj => ?_, fun n hn => ?_, fun n s' hs' => ?_,
    fun n first hj hn => ?_, fun n first s' hj hs' hn => ?_⟩
  · rw [hsession, Option.isSome_map, hi.sessions]
    exact exists_congr fun first => (hfirst n first).symm
  · rw [hjoined]
    exact hi.bounded n first ((hfirst n first).mp hj)
  · rw [hjoined] at hn
    have hnone : g.session? n = none := by
      rw [← Option.not_isSome_iff_eq_none, hi.sessions]
      rintro ⟨first, hj⟩
      exact Nat.not_le_of_lt hn (hi.bounded n first hj)
    have heq := hstream n
    rw [stream, stream, hsession, hnone, hi.silent n hn] at heq
    simpa using heq
  · rw [hsession] at hs'
    obtain ⟨s, hs, rfl⟩ := Option.map_eq_some_iff.mp hs'
    exact hserved n s hs
  · rw [hstream]
    exact hi.told n first ((hfirst n first).mp hj) (hmembers n hn)
  · rw [hsession] at hs'
    obtain ⟨s, hs, rfl⟩ := Option.map_eq_some_iff.mp hs'
    have hj := (hfirst n first).mp hj
    rw [hstream]
    by_cases hmem : n ∈ g.members
    · exact (hi.told n first hj hmem).concluded fun hl => ((hlistening n s hn hl).2 hmem).elim
    · have hconcluded := hi.concluded n first s hj hs hmem
      cases hl : (f n s).listening with
      | false => exact hconcluded.deaf
      | true => rwa [(hlistening n s hn hl).1] at hconcluded

theorem Informed.depart (hi : g.Informed h stage) (number : ℕ) :
    (g.depart number).Informed h stage := by
  refine hi.quiet (session?_depart g number) rfl (fun _ _ => Iff.rfl)
    (stream_of_waiting (session?_depart g number) fun n s => by split <;> rfl)
    (fun n hn => (mem_depart.mp hn).1) (fun n s hs => ?_) fun n s hn => ?_
  · rw [mem_depart]
    split
    · rename_i heq
      exact iff_of_false nofun fun hmem => hmem.2 heq
    · rename_i hne
      rw [hi.served n s hs]
      exact (and_iff_left hne).symm
  · rw [mem_depart] at hn
    split
    · exact nofun
    · rename_i hne
      exact fun hl => ⟨hl, fun hmem => hn ⟨hmem, hne⟩⟩

theorem Informed.drop (hi : g.Informed h stage) (number : ℕ) :
    (g.drop number).Informed h stage := by
  have hsession := fun n => session?_updateSession g number n
    (f := fun s => { s with listening := false }) fun _ => rfl
  refine hi.quiet hsession rfl (fun _ _ => Iff.rfl)
    (stream_of_waiting hsession fun n s => by split <;> rfl) (fun _ => id) (fun n s hs => ?_)
    fun n s hn => ?_
  · rw [← show n ∈ g.members ↔ n ∈ (g.drop number).members from Iff.rfl, ← hi.served n s hs]
    split <;> rfl
  · split
    · exact nofun
    · exact fun hl => ⟨hl, hn⟩

theorem Informed.commit (hi : g.Informed h stage) (partition generation offset : ℕ) :
    (g.commit partition generation offset).Informed h stage := by
  rw [Group.commit]
  split
  · exact ⟨hi.sessions, hi.bounded, hi.silent, hi.served, hi.told, hi.concluded⟩
  · exact hi

/-- **The end.** -/
theorem Informed.close (hi : g.Informed h (.holding g.generation)) (ho : g.Orderly size) :
    g.close.Informed h (.holding g.close.generation) := by
  have hsession := session?_close ho
  have hmembers : g.close.members = [] := rfl
  have hjoined : g.close.joined = g.joined := by rw [close_eq_map ho.nodup]
  refine ⟨fun n => ?_, fun n => ?_, fun n => ?_, fun n s' hs' => ?_, fun n first _ hn => ?_,
    fun n first s' hfirst hs' _ => ?_⟩
  · rw [hsession, Option.isSome_map, hi.sessions]
  · rw [hjoined]
    exact hi.bounded n
  · rw [hjoined]
    exact hi.silent n
  · rw [hsession] at hs'
    obtain ⟨s, hs, rfl⟩ := Option.map_eq_some_iff.mp hs'
    exact iff_of_false nofun (hmembers ▸ List.not_mem_nil)
  · exact absurd hn (hmembers ▸ List.not_mem_nil)
  · obtain ⟨s, hs, rfl⟩ := Option.map_eq_some_iff.mp (hsession n ▸ hs')
    have hlistening := isListening_eq hs
    rw [stream_close ho]
    simp only [Session.listening_hear]
    by_cases hkept : n ∈ g.kept
    · rw [if_pos hkept]
      exact (hi.told n first hfirst (mem_kept.mp hkept).1).closed.concluded fun _ => rfl
    · rw [if_neg hkept, List.append_nil]
      by_cases hmem : n ∈ g.members
      · refine (hi.told n first hfirst hmem).concluded fun hl => ?_
        exact (hkept (mem_kept.mpr ⟨hmem, hlistening.trans hl⟩)).elim
      · exact hi.concluded n first s hfirst hs hmem

theorem joined_mem_answered {h : List GroupEvent} {number : ℕ} {e : SessionEvent} {n first : ℕ} :
    .joined n first ∈ h ++ [.answered number e] ↔ .joined n first ∈ h := by
  simp

/-- A session that is served no more answers that it is over. -/
theorem Informed.over (hi : g.Informed h stage) {number : ℕ} {s : Session}
    (hs : g.session? number = some s) (hlistening : s.listening = true)
    (hattached : s.attached = false) (hwaiting : s.waiting = []) :
    g.Informed (h ++ [.answered number .closed]) stage := by
  have hnot : number ∉ g.members := fun hmem => by
    rw [(hi.served number s hs).mpr hmem] at hattached
    cases hattached
  have hstream := fun n => stream_over (h := h) hs hwaiting .closed n
  refine ⟨fun n => ?_, fun n first hj => ?_, fun n hn => ?_, hi.served, fun n first hj hn => ?_,
    fun n first s' hj hs' hn => ?_⟩
  · rw [hi.sessions]
    exact exists_congr fun first => joined_mem_answered.symm
  · exact hi.bounded n first (joined_mem_answered.mp hj)
  · have hne : n ≠ number := by
      rintro rfl
      obtain ⟨first, hj⟩ := (hi.sessions n).mp (Option.isSome_iff_exists.mpr ⟨s, hs⟩)
      exact Nat.not_le_of_lt hn (hi.bounded n first hj)
    rw [answers_answered, if_neg hne, List.append_nil, hi.silent n hn]
  · have hne : n ≠ number := fun heq => hnot (heq ▸ hn)
    rw [hstream, if_neg hne, List.append_nil]
    exact hi.told n first (joined_mem_answered.mp hj) hn
  · have hconcluded := hi.concluded n first s' (joined_mem_answered.mp hj) hs' hn
    by_cases hne : n = number
    · subst hne
      obtain rfl : s = s' := Option.some.inj (hs.symm.trans hs')
      rw [hlistening] at hconcluded ⊢
      rw [hstream, if_pos rfl]
      exact hconcluded.again
    · rwa [hstream, if_neg hne, List.append_nil]

/-- **An answer.** What waits in a session is answered in turn, and then that it is over. -/
theorem Informed.ask (hi : g.Informed h stage) {number : ℕ}
    (hlistening : g.isListening number = true) :
    (g.nextEvent number).2.Informed (h ++ g.replies (.ask number)) stage := by
  obtain ⟨s, hs⟩ : ∃ s, g.session? number = some s := by
    cases hs : g.session? number with
    | none => simp [isListening, hs] at hlistening
    | some s => exact ⟨s, rfl⟩
  rw [isListening_eq hs] at hlistening
  rw [replies]
  rcases nextEvent_eq hs with ⟨e, rest, hwaiting, heq⟩ | ⟨hwaiting, heq⟩
  · have hsession := fun n => session?_updateSession g number n
      (f := fun s => { s with waiting := rest }) fun _ => rfl
    simp only [heq, Option.map_some, Option.toList_some]
    refine hi.quiet hsession rfl (fun _ _ => joined_mem_answered) (stream_take hs hwaiting)
      (fun _ => id) (fun n s hs => ?_) fun n s hn => ?_
    · rw [← show n ∈ g.members ↔ n ∈ (g.updateSession number _).members from Iff.rfl,
        ← hi.served n s hs]
      split <;> rfl
    · split <;> exact fun hl => ⟨hl, hn⟩
  · cases hattached : s.attached with
    | true => simpa [heq, hattached] using hi
    | false => simpa [heq, hattached] using hi.over hs hlistening hattached hwaiting

/-! ### Runs -/

/-- A group in order whose members have been told everything. -/
structure Sound (size : ℕ) (g : Group) (h : List GroupEvent) : Prop where
  orderly : g.Orderly size
  informed : g.Informed h (.holding g.generation)

/-- **A join** informs the members of its generation. -/
theorem Sound.join (hs : g.Sound size h) (hopen : g.closed = false) (bases : List ℕ) :
    (g.revoke.welcome.assign bases).Sound size (h ++ [.joined (g.joined + 1) (g.generation + 1),
      .began (g.generation + 1) (g.revoke.welcome.assign bases).members]) := by
  obtain ⟨ho, hi⟩ := hs
  have hrevoked := hi.revoke ho
  rw [← generation_revoke ho] at hrevoked
  have hbetween := (ho.revoke hopen).welcome hrevoked.fresh
  refine ⟨hbetween.assign bases, ?_⟩
  have hadmitted := hrevoked.welcome
  have hassigned := hadmitted.assign hbetween bases (g.generation + 1)
    (g.revoke.welcome.assign bases).members
  rw [generation_assign]
  rw [joined_revoke ho, generation_revoke ho, List.append_assoc] at hassigned
  exact hassigned

/-- **A leave** informs the members of its generation. -/
theorem Sound.leave (hs : g.Sound size h) (hopen : g.closed = false) (number : ℕ)
    (bases : List ℕ) : ((g.depart number).revoke.assign bases).Sound size
      (h ++ [.began (g.generation + 1) ((g.depart number).revoke.assign bases).members]) := by
  have ho := hs.orderly.depart number
  have hrevoked := (hs.informed.depart number).revoke ho
  rw [← generation_revoke ho] at hrevoked
  refine ⟨(ho.revoke hopen).assign bases, ?_⟩
  rw [generation_assign]
  exact hrevoked.assign (ho.revoke hopen) bases _ _

/-- **One move** keeps members informed. -/
theorem Sound.move {g' : Group} {m : GroupMove} (hs : g.Sound size h)
    (moved : g.move? m = some g') :
    g'.Sound size (h ++ g.events m g') := by
  have ⟨ho, hi⟩ := hs
  have heffect := effect_of_move? ho moved
  generalize g.events m g' = es at heffect
  cases heffect with
  | join hopen => exact hs.join hopen _
  | leave _ hopen => exact hs.leave hopen _ _
  | refuse => exact (List.append_nil h).symm ▸ ⟨ho, hi⟩
  | depart => exact (List.append_nil h).symm ▸ ⟨ho.depart _, hi.depart _⟩
  | drop =>
    rw [List.append_nil]
    exact ⟨⟨ho.size, ho.lease, ho.ended, ho.order, ho.le_joined, ho.unborn, ho.dissolved⟩,
      hi.drop _⟩
  | ask hlistening =>
    refine ⟨ho.ask _, ?_⟩
    rw [generation_nextEvent]
    exact hi.ask hlistening
  | commit =>
    rw [List.append_nil]
    refine ⟨ho.commit _ _ _, ?_⟩
    rw [generation_commit]
    exact hi.commit _ _ _
  | close =>
    rw [List.append_nil]
    exact ⟨ho.close, hi.close ho⟩

theorem sound_create (name : String) (t : Topic) : (create name t).Sound t.size [] where
  orderly := ⟨List.length_replicate, rfl, fun l => by simp [create], List.Pairwise.nil, nofun,
    fun _ => rfl, fun _ => rfl⟩
  informed := ⟨fun n => by simp [create, session?], nofun, fun _ _ => rfl, nofun, nofun, nofun⟩

/-- **Along a run** of a group its members are informed. -/
theorem Run.sound {name : String} {t : Topic} (run : Run (create name t) g h) :
    g.Sound t.size h := by
  induction run with
  | start => exact sound_create name t
  | move run moved ih => exact ih.move moved

end Group

end SmsRelay
