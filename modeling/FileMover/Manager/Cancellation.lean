import FileMover.Manager.Registry
import FileMover.Manager.Settled

/-!
# Cancelled for good

`cancel` reports success once its `UPDATE` has made the row FAILED. From then on the
row should stay so and the job should move nothing, whoever else is at work.

A worker that reads FAILED turns back, so a job that nobody is working on when the
`UPDATE` is performed is lost to every later worker, even if it is made runnable
again. A worker that has read the row before is another matter: its own `UPDATE` goes
by id alone. Proved here: in every history in which no worker has the job when `cancel`
writes, a successful `cancel` is final.
-/

namespace FileMover

open Framework

/-! ## A worker on a FAILED job -/

/-- While the row is FAILED no call moves a name or changes the row. The environment
may do anything. -/
def failedContract (id : Bytes) : Contract Call Fault World where
  rely _ _ := True
  rely_refl _ := trivial
  rely_trans _ _ := trivial
  assume _ _ w := w.db.state id = some .failed
  guarantee _ _ w w' := w'.fs = w.fs ∧ w'.db.state id = some .failed

/-- A worker that picks up a FAILED job only counts an attempt. -/
theorem failed_workOn {config : RetryConfig} {id : Bytes} {request : MoveRequest}
    {strategy : MoveStrategy} {nowMs : Int} {w : World} :
    (workOn config id request strategy nowMs).Safe machine (failedContract id)
      (fun _ _ => True) w :=
  settled_workOn rfl

/-! ## Staying cancelled -/

/-- The job is FAILED, and whoever works on it will find out before it moves anything. -/
structure Cancelled (s : System) (id : Bytes) : Prop where
  known : id ∈ s.manager.requests
  failed : s.world.db.state id = some .failed
  idle : ∀ n rest, s.threads n = .working id rest →
    rest.Safe machine (failedContract id) (fun _ _ => True) s.world

section Step
variable {s s' t : System} {n : Nat} {thread : Thread} {event : ManagerEvent} {id : Bytes}

/-- A section that does not hand the job to a worker. -/
theorem Cancelled.elsewhere (cancelled : Cancelled s id) (world : s'.world = s.world)
    (threads : s'.threads = s.threads) (requests : id ∈ s'.manager.requests)
    (away : ∀ rest, thread ≠ .working id rest) : Cancelled (s'.setThread n thread) id := by
  refine ⟨requests, ?_, ?_⟩
  · rw [System.setThread, world]
    exact cancelled.failed
  · intro k rest h
    by_cases hk : k = n
    · rw [hk, System.threads_setThread_self] at h
      exact absurd h (away rest)
    · rw [System.threads_setThread_of_ne hk, threads] at h
      exact (cancelled.idle k rest h).interfere trivial

/-- No call makes a cancelled job anything else than FAILED. -/
theorem Cancelled.row (cancelled : Cancelled s id) (registry : Registry s) {c : Call}
    {rest : Reply c → Thread} {fault : Option Fault} (calling : Calling (s.threads n) c rest) :
    (perform c.op fault s.world).2.db.state id = some .failed := by
  rcases registry.rowStep calling cancelled.known with
    hsame | hfailed | ⟨⟨next, hthread⟩, _⟩
  · rw [hsame]
    exact cancelled.failed
  · exact hfailed
  · have hsafe := cancelled.idle n _ hthread
    exact (hsafe s.world trivial fault cancelled.failed).1.2

theorem Cancelled.called (cancelled : Cancelled s id) (registry : Registry s) {c : Call}
    {rest : Reply c → Thread} {fault : Option Fault} (calling : Calling (s.threads n) c rest) :
    Cancelled ({ s with world := (perform c.op fault s.world).2 }.setThread n
      (rest (perform c.op fault s.world).1)) id := by
  refine ⟨cancelled.known, cancelled.row registry calling, ?_⟩
  intro k rest' h
  by_cases hk : k = n
  · subst hk
    rw [System.threads_setThread_self] at h
    generalize hthread : s.threads k = thread at calling
    cases calling with
    | working =>
        cases h
        have hsafe := cancelled.idle k _ hthread
        exact (hsafe s.world trivial fault cancelled.failed).2
    | _ => cases h
  · rw [System.threads_setThread_of_ne hk] at h
    exact (cancelled.idle k rest' h).interfere trivial

theorem QuietStep.unreported {thread thread' : Thread} (h : QuietStep thread thread')
    {wasRunnable : Bool} {result : Refusal} :
    thread' ≠ .cancelActs id wasRunnable (.pure result) := by
  cases h with
  | locked h => cases thread <;> cases h <;> nofun
  | _ => nofun

/-- A cancelled job stays cancelled, whatever happens. -/
theorem Cancelled.step (cancelled : Cancelled s id) (registry : Registry s)
    (step : SystemStep s event t) : Cancelled t id := by
  have hknown := cancelled.known
  cases step with
  | quiet actor h => exact cancelled.elsewhere rfl rfl hknown h.not_working
  | called calling => exact cancelled.called registry calling
  | paused free h =>
      obtain ⟨_, _, rfl⟩ := Manager.pause_eq h
      exact cancelled.elsewhere rfl rfl hknown (by rintro _ ⟨⟩)
  | resumed free h =>
      obtain ⟨_, _, rfl⟩ := Manager.resume_eq h
      exact cancelled.elsewhere rfl rfl hknown (by rintro _ ⟨⟩)
  | @pumped nowMs =>
      refine ⟨?_, cancelled.failed, cancelled.idle⟩
      rw [Manager.requests_pump]
      exact hknown
  | tuned => exact ⟨hknown, cancelled.failed, cancelled.idle⟩
  | @restarted workers =>
      refine ⟨hknown, cancelled.failed, fun k rest h => ?_⟩
      refine cancelled.idle k rest ?_
      simp only at h
      split at h
      · cases h
      · exact h
  | claimedSubmit free h =>
      obtain ⟨_, _, rfl⟩ := Manager.claimSubmit_eq h
      exact cancelled.elsewhere rfl rfl hknown (by rintro _ ⟨⟩)
  | claimedCancel free h =>
      obtain ⟨_, _, _, rfl⟩ := Manager.claimCancel_eq h
      exact cancelled.elsewhere rfl rfl hknown (by rintro _ ⟨⟩)
  | claimedCandidate thread h =>
      obtain ⟨_, _, rfl⟩ := Manager.claimCandidate_eq h
      exact cancelled.elsewhere rfl rfl hknown (by rintro _ ⟨⟩)
  | @published n id' request recorded storeMutex h =>
      have hknown' : id ∈ (s.manager.publish id' request
          (System.recordedOk recorded)).requests :=
        (Manager.requests_publish _ id).mpr (Or.inl hknown)
      exact cancelled.elsewhere rfl rfl hknown' (by cases recorded <;> rintro _ ⟨⟩)
  | settledCancel thread =>
      refine cancelled.elsewhere rfl rfl ?_ (by rintro _ ⟨⟩)
      simp only [Manager.settleCancel]
      split <;> exact hknown
  | @pickedUp n nowMs id' request m thread h =>
      obtain ⟨rest, requests, hrunnable, hrequests, rfl⟩ := Manager.pickUp_eq h
      have hmem : id' ∈ s.manager.requests := by
        refine registry.known id' (Or.inl ?_)
        rw [hrunnable]
        exact List.mem_cons_self
      have hsame := hrequests hmem
      subst hsame
      refine ⟨hknown, cancelled.failed, fun k rest h => ?_⟩
      by_cases hk : k = n
      · rw [hk, System.threads_setThread_self] at h
        cases h
        exact failed_workOn
      · rw [System.threads_setThread_of_ne hk] at h
        exact cancelled.idle k rest h
  | @settled n id' due thread =>
      refine cancelled.elsewhere rfl rfl ?_ (by rintro _ ⟨⟩)
      cases due <;> exact hknown

/-! ## Becoming cancelled -/

/-- The job that `cancel` makes FAILED by this event. -/
def System.cancelWrites (s : System) : ManagerEvent → Option Bytes
  | .call n none =>
      match s.threads n with
      | .cancelActs id _ (.call ⟨_, .updateJob _ _ _⟩ _) => some id
      | _ => none
  | _ => none

/-- When `cancel` writes, no worker has the job. -/
def CancelsAtRest (s : System) (event : ManagerEvent) : Prop :=
  ∀ id ∈ s.cancelWrites event, ∀ n rest, s.threads n ≠ .working id rest

theorem Succeeds.cancels {c : Call} {fault : Option Fault} {w : World}
    (h : Succeeds (CancelWrite id) c (perform c.op fault w).1)
    (row : w.db.state id ≠ none) :
    fault = none ∧ (perform c.op fault w).2.db.state id = some .failed := by
  obtain ⟨⟨before, after, hop, hfailed⟩, answer, hok⟩ := h
  obtain ⟨site, op⟩ := c
  cases hop
  obtain ⟨hasked, hstate⟩ := perform_updateJob_ok hok row
  rw [hfailed] at hstate
  exact ⟨hasked, hstate⟩

/-- Where a `cancel` that has its result was before. -/
theorem SystemStep.reported (step : SystemStep s event t) {k : Nat} {wasRunnable : Bool}
    {result : Refusal} (h : t.threads k = .cancelActs id wasRunnable (.pure result)) :
    s.threads k = .cancelActs id wasRunnable (.pure result) ∨
      ∃ fault c rest, event = .call k fault ∧
        s.threads k = .cancelActs id wasRunnable (.call c rest) ∧
        rest (perform c.op fault s.world).1 = .pure result ∧
        t.world = (perform c.op fault s.world).2 := by
  have hother : ∀ {s' : System} {n thread}, (s'.setThread n thread).threads k =
      .cancelActs id wasRunnable (.pure result) →
      thread ≠ .cancelActs id wasRunnable (.pure result) →
      s'.threads k = .cancelActs id wasRunnable (.pure result) := by
    intro s' n thread h hne
    by_cases hk : k = n
    · rw [hk, System.threads_setThread_self] at h
      exact absurd h hne
    · rw [System.threads_setThread_of_ne hk] at h
      exact h
  cases step with
  | quiet actor hquiet =>
      exact Or.inl (hother h hquiet.unreported)
  | @called n fault c rest calling =>
      by_cases hk : k = n
      · subst hk
        rw [System.threads_setThread_self] at h
        generalize hthread : s.threads k = thread at calling
        cases calling with
        | cancel =>
            injection h with hid hwas hrest
            subst hid hwas
            exact Or.inr ⟨fault, c, _, rfl, rfl, hrest, rfl⟩
        | _ => cases h
      · rw [System.threads_setThread_of_ne hk] at h
        exact Or.inl h
  | pumped | tuned => exact Or.inl h
  | restarted =>
      simp only at h
      split at h
      · cases h
      · exact Or.inl h
  | @published n id' request recorded storeMutex hpublishes =>
      exact Or.inl (hother h (by cases recorded <;> nofun))
  | _ => exact Or.inl (hother h nofun)

/-- Every `cancel` that is about to report success has made its job FAILED for good. -/
def CancelsHold (s : System) : Prop :=
  ∀ n id wasRunnable error, s.threads n = .cancelActs id wasRunnable (.pure (.ok, error)) →
    Cancelled s id

theorem CancelsHold.step (hold : CancelsHold s) (registry : Registry s)
    (atRest : CancelsAtRest s event) (step : SystemStep s event t) : CancelsHold t := by
  intro n id wasRunnable error h
  rcases step.reported h with hbefore | ⟨fault, c, more, rfl, hthread, hmore, hworld⟩
  · exact (hold n id wasRunnable error hbefore).step registry step
  · -- success is reported right after the `UPDATE`
    have hconfined := registry.confined n
    rw [hthread] at hconfined
    have hwrite := (hconfined.2 (perform c.op fault s.world).1).1 _ hmore rfl
    have hrow : s.world.db.state id ≠ none := by
      refine registry.rows id (Or.inl (registry.cancels n id ?_))
      rw [System.roles, hthread]
      rfl
    obtain ⟨rfl, hfailed⟩ := hwrite.cancels hrow
    have hidle : ∀ k rest, s.threads k ≠ .working id rest := by
      refine atRest id ?_
      obtain ⟨⟨before, after, hop, _⟩, _⟩ := hwrite
      obtain ⟨site, op⟩ := c
      cases hop
      simp [System.cancelWrites, hthread]
    refine ⟨?_, ?_, ?_⟩
    · refine (registry.step step).cancels n id ?_
      rw [System.roles, h]
      rfl
    · rw [hworld]
      exact hfailed
    · intro k rest hworking
      by_cases hk : k = n
      · rw [hk, h] at hworking
        cases hworking
      · have hother : ManagerEvent.actor (.call n none) ≠ some k := by
          rintro hn
          exact hk (Option.some.inj hn).symm
        rw [step.others hother (by rintro _ ⟨⟩)] at hworking
        exact absurd hworking (hidle k rest)

end Step

/-! ## A successful cancel is final -/

/-- The row is FAILED, and no call that is made for the job moves a name. -/
structure CancelStands (s : System) (id : Bytes) : Prop where
  failed : s.world.db.state id = some .failed
  still : ∀ n rest fault t, s.threads n = .working id rest →
    s.act (.call n fault) = some t → t.world.fs = s.world.fs

theorem Cancelled.stands {s : System} {id : Bytes} (cancelled : Cancelled s id) :
    CancelStands s id := by
  refine ⟨cancelled.failed, ?_⟩
  intro n rest fault t hthread hact
  cases rest with
  | pure due =>
      simp [System.act, hthread, Thread.next] at hact
  | call c more =>
      have hsafe := cancelled.idle n _ hthread
      have hkept := (hsafe s.world trivial fault cancelled.failed).1.1
      simp only [System.act, hthread, Thread.next] at hact
      cases hact
      exact hkept

/-- The job and the result of a `cancel` that is about to return. -/
def Thread.cancelReturns : Thread → Option (Bytes × CommandResult)
  | .cancelActs id _ (.pure (outcome, _)) => some (id, outcome)
  | _ => none

theorem Thread.cancelReturns_eq {thread : Thread} {id : Bytes} {outcome : CommandResult}
    (h : thread.cancelReturns = some (id, outcome)) :
    ∃ wasRunnable error, thread = .cancelActs id wasRunnable (.pure (outcome, error)) := by
  unfold Thread.cancelReturns at h
  split at h
  · cases h
    exact ⟨_, _, rfl⟩
  · cases h

/-- In every history of a started manager in which no worker has a job when `cancel`
makes it FAILED, a `cancel` that returns `Ok` is final: whatever happens afterwards,
the row stays FAILED, and the job moves nothing. -/
theorem successful_cancel_final (config : RetryConfig) (strategy : MoveStrategy) (w : World)
    (workers : Nat → Bool) (s s' t : System) (n : Nat) (id : Bytes)
    (reach : GuardedReach System.act CancelsAtRest
      (System.started config strategy w workers) s)
    (cancelled : (s.threads n).cancelReturns = some (id, .ok))
    (returns : s.act (.proceed n) = some s')
    (later : GuardedReach System.act (fun _ _ => True) s' t) : CancelStands t id := by
  have hstart : CancelsHold (System.started config strategy w workers) := by
    intro k id' wasRunnable' error' h
    simp only [System.started] at h
    split at h <;> cases h
  obtain ⟨hregistry, hhold⟩ : Registry s ∧ CancelsHold s :=
    reach.invariant (fun s => Registry s ∧ CancelsHold s)
      (fun atRest h inv => ⟨inv.1.step (systemStep h),
        inv.2.step inv.1 atRest (systemStep h)⟩)
      ⟨registry_started config strategy w workers, hstart⟩
  obtain ⟨wasRunnable, error, hthread⟩ := Thread.cancelReturns_eq cancelled
  have hnow : Registry s' ∧ Cancelled s' id :=
    ⟨hregistry.step (systemStep returns),
      (hhold n id wasRunnable error hthread).step hregistry (systemStep returns)⟩
  obtain ⟨_, hlater⟩ : Registry t ∧ Cancelled t id :=
    later.invariant (fun s => Registry s ∧ Cancelled s id)
      (fun _ h inv => ⟨inv.1.step (systemStep h), inv.2.step inv.1 (systemStep h)⟩) hnow
  exact hlater.stands

/-! Thread 1 of the sample manager submits a job and cancels it. -/

def sampleCancel : List ManagerEvent :=
  [.submit 1 (lit "j") sampleRequest 0, .lock 1, .call 1 none, .proceed 1, .proceed 1,
    .cancel 1 (lit "j"), .lock 1, .call 1 none, .call 1 none, .call 1 none]

/-- As long as only thread 1 acts, no worker has anything. -/
theorem sampleCancel_atRest :
    AllSteps System.act CancelsAtRest sampleCancel sampleSystem := by
  refine AllSteps.of_invariant (fun s => ∀ k, k ≠ 1 → (s.threads k).role = .none)
    (fun event => event.actor = some 1) ?_ ?_ (by decide) ?_
  · intro s t event hactor hact hothers k hk
    have hsame : t.threads k = s.threads k := by
      refine (systemStep hact).others ?_ ?_
      · rw [hactor]
        exact fun h => hk (Option.some.inj h).symm
      · rintro workers rfl
        cases hactor
    rw [hsame]
    exact hothers k hk
  · intro s event hactor hothers id hid k rest hworking
    by_cases hk : k = 1
    · subst hk
      cases event with
      | call n fault =>
          cases hactor
          cases fault <;> simp [System.cancelWrites, hworking] at hid
      | _ => cases hid
    · have hnone := hothers k hk
      rw [hworking] at hnone
      cases hnone
  · intro k _
    simp only [sampleSystem, System.started]
    split <;> rfl

/-- The job is then made runnable again, and a worker picks it up. -/
theorem successful_cancel_final_sample :
    ∃ s s' t, replay System.act sampleCancel sampleSystem = some s ∧
      s.act (.proceed 1) = some s' ∧
      replay System.act [.pause 1 (lit "j"), .resume 1 (lit "j"), .pickUp 3 0] s' = some t ∧
      (t.threads 3).role = .works (lit "j") ∧ CancelStands t (lit "j") := by
  obtain ⟨s, t, hs, hrest, ht⟩ := exists_replay (by decide : (replay System.act (sampleCancel ++
    [.proceed 1, .pause 1 (lit "j"), .resume 1 (lit "j"), .pickUp 3 0]) sampleSystem).isSome = true)
  obtain ⟨s', hs', hlater⟩ := Option.bind_eq_some_iff.mp hrest
  have hreturns : ((replay System.act sampleCancel sampleSystem).bind fun s =>
      (s.threads 1).cancelReturns) = some (lit "j", .ok) := by
    decide
  have hworks : ((replay System.act (sampleCancel ++
      [.proceed 1, .pause 1 (lit "j"), .resume 1 (lit "j"), .pickUp 3 0]) sampleSystem).map
        fun s => (s.threads 3).role) = some (.works (lit "j")) := by
    decide
  rw [hs] at hreturns
  rw [ht] at hworks
  refine ⟨s, s', t, hs, hs', hlater, Option.some.inj hworks, ?_⟩
  exact successful_cancel_final _ _ _ _ s s' t 1 (lit "j") (.of_replay sampleCancel_atRest hs)
    hreturns hs' (.of_replay (AllSteps.of_free (fun _ _ => trivial) _ _) hlater)

/-- Thread 2 pauses and resumes the job while thread 1 cancels it, and a worker reads
the row before `cancel` writes: it then overwrites FAILED, and moves the file. -/
theorem cancelled_job_moved :
    ¬ ∀ config strategy w workers s s' t n id,
      GuardedReach System.act (fun _ _ => True) (System.started config strategy w workers) s →
      (s.threads n).cancelReturns = some (id, .ok) → s.act (.proceed n) = some s' →
      GuardedReach System.act (fun _ _ => True) s' t → CancelStands t id := by
  intro h
  let labels : List ManagerEvent :=
    [.submit 1 (lit "j") sampleRequest 0, .lock 1, .call 1 none, .proceed 1, .proceed 1,
      .cancel 1 (lit "j"), .lock 1, .pause 2 (lit "j"), .resume 2 (lit "j"), .pickUp 3 0,
      .call 3 none, .call 3 none, .call 3 none, .call 3 none, .call 3 none, .call 3 none,
      .call 3 none, .call 3 none, .call 1 none, .call 1 none, .call 1 none]
  obtain ⟨s, t, hs, hrest, ht⟩ := exists_replay (by decide : (replay System.act (labels ++
    [.proceed 1, .call 3 none, .call 3 none]) sampleSystem).isSome = true)
  obtain ⟨s', hs', hlater⟩ := Option.bind_eq_some_iff.mp hrest
  have hreturns : ((replay System.act labels sampleSystem).bind fun s =>
      (s.threads 1).cancelReturns) = some (lit "j", .ok) := by
    decide
  have hmoved : ((replay System.act (labels ++ [.proceed 1, .call 3 none, .call 3 none])
      sampleSystem).map fun s => (s.world.db.state (lit "j"), s.world.fs.entry sampleSource.1)) =
        some (some .renaming, none) := by
    decide
  rw [hs] at hreturns
  rw [ht] at hmoved
  have hstands := h _ _ _ _ s s' t 1 (lit "j")
    (.of_replay (AllSteps.of_free (fun _ _ => trivial) labels _) hs) hreturns hs'
    (.of_replay (AllSteps.of_free (fun _ _ => trivial) _ _) hlater)
  have hrow : t.world.db.state (lit "j") = some .renaming :=
    congrArg Prod.fst (Option.some.inj hmoved)
  rw [hstands.failed] at hrow
  exact absurd hrow (by decide)

end FileMover
