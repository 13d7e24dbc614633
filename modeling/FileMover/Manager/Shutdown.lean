import FileMover.Manager.Workers

/-!
# What a shutdown leaves behind

`shutdown` stops the intake, lets the workers empty `runnable`, and joins them: a worker
leaves only when it finds `runnable` empty. But `submit` and `retry` look at `running` in
their first section and put their job into `runnable` in their last, and so does a `cancel`
that is refused; in between the manager may be stopped and all its workers gone.

Proved here, of every history in which such a section finds a worker that has not left:
once `shutdown` has returned, and until the next `start`, nothing is runnable and nothing
is active.
-/

namespace FileMover

open Framework

/-! ## Workers that are left -/

/-- A worker that has not left. -/
def Thread.onDuty : Thread → Bool
  | .waiting => true
  | .working _ _ => true
  | _ => false

def System.Staffed (s : System) : Prop := ∃ n, (s.threads n).onDuty = true

/-- The job that this event puts into `runnable` without asking whether the manager is
running: that of `submit` and `retry`, and the one that a refused `cancel` puts back. -/
def System.queues (s : System) : ManagerEvent → Option Bytes
  | .proceed n =>
      match s.threads n with
      | .submitPublishes id _ (.ok _) => some id
      | .retryRecords id _ (.pure (.ok _)) => some id
      | .cancelActs id true (.pure (outcome, _)) => if outcome = .ok then none else some id
      | _ => none
  | _ => none

/-- A job is put into `runnable` only while a worker is left to take it. -/
def Attended (s : System) (event : ManagerEvent) : Prop :=
  (s.queues event).isSome = true → s.Staffed

/-- `start` has at least one worker. -/
def Spawns (s : System) : ManagerEvent → Prop
  | .start workers => ∃ n, workers n = true ∧ (s.threads n).isFree = true
  | _ => True

/-- `shutdown` is about to return: the manager is stopped, the workers are joined, and
the store mutex is free, under which the store is closed. -/
structure Returning (s : System) : Prop where
  stopped : s.manager.running = false
  joined : ∀ n, (s.threads n).onDuty = false
  free : s.storeMutex = none

/-! ## Steps -/

section Step
variable {s t : System} {event : ManagerEvent}

theorem Thread.not_free_of_onDuty {thread : Thread} (h : thread.onDuty = true) :
    thread.isFree = false := by
  cases thread with
  | waiting | working => rfl
  | _ => cases h

/-- A worker leaves only if there is nothing to do and the manager is stopping. -/
theorem System.worker_leaves (h : s.act event = some t) {k : Nat}
    (worker : (s.threads k).onDuty = true) :
    (t.threads k).onDuty = true ∨
      (event = .exit k ∧ s.manager.runnable = [] ∧ s.manager.stopping = true) := by
  have hfree : (s.threads k).isFree = false := Thread.not_free_of_onDuty worker
  by_cases hother : event.actor = some k
  · generalize hthread : s.threads k = thread at worker hfree
    cases event with
    | submit n id request nowMs | pause n id | resume n id | cancel n id | retry n id nowMs =>
        cases hother
        simp [System.act, hthread, hfree] at h
    | pickUp n nowMs =>
        cases hother
        simp only [System.act, hthread] at h
        split at h
        · cases h
          refine Or.inl ?_
          rw [System.threads_setThread_self]
          rfl
        · cases h
    | exit n =>
        cases hother
        simp only [System.act, hthread] at h
        split at h
        · split at h
          · rename_i hdone
            exact Or.inr ⟨rfl, hdone⟩
          · cases h
        · cases h
    | lock n =>
        cases hother
        simp only [System.act, hthread] at h
        cases thread with
        | waiting | working => cases h
        | _ => cases worker
    | call n fault =>
        cases hother
        simp only [System.act, hthread] at h
        cases thread with
        | waiting => cases h
        | working id rest =>
            cases rest with
            | pure due => cases h
            | call c next =>
                cases h
                refine Or.inl ?_
                rw [System.threads_setThread_self]
                rfl
        | _ => cases worker
    | proceed n =>
        cases hother
        simp only [System.act, System.proceed, hthread] at h
        cases thread with
        | waiting => cases h
        | working id rest =>
            cases rest with
            | pure due =>
                cases h
                refine Or.inl ?_
                rw [System.threads_setThread_self]
                rfl
            | call c next => cases h
        | _ => cases worker
    | pump | setStrategy | shutdown | start => cases hother
  · refine Or.inl ?_
    by_cases hstart : ∃ workers, event = .start workers
    · obtain ⟨workers, rfl⟩ := hstart
      simp only [System.act] at h
      split at h
      · cases h
      · cases h
        simp only [hfree, Bool.and_false, Bool.false_eq_true, if_false]
        exact worker
    · rw [(systemStep h).others hother fun workers heq => hstart ⟨workers, heq⟩]
      exact worker

/-- What makes `runnable` non-empty. -/
theorem SystemStep.runnable (step : SystemStep s event t) (h : t.manager.runnable ≠ []) :
    s.manager.runnable ≠ [] ∨ s.manager.running = true ∨ (s.queues event).isSome = true := by
  cases step with
  | paused free hpause =>
      obtain ⟨_, _, rfl⟩ := Manager.pause_eq hpause
      refine Or.inl fun hempty => h ?_
      simp only [System.setThread, hempty, List.erase_nil]
  | resumed free hresume =>
      refine Or.inr (Or.inl ?_)
      unfold Manager.resume at hresume
      split at hresume
      · cases hresume
      · rename_i hrunning
        exact Bool.eq_true_of_not_eq_false hrunning
  | pumped =>
      simp only [Manager.pump] at h
      split at h
      · exact Or.inl h
      · rename_i hrunning
        exact Or.inr (Or.inl (Bool.eq_true_of_not_eq_false hrunning))
  | claimedSubmit free hclaim =>
      obtain ⟨_, _, rfl⟩ := Manager.claimSubmit_eq hclaim
      exact Or.inl h
  | claimedCancel free hclaim =>
      obtain ⟨_, _, _, rfl⟩ := Manager.claimCancel_eq hclaim
      refine Or.inl fun hempty => h ?_
      simp only [System.setThread, hempty, List.erase_nil]
  | claimedCandidate thread hclaim =>
      obtain ⟨_, _, rfl⟩ := Manager.claimCandidate_eq hclaim
      exact Or.inl h
  | @published n id request recorded storeMutex hpublishes =>
      cases recorded with
      | error message => exact Or.inl h
      | ok _ =>
          refine Or.inr (Or.inr ?_)
          simp only [System.queues]
          unfold Thread.publishes at hpublishes
          split at hpublishes
          · rename_i hthread
            cases hpublishes
            rw [hthread]
            rfl
          · rename_i hthread
            cases hpublishes
            rw [hthread]
            rfl
          · cases hpublishes
  | @settledCancel n id wasRunnable outcome error thread =>
      simp only [System.setThread, Manager.settleCancel] at h
      split at h
      · rename_i hback
        refine Or.inr (Or.inr ?_)
        simp only [System.queues, thread, hback.2, if_neg hback.1]
        rfl
      · exact Or.inl h
  | pickedUp thread hpick =>
      obtain ⟨_, _, hrunnable, _, rfl⟩ := Manager.pickUp_eq hpick
      refine Or.inl ?_
      rw [hrunnable]
      rintro ⟨⟩
  | @settled n id due thread =>
      refine Or.inl ?_
      cases due with
      | none => exact h
      | some dueMs => exact h
  | _ => exact Or.inl h

/-- Only a worker that picks a job up makes it active. -/
theorem SystemStep.activated (step : SystemStep s event t) {id : Bytes}
    (h : id ∈ t.manager.active) :
    id ∈ s.manager.active ∨ ∃ n rest, t.threads n = .working id rest := by
  cases step with
  | paused free hpause =>
      obtain ⟨_, _, rfl⟩ := Manager.pause_eq hpause
      exact Or.inl h
  | resumed free hresume =>
      obtain ⟨_, _, rfl⟩ := Manager.resume_eq hresume
      exact Or.inl h
  | pumped =>
      simp only [Manager.pump] at h
      split at h
      · exact Or.inl h
      · exact Or.inl h
  | claimedSubmit free hclaim =>
      obtain ⟨_, _, rfl⟩ := Manager.claimSubmit_eq hclaim
      exact Or.inl h
  | claimedCancel free hclaim =>
      obtain ⟨_, _, _, rfl⟩ := Manager.claimCancel_eq hclaim
      exact Or.inl h
  | claimedCandidate thread hclaim =>
      obtain ⟨_, _, rfl⟩ := Manager.claimCandidate_eq hclaim
      exact Or.inl h
  | @published n id' request recorded storeMutex hpublishes =>
      cases recorded with
      | error message => exact Or.inl h
      | ok _ => exact Or.inl h
  | settledCancel thread =>
      simp only [System.setThread, Manager.settleCancel] at h
      split at h
      · exact Or.inl h
      · exact Or.inl h
  | @pickedUp n nowMs id' request m thread hpick =>
      obtain ⟨_, _, _, _, rfl⟩ := Manager.pickUp_eq hpick
      rcases Finset.mem_insert.mp h with rfl | hbefore
      · exact Or.inr ⟨n, _, System.threads_setThread_self⟩
      · exact Or.inl hbefore
  | @settled n id' due thread =>
      refine Or.inl ?_
      cases due with
      | none => exact Finset.mem_of_mem_erase h
      | some dueMs => exact Finset.mem_of_mem_erase h
  | _ => exact Or.inl h

/-- Only `shutdown` and `start` change whether the manager runs or stops. -/
theorem System.act_running (h : s.act event = some t) :
    (t.manager.running = s.manager.running ∧ t.manager.stopping = s.manager.stopping) ∨
      (event = .shutdown ∧ t.manager.running = false) ∨
      ∃ workers, event = .start workers ∧ s.manager.running = false ∧
        t.manager.stopping = false := by
  by_cases hnone : event.actor = none
  · cases event with
    | pump nowMs =>
        cases h
        refine Or.inl ?_
        simp only [Manager.pump]
        split
        · exact ⟨rfl, rfl⟩
        · exact ⟨rfl, rfl⟩
    | setStrategy strategy =>
        cases h
        exact Or.inl ⟨rfl, rfl⟩
    | shutdown =>
        simp only [System.act] at h
        split at h
        · cases h
          exact Or.inr (Or.inl ⟨rfl, rfl⟩)
        · cases h
    | start workers =>
        simp only [System.act] at h
        split at h
        · cases h
        · rename_i hstopped
          cases h
          exact Or.inr (Or.inr ⟨workers, rfl, Bool.eq_false_of_not_eq_true hstopped, rfl⟩)
    | _ => cases hnone
  · refine Or.inl ?_
    have hstep := systemStep h
    cases hstep with
    | paused free hpause =>
        obtain ⟨_, _, rfl⟩ := Manager.pause_eq hpause
        exact ⟨rfl, rfl⟩
    | resumed free hresume =>
        obtain ⟨_, _, rfl⟩ := Manager.resume_eq hresume
        exact ⟨rfl, rfl⟩
    | pumped | restarted => exact absurd rfl hnone
    | tuned actor => exact absurd actor hnone
    | claimedSubmit free hclaim =>
        obtain ⟨_, _, rfl⟩ := Manager.claimSubmit_eq hclaim
        exact ⟨rfl, rfl⟩
    | claimedCancel free hclaim =>
        obtain ⟨_, _, _, rfl⟩ := Manager.claimCancel_eq hclaim
        exact ⟨rfl, rfl⟩
    | claimedCandidate thread hclaim =>
        obtain ⟨_, _, rfl⟩ := Manager.claimCandidate_eq hclaim
        exact ⟨rfl, rfl⟩
    | @published n id' request recorded storeMutex hpublishes =>
        cases recorded with
        | error message => exact ⟨rfl, rfl⟩
        | ok _ => exact ⟨rfl, rfl⟩
    | settledCancel thread =>
        simp only [System.setThread, Manager.settleCancel]
        split
        · exact ⟨rfl, rfl⟩
        · exact ⟨rfl, rfl⟩
    | pickedUp thread hpick =>
        obtain ⟨_, _, _, _, rfl⟩ := Manager.pickUp_eq hpick
        exact ⟨rfl, rfl⟩
    | @settled n id' due thread =>
        cases due with
        | none => exact ⟨rfl, rfl⟩
        | some dueMs => exact ⟨rfl, rfl⟩
    | _ => exact ⟨rfl, rfl⟩

/-! ## The invariant -/

/-- While the manager runs, and while anything is runnable or active, a worker is left. -/
structure Staffing (s : System) : Prop where
  starts : s.manager.running = true → s.manager.stopping = false
  runs : s.manager.running = true → s.Staffed
  queued : s.manager.runnable ≠ [] → s.Staffed
  active : ∀ id ∈ s.manager.active, ∃ n rest, s.threads n = .working id rest

theorem Staffing.step (inv : Staffing s) (attended : Attended s event) (spawns : Spawns s event)
    (h : s.act event = some t) : Staffing t := by
  have hstep := systemStep h
  -- the last worker does not leave while there is work, nor before the manager stops
  have hleft : s.Staffed → s.manager.runnable ≠ [] ∨ s.manager.stopping = false ∨
      (∀ n, event ≠ .exit n) → t.Staffed := by
    rintro ⟨k, hk⟩ hwork
    rcases System.worker_leaves h hk with hstays | ⟨hexit, hempty, hstopping⟩
    · exact ⟨k, hstays⟩
    · rcases hwork with hne | hgoing | hother
      · exact absurd hempty hne
      · rw [hstopping] at hgoing
        cases hgoing
      · exact absurd hexit (hother k)
  have hstarted : ∀ workers, event = .start workers → t.Staffed := by
    rintro workers rfl
    obtain ⟨n, hworker, hfree⟩ := spawns
    simp only [System.act] at h
    split at h
    · cases h
    · cases h
      refine ⟨n, ?_⟩
      simp only [hworker, hfree, Bool.and_self, if_true]
      rfl
  constructor
  · intro hrunning
    rcases System.act_running h with ⟨hsame, hflag⟩ | ⟨_, hstopped⟩ | ⟨_, _, _, hflag⟩
    · rw [hflag]
      exact inv.starts (hsame.symm.trans hrunning)
    · rw [hstopped] at hrunning
      cases hrunning
    · exact hflag
  · intro hrunning
    rcases System.act_running h with ⟨hsame, _⟩ | ⟨_, hstopped⟩ | ⟨workers, hstart, _⟩
    · have hbefore : s.manager.running = true := hsame.symm.trans hrunning
      exact hleft (inv.runs hbefore) (Or.inr (Or.inl (inv.starts hbefore)))
    · rw [hstopped] at hrunning
      cases hrunning
    · exact hstarted workers hstart
  · intro hrunnable
    rcases hstep.runnable hrunnable with hbefore | hrunning | hqueues
    · exact hleft (inv.queued hbefore) (Or.inl hbefore)
    · exact hleft (inv.runs hrunning) (Or.inr (Or.inl (inv.starts hrunning)))
    · refine hleft (attended hqueues) (Or.inr (Or.inr ?_))
      rintro n rfl
      cases hqueues
  · intro id hid
    rcases hstep.activated hid with hbefore | hnow
    · obtain ⟨n, rest, hworking⟩ := inv.active id hbefore
      rcases hstep.keepsWorking hworking with ⟨rest', hstill⟩ | ⟨due, -, -, hmanager, -⟩
      · exact ⟨n, rest', hstill⟩
      · rw [hmanager] at hid
        cases due with
        | none => exact absurd hid (Finset.notMem_erase id _)
        | some dueMs => exact absurd hid (Finset.notMem_erase id _)
    · exact hnow

end Step

theorem staffing_started (config : RetryConfig) (strategy : MoveStrategy) (w : World)
    {workers : Nat → Bool} (some_worker : ∃ n, workers n = true) :
    Staffing (System.started config strategy w workers) := by
  have hstaffed : (System.started config strategy w workers).Staffed := by
    obtain ⟨n, hn⟩ := some_worker
    refine ⟨n, ?_⟩
    simp only [System.started, hn, if_true]
    rfl
  exact ⟨fun _ => rfl, fun _ => hstaffed, fun _ => hstaffed,
    fun id hid => absurd hid (Finset.notMem_empty id)⟩

/-! ## Until the next start -/

section Later
variable {s t : System} {event : ManagerEvent}

theorem QuietStep.not_onDuty {thread thread' : Thread} (h : QuietStep thread thread') :
    thread'.onDuty = false := by
  cases h with
  | locked hlocked =>
      cases thread <;> cases hlocked <;> rfl
  | _ => rfl

theorem Calling.onDuty {thread : Thread} {c : Call} {rest : Reply c → Thread}
    (h : Calling thread c rest) (reply : Reply c) : (rest reply).onDuty = thread.onDuty := by
  cases h <;> rfl

/-- Only `start` makes workers. -/
theorem SystemStep.workers_back (step : SystemStep s event t) (later : NoStart event) {n : Nat}
    (h : (t.threads n).onDuty = true) : (s.threads n).onDuty = true := by
  have hback : ∀ {s' : System} {k : Nat} {thread : Thread}, s'.threads = s.threads →
      (thread.onDuty = true → (s.threads k).onDuty = true) →
      ((s'.setThread k thread).threads n).onDuty = true → (s.threads n).onDuty = true := by
    intro s' k thread hthreads hk h
    by_cases hn : n = k
    · subst hn
      rw [System.threads_setThread_self] at h
      exact hk h
    · rw [System.threads_setThread_of_ne hn, hthreads] at h
      exact h
  cases step with
  | quiet actor hquiet =>
      refine hback rfl (fun hworker => ?_) h
      rw [hquiet.not_onDuty] at hworker
      cases hworker
  | called calling =>
      refine hback rfl (fun hworker => ?_) h
      rw [calling.onDuty] at hworker
      exact hworker
  | pumped | tuned => exact h
  | @restarted workers => exact absurd rfl (later workers)
  | @published k id request recorded storeMutex hpublishes =>
      refine hback rfl (fun hworker => ?_) h
      cases recorded <;> cases hworker
  | pickedUp thread hpick =>
      refine hback rfl (fun _ => ?_) h
      rw [thread]
      rfl
  | settled thread =>
      refine hback rfl (fun _ => ?_) h
      rw [thread]
      rfl
  | _ => exact hback rfl (fun hworker => Bool.noConfusion hworker) h

/-- Stopped, with no worker left. -/
def Closed (s : System) : Prop :=
  s.manager.running = false ∧ ∀ n, (s.threads n).onDuty = false

theorem Closed.step (closed : Closed s) (later : NoStart event) (h : s.act event = some t) :
    Closed t := by
  constructor
  · rcases System.act_running h with ⟨hsame, _⟩ | ⟨_, hstopped⟩ | ⟨workers, hstart, _⟩
    · exact hsame.trans closed.1
    · exact hstopped
    · exact absurd hstart (later workers)
  · intro n
    by_contra hworker
    have hbefore := (systemStep h).workers_back later (Bool.eq_true_of_not_eq_false hworker)
    rw [closed.2 n] at hbefore
    cases hbefore

/-- Nothing is runnable and nothing is active. -/
def Drained (s : System) : Prop := s.manager.runnable = [] ∧ s.manager.active = ∅

theorem Staffing.drained (inv : Staffing s) (closed : Closed s) : Drained s := by
  have hnobody : ¬ s.Staffed := by
    rintro ⟨n, hn⟩
    rw [closed.2 n] at hn
    cases hn
  constructor
  · by_contra hrunnable
    exact hnobody (inv.queued hrunnable)
  · refine Finset.eq_empty_of_forall_notMem fun id hid => hnobody ?_
    obtain ⟨n, rest, hworking⟩ := inv.active id hid
    refine ⟨n, ?_⟩
    rw [hworking]
    rfl

end Later

/-- In every history of a started manager in which a `submit`, a `retry` or a refused
`cancel` puts its job into `runnable` only while a worker is left: once `shutdown` has
returned, nothing is runnable and nothing active until the next `start`. -/
theorem shutdown_drains (config : RetryConfig) (strategy : MoveStrategy) (w : World)
    (workers : Nat → Bool) (some_worker : ∃ n, workers n = true) (s t : System)
    (reach : GuardedReach System.act (fun s event => Spawns s event ∧ Attended s event)
      (System.started config strategy w workers) s)
    (returning : Returning s)
    (later : GuardedReach System.act (fun s event => NoStart event ∧ Attended s event) s t) :
    Drained t := by
  have hstaffing : Staffing s := by
    refine reach.invariant Staffing ?_ (staffing_started config strategy w some_worker)
    exact fun ⟨spawns, attended⟩ h inv => inv.step attended spawns h
  have hlater : Staffing t ∧ Closed t := by
    refine later.invariant (fun s => Staffing s ∧ Closed s) ?_
      ⟨hstaffing, returning.stopped, returning.joined⟩
    intro s t event guard h inv
    refine ⟨inv.1.step guard.2 ?_ h, inv.2.step guard.1 h⟩
    cases event with
    | start workers => exact absurd rfl (guard.1 workers)
    | _ => trivial
  exact hlater.1.drained hlater.2

/-! ## Two histories -/

/-- The sample manager, when its workers have left and nobody has the store mutex. -/
theorem returning_sample {labels : List ManagerEvent} {s : System}
    (h : replay System.act labels sampleSystem = some s)
    (apart : ∀ event ∈ labels, NoStart event ∧ ∀ n ∈ event.actor, n ∈ [1, 3, 4])
    (check : s.manager.running = false ∧ s.storeMutex = none ∧ (s.threads 1).onDuty = false ∧
      (s.threads 3).onDuty = false ∧ (s.threads 4).onDuty = false) : Returning s := by
  obtain ⟨hstopped, hfree, hone, hthree, hfour⟩ := check
  refine ⟨hstopped, fun n => ?_, hfree⟩
  by_cases hn : n ∈ [1, 3, 4]
  · simp only [List.mem_cons, List.not_mem_nil, or_false] at hn
    rcases hn with rfl | rfl | rfl
    · exact hone
    · exact hthree
    · exact hfour
  · rw [replay_apart h apart hn]
    have hidle : (decide (n = 3) || decide (n = 4)) = false := by
      simp only [List.mem_cons, List.not_mem_nil, or_false, not_or] at hn
      simp [hn.2.1, hn.2.2]
    simp only [sampleSystem, System.started, hidle, Bool.false_eq_true, if_false]
    rfl

/-- A job is submitted and cancelled; then the manager is shut down, and what comes after
is refused. -/
theorem shutdown_drains_sample :
    ∃ s t, replay System.act
        (sampleRevived.take 11 ++ [.shutdown, .exit 3, .exit 4]) sampleSystem = some s ∧
      Returning s ∧ replay System.act [.resume 1 (lit "j"), .pump 0] s = some t ∧ Drained t := by
  let labels : List ManagerEvent := sampleRevived.take 11 ++ [.shutdown, .exit 3, .exit 4]
  let more : List ManagerEvent := [.resume 1 (lit "j"), .pump 0]
  have hworker : ∀ {s : System} {event : ManagerEvent},
      ((s.queues event).isSome = true → (s.threads 3).onDuty = true) → Attended s event :=
    fun h hqueues => ⟨3, h hqueues⟩
  obtain ⟨s, t, hs, ht, _⟩ := exists_replay
    (by decide : (replay System.act (labels ++ more) sampleSystem).isSome = true)
  have hfirst : AllSteps System.act (fun s event => NoStart event ∧
      ((s.queues event).isSome = true → (s.threads 3).onDuty = true)) labels sampleSystem := by
    decide
  have hlater : ∀ s, AllSteps System.act (fun s event => NoStart event ∧ Attended s event)
      more s := fun s => ⟨⟨nofun, nofun⟩, fun _ _ => ⟨⟨nofun, nofun⟩, fun _ _ => trivial⟩⟩
  obtain ⟨_, hs', hcheck⟩ := (Option.any_eq_true _ _).mp
    (by decide : (replay System.act labels sampleSystem).any (fun s =>
      decide (s.manager.running = false ∧ s.storeMutex = none ∧ (s.threads 1).onDuty = false ∧
        (s.threads 3).onDuty = false ∧ (s.threads 4).onDuty = false)) = true)
  cases hs.symm.trans hs'
  have hreturning : Returning s :=
    returning_sample hs (by decide) (of_decide_eq_true hcheck)
  refine ⟨s, t, hs, hreturning, ht, ?_⟩
  refine shutdown_drains _ _ _ _ ⟨3, rfl⟩ s t (.of_replay (hfirst.mono ?_) hs) hreturning
    (.of_replay (hlater s) ht)
  rintro s event ⟨hstart, hqueues⟩
  refine ⟨?_, hworker hqueues⟩
  cases event with
  | start workers => exact absurd rfl (hstart workers)
  | _ => trivial

/-- A `submit` has its intent on record when the manager is shut down, and publishes its
job after `shutdown` has returned. It reports success. -/
theorem shutdown_leaves_job :
    ¬ ∀ config strategy w workers, (∃ n, workers n = true) → ∀ s t,
      GuardedReach System.act Spawns (System.started config strategy w workers) s →
      Returning s → GuardedReach System.act (fun _ event => NoStart event) s t → Drained t := by
  intro h
  let labels : List ManagerEvent :=
    [.submit 1 (lit "j") sampleRequest 0, .lock 1, .call 1 none, .proceed 1, .shutdown,
      .exit 3, .exit 4]
  obtain ⟨s, t, hs, ht, hst⟩ := exists_replay
    (by decide : (replay System.act (labels ++ [.proceed 1]) sampleSystem).isSome = true)
  have hfirst : AllSteps System.act (fun _ event => NoStart event) labels sampleSystem := by
    decide
  obtain ⟨_, hs', hcheck⟩ := (Option.any_eq_true _ _).mp
    (by decide : (replay System.act labels sampleSystem).any (fun s =>
      decide (s.manager.running = false ∧ s.storeMutex = none ∧ (s.threads 1).onDuty = false ∧
        (s.threads 3).onDuty = false ∧ (s.threads 4).onDuty = false)) = true)
  cases hs.symm.trans hs'
  have hlater : ∀ s, AllSteps System.act (fun _ event => NoStart event) [.proceed 1] s :=
    fun s => ⟨nofun, fun _ _ => trivial⟩
  have hdrained : Drained t := by
    refine h _ _ _ _ ⟨3, rfl⟩ s t (.of_replay (hfirst.mono ?_) hs)
      (returning_sample hs (by decide) (of_decide_eq_true hcheck))
      (.of_replay (hlater s) ht)
    intro s event hstart
    cases event with
    | start workers => exact absurd rfl (hstart workers)
    | _ => trivial
  have hrunnable : (replay System.act (labels ++ [.proceed 1]) sampleSystem).any (fun t =>
      decide (t.manager.runnable = [lit "j"])) = true := by
    decide
  rw [hst] at hrunnable
  have hjob : t.manager.runnable = [lit "j"] := of_decide_eq_true hrunnable
  rw [hdrained.1] at hjob
  cases hjob

end FileMover
