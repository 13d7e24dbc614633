import FileMover.Manager.Registry

/-!
# After a restart

A process ends, by a crash or by a shutdown, and another one makes a `JobManager` on
the same store. What the first one leaves is its table and the files, in whatever
state a history can bring them to. `start` opens the store and makes the workers; it
reads no row. So the new manager knows no job, and a row that is neither DONE nor
FAILED is accounted for exactly if the first process had flagged it.

A row that is not accounted for stays so as long as the new manager lives: nobody
writes its state, no worker gets it, a job of the same name cannot be submitted, and
every lifecycle command says that there is no such job.
-/

namespace FileMover

open Framework

/-- `JobManager::JobManager`: nothing is running yet. -/
def System.constructed (config : RetryConfig) (strategy : MoveStrategy) (w : World) :
    System where
  manager :=
    { config := config
      strategy := strategy
      runnable := []
      requests := ∅
      waiting := ∅
      paused := ∅
      active := ∅
      pending := ∅
      running := false
      stopping := false }
  world := w
  threads _ := .idle
  storeMutex := none

/-- The manager has this job, and some day a worker or a command will come to it. -/
def Manager.TakenUp (m : Manager) (id : Bytes) : Prop :=
  id ∈ m.requests ∧ (id ∈ m.runnable ∨ id ∈ m.waiting ∨ id ∈ m.paused ∨ id ∈ m.active)

def Row.unfinished (r : Row) : Prop := r.job.state ≠ .done ∧ r.job.state ≠ .failed

/-- No unfinished row is left that is neither owned nor flagged. -/
def RowsAccounted (s : System) : Prop :=
  ∀ id r, s.world.db.row id = some r → r.unfinished →
    s.manager.TakenUp id ∨ r.needsAttention = true

theorem constructed_start {config : RetryConfig} {strategy : MoveStrategy} {w : World}
    {workers : Nat → Bool} {t : System}
    (h : (System.constructed config strategy w).act (.start workers) = some t) :
    t = System.started config strategy w workers := by
  cases h
  unfold System.started System.constructed
  simp only [System.mk.injEq, true_and, and_true]
  funext n
  simp only [Thread.isFree, Bool.and_true]

/-! ## Rows that nobody has -/

/-- No job that the manager knows, or will know in a moment, is stored in this row. -/
def Foreign (s : System) (id : Bytes) : Prop :=
  ∀ id', Registered s id' → cstr id' ≠ cstr id

section Step
variable {s s' t : System} {event : ManagerEvent} {id : Bytes}

theorem registered_setThread {n : Nat} {thread : Thread}
    (registered : Registered (s'.setThread n thread) id) (same : s'.threads = s.threads)
    (known : id ∈ s'.manager.requests → Registered s id)
    (recorded : thread.recorded = some id → Registered s id ∨ s.world.db.state id = none) :
    Registered s id ∨ s.world.db.state id = none := by
  rcases registered with hknown | ⟨k, hk⟩
  · exact .inl (known hknown)
  · by_cases hkn : k = n
    · subst hkn
      rw [System.threads_setThread_self] at hk
      exact recorded hk
    · rw [System.threads_setThread_of_ne hkn, same] at hk
      exact .inl (.inr ⟨k, hk⟩)

/-- A job that the manager gets to know has no row before. -/
theorem SystemStep.registered (step : SystemStep s event t) (inv : Registry s)
    (h : Registered t id) : Registered s id ∨ s.world.db.state id = none := by
  cases step with
  | @quiet event n thread storeMutex actor quiet =>
      exact registered_setThread h rfl .inl fun hrecorded =>
        .inl (.inr ⟨n, quiet.recorded_eq hrecorded⟩)
  | @called n fault c rest calling =>
      refine registered_setThread h rfl .inl fun hrecorded => .inr ?_
      exact (calling.inserted (inv.confined n) hrecorded).records.1
  | @paused n id' m free hpause =>
      obtain ⟨-, -, rfl⟩ := Manager.pause_eq hpause
      exact registered_setThread h rfl .inl (by rintro ⟨⟩)
  | @resumed n id' m free hresume =>
      obtain ⟨-, -, rfl⟩ := Manager.resume_eq hresume
      exact registered_setThread h rfl .inl (by rintro ⟨⟩)
  | @pumped nowMs =>
      rcases h with hknown | hrecorded
      · rw [Manager.requests_pump] at hknown
        exact .inl (.inl hknown)
      · exact .inl (.inr hrecorded)
  | tuned => exact .inl h
  | @restarted workers =>
      rcases h with hknown | ⟨n, hrecorded⟩
      · exact .inl (.inl hknown)
      · rcases restarted_thread s workers n with hsame | ⟨_, hwaiting⟩
        · simp only [hsame] at hrecorded
          exact .inl (.inr ⟨n, hrecorded⟩)
        · simp only [hwaiting] at hrecorded
          cases hrecorded
  | @claimedSubmit n id' request nowMs m free hclaim =>
      obtain ⟨-, -, rfl⟩ := Manager.claimSubmit_eq hclaim
      exact registered_setThread h rfl .inl (by rintro ⟨⟩)
  | @claimedCancel n id' wasRunnable m free hclaim =>
      obtain ⟨-, -, -, rfl⟩ := Manager.claimCancel_eq hclaim
      exact registered_setThread h rfl .inl (by rintro ⟨⟩)
  | @claimedCandidate n id' move nowMs k m thread hclaim =>
      obtain ⟨-, -, rfl⟩ := Manager.claimCandidate_eq hclaim
      exact registered_setThread h rfl .inl (by rintro ⟨⟩)
  | @published n id' request recorded storeMutex hpublishes =>
      refine registered_setThread h rfl (fun hknown => ?_) fun hrecorded => ?_
      · rcases (Manager.requests_publish _ _).mp hknown with hbefore | ⟨hok, rfl⟩
        · exact .inl hbefore
        · exact .inr ⟨n, Thread.recorded_of_publishes hpublishes hok⟩
      · cases recorded <;> cases hrecorded
  | @settledCancel n id' wasRunnable outcome error thread =>
      refine registered_setThread h rfl (fun hknown => ?_) (by rintro ⟨⟩)
      simp only [Manager.settleCancel] at hknown
      split at hknown <;> exact .inl hknown
  | @pickedUp n nowMs id' request m thread hpick =>
      obtain ⟨rest, requests, hrunnable, hrequests, rfl⟩ := Manager.pickUp_eq hpick
      refine registered_setThread h rfl (fun hknown => ?_) (by rintro ⟨⟩)
      have hthere : id' ∈ s.manager.requests := by
        refine inv.known id' (.inl ?_)
        rw [hrunnable]
        exact List.mem_cons_self
      rw [hrequests hthere] at hknown
      exact .inl hknown
  | @settled n id' due thread =>
      refine registered_setThread h rfl (fun hknown => ?_) (by rintro ⟨⟩)
      cases due <;> exact .inl hknown

/-- A thread writes the state of a row only if the row is that of a job the manager
knows, or of none. -/
theorem Registry.foreign_call (inv : Registry s) {n : Nat} {c : Call} {rest : Reply c → Thread}
    {fault : Option Fault} (calling : Calling (s.threads n) c rest) (foreign : Foreign s id)
    (there : s.world.db.state id ≠ none) :
    (perform c.op fault s.world).2.db.state id = s.world.db.state id := by
  have hstep := tableStep c.op fault s.world
  revert hstep
  generalize committed c.op (perform c.op fault s.world).1 s.world = commit
  intro hstep
  cases hstep with
  | same states => exact states id
  | @insert job retryOf op_eq free states =>
      rw [states]
      split
      · next hkey =>
          rw [← Database.state_congr hkey] at free
          exact absurd free there
      · rfl
  | @update id' before after op_eq asked present states =>
      rw [states]
      split
      · next hkey =>
          -- The one who writes has the job, so the row is not foreign.
          have hconfined := inv.confined n
          obtain ⟨site, op⟩ := c
          cases op_eq
          generalize hthread : s.threads n = thread at calling hconfined
          cases calling with
          | working =>
              obtain ⟨rfl, _⟩ := hconfined.1
              refine absurd hkey.symm (foreign _ (.inl (inv.works n _ ?_)))
              rw [System.roles, hthread]
              rfl
          | cancel =>
              obtain ⟨rfl, _⟩ := hconfined.1.1
              refine absurd hkey.symm (foreign _ (.inl (inv.cancels n _ ?_)))
              rw [System.roles, hthread]
              rfl
          | submit | retryRecord =>
              obtain ⟨job, retryOf, hop, _⟩ := hconfined.1.1
              cases hop
          | retryLoad | retryProbe => cases hconfined.1
      · rfl

/-- A row that nobody has, with the state it was left in. -/
structure Abandoned (id : Bytes) (x : JobState) (s : System) : Prop where
  registry : Registry s
  foreign : Foreign s id
  state : s.world.db.state id = some x

theorem Abandoned.step {x : JobState} (inv : Abandoned id x s) (step : SystemStep s event t) :
    Abandoned id x t := by
  have hthere : s.world.db.state id ≠ none := by
    rw [inv.state]
    nofun
  refine ⟨inv.registry.step step, fun id' registered hkey => ?_, ?_⟩
  · rcases step.registered inv.registry registered with hbefore | hnone
    · exact inv.foreign id' hbefore hkey
    · rw [Database.state_congr hkey] at hnone
      exact hthere hnone
  · cases step with
    | called calling =>
        exact (inv.registry.foreign_call calling inv.foreign hthere).trans inv.state
    | _ => exact inv.state

end Step

/-- What the lifecycle commands say of a job that is not known. -/
def Manager.Denies (m : Manager) (id : Bytes) : Prop :=
  m.pause id = .error (.unknownJob, noSuchJobHere id) ∧
    m.resume id = .error (.unknownJob, noSuchJobHere id) ∧
    m.claimCancel id = .error (.unknownJob, noSuchJobHere id) ∧
    m.claimRetry id = .error (.unknownJob, noSuchJobHere id)

theorem Manager.denies {m : Manager} {id : Bytes} (running : m.running = true)
    (unknown : id ∉ m.requests) : m.Denies id := by
  have hlookup : m.requests.lookup id = none := AList.lookup_eq_none.mpr unknown
  refine ⟨?_, ?_, ?_, ?_⟩
  · simp [Manager.pause, running, unknown]
  · simp [Manager.resume, running, unknown]
  · simp [Manager.claimCancel, running, unknown]
  · simp [Manager.claimRetry, running, hlookup]

/-- Whatever a process leaves in the store and among the files, a new manager accounts for
all the rows exactly if every unfinished row was flagged already; and a row that it does not
account for keeps its state for ever, has no worker and is denied by every command. -/
theorem restart_accounts_iff {config : RetryConfig} {strategy : MoveStrategy} {w : World}
    {workers : Nat → Bool} {t : System}
    (start : (System.constructed config strategy w).act (.start workers) = some t) :
    (RowsAccounted t ↔ ∀ id r, w.db.row id = some r → r.unfinished →
      r.needsAttention = true) ∧
    ∀ id r, w.db.row id = some r → r.unfinished → r.needsAttention = false →
      ∀ u, GuardedReach System.act (fun _ _ => True) t u →
        u.world.db.state id = some r.job.state ∧ ¬ u.manager.TakenUp id ∧
          (u.manager.running = true → u.manager.Denies id) := by
  rw [constructed_start start]
  refine ⟨⟨fun haccounted id r hrow hunfinished => ?_, fun hflagged id r hrow hunfinished => ?_⟩,
    fun id r hrow _ _ u reach => ?_⟩
  · rcases haccounted id r hrow hunfinished with howns | hflag
    · exact absurd howns.1 (AList.notMem_empty id)
    · exact hflag
  · exact .inr (hflagged id r hrow hunfinished)
  · have hstart : Abandoned id r.job.state
        (System.started config strategy w workers) := by
      refine ⟨registry_started _ _ _ _, ?_, ?_⟩
      · rintro id' (h | ⟨n, h⟩)
        · exact absurd h (AList.notMem_empty id')
        · simp only [System.started] at h
          split at h <;> cases h
      · show (w.db.row id).map (·.job.state) = some r.job.state
        rw [hrow]
        rfl
    have inv : Abandoned id r.job.state u :=
      reach.invariant (Abandoned id r.job.state) (fun _ h inv => inv.step (systemStep h)) hstart
    have hunknown : id ∉ u.manager.requests := fun h => inv.foreign id (.inl h) rfl
    exact ⟨inv.state, fun howns => hunknown howns.1, fun running => Manager.denies running hunknown⟩

/-- Thread 1 submits a job. -/
def sampleSubmit (id : Bytes) : List ManagerEvent :=
  [.submit 1 id sampleRequest 0, .lock 1, .call 1 none, .proceed 1, .proceed 1]

/-- The job is worked on; after the commit its object is not found, and it is flagged. -/
def sampleFlagged : List ManagerEvent :=
  sampleSubmit (lit "j") ++ ([.pickUp 3 0] : List ManagerEvent) ++
    List.replicate 13 (ManagerEvent.call 3 none) ++
    ([.call 3 (some EIO), .call 3 none, .call 3 none, .proceed 3] : List ManagerEvent)

/-- The next process accounts for it, while a second job that waited for a worker is denied
even when the new manager has got a job of its own. -/
theorem restart_accounts_flagged :
    (∃ s t r, GuardedReach System.act (fun _ _ => True) sampleSystem s ∧
      (System.constructed sampleConfig .renameNoReplace s.world).act (.start (· = 3)) =
        some t ∧
      s.world.db.row (lit "j") = some r ∧ r.unfinished ∧ RowsAccounted t) ∧
    ∃ s t u, GuardedReach System.act (fun _ _ => True) sampleSystem s ∧
      (System.constructed sampleConfig .renameNoReplace s.world).act (.start (· = 3)) =
        some t ∧
      GuardedReach System.act (fun _ _ => True) t u ∧ u.manager.runnable = [lit "m"] ∧
      u.world.db.state (lit "k") = some .queued ∧ u.manager.Denies (lit "k") := by
  constructor
  · obtain ⟨s, hs, hrun⟩ := (Option.any_eq_true _ _).mp
      (by decide +kernel : (replay System.act sampleFlagged sampleSystem).any (fun s =>
        decide (s.world.db.keys = [lit "j"]) && (s.world.db.row (lit "j")).any (fun r =>
          decide (r.job.state = .transferring ∧ r.needsAttention = true))) = true)
    obtain ⟨hkeys, hrun⟩ := Bool.and_eq_true_iff.mp hrun
    obtain ⟨r, hrow, hfacts⟩ := (Option.any_eq_true _ _).mp hrun
    obtain ⟨htransferring, hflagged⟩ := of_decide_eq_true hfacts
    have hunfinished : r.unfinished := by
      rw [Row.unfinished, htransferring]
      decide
    have reach : GuardedReach System.act (fun _ _ => True) sampleSystem s :=
      .of_replay (.of_free (fun _ _ => trivial) _ _) hs
    refine ⟨s, _, r, reach, rfl, hrow, hunfinished, (restart_accounts_iff rfl).1.mpr ?_⟩
    intro id r' hrow' _
    have hkey : cstr id ∈ s.world.db.keys :=
      AList.mem_keys.mpr (AList.lookup_isSome.mp (by
        rw [show s.world.db.lookup (cstr id) = some r' from hrow']
        rfl))
    rw [of_decide_eq_true hkeys, List.mem_singleton] at hkey
    have hsame : s.world.db.row id = s.world.db.row (lit "j") :=
      congrArg s.world.db.lookup hkey
    rw [hsame, hrow] at hrow'
    cases hrow'
    exact hflagged
  · obtain ⟨s, hs, hrun⟩ := (Option.any_eq_true _ _).mp
      (by decide +kernel : (replay System.act (sampleFlagged ++ sampleSubmit (lit "k"))
        sampleSystem).any (fun s =>
          (s.world.db.row (lit "k")).any (fun r =>
            decide (r.job.state = .queued ∧ r.needsAttention = false)) &&
          ((System.constructed sampleConfig .renameNoReplace s.world).act
            (.start (· = 3))).any (fun t =>
              (replay System.act (sampleSubmit (lit "m")) t).any (fun u =>
                decide (u.manager.runnable = [lit "m"] ∧ u.manager.running = true)))) = true)
    obtain ⟨hrow, hrun⟩ := Bool.and_eq_true_iff.mp hrun
    obtain ⟨r, hrow, hfacts⟩ := (Option.any_eq_true _ _).mp hrow
    obtain ⟨hqueued, hflag⟩ := of_decide_eq_true hfacts
    obtain ⟨t, ht, hrun⟩ := (Option.any_eq_true _ _).mp hrun
    obtain ⟨u, hu, hfacts⟩ := (Option.any_eq_true _ _).mp hrun
    obtain ⟨hrunnable, hrunning⟩ := of_decide_eq_true hfacts
    have reach : GuardedReach System.act (fun _ _ => True) t u :=
      .of_replay (.of_free (fun _ _ => trivial) _ _) hu
    have hunfinished : r.unfinished := by
      rw [Row.unfinished, hqueued]
      decide
    obtain ⟨hstate, -, hdenies⟩ :=
      (restart_accounts_iff ht).2 (lit "k") r hrow hunfinished hflag u reach
    rw [hqueued] at hstate
    exact ⟨s, t, u, .of_replay (.of_free (fun _ _ => trivial) _ _) hs, ht, reach, hrunnable,
      hstate, hdenies hrunning⟩

/-- A job is submitted and the process ends before a worker comes to it. The next one
starts, and does not know the job. -/
theorem restart_forgets_job :
    ¬ ∀ config strategy w workers s t config' strategy' workers',
      GuardedReach System.act (fun _ _ => True) (System.started config strategy w workers) s →
      (System.constructed config' strategy' s.world).act (.start workers') = some t →
        RowsAccounted t := by
  intro h
  obtain ⟨s, hs⟩ := Option.isSome_iff_exists.mp
    (by decide : (replay System.act (sampleRevived.take 5) sampleSystem).isSome = true)
  have hend : (replay System.act (sampleRevived.take 5) sampleSystem).map (fun s =>
      (s.world.db.row (lit "j")).map fun r => (r.job.state, r.needsAttention)) =
        some (some (.queued, false)) := by
    decide
  rw [hs] at hend
  obtain ⟨r, hrow, hr⟩ := Option.map_eq_some_iff.mp (Option.some.inj hend)
  obtain ⟨hqueued, hflag⟩ := Prod.mk.inj hr
  have haccounted := h _ _ _ _ s _ sampleConfig .renameNoReplace (fun n => n = 3)
    (.of_replay (.of_free (fun _ _ => trivial) _ _) hs) rfl
  rcases haccounted (lit "j") r hrow (by rw [Row.unfinished, hqueued]; decide) with h | h
  · exact absurd h.1 (AList.notMem_empty _)
  · rw [hflag] at h
    cases h

end FileMover
