import FileMover.Manager.Filing
import FileMover.Manager.Stranding

/-!
# One command at a time

When no command begins before the last one has returned, a job is safe from the commands
while a worker has it: the sections of `pause` and `cancel` look at `active`, and a
`cancel` that was admitted finds the job nowhere until it is done. So the row of a job
that a worker has is written by that worker alone, and a row at rest only by a `cancel` of
its job.
-/

namespace FileMover

open Framework

/-- A command begins only if no thread is in one. -/
def OneCommand (s : System) (event : ManagerEvent) : Prop :=
  event.begins ≠ none → ∀ n, (s.threads n).inCommand = false

/-! ## What a worker writes to -/

/-- A statement that writes, if at all, to the row of this job, and inserts nothing. -/
def RowCall (id : Bytes) (c : Call) : Prop :=
  match c.op with
  | .insertJob _ _ => False
  | .updateJob id' _ _ => id' = id
  | .flagJob id' _ => id' = id
  | .countAttempt id' _ _ => id' = id
  | _ => True

theorem rowCall_of_readOnly {id : Bytes} {c : Call} (h : c.op.readOnly = true) : RowCall id c := by
  obtain ⟨site, op⟩ := c
  cases op with
  | insertJob | updateJob | flagJob | countAttempt => cases h
  | _ => trivial

theorem workOn_rowCalls {config : RetryConfig} {id : Bytes} {request : MoveRequest}
    {strategy : MoveStrategy} {nowMs : Int} :
    (workOn config id request strategy nowMs).Uses (RowCall id) := by
  have hreads : ∀ site op, op.readOnly = true → RowCall id ⟨site, op⟩ :=
    fun _ _ h => rowCall_of_readOnly h
  refine (uses_execute hreads (fun _ => rfl) (fun _ _ _ _ _ => rfl) ?_).bind fun result => ?_
  · intro site op hnames
    cases op with
    | renameat2 | linkat | unlinkat | renameat => trivial
    | _ => cases hnames
  · exact uses_afterExecute hreads (fun _ _ => rfl) (fun _ _ _ => rfl) result.1 result.2

/-- A call that writes to another row leaves this one alone. -/
theorem RowCall.row {id id' : Bytes} {c : Call} {fault : Option Fault} {w : World} {r : Row}
    (call : RowCall id' c) (other : cstr id ≠ cstr id') (hr : w.db.row id = some r) :
    (perform c.op fault w).2.db.row id = some r := by
  obtain ⟨r', hr', hstep⟩ : ∃ r', (perform c.op fault w).2.db.row id = some r' ∧
      RowStep c.op id r r' := perform_row hr
  have hsame : r' = r := by
    obtain ⟨site, op⟩ := c
    cases hstep with
    | same => rfl
    | updated op_eq key =>
        cases op_eq
        obtain rfl : _ = id' := call
        exact absurd key other
    | flagged op_eq key =>
        cases op_eq
        obtain rfl : _ = id' := call
        exact absurd key other
    | counted op_eq key =>
        cases op_eq
        obtain rfl : _ = id' := call
        exact absurd key other
  rw [hr', hsame]

/-! ## The invariant -/

/-- The row of a job that has not been dispatched yet. -/
def Fresh (id : Bytes) (w : World) : Prop :=
  ∃ r, w.db.row id = some r ∧ r.attempts = 0 ∧ r.job.state = .queued

structure Solo (s : System) : Prop where
  registry : Registry s
  claims : Claims s
  dispatch : Dispatch s.manager s.roles
  alone : ∀ n k, (s.threads n).inCommand = true → (s.threads k).inCommand = true → n = k
  withdrawn : ∀ n id, s.roles n = .cancels id → ¬ s.manager.Owns id
  writes : ∀ n id rest, s.threads n = .working id rest → rest.Uses (RowCall id)
  fresh : ∀ n id, (s.threads n).recorded = some id → Fresh id s.world

section Step
variable {s t : System} {event : ManagerEvent} {id : Bytes}

theorem Thread.inCommand_of_role {thread : Thread} (h : thread.role = .cancels id) :
    thread.inCommand = true := by
  unfold Thread.role at h
  split at h
  all_goals first | rfl | cases h

theorem Thread.not_inCommand_of_worker {thread : Thread} (h : thread.isWorker = true) :
    thread.inCommand = false := by
  cases thread <;> first | rfl | cases h

/-- Nobody gets into a command without beginning one. -/
theorem System.act_inCommand (h : s.act event = some t) {k : Nat}
    (hin : (t.threads k).inCommand = true) :
    (s.threads k).inCommand = true ∨ event.begins = some k := by
  by_cases hbegins : event.begins = some k
  · exact .inr hbegins
  refine .inl ?_
  rcases System.continues h hbegins with hsame | hworker | hlocked |
    ⟨c, rest, fault, calling, rfl⟩ | ⟨-, hproceed⟩
  · rw [← hsame]
    exact hin
  · rw [Thread.not_inCommand_of_worker hworker] at hin
    cases hin
  · revert hlocked
    cases s.threads k <;> intro hlocked <;> first | rfl | cases hlocked
  · rw [System.threads_setThread_self] at hin
    revert hin
    generalize s.threads k = thread at calling
    cases calling with
    | working => nofun
    | _ => exact fun _ => rfl
  · revert hproceed
    unfold System.proceed
    split
    · intro hproceed
      cases hproceed
      rw [System.threads_setThread_self] at hin
      cases hin
    all_goals intro hproceed
    all_goals first | cases hproceed; done | (rename_i hthread; rw [hthread]; rfl)

theorem Solo.alone_step (inv : Solo s) (one : OneCommand s event) (h : s.act event = some t)
    (n k : Nat) (hn : (t.threads n).inCommand = true) (hk : (t.threads k).inCommand = true) :
    n = k := by
  have hnone : ∀ {n k}, event.begins = some n → (s.threads k).inCommand = true → False := by
    intro n k hbegins hin
    rw [one (by rw [hbegins]; nofun) k] at hin
    cases hin
  rcases System.act_inCommand h hn with hn | hn
  · rcases System.act_inCommand h hk with hk | hk
    · exact inv.alone n k hn hk
    · exact (hnone hk hn).elim
  · rcases System.act_inCommand h hk with hk | hk
    · exact (hnone hn hk).elim
    · exact Option.some.inj (hn.symm.trans hk)

/-- A thread that cancels a job has begun to do so before, or begins now. -/
theorem SystemStep.cancelling (step : SystemStep s event t) {k : Nat}
    (h : t.roles k = .cancels id) :
    s.roles k = .cancels id ∨
      ∃ wasRunnable m, s.manager.claimCancel id = .ok (wasRunnable, m) ∧ t.manager = m := by
  have hback : ∀ {s' : System} {n : Nat} {thread : Thread}, t = s'.setThread n thread →
      s'.threads = s.threads → (thread.role = .cancels id → s.roles n = .cancels id) →
      s.roles k = .cancels id := by
    rintro s' n thread rfl hthreads hrole
    rw [System.roles_setThread] at h
    by_cases hk : k = n
    · subst hk
      rw [Function.update_self] at h
      exact hrole h
    · rw [Function.update_of_ne hk, System.roles, hthreads] at h
      exact h
  cases step with
  | quiet actor quiet => exact .inl (hback rfl rfl fun hrole => quiet.role.symm.trans hrole)
  | called calling =>
      refine .inl (hback rfl rfl fun hrole => ?_)
      rwa [calling.role] at hrole
  | pumped | tuned => exact .inl h
  | @restarted workers =>
      refine .inl ?_
      rcases restarted_thread s workers k with hsame | ⟨-, hwaiting⟩
      · simp only [System.roles, hsame] at h
        exact h
      · simp only [System.roles, hwaiting] at h
        cases h
  | @claimedCancel n id' wasRunnable m free hclaim =>
      by_cases hk : k = n
      · subst hk
        rw [System.roles, System.threads_setThread_self] at h
        cases h
        exact .inr ⟨wasRunnable, m, hclaim, rfl⟩
      · rw [System.roles, System.threads_setThread_of_ne hk] at h
        exact .inl h
  | @published n id' request recorded storeMutex hpublishes =>
      refine .inl (hback rfl rfl fun hrole => ?_)
      rw [System.afterPublish_role] at hrole
      cases hrole
  | _ => exact .inl (hback rfl rfl (by rintro ⟨⟩))

/-- A job comes into the dispatch state with a command only. -/
theorem SystemStep.owned (step : SystemStep s event t) (inv : Dispatch s.manager s.roles)
    (owns : t.manager.Owns id) :
    s.manager.Owns id ∨ event.begins ≠ none ∨
      ∃ n, (s.threads n).inCommand = true ∧
        (s.roles n = .claims id ∨ s.roles n = .cancels id ∧ t.roles n = .none) := by
  cases step with
  | quiet | called | tuned | restarted => exact .inl owns
  | paused | resumed | claimedSubmit | claimedCancel => exact .inr (.inl nofun)
  | @pumped nowMs =>
      rw [Manager.Owns, Manager.places_pump] at owns
      exact .inl owns
  | claimedCandidate thread hclaim =>
      obtain ⟨-, -, rfl⟩ := Manager.claimCandidate_eq hclaim
      exact .inl owns
  | @published n id' request recorded storeMutex hpublishes =>
      rw [Manager.Owns, System.setThread, Manager.places_publish] at owns
      split at owns
      · rename_i hid
        refine .inr (.inr ⟨n, ?_, .inl ?_⟩)
        · revert hpublishes
          cases s.threads n <;> intro hpublishes <;> first | rfl | cases hpublishes
        · rw [hid.2]
          exact Thread.role_of_publishes hpublishes
      · exact .inl owns
  | @settledCancel n id' wasRunnable outcome error thread =>
      have hrole : s.roles n = .cancels id' := by
        rw [System.roles, thread]
        rfl
      rw [Manager.Owns, System.setThread, Manager.places_settleCancel] at owns
      split at owns
      · rename_i hid
        rw [← hid.2] at hrole
        refine .inr (.inr ⟨n, Thread.inCommand_of_role hrole, .inr ⟨hrole, ?_⟩⟩)
        rw [System.roles, System.threads_setThread_self]
        rfl
      · exact .inl owns
  | @pickedUp n nowMs id' request m thread hpick =>
      obtain ⟨-, hplaces⟩ := Manager.places_pickUp hpick (inv.once id')
      rw [Manager.Owns, System.setThread, hplaces] at owns
      exact .inl owns
  | @settled n id' due thread =>
      have hactive : id' ∈ s.manager.active := by
        refine inv.works n id' ?_
        rw [System.roles, thread]
        rfl
      rw [Manager.Owns, System.setThread, Manager.places_settle hactive (inv.once id')] at owns
      split at owns
      · rename_i hid
        refine .inl ?_
        rw [hid, Manager.Owns, Manager.places, if_pos hactive]
        omega
      · exact .inl owns

theorem Solo.withdrawn_step (inv : Solo s) (one : OneCommand s event) (h : s.act event = some t)
    (k : Nat) (cancels : t.roles k = .cancels id) : ¬ t.manager.Owns id := by
  intro howns
  rcases (systemStep h).cancelling cancels with hbefore | ⟨wasRunnable, m, hclaim, rfl⟩
  · have hin : (s.threads k).inCommand = true := Thread.inCommand_of_role hbefore
    rcases (systemStep h).owned inv.dispatch howns with howned | hbegins | ⟨n, hn, hrole⟩
    · exact inv.withdrawn k id hbefore howned
    · rw [one hbegins k] at hin
      cases hin
    · obtain rfl := inv.alone n k hn hin
      rcases hrole with hclaims | ⟨-, hnone⟩
      · rw [hbefore] at hclaims
        cases hclaims
      · rw [cancels] at hnone
        cases hnone
  · rw [Manager.Owns, Manager.places_claimCancel hclaim (inv.dispatch.once id), if_pos rfl] at howns
    exact howns rfl

/-- A refused `cancel` finds its job nowhere. -/
theorem Solo.lost (inv : Solo s) (event : ManagerEvent) : PutsBackLost s event := by
  intro id hid
  cases event with
  | proceed n =>
      simp only [System.putsBack] at hid
      split at hid
      · rename_i id' outcome error hthread
        split at hid
        · cases hid
        · cases hid
          refine inv.withdrawn n id ?_
          rw [System.roles, hthread]
          rfl
      · cases hid
  | _ => cases hid

/-! ## Rows -/

theorem CancelCall.rowCall {c : Call} (h : CancelCall id c) : RowCall id c := by
  obtain ⟨site, op⟩ := c
  cases op with
  | updateJob => exact h.1
  | _ => exact rowCall_of_readOnly h

/-- What somebody else's call makes of the row of a job, if every worker writes to the row
of its own. -/
theorem Registry.otherRow (inv : Registry s)
    (writes : ∀ n id rest, s.threads n = .working id rest → rest.Uses (RowCall id)) {n : Nat}
    {c : Call} {rest : Reply c → Thread} {fault : Option Fault} {r : Row}
    (calling : Calling (s.threads n) c rest)
    (registered : Registered s id) (other : s.roles n ≠ .works id)
    (hr : s.world.db.row id = some r) :
    ∃ r', (perform c.op fault s.world).2.db.row id = some r' ∧
      (r'.attempts = r.attempts ∧ r'.nextRetryMs = r.nextRetryMs) ∧
      (r' = r ∨ s.roles n = .cancels id ∧ r'.job.state = .failed) := by
  have hconfined := inv.confined n
  have hkeys : ∀ id', id' ∈ s.manager.requests → id' ≠ id → cstr id ≠ cstr id' :=
    fun id' hid' hne hkey => hne (inv.keys id id' registered (.inl hid') hkey).symm
  generalize hthread : s.threads n = thread at calling hconfined
  cases calling with
  | @working id' c next =>
      have hrole : s.roles n = .works id' := by
        rw [System.roles, hthread]
        rfl
      have hne : id' ≠ id := by
        rintro rfl
        exact other hrole
      have huses := writes n id' _ hthread
      refine ⟨r, ?_, ⟨rfl, rfl⟩, .inl rfl⟩
      exact huses.1.row (hkeys id' (inv.works n id' hrole) hne) hr
  | @cancel id' wasRunnable c next =>
      have hcall : CancelCall id' c := hconfined.1.1
      have hrole : s.roles n = .cancels id' := by
        rw [System.roles, hthread]
        rfl
      by_cases hid : id' = id
      · subst hid
        obtain ⟨r', hr', hstep⟩ : ∃ r', (perform c.op fault s.world).2.db.row id' = some r' ∧
            RowStep c.op id' r r' := perform_row hr
        refine ⟨r', hr', ?_⟩
        obtain ⟨site, op⟩ := c
        cases hstep with
        | same => exact ⟨⟨rfl, rfl⟩, .inl rfl⟩
        | updated op_eq key =>
            cases op_eq
            exact ⟨⟨rfl, rfl⟩, .inr ⟨hrole, hcall.2⟩⟩
        | flagged op_eq key | counted op_eq key =>
            cases op_eq
            cases hcall
      · refine ⟨r, ?_, ⟨rfl, rfl⟩, .inl rfl⟩
        exact hcall.rowCall.row (hkeys id' (inv.cancels n id' hrole) hid) hr
  | submit | retryRecord =>
      obtain ⟨job, retryOf, hop, -⟩ := hconfined.1.1
      obtain ⟨r', hr', hstep⟩ := perform_row hr
      refine ⟨r', hr', ?_⟩
      rw [hop] at hstep
      cases hstep with
      | same => exact ⟨⟨rfl, rfl⟩, .inl rfl⟩
      | updated op_eq key | flagged op_eq key | counted op_eq key => cases op_eq
  | retryLoad | retryProbe =>
      rw [perform_readOnly hconfined.1]
      exact ⟨r, hr, ⟨rfl, rfl⟩, .inl rfl⟩

theorem Solo.row (inv : Solo s) {n : Nat} {c : Call} {rest : Reply c → Thread}
    {fault : Option Fault} {r : Row} (calling : Calling (s.threads n) c rest)
    (registered : Registered s id) (other : s.roles n ≠ .works id)
    (hr : s.world.db.row id = some r) :
    ∃ r', (perform c.op fault s.world).2.db.row id = some r' ∧
      (r'.attempts = r.attempts ∧ r'.nextRetryMs = r.nextRetryMs) ∧
      (r' = r ∨ s.roles n = .cancels id ∧ r'.job.state = .failed) :=
  inv.registry.otherRow inv.writes calling registered other hr

/-- A worker writes to the row of its job, from the pick-up on. -/
theorem SystemStep.rowCalls (step : SystemStep s event t)
    (writes : ∀ n id rest, s.threads n = .working id rest → rest.Uses (RowCall id)) (n : Nat)
    (id : Bytes) (rest : Prog (Option Int)) (working : t.threads n = .working id rest) :
    rest.Uses (RowCall id) := by
  rcases step.working working with ⟨hsame, -⟩ | ⟨fault, c, next, -, hcalled, rfl, -⟩ |
    ⟨nowMs, request, m, -, -, rfl, -⟩
  · exact writes n id rest hsame
  · exact (writes n id _ hcalled).2 _
  · exact workOn_rowCalls

theorem Succeeds.fresh {c : Call} {fault : Option Fault} {w : World}
    (h : Succeeds (IntentCall id) c (perform c.op fault w).1) :
    Fresh id (perform c.op fault w).2 := by
  obtain ⟨⟨job, retryOf, hop, rfl, hqueued⟩, answer, hok⟩ := h
  obtain ⟨site, op⟩ := c
  cases hop
  obtain ⟨-, r, hjob, -, hattempts, hdb⟩ := perform_insert hok
  refine ⟨r, ?_, hattempts, ?_⟩
  · simp only [hdb]
    exact Database.row_setRow_self
  · rw [hjob]
    exact hqueued

/-- A job that is on record but not published yet is left alone. -/
theorem Solo.fresh_kept (inv : Solo s) (step : SystemStep s event t) {k : Nat}
    (recorded : (s.threads k).recorded = some id) : Fresh id t.world := by
  obtain ⟨r, hr, hattempts, hqueued⟩ := inv.fresh k id recorded
  rcases step.world with hworld | ⟨n, fault, c, rest, -, calling, hworld⟩
  · rw [hworld]
    exact ⟨r, hr, hattempts, hqueued⟩
  · -- nobody works on the job or cancels it before it is published
    have hunknown : id ∉ s.manager.requests :=
      inv.claims.fresh k id (Thread.role_of_recorded recorded)
    have hother : s.roles n ≠ .works id := fun h => hunknown (inv.registry.works n id h)
    obtain ⟨r', hr', ⟨hcount, -⟩, hsame⟩ := inv.row calling (.inr ⟨k, recorded⟩) hother hr
    rw [hworld]
    refine ⟨r', hr', hcount.trans hattempts, ?_⟩
    rcases hsame with rfl | ⟨hcancels, -⟩
    · exact hqueued
    · exact absurd (inv.registry.cancels n id hcancels) hunknown

theorem Solo.fresh_step (inv : Solo s) (step : SystemStep s event t) (k : Nat)
    (recorded : (t.threads k).recorded = some id) : Fresh id t.world := by
  rcases step.recorded_back inv.registry recorded with hbefore | ⟨fault, c, hinserts, hworld⟩
  · exact inv.fresh_kept step hbefore
  · rw [hworld]
    exact hinserts.fresh

theorem Solo.step (inv : Solo s) (one : OneCommand s event) (h : s.act event = some t) :
    Solo t where
  registry := inv.registry.step (systemStep h)
  claims := inv.claims.step inv.registry (systemStep h)
  dispatch := inv.dispatch.step (inv.lost event) (systemStep h)
  alone := inv.alone_step one h
  withdrawn k _ := inv.withdrawn_step one h k
  writes := (systemStep h).rowCalls inv.writes
  fresh k _ := inv.fresh_step (systemStep h) k

end Step

theorem solo_started (config : RetryConfig) (strategy : MoveStrategy) (w : World)
    (workers : Nat → Bool) : Solo (System.started config strategy w workers) := by
  have hthread := System.started_thread config strategy w workers
  refine ⟨registry_started config strategy w workers, claims_started config strategy w workers,
    dispatch_started config strategy w workers, ?_, ?_, ?_, ?_⟩
  · intro n k hn
    rcases hthread n with h | h <;>
      · rw [h] at hn
        cases hn
  · intro n id hn
    rcases hthread n with h | h <;>
      · rw [System.roles, h] at hn
        cases hn
  · intro n id rest hn
    rcases hthread n with h | h <;>
      · rw [h] at hn
        cases hn
  · intro n id hn
    rcases hthread n with h | h <;>
      · rw [h] at hn
        cases hn

end FileMover
