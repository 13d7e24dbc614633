import FileMover.Manager.Filing

/-!
# What a refused command leaves behind

A command that nobody interrupts, from its first section to its return. All of them
but one take a claim and give it back when they refuse. `cancel` takes the job out of
`runnable`, of `waiting` and of `paused` before it has asked the store, and puts it
back, if it refuses, at the end of `runnable`, provided that it was there: a job that
waited or was paused is gone from both, and a runnable one may have lost its turn.
-/

namespace FileMover

open Framework

/-- The dispatch state and the rows are what they were. -/
structure Unchanged (s t : System) : Prop where
  runnable : t.manager.runnable = s.manager.runnable
  waiting : ∀ id, t.manager.waiting.lookup id = s.manager.waiting.lookup id
  paused : t.manager.paused = s.manager.paused
  active : t.manager.active = s.manager.active
  pending : t.manager.pending = s.manager.pending
  requests : ∀ id, t.manager.requests.lookup id = s.manager.requests.lookup id
  rows : ∀ id, t.world.db.row id = s.world.db.row id

/-- The further steps of the command that thread `n` has begun. -/
def Uninterrupted (n : Nat) (_ : System) : ManagerEvent → Prop
  | .lock k | .call k _ | .proceed k => k = n
  | _ => False

/-- `cancel` does not get past its first section, or finds the job where a refusal puts
it back. -/
def PutsBack (m : Manager) : ManagerEvent → Prop
  | .cancel _ id =>
      (m.running = false ∨ id ∉ m.requests ∨ id ∈ m.active) ∨
        id ∉ m.waiting ∧ id ∉ m.paused ∧
          (id ∈ m.runnable → m.runnable.erase id ++ [id] = m.runnable)
  | _ => True

/-! ## Programs that write only if they succeed -/

/-- Every call leaves the table alone, or is the last one and the result is good. -/
def WritesLast {α : Type} (good : α → Prop) : Prog α → Prop
  | .pure _ => True
  | .call c next => ∀ fault w,
      (perform c.op fault w).2.db = w.db ∧ WritesLast good (next (perform c.op fault w).1) ∨
        ∃ value, next (perform c.op fault w).1 = .pure value ∧ good value

theorem WritesLast.bind {α β : Type} {good : β → Prop} {program : Prog α} {next : α → Prog β}
    (reads : program.Uses ReadCall) (rest : ∀ value, WritesLast good (next value)) :
    WritesLast good (program.bind next) := by
  induction program with
  | pure value => exact rest value
  | call c more ih =>
      intro fault w
      refine .inl ⟨?_, ih _ (reads.2 _)⟩
      rw [perform_readOnly reads.1]

theorem writesLast_recordIntent (job : Job) (retryOf : Bytes) :
    WritesLast (fun result => result = .ok ()) (recordIntent job retryOf) := by
  intro fault w
  cases hreply : (perform (.insertJob job retryOf) fault w).1 with
  | error e =>
      exact .inl ⟨congrArg World.db (perform_failed hreply), trivial⟩
  | ok answer => exact .inr ⟨.ok (), rfl, rfl⟩

theorem writesLast_cancelInStore (id : Bytes) :
    WritesLast (fun result => result.1 = CommandResult.ok) (cancelInStore id) := by
  refine WritesLast.bind (uses_load rfl) fun loaded => ?_
  match loaded with
  | .error message => trivial
  | .ok none => trivial
  | .ok (some job) =>
      dsimp only
      split
      · trivial
      · rw [updateState, Program.bind_def, Program.bind_def, Program.bind_assoc]
        refine WritesLast.bind (uses_load rfl) fun again => ?_
        match again with
        | .error message => trivial
        | .ok none => trivial
        | .ok (some job') =>
            dsimp only
            split
            · trivial
            · rename_i after _
              intro fault w
              cases hreply : (perform (.updateJob id job' after) fault w).1 with
              | error e =>
                  exact .inl ⟨congrArg World.db (perform_failed hreply), trivial⟩
              | ok answer => exact .inr ⟨(.ok, []), rfl, rfl⟩

/-! ## One command -/

/-- The part of the manager that a claim changes, put back. -/
def Manager.withPending (m : Manager) (pending : Finset Bytes) : Manager :=
  { m with pending := pending }

/-- How the system differs from the one in which the command began, by the point at which
its thread is. -/
def Midway (s : System) (event : ManagerEvent) (t : System) : Thread → Prop
  | .returned outcome _ =>
      outcome ≠ .ok → t.world.db = s.world.db ∧
        (t.manager = s.manager ∧ PutsBack s.manager event ∨
          ∃ n id wasRunnable m, event = .cancel n id ∧
            s.manager.claimCancel id = .ok (wasRunnable, m) ∧
            t.manager = m.settleCancel id wasRunnable outcome)
  | .submitWaits id _ _ =>
      PutsBack s.manager event ∧ t.world.db = s.world.db ∧ id ∉ s.manager.pending ∧
        t.manager = s.manager.withPending (insert id s.manager.pending)
  | .submitRecords id _ rest | .retryRecords id _ rest =>
      PutsBack s.manager event ∧ id ∉ s.manager.pending ∧
        t.manager = s.manager.withPending (insert id s.manager.pending) ∧
        (t.world.db = s.world.db ∧ WritesLast (fun result => result = .ok ()) rest ∨
          rest = .pure (.ok ()))
  | .submitPublishes id _ recorded =>
      PutsBack s.manager event ∧ id ∉ s.manager.pending ∧
        t.manager = s.manager.withPending (insert id s.manager.pending) ∧
        (t.world.db = s.world.db ∨ recorded = .ok ())
  | .cancelWaits id wasRunnable =>
      t.world.db = s.world.db ∧ s.manager.claimCancel id = .ok (wasRunnable, t.manager) ∧
        ∃ n, event = .cancel n id
  | .cancelActs id wasRunnable rest =>
      s.manager.claimCancel id = .ok (wasRunnable, t.manager) ∧ (∃ n, event = .cancel n id) ∧
        (t.world.db = s.world.db ∧ WritesLast (fun result => result.1 = CommandResult.ok) rest ∨
          ∃ error, rest = .pure (.ok, error))
  | .retryWaits _ _ _ =>
      PutsBack s.manager event ∧ t.world.db = s.world.db ∧ t.manager = s.manager
  | .retryLoads _ _ _ rest =>
      PutsBack s.manager event ∧ t.world.db = s.world.db ∧ t.manager = s.manager ∧
        rest.Uses ReadCall
  | .retryProbes _ _ _ _ rest =>
      PutsBack s.manager event ∧ t.world.db = s.world.db ∧ t.manager = s.manager ∧
        rest.Uses ReadCall
  | _ => False

section Command
variable {s t u : System} {event : ManagerEvent} {n : Nat}

theorem midway_refused {outcome : CommandResult} {error : Bytes} (hworld : t.world.db = s.world.db)
    (hmanager : t.manager = s.manager) (hback : PutsBack s.manager event) :
    Midway s event t (.returned outcome error) :=
  fun _ => ⟨hworld, .inl ⟨hmanager, hback⟩⟩

/-- The first section of a command. -/
theorem midway_begun (hact : s.act event = some t) (hbegins : event.begins = some n) :
    Midway s event t (t.threads n) := by
  cases event with
  | submit k id request nowMs =>
      cases hbegins
      simp only [System.act] at hact
      split at hact
      · split at hact
        · cases hact
          rw [System.threads_setThread_self]
          exact midway_refused rfl rfl trivial
        · rename_i m hclaim
          obtain ⟨-, hpending, rfl⟩ := Manager.claimSubmit_eq hclaim
          cases hact
          rw [System.threads_setThread_self]
          exact ⟨trivial, rfl, hpending, rfl⟩
      · cases hact
  | pause k id | resume k id =>
      cases hbegins
      simp only [System.act] at hact
      split at hact
      · cases hact
        rw [System.command.eq_def]
        split
        · rw [System.threads_setThread_self]
          exact midway_refused rfl rfl trivial
        · rw [System.threads_setThread_self]
          exact fun hne => absurd rfl hne
      · cases hact
  | cancel k id =>
      cases hbegins
      simp only [System.act] at hact
      split at hact
      · split at hact
        · rename_i outcome error hclaim
          cases hact
          rw [System.threads_setThread_self]
          refine midway_refused rfl rfl (.inl ?_)
          rw [Manager.claimCancel] at hclaim
          split at hclaim
          · rename_i hrunning
            exact .inl hrunning
          · split at hclaim
            · rename_i hunknown
              exact .inr (.inl hunknown)
            · split at hclaim
              · rename_i hactive
                exact .inr (.inr hactive)
              · cases hclaim
        · rename_i wasRunnable m hclaim
          cases hact
          rw [System.threads_setThread_self]
          exact ⟨rfl, hclaim, n, rfl⟩
      · cases hact
  | retry k id nowMs =>
      cases hbegins
      simp only [System.act] at hact
      split at hact
      · split at hact
        · cases hact
          rw [System.threads_setThread_self]
          exact midway_refused rfl rfl trivial
        · cases hact
          rw [System.threads_setThread_self]
          exact ⟨trivial, rfl, rfl⟩
      · cases hact
  | _ => cases hbegins

theorem Midway.locked {thread thread' : Thread} (h : Midway s event t thread)
    (hlocked : thread.locked = some thread') (hmanager : u.manager = t.manager)
    (hworld : u.world = t.world) : Midway s event u thread' := by
  cases thread with
  | submitWaits id request nowMs =>
      cases hlocked
      obtain ⟨hback, hrows, hpending, hclaimed⟩ := h
      exact ⟨hback, hpending, hmanager.trans hclaimed,
        .inl ⟨(congrArg World.db hworld).trans hrows, writesLast_recordIntent _ _⟩⟩
  | cancelWaits id wasRunnable =>
      cases hlocked
      obtain ⟨hrows, hclaim, hevent⟩ := h
      refine ⟨?_, hevent, .inl ⟨(congrArg World.db hworld).trans hrows,
        writesLast_cancelInStore id⟩⟩
      rw [hmanager]
      exact hclaim
  | retryWaits id move nowMs =>
      cases hlocked
      obtain ⟨hback, hrows, hsame⟩ := h
      exact ⟨hback, (congrArg World.db hworld).trans hrows, hmanager.trans hsame,
        loadForRetry_calls⟩
  | _ => cases hlocked

/-- One call of a program that writes only if it succeeds. -/
theorem WritesLast.call {α : Type} {good : α → Prop} {c : Call} {next : Reply c → Prog α}
    {fault : Option Fault} {w w₀ : World} (h : WritesLast good (.call c next))
    (hrows : w.db = w₀.db) :
    (perform c.op fault w).2.db = w₀.db ∧ WritesLast good (next (perform c.op fault w).1) ∨
      ∃ value, next (perform c.op fault w).1 = .pure value ∧ good value := by
  rcases h fault w with ⟨hsame, hrest⟩ | hlast
  · exact .inl ⟨hsame.trans hrows, hrest⟩
  · exact .inr hlast

theorem Midway.called {thread : Thread} {c : Call} {rest : Reply c → Thread}
    {fault : Option Fault} (h : Midway s event t thread) (calling : Calling thread c rest)
    (hmanager : u.manager = t.manager) (hworld : u.world = (perform c.op fault t.world).2) :
    Midway s event u (rest (perform c.op fault t.world).1) := by
  cases calling with
  | working => exact h
  | submit | retryRecord =>
      obtain ⟨hback, hpending, hclaimed, ⟨hrows, hlast⟩ | hpure⟩ := h
      · refine ⟨hback, hpending, hmanager.trans hclaimed, ?_⟩
        rw [hworld]
        rcases hlast.call hrows with hsame | ⟨value, hvalue, rfl⟩
        · exact .inl hsame
        · exact .inr hvalue
      · cases hpure
  | cancel =>
      obtain ⟨hclaim, hevent, ⟨hrows, hlast⟩ | ⟨error, hpure⟩⟩ := h
      · refine ⟨hmanager ▸ hclaim, hevent, ?_⟩
        rw [hworld]
        rcases hlast.call hrows with hsame | ⟨⟨outcome, error⟩, hvalue, hok⟩
        · exact .inl hsame
        · cases hok
          exact .inr ⟨error, hvalue⟩
      · cases hpure
  | retryLoad | retryProbe =>
      obtain ⟨hback, hrows, hsame, hreads⟩ := h
      refine ⟨hback, ?_, hmanager.trans hsame, hreads.2 _⟩
      rw [hworld, perform_readOnly hreads.1]
      exact hrows

/-- The claim is given back. -/
theorem Manager.publish_refused {m : Manager} {id : Bytes} {request : MoveRequest}
    (hpending : id ∉ m.pending) :
    (m.withPending (insert id m.pending)).publish id request false = m := by
  simp [Manager.publish, Manager.withPending, Finset.erase_insert hpending]

theorem midway_published {id : Bytes} {request : MoveRequest}
    (hback : PutsBack s.manager event) (hpending : id ∉ s.manager.pending)
    (hclaimed : t.manager = s.manager.withPending (insert id s.manager.pending))
    {recorded : Except Bytes Unit}
    (hrows : t.world.db = s.world.db ∨ recorded = .ok ())
    (hmanager : u.manager = t.manager.publish id request (System.recordedOk recorded))
    (hworld : u.world = t.world) : Midway s event u (System.afterPublish recorded) := by
  cases recorded with
  | ok _ => exact fun hne => absurd rfl hne
  | error message =>
      refine midway_refused ?_ ?_ hback
      · rw [hworld]
        exact hrows.resolve_right nofun
      · rw [hmanager, hclaimed]
        exact Manager.publish_refused hpending

theorem Midway.proceed (h : Midway s event t (t.threads n)) (hproceed : t.proceed n = some u) :
    Midway s event u (u.threads n) := by
  unfold System.proceed at hproceed
  split at hproceed
  · rename_i hthread
    rw [hthread] at h
    exact h.elim
  · rename_i id request recorded hthread
    rw [hthread] at h
    cases hproceed
    rw [System.threads_setThread_self]
    obtain ⟨hback, hpending, hclaimed, hrows⟩ := h
    refine ⟨hback, hpending, hclaimed, ?_⟩
    rcases hrows with ⟨hrows, -⟩ | hpure
    · exact .inl hrows
    · cases hpure
      exact .inr rfl
  · rename_i id request recorded hthread
    rw [hthread] at h
    cases hproceed
    rw [System.threads_setThread_self]
    obtain ⟨hback, hpending, hclaimed, hrows⟩ := h
    exact midway_published hback hpending hclaimed hrows rfl rfl
  · rename_i id wasRunnable outcome error hthread
    rw [hthread] at h
    cases hproceed
    rw [System.threads_setThread_self]
    obtain ⟨hclaim, ⟨k, hevent⟩, hrows⟩ := h
    intro hne
    rcases hrows with ⟨hrows, -⟩ | ⟨error', hpure⟩
    · exact ⟨hrows, .inr ⟨k, id, wasRunnable, t.manager, hevent, hclaim, rfl⟩⟩
    · cases hpure
      exact absurd rfl hne
  · rename_i id move nowMs result hthread
    rw [hthread] at h
    obtain ⟨hback, hrows, hsame, -⟩ := h
    split at hproceed
    · cases hproceed
      rw [System.threads_setThread_self]
      exact midway_refused hrows hsame hback
    · cases hproceed
      rw [System.threads_setThread_self]
      exact ⟨hback, hrows, hsame, probeCandidate_calls⟩
  · rename_i id move nowMs k result hthread
    rw [hthread] at h
    obtain ⟨hback, hrows, hsame, -⟩ := h
    split at hproceed
    · cases hproceed
      rw [System.threads_setThread_self]
      exact midway_refused hrows hsame hback
    · cases hproceed
      rw [System.threads_setThread_self]
      exact ⟨hback, hrows, hsame, probeCandidate_calls⟩
    · split at hproceed
      · rename_i m hclaim
        obtain ⟨-, hpending, rfl⟩ := Manager.claimCandidate_eq hclaim
        cases hproceed
        rw [System.threads_setThread_self]
        rw [hsame] at hpending
        refine ⟨hback, hpending, ?_, .inl ⟨hrows, writesLast_recordIntent _ _⟩⟩
        show t.manager.withPending (insert (retryCandidate id k) t.manager.pending) = _
        rw [hsame]
      · cases hproceed
        rw [System.threads_setThread_self]
        exact ⟨hback, hrows, hsame, probeCandidate_calls⟩
  · rename_i id move recorded hthread
    rw [hthread] at h
    cases hproceed
    rw [System.threads_setThread_self]
    obtain ⟨hback, hpending, hclaimed, hrows⟩ := h
    refine midway_published hback hpending hclaimed ?_ rfl rfl
    rcases hrows with ⟨hrows, -⟩ | hpure
    · exact .inl hrows
    · cases hpure
      exact .inr rfl
  · cases hproceed

theorem Midway.step {e : ManagerEvent} (own : Uninterrupted n t e) (hact : t.act e = some u)
    (h : Midway s event t (t.threads n)) : Midway s event u (u.threads n) := by
  cases e with
  | lock k =>
      cases own
      simp only [System.act] at hact
      split at hact
      · rename_i thread hlocked _
        cases hact
        rw [System.threads_setThread_self]
        exact h.locked hlocked rfl rfl
      · cases hact
  | call k fault =>
      cases own
      simp only [System.act] at hact
      split at hact
      · rename_i c rest hnext
        cases hact
        rw [System.threads_setThread_self]
        exact h.called (Thread.next_calling hnext) rfl rfl
      · cases hact
  | proceed k =>
      cases own
      exact h.proceed hact
  | _ => exact own.elim

/-! ## The outcome -/

/-- What a cancellation that was refused late leaves behind. -/
theorem unchanged_settleCancel {id : Bytes} {wasRunnable : Bool} {m : Manager}
    {outcome : CommandResult} (hclaim : s.manager.claimCancel id = .ok (wasRunnable, m))
    (hne : outcome ≠ .ok) (hrows : t.world.db = s.world.db)
    (hmanager : t.manager = m.settleCancel id wasRunnable outcome) :
    Unchanged s t ↔ PutsBack s.manager (.cancel n id) := by
  have hrunning : s.manager.running ≠ false := by
    intro h
    simp [Manager.claimCancel, h] at hclaim
  obtain ⟨hknown, hactive, hwas, rfl⟩ := Manager.claimCancel_eq hclaim
  have hqueue : t.manager.runnable =
      if wasRunnable then s.manager.runnable.erase id ++ [id] else s.manager.runnable.erase id := by
    rw [hmanager, Manager.settleCancel]
    cases wasRunnable <;> simp [hne]
  have hrest : t.manager.waiting = s.manager.waiting.erase id ∧
      t.manager.paused = s.manager.paused.erase id ∧ t.manager.active = s.manager.active ∧
      t.manager.pending = s.manager.pending ∧ t.manager.requests = s.manager.requests := by
    rw [hmanager, Manager.settleCancel]
    split <;> exact ⟨rfl, rfl, rfl, rfl, rfl⟩
  obtain ⟨hwaiting, hpaused, hactive', hpending, hrequests⟩ := hrest
  have hrunnable : t.manager.runnable = s.manager.runnable ↔
      (id ∈ s.manager.runnable → s.manager.runnable.erase id ++ [id] = s.manager.runnable) := by
    rw [hqueue]
    by_cases hmem : id ∈ s.manager.runnable
    · simp [hwas, hmem]
    · simp [hwas, hmem, List.erase_of_not_mem hmem]
  constructor
  · intro h
    refine .inr ⟨?_, ?_, hrunnable.mp h.runnable⟩
    · have hlookup := h.waiting id
      rw [hwaiting, AList.lookup_erase] at hlookup
      exact AList.lookup_eq_none.mp hlookup.symm
    · have hsame := h.paused
      rw [hpaused] at hsame
      exact Finset.erase_eq_self.mp hsame
  · rintro (hearly | ⟨hnot, hnot', hlast⟩)
    · rcases hearly with hstop | hunknown | hflight
      · exact absurd hstop hrunning
      · exact absurd hknown hunknown
      · exact absurd hflight hactive
    · refine ⟨hrunnable.mpr hlast, ?_, ?_, hactive', hpending, fun _ => by rw [hrequests],
        fun _ => by rw [hrows]⟩
      · intro other
        rw [hwaiting]
        by_cases hother : other = id
        · rw [hother, AList.lookup_erase, AList.lookup_eq_none.mpr hnot]
        · exact AList.lookup_erase_ne hother
      · rw [hpaused]
        exact Finset.erase_eq_of_notMem hnot'

/-- **A refused command changes nothing**, whatever the state it begins in, if and only if it
is no cancellation that gets past its first section, or one of a job that is in no other
place than the end of `runnable`. -/
theorem refused_unchanged_iff {s₀ : System} (hbegins : event.begins = some n)
    (hact : s.act event = some s₀)
    (hrun : GuardedReach System.act (Uninterrupted n) s₀ t) {outcome : CommandResult}
    {error : Bytes} (hthread : t.threads n = .returned outcome error) (hne : outcome ≠ .ok) :
    Unchanged s t ↔ PutsBack s.manager event := by
  have hmidway : Midway s event t (t.threads n) :=
    hrun.invariant (fun u => Midway s event u (u.threads n)) (fun own h inv => inv.step own h)
      (midway_begun hact hbegins)
  rw [hthread] at hmidway
  obtain ⟨hrows, ⟨hsame, hback⟩ | ⟨k, id, wasRunnable, m, rfl, hclaim, hmanager⟩⟩ := hmidway hne
  · refine ⟨fun _ => hback, fun _ => ?_⟩
    exact ⟨by rw [hsame], fun _ => by rw [hsame], by rw [hsame], by rw [hsame], by rw [hsame],
      fun _ => by rw [hsame], fun _ => by rw [hrows]⟩
  · exact unchanged_settleCancel hclaim hne hrows hmanager

end Command

instance (n : Nat) (s : System) (event : ManagerEvent) : Decidable (Uninterrupted n s event) :=
  match event with
  | .lock k | .call k _ | .proceed k => inferInstanceAs (Decidable (k = n))
  | .submit _ _ _ _ | .pause _ _ | .resume _ _ | .cancel _ _ | .retry _ _ _ => .isFalse id
  | .pump _ | .pickUp _ _ | .exit _ | .setStrategy _ | .shutdown | .start _ => .isFalse id

/-- Thread 1 submits `j` and then `k`. -/
def twoSubmitted : List ManagerEvent :=
  [.submit 1 (lit "j") sampleRequest 0, .lock 1, .call 1 none, .proceed 1, .proceed 1,
    .submit 1 (lit "k") sampleRequest 1, .lock 1, .call 1 none, .proceed 1, .proceed 1]

/-- The cancellation of a job whose row cannot be read. -/
def cancelUnread : List ManagerEvent := [.lock 1, .call 1 (some SQLITE_BUSY), .proceed 1]

theorem exists_cancelUnread {id : Bytes} {check : System → System → Bool}
    (hrun : ((replay System.act twoSubmitted sampleSystem).any fun s =>
      (s.act (.cancel 1 id)).any fun s₀ =>
        decide (AllSteps System.act (Uninterrupted 1) cancelUnread s₀) &&
        (replay System.act cancelUnread s₀).any fun t =>
          (match t.threads 1 with
          | .returned outcome _ => decide (outcome ≠ .ok)
          | _ => false) && check s t) = true) :
    ∃ s s₀ t outcome error, GuardedReach System.act (fun _ _ => True) sampleSystem s ∧
      s.act (.cancel 1 id) = some s₀ ∧ GuardedReach System.act (Uninterrupted 1) s₀ t ∧
      t.threads 1 = .returned outcome error ∧ outcome ≠ .ok ∧ check s t = true := by
  obtain ⟨s, hs, hcancel⟩ := (Option.any_eq_true _ _).mp hrun
  obtain ⟨s₀, hs₀, hrest⟩ := (Option.any_eq_true _ _).mp hcancel
  obtain ⟨hsteps, hrest⟩ := Bool.and_eq_true_iff.mp hrest
  obtain ⟨t, ht, hend⟩ := (Option.any_eq_true _ _).mp hrest
  obtain ⟨hreturned, hcheck⟩ := Bool.and_eq_true_iff.mp hend
  split at hreturned
  · rename_i outcome error hthread
    exact ⟨s, s₀, t, outcome, error,
      .of_replay (AllSteps.of_free (fun _ _ => trivial) _ _) hs, hs₀,
      .of_replay (of_decide_eq_true hsteps) ht, hthread, of_decide_eq_true hreturned, hcheck⟩
  · cases hreturned

theorem refused_unchanged_iff_last :
    ∃ s t, GuardedReach System.act (fun _ _ => True) sampleSystem s ∧
      s.manager.runnable = [lit "j", lit "k"] ∧ Unchanged s t := by
  obtain ⟨s, s₀, t, outcome, error, hreach, hact, hrun, hthread, hne, hcheck⟩ :=
    @exists_cancelUnread (lit "k")
      (fun s _ => decide (s.manager.runnable = [lit "j", lit "k"] ∧
        lit "k" ∉ s.manager.waiting ∧ lit "k" ∉ s.manager.paused)) (by decide +kernel)
  obtain ⟨hqueue, hwaiting, hpaused⟩ := of_decide_eq_true hcheck
  refine ⟨s, t, hreach, hqueue, ?_⟩
  refine (refused_unchanged_iff rfl hact hrun hthread hne).mpr
    (.inr ⟨hwaiting, hpaused, fun _ => ?_⟩)
  rw [hqueue]
  decide

/-- The first job of two loses its turn to a cancellation that is refused. -/
theorem refused_cancel_reorders :
    ∃ s s₀ t outcome error, GuardedReach System.act (fun _ _ => True) sampleSystem s ∧
      s.act (.cancel 1 (lit "j")) = some s₀ ∧
      GuardedReach System.act (Uninterrupted 1) s₀ t ∧
      t.threads 1 = .returned outcome error ∧ outcome ≠ .ok ∧ ¬ Unchanged s t := by
  obtain ⟨s, s₀, t, outcome, error, hreach, hact, hrun, hthread, hne, hcheck⟩ :=
    @exists_cancelUnread (lit "j")
      (fun s t => decide (s.manager.runnable = [lit "j", lit "k"] ∧
        t.manager.runnable = [lit "k", lit "j"])) (by decide +kernel)
  obtain ⟨hbefore, hafter⟩ := of_decide_eq_true hcheck
  refine ⟨s, s₀, t, outcome, error, hreach, hact, hrun, hthread, hne, fun h => ?_⟩
  have hsame := h.runnable
  rw [hbefore, hafter] at hsame
  exact absurd hsame (by decide)

end FileMover
