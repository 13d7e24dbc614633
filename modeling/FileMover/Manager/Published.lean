import FileMover.Engine.Validation
import FileMover.Manager.Attempts
import FileMover.Manager.Cancellation
import FileMover.Manager.Departed
import FileMover.Manager.Turns
import FileMover.Manager.Verdicts
import FileMover.Model.Reports

/-!
# Events and the record

A worker makes its event of what `execute` and `handle_failure` have told it, and not of
the row. As long as nobody else writes to the row, the two agree, with one exception: a
DONE job that is worked on again is refused for its missing source, and then no
`fail_permanently` can make it FAILED.

Proved here: in every history in which the store works, no worker picks up a job that
another one has, a `cancel` writes only to jobs that no worker has, and no attempt is
counted for a DONE row, every event is true of the record when it is published.
-/

namespace FileMover

open Framework

/-- What an event says of the row of its job. -/
def JobEvent.Holds (event : JobEvent) (due : Option Int) (w : World) : Prop :=
  match event.type with
  | .jobCompleted => w.db.state event.jobId = some .done
  | .jobFailed | .jobCancelled => w.db.state event.jobId = some .failed
  | .jobRetryScheduled => ∃ r, w.db.row event.jobId = some r ∧
      r.job.state.isTerminal = false ∧ due = some r.nextRetryMs
  | _ => True

/-- The row is the worker's own, the store works, and no attempt is counted for a DONE
row. -/
def reportContract (id : Bytes) : Contract Call Fault World where
  rely w w' := w'.db.row id = w.db.row id
  rely_refl _ := rfl
  rely_trans hab hbc := hbc.trans hab
  assume c fault w := (c.op.onStore = true → fault = none) ∧
    ∀ due reason, c.op = .countAttempt id due reason → w.db.state id ≠ some .done
  guarantee _ _ _ _ := True

/-! ## A row of one's own -/

section Rules
variable {α : Type} {id reason message : Bytes} {w w' : World} {S : JobState → Prop}
  {target : JobState} {nowMs : Int}

theorem RowIn.kept (h : RowIn S id w) (rely : (reportContract id).rely w w') : RowIn S id w' := by
  obtain ⟨x, hx, hS⟩ := h
  exact ⟨x, (state_of_row_eq rely).trans hx, hS⟩

theorem RowIn.present (h : RowIn S id w) : w.db.state id ≠ none := by
  obtain ⟨x, hx, -⟩ := h
  rw [hx]
  nofun

theorem RowIn.mono {S' : JobState → Prop} (h : RowIn S id w) (implies : ∀ x, S x → S' x) :
    RowIn S' id w := by
  obtain ⟨x, hx, hS⟩ := h
  exact ⟨x, hx, implies x hS⟩

theorem RowIn.state {x : JobState} (h : RowIn (· = x) id w) : w.db.state id = some x := by
  obtain ⟨y, hy, rfl⟩ := h
  exact hy

theorem report_silent {program : Prog α} {Q : α → Prop}
    (uses : program.Uses fun c => c.op.writesState = false) (returns : program.Returns Q)
    (h : RowIn S id w) :
    program.Safe machine (reportContract id) (fun value w' => Q value ∧ RowIn S id w') w := by
  refine Program.Safe.of_uses uses returns (fun rely h => h.kept rely) ?_ h
  rintro c hsilent fault w₁ - ⟨x, hx, hS⟩
  exact ⟨trivial, x, (perform_state hsilent fault w₁ id).trans hx, hS⟩

/-- What is read is what is there, now and later. -/
theorem report_load {site : Site} (h : RowIn S id w) :
    (load site id).Safe machine (reportContract id) (fun loaded w' => ∃ job : Job,
      loaded = .ok (some job) ∧ S job.state ∧ RowIn (· = job.state) id w') w := by
  refine (safe_load_up (C := reportContract id) (fun _ _ _ h => h.1) (fun _ _ _ _ => trivial)
    fun _ hw => (h.kept hw).present).weaken ?_
  rintro _ w₂ ⟨r, w₁, rfl, hw, hrow, hw'⟩
  have hstate : w₁.db.state id = some r.job.state := by
    rw [Database.state, hrow]
    rfl
  obtain ⟨x, hx, hS⟩ := h.kept hw
  have hx' : x = r.job.state := Option.some.inj (hx.symm.trans hstate)
  rw [hx'] at hS
  exact ⟨r.job, rfl, hS, RowIn.kept ⟨_, hstate, rfl⟩ hw'⟩

/-- Only an illegal edge is refused. -/
theorem report_updateState (h : RowIn S id w) (fits : target = .failed ↔ message ≠ [])
    (explains : target = .failed → Explains message) :
    (updateState id target nowMs message).Safe machine (reportContract id) (fun result w' =>
      (result = .ok () ∧ RowIn (· = target) id w') ∨
        ((∃ e, result = .error e) ∧
          RowIn (fun x => S x ∧ isLegalTransition x target = false) id w')) w := by
  refine (safe_updateState (C := reportContract id) (fun _ _ _ h => h.1) (fun _ _ _ _ => trivial)
    (fun _ hw => (h.kept hw).present) explains).weaken ?_
  rintro result w' (⟨rfl, w₁, hstate, hw'⟩ | ⟨herror, job, w₁, hw, hstate, htrans, hw'⟩)
  · exact Or.inl ⟨rfl, RowIn.kept ⟨target, hstate, rfl⟩ hw'⟩
  · obtain ⟨x, hx, hS⟩ := h.kept hw
    have hx' : x = job.state := Option.some.inj (hx.symm.trans hstate)
    rw [hx'] at hS
    have hillegal := Job.illegal_of_transition htrans fits
    exact Or.inr ⟨herror, RowIn.kept ⟨job.state, hstate, hS, hillegal⟩ hw'⟩

theorem report_recordTransition {phase : CommitPhase} (h : RowIn S id w)
    (advances : target ≠ .failed) :
    (recordTransition id target nowMs [] phase).Safe machine (reportContract id)
      (fun result w' => (result = .ok () ∧ RowIn (· = target) id w') ∨
        ((∃ action e, result = .error (action, e)) ∧
          RowIn (fun x => S x ∧ isLegalTransition x target = false) id w')) w := by
  refine (report_updateState h (by simp [advances]) (fun h => absurd h advances)).bind ?_
  rintro result w' (⟨rfl, hrow⟩ | ⟨⟨e, rfl⟩, hrow⟩)
  · exact fun w'' hw => Or.inl ⟨rfl, hrow.kept hw⟩
  · exact fun w'' hw => Or.inr ⟨⟨_, _, rfl⟩, hrow.kept hw⟩

end Rules

/-! ## The engine -/

/-- How `execute` leaves the row, by its outcome. -/
structure Settles (id : Bytes) (result : MoveResult) (w : World) : Prop where
  present : RowIn (fun _ => True) id w
  completed : result.1 = .completed → RowIn (· = .done) id w
  aborted : result.1 = .abortedBeforeCommit → RowIn (fun x => x.isTerminal = false) id w

section Engine
variable {id error : Bytes} {request : MoveRequest} {w w' : World} {S : JobState → Prop}
  {destDir : Dir} {tick : Int}

/-- An outcome that says nothing of the row. -/
theorem settles_other {result : MoveResult} (h : RowIn S id w)
    (other : result.1 ≠ .completed ∧ result.1 ≠ .abortedBeforeCommit) : Settles id result w :=
  ⟨h.mono fun _ _ => trivial, fun hc => absurd hc other.1, fun ha => absurd ha other.2⟩

theorem settles_completed (h : RowIn (· = .done) id w) : Settles id (.completed, error) w :=
  ⟨h.mono fun _ _ => trivial, fun _ => h, nofun⟩

theorem settles_aborted (h : RowIn (fun x => x.isTerminal = false) id w) :
    Settles id (.abortedBeforeCommit, error) w :=
  ⟨h.mono fun _ _ => trivial, nofun, fun _ => h⟩

theorem report_halted {outcome : MoveOutcome} (h : RowIn S id w)
    (other : outcome ≠ .completed ∧ outcome ≠ .abortedBeforeCommit) :
    (haltWith id outcome error).Safe machine (reportContract id) (Settles id) w := by
  have hreturns : (haltWith id outcome error).Returns fun result => result.1 = outcome :=
    (Program.returns_true _).bind fun _ _ => rfl
  refine (report_silent (uses_haltWith fun _ => rfl) hreturns h).weaken ?_
  rintro result w' ⟨rfl, hrow⟩
  exact settles_other hrow other

theorem report_recordDone (h : RowIn S id w) :
    (recordDone id tick error).Safe machine (reportContract id) (Settles id) w := by
  refine (report_recordTransition h (by decide)).bind ?_
  rintro result w' (⟨rfl, hdone⟩ | ⟨⟨action, e, rfl⟩, hrow⟩)
  · exact fun w'' hw => settles_completed (hdone.kept hw)
  · exact report_halted hrow ⟨nofun, nofun⟩

theorem report_publishAndRecord (h : RowIn S id w) :
    (publishAndRecord id request destDir tick error).Safe machine (reportContract id)
      (Settles id) w := by
  have hpublish : ∀ dir temp final,
      (publish dir temp final).Uses fun c => c.op.writesState = false :=
    fun dir temp final => uses_publish (fun _ _ h _ => silent_of_readOnly h) rfl
  refine (report_silent (uses_sawEntry rfl) (Program.returns_true _) h).bind ?_
  rintro sawStaged w₁ ⟨-, h₁⟩
  refine (report_silent (uses_sawEntry rfl) (Program.returns_true _) h₁).bind ?_
  rintro sawFinal w₂ ⟨-, h₂⟩
  cases sawStaged with
  | true =>
      refine (report_silent (hpublish _ _ _) (Program.returns_true _) h₂).bind ?_
      rintro result w₃ ⟨-, h₃⟩
      cases result with
      | error message => exact report_halted h₃ ⟨nofun, nofun⟩
      | ok _ => exact report_recordDone h₃
  | false =>
      cases sawFinal with
      | true => exact report_recordDone h₂
      | false => exact report_halted h₂ ⟨nofun, nofun⟩

theorem report_finishAfterCommit (h : RowIn S id w) :
    (finishAfterCommit id request destDir tick error).Safe machine (reportContract id)
      (Settles id) w := by
  refine (report_load h).bind ?_
  rintro _ w₁ ⟨job, rfl, -, h₁⟩
  simp only
  split
  · rename_i hdone
    rw [hdone] at h₁
    exact fun w₂ hw => settles_completed (h₁.kept hw)
  split
  · exact fun w₂ hw => settles_other (h₁.kept hw) ⟨nofun, nofun⟩
  split
  · refine (report_recordTransition h₁ (by decide)).bind ?_
    rintro result w₂ (⟨rfl, h₂⟩ | ⟨⟨action, e, rfl⟩, h₂⟩)
    · exact report_publishAndRecord h₂
    · exact report_halted h₂ ⟨nofun, nofun⟩
  · exact report_publishAndRecord h₁

/-- A refused commit leaves the row where the move is under way. -/
theorem report_commitAndFinish {strategy : MoveStrategy} {sourceDir : Dir}
    (h : RowIn (fun x => x.isTerminal = false) id w) :
    (commitAndFinish id request strategy sourceDir destDir tick error).Safe machine
      (reportContract id) (Settles id) w := by
  refine (report_silent (uses_moveWithin rfl rfl rfl) (Program.returns_true _) h).bind ?_
  rintro moved w₁ ⟨-, h₁⟩
  cases moved with
  | error message => exact fun w₂ hw => settles_aborted (h₁.kept hw)
  | ok _ => exact report_finishAfterCommit h₁

theorem report_execute {strategy : MoveStrategy} (present : RowIn (fun _ => True) id w) :
    (execute id request strategy).Safe machine (reportContract id) (Settles id) w := by
  have hvalidates : (validate id request).Safe machine (reportContract id)
      (fun _ w' => True ∧ RowIn (fun _ => True) id w') w :=
    report_silent (uses_validate fun _ _ h => silent_of_readOnly h) (Program.returns_true _)
      present
  have hreads : (validate id request).Safe machine (reportContract id)
      (fun result w' => ∀ job sourceDir destDir text,
        result = .ok (job, sourceDir, destDir, text) → RowIn (· = job.state) id w') w := by
    refine (safe_validate fun _ _ _ _ _ => trivial).weaken ?_
    rintro result w' hcleared job sourceDir destDir text hok
    obtain ⟨w₁, w₂, w₃, w₄, -, -, hjob, h₂, -, h₃, -, h₄, -, h₅⟩ :=
      hcleared job sourceDir destDir text hok
    have hrow : RowIn (· = job.state) id w₁ :=
      ⟨job.state, Database.state_of_row hjob, rfl⟩
    exact (((hrow.kept h₂).kept h₃).kept h₄).kept h₅
  refine (hvalidates.and hreads (fun h => h) fun _ _ _ h => h).bind ?_
  rintro result w₁ ⟨hjob, -, hpresent⟩
  match result with
  | .error message => exact fun w₂ hw => settles_other (hpresent.kept hw) ⟨nofun, nofun⟩
  | .ok (job, sourceDir, destDir, error) =>
      have hrow : RowIn (· = job.state) id w₁ := hjob job sourceDir destDir error rfl
      simp only
      split
      · rename_i hdone
        rw [hdone] at hrow
        exact fun w₂ hw => settles_completed (hrow.kept hw)
      split
      · exact fun w₂ hw => settles_other (hrow.kept hw) ⟨nofun, nofun⟩
      split
      · rename_i hqueued
        refine (report_recordTransition hrow (by decide)).bind ?_
        rintro result w₂ (⟨rfl, h₂⟩ | ⟨⟨action, e, rfl⟩, h₂⟩)
        · refine report_commitAndFinish (h₂.mono ?_)
          rintro x rfl
          rfl
        · refine fun w₃ hw => settles_aborted ((h₂.mono ?_).kept hw)
          rintro x ⟨rfl, -⟩
          rw [hqueued]
          rfl
      · rename_i hdone hfailed _
        refine report_commitAndFinish (hrow.mono ?_)
        rintro x rfl
        cases hstate : job.state with
        | done => exact absurd hstate hdone
        | failed => exact absurd hstate hfailed
        | _ => rfl

end Engine

/-! ## After the engine -/

section After
variable {id reason failure : Bytes} {w : World} {S : JobState → Prop} {nowMs : Int}

/-- An attempt that may be counted is not one at a DONE job. -/
theorem report_recordAttempt {due : Int} (h : RowIn S id w) :
    (recordAttempt id due reason).Safe machine (reportContract id) (fun result w' =>
      result = .ok () ∧ ∃ r, w'.db.row id = some r ∧ (S r.job.state ∧ r.job.state ≠ .done) ∧
        r.nextRetryMs = due) w := by
  intro w₁ hw fault hassume
  have hfault : fault = none := hassume.1 rfl
  subst hfault
  obtain ⟨x, hx, hS⟩ := h.kept hw
  have hne : x ≠ .done := by
    rintro rfl
    exact hassume.2 due reason rfl hx
  obtain ⟨r, hr⟩ := Database.exists_row hx
  obtain rfl : r.job.state = x := by
    rw [Database.state, hr] at hx
    exact Option.some.inj hx
  let r' : Row :=
    { r with attempts := r.attempts + 1, nextRetryMs := due, lastError := cstr reason }
  have hcount : machine.perform ⟨.attemptWrite, .countAttempt id due reason⟩ none w₁ =
      (.ok 1, { w₁ with db := w₁.db.setRow id r' }) := by
    simp [machine, perform, answer, Database.countAttempt, hr, r']
  refine ⟨trivial, ?_⟩
  rw [hcount]
  refine fun w₂ hw' => ⟨rfl, r', ?_, ⟨hS, hne⟩, rfl⟩
  exact Eq.trans hw' (Database.row_setRow_of_key_eq rfl)

/-- A job that is not DONE when the attempt is counted ends FAILED. -/
theorem report_failPermanently (present : RowIn (fun _ => True) id w)
    (explains : Explains reason) :
    (failPermanently id reason).Safe machine (reportContract id)
      (fun _ w' => w'.db.state id = some .failed) w := by
  refine (report_recordAttempt present).bind ?_
  rintro _ w₁ ⟨-, r, hr, ⟨-, hdone⟩, -⟩
  have hrow : RowIn (· ≠ .done) id w₁ := by
    refine ⟨r.job.state, ?_, hdone⟩
    rw [Database.state, hr]
    rfl
  refine (report_load hrow).bind ?_
  rintro _ w₂ ⟨job, rfl, hundone, h₂⟩
  simp only
  split
  · rename_i hfailed
    rw [hfailed] at h₂
    exact fun w₃ hw => (h₂.kept hw).state
  · rename_i hunfailed
    refine (report_updateState h₂ (by simp [explains.ne_nil]) fun _ => explains).bind ?_
    rintro result w₃ (⟨rfl, h₃⟩ | ⟨-, x, -, rfl, hillegal⟩)
    · exact fun w₄ hw => (h₃.kept hw).state
    · -- FAILED can be reached from every state that is not terminal
      exfalso
      revert hillegal hundone hunfailed
      cases job.state <;> decide

/-- Scheduled again, and due when the row says so; or FAILED. -/
theorem report_handleFailure {config : RetryConfig}
    (h : RowIn (fun x => x.isTerminal = false) id w) :
    (handleFailure config id failure nowMs).Safe machine (reportContract id) (fun due w' =>
      match due with
      | some dueMs => ∃ r, w'.db.row id = some r ∧ r.job.state.isTerminal = false ∧
          dueMs = r.nextRetryMs
      | none => w'.db.state id = some .failed) w := by
  have hgaveUp : Explains (lit "gave up after ") := by decide
  intro w₁ hw fault hassume
  have hfault : fault = none := hassume.1 rfl
  subst hfault
  have h₁ := h.kept hw
  obtain ⟨x, hx, -⟩ := h.kept hw
  obtain ⟨r, hr⟩ := Database.exists_row hx
  have hload : machine.perform ⟨.retryLoad, .selectRetry id⟩ none w₁ =
      (.ok (some ⟨r.attempts, r.nextRetryMs, r.lastError, r.retryOf⟩), w₁) := by
    simp [machine, perform, answer, Database.retryState, hr]
  refine ⟨trivial, ?_⟩
  rw [hload]
  change Program.Safe machine (reportContract id) _
    (if (r.attempts + 1) % 2 ^ 32 < config.retryMaxAttempts then _ else _) w₁
  split
  · refine (report_recordAttempt h₁).bind ?_
    rintro _ w₂ ⟨rfl, r', hr', ⟨hopen, -⟩, hdue⟩
    exact fun w₃ hw' => ⟨r', Eq.trans hw' hr', hopen, hdue.symm⟩
  · refine (report_failPermanently (h₁.mono fun _ _ => trivial)
      (((hgaveUp.append _).append _).append _)).bind ?_
    intro _ w₂ hfailed w₃ hw'
    exact (state_of_row_eq hw').trans hfailed

/-- The event of an attempt is true of the row. -/
theorem report_attempt {config : RetryConfig} {request : MoveRequest} {strategy : MoveStrategy}
    (present : w.db.state id ≠ none) :
    (attempt config id request strategy nowMs).Safe machine (reportContract id)
      (fun done w' => (attemptEvent id done).Holds done.due w') w := by
  obtain ⟨x, hx⟩ := Option.ne_none_iff_exists'.mp present
  have huses : (execute id request strategy).Uses fun _ => True :=
    uses_execute (fun _ _ _ => trivial) (fun _ => trivial) (fun _ _ _ _ _ => trivial)
      fun _ _ _ => trivial
  have haccounts : (execute id request strategy).Safe machine (reportContract id)
      (fun result _ => Accounts result) w := by
    refine (Program.Safe.of_uses (P := fun _ => True) huses execute_accounts (fun _ h => h)
      (fun _ _ _ _ _ _ => ⟨trivial, trivial⟩) trivial).weaken fun _ _ h => h.1
  refine (haccounts.and (report_execute ⟨x, hx, trivial⟩) (fun h => h) fun _ _ _ h => h).bind ?_
  rintro ⟨outcome, error⟩ w₁ ⟨hsettles, hexplains⟩
  simp only
  split
  · rename_i haborted
    subst haborted
    refine (report_handleFailure (hsettles.aborted rfl)).bind ?_
    intro due w₂ hdue w₃ hw
    cases due with
    | none => exact (state_of_row_eq hw).trans hdue
    | some dueMs =>
        obtain ⟨r, hr, hopen, rfl⟩ := hdue
        exact ⟨r, Eq.trans hw hr, hopen, rfl⟩
  split
  · rename_i hrejected
    subst hrejected
    refine (report_failPermanently hsettles.present (hexplains nofun)).bind ?_
    intro _ w₂ hfailed w₃ hw
    exact (state_of_row_eq hw).trans hfailed
  · intro w₂ hw
    cases outcome with
    | completed => exact ((hsettles.completed rfl).kept hw).state
    | haltedAfterCommit | failedExternal => trivial
    | rejected | abortedBeforeCommit => contradiction

end After

/-! ## Histories -/

/-- The job that a worker is about to count an attempt for. -/
def Thread.counts : Thread → Option Bytes
  | .working _ (.call ⟨_, .countAttempt id _ _⟩ _) => some id
  | _ => none

/-- No worker picks up a job that another one has, a `cancel` writes only to a job that
no worker has, and no attempt is counted for a DONE row. -/
def Untroubled (s : System) : ManagerEvent → Prop
  | .pickUp _ _ => ∀ id ∈ s.manager.runnable.head?, id ∉ s.manager.active
  | .call n _ => (∀ id ∈ (s.threads n).cancelWrites, id ∉ s.manager.active) ∧
      ∀ id ∈ (s.threads n).counts, s.world.db.state id ≠ some .done
  | _ => True

instance (s : System) : (event : ManagerEvent) → Decidable (Untroubled s event)
  | .pickUp _ _ => inferInstanceAs (Decidable (∀ id ∈ s.manager.runnable.head?,
      id ∉ s.manager.active))
  | .call n _ => inferInstanceAs (Decidable ((∀ id ∈ (s.threads n).cancelWrites,
      id ∉ s.manager.active) ∧ ∀ id ∈ (s.threads n).counts, s.world.db.state id ≠ some .done))
  | .submit _ _ _ _ | .pause _ _ | .resume _ _ | .cancel _ _ | .retry _ _ _ | .pump _ =>
      .isTrue trivial
  | .exit _ | .lock _ | .proceed _ | .setStrategy _ | .shutdown | .start _ => .isTrue trivial

structure Reporting.Sound (v : Reporting) : Prop where
  registry : Registry v.system
  writes : ∀ n id rest, v.system.threads n = .working id rest → rest.Uses (RowCall id)
  exclusive : Exclusive v.system
  cancels : CancelsHold v.system
  follows : ∀ n id rest, v.system.threads n = .working id rest →
    rest = (v.attempts n).bind fun done => .pure done.due
  works : ∀ n id rest, v.system.threads n = .working id rest →
    (v.attempts n).Safe machine (reportContract id)
      (fun done w' => (attemptEvent id done).Holds done.due w') v.system.world

section Step
variable {v : Reporting} {t : System} {event : ManagerEvent}

theorem Untroubled.fresh {s : System} (untroubled : Untroubled s event) (n : Nat) (nowMs : Int)
    (h : event = .pickUp n nowMs) : ∀ id ∈ s.manager.runnable.head?, id ∉ s.manager.active := by
  subst h
  exact untroubled

/-- A `cancel` that writes to a job finds no worker at it. -/
theorem Untroubled.atRest {s : System} (untroubled : Untroubled s event) (registry : Registry s)
    (exclusive : Exclusive s) : CancelsAtRest s event := by
  intro id hid n rest hworking
  cases event with
  | call k fault =>
      cases fault with
      | some e => cases hid
      | none =>
          refine untroubled.1 id ?_ (exclusive.active n id rest hworking)
          have hconfined := registry.confined k
          simp only [System.cancelWrites] at hid
          split at hid
          · rename_i hthread
            cases hid
            rw [hthread] at hconfined ⊢
            exact congrArg some hconfined.1.1.1
          · cases hid
  | _ => cases hid

/-- Nobody else writes to the row of a worker. -/
theorem Reporting.Sound.rely (inv : v.Sound) {n : Nat} {fault : Option Fault} {c : Call}
    {rest : Reply c → Thread} (calling : Calling (v.system.threads n) c rest)
    (untroubled : Untroubled v.system (.call n fault)) {k : Nat} {id : Bytes}
    {more : Prog (Option Int)} (other : k ≠ n) (working : v.system.threads k = .working id more) :
    (reportContract id).rely v.system.world (perform c.op fault v.system.world).2 := by
  have hworks : v.system.roles k = .works id := by
    rw [System.roles, working]
    rfl
  have hregistered : Registered v.system id := .inl (inv.registry.works k id hworks)
  obtain ⟨x, hx⟩ := Option.ne_none_iff_exists'.mp (inv.registry.rows id hregistered)
  obtain ⟨r, hr⟩ := Database.exists_row hx
  have hforeign : v.system.roles n ≠ .works id := by
    intro hrole
    obtain ⟨rest', hworking'⟩ := Thread.working_of_role hrole
    exact other (inv.exclusive.alone k n id _ _ working hworking')
  obtain ⟨r', hr', -, rfl | ⟨hcancels, -⟩⟩ :=
    inv.registry.otherRow inv.writes calling hregistered hforeign hr
  · exact hr'.trans hr.symm
  · -- a `cancel` of the job writes nothing while the job is active
    have hconfined := inv.registry.confined n
    have hactive := inv.exclusive.active k id more working
    have hidle := untroubled.1
    rw [System.roles] at hcancels
    generalize v.system.threads n = thread at calling hcancels hconfined hidle
    cases calling with
    | @cancel id' wasRunnable c next =>
        cases hcancels
        have hcall : CancelCall id c := hconfined.1.1
        obtain ⟨site, op⟩ := c
        cases op with
        | updateJob id' before after =>
            obtain rfl : id' = id := hcall.1
            exact absurd hactive (hidle id' rfl)
        | _ => exact congrArg (fun w => w.db.row id) (perform_readOnly hcall fault v.system.world)
    | _ => cases hcancels

/-- Nothing is followed of a thread whose turn it is not. -/
theorem Reporting.follow_other {n : Nat} (other : event.actor ≠ some n) :
    v.follow event n = v.attempts n := by
  have hne : ∀ k, event.actor = some k → n ≠ k := by
    rintro k hk rfl
    exact other hk
  cases event with
  | pickUp k nowMs =>
      simp only [Reporting.follow]
      cases v.system.manager.pickUp with
      | none => rfl
      | some found => exact Function.update_of_ne (hne k rfl) _ _
  | call k fault =>
      simp only [Reporting.follow]
      cases v.attempts k with
      | pure done => rfl
      | call c next => exact Function.update_of_ne (hne k rfl) _ _
  | _ => rfl

/-- What is followed of a worker in a step: nothing, one call, or the beginning. -/
theorem Reporting.attempt_step
    (follows : ∀ n id rest, v.system.threads n = .working id rest →
      rest = (v.attempts n).bind fun done => .pure done.due)
    (step : SystemStep v.system event t) {n : Nat} {id : Bytes} {rest : Prog (Option Int)}
    (working : t.threads n = .working id rest) :
    (v.system.threads n = .working id rest ∧ event.actor ≠ some n ∧
      v.follow event n = v.attempts n) ∨
    (∃ fault c next more, event = .call n fault ∧
      v.system.threads n = .working id (.call c more) ∧ v.attempts n = .call c next ∧
      v.follow event n = next (perform c.op fault v.system.world).1 ∧
      rest = (next (perform c.op fault v.system.world).1).bind (fun done => .pure done.due) ∧
      t.world = (perform c.op fault v.system.world).2) ∨
    ∃ nowMs request m, event = .pickUp n nowMs ∧
      v.system.manager.pickUp = some (id, request, m) ∧
      v.follow event n = attempt m.config id request m.strategy nowMs ∧
      rest = workOn m.config id request m.strategy nowMs := by
  rcases step.working working with ⟨hsame, hactor⟩ |
    ⟨fault, c, more, rfl, hworking, rfl, hworld⟩ | ⟨nowMs, request, m, rfl, hpick, rfl, -⟩
  · exact .inl ⟨hsame, hactor, Reporting.follow_other hactor⟩
  · have hfollows := follows n id _ hworking
    cases hattempt : v.attempts n with
    | pure done =>
        rw [hattempt] at hfollows
        cases hfollows
    | call c' next =>
        rw [hattempt] at hfollows
        cases hfollows
        refine .inr (.inl ⟨fault, c, next, _, rfl, hworking, rfl, ?_, rfl, hworld⟩)
        simp only [Reporting.follow, hattempt, Function.update_self]
  · refine .inr (.inr ⟨nowMs, request, m, rfl, hpick, ?_, rfl⟩)
    simp only [Reporting.follow, hpick, Function.update_self]

theorem Reporting.Sound.follows_step (inv : v.Sound) (step : SystemStep v.system event t)
    (n : Nat) (id : Bytes) (rest : Prog (Option Int)) (working : t.threads n = .working id rest) :
    rest = (v.follow event n).bind fun done => .pure done.due := by
  rcases Reporting.attempt_step inv.follows step working with ⟨hsame, -, hfollow⟩ |
    ⟨fault, c, next, more, rfl, -, -, hfollow, rfl, -⟩ |
    ⟨nowMs, request, m, rfl, -, hfollow, rfl⟩
  · rw [hfollow]
    exact inv.follows n id rest hsame
  · rw [hfollow]
  · rw [hfollow]
    exact workOn_eq_attempt m.config id request m.strategy nowMs

/-- Every attempt stays on its way to an event that is true of the row. -/
theorem Reporting.Sound.works_step (inv : v.Sound)
    (guard : StoreWorks v.system event ∧ Untroubled v.system event)
    (step : SystemStep v.system event t) (n : Nat) (id : Bytes) (rest : Prog (Option Int))
    (working : t.threads n = .working id rest) :
    (v.follow event n).Safe machine (reportContract id)
      (fun done w' => (attemptEvent id done).Holds done.due w') t.world := by
  rcases Reporting.attempt_step inv.follows step working with ⟨hsame, hactor, hfollow⟩ |
    ⟨fault, c, next, more, rfl, hworking, hattempt, hfollow, -, hworld⟩ |
    ⟨nowMs, request, m, rfl, hpick, hfollow, -⟩
  · rw [hfollow]
    have hsafe := inv.works n id rest hsame
    rcases step.world with hworld | ⟨k, fault, c, more, rfl, calling, hworld⟩
    · rw [hworld]
      exact hsafe
    · rw [hworld]
      refine hsafe.interfere (inv.rely calling guard.2 ?_ hsame)
      rintro rfl
      exact hactor rfl
  · have hsafe := inv.works n id _ hworking
    rw [hattempt] at hsafe
    rw [hfollow, hworld]
    refine (Program.Safe.step hsafe ⟨?_, ?_⟩).2
    · have hcalling : Calling (v.system.threads n) c fun reply => .working id (more reply) := by
        rw [hworking]
        exact .working
      exact guard.1.assume hcalling
    · intro due reason hop
      obtain ⟨site, op⟩ := c
      cases hop
      refine guard.2.2 id ?_
      rw [hworking]
      rfl
  · rw [hfollow]
    have hworld : t.world = v.system.world := by
      rcases step.world with hworld | ⟨_, _, _, _, hevent, -⟩
      · exact hworld
      · cases hevent
    rw [hworld]
    refine report_attempt (inv.registry.rows id (.inl (inv.registry.known id (.inl ?_))))
    obtain ⟨rest', -, hrunnable, -⟩ := Manager.pickUp_eq hpick
    rw [hrunnable]
    exact List.mem_cons_self

theorem Reporting.Sound.step {v' : Reporting} (inv : v.Sound)
    (guard : StoreWorks v.system event ∧ Untroubled v.system event)
    (h : v.act event = some v') : v'.Sound := by
  obtain ⟨t, ht, rfl⟩ := Option.map_eq_some_iff.mp h
  have hstep := systemStep ht
  exact {
    registry := inv.registry.step hstep
    writes := hstep.rowCalls inv.writes
    exclusive := inv.exclusive.step guard.2.fresh hstep
    cancels := inv.cancels.step inv.registry (guard.2.atRest inv.registry inv.exclusive) hstep
    follows := inv.follows_step hstep
    works := inv.works_step guard hstep }

/-- What a sound manager publishes is so. -/
theorem Reporting.Sound.holds (inv : v.Sound) {n : Nat} {report : JobEvent} {due : Option Int}
    (published : v.publishes n = some (report, due)) : report.Holds due v.system.world := by
  unfold Reporting.publishes at published
  split at published
  · rename_i id rest hworking
    have hsafe := inv.works n id rest hworking
    split at published
    · rename_i done hdone
      cases published
      rw [hdone] at hsafe
      exact hsafe.result
    · cases published
  · rename_i id wasRunnable error hcancels
    cases published
    exact (inv.cancels n id wasRunnable error hcancels).failed
  · cases published

end Step

theorem Reporting.sound_started (config : RetryConfig) (strategy : MoveStrategy) (w : World)
    (workers : Nat → Bool) : (Reporting.started config strategy w workers).Sound := by
  have hthread := System.started_thread config strategy w workers
  have hidle : ∀ n id rest, (Reporting.started config strategy w workers).system.threads n ≠
      .working id rest := by
    intro n id rest hn
    rcases hthread n with h | h <;>
      · rw [Reporting.started, h] at hn
        cases hn
  refine ⟨registry_started config strategy w workers, ?_,
    exclusive_started config strategy w workers, ?_, ?_, ?_⟩
  · exact fun n id rest hn => absurd hn (hidle n id rest)
  · intro n id wasRunnable error hn
    rcases hthread n with h | h <;>
      · rw [Reporting.started, h] at hn
        cases hn
  · exact fun n id rest hn => absurd hn (hidle n id rest)
  · exact fun n id rest hn => absurd hn (hidle n id rest)

/-- In every history of a started manager in which the store works, no worker picks up a
job that another one has, a `cancel` writes only to jobs that no worker has, and no
attempt is counted for a DONE row: what is published is true of the row. -/
theorem events_true (config : RetryConfig) (strategy : MoveStrategy) (w : World)
    (workers : Nat → Bool) (v : Reporting)
    (reach : GuardedReach Reporting.act
      (fun v event => StoreWorks v.system event ∧ Untroubled v.system event)
      (Reporting.started config strategy w workers) v)
    (n : Nat) (report : JobEvent) (due : Option Int)
    (published : v.publishes n = some (report, due)) : report.Holds due v.system.world := by
  have hinv : v.Sound := reach.invariant Reporting.Sound
    (fun guard h inv => inv.step guard h) (Reporting.sound_started config strategy w workers)
  exact hinv.holds published

/-! Thread 1 of the sample manager submits a job, and thread 3 works on it. -/

def sampleReporting : Reporting := ⟨sampleSystem, fun _ => .pure ⟨.completed, [], none⟩⟩

def sampleWorked : List ManagerEvent :=
  ([.submit 1 (lit "j") sampleRequest 0, .lock 1, .call 1 none, .proceed 1, .proceed 1,
    .pickUp 3 0] : List ManagerEvent) ++ List.replicate 9 (ManagerEvent.call 3 none)

/-- The rename fails, and the job is scheduled again. -/
theorem events_true_sample :
    ∃ v report, replay Reporting.act
        (sampleWorked ++ [.call 3 (some ENOENT), .call 3 none, .call 3 none]) sampleReporting =
          some v ∧
      v.publishes 3 = some (report, some 1000) ∧ report.type = .jobRetryScheduled ∧
      report.Holds (some 1000) v.system.world := by
  let labels : List ManagerEvent :=
    sampleWorked ++ ([.call 3 (some ENOENT), .call 3 none, .call 3 none] : List ManagerEvent)
  have meet : AllSteps Reporting.act
      (fun v event => StoreWorks v.system event ∧ Untroubled v.system event) labels
      sampleReporting := by
    decide
  obtain ⟨v, hv⟩ := Option.isSome_iff_exists.mp
    (by decide : (replay Reporting.act labels sampleReporting).isSome = true)
  have hpublished : ((replay Reporting.act labels sampleReporting).bind fun v =>
      (v.publishes 3).map fun published => (published.1.type, published.2)) =
        some (.jobRetryScheduled, some 1000) := by
    decide
  rw [hv] at hpublished
  obtain ⟨⟨report, due⟩, hreport, htype⟩ := Option.map_eq_some_iff.mp hpublished
  obtain ⟨htype, rfl⟩ := Prod.mk.inj htype
  refine ⟨v, report, hv, hreport, htype, ?_⟩
  exact events_true _ _ _ _ v (.of_replay meet hv) 3 report (some 1000) hreport

/-- The job is DONE, and then paused and resumed: the worker finds no source, and the
failure that is published never reaches the record. -/
theorem failure_published_for_done :
    ¬ ∀ config strategy w workers v,
      GuardedReach Reporting.act (fun v event => StoreWorks v.system event)
        (Reporting.started config strategy w workers) v →
      ∀ n report due, v.publishes n = some (report, due) → report.Holds due v.system.world := by
  intro h
  let labels : List ManagerEvent := sampleWorked ++ List.replicate 12 (ManagerEvent.call 3 none) ++
    ([.proceed 3, .pause 1 (lit "j"), .resume 1 (lit "j"), .pickUp 3 0] : List ManagerEvent) ++
    List.replicate 7 (ManagerEvent.call 3 none)
  have meet : AllSteps Reporting.act (fun v event => StoreWorks v.system event) labels
      sampleReporting := by
    decide
  obtain ⟨v, hv⟩ := Option.isSome_iff_exists.mp
    (by decide : (replay Reporting.act labels sampleReporting).isSome = true)
  have hpublished : ((replay Reporting.act labels sampleReporting).bind fun v =>
      (v.publishes 3).map fun published =>
        (published.1.type, published.1.jobId, v.system.world.db.state (lit "j"))) =
          some (.jobFailed, lit "j", some .done) := by
    decide
  rw [hv] at hpublished
  obtain ⟨⟨report, due⟩, hreport, hfacts⟩ := Option.map_eq_some_iff.mp hpublished
  obtain ⟨type, severity, jobId, detail⟩ := report
  simp only [Prod.mk.injEq] at hfacts
  obtain ⟨rfl, rfl, hdone⟩ := hfacts
  have hfailed : v.system.world.db.state (lit "j") = some .failed :=
    h _ _ _ _ v (.of_replay meet hv) 3 _ due hreport
  rw [hdone] at hfailed
  cases hfailed

end FileMover
