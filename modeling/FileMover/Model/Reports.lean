import FileMover.Model.Manager

/-!
# What the manager reports

The events of `events.hpp` and where `manager.cpp` publishes them. An event is a
report: nothing that the manager does later depends on it. So `workOn`, which is what
a worker does to the world, knows nothing of events; `attempt` is the same program
with the outcome in its result, and `attemptEvent` is the event made of it.
-/

namespace FileMover

open Framework

inductive EventSeverity
  | debug
  | info
  | warning
  | error
deriving DecidableEq, Repr

inductive EventType
  | serviceStarted
  | serviceStopping
  | jobSubmitted
  | jobStarted
  | jobCompleted
  | jobFailed
  | jobHaltedAfterCommit
  | jobFailedExternal
  | jobRetryScheduled
  | jobRetrySubmitted
  | jobPaused
  | jobResumed
  | jobCancelled
  | subscriberFailed
deriving DecidableEq, Repr

/-- The arguments of `emit`. -/
structure JobEvent where
  type : EventType
  severity : EventSeverity
  jobId : Bytes
  detail : Bytes
deriving DecidableEq, Repr

/-- What a worker finds out between picking a job up and settling it: the outcome and
the error of `execute`, and when the job is due again. -/
structure Attempt where
  outcome : MoveOutcome
  error : Bytes
  due : Option Int
deriving DecidableEq, Repr

def attempt (config : RetryConfig) (id : Bytes) (request : MoveRequest)
    (strategy : MoveStrategy) (nowMs : Int) : Prog Attempt := do
  let (outcome, error) ← execute id request strategy
  if outcome = .abortedBeforeCommit then
    return ⟨outcome, error, ← handleFailure config id error nowMs⟩
  else if outcome = .rejected then
    failPermanently id error
    return ⟨outcome, error, none⟩
  else return ⟨outcome, error, none⟩

theorem workOn_eq_attempt (config : RetryConfig) (id : Bytes) (request : MoveRequest)
    (strategy : MoveStrategy) (nowMs : Int) :
    workOn config id request strategy nowMs =
      (attempt config id request strategy nowMs).bind fun done => .pure done.due := by
  simp only [workOn, attempt, Program.bind_def, Program.bind_assoc]
  congr 1
  funext result
  obtain ⟨outcome, error⟩ := result
  simp only
  split
  · rw [Program.bind_assoc]
    simp only [Program.pure_def, Program.pure_bind, Program.bind_pure]
  · split
    · rw [Program.bind_assoc]
      rfl
    · rfl

/-- The event that a worker publishes when an attempt is over. -/
def attemptEvent (id : Bytes) (done : Attempt) : JobEvent :=
  if done.due.isSome then ⟨.jobRetryScheduled, .warning, id, done.error⟩
  else
    match done.outcome with
    | .completed => ⟨.jobCompleted, .info, id, []⟩
    | .haltedAfterCommit => ⟨.jobHaltedAfterCommit, .error, id, done.error⟩
    | .failedExternal => ⟨.jobFailedExternal, .error, id, done.error⟩
    | .rejected => ⟨.jobFailed, .error, id, done.error⟩
    | .abortedBeforeCommit => ⟨.jobFailed, .error, id, done.error⟩

/-! ## What is being published -/

/-- A manager, with the attempt that each worker is in the middle of. -/
structure Reporting where
  system : System
  attempts : Nat → Prog Attempt

namespace Reporting

/-- The attempts after an event: begun at the pick-up, and one call further with each call
of the worker. -/
def follow (v : Reporting) : ManagerEvent → Nat → Prog Attempt
  | .pickUp n nowMs =>
      match v.system.manager.pickUp with
      | some (id, request, m) =>
          Function.update v.attempts n (attempt m.config id request m.strategy nowMs)
      | none => v.attempts
  | .call n fault =>
      match v.attempts n with
      | .call c next =>
          Function.update v.attempts n (next (perform c.op fault v.system.world).1)
      | .pure _ => v.attempts
  | _ => v.attempts

def act (v : Reporting) (event : ManagerEvent) : Option Reporting :=
  (v.system.act event).map fun t => ⟨t, v.follow event⟩

def started (config : RetryConfig) (strategy : MoveStrategy) (w : World)
    (workers : Nat → Bool) : Reporting :=
  ⟨System.started config strategy w workers, fun _ => .pure ⟨.completed, [], none⟩⟩

/-- The event that a thread publishes where it stands, and the due time that a worker has
recorded: between the last call of an attempt and the section that settles the job, and
before a `cancel` returns `Ok`. -/
def publishes (v : Reporting) (n : Nat) : Option (JobEvent × Option Int) :=
  match v.system.threads n with
  | .working id _ =>
      match v.attempts n with
      | .pure done => some (attemptEvent id done, done.due)
      | .call _ _ => none
  | .cancelActs id _ (.pure (.ok, _)) => some (⟨.jobCancelled, .info, id, []⟩, none)
  | _ => none

end Reporting

end FileMover
