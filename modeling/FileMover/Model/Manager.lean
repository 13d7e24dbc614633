import FileMover.Model.Mover
import Mathlib.Data.Finset.Basic
import Mathlib.Data.List.Sort

/-!
# The job manager

`manager.cpp`: the dispatch state, the critical sections that change it, and the
threads that run them. Between two sections a thread makes store and filesystem
calls with the manager mutex released, so a thread is a position between sections
together with what is left of the program that it runs there.

An event is one section, one call, or the acquisition of the store mutex. Event
publication is left out, and the clock is read as an arbitrary number.
`submit` is the overload with a given id; the other one takes the id from a
sequence in the store and calls this one.
-/

namespace FileMover

open Framework

inductive CommandResult
  | ok
  | unknownJob
  | invalidState
  | notRunning
  | storeError
deriving DecidableEq, Repr

/-- A command that is refused, and the text left in `error`. -/
abbrev Refusal := CommandResult × Bytes

/-- The part of `Config` that the manager reads. -/
structure RetryConfig where
  retryMaxAttempts : Nat
  retryBackoffInitialMs : Nat
  retryBackoffMaxMs : Nat
deriving DecidableEq, Repr

/-! ## What happens between the sections -/

/-- The loop of `backoff_for`. -/
def doubled (maxMs : Nat) : Nat → Nat → Nat
  | 0, delay => delay
  | rounds + 1, delay => if delay < maxMs then doubled maxMs rounds (delay * 2) else delay

def backoffFor (attempts initialMs maxMs : Nat) : Nat :=
  min (doubled maxMs (attempts - 1) initialMs) maxMs

/-- `fail_permanently`. -/
def failPermanently (id reason : Bytes) : Prog Unit := do
  let _ ← recordAttempt id 0 reason
  match ← load .failLoad id with
  | .error _ => return ()
  | .ok none => return ()
  | .ok (some job) =>
      if job.state = .failed then return ()
      else
        let _ ← updateState id .failed (job.updatedAtMs + 1) reason
        return ()

/-- `handle_failure`; the result is the time at which the job is due again, if it is
to run again. -/
def handleFailure (config : RetryConfig) (id failure : Bytes) (nowMs : Int) :
    Prog (Option Int) := do
  match ← loadRetryState id with
  | .error _ => return none
  | .ok none => return none
  | .ok (some state) =>
      -- `unsigned` arithmetic
      let attempts := (state.attempts + 1) % 2 ^ 32
      if attempts < config.retryMaxAttempts then
        let due := nowMs + backoffFor attempts config.retryBackoffInitialMs
          config.retryBackoffMaxMs
        match ← recordAttempt id due failure with
        | .ok () => return some due
        | .error _ => return none
      else
        failPermanently id (lit "gave up after " ++ decimal attempts ++
          lit " attempts: " ++ failure)
        return none

/-- What `run_worker` does between picking a job up and settling it. -/
def workOn (config : RetryConfig) (id : Bytes) (request : MoveRequest)
    (strategy : MoveStrategy) (nowMs : Int) : Prog (Option Int) := do
  let (outcome, error) ← execute id request strategy
  if outcome = .abortedBeforeCommit then handleFailure config id error nowMs
  else if outcome = .rejected then
    failPermanently id error
    return none
  else return none

section Footprints
variable {allowed : Call → Prop} {id : Bytes} {nowMs : Int}
  (reads : ∀ site op, op.readOnly = true → allowed ⟨site, op⟩)
  (counts : ∀ due reason, allowed ⟨.attemptWrite, .countAttempt id due reason⟩)
  (fails : ∀ before after, after.state = .failed →
    allowed ⟨.transitionWrite .failed, .updateJob id before after⟩)
include reads counts fails

theorem uses_failPermanently {reason : Bytes} : (failPermanently id reason).Uses allowed := by
  refine (uses_recordAttempt (counts _ _)).bind fun _ => ?_
  refine (uses_load (reads _ _ rfl)).bind fun loaded => ?_
  match loaded with
  | .error message => trivial
  | .ok none => trivial
  | .ok (some job) =>
      simp only
      split
      · trivial
      · exact (uses_updateState (reads _ _ rfl) fun _ _ h =>
          fails _ _ (Job.transition_state h)).bind fun _ => trivial

theorem uses_handleFailure {config : RetryConfig} {failure : Bytes} :
    (handleFailure config id failure nowMs).Uses allowed := by
  refine Program.Uses.bind (uses_loadRetryState (reads _ _ rfl)) fun loaded => ?_
  match loaded with
  | .error message => trivial
  | .ok none => trivial
  | .ok (some state) =>
      simp only
      split
      · refine (uses_recordAttempt (counts _ _)).bind fun result => ?_
        cases result with
        | error message => trivial
        | ok _ => trivial
      · exact (uses_failPermanently reads counts fails).bind fun _ => trivial

/-- What `run_worker` does with the outcome. -/
theorem uses_afterExecute {config : RetryConfig} (outcome : MoveOutcome) (error : Bytes) :
    (if outcome = .abortedBeforeCommit then handleFailure config id error nowMs
      else if outcome = .rejected then do
        failPermanently id error
        return none
      else return none).Uses allowed := by
  split
  · exact uses_handleFailure reads counts fails
  · split
    · exact (uses_failPermanently reads counts fails).bind fun _ => trivial
    · trivial

end Footprints

def cancelledByOperator : Bytes := lit "cancelled by operator"

/-- The store calls of `cancel`. -/
def cancelInStore (id : Bytes) : Prog Refusal := do
  match ← load .cancelLoad id with
  | .error message => return (.unknownJob, message)
  | .ok none => return (.unknownJob, [])
  | .ok (some job) =>
      if job.state ≠ .queued then
        return (.invalidState, lit "manager: job " ++ quoted id ++ lit " is " ++
          job.state.toToken ++ lit " and cannot be cancelled")
      else
        match ← updateState id .failed (job.updatedAtMs + 1) cancelledByOperator with
        | .error message => return (.storeError, message)
        | .ok () => return (.ok, [])

def noSuchJobHere (id : Bytes) : Bytes := lit "manager: no such job " ++ quoted id

/-- `retry` looks at the job that is to be retried. -/
def loadForRetry (id : Bytes) : Prog (Except Refusal Unit) := do
  match ← load .retriedLoad id with
  | .error _ => return .error (.unknownJob, noSuchJobHere id)
  | .ok none => return .error (.unknownJob, noSuchJobHere id)
  | .ok (some job) =>
      if job.state ≠ .failed then
        return .error (.invalidState, lit "manager: job " ++ quoted id ++ lit " is " ++
          job.state.toToken ++ lit "; only a FAILED job can be retried")
      else return .ok ()

/-- Whether a candidate id is taken in the durable record. -/
def probeCandidate (candidate : Bytes) : Prog (Except Bytes Bool) := do
  match ← load .candidateLoad candidate with
  | .error message => return .error message
  | .ok job => return .ok job.isSome

/-- Where `marker` occurs last. -/
def lastMarker (marker : Bytes) : Bytes → Option Nat
  | [] => if marker = [] then some 0 else none
  | b :: rest =>
      match lastMarker marker rest with
      | some at' => some (at' + 1)
      | none => if (b :: rest).take marker.length = marker then some 0 else none

def isDigit (b : UInt8) : Bool := 48 ≤ b && b ≤ 57

def retryMarker : Bytes := lit "-retry-"

/-- `strip_retry_suffix`. -/
def stripRetrySuffix (id : Bytes) : Bytes :=
  match lastMarker retryMarker id with
  | none => id
  | some at' =>
      let digits := id.drop (at' + retryMarker.length)
      if digits = [] then id
      else if digits.all isDigit then id.take at'
      else id

def retryCandidate (id : Bytes) (n : Nat) : Bytes :=
  stripRetrySuffix id ++ retryMarker ++ decimal n

example : stripRetrySuffix (lit "job-7-retry-12") = lit "job-7" := by decide

example : stripRetrySuffix (lit "backup-retry-x") = lit "backup-retry-x" := by decide

/-- The job that `submit` and `retry` put on record. -/
def freshJob (id : Bytes) (request : MoveRequest) (nowMs : Int) : Job :=
  Job.new id (request.sourceDir ++ lit "/" ++ request.sourceName)
    (request.destDir ++ lit "/" ++ request.destName) nowMs

/-! ## The dispatch state -/

structure Manager where
  config : RetryConfig
  strategy : MoveStrategy
  runnable : List Bytes
  requests : AList fun _ : Bytes => MoveRequest
  /-- Job and earliest run time. -/
  waiting : AList fun _ : Bytes => Int
  paused : Finset Bytes
  active : Finset Bytes
  /-- Ids claimed by a command that has not published its job yet. -/
  pending : Finset Bytes
  running : Bool
  stopping : Bool

namespace Manager

def notRunning : Refusal := (.notRunning, lit "manager: not running")

/-- The first section of `submit`. -/
def claimSubmit (m : Manager) (id : Bytes) : Except Refusal Manager :=
  if m.running = false then .error notRunning
  else if id ∈ m.requests ∨ id ∈ m.pending then
    .error (.invalidState, lit "manager: job " ++ quoted id ++ lit " already exists")
  else .ok { m with pending := insert id m.pending }

/-- The last section of `submit` and of `retry`. -/
def publish (m : Manager) (id : Bytes) (request : MoveRequest) (recorded : Bool) : Manager :=
  if recorded then
    { m with
      pending := m.pending.erase id
      requests := m.requests.insert id request
      runnable := m.runnable ++ [id] }
  else { m with pending := m.pending.erase id }

def pause (m : Manager) (id : Bytes) : Except Refusal Manager :=
  if m.running = false then .error notRunning
  else if id ∉ m.requests then .error (.unknownJob, noSuchJobHere id)
  else if id ∈ m.active then
    .error (.invalidState, lit "manager: job " ++ quoted id ++
      lit " is already in flight and cannot be paused mid-move")
  else .ok { m with
    runnable := m.runnable.erase id
    waiting := m.waiting.erase id
    paused := insert id m.paused }

def resume (m : Manager) (id : Bytes) : Except Refusal Manager :=
  if m.running = false then .error notRunning
  else if id ∉ m.requests then .error (.unknownJob, noSuchJobHere id)
  else if id ∉ m.paused then
    .error (.invalidState, lit "manager: job " ++ quoted id ++ lit " is not paused")
  else .ok { m with
    paused := m.paused.erase id
    runnable := m.runnable ++ [id] }

/-- The first section of `cancel`; the flag says whether the job was runnable. -/
def claimCancel (m : Manager) (id : Bytes) : Except Refusal (Bool × Manager) :=
  if m.running = false then .error notRunning
  else if id ∉ m.requests then .error (.unknownJob, noSuchJobHere id)
  else if id ∈ m.active then
    .error (.invalidState, lit "manager: job " ++ quoted id ++
      lit (" is in flight; a move past its commit point is not interruptible"))
  else .ok (decide (id ∈ m.runnable), { m with
    runnable := m.runnable.erase id
    waiting := m.waiting.erase id
    paused := m.paused.erase id })

/-- The second section of `cancel`, if there is one. -/
def settleCancel (m : Manager) (id : Bytes) (wasRunnable : Bool)
    (outcome : CommandResult) : Manager :=
  if outcome ≠ .ok ∧ wasRunnable = true then { m with runnable := m.runnable ++ [id] } else m

/-- The first section of `retry`. -/
def claimRetry (m : Manager) (id : Bytes) : Except Refusal MoveRequest :=
  if m.running = false then .error notRunning
  else
    match m.requests.lookup id with
    | none => .error (.unknownJob, noSuchJobHere id)
    | some request => .ok request

/-- The section of `retry` that claims a candidate, if it is free. -/
def claimCandidate (m : Manager) (candidate : Bytes) : Option Manager :=
  if candidate ∉ m.requests ∧ candidate ∉ m.pending then
    some { m with pending := insert candidate m.pending }
  else none

def emptyRequest : MoveRequest := ⟨[], [], [], []⟩

/-- The pick-up section of a worker. `requests[job_id]` inserts an empty request if
there is none. -/
def pickUp (m : Manager) : Option (Bytes × MoveRequest × Manager) :=
  match m.runnable with
  | [] => none
  | id :: rest =>
      match m.requests.lookup id with
      | some request =>
          some (id, request, { m with runnable := rest, active := insert id m.active })
      | none =>
          some (id, emptyRequest,
            { m with
              runnable := rest
              active := insert id m.active
              requests := m.requests.insert id emptyRequest })

/-- The settle section of a worker. -/
def settle (m : Manager) (id : Bytes) (due : Option Int) : Manager :=
  match due with
  | none => { m with active := m.active.erase id }
  | some dueMs =>
      { m with active := m.active.erase id, waiting := m.waiting.insert id dueMs }

/-- The jobs that `pump` moves, in the order of the map. -/
def due (m : Manager) (nowMs : Int) : List Bytes :=
  (m.waiting.keys.filter fun id =>
    (m.waiting.lookup id).any (· ≤ nowMs) && decide (id ∉ m.paused)).insertionSort (· ≤ ·)

def pump (m : Manager) (nowMs : Int) : Manager :=
  if m.running = false then m
  else { m with
    waiting := (m.due nowMs).foldl (fun waiting id => waiting.erase id) m.waiting
    runnable := m.runnable ++ m.due nowMs }

/-! What a section that goes through has found and done. -/

variable {m m' : Manager} {id : Bytes} {request : MoveRequest}

theorem claimSubmit_eq (h : m.claimSubmit id = .ok m') :
    id ∉ m.requests ∧ id ∉ m.pending ∧ m' = { m with pending := insert id m.pending } := by
  unfold claimSubmit at h
  split_ifs at h with _ hknown
  cases h
  rw [not_or] at hknown
  exact ⟨hknown.1, hknown.2, rfl⟩

theorem claimCandidate_eq (h : m.claimCandidate id = some m') :
    id ∉ m.requests ∧ id ∉ m.pending ∧ m' = { m with pending := insert id m.pending } := by
  unfold claimCandidate at h
  split_ifs at h with hfree
  cases h
  exact ⟨hfree.1, hfree.2, rfl⟩

theorem pause_eq (h : m.pause id = .ok m') :
    id ∈ m.requests ∧ id ∉ m.active ∧ m' = { m with
      runnable := m.runnable.erase id
      waiting := m.waiting.erase id
      paused := insert id m.paused } := by
  unfold pause at h
  split_ifs at h with _ hknown hactive
  cases h
  exact ⟨hknown, hactive, rfl⟩

theorem resume_eq (h : m.resume id = .ok m') :
    id ∈ m.requests ∧ id ∈ m.paused ∧ m' = { m with
      paused := m.paused.erase id
      runnable := m.runnable ++ [id] } := by
  unfold resume at h
  split_ifs at h with _ hknown hpaused
  cases h
  exact ⟨hknown, hpaused, rfl⟩

theorem claimCancel_eq {wasRunnable : Bool} (h : m.claimCancel id = .ok (wasRunnable, m')) :
    id ∈ m.requests ∧ id ∉ m.active ∧ wasRunnable = decide (id ∈ m.runnable) ∧
      m' = { m with
        runnable := m.runnable.erase id
        waiting := m.waiting.erase id
        paused := m.paused.erase id } := by
  unfold claimCancel at h
  split_ifs at h with _ hknown hactive
  cases h
  exact ⟨hknown, hactive, rfl, rfl⟩

/-- What the pick-up section does, apart from the request it yields. -/
theorem pickUp_eq (h : m.pickUp = some (id, request, m')) :
    ∃ rest requests, m.runnable = id :: rest ∧ (id ∈ m.requests → requests = m.requests) ∧
      m' = { m with
        runnable := rest
        active := insert id m.active
        requests := requests } := by
  unfold pickUp at h
  split at h
  · cases h
  · rename_i front rest hrunnable
    split at h
    · cases h
      exact ⟨rest, m.requests, hrunnable, fun _ => rfl, rfl⟩
    · rename_i hnone
      cases h
      refine ⟨rest, _, hrunnable, fun hmem => ?_, rfl⟩
      exact absurd hmem (AList.lookup_eq_none.mp hnone)

end Manager

/-! ## Threads -/

inductive Thread
  /-- Not in a command. -/
  | idle
  | returned (result : CommandResult) (error : Bytes)
  /-- A worker at `work_ready.wait`. -/
  | waiting
  | exited
  /-- A worker between picking a job up and settling it. -/
  | working (id : Bytes) (rest : Prog (Option Int))
  /-- `submit`, waiting for the store mutex. -/
  | submitWaits (id : Bytes) (request : MoveRequest) (nowMs : Int)
  | submitRecords (id : Bytes) (request : MoveRequest) (rest : Prog (Except Bytes Unit))
  | submitPublishes (id : Bytes) (request : MoveRequest) (recorded : Except Bytes Unit)
  | cancelWaits (id : Bytes) (wasRunnable : Bool)
  | cancelActs (id : Bytes) (wasRunnable : Bool) (rest : Prog Refusal)
  | retryWaits (id : Bytes) (move : MoveRequest) (nowMs : Int)
  | retryLoads (id : Bytes) (move : MoveRequest) (nowMs : Int)
      (rest : Prog (Except Refusal Unit))
  | retryProbes (id : Bytes) (move : MoveRequest) (nowMs : Int) (n : Nat)
      (rest : Prog (Except Bytes Bool))
  | retryRecords (candidate : Bytes) (move : MoveRequest) (rest : Prog (Except Bytes Unit))

namespace Thread

/-- May begin a command. -/
def isFree : Thread → Bool
  | .idle => true
  | .returned _ _ => true
  | _ => false

/-- The call that a thread is about to make, and where the reply takes it. -/
def next : Thread → Option (Σ c : Call, Reply c → Thread)
  | .working id (.call c rest) => some ⟨c, fun reply => .working id (rest reply)⟩
  | .submitRecords id request (.call c rest) =>
      some ⟨c, fun reply => .submitRecords id request (rest reply)⟩
  | .cancelActs id wasRunnable (.call c rest) =>
      some ⟨c, fun reply => .cancelActs id wasRunnable (rest reply)⟩
  | .retryLoads id move nowMs (.call c rest) =>
      some ⟨c, fun reply => .retryLoads id move nowMs (rest reply)⟩
  | .retryProbes id move nowMs n (.call c rest) =>
      some ⟨c, fun reply => .retryProbes id move nowMs n (rest reply)⟩
  | .retryRecords candidate move (.call c rest) =>
      some ⟨c, fun reply => .retryRecords candidate move (rest reply)⟩
  | _ => none

/-- Inside `retry`, before a candidate is claimed. -/
def isRetrying : Thread → Bool
  | .retryLoads _ _ _ _ => true
  | .retryProbes _ _ _ _ _ => true
  | _ => false

/-- The job that a thread is about to publish, and whether it is on record. -/
def publishes : Thread → Option (Bytes × MoveRequest × Except Bytes Unit)
  | .submitPublishes id request recorded => some (id, request, recorded)
  | .retryRecords candidate move (.pure recorded) => some (candidate, move, recorded)
  | _ => none

/-- What a thread that waits for the store mutex does with it. -/
def locked : Thread → Option Thread
  | .submitWaits id request nowMs =>
      some (.submitRecords id request (recordIntent (freshJob id request nowMs) []))
  | .cancelWaits id wasRunnable => some (.cancelActs id wasRunnable (cancelInStore id))
  | .retryWaits id move nowMs => some (.retryLoads id move nowMs (loadForRetry id))
  | _ => none

end Thread

/-- `retry` tries its `n`-th candidate. -/
def retryTries (id : Bytes) (move : MoveRequest) (nowMs : Int) (n : Nat) : Thread :=
  .retryProbes id move nowMs n (probeCandidate (retryCandidate id n))

/-! ## The system -/

structure System where
  manager : Manager
  world : World
  threads : Nat → Thread
  /-- Which thread holds the store mutex. -/
  storeMutex : Option Nat

inductive ManagerEvent
  | submit (n : Nat) (id : Bytes) (request : MoveRequest) (nowMs : Int)
  | pause (n : Nat) (id : Bytes)
  | resume (n : Nat) (id : Bytes)
  | cancel (n : Nat) (id : Bytes)
  | retry (n : Nat) (id : Bytes) (nowMs : Int)
  | pump (nowMs : Int)
  | pickUp (n : Nat) (nowMs : Int)
  /-- A worker finds the manager stopping and nothing to do. -/
  | exit (n : Nat)
  | lock (n : Nat)
  | call (n : Nat) (fault : Option Fault)
  /-- The section that follows a finished stretch of calls. -/
  | proceed (n : Nat)
  | setStrategy (strategy : MoveStrategy)
  | shutdown
  /-- `start` on a stopped manager; its workers are the given threads. -/
  | start (workers : Nat → Bool)

/-- The thread that an event is a step of, if it is one thread's. -/
def ManagerEvent.actor : ManagerEvent → Option Nat
  | .submit n _ _ _ | .pause n _ | .resume n _ | .cancel n _ | .retry n _ _ => some n
  | .pickUp n _ | .exit n | .lock n | .call n _ | .proceed n => some n
  | .pump _ | .setStrategy _ | .shutdown | .start _ => none

namespace System

def setThread (s : System) (n : Nat) (thread : Thread) : System :=
  { s with threads := Function.update s.threads n thread }

/-- A command of one section. -/
def command (s : System) (n : Nat) (result : Except Refusal Manager) : System :=
  match result with
  | .error (outcome, error) => s.setThread n (.returned outcome error)
  | .ok m => { s with manager := m }.setThread n (.returned .ok [])

def recordedOk : Except Bytes Unit → Bool
  | .ok _ => true
  | .error _ => false

/-- `submit` and `retry` after their last section. -/
def afterPublish (recorded : Except Bytes Unit) : Thread :=
  match recorded with
  | .ok _ => .returned .ok []
  | .error message => .returned .storeError message

/-- The section, if any, that follows the calls of a thread, and where it leaves the
thread. -/
def proceed (s : System) (n : Nat) : Option System :=
  match s.threads n with
  | .working id (.pure due) =>
      some ({ s with manager := s.manager.settle id due }.setThread n .waiting)
  | .submitRecords id request (.pure recorded) =>
      some ({ s with storeMutex := none }.setThread n
        (.submitPublishes id request recorded))
  | .submitPublishes id request recorded =>
      some ({ s with manager := s.manager.publish id request (recordedOk recorded) }.setThread n
        (afterPublish recorded))
  | .cancelActs id wasRunnable (.pure (outcome, error)) =>
      some ({ s with
        manager := s.manager.settleCancel id wasRunnable outcome
        storeMutex := none }.setThread n (.returned outcome error))
  | .retryLoads id move nowMs (.pure result) =>
      match result with
      | .error (outcome, error) =>
          some ({ s with storeMutex := none }.setThread n (.returned outcome error))
      | .ok _ => some (s.setThread n (retryTries id move nowMs 1))
  | .retryProbes id move nowMs k (.pure result) =>
      match result with
      | .error error =>
          some ({ s with storeMutex := none }.setThread n (.returned .storeError error))
      | .ok true => some (s.setThread n (retryTries id move nowMs (k + 1)))
      | .ok false =>
          match s.manager.claimCandidate (retryCandidate id k) with
          | some m =>
              some ({ s with manager := m }.setThread n
                (.retryRecords (retryCandidate id k) move
                  (recordIntent (freshJob (retryCandidate id k) move nowMs) id)))
          | none => some (s.setThread n (retryTries id move nowMs (k + 1)))
  | .retryRecords candidate move (.pure recorded) =>
      some ({ s with
        manager := s.manager.publish candidate move (recordedOk recorded)
        storeMutex := none }.setThread n (afterPublish recorded))
  | _ => none

def act (s : System) : ManagerEvent → Option System
  | .submit n id request nowMs =>
      if (s.threads n).isFree then
        match s.manager.claimSubmit id with
        | .error (outcome, error) => some (s.setThread n (.returned outcome error))
        | .ok m =>
            some ({ s with manager := m }.setThread n (.submitWaits id request nowMs))
      else none
  | .pause n id =>
      if (s.threads n).isFree then some (s.command n (s.manager.pause id)) else none
  | .resume n id =>
      if (s.threads n).isFree then some (s.command n (s.manager.resume id)) else none
  | .cancel n id =>
      if (s.threads n).isFree then
        match s.manager.claimCancel id with
        | .error (outcome, error) => some (s.setThread n (.returned outcome error))
        | .ok (wasRunnable, m) =>
            some ({ s with manager := m }.setThread n (.cancelWaits id wasRunnable))
      else none
  | .retry n id nowMs =>
      if (s.threads n).isFree then
        match s.manager.claimRetry id with
        | .error (outcome, error) => some (s.setThread n (.returned outcome error))
        | .ok move => some (s.setThread n (.retryWaits id move nowMs))
      else none
  | .pump nowMs => some { s with manager := s.manager.pump nowMs }
  | .pickUp n nowMs =>
      match s.threads n, s.manager.pickUp with
      | .waiting, some (id, request, m) =>
          some ({ s with manager := m }.setThread n
            (.working id (workOn m.config id request m.strategy nowMs)))
      | _, _ => none
  | .exit n =>
      match s.threads n with
      | .waiting =>
          if s.manager.runnable = [] ∧ s.manager.stopping = true then
            some (s.setThread n .exited)
          else none
      | _ => none
  | .lock n =>
      match (s.threads n).locked, s.storeMutex with
      | some thread, none => some ({ s with storeMutex := some n }.setThread n thread)
      | _, _ => none
  | .call n fault =>
      match (s.threads n).next with
      | some ⟨c, rest⟩ =>
          some ({ s with world := (perform c.op fault s.world).2 }.setThread n
            (rest (perform c.op fault s.world).1))
      | none => none
  | .proceed n => s.proceed n
  | .setStrategy strategy =>
      some { s with manager := { s.manager with strategy := strategy } }
  | .shutdown =>
      if s.manager.running then
        some { s with manager := { s.manager with running := false, stopping := true } }
      else none
  | .start workers =>
      if s.manager.running then none
      else some
        { s with
          manager := { s.manager with running := true, stopping := false }
          threads := fun n =>
            if workers n && (s.threads n).isFree then .waiting else s.threads n }

/-- A manager that has just been started on this store: some threads are workers, the
others issue commands. -/
def started (config : RetryConfig) (strategy : MoveStrategy) (w : World)
    (workers : Nat → Bool) : System where
  manager :=
    { config := config
      strategy := strategy
      runnable := []
      requests := ∅
      waiting := ∅
      paused := ∅
      active := ∅
      pending := ∅
      running := true
      stopping := false }
  world := w
  threads n := if workers n then .waiting else .idle
  storeMutex := none

end System

/-! ## What an event can do -/

/-- A thread is about to make this call, and goes on like this. -/
inductive Calling : Thread → (c : Call) → (Reply c → Thread) → Prop where
  | working {id : Bytes} {c : Call} {rest : Reply c → Prog (Option Int)} :
      Calling (.working id (.call c rest)) c fun reply => .working id (rest reply)
  | submit {id : Bytes} {request : MoveRequest} {c : Call}
      {rest : Reply c → Prog (Except Bytes Unit)} :
      Calling (.submitRecords id request (.call c rest)) c
        fun reply => .submitRecords id request (rest reply)
  | cancel {id : Bytes} {wasRunnable : Bool} {c : Call} {rest : Reply c → Prog Refusal} :
      Calling (.cancelActs id wasRunnable (.call c rest)) c
        fun reply => .cancelActs id wasRunnable (rest reply)
  | retryLoad {id : Bytes} {move : MoveRequest} {nowMs : Int} {c : Call}
      {rest : Reply c → Prog (Except Refusal Unit)} :
      Calling (.retryLoads id move nowMs (.call c rest)) c
        fun reply => .retryLoads id move nowMs (rest reply)
  | retryProbe {id : Bytes} {move : MoveRequest} {nowMs : Int} {n : Nat} {c : Call}
      {rest : Reply c → Prog (Except Bytes Bool)} :
      Calling (.retryProbes id move nowMs n (.call c rest)) c
        fun reply => .retryProbes id move nowMs n (rest reply)
  | retryRecord {id : Bytes} {move : MoveRequest} {c : Call}
      {rest : Reply c → Prog (Except Bytes Unit)} :
      Calling (.retryRecords id move (.call c rest)) c
        fun reply => .retryRecords id move (rest reply)

theorem Thread.next_calling {thread : Thread} {c : Call} {rest : Reply c → Thread}
    (h : thread.next = some ⟨c, rest⟩) : Calling thread c rest := by
  unfold Thread.next at h
  split at h
  all_goals cases h
  · exact .working
  · exact .submit
  · exact .cancel
  · exact .retryLoad
  · exact .retryProbe
  · exact .retryRecord

/-- A step of one thread that leaves dispatch state and world alone. -/
inductive QuietStep : Thread → Thread → Prop where
  | refused {thread : Thread} {outcome : CommandResult} {error : Bytes}
      (free : thread.isFree = true) : QuietStep thread (.returned outcome error)
  | claimedRetry {thread : Thread} {id : Bytes} {move : MoveRequest} {nowMs : Int}
      (free : thread.isFree = true) : QuietStep thread (.retryWaits id move nowMs)
  | exited : QuietStep .waiting .exited
  | locked {thread thread' : Thread} (h : thread.locked = some thread') :
      QuietStep thread thread'
  | recorded {id : Bytes} {request : MoveRequest} {recorded : Except Bytes Unit} :
      QuietStep (.submitRecords id request (.pure recorded))
        (.submitPublishes id request recorded)
  | refusedRetry {thread : Thread} {outcome : CommandResult} {error : Bytes}
      (retrying : thread.isRetrying = true) : QuietStep thread (.returned outcome error)
  | triesRetry {thread : Thread} {id : Bytes} {move : MoveRequest} {nowMs : Int} {n : Nat}
      (retrying : thread.isRetrying = true) :
      QuietStep thread (retryTries id move nowMs n)

/-- Everything that an event can do to the system. -/
inductive SystemStep (s : System) : ManagerEvent → System → Prop where
  | quiet {event : ManagerEvent} {n : Nat} {thread : Thread} {storeMutex : Option Nat}
      (actor : event.actor = some n) (h : QuietStep (s.threads n) thread) :
      SystemStep s event ({ s with storeMutex := storeMutex }.setThread n thread)
  | called {n : Nat} {fault : Option Fault} {c : Call} {rest : Reply c → Thread}
      (calling : Calling (s.threads n) c rest) :
      SystemStep s (.call n fault)
        ({ s with world := (perform c.op fault s.world).2 }.setThread n
          (rest (perform c.op fault s.world).1))
  | paused {n : Nat} {id : Bytes} {m : Manager} (free : (s.threads n).isFree = true)
      (h : s.manager.pause id = .ok m) :
      SystemStep s (.pause n id) ({ s with manager := m }.setThread n (.returned .ok []))
  | resumed {n : Nat} {id : Bytes} {m : Manager} (free : (s.threads n).isFree = true)
      (h : s.manager.resume id = .ok m) :
      SystemStep s (.resume n id) ({ s with manager := m }.setThread n (.returned .ok []))
  | pumped {nowMs : Int} :
      SystemStep s (.pump nowMs) { s with manager := s.manager.pump nowMs }
  | tuned {event : ManagerEvent} {strategy : MoveStrategy} {running stopping : Bool}
      (actor : event.actor = none) :
      SystemStep s event { s with manager :=
        { s.manager with strategy := strategy, running := running, stopping := stopping } }
  | restarted {workers : Nat → Bool} :
      SystemStep s (.start workers)
        { s with
          manager := { s.manager with running := true, stopping := false }
          threads := fun n =>
            if workers n && (s.threads n).isFree then .waiting else s.threads n }
  | claimedSubmit {n : Nat} {id : Bytes} {request : MoveRequest} {nowMs : Int} {m : Manager}
      (free : (s.threads n).isFree = true) (h : s.manager.claimSubmit id = .ok m) :
      SystemStep s (.submit n id request nowMs)
        ({ s with manager := m }.setThread n (.submitWaits id request nowMs))
  | claimedCancel {n : Nat} {id : Bytes} {wasRunnable : Bool} {m : Manager}
      (free : (s.threads n).isFree = true)
      (h : s.manager.claimCancel id = .ok (wasRunnable, m)) :
      SystemStep s (.cancel n id)
        ({ s with manager := m }.setThread n (.cancelWaits id wasRunnable))
  | claimedCandidate {n : Nat} {id : Bytes} {move : MoveRequest} {nowMs : Int} {k : Nat}
      {m : Manager} (thread : s.threads n = .retryProbes id move nowMs k (.pure (.ok false)))
      (h : s.manager.claimCandidate (retryCandidate id k) = some m) :
      SystemStep s (.proceed n)
        ({ s with manager := m }.setThread n
          (.retryRecords (retryCandidate id k) move
            (recordIntent (freshJob (retryCandidate id k) move nowMs) id)))
  | published {n : Nat} {id : Bytes} {request : MoveRequest} {recorded : Except Bytes Unit}
      {storeMutex : Option Nat}
      (h : (s.threads n).publishes = some (id, request, recorded)) :
      SystemStep s (.proceed n)
        ({ s with
          manager := s.manager.publish id request (System.recordedOk recorded)
          storeMutex := storeMutex }.setThread n (System.afterPublish recorded))
  | settledCancel {n : Nat} {id : Bytes} {wasRunnable : Bool} {outcome : CommandResult}
      {error : Bytes} (thread : s.threads n = .cancelActs id wasRunnable (.pure (outcome, error))) :
      SystemStep s (.proceed n)
        ({ s with
          manager := s.manager.settleCancel id wasRunnable outcome
          storeMutex := none }.setThread n (.returned outcome error))
  | pickedUp {n : Nat} {nowMs : Int} {id : Bytes} {request : MoveRequest} {m : Manager}
      (thread : s.threads n = .waiting) (h : s.manager.pickUp = some (id, request, m)) :
      SystemStep s (.pickUp n nowMs)
        ({ s with manager := m }.setThread n
          (.working id (workOn m.config id request m.strategy nowMs)))
  | settled {n : Nat} {id : Bytes} {due : Option Int}
      (thread : s.threads n = .working id (.pure due)) :
      SystemStep s (.proceed n)
        ({ s with manager := s.manager.settle id due }.setThread n .waiting)

theorem systemStep_command {s : System} {n : Nat} {event : ManagerEvent}
    {result : Except Refusal Manager} (actor : event.actor = some n)
    (free : (s.threads n).isFree = true)
    (done : ∀ m, result = .ok m →
      SystemStep s event ({ s with manager := m }.setThread n (.returned .ok []))) :
    SystemStep s event (s.command n result) := by
  cases result with
  | error refused => exact .quiet actor (.refused free)
  | ok m => exact done m rfl

theorem systemStep_proceed {s t : System} {n : Nat} (h : s.proceed n = some t) :
    SystemStep s (.proceed n) t := by
  unfold System.proceed at h
  split at h
  · rename_i thread
    cases h
    exact .settled thread
  · rename_i thread
    cases h
    refine .quiet rfl ?_
    rw [thread]
    exact .recorded
  · rename_i thread
    cases h
    refine .published ?_
    rw [thread]
    rfl
  · rename_i thread
    cases h
    exact .settledCancel thread
  · rename_i thread
    split at h
    · cases h
      exact .quiet rfl (.refusedRetry (by rw [thread]; rfl))
    · cases h
      exact .quiet rfl (.triesRetry (by rw [thread]; rfl))
  · rename_i thread
    split at h
    · cases h
      exact .quiet rfl (.refusedRetry (by rw [thread]; rfl))
    · cases h
      exact .quiet rfl (.triesRetry (by rw [thread]; rfl))
    · split at h
      · rename_i hclaim
        cases h
        exact .claimedCandidate thread hclaim
      · cases h
        exact .quiet rfl (.triesRetry (by rw [thread]; rfl))
  · rename_i thread
    cases h
    refine .published ?_
    rw [thread]
    rfl
  · cases h

theorem systemStep {s t : System} {event : ManagerEvent} (h : s.act event = some t) :
    SystemStep s event t := by
  cases event with
  | submit n id request nowMs =>
      simp only [System.act] at h
      split at h
      · rename_i free
        split at h
        · cases h
          exact .quiet rfl (.refused free)
        · rename_i hclaim
          cases h
          exact .claimedSubmit free hclaim
      · cases h
  | pause n id =>
      simp only [System.act] at h
      split at h
      · rename_i free
        cases h
        exact systemStep_command rfl free fun m hm => .paused free hm
      · cases h
  | resume n id =>
      simp only [System.act] at h
      split at h
      · rename_i free
        cases h
        exact systemStep_command rfl free fun m hm => .resumed free hm
      · cases h
  | cancel n id =>
      simp only [System.act] at h
      split at h
      · rename_i free
        split at h
        · cases h
          exact .quiet rfl (.refused free)
        · rename_i hclaim
          cases h
          exact .claimedCancel free hclaim
      · cases h
  | retry n id nowMs =>
      simp only [System.act] at h
      split at h
      · rename_i free
        split at h
        · cases h
          exact .quiet rfl (.refused free)
        · cases h
          exact .quiet rfl (.claimedRetry free)
      · cases h
  | pump nowMs =>
      cases h
      exact .pumped
  | pickUp n nowMs =>
      simp only [System.act] at h
      split at h
      · rename_i thread hpick
        cases h
        exact .pickedUp thread hpick
      · cases h
  | exit n =>
      simp only [System.act] at h
      split at h
      · rename_i thread
        split at h
        · cases h
          refine .quiet rfl ?_
          rw [thread]
          exact .exited
        · cases h
      · cases h
  | lock n =>
      simp only [System.act] at h
      split at h
      · rename_i hlocked _
        cases h
        exact .quiet rfl (.locked hlocked)
      · cases h
  | call n fault =>
      simp only [System.act] at h
      split at h
      · rename_i hnext
        cases h
        exact .called (Thread.next_calling hnext)
      · cases h
  | proceed n => exact systemStep_proceed h
  | setStrategy strategy =>
      cases h
      exact .tuned rfl
  | shutdown =>
      simp only [System.act] at h
      split at h
      · cases h
        exact .tuned rfl
      · cases h
  | start workers =>
      simp only [System.act] at h
      split at h
      · cases h
      · cases h
        exact .restarted

theorem System.threads_setThread_self {s : System} {n : Nat} {thread : Thread} :
    (s.setThread n thread).threads n = thread :=
  Function.update_self n _ _

theorem System.threads_setThread_of_ne {s : System} {n k : Nat} {thread : Thread}
    (h : k ≠ n) : (s.setThread n thread).threads k = s.threads k :=
  Function.update_of_ne h _ _

/-- A thread whose turn it is not stays where it is. -/
theorem SystemStep.others {s t : System} {event : ManagerEvent} (step : SystemStep s event t)
    {k : Nat} (other : event.actor ≠ some k) (running : ∀ workers, event ≠ .start workers) :
    t.threads k = s.threads k := by
  have hne : ∀ {n}, event.actor = some n → k ≠ n := by
    rintro n hn rfl
    exact other hn
  cases step with
  | quiet actor h => exact System.threads_setThread_of_ne (hne actor)
  | pumped | tuned => rfl
  | @restarted workers => exact absurd rfl (running workers)
  | _ => exact System.threads_setThread_of_ne (hne rfl)

end FileMover
