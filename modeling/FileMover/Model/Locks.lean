import FileMover.Framework.Monitor
import FileMover.Model.Frontend
import FileMover.Model.Reports

/-!
# The operations of the manager, with their locks

Each operation of `JobManager` as the sequence of what it does: mutexes taken and
given back, dispatch state read and written, store calls, events published. What the
dispatch state is, and what the calls answer, is a reply, so a path through the tree
is a path through the code.

A guard of the source is `holding`: the mutex is given back wherever the guarded part
ends. The loops of `retry` and of a worker have no bound in the source; here they come
with one, and where it is reached the path does not go on, which `outOfRounds` does by
having no reply. Every path of the source is a path here, for some bound.

The reply to a publication is what the subscribers do about it: the operations that
they call, in order.
-/

namespace FileMover.Locks

open Framework

inductive Mutex
  /-- `mutex`. -/
  | manager
  | store
deriving DecidableEq, Repr

/-- Whose `JobStore` a call goes through. -/
inductive Connection
  /-- The manager's own one, which the commands share. -/
  | commands
  | worker
deriving DecidableEq, Repr

inductive Operation
  | start
  | shutdown
  | submitNew (request : MoveRequest)
  | submit (id : Bytes) (request : MoveRequest)
  | pause (id : Bytes)
  | resume (id : Bytes)
  | cancel (id : Bytes)
  | retry (id : Bytes)
  | pump
  | runWorker

inductive Action
  | acquire (mutex : Mutex)
  | release (mutex : Mutex)
  | look
  | change (m : Manager)
  | now
  | openStore (connection : Connection)
  | closeStore (connection : Connection)
  | nextSequence
  | call (connection : Connection) (c : Call)
  /-- The threads of the workers are made, or joined. -/
  | spawn
  | join
  /-- Whether a publisher is installed. -/
  | publisher
  | publish (event : JobEvent)
  | outOfRounds

abbrev Result : Action → Type
  | .look => Manager
  | .now => Int
  | .openStore _ => Except Bytes Unit
  | .nextSequence => Except Bytes Nat
  | .call _ c => Reply c
  | .publisher => Bool
  | .publish _ => List Operation
  | .outOfRounds => Empty
  | _ => Unit

abbrev LockProg := Program Action Result

def perform (action : Action) : LockProg (Result action) := .call action .pure

/-- A scope with a guard. -/
def holding {α : Type} (mutex : Mutex) (body : LockProg α) : LockProg α := do
  perform (.acquire mutex)
  let value ← body
  perform (.release mutex)
  return value

/-- Store and filesystem calls. -/
def calls {α : Type} (connection : Connection) : Prog α → LockProg α
  | .pure value => .pure value
  | .call c next => .call (.call connection c) fun reply => calls connection (next reply)

def emit (event : JobEvent) : LockProg Unit := do
  if ← perform .publisher then
    let _ ← perform (.publish event)
    return ()
  else return ()

/-! ## Lifecycle -/

def start : LockProg (Except Bytes Unit) := do
  let running ← holding .manager do
    return (← perform .look).running
  if running then return .ok ()
  else
    match ← holding .store (perform (.openStore .commands)) with
    | .error message => return .error message
    | .ok () =>
        holding .manager do
          let m ← perform .look
          perform (.change { m with running := true, stopping := false })
        perform .spawn
        -- The threads go into `workers`.
        holding .manager (return ())
        return .ok ()

def shutdown : LockProg Unit := do
  let stops ← holding .manager do
    let m ← perform .look
    if m.running then
      perform (.change { m with running := false, stopping := true })
      return true
    else return false
  if stops then
    perform .join
    holding .store (perform (.closeStore .commands))
  else return ()

/-! ## Commands -/

/-- The section of `pause` and of `resume`. -/
def command (change : Manager → Except Refusal Manager) : LockProg Refusal :=
  holding .manager do
    match change (← perform .look) with
    | .error refusal => return refusal
    | .ok m =>
        perform (.change m)
        return (.ok, [])

/-- The last section of `submit` and of `retry`. -/
def settle (id : Bytes) (request : MoveRequest) (recorded : Except Bytes Unit) :
    LockProg Refusal :=
  holding .manager do
    let m ← perform .look
    perform (.change (m.publish id request (System.recordedOk recorded)))
    match recorded with
    | .error message => return (.storeError, message)
    | .ok () => return (.ok, [])

/-- The first section of `submit`. -/
def claimSubmit (id : Bytes) : LockProg (Except Refusal Int) :=
  holding .manager do
    match (← perform .look).claimSubmit id with
    | .error refusal => return .error refusal
    | .ok m =>
        perform (.change m)
        return .ok (← perform .now)

def submit (id : Bytes) (request : MoveRequest) : LockProg Refusal := do
  match ← claimSubmit id with
  | .error refusal => return refusal
  | .ok nowMs =>
      let recorded ← holding .store
        (calls .commands (recordIntent (freshJob id request nowMs) []))
      let (result, error) ← settle id request recorded
      if result = .ok then
        emit ⟨.jobSubmitted, .info, id, []⟩
        return (.ok, [])
      else return (result, error)

/-- The overload of `submit` that makes the id. -/
def submitNew (request : MoveRequest) : LockProg Refusal := do
  let running ← holding .manager do
    return (← perform .look).running
  if running = false then return Manager.notRunning
  else
    match ← holding .store (perform .nextSequence) with
    | .error message => return (.storeError, message)
    | .ok sequence => submit (sequenceId sequence) request

def pause (id : Bytes) : LockProg Refusal := do
  let (result, error) ← command (·.pause id)
  if result = .ok then
    emit ⟨.jobPaused, .info, id, []⟩
    return (.ok, [])
  else return (result, error)

def resume (id : Bytes) : LockProg Refusal := do
  let (result, error) ← command (·.resume id)
  if result = .ok then
    emit ⟨.jobResumed, .info, id, []⟩
    return (.ok, [])
  else return (result, error)

/-- The first section of `cancel`. -/
def claimCancel (id : Bytes) : LockProg (Except Refusal Bool) :=
  holding .manager do
    match (← perform .look).claimCancel id with
    | .error refusal => return .error refusal
    | .ok (wasRunnable, m) =>
        perform (.change m)
        return .ok wasRunnable

/-- The scope of the guard on the store mutex in `cancel`: the rest of the function,
the publication included. -/
def cancelInScope (id : Bytes) (wasRunnable : Bool) : LockProg Refusal := do
  let (outcome, error) ← calls .commands (cancelInStore id)
  if outcome ≠ .ok ∧ wasRunnable = true then
    holding .manager do
      let m ← perform .look
      perform (.change (m.settleCancel id wasRunnable outcome))
    return (outcome, error)
  else if outcome = .ok then
    emit ⟨.jobCancelled, .info, id, []⟩
    return (outcome, error)
  else return (outcome, error)

def cancel (id : Bytes) : LockProg Refusal := do
  match ← claimCancel id with
  | .error refusal => return refusal
  | .ok wasRunnable => holding .store (cancelInScope id wasRunnable)

/-- The section of `retry` that claims a candidate. -/
def claimCandidate (candidate : Bytes) : LockProg Bool :=
  holding .manager do
    match (← perform .look).claimCandidate candidate with
    | none => return false
    | some m =>
        perform (.change m)
        return true

/-- The candidate that `retry` claims, from the `n`-th on. -/
def probe (id : Bytes) : Nat → Nat → LockProg (Except Bytes Bytes)
  | 0, _ => .call .outOfRounds fun none => nomatch none
  | rounds + 1, n => do
      match ← calls .commands (probeCandidate (retryCandidate id n)) with
      | .error message => return .error message
      | .ok true => probe id rounds (n + 1)
      | .ok false =>
          if ← claimCandidate (retryCandidate id n) then return .ok (retryCandidate id n)
          else probe id rounds (n + 1)

/-- The first section of `retry`. -/
def claimRetry (id : Bytes) : LockProg (Except Refusal (MoveRequest × Int)) :=
  holding .manager do
    match (← perform .look).claimRetry id with
    | .error refusal => return .error refusal
    | .ok move => return .ok (move, ← perform .now)

/-- What `retry` does with the store mutex held; the id of the new job. -/
def retryInStore (rounds : Nat) (id : Bytes) (move : MoveRequest) (nowMs : Int) :
    LockProg (Except Refusal Bytes) := do
  match ← calls .commands (loadForRetry id) with
  | .error refusal => return .error refusal
  | .ok () =>
      match ← probe id rounds 1 with
      | .error message => return .error (.storeError, message)
      | .ok candidate =>
          let recorded ← calls .commands (recordIntent (freshJob candidate move nowMs) id)
          let (result, error) ← settle candidate move recorded
          if result = .ok then return .ok candidate else return .error (result, error)

def retry (rounds : Nat) (id : Bytes) : LockProg Refusal := do
  match ← claimRetry id with
  | .error refusal => return refusal
  | .ok (move, nowMs) =>
      match ← holding .store (retryInStore rounds id move nowMs) with
      | .error refusal => return refusal
      | .ok candidate =>
          emit ⟨.jobRetrySubmitted, .info, candidate, lit "retry_of=" ++ id⟩
          return (.ok, [])

def pump : LockProg Nat :=
  holding .manager do
    let m ← perform .look
    if m.running = false then return 0
    else
      let nowMs ← perform .now
      perform (.change (m.pump nowMs))
      return (m.due nowMs).length

/-! ## Workers -/

/-- The loop of `run_worker`, which begins and ends its rounds with the mutex held. -/
def workerLoop : Nat → LockProg Unit
  | 0 => .call .outOfRounds fun none => nomatch none
  | rounds + 1 => do
      let m ← perform .look
      match m.pickUp with
      | none =>
          if m.stopping then
            perform (.release .manager)
            perform (.closeStore .worker)
          else
            -- `work_ready.wait` gives the mutex back while it waits.
            perform (.release .manager)
            perform (.acquire .manager)
            workerLoop rounds
      | some (id, request, m') =>
          perform (.change m')
          let nowMs ← perform .now
          perform (.release .manager)
          emit ⟨.jobStarted, .info, id, []⟩
          let done ← calls .worker (attempt m'.config id request m'.strategy nowMs)
          emit (attemptEvent id done)
          perform (.acquire .manager)
          let m ← perform .look
          perform (.change (m.settle id done.due))
          workerLoop rounds

def runWorker (rounds : Nat) : LockProg Unit := do
  match ← perform (.openStore .worker) with
  | .error _ => return ()
  | .ok () =>
      perform (.acquire .manager)
      workerLoop rounds

/-! ## Operations that subscribers call -/

def Operation.program (rounds : Nat) : Operation → LockProg Unit
  | .start => do
      let _ ← Locks.start
      return ()
  | .shutdown => Locks.shutdown
  | .submitNew request => do
      let _ ← Locks.submitNew request
      return ()
  | .submit id request => do
      let _ ← Locks.submit id request
      return ()
  | .pause id => do
      let _ ← Locks.pause id
      return ()
  | .resume id => do
      let _ ← Locks.resume id
      return ()
  | .cancel id => do
      let _ ← Locks.cancel id
      return ()
  | .retry id => do
      let _ ← Locks.retry rounds id
      return ()
  | .pump => do
      let _ ← Locks.pump
      return ()
  | .runWorker => Locks.runWorker rounds

/-- One operation after the other. -/
def inTurn (run : Operation → LockProg Unit) : List Operation → LockProg Unit
  | [] => .pure ()
  | operation :: rest => (run operation).bind fun _ => inTurn run rest

/-- An operation with what the subscribers call from their callbacks, to a given depth
of callbacks within callbacks. -/
def Operation.nested (rounds : Nat) : Nat → Operation → LockProg Unit
  | 0, operation => operation.program rounds
  | depth + 1, operation =>
      (operation.program rounds).graft fun action reply =>
        match action, reply with
        | .publish _, called => inTurn (Operation.nested rounds depth) called
        | _, _ => .pure ()

end FileMover.Locks
