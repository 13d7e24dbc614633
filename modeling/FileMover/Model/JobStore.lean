import FileMover.Model.FsOps

/-!
# The durable job store

`store.cpp`: the operations of `JobStore` on an open connection. Each one is a
sequence of SQL statements, and every statement is one atomic call; in
particular `update_state` is a `SELECT` followed by an `UPDATE`, with nothing
that would keep other connections out between the two.
-/

namespace FileMover

open Framework

/-- `fail(db, what)`. -/
def storeFail (what : Bytes) (code : SqliteCode) : Bytes :=
  lit "store: " ++ what ++ lit ": " ++ sqliteErrmsg code

def noSuchJob (id : Bytes) : Bytes := lit "store: no such job " ++ quoted id

/-- `JobStore::load`; `none` is the `found == false` of the source. -/
def load (site : Site) (id : Bytes) : Prog (Except Bytes (Option Job)) := do
  match ← ask site (.selectJob id) with
  | .ok job => return .ok job
  | .error e => return .error (storeFail (lit "loading job " ++ quoted id) e)

def recordIntent (job : Job) (retryOf : Bytes) : Prog (Except Bytes Unit) := do
  match ← ask .intentWrite (.insertJob job retryOf) with
  | .ok () => return .ok ()
  | .error e =>
      return .error
        (storeFail (lit "recording intent for job " ++ quoted job.id) e)

def illegalTransition (id : Bytes) (source target : JobState)
    (message : Bytes) : Bytes :=
  lit "store: illegal transition for job " ++ quoted id ++ lit ": " ++
    source.toToken ++ lit " -> " ++ target.toToken ++
    (if target = .failed ∧ message = [] then
      lit " (a transition to FAILED requires an error message)"
    else if target ≠ .failed ∧ message ≠ [] then
      lit " (an error message is only valid for FAILED)"
    else [])

/-- `JobStore::update_state`. The transition is judged on the job that was
read; the write addresses the row by id alone. -/
def updateState (id : Bytes) (target : JobState) (nowMs : Int)
    (message : Bytes) : Prog (Except Bytes Unit) := do
  match ← load (.transitionLoad target) id with
  | .error e => return .error e
  | .ok none => return .error (noSuchJob id)
  | .ok (some job) =>
      match job.transition target nowMs message with
      | none => return .error (illegalTransition id job.state target message)
      | some after =>
          match ← ask (.transitionWrite target) (.updateJob id job after) with
          | .ok () => return .ok ()
          | .error e =>
              return .error (storeFail (lit "updating job " ++ quoted id) e)

inductive CommitPhase
  | beforeCommitPoint
  | afterCommitPoint
deriving DecidableEq, Repr

inductive WriteFailureAction
  | abortJob
  | haltProcess
deriving DecidableEq, Repr

/-- The consequence that `record_transition` appends to the cause. -/
def CommitPhase.consequence : CommitPhase → Bytes
  | .beforeCommitPoint =>
      lit (" [before the commit point: aborting the job. Nothing has " ++
        "happened and the source is untouched.]")
  | .afterCommitPoint =>
      lit (" [AFTER the commit point: halting. The move is real but unrecorded." ++
        " The source must NOT be deleted and this needs an operator.]")

def CommitPhase.action : CommitPhase → WriteFailureAction
  | .beforeCommitPoint => .abortJob
  | .afterCommitPoint => .haltProcess

/-- `JobStore::record_transition`; success is `WriteFailureAction::None`. -/
def recordTransition (id : Bytes) (target : JobState) (nowMs : Int)
    (message : Bytes) (phase : CommitPhase) :
    Prog (Except (WriteFailureAction × Bytes) Unit) := do
  match ← updateState id target nowMs message with
  | .ok () => return .ok ()
  | .error e => return .error (phase.action, e ++ phase.consequence)

/-- `JobStore::mark_needs_attention`. -/
def markNeedsAttention (id reason : Bytes) : Prog (Except Bytes Unit) := do
  if reason = [] then
    return .error (lit "store: mark_needs_attention requires a reason")
  match ← ask .flagWrite (.flagJob id reason) with
  | .error e => return .error (storeFail (lit "flagging job " ++ quoted id) e)
  | .ok changes =>
      if changes = 0 then return .error (noSuchJob id) else return .ok ()

/-- `JobStore::record_attempt`. -/
def recordAttempt (id : Bytes) (nextRetryMs : Int) (reason : Bytes) :
    Prog (Except Bytes Unit) := do
  match ← ask .attemptWrite (.countAttempt id nextRetryMs reason) with
  | .error e =>
      return .error (storeFail (lit "recording attempt for job " ++ quoted id) e)
  | .ok changes =>
      if changes = 0 then return .error (noSuchJob id) else return .ok ()

/-- `JobStore::load_retry_state`. -/
def loadRetryState (id : Bytes) : Prog (Except Bytes (Option RetryState)) := do
  match ← ask .retryLoad (.selectRetry id) with
  | .ok state => return .ok state
  | .error e =>
      return .error (storeFail (lit "loading retry state for " ++ quoted id) e)

/-! ## Footprints -/

section Footprints
variable {allowed : Call → Prop} {id : Bytes}

theorem uses_load {site : Site} (reads : allowed ⟨site, .selectJob id⟩) :
    (load site id).Uses allowed := by
  refine ⟨reads, fun reply => ?_⟩
  cases reply with
  | error e => trivial
  | ok job => trivial

/-- The only write of `update_state` is one that the core state machine has
approved for the job that was read. -/
theorem uses_updateState {target : JobState} {nowMs : Int} {message : Bytes}
    (reads : allowed ⟨.transitionLoad target, .selectJob id⟩)
    (writes : ∀ before after, before.transition target nowMs message = some after →
      allowed ⟨.transitionWrite target, .updateJob id before after⟩) :
    (updateState id target nowMs message).Uses allowed := by
  unfold updateState
  refine (uses_load reads).bind fun loaded => ?_
  match loaded with
  | .error e => trivial
  | .ok none => trivial
  | .ok (some job) =>
      cases htrans : job.transition target nowMs message with
      | none =>
          simp only [htrans]
          trivial
      | some after =>
          simp only [htrans]
          refine ⟨writes job after htrans, fun reply => ?_⟩
          cases reply with
          | error e => trivial
          | ok _ => trivial

theorem uses_recordTransition {target : JobState} {nowMs : Int} {message : Bytes}
    {phase : CommitPhase}
    (reads : allowed ⟨.transitionLoad target, .selectJob id⟩)
    (writes : ∀ before after, before.transition target nowMs message = some after →
      allowed ⟨.transitionWrite target, .updateJob id before after⟩) :
    (recordTransition id target nowMs message phase).Uses allowed := by
  refine (uses_updateState reads writes).bind fun result => ?_
  cases result with
  | error e => trivial
  | ok _ => trivial

theorem uses_recordIntent {job : Job} {retryOf : Bytes}
    (inserts : allowed ⟨.intentWrite, .insertJob job retryOf⟩) :
    (recordIntent job retryOf).Uses allowed := by
  refine ⟨inserts, fun reply => ?_⟩
  cases reply with
  | error e => trivial
  | ok _ => trivial

theorem uses_recordAttempt {nextRetryMs : Int} {reason : Bytes}
    (counts : allowed ⟨.attemptWrite, .countAttempt id nextRetryMs reason⟩) :
    (recordAttempt id nextRetryMs reason).Uses allowed := by
  refine ⟨counts, fun reply => ?_⟩
  match reply with
  | .error e => trivial
  | .ok changes =>
      change Program.Uses allowed (if changes = 0 then _ else _)
      split <;> trivial

theorem uses_loadRetryState (reads : allowed ⟨.retryLoad, .selectRetry id⟩) :
    (loadRetryState id).Uses allowed := by
  refine ⟨reads, fun reply => ?_⟩
  cases reply with
  | error e => trivial
  | ok state => trivial

theorem uses_markNeedsAttention {reason : Bytes}
    (flags : allowed ⟨.flagWrite, .flagJob id reason⟩) :
    (markNeedsAttention id reason).Uses allowed := by
  unfold markNeedsAttention
  split
  · trivial
  · refine ⟨flags, fun reply => ?_⟩
    match reply with
    | .error e => trivial
    | .ok changes =>
        change Program.Uses allowed (if changes = 0 then _ else _)
        split <;> trivial

end Footprints

end FileMover
