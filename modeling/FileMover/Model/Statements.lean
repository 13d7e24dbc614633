import FileMover.Framework.Keyed
import FileMover.Model.JobStore
import Mathlib.Data.List.TakeWhile

/-!
# The store, column by column

`store.cpp` once more, below the level of `Database`: what the statements bind to the
columns of the schema, and what the program makes of the columns it reads. Texts are
bound as C strings and a state is stored as its token; the byte counters are unsigned
in the program and signed in the table; `attempts` is read with `sqlite3_column_int`,
that is as a 32 bit number.

One connection, and every statement is executed: a statement fails only if the schema
refuses it.
-/

namespace FileMover.Store

open Framework

/-- A text in the table. -/
abbrev Text := { s : Bytes // 0 ∉ s }

/-- `sqlite3_bind_text(.., c_str(), -1, ..)`. -/
def bindText (s : Bytes) : Text :=
  ⟨cstr s, fun h => by simpa using List.mem_takeWhile_imp h⟩

/-- One row of the table. -/
structure Columns where
  id : Text
  sourcePath : Text
  destPath : Text
  state : Text
  createdAtMs : Int
  updatedAtMs : Int
  finishedAtMs : Int := 0
  bytesTotal : Int64 := 0
  bytesMoved : Int64 := 0
  error : Text
  needsAttention : Nat := 0
  attentionReason : Text := bindText []
  attempts : Nat := 0
  nextRetryMs : Int := 0
  lastError : Text := bindText []
  retryOf : Text := bindText []
deriving DecidableEq

/-- The `CHECK` clauses of `kSchemaSql`. -/
def Columns.Checks (r : Columns) : Prop :=
  r.state.1 ∈ [lit "QUEUED", lit "RENAMING", lit "TRANSFERRING", lit "DONE", lit "FAILED"] ∧
    (0 < r.error.1.length ↔ r.state.1 = lit "FAILED") ∧
    (r.needsAttention = 0 ∨ r.needsAttention = 1)

instance : DecidablePred Columns.Checks := fun _ =>
  inferInstanceAs (Decidable (_ ∧ (_ ↔ _) ∧ (_ ∨ _)))

/-- The table `job`, with `id` for its primary key. -/
abbrev Table := Keyed Columns Text Columns.id Columns.Checks

/-! ## Writing -/

def intentColumns (job : Job) (retryOf : Bytes) : Columns where
  id := bindText job.id
  sourcePath := bindText job.sourcePath
  destPath := bindText job.destPath
  state := bindText job.state.toToken
  createdAtMs := job.createdAtMs
  updatedAtMs := job.updatedAtMs
  finishedAtMs := job.finishedAtMs
  bytesTotal := job.bytesTotal.toInt64
  bytesMoved := job.bytesMoved.toInt64
  error := bindText job.error
  retryOf := bindText retryOf

/-- `record_intent`. -/
def recordIntent (t : Table) (job : Job) (retryOf : Bytes) : Except Bytes Unit × Table :=
  match t.insert (intentColumns job retryOf) with
  | some t' => (.ok (), t')
  | none =>
      -- the `CHECK`s come before the key
      let code := if (intentColumns job retryOf).Checks then SQLITE_CONSTRAINT_PRIMARYKEY
        else SQLITE_CONSTRAINT_CHECK
      (.error (storeFail (lit "recording intent for job " ++ quoted job.id) code), t)

/-- The job that `load` and `list_by_state` make of a row. -/
def readJob (r : Columns) : Option Job :=
  (JobState.fromToken r.state.1).map fun state =>
    { id := r.id.1
      sourcePath := r.sourcePath.1
      destPath := r.destPath.1
      state := state
      createdAtMs := r.createdAtMs
      updatedAtMs := r.updatedAtMs
      finishedAtMs := r.finishedAtMs
      bytesTotal := r.bytesTotal.toUInt64
      bytesMoved := r.bytesMoved.toUInt64
      error := r.error.1 }

def unrecognised (id token : Bytes) : Bytes :=
  lit "store: job " ++ quoted id ++ lit " has unrecognised state " ++ quoted token

/-- `load`. -/
def load (t : Table) (id : Bytes) : Except Bytes (Option Job) :=
  match t.find (bindText id) with
  | none => .ok none
  | some r =>
      match readJob r with
      | none => .error (unrecognised id r.state.1)
      | some job => .ok (some job)

def stateColumns (job : Job) : Keyed.Assignment Columns.id where
  set r := { r with
    state := bindText job.state.toToken
    updatedAtMs := job.updatedAtMs
    finishedAtMs := job.finishedAtMs
    error := bindText job.error }
  same _ := rfl

/-- `update_state`. -/
def updateState (t : Table) (id : Bytes) (target : JobState) (nowMs : Int)
    (message : Bytes) : Except Bytes Unit × Table :=
  match load t id with
  | .error e => (.error e, t)
  | .ok none => (.error (noSuchJob id), t)
  | .ok (some job) =>
      match job.transition target nowMs message with
      | none => (.error (illegalTransition id job.state target message), t)
      | some after =>
          match t.update (bindText id) (stateColumns after) with
          | some (_, t') => (.ok (), t')
          | none =>
              (.error (storeFail (lit "updating job " ++ quoted id) SQLITE_CONSTRAINT_CHECK), t)

/-- `record_transition`. -/
def recordTransition (t : Table) (id : Bytes) (target : JobState) (nowMs : Int)
    (message : Bytes) (phase : CommitPhase) :
    Except (WriteFailureAction × Bytes) Unit × Table :=
  match updateState t id target nowMs message with
  | (.ok (), t') => (.ok (), t')
  | (.error e, t') => (.error (phase.action, e ++ phase.consequence), t')

def attentionColumns (reason : Bytes) : Keyed.Assignment Columns.id where
  set r := { r with needsAttention := 1, attentionReason := bindText reason }
  same _ := rfl

def attemptColumns (nextRetryMs : Int) (reason : Bytes) : Keyed.Assignment Columns.id where
  set r := { r with
    attempts := r.attempts + 1
    nextRetryMs := nextRetryMs
    lastError := bindText reason }
  same _ := rfl

/-- An `UPDATE` that has to match a row. -/
def updateOne (t : Table) (id : Bytes) (a : Keyed.Assignment Columns.id) (what : Bytes) :
    Except Bytes Unit × Table :=
  match t.update (bindText id) a with
  | none => (.error (storeFail (what ++ quoted id) SQLITE_CONSTRAINT_CHECK), t)
  | some (changes, t') =>
      if changes = 0 then (.error (noSuchJob id), t') else (.ok (), t')

/-- `mark_needs_attention`. -/
def markNeedsAttention (t : Table) (id reason : Bytes) : Except Bytes Unit × Table :=
  if reason = [] then (.error (lit "store: mark_needs_attention requires a reason"), t)
  else updateOne t id (attentionColumns reason) (lit "flagging job ")

/-- `record_attempt`. -/
def recordAttempt (t : Table) (id : Bytes) (nextRetryMs : Int) (reason : Bytes) :
    Except Bytes Unit × Table :=
  updateOne t id (attemptColumns nextRetryMs reason) (lit "recording attempt for job ")

/-! ## Reading -/

/-- `JobStore::RetryState`. -/
structure RetryColumns where
  attempts : Int
  nextRetryMs : Int
  lastError : Bytes
  retryOf : Bytes
deriving DecidableEq

/-- `sqlite3_column_int`: the lower 32 bits, with their sign. -/
def columnInt (n : Nat) : Int := (n : Int).bmod (2 ^ 32)

/-- `load_retry_state`. -/
def loadRetryState (t : Table) (id : Bytes) : Option RetryColumns :=
  (t.find (bindText id)).map fun r =>
    { attempts := columnInt r.attempts
      nextRetryMs := r.nextRetryMs
      lastError := r.lastError.1
      retryOf := r.retryOf.1 }

/-- `ORDER BY created_at_ms, id`. -/
def byCreation (a b : Columns) : Bool :=
  a.createdAtMs < b.createdAtMs || (a.createdAtMs = b.createdAtMs && a.id.1 ≤ b.id.1)

/-- The loop over the rows, which gives up at a state that it does not know. -/
def readJobs : List Columns → Except Bytes (List Job)
  | [] => .ok []
  | r :: rest =>
      match readJob r with
      | none => .error (unrecognised r.id.1 r.state.1)
      | some job => (readJobs rest).map (job :: ·)

/-- `list_by_state`. -/
def listByState (t : Table) (state : JobState) : Except Bytes (List Job) :=
  readJobs (t.sorted (fun r => r.state = bindText state.toToken) byCreation)

/-- `SELECT state, COUNT(*) FROM job GROUP BY state`. -/
def groups (t : Table) : List (Text × Nat) :=
  ((t.rows.map Columns.state).dedup).map fun token =>
    (token, t.rows.countP (·.state = token))

/-- The loop over the groups. -/
def readCounts : List (Text × Nat) → (JobState → Nat) → Except Bytes (JobState → Nat)
  | [], out => .ok out
  | (token, count) :: rest, out =>
      match JobState.fromToken token.1 with
      | none =>
          .error (lit "store: unrecognised state " ++ quoted token.1 ++ lit " in job table")
      | some state => readCounts rest (Function.update out state count)

/-- `counts_by_state`: every state is zero to begin with. -/
def countsByState (t : Table) : Except Bytes (JobState → Nat) :=
  readCounts (groups t) fun _ => 0

/-- `ORDER BY next_retry_ms, created_at_ms, id`. -/
def byRetry (a b : Columns) : Bool :=
  a.nextRetryMs < b.nextRetryMs || (a.nextRetryMs = b.nextRetryMs && byCreation a b)

/-- `due_jobs`. -/
def dueJobs (t : Table) (nowMs : Int) : List Bytes :=
  (t.sorted (fun r => r.state = bindText (lit "QUEUED") && r.nextRetryMs ≤ nowMs) byRetry).map
    (·.id.1)

/-! ## Sequences of operations -/

inductive StoreOp
  | recordIntent (job : Job) (retryOf : Bytes)
  | updateState (id : Bytes) (target : JobState) (nowMs : Int) (message : Bytes)
  | recordTransition (id : Bytes) (target : JobState) (nowMs : Int) (message : Bytes)
      (phase : CommitPhase)
  | recordAttempt (id : Bytes) (nextRetryMs : Int) (reason : Bytes)
  | markNeedsAttention (id reason : Bytes)
  | load (id : Bytes)
  | loadRetryState (id : Bytes)
  | listByState (state : JobState)
  | countsByState
  | dueJobs (nowMs : Int)

inductive StoreResult
  | written
  | refused (message : Bytes)
  /-- What `record_transition` returns when it fails. -/
  | failed (action : WriteFailureAction) (message : Bytes)
  | job (found : Option Job)
  | retry (found : Option RetryColumns)
  | jobs (out : List Job)
  | counts (out : JobState → Nat)
  | ids (out : List Bytes)

def ofWrite : Except Bytes Unit → StoreResult
  | .ok () => .written
  | .error message => .refused message

def ofRead {α : Type} (result : α → StoreResult) : Except Bytes α → StoreResult
  | .ok value => result value
  | .error message => .refused message

def ofTransition : Except (WriteFailureAction × Bytes) Unit → StoreResult
  | .ok () => .written
  | .error (action, message) => .failed action message

def perform (t : Table) : StoreOp → StoreResult × Table
  | .recordIntent job retryOf =>
      let (result, t') := recordIntent t job retryOf
      (ofWrite result, t')
  | .updateState id target nowMs message =>
      let (result, t') := updateState t id target nowMs message
      (ofWrite result, t')
  | .recordTransition id target nowMs message phase =>
      let (result, t') := recordTransition t id target nowMs message phase
      (ofTransition result, t')
  | .recordAttempt id nextRetryMs reason =>
      let (result, t') := recordAttempt t id nextRetryMs reason
      (ofWrite result, t')
  | .markNeedsAttention id reason =>
      let (result, t') := markNeedsAttention t id reason
      (ofWrite result, t')
  | .load id => (ofRead .job (load t id), t)
  | .loadRetryState id => (.retry (loadRetryState t id), t)
  | .listByState state => (ofRead .jobs (listByState t state), t)
  | .countsByState => (ofRead .counts (countsByState t), t)
  | .dueJobs nowMs => (.ids (dueJobs t nowMs), t)

/-- A sequence of operations, each with its result, and the table in the end. -/
def performAll (t : Table) : List StoreOp → List (StoreOp × StoreResult) × Table
  | [] => ([], t)
  | op :: rest =>
      let (result, t') := perform t op
      let (log, t'') := performAll t' rest
      ((op, result) :: log, t'')

end FileMover.Store
