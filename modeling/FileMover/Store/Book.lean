import FileMover.Model.Statements

/-!
# The store as a map

What `JobStore` is for: a map from the id of a job to the job and what belongs to it.
`Book.after` and `Book.Allows` say what an operation does to the map and what it may
answer, with no word of columns, tokens or statements. The table is then shown to be
such a map at every step of every sequence of operations.

The order of a listing and the numbers of a count are described, not computed: a list
in strict order is determined by its members.

One number need not be read back as it was written: how the number of attempts is read
is a parameter of `Book.Allows`.
-/

namespace FileMover.Store

open Framework

structure Entry where
  job : Job
  attempts : Nat
  nextRetryMs : Int
  lastError : Bytes
  retryOf : Bytes
  /-- Why the job needs attention, if it does. -/
  attention : Option Bytes
deriving DecidableEq

abbrev Book := Bytes → Option Entry

/-! ## The operations on the map -/

namespace Book

/-- An error is there exactly for a job that has failed. -/
def Sound (job : Job) : Prop := job.error ≠ [] ↔ job.state = .failed

instance (job : Job) : Decidable (Sound job) := inferInstanceAs (Decidable (_ ↔ _))

/-- The job after a transition, if there is such a job and it may make it. -/
def moved (b : Book) (id : Bytes) (target : JobState) (nowMs : Int) (message : Bytes) :
    Option Entry :=
  (b id).bind fun e =>
    (e.job.transition target nowMs message).map fun job => { e with job := job }

def set (b : Book) (id : Bytes) (e : Option Entry) : Book :=
  match e with
  | none => b
  | some e => Function.update b id (some e)

def after (b : Book) : StoreOp → Book
  | .recordIntent job retryOf =>
      if b job.id = none ∧ Sound job then b.set job.id (some ⟨job, 0, 0, [], retryOf, none⟩)
      else b
  | .updateState id target nowMs message => b.set id (b.moved id target nowMs message)
  | .recordTransition id target nowMs message _ => b.set id (b.moved id target nowMs message)
  | .recordAttempt id nextRetryMs reason =>
      b.set id ((b id).map fun e => { e with
        attempts := e.attempts + 1
        nextRetryMs := nextRetryMs
        lastError := reason })
  | .markNeedsAttention id reason =>
      if reason = [] then b
      else b.set id ((b id).map fun e => { e with attention := some reason })
  | _ => b

/-- By `created_at_ms`, then by id. -/
def CreatedBefore (a b : Job) : Prop :=
  a.createdAtMs < b.createdAtMs ∨ a.createdAtMs = b.createdAtMs ∧ a.id < b.id

/-- By `next_retry_ms`, then by `created_at_ms`, then by id. -/
def DueBefore (a b : Entry) : Prop :=
  a.nextRetryMs < b.nextRetryMs ∨ a.nextRetryMs = b.nextRetryMs ∧ CreatedBefore a.job b.job

/-- The operation goes through, or is refused with some message. -/
def Writes (goes : Prop) (result : StoreResult) : Prop :=
  goes ∧ result = .written ∨ ¬ goes ∧ ∃ message, result = .refused message

/-- The results that the map explains; `read` is how a number of attempts is read back. -/
def Allows (read : Nat → Int) (b : Book) : StoreOp → StoreResult → Prop
  | .recordIntent job _, result => Writes (b job.id = none ∧ Sound job) result
  | .updateState id target nowMs message, result =>
      Writes (b.moved id target nowMs message ≠ none) result
  | .recordTransition id target nowMs message phase, result =>
      b.moved id target nowMs message ≠ none ∧ result = .written ∨
        b.moved id target nowMs message = none ∧ ∃ text, result = .failed phase.action text
  | .recordAttempt id _ _, result => Writes (b id ≠ none) result
  | .markNeedsAttention id reason, result => Writes (b id ≠ none ∧ reason ≠ []) result
  | .load id, result => result = .job ((b id).map (·.job))
  | .loadRetryState id, result =>
      result = .retry ((b id).map fun e => ⟨read e.attempts, e.nextRetryMs, e.lastError, e.retryOf⟩)
  | .listByState state, result =>
      ∃ out, result = .jobs out ∧ out.Pairwise CreatedBefore ∧
        ∀ job, job ∈ out ↔ ∃ id e, b id = some e ∧ e.job = job ∧ job.state = state
  | .countsByState, result =>
      ∃ out, result = .counts out ∧
        (∀ state, out state = {id | ∃ e, b id = some e ∧ e.job.state = state}.ncard) ∧
        out .queued + out .renaming + out .transferring + out .done + out .failed =
          {id | b id ≠ none}.ncard
  | .dueJobs nowMs, result =>
      ∃ out, result = .ids out ∧
        out.Pairwise (fun id id' => ∃ e e', b id = some e ∧ b id' = some e' ∧ DueBefore e e') ∧
        ∀ id, id ∈ out ↔ ∃ e, b id = some e ∧ e.job.state = .queued ∧ e.nextRetryMs ≤ nowMs

/-- A log of operations and results that the map explains. -/
inductive Agrees (read : Nat → Int) : Book → List (StoreOp × StoreResult) → Prop
  | nil (b : Book) : Agrees read b []
  | cons {b : Book} {op : StoreOp} {result : StoreResult} {log : List (StoreOp × StoreResult)}
      (allows : b.Allows read op result) (rest : Agrees read (b.after op) log) :
      Agrees read b ((op, result) :: log)

end Book

/-- No text of the operation has a NUL. -/
def StoreOp.Plain : StoreOp → Prop
  | .recordIntent job retryOf =>
      0 ∉ job.id ∧ 0 ∉ job.sourcePath ∧ 0 ∉ job.destPath ∧ 0 ∉ job.error ∧ 0 ∉ retryOf
  | .updateState id _ _ message => 0 ∉ id ∧ 0 ∉ message
  | .recordTransition id _ _ message _ => 0 ∉ id ∧ 0 ∉ message
  | .recordAttempt id _ reason => 0 ∉ id ∧ 0 ∉ reason
  | .markNeedsAttention id reason => 0 ∉ id ∧ 0 ∉ reason
  | .load id => 0 ∉ id
  | .loadRetryState id => 0 ∉ id
  | _ => True

/-! ## The table as a map -/

def stateOf (r : Columns) : JobState := (JobState.fromToken r.state.1).getD .queued

def jobOf (r : Columns) : Job where
  id := r.id.1
  sourcePath := r.sourcePath.1
  destPath := r.destPath.1
  state := stateOf r
  createdAtMs := r.createdAtMs
  updatedAtMs := r.updatedAtMs
  finishedAtMs := r.finishedAtMs
  bytesTotal := r.bytesTotal.toUInt64
  bytesMoved := r.bytesMoved.toUInt64
  error := r.error.1

def entryOf (r : Columns) : Entry where
  job := jobOf r
  attempts := r.attempts
  nextRetryMs := r.nextRetryMs
  lastError := r.lastError.1
  retryOf := r.retryOf.1
  attention := if r.needsAttention = 0 then none else some r.attentionReason.1

end FileMover.Store
