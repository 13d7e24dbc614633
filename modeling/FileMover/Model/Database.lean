import FileMover.Model.Errno
import FileMover.Model.Job
import Mathlib.Data.List.AList
import Mathlib.Data.List.Sort

/-!
# The job table

One table, keyed by the job id. A row carries the `CHECK` constraints of the
schema as a field, so that a row the schema would refuse cannot be built; a
statement that asks for one ends with `SQLITE_CONSTRAINT_CHECK`.

Texts reach SQLite through `sqlite3_bind_text(.., c_str(), -1, ..)`, hence as
C strings: a key or a message stops at its first NUL.
-/

namespace FileMover

structure Row where
  job : Job
  needsAttention : Bool
  attentionReason : Bytes
  attempts : Nat
  nextRetryMs : Int
  lastError : Bytes
  retryOf : Bytes
  /-- `CHECK ((length(error) > 0) = (state = 'FAILED'))`. -/
  check : job.error ≠ [] ↔ job.state = .failed

structure RetryState where
  attempts : Nat
  nextRetryMs : Int
  lastError : Bytes
  retryOf : Bytes
deriving DecidableEq, Repr

abbrev Database := AList fun _ : Bytes => Row

namespace Database

/-- The row that a statement with `WHERE id = ?` addresses. -/
def row (db : Database) (id : Bytes) : Option Row := db.lookup (cstr id)

def state (db : Database) (id : Bytes) : Option JobState :=
  (db.row id).map (·.job.state)

def setRow (db : Database) (id : Bytes) (r : Row) : Database :=
  db.insert (cstr id) r

/-- The columns as `record_intent` binds them. -/
def bound (job : Job) : Job :=
  { job with
    id := cstr job.id
    sourcePath := cstr job.sourcePath
    destPath := cstr job.destPath
    error := cstr job.error }

/-- `INSERT INTO job ...`, a plain insert: a duplicate key is refused, after the `CHECK`s. -/
def insertJob (db : Database) (job : Job) (retryOf : Bytes) :
    Except SqliteCode Database :=
  if h : (bound job).error ≠ [] ↔ (bound job).state = .failed then
    if db.row job.id = none then
      .ok (db.setRow job.id {
        job := bound job
        needsAttention := false
        attentionReason := []
        attempts := 0
        nextRetryMs := 0
        lastError := []
        retryOf := cstr retryOf
        check := h })
    else .error SQLITE_CONSTRAINT_PRIMARYKEY
  else .error SQLITE_CONSTRAINT_CHECK

/-- The columns `update_state` writes: the rest of the row stays. -/
def written (old after : Job) : Job :=
  { old with
    state := after.state
    updatedAtMs := after.updatedAtMs
    finishedAtMs := after.finishedAtMs
    error := cstr after.error }

/-- `UPDATE job SET state = ?, ... WHERE id = ?`. Without a matching row the
statement succeeds and changes nothing. -/
def updateJob (db : Database) (id : Bytes) (after : Job) :
    Except SqliteCode Database :=
  match db.row id with
  | none => .ok db
  | some r =>
      if h : (written r.job after).error ≠ [] ↔
          (written r.job after).state = .failed then
        .ok (db.setRow id { r with job := written r.job after, check := h })
      else .error SQLITE_CONSTRAINT_CHECK

/-- `UPDATE job SET needs_attention = 1, attention_reason = ? WHERE id = ?`,
with the number of rows changed. -/
def flag (db : Database) (id reason : Bytes) : Nat × Database :=
  match db.row id with
  | none => (0, db)
  | some r => (1, db.setRow id
      { r with needsAttention := true, attentionReason := cstr reason })

/-- `UPDATE job SET attempts = attempts + 1, next_retry_ms = ?,
last_error = ? WHERE id = ?`, with the number of rows changed. -/
def countAttempt (db : Database) (id : Bytes) (nextRetryMs : Int)
    (reason : Bytes) : Nat × Database :=
  match db.row id with
  | none => (0, db)
  | some r => (1, db.setRow id { r with
      attempts := r.attempts + 1
      nextRetryMs := nextRetryMs
      lastError := cstr reason })

def retryState (db : Database) (id : Bytes) : Option RetryState :=
  (db.row id).map fun r =>
    { attempts := r.attempts
      nextRetryMs := r.nextRetryMs
      lastError := r.lastError
      retryOf := r.retryOf }

/-- `ORDER BY next_retry_ms, created_at_ms, id`. -/
def dueBefore (a b : (_ : Bytes) × Row) : Prop :=
  a.2.nextRetryMs < b.2.nextRetryMs ∨ (a.2.nextRetryMs = b.2.nextRetryMs ∧
    (a.2.job.createdAtMs < b.2.job.createdAtMs ∨
      (a.2.job.createdAtMs = b.2.job.createdAtMs ∧ a.1 ≤ b.1)))

instance : DecidableRel dueBefore := fun _ _ =>
  inferInstanceAs (Decidable (_ ∨ (_ ∧ (_ ∨ (_ ∧ _)))))

/-- `due_jobs`: `SELECT id FROM job WHERE state = 'QUEUED' AND next_retry_ms <= ?`. -/
def dueJobs (db : Database) (nowMs : Int) : List Bytes :=
  ((db.entries.filter fun entry : (_ : Bytes) × Row =>
    decide (entry.2.job.state = .queued) && decide (entry.2.nextRetryMs ≤ nowMs)).insertionSort
      dueBefore).map (·.1)

variable {db db' : Database} {id other : Bytes} {r : Row}

@[simp] theorem row_setRow_self : (db.setRow id r).row id = some r := by
  simp [row, setRow]

theorem row_congr (h : cstr other = cstr id) : db.row other = db.row id :=
  congrArg (fun key => (db.lookup key : Option Row)) h

theorem row_setRow_of_key_eq (h : cstr other = cstr id) :
    (db.setRow id r).row other = some r :=
  (row_congr h).trans row_setRow_self

theorem row_setRow_ne (h : cstr other ≠ cstr id) :
    (db.setRow id r).row other = db.row other := by
  simp [row, setRow, h]

/-- What `due_jobs` returns is the row of the job, if that is QUEUED and due. -/
theorem mem_dueJobs {nowMs : Int} :
    cstr id ∈ db.dueJobs nowMs ↔
      ∃ r, db.row id = some r ∧ r.job.state = .queued ∧ r.nextRetryMs ≤ nowMs := by
  simp only [dueJobs, List.mem_map, List.mem_insertionSort, List.mem_filter, Bool.and_eq_true,
    decide_eq_true_eq]
  constructor
  · rintro ⟨⟨key, r⟩, ⟨hmem, hqueued, hdue⟩, rfl⟩
    exact ⟨r, AList.mem_lookup_iff.mpr hmem, hqueued, hdue⟩
  · rintro ⟨r, hrow, hqueued, hdue⟩
    exact ⟨⟨cstr id, r⟩, ⟨AList.mem_lookup_iff.mp hrow, hqueued, hdue⟩, rfl⟩

theorem state_of_row {job : Job} (h : (db.row id).map (·.job) = some job) :
    db.state id = some job.state := by
  obtain ⟨row, hrow, rfl⟩ := Option.map_eq_some_iff.mp h
  rw [state, hrow]
  rfl

theorem exists_row {state : JobState} (h : db.state id = some state) :
    ∃ r, db.row id = some r := by
  refine Option.ne_none_iff_exists'.mp fun hnone => ?_
  rw [Database.state, hnone] at h
  cases h

theorem state_congr (h : cstr other = cstr id) :
    db.state other = db.state id := by
  simp [state, row_congr h]

/-! ## What a successful statement does -/

theorem insertJob_ok {job : Job} {retryOf : Bytes}
    (h : db.insertJob job retryOf = .ok db') :
    db.row job.id = none ∧ ∃ r, r.job = bound job ∧ r.retryOf = cstr retryOf ∧ r.attempts = 0 ∧
      db' = db.setRow job.id r := by
  unfold insertJob at h
  split at h
  · split at h
    · rename_i hnone
      cases h
      exact ⟨hnone, _, rfl, rfl, rfl, rfl⟩
    · cases h
  · cases h

theorem updateJob_ok {after : Job} (h : db.updateJob id after = .ok db') :
    (db.row id = none ∧ db' = db) ∨
      ∃ r r', db.row id = some r ∧ r'.job = written r.job after ∧
        db' = db.setRow id r' := by
  unfold updateJob at h
  split at h
  · rename_i hnone
    cases h
    exact Or.inl ⟨hnone, rfl⟩
  · rename_i r hr
    split at h
    · cases h
      exact Or.inr ⟨r, _, hr, rfl, rfl⟩
    · cases h

/-- An `UPDATE` of the state goes through whenever its message fits its state:
the only constraint that it could violate is the one on `error`. -/
theorem updateJob_of_check {after : Job}
    (h : cstr after.error ≠ [] ↔ after.state = .failed) :
    ∃ db', db.updateJob id after = .ok db' := by
  unfold updateJob
  split
  · exact ⟨db, rfl⟩
  · rename_i r _
    exact ⟨_, dif_pos (by simpa [written] using h)⟩

/-- What the core state machine approves for a job that was read from a row also
passes the constraint on `error`. -/
theorem check_of_transition (r : Row) {target : JobState} {nowMs : Int} {message : Bytes}
    {after : Job} (h : r.job.transition target nowMs message = some after)
    (explains : target = .failed → Explains message) :
    cstr after.error ≠ [] ↔ after.state = .failed := by
  obtain ⟨legal, _, rfl⟩ := Job.transition_eq_some.mp h
  by_cases ht : target = .failed
  · simpa [ht, Explains] using explains ht
  · have hempty : r.job.error = [] := by
      by_contra hne
      have hfailed := r.check.mp hne
      rw [hfailed] at legal
      cases legal
    simp [ht, hempty, cstr]

/-- The state of any row after an `UPDATE` of one. -/
theorem state_updateJob {after : Job} (h : db.updateJob id after = .ok db') :
    db'.state other =
      if cstr other = cstr id then (db.state id).map (fun _ => after.state)
      else db.state other := by
  rcases updateJob_ok h with ⟨hnone, rfl⟩ | ⟨r, r', hr, hjob, rfl⟩
  · split
    · rename_i hkey
      simp [state, row_congr hkey, hnone]
    · rfl
  · split
    · rename_i hkey
      simp [state, row_setRow_of_key_eq hkey, hr, hjob, written]
    · rename_i hkey
      simp [state, row_setRow_ne hkey]

/-- An `UPDATE` of the state leaves the counter of attempts alone. -/
theorem attempts_updateJob {after : Job} (h : db.updateJob id after = .ok db')
    (hr : db.row id = some r) :
    ∃ r', db'.row id = some r' ∧ r'.job = written r.job after ∧ r'.attempts = r.attempts := by
  unfold updateJob at h
  rw [hr] at h
  simp only at h
  split at h
  · cases h
    exact ⟨_, row_setRow_self, rfl, rfl⟩
  · cases h

theorem state_insertJob {job : Job} {retryOf : Bytes}
    (h : db.insertJob job retryOf = .ok db') :
    db'.state other =
      if cstr other = cstr job.id then some job.state else db.state other := by
  obtain ⟨_, r, hjob, _, _, rfl⟩ := insertJob_ok h
  split
  · rename_i hkey
    simp [state, row_setRow_of_key_eq hkey, hjob, bound]
  · rename_i hkey
    simp [state, row_setRow_ne hkey]

theorem state_flag (reason : Bytes) :
    ((db.flag id reason).2).state other = db.state other := by
  unfold flag
  split
  · rfl
  · rename_i r hr
    by_cases hkey : cstr other = cstr id
    · simp [state, row_setRow_of_key_eq hkey, row_congr hkey, hr]
    · simp [state, row_setRow_ne hkey]

theorem state_countAttempt (nextRetryMs : Int) (reason : Bytes) :
    ((db.countAttempt id nextRetryMs reason).2).state other =
      db.state other := by
  unfold countAttempt
  split
  · rfl
  · rename_i r hr
    by_cases hkey : cstr other = cstr id
    · simp [state, row_setRow_of_key_eq hkey, row_congr hkey, hr]
    · simp [state, row_setRow_ne hkey]

end Database

end FileMover
