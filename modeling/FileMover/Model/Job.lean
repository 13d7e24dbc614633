import FileMover.Model.Text

/-!
# The job state machine

`job.hpp` and `job.cpp`: the five states of a job, the transitions between
them and the record that carries them. Callers supply the timestamps, which
are plain integers here (the program never approaches the end of their range).
-/

namespace FileMover

inductive JobState
  | queued
  | renaming
  | transferring
  | done
  | failed
deriving DecidableEq, Repr

namespace JobState

def toToken : JobState → Bytes
  | .queued => lit "QUEUED"
  | .renaming => lit "RENAMING"
  | .transferring => lit "TRANSFERRING"
  | .done => lit "DONE"
  | .failed => lit "FAILED"

/-- `from_string`. -/
def fromToken (token : Bytes) : Option JobState :=
  if token = lit "QUEUED" then some .queued
  else if token = lit "RENAMING" then some .renaming
  else if token = lit "TRANSFERRING" then some .transferring
  else if token = lit "DONE" then some .done
  else if token = lit "FAILED" then some .failed
  else none

theorem fromToken_toToken (s : JobState) : fromToken s.toToken = some s := by
  cases s <;> decide

def isTerminal (s : JobState) : Bool := s = .done || s = .failed

end JobState

def isLegalTransition : JobState → JobState → Bool
  | .queued, target => target = .renaming || target = .failed
  | .renaming, target => target = .transferring || target = .failed
  | .transferring, target => target = .done || target = .failed
  | .done, _ => false
  | .failed, _ => false

structure Job where
  id : Bytes
  sourcePath : Bytes
  destPath : Bytes
  state : JobState
  createdAtMs : Int
  updatedAtMs : Int
  finishedAtMs : Int
  bytesTotal : UInt64
  bytesMoved : UInt64
  error : Bytes
deriving DecidableEq, Repr

namespace Job

/-- The constructor: a fresh job is QUEUED and has no error. -/
def new (id source dest : Bytes) (nowMs : Int) : Job where
  id := id
  sourcePath := source
  destPath := dest
  state := .queued
  createdAtMs := nowMs
  updatedAtMs := nowMs
  finishedAtMs := 0
  bytesTotal := 0
  bytesMoved := 0
  error := []

/-- `Job::transition`; `none` where the source returns `false` and leaves the
job unmodified. -/
def transition (job : Job) (target : JobState) (nowMs : Int) (message : Bytes) :
    Option Job :=
  if isLegalTransition job.state target = false then none
  else if target = .failed ∧ message = [] then none
  else if target ≠ .failed ∧ message ≠ [] then none
  else some { job with
    state := target
    updatedAtMs := nowMs
    finishedAtMs := if target.isTerminal then nowMs else job.finishedAtMs
    error := if target = .failed then message else job.error }

/-- The three rules a transition obeys, in one statement: it is refused unless
the edge is legal and a message is given exactly for FAILED, and otherwise it
moves the state and nothing the caller did not ask for. -/
theorem transition_eq_some {job job' : Job} {target : JobState} {nowMs : Int}
    {message : Bytes} :
    job.transition target nowMs message = some job' ↔
      isLegalTransition job.state target = true ∧ (target = .failed ↔ message ≠ []) ∧
      job' = { job with
        state := target
        updatedAtMs := nowMs
        finishedAtMs := if target.isTerminal then nowMs else job.finishedAtMs
        error := if target = .failed then message else job.error } := by
  unfold transition
  by_cases hlegal : isLegalTransition job.state target = true
  · by_cases ht : target = .failed
    · by_cases hm : message = []
      · simp [ht, hm]
      · simp [ht, hm, @eq_comm _ job']
    · by_cases hm : message = []
      · simp [hlegal, ht, hm, @eq_comm _ job']
      · simp [hlegal, ht, hm]
  · simp [hlegal]

theorem transition_state {job job' : Job} {target : JobState} {nowMs : Int}
    {message : Bytes} (h : job.transition target nowMs message = some job') :
    job'.state = target := by
  rw [transition_eq_some] at h
  rw [h.2.2]

/-- With a message that fits, only an illegal edge is refused. -/
theorem illegal_of_transition {job : Job} {target : JobState} {nowMs : Int}
    {message : Bytes} (h : job.transition target nowMs message = none)
    (fits : target = .failed ↔ message ≠ []) :
    isLegalTransition job.state target = false := by
  by_contra hlegal
  obtain ⟨after, hafter⟩ : ∃ after, job.transition target nowMs message = some after :=
    ⟨_, transition_eq_some.mpr ⟨by simpa using hlegal, fits, rfl⟩⟩
  rw [h] at hafter
  cases hafter

theorem transition_legal {job job' : Job} {target : JobState} {nowMs : Int}
    {message : Bytes} (h : job.transition target nowMs message = some job') :
    isLegalTransition job.state job'.state = true := by
  rw [transition_state h]
  exact (transition_eq_some.mp h).1

end Job

end FileMover
