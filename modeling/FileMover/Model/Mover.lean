import FileMover.Model.JobStore

/-!
# The move engine

`mover.cpp`: the six phases of a move, split into the same three functions as
the source. The single commit point is the rename (or the link) out of the
source directory; `finishAfterCommit` is what follows it and `recover` is how a
later run picks an interrupted move up again.

A result carries the outcome and the text left in the `error` parameter.
-/

namespace FileMover

open Framework

structure MoveRequest where
  sourceDir : Bytes
  sourceName : Bytes
  destDir : Bytes
  destName : Bytes
deriving DecidableEq, Repr

inductive MoveOutcome
  | completed
  | rejected
  | abortedBeforeCommit
  | haltedAfterCommit
  | failedExternal
deriving DecidableEq, Repr

abbrev MoveResult := MoveOutcome × Bytes

def stagingName (id : Bytes) : Bytes := lit ".swit-partial-" ++ id

def nextTick (previous : Int) : Int := previous + 1

def refusingToResurrect (id : Bytes) : Bytes :=
  lit "mover: job " ++ quoted id ++
    lit " is already FAILED; refusing to resurrect it"

/-! ## Phase 1 -/

/-- The first phase of `execute`: it makes no change. What passes it yields the
job as recorded, the two directories, and the text that a failing second probe
of the source leaves behind in `error` without refusing anything. -/
def validate (id : Bytes) (request : MoveRequest) :
    Prog (Except Bytes (Job × Dir × Dir × Bytes)) :=
  match validateExternalPath request.sourceDir,
      validateExternalPath request.destDir with
  | .error message, _ => return .error message
  | .ok (), .error message => return .error message
  | .ok (), .ok () => do
    match ← load .executeLoad id with
    | .error message => return .error message
    | .ok none =>
        return .error (lit "mover: no durable record for job " ++ quoted id ++
          lit ("; intent must be recorded before any filesystem action " ++
            "(L2-JOB-013)"))
    | .ok (some job) =>
      match ← openRoot .sourceRoot request.sourceDir with
      | .error message => return .error message
      | .ok sourceDir =>
        match ← openRoot .destRoot request.destDir with
        | .error message => return .error message
        | .ok destDir =>
          match ← classify .sourceProbe sourceDir request.sourceName with
          | .error message => return .error message
          | .ok sourceId =>
            if sourceId.kind = .missing then
              return .error (lit "mover: source " ++ quoted request.sourceName ++
                lit " does not exist")
            else if sourceId.kind ≠ .regular then
              return .error (lit "mover: refusing " ++ quoted request.sourceName ++
                lit ": it is a " ++ sourceId.kind.toToken ++
                lit ", not a regular file")
            else
              match ← openRegular sourceDir request.sourceName sourceId with
              | .error message => return .error message
              | .ok () =>
                match ← classify .sizeProbe sourceDir request.sourceName with
                | .error message => return .ok (job, sourceDir, destDir, message)
                | .ok _ => return .ok (job, sourceDir, destDir, [])

/-! ## Phases 4 to 6 -/

/-- Flag the job for an operator and stop; whether the flag could be written
is ignored. -/
def haltWith (id : Bytes) (outcome : MoveOutcome) (error : Bytes) :
    Prog MoveResult := do
  let _ ← markNeedsAttention id error
  return (outcome, error)

/-- Phase 6. -/
def recordDone (id : Bytes) (tick : Int) (error : Bytes) : Prog MoveResult := do
  match ← recordTransition id .done (nextTick tick) [] .afterCommitPoint with
  | .error (_, message) => haltWith id .haltedAfterCommit message
  | .ok () => return (.completed, error)

/-- `classify(..) && kind != Missing`, with the probe's own error dropped. -/
def sawEntry (site : Site) (dir : Dir) (name : Bytes) : Prog Bool := do
  match ← classify site dir name with
  | .error _ => return false
  | .ok identity => return identity.kind ≠ .missing

/-- The inode that a reply to a probe shows. -/
def seen : Except Fault Stat → Option Inode
  | .ok st => some st.inode
  | .error _ => none

theorem sawEntry_bad {site : Site} {dir : Dir} {name : Bytes}
    (bad : isPlainName name = false) : sawEntry site dir name = .pure false := by
  simp [sawEntry, classify_bad bad]

/-- A probe of a plain name, as `sawEntry` reads it. -/
theorem sawEntry_plain {site : Site} {dir : Dir} {name : Bytes}
    (plain : isPlainName name = true) :
    sawEntry site dir name =
      .call ⟨site, .fstatat ⟨dir, name⟩⟩
        (fun reply => .pure (seen reply).isSome) := by
  unfold sawEntry
  rw [classify_plain plain]
  change Program.call _ _ = Program.call _ _
  congr 1
  funext reply
  cases reply with
  | ok st =>
      have hkind : kindFromMode st.type ≠ .missing := kindFromMode_ne_missing st.type
      simp [identify, FileIdentity.ofStat, seen, hkind]
  | error e =>
      by_cases he : e = ENOENT
      · simp [identify, he, FileIdentity.missing, seen]
      · simp [identify, he, seen]

/-- Phases 5 and 6. -/
def publishAndRecord (id : Bytes) (request : MoveRequest) (destDir : Dir)
    (tick : Int) (error : Bytes) : Prog MoveResult := do
  let sawStaged ← sawEntry .stagedProbe destDir (stagingName id)
  let sawFinal ← sawEntry .finalProbe destDir request.destName
  if sawStaged then
    match ← publish destDir (stagingName id) request.destName with
    | .error message => haltWith id .haltedAfterCommit message
    | .ok () => recordDone id tick error
  else if sawFinal then recordDone id tick error
  else
    haltWith id .failedExternal (lit "mover: job " ++ quoted id ++
      lit (" is past the commit point but neither the staged nor the " ++
        "final name exists; the delivered object was removed " ++
        "externally (L2-SEC-011)"))

/-- `MoveEngine::finish_after_commit`; `error` is the text its caller hands
over in the out-parameter. -/
def finishAfterCommit (id : Bytes) (request : MoveRequest) (destDir : Dir)
    (tick : Int) (error : Bytes) : Prog MoveResult := do
  match ← load .finishLoad id with
  | .error message => return (.haltedAfterCommit, message)
  | .ok none =>
      return (.haltedAfterCommit,
        if error = [] then lit "mover: no durable record for job " ++ quoted id
        else error)
  | .ok (some job) =>
      if job.state = .done then return (.completed, error)
      else if job.state = .failed then
        return (.haltedAfterCommit, refusingToResurrect id)
      else if job.state = .renaming then
        match ← recordTransition id .transferring tick [] .afterCommitPoint with
        | .error (_, message) => haltWith id .haltedAfterCommit message
        | .ok () => publishAndRecord id request destDir tick error
      else publishAndRecord id request destDir tick error

/-! ## Phases 2 and 3 -/

/-- Phase 3, the commit point, and everything after it. -/
def commitAndFinish (id : Bytes) (request : MoveRequest)
    (strategy : MoveStrategy) (sourceDir destDir : Dir) (tick : Int)
    (error : Bytes) : Prog MoveResult := do
  match ← moveWithin sourceDir request.sourceName destDir (stagingName id)
      strategy with
  | .error message => return (.abortedBeforeCommit, message)
  | .ok () => finishAfterCommit id request destDir (nextTick tick) error

/-- `MoveEngine::execute`. -/
def execute (id : Bytes) (request : MoveRequest) (strategy : MoveStrategy) :
    Prog MoveResult := do
  match ← validate id request with
  | .error message => return (.rejected, message)
  | .ok (job, sourceDir, destDir, error) =>
      let tick := nextTick job.updatedAtMs
      if job.state = .done then return (.completed, error)
      else if job.state = .failed then
        return (.rejected, refusingToResurrect id)
      else if job.state = .queued then
        match ← recordTransition id .renaming tick [] .beforeCommitPoint with
        | .error (_, message) => return (.abortedBeforeCommit, message)
        | .ok () =>
            commitAndFinish id request strategy sourceDir destDir tick error
      else commitAndFinish id request strategy sourceDir destDir tick error

/-! ## Recovery -/

/-- Record FAILED and stop; a refused or failed write is ignored. -/
def failWith (id : Bytes) (outcome : MoveOutcome) (tick : Int) (error : Bytes) :
    Prog MoveResult := do
  let _ ← recordTransition id .failed tick error .afterCommitPoint
  return (outcome, error)

/-- The five cases of `recover`, once the state on disk and the record are
known. -/
def redrive (id : Bytes) (request : MoveRequest) (strategy : MoveStrategy)
    (sourceDir destDir : Dir) (job : Job) : MoveState → Prog MoveResult
  | .notStarted => execute id request strategy
  | .interrupted => do
      match ← moveWithin sourceDir request.sourceName destDir (stagingName id)
          .linkThenUnlink with
      | .error message => haltWith id .haltedAfterCommit message
      | .ok () =>
          finishAfterCommit id request destDir (nextTick job.updatedAtMs) []
  | .completed =>
      finishAfterCommit id request destDir (nextTick job.updatedAtMs) []
  | .collision =>
      failWith id .haltedAfterCommit (nextTick job.updatedAtMs)
        (lit "mover: " ++ quoted (stagingName id) ++
          lit (" exists and is not the object we moved; refusing to " ++
            "clobber it"))
  | .bothMissing => do
      if ← sawEntry .recoverFinalProbe destDir request.destName then
        finishAfterCommit id request destDir (nextTick job.updatedAtMs) []
      else
        failWith id .failedExternal (nextTick job.updatedAtMs)
          (lit ("mover: neither source nor staged destination exists for " ++
            "job ") ++ quoted id ++
            lit ("; the source was removed externally (L2-SEC-011). Not " ++
              "retrying automatically."))

/-- `MoveEngine::recover`. -/
def recover (id : Bytes) (request : MoveRequest) (strategy : MoveStrategy) :
    Prog MoveResult := do
  match ← openRoot .sourceRoot request.sourceDir with
  | .error message => return (.rejected, message)
  | .ok sourceDir =>
    match ← openRoot .destRoot request.destDir with
    | .error message => return (.rejected, message)
    | .ok destDir =>
      match ← classifyMoveState sourceDir request.sourceName destDir
          (stagingName id) with
      | .error message => return (.rejected, message)
      | .ok state =>
        match ← load .recoverLoad id with
        | .error message => return (.rejected, message)
        | .ok none =>
            return (.rejected, lit "mover: no durable record for job " ++ quoted id)
        | .ok (some job) =>
            redrive id request strategy sourceDir destDir job state

/-! ## Footprints

The calls of the engine, run for job `id`: it looks, it writes the state and the flag
of its own row, and it moves names. -/

section Footprints
variable {allowed : Call → Prop} {id : Bytes} {request : MoveRequest} {destDir : Dir}
  {tick : Int} {error : Bytes}

theorem uses_haltWith {outcome : MoveOutcome}
    (flags : ∀ reason, allowed ⟨.flagWrite, .flagJob id reason⟩) :
    (haltWith id outcome error).Uses allowed :=
  (uses_markNeedsAttention (flags error)).bind fun _ => trivial

theorem uses_sawEntry {site : Site} {dir : Dir} {name : Bytes}
    (probe : allowed ⟨site, .fstatat ⟨dir, name⟩⟩) :
    (sawEntry site dir name).Uses allowed := by
  refine (uses_classify probe).bind fun result => ?_
  cases result with
  | error message => trivial
  | ok identity => trivial

variable (reads : ∀ site op, op.readOnly = true → allowed ⟨site, op⟩)
  (flags : ∀ reason, allowed ⟨.flagWrite, .flagJob id reason⟩)
include reads

theorem uses_validate : (validate id request).Uses allowed := by
  unfold validate
  split
  · trivial
  · trivial
  refine (uses_load (reads _ _ rfl)).bind fun loaded => ?_
  match loaded with
  | .error message => trivial
  | .ok none => trivial
  | .ok (some job) =>
    refine (uses_openRoot (reads _ _ rfl)).bind fun source => ?_
    cases source with
    | error message => trivial
    | ok sourceDir =>
    refine (uses_openRoot (reads _ _ rfl)).bind fun dest => ?_
    cases dest with
    | error message => trivial
    | ok destDir =>
    refine (uses_classify (reads _ _ rfl)).bind fun probed => ?_
    cases probed with
    | error message => trivial
    | ok sourceId =>
    simp only
    split
    · trivial
    split
    · trivial
    refine (uses_openRegular fun _ _ h _ => reads _ _ h).bind fun opened => ?_
    cases opened with
    | error message => trivial
    | ok _ =>
    refine (uses_classify (reads _ _ rfl)).bind fun probed => ?_
    cases probed with
    | error message => trivial
    | ok _ => trivial

section Finishing
variable (looks : ∀ site op, op.readOnly = true → site.early = false → allowed ⟨site, op⟩)
  (finishes : ∀ target before after, target = .transferring ∨ target = .done →
    after.state = target → allowed ⟨.transitionWrite target, .updateJob id before after⟩)
include looks flags finishes
omit reads

theorem uses_recordDone : (recordDone id tick error).Uses allowed := by
  refine (uses_recordTransition (looks _ _ rfl rfl) fun _ _ h =>
    finishes _ _ _ (by decide) (Job.transition_state h)).bind fun result => ?_
  cases result with
  | error failure => exact uses_haltWith flags
  | ok _ => trivial

theorem uses_publishAndRecord
    (publishes : allowed ⟨.publishRename,
      .renameat ⟨destDir, stagingName id⟩ ⟨destDir, request.destName⟩⟩) :
    (publishAndRecord id request destDir tick error).Uses allowed := by
  refine (uses_sawEntry (looks _ _ rfl rfl)).bind fun sawStaged => ?_
  refine (uses_sawEntry (looks _ _ rfl rfl)).bind fun sawFinal => ?_
  cases sawStaged with
  | true =>
      refine (uses_publish looks publishes).bind fun result => ?_
      cases result with
      | error message => exact uses_haltWith flags
      | ok _ => exact uses_recordDone flags looks finishes
  | false =>
      cases sawFinal with
      | true => exact uses_recordDone flags looks finishes
      | false => exact uses_haltWith flags

theorem uses_finishAfterCommit
    (publishes : allowed ⟨.publishRename,
      .renameat ⟨destDir, stagingName id⟩ ⟨destDir, request.destName⟩⟩) :
    (finishAfterCommit id request destDir tick error).Uses allowed := by
  refine (uses_load (looks _ _ rfl rfl)).bind fun loaded => ?_
  match loaded with
  | .error message => trivial
  | .ok none => trivial
  | .ok (some job) =>
      simp only
      split
      · trivial
      · split
        · trivial
        · split
          · refine (uses_recordTransition (looks _ _ rfl rfl) fun _ _ h =>
              finishes _ _ _ (by decide) (Job.transition_state h)).bind fun result => ?_
            cases result with
            | error failure => exact uses_haltWith flags
            | ok _ => exact uses_publishAndRecord flags looks finishes publishes
          · exact uses_publishAndRecord flags looks finishes publishes

theorem uses_commitAndFinish {strategy : MoveStrategy} {sourceDir : Dir}
    (moves : ∀ site op, op.movesNames = true → allowed ⟨site, op⟩) :
    (commitAndFinish id request strategy sourceDir destDir tick error).Uses allowed := by
  refine (uses_moveWithin (moves _ _ rfl) (moves _ _ rfl) (moves _ _ rfl)).bind
    fun result => ?_
  cases result with
  | error message => trivial
  | ok _ => exact uses_finishAfterCommit flags looks finishes (moves _ _ rfl)

end Finishing

section Recording
variable (records : ∀ target before after, target ≠ .queued → after.state = target →
    allowed ⟨.transitionWrite target, .updateJob id before after⟩)
include flags records

theorem uses_execute {strategy : MoveStrategy}
    (moves : ∀ site op, op.movesNames = true → allowed ⟨site, op⟩) :
    (execute id request strategy).Uses allowed := by
  have hfinishes : ∀ target before after, target = .transferring ∨ target = .done →
      after.state = target → allowed ⟨.transitionWrite target, .updateJob id before after⟩ := by
    rintro target before after (rfl | rfl)
    · exact records _ before after (by decide)
    · exact records _ before after (by decide)
  refine (uses_validate reads).bind fun result => ?_
  match result with
  | .error message => trivial
  | .ok (job, sourceDir, destDir, error) =>
      simp only
      split
      · trivial
      · split
        · trivial
        · split
          · refine (uses_recordTransition (reads _ _ rfl) fun _ _ h =>
              records _ _ _ (by decide) (Job.transition_state h)).bind fun result => ?_
            cases result with
            | error failure => trivial
            | ok _ => exact uses_commitAndFinish flags (fun _ _ h _ => reads _ _ h) hfinishes moves
          · exact uses_commitAndFinish flags (fun _ _ h _ => reads _ _ h) hfinishes moves

theorem uses_redrive {strategy : MoveStrategy} {sourceDir : Dir} {job : Job} {state : MoveState}
    (moves : ∀ site op, op.movesNames = true → allowed ⟨site, op⟩) :
    (redrive id request strategy sourceDir destDir job state).Uses allowed := by
  have hfinishes : ∀ target before after, target = .transferring ∨ target = .done →
      after.state = target → allowed ⟨.transitionWrite target, .updateJob id before after⟩ := by
    rintro target before after (rfl | rfl)
    · exact records _ before after (by decide)
    · exact records _ before after (by decide)
  have hfinish : ∀ tick error,
      (finishAfterCommit id request destDir tick error).Uses allowed :=
    fun tick error => uses_finishAfterCommit flags (fun _ _ h _ => reads _ _ h) hfinishes
      (moves _ _ rfl)
  have hfail : ∀ outcome tick error, (failWith id outcome tick error).Uses allowed := by
    intro outcome tick error
    exact (uses_recordTransition (reads _ _ rfl) fun _ _ h =>
      records _ _ _ (by decide) (Job.transition_state h)).bind fun _ => trivial
  cases state with
  | notStarted => exact uses_execute reads flags records moves
  | interrupted =>
      refine (uses_moveWithin (moves _ _ rfl) (moves _ _ rfl) (moves _ _ rfl)).bind
        fun result => ?_
      cases result with
      | error message => exact uses_haltWith flags
      | ok _ => exact hfinish _ _
  | completed => exact hfinish _ _
  | collision => exact hfail _ _ _
  | bothMissing =>
      refine (uses_sawEntry (reads _ _ rfl)).bind fun sawFinal => ?_
      cases sawFinal with
      | true => exact hfinish _ _
      | false => exact hfail _ _ _

theorem uses_recover {strategy : MoveStrategy}
    (moves : ∀ site op, op.movesNames = true → allowed ⟨site, op⟩) :
    (recover id request strategy).Uses allowed := by
  refine (uses_openRoot (reads _ _ rfl)).bind fun source => ?_
  cases source with
  | error message => trivial
  | ok sourceDir =>
  refine (uses_openRoot (reads _ _ rfl)).bind fun dest => ?_
  cases dest with
  | error message => trivial
  | ok destDir =>
  refine (uses_classifyMoveState fun _ _ h _ => reads _ _ h).bind fun state => ?_
  cases state with
  | error message => trivial
  | ok state =>
  refine (uses_load (reads _ _ rfl)).bind fun loaded => ?_
  match loaded with
  | .error message => trivial
  | .ok none => trivial
  | .ok (some job) => exact uses_redrive reads flags records moves

end Recording

end Footprints

/-! ## A small world

Two directories, one job and a few entries: enough to run the engine on. -/

def sampleRequest : MoveRequest := ⟨lit "/s", lit "a", lit "/d", lit "b"⟩

def sampleRow (state : JobState) : Row where
  job := { Job.new (lit "j") (lit "/s/a") (lit "/d/b") 0 with
    state := state
    error := if state = .failed then lit "cancelled by operator" else [] }
  needsAttention := false
  attentionReason := []
  attempts := 0
  nextRetryMs := 0
  lastError := []
  retryOf := []
  check := by cases state <;> decide

/-- Job `j` in the given state, and regular files under the given entries of
`/s` (directory 1) and `/d` (directory 2). -/
def sampleWorld (state : JobState) (entries : List (Slot × Inode)) : World where
  fs :=
    { root := fun path =>
        if path = lit "/s" then some 1 else if path = lit "/d" then some 2 else none
      entry := fun slot => entries.lookup slot
      type := fun _ => .reg
      emptyDir := fun _ => false }
  db := Database.setRow ∅ (lit "j") (sampleRow state)

/-- The file to be moved. -/
def sampleSource : Slot × Inode := (⟨1, lit "a"⟩, ⟨0, 7⟩)

end FileMover
