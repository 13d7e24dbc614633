import FileMover.Framework.Program
import FileMover.Model.Filesystem
import FileMover.Model.Database

/-!
# The calls the program makes

Every system call and every SQL statement is one atomic call on a world made
of a filesystem and a job table. A call fails either because the namespace or
the schema says so, or because a fault was injected; a call that fails changes
nothing.

`ENOENT` from `fstatat` is an answer, not a fault: it says that the name is
absent, so it is never injected.

Closing a descriptor has no effect on names or on the table and is left out,
as are the progress callback and the test hooks, which are null in production.
-/

namespace FileMover

open Framework

structure Stat where
  inode : Inode
  type : FileType
deriving DecidableEq, Repr

inductive Op
  | openRoot (path : Bytes)
  | fstatat (slot : Slot)
  | openat (slot : Slot)
  | fstat (fd : Inode)
  | renameat2 (source target : Slot)
  | linkat (source target : Slot)
  | unlinkat (slot : Slot)
  | renameat (source target : Slot)
  | fsync (fd : Inode)
  | fsyncDir (dir : Dir)
  | selectJob (id : Bytes)
  | insertJob (job : Job) (retryOf : Bytes)
  /-- Binds columns of `after` only; `before` is the job that the caller had
  read and is ignored by the statement. -/
  | updateJob (id : Bytes) (before after : Job)
  | flagJob (id reason : Bytes)
  | countAttempt (id : Bytes) (nextRetryMs : Int) (reason : Bytes)
  | selectRetry (id : Bytes)
deriving DecidableEq

/-- What a successful call yields. A file descriptor is the inode it pins, and
the two counters are `sqlite3_changes`. -/
abbrev Answer : Op → Type
  | .openRoot _ => Dir
  | .fstatat _ => Stat
  | .openat _ => Inode
  | .fstat _ => Stat
  | .selectJob _ => Option Job
  | .flagJob _ _ => Nat
  | .countAttempt _ _ _ => Nat
  | .selectRetry _ => Option RetryState
  | _ => Unit

/-- Where in the source a call is made. -/
inductive Site
  -- MoveEngine::execute, phase 1
  | sourceRoot
  | destRoot
  | executeLoad
  | sourceProbe
  | sourceOpen
  | sourceFstat
  | sizeProbe
  -- move_within
  | commitRename
  | commitLink
  | commitUnlink
  -- MoveEngine::finish_after_commit and publish
  | finishLoad
  | stagedProbe
  | finalProbe
  | publishOpen
  | publishFsync
  | publishRename
  | publishDirFsync
  -- MoveEngine::recover
  | fromProbe
  | toProbe
  | recoverLoad
  | recoverFinalProbe
  -- JobStore
  | transitionLoad (target : JobState)
  | transitionWrite (target : JobState)
  | intentWrite
  | flagWrite
  | attemptWrite
  | retryLoad
  -- JobManager
  | failLoad
  | cancelLoad
  | retriedLoad
  | candidateLoad
deriving DecidableEq, Repr

/-- The system calls of `execute` up to the commit. -/
def Site.early : Site → Bool
  | .sourceRoot | .destRoot | .sourceProbe | .sourceOpen | .sourceFstat | .sizeProbe => true
  | .commitRename | .commitLink | .commitUnlink => true
  | _ => false

structure Call where
  site : Site
  op : Op

/-- The code a failed call reports: an `errno` or an SQLite result code. -/
abbrev Fault := Nat

abbrev Reply (c : Call) : Type := Except Fault (Answer c.op)

structure World where
  fs : Filesystem
  db : Database

/-- Whether the environment may make this call fail with this code. -/
def Op.admits : Op → Fault → Bool
  | .fstatat _, e => e ≠ ENOENT
  | _, _ => true

def World.stat (w : World) (inode : Inode) : Stat := ⟨inode, w.fs.type inode⟩

/-- The effect of a system call on the namespace. -/
def World.onFs (w : World) (result : Except Errno Filesystem) :
    Except Fault Unit × World :=
  match result with
  | .error e => (.error e, w)
  | .ok fs => (.ok (), { w with fs := fs })

def World.onDb (w : World) (result : Except SqliteCode Database) :
    Except Fault Unit × World :=
  match result with
  | .error e => (.error e, w)
  | .ok db => (.ok (), { w with db := db })

/-- The call as asked. -/
def answer : (op : Op) → World → Except Fault (Answer op) × World
  | .openRoot path, w =>
      match w.fs.root (cstr path) with
      | none => (.error ENOENT, w)
      | some dir => (.ok dir, w)
  | .fstatat slot, w =>
      match w.fs.entry slot with
      | none => (.error ENOENT, w)
      | some inode => (.ok (w.stat inode), w)
  | .openat slot, w =>
      -- `O_NOFOLLOW` refuses a symbolic link; a socket cannot be opened
      match w.fs.entry slot with
      | none => (.error ENOENT, w)
      | some inode =>
          if w.fs.type inode = .lnk then (.error ELOOP, w)
          else if w.fs.type inode = .sock then (.error ENXIO, w)
          else (.ok inode, w)
  | .fstat fd, w => (.ok (w.stat fd), w)
  | .renameat2 source target, w => w.onFs (w.fs.renameNoReplace source target)
  | .linkat source target, w => w.onFs (w.fs.link source target)
  | .unlinkat slot, w => w.onFs (w.fs.unlink slot)
  | .renameat source target, w => w.onFs (w.fs.rename source target)
  | .fsync _, w => (.ok (), w)
  | .fsyncDir _, w => (.ok (), w)
  | .selectJob id, w => (.ok ((w.db.row id).map (·.job)), w)
  | .insertJob job retryOf, w => w.onDb (w.db.insertJob job retryOf)
  | .updateJob id _ after, w => w.onDb (w.db.updateJob id after)
  | .flagJob id reason, w =>
      (.ok (w.db.flag id reason).1, { w with db := (w.db.flag id reason).2 })
  | .countAttempt id nextRetryMs reason, w =>
      (.ok (w.db.countAttempt id nextRetryMs reason).1,
        { w with db := (w.db.countAttempt id nextRetryMs reason).2 })
  | .selectRetry id, w => (.ok (w.db.retryState id), w)

def perform (op : Op) (fault : Option Fault) (w : World) :
    Except Fault (Answer op) × World :=
  match fault with
  | none => answer op w
  | some e => if op.admits e then (.error e, w) else answer op w

def machine : Machine Call Reply Fault World where
  perform c := perform c.op

abbrev Prog := Program Call Reply

/-- Make one call at a given place of the source. -/
def ask (site : Site) (op : Op) : Prog (Except Fault (Answer op)) :=
  .call ⟨site, op⟩ .pure

@[simp] theorem ask_bind {α : Type} (site : Site) (op : Op)
    (next : Except Fault (Answer op) → Prog α) :
    (ask site op).bind next = .call ⟨site, op⟩ next := rfl

/-! ## What a call can do -/

/-- A call either failed and changed nothing, or was performed as asked. -/
theorem perform_cases (op : Op) (fault : Option Fault) (w : World) :
    (∃ e, op.admits e = true ∧ perform op fault w = (.error e, w)) ∨
      perform op fault w = answer op w := by
  cases fault with
  | none => exact Or.inr rfl
  | some e =>
      by_cases h : op.admits e = true
      · exact Or.inl ⟨e, h, by simp [perform, h]⟩
      · exact Or.inr (by simp [perform, h])

/-- The same, with what is known of the fault in the second case. -/
theorem perform_split (op : Op) (fault : Option Fault) (w : World) :
    (∃ e, perform op fault w = (.error e, w)) ∨
      ((∀ e, fault = some e → op.admits e = false) ∧
        perform op fault w = answer op w) := by
  cases fault with
  | none => exact Or.inr ⟨(fun _ h => nomatch h), rfl⟩
  | some e =>
      cases hadmits : op.admits e with
      | true => exact Or.inl ⟨e, by simp [perform, hadmits]⟩
      | false =>
          refine Or.inr ⟨?_, by simp [perform, hadmits]⟩
          intro e' he'
          cases he'
          exact hadmits

/-- The calls that only look. -/
def Op.readOnly : Op → Bool
  | .renameat2 _ _ | .linkat _ _ | .unlinkat _ | .renameat _ _ => false
  | .insertJob _ _ | .updateJob _ _ _ | .flagJob _ _
  | .countAttempt _ _ _ => false
  | _ => true

/-- The calls that change names. -/
def Op.movesNames : Op → Bool
  | .renameat2 _ _ | .linkat _ _ | .unlinkat _ | .renameat _ _ => true
  | _ => false

theorem movesNames_of_readOnly {op : Op} (h : op.readOnly = true) : op.movesNames = false := by
  cases op <;> first | rfl | cases h

/-- The calls that give an object another name out of the source directory. -/
def Op.links : Op → Bool
  | .renameat2 _ _ | .linkat _ _ => true
  | _ => false

theorem links_of_readOnly {op : Op} (h : op.readOnly = true) : op.links = false := by
  cases op with
  | renameat2 | linkat => cases h
  | _ => rfl

/-- The calls that are SQL statements. -/
def Op.onStore : Op → Bool
  | .selectJob _ | .insertJob _ _ | .updateJob _ _ _ => true
  | .flagJob _ _ | .countAttempt _ _ _ | .selectRetry _ => true
  | _ => false

theorem answer_readOnly {op : Op} (h : op.readOnly = true) (w : World) :
    (answer op w).2 = w := by
  cases op with
  | openRoot path => simp only [answer]; split <;> rfl
  | fstatat slot => simp only [answer]; split <;> rfl
  | openat slot =>
      simp only [answer]
      split
      · rfl
      · split
        · rfl
        · split <;> rfl
  | fstat | fsync | fsyncDir | selectJob | selectRetry => rfl
  | renameat2 | linkat | unlinkat | renameat => cases h
  | insertJob | updateJob | flagJob | countAttempt => cases h

theorem perform_readOnly {op : Op} (h : op.readOnly = true)
    (fault : Option Fault) (w : World) : (perform op fault w).2 = w := by
  rcases perform_cases op fault w with ⟨e, _, heq⟩ | heq
  · rw [heq]
  · rw [heq]
    exact answer_readOnly h w

theorem perform_fs {op : Op} (h : op.movesNames = false) (fault : Option Fault) (w : World) :
    (perform op fault w).2.fs = w.fs := by
  rcases perform_cases op fault w with ⟨e, _, heq⟩ | heq
  · rw [heq]
  · rw [heq]
    cases op with
    | renameat2 | linkat | unlinkat | renameat => cases h
    | insertJob | updateJob =>
        simp only [answer, World.onDb]
        split <;> rfl
    | flagJob | countAttempt => rfl
    | openRoot | fstatat | openat | fstat | fsync | fsyncDir | selectJob | selectRetry =>
        rw [answer_readOnly rfl]

/-- Names and the table have nothing to do with each other. -/
theorem perform_movesNames {op : Op} (h : op.movesNames = true) (fault : Option Fault)
    (w : World) : (perform op fault w).2.db = w.db := by
  rcases perform_cases op fault w with ⟨e, _, heq⟩ | heq
  · rw [heq]
  · rw [heq]
    cases op with
    | renameat2 | linkat | unlinkat | renameat =>
        simp only [answer, World.onFs]
        split <;> rfl
    | _ => cases h

/-- A call that fails changes nothing. -/
theorem perform_failed {op : Op} {fault : Option Fault} {w : World} {e : Fault}
    (h : (perform op fault w).1 = .error e) : (perform op fault w).2 = w := by
  rcases perform_cases op fault w with ⟨_, _, heq⟩ | heq
  · rw [heq]
  · rw [heq] at h ⊢
    cases op with
    | insertJob | updateJob =>
        simp only [answer, World.onDb] at h ⊢
        split at h
        · rfl
        · cases h
    | renameat2 | linkat | unlinkat | renameat =>
        simp only [answer, World.onFs] at h ⊢
        split at h
        · rfl
        · cases h
    | flagJob | countAttempt => cases h
    | _ => exact answer_readOnly rfl w

/-! ## What a call commits to the table -/

/-- The state that a call commits to a row, with the key of the row. -/
def committed : (op : Op) → Except Fault (Answer op) → World → Option (Bytes × JobState)
  | .insertJob job _, .ok _, _ => some (cstr job.id, job.state)
  | .updateJob id _ after, .ok _, w =>
      if w.db.state id = none then none else some (cstr id, after.state)
  | _, _, _ => none

/-- What a call can do to the states on record. -/
inductive TableStep (op : Op) (fault : Option Fault) (w w' : World) :
    Option (Bytes × JobState) → Prop where
  | same (states : ∀ id, w'.db.state id = w.db.state id) :
      TableStep op fault w w' none
  | insert {job : Job} {retryOf : Bytes} (op_eq : op = .insertJob job retryOf)
      (free : w.db.state job.id = none)
      (states : ∀ id, w'.db.state id =
        if cstr id = cstr job.id then some job.state else w.db.state id) :
      TableStep op fault w w' (some (cstr job.id, job.state))
  | update {id : Bytes} {before after : Job} (op_eq : op = .updateJob id before after)
      (asked : fault = none) (there : w.db.state id ≠ none)
      (states : ∀ other, w'.db.state other =
        if cstr other = cstr id then some after.state else w.db.state other) :
      TableStep op fault w w' (some (cstr id, after.state))

theorem tableStep_answer (op : Op) (w : World) :
    TableStep op none w (answer op w).2 (committed op (answer op w).1 w) := by
  cases op with
  | insertJob job retryOf =>
      simp only [answer, World.onDb]
      split
      · exact .same fun _ => rfl
      · rename_i db' hdb
        refine .insert rfl ?_ fun _ => Database.state_insertJob hdb
        simp [Database.state, (Database.insertJob_ok hdb).1]
  | updateJob id before after =>
      simp only [answer, World.onDb]
      split
      · exact .same fun _ => rfl
      · rename_i db' hdb
        by_cases hnone : w.db.state id = none
        · simp only [committed, hnone, if_true]
          refine .same fun other => ?_
          rw [Database.state_updateJob hdb]
          split
          · rename_i hkey
            rw [Database.state_congr hkey, hnone]
            rfl
          · rfl
        · simp only [committed, hnone, if_false]
          refine .update rfl rfl hnone fun other => ?_
          obtain ⟨state, hstate⟩ := Option.ne_none_iff_exists'.mp hnone
          rw [Database.state_updateJob hdb, hstate]
          rfl
  | flagJob id reason => exact .same fun _ => Database.state_flag reason
  | countAttempt id nextRetryMs reason =>
      exact .same fun _ => Database.state_countAttempt nextRetryMs reason
  | renameat2 | linkat | unlinkat | renameat =>
      refine .same fun id => ?_
      simp only [answer, World.onFs]
      split <;> rfl
  | openRoot | fstatat | openat | fstat | fsync | fsyncDir | selectJob | selectRetry =>
      refine .same fun id => ?_
      rw [answer_readOnly rfl]

/-- The calls that change neither a name nor the state of a job. -/
def Op.harmless : Op → Bool
  | .flagJob _ _ | .countAttempt _ _ _ => true
  | op => op.readOnly

theorem Op.harmless_of_readOnly {op : Op} (h : op.readOnly = true) : op.harmless = true := by
  cases op <;> first | rfl | cases h

theorem perform_harmless {op : Op} (h : op.harmless = true) (fault : Option Fault) (w : World) :
    (perform op fault w).2.fs = w.fs ∧
      ∀ id, (perform op fault w).2.db.state id = w.db.state id := by
  rcases perform_cases op fault w with ⟨e, _, heq⟩ | heq
  · rw [heq]
    exact ⟨rfl, fun _ => rfl⟩
  · rw [heq]
    cases op with
    | flagJob id reason => exact ⟨rfl, fun _ => Database.state_flag reason⟩
    | countAttempt id nextRetryMs reason =>
        exact ⟨rfl, fun _ => Database.state_countAttempt nextRetryMs reason⟩
    | renameat2 | linkat | unlinkat | renameat | insertJob | updateJob => cases h
    | openRoot | fstatat | openat | fstat | fsync | fsyncDir | selectJob | selectRetry =>
        rw [answer_readOnly rfl]
        exact ⟨rfl, fun _ => rfl⟩

theorem tableStep (op : Op) (fault : Option Fault) (w : World) :
    TableStep op fault w (perform op fault w).2
      (committed op (perform op fault w).1 w) := by
  rcases perform_split op fault w with ⟨e, heq⟩ | ⟨hadmits, heq⟩
  · rw [heq]
    cases op <;> exact .same fun _ => rfl
  · have hanswer := tableStep_answer op w
    rw [heq]
    revert hanswer
    generalize committed op (answer op w).1 w = commit
    intro hanswer
    cases hanswer with
    | same states => exact .same states
    | insert op_eq free states => exact .insert op_eq free states
    | update op_eq _ there states =>
        refine .update op_eq ?_ there states
        cases fault with
        | none => rfl
        | some e =>
            rw [op_eq] at hadmits
            cases hadmits e rfl

/-- A successful `UPDATE` of a row that is there was asked for, and is in force. -/
theorem perform_updateJob_ok {id : Bytes} {before after : Job} {fault : Option Fault} {w : World}
    {answer : Unit} (ok : (perform (.updateJob id before after) fault w).1 = .ok answer)
    (there : w.db.state id ≠ none) :
    fault = none ∧
      (perform (.updateJob id before after) fault w).2.db.state id = some after.state := by
  have hstep := tableStep (.updateJob id before after) fault w
  rw [ok] at hstep
  revert hstep
  generalize hcommit : committed (.updateJob id before after) (.ok answer) w = commit
  intro hstep
  cases hstep with
  | same states => simp [committed, there] at hcommit
  | insert op_eq free states => cases op_eq
  | update op_eq asked there states =>
      cases op_eq
      refine ⟨asked, ?_⟩
      rw [states, if_pos rfl]

/-- The calls that can change the state of a job. -/
def Op.writesState : Op → Bool
  | .insertJob _ _ | .updateJob _ _ _ => true
  | _ => false

theorem writesState_of_movesNames {op : Op} (h : op.movesNames = true) :
    op.writesState = false := by
  cases op <;> first | rfl | cases h

theorem perform_state {op : Op} (h : op.writesState = false) (fault : Option Fault) (w : World)
    (id : Bytes) : (perform op fault w).2.db.state id = w.db.state id := by
  have hstep := tableStep op fault w
  revert hstep
  generalize committed op (perform op fault w).1 w = commit
  intro hstep
  cases hstep with
  | same states => exact states id
  | insert op_eq free states =>
      rw [op_eq] at h
      cases h
  | update op_eq asked there states =>
      rw [op_eq] at h
      cases h

end FileMover
