import FileMover.Framework.Safety
import FileMover.Model.Mover

/-!
# The move protocol

What the engine is for, said about names and records instead of code. A move
concerns three directory entries, the source, the staging name and the final
name, and one record. `MoveStep` lists everything a call of the engine may do
to them, with the circumstances in which it may do it: commit only out of a
recorded move, publish only when the source name is gone, record DONE only
when the final name holds the object that this run took for the delivered one.

The relation is about arbitrary slots, so names that coincide (moving a file
onto itself, a final name that is also the staging name) need no special
treatment.

A `Session` adds to the world what a bystander would note down: which objects
each job's commits took away, and what the probes of the current run saw. The
program cannot read these notes.
-/

namespace FileMover

open Framework

/-- The three directory entries of a move. -/
structure Places where
  source : Slot
  staged : Slot
  final : Slot
deriving DecidableEq, Repr

/-- Where a request points, if both of its directories can be opened. -/
def placesOf (root : Bytes → Option Dir) (id : Bytes) (request : MoveRequest) :
    Option Places :=
  match root (cstr request.sourceDir), root (cstr request.destDir) with
  | some sourceDir, some destDir =>
      some ⟨⟨sourceDir, request.sourceName⟩, ⟨destDir, stagingName id⟩,
        ⟨destDir, request.destName⟩⟩
  | _, _ => none

/-- The places of a request that can be opened. -/
abbrev placesIn (id : Bytes) (request : MoveRequest) (sourceDir destDir : Dir) : Places :=
  ⟨⟨sourceDir, request.sourceName⟩, ⟨destDir, stagingName id⟩, ⟨destDir, request.destName⟩⟩

theorem placesOf_eq_some {root : Bytes → Option Dir} {id : Bytes} {request : MoveRequest}
    {p : Places} (h : placesOf root id request = some p) :
    ∃ sourceDir destDir, root (cstr request.sourceDir) = some sourceDir ∧
      root (cstr request.destDir) = some destDir ∧
      p = placesIn id request sourceDir destDir := by
  unfold placesOf at h
  split at h
  · rename_i sourceDir destDir hs hd
    cases h
    exact ⟨sourceDir, destDir, hs, hd, rfl⟩
  · cases h

structure Ledger where
  /-- The job of the run in progress. -/
  owner : Bytes
  /-- Where its request points. -/
  places : Option Places
  /-- For each job, the objects its commits took away, the latest first. -/
  moved : Bytes → List Inode
  /-- The filesystem as the run in progress found it. -/
  before : Filesystem
  /-- What the probe of the staging name saw in this run. -/
  staged : Option Inode
  /-- The object that this run takes for the delivered one. -/
  trusted : Option Inode
  /-- This run has passed the point where the final name decides: it published,
  it found the final name taken and took it for its own, or it read DONE. -/
  settled : Bool

structure Session where
  world : World
  ledger : Ledger
  /-- Some call of this session was made to fail. -/
  faulted : Bool

/-- The objects taken by the job of the run in progress. -/
def Ledger.own (l : Ledger) : List Inode := l.moved l.owner

/-- Note that a commit of the current job took `object` away. -/
def Ledger.take (l : Ledger) (object : Option Inode) : Ledger :=
  { l with
    moved := Function.update l.moved l.owner
      (object.toList ++ l.own) }

@[simp] theorem Ledger.own_take (l : Ledger) (object : Inode) :
    (l.take (some object)).own = object :: l.own := by
  simp [Ledger.own, Ledger.take]

def Ledger.settle (l : Ledger) (now : Bool) : Ledger :=
  { l with settled := l.settled || now }

/-- Note what the two probes of phase 5 make the run believe. -/
def Ledger.trust (l : Ledger) (final : Option Inode) : Ledger :=
  { l with trusted := l.staged <|> final }.settle (l.staged.isNone && final.isSome)

/-- The notes after one call. -/
def note : (c : Call) → Reply c → World → Ledger → Ledger
  | ⟨.commitRename, .renameat2 source _⟩, .ok _, w, l =>
      l.take (w.fs.entry source)
  | ⟨.commitLink, .linkat source _⟩, .ok _, w, l => l.take (w.fs.entry source)
  | ⟨.stagedProbe, .fstatat _⟩, reply, _, l => { l with staged := seen reply }
  | ⟨.finalProbe, .fstatat _⟩, reply, _, l => l.trust (seen reply)
  | ⟨.publishRename, .renameat _ _⟩, .ok _, _, l => l.settle true
  | ⟨.executeLoad, .selectJob _⟩, .ok (some job), _, l =>
      l.settle (job.state = .done)
  | ⟨.finishLoad, .selectJob _⟩, .ok (some job), _, l =>
      l.settle (job.state = .done)
  | _, _, _, l => l

def sessionMachine : Machine Call Reply Fault Session where
  perform c fault σ :=
    ((perform c.op fault σ.world).1,
      { world := (perform c.op fault σ.world).2
        ledger := note c (perform c.op fault σ.world).1 σ.world σ.ledger
        faulted := σ.faulted || fault.isSome })

namespace Session

def entry (σ : Session) (slot : Slot) : Option Inode := σ.world.fs.entry slot

def state (σ : Session) (id : Bytes) : Option JobState := σ.world.db.state id

/-- What a probe of this slot that meets this fault sees. -/
def sees (σ : Session) (fault : Option Fault) (slot : Slot) : Option Inode :=
  seen (perform (.fstatat slot) fault σ.world).1

end Session

/-! ## The steps -/

/-- When the protocol may write a state into the record. -/
def Recordable (p : Places) (request : MoveRequest) (σ : Session) :
    JobState → Prop
  | .queued => False
  | .renaming => σ.ledger.trusted = none
  | .transferring => σ.entry p.source = none
  | .done => ∃ object, σ.ledger.trusted = some object ∧
      (σ.entry p.final = some object ∨ σ.ledger.own = [])
  | .failed =>
      (∃ a b, σ.entry p.source = some a ∧ σ.entry p.staged = some b ∧ a ≠ b) ∨
      (σ.entry p.source = none ∧ σ.ledger.own = []) ∨
      (σ.entry p.source = none ∧ σ.entry p.staged = none ∧
        (σ.entry p.final = none ∨ σ.faulted = true ∨
          isPlainName request.destName = false))

/-- The record says that the move is under way. -/
def Underway (s : Option JobState) : Prop :=
  s = some .renaming ∨ s = some .transferring

theorem not_underway_done {s : Option JobState} (h : Underway s) :
    s ≠ some .done ∧ s ≠ some .queued := by
  rcases h with rfl | rfl <;> decide

/-- Both directories pass the validation of phase 1. -/
def ValidDirs (request : MoveRequest) : Prop :=
  validateExternalPath request.sourceDir = .ok () ∧
    validateExternalPath request.destDir = .ok ()

instance (request : MoveRequest) : Decidable (ValidDirs request) :=
  inferInstanceAs (Decidable (_ ∧ _))

/-- What one call of the engine, run for job `id`, can do. -/
inductive MoveStep (p : Places) (id : Bytes) (request : MoveRequest) (c : Call)
    (fault : Option Fault) (σ σ' : Session) : Prop where
  /-- Nothing that the protocol is about. -/
  | quiet
      (fs : σ'.world.fs = σ.world.fs) (state : σ'.state id = σ.state id)
      (ledger : σ'.ledger = σ.ledger)
  | readDone
      (site : c.site = .executeLoad ∨ c.site = .finishLoad)
      (done : σ.state id = some .done)
      (fs : σ'.world.fs = σ.world.fs) (state : σ'.state id = σ.state id)
      (ledger : σ'.ledger = σ.ledger.settle true)
  | lookStaged
      (fs : σ'.world.fs = σ.world.fs) (state : σ'.state id = σ.state id)
      (ledger : σ'.ledger = { σ.ledger with staged := σ.sees fault p.staged })
  | lookFinal
      (site : c.site = .finalProbe)
      (placed : placesOf σ.world.fs.root id request = some p)
      (fs : σ'.world.fs = σ.world.fs) (state : σ'.state id = σ.state id)
      (ledger : σ'.ledger = σ.ledger.trust (σ.sees fault p.final))
  /-- `renameat2`: the source name becomes the staging name. -/
  | commit (object : Inode)
      (placed : placesOf σ.world.fs.root id request = some p)
      (fresh : σ.ledger.trusted = none)
      (source : σ.entry p.source = some object) (staged : σ.entry p.staged = none)
      (underway : Underway (σ.state id)) (valid : ValidDirs request)
      (fs : σ'.world.fs =
        (σ.world.fs.drop p.source).put p.staged object)
      (state : σ'.state id = σ.state id)
      (ledger : σ'.ledger = σ.ledger.take (some object))
  /-- `linkat`: the staging name is added. -/
  | link (object : Inode)
      (placed : placesOf σ.world.fs.root id request = some p)
      (fresh : σ.ledger.trusted = none)
      (source : σ.entry p.source = some object) (staged : σ.entry p.staged = none)
      (underway : Underway (σ.state id)) (valid : ValidDirs request)
      (fs : σ'.world.fs = σ.world.fs.put p.staged object)
      (state : σ'.state id = σ.state id)
      (ledger : σ'.ledger = σ.ledger.take (some object))
  /-- `unlinkat`: the source name goes, its object being linked under the
  staging name. -/
  | unlink (object : Inode)
      (placed : placesOf σ.world.fs.root id request = some p)
      (source : σ.entry p.source = some object)
      (staged : σ.entry p.staged = some object) (apart : p.source ≠ p.staged)
      (taken : object ∈ σ.ledger.own) (underway : Underway (σ.state id))
      (fs : σ'.world.fs = σ.world.fs.drop p.source)
      (state : σ'.state id = σ.state id)
      (ledger : σ'.ledger = σ.ledger)
  /-- `renameat`: the staging name becomes the final name. -/
  | publish (object : Inode)
      (site : c.site = .publishRename) (asked : fault = none)
      (placed : placesOf σ.world.fs.root id request = some p)
      (source : σ.entry p.source = none)
      (staged : σ.entry p.staged = some object)
      (trusted : σ.ledger.trusted = some object)
      (live : σ.state id = some .transferring ∨ σ.state id = some .queued)
      (fs : (σ.entry p.final = some object ∧ σ'.world.fs = σ.world.fs) ∨
        (σ.entry p.final ≠ some object ∧
          σ'.world.fs = (σ.world.fs.drop p.staged).put p.final object))
      (state : σ'.state id = σ.state id)
      (ledger : σ'.ledger = σ.ledger.settle true)
  | record (old target : JobState)
      (placed : placesOf σ.world.fs.root id request = some p)
      (was : σ.state id = some old)
      (legal : isLegalTransition old target = true)
      (allowed : Recordable p request σ target)
      (fs : σ'.world.fs = σ.world.fs)
      (state : σ'.state id = some target)
      (ledger : σ'.ledger = σ.ledger)

/-! ## The contract of one run -/

/-- The part of a session that nothing but the run itself changes while it is
in progress. The source name, and what coincides with it, is missing: until a
commit has taken the file it names, others may remove it. -/
structure View where
  root : Bytes → Option Dir
  type : Inode → FileType
  state : Option JobState
  staged : Option Inode
  final : Option Inode
  ledger : Ledger

def Session.view (p : Places) (id : Bytes) (σ : Session) : View where
  root := σ.world.fs.root
  type := σ.world.fs.type
  state := σ.state id
  staged := if p.staged = p.source then none else σ.entry p.staged
  final := if p.final = p.source then none else σ.entry p.final
  ledger := σ.ledger

/-- What may happen around a run: at most the source name disappears. -/
structure Undisturbed (p : Places) (id : Bytes) (σ σ' : Session) : Prop where
  view : σ'.view p id = σ.view p id
  source : σ'.entry p.source = σ.entry p.source ∨
    (σ'.entry p.source = none ∧ σ.ledger.own = [])
  faulted : σ'.faulted = σ.faulted

def moveContract (p : Places) (id : Bytes) (request : MoveRequest) :
    Contract Call Fault Session where
  rely := Undisturbed p id
  rely_refl _ := ⟨rfl, Or.inl rfl, rfl⟩
  rely_trans h h' := by
    refine ⟨h'.view.trans h.view, ?_, h'.faulted.trans h.faulted⟩
    rcases h'.source with hs | ⟨hs, hown⟩
    · rw [hs]
      exact h.source
    · exact Or.inr ⟨hs, congrArg (·.ledger.own) h.view ▸ hown⟩
  assume _ _ _ := True
  guarantee := MoveStep p id request

end FileMover
