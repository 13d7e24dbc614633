import FileMover.Engine.Runs
import FileMover.Framework.Guarded
import FileMover.Store.Rules

/-!
# A later file under the same name

Runs of `execute` and `recover` for one job, abandoned between any two calls, next to a
producer that puts a new regular file under the source name whenever it is free. Any call of
a run may fail. The engine knows its file by name only. Once it has taken the file it was
given, whatever is under the source name is somebody else's.

A bystander notes the objects that were taken from the source name or published. The file on
disk has, at any instant, one of two situations: nothing was taken and the staging name is
free, or one object was taken and it is under the staging name or, published, under the
final name. Both survive as long as no probe of the source name shows a later file to a run
that goes on to act on it, and `recover` does not overlook the final name of a file that it
finds nowhere else.
-/

namespace FileMover

open Framework

structure Trail where
  world : World
  /-- The objects that were linked out of the source name or taken off it, the latest
  first. -/
  moved : List Inode
  /-- The objects that were given the final name, the latest first. -/
  published : List Inode

namespace Trail

def entry (σ : Trail) (slot : Slot) : Option Inode := σ.world.fs.entry slot

def state (σ : Trail) (id : Bytes) : Option JobState := σ.world.db.state id

/-- What a probe of this slot that meets this fault shows. -/
def sees (σ : Trail) (fault : Option Fault) (slot : Slot) : Option Inode :=
  seen (perform (.fstatat slot) fault σ.world).1

def take (σ : Trail) (slot : Slot) : List Inode := (σ.entry slot).toList ++ σ.moved

def note (σ : Trail) : (c : Call) → Reply c → World → Trail
  | ⟨_, .renameat2 source _⟩, .ok _, w => ⟨w, σ.take source, σ.published⟩
  | ⟨_, .linkat source _⟩, .ok _, w => ⟨w, σ.take source, σ.published⟩
  | ⟨_, .unlinkat source⟩, .ok _, w => ⟨w, σ.take source, σ.published⟩
  | ⟨_, .renameat staged _⟩, .ok _, w =>
      ⟨w, σ.moved, (σ.entry staged).toList ++ σ.published⟩
  | _, _, w => ⟨w, σ.moved, σ.published⟩

end Trail

def trailMachine : Machine Call Reply Fault Trail where
  perform c fault σ :=
    ((perform c.op fault σ.world).1,
      σ.note c (perform c.op fault σ.world).1 (perform c.op fault σ.world).2)

/-- The entry that the producer fills. -/
def sourceSlot (root : Bytes → Option Dir) (request : MoveRequest) : Option Slot :=
  (root (cstr request.sourceDir)).map fun dir => ⟨dir, request.sourceName⟩

/-- What has been noted, and the run in progress. -/
structure Chronicle where
  trail : Trail
  run : Option (Prog MoveResult)

/-- A run is begun, and the one in progress abandoned; its next call is made, and may fail;
or the producer creates a file. -/
inductive ChronicleEvent
  | start (entry : Entry) (strategy : MoveStrategy)
  | call (fault : Option Fault)
  | produce (object : Inode)

namespace Chronicle

def act (id : Bytes) (request : MoveRequest) (h : Chronicle) :
    ChronicleEvent → Option Chronicle
  | .start entry strategy => some ⟨h.trail, some (entry.program id request strategy)⟩
  | .call fault =>
      match h.run with
      | some (.call c next) =>
          some ⟨(trailMachine.perform c fault h.trail).2,
            some (next (trailMachine.perform c fault h.trail).1)⟩
      | _ => none
  | .produce object =>
      match sourceSlot h.trail.world.fs.root request with
      | none => none
      | some slot =>
          if h.trail.entry slot = none ∧ h.trail.world.fs.type object = .reg then
            some ⟨{ h.trail with world :=
              { h.trail.world with fs := h.trail.world.fs.put slot object } }, h.run⟩
          else none

/-- Nothing has happened yet. -/
def fresh (w : World) : Chronicle := ⟨⟨w, [], []⟩, none⟩

end Chronicle

section Statements
variable (id : Bytes) (request : MoveRequest) (σ : Trail)

def Trail.places : Option Places := placesOf σ.world.fs.root id request

/-- The job has taken nothing, or is DONE, or what the probe of the source name shows is
what it has taken. -/
def NoLaterFile (fault : Option Fault) : Prop :=
  σ.moved ≠ [] → σ.state id ≠ some .done → ∀ p ∈ σ.places id request,
    σ.sees fault p.source = none ∨ ∃ o ∈ σ.moved, σ.sees fault p.source = some o

/-- The job has taken nothing, or is DONE, or the probe of the final name shows something. -/
def NotOverlooked (fault : Option Fault) : Prop :=
  σ.moved ≠ [] → σ.state id ≠ some .done → ∀ p ∈ σ.places id request,
    σ.sees fault p.final ≠ none

/-- The probe of the source name by `recover`, and the one by `execute` while the staging
name is free, show no later file; and the probe of the final name by `recover` shows what
has been published. -/
def Unmistaken (c : Call) (fault : Option Fault) : Prop :=
  (c.site = .fromProbe → NoLaterFile id request σ fault) ∧
    (c.site = .sourceProbe → (∀ p ∈ σ.places id request, σ.entry p.staged = none) →
      NoLaterFile id request σ fault) ∧
    (c.site = .recoverFinalProbe → NotOverlooked id request σ fault)

/-- The same, as a condition on the steps of a history. -/
def NotMistaken (h : Chronicle) : ChronicleEvent → Prop
  | .call fault =>
      match h.run with
      | some (.call c _) => Unmistaken id request h.trail c fault
      | _ => True
  | .start _ _ | .produce _ => True

end Statements

instance (id : Bytes) (request : MoveRequest) (σ : Trail) (fault : Option Fault) :
    Decidable (NoLaterFile id request σ fault) :=
  inferInstanceAs (Decidable (_ → _ → ∀ p ∈ σ.places id request, _ ∨ _))

instance (id : Bytes) (request : MoveRequest) (σ : Trail) (fault : Option Fault) :
    Decidable (NotOverlooked id request σ fault) :=
  inferInstanceAs (Decidable (_ → _ → ∀ p ∈ σ.places id request, _ ≠ _))

instance (id : Bytes) (request : MoveRequest) (σ : Trail) (c : Call) (fault : Option Fault) :
    Decidable (Unmistaken id request σ c fault) :=
  inferInstanceAs (Decidable ((_ → NoLaterFile id request σ fault) ∧
    (_ → (∀ p ∈ σ.places id request, _) → NoLaterFile id request σ fault) ∧
    (_ → NotOverlooked id request σ fault)))

instance (id : Bytes) (request : MoveRequest) :
    (h : Chronicle) → (event : ChronicleEvent) → Decidable (NotMistaken id request h event)
  | ⟨σ, some (.call c _)⟩, .call fault =>
      inferInstanceAs (Decidable (Unmistaken id request σ c fault))
  | ⟨_, some (.pure _)⟩, .call _ => .isTrue trivial
  | ⟨_, none⟩, .call _ => .isTrue trivial
  | _, .start _ _ => .isTrue trivial
  | _, .produce _ => .isTrue trivial

/-! ## What may be on disk -/

section Invariant
variable (id : Bytes) (request : MoveRequest)

structure Untaken (σ : Trail) : Prop where
  moved : σ.moved = []
  published : σ.published = []
  staged : ∀ p ∈ σ.places id request, σ.entry p.staged = none

/-- The job has taken `o`, which is under the staging name or, published, under the final
name. -/
structure Taken (p : Places) (o : Inode) (σ : Trail) : Prop where
  placed : σ.places id request = some p
  any : σ.moved ≠ []
  moved : ∀ x ∈ σ.moved, x = o
  published : ∀ x ∈ σ.published, x = o
  plain : isPlainName (stagingName id) = true
  recorded : σ.state id ≠ some .failed
  there : σ.entry p.staged = some o ∨
    (σ.entry p.staged = none ∧ σ.entry p.final = some o ∧
      isPlainName request.destName = true)
  kept : σ.published ≠ [] → p.final ≠ p.source → σ.entry p.final = some o

structure OnDisk (σ : Trail) : Prop where
  apart : ∀ p ∈ σ.places id request, p.source ≠ p.staged
  either : Untaken id request σ ∨ ∃ p o, Taken id request p o σ

/-- What the producer leaves alone. -/
structure Produced (σ σ' : Trail) : Prop where
  db : σ'.world.db = σ.world.db
  root : σ'.world.fs.root = σ.world.fs.root
  type : σ'.world.fs.type = σ.world.fs.type
  moved : σ'.moved = σ.moved
  published : σ'.published = σ.published
  kept : ∀ slot x, σ.entry slot = some x → σ'.entry slot = some x
  other : ∀ slot, sourceSlot σ.world.fs.root request ≠ some slot → σ'.entry slot = σ.entry slot

def laterContract : Contract Call Fault Trail where
  rely := Produced request
  rely_refl _ := ⟨rfl, rfl, rfl, rfl, rfl, fun _ _ h => h, fun _ _ => rfl⟩
  rely_trans h h' := by
    refine ⟨h'.db.trans h.db, h'.root.trans h.root, h'.type.trans h.type,
      h'.moved.trans h.moved, h'.published.trans h.published,
      fun slot x hslot => h'.kept slot x (h.kept slot x hslot), fun slot hne => ?_⟩
    rw [h'.other slot (by rw [h.root]; exact hne), h.other slot hne]
  assume c fault σ := Unmistaken id request σ c fault
  guarantee _ _ _ σ' := OnDisk id request σ'

end Invariant

section Rules
variable {id : Bytes} {request : MoveRequest} {p : Places} {o : Inode} {σ σ' : Trail}
  {α : Type}

theorem Produced.places (rely : Produced request σ σ') :
    σ'.places id request = σ.places id request := by
  rw [Trail.places, rely.root]
  rfl

theorem Produced.state (rely : Produced request σ σ') : σ'.state id = σ.state id := by
  rw [Trail.state, rely.db]
  rfl

/-- The staging name is none of the producer's business. -/
theorem Produced.staged (rely : Produced request σ σ') (onDisk : OnDisk id request σ)
    (placed : σ.places id request = some p) : σ'.entry p.staged = σ.entry p.staged := by
  refine rely.other p.staged fun heq => onDisk.apart p placed ?_
  obtain ⟨sourceDir, destDir, hsource, _, rfl⟩ := placesOf_eq_some placed
  rw [sourceSlot, hsource] at heq
  exact Option.some.inj heq

theorem Taken.stable (rely : Produced request σ σ') (onDisk : OnDisk id request σ)
    (h : Taken id request p o σ) : Taken id request p o σ' := by
  refine ⟨rely.places.trans h.placed, ?_, ?_, ?_, h.plain, ?_, ?_, ?_⟩
  · rw [rely.moved]
    exact h.any
  · rw [rely.moved]
    exact h.moved
  · rw [rely.published]
    exact h.published
  · rw [rely.state]
    exact h.recorded
  · rw [rely.staged onDisk h.placed]
    rcases h.there with hstaged | ⟨hstaged, hfinal, hplain⟩
    · exact Or.inl hstaged
    · exact Or.inr ⟨hstaged, rely.kept _ _ hfinal, hplain⟩
  · rw [rely.published]
    exact fun hpublished hne => rely.kept _ _ (h.kept hpublished hne)

theorem Untaken.stable (rely : Produced request σ σ') (onDisk : OnDisk id request σ)
    (h : Untaken id request σ) : Untaken id request σ' := by
  refine ⟨rely.moved.trans h.moved, rely.published.trans h.published, fun p hp => ?_⟩
  rw [rely.places] at hp
  rw [rely.staged onDisk hp]
  exact h.staged p hp

theorem OnDisk.stable (rely : Produced request σ σ') (h : OnDisk id request σ) :
    OnDisk id request σ' := by
  constructor
  · rw [rely.places]
    exact h.apart
  · rcases h.either with huntaken | ⟨p, o, htaken⟩
    · exact Or.inl (huntaken.stable rely h)
    · exact Or.inr ⟨p, o, htaken.stable rely h⟩

theorem OnDisk.of_staged (h : OnDisk id request σ) (placed : σ.places id request = some p)
    (there : σ.entry p.staged = some o) : Taken id request p o σ := by
  rcases h.either with huntaken | ⟨p', o', htaken⟩
  · rw [huntaken.staged p placed] at there
    cases there
  · have hp := htaken.placed
    rw [placed] at hp
    cases hp
    rcases htaken.there with hstaged | ⟨hstaged, _⟩
    · rw [hstaged] at there
      cases there
      exact htaken
    · rw [hstaged] at there
      cases there

/-- A table that does not make the job FAILED, or a job that has taken nothing. -/
theorem OnDisk.recorded {w' : World} (h : OnDisk id request σ) (same : w'.fs = σ.world.fs)
    (fine : Untaken id request σ ∨ w'.db.state id ≠ some .failed) :
    OnDisk id request { σ with world := w' } := by
  obtain ⟨fs, db⟩ := w'
  obtain rfl : fs = σ.world.fs := same
  refine ⟨h.apart, ?_⟩
  rcases h.either with huntaken | ⟨p, o, htaken⟩
  · exact Or.inl ⟨huntaken.moved, huntaken.published, huntaken.staged⟩
  · refine Or.inr ⟨p, o, htaken.placed, htaken.any, htaken.moved, htaken.published,
      htaken.plain, ?_, htaken.there, htaken.kept⟩
    rcases fine with huntaken | hdb
    · exact absurd huntaken.moved htaken.any
    · exact hdb

/-! ## Calls that change no name -/

theorem trail_still {c : Call} (still : c.op.movesNames = false) (fault : Option Fault)
    (σ : Trail) :
    (trailMachine.perform c fault σ).2 =
      { σ with world := (perform c.op fault σ.world).2 } := by
  obtain ⟨site, op⟩ := c
  cases op with
  | renameat2 | linkat | unlinkat | renameat => cases still
  | _ => rfl

/-- One call that only looks. -/
theorem later_look {c : Call} {next : Reply c → Prog α} {post : α → Trail → Prop}
    {P : Trail → Prop} (looks : c.op.readOnly = true)
    (stable : ∀ {σ σ'}, Produced request σ σ' → OnDisk id request σ → P σ → P σ')
    (onDisk : OnDisk id request σ) (start : P σ)
    (rest : ∀ fault σ₁, OnDisk id request σ₁ → P σ₁ → Unmistaken id request σ₁ c fault →
      (next (perform c.op fault σ₁.world).1).Safe trailMachine (laterContract id request) post
        σ₁) :
    (Program.call c next).Safe trailMachine (laterContract id request) post σ := by
  intro σ₁ rely fault unmistaken
  have honDisk : OnDisk id request σ₁ := onDisk.stable rely
  rw [trail_still (movesNames_of_readOnly looks), perform_readOnly looks]
  exact ⟨honDisk, rest fault σ₁ honDisk (stable rely onDisk start) unmistaken⟩

/-- A stretch of calls that only look. -/
theorem later_looks {program : Prog α} {P : Trail → Prop}
    (uses : program.Uses fun c => c.op.readOnly = true)
    (stable : ∀ {σ σ'}, Produced request σ σ' → OnDisk id request σ → P σ → P σ')
    (onDisk : OnDisk id request σ) (start : P σ) :
    program.Safe trailMachine (laterContract id request)
      (fun _ σ' => OnDisk id request σ' ∧ P σ') σ := by
  have hstable : ∀ {σ σ' : Trail}, (laterContract id request).rely σ σ' →
      OnDisk id request σ ∧ P σ → OnDisk id request σ' ∧ P σ' :=
    fun rely h => ⟨h.1.stable rely, stable rely h.1 h.2⟩
  refine (Program.Safe.of_uses uses (Program.returns_true _) hstable ?_
    ⟨onDisk, start⟩).weaken fun _ _ h => h.2
  intro c looks fault σ _ h
  rw [trail_still (movesNames_of_readOnly looks), perform_readOnly looks]
  exact ⟨h.1, h⟩

/-- A stretch of calls that change no name and do not make the job FAILED. -/
theorem later_still {program : Prog α} {P : Trail → Prop}
    (uses : program.Uses fun c => c.op.movesNames = false ∧ Avoids .failed c)
    (stable : ∀ {σ σ'}, Produced request σ σ' → OnDisk id request σ → P σ → P σ')
    (keeps : ∀ c fault, c.op.movesNames = false → Avoids .failed c → ∀ {σ}, P σ →
      P { σ with world := (perform c.op fault σ.world).2 })
    (onDisk : OnDisk id request σ) (start : P σ) :
    program.Safe trailMachine (laterContract id request)
      (fun _ σ' => OnDisk id request σ' ∧ P σ') σ := by
  have hstable : ∀ {σ σ' : Trail}, (laterContract id request).rely σ σ' →
      OnDisk id request σ ∧ P σ → OnDisk id request σ' ∧ P σ' :=
    fun rely h => ⟨h.1.stable rely, stable rely h.1 h.2⟩
  refine (Program.Safe.of_uses uses (Program.returns_true _) hstable ?_
    ⟨onDisk, start⟩).weaken fun _ _ h => h.2
  rintro c ⟨still, avoids⟩ fault σ _ ⟨honDisk, hp⟩
  have hfs := perform_fs still fault σ.world
  have hafter : OnDisk id request { σ with world := (perform c.op fault σ.world).2 } := by
    refine honDisk.recorded hfs ?_
    rcases honDisk.either with huntaken | ⟨p, o, htaken⟩
    · exact Or.inl huntaken
    · exact Or.inr (avoids.call fault htaken.recorded)
  rw [trail_still still]
  exact ⟨hafter, hafter, keeps c fault still avoids hp⟩

/-- A program that returns leaves on disk what is there. -/
theorem later_end (result : α) (σ : Trail) (onDisk : OnDisk id request σ) :
    (Program.pure result : Prog α).Safe trailMachine (laterContract id request)
      (fun _ σ' => OnDisk id request σ') σ :=
  fun _ rely => onDisk.stable rely

/-! ## Calls that change names -/

/-- What is under the source name may be committed. -/
structure Ready (id : Bytes) (request : MoveRequest) (p : Places) (object : Inode) (σ : Trail) :
    Prop where
  placed : σ.places id request = some p
  there : σ.entry p.source = some object
  recorded : σ.state id ≠ some .failed
  mine : σ.moved ≠ [] → σ.entry p.staged = none → object ∈ σ.moved

theorem Ready.stable (rely : Produced request σ σ') (onDisk : OnDisk id request σ)
    (h : Ready id request p o σ) : Ready id request p o σ' := by
  refine ⟨rely.places.trans h.placed, rely.kept _ _ h.there, ?_, ?_⟩
  · rw [rely.state]
    exact h.recorded
  · rw [rely.moved, rely.staged onDisk h.placed]
    exact h.mine

theorem Ready.kept (c : Call) (fault : Option Fault) (still : c.op.movesNames = false)
    (avoids : Avoids .failed c) (h : Ready id request p o σ) :
    Ready id request p o { σ with world := (perform c.op fault σ.world).2 } := by
  have hfs := perform_fs still fault σ.world
  refine ⟨?_, ?_, avoids.call fault h.recorded, ?_⟩
  · show placesOf (perform c.op fault σ.world).2.fs.root id request = _
    rw [hfs]
    exact h.placed
  · rw [Trail.entry, hfs]
    exact h.there
  · rw [Trail.entry, hfs]
    exact h.mine

/-- A commit takes the first object, or the same one again. -/
theorem Ready.take {fs : Filesystem} (h : Ready id request p o σ)
    (onDisk : OnDisk id request σ) (plain : isPlainName (stagingName id) = true)
    (free : σ.entry p.staged = none) (root : fs.root = σ.world.fs.root)
    (staged : fs.entry p.staged = some o)
    (others : ∀ slot, slot ≠ p.source → slot ≠ p.staged → fs.entry slot = σ.entry slot) :
    Taken id request p o ⟨{ σ.world with fs := fs }, o :: σ.moved, σ.published⟩ := by
  have hplaced : Trail.places id request
      ⟨{ σ.world with fs := fs }, o :: σ.moved, σ.published⟩ = some p := by
    show placesOf fs.root id request = some p
    rw [root]
    exact h.placed
  rcases onDisk.either with huntaken | ⟨p', o', htaken⟩
  · refine ⟨hplaced, by simp, ?_, ?_, plain, h.recorded, Or.inl staged, ?_⟩
    · simp [huntaken.moved]
    · simp [huntaken.published]
    · exact fun hpublished => absurd huntaken.published hpublished
  · have hp := htaken.placed
    rw [h.placed] at hp
    cases hp
    obtain rfl : o = o' := htaken.moved o (h.mine htaken.any free)
    refine ⟨hplaced, by simp, ?_, htaken.published, plain, h.recorded, Or.inl staged, ?_⟩
    · simpa using htaken.moved
    · intro hpublished hne
      by_cases hfinal : p.final = p.staged
      · rw [hfinal]
        exact staged
      · show fs.entry p.final = some o
        rw [others _ hne hfinal]
        exact htaken.kept hpublished hne

/-- Taking the source name off an object that is staged. -/
theorem Taken.unlink (h : Taken id request p o σ) (apart : p.source ≠ p.staged)
    (staged : σ.entry p.staged = some o) :
    Taken id request p o
      ⟨{ σ.world with fs := σ.world.fs.drop p.source }, o :: σ.moved, σ.published⟩ := by
  refine ⟨h.placed, by simp, ?_, h.published, h.plain, h.recorded, Or.inl ?_, ?_⟩
  · simpa using h.moved
  · exact (Filesystem.entry_drop_ne apart.symm).trans staged
  · intro hpublished hne
    exact (Filesystem.entry_drop_ne hne).trans (h.kept hpublished hne)

theorem Taken.publish {fs : Filesystem} (h : Taken id request p o σ)
    (staged : σ.entry p.staged = some o) (plain : isPlainName request.destName = true)
    (renamed : σ.world.fs.rename p.staged p.final = .ok fs) :
    Taken id request p o ⟨{ σ.world with fs := fs }, σ.moved, o :: σ.published⟩ := by
  obtain ⟨found, hfound, hcases⟩ := Filesystem.rename_ok renamed
  rw [show σ.world.fs.entry p.staged = some o from staged] at hfound
  cases hfound
  have hpublished : ∀ x ∈ o :: σ.published, x = o := by simpa using h.published
  rcases hcases with ⟨hsame, rfl⟩ | ⟨hdiffers, rfl⟩
  · exact ⟨h.placed, h.any, h.moved, hpublished, h.plain, h.recorded, Or.inl staged,
      fun _ _ => hsame⟩
  · have hne : p.staged ≠ p.final := by
      intro heq
      rw [← heq] at hdiffers
      exact hdiffers staged
    refine ⟨h.placed, h.any, h.moved, hpublished, h.plain, h.recorded, Or.inr ⟨?_, ?_, plain⟩,
      fun _ _ => Filesystem.entry_put_self⟩
    · show ((σ.world.fs.drop p.staged).put p.final o).entry p.staged = none
      rw [Filesystem.entry_put_ne hne, Filesystem.entry_drop_self]
    · exact Filesystem.entry_put_self

/-- One of the situations that a run may leave behind. -/
theorem Taken.onDisk (h : Taken id request p o σ) (apart : p.source ≠ p.staged) :
    OnDisk id request σ := by
  refine ⟨fun p' hp => ?_, Or.inr ⟨p, o, h⟩⟩
  rw [h.placed] at hp
  cases hp
  exact apart

/-- A call fails and changes nothing, or is performed as asked. -/
theorem trail_cases (c : Call) (fault : Option Fault) (σ : Trail) :
    (∃ e, trailMachine.perform c fault σ = (.error e, σ)) ∨
      trailMachine.perform c fault σ =
        ((answer c.op σ.world).1, σ.note c (answer c.op σ.world).1 (answer c.op σ.world).2) := by
  rcases perform_cases c.op fault σ.world with ⟨e, _, heq⟩ | heq
  · refine Or.inl ⟨e, ?_⟩
    simp only [trailMachine, heq]
    obtain ⟨site, op⟩ := c
    cases op with
    | _ => rfl
  · right
    simp only [trailMachine, heq]

section Commit
variable {post : α → Trail → Prop} {next : Except Fault Unit → Prog α}
  (plain : isPlainName (stagingName id) = true)
  (failed : ∀ e σ', OnDisk id request σ' →
    (next (.error e)).Safe trailMachine (laterContract id request) post σ')
  (moved : ∀ σ', OnDisk id request σ' → σ'.places id request = some p →
    (next (.ok ())).Safe trailMachine (laterContract id request) post σ')
include plain failed moved

theorem later_commitRename (onDisk : OnDisk id request σ) (ready : Ready id request p o σ) :
    (Program.call ⟨.commitRename, .renameat2 p.source p.staged⟩ next).Safe trailMachine
      (laterContract id request) post σ := by
  intro σ₁ rely fault _
  have honDisk : OnDisk id request σ₁ := onDisk.stable rely
  have hready : Ready id request p o σ₁ := ready.stable rely onDisk
  rcases trail_cases ⟨.commitRename, .renameat2 p.source p.staged⟩ fault σ₁ with
    ⟨e, hperform⟩ | hperform
  · rw [hperform]
    exact ⟨honDisk, failed e _ honDisk⟩
  rw [hperform]
  cases hfs : σ₁.world.fs.renameNoReplace p.source p.staged with
  | error e =>
      simp only [answer, World.onFs, hfs]
      exact ⟨honDisk, failed e _ honDisk⟩
  | ok fs' =>
      simp only [answer, World.onFs, hfs, Trail.note, Trail.take]
      obtain ⟨inode, hsource, hnone, rfl⟩ := Filesystem.renameNoReplace_ok hfs
      rw [show σ₁.world.fs.entry p.source = some o from hready.there] at hsource
      cases hsource
      have htaken : Taken id request p o ⟨{ σ₁.world with
          fs := (σ₁.world.fs.drop p.source).put p.staged o }, o :: σ₁.moved, σ₁.published⟩ := by
        refine hready.take honDisk plain hnone rfl Filesystem.entry_put_self ?_
        intro slot hsource hstaged
        rw [Filesystem.entry_put_ne hstaged, Filesystem.entry_drop_ne hsource]
        rfl
      rw [hready.there]
      have hafter := htaken.onDisk (honDisk.apart p hready.placed)
      exact ⟨hafter, moved _ hafter htaken.placed⟩

theorem later_commitLink {linked : Except Fault Unit → Prog α}
    (refused : ∀ e σ', OnDisk id request σ' →
      (linked (.error e)).Safe trailMachine (laterContract id request) post σ')
    (unlinks : linked (.ok ()) = .call ⟨.commitUnlink, .unlinkat p.source⟩ next)
    (onDisk : OnDisk id request σ) (ready : Ready id request p o σ) :
    (Program.call ⟨.commitLink, .linkat p.source p.staged⟩ linked).Safe trailMachine
      (laterContract id request) post σ := by
  intro σ₁ rely fault _
  have honDisk : OnDisk id request σ₁ := onDisk.stable rely
  have hready : Ready id request p o σ₁ := ready.stable rely onDisk
  have hapart : p.source ≠ p.staged := honDisk.apart p hready.placed
  rcases trail_cases ⟨.commitLink, .linkat p.source p.staged⟩ fault σ₁ with
    ⟨e, hperform⟩ | hperform
  · rw [hperform]
    exact ⟨honDisk, refused e _ honDisk⟩
  rw [hperform]
  cases hfs : σ₁.world.fs.link p.source p.staged with
  | error e =>
      simp only [answer, World.onFs, hfs]
      exact ⟨honDisk, refused e _ honDisk⟩
  | ok fs' =>
      simp only [answer, World.onFs, hfs, Trail.note, Trail.take, unlinks]
      obtain ⟨inode, hsource, hnone, rfl⟩ := Filesystem.link_ok hfs
      rw [show σ₁.world.fs.entry p.source = some o from hready.there] at hsource
      cases hsource
      have htaken : Taken id request p o ⟨{ σ₁.world with
          fs := σ₁.world.fs.put p.staged o }, o :: σ₁.moved, σ₁.published⟩ := by
        refine hready.take honDisk plain hnone rfl Filesystem.entry_put_self ?_
        intro slot _ hstaged
        exact Filesystem.entry_put_ne hstaged
      have hlinked := htaken.onDisk hapart
      rw [hready.there]
      refine ⟨hlinked, ?_⟩
      intro σ₂ rely₂ fault₂ _
      have honDisk₂ : OnDisk id request σ₂ := hlinked.stable rely₂
      -- the source name is taken as long as the object has it, so nothing new is there
      have hsource₂ : σ₂.entry p.source = some o := by
        refine rely₂.kept _ _ ?_
        exact (Filesystem.entry_put_ne hapart).trans hready.there
      have hstaged₂ : σ₂.entry p.staged = some o :=
        rely₂.kept _ _ Filesystem.entry_put_self
      have htaken₂ : Taken id request p o σ₂ := htaken.stable rely₂ hlinked
      rcases trail_cases ⟨.commitUnlink, .unlinkat p.source⟩ fault₂ σ₂ with
        ⟨e, hperform₂⟩ | hperform₂
      · rw [hperform₂]
        exact ⟨honDisk₂, failed e _ honDisk₂⟩
      rw [hperform₂]
      cases hfs₂ : σ₂.world.fs.unlink p.source with
      | error e =>
          simp only [answer, World.onFs, hfs₂]
          exact ⟨honDisk₂, failed e _ honDisk₂⟩
      | ok fs'' =>
          simp only [answer, World.onFs, hfs₂, Trail.note, Trail.take]
          obtain ⟨_, _, rfl⟩ := Filesystem.unlink_ok hfs₂
          rw [hsource₂]
          have hafter := (htaken₂.unlink hapart hstaged₂).onDisk hapart
          exact ⟨hafter, moved _ hafter htaken₂.placed⟩

end Commit

/-! ## The functions of the engine -/

section Functions
variable {sourceDir destDir : Dir} {tick : Int} {error : Bytes} {strategy : MoveStrategy}

/-- Where the request points. -/
def Placed (id : Bytes) (request : MoveRequest) (sourceDir destDir : Dir) (σ : Trail) : Prop :=
  σ.places id request = some (placesIn id request sourceDir destDir)

theorem Placed.stable (rely : Produced request σ σ') (_ : OnDisk id request σ)
    (h : Placed id request sourceDir destDir σ) : Placed id request sourceDir destDir σ' :=
  rely.places.trans h

theorem Placed.kept (c : Call) (fault : Option Fault) (still : c.op.movesNames = false)
    (_ : Avoids .failed c) (h : Placed id request sourceDir destDir σ) :
    Placed id request sourceDir destDir { σ with world := (perform c.op fault σ.world).2 } := by
  show placesOf (perform c.op fault σ.world).2.fs.root id request = _
  rw [perform_fs still]
  exact h

theorem later_moveWithin (onDisk : OnDisk id request σ)
    (ready : Ready id request (placesIn id request sourceDir destDir) o σ) :
    (moveWithin sourceDir request.sourceName destDir (stagingName id) strategy).Safe trailMachine
      (laterContract id request)
      (fun result σ' => OnDisk id request σ' ∧
        (result = .ok () → Placed id request sourceDir destDir σ')) σ := by
  have hfailed : ∀ message σ, OnDisk id request σ → (Program.pure (.error message) :
      Prog (Except Bytes Unit)).Safe trailMachine (laterContract id request)
      (fun result σ' => OnDisk id request σ' ∧
        (result = .ok () → Placed id request sourceDir destDir σ')) σ :=
    fun _ _ onDisk _ rely => ⟨onDisk.stable rely, nofun⟩
  have hmoved : ∀ σ, OnDisk id request σ → Placed id request sourceDir destDir σ →
      (Program.pure (.ok ()) : Prog (Except Bytes Unit)).Safe trailMachine
        (laterContract id request) (fun result σ' => OnDisk id request σ' ∧
          (result = .ok () → Placed id request sourceDir destDir σ')) σ :=
    fun _ onDisk placed _ rely => ⟨onDisk.stable rely, fun _ => placed.stable rely onDisk⟩
  unfold moveWithin
  by_cases hfrom : isPlainName request.sourceName = false
  · rw [rejectBadName_bad hfrom]
    exact hfailed _ _ onDisk
  by_cases hto : isPlainName (stagingName id) = false
  · rw [rejectBadName_plain (by simpa using hfrom), rejectBadName_bad hto]
    exact hfailed _ _ onDisk
  rw [rejectBadName_plain (by simpa using hfrom), rejectBadName_plain (by simpa using hto)]
  cases strategy with
  | renameNoReplace =>
      exact later_commitRename (by simpa using hto) (fun e σ' => hfailed _ σ') hmoved onDisk ready
  | linkThenUnlink =>
      exact later_commitLink (by simpa using hto) (fun e σ' => hfailed _ σ') hmoved
        (fun e σ' => hfailed _ σ') rfl onDisk ready

/-- The object is staged and may be published. -/
def AtStaging (id : Bytes) (request : MoveRequest) (p : Places) (o : Inode) (σ : Trail) : Prop :=
  Taken id request p o σ ∧ σ.entry p.staged = some o

theorem AtStaging.stable (rely : Produced request σ σ') (onDisk : OnDisk id request σ)
    (h : AtStaging id request p o σ) : AtStaging id request p o σ' :=
  ⟨h.1.stable rely onDisk, rely.kept _ _ h.2⟩

theorem later_publish (onDisk : OnDisk id request σ)
    (staged : AtStaging id request (placesIn id request sourceDir destDir) o σ) :
    (publish destDir (stagingName id) request.destName).Safe trailMachine
      (laterContract id request) (fun _ σ' => OnDisk id request σ') σ := by
  unfold publish
  by_cases htemp : isPlainName (stagingName id) = false
  · rw [rejectBadName_bad htemp]
    exact later_end _ _ onDisk
  by_cases hfinal : isPlainName request.destName = false
  · rw [rejectBadName_plain (by simpa using htemp), rejectBadName_bad hfinal]
    exact later_end _ _ onDisk
  rw [rejectBadName_plain (by simpa using htemp), rejectBadName_plain (by simpa using hfinal)]
  refine later_look rfl AtStaging.stable onDisk staged fun fault₁ σ₁ onDisk₁ h₁ _ => ?_
  cases (perform (.openat ⟨destDir, stagingName id⟩) fault₁ σ₁.world).1 with
  | error e => exact later_end _ _ onDisk₁
  | ok fd =>
  refine later_look rfl AtStaging.stable onDisk₁ h₁ fun fault₂ σ₂ onDisk₂ h₂ _ => ?_
  cases (perform (.fsync fd) fault₂ σ₂.world).1 with
  | error e => exact later_end _ _ onDisk₂
  | ok _ =>
  intro σ₃ rely fault₃ _
  have onDisk₃ : OnDisk id request σ₃ := onDisk₂.stable rely
  have h₃ := h₂.stable rely onDisk₂
  rcases trail_cases ⟨.publishRename, .renameat ⟨destDir, stagingName id⟩
      ⟨destDir, request.destName⟩⟩ fault₃ σ₃ with ⟨e, hperform⟩ | hperform
  · rw [hperform]
    exact ⟨onDisk₃, later_end _ _ onDisk₃⟩
  rw [hperform]
  cases hfs : σ₃.world.fs.rename ⟨destDir, stagingName id⟩ ⟨destDir, request.destName⟩ with
  | error e =>
      simp only [answer, World.onFs, hfs]
      exact ⟨onDisk₃, later_end _ _ onDisk₃⟩
  | ok fs' =>
      have hpublished := h₃.1.publish h₃.2 (by simpa using hfinal) hfs
      have hafter := hpublished.onDisk (onDisk₃.apart _ h₃.1.placed)
      have hthere : σ₃.entry ⟨destDir, stagingName id⟩ = some o := h₃.2
      simp only [answer, World.onFs, hfs, Trail.note, hthere, Option.toList_some,
        List.singleton_append]
      refine ⟨hafter, ?_⟩
      refine later_look (P := fun _ => True) rfl (fun _ _ _ => trivial) hafter trivial ?_
      intro fault₄ σ₄ onDisk₄ _ _
      cases (perform (.fsyncDir destDir) fault₄ σ₄.world).1 with
      | error e => exact later_end _ _ onDisk₄
      | ok _ => exact later_end _ _ onDisk₄

/-- A stretch of calls that change no name, about which nothing else needs to be known. -/
theorem later_records {program : Prog α}
    (uses : program.Uses fun c => c.op.movesNames = false ∧ Avoids .failed c)
    (onDisk : OnDisk id request σ) :
    program.Safe trailMachine (laterContract id request) (fun _ σ' => OnDisk id request σ') σ :=
  (later_still (P := fun _ => True) uses (fun _ _ _ => trivial) (fun _ _ _ _ _ _ => trivial)
    onDisk trivial).weaken fun _ _ h => h.1

theorem later_haltWith {outcome : MoveOutcome} (onDisk : OnDisk id request σ) :
    (haltWith id outcome error).Safe trailMachine (laterContract id request)
      (fun _ σ' => OnDisk id request σ') σ :=
  later_records (uses_haltWith fun _ => ⟨rfl, trivial⟩) onDisk

theorem later_recordDone (onDisk : OnDisk id request σ) :
    (recordDone id tick error).Safe trailMachine (laterContract id request)
      (fun _ σ' => OnDisk id request σ') σ := by
  refine later_records (uses_recordDone (fun _ => ⟨rfl, trivial⟩) ?_ ?_) onDisk
  · exact fun _ _ h _ => ⟨movesNames_of_readOnly h, Avoids.of_readOnly h⟩
  · rintro target before after (rfl | rfl) hafter
    · exact ⟨rfl, Avoids.of_update (by rw [hafter]; decide)⟩
    · exact ⟨rfl, Avoids.of_update (by rw [hafter]; decide)⟩

theorem later_publishAndRecord (onDisk : OnDisk id request σ)
    (placed : Placed id request sourceDir destDir σ) :
    (publishAndRecord id request destDir tick error).Safe trailMachine
      (laterContract id request) (fun _ σ' => OnDisk id request σ') σ := by
  have hunseen : ∀ σ, OnDisk id request σ → ((sawEntry .finalProbe destDir request.destName).bind
      fun sawFinal => if sawFinal then recordDone id tick error
        else haltWith id .failedExternal (lit "mover: job " ++ quoted id ++
          lit (" is past the commit point but neither the staged nor the " ++
            "final name exists; the delivered object was removed " ++
            "externally (L2-SEC-011)"))).Safe trailMachine (laterContract id request)
      (fun _ σ' => OnDisk id request σ') σ := by
    intro σ onDisk
    refine (later_records (uses_sawEntry ⟨rfl, trivial⟩) onDisk).bind fun sawFinal σ₁ h₁ => ?_
    cases sawFinal with
    | true => exact later_recordDone h₁
    | false => exact later_haltWith h₁
  unfold publishAndRecord
  by_cases hplain : isPlainName (stagingName id) = false
  · rw [sawEntry_bad hplain]
    exact hunseen σ onDisk
  rw [sawEntry_plain (by simpa using hplain)]
  refine later_look rfl Placed.stable onDisk placed fun fault σ₁ onDisk₁ h₁ _ => ?_
  rcases perform_fstatat ⟨destDir, stagingName id⟩ fault σ₁.world with
    ⟨e, _, _, hreply⟩ | ⟨_, hreply⟩ | ⟨o, hentry, hreply⟩
  · rw [hreply]
    exact hunseen σ₁ onDisk₁
  · rw [hreply]
    exact hunseen σ₁ onDisk₁
  · rw [hreply]
    have hstaged : AtStaging id request (placesIn id request sourceDir destDir) o σ₁ :=
      ⟨onDisk₁.of_staged h₁ hentry, hentry⟩
    refine (later_looks (uses_sawEntry rfl) AtStaging.stable onDisk₁ hstaged).bind ?_
    rintro sawFinal σ₂ ⟨onDisk₂, h₂⟩
    refine (later_publish onDisk₂ h₂).bind fun result σ₃ onDisk₃ => ?_
    cases result with
    | error message => exact later_haltWith onDisk₃
    | ok _ => exact later_recordDone onDisk₃

/-- The phases after the commit leave one of the two situations, whichever they find. -/
theorem later_finishAfterCommit (onDisk : OnDisk id request σ)
    (placed : Placed id request sourceDir destDir σ) :
    (finishAfterCommit id request destDir tick error).Safe trailMachine
      (laterContract id request) (fun _ σ' => OnDisk id request σ') σ := by
  refine (later_looks (uses_load rfl) Placed.stable onDisk placed).bind ?_
  rintro loaded σ₁ ⟨onDisk₁, h₁⟩
  match loaded with
  | .error message => exact later_end _ _ onDisk₁
  | .ok none => exact later_end _ _ onDisk₁
  | .ok (some job) =>
    simp only
    split
    · exact later_end _ _ onDisk₁
    split
    · exact later_end _ _ onDisk₁
    split
    · refine (later_still (uses_recordTransition ⟨rfl, trivial⟩ fun before after htrans =>
        ⟨rfl, Avoids.of_update (by rw [Job.transition_state htrans]; decide)⟩)
        Placed.stable (fun c fault still avoids _ h => h.kept c fault still avoids) onDisk₁
        h₁).bind ?_
      rintro result σ₂ ⟨onDisk₂, h₂⟩
      cases result with
      | error failure => exact later_haltWith onDisk₂
      | ok _ => exact later_publishAndRecord onDisk₂ h₂
    · exact later_publishAndRecord onDisk₁ h₁

section Looking
variable {post : α → Trail → Prop} {P : Trail → Prop}
  (stable : ∀ {σ σ'}, Produced request σ σ' → OnDisk id request σ → P σ → P σ')
  (onDisk : OnDisk id request σ) (start : P σ)
include stable onDisk start

/-- What is read is the row as it is: nobody else writes it. -/
theorem later_load {site : Site} {next : Except Bytes (Option Job) → Prog α}
    (failed : ∀ message σ', OnDisk id request σ' →
      (next (.error message)).Safe trailMachine (laterContract id request) post σ')
    (absent : ∀ σ', OnDisk id request σ' →
      (next (.ok none)).Safe trailMachine (laterContract id request) post σ')
    (found : ∀ job σ', OnDisk id request σ' → P σ' → σ'.state id = some job.state →
      (next (.ok (some job))).Safe trailMachine (laterContract id request) post σ') :
    ((load site id).bind next).Safe trailMachine (laterContract id request) post σ := by
  refine later_look rfl stable onDisk start fun fault σ₁ onDisk₁ h₁ _ => ?_
  rcases perform_selectJob id fault σ₁.world with ⟨e, hreply⟩ | hreply
  · rw [hreply]
    exact failed _ σ₁ onDisk₁
  rw [hreply]
  cases hrow : (σ₁.world.db.row id).map (·.job) with
  | none => exact absent σ₁ onDisk₁
  | some job => exact found job σ₁ onDisk₁ h₁ (Database.state_of_row hrow)

theorem later_openRoot {site : Site} {path : Bytes} {next : Except Bytes Dir → Prog α}
    (refused : ∀ message σ', OnDisk id request σ' →
      (next (.error message)).Safe trailMachine (laterContract id request) post σ')
    (opened : ∀ dir σ', OnDisk id request σ' → P σ' →
      σ'.world.fs.root (cstr path) = some dir →
      (next (.ok dir)).Safe trailMachine (laterContract id request) post σ') :
    ((openRoot site path).bind next).Safe trailMachine (laterContract id request) post σ := by
  refine later_look rfl stable onDisk start fun fault σ₁ onDisk₁ h₁ _ => ?_
  cases hreply : (perform (.openRoot path) fault σ₁.world).1 with
  | error e => exact refused _ σ₁ onDisk₁
  | ok dir => exact opened dir σ₁ onDisk₁ h₁ (perform_openRoot_ok hreply)

theorem later_classify {site : Site} {dir : Dir} {name : Bytes}
    {next : Except Bytes FileIdentity → Prog α}
    (bad : ∀ message σ', OnDisk id request σ' →
      (next (.error message)).Safe trailMachine (laterContract id request) post σ')
    (absent : ∀ σ', OnDisk id request σ' → P σ' → σ'.entry ⟨dir, name⟩ = none →
      (next (.ok FileIdentity.missing)).Safe trailMachine (laterContract id request) post σ')
    (present : ∀ object fault σ', OnDisk id request σ' → P σ' →
      Unmistaken id request σ' ⟨site, .fstatat ⟨dir, name⟩⟩ fault →
      σ'.entry ⟨dir, name⟩ = some object → σ'.sees fault ⟨dir, name⟩ = some object →
      (next (.ok (FileIdentity.ofStat (σ'.world.stat object)))).Safe trailMachine
        (laterContract id request) post σ') :
    ((classify site dir name).bind next).Safe trailMachine (laterContract id request) post σ := by
  by_cases hplain : isPlainName name = false
  · rw [classify_bad hplain]
    exact bad _ σ onDisk
  rw [classify_plain (by simpa using hplain)]
  refine later_look rfl stable onDisk start fun fault σ₁ onDisk₁ h₁ unmistaken => ?_
  rcases perform_fstatat ⟨dir, name⟩ fault σ₁.world with
    ⟨e, he, _, hreply⟩ | ⟨hentry, hreply⟩ | ⟨object, hentry, hreply⟩
  · rw [hreply]
    simp only [identify, if_neg he]
    exact bad _ σ₁ onDisk₁
  · rw [hreply]
    exact absent σ₁ onDisk₁ h₁ hentry
  · have hsees : σ₁.sees fault ⟨dir, name⟩ = some object := by
      rw [Trail.sees, hreply]
      rfl
    rw [hreply]
    exact present object fault σ₁ onDisk₁ h₁ unmistaken hentry hsees

end Looking

/-- What a probe shows is among what was taken, if it may be acted upon. -/
theorem mem_moved_of_sees {slot : Slot} {fault : Option Fault}
    (h : σ.sees fault slot = none ∨ ∃ o ∈ σ.moved, σ.sees fault slot = some o)
    (sees : σ.sees fault slot = some o) : o ∈ σ.moved := by
  rw [sees] at h
  rcases h with hnone | ⟨x, hx, hsome⟩
  · cases hnone
  · cases hsome
    exact hx

/-- Phase 1 has read this state and seen this object under the source name. -/
structure Spotted (id : Bytes) (request : MoveRequest) (p : Places) (x : JobState)
    (object : Inode) (σ : Trail) : Prop where
  placed : σ.places id request = some p
  state : σ.state id = some x
  there : σ.entry p.source = some object
  mine : x ≠ .done → σ.moved ≠ [] → σ.entry p.staged = none → object ∈ σ.moved

theorem Spotted.stable {x : JobState} (rely : Produced request σ σ')
    (onDisk : OnDisk id request σ) (h : Spotted id request p x o σ) :
    Spotted id request p x o σ' := by
  refine ⟨rely.places.trans h.placed, rely.state.trans h.state, rely.kept _ _ h.there, ?_⟩
  rw [rely.moved, rely.staged onDisk h.placed]
  exact h.mine

theorem Spotted.ready {x : JobState} (h : Spotted id request p x o σ)
    (undone : x ≠ .done) (unfailed : x ≠ .failed) : Ready id request p o σ := by
  refine ⟨h.placed, h.there, ?_, h.mine undone⟩
  rw [h.state]
  exact fun heq => unfailed (Option.some.inj heq)

/-- What phase 1 lets through has been spotted. -/
def Vetted (id : Bytes) (request : MoveRequest)
    (result : Except Bytes (Job × Dir × Dir × Bytes)) (σ : Trail) : Prop :=
  OnDisk id request σ ∧ ∀ job sourceDir destDir error,
    result = .ok (job, sourceDir, destDir, error) →
      ∃ object, Spotted id request (placesIn id request sourceDir destDir) job.state object σ

theorem later_validate (onDisk : OnDisk id request σ) :
    (validate id request).Safe trailMachine (laterContract id request) (Vetted id request) σ := by
  have hrefused : ∀ message σ, OnDisk id request σ →
      (Program.pure (.error message) : Prog _).Safe trailMachine (laterContract id request)
        (Vetted id request) σ := by
    intro message σ onDisk σ' rely
    exact ⟨onDisk.stable rely, fun _ _ _ _ hok => nomatch hok⟩
  unfold validate
  split
  · exact hrefused _ _ onDisk
  · exact hrefused _ _ onDisk
  refine later_load (P := fun _ => True) (fun _ _ _ => trivial) onDisk trivial
    (fun _ => hrefused _) (hrefused _) fun job σ₁ onDisk₁ _ h₁ => ?_
  refine later_openRoot (fun rely _ h => rely.state.trans h) onDisk₁ h₁ hrefused ?_
  intro sourceDir σ₂ onDisk₂ h₂ hsource
  have hstable₂ : ∀ {σ σ' : Trail}, Produced request σ σ' → OnDisk id request σ →
      σ.state id = some job.state ∧
        σ.world.fs.root (cstr request.sourceDir) = some sourceDir →
      σ'.state id = some job.state ∧
        σ'.world.fs.root (cstr request.sourceDir) = some sourceDir :=
    fun rely _ h => ⟨rely.state.trans h.1, by rw [rely.root]; exact h.2⟩
  refine later_openRoot hstable₂ onDisk₂ ⟨h₂, hsource⟩ hrefused ?_
  intro destDir σ₃ onDisk₃ h₃ hdest
  have hplaced : Placed id request sourceDir destDir σ₃ := by
    rw [Placed, Trail.places, placesOf, h₃.2, hdest]
  have hstable₃ : ∀ {σ σ' : Trail}, Produced request σ σ' → OnDisk id request σ →
      σ.state id = some job.state ∧ Placed id request sourceDir destDir σ →
      σ'.state id = some job.state ∧ Placed id request sourceDir destDir σ' :=
    fun rely onDisk h => ⟨rely.state.trans h.1, h.2.stable rely onDisk⟩
  refine later_classify hstable₃ onDisk₃ ⟨h₃.1, hplaced⟩ hrefused ?_ ?_
  · intro σ₄ onDisk₄ _ _
    exact hrefused _ _ onDisk₄
  intro object fault σ₄ onDisk₄ h₄ unmistaken hthere hsees
  have hspotted : Spotted id request (placesIn id request sourceDir destDir) job.state object
      σ₄ := by
    refine ⟨h₄.2, h₄.1, hthere, fun undone any free => ?_⟩
    have hfree : ∀ p ∈ σ₄.places id request, σ₄.entry p.staged = none := by
      intro p hp
      rw [h₄.2] at hp
      cases hp
      exact free
    have hunfinished : σ₄.state id ≠ some .done := by
      rw [h₄.1]
      exact fun heq => undone (Option.some.inj heq)
    exact mem_moved_of_sees (unmistaken.2.1 rfl hfree any hunfinished _ h₄.2) hsees
  simp only
  split
  · exact hrefused _ _ onDisk₄
  split
  · exact hrefused _ _ onDisk₄
  refine (later_looks (uses_openRegular fun _ _ h _ => h) Spotted.stable onDisk₄
    hspotted).bind ?_
  rintro opened σ₅ ⟨onDisk₅, h₅⟩
  cases opened with
  | error message => exact hrefused _ _ onDisk₅
  | ok _ =>
  refine (later_looks (uses_classify rfl) Spotted.stable onDisk₅ h₅).bind ?_
  rintro probed σ₆ ⟨onDisk₆, h₆⟩
  cases probed with
  | error message =>
      intro σ₇ rely
      refine ⟨onDisk₆.stable rely, ?_⟩
      rintro _ _ _ _ ⟨rfl⟩
      exact ⟨object, h₆.stable rely onDisk₆⟩
  | ok _ =>
      intro σ₇ rely
      refine ⟨onDisk₆.stable rely, ?_⟩
      rintro _ _ _ _ ⟨rfl⟩
      exact ⟨object, h₆.stable rely onDisk₆⟩

theorem later_commitAndFinish (onDisk : OnDisk id request σ)
    (ready : Ready id request (placesIn id request sourceDir destDir) o σ) :
    (commitAndFinish id request strategy sourceDir destDir tick error).Safe trailMachine
      (laterContract id request) (fun _ σ' => OnDisk id request σ') σ := by
  refine (later_moveWithin onDisk ready).bind ?_
  rintro result σ₁ ⟨onDisk₁, h₁⟩
  cases result with
  | error message => exact fun σ₂ rely => onDisk₁.stable rely
  | ok _ => exact later_finishAfterCommit onDisk₁ (h₁ rfl)

theorem later_execute (onDisk : OnDisk id request σ) :
    (execute id request strategy).Safe trailMachine (laterContract id request)
      (fun _ σ' => OnDisk id request σ') σ := by
  refine (later_validate onDisk).bind ?_
  rintro result σ₁ ⟨onDisk₁, h₁⟩
  match result with
  | .error message => exact later_end _ _ onDisk₁
  | .ok (job, sourceDir, destDir, error) =>
    obtain ⟨object, hspotted⟩ := h₁ _ _ _ _ rfl
    simp only
    split
    · exact later_end _ _ onDisk₁
    rename_i hdone
    split
    · exact later_end _ _ onDisk₁
    rename_i hfailed
    have hready := hspotted.ready hdone hfailed
    split
    · refine (later_still (uses_recordTransition ⟨rfl, trivial⟩ fun before after htrans =>
        ⟨rfl, Avoids.of_update (by rw [Job.transition_state htrans]; decide)⟩)
        Ready.stable (fun c fault still avoids _ h => h.kept c fault still avoids) onDisk₁
        hready).bind ?_
      rintro result σ₂ ⟨onDisk₂, h₂⟩
      cases result with
      | error failure => exact later_end _ _ onDisk₂
      | ok _ => exact later_commitAndFinish onDisk₂ h₂
    · exact later_commitAndFinish onDisk₁ hready

/-! ## Recovery -/

/-- FAILED can be recorded: nothing was taken, or the table refuses it. -/
def MayFail (id : Bytes) (request : MoveRequest) (σ : Trail) : Prop :=
  Untaken id request σ ∨ σ.state id = some .done

theorem MayFail.stable (rely : Produced request σ σ') (onDisk : OnDisk id request σ)
    (h : MayFail id request σ) : MayFail id request σ' := by
  rcases h with huntaken | hdone
  · exact Or.inl (huntaken.stable rely onDisk)
  · exact Or.inr (rely.state.trans hdone)

theorem later_failing (onDisk : OnDisk id request σ) (may : MayFail id request σ) :
    (updateState id .failed tick error).Safe trailMachine (laterContract id request)
      (fun _ σ' => OnDisk id request σ') σ := by
  refine later_load MayFail.stable onDisk may (fun _ => later_end _) (later_end _) ?_
  intro job σ₁ onDisk₁ h₁ hstate
  simp only
  cases htrans : job.transition .failed tick error with
  | none => exact later_end _ σ₁ onDisk₁
  | some after =>
      have huntaken : Untaken id request σ₁ := by
        rcases h₁ with huntaken | hdone
        · exact huntaken
        · have hlegal := (Job.transition_eq_some.mp htrans).1
          rw [hstate] at hdone
          rw [Option.some.inj hdone] at hlegal
          cases hlegal
      intro σ₂ rely fault _
      have honDisk : OnDisk id request (trailMachine.perform ⟨.transitionWrite .failed,
          .updateJob id job after⟩ fault σ₂).2 := by
        rw [trail_still rfl]
        exact (onDisk₁.stable rely).recorded (perform_fs rfl fault σ₂.world)
          (Or.inl (huntaken.stable rely onDisk₁))
      refine ⟨honDisk, ?_⟩
      cases (trailMachine.perform ⟨.transitionWrite .failed, .updateJob id job after⟩ fault
          σ₂).1 with
      | error e => exact later_end _ _ honDisk
      | ok _ => exact later_end _ _ honDisk

theorem later_failWith {outcome : MoveOutcome} (onDisk : OnDisk id request σ)
    (may : MayFail id request σ) :
    (failWith id outcome tick error).Safe trailMachine (laterContract id request)
      (fun _ σ' => OnDisk id request σ') σ := by
  have hrecorded : (recordTransition id .failed tick error .afterCommitPoint).Safe trailMachine
      (laterContract id request) (fun _ σ' => OnDisk id request σ') σ := by
    refine (later_failing onDisk may).bind fun result σ₁ onDisk₁ => ?_
    cases result with
    | error e => exact fun _ rely => onDisk₁.stable rely
    | ok _ => exact fun _ rely => onDisk₁.stable rely
  exact hrecorded.bind fun _ σ₁ onDisk₁ _ rely => onDisk₁.stable rely

/-- What `recover` may conclude from the two probes. -/
def Judged (id : Bytes) (request : MoveRequest) (sourceDir destDir : Dir) (σ : Trail) :
    MoveState → Prop
  | .interrupted => ∃ object, σ.entry ⟨sourceDir, request.sourceName⟩ = some object ∧
      σ.entry ⟨destDir, stagingName id⟩ = some object
  | .collision => σ.state id = some .done
  | .bothMissing => σ.entry ⟨destDir, stagingName id⟩ = none
  | .notStarted | .completed => True

theorem Judged.stable {state : MoveState} (rely : Produced request σ σ')
    (onDisk : OnDisk id request σ) (placed : Placed id request sourceDir destDir σ)
    (h : Judged id request sourceDir destDir σ state) :
    Judged id request sourceDir destDir σ' state := by
  cases state with
  | interrupted =>
      obtain ⟨object, hsource, hstaged⟩ := h
      exact ⟨object, rely.kept _ _ hsource, rely.kept _ _ hstaged⟩
  | collision => exact rely.state.trans h
  | bothMissing => exact (rely.staged onDisk placed).trans h
  | notStarted => trivial
  | completed => trivial

/-- The first probe has seen this object. -/
structure SeenFirst (id : Bytes) (request : MoveRequest) (p : Places) (object : Inode)
    (type : FileType) (σ : Trail) : Prop where
  placed : σ.places id request = some p
  there : σ.entry p.source = some object
  type : σ.world.fs.type object = type
  mine : σ.moved ≠ [] → σ.state id ≠ some .done → object ∈ σ.moved

theorem SeenFirst.stable {type : FileType} (rely : Produced request σ σ')
    (_ : OnDisk id request σ) (h : SeenFirst id request p o type σ) :
    SeenFirst id request p o type σ' := by
  refine ⟨rely.places.trans h.placed, rely.kept _ _ h.there, ?_, ?_⟩
  · rw [rely.type]
    exact h.type
  · rw [rely.moved, rely.state]
    exact h.mine

/-- Two different objects under the two names: then the job is done, or a later file has
been seen. -/
theorem SeenFirst.done {type : FileType} {target : Inode} (h : SeenFirst id request p o type σ)
    (onDisk : OnDisk id request σ) (staged : σ.entry p.staged = some target)
    (differ : o ≠ target) : σ.state id = some .done := by
  by_contra hdone
  have htaken := onDisk.of_staged h.placed staged
  exact differ (htaken.moved o (h.mine htaken.any hdone))

/-- `classify_move_state` is right about the job, unless it meets a later file. -/
def SortedOut (id : Bytes) (request : MoveRequest) (sourceDir destDir : Dir)
    (result : Except Bytes MoveState) (σ : Trail) : Prop :=
  OnDisk id request σ ∧ ∀ state, result = .ok state →
    Placed id request sourceDir destDir σ ∧ Judged id request sourceDir destDir σ state

theorem later_classifyMoveState (onDisk : OnDisk id request σ)
    (placed : Placed id request sourceDir destDir σ) :
    (classifyMoveState sourceDir request.sourceName destDir (stagingName id)).Safe trailMachine
      (laterContract id request) (SortedOut id request sourceDir destDir) σ := by
  have hfailed : ∀ message σ, OnDisk id request σ → (Program.pure (.error message) :
      Prog (Except Bytes MoveState)).Safe trailMachine (laterContract id request)
      (SortedOut id request sourceDir destDir) σ :=
    fun _ _ onDisk _ rely => ⟨onDisk.stable rely, nofun⟩
  have hend : ∀ state σ, OnDisk id request σ → Placed id request sourceDir destDir σ →
      Judged id request sourceDir destDir σ state → (Program.pure (.ok state) :
        Prog (Except Bytes MoveState)).Safe trailMachine (laterContract id request)
        (SortedOut id request sourceDir destDir) σ := by
    intro state σ onDisk placed judged σ' rely
    refine ⟨onDisk.stable rely, ?_⟩
    rintro _ ⟨rfl⟩
    exact ⟨placed.stable rely onDisk, judged.stable rely onDisk placed⟩
  have hmissing : FileIdentity.missing.kind = .missing := rfl
  have hpresent : ∀ st, (FileIdentity.ofStat st).kind ≠ .missing :=
    fun st => kindFromMode_ne_missing st.type
  unfold classifyMoveState
  refine later_classify Placed.stable onDisk placed hfailed ?_ ?_
  · intro σ₁ onDisk₁ h₁ _
    refine later_classify Placed.stable onDisk₁ h₁ hfailed ?_ ?_
    · intro σ₂ onDisk₂ h₂ hnone
      simp only [hmissing, ne_eq, not_true_eq_false, false_and, if_false]
      exact hend _ _ onDisk₂ h₂ hnone
    · intro target _ σ₂ onDisk₂ h₂ _ _ _
      simp only [hmissing, hpresent, ne_eq, not_true_eq_false, not_false_eq_true, false_and,
        if_false, if_true]
      exact hend _ _ onDisk₂ h₂ trivial
  · intro object fault σ₁ onDisk₁ h₁ unmistaken hthere hsees
    have hfirst : SeenFirst id request (placesIn id request sourceDir destDir) object
        (σ₁.world.fs.type object) σ₁ := by
      refine ⟨h₁, hthere, rfl, fun any undone => ?_⟩
      exact mem_moved_of_sees (unmistaken.1 rfl any undone _ h₁) hsees
    refine later_classify SeenFirst.stable onDisk₁ hfirst hfailed ?_ ?_
    · intro σ₂ onDisk₂ h₂ _
      simp only [hmissing, hpresent, ne_eq, not_true_eq_false, not_false_eq_true, and_false,
        if_false, if_true]
      exact hend _ _ onDisk₂ h₂.placed trivial
    · intro target _ σ₂ onDisk₂ h₂ _ hstaged _
      have hsame : (FileIdentity.ofStat (σ₁.world.stat object)) =
          FileIdentity.ofStat (σ₂.world.stat object) := by
        simp only [World.stat, h₂.type]
      simp only [hpresent, ne_eq, not_false_eq_true, and_self, if_true, hsame,
        sameObjectAs_iff]
      refine hend _ _ onDisk₂ h₂.placed ?_
      split
      · rename_i heq
        exact ⟨object, h₂.there, by rw [heq]; exact hstaged⟩
      · rename_i hne
        exact h₂.done onDisk₂ hstaged hne

/-- Without a staged object, what was taken is under the final name. -/
theorem OnDisk.untaken (onDisk : OnDisk id request σ) (placed : σ.places id request = some p)
    (free : σ.entry p.staged = none)
    (unseen : isPlainName request.destName = true → σ.entry p.final = none) :
    Untaken id request σ := by
  rcases onDisk.either with huntaken | ⟨p', o, htaken⟩
  · exact huntaken
  · exfalso
    have hp := htaken.placed
    rw [placed] at hp
    cases hp
    rcases htaken.there with hstaged | ⟨_, hfinal, hplain⟩
    · rw [free] at hstaged
      cases hstaged
    · rw [unseen hplain] at hfinal
      cases hfinal

theorem later_redrive {job : Job} {state : MoveState} (onDisk : OnDisk id request σ)
    (placed : Placed id request sourceDir destDir σ)
    (judged : Judged id request sourceDir destDir σ state) :
    (redrive id request strategy sourceDir destDir job state).Safe trailMachine
      (laterContract id request) (fun _ σ' => OnDisk id request σ') σ := by
  cases state with
  | notStarted => exact later_execute onDisk
  | completed => exact later_finishAfterCommit onDisk placed
  | collision => exact later_failWith onDisk (Or.inr judged)
  | interrupted =>
      obtain ⟨object, hsource, hstaged⟩ := judged
      have hready : Ready id request (placesIn id request sourceDir destDir) object σ := by
        refine ⟨placed, hsource, (onDisk.of_staged placed hstaged).recorded, fun _ hnone => ?_⟩
        rw [show σ.entry (placesIn id request sourceDir destDir).staged = some object from
          hstaged] at hnone
        cases hnone
      refine (later_moveWithin onDisk hready).bind ?_
      rintro result σ₁ ⟨onDisk₁, h₁⟩
      cases result with
      | error message => exact later_haltWith onDisk₁
      | ok _ => exact later_finishAfterCommit onDisk₁ (h₁ rfl)
  | bothMissing =>
      have hstable : ∀ {σ σ' : Trail}, Produced request σ σ' → OnDisk id request σ →
          Placed id request sourceDir destDir σ ∧
            σ.entry ⟨destDir, stagingName id⟩ = none →
          Placed id request sourceDir destDir σ' ∧
            σ'.entry ⟨destDir, stagingName id⟩ = none :=
        fun rely onDisk h =>
          ⟨h.1.stable rely onDisk, (rely.staged onDisk h.1).trans h.2⟩
      show ((sawEntry .recoverFinalProbe destDir request.destName).bind _).Safe _ _ _ _
      by_cases hplain : isPlainName request.destName = false
      · rw [sawEntry_bad hplain]
        refine later_failWith onDisk (Or.inl (onDisk.untaken placed judged fun h => ?_))
        rw [hplain] at h
        cases h
      rw [sawEntry_plain (by simpa using hplain)]
      refine later_look rfl hstable onDisk ⟨placed, judged⟩ ?_
      intro fault σ₁ onDisk₁ h₁ unmistaken
      have hfail : σ₁.sees fault ⟨destDir, request.destName⟩ = none →
          (failWith id .failedExternal (nextTick job.updatedAtMs)
            (lit ("mover: neither source nor staged destination exists for " ++
              "job ") ++ quoted id ++
              lit ("; the source was removed externally (L2-SEC-011). Not " ++
                "retrying automatically."))).Safe trailMachine (laterContract id request)
            (fun _ σ' => OnDisk id request σ') σ₁ := by
        intro hsees
        apply later_failWith onDisk₁
        by_contra hmay
        rw [MayFail, not_or] at hmay
        -- the job has taken something, so the probe was not to fail
        rcases onDisk₁.either with huntaken | ⟨p, o, htaken⟩
        · exact hmay.1 huntaken
        · exact unmistaken.2.2 rfl htaken.any hmay.2 _ h₁.1 hsees
      rcases perform_fstatat ⟨destDir, request.destName⟩ fault σ₁.world with
        ⟨e, _, _, hreply⟩ | ⟨_, hreply⟩ | ⟨object, _, hreply⟩
      · have hsees : σ₁.sees fault ⟨destDir, request.destName⟩ = none := by
          rw [Trail.sees, hreply]
          rfl
        rw [hreply]
        exact hfail hsees
      · have hsees : σ₁.sees fault ⟨destDir, request.destName⟩ = none := by
          rw [Trail.sees, hreply]
          rfl
        rw [hreply]
        exact hfail hsees
      · rw [hreply]
        exact later_finishAfterCommit onDisk₁ h₁.1

theorem later_recover (onDisk : OnDisk id request σ) :
    (recover id request strategy).Safe trailMachine (laterContract id request)
      (fun _ σ' => OnDisk id request σ') σ := by
  refine later_openRoot (P := fun _ => True) (fun _ _ _ => trivial) onDisk trivial
    (fun _ => later_end _) fun sourceDir σ₁ onDisk₁ _ hsource => ?_
  have hrooted : ∀ {σ σ' : Trail}, Produced request σ σ' → OnDisk id request σ →
      σ.world.fs.root (cstr request.sourceDir) = some sourceDir →
      σ'.world.fs.root (cstr request.sourceDir) = some sourceDir :=
    fun rely _ h => by rw [rely.root]; exact h
  refine later_openRoot hrooted onDisk₁ hsource (fun _ => later_end _) ?_
  intro destDir σ₂ onDisk₂ h₂ hdest
  have hplaced : Placed id request sourceDir destDir σ₂ := by
    rw [Placed, Trail.places, placesOf, h₂, hdest]
  refine (later_classifyMoveState onDisk₂ hplaced).bind ?_
  rintro result σ₃ ⟨onDisk₃, h₃⟩
  cases result with
  | error message => exact later_end _ _ onDisk₃
  | ok state =>
  have hstable : ∀ {σ σ' : Trail}, Produced request σ σ' → OnDisk id request σ →
      Placed id request sourceDir destDir σ ∧ Judged id request sourceDir destDir σ state →
      Placed id request sourceDir destDir σ' ∧ Judged id request sourceDir destDir σ' state :=
    fun rely onDisk h => ⟨h.1.stable rely onDisk, h.2.stable rely onDisk h.1⟩
  refine later_load hstable onDisk₃ (h₃ state rfl) (fun _ => later_end _) (later_end _) ?_
  intro job σ₄ onDisk₄ h₄ _
  exact later_redrive onDisk₄ h₄.1 h₄.2

end Functions

end Rules

/-! ## Every history -/

section Histories
variable {id : Bytes} {request : MoveRequest}

/-- What holds in every state of a history. -/
structure Sane (id : Bytes) (request : MoveRequest) (h : Chronicle) : Prop where
  onDisk : OnDisk id request h.trail
  safe : ∀ program ∈ h.run, program.Safe trailMachine (laterContract id request)
    (fun _ σ => OnDisk id request σ) h.trail

theorem produced_of_act {h h' : Chronicle} {object : Inode}
    (act : h.act id request (.produce object) = some h') :
    Produced request h.trail h'.trail ∧ h'.run = h.run := by
  simp only [Chronicle.act] at act
  split at act
  · cases act
  rename_i slot hslot
  split at act
  · rename_i hfree
    cases act
    refine ⟨⟨rfl, rfl, rfl, rfl, rfl, ?_, ?_⟩, rfl⟩
    · -- the name was free, so nothing is overwritten
      intro other x hother
      have hne : other ≠ slot := by
        rintro rfl
        rw [hfree.1] at hother
        cases hother
      exact (Filesystem.entry_put_ne hne).trans hother
    · intro other hne
      refine Filesystem.entry_put_ne fun heq => hne ?_
      rw [hslot, heq]
  · cases act

theorem Sane.step {h h' : Chronicle} {event : ChronicleEvent} (sane : Sane id request h)
    (unmistaken : NotMistaken id request h event) (act : h.act id request event = some h') :
    Sane id request h' := by
  cases event with
  | start entry strategy =>
      cases act
      refine ⟨sane.onDisk, ?_⟩
      rintro _ ⟨rfl⟩
      cases entry with
      | execute => exact later_execute sane.onDisk
      | recover => exact later_recover sane.onDisk
  | call fault =>
      simp only [Chronicle.act] at act
      unfold NotMistaken at unmistaken
      split at act
      · rename_i c next hrun
        rw [hrun] at unmistaken
        cases act
        obtain ⟨honDisk, hnext⟩ := (sane.safe _ hrun).step unmistaken
        refine ⟨honDisk, ?_⟩
        rintro _ ⟨rfl⟩
        exact hnext
      · cases act
  | produce object =>
      obtain ⟨rely, hrun⟩ := produced_of_act act
      refine ⟨sane.onDisk.stable rely, ?_⟩
      rw [hrun]
      exact fun program hprogram => (sane.safe program hprogram).interfere rely

end Histories

end FileMover
