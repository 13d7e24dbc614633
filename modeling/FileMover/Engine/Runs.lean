import FileMover.Engine.Refinement
import Mathlib.Logic.Relation

/-!
# Runs and re-drives

Whole histories of an engine: runs of `execute` and `recover` are begun one
after the other, every call may be made to fail, a run may be abandoned between
any two calls (a crash), and others may act in between. A `Setting` fixes which
runs are begun, which calls are considered, and what the others do.

An invariant of the protocol's steps is an invariant of such histories
(`Setting.Keeps.reach`); this is the only place where the refinement is used.
-/

namespace FileMover

open Framework

/-- The two entry points of the engine. -/
inductive Entry
  | execute
  | recover
deriving DecidableEq, Repr

def Entry.program (entry : Entry) (id : Bytes) (request : MoveRequest)
    (strategy : MoveStrategy) : Prog MoveResult :=
  match entry with
  | .execute => FileMover.execute id request strategy
  | .recover => FileMover.recover id request strategy

/-- A run in progress: the job and what is left to do. -/
structure Run where
  id : Bytes
  request : MoveRequest
  program : Prog MoveResult

structure Drive where
  session : Session
  active : Option Run

structure Setting where
  begins : Bytes → MoveRequest → MoveStrategy → Prop
  meets : Bytes → MoveRequest → Call → Option Fault → Session → Prop
  interferes : Session → Session → Prop

/-- The notes at the start of a run. -/
def Session.begun (σ : Session) (id : Bytes) (request : MoveRequest) : Session :=
  { σ with
    ledger :=
      { owner := id
        places := placesOf σ.world.fs.root id request
        moved := σ.ledger.moved
        before := σ.world.fs
        staged := none
        trusted := none
        settled := false } }

inductive Drive.Step (S : Setting) : Drive → Drive → Prop where
  | begin {σ : Session} (entry : Entry) (id : Bytes) (request : MoveRequest)
      (strategy : MoveStrategy) (h : S.begins id request strategy) :
      Step S ⟨σ, none⟩
        ⟨σ.begun id request,
          some ⟨id, request, entry.program id request strategy⟩⟩
  | call {σ : Session} {id : Bytes} {request : MoveRequest} {c : Call}
      {next : Reply c → Prog MoveResult} (fault : Option Fault)
      (h : S.meets id request c fault σ) :
      Step S ⟨σ, some ⟨id, request, .call c next⟩⟩
        ⟨(sessionMachine.perform c fault σ).2,
          some ⟨id, request, next (sessionMachine.perform c fault σ).1⟩⟩
  /-- The run returns, or the process dies. -/
  | stop {σ : Session} {run : Run} : Step S ⟨σ, some run⟩ ⟨σ, none⟩
  | interfere {σ σ' : Session} {active : Option Run} (h : S.interferes σ σ') :
      Step S ⟨σ, active⟩ ⟨σ', active⟩

abbrev Drive.Reach (S : Setting) : Drive → Drive → Prop :=
  Relation.ReflTransGen (Drive.Step S)

/-- The session in which nothing has been noted yet. -/
def Session.start (w : World) : Session where
  world := w
  ledger :=
    { owner := []
      places := none
      moved := fun _ => []
      before := w.fs
      staged := none
      trusted := none
      settled := false }
  faulted := false

/-! ## Invariants -/

section MoveStep
variable {p : Places} {id : Bytes} {request : MoveRequest} {c : Call}
  {fault : Option Fault} {σ σ' : Session}

/-- Directories and file types are nobody's to change. -/
theorem MoveStep.fixed (step : MoveStep p id request c fault σ σ') :
    σ'.world.fs.root = σ.world.fs.root ∧ σ'.world.fs.type = σ.world.fs.type := by
  cases step with
  | quiet fs => rw [fs]; exact ⟨rfl, rfl⟩
  | readDone _ _ fs => rw [fs]; exact ⟨rfl, rfl⟩
  | lookStaged fs => rw [fs]; exact ⟨rfl, rfl⟩
  | lookFinal _ _ fs => rw [fs]; exact ⟨rfl, rfl⟩
  | commit _ _ _ _ _ _ _ fs => rw [fs]; exact ⟨rfl, rfl⟩
  | link _ _ _ _ _ _ _ fs => rw [fs]; exact ⟨rfl, rfl⟩
  | unlink _ _ _ _ _ _ _ fs => rw [fs]; exact ⟨rfl, rfl⟩
  | publish _ _ _ _ _ _ _ _ fs =>
      rcases fs with ⟨_, fs⟩ | ⟨_, fs⟩
      · rw [fs]
        exact ⟨rfl, rfl⟩
      · rw [fs]
        exact ⟨rfl, rfl⟩
  | record _ _ _ _ _ _ fs => rw [fs]; exact ⟨rfl, rfl⟩

theorem MoveStep.root (step : MoveStep p id request c fault σ σ') :
    σ'.world.fs.root = σ.world.fs.root := step.fixed.1

/-- A step belongs to the run that makes it. -/
theorem MoveStep.same_run (step : MoveStep p id request c fault σ σ') :
    σ'.ledger.owner = σ.ledger.owner ∧ σ'.ledger.places = σ.ledger.places ∧
      σ'.ledger.before = σ.ledger.before := by
  cases step with
  | quiet _ _ ledger => rw [ledger]; exact ⟨rfl, rfl, rfl⟩
  | readDone _ _ _ _ ledger => rw [ledger]; exact ⟨rfl, rfl, rfl⟩
  | lookStaged _ _ ledger => rw [ledger]; exact ⟨rfl, rfl, rfl⟩
  | lookFinal _ _ _ _ ledger => rw [ledger]; exact ⟨rfl, rfl, rfl⟩
  | commit _ _ _ _ _ _ _ _ _ ledger => rw [ledger]; exact ⟨rfl, rfl, rfl⟩
  | link _ _ _ _ _ _ _ _ _ ledger => rw [ledger]; exact ⟨rfl, rfl, rfl⟩
  | unlink _ _ _ _ _ _ _ _ _ ledger => rw [ledger]; exact ⟨rfl, rfl, rfl⟩
  | publish _ _ _ _ _ _ _ _ _ _ ledger => rw [ledger]; exact ⟨rfl, rfl, rfl⟩
  | record _ _ _ _ _ _ _ _ ledger => rw [ledger]; exact ⟨rfl, rfl, rfl⟩

/-- A request that points nowhere moves nothing. -/
theorem MoveStep.fs_of_nowhere (step : MoveStep p id request c fault σ σ')
    (nowhere : placesOf σ.world.fs.root id request = none) :
    σ'.world.fs = σ.world.fs := by
  cases step with
  | quiet fs => exact fs
  | readDone _ _ fs => exact fs
  | lookStaged fs => exact fs
  | lookFinal _ _ fs => exact fs
  | record _ _ _ _ _ _ fs => exact fs
  | commit _ placed | link _ placed | unlink _ placed | publish _ _ _ placed =>
      rw [nowhere] at placed
      cases placed

theorem Undisturbed.root (u : Undisturbed p id σ σ') :
    σ'.world.fs.root = σ.world.fs.root := congrArg (·.root) u.view

end MoveStep

/-- What has to be shown of an invariant: it survives the start of a run, each
step of the protocol in a call that the setting considers, and what the others
do; and the others leave the run in progress undisturbed. -/
structure Setting.Keeps (S : Setting) (Inv : Session → Prop) : Prop where
  begun : ∀ {σ id request strategy}, S.begins id request strategy → Inv σ →
    Inv (σ.begun id request)
  step : ∀ {σ σ' p id request strategy c fault}, S.begins id request strategy →
    Located p id request σ.world.fs.root → σ.ledger.owner = id →
    σ.ledger.places = placesOf σ.world.fs.root id request →
    MoveStep p id request c fault σ σ' → S.meets id request c fault σ →
    σ'.faulted = (σ.faulted || fault.isSome) → Inv σ → Inv σ'
  interfere : ∀ {σ σ'}, S.interferes σ σ' → Inv σ → Inv σ'
  undisturbed : ∀ {σ σ' p id request strategy}, S.begins id request strategy →
    Located p id request σ.world.fs.root → σ.ledger.owner = id → Inv σ →
    S.interferes σ σ' → Undisturbed p id σ σ'

/-- The run in progress was begun in this setting and is sound. -/
structure Run.Sound (S : Setting) (run : Run) (σ : Session) : Prop where
  begun : ∃ strategy, S.begins run.id run.request strategy
  owner : σ.ledger.owner = run.id
  places : σ.ledger.places = placesOf σ.world.fs.root run.id run.request
  sound : ∃ p, Located p run.id run.request σ.world.fs.root ∧
    FileMover.Sound p run.id run.request (Reported run.id) run.program σ

theorem exists_located (id : Bytes) (request : MoveRequest)
    (root : Bytes → Option Dir) : ∃ p, Located p id request root := by
  cases hp : placesOf root id request with
  | none =>
      cases hs : root (cstr request.sourceDir) with
      | none =>
          refine ⟨⟨⟨0, []⟩, ⟨0, []⟩, ⟨0, []⟩⟩, Or.inr ⟨hp, rfl, rfl, ?_⟩⟩
          intro dir hdir
          rw [hs] at hdir
          cases hdir
      | some sourceDir =>
          refine ⟨⟨⟨sourceDir, request.sourceName⟩, ⟨sourceDir, request.sourceName⟩,
            ⟨sourceDir, request.sourceName⟩⟩, Or.inr ⟨hp, rfl, rfl, ?_⟩⟩
          intro dir hdir
          rw [hs] at hdir
          cases hdir
          rfl
  | some p => exact ⟨p, Or.inl hp⟩

theorem Entry.program_sound {p : Places} {id : Bytes} {request : MoveRequest}
    {σ : Session} (entry : Entry) (strategy : MoveStrategy)
    (located : Located p id request σ.world.fs.root)
    (fresh : σ.ledger.trusted = none) :
    FileMover.Sound p id request (Reported id)
      (entry.program id request strategy) σ := by
  cases entry with
  | execute => exact execute_sound located fresh
  | recover => exact recover_sound located fresh

theorem Setting.Keeps.reach {S : Setting} {Inv : Session → Prop}
    (keeps : S.Keeps Inv) {σ₀ : Session} {d : Drive} (init : Inv σ₀)
    (reach : Drive.Reach S ⟨σ₀, none⟩ d) :
    Inv d.session ∧ ∀ run, d.active = some run → run.Sound S d.session := by
  induction reach with
  | refl =>
      refine ⟨init, ?_⟩
      intro run hrun
      cases hrun
  | tail _ step ih =>
      obtain ⟨hinv, hrun⟩ := ih
      cases step with
      | begin entry id request strategy hbegins =>
          refine ⟨keeps.begun hbegins hinv, ?_⟩
          intro run hrun
          cases hrun
          obtain ⟨p, located⟩ := exists_located id request _
          exact ⟨⟨strategy, hbegins⟩, rfl, rfl, p, located,
            entry.program_sound strategy located rfl⟩
      | call fault hmeets =>
          obtain ⟨⟨strategy, hbegins⟩, howner, hplaces, p, located, sound⟩ := hrun _ rfl
          obtain ⟨hstep, hnext⟩ :=
            sound.step (trivial : (moveContract _ _ _).assume _ fault _)
          obtain ⟨howner', hplaces', _⟩ := hstep.same_run
          refine ⟨keeps.step hbegins located howner hplaces hstep hmeets rfl hinv, ?_⟩
          intro run hrun
          cases hrun
          refine ⟨⟨strategy, hbegins⟩, howner'.trans howner, ?_, p, ?_, hnext⟩
          · rw [hplaces', hstep.root]
            exact hplaces
          · rw [hstep.root]
            exact located
      | stop =>
          refine ⟨hinv, ?_⟩
          intro run hrun
          cases hrun
      | interfere hinterferes =>
          refine ⟨keeps.interfere hinterferes hinv, ?_⟩
          intro run hactive
          obtain ⟨⟨strategy, hbegins⟩, howner, hplaces, p, located, sound⟩ :=
            hrun run hactive
          have hquiet := keeps.undisturbed hbegins located howner hinv hinterferes
          refine ⟨⟨strategy, hbegins⟩, ?_, ?_, p, ?_, sound.interfere hquiet⟩
          · exact (congrArg (·.ledger.owner) hquiet.view).trans howner
          · rw [hquiet.root]
            exact (congrArg (·.ledger.places) hquiet.view).trans hplaces
          · rw [Located, hquiet.root]
            exact located

/-- A run that has returned reported what is recorded. -/
theorem Run.Sound.reported {S : Setting} {id : Bytes} {request : MoveRequest}
    {result : MoveResult} {σ : Session}
    (sound : Run.Sound S ⟨id, request, .pure result⟩ σ) : Reported id result σ := by
  obtain ⟨p, _, hsafe⟩ := sound.sound
  exact hsafe.result

/-! ## Uninterrupted stretches -/

section Stretches
variable {S : Setting} {id : Bytes} {request : MoveRequest}

theorem Drive.reach_advance (free : ∀ c fault σ, S.meets id request c fault σ)
    (faults : Call → Option Fault) (n : Nat) (program : Prog MoveResult)
    (σ : Session) :
    Drive.Reach S ⟨σ, some ⟨id, request, program⟩⟩
      ⟨(program.advance sessionMachine faults n σ).2,
        some ⟨id, request, (program.advance sessionMachine faults n σ).1⟩⟩ := by
  induction n generalizing program σ with
  | zero => exact .refl
  | succ n ih =>
      cases program with
      | pure result => exact .refl
      | call c next => exact .head (.call (faults c) (free _ _ _)) (ih _ _)

/-- Every call on the way to the end of the program is one that the setting
considers. -/
def AllMeet (S : Setting) (id : Bytes) (request : MoveRequest)
    (faults : Call → Option Fault) : Prog MoveResult → Session → Prop
  | .pure _, _ => True
  | .call c next, σ =>
      S.meets id request c (faults c) σ ∧
        AllMeet S id request faults (next (sessionMachine.perform c (faults c) σ).1)
          (sessionMachine.perform c (faults c) σ).2

instance AllMeet.decidable [∀ c fault σ, Decidable (S.meets id request c fault σ)]
    (faults : Call → Option Fault) : (program : Prog MoveResult) → (σ : Session) →
      Decidable (AllMeet S id request faults program σ)
  | .pure _, _ => .isTrue trivial
  | .call _ _, _ => @instDecidableAnd _ _ _ (AllMeet.decidable faults _ _)

theorem AllMeet.of_free (free : ∀ c fault σ, S.meets id request c fault σ)
    (faults : Call → Option Fault) (program : Prog MoveResult) (σ : Session) :
    AllMeet S id request faults program σ := by
  induction program generalizing σ with
  | pure result => trivial
  | call c next ih => exact ⟨free _ _ _, ih _ _⟩

/-- A run that is begun may be carried through to its end. -/
theorem Drive.reach_exec {faults : Call → Option Fault} {program : Prog MoveResult}
    {σ : Session} (meet : AllMeet S id request faults program σ) :
    Drive.Reach S ⟨σ, some ⟨id, request, program⟩⟩
      ⟨(program.exec sessionMachine faults σ).2,
        some ⟨id, request, .pure (program.exec sessionMachine faults σ).1⟩⟩ := by
  induction program generalizing σ with
  | pure result => exact .refl
  | call c next ih => exact .head (.call (faults c) meet.1) (ih _ meet.2)

/-- One whole run, from a session without a run to the result. -/
theorem Drive.reach_run {σ : Session} (entry : Entry) (id : Bytes)
    (request : MoveRequest) (strategy : MoveStrategy) {faults : Call → Option Fault}
    (begins : S.begins id request strategy)
    (meet : AllMeet S id request faults (entry.program id request strategy)
      (σ.begun id request)) :
    Drive.Reach S ⟨σ, none⟩
      ⟨((entry.program id request strategy).exec sessionMachine faults
          (σ.begun id request)).2,
        some ⟨id, request, .pure ((entry.program id request strategy).exec
          sessionMachine faults (σ.begun id request)).1⟩⟩ :=
  .head (.begin entry id request strategy begins) (Drive.reach_exec meet)

end Stretches

end FileMover
