import FileMover.Framework.Guarded
import FileMover.Model.Mover

/-!
# Several connections to one store

Any number of connections run the operations of `JobStore` on one database, a
statement at a time. `update_state` judges a transition on the row it has read and
then writes by id alone, so what it commits is a legal edge only if the row is
still in the state that was read.

A bystander notes every state that is committed to a row. Proved here: in every
history in which no `UPDATE` meets a row that has changed state since its `SELECT`,
the notes of each row form a path of `isLegalTransition`, and a terminal row keeps
its state.
-/

namespace FileMover

open Framework

/-- The operations of a connection that write. -/
inductive StoreOp
  | recordIntent (job : Job) (retryOf : Bytes)
  | updateState (id : Bytes) (target : JobState) (nowMs : Int) (message : Bytes)
  | recordTransition (id : Bytes) (target : JobState) (nowMs : Int) (message : Bytes)
      (phase : CommitPhase)
  | recordAttempt (id : Bytes) (nextRetryMs : Int) (reason : Bytes)
  | markNeedsAttention (id reason : Bytes)

/-- The statements of an operation; what the caller does with the result is
immaterial here. -/
def StoreOp.program : StoreOp → Prog Unit
  | .recordIntent job retryOf => do
      let _ ← FileMover.recordIntent job retryOf
  | .updateState id target nowMs message => do
      let _ ← FileMover.updateState id target nowMs message
  | .recordTransition id target nowMs message phase => do
      let _ ← FileMover.recordTransition id target nowMs message phase
  | .recordAttempt id nextRetryMs reason => do
      let _ ← FileMover.recordAttempt id nextRetryMs reason
  | .markNeedsAttention id reason => do
      let _ ← FileMover.markNeedsAttention id reason

structure Connections where
  world : World
  /-- What each connection still has to do. -/
  pending : Nat → Option (Prog Unit)
  /-- The states committed to the row of each key, the latest first. -/
  history : Bytes → List JobState

inductive ConnectionEvent
  /-- An idle connection is handed an operation. -/
  | begin (n : Nat) (op : StoreOp)
  /-- A connection runs its next statement, which may be made to fail. -/
  | call (n : Nat) (fault : Option Fault)
  /-- The operation returns, or the connection is lost. -/
  | finish (n : Nat)

namespace Connections

/-- A database that no connection has touched yet. -/
def start (w : World) : Connections where
  world := w
  pending _ := none
  history key := ((w.db.lookup key).map (·.job.state)).toList

def noted (c : Call) (reply : Reply c) (s : Connections) : Bytes → List JobState :=
  match committed c.op reply s.world with
  | none => s.history
  | some (key, state) => Function.update s.history key (state :: s.history key)

def act (s : Connections) : ConnectionEvent → Option Connections
  | .begin n op =>
      match s.pending n with
      | none => some { s with pending := Function.update s.pending n (some op.program) }
      | some _ => none
  | .call n fault =>
      match s.pending n with
      | some (.call c next) =>
          let done := perform c.op fault s.world
          some
            { world := done.2
              pending := Function.update s.pending n (some (next done.1))
              history := s.noted c done.1 }
      | _ => none
  | .finish n => some { s with pending := Function.update s.pending n none }

/-- The statement that a connection is about to run. -/
def next (s : Connections) (n : Nat) : Option Call :=
  match s.pending n with
  | some (.call c _) => some c
  | _ => none

end Connections

/-- The connection that runs a statement in this event, if it is not made to fail. -/
def ConnectionEvent.runs : ConnectionEvent → Option Nat
  | .call n none => some n
  | _ => none

/-- What a statement takes for granted: this row is in this state. -/
def Op.presumes : Op → Option (Bytes × JobState)
  | .updateJob id before _ => some (id, before.state)
  | _ => none

/-- An `UPDATE` finds the row in the state that its `SELECT` read. -/
def StillAsRead (s : Connections) (event : ConnectionEvent) : Prop :=
  ∀ n ∈ event.runs, ∀ c ∈ s.next n, ∀ row ∈ c.op.presumes,
    s.world.db.state row.1 = none ∨ s.world.db.state row.1 = some row.2

instance (s : Connections) (event : ConnectionEvent) : Decidable (StillAsRead s event) :=
  inferInstanceAs (Decidable (∀ n ∈ event.runs, ∀ c ∈ s.next n, ∀ row ∈ c.op.presumes,
    s.world.db.state row.1 = none ∨ s.world.db.state row.1 = some row.2))

/-! ## What a connection may write -/

/-- An `UPDATE` is along an edge that is legal for the job that was read. -/
def Approved (c : Call) : Prop :=
  match c.op with
  | .updateJob _ before after => isLegalTransition before.state after.state = true
  | _ => True

theorem StoreOp.program_approved (op : StoreOp) : op.program.Uses Approved := by
  cases op with
  | recordIntent job retryOf =>
      refine Program.Uses.bind (uses_recordIntent trivial) fun _ => trivial
  | updateState id target nowMs message =>
      refine Program.Uses.bind ?_ fun _ => trivial
      exact uses_updateState trivial fun _ _ h => Job.transition_legal h
  | recordTransition id target nowMs message phase =>
      refine Program.Uses.bind ?_ fun _ => trivial
      exact uses_recordTransition trivial fun _ _ h => Job.transition_legal h
  | recordAttempt id nextRetryMs reason =>
      exact Program.Uses.bind (uses_recordAttempt trivial) fun _ => trivial
  | markNeedsAttention id reason =>
      exact Program.Uses.bind (uses_markNeedsAttention trivial) fun _ => trivial

/-! ## The invariant -/

/-- A path of the state machine, the latest state first. -/
def LegalPath (states : List JobState) : Prop :=
  states.IsChain fun later earlier => isLegalTransition earlier later = true

/-- What the committed states promise: each row has walked along legal edges, it is
in the state committed last, and it has an error just if it is FAILED. -/
structure WalkedLegally (db : Database) (history : Bytes → List JobState) : Prop where
  path : ∀ key, LegalPath (history key)
  current : ∀ id, db.state id = (history (cstr id)).head?
  error : ∀ id row, db.row id = some row → (row.job.error ≠ [] ↔ row.job.state = .failed)

/-- The invariant: in addition, nothing but approved writes is pending. -/
structure Lawful (s : Connections) : Prop where
  walked : WalkedLegally s.world.db s.history
  approved : ∀ n program, s.pending n = some program → program.Uses Approved

variable {s t : Connections} {event : ConnectionEvent}

theorem LegalPath.cons {states : List JobState} {state : JobState} (path : LegalPath states)
    (legal : ∀ old, states.head? = some old → isLegalTransition old state = true) :
    LegalPath (state :: states) := by
  cases states with
  | nil => exact List.IsChain.singleton state
  | cons old rest => exact List.isChain_cons_cons.mpr ⟨legal old rfl, path⟩

theorem isTerminal_not_legal {old state : JobState} (terminal : old.isTerminal = true) :
    isLegalTransition old state = false := by
  cases old <;> first | rfl | cases terminal

/-- Committing along a legal edge extends the path of the row and spares terminal
rows. -/
theorem WalkedLegally.commit {db db' : Database} {history : Bytes → List JobState}
    {key : Bytes} {state : JobState} (inv : WalkedLegally db history)
    (states : ∀ id, db'.state id = if cstr id = key then some state else db.state id)
    (legal : ∀ id old, cstr id = key → db.state id = some old →
      isLegalTransition old state = true)
    (normal : cstr key = key) :
    WalkedLegally db' (Function.update history key (state :: history key)) ∧
    ∀ id old, old.isTerminal = true → db.state id = some old → db'.state id = some old := by
  refine ⟨⟨?_, ?_, fun _ row _ => row.check⟩, ?_⟩
  · intro key'
    by_cases hkey : key' = key
    · rw [hkey, Function.update_self]
      refine (inv.path key).cons fun old hold => legal key old normal ?_
      rw [inv.current, normal]
      exact hold
    · rw [Function.update_of_ne hkey]
      exact inv.path key'
  · intro id
    by_cases hkey : cstr id = key
    · rw [states, if_pos hkey, hkey, Function.update_self]
      rfl
    · rw [states, if_neg hkey, Function.update_of_ne hkey]
      exact inv.current id
  · intro id old terminal hold
    by_cases hkey : cstr id = key
    · have hlegal := legal id old hkey hold
      rw [isTerminal_not_legal terminal] at hlegal
      cases hlegal
    · rw [states, if_neg hkey]
      exact hold

/-- A statement of a connection. -/
theorem Lawful.call {n : Nat} {c : Call} {next : Reply c → Prog Unit}
    {fault : Option Fault} (inv : Lawful s) (pending : s.pending n = some (.call c next))
    (asRead : StillAsRead s (.call n fault)) :
    WalkedLegally (perform c.op fault s.world).2.db
      (s.noted c (perform c.op fault s.world).1) ∧
    ∀ id old, old.isTerminal = true → s.world.db.state id = some old →
      (perform c.op fault s.world).2.db.state id = some old := by
  have hstep := tableStep c.op fault s.world
  unfold Connections.noted
  revert hstep
  generalize committed c.op (perform c.op fault s.world).1 s.world = commit
  intro hstep
  cases hstep with
  | same states =>
      refine ⟨⟨inv.walked.path, ?_, fun _ row _ => row.check⟩, ?_⟩
      · intro id
        rw [states]
        exact inv.walked.current id
      · intro id old _ hold
        rw [states]
        exact hold
  | @insert job retryOf op_eq free states =>
      refine inv.walked.commit states ?_ (cstr_cstr job.id)
      intro id old hkey hold
      rw [Database.state_congr hkey, free] at hold
      cases hold
  | @update id before after op_eq asked there states =>
      refine inv.walked.commit states ?_ (cstr_cstr id)
      intro id' old hkey hold
      rw [Database.state_congr hkey] at hold
      have hlegal : isLegalTransition before.state after.state = true := by
        have happroved : Approved c := (inv.approved n _ pending).1
        rw [Approved, op_eq] at happroved
        exact happroved
      have hread := asRead n (by rw [asked]; rfl) c (by simp [Connections.next, pending])
        (id, before.state) (by rw [op_eq]; rfl)
      rcases hread with hnone | hsome
      · exact absurd hnone there
      · rw [hold] at hsome
        cases hsome
        exact hlegal

theorem Lawful.step (inv : Lawful s) (asRead : StillAsRead s event)
    (h : s.act event = some t) :
    Lawful t ∧ ∀ id old, old.isTerminal = true → s.world.db.state id = some old →
      t.world.db.state id = some old := by
  have hpending : ∀ {n : Nat} {rest : Option (Prog Unit)},
      (∀ program, rest = some program → program.Uses Approved) →
      ∀ m program, Function.update s.pending n rest m = some program →
        program.Uses Approved := by
    intro n rest hrest m program hm
    by_cases hmn : m = n
    · rw [hmn, Function.update_self] at hm
      exact hrest program hm
    · rw [Function.update_of_ne hmn] at hm
      exact inv.approved m program hm
  cases event with
  | begin n op =>
      simp only [Connections.act] at h
      split at h
      · cases h
        refine ⟨⟨inv.walked, hpending ?_⟩, fun _ _ _ hold => hold⟩
        intro program hprogram
        cases hprogram
        exact op.program_approved
      · cases h
  | call n fault =>
      simp only [Connections.act] at h
      split at h
      · rename_i c next hcall
        cases h
        obtain ⟨walked, kept⟩ := inv.call hcall asRead
        refine ⟨⟨walked, hpending ?_⟩, kept⟩
        intro program hprogram
        cases hprogram
        exact (inv.approved n _ hcall).2 _
      · cases h
  | finish n =>
      cases h
      exact ⟨⟨inv.walked, hpending nofun⟩, fun _ _ _ hold => hold⟩

theorem lawful_start (w : World) : Lawful (Connections.start w) := by
  refine ⟨⟨?_, ?_, fun _ row _ => row.check⟩, nofun⟩
  · intro key
    simp only [Connections.start]
    cases (w.db.lookup key : Option Row) with
    | none => exact List.IsChain.nil
    | some row => exact List.IsChain.singleton _
  · intro id
    simp only [Connections.start, Database.state, Database.row]
    cases (w.db.lookup (cstr id) : Option Row) <;> rfl

/-- In every history of any number of connections in which each `UPDATE` finds the row
as its `SELECT` left it, every row walks along legal edges only, and a DONE or FAILED
row never changes its state again. -/
theorem rows_walk_legal_edges (w : World) (s t : Connections)
    (reach : GuardedReach Connections.act StillAsRead (Connections.start w) s)
    (later : GuardedReach Connections.act StillAsRead s t) :
    WalkedLegally s.world.db s.history ∧
      ∀ id old, old.isTerminal = true → s.world.db.state id = some old →
        t.world.db.state id = some old := by
  have inv : Lawful s :=
    reach.invariant Lawful (fun asRead h inv => (inv.step asRead h).1) (lawful_start w)
  refine ⟨inv.walked, fun id old terminal hold => ?_⟩
  have hlater : Lawful t ∧ t.world.db.state id = some old := by
    refine later.invariant (fun t => Lawful t ∧ t.world.db.state id = some old)
      ?_ ⟨inv, hold⟩
    rintro s t event asRead h ⟨inv, hold⟩
    obtain ⟨inv', kept⟩ := inv.step asRead h
    exact ⟨inv', kept id old terminal hold⟩
  exact hlater.2

/-! Two connections update the sample job, one to start the move and the other to
cancel it; `order` says which of them runs its next statement. -/

def sampleUpdates (order : List Nat) : List ConnectionEvent :=
  [.begin 0 (.updateState (lit "j") .renaming 1 []),
    .begin 1 (.updateState (lit "j") .failed 1 (lit "cancelled by operator"))] ++
  order.map fun n => .call n none

/-- One after the other, they walk along QUEUED, RENAMING, FAILED. -/
theorem rows_walk_legal_edges_sample :
    ∃ s, replay Connections.act (sampleUpdates [0, 0, 1, 1])
        (Connections.start (sampleWorld .queued [])) = some s ∧
      s.history (lit "j") = [.failed, .renaming, .queued] ∧
      WalkedLegally s.world.db s.history := by
  have meet : AllSteps Connections.act StillAsRead (sampleUpdates [0, 0, 1, 1])
      (Connections.start (sampleWorld .queued [])) := by
    decide
  obtain ⟨s, hs⟩ := Option.isSome_iff_exists.mp
    (by decide : (replay Connections.act (sampleUpdates [0, 0, 1, 1])
      (Connections.start (sampleWorld .queued []))).isSome = true)
  refine ⟨s, hs, ?_, (rows_walk_legal_edges _ s s (.of_replay meet hs) .refl).1⟩
  have hhistory : ((replay Connections.act (sampleUpdates [0, 0, 1, 1])
      (Connections.start (sampleWorld .queued []))).map fun s => s.history (lit "j")) =
        some [.failed, .renaming, .queued] := by
    decide
  rw [hs] at hhistory
  exact Option.some.inj hhistory

/-- The move is started on the strength of a row that the other connection cancels in
between: FAILED is followed by RENAMING. -/
theorem failed_row_resurrected :
    ¬ ∀ w s, GuardedReach Connections.act (fun _ _ => True) (Connections.start w) s →
      WalkedLegally s.world.db s.history := by
  intro h
  obtain ⟨s, hs⟩ := Option.isSome_iff_exists.mp
    (by decide : (replay Connections.act (sampleUpdates [0, 1, 1, 0])
      (Connections.start (sampleWorld .queued []))).isSome = true)
  have hpath := (h _ s (.of_replay (AllSteps.of_free (fun _ _ => trivial) _ _) hs)).path
    (lit "j")
  have hhistory : ((replay Connections.act (sampleUpdates [0, 1, 1, 0])
      (Connections.start (sampleWorld .queued []))).map fun s => s.history (lit "j")) =
        some [.renaming, .failed, .queued] := by
    decide
  rw [hs] at hhistory
  have hwalk : s.history (lit "j") = [.renaming, .failed, .queued] :=
    Option.some.inj hhistory
  rw [hwalk] at hpath
  have hlegal := (List.isChain_cons_cons.mp hpath).1
  cases hlegal

end FileMover
