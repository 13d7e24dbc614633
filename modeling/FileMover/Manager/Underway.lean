import FileMover.Manager.Registry
import FileMover.Store.Rules

/-!
# Under way on record

A run of the engine changes names only while the row of its job says so: it has read, or
written, a state that belongs to a move in progress. Which states these are is a
parameter, and so is what keeps the row there: the run itself, by what it writes, and
everybody else.
-/

namespace FileMover

open Framework

/-- Names change only while the row is in one of these states. The environment does not
remove the row, nor take it out of them; any call may fail. -/
def underwayContract (S : JobState → Prop) (id : Bytes) : Contract Call Fault World where
  rely w w' := (w.db.state id ≠ none → w'.db.state id ≠ none) ∧ (RowIn S id w → RowIn S id w')
  rely_refl _ := ⟨fun h => h, fun h => h⟩
  rely_trans hab hbc := ⟨fun h => hbc.1 (hab.1 h), fun h => hbc.2 (hab.2 h)⟩
  assume _ _ _ := True
  guarantee c _ w _ := c.op.movesNames = true → RowIn S id w

section Rules
variable {α : Type} {S : JobState → Prop} {id : Bytes} {request : MoveRequest} {w : World}

/-- Once the job is under way on record, it may move what it likes. -/
theorem underway_on {program : Prog α} (uses : program.Uses (WritesOnly S))
    (inside : RowIn S id w) :
    program.Safe machine (underwayContract S id) (fun _ _ => True) w := by
  have hstable : ∀ {w w'}, (underwayContract S id).rely w w' → RowIn S id w → RowIn S id w' :=
    fun rely => rely.2
  refine (Program.Safe.of_uses uses (Program.returns_true _) hstable ?_ inside).weaken
    fun _ _ _ => trivial
  intro c writes fault w _ inside
  exact ⟨fun _ => inside, inside.call writes⟩

/-- A program that changes no name. -/
theorem underway_still {program : Prog α}
    (uses : program.Uses fun c => c.op.movesNames = false) :
    program.Safe machine (underwayContract S id) (fun _ _ => True) w := by
  refine (Program.Safe.of_uses (P := fun _ => True) uses (Program.returns_true _)
    (fun _ _ => trivial) ?_ trivial).weaken fun _ _ _ => trivial
  intro c still fault w _ _
  refine ⟨fun moves => ?_, trivial⟩
  rw [still] at moves
  cases moves

/-- A program that only looks. -/
theorem underway_looks {program : Prog α} {Q : α → Prop} {P : World → Prop}
    (uses : program.Uses fun c => c.op.readOnly = true) (returns : program.Returns Q)
    (stable : ∀ {w w'}, (underwayContract S id).rely w w' → P w → P w') (start : P w) :
    program.Safe machine (underwayContract S id) (fun value w' => Q value ∧ P w') w := by
  refine Program.Safe.of_uses uses returns stable ?_ start
  intro c looks fault w _ hp
  refine ⟨fun moves => ?_, ?_⟩
  · rw [movesNames_of_readOnly looks] at moves
    cases moves
  · rw [show (machine.perform c fault w).2 = w from perform_readOnly looks fault w]
    exact hp

/-- What a run may go by, once it has read this job. -/
def ReadAs (S : JobState → Prop) (id : Bytes) (job : Job) (w : World) : Prop :=
  w.db.state id ≠ none ∧ (S job.state → RowIn S id w)

theorem ReadAs.stable {job : Job} {w w' : World} (rely : (underwayContract S id).rely w w')
    (h : ReadAs S id job w) : ReadAs S id job w' :=
  ⟨rely.1 h.1, fun hS => rely.2 (h.2 hS)⟩

theorem underway_load {site : Site} :
    (load site id).Safe machine (underwayContract S id)
      (fun loaded w' => ∀ job, loaded = .ok (some job) → ReadAs S id job w') w := by
  refine safe_load (fun _ _ _ => nofun) ?_ ?_
  · intro e w₁ w₂ _ _ _ text job hjob
    cases hjob
  · intro w₁ w₂ _ _ rely job hjob
    have hstate := Database.state_of_row (Except.ok.inj hjob)
    refine ReadAs.stable rely ⟨?_, fun hS => ⟨job.state, hstate, hS⟩⟩
    rw [hstate]
    nofun

theorem underway_validate :
    (validate id request).Safe machine (underwayContract S id)
      (fun result w' => ∀ job rest, result = .ok (job, rest) → ReadAs S id job w') w := by
  unfold validate
  split
  · nofun
  · nofun
  refine underway_load.bind fun loaded w₁ hloaded => ?_
  match loaded with
  | .error message => nofun
  | .ok none => nofun
  | .ok (some job) =>
    have h₁ : ReadAs S id job w₁ := hloaded job rfl
    refine (underway_looks (uses_openRoot rfl) (Program.returns_true _) ReadAs.stable h₁).bind ?_
    rintro source w₂ ⟨-, h₂⟩
    cases source with
    | error message => nofun
    | ok sourceDir =>
    refine (underway_looks (uses_openRoot rfl) (Program.returns_true _) ReadAs.stable h₂).bind ?_
    rintro dest w₃ ⟨-, h₃⟩
    cases dest with
    | error message => nofun
    | ok destDir =>
    refine (underway_looks (uses_classify rfl) (Program.returns_true _) ReadAs.stable h₃).bind ?_
    rintro probed w₄ ⟨-, h₄⟩
    cases probed with
    | error message => nofun
    | ok sourceId =>
    simp only
    split
    · nofun
    split
    · nofun
    refine (underway_looks (uses_openRegular fun _ _ h _ => h) (Program.returns_true _)
      ReadAs.stable h₄).bind ?_
    rintro opened w₅ ⟨-, h₅⟩
    cases opened with
    | error message => nofun
    | ok _ =>
    refine (underway_looks (uses_classify rfl) (Program.returns_true _) ReadAs.stable h₅).bind ?_
    rintro probed w₆ ⟨-, h₆⟩
    cases probed with
    | error message =>
        intro w₇ rely job' rest hok
        cases hok
        exact h₆.stable rely
    | ok _ =>
        intro w₇ rely job' rest hok
        cases hok
        exact h₆.stable rely

/-- A transition that is recorded is under way on record. -/
theorem underway_updateState {target : JobState} {nowMs : Int} {message : Bytes}
    (present : w.db.state id ≠ none) (inside : S target) :
    (updateState id target nowMs message).Safe machine (underwayContract S id)
      (fun result w' => result = .ok () → RowIn S id w') w := by
  have hpresent : ∀ {w w'}, (underwayContract S id).rely w w' → w.db.state id ≠ none →
      w'.db.state id ≠ none := fun rely => rely.1
  refine (underway_looks (uses_load rfl) (Program.returns_true _) hpresent present).bind ?_
  rintro loaded w₁ ⟨-, h₁⟩
  match loaded with
  | .error e => nofun
  | .ok none => nofun
  | .ok (some job) =>
    cases htrans : job.transition target nowMs message with
    | none =>
        simp only [htrans]
        nofun
    | some after =>
        simp only [htrans]
        intro w₂ rely fault _
        refine ⟨nofun, ?_⟩
        have hthere : w₂.db.state id ≠ none := rely.1 h₁
        cases hreply : (perform (.updateJob id job after) fault w₂).1 with
        | error e =>
            rw [show (machine.perform ⟨.transitionWrite target, .updateJob id job after⟩ fault
              w₂).1 = .error e from hreply]
            nofun
        | ok answer =>
            have hinside : RowIn S id (perform (.updateJob id job after) fault w₂).2 := by
              obtain ⟨_, hwrote⟩ := perform_updateJob_ok hreply hthere
              rw [Job.transition_state htrans] at hwrote
              exact ⟨target, hwrote, inside⟩
            rw [show (machine.perform ⟨.transitionWrite target, .updateJob id job after⟩ fault
              w₂).1 = .ok answer from hreply]
            exact fun w₃ rely' _ => rely'.2 hinside

theorem underway_recordTransition {target : JobState} {nowMs : Int} {message : Bytes}
    {phase : CommitPhase} (present : w.db.state id ≠ none) (inside : S target) :
    (recordTransition id target nowMs message phase).Safe machine (underwayContract S id)
      (fun result w' => result = .ok () → RowIn S id w') w := by
  refine (underway_updateState present inside).bind fun result w₁ h₁ => ?_
  cases result with
  | error e => nofun
  | ok _ => exact fun w₂ rely _ => rely.2 (h₁ rfl)

section Moving
variable (moving : S .renaming ∧ S .transferring ∧ S .done)
include moving

theorem underway_execute {strategy : MoveStrategy} :
    (execute id request strategy).Safe machine (underwayContract S id) (fun _ _ => True) w := by
  have hcommit : ∀ sourceDir destDir tick error,
      (commitAndFinish id request strategy sourceDir destDir tick error).Uses
        (WritesOnly S) := by
    intro sourceDir destDir tick error
    refine uses_commitAndFinish (fun _ => trivial) (fun _ _ h _ => writesOnly_of_readOnly h) ?_
      fun _ _ h => writesOnly_of_movesNames h
    rintro target before after (rfl | rfl) hafter
    · simp only [WritesOnly, hafter]
      exact moving.2.1
    · simp only [WritesOnly, hafter]
      exact moving.2.2
  refine underway_validate.bind fun result w₁ h₁ => ?_
  match result with
  | .error message => exact fun _ _ => trivial
  | .ok (job, sourceDir, destDir, error) =>
      have hread : ReadAs S id job w₁ := h₁ job _ rfl
      simp only
      split
      · exact fun _ _ => trivial
      · rename_i hdone
        split
        · exact fun _ _ => trivial
        · rename_i hfailed
          split
          · refine (underway_recordTransition hread.1 moving.1).bind fun result w₂ h₂ => ?_
            cases result with
            | error failure => exact fun _ _ => trivial
            | ok _ => exact underway_on (hcommit _ _ _ _) (h₂ rfl)
          · rename_i hqueued
            have hmoving : S job.state := by
              cases hstate : job.state with
              | queued => exact absurd hstate hqueued
              | «renaming» => exact moving.1
              | transferring => exact moving.2.1
              | done => exact absurd hstate hdone
              | failed => exact absurd hstate hfailed
            exact underway_on (hcommit _ _ _ _) (hread.2 hmoving)

/-- What a worker does after the engine changes no name. -/
theorem underway_workOn {config : RetryConfig} {strategy : MoveStrategy} {nowMs : Int} :
    (workOn config id request strategy nowMs).Safe machine (underwayContract S id)
      (fun _ _ => True) w := by
  refine (underway_execute moving).bind fun result w₁ _ => ?_
  obtain ⟨outcome, error⟩ := result
  refine underway_still (uses_afterExecute ?_ ?_ ?_ outcome error)
  · exact fun _ _ h => movesNames_of_readOnly h
  · exact fun _ _ => rfl
  · exact fun _ _ _ => rfl

end Moving

end Rules

end FileMover
