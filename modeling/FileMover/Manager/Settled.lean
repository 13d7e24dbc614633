import FileMover.Model.Manager
import FileMover.Store.Rules

/-!
# Workers on settled jobs

A worker that picks up a job whose row is DONE or FAILED finds out before it changes
anything: it moves no name, and the row stays what it is.
-/

namespace FileMover

open Framework

/-- While the row is in this state no call moves a name or changes the state. The
environment may do anything. -/
def settledContract (x : JobState) (id : Bytes) : Contract Call Fault World where
  rely _ _ := True
  rely_refl _ := trivial
  rely_trans _ _ := trivial
  assume _ _ w := w.db.state id = some x
  guarantee _ _ w w' := w'.fs = w.fs ∧ w'.db.state id = some x

section Worker
variable {α : Type} {x : JobState} {id reason : Bytes} {request : MoveRequest} {w : World}

theorem settled_harmless {program : Prog α} {Q : α → Prop}
    (uses : program.Uses fun c => c.op.harmless = true) (returns : program.Returns Q) :
    program.Safe machine (settledContract x id) (fun value _ => Q value) w := by
  refine (Program.Safe.of_uses (P := fun _ => True) uses returns (fun _ _ => trivial) ?_
    trivial).weaken fun _ _ h => h.1
  intro c harmless fault w hsettled _
  obtain ⟨hfs, hstate⟩ := perform_harmless harmless fault w
  have hrow : (perform c.op fault w).2.db.state id = some x := by
    rw [hstate]
    exact hsettled
  exact ⟨⟨hfs, hrow⟩, trivial⟩

/-- Whatever is read of the job is settled. -/
theorem settled_load {site : Site} :
    (load site id).Safe machine (settledContract x id)
      (fun loaded _ => ∀ job, loaded = .ok (some job) → job.state = x) w := by
  refine safe_load (fun _ _ hsettled => ⟨rfl, hsettled⟩) ?_ ?_
  · intro e w₁ w₂ _ _ _ text job hjob
    cases hjob
  · intro w₁ w₂ _ hsettled _ job hjob
    have hstate := Database.state_of_row (Except.ok.inj hjob)
    rw [show w₁.db.state id = some x from hsettled] at hstate
    exact (Option.some.inj hstate).symm

/-- Phase 1 reports what it has read. -/
theorem settled_validate :
    (validate id request).Safe machine (settledContract x id)
      (fun result _ => ∀ job rest, result = .ok (job, rest) → job.state = x) w := by
  unfold validate
  split
  · nofun
  · nofun
  refine settled_load.bind fun loaded _ hloaded => ?_
  match loaded with
  | .error message => nofun
  | .ok none => nofun
  | .ok (some job) =>
    have hsettled : job.state = x := hloaded job rfl
    refine (settled_harmless (uses_openRoot rfl) (Program.returns_true _)).bind
      fun source _ _ => ?_
    cases source with
    | error message => nofun
    | ok sourceDir =>
    refine (settled_harmless (uses_openRoot rfl) (Program.returns_true _)).bind fun dest _ _ => ?_
    cases dest with
    | error message => nofun
    | ok destDir =>
    refine (settled_harmless (uses_classify rfl) (Program.returns_true _)).bind
      fun probed _ _ => ?_
    cases probed with
    | error message => nofun
    | ok sourceId =>
    simp only
    split
    · nofun
    split
    · nofun
    refine (settled_harmless (uses_openRegular fun _ _ h _ => Op.harmless_of_readOnly h)
      (Program.returns_true _)).bind fun opened _ _ => ?_
    cases opened with
    | error message => nofun
    | ok _ =>
    refine (settled_harmless (uses_classify rfl) (Program.returns_true _)).bind
      fun probed _ _ => ?_
    cases probed with
    | error message =>
        intro _ _ job' rest hok
        cases hok
        exact hsettled
    | ok _ =>
        intro _ _ job' rest hok
        cases hok
        exact hsettled

section Terminal
variable (terminal : x.isTerminal = true)
include terminal

/-- `execute` has nothing left to do, or refuses to resurrect the job. -/
theorem settled_execute {strategy : MoveStrategy} :
    (execute id request strategy).Safe machine (settledContract x id)
      (fun result _ => result.1 = .rejected ∨ result.1 = .completed) w := by
  refine settled_validate.bind fun result _ hresult => ?_
  match result with
  | .error message => exact fun _ _ => Or.inl rfl
  | .ok (job, sourceDir, destDir, error) =>
      have hsettled : job.state = x := hresult job _ rfl
      simp only [hsettled]
      cases x with
      | done => exact fun _ _ => Or.inr rfl
      | failed => exact fun _ _ => Or.inl rfl
      | _ => cases terminal

/-- No edge leads out of a terminal state. -/
theorem settled_updateState {target : JobState} {nowMs : Int} {message : Bytes} :
    (updateState id target nowMs message).Safe machine (settledContract x id)
      (fun _ _ => True) w := by
  refine settled_load.bind fun loaded _ hloaded => ?_
  match loaded with
  | .error message => exact fun _ _ => trivial
  | .ok none => exact fun _ _ => trivial
  | .ok (some job) =>
      have hsettled : job.state = x := hloaded job rfl
      have hrefused : job.transition target nowMs message = none := by
        rw [Option.eq_none_iff_forall_ne_some]
        intro after hafter
        have hlegal := (Job.transition_eq_some.mp hafter).1
        rw [hsettled] at hlegal
        cases x with
        | done | failed => cases hlegal
        | _ => cases terminal
      simp only [hrefused]
      exact fun _ _ => trivial

theorem settled_failPermanently :
    (failPermanently id reason).Safe machine (settledContract x id) (fun _ _ => True) w := by
  refine (settled_harmless (uses_recordAttempt rfl) (Program.returns_true _)).bind fun _ _ _ => ?_
  refine settled_load.bind fun loaded _ _ => ?_
  match loaded with
  | .error message => exact fun _ _ => trivial
  | .ok none => exact fun _ _ => trivial
  | .ok (some job) =>
      simp only
      split
      · exact fun _ _ => trivial
      · exact (settled_updateState terminal).bind fun _ _ _ _ _ => trivial

/-- A worker that picks up a settled job only counts an attempt. -/
theorem settled_workOn {config : RetryConfig} {strategy : MoveStrategy} {nowMs : Int} :
    (workOn config id request strategy nowMs).Safe machine (settledContract x id)
      (fun _ _ => True) w := by
  refine (settled_execute terminal).bind fun result _ houtcome => ?_
  obtain ⟨outcome, error⟩ := result
  rcases houtcome with houtcome | houtcome
  · change outcome = .rejected at houtcome
    subst houtcome
    exact (settled_failPermanently terminal).bind fun _ _ _ _ _ => trivial
  · change outcome = .completed at houtcome
    subst houtcome
    exact fun _ _ => trivial

end Terminal

end Worker

end FileMover
