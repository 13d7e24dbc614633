import FileMover.Framework.Safety
import FileMover.Model.JobStore

/-!
# The store under interference

What `load` and `update_state` come back with when others write to the same table
between the statements, for any contract with the environment. A postcondition can only
speak of the row as it was when a statement met it, and of what the environment may
have made of it since.
-/

namespace FileMover

open Framework

/-! ## The state of one row -/

/-- The row of the job is there, in one of these states. -/
def RowIn (S : JobState → Prop) (id : Bytes) (w : World) : Prop :=
  ∃ x, w.db.state id = some x ∧ S x

/-- A call that writes only such states to a row that is there. -/
def WritesOnly (S : JobState → Prop) (c : Call) : Prop :=
  match c.op with
  | .updateJob _ _ after => S after.state
  | _ => True

section RowIn
variable {S : JobState → Prop} {id : Bytes} {w : World}

theorem writesOnly_of_readOnly {c : Call} (h : c.op.readOnly = true) : WritesOnly S c := by
  obtain ⟨site, op⟩ := c
  cases op with
  | updateJob => cases h
  | _ => trivial

theorem writesOnly_of_movesNames {c : Call} (h : c.op.movesNames = true) : WritesOnly S c := by
  obtain ⟨site, op⟩ := c
  cases op with
  | updateJob => cases h
  | _ => trivial

theorem RowIn.call {c : Call} {fault : Option Fault} (inside : RowIn S id w)
    (writes : WritesOnly S c) : RowIn S id (perform c.op fault w).2 := by
  obtain ⟨x, hx, hS⟩ := inside
  obtain ⟨site, op⟩ := c
  have hstep := tableStep op fault w
  revert hstep
  generalize committed op (perform op fault w).1 w = commit
  intro hstep
  cases hstep with
  | same states => exact ⟨x, (states id).trans hx, hS⟩
  | insert op_eq free states =>
      refine ⟨x, ?_, hS⟩
      rw [states, if_neg, hx]
      intro hkey
      rw [← Database.state_congr hkey, hx] at free
      cases free
  | @update id' before after op_eq asked there states =>
      cases op_eq
      by_cases hkey : cstr id = cstr id'
      · exact ⟨_, (states id).trans (if_pos hkey), writes⟩
      · exact ⟨x, (states id).trans ((if_neg hkey).trans hx), hS⟩

/-- A call that puts no row in this state. -/
def Avoids (x : JobState) (c : Call) : Prop :=
  match c.op with
  | .insertJob job _ => job.state ≠ x
  | .updateJob _ _ after => after.state ≠ x
  | _ => True

theorem Avoids.of_readOnly {x : JobState} {c : Call} (h : c.op.readOnly = true) : Avoids x c := by
  obtain ⟨site, op⟩ := c
  cases op with
  | insertJob | updateJob => cases h
  | _ => trivial

theorem Avoids.of_update {x : JobState} {site : Site} {before after : Job}
    (h : after.state ≠ x) : Avoids x ⟨site, .updateJob id before after⟩ := h

theorem Avoids.call {x : JobState} {c : Call} (avoids : Avoids x c) (fault : Option Fault)
    (h : w.db.state id ≠ some x) : (perform c.op fault w).2.db.state id ≠ some x := by
  obtain ⟨site, op⟩ := c
  have hstep := tableStep op fault w
  revert hstep
  generalize committed op (perform op fault w).1 w = commit
  intro hstep
  cases hstep with
  | same states =>
      rw [states]
      exact h
  | insert op_eq _ states =>
      cases op_eq
      rw [states]
      split
      · exact fun heq => avoids (Option.some.inj heq)
      · exact h
  | update op_eq _ _ states =>
      cases op_eq
      rw [states]
      split
      · exact fun heq => avoids (Option.some.inj heq)
      · exact h

end RowIn

/-! ## Reading and writing -/

section Rules
variable {C : Contract Call Fault World} {id message : Bytes} {w : World}
  {target : JobState} {nowMs : Int}

/-- `load` fails only if the statement does, and otherwise yields the row at the time of
the statement. -/
theorem safe_load {site : Site} {post : Except Bytes (Option Job) → World → Prop}
    (quiet : ∀ fault w₁, C.assume ⟨site, .selectJob id⟩ fault w₁ →
      C.guarantee ⟨site, .selectJob id⟩ fault w₁ w₁)
    (failed : ∀ e w₁ w₂, C.rely w w₁ → C.assume ⟨site, .selectJob id⟩ (some e) w₁ →
      C.rely w₁ w₂ → ∀ text, post (.error text) w₂)
    (found : ∀ w₁ w₂, C.rely w w₁ → C.assume ⟨site, .selectJob id⟩ none w₁ →
      C.rely w₁ w₂ → post (.ok ((w₁.db.row id).map (·.job))) w₂) :
    (load site id).Safe machine C post w := by
  intro w₁ hw fault hassume
  cases fault with
  | none => exact ⟨quiet none w₁ hassume, fun w₂ hw' => found w₁ w₂ hw hassume hw'⟩
  | some e =>
      exact ⟨quiet (some e) w₁ hassume, fun w₂ hw' => failed e w₁ w₂ hw hassume hw' _⟩

/-! ### While the store works -/

section Up
variable (up : ∀ c fault w, C.assume c fault w → c.op.onStore = true → fault = none)
  (free : ∀ c fault w w', C.guarantee c fault w w')
include up free

/-- A row that is there is found. -/
theorem safe_load_up {site : Site} (present : ∀ w₁, C.rely w w₁ → w₁.db.state id ≠ none) :
    (load site id).Safe machine C (fun loaded w' => ∃ (r : Row) (w₁ : World),
      loaded = .ok (some r.job) ∧ C.rely w w₁ ∧ w₁.db.row id = some r ∧ C.rely w₁ w') w := by
  refine safe_load (fun _ _ _ => free _ _ _ _) ?_ ?_
  · intro e w₁ _ _ hassume
    cases up _ _ _ hassume rfl
  · intro w₁ w₂ hw _ hw'
    obtain ⟨r, hr⟩ : ∃ r, w₁.db.row id = some r := by
      refine Option.ne_none_iff_exists'.mp fun hnone => present w₁ hw ?_
      rw [Database.state, hnone]
      rfl
    exact ⟨r, w₁, by rw [hr]; rfl, hw, hr, hw'⟩

/-- `update_state` either writes its target, or has read a job that may not go there. -/
theorem safe_updateState (present : ∀ w₁, C.rely w w₁ → w₁.db.state id ≠ none)
    (explains : target = .failed → Explains message) :
    (updateState id target nowMs message).Safe machine C (fun result w' =>
      (result = .ok () ∧ ∃ w₁, w₁.db.state id = some target ∧ C.rely w₁ w') ∨
        ((∃ e, result = .error e) ∧ ∃ (job : Job) (w₁ : World), C.rely w w₁ ∧
          w₁.db.state id = some job.state ∧ job.transition target nowMs message = none ∧
          C.rely w₁ w')) w := by
  refine (safe_load_up up free present).bind ?_
  rintro _ w₂ ⟨r, w₁, rfl, hw, hrow, hw'⟩
  simp only
  cases htrans : r.job.transition target nowMs message with
  | none =>
      intro w₃ hw''
      refine Or.inr ⟨⟨_, rfl⟩, r.job, w₁, hw, ?_, htrans, C.rely_trans hw' hw''⟩
      rw [Database.state, hrow]
      rfl
  | some after =>
      intro w₃ hw'' fault hassume
      have hfault : fault = none := up _ _ _ hassume rfl
      subst hfault
      obtain ⟨db', hdb⟩ : ∃ db', w₃.db.updateJob id after = .ok db' :=
        Database.updateJob_of_check (Database.check_of_transition r htrans explains)
      have hthere : w₃.db.state id ≠ none :=
        present w₃ (C.rely_trans hw (C.rely_trans hw' hw''))
      have hstate : db'.state id = some target := by
        obtain ⟨old, hold⟩ := Option.ne_none_iff_exists'.mp hthere
        rw [Database.state_updateJob hdb, if_pos rfl, hold, Job.transition_state htrans]
        rfl
      have hperform : machine.perform ⟨.transitionWrite target, .updateJob id r.job after⟩ none w₃ =
          (.ok (), { w₃ with db := db' }) := by
        simp only [machine, perform, answer, World.onDb, hdb]
      rw [hperform]
      exact ⟨free _ _ _ _, fun w₄ hw₄ => Or.inl ⟨rfl, _, hstate, hw₄⟩⟩

end Up

end Rules

end FileMover
