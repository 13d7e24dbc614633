import FileMover.Model.Effects
import FileMover.Model.Mover
import FileMover.Store.Rules

/-!
# What phase 1 has seen

The first phase of `execute` looks at the row, at the two roots and at the source, in this
order, and passes a job only if it found all of them. Others may change things between any
two of these looks. So what is known of a job that passes is what each look showed at its
time, and what the environment may have made of it since.
-/

namespace FileMover

open Framework

section Looks
variable {α : Type} {C : Contract Call Fault World} {w : World}
  (looks : ∀ c fault w, c.op.readOnly = true → C.assume c fault w → C.guarantee c fault w w)
include looks

/-- A program that only looks leaves the world to the environment. -/
theorem safe_looks {program : Prog α} {Q : α → Prop}
    (uses : program.Uses fun c => c.op.readOnly = true) (returns : program.Returns Q) :
    program.Safe machine C (fun value w' => Q value ∧ C.rely w w') w := by
  refine Program.Safe.of_uses uses returns (fun hw hbefore => C.rely_trans hbefore hw) ?_
    (C.rely_refl w)
  intro c hreadOnly fault w' hassume hbefore
  have hsame : (machine.perform c fault w').2 = w' := perform_readOnly hreadOnly fault w'
  rw [hsame]
  exact ⟨looks c fault w' hreadOnly hassume, hbefore⟩

/-- A root that was opened was there. -/
theorem safe_openRoot {site : Site} {path : Bytes} :
    (openRoot site path).Safe machine C (fun result w' => ∀ dir, result = .ok dir →
      ∃ w₁, C.rely w w₁ ∧ w₁.fs.root (cstr path) = some dir ∧ C.rely w₁ w') w := by
  intro w₁ hw fault hassume
  have hsame : (perform (.openRoot path) fault w₁).2 = w₁ := perform_readOnly rfl fault w₁
  change C.guarantee _ fault w₁ (perform (.openRoot path) fault w₁).2 ∧
    Program.Safe machine C _ _ (perform (.openRoot path) fault w₁).2
  rw [hsame]
  refine ⟨looks _ fault w₁ rfl hassume, ?_⟩
  cases hreply : (perform (.openRoot path) fault w₁).1 with
  | error e =>
      rw [show (machine.perform ⟨site, .openRoot path⟩ fault w₁).1 = .error e from hreply]
      nofun
  | ok dir =>
      rw [show (machine.perform ⟨site, .openRoot path⟩ fault w₁).1 = .ok dir from hreply]
      intro w₂ hw' dir' hdir
      cases hdir
      exact ⟨w₁, hw, perform_openRoot_ok hreply, hw'⟩

/-- An entry that was found was there. -/
theorem safe_classify {site : Site} {dir : Dir} {name : Bytes} :
    (classify site dir name).Safe machine C (fun result w' => ∀ identity,
      result = .ok identity → identity.kind ≠ .missing →
        ∃ w₁, C.rely w w₁ ∧ w₁.fs.entry ⟨dir, name⟩ ≠ none ∧ C.rely w₁ w') w := by
  cases hplain : isPlainName name with
  | false =>
      rw [classify_bad hplain]
      nofun
  | true =>
      rw [classify_plain hplain]
      intro w₁ hw fault hassume
      have hsame : (perform (.fstatat ⟨dir, name⟩) fault w₁).2 = w₁ :=
        perform_readOnly rfl fault w₁
      change C.guarantee _ fault w₁ (perform (.fstatat ⟨dir, name⟩) fault w₁).2 ∧
        Program.Safe machine C _ _ (perform (.fstatat ⟨dir, name⟩) fault w₁).2
      rw [hsame]
      refine ⟨looks _ fault w₁ rfl hassume, ?_⟩
      intro w₂ hw' identity hidentity hkind
      refine ⟨w₁, hw, fun hnone => hkind ?_, hw'⟩
      rcases perform_fstatat ⟨dir, name⟩ fault w₁ with ⟨e, he, _, hreply⟩ | ⟨_, hreply⟩ | h
      · simp only [machine, hreply, identify, if_neg he] at hidentity
        cases hidentity
      · simp only [machine, hreply, identify, if_true] at hidentity
        cases hidentity
        rfl
      · obtain ⟨object, hobject, _⟩ := h
        rw [hobject] at hnone
        cases hnone

end Looks

/-! ## Phase 1 -/

/-- What the looks of phase 1 showed, from the world it began in to the one it ended in. -/
def Cleared (C : Contract Call Fault World) (id : Bytes) (request : MoveRequest) (w : World)
    (job : Job) (sourceDir destDir : Dir) (w' : World) : Prop :=
  ∃ w₁ w₂ w₃ w₄, C.rely w w₁ ∧ C.assume ⟨.executeLoad, .selectJob id⟩ none w₁ ∧
    (w₁.db.row id).map (·.job) = some job ∧
    C.rely w₁ w₂ ∧ w₂.fs.root (cstr request.sourceDir) = some sourceDir ∧
    C.rely w₂ w₃ ∧ w₃.fs.root (cstr request.destDir) = some destDir ∧
    C.rely w₃ w₄ ∧ w₄.fs.entry ⟨sourceDir, request.sourceName⟩ ≠ none ∧ C.rely w₄ w'

/-- What comes with a job that passes, under any contract that lets a program look. -/
theorem safe_validate {C : Contract Call Fault World} {w : World} {id : Bytes}
    {request : MoveRequest}
    (looks : ∀ c fault w, c.op.readOnly = true → C.assume c fault w → C.guarantee c fault w w) :
    (validate id request).Safe machine C (fun result w' => ∀ job sourceDir destDir text,
      result = .ok (job, sourceDir, destDir, text) →
        Cleared C id request w job sourceDir destDir w') w := by
  unfold validate
  split
  · nofun
  · nofun
  have hload : (load .executeLoad id).Safe machine C (fun loaded w₁ => ∀ job,
      loaded = .ok (some job) →
        ∃ w₀, C.rely w w₀ ∧ C.assume ⟨.executeLoad, .selectJob id⟩ none w₀ ∧
          (w₀.db.row id).map (·.job) = some job ∧ C.rely w₀ w₁) w := by
    apply safe_load
    · exact fun fault w₁ hassume => looks _ fault w₁ rfl hassume
    · intro e w₁ w₂ _ _ _ text job hjob
      cases hjob
    · intro w₁ w₂ hw hassume hw' job hjob
      exact ⟨w₁, hw, hassume, Except.ok.inj hjob, hw'⟩
  refine hload.bind fun loaded w₁ hloaded => ?_
  match loaded with
  | .error message => nofun
  | .ok none => nofun
  | .ok (some job) =>
  obtain ⟨w₀, hw₀, hassume, hjob, h₀₁⟩ := hloaded job rfl
  refine (safe_openRoot looks).bind fun source w₂ hsource => ?_
  cases source with
  | error message => nofun
  | ok sourceDir =>
  obtain ⟨ws, h₁s, hsourceRoot, hs₂⟩ := hsource sourceDir rfl
  refine (safe_openRoot looks).bind fun dest w₃ hdest => ?_
  cases dest with
  | error message => nofun
  | ok destDir =>
  obtain ⟨wd, h₂d, hdestRoot, hd₃⟩ := hdest destDir rfl
  refine (safe_classify looks).bind fun probed w₄ hprobed => ?_
  cases probed with
  | error message => nofun
  | ok sourceId =>
  simp only
  split
  · nofun
  rename_i hpresent
  split
  · nofun
  obtain ⟨wp, h₃p, hentry, hp₄⟩ := hprobed sourceId rfl hpresent
  refine (safe_looks looks (uses_openRegular fun _ _ h _ => h) (Program.returns_true _)).bind ?_
  rintro opened w₅ ⟨-, h₄₅⟩
  cases opened with
  | error message => nofun
  | ok _ =>
  refine (safe_looks looks (uses_classify rfl) (Program.returns_true _)).bind ?_
  rintro again w₆ ⟨-, h₅₆⟩
  have hpassed : ∀ w₇, C.rely w₆ w₇ → Cleared C id request w job sourceDir destDir w₇ := by
    intro w₇ h₆₇
    refine ⟨w₀, ws, wd, wp, hw₀, hassume, hjob, C.rely_trans h₀₁ h₁s, hsourceRoot,
      C.rely_trans hs₂ h₂d, hdestRoot, C.rely_trans hd₃ h₃p, hentry, ?_⟩
    exact C.rely_trans hp₄ (C.rely_trans h₄₅ (C.rely_trans h₅₆ h₆₇))
  cases again with
  | error message =>
      intro w₇ h₆₇ job' source' dest' text hok
      cases hok
      exact hpassed w₇ h₆₇
  | ok _ =>
      intro w₇ h₆₇ job' source' dest' text hok
      cases hok
      exact hpassed w₇ h₆₇

end FileMover
