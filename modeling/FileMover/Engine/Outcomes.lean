import FileMover.Engine.Execution
import FileMover.Model.Router

/-!
# What the outcome of a move says

The manager retries, fails or halts a job on the strength of the outcome of
`execute` alone. An outcome is truthful if what it promises about names and
record is so. It turns out to be truthful except in three situations, all past
the validation of phase 1: the link strategy stops between its two calls; the
commit of a job already recorded TRANSFERRING is refused; and a file that is
moved onto its own name is published, after which something fails.

Phase 1 looks at neither the staging name nor the final one. A request whose final
name cannot be used is held back only if something else holds it back.
-/

namespace FileMover

open Framework

variable {faults : Site → Option Fault} {id : Bytes} {request : MoveRequest}
  {strategy : MoveStrategy} {w : World}

/-! ## Footprint of the phases after the commit -/

/-- The call leaves this entry alone. -/
def Spares (slot : Slot) (c : Call) : Prop :=
  match c.op with
  | .renameat2 source target => slot ≠ source ∧ slot ≠ target
  | .linkat _ target => slot ≠ target
  | .unlinkat source => slot ≠ source
  | .renameat source target => slot ≠ source ∧ slot ≠ target
  | _ => True

theorem Spares.of_readOnly {slot : Slot} {site : Site} {op : Op}
    (h : op.readOnly = true) : Spares slot ⟨site, op⟩ := by
  cases op with
  | renameat2 | linkat | unlinkat | renameat => cases h
  | _ => trivial

theorem Spares.entry {slot : Slot} {c : Call} (spares : Spares slot c)
    (fault : Option Fault) (w : World) :
    (perform c.op fault w).2.fs.entry slot = w.fs.entry slot := by
  rcases perform_cases c.op fault w with ⟨e, _, heq⟩ | heq
  · rw [heq]
  rw [heq]
  rcases c with ⟨site, op⟩
  cases op with
  | renameat2 source target =>
      simp only [answer, World.onFs]
      split
      · rfl
      · rename_i fs' hfs
        obtain ⟨object, _, _, rfl⟩ := Filesystem.renameNoReplace_ok hfs
        rw [Filesystem.entry_put_ne spares.2, Filesystem.entry_drop_ne spares.1]
  | linkat source target =>
      simp only [answer, World.onFs]
      split
      · rfl
      · rename_i fs' hfs
        obtain ⟨object, _, _, rfl⟩ := Filesystem.link_ok hfs
        exact Filesystem.entry_put_ne spares
  | unlinkat source =>
      simp only [answer, World.onFs]
      split
      · rfl
      · rename_i fs' hfs
        obtain ⟨object, _, rfl⟩ := Filesystem.unlink_ok hfs
        exact Filesystem.entry_drop_ne spares
  | renameat source target =>
      simp only [answer, World.onFs]
      split
      · rfl
      · rename_i fs' hfs
        obtain ⟨object, _, ⟨_, rfl⟩ | ⟨_, rfl⟩⟩ := Filesystem.rename_ok hfs
        · rfl
        · rw [Filesystem.entry_put_ne spares.2, Filesystem.entry_drop_ne spares.1]
  | insertJob job retryOf =>
      simp only [answer, World.onDb]
      split <;> rfl
  | updateJob id before after =>
      simp only [answer, World.onDb]
      split <;> rfl
  | flagJob | countAttempt => rfl
  | openRoot | fstatat | openat | fstat | fsync | fsyncDir | selectJob | selectRetry =>
      rw [answer_readOnly rfl]

section AfterCommit
variable {slot : Slot} {destDir : Dir} {tick : Int} {error : Bytes}

/-- After the commit only the staging name and the final name are touched. -/
theorem finishAfterCommit_spares (hstaged : slot ≠ ⟨destDir, stagingName id⟩)
    (hfinal : slot ≠ ⟨destDir, request.destName⟩) :
    (finishAfterCommit id request destDir tick error).Uses (Spares slot) :=
  uses_finishAfterCommit (fun _ => trivial) (fun _ _ h _ => Spares.of_readOnly h)
    (fun _ _ _ _ _ => trivial) ⟨hstaged, hfinal⟩

/-- An outcome that belongs after the commit point. -/
def PastCommit (result : MoveResult) : Prop :=
  result.1 = .completed ∨ result.1 = .haltedAfterCommit ∨ result.1 = .failedExternal

theorem haltWith_pastCommit {outcome : MoveOutcome}
    (h : outcome = .haltedAfterCommit ∨ outcome = .failedExternal) :
    (haltWith id outcome error).Returns PastCommit :=
  (Program.returns_true _).bind fun _ _ => Or.inr h

theorem recordDone_pastCommit : (recordDone id tick error).Returns PastCommit := by
  refine (Program.returns_true _).bind fun result _ => ?_
  cases result with
  | error failure => exact haltWith_pastCommit (Or.inl rfl)
  | ok _ => exact Or.inl rfl

theorem publishAndRecord_pastCommit :
    (publishAndRecord id request destDir tick error).Returns PastCommit := by
  refine (Program.returns_true _).bind fun sawStaged _ => ?_
  refine (Program.returns_true _).bind fun sawFinal _ => ?_
  cases sawStaged with
  | true =>
      refine (Program.returns_true _).bind fun result _ => ?_
      cases result with
      | error message => exact haltWith_pastCommit (Or.inl rfl)
      | ok _ => exact recordDone_pastCommit
  | false =>
      cases sawFinal with
      | true => exact recordDone_pastCommit
      | false => exact haltWith_pastCommit (Or.inr rfl)

theorem finishAfterCommit_pastCommit :
    (finishAfterCommit id request destDir tick error).Returns PastCommit := by
  refine (Program.returns_true _).bind fun loaded _ => ?_
  match loaded with
  | .error message => exact Or.inr (Or.inl rfl)
  | .ok none => exact Or.inr (Or.inl rfl)
  | .ok (some job) =>
      simp only
      split
      · exact Or.inl rfl
      · split
        · exact Or.inr (Or.inl rfl)
        · split
          · refine (Program.returns_true _).bind fun result _ => ?_
            cases result with
            | error failure => exact haltWith_pastCommit (Or.inl rfl)
            | ok _ => exact publishAndRecord_pastCommit
          · exact publishAndRecord_pastCommit

end AfterCommit

/-! ## Truthful outcomes -/

/-- What the outcome of a run that started in `w` promises is so. -/
structure Truthful (id : Bytes) (request : MoveRequest) (w : World)
    (out : MoveResult × World) : Prop where
  rejected : out.1.1 = .rejected → out.2 = w
  aborted : out.1.1 = .abortedBeforeCommit → out.2.fs = w.fs ∧
    (out.2.db.state id = some .queued ∨ out.2.db.state id = some .renaming)
  past : out.1.1 = .haltedAfterCommit ∨ out.1.1 = .failedExternal →
    ∀ sourceDir object, w.fs.root (cstr request.sourceDir) = some sourceDir →
      w.fs.entry ⟨sourceDir, request.sourceName⟩ = some object →
      out.2.fs.entry ⟨sourceDir, request.sourceName⟩ ≠ some object

/-- The state on record when the commit is tried. -/
def stateAtCommit (state : JobState) : JobState :=
  if state = .queued then .renaming else state

/-- The commit is tried on this job. -/
structure ReachesCommit (faults : Site → Option Fault) (state : JobState) : Prop where
  unfinished : state ≠ .done ∧ state ≠ .failed
  records : state = .queued → ¬ Struck faults (.transitionLoad .renaming) ∧
    ¬ Struck faults (.transitionWrite .renaming)

/-- The three ways in which the commit and what follows it misreport. -/
def CommitMisreports (faults : Site → Option Fault) (strategy : MoveStrategy)
    (state : JobState) (source staged final : Slot) (w : World) : Prop :=
  CommitHalf faults strategy staged w ∨
    (state = .transferring ∧ CommitRefused faults strategy staged w) ∨
    (Commits faults strategy staged w ∧ source = final ∧
      Publishes faults state final.name ∧ LeftUnfinished faults)

def Misreports (faults : Site → Option Fault) (id : Bytes) (request : MoveRequest)
    (strategy : MoveStrategy) (w : World) : Prop :=
  ∃ job sourceDir destDir object,
    Admitted faults id request w job sourceDir destDir object ∧
    ReachesCommit faults job.state ∧
    CommitMisreports faults strategy (stateAtCommit job.state)
      ⟨sourceDir, request.sourceName⟩ ⟨destDir, stagingName id⟩
      ⟨destDir, request.destName⟩ w

theorem Admitted.misreports_iff {job : Job} {sourceDir destDir : Dir} {object : Inode}
    (h : Admitted faults id request w job sourceDir destDir object) :
    Misreports faults id request strategy w ↔
      ReachesCommit faults job.state ∧
      CommitMisreports faults strategy (stateAtCommit job.state)
        ⟨sourceDir, request.sourceName⟩ ⟨destDir, stagingName id⟩
        ⟨destDir, request.destName⟩ w := by
  constructor
  · rintro ⟨job', sourceDir', destDir', object', h', reaches, misreports⟩
    obtain ⟨rfl, rfl, rfl, rfl⟩ := h.unique h'
    exact ⟨reaches, misreports⟩
  · rintro ⟨reaches, misreports⟩
    exact ⟨job, sourceDir, destDir, object, h, reaches, misreports⟩

section Truthful
variable {job : Job} {sourceDir destDir : Dir} {object : Inode} {tick : Int}
  {error : Bytes} {w₀ : World}

theorem truthful_completed {out : MoveResult × World} (h : out.1.1 = .completed) :
    Truthful id request w₀ out := by
  refine ⟨?_, ?_, ?_⟩
  · intro h'
    rw [h] at h'
    cases h'
  · intro h'
    rw [h] at h'
    cases h'
  · rintro (h' | h')
    · rw [h] at h'
      cases h'
    · rw [h] at h'
      cases h'

/-- After the commit an outcome is truthful just if the source name has lost the
object. -/
theorem truthful_past {out : MoveResult × World} (past : PastCommit out.1)
    (source : w₀.fs.root (cstr request.sourceDir) = some sourceDir)
    (there : w₀.fs.entry ⟨sourceDir, request.sourceName⟩ = some object)
    (gone : out.2.fs.entry ⟨sourceDir, request.sourceName⟩ ≠ some object) :
    Truthful id request w₀ out := by
  refine ⟨?_, ?_, ?_⟩
  · intro h
    rcases past with hout | hout | hout <;> rw [hout] at h <;> cases h
  · intro h
    rcases past with hout | hout | hout <;> rw [hout] at h <;> cases h
  · intro _ sourceDir' object' hs ho
    rw [source] at hs
    cases hs
    rw [there] at ho
    cases ho
    exact gone

/-- The phases after the commit mislead only if the object comes back to the name
it was moved away from. -/
theorem finishAfterCommit_truthful_iff
    (source : w₀.fs.root (cstr request.sourceDir) = some sourceDir)
    (there : w₀.fs.entry ⟨sourceDir, request.sourceName⟩ = some object)
    (row : (w.db.row id).map (·.job) = some job)
    (under : job.state = .renaming ∨ job.state = .transferring)
    (plain : isPlainName (stagingName id) = true)
    (apart : (⟨sourceDir, request.sourceName⟩ : Slot) ≠ ⟨destDir, stagingName id⟩)
    (staged : w.fs.entry ⟨destDir, stagingName id⟩ = some object)
    (regular : w.fs.type object = .reg)
    (gone : w.fs.entry ⟨sourceDir, request.sourceName⟩ = none) :
    Truthful id request w₀ (run faults
        (finishAfterCommit id request destDir tick error) w) ↔
      ¬ ((⟨sourceDir, request.sourceName⟩ : Slot) = ⟨destDir, request.destName⟩ ∧
        Publishes faults job.state request.destName ∧ LeftUnfinished faults) := by
  have hpast : PastCommit (run faults
      (finishAfterCommit id request destDir tick error) w).1 :=
    finishAfterCommit_pastCommit.exec w
  by_cases hsf : (⟨sourceDir, request.sourceName⟩ : Slot) = ⟨destDir, request.destName⟩
  · -- the file goes back to where it was
    have hfinish : Finished faults id job.state ⟨destDir, stagingName id⟩
        ⟨destDir, request.destName⟩ object w
        (run faults (finishAfterCommit id request destDir tick error) w) :=
      run_finishAfterCommit row under plain staged regular (hsf ▸ gone)
    revert hpast hfinish
    generalize run faults (finishAfterCommit id request destDir tick error) w = out
    intro hpast hfinish
    cases hfinish with
    | stuck halted not =>
        refine iff_of_true (truthful_past hpast source there ?_) fun h => not h.2.1
        simp [gone]
    | unfinished publishes left =>
        refine iff_of_false (fun h => ?_) fun h => h ⟨hsf, publishes, left⟩
        refine h.past (Or.inl rfl) sourceDir object source there ?_
        rw [hsf]
        exact Filesystem.entry_put_self
    | done publishes left recorded =>
        exact iff_of_true (truthful_completed rfl) fun h => left h.2.2
  · have hgone : (run faults (finishAfterCommit id request destDir tick error) w).2.fs.entry
        ⟨sourceDir, request.sourceName⟩ = none := by
      refine Program.Uses.exec_keeps (finishAfterCommit_spares apart hsf)
        (P := fun w : World => w.fs.entry ⟨sourceDir, request.sourceName⟩ = none) ?_ gone
      intro c spares fault w hnone
      exact (spares.entry fault w).trans hnone
    refine iff_of_true (truthful_past hpast source there ?_) fun h => hsf h.1
    simp [hgone]

theorem commitAndFinish_truthful_iff (same : w.fs = w₀.fs)
    (row : (w.db.row id).map (·.job) = some job)
    (under : job.state = .renaming ∨ job.state = .transferring)
    (plain : isPlainName request.sourceName = true)
    (source : w₀.fs.root (cstr request.sourceDir) = some sourceDir)
    (there : w.fs.entry ⟨sourceDir, request.sourceName⟩ = some object)
    (regular : w.fs.type object = .reg) :
    Truthful id request w₀ (run faults
        (commitAndFinish id request strategy sourceDir destDir tick error) w) ↔
      ¬ CommitMisreports faults strategy job.state ⟨sourceDir, request.sourceName⟩
        ⟨destDir, stagingName id⟩ ⟨destDir, request.destName⟩ w := by
  have hstate : w.db.state id = some job.state := Database.state_of_row row
  refine run_moveWithin (P := fun out => Truthful id request w₀ out ↔ _)
    plain there regular ?_ ?_ ?_
  · intro refused m
    constructor
    · rintro h (half | ⟨htrans, _⟩ | ⟨hcommits, _⟩)
      · exact CommitHalf.not_refused half refused
      · have h' : w.db.state id = some .queued ∨ w.db.state id = some .renaming :=
          (h.aborted rfl).2
        rw [hstate, htrans] at h'
        simp at h'
      · exact hcommits.not_refused.1 refused
    · intro hnot
      refine ⟨nofun, fun _ => ⟨same, Or.inr ?_⟩, ?_⟩
      · rcases under with hren | htrans
        · rw [← hren]
          exact hstate
        · exact absurd (Or.inr (Or.inl ⟨htrans, refused⟩)) hnot
      · rintro (h | h) <;> cases h
  · intro half m
    refine iff_of_false (fun h => ?_) fun h => h (Or.inl half)
    have hfs : w.fs.put ⟨destDir, stagingName id⟩ object = w₀.fs := (h.aborted rfl).1
    have hnone := half.2.2.1
    rw [same, ← hfs, Filesystem.entry_put_self] at hnone
    cases hnone
  · intro commits
    have hst : (⟨sourceDir, request.sourceName⟩ : Slot) ≠ ⟨destDir, stagingName id⟩ := by
      intro heq
      rw [heq, commits.2.1] at there
      cases there
    refine Iff.trans (finishAfterCommit_truthful_iff source (same ▸ there) ?_ under
      commits.1 hst ?_ ?_ ?_) (not_congr ?_)
    · exact row
    · exact Filesystem.entry_put_self
    · exact regular
    · rw [Filesystem.entry_put_ne hst, Filesystem.entry_drop_self]
    · constructor
      · exact fun h => Or.inr (Or.inr ⟨commits, h⟩)
      · rintro (half | ⟨_, refused⟩ | ⟨_, h⟩)
        · exact absurd half commits.not_refused.2
        · exact absurd refused commits.not_refused.1
        · exact h

end Truthful

/-- The outcome of `execute` is truthful except in the three situations of
`Misreports`. -/
theorem execute_truthful_iff (faults : Site → Option Fault) (id : Bytes)
    (request : MoveRequest) (strategy : MoveStrategy) (w : World) :
    Truthful id request w (run faults (execute id request strategy) w) ↔
      ¬ Misreports faults id request strategy w := by
  refine run_validate (P := fun out => Truthful id request w out ↔ _) ?_ ?_
  · intro refused m
    refine iff_of_true ⟨fun _ => rfl, nofun, ?_⟩ ?_
    · rintro (h | h) <;> cases h
    · rintro ⟨job, sourceDir, destDir, object, h, _⟩
      exact refused job sourceDir destDir object h
  intro job sourceDir destDir object error admitted
  rw [admitted.misreports_iff]
  have hend : ∀ {out : MoveResult × World} {R Q : Prop}, Truthful id request w out → ¬ R →
      (Truthful id request w out ↔ ¬ (R ∧ Q)) :=
    fun htrue hnot => iff_of_true htrue fun h => hnot h.1
  cases hjob : job.state with
  | done =>
      simp only [hjob, if_true]
      exact hend (truthful_completed rfl) (fun h => h.unfinished.1 rfl)
  | failed =>
      simp only [hjob, reduceCtorEq, if_true, if_false]
      refine hend ⟨fun _ => rfl, nofun, ?_⟩ (fun h => h.unfinished.2 rfl)
      rintro (h | h) <;> cases h
  | queued =>
      simp only [hjob, reduceCtorEq, if_true, if_false]
      refine run_recordTransition (P := fun out => Truthful id request w out ↔ _)
        admitted.row (by rw [hjob]; rfl) (by decide) ?_ ?_
      · intro struck failure
        refine hend ⟨nofun, fun _ => ⟨rfl, Or.inl ?_⟩, ?_⟩ (fun h => ?_)
        · rw [← hjob]
          exact Database.state_of_row admitted.row
        · rintro (h | h) <;> cases h
        · rcases struck with struck | struck
          · exact (h.records rfl).1 struck
          · exact (h.records rfl).2 struck
      · intro free free' db' hdb
        have hreaches : ReachesCommit faults .queued :=
          ⟨⟨by decide, by decide⟩, fun _ => ⟨free, free'⟩⟩
        obtain ⟨row', hrow', hstate⟩ := Option.map_eq_some_iff.mp hdb
        rw [and_iff_right hreaches]
        change _ ↔ ¬ CommitMisreports faults strategy .renaming _ _ _ w
        rw [← hstate]
        exact commitAndFinish_truthful_iff (w := { w with db := db' }) rfl
          (Option.map_eq_some_iff.mpr ⟨row', hrow', rfl⟩) (Or.inl hstate)
          admitted.plain admitted.source admitted.there admitted.regular
  | «renaming» =>
      simp only [hjob, reduceCtorEq, if_false]
      rw [and_iff_right ⟨⟨by decide, by decide⟩, nofun⟩]
      change _ ↔ ¬ CommitMisreports faults strategy .renaming _ _ _ w
      rw [← hjob]
      exact commitAndFinish_truthful_iff rfl admitted.row (Or.inl hjob) admitted.plain
        admitted.source admitted.there admitted.regular
  | transferring =>
      simp only [hjob, reduceCtorEq, if_false]
      rw [and_iff_right ⟨⟨by decide, by decide⟩, nofun⟩]
      change _ ↔ ¬ CommitMisreports faults strategy .transferring _ _ _ w
      rw [← hjob]
      exact commitAndFinish_truthful_iff rfl admitted.row (Or.inr hjob) admitted.plain
        admitted.source admitted.there admitted.regular

/-- A source directory without write permission: the link is made and the unlink is
refused. -/
theorem half_commit_reported_aborted :
    (run (fun site => if site = .commitUnlink then some EACCES else none)
        (execute (lit "j") sampleRequest .linkThenUnlink)
        (sampleWorld .queued [sampleSource])).1.1 = .abortedBeforeCommit ∧
      ¬ Truthful (lit "j") sampleRequest (sampleWorld .queued [sampleSource])
        (run (fun site => if site = .commitUnlink then some EACCES else none)
          (execute (lit "j") sampleRequest .linkThenUnlink)
          (sampleWorld .queued [sampleSource])) := by
  have haborted : (run (fun site => if site = .commitUnlink then some EACCES else none)
      (execute (lit "j") sampleRequest .linkThenUnlink)
      (sampleWorld .queued [sampleSource])).1.1 = .abortedBeforeCommit := by decide
  refine ⟨haborted, fun h => ?_⟩
  have hfs := (h.aborted haborted).1
  have hentry := congrArg (fun fs => fs.entry ⟨2, stagingName (lit "j")⟩) hfs
  revert hentry
  decide

/-! ## Unusable destination names -/

/-- A request with an unusable destination name is turned down and the source
stays where it is. -/
def HeldBack (request : MoveRequest) (w : World) (out : MoveResult × World) : Prop :=
  isPlainName request.destName = false →
    (out.1.1 = .rejected ∨ out.1.1 = .abortedBeforeCommit) ∧
    ∀ sourceDir object, w.fs.root (cstr request.sourceDir) = some sourceDir →
      w.fs.entry ⟨sourceDir, request.sourceName⟩ = some object →
      out.2.fs.entry ⟨sourceDir, request.sourceName⟩ = some object

/-- Nothing but the destination name is in the way of this job: it is finished, or
its commit goes through. -/
def Unhindered (faults : Site → Option Fault) (id : Bytes) (request : MoveRequest)
    (strategy : MoveStrategy) (w : World) : Prop :=
  ∃ job sourceDir destDir object,
    Admitted faults id request w job sourceDir destDir object ∧
    (job.state = .done ∨
      ReachesCommit faults job.state ∧
        Commits faults strategy ⟨destDir, stagingName id⟩ w)

theorem Admitted.unhindered_iff {job : Job} {sourceDir destDir : Dir} {object : Inode}
    (h : Admitted faults id request w job sourceDir destDir object) :
    Unhindered faults id request strategy w ↔
      job.state = .done ∨
        ReachesCommit faults job.state ∧
          Commits faults strategy ⟨destDir, stagingName id⟩ w := by
  constructor
  · rintro ⟨job', sourceDir', destDir', object', h', goes⟩
    obtain ⟨rfl, rfl, rfl, rfl⟩ := h.unique h'
    exact goes
  · intro goes
    exact ⟨job, sourceDir, destDir, object, h, goes⟩

section HeldBack
variable {job : Job} {sourceDir destDir : Dir} {object : Inode} {tick : Int}
  {error : Bytes} {w₀ : World} {out : MoveResult × World}

theorem heldBack_of_same (same : out.2.fs = w₀.fs)
    (outcome : out.1.1 = .rejected ∨ out.1.1 = .abortedBeforeCommit) :
    HeldBack request w₀ out := by
  intro _
  refine ⟨outcome, ?_⟩
  intro sourceDir object _ there
  rw [same]
  exact there

theorem not_heldBack_of_past (bad : isPlainName request.destName = false)
    (past : PastCommit out.1) : ¬ HeldBack request w₀ out := by
  intro h
  rcases (h bad).1 with hout | hout <;>
    rcases past with hpast | hpast | hpast <;> rw [hout] at hpast <;> cases hpast

theorem commitAndFinish_heldBack_iff (bad : isPlainName request.destName = false)
    (same : w.fs = w₀.fs) (plain : isPlainName request.sourceName = true)
    (there : w.fs.entry ⟨sourceDir, request.sourceName⟩ = some object)
    (regular : w.fs.type object = .reg) :
    HeldBack request w₀ (run faults
        (commitAndFinish id request strategy sourceDir destDir tick error) w) ↔
      ¬ Commits faults strategy ⟨destDir, stagingName id⟩ w := by
  refine run_moveWithin (P := fun out => HeldBack request w₀ out ↔ _)
    plain there regular ?_ ?_ ?_
  · intro refused m
    exact iff_of_true (heldBack_of_same same (Or.inr rfl)) fun h => h.not_refused.1 refused
  · intro half m
    refine iff_of_true (fun _ => ⟨Or.inr rfl, ?_⟩) fun h => h.not_refused.2 half
    -- the second link is there, but so is the first
    intro sourceDir' object' hs ho
    have hne : (⟨sourceDir', request.sourceName⟩ : Slot) ≠ ⟨destDir, stagingName id⟩ := by
      intro heq
      have hnone := half.2.2.1
      rw [← heq, same, ho] at hnone
      cases hnone
    change (w.fs.put _ object).entry _ = _
    rw [Filesystem.entry_put_ne hne, same]
    exact ho
  · intro commits
    refine iff_of_false (not_heldBack_of_past bad ?_) fun h => h commits
    exact finishAfterCommit_pastCommit.exec _

end HeldBack

/-- An unusable destination name is noticed only where something else stands in the
way as well. -/
theorem unusable_destName_held_back_iff (faults : Site → Option Fault) (id : Bytes)
    (request : MoveRequest) (strategy : MoveStrategy) (w : World) :
    HeldBack request w (run faults (execute id request strategy) w) ↔
      isPlainName request.destName = true ∨
        ¬ Unhindered faults id request strategy w := by
  cases hname : isPlainName request.destName with
  | true =>
      refine iff_of_true (fun hbad => ?_) (Or.inl rfl)
      rw [hname] at hbad
      cases hbad
  | false =>
  simp only [Bool.false_eq_true, false_or]
  refine run_validate (P := fun out => HeldBack request w out ↔ _) ?_ ?_
  · intro refused m
    refine iff_of_true (heldBack_of_same rfl (Or.inl rfl)) ?_
    rintro ⟨job, sourceDir, destDir, object, h, _⟩
    exact refused job sourceDir destDir object h
  intro job sourceDir destDir object error admitted
  rw [admitted.unhindered_iff]
  cases hjob : job.state with
  | done =>
      simp only [hjob, if_true]
      exact iff_of_false (not_heldBack_of_past hname (Or.inl rfl)) (by simp)
  | failed =>
      simp only [hjob, reduceCtorEq, if_true, if_false]
      refine iff_of_true (heldBack_of_same rfl (Or.inl rfl)) ?_
      rintro (h | ⟨h, _⟩)
      · cases h
      · exact h.unfinished.2 rfl
  | queued =>
      simp only [hjob, reduceCtorEq, if_true, if_false, false_or]
      refine run_recordTransition (P := fun out => HeldBack request w out ↔ _)
        admitted.row (by rw [hjob]; rfl) (by decide) ?_ ?_
      · intro struck failure
        refine iff_of_true (heldBack_of_same rfl (Or.inr rfl)) ?_
        rintro ⟨h, _⟩
        rcases struck with struck | struck
        · exact (h.records rfl).1 struck
        · exact (h.records rfl).2 struck
      · intro free free' db' hdb
        have hreaches : ReachesCommit faults .queued :=
          ⟨⟨by decide, by decide⟩, fun _ => ⟨free, free'⟩⟩
        rw [and_iff_right hreaches]
        exact commitAndFinish_heldBack_iff (w := { w with db := db' }) hname rfl
          admitted.plain admitted.there admitted.regular
  | «renaming» | transferring =>
      simp only [hjob, reduceCtorEq, if_false, false_or]
      rw [and_iff_right ⟨⟨by decide, by decide⟩, nofun⟩]
      exact commitAndFinish_heldBack_iff hname rfl admitted.plain admitted.there
        admitted.regular

/-- A client submits `/d/..` as the destination, and its file is gone from `/s`. -/
theorem dotdot_destination_commits :
    ∃ request, routedRequest (lit "/s/a") (lit "/d/..") = some request ∧
      ¬ HeldBack request (sampleWorld .queued [sampleSource])
        (run (fun _ => none) (execute (lit "j") request .renameNoReplace)
          (sampleWorld .queued [sampleSource])) := by
  refine ⟨⟨lit "/s", lit "a", lit "/d", lit ".."⟩, by decide, fun h => ?_⟩
  have hstays := (h (by decide)).2 1 ⟨0, 7⟩ (by decide) (by decide)
  revert hstays
  decide

end FileMover
