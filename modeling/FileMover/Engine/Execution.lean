import FileMover.Engine.Refinement

/-!
# Running the engine from start to end

A run that is not interrupted is a function of the world it starts in and of
the pattern of failures. Each place of the source makes at most one call in one
run of `execute` or `recover`, so a pattern is a map from places to faults.

There is one lemma per function, saying which of the possible results it has
for which worlds and patterns.
-/

namespace FileMover

open Framework

/-- Run a program without interruption. -/
def run {α : Type} (faults : Site → Option Fault) (program : Prog α) (w : World) :
    α × World :=
  program.exec machine (fun c => faults c.site) w

/-- The call at this place is made to fail. -/
def Struck (faults : Site → Option Fault) (site : Site) : Prop := faults site ≠ none

/-- The probe at this place is made to fail. `ENOENT` is an answer and not a
failure. -/
def Blinded (faults : Site → Option Fault) (site : Site) : Prop :=
  ∃ e, e ≠ ENOENT ∧ faults site = some e

variable {α β : Type} {faults : Site → Option Fault} {w : World} {site : Site}
  {id name : Bytes} {dir : Dir}

@[simp] theorem run_pure (value : α) : run faults (.pure value) w = (value, w) := rfl

theorem run_bind (program : Prog α) (next : α → Prog β) :
    run faults (program.bind next) w =
      run faults (next (run faults program w).1) (run faults program w).2 :=
  Program.exec_bind program next w

theorem run_call (c : Call) (next : Reply c → Prog α) :
    run faults (.call c next) w =
      run faults (next (perform c.op (faults c.site) w).1)
        (perform c.op (faults c.site) w).2 := rfl

section Rules
variable {P : α × World → Prop}

/-- A call that any fault makes fail. -/
theorem run_ask (op : Op) {next : Reply ⟨site, op⟩ → Prog α}
    (admits : ∀ e, op.admits e = true)
    (struck : Struck faults site → ∀ e, P (run faults (next (.error e)) w))
    (asked : ¬ Struck faults site →
      P (run faults (next (answer op w).1) (answer op w).2)) :
    P (run faults (.call ⟨site, op⟩ next) w) := by
  rw [run_call]
  cases hf : faults site with
  | none => exact asked (by simp [Struck, hf])
  | some e =>
      have hperform : perform op (some e) w = (.error e, w) := by
        simp [perform, admits]
      simp only [hperform]
      exact struck (by simp [Struck, hf]) e

theorem run_probe {slot : Slot} {next : Except Fault Stat → Prog α}
    (blinded : Blinded faults site → ∀ e, e ≠ ENOENT →
      P (run faults (next (.error e)) w))
    (absent : ¬ Blinded faults site → w.fs.entry slot = none →
      P (run faults (next (.error ENOENT)) w))
    (present : ¬ Blinded faults site → ∀ object, w.fs.entry slot = some object →
      P (run faults (next (.ok (w.stat object))) w)) :
    P (run faults (.call ⟨site, .fstatat slot⟩ next) w) := by
  rw [run_call]
  have hasked : ¬ Blinded faults site →
      P (run faults (next (answer (.fstatat slot) w).1) (answer (.fstatat slot) w).2) := by
    intro hsees
    cases hentry : w.fs.entry slot with
    | none =>
        simp only [answer, hentry]
        exact absent hsees hentry
    | some object =>
        simp only [answer, hentry]
        exact present hsees object hentry
  cases hf : faults site with
  | none => exact hasked (by simp [Blinded, hf])
  | some e =>
      by_cases he : e = ENOENT
      · have hperform : perform (.fstatat slot) (some e) w = answer (.fstatat slot) w := by
          simp [perform, Op.admits, he]
        simp only [hperform]
        exact hasked (by simp [Blinded, hf, he])
      · have hperform : perform (.fstatat slot) (some e) w = (.error e, w) := by
          simp [perform, Op.admits, he]
        simp only [hperform]
        exact blinded ⟨e, he, hf⟩ e he

/-! ## Looking -/

theorem run_openRoot {path : Bytes} {next : Except Bytes Dir → Prog α}
    (refused : Struck faults site ∨ w.fs.root (cstr path) = none →
      ∀ m, P (run faults (next (.error m)) w))
    (opened : ¬ Struck faults site → ∀ d, w.fs.root (cstr path) = some d →
      P (run faults (next (.ok d)) w)) :
    P (run faults ((openRoot site path).bind next) w) := by
  refine run_ask (.openRoot path) (fun _ => rfl) ?_ ?_
  · intro struck e
    exact refused (Or.inl struck) _
  · intro free
    cases hroot : w.fs.root (cstr path) with
    | none =>
        simp only [answer, hroot]
        exact refused (Or.inr hroot) _
    | some d =>
        simp only [answer, hroot]
        exact opened free d hroot

theorem run_classify {next : Except Bytes FileIdentity → Prog α}
    (plain : isPlainName name = true)
    (blinded : Blinded faults site → ∀ m, P (run faults (next (.error m)) w))
    (absent : ¬ Blinded faults site → w.fs.entry ⟨dir, name⟩ = none →
      P (run faults (next (.ok FileIdentity.missing)) w))
    (present : ¬ Blinded faults site → ∀ object, w.fs.entry ⟨dir, name⟩ = some object →
      P (run faults (next (.ok (FileIdentity.ofStat (w.stat object)))) w)) :
    P (run faults ((classify site dir name).bind next) w) := by
  rw [classify_plain plain]
  refine run_probe ?_ ?_ ?_
  · intro hb e he
    simp only [Program.pure_bind, identify, if_neg he]
    exact blinded hb _
  · intro hs hnone
    exact absent hs hnone
  · intro hs object hsome
    exact present hs object hsome

theorem run_sawEntry {next : Bool → Prog α} (plain : isPlainName name = true)
    (blinded : Blinded faults site → P (run faults (next false) w))
    (sees : ¬ Blinded faults site →
      P (run faults (next (w.fs.entry ⟨dir, name⟩).isSome) w)) :
    P (run faults ((sawEntry site dir name).bind next) w) := by
  rw [sawEntry_plain plain]
  refine run_probe ?_ ?_ ?_
  · intro hb e _
    exact blinded hb
  · intro hs hnone
    have h := sees hs
    rw [hnone] at h
    exact h
  · intro hs object hsome
    have h := sees hs
    rw [hsome] at h
    exact h

/-- `open_regular` on a regular file that is where it was just seen. -/
theorem run_openRegular {object : Inode} {next : Except Bytes Unit → Prog α}
    (plain : isPlainName name = true) (there : w.fs.entry ⟨dir, name⟩ = some object)
    (regular : w.fs.type object = .reg)
    (refused : Struck faults .sourceOpen ∨ Struck faults .sourceFstat →
      ∀ m, P (run faults (next (.error m)) w))
    (passed : ¬ Struck faults .sourceOpen → ¬ Struck faults .sourceFstat →
      P (run faults (next (.ok ())) w)) :
    P (run faults ((openRegular dir name
      (FileIdentity.ofStat (w.stat object))).bind next) w) := by
  have hkind : (FileIdentity.ofStat (w.stat object)).kind = .regular := by
    simp [FileIdentity.ofStat, World.stat, regular, kindFromMode]
  unfold openRegular
  rw [rejectBadName_plain plain]
  simp only [ne_eq, hkind, not_true_eq_false, if_false]
  refine run_ask (.openat ⟨dir, name⟩) (fun _ => rfl) ?_ ?_
  · intro struck e
    change P (run faults (Program.bind (if e = ELOOP then _ else _) next) w)
    split
    · exact refused (Or.inl struck) _
    · exact refused (Or.inl struck) _
  · intro free
    simp only [answer, there, regular, reduceCtorEq, if_false]
    refine run_ask (.fstat object) (fun _ => rfl) ?_ ?_
    · intro struck e
      exact refused (Or.inr struck) _
    · intro free'
      change P (run faults (Program.bind
        (if (FileIdentity.ofStat (w.stat object)).sameObjectAs
          (FileIdentity.ofStat (w.stat object)) then _ else _) next) w)
      rw [if_pos (sameObjectAs_self _)]
      exact passed free free'

/-! ## The store -/

theorem run_load {next : Except Bytes (Option Job) → Prog α}
    (struck : Struck faults site → ∀ m, P (run faults (next (.error m)) w))
    (loaded : ¬ Struck faults site →
      P (run faults (next (.ok ((w.db.row id).map (·.job)))) w)) :
    P (run faults ((load site id).bind next) w) := by
  refine run_ask (.selectJob id) (fun _ => rfl) ?_ ?_
  · intro hstruck e
    exact struck hstruck _
  · intro free
    exact loaded free

/-- `update_state` along a legal edge. -/
theorem run_updateState {target : JobState} {nowMs : Int} {message : Bytes} {job : Job}
    {next : Except Bytes Unit → Prog α}
    (row : (w.db.row id).map (·.job) = some job)
    (legal : isLegalTransition job.state target = true)
    (fits : target = .failed ↔ message ≠ [])
    (explains : target = .failed → Explains message)
    (struck : Struck faults (.transitionLoad target) ∨
        Struck faults (.transitionWrite target) →
      ∀ m, P (run faults (next (.error m)) w))
    (written : ¬ Struck faults (.transitionLoad target) →
      ¬ Struck faults (.transitionWrite target) →
      ∀ db', db'.state id = some target →
        P (run faults (next (.ok ())) { w with db := db' })) :
    P (run faults ((updateState id target nowMs message).bind next) w) := by
  unfold updateState
  rw [Program.bind_def, Program.bind_assoc]
  refine run_load ?_ ?_
  · intro hstruck m
    exact struck (Or.inl hstruck) _
  intro free
  rw [row]
  obtain ⟨after, htrans⟩ : ∃ after, job.transition target nowMs message = some after :=
    ⟨_, Job.transition_eq_some.mpr ⟨legal, fits, rfl⟩⟩
  have hstate : after.state = target := Job.transition_state htrans
  simp only [htrans]
  refine run_ask (.updateJob id job after) (fun _ => rfl) ?_ ?_
  · intro hstruck e
    exact struck (Or.inr hstruck) _
  · intro free'
    obtain ⟨row', hrow', hjob⟩ := Option.map_eq_some_iff.mp row
    have hcheck : cstr after.error ≠ [] ↔ after.state = .failed := by
      rw [← hjob] at htrans
      exact Database.check_of_transition row' htrans explains
    obtain ⟨db', hdb⟩ : ∃ db', w.db.updateJob id after = .ok db' :=
      Database.updateJob_of_check hcheck
    simp only [answer, World.onDb, hdb]
    refine written free free' db' ?_
    rw [Database.state_updateJob hdb, if_pos rfl, Database.state, hrow', ← hstate]
    rfl

theorem run_recordTransition {target : JobState} {nowMs : Int} {job : Job}
    {phase : CommitPhase} {next : Except (WriteFailureAction × Bytes) Unit → Prog α}
    (row : (w.db.row id).map (·.job) = some job)
    (legal : isLegalTransition job.state target = true) (going : target ≠ .failed)
    (struck : Struck faults (.transitionLoad target) ∨
        Struck faults (.transitionWrite target) →
      ∀ failure, P (run faults (next (.error failure)) w))
    (written : ¬ Struck faults (.transitionLoad target) →
      ¬ Struck faults (.transitionWrite target) →
      ∀ db', db'.state id = some target →
        P (run faults (next (.ok ())) { w with db := db' })) :
    P (run faults ((recordTransition id target nowMs [] phase).bind next) w) := by
  unfold recordTransition
  rw [Program.bind_def, Program.bind_assoc]
  refine run_updateState row legal (by simp [going]) (fun h => absurd h going) ?_ written
  intro hstruck m
  exact struck hstruck _

end Rules

/-! ## The commit -/

/-- The commit does nothing: the staging name is unusable or taken, or the call
that would give it fails. -/
def CommitRefused (faults : Site → Option Fault) (strategy : MoveStrategy)
    (staged : Slot) (w : World) : Prop :=
  isPlainName staged.name = false ∨ w.fs.entry staged ≠ none ∨
    (strategy = .renameNoReplace ∧ Struck faults .commitRename) ∨
    (strategy = .linkThenUnlink ∧ Struck faults .commitLink)

/-- The commit stops half-way, with both names on the object. -/
def CommitHalf (faults : Site → Option Fault) (strategy : MoveStrategy)
    (staged : Slot) (w : World) : Prop :=
  strategy = .linkThenUnlink ∧ isPlainName staged.name = true ∧
    w.fs.entry staged = none ∧ ¬ Struck faults .commitLink ∧
    Struck faults .commitUnlink

def Commits (faults : Site → Option Fault) (strategy : MoveStrategy)
    (staged : Slot) (w : World) : Prop :=
  isPlainName staged.name = true ∧ w.fs.entry staged = none ∧
    (strategy = .renameNoReplace → ¬ Struck faults .commitRename) ∧
    (strategy = .linkThenUnlink →
      ¬ Struck faults .commitLink ∧ ¬ Struck faults .commitUnlink)

theorem Commits.not_refused {strategy : MoveStrategy} {staged : Slot}
    (h : Commits faults strategy staged w) :
    ¬ CommitRefused faults strategy staged w ∧ ¬ CommitHalf faults strategy staged w := by
  obtain ⟨hplain, hnone, hrename, hlink⟩ := h
  constructor
  · rintro (hbad | hthere | ⟨rfl, hs⟩ | ⟨rfl, hs⟩)
    · rw [hplain] at hbad
      cases hbad
    · exact hthere hnone
    · exact hrename rfl hs
    · exact (hlink rfl).1 hs
  · rintro ⟨rfl, _, _, _, hs⟩
    exact (hlink rfl).2 hs

theorem CommitHalf.not_refused {strategy : MoveStrategy} {staged : Slot}
    (h : CommitHalf faults strategy staged w) :
    ¬ CommitRefused faults strategy staged w := by
  obtain ⟨rfl, hplain, hnone, hlink, _⟩ := h
  rintro (hbad | hthere | ⟨hstrategy, _⟩ | ⟨_, hs⟩)
  · rw [hplain] at hbad
    cases hbad
  · exact hthere hnone
  · cases hstrategy
  · exact hlink hs

section Commit
variable {P : α × World → Prop}

theorem run_moveWithin {fromDir toDir : Dir} {fromName toName : Bytes}
    {strategy : MoveStrategy} {object : Inode} {next : Except Bytes Unit → Prog α}
    (plain : isPlainName fromName = true)
    (there : w.fs.entry ⟨fromDir, fromName⟩ = some object)
    (regular : w.fs.type object = .reg)
    (refused : CommitRefused faults strategy ⟨toDir, toName⟩ w →
      ∀ m, P (run faults (next (.error m)) w))
    (half : CommitHalf faults strategy ⟨toDir, toName⟩ w →
      ∀ m, P (run faults (next (.error m))
        { w with fs := w.fs.put ⟨toDir, toName⟩ object }))
    (moved : Commits faults strategy ⟨toDir, toName⟩ w →
      P (run faults (next (.ok ()))
        { w with fs :=
          (w.fs.drop ⟨fromDir, fromName⟩).put ⟨toDir, toName⟩ object })) :
    P (run faults ((moveWithin fromDir fromName toDir toName strategy).bind next) w) := by
  unfold moveWithin
  cases hto : isPlainName toName with
  | false =>
      rw [rejectBadName_plain plain, rejectBadName_bad hto]
      exact refused (Or.inl hto) _
  | true =>
    rw [rejectBadName_plain plain, rejectBadName_plain hto]
    cases strategy with
    | renameNoReplace =>
        refine run_ask (.renameat2 ⟨fromDir, fromName⟩ ⟨toDir, toName⟩)
          (fun _ => rfl) ?_ ?_
        · intro struck e
          exact refused (Or.inr (Or.inr (Or.inl ⟨rfl, struck⟩))) _
        · intro free
          cases ht : w.fs.entry ⟨toDir, toName⟩ with
          | some other =>
              simp only [answer, Filesystem.renameNoReplace, there, ht, World.onFs]
              exact refused (Or.inr (Or.inl (by simp [ht]))) _
          | none =>
              simp only [answer, Filesystem.renameNoReplace, there, ht, World.onFs]
              exact moved ⟨hto, ht, fun _ => free, by rintro ⟨⟩⟩
    | linkThenUnlink =>
        refine run_ask (.linkat ⟨fromDir, fromName⟩ ⟨toDir, toName⟩)
          (fun _ => rfl) ?_ ?_
        · intro struck e
          exact refused (Or.inr (Or.inr (Or.inr ⟨rfl, struck⟩))) _
        · intro free
          cases ht : w.fs.entry ⟨toDir, toName⟩ with
          | some other =>
              simp only [answer, Filesystem.link, there, ht, regular, World.onFs,
                reduceCtorEq, if_false]
              exact refused (Or.inr (Or.inl (by simp [ht]))) _
          | none =>
              simp only [answer, Filesystem.link, there, ht, regular, World.onFs,
                reduceCtorEq, if_false]
              have hapart : (⟨fromDir, fromName⟩ : Slot) ≠ ⟨toDir, toName⟩ := by
                intro heq
                rw [heq, ht] at there
                cases there
              refine run_ask (.unlinkat ⟨fromDir, fromName⟩) (fun _ => rfl) ?_ ?_
              · intro struck e
                exact half ⟨rfl, hto, ht, free, struck⟩ _
              · intro free'
                simp only [answer, Filesystem.unlink, Filesystem.entry_put_ne hapart,
                  there, Filesystem.type_put, regular, World.onFs, reduceCtorEq, if_false,
                  Filesystem.drop_put_comm hapart]
                exact moved ⟨hto, ht, (by rintro ⟨⟩), fun _ => ⟨free, free'⟩⟩

end Commit

/-! ## Phase 1 -/

/-- Phase 1 passes, and yields this job and these directories for this object. -/
structure Admitted (faults : Site → Option Fault) (id : Bytes) (request : MoveRequest)
    (w : World) (job : Job) (sourceDir destDir : Dir) (object : Inode) : Prop where
  valid : ValidDirs request
  loads : ¬ Struck faults .executeLoad
  row : (w.db.row id).map (·.job) = some job
  opensSource : ¬ Struck faults .sourceRoot
  source : w.fs.root (cstr request.sourceDir) = some sourceDir
  opensDest : ¬ Struck faults .destRoot
  dest : w.fs.root (cstr request.destDir) = some destDir
  plain : isPlainName request.sourceName = true
  sees : ¬ Blinded faults .sourceProbe
  there : w.fs.entry ⟨sourceDir, request.sourceName⟩ = some object
  regular : w.fs.type object = .reg
  opens : ¬ Struck faults .sourceOpen
  stats : ¬ Struck faults .sourceFstat

/-- Phase 1 has one result. -/
theorem Admitted.unique {job job' : Job} {sourceDir sourceDir' destDir destDir' : Dir}
    {object object' : Inode} {request : MoveRequest}
    (h : Admitted faults id request w job sourceDir destDir object)
    (h' : Admitted faults id request w job' sourceDir' destDir' object') :
    job' = job ∧ sourceDir' = sourceDir ∧ destDir' = destDir ∧ object' = object := by
  have hjob := h'.row
  have hs := h'.source
  have hd := h'.dest
  rw [h.row] at hjob
  rw [h.source] at hs
  rw [h.dest] at hd
  cases hjob
  cases hs
  cases hd
  have hobject := h'.there
  rw [h.there] at hobject
  cases hobject
  exact ⟨rfl, rfl, rfl, rfl⟩

section Validate
variable {P : α × World → Prop} {request : MoveRequest}

theorem run_validate {next : Except Bytes (Job × Dir × Dir × Bytes) → Prog α}
    (refused : (∀ job sourceDir destDir object,
        ¬ Admitted faults id request w job sourceDir destDir object) →
      ∀ m, P (run faults (next (.error m)) w))
    (passed : ∀ job sourceDir destDir object error,
      Admitted faults id request w job sourceDir destDir object →
      P (run faults (next (.ok (job, sourceDir, destDir, error))) w)) :
    P (run faults ((validate id request).bind next) w) := by
  unfold validate
  cases hvs : validateExternalPath request.sourceDir with
  | error m =>
      refine refused (fun _ _ _ _ h => ?_) _
      rw [h.valid.1] at hvs
      cases hvs
  | ok _ =>
  cases hvd : validateExternalPath request.destDir with
  | error m =>
      refine refused (fun _ _ _ _ h => ?_) _
      rw [h.valid.2] at hvd
      cases hvd
  | ok _ =>
  simp only
  rw [Program.bind_def, Program.bind_assoc]
  refine run_load ?_ ?_
  · intro struck m
    exact refused (fun _ _ _ _ h => h.loads struck) _
  intro loads
  cases hrow : (w.db.row id).map (·.job) with
  | none =>
      refine refused (fun _ _ _ _ h => ?_) _
      rw [h.row] at hrow
      cases hrow
  | some job =>
  simp only
  rw [Program.bind_def, Program.bind_assoc]
  refine run_openRoot ?_ ?_
  · intro why m
    refine refused (fun _ _ _ _ h => ?_) _
    rcases why with struck | hnone
    · exact h.opensSource struck
    · rw [h.source] at hnone
      cases hnone
  intro opensSource sourceDir hs
  simp only
  rw [Program.bind_def, Program.bind_assoc]
  refine run_openRoot ?_ ?_
  · intro why m
    refine refused (fun _ _ _ _ h => ?_) _
    rcases why with struck | hnone
    · exact h.opensDest struck
    · rw [h.dest] at hnone
      cases hnone
  intro opensDest destDir hd
  simp only
  rw [Program.bind_def, Program.bind_assoc]
  have hsame : ∀ {job' sourceDir' destDir' object},
      Admitted faults id request w job' sourceDir' destDir' object →
      w.fs.entry ⟨sourceDir, request.sourceName⟩ = some object := by
    intro job' sourceDir' destDir' object h
    have hdir := h.source
    rw [hs] at hdir
    cases hdir
    exact h.there
  cases hplain : isPlainName request.sourceName with
  | false =>
      rw [classify_bad hplain]
      refine refused (fun _ _ _ _ h => ?_) _
      rw [h.plain] at hplain
      cases hplain
  | true =>
  refine run_classify hplain ?_ ?_ ?_
  · intro blinded m
    exact refused (fun _ _ _ _ h => h.sees blinded) _
  · intro _ hnone
    simp only [FileIdentity.missing, if_true]
    refine refused (fun _ _ _ _ h => ?_) _
    rw [hsame h] at hnone
    cases hnone
  intro sees object there
  have hthere : (FileIdentity.ofStat (w.stat object)).kind ≠ .missing :=
    kindFromMode_ne_missing _
  by_cases hreg : w.fs.type object = .reg
  · have hkind : (FileIdentity.ofStat (w.stat object)).kind = .regular := by
      simp [FileIdentity.ofStat, World.stat, hreg, kindFromMode]
    simp only [hkind, reduceCtorEq, ne_eq, not_true_eq_false, if_false]
    rw [Program.bind_def, Program.bind_assoc]
    refine run_openRegular hplain there hreg ?_ ?_
    · intro why m
      refine refused (fun _ _ _ _ h => ?_) _
      rcases why with struck | struck
      · exact h.opens struck
      · exact h.stats struck
    intro opens stats
    simp only
    rw [Program.bind_def, Program.bind_assoc]
    have hgo : ∀ error,
        P (run faults (next (.ok (job, sourceDir, destDir, error))) w) := by
      intro error
      exact passed job sourceDir destDir object error
        ⟨⟨hvs, hvd⟩, loads, hrow, opensSource, hs, opensDest, hd, hplain, sees, there,
          hreg, opens, stats⟩
    exact run_classify hplain (fun _ _ => hgo _) (fun _ _ => hgo _) (fun _ _ _ => hgo _)
  · have hkind : (FileIdentity.ofStat (w.stat object)).kind ≠ .regular := by
      intro hkind
      apply hreg
      revert hkind
      simp only [FileIdentity.ofStat, World.stat]
      cases w.fs.type object <;> simp [kindFromMode]
    simp only [hthere, hkind, ne_eq, not_false_eq_true, if_true, if_false]
    refine refused (fun _ _ _ _ h => ?_) _
    have hobject := hsame h
    rw [there] at hobject
    cases hobject
    exact hreg h.regular

end Validate

/-! ## Phases 4 to 6 -/

/-- The rename of phase 5 is reached and succeeds, given the recorded state and a
free final name. -/
structure Publishes (faults : Site → Option Fault) (state : JobState)
    (destName : Bytes) : Prop where
  loads : ¬ Struck faults .finishLoad
  records : state = .renaming → ¬ Struck faults (.transitionLoad .transferring) ∧
    ¬ Struck faults (.transitionWrite .transferring)
  sees : ¬ Blinded faults .stagedProbe
  plain : isPlainName destName = true
  opens : ¬ Struck faults .publishOpen
  syncs : ¬ Struck faults .publishFsync
  renames : ¬ Struck faults .publishRename

/-- Something fails after that rename. -/
def LeftUnfinished (faults : Site → Option Fault) : Prop :=
  Struck faults .publishDirFsync ∨ Struck faults (.transitionLoad .done) ∨
    Struck faults (.transitionWrite .done)

section Finish
variable {P : MoveResult × World → Prop} {request : MoveRequest}

theorem run_haltWith {outcome : MoveOutcome} {error : Bytes}
    (halted : ∀ db', P ((outcome, error), { w with db := db' })) :
    P (run faults (haltWith id outcome error) w) := by
  unfold haltWith markNeedsAttention
  by_cases hempty : error = []
  · rw [if_pos hempty]
    exact halted w.db
  · rw [if_neg hempty]
    refine run_ask (.flagJob id error) (fun _ => rfl) ?_ ?_
    · intro _ e
      exact halted w.db
    · intro _
      change P (run faults (Program.bind (if _ = 0 then _ else _) _) _)
      split
      · exact halted _
      · exact halted _

theorem run_recordDone {tick : Int} {error : Bytes} {job : Job}
    (row : (w.db.row id).map (·.job) = some job) (state : job.state = .transferring)
    (struck : Struck faults (.transitionLoad .done) ∨
        Struck faults (.transitionWrite .done) →
      ∀ m db', P ((.haltedAfterCommit, m), { w with db := db' }))
    (written : ¬ Struck faults (.transitionLoad .done) →
      ¬ Struck faults (.transitionWrite .done) →
      ∀ db', db'.state id = some .done →
        P ((.completed, error), { w with db := db' })) :
    P (run faults (recordDone id tick error) w) := by
  refine run_recordTransition row (by rw [state]; rfl) (by decide) ?_ ?_
  · intro hstruck failure
    exact run_haltWith (struck hstruck _)
  · intro free free' db' hdb
    exact written free free' db' hdb

end Finish

section Publish
variable {P : α × World → Prop}

theorem run_publish {tempName finalName : Bytes} {object : Inode}
    {next : Except Bytes Unit → Prog α} (plain : isPlainName tempName = true)
    (there : w.fs.entry ⟨dir, tempName⟩ = some object)
    (regular : w.fs.type object = .reg)
    (vacant : w.fs.entry ⟨dir, finalName⟩ = none)
    (stopped : isPlainName finalName = false ∨ Struck faults .publishOpen ∨
        Struck faults .publishFsync ∨ Struck faults .publishRename →
      ∀ m, P (run faults (next (.error m)) w))
    (unsynced : isPlainName finalName = true → ¬ Struck faults .publishOpen →
      ¬ Struck faults .publishFsync → ¬ Struck faults .publishRename →
      Struck faults .publishDirFsync →
      ∀ m, P (run faults (next (.error m))
        { w with fs := (w.fs.drop ⟨dir, tempName⟩).put ⟨dir, finalName⟩ object }))
    (published : isPlainName finalName = true → ¬ Struck faults .publishOpen →
      ¬ Struck faults .publishFsync → ¬ Struck faults .publishRename →
      ¬ Struck faults .publishDirFsync →
      P (run faults (next (.ok ()))
        { w with fs := (w.fs.drop ⟨dir, tempName⟩).put ⟨dir, finalName⟩ object })) :
    P (run faults ((publish dir tempName finalName).bind next) w) := by
  unfold publish
  cases hfinal : isPlainName finalName with
  | false =>
      rw [rejectBadName_plain plain, rejectBadName_bad hfinal]
      exact stopped (Or.inl hfinal) _
  | true =>
    rw [rejectBadName_plain plain, rejectBadName_plain hfinal]
    refine run_ask (.openat ⟨dir, tempName⟩) (fun _ => rfl) ?_ ?_
    · intro struck e
      exact stopped (Or.inr (Or.inl struck)) _
    intro opens
    simp only [answer, there, regular, reduceCtorEq, if_false]
    refine run_ask (.fsync object) (fun _ => rfl) ?_ ?_
    · intro struck e
      exact stopped (Or.inr (Or.inr (Or.inl struck))) _
    intro syncs
    refine run_ask (.renameat ⟨dir, tempName⟩ ⟨dir, finalName⟩) (fun _ => rfl) ?_ ?_
    · intro struck e
      exact stopped (Or.inr (Or.inr (Or.inr struck))) _
    intro renames
    simp only [answer, Filesystem.rename, there, vacant, World.onFs]
    refine run_ask (.fsyncDir dir) (fun _ => rfl) ?_ ?_
    · intro struck e
      exact unsynced hfinal opens syncs renames struck _
    · intro dirSyncs
      exact published hfinal opens syncs renames dirSyncs

end Publish

/-- How a run ends that has an object under the staging name and finds the final
name free. -/
inductive Finished (faults : Site → Option Fault) (id : Bytes) (state : JobState)
    (staged final : Slot) (object : Inode) (w : World) : MoveResult × World → Prop where
  | stuck {outcome : MoveOutcome} {error : Bytes} {db' : Database}
      (halted : outcome = .haltedAfterCommit ∨ outcome = .failedExternal)
      (not : ¬ Publishes faults state final.name) :
      Finished faults id state staged final object w
        ((outcome, error), { w with db := db' })
  | unfinished {error : Bytes} {db' : Database}
      (publishes : Publishes faults state final.name) (left : LeftUnfinished faults) :
      Finished faults id state staged final object w
        ((.haltedAfterCommit, error),
          { fs := (w.fs.drop staged).put final object, db := db' })
  | done {error : Bytes} {db' : Database}
      (publishes : Publishes faults state final.name) (left : ¬ LeftUnfinished faults)
      (recorded : db'.state id = some .done) :
      Finished faults id state staged final object w
        ((.completed, error),
          { fs := (w.fs.drop staged).put final object, db := db' })

section Finish
variable {request : MoveRequest} {tick : Int} {error : Bytes} {destDir : Dir}
  {object : Inode}

theorem run_publishAndRecord {job : Job} {state : JobState} {w₀ : World}
    (row : (w.db.row id).map (·.job) = some job) (now : job.state = .transferring)
    (same : w.fs = w₀.fs)
    (plain : isPlainName (stagingName id) = true)
    (there : w.fs.entry ⟨destDir, stagingName id⟩ = some object)
    (regular : w.fs.type object = .reg)
    (vacant : w.fs.entry ⟨destDir, request.destName⟩ = none)
    (loads : ¬ Struck faults .finishLoad)
    (records : state = .renaming → ¬ Struck faults (.transitionLoad .transferring) ∧
      ¬ Struck faults (.transitionWrite .transferring)) :
    Finished faults id state ⟨destDir, stagingName id⟩ ⟨destDir, request.destName⟩
      object w₀ (run faults (publishAndRecord id request destDir tick error) w) := by
  have hstuck : ∀ outcome error,
      (outcome = .haltedAfterCommit ∨ outcome = .failedExternal) →
      ¬ Publishes faults state request.destName →
      Finished faults id state ⟨destDir, stagingName id⟩ ⟨destDir, request.destName⟩
        object w₀ (run faults (haltWith id outcome error) w) := by
    intro outcome error hout hnot
    refine run_haltWith fun db' => ?_
    rw [same]
    exact .stuck hout hnot
  -- with the final name free, the second probe has no influence
  have hprobe : ∀ {P : MoveResult × World → Prop} {next : Bool → Prog MoveResult},
      P (run faults (next false) w) →
      P (run faults ((sawEntry .finalProbe destDir request.destName).bind next) w) := by
    intro P next hnext
    cases hfinal : isPlainName request.destName with
    | false =>
        rw [sawEntry_bad hfinal]
        exact hnext
    | true =>
        refine run_sawEntry hfinal (fun _ => hnext) (fun _ => ?_)
        rw [vacant]
        exact hnext
  refine run_sawEntry plain ?_ ?_
  · intro blinded
    refine hprobe ?_
    exact hstuck _ _ (Or.inr rfl) fun h => h.sees blinded
  · intro sees
    rw [there]
    refine hprobe ?_
    refine run_publish plain there regular vacant ?_ ?_ ?_
    · intro why m
      refine hstuck _ _ (Or.inl rfl) fun h => ?_
      rcases why with hbad | hstruck | hstruck | hstruck
      · rw [h.plain] at hbad
        cases hbad
      · exact h.opens hstruck
      · exact h.syncs hstruck
      · exact h.renames hstruck
    · intro hplain opens syncs renames struck m
      refine run_haltWith fun db' => ?_
      rw [same]
      exact .unfinished ⟨loads, records, sees, hplain, opens, syncs, renames⟩
        (Or.inl struck)
    · intro hplain opens syncs renames free
      refine run_recordDone row now ?_ ?_
      · intro struck m db'
        rw [same]
        exact .unfinished ⟨loads, records, sees, hplain, opens, syncs, renames⟩
          (Or.inr struck)
      · intro free' free'' db' hdone
        rw [same]
        refine .done ⟨loads, records, sees, hplain, opens, syncs, renames⟩ ?_ hdone
        rintro (h | h | h)
        · exact free h
        · exact free' h
        · exact free'' h

theorem run_finishAfterCommit {job : Job}
    (row : (w.db.row id).map (·.job) = some job)
    (under : job.state = .renaming ∨ job.state = .transferring)
    (plain : isPlainName (stagingName id) = true)
    (there : w.fs.entry ⟨destDir, stagingName id⟩ = some object)
    (regular : w.fs.type object = .reg)
    (vacant : w.fs.entry ⟨destDir, request.destName⟩ = none) :
    Finished faults id job.state ⟨destDir, stagingName id⟩
      ⟨destDir, request.destName⟩ object w
      (run faults (finishAfterCommit id request destDir tick error) w) := by
  refine run_load ?_ ?_
  · intro struck m
    exact .stuck (Or.inl rfl) fun h => h.loads struck
  intro loads
  rw [row]
  rcases under with hren | htrans
  · simp only [hren, reduceCtorEq, if_false, if_true]
    refine run_recordTransition row (by rw [hren]; rfl) (by decide) ?_ ?_
    · intro struck failure
      refine run_haltWith fun db' => .stuck (Or.inl rfl) fun h => ?_
      obtain ⟨hl, hw⟩ := h.records rfl
      rcases struck with hstruck | hstruck
      · exact hl hstruck
      · exact hw hstruck
    · intro free free' db' hdb
      obtain ⟨row', hrow', hstate⟩ := Option.map_eq_some_iff.mp hdb
      exact run_publishAndRecord (w := { w with db := db' })
        (Option.map_eq_some_iff.mpr ⟨row', hrow', rfl⟩) hstate rfl plain there regular
        vacant loads fun _ => ⟨free, free'⟩
  · simp only [htrans, reduceCtorEq, if_false]
    exact run_publishAndRecord row htrans rfl plain there regular vacant loads
      fun h => nomatch h

end Finish

end FileMover
