import FileMover.Engine.Execution
import FileMover.Engine.Runs

/-!
# Recovery after a crash

A move that starts from a clean slate (the source is a regular file, the other
two names are free, the record is QUEUED) passes through four phases, whatever
is made to fail and wherever runs are abandoned. In three of them a recovery that
is left alone completes the move. The fourth is the gap between the two calls of
the link strategy: both names are on the object, and `recover` tries to make the
link once more, which must fail.
-/

namespace FileMover

open Framework

/-! ## The phases of a move -/

/-- One job is driven with one strategy; every call may be made to fail. -/
def redriven (id : Bytes) (request : MoveRequest) (strategy : MoveStrategy) : Setting where
  begins j r s := j = id ∧ r = request ∧ s = strategy
  meets _ _ _ _ _ := True
  interferes _ _ := False

/-- A job with nothing in its way. -/
structure CleanSlate (id : Bytes) (request : MoveRequest) (p : Places) (object : Inode)
    (w : World) : Prop where
  placed : placesOf w.fs.root id request = some p
  plainSource : isPlainName request.sourceName = true
  plainStaged : isPlainName (stagingName id) = true
  plainFinal : isPlainName request.destName = true
  source_ne_staged : p.source ≠ p.staged
  source_ne_final : p.source ≠ p.final
  staged_ne_final : p.staged ≠ p.final
  source : w.fs.entry p.source = some object
  regular : w.fs.type object = .reg
  staged : w.fs.entry p.staged = none
  final : w.fs.entry p.final = none
  queued : w.db.state id = some .queued

/-- How far the move has got. -/
inductive Phase (id : Bytes) (request : MoveRequest) (p : Places) (object : Inode)
    (σ : Session) : Prop where
  | untouched
      (source : σ.entry p.source = some object) (staged : σ.entry p.staged = none)
      (final : σ.entry p.final = none)
      (state : σ.state id = some .queued ∨ σ.state id = some .renaming)
  | linked
      (source : σ.entry p.source = some object) (staged : σ.entry p.staged = some object)
      (final : σ.entry p.final = none) (state : Underway (σ.state id))
      (taken : σ.ledger.moved id ≠ []) (valid : ValidDirs request)
  | staged
      (source : σ.entry p.source = none) (staged : σ.entry p.staged = some object)
      (final : σ.entry p.final = none) (state : Underway (σ.state id))
      (taken : σ.ledger.moved id ≠ []) (valid : ValidDirs request)
  | delivered
      (source : σ.entry p.source = none) (staged : σ.entry p.staged = none)
      (final : σ.entry p.final = some object)
      (state : σ.state id = some .transferring ∨ σ.state id = some .done ∨
        (σ.state id = some .failed ∧ σ.faulted = true))
      (taken : σ.ledger.moved id ≠ []) (valid : ValidDirs request)

/-- The invariant of the histories of such a job. -/
structure Progress (id : Bytes) (request : MoveRequest) (p : Places) (object : Inode)
    (σ : Session) : Prop where
  placed : placesOf σ.world.fs.root id request = some p
  regular : σ.world.fs.type object = .reg
  phase : Phase id request p object σ

section Phase
variable {id : Bytes} {request : MoveRequest} {strategy : MoveStrategy} {p : Places}
  {object : Inode} {c : Call} {fault : Option Fault} {σ σ' : Session} {w : World}

/-- A step that changes neither names nor the record nor what was moved. -/
theorem Phase.congr (phase : Phase id request p object σ)
    (fs : σ'.world.fs = σ.world.fs) (state : σ'.state id = σ.state id)
    (moved : σ'.ledger.moved = σ.ledger.moved)
    (faulted : σ.faulted = true → σ'.faulted = true) : Phase id request p object σ' := by
  have hentry : ∀ slot, σ'.entry slot = σ.entry slot := by
    intro slot
    rw [Session.entry, fs]
    rfl
  cases phase with
  | untouched hs ht hf hstate =>
      exact .untouched (by rw [hentry, hs]) (by rw [hentry, ht]) (by rw [hentry, hf])
        (by rw [state]; exact hstate)
  | linked hs ht hf hstate taken valid =>
      exact .linked (by rw [hentry, hs]) (by rw [hentry, ht]) (by rw [hentry, hf])
        (by rw [state]; exact hstate) (by rw [moved]; exact taken) valid
  | staged hs ht hf hstate taken valid =>
      exact .staged (by rw [hentry, hs]) (by rw [hentry, ht]) (by rw [hentry, hf])
        (by rw [state]; exact hstate) (by rw [moved]; exact taken) valid
  | delivered hs ht hf hstate taken valid =>
      refine .delivered (by rw [hentry, hs]) (by rw [hentry, ht]) (by rw [hentry, hf])
        ?_ (by rw [moved]; exact taken) valid
      rw [state]
      exact hstate.imp_right (Or.imp_right (And.imp_right faulted))

/-- The names change in one direction only: source, both, staged, final. -/
theorem Phase.advance (apart : p.source ≠ p.staged ∧ p.source ≠ p.final ∧ p.staged ≠ p.final)
    (owner : σ.ledger.owner = id) (phase : Phase id request p object σ)
    (step : MoveStep p id request c fault σ σ')
    (changes : σ'.world.fs ≠ σ.world.fs) : Phase id request p object σ' := by
  obtain ⟨hst, hsf, htf⟩ := apart
  have htaken : ∀ {object'}, σ'.ledger = σ.ledger.take (some object') →
      σ'.ledger.moved id ≠ [] := by
    intro object' hledger
    rw [hledger, Ledger.take, owner]
    simp
  cases step with
  | quiet fs | readDone _ _ fs | lookStaged fs | lookFinal _ _ fs
  | record _ _ _ _ _ _ fs => exact absurd fs changes
  | commit object' _ _ source staged under valid fs state ledger =>
      cases phase with
      | untouched hs ht hf hstate =>
          rw [hs] at source
          cases source
          refine .staged ?_ ?_ ?_ (state ▸ under) (htaken ledger) valid
          · rw [Session.entry, fs, Filesystem.entry_put_ne hst, Filesystem.entry_drop_self]
          · rw [Session.entry, fs, Filesystem.entry_put_self]
          · rw [Session.entry, fs, Filesystem.entry_put_ne htf.symm,
              Filesystem.entry_drop_ne hsf.symm]
            exact hf
      | linked _ ht =>
          rw [ht] at staged
          cases staged
      | staged hs | delivered hs =>
          rw [hs] at source
          cases source
  | link object' _ _ source staged under valid fs state ledger =>
      cases phase with
      | untouched hs ht hf hstate =>
          rw [hs] at source
          cases source
          refine .linked ?_ ?_ ?_ (state ▸ under) (htaken ledger) valid
          · rw [Session.entry, fs, Filesystem.entry_put_ne hst]
            exact hs
          · rw [Session.entry, fs, Filesystem.entry_put_self]
          · rw [Session.entry, fs, Filesystem.entry_put_ne htf.symm]
            exact hf
      | linked _ ht =>
          rw [ht] at staged
          cases staged
      | staged hs | delivered hs =>
          rw [hs] at source
          cases source
  | unlink object' _ source staged _ _ under fs state ledger =>
      cases phase with
      | untouched _ ht =>
          rw [ht] at staged
          cases staged
      | linked hs ht hf hstate taken valid =>
          refine .staged ?_ ?_ ?_ (state ▸ under) (ledger ▸ taken) valid
          · rw [Session.entry, fs, Filesystem.entry_drop_self]
          · rw [Session.entry, fs, Filesystem.entry_drop_ne hst.symm]
            exact ht
          · rw [Session.entry, fs, Filesystem.entry_drop_ne hsf.symm]
            exact hf
      | staged hs | delivered hs =>
          rw [hs] at source
          cases source
  | publish object' _ _ _ source staged _ live fs state ledger =>
      cases phase with
      | untouched hs | linked hs =>
          rw [hs] at source
          cases source
      | staged hs ht hf under taken valid =>
          rw [ht] at staged
          cases staged
          obtain ⟨_, fs⟩ := fs.resolve_left fun h => changes h.2
          refine .delivered ?_ ?_ ?_ ?_ (ledger ▸ taken) valid
          · rw [Session.entry, fs, Filesystem.entry_put_ne hsf, Filesystem.entry_drop_ne hst]
            exact hs
          · rw [Session.entry, fs, Filesystem.entry_put_ne htf, Filesystem.entry_drop_self]
          · rw [Session.entry, fs, Filesystem.entry_put_self]
          · rw [state]
            exact Or.inl (live.resolve_right (not_underway_done under).2)
      | delivered _ ht =>
          rw [ht] at staged
          cases staged

/-- The record follows the names. -/
theorem Phase.recorded (plain : isPlainName request.destName = true)
    (owner : σ.ledger.owner = id) (phase : Phase id request p object σ)
    {old target : JobState} (was : σ.state id = some old)
    (legal : isLegalTransition old target = true) (allowed : Recordable p request σ target)
    (fs : σ'.world.fs = σ.world.fs) (state : σ'.state id = some target)
    (ledger : σ'.ledger = σ.ledger) (faulted : σ.faulted = true → σ'.faulted = true) :
    Phase id request p object σ' := by
  have hentry : ∀ slot, σ'.entry slot = σ.entry slot := by
    intro slot
    rw [Session.entry, fs]
    rfl
  cases target with
  | queued => exact allowed.elim
  | «renaming» =>
      have hold : old = .queued := by
        cases old <;> first | rfl | cases legal
      rw [hold] at was
      cases phase with
      | untouched hs ht hf _ =>
          exact .untouched (by rw [hentry, hs]) (by rw [hentry, ht]) (by rw [hentry, hf])
            (Or.inr state)
      | linked _ _ _ under | staged _ _ _ under =>
          exact absurd was (not_underway_done under).2
      | delivered _ _ _ hstate => simp [was] at hstate
  | transferring =>
      have hold : old = .renaming := by
        cases old <;> first | rfl | cases legal
      rw [hold] at was
      have hgone : σ.entry p.source = none := allowed
      cases phase with
      | untouched hs | linked hs =>
          rw [hs] at hgone
          cases hgone
      | staged hs ht hf _ taken valid =>
          exact .staged (by rw [hentry, hs]) (by rw [hentry, ht]) (by rw [hentry, hf])
            (Or.inr state) (ledger ▸ taken) valid
      | delivered _ _ _ hstate => simp [was] at hstate
  | done =>
      have hold : old = .transferring := by
        cases old <;> first | rfl | cases legal
      rw [hold] at was
      obtain ⟨object', _, hfinal⟩ := allowed
      cases phase with
      | untouched _ _ _ hstate => simp [was] at hstate
      | linked _ _ hf _ taken | staged _ _ hf _ taken =>
          rcases hfinal with h | h
          · rw [hf] at h
            cases h
          · rw [Ledger.own, owner] at h
            exact absurd h taken
      | delivered hs ht hf _ taken valid =>
          exact .delivered (by rw [hentry, hs]) (by rw [hentry, ht]) (by rw [hentry, hf])
            (Or.inr (Or.inl state)) (ledger ▸ taken) valid
  | failed =>
      have hown : σ.ledger.own = σ.ledger.moved id := by rw [Ledger.own, owner]
      rcases allowed with ⟨a, b, hs', ht', hne⟩ | ⟨hs', hnone⟩ | ⟨hs', ht', hwhy⟩
      · cases phase with
        | untouched _ ht | delivered _ ht =>
            rw [ht] at ht'
            cases ht'
        | linked hs ht =>
            exact absurd (Option.some.inj (hs'.symm.trans (hs.trans (ht.symm.trans ht')))) hne
        | staged hs =>
            rw [hs] at hs'
            cases hs'
      · rw [hown] at hnone
        cases phase with
        | untouched hs =>
            rw [hs] at hs'
            cases hs'
        | linked _ _ _ _ taken | staged _ _ _ _ taken | delivered _ _ _ _ taken =>
            exact absurd hnone taken
      · cases phase with
        | untouched hs | linked hs =>
            rw [hs] at hs'
            cases hs'
        | staged _ ht =>
            rw [ht] at ht'
            cases ht'
        | delivered hs ht hf _ taken valid =>
            rcases hwhy with h | h | h
            · rw [hf] at h
              cases h
            · exact .delivered (by rw [hentry, hs]) (by rw [hentry, ht]) (by rw [hentry, hf])
                (Or.inr (Or.inr ⟨state, faulted h⟩)) (ledger ▸ taken) valid
            · rw [plain] at h
              cases h

theorem Progress.step (slate : CleanSlate id request p object w)
    (owner : σ.ledger.owner = id) (inv : Progress id request p object σ)
    (step : MoveStep p id request c fault σ σ')
    (faulted : σ'.faulted = (σ.faulted || fault.isSome)) :
    Progress id request p object σ' := by
  refine ⟨by rw [step.root]; exact inv.placed, by rw [step.fixed.2]; exact inv.regular, ?_⟩
  have hfaulted : σ.faulted = true → σ'.faulted = true := by
    intro h
    rw [faulted, h]
    rfl
  by_cases hfs : σ'.world.fs = σ.world.fs
  · cases step with
    | quiet _ state ledger => exact inv.phase.congr hfs state (by rw [ledger]) hfaulted
    | readDone _ _ _ state ledger =>
        exact inv.phase.congr hfs state (by rw [ledger]; rfl) hfaulted
    | lookStaged _ state ledger => exact inv.phase.congr hfs state (by rw [ledger]) hfaulted
    | lookFinal _ _ _ state ledger =>
        exact inv.phase.congr hfs state (by rw [ledger]; rfl) hfaulted
    | record _ _ _ was legal allowed _ state ledger =>
        exact inv.phase.recorded slate.plainFinal owner was legal allowed hfs state ledger
          hfaulted
    | unlink _ _ _ _ _ _ _ _ state ledger =>
        exact inv.phase.congr hfs state (by rw [ledger]) hfaulted
    | publish _ _ _ _ _ _ _ _ _ state ledger =>
        exact inv.phase.congr hfs state (by rw [ledger]; rfl) hfaulted
    | commit _ _ _ source staged _ _ fs | link _ _ _ source staged _ _ fs =>
        -- these put an object under a name that was free
        have hnone : σ'.entry p.staged = none := by
          rw [Session.entry, hfs]
          exact staged
        rw [Session.entry, fs, Filesystem.entry_put_self] at hnone
        cases hnone
  · exact inv.phase.advance
      ⟨slate.source_ne_staged, slate.source_ne_final, slate.staged_ne_final⟩ owner step hfs

theorem progress_keeps (slate : CleanSlate id request p object w) :
    (redriven id request strategy).Keeps (Progress id request p object) where
  begun _ inv := ⟨inv.placed, inv.regular, inv.phase.congr rfl rfl rfl fun h => h⟩
  step {σ σ' p' id' request' strategy' c fault} hbegins located owner _ step _ faulted inv := by
    obtain ⟨rfl, rfl, rfl⟩ := hbegins
    have hp : p' = p := by
      rcases located with h | ⟨h, _⟩
      · exact Option.some.inj (h.symm.trans inv.placed)
      · rw [inv.placed] at h
        cases h
    rw [hp] at step
    exact inv.step slate owner step faulted
  interfere h _ := h.elim
  undisturbed _ _ _ _ h := h.elim

theorem Phase.exists_job (phase : Phase id request p object σ) :
    ∃ job, (σ.world.db.row id).map (·.job) = some job := by
  have hsome : ∃ state, σ.state id = some state := by
    cases phase with
    | untouched _ _ _ state => exact state.elim (fun h => ⟨_, h⟩) fun h => ⟨_, h⟩
    | linked _ _ _ under | staged _ _ _ under =>
        exact under.elim (fun h => ⟨_, h⟩) fun h => ⟨_, h⟩
    | delivered _ _ _ state =>
        rcases state with h | h | ⟨h, _⟩ <;> exact ⟨_, h⟩
  obtain ⟨state, hstate⟩ := hsome
  obtain ⟨row, hrow, _⟩ := Option.map_eq_some_iff.mp hstate
  exact ⟨row.job, by rw [hrow]; rfl⟩

theorem Phase.not_failed (phase : Phase id request p object σ)
    (free : σ.faulted = false) : σ.state id ≠ some .failed := by
  intro hfailed
  cases phase with
  | untouched _ _ _ state =>
      rw [hfailed] at state
      simp at state
  | linked _ _ _ under | staged _ _ _ under =>
      rw [hfailed] at under
      rcases under with h | h <;> cases h
  | delivered _ _ _ state =>
      rw [hfailed, free] at state
      simp at state

end Phase

/-! ## Recovery without failures -/

/-- Nothing fails. -/
abbrev noFaults : Site → Option Fault := fun _ => none

theorem not_struck {site : Site} : ¬ Struck noFaults site := fun h => h rfl

theorem not_blinded {site : Site} : ¬ Blinded noFaults site := by
  rintro ⟨e, _, h⟩
  cases h

theorem commits_noFaults {strategy : MoveStrategy} {staged : Slot} {w : World}
    (plain : isPlainName staged.name = true) (free : w.fs.entry staged = none) :
    Commits noFaults strategy staged w :=
  ⟨plain, free, fun _ => not_struck, fun _ => ⟨not_struck, not_struck⟩⟩

theorem publishes_noFaults {state : JobState} {destName : Bytes}
    (plain : isPlainName destName = true) : Publishes noFaults state destName :=
  ⟨not_struck, fun _ => ⟨not_struck, not_struck⟩, not_blinded, plain, not_struck, not_struck,
    not_struck⟩

theorem not_leftUnfinished_noFaults : ¬ LeftUnfinished noFaults := by
  rintro (h | h | h) <;> exact not_struck h

/-- How the two probes of `classify_move_state` decide. -/
def moveStateOf : Option Inode → Option Inode → MoveState
  | some a, some b => if a = b then .interrupted else .collision
  | some _, none => .notStarted
  | none, some _ => .completed
  | none, none => .bothMissing

section Clean
variable {α : Type} {P : α × World → Prop} {w : World} {fromDir toDir : Dir}
  {fromName toName : Bytes}

theorem run_classifyMoveState {next : Except Bytes MoveState → Prog α}
    (plainFrom : isPlainName fromName = true) (plainTo : isPlainName toName = true)
    (h : P (run noFaults (next (.ok (moveStateOf (w.fs.entry ⟨fromDir, fromName⟩)
      (w.fs.entry ⟨toDir, toName⟩)))) w)) :
    P (run noFaults ((classifyMoveState fromDir fromName toDir toName).bind next) w) := by
  have hthere : ∀ object, (FileIdentity.ofStat (w.stat object)).kind ≠ .missing :=
    fun object => kindFromMode_ne_missing _
  have hmissing : FileIdentity.missing.kind = .missing := rfl
  unfold classifyMoveState
  rw [Program.bind_def, Program.bind_assoc]
  refine run_classify plainFrom (fun hb => absurd hb not_blinded) ?_ ?_
  · intro _ hfrom
    rw [hfrom] at h
    simp only
    rw [Program.bind_def, Program.bind_assoc]
    refine run_classify plainTo (fun hb => absurd hb not_blinded) ?_ ?_
    · intro _ hto
      rw [hto] at h
      simpa [hmissing, moveStateOf] using h
    · intro _ object hto
      rw [hto] at h
      simpa [hmissing, hthere, moveStateOf] using h
  · intro _ object hfrom
    rw [hfrom] at h
    simp only
    rw [Program.bind_def, Program.bind_assoc]
    refine run_classify plainTo (fun hb => absurd hb not_blinded) ?_ ?_
    · intro _ hto
      rw [hto] at h
      simpa [hmissing, hthere, moveStateOf] using h
    · intro _ object' hto
      rw [hto] at h
      simpa [hthere, moveStateOf, sameObjectAs_iff] using h

end Clean

/-- The move is complete. -/
structure Converged (id : Bytes) (p : Places) (object : Inode)
    (out : MoveResult × World) : Prop where
  completed : out.1.1 = .completed
  done : out.2.db.state id = some .done
  final : out.2.fs.entry p.final = some object
  source : out.2.fs.entry p.source = none
  staged : out.2.fs.entry p.staged = none

section Recover
variable {id : Bytes} {request : MoveRequest} {strategy : MoveStrategy} {p : Places}
  {object : Inode} {w w₀ : World} {sourceDir destDir : Dir} {tick : Int} {error : Bytes}
  {job : Job} {σ : Session}

theorem not_converged {out : MoveResult × World} (h : out.1.1 ≠ .completed) :
    ¬ Converged id p object out := fun c => h c.completed

/-- From the commit on. -/
theorem finishAfterCommit_converges
    (slate : CleanSlate id request (placesIn id request sourceDir destDir) object w₀)
    (source : w.fs.entry ⟨sourceDir, request.sourceName⟩ = none)
    (staged : w.fs.entry ⟨destDir, stagingName id⟩ = some object)
    (regular : w.fs.type object = .reg)
    (final : w.fs.entry ⟨destDir, request.destName⟩ = none)
    (row : (w.db.row id).map (·.job) = some job)
    (under : job.state = .renaming ∨ job.state = .transferring) :
    Converged id (placesIn id request sourceDir destDir) object
      (run noFaults (finishAfterCommit id request destDir tick error) w) := by
  have hfinish : Finished noFaults id job.state ⟨destDir, stagingName id⟩
      ⟨destDir, request.destName⟩ object w
      (run noFaults (finishAfterCommit id request destDir tick error) w) :=
    run_finishAfterCommit row under slate.plainStaged staged regular final
  revert hfinish
  generalize run noFaults (finishAfterCommit id request destDir tick error) w = out
  intro hfinish
  cases hfinish with
  | stuck _ not => exact absurd (publishes_noFaults slate.plainFinal) not
  | unfinished _ left => exact absurd left not_leftUnfinished_noFaults
  | done _ _ recorded =>
      refine ⟨rfl, recorded, Filesystem.entry_put_self, ?_, ?_⟩
      · rw [Filesystem.entry_put_ne slate.source_ne_final,
          Filesystem.entry_drop_ne slate.source_ne_staged]
        exact source
      · rw [Filesystem.entry_put_ne slate.staged_ne_final, Filesystem.entry_drop_self]

/-- From the validation on. -/
theorem commitAndFinish_converges
    (slate : CleanSlate id request (placesIn id request sourceDir destDir) object w₀)
    (source : w.fs.entry ⟨sourceDir, request.sourceName⟩ = some object)
    (staged : w.fs.entry ⟨destDir, stagingName id⟩ = none)
    (regular : w.fs.type object = .reg)
    (final : w.fs.entry ⟨destDir, request.destName⟩ = none)
    (row : (w.db.row id).map (·.job) = some job)
    (under : job.state = .renaming ∨ job.state = .transferring) :
    Converged id (placesIn id request sourceDir destDir) object
      (run noFaults
        (commitAndFinish id request strategy sourceDir destDir tick error) w) := by
  have commits : Commits noFaults strategy ⟨destDir, stagingName id⟩ w :=
    commits_noFaults slate.plainStaged staged
  refine run_moveWithin slate.plainSource source regular
    (fun refused => absurd refused commits.not_refused.1)
    (fun half => absurd half commits.not_refused.2) fun _ => ?_
  refine finishAfterCommit_converges slate ?_ Filesystem.entry_put_self regular ?_ row under
  · rw [Filesystem.entry_put_ne slate.source_ne_staged, Filesystem.entry_drop_self]
  · rw [Filesystem.entry_put_ne slate.staged_ne_final.symm,
      Filesystem.entry_drop_ne slate.source_ne_final.symm]
    exact final

theorem execute_converges_iff
    (slate : CleanSlate id request (placesIn id request sourceDir destDir) object w₀)
    (hs : w.fs.root (cstr request.sourceDir) = some sourceDir)
    (hd : w.fs.root (cstr request.destDir) = some destDir)
    (source : w.fs.entry ⟨sourceDir, request.sourceName⟩ = some object)
    (staged : w.fs.entry ⟨destDir, stagingName id⟩ = none)
    (regular : w.fs.type object = .reg)
    (final : w.fs.entry ⟨destDir, request.destName⟩ = none)
    (row : (w.db.row id).map (·.job) = some job)
    (going : job.state = .queued ∨ job.state = .renaming) :
    Converged id (placesIn id request sourceDir destDir) object
      (run noFaults (execute id request strategy) w) ↔ ValidDirs request := by
  have hadmitted : ValidDirs request →
      Admitted noFaults id request w job sourceDir destDir object := fun valid =>
    ⟨valid, not_struck, row, not_struck, hs, not_struck, hd, slate.plainSource, not_blinded,
      source, regular, not_struck, not_struck⟩
  refine run_validate (P := fun out => Converged id _ object out ↔ _) ?_ ?_
  · intro refused m
    refine iff_of_false (not_converged (by simp)) fun valid => ?_
    exact refused _ _ _ _ (hadmitted valid)
  intro job' sourceDir' destDir' object' error admitted
  obtain ⟨rfl, rfl, rfl, rfl⟩ := (hadmitted admitted.valid).unique admitted
  refine iff_of_true ?_ admitted.valid
  rcases going with hqueued | hren
  · simp only [hqueued, reduceCtorEq, if_true, if_false]
    refine run_recordTransition row (by rw [hqueued]; rfl) (by decide) ?_ ?_
    · rintro (h | h) <;> exact absurd h not_struck
    · intro _ _ db' hdb
      obtain ⟨row', hrow', hstate⟩ := Option.map_eq_some_iff.mp hdb
      exact commitAndFinish_converges (w := { w with db := db' }) slate source staged regular
        final (Option.map_eq_some_iff.mpr ⟨row', hrow', rfl⟩) (Or.inl hstate)
  · simp only [hren, reduceCtorEq, if_false]
    exact commitAndFinish_converges slate source staged regular final row (Or.inl hren)

/-- After the publishing rename only the record is missing. -/
theorem finishAfterCommit_delivered_iff
    (slate : CleanSlate id request (placesIn id request sourceDir destDir) object w₀)
    (source : w.fs.entry ⟨sourceDir, request.sourceName⟩ = none)
    (staged : w.fs.entry ⟨destDir, stagingName id⟩ = none)
    (final : w.fs.entry ⟨destDir, request.destName⟩ = some object)
    (row : (w.db.row id).map (·.job) = some job)
    (state : job.state = .transferring ∨ job.state = .done ∨ job.state = .failed) :
    Converged id (placesIn id request sourceDir destDir) object
      (run noFaults (finishAfterCommit id request destDir tick error) w) ↔
        job.state ≠ .failed := by
  refine run_load (P := fun out => Converged id _ object out ↔ _)
    (fun struck => absurd struck not_struck) ?_
  intro _
  rw [row]
  rcases state with htrans | hdone | hfailed
  · refine iff_of_true ?_ (by rw [htrans]; decide)
    simp only [htrans, reduceCtorEq, if_false]
    refine run_sawEntry slate.plainStaged (fun hb => absurd hb not_blinded) fun _ => ?_
    refine run_sawEntry slate.plainFinal (fun hb => absurd hb not_blinded) fun _ => ?_
    simp only [staged, final, Option.isSome_none, Option.isSome_some, Bool.false_eq_true,
      if_true, if_false]
    refine run_recordDone row htrans ?_ ?_
    · rintro (h | h) <;> exact absurd h not_struck
    · intro _ _ db' hdb
      exact ⟨rfl, hdb, final, source, staged⟩
  · refine iff_of_true ?_ (by rw [hdone]; decide)
    simp only [hdone, if_true]
    exact ⟨rfl, hdone ▸ Database.state_of_row row, final, source, staged⟩
  · simp only [hfailed, reduceCtorEq, if_true, if_false]
    exact iff_of_false (not_converged (by simp)) (by simp)

/-- A recovery that is left alone completes the move unless phase 1 refuses the
directories, both names are on the object, or the record has become FAILED. -/
theorem recover_converges_iff (slate : CleanSlate id request p object w₀)
    (inv : Progress id request p object σ) :
    Converged id p object (run noFaults (recover id request strategy) σ.world) ↔
      ValidDirs request ∧
      ¬ (σ.entry p.source = some object ∧ σ.entry p.staged = some object) ∧
      σ.state id ≠ some .failed := by
  obtain ⟨sourceDir, destDir, hs, hd, rfl⟩ := placesOf_eq_some inv.placed
  have hopen : ∀ {site : Site} {path : Bytes} {dir : Dir},
      σ.world.fs.root (cstr path) = some dir →
      ¬ (Struck noFaults site ∨ σ.world.fs.root (cstr path) = none) := by
    rintro site path dir hdir (h | h)
    · exact not_struck h
    · rw [hdir] at h
      cases h
  refine run_openRoot (P := fun out => Converged id _ object out ↔ _)
    (fun why => absurd why (hopen hs)) fun _ sourceDir' hs' => ?_
  cases hs.symm.trans hs'
  refine run_openRoot (P := fun out => Converged id _ object out ↔ _)
    (fun why => absurd why (hopen hd)) fun _ destDir' hd' => ?_
  cases hd.symm.trans hd'
  refine run_classifyMoveState (P := fun out => Converged id _ object out ↔ _)
    slate.plainSource slate.plainStaged ?_
  refine run_load (P := fun out => Converged id _ object out ↔ _)
    (fun struck => absurd struck not_struck) fun _ => ?_
  obtain ⟨job, row⟩ := inv.phase.exists_job
  have hstate : σ.state id = some job.state := Database.state_of_row row
  rw [row]
  cases inv.phase with
  | untouched source staged final state =>
      have hgoing : job.state = .queued ∨ job.state = .renaming := by
        rw [hstate] at state
        exact state.imp Option.some.inj Option.some.inj
      have hsource : σ.world.fs.entry ⟨sourceDir, request.sourceName⟩ = some object := source
      have hstaged : σ.world.fs.entry ⟨destDir, stagingName id⟩ = none := staged
      rw [hsource, hstaged]
      refine (execute_converges_iff slate hs hd source staged inv.regular final row
        hgoing).trans ?_
      rw [staged, hstate]
      rcases hgoing with h | h <;> simp [h]
  | linked source staged final under taken valid =>
      have hsource : σ.world.fs.entry ⟨sourceDir, request.sourceName⟩ = some object := source
      have hstaged : σ.world.fs.entry ⟨destDir, stagingName id⟩ = some object := staged
      refine iff_of_false ?_ fun h => h.2.1 ⟨source, staged⟩
      rw [hsource, hstaged]
      simp only [moveStateOf, if_true, redrive]
      refine run_moveWithin (P := fun out => ¬ Converged id _ object out)
        slate.plainSource source inv.regular ?_ ?_ ?_
      · intro _ m
        exact run_haltWith (P := fun out => ¬ Converged id _ object out)
          fun db' => not_converged (by simp)
      · intro half
        rw [half.2.2.1] at hstaged
        cases hstaged
      · intro commits
        rw [commits.2.1] at hstaged
        cases hstaged
  | staged source staged final under taken valid =>
      have hsource : σ.world.fs.entry ⟨sourceDir, request.sourceName⟩ = none := source
      have hstaged : σ.world.fs.entry ⟨destDir, stagingName id⟩ = some object := staged
      have hunder : job.state = .renaming ∨ job.state = .transferring := by
        rw [hstate] at under
        exact under.imp Option.some.inj Option.some.inj
      rw [hsource, hstaged]
      refine iff_of_true ?_ ⟨valid, ?_, ?_⟩
      · exact finishAfterCommit_converges slate source staged inv.regular final row hunder
      · rw [source]
        simp
      · rw [hstate]
        rcases hunder with h | h <;> simp [h]
  | delivered source staged final state taken valid =>
      have hsource : σ.world.fs.entry ⟨sourceDir, request.sourceName⟩ = none := source
      have hstaged : σ.world.fs.entry ⟨destDir, stagingName id⟩ = none := staged
      have hfinal : σ.world.fs.entry ⟨destDir, request.destName⟩ = some object := final
      have hjob : job.state = .transferring ∨ job.state = .done ∨ job.state = .failed := by
        rw [hstate] at state
        exact state.imp Option.some.inj
          (Or.imp Option.some.inj fun h => Option.some.inj h.1)
      rw [hsource, hstaged]
      refine run_sawEntry (P := fun out => Converged id _ object out ↔ _) slate.plainFinal
        (fun hb => absurd hb not_blinded) fun _ => ?_
      rw [hfinal]
      refine (finishAfterCommit_delivered_iff slate source staged final row hjob).trans ?_
      rw [source, hstate]
      simp [valid]

end Recover

/-- Crash recovery. A job with nothing in its way is driven by any number of runs,
each abandoned wherever it may be. A last recovery, during which nothing fails,
completes the move just if the directories pass phase 1, no run was abandoned between
the link and the unlink, and the record has not become FAILED; the last needs a call
that failed. -/
theorem recovery_converges_iff (id : Bytes) (request : MoveRequest)
    (strategy : MoveStrategy) (p : Places) (object : Inode) (w : World)
    (slate : CleanSlate id request p object w) (d : Drive)
    (reach : Drive.Reach (redriven id request strategy) ⟨Session.start w, none⟩ d) :
    (Converged id p object
        (run noFaults (recover id request strategy) d.session.world) ↔
      ValidDirs request ∧
      ¬ (d.session.entry p.source = some object ∧ d.session.entry p.staged = some object) ∧
      d.session.state id ≠ some .failed) ∧
    (d.session.faulted = false → d.session.state id ≠ some .failed) := by
  have init : Progress id request p object (Session.start w) :=
    ⟨slate.placed, slate.regular,
      .untouched slate.source slate.staged slate.final (Or.inl slate.queued)⟩
  obtain ⟨inv, _⟩ := (progress_keeps slate).reach init reach
  exact ⟨recover_converges_iff slate inv, inv.phase.not_failed⟩

/-! The sample job, begun and abandoned after some calls. -/

def samplePlaces : Places := placesIn (lit "j") sampleRequest 1 2

theorem sample_cleanSlate :
    CleanSlate (lit "j") sampleRequest samplePlaces ⟨0, 7⟩
      (sampleWorld .queued [sampleSource]) := by
  constructor <;> decide

/-- The sample job after this many calls of `execute`. -/
def sampleAbandoned (strategy : MoveStrategy) (calls : Nat) : Drive where
  session :=
    ((execute (lit "j") sampleRequest strategy).advance sessionMachine (fun _ => none) calls
      ((Session.start (sampleWorld .queued [sampleSource])).begun (lit "j")
        sampleRequest)).2
  active := none

theorem sampleAbandoned_reach (strategy : MoveStrategy) (calls : Nat) :
    Drive.Reach (redriven (lit "j") sampleRequest strategy)
      ⟨Session.start (sampleWorld .queued [sampleSource]), none⟩
      (sampleAbandoned strategy calls) := by
  refine .head (.begin .execute (lit "j") sampleRequest strategy ⟨rfl, rfl, rfl⟩) ?_
  exact .tail (Drive.reach_advance (fun _ _ _ => trivial) (fun _ => none) calls _ _) .stop

/-- Abandoned right after the commit, the sample job is completed by `recover`. -/
theorem recovery_converges_sample :
    Converged (lit "j") samplePlaces ⟨0, 7⟩
      (run noFaults (recover (lit "j") sampleRequest .renameNoReplace)
        (sampleAbandoned .renameNoReplace 10).session.world) :=
  (recovery_converges_iff (lit "j") sampleRequest .renameNoReplace samplePlaces ⟨0, 7⟩ _
    sample_cleanSlate _ (sampleAbandoned_reach .renameNoReplace 10)).1.mpr
      ⟨by decide, by decide, by decide⟩

/-- Abandoned between the link and the unlink, it is not. -/
theorem interrupted_link_never_recovers :
    ¬ ∀ id request strategy p object w, CleanSlate id request p object w →
      ValidDirs request → ∀ d,
      Drive.Reach (redriven id request strategy) ⟨Session.start w, none⟩ d →
      d.session.faulted = false →
      Converged id p object
        (run noFaults (recover id request strategy) d.session.world) := by
  intro h
  have hconverged := h (lit "j") sampleRequest .linkThenUnlink samplePlaces ⟨0, 7⟩ _
    sample_cleanSlate (by decide) _ (sampleAbandoned_reach .linkThenUnlink 10) (by decide)
  have hcompleted := hconverged.completed
  revert hcompleted
  decide

end FileMover
