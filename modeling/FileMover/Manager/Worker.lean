import FileMover.Model.Manager
import FileMover.Store.Rules

/-!
# What a worker leaves behind

A worker alone has its job, but not its row: a `cancel` that was admitted earlier may
still make the row FAILED between any two of the worker's statements. Proved here, for
a store that works: when the worker is done with a job that is not to run again, the row
is no longer QUEUED or RENAMING.

That rests on every refusal of the engine coming with a text that the store accepts as
the reason of a FAILED row.
-/

namespace FileMover

open Framework

/-! ## Refusals are explained -/

/-- Whatever error there is says something. -/
def Explained {α : Type} (result : Except Bytes α) : Prop :=
  ∀ message, result = .error message → Explains message

section Explained
variable {α : Type} {site : Site} {dir : Dir} {name path : Bytes}

theorem explained_ok (value : α) : Explained (.ok value : Except Bytes α) := nofun

theorem explained_error {message : Bytes} (h : Explains message) :
    Explained (.error message : Except Bytes α) := by
  rintro _ ⟨⟩
  exact h

theorem explains_errnoMessage (what : Bytes) (e : Errno) : Explains (errnoMessage what e) := by
  have hstart : Explains (lit "fsops: ") := by decide
  unfold errnoMessage
  exact (((hstart.append _).append _).append _)

theorem explained_validateExternalPath : Explained (validateExternalPath path) := by
  have hstart : Explains (lit "path ") := by decide
  unfold validateExternalPath
  split
  · exact explained_error (by decide)
  split
  · exact explained_error ((hstart.append _).append _)
  split
  · refine explained_error (((Explains.append ?_ _).append _).append _)
    decide
  split
  · exact explained_error ((hstart.append _).append _)
  · exact explained_ok ()

theorem explained_rejectBadName : Explained (rejectBadName name) := by
  have hstart : Explains (lit "fsops: ") := by decide
  unfold rejectBadName
  split
  · exact explained_ok ()
  · exact explained_error ((hstart.append _).append _)

theorem openRoot_explained : (openRoot site path).Returns Explained := by
  intro reply
  cases reply with
  | ok found => exact explained_ok found
  | error e => exact explained_error (explains_errnoMessage _ e)

theorem classify_explained : (classify site dir name).Returns Explained := by
  cases hplain : isPlainName name with
  | false =>
      have hbad : Explained (rejectBadName name) := explained_rejectBadName
      rw [rejectBadName_bad hplain] at hbad
      rw [classify_bad hplain]
      exact explained_error (hbad _ rfl)
  | true =>
      rw [classify_plain hplain]
      intro reply
      cases reply with
      | ok st => exact explained_ok _
      | error e =>
          change Explained (if e = ENOENT then .ok FileIdentity.missing else _)
          split
          · exact explained_ok _
          · exact explained_error (explains_errnoMessage _ e)

theorem openRegular_explained {expected : FileIdentity} :
    (openRegular dir name expected).Returns Explained := by
  have hstart : Explains (lit "fsops: ") := by decide
  have hrefusing : Explains (lit "fsops: refusing to open ") := by decide
  unfold openRegular
  cases hplain : isPlainName name with
  | false =>
      have hbad : Explained (rejectBadName name) := explained_rejectBadName
      rw [rejectBadName_bad hplain] at hbad ⊢
      exact explained_error (hbad _ rfl)
  | true =>
      rw [rejectBadName_plain hplain]
      simp only
      split
      · exact explained_error ((((hrefusing.append _).append _).append _).append _)
      intro reply
      match reply with
      | .error e =>
          change Program.Returns Explained (if e = ELOOP then _ else _)
          split
          · exact explained_error ((hrefusing.append _).append _)
          · exact explained_error (explains_errnoMessage _ e)
      | .ok fd =>
          intro reply
          match reply with
          | .error e => exact explained_error (explains_errnoMessage _ e)
          | .ok st =>
              change Program.Returns Explained
                (if (FileIdentity.ofStat st).sameObjectAs expected = true then _ else _)
              split
              · exact explained_ok ()
              · refine explained_error ?_
                iterate 15 refine Explains.append ?_ _
                exact hstart

end Explained

/-! ## The row of a job that one worker has -/

/-- The environment may make the row FAILED and nothing else. The store works. -/
def workerContract (id : Bytes) : Contract Call Fault World where
  rely w w' := w'.db.state id = w.db.state id ∨ w'.db.state id = some .failed
  rely_refl _ := Or.inl rfl
  rely_trans := by
    rintro a b c (hab | hab) (hbc | hbc)
    · exact Or.inl (hbc.trans hab)
    · exact Or.inr hbc
    · exact Or.inr (hbc.trans hab)
    · exact Or.inr hbc
  assume c fault _ := c.op.onStore = true → fault = none
  guarantee _ _ _ _ := True

/-- The row is in one of these states, or FAILED. -/
def Among (id : Bytes) (S : JobState → Prop) (w : World) : Prop :=
  ∃ x, w.db.state id = some x ∧ (S x ∨ x = .failed)

/-- Neither QUEUED nor RENAMING. -/
def Resolved (x : JobState) : Prop := x ≠ .queued ∧ x ≠ .renaming

section Rows
variable {α : Type} {id reason message : Bytes} {w w' : World} {S S' : JobState → Prop}
  {target : JobState} {nowMs : Int}

theorem Among.stable (h : Among id S w) (rely : (workerContract id).rely w w') :
    Among id S w' := by
  obtain ⟨x, hx, hS⟩ := h
  rcases rely with hsame | hfailed
  · exact ⟨x, hsame.trans hx, hS⟩
  · exact ⟨.failed, hfailed, Or.inr rfl⟩

theorem Among.mono (h : Among id S w) (implies : ∀ x, S x → S' x) : Among id S' w := by
  obtain ⟨x, hx, hS⟩ := h
  exact ⟨x, hx, hS.imp_left (implies x)⟩

theorem Among.present (h : Among id S w) (rely : (workerContract id).rely w w') :
    w'.db.state id ≠ none := by
  obtain ⟨x, hx, _⟩ := h.stable rely
  rw [hx]
  nofun

theorem among_of_failed (h : w.db.state id = some .failed) : Among id S w :=
  ⟨.failed, h, Or.inr rfl⟩

theorem among_self {x : JobState} (h : w.db.state id = some x) : Among id (· = x) w :=
  ⟨x, h, Or.inl rfl⟩

theorem worker_silent {program : Prog α} {Q : α → Prop}
    (uses : program.Uses fun c => c.op.writesState = false) (returns : program.Returns Q)
    (h : Among id S w) :
    program.Safe machine (workerContract id) (fun value w' => Q value ∧ Among id S w') w := by
  refine Program.Safe.of_uses uses returns (fun rely h => h.stable rely) ?_ h
  intro c hsilent fault w _ hamong
  obtain ⟨x, hx, hS⟩ := hamong
  refine ⟨trivial, x, ?_, hS⟩
  exact (perform_state hsilent fault w id).trans hx

theorem worker_load {site : Site} (h : Among id S w) :
    (load site id).Safe machine (workerContract id) (fun loaded w' => ∃ job : Job,
      loaded = .ok (some job) ∧ (S job.state ∨ job.state = .failed) ∧
        Among id (· = job.state) w') w := by
  refine (safe_load_up (fun _ _ _ h => h) (fun _ _ _ _ => trivial) fun _ => h.present).weaken ?_
  rintro _ w₂ ⟨r, w₁, rfl, hw, hrow, hw'⟩
  have hstate : w₁.db.state id = some r.job.state := by
    rw [Database.state, hrow]
    rfl
  obtain ⟨x, hx, hS⟩ := h.stable hw
  have hx' : x = r.job.state := Option.some.inj (hx.symm.trans hstate)
  rw [hx'] at hS
  exact ⟨r.job, rfl, hS, (among_self hstate).stable hw'⟩

/-- A refused transition leaves the row in a state that it is illegal from. -/
theorem worker_updateState (h : Among id S w) (fits : target = .failed ↔ message ≠ [])
    (explains : target = .failed → Explains message) :
    (updateState id target nowMs message).Safe machine (workerContract id) (fun result w' =>
      (result = .ok () ∧ Among id (· = target) w') ∨
        ((∃ e, result = .error e) ∧
          Among id (fun x => (S x ∨ x = .failed) ∧ isLegalTransition x target = false) w')) w := by
  refine (safe_updateState (fun _ _ _ h => h) (fun _ _ _ _ => trivial) (fun _ => h.present)
    explains).weaken ?_
  rintro result w' (⟨rfl, w₁, hstate, hw'⟩ | ⟨herror, job, w₁, hw, hstate, htrans, hw'⟩)
  · exact Or.inl ⟨rfl, (among_self hstate).stable hw'⟩
  · refine Or.inr ⟨herror, ?_⟩
    obtain ⟨x, hx, hS⟩ := h.stable hw
    have hx' : x = job.state := Option.some.inj (hx.symm.trans hstate)
    rw [hx'] at hS
    have hillegal := Job.illegal_of_transition htrans fits
    exact Among.stable ⟨job.state, hstate, Or.inl ⟨hS, hillegal⟩⟩ hw'

theorem worker_recordTransition {phase : CommitPhase} (h : Among id S w)
    (advances : target ≠ .failed) :
    (recordTransition id target nowMs [] phase).Safe machine (workerContract id)
      (fun result w' =>
        (result = .ok () ∧ Among id (· = target) w') ∨
          ((∃ action e, result = .error (action, e)) ∧
            Among id (fun x => (S x ∨ x = .failed) ∧ isLegalTransition x target = false) w'))
      w := by
  refine (worker_updateState h (by simp [advances]) (fun h => absurd h advances)).bind ?_
  rintro result w' (⟨rfl, hamong⟩ | ⟨⟨e, rfl⟩, hamong⟩)
  · exact fun w'' hw => Or.inl ⟨rfl, hamong.stable hw⟩
  · exact fun w'' hw => Or.inr ⟨⟨_, _, rfl⟩, hamong.stable hw⟩

end Rows

/-! ## The engine -/

section Engine
variable {id : Bytes} {request : MoveRequest} {w : World} {S : JobState → Prop}
  {destDir : Dir} {tick : Int} {error : Bytes}

/-- The calls of phase 1 write no state. -/
theorem silent_of_readOnly {site : Site} {op : Op} (h : op.readOnly = true) :
    (Call.mk site op).op.writesState = false := by
  cases op with
  | insertJob | updateJob => cases h
  | _ => rfl

theorem worker_haltWith {outcome : MoveOutcome} (h : Among id S w) :
    (haltWith id outcome error).Safe machine (workerContract id)
      (fun result w' => result.1 = outcome ∧ Among id S w') w := by
  have hreturns : (haltWith id outcome error).Returns fun result => result.1 = outcome :=
    (Program.returns_true _).bind fun _ _ => rfl
  exact worker_silent (uses_haltWith fun _ => rfl) hreturns h

/-- Past the commit point nothing is refused or aborted any more. -/
def Concluded (id : Bytes) (result : MoveResult) (w : World) : Prop :=
  (result.1 ≠ .rejected ∧ result.1 ≠ .abortedBeforeCommit) ∧ Among id Resolved w

theorem worker_halted {outcome : MoveOutcome} (h : Among id Resolved w)
    (late : outcome ≠ .rejected ∧ outcome ≠ .abortedBeforeCommit) :
    (haltWith id outcome error).Safe machine (workerContract id) (Concluded id) w := by
  refine (worker_haltWith h).weaken ?_
  rintro result w' ⟨houtcome, hamong⟩
  refine ⟨?_, hamong⟩
  rw [houtcome]
  exact late

theorem worker_recordDone (h : Among id Resolved w) :
    (recordDone id tick error).Safe machine (workerContract id) (Concluded id) w := by
  refine (worker_recordTransition h (by decide)).bind ?_
  rintro result w' (⟨rfl, hamong⟩ | ⟨⟨action, e, rfl⟩, hamong⟩)
  · intro w'' hw
    refine ⟨⟨nofun, nofun⟩, (hamong.stable hw).mono ?_⟩
    rintro x rfl
    exact ⟨nofun, nofun⟩
  · refine worker_halted (hamong.mono ?_) ⟨nofun, nofun⟩
    rintro x ⟨hresolved | rfl, _⟩
    · exact hresolved
    · exact ⟨nofun, nofun⟩

theorem worker_publishAndRecord (h : Among id Resolved w) :
    (publishAndRecord id request destDir tick error).Safe machine (workerContract id)
      (Concluded id) w := by
  have hpublish : ∀ dir temp final,
      (publish dir temp final).Uses fun c => c.op.writesState = false :=
    fun dir temp final => uses_publish (fun _ _ h _ => silent_of_readOnly h) rfl
  refine (worker_silent (uses_sawEntry rfl) (Program.returns_true _) h).bind ?_
  rintro sawStaged w₁ ⟨-, h₁⟩
  refine (worker_silent (uses_sawEntry rfl) (Program.returns_true _) h₁).bind ?_
  rintro sawFinal w₂ ⟨-, h₂⟩
  cases sawStaged with
  | true =>
      refine (worker_silent (hpublish _ _ _) (Program.returns_true _) h₂).bind ?_
      rintro result w₃ ⟨-, h₃⟩
      cases result with
      | error message => exact worker_halted h₃ ⟨nofun, nofun⟩
      | ok _ => exact worker_recordDone h₃
  | false =>
      cases sawFinal with
      | true => exact worker_recordDone h₂
      | false => exact worker_halted h₂ ⟨nofun, nofun⟩

theorem worker_finishAfterCommit (h : Among id (fun x => x ≠ .queued) w) :
    (finishAfterCommit id request destDir tick error).Safe machine (workerContract id)
      (Concluded id) w := by
  refine (worker_load h).bind ?_
  rintro _ w₁ ⟨job, rfl, hstate, h₁⟩
  have hqueued : job.state ≠ .queued := by
    rcases hstate with hstate | hstate
    · exact hstate
    · rw [hstate]
      nofun
  simp only
  split
  · rename_i hdone
    intro w₂ hw
    refine ⟨⟨nofun, nofun⟩, (h₁.stable hw).mono ?_⟩
    rintro x rfl
    rw [hdone]
    exact ⟨nofun, nofun⟩
  split
  · rename_i hfailed
    intro w₂ hw
    refine ⟨⟨nofun, nofun⟩, (h₁.stable hw).mono ?_⟩
    rintro x rfl
    rw [hfailed]
    exact ⟨nofun, nofun⟩
  split
  · rename_i hrenaming
    refine (worker_recordTransition h₁ (by decide)).bind ?_
    rintro result w₂ (⟨rfl, h₂⟩ | ⟨⟨action, e, rfl⟩, h₂⟩)
    · refine worker_publishAndRecord (h₂.mono ?_)
      rintro x rfl
      exact ⟨nofun, nofun⟩
    · -- from RENAMING the edge is legal, so the row has become FAILED
      refine worker_halted (h₂.mono ?_) ⟨nofun, nofun⟩
      rintro x ⟨rfl | rfl, hillegal⟩
      · rw [hrenaming] at hillegal
        cases hillegal
      · exact ⟨nofun, nofun⟩
  · rename_i hrenaming
    refine worker_publishAndRecord (h₁.mono ?_)
    rintro x rfl
    exact ⟨hqueued, hrenaming⟩

/-- What phase 1 yields: a refusal with a reason, or the job as it was read. -/
def Validated (id : Bytes) (S : JobState → Prop) (result : Except Bytes (Job × Dir × Dir × Bytes))
    (w : World) : Prop :=
  Explained result ∧ Among id S w ∧ ∀ job rest, result = .ok (job, rest) →
    Among id (· = job.state) w

theorem worker_refused {message : Bytes} (h : Among id S w) (explains : Explains message) :
    (Program.pure (.error message) : Prog (Except Bytes (Job × Dir × Dir × Bytes))).Safe machine
      (workerContract id) (Validated id S) w :=
  fun _ hw => ⟨explained_error explains, h.stable hw, nofun⟩

theorem worker_validate (h : Among id S w) :
    (validate id request).Safe machine (workerContract id) (Validated id S) w := by
  have hmover : Explains (lit "mover: source ") ∧ Explains (lit "mover: refusing ") := by decide
  unfold validate
  split
  · rename_i message hsource
    exact worker_refused h (explained_validateExternalPath message hsource)
  · rename_i message _ hdest
    exact worker_refused h (explained_validateExternalPath message hdest)
  refine (worker_load h).bind ?_
  rintro _ w₁ ⟨job, rfl, hstate, h₁⟩
  -- from here on the row is as it was read, or FAILED; either way still among `S`
  have hback : ∀ {w'}, Among id (· = job.state) w' → Among id S w' := by
    rintro w' ⟨x, hx, rfl | rfl⟩
    · rcases hstate with hS | hfailed
      · exact ⟨_, hx, Or.inl hS⟩
      · exact ⟨_, hx, Or.inr hfailed⟩
    · exact among_of_failed hx
  have hreads : ∀ (site : Site) (op : Op), op.readOnly = true →
      (Call.mk site op).op.writesState = false := fun _ _ h => silent_of_readOnly h
  refine (worker_silent (uses_openRoot rfl) openRoot_explained h₁).bind ?_
  rintro source w₂ ⟨hexplained, h₂⟩
  cases source with
  | error message => exact worker_refused (hback h₂) (hexplained message rfl)
  | ok sourceDir =>
  refine (worker_silent (uses_openRoot rfl) openRoot_explained h₂).bind ?_
  rintro dest w₃ ⟨hexplained, h₃⟩
  cases dest with
  | error message => exact worker_refused (hback h₃) (hexplained message rfl)
  | ok destDir =>
  refine (worker_silent (uses_classify rfl) classify_explained h₃).bind ?_
  rintro probed w₄ ⟨hexplained, h₄⟩
  cases probed with
  | error message => exact worker_refused (hback h₄) (hexplained message rfl)
  | ok sourceId =>
  simp only
  split
  · exact worker_refused (hback h₄) ((hmover.1.append _).append _)
  split
  · exact worker_refused (hback h₄) ((((hmover.2.append _).append _).append _).append _)
  refine (worker_silent (uses_openRegular fun _ _ h _ => hreads _ _ h)
    openRegular_explained h₄).bind ?_
  rintro opened w₅ ⟨hexplained, h₅⟩
  cases opened with
  | error message => exact worker_refused (hback h₅) (hexplained message rfl)
  | ok _ =>
  refine (worker_silent (uses_classify rfl) (Program.returns_true _) h₅).bind ?_
  rintro probed w₆ ⟨-, h₆⟩
  have hdone : ∀ error, (Program.pure (.ok (job, sourceDir, destDir, error)) :
      Prog (Except Bytes (Job × Dir × Dir × Bytes))).Safe machine (workerContract id)
        (Validated id S) w₆ := by
    intro error w₇ hw
    refine ⟨explained_ok _, hback (h₆.stable hw), ?_⟩
    rintro job' rest hok
    cases hok
    exact h₆.stable hw
  cases probed with
  | error message => exact hdone message
  | ok _ => exact hdone []

/-- How a worker finds the row after `execute`. -/
def Executed (id : Bytes) (result : MoveResult) (w : World) : Prop :=
  Among id (fun _ => True) w ∧ (result.1 = .rejected → Explains result.2) ∧
    (result.1 ≠ .rejected → result.1 ≠ .abortedBeforeCommit → Among id Resolved w)

theorem Concluded.executed {result : MoveResult} (h : Concluded id result w) :
    Executed id result w :=
  ⟨h.2.mono fun _ _ => trivial, fun hrejected => absurd hrejected h.1.1, fun _ _ => h.2⟩

theorem worker_commitAndFinish {strategy : MoveStrategy} {sourceDir : Dir}
    (h : Among id (fun x => x ≠ .queued) w) :
    (commitAndFinish id request strategy sourceDir destDir tick error).Safe machine
      (workerContract id) (Executed id) w := by
  refine (worker_silent (uses_moveWithin rfl rfl rfl) (Program.returns_true _) h).bind ?_
  rintro moved w₁ ⟨-, h₁⟩
  cases moved with
  | error message =>
      intro w₂ hw
      exact ⟨(h₁.stable hw).mono fun _ _ => trivial, nofun, fun _ haborted => absurd rfl haborted⟩
  | ok _ => exact (worker_finishAfterCommit h₁).weaken fun _ _ h => h.executed

theorem worker_execute {strategy : MoveStrategy} (h : Among id (fun _ => True) w) :
    (execute id request strategy).Safe machine (workerContract id) (Executed id) w := by
  refine (worker_validate h).bind ?_
  rintro result w₁ ⟨hexplained, h₁, hread⟩
  match result with
  | .error message =>
      intro w₂ hw
      exact ⟨h₁.stable hw, fun _ => hexplained message rfl, fun hrejected => absurd rfl hrejected⟩
  | .ok (job, sourceDir, destDir, error) =>
      have hjob : Among id (· = job.state) w₁ := hread job _ rfl
      simp only
      split
      · rename_i hdone
        intro w₂ hw
        refine ⟨h₁.stable hw, nofun, fun _ _ => (hjob.stable hw).mono ?_⟩
        rintro x rfl
        rw [hdone]
        exact ⟨nofun, nofun⟩
      split
      · intro w₂ hw
        refine ⟨h₁.stable hw, fun _ => ?_, fun hrejected => absurd rfl hrejected⟩
        have hstart : Explains (lit "mover: job ") := by decide
        exact (hstart.append _).append _
      split
      · refine (worker_recordTransition hjob (by decide)).bind ?_
        rintro result w₂ (⟨rfl, h₂⟩ | ⟨⟨action, e, rfl⟩, h₂⟩)
        · refine worker_commitAndFinish (h₂.mono ?_)
          rintro x rfl
          nofun
        · intro w₃ hw
          exact ⟨(h₂.stable hw).mono fun _ _ => trivial, nofun,
            fun _ haborted => absurd rfl haborted⟩
      · rename_i hqueued
        refine worker_commitAndFinish (hjob.mono ?_)
        rintro x rfl
        exact hqueued

end Engine

/-! ## After the engine -/

section After
variable {id reason : Bytes} {w : World} {nowMs : Int}

theorem worker_failPermanently (h : Among id (fun _ => True) w) (explains : Explains reason) :
    (failPermanently id reason).Safe machine (workerContract id)
      (fun _ w' => Among id Resolved w') w := by
  refine (worker_silent (uses_recordAttempt rfl) (Program.returns_true _) h).bind ?_
  rintro _ w₁ ⟨-, h₁⟩
  refine (worker_load h₁).bind ?_
  rintro _ w₂ ⟨job, rfl, _, h₂⟩
  simp only
  split
  · rename_i hfailed
    intro w₃ hw
    refine (h₂.stable hw).mono ?_
    rintro x rfl
    rw [hfailed]
    exact ⟨nofun, nofun⟩
  · refine (worker_updateState h₂ (by simp [explains.ne_nil]) fun _ => explains).bind ?_
    rintro result w₃ (⟨rfl, h₃⟩ | ⟨⟨e, rfl⟩, h₃⟩)
    · intro w₄ hw
      refine (h₃.stable hw).mono ?_
      rintro x rfl
      exact ⟨nofun, nofun⟩
    · -- only a terminal row cannot be failed
      intro w₄ hw
      refine (h₃.stable hw).mono ?_
      rintro x ⟨_, hillegal⟩
      refine ⟨?_, ?_⟩ <;>
        · rintro rfl
          cases hillegal

theorem worker_recordAttempt {due : Int} (h : Among id (fun _ => True) w) :
    (recordAttempt id due reason).Safe machine (workerContract id)
      (fun result _ => result = .ok ()) w := by
  intro w₁ hw fault hassume
  have hfault : fault = none := hassume rfl
  subst hfault
  obtain ⟨x, hx, _⟩ := h.stable hw
  obtain ⟨r, hr⟩ := Database.exists_row hx
  refine ⟨trivial, ?_⟩
  have hcount : machine.perform ⟨.attemptWrite, .countAttempt id due reason⟩ none w₁ =
      (.ok 1, { w₁ with db := (w₁.db.countAttempt id due reason).2 }) := by
    simp [machine, perform, answer, Database.countAttempt, hr]
  rw [hcount]
  exact fun _ _ => rfl

theorem worker_handleFailure {config : RetryConfig} {failure : Bytes}
    (h : Among id (fun _ => True) w) :
    (handleFailure config id failure nowMs).Safe machine (workerContract id)
      (fun due w' => due = none → Among id Resolved w') w := by
  have hgaveUp : Explains (lit "gave up after ") := by decide
  intro w₁ hw fault hassume
  have hfault : fault = none := hassume rfl
  subst hfault
  have h₁ := h.stable hw
  obtain ⟨x, hx, _⟩ := h.stable hw
  obtain ⟨r, hr⟩ := Database.exists_row hx
  have hload : machine.perform ⟨.retryLoad, .selectRetry id⟩ none w₁ =
      (.ok (some ⟨r.attempts, r.nextRetryMs, r.lastError, r.retryOf⟩), w₁) := by
    simp [machine, perform, answer, Database.retryState, hr]
  refine ⟨trivial, ?_⟩
  rw [hload]
  change Program.Safe machine (workerContract id) _
    (if (r.attempts + 1) % 2 ^ 32 < config.retryMaxAttempts then _ else _) w₁
  split
  · refine (worker_recordAttempt h₁).bind ?_
    rintro _ w₂ rfl _ _ ⟨⟩
  · refine (worker_failPermanently h₁ (((hgaveUp.append _).append _).append _)).bind ?_
    exact fun _ w₂ h₂ w₃ hw' _ => h₂.stable hw'

/-- A job that is not to run again has been resolved. -/
theorem worker_workOn {config : RetryConfig} {request : MoveRequest} {strategy : MoveStrategy}
    (h : Among id (fun _ => True) w) :
    (workOn config id request strategy nowMs).Safe machine (workerContract id)
      (fun due w' => due = none → Among id Resolved w') w := by
  refine (worker_execute h).bind ?_
  rintro ⟨outcome, error⟩ w₁ ⟨h₁, hexplains, hresolved⟩
  simp only
  split
  · exact worker_handleFailure h₁
  split
  · rename_i hrejected
    refine (worker_failPermanently h₁ (hexplains hrejected)).bind ?_
    exact fun _ w₂ h₂ w₃ hw _ => h₂.stable hw
  · rename_i haborted hrejected
    exact fun w₂ hw _ => (hresolved hrejected haborted).stable hw

end After

end FileMover
