import FileMover.Manager.Worker

/-!
# Every failure says why

A job that ends FAILED needs a text, and the store refuses the row without one. So each
of the exits of `execute` and `recover` that is not a completed move has to leave a
text behind, and one that is not empty as a C string either: the store sees no more of
it. `Program.Returns` speaks of every reply to every call, that is, of every filesystem,
every row and every pattern of failures.
-/

namespace FileMover

open Framework

/-! ## The helpers -/

section Helpers
variable {site : Site} {dir fromDir toDir : Dir} {name fromName toName id message : Bytes}
  {target : JobState} {nowMs : Int}

theorem explains_storeFail (what : Bytes) (code : SqliteCode) : Explains (storeFail what code) := by
  have hstart : Explains (lit "store: ") := by decide
  exact ((hstart.append _).append _).append _

theorem load_explained : (load site id).Returns Explained := by
  intro reply
  cases reply with
  | ok job => exact explained_ok job
  | error e => exact explained_error (explains_storeFail _ e)

theorem moveWithin_explained {strategy : MoveStrategy} :
    (moveWithin fromDir fromName toDir toName strategy).Returns Explained := by
  unfold moveWithin
  split
  · rename_i message hfrom
    exact explained_error (explained_rejectBadName message hfrom)
  · rename_i message _ hto
    exact explained_error (explained_rejectBadName message hto)
  cases strategy with
  | renameNoReplace =>
      intro reply
      cases reply with
      | ok _ => exact explained_ok ()
      | error e => exact explained_error (explains_errnoMessage _ e)
  | linkThenUnlink =>
      intro linked
      cases linked with
      | error e => exact explained_error (explains_errnoMessage _ e)
      | ok _ =>
          intro reply
          cases reply with
          | ok _ => exact explained_ok ()
          | error e => exact explained_error (explains_errnoMessage _ e)

theorem publish_explained {tempName finalName : Bytes} :
    (publish dir tempName finalName).Returns Explained := by
  unfold publish
  split
  · rename_i message htemp
    exact explained_error (explained_rejectBadName message htemp)
  · rename_i message _ hfinal
    exact explained_error (explained_rejectBadName message hfinal)
  intro opened
  cases opened with
  | error e => exact explained_error (explains_errnoMessage _ e)
  | ok fd =>
  intro synced
  cases synced with
  | error e => exact explained_error (explains_errnoMessage _ e)
  | ok _ =>
  intro renamed
  cases renamed with
  | error e => exact explained_error (explains_errnoMessage _ e)
  | ok _ =>
  intro synced
  cases synced with
  | error e => exact explained_error (explains_errnoMessage _ e)
  | ok _ => exact explained_ok ()

theorem classifyMoveState_explained :
    (classifyMoveState fromDir fromName toDir toName).Returns Explained := by
  refine classify_explained.bind fun source hsource => ?_
  cases source with
  | error message => exact explained_error (hsource message rfl)
  | ok source =>
  refine classify_explained.bind fun target htarget => ?_
  cases target with
  | error message => exact explained_error (htarget message rfl)
  | ok target =>
  simp only
  split
  · exact explained_ok _
  split
  · exact explained_ok _
  split
  · exact explained_ok _
  · exact explained_ok _

theorem updateState_explained : (updateState id target nowMs message).Returns Explained := by
  have hstart : Explains (lit "store: no such job ") := by decide
  have hillegal : Explains (lit "store: illegal transition for job ") := by decide
  refine load_explained.bind fun loaded hloaded => ?_
  match loaded with
  | .error e => exact explained_error (hloaded e rfl)
  | .ok none => exact explained_error (hstart.append _)
  | .ok (some job) =>
      simp only
      split
      · refine explained_error ?_
        iterate 6 refine Explains.append ?_ _
        exact hillegal
      · intro reply
        cases reply with
        | ok _ => exact explained_ok ()
        | error e => exact explained_error (explains_storeFail _ e)

/-- The error that `record_transition` leaves, whatever is to be done about it. -/
theorem recordTransition_explained {phase : CommitPhase} :
    (recordTransition id target nowMs message phase).Returns fun result =>
      ∀ action error, result = .error (action, error) → Explains error := by
  refine updateState_explained.bind fun result hresult => ?_
  cases result with
  | ok _ =>
      rintro _ _ ⟨⟩
  | error e =>
      rintro _ _ ⟨⟩
      exact (hresult e rfl).append _

end Helpers

/-! ## The engine -/

/-- Anything but a completed move comes with a text. -/
def Accounts (result : MoveResult) : Prop := result.1 ≠ .completed → Explains result.2

section Engine
variable {id error : Bytes} {request : MoveRequest} {strategy : MoveStrategy}
  {sourceDir destDir : Dir} {tick : Int}

theorem explains_noRecord (id : Bytes) :
    Explains (lit "mover: no durable record for job " ++ quoted id) := by
  have hstart : Explains (lit "mover: no durable record for job ") := by decide
  exact hstart.append _

theorem explains_refusingToResurrect (id : Bytes) : Explains (refusingToResurrect id) := by
  have hstart : Explains (lit "mover: job ") := by decide
  exact (hstart.append _).append _

theorem haltWith_accounts {outcome : MoveOutcome} (explains : Explains error) :
    (haltWith id outcome error).Returns Accounts :=
  (Program.returns_true _).bind fun _ _ _ => explains

theorem failWith_accounts {outcome : MoveOutcome} (explains : Explains error) :
    (failWith id outcome tick error).Returns Accounts :=
  (Program.returns_true _).bind fun _ _ _ => explains

theorem recordDone_accounts : (recordDone id tick error).Returns Accounts := by
  refine recordTransition_explained.bind fun result hresult => ?_
  match result with
  | .ok _ => exact fun hcompleted => absurd rfl hcompleted
  | .error (action, message) => exact haltWith_accounts (hresult action message rfl)

theorem publishAndRecord_accounts :
    (publishAndRecord id request destDir tick error).Returns Accounts := by
  have hstart : Explains (lit "mover: job ") := by decide
  refine (Program.returns_true _).bind fun sawStaged _ => ?_
  refine (Program.returns_true _).bind fun sawFinal _ => ?_
  cases sawStaged with
  | true =>
      refine publish_explained.bind fun result hresult => ?_
      cases result with
      | error message => exact haltWith_accounts (hresult message rfl)
      | ok _ => exact recordDone_accounts
  | false =>
      cases sawFinal with
      | true => exact recordDone_accounts
      | false => exact haltWith_accounts ((hstart.append _).append _)

/-- A text that a caller hands over is kept only if there is one. -/
theorem finishAfterCommit_accounts (handed : error ≠ [] → Explains error) :
    (finishAfterCommit id request destDir tick error).Returns Accounts := by
  refine load_explained.bind fun loaded hloaded => ?_
  match loaded with
  | .error message => exact fun _ => hloaded message rfl
  | .ok none =>
      intro _
      change Explains (if error = [] then _ else error)
      split
      · exact explains_noRecord id
      · rename_i hnonempty
        exact handed hnonempty
  | .ok (some job) =>
      simp only
      split
      · exact fun hcompleted => absurd rfl hcompleted
      split
      · exact fun _ => explains_refusingToResurrect id
      split
      · refine recordTransition_explained.bind fun result hresult => ?_
        match result with
        | .ok _ => exact publishAndRecord_accounts
        | .error (action, message) => exact haltWith_accounts (hresult action message rfl)
      · exact publishAndRecord_accounts

theorem commitAndFinish_accounts (handed : error ≠ [] → Explains error) :
    (commitAndFinish id request strategy sourceDir destDir tick error).Returns Accounts := by
  refine moveWithin_explained.bind fun result hresult => ?_
  cases result with
  | error message => exact fun _ => hresult message rfl
  | ok _ => exact finishAfterCommit_accounts handed

/-- A refusal of phase 1 is explained, and so is what a failing second probe leaves. -/
theorem validate_explained :
    (validate id request).Returns fun result => Explained result ∧
      ∀ job source dest text, result = .ok (job, source, dest, text) →
        text ≠ [] → Explains text := by
  have hmover : Explains (lit "mover: source ") ∧ Explains (lit "mover: refusing ") := by decide
  have hrefused : ∀ message, Explains message →
      (Program.pure (.error message) : Prog (Except Bytes (Job × Dir × Dir × Bytes))).Returns
        fun result => Explained result ∧ ∀ job source dest text,
          result = .ok (job, source, dest, text) → text ≠ [] → Explains text :=
    fun message hmessage => ⟨explained_error hmessage, nofun⟩
  unfold validate
  split
  · rename_i message hsource
    exact hrefused message (explained_validateExternalPath message hsource)
  · rename_i message _ hdest
    exact hrefused message (explained_validateExternalPath message hdest)
  refine load_explained.bind fun loaded hloaded => ?_
  match loaded with
  | .error message => exact hrefused message (hloaded message rfl)
  | .ok none => exact hrefused _ ((explains_noRecord id).append _)
  | .ok (some job) =>
  refine openRoot_explained.bind fun source hsource => ?_
  cases source with
  | error message => exact hrefused message (hsource message rfl)
  | ok sourceDir =>
  refine openRoot_explained.bind fun dest hdest => ?_
  cases dest with
  | error message => exact hrefused message (hdest message rfl)
  | ok destDir =>
  refine classify_explained.bind fun probed hprobed => ?_
  cases probed with
  | error message => exact hrefused message (hprobed message rfl)
  | ok sourceId =>
  simp only
  split
  · exact hrefused _ ((hmover.1.append _).append _)
  split
  · exact hrefused _ ((((hmover.2.append _).append _).append _).append _)
  refine openRegular_explained.bind fun opened hopened => ?_
  cases opened with
  | error message => exact hrefused message (hopened message rfl)
  | ok _ =>
  refine classify_explained.bind fun again hagain => ?_
  cases again with
  | error message =>
      refine ⟨explained_ok _, ?_⟩
      rintro _ _ _ _ ⟨⟩ _
      exact hagain message rfl
  | ok _ =>
      refine ⟨explained_ok _, ?_⟩
      rintro _ _ _ _ ⟨⟩ hnonempty
      exact absurd rfl hnonempty

theorem execute_accounts : (execute id request strategy).Returns Accounts := by
  refine validate_explained.bind fun result hresult => ?_
  match result with
  | .error message => exact fun _ => hresult.1 message rfl
  | .ok (job, sourceDir, destDir, text) =>
      have htext : text ≠ [] → Explains text := hresult.2 job sourceDir destDir text rfl
      simp only
      split
      · exact fun hcompleted => absurd rfl hcompleted
      split
      · exact fun _ => explains_refusingToResurrect id
      split
      · refine recordTransition_explained.bind fun recorded hrecorded => ?_
        match recorded with
        | .ok _ => exact commitAndFinish_accounts htext
        | .error (action, message) => exact fun _ => hrecorded action message rfl
      · exact commitAndFinish_accounts htext

theorem redrive_accounts {job : Job} (state : MoveState) :
    (redrive id request strategy sourceDir destDir job state).Returns Accounts := by
  have hfinish : ∀ tick, (finishAfterCommit id request destDir tick []).Returns Accounts :=
    fun tick => finishAfterCommit_accounts fun h => absurd rfl h
  cases state with
  | notStarted => exact execute_accounts
  | interrupted =>
      refine moveWithin_explained.bind fun result hresult => ?_
      cases result with
      | error message => exact haltWith_accounts (hresult message rfl)
      | ok _ => exact hfinish _
  | completed => exact hfinish _
  | collision =>
      have hstart : Explains (lit "mover: ") := by decide
      exact failWith_accounts ((hstart.append _).append _)
  | bothMissing =>
      have hstart : Explains (lit ("mover: neither source nor staged destination exists for " ++
        "job ")) := by decide
      refine (Program.returns_true _).bind fun sawFinal _ => ?_
      cases sawFinal with
      | true => exact hfinish _
      | false => exact failWith_accounts ((hstart.append _).append _)

theorem recover_accounts : (recover id request strategy).Returns Accounts := by
  refine openRoot_explained.bind fun source hsource => ?_
  cases source with
  | error message => exact fun _ => hsource message rfl
  | ok sourceDir =>
  refine openRoot_explained.bind fun dest hdest => ?_
  cases dest with
  | error message => exact fun _ => hdest message rfl
  | ok destDir =>
  refine classifyMoveState_explained.bind fun state hstate => ?_
  cases state with
  | error message => exact fun _ => hstate message rfl
  | ok state =>
  refine load_explained.bind fun loaded hloaded => ?_
  match loaded with
  | .error message => exact fun _ => hloaded message rfl
  | .ok none => exact fun _ => explains_noRecord id
  | .ok (some job) => exact redrive_accounts state

end Engine

/-! ## The reasons that a worker gives -/

/-- An attempt is counted with a text. -/
def CountsExplained (c : Call) : Prop :=
  match c.op with
  | .countAttempt _ _ reason => Explains reason
  | _ => True

section Reasons
variable {id reason : Bytes} {config : RetryConfig} {request : MoveRequest}
  {strategy : MoveStrategy} {nowMs : Int}

theorem countsExplained_of_readOnly {site : Site} {op : Op} (h : op.readOnly = true) :
    CountsExplained ⟨site, op⟩ := by
  cases op with
  | countAttempt => cases h
  | _ => trivial

theorem countsExplained_of_movesNames {site : Site} {op : Op} (h : op.movesNames = true) :
    CountsExplained ⟨site, op⟩ := by
  cases op with
  | countAttempt => cases h
  | _ => trivial

theorem failPermanently_countsExplained (explains : Explains reason) :
    (failPermanently id reason).Uses CountsExplained := by
  refine (uses_recordAttempt explains).bind fun _ => ?_
  refine (uses_load trivial).bind fun loaded => ?_
  match loaded with
  | .error message => trivial
  | .ok none => trivial
  | .ok (some job) =>
      simp only
      split
      · trivial
      · exact (uses_updateState trivial fun _ _ _ => trivial).bind fun _ => trivial

theorem handleFailure_countsExplained {failure : Bytes} (explains : Explains failure) :
    (handleFailure config id failure nowMs).Uses CountsExplained := by
  have hgaveUp : Explains (lit "gave up after ") := by decide
  refine (uses_loadRetryState trivial).bind fun loaded => ?_
  match loaded with
  | .error message => trivial
  | .ok none => trivial
  | .ok (some state) =>
      simp only
      split
      · refine (uses_recordAttempt explains).bind fun result => ?_
        cases result with
        | error message => trivial
        | ok _ => trivial
      · refine (failPermanently_countsExplained ?_).bind fun _ => trivial
        exact ((hgaveUp.append _).append _).append _

theorem workOn_countsExplained :
    (workOn config id request strategy nowMs).Uses CountsExplained := by
  have hexecute : (execute id request strategy).Uses CountsExplained :=
    uses_execute (fun _ _ h => countsExplained_of_readOnly h) (fun _ => trivial)
      (fun _ _ _ _ _ => trivial) fun _ _ h => countsExplained_of_movesNames h
  refine hexecute.bind_returns execute_accounts fun result hresult => ?_
  obtain ⟨outcome, error⟩ := result
  simp only
  split
  · rename_i haborted
    refine handleFailure_countsExplained (hresult ?_)
    rw [haborted]
    nofun
  split
  · rename_i hrejected
    refine (failPermanently_countsExplained (hresult ?_)).bind fun _ => trivial
    rw [hrejected]
    nofun
  · trivial

/-- The first thing that `fail_permanently` does is to count the attempt, with its
reason. -/
theorem explains_of_reaches {next : Unit → Prog (Option Int)}
    (reaches : (workOn config id request strategy nowMs).Reaches
      ((failPermanently id reason).bind next)) : Explains reason :=
  (workOn_countsExplained.reaches reaches).1

/-- A row that is still QUEUED or RENAMING is FAILED afterwards. -/
theorem failPermanently_fails {w : World} (explains : Explains reason)
    (h : Among id (fun x => x = .queued ∨ x = .renaming) w) :
    (failPermanently id reason).Safe machine (workerContract id)
      (fun _ w' => w'.db.state id = some .failed) w := by
  refine (worker_silent (uses_recordAttempt rfl) (Program.returns_true _) h).bind ?_
  rintro _ w₁ ⟨-, h₁⟩
  refine (worker_load h₁).bind ?_
  rintro _ w₂ ⟨job, rfl, hpending, h₂⟩
  have hfailed : ∀ {w w'}, Among id (· = .failed) w → (workerContract id).rely w w' →
      w'.db.state id = some .failed := by
    intro w w' hamong hw
    obtain ⟨x, hx, rfl | rfl⟩ := hamong.stable hw
    · exact hx
    · exact hx
  simp only
  split
  · rename_i hjob
    intro w₃ hw
    refine hfailed (h₂.mono ?_) hw
    rintro x rfl
    exact hjob
  · rename_i hjob
    refine (worker_updateState h₂ (by simp [explains.ne_nil]) fun _ => explains).bind ?_
    rintro result w₃ (⟨rfl, h₃⟩ | ⟨⟨e, rfl⟩, h₃⟩)
    · exact fun w₄ hw => hfailed h₃ hw
    · -- the edge to FAILED is legal from both states, so someone else has taken it
      refine fun w₄ hw => hfailed (h₃.mono ?_) hw
      rintro x ⟨rfl | rfl, hillegal⟩
      · rcases hpending with (hstate | hstate) | hstate
        · rw [hstate] at hillegal
          cases hillegal
        · rw [hstate] at hillegal
          cases hillegal
        · exact hstate
      · rfl

/-- Whatever the filesystem, the row and the failures of calls: an outcome of `execute`
or `recover` that is not `Completed` has an error. So where a worker comes to
`fail_permanently`, after whatever replies, and the store takes writes from there on, a
row that is QUEUED or RENAMING becomes FAILED with an error. -/
theorem failures_explained :
    (∀ id request strategy, (execute id request strategy).Returns fun result =>
      result.1 ≠ .completed → result.2 ≠ []) ∧
    (∀ id request strategy, (recover id request strategy).Returns fun result =>
      result.1 ≠ .completed → result.2 ≠ []) ∧
    ∀ config id request strategy nowMs reason (next : Unit → Prog (Option Int)),
      (workOn config id request strategy nowMs).Reaches ((failPermanently id reason).bind next) →
      ∀ w, RowIn (fun x => x = .queued ∨ x = .renaming) id w →
        (failPermanently id reason).Safe machine (workerContract id)
          (fun _ w' =>
            ∃ r, w'.db.row id = some r ∧ r.job.state = .failed ∧ r.job.error ≠ []) w := by
  refine ⟨fun id request strategy => ?_, fun id request strategy => ?_, ?_⟩
  · exact execute_accounts.mono fun result haccounts hother => (haccounts hother).ne_nil
  · exact recover_accounts.mono fun result haccounts hother => (haccounts hother).ne_nil
  · rintro config id request strategy nowMs reason next hreaches w ⟨x, hx, hpending⟩
    have hexplains : Explains reason := explains_of_reaches hreaches
    refine (failPermanently_fails hexplains ⟨x, hx, Or.inl hpending⟩).weaken ?_
    intro _ w' hfailed
    obtain ⟨r, hrow⟩ := Database.exists_row hfailed
    have hstate : r.job.state = .failed := by
      rw [Database.state, hrow] at hfailed
      exact Option.some.inj hfailed
    exact ⟨r, hrow, hstate, r.check.mpr hstate⟩

/-- A worker whose source is gone comes to `fail_permanently` after four calls. -/
theorem failures_explained_missing :
    (workOn ⟨3, 1000, 60000⟩ (lit "j") sampleRequest .renameNoReplace 0).Reaches
      ((failPermanently (lit "j") (lit "mover: source 'a' does not exist")).bind
        fun _ => .pure none) ∧
    RowIn (fun x => x = .queued ∨ x = .renaming) (lit "j") (sampleWorld .queued []) ∧
    (failPermanently (lit "j") (lit "mover: source 'a' does not exist")).Safe machine
      (workerContract (lit "j"))
      (fun _ w' => ∃ r, w'.db.row (lit "j") = some r ∧ r.job.state = .failed ∧ r.job.error ≠ [])
      (sampleWorld .queued []) := by
  have hreaches : (workOn ⟨3, 1000, 60000⟩ (lit "j") sampleRequest .renameNoReplace 0).Reaches
      ((failPermanently (lit "j") (lit "mover: source 'a' does not exist")).bind
        fun _ => .pure none) :=
    .after (.ok (some (sampleRow .queued).job)) <| .after (.ok 1) <| .after (.ok 2) <|
      .after (.error ENOENT) <| .here _
  have hrow : RowIn (fun x => x = .queued ∨ x = .renaming) (lit "j") (sampleWorld .queued []) :=
    ⟨.queued, by decide, Or.inl rfl⟩
  exact ⟨hreaches, hrow, failures_explained.2.2 _ _ _ _ _ _ _ hreaches _ hrow⟩

end Reasons

end FileMover
