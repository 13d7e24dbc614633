import FileMover.Engine.Outcomes
import FileMover.Engine.Validation
import FileMover.Manager.Worker

/-!
# One attempt

A worker that nobody disturbs on its row makes one attempt at the move. It calls for the
commit at most once, and not at all if the row is FAILED or the source is gone. When it is
done, either the attempt has been counted and the job is to run again at the time on
record, or the matter is over: the row is FAILED, or the source is gone.

Others may move other names meanwhile, but give the source name to nothing.
-/

namespace FileMover

open Framework

/-- Nothing bears the source name of the request. -/
def SourceGone (request : MoveRequest) (w : World) : Prop :=
  ∀ dir, w.fs.root (cstr request.sourceDir) = some dir →
    w.fs.entry ⟨dir, request.sourceName⟩ = none

/-- No further attempt will call for the commit. -/
def Over (id : Bytes) (request : MoveRequest) (w : World) : Prop :=
  w.db.state id = some .failed ∨ SourceGone request w

/-- A row past the commit point is one whose source is gone. -/
def Sealed (id : Bytes) (request : MoveRequest) (w : World) : Prop :=
  w.db.state id = some .transferring ∨ w.db.state id = some .done → SourceGone request w

/-- `Sealed`, with the roots as they were. -/
structure SealedAt (root : Bytes → Option Dir) (id : Bytes) (request : MoveRequest) (w : World) :
    Prop where
  root_eq : w.fs.root = root
  holds : Sealed id request w

/-- The staging name and the final name of the request are not its source name. -/
def NamesApart (id : Bytes) (request : MoveRequest) (root : Bytes → Option Dir) : Prop :=
  ∀ sourceDir destDir, root (cstr request.sourceDir) = some sourceDir →
    root (cstr request.destDir) = some destDir →
      (⟨destDir, stagingName id⟩ : Slot) ≠ ⟨sourceDir, request.sourceName⟩ ∧
        (⟨destDir, request.destName⟩ : Slot) ≠ ⟨sourceDir, request.sourceName⟩

/-- The call does not give the source name to an object. -/
def LeavesSource (request : MoveRequest) (root : Bytes → Option Dir) (c : Call) : Prop :=
  ∀ dir, root (cstr request.sourceDir) = some dir →
    c.op.target ≠ some ⟨dir, request.sourceName⟩

/-- The row is the worker's own, and nobody brings the source back. `mayLink` says
whether the worker may call for the commit. -/
def attemptContract (id : Bytes) (request : MoveRequest) (mayLink : Prop) :
    Contract Call Fault World where
  rely w w' := w'.db.row id = w.db.row id ∧ w'.fs.root = w.fs.root ∧
    (SourceGone request w → SourceGone request w')
  rely_refl _ := ⟨rfl, rfl, fun h => h⟩
  rely_trans hab hbc :=
    ⟨hbc.1.trans hab.1, hbc.2.1.trans hab.2.1, fun h => hbc.2.2 (hab.2.2 h)⟩
  assume c fault _ := c.op.onStore = true → fault = none
  guarantee c _ _ _ := c.op.links = true → mayLink

section Stable
variable {id : Bytes} {request : MoveRequest} {mayLink : Prop} {w w' : World}

theorem state_of_row_eq (h : w'.db.row id = w.db.row id) : w'.db.state id = w.db.state id := by
  rw [Database.state, Database.state, h]

theorem Sealed.stable (h : Sealed id request w)
    (rely : (attemptContract id request mayLink).rely w w') : Sealed id request w' := by
  intro hpast
  rw [state_of_row_eq rely.1] at hpast
  exact rely.2.2 (h hpast)

theorem SourceGone.call {c : Call} {fault : Option Fault} (h : SourceGone request w)
    (leaves : LeavesSource request w.fs.root c) :
    SourceGone request (perform c.op fault w).2 := by
  intro dir hdir
  rw [perform_root] at hdir
  exact perform_free (h dir hdir) (leaves dir hdir)

theorem Sealed.call {c : Call} {fault : Option Fault} (h : Sealed id request w)
    (leaves : LeavesSource request w.fs.root c) (transferring : Avoids .transferring c)
    (done : Avoids .done c) : Sealed id request (perform c.op fault w).2 := by
  intro hpast
  by_cases hbefore : w.db.state id = some .transferring ∨ w.db.state id = some .done
  · exact (h hbefore).call leaves
  · rw [not_or] at hbefore
    rcases hpast with hpast | hpast
    · exact absurd hpast (transferring.call fault hbefore.1)
    · exact absurd hpast (done.call fault hbefore.2)

/-- A row that is settled without being FAILED belongs to a move past its commit. -/
theorem Sealed.over (h : Sealed id request w) (resolved : Among id Resolved w) :
    Over id request w := by
  obtain ⟨x, hx, hresolved | rfl⟩ := resolved
  · match x, hresolved with
    | .queued, hresolved => exact absurd rfl hresolved.1
    | .renaming, hresolved => exact absurd rfl hresolved.2
    | .transferring, _ => exact Or.inr (h (Or.inl hx))
    | .done, _ => exact Or.inr (h (Or.inr hx))
    | .failed, _ => exact Or.inl hx
  · exact Or.inl hx

theorem leavesSource_of_still {c : Call} {root : Bytes → Option Dir}
    (h : c.op.movesNames = false) : LeavesSource request root c := by
  intro dir _ htarget
  rw [target_of_movesNames h] at htarget
  cases htarget

theorem leavesSource_of_readOnly {c : Call} {root : Bytes → Option Dir}
    (h : c.op.readOnly = true) : LeavesSource request root c :=
  leavesSource_of_still (movesNames_of_readOnly h)

end Stable

/-! ## What phase 1 has found -/

section Attempt
variable {id : Bytes} {request : MoveRequest} {w : World} {mayLink : Prop}

theorem attempt_validate :
    (validate id request).Safe machine (attemptContract id request mayLink)
      (fun result w' => (attemptContract id request mayLink).rely w w' ∧
        ∀ job sourceDir destDir text, result = .ok (job, sourceDir, destDir, text) →
          w.db.state id = some job.state ∧ ¬ SourceGone request w ∧
            w.fs.root (cstr request.sourceDir) = some sourceDir ∧
            w.fs.root (cstr request.destDir) = some destDir) w := by
  have hlooks : ∀ c fault w, c.op.readOnly = true →
      (attemptContract id request mayLink).assume c fault w →
        (attemptContract id request mayLink).guarantee c fault w w := by
    intro c fault w hreadOnly _ hlinks
    rw [links_of_readOnly hreadOnly] at hlinks
    cases hlinks
  have hread : (validate id request).Safe machine (attemptContract id request mayLink)
      (fun _ w' => True ∧ (attemptContract id request mayLink).rely w w') w :=
    safe_looks hlooks (uses_validate fun _ _ h => h) (Program.returns_true _)
  refine ((safe_validate hlooks).and hread (fun h => h) fun _ _ _ h => h).weaken ?_
  rintro result w' ⟨⟨-, hrely⟩, hcleared⟩
  refine ⟨hrely, fun job sourceDir destDir text hok => ?_⟩
  obtain ⟨w₁, w₂, w₃, w₄, h₁, -, hjob, h₂, hsource, h₃, hdest, h₄, hentry, -⟩ :=
    hcleared job sourceDir destDir text hok
  have hsource' : w.fs.root (cstr request.sourceDir) = some sourceDir := by
    rw [← hsource, h₂.2.1, h₁.2.1]
  refine ⟨?_, fun hgone => hentry ?_, hsource', ?_⟩
  · obtain ⟨r, hr, rfl⟩ := Option.map_eq_some_iff.mp hjob
    rw [Database.state, ← h₁.1, hr]
    rfl
  · refine h₄.2.2 (h₃.2.2 (h₂.2.2 (h₁.2.2 hgone))) sourceDir ?_
    rw [h₄.2.1, h₃.2.1, hsource]
  · rw [← hdest, h₃.2.1, h₂.2.1, h₁.2.1]

/-! ## The source -/

section Source
variable {root : Bytes → Option Dir}

theorem SealedAt.stable {w' : World} (h : SealedAt root id request w)
    (rely : (attemptContract id request mayLink).rely w w') : SealedAt root id request w' :=
  ⟨rely.2.1.trans h.root_eq, h.holds.stable rely⟩

theorem SealedAt.call {c : Call} (fault : Option Fault) (h : SealedAt root id request w)
    (leaves : LeavesSource request root c) (transferring : Avoids .transferring c)
    (done : Avoids .done c) : SealedAt root id request (perform c.op fault w).2 := by
  obtain ⟨rfl, hsealed⟩ := h
  exact ⟨perform_root _ _ _, hsealed.call leaves transferring done⟩

/-- Calls that leave the source and the late states alone keep the seal. -/
theorem sealed_on {α : Type} {program : Prog α}
    (uses : program.Uses fun c => LeavesSource request root c ∧ Avoids .transferring c ∧
      Avoids .done c)
    (start : SealedAt root id request w) :
    program.Safe machine (attemptContract id request True)
      (fun _ w' => SealedAt root id request w') w := by
  refine (Program.Safe.of_uses uses (Program.returns_true _)
    (fun hrely h => h.stable hrely) ?_ start).weaken fun _ _ h => h.2
  rintro c ⟨hleaves, htransferring, hdone⟩ fault w₁ _ hw₁
  exact ⟨fun _ => trivial, hw₁.call fault hleaves htransferring hdone⟩

/-- A source that is gone stays so. -/
theorem gone_on {α : Type} {program : Prog α} (uses : program.Uses (LeavesSource request root))
    (start : w.fs.root = root) (gone : SourceGone request w) :
    program.Safe machine (attemptContract id request True)
      (fun _ w' => SealedAt root id request w') w := by
  have hkeeps : program.Safe machine (attemptContract id request True)
      (fun _ w' => True ∧ w'.fs.root = root ∧ SourceGone request w') w := by
    refine Program.Safe.of_uses uses (Program.returns_true _) ?_ ?_ ⟨start, gone⟩
    · rintro w₁ w₂ hrely ⟨hroot, hgone⟩
      exact ⟨hrely.2.1.trans hroot, hrely.2.2 hgone⟩
    · rintro c hleaves fault w₁ _ ⟨rfl, hgone⟩
      exact ⟨fun _ => trivial, perform_root _ _ _, hgone.call hleaves⟩
  refine hkeeps.weaken ?_
  rintro _ w' ⟨-, hroot, hgone⟩
  exact ⟨hroot, fun _ => hgone⟩

/-- One of the calls of the commit: after a reply that shows the source gone, it is. -/
theorem sealed_commit {op : Op} {next : Except Fault (Answer op) → Prog (Except Bytes Unit)}
    {site : Site} (names : op.movesNames = true) (leaves : LeavesSource request root ⟨site, op⟩)
    (start : SealedAt root id request w)
    (rest : ∀ fault w₁, SealedAt root id request (perform op fault w₁).2 →
      (next (perform op fault w₁).1).Safe machine (attemptContract id request True)
        (fun result w' => SealedAt root id request w' ∧
          (result = .ok () → SourceGone request w')) (perform op fault w₁).2) :
    ((ask site op).bind next).Safe machine (attemptContract id request True)
      (fun result w' => SealedAt root id request w' ∧
        (result = .ok () → SourceGone request w')) w := by
  have havoids : ∀ x, Avoids x ⟨site, op⟩ := by
    intro x
    cases op with
    | insertJob | updateJob => cases names
    | _ => trivial
  intro w₁ hw fault _
  refine ⟨fun _ => trivial, rest fault w₁ ?_⟩
  have hw₁ : SealedAt root id request w₁ := start.stable hw
  exact hw₁.call fault leaves (havoids _) (havoids _)

/-- Once the commit has gone through, the source is gone. -/
theorem attempt_moveWithin {sourceDir destDir : Dir} {name : Bytes} {strategy : MoveStrategy}
    (hsource : root (cstr request.sourceDir) = some sourceDir)
    (apart : (⟨destDir, name⟩ : Slot) ≠ ⟨sourceDir, request.sourceName⟩)
    (start : SealedAt root id request w) :
    (moveWithin sourceDir request.sourceName destDir name strategy).Safe machine
      (attemptContract id request True)
      (fun result w' => SealedAt root id request w' ∧
        (result = .ok () → SourceGone request w')) w := by
  have hleaves : ∀ c : Call, c.op.target = some ⟨destDir, name⟩ ∨ c.op.target = none →
      LeavesSource request root c := by
    intro c hc dir hdir
    rw [hsource] at hdir
    cases hdir
    rcases hc with hc | hc
    · rw [hc]
      exact fun heq => apart (Option.some.inj heq)
    · rw [hc]
      nofun
  have hrefused : ∀ message w, SealedAt root id request w →
      (Program.pure (.error message) : Prog (Except Bytes Unit)).Safe machine
        (attemptContract id request True) (fun result w' => SealedAt root id request w' ∧
          (result = .ok () → SourceGone request w')) w :=
    fun message w h w' hw => ⟨h.stable hw, nofun⟩
  have hgone : ∀ w, SealedAt root id request w →
      w.fs.entry ⟨sourceDir, request.sourceName⟩ = none →
      (Program.pure (.ok ()) : Prog (Except Bytes Unit)).Safe machine
        (attemptContract id request True) (fun result w' => SealedAt root id request w' ∧
          (result = .ok () → SourceGone request w')) w := by
    intro w h hentry w' hw
    refine ⟨h.stable hw, fun _ => hw.2.2 fun dir hdir => ?_⟩
    rw [h.root_eq, hsource] at hdir
    cases hdir
    exact hentry
  unfold moveWithin
  cases hfrom : isPlainName request.sourceName with
  | false =>
      rw [rejectBadName_bad hfrom]
      exact hrefused _ _ start
  | true =>
    cases hto : isPlainName name with
    | false =>
        rw [rejectBadName_plain hfrom, rejectBadName_bad hto]
        exact hrefused _ _ start
    | true =>
      rw [rejectBadName_plain hfrom, rejectBadName_plain hto]
      cases strategy with
      | renameNoReplace =>
          refine sealed_commit rfl (hleaves _ (Or.inl rfl)) start fun fault w₁ h => ?_
          cases hreply : (perform (.renameat2 ⟨sourceDir, request.sourceName⟩ ⟨destDir, name⟩)
            fault w₁).1 with
          | error e => exact hrefused _ _ h
          | ok _ => exact hgone _ h (perform_renameat2_gone apart hreply)
      | linkThenUnlink =>
          refine sealed_commit rfl (hleaves _ (Or.inl rfl)) start fun fault w₁ h => ?_
          cases (perform (.linkat ⟨sourceDir, request.sourceName⟩ ⟨destDir, name⟩)
            fault w₁).1 with
          | error e => exact hrefused _ _ h
          | ok _ =>
              refine sealed_commit rfl (hleaves _ (Or.inr rfl)) h fun fault w₂ h' => ?_
              cases hreply : (perform (.unlinkat ⟨sourceDir, request.sourceName⟩) fault w₂).1 with
              | error e => exact hrefused _ _ h'
              | ok _ => exact hgone _ h' (perform_unlinkat_gone hreply)

theorem sealed_commitAndFinish {sourceDir destDir : Dir} {strategy : MoveStrategy} {tick : Int}
    {error : Bytes} (apart : NamesApart id request root)
    (hsource : root (cstr request.sourceDir) = some sourceDir)
    (hdest : root (cstr request.destDir) = some destDir) (start : SealedAt root id request w) :
    (commitAndFinish id request strategy sourceDir destDir tick error).Safe machine
      (attemptContract id request True) (fun _ w' => SealedAt root id request w') w := by
  obtain ⟨hstaged, hfinal⟩ := apart sourceDir destDir hsource hdest
  refine (attempt_moveWithin hsource hstaged start).bind ?_
  rintro result w₁ ⟨hsealed, hgone⟩
  cases result with
  | error message => exact fun w' hw => hsealed.stable hw
  | ok _ =>
      refine gone_on (uses_finishAfterCommit ?_ ?_ ?_ ?_) hsealed.root_eq (hgone rfl)
      · exact fun _ => leavesSource_of_still rfl
      · exact fun _ _ h _ => leavesSource_of_readOnly h
      · exact fun _ _ _ _ _ => leavesSource_of_still rfl
      · intro dir hdir heq
        rw [hsource] at hdir
        cases hdir
        exact hfinal (Option.some.inj heq)

/-- What looks neither touches the source nor writes a state. -/
theorem quiet_of_readOnly {c : Call} (h : c.op.readOnly = true) :
    LeavesSource request root c ∧ Avoids .transferring c ∧ Avoids .done c :=
  ⟨leavesSource_of_readOnly h, .of_readOnly h, .of_readOnly h⟩

theorem quiet_of_update {site : Site} {before after : Job} {target : JobState}
    (h : after.state = target) (early : target ≠ .transferring ∧ target ≠ .done) :
    LeavesSource request root ⟨site, .updateJob id before after⟩ ∧
      Avoids .transferring ⟨site, .updateJob id before after⟩ ∧
      Avoids .done ⟨site, .updateJob id before after⟩ := by
  subst h
  exact ⟨leavesSource_of_still rfl, .of_update early.1, .of_update early.2⟩

theorem sealed_execute {strategy : MoveStrategy} (apart : NamesApart id request root)
    (start : SealedAt root id request w) :
    (execute id request strategy).Safe machine (attemptContract id request True)
      (fun _ w' => SealedAt root id request w') w := by
  refine attempt_validate.bind ?_
  rintro result w₁ ⟨hrely, hok⟩
  have hw₁ : SealedAt root id request w₁ := start.stable hrely
  match result with
  | .error message => exact fun w' hw => hw₁.stable hw
  | .ok (job, sourceDir, destDir, error) =>
      obtain ⟨-, -, hsource, hdest⟩ := hok job sourceDir destDir error rfl
      rw [start.root_eq] at hsource hdest
      simp only
      split
      · exact fun w' hw => hw₁.stable hw
      split
      · exact fun w' hw => hw₁.stable hw
      split
      · refine (sealed_on (uses_recordTransition (quiet_of_readOnly rfl) fun _ _ h =>
          quiet_of_update (Job.transition_state h) (by decide)) hw₁).bind ?_
        intro result w₂ hw₂
        cases result with
        | error failure => exact fun w' hw => hw₂.stable hw
        | ok _ => exact sealed_commitAndFinish apart hsource hdest hw₂
      · exact sealed_commitAndFinish apart hsource hdest hw₁

theorem sealed_workOn {config : RetryConfig} {strategy : MoveStrategy} {nowMs : Int}
    (apart : NamesApart id request root) (start : SealedAt root id request w) :
    (workOn config id request strategy nowMs).Safe machine (attemptContract id request True)
      (fun _ w' => SealedAt root id request w') w := by
  refine (sealed_execute apart start).bind fun result w₁ hw₁ => ?_
  refine sealed_on (uses_afterExecute ?_ ?_ ?_ result.1 result.2) hw₁
  · exact fun _ _ h => quiet_of_readOnly h
  · exact fun _ _ => ⟨leavesSource_of_still rfl, trivial, trivial⟩
  · exact fun _ _ h => quiet_of_update h (by decide)

end Source

/-! ## The count -/

/-- The row is there, with this many attempts. -/
def Counted (id : Bytes) (attempts : Nat) (w : World) : Prop :=
  ∃ r, w.db.row id = some r ∧ r.attempts = attempts

/-- The row shows one attempt more, within the limit, and the time of the next one. -/
def Rescheduled (config : RetryConfig) (id : Bytes) (attempts : Nat) (due : Int) (w : World) :
    Prop :=
  (attempts + 1) % 2 ^ 32 < config.retryMaxAttempts ∧
    ∃ r, w.db.row id = some r ∧ r.attempts = attempts + 1 ∧ r.nextRetryMs = due

section Count
variable {config : RetryConfig} {attempts : Nat} {strategy : MoveStrategy} {nowMs : Int}

theorem Counted.stable {w' : World} (h : Counted id attempts w)
    (rely : (attemptContract id request mayLink).rely w w') : Counted id attempts w' := by
  obtain ⟨r, hr, hattempts⟩ := h
  exact ⟨r, rely.1.trans hr, hattempts⟩

/-- The engine does not count. -/
theorem counted_execute (h : Counted id attempts w) :
    (execute id request strategy).Safe machine (attemptContract id request True)
      (fun _ w' => Counted id attempts w') w := by
  have huses : (execute id request strategy).Uses fun c =>
      ∀ id' due reason, c.op ≠ .countAttempt id' due reason := by
    refine uses_execute ?_ ?_ ?_ ?_
    · rintro site op hreadOnly id' due reason rfl
      cases hreadOnly
    · exact fun _ => nofun
    · exact fun _ _ _ _ _ => nofun
    · rintro site op hnames id' due reason rfl
      cases hnames
  refine (Program.Safe.of_uses huses (Program.returns_true _)
    (fun hrely h => h.stable hrely) ?_ h).weaken fun _ _ h => h.2
  rintro c hc fault w₁ _ ⟨r, hr, hattempts⟩
  obtain ⟨r', hr', hstep⟩ : ∃ r', (perform c.op fault w₁).2.db.row id = some r' ∧
      RowStep c.op id r r' := perform_row hr
  have hsame := hstep.schedule fun id' due reason heq => absurd heq (hc id' due reason)
  exact ⟨fun _ => trivial, r', hr', hsame.1.trans hattempts⟩

theorem counted_recordAttempt {due : Int} {reason : Bytes} (h : Counted id attempts w) :
    (recordAttempt id due reason).Safe machine (attemptContract id request True)
      (fun _ w' => ∃ r, w'.db.row id = some r ∧ r.attempts = attempts + 1 ∧
        r.nextRetryMs = due) w := by
  intro w₁ hw fault hassume
  have hfault : fault = none := hassume rfl
  subst hfault
  obtain ⟨r, hr, rfl⟩ := h.stable hw
  let r' : Row :=
    { r with attempts := r.attempts + 1, nextRetryMs := due, lastError := cstr reason }
  have hcount : machine.perform ⟨.attemptWrite, .countAttempt id due reason⟩ none w₁ =
      (.ok 1, { w₁ with db := w₁.db.setRow id r' }) := by
    simp [machine, perform, answer, Database.countAttempt, hr, r']
  refine ⟨fun _ => trivial, ?_⟩
  rw [hcount]
  intro w₂ hw'
  refine ⟨r', ?_, rfl, rfl⟩
  rw [hw'.1]
  exact Database.row_setRow_of_key_eq rfl

theorem counted_handleFailure {failure : Bytes} (h : Counted id attempts w) :
    (handleFailure config id failure nowMs).Safe machine (attemptContract id request True)
      (fun due w' => ∀ dueMs, due = some dueMs → Rescheduled config id attempts dueMs w') w := by
  intro w₁ hw fault hassume
  have hfault : fault = none := hassume rfl
  subst hfault
  have h₁ : Counted id attempts w₁ := h.stable hw
  obtain ⟨r, hr, hattempts⟩ := h₁
  have hload : machine.perform ⟨.retryLoad, .selectRetry id⟩ none w₁ =
      (.ok (some ⟨r.attempts, r.nextRetryMs, r.lastError, r.retryOf⟩), w₁) := by
    simp [machine, perform, answer, Database.retryState, hr]
  refine ⟨fun _ => trivial, ?_⟩
  rw [hload]
  change Program.Safe machine (attemptContract id request True) _
    (if (r.attempts + 1) % 2 ^ 32 < config.retryMaxAttempts then _ else _) w₁
  rw [hattempts]
  split
  · rename_i hbelow
    refine (counted_recordAttempt ⟨r, hr, hattempts⟩).bind ?_
    rintro result w₂ ⟨r', hr', hcount, hdue⟩
    cases result with
    | error message => rintro _ _ _ ⟨⟩
    | ok _ =>
        intro w₃ hw' dueMs heq
        cases heq
        exact ⟨hbelow, r', hw'.1.trans hr', hcount, hdue⟩
  · refine (Program.safe_of_free fun _ _ _ _ _ => trivial).bind fun _ w₂ _ => ?_
    rintro _ _ _ ⟨⟩

theorem counted_workOn (h : Counted id attempts w) :
    (workOn config id request strategy nowMs).Safe machine (attemptContract id request True)
      (fun due w' => ∀ dueMs, due = some dueMs → Rescheduled config id attempts dueMs w') w := by
  refine (counted_execute h).bind ?_
  rintro ⟨outcome, error⟩ w₁ h₁
  simp only
  split
  · exact counted_handleFailure h₁
  split
  · refine (Program.safe_of_free fun _ _ _ _ _ => trivial).bind fun _ w₂ _ => ?_
    nofun
  · nofun

end Count

/-! ## The whole attempt -/

section Whole
variable {config : RetryConfig} {strategy : MoveStrategy} {nowMs : Int}

/-- Calls that name nothing are made under any contract. -/
theorem attempt_unlinked {α : Type} {program : Prog α} {Q : α → Prop}
    (uses : program.Uses fun c => c.op.links = false) (returns : program.Returns Q) :
    program.Safe machine (attemptContract id request mayLink) (fun value _ => Q value) w := by
  have hsafe : program.Safe machine (attemptContract id request mayLink)
      (fun value _ => Q value ∧ True) w := by
    refine Program.Safe.of_uses uses returns (fun _ h => h) ?_ trivial
    intro c hc fault w₁ _ _
    refine ⟨fun hlinks => ?_, trivial⟩
    rw [hc] at hlinks
    cases hlinks
  exact hsafe.weaken fun _ _ h => h.1

/-- When the matter is over, a worker that has the job again turns back before the
commit. -/
theorem over_workOn («over» : Over id request w) :
    (workOn config id request strategy nowMs).Safe machine (attemptContract id request False)
      (fun due _ => due = none) w := by
  have hrejects : (execute id request strategy).Safe machine (attemptContract id request False)
      (fun result _ => result.1 = .rejected) w := by
    refine attempt_validate.bind ?_
    rintro result w₁ ⟨-, hok⟩
    match result with
    | .error message => exact fun _ _ => rfl
    | .ok (job, sourceDir, destDir, error) =>
        obtain ⟨hstate, hthere, -, -⟩ := hok job sourceDir destDir error rfl
        have hfailed : job.state = .failed := by
          rcases «over» with hfailed | hgone
          · rw [hstate] at hfailed
            exact Option.some.inj hfailed
          · exact absurd hgone hthere
        simp only [hfailed]
        exact fun _ _ => rfl
  refine hrejects.bind ?_
  rintro ⟨outcome, error⟩ w₁ rfl
  refine attempt_unlinked (uses_afterExecute ?_ ?_ ?_ _ _) ?_
  · exact fun _ _ h => links_of_readOnly h
  · exact fun _ _ => rfl
  · exact fun _ _ _ => rfl
  · exact (Program.returns_true _).bind fun _ _ => rfl

/-- What a worker leaves of a job that it picked up with this many attempts on record. -/
structure Left (root : Bytes → Option Dir) (config : RetryConfig) (id : Bytes)
    (request : MoveRequest) (attempts : Nat) (mayLink : Prop) (due : Option Int) (w : World) :
    Prop where
  sealed : SealedAt root id request w
  «over» : due = none → Over id request w
  again : ∀ dueMs, due = some dueMs → mayLink ∧ Rescheduled config id attempts dueMs w

theorem attempt_workOn {root : Bytes → Option Dir} {attempts : Nat}
    (apart : NamesApart id request root) (start : SealedAt root id request w)
    (counted : Counted id attempts w) (may : ¬ Over id request w → mayLink) :
    (workOn config id request strategy nowMs).Safe machine (attemptContract id request mayLink)
      (Left root config id request attempts mayLink) w := by
  have hrely : ∀ {w w'}, (attemptContract id request mayLink).rely w w' →
      (attemptContract id request True).rely w w' := fun h => h
  have hlink : (workOn config id request strategy nowMs).Safe machine
      (attemptContract id request mayLink) (fun due _ => ¬ mayLink → due = none) w := by
    by_cases hmay : mayLink
    · refine (Program.safe_of_free fun _ _ _ _ _ => hmay).weaken fun _ _ _ hnot => ?_
      exact absurd hmay hnot
    · have hover : Over id request w := not_not.mp fun hnot => hmay (may hnot)
      have hturns : (workOn config id request strategy nowMs).Safe machine
          (attemptContract id request mayLink) (fun due _ => due = none) w :=
        (over_workOn hover).narrow (fun h => h) (fun _ _ _ h => h)
          fun _ _ _ _ h hlinks => (h hlinks).elim
      exact hturns.weaken fun _ _ h _ => h
  have hsettles : (workOn config id request strategy nowMs).Safe machine (workerContract id)
      (fun due w' => due = none → Among id Resolved w') w := by
    obtain ⟨r, hr, -⟩ := counted
    refine worker_workOn ⟨r.job.state, ?_, Or.inl trivial⟩
    rw [Database.state, hr]
    rfl
  refine (((hlink.and (sealed_workOn apart start) hrely fun _ _ _ h => h).and
    (counted_workOn counted) hrely fun _ _ _ h => h).and hsettles ?_ fun _ _ _ h => h).weaken ?_
  · exact fun h => Or.inl (state_of_row_eq h.1)
  · rintro due w' ⟨hresolved, hagain, hsealed, hnone⟩
    refine ⟨hsealed, fun heq => hsealed.holds.over (hresolved heq), fun dueMs heq => ?_⟩
    refine ⟨not_not.mp fun hnot => ?_, hagain dueMs heq⟩
    rw [hnone hnot] at heq
    cases heq

/-- After a call for the commit there is no other one. -/
abbrev LinksOnce {α : Type} (program : Prog α) : Prop :=
  program.Since (fun c _ => c.op.links = true) (fun c => c.op.links = false) fun _ => True

theorem linksOnce_after {α β : Type} {program : Prog α} {next : α → Prog β}
    (uses : program.Uses fun c => c.op.links = false) (rest : ∀ value, LinksOnce (next value)) :
    LinksOnce (program.bind next) := by
  have hnever : program.Since (fun c _ => c.op.links = true) (fun c => c.op.links = false)
      fun _ => False := by
    refine Program.Since.of_uses uses fun c hc reply hlinks => ?_
    rw [hc] at hlinks
    cases hlinks
  exact hnever.bind rest fun _ h => h.elim

/-- Past a call for the commit there is none. -/
theorem linksOnce_last {α : Type} {program : Prog α} (Q : Prop)
    (uses : program.Uses fun c => c.op.links = false) :
    (Q → program.Uses (fun c => c.op.links = false) ∧ program.Returns fun _ => True) ∧
      LinksOnce program :=
  ⟨fun _ => ⟨uses, Program.returns_true _⟩, Program.Since.of_allowed uses (Program.returns_true _)⟩

theorem linksOnce_moveWithin {fromDir toDir : Dir} {fromName toName : Bytes} :
    LinksOnce (moveWithin fromDir fromName toDir toName strategy) := by
  unfold moveWithin
  cases hfrom : isPlainName fromName with
  | false =>
      rw [rejectBadName_bad hfrom]
      trivial
  | true =>
    cases hto : isPlainName toName with
    | false =>
        rw [rejectBadName_plain hfrom, rejectBadName_bad hto]
        trivial
    | true =>
      rw [rejectBadName_plain hfrom, rejectBadName_plain hto]
      cases strategy with
      | renameNoReplace =>
          intro reply
          cases reply with
          | error e => exact ⟨fun _ => ⟨trivial, trivial⟩, trivial⟩
          | ok _ => exact ⟨fun _ => ⟨trivial, trivial⟩, trivial⟩
      | linkThenUnlink =>
          intro linked
          cases linked with
          | error e => exact ⟨fun _ => ⟨trivial, trivial⟩, trivial⟩
          | ok _ =>
              refine linksOnce_last _ ⟨rfl, fun reply => ?_⟩
              cases reply with
              | error e => trivial
              | ok _ => trivial

theorem linksOnce_commitAndFinish {sourceDir destDir : Dir} {tick : Int} {error : Bytes} :
    LinksOnce (commitAndFinish id request strategy sourceDir destDir tick error) := by
  have hrest : ∀ tick error, (finishAfterCommit id request destDir tick error).Uses
      fun c => c.op.links = false := fun _ _ =>
    uses_finishAfterCommit (fun _ => rfl) (fun _ _ h _ => links_of_readOnly h)
      (fun _ _ _ _ _ => rfl) rfl
  refine linksOnce_moveWithin.bind (fun result => ?_) fun result _ => ?_
  · cases result with
    | error message => trivial
    | ok _ => exact (linksOnce_last True (hrest _ _)).2
  · cases result with
    | error message => exact ⟨trivial, trivial⟩
    | ok _ => exact ⟨hrest _ _, Program.returns_true _⟩

theorem linksOnce_execute : LinksOnce (execute id request strategy) := by
  refine linksOnce_after (uses_validate fun _ _ h => links_of_readOnly h) fun result => ?_
  match result with
  | .error message => trivial
  | .ok (job, sourceDir, destDir, error) =>
      simp only
      split
      · trivial
      split
      · trivial
      split
      · refine linksOnce_after (uses_recordTransition rfl fun _ _ _ => rfl) fun result => ?_
        cases result with
        | error failure => trivial
        | ok _ => exact linksOnce_commitAndFinish
      · exact linksOnce_commitAndFinish

/-- A worker calls for the commit once at most. -/
theorem linksOnce_workOn : LinksOnce (workOn config id request strategy nowMs) := by
  refine linksOnce_execute.bind (fun result => ?_) fun result _ => ⟨?_, Program.returns_true _⟩
  · exact Program.Since.of_allowed (uses_afterExecute (fun _ _ h => links_of_readOnly h)
      (fun _ _ => rfl) (fun _ _ _ => rfl) result.1 result.2) (Program.returns_true _)
  · exact uses_afterExecute (fun _ _ h => links_of_readOnly h) (fun _ _ => rfl)
      (fun _ _ _ => rfl) result.1 result.2

end Whole

end Attempt

end FileMover
