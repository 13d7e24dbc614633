import FileMover.Engine.Execution
import FileMover.Manager.Departed
import FileMover.Manager.Worker

/-!
# What a worker makes of an error

`fsops.cpp` says of each `errno` whether it is worth another attempt; the worker goes by
the place at which the engine stopped instead, and nothing connects the two. Here they
are compared: for the run of a worker in which one system call before the commit fails,
it is said exactly when the job is scheduled again if and only if the `errno` is
retryable, and is FAILED otherwise.
-/

namespace FileMover

open Framework

/-! ## Runs and their failures -/

/-- The failure to be noted of this call: that of a system call up to the commit. -/
def failureOf (c : Call) (reply : Reply c) : List (Site × Fault) :=
  match reply with
  | .error e => if c.site.early then [(c.site, e)] else []
  | .ok _ => []

/-- The system calls up to the commit that fail in this run. -/
def failures {α : Type} (faults : Site → Option Fault) : Prog α → World → List (Site × Fault)
  | .pure _, _ => []
  | .call c next, w =>
      failureOf c (perform c.op (faults c.site) w).1 ++
        failures faults (next (perform c.op (faults c.site) w).1)
          (perform c.op (faults c.site) w).2

/-- The run ends so, with these failures. -/
def Concludes {α : Type} (faults : Site → Option Fault) (program : Prog α) (w : World)
    (post : α → World → List (Site × Fault) → Prop) : Prop :=
  post (run faults program w).1 (run faults program w).2 (failures faults program w)

section Rules
variable {α β : Type} {faults : Site → Option Fault} {program : Prog α} {w : World}
  {post : α → World → List (Site × Fault) → Prop}

theorem failures_bind (next : α → Prog β) :
    failures faults (program.bind next) w =
      failures faults program w ++
        failures faults (next (run faults program w).1) (run faults program w).2 := by
  induction program generalizing w with
  | pure value => rfl
  | call c rest ih =>
      change failureOf c _ ++ failures faults ((rest _).bind next) _ = _
      rw [ih, ← List.append_assoc]
      rfl

theorem Concludes.call {c : Call} {next : Reply c → Prog α} {reply : Reply c} {w' : World}
    (performs : perform c.op (faults c.site) w = (reply, w'))
    (rest : Concludes faults (next reply) w' fun value w'' l =>
      post value w'' (failureOf c reply ++ l)) :
    Concludes faults (.call c next) w post := by
  unfold Concludes at rest ⊢
  rw [run_call, failures, performs]
  exact rest

theorem Concludes.bind {next : α → Prog β} {post' : β → World → List (Site × Fault) → Prop}
    (first : Concludes faults program w post)
    (rest : ∀ value w' l, post value w' l →
      Concludes faults (next value) w' fun value w'' l' => post' value w'' (l ++ l')) :
    Concludes faults (program.bind next) w post' := by
  have hrest := rest _ _ _ first
  unfold Concludes at hrest ⊢
  rw [run_bind, failures_bind]
  exact hrest

theorem Concludes.mono {post' : α → World → List (Site × Fault) → Prop}
    (h : Concludes faults program w post)
    (implies : ∀ value w' l, post value w' l → post' value w' l) :
    Concludes faults program w post' := implies _ _ _ h

/-- A program whose calls all come after the commit has no failures to note. -/
theorem failures_of_late (uses : program.Uses fun c => c.site.early = false) :
    failures faults program w = [] := by
  induction program generalizing w with
  | pure value => rfl
  | call c next ih =>
      have hnothing : ∀ reply, failureOf c reply = [] := by
        intro reply
        cases reply with
        | ok answer => rfl
        | error e => simp only [failureOf, uses.1, Bool.false_eq_true, if_false]
      simp only [failures, hnothing, List.nil_append]
      exact ih _ (uses.2 _)

end Rules

/-! ## Looking at the files -/

section Files
variable {α : Type} {faults : Site → Option Fault} {w : World} {site : Site} {dir : Dir}
  {name path : Bytes} {post : α → World → List (Site × Fault) → Prop}

theorem Concludes.looks {op : Op} {next : Reply ⟨site, op⟩ → Prog α}
    (readOnly : op.readOnly = true)
    (rest : ∀ reply, Concludes faults (next reply) w fun value w' l =>
      post value w' (failureOf ⟨site, op⟩ reply ++ l)) :
    Concludes faults (.call ⟨site, op⟩ next) w post := by
  have hperform : perform op (faults site) w = ((perform op (faults site) w).1, w) :=
    Prod.ext rfl (perform_readOnly readOnly _ w)
  exact Concludes.call hperform (rest _)

theorem Concludes.moves {op : Op} {next : Reply ⟨site, op⟩ → Prog α}
    (moves : op.movesNames = true)
    (rest : ∀ reply w', w'.db = w.db → Concludes faults (next reply) w' fun value w'' l =>
      post value w'' (failureOf ⟨site, op⟩ reply ++ l)) :
    Concludes faults (.call ⟨site, op⟩ next) w post :=
  Concludes.call Prod.mk.eta.symm (rest _ _ (perform_movesNames moves _ w))

theorem Concludes.returns {program : Prog α} {Q : α → Prop} (h : Concludes faults program w post)
    (returns : program.Returns Q) :
    Concludes faults program w fun value w' l => Q value ∧ post value w' l :=
  ⟨returns.exec w, h⟩

theorem failureOf_early {op : Op} (early : site.early = true) (e : Fault) :
    failureOf ⟨site, op⟩ (.error e) = [(site, e)] := by
  simp only [failureOf, early, if_true]

theorem concludes_openRoot (early : site.early = true) :
    Concludes faults (openRoot site path) w fun result w' l => w' = w ∧
      ((∃ found, result = .ok found ∧ l = []) ∨
        ∃ message e, result = .error message ∧ Explains message ∧ l = [(site, e)]) := by
  refine Concludes.looks rfl fun reply => ?_
  cases reply with
  | ok found => exact ⟨rfl, Or.inl ⟨found, rfl, rfl⟩⟩
  | error e =>
      refine ⟨rfl, Or.inr ⟨_, e, rfl, explains_errnoMessage _ e, ?_⟩⟩
      rw [failureOf_early early]
      rfl

/-- A probe that reports anything but an entry has failed, unless the name is no name. -/
theorem concludes_classify (early : site.early = true) :
    Concludes faults (classify site dir name) w fun result w' l => w' = w ∧
      ((isPlainName name = true ∧ ∃ identity, result = .ok identity ∧ l = []) ∨
        (∃ message, result = .error message ∧ Explains message ∧
          (l = [] ∨ ∃ e, l = [(site, e)])) ∨
        ∃ e, result = .ok .missing ∧ l = [(site, e)]) := by
  cases hplain : isPlainName name with
  | false =>
      have hbad : Explained (rejectBadName name) := explained_rejectBadName
      rw [rejectBadName_bad hplain] at hbad
      rw [classify_bad hplain]
      exact ⟨rfl, Or.inr (Or.inl ⟨_, rfl, hbad _ rfl, Or.inl rfl⟩)⟩
  | true =>
      rw [classify_plain hplain]
      refine Concludes.looks rfl fun reply => ?_
      cases reply with
      | ok st => exact ⟨rfl, Or.inl ⟨rfl, _, rfl, rfl⟩⟩
      | error e =>
          rw [failureOf_early early]
          by_cases he : e = ENOENT
          · refine ⟨rfl, Or.inr (Or.inr ⟨e, ?_, rfl⟩)⟩
            simp only [identify, if_pos he]
            rfl
          · refine ⟨rfl, Or.inr (Or.inl ⟨errnoMessage (lit "cannot stat " ++ quoted name) e, ?_,
              explains_errnoMessage _ e, Or.inr ⟨e, rfl⟩⟩)⟩
            simp only [identify, if_neg he]
            rfl

theorem concludes_openRegular {expected : FileIdentity} :
    Concludes faults (openRegular dir name expected) w fun result w' l => w' = w ∧
      ((result = .ok () ∧ l = []) ∨
        ∃ message, result = .error message ∧ Explains message ∧
          (l = [] ∨ ∃ X e, (X = .sourceOpen ∨ X = .sourceFstat) ∧ l = [(X, e)])) := by
  have hfails : Concludes faults (openRegular dir name expected) w fun result w' l => w' = w ∧
      ((result = .ok () ∧ l = []) ∨
        ∃ message, result = .error message ∧
          (l = [] ∨ ∃ X e, (X = .sourceOpen ∨ X = .sourceFstat) ∧ l = [(X, e)])) := by
    unfold openRegular
    cases hplain : isPlainName name with
    | false =>
        rw [rejectBadName_bad hplain]
        exact ⟨rfl, Or.inr ⟨_, rfl, Or.inl rfl⟩⟩
    | true =>
      rw [rejectBadName_plain hplain]
      simp only
      split
      · exact ⟨rfl, Or.inr ⟨_, rfl, Or.inl rfl⟩⟩
      refine Concludes.looks rfl fun opened => ?_
      match opened with
      | .error e =>
          rw [failureOf_early rfl]
          change Concludes faults (if e = ELOOP then _ else _) w _
          split <;> exact ⟨rfl, Or.inr ⟨_, rfl, Or.inr ⟨_, e, Or.inl rfl, rfl⟩⟩⟩
      | .ok fd =>
          refine Concludes.looks rfl fun stated => ?_
          match stated with
          | .error e =>
              rw [failureOf_early rfl]
              exact ⟨rfl, Or.inr ⟨_, rfl, Or.inr ⟨_, e, Or.inr rfl, rfl⟩⟩⟩
          | .ok st =>
              change Concludes faults (if (FileIdentity.ofStat st).sameObjectAs expected = true
                then _ else _) w _
              split
              · exact ⟨rfl, Or.inl ⟨rfl, rfl⟩⟩
              · exact ⟨rfl, Or.inr ⟨_, rfl, Or.inl rfl⟩⟩
  refine (hfails.returns openRegular_explained).mono ?_
  rintro result w' l ⟨hexplained, hworld, hok | ⟨message, rfl, hl⟩⟩
  · exact ⟨hworld, Or.inl hok⟩
  · exact ⟨hworld, Or.inr ⟨message, rfl, hexplained message rfl, hl⟩⟩

/-- A commit that is refused has failed, unless the staging name is no name. -/
theorem concludes_moveWithin {fromDir toDir : Dir} {fromName toName : Bytes}
    {strategy : MoveStrategy} (plain : isPlainName fromName = true) :
    Concludes faults (moveWithin fromDir fromName toDir toName strategy) w fun result w' l =>
      w'.db = w.db ∧
      ((result = .ok () ∧ isPlainName toName = true ∧ l = []) ∨
        ∃ message, result = .error message ∧ (isPlainName toName = false ∧ l = [] ∨
          ∃ X e, (X = .commitRename ∨ X = .commitLink ∨ X = .commitUnlink) ∧
            l = [(X, e)])) := by
  unfold moveWithin
  rw [rejectBadName_plain plain]
  cases hto : isPlainName toName with
  | false =>
      rw [rejectBadName_bad hto]
      exact ⟨rfl, Or.inr ⟨_, rfl, Or.inl ⟨rfl, rfl⟩⟩⟩
  | true =>
    rw [rejectBadName_plain hto]
    cases strategy with
    | renameNoReplace =>
        refine Concludes.moves rfl fun reply w₁ hdb => ?_
        match reply with
        | .ok () => exact ⟨hdb, Or.inl ⟨rfl, rfl, rfl⟩⟩
        | .error e =>
            rw [failureOf_early rfl]
            exact ⟨hdb, Or.inr ⟨_, rfl, Or.inr ⟨_, e, Or.inl rfl, rfl⟩⟩⟩
    | linkThenUnlink =>
        refine Concludes.moves rfl fun linked w₁ hdb => ?_
        match linked with
        | .error e =>
            rw [failureOf_early rfl]
            exact ⟨hdb, Or.inr ⟨_, rfl, Or.inr ⟨_, e, Or.inr (Or.inl rfl), rfl⟩⟩⟩
        | .ok () =>
            refine Concludes.moves rfl fun reply w₂ hdb' => ?_
            match reply with
            | .ok () => exact ⟨hdb'.trans hdb, Or.inl ⟨rfl, rfl, rfl⟩⟩
            | .error e =>
                rw [failureOf_early rfl]
                exact ⟨hdb'.trans hdb, Or.inr ⟨_, rfl, Or.inr ⟨_, e, Or.inr (Or.inr rfl), rfl⟩⟩⟩

end Files

/-! ## The store -/

/-- The places at which statements are made. -/
def Site.onStore : Site → Bool
  | .executeLoad | .finishLoad | .recoverLoad | .transitionLoad _ | .transitionWrite _ => true
  | .intentWrite | .flagWrite | .attemptWrite | .retryLoad => true
  | .failLoad | .cancelLoad | .retriedLoad | .candidateLoad => true
  | _ => false

/-- The row of the job, as far as the worker goes by it. -/
def HasRow (id : Bytes) (x : JobState) (attempts : Nat) (w : World) : Prop :=
  ∃ r, w.db.row id = some r ∧ r.job.state = x ∧ r.attempts = attempts

theorem HasRow.state {id : Bytes} {x : JobState} {attempts : Nat} {w : World}
    (h : HasRow id x attempts w) : w.db.state id = some x := by
  obtain ⟨r, hr, hx, _⟩ := h
  rw [Database.state, hr, ← hx]
  rfl

section Store
variable {faults : Site → Option Fault} {w : World} {id reason : Bytes} {x target : JobState}
  {attempts : Nat} {nowMs : Int}
  (up : ∀ site, site.onStore = true → faults site = none)
include up

theorem concludes_load {site : Site} (store : site.onStore = true) :
    Concludes faults (load site id) w fun loaded w' l =>
      loaded = .ok ((w.db.row id).map (·.job)) ∧ w' = w ∧ l = [] := by
  have hperform : perform (.selectJob id) (faults site) w =
      (.ok ((w.db.row id).map (·.job)), w) := by
    rw [up site store]
    rfl
  exact Concludes.call hperform ⟨rfl, rfl, rfl⟩

theorem concludes_recordAttempt {due : Int} (row : HasRow id x attempts w) :
    Concludes faults (recordAttempt id due reason) w fun result w' l =>
      result = .ok () ∧ HasRow id x (attempts + 1) w' ∧ l = [] := by
  obtain ⟨r, hr, hx, hattempts⟩ := row
  have hperform : perform (.countAttempt id due reason) (faults .attemptWrite) w =
      (.ok 1, { w with db := (w.db.countAttempt id due reason).2 }) := by
    rw [up .attemptWrite rfl]
    simp only [perform, answer, Database.countAttempt, hr]
  refine Concludes.call hperform ⟨rfl, ⟨{ r with
    attempts := r.attempts + 1
    nextRetryMs := due
    lastError := cstr reason }, ?_, hx, congrArg (· + 1) hattempts⟩, rfl⟩
  simp only [Database.countAttempt, hr]
  exact Database.row_setRow_self

/-- A legal transition is written. -/
theorem concludes_updateState (row : HasRow id x attempts w)
    (legal : isLegalTransition x target = true) (fits : target = .failed ↔ reason ≠ [])
    (explains : target = .failed → Explains reason) :
    Concludes faults (updateState id target nowMs reason) w fun result w' l =>
      result = .ok () ∧ HasRow id target attempts w' ∧ w'.fs = w.fs ∧ l = [] := by
  obtain ⟨r, hr, hx, hattempts⟩ := row
  refine (concludes_load up rfl).bind ?_
  rintro _ w₁ _ ⟨rfl, hw, rfl⟩
  subst w₁
  cases htrans : r.job.transition target nowMs reason with
  | none =>
      have hillegal := Job.illegal_of_transition htrans fits
      rw [hx, legal] at hillegal
      cases hillegal
  | some after =>
      obtain ⟨db', hdb⟩ : ∃ db', w.db.updateJob id after = .ok db' :=
        Database.updateJob_of_check (Database.check_of_transition r htrans explains)
      obtain ⟨r', hr', hjob, hsame⟩ := Database.attempts_updateJob hdb hr
      have hperform : perform (.updateJob id r.job after) (faults (.transitionWrite target)) w =
          (.ok (), { w with db := db' }) := by
        rw [up _ rfl]
        simp only [perform, answer, World.onDb, hdb]
      rw [hr]
      simp only [Option.map_some, htrans]
      refine Concludes.call hperform ⟨rfl, ⟨r', hr', ?_, hsame.trans hattempts⟩, rfl, rfl⟩
      have hstate : after.state = target := Job.transition_state htrans
      rw [hjob]
      exact hstate

/-- An illegal one is not. -/
theorem concludes_updateState_refused (row : HasRow id x attempts w)
    (illegal : isLegalTransition x target = false) :
    Concludes faults (updateState id target nowMs reason) w fun result w' l =>
      (∃ e, result = .error e) ∧ w' = w ∧ l = [] := by
  obtain ⟨r, hr, hx, hattempts⟩ := row
  refine (concludes_load up rfl).bind ?_
  rintro _ _ _ ⟨rfl, rfl, rfl⟩
  rw [hr]
  have hnone : r.job.transition target nowMs reason = none := by
    unfold Job.transition
    rw [hx, if_pos illegal]
  simp only [Option.map_some, hnone]
  exact ⟨⟨_, rfl⟩, rfl, rfl⟩

theorem concludes_failPermanently (row : HasRow id x attempts w) (explains : Explains reason) :
    Concludes faults (failPermanently id reason) w fun _ w' l =>
      w'.db.state id = some (if x = .done then .done else .failed) ∧ l = [] := by
  refine (concludes_recordAttempt up row).bind ?_
  rintro _ w₁ _ ⟨rfl, hrow, rfl⟩
  refine (concludes_load up rfl).bind ?_
  rintro _ w₂ _ ⟨rfl, hw, rfl⟩
  subst w₂
  obtain ⟨r, hr, hx, hattempts⟩ := hrow
  have hrow : HasRow id x (attempts + 1) w₁ := ⟨r, hr, hx, hattempts⟩
  rw [hr]
  simp only [Option.map_some, hx]
  by_cases hfailed : x = .failed
  · rw [if_pos hfailed]
    refine ⟨?_, rfl⟩
    change w₁.db.state id = _
    rw [hrow.state, hfailed]
    rfl
  rw [if_neg hfailed]
  by_cases hdone : x = .done
  · subst hdone
    refine (concludes_updateState_refused up hrow rfl).bind ?_
    rintro _ _ _ ⟨_, rfl, rfl⟩
    exact ⟨hrow.state, rfl⟩
  · have hlegal : isLegalTransition x .failed = true := by
      revert hfailed hdone
      cases x <;> decide
    have hmessage : reason ≠ [] := by
      rintro rfl
      exact explains rfl
    refine (concludes_updateState up hrow hlegal (iff_of_true rfl hmessage) fun _ =>
      explains).bind ?_
    rintro _ w₂ _ ⟨_, hrow', _, rfl⟩
    rw [if_neg hdone]
    exact ⟨hrow'.state, rfl⟩

/-- A worker whose run was aborted schedules another one, as long as there are attempts
left. -/
theorem concludes_handleFailure {config : RetryConfig} (row : HasRow id x attempts w)
    (unsettled : x ≠ .done) :
    Concludes faults (handleFailure config id reason nowMs) w fun due w' l =>
      (due.isSome = true ↔ (attempts + 1) % 2 ^ 32 < config.retryMaxAttempts) ∧
      (¬ (attempts + 1) % 2 ^ 32 < config.retryMaxAttempts →
        w'.db.state id = some .failed) ∧ l = [] := by
  obtain ⟨r, hr, hx, hattempts⟩ := row
  have hrow : HasRow id x attempts w := ⟨r, hr, hx, hattempts⟩
  have hload : Concludes faults (loadRetryState id) w fun loaded w' l =>
      loaded = .ok (w.db.retryState id) ∧ w' = w ∧ l = [] := by
    have hperform : perform (.selectRetry id) (faults .retryLoad) w =
        (.ok (w.db.retryState id), w) := by
      rw [up .retryLoad rfl]
      rfl
    exact Concludes.call hperform ⟨rfl, rfl, rfl⟩
  refine hload.bind ?_
  rintro _ w₁ _ ⟨rfl, hw, rfl⟩
  subst w₁
  simp only [Database.retryState, hr, Option.map_some, hattempts]
  by_cases hleft : (attempts + 1) % 2 ^ 32 < config.retryMaxAttempts
  · simp only [if_pos hleft]
    refine (concludes_recordAttempt up hrow).bind ?_
    rintro _ w₁ _ ⟨rfl, _, rfl⟩
    exact ⟨iff_of_true rfl hleft, absurd hleft, rfl⟩
  · simp only [if_neg hleft]
    have hexplains : Explains (lit "gave up after " ++ decimal ((attempts + 1) % 2 ^ 32) ++
        lit " attempts: " ++ reason) := by
      have hstart : Explains (lit "gave up after ") := by decide
      exact ((hstart.append _).append _).append _
    refine (concludes_failPermanently up hrow hexplains).bind ?_
    rintro _ w₁ _ ⟨hstate, rfl⟩
    rw [if_neg unsettled] at hstate
    exact ⟨iff_of_false (by rintro ⟨⟩) hleft, fun _ => hstate, rfl⟩

end Store

/-! ## The engine -/

/-- The calls of phase 1 whose failure is a refusal. -/
def Site.refuses : Site → Bool
  | .sourceRoot | .destRoot | .sourceProbe | .sourceOpen | .sourceFstat => true
  | _ => false

/-- What the last probe of phase 1 leaves behind. -/
def SizeOnly (l : List (Site × Fault)) : Prop := l = [] ∨ ∃ e, l = [(.sizeProbe, e)]

/-- The calls of the commit. -/
def Site.commits : Site → Bool
  | .commitRename | .commitLink | .commitUnlink => true
  | _ => false

section Engine
variable {faults : Site → Option Fault} {w : World} {id : Bytes} {request : MoveRequest}
  {strategy : MoveStrategy} {x : JobState} {attempts : Nat} {nowMs : Int}
  (up : ∀ site, site.onStore = true → faults site = none)

/-- A request that is refused, and what was noted. -/
def Refused (message : Bytes) (l : List (Site × Fault)) : Prop :=
  Explains message ∧ (l = [] ∨ ∃ X e, X.refuses = true ∧ l = [(X, e)])

include up

theorem concludes_validate (row : HasRow id x attempts w) :
    Concludes faults (validate id request) w fun result w' l => w' = w ∧
      ((∃ message, result = .error message ∧ Refused message l) ∨
        isPlainName request.sourceName = true ∧ ∃ job sourceDir destDir error,
          result = .ok (job, sourceDir, destDir, error) ∧ job.state = x ∧ SizeOnly l) := by
  have hmover : Explains (lit "mover: source ") ∧ Explains (lit "mover: refusing ") := by decide
  obtain ⟨r, hr, hx, _⟩ := row
  unfold validate
  split
  · rename_i message hsource
    exact ⟨rfl, Or.inl ⟨_, rfl, explained_validateExternalPath message hsource, Or.inl rfl⟩⟩
  · rename_i message _ hdest
    exact ⟨rfl, Or.inl ⟨_, rfl, explained_validateExternalPath message hdest, Or.inl rfl⟩⟩
  refine (concludes_load up rfl).bind ?_
  rintro _ w₁ _ ⟨rfl, hw, rfl⟩
  subst w₁
  rw [hr]
  simp only [Option.map_some]
  refine (concludes_openRoot rfl).bind ?_
  rintro _ w₁ _ ⟨hw, ⟨sourceDir, rfl, rfl⟩ | ⟨message, e, rfl, hexplains, rfl⟩⟩
  rotate_left
  · exact ⟨hw, Or.inl ⟨_, rfl, hexplains, Or.inr ⟨_, e, rfl, rfl⟩⟩⟩
  subst w₁
  refine (concludes_openRoot rfl).bind ?_
  rintro _ w₁ _ ⟨hw, ⟨destDir, rfl, rfl⟩ | ⟨message, e, rfl, hexplains, rfl⟩⟩
  rotate_left
  · exact ⟨hw, Or.inl ⟨_, rfl, hexplains, Or.inr ⟨_, e, rfl, rfl⟩⟩⟩
  subst w₁
  refine (concludes_classify rfl).bind ?_
  rintro _ w₁ _ ⟨hw, ⟨hplain, sourceId, rfl, rfl⟩ | ⟨message, rfl, hexplains, hl⟩ | ⟨e, rfl, rfl⟩⟩
  · subst w₁
    simp only
    split
    · exact ⟨rfl, Or.inl ⟨_, rfl, (hmover.1.append _).append _, Or.inl rfl⟩⟩
    split
    · exact ⟨rfl, Or.inl ⟨_, rfl, (((hmover.2.append _).append _).append _).append _, Or.inl rfl⟩⟩
    refine concludes_openRegular.bind ?_
    rintro _ w₁ _ ⟨hw, ⟨rfl, rfl⟩ | ⟨message, rfl, hexplains, hl⟩⟩
    rotate_left
    · refine ⟨hw, Or.inl ⟨_, rfl, hexplains, ?_⟩⟩
      rcases hl with rfl | ⟨X, e, rfl | rfl, rfl⟩
      · exact Or.inl rfl
      · exact Or.inr ⟨_, e, rfl, rfl⟩
      · exact Or.inr ⟨_, e, rfl, rfl⟩
    subst w₁
    refine (concludes_classify rfl).bind ?_
    rintro _ w₁ _ ⟨hw, ⟨_, _, rfl, rfl⟩ | ⟨message, rfl, _, rfl | ⟨e, rfl⟩⟩ | ⟨e, rfl, rfl⟩⟩
    · exact ⟨hw, Or.inr ⟨hplain, _, _, _, _, rfl, hx, Or.inl rfl⟩⟩
    · exact ⟨hw, Or.inr ⟨hplain, _, _, _, _, rfl, hx, Or.inl rfl⟩⟩
    · exact ⟨hw, Or.inr ⟨hplain, _, _, _, _, rfl, hx, Or.inr ⟨e, rfl⟩⟩⟩
    · exact ⟨hw, Or.inr ⟨hplain, _, _, _, _, rfl, hx, Or.inr ⟨e, rfl⟩⟩⟩
  · refine ⟨hw, Or.inl ⟨_, rfl, hexplains, ?_⟩⟩
    rcases hl with rfl | ⟨e, rfl⟩
    · exact Or.inl rfl
    · exact Or.inr ⟨_, e, rfl, rfl⟩
  · exact ⟨hw, Or.inl ⟨_, rfl, (hmover.1.append _).append _, Or.inr ⟨_, e, rfl, rfl⟩⟩⟩

/-- How `execute` ends, and what was noted. -/
inductive Ends (id : Bytes) (x : JobState) (attempts : Nat) :
    MoveResult → World → List (Site × Fault) → Prop where
  | refused {message : Bytes} {w : World} {l : List (Site × Fault)}
      (h : Refused message l) (row : HasRow id x attempts w) :
      Ends id x attempts (.rejected, message) w l
  | failed {message : Bytes} {w : World} {l : List (Site × Fault)} (state : x = .failed)
      (explains : Explains message) (row : HasRow id x attempts w) (noted : SizeOnly l) :
      Ends id x attempts (.rejected, message) w l
  | done {error : Bytes} {w : World} {l : List (Site × Fault)} (state : x = .done)
      (row : HasRow id x attempts w) (noted : SizeOnly l) :
      Ends id x attempts (.completed, error) w l
  | aborted {message : Bytes} {w : World} {l l' : List (Site × Fault)} {y : JobState}
      (unsettled : x.isTerminal = false) (moving : y ≠ .done) (row : HasRow id y attempts w)
      (noted : SizeOnly l)
      (why : isPlainName (stagingName id) = false ∧ l' = [] ∨
        ∃ X e, X.commits = true ∧ l' = [(X, e)]) :
      Ends id x attempts (.abortedBeforeCommit, message) w (l ++ l')
  | moved {result : MoveResult} {w : World} {l : List (Site × Fault)}
      (unsettled : x.isTerminal = false) (plain : isPlainName (stagingName id) = true)
      (past : PastCommit result) (row : RowIn (· ≠ .failed) id w) (noted : SizeOnly l) :
      Ends id x attempts result w l

omit up in
theorem concludes_finishAfterCommit {destDir : Dir} {tick : Int} {error : Bytes}
    (row : RowIn (· ≠ .failed) id w) :
    Concludes faults (finishAfterCommit id request destDir tick error) w fun result w' l =>
      PastCommit result ∧ RowIn (· ≠ .failed) id w' ∧ l = [] := by
  have hwrites : (finishAfterCommit id request destDir tick error).Uses
      (WritesOnly (· ≠ .failed)) := finishAfterCommit_unfailed
  refine ⟨finishAfterCommit_pastCommit.exec w, ?_, failures_of_late ?_⟩
  · exact hwrites.exec_keeps (fun c writes fault w h => h.call writes) row
  · exact uses_finishAfterCommit (fun _ => rfl) (fun _ _ _ h => h) (fun _ _ _ _ _ => rfl) rfl

omit up in
theorem concludes_commitAndFinish {sourceDir destDir : Dir} {tick : Int} {error : Bytes}
    {y : JobState} {l : List (Site × Fault)} (plain : isPlainName request.sourceName = true)
    (unsettled : x.isTerminal = false) (moving : y ≠ .done ∧ y ≠ .failed)
    (row : HasRow id y attempts w) (noted : SizeOnly l) :
    Concludes faults (commitAndFinish id request strategy sourceDir destDir tick error) w
      fun result w' l' => Ends id x attempts result w' (l ++ l') := by
  refine (concludes_moveWithin plain).bind ?_
  rintro _ w₁ l' ⟨hdb, ⟨rfl, hto, rfl⟩ | ⟨message, rfl, hwhy⟩⟩
  · have hrow : RowIn (· ≠ .failed) id w₁ := by
      refine ⟨y, ?_, moving.2⟩
      rw [hdb]
      exact row.state
    refine (concludes_finishAfterCommit hrow).mono ?_
    rintro result w₂ _ ⟨hpast, hrow', rfl⟩
    simp only [List.append_nil]
    exact .moved unsettled hto hpast hrow' noted
  · obtain ⟨r, hr, hy, hattempts⟩ := row
    have hrow : HasRow id y attempts w₁ := by
      refine ⟨r, ?_, hy, hattempts⟩
      rw [hdb]
      exact hr
    change Ends id x attempts (_, message) w₁ (l ++ (l' ++ []))
    rw [List.append_nil]
    refine .aborted unsettled moving.1 hrow noted ?_
    rcases hwhy with hwhy | ⟨X, e, hX, rfl⟩
    · exact Or.inl hwhy
    · refine Or.inr ⟨X, e, ?_, rfl⟩
      rcases hX with rfl | rfl | rfl <;> rfl

theorem concludes_execute (row : HasRow id x attempts w) :
    Concludes faults (execute id request strategy) w (Ends id x attempts) := by
  refine (concludes_validate up row).bind ?_
  rintro _ w₁ l
    ⟨hw, ⟨message, rfl, hrefused⟩ | ⟨hplain, job, sourceDir, destDir, error, rfl, hx, hl⟩⟩
  · subst w₁
    change Ends id x attempts (_, message) w (l ++ [])
    rw [List.append_nil]
    exact .refused hrefused row
  subst w₁
  simp only [hx]
  by_cases hdone : x = .done
  · rw [if_pos hdone]
    change Ends id x attempts (_, error) w (l ++ [])
    rw [List.append_nil]
    exact .done hdone row hl
  rw [if_neg hdone]
  by_cases hfailed : x = .failed
  · rw [if_pos hfailed]
    change Ends id x attempts (_, refusingToResurrect id) w (l ++ [])
    rw [List.append_nil]
    have hstart : Explains (lit "mover: job ") := by decide
    exact .failed hfailed ((hstart.append _).append _) row hl
  rw [if_neg hfailed]
  have hunsettled : x.isTerminal = false := by
    revert hdone hfailed
    cases x <;> decide
  by_cases hqueued : x = .queued
  · rw [if_pos hqueued]
    subst hqueued
    have hrecords : Concludes faults (recordTransition id .renaming (nextTick job.updatedAtMs) []
        .beforeCommitPoint) w fun result w' l => result = .ok () ∧ HasRow id .renaming attempts w' ∧
          l = [] := by
      have hlegal : isLegalTransition .queued .renaming = true := rfl
      have hfits : JobState.renaming = .failed ↔ ([] : Bytes) ≠ [] := by decide
      refine (concludes_updateState up row hlegal hfits nofun).bind ?_
      rintro _ w₁ _ ⟨rfl, hrow, _, rfl⟩
      exact ⟨rfl, hrow, rfl⟩
    refine hrecords.bind ?_
    rintro _ w₁ _ ⟨rfl, hrow, rfl⟩
    exact concludes_commitAndFinish hplain hunsettled (by decide) hrow hl
  · rw [if_neg hqueued]
    exact concludes_commitAndFinish hplain hunsettled ⟨hdone, hfailed⟩ row hl

end Engine

/-! ## The worker -/

/-- What the classification asks for: another attempt exactly for a retryable error, and
FAILED for every other. -/
def FollowsClass (id : Bytes) (e : Errno) (due : Option Int) (w : World) : Prop :=
  (due.isSome = true ↔ classifyErrno e = .retryable) ∧
    (classifyErrno e ≠ .retryable → w.db.state id = some .failed)

/-- When the place of the failure happens to agree with the classification. -/
def PlaceAgrees (config : RetryConfig) (id : Bytes) (r : Row) (e : Errno) : Site → Prop
  | .commitRename | .commitLink =>
      classifyErrno e = .retryable ↔ (r.attempts + 1) % 2 ^ 32 < config.retryMaxAttempts
  | .sizeProbe =>
      if r.job.state = .done then False
      else if r.job.state = .failed then classifyErrno e ≠ .retryable
      else isPlainName (stagingName id) = false ∧ (classifyErrno e = .retryable ↔
        (r.attempts + 1) % 2 ^ 32 < config.retryMaxAttempts)
  | _ => classifyErrno e ≠ .retryable ∧ r.job.state ≠ .done

section Worker
variable {id : Bytes} {e : Errno} {w : World}

/-- A job that is given up follows the classification of the errors that are not
retryable. -/
theorem followsClass_none : FollowsClass id e none w ↔
    classifyErrno e ≠ .retryable ∧ w.db.state id = some .failed := by
  constructor
  · rintro ⟨hdue, hfailed⟩
    have hne : classifyErrno e ≠ .retryable := fun h => nomatch hdue.mpr h
    exact ⟨hne, hfailed hne⟩
  · rintro ⟨hne, hfailed⟩
    exact ⟨iff_of_false nofun hne, fun _ => hfailed⟩

theorem SizeOnly.single {l : List (Site × Fault)} {X : Site} (noted : SizeOnly l)
    (hl : l = [(X, e)]) : X = .sizeProbe := by
  rcases noted with rfl | ⟨e', rfl⟩
  · cases hl
  · cases hl
    rfl

/-- How a worker ends a job, with what was noted. -/
theorem concludes_workOn {faults : Site → Option Fault} {config : RetryConfig}
    {request : MoveRequest} {strategy : MoveStrategy} {nowMs : Int} {r : Row} {X : Site}
    (up : ∀ site, site.onStore = true → faults site = none) (hr : w.db.row id = some r)
    (early : X ≠ .commitUnlink) :
    Concludes faults (workOn config id request strategy nowMs) w fun due w' l =>
      l = [(X, e)] → (FollowsClass id e due w' ↔ PlaceAgrees config id r e X) := by
  have hrow : HasRow id r.job.state r.attempts w := ⟨r, hr, rfl, rfl⟩
  refine (concludes_execute up hrow).bind ?_
  intro result w₁ l hends
  have hrejected : ∀ {message}, Explains message → HasRow id r.job.state r.attempts w₁ →
      Concludes faults (do failPermanently id message; return none) w₁
        fun (due : Option Int) w' l' => due = none ∧
          w'.db.state id = some (if r.job.state = .done then .done else .failed) ∧ l' = [] := by
    intro message hexplains row
    refine (concludes_failPermanently up row hexplains).bind ?_
    rintro _ w₂ _ ⟨hstate, rfl⟩
    exact ⟨rfl, hstate, rfl⟩
  cases hends with
  | refused h row =>
      refine (hrejected h.1 row).mono ?_
      rintro due w₂ _ ⟨rfl, hstate, rfl⟩ hl
      rw [List.append_nil] at hl
      have hX : X.refuses = true := by
        rcases h.2 with rfl | ⟨X', e', hX', rfl⟩
        · cases hl
        · cases hl
          exact hX'
      have hplace : PlaceAgrees config id r e X ↔
          classifyErrno e ≠ .retryable ∧ r.job.state ≠ .done := by
        cases X <;> first | exact Iff.rfl | cases hX
      rw [followsClass_none, hplace, hstate]
      by_cases hdone : r.job.state = .done
      · simp [hdone]
      · simp [hdone]
  | failed state explains row noted =>
      refine (hrejected explains row).mono ?_
      rintro due w₂ _ ⟨rfl, hstate, rfl⟩ hl
      rw [List.append_nil] at hl
      cases noted.single hl
      rw [followsClass_none, hstate, PlaceAgrees, state]
      simp
  | done state row noted =>
      intro hl
      change l ++ [] = _ at hl
      rw [List.append_nil] at hl
      cases noted.single hl
      change FollowsClass id e none w₁ ↔ _
      rw [followsClass_none, row.state, PlaceAgrees, state]
      simp
  | @aborted message w₁ l l' y unsettled moving row noted why =>
      refine (concludes_handleFailure up row moving).mono ?_
      rintro due w₂ _ ⟨hdue, hfailed, rfl⟩ hl
      rw [List.append_nil] at hl
      have hfollows : FollowsClass id e due w₂ ↔ (classifyErrno e = .retryable ↔
          (r.attempts + 1) % 2 ^ 32 < config.retryMaxAttempts) := by
        rw [FollowsClass, hdue]
        by_cases hleft : (r.attempts + 1) % 2 ^ 32 < config.retryMaxAttempts
        · simp only [hleft, true_iff, iff_true, and_iff_left_iff_imp]
          exact fun h hne => absurd h hne
        · simp only [hleft, false_iff, iff_false, and_iff_left_iff_imp]
          exact fun _ _ => hfailed hleft
      rw [hfollows]
      rcases why with ⟨hbad, rfl⟩ | ⟨X', e', hX', rfl⟩
      · -- the last probe of phase 1 was the only call that failed
        rw [List.append_nil] at hl
        cases noted.single hl
        have hopen : r.job.state ≠ .done ∧ r.job.state ≠ .failed := by
          constructor <;>
            · intro hstate
              rw [hstate] at unsettled
              cases unsettled
        rw [PlaceAgrees, if_neg hopen.1, if_neg hopen.2]
        simp [hbad]
      · have hX : X = X' := by
          rcases noted with rfl | ⟨e'', rfl⟩
          · cases hl
            rfl
          · cases hl
        subst hX
        cases X <;> first | exact Iff.rfl | exact absurd rfl early | cases hX'
  | moved unsettled plain past row noted =>
      obtain ⟨outcome, error⟩ := result
      have houtcome : outcome ≠ .abortedBeforeCommit ∧ outcome ≠ .rejected := by
        rcases past with h | h | h <;>
          · change outcome = _ at h
            rw [h]
            decide
      simp only [if_neg houtcome.1, if_neg houtcome.2]
      intro hl
      change l ++ [] = _ at hl
      rw [List.append_nil] at hl
      cases noted.single hl
      change FollowsClass id e none w₁ ↔ _
      have hopen : r.job.state ≠ .done ∧ r.job.state ≠ .failed := by
        constructor <;>
          · intro hstate
            rw [hstate] at unsettled
            cases unsettled
      obtain ⟨y, hy, hne⟩ := row
      rw [followsClass_none, hy, PlaceAgrees, if_neg hopen.1, if_neg hopen.2, plain]
      simp [hne]

end Worker

/-- For every run of a worker in which the store works and exactly one system call up to
the commit fails, other than the `unlinkat`: the job is scheduled again if and only if the
`errno` is retryable, and is FAILED otherwise, exactly if the place agrees. -/
theorem retry_follows_class_iff (config : RetryConfig) (id : Bytes) (request : MoveRequest)
    (strategy : MoveStrategy) (nowMs : Int) (w : World) (faults : Site → Option Fault) (r : Row)
    (X : Site) (e : Errno) (row : w.db.row id = some r)
    (up : ∀ site, site.onStore = true → faults site = none)
    (failed : failures faults (workOn config id request strategy nowMs) w = [(X, e)])
    (early : X ≠ .commitUnlink) :
    FollowsClass id e (run faults (workOn config id request strategy nowMs) w).1
        (run faults (workOn config id request strategy nowMs) w).2 ↔
      PlaceAgrees config id r e X :=
  concludes_workOn up row early failed

/-- Only the call at this place fails. -/
def failsAt (X : Site) (e : Errno) (site : Site) : Option Fault :=
  if site = X then some e else none

theorem failsAt_up {X : Site} {e : Errno} (early : X.onStore = false) (site : Site)
    (h : site.onStore = true) : failsAt X e site = none := by
  refine if_neg ?_
  rintro rfl
  rw [early] at h
  cases h

/-- The rename of the sample job finds a stale handle: the job is scheduled again. -/
theorem retry_follows_class_iff_sample :
    failures (failsAt .commitRename ESTALE) (workOn sampleConfig (lit "j") sampleRequest
      .renameNoReplace 0) (sampleWorld .queued [sampleSource]) = [(.commitRename, ESTALE)] ∧
    FollowsClass (lit "j") ESTALE
      (run (failsAt .commitRename ESTALE) (workOn sampleConfig (lit "j") sampleRequest
        .renameNoReplace 0) (sampleWorld .queued [sampleSource])).1
      (run (failsAt .commitRename ESTALE) (workOn sampleConfig (lit "j") sampleRequest
        .renameNoReplace 0) (sampleWorld .queued [sampleSource])).2 := by
  have hfailed : failures (failsAt .commitRename ESTALE) (workOn sampleConfig (lit "j")
      sampleRequest .renameNoReplace 0) (sampleWorld .queued [sampleSource]) =
        [(.commitRename, ESTALE)] := by
    decide
  have hrow : (sampleWorld .queued [sampleSource]).db.row (lit "j") = some (sampleRow .queued) :=
    Database.row_setRow_self
  refine ⟨hfailed, ?_⟩
  refine (retry_follows_class_iff _ _ _ _ _ _ _ _ _ _ hrow (failsAt_up rfl) hfailed
    nofun).mpr ?_
  change classifyErrno ESTALE = .retryable ↔
    ((sampleRow .queued).attempts + 1) % 2 ^ 32 < sampleConfig.retryMaxAttempts
  decide

/-- The source directory has a stale handle: the job is FAILED at the first attempt. -/
theorem stale_root_not_retried :
    ¬ ∀ config id request strategy nowMs w faults r X e, w.db.row id = some r →
      r.attempts < config.retryMaxAttempts →
      (∀ site, site.onStore = true → faults site = none) →
      failures faults (workOn config id request strategy nowMs) w = [(X, e)] →
      X ≠ .commitUnlink →
      FollowsClass id e (run faults (workOn config id request strategy nowMs) w).1
        (run faults (workOn config id request strategy nowMs) w).2 := by
  intro h
  have hfollows := h sampleConfig (lit "j") sampleRequest .renameNoReplace 0
    (sampleWorld .queued [sampleSource]) (failsAt .sourceRoot ESTALE) (sampleRow .queued)
    .sourceRoot ESTALE Database.row_setRow_self (by decide) (failsAt_up rfl) (by decide) nofun
  have hdue : (run (failsAt .sourceRoot ESTALE) (workOn sampleConfig (lit "j") sampleRequest
      .renameNoReplace 0) (sampleWorld .queued [sampleSource])).1 = none := by
    decide
  rw [hdue] at hfollows
  exact absurd (hfollows.1.mpr (by decide)) (by decide)

end FileMover
