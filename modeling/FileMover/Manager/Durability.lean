import FileMover.Engine.Runs
import FileMover.Manager.Underway
import FileMover.Manager.Workers

/-!
# On record first

A job is dispatched only after its intent is on record, and a file is taken out of its
directory only after the record says that the move is under way; and once a statement
that writes has failed, the run in question moves nothing any more.

The histories are those of the whole service: a manager with its commands and workers,
a crash at any point, an engine that is driven directly (as recovery does), and a new
manager on what is left, in any order. A bystander notes which objects the commits of
each job took.
-/

namespace FileMover

open Framework

/-! ## The engine takes nothing that is not on record -/

/-- The object that a commit takes by this call. -/
def takenBy (c : Call) (fault : Option Fault) (w : World) : Option Inode :=
  match c with
  | ⟨.commitRename, .renameat2 source target⟩ =>
      match (perform (.renameat2 source target) fault w).1 with
      | .ok _ => w.fs.entry source
      | .error _ => none
  | ⟨.commitLink, .linkat source target⟩ =>
      match (perform (.linkat source target) fault w).1 with
      | .ok _ => w.fs.entry source
      | .error _ => none
  | _ => none

/-- An object is taken only while the row is there and not QUEUED. The engine has the
store and the directories to itself; any call may fail. -/
def soleContract (id : Bytes) : Contract Call Fault World where
  rely := Eq
  rely_refl := Eq.refl
  rely_trans := Eq.trans
  assume _ _ _ := True
  guarantee c fault w _ := takenBy c fault w ≠ none → Begun id w

section Engine
variable {α : Type} {id : Bytes} {request : MoveRequest} {w : World}

theorem takenBy_eq_none {c : Call} (h : c.op.links = false) (fault : Option Fault) (w : World) :
    takenBy c fault w = none := by
  unfold takenBy
  split
  · cases h
  · cases h
  · rfl

theorem movesNames_of_links {op : Op} (h : op.links = true) : op.movesNames = true := by
  cases op with
  | renameat2 | linkat => rfl
  | _ => cases h

/-- Whoever changes names only while the job is under way takes nothing before. -/
theorem begun_of_underway {c : Call} {fault : Option Fault} {w w' : World}
    (h : (underwayContract (· ≠ .queued) id).guarantee c fault w w')
    (taken : takenBy c fault w ≠ none) : Begun id w := by
  refine h (movesNames_of_links ?_)
  by_contra hlinks
  rw [Bool.not_eq_true] at hlinks
  exact taken (takenBy_eq_none hlinks fault w)

theorem moving_states : JobState.renaming ≠ .queued ∧ JobState.transferring ≠ .queued ∧
    JobState.done ≠ .queued := by
  decide

theorem sole_of_underway {program : Prog α} {post : α → World → Prop}
    (h : program.Safe machine (underwayContract (· ≠ .queued) id) post w) :
    program.Safe machine (soleContract id) post w := by
  refine h.narrow ?_ (fun _ _ _ _ => trivial) fun _ _ _ _ hg => begun_of_underway hg
  rintro w _ rfl
  exact (underwayContract (· ≠ .queued) id).rely_refl w

/-! ### Recovery

What a recovery has seen under the staging name is still there when it links. -/

/-- A program that links nothing. -/
theorem sole_unlinked {program : Prog α} (uses : program.Uses fun c => c.op.links = false) :
    program.Safe machine (soleContract id) (fun _ _ => True) w := by
  refine (Program.Safe.of_uses (P := fun _ => True) uses (Program.returns_true _)
    (fun _ _ => trivial) ?_ trivial).weaken fun _ _ _ => trivial
  intro c hlinks fault w' _ _
  exact ⟨fun htaken => absurd (takenBy_eq_none hlinks fault w') htaken, trivial⟩

/-- A program that only looks leaves the world as it is. -/
theorem sole_looks {program : Prog α} {Q : α → Prop}
    (uses : program.Uses fun c => c.op.readOnly = true) (returns : program.Returns Q) :
    program.Safe machine (soleContract id) (fun value w' => Q value ∧ w' = w) w := by
  refine Program.Safe.of_uses (P := fun w' => w' = w) uses returns ?_ ?_ rfl
  · rintro w' _ rfl h
    exact h
  · rintro c hreadOnly fault w' _ rfl
    refine ⟨fun htaken => ?_, perform_readOnly hreadOnly fault w'⟩
    exact absurd (takenBy_eq_none (links_of_readOnly hreadOnly) fault w') htaken

/-- What a probe that found something has seen. -/
theorem sole_classify {site : Site} {dir : Dir} {name : Bytes} :
    (classify site dir name).Safe machine (soleContract id)
      (fun result w' => w' = w ∧ ∀ identity, result = .ok identity → identity.kind ≠ .missing →
        w.fs.entry ⟨dir, name⟩ ≠ none) w := by
  cases hplain : isPlainName name with
  | false =>
      rw [classify_bad hplain]
      rintro _ rfl
      exact ⟨rfl, nofun⟩
  | true =>
      rw [classify_plain hplain]
      rintro _ rfl fault _
      refine ⟨fun htaken => absurd (takenBy_eq_none rfl fault w) htaken, ?_⟩
      rintro _ rfl
      refine ⟨perform_readOnly rfl fault w, fun identity hidentity hkind hnone => ?_⟩
      rcases perform_fstatat ⟨dir, name⟩ fault w with ⟨e, he, _, hreply⟩ | ⟨_, hreply⟩ | h
      · simp only [machine, hreply, identify, if_neg he] at hidentity
        cases hidentity
      · simp only [machine, hreply, identify, if_true] at hidentity
        cases hidentity
        exact hkind rfl
      · obtain ⟨object, hobject, _⟩ := h
        rw [hobject] at hnone
        cases hnone

/-- An interrupted move has something under its staging name. -/
theorem sole_classifyMoveState {fromDir toDir : Dir} {fromName toName : Bytes} :
    (classifyMoveState fromDir fromName toDir toName).Safe machine (soleContract id)
      (fun result w' => w' = w ∧ (result = .ok .interrupted →
        w.fs.entry ⟨toDir, toName⟩ ≠ none)) w := by
  refine sole_classify.bind ?_
  rintro source w₁ ⟨rfl, -⟩
  cases source with
  | error message =>
      rintro _ rfl
      exact ⟨rfl, nofun⟩
  | ok source =>
      refine sole_classify.bind ?_
      rintro target w₂ ⟨rfl, htarget⟩
      cases target with
      | error message =>
          rintro _ rfl
          exact ⟨rfl, nofun⟩
      | ok target =>
          simp only
          split
          · rename_i hboth
            rintro _ rfl
            exact ⟨rfl, fun _ => htarget target rfl hboth.2⟩
          split
          · rintro _ rfl
            exact ⟨rfl, nofun⟩
          split
          · rintro _ rfl
            exact ⟨rfl, nofun⟩
          · rintro _ rfl
            exact ⟨rfl, nofun⟩

/-- A link to a name that is taken fails. -/
theorem perform_linkat_taken {source target : Slot} (taken : w.fs.entry target ≠ none)
    (fault : Option Fault) : ∃ e, perform (.linkat source target) fault w = (.error e, w) := by
  rcases perform_cases (.linkat source target) fault w with ⟨e, _, heq⟩ | heq
  · exact ⟨e, heq⟩
  · rw [heq]
    simp only [answer, World.onFs]
    split
    · exact ⟨_, rfl⟩
    · rename_i fs' hlink
      obtain ⟨_, _, hfree, _⟩ := Filesystem.link_ok hlink
      exact absurd hfree taken

theorem sole_relink {fromDir toDir : Dir} {fromName toName : Bytes}
    (taken : w.fs.entry ⟨toDir, toName⟩ ≠ none) :
    (moveWithin fromDir fromName toDir toName .linkThenUnlink).Safe machine (soleContract id)
      (fun result _ => ∃ message, result = .error message) w := by
  unfold moveWithin
  cases hfrom : isPlainName fromName with
  | false =>
      rw [rejectBadName_bad hfrom]
      exact fun _ _ => ⟨_, rfl⟩
  | true =>
    cases hto : isPlainName toName with
    | false =>
        rw [rejectBadName_plain hfrom, rejectBadName_bad hto]
        exact fun _ _ => ⟨_, rfl⟩
    | true =>
      rw [rejectBadName_plain hfrom, rejectBadName_plain hto]
      rintro _ rfl fault _
      obtain ⟨e, he⟩ : ∃ e, perform (.linkat ⟨fromDir, fromName⟩ ⟨toDir, toName⟩) fault w =
          (.error e, w) := perform_linkat_taken taken fault
      have hperform : machine.perform ⟨.commitLink, .linkat ⟨fromDir, fromName⟩
          ⟨toDir, toName⟩⟩ fault w = (.error e, w) := he
      rw [hperform]
      refine ⟨fun htaken => absurd ?_ htaken, fun _ _ => ⟨_, rfl⟩⟩
      simp only [takenBy, he]

theorem sole_recover {strategy : MoveStrategy} :
    (recover id request strategy).Safe machine (soleContract id) (fun _ _ => True) w := by
  have hreads : ∀ (site : Site) (op : Op), op.readOnly = true →
      (Call.mk site op).op.readOnly = true := fun _ _ h => h
  have hfinish : ∀ {w'} destDir tick error, (finishAfterCommit id request destDir tick
      error).Safe machine (soleContract id) (fun _ _ => True) w' := by
    intro w' destDir tick error
    exact sole_unlinked (uses_finishAfterCommit (fun _ => rfl)
      (fun _ _ h _ => links_of_readOnly h) (fun _ _ _ _ _ => rfl) rfl)
  have hfail : ∀ {w'} outcome tick error, (failWith id outcome tick error).Safe machine
      (soleContract id) (fun _ _ => True) w' := by
    intro w' outcome tick error
    refine sole_unlinked (Program.Uses.bind (uses_recordTransition ?_ fun _ _ _ => ?_) fun _ =>
      trivial)
    · rfl
    · rfl
  refine (sole_looks (uses_openRoot (hreads _ _ rfl)) (Program.returns_true _)).bind ?_
  rintro source _ ⟨-, rfl⟩
  cases source with
  | error message => exact fun _ _ => trivial
  | ok sourceDir =>
  refine (sole_looks (uses_openRoot (hreads _ _ rfl)) (Program.returns_true _)).bind ?_
  rintro dest _ ⟨-, rfl⟩
  cases dest with
  | error message => exact fun _ _ => trivial
  | ok destDir =>
  refine sole_classifyMoveState.bind ?_
  rintro state _ ⟨rfl, hstaged⟩
  cases state with
  | error message => exact fun _ _ => trivial
  | ok state =>
  refine (sole_looks (uses_load (hreads _ _ rfl)) (Program.returns_true _)).bind ?_
  rintro loaded _ ⟨-, rfl⟩
  match loaded with
  | .error message => exact fun _ _ => trivial
  | .ok none => exact fun _ _ => trivial
  | .ok (some job) =>
      cases state with
      | notStarted => exact sole_of_underway (underway_execute moving_states)
      | interrupted =>
          refine (sole_relink (hstaged rfl)).bind ?_
          rintro _ w₁ ⟨message, rfl⟩
          exact sole_unlinked (uses_haltWith fun _ => rfl)
      | completed => exact hfinish _ _ _
      | collision => exact hfail _ _ _
      | bothMissing =>
          refine (sole_looks (uses_sawEntry (hreads _ _ rfl)) (Program.returns_true _)).bind ?_
          rintro sawFinal _ ⟨-, rfl⟩
          cases sawFinal with
          | true => exact hfinish _ _ _
          | false => exact hfail _ _ _

end Engine

/-! ## Nothing is taken after a failure of the store -/

/-- This call is a statement, and it failed. -/
def storeFailed (c : Call) (reply : Reply c) : Bool :=
  c.op.onStore &&
    match reply with
    | .error _ => true
    | .ok _ => false

/-- Once a statement has failed, the program links nothing, and its result is such. -/
abbrev StopsAtFailure {α : Type} (program : Prog α) (Q : α → Prop) : Prop :=
  program.Since (fun c reply => storeFailed c reply = true) (fun c => c.op.links = false) Q

def IsError {ε α : Type} (result : Except ε α) : Prop := ∃ e, result = .error e

section Failure
variable {α : Type} {Q : α → Prop} {id : Bytes} {request : MoveRequest}
  {strategy : MoveStrategy} {nowMs : Int}

/-- A program that does not use the store has nothing to stop at. -/
theorem stops_of_offStore {program : Prog α}
    (uses : program.Uses fun c => c.op.onStore = false) : StopsAtFailure program Q := by
  refine Program.Since.of_uses uses fun c hc reply hfailed => ?_
  simp only [storeFailed, hc, Bool.false_and] at hfailed
  cases hfailed

/-- The same, before something else. -/
theorem stops_after {β : Type} {R : β → Prop} {program : Prog α} {next : α → Prog β}
    (uses : program.Uses fun c => c.op.onStore = false)
    (rest : ∀ value, StopsAtFailure (next value) R) : StopsAtFailure (program.bind next) R :=
  Program.Since.bind (Q := fun _ => False) (stops_of_offStore uses) rest fun _ h => h.elim

theorem stops_of_unlinked {program : Prog α} (uses : program.Uses fun c => c.op.links = false) :
    StopsAtFailure program fun _ => True :=
  Program.Since.of_allowed uses (Program.returns_true program)

theorem stops_load {site : Site} : StopsAtFailure (load site id) IsError := by
  intro reply
  cases reply with
  | error e => exact ⟨fun _ => ⟨trivial, _, rfl⟩, trivial⟩
  | ok job => exact ⟨nofun, trivial⟩

theorem stops_updateState {target : JobState} {message : Bytes} :
    StopsAtFailure (updateState id target nowMs message) IsError := by
  refine stops_load.bind ?_ ?_
  · intro loaded
    match loaded with
    | .error e => trivial
    | .ok none => trivial
    | .ok (some job) =>
      cases htrans : job.transition target nowMs message with
      | none =>
          simp only [htrans]
          trivial
      | some after =>
          simp only [htrans]
          intro reply
          cases reply with
          | error e => exact ⟨fun _ => ⟨trivial, _, rfl⟩, trivial⟩
          | ok _ => exact ⟨nofun, trivial⟩
  · rintro loaded ⟨e, rfl⟩
    exact ⟨trivial, e, rfl⟩

theorem stops_recordTransition {target : JobState} {message : Bytes} {phase : CommitPhase} :
    StopsAtFailure (recordTransition id target nowMs message phase) IsError := by
  refine stops_updateState.bind ?_ ?_
  · intro result
    cases result with
    | error e => trivial
    | ok _ => trivial
  · rintro result ⟨e, rfl⟩
    exact ⟨trivial, _, rfl⟩

theorem stops_validate : StopsAtFailure (validate id request) IsError := by
  unfold validate
  split
  · trivial
  · trivial
  refine stops_load.bind ?_ ?_
  · intro loaded
    match loaded with
    | .error message => trivial
    | .ok none => trivial
    | .ok (some job) =>
      refine stops_after (uses_openRoot rfl) fun source => ?_
      cases source with
      | error message => trivial
      | ok sourceDir =>
      refine stops_after (uses_openRoot rfl) fun dest => ?_
      cases dest with
      | error message => trivial
      | ok destDir =>
      refine stops_after (uses_classify rfl) fun probed => ?_
      cases probed with
      | error message => trivial
      | ok sourceId =>
      simp only
      split
      · trivial
      split
      · trivial
      refine stops_after (uses_openRegular fun _ _ _ h => h) fun opened => ?_
      cases opened with
      | error message => trivial
      | ok _ =>
      refine stops_after (uses_classify rfl) fun probed => ?_
      cases probed with
      | error message => trivial
      | ok _ => trivial
  · rintro loaded ⟨e, rfl⟩
    exact ⟨trivial, _, rfl⟩

theorem stops_commitAndFinish {sourceDir destDir : Dir} {tick : Int} {error : Bytes} :
    StopsAtFailure (commitAndFinish id request strategy sourceDir destDir tick error)
      fun _ => True := by
  refine stops_after (uses_moveWithin rfl rfl rfl) fun result => ?_
  cases result with
  | error message => trivial
  | ok _ =>
      exact stops_of_unlinked (uses_finishAfterCommit (fun _ => rfl)
        (fun _ _ h _ => links_of_readOnly h) (fun _ _ _ _ _ => rfl) rfl)

theorem stops_execute : StopsAtFailure (execute id request strategy) fun _ => True := by
  refine stops_validate.bind ?_ ?_
  · intro result
    match result with
    | .error message => trivial
    | .ok (job, sourceDir, destDir, error) =>
      simp only
      split
      · trivial
      split
      · trivial
      split
      · refine stops_recordTransition.bind ?_ ?_
        · intro result
          cases result with
          | error failure => trivial
          | ok _ => exact stops_commitAndFinish
        · rintro result ⟨e, rfl⟩
          exact ⟨trivial, trivial⟩
      · exact stops_commitAndFinish
  · rintro result ⟨e, rfl⟩
    exact ⟨trivial, trivial⟩

theorem stops_workOn {config : RetryConfig} :
    StopsAtFailure (workOn config id request strategy nowMs) fun _ => True := by
  refine stops_execute.bind (fun result => ?_) fun result _ => ⟨?_, Program.returns_true _⟩
  · exact stops_of_unlinked (uses_afterExecute (fun _ _ h => links_of_readOnly h)
      (fun _ _ => rfl) (fun _ _ _ => rfl) result.1 result.2)
  · exact uses_afterExecute (fun _ _ h => links_of_readOnly h) (fun _ _ => rfl)
      (fun _ _ _ => rfl) result.1 result.2

theorem stops_recover : StopsAtFailure (recover id request strategy) fun _ => True := by
  have hfinish : ∀ destDir tick error,
      (finishAfterCommit id request destDir tick error).Uses fun c => c.op.links = false := by
    intro destDir tick error
    exact uses_finishAfterCommit (fun _ => rfl) (fun _ _ h _ => links_of_readOnly h)
      (fun _ _ _ _ _ => rfl) rfl
  have hfail : ∀ outcome tick error,
      (failWith id outcome tick error).Uses fun c => c.op.links = false := by
    intro outcome tick error
    refine Program.Uses.bind (uses_recordTransition ?_ fun _ _ _ => ?_) fun _ => trivial
    · rfl
    · rfl
  refine stops_after (uses_openRoot rfl) fun source => ?_
  cases source with
  | error message => trivial
  | ok sourceDir =>
  refine stops_after (uses_openRoot rfl) fun dest => ?_
  cases dest with
  | error message => trivial
  | ok destDir =>
  refine stops_after (uses_classifyMoveState fun _ _ _ h => h) fun state => ?_
  cases state with
  | error message => trivial
  | ok state =>
  refine stops_load.bind ?_ ?_
  · intro loaded
    match loaded with
    | .error message => trivial
    | .ok none => trivial
    | .ok (some job) =>
      cases state with
      | notStarted => exact stops_execute
      | interrupted =>
          refine stops_after (uses_moveWithin rfl rfl rfl) fun result => ?_
          cases result with
          | error message => exact stops_of_unlinked (uses_haltWith fun _ => rfl)
          | ok _ => exact stops_of_unlinked (hfinish _ _ _)
      | completed => exact stops_of_unlinked (hfinish _ _ _)
      | collision => exact stops_of_unlinked (hfail _ _ _)
      | bothMissing =>
          refine stops_after (uses_sawEntry rfl) fun sawFinal => ?_
          cases sawFinal with
          | true => exact stops_of_unlinked (hfinish _ _ _)
          | false => exact stops_of_unlinked (hfail _ _ _)
  · rintro loaded ⟨e, rfl⟩
    exact ⟨trivial, trivial⟩

end Failure

end FileMover
