import FileMover.Manager.Stranding
import FileMover.Manager.Underway
import FileMover.Manager.Workers

/-!
# The two lists of due jobs

The jobs that are to run again later are in `waiting`, with the time at which they are
due. The store keeps the same time in `next_retry_ms`, and `due_jobs` is the query for it;
but that query asks for QUEUED rows, and an attempt that is to be repeated has left QUEUED
behind: it stops at the commit, after RENAMING was recorded, or before, because the row
was not QUEUED any more.

Proved here, for every history in which no statement fails: no job in `waiting` is QUEUED
on record. So `due_jobs` agrees with `waiting` exactly when nothing in `waiting` is due.
-/

namespace FileMover

open Framework

/-! ## An attempt that is to be repeated -/

section Attempt
variable {α : Type} {id : Bytes} {request : MoveRequest} {w : World}

/-- A row that is not QUEUED is not made QUEUED by anybody. -/
theorem begun_on {program : Prog α} (uses : program.Uses AdvancingCall) (begun : Begun id w) :
    program.Safe machine (cancelContract id) (fun _ w' => Begun id w') w := by
  have hstable : ∀ {w w'}, (cancelContract id).rely w w' → Begun id w → Begun id w' :=
    fun rely => rely.2
  refine (Program.Safe.of_uses uses (Program.returns_true _) hstable ?_ begun).weaken
    fun _ _ h => h.2
  intro c advances fault w _ begun
  exact ⟨trivial, begun.call advances⟩

theorem read_validate :
    (validate id request).Safe machine (cancelContract id)
      (fun result w' => ∀ job rest, result = .ok (job, rest) →
        ReadAs (· ≠ .queued) id job w') w :=
  underway_validate.narrow (fun rely => rely) (fun _ _ _ _ => trivial) fun _ _ _ _ _ => trivial

/-- Recorded or refused, the row is not QUEUED after phase 2. -/
theorem begun_recordTransition {tick : Int} {phase : CommitPhase}
    (present : w.db.state id ≠ none) :
    (recordTransition id .renaming tick [] phase).Safe machine (cancelContract id)
      (fun _ w' => Begun id w') w := by
  have hnever : JobState.renaming = .failed → Explains [] := nofun
  refine (safe_updateState (fun _ _ _ h => h) (fun _ _ _ _ => trivial)
    (cancel_present present) hnever).bind ?_
  rintro result w₁ (⟨rfl, w₂, hstate, hw⟩ | ⟨⟨e, rfl⟩, job, w₂, _, hstate, htrans, hw⟩)
  · exact fun w₃ hw₃ => hw₃.2 (hw.2 ⟨.renaming, hstate, nofun⟩)
  · have hillegal := Job.illegal_of_transition htrans (by simp)
    have hbegun : Begun id w₂ := by
      refine ⟨job.state, hstate, ?_⟩
      intro hqueued
      rw [hqueued] at hillegal
      cases hillegal
    exact fun w₃ hw₃ => hw₃.2 (hw.2 hbegun)

theorem commitAndFinish_advancing {strategy : MoveStrategy} {sourceDir destDir : Dir}
    {tick : Int} {error : Bytes} :
    (commitAndFinish id request strategy sourceDir destDir tick error).Uses AdvancingCall := by
  refine uses_commitAndFinish (fun _ => trivial) (fun _ _ h _ => advancing_of_readOnly h) ?_ ?_
  · rintro target before after (rfl | rfl) hafter
    · simp only [AdvancingCall, hafter]
      nofun
    · simp only [AdvancingCall, hafter]
      nofun
  · intro site op hmoves
    cases op with
    | updateJob => cases hmoves
    | _ => trivial

/-- An attempt that is given up before the commit leaves a row that is not QUEUED. -/
theorem aborted_execute {strategy : MoveStrategy} :
    (execute id request strategy).Safe machine (cancelContract id)
      (fun result w' => result.1 = .abortedBeforeCommit → Begun id w') w := by
  refine read_validate.bind fun result w₁ h₁ => ?_
  match result with
  | .error message => nofun
  | .ok (job, sourceDir, destDir, error) =>
      have hread : ReadAs (· ≠ .queued) id job w₁ := h₁ job _ rfl
      have hcommit : ∀ {w'} tick, Begun id w' →
          (commitAndFinish id request strategy sourceDir destDir tick error).Safe machine
            (cancelContract id) (fun result w' => result.1 = .abortedBeforeCommit → Begun id w')
            w' :=
        fun tick hbegun => (begun_on commitAndFinish_advancing hbegun).weaken fun _ _ h _ => h
      simp only
      split
      · nofun
      split
      · nofun
      split
      · refine (begun_recordTransition hread.1).bind fun recorded w₂ h₂ => ?_
        match recorded with
        | .ok _ => exact hcommit _ h₂
        | .error (action, message) => exact fun w₃ hw _ => hw.2 h₂
      · rename_i hqueued
        exact hcommit _ (hread.2 hqueued)

theorem handleFailure_advancing {config : RetryConfig} {failure : Bytes} {nowMs : Int} :
    (handleFailure config id failure nowMs).Uses AdvancingCall := by
  refine uses_handleFailure (fun _ _ h => advancing_of_readOnly h) (fun _ _ => trivial) ?_
  intro before after hafter
  simp only [AdvancingCall, hafter]
  decide

theorem repeated_workOn {config : RetryConfig} {strategy : MoveStrategy} {nowMs : Int} :
    (workOn config id request strategy nowMs).Safe machine (cancelContract id)
      (fun due w' => due ≠ none → Begun id w') w := by
  refine aborted_execute.bind ?_
  rintro ⟨outcome, error⟩ w₁ h₁
  simp only
  split
  · rename_i haborted
    exact (begun_on handleFailure_advancing (h₁ haborted)).weaken fun _ _ h _ => h
  split
  · -- a rejected job is not repeated
    have hfail : (failPermanently id error).Safe machine (cancelContract id)
        (fun _ _ => True) w₁ := Program.safe_of_free fun _ _ _ _ => trivial
    exact hfail.bind fun _ w₂ _ w₃ _ hnone => absurd rfl hnone
  · exact fun w₂ _ hnone => absurd rfl hnone

end Attempt

/-! ## The invariant -/

section Step
variable {s t : System} {event : ManagerEvent}

/-- What is left of `waiting` was there before. -/
theorem lookup_of_lookup_erase {waiting : AList fun _ : Bytes => Int} {id id' : Bytes} {dueMs : Int}
    (h : (waiting.erase id').lookup id = some dueMs) : waiting.lookup id = some dueMs := by
  by_cases hid : id = id'
  · subst hid
    rw [AList.lookup_erase] at h
    cases h
  · rwa [AList.lookup_erase_ne hid] at h

theorem Manager.waiting_pump {m : Manager} {nowMs : Int} {id : Bytes} {dueMs : Int}
    (h : (m.pump nowMs).waiting.lookup id = some dueMs) : m.waiting.lookup id = some dueMs := by
  have hfold : ∀ (ids : List Bytes) (waiting : AList fun _ : Bytes => Int),
      (ids.foldl (fun waiting id => waiting.erase id) waiting).lookup id = some dueMs →
      waiting.lookup id = some dueMs := by
    intro ids
    induction ids with
    | nil => exact fun _ h => h
    | cons id' ids ih => exact fun waiting h => lookup_of_lookup_erase (ih _ h)
  unfold Manager.pump at h
  split at h
  · exact h
  · exact hfold _ _ h

/-- Only a worker that settles puts a job into `waiting`. -/
theorem SystemStep.waiting_lookup (step : SystemStep s event t) {id : Bytes} {dueMs : Int}
    (waits : t.manager.waiting.lookup id = some dueMs) :
    s.manager.waiting.lookup id = some dueMs ∨
      ∃ n, event = .proceed n ∧ s.threads n = .working id (.pure (some dueMs)) := by
  cases step with
  | paused free h =>
      obtain ⟨_, _, rfl⟩ := Manager.pause_eq h
      exact Or.inl (lookup_of_lookup_erase waits)
  | resumed free h =>
      obtain ⟨_, _, rfl⟩ := Manager.resume_eq h
      exact Or.inl waits
  | pumped => exact Or.inl (Manager.waiting_pump waits)
  | claimedSubmit free h =>
      obtain ⟨_, _, rfl⟩ := Manager.claimSubmit_eq h
      exact Or.inl waits
  | claimedCancel free h =>
      obtain ⟨_, _, _, rfl⟩ := Manager.claimCancel_eq h
      exact Or.inl (lookup_of_lookup_erase waits)
  | claimedCandidate thread h =>
      obtain ⟨_, _, rfl⟩ := Manager.claimCandidate_eq h
      exact Or.inl waits
  | @published n id' request recorded storeMutex h =>
      refine Or.inl ?_
      cases recorded with
      | error message => exact waits
      | ok _ => exact waits
  | settledCancel thread =>
      refine Or.inl ?_
      simp only [System.setThread, Manager.settleCancel] at waits
      split at waits
      · exact waits
      · exact waits
  | pickedUp thread h =>
      obtain ⟨_, _, _, _, rfl⟩ := Manager.pickUp_eq h
      exact Or.inl waits
  | @settled n id' due thread =>
      cases due with
      | none => exact Or.inl waits
      | some dueMs' =>
          by_cases hid : id = id'
          · subst hid
            have hdue : dueMs' = dueMs := Option.some.inj ((AList.lookup_insert _).symm.trans waits)
            rw [hdue] at thread
            exact Or.inr ⟨n, rfl, thread⟩
          · exact Or.inl ((AList.lookup_insert_ne hid).symm.trans waits)
  | _ => exact Or.inl waits

theorem SystemStep.waiting (step : SystemStep s event t) {id : Bytes}
    (waits : id ∈ t.manager.waiting) :
    id ∈ s.manager.waiting ∨
      ∃ n due, event = .proceed n ∧ s.threads n = .working id (.pure (some due)) := by
  obtain ⟨dueMs, hdue⟩ := Option.isSome_iff_exists.mp (AList.lookup_isSome.mpr waits)
  rcases step.waiting_lookup hdue with hbefore | ⟨n, hevent, hthread⟩
  · exact Or.inl (AList.lookup_isSome.mp (by rw [hbefore]; rfl))
  · exact Or.inr ⟨n, dueMs, hevent, hthread⟩

/-- A job in `waiting` is not QUEUED on record, and no worker will put one there that is. -/
structure Lapsed (s : System) : Prop where
  waits : ∀ id ∈ s.manager.waiting, Begun id s.world
  works : Workers cancelContract (fun id due w' => due ≠ none → Begun id w') s

theorem Lapsed.step (inv : Lapsed s) (registry : Registry s) (up : StoreWorks s event)
    (step : SystemStep s event t) : Lapsed t := by
  have hlasts : ∀ {id}, Begun id s.world → Begun id t.world := by
    intro id hbegun
    rcases step.world with hworld | ⟨n, fault, c, rest, rfl, calling, hworld⟩
    · rw [hworld]
      exact hbegun
    · rw [hworld]
      exact (registry.cancel_rely calling id).2 hbegun
  refine ⟨fun id hid => ?_, inv.works.step step ?_ ?_ ?_⟩
  · rcases step.waiting hid with hbefore | ⟨n, due, rfl, hthread⟩
    · exact hlasts (inv.waits id hbefore)
    · exact hlasts ((inv.works n id _ hthread).result nofun)
  · rintro n fault id c next rfl hworking
    have hcalling : Calling (s.threads n) c fun reply => .working id (next reply) := by
      rw [hworking]
      exact .working
    exact up.assume hcalling
  · exact fun n fault c rest calling k id more _ _ => registry.cancel_rely calling id
  · exact fun n nowMs id request m _ _ => repeated_workOn

end Step

theorem lapsed_started (config : RetryConfig) (strategy : MoveStrategy) (w : World)
    (workers : Nat → Bool) : Lapsed (System.started config strategy w workers) :=
  ⟨fun id hid => absurd hid (AList.notMem_empty id), workers_started config strategy w workers⟩

/-! ## Agreement -/

/-- Every job in `waiting` that is due is among those that `due_jobs` returns. -/
def DueAgrees (s : System) (nowMs : Int) : Prop :=
  ∀ id due, s.manager.waiting.lookup id = some due → due ≤ nowMs →
    cstr id ∈ s.world.db.dueJobs nowMs

/-- In every state of every history of a started manager in which no statement fails: the
query returns no job that is in `waiting`, so the two lists agree exactly when no job in
`waiting` is due. -/
theorem due_agrees_iff (config : RetryConfig) (strategy : MoveStrategy) (w : World)
    (workers : Nat → Bool) (s : System)
    (reach : GuardedReach System.act StoreWorks (System.started config strategy w workers) s)
    (nowMs : Int) :
    DueAgrees s nowMs ↔ ∀ id due, s.manager.waiting.lookup id = some due → nowMs < due := by
  obtain ⟨_, hinv⟩ : Registry s ∧ Lapsed s := by
    refine reach.invariant (fun s => Registry s ∧ Lapsed s) ?_
      ⟨registry_started config strategy w workers, lapsed_started config strategy w workers⟩
    intro s t event up h inv
    exact ⟨inv.1.step (systemStep h), inv.2.step inv.1 up (systemStep h)⟩
  have hmissed : ∀ id due, s.manager.waiting.lookup id = some due →
      cstr id ∉ s.world.db.dueJobs nowMs := by
    intro id due hdue hmem
    obtain ⟨r, hrow, hqueued, _⟩ := Database.mem_dueJobs.mp hmem
    obtain ⟨x, hx, hne⟩ := hinv.waits id (AList.lookup_isSome.mp (by rw [hdue]; rfl))
    rw [Database.state, hrow] at hx
    exact hne ((Option.some.inj hx).symm.trans hqueued)
  constructor
  · intro hagrees id due hdue
    by_contra hle
    exact hmissed id due hdue (hagrees id due hdue (by omega))
  · intro hlater id due hdue hle
    have := hlater id due hdue
    omega

/-- The job of the sample history waits until 1000: before, nothing is due and nothing is
missed; from then on it is missed. -/
theorem due_agrees_iff_sample :
    ∃ s, replay System.act sampleBackoff sampleSystem = some s ∧
      s.manager.waiting.lookup (lit "j") = some 1000 ∧ DueAgrees s 999 ∧ ¬ DueAgrees s 1000 := by
  have meet : AllSteps System.act StoreWorks sampleBackoff sampleSystem := by
    decide
  obtain ⟨s, hs, hcheck⟩ := (Option.any_eq_true _ _).mp
    (by decide : (replay System.act sampleBackoff sampleSystem).any (fun s =>
      decide (s.manager.waiting.entries = [⟨lit "j", 1000⟩])) = true)
  have hentries : s.manager.waiting.entries = [⟨lit "j", 1000⟩] := of_decide_eq_true hcheck
  have hreach := GuardedReach.of_replay meet hs
  have hwaits : ∀ id due, s.manager.waiting.lookup id = some due ↔ id = lit "j" ∧ due = 1000 := by
    intro id due
    rw [← Option.mem_def, AList.mem_lookup_iff, hentries]
    simp
  refine ⟨s, hs, (hwaits _ _).mpr ⟨rfl, rfl⟩, ?_, ?_⟩
  · refine (due_agrees_iff _ _ _ _ s hreach 999).mpr fun id due hdue => ?_
    rw [((hwaits id due).mp hdue).2]
    decide
  · intro hagrees
    have hlater := (due_agrees_iff _ _ _ _ s hreach 1000).mp hagrees (lit "j") 1000
      ((hwaits _ _).mpr ⟨rfl, rfl⟩)
    exact absurd hlater (by decide)

/-- A worker records RENAMING, its rename fails, and the job waits: its time comes, and the
query does not return it. -/
theorem waiting_job_not_due :
    ¬ ∀ config strategy w workers s, GuardedReach System.act StoreWorks
        (System.started config strategy w workers) s →
      s.manager.running = true → (∀ n, (s.threads n).inCommand = false) →
      ∀ nowMs, DueAgrees s nowMs := by
  intro h
  have meet : AllSteps System.act StoreWorks sampleBackoff sampleSystem := by
    decide
  obtain ⟨s, hs, hcheck⟩ := (Option.any_eq_true _ _).mp
    (by decide : (replay System.act sampleBackoff sampleSystem).any (fun s =>
      decide (s.manager.running = true ∧ (s.threads 1).inCommand = false ∧
        (s.threads 3).inCommand = false ∧ s.manager.waiting.lookup (lit "j") = some 1000 ∧
        lit "j" ∉ s.world.db.dueJobs 1000)) = true)
  obtain ⟨hrunning, hone, hthree, hwaits, hmissed⟩ := of_decide_eq_true hcheck
  have hagrees : DueAgrees s 1000 := h _ _ _ _ s (.of_replay meet hs) hrunning
    (sample_quiet hs (by decide) hone hthree) 1000
  exact hmissed (hagrees (lit "j") 1000 hwaits le_rfl)

end FileMover
