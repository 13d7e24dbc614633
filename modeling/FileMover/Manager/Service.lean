import FileMover.Manager.Durability

/-!
# Histories of the service

The service is a manager, or an engine that is driven directly (as a recovery does), and
either can die between any two calls. What is left is the disk and the table, on which
another engine run or another manager is started. While no engine is driven directly,
anybody may change the files.

A bystander notes the objects that the commits of each job took, which runs have met a
statement that failed, and whose commits took something after that.
-/

namespace FileMover

open Framework

structure Notes where
  moved : Bytes → List Inode
  /-- The present run of this thread has met a statement that failed. -/
  failed : Nat → Bool
  /-- The jobs that took an object in spite of it. -/
  late : List Bytes

namespace Notes

def empty : Notes := ⟨fun _ => [], fun _ => false, []⟩

/-- Thread `n` makes a call for this job. -/
def call (notes : Notes) (n : Nat) (id : Bytes) (c : Call) (fault : Option Fault)
    (w : World) : Notes where
  moved :=
    match takenBy c fault w with
    | some object => Function.update notes.moved id (object :: notes.moved id)
    | none => notes.moved
  failed := Function.update notes.failed n
    (notes.failed n || storeFailed c (perform c.op fault w).1)
  late := if notes.failed n && (takenBy c fault w).isSome then id :: notes.late else notes.late

/-- Thread `n` begins a run. -/
def begin (notes : Notes) (n : Nat) : Notes :=
  { notes with failed := Function.update notes.failed n false }

@[simp] theorem call_failed (notes : Notes) (n : Nat) (id : Bytes) (c : Call)
    (fault : Option Fault) (w : World) : (notes.call n id c fault w).failed n =
      (notes.failed n || storeFailed c (perform c.op fault w).1) := by
  simp [call]

@[simp] theorem begin_failed (notes : Notes) (n : Nat) : (notes.begin n).failed n = false := by
  simp [begin]

def event (notes : Notes) (s : System) : ManagerEvent → Notes
  | .call n fault =>
      match s.threads n with
      | .working id (.call c _) => notes.call n id c fault s.world
      | _ => notes
  | .pickUp n _ => notes.begin n
  | _ => notes

end Notes

inductive ServicePhase
  | managed (s : System)
  /-- No manager; perhaps a run of the engine for some job. -/
  | driven (w : World) (run : Option (Bytes × Prog MoveResult))

def ServicePhase.world : ServicePhase → World
  | .managed s => s.world
  | .driven w _ => w

structure Service where
  phase : ServicePhase
  notes : Notes

inductive ServiceEvent
  | manager (event : ManagerEvent)
  | begin (entry : Entry) (id : Bytes) (request : MoveRequest) (strategy : MoveStrategy)
  | call (fault : Option Fault)
  /-- The run returns, or the process dies. -/
  | stop
  /-- The manager dies with all its threads. -/
  | crash
  | start (config : RetryConfig) (strategy : MoveStrategy) (workers : Nat → Bool)
  | outside (fs : Filesystem)

/-- The thread that drives the engine directly. -/
def driver : Nat := 0

def Service.act (v : Service) : ServiceEvent → Option Service
  | .manager event =>
      match v.phase with
      | .managed s => (s.act event).map fun t => ⟨.managed t, v.notes.event s event⟩
      | .driven _ _ => none
  | .begin entry id request strategy =>
      match v.phase with
      | .driven w none =>
          some ⟨.driven w (some (id, entry.program id request strategy)), v.notes.begin driver⟩
      | _ => none
  | .call fault =>
      match v.phase with
      | .driven w (some (id, .call c next)) =>
          some ⟨.driven (perform c.op fault w).2 (some (id, next (perform c.op fault w).1)),
            v.notes.call driver id c fault w⟩
      | _ => none
  | .stop =>
      match v.phase with
      | .driven w (some _) => some ⟨.driven w none, v.notes⟩
      | _ => none
  | .crash =>
      match v.phase with
      | .managed s => some ⟨.driven s.world none, v.notes⟩
      | .driven _ _ => none
  | .start config strategy workers =>
      match v.phase with
      | .driven w none => some ⟨.managed (.started config strategy w workers), v.notes⟩
      | _ => none
  | .outside fs =>
      match v.phase with
      | .managed s => some ⟨.managed { s with world := { s.world with fs := fs } }, v.notes⟩
      | .driven w none => some ⟨.driven { w with fs := fs } none, v.notes⟩
      | .driven _ (some _) => none

/-- Before anything has happened. -/
def Service.initial (w : World) : Service := ⟨.driven w none, .empty⟩

/-! ## The invariant -/

/-- From here on the program links nothing, or stops at the first failure. -/
def StopsFrom {α : Type} (failed : Bool) (program : Prog α) : Prop :=
  if failed then program.Uses fun c => c.op.links = false
  else StopsAtFailure program fun _ => True

theorem StopsFrom.call {α : Type} {failed : Bool} {c : Call} {next : Reply c → Prog α}
    (h : StopsFrom failed (.call c next)) (reply : Reply c) :
    (failed = true → c.op.links = false) ∧
      StopsFrom (failed || storeFailed c reply) (next reply) := by
  cases failed with
  | true =>
      have huses : (Program.call c next).Uses fun c => c.op.links = false := h
      exact ⟨fun _ => huses.1, huses.2 reply⟩
  | false =>
      have hstops : StopsAtFailure (Program.call c next) fun _ => True := h
      refine ⟨nofun, ?_⟩
      cases hfailed : storeFailed c reply with
      | true => exact ((hstops reply).1 hfailed).1
      | false => exact (hstops reply).2

/-- What holds of a manager at every moment. -/
structure Orderly (s : System) (failed : Nat → Bool) : Prop where
  registry : Registry s
  active : ∀ id ∈ s.manager.active, id ∈ s.manager.requests
  workers : Workers (underwayContract (· ≠ .queued)) (fun _ _ _ => True) s
  stops : ∀ n id rest, s.threads n = .working id rest → StopsFrom (failed n) rest

def ServicePhase.InOrder (failed : Nat → Bool) : ServicePhase → Prop
  | .managed s => Orderly s failed
  | .driven _ none => True
  | .driven w (some (id, program)) =>
      program.Safe machine (soleContract id) (fun _ _ => True) w ∧
        program.Uses AdvancingCall ∧ StopsFrom (failed driver) program

structure OnRecord (v : Service) : Prop where
  phase : v.phase.InOrder v.notes.failed
  moved : ∀ id, v.notes.moved id ≠ [] → Begun id v.phase.world
  late : v.notes.late = []

/-! ### One call -/

section Call
variable {notes : Notes} {n : Nat} {id : Bytes} {c : Call} {fault : Option Fault} {w : World}

/-- A call that keeps its guarantee and does not bring a row back to QUEUED leaves every
object that was ever taken on record. -/
theorem Notes.call_moved (moved : ∀ id, notes.moved id ≠ [] → Begun id w)
    (guarantee : takenBy c fault w ≠ none → Begun id w) (advances : AdvancingCall c)
    (other : Bytes) (h : (notes.call n id c fault w).moved other ≠ []) :
    Begun other (perform c.op fault w).2 := by
  refine Begun.call ?_ advances
  cases htaken : takenBy c fault w with
  | none =>
      simp only [Notes.call, htaken] at h
      exact moved other h
  | some object =>
      by_cases hother : other = id
      · rw [hother]
        exact guarantee (by rw [htaken]; nofun)
      · simp only [Notes.call, htaken, Function.update_of_ne hother] at h
        exact moved other h

theorem Notes.call_late (late : notes.late = [])
    (stops : notes.failed n = true → c.op.links = false) :
    (notes.call n id c fault w).late = [] := by
  have hquiet : (notes.failed n && (takenBy c fault w).isSome) = false := by
    cases hfailed : notes.failed n with
    | false => rfl
    | true => rw [takenBy_eq_none (stops hfailed)]; rfl
  simp only [Notes.call, hquiet]
  exact late

end Call

/-! ### The manager -/

section Manager
variable {s t : System} {event : ManagerEvent} {notes : Notes}

theorem active_known (registry : Registry s)
    (active : ∀ id ∈ s.manager.active, id ∈ s.manager.requests) (step : SystemStep s event t) :
    ∀ id ∈ t.manager.active, id ∈ t.manager.requests := by
  cases step with
  | paused free h =>
      obtain ⟨_, _, rfl⟩ := Manager.pause_eq h
      exact active
  | resumed free h =>
      obtain ⟨_, _, rfl⟩ := Manager.resume_eq h
      exact active
  | @pumped nowMs =>
      intro id h
      have hactive : (s.manager.pump nowMs).active = s.manager.active := by
        unfold Manager.pump
        split <;> rfl
      change id ∈ (s.manager.pump nowMs).requests
      rw [Manager.requests_pump]
      exact active id (hactive ▸ h)
  | claimedSubmit free h =>
      obtain ⟨_, _, rfl⟩ := Manager.claimSubmit_eq h
      exact active
  | claimedCancel free h =>
      obtain ⟨_, _, _, rfl⟩ := Manager.claimCancel_eq h
      exact active
  | claimedCandidate thread h =>
      obtain ⟨_, _, rfl⟩ := Manager.claimCandidate_eq h
      exact active
  | @published n id request recorded storeMutex h =>
      intro id' h'
      refine (Manager.requests_publish _ _).mpr (Or.inl (active id' ?_))
      have hactive : (s.manager.publish id request (System.recordedOk recorded)).active =
          s.manager.active := by
        unfold Manager.publish
        split <;> rfl
      exact hactive ▸ h'
  | @settledCancel n id wasRunnable outcome error thread =>
      have hsettle : (s.manager.settleCancel id wasRunnable outcome).active = s.manager.active ∧
          (s.manager.settleCancel id wasRunnable outcome).requests = s.manager.requests := by
        unfold Manager.settleCancel
        split <;> exact ⟨rfl, rfl⟩
      intro id' h'
      change id' ∈ (s.manager.settleCancel id wasRunnable outcome).requests
      rw [hsettle.2]
      exact active id' (hsettle.1 ▸ h')
  | @pickedUp n nowMs id request m thread h =>
      obtain ⟨rest, requests, hrunnable, hrequests, rfl⟩ := Manager.pickUp_eq h
      have hknown : id ∈ s.manager.requests := by
        refine registry.known id (Or.inl ?_)
        rw [hrunnable]
        exact List.mem_cons_self
      have hsame := hrequests hknown
      subst hsame
      intro id' h'
      rcases Finset.mem_insert.mp h' with rfl | h'
      · exact hknown
      · exact active id' h'
  | @settled n id due thread =>
      intro id' h'
      cases due with
      | none => exact active id' (Finset.mem_of_mem_erase h')
      | some dueMs => exact active id' (Finset.mem_of_mem_erase h')
  | _ => exact active

/-- What the workers leave to each other. -/
theorem durable_rely {n : Nat} {c : Call} {rest : Reply c → Thread} {fault : Option Fault}
    (registry : Registry s) (calling : Calling (s.threads n) c rest) (id : Bytes) :
    (underwayContract (· ≠ .queued) id).rely s.world (perform c.op fault s.world).2 :=
  ⟨perform_state_ne_none, fun begun => begun.call (calling.advancing (registry.confined n))⟩

/-- What the notes say after an event: a worker made a call for its job, or nobody did. -/
theorem Notes.event_cases (notes : Notes) (s : System) (event : ManagerEvent) :
    (∃ n fault id c next, event = .call n fault ∧ s.threads n = .working id (.call c next) ∧
      notes.event s event = notes.call n id c fault s.world) ∨
    ((notes.event s event).moved = notes.moved ∧ (notes.event s event).late = notes.late) := by
  cases event with
  | call n fault =>
      simp only [Notes.event]
      split
      · rename_i id c next hworking
        exact Or.inl ⟨n, fault, id, c, next, rfl, hworking, rfl⟩
      · exact Or.inr ⟨rfl, rfl⟩
  | _ => exact Or.inr ⟨rfl, rfl⟩

/-- The notes about a thread whose turn it is not stay as they are. -/
theorem Notes.failed_of_ne {n : Nat} (h : event.actor ≠ some n) :
    (notes.event s event).failed n = notes.failed n := by
  cases event with
  | call k fault =>
      have hk : n ≠ k := by
        rintro rfl
        exact h rfl
      simp only [Notes.event]
      split
      · exact Function.update_of_ne hk _ _
      · rfl
  | pickUp k nowMs =>
      refine Function.update_of_ne ?_ _ _
      rintro rfl
      exact h rfl
  | _ => rfl

theorem Orderly.stops_step (inv : Orderly s notes.failed) (step : SystemStep s event t)
    {n : Nat} {id : Bytes} {rest : Prog (Option Int)} (working : t.threads n = .working id rest) :
    StopsFrom ((notes.event s event).failed n) rest := by
  rcases step.working working with ⟨hsame, hactor⟩ | ⟨fault, c, next, rfl, hworking, rfl, _⟩ |
    ⟨nowMs, request, m, rfl, hpick, rfl, _⟩
  · rw [Notes.failed_of_ne hactor]
    exact inv.stops n id rest hsame
  · simp only [Notes.event, hworking, Notes.call_failed]
    exact ((inv.stops n id _ hworking).call _).2
  · simp only [Notes.event, Notes.begin_failed]
    exact stops_workOn

theorem Orderly.step (inv : Orderly s notes.failed) (step : SystemStep s event t) :
    Orderly t (notes.event s event).failed := by
  refine ⟨inv.registry.step step, active_known inv.registry inv.active step, ?_,
    fun n id rest working => inv.stops_step step working⟩
  refine inv.workers.step step (fun _ _ _ _ _ _ _ => trivial) ?_ fun _ _ _ _ _ _ _ =>
    underway_workOn moving_states
  intro n fault c rest calling k id more _ _
  exact durable_rely inv.registry calling id

theorem OnRecord.manager (inv : OnRecord ⟨.managed s, notes⟩) (h : s.act event = some t) :
    OnRecord ⟨.managed t, notes.event s event⟩ := by
  have horderly : Orderly s notes.failed := inv.phase
  have hstep := systemStep h
  refine ⟨horderly.step hstep, ?_, ?_⟩
  · intro id hid
    rcases Notes.event_cases notes s event with
      ⟨n, fault, owner, c, next, rfl, hworking, hnotes⟩ | ⟨hmoved, _⟩
    · change Begun id t.world
      rw [System.world_of_call h hworking]
      simp only [hnotes] at hid
      refine Notes.call_moved inv.moved ?_ ?_ id hid
      · exact begun_of_underway (horderly.workers.called hworking trivial)
      · have hconfined := horderly.registry.confined n
        rw [hworking] at hconfined
        exact WorkCall.advancing hconfined.1
    · have hbegun : Begun id s.world := by
        refine inv.moved id ?_
        simp only [hmoved] at hid
        exact hid
      change Begun id t.world
      rcases hstep.world with hworld | ⟨n, fault, c, rest, _, calling, hworld⟩
      · rw [hworld]
        exact hbegun
      · rw [hworld]
        exact hbegun.call (calling.advancing (horderly.registry.confined n))
  · rcases Notes.event_cases notes s event with
      ⟨n, fault, owner, c, next, rfl, hworking, hnotes⟩ | ⟨_, hlate⟩
    · simp only [hnotes]
      refine Notes.call_late inv.late fun hfailed => ?_
      exact ((horderly.stops n owner _ hworking).call (perform c.op fault s.world).1).1 hfailed
    · exact hlate.trans inv.late

end Manager

/-! ### The engine, driven directly -/

theorem Entry.advancing (entry : Entry) {id : Bytes} {request : MoveRequest}
    {strategy : MoveStrategy} : (entry.program id request strategy).Uses AdvancingCall := by
  have hcalls : (entry.program id request strategy).Uses (WorkCall id) := by
    cases entry with
    | execute =>
        exact uses_execute (fun _ _ h => workCall_of_readOnly h) (fun _ => trivial)
          (fun _ _ _ hne h => ⟨rfl, h ▸ hne⟩) fun _ _ h => workCall_of_movesNames h
    | recover =>
        exact uses_recover (fun _ _ h => workCall_of_readOnly h) (fun _ => trivial)
          (fun _ _ _ hne h => ⟨rfl, h ▸ hne⟩) fun _ _ h => workCall_of_movesNames h
  exact hcalls.mono fun _ h => h.advancing

theorem OnRecord.begin {w : World} {notes : Notes} (inv : OnRecord ⟨.driven w none, notes⟩)
    (entry : Entry) (id : Bytes) (request : MoveRequest) (strategy : MoveStrategy) :
    OnRecord ⟨.driven w (some (id, entry.program id request strategy)),
      notes.begin driver⟩ := by
  refine ⟨⟨?_, entry.advancing, ?_⟩, inv.moved, inv.late⟩
  · cases entry with
    | execute => exact sole_of_underway (underway_execute moving_states)
    | recover => exact sole_recover
  · rw [Notes.begin_failed]
    cases entry with
    | execute => exact stops_execute
    | recover => exact stops_recover

theorem OnRecord.call {w : World} {notes : Notes} {id : Bytes} {c : Call}
    {next : Reply c → Prog MoveResult} {fault : Option Fault}
    (inv : OnRecord ⟨.driven w (some (id, .call c next)), notes⟩) :
    OnRecord ⟨.driven (perform c.op fault w).2 (some (id, next (perform c.op fault w).1)),
      notes.call driver id c fault w⟩ := by
  obtain ⟨⟨hsafe, huses, hstops⟩, hmoved, hlate⟩ := inv
  have hadmits : (soleContract id).assume c fault w := trivial
  obtain ⟨hguarantee, hrest⟩ := hsafe.step hadmits
  obtain ⟨hunlinked, hfrom⟩ := hstops.call (perform c.op fault w).1
  refine ⟨⟨hrest, huses.2 _, ?_⟩, Notes.call_moved hmoved hguarantee huses.1,
    Notes.call_late hlate hunlinked⟩
  rw [Notes.call_failed]
  exact hfrom

/-! ## Every history -/

theorem orderly_started (config : RetryConfig) (strategy : MoveStrategy) (w : World)
    (workers : Nat → Bool) (failed : Nat → Bool) :
    Orderly (System.started config strategy w workers) failed := by
  refine ⟨registry_started config strategy w workers, ?_,
    workers_started config strategy w workers, ?_⟩
  · intro id h
    exact absurd h (Finset.notMem_empty id)
  · intro n id rest h
    simp only [System.started] at h
    split at h <;> cases h

/-- The files are nobody's record. -/
theorem Orderly.outside {s : System} {failed : Nat → Bool} (inv : Orderly s failed)
    (fs : Filesystem) : Orderly { s with world := { s.world with fs := fs } } failed := by
  obtain ⟨⟨hknown, hworks, hcancels, hrows, hkeys, hconfined⟩, hactive, hworkers, hstops⟩ := inv
  refine ⟨⟨hknown, hworks, hcancels, hrows, hkeys, hconfined⟩, hactive, ?_, hstops⟩
  intro n id rest h
  exact (hworkers n id rest h).interfere ⟨fun hrow => hrow, fun hbegun => hbegun⟩

theorem OnRecord.step {v v' : Service} {event : ServiceEvent} (inv : OnRecord v)
    (h : v.act event = some v') : OnRecord v' := by
  obtain ⟨phase, notes⟩ := v
  cases event with
  | manager event =>
      cases phase with
      | driven w run => cases h
      | managed s =>
          obtain ⟨t, ht, rfl⟩ := Option.map_eq_some_iff.mp h
          exact inv.manager ht
  | begin entry id request strategy =>
      match phase, h with
      | .driven w none, rfl => exact inv.begin entry id request strategy
  | call fault =>
      match phase, h with
      | .driven w (some (id, .call c next)), rfl => exact inv.call
  | stop =>
      match phase, h with
      | .driven w (some run), rfl => exact ⟨trivial, inv.moved, inv.late⟩
  | crash =>
      match phase, h with
      | .managed s, rfl => exact ⟨trivial, inv.moved, inv.late⟩
  | start config strategy workers =>
      match phase, h with
      | .driven w none, rfl =>
          exact ⟨orderly_started config strategy w workers _, inv.moved, inv.late⟩
  | outside fs =>
      match phase, h with
      | .managed s, rfl => exact ⟨Orderly.outside inv.phase fs, inv.moved, inv.late⟩
      | .driven w none, rfl => exact ⟨trivial, inv.moved, inv.late⟩

/-- In every history of the service, with any commands, failures and crashes: a job is
dispatched only if it has a row; a job whose commit took an object has a row that is not
QUEUED; and no commit took an object after a statement had failed in the same run. -/
theorem intent_and_phase_durable (w : World) (v : Service)
    (reach : GuardedReach Service.act (fun _ _ => True) (Service.initial w) v) :
    (∀ s, v.phase = .managed s → ∀ id, id ∈ s.manager.runnable ∨ id ∈ s.manager.waiting ∨
      id ∈ s.manager.paused ∨ id ∈ s.manager.active → s.world.db.state id ≠ none) ∧
    (∀ id, v.notes.moved id ≠ [] →
      ∃ x, v.phase.world.db.state id = some x ∧ x ≠ .queued) ∧
    v.notes.late = [] := by
  have hinitial : OnRecord (Service.initial w) := ⟨trivial, fun _ h => absurd rfl h, rfl⟩
  obtain ⟨hphase, hmoved, hlate⟩ : OnRecord v :=
    reach.invariant OnRecord (fun _ h inv => inv.step h) hinitial
  refine ⟨?_, hmoved, hlate⟩
  intro s hs id hid
  rw [hs] at hphase
  have horderly : Orderly s v.notes.failed := hphase
  have hknown : id ∈ s.manager.requests := by
    rcases hid with h | h | h | h
    · exact horderly.registry.known id (Or.inl h)
    · exact horderly.registry.known id (Or.inr (Or.inl h))
    · exact horderly.registry.known id (Or.inr (Or.inr h))
    · exact horderly.active id h
  exact horderly.registry.rows id (Or.inl hknown)

/-- A worker takes the object of the sample job, the manager dies, and the job is picked
up by a recovery, whose first statement fails. -/
def sampleLife : List ServiceEvent :=
  ([.start sampleConfig .renameNoReplace fun n => n = 3] : List ServiceEvent) ++
    ([.submit 1 (lit "j") sampleRequest 0, .lock 1, .call 1 none, .proceed 1, .proceed 1,
      .pickUp 3 0] : List ManagerEvent).map ServiceEvent.manager ++
    List.replicate 10 (ServiceEvent.manager (.call 3 none)) ++
    ([.crash, .begin .recover (lit "j") sampleRequest .renameNoReplace, .call none, .call none,
      .call none, .call none, .call (some 5)] : List ServiceEvent)

theorem intent_and_phase_durable_sample :
    ∃ v, replay Service.act sampleLife
        (.initial { fs := (sampleWorld .queued [sampleSource]).fs, db := ∅ }) = some v ∧
      v.notes.moved (lit "j") = [sampleSource.2] ∧ v.notes.failed driver = true ∧
      v.phase.world.db.state (lit "j") = some .renaming ∧ v.notes.late = [] := by
  obtain ⟨v, hv⟩ := Option.isSome_iff_exists.mp (by decide : (replay Service.act sampleLife
    (.initial { fs := (sampleWorld .queued [sampleSource]).fs, db := ∅ })).isSome = true)
  obtain ⟨_, _, hlate⟩ := intent_and_phase_durable _ v
    (.of_replay (AllSteps.of_free (fun _ _ => trivial) sampleLife _) hv)
  have hfacts : (replay Service.act sampleLife
      (.initial { fs := (sampleWorld .queued [sampleSource]).fs, db := ∅ })).map (fun v =>
        (v.notes.moved (lit "j"), v.notes.failed driver, v.phase.world.db.state (lit "j"))) =
      some ([sampleSource.2], true, some .renaming) := by
    decide
  rw [hv] at hfacts
  obtain ⟨hmoved, hfailed, hstate⟩ := by
    simpa only [Option.map_some, Option.some.injEq, Prod.mk.injEq] using hfacts
  exact ⟨v, hv, hmoved, hfailed, hstate, hlate⟩

end FileMover
