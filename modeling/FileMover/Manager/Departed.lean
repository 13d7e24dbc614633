import FileMover.Engine.Outcomes
import FileMover.Manager.Settled
import FileMover.Manager.Underway
import FileMover.Manager.Workers

/-!
# Jobs past their commit point

Once the commit has taken the object out of its source name, the job must not be recorded
FAILED: it can only be finished. The run that made the commit never does. Another run for
the same job does, for it finds no source and takes the request for a bad one; so does a
`cancel` that has read the row before the job got under way and writes afterwards.

Proved here: in every history in which no worker picks up a job that has departed, unless
it is DONE, nor one that another worker has, and in which the `UPDATE` of a `cancel` finds
the row QUEUED, no departed job is ever FAILED.
-/

namespace FileMover

open Framework

/-- This call took an object out of its source name. -/
def departs : (c : Call) → Reply c → Bool
  | ⟨_, .renameat2 _ _⟩, .ok _ => true
  | ⟨_, .unlinkat _⟩, .ok _ => true
  | _, _ => false

/-! ## The run that makes the commit -/

/-- After the departure no call writes FAILED. -/
abbrev KeepsDeparted {α : Type} (program : Prog α) (Q : α → Prop) : Prop :=
  program.Since (fun c reply => departs c reply = true) (WritesOnly (· ≠ .failed)) Q

section Run
variable {α : Type} {Q : α → Prop} {id : Bytes} {request : MoveRequest}
  {strategy : MoveStrategy}

theorem movesNames_of_departs {c : Call} {reply : Reply c} (h : departs c reply = true) :
    c.op.movesNames = true := by
  unfold departs at h
  split at h
  · rfl
  · rfl
  · cases h

/-- A program that changes no name takes nothing out. -/
theorem departed_still {program : Prog α}
    (uses : program.Uses fun c => c.op.movesNames = false) : KeepsDeparted program Q := by
  refine Program.Since.of_uses uses ?_
  intro c still reply departs
  rw [movesNames_of_departs departs] at still
  cases still

theorem departed_before {β : Type} {R : β → Prop} {program : Prog α} {next : α → Prog β}
    (uses : program.Uses fun c => c.op.movesNames = false)
    (rest : ∀ value, KeepsDeparted (next value) R) : KeepsDeparted (program.bind next) R :=
  Program.Since.bind (Q := fun _ => False) (departed_still uses) rest fun _ h => h.elim

theorem departed_moveWithin {fromDir toDir : Dir} {fromName toName : Bytes} :
    KeepsDeparted (moveWithin fromDir fromName toDir toName strategy)
      (fun result => result = .ok ()) := by
  unfold moveWithin
  cases hfrom : isPlainName fromName with
  | false =>
      rw [rejectBadName_bad hfrom]
      trivial
  | true =>
    cases hto : isPlainName toName with
    | false =>
        rw [rejectBadName_plain hfrom, rejectBadName_bad hto]
        trivial
    | true =>
      rw [rejectBadName_plain hfrom, rejectBadName_plain hto]
      cases strategy with
      | renameNoReplace =>
          intro reply
          cases reply with
          | error e => exact ⟨nofun, trivial⟩
          | ok _ => exact ⟨fun _ => ⟨trivial, rfl⟩, trivial⟩
      | linkThenUnlink =>
          intro linked
          cases linked with
          | error e => exact ⟨nofun, trivial⟩
          | ok _ =>
              refine ⟨nofun, ?_⟩
              intro reply
              cases reply with
              | error e => exact ⟨nofun, trivial⟩
              | ok _ => exact ⟨fun _ => ⟨trivial, rfl⟩, trivial⟩

theorem finishAfterCommit_unfailed {destDir : Dir} {tick : Int} {error : Bytes} :
    (finishAfterCommit id request destDir tick error).Uses (WritesOnly (· ≠ .failed)) := by
  refine uses_finishAfterCommit (fun _ => trivial) (fun _ _ h _ => writesOnly_of_readOnly h) ?_
    trivial
  rintro target before after (rfl | rfl) hafter
  · simp only [WritesOnly, hafter]
    decide
  · simp only [WritesOnly, hafter]
    decide

theorem departed_commitAndFinish {sourceDir destDir : Dir} {tick : Int} {error : Bytes} :
    KeepsDeparted (commitAndFinish id request strategy sourceDir destDir tick error)
      PastCommit := by
  refine departed_moveWithin.bind ?_ ?_
  · intro result
    cases result with
    | error message => trivial
    | ok _ =>
        exact Program.Since.of_allowed finishAfterCommit_unfailed finishAfterCommit_pastCommit
  · rintro result rfl
    exact ⟨finishAfterCommit_unfailed, finishAfterCommit_pastCommit⟩

theorem departed_execute : KeepsDeparted (execute id request strategy) PastCommit := by
  refine departed_before (uses_validate fun _ _ h => movesNames_of_readOnly h) fun result => ?_
  match result with
  | .error message => trivial
  | .ok (job, sourceDir, destDir, error) =>
      simp only
      split
      · trivial
      split
      · trivial
      split
      · refine departed_before (uses_recordTransition ?_ fun _ _ _ => ?_) fun result => ?_
        · rfl
        · rfl
        cases result with
        | error failure => trivial
        | ok _ => exact departed_commitAndFinish
      · exact departed_commitAndFinish

theorem departed_workOn {config : RetryConfig} {nowMs : Int} :
    KeepsDeparted (workOn config id request strategy nowMs) fun _ => True := by
  refine departed_execute.bind ?_ ?_
  · intro result
    obtain ⟨outcome, error⟩ := result
    refine departed_still (uses_afterExecute ?_ ?_ ?_ outcome error)
    · exact fun _ _ h => movesNames_of_readOnly h
    · exact fun _ _ => rfl
    · exact fun _ _ _ => rfl
  · rintro ⟨outcome, error⟩ hpast
    have houtcome : outcome ≠ .abortedBeforeCommit ∧ outcome ≠ .rejected := by
      rcases hpast with h | h | h <;>
        · change outcome = _ at h
          rw [h]
          decide
    simp only [if_neg houtcome.1, if_neg houtcome.2]
    exact ⟨trivial, trivial⟩

end Run

/-! ## Watching the manager -/

/-- A manager, and the jobs whose object has left its source name. -/
structure Watch where
  system : System
  departed : Bytes → Bool

namespace Watch

def note (v : Watch) : ManagerEvent → Bytes → Bool
  | .call n fault =>
      match v.system.threads n with
      | .working id (.call c _) =>
          if departs c (perform c.op fault v.system.world).1 then
            Function.update v.departed id true
          else v.departed
      | _ => v.departed
  | _ => v.departed

def act (v : Watch) (event : ManagerEvent) : Option Watch :=
  (v.system.act event).map fun t => ⟨t, v.note event⟩

def started (config : RetryConfig) (strategy : MoveStrategy) (w : World)
    (workers : Nat → Bool) : Watch :=
  ⟨System.started config strategy w workers, fun _ => false⟩

end Watch

/-- The row that a `cancel` is about to update. -/
def Thread.cancelWrites : Thread → Option Bytes
  | .cancelActs _ _ (.call ⟨_, .updateJob id _ _⟩ _) => some id
  | _ => none

/-- No worker picks up a job that another one has, or that has departed and is not DONE;
and an `UPDATE` of `cancel` finds the row QUEUED. -/
def Unhurried (v : Watch) : ManagerEvent → Prop
  | .pickUp _ _ => ∀ id ∈ v.system.manager.runnable.head?,
      id ∉ v.system.manager.active ∧
        (v.departed id = true → v.system.world.db.state id = some .done)
  | .call n _ => ∀ id ∈ (v.system.threads n).cancelWrites,
      v.system.world.db.state id = some .queued
  | _ => True

instance (v : Watch) : (event : ManagerEvent) → Decidable (Unhurried v event)
  | .pickUp _ _ => inferInstanceAs (Decidable (∀ id ∈ v.system.manager.runnable.head?,
      id ∉ v.system.manager.active ∧
        (v.departed id = true → v.system.world.db.state id = some .done)))
  | .call n _ => inferInstanceAs (Decidable (∀ id ∈ (v.system.threads n).cancelWrites,
      v.system.world.db.state id = some .queued))
  | .submit _ _ _ _ | .pause _ _ | .resume _ _ | .cancel _ _ | .retry _ _ _ | .pump _ =>
      .isTrue trivial
  | .exit _ | .lock _ | .proceed _ | .setStrategy _ | .shutdown | .start _ => .isTrue trivial

/-! ## The invariant -/

/-- The states of a job that is under way and has not failed. -/
def Advanced (x : JobState) : Prop := x ≠ .queued ∧ x ≠ .failed

instance : DecidablePred Advanced := fun _ => inferInstanceAs (Decidable (_ ∧ _))

structure Onward (v : Watch) : Prop where
  registry : Registry v.system
  active : ∀ n id rest, v.system.threads n = .working id rest → id ∈ v.system.manager.active
  alone : ∀ n k id rest rest', v.system.threads n = .working id rest →
    v.system.threads k = .working id rest' → n = k
  known : ∀ id, v.departed id = true → id ∈ v.system.manager.requests
  recorded : ∀ id, v.departed id = true → RowIn Advanced id v.system.world
  before : ∀ n id rest, v.system.threads n = .working id rest → v.departed id = false →
    rest.Safe machine (underwayContract Advanced id) (fun _ _ => True) v.system.world ∧
      KeepsDeparted rest fun _ => True
  after : ∀ n id rest, v.system.threads n = .working id rest → v.departed id = true →
    rest.Uses (WritesOnly (· ≠ .failed)) ∨
      (v.system.world.db.state id = some .done ∧
        rest.Safe machine (settledContract .done id) (fun _ _ => True) v.system.world)

section Step
variable {v : Watch} {t : System} {event : ManagerEvent}

/-- What the condition says of a call that changes the row of a known job: it is a worker's
own, or the row was QUEUED. -/
theorem Onward.row (inv : Onward v) {n : Nat} {fault : Option Fault} {c : Call}
    {rest : Reply c → Thread} (calling : Calling (v.system.threads n) c rest)
    (unhurried : Unhurried v (.call n fault)) {id : Bytes}
    (known : id ∈ v.system.manager.requests) :
    (perform c.op fault v.system.world).2.db.state id = v.system.world.db.state id ∨
      v.system.world.db.state id = some .queued ∨
      ∃ next before after, v.system.threads n = .working id (.call c next) ∧
        c.op = .updateJob id before after ∧ after.state ≠ .queued ∧
        (perform c.op fault v.system.world).2.db.state id = some after.state := by
  rcases inv.registry.rowChange calling known with hsame |
    ⟨id', wasRunnable, next, before, after, hthread, hop, hkey, _⟩ | hown
  · exact Or.inl hsame
  · refine Or.inr (Or.inl ?_)
    rw [Database.state_congr hkey]
    refine unhurried id' ?_
    obtain ⟨site, op⟩ := c
    cases hop
    rw [hthread]
    rfl
  · exact Or.inr (Or.inr hown)

/-- What a worker may rely on, whatever the others do. -/
theorem Onward.rely (inv : Onward v) {n : Nat} {fault : Option Fault} {c : Call}
    {rest : Reply c → Thread} (calling : Calling (v.system.threads n) c rest)
    (unhurried : Unhurried v (.call n fault)) {k : Nat} {id : Bytes} {more : Prog (Option Int)}
    (other : k ≠ n) (working : v.system.threads k = .working id more) :
    (underwayContract Advanced id).rely v.system.world (perform c.op fault v.system.world).2 := by
  have hknown : id ∈ v.system.manager.requests := by
    refine inv.registry.works k id ?_
    rw [System.roles, working]
    rfl
  refine ⟨perform_state_ne_none, ?_⟩
  rintro ⟨x, hx, hadvanced⟩
  rcases inv.row calling unhurried hknown with hsame | hqueued | ⟨next, _, _, hworking, _⟩
  · exact ⟨x, hsame.trans hx, hadvanced⟩
  · rw [hx] at hqueued
    exact absurd (Option.some.inj hqueued) hadvanced.1
  · exact absurd (inv.alone k n id _ _ working hworking) other

/-- What the bystander writes down after an event. -/
theorem Watch.note_cases (v : Watch) (event : ManagerEvent) :
    v.note event = v.departed ∨
      ∃ n fault id c next, event = .call n fault ∧
        v.system.threads n = .working id (.call c next) ∧
        departs c (perform c.op fault v.system.world).1 = true ∧
        v.note event = Function.update v.departed id true := by
  cases event with
  | call n fault =>
      simp only [Watch.note]
      split
      · rename_i id c next hworking
        split
        · rename_i hdeparts
          exact Or.inr ⟨n, fault, id, c, next, rfl, hworking, hdeparts, rfl⟩
        · exact Or.inl rfl
      · exact Or.inl rfl
  | _ => exact Or.inl rfl

/-- A job that departs in this step was worked on by the thread that made it. -/
theorem Watch.note_eq_true {id : Bytes} (h : v.note event id = true) :
    v.departed id = true ∨
      v.departed id = false ∧ ∃ n fault c next, event = .call n fault ∧
        v.system.threads n = .working id (.call c next) ∧
        departs c (perform c.op fault v.system.world).1 = true := by
  cases hbefore : v.departed id with
  | true => exact Or.inl rfl
  | false =>
      refine Or.inr ⟨rfl, ?_⟩
      rcases v.note_cases event with hsame |
        ⟨n, fault, id', c, next, hevent, hworking, hdeparts, heq⟩
      · rw [hsame, hbefore] at h
        cases h
      · rw [heq] at h
        by_cases hid : id = id'
        · subst hid
          exact ⟨n, fault, c, next, hevent, hworking, hdeparts⟩
        · rw [Function.update_of_ne hid, hbefore] at h
          cases h

theorem Watch.departed_of_note {id : Bytes} (h : v.note event id = false) :
    v.departed id = false := by
  rcases v.note_cases event with hsame | ⟨_, _, id', _, _, _, _, _, heq⟩
  · rw [hsame] at h
    exact h
  · rw [heq] at h
    by_cases hid : id = id'
    · rw [hid, Function.update_self] at h
      cases h
    · rw [Function.update_of_ne hid] at h
      exact h

theorem Onward.departed_known (inv : Onward v) (step : SystemStep v.system event t) (id : Bytes)
    (h : v.note event id = true) : id ∈ t.manager.requests := by
  refine step.requests ?_
  rcases Watch.note_eq_true h with hdeparted | ⟨_, n, fault, c, next, _, hworking, _⟩
  · exact inv.known id hdeparted
  · refine inv.registry.works n id ?_
    rw [System.roles, hworking]
    rfl

/-- A departed job stays under way on record. -/
theorem Onward.departed_recorded (inv : Onward v) (unhurried : Unhurried v event)
    (h : v.system.act event = some t) (id : Bytes) (departed : v.note event id = true) :
    RowIn Advanced id t.world := by
  rcases Watch.note_eq_true departed with hdeparted |
    ⟨hbefore, n, fault, c, next, rfl, hworking, hdeparts⟩
  · obtain ⟨x, hx, hadvanced⟩ := inv.recorded id hdeparted
    rcases (systemStep h).world with hworld | ⟨n, fault, c, rest, rfl, calling, hworld⟩
    · rw [hworld]
      exact ⟨x, hx, hadvanced⟩
    · rw [hworld]
      rcases inv.row calling unhurried (inv.known id hdeparted) with hsame | hqueued |
        ⟨next, before, after, hworking, hop, hne, hwrites⟩
      · exact ⟨x, hsame.trans hx, hadvanced⟩
      · rw [hx] at hqueued
        exact absurd (Option.some.inj hqueued) hadvanced.1
      · rcases inv.after n id _ hworking hdeparted with huses | ⟨hdone, hsafe⟩
        · refine ⟨after.state, hwrites, hne, ?_⟩
          have hcall := huses.1
          simp only [WritesOnly, hop] at hcall
          exact hcall
        · have hrow := (hsafe v.system.world trivial fault hdone).1.2
          exact ⟨.done, hrow, by decide, by decide⟩
  · have hmoves : c.op.movesNames = true := movesNames_of_departs hdeparts
    have hsafe := (inv.before n id _ hworking hbefore).1
    obtain ⟨x, hx, hadvanced⟩ :=
      (hsafe v.system.world ⟨fun h => h, fun h => h⟩ fault trivial).1 hmoves
    refine ⟨x, ?_, hadvanced⟩
    rw [System.world_of_call h hworking, perform_state (writesState_of_movesNames hmoves), hx]

/-- The workers of jobs that have not departed. -/
theorem Onward.before_step (inv : Onward v) (unhurried : Unhurried v event)
    (step : SystemStep v.system event t) (n : Nat) (id : Bytes) (rest : Prog (Option Int))
    (working : t.threads n = .working id rest) (h : v.note event id = false) :
    rest.Safe machine (underwayContract Advanced id) (fun _ _ => True) t.world ∧
      KeepsDeparted rest fun _ => True := by
  have hbefore : v.departed id = false := Watch.departed_of_note h
  rcases step.working working with ⟨hsame, hactor⟩ |
    ⟨fault, c, next, rfl, hworking, rfl, hworld⟩ | ⟨nowMs, request, m, rfl, hpick, rfl, _⟩
  · obtain ⟨hsafe, hsince⟩ := inv.before n id rest hsame hbefore
    refine ⟨?_, hsince⟩
    rcases step.world with hworld | ⟨k, fault, c, more, rfl, calling, hworld⟩
    · rw [hworld]
      exact hsafe
    · rw [hworld]
      refine hsafe.interfere (inv.rely calling unhurried ?_ hsame)
      rintro rfl
      exact hactor rfl
  · obtain ⟨hsafe, hsince⟩ := inv.before n id _ hworking hbefore
    rw [hworld]
    refine ⟨?_, (hsince _).2⟩
    exact (hsafe v.system.world ⟨fun h => h, fun h => h⟩ fault trivial).2
  · exact ⟨underway_workOn (by decide), departed_workOn⟩

/-- The workers of jobs that have departed. -/
theorem Onward.after_step (inv : Onward v) (unhurried : Unhurried v event)
    (step : SystemStep v.system event t) (n : Nat) (id : Bytes) (rest : Prog (Option Int))
    (working : t.threads n = .working id rest) (h : v.note event id = true) :
    rest.Uses (WritesOnly (· ≠ .failed)) ∨
      (t.world.db.state id = some .done ∧
        rest.Safe machine (settledContract .done id) (fun _ _ => True) t.world) := by
  rcases step.working working with ⟨hsame, hactor⟩ |
    ⟨fault, c, next, rfl, hworking, rfl, hworld⟩ | ⟨nowMs, request, m, rfl, hpick, rfl, _⟩
  · have hdeparted : v.departed id = true := by
      refine (Watch.note_eq_true h).resolve_right ?_
      rintro ⟨_, k, fault, c, next, rfl, hworking, _⟩
      exact hactor (congrArg some (inv.alone k n id _ _ hworking hsame))
    rcases inv.after n id rest hsame hdeparted with huses | ⟨hdone, hsafe⟩
    · exact Or.inl huses
    · refine Or.inr ⟨?_, hsafe.interfere trivial⟩
      rcases step.world with hworld | ⟨k, fault, c, more, rfl, calling, hworld⟩
      · rw [hworld]
        exact hdone
      · rw [hworld]
        rcases inv.row calling unhurried (inv.known id hdeparted) with hrow | hqueued |
          ⟨next, _, _, hworking, _⟩
        · exact hrow.trans hdone
        · rw [hdone] at hqueued
          cases hqueued
        · exact absurd (congrArg some (inv.alone k n id _ _ hworking hsame)) hactor
  · rcases Watch.note_eq_true h with
      hdeparted | ⟨hbefore, k, fault', c', next', hevent, hworking', hdeparts⟩
    · rcases inv.after n id _ hworking hdeparted with huses | ⟨hdone, hsafe⟩
      · exact Or.inl (huses.2 _)
      · rw [hworld]
        obtain ⟨⟨_, hrow⟩, hrest⟩ := hsafe v.system.world trivial fault hdone
        exact Or.inr ⟨hrow, hrest⟩
    · cases hevent
      rw [hworking] at hworking'
      cases hworking'
      have hsince := (inv.before n id _ hworking hbefore).2
      exact Or.inl ((hsince _).1 hdeparts).1
  · have hhead : id ∈ v.system.manager.runnable.head? := by
      obtain ⟨rest, _, hrunnable, _⟩ := Manager.pickUp_eq hpick
      rw [hrunnable]
      rfl
    have hdone : v.system.world.db.state id = some .done := (unhurried id hhead).2 h
    refine Or.inr ⟨?_, settled_workOn rfl⟩
    rcases step.world with hworld | ⟨_, _, _, _, hevent, _⟩
    · rw [hworld]
      exact hdone
    · cases hevent

theorem Onward.exclusive_step (inv : Onward v) (unhurried : Unhurried v event)
    (step : SystemStep v.system event t) : Exclusive t := by
  refine Exclusive.step ⟨inv.active, inv.alone⟩ ?_ step
  rintro n nowMs rfl id hid
  exact (unhurried id hid).1

theorem Onward.step {v' : Watch} (inv : Onward v) (unhurried : Unhurried v event)
    (h : v.act event = some v') : Onward v' := by
  obtain ⟨t, ht, rfl⟩ := Option.map_eq_some_iff.mp h
  have hstep := systemStep ht
  have hexclusive := inv.exclusive_step unhurried hstep
  exact ⟨inv.registry.step hstep, hexclusive.active, hexclusive.alone,
    inv.departed_known hstep, inv.departed_recorded unhurried ht,
    inv.before_step unhurried hstep, inv.after_step unhurried hstep⟩

end Step

theorem onward_started (config : RetryConfig) (strategy : MoveStrategy) (w : World)
    (workers : Nat → Bool) : Onward (Watch.started config strategy w workers) := by
  have hidle : ∀ n id rest,
      (Watch.started config strategy w workers).system.threads n ≠ .working id rest := by
    intro n id rest h
    simp only [Watch.started, System.started] at h
    split at h <;> cases h
  have hexclusive := exclusive_started config strategy w workers
  refine ⟨registry_started config strategy w workers, hexclusive.active, hexclusive.alone, ?_, ?_,
    ?_, ?_⟩
  · rintro id ⟨⟩
  · rintro id ⟨⟩
  · exact fun n id rest h => absurd h (hidle n id rest)
  · rintro n id rest - ⟨⟩

/-- In every history of a started manager in which no worker picks up a job that another
one has, or that has departed and is not DONE, and in which the `UPDATE` of a `cancel`
finds the row QUEUED: no job is FAILED once its object has left its source name. -/
theorem departed_never_failed (config : RetryConfig) (strategy : MoveStrategy) (w : World)
    (workers : Nat → Bool) (v : Watch)
    (reach : GuardedReach Watch.act Unhurried (Watch.started config strategy w workers) v) :
    ∀ id, v.departed id = true → v.system.world.db.state id ≠ some .failed := by
  have hinv : Onward v := reach.invariant Onward (fun unhurried h inv => inv.step unhurried h)
    (onward_started config strategy w workers)
  intro id hdeparted hfailed
  obtain ⟨x, hx, _, hne⟩ := hinv.recorded id hdeparted
  rw [hx] at hfailed
  exact hne (Option.some.inj hfailed)

/-- Thread 1 of the sample manager submits a job, a worker commits it, and the write of
TRANSFERRING fails. -/
def sampleHalted : List ManagerEvent :=
  ([.submit 1 (lit "j") sampleRequest 0, .lock 1, .call 1 none, .proceed 1, .proceed 1,
    .pickUp 3 0] : List ManagerEvent) ++ List.replicate 12 (ManagerEvent.call 3 none) ++
    ([.call 3 (some 5), .call 3 none, .proceed 3] : List ManagerEvent)

def sampleWatch : Watch := ⟨sampleSystem, fun _ => false⟩

theorem departed_never_failed_sample :
    ∃ v, replay Watch.act sampleHalted sampleWatch = some v ∧ v.departed (lit "j") = true ∧
      v.system.world.db.state (lit "j") ≠ some .failed := by
  have meet : AllSteps Watch.act Unhurried sampleHalted sampleWatch := by
    decide
  obtain ⟨v, hv⟩ := Option.isSome_iff_exists.mp
    (by decide : (replay Watch.act sampleHalted sampleWatch).isSome = true)
  have hdeparted : (replay Watch.act sampleHalted sampleWatch).map (fun v =>
      v.departed (lit "j")) = some true := by
    decide
  rw [hv] at hdeparted
  have hj : v.departed (lit "j") = true := Option.some.inj hdeparted
  exact ⟨v, hv, hj, departed_never_failed _ _ _ _ v (.of_replay meet hv) (lit "j") hj⟩

/-- The job is paused and resumed; the worker that picks it up finds no source and records
it FAILED. -/
theorem departed_job_failed :
    ¬ ∀ config strategy w workers v, GuardedReach Watch.act (fun _ _ => True)
        (Watch.started config strategy w workers) v →
      ∀ id, v.departed id = true → v.system.world.db.state id ≠ some .failed := by
  intro h
  let labels : List ManagerEvent := sampleHalted ++
    ([.pause 1 (lit "j"), .resume 1 (lit "j"), .pickUp 3 0] : List ManagerEvent) ++
    List.replicate 8 (ManagerEvent.call 3 none)
  obtain ⟨v, hv⟩ := Option.isSome_iff_exists.mp
    (by decide : (replay Watch.act labels sampleWatch).isSome = true)
  have hfacts : (replay Watch.act labels sampleWatch).map (fun v =>
      (v.departed (lit "j"), v.system.world.db.state (lit "j"))) =
      some (true, some .failed) := by
    decide
  rw [hv] at hfacts
  obtain ⟨hdeparted, hfailed⟩ := by
    simpa only [Option.map_some, Option.some.injEq, Prod.mk.injEq] using hfacts
  exact h _ _ _ _ v (.of_replay (AllSteps.of_free (fun _ _ => trivial) labels _) hv) (lit "j")
    hdeparted hfailed

end FileMover
