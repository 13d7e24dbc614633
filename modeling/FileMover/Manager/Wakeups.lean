import FileMover.Framework.Condition
import FileMover.Manager.Shutdown

/-!
# Workers that sleep

A worker waits on `work_ready` until a job is runnable or the manager stops. Whatever puts
a job into the queue notifies one worker in the same section, also `cancel` when it puts a
job back; `pump`, which may put in several, and `shutdown` notify all.

So the workers that sleep are never the reason why a job waits: every runnable job has an
awake worker of its own that has yet to look at the queue, or no worker sleeps. And none
sleeps while `shutdown` joins them.
-/

namespace FileMover

open Framework

/-- At `work_ready.wait`. -/
def Thread.atWait : Thread → Bool
  | .waiting => true
  | _ => false

/-- The calls of `notify_one` and `notify_all` on `work_ready`. -/
def System.notifies (s : System) : ManagerEvent → Signal
  | .resume _ id => if (s.manager.resume id).isOk then .one else .none
  | .pump nowMs => if s.manager.running = true ∧ s.manager.due nowMs ≠ [] then .all else .none
  | .proceed n => if (s.queues (.proceed n)).isSome then .one else .none
  | .shutdown => .all
  | _ => .none

/-- The manager and its condition variable. -/
def workReady : Monitored System ManagerEvent Nat where
  act := System.act
  actor := ManagerEvent.actor
  atWait s n := (s.threads n).atWait
  ready s := !s.manager.runnable.isEmpty || s.manager.stopping
  notifies := System.notifies

theorem Thread.atWait_iff {thread : Thread} : thread.atWait = true ↔ thread = .waiting := by
  unfold Thread.atWait
  split
  · simp
  · rename_i h
    simpa using h

namespace Manager

variable {m m' : Manager} {id : Bytes}

theorem length_runnable_pause (h : m.pause id = .ok m') :
    m'.runnable.length ≤ m.runnable.length := by
  obtain ⟨-, -, rfl⟩ := pause_eq h
  exact List.length_erase_le

theorem length_runnable_claimCancel {wasRunnable : Bool}
    (h : m.claimCancel id = .ok (wasRunnable, m')) :
    m'.runnable.length ≤ m.runnable.length := by
  obtain ⟨-, -, -, rfl⟩ := claimCancel_eq h
  exact List.length_erase_le

theorem length_runnable_publish {request : MoveRequest} {recorded : Bool} :
    (m.publish id request recorded).runnable.length =
      m.runnable.length + if recorded then 1 else 0 := by
  cases recorded with
  | true => simp [publish]
  | false => simp [publish]

theorem length_runnable_settleCancel {wasRunnable : Bool} {outcome : CommandResult} :
    (m.settleCancel id wasRunnable outcome).runnable.length =
      m.runnable.length + if decide (outcome ≠ .ok) && wasRunnable then 1 else 0 := by
  unfold settleCancel
  split
  · rename_i h
    simp [h]
  · rename_i h
    rw [if_neg]
    · rfl
    · simpa using h

theorem runnable_settle {due : Option Int} : (m.settle id due).runnable = m.runnable := by
  cases due with
  | none => rfl
  | some _ => rfl

theorem exists_pickUp (h : m.runnable ≠ []) : ∃ picked, m.pickUp = some picked := by
  obtain ⟨front, rest, hrunnable⟩ := List.exists_cons_of_ne_nil h
  unfold pickUp
  rw [hrunnable]
  dsimp only
  split
  · exact ⟨_, rfl⟩
  · exact ⟨_, rfl⟩

end Manager

/-! ## What a step does to the queue -/

section Step
variable {s t : System} {event : ManagerEvent}

/-- A worker leaves the wait in a section of its own. -/
theorem stays_atWait {n : Nat} (hact : s.act event = some t) (hactor : event.actor ≠ some n)
    (hwait : (s.threads n).atWait = true) : (t.threads n).atWait = true := by
  by_cases hstart : ∃ workers, event = .start workers
  · obtain ⟨workers, rfl⟩ := hstart
    simp only [System.act] at hact
    split at hact
    · simp at hact
    · obtain rfl := Option.some.inj hact
      show Thread.atWait (if _ then _ else _) = true
      split
      · rfl
      · exact hwait
  · push Not at hstart
    rw [(systemStep hact).others hactor hstart]
    exact hwait

/-- A worker at the wait can only pick a job up or exit. -/
theorem not_atWait {n : Nat} (hact : s.act event = some t) (hactor : event.actor = some n)
    (hpickUp : ∀ nowMs, event ≠ .pickUp n nowMs) (hexit : event ≠ .exit n) :
    (s.threads n).atWait = false := by
  by_contra hwait
  rw [Bool.not_eq_false, Thread.atWait_iff] at hwait
  cases event with
  | pickUp k nowMs =>
      obtain rfl := Option.some.inj hactor
      exact hpickUp nowMs rfl
  | exit k =>
      obtain rfl := Option.some.inj hactor
      exact hexit rfl
  | pump | setStrategy | shutdown | start => simp [ManagerEvent.actor] at hactor
  | proceed k =>
      obtain rfl := Option.some.inj hactor
      simp [System.act, System.proceed, hwait] at hact
  | lock k =>
      obtain rfl := Option.some.inj hactor
      simp [System.act, hwait, Thread.locked] at hact
  | call k fault =>
      obtain rfl := Option.some.inj hactor
      simp [System.act, hwait, Thread.next] at hact
  | _ =>
      obtain rfl := Option.some.inj hactor
      simp [System.act, hwait, Thread.isFree] at hact

theorem queues_of_publishes {n : Nat} {id : Bytes} {request : MoveRequest}
    {recorded : Except Bytes Unit} (h : (s.threads n).publishes = some (id, request, recorded)) :
    (s.queues (.proceed n)).isSome = System.recordedOk recorded := by
  unfold Thread.publishes at h
  split at h
  · rename_i id' request' recorded' hthread
    obtain ⟨-, -, rfl⟩ := by simpa using h
    rw [System.queues, hthread]
    cases recorded' with
    | error message => rfl
    | ok _ => rfl
  · rename_i candidate move recorded' hthread
    obtain ⟨-, -, rfl⟩ := by simpa using h
    rw [System.queues, hthread]
    cases recorded' with
    | error message => rfl
    | ok _ => rfl
  · simp at h

theorem queues_of_cancelActs {n : Nat} {id error : Bytes} {wasRunnable : Bool}
    {outcome : CommandResult}
    (h : s.threads n = .cancelActs id wasRunnable (.pure (outcome, error))) :
    (s.queues (.proceed n)).isSome = (decide (outcome ≠ .ok) && wasRunnable) := by
  rw [System.queues, h]
  cases wasRunnable with
  | false => simp
  | true =>
      by_cases hok : outcome = .ok
      · simp [hok]
      · simp [hok]

theorem count_proceed {n : Nat} {queues : Bool}
    (h : (s.queues (.proceed n)).isSome = queues) :
    (s.notifies (.proceed n)).count = if queues then 1 else 0 := by
  subst h
  show Signal.count (if (s.queues (.proceed n)).isSome then .one else .none) = _
  split
  · rfl
  · rfl

/-- Every job that comes into the queue is announced to a worker. -/
theorem announced (hact : s.act event = some t) (hall : s.notifies event ≠ .all) :
    t.manager.runnable.length ≤ s.manager.runnable.length + (s.notifies event).count := by
  have hstep := systemStep hact
  cases hstep with
  | paused free h => exact Nat.le_add_right_of_le (Manager.length_runnable_pause h)
  | @resumed n id m free h =>
      obtain ⟨-, -, rfl⟩ := Manager.resume_eq h
      have hone : s.notifies (.resume n id) = .one := by
        show (if (s.manager.resume id).isOk then Signal.one else .none) = .one
        rw [h]
        rfl
      rw [hone]
      exact (List.length_append ..).le
  | @pumped nowMs =>
      -- `pump` notifies nobody when it moves nothing
      have hnothing : ¬ (s.manager.running = true ∧ s.manager.due nowMs ≠ []) := by
        intro hmoved
        apply hall
        show (if _ then Signal.all else .none) = .all
        rw [if_pos hmoved]
      show (s.manager.pump nowMs).runnable.length ≤ _
      unfold Manager.pump
      split
      · exact Nat.le_add_right _ _
      · rename_i hrunning
        have hdue : s.manager.due nowMs = [] := by
          by_contra hdue
          exact hnothing ⟨by simpa using hrunning, hdue⟩
        simp [hdue]
  | claimedSubmit free h =>
      obtain ⟨-, -, rfl⟩ := Manager.claimSubmit_eq h
      exact Nat.le_add_right _ _
  | claimedCancel free h => exact Nat.le_add_right_of_le (Manager.length_runnable_claimCancel h)
  | claimedCandidate thread h =>
      obtain ⟨-, -, rfl⟩ := Manager.claimCandidate_eq h
      exact Nat.le_add_right _ _
  | published h =>
      rw [count_proceed (queues_of_publishes h)]
      exact Manager.length_runnable_publish.le
  | @settledCancel n id wasRunnable outcome error thread =>
      rw [count_proceed (queues_of_cancelActs thread)]
      exact Manager.length_runnable_settleCancel.le
  | pickedUp thread h =>
      obtain ⟨rest, _, hrunnable, -, rfl⟩ := Manager.pickUp_eq h
      rw [hrunnable]
      exact Nat.le_add_right_of_le (Nat.le_succ _)
  | settled thread =>
      show (Manager.settle _ _ _).runnable.length ≤ _
      rw [Manager.runnable_settle]
      exact Nat.le_add_right _ _
  | _ => exact Nat.le_add_right _ _

theorem runnable_of_pickUp {n : Nat} {nowMs : Int} (hact : s.act (.pickUp n nowMs) = some t) :
    t.manager.runnable.length + 1 = s.manager.runnable.length := by
  simp only [System.act] at hact
  split at hact
  · rename_i id request m _ hpickUp
    obtain rfl := Option.some.inj hact
    obtain ⟨rest, _, hrunnable, -, rfl⟩ := Manager.pickUp_eq hpickUp
    rw [hrunnable]
    rfl
  · simp at hact

theorem runnable_of_exit {n : Nat} (hact : s.act (.exit n) = some t) :
    t.manager.runnable.length = 0 := by
  simp only [System.act] at hact
  split at hact
  · split at hact
    · rename_i hempty
      obtain rfl := Option.some.inj hact
      exact List.length_eq_zero_iff.mpr hempty.1
    · simp at hact
  · simp at hact

theorem supplies_workReady : workReady.Supplies fun s => s.manager.runnable.length where
  stays := stays_atWait
  ready := by
    intro s h
    have hempty : s.manager.runnable.isEmpty = true ∧ s.manager.stopping = false := by
      simpa [workReady] using h
    exact List.length_eq_zero_iff.mpr (List.isEmpty_iff.mp hempty.1)
  balance := by
    intro s event t hact hall
    by_cases hexit : ∃ n, event = .exit n
    · obtain ⟨n, rfl⟩ := hexit
      exact Or.inl (runnable_of_exit hact)
    right
    by_cases hpickUp : ∃ n nowMs, event = .pickUp n nowMs
    · -- the worker that goes takes a job with it
      obtain ⟨n, nowMs, rfl⟩ := hpickUp
      have htaken := runnable_of_pickUp hact
      have hleaves : workReady.leaves s (.pickUp n nowMs) ≤ 1 := Monitored.leaves_le_one
      omega
    · push Not at hexit hpickUp
      have hleaves : workReady.leaves s event = 0 :=
        Monitored.leaves_eq_zero fun n hactor => not_atWait hact hactor (hpickUp n) (hexit n)
      rw [hleaves]
      exact announced hact hall

/-- `stopping` is set in the section that notifies all workers. -/
theorem announces_stopping : workReady.Announces fun s => s.manager.stopping = true where
  ready := by
    intro s h
    show (!s.manager.runnable.isEmpty || s.manager.stopping) = true
    rw [h, Bool.or_true]
  told := by
    intro s event t hact hbefore hafter
    rcases System.act_running hact with ⟨-, hsame⟩ | ⟨rfl, -⟩ | ⟨workers, rfl, -, hgoing⟩
    · exact absurd (hsame ▸ hafter) hbefore
    · rfl
    · rw [hafter] at hgoing
      simp at hgoing

end Step

/-! ## Every history -/

/-- Whatever commands, workers and failures do, in whatever order, and whichever worker a
notification wakes: every job in the queue has an awake worker of its own at the wait, or
no worker sleeps; so while a worker sleeps and a job is runnable, another worker can pick
it up. And once the manager is stopping no worker sleeps. -/
theorem no_wakeup_lost (config : RetryConfig) (strategy : MoveStrategy) (w : World)
    (workers : Nat → Bool) {c : Sleeping System Nat}
    (reach : GuardedReach workReady.step (fun _ _ => True)
      ⟨System.started config strategy w workers, ∅⟩ c) :
    (c.asleep = ∅ ∨ ∃ awake : Finset Nat, c.state.manager.runnable.length ≤ awake.card ∧
      ∀ n ∈ awake, c.state.threads n = .waiting ∧ n ∉ c.asleep) ∧
    (c.state.manager.runnable ≠ [] → c.asleep ≠ ∅ → ∀ nowMs,
      ∃ n ∉ c.asleep, (workReady.step c (.step (.pickUp n nowMs) none)).isSome = true) ∧
    (c.state.manager.stopping = true → c.asleep = ∅) := by
  have hcovered := supplies_workReady.always_covered rfl reach
  have hawake : c.asleep = ∅ ∨ ∃ awake : Finset Nat,
      c.state.manager.runnable.length ≤ awake.card ∧
        ∀ n ∈ awake, c.state.threads n = .waiting ∧ n ∉ c.asleep := by
    apply hcovered.covered.imp_right
    rintro ⟨awake, hcard, hwaits⟩
    exact ⟨awake, hcard, fun n hn => ⟨Thread.atWait_iff.mp (hwaits n hn).1, (hwaits n hn).2⟩⟩
  refine ⟨hawake, ?_, announces_stopping.nobody_sleeps rfl reach⟩
  intro hqueued hasleep nowMs
  obtain ⟨awake, hcard, hwaits⟩ := hawake.resolve_left hasleep
  have hpos : 0 < awake.card :=
    Nat.lt_of_lt_of_le (List.length_pos_iff.mpr hqueued) hcard
  obtain ⟨n, hn⟩ := Finset.card_pos.mp hpos
  obtain ⟨hwaiting, hn⟩ := hwaits n hn
  refine ⟨n, hn, ?_⟩
  obtain ⟨picked, hpicked⟩ := Manager.exists_pickUp hqueued
  simp [Monitored.step, workReady, ManagerEvent.actor, hn, System.act, hwaiting, hpicked,
    Monitored.rouse, System.notifies]

/-- Both workers of the sample manager go to sleep, and one of them wakes up again for no
reason; then the job `j` is submitted, and the notification wakes the other one. -/
def sampleSleep : List (SleepLabel ManagerEvent Nat) :=
  [.sleep 3, .sleep 4, .stir 3, .step (.submit 1 (lit "j") sampleRequest 5) none,
    .step (.lock 1) none, .step (.call 1 none) none, .step (.proceed 1) none, .sleep 3,
    .step (.proceed 1) (some 4)]

theorem no_wakeup_lost_sample : ∃ c : Sleeping System Nat,
    c.asleep = {3} ∧ c.state.manager.runnable = [lit "j"] ∧
      ∀ nowMs, ∃ n ∉ c.asleep,
        (workReady.step c (.step (.pickUp n nowMs) none)).isSome = true := by
  have hrun : (replay workReady.step sampleSleep ⟨sampleSystem, ∅⟩).any (fun c =>
      decide (c.asleep = {3} ∧ c.state.manager.runnable = [lit "j"])) = true := by
    decide +kernel
  obtain ⟨c, hc, hfacts⟩ := (Option.any_eq_true _ _).mp hrun
  obtain ⟨hasleep, hrunnable⟩ := of_decide_eq_true hfacts
  have hreach : GuardedReach workReady.step (fun _ _ => True) ⟨sampleSystem, ∅⟩ c :=
    .of_replay (AllSteps.of_free (fun _ _ => trivial) _ _) hc
  obtain ⟨-, hpickUp, -⟩ := no_wakeup_lost _ _ _ _ hreach
  refine ⟨c, hasleep, hrunnable, hpickUp ?_ ?_⟩
  · rw [hrunnable]
    simp
  · rw [hasleep]
    simp

end FileMover
