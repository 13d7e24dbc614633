import FileMover.Framework.Condition
import FileMover.Server.Conservation

/-!
# Handlers that sleep

The handlers wait on `work_ready`. The acceptor queues a connection inside its critical
section and notifies one handler after it, so for a while there may be a connection of
which no handler knows; it is the acceptor's next step that tells one, before it polls
again. `shutdown` notifies all inside its section.

So no connection is left in the queue because its handler sleeps, and the handlers that
`shutdown` joins are awake.
-/

namespace FileMover.Server

open Framework

/-- The pool, and whether the acceptor has queued a connection without a notification so
far. -/
structure Notifying where
  pool : Pool := {}
  owed : Bool := false

inductive NotifyingEvent
  | pool (event : PoolEvent)
  /-- The acceptor calls `notify_one`. -/
  | notify

namespace Notifying

/-- The steps of the acceptor. -/
def acceptor : PoolEvent → Bool
  | .accept | .quit | .decide | .refuse => true
  | _ => false

def queues (s : Pool) : PoolEvent → Bool
  | .decide =>
      match s.acceptor with
      | .deciding _ => !s.stopping && decide (0 < s.idle)
      | _ => false
  | _ => false

def act (s : Notifying) : NotifyingEvent → Option Notifying
  | .pool event =>
      if s.owed && acceptor event then none
      else (s.pool.act event).map fun t => ⟨t, s.owed || queues s.pool event⟩
  | .notify => if s.owed then some { s with owed := false } else none

/-- The handler that a step is one of. -/
def handler : NotifyingEvent → Option Nat
  | .pool (.take h) | .pool (.close h) | .pool (.giveBack h) | .pool (.leave h) => some h
  | _ => none

def notifies (s : Notifying) : NotifyingEvent → Signal
  | .notify => .one
  | .pool .stop => if s.pool.running then .all else .none
  | _ => .none

/-- The pool and its condition variable. -/
def workReady : Monitored Notifying NotifyingEvent Nat where
  act := act
  actor := handler
  atWait s h := decide (s.pool.handlers[h]? = some .waiting)
  ready s := !s.pool.queued.isEmpty || s.pool.stopping
  notifies := notifies

/-- The connections of which a handler has been told. -/
def told (s : Notifying) : Nat := s.pool.queued.length - s.owed.toNat

/-! ## What a step does to the queue -/

/-- What a step of the pool does to the queue and to the handlers at the wait. -/
inductive QueueStep (s t : Pool) : PoolEvent → Prop
  | same {event : PoolEvent} (actor : handler (.pool event) = none)
      (handlers : t.handlers = s.handlers) (queued : t.queued = s.queued)
      (queues : queues s event = false) : QueueStep s t event
  | started {n : Nat} {ready : Bool}
      (handlers : t.handlers = s.handlers ++ List.replicate n .waiting)
      (queued : t.queued = s.queued) : QueueStep s t (.start n ready)
  | finished (ended : ∀ handler ∈ s.handlers, handler = .returned) (queued : t.queued = []) :
      QueueStep s t .finish
  | queued {conn : Descriptor} (handlers : t.handlers = s.handlers)
      (queued : t.queued = s.queued ++ [conn]) (queues : queues s .decide = true) :
      QueueStep s t .decide
  | moved {event : PoolEvent} {h : Nat} {new : Handler}
      (actor : handler (.pool event) = some h) (queues : queues s event = false)
      (handlers : t.handlers = s.handlers.set h new)
      (taken : t.queued = [] ∨
        t.queued.length + (if s.handlers[h]? = some .waiting then 1 else 0) ≤
          s.queued.length) : QueueStep s t event

theorem queueStep {s t : Pool} {event : PoolEvent} (hact : s.act event = some t) :
    QueueStep s t event := by
  cases event with
  | start n ready =>
      simp only [Pool.act] at hact
      split at hact
      · exact Option.some.inj hact ▸ .same rfl rfl rfl rfl
      split at hact
      · exact Option.some.inj hact ▸ .same rfl rfl rfl rfl
      split at hact
      · exact Option.some.inj hact ▸ .same rfl rfl rfl rfl
      · exact Option.some.inj hact ▸ .started rfl rfl
  | stop =>
      simp only [Pool.act] at hact
      split at hact
      · exact Option.some.inj hact ▸ .same rfl rfl rfl rfl
      · exact Option.some.inj hact ▸ .same rfl rfl rfl rfl
  | finish =>
      simp only [Pool.act] at hact
      split at hact
      · rename_i hover
        exact Option.some.inj hact ▸ .finished hover.2.2 rfl
      · simp at hact
  | accept | quit =>
      simp only [Pool.act] at hact
      split at hact
      · exact Option.some.inj hact ▸ .same rfl rfl rfl rfl
      · simp at hact
  | decide =>
      simp only [Pool.act] at hact
      split at hact
      · rename_i conn hdeciding
        split at hact
        · rename_i hfree
          refine Option.some.inj hact ▸ .queued rfl rfl ?_
          simp [queues, hdeciding, hfree]
        · rename_i hrefused
          refine Option.some.inj hact ▸ .same rfl rfl rfl ?_
          simpa [queues, hdeciding] using hrefused
      · simp at hact
  | refuse =>
      simp only [Pool.act] at hact
      split at hact
      · exact Option.some.inj hact ▸ .same rfl rfl rfl rfl
      · simp at hact
  | take h =>
      simp only [Pool.act] at hact
      split at hact
      · rename_i conn rest hwaiting hqueued
        refine Option.some.inj hact ▸ .moved rfl rfl rfl (Or.inr ?_)
        rw [if_pos hwaiting, hqueued]
        rfl
      · simp at hact
  | close h =>
      simp only [Pool.act] at hact
      split at hact
      · rename_i conn hserving
        refine Option.some.inj hact ▸ .moved rfl rfl rfl (Or.inr ?_)
        rw [hserving, if_neg (by simp)]
        rfl
      · simp at hact
  | giveBack h =>
      simp only [Pool.act] at hact
      split at hact
      · rename_i hclosed
        refine Option.some.inj hact ▸ .moved rfl rfl rfl (Or.inr ?_)
        rw [hclosed, if_neg (by simp)]
        rfl
      · simp at hact
  | leave h =>
      simp only [Pool.act] at hact
      split at hact
      · rename_i hempty
        exact Option.some.inj hact ▸ .moved rfl rfl rfl (Or.inl hempty.2.1)
      · simp at hact

/-- A handler leaves the wait in a section of its own. -/
theorem QueueStep.stays {s t : Pool} {event : PoolEvent} (step : QueueStep s t event) {h : Nat}
    (hactor : handler (.pool event) ≠ some h) (hwait : s.handlers[h]? = some .waiting) :
    t.handlers[h]? = some .waiting := by
  cases step with
  | same _ handlers | queued handlers =>
      rw [handlers]
      exact hwait
  | started handlers =>
      rw [handlers, List.getElem?_append_left (List.getElem?_eq_some_iff.mp hwait).1]
      exact hwait
  | finished ended =>
      have hreturned := ended _ (List.mem_of_getElem? hwait)
      simp at hreturned
  | @moved _ k new actor _ handlers =>
      have hne : k ≠ h := by
        rintro rfl
        exact hactor actor
      rw [handlers, List.getElem?_set_ne hne]
      exact hwait

section Step
variable {s t : Notifying} {event : NotifyingEvent}

theorem act_pool {e : PoolEvent} (hact : s.act (.pool e) = some t) :
    s.pool.act e = some t.pool ∧ t.owed = (s.owed || queues s.pool e) ∧
      (s.owed = true → acceptor e = false) := by
  simp only [act] at hact
  split at hact
  · simp at hact
  · rename_i hfree
    obtain ⟨u, hu, rfl⟩ := Option.map_eq_some_iff.mp hact
    refine ⟨hu, rfl, fun howed => ?_⟩
    simpa [howed] using hfree

theorem act_notify (hact : s.act .notify = some t) :
    s.owed = true ∧ t = { s with owed := false } := by
  simp only [act] at hact
  split at hact
  · rename_i howed
    exact ⟨howed, (Option.some.inj hact).symm⟩
  · simp at hact

theorem leaves_pool {e : PoolEvent} :
    workReady.leaves s (.pool e) =
      match handler (.pool e) with
      | some h => if s.pool.handlers[h]? = some .waiting then 1 else 0
      | none => 0 := by
  unfold Monitored.leaves
  show (if (handler (.pool e)).any _ then 1 else 0) = _
  cases handler (.pool e) with
  | none => rfl
  | some h => simp [workReady]

/-- A connection is told of when its notification comes; a handler that goes takes one. -/
theorem QueueStep.balance {e : PoolEvent} (step : QueueStep s.pool t.pool e)
    (howed : t.owed = (s.owed || queues s.pool e)) (hfree : s.owed = true → acceptor e = false) :
    t.told = 0 ∨ t.told + workReady.leaves s (.pool e) ≤ s.told := by
  rw [leaves_pool]
  unfold told
  cases step with
  | same actor _ queued queues =>
      right
      rw [actor, queued, howed, queues, Bool.or_false]
      exact Nat.le_refl _
  | @started n ready _ queued =>
      right
      rw [queued, howed, show queues s.pool (.start n ready) = false from rfl, Bool.or_false]
      exact Nat.le_refl _
  | finished _ queued =>
      left
      rw [queued]
      exact Nat.zero_sub _
  | queued _ queued queues =>
      right
      have hnone : s.owed = false := by
        by_contra howes
        exact absurd (hfree (by simpa using howes)) (by simp [acceptor])
      rw [queued, howed, queues, hnone]
      simp [handler]
  | moved actor queues _ taken =>
      rw [actor, howed, queues, Bool.or_false]
      dsimp only
      rcases taken with hempty | htaken
      · left
        rw [hempty]
        exact Nat.zero_sub _
      · omega

theorem stopping_of_act {s t : Pool} {e : PoolEvent} (hact : s.act e = some t)
    (hbefore : s.stopping = false) (hafter : t.stopping = true) :
    e = .stop ∧ s.running = true := by
  have hsame : t = s ∨ t.stopping = false ∨ t.stopping = s.stopping ∨
      e = .stop ∧ s.running = true := by
    cases e with
    | start n ready =>
        simp only [Pool.act] at hact
        repeat' split at hact
        all_goals obtain rfl := Option.some.inj hact
        · exact Or.inl rfl
        · exact Or.inl rfl
        · exact Or.inl rfl
        · exact Or.inr (Or.inl rfl)
    | stop =>
        simp only [Pool.act] at hact
        split at hact
        · rename_i hrunning
          exact Or.inr (Or.inr (Or.inr ⟨rfl, hrunning⟩))
        · exact Or.inl (Option.some.inj hact).symm
    | _ =>
        simp only [Pool.act] at hact
        repeat' split at hact
        all_goals first
          | (simp at hact; done)
          | (obtain rfl := Option.some.inj hact; exact Or.inr (Or.inr (Or.inl rfl)))
  rcases hsame with rfl | hoff | hsame | hstop
  · rw [hbefore] at hafter
    simp at hafter
  · rw [hoff] at hafter
    simp at hafter
  · rw [hsame, hbefore] at hafter
    simp at hafter
  · exact hstop

theorem supplies_workReady : workReady.Supplies told where
  stays := by
    intro s event t h hact hactor hwait
    have hwait : s.pool.handlers[h]? = some .waiting := of_decide_eq_true hwait
    apply decide_eq_true
    cases event with
    | pool e =>
        exact (queueStep (act_pool hact).1).stays hactor hwait
    | notify =>
        obtain ⟨-, rfl⟩ := act_notify hact
        exact hwait
  ready := by
    intro s h
    have hempty : s.pool.queued = [] := by
      by_contra hqueued
      simp [workReady, hqueued] at h
    rw [told, hempty]
    exact Nat.zero_sub _
  balance := by
    intro s event t hact hall
    cases event with
    | pool e =>
        obtain ⟨hpool, howed, hfree⟩ := act_pool hact
        apply ((queueStep hpool).balance howed hfree).imp_right
        exact fun h => h.trans (Nat.le_add_right _ _)
    | notify =>
        -- the connection that was queued before is told of now
        obtain ⟨howed, rfl⟩ := act_notify hact
        right
        show s.pool.queued.length - 0 + 0 ≤ s.pool.queued.length - s.owed.toNat + 1
        rw [howed]
        exact Nat.le_add_of_sub_le (Nat.le_refl _)

/-- `stopping` is set in the section that notifies all handlers. -/
theorem announces_stopping : workReady.Announces fun s => s.pool.stopping = true where
  ready := by
    intro s h
    show (!s.pool.queued.isEmpty || s.pool.stopping) = true
    rw [h, Bool.or_true]
  told := by
    intro s event t hact hbefore hafter
    cases event with
    | pool e =>
        obtain ⟨rfl, hrunning⟩ :=
          stopping_of_act (act_pool hact).1 (by simpa using hbefore) hafter
        show (if s.pool.running then Signal.all else .none) = .all
        rw [hrunning]
        rfl
    | notify =>
        obtain ⟨-, rfl⟩ := act_notify hact
        exact absurd hafter hbefore

end Step

/-! ## Every history -/

/-- Whatever the acceptor, the handlers and any number of starts and shutdowns do: of the
connections in the queue all but the one that the acceptor is about to announce have an
awake handler of their own at the wait, or no handler sleeps; and while the server is
stopping no handler sleeps. -/
theorem no_connection_overslept {c : Sleeping Notifying Nat}
    (reach : GuardedReach workReady.step (fun _ _ => True) ⟨{}, ∅⟩ c) :
    (c.asleep = ∅ ∨ ∃ awake : Finset Nat,
      c.state.pool.queued.length ≤ awake.card + c.state.owed.toNat ∧
        ∀ h ∈ awake, c.state.pool.handlers[h]? = some .waiting ∧ h ∉ c.asleep) ∧
    (c.state.pool.stopping = true → c.asleep = ∅) := by
  refine ⟨?_, announces_stopping.nobody_sleeps rfl reach⟩
  apply (supplies_workReady.always_covered rfl reach).covered.imp_right
  rintro ⟨awake, hcard, hwaits⟩
  refine ⟨awake, Nat.sub_le_iff_le_add.mp hcard, fun h hh => ?_⟩
  exact ⟨of_decide_eq_true (hwaits h hh).1, (hwaits h hh).2⟩

/-- Two handlers go to sleep; a connection comes, and its notification wakes the second. -/
def sleepyServer : List (SleepLabel NotifyingEvent Nat) :=
  [.step (.pool (.start 2 true)) none, .sleep 0, .sleep 1, .step (.pool .accept) none,
    .step (.pool .decide) none, .step .notify (some 1)]

theorem no_connection_overslept_sample : ∃ c : Sleeping Notifying Nat,
    c.asleep = {0} ∧ c.state.pool.queued = [0] ∧ ∃ awake : Finset Nat,
      c.state.pool.queued.length ≤ awake.card + c.state.owed.toNat ∧
        ∀ h ∈ awake, c.state.pool.handlers[h]? = some .waiting ∧ h ∉ c.asleep := by
  have hrun : (replay workReady.step sleepyServer ⟨{}, ∅⟩).any (fun c =>
      decide (c.asleep = {0} ∧ c.state.pool.queued = [0])) = true := by
    decide +kernel
  obtain ⟨c, hc, hfacts⟩ := (Option.any_eq_true _ _).mp hrun
  obtain ⟨hasleep, hqueued⟩ := of_decide_eq_true hfacts
  have hreach : GuardedReach workReady.step (fun _ _ => True) ⟨{}, ∅⟩ c :=
    .of_replay (AllSteps.of_free (fun _ _ => trivial) _ _) hc
  obtain ⟨hawake, -⟩ := no_connection_overslept hreach
  refine ⟨c, hasleep, hqueued, hawake.resolve_left ?_⟩
  rw [hasleep]
  simp

end Notifying

end FileMover.Server
