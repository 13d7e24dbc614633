import FileMover.Events.Subscribers
import FileMover.Framework.Condition

/-!
# Unsubscribers that sleep

`unsubscribe` waits on `drained` until no publication of its publisher is open. The
publication that closes as the last one notifies all who wait, in the section in which it
closes. So nobody who waits for a publisher sleeps while it has no publication open: every
such `unsubscribe` can return.

There is one condition variable for each publisher; what is said here is about any one of
them, while the threads that wait for another publisher are only steps of the system.
-/

namespace FileMover.Events

open Framework

variable {Publisher Thread : Type} [DecidableEq Publisher] [DecidableEq Thread]

namespace Event

def thread : Event Publisher Thread → Thread
  | .subscribe n _ _ | .unsubscribe n _ _ | .drained n | .publish n _ => n
  | .call n | .returned n | .finish n => n

end Event

namespace Hub

/-- In `unsubscribe`, at the wait for this publisher. -/
def waitsFor (s : Hub Publisher Thread) (p : Publisher) (n : Thread) : Bool :=
  (s.threads n).waits.any fun wait => decide (wait.1 = p)

/-- The publication that closes is one of this publisher and leaves none open. -/
def notifiesDrained (p : Publisher) (s : Hub Publisher Thread) :
    Event Publisher Thread → Signal
  | .finish n =>
      match (s.threads n).stack with
      | pub :: _ => if pub.publisher = p ∧ s.inFlight p - 1 = 0 then .all else .none
      | [] => .none
  | _ => .none

/-- The publishers, and the condition variable `drained` of this one. -/
def drained (p : Publisher) :
    Monitored (Hub Publisher Thread) (Event Publisher Thread) Thread where
  act := act
  actor event := some event.thread
  atWait s n := s.waitsFor p n
  ready s := decide (s.inFlight p = 0)
  notifies := notifiesDrained p

/-- Only the end of a publication takes the counter of its publisher down. -/
theorem inFlight_eq_zero {s t : Hub Publisher Thread} {event : Event Publisher Thread}
    {p : Publisher} (hact : s.act event = some t) (hopen : s.inFlight p ≠ 0)
    (hdrained : t.inFlight p = 0) : s.notifiesDrained p event = .all := by
  cases moves hact with
  | refused h =>
      subst h
      exact absurd hdrained hopen
  | subscribed _ _ hsame =>
      rw [hsame] at hdrained
      exact absurd hdrained hopen
  | waits _ h | call _ h | returned _ h =>
      subst h
      exact absurd hdrained hopen
  | unsubscribed _ h | drained _ _ h =>
      subst h
      rw [unsubscribed_inFlight] at hdrained
      exact absurd hdrained hopen
  | @publish n q _ h =>
      subst h
      by_cases hq : p = q
      · subst hq
        simp at hdrained
      · simp only [Function.update_of_ne hq] at hdrained
        exact absurd hdrained hopen
  | @finish n q stack hstack h =>
      subst h
      by_cases hq : p = q
      · subst hq
        simp only [Function.update_self] at hdrained
        simp [notifiesDrained, hstack, hdrained]
      · simp only [Function.update_of_ne hq] at hdrained
        exact absurd hdrained hopen

theorem announces_drained (p : Publisher) :
    (drained p).Announces fun s : Hub Publisher Thread => s.inFlight p = 0 where
  ready := fun h => decide_eq_true h
  told := fun hact hbefore hafter => inFlight_eq_zero hact hbefore hafter

/-- Whatever subscribe, unsubscribe and publish do in any number of threads, also from
inside callbacks: while a publisher has no publication open, nobody who waits for that
sleeps, and every `unsubscribe` that waits for it can return. -/
theorem drained_unsubscribe_returns (p : Publisher) {c : Sleeping (Hub Publisher Thread) Thread}
    (reach : GuardedReach (drained p).step (fun _ _ => True) ⟨quiet, ∅⟩ c)
    (hclosed : c.state.inFlight p = 0) :
    c.asleep = ∅ ∧ ∀ n sub, (c.state.threads n).waits = some (p, sub) →
      ∃ c', (drained p).step c (.step (.drained n) none) = some c' ∧
        (c'.state.threads n).waits = none := by
  have hasleep := (announces_drained p).nobody_sleeps rfl reach hclosed
  refine ⟨hasleep, fun n sub hwaits => ?_⟩
  let t := (c.state.setThread n { c.state.threads n with waits := none }).unsubscribed n p sub
  have hact : c.state.act (.drained n) = some t := by
    simp only [act, hwaits]
    exact if_pos hclosed
  refine ⟨⟨t, c.asleep⟩, ?_, ?_⟩
  · simp [Monitored.step, drained, hasleep, hact, Monitored.rouse, notifiesDrained]
  · show (t.threads n).waits = none
    rw [unsubscribed_threads, setThread_threads, Function.update_self]

/-- Thread 1 sleeps in `unsubscribe` until the publication of thread 0 closes. -/
def sleepyUnsubscribe : List (SleepLabel (Event Bool Nat) Nat) :=
  [.step (.subscribe 0 false ⟨1, 0⟩) none, .step (.publish 0 false) none,
    .step (.unsubscribe 1 false ⟨1, 0⟩) none, .sleep 1, .step (.call 0) none,
    .step (.returned 0) none, .step (.finish 0) none]

theorem drained_unsubscribe_returns_sample :
    ∃ c c' : Sleeping (Hub Bool Nat) Nat,
      (c.state.threads 1).waits = some (false, ⟨1, 0⟩) ∧
        (drained false).step c (.step (.drained 1) none) = some c' ∧
          (c'.state.threads 1).waits = none := by
  have hrun : (replay (drained false).step sleepyUnsubscribe ⟨quiet, ∅⟩).any (fun c =>
      decide (c.state.inFlight false = 0 ∧
        (c.state.threads 1).waits = some (false, ⟨1, 0⟩))) = true := by
    decide +kernel
  obtain ⟨c, hc, hfacts⟩ := (Option.any_eq_true _ _).mp hrun
  obtain ⟨hclosed, hwaits⟩ := of_decide_eq_true hfacts
  have hreach : GuardedReach (drained false).step (fun _ _ => True) ⟨quiet, ∅⟩ c :=
    .of_replay (AllSteps.of_free (fun _ _ => trivial) _ _) hc
  obtain ⟨-, hreturns⟩ := drained_unsubscribe_returns false hreach hclosed
  obtain ⟨c', hstep, hdone⟩ := hreturns 1 ⟨1, 0⟩ hwaits
  exact ⟨c, c', hwaits, hstep, hdone⟩

end Hub

end FileMover.Events
