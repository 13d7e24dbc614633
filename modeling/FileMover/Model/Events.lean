import FileMover.Framework.Guarded
import Mathlib.Logic.Function.Basic

/-!
# Event publishers

`events.cpp`: any number of publishers, and threads that subscribe, unsubscribe and
publish on them, also from inside the callbacks. A `publish` copies the list of
subscribers in one critical section and goes through the copy without the lock; the
copy, the counter `in_flight` and the counter of the thread are what keeps the two
together.

The steps are the critical sections. `g_publish_depth` belongs to the thread and no
other thread sees it, so it changes together with the section next to it. A callback
that throws is caught, which is no different from one that returns.
-/

namespace FileMover.Events

/-- The identity of a subscriber is the pair of its callback and its user data. -/
structure Subscriber where
  callback : Nat
  userData : Nat
deriving DecidableEq, Repr

/-- A `publish` that has taken its snapshot and has not finished. -/
structure Publication (Publisher : Type) where
  publisher : Publisher
  /-- The part of the snapshot that has yet to be called. -/
  rest : List Subscriber
  /-- A callback is running. -/
  calling : Bool
deriving DecidableEq

structure EventThread (Publisher : Type) where
  /-- The innermost `publish` comes first. -/
  stack : List (Publication Publisher) := []
  /-- `g_publish_depth`. -/
  depth : Nat := 0
  /-- Waits in `unsubscribe` for `in_flight` to become zero. -/
  waits : Option (Publisher × Subscriber) := none
deriving DecidableEq

structure Hub (Publisher Thread : Type) where
  subscribers : Publisher → List Subscriber
  inFlight : Publisher → Nat
  threads : Thread → EventThread Publisher
  /-- The pairs that were unsubscribed, by a thread that is not in a `publish` of the
  publisher, and not subscribed again. Nothing in the program depends on it. -/
  gone : Publisher → Subscriber → Bool

inductive Event (Publisher Thread : Type)
  | subscribe (n : Thread) (p : Publisher) (sub : Subscriber)
  | unsubscribe (n : Thread) (p : Publisher) (sub : Subscriber)
  /-- The wait of `unsubscribe` is over. -/
  | drained (n : Thread)
  | publish (n : Thread) (p : Publisher)
  /-- A `publish` calls the next subscriber. -/
  | call (n : Thread)
  /-- The callback returns. -/
  | returned (n : Thread)
  | finish (n : Thread)

variable {Publisher Thread : Type}

namespace EventThread

/-- The code of a caller or of a callback is running. -/
def runs (thread : EventThread Publisher) : Bool :=
  thread.waits.isNone && thread.stack.head?.all (·.calling)

variable [DecidableEq Publisher]

/-- Inside a `publish` of this publisher. -/
def inside (thread : EventThread Publisher) (p : Publisher) : Bool :=
  thread.stack.any (·.publisher = p)

end EventThread

namespace Hub

variable [DecidableEq Publisher] [DecidableEq Thread]

def setThread (s : Hub Publisher Thread) (n : Thread) (thread : EventThread Publisher) :
    Hub Publisher Thread :=
  { s with threads := Function.update s.threads n thread }

/-- `unsubscribe` returns to the thread. -/
def unsubscribed (s : Hub Publisher Thread) (n : Thread) (p : Publisher) (sub : Subscriber) :
    Hub Publisher Thread :=
  if (s.threads n).inside p = true ∨ sub ∈ s.subscribers p then s
  else { s with gone := Function.update s.gone p (Function.update (s.gone p) sub true) }

def act (s : Hub Publisher Thread) : Event Publisher Thread → Option (Hub Publisher Thread)
  | .subscribe n p sub =>
      if (s.threads n).runs = false then none
      else if sub.callback = 0 ∨ sub ∈ s.subscribers p then some s
      else some { s with
        subscribers := Function.update s.subscribers p (s.subscribers p ++ [sub])
        gone := Function.update s.gone p (Function.update (s.gone p) sub false) }
  | .unsubscribe n p sub =>
      if (s.threads n).runs = false then none
      else
        let erased := { s with
          subscribers := Function.update s.subscribers p ((s.subscribers p).erase sub) }
        if (s.threads n).depth = 0 ∧ s.inFlight p ≠ 0 then
          some (erased.setThread n { s.threads n with waits := some (p, sub) })
        else some (erased.unsubscribed n p sub)
  | .drained n =>
      match (s.threads n).waits with
      | some (p, sub) =>
          if s.inFlight p = 0 then
            some ((s.setThread n { s.threads n with waits := none }).unsubscribed n p sub)
          else none
      | none => none
  | .publish n p =>
      if (s.threads n).runs = false then none
      else some ({ s with inFlight := Function.update s.inFlight p (s.inFlight p + 1) }.setThread n
        { s.threads n with
          stack := ⟨p, s.subscribers p, false⟩ :: (s.threads n).stack
          depth := (s.threads n).depth + 1 })
  | .call n =>
      match (s.threads n).stack with
      | ⟨p, _ :: rest, false⟩ :: stack =>
          some (s.setThread n { s.threads n with stack := ⟨p, rest, true⟩ :: stack })
      | _ => none
  | .returned n =>
      match (s.threads n).waits, (s.threads n).stack with
      | none, ⟨p, rest, true⟩ :: stack =>
          some (s.setThread n { s.threads n with stack := ⟨p, rest, false⟩ :: stack })
      | _, _ => none
  | .finish n =>
      match (s.threads n).stack with
      | ⟨p, [], false⟩ :: stack =>
          some ({ s with inFlight := Function.update s.inFlight p (s.inFlight p - 1) }.setThread n
            { s.threads n with stack := stack, depth := (s.threads n).depth - 1 })
      | _ => none

/-- No subscriber and no publication anywhere. -/
def quiet : Hub Publisher Thread where
  subscribers := fun _ => []
  inFlight := fun _ => 0
  threads := fun _ => {}
  gone := fun _ _ => false

end Hub

end FileMover.Events
