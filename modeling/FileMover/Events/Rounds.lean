import FileMover.Events.Subscribers
import Mathlib.Data.List.Forall2

/-!
# Who gets an event

A `publish` goes through its copy of the list of subscribers, and nothing that happens
meanwhile changes the copy: the subscribers that are called are those that were on the
list when the event was published, every one of them once and in the order of the list,
whatever is subscribed, unsubscribed and published in between, also by the callbacks
themselves.
-/

namespace FileMover.Events

open Framework

variable {Publisher Thread : Type} [DecidableEq Publisher] [DecidableEq Thread]

/-- What is remembered of a `publish`: the list that it copied, and whom it has called. -/
structure Round where
  snapshot : List Subscriber
  called : List Subscriber
deriving DecidableEq

/-- The publishers, and the rounds of their publications. -/
structure Traced (Publisher Thread : Type) where
  hub : Hub Publisher Thread
  /-- Those that are open in a thread, the innermost first. -/
  rounds : Thread → List Round
  finished : List Round

namespace Traced

def called (pub : Publication Publisher) (r : Round) : Round :=
  { r with called := r.called ++ pub.rest.take 1 }

/-- The rounds of a thread after its step. -/
def note (s : Traced Publisher Thread) : Event Publisher Thread → Thread → List Round
  | .publish n p =>
      Function.update s.rounds n (⟨s.hub.subscribers p, []⟩ :: s.rounds n)
  | .call n =>
      match (s.hub.threads n).stack, s.rounds n with
      | pub :: _, r :: rest => Function.update s.rounds n (called pub r :: rest)
      | _, _ => s.rounds
  | .finish n => Function.update s.rounds n (s.rounds n).tail
  | _ => s.rounds

def close (s : Traced Publisher Thread) : Event Publisher Thread → List Round
  | .finish n => (s.rounds n).take 1 ++ s.finished
  | _ => s.finished

def act (s : Traced Publisher Thread) (event : Event Publisher Thread) :
    Option (Traced Publisher Thread) :=
  (s.hub.act event).map fun hub => ⟨hub, s.note event, s.close event⟩

def quiet : Traced Publisher Thread := ⟨Hub.quiet, fun _ => [], []⟩

/-- What has been called and what is still to come make up the copy. -/
structure Follows (pub : Publication Publisher) (r : Round) : Prop where
  split : r.snapshot = r.called ++ pub.rest
  nodup : r.snapshot.Nodup

structure Delivering (s : Traced Publisher Thread) : Prop where
  nodup : ∀ p, (s.hub.subscribers p).Nodup
  follows : ∀ n, List.Forall₂ Follows (s.hub.threads n).stack (s.rounds n)
  finished : ∀ r ∈ s.finished, r.called = r.snapshot ∧ r.snapshot.Nodup

variable {s t : Traced Publisher Thread} {event : Event Publisher Thread}

omit [DecidableEq Publisher] in
/-- A step of one thread. -/
theorem Delivering.moved (inv : s.Delivering) {hub : Hub Publisher Thread}
    {after : Thread → List Round} {n : Thread} {thread : EventThread Publisher}
    {rounds : List Round} (hthreads : hub.threads = Function.update s.hub.threads n thread)
    (hafter : after = Function.update s.rounds n rounds)
    (hfollows : List.Forall₂ Follows thread.stack rounds) (k : Thread) :
    List.Forall₂ Follows (hub.threads k).stack (after k) := by
  rw [hthreads, hafter]
  by_cases hk : k = n
  · subst hk
    rw [Function.update_self, Function.update_self]
    exact hfollows
  · rw [Function.update_of_ne hk, Function.update_of_ne hk]
    exact inv.follows k

omit [DecidableEq Publisher] in
/-- A step of one thread that no round notices. -/
theorem Delivering.kept (inv : s.Delivering) {hub : Hub Publisher Thread} {n : Thread}
    {thread : EventThread Publisher}
    (hthreads : hub.threads = Function.update s.hub.threads n thread)
    (hfollows : List.Forall₂ Follows thread.stack (s.rounds n)) (k : Thread) :
    List.Forall₂ Follows (hub.threads k).stack (s.rounds k) :=
  inv.moved hthreads (Function.update_eq_self n s.rounds).symm hfollows k

omit [DecidableEq Publisher] [DecidableEq Thread] in
/-- The round of the innermost publication. -/
theorem Delivering.innermost (inv : s.Delivering) {n : Thread} {pub : Publication Publisher}
    {stack : List (Publication Publisher)} (hstack : (s.hub.threads n).stack = pub :: stack) :
    ∃ r rounds, s.rounds n = r :: rounds ∧ Follows pub r ∧
      List.Forall₂ Follows stack rounds := by
  have hfollows := inv.follows n
  rw [hstack] at hfollows
  obtain ⟨r, rounds, hr, hrest, hrounds⟩ := List.forall₂_cons_left_iff.mp hfollows
  exact ⟨r, rounds, hrounds, hr, hrest⟩

theorem Delivering.step (inv : s.Delivering) (hact : s.act event = some t) : t.Delivering := by
  obtain ⟨hub, hhub, rfl⟩ := Option.map_eq_some_iff.mp hact
  cases Hub.moves hhub with
  | refused h =>
      subst h
      exact ⟨inv.nodup, inv.follows, inv.finished⟩
  | @subscribed n p sub hnew hsubscribers _ hthreads =>
      refine ⟨?_, ?_, inv.finished⟩
      · show ∀ q, (hub.subscribers q).Nodup
        rw [hsubscribers]
        apply Hub.nodup_update inv.nodup
        rw [← List.concat_eq_append]
        exact (inv.nodup p).concat hnew
      · show ∀ k, List.Forall₂ Follows (hub.threads k).stack (s.rounds k)
        rw [hthreads]
        exact inv.follows
  | @waits n p sub _ h =>
      subst h
      refine ⟨Hub.nodup_update inv.nodup ((inv.nodup p).erase sub), ?_, inv.finished⟩
      exact inv.kept rfl (inv.follows n)
  | @unsubscribed n p sub _ h =>
      subst h
      refine ⟨?_, ?_, inv.finished⟩
      · intro q
        rw [Hub.unsubscribed_subscribers]
        exact Hub.nodup_update inv.nodup ((inv.nodup p).erase sub) q
      · intro k
        rw [Hub.unsubscribed_threads]
        exact inv.follows k
  | @drained n p sub _ _ h =>
      subst h
      refine ⟨?_, ?_, inv.finished⟩
      · intro q
        rw [Hub.unsubscribed_subscribers]
        exact inv.nodup q
      · exact inv.kept ((Hub.unsubscribed_threads ..).trans (Hub.setThread_threads ..))
          (inv.follows n)
  | @publish n p _ h =>
      subst h
      refine ⟨inv.nodup, inv.moved rfl rfl (.cons ⟨rfl, inv.nodup p⟩ (inv.follows n)), ?_⟩
      exact inv.finished
  | @call n p sub rest stack hstack h =>
      subst h
      obtain ⟨r, rounds, hrounds, hr, hrest⟩ := inv.innermost hstack
      have hnote : s.note (.call n) =
          Function.update s.rounds n (called ⟨p, sub :: rest, false⟩ r :: rounds) := by
        rw [note, hstack, hrounds]
      refine ⟨inv.nodup, inv.moved rfl hnote ?_, inv.finished⟩
      -- the subscriber that is called goes over from what is still to come
      refine .cons ⟨?_, hr.nodup⟩ hrest
      show r.snapshot = r.called ++ [sub] ++ rest
      rw [hr.split, List.append_assoc]
      rfl
  | @returned n p rest stack hstack h =>
      subst h
      obtain ⟨r, rounds, hrounds, hr, hrest⟩ := inv.innermost hstack
      refine ⟨inv.nodup, inv.kept rfl ?_, inv.finished⟩
      rw [hrounds]
      exact .cons ⟨hr.split, hr.nodup⟩ hrest
  | @finish n p stack hstack h =>
      subst h
      obtain ⟨r, rounds, hrounds, hr, hrest⟩ := inv.innermost hstack
      refine ⟨inv.nodup, inv.moved rfl rfl ?_, ?_⟩
      · rw [hrounds]
        exact hrest
      · intro r' hr'
        have hmem : r' ∈ (s.rounds n).take 1 ++ s.finished := hr'
        rw [hrounds] at hmem
        rcases List.mem_cons.mp hmem with rfl | hold
        · refine ⟨?_, hr.nodup⟩
          rw [hr.split]
          exact (List.append_nil _).symm
        · exact inv.finished r' hold

omit [DecidableEq Publisher] [DecidableEq Thread] in
theorem Follows.front {stack : List (Publication Publisher)} {rounds : List Round}
    (h : List.Forall₂ Follows stack rounds) :
    ∀ r ∈ rounds, r.called <+: r.snapshot ∧ r.snapshot.Nodup := by
  induction h with
  | nil => simp
  | cons hr _ ih => exact List.forall_mem_cons.mpr ⟨⟨⟨_, hr.split.symm⟩, hr.nodup⟩, ih⟩

/-- In every history, from inside callbacks or not: a `publish` that has finished has
called the subscribers that were on the list when it began, in their order and each of
them once; and one that is open has called the first part of them. -/
theorem publish_calls_each_once (reach : GuardedReach act (fun _ _ => True)
    (quiet : Traced Publisher Thread) s) :
    (∀ r ∈ s.finished, r.called = r.snapshot ∧ r.snapshot.Nodup) ∧
      ∀ n, ∀ r ∈ s.rounds n, r.called <+: r.snapshot ∧ r.snapshot.Nodup := by
  have inv : s.Delivering := by
    apply reach.invariant Delivering (fun _ hact h => h.step hact)
    exact ⟨fun _ => List.nodup_nil, fun _ => .nil, by simp [quiet]⟩
  exact ⟨inv.finished, fun n => Follows.front (inv.follows n)⟩

/-- Thread 1 takes the second subscriber away, while thread 0 publishes. -/
def interrupted : List (Event Bool Nat) :=
  [.subscribe 0 false ⟨1, 0⟩, .subscribe 0 false ⟨2, 0⟩, .publish 0 false, .call 0,
    .unsubscribe 1 false ⟨2, 0⟩, .returned 0, .call 0, .returned 0, .finish 0]

theorem publish_calls_each_once_interrupted :
    ∃ s : Traced Bool Nat, s.hub.subscribers false = [⟨1, 0⟩] ∧
      ∃ r ∈ s.finished, r.snapshot = [⟨1, 0⟩, ⟨2, 0⟩] ∧ r.called = r.snapshot := by
  have hrun : (replay act interrupted (quiet : Traced Bool Nat)).any (fun s =>
      decide (s.hub.subscribers false = [⟨1, 0⟩] ∧
        ∃ r ∈ s.finished, r.snapshot = [⟨1, 0⟩, ⟨2, 0⟩])) = true := by
    decide +kernel
  obtain ⟨s, hs, hfacts⟩ := (Option.any_eq_true _ _).mp hrun
  obtain ⟨hsubscribers, r, hr, hsnapshot⟩ := of_decide_eq_true hfacts
  have hreach : GuardedReach act (fun _ _ => True) quiet s :=
    .of_replay (AllSteps.of_free (fun _ _ => trivial) _ _) hs
  obtain ⟨hfinished, -⟩ := publish_calls_each_once hreach
  exact ⟨s, hsubscribers, r, hr, hsnapshot, (hfinished r hr).1⟩

end Traced

end FileMover.Events
