import FileMover.Model.Events
import Mathlib.Algebra.Order.BigOperators.Group.Finset
import Mathlib.Data.Fintype.BigOperators
import Mathlib.Data.List.Nodup

/-!
# Subscribers that are gone

Two things hold in every run: no publisher lists a pair twice, and `in_flight` is the
number of its publications that are open. The second one is what makes the wait of
`unsubscribe` worth something: when it ends, no snapshot of the publisher is left.

What decides whether to wait is the counter of the thread, and that counter is shared
by all publishers. A callback of one publisher that unsubscribes from another one does
not wait, although the publications it does not wait for are not its own. So the
promise of `unsubscribe` is kept in the runs in which no wait is skipped that way.
-/

namespace FileMover.Events

open Framework

variable {Publisher Thread : Type}

namespace EventThread

variable [DecidableEq Publisher]

/-- How many publications of this publisher are open in the thread. -/
def openOn (thread : EventThread Publisher) (p : Publisher) : Nat :=
  thread.stack.countP (·.publisher = p)

/-- The counter is the number of open publications, and nobody waits inside one. -/
structure Sound (thread : EventThread Publisher) : Prop where
  counted : thread.depth = thread.stack.length
  outside : thread.waits ≠ none → thread.stack = []

theorem openOn_eq_zero {thread : EventThread Publisher} {p : Publisher} :
    thread.openOn p = 0 ↔ ∀ pub ∈ thread.stack, pub.publisher ≠ p := by
  simp only [openOn, List.countP_eq_zero, decide_eq_true_eq, ne_eq]

theorem openOn_cons {thread : EventThread Publisher} {pub : Publication Publisher}
    {stack : List (Publication Publisher)} (hstack : thread.stack = pub :: stack)
    (p : Publisher) :
    thread.openOn p = stack.countP (·.publisher = p) + if pub.publisher = p then 1 else 0 := by
  unfold openOn
  rw [hstack, List.countP_cons]
  simp only [decide_eq_true_eq]

end EventThread

namespace Hub

section

variable [DecidableEq Thread]

@[simp] theorem setThread_threads (s : Hub Publisher Thread) (n : Thread)
    (thread : EventThread Publisher) :
    (s.setThread n thread).threads = Function.update s.threads n thread := rfl

@[simp] theorem setThread_subscribers (s : Hub Publisher Thread) (n : Thread)
    (thread : EventThread Publisher) : (s.setThread n thread).subscribers = s.subscribers := rfl

@[simp] theorem setThread_inFlight (s : Hub Publisher Thread) (n : Thread)
    (thread : EventThread Publisher) : (s.setThread n thread).inFlight = s.inFlight := rfl

@[simp] theorem setThread_gone (s : Hub Publisher Thread) (n : Thread)
    (thread : EventThread Publisher) : (s.setThread n thread).gone = s.gone := rfl

end

variable [DecidableEq Publisher]

/-- The condition under which `unsubscribe` keeps its promise: a thread inside a
`publish` takes away a subscriber of that same publisher, or of one that has no
publication open. -/
def Cautious (s : Hub Publisher Thread) : Event Publisher Thread → Prop
  | .unsubscribe n p _ =>
      (s.threads n).depth = 0 ∨ (s.threads n).inside p = true ∨ s.inFlight p = 0
  | _ => True

instance (s : Hub Publisher Thread) (e : Event Publisher Thread) : Decidable (s.Cautious e) := by
  unfold Cautious
  split <;> infer_instance

/-- Whoever is gone is in no list and in no snapshot. -/
def Released (s : Hub Publisher Thread) : Prop :=
  ∀ p sub, s.gone p sub = true →
    sub ∉ s.subscribers p ∧
      ∀ n, ∀ pub ∈ (s.threads n).stack, pub.publisher = p → sub ∉ pub.rest

@[simp] theorem unsubscribed_threads (s : Hub Publisher Thread) (n : Thread) (p : Publisher)
    (sub : Subscriber) : (s.unsubscribed n p sub).threads = s.threads := by
  unfold unsubscribed
  split <;> rfl

@[simp] theorem unsubscribed_subscribers (s : Hub Publisher Thread) (n : Thread) (p : Publisher)
    (sub : Subscriber) : (s.unsubscribed n p sub).subscribers = s.subscribers := by
  unfold unsubscribed
  split <;> rfl

@[simp] theorem unsubscribed_inFlight (s : Hub Publisher Thread) (n : Thread) (p : Publisher)
    (sub : Subscriber) : (s.unsubscribed n p sub).inFlight = s.inFlight := by
  unfold unsubscribed
  split <;> rfl

/-! ## What a step can do -/

variable [DecidableEq Thread]

/-- What the steps do to the part that the program itself has, the one case a step. -/
inductive Moves (s t : Hub Publisher Thread) : Event Publisher Thread → Prop
  /-- A subscriber that is listed, or a null callback. -/
  | refused {n p sub} : t = s → Moves s t (.subscribe n p sub)
  | subscribed {n p sub} :
      sub ∉ s.subscribers p →
      t.subscribers = Function.update s.subscribers p (s.subscribers p ++ [sub]) →
      t.inFlight = s.inFlight → t.threads = s.threads →
      t.gone = Function.update s.gone p (Function.update (s.gone p) sub false) →
      Moves s t (.subscribe n p sub)
  | waits {n p sub} :
      (s.threads n).depth = 0 →
      t = { s with
        subscribers := Function.update s.subscribers p ((s.subscribers p).erase sub)
        threads := Function.update s.threads n { s.threads n with waits := some (p, sub) } } →
      Moves s t (.unsubscribe n p sub)
  | unsubscribed {n p sub} :
      (s.threads n).depth ≠ 0 ∨ s.inFlight p = 0 →
      t = { s with
        subscribers := Function.update s.subscribers p
          ((s.subscribers p).erase sub) }.unsubscribed n p sub →
      Moves s t (.unsubscribe n p sub)
  | drained {n p sub} :
      (s.threads n).waits = some (p, sub) → s.inFlight p = 0 →
      t = (s.setThread n { s.threads n with waits := none }).unsubscribed n p sub →
      Moves s t (.drained n)
  | publish {n p} :
      (s.threads n).waits = none →
      t = { s with
        inFlight := Function.update s.inFlight p (s.inFlight p + 1)
        threads := Function.update s.threads n { s.threads n with
          stack := ⟨p, s.subscribers p, false⟩ :: (s.threads n).stack
          depth := (s.threads n).depth + 1 } } →
      Moves s t (.publish n p)
  | call {n p sub rest stack} :
      (s.threads n).stack = ⟨p, sub :: rest, false⟩ :: stack →
      t = s.setThread n { s.threads n with stack := ⟨p, rest, true⟩ :: stack } →
      Moves s t (.call n)
  | returned {n p rest stack} :
      (s.threads n).stack = ⟨p, rest, true⟩ :: stack →
      t = s.setThread n { s.threads n with stack := ⟨p, rest, false⟩ :: stack } →
      Moves s t (.returned n)
  | finish {n p stack} :
      (s.threads n).stack = ⟨p, [], false⟩ :: stack →
      t = { s with
        inFlight := Function.update s.inFlight p (s.inFlight p - 1)
        threads := Function.update s.threads n { s.threads n with
          stack := stack
          depth := (s.threads n).depth - 1 } } →
      Moves s t (.finish n)

omit [DecidableEq Publisher] [DecidableEq Thread] in
theorem waits_of_runs {thread : EventThread Publisher} (h : ¬ thread.runs = false) :
    thread.waits = none := by
  have hruns : thread.runs = true := by simpa using h
  rw [EventThread.runs, Bool.and_eq_true] at hruns
  exact Option.isNone_iff_eq_none.mp hruns.1

theorem moves {s t : Hub Publisher Thread} {e : Event Publisher Thread}
    (hact : s.act e = some t) : Moves s t e := by
  cases e with
  | subscribe n p sub =>
      simp only [act] at hact
      split at hact
      · cases hact
      · split at hact
        · exact .refused (Option.some.inj hact).symm
        · next hnew =>
            cases hact
            exact .subscribed (fun hmem => hnew (.inr hmem)) rfl rfl rfl rfl
  | unsubscribe n p sub =>
      simp only [act] at hact
      split at hact
      · cases hact
      · split at hact
        · next hwait =>
            exact .waits hwait.1 (Option.some.inj hact).symm
        · next hgo =>
            refine .unsubscribed ?_ (Option.some.inj hact).symm
            by_cases hdepth : (s.threads n).depth = 0
            · exact .inr (by_contra fun h => hgo ⟨hdepth, h⟩)
            · exact .inl hdepth
  | drained n =>
      simp only [act] at hact
      split at hact
      · next p sub hwaits =>
          split at hact
          · next hzero => exact .drained hwaits hzero (Option.some.inj hact).symm
          · cases hact
      · cases hact
  | publish n p =>
      simp only [act] at hact
      split at hact
      · cases hact
      · next hruns => exact .publish (waits_of_runs hruns) (Option.some.inj hact).symm
  | call n =>
      simp only [act] at hact
      split at hact
      · next hstack => exact .call hstack (Option.some.inj hact).symm
      · cases hact
  | returned n =>
      simp only [act] at hact
      split at hact
      · next hstack => exact .returned hstack (Option.some.inj hact).symm
      · cases hact
  | finish n =>
      simp only [act] at hact
      split at hact
      · next hstack => exact .finish hstack (Option.some.inj hact).symm
      · cases hact

/-! ## Every run -/

section counting

variable [Fintype Thread]

/-- How many publications of this publisher are open. -/
def openOn (s : Hub Publisher Thread) (p : Publisher) : Nat :=
  ∑ n, (s.threads n).openOn p

omit [DecidableEq Thread] in
theorem openOn_eq_zero {s : Hub Publisher Thread} {p : Publisher} (h : s.openOn p = 0)
    (n : Thread) : ∀ pub ∈ (s.threads n).stack, pub.publisher ≠ p := by
  have hzero : (s.threads n).openOn p = 0 :=
    Finset.sum_eq_zero_iff.mp h n (Finset.mem_univ n)
  exact EventThread.openOn_eq_zero.mp hzero

/-- Only the thread that moves makes a difference. -/
theorem openOn_update {s t : Hub Publisher Thread} {n : Thread}
    {thread : EventThread Publisher} (hthreads : t.threads = Function.update s.threads n thread)
    (p : Publisher) :
    t.openOn p + (s.threads n).openOn p = s.openOn p + thread.openOn p := by
  unfold openOn
  rw [hthreads, ← Finset.add_sum_erase _ _ (Finset.mem_univ n),
    ← Finset.add_sum_erase Finset.univ (fun m => (s.threads m).openOn p) (Finset.mem_univ n)]
  have hothers : ∑ m ∈ Finset.univ.erase n,
      (Function.update s.threads n thread m).openOn p =
        ∑ m ∈ Finset.univ.erase n, (s.threads m).openOn p := by
    refine Finset.sum_congr rfl fun m hm => ?_
    rw [Function.update_of_ne (Finset.ne_of_mem_erase hm)]
  rw [hothers, Function.update_self]
  omega

/-- What holds in every run. -/
structure Orderly (s : Hub Publisher Thread) : Prop where
  sound : ∀ n, (s.threads n).Sound
  nodup : ∀ p, (s.subscribers p).Nodup
  counted : ∀ p, s.inFlight p = s.openOn p

omit [DecidableEq Thread] in
theorem Orderly.quiet : (quiet : Hub Publisher Thread).Orderly where
  sound := fun _ => ⟨rfl, fun h => absurd rfl h⟩
  nodup := fun _ => List.nodup_nil
  counted := fun p => by
    symm
    exact Finset.sum_eq_zero fun n _ => rfl

omit [DecidableEq Publisher] [Fintype Thread] in
theorem sound_update {s : Hub Publisher Thread} {n : Thread} {thread : EventThread Publisher}
    (sound : ∀ m, (s.threads m).Sound) (hthread : thread.Sound) (m : Thread) :
    (Function.update s.threads n thread m).Sound := by
  by_cases hm : m = n
  · subst hm
    rw [Function.update_self]
    exact hthread
  · rw [Function.update_of_ne hm]
    exact sound m

omit [DecidableEq Thread] [Fintype Thread] in
theorem nodup_update {s : Hub Publisher Thread} {p : Publisher} {subs : List Subscriber}
    (nodup : ∀ q, (s.subscribers q).Nodup) (hsubs : subs.Nodup) (q : Publisher) :
    (Function.update s.subscribers p subs q).Nodup := by
  by_cases hq : q = p
  · subst hq
    rw [Function.update_self]
    exact hsubs
  · rw [Function.update_of_ne hq]
    exact nodup q

/-- The counters follow the thread that moves. -/
theorem counted_update {s t : Hub Publisher Thread} {n : Thread}
    {thread : EventThread Publisher} (counted : ∀ p, s.inFlight p = s.openOn p)
    (hthreads : t.threads = Function.update s.threads n thread)
    (hflight : ∀ p, t.inFlight p + (s.threads n).openOn p = s.inFlight p + thread.openOn p)
    (p : Publisher) : t.inFlight p = t.openOn p := by
  have hopen := openOn_update hthreads p
  have hp := hflight p
  have hcounted := counted p
  omega

/-- A publication that goes on to its next callback, or comes back from one, stays as
open as it was. -/
theorem Orderly.goes_on {s : Hub Publisher Thread} (inv : s.Orderly) {n : Thread}
    {p : Publisher} {rest rest' : List Subscriber} {calling calling' : Bool}
    {stack : List (Publication Publisher)}
    (hstack : (s.threads n).stack = ⟨p, rest, calling⟩ :: stack) :
    (s.setThread n { s.threads n with stack := ⟨p, rest', calling'⟩ :: stack }).Orderly where
  sound := by
    refine sound_update inv.sound ⟨?_, fun hwaits => ?_⟩
    · have hdepth := (inv.sound n).counted
      rw [hstack] at hdepth
      exact hdepth
    · rw [(inv.sound n).outside hwaits] at hstack
      cases hstack
  nodup := inv.nodup
  counted := by
    refine counted_update inv.counted rfl fun q => ?_
    rw [EventThread.openOn_cons hstack, EventThread.openOn_cons rfl]
    rfl

theorem Orderly.step {s t : Hub Publisher Thread} {e : Event Publisher Thread}
    (hact : s.act e = some t) (inv : s.Orderly) : t.Orderly := by
  cases moves hact with
  | refused ht =>
      subst ht
      exact inv
  | @subscribed n p sub hnew hsubs hflight hthreads =>
      refine ⟨fun m => ?_, fun q => ?_, fun q => ?_⟩
      · rw [hthreads]
        exact inv.sound m
      · rw [hsubs]
        refine nodup_update inv.nodup ?_ q
        rw [← List.concat_eq_append]
        exact (inv.nodup p).concat hnew
      · rw [hflight, inv.counted q]
        unfold openOn
        rw [hthreads]
  | @waits n p sub hdepth ht =>
      subst ht
      refine ⟨sound_update inv.sound ⟨(inv.sound n).counted, fun _ => ?_⟩,
        nodup_update inv.nodup ((inv.nodup p).erase sub),
        counted_update inv.counted rfl fun q => rfl⟩
      exact List.length_eq_zero_iff.mp ((inv.sound n).counted.symm.trans hdepth)
  | @unsubscribed n p sub hgo ht =>
      subst ht
      refine ⟨fun m => ?_, fun q => ?_, fun q => ?_⟩
      · rw [unsubscribed_threads]
        exact inv.sound m
      · rw [unsubscribed_subscribers]
        exact nodup_update inv.nodup ((inv.nodup p).erase sub) q
      · rw [unsubscribed_inFlight]
        unfold openOn
        rw [unsubscribed_threads]
        exact inv.counted q
  | @drained n p sub hwaits hzero ht =>
      subst ht
      refine ⟨fun m => ?_, fun q => ?_, counted_update inv.counted
        ((unsubscribed_threads _ n p sub).trans (setThread_threads s n _)) fun q => ?_⟩
      · rw [unsubscribed_threads, setThread_threads]
        have hsound : ({ s.threads n with waits := none } : EventThread Publisher).Sound :=
          ⟨(inv.sound n).counted, fun h => (h rfl).elim⟩
        exact sound_update inv.sound hsound m
      · rw [unsubscribed_subscribers]
        exact inv.nodup q
      · rw [unsubscribed_inFlight]
        rfl
  | @publish n p hwaits ht =>
      subst ht
      refine ⟨sound_update inv.sound ⟨?_, fun h => absurd hwaits h⟩, inv.nodup,
        counted_update inv.counted rfl fun q => ?_⟩
      · show (s.threads n).depth + 1 = (s.threads n).stack.length + 1
        rw [(inv.sound n).counted]
      · show Function.update s.inFlight p (s.inFlight p + 1) q + (s.threads n).openOn q =
          s.inFlight q + List.countP (·.publisher = q)
            (⟨p, s.subscribers p, false⟩ :: (s.threads n).stack)
        rw [List.countP_cons]
        simp only [decide_eq_true_eq]
        by_cases hq : q = p
        · subst hq
          rw [Function.update_self, if_pos rfl, EventThread.openOn]
          omega
        · rw [Function.update_of_ne hq, if_neg (Ne.symm hq), EventThread.openOn]
          rfl
  | call hstack ht =>
      subst ht
      exact inv.goes_on hstack
  | returned hstack ht =>
      subst ht
      exact inv.goes_on hstack
  | @finish n p stack hstack ht =>
      subst ht
      refine ⟨sound_update inv.sound ⟨?_, fun hwaits => ?_⟩, inv.nodup,
        counted_update inv.counted rfl fun q => ?_⟩
      · have hdepth := (inv.sound n).counted
        rw [hstack] at hdepth
        show (s.threads n).depth - 1 = stack.length
        rw [hdepth]
        rfl
      · rw [(inv.sound n).outside hwaits] at hstack
        cases hstack
      · -- The publication that ends is one of those that were counted.
        have hopen := EventThread.openOn_cons hstack q
        have hle : (s.threads n).openOn q ≤ s.inFlight q := by
          rw [inv.counted q]
          exact Finset.single_le_sum (f := fun m => (s.threads m).openOn q)
            (fun m _ => Nat.zero_le _) (Finset.mem_univ n)
        show Function.update s.inFlight p (s.inFlight p - 1) q + (s.threads n).openOn q =
          s.inFlight q + stack.countP (·.publisher = q)
        by_cases hq : q = p
        · subst hq
          rw [if_pos rfl] at hopen
          rw [Function.update_self]
          omega
        · rw [if_neg (Ne.symm hq)] at hopen
          rw [Function.update_of_ne hq]
          omega

/-! ## Runs without a skipped wait -/

omit [DecidableEq Thread] [Fintype Thread] in
/-- Marking a pair as gone is right when no publication of the publisher is open. -/
theorem Released.unsubscribed {s : Hub Publisher Thread} (inv : s.Released) {n : Thread}
    {p : Publisher} {sub : Subscriber}
    (hclear : (s.threads n).inside p = true ∨
      ∀ m, ∀ pub ∈ (s.threads m).stack, pub.publisher ≠ p) :
    (s.unsubscribed n p sub).Released := by
  unfold Hub.unsubscribed
  split
  · exact inv
  · next hnot =>
      rw [not_or] at hnot
      have hopen := hclear.resolve_left hnot.1
      intro q other hgone
      by_cases hsame : q = p ∧ other = sub
      · obtain ⟨rfl, rfl⟩ := hsame
        exact ⟨hnot.2, fun m pub hpub hp => absurd hp (hopen m pub hpub)⟩
      · refine inv q other ?_
        by_cases hq : q = p
        · subst hq
          have hother : other ≠ sub := fun h => hsame ⟨rfl, h⟩
          simpa [Function.update_of_ne hother] using hgone
        · simpa [Function.update_of_ne hq] using hgone

omit [DecidableEq Publisher] [DecidableEq Thread] [Fintype Thread] in
/-- Fewer subscribers, and threads with no more to call, leave nobody behind. -/
theorem Released.of_le {s t : Hub Publisher Thread} (inv : s.Released)
    (hgone : t.gone = s.gone) (hsubs : ∀ p, t.subscribers p ⊆ s.subscribers p)
    (hstack : ∀ n, ∀ pub ∈ (t.threads n).stack,
      pub.rest ⊆ s.subscribers pub.publisher ∨
        ∃ old ∈ (s.threads n).stack, old.publisher = pub.publisher ∧ pub.rest ⊆ old.rest) :
    t.Released := by
  intro p sub hsub
  rw [hgone] at hsub
  obtain ⟨hlist, hsnapshots⟩ := inv p sub hsub
  refine ⟨fun h => hlist (hsubs p h), fun n pub hpub hp hrest => ?_⟩
  rcases hstack n pub hpub with hfresh | ⟨old, hold, hsame, hless⟩
  · exact hlist (hp ▸ hfresh hrest)
  · exact hsnapshots n old hold (hsame.trans hp) (hless hrest)

omit [DecidableEq Publisher] [Fintype Thread] in
/-- What the thread has left to call comes out of what it had. -/
theorem Released.update {s t : Hub Publisher Thread} (inv : s.Released)
    (hgone : t.gone = s.gone) (hsubs : ∀ p, t.subscribers p ⊆ s.subscribers p) {n : Thread}
    {thread : EventThread Publisher} (hthreads : t.threads = Function.update s.threads n thread)
    (hstack : ∀ pub ∈ thread.stack, pub.rest ⊆ s.subscribers pub.publisher ∨
      ∃ old ∈ (s.threads n).stack, old.publisher = pub.publisher ∧ pub.rest ⊆ old.rest) :
    t.Released := by
  refine inv.of_le hgone hsubs fun m pub hpub => ?_
  rw [hthreads] at hpub
  by_cases hm : m = n
  · subst hm
    rw [Function.update_self] at hpub
    exact hstack pub hpub
  · rw [Function.update_of_ne hm] at hpub
    exact .inr ⟨pub, hpub, rfl, List.Subset.refl _⟩

omit [DecidableEq Thread] [Fintype Thread] in
theorem erase_subset (s : Hub Publisher Thread) (p : Publisher) (sub : Subscriber)
    (q : Publisher) :
    Function.update s.subscribers p ((s.subscribers p).erase sub) q ⊆ s.subscribers q := by
  by_cases hq : q = p
  · subst hq
    rw [Function.update_self]
    exact List.erase_subset
  · rw [Function.update_of_ne hq]
    exact List.Subset.refl _

theorem Released.step {s t : Hub Publisher Thread} {e : Event Publisher Thread}
    (hcautious : s.Cautious e) (hact : s.act e = some t) (orderly : s.Orderly)
    (inv : s.Released) : t.Released := by
  cases moves hact with
  | refused ht =>
      subst ht
      exact inv
  | @subscribed n p sub hnew hsubs hflight hthreads hgone =>
      intro q other hother
      rw [hgone] at hother
      rw [hsubs, hthreads]
      by_cases hq : q = p
      · subst hq
        rw [Function.update_self] at hother
        have hne : other ≠ sub := by
          rintro rfl
          rw [Function.update_self] at hother
          cases hother
        rw [Function.update_of_ne hne] at hother
        obtain ⟨hlist, hsnapshots⟩ := inv q other hother
        rw [Function.update_self]
        refine ⟨fun hmem => ?_, hsnapshots⟩
        rcases List.mem_append.mp hmem with h | h
        · exact hlist h
        · exact hne (List.mem_singleton.mp h)
      · rw [Function.update_of_ne hq] at hother ⊢
        exact inv q other hother
  | @waits n p sub hdepth ht =>
      subst ht
      refine inv.update rfl (erase_subset s p sub) rfl fun pub hpub => ?_
      exact .inr ⟨pub, hpub, rfl, List.Subset.refl _⟩
  | @unsubscribed n p sub hgo ht =>
      subst ht
      have hless : ({ s with
          subscribers := Function.update s.subscribers p ((s.subscribers p).erase sub) } :
            Hub Publisher Thread).Released :=
        inv.of_le rfl (erase_subset s p sub)
          fun m pub hpub => .inr ⟨pub, hpub, rfl, List.Subset.refl _⟩
      refine hless.unsubscribed ?_
      rcases hcautious with hdepth | hinside | hzero
      · exact .inr (openOn_eq_zero ((orderly.counted p).symm.trans
          (hgo.resolve_left fun h => h hdepth)))
      · exact .inl hinside
      · exact .inr (openOn_eq_zero ((orderly.counted p).symm.trans hzero))
  | @drained n p sub hwaits hzero ht =>
      subst ht
      have hback : (s.setThread n { s.threads n with waits := none }).Released :=
        inv.update rfl (fun q => List.Subset.refl _) rfl
          fun pub hpub => .inr ⟨pub, hpub, rfl, List.Subset.refl _⟩
      refine hback.unsubscribed (.inr fun m => ?_)
      have hclear := openOn_eq_zero ((orderly.counted p).symm.trans hzero)
      rw [setThread_threads]
      by_cases hm : m = n
      · subst hm
        rw [Function.update_self]
        exact hclear m
      · rw [Function.update_of_ne hm]
        exact hclear m
  | @publish n p hwaits ht =>
      subst ht
      refine inv.update rfl (fun q => List.Subset.refl _) rfl fun pub hpub => ?_
      rcases List.mem_cons.mp hpub with rfl | hold
      · exact .inl (List.Subset.refl _)
      · exact .inr ⟨pub, hold, rfl, List.Subset.refl _⟩
  | @call n p sub rest stack hstack ht =>
      subst ht
      refine inv.update rfl (fun q => List.Subset.refl _) rfl fun pub hpub => .inr ?_
      rcases List.mem_cons.mp hpub with rfl | hold
      · refine ⟨⟨p, sub :: rest, false⟩, ?_, rfl, List.subset_cons_self _ _⟩
        rw [hstack]
        exact List.mem_cons_self
      · refine ⟨pub, ?_, rfl, List.Subset.refl _⟩
        rw [hstack]
        exact List.mem_cons_of_mem _ hold
  | @returned n p rest stack hstack ht =>
      subst ht
      refine inv.update rfl (fun q => List.Subset.refl _) rfl fun pub hpub => .inr ?_
      rcases List.mem_cons.mp hpub with rfl | hold
      · refine ⟨⟨p, rest, true⟩, ?_, rfl, List.Subset.refl _⟩
        rw [hstack]
        exact List.mem_cons_self
      · refine ⟨pub, ?_, rfl, List.Subset.refl _⟩
        rw [hstack]
        exact List.mem_cons_of_mem _ hold
  | @finish n p stack hstack ht =>
      subst ht
      refine inv.update rfl (fun q => List.Subset.refl _) rfl fun pub hpub => .inr ?_
      refine ⟨pub, ?_, rfl, List.Subset.refl _⟩
      rw [hstack]
      exact List.mem_cons_of_mem _ hpub

/-- In every run the lists have no pair twice and `in_flight` counts the open
publications; and as long as no wait is skipped for the sake of another publisher, a
subscriber that is gone is never called again. -/
theorem unsubscribe_releases :
    (∀ s : Hub Publisher Thread, GuardedReach act (fun _ _ => True) quiet s →
      ∀ p, (s.subscribers p).Nodup ∧ s.inFlight p = s.openOn p) ∧
    ∀ s : Hub Publisher Thread, GuardedReach act Cautious quiet s →
      ∀ p sub, s.gone p sub = true →
        sub ∉ s.subscribers p ∧
          ∀ n, ∀ pub ∈ (s.threads n).stack, pub.publisher = p → sub ∉ pub.rest := by
  constructor
  · intro s reach p
    have inv : s.Orderly := reach.invariant Orderly (fun _ => Orderly.step) Orderly.quiet
    exact ⟨inv.nodup p, inv.counted p⟩
  · intro s reach
    have inv : s.Orderly ∧ s.Released := by
      refine reach.invariant (fun s => s.Orderly ∧ s.Released) ?_ ⟨Orderly.quiet, ?_⟩
      · intro s t e hcautious hact h
        exact ⟨h.1.step hact, h.2.step hcautious hact h.1⟩
      · intro p sub hgone
        cases hgone
    exact inv.2

end counting

/-- Thread 1 takes the subscriber away while thread 0 is publishing, and waits until
thread 0 is done. -/
def waitingHistory : List (Event Bool (Fin 2)) :=
  [.subscribe 0 false ⟨1, 0⟩, .publish 0 false, .unsubscribe 1 false ⟨1, 0⟩, .call 0,
    .returned 0, .finish 0, .drained 1]

theorem unsubscribe_releases_waiting :
    ∃ s : Hub Bool (Fin 2), GuardedReach act Cautious quiet s ∧ s.gone false ⟨1, 0⟩ = true ∧
      ⟨1, 0⟩ ∉ s.subscribers false ∧ ∀ n, ∀ pub ∈ (s.threads n).stack,
        pub.publisher = false → ⟨1, 0⟩ ∉ pub.rest := by
  have hany : (replay act waitingHistory quiet).any (·.gone false ⟨1, 0⟩) = true := by
    decide +kernel
  obtain ⟨s, hreplay, hgone⟩ := (Option.any_eq_true _ _).mp hany
  have reach : GuardedReach act Cautious quiet s := .of_replay (by decide +kernel) hreplay
  exact ⟨s, reach, hgone, unsubscribe_releases.2 s reach false ⟨1, 0⟩ hgone⟩

/-- Two publishers, and a thread on each: the callback that runs on the second one
takes a subscriber of the first one away and returns, with a call of it still to come. -/
def skippedWait : List (Event Bool (Fin 2)) :=
  [.subscribe 0 false ⟨1, 0⟩, .subscribe 1 true ⟨2, 0⟩, .publish 0 false, .publish 1 true,
    .call 1, .unsubscribe 1 false ⟨1, 0⟩]

theorem unsubscribe_skips_wait :
    ∃ s : Hub Bool (Fin 2), GuardedReach act (fun _ _ => True) quiet s ∧
      s.gone false ⟨1, 0⟩ = true ∧ (s.threads 1).inside false = false ∧
      ⟨false, [⟨1, 0⟩], false⟩ ∈ (s.threads 0).stack := by
  have hany : (replay act skippedWait quiet).any (fun s =>
      s.gone false ⟨1, 0⟩ && !(s.threads 1).inside false &&
        decide (⟨false, [⟨1, 0⟩], false⟩ ∈ (s.threads 0).stack)) = true := by
    decide +kernel
  obtain ⟨s, hreplay, hend⟩ := (Option.any_eq_true _ _).mp hany
  simp only [Bool.and_eq_true, Bool.not_eq_true', decide_eq_true_eq] at hend
  obtain ⟨⟨hgone, houtside⟩, hopen⟩ := hend
  exact ⟨s, .of_replay (.of_free (fun _ _ => trivial) _ _) hreplay, hgone, houtside, hopen⟩

end Hub

end FileMover.Events
