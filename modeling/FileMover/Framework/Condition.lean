import FileMover.Framework.Guarded
import Mathlib.Data.Finset.Card

/-!
# Condition variables

A system some of whose threads wait with `wait(lock, predicate)` on one condition
variable. A thread that finds the predicate false goes to sleep, and only a notification
or a spurious wake-up brings it back. So the threads that sleep are part of the state, and
every step of the system says whom it notifies: a waiting thread that nobody notifies
sleeps on, whatever the predicate has become.

That no wake-up is lost is what a system has to be shown to see to. `Announces` is the
rule for a predicate all sleepers are told of, `Supplies` the one for a queue of which
every sleeper takes one item; the first keeps everybody awake while the predicate holds,
the second finds an awake thread for every item.
-/

namespace FileMover.Framework

/-- Whom a step notifies. -/
inductive Signal
  | none
  | one
  | all
deriving DecidableEq, Repr

/-- The threads that a notification wakes for certain, if they sleep. -/
def Signal.count (signal : Signal) : Nat := if signal = .one then 1 else 0

/-- A system with a condition variable. -/
structure Monitored (State Label Thread : Type) where
  act : State → Label → Option State
  /-- The thread that a label is a step of. -/
  actor : Label → Option Thread
  /-- At the wait, asleep or not. -/
  atWait : State → Thread → Bool
  /-- The predicate of the wait. -/
  ready : State → Bool
  notifies : State → Label → Signal

/-- The system, and the threads that sleep. -/
structure Sleeping (State Thread : Type) where
  state : State
  asleep : Finset Thread

inductive SleepLabel (Label Thread : Type)
  /-- A step of the system; if it notifies one thread, this one. -/
  | step (label : Label) (woken : Option Thread)
  | sleep (n : Thread)
  /-- A spurious wake-up. -/
  | stir (n : Thread)

namespace Monitored

variable {State Label Thread : Type} [DecidableEq Thread] (M : Monitored State Label Thread)

/-- Who sleeps on after a notification. One that is for one thread wakes any sleeper, and
nobody only if nobody sleeps. -/
def rouse (asleep : Finset Thread) (woken : Option Thread) : Signal → Option (Finset Thread)
  | .none => some asleep
  | .one =>
      match woken with
      | some n => if n ∈ asleep then some (asleep.erase n) else .none
      | none => if asleep = ∅ then some ∅ else .none
  | .all => some ∅

def step (c : Sleeping State Thread) : SleepLabel Label Thread → Option (Sleeping State Thread)
  | .step label woken =>
      if (M.actor label).any (fun n => decide (n ∈ c.asleep)) then none
      else
        (M.act c.state label).bind fun t =>
          (rouse c.asleep woken (M.notifies c.state label)).map fun asleep => ⟨t, asleep⟩
  | .sleep n =>
      if M.atWait c.state n = true ∧ n ∉ c.asleep ∧ M.ready c.state = false then
        some { c with asleep := insert n c.asleep }
      else none
  | .stir n => if n ∈ c.asleep then some { c with asleep := c.asleep.erase n } else none

variable {M} {c c' : Sleeping State Thread} {label : Label} {woken : Option Thread}

/-- A step is made by a thread that is awake. -/
theorem step_eq_some (h : M.step c (.step label woken) = some c') :
    (∀ n, M.actor label = some n → n ∉ c.asleep) ∧ M.act c.state label = some c'.state ∧
      rouse c.asleep woken (M.notifies c.state label) = some c'.asleep := by
  simp only [step] at h
  split at h
  · simp at h
  · rename_i hawake
    obtain ⟨t, ht, hrouse⟩ := Option.bind_eq_some_iff.mp h
    obtain ⟨asleep, hasleep, rfl⟩ := Option.map_eq_some_iff.mp hrouse
    refine ⟨fun n hn hmem => hawake ?_, ht, hasleep⟩
    rw [hn]
    exact decide_eq_true hmem

/-- A thread goes to sleep at the wait, after it has found the predicate false. -/
theorem sleep_eq_some {n : Thread} (h : M.step c (.sleep n) = some c') :
    M.atWait c.state n = true ∧ M.ready c.state = false ∧
      c' = { c with asleep := insert n c.asleep } := by
  simp only [step] at h
  split at h
  · rename_i hsleeps
    exact ⟨hsleeps.1, hsleeps.2.2, (Option.some.inj h).symm⟩
  · simp at h

theorem stir_eq_some {n : Thread} (h : M.step c (.stir n) = some c') :
    c' = { c with asleep := c.asleep.erase n } := by
  simp only [step] at h
  split at h
  · exact (Option.some.inj h).symm
  · simp at h

/-! ## Predicates that are announced -/

variable (M) in
/-- Nobody goes to sleep while `P` holds, and it begins to hold in a step that notifies all
threads. -/
structure Announces (P : State → Prop) : Prop where
  ready : ∀ {s}, P s → M.ready s = true
  told : ∀ {s label t}, M.act s label = some t → ¬ P s → P t → M.notifies s label = .all

theorem rouse_empty {signal : Signal} {asleep : Finset Thread}
    (h : rouse ∅ woken signal = some asleep) : asleep = ∅ := by
  cases signal with
  | none => exact (Option.some.inj h).symm
  | one =>
      simp only [rouse] at h
      split at h
      · simp at h
      · simpa using h.symm
  | all => exact (Option.some.inj h).symm

theorem Announces.step {P : State → Prop} (announces : M.Announces P)
    {label : SleepLabel Label Thread} (h : M.step c label = some c')
    (awake : P c.state → c.asleep = ∅) : P c'.state → c'.asleep = ∅ := by
  intro hP
  cases label with
  | step label woken =>
      obtain ⟨-, hact, hrouse⟩ := step_eq_some h
      by_cases hbefore : P c.state
      · rw [awake hbefore] at hrouse
        exact rouse_empty hrouse
      · rw [announces.told hact hbefore hP] at hrouse
        exact (Option.some.inj hrouse).symm
  | sleep n =>
      obtain ⟨-, hready, rfl⟩ := sleep_eq_some h
      -- a thread goes to sleep only on a predicate that is false
      rw [announces.ready hP] at hready
      exact absurd hready (by simp)
  | stir n =>
      obtain rfl := stir_eq_some h
      show c.asleep.erase n = ∅
      rw [awake hP]
      rfl

/-- While `P` holds nobody sleeps. -/
theorem Announces.nobody_sleeps {P : State → Prop} (announces : M.Announces P)
    {condition : Sleeping State Thread → SleepLabel Label Thread → Prop}
    (init : c.asleep = ∅) (reach : GuardedReach M.step condition c c') :
    P c'.state → c'.asleep = ∅ :=
  reach.invariant (fun c => P c.state → c.asleep = ∅) (fun _ h inv => announces.step h inv)
    fun _ => init

/-! ## Queues -/

/-- The label is a step of a thread at the wait. -/
def leaves (M : Monitored State Label Thread) (s : State) (label : Label) : Nat :=
  if (M.actor label).any (M.atWait s) then 1 else 0

omit [DecidableEq Thread] in
theorem leaves_le_one {s : State} : M.leaves s label ≤ 1 := by
  unfold leaves
  split
  · rfl
  · exact Nat.zero_le 1

omit [DecidableEq Thread] in
/-- A step of a thread that is not at the wait. -/
theorem leaves_eq_zero {s : State}
    (h : ∀ n, M.actor label = some n → M.atWait s n = false) : M.leaves s label = 0 := by
  unfold leaves
  rw [if_neg]
  cases hactor : M.actor label with
  | none => simp
  | some n => simp [h n hactor]

variable (M) in
/-- The threads at the wait take the items of a queue, and every new item is announced to
one of them or to all. -/
structure Supplies (items : State → Nat) : Prop where
  /-- A thread stays at the wait until it goes on itself. -/
  stays : ∀ {s label t n}, M.act s label = some t → M.actor label ≠ some n →
    M.atWait s n = true → M.atWait t n = true
  ready : ∀ {s}, M.ready s = false → items s = 0
  balance : ∀ {s label t}, M.act s label = some t → M.notifies s label ≠ .all →
    items t = 0 ∨ items t + M.leaves s label ≤ items s + Signal.count (M.notifies s label)

variable (M) in
/-- Every item has a thread of its own that is awake and will look for it; or nobody
sleeps. -/
structure Covered (items : State → Nat) (c : Sleeping State Thread) : Prop where
  sleepers : ∀ n ∈ c.asleep, M.atWait c.state n = true
  covered : c.asleep = ∅ ∨ ∃ awake : Finset Thread, items c.state ≤ awake.card ∧
    ∀ n ∈ awake, M.atWait c.state n = true ∧ n ∉ c.asleep

variable {items : State → Nat}

omit [DecidableEq Thread] in
theorem Covered.init (h : c.asleep = ∅) : M.Covered items c := by
  refine ⟨?_, Or.inl h⟩
  rw [h]
  simp

/-- The threads that stay awake at the wait when one thread makes a step. -/
def staying (M : Monitored State Label Thread) (awake : Finset Thread) (label : Label) :
    Finset Thread :=
  awake.filter fun n => M.actor label ≠ some n

theorem card_staying {s : State} {awake : Finset Thread}
    (h : ∀ n ∈ awake, M.atWait s n = true) :
    awake.card ≤ (M.staying awake label).card + M.leaves s label := by
  unfold staying leaves
  cases hactor : M.actor label with
  | none => simp
  | some a =>
      by_cases hmem : a ∈ awake
      · have herase : (awake.filter fun n => some a ≠ some n) = awake.erase a := by
          ext n
          simp only [ne_eq, Option.some.injEq, Finset.mem_filter, Finset.mem_erase]
          constructor
          · rintro ⟨hn, hne⟩
            exact ⟨fun h => hne h.symm, hn⟩
          · rintro ⟨hne, hn⟩
            exact ⟨hn, fun h => hne h.symm⟩
        have hcard := Finset.card_erase_add_one hmem
        rw [herase, Option.any_some, h a hmem, if_pos rfl]
        omega
      · have hall : (awake.filter fun n => some a ≠ some n) = awake := by
          apply Finset.filter_true_of_mem
          rintro n hn heq
          exact hmem (Option.some.inj heq ▸ hn)
        rw [hall]
        omega

theorem Supplies.stayed (supplies : M.Supplies items) {s t : State}
    (hact : M.act s label = some t) {awake : Finset Thread}
    (h : ∀ n ∈ awake, M.atWait s n = true) :
    ∀ n ∈ M.staying awake label, M.atWait t n = true := by
  intro n hn
  obtain ⟨hmem, hactor⟩ := Finset.mem_filter.mp hn
  exact supplies.stays hact hactor (h n hmem)

/-- After a step there are as many threads awake at the wait as items, not counting what a
notification still has to wake. -/
theorem Supplies.enough (supplies : M.Supplies items) {s t : State}
    (hact : M.act s label = some t) (hall : M.notifies s label ≠ .all) {awake : Finset Thread}
    (h : ∀ n ∈ awake, M.atWait s n = true) (hitems : items s ≤ awake.card) :
    items t ≤ (M.staying awake label).card + (M.notifies s label).count := by
  have hcard : awake.card ≤ (M.staying awake label).card + M.leaves s label := card_staying h
  rcases supplies.balance hact hall with hempty | hbalance
  · omega
  · omega

theorem Covered.acted (supplies : M.Supplies items) (inv : M.Covered items c)
    (h : M.step c (.step label woken) = some c') : M.Covered items c' := by
  obtain ⟨hawake, hact, hrouse⟩ := step_eq_some h
  have hsleepers : ∀ n ∈ c.asleep, M.atWait c'.state n = true := by
    intro n hn
    apply supplies.stays hact _ (inv.sleepers n hn)
    exact fun hactor => hawake n hactor hn
  -- a step that notifies everybody, and one that finds nobody asleep, leave nobody asleep
  by_cases hall : M.notifies c.state label = .all
  · rw [hall] at hrouse
    exact .init (Option.some.inj hrouse).symm
  rcases inv.covered with hnone | ⟨awake, hitems, hwaits⟩
  · rw [hnone] at hrouse
    exact .init (rouse_empty hrouse)
  have henough := supplies.enough hact hall (fun n hn => (hwaits n hn).1) hitems
  have hstayed := supplies.stayed hact fun n hn => (hwaits n hn).1
  have hstill : ∀ n ∈ M.staying awake label, n ∉ c.asleep := fun n hn =>
    (hwaits n (Finset.mem_filter.mp hn).1).2
  cases hsignal : M.notifies c.state label with
  | none =>
      rw [hsignal] at hrouse henough
      have hasleep : c.asleep = c'.asleep := Option.some.inj hrouse
      rw [hasleep] at hsleepers hstill
      exact ⟨hsleepers, Or.inr ⟨M.staying awake label, henough, fun n hn =>
        ⟨hstayed n hn, hstill n hn⟩⟩⟩
  | all => exact absurd hsignal hall
  | one =>
      rw [hsignal] at hrouse henough
      simp only [rouse] at hrouse
      split at hrouse
      · rename_i w
        split at hrouse
        · -- the sleeper that is woken stands for the new item
          rename_i hw
          have hasleep : c.asleep.erase w = c'.asleep := Option.some.inj hrouse
          have hnew : w ∉ M.staying awake label := fun hmem => hstill w hmem hw
          refine ⟨fun n hn => ?_, Or.inr ⟨insert w (M.staying awake label), ?_, ?_⟩⟩
          · rw [← hasleep] at hn
            exact hsleepers n (Finset.mem_of_mem_erase hn)
          · rw [Finset.card_insert_of_notMem hnew]
            exact henough
          · intro n hn
            rw [← hasleep]
            rcases Finset.mem_insert.mp hn with rfl | hn
            · exact ⟨hsleepers n hw, Finset.notMem_erase n _⟩
            · exact ⟨hstayed n hn, fun h => hstill n hn (Finset.mem_of_mem_erase h)⟩
        · simp at hrouse
      · split at hrouse
        · exact .init (Option.some.inj hrouse).symm
        · simp at hrouse

theorem Covered.step (supplies : M.Supplies items) (inv : M.Covered items c)
    {label : SleepLabel Label Thread} (h : M.step c label = some c') : M.Covered items c' := by
  cases label with
  | step label woken => exact inv.acted supplies h
  | sleep n =>
      obtain ⟨hwait, hready, rfl⟩ := sleep_eq_some h
      constructor
      · intro k hk
        rcases Finset.mem_insert.mp hk with rfl | hk
        · exact hwait
        · exact inv.sleepers k hk
      · -- who goes to sleep has found the queue empty
        right
        refine ⟨∅, ?_, by simp⟩
        show items c.state ≤ 0
        rw [supplies.ready hready]
  | stir n =>
      obtain rfl := stir_eq_some h
      constructor
      · exact fun k hk => inv.sleepers k (Finset.mem_of_mem_erase hk)
      · rcases inv.covered with hnone | ⟨awake, hitems, hwaits⟩
        · left
          show c.asleep.erase n = ∅
          rw [hnone]
          rfl
        · right
          exact ⟨awake, hitems, fun k hk =>
            ⟨(hwaits k hk).1, fun h => (hwaits k hk).2 (Finset.mem_of_mem_erase h)⟩⟩

/-- At every moment of every history. -/
theorem Supplies.always_covered (supplies : M.Supplies items)
    {condition : Sleeping State Thread → SleepLabel Label Thread → Prop} (init : c.asleep = ∅)
    (reach : GuardedReach M.step condition c c') : M.Covered items c' :=
  reach.invariant (M.Covered items) (fun _ h inv => inv.step supplies h) (.init init)

end Monitored

end FileMover.Framework
