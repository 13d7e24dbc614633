import FileMover.Model.Pool
import Mathlib.Tactic.ByContra

/-!
# Slots and descriptors are conserved

The acceptor takes a slot when it queues a connection, and a handler gives it back
after it has closed the connection. In between, the slot is one queued descriptor or
one busy handler, so the sum of the three never changes; and that sum is why a queued
connection finds a handler that is waiting. The descriptors move along the same way:
from the hand of the acceptor through the queue to a handler, and out by one `close`.
-/

namespace FileMover.Server

open Framework

/-- Between taking a descriptor and giving back the slot. -/
def Handler.busy : Handler → Bool
  | .serving _ => true
  | .closed => true
  | _ => false

namespace Pool

def busy (s : Pool) : Nat := s.handlers.countP Handler.busy

/-- How many handlers hold this descriptor. -/
def held (s : Pool) (d : Descriptor) : Nat := s.handlers.count (.serving d)

/-- One if the acceptor has this descriptor in its hand. -/
def inHand (s : Pool) (d : Descriptor) : Nat :=
  match s.acceptor with
  | .deciding conn => if conn = d then 1 else 0
  | .refusing conn => if conn = d then 1 else 0
  | _ => 0

def undecided (s : Pool) : Nat :=
  match s.acceptor with
  | .deciding _ => 1
  | _ => 0

/-- How many descriptors the acceptor has decided on since the last `start`. -/
def decided (s : Pool) : Nat := s.accepted - s.earlier - s.undecided

/-- What every critical section preserves. -/
structure Balanced (s : Pool) : Prop where
  slots : s.idle + s.queued.length + s.busy = s.configured
  threads : s.listening = true → s.handlers.length = s.configured ∧ 0 < s.configured
  silent : s.listening = false → s.handlers = [] ∧ s.queued = [] ∧ s.acceptor = .absent
  drained : .returned ∈ s.handlers → s.stopping = true ∧ s.queued = []
  placed : ∀ d, s.inHand d + s.queued.count d + s.held d + s.closes.count d =
    if d < s.accepted then 1 else 0
  counted : s.served + s.rejected + s.undecided + s.earlier = s.accepted

theorem Balanced.fresh : ({} : Pool).Balanced where
  slots := rfl
  threads := fun h => by cases h
  silent := fun _ => ⟨rfl, rfl, rfl⟩
  drained := fun h => by cases h
  placed := fun _ => rfl
  counted := rfl

/-! ## One handler moves -/

theorem countP_set {p : Handler → Bool} {handlers : List Handler} {h : Nat}
    {old new : Handler} (hold : handlers[h]? = some old) :
    (handlers.set h new).countP p + (if p old then 1 else 0) =
      handlers.countP p + if p new then 1 else 0 := by
  induction handlers generalizing h with
  | nil => cases hold
  | cons first rest ih =>
      cases h with
      | zero =>
          cases hold
          simp only [List.set_cons_zero, List.countP_cons]
          omega
      | succ h =>
          have hrest := ih (h := h) hold
          simp only [List.set_cons_succ, List.countP_cons]
          omega

theorem setHandler_busy {s : Pool} {h : Nat} {old : Handler} (hold : s.handlers[h]? = some old)
    (new : Handler) :
    (s.setHandler h new).busy + (if old.busy then 1 else 0) =
      s.busy + if new.busy then 1 else 0 :=
  countP_set hold

theorem setHandler_held {s : Pool} {h : Nat} {old : Handler} (hold : s.handlers[h]? = some old)
    (new : Handler) (d : Descriptor) :
    (s.setHandler h new).held d + (if old == .serving d then 1 else 0) =
      s.held d + if new == .serving d then 1 else 0 :=
  countP_set hold

/-- The pool is listening as long as it has a handler. -/
theorem Balanced.listening {s : Pool} (inv : s.Balanced) {h : Nat} {old : Handler}
    (hold : s.handlers[h]? = some old) : s.listening = true := by
  by_contra hsilent
  rw [(inv.silent (Bool.eq_false_iff.mpr hsilent)).1] at hold
  cases hold

/-- What is the same for every move of a handler: the other threads. -/
theorem Balanced.move {s t : Pool} (inv : s.Balanced) {h : Nat} {old new : Handler}
    (hold : s.handlers[h]? = some old)
    (ht : t = { s.setHandler h new with
      queued := t.queued, idle := t.idle, closes := t.closes })
    (hslots : t.idle + t.queued.length + (if new.busy then 1 else 0) =
      s.idle + s.queued.length + if old.busy then 1 else 0)
    (hdrained : new = .returned ∧ s.stopping = true ∧ t.queued = [] ∨
      new ≠ .returned ∧ (s.queued = [] → t.queued = []))
    (hplaced : ∀ d, t.queued.count d + (if new == .serving d then 1 else 0) +
        t.closes.count d =
      s.queued.count d + (if old == .serving d then 1 else 0) + s.closes.count d) :
    t.Balanced where
  slots := by
    have hbusy := setHandler_busy hold new
    have hsame : t.busy = (s.setHandler h new).busy := by rw [ht]; rfl
    have hconfigured : t.configured = s.configured := by rw [ht]; rfl
    have hsum := inv.slots
    omega
  threads := fun _ => by
    have hthreads := inv.threads (inv.listening hold)
    rw [ht]
    simpa [setHandler] using hthreads
  silent := fun hsilent => by
    have hlistening := inv.listening hold
    rw [ht] at hsilent
    exact absurd hlistening (by rw [show s.listening = false from hsilent]; decide)
  drained := fun hreturned => by
    have hstopping : t.stopping = s.stopping := by rw [ht]; rfl
    rw [hstopping]
    rcases hdrained with ⟨_, hstop, hempty⟩ | ⟨hnew, hkeeps⟩
    · exact ⟨hstop, hempty⟩
    · rw [ht] at hreturned
      rcases List.mem_or_eq_of_mem_set hreturned with hbefore | heq
      · obtain ⟨hstop, hempty⟩ := inv.drained hbefore
        exact ⟨hstop, hkeeps hempty⟩
      · exact absurd heq.symm hnew
  placed := fun d => by
    have hheld := setHandler_held hold new d
    have hsame : t.held d = (s.setHandler h new).held d := by rw [ht]; rfl
    have hhand : t.inHand d = s.inHand d := by rw [ht]; rfl
    have haccepted : t.accepted = s.accepted := by rw [ht]; rfl
    have hone := inv.placed d
    have hmoved := hplaced d
    rw [haccepted, ← hone]
    omega
  counted := by
    have hcounted := inv.counted
    rw [ht]
    exact hcounted

/-! ## The acceptor moves -/

/-- What is the same for every move of the acceptor: the handlers. -/
theorem Balanced.accepts {s t : Pool} (inv : s.Balanced) (hpresent : s.acceptor ≠ .absent)
    (hlistening : t.listening = s.listening) (hhandlers : t.handlers = s.handlers)
    (hstopping : t.stopping = s.stopping) (hconfigured : t.configured = s.configured)
    (hslots : t.idle + t.queued.length = s.idle + s.queued.length)
    (hqueued : s.stopping = true → s.queued = [] → t.queued = [])
    (hplaced : ∀ d, t.inHand d + t.queued.count d + t.closes.count d +
        (if d < s.accepted then 1 else 0) =
      s.inHand d + s.queued.count d + s.closes.count d + if d < t.accepted then 1 else 0)
    (hcounted : t.served + t.rejected + t.undecided + t.earlier = t.accepted) :
    t.Balanced where
  slots := by
    have hsum := inv.slots
    have hbusy : t.busy = s.busy := by rw [busy, hhandlers]; rfl
    omega
  threads := fun h => by
    rw [hlistening] at h
    rw [hhandlers, hconfigured]
    exact inv.threads h
  silent := fun h => by
    rw [hlistening] at h
    exact absurd (inv.silent h).2.2 hpresent
  drained := fun h => by
    rw [hhandlers] at h
    obtain ⟨hstop, hempty⟩ := inv.drained h
    exact ⟨hstopping.trans hstop, hqueued hstop hempty⟩
  placed := fun d => by
    have hone := inv.placed d
    have hmoved := hplaced d
    have hheld : t.held d = s.held d := by rw [held, hhandlers]; rfl
    omega
  counted := hcounted

theorem Balanced.accept {s : Pool} (inv : s.Balanced) (hpolling : s.acceptor = .polling) :
    ({ s with acceptor := .deciding s.accepted, accepted := s.accepted + 1 } :
      Pool).Balanced := by
  have hpresent : s.acceptor ≠ .absent := by
    rw [hpolling]
    decide
  refine inv.accepts hpresent rfl rfl rfl rfl rfl (fun _ h => h) (fun d => ?_) ?_
  · have hhand : s.inHand d = 0 := by rw [inHand, hpolling]
    rw [hhand]
    simp only [inHand]
    -- The descriptor is the first that was not there before.
    rcases Nat.lt_trichotomy d s.accepted with hlt | rfl | hgt
    · rw [if_neg (Nat.ne_of_gt hlt), if_pos hlt, if_pos (Nat.lt_succ_of_lt hlt)]
    · rw [if_pos rfl, if_neg (Nat.lt_irrefl _), if_pos (Nat.lt_succ_self _)]
      omega
    · rw [if_neg (Nat.ne_of_lt hgt), if_neg (Nat.not_lt_of_gt hgt),
        if_neg (Nat.not_lt_of_ge hgt)]
  · have hcounted := inv.counted
    have hundecided : s.undecided = 0 := by rw [undecided, hpolling]
    show s.served + s.rejected + 1 + s.earlier = s.accepted + 1
    omega

theorem Balanced.decides {s t : Pool} (inv : s.Balanced) {conn : Descriptor}
    (hdeciding : s.acceptor = .deciding conn)
    (hact : (if s.stopping = false ∧ 0 < s.idle then
        some { s with
          idle := s.idle - 1
          queued := s.queued ++ [conn]
          served := s.served + 1
          acceptor := .polling }
      else some { s with rejected := s.rejected + 1, acceptor := .refusing conn }) = some t) :
    t.Balanced := by
  have hpresent : s.acceptor ≠ .absent := by
    rw [hdeciding]
    exact Acceptor.noConfusion
  have hhand : ∀ d, s.inHand d = if conn = d then 1 else 0 := fun d => by
    rw [inHand, hdeciding]
  have hundecided : s.undecided = 1 := by rw [undecided, hdeciding]
  have hcounted := inv.counted
  split at hact
  · next hfree =>
      cases hact
      refine inv.accepts hpresent rfl rfl rfl rfl ?_ ?_ (fun d => ?_) ?_
      · show s.idle - 1 + (s.queued ++ [conn]).length = s.idle + s.queued.length
        rw [List.length_append, List.length_singleton]
        omega
      · intro hstop
        rw [hfree.1] at hstop
        cases hstop
      · show 0 + (s.queued ++ [conn]).count d + s.closes.count d + _ = _
        rw [hhand d, List.count_append, List.count_singleton]
        simp only [beq_iff_eq]
        omega
      · show s.served + 1 + s.rejected + 0 + s.earlier = s.accepted
        omega
  · cases hact
    refine inv.accepts hpresent rfl rfl rfl rfl rfl (fun _ h => h) (fun d => ?_) ?_
    · rw [hhand d]
      rfl
    · show s.served + (s.rejected + 1) + 0 + s.earlier = s.accepted
      omega

theorem Balanced.refuse {s : Pool} (inv : s.Balanced) {conn : Descriptor}
    (hrefusing : s.acceptor = .refusing conn) :
    ({ s with closes := conn :: s.closes, acceptor := .polling } : Pool).Balanced := by
  have hpresent : s.acceptor ≠ .absent := by
    rw [hrefusing]
    exact Acceptor.noConfusion
  have hundecided : s.undecided = 0 := by rw [undecided, hrefusing]
  refine inv.accepts hpresent rfl rfl rfl rfl rfl (fun _ h => h) (fun d => ?_) ?_
  · have hhand : s.inHand d = if conn = d then 1 else 0 := by rw [inHand, hrefusing]
    show 0 + s.queued.count d + (conn :: s.closes).count d + _ = _
    rw [hhand, List.count_cons]
    simp only [beq_iff_eq]
    omega
  · have hcounted := inv.counted
    show s.served + s.rejected + 0 + s.earlier = s.accepted
    omega

theorem Balanced.quit {s : Pool} (inv : s.Balanced) (hpolling : s.acceptor = .polling) :
    ({ s with acceptor := .returned } : Pool).Balanced := by
  have hpresent : s.acceptor ≠ .absent := by
    rw [hpolling]
    exact Acceptor.noConfusion
  have hundecided : s.undecided = 0 := by rw [undecided, hpolling]
  refine inv.accepts hpresent rfl rfl rfl rfl rfl (fun _ h => h) (fun d => ?_) ?_
  · have hhand : s.inHand d = 0 := by rw [inHand, hpolling]
    rw [hhand]
    rfl
  · have hcounted := inv.counted
    show s.served + s.rejected + 0 + s.earlier = s.accepted
    omega

/-! ## Starting and stopping -/

theorem Balanced.start {s : Pool} (inv : s.Balanced) {handlers : Nat} (hsome : handlers ≠ 0)
    (hsilent : s.listening = false) :
    ({ s with
      listening := true
      configured := handlers
      idle := handlers
      stopping := false
      running := true
      served := 0
      rejected := 0
      handlers := s.handlers ++ List.replicate handlers .waiting
      acceptor := .polling
      earlier := s.accepted } : Pool).Balanced := by
  obtain ⟨hnone, hempty, habsent⟩ := inv.silent hsilent
  have hbusy : (List.replicate handlers Handler.waiting).countP Handler.busy = 0 := by
    rw [List.countP_replicate]
    rfl
  refine ⟨?_, fun _ => ?_, (nomatch ·), fun h => ?_, fun d => ?_, ?_⟩
  · show handlers + s.queued.length + List.countP Handler.busy _ = handlers
    rw [hnone, hempty, List.nil_append, hbusy]
    rfl
  · show (s.handlers ++ List.replicate handlers Handler.waiting).length = handlers ∧ 0 < handlers
    rw [hnone, List.nil_append, List.length_replicate]
    exact ⟨rfl, Nat.pos_of_ne_zero hsome⟩
  · rw [hnone, List.nil_append] at h
    cases List.eq_of_mem_replicate h
  · have hone := inv.placed d
    have hhand : s.inHand d = 0 := by rw [inHand, habsent]
    have hheld : s.held d = 0 := by rw [held, hnone]; rfl
    show 0 + s.queued.count d +
      List.count (.serving d) (s.handlers ++ List.replicate handlers .waiting) + _ = _
    rw [hnone, List.nil_append, List.count_replicate]
    simp only [beq_iff_eq, reduceCtorEq, if_false]
    omega
  · show 0 + 0 + 0 + s.accepted = s.accepted
    omega

/-- When every thread has returned the queue is empty: the last of the handlers saw it
so, and the acceptor adds nothing after the stop. -/
theorem Balanced.queue_empty {s : Pool} (inv : s.Balanced)
    (hreturned : ∀ handler ∈ s.handlers, handler = .returned) : s.queued = [] := by
  cases hlistening : s.listening with
  | false => exact (inv.silent hlistening).2.1
  | true =>
      obtain ⟨hlength, hpos⟩ := inv.threads hlistening
      obtain ⟨handler, hmem⟩ := List.exists_mem_of_length_pos (hlength ▸ hpos)
      have hlast := hreturned handler hmem
      rw [hlast] at hmem
      exact (inv.drained hmem).2

theorem busy_of_returned {s : Pool} (hreturned : ∀ handler ∈ s.handlers, handler = .returned) :
    s.busy = 0 := by
  refine List.countP_eq_zero.mpr fun handler hmem => ?_
  rw [hreturned handler hmem]
  decide

theorem held_of_returned {s : Pool} (hreturned : ∀ handler ∈ s.handlers, handler = .returned)
    (d : Descriptor) : s.held d = 0 := by
  refine List.count_eq_zero.mpr fun hmem => ?_
  cases hreturned _ hmem

theorem Balanced.finish {s t : Pool} (inv : s.Balanced) (hact : s.act .finish = some t) :
    t.Balanced ∧ ∀ d < t.accepted, t.closes.count d = 1 := by
  simp only [act] at hact
  split at hact
  · next hdone =>
      obtain ⟨_, hacceptor, hreturned⟩ := hdone
      have hempty := inv.queue_empty hreturned
      have hhand : ∀ d, s.inHand d = 0 := fun d => by
        rcases hacceptor with h | h <;> rw [inHand, h]
      have hundecided : s.undecided = 0 := by
        rcases hacceptor with h | h <;> rw [undecided, h]
      cases hact
      refine ⟨⟨?_, (nomatch ·), fun _ => ⟨rfl, rfl, rfl⟩, (nomatch ·),
        fun d => ?_, ?_⟩, fun d hd => ?_⟩
      · have hsum := inv.slots
        rw [busy_of_returned hreturned, hempty] at hsum
        exact hsum
      · have hone := inv.placed d
        rw [hhand d, hempty, held_of_returned hreturned d] at hone
        rw [hempty]
        exact hone
      · have hcounted := inv.counted
        rw [hundecided] at hcounted
        exact hcounted
      · have hone := inv.placed d
        rw [hhand d, hempty, held_of_returned hreturned d, if_pos hd] at hone
        rw [hempty]
        simpa using hone
  · cases hact

theorem Balanced.step {s t : Pool} {e : PoolEvent} (hact : s.act e = some t)
    (inv : s.Balanced) : t.Balanced := by
  cases e with
  | start handlers ready =>
      simp only [act] at hact
      split at hact
      · exact Option.some.inj hact ▸ inv
      · split at hact
        · exact Option.some.inj hact ▸ inv
        · next hsome =>
            split at hact
            · exact Option.some.inj hact ▸ inv
            · next hready =>
                cases hact
                refine inv.start hsome ?_
                by_contra hlistening
                simp [hlistening] at hready
  | stop =>
      simp only [act] at hact
      split at hact
      · cases hact
        exact ⟨inv.slots, inv.threads, inv.silent, fun h => ⟨rfl, (inv.drained h).2⟩,
          inv.placed, inv.counted⟩
      · exact Option.some.inj hact ▸ inv
  | finish => exact (inv.finish hact).1
  | accept =>
      simp only [act] at hact
      split at hact
      · next hpolling =>
          cases hact
          exact inv.accept hpolling
      · cases hact
  | quit =>
      simp only [act] at hact
      split at hact
      · next hpolling =>
          cases hact
          exact inv.quit hpolling
      · cases hact
  | decide =>
      simp only [act] at hact
      split at hact
      · next hdeciding => exact inv.decides hdeciding hact
      · cases hact
  | refuse =>
      simp only [act] at hact
      split at hact
      · next hrefusing =>
          cases hact
          exact inv.refuse hrefusing
      · cases hact
  | take h =>
      simp only [act] at hact
      split at hact
      · next conn rest hwaiting hqueued =>
          cases hact
          refine inv.move hwaiting rfl ?_ (.inr ⟨Handler.noConfusion, fun h => ?_⟩) fun d => ?_
          · rw [hqueued]
            rfl
          · rw [hqueued] at h
            cases h
          · show rest.count d + (if Handler.serving conn == .serving d then 1 else 0) +
              s.closes.count d = s.queued.count d + 0 + s.closes.count d
            rw [hqueued, List.count_cons]
            simp only [beq_iff_eq, Handler.serving.injEq]
            omega
      · cases hact
  | close h =>
      simp only [act] at hact
      split at hact
      · next conn hserving =>
          cases hact
          refine inv.move hserving rfl rfl (.inr ⟨Handler.noConfusion, id⟩) fun d => ?_
          show s.queued.count d + 0 + (conn :: s.closes).count d = s.queued.count d +
            (if Handler.serving conn == .serving d then 1 else 0) + s.closes.count d
          rw [List.count_cons]
          simp only [beq_iff_eq, Handler.serving.injEq]
          omega
      · cases hact
  | giveBack h =>
      simp only [act] at hact
      split at hact
      · next hclosed =>
          cases hact
          refine inv.move hclosed rfl ?_ (.inr ⟨Handler.noConfusion, id⟩) fun d => rfl
          show s.idle + 1 + s.queued.length + 0 = s.idle + s.queued.length + 1
          omega
      · cases hact
  | leave h =>
      simp only [act] at hact
      split at hact
      · next hdone =>
          cases hact
          exact inv.move hdone.1 rfl rfl (.inl ⟨rfl, hdone.2.2, hdone.2.1⟩) (fun d => rfl)
      · cases hact

/-- A queued connection has a handler that waits for work. -/
theorem Balanced.handler_free {s : Pool} (inv : s.Balanced) :
    s.queued.length ≤ s.handlers.count .waiting := by
  cases hlistening : s.listening with
  | false =>
      rw [(inv.silent hlistening).2.1]
      exact Nat.zero_le _
  | true =>
      by_cases hreturned : .returned ∈ s.handlers
      · rw [(inv.drained hreturned).2]
        exact Nat.zero_le _
      · have hsplit : s.handlers.length = s.busy + s.handlers.count .waiting := by
          have hnot : s.handlers.countP (fun handler => decide ¬handler.busy = true) =
              s.handlers.count .waiting := by
            refine List.countP_congr fun handler hmem => ?_
            cases handler with
            | waiting => decide
            | serving conn => simp [Handler.busy]
            | closed => decide
            | returned => exact absurd hmem hreturned
          rw [List.length_eq_countP_add_countP Handler.busy, hnot]
          rfl
        have hsum := inv.slots
        have hlength := (inv.threads hlistening).1
        omega

/-- Slots and descriptors are conserved in every state of every run, and a `shutdown`
that found the server running leaves no descriptor open. -/
theorem pool_conserves {s : Pool} (reach : GuardedReach act (fun _ _ => True) {} s) :
    s.idle + s.queued.length + s.busy = s.configured ∧
    s.queued.length ≤ s.handlers.count .waiting ∧
    (∀ d < s.accepted, s.inHand d + s.queued.count d + s.held d + s.closes.count d = 1) ∧
    s.served + s.rejected = s.decided ∧
    ∀ t, s.act .finish = some t → ∀ d < t.accepted, t.closes.count d = 1 := by
  have inv : s.Balanced := reach.invariant Balanced (fun _ => Balanced.step) Balanced.fresh
  refine ⟨inv.slots, inv.handler_free, fun d hd => ?_, ?_, fun t hact => (inv.finish hact).2⟩
  · rw [inv.placed d, if_pos hd]
  · have hcounted := inv.counted
    unfold decided
    omega

/-- One handler and two connections, of which the second one comes while the first is
being served; the server is stopped and started once more. -/
def twoCycles : List PoolEvent :=
  [.start 1 true, .accept, .decide, .take 0, .accept, .decide, .stop, .refuse, .quit,
    .close 0, .giveBack 0, .leave 0, .finish, .start 1 true, .accept, .decide]

theorem pool_conserves_twoCycles :
    ∃ s : Pool, GuardedReach act (fun _ _ => True) {} s ∧ s.accepted = 3 ∧ s.queued = [2] ∧
      s.idle + s.queued.length + s.busy = s.configured ∧ s.served + s.rejected = s.decided := by
  have hany : (replay act twoCycles {}).any
      (fun s => s.accepted = 3 && s.queued = [2]) = true := by
    decide +kernel
  obtain ⟨s, hreplay, hend⟩ := (Option.any_eq_true _ _).mp hany
  simp only [Bool.and_eq_true, decide_eq_true_eq] at hend
  have reach : GuardedReach act (fun _ _ => True) {} s :=
    .of_replay (.of_free (fun _ _ => trivial) _ _) hreplay
  obtain ⟨hslots, _, _, hcounted, _⟩ := pool_conserves reach
  exact ⟨s, reach, hend.1, hend.2, hslots, hcounted⟩

end Pool

end FileMover.Server
