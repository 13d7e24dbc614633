import FileMover.Framework.Safety
import FileMover.Manager.Registry

/-!
# Workers and their contracts

A worker is a thread with a job and what is left of the program that it runs for it. When
every worker keeps a contract that the steps of all the others respect, what the contract
guarantees holds of every call that a worker makes in a history of the manager.
-/

namespace FileMover

open Framework

/-- Every worker keeps the contract of its job from here on. -/
def Workers (C : Bytes → Contract Call Fault World)
    (post : Bytes → Option Int → World → Prop) (s : System) : Prop :=
  ∀ n id rest, s.threads n = .working id rest → rest.Safe machine (C id) (post id) s.world

section Step
variable {C : Bytes → Contract Call Fault World} {post : Bytes → Option Int → World → Prop}
  {s t : System} {event : ManagerEvent}

theorem workers_started (config : RetryConfig) (strategy : MoveStrategy) (w : World)
    (threads : Nat → Bool) : Workers C post (System.started config strategy w threads) := by
  intro n id rest h
  simp only [System.started] at h
  split at h <;> cases h

/-- The call of a worker, which keeps the guarantee. -/
theorem Workers.called (inv : Workers C post s) {n : Nat} {id : Bytes} {c : Call}
    {next : Reply c → Prog (Option Int)} {fault : Option Fault}
    (working : s.threads n = .working id (.call c next)) (admits : (C id).assume c fault s.world) :
    (C id).guarantee c fault s.world (perform c.op fault s.world).2 :=
  (Program.Safe.step (inv n id _ working) admits).1

/-- Where a worker was before a step: where it is now, one call back, or waiting for a
job to pick up. -/
theorem SystemStep.working (step : SystemStep s event t) {n : Nat} {id : Bytes}
    {rest : Prog (Option Int)} (h : t.threads n = .working id rest) :
    (s.threads n = .working id rest ∧ event.actor ≠ some n) ∨
    (∃ fault c next, event = .call n fault ∧ s.threads n = .working id (.call c next) ∧
      rest = next (perform c.op fault s.world).1 ∧ t.world = (perform c.op fault s.world).2) ∨
    ∃ nowMs request m, event = .pickUp n nowMs ∧ s.manager.pickUp = some (id, request, m) ∧
      rest = workOn m.config id request m.strategy nowMs ∧ t.manager = m := by
  -- a thread that does something else than work does not begin to
  have hother : ∀ {s' : System} {k : Nat} {thread : Thread}, event.actor = some k →
      s'.threads = s.threads → (∀ id rest, thread ≠ .working id rest) →
      (s'.setThread k thread).threads n = .working id rest →
      s.threads n = .working id rest ∧ event.actor ≠ some n := by
    intro s' k thread hactor hthreads hidle h
    by_cases hk : n = k
    · rw [hk, System.threads_setThread_self] at h
      exact absurd h (hidle id rest)
    · rw [System.threads_setThread_of_ne hk, hthreads] at h
      refine ⟨h, fun hn => hk ?_⟩
      rw [hactor] at hn
      exact (Option.some.inj hn).symm
  cases step with
  | quiet actor hquiet =>
      exact Or.inl (hother actor rfl (fun _ rest => hquiet.not_working rest) h)
  | @called k fault c next calling =>
      by_cases hk : n = k
      · subst hk
        rw [System.threads_setThread_self] at h
        generalize hthread : s.threads n = thread at calling
        cases calling with
        | working =>
            cases h
            exact Or.inr (Or.inl ⟨fault, c, _, rfl, rfl, rfl, rfl⟩)
        | _ => cases h
      · rw [System.threads_setThread_of_ne hk] at h
        refine Or.inl ⟨h, fun hn => hk ?_⟩
        exact (Option.some.inj hn).symm
  | pumped => exact Or.inl ⟨h, nofun⟩
  | tuned actor =>
      refine Or.inl ⟨h, ?_⟩
      rw [actor]
      nofun
  | @restarted workers =>
      rcases restarted_thread s workers n with hsame | ⟨_, hwaiting⟩
      · simp only [hsame] at h
        exact Or.inl ⟨h, nofun⟩
      · simp only [hwaiting] at h
        cases h
  | @published k id' request recorded storeMutex hpublishes =>
      refine Or.inl (hother rfl rfl ?_ h)
      cases recorded <;> nofun
  | @pickedUp k nowMs id' request m thread hpick =>
      by_cases hk : n = k
      · subst hk
        rw [System.threads_setThread_self] at h
        cases h
        exact Or.inr (Or.inr ⟨nowMs, request, m, rfl, hpick, rfl, rfl⟩)
      · rw [System.threads_setThread_of_ne hk] at h
        refine Or.inl ⟨h, fun hn => hk ?_⟩
        exact (Option.some.inj hn).symm
  | _ =>
      refine Or.inl (hother rfl rfl ?_ h)
      nofun

/-- A worker keeps its job until it settles it. -/
theorem SystemStep.keepsWorking (step : SystemStep s event t) {n : Nat} {id : Bytes}
    {rest : Prog (Option Int)} (h : s.threads n = .working id rest) :
    (∃ rest', t.threads n = .working id rest') ∨
      ∃ due, rest = .pure due ∧ event = .proceed n ∧ t.manager = s.manager.settle id due ∧
        t.world = s.world := by
  have hother : ∀ {s' : System} {k : Nat} {thread : Thread}, s'.threads = s.threads →
      s.threads k ≠ .working id rest →
      ∃ rest', (s'.setThread k thread).threads n = .working id rest' := by
    intro s' k thread hthreads hk
    refine ⟨rest, ?_⟩
    rw [System.threads_setThread_of_ne, hthreads, h]
    rintro rfl
    exact hk h
  have hfree : ∀ {k}, (s.threads k).isFree = true → s.threads k ≠ .working id rest := by
    intro k free hk
    rw [hk] at free
    cases free
  cases step with
  | quiet actor hquiet =>
      refine Or.inl (hother rfl fun hk => ?_)
      rw [hk] at hquiet
      cases hquiet with
      | locked hlocked => cases hlocked
      | refused free | claimedRetry free => cases free
      | refusedRetry retrying | triesRetry retrying => cases retrying
  | @called k fault c next calling =>
      refine Or.inl ?_
      by_cases hk : n = k
      · subst hk
        rw [h] at calling
        cases calling
        exact ⟨_, System.threads_setThread_self⟩
      · exact ⟨rest, (System.threads_setThread_of_ne hk).trans h⟩
  | paused free _ | resumed free _ | claimedSubmit free _ | claimedCancel free _ =>
      exact Or.inl (hother rfl (hfree free))
  | pumped | tuned => exact Or.inl ⟨rest, h⟩
  | @restarted workers =>
      refine Or.inl ⟨rest, ?_⟩
      simp only [h, Thread.isFree, Bool.and_false, Bool.false_eq_true, if_false]
  | claimedCandidate thread _ =>
      refine Or.inl (hother rfl ?_)
      rw [thread]
      nofun
  | published hpublishes =>
      refine Or.inl (hother rfl fun hk => ?_)
      rw [hk] at hpublishes
      cases hpublishes
  | settledCancel thread =>
      refine Or.inl (hother rfl ?_)
      rw [thread]
      nofun
  | pickedUp thread _ =>
      refine Or.inl (hother rfl ?_)
      rw [thread]
      nofun
  | @settled k id' due thread =>
      by_cases hk : n = k
      · subst hk
        rw [thread] at h
        cases h
        exact Or.inr ⟨due, rfl, rfl, rfl, rfl⟩
      · exact Or.inl ⟨rest, (System.threads_setThread_of_ne hk).trans h⟩

/-- What a step does to the world: nothing, or one call of one thread. -/
theorem SystemStep.world (step : SystemStep s event t) :
    t.world = s.world ∨
      ∃ n fault c rest, event = .call n fault ∧ Calling (s.threads n) c rest ∧
        t.world = (perform c.op fault s.world).2 := by
  cases step with
  | @called n fault c rest calling => exact Or.inr ⟨n, fault, c, rest, rfl, calling, rfl⟩
  | _ => exact Or.inl rfl

/-- The call of a worker. -/
theorem System.world_of_call {n : Nat} {fault : Option Fault} {id : Bytes} {c : Call}
    {next : Reply c → Prog (Option Int)} (h : s.act (.call n fault) = some t)
    (working : s.threads n = .working id (.call c next)) :
    t.world = (perform c.op fault s.world).2 := by
  simp only [System.act, working, Thread.next] at h
  cases h
  rfl

/-- A job that the manager knows stays known. -/
theorem SystemStep.requests (step : SystemStep s event t) {id : Bytes}
    (known : id ∈ s.manager.requests) : id ∈ t.manager.requests := by
  cases step with
  | paused free h =>
      obtain ⟨_, _, rfl⟩ := Manager.pause_eq h
      exact known
  | resumed free h =>
      obtain ⟨_, _, rfl⟩ := Manager.resume_eq h
      exact known
  | @pumped nowMs =>
      change id ∈ (s.manager.pump nowMs).requests
      rw [Manager.requests_pump]
      exact known
  | claimedSubmit free h =>
      obtain ⟨_, _, rfl⟩ := Manager.claimSubmit_eq h
      exact known
  | claimedCancel free h =>
      obtain ⟨_, _, _, rfl⟩ := Manager.claimCancel_eq h
      exact known
  | claimedCandidate thread h =>
      obtain ⟨_, _, rfl⟩ := Manager.claimCandidate_eq h
      exact known
  | published h => exact (Manager.requests_publish _ _).mpr (Or.inl known)
  | settledCancel thread =>
      simp only [Manager.settleCancel]
      split <;> exact known
  | @pickedUp n nowMs id' request m thread h =>
      unfold Manager.pickUp at h
      split at h
      · cases h
      · split at h <;> cases h
        · exact known
        · exact (AList.mem_insert _).mpr (Or.inr known)
  | @settled n id' due thread => cases due <;> exact known
  | _ => exact known

/-- Nobody else takes a job away from its worker. -/
theorem SystemStep.active (step : SystemStep s event t) {id : Bytes}
    (active : id ∈ s.manager.active) :
    id ∈ t.manager.active ∨
      ∃ n due, event = .proceed n ∧ s.threads n = .working id (.pure due) := by
  cases step with
  | paused free h =>
      obtain ⟨_, _, rfl⟩ := Manager.pause_eq h
      exact Or.inl active
  | resumed free h =>
      obtain ⟨_, _, rfl⟩ := Manager.resume_eq h
      exact Or.inl active
  | pumped =>
      refine Or.inl ?_
      simp only [Manager.pump]
      split <;> exact active
  | claimedSubmit free h =>
      obtain ⟨_, _, rfl⟩ := Manager.claimSubmit_eq h
      exact Or.inl active
  | claimedCancel free h =>
      obtain ⟨_, _, _, rfl⟩ := Manager.claimCancel_eq h
      exact Or.inl active
  | claimedCandidate thread h =>
      obtain ⟨_, _, rfl⟩ := Manager.claimCandidate_eq h
      exact Or.inl active
  | published h =>
      refine Or.inl ?_
      change id ∈ (Manager.publish _ _ _ _).active
      unfold Manager.publish
      split <;> exact active
  | settledCancel thread =>
      refine Or.inl ?_
      simp only [Manager.settleCancel]
      split <;> exact active
  | pickedUp thread h =>
      obtain ⟨_, _, _, _, rfl⟩ := Manager.pickUp_eq h
      exact Or.inl (Finset.mem_insert_of_mem active)
  | @settled n id' due thread =>
      by_cases hid : id = id'
      · rw [hid]
        exact Or.inr ⟨n, due, rfl, thread⟩
      · refine Or.inl ?_
        cases due <;> exact Finset.mem_erase.mpr ⟨hid, active⟩
  | _ => exact Or.inl active

/-- The job of a worker is active, and no other worker has it. -/
structure Exclusive (s : System) : Prop where
  active : ∀ n id rest, s.threads n = .working id rest → id ∈ s.manager.active
  alone : ∀ n k id rest rest', s.threads n = .working id rest →
    s.threads k = .working id rest' → n = k

/-- A worker has just picked its job up, when nobody else had it, or has had it before. -/
theorem Exclusive.had (inv : Exclusive s)
    (fresh : ∀ n nowMs, event = .pickUp n nowMs →
      ∀ id ∈ s.manager.runnable.head?, id ∉ s.manager.active)
    (step : SystemStep s event t) {n : Nat} {id : Bytes} {rest : Prog (Option Int)}
    (working : t.threads n = .working id rest) :
    (∃ more, s.threads n = .working id more) ∨
      ∃ nowMs, event = .pickUp n nowMs ∧ ∀ k more, s.threads k ≠ .working id more := by
  rcases step.working working with ⟨hsame, _⟩ | ⟨_, _, _, _, hworking, _⟩ |
    ⟨nowMs, request, m, rfl, hpick, _⟩
  · exact Or.inl ⟨_, hsame⟩
  · exact Or.inl ⟨_, hworking⟩
  · refine Or.inr ⟨nowMs, rfl, fun k more hk => ?_⟩
    obtain ⟨rest, _, hrunnable, _⟩ := Manager.pickUp_eq hpick
    refine fresh n nowMs rfl id ?_ (inv.active k id more hk)
    rw [hrunnable]
    rfl

/-- No two workers have the same job as long as none picks up a job that another has. -/
theorem Exclusive.step (inv : Exclusive s)
    (fresh : ∀ n nowMs, event = .pickUp n nowMs →
      ∀ id ∈ s.manager.runnable.head?, id ∉ s.manager.active)
    (step : SystemStep s event t) : Exclusive t := by
  constructor
  · intro n id rest working
    have hstays : ∀ more, s.threads n = .working id more → event ≠ .proceed n →
        id ∈ t.manager.active := by
      intro more hmore hevent
      refine (step.active (inv.active n id more hmore)).resolve_right ?_
      rintro ⟨k, due, rfl, hk⟩
      exact hevent (congrArg _ (inv.alone k n id _ _ hk hmore))
    rcases step.working working with ⟨hsame, hactor⟩ | ⟨fault, c, next, rfl, hworking, _⟩ |
      ⟨nowMs, request, m, rfl, hpick, _, hmanager⟩
    · refine hstays rest hsame ?_
      rintro rfl
      exact hactor rfl
    · exact hstays _ hworking nofun
    · obtain ⟨_, _, _, _, rfl⟩ := Manager.pickUp_eq hpick
      rw [hmanager]
      exact Finset.mem_insert_self id _
  · intro n k id rest rest' hn hk
    rcases inv.had fresh step hn with ⟨_, hn⟩ | ⟨_, rfl, hnobody⟩
    · rcases inv.had fresh step hk with ⟨_, hk⟩ | ⟨_, _, hnobody⟩
      · exact inv.alone n k id _ _ hn hk
      · exact absurd hn (hnobody n _)
    · rcases inv.had fresh step hk with ⟨_, hk⟩ | ⟨_, hevent, _⟩
      · exact absurd hk (hnobody k _)
      · cases hevent
        rfl

theorem exclusive_started (config : RetryConfig) (strategy : MoveStrategy) (w : World)
    (threads : Nat → Bool) : Exclusive (System.started config strategy w threads) := by
  have hidle : ∀ n id rest,
      (System.started config strategy w threads).threads n ≠ .working id rest := by
    intro n id rest h
    simp only [System.started] at h
    split at h <;> cases h
  exact ⟨fun n id rest h => absurd h (hidle n id rest),
    fun n _ id rest _ h => absurd h (hidle n id rest)⟩

theorem Workers.step (inv : Workers C post s) (step : SystemStep s event t)
    (admits : ∀ n fault id c next, event = .call n fault →
      s.threads n = .working id (.call c next) → (C id).assume c fault s.world)
    (relies : ∀ n fault c rest, Calling (s.threads n) c rest → ∀ k id more, k ≠ n →
      s.threads k = .working id more → (C id).rely s.world (perform c.op fault s.world).2)
    (begins : ∀ n nowMs id request m, event = .pickUp n nowMs →
      s.manager.pickUp = some (id, request, m) →
      (workOn m.config id request m.strategy nowMs).Safe machine (C id) (post id) s.world) :
    Workers C post t := by
  intro n id rest h
  rcases step.working h with ⟨hsame, hactor⟩ | ⟨fault, c, next, rfl, hworking, rfl, hworld⟩ |
    ⟨nowMs, request, m, rfl, hpick, rfl, _⟩
  · rcases step.world with hworld | ⟨k, fault, c, more, rfl, calling, hworld⟩
    · rw [hworld]
      exact inv n id rest hsame
    · rw [hworld]
      refine (inv n id rest hsame).interfere (relies k fault c more calling n id rest ?_ hsame)
      rintro rfl
      exact hactor rfl
  · rw [hworld]
    exact (Program.Safe.step (inv n id _ hworking) (admits n fault id c next rfl hworking)).2
  · have hworld : t.world = s.world := by
      rcases step.world with hworld | ⟨_, _, _, _, hevent, _⟩
      · exact hworld
      · cases hevent
    rw [hworld]
    exact begins n nowMs id request m rfl hpick

end Step

end FileMover
