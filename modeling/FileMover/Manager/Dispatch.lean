import FileMover.Framework.Guarded
import FileMover.Model.Manager

/-!
# Where a job is

The dispatch state knows a job in four places: `runnable`, `waiting`, `paused` and
`active`. A job should be in at most one of them, and once, so that no two workers
ever run it.

Every section keeps that, except one: a refused `cancel` puts the job back without
looking where it has gone in the meantime. Proved here: in every history in which
that section finds the job nowhere, a job is in at most one place.
-/

namespace FileMover

open Framework

namespace Manager

/-- In how many places a job is. -/
def places (m : Manager) (id : Bytes) : Nat :=
  m.runnable.count id + (if id ∈ m.waiting then 1 else 0) +
    (if id ∈ m.paused then 1 else 0) + (if id ∈ m.active then 1 else 0)

/-- The job is somewhere. -/
def Owns (m : Manager) (id : Bytes) : Prop := m.places id ≠ 0

instance (m : Manager) (id : Bytes) : Decidable (m.Owns id) :=
  inferInstanceAs (Decidable (m.places id ≠ 0))

end Manager

/-- The job that this event puts back. -/
def System.putsBack (s : System) : ManagerEvent → Option Bytes
  | .proceed n =>
      match s.threads n with
      | .cancelActs id true (.pure (outcome, _)) => if outcome = .ok then none else some id
      | _ => none
  | _ => none

/-- A refused `cancel` puts a job back only if it is nowhere. -/
def PutsBackLost (s : System) (event : ManagerEvent) : Prop :=
  ∀ id ∈ s.putsBack event, ¬ s.manager.Owns id

instance (s : System) (event : ManagerEvent) : Decidable (PutsBackLost s event) :=
  inferInstanceAs (Decidable (∀ id ∈ s.putsBack event, ¬ s.manager.Owns id))

/-! ## What the sections do to the places -/

namespace Manager

variable {m m' : Manager} {id : Bytes} {request : MoveRequest}

theorem count_snoc (l : List Bytes) (other : Bytes) :
    (l ++ [id]).count other = l.count other + if other = id then 1 else 0 := by
  by_cases h : other = id
  · simp [h]
  · simp [h, Ne.symm h]

theorem places_publish (recorded : Bool) (other : Bytes) :
    (m.publish id request recorded).places other =
      m.places other + if recorded = true ∧ other = id then 1 else 0 := by
  cases recorded with
  | false => simp [publish, places]
  | true =>
      simp only [publish, places, count_snoc, if_true, true_and]
      omega

theorem count_erase_of_once (once : m.runnable.count id ≤ 1) (other : Bytes) :
    (m.runnable.erase id).count other = if other = id then 0 else m.runnable.count other := by
  by_cases h : other = id
  · rw [h, List.count_erase_self, if_pos rfl]
    omega
  · rw [List.count_erase_of_ne h, if_neg h]

theorem places_pause (h : m.pause id = .ok m') (once : m.places id ≤ 1) (other : Bytes) :
    m'.places other = if other = id then 1 else m.places other := by
  obtain ⟨_, hactive, rfl⟩ := pause_eq h
  have hcount : m.runnable.count id ≤ 1 := by
    unfold places at once
    omega
  simp only [places, count_erase_of_once hcount, AList.mem_erase, Finset.mem_insert]
  by_cases heq : other = id
  · simp [heq, hactive]
  · simp [heq]

theorem places_resume (h : m.resume id = .ok m') (other : Bytes) :
    m'.places other = m.places other := by
  obtain ⟨_, hpaused, rfl⟩ := resume_eq h
  simp only [places, count_snoc, Finset.mem_erase]
  by_cases heq : other = id
  · simp [heq, hpaused]
    omega
  · simp [heq]

theorem places_claimCancel {wasRunnable : Bool} (h : m.claimCancel id = .ok (wasRunnable, m'))
    (once : m.places id ≤ 1) (other : Bytes) :
    m'.places other = if other = id then 0 else m.places other := by
  obtain ⟨_, hactive, _, rfl⟩ := claimCancel_eq h
  have hcount : m.runnable.count id ≤ 1 := by
    unfold places at once
    omega
  simp only [places, count_erase_of_once hcount, AList.mem_erase, Finset.mem_erase]
  by_cases heq : other = id
  · simp [heq, hactive]
  · simp [heq]

theorem places_settleCancel {wasRunnable : Bool} {outcome : CommandResult} (other : Bytes) :
    (m.settleCancel id wasRunnable outcome).places other =
      m.places other + if (outcome ≠ .ok ∧ wasRunnable = true) ∧ other = id then 1 else 0 := by
  unfold settleCancel
  split_ifs with hback hid hid
  · simp only [places, count_snoc, hid.2, if_true]
    omega
  · have hne : other ≠ id := fun h => hid ⟨hback, h⟩
    simp only [places, count_snoc, if_neg hne]
    rfl
  · exact absurd hid.1 hback
  · rfl

theorem places_pickUp (h : m.pickUp = some (id, request, m')) (once : m.places id ≤ 1) :
    id ∉ m.active ∧ ∀ other, m'.places other = m.places other := by
  obtain ⟨rest, requests, hrunnable, _, rfl⟩ := pickUp_eq h
  have hactive : id ∉ m.active := by
    intro hmem
    unfold places at once
    rw [if_pos hmem, hrunnable, List.count_cons_self] at once
    omega
  refine ⟨hactive, fun other => ?_⟩
  simp only [places, hrunnable, Finset.mem_insert]
  by_cases heq : other = id
  · simp [heq, hactive, List.count_cons_self]
    omega
  · simp [heq, Ne.symm heq]

theorem places_settle (active : id ∈ m.active) (once : m.places id ≤ 1) (due : Option Int)
    (other : Bytes) :
    (m.settle id due).places other =
      if other = id then due.toList.length else m.places other := by
  have hrest : m.runnable.count id = 0 ∧ id ∉ m.waiting ∧ id ∉ m.paused := by
    unfold places at once
    rw [if_pos active] at once
    refine ⟨by omega, ?_, ?_⟩
    · intro hw
      rw [if_pos hw] at once
      omega
    · intro hp
      rw [if_pos hp] at once
      omega
  obtain ⟨hcount, hwaiting, hpaused⟩ := hrest
  cases due with
  | none =>
      simp only [settle, places, Finset.mem_erase]
      by_cases heq : other = id
      · simp [heq, hcount, hwaiting, hpaused]
      · simp [heq]
        rfl
  | some dueMs =>
      simp only [settle, places, Finset.mem_erase, AList.mem_insert]
      by_cases heq : other = id
      · simp [heq, hcount, hpaused]
      · simp [heq]
        rfl

theorem mem_foldl_erase {other : Bytes} (ids : List Bytes)
    (waiting : AList fun _ : Bytes => Int) :
    other ∈ ids.foldl (fun waiting id => waiting.erase id) waiting ↔
      other ∉ ids ∧ other ∈ waiting := by
  induction ids generalizing waiting with
  | nil => simp
  | cons id ids ih =>
      rw [List.foldl_cons, ih, AList.mem_erase]
      simp only [List.mem_cons, not_or]
      tauto

theorem due_perm (nowMs : Int) :
    (m.due nowMs).Perm (m.waiting.keys.filter fun id =>
      (m.waiting.lookup id).any (· ≤ nowMs) && decide (id ∉ m.paused)) :=
  List.perm_insertionSort _ _

theorem places_pump (nowMs : Int) (other : Bytes) :
    (m.pump nowMs).places other = m.places other := by
  unfold pump
  split
  · rfl
  have hnodup : (m.due nowMs).Nodup :=
    (due_perm nowMs).nodup_iff.mpr (m.waiting.keys_nodup.filter _)
  have hsub : other ∈ m.due nowMs → other ∈ m.waiting := by
    intro hmem
    have hkeys := List.mem_of_mem_filter ((due_perm nowMs).mem_iff.mp hmem)
    exact hkeys
  simp only [places, List.count_append, mem_foldl_erase]
  by_cases hdue : other ∈ m.due nowMs
  · rw [List.count_eq_one_of_mem hnodup hdue]
    simp [hdue, hsub hdue]
  · rw [List.count_eq_zero_of_not_mem hdue]
    simp [hdue]

theorem active_publish (recorded : Bool) :
    (m.publish id request recorded).active = m.active := by
  cases recorded <;> rfl

theorem pending_publish (recorded : Bool) :
    (m.publish id request recorded).pending = m.pending.erase id := by
  cases recorded <;> rfl

/-- Only publishing a job, and picking up one that is unknown, adds a request. -/
theorem requests_publish (recorded : Bool) (other : Bytes) :
    other ∈ (m.publish id request recorded).requests ↔
      other ∈ m.requests ∨ (recorded = true ∧ other = id) := by
  cases recorded with
  | false => simp [publish]
  | true => simp [publish, or_comm]

end Manager

/-! ## The invariant -/

/-- What a thread has to do with which job. -/
inductive Role
  | none
  | works (id : Bytes)
  /-- Has put the id into `pending`. -/
  | claims (id : Bytes)
  | cancels (id : Bytes)
deriving DecidableEq

def Thread.role : Thread → Role
  | .working id _ => .works id
  | .submitWaits id _ _ => .claims id
  | .submitRecords id _ _ => .claims id
  | .submitPublishes id _ _ => .claims id
  | .retryRecords candidate _ _ => .claims candidate
  | .cancelWaits id _ => .cancels id
  | .cancelActs id _ _ => .cancels id
  | _ => .none

/-- The dispatch state and the threads fit together. -/
structure Dispatch (m : Manager) (role : Nat → Role) : Prop where
  once : ∀ id, m.places id ≤ 1
  known : ∀ id, m.Owns id → id ∈ m.requests
  works : ∀ n id, role n = .works id → id ∈ m.active
  worksAlone : ∀ n k id, role n = .works id → role k = .works id → n = k
  claims : ∀ n id, role n = .claims id → id ∈ m.pending ∧ id ∉ m.requests
  claimsAlone : ∀ n k id, role n = .claims id → role k = .claims id → n = k
  cancels : ∀ n id, role n = .cancels id → id ∈ m.requests

def System.roles (s : System) (n : Nat) : Role := (s.threads n).role

theorem System.roles_setThread (s : System) (n : Nat) (thread : Thread) :
    (s.setThread n thread).roles = Function.update s.roles n thread.role := by
  funext k
  by_cases h : k = n
  · simp [System.roles, System.setThread, h]
  · simp [System.roles, System.setThread, h]

theorem Thread.role_of_free {thread : Thread} (free : thread.isFree = true) :
    thread.role = .none := by
  cases thread <;> first | rfl | cases free

theorem QuietStep.role {thread thread' : Thread} (h : QuietStep thread thread') :
    thread'.role = thread.role := by
  have hretrying : ∀ {thread : Thread}, thread.isRetrying = true → thread.role = .none := by
    intro thread hretrying
    cases thread <;> first | rfl | cases hretrying
  cases h with
  | refused free => exact (Thread.role_of_free free).symm
  | claimedRetry free => exact (Thread.role_of_free free).symm
  | exited => rfl
  | locked h =>
      cases thread <;> cases h <;> rfl
  | recorded => rfl
  | refusedRetry retrying => exact (hretrying retrying).symm
  | triesRetry retrying => exact (hretrying retrying).symm

theorem QuietStep.not_working {thread thread' : Thread} (h : QuietStep thread thread')
    {id : Bytes} (rest : Prog (Option Int)) : thread' ≠ .working id rest := by
  cases h with
  | locked h => cases thread <;> cases h <;> nofun
  | _ => nofun

theorem Thread.working_of_role {thread : Thread} {id : Bytes} (h : thread.role = .works id) :
    ∃ rest, thread = .working id rest := by
  cases thread with
  | working id' rest =>
      cases h
      exact ⟨rest, rfl⟩
  | _ => cases h

theorem Thread.role_of_publishes {thread : Thread} {id : Bytes} {request : MoveRequest}
    {recorded : Except Bytes Unit} (h : thread.publishes = some (id, request, recorded)) :
    thread.role = .claims id := by
  unfold Thread.publishes at h
  split at h <;> cases h <;> rfl

theorem System.afterPublish_role (recorded : Except Bytes Unit) :
    (System.afterPublish recorded).role = .none := by
  cases recorded <;> rfl

theorem Calling.role {thread : Thread} {c : Call} {rest : Reply c → Thread}
    (h : Calling thread c rest) (reply : Reply c) : (rest reply).role = thread.role := by
  cases h <;> rfl

/-- What thread `n` has to show for a role it takes on. -/
def Role.Fits (role : Nat → Role) (n : Nat) (m : Manager) : Role → Prop
  | .none => True
  | .works id => id ∈ m.active ∧ ∀ k, k ≠ n → role k ≠ .works id
  | .claims id => (id ∈ m.pending ∧ id ∉ m.requests) ∧ ∀ k, k ≠ n → role k ≠ .claims id
  | .cancels id => id ∈ m.requests

section Step
variable {m m' : Manager} {role : Nat → Role} {n : Nat} {r : Role} {s t : System}
  {event : ManagerEvent}

/-- One thread changes its role. -/
theorem Dispatch.change (inv : Dispatch m role)
    (once : ∀ id, m'.places id ≤ 1) (known : ∀ id, m'.Owns id → id ∈ m'.requests)
    (active : ∀ k id, k ≠ n → role k = .works id → id ∈ m'.active)
    (pending : ∀ k id, k ≠ n → role k = .claims id → id ∈ m'.pending ∧ id ∉ m'.requests)
    (requests : ∀ id, id ∈ m.requests → id ∈ m'.requests) (fits : r.Fits role n m') :
    Dispatch m' (Function.update role n r) := by
  have hself : ∀ {k r'}, Function.update role n r k = r' → k = n → r = r' := by
    intro k r' h hk
    rw [hk, Function.update_self] at h
    exact h
  have hother : ∀ {k r'}, Function.update role n r k = r' → k ≠ n → role k = r' := by
    intro k r' h hk
    rw [Function.update_of_ne hk] at h
    exact h
  refine ⟨once, known, ?_, ?_, ?_, ?_, ?_⟩
  · intro k id h
    by_cases hk : k = n
    · rw [hself h hk] at fits
      exact fits.1
    · exact active k id hk (hother h hk)
  · intro k j id h h'
    by_cases hk : k = n
    · by_cases hj : j = n
      · rw [hk, hj]
      · rw [hself h hk] at fits
        exact absurd (hother h' hj) (fits.2 j hj)
    · by_cases hj : j = n
      · rw [hself h' hj] at fits
        exact absurd (hother h hk) (fits.2 k hk)
      · exact inv.worksAlone k j id (hother h hk) (hother h' hj)
  · intro k id h
    by_cases hk : k = n
    · rw [hself h hk] at fits
      exact fits.1
    · exact pending k id hk (hother h hk)
  · intro k j id h h'
    by_cases hk : k = n
    · by_cases hj : j = n
      · rw [hk, hj]
      · rw [hself h hk] at fits
        exact absurd (hother h' hj) (fits.2 j hj)
    · by_cases hj : j = n
      · rw [hself h' hj] at fits
        exact absurd (hother h hk) (fits.2 k hk)
      · exact inv.claimsAlone k j id (hother h hk) (hother h' hj)
  · intro k id h
    by_cases hk : k = n
    · rw [hself h hk] at fits
      exact fits
    · exact requests id (inv.cancels k id (hother h hk))

/-- A thread gives up its role; the dispatch state keeps what the others rely on. -/
theorem Dispatch.release (inv : Dispatch m role)
    (once : ∀ id, m'.places id ≤ 1) (known : ∀ id, m'.Owns id → id ∈ m.requests)
    (active : m'.active = m.active) (pending : m'.pending = m.pending)
    (requests : m'.requests = m.requests) :
    Dispatch m' (Function.update role n .none) := by
  refine inv.change once ?_ ?_ ?_ ?_ trivial
  · intro id h
    rw [requests]
    exact known id h
  · intro k id _ h
    rw [active]
    exact inv.works k id h
  · intro k id _ h
    rw [pending, requests]
    exact inv.claims k id h
  · intro id h
    rw [requests]
    exact h

/-- A thread that moves on in its role. -/
theorem Dispatch.keep (inv : Dispatch s.manager s.roles) {thread : Thread}
    (same : thread.role = (s.threads n).role) :
    Dispatch s.manager (Function.update s.roles n thread.role) := by
  rw [same]
  change Dispatch s.manager (Function.update s.roles n (s.roles n))
  rw [Function.update_eq_self]
  exact inv

/-- A thread claims an id that is neither known nor claimed. -/
theorem Dispatch.claim {id : Bytes} (inv : Dispatch m role) (new : id ∉ m.requests)
    (free : id ∉ m.pending) :
    Dispatch { m with pending := insert id m.pending }
      (Function.update role n (.claims id)) := by
  refine inv.change inv.once inv.known (fun k id' _ => inv.works k id') ?_ (fun _ h => h) ?_
  · intro k id' _ h
    obtain ⟨hpending, hnew⟩ := inv.claims k id' h
    exact ⟨Finset.mem_insert_of_mem hpending, hnew⟩
  · refine ⟨⟨Finset.mem_insert_self id m.pending, new⟩, fun k _ h => ?_⟩
    exact free (inv.claims k id h).1

/-! One lemma for each kind of step. -/

section Kinds
variable {id : Bytes} {request : MoveRequest} {wasRunnable : Bool}

theorem Dispatch.pause (inv : Dispatch m role) (h : m.pause id = .ok m') :
    Dispatch m' (Function.update role n .none) := by
  have hplaces := Manager.places_pause h (inv.once id)
  obtain ⟨hknown, _, rfl⟩ := Manager.pause_eq h
  refine inv.release ?_ ?_ rfl rfl rfl
  · intro other
    have h' := inv.once other
    rw [hplaces]
    split <;> omega
  · intro other hother
    by_cases heq : other = id
    · rw [heq]
      exact hknown
    · refine inv.known other ?_
      rw [Manager.Owns, hplaces, if_neg heq] at hother
      exact hother

theorem Dispatch.resume (inv : Dispatch m role) (h : m.resume id = .ok m') :
    Dispatch m' (Function.update role n .none) := by
  have hplaces := Manager.places_resume h
  obtain ⟨_, _, rfl⟩ := Manager.resume_eq h
  refine inv.release ?_ ?_ rfl rfl rfl
  · intro other
    rw [hplaces]
    exact inv.once other
  · intro other hother
    rw [Manager.Owns, hplaces] at hother
    exact inv.known other hother

theorem Dispatch.pump (inv : Dispatch m role) (nowMs : Int) : Dispatch (m.pump nowMs) role := by
  have hplaces := Manager.places_pump (m := m) nowMs
  have hpump : (m.pump nowMs).active = m.active ∧ (m.pump nowMs).pending = m.pending ∧
      (m.pump nowMs).requests = m.requests := by
    unfold Manager.pump
    split <;> exact ⟨rfl, rfl, rfl⟩
  obtain ⟨hactive, hpending, hrequests⟩ := hpump
  refine ⟨?_, ?_, ?_, inv.worksAlone, ?_, inv.claimsAlone, ?_⟩
  · intro id
    rw [hplaces]
    exact inv.once id
  · intro id h
    rw [Manager.Owns, hplaces] at h
    rw [hrequests]
    exact inv.known id h
  · intro n id h
    rw [hactive]
    exact inv.works n id h
  · intro n id h
    rw [hpending, hrequests]
    exact inv.claims n id h
  · intro n id h
    rw [hrequests]
    exact inv.cancels n id h

/-- Only threads without a role become workers. -/
theorem Dispatch.restart (inv : Dispatch s.manager s.roles) (workers : Nat → Bool) :
    Dispatch s.manager (fun n => Thread.role (if workers n && (s.threads n).isFree
      then .waiting else s.threads n)) := by
  have hroles : ∀ n, Thread.role (if workers n && (s.threads n).isFree then .waiting
      else s.threads n) = s.roles n := by
    intro n
    split
    · rename_i h
      rw [Bool.and_eq_true] at h
      exact (Thread.role_of_free h.2).symm
    · rfl
  rw [funext hroles]
  exact inv

theorem Dispatch.claimCancel (inv : Dispatch m role)
    (h : m.claimCancel id = .ok (wasRunnable, m')) :
    Dispatch m' (Function.update role n (.cancels id)) := by
  have hplaces := Manager.places_claimCancel h (inv.once id)
  obtain ⟨hknown, _, _, rfl⟩ := Manager.claimCancel_eq h
  refine inv.change ?_ ?_ (fun k id' _ => inv.works k id') (fun k id' _ => inv.claims k id')
    (fun _ h => h) hknown
  · intro other
    have h' := inv.once other
    rw [hplaces]
    split <;> omega
  · intro other hother
    rw [Manager.Owns, hplaces] at hother
    split at hother
    · exact absurd rfl hother
    · exact inv.known other hother

theorem Dispatch.publish (inv : Dispatch m role) (hrole : role n = .claims id)
    (recorded : Bool) :
    Dispatch (m.publish id request recorded) (Function.update role n .none) := by
  obtain ⟨_, hnew⟩ := inv.claims n id hrole
  have hnowhere : m.places id = 0 := by
    by_contra howns
    exact hnew (inv.known id howns)
  refine inv.change ?_ ?_ ?_ ?_ ?_ trivial
  · intro other
    have h' := inv.once other
    rw [Manager.places_publish]
    split
    · rename_i hother
      rw [hother.2, hnowhere]
    · exact h'
  · intro other hother
    rw [Manager.requests_publish]
    rw [Manager.Owns, Manager.places_publish] at hother
    split at hother
    · rename_i hid
      exact Or.inr hid
    · exact Or.inl (inv.known other hother)
  · intro k id' _ h'
    rw [Manager.active_publish]
    exact inv.works k id' h'
  · intro k id' hk h'
    obtain ⟨hpending, hnew'⟩ := inv.claims k id' h'
    have hne : id' ≠ id := by
      rintro rfl
      exact hk (inv.claimsAlone k n id' h' hrole)
    rw [Manager.pending_publish, Manager.requests_publish]
    refine ⟨Finset.mem_erase.mpr ⟨hne, hpending⟩, ?_⟩
    rintro (h'' | h'')
    · exact hnew' h''
    · exact hne h''.2
  · intro other hother
    rw [Manager.requests_publish]
    exact Or.inl hother

theorem Dispatch.settleCancel (inv : Dispatch m role) (hrole : role n = .cancels id)
    {outcome : CommandResult} (hback : outcome ≠ .ok ∧ wasRunnable = true → m.places id = 0) :
    Dispatch (m.settleCancel id wasRunnable outcome) (Function.update role n .none) := by
  refine inv.release ?_ ?_ ?_ ?_ ?_
  · intro other
    have h' := inv.once other
    rw [Manager.places_settleCancel]
    split
    · rename_i hother
      rw [hother.2, hback hother.1]
    · exact h'
  · intro other hother
    rw [Manager.Owns, Manager.places_settleCancel] at hother
    split at hother
    · rename_i hid
      rw [hid.2]
      exact inv.cancels n id hrole
    · exact inv.known other hother
  all_goals
    simp only [Manager.settleCancel]
    split <;> rfl

theorem Dispatch.pickUp (inv : Dispatch m role) (h : m.pickUp = some (id, request, m')) :
    Dispatch m' (Function.update role n (.works id)) := by
  obtain ⟨hidle, hplaces⟩ := Manager.places_pickUp h (inv.once id)
  obtain ⟨rest, requests, hrunnable, hrequests, rfl⟩ := Manager.pickUp_eq h
  have hknown : id ∈ m.requests := by
    refine inv.known id ?_
    rw [Manager.Owns, Manager.places, hrunnable, List.count_cons_self]
    omega
  rw [hrequests hknown] at hplaces ⊢
  refine inv.change ?_ ?_ ?_ (fun k id' _ => inv.claims k id') (fun _ h => h) ?_
  · intro other
    rw [hplaces]
    exact inv.once other
  · intro other hother
    rw [Manager.Owns, hplaces] at hother
    exact inv.known other hother
  · intro k id' _ h'
    exact Finset.mem_insert_of_mem (inv.works k id' h')
  · refine ⟨Finset.mem_insert_self id m.active, fun k _ h' => ?_⟩
    exact hidle (inv.works k id h')

theorem Dispatch.settle (inv : Dispatch m role) (hrole : role n = .works id)
    (due : Option Int) : Dispatch (m.settle id due) (Function.update role n .none) := by
  have hactive := inv.works n id hrole
  have hplaces := Manager.places_settle hactive (inv.once id) due
  have hsettle : (m.settle id due).active = m.active.erase id ∧
      (m.settle id due).pending = m.pending ∧ (m.settle id due).requests = m.requests := by
    cases due <;> exact ⟨rfl, rfl, rfl⟩
  obtain ⟨hactive', hpending, hrequests⟩ := hsettle
  refine inv.change ?_ ?_ ?_ ?_ ?_ trivial
  · intro other
    have h' := inv.once other
    rw [hplaces]
    split
    · cases due <;> simp
    · exact h'
  · intro other hother
    rw [hrequests]
    rw [Manager.Owns, hplaces] at hother
    split at hother
    · rename_i hid
      rw [hid]
      refine inv.known id ?_
      rw [Manager.Owns, Manager.places, if_pos hactive]
      omega
    · exact inv.known other hother
  · intro k id' hk h'
    rw [hactive']
    refine Finset.mem_erase.mpr ⟨?_, inv.works k id' h'⟩
    rintro rfl
    exact hk (inv.worksAlone k n id' h' hrole)
  · intro k id' _ h'
    rw [hpending, hrequests]
    exact inv.claims k id' h'
  · intro other hother
    rw [hrequests]
    exact hother

end Kinds

theorem Dispatch.step (inv : Dispatch s.manager s.roles) (lost : PutsBackLost s event)
    (step : SystemStep s event t) : Dispatch t.manager t.roles := by
  cases step with
  | quiet actor h =>
      rw [System.roles_setThread]
      exact inv.keep h.role
  | called calling =>
      rw [System.roles_setThread]
      exact inv.keep (calling.role _)
  | paused free h =>
      rw [System.roles_setThread]
      exact inv.pause h
  | resumed free h =>
      rw [System.roles_setThread]
      exact inv.resume h
  | @pumped nowMs => exact inv.pump nowMs
  | tuned =>
      exact ⟨inv.once, inv.known, inv.works, inv.worksAlone, inv.claims, inv.claimsAlone,
        inv.cancels⟩
  | @restarted workers =>
      have hrestart := inv.restart workers
      exact ⟨hrestart.once, hrestart.known, hrestart.works, hrestart.worksAlone,
        hrestart.claims, hrestart.claimsAlone, hrestart.cancels⟩
  | claimedSubmit free h =>
      rw [System.roles_setThread]
      obtain ⟨hnew, hfree, rfl⟩ := Manager.claimSubmit_eq h
      exact inv.claim hnew hfree
  | claimedCancel free h =>
      rw [System.roles_setThread]
      exact inv.claimCancel h
  | claimedCandidate thread h =>
      rw [System.roles_setThread]
      obtain ⟨hnew, hfree, rfl⟩ := Manager.claimCandidate_eq h
      exact inv.claim hnew hfree
  | published h =>
      rw [System.roles_setThread, System.afterPublish_role]
      exact inv.publish (Thread.role_of_publishes h) _
  | @settledCancel n id wasRunnable outcome error thread =>
      rw [System.roles_setThread]
      refine inv.settleCancel (by rw [System.roles, thread]; rfl) ?_
      rintro ⟨hrefused, rfl⟩
      refine not_not.mp (lost id ?_)
      simp [System.putsBack, thread, hrefused]
  | pickedUp thread h =>
      rw [System.roles_setThread]
      exact inv.pickUp h
  | @settled n id due thread =>
      rw [System.roles_setThread]
      exact inv.settle (by rw [System.roles, thread]; rfl) due

theorem System.started_thread (config : RetryConfig) (strategy : MoveStrategy) (w : World)
    (workers : Nat → Bool) (n : Nat) :
    (System.started config strategy w workers).threads n = .waiting ∨
      (System.started config strategy w workers).threads n = .idle := by
  simp only [System.started]
  split
  · exact Or.inl rfl
  · exact Or.inr rfl

theorem dispatch_started (config : RetryConfig) (strategy : MoveStrategy) (w : World)
    (workers : Nat → Bool) :
    Dispatch (System.started config strategy w workers).manager
      (System.started config strategy w workers).roles := by
  have hplaces : ∀ id, (System.started config strategy w workers).manager.places id = 0 := by
    intro id
    simp [System.started, Manager.places]
  have hroles : ∀ n, (System.started config strategy w workers).roles n = .none := by
    intro n
    simp only [System.roles, System.started]
    split <;> rfl
  refine ⟨?_, ?_, ?_, ?_, ?_, ?_, ?_⟩
  · intro id
    rw [hplaces]
    omega
  · intro id h
    exact absurd (hplaces id) h
  all_goals
    intro n
    rw [hroles]
    nofun

end Step

/-! ## At most one place -/

/-- A job is in at most one place, and there once; and no two workers run it. -/
structure OnePlace (s : System) : Prop where
  nodup : s.manager.runnable.Nodup
  runnable : ∀ id ∈ s.manager.runnable,
    id ∉ s.manager.waiting ∧ id ∉ s.manager.paused ∧ id ∉ s.manager.active
  waiting : ∀ id ∈ s.manager.waiting, id ∉ s.manager.paused ∧ id ∉ s.manager.active
  paused : ∀ id ∈ s.manager.paused, id ∉ s.manager.active
  workers : ∀ n k id rest rest', s.threads n = .working id rest →
    s.threads k = .working id rest' → n = k

theorem Dispatch.onePlace {s : System} (inv : Dispatch s.manager s.roles) : OnePlace s := by
  have hsplit : ∀ id, s.manager.runnable.count id + (if id ∈ s.manager.waiting then 1 else 0) +
      (if id ∈ s.manager.paused then 1 else 0) + (if id ∈ s.manager.active then 1 else 0) ≤ 1 :=
    inv.once
  refine ⟨?_, ?_, ?_, ?_, ?_⟩
  · refine List.nodup_iff_count_le_one.mpr fun id => ?_
    have h := hsplit id
    omega
  · intro id hid
    have h := hsplit id
    have hcount := List.count_pos_iff.mpr hid
    refine ⟨fun h' => ?_, fun h' => ?_, fun h' => ?_⟩ <;>
      · rw [if_pos h'] at h
        omega
  · intro id hid
    have h := hsplit id
    rw [if_pos hid] at h
    refine ⟨fun h' => ?_, fun h' => ?_⟩ <;>
      · rw [if_pos h'] at h
        omega
  · intro id hid hactive
    have h := hsplit id
    rw [if_pos hid, if_pos hactive] at h
    omega
  · intro n k id rest rest' hn hk
    refine inv.worksAlone n k id ?_ ?_
    · rw [System.roles, hn]
      rfl
    · rw [System.roles, hk]
      rfl

/-- In every history of a started manager in which a refused `cancel` puts back only
jobs that are nowhere, whatever fails and however the threads interleave, a job is in
at most one place and run by at most one worker. -/
theorem job_in_one_place (config : RetryConfig) (strategy : MoveStrategy) (w : World)
    (workers : Nat → Bool) (s : System)
    (reach : GuardedReach System.act PutsBackLost
      (System.started config strategy w workers) s) : OnePlace s := by
  have inv : Dispatch s.manager s.roles :=
    reach.invariant (fun s => Dispatch s.manager s.roles)
      (fun lost h inv => inv.step lost (systemStep h))
      (dispatch_started config strategy w workers)
  exact inv.onePlace

def NoStart (event : ManagerEvent) : Prop := ∀ workers, event ≠ .start workers

instance : DecidablePred NoStart
  | .start workers => .isFalse fun h => h workers rfl
  | .submit _ _ _ _ | .pause _ _ | .resume _ _ | .cancel _ _ | .retry _ _ _ | .pump _
  | .pickUp _ _ | .exit _ | .lock _ | .call _ _ | .proceed _ | .setStrategy _ | .shutdown =>
      .isTrue nofun

/-- A thread that has no part in a history is where it was. -/
theorem replay_apart {labels : List ManagerEvent} {actors : List Nat} {s t : System}
    (h : replay System.act labels s = some t)
    (apart : ∀ event ∈ labels, NoStart event ∧ ∀ n ∈ event.actor, n ∈ actors)
    {k : Nat} (outside : k ∉ actors) : t.threads k = s.threads k := by
  induction labels generalizing s with
  | nil =>
      cases h
      rfl
  | cons event rest ih =>
      obtain ⟨u, hact, hrest⟩ := Option.bind_eq_some_iff.mp h
      obtain ⟨hstart, hactor⟩ := apart event List.mem_cons_self
      have hstay : u.threads k = s.threads k := by
        refine (systemStep hact).others (fun hk => ?_) hstart
        exact outside (hactor k hk)
      rw [ih hrest fun event' h' => apart event' (List.mem_cons_of_mem event h'), hstay]

/-! A manager on a store without jobs: threads 3 and 4 are its workers. -/

def sampleConfig : RetryConfig := ⟨3, 1000, 60000⟩

def sampleSystem : System :=
  System.started sampleConfig .renameNoReplace
    { fs := (sampleWorld .queued [sampleSource]).fs, db := ∅ } fun n => n = 3 || n = 4

/-- Thread 1 submits the sample job and cancels it; the job, now FAILED, is made
runnable again by pausing and resuming it. -/
def sampleRevived : List ManagerEvent :=
  [.submit 1 (lit "j") sampleRequest 0, .lock 1, .call 1 none, .proceed 1, .proceed 1,
    .cancel 1 (lit "j"), .lock 1, .call 1 none, .call 1 none, .call 1 none, .proceed 1,
    .pause 1 (lit "j"), .resume 1 (lit "j")]

/-- Thread 1 cancels once more, and is refused. -/
theorem job_in_one_place_sample :
    ∃ s, replay System.act
        (sampleRevived ++ [.cancel 1 (lit "j"), .lock 1, .call 1 none, .proceed 1])
        sampleSystem = some s ∧ s.manager.runnable = [lit "j"] ∧ OnePlace s := by
  have meet : AllSteps System.act PutsBackLost
      (sampleRevived ++ [.cancel 1 (lit "j"), .lock 1, .call 1 none, .proceed 1])
      sampleSystem := by
    decide
  obtain ⟨s, hs⟩ := Option.isSome_iff_exists.mp (by decide : (replay System.act
    (sampleRevived ++ [.cancel 1 (lit "j"), .lock 1, .call 1 none, .proceed 1])
    sampleSystem).isSome = true)
  refine ⟨s, hs, ?_, job_in_one_place _ _ _ _ s (.of_replay meet hs)⟩
  have hrunnable : ((replay System.act
      (sampleRevived ++ [.cancel 1 (lit "j"), .lock 1, .call 1 none, .proceed 1])
      sampleSystem).map fun s => s.manager.runnable) = some [lit "j"] := by
    decide
  rw [hs] at hrunnable
  exact Option.some.inj hrunnable

/-- The same while thread 2 pauses and resumes the job: it is put back although it is
runnable, and both workers pick it up. -/
theorem job_run_by_two_workers :
    ¬ ∀ config strategy w workers s, GuardedReach System.act (fun _ _ => True)
      (System.started config strategy w workers) s → OnePlace s := by
  intro h
  let labels : List ManagerEvent := sampleRevived ++
    ([.cancel 1 (lit "j"), .pause 2 (lit "j"), .resume 2 (lit "j"),
      .lock 1, .call 1 none, .proceed 1, .pickUp 3 0, .pickUp 4 0] : List ManagerEvent)
  obtain ⟨s, hs⟩ := Option.isSome_iff_exists.mp
    (by decide : (replay System.act labels sampleSystem).isSome = true)
  have hone := h _ _ _ _ s (.of_replay (AllSteps.of_free (fun _ _ => trivial) labels _) hs)
  have hworking : ((replay System.act labels sampleSystem).map fun s =>
      ((s.threads 3).role, (s.threads 4).role)) =
        some (.works (lit "j"), .works (lit "j")) := by
    decide
  rw [hs] at hworking
  obtain ⟨h3, h4⟩ := Prod.mk.inj (Option.some.inj hworking)
  obtain ⟨rest, hrest⟩ := Thread.working_of_role h3
  obtain ⟨rest', hrest'⟩ := Thread.working_of_role h4
  exact absurd (hone.workers 3 4 (lit "j") rest rest' hrest hrest') (by decide)

end FileMover
