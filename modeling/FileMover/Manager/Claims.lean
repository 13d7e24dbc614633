import FileMover.Manager.Workers

/-!
# Claims

A command that makes a job puts its id into `pending` in one section and into
`requests` in a later one. In between the id is its own: nobody else claims it, and
the manager does not know it yet. So publishing a job never replaces the request of
another, and the request of a job that the manager knows stays what it was.
-/

namespace FileMover

open Framework

structure Claims (s : System) : Prop where
  pending : ∀ n id, s.roles n = .claims id → id ∈ s.manager.pending
  fresh : ∀ n id, s.roles n = .claims id → id ∉ s.manager.requests
  alone : ∀ n k id, s.roles n = .claims id → s.roles k = .claims id → n = k

section Step
variable {s s' t : System} {event : ManagerEvent}

/-- A step of thread `n`: what it had claimed it may give up or publish, and it may
claim an id that nobody has. -/
theorem Claims.change (inv : Claims s) {n : Nat} {thread : Thread} (same : s'.threads = s.threads)
    (pending : ∀ id, s.roles n ≠ .claims id → id ∈ s.manager.pending → id ∈ s'.manager.pending)
    (requests : ∀ id, id ∈ s'.manager.requests →
      id ∈ s.manager.requests ∨ s.roles n = .claims id)
    (own : ∀ id, thread.role = .claims id →
      (s.roles n = .claims id ∨ id ∉ s.manager.pending) ∧ id ∈ s'.manager.pending ∧
        id ∉ s'.manager.requests) :
    Claims (s'.setThread n thread) := by
  have hroles : (s'.setThread n thread).roles = Function.update s.roles n thread.role := by
    rw [System.roles_setThread]
    congr 1
    funext k
    simp only [System.roles, same]
  have hself : (s'.setThread n thread).roles n = thread.role := by
    rw [hroles, Function.update_self]
  have hother : ∀ {k}, k ≠ n → (s'.setThread n thread).roles k = s.roles k := by
    intro k hk
    rw [hroles, Function.update_of_ne hk]
  -- what another thread has claimed is neither the old nor the new claim of `n`
  have hmine : ∀ {k id}, k ≠ n → s.roles k = .claims id → s.roles n ≠ .claims id :=
    fun hk hclaim hn => hk (inv.alone _ n _ hclaim hn)
  have hnew : ∀ {k id}, k ≠ n → s.roles k = .claims id → thread.role ≠ .claims id := by
    intro k id hk hclaim hrole
    rcases (own id hrole).1 with hn | hfree
    · exact hmine hk hclaim hn
    · exact hfree (inv.pending k id hclaim)
  constructor
  · intro k id hclaim
    by_cases hk : k = n
    · subst hk
      rw [hself] at hclaim
      exact (own id hclaim).2.1
    · rw [hother hk] at hclaim
      exact pending id (hmine hk hclaim) (inv.pending k id hclaim)
  · intro k id hclaim
    by_cases hk : k = n
    · subst hk
      rw [hself] at hclaim
      exact (own id hclaim).2.2
    · rw [hother hk] at hclaim
      intro hmem
      rcases requests id hmem with hmem | hn
      · exact inv.fresh k id hclaim hmem
      · exact hmine hk hclaim hn
  · intro k l id hk hl
    by_cases hkn : k = n
    · by_cases hln : l = n
      · rw [hkn, hln]
      · rw [hkn, hself] at hk
        rw [hother hln] at hl
        exact absurd hk (hnew hln hl)
    · rw [hother hkn] at hk
      by_cases hln : l = n
      · rw [hln, hself] at hl
        exact absurd hl (hnew hkn hk)
      · rw [hother hln] at hl
        exact inv.alone k l id hk hl

/-- A step that leaves claims alone. -/
theorem Claims.keep (inv : Claims s) {n : Nat} {thread : Thread} (same : s'.threads = s.threads)
    (role : thread.role = s.roles n ∨ thread.role = .none)
    (pending : s'.manager.pending = s.manager.pending)
    (requests : ∀ id, id ∈ s'.manager.requests → id ∈ s.manager.requests) :
    Claims (s'.setThread n thread) := by
  refine inv.change same (fun id _ h => pending ▸ h) (fun id h => .inl (requests id h)) ?_
  intro id hclaim
  rcases role with hrole | hrole
  · rw [hrole] at hclaim
    refine ⟨.inl hclaim, pending ▸ inv.pending n id hclaim, fun hmem => ?_⟩
    exact inv.fresh n id hclaim (requests id hmem)
  · rw [hrole] at hclaim
    cases hclaim

theorem Claims.claim (inv : Claims s) {n : Nat} {id : Bytes} {thread : Thread}
    (new : id ∉ s.manager.requests) (free : id ∉ s.manager.pending)
    (role : thread.role = .claims id) :
    Claims ({ s with manager := { s.manager with
      pending := insert id s.manager.pending } }.setThread n thread) := by
  refine inv.change rfl (fun _ _ h => Finset.mem_insert_of_mem h) (fun _ h => .inl h) ?_
  intro id' hclaim
  rw [role] at hclaim
  cases hclaim
  exact ⟨.inr free, Finset.mem_insert_self id _, new⟩

theorem Claims.step (inv : Claims s) (registry : Registry s) (step : SystemStep s event t) :
    Claims t := by
  cases step with
  | quiet actor h => exact inv.keep rfl (.inl h.role) rfl fun _ h => h
  | called calling => exact inv.keep rfl (.inl (calling.role _)) rfl fun _ h => h
  | paused free h =>
      obtain ⟨-, -, rfl⟩ := Manager.pause_eq h
      exact inv.keep rfl (.inr rfl) rfl fun _ h => h
  | resumed free h =>
      obtain ⟨-, -, rfl⟩ := Manager.resume_eq h
      exact inv.keep rfl (.inr rfl) rfl fun _ h => h
  | @pumped nowMs =>
      have hpending : (s.manager.pump nowMs).pending = s.manager.pending := by
        unfold Manager.pump
        split <;> rfl
      refine ⟨fun n id h => ?_, fun n id h => ?_, fun n k id h h' => inv.alone n k id h h'⟩
      · show id ∈ (s.manager.pump nowMs).pending
        rw [hpending]
        exact inv.pending n id h
      · show id ∉ (s.manager.pump nowMs).requests
        rw [Manager.requests_pump]
        exact inv.fresh n id h
  | tuned => exact ⟨inv.pending, inv.fresh, inv.alone⟩
  | @restarted workers =>
      have hrole : ∀ {n id}, (System.roles { s with
          manager := { s.manager with running := true, stopping := false }
          threads := fun n => if workers n && (s.threads n).isFree then .waiting
            else s.threads n } n) = .claims id → s.roles n = .claims id := by
        intro n id h
        rcases restarted_thread s workers n with hsame | ⟨_, hwaiting⟩
        · simp only [System.roles, hsame] at h
          exact h
        · simp only [System.roles, hwaiting] at h
          cases h
      exact ⟨fun n id h => inv.pending n id (hrole h), fun n id h => inv.fresh n id (hrole h),
        fun n k id h h' => inv.alone n k id (hrole h) (hrole h')⟩
  | claimedSubmit free h =>
      obtain ⟨hnew, hfree, rfl⟩ := Manager.claimSubmit_eq h
      exact inv.claim hnew hfree rfl
  | claimedCancel free h =>
      obtain ⟨-, -, -, rfl⟩ := Manager.claimCancel_eq h
      refine inv.change rfl (fun _ _ h => h) (fun _ h => .inl h) ?_
      intro id hclaim
      cases hclaim
  | claimedCandidate thread h =>
      obtain ⟨hnew, hfree, rfl⟩ := Manager.claimCandidate_eq h
      exact inv.claim hnew hfree rfl
  | @published n id request recorded storeMutex h =>
      have hrole : s.roles n = .claims id := Thread.role_of_publishes h
      refine inv.change rfl ?_ ?_ ?_
      · intro id' hne hmem
        show id' ∈ (s.manager.publish id request _).pending
        rw [Manager.pending_publish]
        refine Finset.mem_erase.mpr ⟨?_, hmem⟩
        rintro rfl
        exact hne hrole
      · intro id' hmem
        rcases (Manager.requests_publish _ _).mp hmem with hmem | ⟨-, rfl⟩
        · exact .inl hmem
        · exact .inr hrole
      · intro id' hclaim
        rw [System.afterPublish_role] at hclaim
        cases hclaim
  | settledCancel thread =>
      refine inv.keep rfl (.inr rfl) ?_ ?_
      · simp only [Manager.settleCancel]
        split <;> rfl
      · intro id hmem
        simp only [Manager.settleCancel] at hmem
        split at hmem <;> exact hmem
  | @pickedUp n nowMs id request m thread h =>
      obtain ⟨rest, requests, hrunnable, hsame, rfl⟩ := Manager.pickUp_eq h
      have hknown : id ∈ s.manager.requests :=
        registry.known id (.inl (by rw [hrunnable]; exact List.mem_cons_self))
      refine inv.change rfl (fun _ _ h => h) (fun id' hmem => .inl ?_) ?_
      · exact hsame hknown ▸ hmem
      · intro id' hclaim
        cases hclaim
  | @settled n id due thread =>
      cases due with
      | none => exact inv.keep rfl (.inr rfl) rfl fun _ h => h
      | some dueMs => exact inv.keep rfl (.inr rfl) rfl fun _ h => h

/-- The request of a job that the manager knows stays what it was. -/
theorem SystemStep.lookup (step : SystemStep s event t) (inv : Claims s) {id : Bytes}
    {request : MoveRequest} (known : s.manager.requests.lookup id = some request) :
    t.manager.requests.lookup id = some request := by
  have hmem : id ∈ s.manager.requests := AList.lookup_isSome.mp (by rw [known]; rfl)
  cases step with
  | paused free h =>
      obtain ⟨-, -, rfl⟩ := Manager.pause_eq h
      exact known
  | resumed free h =>
      obtain ⟨-, -, rfl⟩ := Manager.resume_eq h
      exact known
  | @pumped nowMs =>
      show (s.manager.pump nowMs).requests.lookup id = some request
      rw [Manager.requests_pump]
      exact known
  | claimedSubmit free h =>
      obtain ⟨-, -, rfl⟩ := Manager.claimSubmit_eq h
      exact known
  | claimedCancel free h =>
      obtain ⟨-, -, -, rfl⟩ := Manager.claimCancel_eq h
      exact known
  | claimedCandidate thread h =>
      obtain ⟨-, -, rfl⟩ := Manager.claimCandidate_eq h
      exact known
  | @published n id' request' recorded storeMutex h =>
      have hne : id ≠ id' := by
        rintro rfl
        exact inv.fresh n id (Thread.role_of_publishes h) hmem
      show (s.manager.publish id' request' _).requests.lookup id = some request
      unfold Manager.publish
      split
      · rw [AList.lookup_insert_ne hne]
        exact known
      · exact known
  | settledCancel thread =>
      simp only [Manager.settleCancel]
      split <;> exact known
  | @pickedUp n nowMs id' request' m thread h =>
      unfold Manager.pickUp at h
      split at h
      · cases h
      · split at h
        · cases h
          exact known
        · rename_i hnone
          cases h
          have hne : id ≠ id' := by
            rintro rfl
            rw [hnone] at known
            cases known
          show (s.manager.requests.insert _ _).lookup id = some request
          rw [AList.lookup_insert_ne hne]
          exact known
  | @settled n id' due thread => cases due <;> exact known
  | _ => exact known

/-- The request that a worker takes along is the one that the manager has for the job. -/
theorem Manager.pickUp_lookup {m m' : Manager} {id : Bytes} {request : MoveRequest}
    (h : m.pickUp = some (id, request, m')) : m'.requests.lookup id = some request := by
  unfold Manager.pickUp at h
  split at h
  · cases h
  · split at h
    · rename_i hlookup
      cases h
      exact hlookup
    · cases h
      exact AList.lookup_insert _

end Step

theorem claims_started (config : RetryConfig) (strategy : MoveStrategy) (w : World)
    (workers : Nat → Bool) : Claims (System.started config strategy w workers) := by
  have hrole : ∀ n id, (System.started config strategy w workers).roles n ≠ .claims id := by
    intro n id h
    simp only [System.roles, System.started] at h
    split at h <;> cases h
  exact ⟨fun n id h => absurd h (hrole n id), fun n id h => absurd h (hrole n id),
    fun n _ id h => absurd h (hrole n id)⟩

end FileMover
