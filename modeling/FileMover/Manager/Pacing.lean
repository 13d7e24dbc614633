import FileMover.Manager.Attempts
import FileMover.Manager.DueList
import FileMover.Manager.Turns

/-!
# How often, and how soon

A job gets so many attempts and no more, whatever becomes of it in between, and an attempt
that failed is not repeated before its time. The count is kept in the row, the time in the
row and in `waiting`; `pause` and `resume` know nothing of either.

A bystander counts how often each job was tried, and notes which jobs were ever paused and
what time it has become. The histories are those in which the store works, the commands do
not overlap, time does not run backwards, and the source name of the job in question is
left to the job.
-/

namespace FileMover

open Framework

/-! ## The bystander -/

structure Tally where
  system : System
  /-- How often a worker has called for the commit of each job. -/
  tries : Bytes → Nat
  /-- Whether the job has ever been paused. -/
  paused : Bytes → Bool
  /-- The latest time that was read. -/
  clock : Int

/-- The time that an event reads. -/
def ManagerEvent.time : ManagerEvent → Option Int
  | .submit _ _ _ nowMs | .retry _ _ nowMs | .pump nowMs | .pickUp _ nowMs => some nowMs
  | _ => none

namespace Tally

def count (v : Tally) : ManagerEvent → Bytes → Nat
  | .call n _ =>
      match v.system.threads n with
      | .working id (.call c _) =>
          if c.op.links then Function.update v.tries id (v.tries id + 1) else v.tries
      | _ => v.tries
  | _ => v.tries

def act (v : Tally) (event : ManagerEvent) : Option Tally :=
  (v.system.act event).map fun t =>
    { system := t
      tries := v.count event
      paused := fun id => v.paused id || decide (id ∈ t.manager.paused)
      clock := event.time.getD v.clock }

def started (config : RetryConfig) (strategy : MoveStrategy) (w : World)
    (workers : Nat → Bool) (clock : Int) : Tally where
  system := System.started config strategy w workers
  tries _ := 0
  paused _ := false
  clock := clock

end Tally

/-- Whoever has another job, or none, does not give the source name to an object. -/
def OwnSource (id : Bytes) (request : MoveRequest) (s : System) : ManagerEvent → Prop
  | .call n _ => s.roles n ≠ .works id → ∀ next ∈ (s.threads n).next,
      LeavesSource request s.world.fs.root next.1
  | _ => True

instance (request : MoveRequest) (root : Bytes → Option Dir) (c : Call) :
    Decidable (LeavesSource request root c) :=
  inferInstanceAs (Decidable (∀ dir ∈ root (cstr request.sourceDir),
    c.op.target ≠ some ⟨dir, request.sourceName⟩))

instance (id : Bytes) (request : MoveRequest) (s : System) :
    (event : ManagerEvent) → Decidable (OwnSource id request s event)
  | .call n _ => inferInstanceAs (Decidable (s.roles n ≠ .works id →
      ∀ next ∈ (s.threads n).next, LeavesSource request s.world.fs.root next.1))
  | .submit _ _ _ _ | .pause _ _ | .resume _ _ | .cancel _ _ | .retry _ _ _ | .pump _
  | .pickUp _ _ | .exit _ | .lock _ | .proceed _ | .setStrategy _ | .shutdown | .start _ =>
      .isTrue trivial

structure Calm (id : Bytes) (request : MoveRequest) (v : Tally) (event : ManagerEvent) :
    Prop where
  store : StoreWorks v.system event
  command : OneCommand v.system event
  clock : ∀ nowMs ∈ event.time, v.clock ≤ nowMs
  source : OwnSource id request v.system event

/-! ## Where a job stands -/

/-- How many attempts a job gets. -/
def RetryConfig.attempts (config : RetryConfig) : Nat := max 1 config.retryMaxAttempts

/-- A job that no worker has: either the matter is over, or the attempts on record are as
many as were made, and there is one left. -/
structure AtRest (config : RetryConfig) (root : Bytes → Option Dir) (id : Bytes)
    (request : MoveRequest) (tries : Nat) (w : World) : Prop where
  sealed : SealedAt root id request w
  stands : Over id request w ∧ tries ≤ config.attempts ∨
    ∃ r, w.db.row id = some r ∧ tries ≤ r.attempts ∧ r.attempts < config.attempts

/-- A job that a worker has, with what is left of its program. -/
inductive AtWork (config : RetryConfig) (root : Bytes → Option Dir) (id : Bytes)
    (request : MoveRequest) (tries : Nat) (rest : Prog (Option Int)) (w : World) : Prop
  /-- The matter was over when it was picked up. -/
  | «over» {attempts : Nat} (within : tries ≤ config.attempts)
      (safe : rest.Safe machine (attemptContract id request False)
        (Left root config id request attempts False) w)
  | before {attempts : Nat} (within : tries ≤ attempts ∧ attempts < config.attempts)
      (once : LinksOnce rest)
      (safe : rest.Safe machine (attemptContract id request True)
        (Left root config id request attempts True) w)
  /-- The attempt has been made. -/
  | after {attempts : Nat} (within : tries ≤ attempts + 1 ∧ attempts < config.attempts)
      (uses : rest.Uses fun c => c.op.links = false)
      (safe : rest.Safe machine (attemptContract id request True)
        (Left root config id request attempts True) w)

section Job
variable {config : RetryConfig} {root : Bytes → Option Dir} {id : Bytes} {request : MoveRequest}
  {tries : Nat} {w w' : World} {rest : Prog (Option Int)}

theorem AtWork.interfere (h : AtWork config root id request tries rest w)
    (rely : (attemptContract id request True).rely w w') :
    AtWork config root id request tries rest w' := by
  cases h with
  | «over» within safe => exact .«over» within (safe.interfere rely)
  | before within once safe => exact .before within once (safe.interfere rely)
  | after within uses safe => exact .after within uses (safe.interfere rely)

theorem AtRest.within (h : AtRest config root id request tries w) : tries ≤ config.attempts := by
  rcases h.stands with ⟨-, hwithin⟩ | ⟨r, -, htries, hbelow⟩
  · exact hwithin
  · omega

theorem AtWork.within (h : AtWork config root id request tries rest w) :
    tries ≤ config.attempts := by
  cases h with
  | «over» within safe => exact within
  | before within once safe => omega
  | after within uses safe => omega

/-- A worker picks the job up. -/
theorem AtRest.work {strategy : MoveStrategy} {nowMs : Int} (apart : NamesApart id request root)
    (there : w.db.state id ≠ none) (h : AtRest config root id request tries w) :
    AtWork config root id request tries (workOn config id request strategy nowMs) w := by
  obtain ⟨x, hx⟩ := Option.ne_none_iff_exists'.mp there
  obtain ⟨r, hr⟩ := Database.exists_row hx
  by_cases hover : Over id request w
  · exact .«over» h.within
      (attempt_workOn apart h.sealed ⟨r, hr, rfl⟩ fun hnot => absurd hover hnot)
  · have hwithin : tries ≤ r.attempts ∧ r.attempts < config.attempts := by
      rcases h.stands with ⟨hover', -⟩ | ⟨r', hr', hwithin⟩
      · exact absurd hover' hover
      · rw [hr] at hr'
        cases hr'
        exact hwithin
    exact .before hwithin linksOnce_workOn
      (attempt_workOn apart h.sealed ⟨r, hr, rfl⟩ fun _ => trivial)

/-- The worker makes a call. -/
theorem AtWork.call {c : Call} {next : Reply c → Prog (Option Int)} {fault : Option Fault}
    (h : AtWork config root id request tries (.call c next) w)
    (up : c.op.onStore = true → fault = none) :
    AtWork config root id request (if c.op.links then tries + 1 else tries)
      (next (perform c.op fault w).1) (perform c.op fault w).2 := by
  cases h with
  | «over» within safe =>
      obtain ⟨hlinks, hnext⟩ := safe.step up
      rw [if_neg fun h => hlinks h]
      exact .«over» within hnext
  | before within once safe =>
      obtain ⟨-, hnext⟩ := safe.step up
      obtain ⟨hsince, honce⟩ := once (perform c.op fault w).1
      by_cases hlinks : c.op.links = true
      · rw [if_pos hlinks]
        exact .after ⟨by omega, within.2⟩ (hsince hlinks).1 hnext
      · rw [if_neg hlinks]
        exact .before within honce hnext
  | after within uses safe =>
      obtain ⟨-, hnext⟩ := safe.step up
      have hlinks : c.op.links = false := uses.1
      rw [if_neg (by rw [hlinks]; nofun)]
      exact .after within (uses.2 _) hnext

/-- What a worker leaves behind that has made one attempt at most. -/
theorem Left.atRest {attempts : Nat} {mayLink : Prop} {due : Option Int}
    (h : Left root config id request attempts mayLink due w)
    (limit : config.retryMaxAttempts < 2 ^ 32) (within : tries ≤ config.attempts)
    (counted : mayLink → tries ≤ attempts + 1 ∧ attempts < config.attempts) :
    AtRest config root id request tries w ∧
      ∀ dueMs, due = some dueMs → ∃ r, w.db.row id = some r ∧ r.nextRetryMs = dueMs := by
  cases due with
  | none => exact ⟨⟨h.sealed, .inl ⟨h.over rfl, within⟩⟩, nofun⟩
  | some dueMs =>
      obtain ⟨hmay, hbelow, r, hr, hattempts, hdue⟩ := h.again dueMs rfl
      obtain ⟨htries, hleft⟩ := counted hmay
      have hlimit : attempts + 1 < config.retryMaxAttempts := by
        rw [RetryConfig.attempts] at hleft
        rw [Nat.mod_eq_of_lt (by omega)] at hbelow
        exact hbelow
      refine ⟨⟨h.sealed, .inr ⟨r, hr, by omega, ?_⟩⟩, ?_⟩
      · rw [RetryConfig.attempts]
        omega
      · intro dueMs' heq
        cases heq
        exact ⟨r, hr, hdue⟩

/-- The worker is done. -/
theorem AtWork.settle {due : Option Int} (limit : config.retryMaxAttempts < 2 ^ 32)
    (h : AtWork config root id request tries (.pure due) w) :
    AtRest config root id request tries w ∧
      ∀ dueMs, due = some dueMs → ∃ r, w.db.row id = some r ∧ r.nextRetryMs = dueMs := by
  have hwithin := h.within
  cases h with
  | «over» within safe => exact safe.result.atRest limit hwithin nofun
  | before within once safe => exact safe.result.atRest limit hwithin fun _ => by omega
  | after within uses safe => exact safe.result.atRest limit hwithin fun _ => within

/-- Somebody else makes a call. -/
theorem AtRest.call {c : Call} {fault : Option Fault}
    (h : AtRest config root id request tries w) (leaves : LeavesSource request w.fs.root c)
    (row : ∀ r, w.db.row id = some r → ∃ r', (perform c.op fault w).2.db.row id = some r' ∧
      r'.attempts = r.attempts ∧ (r'.job.state = r.job.state ∨ r'.job.state = .failed))
    (there : w.db.state id ≠ none) :
    AtRest config root id request tries (perform c.op fault w).2 := by
  obtain ⟨x, hx⟩ := Option.ne_none_iff_exists'.mp there
  obtain ⟨r, hr⟩ := Database.exists_row hx
  obtain ⟨r', hr', hattempts, hstate⟩ := row r hr
  have hr_state : w.db.state id = some r.job.state := by
    rw [Database.state, hr]
    rfl
  have hr_state' : (perform c.op fault w).2.db.state id = some r'.job.state := by
    rw [Database.state, hr']
    rfl
  refine ⟨⟨(perform_root _ _ _).trans h.sealed.root_eq, ?_⟩, ?_⟩
  · intro hpast
    rw [hr_state'] at hpast
    rcases hstate with hsame | hfailed
    · rw [hsame, ← hr_state] at hpast
      exact (h.sealed.holds hpast).call leaves
    · rw [hfailed] at hpast
      rcases hpast with hpast | hpast
      · cases hpast
      · cases hpast
  · rcases h.stands with ⟨hover, hwithin⟩ | ⟨r₀, hr₀, hwithin⟩
    · refine .inl ⟨?_, hwithin⟩
      rcases hover with hfailed | hgone
      · refine .inl ?_
        rw [hr_state] at hfailed
        rw [hr_state']
        rcases hstate with hsame | hfailed'
        · rw [hsame]
          exact hfailed
        · rw [hfailed']
      · exact .inr (hgone.call leaves)
    · rw [hr] at hr₀
      cases hr₀
      refine .inr ⟨r', hr', ?_⟩
      rw [hattempts]
      exact hwithin

end Job

/-! ## How a job gets about -/

/-- The job that a thread will put back into `runnable` if its `cancel` is refused. -/
def Thread.takesBack : Thread → Option Bytes
  | .cancelWaits id true | .cancelActs id true _ => some id
  | _ => none

section Step
variable {s t : System} {event : ManagerEvent} {id : Bytes}

theorem Thread.role_of_takesBack {thread : Thread} (h : thread.takesBack = some id) :
    thread.role = .cancels id := by
  unfold Thread.takesBack at h
  split at h
  all_goals cases h
  · rfl
  · rfl

theorem SystemStep.config (step : SystemStep s event t) :
    t.manager.config = s.manager.config := by
  cases step with
  | paused free h =>
      obtain ⟨-, -, rfl⟩ := Manager.pause_eq h
      rfl
  | resumed free h =>
      obtain ⟨-, -, rfl⟩ := Manager.resume_eq h
      rfl
  | pumped =>
      simp only [Manager.pump]
      split <;> rfl
  | claimedSubmit free h =>
      obtain ⟨-, -, rfl⟩ := Manager.claimSubmit_eq h
      rfl
  | claimedCancel free h =>
      obtain ⟨-, -, -, rfl⟩ := Manager.claimCancel_eq h
      rfl
  | claimedCandidate thread h =>
      obtain ⟨-, -, rfl⟩ := Manager.claimCandidate_eq h
      rfl
  | @published n id' request recorded storeMutex h => cases recorded <;> rfl
  | settledCancel thread =>
      simp only [System.setThread, Manager.settleCancel]
      split <;> rfl
  | pickedUp thread h =>
      obtain ⟨rest, requests, -, -, rfl⟩ := Manager.pickUp_eq h
      rfl
  | @settled n id' due thread => cases due <;> rfl
  | _ => rfl

/-- How a job comes to be runnable. -/
theorem SystemStep.runnable_back (step : SystemStep s event t) (h : id ∈ t.manager.runnable) :
    id ∈ s.manager.runnable ∨ id ∈ s.manager.paused ∨
      (∃ n, s.roles n = .claims id) ∨ (∃ n, (s.threads n).takesBack = some id) ∨
      ∃ nowMs dueMs, event = .pump nowMs ∧ s.manager.waiting.lookup id = some dueMs ∧
        dueMs ≤ nowMs := by
  cases step with
  | @paused n id' m free h' =>
      obtain ⟨-, -, rfl⟩ := Manager.pause_eq h'
      exact .inl (List.mem_of_mem_erase h)
  | @resumed n id' m free h' =>
      obtain ⟨-, hpaused, rfl⟩ := Manager.resume_eq h'
      rcases List.mem_append.mp h with hbefore | hnew
      · exact .inl hbefore
      · rw [List.mem_singleton.mp hnew]
        exact .inr (.inl hpaused)
  | @pumped nowMs =>
      simp only [Manager.pump] at h
      split at h
      · exact .inl h
      rcases List.mem_append.mp h with hbefore | hdue
      · exact .inl hbefore
      · have hfilter := List.of_mem_filter ((Manager.due_perm nowMs).mem_iff.mp hdue)
        obtain ⟨hany, -⟩ := Bool.and_eq_true_iff.mp hfilter
        obtain ⟨dueMs, hlookup, hle⟩ := Option.any_eq_true _ _ |>.mp hany
        exact .inr (.inr (.inr (.inr ⟨nowMs, dueMs, rfl, hlookup, of_decide_eq_true hle⟩)))
  | claimedSubmit free h' =>
      obtain ⟨-, -, rfl⟩ := Manager.claimSubmit_eq h'
      exact .inl h
  | claimedCancel free h' =>
      obtain ⟨-, -, -, rfl⟩ := Manager.claimCancel_eq h'
      exact .inl (List.mem_of_mem_erase h)
  | claimedCandidate thread h' =>
      obtain ⟨-, -, rfl⟩ := Manager.claimCandidate_eq h'
      exact .inl h
  | @published n id' request recorded storeMutex h' =>
      cases recorded with
      | error message => exact .inl h
      | ok _ =>
          rcases List.mem_append.mp h with hbefore | hnew
          · exact .inl hbefore
          · rw [List.mem_singleton.mp hnew]
            exact .inr (.inr (.inl ⟨n, Thread.role_of_publishes h'⟩))
  | @settledCancel n id' wasRunnable outcome error thread =>
      simp only [System.setThread, Manager.settleCancel] at h
      split at h
      · rename_i hback
        rcases List.mem_append.mp h with hbefore | hnew
        · exact .inl hbefore
        · refine .inr (.inr (.inr (.inl ⟨n, ?_⟩)))
          rw [List.mem_singleton.mp hnew, thread, hback.2]
          rfl
      · exact .inl h
  | pickedUp thread h' =>
      obtain ⟨rest, requests, hrunnable, -, rfl⟩ := Manager.pickUp_eq h'
      refine .inl ?_
      rw [hrunnable]
      exact List.mem_cons_of_mem _ h
  | @settled n id' due thread => cases due <;> exact .inl h
  | _ => exact .inl h

theorem QuietStep.takesBack {thread thread' : Thread} (h : QuietStep thread thread')
    (takes : thread'.takesBack = some id) : thread.takesBack = some id := by
  cases h with
  | locked hlocked =>
      cases thread with
      | cancelWaits id' wasRunnable =>
          cases hlocked
          cases wasRunnable with
          | true => exact takes
          | false => cases takes
      | submitWaits | retryWaits =>
          cases hlocked
          cases takes
      | _ => cases hlocked
  | _ => cases takes

/-- A `cancel` takes back only what it found runnable. -/
theorem SystemStep.takesBack (step : SystemStep s event t) {n : Nat}
    (h : (t.threads n).takesBack = some id) :
    (s.threads n).takesBack = some id ∨ id ∈ s.manager.runnable := by
  have hback : ∀ {s' : System} {k : Nat} {thread : Thread}, t = s'.setThread k thread →
      s'.threads = s.threads →
      (thread.takesBack = some id → (s.threads k).takesBack = some id ∨ id ∈ s.manager.runnable) →
      (s.threads n).takesBack = some id ∨ id ∈ s.manager.runnable := by
    rintro s' k thread rfl hthreads hthread
    by_cases hn : n = k
    · subst hn
      rw [System.threads_setThread_self] at h
      exact hthread h
    · rw [System.threads_setThread_of_ne hn, hthreads] at h
      exact .inl h
  cases step with
  | quiet actor quiet => exact hback rfl rfl fun hthread => .inl (quiet.takesBack hthread)
  | @called k fault c rest calling =>
      refine hback rfl rfl fun hthread => .inl ?_
      generalize s.threads k = thread at calling
      cases calling with
      | @cancel id' wasRunnable c next =>
          cases wasRunnable with
          | true => exact hthread
          | false => cases hthread
      | _ => cases hthread
  | pumped | tuned => exact .inl h
  | @restarted workers =>
      rcases restarted_thread s workers n with hsame | ⟨-, hwaiting⟩
      · simp only [hsame] at h
        exact .inl h
      · simp only [hwaiting] at h
        cases h
  | @claimedCancel k id' wasRunnable m free hclaim =>
      refine hback rfl rfl fun hthread => .inr ?_
      obtain ⟨-, -, hwas, -⟩ := Manager.claimCancel_eq hclaim
      cases wasRunnable with
      | true =>
          cases hthread
          exact of_decide_eq_true hwas.symm
      | false => cases hthread
  | @published k id' request recorded storeMutex hpublishes =>
      refine hback rfl rfl fun hthread => ?_
      cases recorded <;> cases hthread
  | _ => exact hback rfl rfl nofun

/-- The request of a job that was known before is the one it had. -/
theorem Solo.lookup_before (inv : Solo s) (step : SystemStep s event t)
    (known : id ∈ s.manager.requests) {request : MoveRequest}
    (h : t.manager.requests.lookup id = some request) :
    s.manager.requests.lookup id = some request := by
  obtain ⟨request', hrequest'⟩ := Option.isSome_iff_exists.mp (AList.lookup_isSome.mpr known)
  rw [step.lookup inv.claims hrequest'] at h
  rw [hrequest', h]

/-- A job that was not known before has just been published. -/
theorem Solo.known_or_fresh (inv : Solo s) (step : SystemStep s event t) {request : MoveRequest}
    (h : t.manager.requests.lookup id = some request) :
    s.manager.requests.lookup id = some request ∨
      id ∉ s.manager.requests ∧ Fresh id t.world := by
  rcases step.lookup_back inv.registry h with hbefore | ⟨n, hpublishes⟩
  · exact .inl hbefore
  · have hrecorded : (s.threads n).recorded = some id :=
      Thread.recorded_of_publishes hpublishes rfl
    exact .inr ⟨inv.claims.fresh n id (Thread.role_of_recorded hrecorded),
      inv.fresh_kept step hrecorded⟩

end Step

/-! ## The invariant -/

/-- The due time of a job that is waiting is the one on record, and a job that may be
picked up is due. -/
def Paced (id : Bytes) (v : Tally) : Prop :=
  ∀ r, v.system.world.db.row id = some r →
    (∀ dueMs, v.system.manager.waiting.lookup id = some dueMs → r.nextRetryMs = dueMs) ∧
    (id ∈ v.system.manager.runnable ∨ (∃ n, (v.system.threads n).takesBack = some id) →
      0 < r.attempts → r.nextRetryMs ≤ v.clock)

structure Metered (config : RetryConfig) (root : Bytes → Option Dir) (id : Bytes)
    (request : MoveRequest) (v : Tally) : Prop where
  solo : Solo v.system
  config_eq : v.system.manager.config = config
  root_eq : v.system.world.fs.root = root
  untried : id ∉ v.system.manager.requests → v.tries id = 0
  rests : v.system.manager.requests.lookup id = some request →
    (∀ n rest, v.system.threads n ≠ .working id rest) →
      AtRest config root id request (v.tries id) v.system.world
  works : v.system.manager.requests.lookup id = some request →
    ∀ n rest, v.system.threads n = .working id rest →
      AtWork config root id request (v.tries id) rest v.system.world
  held : id ∈ v.system.manager.paused → v.paused id = true
  paced : v.system.manager.requests.lookup id = some request → v.paused id = false → Paced id v

section Run
variable {config : RetryConfig} {root : Bytes → Option Dir} {id : Bytes} {request : MoveRequest}
  {v : Tally} {t : System} {event : ManagerEvent}

theorem Tally.count_of_other
    (other : ∀ n fault c next, event = .call n fault →
      v.system.threads n ≠ .working id (.call c next)) : v.count event id = v.tries id := by
  cases event with
  | call n fault =>
      simp only [Tally.count]
      cases hthread : v.system.threads n with
      | working id' rest =>
          cases rest with
          | pure due => rfl
          | call c next =>
              simp only
              split
              · rw [Function.update_of_ne]
                rintro rfl
                exact other n fault c next rfl hthread
              · rfl
      | _ => rfl
  | _ => rfl

theorem Tally.count_of_own {n : Nat} {fault : Option Fault} {c : Call}
    {next : Reply c → Prog (Option Int)}
    (working : v.system.threads n = .working id (.call c next)) :
    v.count (.call n fault) id = if c.op.links then v.tries id + 1 else v.tries id := by
  simp only [Tally.count, working]
  split
  · rw [Function.update_self]
  · rfl

theorem Thread.role_of_working {thread : Thread} {rest : Prog (Option Int)}
    (h : thread = .working id rest) : thread.role = .works id := by
  rw [h]
  rfl

/-- What somebody else's call makes of the row, and of the source. -/
theorem Metered.foreign (inv : Metered config root id request v) (calm : Calm id request v event)
    (known : v.system.manager.requests.lookup id = some request) {n : Nat} {fault : Option Fault}
    {c : Call} {rest : Reply c → Thread} (hevent : event = .call n fault)
    (calling : Calling (v.system.threads n) c rest) (other : v.system.roles n ≠ .works id) :
    LeavesSource request v.system.world.fs.root c ∧
      ∀ r, v.system.world.db.row id = some r →
        ∃ r', (perform c.op fault v.system.world).2.db.row id = some r' ∧
          (r'.attempts = r.attempts ∧ r'.nextRetryMs = r.nextRetryMs) ∧
          (r' = r ∨ v.system.roles n = .cancels id ∧ r'.job.state = .failed) := by
  subst hevent
  have hknown : id ∈ v.system.manager.requests := AList.lookup_isSome.mp (by rw [known]; rfl)
  refine ⟨calm.source other ⟨c, rest⟩ calling.next, fun r hr => ?_⟩
  exact inv.solo.row calling (.inl hknown) other hr

/-- A job that nobody has is left standing by everybody's calls. -/
theorem Metered.rests_on (inv : Metered config root id request v) (calm : Calm id request v event)
    (step : SystemStep v.system event t)
    (known : v.system.manager.requests.lookup id = some request)
    (idle : ∀ n rest, v.system.threads n ≠ .working id rest) :
    AtRest config root id request (v.count event id) t.world := by
  have hrest := inv.rests known idle
  rw [Tally.count_of_other fun n fault c next _ => idle n _]
  rcases step.world with hworld | ⟨n, fault, c, rest, hevent, calling, hworld⟩
  · rw [hworld]
    exact hrest
  · have hother : v.system.roles n ≠ .works id := by
      intro hworks
      obtain ⟨rest, hworking⟩ := Thread.working_of_role hworks
      exact idle n rest hworking
    obtain ⟨hleaves, hrow⟩ := inv.foreign calm known hevent calling hother
    rw [hworld]
    refine hrest.call hleaves (fun r hr => ?_) ?_
    · obtain ⟨r', hr', ⟨hattempts, -⟩, hsame⟩ := hrow r hr
      refine ⟨r', hr', hattempts, ?_⟩
      rcases hsame with rfl | ⟨-, hfailed⟩
      · exact .inl rfl
      · exact .inr hfailed
    · exact inv.solo.registry.rows id (.inl (AList.lookup_isSome.mp (by rw [known]; rfl)))

/-- A job that a worker has is left to it by everybody else. -/
theorem Metered.rely (inv : Metered config root id request v) (calm : Calm id request v event)
    (step : SystemStep v.system event t)
    (known : v.system.manager.requests.lookup id = some request) {n : Nat}
    {rest : Prog (Option Int)} (working : v.system.threads n = .working id rest)
    (other : event.actor ≠ some n) :
    (attemptContract id request True).rely v.system.world t.world := by
  have hworks : v.system.roles n = .works id := Thread.role_of_working working
  rcases step.world with hworld | ⟨k, fault, c, next, hevent, calling, hworld⟩
  · rw [hworld]
    exact ⟨rfl, rfl, fun h => h⟩
  · have hk : v.system.roles k ≠ .works id := by
      intro hk
      rw [hevent, inv.solo.dispatch.worksAlone k n id hk hworks] at other
      exact other rfl
    obtain ⟨hleaves, hrow⟩ := inv.foreign calm known hevent calling hk
    have hthere : v.system.world.db.state id ≠ none :=
      inv.solo.registry.rows id (.inl (AList.lookup_isSome.mp (by rw [known]; rfl)))
    obtain ⟨x, hx⟩ := Option.ne_none_iff_exists'.mp hthere
    obtain ⟨r, hr⟩ := Database.exists_row hx
    obtain ⟨r', hr', -, hsame⟩ := hrow r hr
    rw [hworld]
    refine ⟨?_, perform_root _ _ _, fun hgone => hgone.call hleaves⟩
    rcases hsame with rfl | ⟨hcancels, -⟩
    · rw [hr', hr]
    · -- nobody cancels a job that a worker has
      refine absurd ?_ (inv.solo.withdrawn k id hcancels)
      rw [Manager.Owns, Manager.places, if_pos (inv.solo.dispatch.works n id hworks)]
      omega

theorem Metered.root_step (inv : Metered config root id request v)
    (step : SystemStep v.system event t) : t.world.fs.root = root := by
  rcases step.world with hworld | ⟨n, fault, c, rest, -, -, hworld⟩
  · rw [hworld]
    exact inv.root_eq
  · rw [hworld]
    exact (perform_root _ _ _).trans inv.root_eq

theorem Metered.rests_step (inv : Metered config root id request v)
    (limit : config.retryMaxAttempts < 2 ^ 32) (calm : Calm id request v event)
    (step : SystemStep v.system event t)
    (known : t.manager.requests.lookup id = some request)
    (idle : ∀ n rest, t.threads n ≠ .working id rest) :
    AtRest config root id request (v.count event id) t.world := by
  rcases inv.solo.known_or_fresh step known with hbefore | ⟨hunknown, r, hr, hattempts, hqueued⟩
  · by_cases hidle : ∀ n rest, v.system.threads n ≠ .working id rest
    · exact inv.rests_on calm step hbefore hidle
    · -- the worker that had the job has settled it
      push Not at hidle
      obtain ⟨n, rest, hworking⟩ := hidle
      rcases step.keepsWorking hworking with ⟨rest', hstill⟩ | ⟨due, rfl, rfl, -, hworld⟩
      · exact absurd hstill (idle n rest')
      · rw [hworld]
        exact ((inv.works hbefore n _ hworking).settle limit).1
  · have hcount : v.count event id = 0 := by
      rw [Tally.count_of_other, inv.untried hunknown]
      intro n fault c next _ hworking
      exact hunknown (inv.solo.registry.works n id (Thread.role_of_working hworking))
    rw [hcount]
    refine ⟨⟨inv.root_step step, ?_⟩, .inr ⟨r, hr, Nat.zero_le _, ?_⟩⟩
    · intro hpast
      rw [Database.state, hr] at hpast
      simp only [Option.map_some, hqueued] at hpast
      rcases hpast with hpast | hpast
      · cases hpast
      · cases hpast
    · rw [hattempts, RetryConfig.attempts]
      omega

theorem Metered.works_step (inv : Metered config root id request v)
    (apart : NamesApart id request root) (calm : Calm id request v event)
    (step : SystemStep v.system event t)
    (known : t.manager.requests.lookup id = some request) (n : Nat) (rest : Prog (Option Int))
    (working : t.threads n = .working id rest) :
    AtWork config root id request (v.count event id) rest t.world := by
  have hlookup : id ∈ v.system.manager.requests →
      v.system.manager.requests.lookup id = some request :=
    fun hknown => inv.solo.lookup_before step hknown known
  rcases step.working working with ⟨hsame, hother⟩ | ⟨fault, c, next, rfl, hcalled, rfl, hworld⟩ |
    ⟨nowMs, request', m, rfl, hpick, rfl, hmanager⟩
  · have hworks : v.system.roles n = .works id := Thread.role_of_working hsame
    have hbefore := hlookup (inv.solo.registry.works n id hworks)
    have hcount : v.count event id = v.tries id := by
      refine Tally.count_of_other fun k fault c next hevent hk => hother ?_
      rw [hevent]
      exact congrArg some (inv.solo.dispatch.worksAlone k n id (Thread.role_of_working hk) hworks)
    rw [hcount]
    exact (inv.works hbefore n rest hsame).interfere (inv.rely calm step hbefore hsame hother)
  · have hworks : v.system.roles n = .works id := Thread.role_of_working hcalled
    have hbefore := hlookup (inv.solo.registry.works n id hworks)
    have calling : Calling (v.system.threads n) c fun reply => .working id (next reply) := by
      rw [hcalled]
      exact .working
    rw [Tally.count_of_own hcalled, hworld]
    exact (inv.works hbefore n _ hcalled).call (calm.store.assume calling)
  · -- a runnable job is active nowhere
    obtain ⟨rest, requests, hrunnable, -, -⟩ := Manager.pickUp_eq hpick
    have hmem : id ∈ v.system.manager.runnable := by
      rw [hrunnable]
      exact List.mem_cons_self
    have hknown : id ∈ v.system.manager.requests := inv.solo.registry.known id (.inl hmem)
    have hidle : ∀ k rest, v.system.threads k ≠ .working id rest := by
      intro k rest hk
      have hactive := inv.solo.dispatch.works k id (Thread.role_of_working hk)
      exact (inv.solo.dispatch.onePlace.runnable id hmem).2.2 hactive
    have hrequest : request' = request := by
      rw [hmanager, Manager.pickUp_lookup hpick] at known
      exact Option.some.inj known
    have hconfig : m.config = config := by
      rw [← hmanager, step.config, inv.config_eq]
    have hworld : t.world = v.system.world := by
      rcases step.world with hworld | ⟨k, fault, c, next, hevent, -, -⟩
      · exact hworld
      · cases hevent
    rw [hrequest, hconfig, hworld]
    exact (inv.rests (hlookup hknown) hidle).work apart
      (inv.solo.registry.rows id (.inl hknown))

theorem Calm.clock_le (calm : Calm id request v event) : v.clock ≤ event.time.getD v.clock := by
  cases htime : event.time with
  | none => exact le_refl _
  | some nowMs => exact calm.clock nowMs htime

/-- A job that a worker has is in no other place. -/
theorem Solo.elsewhere {s : System} (inv : Solo s) {n : Nat} {rest : Prog (Option Int)}
    (working : s.threads n = .working id rest) :
    id ∉ s.manager.runnable ∧ id ∉ s.manager.waiting ∧ id ∉ s.manager.paused ∧
      ∀ k, (s.threads k).takesBack ≠ some id := by
  have hactive : id ∈ s.manager.active :=
    inv.dispatch.works n id (Thread.role_of_working working)
  have hplace := inv.dispatch.onePlace
  refine ⟨fun h => (hplace.runnable id h).2.2 hactive, fun h => (hplace.waiting id h).2 hactive,
    fun h => hplace.paused id h hactive, fun k h => ?_⟩
  refine inv.withdrawn k id (Thread.role_of_takesBack h) ?_
  rw [Manager.Owns, Manager.places, if_pos hactive]
  omega

/-- The worker that has the job settles it, or the job stays where it is. -/
theorem Metered.paced_working (inv : Metered config root id request v)
    (limit : config.retryMaxAttempts < 2 ^ 32)
    (step : SystemStep v.system event t)
    (known : v.system.manager.requests.lookup id = some request) {n : Nat}
    {rest : Prog (Option Int)} (working : v.system.threads n = .working id rest)
    {r : Row} (hr : t.world.db.row id = some r) :
    (∀ dueMs, t.manager.waiting.lookup id = some dueMs → r.nextRetryMs = dueMs) ∧
      id ∉ t.manager.runnable ∧ ∀ k, (t.threads k).takesBack ≠ some id := by
  obtain ⟨hrunnable, hwaiting, hpaused, htakes⟩ := inv.solo.elsewhere working
  have hknown : id ∈ v.system.manager.requests := AList.lookup_isSome.mp (by rw [known]; rfl)
  have hnotRunnable : id ∉ t.manager.runnable := by
    intro h
    rcases step.runnable_back h with h | h | ⟨k, h⟩ | ⟨k, h⟩ | ⟨nowMs, dueMs, -, h, -⟩
    · exact hrunnable h
    · exact hpaused h
    · exact inv.solo.claims.fresh k id h hknown
    · exact htakes k h
    · exact hwaiting (AList.lookup_isSome.mp (by rw [h]; rfl))
  refine ⟨fun dueMs hdue => ?_, hnotRunnable, fun k h => ?_⟩
  · rcases step.waiting_lookup hdue with hbefore | ⟨k, rfl, hthread⟩
    · exact absurd (AList.lookup_isSome.mp (by rw [hbefore]; rfl)) hwaiting
    · obtain ⟨r', hr', hnext⟩ := ((inv.works known k _ hthread).settle limit).2 dueMs rfl
      have hworld : t.world = v.system.world := by
        rcases step.world with hworld | ⟨k, fault, c, next, hevent, -, -⟩
        · exact hworld
        · cases hevent
      rw [hworld, hr'] at hr
      cases hr
      exact hnext
  · rcases step.takesBack h with h | h
    · exact htakes k h
    · exact hrunnable h

/-- What is on record of a job that nobody has, as far as its next attempt goes. -/
theorem Metered.schedule (inv : Metered config root id request v) (calm : Calm id request v event)
    (step : SystemStep v.system event t)
    (known : v.system.manager.requests.lookup id = some request)
    (idle : ∀ n rest, v.system.threads n ≠ .working id rest) {r : Row}
    (hr : t.world.db.row id = some r) :
    ∃ r₀, v.system.world.db.row id = some r₀ ∧ r.attempts = r₀.attempts ∧
      r.nextRetryMs = r₀.nextRetryMs := by
  rcases step.world with hworld | ⟨n, fault, c, rest, hevent, calling, hworld⟩
  · rw [hworld] at hr
    exact ⟨r, hr, rfl, rfl⟩
  · have hother : v.system.roles n ≠ .works id := by
      intro hworks
      obtain ⟨rest, hworking⟩ := Thread.working_of_role hworks
      exact idle n rest hworking
    have hthere : v.system.world.db.state id ≠ none :=
      inv.solo.registry.rows id (.inl (AList.lookup_isSome.mp (by rw [known]; rfl)))
    obtain ⟨x, hx⟩ := Option.ne_none_iff_exists'.mp hthere
    obtain ⟨r₀, hr₀⟩ := Database.exists_row hx
    obtain ⟨-, hrow⟩ := inv.foreign calm known hevent calling hother
    obtain ⟨r', hr', hsame, -⟩ := hrow r₀ hr₀
    rw [hworld, hr'] at hr
    cases hr
    exact ⟨r₀, hr₀, hsame⟩

theorem Metered.paced_step {v' : Tally} (inv : Metered config root id request v)
    (limit : config.retryMaxAttempts < 2 ^ 32) (calm : Calm id request v event)
    (step : SystemStep v.system event v'.system) (clock : v'.clock = event.time.getD v.clock)
    (known : v'.system.manager.requests.lookup id = some request)
    (unpaused : v.paused id = false) : Paced id v' := by
  intro r hr
  rcases inv.solo.known_or_fresh step known with hbefore | ⟨hunknown, r', hr', hattempts, -⟩
  · by_cases hidle : ∀ n rest, v.system.threads n ≠ .working id rest
    · obtain ⟨r₀, hr₀, hattempts, hnext⟩ := inv.schedule calm step hbefore hidle hr
      obtain ⟨hwaits, hdue⟩ := inv.paced hbefore unpaused r₀ hr₀
      have hclock := calm.clock_le
      have hknown : id ∈ v.system.manager.requests :=
        AList.lookup_isSome.mp (by rw [hbefore]; rfl)
      rw [hattempts, hnext, clock]
      refine ⟨fun dueMs hlookup => ?_, fun hready hsome => ?_⟩
      · rcases step.waiting_lookup hlookup with hlookup | ⟨n, -, hthread⟩
        · exact hwaits dueMs hlookup
        · exact absurd hthread (hidle n _)
      · have hold : id ∈ v.system.manager.runnable ∨
            (∃ n, (v.system.threads n).takesBack = some id) → r₀.nextRetryMs ≤
              event.time.getD v.clock := fun h => (hdue h hsome).trans hclock
        rcases hready with hrunnable | ⟨n, htakes⟩
        · rcases step.runnable_back hrunnable with h | h | ⟨k, h⟩ | h | ⟨nowMs, dueMs, rfl, h, hle⟩
          · exact hold (.inl h)
          · rw [inv.held h] at unpaused
            cases unpaused
          · exact absurd hknown (inv.solo.claims.fresh k id h)
          · exact hold (.inr h)
          · rw [hwaits dueMs h]
            exact hle
        · rcases step.takesBack htakes with h | h
          · exact hold (.inr ⟨n, h⟩)
          · exact hold (.inl h)
    · push Not at hidle
      obtain ⟨n, rest, hworking⟩ := hidle
      obtain ⟨hwaits, hrunnable, htakes⟩ :=
        inv.paced_working limit step hbefore hworking hr
      refine ⟨hwaits, ?_⟩
      rintro (h | ⟨k, h⟩)
      · exact absurd h hrunnable
      · exact absurd h (htakes k)
  · -- a job that has just been published has not been tried, and is not waiting
    rw [hr'] at hr
    cases hr
    refine ⟨fun dueMs hlookup => ?_, fun _ hsome => by omega⟩
    rcases step.waiting_lookup hlookup with hlookup | ⟨n, -, hthread⟩
    · refine absurd (inv.solo.registry.known id (.inr (.inl ?_))) hunknown
      exact AList.lookup_isSome.mp (by rw [hlookup]; rfl)
    · exact absurd (inv.solo.registry.works n id (Thread.role_of_working hthread)) hunknown

theorem Metered.step {v' : Tally} (inv : Metered config root id request v)
    (limit : config.retryMaxAttempts < 2 ^ 32) (apart : NamesApart id request root)
    (calm : Calm id request v event) (h : v.act event = some v') :
    Metered config root id request v' := by
  obtain ⟨t, ht, rfl⟩ := Option.map_eq_some_iff.mp h
  have hstep := systemStep ht
  refine ⟨inv.solo.step calm.command ht, hstep.config.trans inv.config_eq, inv.root_step hstep,
    ?_, inv.rests_step limit calm hstep, inv.works_step apart calm hstep, ?_, ?_⟩
  · intro hunknown
    have hbefore : id ∉ v.system.manager.requests := fun hknown => hunknown (hstep.requests hknown)
    refine (Tally.count_of_other fun n fault c next _ hworking => hbefore ?_).trans
      (inv.untried hbefore)
    exact inv.solo.registry.works n id (Thread.role_of_working hworking)
  · intro hpaused
    simp only [Bool.or_eq_true, decide_eq_true_eq]
    exact .inr hpaused
  · intro hknown hunpaused
    simp only [Bool.or_eq_false_iff] at hunpaused
    exact inv.paced_step limit calm hstep rfl hknown hunpaused.1

end Run

theorem metered_started (config : RetryConfig) (strategy : MoveStrategy) (w : World)
    (workers : Nat → Bool) (clock : Int) (id : Bytes) (request : MoveRequest) :
    Metered config w.fs.root id request
      (Tally.started config strategy w workers clock) :=
  ⟨solo_started config strategy w workers, rfl, rfl, fun _ => rfl, nofun, nofun,
    fun h => absurd h (Finset.notMem_empty id), nofun⟩

/-! ## The limit and the delay -/

structure Spaced (config : RetryConfig) (id : Bytes) (request : MoveRequest) (v : Tally) :
    Prop where
  bounded : v.tries id ≤ max 1 config.retryMaxAttempts
  /-- The last attempt has been counted, no worker has the job, and the source is where it
  was. -/
  gaveUp : ∀ r, v.system.world.db.row id = some r → max 1 config.retryMaxAttempts ≤ r.attempts →
    id ∉ v.system.manager.active → ¬ SourceGone request v.system.world → r.job.state = .failed
  /-- A worker may pick the job up, and this is not its first attempt. -/
  spaced : v.paused id = false → ∀ nowMs m, v.system.manager.pickUp = some (id, request, m) →
    v.clock ≤ nowMs → ∀ r, v.system.world.db.row id = some r → 0 < r.attempts →
      r.nextRetryMs ≤ nowMs

theorem attempts_bounded_and_spaced (config : RetryConfig) (strategy : MoveStrategy) (w : World)
    (workers : Nat → Bool) (clock : Int) (id : Bytes) (request : MoveRequest) (v : Tally)
    (limit : config.retryMaxAttempts < 2 ^ 32) (apart : NamesApart id request w.fs.root)
    (reach : GuardedReach Tally.act (Calm id request)
      (Tally.started config strategy w workers clock) v)
    (known : v.system.manager.requests.lookup id = some request) :
    Spaced config id request v := by
  have inv : Metered config w.fs.root id request v :=
    GuardedReach.invariant (Metered config w.fs.root id request)
      (fun calm h inv => inv.step limit apart calm h)
      (metered_started config strategy w workers clock id request) reach
  refine ⟨?_, ?_, ?_⟩
  · by_cases hidle : ∀ n rest, v.system.threads n ≠ .working id rest
    · exact (inv.rests known hidle).within
    · push Not at hidle
      obtain ⟨n, rest, hworking⟩ := hidle
      exact (inv.works known n rest hworking).within
  · intro r hr hreached hidle hthere
    have hrest := inv.rests known fun n rest hworking =>
      hidle (inv.solo.dispatch.works n id (Thread.role_of_working hworking))
    rcases hrest.stands with ⟨hfailed | hgone, -⟩ | ⟨r', hr', -, hbelow⟩
    · rw [Database.state, hr] at hfailed
      exact Option.some.inj hfailed
    · exact absurd hgone hthere
    · rw [hr] at hr'
      cases hr'
      rw [RetryConfig.attempts] at hbelow
      omega
  · intro hunpaused nowMs m hpick hclock r hr hsome
    obtain ⟨rest, requests, hrunnable, -, -⟩ := Manager.pickUp_eq hpick
    have hmem : id ∈ v.system.manager.runnable := by
      rw [hrunnable]
      exact List.mem_cons_self
    exact ((inv.paced known hunpaused r hr).2 (.inl hmem) hsome).trans hclock

/-- The rename fails three times, each time at the first moment it is tried again. -/
def sampleGivesUp : List ManagerEvent :=
  sampleBackoff ++ ([.pump 1000, .pickUp 3 1000] : List ManagerEvent) ++
    List.replicate 7 (ManagerEvent.call 3 none) ++
    ([.call 3 (some EXDEV), .call 3 none, .call 3 none, .proceed 3, .pump 3000,
      .pickUp 3 3000] : List ManagerEvent) ++
    List.replicate 7 (ManagerEvent.call 3 none) ++
    ([.call 3 (some EXDEV)] : List ManagerEvent) ++
    List.replicate 5 (ManagerEvent.call 3 none) ++ ([.proceed 3] : List ManagerEvent)

def sampleTally : Tally := ⟨sampleSystem, fun _ => 0, fun _ => false, 0⟩

theorem sampleGivesUp_calm :
    AllSteps Tally.act (Calm (lit "j") sampleRequest) sampleGivesUp sampleTally := by
  -- threads other than 1 and 3 have no part in it
  have hmeet : AllSteps Tally.act (fun v event => StoreWorks v.system event ∧
      (event.begins ≠ none → (v.system.threads 1).inCommand = false ∧
        (v.system.threads 3).inCommand = false) ∧
      (∀ nowMs ∈ event.time, v.clock ≤ nowMs) ∧
      OwnSource (lit "j") sampleRequest v.system event) sampleGivesUp sampleTally := by
    decide +kernel
  refine AllSteps.refine (fun v => ∀ n, n ∉ [1, 3] → (v.system.threads n).inCommand = false)
    (fun event => NoStart event ∧ ∀ n ∈ event.actor, n ∈ [1, 3]) ?_ ?_ (by decide) ?_ hmeet
  · rintro v v' event ⟨hstart, hactor⟩ hact hquiet n hn
    obtain ⟨t, ht, rfl⟩ := Option.map_eq_some_iff.mp hact
    have hsame : t.threads n = v.system.threads n :=
      (systemStep ht).others (fun h => hn (hactor n h)) hstart
    simp only [hsame]
    exact hquiet n hn
  · rintro v event - hquiet ⟨hstore, hcommand, hclock, hsource⟩
    refine ⟨hstore, fun hbegins n => ?_, hclock, hsource⟩
    obtain ⟨hone, hthree⟩ := hcommand hbegins
    by_cases hn : n ∈ [1, 3]
    · simp only [List.mem_cons, List.not_mem_nil, or_false] at hn
      rcases hn with rfl | rfl
      · exact hone
      · exact hthree
    · exact hquiet n hn
  · intro n _
    rcases System.started_thread sampleConfig .renameNoReplace _ (fun n => n = 3 || n = 4) n with
      h | h
    · exact congrArg Thread.inCommand h
    · exact congrArg Thread.inCommand h

theorem attempts_bounded_and_spaced_sample :
    ∃ v, replay Tally.act sampleGivesUp sampleTally = some v ∧ v.tries (lit "j") = 3 ∧
      v.system.world.db.state (lit "j") = some .failed ∧
      Spaced sampleConfig (lit "j") sampleRequest v := by
  obtain ⟨v, hv, hcheck⟩ := (Option.any_eq_true _ _).mp
    (by decide +kernel : (replay Tally.act sampleGivesUp sampleTally).any (fun v =>
      decide (v.tries (lit "j") = 3 ∧ v.system.world.db.state (lit "j") = some .failed ∧
        v.system.manager.requests.lookup (lit "j") = some sampleRequest)) = true)
  obtain ⟨htries, hfailed, hknown⟩ := of_decide_eq_true hcheck
  have hapart : NamesApart (lit "j") sampleRequest
      (sampleWorld .queued [sampleSource]).fs.root := by
    intro sourceDir destDir hsource hdest
    cases hsource
    cases hdest
    decide
  have hreach : GuardedReach Tally.act (Calm (lit "j") sampleRequest) sampleTally v :=
    GuardedReach.of_replay sampleGivesUp_calm hv
  exact ⟨v, hv, htries, hfailed, attempts_bounded_and_spaced sampleConfig .renameNoReplace
    { fs := (sampleWorld .queued [sampleSource]).fs, db := ∅ } (fun n => n = 3 || n = 4) 0
    (lit "j") sampleRequest v (by decide) hapart hreach hknown⟩

end FileMover
