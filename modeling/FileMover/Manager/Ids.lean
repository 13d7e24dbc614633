import FileMover.Manager.Filing

/-!
# Ids are not reused

`submit` takes the id its caller chose or one made from a sequence number, `retry`
looks for a free one; what follows does not depend on where an id comes from, nor on a
number being new. The insert decides: a row is never replaced or taken away, so the
store lets every id through once, whichever process asks.

A process may end at any point and another one be started on the store it leaves.
-/

namespace FileMover

open Framework

/-- One process after the other on the same store. -/
structure Lives where
  system : System
  /-- The job that a thread was last asked to retry. -/
  asked : Nat → Bytes
  /-- The ids with which `submit` and `retry` have returned `Ok`, over all processes. -/
  yielded : List Bytes

inductive LivesEvent
  | manager (event : ManagerEvent)
  | restart (config : RetryConfig) (strategy : MoveStrategy) (workers : Nat → Bool)

/-- Inside `submit` or `retry`. -/
def Thread.creates : Thread → Bool
  | .submitWaits _ _ _ | .submitRecords _ _ _ | .submitPublishes _ _ _ => true
  | .retryWaits _ _ _ | .retryLoads _ _ _ _ | .retryProbes _ _ _ _ _ => true
  | .retryRecords _ _ _ => true
  | _ => false

/-- A step of a `submit` or a `retry`. -/
def ManagerEvent.creates (s : System) : ManagerEvent → Bool
  | .submit _ _ _ _ | .retry _ _ _ => true
  | .lock n | .call n _ | .proceed n => (s.threads n).creates
  | _ => false

namespace Lives

/-- The id of a command that returns `Ok` with this event. -/
def yields (s : System) : ManagerEvent → List Bytes
  | .proceed n =>
      match (s.threads n).publishes with
      | some (id, _, .ok _) => [id]
      | _ => []
  | _ => []

def asking (asked : Nat → Bytes) : ManagerEvent → Nat → Bytes
  | .retry n id _ => Function.update asked n id
  | _ => asked

def act (l : Lives) : LivesEvent → Option Lives
  | .manager event =>
      (l.system.act event).map fun s =>
        { system := s
          asked := asking l.asked event
          yielded := l.yielded ++ yields l.system event }
  | .restart config strategy workers =>
      some { l with system := System.started config strategy l.system.world workers }

def begun (s : System) : Lives := ⟨s, fun _ => [], []⟩

end Lives

/-- Every row that was there is there unchanged. -/
def KeepsRows (s t : System) : Prop :=
  ∀ key r, s.world.db.lookup key = some r → t.world.db.lookup key = some r

/-- The step has made a row for the candidate: a queued job that replaces this one, with
the same paths. -/
def RecordsRetry (s t : System) (id candidate : Bytes) : Prop :=
  s.world.db.row candidate = none ∧ ∃ r r', t.world.db.row candidate = some r ∧
    r.job.state = .queued ∧ r.retryOf = id ∧ s.world.db.row id = some r' ∧
    r.job.sourcePath = r'.job.sourcePath ∧ r.job.destPath = r'.job.destPath

/-! ## Rows -/

section Step
variable {s t : System} {event : ManagerEvent}

theorem SystemStep.world_eq (step : SystemStep s event t)
    (hcall : ∀ n fault, event ≠ .call n fault) : t.world = s.world := by
  cases step with
  | called => exact absurd rfl (hcall _ _)
  | _ => rfl

theorem SystemStep.state_ne_none (step : SystemStep s event t) {id : Bytes}
    (h : s.world.db.state id ≠ none) : t.world.db.state id ≠ none := by
  cases step with
  | called => exact perform_state_ne_none h
  | _ => exact h

/-- An insert leaves the other rows alone, and there was no row of this key. -/
theorem perform_insert_keeps {job : Job} {retryOf : Bytes} {fault : Option Fault} {w : World}
    {key : Bytes} {r : Row} (h : w.db.lookup key = some r) :
    (perform (.insertJob job retryOf) fault w).2.db.lookup key = some r := by
  cases hreply : (perform (.insertJob job retryOf) fault w).1 with
  | error e =>
      rw [perform_failed hreply]
      exact h
  | ok answer =>
      obtain ⟨hnone, new, -, -, -, hdb⟩ := perform_insert hreply
      have hne : key ≠ cstr job.id := by
        rintro rfl
        rw [Database.row, h] at hnone
        cases hnone
      rw [hdb, Database.setRow, AList.lookup_insert_ne hne]
      exact h

theorem keepsRows_of_creates (inv : Registry s) (hact : s.act event = some t)
    (creates : event.creates s = true) : KeepsRows s t := by
  intro key r hr
  cases event with
  | call n fault =>
      simp only [System.act] at hact
      split at hact
      · rename_i c rest hnext
        cases hact
        have confined := inv.confined n
        have calling := Thread.next_calling hnext
        change (perform c.op fault s.world).2.db.lookup key = some r
        revert confined creates
        simp only [ManagerEvent.creates]
        generalize s.threads n = thread at calling ⊢
        intro creates confined
        cases calling with
        | working | cancel => cases creates
        | submit | retryRecord =>
            obtain ⟨job, retryOf, hop, -⟩ := confined.1.1
            rw [hop]
            exact perform_insert_keeps hr
        | retryLoad | retryProbe =>
            rw [perform_readOnly confined.1]
            exact hr
      · cases hact
  | _ =>
      rw [(systemStep hact).world_eq (by simp)]
      exact hr

/-- The insert of a retry. -/
theorem recordsRetry_of_call {asked : Nat → Bytes} {n : Nat} {fault : Option Fault}
    {candidate : Bytes} {move : MoveRequest} {c : Call}
    {next : Reply c → Prog (Except Bytes Unit)} (inv : Filed (fun n id => asked n = id) s)
    (hthread : s.threads n = .retryRecords candidate move (.call c next))
    (hact : s.act (.call n fault) = some t) :
    t.world = s.world ∨ RecordsRetry s t (asked n) candidate := by
  have hfiles := inv.threads n
  rw [hthread] at hfiles
  obtain ⟨id, k, nowMs, rfl, hzero, hlookup, rfl, hcall⟩ :
      ∃ id k nowMs, asked n = id ∧ 0 ∉ id ∧ s.manager.requests.lookup id = some move ∧
        candidate = retryCandidate id k ∧
        Program.call c next = recordIntent (freshJob candidate move nowMs) id := by
    rcases hfiles with hcall | ⟨message, herror⟩ | ⟨hok, -⟩
    · exact hcall
    · cases herror
    · cases hok
  obtain ⟨site, op⟩ := c
  obtain ⟨rfl, -⟩ := recordIntent_call hcall
  simp only [System.act, hthread, Thread.next] at hact
  cases hact
  cases hreply : (perform (.insertJob (freshJob (retryCandidate (asked n) k) move nowMs) (asked n))
      fault s.world).1 with
  | error e => exact .inl (perform_failed hreply)
  | ok answer =>
      obtain ⟨hnone, r, hjob, hretry, -, hdb⟩ := perform_insert hreply
      obtain ⟨r', hr', hrecords, -⟩ := inv.known (asked n) move hlookup
      refine .inr ⟨hnone, r, r', ?_, ?_, ?_, hr', ?_, ?_⟩
      · exact (congrArg (fun db : Database => db.row _) hdb).trans Database.row_setRow_self
      · rw [hjob]
        rfl
      · rw [hretry]
        exact cstr_of_notMem hzero
      · rw [hjob, hrecords.1]
        rfl
      · rw [hjob, hrecords.2]
        rfl

/-! ## Ids -/

/-- The command that returns `Ok` with this event, and the id it yields. -/
theorem Lives.mem_yields {id : Bytes} (h : id ∈ Lives.yields s event) :
    ∃ n, event = .proceed n ∧ (s.threads n).recorded = some id ∧
      ∀ t, s.act event = some t → (t.threads n).recorded = none := by
  cases event with
  | proceed n =>
      simp only [Lives.yields] at h
      split at h
      · rename_i id' request answer hpublishes
        rw [List.mem_singleton] at h
        subst h
        refine ⟨n, rfl, Thread.recorded_of_publishes hpublishes rfl, ?_⟩
        intro t hact
        simp only [System.act, System.proceed] at hact
        unfold Thread.publishes at hpublishes
        split at hpublishes
        · rename_i hthread
          rw [hthread] at hact
          cases hact
          cases hpublishes
          rw [System.threads_setThread_self]
          rfl
        · rename_i hthread
          rw [hthread] at hact
          cases hact
          cases hpublishes
          rw [System.threads_setThread_self]
          rfl
        · cases hpublishes
      · cases h
  | _ => cases h

theorem Lives.yields_nodup : (Lives.yields s event).Nodup := by
  unfold Lives.yields
  split
  · split
    · exact List.nodup_singleton _
    · exact List.nodup_nil
  · exact List.nodup_nil

end Step

/-! ## Every history -/

structure Yielding (l : Lives) : Prop where
  filed : Filed (fun n id => l.asked n = id) l.system
  nodup : l.yielded.Nodup
  rows : ∀ id ∈ l.yielded, l.system.world.db.state id ≠ none
  /-- What is on record and not yet published has not been yielded before. -/
  unpublished : ∀ n id, (l.system.threads n).recorded = some id → id ∉ l.yielded

theorem Yielding.manager {l : Lives} {event : ManagerEvent} {t : System} (inv : Yielding l)
    (hact : l.system.act event = some t) :
    Yielding ⟨t, Lives.asking l.asked event, l.yielded ++ Lives.yields l.system event⟩ := by
  have hstep := systemStep hact
  have hregistry := inv.filed.registry
  have hnew : ∀ id ∈ Lives.yields l.system event, id ∉ l.yielded ∧
      l.system.world.db.state id ≠ none := by
    intro id hid
    obtain ⟨n, -, hrecorded, -⟩ := Lives.mem_yields hid
    exact ⟨inv.unpublished n id hrecorded, hregistry.rows id (.inr ⟨n, hrecorded⟩)⟩
  refine ⟨inv.filed.step hact ?_ ?_, ?_, ?_, ?_⟩
  · intro n id hbegins hasked
    cases event with
    | retry k id' nowMs =>
        have hk : n ≠ k := by
          rintro rfl
          exact hbegins rfl
        exact (Function.update_of_ne hk _ _).trans hasked
    | _ => exact hasked
  · rintro n id nowMs rfl
    exact Function.update_self n id l.asked
  · refine List.nodup_append.mpr ⟨inv.nodup, Lives.yields_nodup, ?_⟩
    rintro id hid id' hid' rfl
    exact (hnew id hid').1 hid
  · intro id hid
    rcases List.mem_append.mp hid with hid | hid
    · exact hstep.state_ne_none (inv.rows id hid)
    · exact hstep.state_ne_none (hnew id hid).2
  · intro k id hrecorded hid
    rcases hstep.recorded_back hregistry hrecorded with hold | ⟨fault, c, hinserts, -⟩
    · rcases List.mem_append.mp hid with hid | hid
      · exact inv.unpublished k id hold hid
      · -- the thread that publishes the id is the only one that has claimed it
        obtain ⟨n, -, hclaim, hafter⟩ := Lives.mem_yields hid
        obtain rfl := inv.filed.claims.alone k n id (Thread.role_of_recorded hold)
          (Thread.role_of_recorded hclaim)
        rw [hafter t hact] at hrecorded
        cases hrecorded
    · obtain ⟨hnone, -⟩ := hinserts.records
      rcases List.mem_append.mp hid with hid | hid
      · exact inv.rows id hid hnone
      · exact (hnew id hid).2 hnone

theorem recorded_started (config : RetryConfig) (strategy : MoveStrategy) (w : World)
    (workers : Nat → Bool) (n : Nat) :
    ((System.started config strategy w workers).threads n).recorded = none := by
  simp only [System.started]
  split <;> rfl

theorem Yielding.step {l l' : Lives} {event : LivesEvent} (inv : Yielding l)
    (hact : l.act event = some l') : Yielding l' := by
  cases event with
  | manager event =>
      obtain ⟨t, ht, rfl⟩ := Option.map_eq_some_iff.mp hact
      exact inv.manager ht
  | restart config strategy workers =>
      cases hact
      refine ⟨filed_started _ config strategy _ workers, inv.nodup, inv.rows, ?_⟩
      intro n id hrecorded
      rw [recorded_started] at hrecorded
      cases hrecorded

theorem Yielding.begun (config : RetryConfig) (strategy : MoveStrategy) (w : World)
    (workers : Nat → Bool) : Yielding (Lives.begun (System.started config strategy w workers)) := by
  refine ⟨filed_started _ config strategy w workers, List.nodup_nil, nofun, ?_⟩
  intro n id _
  nofun

/-- Whatever threads and processes do: no id is yielded twice, no step of a `submit` or a
`retry` changes or removes a row, and the row of a retry says what it is a retry of. -/
theorem ids_never_reused (config : RetryConfig) (strategy : MoveStrategy) (w : World)
    (workers : Nat → Bool) {l : Lives}
    (reach : GuardedReach Lives.act (fun _ _ => True)
      (Lives.begun (System.started config strategy w workers)) l) :
    l.yielded.Nodup ∧
      ∀ event l', l.act (.manager event) = some l' →
        (event.creates l.system = true → KeepsRows l.system l'.system) ∧
        ∀ n fault candidate move c next, event = .call n fault →
          l.system.threads n = .retryRecords candidate move (.call c next) →
            l'.system.world = l.system.world ∨
              RecordsRetry l.system l'.system (l.asked n) candidate := by
  have inv : Yielding l := reach.invariant Yielding (fun _ hact h => h.step hact)
    (Yielding.begun config strategy w workers)
  refine ⟨inv.nodup, fun event l' hact => ?_⟩
  obtain ⟨t, ht, rfl⟩ := Option.map_eq_some_iff.mp hact
  refine ⟨keepsRows_of_creates inv.filed.registry ht, ?_⟩
  rintro n fault candidate move c next rfl hthread
  exact recordsRetry_of_call inv.filed hthread ht

/-- The sample job is submitted and cancelled. Another process is started on the store, and
its thread 1 submits the job `k`, cancels it and is about to record a retry of it. -/
def twoLives : List LivesEvent :=
  (sampleRevived.take 11).map LivesEvent.manager ++
    ([.restart sampleConfig .renameNoReplace fun n => n = 3] : List LivesEvent) ++
    ([.submit 1 (lit "k") sampleRequest 5, .lock 1, .call 1 none, .proceed 1, .proceed 1,
      .cancel 1 (lit "k"), .lock 1, .call 1 none, .call 1 none, .call 1 none, .proceed 1,
      .retry 1 (lit "k") 9, .lock 1, .call 1 none, .proceed 1, .call 1 none,
      .proceed 1] : List ManagerEvent).map LivesEvent.manager

/-- A retry is at the call that records this id. -/
def Thread.aboutToRecord (id : Bytes) : Thread → Bool
  | .retryRecords candidate _ (.call _ _) => decide (candidate = id)
  | _ => false

theorem Thread.aboutToRecord_iff {id : Bytes} {t : Thread} (h : t.aboutToRecord id = true) :
    ∃ move c next, t = .retryRecords id move (.call c next) := by
  unfold Thread.aboutToRecord at h
  split at h
  · rename_i candidate move c next
    cases of_decide_eq_true h
    exact ⟨move, c, next, rfl⟩
  · cases h

theorem ids_never_reused_twoLives :
    ∃ l l', GuardedReach Lives.act (fun _ _ => True) (Lives.begun sampleSystem) l ∧
      l.act (.manager (.call 1 none)) = some l' ∧ l.yielded = [lit "j", lit "k"] ∧
      l.yielded.Nodup ∧ KeepsRows l.system l'.system ∧
      RecordsRetry l.system l'.system (lit "k") (lit "k-retry-1") := by
  have hrun : (replay Lives.act twoLives (Lives.begun sampleSystem)).any (fun l =>
      (l.system.threads 1).aboutToRecord (lit "k-retry-1") &&
      decide (l.yielded = [lit "j", lit "k"] ∧ l.asked 1 = lit "k" ∧
        l.system.world.db.state (lit "k-retry-1") = none ∧
        ((l.act (.manager (.call 1 none))).any fun l' =>
          decide (l'.system.world.db.state (lit "k-retry-1") ≠ none)) = true)) = true := by
    decide +kernel
  obtain ⟨l, hl, hat⟩ := (Option.any_eq_true _ _).mp hrun
  obtain ⟨hthread, hfacts⟩ := Bool.and_eq_true_iff.mp hat
  obtain ⟨hyielded, hasked, hbefore, hafter⟩ := of_decide_eq_true hfacts
  obtain ⟨l', hl', hstate⟩ := (Option.any_eq_true _ _).mp hafter
  have hreach : GuardedReach Lives.act (fun _ _ => True) (Lives.begun sampleSystem) l :=
    .of_replay (AllSteps.of_free (fun _ _ => trivial) _ _) hl
  obtain ⟨hnodup, hsteps⟩ := ids_never_reused _ _ _ _ hreach
  obtain ⟨move, c, next, heq⟩ := Thread.aboutToRecord_iff hthread
  obtain ⟨hkeeps, hrecords⟩ := hsteps _ l' hl'
  have hcreates : (ManagerEvent.call 1 none).creates l.system = true := by
    rw [ManagerEvent.creates, heq]
    rfl
  refine ⟨l, l', hreach, hl', hyielded, hnodup, hkeeps hcreates, ?_⟩
  rcases hrecords 1 none _ move c next rfl heq with hsame | hrecords
  · rw [hsame] at hstate
    exact absurd hbefore (of_decide_eq_true hstate)
  · rw [← hasked]
    exact hrecords

end FileMover
