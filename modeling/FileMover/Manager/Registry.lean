import FileMover.Manager.Dispatch

/-!
# Jobs and their rows

The manager knows a job by its id, the store by the id up to the first NUL. What is
proved here of every history, without any condition: a job that the manager knows has
a row, no two such jobs share one, and a thread writes only to the row of the job that
it has to do with.
-/

namespace FileMover

open Framework

/-! ## What a thread may call -/

/-- The calls of a worker that has this job. -/
def WorkCall (id : Bytes) (c : Call) : Prop :=
  match c.op with
  | .insertJob _ _ => False
  | .updateJob id' _ after => id' = id ∧ after.state ≠ .queued
  | _ => True

/-- The calls of a command that cancels this job. -/
def CancelCall (id : Bytes) (c : Call) : Prop :=
  match c.op with
  | .updateJob id' _ after => id' = id ∧ after.state = .failed
  | op => op.readOnly = true

/-- The call that puts this job on record. -/
def IntentCall (id : Bytes) (c : Call) : Prop :=
  ∃ job retryOf, c.op = .insertJob job retryOf ∧ job.id = id ∧ job.state = .queued

def ReadCall (c : Call) : Prop := c.op.readOnly = true

/-- A call of this kind that succeeded. -/
def Succeeds (kind : Call → Prop) (c : Call) (reply : Reply c) : Prop :=
  kind c ∧ ∃ answer, reply = .ok answer

/-- A write of `cancel`, as opposed to its reads. -/
def CancelWrite (id : Bytes) (c : Call) : Prop :=
  ∃ before after, c.op = .updateJob id before after ∧ after.state = .failed

/-- A thread makes only calls that belong to its job, and reports success only after
the write that it reports. -/
def Thread.Confined : Thread → Prop
  | .working id rest => rest.Uses (WorkCall id)
  | .cancelActs id _ rest => rest.Uses (CancelCall id) ∧
      rest.EndsBy (fun result => result.1 = .ok) (Succeeds (CancelWrite id))
  | .submitRecords id _ rest => rest.Uses (IntentCall id) ∧
      rest.EndsBy (fun result => result = .ok ()) (Succeeds (IntentCall id))
  | .retryRecords id _ rest => rest.Uses (IntentCall id) ∧
      rest.EndsBy (fun result => result = .ok ()) (Succeeds (IntentCall id))
  | .retryLoads _ _ _ rest => rest.Uses ReadCall
  | .retryProbes _ _ _ _ rest => rest.Uses ReadCall
  | _ => True

section Footprints
variable {id reason : Bytes} {request : MoveRequest} {nowMs : Int}

theorem workCall_of_readOnly {site : Site} {op : Op} (h : op.readOnly = true) :
    WorkCall id ⟨site, op⟩ := by
  cases op with
  | insertJob | updateJob => cases h
  | _ => trivial

theorem workCall_of_movesNames {site : Site} {op : Op} (h : op.movesNames = true) :
    WorkCall id ⟨site, op⟩ := by
  cases op with
  | insertJob | updateJob => cases h
  | _ => trivial

theorem workOn_calls {config : RetryConfig} {strategy : MoveStrategy} :
    (workOn config id request strategy nowMs).Uses (WorkCall id) := by
  refine Program.Uses.bind (uses_execute (fun _ _ h => workCall_of_readOnly h)
    (fun _ => trivial) (fun _ _ _ hne h => ⟨rfl, h ▸ hne⟩)
    fun _ _ h => workCall_of_movesNames h) ?_
  intro result
  exact uses_afterExecute (fun _ _ h => workCall_of_readOnly h) (fun _ _ => trivial)
    (fun _ _ h => ⟨rfl, by rw [h]; decide⟩) result.1 result.2

theorem recordIntent_calls {retryOf : Bytes} :
    (recordIntent (freshJob id request nowMs) retryOf).Uses (IntentCall id) ∧
      (recordIntent (freshJob id request nowMs) retryOf).EndsBy
        (fun result => result = .ok ()) (Succeeds (IntentCall id)) := by
  refine ⟨uses_recordIntent ⟨_, _, rfl, rfl, rfl⟩, fun reply => ⟨?_, ?_⟩⟩
  · intro value hvalue hok
    cases reply with
    | error e =>
        cases hvalue
        cases hok
    | ok answer => exact ⟨⟨_, _, rfl, rfl, rfl⟩, answer, rfl⟩
  · cases reply with
    | error e => trivial
    | ok answer => trivial

theorem cancelInStore_calls : (cancelInStore id).Uses (CancelCall id) := by
  have hread : ∀ site, CancelCall id ⟨site, .selectJob id⟩ := fun _ => rfl
  refine (uses_load (hread _)).bind fun loaded => ?_
  match loaded with
  | .error message => trivial
  | .ok none => trivial
  | .ok (some job) =>
      simp only
      split
      · trivial
      · refine (uses_updateState (hread _) ?_).bind fun result => ?_
        · intro before after h
          exact ⟨rfl, Job.transition_state h⟩
        · cases result with
          | error message => trivial
          | ok _ => trivial

theorem updateState_endsBy {target : JobState} {message : Bytes} :
    (updateState id target nowMs message).EndsBy (fun result => result = .ok ())
      (Succeeds fun c => ∃ before after, c.op = .updateJob id before after ∧
        after.state = target) := by
  refine (Program.endsBy_never _).bind ?_ ?_
  · intro loaded
    match loaded with
    | .error message => trivial
    | .ok none => trivial
    | .ok (some job) =>
      cases htrans : job.transition target nowMs message with
      | none =>
          simp only [htrans]
          trivial
      | some after =>
          simp only [htrans]
          intro reply
          cases reply with
          | error e =>
              refine ⟨?_, trivial⟩
              intro value hvalue hok
              cases hvalue
              cases hok
          | ok answer =>
              refine ⟨?_, trivial⟩
              intro _ _ _
              exact ⟨⟨job, after, rfl, Job.transition_state htrans⟩, answer, rfl⟩
  · intro loaded value hvalue hok
    match loaded with
    | .error message =>
        cases hvalue
        cases hok
    | .ok none =>
        cases hvalue
        cases hok
    | .ok (some job) =>
      cases htrans : job.transition target nowMs message with
      | none =>
          simp only [htrans] at hvalue
          cases hvalue
          cases hok
      | some after =>
          simp only [htrans] at hvalue
          cases hvalue

/-- `cancel` succeeds only if its last call was the `UPDATE` that it reports. -/
theorem cancelInStore_endsBy :
    (cancelInStore id).EndsBy (fun result => result.1 = .ok) (Succeeds (CancelWrite id)) := by
  refine (Program.endsBy_never _).bind ?_ ?_
  · intro loaded
    match loaded with
    | .error message => trivial
    | .ok none => trivial
    | .ok (some job) =>
      simp only
      split
      · trivial
      · refine updateState_endsBy.bind ?_ ?_
        · intro result
          cases result with
          | error message => trivial
          | ok _ => trivial
        · intro result value hvalue hok
          cases result with
          | error message =>
              cases hvalue
              cases hok
          | ok _ => rfl
  · intro loaded value hvalue hok
    match loaded with
    | .error message =>
        cases hvalue
        cases hok
    | .ok none =>
        cases hvalue
        cases hok
    | .ok (some job) =>
      simp only at hvalue
      split at hvalue
      · cases hvalue
        cases hok
      · cases hvalue

theorem loadForRetry_calls : (loadForRetry id).Uses ReadCall := by
  have hread : ReadCall ⟨.retriedLoad, .selectJob id⟩ := rfl
  refine (uses_load hread).bind fun loaded => ?_
  match loaded with
  | .error message => trivial
  | .ok none => trivial
  | .ok (some job) =>
      simp only
      split <;> trivial

theorem probeCandidate_calls : (probeCandidate id).Uses ReadCall := by
  have hread : ReadCall ⟨.candidateLoad, .selectJob id⟩ := rfl
  refine (uses_load hread).bind fun loaded => ?_
  cases loaded with
  | error message => trivial
  | ok job => trivial

end Footprints

theorem QuietStep.confined {thread thread' : Thread} (h : QuietStep thread thread') :
    thread'.Confined := by
  cases h with
  | locked h =>
      cases thread with
      | submitWaits id request nowMs =>
          cases h
          exact recordIntent_calls
      | cancelWaits id wasRunnable =>
          cases h
          exact ⟨cancelInStore_calls, cancelInStore_endsBy⟩
      | retryWaits id move nowMs =>
          cases h
          exact loadForRetry_calls
      | _ => cases h
  | triesRetry => exact probeCandidate_calls
  | _ => trivial

theorem Calling.confined {thread : Thread} {c : Call} {rest : Reply c → Thread}
    (h : Calling thread c rest) (confined : thread.Confined) (reply : Reply c) :
    (rest reply).Confined := by
  cases h with
  | working | retryLoad | retryProbe => exact confined.2 reply
  | submit | cancel | retryRecord => exact ⟨confined.1.2 reply, (confined.2 reply).2⟩

/-! ## No way back to QUEUED -/

/-- The row is there, and no longer QUEUED. -/
def Begun (id : Bytes) (w : World) : Prop :=
  ∃ x, w.db.state id = some x ∧ x ≠ .queued

/-- A call that does not make a row QUEUED that is there already. -/
def AdvancingCall (c : Call) : Prop :=
  match c.op with
  | .updateJob _ _ after => after.state ≠ .queued
  | _ => True

theorem Begun.call {id : Bytes} {w : World} {c : Call} {fault : Option Fault}
    (begun : Begun id w) (advances : AdvancingCall c) :
    Begun id (perform c.op fault w).2 := by
  obtain ⟨x, hx, hne⟩ := begun
  obtain ⟨site, op⟩ := c
  have hstep := tableStep op fault w
  revert hstep
  generalize committed op (perform op fault w).1 w = commit
  intro hstep
  cases hstep with
  | same states => exact ⟨x, (states id).trans hx, hne⟩
  | insert op_eq free states =>
      refine ⟨x, ?_, hne⟩
      rw [states, if_neg, hx]
      intro hkey
      rw [← Database.state_congr hkey, hx] at free
      cases free
  | @update id' before after op_eq asked there states =>
      cases op_eq
      by_cases hkey : cstr id = cstr id'
      · exact ⟨_, (states id).trans (if_pos hkey), advances⟩
      · exact ⟨x, (states id).trans ((if_neg hkey).trans hx), hne⟩

theorem advancing_of_readOnly {c : Call} (h : c.op.readOnly = true) : AdvancingCall c := by
  obtain ⟨site, op⟩ := c
  cases op with
  | updateJob => cases h
  | _ => trivial

theorem WorkCall.advancing {id : Bytes} {c : Call} (h : WorkCall id c) : AdvancingCall c := by
  obtain ⟨site, op⟩ := c
  cases op with
  | updateJob => exact h.2
  | _ => trivial

/-- No thread makes a row QUEUED again. -/
theorem Calling.advancing {thread : Thread} {c : Call} {rest : Reply c → Thread}
    (h : Calling thread c rest) (confined : thread.Confined) : AdvancingCall c := by
  cases h with
  | working => exact WorkCall.advancing confined.1
  | retryLoad | retryProbe => exact advancing_of_readOnly confined.1
  | submit | retryRecord =>
      obtain ⟨site, op⟩ := c
      obtain ⟨job, retryOf, hop, _⟩ := confined.1.1
      cases hop
      trivial
  | cancel =>
      have hcall := confined.1.1
      obtain ⟨site, op⟩ := c
      cases op with
      | updateJob id' before after =>
          have hfailed : after.state = .failed := hcall.2
          intro hqueued
          rw [hfailed] at hqueued
          cases hqueued
      | _ => trivial

/-! ## The registry -/

/-- The job that a thread has put on record and not published yet. -/
def Thread.recorded : Thread → Option Bytes
  | .submitRecords id _ (.pure (.ok _)) => some id
  | .submitPublishes id _ (.ok _) => some id
  | .retryRecords id _ (.pure (.ok _)) => some id
  | _ => none

/-- The manager knows this job, or will in a moment. -/
def Registered (s : System) (id : Bytes) : Prop :=
  id ∈ s.manager.requests ∨ ∃ n, (s.threads n).recorded = some id

structure Registry (s : System) : Prop where
  known : ∀ id, id ∈ s.manager.runnable ∨ id ∈ s.manager.waiting ∨ id ∈ s.manager.paused →
    id ∈ s.manager.requests
  works : ∀ n id, s.roles n = .works id → id ∈ s.manager.requests
  cancels : ∀ n id, s.roles n = .cancels id → id ∈ s.manager.requests
  rows : ∀ id, Registered s id → s.world.db.state id ≠ none
  keys : ∀ id id', Registered s id → Registered s id' → cstr id = cstr id' → id = id'
  confined : ∀ n, (s.threads n).Confined

theorem QuietStep.recorded_eq {thread thread' : Thread} (h : QuietStep thread thread')
    {id : Bytes} (recorded : thread'.recorded = some id) : thread.recorded = some id := by
  cases h with
  | locked h =>
      cases thread <;> cases h <;> cases recorded
  | @recorded id' request result =>
      cases result with
      | error message => cases recorded
      | ok _ => exact recorded
  | _ => cases recorded

theorem Thread.recorded_eq_some {thread : Thread} {id : Bytes}
    (h : thread.recorded = some id) :
    (∃ request, thread = .submitRecords id request (.pure (.ok ()))) ∨
      (∃ request, thread = .submitPublishes id request (.ok ())) ∨
      ∃ request, thread = .retryRecords id request (.pure (.ok ())) := by
  unfold Thread.recorded at h
  split at h <;> cases h
  · exact Or.inl ⟨_, rfl⟩
  · exact Or.inr (Or.inl ⟨_, rfl⟩)
  · exact Or.inr (Or.inr ⟨_, rfl⟩)

theorem Thread.recorded_of_free {thread : Thread} (free : thread.isFree = true) :
    thread.recorded = none := by
  cases thread <;> first | rfl | cases free

theorem Thread.recorded_of_publishes {thread : Thread} {id : Bytes} {request : MoveRequest}
    {recorded : Except Bytes Unit} (h : thread.publishes = some (id, request, recorded))
    (ok : System.recordedOk recorded = true) : thread.recorded = some id := by
  cases recorded with
  | error message => cases ok
  | ok _ =>
      unfold Thread.publishes at h
      split at h <;> cases h <;> rfl

/-- A thread has newly recorded its job: its last call was the `INSERT`. -/
theorem Calling.inserted {thread : Thread} {c : Call} {rest : Reply c → Thread}
    (h : Calling thread c rest) (confined : thread.Confined) {reply : Reply c} {id : Bytes}
    (recorded : (rest reply).recorded = some id) : Succeeds (IntentCall id) c reply := by
  have hshape := Thread.recorded_eq_some recorded
  cases h with
  | submit =>
      rcases hshape with ⟨_, heq⟩ | ⟨_, heq⟩ | ⟨_, heq⟩
      · injection heq with hid _ hpure
        subst hid
        exact (confined.2 reply).1 _ hpure rfl
      · cases heq
      · cases heq
  | retryRecord =>
      rcases hshape with ⟨_, heq⟩ | ⟨_, heq⟩ | ⟨_, heq⟩
      · cases heq
      · cases heq
      · injection heq with hid _ hpure
        subst hid
        exact (confined.2 reply).1 _ hpure rfl
  | _ => rcases hshape with ⟨_, heq⟩ | ⟨_, heq⟩ | ⟨_, heq⟩ <;> cases heq

/-- No call removes a row. -/
theorem perform_state_ne_none {op : Op} {fault : Option Fault} {w : World} {id : Bytes}
    (h : w.db.state id ≠ none) : (perform op fault w).2.db.state id ≠ none := by
  have hstep := tableStep op fault w
  revert hstep
  generalize committed op (perform op fault w).1 w = commit
  intro hstep
  cases hstep with
  | same states =>
      rw [states]
      exact h
  | insert op_eq free states =>
      rw [states]
      split
      · nofun
      · exact h
  | update op_eq asked there states =>
      rw [states]
      split
      · nofun
      · exact h

/-- A job that was put on record had no row before. -/
theorem Succeeds.records {c : Call} {fault : Option Fault} {w : World} {id : Bytes}
    (h : Succeeds (IntentCall id) c (perform c.op fault w).1) :
    w.db.state id = none ∧ (perform c.op fault w).2.db.state id = some .queued := by
  obtain ⟨⟨job, retryOf, hop, hid, hqueued⟩, answer, hok⟩ := h
  obtain ⟨site, op⟩ := c
  cases hop
  have hstep := tableStep (.insertJob job retryOf) fault w
  simp only at hok
  rw [hok] at hstep
  revert hstep
  generalize hcommit : committed (.insertJob job retryOf) (.ok answer) w = commit
  intro hstep
  cases hstep with
  | same states => cases hcommit
  | insert op_eq free states =>
      cases op_eq
      rw [← hid]
      refine ⟨free, ?_⟩
      rw [states, if_pos rfl, hqueued]
  | update op_eq asked there states => cases op_eq

section Step
variable {s s' t : System} {n : Nat} {thread : Thread} {event : ManagerEvent}

theorem Registry.change (inv : Registry s) (threads : s'.threads = s.threads)
    (states : ∀ id, s.world.db.state id ≠ none → s'.world.db.state id ≠ none)
    (grows : ∀ id, id ∈ s.manager.requests → id ∈ s'.manager.requests)
    (requests : ∀ id, id ∈ s'.manager.requests → Registered s id)
    (known : ∀ id, id ∈ s'.manager.runnable ∨ id ∈ s'.manager.waiting ∨
      id ∈ s'.manager.paused → id ∈ s'.manager.requests)
    (role : ∀ id, thread.role = .works id ∨ thread.role = .cancels id →
      id ∈ s'.manager.requests)
    (recorded : ∀ id, thread.recorded = some id → Registered s id ∨
      (s.world.db.state id = none ∧ s'.world.db.state id ≠ none))
    (confined : thread.Confined) : Registry (s'.setThread n thread) := by
  have hother : ∀ {k}, k ≠ n → (s'.setThread n thread).threads k = s.threads k := by
    intro k hk
    rw [System.setThread, threads]
    exact Function.update_of_ne hk _ _
  have hself : (s'.setThread n thread).threads n = thread := Function.update_self n _ _
  -- whoever is registered now was so before, or has just been recorded by this thread
  have hregistered : ∀ id, Registered (s'.setThread n thread) id →
      Registered s id ∨ (thread.recorded = some id ∧ s.world.db.state id = none ∧
        s'.world.db.state id ≠ none) := by
    rintro id (h | ⟨k, h⟩)
    · exact Or.inl (requests id h)
    · by_cases hk : k = n
      · rw [hk, hself] at h
        exact (recorded id h).imp_right fun h' => ⟨h, h'⟩
      · rw [hother hk] at h
        exact Or.inl (Or.inr ⟨k, h⟩)
  have hapart : ∀ id id', Registered s id → s.world.db.state id' = none →
      cstr id ≠ cstr id' := by
    intro id id' h hnone hkey
    refine inv.rows id h ?_
    rw [Database.state_congr hkey]
    exact hnone
  refine ⟨known, ?_, ?_, ?_, ?_, ?_⟩
  · intro k id h
    by_cases hk : k = n
    · rw [System.roles, hk, hself] at h
      exact role id (Or.inl h)
    · rw [System.roles, hother hk] at h
      exact grows id (inv.works k id h)
  · intro k id h
    by_cases hk : k = n
    · rw [System.roles, hk, hself] at h
      exact role id (Or.inr h)
    · rw [System.roles, hother hk] at h
      exact grows id (inv.cancels k id h)
  · intro id h
    rcases hregistered id h with hold | ⟨_, _, hnew⟩
    · exact states id (inv.rows id hold)
    · exact hnew
  · intro id id' h h' hkey
    rcases hregistered id h with hold | ⟨hrec, hnone, _⟩
    · rcases hregistered id' h' with hold' | ⟨_, hnone', _⟩
      · exact inv.keys id id' hold hold' hkey
      · exact absurd hkey (hapart id id' hold hnone')
    · rcases hregistered id' h' with hold' | ⟨hrec', _, _⟩
      · exact absurd hkey.symm (hapart id' id hold' hnone)
      · exact Option.some.inj (hrec.symm.trans hrec')
  · intro k
    by_cases hk : k = n
    · rw [hk, hself]
      exact confined
    · rw [hother hk]
      exact inv.confined k

/-- A step that leaves the world alone, and the requests as they are. -/
theorem Registry.dispatch (inv : Registry s) (threads : s'.threads = s.threads)
    (world : s'.world = s.world) (requests : s'.manager.requests = s.manager.requests)
    (known : ∀ id, id ∈ s'.manager.runnable ∨ id ∈ s'.manager.waiting ∨
      id ∈ s'.manager.paused → id ∈ s.manager.requests)
    (role : ∀ id, thread.role = .works id ∨ thread.role = .cancels id →
      id ∈ s.manager.requests)
    (recorded : ∀ id, thread.recorded = some id → Registered s id)
    (confined : thread.Confined) : Registry (s'.setThread n thread) := by
  refine inv.change threads (fun id h => ?_) (fun id h => ?_) (fun id h => ?_) (fun id h => ?_)
    (fun id h => ?_) (fun id h => Or.inl (recorded id h)) confined
  · rw [world]
    exact h
  · rw [requests]
    exact h
  · rw [requests] at h
    exact Or.inl h
  · rw [requests]
    exact known id h
  · rw [requests]
    exact role id h

/-- A step that changes no thread in a way that matters, nor the requests. -/
theorem Registry.keep (inv : Registry s) (world : t.world = s.world)
    (requests : t.manager.requests = s.manager.requests)
    (known : ∀ id, id ∈ t.manager.runnable ∨ id ∈ t.manager.waiting ∨
      id ∈ t.manager.paused → id ∈ s.manager.requests)
    (roles : ∀ n, t.roles n = s.roles n)
    (recorded : ∀ n, (t.threads n).recorded = (s.threads n).recorded)
    (confined : ∀ n, (t.threads n).Confined) : Registry t := by
  have hregistered : ∀ id, Registered t id → Registered s id := by
    rintro id (h | ⟨n, h⟩)
    · rw [requests] at h
      exact Or.inl h
    · rw [recorded] at h
      exact Or.inr ⟨n, h⟩
  refine ⟨?_, ?_, ?_, ?_, ?_, confined⟩
  · intro id h
    rw [requests]
    exact known id h
  · intro n id h
    rw [roles] at h
    rw [requests]
    exact inv.works n id h
  · intro n id h
    rw [roles] at h
    rw [requests]
    exact inv.cancels n id h
  · intro id h
    rw [world]
    exact inv.rows id (hregistered id h)
  · intro id id' h h'
    exact inv.keys id id' (hregistered id h) (hregistered id' h')

theorem Manager.mem_pump {m : Manager} {nowMs : Int} {id : Bytes}
    (h : id ∈ (m.pump nowMs).runnable ∨ id ∈ (m.pump nowMs).waiting ∨
      id ∈ (m.pump nowMs).paused) : id ∈ m.runnable ∨ id ∈ m.waiting ∨ id ∈ m.paused := by
  unfold Manager.pump at h
  split at h
  · exact h
  · rcases h with h | h | h
    · rcases List.mem_append.mp h with h | h
      · exact Or.inl h
      · exact Or.inr (Or.inl (List.mem_of_mem_filter ((due_perm nowMs).mem_iff.mp h)))
    · exact Or.inr (Or.inl ((mem_foldl_erase _ _).mp h).2)
    · exact Or.inr (Or.inr h)

theorem Manager.mem_publish {m : Manager} {id id' : Bytes} {request : MoveRequest}
    {recorded : Bool}
    (h : id' ∈ (m.publish id request recorded).runnable ∨
      id' ∈ (m.publish id request recorded).waiting ∨
      id' ∈ (m.publish id request recorded).paused) :
    (id' ∈ m.runnable ∨ id' ∈ m.waiting ∨ id' ∈ m.paused) ∨ (recorded = true ∧ id' = id) := by
  cases recorded with
  | false => exact Or.inl h
  | true =>
      rcases h with h | h
      · rcases List.mem_append.mp h with h | h
        · exact Or.inl (Or.inl h)
        · exact Or.inr ⟨rfl, List.mem_singleton.mp h⟩
      · exact Or.inl (Or.inr h)

theorem Manager.requests_pump {m : Manager} (nowMs : Int) :
    (m.pump nowMs).requests = m.requests := by
  unfold Manager.pump
  split <;> rfl

/-- Only threads outside a command become workers. -/
theorem restarted_thread (s : System) (workers : Nat → Bool) (n : Nat) :
    (if workers n && (s.threads n).isFree then Thread.waiting else s.threads n) = s.threads n ∨
      ((s.threads n).isFree = true ∧
        (if workers n && (s.threads n).isFree then .waiting else s.threads n) =
          Thread.waiting) := by
  split
  · rename_i h
    rw [Bool.and_eq_true] at h
    exact Or.inr ⟨h.2, rfl⟩
  · exact Or.inl rfl

/-! One lemma for each kind of step. -/

section Kinds
variable {id : Bytes} {request : MoveRequest} {wasRunnable : Bool} {m : Manager}
  {storeMutex : Option Nat}

theorem Registry.quiet (inv : Registry s) (h : QuietStep (s.threads n) thread) :
    Registry ({ s with storeMutex := storeMutex }.setThread n thread) := by
  refine inv.dispatch rfl rfl rfl inv.known ?_ ?_ h.confined
  · intro id hrole
    rw [h.role] at hrole
    exact hrole.elim (inv.works n id) (inv.cancels n id)
  · intro id hrecorded
    exact Or.inr ⟨n, h.recorded_eq hrecorded⟩

theorem Registry.called (inv : Registry s) {fault : Option Fault} {c : Call}
    {rest : Reply c → Thread} (calling : Calling (s.threads n) c rest) :
    Registry ({ s with world := (perform c.op fault s.world).2 }.setThread n
      (rest (perform c.op fault s.world).1)) := by
  have hrole := calling.role (perform c.op fault s.world).1
  refine inv.change rfl (fun id h => perform_state_ne_none h) (fun _ h => h)
    (fun _ h => Or.inl h) inv.known ?_ ?_ (calling.confined (inv.confined n) _)
  · intro id h
    rw [hrole] at h
    exact h.elim (inv.works n id) (inv.cancels n id)
  · intro id h
    obtain ⟨hnone, hqueued⟩ := (calling.inserted (inv.confined n) h).records
    refine Or.inr ⟨hnone, ?_⟩
    rw [hqueued]
    rintro ⟨⟩

theorem Registry.paused (inv : Registry s) (h : s.manager.pause id = .ok m) :
    Registry ({ s with manager := m }.setThread n (.returned .ok [])) := by
  obtain ⟨hknown, _, rfl⟩ := Manager.pause_eq h
  refine inv.dispatch rfl rfl rfl ?_ (by rintro _ (h | h) <;> cases h)
    (by rintro _ ⟨⟩) trivial
  rintro id' (h | h | h)
  · exact inv.known id' (Or.inl (List.mem_of_mem_erase h))
  · exact inv.known id' (Or.inr (Or.inl (AList.mem_erase.mp h).2))
  · rcases Finset.mem_insert.mp h with rfl | h
    · exact hknown
    · exact inv.known id' (Or.inr (Or.inr h))

theorem Registry.resumed (inv : Registry s) (h : s.manager.resume id = .ok m) :
    Registry ({ s with manager := m }.setThread n (.returned .ok [])) := by
  obtain ⟨hknown, _, rfl⟩ := Manager.resume_eq h
  refine inv.dispatch rfl rfl rfl ?_ (by rintro _ (h | h) <;> cases h)
    (by rintro _ ⟨⟩) trivial
  rintro id' (h | h | h)
  · rcases List.mem_append.mp h with h | h
    · exact inv.known id' (Or.inl h)
    · rw [List.mem_singleton.mp h]
      exact hknown
  · exact inv.known id' (Or.inr (Or.inl h))
  · exact inv.known id' (Or.inr (Or.inr (Finset.mem_of_mem_erase h)))

theorem Registry.restarted (inv : Registry s) (workers : Nat → Bool) :
    Registry { s with
      manager := { s.manager with running := true, stopping := false }
      threads := fun n =>
        if workers n && (s.threads n).isFree then .waiting else s.threads n } := by
  have hthread := restarted_thread s workers
  refine inv.keep rfl rfl inv.known ?_ ?_ ?_
  · intro n
    simp only [System.roles]
    rcases hthread n with h | ⟨hfree, h⟩
    · rw [h]
    · rw [h]
      exact (Thread.role_of_free hfree).symm
  · intro n
    rcases hthread n with h | ⟨hfree, h⟩
    · simp only [h]
    · simp only [h]
      exact (Thread.recorded_of_free hfree).symm
  · intro n
    rcases hthread n with h | ⟨_, h⟩
    · simp only [h]
      exact inv.confined n
    · simp only [h]
      trivial

theorem Registry.claimedCancel (inv : Registry s)
    (h : s.manager.claimCancel id = .ok (wasRunnable, m)) :
    Registry ({ s with manager := m }.setThread n (.cancelWaits id wasRunnable)) := by
  obtain ⟨hknown, _, _, rfl⟩ := Manager.claimCancel_eq h
  refine inv.dispatch rfl rfl rfl ?_ ?_ (by rintro _ ⟨⟩) trivial
  · rintro id' (h | h | h)
    · exact inv.known id' (Or.inl (List.mem_of_mem_erase h))
    · exact inv.known id' (Or.inr (Or.inl (AList.mem_erase.mp h).2))
    · exact inv.known id' (Or.inr (Or.inr (Finset.mem_of_mem_erase h)))
  · rintro id' (h | h)
    · cases h
    · cases h
      exact hknown

theorem Registry.published (inv : Registry s) {recorded : Except Bytes Unit}
    (h : (s.threads n).publishes = some (id, request, recorded)) :
    Registry ({ s with
      manager := s.manager.publish id request (System.recordedOk recorded)
      storeMutex := storeMutex }.setThread n (System.afterPublish recorded)) := by
  have hafter : (System.afterPublish recorded).recorded = none := by
    cases recorded <;> rfl
  have hself : System.recordedOk recorded = true → Registered s id := fun hok =>
    Or.inr ⟨n, Thread.recorded_of_publishes h hok⟩
  refine inv.change rfl (fun _ h => h) ?_ ?_ ?_ ?_ ?_ ?_
  · intro id' h'
    exact (Manager.requests_publish _ _).mpr (Or.inl h')
  · intro id' h'
    rcases (Manager.requests_publish _ _).mp h' with h' | ⟨hok, rfl⟩
    · exact Or.inl h'
    · exact hself hok
  · intro id' h'
    refine (Manager.requests_publish _ _).mpr ?_
    rcases Manager.mem_publish h' with h' | h'
    · exact Or.inl (inv.known id' h')
    · exact Or.inr h'
  · intro id' h'
    rw [System.afterPublish_role] at h'
    rcases h' with h | h <;> cases h
  · intro id' h'
    rw [hafter] at h'
    cases h'
  · cases recorded <;> trivial

theorem Registry.settledCancel (inv : Registry s) {outcome : CommandResult} {error : Bytes}
    (thread : s.threads n = .cancelActs id wasRunnable (.pure (outcome, error))) :
    Registry ({ s with
      manager := s.manager.settleCancel id wasRunnable outcome
      storeMutex := none }.setThread n (.returned outcome error)) := by
  have hknown : id ∈ s.manager.requests := by
    refine inv.cancels n id ?_
    rw [System.roles, thread]
    rfl
  have hsettle : (s.manager.settleCancel id wasRunnable outcome).requests =
      s.manager.requests := by
    unfold Manager.settleCancel
    split <;> rfl
  refine inv.dispatch rfl rfl hsettle ?_ (by rintro _ (h | h) <;> cases h)
    (by rintro _ ⟨⟩)
    trivial
  intro id' h
  simp only [Manager.settleCancel] at h
  split at h
  · rcases h with h | h
    · rcases List.mem_append.mp h with h | h
      · exact inv.known id' (Or.inl h)
      · rw [List.mem_singleton.mp h]
        exact hknown
    · exact inv.known id' (Or.inr h)
  · exact inv.known id' h

theorem Registry.pickedUp (inv : Registry s) {nowMs : Int}
    (h : s.manager.pickUp = some (id, request, m)) :
    Registry ({ s with manager := m }.setThread n
      (.working id (workOn m.config id request m.strategy nowMs))) := by
  obtain ⟨rest, requests, hrunnable, hrequests, rfl⟩ := Manager.pickUp_eq h
  have hknown : id ∈ s.manager.requests := by
    refine inv.known id (Or.inl ?_)
    rw [hrunnable]
    exact List.mem_cons_self
  refine inv.dispatch rfl rfl (hrequests hknown) ?_ ?_ (by rintro _ ⟨⟩) workOn_calls
  · rintro id' (h | h)
    · refine inv.known id' (Or.inl ?_)
      rw [hrunnable]
      exact List.mem_cons_of_mem id h
    · exact inv.known id' (Or.inr h)
  · rintro id' (h | h)
    · cases h
      exact hknown
    · cases h

theorem Registry.settled (inv : Registry s) {due : Option Int}
    (thread : s.threads n = .working id (.pure due)) :
    Registry ({ s with manager := s.manager.settle id due }.setThread n .waiting) := by
  have hknown : id ∈ s.manager.requests := by
    refine inv.works n id ?_
    rw [System.roles, thread]
    rfl
  cases due with
  | none =>
      exact inv.dispatch rfl rfl rfl inv.known (by rintro _ (h | h) <;> cases h)
        (by rintro _ ⟨⟩) trivial
  | some dueMs =>
      refine inv.dispatch rfl rfl rfl ?_ (by rintro _ (h | h) <;> cases h)
        (by rintro _ ⟨⟩) trivial
      rintro id' (h | h | h)
      · exact inv.known id' (Or.inl h)
      · rcases (AList.mem_insert _).mp h with rfl | h
        · exact hknown
        · exact inv.known id' (Or.inr (Or.inl h))
      · exact inv.known id' (Or.inr (Or.inr h))

end Kinds

theorem Registry.step (inv : Registry s) (step : SystemStep s event t) : Registry t := by
  cases step with
  | quiet actor h => exact inv.quiet h
  | called calling => exact inv.called calling
  | paused free h => exact inv.paused h
  | resumed free h => exact inv.resumed h
  | @pumped nowMs =>
      exact inv.keep rfl (Manager.requests_pump nowMs)
        (fun id h => inv.known id (Manager.mem_pump h)) (fun _ => rfl) (fun _ => rfl)
        inv.confined
  | tuned =>
      exact inv.keep rfl rfl inv.known (fun _ => rfl) (fun _ => rfl) inv.confined
  | @restarted workers => exact inv.restarted workers
  | @claimedSubmit n id request nowMs m free h =>
      obtain ⟨_, _, rfl⟩ := Manager.claimSubmit_eq h
      exact inv.dispatch rfl rfl rfl inv.known (by rintro _ (h | h) <;> cases h)
        (by rintro _ ⟨⟩) trivial
  | claimedCancel free h => exact inv.claimedCancel h
  | claimedCandidate thread h =>
      obtain ⟨_, _, rfl⟩ := Manager.claimCandidate_eq h
      exact inv.dispatch rfl rfl rfl inv.known (by rintro _ (h | h) <;> cases h)
        (by rintro _ ⟨⟩) recordIntent_calls
  | published h => exact inv.published h
  | settledCancel thread => exact inv.settledCancel thread
  | pickedUp thread h => exact inv.pickedUp h
  | settled thread => exact inv.settled thread

/-- What a call can do to the row of a job that the manager knows: nothing, or what a
`cancel` writes to this row, or what a worker that has this very job writes. -/
theorem Registry.rowChange (inv : Registry s) {c : Call} {rest : Reply c → Thread}
    {fault : Option Fault} (calling : Calling (s.threads n) c rest) {id : Bytes}
    (known : id ∈ s.manager.requests) :
    (perform c.op fault s.world).2.db.state id = s.world.db.state id ∨
      (∃ id' wasRunnable next before after,
        s.threads n = .cancelActs id' wasRunnable (.call c next) ∧
        c.op = .updateJob id' before after ∧ cstr id = cstr id' ∧
        (perform c.op fault s.world).2.db.state id = some .failed) ∨
      ∃ next before after, s.threads n = .working id (.call c next) ∧
        c.op = .updateJob id before after ∧ after.state ≠ .queued ∧
        (perform c.op fault s.world).2.db.state id = some after.state := by
  have hstep := tableStep c.op fault s.world
  revert hstep
  generalize committed c.op (perform c.op fault s.world).1 s.world = commit
  intro hstep
  cases hstep with
  | same states => exact Or.inl (states id)
  | @insert job retryOf op_eq free states =>
      refine Or.inl ?_
      rw [states]
      split
      · rename_i hkey
        rw [← Database.state_congr hkey] at free
        exact absurd free (inv.rows id (Or.inl known))
      · rfl
  | @update id' before after op_eq asked there states =>
      by_cases hkey : cstr id = cstr id'
      · refine Or.inr ?_
        rw [states, if_pos hkey]
        have hconfined := inv.confined n
        obtain ⟨site, op⟩ := c
        cases op_eq
        generalize hthread : s.threads n = thread at calling hconfined
        cases calling with
        | working =>
            obtain ⟨rfl, hwrites⟩ := hconfined.1
            have hknown : id' ∈ s.manager.requests := by
              refine inv.works n id' ?_
              rw [System.roles, hthread]
              rfl
            have hsame : id = id' := inv.keys id id' (Or.inl known) (Or.inl hknown) hkey
            rw [hsame]
            exact Or.inr ⟨_, before, after, rfl, rfl, hwrites, rfl⟩
        | cancel =>
            obtain ⟨rfl, hfailed⟩ := hconfined.1.1
            rw [hfailed]
            exact Or.inl ⟨_, _, _, before, after, rfl, rfl, hkey, rfl⟩
        | submit | retryRecord =>
            obtain ⟨job, retryOf, hop, _⟩ := hconfined.1.1
            cases hop
        | retryLoad | retryProbe => cases hconfined.1
      · refine Or.inl ?_
        rw [states, if_neg hkey]

/-- The same, as far as most need to know it. -/
theorem Registry.rowStep (inv : Registry s) {c : Call} {rest : Reply c → Thread}
    {fault : Option Fault} (calling : Calling (s.threads n) c rest) {id : Bytes}
    (known : id ∈ s.manager.requests) :
    (perform c.op fault s.world).2.db.state id = s.world.db.state id ∨
      (perform c.op fault s.world).2.db.state id = some .failed ∨
      (∃ next, s.threads n = .working id (.call c next)) ∧
        (perform c.op fault s.world).2.db.state id ≠ some .queued := by
  rcases inv.rowChange calling known with hsame | ⟨_, _, _, _, _, _, _, _, hfailed⟩ |
    ⟨next, _, after, hworking, _, hne, hwrites⟩
  · exact Or.inl hsame
  · exact Or.inr (Or.inl hfailed)
  · refine Or.inr (Or.inr ⟨⟨next, hworking⟩, ?_⟩)
    rw [hwrites]
    exact fun h => hne (Option.some.inj h)

theorem recorded_setThread {s' : System} {n k : Nat} {thread : Thread} {id : Bytes}
    (h : ((s'.setThread n thread).threads k).recorded = some id) (same : s'.threads = s.threads) :
    (s.threads k).recorded = some id ∨ k = n ∧ thread.recorded = some id := by
  by_cases hk : k = n
  · subst hk
    rw [System.threads_setThread_self] at h
    exact .inr ⟨rfl, h⟩
  · rw [System.threads_setThread_of_ne hk, same] at h
    exact .inl h

/-- A job that a thread has put on record: it had done so before, or does so with this
event. -/
theorem SystemStep.recorded_back (step : SystemStep s event t) (inv : Registry s) {k : Nat}
    {id : Bytes} (h : (t.threads k).recorded = some id) :
    (s.threads k).recorded = some id ∨
      ∃ fault c, Succeeds (IntentCall id) c (perform c.op fault s.world).1 ∧
        t.world = (perform c.op fault s.world).2 := by
  cases step with
  | quiet actor quiet =>
      rcases recorded_setThread h rfl with hold | ⟨rfl, hnew⟩
      · exact .inl hold
      · exact .inl (quiet.recorded_eq hnew)
  | called calling =>
      rcases recorded_setThread h rfl with hold | ⟨rfl, hnew⟩
      · exact .inl hold
      · exact .inr ⟨_, _, calling.inserted (inv.confined k) hnew, rfl⟩
  | pumped | tuned => exact .inl h
  | @restarted workers =>
      rcases restarted_thread s workers k with hsame | ⟨_, hwaiting⟩
      · simp only [hsame] at h
        exact .inl h
      · simp only [hwaiting] at h
        cases h
  | @published n id' request recorded storeMutex hpublishes =>
      rcases recorded_setThread h rfl with hold | ⟨-, hnew⟩
      · exact .inl hold
      · cases recorded <;> cases hnew
  | _ =>
      rcases recorded_setThread h rfl with hold | ⟨-, hnew⟩
      · exact .inl hold
      · cases hnew

theorem Thread.role_of_recorded {thread : Thread} {id : Bytes}
    (h : thread.recorded = some id) : thread.role = .claims id := by
  rcases Thread.recorded_eq_some h with ⟨_, rfl⟩ | ⟨_, rfl⟩ | ⟨_, rfl⟩ <;> rfl

theorem registry_started (config : RetryConfig) (strategy : MoveStrategy) (w : World)
    (workers : Nat → Bool) : Registry (System.started config strategy w workers) := by
  have hthread := System.started_thread config strategy w workers
  have hnone : ∀ id, ¬ Registered (System.started config strategy w workers) id := by
    rintro id (h | ⟨n, h⟩)
    · exact absurd h (AList.notMem_empty id)
    · rcases hthread n with h' | h' <;>
        · rw [h'] at h
          cases h
  refine ⟨?_, ?_, ?_, ?_, ?_, ?_⟩
  · rintro id (h | h | h)
    · cases h
    · exact absurd h (AList.notMem_empty id)
    · exact absurd h (Finset.notMem_empty id)
  · intro n id h
    rcases hthread n with h' | h' <;>
      · rw [System.roles, h'] at h
        cases h
  · intro n id h
    rcases hthread n with h' | h' <;>
      · rw [System.roles, h'] at h
        cases h
  · intro id h
    exact absurd h (hnone id)
  · intro id _ h
    exact absurd h (hnone id)
  · intro n
    rcases hthread n with h' | h' <;>
      · rw [h']
        trivial

end Step

end FileMover
