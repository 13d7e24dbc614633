import FileMover.Manager.Registry
import FileMover.Manager.Worker

/-!
# No job is stranded

Every job that the manager has accepted and that is still to be moved, QUEUED or
RENAMING on record, should be somewhere in the dispatch state, or nobody will ever run
it. Somebody must answer for such a job at every moment: the dispatch state, or a
`cancel` that is under way. A `cancel` of a QUEUED job ends with the row out of QUEUED; a
`cancel` that meets RENAMING is refused and has to put the job back, which it does only if
it took it from `runnable`.

Proved here, for a store that works: in every history in which no `cancel` takes a
RENAMING job out of `waiting` or `paused`, and a refused `cancel` puts back only jobs that
are nowhere, no job is stranded.
-/

namespace FileMover

open Framework

/-! ## What a cancel leaves behind -/

/-- The environment does not remove the row nor make it QUEUED again. The store works. -/
def cancelContract (id : Bytes) : Contract Call Fault World where
  rely w w' := (w.db.state id ≠ none → w'.db.state id ≠ none) ∧ (Begun id w → Begun id w')
  rely_refl _ := ⟨fun h => h, fun h => h⟩
  rely_trans hab hbc := ⟨fun h => hbc.1 (hab.1 h), fun h => hbc.2 (hab.2 h)⟩
  assume c fault _ := c.op.onStore = true → fault = none
  guarantee _ _ _ _ := True

section Cancel
variable {id : Bytes} {w : World}

theorem begun_of_row {r : Row} (row : w.db.row id = some r) (h : r.job.state ≠ .queued) :
    Begun id w := by
  refine ⟨r.job.state, ?_, h⟩
  rw [Database.state, row]
  rfl

theorem cancel_present (present : w.db.state id ≠ none) :
    ∀ w', (cancelContract id).rely w w' → w'.db.state id ≠ none :=
  fun _ rely => rely.1 present

/-- Whatever `cancel` decides, the job is not QUEUED afterwards. -/
theorem cancel_begins (present : w.db.state id ≠ none) :
    (cancelInStore id).Safe machine (cancelContract id) (fun _ w' => Begun id w') w := by
  refine (safe_load_up (fun _ _ _ h => h) (fun _ _ _ _ => trivial)
    (cancel_present present)).bind ?_
  rintro _ w₂ ⟨r, w₁, rfl, hw, hrow, hw'⟩
  have hpresent : w₂.db.state id ≠ none := hw'.1 (hw.1 present)
  simp only
  split
  · rename_i hstate
    exact fun w₃ hw'' => hw''.2 (hw'.2 (begun_of_row hrow hstate))
  · have hreason : Explains cancelledByOperator := by decide
    refine (safe_updateState (fun _ _ _ h => h) (fun _ _ _ _ => trivial)
      (cancel_present hpresent) fun _ => hreason).bind ?_
    rintro result w₃ (⟨rfl, w₄, hfailed, hw₃⟩ | ⟨⟨e, rfl⟩, job, w₄, _, hjob, htrans, hw₃⟩)
    · exact fun w₅ hw₅ => hw₅.2 (hw₃.2 ⟨.failed, hfailed, nofun⟩)
    · -- an edge from QUEUED to FAILED would not have been refused
      have hillegal := Job.illegal_of_transition htrans (by simp [hreason.ne_nil])
      have hbegun : Begun id w₄ := by
        refine ⟨job.state, hjob, ?_⟩
        intro hqueued
        rw [hqueued] at hillegal
        cases hillegal
      exact fun w₅ hw₅ => hw₅.2 (hw₃.2 hbegun)

/-- A job that is not QUEUED is not cancelled. -/
theorem cancel_refuses (begun : Begun id w) :
    (cancelInStore id).Safe machine (cancelContract id) (fun result _ => result.1 ≠ .ok) w := by
  have hpresent : w.db.state id ≠ none := by
    obtain ⟨x, hx, _⟩ := begun
    rw [hx]
    rintro ⟨⟩
  refine (safe_load_up (fun _ _ _ h => h) (fun _ _ _ _ => trivial)
    (cancel_present hpresent)).bind ?_
  rintro _ w₂ ⟨r, w₁, rfl, hw, hrow, hw'⟩
  have hstate : r.job.state ≠ .queued := by
    obtain ⟨x, hx, hne⟩ := hw.2 begun
    rw [Database.state, hrow] at hx
    have hx' : r.job.state = x := Option.some.inj hx
    rw [hx']
    exact hne
  simp only [if_pos hstate]
  exact fun _ _ => (by rintro ⟨⟩)

end Cancel

/-! ## Conditions on a history -/

/-- No statement is made to fail. -/
def StoreWorks (s : System) : ManagerEvent → Prop
  | .call n (some _) => ((s.threads n).next.all fun next => !next.1.op.onStore) = true
  | _ => True

instance (s : System) : (event : ManagerEvent) → Decidable (StoreWorks s event)
  | .call n (some _) =>
      inferInstanceAs (Decidable (((s.threads n).next.all fun next => !next.1.op.onStore) = true))
  | .call _ none | .submit _ _ _ _ | .pause _ _ | .resume _ _ | .cancel _ _ | .retry _ _ _
  | .pump _ | .pickUp _ _ | .exit _ | .lock _ | .proceed _ | .setStrategy _ | .shutdown
  | .start _ => .isTrue trivial

/-- No `cancel` takes a RENAMING job out of `waiting` or `paused`. -/
def SparesRenaming (s : System) : ManagerEvent → Prop
  | .cancel _ id => s.world.db.state id = some .renaming →
      id ∉ s.manager.waiting ∧ id ∉ s.manager.paused
  | _ => True

instance (s : System) : (event : ManagerEvent) → Decidable (SparesRenaming s event)
  | .cancel _ id => inferInstanceAs (Decidable (s.world.db.state id = some .renaming →
      id ∉ s.manager.waiting ∧ id ∉ s.manager.paused))
  | .call _ _ | .submit _ _ _ _ | .pause _ _ | .resume _ _ | .retry _ _ _
  | .pump _ | .pickUp _ _ | .exit _ | .lock _ | .proceed _ | .setStrategy _ | .shutdown
  | .start _ => .isTrue trivial

/-! ## Who answers for a job -/

/-- A `cancel` that will be refused, and will put the job back. -/
def GivesBack (id : Bytes) (w : World) : Thread → Prop
  | .cancelWaits id' true => id' = id
  | .cancelActs id' true rest => id' = id ∧
      rest.Safe machine (cancelContract id) (fun result _ => result.1 ≠ .ok) w
  | _ => False

structure Accounted (s : System) : Prop where
  queued : ∀ id ∈ s.manager.requests, s.world.db.state id = some .queued →
    s.manager.Owns id ∨ ∃ n, s.roles n = .cancels id
  moving : ∀ id ∈ s.manager.requests, s.world.db.state id = some .renaming →
    s.manager.Owns id ∨ ∃ n, GivesBack id s.world (s.threads n)
  works : ∀ n id rest, s.threads n = .working id rest →
    rest.Safe machine (workerContract id) (fun due w' => due = none → Among id Resolved w')
      s.world
  cancels : ∀ n id wasRunnable rest, s.threads n = .cancelActs id wasRunnable rest →
    rest.Safe machine (cancelContract id) (fun _ w' => Begun id w') s.world

theorem GivesBack.role {id : Bytes} {w : World} {thread : Thread} (h : GivesBack id w thread) :
    thread.role = .cancels id := by
  unfold GivesBack at h
  split at h
  · rw [h]
    rfl
  · rw [h.1]
    rfl
  · cases h

theorem GivesBack.interfere {id : Bytes} {w w' : World} {thread : Thread}
    (h : GivesBack id w thread) (rely : (cancelContract id).rely w w') :
    GivesBack id w' thread := by
  unfold GivesBack at h ⊢
  split at h
  · exact h
  · exact ⟨h.1, h.2.interfere rely⟩
  · cases h

section Step
variable {s s' t : System} {n : Nat} {thread : Thread} {event : ManagerEvent}

/-- A section. Whoever it takes out of the dispatch state, the thread answers for; and
a duty of the thread is passed on or done. -/
theorem Accounted.change (inv : Accounted s) (world : s'.world = s.world)
    (threads : s'.threads = s.threads)
    (owned : ∀ id ∈ s'.manager.requests, s.manager.Owns id ∨ id ∉ s.manager.requests →
      s'.manager.Owns id ∨
        (s.world.db.state id = some .queued → thread.role = .cancels id) ∧
        (s.world.db.state id = some .renaming → GivesBack id s.world thread))
    (queued : ∀ id, s.roles n = .cancels id → s.world.db.state id = some .queued →
      thread.role = .cancels id)
    (moving : ∀ id, s.world.db.state id = some .renaming →
      GivesBack id s.world (s.threads n) → s'.manager.Owns id ∨ GivesBack id s.world thread)
    (works : ∀ id rest, thread = .working id rest →
      rest.Safe machine (workerContract id) (fun due w' => due = none → Among id Resolved w')
        s.world)
    (cancels : ∀ id wasRunnable rest, thread = .cancelActs id wasRunnable rest →
      rest.Safe machine (cancelContract id) (fun _ w' => Begun id w') s.world) :
    Accounted (s'.setThread n thread) := by
  have hother : ∀ {k}, k ≠ n → (s'.setThread n thread).threads k = s.threads k := by
    intro k hk
    rw [System.threads_setThread_of_ne hk, threads]
  have hself : (s'.setThread n thread).threads n = thread := System.threads_setThread_self
  have hworld : (s'.setThread n thread).world = s.world := world
  refine ⟨?_, ?_, ?_, ?_⟩
  · intro id hid hstate
    rw [hworld] at hstate
    have hnow : s'.manager.Owns id ∨ thread.role = .cancels id →
        s'.manager.Owns id ∨ ∃ k, (s'.setThread n thread).roles k = .cancels id := by
      refine Or.imp_right fun h => ⟨n, ?_⟩
      rw [System.roles, hself]
      exact h
    have hbefore : (s.manager.Owns id ∨ id ∉ s.manager.requests) ∨
        ∃ k, s.roles k = .cancels id := by
      by_cases hknown : id ∈ s.manager.requests
      · exact (inv.queued id hknown hstate).imp_left Or.inl
      · exact Or.inl (Or.inr hknown)
    rcases hbefore with howned | ⟨k, hk⟩
    · exact hnow ((owned id hid howned).imp_right fun h => h.1 hstate)
    · by_cases hkn : k = n
      · rw [hkn] at hk
        exact hnow (Or.inr (queued id hk hstate))
      · refine Or.inr ⟨k, ?_⟩
        rw [System.roles, hother hkn]
        exact hk
  · intro id hid hstate
    rw [hworld] at hstate ⊢
    have hnow : s'.manager.Owns id ∨ GivesBack id s.world thread →
        s'.manager.Owns id ∨
          ∃ k, GivesBack id s.world ((s'.setThread n thread).threads k) := by
      refine Or.imp_right fun h => ⟨n, ?_⟩
      rw [hself]
      exact h
    have hbefore : (s.manager.Owns id ∨ id ∉ s.manager.requests) ∨
        ∃ k, GivesBack id s.world (s.threads k) := by
      by_cases hknown : id ∈ s.manager.requests
      · exact (inv.moving id hknown hstate).imp_left Or.inl
      · exact Or.inl (Or.inr hknown)
    rcases hbefore with howned | ⟨k, hk⟩
    · exact hnow ((owned id hid howned).imp_right fun h => h.2 hstate)
    · by_cases hkn : k = n
      · rw [hkn] at hk
        exact hnow (moving id hstate hk)
      · refine Or.inr ⟨k, ?_⟩
        rw [hother hkn]
        exact hk
  · intro k id rest h
    rw [hworld]
    by_cases hkn : k = n
    · rw [hkn, hself] at h
      exact works id rest h
    · rw [hother hkn] at h
      exact inv.works k id rest h
  · intro k id wasRunnable rest h
    rw [hworld]
    by_cases hkn : k = n
    · rw [hkn, hself] at h
      exact cancels id wasRunnable rest h
    · rw [hother hkn] at h
      exact inv.cancels k id wasRunnable rest h

/-- A section of a thread that does not cancel, and does not begin to cancel or to work.
It leaves the jobs where they are, up to their place in the dispatch state. -/
theorem Accounted.section (inv : Accounted s) (world : s'.world = s.world)
    (threads : s'.threads = s.threads)
    (owned : ∀ id ∈ s'.manager.requests, s.manager.Owns id ∨ id ∉ s.manager.requests →
      s'.manager.Owns id)
    (before : ∀ id, s.roles n ≠ .cancels id)
    (after : ∀ id, thread.role ≠ .cancels id ∧ thread.role ≠ .works id) :
    Accounted (s'.setThread n thread) := by
  refine inv.change world threads (fun id hid h => Or.inl (owned id hid h)) ?_ ?_ ?_ ?_
  · intro id h
    exact absurd h (before id)
  · intro id _ h
    exact absurd h.role (before id)
  · rintro id rest rfl
    exact absurd rfl (after id).2
  · rintro id wasRunnable rest rfl
    exact absurd rfl (after id).1

theorem Calling.next {thread : Thread} {c : Call} {rest : Reply c → Thread}
    (h : Calling thread c rest) : thread.next = some ⟨c, rest⟩ := by
  cases h <;> rfl

/-- A call in a working store meets no fault of a statement. -/
theorem StoreWorks.assume {fault : Option Fault} {c : Call} {rest : Reply c → Thread}
    (h : StoreWorks s (.call n fault)) (calling : Calling (s.threads n) c rest) :
    c.op.onStore = true → fault = none := by
  intro hstore
  cases fault with
  | none => rfl
  | some e =>
      have hall : ((s.threads n).next.all fun next => !next.1.op.onStore) = true := h
      rw [calling.next] at hall
      simp [hstore] at hall

/-- What a call does to a job is what a `cancel` of the job puts up with. -/
theorem Registry.cancel_rely (registry : Registry s) {c : Call} {rest : Reply c → Thread}
    {fault : Option Fault} (calling : Calling (s.threads n) c rest) (id : Bytes) :
    (cancelContract id).rely s.world (perform c.op fault s.world).2 :=
  ⟨perform_state_ne_none, fun begun => begun.call (calling.advancing (registry.confined n))⟩

theorem Accounted.called (inv : Accounted s) (registry : Registry s)
    (dispatch : Dispatch s.manager s.roles) {c : Call} {rest : Reply c → Thread}
    {fault : Option Fault} (up : StoreWorks s (.call n fault))
    (calling : Calling (s.threads n) c rest) :
    Accounted ({ s with world := (perform c.op fault s.world).2 }.setThread n
      (rest (perform c.op fault s.world).1)) := by
  have hassume := up.assume calling
  have hroles : ({ s with world := (perform c.op fault s.world).2 }.setThread n
      (rest (perform c.op fault s.world).1)).roles = s.roles := by
    rw [System.roles_setThread, calling.role]
    exact Function.update_eq_self n s.roles
  refine ⟨?_, ?_, ?_, ?_⟩
  · intro id hid hstate
    rw [hroles]
    rcases registry.rowStep calling hid with hsame | hfailed | ⟨_, hnot⟩
    · exact inv.queued id hid (hsame.symm.trans hstate)
    · cases hfailed.symm.trans hstate
    · exact absurd hstate hnot
  · intro id hid hstate
    rcases registry.rowStep calling hid with hsame | hfailed | ⟨⟨next, hthread⟩, _⟩
    · refine (inv.moving id hid (hsame.symm.trans hstate)).imp_right ?_
      rintro ⟨k, hk⟩
      by_cases hkn : k = n
      · subst hkn
        refine ⟨k, ?_⟩
        rw [System.threads_setThread_self]
        generalize hthread : s.threads k = thread at calling hk
        cases calling with
        | @cancel id' wasRunnable _ next =>
            cases wasRunnable with
            | false => cases hk
            | true => exact ⟨hk.1, (hk.2.step hassume).2⟩
        | _ => cases hk
      · refine ⟨k, ?_⟩
        rw [System.threads_setThread_of_ne hkn]
        exact hk.interfere (registry.cancel_rely calling id)
    · cases hfailed.symm.trans hstate
    · -- the job is RENAMING because its worker says so, and a worker's job is active
      refine Or.inl ?_
      have hactive : id ∈ s.manager.active := by
        refine dispatch.works n id ?_
        rw [System.roles, hthread]
        rfl
      change s.manager.places id ≠ 0
      rw [Manager.places, if_pos hactive]
      omega
  · intro k id rest' h
    by_cases hkn : k = n
    · subst hkn
      rw [System.threads_setThread_self] at h
      generalize hthread : s.threads k = thread at calling
      cases calling with
      | working =>
          cases h
          exact ((inv.works k _ _ hthread).step hassume).2
      | _ => cases h
    · rw [System.threads_setThread_of_ne hkn] at h
      have hrole : s.roles k = .works id := by
        rw [System.roles, show s.threads k = _ from h]
        rfl
      refine (inv.works k id rest' h).interfere ?_
      rcases registry.rowStep calling (registry.works k id hrole) with
        hsame | hfailed | ⟨⟨next, hthread⟩, _⟩
      · exact Or.inl hsame
      · exact Or.inr hfailed
      · -- two workers on one job
        refine absurd (dispatch.worksAlone k n id hrole ?_) hkn
        rw [System.roles, hthread]
        rfl
  · intro k id wasRunnable rest' h
    by_cases hkn : k = n
    · subst hkn
      rw [System.threads_setThread_self] at h
      generalize hthread : s.threads k = thread at calling
      cases calling with
      | cancel =>
          cases h
          exact ((inv.cancels k _ _ _ hthread).step hassume).2
      | _ => cases h
    · rw [System.threads_setThread_of_ne hkn] at h
      exact (inv.cancels k id wasRunnable rest' h).interfere (registry.cancel_rely calling id)

theorem Thread.not_cancels_of_free {thread : Thread} (free : thread.isFree = true) (id : Bytes) :
    thread.role ≠ .cancels id := by
  rw [Thread.role_of_free free]
  nofun

/-- A thread that takes the store mutex, or moves on between its sections. -/
theorem Accounted.quiet (inv : Accounted s) (registry : Registry s) {storeMutex : Option Nat}
    (h : QuietStep (s.threads n) thread) :
    Accounted ({ s with storeMutex := storeMutex }.setThread n thread) := by
  have hcancels : ∀ id, s.roles n = .cancels id → id ∈ s.manager.requests :=
    registry.cancels n
  refine inv.change rfl rfl (fun id hid howned => Or.inl ?_) ?_ ?_ ?_ ?_
  · rcases howned with howned | hnew
    · exact howned
    · exact absurd hid hnew
  · intro id hrole _
    rw [h.role]
    exact hrole
  · -- a `cancel` that gets the store mutex begins with its statements
    intro id hstate hback
    generalize hthread : s.threads n = before at h hback
    cases h with
    | locked h =>
        cases before with
        | cancelWaits id' wasRunnable =>
            cases wasRunnable with
            | false => cases hback
            | true =>
                cases h
                have hid : id' = id := hback
                subst hid
                exact Or.inr ⟨rfl, cancel_refuses ⟨.renaming, hstate, nofun⟩⟩
        | cancelActs => cases h
        | _ => cases hback
    | refused free => exact absurd hback.role (Thread.not_cancels_of_free free id)
    | claimedRetry free => exact absurd hback.role (Thread.not_cancels_of_free free id)
    | refusedRetry retrying => cases before <;> first | cases hback | cases retrying
    | triesRetry retrying => cases before <;> first | cases hback | cases retrying
    | _ => cases hback
  · intro id rest hworking
    exact absurd hworking (h.not_working rest)
  · intro id wasRunnable rest hacts
    generalize hthread : s.threads n = before at h
    cases h with
    | locked h =>
        cases before with
        | cancelWaits id' wasRunnable' =>
            cases h
            cases hacts
            refine cancel_begins (registry.rows id (Or.inl (hcancels id ?_)))
            rw [System.roles, hthread]
            rfl
        | submitWaits | retryWaits =>
            cases h
            cases hacts
        | _ => cases h
    | _ => cases hacts

/-- A job that a step leaves where it is in the dispatch state is owned as before. -/
theorem Manager.owns_of_stays {m m' : Manager} {id : Bytes} (requests : m'.requests = m.requests)
    (places : m'.places id = m.places id) (known : id ∈ m'.requests)
    (owned : m.Owns id ∨ id ∉ m.requests) : m'.Owns id := by
  rw [requests] at known
  rw [Manager.Owns, places]
  exact owned.resolve_right (not_not.mpr known)

/-! One lemma for each other kind of step. -/

section Kinds
variable {id : Bytes} {request : MoveRequest} {wasRunnable : Bool} {m : Manager}

theorem Accounted.paused (inv : Accounted s) (dispatch : Dispatch s.manager s.roles)
    (free : (s.threads n).isFree = true) (h : s.manager.pause id = .ok m) :
    Accounted ({ s with manager := m }.setThread n (.returned .ok [])) := by
  have hplaces := Manager.places_pause h (dispatch.once id)
  obtain ⟨_, _, rfl⟩ := Manager.pause_eq h
  refine inv.section rfl rfl ?_ (Thread.not_cancels_of_free free)
    fun _ => ⟨by rintro ⟨⟩, by rintro ⟨⟩⟩
  intro other hother howned
  by_cases heq : other = id
  · rw [Manager.Owns, hplaces, if_pos heq]
    omega
  · refine Manager.owns_of_stays (m := s.manager) rfl ?_ hother howned
    rw [hplaces, if_neg heq]

theorem Accounted.resumed (inv : Accounted s) (free : (s.threads n).isFree = true)
    (h : s.manager.resume id = .ok m) :
    Accounted ({ s with manager := m }.setThread n (.returned .ok [])) := by
  have hplaces := Manager.places_resume h
  obtain ⟨_, _, rfl⟩ := Manager.resume_eq h
  exact inv.section rfl rfl
    (fun other => Manager.owns_of_stays (m := s.manager) rfl (hplaces other))
    (Thread.not_cancels_of_free free) fun _ => ⟨(by rintro ⟨⟩), (by rintro ⟨⟩)⟩

theorem Accounted.pumped (inv : Accounted s) (nowMs : Int) :
    Accounted { s with manager := s.manager.pump nowMs } := by
  have howns : ∀ id, (s.manager.pump nowMs).Owns id ↔ s.manager.Owns id := by
    intro id
    rw [Manager.Owns, Manager.places_pump]
    rfl
  refine ⟨?_, ?_, inv.works, inv.cancels⟩
  · intro id hid hstate
    rw [Manager.requests_pump] at hid
    exact (inv.queued id hid hstate).imp_left (howns id).mpr
  · intro id hid hstate
    rw [Manager.requests_pump] at hid
    exact (inv.moving id hid hstate).imp_left (howns id).mpr

theorem Accounted.restarted (inv : Accounted s) (workers : Nat → Bool) :
    Accounted { s with
      manager := { s.manager with running := true, stopping := false }
      threads := fun n =>
        if workers n && (s.threads n).isFree then .waiting else s.threads n } := by
  have hthread := restarted_thread s workers
  have hbusy : ∀ {k id}, s.roles k = .cancels id →
      (if workers k && (s.threads k).isFree then Thread.waiting else s.threads k) =
        s.threads k := by
    intro k id hk
    refine (hthread k).resolve_right fun h => ?_
    exact Thread.not_cancels_of_free h.1 id hk
  refine ⟨?_, ?_, ?_, ?_⟩
  · intro id hid hstate
    refine (inv.queued id hid hstate).imp_right (Exists.imp fun k hk => ?_)
    simp only [System.roles]
    rw [hbusy hk]
    exact hk
  · intro id hid hstate
    refine (inv.moving id hid hstate).imp_right (Exists.imp fun k hk => ?_)
    simp only
    rw [hbusy hk.role]
    exact hk
  · intro k id rest h
    simp only at h
    rcases hthread k with hsame | ⟨_, hwaiting⟩
    · rw [hsame] at h
      exact inv.works k id rest h
    · rw [hwaiting] at h
      cases h
  · intro k id wasRunnable rest h
    simp only at h
    rcases hthread k with hsame | ⟨_, hwaiting⟩
    · rw [hsame] at h
      exact inv.cancels k id wasRunnable rest h
    · rw [hwaiting] at h
      cases h

theorem Accounted.claimedSubmit (inv : Accounted s) {nowMs : Int}
    (free : (s.threads n).isFree = true) (h : s.manager.claimSubmit id = .ok m) :
    Accounted ({ s with manager := m }.setThread n (.submitWaits id request nowMs)) := by
  obtain ⟨_, _, rfl⟩ := Manager.claimSubmit_eq h
  exact inv.section rfl rfl (fun other => Manager.owns_of_stays (m := s.manager) rfl rfl)
    (Thread.not_cancels_of_free free) fun _ => ⟨(by rintro ⟨⟩), (by rintro ⟨⟩)⟩

theorem Accounted.claimedCancel (inv : Accounted s) (dispatch : Dispatch s.manager s.roles)
    (spares : SparesRenaming s (.cancel n id)) (free : (s.threads n).isFree = true)
    (h : s.manager.claimCancel id = .ok (wasRunnable, m)) :
    Accounted ({ s with manager := m }.setThread n (.cancelWaits id wasRunnable)) := by
  have hplaces := Manager.places_claimCancel h (dispatch.once id)
  obtain ⟨_, hactive, hwas, rfl⟩ := Manager.claimCancel_eq h
  have hfree := Thread.not_cancels_of_free free
  refine inv.change rfl rfl ?_ (fun id' h' => absurd h' (hfree id'))
    (fun id' _ h' => absurd h'.role (hfree id')) (by rintro _ _ ⟨⟩) (by rintro _ _ _ ⟨⟩)
  intro other hother howned
  by_cases heq : other = id
  · subst heq
    refine Or.inr ⟨fun _ => rfl, fun hstate => ?_⟩
    -- a RENAMING job is in `runnable` if it is anywhere
    obtain ⟨hwaiting, hpaused⟩ := spares hstate
    have hcount : s.manager.places other ≠ 0 := howned.resolve_right (not_not.mpr hother)
    rw [Manager.places, if_neg hwaiting, if_neg hpaused, if_neg hactive] at hcount
    have hrunnable : other ∈ s.manager.runnable := List.count_pos_iff.mp (by omega)
    rw [hwas, decide_eq_true hrunnable]
    rfl
  · refine Or.inl (Manager.owns_of_stays (m := s.manager) rfl ?_ hother howned)
    rw [hplaces, if_neg heq]

theorem Accounted.claimedCandidate (inv : Accounted s) {nowMs : Int} {k : Nat}
    (thread : s.threads n = .retryProbes id request nowMs k (.pure (.ok false)))
    (h : s.manager.claimCandidate (retryCandidate id k) = some m) :
    Accounted ({ s with manager := m }.setThread n
      (.retryRecords (retryCandidate id k) request
        (recordIntent (freshJob (retryCandidate id k) request nowMs) id))) := by
  obtain ⟨_, _, rfl⟩ := Manager.claimCandidate_eq h
  refine inv.section rfl rfl (fun other => Manager.owns_of_stays (m := s.manager) rfl rfl) ?_
    fun _ => ⟨by rintro ⟨⟩, by rintro ⟨⟩⟩
  intro id
  rw [System.roles, thread]
  rintro ⟨⟩

theorem Accounted.published (inv : Accounted s) {recorded : Except Bytes Unit}
    {storeMutex : Option Nat} (h : (s.threads n).publishes = some (id, request, recorded)) :
    Accounted ({ s with
      manager := s.manager.publish id request (System.recordedOk recorded)
      storeMutex := storeMutex }.setThread n (System.afterPublish recorded)) := by
  refine inv.section rfl rfl ?_ ?_ ?_
  · intro other hother howned
    rw [Manager.Owns, Manager.places_publish]
    rcases (Manager.requests_publish _ _).mp hother with hknown | hnew
    · have hcount : s.manager.places other ≠ 0 := howned.resolve_right (not_not.mpr hknown)
      omega
    · rw [if_pos hnew]
      omega
  · intro id'
    rw [System.roles, Thread.role_of_publishes h]
    rintro ⟨⟩
  · intro id'
    rw [System.afterPublish_role]
    exact ⟨(by rintro ⟨⟩), (by rintro ⟨⟩)⟩

theorem Accounted.settledCancel (inv : Accounted s) {outcome : CommandResult} {error : Bytes}
    (thread : s.threads n = .cancelActs id wasRunnable (.pure (outcome, error))) :
    Accounted ({ s with
      manager := s.manager.settleCancel id wasRunnable outcome
      storeMutex := none }.setThread n (.returned outcome error)) := by
  have hbegun : Begun id s.world := (inv.cancels n id wasRunnable _ thread).result
  have hrole : ∀ {id'}, s.roles n = .cancels id' → id' = id := by
    intro id' h
    rw [System.roles, thread] at h
    cases h
    rfl
  have hrequests : (s.manager.settleCancel id wasRunnable outcome).requests =
      s.manager.requests := by
    unfold Manager.settleCancel
    split <;> rfl
  refine inv.change rfl rfl ?_ ?_ ?_ (by rintro _ _ ⟨⟩) (by rintro _ _ _ ⟨⟩)
  · intro other hother howned
    refine Or.inl ?_
    rw [hrequests] at hother
    have hcount : s.manager.places other ≠ 0 := howned.resolve_right (not_not.mpr hother)
    rw [Manager.Owns, Manager.places_settleCancel]
    omega
  · intro id' h hqueued
    rw [hrole h] at hqueued
    obtain ⟨x, hx, hne⟩ := hbegun
    exact absurd (Option.some.inj (hx.symm.trans hqueued)) hne
  · intro id' _ hback
    refine Or.inl ?_
    have hid := hrole hback.role
    subst hid
    rw [thread] at hback
    cases wasRunnable with
    | false => cases hback
    | true =>
        have hrefused : outcome ≠ .ok := hback.2.result
        rw [Manager.Owns, Manager.places_settleCancel, if_pos ⟨⟨hrefused, rfl⟩, rfl⟩]
        omega

theorem Accounted.pickedUp (inv : Accounted s) (registry : Registry s)
    (dispatch : Dispatch s.manager s.roles) {nowMs : Int} (thread : s.threads n = .waiting)
    (h : s.manager.pickUp = some (id, request, m)) :
    Accounted ({ s with manager := m }.setThread n
      (.working id (workOn m.config id request m.strategy nowMs))) := by
  obtain ⟨_, hplaces⟩ := Manager.places_pickUp h (dispatch.once id)
  obtain ⟨rest, requests, hrunnable, hrequests, rfl⟩ := Manager.pickUp_eq h
  have hknown : id ∈ s.manager.requests := by
    refine registry.known id (Or.inl ?_)
    rw [hrunnable]
    exact List.mem_cons_self
  have hsame := hrequests hknown
  subst hsame
  refine inv.change rfl rfl ?_ ?_ ?_ ?_ (by rintro _ _ _ ⟨⟩)
  · intro other hother howned
    exact Or.inl (Manager.owns_of_stays (m := s.manager) rfl (hplaces other) hother howned)
  · intro id' h'
    rw [System.roles, thread] at h'
    cases h'
  · intro id' _ hback
    rw [thread] at hback
    cases hback
  · intro id' rest' hworking
    cases hworking
    obtain ⟨x, hx⟩ := Option.ne_none_iff_exists'.mp (registry.rows id (Or.inl hknown))
    exact worker_workOn ⟨x, hx, Or.inl trivial⟩

theorem Accounted.settled (inv : Accounted s) (dispatch : Dispatch s.manager s.roles)
    {due : Option Int} (thread : s.threads n = .working id (.pure due)) :
    Accounted ({ s with manager := s.manager.settle id due }.setThread n .waiting) := by
  have hrole : s.roles n = .works id := by
    rw [System.roles, thread]
    rfl
  have hplaces := Manager.places_settle (dispatch.works n id hrole) (dispatch.once id) due
  have hrequests : (s.manager.settle id due).requests = s.manager.requests := by
    cases due <;> rfl
  have hresolved := (inv.works n id _ thread).result
  refine inv.change rfl rfl ?_ ?_ ?_ (by rintro _ _ ⟨⟩) (by rintro _ _ _ ⟨⟩)
  · intro other hother howned
    by_cases heq : other = id
    · cases due with
      | some dueMs =>
          refine Or.inl ?_
          rw [Manager.Owns, hplaces, if_pos heq]
          rintro ⟨⟩
      | none =>
          obtain ⟨x, hx, hS⟩ := hresolved rfl
          have hx' : x ≠ .queued ∧ x ≠ .renaming := by
            rcases hS with hS | rfl
            · exact hS
            · exact ⟨(by rintro ⟨⟩), (by rintro ⟨⟩)⟩
          rw [heq, hx]
          refine Or.inr ⟨fun h => ?_, fun h => ?_⟩
          · exact absurd (Option.some.inj h) hx'.1
          · exact absurd (Option.some.inj h) hx'.2
    · refine Or.inl (Manager.owns_of_stays (m := s.manager) hrequests ?_ hother howned)
      rw [hplaces, if_neg heq]
  · intro id' h'
    rw [hrole] at h'
    cases h'
  · intro id' _ hback
    have h' : s.roles n = .cancels id' := hback.role
    rw [hrole] at h'
    cases h'

end Kinds

theorem Accounted.step (inv : Accounted s) (registry : Registry s)
    (dispatch : Dispatch s.manager s.roles) (up : StoreWorks s event)
    (spares : SparesRenaming s event) (step : SystemStep s event t) : Accounted t := by
  cases step with
  | quiet actor h => exact inv.quiet registry h
  | called calling => exact inv.called registry dispatch up calling
  | paused free h => exact inv.paused dispatch free h
  | resumed free h => exact inv.resumed free h
  | @pumped nowMs => exact inv.pumped nowMs
  | tuned => exact ⟨inv.queued, inv.moving, inv.works, inv.cancels⟩
  | @restarted workers => exact inv.restarted workers
  | claimedSubmit free h => exact inv.claimedSubmit free h
  | claimedCancel free h => exact inv.claimedCancel dispatch spares free h
  | claimedCandidate thread h => exact inv.claimedCandidate thread h
  | published h => exact inv.published h
  | settledCancel thread => exact inv.settledCancel thread
  | pickedUp thread h => exact inv.pickedUp registry dispatch thread h
  | settled thread => exact inv.settled dispatch thread

end Step

/-! ## Nobody is stranded -/

/-- Inside a command, between two of its sections. -/
def Thread.inCommand : Thread → Bool
  | .idle | .returned _ _ | .waiting | .exited | .working _ _ => false
  | _ => true

/-- The conditions under which no job is stranded. -/
def Careful (s : System) (event : ManagerEvent) : Prop :=
  PutsBackLost s event ∧ StoreWorks s event ∧ SparesRenaming s event

instance (s : System) (event : ManagerEvent) : Decidable (Careful s event) :=
  inferInstanceAs (Decidable (_ ∧ _ ∧ _))

/-- Every job that is still to be moved is somewhere. -/
def NoneStranded (s : System) : Prop :=
  ∀ id ∈ s.manager.requests, s.world.db.state id = some .queued ∨
    s.world.db.state id = some .renaming → s.manager.Owns id

theorem accounted_started (config : RetryConfig) (strategy : MoveStrategy) (w : World)
    (workers : Nat → Bool) : Accounted (System.started config strategy w workers) := by
  have hthread : ∀ n, (System.started config strategy w workers).threads n = .waiting ∨
      (System.started config strategy w workers).threads n = .idle := by
    intro n
    simp only [System.started]
    split
    · exact Or.inl rfl
    · exact Or.inr rfl
  refine ⟨?_, ?_, ?_, ?_⟩
  · intro id hid
    exact absurd hid (AList.notMem_empty id)
  · intro id hid
    exact absurd hid (AList.notMem_empty id)
  · intro n id rest h
    rcases hthread n with h' | h' <;>
      · rw [h'] at h
        cases h
  · intro n id wasRunnable rest h
    rcases hthread n with h' | h' <;>
      · rw [h'] at h
        cases h

/-- In every history of a started manager in which no statement fails, no `cancel` takes
a RENAMING job out of `waiting` or `paused`, and a refused `cancel` puts back only jobs that
are nowhere: whenever no command is between its sections, every job that is QUEUED or
RENAMING on record is in the dispatch state. -/
theorem no_job_stranded (config : RetryConfig) (strategy : MoveStrategy) (w : World)
    (workers : Nat → Bool) (s : System)
    (reach : GuardedReach System.act Careful (System.started config strategy w workers) s)
    (quiet : ∀ n, (s.threads n).inCommand = false) : NoneStranded s := by
  obtain ⟨_, _, hinv⟩ : Dispatch s.manager s.roles ∧ Registry s ∧ Accounted s := by
    refine reach.invariant (fun s => Dispatch s.manager s.roles ∧ Registry s ∧ Accounted s) ?_
      ⟨dispatch_started config strategy w workers, registry_started config strategy w workers,
        accounted_started config strategy w workers⟩
    intro s t event careful h inv
    have hstep := systemStep h
    exact ⟨inv.1.step careful.1 hstep, inv.2.1.step hstep,
      inv.2.2.step inv.2.1 inv.1 careful.2.1 careful.2.2 hstep⟩
  have hcancels : ∀ n id, (s.threads n).role ≠ .cancels id := by
    intro n id hrole
    have hquiet := quiet n
    generalize s.threads n = thread at hrole hquiet
    cases thread with
    | cancelWaits | cancelActs => cases hquiet
    | _ => cases hrole
  rintro id hid (hqueued | hrenaming)
  · refine (hinv.queued id hid hqueued).resolve_right ?_
    rintro ⟨n, hn⟩
    exact hcancels n id hn
  · refine (hinv.moving id hid hrenaming).resolve_right ?_
    rintro ⟨n, hn⟩
    exact hcancels n id hn.role

/-! Thread 1 of the sample manager submits a job; a worker records RENAMING, its rename
fails, and the job waits for another attempt. -/

def sampleBackoff : List ManagerEvent :=
  [.submit 1 (lit "j") sampleRequest 0, .lock 1, .call 1 none, .proceed 1, .proceed 1,
    .pickUp 3 0, .call 3 none, .call 3 none, .call 3 none, .call 3 none, .call 3 none,
    .call 3 none, .call 3 none, .call 3 none, .call 3 none, .call 3 (some EXDEV),
    .call 3 none, .call 3 none, .proceed 3]

theorem sample_quiet {labels : List ManagerEvent} {s : System}
    (h : replay System.act labels sampleSystem = some s)
    (apart : ∀ event ∈ labels, NoStart event ∧ ∀ n ∈ event.actor, n ∈ [1, 3])
    (one : (s.threads 1).inCommand = false) (three : (s.threads 3).inCommand = false) (n : Nat) :
    (s.threads n).inCommand = false := by
  by_cases h1 : n = 1
  · rw [h1]
    exact one
  by_cases h3 : n = 3
  · rw [h3]
    exact three
  · rw [replay_apart h apart (by simp [h1, h3])]
    simp only [sampleSystem, System.started]
    split <;> rfl

theorem no_job_stranded_sample :
    ∃ s, replay System.act sampleBackoff sampleSystem = some s ∧
      lit "j" ∈ s.manager.requests ∧ s.world.db.state (lit "j") = some .renaming ∧
      NoneStranded s := by
  have meet : AllSteps System.act Careful sampleBackoff sampleSystem := by
    decide
  obtain ⟨s, hs⟩ := Option.isSome_iff_exists.mp
    (by decide : (replay System.act sampleBackoff sampleSystem).isSome = true)
  have hfacts : (replay System.act sampleBackoff sampleSystem).map (fun s =>
      (decide (lit "j" ∈ s.manager.requests), s.world.db.state (lit "j"),
        (s.threads 1).inCommand, (s.threads 3).inCommand)) =
      some (true, some .renaming, false, false) := by
    decide
  rw [hs] at hfacts
  obtain ⟨hknown, hstate, hone, hthree⟩ := by
    simpa only [Option.map_some, Option.some.injEq, Prod.mk.injEq] using hfacts
  refine ⟨s, hs, of_decide_eq_true hknown, hstate, ?_⟩
  exact no_job_stranded _ _ _ _ s (.of_replay meet hs)
    (sample_quiet hs (by decide) hone hthree)

/-- The waiting job is cancelled: the command is refused, and the job is nowhere, with its
object still where it was. -/
theorem waiting_job_stranded :
    ¬ ∀ config strategy w workers s, GuardedReach System.act StoreWorks
        (System.started config strategy w workers) s →
      (∀ n, (s.threads n).inCommand = false) →
      ∀ id request dir object, request ∈ s.manager.requests.lookup id →
        s.world.fs.root (cstr request.sourceDir) = some dir →
        w.fs.entry ⟨dir, request.sourceName⟩ = some object →
        s.world.fs.entry ⟨dir, request.sourceName⟩ = some object →
        s.world.db.state id = some .queued ∨ s.world.db.state id = some .renaming →
        s.manager.Owns id := by
  intro h
  let labels : List ManagerEvent :=
    sampleBackoff ++
      ([.cancel 1 (lit "j"), .lock 1, .call 1 none, .proceed 1] : List ManagerEvent)
  have meet : AllSteps System.act StoreWorks labels sampleSystem := by
    decide
  obtain ⟨s, hs⟩ := Option.isSome_iff_exists.mp
    (by decide : (replay System.act labels sampleSystem).isSome = true)
  have hmanager : (replay System.act labels sampleSystem).map (fun s =>
      ((s.manager.requests.lookup (lit "j") : Option MoveRequest),
        (s.threads 1).inCommand, (s.threads 3).inCommand, s.manager.places (lit "j"))) =
      some (some sampleRequest, false, false, 0) := by
    decide
  have hworld : (replay System.act labels sampleSystem).map (fun s =>
      (s.world.fs.root (lit "/s"), s.world.fs.entry sampleSource.1,
        s.world.db.state (lit "j"))) =
      some (some 1, some sampleSource.2, some .renaming) := by
    decide
  rw [hs] at hmanager hworld
  obtain ⟨hrequest, hone, hthree, hplaces⟩ := by
    simpa only [Option.map_some, Option.some.injEq, Prod.mk.injEq] using hmanager
  obtain ⟨hroot, hentry, hstate⟩ := by
    simpa only [Option.map_some, Option.some.injEq, Prod.mk.injEq] using hworld
  have howns := h _ _ _ _ s (.of_replay meet hs) (sample_quiet hs (by decide) hone hthree)
    (lit "j") sampleRequest 1 sampleSource.2 hrequest hroot (by decide) hentry (Or.inr hstate)
  exact howns hplaces

end FileMover
