import FileMover.Engine.Runs

/-!
# What DONE means

The engine infers success from two probes of names and not from the identity of
an object, so DONE is worth what those probes are worth. Proved here: in every
history of one job in which the object that the probes make a run believe in is
the one the last commit took, DONE and `Completed` mean that the final name
holds exactly that object. The source may be removed by others at any time
before a commit.
-/

namespace FileMover

open Framework

variable {p : Places} {id : Bytes} {request : MoveRequest} {c : Call}
  {fault : Option Fault} {σ σ' : Session}

/-- The object that the two probes of phase 5 make the run believe in, given
what the first has seen. -/
def believed (σ : Session) (fault : Option Fault) (p : Places) : Option Inode :=
  σ.ledger.staged <|> σ.sees fault p.final

/-- When the second probe is made, the run believes in nothing or in the object
that the last commit took. A record that is still QUEUED cannot become DONE
without passing phase 2 again, so there nothing is asked. -/
def BeliefJustified (id : Bytes) (request : MoveRequest) (c : Call)
    (fault : Option Fault) (σ : Session) : Prop :=
  c.site = .finalProbe → ∀ p, placesOf σ.world.fs.root id request = some p →
    σ.state id = some .queued ∨ believed σ fault p = none ∨
      believed σ fault p = (σ.ledger.moved id).head?

/-- One job, with any failures, while others may remove the source file as long
as no commit has taken it; `condition` restricts the calls. -/
def oneJobRemovable (id : Bytes) (request : MoveRequest)
    (condition : Bytes → MoveRequest → Call → Option Fault → Session → Prop) :
    Setting where
  begins j r _ := j = id ∧ r = request
  meets := condition
  interferes σ σ' := ∃ dir, σ.world.fs.root (cstr request.sourceDir) = some dir ∧
    σ.ledger.moved id = [] ∧
    σ' = { σ with world :=
      { σ.world with fs := σ.world.fs.drop ⟨dir, request.sourceName⟩ } }

instance (id : Bytes) (request : MoveRequest) (c : Call) (fault : Option Fault)
    (σ : Session) : Decidable (BeliefJustified id request c fault σ) :=
  inferInstanceAs (Decidable (c.site = .finalProbe →
    ∀ p, p ∈ placesOf σ.world.fs.root id request →
      σ.state id = some .queued ∨ believed σ fault p = none ∨
        believed σ fault p = (σ.ledger.moved id).head?))

instance (c : Call) (fault : Option Fault) (σ : Session) :
    Decidable ((oneJobRemovable id request BeliefJustified).meets id request c fault σ) :=
  inferInstanceAs (Decidable (BeliefJustified id request c fault σ))

/-- The final name holds the object that the last commit took. -/
def Arrived (id : Bytes) (request : MoveRequest) (σ : Session) : Prop :=
  ∃ p object, placesOf σ.world.fs.root id request = some p ∧
    (σ.ledger.moved id).head? = some object ∧ σ.entry p.final = some object

/-- The invariant of the record: before phase 2 nothing was moved, during the
move a run believes in the right object, and after it the object is there. -/
structure RecordTrue (id : Bytes) (request : MoveRequest) (σ : Session) : Prop where
  queued : σ.state id = some .queued → σ.ledger.moved id = []
  underway : Underway (σ.state id) →
    σ.ledger.trusted = none ∨ σ.ledger.trusted = (σ.ledger.moved id).head?
  done : σ.state id = some .done → Arrived id request σ

/-- Nothing that the invariant reads has changed. -/
theorem RecordTrue.congr (inv : RecordTrue id request σ)
    (fs : σ'.world.fs = σ.world.fs) (state : σ'.state id = σ.state id)
    (moved : σ'.ledger.moved = σ.ledger.moved)
    (trusted : σ'.ledger.trusted = σ.ledger.trusted) :
    RecordTrue id request σ' := by
  refine ⟨?_, ?_, ?_⟩
  · rw [state, moved]
    exact inv.queued
  · rw [state, moved, trusted]
    exact inv.underway
  · intro hdone
    obtain ⟨p, object, hp, hhead, hfinal⟩ := inv.done (state ▸ hdone)
    refine ⟨p, object, fs ▸ hp, moved ▸ hhead, ?_⟩
    rw [Session.entry, fs]
    exact hfinal

/-- A step that changes names does so on a record that is under way, of which
the invariant promises nothing about names. -/
theorem RecordTrue.of_underway (inv : RecordTrue id request σ)
    (under : Underway (σ.state id)) (state : σ'.state id = σ.state id)
    (trusted : σ'.ledger.trusted = none ∨
      (σ'.ledger.trusted = σ.ledger.trusted ∧ σ'.ledger.moved = σ.ledger.moved)) :
    RecordTrue id request σ' := by
  obtain ⟨hdone, hqueued⟩ := not_underway_done under
  refine ⟨?_, ?_, ?_⟩
  · intro h
    exact absurd (state ▸ h) hqueued
  · intro _
    rcases trusted with h | ⟨h, hmoved⟩
    · exact Or.inl h
    · rw [h, hmoved]
      exact inv.underway under
  · intro h
    exact absurd (state ▸ h) hdone

theorem RecordTrue.record (inv : RecordTrue id request σ) (owner : σ.ledger.owner = id)
    {old target : JobState} (placed : placesOf σ.world.fs.root id request = some p)
    (was : σ.state id = some old) (legal : isLegalTransition old target = true)
    (allowed : Recordable p request σ target) (fs : σ'.world.fs = σ.world.fs)
    (state : σ'.state id = some target) (ledger : σ'.ledger = σ.ledger) :
    RecordTrue id request σ' := by
  have hentry : ∀ slot, σ'.entry slot = σ.entry slot := by
    intro slot
    rw [Session.entry, fs]
    rfl
  refine ⟨?_, ?_, ?_⟩
  · intro h
    rw [state] at h
    cases h
    exact allowed.elim
  · intro h
    rw [ledger]
    rw [state] at h
    rcases h with h | h
    · cases h
      exact Or.inl allowed
    · cases h
      have hold : old = .renaming := by
        cases old <;> first | rfl | cases legal
      exact inv.underway (Or.inl (was.trans (by rw [hold])))
  · intro h
    rw [state] at h
    cases h
    have hold : old = .transferring := by
      cases old <;> first | rfl | cases legal
    obtain ⟨object, htrusted, hfinal⟩ := allowed
    have hhead : (σ.ledger.moved id).head? = some object := by
      rcases inv.underway (Or.inr (was.trans (by rw [hold]))) with h | h
      · rw [htrusted] at h
        cases h
      · rw [← h]
        exact htrusted
    have hthere : σ.entry p.final = some object := by
      rcases hfinal with h | h
      · exact h
      · rw [Ledger.own, owner] at h
        rw [h] at hhead
        cases hhead
    exact ⟨p, object, fs ▸ placed, ledger ▸ hhead, (hentry p.final).trans hthere⟩

theorem RecordTrue.step (inv : RecordTrue id request σ) (owner : σ.ledger.owner = id)
    (step : MoveStep p id request c fault σ σ')
    (meets : BeliefJustified id request c fault σ) : RecordTrue id request σ' := by
  cases step with
  | quiet fs state ledger => exact inv.congr fs state (by rw [ledger]) (by rw [ledger])
  | readDone _ _ fs state ledger =>
      exact inv.congr fs state (by rw [ledger]; rfl) (by rw [ledger]; rfl)
  | lookStaged fs state ledger =>
      exact inv.congr fs state (by rw [ledger]) (by rw [ledger])
  | lookFinal site placed fs state ledger =>
      refine ⟨?_, ?_, ?_⟩
      · intro h
        rw [ledger]
        exact inv.queued (state ▸ h)
      · intro h
        rw [state] at h
        rw [ledger]
        rcases meets site p placed with hqueued | hbelieved
        · exact absurd hqueued (not_underway_done h).2
        · exact hbelieved
      · intro h
        obtain ⟨q, object, hq, hhead, hfinal⟩ := inv.done (state ▸ h)
        refine ⟨q, object, fs ▸ hq, ?_, ?_⟩
        · rw [ledger]
          exact hhead
        · rw [Session.entry, fs]
          exact hfinal
  | commit object _ fresh _ _ under _ _ state ledger =>
      exact inv.of_underway under state (Or.inl (by rw [ledger]; exact fresh))
  | link object _ fresh _ _ under _ _ state ledger =>
      exact inv.of_underway under state (Or.inl (by rw [ledger]; exact fresh))
  | unlink object _ _ _ _ _ under _ state ledger =>
      exact inv.of_underway under state (Or.inr (by rw [ledger]; exact ⟨rfl, rfl⟩))
  | publish object _ _ _ _ _ _ live _ state ledger =>
      rcases live with htransferring | hqueued
      · exact inv.of_underway (Or.inr htransferring) state
          (Or.inr (by rw [ledger]; exact ⟨rfl, rfl⟩))
      · refine ⟨?_, ?_, ?_⟩
        · intro _
          rw [ledger]
          exact inv.queued hqueued
        · intro h
          rw [state, hqueued] at h
          exact absurd rfl (not_underway_done h).2
        · intro h
          rw [state, hqueued] at h
          cases h
  | record old target placed was legal allowed fs state ledger =>
      exact inv.record owner placed was legal allowed fs state ledger

theorem recordTrue_keeps (id : Bytes) (request : MoveRequest) :
    (oneJobRemovable id request BeliefJustified).Keeps (RecordTrue id request) where
  begun _ inv :=
    ⟨inv.queued, fun _ => Or.inl rfl, fun hdone => inv.done hdone⟩
  step hbegins _ owner _ step meets _ inv := by
    obtain ⟨rfl, rfl⟩ := hbegins
    exact inv.step owner step meets
  interfere {σ σ'} h inv := by
    obtain ⟨dir, _, hnone, rfl⟩ := h
    refine ⟨inv.queued, inv.underway, ?_⟩
    intro hdone
    -- nothing is DONE while nothing was moved
    obtain ⟨_, _, _, hhead, _⟩ := inv.done hdone
    rw [hnone] at hhead
    cases hhead
  undisturbed {σ σ' p id' request' _} hbegins located owner _ h := by
    obtain ⟨rfl, rfl⟩ := hbegins
    obtain ⟨dir, hdir, hnone, rfl⟩ := h
    have hsource := located.source hdir
    have hother : ∀ slot, slot ≠ p.source →
        (σ.world.fs.drop ⟨dir, request'.sourceName⟩).entry slot = σ.entry slot := by
      intro slot hslot
      exact Filesystem.entry_drop_ne (hsource ▸ hslot)
    refine ⟨?_, Or.inr ⟨?_, ?_⟩, rfl⟩
    · have hstaged : ∀ slot : Slot, (if slot = p.source then none else
          (σ.world.fs.drop ⟨dir, request'.sourceName⟩).entry slot) =
            if slot = p.source then none else σ.entry slot := by
        intro slot
        split
        · rfl
        · exact hother slot ‹_›
      simp only [Session.view, Session.entry] at hstaged ⊢
      rw [hstaged, hstaged]
      rfl
    · rw [hsource]
      exact Filesystem.entry_drop_self
    · rw [Ledger.own, owner]
      exact hnone

/-- In every history of a job that starts QUEUED and whose second probes are all
justified, a DONE record or a `Completed` outcome means that the final name
holds the object that the last commit took. -/
theorem done_means_delivered (id : Bytes) (request : MoveRequest) (w : World)
    (queued : w.db.state id = some .queued) (d : Drive)
    (reach : Drive.Reach (oneJobRemovable id request BeliefJustified)
      ⟨Session.start w, none⟩ d)
    (reported : d.session.state id = some .done ∨
      ∃ error, d.active = some ⟨id, request, .pure (.completed, error)⟩) :
    Arrived id request d.session := by
  have init : RecordTrue id request (Session.start w) := by
    refine ⟨fun _ => rfl, fun _ => Or.inl rfl, ?_⟩
    intro hdone
    rw [Session.state, Session.start, queued] at hdone
    cases hdone
  obtain ⟨inv, hruns⟩ := (recordTrue_keeps id request).reach init reach
  rcases reported with hdone | ⟨error, hactive⟩
  · exact inv.done hdone
  · exact inv.done ((hruns _ hactive).reported rfl).1

/-- The sample job is delivered. -/
theorem done_means_delivered_sample :
    ∃ d, Drive.Reach (oneJobRemovable (lit "j") sampleRequest BeliefJustified)
        ⟨Session.start (sampleWorld .queued [sampleSource]), none⟩ d ∧
      d.session.state (lit "j") = some .done ∧
      Arrived (lit "j") sampleRequest d.session := by
  have meet : AllMeet (oneJobRemovable (lit "j") sampleRequest BeliefJustified)
      (lit "j") sampleRequest (fun _ => none)
      (execute (lit "j") sampleRequest .linkThenUnlink)
      ((Session.start (sampleWorld .queued [sampleSource])).begun (lit "j")
        sampleRequest) := by
    decide
  have reach := Drive.reach_run
    (S := oneJobRemovable (lit "j") sampleRequest BeliefJustified)
    .execute (lit "j") sampleRequest .linkThenUnlink ⟨rfl, rfl⟩ meet
  have hdone : ((execute (lit "j") sampleRequest .linkThenUnlink).exec sessionMachine
      (fun _ => none) ((Session.start (sampleWorld .queued [sampleSource])).begun
        (lit "j") sampleRequest)).2.state (lit "j") = some .done := by
    decide
  exact ⟨_, reach, hdone,
    done_means_delivered (lit "j") sampleRequest _ (by decide) _ reach (Or.inl hdone)⟩

/-- The sample job with another file at its destination and a probe of the
staging name that fails: the job becomes DONE although its file is still under
the staging name. -/
theorem done_without_delivery :
    ¬ ∀ id request w, w.db.state id = some .queued → ∀ d,
      Drive.Reach (oneJobRemovable id request fun _ _ _ _ _ => True)
        ⟨Session.start w, none⟩ d → d.session.state id = some .done →
      Arrived id request d.session := by
  intro h
  have reach := Drive.reach_run
    (S := oneJobRemovable (lit "j") sampleRequest fun _ _ _ _ _ => True)
    (σ := Session.start (sampleWorld .queued [sampleSource, (⟨2, lit "b"⟩, ⟨0, 9⟩)]))
    .execute (lit "j") sampleRequest .renameNoReplace ⟨rfl, rfl⟩
    (AllMeet.of_free (fun _ _ _ => trivial)
      (fun c => if c.site = .stagedProbe then some EIO else none) _ _)
  obtain ⟨p, object, hp, hhead, hfinal⟩ :=
    h (lit "j") sampleRequest _ (by decide) _ reach (by decide)
  have hplace : p.final = ⟨2, lit "b"⟩ := by
    have hq : placesOf (sampleWorld .queued []).fs.root (lit "j") sampleRequest =
        some ⟨⟨1, lit "a"⟩, ⟨2, lit ".swit-partial-j"⟩, ⟨2, lit "b"⟩⟩ := by
      decide
    cases hq.symm.trans hp
    rfl
  rw [hplace] at hfinal
  have hobject : object = ⟨0, 9⟩ := (Option.some.inj (hfinal.symm.trans (by decide)))
  rw [hobject] at hhead
  exact absurd hhead (by decide)

end FileMover
