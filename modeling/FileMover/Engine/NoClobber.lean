import FileMover.Engine.Runs

/-!
# Existing files and the publish

The commit cannot replace anything: both of its forms fail on an existing
target. The publish can, because `renameat` replaces. What is proved here is
where exactly the promise that no existing file is overwritten is broken: in
every history in which the publish finds the staging name and the final name
free of other people's objects, and no run mistakes an object that was under
the final name for its own, each run leaves every object alone that it did not
move itself, and reports `Completed` only for a final name that was free.
-/

namespace FileMover

open Framework

variable {p : Places} {id : Bytes} {request : MoveRequest} {c : Call}
  {fault : Option Fault} {σ σ' : Session}

/-- Whatever is linked here was moved by the job of the run in progress. -/
def Session.Clear (σ : Session) (slot : Slot) : Prop :=
  ∀ object, σ.entry slot = some object → object ∈ σ.ledger.own

/-- The circumstances under which a call does not reach the defect: a publish
finds both of its names clear, a final name that is taken for delivered without
a publish is the job's own, and so is one that a DONE record vouches for. -/
def NoClash (id : Bytes) (request : MoveRequest) (c : Call) (fault : Option Fault)
    (σ : Session) : Prop :=
  ∀ p, placesOf σ.world.fs.root id request = some p →
    (c.site = .publishRename → fault = none → σ.Clear p.staged ∧ σ.Clear p.final) ∧
    (c.site = .finalProbe → σ.ledger.staged = none →
      ∀ object, σ.sees fault p.final = some object → object ∈ σ.ledger.own) ∧
    (c.site = .executeLoad ∨ c.site = .finishLoad → σ.state id = some .done →
      σ.Clear p.final)

instance (σ : Session) (slot : Slot) : Decidable (σ.Clear slot) :=
  inferInstanceAs (Decidable (∀ object, object ∈ σ.entry slot → object ∈ σ.ledger.own))

instance (id : Bytes) (request : MoveRequest) (c : Call) (fault : Option Fault)
    (σ : Session) : Decidable (NoClash id request c fault σ) :=
  inferInstanceAs (Decidable (∀ p, p ∈ placesOf σ.world.fs.root id request →
    (c.site = .publishRename → fault = none → σ.Clear p.staged ∧ σ.Clear p.final) ∧
    (c.site = .finalProbe → σ.ledger.staged = none →
      ∀ object, object ∈ σ.sees fault p.final → object ∈ σ.ledger.own) ∧
    (c.site = .executeLoad ∨ c.site = .finishLoad → σ.state id = some .done →
      σ.Clear p.final)))

/-- Any jobs, in any order, with any failures; `condition` restricts the calls. -/
def anyJobs (condition : Bytes → MoveRequest → Call → Option Fault → Session → Prop) :
    Setting where
  begins _ _ _ := True
  meets := condition
  interferes _ _ := False

instance (id : Bytes) (request : MoveRequest) (c : Call) (fault : Option Fault)
    (σ : Session) : Decidable ((anyJobs NoClash).meets id request c fault σ) :=
  inferInstanceAs (Decidable (NoClash id request c fault σ))

/-- Every object that the run found and did not move itself is where it was. -/
def Untouched (σ : Session) : Prop :=
  ∀ slot object, σ.ledger.before.entry slot = some object →
    object ∉ σ.ledger.own → σ.entry slot = some object

/-- The final name was free, or held an object of the job. -/
def WasFree (σ : Session) : Prop :=
  ∀ p object, σ.ledger.places = some p →
    σ.ledger.before.entry p.final = some object → object ∈ σ.ledger.own

theorem MoveStep.own_subset (step : MoveStep p id request c fault σ σ') :
    σ.ledger.own ⊆ σ'.ledger.own := by
  cases step with
  | quiet _ _ ledger => rw [ledger]; exact fun _ h => h
  | readDone _ _ _ _ ledger => rw [ledger]; exact fun _ h => h
  | lookStaged _ _ ledger => rw [ledger]; exact fun _ h => h
  | lookFinal _ _ _ _ ledger => rw [ledger]; exact fun _ h => h
  | unlink _ _ _ _ _ _ _ _ _ ledger => rw [ledger]; exact fun _ h => h
  | publish _ _ _ _ _ _ _ _ _ _ ledger => rw [ledger]; exact fun _ h => h
  | record _ _ _ _ _ _ _ _ ledger => rw [ledger]; exact fun _ h => h
  | commit object _ _ _ _ _ _ _ _ ledger =>
      rw [ledger, Ledger.own_take]
      exact List.subset_cons_self _ _
  | link object _ _ _ _ _ _ _ _ ledger =>
      rw [ledger, Ledger.own_take]
      exact List.subset_cons_self _ _

theorem Untouched.congr (untouched : Untouched σ)
    (before : σ'.ledger.before = σ.ledger.before) (own : σ.ledger.own ⊆ σ'.ledger.own)
    (fs : σ'.world.fs = σ.world.fs) : Untouched σ' := by
  intro slot object hbefore hown
  rw [Session.entry, fs]
  exact untouched slot object (before ▸ hbefore) fun hmem => hown (own hmem)

/-- A step that does not clash leaves alone what the job did not move. -/
theorem Untouched.step (untouched : Untouched σ)
    (step : MoveStep p id request c fault σ σ') (meets : NoClash id request c fault σ) :
    Untouched σ' := by
  have hbefore := step.same_run.2.2
  have hown := step.own_subset
  have hkeep : ∀ slot object, σ'.ledger.before.entry slot = some object →
      object ∉ σ'.ledger.own → σ.entry slot = some object := by
    intro slot object hb hn
    exact untouched slot object (hbefore ▸ hb) fun hmem => hn (hown hmem)
  cases step with
  | quiet fs => exact untouched.congr hbefore hown fs
  | readDone _ _ fs => exact untouched.congr hbefore hown fs
  | lookStaged fs => exact untouched.congr hbefore hown fs
  | lookFinal _ _ fs => exact untouched.congr hbefore hown fs
  | record _ _ _ _ _ _ fs => exact untouched.congr hbefore hown fs
  | commit moved _ _ source staged _ _ fs _ ledger =>
      intro slot object hb hn
      have hthere := hkeep slot object hb hn
      have hmoved : object ≠ moved := by
        rintro rfl
        exact hn (by simp [ledger])
      have hslot : slot ≠ p.source ∧ slot ≠ p.staged := by
        constructor
        · rintro rfl
          exact hmoved (Option.some.inj (hthere.symm.trans source))
        · rintro rfl
          rw [hthere] at staged
          cases staged
      rw [Session.entry, fs, Filesystem.entry_put_ne hslot.2,
        Filesystem.entry_drop_ne hslot.1]
      exact hthere
  | link moved _ _ source staged _ _ fs =>
      intro slot object hb hn
      have hthere := hkeep slot object hb hn
      have hslot : slot ≠ p.staged := by
        rintro rfl
        rw [hthere] at staged
        cases staged
      rw [Session.entry, fs, Filesystem.entry_put_ne hslot]
      exact hthere
  | unlink moved _ source _ _ taken _ fs _ ledger =>
      intro slot object hb hn
      have hthere := hkeep slot object hb hn
      have hslot : slot ≠ p.source := by
        rintro rfl
        rw [hthere] at source
        cases source
        exact hn (ledger ▸ taken)
      rw [Session.entry, fs, Filesystem.entry_drop_ne hslot]
      exact hthere
  | publish moved site asked placed _ _ _ _ fs =>
      rcases fs with ⟨_, fs⟩ | ⟨_, fs⟩
      · exact untouched.congr hbefore hown fs
      · obtain ⟨hstaged, hfinal⟩ := (meets p placed).1 site asked
        intro slot object hb hn
        have hthere := hkeep slot object hb hn
        have hslot : slot ≠ p.staged ∧ slot ≠ p.final := by
          constructor
          · rintro rfl
            exact hn (hown (hstaged object hthere))
          · rintro rfl
            exact hn (hown (hfinal object hthere))
        rw [Session.entry, fs, Filesystem.entry_put_ne hslot.2,
          Filesystem.entry_drop_ne hslot.1]
        exact hthere

/-- Where the final name decides the outcome, it decides it rightly. -/
theorem wasFree_of_clear {slot : Slot} (untouched : Untouched σ)
    (clear : ∀ object, σ.entry slot = some object → object ∈ σ.ledger.own)
    {object : Inode} (hbefore : σ.ledger.before.entry slot = some object) :
    object ∈ σ.ledger.own := by
  by_contra hn
  exact hn (clear object (untouched slot object hbefore hn))

theorem WasFree.step (untouched : Untouched σ)
    (free : σ.ledger.settled = true → WasFree σ)
    (places : σ.ledger.places = placesOf σ.world.fs.root id request)
    (located : Located p id request σ.world.fs.root)
    (step : MoveStep p id request c fault σ σ') (meets : NoClash id request c fault σ)
    (settled : σ'.ledger.settled = true) : WasFree σ' := by
  obtain ⟨_, hplaces, hbefore⟩ := step.same_run
  have hown := step.own_subset
  have hold : WasFree σ → WasFree σ' := by
    intro hfree q object hq hb
    exact hown (hfree q object (hplaces ▸ hq) (hbefore ▸ hb))
  have hnew : (∀ object, placesOf σ.world.fs.root id request = some p →
      σ.entry p.final = some object → object ∈ σ.ledger.own) → WasFree σ := by
    intro hclear q object hq hb
    rw [places] at hq
    rcases located with hp | ⟨hnone, _⟩
    · rw [hp] at hq
      cases hq
      exact wasFree_of_clear untouched (fun object => hclear object hp) hb
    · rw [hnone] at hq
      cases hq
  cases step with
  | quiet _ _ ledger => exact hold (free (ledger ▸ settled))
  | lookStaged _ _ ledger => exact hold (free (by simpa [ledger] using settled))
  | record _ _ _ _ _ _ _ _ ledger => exact hold (free (ledger ▸ settled))
  | unlink _ _ _ _ _ _ _ _ _ ledger => exact hold (free (ledger ▸ settled))
  | commit _ _ _ _ _ _ _ _ _ ledger =>
      exact hold (free (by simpa [ledger, Ledger.take] using settled))
  | link _ _ _ _ _ _ _ _ _ ledger =>
      exact hold (free (by simpa [ledger, Ledger.take] using settled))
  | readDone site done =>
      exact hold (hnew fun object hp => (meets p hp).2.2 site done object)
  | publish _ site asked placed =>
      exact hold (hnew fun object _ => ((meets p placed).1 site asked).2 object)
  | lookFinal site placed _ _ ledger =>
      by_cases hs : σ.ledger.settled = true
      · exact hold (free hs)
      · -- it is this probe that settles the run
        have hsaw : σ.ledger.staged = none ∧ (σ.sees fault p.final).isSome = true := by
          simpa [ledger, Ledger.trust, Ledger.settle, hs] using settled
        refine hold (hnew fun object _ hentry => ?_)
        obtain ⟨found, hfound⟩ := Option.isSome_iff_exists.mp hsaw.2
        have hsame : found = object :=
          Option.some.inj ((entry_of_sees hfound).symm.trans hentry)
        exact hsame ▸ (meets p placed).2.1 site hsaw.1 found hfound

theorem noClash_keeps :
    (anyJobs NoClash).Keeps fun σ =>
      Untouched σ ∧ (σ.ledger.settled = true → WasFree σ) where
  begun _ _ := by
    refine ⟨fun slot object hb _ => hb, ?_⟩
    intro hsettled
    cases hsettled
  step _ located _ places step meets _ inv :=
    ⟨inv.1.step step meets, WasFree.step inv.1 inv.2 places located step meets⟩
  interfere h _ := h.elim
  undisturbed _ _ _ _ h := h.elim

/-- The promise of one run: objects that it did not move are still where it
found them, and if it ended with `Completed` then its final name held nothing
but its own object. -/
def Unclobbered (d : Drive) : Prop :=
  Untouched d.session ∧
    ∀ id request error, d.active = some ⟨id, request, .pure (.completed, error)⟩ →
      WasFree d.session

/-- In every history whose calls all avoid the clash, nothing is overwritten. -/
theorem nothing_overwritten_without_clash (w : World) (d : Drive)
    (reach : Drive.Reach (anyJobs NoClash) ⟨Session.start w, none⟩ d) :
    Unclobbered d := by
  have init : Untouched (Session.start w) ∧
      ((Session.start w).ledger.settled = true → WasFree (Session.start w)) := by
    refine ⟨fun slot object hb _ => hb, ?_⟩
    intro hsettled
    cases hsettled
  obtain ⟨inv, hruns⟩ := noClash_keeps.reach init reach
  refine ⟨inv.1, ?_⟩
  intro id request error hactive
  have hreported := (hruns _ hactive).reported rfl
  exact inv.2 hreported.2

/-- The sample job is delivered to a free name without a clash. -/
theorem nothing_overwritten_sample :
    ∃ d, Drive.Reach (anyJobs NoClash)
        ⟨Session.start (sampleWorld .queued [sampleSource]), none⟩ d ∧
      d.session.entry ⟨2, lit "b"⟩ = some ⟨0, 7⟩ ∧ Unclobbered d := by
  have meet : AllMeet (anyJobs NoClash) (lit "j") sampleRequest (fun _ => none)
      (execute (lit "j") sampleRequest .renameNoReplace)
      ((Session.start (sampleWorld .queued [sampleSource])).begun (lit "j")
        sampleRequest) := by
    decide
  have reach := Drive.reach_run .execute (lit "j") sampleRequest .renameNoReplace
    trivial meet
  exact ⟨_, reach, by decide, nothing_overwritten_without_clash _ _ reach⟩

/-- The sample job with another file at its destination: the file is
overwritten and the job is reported `Completed`. -/
theorem existing_file_overwritten :
    ¬ ∀ w d, Drive.Reach (anyJobs fun _ _ _ _ _ => True) ⟨Session.start w, none⟩ d →
      Unclobbered d := by
  intro h
  have reach := Drive.reach_run (S := anyJobs fun _ _ _ _ _ => True)
    (σ := Session.start (sampleWorld .queued [sampleSource, (⟨2, lit "b"⟩, ⟨0, 9⟩)]))
    .execute (lit "j") sampleRequest .renameNoReplace trivial
    (AllMeet.of_free (fun _ _ _ => trivial) (fun _ => none) _ _)
  have hthere := (h _ _ reach).1 ⟨2, lit "b"⟩ ⟨0, 9⟩ (by decide) (by decide)
  exact absurd hthere (by decide)

end FileMover
