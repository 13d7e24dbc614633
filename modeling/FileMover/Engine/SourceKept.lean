import FileMover.Engine.Runs

/-!
# The source object is never lost

Whatever fails, wherever a run is abandoned and however often the job is driven
again, the file that was to be moved stays linked under one of the three names
of the move. The invariant says a little more than that: a name further along
the route counts only once the earlier names are free or hold the same object,
because the publish would otherwise be able to drop the last link.
-/

namespace FileMover

open Framework

variable {p : Places} {id : Bytes} {request : MoveRequest} {c : Call}
  {fault : Option Fault} {σ σ' : Session} {object : Inode}

/-- Where the object is on its way through the three names. -/
def Kept (p : Places) (object : Inode) (σ : Session) : Prop :=
  σ.entry p.source = some object ∨
  (σ.entry p.staged = some object ∧
    (σ.entry p.source = none ∨ σ.entry p.source = some object)) ∨
  (σ.entry p.final = some object ∧ σ.entry p.staged = none ∧
    σ.entry p.source = none)

theorem Kept.congr (kept : Kept p object σ) (hfs : σ'.world.fs = σ.world.fs) :
    Kept p object σ' := by
  unfold Kept Session.entry at *
  rw [hfs]
  exact kept

/-- With a link still under the source name, its object is the one. -/
theorem Kept.of_source {other : Inode} (kept : Kept p object σ)
    (hsource : σ.entry p.source = some other) : other = object := by
  rcases kept with hs | ⟨_, hs | hs⟩ | ⟨_, _, hs⟩
  · exact Option.some.inj (hsource.symm.trans hs)
  · rw [hsource] at hs
    cases hs
  · exact Option.some.inj (hsource.symm.trans hs)
  · rw [hsource] at hs
    cases hs

/-- With the source name free, an object under the staging name is the one. -/
theorem Kept.of_staged {other : Inode} (kept : Kept p object σ)
    (hsource : σ.entry p.source = none) (hstaged : σ.entry p.staged = some other) :
    other = object := by
  rcases kept with hs | ⟨ht, _⟩ | ⟨_, ht, _⟩
  · rw [hsource] at hs
    cases hs
  · exact Option.some.inj (hstaged.symm.trans ht)
  · rw [hstaged] at ht
    cases ht

theorem apart_of_entries {a b : Slot} {x : Inode} (ha : σ.entry a = some x)
    (hb : σ.entry b = none) : a ≠ b := by
  rintro rfl
  rw [ha] at hb
  cases hb

/-- No step of the protocol loses the object. -/
theorem Kept.step (kept : Kept p object σ)
    (step : MoveStep p id request c fault σ σ') : Kept p object σ' := by
  cases step with
  | quiet fs => exact kept.congr fs
  | readDone _ _ fs => exact kept.congr fs
  | lookStaged fs => exact kept.congr fs
  | lookFinal _ _ fs => exact kept.congr fs
  | record _ _ _ _ _ _ fs => exact kept.congr fs
  | commit moved _ _ source staged _ _ fs =>
      obtain rfl := kept.of_source source
      have hapart := apart_of_entries source staged
      refine Or.inr (Or.inl ⟨?_, Or.inl ?_⟩)
      · rw [Session.entry, fs, Filesystem.entry_put_self]
      · rw [Session.entry, fs, Filesystem.entry_put_ne hapart,
          Filesystem.entry_drop_self]
  | link moved _ _ source staged _ _ fs =>
      obtain rfl := kept.of_source source
      refine Or.inr (Or.inl ⟨?_, Or.inr ?_⟩)
      · rw [Session.entry, fs, Filesystem.entry_put_self]
      · rw [Session.entry, fs,
          Filesystem.entry_put_ne (apart_of_entries source staged)]
        exact source
  | unlink moved _ source staged apart _ _ fs =>
      obtain rfl := kept.of_source source
      refine Or.inr (Or.inl ⟨?_, Or.inl ?_⟩)
      · rw [Session.entry, fs, Filesystem.entry_drop_ne apart.symm]
        exact staged
      · rw [Session.entry, fs, Filesystem.entry_drop_self]
  | publish moved _ _ _ source staged _ _ fs =>
      obtain rfl := kept.of_staged source staged
      rcases fs with ⟨_, fs⟩ | ⟨hother, fs⟩
      · exact kept.congr fs
      · have hfinal : σ'.entry p.final = some moved := by
          rw [Session.entry, fs, Filesystem.entry_put_self]
        have hne : p.staged ≠ p.final := by
          intro heq
          rw [← heq] at hother
          exact hother staged
        by_cases halias : p.source = p.final
        · -- the file comes back under the name it left
          exact Or.inl (halias ▸ hfinal)
        · have hst : p.source ≠ p.staged := (apart_of_entries staged source).symm
          refine Or.inr (Or.inr ⟨hfinal, ?_, ?_⟩)
          · rw [Session.entry, fs, Filesystem.entry_put_ne hne,
              Filesystem.entry_drop_self]
          · rw [Session.entry, fs, Filesystem.entry_put_ne halias,
              Filesystem.entry_drop_ne hst]
            exact source

/-! ## Histories -/

/-- The names of a move: in the source directory and, if it can be opened, in
the destination directory. -/
def NameOf (root : Bytes → Option Dir) (id : Bytes) (request : MoveRequest)
    (slot : Slot) : Prop :=
  (∃ dir, root (cstr request.sourceDir) = some dir ∧
    slot = ⟨dir, request.sourceName⟩) ∨
  ∃ dir, root (cstr request.destDir) = some dir ∧
    (slot = ⟨dir, stagingName id⟩ ∨ slot = ⟨dir, request.destName⟩)

/-- One job, driven with either strategy and with any failures, while others do
what they like except to the three names and to the record of the job. -/
def oneJob (id : Bytes) (request : MoveRequest) : Setting where
  begins j r _ := j = id ∧ r = request
  meets _ _ _ _ _ := True
  interferes σ σ' :=
    σ'.world.fs.root = σ.world.fs.root ∧ σ'.world.fs.type = σ.world.fs.type ∧
    (∀ slot, NameOf σ.world.fs.root id request slot →
      σ'.entry slot = σ.entry slot) ∧
    σ'.state id = σ.state id ∧ σ'.ledger = σ.ledger ∧ σ'.faulted = σ.faulted

theorem nameOf_places {root : Bytes → Option Dir}
    (hp : placesOf root id request = some p) :
    NameOf root id request p.source ∧ NameOf root id request p.staged ∧
      NameOf root id request p.final := by
  unfold placesOf at hp
  split at hp
  · rename_i sourceDir destDir hs hd
    cases hp
    exact ⟨Or.inl ⟨sourceDir, hs, rfl⟩, Or.inr ⟨destDir, hd, Or.inl rfl⟩,
      Or.inr ⟨destDir, hd, Or.inr rfl⟩⟩
  · cases hp

/-- What holds throughout: the places stay where they are, and at them the
object is kept. A request whose destination cannot be opened has only its
source name. -/
structure SourceKept (root : Bytes → Option Dir) (sourceDir : Dir) (id : Bytes)
    (request : MoveRequest) (object : Inode) (σ : Session) : Prop where
  rooted : σ.world.fs.root = root
  opened : root (cstr request.sourceDir) = some sourceDir
  kept : ∀ p, placesOf root id request = some p → Kept p object σ
  alone : placesOf root id request = none →
    σ.entry ⟨sourceDir, request.sourceName⟩ = some object

theorem sourceKept_keeps (root : Bytes → Option Dir) (sourceDir : Dir) (id : Bytes)
    (request : MoveRequest) (object : Inode) :
    (oneJob id request).Keeps (SourceKept root sourceDir id request object) where
  begun _ inv := ⟨inv.rooted, inv.opened, inv.kept, inv.alone⟩
  step {σ σ' p id' request' _ c fault} hbegins located _ _ step _ _ inv := by
    obtain ⟨rfl, rfl⟩ := hbegins
    refine ⟨step.root.trans inv.rooted, inv.opened, ?_, ?_⟩
    · intro q hq
      rcases located with hp | ⟨hnone, _⟩
      · rw [inv.rooted, hq] at hp
        cases hp
        exact (inv.kept p hq).step step
      · rw [inv.rooted, hq] at hnone
        cases hnone
    · intro hnone
      rw [Session.entry, step.fs_of_nowhere (inv.rooted ▸ hnone)]
      exact inv.alone hnone
  interfere {σ σ'} h inv := by
    obtain ⟨hroot, _, hnames, _⟩ := h
    rw [inv.rooted] at hnames
    refine ⟨hroot.trans inv.rooted, inv.opened, ?_, ?_⟩
    · intro q hq
      obtain ⟨hs, ht, hf⟩ := nameOf_places hq
      unfold Kept
      rw [hnames _ hs, hnames _ ht, hnames _ hf]
      exact inv.kept q hq
    · intro hnone
      rw [hnames _ (Or.inl ⟨sourceDir, inv.opened, rfl⟩)]
      exact inv.alone hnone
  undisturbed {σ σ' p id' request' _} hbegins located _ inv h := by
    obtain ⟨rfl, rfl⟩ := hbegins
    obtain ⟨hroot, htype, hnames, hstate, hledger, hfaulted⟩ := h
    have hplaces : σ'.entry p.source = σ.entry p.source ∧
        (p.staged = p.source ∨ σ'.entry p.staged = σ.entry p.staged) ∧
        (p.final = p.source ∨ σ'.entry p.final = σ.entry p.final) := by
      rcases located with hp | ⟨_, hstaged, hfinal, hsource⟩
      · obtain ⟨hs, ht, hf⟩ := nameOf_places hp
        exact ⟨hnames _ hs, Or.inr (hnames _ ht), Or.inr (hnames _ hf)⟩
      · have hdir := inv.rooted ▸ inv.opened
        refine ⟨?_, Or.inl hstaged, Or.inl hfinal⟩
        rw [hsource sourceDir hdir]
        exact hnames _ (Or.inl ⟨sourceDir, hdir, rfl⟩)
    refine ⟨?_, Or.inl hplaces.1, hfaulted⟩
    have hstaged : (σ'.view p id').staged = (σ.view p id').staged := by
      rcases hplaces.2.1 with heq | heq
      · simp [Session.view, heq]
      · simp [Session.view, heq]
    have hfinal : (σ'.view p id').final = (σ.view p id').final := by
      rcases hplaces.2.2 with heq | heq
      · simp [Session.view, heq]
      · simp [Session.view, heq]
    simp only [Session.view] at hstaged hfinal ⊢
    rw [hroot, htype, hstate, hledger, hstaged, hfinal]

/-- The file that the source name referred to when the job was submitted stays
linked under one of the names of the move, in every state of every history. -/
theorem source_object_never_lost (id : Bytes) (request : MoveRequest) (w : World)
    (sourceDir : Dir) (object : Inode)
    (hdir : w.fs.root (cstr request.sourceDir) = some sourceDir)
    (hsource : w.fs.entry ⟨sourceDir, request.sourceName⟩ = some object)
    (d : Drive) (reach : Drive.Reach (oneJob id request) ⟨Session.start w, none⟩ d) :
    ∃ slot, NameOf d.session.world.fs.root id request slot ∧
      d.session.entry slot = some object := by
  have init : SourceKept w.fs.root sourceDir id request object (Session.start w) := by
    refine ⟨rfl, hdir, ?_, fun _ => hsource⟩
    intro p hp
    refine Or.inl ?_
    unfold placesOf at hp
    split at hp
    · rename_i sd dd hs hd
      cases hp
      rw [hdir] at hs
      cases hs
      exact hsource
    · cases hp
  obtain ⟨inv, -⟩ := (sourceKept_keeps w.fs.root sourceDir id request object).reach init reach
  rw [inv.rooted]
  cases hp : placesOf w.fs.root id request with
  | none =>
      exact ⟨⟨sourceDir, request.sourceName⟩, Or.inl ⟨sourceDir, hdir, rfl⟩,
        inv.alone hp⟩
  | some p =>
      obtain ⟨hs, ht, hf⟩ := nameOf_places hp
      rcases inv.kept p hp with h | ⟨h, _⟩ | ⟨h, _⟩
      · exact ⟨p.source, hs, h⟩
      · exact ⟨p.staged, ht, h⟩
      · exact ⟨p.final, hf, h⟩

/-- The sample job, with its `unlinkat` made to fail: the file is then linked
under two of the names. -/
theorem source_object_never_lost_sample :
    ∃ d, Drive.Reach (oneJob (lit "j") sampleRequest)
        ⟨Session.start (sampleWorld .queued [sampleSource]), none⟩ d ∧
      d.session.entry ⟨1, lit "a"⟩ = some ⟨0, 7⟩ ∧
      d.session.entry ⟨2, lit ".swit-partial-j"⟩ = some ⟨0, 7⟩ ∧
      ∃ slot, NameOf d.session.world.fs.root (lit "j") sampleRequest slot ∧
        d.session.entry slot = some ⟨0, 7⟩ := by
  have reach := Drive.reach_run (S := oneJob (lit "j") sampleRequest)
    (σ := Session.start (sampleWorld .queued [sampleSource])) .execute (lit "j") sampleRequest
    .linkThenUnlink ⟨rfl, rfl⟩ (AllMeet.of_free (fun _ _ _ => trivial)
      (fun c => if c.site = .commitUnlink then some EIO else none) _ _)
  exact ⟨_, reach, by decide, by decide,
    source_object_never_lost (lit "j") sampleRequest _ 1 ⟨0, 7⟩ (by decide) (by decide)
      _ reach⟩

end FileMover
