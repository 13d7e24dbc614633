import FileMover.Engine.Refinement
import FileMover.Framework.Guarded
import FileMover.Store.Rules

/-!
# What is checked and what is moved

Phase 1 of `execute` looks at the source, opens it and compares what it opened with what it
saw. Then it closes the descriptor, and the commit goes by the name. Here an adversary may
change the entries of the source directory between any two calls, any call may fail, and a
bystander notes which object was seen, which one was verified, when the commit has been
made, and what the run then finds under the staging name.

Proved here: if the source name still holds the object that was seen when the commit takes
it, nobody touches the names under which it is delivered afterwards, and a run that does not
find its staged object does not take another one under the final name for it, then a run
that reports success has delivered that object, and it is a regular file.
-/

namespace FileMover

open Framework

/-- The world and the notes. -/
structure Sight where
  world : World
  /-- The object that `classify` saw under the source name. -/
  seen : Option Inode
  /-- The object that `open_regular` found behind its descriptor. -/
  verified : Option Inode
  /-- The commit has given the object its staging name. -/
  committed : Bool
  /-- What the probe of the staging name has shown after the commit. -/
  staged : Option Inode

namespace Sight

def note (σ : Sight) : (c : Call) → Reply c → World → Sight
  | ⟨.sourceProbe, .fstatat _⟩, .ok st, w => { σ with world := w, seen := some st.inode }
  | ⟨.sourceFstat, .fstat _⟩, .ok st, w => { σ with world := w, verified := some st.inode }
  | ⟨.commitRename, .renameat2 _ _⟩, .ok _, w => { σ with world := w, committed := true }
  | ⟨.commitLink, .linkat _ _⟩, .ok _, w => { σ with world := w, committed := true }
  | ⟨.stagedProbe, .fstatat _⟩, reply, w => { σ with world := w, staged := FileMover.seen reply }
  | _, _, w => { σ with world := w }

def entry (σ : Sight) (slot : Slot) : Option Inode := σ.world.fs.entry slot

/-- What a probe of this slot that meets this fault shows. -/
def sees (σ : Sight) (fault : Option Fault) (slot : Slot) : Option Inode :=
  FileMover.seen (perform (.fstatat slot) fault σ.world).1

def places (σ : Sight) (id : Bytes) (request : MoveRequest) : Option Places :=
  placesOf σ.world.fs.root id request

end Sight

def sightMachine : Machine Call Reply Fault Sight where
  perform c fault σ :=
    ((perform c.op fault σ.world).1,
      σ.note c (perform c.op fault σ.world).1 (perform c.op fault σ.world).2)

/-- A run of `execute`, and what has been noted of it. -/
structure Race where
  sight : Sight
  program : Prog MoveResult

/-- The next call of the run, which may fail, or a move of the adversary in the source
directory. A rename there is the two moves after each other. -/
inductive RaceEvent
  | call (fault : Option Fault)
  | put (name : Bytes) (object : Inode)
  | drop (name : Bytes)

namespace Race

/-- The adversary changes an entry of the source directory. -/
def change (r : Race) (request : MoveRequest) (name : Bytes)
    (how : Filesystem → Slot → Filesystem) : Option Race :=
  match r.sight.world.fs.root (cstr request.sourceDir) with
  | none => none
  | some dir =>
      some { r with sight := { r.sight with world :=
        { r.sight.world with fs := how r.sight.world.fs ⟨dir, name⟩ } } }

def act (request : MoveRequest) (r : Race) : RaceEvent → Option Race
  | .call fault =>
      match r.program with
      | .call c next =>
          some ⟨(sightMachine.perform c fault r.sight).2,
            next (sightMachine.perform c fault r.sight).1⟩
      | .pure _ => none
  | .put name object => r.change request name fun fs slot => fs.put slot object
  | .drop name => r.change request name fun fs slot => fs.drop slot

def start (id : Bytes) (request : MoveRequest) (strategy : MoveStrategy) (w : World) : Race :=
  ⟨⟨w, none, none, false, none⟩, execute id request strategy⟩

/-- What the run has returned. -/
def outcome (r : Race) : Option MoveOutcome :=
  match r.program with
  | .pure result => some result.1
  | .call _ _ => none

end Race

/-- When the commit is made, the source name holds what was seen there. -/
def AsSeen (id : Bytes) (request : MoveRequest) (σ : Sight) : Prop :=
  ∀ p ∈ σ.places id request, σ.entry p.source = σ.seen

/-- A run that has not found its staged object finds nothing under the final name, or what was
seen under the source name. -/
def NotMisled (id : Bytes) (request : MoveRequest) (fault : Option Fault) (σ : Sight) : Prop :=
  σ.staged = none → ∀ p ∈ σ.places id request,
    σ.sees fault p.final = none ∨ σ.sees fault p.final = σ.seen

/-- After the commit this entry of the source directory is left alone, if it is one of the
names under which the object is delivered. -/
def Spared (id : Bytes) (request : MoveRequest) (name : Bytes) (σ : Sight) : Prop :=
  σ.committed = true → ∀ p ∈ σ.places id request,
    ⟨p.source.dir, name⟩ ≠ p.staged ∧ (⟨p.source.dir, name⟩ : Slot) ≠ p.final

/-- What is asked of the calls. -/
def Regular (id : Bytes) (request : MoveRequest) (c : Call) (fault : Option Fault)
    (σ : Sight) : Prop :=
  (c.op.links = true → AsSeen id request σ) ∧
    (c.site = .finalProbe → NotMisled id request fault σ)

def Steady (id : Bytes) (request : MoveRequest) (r : Race) : RaceEvent → Prop
  | .call fault =>
      match r.program with
      | .call c _ => Regular id request c fault r.sight
      | .pure _ => True
  | .put name _ | .drop name => Spared id request name r.sight

instance (id : Bytes) (request : MoveRequest) (σ : Sight) :
    Decidable (AsSeen id request σ) :=
  inferInstanceAs (Decidable (∀ p ∈ σ.places id request, _ = _))

instance (id : Bytes) (request : MoveRequest) (fault : Option Fault) (σ : Sight) :
    Decidable (NotMisled id request fault σ) :=
  inferInstanceAs (Decidable (_ → ∀ p ∈ σ.places id request, _ ∨ _))

instance (id : Bytes) (request : MoveRequest) (c : Call) (fault : Option Fault) (σ : Sight) :
    Decidable (Regular id request c fault σ) :=
  inferInstanceAs (Decidable ((_ → AsSeen id request σ) ∧ (_ → NotMisled id request fault σ)))

instance (id : Bytes) (request : MoveRequest) (name : Bytes) (σ : Sight) :
    Decidable (Spared id request name σ) :=
  inferInstanceAs (Decidable (_ → ∀ p ∈ σ.places id request, _ ∧ _))

instance (id : Bytes) (request : MoveRequest) :
    (r : Race) → (event : RaceEvent) → Decidable (Steady id request r event)
  | ⟨σ, .call c _⟩, .call fault => inferInstanceAs (Decidable (Regular id request c fault σ))
  | ⟨_, .pure _⟩, .call _ => .isTrue trivial
  | r, .put name _ => inferInstanceAs (Decidable (Spared id request name r.sight))
  | r, .drop name => inferInstanceAs (Decidable (Spared id request name r.sight))

/-! ## The run as a program under interference -/

/-- What the adversary leaves alone. -/
structure Apart (id : Bytes) (request : MoveRequest) (σ σ' : Sight) : Prop where
  seen : σ'.seen = σ.seen
  verified : σ'.verified = σ.verified
  committed : σ'.committed = σ.committed
  staged : σ'.staged = σ.staged
  db : σ'.world.db = σ.world.db
  root : σ'.world.fs.root = σ.world.fs.root
  type : σ'.world.fs.type = σ.world.fs.type
  delivered : σ.committed = true → ∀ p ∈ σ.places id request,
    σ'.entry p.staged = σ.entry p.staged ∧ σ'.entry p.final = σ.entry p.final

def raceContract (id : Bytes) (request : MoveRequest) : Contract Call Fault Sight where
  rely := Apart id request
  rely_refl _ := ⟨rfl, rfl, rfl, rfl, rfl, rfl, rfl, fun _ _ _ => ⟨rfl, rfl⟩⟩
  rely_trans h h' := by
    refine ⟨h'.seen.trans h.seen, h'.verified.trans h.verified,
      h'.committed.trans h.committed, h'.staged.trans h.staged, h'.db.trans h.db,
      h'.root.trans h.root, h'.type.trans h.type, ?_⟩
    intro hcommitted p hp
    have hplaces := h'.delivered (h.committed.trans hcommitted) p
      (by rw [Sight.places, h.root]; exact hp)
    obtain ⟨hstaged, hfinal⟩ := h.delivered hcommitted p hp
    exact ⟨hplaces.1.trans hstaged, hplaces.2.trans hfinal⟩
  assume c fault σ := Regular id request c fault σ
  guarantee _ _ _ _ := True

/-- The object that was seen and verified is the one under the final name. -/
def DeliveredAsChecked (id : Bytes) (request : MoveRequest) (σ : Sight) : Prop :=
  ∃ p o, σ.places id request = some p ∧ σ.seen = some o ∧ σ.verified = some o ∧
    σ.entry p.final = some o ∧ σ.world.fs.type o = .reg

/-- What phase 1 has established. -/
structure Checked (request : MoveRequest) (sourceDir destDir : Dir) (o : Inode) (σ : Sight) :
    Prop where
  source : σ.world.fs.root (cstr request.sourceDir) = some sourceDir
  dest : σ.world.fs.root (cstr request.destDir) = some destDir
  seen : σ.seen = some o
  verified : σ.verified = some o
  regular : σ.world.fs.type o = .reg

theorem Sight.entry_of_sees {σ : Sight} {fault : Option Fault} {slot : Slot} {o : Inode}
    (h : σ.sees fault slot = some o) : σ.entry slot = some o := by
  unfold Sight.sees at h
  rcases perform_fstatat slot fault σ.world with ⟨e, _, _, hreply⟩ | ⟨_, hreply⟩ |
    ⟨x, hentry, hreply⟩
  · rw [hreply] at h
    cases h
  · rw [hreply] at h
    cases h
  · rw [hreply] at h
    cases h
    exact hentry

section Rules
variable {α : Type} {id : Bytes} {request : MoveRequest} {sourceDir destDir : Dir} {o : Inode}
  {σ σ' : Sight}

theorem Checked.places (h : Checked request sourceDir destDir o σ) :
    σ.places id request = some ⟨⟨sourceDir, request.sourceName⟩, ⟨destDir, stagingName id⟩,
      ⟨destDir, request.destName⟩⟩ := by
  rw [Sight.places, placesOf, h.source, h.dest]

theorem Checked.stable (rely : Apart id request σ σ') (h : Checked request sourceDir destDir o σ) :
    Checked request sourceDir destDir o σ' := by
  refine ⟨?_, ?_, rely.seen.trans h.seen, rely.verified.trans h.verified, ?_⟩
  · rw [rely.root]
    exact h.source
  · rw [rely.root]
    exact h.dest
  · rw [rely.type]
    exact h.regular

/-- A call that neither changes names nor is noted. -/
structure Unnoted (c : Call) : Prop where
  still : c.op.movesNames = false
  probe : c.site ≠ .sourceProbe
  fstat : c.site ≠ .sourceFstat
  staged : c.site ≠ .stagedProbe

theorem unnoted_look {site : Site} {op : Op} (h : op.readOnly = true)
    (probe : site ≠ .sourceProbe) (fstat : site ≠ .sourceFstat) (staged : site ≠ .stagedProbe) :
    Unnoted ⟨site, op⟩ :=
  ⟨movesNames_of_readOnly h, probe, fstat, staged⟩

theorem Unnoted.note {c : Call} (h : Unnoted c) (reply : Reply c) (w : World) :
    σ.note c reply w = { σ with world := w } := by
  unfold Sight.note
  split
  · exact absurd rfl h.probe
  · exact absurd rfl h.fstat
  · cases h.still
  · cases h.still
  · exact absurd rfl h.staged
  · rfl

theorem Unnoted.perform {c : Call} (h : Unnoted c) (fault : Option Fault) :
    (sightMachine.perform c fault σ).2 =
      { σ with world := (FileMover.perform c.op fault σ.world).2 } := h.note _ _

theorem Checked.kept {c : Call} (fault : Option Fault) (unnoted : Unnoted c)
    (h : Checked request sourceDir destDir o σ) :
    Checked request sourceDir destDir o
      { σ with world := (perform c.op fault σ.world).2 } := by
  have hfs := perform_fs unnoted.still fault σ.world
  exact ⟨by rw [hfs]; exact h.source, by rw [hfs]; exact h.dest, h.seen, h.verified,
    by rw [hfs]; exact h.regular⟩

/-- A call fails and changes nothing, or is performed as asked. -/
theorem sight_cases (c : Call) (fault : Option Fault) (σ : Sight) :
    (∃ e, sightMachine.perform c fault σ =
      (.error e, σ.note c (.error e : Reply c) σ.world)) ∨
      sightMachine.perform c fault σ =
        ((answer c.op σ.world).1, σ.note c (answer c.op σ.world).1 (answer c.op σ.world).2) := by
  rcases perform_cases c.op fault σ.world with ⟨e, _, heq⟩ | heq
  · refine Or.inl ⟨e, ?_⟩
    simp only [sightMachine, heq]
  · right
    simp only [sightMachine, heq]

/-- A stretch of calls that are not noted keeps what neither they nor the adversary can
change. -/
theorem race_unnoted {program : Prog α} {Q : α → Prop} {P : Sight → Prop}
    {allowed : Call → Prop} (uses : program.Uses fun c => Unnoted c ∧ allowed c)
    (returns : program.Returns Q)
    (stable : ∀ {σ σ'}, Apart id request σ σ' → P σ → P σ')
    (keeps : ∀ c fault, Unnoted c → allowed c → ∀ σ, P σ →
      P { σ with world := (perform c.op fault σ.world).2 }) (start : P σ) :
    program.Safe sightMachine (raceContract id request) (fun value σ' => Q value ∧ P σ') σ := by
  refine Program.Safe.of_uses uses returns stable ?_ start
  rintro c ⟨hunnoted, hallowed⟩ fault σ _ hp
  rw [hunnoted.perform]
  exact ⟨trivial, keeps c fault hunnoted hallowed σ hp⟩

theorem race_looks {program : Prog α} {Q : α → Prop} {P : Sight → Prop}
    (uses : program.Uses fun c => Unnoted c ∧ c.op.readOnly = true)
    (returns : program.Returns Q)
    (stable : ∀ {σ σ'}, Apart id request σ σ' → P σ → P σ') (start : P σ) :
    program.Safe sightMachine (raceContract id request) (fun value σ' => Q value ∧ P σ') σ := by
  refine race_unnoted uses returns stable ?_ start
  intro c fault _ looks σ hp
  rw [perform_readOnly looks]
  exact hp

/-- The row of the job is there, and it does not say DONE. -/
def Unfinished (id : Bytes) (σ : Sight) : Prop := RowIn (· ≠ .done) id σ.world

theorem Unfinished.stable (rely : Apart id request σ σ') (h : Unfinished id σ) :
    Unfinished id σ' := by
  rw [Unfinished, RowIn, rely.db]
  exact h

theorem ready_stable (rely : Apart id request σ σ')
    (h : Unfinished id σ ∧ Checked request sourceDir destDir o σ) :
    Unfinished id σ' ∧ Checked request sourceDir destDir o σ' :=
  ⟨h.1.stable rely, h.2.stable rely⟩

theorem unnoted_late {site : Site} {op : Op} (h : op.readOnly = true)
    (late : site.early = false) (staged : site ≠ .stagedProbe) : Unnoted ⟨site, op⟩ := by
  refine unnoted_look h ?_ ?_ staged
  · rintro rfl
    cases late
  · rintro rfl
    cases late

/-- What is read is the row as it is: nobody else writes it. -/
theorem race_load {site : Site} {P : Sight → Prop} (late : site.early = false)
    (unprobed : site ≠ .stagedProbe)
    (stable : ∀ {σ σ'}, Apart id request σ σ' → P σ → P σ') (start : P σ)
    (undone : σ.world.db.state id ≠ some .done) :
    (load site id).Safe sightMachine (raceContract id request) (fun loaded σ' =>
      (∀ job, loaded = .ok (some job) → job.state ≠ .done ∧ Unfinished id σ') ∧ P σ') σ := by
  intro σ₁ rely fault _
  refine ⟨trivial, ?_⟩
  rw [(unnoted_late rfl late unprobed).perform, perform_readOnly rfl]
  have hp : P σ₁ := stable rely start
  rcases perform_selectJob id fault σ₁.world with ⟨e, hreply⟩ | hreply
  · rw [show (sightMachine.perform ⟨site, .selectJob id⟩ fault σ₁).1 = .error e from hreply]
    exact fun σ₂ rely' => ⟨(by rintro _ ⟨⟩), stable rely' hp⟩
  rw [show (sightMachine.perform ⟨site, .selectJob id⟩ fault σ₁).1 =
    .ok ((σ₁.world.db.row id).map (·.job)) from hreply]
  intro σ₂ rely'
  refine ⟨?_, stable rely' hp⟩
  intro job hjob
  have hstate : σ₁.world.db.state id = some job.state :=
    Database.state_of_row (Except.ok.inj hjob)
  have hne : job.state ≠ .done := by
    intro hdone
    rw [rely.db, hdone] at hstate
    exact undone hstate
  exact ⟨hne, Unfinished.stable rely' ⟨job.state, hstate, hne⟩⟩

theorem race_openRoot {site : Site} {path : Bytes} {P : Sight → Prop}
    (unnoted : Unnoted ⟨site, .openRoot path⟩)
    (stable : ∀ {σ σ'}, Apart id request σ σ' → P σ → P σ') (start : P σ) :
    (openRoot site path).Safe sightMachine (raceContract id request) (fun result σ' =>
      (∀ dir, result = .ok dir → σ'.world.fs.root (cstr path) = some dir) ∧ P σ') σ := by
  intro σ₁ rely fault _
  refine ⟨trivial, ?_⟩
  have hp : P σ₁ := stable rely start
  rw [unnoted.perform, perform_readOnly rfl]
  cases hreply : (perform (.openRoot path) fault σ₁.world).1 with
  | error e =>
      rw [show (sightMachine.perform ⟨site, .openRoot path⟩ fault σ₁).1 = .error e from hreply]
      exact fun σ₂ rely' => ⟨nofun, stable rely' hp⟩
  | ok dir =>
      rw [show (sightMachine.perform ⟨site, .openRoot path⟩ fault σ₁).1 = .ok dir from hreply]
      intro σ₂ rely'
      refine ⟨?_, stable rely' hp⟩
      rintro _ ⟨rfl⟩
      rw [rely'.root]
      exact perform_openRoot_ok hreply

/-- The probe of phase 1 notes what it reports. -/
theorem race_sourceProbe {dir : Dir} {name : Bytes} {P : Sight → Prop}
    (stable : ∀ {σ σ'}, Apart id request σ σ' → P σ → P σ')
    (blind : ∀ σ seen, P σ → P { σ with seen := seen }) (start : P σ) :
    (classify .sourceProbe dir name).Safe sightMachine (raceContract id request)
      (fun result σ' => (∀ identity, result = .ok identity → identity.kind = .regular →
        ∃ o, identity = ⟨o.dev, o.ino, .regular⟩ ∧ σ'.seen = some o ∧
          σ'.world.fs.type o = .reg) ∧ P σ') σ := by
  cases hplain : isPlainName name with
  | false =>
      rw [classify_bad hplain]
      exact fun σ₁ rely => ⟨nofun, stable rely start⟩
  | true =>
    rw [classify_plain hplain]
    intro σ₁ rely fault _
    refine ⟨trivial, ?_⟩
    have hp : P σ₁ := stable rely start
    have hworld : (perform (.fstatat ⟨dir, name⟩) fault σ₁.world).2 = σ₁.world :=
      perform_readOnly rfl _ _
    simp only [sightMachine, hworld]
    rcases perform_fstatat ⟨dir, name⟩ fault σ₁.world with
      ⟨e, he, _, hreply⟩ | ⟨_, hreply⟩ | ⟨o, _, hreply⟩
    · rw [hreply]
      intro σ₂ rely'
      refine ⟨?_, stable rely' hp⟩
      intro identity hidentity
      simp [identify, he] at hidentity
    · rw [hreply]
      intro σ₂ rely'
      refine ⟨?_, stable rely' hp⟩
      rintro _ ⟨rfl⟩ hkind
      cases hkind
    · rw [hreply]
      intro σ₂ rely'
      refine ⟨?_, stable rely' (blind σ₁ (some o) hp)⟩
      rintro _ ⟨rfl⟩ hkind
      have htype : σ₁.world.fs.type o = .reg := by
        change kindFromMode (σ₁.world.fs.type o) = .regular at hkind
        cases htype : σ₁.world.fs.type o <;> rw [htype] at hkind <;>
          first | rfl | cases hkind
      refine ⟨o, ?_, rely'.seen, ?_⟩
      · simp [FileIdentity.ofStat, World.stat, htype, kindFromMode]
      · rw [rely'.type]
        exact htype

/-- What `open_regular` accepts is the object it was told to expect. -/
theorem race_openRegular {dir : Dir} {name : Bytes} {P : Sight → Prop}
    (stable : ∀ {σ σ'}, Apart id request σ σ' → P σ → P σ')
    (blind : ∀ σ verified, P σ → P { σ with verified := verified }) (start : P σ) :
    (openRegular dir name ⟨o.dev, o.ino, .regular⟩).Safe sightMachine (raceContract id request)
      (fun result σ' => (result = .ok () → σ'.verified = some o) ∧ P σ') σ := by
  unfold openRegular
  cases hplain : isPlainName name with
  | false =>
      rw [rejectBadName_bad hplain]
      exact fun σ₁ rely => ⟨(by rintro ⟨⟩), stable rely start⟩
  | true =>
    rw [rejectBadName_plain hplain]
    intro σ₁ rely fault _
    refine ⟨trivial, ?_⟩
    have hp : P σ₁ := stable rely start
    have hopen : Unnoted ⟨.sourceOpen, .openat ⟨dir, name⟩⟩ :=
      unnoted_look rfl (by decide) (by decide) (by decide)
    rw [hopen.perform, perform_readOnly rfl]
    cases hreply : (perform (.openat ⟨dir, name⟩) fault σ₁.world).1 with
    | error e =>
        rw [show (sightMachine.perform ⟨.sourceOpen, .openat ⟨dir, name⟩⟩ fault σ₁).1 = .error e
          from hreply]
        change Program.Safe _ _ _ (if e = ELOOP then _ else _) _
        split
        · exact fun σ₂ rely' => ⟨(by rintro ⟨⟩), stable rely' hp⟩
        · exact fun σ₂ rely' => ⟨(by rintro ⟨⟩), stable rely' hp⟩
    | ok fd =>
        rw [show (sightMachine.perform ⟨.sourceOpen, .openat ⟨dir, name⟩⟩ fault σ₁).1 = .ok fd
          from hreply]
        intro σ₂ rely' fault₂ _
        refine ⟨trivial, ?_⟩
        rcases sight_cases ⟨.sourceFstat, .fstat fd⟩ fault₂ σ₂ with ⟨e, hperform⟩ | hperform
        · rw [hperform]
          exact fun σ₃ rely'' => ⟨(by rintro ⟨⟩), stable rely'' (stable rely' hp)⟩
        rw [hperform]
        change Program.Safe _ _ _
          (if (FileIdentity.ofStat (σ₂.world.stat fd)).sameObjectAs _ then _ else _)
          { σ₂ with verified := some fd }
        have hp₂ : P { σ₂ with verified := some fd } := blind _ _ (stable rely' hp)
        split
        · rename_i hsame
          intro σ₃ rely''
          refine ⟨fun _ => ?_, stable rely'' hp₂⟩
          rw [rely''.verified]
          -- the two numbers that are compared identify the object
          simp only [FileIdentity.sameObjectAs, Bool.and_eq_true] at hsame
          have hdev : fd.dev = o.dev := of_decide_eq_true hsame.1.1
          have hino : fd.ino = o.ino := of_decide_eq_true hsame.1.2
          rw [show fd = o from Inode.ext hdev hino]
        · exact fun σ₃ rely'' => ⟨(by rintro ⟨⟩), stable rely'' hp₂⟩

/-- Both directories are open, and the job is not finished. -/
structure Aimed (id : Bytes) (request : MoveRequest) (sourceDir destDir : Dir) (σ : Sight) :
    Prop where
  unfinished : Unfinished id σ
  source : σ.world.fs.root (cstr request.sourceDir) = some sourceDir
  dest : σ.world.fs.root (cstr request.destDir) = some destDir

theorem Aimed.stable (rely : Apart id request σ σ') (h : Aimed id request sourceDir destDir σ) :
    Aimed id request sourceDir destDir σ' := by
  refine ⟨h.unfinished.stable rely, ?_, ?_⟩
  · rw [rely.root]
    exact h.source
  · rw [rely.root]
    exact h.dest

/-- What phase 1 lets through has been checked. -/
def Passed (id : Bytes) (request : MoveRequest) (result : Except Bytes (Job × Dir × Dir × Bytes))
    (σ : Sight) : Prop :=
  ∀ job sourceDir destDir error, result = .ok (job, sourceDir, destDir, error) →
    job.state ≠ .done ∧ Unfinished id σ ∧ ∃ o, Checked request sourceDir destDir o σ

theorem race_validate (undone : σ.world.db.state id ≠ some .done) :
    (validate id request).Safe sightMachine (raceContract id request) (Passed id request) σ := by
  have hrefused : ∀ message σ, (Program.pure (.error message) : Prog _).Safe sightMachine
      (raceContract id request) (Passed id request) σ := by
    intro message σ σ' _ job sourceDir destDir error hok
    cases hok
  unfold validate
  split
  · exact hrefused _ _
  · exact hrefused _ _
  refine (race_load rfl (by decide) (P := fun _ => True) (fun _ _ => trivial) trivial
    undone).bind ?_
  rintro loaded σ₁ ⟨hloaded, -⟩
  match loaded with
  | .error message => exact hrefused _ _
  | .ok none => exact hrefused _ _
  | .ok (some job) =>
    obtain ⟨hjob, h₁⟩ := hloaded job rfl
    refine (race_openRoot (unnoted_look rfl (by decide) (by decide) (by decide))
      Unfinished.stable h₁).bind ?_
    rintro source σ₂ ⟨hsource, h₂⟩
    cases source with
    | error message => exact hrefused _ _
    | ok sourceDir =>
    have hstable₂ : ∀ {σ σ' : Sight}, Apart id request σ σ' →
        Unfinished id σ ∧ σ.world.fs.root (cstr request.sourceDir) = some sourceDir →
        Unfinished id σ' ∧ σ'.world.fs.root (cstr request.sourceDir) = some sourceDir :=
      fun rely h => ⟨h.1.stable rely, by rw [rely.root]; exact h.2⟩
    refine (race_openRoot (unnoted_look rfl (by decide) (by decide) (by decide)) hstable₂
      ⟨h₂, hsource sourceDir rfl⟩).bind ?_
    rintro dest σ₃ ⟨hdest, h₃⟩
    cases dest with
    | error message => exact hrefused _ _
    | ok destDir =>
    -- the probe notes what it sees; a run goes on only with a regular file
    refine (race_sourceProbe Aimed.stable (fun _ _ h => ⟨h.unfinished, h.source, h.dest⟩)
      ⟨h₃.1, h₃.2, hdest destDir rfl⟩).bind ?_
    rintro probed σ₄ ⟨hprobed, h₄⟩
    cases probed with
    | error message => exact hrefused _ _
    | ok identity =>
    simp only
    split
    · exact hrefused _ _
    split
    · exact hrefused _ _
    rename_i hregular
    obtain ⟨o, rfl, hseen, htype⟩ := hprobed identity rfl (not_not.mp hregular)
    have hstable₄ : ∀ {σ σ' : Sight}, Apart id request σ σ' →
        Aimed id request sourceDir destDir σ ∧ σ.seen = some o ∧ σ.world.fs.type o = .reg →
        Aimed id request sourceDir destDir σ' ∧ σ'.seen = some o ∧
          σ'.world.fs.type o = .reg :=
      fun rely h => ⟨h.1.stable rely, rely.seen.trans h.2.1, by rw [rely.type]; exact h.2.2⟩
    -- what is opened is compared with what was seen
    refine (race_openRegular hstable₄
      (fun _ _ h => ⟨⟨h.1.unfinished, h.1.source, h.1.dest⟩, h.2⟩) ⟨h₄, hseen, htype⟩).bind ?_
    rintro opened σ₅ ⟨hopened, h₅, hseen₅, htype₅⟩
    cases opened with
    | error message => exact hrefused _ _
    | ok _ =>
    have h₅' : Unfinished id σ₅ ∧ Checked request sourceDir destDir o σ₅ :=
      ⟨h₅.unfinished, h₅.source, h₅.dest, hseen₅, hopened rfl, htype₅⟩
    -- the last probe is only for the size, and the run goes on without it
    refine (race_looks (uses_classify
      ⟨unnoted_look rfl (by decide) (by decide) (by decide), rfl⟩) (Program.returns_true _)
      ready_stable h₅').bind ?_
    rintro probed σ₆ ⟨-, h₆⟩
    cases probed with
    | error message =>
        rintro σ₇ rely _ _ _ _ ⟨rfl⟩
        exact ⟨hjob, h₆.1.stable rely, o, h₆.2.stable rely⟩
    | ok _ =>
        rintro σ₇ rely _ _ _ _ ⟨rfl⟩
        exact ⟨hjob, h₆.1.stable rely, o, h₆.2.stable rely⟩

/-- The commit is made, and the object is under the staging name. -/
structure Staged (id : Bytes) (request : MoveRequest) (sourceDir destDir : Dir) (o : Inode)
    (σ : Sight) : Prop where
  checked : Checked request sourceDir destDir o σ
  unfinished : Unfinished id σ
  committed : σ.committed = true
  staged : σ.entry ⟨destDir, stagingName id⟩ = some o

theorem Staged.stable (rely : Apart id request σ σ')
    (h : Staged id request sourceDir destDir o σ) : Staged id request sourceDir destDir o σ' := by
  refine ⟨h.checked.stable rely, h.unfinished.stable rely, rely.committed.trans h.committed, ?_⟩
  exact (rely.delivered h.committed _ h.checked.places).1.trans h.staged

theorem Staged.noted {staged : Option Inode} (h : Staged id request sourceDir destDir o σ) :
    Staged id request sourceDir destDir o { σ with staged := staged } := by
  obtain ⟨hsource, hdest, hseen, hverified, hregular⟩ := h.checked
  exact ⟨⟨hsource, hdest, hseen, hverified, hregular⟩, h.unfinished, h.committed, h.staged⟩

/-- The object is under the final name. -/
structure Published (request : MoveRequest) (sourceDir destDir : Dir) (o : Inode) (σ : Sight) :
    Prop where
  checked : Checked request sourceDir destDir o σ
  committed : σ.committed = true
  final : σ.entry ⟨destDir, request.destName⟩ = some o

theorem Published.stable (rely : Apart id request σ σ')
    (h : Published request sourceDir destDir o σ) : Published request sourceDir destDir o σ' := by
  refine ⟨h.checked.stable rely, rely.committed.trans h.committed, ?_⟩
  exact (rely.delivered h.committed _ h.checked.places).2.trans h.final

theorem Published.delivered (h : Published request sourceDir destDir o σ) :
    DeliveredAsChecked id request σ :=
  ⟨_, o, h.checked.places, h.checked.seen, h.checked.verified, h.final, h.checked.regular⟩

/-- A commit finds what was seen under the source name, if it is still there. -/
theorem Checked.taken {inode : Inode} (checked : Checked request sourceDir destDir o σ)
    (asSeen : AsSeen id request σ)
    (there : σ.world.fs.entry ⟨sourceDir, request.sourceName⟩ = some inode) : inode = o := by
  have hseen := asSeen _ checked.places
  rw [Sight.entry, there, checked.seen] at hseen
  exact Option.some.inj hseen

/-- What phase 1 has established says nothing about names. -/
theorem Checked.renamed {fs : Filesystem} {committed : Bool}
    (checked : Checked request sourceDir destDir o σ) (root : fs.root = σ.world.fs.root)
    (type : fs.type = σ.world.fs.type) :
    Checked request sourceDir destDir o
      { σ with world := { σ.world with fs := fs }, committed := committed } := by
  refine ⟨?_, ?_, checked.seen, checked.verified, ?_⟩
  · rw [← checked.source, ← root]
  · rw [← checked.dest, ← root]
  · rw [← checked.regular, ← type]

section Commit
variable {post : α → Sight → Prop} {next : Except Fault Unit → Prog α}
  (failed : ∀ e σ', (next (.error e)).Safe sightMachine (raceContract id request) post σ')
  (moved : ∀ σ', Staged id request sourceDir destDir o σ' →
    (next (.ok ())).Safe sightMachine (raceContract id request) post σ')
include failed moved

theorem race_commitRename (unfinished : Unfinished id σ)
    (checked : Checked request sourceDir destDir o σ) :
    (Program.call ⟨.commitRename, .renameat2 ⟨sourceDir, request.sourceName⟩
      ⟨destDir, stagingName id⟩⟩ next).Safe sightMachine (raceContract id request) post σ := by
  intro σ₁ rely fault regular
  refine ⟨trivial, ?_⟩
  have hunfinished : Unfinished id σ₁ := unfinished.stable rely
  have hchecked : Checked request sourceDir destDir o σ₁ := checked.stable rely
  rcases sight_cases ⟨.commitRename, .renameat2 ⟨sourceDir, request.sourceName⟩
      ⟨destDir, stagingName id⟩⟩ fault σ₁ with ⟨e, hperform⟩ | hperform
  · rw [hperform]
    exact failed e _
  rw [hperform]
  cases hfs : σ₁.world.fs.renameNoReplace ⟨sourceDir, request.sourceName⟩
      ⟨destDir, stagingName id⟩ with
  | error e =>
      simp only [answer, World.onFs, hfs]
      exact failed e _
  | ok fs' =>
      simp only [answer, World.onFs, hfs]
      obtain ⟨inode, hsource, _, rfl⟩ := Filesystem.renameNoReplace_ok hfs
      obtain rfl := hchecked.taken (regular.1 rfl) hsource
      exact moved _ ⟨hchecked.renamed rfl rfl, hunfinished, rfl, Filesystem.entry_put_self⟩

theorem race_commitLink {linked : Except Fault Unit → Prog α}
    (refused : ∀ e σ', (linked (.error e)).Safe sightMachine (raceContract id request) post σ')
    (unlinks : linked (.ok ()) =
      .call ⟨.commitUnlink, .unlinkat ⟨sourceDir, request.sourceName⟩⟩ next)
    (unfinished : Unfinished id σ) (checked : Checked request sourceDir destDir o σ) :
    (Program.call ⟨.commitLink, .linkat ⟨sourceDir, request.sourceName⟩
      ⟨destDir, stagingName id⟩⟩ linked).Safe sightMachine (raceContract id request) post σ := by
  intro σ₁ rely fault regular
  refine ⟨trivial, ?_⟩
  have hunfinished : Unfinished id σ₁ := unfinished.stable rely
  have hchecked : Checked request sourceDir destDir o σ₁ := checked.stable rely
  rcases sight_cases ⟨.commitLink, .linkat ⟨sourceDir, request.sourceName⟩
      ⟨destDir, stagingName id⟩⟩ fault σ₁ with ⟨e, hperform⟩ | hperform
  · rw [hperform]
    exact refused e _
  rw [hperform]
  cases hfs : σ₁.world.fs.link ⟨sourceDir, request.sourceName⟩ ⟨destDir, stagingName id⟩ with
  | error e =>
      simp only [answer, World.onFs, hfs]
      exact refused e _
  | ok fs' =>
      simp only [answer, World.onFs, hfs, unlinks]
      obtain ⟨inode, hsource, hnone, rfl⟩ := Filesystem.link_ok hfs
      obtain rfl := hchecked.taken (regular.1 rfl) hsource
      have hapart : (⟨destDir, stagingName id⟩ : Slot) ≠ ⟨sourceDir, request.sourceName⟩ := by
        intro heq
        rw [heq, hsource] at hnone
        cases hnone
      intro σ₂ rely₂ fault₂ _
      refine ⟨trivial, ?_⟩
      have hstaged : Staged id request sourceDir destDir inode σ₂ :=
        Staged.stable rely₂ ⟨hchecked.renamed rfl rfl, hunfinished, rfl,
          Filesystem.entry_put_self⟩
      rcases sight_cases ⟨.commitUnlink, .unlinkat ⟨sourceDir, request.sourceName⟩⟩ fault₂ σ₂
        with ⟨e, hperform₂⟩ | hperform₂
      · rw [hperform₂]
        exact failed e _
      rw [hperform₂]
      cases hfs₂ : σ₂.world.fs.unlink ⟨sourceDir, request.sourceName⟩ with
      | error e =>
          simp only [answer, World.onFs, hfs₂]
          exact failed e _
      | ok fs'' =>
          simp only [answer, World.onFs, hfs₂]
          obtain ⟨_, _, rfl⟩ := Filesystem.unlink_ok hfs₂
          -- whatever the name holds by now, it is not the staging name
          exact moved _ ⟨hstaged.checked.renamed rfl rfl, hstaged.unfinished, hstaged.committed,
            (Filesystem.entry_drop_ne hapart).trans hstaged.staged⟩

end Commit

/-- A call that is refused promises nothing. -/
theorem race_error {Q : Sight → Prop} (message : Bytes) (σ : Sight) :
    (Program.pure (.error message) : Prog (Except Bytes Unit)).Safe sightMachine
      (raceContract id request) (fun result σ' => result = .ok () → Q σ') σ := by
  intro σ' _ hok
  cases hok

/-- The commit takes what was seen, if the source name still holds it. -/
theorem race_moveWithin {strategy : MoveStrategy} (unfinished : Unfinished id σ)
    (checked : Checked request sourceDir destDir o σ) :
    (moveWithin sourceDir request.sourceName destDir (stagingName id) strategy).Safe sightMachine
      (raceContract id request) (fun result σ' => result = .ok () →
        isPlainName (stagingName id) = true ∧ Staged id request sourceDir destDir o σ') σ := by
  unfold moveWithin
  by_cases hfrom : isPlainName request.sourceName = false
  · rw [rejectBadName_bad hfrom]
    exact race_error _ _
  by_cases hto : isPlainName (stagingName id) = false
  · rw [rejectBadName_plain (by simpa using hfrom), rejectBadName_bad hto]
    exact race_error _ _
  rw [rejectBadName_plain (by simpa using hfrom), rejectBadName_plain (by simpa using hto)]
  have hmoved : ∀ σ, Staged id request sourceDir destDir o σ → (Program.pure (.ok ()) :
      Prog (Except Bytes Unit)).Safe sightMachine (raceContract id request)
      (fun result σ' => result = .ok () →
        isPlainName (stagingName id) = true ∧ Staged id request sourceDir destDir o σ') σ :=
    fun σ staged σ' rely _ => ⟨by simpa using hto, staged.stable rely⟩
  cases strategy with
  | renameNoReplace =>
      exact race_commitRename (fun e σ' => race_error _ σ') hmoved unfinished checked
  | linkThenUnlink =>
      exact race_commitLink (fun e σ' => race_error _ σ') hmoved (fun e σ' => race_error _ σ') rfl
        unfinished checked

/-- One call that only looks. -/
theorem race_look {c : Call} {next : Reply c → Prog α} {post : α → Sight → Prop}
    {P : Sight → Prop} (unnoted : Unnoted c) (looks : c.op.readOnly = true)
    (stable : ∀ {σ σ'}, Apart id request σ σ' → P σ → P σ') (start : P σ)
    (rest : ∀ reply σ', P σ' →
      (next reply).Safe sightMachine (raceContract id request) post σ') :
    (Program.call c next).Safe sightMachine (raceContract id request) post σ := by
  intro σ₁ rely fault _
  refine ⟨trivial, ?_⟩
  rw [unnoted.perform, perform_readOnly looks]
  exact rest _ _ (stable rely start)

theorem race_publish (staged : Staged id request sourceDir destDir o σ) :
    (publish destDir (stagingName id) request.destName).Safe sightMachine
      (raceContract id request)
      (fun result σ' => result = .ok () → Published request sourceDir destDir o σ') σ := by
  unfold publish
  by_cases htemp : isPlainName (stagingName id) = false
  · rw [rejectBadName_bad htemp]
    exact race_error _ _
  by_cases hfinal : isPlainName request.destName = false
  · rw [rejectBadName_plain (by simpa using htemp), rejectBadName_bad hfinal]
    exact race_error _ _
  rw [rejectBadName_plain (by simpa using htemp), rejectBadName_plain (by simpa using hfinal)]
  refine race_look (unnoted_late rfl rfl (by decide)) rfl Staged.stable staged ?_
  intro opened σ₁ h₁
  cases opened with
  | error e => exact race_error _ _
  | ok fd =>
  refine race_look (unnoted_late rfl rfl (by decide)) rfl Staged.stable h₁ fun synced σ₂ h₂ => ?_
  cases synced with
  | error e => exact race_error _ _
  | ok _ =>
  intro σ₃ rely fault _
  refine ⟨trivial, ?_⟩
  have h₃ : Staged id request sourceDir destDir o σ₃ := h₂.stable rely
  rcases sight_cases ⟨.publishRename, .renameat ⟨destDir, stagingName id⟩
      ⟨destDir, request.destName⟩⟩ fault σ₃ with ⟨e, hperform⟩ | hperform
  · rw [hperform]
    exact race_error _ _
  rw [hperform]
  cases hfs : σ₃.world.fs.rename ⟨destDir, stagingName id⟩ ⟨destDir, request.destName⟩ with
  | error e =>
      simp only [answer, World.onFs, hfs]
      exact race_error _ _
  | ok fs' =>
      have hpublished : Published request sourceDir destDir o
          { σ₃ with world := { σ₃.world with fs := fs' } } := by
        obtain ⟨inode, hinode, hcases⟩ := Filesystem.rename_ok hfs
        have hthere : σ₃.world.fs.entry ⟨destDir, stagingName id⟩ = some o := h₃.staged
        rw [hthere] at hinode
        cases hinode
        rcases hcases with ⟨hsame, rfl⟩ | ⟨_, rfl⟩
        · exact ⟨h₃.checked.renamed rfl rfl, h₃.committed, hsame⟩
        · exact ⟨h₃.checked.renamed rfl rfl, h₃.committed, Filesystem.entry_put_self⟩
      simp only [answer, World.onFs, hfs, Sight.note]
      refine race_look (unnoted_late rfl rfl (by decide)) rfl Published.stable hpublished
        fun synced σ₄ h₄ => ?_
      cases synced with
      | error e => exact race_error _ _
      | ok _ => exact fun σ₅ rely' _ => h₄.stable rely'

/-- A run that ends here has delivered what was checked, if it says so. -/
abbrev EndsDelivered (id : Bytes) (request : MoveRequest) (result : MoveResult) (σ : Sight) :
    Prop :=
  result.1 = .completed → DeliveredAsChecked id request σ

section Finishing
variable {tick : Int} {error : Bytes}

theorem race_haltWith {outcome : MoveOutcome} (h : outcome ≠ .completed) :
    (haltWith id outcome error).Safe sightMachine (raceContract id request)
      (EndsDelivered id request) σ := by
  have huses : (markNeedsAttention id error).Uses fun c => Unnoted c ∧ True :=
    uses_markNeedsAttention ⟨⟨rfl, nofun, nofun, nofun⟩, trivial⟩
  refine (race_unnoted (P := fun _ => True) huses (Program.returns_true _)
    (fun _ _ => trivial) (fun _ _ _ _ _ _ => trivial) trivial).bind fun _ σ₁ _ => ?_
  exact fun σ₂ _ hcompleted => absurd hcompleted h

theorem race_recordDone (published : Published request sourceDir destDir o σ) :
    (recordDone id tick error).Safe sightMachine (raceContract id request)
      (EndsDelivered id request) σ := by
  have huses : (recordDone id tick error).Uses fun c => Unnoted c ∧ True := by
    refine (uses_recordTransition ⟨unnoted_late rfl rfl (by decide), trivial⟩
      fun _ _ _ => ⟨⟨rfl, nofun, nofun, nofun⟩, trivial⟩).bind fun result => ?_
    cases result with
    | error failure => exact uses_haltWith fun _ => ⟨⟨rfl, nofun, nofun, nofun⟩, trivial⟩
    | ok _ => trivial
  refine (race_unnoted huses (Program.returns_true _) Published.stable ?_ published).weaken ?_
  · intro c fault unnoted _ σ h
    refine ⟨h.checked.kept fault unnoted, h.committed, ?_⟩
    rw [Sight.entry, perform_fs unnoted.still]
    exact h.final
  · exact fun _ _ h _ => h.2.delivered

theorem race_publishAndRecord (plain : isPlainName (stagingName id) = true)
    (staged : Staged id request sourceDir destDir o σ) :
    (publishAndRecord id request destDir tick error).Safe sightMachine
      (raceContract id request) (EndsDelivered id request) σ := by
  -- the staged object has not been found: the final name decides
  have hunseen : ∀ σ, Staged id request sourceDir destDir o σ → σ.staged = none →
      ((sawEntry .finalProbe destDir request.destName).bind fun sawFinal =>
        if sawFinal then recordDone id tick error
        else haltWith id .failedExternal (lit "mover: job " ++ quoted id ++
          lit (" is past the commit point but neither the staged nor the " ++
            "final name exists; the delivered object was removed " ++
            "externally (L2-SEC-011)"))).Safe sightMachine (raceContract id request)
      (EndsDelivered id request) σ := by
    intro σ staged unseen
    by_cases hplain : isPlainName request.destName = false
    · rw [sawEntry_bad hplain]
      exact race_haltWith (by decide)
    rw [sawEntry_plain (by simpa using hplain)]
    intro σ₁ rely fault regular
    refine ⟨trivial, ?_⟩
    have h₁ : Staged id request sourceDir destDir o σ₁ := staged.stable rely
    rw [(unnoted_late rfl rfl (by decide)).perform, perform_readOnly rfl]
    change Program.Safe _ _ _
      (if (σ₁.sees fault ⟨destDir, request.destName⟩).isSome then _ else _) _
    rcases regular.2 rfl (rely.staged.trans unseen) _ h₁.checked.places with hnone | hsame
    · rw [hnone, if_neg (by decide)]
      exact race_haltWith (by decide)
    · have hsees : σ₁.sees fault ⟨destDir, request.destName⟩ = some o :=
        hsame.trans h₁.checked.seen
      rw [hsees, if_pos Option.isSome_some]
      exact race_recordDone ⟨h₁.checked, h₁.committed, Sight.entry_of_sees hsees⟩
  unfold publishAndRecord
  rw [sawEntry_plain plain]
  intro σ₁ rely fault _
  refine ⟨trivial, ?_⟩
  have h₁ : Staged id request sourceDir destDir o σ₁ := staged.stable rely
  have hworld : (perform (.fstatat ⟨destDir, stagingName id⟩) fault σ₁.world).2 = σ₁.world :=
    perform_readOnly rfl _ _
  simp only [sightMachine, hworld]
  rcases perform_fstatat ⟨destDir, stagingName id⟩ fault σ₁.world with
    ⟨e, _, _, hreply⟩ | ⟨hnone, _⟩ | ⟨x, _, hreply⟩
  · rw [hreply]
    exact hunseen _ h₁.noted rfl
  · have hthere : σ₁.world.fs.entry ⟨destDir, stagingName id⟩ = some o := h₁.staged
    rw [hnone] at hthere
    cases hthere
  · rw [hreply]
    refine (race_looks (uses_sawEntry ⟨unnoted_late rfl rfl (by decide), rfl⟩)
      (Program.returns_true _) Staged.stable h₁.noted).bind ?_
    rintro sawFinal σ₂ ⟨-, h₂⟩
    refine (race_publish h₂).bind fun result σ₃ h₃ => ?_
    cases result with
    | error message => exact race_haltWith (by decide)
    | ok _ => exact race_recordDone (h₃ rfl)

theorem race_recordTransition {target : JobState} {nowMs : Int} {message : Bytes}
    {phase : CommitPhase} {P : Sight → Prop} (h : target ≠ .done)
    (stable : ∀ {σ σ'}, Apart id request σ σ' → P σ → P σ')
    (keeps : ∀ c fault, Unnoted c → WritesOnly (· ≠ .done) c → ∀ σ, P σ →
      P { σ with world := (perform c.op fault σ.world).2 }) (start : P σ) :
    (recordTransition id target nowMs message phase).Safe sightMachine (raceContract id request)
      (fun _ σ' => P σ') σ := by
  have huses : (recordTransition id target nowMs message phase).Uses fun c =>
      Unnoted c ∧ WritesOnly (· ≠ .done) c := by
    refine uses_recordTransition ⟨⟨rfl, nofun, nofun, nofun⟩, trivial⟩ ?_
    intro before after htrans
    refine ⟨⟨rfl, nofun, nofun, nofun⟩, ?_⟩
    simp only [WritesOnly, Job.transition_state htrans]
    exact h
  exact (race_unnoted huses (Program.returns_true _) stable keeps start).weaken
    fun _ _ h => h.2

theorem Staged.kept {c : Call} (fault : Option Fault) (unnoted : Unnoted c)
    (writes : WritesOnly (· ≠ .done) c) (h : Staged id request sourceDir destDir o σ) :
    Staged id request sourceDir destDir o
      { σ with world := (perform c.op fault σ.world).2 } := by
  refine ⟨h.checked.kept fault unnoted, RowIn.call h.unfinished writes, h.committed, ?_⟩
  rw [Sight.entry, perform_fs unnoted.still]
  exact h.staged

theorem Staged.undone (h : Staged id request sourceDir destDir o σ) :
    σ.world.db.state id ≠ some .done := by
  obtain ⟨x, hx, hne⟩ := h.unfinished
  rw [hx]
  exact fun heq => hne (Option.some.inj heq)

theorem race_finishAfterCommit (plain : isPlainName (stagingName id) = true)
    (staged : Staged id request sourceDir destDir o σ) :
    (finishAfterCommit id request destDir tick error).Safe sightMachine
      (raceContract id request) (EndsDelivered id request) σ := by
  refine (race_load rfl (by decide) Staged.stable staged staged.undone).bind ?_
  rintro loaded σ₁ ⟨hloaded, h₁⟩
  match loaded with
  | .error message => exact fun σ₂ _ => nofun
  | .ok none => exact fun σ₂ _ => nofun
  | .ok (some job) =>
    simp only
    split
    · rename_i hdone
      exact absurd hdone (hloaded job rfl).1
    split
    · exact fun σ₂ _ => nofun
    split
    · refine (race_recordTransition (by decide) Staged.stable
        (fun c fault hunnoted hwrites σ h => h.kept fault hunnoted hwrites) h₁).bind ?_
      intro result σ₂ h₂
      cases result with
      | error failure => exact race_haltWith (by decide)
      | ok _ => exact race_publishAndRecord plain h₂
    · exact race_publishAndRecord plain h₁

theorem race_commitAndFinish {strategy : MoveStrategy} (unfinished : Unfinished id σ)
    (checked : Checked request sourceDir destDir o σ) :
    (commitAndFinish id request strategy sourceDir destDir tick error).Safe sightMachine
      (raceContract id request) (EndsDelivered id request) σ := by
  refine (race_moveWithin unfinished checked).bind fun result σ₁ h₁ => ?_
  cases result with
  | error message => exact fun σ₂ _ => nofun
  | ok _ =>
      obtain ⟨hplain, hstaged⟩ := h₁ rfl
      exact race_finishAfterCommit hplain hstaged

end Finishing

theorem race_execute {strategy : MoveStrategy} (undone : σ.world.db.state id ≠ some .done) :
    (execute id request strategy).Safe sightMachine (raceContract id request)
      (EndsDelivered id request) σ := by
  refine (race_validate undone).bind fun result σ₁ h₁ => ?_
  match result with
  | .error message => exact fun σ₂ _ => nofun
  | .ok (job, sourceDir, destDir, error) =>
    obtain ⟨hjob, hunfinished, o, hchecked⟩ := h₁ _ _ _ _ rfl
    simp only
    split
    · rename_i hdone
      exact absurd hdone hjob
    split
    · exact fun σ₂ _ => nofun
    split
    · refine (race_recordTransition (by decide) ready_stable
        (fun c fault hunnoted hwrites σ h =>
          ⟨RowIn.call h.1 hwrites, h.2.kept fault hunnoted⟩)
        ⟨hunfinished, hchecked⟩).bind fun result σ₂ h₂ => ?_
      cases result with
      | error failure => exact fun σ₃ _ => nofun
      | ok _ => exact race_commitAndFinish h₂.1 h₂.2
    · exact race_commitAndFinish hunfinished hchecked

end Rules

/-! ## Every interleaving -/

/-- The adversary keeps to what the run relies on, where it is steady. -/
theorem Race.change_apart {id : Bytes} {request : MoveRequest} {name : Bytes} {r r' : Race}
    {how : Filesystem → Slot → Filesystem}
    (only : ∀ fs slot other, other ≠ slot → (how fs slot).entry other = fs.entry other)
    (same : ∀ fs slot, (how fs slot).root = fs.root ∧ (how fs slot).type = fs.type)
    (spared : Spared id request name r.sight) (act : r.change request name how = some r') :
    Apart id request r.sight r'.sight ∧ r'.program = r.program := by
  unfold Race.change at act
  split at act
  · cases act
  rename_i dir hdir
  cases act
  refine ⟨⟨rfl, rfl, rfl, rfl, rfl, (same _ _).1, (same _ _).2, ?_⟩, rfl⟩
  intro hcommitted p hp
  have hsource : p.source.dir = dir := by
    rw [Sight.places, placesOf, hdir] at hp
    split at hp
    · rename_i hsome _
      cases hsome
      cases hp
      rfl
    · cases hp
  obtain ⟨hstaged, hfinal⟩ := spared hcommitted p hp
  rw [hsource] at hstaged hfinal
  exact ⟨only _ _ _ hstaged.symm, only _ _ _ hfinal.symm⟩

/-- What a run reports delivered is what it checked, in every history, failures included, in
which the commit finds what was seen, the adversary then leaves the staging name and the
final name alone, and a run that does not find its staged object is not misled by another
one. -/
theorem moved_is_checked (id : Bytes) (request : MoveRequest) (strategy : MoveStrategy)
    (w : World) (undone : w.db.state id ≠ some .done) (r : Race)
    (reach : GuardedReach (Race.act request) (Steady id request)
      (Race.start id request strategy w) r)
    (completed : r.outcome = some .completed) :
    DeliveredAsChecked id request r.sight := by
  have hsafe : r.program.Safe sightMachine (raceContract id request)
      (EndsDelivered id request) r.sight := by
    refine reach.invariant (fun r => r.program.Safe sightMachine (raceContract id request)
      (EndsDelivered id request) r.sight) ?_ (race_execute undone)
    intro r r' event steady act safe
    cases event with
    | call fault =>
        unfold Race.act at act
        unfold Steady at steady
        cases hprogram : r.program with
        | pure value =>
            rw [hprogram] at act
            cases act
        | call c next =>
            rw [hprogram] at act steady safe
            cases act
            exact (safe.step steady).2
    | put name object =>
        obtain ⟨rely, hprogram⟩ := Race.change_apart
          (fun _ _ _ h => Filesystem.entry_put_ne h) (fun _ _ => ⟨rfl, rfl⟩) steady act
        rw [hprogram]
        exact safe.interfere rely
    | drop name =>
        obtain ⟨rely, hprogram⟩ := Race.change_apart
          (fun _ _ _ h => Filesystem.entry_drop_ne h) (fun _ _ => ⟨rfl, rfl⟩) steady act
        rw [hprogram]
        exact safe.interfere rely
  unfold Race.outcome at completed
  split at completed
  · rename_i result hprogram
    rw [hprogram] at hsafe
    exact hsafe.result (Option.some.inj completed)
  · cases completed

def sampleRace : Race :=
  Race.start (lit "j") sampleRequest .renameNoReplace (sampleWorld .queued [sampleSource])

/-- The file is replaced before phase 1 looks at it, and a new one appears when it has been
taken. The probe for its size fails, and so does the one of the final name. -/
def sampleSwaps : List RaceEvent :=
  List.replicate 3 (RaceEvent.call none) ++
    ([.drop (lit "a"), .put (lit "a") ⟨0, 8⟩] : List RaceEvent) ++
    List.replicate 3 (RaceEvent.call none) ++ ([.call (some EIO)] : List RaceEvent) ++
    List.replicate 3 (RaceEvent.call none) ++ ([.put (lit "a") ⟨0, 9⟩] : List RaceEvent) ++
    List.replicate 4 (RaceEvent.call none) ++ ([.call (some EIO)] : List RaceEvent) ++
    List.replicate 6 (RaceEvent.call none)

theorem moved_is_checked_sample :
    ∃ r, replay (Race.act sampleRequest) sampleSwaps sampleRace = some r ∧
      r.outcome = some .completed ∧ DeliveredAsChecked (lit "j") sampleRequest r.sight := by
  have meet : AllSteps (Race.act sampleRequest) (Steady (lit "j") sampleRequest) sampleSwaps
      sampleRace := by
    decide
  obtain ⟨r, hr⟩ := Option.isSome_iff_exists.mp
    (by decide : (replay (Race.act sampleRequest) sampleSwaps sampleRace).isSome = true)
  have houtcome : (replay (Race.act sampleRequest) sampleSwaps sampleRace).map Race.outcome =
      some (some .completed) := by
    decide
  rw [hr] at houtcome
  have hcompleted : r.outcome = some .completed := Option.some.inj houtcome
  exact ⟨r, hr, hcompleted, moved_is_checked (lit "j") sampleRequest .renameNoReplace _
    (by decide) r (.of_replay meet hr) hcompleted⟩

/-- The file is replaced after it has been opened and verified: the other one is
delivered. -/
theorem unchecked_file_delivered :
    ¬ ∀ id request strategy w r, GuardedReach (Race.act request) (fun _ _ => True)
        (Race.start id request strategy w) r →
      r.outcome = some .completed → DeliveredAsChecked id request r.sight := by
  intro h
  let labels : List RaceEvent :=
    List.replicate 7 (RaceEvent.call none) ++ ([.put (lit "a") ⟨0, 8⟩] : List RaceEvent) ++
      List.replicate 14 (RaceEvent.call none)
  obtain ⟨r, hr⟩ := Option.isSome_iff_exists.mp
    (by decide : (replay (Race.act sampleRequest) labels sampleRace).isSome = true)
  have houtcome : (replay (Race.act sampleRequest) labels sampleRace).map Race.outcome =
      some (some .completed) := by
    decide
  have hfacts : (replay (Race.act sampleRequest) labels sampleRace).map (fun r =>
      (r.sight.places (lit "j") sampleRequest, r.sight.seen, r.sight.entry ⟨2, lit "b"⟩)) =
      some (some ⟨⟨1, lit "a"⟩, ⟨2, stagingName (lit "j")⟩, ⟨2, lit "b"⟩⟩, some ⟨0, 7⟩,
        some ⟨0, 8⟩) := by
    decide
  rw [hr] at houtcome hfacts
  obtain ⟨hplaces, hseen, hfinal⟩ := by
    simpa only [Option.map_some, Option.some.injEq, Prod.mk.injEq] using hfacts
  obtain ⟨p, o, hp, ho, _, hdelivered, _⟩ := h _ _ _ _ r
    (.of_replay (AllSteps.of_free (fun _ _ => trivial) labels _) hr) (Option.some.inj houtcome)
  rw [hplaces] at hp
  cases hp
  rw [hfinal] at hdelivered
  rw [hseen] at ho
  cases ho
  cases hdelivered

end FileMover
