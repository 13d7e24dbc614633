import FileMover.Engine.Refinement
import FileMover.Framework.Guarded
import FileMover.Store.Rules
import Mathlib.Data.Fintype.Basic

/-!
# Several jobs, one source

Any number of runs of `execute`, each for a job of its own, that all name the same source
entry. Their calls are interleaved in any order and any of them may fail; nobody else
touches the names.

A bystander notes which run took the source name away: with the rename it is the
`renameat2`, with the other strategy it is the `unlinkat`, because several runs may have
linked the object by then. Only that run, the *holder*, gets past the commit. So only the
holder publishes, only the holder records DONE and returns success, and the object never
has fewer names than one.
-/

namespace FileMover

open Framework

/-- A job and how it is to be moved. -/
structure Entrant where
  id : Bytes
  request : MoveRequest
  strategy : MoveStrategy

/-- The world, and the run that has taken the source name away. -/
structure Scene (ι : Type) where
  world : World
  holder : Option ι

/-- The call has taken the source name away. -/
def takesSource : (c : Call) → Reply c → Bool
  | ⟨_, .renameat2 _ _⟩, .ok _ => true
  | ⟨_, .unlinkat _⟩, .ok _ => true
  | _, _ => false

/-- The calls of run `i`. -/
def sceneMachine {ι : Type} (i : ι) : Machine Call Reply Fault (Scene ι) where
  perform c fault σ :=
    ((perform c.op fault σ.world).1,
      { world := (perform c.op fault σ.world).2
        holder := if takesSource c (perform c.op fault σ.world).1 then some i
          else σ.holder })

/-- All the runs. -/
structure Contest (ι : Type) where
  scene : Scene ι
  runs : ι → Prog MoveResult

namespace Contest
variable {ι : Type} [DecidableEq ι]

/-- The next call of one run, which may fail. -/
def act (s : Contest ι) : ι × Option Fault → Option (Contest ι)
  | (i, fault) =>
      match s.runs i with
      | .call c next =>
          some ⟨((sceneMachine i).perform c fault s.scene).2,
            Function.update s.runs i (next ((sceneMachine i).perform c fault s.scene).1)⟩
      | .pure _ => none

def start (jobs : ι → Entrant) (w : World) : Contest ι :=
  ⟨⟨w, none⟩, fun i => execute (jobs i).id (jobs i).request (jobs i).strategy⟩

/-- What run `i` has returned. -/
def outcome (s : Contest ι) (i : ι) : Option MoveOutcome :=
  match s.runs i with
  | .pure result => some result.1
  | .call _ _ => none

end Contest

section Statements
variable {ι : Type} (jobs : ι → Entrant) (source : Slot) (w : World)

/-- Every request whose source directory can be opened names this entry. -/
def NamesSource : Prop :=
  ∀ i dir, w.fs.root (cstr (jobs i).request.sourceDir) = some dir →
    ⟨dir, (jobs i).request.sourceName⟩ = source

/-- No request wants the file delivered under the source name itself. -/
def DeliversElsewhere : Prop :=
  ∀ i dir, w.fs.root (cstr (jobs i).request.destDir) = some dir →
    ⟨dir, (jobs i).request.destName⟩ ≠ source

/-- No job is recorded DONE yet. -/
def NoneDone : Prop := ∀ i, w.db.state (jobs i).id ≠ some .done

/-- The object has one of the names that the jobs are about. -/
def StillLinked (object : Inode) (s : Contest ι) : Prop :=
  s.scene.world.fs.entry source = some object ∨
    ∃ i p, placesOf w.fs.root (jobs i).id (jobs i).request = some p ∧
      (s.scene.world.fs.entry p.staged = some object ∨
        s.scene.world.fs.entry p.final = some object)

/-- At most one run reports success, and the object is not lost. -/
structure OneDelivers [DecidableEq ι] (s : Contest ι) : Prop where
  one : ∀ i j, s.outcome i = some .completed → s.outcome j = some .completed → i = j
  linked : ∀ object, w.fs.entry source = some object → StillLinked jobs source w object s

end Statements

/-! ## What the runs may rely on -/

section Contract
variable {ι : Type} (jobs : ι → Entrant) (source : Slot) (w : World)

/-- What holds between any two calls. -/
structure OneHolder (σ : Scene ι) : Prop where
  root : σ.world.fs.root = w.fs.root
  free : σ.holder = none → σ.world.fs.entry source = w.fs.entry source ∧
    NoneDone jobs σ.world
  gone : ∀ i, σ.holder = some i → σ.world.fs.entry source = none ∧
    ∃ p object, placesOf w.fs.root (jobs i).id (jobs i).request = some p ∧
      w.fs.entry source = some object ∧
      (σ.world.fs.entry p.staged = some object ∨ σ.world.fs.entry p.final = some object)

/-- What a call of another run leaves to run `i`. -/
structure Beside (i : ι) (σ σ' : Scene ι) : Prop where
  mine : σ.holder = some i → σ'.world.fs = σ.world.fs
  taken : σ.holder ≠ none → σ'.holder = σ.holder
  free : σ.holder = none → σ'.holder ≠ some i ∧ (σ'.holder = none →
    ∀ slot object, σ.world.fs.entry slot = some object →
      σ'.world.fs.entry slot = some object)

variable {jobs source w} {i : ι} {σ σ' σ'' : Scene ι}

theorem Beside.refl (σ : Scene ι) : Beside i σ σ := by
  refine ⟨fun _ => rfl, fun _ => rfl, fun h => ⟨?_, fun _ _ _ h => h⟩⟩
  rw [h]
  nofun

theorem Beside.trans (h : Beside i σ σ') (h' : Beside i σ' σ'') : Beside i σ σ'' := by
  refine ⟨?_, ?_, ?_⟩
  · intro hmine
    have hkept : σ'.holder = some i := by
      rw [h.taken (by rw [hmine]; nofun), hmine]
    exact (h'.mine hkept).trans (h.mine hmine)
  · intro htaken
    have hkept := h.taken htaken
    rw [h'.taken (by rw [hkept]; exact htaken), hkept]
  · intro hfree
    obtain ⟨hnot, hentries⟩ := h.free hfree
    by_cases hstill : σ'.holder = none
    · obtain ⟨hnot', hentries'⟩ := h'.free hstill
      exact ⟨hnot', fun hnone slot object hslot =>
        hentries' hnone slot object (hentries hstill slot object hslot)⟩
    · have hkept := h'.taken hstill
      rw [hkept]
      exact ⟨hnot, fun hnone => absurd hnone hstill⟩

variable (jobs source w i) in
def contestContract : Contract Call Fault (Scene ι) where
  rely := Beside i
  rely_refl := Beside.refl
  rely_trans := Beside.trans
  assume _ _ σ := OneHolder jobs source w σ
  guarantee _ _ σ σ' := OneHolder jobs source w σ' ∧ ∀ j, j ≠ i → Beside j σ σ'

end Contract

/-! ## Calls that change no name -/

section Rules
variable {ι : Type} {jobs : ι → Entrant} {source : Slot} {w : World} {i : ι} {σ : Scene ι}
  {α : Type}

theorem scene_still {c : Call} (still : c.op.movesNames = false) (fault : Option Fault)
    (σ : Scene ι) :
    ((sceneMachine i).perform c fault σ).2 = ⟨(perform c.op fault σ.world).2, σ.holder⟩ := by
  have htakes : ∀ reply : Reply c, takesSource c reply = false := by
    intro reply
    obtain ⟨site, op⟩ := c
    cases op with
    | renameat2 | unlinkat => cases still
    | _ => rfl
  simp only [sceneMachine, htakes, Bool.false_eq_true, if_false]

/-- Such a call concerns nobody. -/
theorem OneHolder.still {c : Call} (h : OneHolder jobs source w σ)
    (still : c.op.movesNames = false) (fault : Option Fault)
    (modest : σ.holder = none → Avoids .done c) :
    OneHolder jobs source w ⟨(perform c.op fault σ.world).2, σ.holder⟩ ∧
      ∀ j, Beside j σ ⟨(perform c.op fault σ.world).2, σ.holder⟩ := by
  have hfs := perform_fs still fault σ.world
  constructor
  · refine ⟨?_, ?_, ?_⟩
    · rw [hfs]
      exact h.root
    · intro hnone
      obtain ⟨hentry, hdone⟩ := h.free hnone
      rw [hfs]
      exact ⟨hentry, fun j => (modest hnone).call fault (hdone j)⟩
    · intro j hj
      rw [hfs]
      exact h.gone j hj
  · intro j
    refine ⟨fun _ => hfs, fun _ => rfl, fun hnone => ⟨?_, ?_⟩⟩
    · rw [hnone]
      nofun
    · intro _ slot object hslot
      rw [hfs]
      exact hslot

/-- One call that changes no name; `P` says nothing of the table. -/
theorem contest_call {c : Call} {next : Reply c → Prog α} {post : α → Scene ι → Prop}
    {P : Scene ι → Prop} (still : c.op.movesNames = false)
    (stable : ∀ {σ σ'}, Beside i σ σ' → P σ → P σ')
    (blind : ∀ {σ : Scene ι} {w'}, w'.fs = σ.world.fs → P σ → P ⟨w', σ.holder⟩)
    (modest : ∀ {σ}, P σ → σ.holder = none → Avoids .done c) (start : P σ)
    (rest : ∀ fault σ₁, OneHolder jobs source w σ₁ → P σ₁ →
      P ⟨(perform c.op fault σ₁.world).2, σ₁.holder⟩ →
      (next (perform c.op fault σ₁.world).1).Safe (sceneMachine i)
        (contestContract jobs source w i) post ⟨(perform c.op fault σ₁.world).2, σ₁.holder⟩) :
    (Program.call c next).Safe (sceneMachine i) (contestContract jobs source w i) post σ := by
  intro σ₁ rely fault ordered
  have hp : P σ₁ := stable rely start
  obtain ⟨hordered, hbeside⟩ := ordered.still still fault (modest hp)
  rw [scene_still still]
  refine ⟨⟨hordered, fun j _ => hbeside j⟩, ?_⟩
  exact rest fault σ₁ ordered hp (blind (perform_fs still fault σ₁.world) hp)

/-- A stretch of such calls. -/
theorem contest_still {program : Prog α} {Q : α → Prop} {P : Scene ι → Prop}
    {allowed : Call → Prop} (uses : program.Uses allowed) (returns : program.Returns Q)
    (still : ∀ c, allowed c → c.op.movesNames = false)
    (stable : ∀ {σ σ'}, Beside i σ σ' → P σ → P σ')
    (blind : ∀ {σ : Scene ι} {w'}, w'.fs = σ.world.fs → P σ → P ⟨w', σ.holder⟩)
    (modest : ∀ c, allowed c → ∀ {σ}, P σ → σ.holder = none → Avoids .done c) (start : P σ) :
    program.Safe (sceneMachine i) (contestContract jobs source w i)
      (fun value σ' => Q value ∧ P σ') σ := by
  refine Program.Safe.of_uses uses returns stable ?_ start
  intro c hallowed fault σ₁ ordered hp
  have hstill := still c hallowed
  obtain ⟨hordered, hbeside⟩ := OneHolder.still ordered hstill fault (modest c hallowed hp)
  rw [scene_still hstill]
  exact ⟨⟨hordered, fun j _ => hbeside j⟩, blind (perform_fs hstill fault σ₁.world) hp⟩

/-! ## Before the commit -/

/-- Run `i` has not taken the source, and a job that it has read as DONE was recorded so by
the one that has. -/
def Outside (i : ι) (state : JobState) (σ : Scene ι) : Prop :=
  σ.holder ≠ some i ∧ (state = .done → σ.holder ≠ none)

theorem Outside.stable {state : JobState} {σ σ' : Scene ι} (rely : Beside i σ σ')
    (h : Outside i state σ) : Outside i state σ' := by
  by_cases hnone : σ.holder = none
  · exact ⟨(rely.free hnone).1, fun hdone => absurd hnone (h.2 hdone)⟩
  · rw [Outside, rely.taken hnone]
    exact h

theorem Outside.blind {state : JobState} {σ : Scene ι} {w' : World}
    (_ : w'.fs = σ.world.fs) (h : Outside i state σ) : Outside i state ⟨w', σ.holder⟩ := h

theorem contest_load {site : Site} (outside : Outside i .queued σ) :
    (load site (jobs i).id).Safe (sceneMachine i) (contestContract jobs source w i)
      (fun loaded σ' => ∀ job, loaded = .ok (some job) → Outside i job.state σ') σ := by
  refine contest_call rfl Outside.stable Outside.blind (fun _ _ => trivial) outside ?_
  intro fault σ₁ ordered h₁ _
  rcases perform_selectJob (jobs i).id fault σ₁.world with ⟨e, hreply⟩ | hreply
  · rw [hreply]
    intro σ₂ _ job hjob
    cases hjob
  · rw [hreply]
    intro σ₂ rely job hjob
    refine Outside.stable rely ⟨h₁.1, fun hdone hnone => ?_⟩
    apply (ordered.free hnone).2 i
    rw [← hdone]
    exact Database.state_of_row (Except.ok.inj hjob)

/-- Opening a root changes nothing, and directories stay what they are. -/
theorem contest_openRoot {site : Site} {path : Bytes} {state : JobState}
    (outside : Outside i state σ) :
    (openRoot site path).Safe (sceneMachine i) (contestContract jobs source w i)
      (fun result σ' => (∀ dir, result = .ok dir → w.fs.root (cstr path) = some dir) ∧
        Outside i state σ') σ := by
  refine contest_call rfl Outside.stable Outside.blind (fun _ _ => trivial) outside ?_
  intro fault σ₁ ordered h₁ h₂
  cases hreply : (perform (.openRoot path) fault σ₁.world).1 with
  | error e => exact fun σ₂ rely => ⟨nofun, h₂.stable rely⟩
  | ok dir =>
      intro σ₂ rely
      refine ⟨?_, h₂.stable rely⟩
      rintro _ ⟨rfl⟩
      rw [← ordered.root]
      exact perform_openRoot_ok hreply

/-- Whoever finds something under the source name comes before the holder. -/
theorem contest_sourceProbe {site : Site} {dir : Dir} {name : Bytes} {state : JobState}
    (hsource : ⟨dir, name⟩ = source) (outside : Outside i state σ) :
    (classify site dir name).Safe (sceneMachine i) (contestContract jobs source w i)
      (fun result σ' =>
        (∀ identity, result = .ok identity → identity.kind ≠ .missing → state ≠ .done) ∧
          Outside i state σ') σ := by
  cases hplain : isPlainName name with
  | false =>
      rw [classify_bad hplain]
      exact fun σ₁ rely => ⟨nofun, outside.stable rely⟩
  | true =>
    rw [classify_plain hplain]
    refine contest_call rfl Outside.stable Outside.blind (fun _ _ => trivial) outside ?_
    intro fault σ₁ ordered h₁ h₂ σ₂ rely
    refine ⟨?_, h₂.stable rely⟩
    intro identity hidentity hkind hdone
    rcases perform_fstatat ⟨dir, name⟩ fault σ₁.world with
      ⟨e, he, _, hreply⟩ | ⟨_, hreply⟩ | ⟨object, hthere, _⟩
    · simp [hreply, identify, he] at hidentity
    · simp only [hreply, identify, if_true, Except.ok.injEq] at hidentity
      subst hidentity
      exact hkind rfl
    · obtain ⟨j, hj⟩ := Option.ne_none_iff_exists'.mp (h₁.2 hdone)
      rw [hsource, (ordered.gone j hj).1] at hthere
      cases hthere

theorem contest_looks {program : Prog α} {state : JobState}
    (uses : program.Uses fun c => c.op.readOnly = true) (outside : Outside i state σ) :
    program.Safe (sceneMachine i) (contestContract jobs source w i)
      (fun _ σ' => Outside i state σ') σ := by
  exact (contest_still uses (Program.returns_true _) (fun _ h => movesNames_of_readOnly h)
    Outside.stable Outside.blind (fun c h _ _ _ => Avoids.of_readOnly h) outside).weaken
    fun _ _ h => h.2

/-- A run that is let through phase 1 has found its job unfinished and its file there. -/
def Admits (jobs : ι → Entrant) (w : World) (i : ι)
    (result : Except Bytes (Job × Dir × Dir × Bytes)) (σ : Scene ι) : Prop :=
  ∀ job sourceDir destDir error, result = .ok (job, sourceDir, destDir, error) →
    job.state ≠ .done ∧ w.fs.root (cstr (jobs i).request.sourceDir) = some sourceDir ∧
      w.fs.root (cstr (jobs i).request.destDir) = some destDir ∧ Outside i .queued σ

theorem contest_validate (names : NamesSource jobs source w) (outside : Outside i .queued σ) :
    (validate (jobs i).id (jobs i).request).Safe (sceneMachine i)
      (contestContract jobs source w i) (Admits jobs w i) σ := by
  have hrefused : ∀ message σ, (Program.pure (.error message) : Prog _).Safe (sceneMachine i)
      (contestContract jobs source w i) (Admits jobs w i) σ := by
    intro message σ σ' _ job sourceDir destDir error hok
    cases hok
  unfold validate
  split
  · exact hrefused _ _
  · exact hrefused _ _
  refine (contest_load outside).bind fun loaded σ₁ hloaded => ?_
  match loaded with
  | .error message => exact hrefused _ _
  | .ok none => exact hrefused _ _
  | .ok (some job) =>
    refine (contest_openRoot (hloaded job rfl)).bind ?_
    rintro opened σ₂ ⟨hopened, h₂⟩
    cases opened with
    | error message => exact hrefused _ _
    | ok sourceDir =>
    have hsourceDir := hopened sourceDir rfl
    refine (contest_openRoot h₂).bind ?_
    rintro opened σ₃ ⟨hopened, h₃⟩
    cases opened with
    | error message => exact hrefused _ _
    | ok destDir =>
    have hdestDir := hopened destDir rfl
    refine (contest_sourceProbe (names i sourceDir hsourceDir) h₃).bind ?_
    rintro probed σ₄ ⟨hprobed, h₄⟩
    cases probed with
    | error message => exact hrefused _ _
    | ok identity =>
    simp only
    split
    · exact hrefused _ _
    rename_i hthere
    split
    · exact hrefused _ _
    have hjob : job.state ≠ .done := hprobed identity rfl hthere
    refine (contest_looks (uses_openRegular fun _ _ h _ => h) h₄).bind fun opened σ₅ h₅ => ?_
    cases opened with
    | error message => exact hrefused _ _
    | ok _ =>
    refine (contest_looks (uses_classify rfl) h₅).bind fun probed σ₆ h₆ => ?_
    cases probed with
    | error message =>
        rintro σ₇ rely _ _ _ _ ⟨rfl⟩
        exact ⟨hjob, hsourceDir, hdestDir, (h₆.stable rely).1, nofun⟩
    | ok _ =>
        rintro σ₇ rely _ _ _ _ ⟨rfl⟩
        exact ⟨hjob, hsourceDir, hdestDir, (h₆.stable rely).1, nofun⟩

/-! ## The commit -/

/-- Run `i` is the holder, and the object is under its staging name. -/
structure Holding (i : ι) (staged : Slot) (object : Inode) (σ : Scene ι) : Prop where
  holder : σ.holder = some i
  staged : σ.world.fs.entry staged = some object

theorem Holding.stable {staged : Slot} {object : Inode} {σ σ' : Scene ι}
    (rely : Beside i σ σ') (h : Holding i staged object σ) : Holding i staged object σ' := by
  refine ⟨?_, ?_⟩
  · rw [rely.taken (by rw [h.holder]; nofun)]
    exact h.holder
  · rw [rely.mine h.holder]
    exact h.staged

/-- Something is under the source name only as long as nobody has taken it. -/
theorem OneHolder.holder_none {inode : Inode} (h : OneHolder jobs source w σ)
    (there : σ.world.fs.entry source = some inode) :
    σ.holder = none ∧ w.fs.entry source = some inode := by
  cases hholder : σ.holder with
  | none =>
      refine ⟨rfl, ?_⟩
      rw [← (h.free hholder).1]
      exact there
  | some j =>
      rw [(h.gone j hholder).1] at there
      cases there

/-- Run `i` takes the source away, with the object under its staging name. -/
theorem OneHolder.take {p : Places} {object : Inode} {fs : Filesystem}
    (h : OneHolder jobs source w σ) (free : σ.holder = none)
    (there : w.fs.entry source = some object)
    (placed : placesOf w.fs.root (jobs i).id (jobs i).request = some p)
    (root : fs.root = σ.world.fs.root) (gone : fs.entry source = none)
    (staged : fs.entry p.staged = some object) :
    OneHolder jobs source w ⟨{ σ.world with fs := fs }, some i⟩ ∧
      ∀ j, j ≠ i → Beside j σ ⟨{ σ.world with fs := fs }, some i⟩ := by
  constructor
  · refine ⟨root.trans h.root, nofun, ?_⟩
    rintro _ ⟨rfl⟩
    exact ⟨gone, p, object, placed, there, Or.inl staged⟩
  · intro j hj
    refine ⟨?_, fun hnot => absurd free hnot, fun _ => ⟨?_, nofun⟩⟩
    · intro hmine
      rw [free] at hmine
      cases hmine
    · exact fun heq => hj (Option.some.inj heq).symm

/-- Another name for the object takes nothing away. -/
theorem OneHolder.link {staged : Slot} (h : OneHolder jobs source w σ) (free : σ.holder = none)
    (apart : source ≠ staged) (none : σ.world.fs.entry staged = none) (object : Inode) :
    OneHolder jobs source w
        ⟨{ σ.world with fs := σ.world.fs.put staged object }, σ.holder⟩ ∧
      ∀ j, Beside j σ ⟨{ σ.world with fs := σ.world.fs.put staged object }, σ.holder⟩ := by
  constructor
  · refine ⟨h.root, fun _ => ⟨?_, (h.free free).2⟩, ?_⟩
    · rw [Filesystem.entry_put_ne apart]
      exact (h.free free).1
    · intro j hj
      rw [free] at hj
      cases hj
  · intro j
    refine ⟨?_, fun hnot => absurd free hnot, fun _ => ⟨?_, ?_⟩⟩
    · intro hmine
      rw [free] at hmine
      cases hmine
    · rw [free]
      nofun
    · -- the staging name was free, so nothing is overwritten
      intro _ slot found hslot
      have hne : slot ≠ staged := by
        rintro rfl
        rw [none] at hslot
        cases hslot
      rw [Filesystem.entry_put_ne hne]
      exact hslot

section Commit
variable {p : Places} {post : α → Scene ι → Prop} {next : Except Fault Unit → Prog α}
  (placed : placesOf w.fs.root (jobs i).id (jobs i).request = some p)
  (hsource : p.source = source)
  (failed : ∀ e σ', (next (.error e)).Safe (sceneMachine i)
    (contestContract jobs source w i) post σ')
  (moved : ∀ object σ', w.fs.entry source = some object → Holding i p.staged object σ' →
    (next (.ok ())).Safe (sceneMachine i) (contestContract jobs source w i) post σ')
include placed hsource failed moved

theorem contest_commitRename :
    (Program.call ⟨.commitRename, .renameat2 p.source p.staged⟩ next).Safe (sceneMachine i)
      (contestContract jobs source w i) post σ := by
  rw [hsource]
  intro σ₁ rely fault ordered
  rcases perform_cases (.renameat2 source p.staged) fault σ₁.world with ⟨e, _, heq⟩ | heq
  · simp only [sceneMachine, heq, takesSource]
    exact ⟨⟨ordered, fun j _ => Beside.refl σ₁⟩, failed e _⟩
  simp only [sceneMachine, heq, answer, World.onFs]
  cases hfs : σ₁.world.fs.renameNoReplace source p.staged with
  | error e =>
      simp only [takesSource]
      exact ⟨⟨ordered, fun j _ => Beside.refl σ₁⟩, failed e _⟩
  | ok fs' =>
      obtain ⟨object, hthere, hnone, rfl⟩ := Filesystem.renameNoReplace_ok hfs
      obtain ⟨hfree, hobject⟩ := ordered.holder_none hthere
      have hapart : source ≠ p.staged := by
        intro heq
        rw [← heq, hthere] at hnone
        cases hnone
      simp only [takesSource, if_true]
      constructor
      · refine ordered.take hfree hobject placed ?_ ?_ ?_
        · rfl
        · rw [Filesystem.entry_put_ne hapart, Filesystem.entry_drop_self]
        · exact Filesystem.entry_put_self
      · exact moved object _ hobject ⟨rfl, Filesystem.entry_put_self⟩

/-- Others may link the object as well; the `unlinkat` of one of them succeeds. -/
theorem contest_commitLink {linked : Except Fault Unit → Prog α}
    (refused : ∀ e σ', (linked (.error e)).Safe (sceneMachine i)
      (contestContract jobs source w i) post σ')
    (unlinks : linked (.ok ()) = .call ⟨.commitUnlink, .unlinkat p.source⟩ next) :
    (Program.call ⟨.commitLink, .linkat p.source p.staged⟩ linked).Safe (sceneMachine i)
      (contestContract jobs source w i) post σ := by
  rw [hsource] at unlinks ⊢
  intro σ₁ rely fault ordered
  rcases perform_cases (.linkat source p.staged) fault σ₁.world with ⟨e, _, heq⟩ | heq
  · simp only [sceneMachine, heq, takesSource]
    exact ⟨⟨ordered, fun j _ => Beside.refl σ₁⟩, refused e _⟩
  simp only [sceneMachine, heq, answer, World.onFs]
  cases hfs : σ₁.world.fs.link source p.staged with
  | error e =>
      simp only [takesSource]
      exact ⟨⟨ordered, fun j _ => Beside.refl σ₁⟩, refused e _⟩
  | ok fs' =>
      obtain ⟨object, hthere, hnone, rfl⟩ := Filesystem.link_ok hfs
      obtain ⟨hfree, hobject⟩ := ordered.holder_none hthere
      have hapart : source ≠ p.staged := by
        intro heq
        rw [← heq, hthere] at hnone
        cases hnone
      simp only [takesSource, Bool.false_eq_true, if_false, unlinks]
      constructor
      · obtain ⟨hordered, hbeside⟩ := ordered.link hfree hapart hnone object
        exact ⟨hordered, fun j _ => hbeside j⟩
      intro σ₂ rely₂ fault₂ ordered₂
      rcases perform_cases (.unlinkat source) fault₂ σ₂.world with ⟨e, _, heq₂⟩ | heq₂
      · simp only [heq₂]
        exact ⟨⟨ordered₂, fun j _ => Beside.refl σ₂⟩, failed e _⟩
      simp only [heq₂, answer, World.onFs]
      cases hfs₂ : σ₂.world.fs.unlink source with
      | error e =>
          exact ⟨⟨ordered₂, fun j _ => Beside.refl σ₂⟩, failed e _⟩
      | ok fs'' =>
          obtain ⟨found, hfound, rfl⟩ := Filesystem.unlink_ok hfs₂
          obtain ⟨hfree₂, _⟩ := ordered₂.holder_none hfound
          have hstaged : σ₂.world.fs.entry p.staged = some object :=
            (rely₂.free hfree).2 hfree₂ _ _ Filesystem.entry_put_self
          simp only [if_true]
          constructor
          · refine ordered₂.take hfree₂ hobject placed ?_ ?_ ?_
            · rfl
            · exact Filesystem.entry_drop_self
            · rw [Filesystem.entry_drop_ne hapart.symm]
              exact hstaged
          · refine moved object _ hobject ⟨rfl, ?_⟩
            rw [Filesystem.entry_drop_ne hapart.symm]
            exact hstaged

end Commit

theorem contest_moveWithin {sourceDir destDir : Dir} {strategy : MoveStrategy}
    (names : NamesSource jobs source w)
    (hsource : w.fs.root (cstr (jobs i).request.sourceDir) = some sourceDir)
    (hdest : w.fs.root (cstr (jobs i).request.destDir) = some destDir) :
    (moveWithin sourceDir (jobs i).request.sourceName destDir (stagingName (jobs i).id)
      strategy).Safe (sceneMachine i) (contestContract jobs source w i)
      (fun result σ' => result = .ok () → ∃ object, w.fs.entry source = some object ∧
        Holding i ⟨destDir, stagingName (jobs i).id⟩ object σ') σ := by
  have hplaced : placesOf w.fs.root (jobs i).id (jobs i).request =
      some ⟨⟨sourceDir, (jobs i).request.sourceName⟩, ⟨destDir, stagingName (jobs i).id⟩,
        ⟨destDir, (jobs i).request.destName⟩⟩ := by
    rw [placesOf, hsource, hdest]
  have hfailed : ∀ message σ, (Program.pure (.error message) :
      Prog (Except Bytes Unit)).Safe (sceneMachine i) (contestContract jobs source w i)
      (fun result σ' => result = .ok () → ∃ object, w.fs.entry source = some object ∧
        Holding i ⟨destDir, stagingName (jobs i).id⟩ object σ') σ := by
    intro message σ σ' _ hok
    cases hok
  have hmoved : ∀ object σ, w.fs.entry source = some object →
      Holding i ⟨destDir, stagingName (jobs i).id⟩ object σ → (Program.pure (.ok ()) :
        Prog (Except Bytes Unit)).Safe (sceneMachine i) (contestContract jobs source w i)
      (fun result σ' => result = .ok () → ∃ object, w.fs.entry source = some object ∧
        Holding i ⟨destDir, stagingName (jobs i).id⟩ object σ') σ :=
    fun object σ hobject holding σ' rely _ => ⟨object, hobject, holding.stable rely⟩
  unfold moveWithin
  by_cases hfrom : isPlainName (jobs i).request.sourceName = false
  · rw [rejectBadName_bad hfrom]
    exact hfailed _ _
  by_cases hto : isPlainName (stagingName (jobs i).id) = false
  · rw [rejectBadName_plain (by simpa using hfrom), rejectBadName_bad hto]
    exact hfailed _ _
  rw [rejectBadName_plain (by simpa using hfrom), rejectBadName_plain (by simpa using hto)]
  cases strategy with
  | renameNoReplace =>
      exact contest_commitRename hplaced (names i sourceDir hsource)
        (fun e σ' => hfailed _ σ') hmoved
  | linkThenUnlink =>
      exact contest_commitLink hplaced (names i sourceDir hsource)
        (fun e σ' => hfailed _ σ') hmoved (fun e σ' => hfailed _ σ') rfl

/-! ## After the commit -/

theorem Holding.blind {staged : Slot} {object : Inode} {σ : Scene ι} {w' : World}
    (same : w'.fs = σ.world.fs) (h : Holding i staged object σ) :
    Holding i staged object ⟨w', σ.holder⟩ := by
  refine ⟨h.holder, ?_⟩
  rw [same]
  exact h.staged

/-- Run `i` is the holder. -/
def Holds (i : ι) (σ : Scene ι) : Prop := σ.holder = some i

theorem Holds.stable {σ σ' : Scene ι} (rely : Beside i σ σ') (h : Holds i σ) : Holds i σ' := by
  rw [Holds, rely.taken (by rw [show σ.holder = some i from h]; nofun)]
  exact h

/-- The holder may record what it likes. -/
theorem contest_holder {program : Prog α} {P : Scene ι → Prop}
    (uses : program.Uses fun c => c.op.movesNames = false)
    (stable : ∀ {σ σ'}, Beside i σ σ' → P σ → P σ')
    (blind : ∀ {σ : Scene ι} {w'}, w'.fs = σ.world.fs → P σ → P ⟨w', σ.holder⟩)
    (holds : ∀ {σ}, P σ → σ.holder = some i) (start : P σ) :
    program.Safe (sceneMachine i) (contestContract jobs source w i) (fun _ σ' => P σ') σ := by
  refine (contest_still uses (Program.returns_true _) (fun _ h => h) stable blind ?_
    start).weaken fun _ _ h => h.2
  intro c _ σ hp hnone
  rw [holds hp] at hnone
  cases hnone

section Finishing
variable {p : Places} {object : Inode} {tick : Int} {error : Bytes}
  (elsewhere : DeliversElsewhere jobs source w)
  (there : w.fs.entry source = some object)

/-- Publishing gives the object its final name before it loses the staging name. -/
theorem OneHolder.publish {fs : Filesystem} (h : OneHolder jobs source w σ)
    (placed : placesOf w.fs.root (jobs i).id (jobs i).request = some p)
    (apart : source ≠ p.final) (there : w.fs.entry source = some object)
    (holding : Holding i p.staged object σ)
    (renamed : σ.world.fs.rename p.staged p.final = .ok fs) :
    OneHolder jobs source w ⟨{ σ.world with fs := fs }, σ.holder⟩ ∧
      ∀ j, j ≠ i → Beside j σ ⟨{ σ.world with fs := fs }, σ.holder⟩ := by
  obtain ⟨found, hfound, hcases⟩ := Filesystem.rename_ok renamed
  rw [holding.staged] at hfound
  cases hfound
  have hgone := (h.gone i holding.holder).1
  have hroot : fs.root = w.fs.root := by
    rcases hcases with ⟨_, rfl⟩ | ⟨_, rfl⟩
    · exact h.root
    · exact h.root
  have hsource : fs.entry source = none := by
    rcases hcases with ⟨_, rfl⟩ | ⟨_, rfl⟩
    · exact hgone
    · rw [Filesystem.entry_put_ne apart]
      by_cases hstaged : source = p.staged
      · rw [hstaged, Filesystem.entry_drop_self]
      · rw [Filesystem.entry_drop_ne hstaged]
        exact hgone
  have hfinal : fs.entry p.final = some object := by
    rcases hcases with ⟨hsame, rfl⟩ | ⟨_, rfl⟩
    · exact hsame
    · exact Filesystem.entry_put_self
  have hnot : σ.holder ≠ none := by
    rw [holding.holder]
    nofun
  constructor
  · refine ⟨hroot, fun hnone => absurd hnone hnot, fun j hj => ?_⟩
    rw [holding.holder] at hj
    cases hj
    exact ⟨hsource, p, object, placed, there, Or.inr hfinal⟩
  · intro j hj
    refine ⟨fun hmine => ?_, fun _ => rfl, fun hnone => absurd hnone hnot⟩
    rw [holding.holder] at hmine
    exact absurd (Option.some.inj hmine).symm hj

include elsewhere there

theorem contest_publish {destDir : Dir} {sourceDir : Dir}
    (hsource : w.fs.root (cstr (jobs i).request.sourceDir) = some sourceDir)
    (hdest : w.fs.root (cstr (jobs i).request.destDir) = some destDir)
    (holding : Holding i ⟨destDir, stagingName (jobs i).id⟩ object σ) :
    (publish destDir (stagingName (jobs i).id) (jobs i).request.destName).Safe (sceneMachine i)
      (contestContract jobs source w i) (fun _ σ' => Holds i σ') σ := by
  have hplaced : placesOf w.fs.root (jobs i).id (jobs i).request =
      some ⟨⟨sourceDir, (jobs i).request.sourceName⟩, ⟨destDir, stagingName (jobs i).id⟩,
        ⟨destDir, (jobs i).request.destName⟩⟩ := by
    rw [placesOf, hsource, hdest]
  have hmodest : ∀ c, ∀ {σ : Scene ι}, Holding i ⟨destDir, stagingName (jobs i).id⟩ object σ →
      σ.holder = none → Avoids .done c := by
    intro c σ holding hnone
    rw [holding.holder] at hnone
    cases hnone
  have hend : ∀ result σ, Holds i σ → (Program.pure result : Prog (Except Bytes Unit)).Safe
      (sceneMachine i) (contestContract jobs source w i) (fun _ σ' => Holds i σ') σ :=
    fun _ _ holds _ rely => holds.stable rely
  unfold publish
  by_cases htemp : isPlainName (stagingName (jobs i).id) = false
  · rw [rejectBadName_bad htemp]
    exact hend _ _ holding.holder
  by_cases hfinal : isPlainName (jobs i).request.destName = false
  · rw [rejectBadName_plain (by simpa using htemp), rejectBadName_bad hfinal]
    exact hend _ _ holding.holder
  rw [rejectBadName_plain (by simpa using htemp), rejectBadName_plain (by simpa using hfinal)]
  refine contest_call rfl Holding.stable Holding.blind (hmodest _) holding ?_
  intro fault σ₁ _ _ h₁
  cases (perform (.openat ⟨destDir, stagingName (jobs i).id⟩) fault σ₁.world).1 with
  | error e => exact hend _ _ h₁.holder
  | ok fd =>
  refine contest_call rfl Holding.stable Holding.blind (hmodest _) h₁ ?_
  intro fault₂ σ₂ _ _ h₂
  cases (perform (.fsync fd) fault₂ σ₂.world).1 with
  | error e => exact hend _ _ h₂.holder
  | ok _ =>
  intro σ₃ rely fault₃ ordered
  have h₃ := h₂.stable rely
  rcases perform_cases (.renameat ⟨destDir, stagingName (jobs i).id⟩
      ⟨destDir, (jobs i).request.destName⟩) fault₃ σ₃.world with ⟨e, _, heq⟩ | heq
  · simp only [sceneMachine, heq, takesSource]
    exact ⟨⟨ordered, fun j _ => Beside.refl σ₃⟩, hend _ _ h₃.holder⟩
  simp only [sceneMachine, heq, answer, World.onFs]
  cases hfs : σ₃.world.fs.rename ⟨destDir, stagingName (jobs i).id⟩
      ⟨destDir, (jobs i).request.destName⟩ with
  | error e =>
      simp only [takesSource]
      exact ⟨⟨ordered, fun j _ => Beside.refl σ₃⟩, hend _ _ h₃.holder⟩
  | ok fs' =>
      simp only [takesSource]
      refine ⟨ordered.publish hplaced (elsewhere i destDir hdest).symm there h₃ hfs, ?_⟩
      refine contest_call rfl Holds.stable (fun _ h => h) ?_ h₃.holder ?_
      · exact fun _ _ => trivial
      · intro fault₄ σ₄ _ _ h₄
        cases (perform (.fsyncDir destDir) fault₄ σ₄.world).1 with
        | error e => exact hend _ _ h₄
        | ok _ => exact hend _ _ h₄

theorem contest_publishAndRecord {sourceDir destDir : Dir}
    (hsource : w.fs.root (cstr (jobs i).request.sourceDir) = some sourceDir)
    (hdest : w.fs.root (cstr (jobs i).request.destDir) = some destDir)
    (holding : Holding i ⟨destDir, stagingName (jobs i).id⟩ object σ) :
    (publishAndRecord (jobs i).id (jobs i).request destDir tick error).Safe (sceneMachine i)
      (contestContract jobs source w i) (fun _ σ' => Holds i σ') σ := by
  have hhalt : ∀ outcome error σ, Holds i σ → (haltWith (jobs i).id outcome error).Safe
      (sceneMachine i) (contestContract jobs source w i) (fun _ σ' => Holds i σ') σ :=
    fun outcome error σ holds => contest_holder (uses_haltWith fun _ => rfl) Holds.stable
      (fun _ h => h) (fun h => h) holds
  have hdone : ∀ σ, Holds i σ → (recordDone (jobs i).id tick error).Safe
      (sceneMachine i) (contestContract jobs source w i) (fun _ σ' => Holds i σ') σ :=
    fun σ holds => contest_holder (uses_recordDone (fun _ => rfl)
      (fun _ _ h _ => movesNames_of_readOnly h) (fun _ _ _ _ _ => rfl)) Holds.stable
      (fun _ h => h) (fun h => h) holds
  refine (contest_holder (uses_sawEntry rfl) Holding.stable Holding.blind Holding.holder
    holding).bind fun sawStaged σ₁ h₁ => ?_
  refine (contest_holder (uses_sawEntry rfl) Holding.stable Holding.blind Holding.holder
    h₁).bind fun sawFinal σ₂ h₂ => ?_
  cases sawStaged with
  | true =>
      refine (contest_publish elsewhere there hsource hdest h₂).bind fun result σ₃ h₃ => ?_
      cases result with
      | error message => exact hhalt _ _ _ h₃
      | ok _ => exact hdone _ h₃
  | false =>
      cases sawFinal with
      | true => exact hdone _ h₂.holder
      | false => exact hhalt _ _ _ h₂.holder

theorem contest_finishAfterCommit {sourceDir destDir : Dir}
    (hsource : w.fs.root (cstr (jobs i).request.sourceDir) = some sourceDir)
    (hdest : w.fs.root (cstr (jobs i).request.destDir) = some destDir)
    (holding : Holding i ⟨destDir, stagingName (jobs i).id⟩ object σ) :
    (finishAfterCommit (jobs i).id (jobs i).request destDir tick error).Safe (sceneMachine i)
      (contestContract jobs source w i) (fun _ σ' => Holds i σ') σ := by
  have hend : ∀ result σ, Holding i ⟨destDir, stagingName (jobs i).id⟩ object σ →
      (Program.pure result : Prog MoveResult).Safe (sceneMachine i)
        (contestContract jobs source w i) (fun _ σ' => Holds i σ') σ :=
    fun _ _ holding _ rely => (holding.stable rely).holder
  refine (contest_holder (uses_load rfl) Holding.stable Holding.blind Holding.holder
    holding).bind fun loaded σ₁ h₁ => ?_
  match loaded with
  | .error message => exact hend _ _ h₁
  | .ok none => exact hend _ _ h₁
  | .ok (some job) =>
    simp only
    split
    · exact hend _ _ h₁
    split
    · exact hend _ _ h₁
    split
    · refine (contest_holder (uses_recordTransition rfl fun _ _ _ => rfl) Holding.stable
        Holding.blind Holding.holder h₁).bind fun result σ₂ h₂ => ?_
      cases result with
      | error failure =>
          exact contest_holder (uses_haltWith fun _ => rfl) Holds.stable (fun _ h => h)
            (fun h => h) h₂.holder
      | ok _ => exact contest_publishAndRecord elsewhere there hsource hdest h₂
    · exact contest_publishAndRecord elsewhere there hsource hdest h₁

end Finishing

/-! ## One run -/

/-- A run that reports success is the holder. -/
abbrev SucceedsAsHolder (i : ι) (result : MoveResult) (σ : Scene ι) : Prop :=
  result.1 = .completed → Holds i σ

section Run
variable (names : NamesSource jobs source w) (elsewhere : DeliversElsewhere jobs source w)
include names elsewhere

theorem contest_commitAndFinish {sourceDir destDir : Dir} {strategy : MoveStrategy} {tick : Int}
    {error : Bytes} (hsource : w.fs.root (cstr (jobs i).request.sourceDir) = some sourceDir)
    (hdest : w.fs.root (cstr (jobs i).request.destDir) = some destDir) :
    (commitAndFinish (jobs i).id (jobs i).request strategy sourceDir destDir tick error).Safe
      (sceneMachine i) (contestContract jobs source w i) (SucceedsAsHolder i) σ := by
  refine (contest_moveWithin names hsource hdest).bind fun result σ₁ h₁ => ?_
  cases result with
  | error message => exact fun σ₂ _ => nofun
  | ok _ =>
      obtain ⟨object, there, holding⟩ := h₁ rfl
      exact (contest_finishAfterCommit elsewhere there hsource hdest holding).weaken
        fun _ _ holds _ => holds

theorem contest_execute (outside : Outside i .queued σ) :
    (execute (jobs i).id (jobs i).request (jobs i).strategy).Safe (sceneMachine i)
      (contestContract jobs source w i) (SucceedsAsHolder i) σ := by
  refine (contest_validate names outside).bind fun result σ₁ h₁ => ?_
  match result with
  | .error message => exact fun σ₂ _ => nofun
  | .ok (job, sourceDir, destDir, error) =>
    obtain ⟨hjob, hsource, hdest, houtside⟩ := h₁ _ _ _ _ rfl
    simp only
    split
    · rename_i hdone
      exact absurd hdone hjob
    split
    · exact fun σ₂ _ => nofun
    split
    · have huses : (recordTransition (jobs i).id .renaming (nextTick job.updatedAtMs) []
          .beforeCommitPoint).Uses fun c => c.op.movesNames = false ∧ Avoids .done c := by
        refine uses_recordTransition ⟨rfl, trivial⟩ fun before after htrans => ⟨rfl, ?_⟩
        simp only [Avoids, Job.transition_state htrans]
        decide
      refine (contest_still huses (Program.returns_true _) (fun _ h => h.1) Outside.stable
        Outside.blind (fun _ h _ _ _ => h.2) houtside).bind fun result σ₂ h₂ => ?_
      cases result with
      | error failure => exact fun σ₃ _ => nofun
      | ok _ => exact contest_commitAndFinish names elsewhere hsource hdest
    · exact contest_commitAndFinish names elsewhere hsource hdest

end Run

end Rules

/-! ## All the runs -/

section Runs
variable {ι : Type} [DecidableEq ι] {jobs : ι → Entrant} {source : Slot} {w : World}

/-- What holds in every state that the runs can reach together. -/
structure ContestInv (jobs : ι → Entrant) (source : Slot) (w : World) (s : Contest ι) :
    Prop where
  ordered : OneHolder jobs source w s.scene
  safe : ∀ i, (s.runs i).Safe (sceneMachine i) (contestContract jobs source w i)
    (SucceedsAsHolder i) s.scene

theorem ContestInv.step {s s' : Contest ι} {label : ι × Option Fault}
    (h : ContestInv jobs source w s) (act : s.act label = some s') :
    ContestInv jobs source w s' := by
  obtain ⟨i, fault⟩ := label
  simp only [Contest.act] at act
  have hsafe := h.safe i
  cases hrun : s.runs i with
  | pure result =>
      rw [hrun] at act
      cases act
  | call c next =>
      rw [hrun] at act hsafe
      cases act
      obtain ⟨⟨hordered, hbeside⟩, hnext⟩ := hsafe _ (Beside.refl _) fault h.ordered
      refine ⟨hordered, fun j => ?_⟩
      by_cases hj : j = i
      · subst hj
        simp only [Function.update_self]
        exact hnext
      · simp only [Function.update_of_ne hj]
        exact (h.safe j).interfere (hbeside j hj)

omit [DecidableEq ι] in
theorem contestInv_start (names : NamesSource jobs source w)
    (elsewhere : DeliversElsewhere jobs source w) (undone : NoneDone jobs w) :
    ContestInv jobs source w (Contest.start jobs w) := by
  refine ⟨⟨rfl, fun _ => ⟨rfl, undone⟩, nofun⟩, fun i => ?_⟩
  exact contest_execute names elsewhere ⟨nofun, nofun⟩

omit [DecidableEq ι] in
theorem ContestInv.holder {s : Contest ι} {i : ι} (h : ContestInv jobs source w s)
    (completed : s.outcome i = some .completed) : s.scene.holder = some i := by
  have hsafe := h.safe i
  unfold Contest.outcome at completed
  split at completed
  · rename_i result hrun
    rw [hrun] at hsafe
    exact hsafe.result (Option.some.inj completed)
  · cases completed

end Runs

/-- However the runs are interleaved and whatever fails, at most one of the jobs that name
one source entry is reported delivered, and the object keeps a name: provided that none of
them wants it delivered under the source name itself, and none is recorded DONE to begin
with. -/
theorem one_job_delivers {ι : Type} [DecidableEq ι] (jobs : ι → Entrant) (source : Slot)
    (w : World) (names : NamesSource jobs source w)
    (elsewhere : DeliversElsewhere jobs source w) (undone : NoneDone jobs w) (s : Contest ι)
    (reach : GuardedReach Contest.act (fun _ _ => True) (Contest.start jobs w) s) :
    OneDelivers jobs source w s := by
  have hinv : ContestInv jobs source w s :=
    reach.invariant (ContestInv jobs source w) (fun _ act h => h.step act)
      (contestInv_start names elsewhere undone)
  constructor
  · intro i j hi hj
    have hholder := hinv.holder hi
    rw [hinv.holder hj] at hholder
    exact (Option.some.inj hholder).symm
  · intro object hobject
    cases hholder : s.scene.holder with
    | none =>
        refine Or.inl ?_
        rw [(hinv.ordered.free hholder).1]
        exact hobject
    | some i =>
        obtain ⟨_, p, found, hplaced, hfound, hnamed⟩ := hinv.ordered.gone i hholder
        rw [hobject] at hfound
        cases hfound
        exact Or.inr ⟨i, p, hplaced, hnamed⟩

/-! ## Two jobs -/

def rivalRow (state : JobState) : Row where
  job := { Job.new (lit "k") (lit "/s/a") (lit "/d/c") 0 with
    state := state
    error := if state = .failed then lit "cancelled by operator" else [] }
  needsAttention := false
  attentionReason := []
  attempts := 0
  nextRetryMs := 0
  lastError := []
  retryOf := []
  check := by cases state <;> decide

/-- The small world with a second job for the same file. -/
def rivalWorld (state : JobState) : World :=
  { sampleWorld state [sampleSource] with
    db := Database.setRow (sampleWorld state [sampleSource]).db (lit "k") (rivalRow state) }

/-- Job `j` with the given request, and job `k`, which wants the file as `/d/c`. -/
def rivals (first : MoveRequest) (strategy : MoveStrategy) : Bool → Entrant
  | false => ⟨lit "j", first, strategy⟩
  | true => ⟨lit "k", ⟨lit "/s", lit "a", lit "/d", lit "c"⟩, strategy⟩

theorem rivals_names (state : JobState) (strategy : MoveStrategy) (dest name : Bytes) :
    NamesSource (rivals ⟨lit "/s", lit "a", dest, name⟩ strategy) ⟨1, lit "a"⟩
      (rivalWorld state) := by
  have hroot : (rivalWorld state).fs.root (cstr (lit "/s")) = some 1 := rfl
  intro i dir h
  cases i with
  | false =>
      cases hroot.symm.trans h
      rfl
  | true =>
      cases hroot.symm.trans h
      rfl

theorem rivals_elsewhere (state : JobState) (strategy : MoveStrategy) :
    DeliversElsewhere (rivals sampleRequest strategy) ⟨1, lit "a"⟩ (rivalWorld state) := by
  have hroot : (rivalWorld state).fs.root (cstr (lit "/d")) = some 2 := rfl
  intro i dir h
  cases i with
  | false =>
      cases hroot.symm.trans h
      nofun
  | true =>
      cases hroot.symm.trans h
      nofun

/-- Both jobs link the file, then `k` unlinks it; the `unlinkat` of `j` comes too late. -/
def sampleContest : List (Bool × Option Fault) :=
  List.replicate 10 (false, none) ++ List.replicate 11 (true, none) ++ [(false, none)] ++
    List.replicate 11 (true, none)

theorem one_job_delivers_sample :
    ∃ s, replay Contest.act sampleContest
        (Contest.start (rivals sampleRequest .linkThenUnlink) (rivalWorld .queued)) = some s ∧
      s.outcome false = some .abortedBeforeCommit ∧ s.outcome true = some .completed ∧
      OneDelivers (rivals sampleRequest .linkThenUnlink) ⟨1, lit "a"⟩ (rivalWorld .queued) s := by
  obtain ⟨s, hs⟩ := Option.isSome_iff_exists.mp (by decide : (replay Contest.act sampleContest
    (Contest.start (rivals sampleRequest .linkThenUnlink) (rivalWorld .queued))).isSome = true)
  have houtcomes : (replay Contest.act sampleContest (Contest.start
      (rivals sampleRequest .linkThenUnlink) (rivalWorld .queued))).map (fun s =>
        (s.outcome false, s.outcome true)) =
      some (some .abortedBeforeCommit, some .completed) := by
    decide
  rw [hs] at houtcomes
  obtain ⟨hfirst, hsecond⟩ := by
    simpa only [Option.map_some, Option.some.injEq, Prod.mk.injEq] using houtcomes
  refine ⟨s, hs, hfirst, hsecond, ?_⟩
  refine one_job_delivers _ _ _ (rivals_names _ _ _ _) (rivals_elsewhere _ _) ?_ s
    (.of_replay (AllSteps.of_free (fun _ _ => trivial) _ _) hs)
  intro i
  cases i <;> decide

/-- Two jobs are both reported delivered if the first one delivers the file under its own
name, from where the second one takes it again; and if both are recorded DONE before a new
file is there. -/
theorem two_jobs_deliver :
    (¬ ∀ (ι : Type) [Fintype ι] [DecidableEq ι] (jobs : ι → Entrant) source w s,
      (∀ i j, (jobs i).id = (jobs j).id → i = j) →
      (∀ i j, (jobs i).request.destName = (jobs j).request.destName → i = j) →
      NamesSource jobs source w → NoneDone jobs w →
      GuardedReach Contest.act (fun _ _ => True) (Contest.start jobs w) s →
      OneDelivers jobs source w s) ∧
    ¬ ∀ (ι : Type) [Fintype ι] [DecidableEq ι] (jobs : ι → Entrant) source w s,
      (∀ i j, (jobs i).id = (jobs j).id → i = j) →
      (∀ i j, (jobs i).request.destName = (jobs j).request.destName → i = j) →
      NamesSource jobs source w → DeliversElsewhere jobs source w →
      GuardedReach Contest.act (fun _ _ => True) (Contest.start jobs w) s →
      OneDelivers jobs source w s := by
  constructor
  · intro h
    let jobs := rivals ⟨lit "/s", lit "a", lit "/s", lit "a"⟩ .renameNoReplace
    let labels : List (Bool × Option Fault) :=
      List.replicate 21 (false, none) ++ List.replicate 21 (true, none)
    obtain ⟨s, hs⟩ := Option.isSome_iff_exists.mp (by decide : (replay Contest.act labels
      (Contest.start jobs (rivalWorld .queued))).isSome = true)
    have houtcomes : (replay Contest.act labels (Contest.start jobs (rivalWorld .queued))).map
        (fun s => (s.outcome false, s.outcome true)) =
        some (some .completed, some .completed) := by
      decide
    rw [hs] at houtcomes
    obtain ⟨hfirst, hsecond⟩ := by
      simpa only [Option.map_some, Option.some.injEq, Prod.mk.injEq] using houtcomes
    have hone := (h Bool jobs ⟨1, lit "a"⟩ (rivalWorld .queued) s (by decide) (by decide)
      (rivals_names _ _ _ _) (by intro i; cases i <;> decide)
      (.of_replay (AllSteps.of_free (fun _ _ => trivial) _ _) hs)).one false true hfirst hsecond
    cases hone
  · intro h
    let jobs := rivals sampleRequest .renameNoReplace
    let labels : List (Bool × Option Fault) :=
      List.replicate 7 (false, none) ++ List.replicate 7 (true, none)
    obtain ⟨s, hs⟩ := Option.isSome_iff_exists.mp (by decide : (replay Contest.act labels
      (Contest.start jobs (rivalWorld .done))).isSome = true)
    have houtcomes : (replay Contest.act labels (Contest.start jobs (rivalWorld .done))).map
        (fun s => (s.outcome false, s.outcome true)) =
        some (some .completed, some .completed) := by
      decide
    rw [hs] at houtcomes
    obtain ⟨hfirst, hsecond⟩ := by
      simpa only [Option.map_some, Option.some.injEq, Prod.mk.injEq] using houtcomes
    have hone := (h Bool jobs ⟨1, lit "a"⟩ (rivalWorld .done) s (by decide) (by decide)
      (rivals_names _ _ _ _) (rivals_elsewhere _ _)
      (.of_replay (AllSteps.of_free (fun _ _ => trivial) _ _) hs)).one false true hfirst hsecond
    cases hone

end FileMover
