import FileMover.Engine.Protocol
import FileMover.Model.Effects

/-!
# The engine refines the move protocol

Every call that `execute` or `recover` makes is a step of the protocol, and a
run that reports `Completed` leaves the record at DONE. The proof executes the
engine symbolically: `Knows` is what the program may rely on at a point of its
text, and there is one rule for each function it calls.
-/

namespace FileMover

open Framework

variable {p : Places} {id : Bytes} {request : MoveRequest}
  {v : View} {A : Option Inode → Prop} {h : Prop} {σ : Session} {α : Type}
  {post : α → Session → Prop}

/-- What the program knows: the view exactly, something about the source name
that its disappearance does not falsify, and possibly that some call has
failed. -/
structure Knows (p : Places) (id : Bytes) (v : View)
    (A : Option Inode → Prop) (h : Prop) (σ : Session) : Prop where
  view : σ.view p id = v
  source : A (σ.entry p.source)
  vanish : v.ledger.own = [] → A none
  faulted : h → σ.faulted = true

namespace Knows

theorem undisturbed {σ' : Session} (k : Knows p id v A h σ)
    (u : Undisturbed p id σ σ') : Knows p id v A h σ' := by
  refine ⟨u.view.trans k.view, ?_, k.vanish, fun hh => ?_⟩
  · rcases u.source with hs | ⟨hs, hown⟩
    · rw [hs]
      exact k.source
    · rw [hs]
      refine k.vanish ?_
      rw [← k.view]
      exact hown
  · rw [u.faulted]
    exact k.faulted hh

theorem root (k : Knows p id v A h σ) : σ.world.fs.root = v.root := by
  rw [← k.view]
  rfl

theorem type (k : Knows p id v A h σ) : σ.world.fs.type = v.type := by
  rw [← k.view]
  rfl

theorem state (k : Knows p id v A h σ) : σ.state id = v.state := by
  rw [← k.view]
  rfl

theorem staged (k : Knows p id v A h σ) (apart : p.staged ≠ p.source) :
    σ.entry p.staged = v.staged := by
  rw [← k.view]
  exact (if_neg apart).symm

theorem final (k : Knows p id v A h σ) (apart : p.final ≠ p.source) :
    σ.entry p.final = v.final := by
  rw [← k.view]
  exact (if_neg apart).symm

/-- With the source gone, names that coincide with it are known as well. -/
theorem staged_of_gone (k : Knows p id v (· = none) h σ) :
    σ.entry p.staged = v.staged := by
  by_cases hsame : p.staged = p.source
  · rw [← k.view, hsame, k.source]
    exact (if_pos hsame).symm
  · exact k.staged hsame

theorem final_of_gone (k : Knows p id v (· = none) h σ) :
    σ.entry p.final = v.final := by
  by_cases hsame : p.final = p.source
  · rw [← k.view, hsame, k.source]
    exact (if_pos hsame).symm
  · exact k.final hsame

theorem ledger (k : Knows p id v A h σ) : σ.ledger = v.ledger := by
  rw [← k.view]
  rfl

theorem mono {h' : Prop} (k : Knows p id v A h σ) (hh : h' → h) :
    Knows p id v A h' σ :=
  ⟨k.view, k.source, k.vanish, fun h' => k.faulted (hh h')⟩

theorem imp {B : Option Inode → Prop} (k : Knows p id v A h σ)
    (hAB : ∀ s, A s → B s) : Knows p id v B h σ :=
  ⟨k.view, hAB _ k.source, fun hown => hAB _ (k.vanish hown), k.faulted⟩

theorem forget (k : Knows p id v A h σ) : Knows p id v A False σ :=
  k.mono False.elim

end Knows

abbrev Sound (p : Places) (id : Bytes) (request : MoveRequest)
    (post : α → Session → Prop) (program : Prog α) (σ : Session) : Prop :=
  program.Safe sessionMachine (moveContract p id request) post σ

theorem sound_pure {value : α} (k : Knows p id v A h σ)
    (ok : ∀ σ, Knows p id v A h σ → post value σ) :
    Sound p id request post (.pure value) σ :=
  fun σ' u => ok σ' (k.undisturbed u)

/-- The session after a call that only looked. -/
def Session.looked (σ : Session) (l : Ledger) (fault : Option Fault) : Session where
  world := σ.world
  ledger := l
  faulted := σ.faulted || fault.isSome

theorem Knows.looked (k : Knows p id v A h σ) {l : Ledger}
    (own : l.own = v.ledger.own) (fault : Option Fault) :
    Knows p id { v with ledger := l } A (h ∨ fault.isSome = true)
      (σ.looked l fault) := by
  refine ⟨?_, k.source, fun hown => k.vanish (own ▸ hown), ?_⟩
  · rw [← k.view]
    rfl
  · rintro (hh | hf)
    · simp [Session.looked, k.faulted hh]
    · simp [Session.looked, hf]

theorem sound_look {c : Call} {next : Reply c → Prog α}
    (readOnly : c.op.readOnly = true) (k : Knows p id v A h σ)
    (rest : ∀ fault σ, Knows p id v A h σ →
      ∀ l, l = note c (perform c.op fault σ.world).1 σ.world σ.ledger →
      MoveStep p id request c fault σ (σ.looked l fault) ∧
      Sound p id request post (next (perform c.op fault σ.world).1)
        (σ.looked l fault)) :
    Sound p id request post (.call c next) σ := by
  intro σ₁ u fault _
  have hafter : (sessionMachine.perform c fault σ₁).2 =
      σ₁.looked (note c (perform c.op fault σ₁.world).1 σ₁.world σ₁.ledger) fault := by
    simp only [sessionMachine, Session.looked, perform_readOnly readOnly]
  rw [hafter]
  exact rest fault σ₁ (k.undisturbed u) _ rfl

/-- A call that only looks, and of which no note is taken. -/
theorem sound_read {c : Call} {next : Reply c → Prog α}
    (readOnly : c.op.readOnly = true)
    (silent : ∀ reply w l, note c reply w l = l) (k : Knows p id v A h σ)
    (rest : ∀ fault σ, Knows p id v A (h ∨ fault.isSome = true) σ →
      Sound p id request post (next (perform c.op fault σ.world).1) σ) :
    Sound p id request post (.call c next) σ := by
  apply sound_look readOnly k
  rintro fault σ k l rfl
  rw [silent]
  refine ⟨.quiet rfl rfl rfl, rest fault (σ.looked σ.ledger fault) ?_⟩
  rw [k.ledger]
  exact k.looked rfl fault

/-- The session after a call that was performed as asked and changed the world
to `w`. -/
def Session.wrote (σ : Session) (w : World) (l : Ledger) (fault : Option Fault) :
    Session where
  world := w
  ledger := l
  faulted := σ.faulted || fault.isSome

/-- A call that changes something. If it fails the run is as good as over. -/
theorem sound_write {c : Call} {next : Reply c → Prog α}
    (deaf : ∀ e w l, note c (.error e) w l = l) (k : Knows p id v A h σ)
    (failed : ∀ e σ, Sound p id request post (next (.error e)) σ)
    (asked : ∀ fault σ, Knows p id v A h σ →
      (∀ e, fault = some e → c.op.admits e = false) →
      ∀ reply w, answer c.op σ.world = (reply, w) →
      MoveStep p id request c fault σ
        (σ.wrote w (note c reply σ.world σ.ledger) fault) ∧
      Sound p id request post (next reply)
        (σ.wrote w (note c reply σ.world σ.ledger) fault)) :
    Sound p id request post (.call c next) σ := by
  intro σ₁ u fault _
  rcases perform_split c.op fault σ₁.world with ⟨e, heq⟩ | ⟨hnot, heq⟩
  · have hafter : sessionMachine.perform c fault σ₁ =
        (.error e, σ₁.looked σ₁.ledger fault) := by
      simp only [sessionMachine, Session.looked, heq, deaf]
    rw [hafter]
    exact ⟨.quiet rfl rfl rfl, failed e _⟩
  · have hafter : sessionMachine.perform c fault σ₁ =
        ((answer c.op σ₁.world).1, σ₁.wrote (answer c.op σ₁.world).2
          (note c (answer c.op σ₁.world).1 σ₁.world σ₁.ledger) fault) := by
      simp only [sessionMachine, Session.wrote, heq]
    rw [hafter]
    exact asked fault σ₁ (k.undisturbed u) hnot _ _ rfl

/-! ## Looking -/

theorem sound_openRoot {site : Site} {path : Bytes}
    {next : Except Bytes Dir → Prog α}
    (silent : ∀ reply w l, note ⟨site, .openRoot path⟩ reply w l = l)
    (k : Knows p id v A h σ)
    (refused : ∀ message σ, Sound p id request post (next (.error message)) σ)
    (opened : ∀ dir σ, Knows p id v A False σ → v.root (cstr path) = some dir →
      Sound p id request post (next (.ok dir)) σ) :
    Sound p id request post ((openRoot site path).bind next) σ := by
  apply sound_read rfl silent k
  intro fault σ k
  cases hr : (perform (.openRoot path) fault σ.world).1 with
  | error e => exact refused _ σ
  | ok dir =>
      refine opened dir σ k.forget ?_
      rw [← k.root]
      exact perform_openRoot_ok hr

theorem sound_classify {site : Site} {dir : Dir} {name : Bytes}
    {next : Except Bytes FileIdentity → Prog α}
    (silent : ∀ reply w l, note ⟨site, .fstatat ⟨dir, name⟩⟩ reply w l = l)
    (k : Knows p id v A h σ)
    (bad : isPlainName name = false → ∀ message σ, Knows p id v A False σ →
      Sound p id request post (next (.error message)) σ)
    (failed : ∀ message σ, Knows p id v A True σ →
      Sound p id request post (next (.error message)) σ)
    (absent : isPlainName name = true → ∀ σ, Knows p id v A False σ →
      σ.entry ⟨dir, name⟩ = none →
      Sound p id request post (next (.ok FileIdentity.missing)) σ)
    (present : isPlainName name = true → ∀ object σ, Knows p id v A False σ →
      σ.entry ⟨dir, name⟩ = some object →
      Sound p id request post
        (next (.ok (FileIdentity.ofStat (σ.world.stat object)))) σ) :
    Sound p id request post ((classify site dir name).bind next) σ := by
  cases hplain : isPlainName name with
  | false =>
      rw [classify_bad hplain]
      exact bad hplain _ σ k.forget
  | true =>
      rw [classify_plain hplain]
      apply sound_read rfl silent k
      intro fault σ k
      rcases perform_fstatat ⟨dir, name⟩ fault σ.world with
        ⟨e, he, hf, hr⟩ | ⟨hnone, hr⟩ | ⟨object, hsome, hr⟩
      · rw [hr]
        simp only [Program.pure_bind, identify, if_neg he]
        exact failed _ σ (k.mono fun _ => Or.inr hf)
      · rw [hr]
        exact absent hplain σ k.forget hnone
      · rw [hr]
        exact present hplain object σ k.forget hsome

/-! ## The store -/

theorem perform_selectJob (key : Bytes) (fault : Option Fault) (w : World) :
    (∃ e, (perform (.selectJob key) fault w).1 = .error e) ∨
      (perform (.selectJob key) fault w).1 =
        .ok ((w.db.row key).map (·.job)) := by
  rcases perform_cases (.selectJob key) fault w with ⟨e, _, heq⟩ | heq
  · exact Or.inl ⟨e, by rw [heq]⟩
  · exact Or.inr (by rw [heq]; rfl)

theorem sound_load {site : Site} {next : Except Bytes (Option Job) → Prog α}
    (silent : ∀ reply w l, note ⟨site, .selectJob id⟩ reply w l = l)
    (k : Knows p id v A h σ)
    (failed : ∀ message σ, Sound p id request post (next (.error message)) σ)
    (absent : ∀ σ, Sound p id request post (next (.ok none)) σ)
    (present : ∀ job σ, Knows p id v A h σ → v.state = some job.state →
      Sound p id request post (next (.ok (some job))) σ) :
    Sound p id request post ((load site id).bind next) σ := by
  apply sound_read rfl silent k
  intro fault σ k
  rcases perform_selectJob id fault σ.world with ⟨e, hr⟩ | hr
  · rw [hr]
    exact failed _ σ
  · rw [hr]
    cases hrow : σ.world.db.row id with
    | none => exact absent σ
    | some row =>
        refine present row.job σ (k.mono Or.inl) ?_
        rw [← k.state]
        simp [Session.state, Database.state, hrow]

/-- The two loads that the notes are interested in. -/
theorem sound_load_noted {site : Site}
    {next : Except Bytes (Option Job) → Prog α}
    (here : site = .executeLoad ∨ site = .finishLoad) (k : Knows p id v A h σ)
    (failed : ∀ message σ, Sound p id request post (next (.error message)) σ)
    (absent : ∀ σ, Sound p id request post (next (.ok none)) σ)
    (present : ∀ job σ, v.state = some job.state →
      Knows p id { v with ledger := v.ledger.settle (job.state = .done) } A h σ →
      Sound p id request post (next (.ok (some job))) σ) :
    Sound p id request post ((load site id).bind next) σ := by
  apply sound_look rfl k
  rintro fault σ k l hl
  rcases perform_selectJob id fault σ.world with ⟨e, hr⟩ | hr
  · rw [hr] at hl ⊢
    have hsame : l = σ.ledger := by
      rcases here with rfl | rfl <;> exact hl
    exact ⟨.quiet rfl rfl hsame, failed _ _⟩
  · rw [hr] at hl ⊢
    cases hrow : σ.world.db.row id with
    | none =>
        rw [hrow] at hl
        have hsame : l = σ.ledger := by
          rcases here with rfl | rfl <;> exact hl
        exact ⟨.quiet rfl rfl hsame, absent _⟩
    | some row =>
        have hstate : σ.state id = some row.job.state := by
          simp [Session.state, Database.state, hrow]
        rw [hrow] at hl
        have hnoted : l = σ.ledger.settle (row.job.state = .done) := by
          rcases here with rfl | rfl <;> exact hl
        constructor
        · by_cases hdone : row.job.state = .done
          · refine .readDone here (by rw [hstate, hdone]) rfl rfl ?_
            simp [Session.looked, hnoted, hdone]
          · refine .quiet rfl rfl ?_
            simp [Session.looked, hnoted, hdone, Ledger.settle]
        · apply present row.job _ (k.state ▸ hstate)
          rw [hnoted, k.ledger]
          exact (k.looked (l := v.ledger.settle _) rfl fault).mono Or.inl

/-- A statement that leaves the state column alone. -/
theorem sound_quiet_write {c : Call} {next : Reply c → Prog α}
    (quiet : ∀ fault w, (perform c.op fault w).2.fs = w.fs ∧
      (perform c.op fault w).2.db.state id = w.db.state id)
    (silent : ∀ reply w l, note c reply w l = l)
    (rest : ∀ reply σ, Sound p id request post (next reply) σ) :
    Sound p id request post (.call c next) σ := by
  intro σ₁ _ fault _
  obtain ⟨hfs, hstate⟩ := quiet fault σ₁.world
  exact ⟨.quiet hfs hstate (silent _ _ _), rest _ _⟩

theorem flag_quiet (reason : Bytes) (fault : Option Fault) (w : World) :
    (perform (.flagJob id reason) fault w).2.fs = w.fs ∧
      (perform (.flagJob id reason) fault w).2.db.state id = w.db.state id := by
  rcases perform_cases (.flagJob id reason) fault w with ⟨e, _, heq⟩ | heq
  · rw [heq]
    exact ⟨rfl, rfl⟩
  · rw [heq]
    exact ⟨rfl, Database.state_flag reason⟩

/-- The first component of a result decides what was promised. -/
def Reported (id : Bytes) (result : MoveResult) (σ : Session) : Prop :=
  result.1 = .completed → σ.state id = some .done ∧ σ.ledger.settled = true

theorem sound_refuse {outcome : MoveOutcome} {error : Bytes}
    (h : outcome ≠ .completed) :
    Sound p id request (Reported id) (.pure (outcome, error)) σ :=
  fun _ _ hc => absurd hc h

theorem sound_markNeedsAttention (reason : Bytes) :
    Sound p id request (fun _ _ => True) (markNeedsAttention id reason) σ := by
  unfold markNeedsAttention
  split
  · exact fun _ _ => trivial
  · apply sound_quiet_write (flag_quiet reason) (fun _ _ _ => rfl)
    intro reply σ
    rcases reply with e | changes
    · exact fun _ _ => trivial
    · change Sound p id request _ (if changes = 0 then _ else _) σ
      split <;> exact fun _ _ => trivial

theorem sound_haltWith {outcome : MoveOutcome} {error : Bytes}
    (h : outcome ≠ .completed) :
    Sound p id request (Reported id) (haltWith id outcome error) σ :=
  (sound_markNeedsAttention error).bind fun _ _ _ => sound_refuse h

/-- `update_state`: the row cannot change between the two statements, so the
edge that is written is the one that was judged. -/
theorem sound_updateState {target : JobState} {nowMs : Int} {message : Bytes}
    {next : Except Bytes Unit → Prog α}
    (k : Knows p id v A h σ) (placed : placesOf v.root id request = some p)
    (allowed : ∀ σ, Knows p id v A h σ → Recordable p request σ target)
    (failed : ∀ message σ, Sound p id request post (next (.error message)) σ)
    (done : ∀ σ, Knows p id { v with state := some target } A h σ →
      Sound p id request post (next (.ok ())) σ) :
    Sound p id request post
      ((updateState id target nowMs message).bind next) σ := by
  unfold updateState
  rw [Program.bind_def, Program.bind_assoc]
  apply sound_load (fun _ _ _ => rfl) k
  · exact fun e σ => failed e σ
  · exact fun σ => failed _ σ
  intro job σ k hjob
  cases htrans : job.transition target nowMs message with
  | none =>
      simp only [htrans]
      exact failed _ σ
  | some after =>
      have hto : after.state = target := Job.transition_state htrans
      have hlegal := Job.transition_legal htrans
      simp only [htrans]
      refine sound_write (c := ⟨.transitionWrite target, .updateJob id job after⟩)
        (fun _ _ _ => rfl) k (fun e σ => failed _ σ) ?_
      intro fault σ k _ reply w hanswer
      simp only [answer, World.onDb] at hanswer
      split at hanswer
      · cases hanswer
        exact ⟨.quiet rfl rfl rfl, failed _ _⟩
      · rename_i db' hdb
        cases hanswer
        have hwas : σ.world.db.state id = some job.state := k.state.trans hjob
        have hnow : db'.state id = some target := by
          rw [Database.state_updateJob hdb, if_pos rfl, hwas, ← hto]
          rfl
        refine ⟨.record job.state target (k.root ▸ placed) hwas (hto ▸ hlegal) (allowed σ k) rfl
          hnow rfl, done _ ?_⟩
        refine ⟨?_, k.source, k.vanish, fun hh => ?_⟩
        · rw [← k.view]
          simp only [Session.view, Session.state, Session.wrote, hnow]
          rfl
        · simp [Session.wrote, k.faulted hh]

theorem sound_recordTransition {target : JobState} {nowMs : Int} {message : Bytes}
    {phase : CommitPhase}
    {next : Except (WriteFailureAction × Bytes) Unit → Prog α}
    (k : Knows p id v A h σ) (placed : placesOf v.root id request = some p)
    (allowed : ∀ σ, Knows p id v A h σ → Recordable p request σ target)
    (failed : ∀ failure σ, Sound p id request post (next (.error failure)) σ)
    (done : ∀ σ, Knows p id { v with state := some target } A h σ →
      Sound p id request post (next (.ok ())) σ) :
    Sound p id request post
      ((recordTransition id target nowMs message phase).bind next) σ := by
  unfold recordTransition
  rw [Program.bind_def, Program.bind_assoc]
  exact sound_updateState k placed allowed (fun e σ => failed _ σ) done

/-! ## The commit -/

theorem sound_commitRename {source target : Slot} {next : Except Fault Unit → Prog α}
    (placed : placesOf v.root id request = some p)
    (hsource : p.source = source) (htarget : p.staged = target)
    (fresh : v.ledger.trusted = none) (k : Knows p id v A h σ)
    (may : p.source ≠ p.staged → v.staged = none → Underway v.state ∧ ValidDirs request)
    (failed : ∀ e σ, Sound p id request post (next (.error e)) σ)
    (moved : ∀ v' σ, v'.root = v.root → v'.state = v.state →
      Knows p id v' (· = none) False σ →
      Sound p id request post (next (.ok ())) σ) :
    Sound p id request post
      (.call ⟨.commitRename, .renameat2 source target⟩ next) σ := by
  subst hsource htarget
  refine sound_write (fun _ _ _ => rfl) k failed ?_
  intro fault σ k _ reply w hanswer
  simp only [answer, World.onFs] at hanswer
  split at hanswer
  · cases hanswer
    exact ⟨.quiet rfl rfl rfl, failed _ _⟩
  · rename_i fs' hfs
    cases hanswer
    obtain ⟨object, hs, ht, rfl⟩ := Filesystem.renameNoReplace_ok hfs
    have hapart : p.source ≠ p.staged := by
      intro heq
      rw [heq, ht] at hs
      cases hs
    obtain ⟨hunder, hvalid⟩ := may hapart (k.staged hapart.symm ▸ ht)
    have hnote : note ⟨.commitRename, .renameat2 p.source p.staged⟩ (.ok ())
        σ.world σ.ledger = σ.ledger.take (some object) := by
      simp only [note, hs]
    rw [hnote]
    refine ⟨.commit object (k.root ▸ placed) (k.ledger ▸ fresh) hs ht (k.state ▸ hunder) hvalid rfl
      rfl rfl, ?_⟩
    refine moved (Session.view p id _) _ ?_ ?_ ⟨rfl, ?_, fun _ => rfl, False.elim⟩
    · exact k.root
    · exact k.state
    · simp [Session.entry, Session.wrote, Filesystem.entry_put_ne hapart]

theorem sound_commitLink {source target : Slot} {next : Except Fault Unit → Prog α}
    (placed : placesOf v.root id request = some p)
    (hsource : p.source = source) (htarget : p.staged = target)
    (fresh : v.ledger.trusted = none) (k : Knows p id v A h σ)
    (may : p.source ≠ p.staged → v.staged = none → Underway v.state ∧ ValidDirs request)
    (failed : ∀ e σ, Sound p id request post (next (.error e)) σ)
    (linked : ∀ object v' σ, v'.root = v.root → v'.state = v.state →
      Underway v.state →
      v'.staged = some object → object ∈ v'.ledger.own →
      p.source ≠ p.staged →
      Knows p id v' (· = some object) False σ →
      Sound p id request post (next (.ok ())) σ) :
    Sound p id request post
      (.call ⟨.commitLink, .linkat source target⟩ next) σ := by
  subst hsource htarget
  refine sound_write (fun _ _ _ => rfl) k failed ?_
  intro fault σ k _ reply w hanswer
  simp only [answer, World.onFs] at hanswer
  split at hanswer
  · cases hanswer
    exact ⟨.quiet rfl rfl rfl, failed _ _⟩
  · rename_i fs' hfs
    cases hanswer
    obtain ⟨object, hs, ht, rfl⟩ := Filesystem.link_ok hfs
    have hapart : p.source ≠ p.staged := by
      intro heq
      rw [heq, ht] at hs
      cases hs
    obtain ⟨hunder, hvalid⟩ := may hapart (k.staged hapart.symm ▸ ht)
    have hnote : note ⟨.commitLink, .linkat p.source p.staged⟩ (.ok ())
        σ.world σ.ledger = σ.ledger.take (some object) := by
      simp only [note, hs]
    rw [hnote]
    refine ⟨.link object (k.root ▸ placed) (k.ledger ▸ fresh) hs ht (k.state ▸ hunder) hvalid rfl
      rfl rfl, ?_⟩
    refine linked object (Session.view p id _) _ ?_ ?_ hunder ?_ ?_ hapart
      ⟨rfl, ?_, ?_, False.elim⟩
    · exact k.root
    · exact k.state
    · simp [Session.view, Session.entry, Session.wrote, hapart.symm]
    · simp [Session.view, Session.wrote]
    · simpa [Session.entry, Session.wrote, Filesystem.entry_put_ne hapart] using hs
    · simp [Session.view, Session.wrote]

theorem sound_commitUnlink {source : Slot} {object : Inode}
    {next : Except Fault Unit → Prog α}
    (placed : placesOf v.root id request = some p)
    (hsource : p.source = source) (hstaged : v.staged = some object)
    (under : Underway v.state) (taken : object ∈ v.ledger.own) (apart : p.source ≠ p.staged)
    (k : Knows p id v (· = some object) h σ)
    (failed : ∀ e σ, Sound p id request post (next (.error e)) σ)
    (moved : ∀ v' σ, v'.root = v.root → v'.state = v.state →
      Knows p id v' (· = none) False σ →
      Sound p id request post (next (.ok ())) σ) :
    Sound p id request post (.call ⟨.commitUnlink, .unlinkat source⟩ next) σ := by
  subst hsource
  refine sound_write (fun _ _ _ => rfl) k failed ?_
  intro fault σ k _ reply w hanswer
  simp only [answer, World.onFs] at hanswer
  split at hanswer
  · cases hanswer
    exact ⟨.quiet rfl rfl rfl, failed _ _⟩
  · rename_i fs' hfs
    cases hanswer
    obtain ⟨_, _, rfl⟩ := Filesystem.unlink_ok hfs
    refine ⟨.unlink object (k.root ▸ placed) k.source
      ((k.staged apart.symm).trans hstaged) apart (k.ledger ▸ taken) (k.state ▸ under)
      rfl rfl rfl, ?_⟩
    refine moved (Session.view p id _) _ ?_ ?_ ⟨rfl, ?_, fun _ => rfl, False.elim⟩
    · exact k.root
    · exact k.state
    · simp [Session.entry, Session.wrote]

/-- `move_within` out of the source name. -/
theorem sound_moveWithin {fromDir toDir : Dir} {fromName toName : Bytes}
    {strategy : MoveStrategy} {next : Except Bytes Unit → Prog α}
    (placed : placesOf v.root id request = some p)
    (hsource : p.source = ⟨fromDir, fromName⟩) (htarget : p.staged = ⟨toDir, toName⟩)
    (fresh : v.ledger.trusted = none) (k : Knows p id v A h σ)
    (may : p.source ≠ p.staged → v.staged = none → Underway v.state ∧ ValidDirs request)
    (failed : ∀ message σ, Sound p id request post (next (.error message)) σ)
    (moved : isPlainName toName = true → ∀ v' σ, v'.root = v.root →
      v'.state = v.state → Knows p id v' (· = none) False σ →
      Sound p id request post (next (.ok ())) σ) :
    Sound p id request post
      ((moveWithin fromDir fromName toDir toName strategy).bind next) σ := by
  unfold moveWithin
  cases hfrom : isPlainName fromName with
  | false =>
      rw [rejectBadName_bad hfrom]
      exact failed _ σ
  | true =>
      cases hto : isPlainName toName with
      | false =>
          rw [rejectBadName_plain hfrom, rejectBadName_bad hto]
          exact failed _ σ
      | true =>
          rw [rejectBadName_plain hfrom, rejectBadName_plain hto]
          cases strategy with
          | renameNoReplace =>
              exact sound_commitRename placed hsource htarget fresh k may
                (fun e σ => failed _ σ) (moved hto)
          | linkThenUnlink =>
              refine sound_commitLink placed hsource htarget fresh k may
                (fun e σ => failed _ σ) ?_
              intro object v₁ σ hroot hstate hunder hstaged htaken hapart k
              refine sound_commitUnlink (hroot ▸ placed) hsource hstaged
                (hstate ▸ hunder) htaken hapart k (fun e σ => failed _ σ) ?_
              intro v₂ σ hroot₂ hstate₂ k
              exact moved hto v₂ σ (hroot₂.trans hroot) (hstate₂.trans hstate) k

/-! ## Phase 5 -/

/-- What a probe sees is there. -/
theorem entry_of_sees {slot : Slot} {fault : Option Fault} {object : Inode}
    (hsees : σ.sees fault slot = some object) : σ.entry slot = some object := by
  unfold Session.sees at hsees
  rcases perform_fstatat slot fault σ.world with
    ⟨e, _, _, hr⟩ | ⟨_, hr⟩ | ⟨found, hfound, hr⟩
  · simp [hr, seen] at hsees
  · simp [hr, seen] at hsees
  · rw [hr] at hsees
    cases hsees
    exact hfound

theorem sound_sawStaged {dir : Dir} {name : Bytes} {next : Bool → Prog α}
    (hstaged : p.staged = ⟨dir, name⟩) (plain : isPlainName name = true)
    (k : Knows p id v (· = none) h σ)
    (rest : ∀ staged σ, (staged = none ∨ staged = v.staged) →
      Knows p id { v with ledger := { v.ledger with staged := staged } }
        (· = none) False σ →
      Sound p id request post (next staged.isSome) σ) :
    Sound p id request post ((sawEntry .stagedProbe dir name).bind next) σ := by
  rw [sawEntry_plain plain, ← hstaged]
  refine sound_look rfl k ?_
  rintro fault σ k l rfl
  refine ⟨.lookStaged rfl rfl rfl, ?_⟩
  refine rest (σ.sees fault p.staged) _ ?_ ?_
  · cases hsees : σ.sees fault p.staged with
    | none => exact Or.inl rfl
    | some object => exact Or.inr (k.staged_of_gone ▸ (entry_of_sees hsees).symm)
  · rw [← k.ledger]
    exact (k.looked (by rw [← k.ledger]; rfl) fault).forget

theorem sound_sawFinal {dir : Dir} {name : Bytes} {next : Bool → Prog α}
    (hfinal : p.final = ⟨dir, name⟩) (k : Knows p id v (· = none) h σ)
    (placed : placesOf v.root id request = some p)
    (bad : isPlainName name = false → ∀ σ, Sound p id request post (next false) σ)
    (rest : isPlainName name = true → ∀ final σ, (final = none ∨ final = v.final) →
      Knows p id { v with ledger := v.ledger.trust final } (· = none) False σ →
      Sound p id request post (next final.isSome) σ) :
    Sound p id request post ((sawEntry .finalProbe dir name).bind next) σ := by
  cases hplain : isPlainName name with
  | false =>
      rw [sawEntry_bad hplain]
      exact bad hplain σ
  | true =>
      rw [sawEntry_plain hplain, ← hfinal]
      refine sound_look rfl k ?_
      rintro fault σ k l rfl
      refine ⟨.lookFinal rfl (k.root ▸ placed) rfl rfl rfl, ?_⟩
      refine rest hplain (σ.sees fault p.final) _ ?_ ?_
      · cases hsees : σ.sees fault p.final with
        | none => exact Or.inl rfl
        | some object => exact Or.inr (k.final_of_gone ▸ (entry_of_sees hsees).symm)
      · rw [← k.ledger]
        exact (k.looked (by rw [← k.ledger]; rfl) fault).forget

/-- The final name, seen from the view. -/
def Delivered (p : Places) (v : View) (object : Inode) : Prop :=
  p.final ≠ p.source → v.final = some object

/-- The final name, seen from the source name where the two coincide: a file
that no commit took may have been removed again. -/
def StillThere (p : Places) (v : View) (object : Inode) (s : Option Inode) : Prop :=
  p.final = p.source → s = some object ∨ (s = none ∧ v.ledger.own = [])

theorem sound_publishRename {source target : Slot} {object : Inode}
    {next : Except Fault Unit → Prog α}
    (placed : placesOf v.root id request = some p)
    (hsource : p.staged = source) (htarget : p.final = target)
    (k : Knows p id v (· = none) h σ)
    (hstaged : v.staged = some object) (htrusted : v.ledger.trusted = some object)
    (live : v.state = some .transferring ∨ v.state = some .queued)
    (failed : ∀ e σ, Sound p id request post (next (.error e)) σ)
    (published : ∀ v' σ, v'.root = v.root → v'.ledger = v.ledger.settle true →
      Delivered p v' object →
      Knows p id v' (StillThere p v' object) False σ →
      Sound p id request post (next (.ok ())) σ) :
    Sound p id request post
      (.call ⟨.publishRename, .renameat source target⟩ next) σ := by
  subst hsource htarget
  refine sound_write (fun _ _ _ => rfl) k failed ?_
  intro fault σ k hnot reply w hanswer
  simp only [answer, World.onFs] at hanswer
  split at hanswer
  · cases hanswer
    exact ⟨.quiet rfl rfl rfl, failed _ _⟩
  · rename_i fs' hfs
    cases hanswer
    obtain ⟨found, hfound, hcases⟩ := Filesystem.rename_ok hfs
    have hobject : found = object := by
      have hthere : σ.world.fs.entry p.staged = some object :=
        k.staged_of_gone.trans hstaged
      rw [hfound] at hthere
      exact Option.some.inj hthere
    subst hobject
    have hasked : fault = none := by
      cases fault with
      | none => rfl
      | some e => cases hnot e rfl
    refine ⟨.publish found rfl hasked (k.root ▸ placed) k.source hfound (k.ledger ▸ htrusted)
      (k.state ▸ live) hcases rfl rfl, ?_⟩
    have hfinal : fs'.entry p.final = some found := by
      rcases hcases with ⟨hsame, rfl⟩ | ⟨_, rfl⟩
      · exact hsame
      · exact Filesystem.entry_put_self
    refine published (Session.view p id _) _ ?_ ?_ ?_ ⟨rfl, ?_, ?_, False.elim⟩
    · rcases hcases with ⟨_, rfl⟩ | ⟨_, rfl⟩
      · exact k.root
      · exact k.root
    · simp [Session.view, Session.wrote, note, k.ledger]
    · intro hapart
      simp [Session.view, Session.entry, Session.wrote, hapart, hfinal]
    · intro hsame
      rw [← hsame]
      exact Or.inl hfinal
    · exact fun hown _ => Or.inr ⟨rfl, hown⟩

theorem sound_publish {dir : Dir} {tempName finalName : Bytes} {object : Inode}
    {next : Except Bytes Unit → Prog α}
    (hsource : p.staged = ⟨dir, tempName⟩) (htarget : p.final = ⟨dir, finalName⟩)
    (k : Knows p id v (· = none) h σ) (placed : placesOf v.root id request = some p)
    (hstaged : v.staged = some object)
    (htrusted : isPlainName finalName = true → v.ledger.trusted = some object)
    (live : v.state = some .transferring ∨ v.state = some .queued)
    (failed : ∀ message σ, Sound p id request post (next (.error message)) σ)
    (published : ∀ v' σ, v'.root = v.root → v'.ledger.trusted = some object →
      v'.ledger.settled = true → Delivered p v' object →
      Knows p id v' (StillThere p v' object) False σ →
      Sound p id request post (next (.ok ())) σ) :
    Sound p id request post ((publish dir tempName finalName).bind next) σ := by
  unfold publish
  cases htemp : isPlainName tempName with
  | false =>
      rw [rejectBadName_bad htemp]
      exact failed _ σ
  | true =>
    cases hplain : isPlainName finalName with
    | false =>
        rw [rejectBadName_plain htemp, rejectBadName_bad hplain]
        exact failed _ σ
    | true =>
        rw [rejectBadName_plain htemp, rejectBadName_plain hplain]
        refine sound_read (c := ⟨.publishOpen, .openat ⟨dir, tempName⟩⟩) rfl
          (fun _ _ _ => rfl) k ?_
        intro fault σ k
        cases (perform (.openat ⟨dir, tempName⟩) fault σ.world).1 with
        | error e => exact failed _ σ
        | ok fd =>
          refine sound_read (c := ⟨.publishFsync, .fsync fd⟩) rfl
            (fun _ _ _ => rfl) k ?_
          intro fault σ k
          cases (perform (.fsync fd) fault σ.world).1 with
          | error e => exact failed _ σ
          | ok _ =>
            refine sound_publishRename placed hsource htarget k hstaged
              (htrusted hplain) live (fun e σ => failed _ σ) ?_
            intro v' σ hroot hledger hdelivered k
            refine sound_read (c := ⟨.publishDirFsync, .fsyncDir dir⟩) rfl
              (fun _ _ _ => rfl) k ?_
            intro fault σ k
            cases (perform (.fsyncDir dir) fault σ.world).1 with
            | error e => exact failed _ σ
            | ok _ =>
                refine published v' σ hroot ?_ ?_ hdelivered k.forget
                · rw [hledger]
                  exact htrusted hplain
                · rw [hledger]
                  simp [Ledger.settle]

/-! ## The engine -/

theorem sound_recordDone {tick : Int} {error : Bytes} {object : Inode}
    (k : Knows p id v (StillThere p v object) h σ)
    (placed : placesOf v.root id request = some p) (hdelivered : Delivered p v object)
    (htrusted : v.ledger.trusted = some object) (hsettled : v.ledger.settled = true) :
    Sound p id request (Reported id) (recordDone id tick error) σ := by
  refine sound_recordTransition k placed ?_ ?_ ?_
  · intro σ k
    refine ⟨object, k.ledger ▸ htrusted, ?_⟩
    by_cases hsame : p.final = p.source
    · rw [hsame]
      exact (k.source hsame).imp_right fun hgone => k.ledger ▸ hgone.2
    · exact Or.inl ((k.final hsame).trans (hdelivered hsame))
  · intro failure σ
    exact sound_haltWith (by decide)
  · intro σ k
    refine sound_pure k ?_
    intro σ k _
    exact ⟨k.state, k.ledger ▸ hsettled⟩

theorem sound_publishAndRecord {destDir : Dir} {tick : Int} {error : Bytes}
    (hstaged : p.staged = ⟨destDir, stagingName id⟩)
    (hfinal : p.final = ⟨destDir, request.destName⟩)
    (plain : isPlainName (stagingName id) = true)
    (k : Knows p id v (· = none) h σ) (placed : placesOf v.root id request = some p)
    (live : v.state = some .transferring ∨ v.state = some .queued) :
    Sound p id request (Reported id)
      (publishAndRecord id request destDir tick error) σ := by
  refine sound_sawStaged hstaged plain k ?_
  intro staged σ hsaw k
  cases staged with
  | none =>
      refine sound_sawFinal hfinal k placed (fun _ σ => sound_haltWith (by decide)) ?_
      intro _ final σ hthere k
      cases final with
      | none => exact sound_haltWith (by decide)
      | some object =>
          have hobject : v.final = some object := by
            rcases hthere with hnone | hsome
            · cases hnone
            · exact hsome.symm
          have hapart : p.final ≠ p.source := by
            intro hsame
            have hthere := k.final_of_gone.trans hobject
            rw [hsame, k.source] at hthere
            cases hthere
          exact sound_recordDone (k.imp fun _ _ hsame => absurd hsame hapart) placed
            (fun _ => hobject) rfl (by simp [Ledger.trust, Ledger.settle])
  | some object =>
      have hobject : v.staged = some object := by
        rcases hsaw with hnone | hsome
        · cases hnone
        · exact hsome.symm
      have hfail : ∀ message σ, Sound p id request (Reported id)
          (haltWith id .haltedAfterCommit message) σ :=
        fun message σ => sound_haltWith (by decide)
      refine sound_sawFinal hfinal k placed ?_ ?_
      · -- an unusable final name is refused before the rename
        intro hbad σ
        simp only [Option.isSome_some, if_true, publish, rejectBadName_plain plain,
          rejectBadName_bad hbad]
        exact hfail _ σ
      · intro _ final σ _ k
        refine sound_publish hstaged hfinal k placed hobject (fun _ => rfl) live hfail ?_
        intro v' σ hroot htrusted hsettled hdelivered k
        exact sound_recordDone k (hroot ▸ placed) hdelivered htrusted hsettled

theorem sound_finishAfterCommit {destDir : Dir} {tick : Int} {error : Bytes}
    (placed : placesOf v.root id request = some p)
    (hstaged : p.staged = ⟨destDir, stagingName id⟩)
    (hfinal : p.final = ⟨destDir, request.destName⟩)
    (plain : isPlainName (stagingName id) = true)
    (k : Knows p id v (· = none) h σ) :
    Sound p id request (Reported id)
      (finishAfterCommit id request destDir tick error) σ := by
  refine sound_load_noted (Or.inr rfl) k (fun _ σ => sound_refuse (by decide))
    (fun σ => sound_refuse (by decide)) ?_
  intro job σ hstate k
  cases hjob : job.state with
  | done =>
      simp only [hjob, if_true]
      refine sound_pure k ?_
      intro σ k _
      refine ⟨k.state.trans (hstate.trans (by rw [hjob])), ?_⟩
      rw [k.ledger]
      simp [Ledger.settle, hjob]
  | failed =>
      simp only [hjob]
      exact sound_refuse (by decide)
  | «renaming» =>
      simp only [hjob]
      refine sound_recordTransition k placed ?_ ?_ ?_
      · intro σ k
        exact k.source
      · intro failure σ
        exact sound_haltWith (by decide)
      · intro σ k
        exact sound_publishAndRecord hstaged hfinal plain k placed (Or.inl rfl)
  | transferring =>
      simp only [hjob]
      refine sound_publishAndRecord hstaged hfinal plain k placed (Or.inl ?_)
      exact hstate.trans (by rw [hjob])
  | queued =>
      simp only [hjob]
      refine sound_publishAndRecord hstaged hfinal plain k placed (Or.inr ?_)
      exact hstate.trans (by rw [hjob])

theorem sound_openRegular {dir : Dir} {name : Bytes} {expected : FileIdentity}
    {next : Except Bytes Unit → Prog α} (k : Knows p id v A h σ)
    (refused : ∀ message σ, Sound p id request post (next (.error message)) σ)
    (passed : ∀ σ, Knows p id v A False σ →
      Sound p id request post (next (.ok ())) σ) :
    Sound p id request post ((openRegular dir name expected).bind next) σ := by
  unfold openRegular
  cases hplain : isPlainName name with
  | false =>
      rw [rejectBadName_bad hplain]
      exact refused _ σ
  | true =>
    rw [rejectBadName_plain hplain]
    by_cases hkind : expected.kind = .regular
    · simp only [ne_eq, hkind, not_true_eq_false, if_false]
      refine sound_read (c := ⟨.sourceOpen, .openat ⟨dir, name⟩⟩) rfl
        (fun _ _ _ => rfl) k ?_
      intro fault σ k
      cases (perform (.openat ⟨dir, name⟩) fault σ.world).1 with
      | error e =>
          change Sound p id request post (Program.bind (if e = ELOOP then _ else _) next) σ
          split
          · exact refused _ σ
          · exact refused _ σ
      | ok fd =>
          refine sound_read (c := ⟨.sourceFstat, .fstat fd⟩) rfl
            (fun _ _ _ => rfl) k ?_
          intro fault σ k
          cases (perform (.fstat fd) fault σ.world).1 with
          | error e => exact refused _ σ
          | ok st =>
              change Sound p id request post (Program.bind
                (if (FileIdentity.ofStat st).sameObjectAs expected then _ else _)
                next) σ
              split
              · exact passed σ k.forget
              · exact refused _ σ
    · simp only [ne_eq, hkind, not_false_eq_true, if_true]
      exact refused _ σ

/-- The places are those the request points at. A request with a directory that
cannot be opened is given a single place, at which the protocol can do
nothing. -/
def Located (p : Places) (id : Bytes) (request : MoveRequest)
    (root : Bytes → Option Dir) : Prop :=
  placesOf root id request = some p ∨
    (placesOf root id request = none ∧ p.staged = p.source ∧ p.final = p.source ∧
      ∀ dir, root (cstr request.sourceDir) = some dir →
        p.source = ⟨dir, request.sourceName⟩)

theorem Located.eq {root : Bytes → Option Dir} {sourceDir destDir : Dir}
    (located : Located p id request root)
    (hs : root (cstr request.sourceDir) = some sourceDir)
    (hd : root (cstr request.destDir) = some destDir) :
    placesOf root id request = some p ∧
      p.source = ⟨sourceDir, request.sourceName⟩ ∧
      p.staged = ⟨destDir, stagingName id⟩ ∧
      p.final = ⟨destDir, request.destName⟩ := by
  have hp : placesOf root id request = some ⟨⟨sourceDir, request.sourceName⟩,
      ⟨destDir, stagingName id⟩, ⟨destDir, request.destName⟩⟩ := by
    simp only [placesOf, hs, hd]
  rcases located with hq | ⟨hq, _⟩
  · refine ⟨hq, ?_⟩
    rw [hp] at hq
    cases hq
    exact ⟨rfl, rfl, rfl⟩
  · rw [hp] at hq
    cases hq

theorem Located.source {root : Bytes → Option Dir} {dir : Dir}
    (located : Located p id request root)
    (hdir : root (cstr request.sourceDir) = some dir) :
    p.source = ⟨dir, request.sourceName⟩ := by
  rcases located with hp | ⟨_, _, _, hsource⟩
  · unfold placesOf at hp
    split at hp
    · rename_i sourceDir destDir hs hd
      cases hp
      rw [hdir] at hs
      cases hs
      rfl
    · cases hp
  · exact hsource dir hdir

theorem sound_validate
    {next : Except Bytes (Job × Dir × Dir × Bytes) → Prog α}
    (k : Knows p id v A h σ)
    (refused : ∀ message σ, Sound p id request post (next (.error message)) σ)
    (passed : ∀ job sourceDir destDir error σ, ValidDirs request →
      v.root (cstr request.sourceDir) = some sourceDir →
      v.root (cstr request.destDir) = some destDir →
      v.state = some job.state →
      Knows p id { v with ledger := v.ledger.settle (job.state = .done) } A False σ →
      Sound p id request post (next (.ok (job, sourceDir, destDir, error))) σ) :
    Sound p id request post ((validate id request).bind next) σ := by
  unfold validate
  cases hvs : validateExternalPath request.sourceDir with
  | error message => exact refused _ σ
  | ok _ =>
    cases hvd : validateExternalPath request.destDir with
    | error message => exact refused _ σ
    | ok _ =>
      simp only
      rw [Program.bind_def, Program.bind_assoc]
      refine sound_load_noted (Or.inl rfl) k (fun _ σ => refused _ σ)
        (fun σ => refused _ σ) ?_
      intro job σ hstate k
      simp only
      rw [Program.bind_def, Program.bind_assoc]
      refine sound_openRoot (fun _ _ _ => rfl) k (fun _ σ => refused _ σ) ?_
      intro sourceDir σ k hs
      simp only
      rw [Program.bind_def, Program.bind_assoc]
      refine sound_openRoot (fun _ _ _ => rfl) k (fun _ σ => refused _ σ) ?_
      intro destDir σ k hd
      simp only
      rw [Program.bind_def, Program.bind_assoc]
      refine sound_classify (fun _ _ _ => rfl) k (fun _ _ σ _ => refused _ σ)
        (fun _ σ _ => refused _ σ) ?_ ?_
      · intro _ σ _ _
        simp only [FileIdentity.missing, if_true]
        exact refused _ σ
      · intro _ object σ k _
        by_cases hreg : (FileIdentity.ofStat (σ.world.stat object)).kind = .regular
        · simp only [hreg, reduceCtorEq, ne_eq, not_true_eq_false, if_false]
          rw [Program.bind_def, Program.bind_assoc]
          refine sound_openRegular k (fun _ σ => refused _ σ) ?_
          intro σ k
          simp only
          rw [Program.bind_def, Program.bind_assoc]
          -- whatever the second probe says, phase 1 is passed
          have hgo : ∀ error σ, Knows p id
              { v with ledger := v.ledger.settle (job.state = .done) } A False σ →
              Sound p id request post (next (.ok (job, sourceDir, destDir, error))) σ :=
            fun error σ k => passed job sourceDir destDir error σ ⟨hvs, hvd⟩ hs hd hstate k
          exact sound_classify (fun _ _ _ => rfl) k (fun _ _ σ k => hgo _ σ k)
            (fun _ σ k => hgo _ σ k.forget) (fun _ σ k _ => hgo _ σ k)
            (fun _ _ σ k _ => hgo _ σ k)
        · have hthere : (FileIdentity.ofStat (σ.world.stat object)).kind ≠ .missing :=
            kindFromMode_ne_missing _
          simp only [hthere, hreg, ne_eq, not_false_eq_true, if_true, if_false]
          exact refused _ σ

theorem sound_commitAndFinish {strategy : MoveStrategy} {sourceDir destDir : Dir}
    {tick : Int} {error : Bytes}
    (placed : placesOf v.root id request = some p)
    (hsource : p.source = ⟨sourceDir, request.sourceName⟩)
    (hstaged : p.staged = ⟨destDir, stagingName id⟩)
    (hfinal : p.final = ⟨destDir, request.destName⟩)
    (fresh : v.ledger.trusted = none)
    (k : Knows p id v A h σ) (under : Underway v.state) (valid : ValidDirs request) :
    Sound p id request (Reported id)
      (commitAndFinish id request strategy sourceDir destDir tick error) σ := by
  refine sound_moveWithin placed hsource hstaged fresh k (fun _ _ => ⟨under, valid⟩)
    (fun _ σ => sound_refuse (by decide)) ?_
  intro plain v' σ hroot _ k
  exact sound_finishAfterCommit (hroot ▸ placed) hstaged hfinal plain k

/-- Every call of `execute` is a step of the protocol. -/
theorem execute_sound {strategy : MoveStrategy}
    (located : Located p id request σ.world.fs.root)
    (fresh : σ.ledger.trusted = none) :
    Sound p id request (Reported id) (execute id request strategy) σ := by
  have k : Knows p id (σ.view p id) (fun _ => True) False σ :=
    ⟨rfl, trivial, fun _ => trivial, False.elim⟩
  refine sound_validate k (fun _ σ => sound_refuse (by decide)) ?_
  intro job sourceDir destDir error σ₁ valid hs hd hstate k
  obtain ⟨placed, hsource, hstaged, hfinal⟩ := located.eq hs hd
  cases hjob : job.state with
  | done =>
      simp only [hjob, if_true]
      refine sound_pure k ?_
      intro σ k _
      refine ⟨k.state.trans (hstate.trans (by rw [hjob])), ?_⟩
      rw [k.ledger]
      simp [Ledger.settle, hjob]
  | failed =>
      simp only [hjob]
      exact sound_refuse (by decide)
  | queued =>
      simp only [hjob]
      refine sound_recordTransition k placed ?_ ?_ ?_
      · intro σ k
        rw [Recordable, k.ledger]
        exact fresh
      · intro failure σ
        exact sound_refuse (by decide)
      · intro σ k
        exact sound_commitAndFinish placed hsource hstaged hfinal fresh k (Or.inl rfl) valid
  | «renaming» =>
      simp only [hjob]
      refine sound_commitAndFinish placed hsource hstaged hfinal fresh k (Or.inl ?_) valid
      exact hstate.trans (by rw [hjob])
  | transferring =>
      simp only [hjob]
      refine sound_commitAndFinish placed hsource hstaged hfinal fresh k (Or.inr ?_) valid
      exact hstate.trans (by rw [hjob])

theorem sound_failWith {outcome : MoveOutcome} {tick : Int} {error : Bytes}
    (placed : placesOf v.root id request = some p)
    (hout : outcome ≠ .completed) (k : Knows p id v A h σ)
    (allowed : ∀ σ, Knows p id v A h σ → Recordable p request σ .failed) :
    Sound p id request (Reported id) (failWith id outcome tick error) σ :=
  sound_recordTransition k placed allowed (fun _ _ => sound_refuse hout)
    (fun _ _ => sound_refuse hout)

/-- What a state named by `classify_move_state` says about the view and the
source name. -/
def Classified (p : Places) (v : View) (A : Option Inode → Prop) :
    MoveState → Prop
  | .notStarted => True
  | .interrupted => p.source ≠ p.staged → v.staged ≠ none
  | .collision => ∃ a b, p.staged ≠ p.source ∧ v.staged = some b ∧ a ≠ b ∧
      ∀ s, A s → s = some a ∨ (s = none ∧ v.ledger.own = [])
  | .completed => ∀ s, A s → s = none
  | .bothMissing => v.staged = none ∧ ∀ s, A s → s = none

theorem sound_classifyMoveState {fromDir toDir : Dir} {fromName toName : Bytes}
    {next : Except Bytes MoveState → Prog α}
    (hsource : p.source = ⟨fromDir, fromName⟩) (htarget : p.staged = ⟨toDir, toName⟩)
    (k : Knows p id v A h σ)
    (failed : ∀ message σ, Sound p id request post (next (.error message)) σ)
    (found : isPlainName toName = true → ∀ state A σ, Classified p v A state →
      Knows p id v A False σ → Sound p id request post (next (.ok state)) σ) :
    Sound p id request post
      ((classifyMoveState fromDir fromName toDir toName).bind next) σ := by
  unfold classifyMoveState
  rw [Program.bind_def, Program.bind_assoc]
  refine sound_classify (fun _ _ _ => rfl) k (fun _ _ σ _ => failed _ σ)
    (fun _ σ _ => failed _ σ) ?_ ?_
  · intro _ σ k hgone
    rw [← hsource] at hgone
    have kgone : Knows p id v (· = none) False σ :=
      ⟨k.view, hgone, fun _ => rfl, False.elim⟩
    simp only
    rw [Program.bind_def, Program.bind_assoc]
    refine sound_classify (fun _ _ _ => rfl) kgone (fun _ _ σ _ => failed _ σ)
      (fun _ σ _ => failed _ σ) ?_ ?_
    · intro hplain σ k hnone
      rw [← htarget] at hnone
      exact found hplain .bothMissing _ σ ⟨k.staged_of_gone ▸ hnone, fun _ hs => hs⟩ k
    · intro hplain object σ k hsome
      have hthere : (FileIdentity.ofStat (σ.world.stat object)).kind ≠ .missing :=
        kindFromMode_ne_missing _
      simp only [FileIdentity.missing, hthere, ne_eq, not_true_eq_false,
        not_false_eq_true, false_and, if_false, if_true]
      exact found hplain .completed _ σ (fun _ hs => hs) k
  · intro _ source σ₁ k hsome
    rw [← hsource] at hsome
    have kthere : Knows p id v
        (fun s => s = some source ∨ (s = none ∧ v.ledger.own = [])) False σ₁ :=
      ⟨k.view, Or.inl hsome, fun hown => Or.inr ⟨rfl, hown⟩, False.elim⟩
    have hs : (FileIdentity.ofStat (σ₁.world.stat source)).kind ≠ .missing :=
      kindFromMode_ne_missing _
    have htype₁ := k.type
    simp only
    rw [Program.bind_def, Program.bind_assoc]
    refine sound_classify (fun _ _ _ => rfl) kthere (fun _ _ σ _ => failed _ σ)
      (fun _ σ _ => failed _ σ) ?_ ?_
    · intro hplain σ k _
      simp only [FileIdentity.missing, hs, ne_eq, not_true_eq_false,
        not_false_eq_true, and_false, if_false, if_true]
      exact found hplain .notStarted _ σ trivial k
    · intro hplain target σ k ht
      rw [← htarget] at ht
      have hthere : (FileIdentity.ofStat (σ.world.stat target)).kind ≠ .missing :=
        kindFromMode_ne_missing _
      simp only [hs, hthere, ne_eq, not_false_eq_true, and_self, if_true]
      by_cases hsame : (FileIdentity.ofStat (σ₁.world.stat source)).sameObjectAs
          (FileIdentity.ofStat (σ.world.stat target)) = true
      · simp only [hsame, if_true]
        refine found hplain .interrupted _ σ ?_ k
        intro hapart
        rw [← k.staged hapart.symm, ht]
        exact Option.some_ne_none target
      · simp only [hsame]
        have hne : source ≠ target := by
          rintro rfl
          apply hsame
          rw [World.stat, World.stat, htype₁, k.type]
          exact sameObjectAs_self _
        have hapart : p.staged ≠ p.source := by
          intro heq
          rw [heq] at ht
          rcases k.source with hsrc | ⟨hsrc, _⟩
          · exact hne (Option.some.inj (hsrc.symm.trans ht))
          · rw [hsrc] at ht
            cases ht
        exact found hplain .collision _ σ ⟨source, target, hapart,
          k.staged hapart ▸ ht, hne, fun _ hs => hs⟩ k

theorem sound_sawEntry {site : Site} {dir : Dir} {name : Bytes}
    {next : Bool → Prog α} (hfinal : p.final = ⟨dir, name⟩)
    (silent : ∀ reply w l, note ⟨site, .fstatat ⟨dir, name⟩⟩ reply w l = l)
    (k : Knows p id v (· = none) h σ)
    (unseen : ∀ σ, Knows p id v (· = none) False σ →
      (v.final = none ∨ σ.faulted = true ∨ isPlainName name = false) →
      Sound p id request post (next false) σ)
    (saw : ∀ σ, Knows p id v (· = none) False σ →
      Sound p id request post (next true) σ) :
    Sound p id request post ((sawEntry site dir name).bind next) σ := by
  unfold sawEntry
  rw [Program.bind_def, Program.bind_assoc]
  refine sound_classify silent k ?_ ?_ ?_ ?_
  · intro hbad _ σ k
    exact unseen σ k (Or.inr (Or.inr hbad))
  · intro _ σ k
    exact unseen σ k.forget (Or.inr (Or.inl (k.faulted trivial)))
  · intro _ σ k hnone
    rw [← hfinal] at hnone
    exact unseen σ k (Or.inl (k.final_of_gone ▸ hnone))
  · intro _ object σ k _
    have hthere : (FileIdentity.ofStat (σ.world.stat object)).kind ≠ .missing :=
      kindFromMode_ne_missing _
    simp only [ne_eq, hthere, not_false_eq_true, decide_true]
    exact saw σ k

theorem sound_redrive {strategy : MoveStrategy} {sourceDir destDir : Dir} {job : Job}
    (placed : placesOf v.root id request = some p)
    (hsource : p.source = ⟨sourceDir, request.sourceName⟩)
    (hstaged : p.staged = ⟨destDir, stagingName id⟩)
    (hfinal : p.final = ⟨destDir, request.destName⟩)
    (plain : isPlainName (stagingName id) = true) (fresh : v.ledger.trusted = none)
    {state : MoveState} (classified : Classified p v A state) (k : Knows p id v A h σ) :
    Sound p id request (Reported id)
      (redrive id request strategy sourceDir destDir job state) σ := by
  cases state with
  | notStarted => exact execute_sound (Or.inl (k.root ▸ placed)) (k.ledger ▸ fresh)
  | interrupted =>
      refine sound_moveWithin placed hsource hstaged fresh k
        (fun hapart hnone => absurd hnone (classified hapart))
        (fun _ σ => sound_haltWith (by decide)) ?_
      intro _ v' σ hroot _ k
      exact sound_finishAfterCommit (hroot ▸ placed) hstaged hfinal plain k
  | completed =>
      exact sound_finishAfterCommit placed hstaged hfinal plain (k.imp classified)
  | collision =>
      obtain ⟨a, b, hapart, hb, hne, hA⟩ := classified
      refine sound_failWith placed (by decide) (k.imp hA) ?_
      intro σ k
      rcases k.source with hsome | ⟨hnone, hown⟩
      · exact Or.inl ⟨a, b, hsome, (k.staged hapart).trans hb, hne⟩
      · exact Or.inr (Or.inl ⟨hnone, k.ledger ▸ hown⟩)
  | bothMissing =>
      obtain ⟨hnone, hA⟩ := classified
      refine sound_sawEntry hfinal (fun _ _ _ => rfl) (k.imp hA) ?_ ?_
      · intro σ₁ k hwhy
        have k' : Knows p id v (· = none) (σ₁.faulted = true) σ₁ :=
          ⟨k.view, k.source, k.vanish, fun hf => hf⟩
        refine sound_failWith placed (by decide) k' ?_
        intro σ k
        refine Or.inr (Or.inr ⟨k.source, k.staged_of_gone.trans hnone, ?_⟩)
        rcases hwhy with hf | hf | hf
        · exact Or.inl (k.final_of_gone.trans hf)
        · exact Or.inr (Or.inl (k.faulted hf))
        · exact Or.inr (Or.inr hf)
      · intro σ k
        exact sound_finishAfterCommit placed hstaged hfinal plain k

/-- Every call of `recover` is a step of the protocol. -/
theorem recover_sound {strategy : MoveStrategy}
    (located : Located p id request σ.world.fs.root)
    (fresh : σ.ledger.trusted = none) :
    Sound p id request (Reported id) (recover id request strategy) σ := by
  have k : Knows p id (σ.view p id) (fun _ => True) False σ :=
    ⟨rfl, trivial, fun _ => trivial, False.elim⟩
  refine sound_openRoot (fun _ _ _ => rfl) k (fun _ σ => sound_refuse (by decide)) ?_
  intro sourceDir σ₁ k hs
  refine sound_openRoot (fun _ _ _ => rfl) k (fun _ σ => sound_refuse (by decide)) ?_
  intro destDir σ₂ k hd
  obtain ⟨placed, hsource, hstaged, hfinal⟩ := located.eq hs hd
  refine sound_classifyMoveState hsource hstaged k
    (fun _ σ => sound_refuse (by decide)) ?_
  intro plain state A' σ₃ classified k
  refine sound_load (fun _ _ _ => rfl) k (fun _ σ => sound_refuse (by decide))
    (fun σ => sound_refuse (by decide)) ?_
  intro job σ₄ k _
  exact sound_redrive placed hsource hstaged hfinal plain fresh classified k

end FileMover
