import FileMover.Framework.Guarded
import FileMover.Framework.Safety
import FileMover.Model.StoreOpen

/-!
# Several connections open one file

Every worker and every manager opens the store with a connection of its own, and nothing
keeps two of them, or two processes, from opening a new file at the same moment. Both then
read version 0 and both run the schema, one after the other, the second one over a store
that may be in use already.

What an `open` may rely on and what it guarantees to the others, call by call, whatever
statements fail: the file gets its schema as a whole or not at all.
-/

namespace FileMover.Store.Opening

open Framework

/-! ## The contents of a file -/

namespace Contents

def Bare (c : Contents) : Prop := c = ⟨0, none, none⟩

/-- The schema is there, with the row of the counter. -/
structure Whole (c : Contents) : Prop where
  version : c.version = kSchemaVersion
  jobs : c.jobs.isSome = true
  sequence : (c.sequence.bind id).isSome = true

def Foreign (c : Contents) : Prop := c.version ≠ 0 ∧ c.version ≠ kSchemaVersion

/-- A file that this program made, or one that it cannot read. -/
def Known (c : Contents) : Prop := (c.Bare ∨ c.Whole) ∨ c.Foreign

/-- What the contents may become: the schema is made, or the rows of a store change. -/
def Later (c c' : Contents) : Prop := c' = c ∨ (c.Bare ∨ c.Whole) ∧ c'.Whole

/-- A store without jobs. -/
def created : Contents := ⟨kSchemaVersion, some ∅, some (some 0)⟩

theorem whole_created : created.Whole := ⟨rfl, rfl, rfl⟩

theorem Later.refl (c : Contents) : c.Later c := .inl rfl

theorem Later.trans {c c' c'' : Contents} (h : c.Later c') (h' : c'.Later c'') :
    c.Later c'' := by
  rcases h' with rfl | ⟨hours', hwhole⟩
  · exact h
  · rcases h with rfl | ⟨hours, -⟩
    · exact .inr ⟨hours', hwhole⟩
    · exact .inr ⟨hours, hwhole⟩

theorem Later.ours {c c' : Contents} (h : c.Later c') (ours : c.Bare ∨ c.Whole) :
    c'.Bare ∨ c'.Whole := by
  rcases h with rfl | ⟨-, hwhole⟩
  · exact ours
  · exact .inr hwhole

theorem Later.whole {c c' : Contents} (h : c.Later c') (whole : c.Whole) : c'.Whole := by
  rcases h with rfl | ⟨-, hwhole⟩
  · exact whole
  · exact hwhole

theorem Later.known {c c' : Contents} (h : c.Later c') (known : c.Known) : c'.Known := by
  rcases h with rfl | ⟨-, hwhole⟩
  · exact known
  · exact .inl (.inr hwhole)

theorem Bare.version {c : Contents} (h : c.Bare) : c.version = 0 := by
  rw [h]

theorem Known.ours {c : Contents} (h : c.Known) (version : c.version = 0) :
    c.Bare ∨ c.Whole :=
  h.resolve_right fun hforeign => hforeign.1 version

theorem Known.whole {c : Contents} (h : c.Known) (version : c.version = kSchemaVersion) :
    c.Whole := by
  rcases h with (hbare | hwhole) | hforeign
  · rw [hbare.version] at version
    exact absurd version (by decide)
  · exact hwhole
  · exact absurd version hforeign.2

/-- The contents of a foreign file do not change. -/
theorem Later.of_foreign {c c' : Contents} (h : c.Later c') (foreign : c.Foreign) :
    c' = c := by
  rcases h with hsame | ⟨hbare | hwhole, -⟩
  · exact hsame
  · exact absurd hbare.version foreign.1
  · exact absurd hwhole.version foreign.2

/-- The transaction of `createSchema`. -/
def withSchema (c : Contents) : Contents :=
  { runSchema kSchemaSql.length c with version := kSchemaVersion }

/-- Over a whole schema the statements of the schema do nothing. -/
theorem withSchema_whole {c : Contents} (h : c.Whole) : c.withSchema = c := by
  obtain ⟨version, jobs, sequence⟩ := c
  obtain ⟨jobs, rfl⟩ := Option.isSome_iff_exists.mp h.jobs
  obtain ⟨next, hnext⟩ := Option.isSome_iff_exists.mp h.sequence
  obtain ⟨row, rfl, hrow⟩ := Option.bind_eq_some_iff.mp hnext
  obtain rfl : row = some next := hrow
  obtain rfl : version = kSchemaVersion := h.version
  rfl

theorem withSchema_bare {c : Contents} (h : c.Bare) : c.withSchema = created := by
  obtain rfl : c = ⟨0, none, none⟩ := h
  rfl

end Contents

/-! ## What a call may do -/

/-- What the file may have become, for a connection that has not changed it. -/
structure File.Later (f f' : File) : Prop where
  wal : f.wal = true → f'.wal = true
  contents : f.contents.Later f'.contents

theorem File.Later.refl (f : File) : f.Later f := ⟨id, .refl _⟩

theorem File.Later.trans {f f' f'' : File} (h : f.Later f') (h' : f'.Later f'') :
    f.Later f'' :=
  ⟨h'.wal ∘ h.wal, h.contents.trans h'.contents⟩

/-- What the others may do between two calls of this connection. -/
structure Rely (n : Nat) (d d' : Disk) : Prop where
  handle : d'.handles n = d.handles n
  lock : d'.writer = some n ↔ d.writer = some n
  file : ∀ f, d.file = some f → ∃ f', d'.file = some f' ∧ f.Later f' ∧
    (d.writer = some n → f'.contents = f.contents)

/-- What a call of this connection may do: apart from its own handle and lock it can only
make the schema of a file that has none. -/
structure Guarantee (n : Nat) (d d' : Disk) : Prop where
  others : ∀ m ≠ n, d'.handles m = d.handles m
  lock : d'.writer = d.writer ∨ d.writer = none ∧ d'.writer = some n ∨
    d.writer = some n ∧ d'.writer = none
  absent : d.file = none → d'.file = none ∨ d'.file = some emptyFile
  file : ∀ f, d.file = some f → ∃ f', d'.file = some f' ∧ (f.wal = true → f'.wal = true) ∧
    (f'.contents = f.contents ∨
      d.writer = some n ∧ f.contents.Bare ∧ f'.contents = Contents.created)

def Sound (d : Disk) : Prop := ∀ f, d.file = some f → f.contents.Known

variable {n m : Nat} {d d' : Disk}

theorem Rely.refl (n : Nat) (d : Disk) : Rely n d d :=
  ⟨rfl, Iff.rfl, fun f hf => ⟨f, hf, .refl f, fun _ => rfl⟩⟩

theorem Rely.trans {a b c : Disk} (h : Rely n a b) (h' : Rely n b c) : Rely n a c where
  handle := h'.handle.trans h.handle
  lock := h'.lock.trans h.lock
  file := by
    intro f hf
    obtain ⟨f', hf', hlater, hkept⟩ := h.file f hf
    obtain ⟨f'', hf'', hlater', hkept'⟩ := h'.file f' hf'
    refine ⟨f'', hf'', hlater.trans hlater', fun hlock => ?_⟩
    rw [hkept' (h.lock.mpr hlock), hkept hlock]

/-- What one connection does is within what every other one relies on. -/
theorem Guarantee.rely (h : Guarantee n d d') (hne : m ≠ n) : Rely m d d' where
  handle := h.others m hne
  lock := by
    rcases h.lock with hsame | ⟨hfree, htaken⟩ | ⟨htaken, hfree⟩
    · rw [hsame]
    · rw [hfree, htaken]
      simp [hne.symm]
    · rw [hfree, htaken]
      simp [hne.symm]
  file := by
    intro f hf
    obtain ⟨f', hf', hwal, hsame | ⟨hwriter, hbare, hcreated⟩⟩ := h.file f hf
    · exact ⟨f', hf', ⟨hwal, .inl hsame⟩, fun _ => hsame⟩
    · refine ⟨f', hf', ⟨hwal, .inr ⟨.inl hbare, ?_⟩⟩, fun hlock => ?_⟩
      · rw [hcreated]
        exact Contents.whole_created
      · -- only the connection that has the lock changes the contents
        rw [hwriter] at hlock
        exact absurd (Option.some.inj hlock).symm hne

theorem Guarantee.later (h : Guarantee n d d') {f : File} (hf : d.file = some f) :
    ∃ f', d'.file = some f' ∧ f.Later f' := by
  obtain ⟨f', hf', hlater, -⟩ := (h.rely (Nat.succ_ne_self n)).file f hf
  exact ⟨f', hf', hlater⟩

theorem Guarantee.sound (h : Guarantee n d d') (sound : Sound d) : Sound d' := by
  intro f' hf'
  cases hfile : d.file with
  | none =>
      rcases h.absent hfile with hnone | hempty
      · rw [hnone] at hf'
        simp at hf'
      · rw [hempty] at hf'
        obtain rfl := Option.some.inj hf'
        exact .inl (.inl rfl)
  | some f =>
      obtain ⟨f'', hf'', hlater⟩ := h.later hfile
      obtain rfl := Option.some.inj (hf'.symm.trans hf'')
      exact hlater.contents.known (sound f hfile)

/-! ### The calls keep the guarantee

All of them do in any state, but for `COMMIT`, which depends on what the transaction has
made of the contents. -/

theorem Guarantee.refl (n : Nat) (d : Disk) : Guarantee n d d :=
  ⟨fun _ _ => rfl, .inl rfl, .inl, fun f hf => ⟨f, hf, id, .inl rfl⟩⟩

theorem guarantee_setHandle (n : Nat) (d : Disk) (h : Option Handle) :
    Guarantee n d (d.setHandle n h) where
  others := fun _ hne => Function.update_of_ne hne _ _
  lock := .inl rfl
  absent := .inl
  file := fun f hf => ⟨f, hf, id, .inl rfl⟩

theorem release_writer (n : Nat) (d : Disk) : (d.release n).writer ≠ some n := by
  show (if d.writer = some n then none else d.writer) ≠ some n
  split <;> simp_all

theorem guarantee_release (n : Nat) (d : Disk) : Guarantee n d (d.release n) where
  others := fun _ hne => Function.update_of_ne hne _ _
  lock := by
    by_cases hlock : d.writer = some n
    · exact .inr (.inr ⟨hlock, if_pos hlock⟩)
    · exact .inl (if_neg hlock)
  absent := .inl
  file := fun f hf => ⟨f, hf, id, .inl rfl⟩

theorem guarantee_close (n : Nat) (d : Disk) : Guarantee n d (d.close n) where
  others := by
    intro m hne
    show Function.update (d.release n).handles n none m = d.handles m
    rw [Function.update_of_ne hne]
    exact (guarantee_release n d).others m hne
  lock := (guarantee_release n d).lock
  absent := .inl
  file := fun f hf => ⟨f, hf, id, .inl rfl⟩

theorem guarantee_write (n : Nat) (d : Disk) (change : Contents → Contents) :
    Guarantee n d (d.write n change) := by
  unfold Disk.write
  split
  · exact guarantee_setHandle n d _
  · exact .refl n d

theorem guarantee_failed (n done : Nat) (statement : Statement) (d : Disk) :
    Guarantee n d (d.failed n done statement) := by
  have hreleased : Guarantee n d (if done = 0 then d else d.release n) := by
    split
    · exact .refl n d
    · exact guarantee_release n d
  cases statement with
  | schema => exact guarantee_write n d _
  | setVersion | commit => exact hreleased
  | foreignKeysOn | journalModeWal | synchronousFull | beginImmediate | rollback =>
      exact .refl n d

theorem guarantee_exec {statement : Statement} (hne : statement ≠ .commit) (n : Nat)
    (d : Disk) : Guarantee n d (d.exec n statement).2 := by
  cases statement with
  | commit => exact absurd rfl hne
  | foreignKeysOn | synchronousFull => exact guarantee_setHandle n d _
  | schema | setVersion => exact guarantee_write n d _
  | rollback => exact guarantee_release n d
  | journalModeWal =>
      refine ⟨fun _ _ => rfl, .inl rfl, fun hnone => .inl ?_, fun f hf => ?_⟩
      · show d.file.map _ = none
        rw [hnone]
        rfl
      · refine ⟨{ f with wal := true }, ?_, fun _ => rfl, .inl rfl⟩
        show d.file.map _ = _
        rw [hf]
        rfl
  | beginImmediate =>
      cases hwriter : d.writer with
      | some holder =>
          have hsame : (d.exec n .beginImmediate).2 = d := by simp [Disk.exec, hwriter]
          rw [hsame]
          exact .refl n d
      | none =>
          refine ⟨fun m hm => ?_, .inr (.inl ⟨hwriter, ?_⟩), fun hnone => .inl ?_,
            fun f hf => ⟨f, ?_, id, .inl rfl⟩⟩
          · simp [Disk.exec, hwriter, Disk.setHandle, Function.update_of_ne hm]
          · simp [Disk.exec, hwriter]
          · simpa [Disk.exec, hwriter, Disk.setHandle] using hnone
          · simpa [Disk.exec, hwriter, Disk.setHandle] using hf

theorem guarantee_openHandle (n : Nat) (d : Disk) (fault : Option SqlFault) :
    Guarantee n d (Disk.perform n .openHandle fault d).2 := by
  have hopened : Guarantee n d { d.setHandle n (some ⟨0, 0, none⟩) with
      file := some (d.file.getD emptyFile) } := by
    refine ⟨(guarantee_setHandle n d _).others, .inl rfl, fun hnone => .inr ?_,
      fun f hf => ⟨f, ?_, id, .inl rfl⟩⟩
    · simp [hnone]
    · simp [hf]
  cases fault with
  | none => exact hopened
  | some fault =>
      cases fault with
      | ignored => exact hopened
      | fails message done => cases done <;> exact guarantee_setHandle n d _

/-- What is considered is a file that the program may meet. -/
def contract (n : Nat) : Contract SqlOp SqlFault Disk where
  rely := Rely n
  rely_refl := Rely.refl n
  rely_trans := Rely.trans
  assume := fun _ _ d => Sound d
  guarantee := fun _ _ d d' => Guarantee n d d'

/-! ## Steps of the code

Nothing is said about a step that fails: whatever it leaves behind, the handle is closed. -/

def onSuccess {α : Type} (Q : α → Disk → Prop) : Except Bytes α → Disk → Prop
  | .ok value, d => Q value d
  | .error _, _ => True

/-- What the others do does not take it away. -/
def Stable (n : Nat) (P : Disk → Prop) : Prop := ∀ d d', Rely n d d' → P d → P d'

section Steps
variable {α β : Type} {Q : α → Disk → Prop} {R : β → Disk → Prop}

theorem stable_onSuccess (stable : ∀ value, Stable n (Q value)) (result : Except Bytes α) :
    Stable n (onSuccess Q result) := by
  intro d d' hrely h
  cases result with
  | error _ => trivial
  | ok value => exact stable value d d' hrely h

theorem onSuccess_mapError {result : Except Bytes α} {f : Bytes → Bytes} :
    onSuccess Q (result.mapError f) d ↔ onSuccess Q result d := by
  cases result <;> rfl

theorem safe_error (error : Bytes) (d : Disk) :
    (Program.pure (.error error) : OpenProg (Except Bytes α)).Safe (sqlite n) (contract n)
      (onSuccess Q) d :=
  fun _ _ => trivial

theorem safe_ok {value : α} (stable : Stable n (Q value)) (h : Q value d) :
    (Program.pure (.ok value) : OpenProg (Except Bytes α)).Safe (sqlite n) (contract n)
      (onSuccess Q) d :=
  fun d' hrely => stable d d' hrely h

theorem safe_orFail {first : OpenProg (Except Bytes α)}
    {rest : α → OpenProg (Except Bytes β)}
    (safe : first.Safe (sqlite n) (contract n) (onSuccess Q) d)
    (next : ∀ value d', Q value d' →
      (rest value).Safe (sqlite n) (contract n) (onSuccess R) d') :
    (orFail first rest).Safe (sqlite n) (contract n) (onSuccess R) d := by
  apply safe.bind
  rintro (error | value) d' h
  · exact safe_error error d'
  · exact next value d' h

end Steps

/-- A call that looks and changes nothing: it answers, or it fails. -/
theorem safe_looks {α : Type} {Q : α → Disk → Prop} {op : SqlOp}
    {next : SqlReply op → OpenProg (Except Bytes α)} {answer : Disk → α}
    (looks : ∀ fault d', (Disk.perform n op fault d').2 = d' ∧
      (next (Disk.perform n op fault d').1 = .pure (.ok (answer d')) ∨
        ∃ error, next (Disk.perform n op fault d').1 = .pure (.error error)))
    (stable : ∀ value, Stable n (Q value))
    (here : ∀ d', Rely n d d' → Q (answer d') d') :
    (Program.call op next).Safe (sqlite n) (contract n) (onSuccess Q) d := by
  intro d' hrely fault _
  obtain ⟨hsame, hnext⟩ := looks fault d'
  show Guarantee n d' (Disk.perform n op fault d').2 ∧
    (next (Disk.perform n op fault d').1).Safe (sqlite n) (contract n) (onSuccess Q)
      (Disk.perform n op fault d').2
  rw [hsame]
  refine ⟨.refl n d', ?_⟩
  rcases hnext with hnext | ⟨error, hnext⟩
  · rw [hnext]
    exact safe_ok (stable _) (here d' hrely)
  · rw [hnext]
    exact safe_error error d'

theorem safe_queryText {Q : Bytes → Disk → Prop} (query : TextQuery)
    (stable : ∀ value, Stable n (Q value))
    (here : ∀ d', Rely n d d' → Q (d'.answerText query) d') :
    (queryText query).Safe (sqlite n) (contract n) (onSuccess Q) d := by
  apply safe_looks _ stable here
  rintro (_ | ⟨message, done⟩ | _) d'
  · exact ⟨rfl, .inl rfl⟩
  · exact ⟨rfl, .inr ⟨_, rfl⟩⟩
  · exact ⟨rfl, .inl rfl⟩

theorem safe_queryInt {Q : Int → Disk → Prop} (query : IntQuery)
    (stable : ∀ value, Stable n (Q value))
    (here : ∀ d', Rely n d d' → Q (d'.answerInt n query) d') :
    (queryInt query).Safe (sqlite n) (contract n) (onSuccess Q) d := by
  apply safe_looks _ stable here
  rintro (_ | ⟨message, done⟩ | _) d'
  · exact ⟨rfl, .inl rfl⟩
  · exact ⟨rfl, .inr ⟨_, rfl⟩⟩
  · exact ⟨rfl, .inl rfl⟩

/-- A statement is executed, or accepted without effect, or fails. -/
theorem perform_exec (n : Nat) (statement : Statement) (fault : Option SqlFault) (d : Disk) :
    Disk.perform n (.exec statement) fault d = d.exec n statement ∨
      statement.isSetting = true ∧ Disk.perform n (.exec statement) fault d = (.ok (), d) ∨
      ∃ message done, Disk.perform n (.exec statement) fault d =
        (.error message, d.failed n done statement) := by
  rcases fault with _ | ⟨message, done⟩ | _
  · exact .inl rfl
  · exact .inr (.inr ⟨message, done, rfl⟩)
  · by_cases hsetting : statement.isSetting = true
    · exact .inr (.inl ⟨hsetting, if_pos hsetting⟩)
    · exact .inl (if_neg hsetting)

theorem safe_exec {P Q : Disk → Prop} {statement : Statement} (what : Bytes)
    (stable : Stable n P) (stable' : Stable n Q) (h : P d)
    (guarantee : ∀ d', P d' → Guarantee n d' (d'.exec n statement).2)
    (done : ∀ d', P d' → (d'.exec n statement).1 = .ok () → Q (d'.exec n statement).2)
    (ignored : statement.isSetting = true → ∀ d', P d' → Q d') :
    (exec statement what).Safe (sqlite n) (contract n) (onSuccess fun _ => Q) d := by
  intro d' hrely fault _
  have hP := stable d d' hrely h
  show Guarantee n d' (Disk.perform n (.exec statement) fault d').2 ∧
    ∀ d'', Rely n (Disk.perform n (.exec statement) fault d').2 d'' →
      onSuccess (fun _ => Q) (Except.mapError _ (Disk.perform n (.exec statement) fault d').1) d''
  rcases perform_exec n statement fault d' with hout | ⟨hsetting, hout⟩ | ⟨message, part, hout⟩
  · rw [hout]
    refine ⟨guarantee d' hP, fun d'' hrely' => onSuccess_mapError.mpr ?_⟩
    apply stable_onSuccess (fun _ => stable') _ _ _ hrely'
    cases hresult : (d'.exec n statement).1 with
    | error _ => trivial
    | ok value => exact done d' hP hresult
  · rw [hout]
    exact ⟨.refl n d', fun d'' hrely' => stable' d' d'' hrely' (ignored hsetting d' hP)⟩
  · rw [hout]
    exact ⟨guarantee_failed n part statement d', fun _ _ => trivial⟩

/-! ## Without a transaction -/

/-- A handle outside a transaction, and what is known of it and of the file. -/
structure Tuned (n : Nat) (p : Handle → Prop) (q : File → Prop) (d : Disk) : Prop where
  handle : ∃ h, d.handles n = some h ∧ h.transaction = none ∧ p h
  lock : d.writer ≠ some n
  file : ∃ f, d.file = some f ∧ f.contents.Known ∧ q f

theorem stable_tuned {p : Handle → Prop} {q : File → Prop}
    (later : ∀ f f' : File, f.Later f' → q f → q f') : Stable n (Tuned n p q) := by
  intro d d' hrely h
  obtain ⟨f, hf, hknown, hq⟩ := h.file
  obtain ⟨f', hf', hlater, -⟩ := hrely.file f hf
  refine ⟨?_, fun hlock => h.lock (hrely.lock.mp hlock), f', hf',
    hlater.contents.known hknown, later f f' hlater hq⟩
  rw [hrely.handle]
  exact h.handle

abbrev Idle (n : Nat) : Disk → Prop := Tuned n (fun _ => True) (fun _ => True)

theorem stable_idle : Stable n (Idle n) := stable_tuned fun _ _ _ => id

/-- The two settings of a connection. -/
def Handle.Settled (h : Handle) : Prop := h.synchronous = 2 ∧ h.foreignKeys = 1

abbrev Ready (n : Nat) : Disk → Prop := Tuned n Handle.Settled (fun f => f.wal = true)

theorem stable_ready : Stable n (Ready n) := stable_tuned fun _ _ hlater => hlater.wal

/-- What `open` is to leave behind. -/
abbrev Prepared (n : Nat) : Disk → Prop :=
  Tuned n Handle.Settled (fun f => f.wal = true ∧ f.contents.Whole)

theorem stable_prepared : Stable n (Prepared n) :=
  stable_tuned fun _ _ hlater h => ⟨hlater.wal h.1, hlater.contents.whole h.2⟩

theorem safe_setting {statement : Statement} (hsetting : statement.isSetting = true)
    (what : Bytes) (h : Idle n d) :
    (exec statement what).Safe (sqlite n) (contract n) (onSuccess fun _ => Idle n) d := by
  apply safe_exec what stable_idle stable_idle h
  · intro d' _
    apply guarantee_exec
    rintro rfl
    exact absurd hsetting (by decide)
  · rintro d' ⟨⟨handle, hhandle, htransaction, -⟩, hlock, f, hf, hknown, -⟩ -
    cases statement with
    | foreignKeysOn =>
        refine ⟨⟨{ handle with foreignKeys := 1 }, ?_, htransaction, trivial⟩, hlock, f, hf,
          hknown, trivial⟩
        simp [Disk.exec, Disk.setHandle, hhandle]
    | synchronousFull =>
        refine ⟨⟨{ handle with synchronous := 2 }, ?_, htransaction, trivial⟩, hlock, f, hf,
          hknown, trivial⟩
        simp [Disk.exec, Disk.setHandle, hhandle]
    | journalModeWal =>
        refine ⟨⟨handle, hhandle, htransaction, trivial⟩, hlock, { f with wal := true }, ?_,
          hknown, trivial⟩
        simp [Disk.exec, hf]
    | beginImmediate | schema | setVersion | commit | rollback =>
        exact absurd hsetting (by decide)
  · exact fun _ _ => id

theorem safe_configure (h : Idle n d) :
    configure.Safe (sqlite n) (contract n) (onSuccess fun _ => Idle n) d := by
  apply safe_orFail (safe_setting rfl _ h)
  intro _ d' h'
  apply safe_orFail (safe_setting rfl _ h')
  intro _ d'' h''
  exact safe_setting rfl _ h''

/-- A setting is read back, and the rest is reached with the value that is expected. -/
theorem safe_expects (field : Handle → Int) {p : Handle → Prop} {q : File → Prop}
    {query : IntQuery} {expected : Int} {message : Int → Bytes}
    {rest : OpenProg (Except Bytes Unit)} {Q : Unit → Disk → Prop}
    (answer : ∀ (d : Disk) handle, d.handles n = some handle →
      d.answerInt n query = field handle)
    (later : ∀ f f' : File, f.Later f' → q f → q f') (h : Tuned n p q d)
    (next : ∀ d', Tuned n (fun handle => p handle ∧ field handle = expected) q d' →
      rest.Safe (sqlite n) (contract n) (onSuccess Q) d') :
    (orFail (queryInt query) fun value =>
      if value ≠ expected then .pure (.error (message value)) else rest).Safe
        (sqlite n) (contract n) (onSuccess Q) d := by
  apply safe_orFail (Q := fun value => Tuned n (fun handle => p handle ∧ field handle = value) q)
  · refine safe_queryInt _ (fun value => stable_tuned later) fun d' hrely => ?_
    obtain ⟨⟨handle, hhandle, htransaction, hp⟩, hlock, hfile⟩ :=
      stable_tuned later d d' hrely h
    exact ⟨⟨handle, hhandle, htransaction, hp, (answer d' handle hhandle).symm⟩, hlock, hfile⟩
  intro value d' h'
  by_cases hvalue : value = expected
  · rw [if_neg (not_not.mpr hvalue)]
    subst hvalue
    exact next d' h'
  · rw [if_pos hvalue]
    exact safe_error _ d'

theorem safe_journalMode {message : Bytes → Bytes} {rest : OpenProg (Except Bytes Unit)}
    {Q : Unit → Disk → Prop} (h : Idle n d)
    (next : ∀ d', Tuned n (fun _ => True) (fun f => f.wal = true) d' →
      rest.Safe (sqlite n) (contract n) (onSuccess Q) d') :
    (orFail (queryText .journalMode) fun mode =>
      if mode ≠ lit "wal" then .pure (.error (message mode)) else rest).Safe
        (sqlite n) (contract n) (onSuccess Q) d := by
  apply safe_orFail (Q := fun mode => Tuned n (fun _ => True) fun f =>
    mode = lit "wal" → f.wal = true)
  · refine safe_queryText _ (fun mode => stable_tuned ?_) fun d' hrely => ?_
    · exact fun f f' hlater hq hmode => hlater.wal (hq hmode)
    obtain ⟨hhandle, hlock, f, hf, hknown, -⟩ := stable_idle d d' hrely h
    refine ⟨hhandle, hlock, f, hf, hknown, fun hmode => ?_⟩
    by_contra hwal
    have hdelete : d'.answerText .journalMode = lit "delete" := by
      simp [Disk.answerText, hf, hwal]
    rw [hdelete] at hmode
    exact absurd hmode (by decide)
  intro mode d' h'
  by_cases hmode : mode = lit "wal"
  · rw [if_neg (not_not.mpr hmode)]
    obtain ⟨hhandle, hlock, f, hf, hknown, hwal⟩ := h'
    exact next d' ⟨hhandle, hlock, f, hf, hknown, hwal hmode⟩
  · rw [if_pos hmode]
    exact safe_error _ d'

/-- Whatever the `PRAGMA` statements did, a connection that gets past here has its
settings. -/
theorem safe_readBack (h : Idle n d) :
    readBack.Safe (sqlite n) (contract n) (onSuccess fun _ => Ready n) d := by
  have later : ∀ f f' : File, f.Later f' → f.wal = true → f'.wal = true :=
    fun _ _ hlater => hlater.wal
  apply safe_journalMode h
  intro d₁ h₁
  apply safe_expects Handle.synchronous _ later h₁
  · intro d₂ h₂
    apply safe_expects Handle.foreignKeys _ later h₂
    · rintro d₃ ⟨⟨handle, hhandle, htransaction, ⟨-, hsync⟩, hforeign⟩, hlock, hfile⟩
      exact safe_ok stable_ready
        ⟨⟨handle, hhandle, htransaction, hsync, hforeign⟩, hlock, hfile⟩
    · intro d handle hhandle
      simp [Disk.answerInt, hhandle]
  · intro d handle hhandle
    simp [Disk.answerInt, hhandle]

theorem safe_checkIntegrity (path : Bytes) (h : Idle n d) :
    (checkIntegrity path).Safe (sqlite n) (contract n) (onSuccess fun _ => Idle n) d := by
  have hquery := safe_queryText (Q := fun _ => Idle n) .integrityCheck (fun _ => stable_idle)
    fun d' hrely => stable_idle d d' hrely h
  apply hquery.bind
  rintro (error | verdict) d' h'
  · exact safe_error _ d'
  · show Program.Safe _ _ _ (if verdict ≠ lit "ok" then _ else _) d'
    split
    · exact safe_error _ d'
    · exact safe_ok stable_idle h'

/-! ## The transaction -/

/-- The connection has the write lock, and its transaction has made this of the
contents. -/
def Locked (n : Nat) (change : Contents → Contents) (d : Disk) : Prop :=
  d.writer = some n ∧ ∃ f, d.file = some f ∧ (f.contents.Bare ∨ f.contents.Whole) ∧
    f.wal = true ∧ d.handles n = some ⟨1, 2, some (change f.contents)⟩

theorem stable_locked {change : Contents → Contents} : Stable n (Locked n change) := by
  rintro d d' hrely ⟨hlock, f, hf, hours, hwal, hhandle⟩
  obtain ⟨f', hf', hlater, hkept⟩ := hrely.file f hf
  have hsame := hkept hlock
  refine ⟨hrely.lock.mpr hlock, f', hf', ?_, hlater.wal hwal, ?_⟩
  · rw [hsame]
    exact hours
  · rw [hrely.handle, hsame]
    exact hhandle

theorem locked_write {change : Contents → Contents} (h : Locked n change d)
    (more : Contents → Contents) : Locked n (fun c => more (change c)) (d.write n more) := by
  obtain ⟨hlock, f, hf, hours, hwal, hhandle⟩ := h
  have hwrite : d.write n more =
      d.setHandle n (some ⟨1, 2, some (more (change f.contents))⟩) := by
    simp [Disk.write, hhandle]
  rw [hwrite]
  exact ⟨hlock, f, hf, hours, hwal, Function.update_self _ _ _⟩

theorem commit_of_locked (h : Locked n Contents.withSchema d) :
    Guarantee n d (d.commit n) ∧ Prepared n (d.commit n) := by
  obtain ⟨hlock, f, hf, hours, hwal, hhandle⟩ := h
  have hcommit : d.commit n =
      { d.release n with file := some { f with contents := f.contents.withSchema } } := by
    simp [Disk.commit, hhandle, hf]
  -- the version read before may be stale: another connection has made the schema meanwhile
  have hmade : f.contents.withSchema = f.contents ∧ f.contents.Whole ∨
      f.contents.withSchema = Contents.created ∧ f.contents.Bare := by
    rcases hours with hbare | hwhole
    · exact .inr ⟨Contents.withSchema_bare hbare, hbare⟩
    · exact .inl ⟨Contents.withSchema_whole hwhole, hwhole⟩
  have hwhole : f.contents.withSchema.Whole := by
    rcases hmade with ⟨hsame, hwhole⟩ | ⟨hcreated, -⟩
    · rw [hsame]
      exact hwhole
    · rw [hcreated]
      exact Contents.whole_created
  rw [hcommit]
  constructor
  · refine ⟨(guarantee_release n d).others, (guarantee_release n d).lock, fun hnone => ?_,
      fun f' hf' => ?_⟩
    · rw [hf] at hnone
      exact absurd hnone (by simp)
    · obtain rfl := Option.some.inj (hf.symm.trans hf')
      refine ⟨_, rfl, id, ?_⟩
      exact hmade.imp (·.1) fun h => ⟨hlock, h.2, h.1⟩
  · refine ⟨⟨⟨1, 2, none⟩, ?_, rfl, rfl, rfl⟩, release_writer n d, _, rfl,
      .inl (.inr hwhole), hwal, hwhole⟩
    simp [Disk.release, hhandle]

theorem locked_begin
    (h : Tuned n Handle.Settled (fun f => f.wal = true ∧ (f.contents.Bare ∨ f.contents.Whole)) d)
    (hok : (d.exec n .beginImmediate).1 = .ok ()) :
    Locked n id (d.exec n .beginImmediate).2 := by
  obtain ⟨⟨⟨foreignKeys, synchronous, transaction⟩, hhandle, -, hsync, hforeign⟩, -, f, hf, -,
    hwal, hours⟩ := h
  obtain rfl : synchronous = 2 := hsync
  obtain rfl : foreignKeys = 1 := hforeign
  cases hwriter : d.writer with
  | some holder => simp [Disk.exec, hwriter] at hok
  | none =>
      refine ⟨?_, f, ?_, hours, hwal, ?_⟩
      · simp [Disk.exec, hwriter]
      · simpa [Disk.exec, hwriter, Disk.setHandle] using hf
      · simp [Disk.exec, hwriter, Disk.setHandle, hhandle, hf]

theorem safe_createSchema
    (h : Tuned n Handle.Settled
      (fun f => f.wal = true ∧ (f.contents.Bare ∨ f.contents.Whole)) d) :
    createSchema.Safe (sqlite n) (contract n) (onSuccess fun _ => Prepared n) d := by
  have hmade : (orFail (exec .beginImmediate (lit "beginning schema creation")) fun _ =>
      orFail (exec .schema (lit "applying schema")) fun _ =>
        orFail (exec .setVersion (lit "recording schema version")) fun _ =>
          exec .commit (lit "committing schema creation")).Safe (sqlite n) (contract n)
      (onSuccess fun _ => Prepared n) d := by
    apply safe_orFail (Q := fun _ => Locked n id)
    · apply safe_exec _ _ stable_locked h
      · exact fun d' _ => guarantee_exec (by rintro ⟨⟩) n d'
      · exact fun d' h' hok => locked_begin h' hok
      · exact fun hsetting => absurd hsetting (by decide)
      · exact stable_tuned fun _ _ hlater h => ⟨hlater.wal h.1, hlater.contents.ours h.2⟩
    intro _ d₁ h₁
    apply safe_orFail (Q := fun _ => Locked n (runSchema kSchemaSql.length))
    · apply safe_exec _ stable_locked stable_locked h₁
      · exact fun d' _ => guarantee_exec (by rintro ⟨⟩) n d'
      · exact fun d' h' _ => locked_write h' _
      · exact fun hsetting => absurd hsetting (by decide)
    intro _ d₂ h₂
    apply safe_orFail (Q := fun _ => Locked n Contents.withSchema)
    · apply safe_exec _ stable_locked stable_locked h₂
      · exact fun d' _ => guarantee_exec (by rintro ⟨⟩) n d'
      · exact fun d' h' _ => locked_write h' _
      · exact fun hsetting => absurd hsetting (by decide)
    intro _ d₃ h₃
    apply safe_exec _ stable_locked stable_prepared h₃
    · exact fun d' h' => (commit_of_locked h').1
    · exact fun d' h' _ => (commit_of_locked h').2
    · exact fun hsetting => absurd hsetting (by decide)
  apply hmade.bind
  rintro (error | value) d' h'
  · -- the rollback may fail as well; nothing depends on it
    have hrollback : (exec .rollback (lit "rolling back")).Safe (sqlite n) (contract n)
        (onSuccess fun _ _ => True) d' := by
      apply safe_exec (P := fun _ => True) _ (fun _ _ _ => id) (fun _ _ _ => id) trivial
      · exact fun d'' _ => guarantee_exec (by rintro ⟨⟩) n d''
      · exact fun _ _ _ => trivial
      · exact fun _ _ _ => trivial
    exact hrollback.bind fun _ d'' _ => safe_error error d''
  · exact safe_ok stable_prepared h'

theorem safe_ensureSchema (h : Ready n d) :
    ensureSchema.Safe (sqlite n) (contract n) (onSuccess fun _ => Prepared n) d := by
  apply safe_orFail (Q := fun version => Tuned n Handle.Settled fun f => f.wal = true ∧
    (version = 0 → f.contents.Bare ∨ f.contents.Whole) ∧
    (version = kSchemaVersion → f.contents.Whole))
  · refine safe_queryInt _ (fun _ => stable_tuned fun f f' hlater hq => ?_) fun d' hrely => ?_
    · exact ⟨hlater.wal hq.1, fun hv => hlater.contents.ours (hq.2.1 hv),
        fun hv => hlater.contents.whole (hq.2.2 hv)⟩
    obtain ⟨⟨handle, hhandle, htransaction, hsettled⟩, hlock, f, hf, hknown, hwal⟩ :=
      stable_ready d d' hrely h
    have hversion : d'.answerInt n .userVersion = f.contents.version := by
      simp [Disk.answerInt, Disk.contents, hhandle, htransaction, hf]
    rw [hversion]
    exact ⟨⟨handle, hhandle, htransaction, hsettled⟩, hlock, f, hf, hknown, hwal,
      hknown.ours, hknown.whole⟩
  rintro version d' ⟨hhandle, hlock, f, hf, hknown, hwal, hours, hwhole⟩
  -- a foreign version, a file without the schema, and one that has it
  split
  · exact safe_error _ d'
  rename_i hversion
  split
  · rename_i hzero
    exact safe_createSchema ⟨hhandle, hlock, f, hf, hknown, hwal, hours hzero⟩
  · rename_i hzero
    have hone : version = kSchemaVersion := by
      by_contra hother
      exact hversion ⟨hzero, hother⟩
    exact safe_ok stable_prepared ⟨hhandle, hlock, f, hf, hknown, hwal, hwhole hone⟩

/-! ## The whole of `open` -/

def Closed (n : Nat) (d : Disk) : Prop := d.handles n = none ∧ d.writer ≠ some n

theorem stable_closed : Stable n (Closed n) := by
  rintro d d' hrely ⟨hhandle, hlock⟩
  exact ⟨hrely.handle.trans hhandle, fun hlock' => hlock (hrely.lock.mp hlock')⟩

theorem closed_close (n : Nat) (d : Disk) : Closed n (d.close n) :=
  ⟨Function.update_self _ _ _, release_writer n d⟩

/-- An `open` that fails leaves nothing behind. -/
def Opened (n : Nat) : Except Bytes StoreOpenResult → Disk → Prop
  | .ok _, d => Prepared n d
  | .error _, d => Closed n d

theorem safe_close {α : Type} {post : α → Disk → Prop} {next : Unit → OpenProg α}
    (rest : ∀ d', Closed n d' → (next ()).Safe (sqlite n) (contract n) post d') :
    (Program.call SqlOp.close next).Safe (sqlite n) (contract n) post d := by
  intro d' _ fault _
  exact ⟨guarantee_close n d', rest _ (closed_close n d')⟩

theorem safe_failed (error : Bytes) (h : Closed n d) :
    (Program.pure (.error error) : OpenProg (Except Bytes StoreOpenResult)).Safe
      (sqlite n) (contract n) (Opened n) d :=
  fun d' hrely => stable_closed d d' hrely h

theorem safe_prepare (path : Bytes) (existed : Bool) (h : Idle n d) :
    (prepare path existed).Safe (sqlite n) (contract n) (onSuccess fun _ => Prepared n) d := by
  apply safe_orFail (Q := fun _ => Idle n)
  · cases existed with
    | true => exact safe_checkIntegrity path h
    | false => exact safe_ok stable_idle h
  intro _ d₁ h₁
  apply safe_orFail (safe_configure h₁)
  intro _ d₂ h₂
  apply safe_orFail (safe_readBack h₂)
  intro _ d₃ h₃
  exact safe_ensureSchema h₃

theorem idle_openHandle (h : Closed n d) (sound : Sound d) :
    Idle n { d.setHandle n (some ⟨0, 0, none⟩) with file := some (d.file.getD emptyFile) } := by
  refine ⟨⟨_, Function.update_self _ _ _, rfl, trivial⟩, h.2, _, rfl, ?_, trivial⟩
  cases hf : d.file with
  | none => exact .inl (.inl rfl)
  | some f => exact sound f hf

theorem safe_openAt (path : Bytes) (existed : Bool) (h : Closed n d) :
    (openAt path existed).Safe (sqlite n) (contract n) (Opened n) d := by
  intro d' hrely fault sound
  have hclosed := stable_closed d d' hrely h
  refine ⟨guarantee_openHandle n d' fault, ?_⟩
  have hopened : ∀ d'', Idle n d'' → ((prepare path existed).bind (keepOrClose existed)).Safe
      (sqlite n) (contract n) (Opened n) d'' := by
    intro d'' hidle
    apply (safe_prepare path existed hidle).bind
    rintro (error | value) d₁ h₁
    · exact safe_close fun d₂ hclosed => safe_failed error hclosed
    · exact fun d₂ hrely => stable_prepared d₁ d₂ hrely h₁
  rcases fault with _ | ⟨message, done⟩ | _
  · exact hopened _ (idle_openHandle hclosed sound)
  · -- `sqlite3_open_v2` may fail with and without a handle
    cases done with
    | zero => exact safe_failed _ ⟨Function.update_self _ _ _, hclosed.2⟩
    | succ _ => exact safe_close fun d₂ hclosed => safe_failed _ hclosed
  · exact hopened _ (idle_openHandle hclosed sound)

theorem safe_openStore (n : Nat) (path : Bytes) (d : Disk) :
    (openStore path).Safe (sqlite n) (contract n) (Opened n) d := by
  apply safe_close
  intro d₁ hclosed d₂ hrely fault _
  have hopenAt := fun existed => safe_openAt path existed (stable_closed d₁ d₂ hrely hclosed)
  cases fault with
  | none => exact ⟨.refl n d₂, hopenAt _⟩
  | some _ => exact ⟨.refl n d₂, hopenAt _⟩

end FileMover.Store.Opening
