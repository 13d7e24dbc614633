import FileMover.Model.Calls

/-!
# What a call does to one row and to one name

A call is one statement or one system call. Each lemma here says all that it can do to a
row that is there, or to a name that is free, so that what a program keeps can be read
off the calls it makes.
-/

namespace FileMover

variable {w : World} {op : Op} {fault : Option Fault} {id : Bytes} {r : Row} {slot : Slot}

/-! ## Rows -/

/-- What a call can do to a row that is there. -/
inductive RowStep (op : Op) (id : Bytes) (r : Row) : Row → Prop
  | same : RowStep op id r r
  | updated {id' : Bytes} {before after : Job}
      {check : (Database.written r.job after).error ≠ [] ↔
        (Database.written r.job after).state = .failed}
      (op_eq : op = .updateJob id' before after) (key : cstr id = cstr id') :
      RowStep op id r { r with job := Database.written r.job after, check := check }
  | flagged {id' reason : Bytes} (op_eq : op = .flagJob id' reason) (key : cstr id = cstr id') :
      RowStep op id r { r with needsAttention := true, attentionReason := cstr reason }
  | counted {id' : Bytes} {nextRetryMs : Int} {reason : Bytes}
      (op_eq : op = .countAttempt id' nextRetryMs reason) (key : cstr id = cstr id') :
      RowStep op id r { r with
        attempts := r.attempts + 1
        nextRetryMs := nextRetryMs
        lastError := cstr reason }

/-- A row is replaced by what has become of it, or is another one. -/
theorem Database.row_setRow_step {db : Database} {id' : Bytes} {old new : Row}
    (hold : db.row id' = some old) (step : cstr id = cstr id' → RowStep op id old new)
    (hr : db.row id = some r) :
    ∃ r', (db.setRow id' new).row id = some r' ∧ RowStep op id r r' := by
  by_cases hkey : cstr id = cstr id'
  · rw [Database.row_congr hkey, hold] at hr
    cases hr
    exact ⟨new, Database.row_setRow_of_key_eq hkey, step hkey⟩
  · exact ⟨r, (Database.row_setRow_ne hkey).trans hr, .same⟩

theorem answer_row (hr : w.db.row id = some r) :
    ∃ r', (answer op w).2.db.row id = some r' ∧ RowStep op id r r' := by
  by_cases hnames : op.movesNames = true
  · have hdb : (answer op w).2.db = w.db := perform_movesNames hnames none w
    rw [hdb]
    exact ⟨r, hr, .same⟩
  cases op with
  | insertJob job retryOf =>
      simp only [answer, World.onDb]
      split
      · exact ⟨r, hr, .same⟩
      · rename_i db' hdb
        obtain ⟨hnone, new, -, -, -, rfl⟩ := Database.insertJob_ok hdb
        have hkey : cstr id ≠ cstr job.id := by
          intro hkey
          rw [Database.row_congr hkey, hnone] at hr
          cases hr
        exact ⟨r, (Database.row_setRow_ne hkey).trans hr, .same⟩
  | updateJob id' before after =>
      simp only [answer, World.onDb, Database.updateJob]
      split
      · exact ⟨r, hr, .same⟩
      · rename_i db' hdb
        split at hdb
        · cases hdb
          exact ⟨r, hr, .same⟩
        · rename_i old hold
          split at hdb
          · cases hdb
            exact Database.row_setRow_step hold (fun key => .updated rfl key) hr
          · cases hdb
  | flagJob id' reason =>
      simp only [answer, Database.flag]
      split
      · exact ⟨r, hr, .same⟩
      · rename_i old hold
        exact Database.row_setRow_step hold (fun key => .flagged rfl key) hr
  | countAttempt id' nextRetryMs reason =>
      simp only [answer, Database.countAttempt]
      split
      · exact ⟨r, hr, .same⟩
      · rename_i old hold
        exact Database.row_setRow_step hold (fun key => .counted rfl key) hr
  | renameat2 | linkat | unlinkat | renameat => exact absurd rfl hnames
  | _ =>
      rw [answer_readOnly rfl]
      exact ⟨r, hr, .same⟩

/-- A row that is there stays there, and becomes what the call makes of it. -/
theorem perform_row (hr : w.db.row id = some r) :
    ∃ r', (perform op fault w).2.db.row id = some r' ∧ RowStep op id r r' := by
  rcases perform_cases op fault w with ⟨e, _, heq⟩ | heq
  · rw [heq]
    exact ⟨r, hr, .same⟩
  · rw [heq]
    exact answer_row hr

/-- Only one statement writes the retry columns. -/
theorem RowStep.schedule {r' : Row} (step : RowStep op id r r')
    (other : ∀ id' nextRetryMs reason, op = .countAttempt id' nextRetryMs reason →
      cstr id ≠ cstr id') : r'.attempts = r.attempts ∧ r'.nextRetryMs = r.nextRetryMs := by
  cases step with
  | counted op_eq key => exact absurd key (other _ _ _ op_eq)
  | _ => exact ⟨rfl, rfl⟩

/-- An insert that goes through makes a row that was not there, and no other. -/
theorem perform_insert {job : Job} {retryOf : Bytes}
    (h : (perform (.insertJob job retryOf) fault w).1 = .ok ()) :
    w.db.row job.id = none ∧ ∃ r, r.job = Database.bound job ∧ r.retryOf = cstr retryOf ∧
      r.attempts = 0 ∧ (perform (.insertJob job retryOf) fault w).2.db = w.db.setRow job.id r := by
  rcases perform_cases (.insertJob job retryOf) fault w with ⟨e, _, heq⟩ | heq
  · rw [heq] at h
    cases h
  · rw [heq] at h ⊢
    simp only [answer, World.onDb] at h ⊢
    split at h
    · cases h
    · rename_i db' hdb
      obtain ⟨hnone, r, hjob, hretry, hattempts, rfl⟩ := Database.insertJob_ok hdb
      exact ⟨hnone, r, hjob, hretry, hattempts, rfl⟩

/-! ## Names -/

/-- The name that a call gives to an object. -/
def Op.target : Op → Option Slot
  | .renameat2 _ target | .linkat _ target | .renameat _ target => some target
  | _ => none

theorem target_of_movesNames {op : Op} (h : op.movesNames = false) : op.target = none := by
  cases op with
  | renameat2 | linkat | renameat => cases h
  | _ => rfl

/-- No call changes what the paths of the roots resolve to. -/
theorem perform_root (op : Op) (fault : Option Fault) (w : World) :
    (perform op fault w).2.fs.root = w.fs.root := by
  by_cases hnames : op.movesNames = true
  · rcases perform_cases op fault w with ⟨e, _, heq⟩ | heq
    · rw [heq]
    · rw [heq]
      cases op with
      | renameat2 source target =>
          simp only [answer, World.onFs]
          split
          · rfl
          · rename_i fs' h
            obtain ⟨_, _, _, rfl⟩ := Filesystem.renameNoReplace_ok h
            rfl
      | linkat source target =>
          simp only [answer, World.onFs]
          split
          · rfl
          · rename_i fs' h
            obtain ⟨_, _, _, rfl⟩ := Filesystem.link_ok h
            rfl
      | unlinkat slot =>
          simp only [answer, World.onFs]
          split
          · rfl
          · rename_i fs' h
            obtain ⟨_, _, rfl⟩ := Filesystem.unlink_ok h
            rfl
      | renameat source target =>
          simp only [answer, World.onFs]
          split
          · rfl
          · rename_i fs' h
            obtain ⟨_, _, ⟨_, rfl⟩ | ⟨_, rfl⟩⟩ := Filesystem.rename_ok h
            · rfl
            · rfl
      | _ => cases hnames
  · rw [perform_fs (Bool.eq_false_of_not_eq_true hnames)]

/-- A name that is free and that the call does not give away stays free. -/
theorem perform_free (free : w.fs.entry slot = none) (other : op.target ≠ some slot) :
    (perform op fault w).2.fs.entry slot = none := by
  have hput : ∀ {fs : Filesystem} {target : Slot} {inode : Inode}, some target ≠ some slot →
      fs.entry slot = none → (fs.put target inode).entry slot = none := by
    intro fs target inode hne hfree
    rw [Filesystem.entry_put_ne fun heq => hne (congrArg some heq.symm)]
    exact hfree
  have hdrop : ∀ source, (w.fs.drop source).entry slot = none := by
    intro source
    by_cases heq : slot = source
    · rw [heq]
      exact Filesystem.entry_drop_self
    · rw [Filesystem.entry_drop_ne heq]
      exact free
  by_cases hnames : op.movesNames = true
  · rcases perform_cases op fault w with ⟨e, _, heq⟩ | heq
    · rw [heq]
      exact free
    · rw [heq]
      cases op with
      | renameat2 source target =>
          simp only [answer, World.onFs]
          split
          · exact free
          · rename_i fs' h
            obtain ⟨_, _, _, rfl⟩ := Filesystem.renameNoReplace_ok h
            exact hput other (hdrop source)
      | linkat source target =>
          simp only [answer, World.onFs]
          split
          · exact free
          · rename_i fs' h
            obtain ⟨_, _, _, rfl⟩ := Filesystem.link_ok h
            exact hput other free
      | unlinkat source =>
          simp only [answer, World.onFs]
          split
          · exact free
          · rename_i fs' h
            obtain ⟨_, _, rfl⟩ := Filesystem.unlink_ok h
            exact hdrop source
      | renameat source target =>
          simp only [answer, World.onFs]
          split
          · exact free
          · rename_i fs' h
            obtain ⟨_, _, ⟨_, rfl⟩ | ⟨_, rfl⟩⟩ := Filesystem.rename_ok h
            · exact free
            · exact hput other (hdrop source)
      | _ => cases hnames
  · rw [perform_fs (Bool.eq_false_of_not_eq_true hnames)]
    exact free

/-- A name that an object was moved away from is free. -/
theorem perform_renameat2_gone {source target : Slot} (apart : target ≠ source)
    (h : (perform (.renameat2 source target) fault w).1 = .ok ()) :
    (perform (.renameat2 source target) fault w).2.fs.entry source = none := by
  rcases perform_cases (.renameat2 source target) fault w with ⟨e, _, heq⟩ | heq
  · rw [heq] at h
    cases h
  · rw [heq] at h ⊢
    simp only [answer, World.onFs] at h ⊢
    split at h
    · cases h
    · rename_i fs' hfs
      obtain ⟨_, _, _, rfl⟩ := Filesystem.renameNoReplace_ok hfs
      rw [Filesystem.entry_put_ne apart.symm]
      exact Filesystem.entry_drop_self

theorem perform_unlinkat_gone (h : (perform (.unlinkat slot) fault w).1 = .ok ()) :
    (perform (.unlinkat slot) fault w).2.fs.entry slot = none := by
  rcases perform_cases (.unlinkat slot) fault w with ⟨e, _, heq⟩ | heq
  · rw [heq] at h
    cases h
  · rw [heq] at h ⊢
    simp only [answer, World.onFs] at h ⊢
    split at h
    · cases h
    · rename_i fs' hfs
      obtain ⟨_, _, rfl⟩ := Filesystem.unlink_ok hfs
      exact Filesystem.entry_drop_self

/-! ## Looks -/

theorem perform_openRoot_ok {path : Bytes} {fault : Option Fault} {w : World}
    {dir : Dir} (hr : (perform (.openRoot path) fault w).1 = .ok dir) :
    w.fs.root (cstr path) = some dir := by
  rcases perform_cases (.openRoot path) fault w with ⟨e, _, heq⟩ | heq
  · rw [heq] at hr
    cases hr
  · rw [heq] at hr
    simp only [answer] at hr
    split at hr
    · cases hr
    · rename_i hroot
      cases hr
      exact hroot

/-- The three things a probe can come back with. -/
theorem perform_fstatat (slot : Slot) (fault : Option Fault) (w : World) :
    (∃ e, e ≠ ENOENT ∧ fault.isSome = true ∧
      (perform (.fstatat slot) fault w).1 = .error e) ∨
    (w.fs.entry slot = none ∧
      (perform (.fstatat slot) fault w).1 = .error ENOENT) ∨
    ∃ object, w.fs.entry slot = some object ∧
      (perform (.fstatat slot) fault w).1 = .ok (w.stat object) := by
  have hasked : ∀ reply, reply = (answer (.fstatat slot) w).1 →
      (w.fs.entry slot = none ∧ reply = .error ENOENT) ∨
      ∃ object, w.fs.entry slot = some object ∧ reply = .ok (w.stat object) := by
    rintro _ rfl
    cases hentry : w.fs.entry slot with
    | none => exact Or.inl ⟨rfl, by simp [answer, hentry]⟩
    | some object => exact Or.inr ⟨object, rfl, by simp [answer, hentry]⟩
  cases fault with
  | none => exact Or.inr (hasked _ rfl)
  | some e =>
      by_cases he : e = ENOENT
      · exact Or.inr (hasked _ (by simp [perform, Op.admits, he]))
      · exact Or.inl ⟨e, he, rfl, by simp [perform, Op.admits, he]⟩

end FileMover
