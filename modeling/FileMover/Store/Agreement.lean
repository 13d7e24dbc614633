import FileMover.Store.Book

/-!
# The table agrees with the map

One lemma an operation: what it does to the table is what it does to the map that the
table stands for, and what it answers is what the map allows. The texts are plain, so
that what was bound is what is read; and a row that meets the `CHECK` clauses has a state
that the program knows and an error exactly if that is FAILED.
-/

namespace FileMover.Store

open Framework

/-- The map that a table stands for. -/
def book (t : Table) : Book := fun id =>
  if h : 0 ∈ id then none else (t.find ⟨id, h⟩).map entryOf

/-! ## Texts and columns -/

section Columns
variable {s : Bytes} {r : Columns} {job : Job} {t : Table} {id : Bytes}

theorem bindText_plain (h : 0 ∉ s) : bindText s = ⟨s, h⟩ := Subtype.ext (cstr_of_notMem h)

@[simp] theorem bindText_text (x : Text) : bindText x.1 = x := bindText_plain x.2

theorem bindText_val (h : 0 ∉ s) : (bindText s).1 = s := cstr_of_notMem h

theorem token_plain (state : JobState) : 0 ∉ state.toToken := by
  cases state <;> decide

theorem token_checked {token : Bytes}
    (h : token ∈ [lit "QUEUED", lit "RENAMING", lit "TRANSFERRING", lit "DONE", lit "FAILED"]) :
    ∃ state : JobState, token = state.toToken := by
  simp only [List.mem_cons, List.not_mem_nil, or_false] at h
  rcases h with rfl | rfl | rfl | rfl | rfl
  · exact ⟨.queued, rfl⟩
  · exact ⟨.renaming, rfl⟩
  · exact ⟨.transferring, rfl⟩
  · exact ⟨.done, rfl⟩
  · exact ⟨.failed, rfl⟩

theorem token_listed (state : JobState) : state.toToken ∈
    [lit "QUEUED", lit "RENAMING", lit "TRANSFERRING", lit "DONE", lit "FAILED"] := by
  cases state <;> decide

theorem toToken_inj {a b : JobState} (h : a.toToken = b.toToken) : a = b :=
  Option.some.inj (by rw [← JobState.fromToken_toToken, h, JobState.fromToken_toToken])

/-- A row of the table has a state that the program knows. -/
theorem Columns.Checks.token (h : r.Checks) : r.state.1 = (stateOf r).toToken := by
  obtain ⟨state, hstate⟩ := token_checked h.1
  rw [stateOf, hstate, JobState.fromToken_toToken]
  rfl

theorem Columns.Checks.state (h : r.Checks) {state : JobState} :
    r.state = bindText state.toToken ↔ stateOf r = state := by
  rw [← bindText_text r.state, h.token, Subtype.ext_iff, bindText_val (token_plain _),
    bindText_val (token_plain _)]
  exact ⟨toToken_inj, congrArg _⟩

theorem Columns.Checks.readJob (h : r.Checks) : readJob r = some (jobOf r) := by
  have hfrom : JobState.fromToken r.state.1 = some (stateOf r) := by
    rw [h.token, JobState.fromToken_toToken]
  rw [Store.readJob, hfrom]
  rfl

theorem Columns.Checks.sound (h : r.Checks) : Book.Sound (jobOf r) := by
  have herror := h.2.1
  rw [h.token, List.length_pos_iff] at herror
  refine herror.trans ⟨fun htoken => ?_, fun hstate => ?_⟩
  · exact toToken_inj htoken
  · change stateOf r = .failed at hstate
    rw [hstate]
    rfl

/-- What is needed for a row to be accepted. -/
theorem checks_of_sound (token : r.state = bindText job.state.toToken)
    (error : r.error = bindText job.error) (plain : 0 ∉ job.error)
    (flag : r.needsAttention = 0 ∨ r.needsAttention = 1) :
    r.Checks ↔ Book.Sound job := by
  have hfailed : job.state.toToken = lit "FAILED" ↔ job.state = .failed :=
    ⟨fun h => toToken_inj (b := .failed) h, fun h => by rw [h]; rfl⟩
  rw [Columns.Checks, token, error, bindText_val (token_plain _), bindText_val plain,
    List.length_pos_iff, hfailed]
  exact ⟨fun h => h.2.1, fun h => ⟨token_listed _, h, flag⟩⟩

theorem book_plain (h : 0 ∉ id) : book t id = (t.find (bindText id)).map entryOf := by
  rw [book, dif_neg h, bindText_plain h]

theorem book_text (x : Text) : book t x.1 = (t.find x).map entryOf := by
  rw [book_plain x.2, bindText_text]

theorem book_none (h : 0 ∈ id) : book t id = none := dif_pos h

theorem checks_of_find {x : Text} (h : t.find x = some r) : r.Checks :=
  t.checked r (Keyed.mem_of_find h)

/-- The map after a change to one row. -/
theorem book_set {t' : Table} (plain : 0 ∉ id)
    (found : ∀ y, t'.find y = if y = bindText id then some r else t.find y) :
    book t' = (book t).set id (some (entryOf r)) := by
  ext1 other
  simp only [Book.set]
  by_cases hother : other = id
  · subst hother
    rw [Function.update_self, book_plain plain, found, if_pos rfl]
    rfl
  · rw [Function.update_of_ne hother]
    by_cases hzero : 0 ∈ other
    · rw [book_none hzero, book_none hzero]
    · have hkey : bindText other ≠ bindText id := by
        intro heq
        apply hother
        rw [← bindText_val hzero, heq, bindText_val plain]
      rw [book_plain hzero, found, if_neg hkey, book_plain hzero]

end Columns

/-! ## Writing -/

/-- What has to be shown of an operation. -/
structure Simulates (t : Table) (op : StoreOp) : Prop where
  after : book (perform t op).2 = (book t).after op
  allows : (book t).Allows columnInt op (perform t op).1

section Writing
variable {t : Table} {id : Bytes}

theorem entryOf_intentColumns {job : Job} {retryOf : Bytes}
    (plain : (StoreOp.recordIntent job retryOf).Plain) :
    entryOf (intentColumns job retryOf) = ⟨job, 0, 0, [], retryOf, none⟩ := by
  obtain ⟨hid, hsource, hdest, herror, hretry⟩ := plain
  have hstate : stateOf (intentColumns job retryOf) = job.state := by
    simp only [stateOf, intentColumns, bindText_val (token_plain _), JobState.fromToken_toToken,
      Option.getD_some]
  rw [entryOf, jobOf, hstate]
  simp only [intentColumns, bindText_val hid, bindText_val hsource, bindText_val hdest,
    bindText_val herror, bindText_val hretry, UInt64.toUInt64_toInt64]
  rfl

theorem simulates_recordIntent {job : Job} {retryOf : Bytes}
    (plain : (StoreOp.recordIntent job retryOf).Plain) :
    Simulates t (.recordIntent job retryOf) := by
  have hchecks : (intentColumns job retryOf).Checks ↔ Book.Sound job :=
    checks_of_sound rfl rfl plain.2.2.2.1 (.inl rfl)
  have hfree : t.find (bindText job.id) = none ↔ book t job.id = none := by
    rw [book_plain plain.1, Option.map_eq_none_iff]
  have hgoes : t.insert (intentColumns job retryOf) = none ↔
      ¬ (book t job.id = none ∧ Book.Sound job) := by
    rw [Keyed.insert_eq_none, hchecks, and_comm]
    exact not_congr (and_congr_left' hfree)
  cases hinsert : t.insert (intentColumns job retryOf) with
  | none =>
      have hrefused := hgoes.mp hinsert
      constructor
      · simp only [perform, recordIntent, hinsert, Book.after, if_neg hrefused]
      · simp only [perform, recordIntent, hinsert]
        exact .inr ⟨hrefused, _, rfl⟩
  | some t' =>
      have haccepted : book t job.id = none ∧ Book.Sound job := by
        by_contra hnot
        rw [hgoes.mpr hnot] at hinsert
        cases hinsert
      constructor
      · simp only [perform, recordIntent, hinsert, Book.after, if_pos haccepted]
        rw [← entryOf_intentColumns plain]
        refine book_set plain.1 fun y => ?_
        rw [Keyed.find_insert hinsert]
        exact if_congr eq_comm rfl rfl
      · simp only [perform, recordIntent, hinsert]
        exact .inl ⟨haccepted, rfl⟩

/-- An `UPDATE` of a row that is there. -/
theorem book_update {t' : Table} {r : Columns} {a : Keyed.Assignment Columns.id} {changes : Nat}
    (plain : 0 ∉ id) (hfind : t.find (bindText id) = some r)
    (hupdate : t.update (bindText id) a = some (changes, t')) :
    book t' = (book t).set id (some (entryOf (a.set r))) := by
  refine book_set plain fun y => ?_
  rw [Keyed.find_update hupdate, hfind]
  rfl

/-- An `UPDATE` that has to match a row, and that the schema cannot refuse. -/
theorem updateOne_agrees (a : Keyed.Assignment Columns.id) (what : Bytes) (f : Entry → Entry)
    (plain : 0 ∉ id) (checked : ∀ r : Columns, r.Checks → (a.set r).Checks)
    (entry : ∀ r : Columns, entryOf (a.set r) = f (entryOf r)) :
    book (updateOne t id a what).2 = (book t).set id ((book t id).map f) ∧
      Book.Writes (book t id ≠ none) (ofWrite (updateOne t id a what).1) := by
  obtain ⟨changes, t', hupdate⟩ : ∃ changes t', t.update (bindText id) a = some (changes, t') := by
    cases hupdate : t.update (bindText id) a with
    | some result => exact ⟨result.1, result.2, rfl⟩
    | none =>
        obtain ⟨r, hfind, hnot⟩ := Keyed.update_eq_none.mp hupdate
        exact absurd (checked r (checks_of_find hfind)) hnot
  have hchanges := Keyed.changes_update hupdate
  rw [book_plain plain, updateOne, hupdate]
  cases hfind : t.find (bindText id) with
  | none =>
      dsimp only
      rw [if_pos (hchanges.mpr hfind)]
      refine ⟨?_, .inr ⟨not_not.mpr rfl, _, rfl⟩⟩
      ext1 other
      by_cases hzero : 0 ∈ other
      · exact (book_none hzero).trans (book_none hzero).symm
      · change book t' other = book t other
        rw [book_plain hzero, book_plain hzero, Keyed.find_update hupdate, hfind]
        split
        · next heq => rw [heq, hfind]; rfl
        · rfl
  | some r =>
      dsimp only
      have hmatched : ¬ changes = 0 := by
        rw [hchanges, hfind]
        exact Option.some_ne_none r
      rw [if_neg hmatched]
      refine ⟨?_, .inl ⟨Option.some_ne_none _, rfl⟩⟩
      rw [book_update plain hfind hupdate, entry]
      rfl

theorem simulates_recordAttempt {nextRetryMs : Int} {reason : Bytes}
    (plain : (StoreOp.recordAttempt id nextRetryMs reason).Plain) :
    Simulates t (.recordAttempt id nextRetryMs reason) := by
  have hone := updateOne_agrees (t := t) (attemptColumns nextRetryMs reason)
    (lit "recording attempt for job ")
    (fun e => { e with
      attempts := e.attempts + 1
      nextRetryMs := nextRetryMs
      lastError := reason })
    plain.1 (fun _ hchecks => hchecks) fun r => by
      simp only [entryOf, attemptColumns, bindText_val plain.2]
      rfl
  exact ⟨hone.1, hone.2⟩

theorem simulates_markNeedsAttention {reason : Bytes}
    (plain : (StoreOp.markNeedsAttention id reason).Plain) :
    Simulates t (.markNeedsAttention id reason) := by
  by_cases hreason : reason = []
  · constructor
    · simp only [perform, markNeedsAttention, Book.after, if_pos hreason]
    · simp only [perform, markNeedsAttention, if_pos hreason]
      exact .inr ⟨fun h => h.2 hreason, _, rfl⟩
  · have hone := updateOne_agrees (t := t) (attentionColumns reason) (lit "flagging job ")
      (fun e => { e with attention := some reason })
      plain.1 (fun _ hchecks => ⟨hchecks.1, hchecks.2.1, .inr rfl⟩) fun r => by
        simp only [entryOf, attentionColumns, bindText_val plain.2, Nat.one_ne_zero, if_false]
        rfl
    constructor
    · simp only [perform, markNeedsAttention, Book.after, if_neg hreason]
      exact hone.1
    · simp only [perform, markNeedsAttention, if_neg hreason]
      rcases hone.2 with ⟨hthere, hwritten⟩ | ⟨hnot, hrefused⟩
      · exact .inl ⟨⟨hthere, hreason⟩, hwritten⟩
      · exact .inr ⟨fun h => hnot h.1, hrefused⟩

theorem load_plain (plain : 0 ∉ id) : load t id = .ok ((book t id).map (·.job)) := by
  rw [load, book_plain plain]
  cases hfind : t.find (bindText id) with
  | none => rfl
  | some r =>
      dsimp only
      rw [(checks_of_find hfind).readJob]
      rfl

/-- What may follow in the error of a job that is sound. -/
theorem sound_transition {job after : Job} {target : JobState} {nowMs : Int} {message : Bytes}
    (h : job.transition target nowMs message = some after) (sound : Book.Sound job) :
    Book.Sound after := by
  obtain ⟨hlegal, hfits, rfl⟩ := Job.transition_eq_some.mp h
  by_cases htarget : target = .failed
  · simp only [Book.Sound, if_pos htarget]
    exact hfits.symm
  · have herror : job.error = [] := by
      by_contra herror
      rw [sound.mp herror] at hlegal
      cases hlegal
    simp [Book.Sound, htarget, herror]

theorem transition_error_plain {job after : Job} {target : JobState} {nowMs : Int}
    {message : Bytes} (h : job.transition target nowMs message = some after)
    (hjob : 0 ∉ job.error) (hmessage : 0 ∉ message) : 0 ∉ after.error := by
  obtain ⟨-, -, rfl⟩ := Job.transition_eq_some.mp h
  dsimp only
  split
  · exact hmessage
  · exact hjob

/-- The columns that `update_state` writes hold the job after the transition. -/
theorem entryOf_stateColumns {r : Columns} {after : Job} {target : JobState} {nowMs : Int}
    {message : Bytes} (h : (jobOf r).transition target nowMs message = some after)
    (plain : 0 ∉ after.error) :
    entryOf ((stateColumns after).set r) = { entryOf r with job := after } := by
  have hstate : stateOf ((stateColumns after).set r) = after.state := by
    simp only [stateOf, stateColumns, bindText_val (token_plain _), JobState.fromToken_toToken,
      Option.getD_some]
  rw [entryOf, jobOf, hstate]
  simp only [stateColumns, bindText_val plain]
  obtain ⟨-, -, rfl⟩ := Job.transition_eq_some.mp h
  rfl

theorem updateState_agrees (target : JobState) (nowMs : Int) {message : Bytes} (plain : 0 ∉ id)
    (hmessage : 0 ∉ message) :
    match (book t).moved id target nowMs message with
    | none => ∃ e, updateState t id target nowMs message = (.error e, t)
    | some e => ∃ t', updateState t id target nowMs message = (.ok (), t') ∧
        book t' = (book t).set id (some e) := by
  rw [updateState, load_plain plain, Book.moved, book_plain plain]
  cases hfind : t.find (bindText id) with
  | none => exact ⟨_, rfl⟩
  | some r =>
      have hchecks := checks_of_find hfind
      cases hmove : (jobOf r).transition target nowMs message with
      | none =>
          simp only [Option.map_some, Option.bind_some, entryOf, hmove, Option.map_none]
          exact ⟨_, rfl⟩
      | some after =>
          have herror := transition_error_plain hmove r.error.2 hmessage
          have hafter : ((stateColumns after).set r).Checks :=
            (checks_of_sound (r := (stateColumns after).set r) rfl rfl herror hchecks.2.2).mpr
              (sound_transition hmove hchecks.sound)
          obtain ⟨changes, t', hupdate⟩ : ∃ changes t',
              t.update (bindText id) (stateColumns after) = some (changes, t') := by
            cases hupdate : t.update (bindText id) (stateColumns after) with
            | some result => exact ⟨result.1, result.2, rfl⟩
            | none =>
                obtain ⟨r', hfind', hnot⟩ := Keyed.update_eq_none.mp hupdate
                obtain rfl := Option.some.inj (hfind.symm.trans hfind')
                exact absurd hafter hnot
          have hbook := book_update plain hfind hupdate
          rw [entryOf_stateColumns hmove herror] at hbook
          simp only [Option.map_some, Option.bind_some, entryOf, hmove, hupdate]
          exact ⟨t', rfl, hbook⟩

theorem simulates_updateState {target : JobState} {nowMs : Int} {message : Bytes}
    (plain : (StoreOp.updateState id target nowMs message).Plain) :
    Simulates t (.updateState id target nowMs message) := by
  have hagrees := updateState_agrees (t := t) target nowMs plain.1 plain.2
  cases hmoved : (book t).moved id target nowMs message with
  | none =>
      rw [hmoved] at hagrees
      obtain ⟨e, hrefused⟩ := hagrees
      constructor
      · simp only [perform, hrefused, Book.after, hmoved, Book.set]
      · simp only [perform, hrefused]
        exact .inr ⟨not_not.mpr hmoved, e, rfl⟩
  | some e =>
      rw [hmoved] at hagrees
      obtain ⟨t', hwritten, hbook⟩ := hagrees
      constructor
      · simp only [perform, hwritten, Book.after, hmoved, hbook]
      · simp only [perform, hwritten]
        exact .inl ⟨hmoved ▸ Option.some_ne_none e, rfl⟩

theorem simulates_recordTransition {target : JobState} {nowMs : Int} {message : Bytes}
    {phase : CommitPhase} (plain : (StoreOp.recordTransition id target nowMs message phase).Plain) :
    Simulates t (.recordTransition id target nowMs message phase) := by
  have hagrees := updateState_agrees (t := t) target nowMs plain.1 plain.2
  cases hmoved : (book t).moved id target nowMs message with
  | none =>
      rw [hmoved] at hagrees
      obtain ⟨e, hrefused⟩ := hagrees
      constructor
      · simp only [perform, recordTransition, hrefused, Book.after, hmoved, Book.set]
      · simp only [perform, recordTransition, hrefused]
        exact .inr ⟨hmoved, _, rfl⟩
  | some e =>
      rw [hmoved] at hagrees
      obtain ⟨t', hwritten, hbook⟩ := hagrees
      constructor
      · simp only [perform, recordTransition, hwritten, Book.after, hmoved, hbook]
      · simp only [perform, recordTransition, hwritten]
        exact .inl ⟨hmoved ▸ Option.some_ne_none e, rfl⟩

end Writing

/-! ## Reading -/

section Reading
variable {t : Table} {id : Bytes} {state : JobState} {nowMs : Int}

theorem simulates_load (plain : 0 ∉ id) : Simulates t (.load id) := by
  refine ⟨rfl, ?_⟩
  simp only [perform, load_plain plain, ofRead]
  rfl

theorem simulates_loadRetryState (plain : 0 ∉ id) : Simulates t (.loadRetryState id) := by
  refine ⟨rfl, ?_⟩
  simp only [perform, Book.Allows, loadRetryState, book_plain plain, Option.map_map]
  rfl

/-- The entries of the map are the rows of the table. -/
theorem book_eq_some {e : Entry} :
    book t id = some e ↔ ∃ r ∈ t.rows, r.id.1 = id ∧ entryOf r = e := by
  constructor
  · intro h
    by_cases hzero : 0 ∈ id
    · rw [book_none hzero] at h
      cases h
    · rw [book_plain hzero, Option.map_eq_some_iff] at h
      obtain ⟨r, hfind, rfl⟩ := h
      refine ⟨r, Keyed.mem_of_find hfind, ?_, rfl⟩
      rw [Keyed.key_of_find hfind, bindText_val hzero]
  · rintro ⟨r, hmem, rfl, rfl⟩
    rw [book_text, Keyed.find_key_of_mem hmem]
    rfl

theorem byCreation_trans (x y z : Columns) (hxy : byCreation x y = true)
    (hyz : byCreation y z = true) : byCreation x z = true := by
  simp only [byCreation, Bool.or_eq_true, Bool.and_eq_true, decide_eq_true_eq] at hxy hyz ⊢
  rcases hxy with hlt | ⟨heq, hle⟩ <;> rcases hyz with hlt' | ⟨heq', hle'⟩
  · exact .inl (hlt.trans hlt')
  · exact .inl (heq' ▸ hlt)
  · exact .inl (heq ▸ hlt')
  · exact .inr ⟨heq.trans heq', List.le_trans hle hle'⟩

theorem byCreation_total (x y : Columns) : (byCreation x y || byCreation y x) = true := by
  simp only [byCreation, Bool.or_eq_true, Bool.and_eq_true, decide_eq_true_eq]
  rcases lt_trichotomy x.createdAtMs y.createdAtMs with h | h | h
  · exact .inl (.inl h)
  · rcases List.le_total x.id.1 y.id.1 with hle | hle
    · exact .inl (.inr ⟨h, hle⟩)
    · exact .inr (.inr ⟨h.symm, hle⟩)
  · exact .inr (.inl h)

theorem createdBefore_of_byCreation {x y : Columns} (h : byCreation x y = true)
    (hne : x.id ≠ y.id) : Book.CreatedBefore (jobOf x) (jobOf y) := by
  simp only [byCreation, Bool.or_eq_true, Bool.and_eq_true, decide_eq_true_eq] at h
  refine h.imp_right fun ⟨heq, hle⟩ => ⟨heq, ?_⟩
  rcases List.le_iff_lt_or_eq.mp hle with hlt | hsame
  · exact hlt
  · exact absurd (Subtype.ext hsame) hne

theorem readJobs_eq {rows : List Columns} (h : ∀ r ∈ rows, r.Checks) :
    readJobs rows = .ok (rows.map jobOf) := by
  induction rows with
  | nil => rfl
  | cons r rest ih =>
      rw [readJobs, (h r List.mem_cons_self).readJob,
        ih fun r' hr' => h r' (List.mem_cons_of_mem r hr')]
      rfl

theorem simulates_listByState : Simulates t (.listByState state) := by
  have hchecks : ∀ r ∈ t.sorted (fun r => r.state = bindText state.toToken) byCreation,
      r.Checks := fun r hr => t.checked r (Keyed.mem_sorted.mp hr).1
  refine ⟨rfl, ?_⟩
  simp only [perform, listByState, readJobs_eq hchecks, ofRead]
  refine ⟨_, rfl, ?_, fun job => ?_⟩
  · refine List.pairwise_map.mpr ?_
    exact (Keyed.pairwise_sorted byCreation_trans byCreation_total).imp fun h =>
      createdBefore_of_byCreation h.1 h.2
  · rw [List.mem_map]
    constructor
    · rintro ⟨r, hr, rfl⟩
      obtain ⟨hmem, hstate⟩ := Keyed.mem_sorted.mp hr
      refine ⟨r.id.1, entryOf r, book_eq_some.mpr ⟨r, hmem, rfl, rfl⟩, rfl, ?_⟩
      exact (t.checked r hmem).state.mp (of_decide_eq_true hstate)
    · rintro ⟨id, e, hentry, rfl, hstate⟩
      obtain ⟨r, hmem, -, rfl⟩ := book_eq_some.mp hentry
      refine ⟨r, Keyed.mem_sorted.mpr ⟨hmem, decide_eq_true ?_⟩, rfl⟩
      exact (t.checked r hmem).state.mpr hstate

theorem byRetry_trans (x y z : Columns) (hxy : byRetry x y = true) (hyz : byRetry y z = true) :
    byRetry x z = true := by
  simp only [byRetry, Bool.or_eq_true, Bool.and_eq_true, decide_eq_true_eq] at hxy hyz ⊢
  rcases hxy with hlt | ⟨heq, hle⟩ <;> rcases hyz with hlt' | ⟨heq', hle'⟩
  · exact .inl (hlt.trans hlt')
  · exact .inl (heq' ▸ hlt)
  · exact .inl (heq ▸ hlt')
  · exact .inr ⟨heq.trans heq', byCreation_trans x y z hle hle'⟩

theorem byRetry_total (x y : Columns) : (byRetry x y || byRetry y x) = true := by
  have hcreation := byCreation_total x y
  simp only [byRetry, Bool.or_eq_true, Bool.and_eq_true, decide_eq_true_eq] at hcreation ⊢
  rcases lt_trichotomy x.nextRetryMs y.nextRetryMs with h | h | h
  · exact .inl (.inl h)
  · exact hcreation.imp (fun hle => .inr ⟨h, hle⟩) fun hle => .inr ⟨h.symm, hle⟩
  · exact .inr (.inl h)

theorem dueBefore_of_byRetry {x y : Columns} (h : byRetry x y = true) (hne : x.id ≠ y.id) :
    Book.DueBefore (entryOf x) (entryOf y) := by
  simp only [byRetry, Bool.or_eq_true, Bool.and_eq_true, decide_eq_true_eq] at h
  exact h.imp_right fun ⟨heq, hle⟩ => ⟨heq, createdBefore_of_byCreation hle hne⟩

theorem simulates_dueJobs : Simulates t (.dueJobs nowMs) := by
  refine ⟨rfl, _, rfl, ?_, fun id => ?_⟩
  · refine List.pairwise_map.mpr ?_
    refine (Keyed.pairwise_sorted byRetry_trans byRetry_total).imp_of_mem fun {x y} hx hy h => ?_
    refine ⟨entryOf x, entryOf y, book_eq_some.mpr ⟨x, (Keyed.mem_sorted.mp hx).1, rfl, rfl⟩,
      book_eq_some.mpr ⟨y, (Keyed.mem_sorted.mp hy).1, rfl, rfl⟩, ?_⟩
    exact dueBefore_of_byRetry h.1 h.2
  · rw [dueJobs, List.mem_map]
    constructor
    · rintro ⟨r, hr, rfl⟩
      obtain ⟨hmem, hdue⟩ := Keyed.mem_sorted.mp hr
      rw [Bool.and_eq_true, decide_eq_true_eq, decide_eq_true_eq] at hdue
      refine ⟨entryOf r, book_eq_some.mpr ⟨r, hmem, rfl, rfl⟩, ?_, hdue.2⟩
      exact (t.checked r hmem).state.mp hdue.1
    · rintro ⟨e, hentry, hstate, hdue⟩
      obtain ⟨r, hmem, rfl, rfl⟩ := book_eq_some.mp hentry
      refine ⟨r, Keyed.mem_sorted.mpr ⟨hmem, ?_⟩, rfl⟩
      rw [Bool.and_eq_true, decide_eq_true_eq, decide_eq_true_eq]
      exact ⟨(t.checked r hmem).state.mpr hstate, hdue⟩

theorem bindText_token_inj {a b : JobState} (h : bindText a.toToken = bindText b.toToken) :
    a = b := by
  have htoken := congrArg Subtype.val h
  rw [bindText_val (token_plain a), bindText_val (token_plain b)] at htoken
  exact toToken_inj htoken

/-- The loop of `counts_by_state` overwrites each state that has a group. -/
theorem readCounts_eq {tokens : List Text} (count : Text → Nat) (out : JobState → Nat)
    (h : ∀ token ∈ tokens, ∃ state : JobState, token = bindText state.toToken) :
    readCounts (tokens.map fun token => (token, count token)) out = .ok fun state =>
      if bindText state.toToken ∈ tokens then count (bindText state.toToken) else out state := by
  induction tokens generalizing out with
  | nil => simp only [List.map_nil, readCounts, List.not_mem_nil, if_false]
  | cons token rest ih =>
      obtain ⟨first, rfl⟩ := h token List.mem_cons_self
      rw [List.map_cons, readCounts, bindText_val (token_plain first),
        JobState.fromToken_toToken]
      dsimp only
      rw [ih _ fun token htoken => h token (List.mem_cons_of_mem _ htoken)]
      congr 1
      funext state
      by_cases hrest : bindText state.toToken ∈ rest
      · rw [if_pos hrest, if_pos (List.mem_cons_of_mem _ hrest)]
      · rw [if_neg hrest]
        by_cases hsame : state = first
        · rw [hsame, Function.update_self, if_pos List.mem_cons_self]
        · rw [Function.update_of_ne hsame, if_neg]
          rw [List.mem_cons, not_or]
          exact ⟨fun heq => hsame (bindText_token_inj heq), hrest⟩

theorem countsByState_eq :
    countsByState t = .ok fun state => t.rows.countP fun r => stateOf r = state := by
  have hchecks := t.checked
  have htokens : ∀ token ∈ (t.rows.map Columns.state).dedup,
      ∃ state : JobState, token = bindText state.toToken := by
    intro token htoken
    obtain ⟨r, hr, rfl⟩ := List.mem_map.mp (List.mem_dedup.mp htoken)
    exact ⟨stateOf r, (hchecks r hr).state.mpr rfl⟩
  rw [countsByState, groups, readCounts_eq _ _ htokens]
  congr 1
  funext state
  have hcount : t.rows.countP (fun r => r.state = bindText state.toToken) =
      t.rows.countP fun r => stateOf r = state := by
    refine List.countP_congr fun r hr => ?_
    rw [decide_eq_true_eq, decide_eq_true_eq]
    exact (hchecks r hr).state
  rw [← hcount]
  split
  · rfl
  · next hnone =>
      refine (List.countP_eq_zero.mpr fun r hr hstate => hnone ?_).symm
      rw [List.mem_dedup, ← of_decide_eq_true hstate]
      exact List.mem_map_of_mem hr

/-- Counting the entries of the map is counting the rows. -/
theorem ncard_entries (p : Entry → Prop) [DecidablePred p] :
    {id | ∃ e, book t id = some e ∧ p e}.ncard = t.rows.countP fun r => p (entryOf r) := by
  have hset : {id | ∃ e, book t id = some e ∧ p e} =
      Subtype.val '' {k | ∃ r ∈ t.rows, decide (p (entryOf r)) = true ∧ r.id = k} := by
    ext id
    simp only [Set.mem_ofPred_eq, Set.mem_image, decide_eq_true_eq, book_eq_some]
    constructor
    · rintro ⟨_, ⟨r, hr, rfl, rfl⟩, hp⟩
      exact ⟨r.id, ⟨r, hr, hp, rfl⟩, rfl⟩
    · rintro ⟨_, ⟨r, hr, hp, rfl⟩, rfl⟩
      exact ⟨entryOf r, ⟨r, hr, rfl, rfl⟩, hp⟩
  rw [hset, Set.ncard_image_of_injective _ Subtype.val_injective]
  exact Keyed.ncard_keys t _

theorem countP_states (rows : List Columns) :
    rows.countP (stateOf · = .queued) + rows.countP (stateOf · = .renaming) +
      rows.countP (stateOf · = .transferring) + rows.countP (stateOf · = .done) +
      rows.countP (stateOf · = .failed) = rows.length := by
  induction rows with
  | nil => rfl
  | cons r rest ih =>
      simp only [List.countP_cons, List.length_cons]
      cases stateOf r <;> simp <;> omega

theorem simulates_countsByState : Simulates t .countsByState := by
  refine ⟨rfl, ?_⟩
  simp only [perform, countsByState_eq, ofRead]
  refine ⟨_, rfl, fun state => ?_, ?_⟩
  · exact (ncard_entries fun e => e.job.state = state).symm
  · have hall : {id | book t id ≠ none} = {id | ∃ e, book t id = some e ∧ True} := by
      ext id
      simp only [Set.mem_ofPred_eq, and_true, ne_eq, Option.ne_none_iff_exists']
    rw [hall, ncard_entries fun _ => True, countP_states]
    simp

end Reading

/-! ## Sequences -/

/-- Every operation does to the table what it does to the map. -/
theorem simulates (t : Table) (op : StoreOp) (plain : op.Plain) : Simulates t op := by
  cases op with
  | recordIntent job retryOf => exact simulates_recordIntent plain
  | updateState id target nowMs message => exact simulates_updateState plain
  | recordTransition id target nowMs message phase => exact simulates_recordTransition plain
  | recordAttempt id nextRetryMs reason => exact simulates_recordAttempt plain
  | markNeedsAttention id reason => exact simulates_markNeedsAttention plain
  | load id => exact simulates_load plain
  | loadRetryState id => exact simulates_loadRetryState plain
  | listByState state => exact simulates_listByState
  | countsByState => exact simulates_countsByState
  | dueJobs nowMs => exact simulates_dueJobs

theorem book_performAll (t : Table) (ops : List StoreOp) (plain : ∀ op ∈ ops, op.Plain) :
    book (performAll t ops).2 = ops.foldl Book.after (book t) := by
  induction ops generalizing t with
  | nil => rfl
  | cons op rest ih =>
      rw [List.foldl_cons, ← (simulates t op (plain op List.mem_cons_self)).after]
      exact ih _ fun op' hop' => plain op' (List.mem_cons_of_mem op hop')

/-- A job that is tried again and again. -/
def worn : Job := Job.new (lit "job-1") (lit "/in/a") (lit "/out/a") 0

def wearing (n : Nat) : List StoreOp :=
  .recordIntent worn [] :: List.replicate n (.recordAttempt worn.id 0 (lit "busy"))

theorem wearing_plain (n : Nat) : ∀ op ∈ wearing n ++ [.loadRetryState worn.id], op.Plain := by
  have hbusy : (StoreOp.recordAttempt worn.id 0 (lit "busy")).Plain := ⟨by decide, by decide⟩
  intro op hop
  rcases List.mem_append.mp hop with hwearing | hlast
  · rcases List.mem_cons.mp hwearing with rfl | hattempt
    · exact ⟨by decide, by decide, by decide, by decide, by decide⟩
    · rw [List.eq_of_mem_replicate hattempt]
      exact hbusy
  · rw [List.mem_singleton.mp hlast]
    exact hbusy.1

/-- A number that fits is read as it is. -/
theorem columnInt_eq {n : Nat} (h : n < 2 ^ 31) : columnInt n = n := by
  have hsmall : (n : Int).bmod 4294967296 = n := by
    apply Int.bmod_eq_of_le
    · omega
    · omega
  exact hsmall

/-- The store is the map, over every sequence of operations; the number of attempts is read
back as it is up to the end of an `int`. -/
theorem store_agrees_with_book (t : Table) (ops : List StoreOp) (plain : ∀ op ∈ ops, op.Plain) :
    Book.Agrees columnInt (book t) (performAll t ops).1 ∧ ∀ n < 2 ^ 31, columnInt n = n := by
  refine ⟨?_, fun n hn => columnInt_eq hn⟩
  induction ops generalizing t with
  | nil => exact .nil _
  | cons op rest ih =>
      have hop := simulates t op (plain op List.mem_cons_self)
      refine .cons hop.allows ?_
      rw [← hop.after]
      exact ih _ fun op' hop' => plain op' (List.mem_cons_of_mem op hop')

theorem store_agrees_with_book_worn :
    Book.Agrees columnInt (book Keyed.empty)
      (performAll Keyed.empty (wearing 2 ++ [.loadRetryState worn.id])).1 ∧
      ∀ n < 2 ^ 31, columnInt n = n :=
  store_agrees_with_book _ _ (wearing_plain 2)

/-- The map explains the last result of a run, if it explains them all. -/
theorem Book.Agrees.last {read : Nat → Int} {b : Book} {t : Table} {ops : List StoreOp}
    {op : StoreOp} (h : Book.Agrees read b (performAll t (ops ++ [op])).1) :
    (ops.foldl Book.after b).Allows read op (perform (performAll t ops).2 op).1 := by
  induction ops generalizing t b with
  | nil =>
      cases h with
      | cons hallows _ => exact hallows
  | cons first rest ih =>
      cases h with
      | cons hallows hrest => exact ih hrest

theorem attempts_replicate {b : Book} {id : Bytes} {e : Entry} (nextRetryMs : Int)
    (reason : Bytes) (h : b id = some e) (n : Nat) :
    ∃ e', (List.replicate n (StoreOp.recordAttempt id nextRetryMs reason)).foldl Book.after b id =
      some e' ∧ e'.attempts = e.attempts + n := by
  induction n generalizing b e with
  | zero => exact ⟨e, h, rfl⟩
  | succ n ih =>
      have hnext : b.after (.recordAttempt id nextRetryMs reason) id =
          some { e with
            attempts := e.attempts + 1
            nextRetryMs := nextRetryMs
            lastError := reason } := by
        simp only [Book.after, h, Option.map_some, Book.set, Function.update_self]
      obtain ⟨e', hfound, hattempts⟩ := ih hnext
      refine ⟨e', hfound, ?_⟩
      rw [hattempts]
      dsimp only
      omega

/-- What the number of attempts is read as is what the map expects only if it fits. -/
theorem columnInt_of_agrees {n : Nat}
    (h : Book.Agrees (fun n => n) (book Keyed.empty)
      (performAll Keyed.empty (wearing n ++ [.loadRetryState worn.id])).1) :
    columnInt n = n := by
  have hplain : ∀ op ∈ wearing n, op.Plain := fun op hop =>
    wearing_plain n op (List.mem_append_left _ hop)
  have hnone : book Keyed.empty worn.id = none := by
    rw [book_plain (by decide)]
    rfl
  have hfirst : (book Keyed.empty).after (.recordIntent worn []) worn.id =
      some ⟨worn, 0, 0, [], [], none⟩ := by
    have hgoes : book Keyed.empty worn.id = none ∧ Book.Sound worn := ⟨hnone, by decide⟩
    rw [Book.after, if_pos hgoes, Book.set, Function.update_self]
  obtain ⟨e, hentry, hattempts⟩ := attempts_replicate 0 (lit "busy") hfirst n
  have hread := h.last
  change StoreResult.retry _ = StoreResult.retry _ at hread
  rw [show (wearing n).foldl Book.after (book Keyed.empty) worn.id = some e from hentry] at hread
  have hbook := book_performAll Keyed.empty (wearing n) hplain
  have htable : book (performAll Keyed.empty (wearing n)).2 worn.id = some e := by
    rw [hbook]
    exact hentry
  rw [book_plain (by decide), Option.map_eq_some_iff] at htable
  obtain ⟨r, hfind, rfl⟩ := htable
  simp only [loadRetryState, hfind, Option.map_some, StoreResult.retry.injEq,
    Option.some.injEq, RetryColumns.mk.injEq] at hread
  obtain rfl : r.attempts = n := hattempts.trans (Nat.zero_add n)
  exact hread.1

/-- The 2^31st failed attempt is read as the -2^31st. -/
theorem attempts_do_not_read_back :
    (∀ op ∈ wearing (2 ^ 31) ++ [.loadRetryState worn.id], op.Plain) ∧
      ¬ Book.Agrees (fun n => n) (book Keyed.empty)
        (performAll Keyed.empty (wearing (2 ^ 31) ++ [.loadRetryState worn.id])).1 :=
  ⟨wearing_plain _, fun h => absurd (columnInt_of_agrees h) (by decide)⟩

end FileMover.Store
