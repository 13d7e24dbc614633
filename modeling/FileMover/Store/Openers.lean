import FileMover.Store.Opening

/-!
# Any number of opens

All histories of connections that open one file, whatever statements fail and whoever dies
in the middle. A file that has no schema gets it as a whole or not at all; an `open` that
succeeds has found it whole, with every setting in effect; one that fails leaves no handle
and no lock behind; and no `open` ever changes a store that has its schema. A file of
another version is refused by everyone and its contents stay as they are.
-/

namespace FileMover.Store.Opening

open Framework

namespace Openers

variable {file : Option File} {s t : Openers} {n : Nat}

/-! ## What a step can do -/

inductive Step (s : Openers) : OpenersEvent → Openers → Prop
  | begun {n : Nat} {path : Bytes} (free : s.progs n = none) :
      Step s (.begin n path) (s.setProg n (some (openStore path)))
  | called {n : Nat} {op : SqlOp} {next : SqlReply op → OpenProg (Except Bytes StoreOpenResult)}
      {fault : Option SqlFault} (stays : s.progs n = some (.call op next)) :
      Step s (.call n fault)
        (({ s with disk := ((sqlite n).perform op fault s.disk).2 } : Openers).setProg n
          (some (next ((sqlite n).perform op fault s.disk).1)))
  | worked {n : Nat} {result : StoreOpenResult} {jobs : Database} {next : Int}
      (stays : s.progs n = some (.pure (.ok result))) (free : s.disk.writer = none) :
      Step s (.work n jobs next) { s with disk := s.disk.setRows jobs next }
  | left {n : Nat} :
      Step s (.leave n) (({ s with disk := s.disk.close n } : Openers).setProg n none)

theorem step_of_act {event : OpenersEvent} (hact : s.act event = some t) : Step s event t := by
  cases event with
  | begin n path =>
      cases hprog : s.progs n with
      | none =>
          simp only [act, hprog, Option.some.injEq] at hact
          subst hact
          exact .begun hprog
      | some prog => simp [act, hprog] at hact
  | call n fault =>
      rcases hprog : s.progs n with _ | (result | ⟨op, next⟩)
      · simp [act, hprog] at hact
      · simp [act, hprog] at hact
      · simp only [act, hprog, Option.some.injEq] at hact
        subst hact
        exact .called hprog
  | work n jobs next =>
      cases hwriter : s.disk.writer with
      | some holder => simp [act, hwriter] at hact
      | none =>
          rcases hprog : s.progs n with _ | ((error | result) | ⟨op, more⟩)
          · simp [act, hprog] at hact
          · simp [act, hprog] at hact
          · simp only [act, hprog, hwriter, Option.some.injEq] at hact
            subst hact
            exact .worked hprog hwriter
          · simp [act, hprog] at hact
  | leave n =>
      cases hprog : s.progs n with
      | none => simp [act, hprog] at hact
      | some prog =>
          simp only [act, hprog, Option.some.injEq] at hact
          subst hact
          exact .left

/-! ## The invariant -/

/-- Every connection is safe with what is left of its `open`. -/
structure Inv (file : Option File) (s : Openers) : Prop where
  sound : Sound s.disk
  safe : ∀ n prog, s.progs n = some prog →
    prog.Safe (sqlite n) (contract n) (Opened n) s.disk
  later : ∀ f, file = some f → ∃ f', s.disk.file = some f' ∧ f.Later f'

/-- A step of one connection, of which the others notice what they rely on. -/
theorem Inv.moved (inv : Inv file s) {d : Disk} (guarantee : Guarantee n s.disk d)
    {prog : Option (OpenProg (Except Bytes StoreOpenResult))}
    (safe : ∀ p, prog = some p → p.Safe (sqlite n) (contract n) (Opened n) d) :
    Inv file (({ s with disk := d } : Openers).setProg n prog) where
  sound := guarantee.sound inv.sound
  safe := by
    intro m p hp
    change Function.update s.progs n prog m = some p at hp
    by_cases hm : m = n
    · subst hm
      rw [Function.update_self] at hp
      exact safe p hp
    · rw [Function.update_of_ne hm] at hp
      exact (inv.safe m p hp).interfere (guarantee.rely hm)
  later := by
    intro f hf
    obtain ⟨f', hf', hlater⟩ := inv.later f hf
    obtain ⟨f'', hf'', hlater'⟩ := guarantee.later hf'
    exact ⟨f'', hf'', hlater.trans hlater'⟩

theorem whole_setRows {c : Contents} (h : c.Whole) (jobs : Database) (next : Int) :
    Contents.Whole ⟨c.version, some jobs, some (some next)⟩ := ⟨h.version, rfl, rfl⟩

/-- The work on a store is nothing that an `open` could not live with. -/
theorem rely_setRows {d : Disk} {f : File} (hf : d.file = some f) (whole : f.contents.Whole)
    (free : d.writer = none) (jobs : Database) (next : Int) (n : Nat) :
    Rely n d (d.setRows jobs next) := by
  refine ⟨rfl, Iff.rfl, fun f' hf' => ?_⟩
  obtain rfl := Option.some.inj (hf.symm.trans hf')
  refine ⟨{ f with contents := ⟨f.contents.version, some jobs, some (some next)⟩ }, ?_,
    ⟨id, .inr ⟨.inr whole, whole_setRows whole jobs next⟩⟩, fun hlock => ?_⟩
  · simp [Disk.setRows, hf]
  · rw [free] at hlock
    exact absurd hlock (by simp)

theorem Inv.step (inv : Inv file s) {event : OpenersEvent} (hact : s.act event = some t) :
    Inv file t := by
  cases step_of_act hact with
  | @begun n path free =>
      apply inv.moved (.refl n s.disk)
      rintro p ⟨⟩
      exact safe_openStore n path s.disk
  | @called n op next fault hprog =>
      obtain ⟨guarantee, safe⟩ := inv.safe n _ hprog s.disk (.refl n s.disk) fault inv.sound
      apply inv.moved guarantee
      rintro p ⟨⟩
      exact safe
  | @worked n result jobs next hprog free =>
      -- who works on the store has opened it, so it is whole before and after
      obtain ⟨-, -, f, hf, -, -, hwhole⟩ := (inv.safe n _ hprog).result
      have rely := rely_setRows hf hwhole free jobs next
      refine ⟨fun f' hf' => ?_, fun m p hp => (inv.safe m p hp).interfere (rely m),
        fun f₀ hf₀ => ?_⟩
      · obtain ⟨f'', hf'', hlater, -⟩ := (rely n).file f hf
        obtain rfl := Option.some.inj (hf''.symm.trans hf')
        exact .inl (.inr (hlater.contents.whole hwhole))
      · obtain ⟨f', hf', hlater⟩ := inv.later f₀ hf₀
        obtain ⟨f'', hf'', hlater', -⟩ := (rely n).file f' hf'
        exact ⟨f'', hf'', hlater.trans hlater'⟩
  | @left n => exact inv.moved (guarantee_close n s.disk) (by rintro p ⟨⟩)

theorem inv_quiet (known : ∀ f, file = some f → f.contents.Known) : Inv file (quiet file) where
  sound := known
  safe := by
    intro n prog hprog
    exact absurd hprog (by simp [quiet])
  later := fun f hf => ⟨f, hf, .refl f⟩

theorem inv_of_reach (known : ∀ f, file = some f → f.contents.Known)
    (reach : GuardedReach act (fun _ _ => True) (quiet file) s) : Inv file s :=
  reach.invariant (Inv file) (fun _ hact inv => inv.step hact) (inv_quiet known)

theorem opened_iff {result : Except Bytes StoreOpenResult} :
    s.opened n = some result ↔ s.progs n = some (.pure result) := by
  rcases hprog : s.progs n with _ | (value | ⟨op, next⟩) <;> simp [opened, hprog]

/-! ## Every history -/

/-- In every history, from a file that is not there or that holds nothing, the whole schema
or another version: whoever has opened it holds a handle with both settings, outside a
transaction, to a file with the whole schema and a write-ahead log; whoever failed holds
neither a handle nor the lock; and what the file held has become nothing but itself, a
whole schema, or a store whose rows have changed. -/
theorem open_all_or_nothing (known : ∀ f, file = some f → f.contents.Known)
    (reach : GuardedReach act (fun _ _ => True) (quiet file) s) :
    (∀ n result, s.opened n = some (.ok result) → ∃ f, s.disk.file = some f ∧
      f.contents.Whole ∧ f.wal = true ∧ s.disk.handles n = some ⟨1, 2, none⟩ ∧
      s.disk.writer ≠ some n) ∧
    (∀ n error, s.opened n = some (.error error) →
      s.disk.handles n = none ∧ s.disk.writer ≠ some n) ∧
    (∀ f, s.disk.file = some f → f.contents.Known) ∧
    ∀ f, file = some f → ∃ f', s.disk.file = some f' ∧ f.contents.Later f'.contents := by
  have inv := inv_of_reach known reach
  refine ⟨fun n result hopened => ?_, fun n error hopened => ?_, inv.sound, fun f hf => ?_⟩
  · obtain ⟨⟨⟨foreignKeys, synchronous, transaction⟩, hhandle, hnone, hsync, hforeign⟩, hlock,
      f, hf, -, hwal, hwhole⟩ := (inv.safe n _ (opened_iff.mp hopened)).result
    obtain rfl : transaction = none := hnone
    obtain rfl : synchronous = 2 := hsync
    obtain rfl : foreignKeys = 1 := hforeign
    exact ⟨f, hf, hwhole, hwal, hhandle, hlock⟩
  · exact (inv.safe n _ (opened_iff.mp hopened)).result
  · obtain ⟨f', hf', hlater⟩ := inv.later f hf
    exact ⟨f', hf', hlater.contents⟩

/-- Connection 0 makes a new file, connection 1 has read version 0 before that and runs the
schema after it, over a store that is in use. -/
def race : List OpenersEvent :=
  ([.begin 0 [], .begin 1 []] : List OpenersEvent) ++ List.replicate 10 (.call 0 none) ++
    List.replicate 11 (.call 1 none) ++ List.replicate 4 (.call 0 none) ++
    [.work 0 ∅ 7] ++ List.replicate 4 (.call 1 none)

theorem open_all_or_nothing_race : ∃ s : Openers,
    s.opened 1 = some (.ok .openedExisting) ∧
    s.disk.file.map (·.contents.sequence) = some (some (some 7)) ∧
    ∃ f, s.disk.file = some f ∧ f.contents.Whole := by
  have hrun : (replay act race (quiet none)).any (fun s =>
      decide (s.opened 1 = some (.ok .openedExisting) ∧
        s.disk.file.map (·.contents.sequence) = some (some (some 7)))) = true := by
    decide +kernel
  obtain ⟨s, hs, hfacts⟩ := (Option.any_eq_true _ _).mp hrun
  obtain ⟨hopened, hsequence⟩ := of_decide_eq_true hfacts
  have hreach : GuardedReach act (fun _ _ => True) (quiet none) s :=
    .of_replay (AllSteps.of_free (fun _ _ => trivial) _ _) hs
  obtain ⟨hwhole, -⟩ := open_all_or_nothing (by simp) hreach
  obtain ⟨f, hf, hcontents, -⟩ := hwhole 1 _ hopened
  exact ⟨s, hopened, hsequence, f, hf, hcontents⟩

/-- In every history: once the file has its schema, no call of any `open` changes what it
holds, and neither does a connection that closes or dies. -/
theorem opens_keep_store (known : ∀ f, file = some f → f.contents.Known)
    (reach : GuardedReach act (fun _ _ => True) (quiet file) s) {f : File}
    (hf : s.disk.file = some f) (whole : f.contents.Whole) {event : OpenersEvent}
    (opens : ∀ n jobs next, event ≠ .work n jobs next) (hact : s.act event = some t) :
    ∃ f', t.disk.file = some f' ∧ f'.contents = f.contents := by
  have inv := inv_of_reach known reach
  have hkept : ∀ n d, Guarantee n s.disk d →
      ∃ f', d.file = some f' ∧ f'.contents = f.contents := by
    intro n d guarantee
    -- the guarantee allows a change of a bare file only
    obtain ⟨f', hf', -, hsame | ⟨-, hbare, -⟩⟩ := guarantee.file f hf
    · exact ⟨f', hf', hsame⟩
    · exact absurd (whole.version.symm.trans hbare.version) (by decide)
  cases step_of_act hact with
  | begun free => exact ⟨f, hf, rfl⟩
  | @called n op next fault hprog =>
      exact hkept n _ (inv.safe n _ hprog s.disk (.refl n s.disk) fault inv.sound).1
  | worked hprog free => exact absurd rfl (opens _ _ _)
  | @left n => exact hkept n _ (guarantee_close n s.disk)

/-- The `COMMIT` of connection 1 in the race, whose transaction has run the schema over the
store that is in use. -/
theorem opens_keep_store_sample : ∃ (s t : Openers) (f f' : File),
    s.disk.writer = some 1 ∧ s.act (.call 1 none) = some t ∧
      t.opened 1 = some (.ok .openedExisting) ∧ t.disk.writer = none ∧
      s.disk.file = some f ∧ f.contents.sequence = some (some 7) ∧
      t.disk.file = some f' ∧ f'.contents = f.contents := by
  have hrun : (replay act race.dropLast (quiet none)).any (fun s =>
      (s.act (.call 1 none)).any (fun t =>
        s.disk.file.any (fun f => decide (s.disk.writer = some 1 ∧
          t.opened 1 = some (.ok .openedExisting) ∧ t.disk.writer = none ∧
          f.contents.version = kSchemaVersion ∧ f.contents.jobs.isSome = true ∧
          f.contents.sequence = some (some 7))))) = true := by
    decide +kernel
  obtain ⟨s, hs, hrun⟩ := (Option.any_eq_true _ _).mp hrun
  obtain ⟨t, hact, hrun⟩ := (Option.any_eq_true _ _).mp hrun
  obtain ⟨f, hf, hfacts⟩ := (Option.any_eq_true _ _).mp hrun
  obtain ⟨hwriter, hopened, hfree, hversion, hjobs, hsequence⟩ := of_decide_eq_true hfacts
  have hreach : GuardedReach act (fun _ _ => True) (quiet none) s :=
    .of_replay (AllSteps.of_free (fun _ _ => trivial) _ _) hs
  have whole : f.contents.Whole := ⟨hversion, hjobs, by rw [hsequence]; rfl⟩
  obtain ⟨f', hf', hsame⟩ := opens_keep_store (by simp) hreach hf whole
    (by rintro n jobs next ⟨⟩) hact
  exact ⟨s, t, f, f', hwriter, hact, hopened, hfree, hf, hsequence, hf', hsame⟩

/-- In every history a file of another version keeps its contents, and nobody opens it. -/
theorem foreign_version_refused {f : File} (foreign : f.contents.Foreign)
    (reach : GuardedReach act (fun _ _ => True) (quiet (some f)) s) :
    (∃ f', s.disk.file = some f' ∧ f'.contents = f.contents) ∧
      ∀ n result, s.opened n ≠ some (.ok result) := by
  have known : ∀ f', some f = some f' → f'.contents.Known := by
    rintro f' ⟨⟩
    exact .inr foreign
  have inv := inv_of_reach known reach
  obtain ⟨f', hf', hlater⟩ := inv.later f rfl
  have hsame := hlater.contents.of_foreign foreign
  refine ⟨⟨f', hf', hsame⟩, fun n result hopened => ?_⟩
  obtain ⟨-, -, f'', hf'', -, -, hwhole⟩ := (inv.safe n _ (opened_iff.mp hopened)).result
  obtain rfl := Option.some.inj (hf'.symm.trans hf'')
  rw [hsame] at hwhole
  exact foreign.2 hwhole.version

/-- A file that a later version may have written. -/
def foreignFile : File := ⟨⟨2, some ∅, none⟩, true, lit "ok"⟩

theorem foreign_version_refused_sample : ∃ s : Openers,
    s.opened 0 = some (.error (versionMismatch 2)) ∧
      ∃ f', s.disk.file = some f' ∧ f'.contents = foreignFile.contents := by
  have hrun : (replay act (.begin 0 [] :: List.replicate 12 (.call 0 none))
      (quiet (some foreignFile))).any (fun s =>
        decide (s.opened 0 = some (.error (versionMismatch 2)))) = true := by
    decide +kernel
  obtain ⟨s, hs, hfacts⟩ := (Option.any_eq_true _ _).mp hrun
  have hreach : GuardedReach act (fun _ _ => True) (quiet (some foreignFile)) s :=
    .of_replay (AllSteps.of_free (fun _ _ => trivial) _ _) hs
  obtain ⟨hkept, -⟩ := foreign_version_refused ⟨by decide, by decide⟩ hreach
  exact ⟨s, of_decide_eq_true hfacts, hkept⟩

end Openers

end FileMover.Store.Opening
