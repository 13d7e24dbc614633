import FileMover.Json.Printing
import FileMover.Manager.Ids
import FileMover.Manager.Refusals

/-!
# The ids of retries

`retry` takes the suffix off the id it is given and looks for the first number whose
candidate is free. A candidate always loses its suffix again, whatever stands in front of
it, so the ids of a chain of retries differ in the number only.

The number is an `int`, and the store sees an id up to its first NUL. An id with a NUL has
only candidates that the store takes for the job itself.
-/

namespace FileMover

open Framework

/-! ## Suffixes -/

/-- The marker does not begin where its first byte does not stand. -/
theorem lastMarker_skip {b : UInt8} {marker s t : Bytes} (h : b ∉ s)
    (ht : lastMarker (b :: marker) t = none) : lastMarker (b :: marker) (s ++ t) = none := by
  induction s with
  | nil => exact ht
  | cons c s ih =>
      rw [List.mem_cons, not_or] at h
      rw [List.cons_append, lastMarker, ih h.2]
      dsimp only
      rw [if_neg]
      intro heq
      rw [List.length_cons, List.take_succ_cons] at heq
      exact h.1 (List.cons.inj heq).1.symm

theorem lastMarker_append {marker s : Bytes} {i : Nat} (front : Bytes)
    (h : lastMarker marker s = some i) :
    lastMarker marker (front ++ s) = some (front.length + i) := by
  induction front with
  | nil => simpa using h
  | cons c front ih =>
      rw [List.cons_append, lastMarker, ih]
      show some (front.length + i + 1) = _
      rw [List.length_cons, Nat.add_right_comm]

theorem isDigit_of_mem_decimal {n : Nat} {b : UInt8} (hb : b ∈ decimal n) : isDigit b = true := by
  obtain ⟨hlow, hhigh⟩ := mem_decimal hb
  exact Bool.and_eq_true_iff.mpr ⟨decide_eq_true hlow, decide_eq_true hhigh⟩

theorem dash_notMem_decimal (n : Nat) : (45 : UInt8) ∉ decimal n := by
  intro h
  exact absurd (isDigit_of_mem_decimal h) (by decide)

/-- The marker does not begin a second time inside the suffix. -/
theorem lastMarker_suffix (n : Nat) :
    lastMarker retryMarker (retryMarker ++ decimal n) = some 0 := by
  have hmarker : retryMarker = 45 :: lit "retry-" := rfl
  have hdigits : lastMarker retryMarker (decimal n) = none := by
    rw [← List.append_nil (decimal n), hmarker]
    exact lastMarker_skip (dash_notMem_decimal n) rfl
  have hdash : lastMarker retryMarker (45 :: decimal n) = none := by
    rw [lastMarker, hdigits]
    dsimp only
    rw [if_neg]
    -- after its dash the marker goes on with an `r`, the suffix with a digit
    intro heq
    cases hdecimal : decimal n with
    | nil => exact decimal_ne_nil n hdecimal
    | cons d ds =>
        rw [hdecimal] at heq
        have hd : d = 114 := (List.cons.inj (List.cons.inj heq).2).1
        have hdigit := isDigit_of_mem_decimal (n := n) (b := d) (by simp [hdecimal])
        rw [hd] at hdigit
        exact absurd hdigit (by decide)
  have hrest : lastMarker retryMarker (lit "retry" ++ 45 :: decimal n) = none := by
    rw [hmarker] at hdash ⊢
    exact lastMarker_skip (by decide) hdash
  have hsplit : retryMarker ++ decimal n = 45 :: (lit "retry" ++ 45 :: decimal n) := rfl
  rw [hsplit, lastMarker, hrest]
  rfl

/-- What `retry` appends is what it takes off again. -/
theorem stripRetrySuffix_append (root : Bytes) (n : Nat) :
    stripRetrySuffix (root ++ retryMarker ++ decimal n) = root := by
  have hdrop : (root ++ retryMarker ++ decimal n).drop (root.length + retryMarker.length) =
      decimal n := by
    rw [← List.length_append, List.drop_left]
  have hdigits : (decimal n).all isDigit = true :=
    List.all_eq_true.mpr fun _ hb => isDigit_of_mem_decimal hb
  rw [stripRetrySuffix, List.append_assoc, lastMarker_append root (lastMarker_suffix n),
    ← List.append_assoc]
  dsimp only
  rw [Nat.add_zero, hdrop, if_neg (decimal_ne_nil n), if_pos hdigits, List.append_assoc,
    List.take_left]

theorem retryCandidate_injective (id : Bytes) : Function.Injective (retryCandidate id) := by
  intro m n h
  rw [retryCandidate, retryCandidate] at h
  have hdecimal : decimal m = decimal n := List.append_cancel_left h
  rw [← Json.numeral_decimal m, hdecimal, Json.numeral_decimal]

theorem zero_notMem_retryCandidate {id : Bytes} (h : 0 ∉ id) (n : Nat) :
    0 ∉ retryCandidate id n := by
  rw [retryCandidate, List.mem_append, List.mem_append]
  rintro ((hroot | hmarker) | hdigits)
  · exact h ((stripRetrySuffix_front id).subset hroot)
  · exact absurd hmarker (by decide)
  · exact absurd (isDigit_of_mem_decimal hdigits) (by decide)

/-! ## Free ids -/

/-- Free in the durable record and in the live maps. -/
structure Vacant (s : System) (id : Bytes) : Prop where
  row : s.world.db.row id = none
  requests : id ∉ s.manager.requests
  pending : id ∉ s.manager.pending

/-- The store takes every candidate of an id with a NUL for the job itself. -/
theorem not_vacant_of_zero {s : System} {id : Bytes} (hzero : 0 ∈ id)
    (hrow : s.world.db.row id ≠ none) (n : Nat) : ¬ Vacant s (retryCandidate id n) := by
  intro h
  have hsame : s.world.db.row (retryCandidate id n) = s.world.db.row id :=
    congrArg s.world.db.lookup (cstr_retryCandidate hzero n)
  exact hrow (hsame.symm.trans h.row)

/-- How many ids are in use. -/
def System.taken (s : System) : Nat :=
  s.world.db.keys.length + s.manager.requests.keys.length + s.manager.pending.card

/-- Of an id without a NUL one of the first candidates is free: every candidate that is
not uses up a different id. -/
theorem exists_vacant (s : System) {id : Bytes} (hzero : 0 ∉ id) :
    ∃ n, 1 ≤ n ∧ n ≤ s.taken + 1 ∧ Vacant s (retryCandidate id n) := by
  by_contra hnone
  push Not at hnone
  let used : Finset Bytes :=
    s.world.db.keys.toFinset ∪ s.manager.requests.keys.toFinset ∪ s.manager.pending
  have hused : ∀ n ∈ Finset.Icc 1 (s.taken + 1), retryCandidate id n ∈ used := by
    intro n hn
    obtain ⟨hlow, hhigh⟩ := Finset.mem_Icc.mp hn
    by_contra hfree
    simp only [used, Finset.mem_union, List.mem_toFinset, not_or] at hfree
    obtain ⟨⟨hrow, hrequest⟩, hpending⟩ := hfree
    refine hnone n hlow hhigh ⟨?_, hrequest, hpending⟩
    rw [Database.row, cstr_of_notMem (zero_notMem_retryCandidate hzero n)]
    exact AList.lookup_eq_none.mpr hrow
  have hcard : (Finset.Icc 1 (s.taken + 1)).card ≤ used.card :=
    Finset.card_le_card_of_injOn _ hused (retryCandidate_injective id).injOn
  have hsize : used.card ≤ s.taken := by
    have hunion := Finset.card_union_le
      (s.world.db.keys.toFinset ∪ s.manager.requests.keys.toFinset) s.manager.pending
    have hmaps := Finset.card_union_le s.world.db.keys.toFinset s.manager.requests.keys.toFinset
    have hrows := s.world.db.keys.toFinset_card_le
    have hrequests := s.manager.requests.keys.toFinset_card_le
    simp only [System.taken, used]
    omega
  rw [Nat.card_Icc] at hcard
  omega

/-! ## A retry that nothing interrupts -/

/-- The command that thread `n` has begun comes to its end: what it does is bounded, nothing
keeps it waiting, and its counter stays an `int`. -/
structure EndsAlone (s₀ : System) (n : Nat) : Prop where
  bounded : ∃ bound, ∀ events t, AllSteps System.act (Uninterrupted n) events s₀ →
    replay System.act events s₀ = some t → events.length ≤ bound
  unstuck : ∀ t, GuardedReach System.act (Uninterrupted n) s₀ t →
    (∃ outcome error, t.threads n = .returned outcome error) ∨
      ∃ event u, Uninterrupted n t event ∧ t.act event = some u
  counter : ∀ t id move nowMs k rest, GuardedReach System.act (Uninterrupted n) s₀ t →
    t.threads n = .retryProbes id move nowMs k rest → k < 2 ^ 31

/-- A retry of `id`, with nothing else going on, returns `Ok` and this id. -/
def YieldsAlone (s : System) (n : Nat) (id : Bytes) (nowMs : Int) (id' : Bytes) : Prop :=
  ∃ s₀ t, s.storeMutex = none ∧ s.act (.retry n id nowMs) = some s₀ ∧
    GuardedReach System.act (Uninterrupted n) s₀ t ∧ id' ∈ Lives.yields t (.proceed n)

/-- Some retry of the one job has made the other. -/
def RetriedAs (id id' : Bytes) : Prop := ∃ s n nowMs, YieldsAlone s n id nowMs id'

structure FirstFree (s : System) (id : Bytes) (k : Nat) : Prop where
  pos : 1 ≤ k
  free : Vacant s (retryCandidate id k)
  least : ∀ i, 1 ≤ i → i < k → ¬ Vacant s (retryCandidate id i)

/-- A retry of this id by thread `n`, and every chain of retries that begins with it. -/
structure FlatAndDense (s : System) (n : Nat) (id : Bytes) (nowMs : Int) : Prop where
  ends : ∀ s₀, s.act (.retry n id nowMs) = some s₀ → EndsAlone s₀ n
  dense : ∀ id', YieldsAlone s n id nowMs id' →
    ∃ k, FirstFree s id k ∧ id' = stripRetrySuffix id ++ retryMarker ++ decimal k
  flat : ∀ id', Relation.TransGen RetriedAs id id' →
    ∃ k, 1 ≤ k ∧ id' = stripRetrySuffix id ++ retryMarker ++ decimal k ∧
      stripRetrySuffix id' = stripRetrySuffix id

/-- A retry of this job is not refused before it looks for an id. -/
structure Retriable (s : System) (id : Bytes) : Prop where
  running : s.manager.running = true
  known : id ∈ s.manager.requests
  failed : s.world.db.state id = some .failed

theorem Retriable.row_ne_none {s : System} {id : Bytes} (h : Retriable s id) :
    s.world.db.row id ≠ none := by
  intro hnone
  have hfailed := h.failed
  rw [Database.state, hnone] at hfailed
  cases hfailed

/-- How far a retry has come that nothing interrupts: nothing has changed, and the
candidates behind it are taken. -/
def Seeking (s : System) (id : Bytes) (t : System) : Thread → Prop
  | .retryWaits id' _ _ =>
      id' = id ∧ t.manager = s.manager ∧ t.world = s.world ∧
        (s.manager.running = true ∧ id ∈ s.manager.requests) ∧ t.storeMutex = none
  | .retryLoads id' _ _ rest =>
      id' = id ∧ t.manager = s.manager ∧ t.world = s.world ∧
        (s.manager.running = true ∧ id ∈ s.manager.requests) ∧
        (rest = loadForRetry id ∨ ∃ result, rest = .pure result ∧
          (result = .ok () → s.world.db.state id = some .failed))
  | .retryProbes id' _ _ k rest =>
      id' = id ∧ t.manager = s.manager ∧ t.world = s.world ∧ Retriable s id ∧
        (1 ≤ k ∧ ∀ i, 1 ≤ i → i < k → ¬ Vacant s (retryCandidate id i)) ∧
        (rest = probeCandidate (retryCandidate id k) ∨ ∃ result, rest = .pure result ∧
          ∀ taken, result = .ok taken → taken = (s.world.db.row (retryCandidate id k)).isSome)
  | .retryRecords candidate _ rest =>
      (∃ k, FirstFree s id k ∧ candidate = retryCandidate id k) ∧
        ((∃ job, rest = recordIntent job id) ∨ ∃ result, rest = .pure result)
  | .returned _ _ => True
  | _ => False

/-- How many steps are still to come if the candidate `last` is free. -/
def stepsLeft (last : Nat) : Thread → Nat
  | .retryWaits _ _ _ => 2 * last + 7
  | .retryLoads _ _ _ (.call _ _) => 2 * last + 6
  | .retryLoads _ _ _ (.pure _) => 2 * last + 5
  | .retryProbes _ _ _ k (.call _ _) => 2 * (last - k) + 4
  | .retryProbes _ _ _ k (.pure _) => 2 * (last - k) + 3
  | .retryRecords _ _ (.call _ _) => 2
  | .retryRecords _ _ (.pure _) => 1
  | _ => 0

/-! ### One step -/

section Alone
variable {s t u : System} {n last : Nat} {id : Bytes} {nowMs : Int}

theorem loadForRetry_call {c : Call} {next : Reply c → Prog (Except Refusal Unit)}
    (h : Program.call c next = loadForRetry id) (fault : Option Fault) (w : World) :
    (perform c.op fault w).2 = w ∧ ∃ result, next (perform c.op fault w).1 = .pure result ∧
      (result = .ok () → w.db.state id = some .failed) ∧
      (fault = none → w.db.state id = some .failed → result = .ok ()) := by
  cases h
  refine ⟨perform_readOnly rfl fault w, ?_⟩
  rcases perform_cases (.selectJob id) fault w with ⟨e, -, heq⟩ | heq
  · dsimp only
    rw [heq]
    refine ⟨_, rfl, by rintro ⟨⟩, fun hnone => ?_⟩
    subst hnone
    cases congrArg Prod.fst heq
  · dsimp only
    rw [heq]
    have hanswer : (answer (.selectJob id) w).1 = .ok ((w.db.row id).map (·.job)) := rfl
    rw [hanswer]
    rw [Database.state]
    cases hr : w.db.row id with
    | none => exact ⟨_, rfl, by rintro ⟨⟩, by rintro _ ⟨⟩⟩
    | some r =>
        show ∃ result, (if r.job.state ≠ .failed then Program.pure (Except.error _)
          else Program.pure (Except.ok ())) = Program.pure result ∧ (result = .ok () → _) ∧ _
        rw [Option.map_some]
        split_ifs with hfailed
        · exact ⟨_, rfl, by rintro ⟨⟩, fun _ h => absurd (Option.some.inj h) hfailed⟩
        · exact ⟨_, rfl, fun _ => congrArg some (not_not.mp hfailed), fun _ _ => rfl⟩

theorem probeCandidate_call {candidate : Bytes} {c : Call}
    {next : Reply c → Prog (Except Bytes Bool)}
    (h : Program.call c next = probeCandidate candidate) (fault : Option Fault) (w : World) :
    (perform c.op fault w).2 = w ∧ ∃ result, next (perform c.op fault w).1 = .pure result ∧
      (∀ taken, result = .ok taken → taken = (w.db.row candidate).isSome) ∧
      (fault = none → result = .ok (w.db.row candidate).isSome) := by
  cases h
  refine ⟨perform_readOnly rfl fault w, ?_⟩
  rcases perform_cases (.selectJob candidate) fault w with ⟨e, -, heq⟩ | heq
  · dsimp only
    rw [heq]
    refine ⟨_, rfl, nofun, fun hnone => ?_⟩
    subst hnone
    cases congrArg Prod.fst heq
  · dsimp only
    rw [heq]
    refine ⟨.ok _, rfl, ?_, fun _ => congrArg Except.ok Option.isSome_map⟩
    rintro taken ⟨rfl⟩
    exact Option.isSome_map

theorem Manager.claimRetry_ok {m : Manager} {move : MoveRequest}
    (h : m.claimRetry id = .ok move) : m.running = true ∧ id ∈ m.requests := by
  unfold Manager.claimRetry at h
  split at h
  · cases h
  · rename_i hrunning
    split at h
    · cases h
    · rename_i hlookup
      exact ⟨by simpa using hrunning, AList.lookup_isSome.mp (by rw [hlookup]; rfl)⟩

theorem seeking_begun (alone : s.storeMutex = none)
    (hact : s.act (.retry n id nowMs) = some t) : Seeking s id t (t.threads n) := by
  simp only [System.act] at hact
  split at hact
  · split at hact
    · cases hact
      rw [System.threads_setThread_self]
      trivial
    · rename_i hclaim
      cases hact
      rw [System.threads_setThread_self]
      exact ⟨rfl, rfl, rfl, Manager.claimRetry_ok hclaim, alone⟩
  · cases hact

theorem exists_firstFree {k : Nat} (hpos : 1 ≤ k) (hfree : Vacant s (retryCandidate id k)) :
    ∃ first, FirstFree s id first ∧ first ≤ k := by
  classical
  have hexists : ∃ k, 1 ≤ k ∧ Vacant s (retryCandidate id k) := ⟨k, hpos, hfree⟩
  obtain ⟨hfirst, hvacant⟩ := Nat.find_spec hexists
  refine ⟨Nat.find hexists, ⟨hfirst, hvacant, fun i hi hlt => ?_⟩, Nat.find_le ⟨hpos, hfree⟩⟩
  exact fun h => Nat.find_min hexists hlt ⟨hi, h⟩

/-- The candidates behind a probe do not go past the first free one. -/
theorem FirstFree.le {k : Nat} (first : FirstFree s id last)
    (h : ∀ i, 1 ≤ i → i < k → ¬ Vacant s (retryCandidate id i)) : k ≤ last := by
  by_contra hlt
  exact h last first.pos (by omega) first.free

theorem Seeking.locked {thread thread' : Thread} (h : Seeking s id t thread)
    (hlocked : thread.locked = some thread') (hmanager : u.manager = t.manager)
    (hworld : u.world = t.world) :
    Seeking s id u thread' ∧ stepsLeft last thread' < stepsLeft last thread := by
  cases thread with
  | submitWaits | cancelWaits => exact h.elim
  | retryWaits id' move nowMs =>
      cases hlocked
      obtain ⟨rfl, hm, hw, hknown, -⟩ := h
      refine ⟨⟨rfl, hmanager.trans hm, hworld.trans hw, hknown, .inl rfl⟩, ?_⟩
      show 2 * last + 6 < 2 * last + 7
      omega
  | _ => cases hlocked

theorem Seeking.called {thread : Thread} {c : Call} {rest : Reply c → Thread}
    {fault : Option Fault} (h : Seeking s id t thread) (calling : Calling thread c rest)
    (hmanager : u.manager = t.manager) (hworld : u.world = (perform c.op fault t.world).2) :
    Seeking s id u (rest (perform c.op fault t.world).1) ∧
      stepsLeft last (rest (perform c.op fault t.world).1) < stepsLeft last thread := by
  cases calling with
  | working | submit | cancel => exact h.elim
  | retryLoad =>
      obtain ⟨rfl, hm, hw, hknown, hrest⟩ := h
      have hcall := hrest.resolve_right nofun
      obtain ⟨hsame, result, hnext, hfailed, -⟩ := loadForRetry_call hcall fault t.world
      dsimp only
      rw [hnext]
      rw [hw] at hfailed
      refine ⟨⟨rfl, hmanager.trans hm, hworld.trans (hsame.trans hw), hknown,
        .inr ⟨result, rfl, hfailed⟩⟩, ?_⟩
      show 2 * last + 5 < 2 * last + 6
      omega
  | @retryProbe _ _ _ k =>
      obtain ⟨rfl, hm, hw, hretriable, hbehind, hrest⟩ := h
      have hcall := hrest.resolve_right nofun
      obtain ⟨hsame, result, hnext, htaken, -⟩ := probeCandidate_call hcall fault t.world
      dsimp only
      rw [hnext]
      rw [hw] at htaken
      refine ⟨⟨rfl, hmanager.trans hm, hworld.trans (hsame.trans hw), hretriable, hbehind,
        .inr ⟨result, rfl, htaken⟩⟩, ?_⟩
      show 2 * (last - k) + 3 < 2 * (last - k) + 4
      omega
  | retryRecord =>
      obtain ⟨hfirst, hrest⟩ := h
      obtain ⟨job, hcall⟩ := hrest.resolve_right nofun
      rcases (recordIntent_call hcall).2 (perform c.op fault t.world).1 with
        ⟨message, herror⟩ | ⟨hok, -⟩
      · dsimp only
        rw [herror]
        exact ⟨⟨hfirst, .inr ⟨_, rfl⟩⟩, Nat.one_lt_two⟩
      · dsimp only
        rw [hok]
        exact ⟨⟨hfirst, .inr ⟨_, rfl⟩⟩, Nat.one_lt_two⟩

theorem Manager.claimCandidate_isNone {m : Manager} {candidate : Bytes}
    (h : m.claimCandidate candidate = none) :
    ¬ (candidate ∉ m.requests ∧ candidate ∉ m.pending) := by
  unfold Manager.claimCandidate at h
  split at h
  · cases h
  · assumption

/-- The next candidate is tried: the present one is taken. -/
theorem seeking_tries {move : MoveRequest} {k : Nat} (hmanager : u.manager = s.manager)
    (hworld : u.world = s.world) (hretriable : Retriable s id)
    (hbehind : ∀ i, 1 ≤ i → i < k → ¬ Vacant s (retryCandidate id i))
    (htaken : 1 ≤ k → ¬ Vacant s (retryCandidate id k)) :
    Seeking s id u (retryTries id move nowMs (k + 1)) := by
  refine ⟨rfl, hmanager, hworld, hretriable, ⟨by omega, fun i hi hlt => ?_⟩, .inl rfl⟩
  rcases Nat.lt_succ_iff_lt_or_eq.mp hlt with hbefore | rfl
  · exact hbehind i hi hbefore
  · exact htaken hi

theorem Seeking.proceed (h : Seeking s id t (t.threads n)) (hproceed : t.proceed n = some u) :
    Seeking s id u (u.threads n) ∧
      ((Retriable s id → FirstFree s id last) →
        stepsLeft last (u.threads n) < stepsLeft last (t.threads n)) := by
  unfold System.proceed at hproceed
  split at hproceed
  · rename_i hthread
    rw [hthread] at h
    exact h.elim
  · rename_i hthread
    rw [hthread] at h
    exact h.elim
  · rename_i hthread
    rw [hthread] at h
    exact h.elim
  · rename_i hthread
    rw [hthread] at h
    exact h.elim
  · rename_i id' move nowMs result hthread
    rw [hthread] at h ⊢
    obtain ⟨rfl, hmanager, hworld, ⟨hrunning, hknown⟩, hrest⟩ := h
    split at hproceed
    · cases hproceed
      rw [System.threads_setThread_self]
      exact ⟨trivial, fun _ => by simp [stepsLeft]⟩
    · cases hproceed
      rw [System.threads_setThread_self]
      have hfailed : s.world.db.state id' = some .failed := by
        rcases hrest with hcall | ⟨result', hpure, himplies⟩
        · cases hcall
        · cases hpure
          exact himplies rfl
      refine ⟨seeking_tries hmanager hworld ⟨hrunning, hknown, hfailed⟩ (by omega) (by omega),
        fun _ => ?_⟩
      show 2 * (last - 1) + 4 < 2 * last + 5
      omega
  · rename_i id' move nowMs k result hthread
    rw [hthread] at h ⊢
    obtain ⟨rfl, hmanager, hworld, hretriable, ⟨hpos, hbehind⟩, hrest⟩ := h
    have htaken : ∀ taken, result = .ok taken →
        taken = (s.world.db.row (retryCandidate id' k)).isSome := by
      rcases hrest with hcall | ⟨result', hpure, htaken⟩
      · cases hcall
      · cases hpure
        exact htaken
    have hnext : ¬ Vacant s (retryCandidate id' k) →
        Seeking s id' (t.setThread n (retryTries id' move nowMs (k + 1)))
            (retryTries id' move nowMs (k + 1)) ∧
          ((Retriable s id' → FirstFree s id' last) →
            stepsLeft last (retryTries id' move nowMs (k + 1)) < 2 * (last - k) + 3) := by
      intro htaken
      have hseeking : Seeking s id' (t.setThread n (retryTries id' move nowMs (k + 1)))
          (retryTries id' move nowMs (k + 1)) :=
        seeking_tries hmanager hworld hretriable hbehind fun _ => htaken
      refine ⟨hseeking, fun first => ?_⟩
      have hle := (first hretriable).le hseeking.2.2.2.2.1.2
      show 2 * (last - (k + 1)) + 4 < 2 * (last - k) + 3
      omega
    split at hproceed
    · cases hproceed
      rw [System.threads_setThread_self]
      exact ⟨trivial, fun _ => by simp [stepsLeft]⟩
    · cases hproceed
      rw [System.threads_setThread_self]
      refine hnext fun hfree => ?_
      have hsome := htaken true rfl
      rw [hfree.row] at hsome
      cases hsome
    · split at hproceed
      · rename_i m hclaim
        obtain ⟨hrequests, hpending, -⟩ := Manager.claimCandidate_eq hclaim
        cases hproceed
        rw [System.threads_setThread_self]
        rw [hmanager] at hrequests hpending
        have hrow : s.world.db.row (retryCandidate id' k) = none :=
          Option.isNone_iff_eq_none.mp (Option.isSome_eq_false_iff.mp (htaken false rfl).symm)
        refine ⟨⟨⟨k, ⟨hpos, ⟨hrow, hrequests, hpending⟩, hbehind⟩, rfl⟩, .inl ⟨_, rfl⟩⟩,
          fun _ => ?_⟩
        show 2 < 2 * (last - k) + 3
        omega
      · rename_i hclaim
        cases hproceed
        rw [System.threads_setThread_self]
        refine hnext fun hfree => Manager.claimCandidate_isNone hclaim ?_
        rw [hmanager]
        exact ⟨hfree.requests, hfree.pending⟩
  · rename_i candidate move recorded hthread
    cases hproceed
    rw [hthread, System.threads_setThread_self]
    cases recorded <;> exact ⟨trivial, fun _ => Nat.one_pos⟩
  · cases hproceed

theorem Seeking.step {event : ManagerEvent} (own : Uninterrupted n t event)
    (hact : t.act event = some u) (h : Seeking s id t (t.threads n)) :
    Seeking s id u (u.threads n) ∧
      ((Retriable s id → FirstFree s id last) →
        stepsLeft last (u.threads n) < stepsLeft last (t.threads n)) := by
  cases event with
  | lock k =>
      cases own
      simp only [System.act] at hact
      split at hact
      · rename_i thread hlocked _
        have hu := (Option.some.inj hact).symm
        have hthread : u.threads n = thread := by rw [hu, System.threads_setThread_self]
        have hmanager : u.manager = t.manager := by rw [hu]; rfl
        have hworld : u.world = t.world := by rw [hu]; rfl
        rw [hthread]
        obtain ⟨hseeking, hless⟩ := h.locked hlocked hmanager hworld
        exact ⟨hseeking, fun _ => hless⟩
      · cases hact
  | call k fault =>
      cases own
      simp only [System.act] at hact
      split at hact
      · rename_i c rest hnext
        have hu := (Option.some.inj hact).symm
        have hthread : u.threads n = rest (perform c.op fault t.world).1 := by
          rw [hu, System.threads_setThread_self]
        have hmanager : u.manager = t.manager := by rw [hu]; rfl
        have hworld : u.world = (perform c.op fault t.world).2 := by rw [hu]; rfl
        rw [hthread]
        obtain ⟨hseeking, hless⟩ := h.called (Thread.next_calling hnext) hmanager hworld
        exact ⟨hseeking, fun _ => hless⟩
      · cases hact
  | proceed k =>
      cases own
      exact h.proceed hact
  | _ => exact own.elim

/-! ### The whole command -/

theorem Seeking.run (h : Seeking s id t (t.threads n))
    (hrun : GuardedReach System.act (Uninterrupted n) t u) : Seeking s id u (u.threads n) := by
  refine hrun.invariant (fun v => Seeking s id v (v.threads n)) ?_ h
  intro v v' event own hact hv
  have hstep : Seeking s id v' (v'.threads n) ∧ ((Retriable s id → FirstFree s id 0) →
      stepsLeft 0 (v'.threads n) < stepsLeft 0 (v.threads n)) := hv.step own hact
  exact hstep.1

theorem Seeking.length_le (h : Seeking s id t (t.threads n))
    (first : Retriable s id → FirstFree s id last)
    {events : List ManagerEvent} (own : AllSteps System.act (Uninterrupted n) events t)
    (hrun : replay System.act events t = some u) :
    events.length ≤ stepsLeft last (t.threads n) := by
  induction events generalizing t with
  | nil => exact Nat.zero_le _
  | cons event events ih =>
      obtain ⟨v, hact, hrest⟩ := Option.bind_eq_some_iff.mp hrun
      obtain ⟨hseeking, hless⟩ := h.step own.1 hact
      have hlength := ih hseeking (own.2 v hact) hrest
      have hone := hless first
      rw [List.length_cons]
      omega

theorem exists_call {c : Call} {rest : Reply c → Thread}
    (h : (t.threads n).next = some ⟨c, rest⟩) :
    ∃ event u, Uninterrupted n t event ∧ t.act event = some u := by
  refine ⟨.call n none, ?_⟩
  simp only [System.act, h]
  exact ⟨_, rfl, rfl⟩

theorem Seeking.unstuck (h : Seeking s id t (t.threads n)) :
    (∃ outcome error, t.threads n = .returned outcome error) ∨
      ∃ event u, Uninterrupted n t event ∧ t.act event = some u := by
  cases hthread : t.threads n with
  | returned outcome error => exact .inl ⟨outcome, error, rfl⟩
  | retryWaits id' move nowMs =>
      rw [hthread] at h
      refine .inr ⟨.lock n, ?_⟩
      simp only [System.act, hthread, Thread.locked, h.2.2.2.2]
      exact ⟨_, rfl, rfl⟩
  | retryLoads id' move nowMs rest =>
      cases rest with
      | call c rest => exact .inr (exists_call (by rw [hthread]; rfl))
      | pure result =>
          refine .inr ⟨.proceed n, ?_⟩
          simp only [System.act, System.proceed, hthread]
          cases result <;> exact ⟨_, rfl, rfl⟩
  | retryProbes id' move nowMs k rest =>
      cases rest with
      | call c rest => exact .inr (exists_call (by rw [hthread]; rfl))
      | pure result =>
          refine .inr ⟨.proceed n, ?_⟩
          simp only [System.act, System.proceed, hthread]
          rcases result with message | taken
          · exact ⟨_, rfl, rfl⟩
          · cases taken with
            | true => exact ⟨_, rfl, rfl⟩
            | false => cases t.manager.claimCandidate (retryCandidate id' k) <;> exact ⟨_, rfl, rfl⟩
  | retryRecords candidate move rest =>
      cases rest with
      | call c rest => exact .inr (exists_call (by rw [hthread]; rfl))
      | pure result =>
          refine .inr ⟨.proceed n, ?_⟩
          simp only [System.act, System.proceed, hthread]
          exact ⟨_, rfl, rfl⟩
  | _ =>
      rw [hthread] at h
      exact h.elim

/-- What is left to do is bounded by the first free candidate, if there has to be one. -/
theorem endsAlone_of_firstFree (h : Seeking s id t (t.threads n))
    (first : Retriable s id → FirstFree s id last) (small : last < 2 ^ 31) :
    EndsAlone t n where
  bounded := ⟨stepsLeft last (t.threads n), fun _ _ own hrun => h.length_le first own hrun⟩
  unstuck u hrun := (h.run hrun).unstuck
  counter u id' move nowMs k rest hrun hthread := by
    have hu := h.run hrun
    rw [hthread] at hu
    obtain ⟨-, -, -, hretriable, hbehind, -⟩ := hu
    exact ((first hretriable).le hbehind.2).trans_lt small

/-- The id that a retry returns is the first free candidate. -/
theorem YieldsAlone.firstFree {id' : Bytes} (h : YieldsAlone s n id nowMs id') :
    ∃ k, FirstFree s id k ∧ id' = stripRetrySuffix id ++ retryMarker ++ decimal k := by
  obtain ⟨s₀, t, alone, hact, hrun, hyield⟩ := h
  have hseeking := (seeking_begun alone hact).run hrun
  obtain ⟨m, hproceed, hrecorded, -⟩ := Lives.mem_yields hyield
  cases hproceed
  rcases Thread.recorded_eq_some hrecorded with ⟨_, hthread⟩ | ⟨_, hthread⟩ | ⟨_, hthread⟩
  · rw [hthread] at hseeking
    exact hseeking.elim
  · rw [hthread] at hseeking
    exact hseeking.elim
  · rw [hthread] at hseeking
    exact hseeking.1

/-- Every id of a chain of retries has the root of the first one, and one suffix. -/
theorem RetriedAs.flat {id' : Bytes} (chain : Relation.TransGen RetriedAs id id') :
    ∃ k, 1 ≤ k ∧ id' = stripRetrySuffix id ++ retryMarker ++ decimal k ∧
      stripRetrySuffix id' = stripRetrySuffix id := by
  induction chain with
  | single h =>
      obtain ⟨s, n, nowMs, h⟩ := h
      obtain ⟨k, first, rfl⟩ := h.firstFree
      exact ⟨k, first.pos, rfl, stripRetrySuffix_append _ k⟩
  | tail _ h ih =>
      obtain ⟨_, -, -, hroot⟩ := ih
      obtain ⟨s, n, nowMs, h⟩ := h
      obtain ⟨k, first, rfl⟩ := h.firstFree
      rw [hroot]
      exact ⟨k, first.pos, rfl, stripRetrySuffix_append _ k⟩

/-! ### Taken candidates -/

/-- A call that reads and does not fail. -/
theorem exists_read {c : Call} {rest : Reply c → Thread}
    (hnext : (t.threads n).next = some ⟨c, rest⟩)
    (hread : (perform c.op none t.world).2 = t.world) :
    ∃ u, GuardedStep System.act (Uninterrupted n) t u ∧
      u.threads n = rest (perform c.op none t.world).1 ∧ u.manager = t.manager ∧
      u.world = t.world := by
  refine ⟨{ t with world := (perform c.op none t.world).2 }.setThread n
    (rest (perform c.op none t.world).1), ⟨.call n none, rfl, ?_⟩, ?_⟩
  · simp only [System.act, hnext]
  · exact ⟨System.threads_setThread_self, rfl, hread⟩

/-- A retry that is not refused comes to look for an id, -/
theorem exists_tries (free : (s.threads n).isFree = true) (alone : s.storeMutex = none)
    (retriable : Retriable s id) :
    ∃ s₀ t move, s.act (.retry n id nowMs) = some s₀ ∧
      GuardedReach System.act (Uninterrupted n) s₀ t ∧
      t.threads n = retryTries id move nowMs 1 ∧ t.manager = s.manager ∧ t.world = s.world := by
  obtain ⟨move, hmove⟩ := AList.lookup_isSome.mpr retriable.known |> Option.isSome_iff_exists.mp
  have hclaim : s.manager.claimRetry id = .ok move := by
    simp [Manager.claimRetry, retriable.running, hmove]
  let s₀ := s.setThread n (.retryWaits id move nowMs)
  let s₁ := { s₀ with storeMutex := some n }.setThread n
    (.retryLoads id move nowMs (loadForRetry id))
  have hbegun : s.act (.retry n id nowMs) = some s₀ := by
    simp only [System.act, free, hclaim]
    rfl
  have hlock : s₀.act (.lock n) = some s₁ := by
    have hthread : s₀.threads n = .retryWaits id move nowMs := System.threads_setThread_self
    have hmutex : s₀.storeMutex = none := alone
    simp only [System.act, hthread, Thread.locked, hmutex]
    rfl
  have hthread : s₁.threads n = .retryLoads id move nowMs (loadForRetry id) :=
    System.threads_setThread_self
  have hcall : ∃ c rest, Program.call c rest = loadForRetry id := ⟨_, _, rfl⟩
  obtain ⟨c, rest, hcall⟩ := hcall
  obtain ⟨hsame, result, hanswer, -, hfailed⟩ := loadForRetry_call hcall none s₁.world
  cases hfailed rfl retriable.failed
  obtain ⟨t, hload, hloaded, hmanager, hworld⟩ :=
    exists_read (t := s₁) (n := n) (by rw [hthread, ← hcall]; rfl) hsame
  have hloaded' : t.threads n = .retryLoads id move nowMs (.pure (.ok ())) :=
    hloaded.trans (congrArg (Thread.retryLoads id move nowMs) hanswer)
  have hproceed : t.act (.proceed n) = some (t.setThread n (retryTries id move nowMs 1)) := by
    simp only [System.act, System.proceed, hloaded']
  refine ⟨s₀, t.setThread n (retryTries id move nowMs 1), move, hbegun, ?_,
    System.threads_setThread_self, hmanager, hworld⟩
  have hfirst : GuardedReach System.act (Uninterrupted n) s₀ s₁ := .single ⟨.lock n, rfl, hlock⟩
  exact (hfirst.tail hload).tail ⟨.proceed n, rfl, hproceed⟩

/-- and goes past every candidate that is taken. -/
theorem exists_triesNext {move : MoveRequest} {k : Nat}
    (hthread : t.threads n = retryTries id move nowMs k) (hmanager : t.manager = s.manager)
    (hworld : t.world = s.world) (htaken : ¬ Vacant s (retryCandidate id k)) :
    ∃ u, GuardedReach System.act (Uninterrupted n) t u ∧
      u.threads n = retryTries id move nowMs (k + 1) ∧ u.manager = s.manager ∧
      u.world = s.world := by
  have hcall : ∃ c rest, Program.call c rest = probeCandidate (retryCandidate id k) := ⟨_, _, rfl⟩
  obtain ⟨c, rest, hcall⟩ := hcall
  obtain ⟨hsame, result, hanswer, -, hresult⟩ := probeCandidate_call hcall none t.world
  obtain ⟨v, hprobe, hprobed, hvmanager, hvworld⟩ :=
    exists_read (t := t) (n := n) (by rw [hthread, retryTries, ← hcall]; rfl) hsame
  have hprobed' : v.threads n = .retryProbes id move nowMs k
      (.pure (.ok (t.world.db.row (retryCandidate id k)).isSome)) := by
    rw [← hresult rfl, ← hanswer]
    exact hprobed
  have hproceed : v.act (.proceed n) = some (v.setThread n (retryTries id move nowMs (k + 1))) := by
    simp only [System.act, System.proceed, hprobed']
    cases hrow : t.world.db.row (retryCandidate id k) with
    | some r => rfl
    | none =>
        -- free in the store, so one of the maps has it
        have hclaim : v.manager.claimCandidate (retryCandidate id k) = none := by
          rw [Manager.claimCandidate, if_neg]
          rw [hvmanager, hmanager]
          rw [hworld] at hrow
          exact fun hfree => htaken ⟨hrow, hfree.1, hfree.2⟩
        simp only [Option.isSome_none, hclaim]
  refine ⟨v.setThread n (retryTries id move nowMs (k + 1)), ?_, System.threads_setThread_self,
    hvmanager.trans hmanager, hvworld.trans hworld⟩
  exact (Relation.ReflTransGen.single hprobe).tail ⟨.proceed n, rfl, hproceed⟩

theorem exists_triesMany {move : MoveRequest} {k : Nat}
    (hthread : t.threads n = retryTries id move nowMs 1) (hmanager : t.manager = s.manager)
    (hworld : t.world = s.world)
    (htaken : ∀ i, 1 ≤ i → i ≤ k → ¬ Vacant s (retryCandidate id i)) :
    ∃ u, GuardedReach System.act (Uninterrupted n) t u ∧
      u.threads n = retryTries id move nowMs (k + 1) ∧ u.manager = s.manager ∧
      u.world = s.world := by
  induction k with
  | zero => exact ⟨t, .refl, hthread, hmanager, hworld⟩
  | succ k ih =>
      obtain ⟨u, hrun, hu, humanager, huworld⟩ := ih fun i hi hle => htaken i hi (by omega)
      obtain ⟨v, hnext, hv⟩ :=
        exists_triesNext hu humanager huworld (htaken (k + 1) (by omega) le_rfl)
      exact ⟨v, hrun.trans hnext, hv⟩

/-- If every number that fits an `int` is taken, the counter runs over. -/
theorem not_endsAlone (free : (s.threads n).isFree = true) (alone : s.storeMutex = none)
    (retriable : Retriable s id)
    (htaken : ∀ k, 1 ≤ k → k < 2 ^ 31 → ¬ Vacant s (retryCandidate id k)) :
    ∃ s₀, s.act (.retry n id nowMs) = some s₀ ∧ ¬ EndsAlone s₀ n := by
  have htries : ∃ s₀ t move, s.act (.retry n id nowMs) = some s₀ ∧
      GuardedReach System.act (Uninterrupted n) s₀ t ∧
      t.threads n = retryTries id move nowMs 1 ∧ t.manager = s.manager ∧ t.world = s.world :=
    exists_tries free alone retriable
  obtain ⟨s₀, t, move, hact, hrun, hthread, hmanager, hworld⟩ := htries
  obtain ⟨u, hmore, hu, -⟩ := exists_triesMany (k := 2 ^ 31 - 1) hthread hmanager hworld
    fun i hi hle => htaken i hi (by omega)
  refine ⟨s₀, hact, fun hends => ?_⟩
  have hcount := hends.counter u _ _ _ _ _ (hrun.trans hmore) hu
  omega

end Alone

/-- With nothing else going on, a retry ends with the first free candidate of its root, and
all ids of a chain of retries have one root and one suffix, exactly if the retry is refused
before it looks for an id, or its id has no NUL and a candidate that fits an `int` is free.
Some candidate of an id without a NUL always is. -/
theorem retry_flat_and_dense_iff {s : System} {n : Nat} (free : (s.threads n).isFree = true)
    (alone : s.storeMutex = none) (id : Bytes) (nowMs : Int) :
    (FlatAndDense s n id nowMs ↔
      (Retriable s id → 0 ∉ id ∧ ∃ k, 1 ≤ k ∧ k < 2 ^ 31 ∧ Vacant s (retryCandidate id k))) ∧
      (0 ∉ id → ∃ k, 1 ≤ k ∧ k ≤ s.taken + 1 ∧ Vacant s (retryCandidate id k)) := by
  refine ⟨⟨fun h retriable => ?_, fun hcond => ?_⟩, exists_vacant s⟩
  · by_contra hnot
    obtain ⟨s₀, hact, hends⟩ : ∃ s₀, s.act (.retry n id nowMs) = some s₀ ∧ ¬ EndsAlone s₀ n := by
      refine not_endsAlone free alone retriable fun k hpos hsmall hfree => ?_
      refine hnot ⟨fun hzero => ?_, k, hpos, hsmall, hfree⟩
      exact not_vacant_of_zero hzero retriable.row_ne_none k hfree
    exact hends (h.ends s₀ hact)
  · refine ⟨fun s₀ hact => ?_, fun id' h => h.firstFree, fun id' chain => RetriedAs.flat chain⟩
    have hseeking := seeking_begun alone hact
    by_cases retriable : Retriable s id
    · obtain ⟨-, k, hpos, hsmall, hfree⟩ := hcond retriable
      obtain ⟨last, first, hle⟩ := exists_firstFree hpos hfree
      exact endsAlone_of_firstFree hseeking (fun _ => first) (by omega)
    · have hnone : Retriable s id → FirstFree s id 0 := fun h => absurd h retriable
      exact endsAlone_of_firstFree hseeking hnone (by norm_num)

/-- Thread 1 submits a job under this id and cancels it. -/
def cancelledJob (id : Bytes) : List ManagerEvent :=
  [.submit 1 id sampleRequest 0, .lock 1, .call 1 none, .proceed 1, .proceed 1, .cancel 1 id,
    .lock 1, .call 1 none, .call 1 none, .call 1 none, .proceed 1]

/-- A `j`, a NUL and a `b`. -/
def zeroId : Bytes := [106, 0, 98]

instance (s : System) (id : Bytes) : Decidable (Retriable s id) :=
  decidable_of_iff (s.manager.running = true ∧ id ∈ s.manager.requests ∧
      s.world.db.state id = some .failed)
    ⟨fun h => ⟨h.1, h.2.1, h.2.2⟩, fun h => ⟨h.running, h.known, h.failed⟩⟩

theorem exists_cancelledJob {id : Bytes}
    (hrun : (replay System.act (cancelledJob id) sampleSystem).any (fun s =>
      decide (s.storeMutex = none ∧ (s.threads 1).isFree = true ∧ Retriable s id)) = true) :
    ∃ s, replay System.act (cancelledJob id) sampleSystem = some s ∧
      GuardedReach System.act (fun _ _ => True) sampleSystem s ∧ s.storeMutex = none ∧
      (s.threads 1).isFree = true ∧ Retriable s id := by
  obtain ⟨s, hs, hat⟩ := (Option.any_eq_true _ _).mp hrun
  obtain ⟨alone, free, retriable⟩ := of_decide_eq_true hat
  have hreach : GuardedReach System.act (fun _ _ => True) sampleSystem s :=
    .of_replay (AllSteps.of_free (fun _ _ => trivial) _ _) hs
  exact ⟨s, hs, hreach, alone, free, retriable⟩

/-- The retry of a job with a NUL in its id tries one candidate after the other for ever. -/
theorem retry_of_zeroId_never_ends :
    ∃ s, GuardedReach System.act (fun _ _ => True) sampleSystem s ∧ s.storeMutex = none ∧
      (s.threads 1).isFree = true ∧ Retriable s zeroId ∧ ¬ FlatAndDense s 1 zeroId 9 ∧
      ∀ k, ∃ s₀ t move, s.act (.retry 1 zeroId 9) = some s₀ ∧
        GuardedReach System.act (Uninterrupted 1) s₀ t ∧
        t.threads 1 = retryTries zeroId move 9 (k + 1) := by
  obtain ⟨s, -, hreach, alone, free, retriable⟩ :=
    exists_cancelledJob (by decide +kernel : (replay System.act (cancelledJob zeroId)
      sampleSystem).any (fun s => decide (s.storeMutex = none ∧ (s.threads 1).isFree = true ∧
        Retriable s zeroId)) = true)
  have htaken : ∀ k, ¬ Vacant s (retryCandidate zeroId k) :=
    not_vacant_of_zero (by decide) retriable.row_ne_none
  refine ⟨s, hreach, alone, free, retriable, fun h => ?_, fun k => ?_⟩
  · obtain ⟨s₀, hact, hends⟩ : ∃ s₀, s.act (.retry 1 zeroId 9) = some s₀ ∧ ¬ EndsAlone s₀ 1 :=
      not_endsAlone free alone retriable fun k _ _ => htaken k
    exact hends (h.ends s₀ hact)
  · have htries : ∃ s₀ t move, s.act (.retry 1 zeroId 9) = some s₀ ∧
        GuardedReach System.act (Uninterrupted 1) s₀ t ∧
        t.threads 1 = retryTries zeroId move 9 1 ∧ t.manager = s.manager ∧ t.world = s.world :=
      exists_tries free alone retriable
    obtain ⟨s₀, t, move, hact, hrun, hthread, hmanager, hworld⟩ := htries
    obtain ⟨u, hmore, hu, -⟩ := exists_triesMany (k := k) hthread hmanager hworld
      fun i _ _ => htaken i
    exact ⟨s₀, u, move, hact, hrun.trans hmore, hu⟩

/-- The job `j` is cancelled and retried: the retry is `j-retry-1`. -/
theorem retry_flat_and_dense_iff_sample :
    ∃ s, GuardedReach System.act (fun _ _ => True) sampleSystem s ∧ Retriable s (lit "j") ∧
      FlatAndDense s 1 (lit "j") 9 ∧ YieldsAlone s 1 (lit "j") 9 (lit "j-retry-1") := by
  obtain ⟨s, hs, hreach, alone, free, retriable⟩ :=
    exists_cancelledJob (by decide +kernel : (replay System.act (cancelledJob (lit "j"))
      sampleSystem).any (fun s => decide (s.storeMutex = none ∧ (s.threads 1).isFree = true ∧
        Retriable s (lit "j"))) = true)
  refine ⟨s, hreach, retriable, ?_, ?_⟩
  · have hvacant : (replay System.act (cancelledJob (lit "j")) sampleSystem).any (fun s =>
        decide (s.world.db.row (retryCandidate (lit "j") 1) = none ∧
          retryCandidate (lit "j") 1 ∉ s.manager.requests ∧
          retryCandidate (lit "j") 1 ∉ s.manager.pending)) = true := by
      decide +kernel
    rw [hs] at hvacant
    obtain ⟨hrow, hrequests, hpending⟩ := of_decide_eq_true hvacant
    exact (retry_flat_and_dense_iff free alone (lit "j") 9).1.mpr fun _ =>
      ⟨by decide, 1, le_rfl, by norm_num, hrow, hrequests, hpending⟩
  · have hyields : (replay System.act (cancelledJob (lit "j")) sampleSystem).any (fun s =>
        (s.act (.retry 1 (lit "j") 9)).any fun s₀ =>
          decide (AllSteps System.act (Uninterrupted 1)
            [.lock 1, .call 1 none, .proceed 1, .call 1 none, .proceed 1, .call 1 none] s₀) &&
          (replay System.act
            [.lock 1, .call 1 none, .proceed 1, .call 1 none, .proceed 1, .call 1 none] s₀).any
              fun t => decide (lit "j-retry-1" ∈ Lives.yields t (.proceed 1))) = true := by
      decide +kernel
    rw [hs, Option.any_some] at hyields
    obtain ⟨s₀, hact, hrun⟩ := (Option.any_eq_true _ _).mp hyields
    obtain ⟨hown, hend⟩ := Bool.and_eq_true_iff.mp hrun
    obtain ⟨t, ht, hmem⟩ := (Option.any_eq_true _ _).mp hend
    exact ⟨s₀, t, alone, hact, .of_replay (of_decide_eq_true hown) ht, of_decide_eq_true hmem⟩

end FileMover
