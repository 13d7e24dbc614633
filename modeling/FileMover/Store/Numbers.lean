import FileMover.Model.Sequence
import Mathlib.Data.List.Pairwise
import Mathlib.Logic.Function.Iterate

/-!
# The numbers of the durable sequence

A number is committed before it is handed out, and the counter is one larger at every
commit. What is handed out is not the counter but its low 32 bits, with their sign and
as an unsigned number again: the numbers rise with the counter until its low 32 bits
are all set, and the next one is zero.
-/

namespace FileMover.Store

open Framework

/-! ## The counter and the number handed out -/

namespace Counter

def number : Counter → Int
  | .integer n => n.toInt
  | .real => 2 ^ 63 - 1

/-- The low 32 bits. -/
def low (c : Counter) : Int := c.number % 2 ^ 32

def value (c : Counter) : UInt64 := handedOut c.columnInt

theorem columnInt_toInt (c : Counter) : c.columnInt.toInt = c.number.bmod (2 ^ 32) := by
  cases c with
  | integer n => exact Int64.toInt_toInt32 n
  | real => rfl

theorem toUInt64_toNat (x : Int64) : (x.toUInt64.toNat : Int) = x.toInt % 2 ^ 64 := by
  have hbmod : x.toInt = (x.toUInt64.toNat : Int).bmod (2 ^ 64) :=
    BitVec.toInt_eq_toNat_bmod x.toBitVec
  have hlt := x.toUInt64.toNat_lt
  rw [hbmod, Int.bmod_def]
  split <;> omega

/-- The low bits decide, and with the sign bit set they stand at the far end. -/
theorem value_toNat (c : Counter) :
    (c.value.toNat : Int) = if c.low < 2 ^ 31 then c.low else c.low + (2 ^ 64 - 2 ^ 32) := by
  rw [value, handedOut, toUInt64_toNat, Int32.toInt_toInt64, columnInt_toInt, Int.bmod_def, low]
  split <;> split <;> omega

theorem low_bounds (c : Counter) : 0 ≤ c.low ∧ c.low < 2 ^ 32 := by
  rw [low]
  omega

theorem value_lt_iff {a b : Counter} : a.value < b.value ↔ a.low < b.low := by
  have ha := value_toNat a
  have hb := value_toNat b
  have hlow := low_bounds a
  have hlow' := low_bounds b
  rw [UInt64.lt_iff_toNat_lt]
  split at ha <;> split at hb <;> omega

theorem bump_number {c : Counter} (h : c.number < 2 ^ 63 - 1) : c.bump.number = c.number + 1 := by
  cases c with
  | real => exact absurd h (by decide)
  | integer n =>
      have hlt : n.toInt < 2 ^ 63 - 1 := h
      have hne : n ≠ Int64.maxValue := by
        rintro rfl
        exact absurd hlt (by decide)
      have hlo : -2 ^ 63 ≤ n.toInt := Int64.le_toInt n
      have hone : (1 : Int64).toInt = 1 := by decide
      rw [bump, if_neg hne]
      show (n + 1).toInt = n.toInt + 1
      rw [Int64.toInt_add, hone, Int.bmod_def]
      split <;> omega

/-- Short of the last of them the low bits are counted up. -/
theorem bump_low {c : Counter} (h : c.low ≠ 2 ^ 32 - 1) : c.bump.low = c.low + 1 := by
  have hlt : c.number < 2 ^ 63 - 1 := by
    have hle : c.number ≤ 2 ^ 63 - 1 := by
      cases c with
      | integer n =>
          have hn := n.toInt_lt
          show n.toInt ≤ _
          omega
      | real => exact Int.le_refl _
    rw [low] at h
    omega
  rw [low, bump_number hlt]
  rw [low] at h ⊢
  omega

end Counter

/-! ## What the calls have handed out -/

namespace Sequence

/-- The positions of the numbers that were handed out. -/
def handed (s : Sequence) : List Nat := s.answers.filterMap Except.toOption

/-- No number is handed out twice, and one that was committed later is larger. -/
def Increasing (s : Sequence) : Prop :=
  s.handed.Nodup ∧
    ∀ i ∈ s.handed, ∀ j ∈ s.handed, i < j →
      ∀ a b, s.commits[i]? = some a → s.commits[j]? = some b → a < b

/-- No call commits a counter whose low 32 bits start again. -/
def Below (s : Sequence) : SequenceEvent → Prop
  | .commit _ .ok => s.stored.low ≠ 2 ^ 32 - 1
  | _ => True

/-- The counter that a connection with the transaction sees. -/
def Sees (stored next : Counter) : Point → Prop
  | .bumping => next = stored
  | .selecting => next = stored.bump
  | .committing value => next = stored.bump ∧ value = next.columnInt
  | _ => True

structure Numbered (s : Sequence) : Prop where
  writer : ∀ c next, s.writer = some (c, next) → Sees s.stored next (s.point c)
  /-- The numbers rise from commit to commit, up to that of the counter. -/
  rising : s.commits.Pairwise (· < ·)
  last : ∀ v ∈ s.commits, v < s.stored.value ∨ v = s.stored.value
  returning : ∀ c ticket, s.point c = .returning ticket →
    ticket < s.commits.length ∧ ticket ∉ s.handed
  once : ∀ c c' ticket, s.point c = .returning ticket → s.point c' = .returning ticket → c = c'
  handed : s.handed.Nodup ∧ ∀ ticket ∈ s.handed, ticket < s.commits.length

/-! ## One step -/

theorem Numbered.start (stored : Counter) : Numbered { stored := stored } where
  writer := by simp
  rising := List.Pairwise.nil
  last := by simp
  returning := by simp
  once := by simp
  handed := by simp [Sequence.handed]

/-- Everything but the points and the transaction is as it was. -/
theorem Numbered.move {s s' : Sequence} (h : Numbered s) (hstored : s'.stored = s.stored)
    (hcommits : s'.commits = s.commits) (hanswers : s'.handed = s.handed)
    (hwriter : ∀ c next, s'.writer = some (c, next) → Sees s.stored next (s'.point c))
    (hpoint : ∀ c ticket, s'.point c = .returning ticket → s.point c = .returning ticket) :
    Numbered s' where
  writer := by
    rw [hstored]
    exact hwriter
  rising := by
    rw [hcommits]
    exact h.rising
  last := by
    rw [hcommits, hstored]
    exact h.last
  returning := fun c ticket hc => by
    rw [hcommits, hanswers]
    exact h.returning c ticket (hpoint c ticket hc)
  once := fun c c' ticket hc hc' => h.once c c' ticket (hpoint c ticket hc) (hpoint c' ticket hc')
  handed := by
    rw [hcommits, hanswers]
    exact h.handed

theorem release_writer {s : Sequence} {c c' : Nat} {next : Counter}
    (h : (s.release c).writer = some (c', next)) : s.writer = some (c', next) ∧ c' ≠ c := by
  rw [release] at h
  split at h
  · cases h
  · rename_i hany
    refine ⟨h, ?_⟩
    rintro rfl
    exact hany (by simp [h])

@[simp] theorem release_stored (s : Sequence) (c : Nat) : (s.release c).stored = s.stored := by
  rw [release]
  split <;> rfl

@[simp] theorem release_commits (s : Sequence) (c : Nat) : (s.release c).commits = s.commits := by
  rw [release]
  split <;> rfl

@[simp] theorem release_answers (s : Sequence) (c : Nat) : (s.release c).answers = s.answers := by
  rw [release]
  split <;> rfl

@[simp] theorem release_point (s : Sequence) (c : Nat) : (s.release c).point = s.point := by
  rw [release]
  split <;> rfl

/-- The connection goes to a point at which it needs no transaction. -/
theorem Numbered.leave {s : Sequence} (h : Numbered s) {c : Nat} {point : Point}
    (hpoint : point = .idle ∨ ∃ error, point = .rollingBack error) (released : Bool) :
    Numbered ((if released then s.release c else s).goTo c point) := by
  have hsees : ∀ next, Sees s.stored next point := by
    intro next
    rcases hpoint with rfl | ⟨error, rfl⟩ <;> trivial
  have hnone : ∀ ticket, point ≠ .returning ticket := by
    intro ticket
    rcases hpoint with rfl | ⟨error, rfl⟩ <;> nofun
  refine h.move ?_ ?_ ?_ ?_ ?_
  · cases released <;> simp [goTo]
  · cases released <;> simp [goTo]
  · cases released <;> simp [goTo, Sequence.handed]
  · intro c' next hwriter
    have hold : s.writer = some (c', next) := by
      cases released with
      | false => exact hwriter
      | true => exact (release_writer hwriter).1
    by_cases hc : c' = c
    · subst hc
      cases released <;> simpa [goTo] using hsees next
    · have hkept := h.writer c' next hold
      cases released <;> simpa [goTo, Function.update_of_ne hc] using hkept
  · intro c' ticket hc'
    by_cases hc : c' = c
    · subst hc
      cases released <;> exact absurd (by simpa [goTo] using hc') (hnone ticket)
    · cases released <;> simpa [goTo, Function.update_of_ne hc] using hc'

theorem Numbered.answerError {s : Sequence} (h : Numbered s) (c : Nat) (error : Bytes)
    (released : Bool) :
    Numbered ((if released then s.release c else s).answer c (.error error)) := by
  have hidle : Numbered ((if released then s.release c else s).goTo c .idle) :=
    h.leave (.inl rfl) released
  exact hidle.move rfl rfl rfl hidle.writer fun _ _ hc => hc

/-- The connection that has the transaction goes on to its next statement. -/
theorem Numbered.advance {s : Sequence} (h : Numbered s) {c : Nat} {next : Counter} {point : Point}
    (hsees : Sees s.stored next point) (hpoint : ∀ ticket, point ≠ .returning ticket) :
    Numbered { s.goTo c point with writer := some (c, next) } := by
  refine h.move rfl rfl rfl ?_ ?_
  · rintro c' next' ⟨⟩
    simpa [goTo] using hsees
  · intro c' ticket hc'
    by_cases hc : c' = c
    · subst hc
      exact absurd (by simpa [goTo] using hc') (hpoint ticket)
    · simpa [goTo, Function.update_of_ne hc] using hc'

theorem Numbered.commit {s : Sequence} (h : Numbered s) {c : Nat} {next : Counter}
    (hnext : next = s.stored.bump) (hlow : s.stored.low ≠ 2 ^ 32 - 1) :
    Numbered { s.goTo c (.returning s.commits.length) with
      stored := next
      writer := none
      commits := s.commits ++ [next.value] } := by
  have hlarger : ∀ v ∈ s.commits, v < next.value := by
    have hstep : s.stored.value < next.value := by
      rw [hnext, Counter.value_lt_iff, Counter.bump_low hlow]
      omega
    intro v hv
    rcases h.last v hv with hlt | rfl
    · exact UInt64.lt_trans hlt hstep
    · exact hstep
  refine ⟨nofun, ?_, ?_, ?_, ?_, ?_⟩
  · rw [List.pairwise_append]
    refine ⟨h.rising, List.pairwise_singleton _ _, ?_⟩
    intro v hv w hw
    rw [List.mem_singleton.mp hw]
    exact hlarger v hv
  · intro v hv
    rcases List.mem_append.mp hv with hv | hv
    · exact .inl (hlarger v hv)
    · exact .inr (List.mem_singleton.mp hv)
  · intro c' ticket hc'
    show ticket < (s.commits ++ [_]).length ∧ ticket ∉ s.handed
    rw [List.length_append, List.length_singleton]
    by_cases hc : c' = c
    · subst hc
      obtain rfl : s.commits.length = ticket := by simpa [goTo] using hc'
      exact ⟨by omega, fun hmem => Nat.lt_irrefl _ (h.handed.2 _ hmem)⟩
    · have hold := h.returning c' ticket (by simpa [goTo, Function.update_of_ne hc] using hc')
      exact ⟨by omega, hold.2⟩
  · -- the ticket of this commit is new
    have hfresh : ∀ c', c' ≠ c → Function.update s.point c (.returning s.commits.length) c' ≠
        .returning s.commits.length := by
      intro c' hne heq
      rw [Function.update_of_ne hne] at heq
      exact Nat.lt_irrefl _ (h.returning c' _ heq).1
    intro c₁ c₂ ticket h₁ h₂
    change Function.update s.point c (.returning s.commits.length) c₁ = _ at h₁
    change Function.update s.point c (.returning s.commits.length) c₂ = _ at h₂
    by_cases hc₁ : c₁ = c
    · subst hc₁
      rw [Function.update_self] at h₁
      by_contra hne
      exact hfresh c₂ (Ne.symm hne) (h₂.trans h₁.symm)
    · by_cases hc₂ : c₂ = c
      · subst hc₂
        rw [Function.update_self] at h₂
        exact absurd (h₁.trans h₂.symm) (hfresh c₁ hc₁)
      · rw [Function.update_of_ne hc₁] at h₁
        rw [Function.update_of_ne hc₂] at h₂
        exact h.once c₁ c₂ ticket h₁ h₂
  · refine ⟨h.handed.1, fun ticket hmem => ?_⟩
    rw [List.length_append]
    exact Nat.lt_add_right _ (h.handed.2 ticket hmem)

theorem Numbered.handOut {s : Sequence} (h : Numbered s) {c ticket : Nat}
    (hpoint : s.point c = .returning ticket) : Numbered (s.answer c (.ok ticket)) := by
  obtain ⟨hlt, hnew⟩ := h.returning c ticket hpoint
  refine ⟨?_, h.rising, h.last, ?_, ?_, ?_⟩
  · intro c' next hwriter
    by_cases hc : c' = c
    · subst hc
      simp [answer, goTo, Sees]
    · simpa [answer, goTo, Function.update_of_ne hc] using h.writer c' next hwriter
  · intro c' ticket' hc'
    by_cases hc : c' = c
    · subst hc
      simp [answer, goTo] at hc'
    · have hold : s.point c' = .returning ticket' := by
        simpa [answer, goTo, Function.update_of_ne hc] using hc'
      obtain ⟨hlt', hnew'⟩ := h.returning c' ticket' hold
      refine ⟨hlt', ?_⟩
      show ticket' ∉ ticket :: s.handed
      rw [List.mem_cons, not_or]
      refine ⟨?_, hnew'⟩
      rintro rfl
      exact hc (h.once c' c ticket' hold hpoint)
  · intro c₁ c₂ ticket' h₁ h₂
    have hold : ∀ c', (s.answer c (.ok ticket)).point c' = .returning ticket' →
        s.point c' = .returning ticket' := by
      intro c' hc'
      by_cases hc : c' = c
      · subst hc
        simp [answer, goTo] at hc'
      · simpa [answer, goTo, Function.update_of_ne hc] using hc'
    exact h.once c₁ c₂ ticket' (hold c₁ h₁) (hold c₂ h₂)
  · constructor
    · exact List.nodup_cons.mpr ⟨hnew, h.handed.1⟩
    · intro ticket' hmem
      rcases List.mem_cons.mp hmem with rfl | hmem
      · exact hlt
      · exact h.handed.2 ticket' hmem

theorem Numbered.step {s t : Sequence} {event : SequenceEvent} (hbelow : s.Below event)
    (hact : s.act event = some t) (h : Numbered s) : Numbered t := by
  cases event with
  | closed c =>
      simp only [act] at hact
      split at hact
      · cases hact
        exact h.answerError c _ false
      · cases hact
  | begin c outcome =>
      simp only [act] at hact
      split at hact
      · split at hact
        · split at hact
          · cases hact
            exact h.advance rfl nofun
          · cases hact
        · cases hact
          exact h.answerError c _ false
      · cases hact
  | bump c outcome =>
      simp only [act] at hact
      split at hact
      · rename_i hpoint
        split at hact
        · rename_i owner next hwriter
          split at hact
          · rename_i howner
            subst howner
            cases hact
            have hsees := h.writer owner next hwriter
            rw [hpoint] at hsees
            exact h.advance (congrArg Counter.bump hsees) nofun
          · cases hact
        · cases hact
        · cases hact
          exact h.leave (.inr ⟨_, rfl⟩) _
      · cases hact
  | select c outcome prepared =>
      simp only [act] at hact
      split at hact
      · rename_i hpoint
        split at hact
        · rename_i owner next hwriter
          split at hact
          · rename_i howner
            subst howner
            cases hact
            have hsees := h.writer owner next hwriter
            rw [hpoint] at hsees
            have hnext : Numbered { s.goTo owner (.committing next.columnInt) with
                writer := some (owner, next) } := h.advance ⟨hsees, rfl⟩ nofun
            rw [← hwriter] at hnext
            exact hnext
          · cases hact
        · cases hact
        · cases hact
          exact h.leave (.inr ⟨_, rfl⟩) _
      · cases hact
  | commit c outcome =>
      simp only [act] at hact
      split at hact
      · rename_i value owner next hpoint hwriter
        split at hact
        · rename_i howner
          subst howner
          cases hact
          obtain ⟨hnext, rfl⟩ : next = s.stored.bump ∧ value = next.columnInt := by
            have hsees := h.writer owner next hwriter
            rwa [hpoint] at hsees
          exact h.commit hnext hbelow
        · cases hact
      · cases hact
        exact h.leave (.inr ⟨_, rfl⟩) _
      · cases hact
  | rollback c ok =>
      simp only [act] at hact
      split at hact
      · cases hact
        exact h.answerError c _ ok
      · cases hact
  | handOut c =>
      simp only [act] at hact
      split at hact
      · rename_i ticket hpoint
        cases hact
        exact h.handOut hpoint
      · cases hact
  | crash c =>
      simp only [act] at hact
      cases hact
      exact h.leave (.inl rfl) true

theorem Numbered.increasing {s : Sequence} (h : Numbered s) : s.Increasing := by
  refine ⟨h.handed.1, ?_⟩
  intro i _ j _ hij a b ha hb
  obtain ⟨hi, rfl⟩ := List.getElem?_eq_some_iff.mp ha
  obtain ⟨hj, rfl⟩ := List.getElem?_eq_some_iff.mp hb
  exact List.pairwise_iff_getElem.mp h.rising i j hi hj hij

/-! ## Every run -/

theorem sequence_increases {stored : Counter} {s : Sequence}
    (h : GuardedReach act Below { stored := stored } s) : s.Increasing :=
  (h.invariant Numbered Numbered.step (Numbered.start stored)).increasing

instance (s : Sequence) (event : SequenceEvent) : Decidable (s.Below event) :=
  match event with
  | .commit _ .ok => inferInstanceAs (Decidable (s.stored.low ≠ 2 ^ 32 - 1))
  | .commit _ (.failed _ _) => .isTrue trivial
  | .closed _ | .begin _ _ | .bump _ _ | .select _ _ _ | .rollback _ _ | .handOut _ | .crash _ =>
      .isTrue trivial

/-- The first connection dies with the number 1, the second one fails once and then gets
the number 2 while a third one waits for the lock. -/
def threeConnections : List SequenceEvent :=
  [.begin 0 .ok, .bump 0 .ok, .select 0 .ok true, .commit 0 .ok, .crash 0,
    .begin 1 .ok, .bump 1 (.failed (lit "disk I/O error") true), .rollback 1 false,
    .begin 1 .ok, .begin 2 (.failed (lit "database is locked") false), .bump 1 .ok,
    .select 1 .ok true, .commit 1 .ok,
    .begin 2 .ok, .bump 2 .ok, .select 2 .ok true, .commit 2 .ok, .handOut 2, .handOut 1]

theorem sequence_increases_threeConnections :
    ∃ s, GuardedReach act Below { stored := .integer 0 } s ∧ s.commits = [1, 2, 3] ∧
      s.handed = [1, 2] ∧ s.Increasing := by
  have hrun : (replay act threeConnections { stored := .integer 0 }).any
      (fun s => s.commits = [1, 2, 3] ∧ s.handed = [1, 2]) = true := by decide +kernel
  obtain ⟨s, hs, hlists⟩ := (Option.any_eq_true _ _).mp hrun
  have hsteps : AllSteps act Below threeConnections { stored := .integer 0 } := by decide +kernel
  have hreach := GuardedReach.of_replay hsteps hs
  obtain ⟨hcommits, hhanded⟩ := of_decide_eq_true hlists
  exact ⟨s, hreach, hcommits, hhanded, sequence_increases hreach⟩

/-! ## The number 1 once more -/

theorem number_iterate {n : Nat} (h : n < 2 ^ 63) :
    (Counter.bump^[n] (.integer 0)).number = n := by
  induction n with
  | zero => rfl
  | succ n ih =>
      have hn := ih (by omega)
      rw [Function.iterate_succ_apply', Counter.bump_number (by omega), hn]
      rfl

/-- After `n` calls of one connection to a new database. -/
def afterCalls (n : Nat) : Sequence where
  stored := Counter.bump^[n] (.integer 0)
  commits := (List.range n).map fun i => (Counter.bump^[i + 1] (.integer 0)).value
  answers := ((List.range n).map Except.ok).reverse

theorem afterCalls_reach (n : Nat) :
    GuardedReach act (fun _ _ => True) { stored := .integer 0 } (afterCalls n) := by
  induction n with
  | zero => exact .refl
  | succ n ih =>
      have hcall : replay act
          [.begin 0 .ok, .bump 0 .ok, .select 0 .ok true, .commit 0 .ok, .handOut 0]
          (afterCalls n) = some (afterCalls (n + 1)) := by
        simp [replay, act, goTo, answer, afterCalls, List.range_succ, Function.iterate_succ_apply',
          Counter.value]
      exact ih.trans (GuardedReach.of_replay (AllSteps.of_free (fun _ _ => trivial) _ _) hcall)

theorem mem_handed_afterCalls {n i : Nat} : i ∈ (afterCalls n).handed ↔ i < n := by
  simp [Sequence.handed, afterCalls, Except.toOption]

theorem commits_afterCalls {n i : Nat} (h : i < n) :
    (afterCalls n).commits[i]? = some (Counter.bump^[i + 1] (.integer 0)).value := by
  simp [afterCalls, h]

theorem number_repeats :
    ∃ s, GuardedReach act (fun _ _ => True) { stored := .integer 0 } s ∧ ¬ s.Increasing := by
  refine ⟨afterCalls (2 ^ 32 + 1), afterCalls_reach _, ?_⟩
  intro h
  have hlt := h.2 0 (mem_handed_afterCalls.mpr (by omega)) (2 ^ 32)
    (mem_handed_afterCalls.mpr (by omega)) (by omega) _ _ (commits_afterCalls (by omega))
    (commits_afterCalls (by omega))
  rw [Counter.value_lt_iff, Counter.low, Counter.low, number_iterate (by omega),
    number_iterate (by omega)] at hlt
  omega

end Sequence

end FileMover.Store
