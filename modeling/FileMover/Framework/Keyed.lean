import Mathlib.Data.List.Nodup
import Mathlib.Data.Set.Card

/-!
# Tables with a key and a constraint

A table of an SQL database as a list of rows in which no key occurs twice and every
row meets the constraint of the schema: both are fields, so a statement that would
break one of them has no table to return and is refused as a whole.

`find` is what a reader sees of one key, and the lemmas say what the statements do to
it; `sorted` is a `SELECT` with a condition and an order.
-/

namespace FileMover.Framework

structure Keyed (Row Key : Type) (key : Row → Key) (Ok : Row → Prop) where
  rows : List Row
  unique : (rows.map key).Nodup
  checked : ∀ r ∈ rows, Ok r

namespace Keyed

variable {Row Key : Type} {key : Row → Key} {Ok : Row → Prop}

def empty : Keyed Row Key key Ok := ⟨[], List.nodup_nil, fun _ h => nomatch h⟩

section Statements
variable [DecidableEq Key]

/-- `SELECT ... WHERE key = ?`. -/
def find (t : Keyed Row Key key Ok) (k : Key) : Option Row := t.rows.find? (key · = k)

/-- `INSERT`; a duplicate key and a row that does not meet the constraint are refused. -/
def insert [DecidablePred Ok] (t : Keyed Row Key key Ok) (row : Row) :
    Option (Keyed Row Key key Ok) :=
  if h : Ok row ∧ key row ∉ t.rows.map key then
    some
      { rows := t.rows ++ [row]
        unique := by
          rw [List.map_append, List.map_singleton, ← List.concat_eq_append]
          exact t.unique.concat h.2
        checked := by
          intro r hr
          rcases List.mem_append.mp hr with hold | hnew
          · exact t.checked r hold
          · rw [List.mem_singleton.mp hnew]
            exact h.1 }
  else none

/-- The `SET` clause of an `UPDATE`, which leaves the key alone. -/
structure Assignment (key : Row → Key) where
  set : Row → Row
  same : ∀ r, key (set r) = key r

/-- `UPDATE ... WHERE key = ?`, with the number of rows that matched. -/
def update [DecidablePred Ok] (t : Keyed Row Key key Ok) (k : Key) (a : Assignment key) :
    Option (Nat × Keyed Row Key key Ok) :=
  if h : ∀ r ∈ t.rows, key r = k → Ok (a.set r) then
    some (t.rows.countP (key · = k),
      { rows := t.rows.map fun r => if key r = k then a.set r else r
        unique := by
          have hkeys : (t.rows.map fun r => if key r = k then a.set r else r).map key =
              t.rows.map key := by
            rw [List.map_map]
            refine List.map_congr_left fun r _ => ?_
            simp only [Function.comp_apply]
            split
            · exact a.same r
            · rfl
          rw [hkeys]
          exact t.unique
        checked := by
          intro r hr
          obtain ⟨old, hold, rfl⟩ := List.mem_map.mp hr
          split
          · next hk => exact h old hold hk
          · exact t.checked old hold })
  else none

variable {t t' : Keyed Row Key key Ok} {k : Key} {r row : Row}

/-! ## What a reader sees -/

theorem find_eq_none : t.find k = none ↔ ∀ r ∈ t.rows, key r ≠ k := by
  simp only [find, List.find?_eq_none, decide_eq_true_eq, ne_eq]

theorem key_of_find (h : t.find k = some r) : key r = k := by
  simpa using List.find?_some h

theorem mem_of_find (h : t.find k = some r) : r ∈ t.rows := List.mem_of_find?_eq_some h

theorem find_key_of_mem (h : r ∈ t.rows) : t.find (key r) = some r := by
  obtain ⟨s, hs⟩ : ∃ s, t.find (key r) = some s := by
    refine Option.ne_none_iff_exists'.mp fun hnone => ?_
    exact find_eq_none.mp hnone r h rfl
  have hsame : s = r :=
    List.inj_on_of_nodup_map t.unique (mem_of_find hs) h (key_of_find hs)
  rw [hs, hsame]

theorem find_eq_some : t.find k = some r ↔ r ∈ t.rows ∧ key r = k := by
  constructor
  · intro h
    exact ⟨mem_of_find h, key_of_find h⟩
  · rintro ⟨hmem, rfl⟩
    exact find_key_of_mem hmem

theorem insert_eq_none [DecidablePred Ok] :
    t.insert row = none ↔ ¬ (Ok row ∧ t.find (key row) = none) := by
  have hfree : key row ∉ t.rows.map key ↔ t.find (key row) = none := by
    rw [find_eq_none, List.mem_map]
    exact ⟨fun h r hr heq => h ⟨r, hr, heq⟩, fun h ⟨r, hr, heq⟩ => h r hr heq⟩
  rw [← hfree]
  unfold insert
  split
  · next h => exact ⟨nofun, fun hnot => absurd h hnot⟩
  · next h => exact ⟨fun _ => h, fun _ => rfl⟩

theorem find_insert [DecidablePred Ok] (h : t.insert row = some t') (k : Key) :
    t'.find k = if key row = k then some row else t.find k := by
  unfold insert at h
  split at h
  · next hfits =>
      cases h
      unfold find
      simp only [List.find?_append, List.find?_singleton, decide_eq_true_eq]
      split
      · next heq =>
          have hnone : t.rows.find? (key · = k) = none := by
            refine List.find?_eq_none.mpr fun r hr hk => hfits.2 ?_
            rw [decide_eq_true_eq] at hk
            exact List.mem_map.mpr ⟨r, hr, hk.trans heq.symm⟩
          rw [hnone]
          rfl
      · exact Option.or_none
  · cases h

/-- An `UPDATE` is refused only for the row that it would write. -/
theorem update_eq_none [DecidablePred Ok] {a : Assignment key} :
    t.update k a = none ↔ ∃ r, t.find k = some r ∧ ¬ Ok (a.set r) := by
  unfold update
  split
  · next h =>
      refine ⟨nofun, ?_⟩
      rintro ⟨r, hr, hnot⟩
      exact absurd (h r (mem_of_find hr) (key_of_find hr)) hnot
  · next h =>
      refine ⟨fun _ => ?_, fun _ => rfl⟩
      simp only [not_forall] at h
      obtain ⟨r, hr, hk, hnot⟩ := h
      exact ⟨r, find_eq_some.mpr ⟨hr, hk⟩, hnot⟩

theorem find_update [DecidablePred Ok] {a : Assignment key} {changes : Nat}
    (h : t.update k a = some (changes, t')) (other : Key) :
    t'.find other = if other = k then (t.find k).map a.set else t.find other := by
  unfold update at h
  split at h
  · cases h
    unfold find
    rw [List.find?_map]
    have hpred : ((fun r => decide (key r = other)) ∘ fun r => if key r = k then a.set r else r) =
        fun r => decide (key r = other) := by
      funext r
      simp only [Function.comp_apply]
      split
      · rw [a.same]
      · rfl
    rw [hpred]
    split
    · next heq =>
        subst heq
        cases hfind : t.rows.find? (key · = other) with
        | none => rfl
        | some r =>
            have hk : key r = other := by simpa using List.find?_some hfind
            simp [hk]
    · next hne =>
        cases hfind : t.rows.find? (key · = other) with
        | none => rfl
        | some r =>
            have hk : key r = other := by simpa using List.find?_some hfind
            simp [hk, hne]
  · cases h

theorem changes_update [DecidablePred Ok] {a : Assignment key} {changes : Nat}
    (h : t.update k a = some (changes, t')) : changes = 0 ↔ t.find k = none := by
  unfold update at h
  split at h
  · cases h
    rw [List.countP_eq_zero, find_eq_none]
    simp only [decide_eq_true_eq, ne_eq]
  · cases h

end Statements

/-! ## Sorted selections -/

/-- `SELECT ... WHERE p ORDER BY ...`. -/
def sorted (t : Keyed Row Key key Ok) (p : Row → Bool) (le : Row → Row → Bool) : List Row :=
  (t.rows.filter p).mergeSort le

variable {t : Keyed Row Key key Ok} {p : Row → Bool} {le : Row → Row → Bool}

theorem mem_sorted {r : Row} : r ∈ t.sorted p le ↔ r ∈ t.rows ∧ p r = true := by
  unfold sorted
  rw [List.mem_mergeSort, List.mem_filter]

theorem pairwise_sorted (trans : ∀ a b c, le a b = true → le b c = true → le a c = true)
    (total : ∀ a b, (le a b || le b a) = true) :
    (t.sorted p le).Pairwise fun a b => le a b = true ∧ key a ≠ key b := by
  have hkeys : (t.sorted p le).Pairwise fun a b => key a ≠ key b := by
    have hperm := List.mergeSort_perm (t.rows.filter p) le
    refine (hperm.pairwise_iff fun h => h.symm).mpr ?_
    exact (List.pairwise_map.mp t.unique).sublist List.filter_sublist
  exact (List.pairwise_mergeSort trans total _).and hkeys

/-- Counting rows is counting keys. -/
theorem ncard_keys (t : Keyed Row Key key Ok) (p : Row → Bool) :
    {k | ∃ r ∈ t.rows, p r = true ∧ key r = k}.ncard = t.rows.countP p := by
  classical
  have hset : {k | ∃ r ∈ t.rows, p r = true ∧ key r = k} =
      ↑((t.rows.filter p).map key).toFinset := by
    ext k
    simp [and_assoc]
  rw [hset, Set.ncard_coe_finset, List.toFinset_card_of_nodup, List.length_map,
    List.countP_eq_length_filter]
  exact t.unique.sublist (List.filter_sublist.map key)

end Keyed

end FileMover.Framework
