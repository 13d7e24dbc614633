import Mathlib.Data.List.Infix
import Mathlib.Data.List.Nodup

/-!
# Items judged by what stands before them

A list is read from the front, and what an item means depends on the items before it. Here
every item is paired with its past.
-/

namespace FileMover.Framework

variable {α : Type}

/-- Every item with the items before it. -/
def withPast (items : List α) : List (List α × α) := items.inits.zip items

@[simp]
theorem withPast_nil : withPast ([] : List α) = [] := rfl

theorem withPast_cons (a : α) (items : List α) :
    withPast (a :: items) = ([], a) :: (withPast items).map (Prod.map (a :: ·) id) := by
  rw [withPast, List.inits_cons, List.zip_cons_cons, List.zip_map_left]
  rfl

theorem withPast_append_cons (past : List α) (a : α) (items : List α) :
    withPast (past ++ a :: items) =
      withPast past ++ (past, a) :: (withPast items).map (Prod.map (past ++ a :: ·) id) := by
  induction past with
  | nil => exact withPast_cons a items
  | cons b past ih =>
      rw [List.cons_append, withPast_cons, ih, withPast_cons, List.map_append, List.map_cons,
        List.map_map, List.cons_append]
      rfl

@[simp]
theorem withPast_concat (past : List α) (a : α) :
    withPast (past ++ [a]) = withPast past ++ [(past, a)] :=
  withPast_append_cons past a []

theorem mem_withPast {items past : List α} {a : α} :
    (past, a) ∈ withPast items ↔ ∃ rest, items = past ++ a :: rest := by
  induction items generalizing past with
  | nil => simp
  | cons b items ih =>
      rw [withPast_cons]
      constructor
      · intro h
        rcases List.mem_cons.mp h with heq | hlater
        · cases heq
          exact ⟨items, rfl⟩
        · obtain ⟨⟨earlier, c⟩, hmem, heq⟩ := List.mem_map.mp hlater
          cases heq
          obtain ⟨rest, rfl⟩ := ih.mp hmem
          exact ⟨rest, rfl⟩
      · rintro ⟨rest, heq⟩
        cases past with
        | nil =>
            cases heq
            exact List.mem_cons_self
        | cons c past =>
            cases heq
            exact List.mem_cons_of_mem _ (List.mem_map.mpr ⟨(past, a), ih.mpr ⟨rest, rfl⟩, rfl⟩)

theorem length_lt_of_mem_withPast {items past : List α} {a : α}
    (h : (past, a) ∈ withPast items) : past.length < items.length := by
  obtain ⟨rest, rfl⟩ := mem_withPast.mp h
  rw [List.length_append, List.length_cons]
  omega

/-- The length of its past tells an item from every other. -/
theorem eq_of_length_eq {items past past' : List α} {a a' : α}
    (h : (past, a) ∈ withPast items) (h' : (past', a') ∈ withPast items)
    (hlength : past.length = past'.length) : past = past' ∧ a = a' := by
  obtain ⟨rest, rfl⟩ := mem_withPast.mp h
  obtain ⟨rest', heq⟩ := mem_withPast.mp h'
  obtain ⟨rfl, htail⟩ := List.append_inj heq hlength
  cases htail
  exact ⟨rfl, rfl⟩

end FileMover.Framework
