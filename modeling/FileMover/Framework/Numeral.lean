import Mathlib.Algebra.Group.Nat.Defs
import Mathlib.Data.List.Lex
import Mathlib.Order.Basic

/-!
# Numerals of a fixed width

A number written with so many digits of a base, leading zeros included. Texts that agree in
the length of a front part are compared by it first, so numerals of one width are in the
order of their numbers, and so are texts made of several of them, most significant first.
-/

namespace FileMover.Framework.Numeral

variable {α : Type}

/-- The last `width` digits of a number. -/
def fixed (base : Nat) (digit : Nat → α) : Nat → Nat → List α
  | 0, _ => []
  | width + 1, n => fixed base digit width (n / base) ++ [digit (n % base)]

variable {base : Nat} {digit : Nat → α}

theorem length_fixed (width n : Nat) : (fixed base digit width n).length = width := by
  induction width generalizing n with
  | zero => rfl
  | succ width ih => rw [fixed, List.length_append, ih, List.length_singleton]

variable [LT α]

theorem append_lt_of_lt {a b : List α} (hlength : a.length = b.length) (h : a < b)
    (x y : List α) : a ++ x < b ++ y := by
  induction a generalizing b with
  | nil =>
      obtain rfl := List.length_eq_zero_iff.mp hlength.symm
      exact absurd h (List.not_lt_nil _)
  | cons c a ih =>
      cases b with
      | nil => cases hlength
      | cons d b =>
          rw [List.cons_append, List.cons_append]
          rcases List.cons_lt_cons_iff.mp h with hlt | ⟨rfl, hrest⟩
          · exact List.cons_lt_cons_iff.mpr (.inl hlt)
          · exact List.cons_lt_cons_iff.mpr (.inr ⟨rfl, ih (Nat.succ.inj hlength) hrest⟩)

/-- Digits in the order of their values. -/
def Ascending (base : Nat) (digit : Nat → α) : Prop :=
  ∀ i j, i < j → j < base → digit i < digit j

theorem fixed_lt (ascending : Ascending base digit) {width m n : Nat} (h : m < n)
    (hn : n < base ^ width) : fixed base digit width m < fixed base digit width n := by
  induction width generalizing m n with
  | zero =>
      rw [Nat.pow_zero] at hn
      omega
  | succ width ih =>
      have hbase : 0 < base := by
        rcases Nat.eq_zero_or_pos base with rfl | hpos
        · simp at hn
        · exact hpos
      have hquotient : n / base < base ^ width :=
        Nat.div_lt_of_lt_mul (by rwa [← Nat.pow_succ'])
      rw [fixed, fixed]
      rcases Nat.lt_or_eq_of_le (Nat.div_le_div_right h.le : m / base ≤ n / base) with hlt | heq
      · exact append_lt_of_lt (by rw [length_fixed, length_fixed]) (ih hlt hquotient) _ _
      · have hlast : m % base < n % base := by
          have hm := Nat.div_add_mod m base
          have hn' := Nat.div_add_mod n base
          rw [heq] at hm
          omega
        rw [heq]
        exact List.append_left_lt
          (List.cons_lt_cons_iff.mpr (.inl (ascending _ _ hlast (Nat.mod_lt n hbase))))

/-- The order of a text that begins with a numeral. -/
theorem fixed_append_lt (ascending : Ascending base digit) {width m n : Nat} {x y : List α}
    (hn : n < base ^ width) (h : m < n ∨ m = n ∧ x < y) :
    fixed base digit width m ++ x < fixed base digit width n ++ y := by
  rcases h with hlt | ⟨rfl, hrest⟩
  · exact append_lt_of_lt (by rw [length_fixed, length_fixed]) (fixed_lt ascending hlt hn) x y
  · exact List.append_left_lt hrest

/-- The same with a separator behind the numeral. -/
theorem fixed_separated_lt (ascending : Ascending base digit) {width m n : Nat} {x y : List α}
    (separator : α) (hn : n < base ^ width) (h : m < n ∨ m = n ∧ x < y) :
    fixed base digit width m ++ separator :: x < fixed base digit width n ++ separator :: y := by
  refine fixed_append_lt ascending hn (h.imp_right (And.imp_right fun hrest => ?_))
  exact List.cons_lt_cons_iff.mpr (.inr ⟨rfl, hrest⟩)

end FileMover.Framework.Numeral
