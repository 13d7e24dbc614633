import Mathlib.Algebra.Group.Int.Defs
import Mathlib.Algebra.Group.Nat.Defs
import Mathlib.Data.List.Basic
import Mathlib.Data.List.TakeWhile

/-!
# Byte strings

`std::string` is a sequence of bytes. Every text of the model (names, paths,
job ids, messages) is a list of bytes, so that the embedded NULs and slashes
that the program guards against are ordinary values here.
-/

namespace FileMover

abbrev Bytes := List UInt8

/-- What is asked of every byte of a text is decided along the text. -/
instance (priority := high) (s : Bytes) (P : UInt8 → Prop) [DecidablePred P] :
    Decidable (∀ b ∈ s, P b) := List.decidableBAll P s

instance (priority := high) : LawfulBEq Bytes := inferInstance

/-- A text literal of the source (all of them are ASCII). -/
def lit (s : String) : Bytes := s.toList.map fun c => UInt8.ofNat c.toNat

/-- What `c_str()` shows to a C interface: the bytes before the first NUL. -/
def cstr (s : Bytes) : Bytes := s.takeWhile (· ≠ 0)

/-- A number printed with `operator<<`. -/
def decimal (n : Nat) : Bytes :=
  (Nat.toDigits 10 n).map fun c => UInt8.ofNat c.toNat

/-- A number printed with `%lld`. -/
def signedDecimal (n : Int) : Bytes :=
  if n < 0 then lit "-" ++ decimal n.natAbs else decimal n.natAbs

def slash : UInt8 := 47

/-- The text is still non-empty when it is handed over as a C string. -/
def Explains (message : Bytes) : Prop := cstr message ≠ []

instance (message : Bytes) : Decidable (Explains message) :=
  inferInstanceAs (Decidable (cstr message ≠ []))

theorem cstr_cstr (s : Bytes) : cstr (cstr s) = cstr s := by
  induction s with
  | nil => rfl
  | cons b s ih =>
      by_cases hb : b = 0
      · simp [cstr, hb]
      · simpa [cstr, hb] using ih

theorem cstr_of_notMem {s : Bytes} (h : 0 ∉ s) : cstr s = s :=
  List.takeWhile_eq_self_iff.mpr fun b hb => by
    rw [decide_eq_true_eq]
    rintro rfl
    exact h hb

theorem explains_cons {b : UInt8} (h : b ≠ 0) (rest : Bytes) :
    Explains (b :: rest) := by
  simp [Explains, cstr, h]

theorem Explains.append {s : Bytes} (h : Explains s) (t : Bytes) :
    Explains (s ++ t) := by
  cases s with
  | nil => exact absurd rfl h
  | cons b s =>
      have hb : b ≠ 0 := by
        rintro rfl
        exact h (by simp [cstr])
      exact explains_cons hb (s ++ t)

theorem Explains.ne_nil {s : Bytes} (h : Explains s) : s ≠ [] := by
  rintro rfl
  exact h rfl

/-! ## Numerals -/

/-- The last digit of a numeral, and the rest of it. -/
theorem decimal_eq (n : Nat) :
    decimal n =
      if n < 10 then [UInt8.ofNat (0x30 + n)]
      else decimal (n / 10) ++ [UInt8.ofNat (0x30 + n % 10)] := by
  have hdigit : ∀ d < 10, UInt8.ofNat (Nat.digitChar d).toNat = UInt8.ofNat (0x30 + d) := by
    decide
  unfold decimal
  split_ifs with hn
  · rw [Nat.toDigits_of_lt_base hn, List.map_singleton, hdigit n hn]
  · rw [Nat.toDigits_of_base_le (by omega) (by omega), List.map_append, List.map_singleton,
      hdigit _ (by omega)]

theorem toNat_digit {d : Nat} (h : d < 10) : (UInt8.ofNat (0x30 + d)).toNat = 0x30 + d :=
  UInt8.toNat_ofNat_of_lt' (by show 0x30 + d < 256; omega)

theorem mem_decimal {n : Nat} {b : UInt8} (hb : b ∈ decimal n) : 0x30 ≤ b ∧ b ≤ 0x39 := by
  have hdigit : ∀ d < 10, 0x30 ≤ UInt8.ofNat (0x30 + d) ∧ UInt8.ofNat (0x30 + d) ≤ 0x39 := by
    decide
  induction n using Nat.strong_induction_on with
  | _ n ih =>
      rw [decimal_eq] at hb
      split_ifs at hb with hn
      · rw [List.mem_singleton] at hb
        rw [hb]
        exact hdigit n hn
      · rcases List.mem_append.mp hb with hfront | hlast
        · exact ih (n / 10) (by omega) hfront
        · rw [List.mem_singleton] at hlast
          rw [hlast]
          exact hdigit (n % 10) (by omega)

theorem decimal_ne_nil (n : Nat) : decimal n ≠ [] := by
  rw [decimal_eq]
  split_ifs
  · exact List.cons_ne_nil _ _
  · simp

end FileMover
