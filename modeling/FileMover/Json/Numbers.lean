import FileMover.Json.Grammar
import Mathlib.Data.List.TakeWhile

/-!
# Integers

`parse_number` against its production. The digits are taken greedily, so a
numeral is read back whole only when no digit follows it; inside a document a
value is followed by whitespace, a comma or a closing bracket, never by a digit,
a point or an exponent.
-/

namespace FileMover.Json

/-- What may follow a value inside a document. -/
def Follows (rest : Bytes) : Prop :=
  ∀ b, rest.head? = some b → b ∈ [0x20, 0x09, 0x0A, 0x0D, 0x2C, 0x5D, 0x7D]

theorem isDigit_iff {b : UInt8} : isDigit b = true ↔ 0x30 ≤ b ∧ b ≤ 0x39 := by
  simp [isDigit]

theorem Follows.not_digit {rest : Bytes} (h : Follows rest) {b : UInt8}
    (hb : rest.head? = some b) : isDigit b = false ∧ b ≠ 0x2E ∧ b ≠ 0x65 ∧ b ≠ 0x45 := by
  have hmem := h b hb
  simp only [List.mem_cons, List.not_mem_nil, or_false] at hmem
  rcases hmem with rfl | rfl | rfl | rfl | rfl | rfl | rfl <;> decide

/-- A numeral read from the left, with the number read so far. -/
def readOn (acc : Nat) (digits : Bytes) : Nat :=
  digits.foldl (fun n d => n * 10 + (d.toNat - 0x30)) acc

theorem numeral_eq (digits : Bytes) : numeral digits = readOn 0 digits := rfl

theorem le_readOn (acc : Nat) (digits : Bytes) : acc ≤ readOn acc digits := by
  induction digits generalizing acc with
  | nil => exact le_refl acc
  | cons d digits ih =>
      calc acc ≤ acc * 10 + (d.toNat - 0x30) := by omega
        _ ≤ readOn acc (d :: digits) := ih _

/-- The overflow guard lets exactly the numerals up to the limit through. -/
theorem accumulate_eq {limit acc n : Nat} {digits : Bytes} (hlimit : 9 ≤ limit)
    (hdigits : ∀ b ∈ digits, isDigit b = true) (hacc : acc ≤ limit) :
    accumulate limit acc digits = some n ↔ readOn acc digits = n ∧ n ≤ limit := by
  induction digits generalizing acc with
  | nil =>
      simp only [accumulate, readOn, List.foldl_nil, Option.some.injEq]
      constructor
      · rintro rfl
        exact ⟨rfl, hacc⟩
      · exact And.left
  | cons d digits ih =>
      have hd := isDigit_iff.mp (hdigits d (by simp))
      have hd' : 0x30 ≤ d.toNat ∧ d.toNat ≤ 0x39 := hd
      have hguard : acc > (limit - (d.toNat - 0x30)) / 10 ↔
          ¬ acc * 10 + (d.toNat - 0x30) ≤ limit := by omega
      have hread : readOn acc (d :: digits) = readOn (acc * 10 + (d.toNat - 0x30)) digits := rfl
      simp only [accumulate, hguard]
      by_cases hfits : acc * 10 + (d.toNat - 0x30) ≤ limit
      · rw [if_neg (not_not.mpr hfits), ih (fun b hb => hdigits b (by simp [hb])) hfits, hread]
      · rw [if_pos hfits, hread]
        simp only [reduceCtorEq, false_iff, not_and]
        rintro rfl
        have hle := le_readOn (acc * 10 + (d.toNat - 0x30)) digits
        omega

theorem IsNatural.digits {digits : Bytes} (h : IsNatural digits) :
    ∀ b ∈ digits, isDigit b = true := by
  rcases h with rfl | ⟨d, ds, rfl, hlow, hhigh, hds⟩
  · simp [isDigit]
  · intro b hb
    rw [isDigit_iff]
    cases hb with
    | head => grind
    | tail _ hmem => exact hds b hmem

theorem IsNatural.head {digits : Bytes} (h : IsNatural digits) :
    ∃ d ds, digits = d :: ds ∧ isDigit d = true := by
  rcases h with rfl | ⟨d, ds, rfl, hlow, hhigh, -⟩
  · exact ⟨0x30, [], rfl, by decide⟩
  · exact ⟨d, ds, rfl, isDigit_iff.mpr (by grind)⟩

theorem nine_le_magnitude (negative : Bool) : 9 ≤ magnitude negative := by
  cases negative <;> decide

theorem integerOf_eq {negative : Bool} {digits rest rest' : Bytes} {value : Value}
    (hnat : IsNatural digits) :
    integerOf negative digits rest = .ok (value, rest') ↔
      numeral digits ≤ magnitude negative ∧
        value = .int (signed negative (numeral digits)) ∧ rest' = rest := by
  have hread := fun n => @accumulate_eq (magnitude negative) 0 n digits
    (nine_le_magnitude negative) hnat.digits (Nat.zero_le _)
  unfold integerOf
  cases hacc : accumulate (magnitude negative) 0 digits with
  | none =>
      have hover : ¬ numeral digits ≤ magnitude negative := by
        intro hle
        rw [(hread _).mpr ⟨rfl, hle⟩] at hacc
        cases hacc
      simp [hover, setError]
  | some acc =>
      obtain ⟨hnum, hle⟩ := (hread acc).mp hacc
      rw [← numeral_eq] at hnum
      subst hnum
      simp [hle, eq_comm]

theorem parseDigits_sound {negative : Bool} {s rest : Bytes} {value : Value}
    (h : parseDigits negative s = .ok (value, rest)) :
    ∃ digits, s = digits ++ rest ∧ IsNatural digits ∧
      numeral digits ≤ magnitude negative ∧ value = .int (signed negative (numeral digits)) := by
  cases s with
  | nil => cases h
  | cons c cs =>
      simp only [parseDigits, setError] at h
      by_cases hzero : c = 0x30
      · have hnat : IsNatural [c] := .inl (by rw [hzero])
        simp only [hzero, if_true, true_and] at h
        split_ifs at h
        obtain ⟨hle, rfl, rfl⟩ := (integerOf_eq (hzero ▸ hnat)).mp h
        exact ⟨[c], rfl, hnat, hzero ▸ hle, by rw [hzero]⟩
      · simp only [hzero, if_false, false_and] at h
        split_ifs at h with hc
        have hc' := isDigit_iff.mp (by simpa using hc)
        have hnat : IsNatural ((c :: cs).takeWhile isDigit) := by
          refine .inr ⟨c, cs.takeWhile isDigit, ?_, by grind, hc'.2, ?_⟩
          · simp [List.takeWhile, hc]
          · exact fun b hb => isDigit_iff.mp (List.mem_takeWhile_imp hb)
        obtain ⟨hle, rfl, rfl⟩ := (integerOf_eq hnat).mp h
        exact ⟨_, List.takeWhile_append_dropWhile.symm, hnat, hle, rfl⟩

theorem parseDigits_complete {negative : Bool} {digits rest : Bytes} (h : IsNatural digits)
    (hfits : numeral digits ≤ magnitude negative) (hrest : Follows rest) :
    parseDigits negative (digits ++ rest) =
      .ok (.int (signed negative (numeral digits)), rest) := by
  have hread : integerOf negative digits rest =
      .ok (.int (signed negative (numeral digits)), rest) :=
    (integerOf_eq h).mpr ⟨hfits, rfl, rfl⟩
  have hnodigit : rest.head?.any isDigit = false := by
    cases hb : rest.head? with
    | none => rfl
    | some b => exact (hrest.not_digit hb).1
  have hpoint : rest.head? ≠ some 0x2E := fun hb => (hrest.not_digit hb).2.1 rfl
  have hlower : rest.head? ≠ some 0x65 := fun hb => (hrest.not_digit hb).2.2.1 rfl
  have hupper : rest.head? ≠ some 0x45 := fun hb => (hrest.not_digit hb).2.2.2 rfl
  have htake : (digits ++ rest).takeWhile isDigit = digits := by
    rw [List.takeWhile_append_of_pos h.digits]
    cases rest with
    | nil => simp
    | cons b rest => simp [List.takeWhile, (hrest.not_digit rfl).1]
  have hdrop : (digits ++ rest).dropWhile isDigit = rest := by
    rw [List.dropWhile_append_of_pos h.digits]
    cases rest with
    | nil => rfl
    | cons b rest => simp [List.dropWhile, (hrest.not_digit rfl).1]
  rcases h with rfl | ⟨d, ds, rfl, hlow, hhigh, hds⟩
  · have hzero : isDigit 0x30 = true := by decide
    simp [parseDigits, hzero, hnodigit, hpoint, hlower, hupper, hread]
  · have hd : isDigit d = true := isDigit_iff.mpr (by grind)
    have hne : d ≠ 0x30 := by grind
    rw [List.cons_append] at htake hdrop
    simp only [List.cons_append, parseDigits, hd, hne, htake, hdrop, hpoint, hlower, hupper,
      Bool.true_eq_false, if_false, false_and, or_self, hread]

theorem parseNumber_sound {s rest : Bytes} {value : Value}
    (h : parseNumber s = .ok (value, rest)) :
    ∃ text n, s = text ++ rest ∧ IsInteger text n ∧ value = .int n := by
  unfold parseNumber at h
  split_ifs at h with hminus
  · obtain ⟨digits, heq, hnat, hle, rfl⟩ := parseDigits_sound h
    obtain ⟨tail, rfl⟩ : ∃ tail, s = 0x2D :: tail := by
      cases s with
      | nil => cases hminus
      | cons c tail =>
          cases hminus
          exact ⟨tail, rfl⟩
    have heq' : tail = digits ++ rest := heq
    have hle' : numeral digits ≤ 2 ^ 63 := hle
    exact ⟨0x2D :: digits, _, by simp [heq'], .minus hnat (by omega), rfl⟩
  · obtain ⟨digits, heq, hnat, hle, rfl⟩ := parseDigits_sound h
    have hle' : numeral digits ≤ 2 ^ 63 - 1 := hle
    exact ⟨digits, _, heq, .plain hnat (by omega), rfl⟩

theorem parseNumber_complete {text rest : Bytes} {n : Int} (h : IsInteger text n)
    (hrest : Follows rest) : parseNumber (text ++ rest) = .ok (.int n, rest) := by
  cases h with
  | @plain digits hnat hfits =>
      obtain ⟨d, ds, rfl, hd⟩ := hnat.head
      have hne : d ≠ 0x2D := by
        rintro rfl
        exact absurd hd (by decide)
      have hle : numeral (d :: ds) ≤ magnitude false := by
        show numeral (d :: ds) ≤ 2 ^ 63 - 1
        omega
      have hread := parseDigits_complete hnat hle hrest
      simp only [parseNumber, List.cons_append, List.head?_cons, Option.some.injEq, hne, if_false]
      exact hread
  | @minus digits hnat hfits =>
      have hle : numeral digits ≤ magnitude true := by
        show numeral digits ≤ 2 ^ 63
        omega
      have hread := parseDigits_complete hnat hle hrest
      simp only [parseNumber, List.cons_append, List.head?_cons, if_true, List.tail_cons]
      exact hread

end FileMover.Json
