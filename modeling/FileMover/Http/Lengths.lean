import FileMover.Json.Grammar
import FileMover.Model.Http
import Mathlib.Data.List.TakeWhile

/-!
# The declared length

`content_length_for` once more, this time with its out-parameters and its 64-bit
words, and the classification its contract describes. One pass over the value looks
for a byte that is no digit and for an overflow, and the first of the two decides:
a value that is no numeral is taken for one that is too large when the digits in
front of its first bad byte already leave the 64-bit range.
-/

namespace FileMover.Http

open Json (numeral)

/-! ## The function on machine words -/

/-- The parameters that `content_length_for` may assign. -/
structure LengthOut where
  length : UInt64 := 0
  httpStatus : Nat := 0
  error : Bytes := []
deriving DecidableEq, Repr

namespace Words

/-- `static_cast<std::uint64_t>(-1)`. -/
def limit : UInt64 := -1

def lengthDigits : UInt64 → Bytes → Except (Nat × Bytes) UInt64
  | parsed, [] => .ok parsed
  | parsed, c :: cs =>
      if isDigit c = false then .error (400, lit "invalid Content-Length")
      else
        let digit := (c - 0x30).toUInt64
        if parsed > (limit - digit) / 10 then
          .error (413, lit "request body exceeds limit")
        else lengthDigits (parsed * 10 + digit) cs

def contentLengthFor (request : Request) (maxBody : UInt64) (out : LengthOut) :
    Bool × LengthOut :=
  if (request.header (lit "transfer-encoding")).isSome then
    (false, { out with httpStatus := 400, error := lit "Transfer-Encoding is not supported" })
  else
    match request.header (lit "content-length") with
    | none => (true, { out with length := 0 })
    | some value =>
        if value = [] then
          (false, { out with httpStatus := 400, error := lit "invalid Content-Length" })
        else
          match lengthDigits 0 value with
          | .error (status, error) => (false, { out with httpStatus := status, error := error })
          | .ok parsed =>
              if parsed > maxBody then
                (false, { out with httpStatus := 413, error := lit "request body exceeds limit" })
              else (true, { out with length := parsed })

end Words

/-! ## The classification -/

inductive Verdict
  | refused (status : Nat)
  | declares (length : Nat)
deriving DecidableEq

/-- What the contract says of a request. The value is a natural number of any size. -/
def verdict (request : Request) (maxBody : Nat) : Verdict :=
  if (request.header (lit "transfer-encoding")).isSome then .refused 400
  else
    match request.header (lit "content-length") with
    | none => .declares 0
    | some value =>
        if value = [] ∨ ∃ c ∈ value, isDigit c = false then .refused 400
        else if numeral value > maxBody then .refused 413
        else .declares (numeral value)

/-- The verdict as `content_length_for` reports it. -/
def Verdict.Reported : Verdict → Bool × LengthOut → Prop
  | .refused status, result => result.1 = false ∧ result.2.httpStatus = status
  | .declares length, result => result.1 = true ∧ result.2.length.toNat = length

structure Classified (request : Request) (maxBody : UInt64) (out : LengthOut) : Prop where
  reported : (verdict request maxBody.toNat).Reported (Words.contentLengthFor request maxBody out)
  /-- The accumulator holds the number that was read so far. -/
  exact : ∀ value, request.header (lit "content-length") = some value →
    ∀ digits, digits <+: value → ∀ parsed, Words.lengthDigits 0 digits = .ok parsed →
      parsed.toNat = numeral digits
  untouched : (Words.contentLengthFor request maxBody out).1 = false →
    (Words.contentLengthFor request maxBody out).2.length = out.length

/-- The length is not looked at, or is a numeral, or the digits in front of its first
bad byte denote a 64-bit number. -/
def SyntaxFirst (request : Request) : Prop :=
  (request.header (lit "transfer-encoding")).isSome ∨
    ∀ value, request.header (lit "content-length") = some value →
      (∀ c ∈ value, isDigit c = true) ∨ numeral (value.takeWhile isDigit) < 2 ^ 64

/-! ## The loop over the digits -/

/-- The digits `cs` after what `n` stands for. -/
def numeralFrom (n : Nat) (cs : Bytes) : Nat := cs.foldl (fun n d => n * 10 + (d.toNat - 0x30)) n

theorem numeralFrom_cons (n : Nat) (c : UInt8) (cs : Bytes) :
    numeralFrom n (c :: cs) = numeralFrom (n * 10 + (c.toNat - 0x30)) cs := by
  simp only [numeralFrom, List.foldl_cons]

theorem le_numeralFrom (n : Nat) (cs : Bytes) : n ≤ numeralFrom n cs := by
  induction cs generalizing n with
  | nil => exact Nat.le_refl n
  | cons c cs ih =>
      have hstep : n ≤ n * 10 + (c.toNat - 0x30) := by omega
      rw [numeralFrom_cons]
      exact hstep.trans (ih _)

theorem isDigit_iff (c : UInt8) : isDigit c = true ↔ 0x30 ≤ c.toNat ∧ c.toNat ≤ 0x39 := by
  simp only [isDigit, Bool.and_eq_true, decide_eq_true_eq, UInt8.le_iff_toNat_le]
  exact Iff.rfl

theorem digit_toNat {c : UInt8} (hc : isDigit c = true) :
    (c - 0x30).toUInt64.toNat = c.toNat - 0x30 := by
  have hle : 0x30 ≤ c := by
    rw [UInt8.le_iff_toNat_le]
    exact ((isDigit_iff c).mp hc).1
  rw [UInt8.toNat_toUInt64, UInt8.toNat_sub_of_le _ _ hle]
  rfl

/-- The guard is exact: it lets a digit through if and only if the sum fits. -/
theorem guard_iff {parsed : UInt64} {c : UInt8} (hc : isDigit c = true) :
    parsed > (Words.limit - (c - 0x30).toUInt64) / 10 ↔
      2 ^ 64 ≤ parsed.toNat * 10 + (c.toNat - 0x30) := by
  have hhi := ((isDigit_iff c).mp hc).2
  have hlimit : Words.limit.toNat = 2 ^ 64 - 1 := by decide
  have hle : (c - 0x30).toUInt64 ≤ Words.limit := by
    rw [UInt64.le_iff_toNat_le, digit_toNat hc, hlimit]
    omega
  rw [gt_iff_lt, UInt64.lt_iff_toNat_lt, UInt64.toNat_div, UInt64.toNat_sub_of_le _ _ hle,
    digit_toNat hc, hlimit]
  show (2 ^ 64 - 1 - (c.toNat - 0x30)) / 10 < parsed.toNat ↔ _
  omega

theorem step_toNat {parsed : UInt64} {c : UInt8} (hc : isDigit c = true)
    (hfits : parsed.toNat * 10 + (c.toNat - 0x30) < 2 ^ 64) :
    (parsed * 10 + (c - 0x30).toUInt64).toNat = parsed.toNat * 10 + (c.toNat - 0x30) := by
  rw [UInt64.toNat_add, UInt64.toNat_mul, digit_toNat hc]
  show (parsed.toNat * 10 % 2 ^ 64 + _) % 2 ^ 64 = _
  omega

/-- How the loop ends: with a number that fits, at a byte that is no digit after digits
that fit, or at an overflow. -/
theorem lengthDigits_ends (parsed : UInt64) (cs : Bytes) :
    (∀ c ∈ cs, isDigit c = true) ∧ numeralFrom parsed.toNat cs < 2 ^ 64 ∧
        (∃ n, Words.lengthDigits parsed cs = .ok n ∧ n.toNat = numeralFrom parsed.toNat cs) ∨
      (∃ c ∈ cs, isDigit c = false) ∧ numeralFrom parsed.toNat (cs.takeWhile isDigit) < 2 ^ 64 ∧
        Words.lengthDigits parsed cs = .error (400, lit "invalid Content-Length") ∨
      2 ^ 64 ≤ numeralFrom parsed.toNat (cs.takeWhile isDigit) ∧
        Words.lengthDigits parsed cs = .error (413, lit "request body exceeds limit") := by
  induction cs generalizing parsed with
  | nil => exact .inl ⟨by simp, parsed.toNat_lt, parsed, rfl, rfl⟩
  | cons c cs ih =>
      cases hc : isDigit c with
      | false =>
          refine .inr (.inl ⟨⟨c, by simp, hc⟩, ?_, ?_⟩)
          · rw [List.takeWhile_cons_of_neg (by simp [hc])]
            exact parsed.toNat_lt
          · rw [Words.lengthDigits, if_pos hc]
      | true =>
          have hne : ¬ isDigit c = false := by simp [hc]
          rw [List.takeWhile_cons_of_pos hc, numeralFrom_cons, numeralFrom_cons,
            Words.lengthDigits, if_neg hne]
          by_cases hover : 2 ^ 64 ≤ parsed.toNat * 10 + (c.toNat - 0x30)
          · -- the guard stops here, and what is still to come only makes the number larger
            rw [if_pos ((guard_iff hc).mpr hover)]
            exact .inr (.inr ⟨hover.trans (le_numeralFrom _ _), rfl⟩)
          · rw [if_neg (fun h => hover ((guard_iff hc).mp h)),
              ← step_toNat hc (Nat.lt_of_not_le hover)]
            simpa [hc] using ih (parsed * 10 + (c - 0x30).toUInt64)

/-- The loop on words and the loop on numbers. -/
theorem lengthDigits_words (parsed : UInt64) (cs : Bytes) :
    lengthDigits parsed.toNat cs = (Words.lengthDigits parsed cs).map UInt64.toNat := by
  induction cs generalizing parsed with
  | nil => rfl
  | cons c cs ih =>
      rw [lengthDigits, Words.lengthDigits]
      by_cases hc : isDigit c = false
      · rw [if_pos hc, if_pos hc]
        rfl
      have hdigit : isDigit c = true := by simpa using hc
      have hhi := ((isDigit_iff c).mp hdigit).2
      have hguard : parsed.toNat > (2 ^ 64 - 1 - (c.toNat - 0x30)) / 10 ↔
          2 ^ 64 ≤ parsed.toNat * 10 + (c.toNat - 0x30) := by omega
      rw [if_neg hc, if_neg hc]
      by_cases hover : 2 ^ 64 ≤ parsed.toNat * 10 + (c.toNat - 0x30)
      · simp only [if_pos ((guard_iff hdigit).mpr hover), if_pos (hguard.mpr hover)]
        rfl
      · simp only [if_neg (fun h => hover ((guard_iff hdigit).mp h)),
          if_neg (fun h => hover (hguard.mp h))]
        rw [← step_toNat hdigit (Nat.lt_of_not_le hover)]
        exact ih _

/-- What the connection takes from `content_length_for` is what the words say. -/
theorem contentLengthFor_words (request : Request) (maxBody : UInt64) (out : LengthOut) :
    Words.contentLengthFor request maxBody out =
      match contentLengthFor request maxBody.toNat with
      | .ok length => (true, { out with length := UInt64.ofNat length })
      | .error (status, error) => (false, { out with httpStatus := status, error := error }) := by
  rw [Words.contentLengthFor, contentLengthFor]
  split
  · rfl
  · cases request.header (lit "content-length") with
    | none => rfl
    | some value =>
        dsimp only
        split
        · rfl
        · have hwords := lengthDigits_words 0 value
          rw [UInt64.toNat_zero] at hwords
          rw [hwords]
          cases Words.lengthDigits 0 value with
          | error refusal => rfl
          | ok parsed =>
              simp only [Except.map, gt_iff_lt, ← UInt64.lt_iff_toNat_lt]
              split <;> simp

/-! ## The verdicts -/

theorem exact_prefix {digits : Bytes} {parsed : UInt64}
    (h : Words.lengthDigits 0 digits = .ok parsed) : parsed.toNat = numeral digits := by
  rcases lengthDigits_ends 0 digits with ⟨-, -, n, hn, heq⟩ | ⟨-, -, hn⟩ | ⟨-, hn⟩
  · rw [h] at hn
    cases hn
    exact heq
  · rw [h] at hn
    cases hn
  · rw [h] at hn
    cases hn

theorem untouched_length (request : Request) (maxBody : UInt64) (out : LengthOut)
    (h : (Words.contentLengthFor request maxBody out).1 = false) :
    (Words.contentLengthFor request maxBody out).2.length = out.length := by
  revert h
  rw [Words.contentLengthFor]
  split
  · simp
  · split
    · simp
    · split
      · simp
      · split
        · simp
        · split <;> simp

/-- The value alone: reported as it should be unless an overflow hides a bad byte. -/
theorem reported_value_iff {request : Request} {value : Bytes} (maxBody : UInt64)
    (out : LengthOut) (hte : (request.header (lit "transfer-encoding")).isSome = false)
    (hvalue : request.header (lit "content-length") = some value) :
    (verdict request maxBody.toNat).Reported (Words.contentLengthFor request maxBody out) ↔
      (∀ c ∈ value, isDigit c = true) ∨ numeral (value.takeWhile isDigit) < 2 ^ 64 := by
  rw [verdict, Words.contentLengthFor, if_neg (by simp [hte]), if_neg (by simp [hte])]
  simp only [hvalue]
  by_cases hempty : value = []
  · subst hempty
    simp [Verdict.Reported]
  rw [if_neg hempty]
  rcases lengthDigits_ends 0 value with
    ⟨hall, hfits, n, hn, heq⟩ | ⟨hbad, hfits, hn⟩ | ⟨hover, hn⟩
  · -- a numeral that fits: both sides compare the same number with the limit
    have hnum : n.toNat = numeral value := heq
    have hgood : ¬ (value = [] ∨ ∃ c ∈ value, isDigit c = false) := by
      rintro (h | ⟨c, hc, hfalse⟩)
      · exact hempty h
      · rw [hall c hc] at hfalse
        cases hfalse
    have hcmp : n > maxBody ↔ numeral value > maxBody.toNat := by
      rw [gt_iff_lt, UInt64.lt_iff_toNat_lt, hnum]
    rw [if_neg hgood, hn]
    refine ⟨fun _ => .inl hall, fun _ => ?_⟩
    by_cases hlarge : numeral value > maxBody.toNat
    · rw [if_pos hlarge]
      simp [Verdict.Reported, hcmp.mpr hlarge]
    · rw [if_neg hlarge]
      have hsmall : ¬ n > maxBody := fun h => hlarge (hcmp.mp h)
      simp [Verdict.Reported, hsmall, hnum]
  · rw [if_pos (.inr hbad), hn]
    exact ⟨fun _ => .inr hfits, fun _ => ⟨rfl, rfl⟩⟩
  · rw [hn]
    by_cases hbad : ∃ c ∈ value, isDigit c = false
    · -- the only way to go wrong
      rw [if_pos (.inr hbad)]
      constructor
      · rintro ⟨-, h⟩
        cases h
      · rintro (hall | hfits)
        · obtain ⟨c, hc, hfalse⟩ := hbad
          rw [hall c hc] at hfalse
          cases hfalse
        · exact absurd hfits (Nat.not_lt.mpr hover)
    · have hall : ∀ c ∈ value, isDigit c = true := by
        intro c hc
        by_contra hne
        exact hbad ⟨c, hc, by simpa using hne⟩
      have hlarge : numeral value > maxBody.toNat := by
        rw [List.takeWhile_eq_self_iff.mpr hall] at hover
        exact lt_of_lt_of_le maxBody.toNat_lt hover
      rw [if_neg (by simp [hempty, hbad]), if_pos hlarge]
      exact ⟨fun _ => .inl hall, fun _ => ⟨rfl, rfl⟩⟩

theorem classified_iff (request : Request) (maxBody : UInt64) (out : LengthOut) :
    Classified request maxBody out ↔ SyntaxFirst request := by
  have hexact : ∀ value, request.header (lit "content-length") = some value →
      ∀ digits, digits <+: value → ∀ parsed, Words.lengthDigits 0 digits = .ok parsed →
        parsed.toNat = numeral digits := fun _ _ _ _ _ h => exact_prefix h
  have hreported :
      (verdict request maxBody.toNat).Reported (Words.contentLengthFor request maxBody out) ↔
        SyntaxFirst request := by
    cases hte : (request.header (lit "transfer-encoding")).isSome with
    | true => simp [SyntaxFirst, verdict, Words.contentLengthFor, Verdict.Reported, hte]
    | false =>
        cases hvalue : request.header (lit "content-length") with
        | none => simp [SyntaxFirst, verdict, Words.contentLengthFor, Verdict.Reported, hte, hvalue]
        | some value =>
            rw [reported_value_iff maxBody out hte hvalue]
            simp [SyntaxFirst, hte, hvalue]
  constructor
  · intro h
    exact hreported.mp h.reported
  · intro h
    exact ⟨hreported.mpr h, hexact, untouched_length request maxBody out⟩

/-- Twenty nines and a letter: no numeral, but refused as one that is too large. -/
def hiddenLetter : Request :=
  { headers := [(lit "content-length", lit "99999999999999999999x")] }

theorem classified_hidden : ¬ Classified hiddenLetter 65536 {} := by
  intro h
  have hverdict : verdict hiddenLetter (UInt64.toNat 65536) = .refused 400 := by decide
  have hstatus : (Words.contentLengthFor hiddenLetter 65536 {}).2.httpStatus = 413 := by decide
  have hreported := h.reported
  rw [hverdict] at hreported
  exact absurd (hreported.2.symm.trans hstatus) (by decide)

end FileMover.Http
