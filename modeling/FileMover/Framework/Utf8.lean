import Mathlib.Data.List.Basic
import Mathlib.Tactic

/-!
# UTF-8

A byte string is well-formed UTF-8 when it is the encoding of some list of
scalar values; the encoding of one scalar value is the one of the standard
library. The other description, by ranges of bytes, is the one a validator
walks along: a lead byte fixes the length of the sequence and narrows the range
of the byte after it. The two are shown to be the same set of sequences, and
what keeps a walk aligned is proved about them: the lead byte of a sequence is
never a continuation byte, the other bytes always are.
-/

namespace Utf8

/-- Well-formed UTF-8: the encoding of a list of scalar values. -/
def WellFormed (s : List UInt8) : Prop :=
  ∃ cs : List Char, cs.flatMap String.utf8EncodeChar = s

def Continuation (b : UInt8) : Prop := 0x80 ≤ b ∧ b ≤ 0xBF

instance (b : UInt8) : Decidable (Continuation b) :=
  inferInstanceAs (Decidable (0x80 ≤ b ∧ b ≤ 0xBF))

/-- One sequence, by the ranges of its bytes. -/
inductive Sequence : List UInt8 → Prop
  | one {a : UInt8} (ha : a < 0x80) : Sequence [a]
  | two {a b : UInt8} (ha : 0xC2 ≤ a ∧ a ≤ 0xDF) (hb : Continuation b) :
      Sequence [a, b]
  /-- `0xE0` would be overlong below `0xA0`, `0xED` a surrogate above `0x9F`. -/
  | three {a b c : UInt8} (ha : 0xE0 ≤ a ∧ a ≤ 0xEF) (hb : Continuation b)
      (hlow : a = 0xE0 → 0xA0 ≤ b) (hhigh : a = 0xED → b ≤ 0x9F)
      (hc : Continuation c) : Sequence [a, b, c]
  /-- `0xF0` would be overlong below `0x90`, `0xF4` leaves Unicode above `0x8F`. -/
  | four {a b c d : UInt8} (ha : 0xF0 ≤ a ∧ a ≤ 0xF4) (hb : Continuation b)
      (hlow : a = 0xF0 → 0x90 ≤ b) (hhigh : a = 0xF4 → b ≤ 0x8F)
      (hc : Continuation c) (hd : Continuation d) : Sequence [a, b, c, d]

/-! ## The encoding of a scalar value, over natural numbers -/

/-- The bytes of the scalar value `v`. -/
def encodeScalar (v : Nat) : List UInt8 :=
  if v ≤ 0x7F then [UInt8.ofNat v]
  else if v ≤ 0x7FF then
    [UInt8.ofNat (v / 64 % 0x20 + 0xC0), UInt8.ofNat (v % 0x40 + 0x80)]
  else if v ≤ 0xFFFF then
    [UInt8.ofNat (v / 4096 % 0x10 + 0xE0), UInt8.ofNat (v / 64 % 0x40 + 0x80),
      UInt8.ofNat (v % 0x40 + 0x80)]
  else
    [UInt8.ofNat (v / 262144 % 0x08 + 0xF0), UInt8.ofNat (v / 4096 % 0x40 + 0x80),
      UInt8.ofNat (v / 64 % 0x40 + 0x80), UInt8.ofNat (v % 0x40 + 0x80)]

theorem utf8EncodeChar_eq (c : Char) :
    String.utf8EncodeChar c = encodeScalar c.toNat := rfl

theorem toNat_ofNat {v : Nat} (h : v.isValidChar) : (Char.ofNat v).toNat = v := by
  rw [Char.ofNat, dif_pos h]
  rfl

theorem utf8EncodeChar_ofNat {v : Nat} (h : v.isValidChar) :
    String.utf8EncodeChar (Char.ofNat v) = encodeScalar v := by
  rw [utf8EncodeChar_eq, toNat_ofNat h]

/-- A byte is the number it holds. -/
theorem eq_ofNat {a : UInt8} {n : Nat} (h : n = a.toNat) : UInt8.ofNat n = a := by
  subst h
  exact UInt8.ofNat_toNat

theorem le_ofNat {a : UInt8} {n : Nat} (h : n < 256) :
    a ≤ UInt8.ofNat n ↔ a.toNat ≤ n := by
  rw [UInt8.le_iff_toNat_le, UInt8.toNat_ofNat_of_lt' h]

theorem ofNat_le {a : UInt8} {n : Nat} (h : n < 256) :
    UInt8.ofNat n ≤ a ↔ n ≤ a.toNat := by
  rw [UInt8.le_iff_toNat_le, UInt8.toNat_ofNat_of_lt' h]

theorem ofNat_eq {a : UInt8} {n : Nat} (h : n < 256) :
    UInt8.ofNat n = a ↔ n = a.toNat := by
  rw [← UInt8.toNat_inj, UInt8.toNat_ofNat_of_lt' h]

/-- A number in the range of two bytes, as a byte in the range. -/
theorem ofNat_mem {a b : UInt8} {n : Nat} (ha : a.toNat ≤ n) (hb : n ≤ b.toNat) :
    a ≤ UInt8.ofNat n ∧ UInt8.ofNat n ≤ b := by
  have hn : n < 256 := Nat.lt_of_le_of_lt hb b.toNat_lt
  exact ⟨(le_ofNat hn).mpr ha, (ofNat_le hn).mpr hb⟩

theorem continuation_ofNat (n : Nat) : Continuation (UInt8.ofNat (n % 0x40 + 0x80)) :=
  ofNat_mem (by simp) (by simp; omega)

theorem sequence_encodeScalar {v : Nat} (h : v.isValidChar) : Sequence (encodeScalar v) := by
  have hv : v < 0xD800 ∨ 0xDFFF < v ∧ v < 0x110000 := h
  unfold encodeScalar
  split_ifs with h1 h2 h3
  · refine .one ?_
    rw [UInt8.lt_iff_toNat_lt, UInt8.toNat_ofNat_of_lt' (by show v < 256; omega)]
    simp
    omega
  · refine .two (ofNat_mem ?_ ?_) (continuation_ofNat v)
    · simp
      omega
    · simp
      omega
  · refine .three (ofNat_mem ?_ ?_) (continuation_ofNat _) ?_ ?_ (continuation_ofNat v)
    · simp
    · simp
      omega
    · rw [ofNat_eq (by omega), le_ofNat (by omega)]
      simp
      omega
    · rw [ofNat_eq (by omega), ofNat_le (by omega)]
      simp
      omega
  · refine .four (ofNat_mem ?_ ?_) (continuation_ofNat _) ?_ ?_ (continuation_ofNat _)
      (continuation_ofNat v)
    · simp
    · simp
      omega
    · rw [ofNat_eq (by omega), le_ofNat (by omega)]
      simp
      omega
    · rw [ofNat_eq (by omega), ofNat_le (by omega)]
      simp
      omega

/-- The byte ranges admit exactly the encodings of the scalar values. -/
theorem sequence_iff {s : List UInt8} :
    Sequence s ↔ ∃ c : Char, String.utf8EncodeChar c = s := by
  constructor
  · intro h
    suffices hscalar : ∃ v : Nat, v.isValidChar ∧ encodeScalar v = s by
      obtain ⟨v, hv, rfl⟩ := hscalar
      exact ⟨Char.ofNat v, utf8EncodeChar_ofNat hv⟩
    -- the scalar value is read off the payload bits of the sequence
    cases h with
    | @one a ha =>
        have ha' : a.toNat < 0x80 := UInt8.lt_iff_toNat_lt.mp ha
        refine ⟨a.toNat, .inl (by omega), ?_⟩
        simp [encodeScalar, Nat.le_of_lt_succ ha']
    | @two a b ha hb =>
        have ha' : 0xC2 ≤ a.toNat ∧ a.toNat ≤ 0xDF := ha
        have hb' : 0x80 ≤ b.toNat ∧ b.toNat ≤ 0xBF := hb
        refine ⟨(a.toNat - 0xC0) * 64 + (b.toNat - 0x80), .inl (by omega), ?_⟩
        rw [encodeScalar, if_neg (by omega), if_pos (by omega), eq_ofNat (a := a) (by omega),
          eq_ofNat (a := b) (by omega)]
    | @three a b c ha hb hlow hhigh hc =>
        have ha' : 0xE0 ≤ a.toNat ∧ a.toNat ≤ 0xEF := ha
        have hb' : 0x80 ≤ b.toNat ∧ b.toNat ≤ 0xBF := hb
        have hc' : 0x80 ≤ c.toNat ∧ c.toNat ≤ 0xBF := hc
        have hlow' : a.toNat = 0xE0 → 0xA0 ≤ b.toNat := fun h => hlow (UInt8.toNat_inj.mp h)
        have hhigh' : a.toNat = 0xED → b.toNat ≤ 0x9F := fun h => hhigh (UInt8.toNat_inj.mp h)
        refine ⟨(a.toNat - 0xE0) * 4096 + (b.toNat - 0x80) * 64 + (c.toNat - 0x80), ?_, ?_⟩
        · unfold Nat.isValidChar
          omega
        · rw [encodeScalar, if_neg (by omega), if_neg (by omega), if_pos (by omega),
            eq_ofNat (a := a) (by omega), eq_ofNat (a := b) (by omega),
            eq_ofNat (a := c) (by omega)]
    | @four a b c d ha hb hlow hhigh hc hd =>
        have ha' : 0xF0 ≤ a.toNat ∧ a.toNat ≤ 0xF4 := ha
        have hb' : 0x80 ≤ b.toNat ∧ b.toNat ≤ 0xBF := hb
        have hc' : 0x80 ≤ c.toNat ∧ c.toNat ≤ 0xBF := hc
        have hd' : 0x80 ≤ d.toNat ∧ d.toNat ≤ 0xBF := hd
        have hlow' : a.toNat = 0xF0 → 0x90 ≤ b.toNat := fun h => hlow (UInt8.toNat_inj.mp h)
        have hhigh' : a.toNat = 0xF4 → b.toNat ≤ 0x8F := fun h => hhigh (UInt8.toNat_inj.mp h)
        refine ⟨(a.toNat - 0xF0) * 262144 + (b.toNat - 0x80) * 4096 + (c.toNat - 0x80) * 64 +
          (d.toNat - 0x80), ?_, ?_⟩
        · unfold Nat.isValidChar
          omega
        · rw [encodeScalar, if_neg (by omega), if_neg (by omega), if_neg (by omega),
            eq_ofNat (a := a) (by omega), eq_ofNat (a := b) (by omega),
            eq_ofNat (a := c) (by omega), eq_ofNat (a := d) (by omega)]
  · rintro ⟨c, rfl⟩
    rw [utf8EncodeChar_eq]
    exact sequence_encodeScalar c.valid

/-! ## Alignment -/

/-- The lead byte of a sequence is not a continuation byte, every other byte is. -/
theorem Sequence.lead {s : List UInt8} (h : Sequence s) :
    ∃ a t, s = a :: t ∧ ¬ Continuation a ∧ ∀ b ∈ t, Continuation b := by
  cases h with
  | @one a ha => exact ⟨a, [], rfl, by grind [Continuation], by simp⟩
  | @two a b ha hb => exact ⟨a, [b], rfl, by grind [Continuation], by simpa using hb⟩
  | @three a b c ha hb _ _ hc =>
      exact ⟨a, [b, c], rfl, by grind [Continuation], by simpa using ⟨hb, hc⟩⟩
  | @four a b c d ha hb _ _ hc hd =>
      exact ⟨a, [b, c, d], rfl, by grind [Continuation], by simpa using ⟨hb, hc, hd⟩⟩

/-- Only the one-byte sequence of zero holds a zero. -/
theorem Sequence.zero_mem {s : List UInt8} (h : Sequence s) (hzero : 0 ∈ s) : s = [0] := by
  have hcont : ¬ Continuation 0 := by decide
  obtain ⟨a, t, rfl, -, ht⟩ := h.lead
  cases hzero with
  | tail _ hmem => exact absurd (ht 0 hmem) hcont
  | head =>
      cases h with
      | one _ => rfl
      | two ha _ => exact absurd ha.1 (by decide)
      | three ha _ _ _ _ => exact absurd ha.1 (by decide)
      | four ha _ _ _ _ _ => exact absurd ha.1 (by decide)

/-- The length that a lead byte announces. -/
def lengthAfter (a : UInt8) : Nat :=
  if a < 0x80 then 1 else if a < 0xE0 then 2 else if a < 0xF0 then 3 else 4

theorem Sequence.length_eq {q t : List UInt8} (h : Sequence q) :
    q.length = lengthAfter ((q ++ t).headD 0) := by
  cases h with
  | one ha => simp [lengthAfter, ha]
  | @two a b ha hb =>
      have h1 : ¬ a < 0x80 := by grind
      have h2 : a < 0xE0 := by grind
      simp [lengthAfter, h1, h2]
  | @three a b c ha hb _ _ hc =>
      have h1 : ¬ a < 0x80 := by grind
      have h2 : ¬ a < 0xE0 := by grind
      have h3 : a < 0xF0 := by grind
      simp [lengthAfter, h1, h2, h3]
  | @four a b c d ha hb _ _ hc hd =>
      have h1 : ¬ a < 0x80 := by grind
      have h2 : ¬ a < 0xE0 := by grind
      have h3 : ¬ a < 0xF0 := by grind
      simp [lengthAfter, h1, h2, h3]

/-- Two sequences at one place are the same sequence. -/
theorem Sequence.eq_of_append_eq {q q' t t' : List UInt8} (h : Sequence q)
    (h' : Sequence q') (heq : q ++ t = q' ++ t') : q = q' ∧ t = t' := by
  apply List.append_inj heq
  rw [h.length_eq (t := t), h'.length_eq (t := t'), heq]

theorem wellFormed_nil : WellFormed [] := ⟨[], rfl⟩

theorem WellFormed.append {s t : List UInt8} (hs : WellFormed s) (ht : WellFormed t) :
    WellFormed (s ++ t) := by
  obtain ⟨cs, rfl⟩ := hs
  obtain ⟨ds, rfl⟩ := ht
  exact ⟨cs ++ ds, List.flatMap_append⟩

/-- Well-formed UTF-8 that is not empty starts with a sequence. -/
theorem WellFormed.split {s : List UInt8} (h : WellFormed s) (hne : s ≠ []) :
    ∃ q t, s = q ++ t ∧ Sequence q ∧ WellFormed t := by
  obtain ⟨cs, rfl⟩ := h
  cases cs with
  | nil => exact absurd rfl hne
  | cons c cs => exact ⟨_, _, rfl, sequence_iff.mpr ⟨c, rfl⟩, cs, rfl⟩

theorem Sequence.append {q t : List UInt8} (h : Sequence q) (ht : WellFormed t) :
    WellFormed (q ++ t) := by
  obtain ⟨c, rfl⟩ := sequence_iff.mp h
  obtain ⟨cs, rfl⟩ := ht
  exact ⟨c :: cs, rfl⟩

/-- What follows a sequence in well-formed UTF-8 is well-formed. -/
theorem WellFormed.of_append {q t : List UInt8} (h : WellFormed (q ++ t))
    (hq : Sequence q) : WellFormed t := by
  obtain ⟨a, q', rfl, -, -⟩ := hq.lead
  obtain ⟨q₂, t₂, heq, hq₂, ht₂⟩ := h.split (by simp)
  obtain ⟨-, rfl⟩ := hq.eq_of_append_eq hq₂ heq
  exact ht₂

/-- A cut before a byte that is not a continuation is between two sequences. -/
theorem WellFormed.of_append_left {s t : List UInt8} {b : UInt8} (h : WellFormed (s ++ b :: t))
    (hb : ¬ Continuation b) : WellFormed s := by
  induction hn : s.length using Nat.strong_induction_on generalizing s with
  | _ n ih =>
      by_cases hempty : s = []
      · subst hempty
        exact wellFormed_nil
      obtain ⟨q, rest, heq, hq, hrest⟩ := h.split (by simp)
      obtain ⟨a, q', rfl, -, hcont⟩ := hq.lead
      obtain ⟨c, s', rfl⟩ := List.exists_cons_of_ne_nil hempty
      rcases List.append_eq_append_iff.mp heq with ⟨more, hmore, hover⟩ | ⟨s'', hs, hrest'⟩
      · -- the first sequence would reach past the cut
        cases more with
        | nil =>
            rw [List.append_nil] at hmore
            rw [← hmore]
            simpa using hq.append wellFormed_nil
        | cons d more =>
            cases hover
            rw [List.cons_append] at hmore
            have hmem : b ∈ q' := by
              have htail := (List.cons.inj hmore).2
              rw [htail]
              simp
            exact absurd (hcont b hmem) hb
      · rw [hs]
        refine hq.append (ih s''.length ?_ (hrest' ▸ hrest) rfl)
        rw [← hn, hs]
        simp

/-! ## What stands around a text -/

theorem WellFormed.cons {b : UInt8} {s : List UInt8} (hs : WellFormed s) (hb : b < 0x80) :
    WellFormed (b :: s) :=
  (Sequence.one hb).append hs

theorem wellFormed_of_ascii {s : List UInt8} (h : ∀ b ∈ s, b < 0x80) : WellFormed s := by
  induction s with
  | nil => exact wellFormed_nil
  | cons b s ih =>
      have htail := ih fun b' hb' => h b' (by simp [hb'])
      exact htail.cons (h b (by simp))

/-- Well-formed UTF-8 before a text changes nothing. -/
theorem wellFormed_append_iff_right {s t : List UInt8} (hs : WellFormed s) :
    WellFormed (s ++ t) ↔ WellFormed t := by
  constructor
  · intro hst
    obtain ⟨cs, rfl⟩ := hs
    induction cs with
    | nil => exact hst
    | cons c cs ih =>
        rw [List.flatMap_cons, List.append_assoc] at hst
        exact ih (hst.of_append (sequence_iff.mpr ⟨c, rfl⟩))
  · intro ht
    exact hs.append ht

/-- Nor does well-formed UTF-8 after it. -/
theorem wellFormed_append_iff_left {s t : List UInt8} (ht : WellFormed t) :
    WellFormed (s ++ t) ↔ WellFormed s := by
  constructor
  · intro hst
    by_cases hempty : t = []
    · simpa [hempty] using hst
    · obtain ⟨q, rest, rfl, hq, -⟩ := ht.split hempty
      obtain ⟨a, q', rfl, ha, -⟩ := hq.lead
      exact hst.of_append_left ha
  · intro hs
    exact hs.append ht

end Utf8
