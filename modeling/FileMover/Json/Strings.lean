import FileMover.Json.Grammar
import Mathlib.Data.List.TakeWhile

/-!
# Strings and numbers

The leaves of the parser against their productions. A scanner is sound when what
it consumes derives from the production, and complete when it consumes every
text of the production that stands where the scanner does. A string is decoded
sequence by sequence and escape by escape, while its production asks for
well-formed UTF-8 of the decoded bytes as a whole: an escape decodes to a whole
sequence, so the two walks never fall out of step.
-/

namespace FileMover.Json

/-! ## Whitespace -/

theorem isWs_iff {b : UInt8} : isWs b = true ↔ b ∈ [0x20, 0x09, 0x0A, 0x0D] := by
  simp [isWs, or_assoc]

theorem space_nil : Space [] := by simp [Space]

/-- No whitespace stands at the head of `s`. -/
def Stops (s : Bytes) : Prop := ∀ b, s.head? = some b → isWs b = false

theorem stops_cons {b : UInt8} (h : isWs b = false) (s : Bytes) : Stops (b :: s) := by
  intro b' hb'
  cases hb'
  exact h

/-- `skip_ws` consumes whitespace only. -/
theorem exists_skipWs (s : Bytes) : ∃ w, s = w ++ skipWs s ∧ Space w := by
  refine ⟨s.takeWhile isWs, (List.takeWhile_append_dropWhile).symm, ?_⟩
  intro b hb
  exact isWs_iff.mp (List.mem_takeWhile_imp hb)

/-- It consumes all of it. -/
theorem skipWs_append {w s : Bytes} (hw : Space w) (hs : Stops s) : skipWs (w ++ s) = s := by
  unfold skipWs
  rw [List.dropWhile_append_of_pos fun b hb => isWs_iff.mpr (hw b hb)]
  cases s with
  | nil => rfl
  | cons b s =>
      have hb := hs b rfl
      simp [List.dropWhile, hb]

theorem stops_skipWs (s : Bytes) : Stops (skipWs s) := by
  intro b hb
  have hnot := List.head?_dropWhile_not isWs s
  rw [show (s.dropWhile isWs).head? = some b from hb] at hnot
  exact hnot

theorem skipWs_skipWs (s : Bytes) : skipWs (skipWs s) = skipWs s :=
  skipWs_append space_nil (stops_skipWs s)

/-! ## Raw sequences -/

/-- The lead byte and the checks of the bytes after it admit exactly the
sequences of UTF-8. -/
theorem sequence_iff_lead {c : UInt8} {tail : Bytes} :
    Utf8.Sequence (c :: tail) ↔
      ∃ lo hi, utf8Lead c = some (tail.length + 1, lo, hi) ∧
        continuationBytes lo hi tail = true := by
  constructor
  · intro h
    cases h with
    | one ha => exact ⟨0x80, 0xBF, by simp [utf8Lead, ha], rfl⟩
    | @two _ b ha hb =>
        have h1 : ¬ c < 0x80 := by grind
        refine ⟨0x80, 0xBF, by simp [utf8Lead, h1, ha], ?_⟩
        simpa [continuationBytes, Utf8.Continuation] using hb
    | @three _ b d ha hb hlow hhigh hd =>
        have h1 : ¬ c < 0x80 := by grind
        have h2 : ¬ (0xC2 ≤ c ∧ c ≤ 0xDF) := by grind
        refine ⟨_, _, by simp only [utf8Lead, h1, h2, ha, and_self, if_true, if_false]; rfl, ?_⟩
        simp only [continuationBytes, Utf8.Continuation] at *
        grind
    | @four _ b d e ha hb hlow hhigh hd he =>
        have h1 : ¬ c < 0x80 := by grind
        have h2 : ¬ (0xC2 ≤ c ∧ c ≤ 0xDF) := by grind
        have h3 : ¬ (0xE0 ≤ c ∧ c ≤ 0xEF) := by grind
        refine ⟨_, _, by simp only [utf8Lead, h1, h2, h3, ha, and_self, if_true, if_false]; rfl, ?_⟩
        simp only [continuationBytes, Utf8.Continuation] at *
        grind
  · rintro ⟨lo, hi, hlead, htail⟩
    by_cases h1 : c < 0x80
    · simp only [utf8Lead, h1, if_true, Option.some.injEq, Prod.mk.injEq] at hlead
      obtain rfl := List.length_eq_zero_iff.mp (by omega : tail.length = 0)
      exact .one h1
    by_cases h2 : 0xC2 ≤ c ∧ c ≤ 0xDF
    · simp only [utf8Lead, h1, h2, and_self, if_true, if_false, Option.some.injEq,
        Prod.mk.injEq] at hlead
      obtain ⟨hlen, rfl, rfl⟩ := hlead
      obtain ⟨b, rfl⟩ := List.length_eq_one_iff.mp (by omega : tail.length = 1)
      exact .two h2 ⟨by grind [continuationBytes], by grind [continuationBytes]⟩
    by_cases h3 : 0xE0 ≤ c ∧ c ≤ 0xEF
    · simp only [utf8Lead, h1, h2, h3, and_self, if_true, if_false, Option.some.injEq,
        Prod.mk.injEq] at hlead
      obtain ⟨hlen, hlo, hhi⟩ := hlead
      obtain ⟨b, d, rfl⟩ := List.length_eq_two.mp (by omega : tail.length = 2)
      simp only [continuationBytes] at htail
      exact .three h3 ⟨by grind, by grind⟩ (by grind) (by grind) ⟨by grind, by grind⟩
    by_cases h4 : 0xF0 ≤ c ∧ c ≤ 0xF4
    · simp only [utf8Lead, h1, h2, h3, h4, and_self, if_true, if_false, Option.some.injEq,
        Prod.mk.injEq] at hlead
      obtain ⟨hlen, hlo, hhi⟩ := hlead
      obtain ⟨b, d, e, rfl⟩ := List.length_eq_three.mp (by omega : tail.length = 3)
      simp only [continuationBytes] at htail
      exact .four h4 ⟨by grind, by grind⟩ (by grind) (by grind) ⟨by grind, by grind⟩
        ⟨by grind, by grind⟩
    · simp [utf8Lead, h1, h2, h3, h4] at hlead

theorem consumeUtf8_sound {c : UInt8} {s bytes rest : Bytes}
    (h : consumeUtf8 (c :: s) = .ok (bytes, rest)) :
    c :: s = bytes ++ rest ∧ Utf8.Sequence bytes ∧ bytes.head? = some c := by
  simp only [consumeUtf8, List.headD_cons, setError] at h
  split at h
  · cases h
  · rename_i len lo hi hlead
    split_ifs at h with hlen htail
    cases h
    -- no lead byte announces an empty sequence
    obtain ⟨n, rfl⟩ : ∃ n, len = n + 1 := by
      unfold utf8Lead at hlead
      split_ifs at hlead <;> cases hlead <;> exact ⟨_, rfl⟩
    refine ⟨(List.take_append_drop _ _).symm, ?_, rfl⟩
    rw [List.take_succ_cons, sequence_iff_lead]
    refine ⟨lo, hi, ?_, by simpa using htail⟩
    rw [hlead, List.length_take_of_le (by simpa using hlen)]

theorem consumeUtf8_complete {q : Bytes} (h : Utf8.Sequence q) (rest : Bytes) :
    consumeUtf8 (q ++ rest) = .ok (q, rest) := by
  obtain ⟨c, tail, rfl, -, -⟩ := h.lead
  obtain ⟨lo, hi, hlead, htail⟩ := sequence_iff_lead.mp h
  simp [consumeUtf8, hlead, htail]

/-! ## Escapes -/

theorem hexValue_iff {c : UInt8} {d : Nat} : hexValue c = some d ↔ IsHexDigit c d := by
  constructor
  · intro h
    unfold hexValue at h
    split_ifs at h with h1 h2 h3 <;> cases h
    · have hc : 0x30 ≤ c.toNat ∧ c.toNat ≤ 0x39 := h1
      have hd := IsHexDigit.digit (n := c.toNat - 0x30) (by omega)
      rwa [Utf8.eq_ofNat (a := c) (by omega)] at hd
    · have hc : 0x61 ≤ c.toNat ∧ c.toNat ≤ 0x66 := h2
      have hd := IsHexDigit.lower (n := c.toNat - 0x61) (by omega)
      rwa [Utf8.eq_ofNat (a := c) (by omega), Nat.add_comm] at hd
    · have hc : 0x41 ≤ c.toNat ∧ c.toNat ≤ 0x46 := h3
      have hd := IsHexDigit.upper (n := c.toNat - 0x41) (by omega)
      rwa [Utf8.eq_ofNat (a := c) (by omega), Nat.add_comm] at hd
  · intro h
    cases h with
    | digit hn => interval_cases d <;> rfl
    | @lower n hn => interval_cases n <;> rfl
    | @upper n hn => interval_cases n <;> rfl

theorem IsHexDigit.lt {c : UInt8} {d : Nat} (h : IsHexDigit c d) : d < 16 := by
  cases h <;> omega

/-- One more digit: the shift and the disjunction are a multiplication and a sum. -/
theorem hexDigits_cons {v d : Nat} {c : UInt8} {cs : Bytes} (h : IsHexDigit c d) :
    hexDigits v (c :: cs) = hexDigits (v * 16 + d) cs := by
  have hor : (v <<< 4) ||| d = v * 16 + d := by
    rw [← Nat.shiftLeft_add_eq_or_of_lt (i := 4) (by simpa using h.lt), Nat.shiftLeft_eq]
  simp only [hexDigits, hexValue_iff.mpr h, hor]

theorem exists_hexDigit {v u : Nat} {c : UInt8} {cs : Bytes}
    (h : hexDigits v (c :: cs) = some u) :
    ∃ d, IsHexDigit c d ∧ hexDigits (v * 16 + d) cs = some u := by
  cases hd : hexValue c with
  | none => simp [hexDigits, hd] at h
  | some d =>
      have hc := hexValue_iff.mp hd
      rw [hexDigits_cons hc] at h
      exact ⟨d, hc, h⟩

theorem parseHex4_sound {s rest : Bytes} {u : Nat} (h : parseHex4 s = .ok (u, rest)) :
    ∃ hex, IsUnit hex u ∧ s = hex ++ rest := by
  simp only [parseHex4, setError] at h
  split_ifs at h with hlen
  split at h
  · rename_i v hv
    cases h
    refine ⟨s.take 4, ?_, (List.take_append_drop 4 s).symm⟩
    obtain ⟨a, b, c, d, hs⟩ : ∃ a b c d, s.take 4 = [a, b, c, d] := by
      match s, hlen with
      | a :: b :: c :: d :: s, _ => exact ⟨a, b, c, d, rfl⟩
      | [], h | [_], h | [_, _], h | [_, _, _], h => simp at h
    rw [hs] at hv ⊢
    obtain ⟨x, ha, hv⟩ := exists_hexDigit hv
    obtain ⟨y, hb, hv⟩ := exists_hexDigit hv
    obtain ⟨z, hc, hv⟩ := exists_hexDigit hv
    obtain ⟨w, hd, hv⟩ := exists_hexDigit hv
    have hu : u = (((x * 16 + y) * 16 + z) * 16 + w) := by
      simpa [hexDigits] using hv.symm
    subst hu
    exact .mk ha hb hc hd
  · cases h

theorem parseHex4_complete {hex : Bytes} {u : Nat} (h : IsUnit hex u) (rest : Bytes) :
    parseHex4 (hex ++ rest) = .ok (u, rest) := by
  cases h with
  | @mk a b c d x y z w ha hb hc hd =>
      have hdigits : hexDigits 0 [a, b, c, d] = some (((x * 16 + y) * 16 + z) * 16 + w) := by
        rw [hexDigits_cons ha, hexDigits_cons hb, hexDigits_cons hc, hexDigits_cons hd]
        simp [hexDigits]
      have hlen : ¬ ([a, b, c, d] ++ rest).length < 4 := by simp
      have htake : List.take 4 ([a, b, c, d] ++ rest) = [a, b, c, d] := rfl
      simp only [parseHex4, hlen, if_false, htake, hdigits]
      rfl

theorem IsUnit.lt {hex : Bytes} {u : Nat} (h : IsUnit hex u) : u < 0x10000 := by
  cases h with
  | mk ha hb hc hd =>
      have ha := ha.lt
      have hb := hb.lt
      have hc := hc.lt
      have hd := hd.lt
      omega

theorem or_0x80 : ∀ x < 64, 0x80 ||| x = x + 0x80 := by decide
theorem or_0xC0 : ∀ x < 32, 0xC0 ||| x = x + 0xC0 := by decide
theorem or_0xE0 : ∀ x < 16, 0xE0 ||| x = x + 0xE0 := by decide
theorem or_0xF0 : ∀ x < 8, 0xF0 ||| x = x + 0xF0 := by decide

/-- The bit operations of `append_utf8` are the divisions of the encoding. -/
theorem appendUtf8_eq {cp : Nat} (h : cp < 0x110000) : appendUtf8 cp = Utf8.encodeScalar cp := by
  have hlow : ∀ n, n &&& 0x3F = n % 0x40 := fun n => Nat.and_two_pow_sub_one_eq_mod n 6
  have hor : ∀ n, 0x80 ||| (n &&& 0x3F) = n % 0x40 + 0x80 := by
    intro n
    rw [hlow, or_0x80 _ (by omega)]
  unfold appendUtf8 Utf8.encodeScalar
  simp only [hor, Nat.shiftRight_eq_div_pow, Nat.reducePow]
  by_cases h1 : cp < 0x80
  · rw [if_pos h1, if_pos (by omega)]
  by_cases h2 : cp < 0x800
  · rw [if_neg h1, if_pos h2, if_neg (by omega), if_pos (by omega), or_0xC0 _ (by omega),
      Nat.mod_eq_of_lt (by omega : cp / 64 < 0x20)]
  by_cases h3 : cp < 0x10000
  · rw [if_neg h1, if_neg h2, if_pos h3, if_neg (by omega), if_neg (by omega),
      if_pos (by omega), or_0xE0 _ (by omega), Nat.mod_eq_of_lt (by omega : cp / 4096 < 0x10)]
  · rw [if_neg h1, if_neg h2, if_neg h3, if_neg (by omega), if_neg (by omega),
      if_neg (by omega), or_0xF0 _ (by omega), Nat.mod_eq_of_lt (by omega : cp / 262144 < 8)]

theorem appendUtf8_eq_encode {cp : Nat} (h : cp.isValidChar) :
    appendUtf8 cp = String.utf8EncodeChar (Char.ofNat cp) := by
  have hlt : cp < 0x110000 := by
    unfold Nat.isValidChar at h
    omega
  rw [appendUtf8_eq hlt, Utf8.utf8EncodeChar_ofNat h]

theorem surrogates_valid {u v : Nat} (high : 0xD800 ≤ u ∧ u ≤ 0xDBFF)
    (low : 0xDC00 ≤ v ∧ v ≤ 0xDFFF) :
    (0x10000 + (u - 0xD800) * 0x400 + (v - 0xDC00)).isValidChar := by
  unfold Nat.isValidChar
  omega

/-- The only scalar value whose encoding holds a NUL is zero. -/
theorem zero_notMem_encode {v : Nat} (h : v.isValidChar) (hv : v ≠ 0) :
    0 ∉ String.utf8EncodeChar (Char.ofNat v) := by
  intro hzero
  rw [Utf8.utf8EncodeChar_ofNat h] at hzero
  have heq := (Utf8.sequence_encodeScalar h).zero_mem hzero
  unfold Utf8.encodeScalar at heq
  split_ifs at heq with h1
  · have h0 : UInt8.ofNat v = 0 := by simpa using heq
    rw [Utf8.ofNat_eq (by omega)] at h0
    exact hv h0
  all_goals exact absurd (congrArg List.length heq) (by simp)

/-- An escape decodes to one whole sequence. -/
theorem IsItem.sequence {item bytes : Bytes} (h : IsItem (0x5C :: item) bytes) :
    Utf8.Sequence bytes := by
  generalize htext : 0x5C :: item = text at h
  cases h with
  | raw _ _ hbackslash =>
      cases htext
      exact absurd rfl hbackslash
  | short hmem =>
      refine .one ?_
      simp only [shortEscapes, List.mem_cons, Prod.mk.injEq, List.not_mem_nil, or_false] at hmem
      grind
  | unit => exact Utf8.sequence_iff.mpr ⟨_, rfl⟩
  | pair => exact Utf8.sequence_iff.mpr ⟨_, rfl⟩

theorem shortEscape_iff {e b : UInt8} : shortEscape e = some b ↔ (e, b) ∈ shortEscapes := by
  simp only [shortEscapes, List.mem_cons, Prod.mk.injEq, List.not_mem_nil, or_false]
  unfold shortEscape
  grind

theorem unicodeEscape_sound {s bytes rest : Bytes} (h : unicodeEscape s = .ok (bytes, rest)) :
    ∃ item, IsItem (0x5C :: 0x75 :: item) bytes ∧ s = item ++ rest ∧ 0 ∉ bytes := by
  simp only [unicodeEscape, setError] at h
  split at h
  · cases h
  rename_i u s' hu
  obtain ⟨hex, hunit, rfl⟩ := parseHex4_sound hu
  have hlt := hunit.lt
  split_ifs at h with hzero hhigh hpair hlow
  · -- a pair of surrogates
    split at h
    · cases h
    rename_i v s'' hv
    obtain ⟨hex', hunit', hs⟩ := parseHex4_sound hv
    split_ifs at h with hrange
    simp only [Except.ok.injEq, Prod.mk.injEq] at h
    obtain ⟨rfl, rfl⟩ := h
    have hlow : 0xDC00 ≤ v ∧ v ≤ 0xDFFF := by omega
    have hvalid := surrogates_valid hhigh hlow
    have hs' : s' = 0x5C :: 0x75 :: hex' ++ s'' := by
      rw [← List.take_append_drop 2 s', hs, not_not.mp hpair]
      rfl
    subst hs'
    refine ⟨hex ++ 0x5C :: 0x75 :: hex', ?_, by simp, ?_⟩
    · rw [Nat.shiftLeft_eq, appendUtf8_eq_encode hvalid]
      exact .pair hunit hunit' hhigh hlow
    · rw [Nat.shiftLeft_eq, appendUtf8_eq_encode hvalid]
      exact zero_notMem_encode hvalid (by omega)
  · cases h
    have hscalar : u < 0xD800 ∨ 0xDFFF < u := by omega
    have hvalid : u.isValidChar := by
      unfold Nat.isValidChar
      omega
    refine ⟨hex, ?_, rfl, ?_⟩
    · rw [appendUtf8_eq_encode hvalid]
      exact .unit hunit hscalar
    · rw [appendUtf8_eq_encode hvalid]
      exact zero_notMem_encode hvalid hzero

theorem parseEscape_sound {s bytes rest : Bytes} (h : parseEscape s = .ok (bytes, rest)) :
    ∃ item, IsItem (0x5C :: item) bytes ∧ s = item ++ rest ∧ 0 ∉ bytes := by
  cases s with
  | nil => cases h
  | cons e s =>
      simp only [parseEscape, setError] at h
      split at h
      · rename_i b hb
        cases h
        have hmem := shortEscape_iff.mp hb
        refine ⟨[e], .short hmem, rfl, ?_⟩
        simp only [shortEscapes, List.mem_cons, Prod.mk.injEq, List.not_mem_nil, or_false] at hmem
        grind
      · split_ifs at h with hu
        obtain ⟨item, hitem, rfl, hzero⟩ := unicodeEscape_sound h
        subst hu
        exact ⟨0x75 :: item, hitem, rfl, hzero⟩

theorem parseEscape_complete {item bytes : Bytes} (h : IsItem (0x5C :: item) bytes)
    (hzero : 0 ∉ bytes) (rest : Bytes) :
    parseEscape (item ++ rest) = .ok (bytes, rest) := by
  have hu : shortEscape 0x75 = none := by decide
  generalize htext : 0x5C :: item = text at h
  cases h with
  | raw _ _ hbackslash =>
      cases htext
      exact absurd rfl hbackslash
  | short hmem =>
      cases htext
      simp [parseEscape, shortEscape_iff.mpr hmem]
  | @unit hex u hunit hscalar =>
      cases htext
      have hlt := hunit.lt
      have hvalid : u.isValidChar := by
        unfold Nat.isValidChar
        omega
      have hne : u ≠ 0 := by
        rintro rfl
        exact hzero (by decide)
      have h1 : ¬ (0xD800 ≤ u ∧ u ≤ 0xDBFF) := by omega
      have h2 : ¬ (0xDC00 ≤ u ∧ u ≤ 0xDFFF) := by omega
      simp [parseEscape, hu, unicodeEscape, parseHex4_complete hunit, hne, h1, h2,
        appendUtf8_eq_encode hvalid]
  | @pair hex hex' u v hunit hunit' hhigh hlow =>
      cases htext
      have hne : u ≠ 0 := by omega
      have h1 : ¬ (v < 0xDC00 ∨ v > 0xDFFF) := by omega
      have hvalid := surrogates_valid hhigh hlow
      have hread := parseHex4_complete hunit (0x5C :: 0x75 :: (hex' ++ rest))
      have hread' := parseHex4_complete hunit' rest
      simp [parseEscape, hu, unicodeEscape, hread, hread', hne, hhigh, h1, Nat.shiftLeft_eq,
        appendUtf8_eq_encode hvalid]

/-! ## The loop over a string -/

/-- The bytes of a raw sequence are items of their own. -/
theorem IsBody.raw_append {q body decoded : Bytes} (h : IsBody body decoded)
    (hq : ∀ b ∈ q, 0x20 ≤ b ∧ b ≠ 0x22 ∧ b ≠ 0x5C) : IsBody (q ++ body) (q ++ decoded) := by
  induction q with
  | nil => exact h
  | cons b q ih =>
      obtain ⟨hprint, hquote, hback⟩ := hq b (by simp)
      have htail : IsBody (q ++ body) (q ++ decoded) := ih fun b' hb' => hq b' (by simp [hb'])
      show IsBody ([b] ++ (q ++ body)) ([b] ++ (q ++ decoded))
      exact .cons (.raw hprint hquote hback) htail

/-- A sequence whose lead byte is neither a control byte nor a delimiter holds no
such byte at all. -/
theorem sequence_printable {c : UInt8} {q : Bytes} (h : Utf8.Sequence q)
    (hhead : q.head? = some c) (hprint : 0x20 ≤ c) (hquote : c ≠ 0x22) (hback : c ≠ 0x5C) :
    ∀ b ∈ q, 0x20 ≤ b ∧ b ≠ 0x22 ∧ b ≠ 0x5C := by
  obtain ⟨a, t, rfl, -, ht⟩ := h.lead
  obtain rfl : a = c := by simpa using hhead
  intro b hb
  cases hb with
  | head => exact ⟨hprint, hquote, hback⟩
  | tail _ hmem =>
      obtain ⟨hlow, -⟩ := ht b hmem
      grind

/-- Continuation bytes can only be spelled raw. -/
theorem IsBody.of_continuation {q body decoded : Bytes} (h : IsBody body (q ++ decoded))
    (hq : ∀ b ∈ q, Utf8.Continuation b) :
    ∃ body', body = q ++ body' ∧ IsBody body' decoded := by
  induction q generalizing body with
  | nil => exact ⟨body, rfl, h⟩
  | cons b q ih =>
      have hb := hq b (by simp)
      -- an escape starts a sequence of its own, and `b` cannot lead one
      have hescape : ∀ {item bytes decoded' : Bytes}, IsItem (0x5C :: item) bytes →
          bytes ++ decoded' ≠ b :: (q ++ decoded) := by
        intro item bytes decoded' hitem heq
        obtain ⟨a, t, rfl, ha, -⟩ := hitem.sequence.lead
        obtain rfl : a = b := (List.cons.inj heq).1
        exact ha hb
      generalize hall : b :: q ++ decoded = all at h
      cases h with
      | nil => cases hall
      | @cons item body₁ bytes decoded₁ hitem hbody =>
          cases hitem with
          | raw hprint hquote hback =>
              cases hall
              obtain ⟨body', rfl, hbody'⟩ := ih hbody fun b' hb' => hq b' (by simp [hb'])
              exact ⟨body', rfl, hbody'⟩
          | short hmem => exact absurd hall.symm (hescape (.short hmem))
          | unit hunit hscalar => exact absurd hall.symm (hescape (.unit hunit hscalar))
          | pair h₁ h₂ hhigh hlow => exact absurd hall.symm (hescape (.pair h₁ h₂ hhigh hlow))

theorem stringLoop_sound {limits : Limits} {rounds : Nat} {out s decoded rest : Bytes}
    (h : stringLoop limits rounds out s = .ok (decoded, rest)) :
    ∃ body tail, s = body ++ 0x22 :: rest ∧ decoded = out ++ tail ∧ IsBody body tail ∧
      Utf8.WellFormed tail ∧ 0 ∉ tail ∧ decoded.length ≤ limits.maxStringBytes := by
  induction rounds generalizing out s with
  | zero => cases h
  | succ rounds ih =>
      cases s with
      | nil => cases h
      | cons c s =>
          simp only [stringLoop, setError] at h
          split_ifs at h with hlong hquote hctl hback
          · cases h
            subst hquote
            exact ⟨[], [], rfl, by simp, .nil, Utf8.wellFormed_nil, by simp, by omega⟩
          · -- an escape
            subst hback
            split at h
            · cases h
            rename_i bytes s' hread
            obtain ⟨body, tail, rfl, rfl, hbody, hutf8, hzero, hlen⟩ := ih h
            obtain ⟨item, hitem, rfl, hzero'⟩ := parseEscape_sound hread
            refine ⟨0x5C :: item ++ body, bytes ++ tail, by simp, by simp, .cons hitem hbody,
              hitem.sequence.append hutf8, ?_, hlen⟩
            simp only [List.mem_append, not_or]
            exact ⟨hzero', hzero⟩
          · -- a raw sequence
            split at h
            · cases h
            rename_i bytes s' hread
            obtain ⟨body, tail, rfl, rfl, hbody, hutf8, hzero, hlen⟩ := ih h
            obtain ⟨heq, hseq, hhead⟩ := consumeUtf8_sound hread
            have hprint := sequence_printable hseq hhead (by grind) hquote hback
            refine ⟨bytes ++ body, bytes ++ tail, by simp [heq], by simp,
              hbody.raw_append hprint, hseq.append hutf8, ?_, hlen⟩
            simp only [List.mem_append, not_or]
            refine ⟨fun hmem => ?_, hzero⟩
            exact absurd (hprint 0 hmem).1 (by decide)

theorem stringLoop_complete {limits : Limits} {rounds : Nat} {out body tail rest : Bytes}
    (h : IsBody body tail) (hutf8 : Utf8.WellFormed tail) (hzero : 0 ∉ tail)
    (hlen : out.length + tail.length ≤ limits.maxStringBytes) (hrounds : body.length < rounds) :
    stringLoop limits rounds out (body ++ 0x22 :: rest) = .ok (out ++ tail, rest) := by
  induction rounds generalizing out body tail with
  | zero => omega
  | succ rounds ih =>
      have hlong : ¬ out.length > limits.maxStringBytes := by omega
      -- what one round with an escape does
      have hescape : ∀ {item body' bytes tail' : Bytes}, IsItem (0x5C :: item) bytes →
          IsBody body' tail' → body = 0x5C :: item ++ body' → tail = bytes ++ tail' →
          stringLoop limits (rounds + 1) out (body ++ 0x22 :: rest) = .ok (out ++ tail, rest) := by
        rintro item body' bytes tail' hitem hbody rfl rfl
        simp only [List.mem_append, not_or] at hzero
        have hread := parseEscape_complete hitem hzero.1 (body' ++ 0x22 :: rest)
        have hrest : stringLoop limits rounds (out ++ bytes) (body' ++ 0x22 :: rest) =
            .ok (out ++ bytes ++ tail', rest) :=
          ih hbody (hutf8.of_append hitem.sequence) hzero.2 (by simp at hlen ⊢; omega)
            (by simp at hrounds; omega)
        simp [stringLoop, hlong, hread, hrest]
      cases h with
      | nil => simp [stringLoop, hlong]
      | @cons item body bytes tail hitem hbody =>
          cases hitem with
          | @raw b hprint hquote hback =>
              obtain ⟨q, tail', htail, hq, hutf8'⟩ := hutf8.split (by simp)
              obtain ⟨a, q', rfl, -, hcont⟩ := hq.lead
              obtain ⟨rfl, rfl⟩ : b = a ∧ tail = q' ++ tail' := by simpa using htail
              obtain ⟨body', rfl, hbody'⟩ := hbody.of_continuation hcont
              have hread := consumeUtf8_complete hq (body' ++ 0x22 :: rest)
              simp only [List.mem_append, List.mem_cons, not_or] at hzero
              have hrest : stringLoop limits rounds (out ++ b :: q') (body' ++ 0x22 :: rest) =
                  .ok (out ++ b :: q' ++ tail', rest) :=
                ih hbody' hutf8' (by grind) (by simp at hlen ⊢; omega)
                  (by simp at hrounds; omega)
              have hctl : ¬ b < 0x20 := by grind
              rw [List.cons_append] at hread
              simp [stringLoop, hlong, hquote, hctl, hback, hread, hrest]
          | short hmem => exact hescape (.short hmem) hbody rfl rfl
          | unit hunit hscalar => exact hescape (.unit hunit hscalar) hbody rfl rfl
          | pair h₁ h₂ hhigh hlow => exact hescape (.pair h₁ h₂ hhigh hlow) hbody rfl rfl

theorem parseString_sound {limits : Limits} {s decoded rest : Bytes} (hs : s.head? = some 0x22)
    (h : parseString limits s = .ok (decoded, rest)) :
    ∃ text, s = text ++ rest ∧ IsString limits text decoded := by
  cases s with
  | nil => cases hs
  | cons c s =>
      cases hs
      obtain ⟨body, tail, heq, rfl, hbody, hutf8, hzero, hlen⟩ := stringLoop_sound h
      have hs : s = body ++ 0x22 :: rest := heq
      refine ⟨0x22 :: body ++ [0x22], by simp [hs], ?_⟩
      exact .mk hbody hutf8 hzero hlen

theorem parseString_complete {limits : Limits} {text decoded : Bytes}
    (h : IsString limits text decoded) (rest : Bytes) :
    parseString limits (text ++ rest) = .ok (decoded, rest) := by
  cases h with
  | @mk body _ hbody hutf8 hzero hlen =>
      have hloop : stringLoop limits (body ++ 0x22 :: rest).length [] (body ++ 0x22 :: rest) =
          .ok ([] ++ decoded, rest) :=
        stringLoop_complete hbody hutf8 hzero (by simpa using hlen) (by simp)
      simpa [parseString] using hloop

theorem IsString.head {limits : Limits} {text decoded : Bytes} (h : IsString limits text decoded) :
    ∃ tail, text = 0x22 :: tail := by
  cases h with
  | mk => exact ⟨_, rfl⟩

end FileMover.Json
