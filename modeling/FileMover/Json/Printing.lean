import FileMover.Json.Language

/-!
# Printing values

A compact printer for every value, and what it takes for the parser to read its
output back: the strings are NUL-free UTF-8, the integers fit, no name repeats,
and the limits leave room for the value. The documents of the codec are printed
values, so this one round trip covers all of them.
-/

namespace FileMover.Json

/-- A string between quotes, escaped. -/
def quoted (s : Bytes) : Bytes := 0x22 :: escape s ++ [0x22]

mutual

def render : Value → Bytes
  | .bool true => lit "true"
  | .bool false => lit "false"
  | .int n => signedDecimal n
  | .string s => quoted s
  | .array elems => 0x5B :: renderElements elems ++ [0x5D]
  | .object members => 0x7B :: renderMembers members ++ [0x7D]

def renderElements : List Value → Bytes
  | [] => []
  | [value] => render value
  | value :: elems => render value ++ 0x2C :: renderElements elems

def renderMember : Bytes × Value → Bytes
  | (key, value) => quoted key ++ 0x3A :: render value

def renderMembers : List (Bytes × Value) → Bytes
  | [] => []
  | [member] => renderMember member
  | member :: members => renderMember member ++ 0x2C :: renderMembers members

end

/-! ## Numerals -/

theorem numeral_decimal (n : Nat) : numeral (decimal n) = n := by
  induction n using Nat.strong_induction_on with
  | _ n ih =>
      rw [decimal_eq]
      split_ifs with hn
      · simp only [numeral, List.foldl_cons, List.foldl_nil, toNat_digit hn]
        omega
      · have hlast := toNat_digit (Nat.mod_lt n (by omega : 0 < 10))
        have hrest := ih (n / 10) (by omega)
        simp only [numeral, List.foldl_append, List.foldl_cons, List.foldl_nil] at hrest ⊢
        rw [hrest, hlast]
        omega

theorem isNatural_decimal (n : Nat) : IsNatural (decimal n) := by
  induction n using Nat.strong_induction_on with
  | _ n ih =>
      rw [decimal_eq]
      split_ifs with hn
      · by_cases hzero : n = 0
        · subst hzero
          exact .inl rfl
        · refine .inr ⟨_, [], rfl, ?_, ?_, by simp⟩
          · rw [UInt8.le_iff_toNat_le, toNat_digit hn]
            simp
            omega
          · rw [UInt8.le_iff_toNat_le, toNat_digit hn]
            simp
            omega
      · have hlast := toNat_digit (Nat.mod_lt n (by omega : 0 < 10))
        rcases ih (n / 10) (by omega) with hzero | ⟨d, ds, heq, hlow, hhigh, hds⟩
        · -- a leading zero would make the rest of the numeral zero
          have h0 : numeral (decimal (n / 10)) = 0 := by
            rw [hzero]
            rfl
          rw [numeral_decimal] at h0
          omega
        · refine .inr ⟨d, ds ++ [UInt8.ofNat (0x30 + n % 10)], by rw [heq]; rfl, hlow, hhigh, ?_⟩
          intro b hb
          rcases List.mem_append.mp hb with hb | hb
          · exact hds b hb
          · obtain rfl := List.mem_singleton.mp hb
            rw [UInt8.le_iff_toNat_le, UInt8.le_iff_toNat_le, hlast]
            simp
            omega

theorem isInteger_signedDecimal {n : Int} (hlow : -2 ^ 63 ≤ n) (hhigh : n < 2 ^ 63) :
    IsInteger (signedDecimal n) n := by
  have hnat := isNatural_decimal n.natAbs
  have hnum := numeral_decimal n.natAbs
  unfold signedDecimal
  split_ifs with hneg
  · have hn : n = -(numeral (decimal n.natAbs) : Int) := by
      rw [hnum]
      omega
    have hint := IsInteger.minus hnat (by omega)
    rw [← hn] at hint
    exact hint
  · have hn : n = (numeral (decimal n.natAbs) : Int) := by
      rw [hnum]
      omega
    have hint := IsInteger.plain hnat (by omega)
    rw [← hn] at hint
    exact hint

/-! ## Strings -/

theorem isHexDigit_hexDigit {n : Nat} (h : n < 16) : IsHexDigit (hexDigit n) n := by
  unfold hexDigit
  split_ifs with hn
  · exact .digit hn
  · obtain ⟨m, rfl⟩ : ∃ m, n = 10 + m := ⟨n - 10, by omega⟩
    have heq : 0x61 + (10 + m) - 10 = 0x61 + m := by omega
    rw [heq]
    exact .lower (by omega)

/-- `escape` writes every byte as an item that decodes to it. -/
theorem isItem_escapeByte (c : UInt8) : IsItem (escapeByte c) [c] := by
  unfold escapeByte
  split_ifs with h1 h2 h3 h4 h5 h6 h7 h8
  · exact .short (by rw [h1]; decide)
  · exact .short (by rw [h2]; decide)
  · exact .short (by rw [h3]; decide)
  · exact .short (by rw [h4]; decide)
  · exact .short (by rw [h5]; decide)
  · exact .short (by rw [h6]; decide)
  · exact .short (by rw [h7]; decide)
  · have hc : c.toNat < 0x20 := UInt8.lt_iff_toNat_lt.mp h8
    have hunit : IsUnit [0x30, 0x30, hexDigit (c.toNat / 16), hexDigit (c.toNat % 16)]
        c.toNat := by
      have hmk := IsUnit.mk (.digit (by omega : 0 < 10)) (.digit (by omega : 0 < 10))
        (isHexDigit_hexDigit (by omega : c.toNat / 16 < 16))
        (isHexDigit_hexDigit (by omega : c.toNat % 16 < 16))
      have heq : ((0 * 16 + 0) * 16 + c.toNat / 16) * 16 + c.toNat % 16 = c.toNat := by omega
      rw [heq] at hmk
      exact hmk
    have hitem := IsItem.unit hunit (.inl (by omega))
    have hvalid : c.toNat.isValidChar := .inl (by omega)
    have hbytes : String.utf8EncodeChar (Char.ofNat c.toNat) = [c] := by
      rw [Utf8.utf8EncodeChar_ofNat hvalid, Utf8.encodeScalar, if_pos (by omega),
        UInt8.ofNat_toNat]
    rw [hbytes] at hitem
    exact hitem
  · exact .raw (by grind) h1 h2

theorem isBody_escape (s : Bytes) : IsBody (escape s) s := by
  induction s with
  | nil => exact .nil
  | cons c s ih => exact .cons (isItem_escapeByte c) ih

theorem wellFormed_escape_iff {s : Bytes} : Utf8.WellFormed (escape s) ↔ Utf8.WellFormed s :=
  (isBody_escape s).wellFormed_iff

/-- What the parser asks of the content of a string, apart from its length. -/
structure CleanText (s : Bytes) : Prop where
  utf8 : Utf8.WellFormed s
  nul : 0 ∉ s

theorem CleanText.isString {limits : Limits} {s : Bytes} (h : CleanText s)
    (hlen : s.length ≤ limits.maxStringBytes) : IsString limits (quoted s) s :=
  .mk (isBody_escape s) h.utf8 h.nul hlen

/-- Text without a byte above the ASCII range. -/
theorem cleanText_of_ascii {s : Bytes} (h : ∀ b ∈ s, b ≠ 0 ∧ b < 0x80) : CleanText s :=
  ⟨Utf8.wellFormed_of_ascii fun b hb => (h b hb).2, fun hzero => (h 0 hzero).1 rfl⟩

/-! ## Values -/

/-- The values that have a text at all. -/
inductive Clean : Value → Prop
  | bool {b : Bool} : Clean (.bool b)
  | int {n : Int} (low : -2 ^ 63 ≤ n) (high : n < 2 ^ 63) : Clean (.int n)
  | string {s : Bytes} (h : CleanText s) : Clean (.string s)
  | array {elems : List Value} (h : ∀ value ∈ elems, Clean value) : Clean (.array elems)
  | object {members : List (Bytes × Value)} (distinct : (members.map Prod.fst).Nodup)
      (keys : ∀ member ∈ members, CleanText member.1)
      (h : ∀ member ∈ members, Clean member.2) : Clean (.object members)

/-- The limits leave room for the value at this nesting level. -/
inductive Fits (limits : Limits) : Nat → Value → Prop
  | bool {level : Nat} {b : Bool} (deep : level ≤ limits.maxDepth) :
      Fits limits level (.bool b)
  | int {level : Nat} {n : Int} (deep : level ≤ limits.maxDepth) : Fits limits level (.int n)
  | string {level : Nat} {s : Bytes} (deep : level ≤ limits.maxDepth)
      (short : s.length ≤ limits.maxStringBytes) : Fits limits level (.string s)
  | array {level : Nat} {elems : List Value} (deep : level ≤ limits.maxDepth)
      (few : elems.length ≤ limits.maxElements)
      (h : ∀ value ∈ elems, Fits limits (level + 1) value) : Fits limits level (.array elems)
  | object {level : Nat} {members : List (Bytes × Value)} (deep : level ≤ limits.maxDepth)
      (few : members.length ≤ limits.maxMembers)
      (keys : ∀ member ∈ members, member.1.length ≤ limits.maxStringBytes)
      (h : ∀ member ∈ members, Fits limits (level + 1) member.2) :
      Fits limits level (.object members)

variable {limits : Limits} {level : Nat}

theorem isElements_render {elems : List Value} (hne : elems ≠ [])
    (h : ∀ value ∈ elems, IsValue limits level (render value) value) :
    IsElements limits level (renderElements elems) elems := by
  induction elems with
  | nil => exact absurd rfl hne
  | cons value elems ih =>
      have hvalue := h value (by simp)
      cases elems with
      | nil => simpa [renderElements] using IsElements.one space_nil hvalue space_nil
      | cons value' elems =>
          have hrest := ih (by simp) fun v hv => h v (by simp [hv])
          simpa [renderElements] using IsElements.more space_nil hvalue space_nil hrest

theorem isMember_render {member : Bytes × Value} (hkey : IsString limits (quoted member.1) member.1)
    (h : IsValue limits level (render member.2) member.2) :
    IsMember limits level (renderMember member) member := by
  obtain ⟨key, value⟩ := member
  simpa [renderMember] using IsMember.mk space_nil hkey space_nil space_nil h space_nil

theorem isMembers_render {members : List (Bytes × Value)} (hne : members ≠ [])
    (h : ∀ member ∈ members, IsMember limits level (renderMember member) member) :
    IsMembers limits level (renderMembers members) members := by
  induction members with
  | nil => exact absurd rfl hne
  | cons member members ih =>
      have hmember := h member (by simp)
      cases members with
      | nil => exact .one hmember
      | cons member' members =>
          exact .more hmember (ih (by simp) fun m hm => h m (by simp [hm]))

theorem isValue_render {value : Value} (hfits : Fits limits level value) (hclean : Clean value) :
    IsValue limits level (render value) value := by
  induction hfits with
  | @bool _ b deep =>
      cases b with
      | true => exact .litTrue deep
      | false => exact .litFalse deep
  | int deep =>
      cases hclean with
      | int hlow hhigh => exact .int deep (isInteger_signedDecimal hlow hhigh)
  | string deep short =>
      cases hclean with
      | string htext => exact .string deep (htext.isString short)
  | @array _ elems deep few _ ih =>
      cases hclean with
      | array helems =>
          by_cases hne : elems = []
          · subst hne
            exact .emptyArray deep space_nil
          · exact .array deep (isElements_render hne fun v hv => ih v hv (helems v hv)) few
  | @object _ members deep few hroom _ ih =>
      cases hclean with
      | object hdistinct hkeys hmembers =>
          by_cases hne : members = []
          · subst hne
            exact .emptyObject deep space_nil
          · refine .object deep (isMembers_render hne fun m hm => ?_) few hdistinct
            exact isMember_render ((hkeys m hm).isString (hroom m hm)) (ih m hm (hmembers m hm))

/-- Limits under which a document is not refused for its measures. -/
structure Roomy (limits : Limits) (text : Bytes) (value : Value) : Prop where
  size : text.length ≤ limits.maxInputBytes
  fits : Fits limits 1 value

/-- Reading back a printed object. -/
theorem parse_render {members : List (Bytes × Value)}
    (hroom : Roomy limits (render (.object members)) (.object members))
    (hclean : Clean (.object members)) :
    parse limits (render (.object members)) = .ok (.object members) := by
  refine parse_ok_iff.mpr ⟨hroom.size, ?_, [], _, [], by simp, space_nil, space_nil,
    isValue_render hroom.fits hclean, members, rfl⟩
  intro hmark
  obtain ⟨tail, htail⟩ := hmark
  simp [render] at htail

end FileMover.Json
