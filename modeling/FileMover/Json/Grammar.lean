import FileMover.Framework.Utf8
import FileMover.Model.Json

/-!
# The accepted JSON language

ADR-0009 as a grammar. Each production relates a text to what it denotes; the
productions know nothing of a position, of an order of checks or of a failure.
A value stands at a nesting level: the top-level object at level `1`, every
member and every element one level deeper than what holds it, scalars included.
-/

namespace FileMover.Json

/-- JSON whitespace: space, tab, line feed and carriage return. -/
def Space (w : Bytes) : Prop := ∀ b ∈ w, b ∈ [0x20, 0x09, 0x0A, 0x0D]

/-! ## Integers -/

/-- The number a decimal numeral denotes. -/
def numeral (digits : Bytes) : Nat :=
  digits.foldl (fun n d => n * 10 + (d.toNat - 0x30)) 0

/-- `0|[1-9][0-9]*` -/
def IsNatural (digits : Bytes) : Prop :=
  digits = [0x30] ∨
    ∃ d ds, digits = d :: ds ∧ 0x31 ≤ d ∧ d ≤ 0x39 ∧ ∀ b ∈ ds, 0x30 ≤ b ∧ b ≤ 0x39

/-- `-?(0|[1-9][0-9]*)` in the int64 range. -/
inductive IsInteger : Bytes → Int → Prop
  | plain {digits : Bytes} (h : IsNatural digits) (fits : (numeral digits : Int) < 2 ^ 63) :
      IsInteger digits (numeral digits)
  | minus {digits : Bytes} (h : IsNatural digits) (fits : -2 ^ 63 ≤ -(numeral digits : Int)) :
      IsInteger (0x2D :: digits) (-(numeral digits : Int))

/-! ## Strings -/

/-- The value of a hexadecimal digit of either case. -/
inductive IsHexDigit : UInt8 → Nat → Prop
  | digit {n : Nat} (h : n < 10) : IsHexDigit (UInt8.ofNat (0x30 + n)) n
  | lower {n : Nat} (h : n < 6) : IsHexDigit (UInt8.ofNat (0x61 + n)) (10 + n)
  | upper {n : Nat} (h : n < 6) : IsHexDigit (UInt8.ofNat (0x41 + n)) (10 + n)

/-- Four hexadecimal digits and the code unit they spell. -/
inductive IsUnit : Bytes → Nat → Prop
  | mk {a b c d : UInt8} {x y z w : Nat} (ha : IsHexDigit a x) (hb : IsHexDigit b y)
      (hc : IsHexDigit c z) (hd : IsHexDigit d w) :
      IsUnit [a, b, c, d] (((x * 16 + y) * 16 + z) * 16 + w)

/-- The eight short escapes: the character after the backslash and the byte it
stands for. -/
def shortEscapes : List (UInt8 × UInt8) :=
  [(0x22, 0x22), (0x5C, 0x5C), (0x2F, 0x2F), (0x62, 0x08), (0x66, 0x0C), (0x6E, 0x0A),
    (0x72, 0x0D), (0x74, 0x09)]

/-- One item between the quotes of a string and the bytes it decodes to. -/
inductive IsItem : Bytes → Bytes → Prop
  | raw {b : UInt8} (printable : 0x20 ≤ b) (quote : b ≠ 0x22) (backslash : b ≠ 0x5C) :
      IsItem [b] [b]
  | short {e b : UInt8} (h : (e, b) ∈ shortEscapes) : IsItem [0x5C, e] [b]
  /-- A `\uXXXX` that is not a surrogate. -/
  | unit {hex : Bytes} {u : Nat} (h : IsUnit hex u) (scalar : u < 0xD800 ∨ 0xDFFF < u) :
      IsItem (0x5C :: 0x75 :: hex) (String.utf8EncodeChar (Char.ofNat u))
  /-- A high surrogate followed by a low one. -/
  | pair {hex hex' : Bytes} {u v : Nat} (h : IsUnit hex u) (h' : IsUnit hex' v)
      (high : 0xD800 ≤ u ∧ u ≤ 0xDBFF) (low : 0xDC00 ≤ v ∧ v ≤ 0xDFFF) :
      IsItem (0x5C :: 0x75 :: hex ++ 0x5C :: 0x75 :: hex')
        (String.utf8EncodeChar (Char.ofNat (0x10000 + (u - 0xD800) * 0x400 + (v - 0xDC00))))

/-- The text between the quotes. -/
inductive IsBody : Bytes → Bytes → Prop
  | nil : IsBody [] []
  | cons {item body bytes decoded : Bytes} (h : IsItem item bytes) (hs : IsBody body decoded) :
      IsBody (item ++ body) (bytes ++ decoded)

/-- A string, names of members included. -/
inductive IsString (limits : Limits) : Bytes → Bytes → Prop
  | mk {body decoded : Bytes} (h : IsBody body decoded) (utf8 : Utf8.WellFormed decoded)
      (nul : 0 ∉ decoded) (short : decoded.length ≤ limits.maxStringBytes) :
      IsString limits (0x22 :: body ++ [0x22]) decoded

/-! ## Values -/

mutual

/-- The text of a value at a nesting level. -/
inductive IsValue (limits : Limits) : Nat → Bytes → Value → Prop
  | litTrue {level : Nat} (deep : level ≤ limits.maxDepth) :
      IsValue limits level (lit "true") (.bool true)
  | litFalse {level : Nat} (deep : level ≤ limits.maxDepth) :
      IsValue limits level (lit "false") (.bool false)
  | int {level : Nat} {text : Bytes} {n : Int} (deep : level ≤ limits.maxDepth)
      (h : IsInteger text n) : IsValue limits level text (.int n)
  | string {level : Nat} {text decoded : Bytes} (deep : level ≤ limits.maxDepth)
      (h : IsString limits text decoded) : IsValue limits level text (.string decoded)
  | emptyArray {level : Nat} {w : Bytes} (deep : level ≤ limits.maxDepth) (space : Space w) :
      IsValue limits level (0x5B :: w ++ [0x5D]) (.array [])
  | array {level : Nat} {text : Bytes} {elems : List Value} (deep : level ≤ limits.maxDepth)
      (h : IsElements limits (level + 1) text elems)
      (few : elems.length ≤ limits.maxElements) :
      IsValue limits level (0x5B :: text ++ [0x5D]) (.array elems)
  | emptyObject {level : Nat} {w : Bytes} (deep : level ≤ limits.maxDepth) (space : Space w) :
      IsValue limits level (0x7B :: w ++ [0x7D]) (.object [])
  | object {level : Nat} {text : Bytes} {members : List (Bytes × Value)}
      (deep : level ≤ limits.maxDepth) (h : IsMembers limits (level + 1) text members)
      (few : members.length ≤ limits.maxMembers)
      (distinct : (members.map Prod.fst).Nodup) :
      IsValue limits level (0x7B :: text ++ [0x7D]) (.object members)

/-- Elements separated by commas. -/
inductive IsElements (limits : Limits) : Nat → Bytes → List Value → Prop
  | one {level : Nat} {w text w' : Bytes} {value : Value} (before : Space w)
      (h : IsValue limits level text value) (after : Space w') :
      IsElements limits level (w ++ text ++ w') [value]
  | more {level : Nat} {w text w' texts : Bytes} {value : Value} {elems : List Value}
      (before : Space w) (h : IsValue limits level text value) (after : Space w')
      (hs : IsElements limits level texts elems) :
      IsElements limits level (w ++ text ++ w' ++ 0x2C :: texts) (value :: elems)

/-- One member: a name, a colon and a value. -/
inductive IsMember (limits : Limits) : Nat → Bytes → Bytes × Value → Prop
  | mk {level : Nat} {w name w' w'' text w''' key : Bytes} {value : Value}
      (before : Space w) (hkey : IsString limits name key) (colon : Space w')
      (colon' : Space w'') (h : IsValue limits level text value) (after : Space w''') :
      IsMember limits level (w ++ name ++ w' ++ 0x3A :: w'' ++ text ++ w''') (key, value)

/-- Members separated by commas. -/
inductive IsMembers (limits : Limits) : Nat → Bytes → List (Bytes × Value) → Prop
  | one {level : Nat} {text : Bytes} {member : Bytes × Value}
      (h : IsMember limits level text member) : IsMembers limits level text [member]
  | more {level : Nat} {text texts : Bytes} {member : Bytes × Value}
      {members : List (Bytes × Value)} (h : IsMember limits level text member)
      (hs : IsMembers limits level texts members) :
      IsMembers limits level (text ++ 0x2C :: texts) (member :: members)

end

/-- A document: whitespace, one object and whitespace, of a bounded size and
without a byte-order mark. -/
structure IsDocument (limits : Limits) (input : Bytes) (value : Value) : Prop where
  size : input.length ≤ limits.maxInputBytes
  mark : ¬ [0xEF, 0xBB, 0xBF] <+: input
  text : ∃ w object w', input = w ++ object ++ w' ∧ Space w ∧ Space w' ∧
    IsValue limits 1 object value ∧ ∃ members, value = .object members

end FileMover.Json
