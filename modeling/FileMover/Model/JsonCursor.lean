import FileMover.Model.Json

/-!
# The JSON parser, access by access

`json.cpp` once more, with the cursor `i_` as a number and the input as a buffer that can be
read at any index: behind its end stands whatever the memory holds, and `n_ - i_` is a
difference of unsigned numbers, which wraps. What a run touches is kept.

The loops of the source have no bound, so they take one here; a run that would go on is
`unfinished`.
-/

namespace FileMover.Json.Cursor

/-- The input, and what lies behind it in memory. -/
structure Buffer where
  bytes : Bytes
  beyond : Nat → UInt8

namespace Buffer

/-- `n_`. -/
def n (b : Buffer) : Nat := b.bytes.length

/-- `s_[k]`. -/
def byte (b : Buffer) (k : Nat) : UInt8 := b.bytes.getD k (b.beyond k)

/-- `n_ - i`, as `size_t` computes it. -/
def minus (b : Buffer) (i : Nat) : Nat := if i ≤ b.n then b.n - i else 2 ^ 64 - (i - b.n)

end Buffer

/-- What a run does that could go wrong. -/
inductive Access
  /-- `s_[k]` is read. -/
  | read (k : Nat)
  /-- `i_` becomes `i`. -/
  | cursor (i : Nat)
  /-- `n_ - i` is computed. -/
  | minus (i : Nat)
  /-- So many calls of `parse_value` are open. -/
  | nesting (calls : Nat)
deriving DecidableEq

structure Parser where
  i : Nat := 0
  error : Bytes := []
  /-- The calls of `parse_value` that have not returned. -/
  calls : Nat := 0
  touched : List Access := []
deriving DecidableEq

inductive Stop
  /-- `false` is returned. -/
  | failed
  | unfinished
deriving DecidableEq

abbrev Scan (α : Type) := Parser → Except Stop α × Parser

namespace Scan

variable {α β : Type}

def pure (a : α) : Scan α := fun s => (.ok a, s)

def bind (p : Scan α) (f : α → Scan β) : Scan β := fun s =>
  match p s with
  | (.ok a, s) => f a s
  | (.error stop, s) => (.error stop, s)

instance : Monad Scan where
  pure := pure
  bind := bind

end Scan

def unfinished {α : Type} : Scan α := fun s => (.error .unfinished, s)

/-- `set_error`, and the `false` that is returned. -/
def setError {α : Type} (message : String) : Scan α := fun s =>
  (.error .failed, if s.error = [] then { s with error := lit message } else s)

/-- `if (refused) return set_error(message);` -/
def failIf (refused : Bool) (message : String) : Scan Unit :=
  if refused then setError message else return ()

def touch (access : Access) : Scan Unit := fun s =>
  (.ok (), { s with touched := access :: s.touched })

def position : Scan Nat := fun s => (.ok s.i, s)

/-- `i_ += k`. -/
def advance (k : Nat) : Scan Unit := fun s =>
  (.ok (), { s with i := s.i + k, touched := .cursor (s.i + k) :: s.touched })

section

variable (b : Buffer)

def readAt (k : Nat) : Scan UInt8 := do
  touch (.read k)
  return b.byte k

def peek : Scan UInt8 := do readAt b (← position)

def atEnd : Scan Bool := do return decide (b.n ≤ (← position))

/-- `n_ - i_`. -/
def remaining : Scan Nat := do
  let i ← position
  touch (.minus i)
  return b.minus i

/-- `peek() == c`, unless the input ends. -/
def sees (c : UInt8 → Bool) : Scan Bool := do
  if (← atEnd b) = true then return false
  else return c (← peek b)

/-- The bytes from `k` on. -/
def readFrom (k : Nat) : Nat → Scan Bytes
  | 0 => return []
  | count + 1 => do
      let c ← readAt b k
      let rest ← readFrom (k + 1) count
      return c :: rest

def skipWs : Nat → Scan Unit
  | 0 => unfinished
  | rounds + 1 => do
      if (← sees b isWs) = true then
        advance 1
        skipWs rounds

def literal (word : String) : Scan Unit := do
  failIf ((← remaining b) < (lit word).length) "invalid literal"
  failIf ((← readFrom b (← position) (lit word).length) ≠ lit word) "invalid literal"
  advance (lit word).length

/-! ## Strings -/

/-- The loop of `consume_utf8`, from `i_ + k` on. -/
def continuations (lo hi : UInt8) (k : Nat) : Nat → Scan Unit
  | 0 => return ()
  | count + 1 => do
      let cc ← readAt b ((← position) + k)
      failIf (cc < lo ∨ cc > hi) "invalid UTF-8 continuation byte in string"
      continuations 0x80 0xBF (k + 1) count

/-- `consume_utf8`: what is appended. -/
def consumeUtf8 : Scan Bytes := do
  match utf8Lead (← peek b) with
  | none => setError "invalid UTF-8 lead byte in string"
  | some (len, lo2, hi2) =>
      failIf ((← remaining b) < len) "truncated UTF-8 sequence"
      continuations b lo2 hi2 1 (len - 1)
      let bytes ← readFrom b (← position) len
      advance len
      return bytes

/-- The loop of `parse_hex4`, from `i_ + k` on. -/
def hexLoop (v k : Nat) : Nat → Scan Nat
  | 0 => return v
  | count + 1 => do
      match hexValue (← readAt b ((← position) + k)) with
      | none => setError "invalid hex digit in \\u escape"
      | some d => hexLoop ((v <<< 4) ||| d) (k + 1) count

def parseHex4 : Scan Nat := do
  failIf ((← remaining b) < 4) "truncated \\u escape"
  let cp ← hexLoop b 0 0 4
  advance 4
  return cp

/-- `n_ - i_ < 2 || s_[i_] != '\\' || s_[i_ + 1] != 'u'`, the other way round. -/
def lowSurrogateFollows : Scan Bool := do
  if (← remaining b) < 2 then return false
  else if (← readAt b (← position)) ≠ 0x5C then return false
  else return decide ((← readAt b ((← position) + 1)) = 0x75)

/-- The case `'u'` of the escapes. -/
def unicodeEscape : Scan Bytes := do
  let cp ← parseHex4 b
  if cp = 0 then setError "embedded NUL is not permitted"
  else if 0xD800 ≤ cp ∧ cp ≤ 0xDBFF then
    failIf (!(← lowSurrogateFollows b)) "lone high surrogate"
    advance 2
    let lo ← parseHex4 b
    failIf (lo < 0xDC00 ∨ lo > 0xDFFF) "invalid low surrogate"
    return appendUtf8 (0x10000 + ((cp - 0xD800) <<< 10) + (lo - 0xDC00))
  else if 0xDC00 ≤ cp ∧ cp ≤ 0xDFFF then setError "lone low surrogate"
  else return appendUtf8 cp

/-- What follows a backslash. -/
def parseEscape : Scan Bytes := do
  failIf (← atEnd b) "unterminated escape sequence"
  let e ← peek b
  advance 1
  match shortEscape e with
  | some c => return [c]
  | none => if e = 0x75 then unicodeEscape b else setError "unrecognized escape character"

def stringLoop (limits : Limits) : Nat → Bytes → Scan Bytes
  | 0, _ => unfinished
  | rounds + 1, out => do
      failIf (← atEnd b) "unterminated string"
      failIf (out.length > limits.maxStringBytes) "string exceeds the maximum length"
      let c ← peek b
      if c = 0x22 then
        advance 1
        return out
      else if c < 0x20 then setError "unescaped control character in string"
      else if c ≠ 0x5C then
        let bytes ← consumeUtf8 b
        stringLoop limits rounds (out ++ bytes)
      else
        advance 1
        let bytes ← parseEscape b
        stringLoop limits rounds (out ++ bytes)

def parseString (limits : Limits) (fuel : Nat) : Scan Bytes := do
  advance 1
  stringLoop b limits fuel []

/-! ## Numbers -/

def digitLoop : Nat → Scan Unit
  | 0 => unfinished
  | rounds + 1 => do
      if (← sees b isDigit) = true then
        advance 1
        digitLoop rounds

/-- The accumulation, for the `count` digits from `k` on. -/
def accumulateLoop (limit acc k : Nat) : Nat → Scan Nat
  | 0 => return acc
  | count + 1 => do
      let d := (← readAt b k).toNat - 0x30
      failIf (acc > (limit - d) / 10) "integer is out of the representable range"
      accumulateLoop limit (acc * 10 + d) (k + 1) count

/-- The digits, of which there is one. -/
def skipDigits (fuel : Nat) : Scan Unit := do
  if (← peek b) = 0x30 then
    advance 1
    failIf (← sees b isDigit) "leading zeros are not permitted"
  else digitLoop b fuel

/-- `parse_number`, once the sign is known and consumed. -/
def parseDigits (negative : Bool) (start fuel : Nat) : Scan Value := do
  failIf (!(← sees b isDigit)) "number has no digits"
  skipDigits b fuel
  failIf (← sees b (· = 0x2E)) "floating-point values are not accepted"
  failIf (← sees b fun c => c = 0x65 || c = 0x45)
    "exponent notation is not accepted"
  let first := start + if negative then 1 else 0
  let acc ← accumulateLoop b (magnitude negative) 0 first ((← position) - first)
  return .int (signed negative acc)

def parseNumber (fuel : Nat) : Scan Value := do
  let start ← position
  if (← peek b) = 0x2D then
    advance 1
    failIf (← atEnd b) "number has no digits"
    parseDigits b true start fuel
  else parseDigits b false start fuel

/-! ## Values -/

/-- The loop of `parse_object`. -/
def memberLoop (limits : Limits) (parseMember : Scan Value) (fuel : Nat) :
    Nat → List (Bytes × Value) → Scan Value
  | 0, _ => unfinished
  | rounds + 1, members => do
      skipWs b fuel
      failIf (← atEnd b) "unterminated object"
      failIf ((← peek b) ≠ 0x22) "object member name must be a quoted string"
      let key ← parseString b limits fuel
      failIf (key ∈ members.map Prod.fst) "duplicate object member name"
      failIf (members.length ≥ limits.maxMembers) "object exceeds the maximum member count"
      skipWs b fuel
      failIf (!(← sees b (· = 0x3A))) "expected ':' after member name"
      advance 1
      skipWs b fuel
      let value ← parseMember
      skipWs b fuel
      failIf (← atEnd b) "unterminated object"
      if (← peek b) = 0x2C then
        advance 1
        memberLoop limits parseMember fuel rounds (members ++ [(key, value)])
      else if (← peek b) = 0x7D then
        advance 1
        return .object (members ++ [(key, value)])
      else setError "expected ',' or '\x7d' in object"

def parseObject (limits : Limits) (parseMember : Scan Value) (fuel : Nat) : Scan Value := do
  advance 1
  skipWs b fuel
  failIf (← atEnd b) "unterminated object"
  if (← peek b) = 0x7D then
    advance 1
    return .object []
  else memberLoop b limits parseMember fuel fuel []

/-- The loop of `parse_array`. -/
def elementLoop (limits : Limits) (parseElement : Scan Value) (fuel : Nat) :
    Nat → List Value → Scan Value
  | 0, _ => unfinished
  | rounds + 1, elems => do
      skipWs b fuel
      failIf (← atEnd b) "unterminated array"
      failIf (elems.length ≥ limits.maxElements) "array exceeds the maximum element count"
      let value ← parseElement
      skipWs b fuel
      failIf (← atEnd b) "unterminated array"
      if (← peek b) = 0x2C then
        advance 1
        elementLoop limits parseElement fuel rounds (elems ++ [value])
      else if (← peek b) = 0x5D then
        advance 1
        return .array (elems ++ [value])
      else setError "expected ',' or ']' in array"

def parseArray (limits : Limits) (parseElement : Scan Value) (fuel : Nat) : Scan Value := do
  advance 1
  skipWs b fuel
  failIf (← atEnd b) "unterminated array"
  if (← peek b) = 0x5D then
    advance 1
    return .array []
  else elementLoop b limits parseElement fuel fuel []

end

/-- A call of `parse_value`: it is open until it returns, with or without a value. -/
def called {α : Type} (body : Scan α) : Scan α := fun s =>
  match body { s with calls := s.calls + 1, touched := .nesting (s.calls + 1) :: s.touched } with
  | (result, s) => (result, { s with calls := s.calls - 1 })

/-- `parse_value`; `fuel` bounds the calls in each other and the rounds of each loop. -/
def parseValue (b : Buffer) (limits : Limits) : Nat → Nat → Scan Value
  | 0, _ => unfinished
  | fuel + 1, depth => called do
      failIf (depth > limits.maxDepth) "maximum nesting depth exceeded"
      failIf (← atEnd b) "unexpected end of input"
      let c ← peek b
      if c = 0x7B then parseObject b limits (parseValue b limits fuel (depth + 1)) fuel
      else if c = 0x5B then parseArray b limits (parseValue b limits fuel (depth + 1)) fuel
      else if c = 0x22 then return .string (← parseString b limits fuel)
      else if c = 0x74 then
        literal b "true"
        return .bool true
      else if c = 0x66 then
        literal b "false"
        return .bool false
      else if c = 0x6E then setError "null is not an accepted value"
      else if c = 0x2D ∨ isDigit c = true then parseNumber b fuel
      else setError "unexpected character"

/-- The byte-order mark; an index is read only if the one before it was a match. -/
def startsWithMark (b : Buffer) : Scan Bool := do
  if b.n < 3 then return false
  else if (← readAt b 0) ≠ 0xEF then return false
  else if (← readAt b 1) ≠ 0xBB then return false
  else return decide ((← readAt b 2) = 0xBF)

/-- `Parser::run`. -/
def run (b : Buffer) (limits : Limits) (fuel : Nat) : Scan Value := do
  failIf (b.n > limits.maxInputBytes) "input exceeds the configured maximum size"
  failIf (← startsWithMark b) "leading byte-order mark is not permitted"
  skipWs b fuel
  failIf (← atEnd b) "input is empty"
  failIf ((← peek b) ≠ 0x7B) "top-level value must be an object"
  let value ← parseValue b limits fuel 1
  skipWs b fuel
  failIf (!(← atEnd b)) "unexpected trailing content after the JSON value"
  return value

end FileMover.Json.Cursor
