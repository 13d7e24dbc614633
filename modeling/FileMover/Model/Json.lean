import FileMover.Model.Text

/-!
# The JSON parser

`json.hpp` and `json.cpp`. The parser walks the input from left to right and
never goes back, so its position is the list of the bytes it has not consumed
yet; `n_ - i_` is the length of that list. A failure keeps the position at which
it was noticed, since the message of `parse` names the offset.

`parse_value` counts the depth up and refuses to descend past `max_depth`. Here
the levels that are left are counted down, which makes the descent a structural
recursion; the loops of `parse_object` and `parse_array` count down the members
and the elements that may still come. None of the counters is fuel: the source
refuses at exactly the points where they are exhausted.
-/

namespace FileMover.Json

inductive Value
  | bool (v : Bool)
  | int (v : Int)
  | string (v : Bytes)
  | array (elems : List Value)
  | object (members : List (Bytes × Value))
deriving Repr

/-- `Value::find`: the first member with this key. -/
def Value.find : Value → Bytes → Option Value
  | .object members, key => (members.find? fun member => member.1 = key).map Prod.snd
  | _, _ => none

structure Limits where
  maxDepth : Nat := 4
  maxInputBytes : Nat := 64 * 1024
  maxStringBytes : Nat := 4096
  maxMembers : Nat := 64
  maxElements : Nat := 64
deriving DecidableEq, Repr

/-- A message of `set_error` and the bytes that were left when it was set. -/
structure Failure where
  message : Bytes
  rest : Bytes
deriving DecidableEq, Repr

abbrev Parse (α : Type) := Except Failure (α × Bytes)

/-- `set_error` at the position `rest`. -/
def setError {α : Type} (message : String) (rest : Bytes) : Parse α :=
  .error ⟨lit message, rest⟩

def isWs (c : UInt8) : Bool := c = 0x20 || c = 0x09 || c = 0x0A || c = 0x0D

def isDigit (c : UInt8) : Bool := 0x30 ≤ c && c ≤ 0x39

/-- `hex_value`; `none` is its `-1`. -/
def hexValue (c : UInt8) : Option Nat :=
  if 0x30 ≤ c ∧ c ≤ 0x39 then some (c.toNat - 0x30)
  else if 0x61 ≤ c ∧ c ≤ 0x66 then some (c.toNat - 0x61 + 10)
  else if 0x41 ≤ c ∧ c ≤ 0x46 then some (c.toNat - 0x41 + 10)
  else none

/-- `append_utf8`: the bytes that are appended. -/
def appendUtf8 (cp : Nat) : Bytes :=
  if cp < 0x80 then [UInt8.ofNat cp]
  else if cp < 0x800 then
    [UInt8.ofNat (0xC0 ||| (cp >>> 6)), UInt8.ofNat (0x80 ||| (cp &&& 0x3F))]
  else if cp < 0x10000 then
    [UInt8.ofNat (0xE0 ||| (cp >>> 12)), UInt8.ofNat (0x80 ||| ((cp >>> 6) &&& 0x3F)),
      UInt8.ofNat (0x80 ||| (cp &&& 0x3F))]
  else
    [UInt8.ofNat (0xF0 ||| (cp >>> 18)), UInt8.ofNat (0x80 ||| ((cp >>> 12) &&& 0x3F)),
      UInt8.ofNat (0x80 ||| ((cp >>> 6) &&& 0x3F)), UInt8.ofNat (0x80 ||| (cp &&& 0x3F))]

def skipWs (s : Bytes) : Bytes := s.dropWhile isWs

def literal (word : String) (s : Bytes) : Parse Unit :=
  if (lit word).isPrefixOf s then .ok ((), s.drop (lit word).length)
  else setError "invalid literal" s

/-! ## Strings -/

/-- What the lead byte of a raw sequence fixes: its length and the range of the
byte after it. -/
def utf8Lead (c : UInt8) : Option (Nat × UInt8 × UInt8) :=
  if c < 0x80 then some (1, 0x80, 0xBF)
  else if 0xC2 ≤ c ∧ c ≤ 0xDF then some (2, 0x80, 0xBF)
  else if 0xE0 ≤ c ∧ c ≤ 0xEF then
    some (3, if c = 0xE0 then 0xA0 else 0x80, if c = 0xED then 0x9F else 0xBF)
  else if 0xF0 ≤ c ∧ c ≤ 0xF4 then
    some (4, if c = 0xF0 then 0x90 else 0x80, if c = 0xF4 then 0x8F else 0xBF)
  else none

/-- The loop over the bytes after the lead byte; the first of them has a range of
its own. -/
def continuationBytes (lo hi : UInt8) : Bytes → Bool
  | [] => true
  | cc :: tail => lo ≤ cc && cc ≤ hi && continuationBytes 0x80 0xBF tail

/-- `consume_utf8`: the sequence that starts at `s` (which is not empty). -/
def consumeUtf8 (s : Bytes) : Parse Bytes :=
  match utf8Lead (s.headD 0) with
  | none => setError "invalid UTF-8 lead byte in string" s
  | some (len, lo, hi) =>
      if s.length < len then setError "truncated UTF-8 sequence" s
      else if continuationBytes lo hi (s.take len).tail = false then
        setError "invalid UTF-8 continuation byte in string" s
      else .ok (s.take len, s.drop len)

/-- The four digits of `parse_hex4`, accumulated from the left. -/
def hexDigits : Nat → Bytes → Option Nat
  | v, [] => some v
  | v, c :: cs =>
      match hexValue c with
      | some d => hexDigits ((v <<< 4) ||| d) cs
      | none => none

def parseHex4 (s : Bytes) : Parse Nat :=
  if s.length < 4 then setError "truncated \\u escape" s
  else
    match hexDigits 0 (s.take 4) with
    | some v => .ok (v, s.drop 4)
    | none => setError "invalid hex digit in \\u escape" s

/-- The eight short escapes, as the escape character and what it stands for. -/
def shortEscape (e : UInt8) : Option UInt8 :=
  if e = 0x22 then some 0x22        -- '"'
  else if e = 0x5C then some 0x5C   -- '\\'
  else if e = 0x2F then some 0x2F   -- '/'
  else if e = 0x62 then some 0x08   -- 'b'
  else if e = 0x66 then some 0x0C   -- 'f'
  else if e = 0x6E then some 0x0A   -- 'n'
  else if e = 0x72 then some 0x0D   -- 'r'
  else if e = 0x74 then some 0x09   -- 't'
  else none

/-- The case `'u'` of the escapes; `s` stands after the `u`. -/
def unicodeEscape (s : Bytes) : Parse Bytes :=
  match parseHex4 s with
  | .error failure => .error failure
  | .ok (cp, s) =>
      if cp = 0 then setError "embedded NUL is not permitted" s
      else if 0xD800 ≤ cp ∧ cp ≤ 0xDBFF then
        if s.take 2 ≠ [0x5C, 0x75] then setError "lone high surrogate" s
        else
          match parseHex4 (s.drop 2) with
          | .error failure => .error failure
          | .ok (lo, s) =>
              if lo < 0xDC00 ∨ lo > 0xDFFF then setError "invalid low surrogate" s
              else .ok (appendUtf8 (0x10000 + ((cp - 0xD800) <<< 10) + (lo - 0xDC00)), s)
      else if 0xDC00 ≤ cp ∧ cp ≤ 0xDFFF then setError "lone low surrogate" s
      else .ok (appendUtf8 cp, s)

/-- What an escape stands for; `s` stands after the backslash. -/
def parseEscape (s : Bytes) : Parse Bytes :=
  match s with
  | [] => setError "unterminated escape sequence" s
  | e :: s =>
      match shortEscape e with
      | some c => .ok ([c], s)
      | none =>
          if e = 0x75 then unicodeEscape s
          else setError "unrecognized escape character" s

/-- The loop of `parse_string`. Every round consumes a byte, so the number of the
bytes that are left bounds the rounds: at `0` the input is at its end. -/
def stringLoop (limits : Limits) : Nat → Bytes → Bytes → Parse Bytes
  | 0, _, s => setError "unterminated string" s
  | _ + 1, _, [] => setError "unterminated string" []
  | rounds + 1, out, c :: s =>
      if out.length > limits.maxStringBytes then
        setError "string exceeds the maximum length" (c :: s)
      else if c = 0x22 then .ok (out, s)
      else if c < 0x20 then setError "unescaped control character in string" (c :: s)
      else
        match (if c = 0x5C then parseEscape s else consumeUtf8 (c :: s)) with
        | .error failure => .error failure
        | .ok (bytes, s) => stringLoop limits rounds (out ++ bytes) s

/-- `parse_string`; `s` starts with the opening quote. -/
def parseString (limits : Limits) (s : Bytes) : Parse Bytes :=
  stringLoop limits s.tail.length [] s.tail

/-! ## Numbers -/

/-- The accumulation of `parse_number`, with its guard against overflow. -/
def accumulate (limit : Nat) : Nat → Bytes → Option Nat
  | acc, [] => some acc
  | acc, c :: cs =>
      let d := c.toNat - 0x30
      if acc > (limit - d) / 10 then none else accumulate limit (acc * 10 + d) cs

/-- The largest magnitude of an integer with this sign. -/
def magnitude (negative : Bool) : Nat := if negative then 2 ^ 63 else 2 ^ 63 - 1

def signed (negative : Bool) (acc : Nat) : Int := if negative then -(acc : Int) else acc

/-- The end of `parse_number`: the value of the digits, if it is in range. -/
def integerOf (negative : Bool) (digits rest : Bytes) : Parse Value :=
  match accumulate (magnitude negative) 0 digits with
  | none => setError "integer is out of the representable range" rest
  | some acc => .ok (.int (signed negative acc), rest)

/-- `parse_number`, from the digits on. -/
def parseDigits (negative : Bool) (s : Bytes) : Parse Value :=
  match s with
  | [] => setError "number has no digits" s
  | c :: cs =>
      if isDigit c = false then setError "number has no digits" s
      else
        let digits := if c = 0x30 then [c] else s.takeWhile isDigit
        let rest := if c = 0x30 then cs else s.dropWhile isDigit
        if c = 0x30 ∧ (rest.head?.any isDigit) = true then
          setError "leading zeros are not permitted" rest
        else if rest.head? = some 0x2E then
          setError "floating-point values are not accepted" rest
        else if rest.head? = some 0x65 ∨ rest.head? = some 0x45 then
          setError "exponent notation is not accepted" rest
        else integerOf negative digits rest

def parseNumber (s : Bytes) : Parse Value :=
  if s.head? = some 0x2D then parseDigits true s.tail else parseDigits false s

/-! ## Values -/

/-- The loop of `parse_object`, with the members read so far and the number of
members that may still be added. -/
def memberLoop (limits : Limits) (parseMember : Bytes → Parse Value) :
    Nat → List (Bytes × Value) → Bytes → Parse Value
  | room, members, s =>
      match skipWs s with
      | [] => setError "unterminated object" []
      | c :: cs =>
          if c ≠ 0x22 then
            setError "object member name must be a quoted string" (c :: cs)
          else
            match parseString limits (c :: cs) with
            | .error failure => .error failure
            | .ok (key, s) =>
                if key ∈ members.map Prod.fst then
                  setError "duplicate object member name" s
                else
                  match room with
                  | 0 => setError "object exceeds the maximum member count" s
                  | room + 1 =>
                      match skipWs s with
                      | 0x3A :: s =>
                          match parseMember (skipWs s) with
                          | .error failure => .error failure
                          | .ok (value, s) =>
                              match skipWs s with
                              | [] => setError "unterminated object" []
                              | 0x2C :: s =>
                                  memberLoop limits parseMember room
                                    (members ++ [(key, value)]) s
                              | 0x7D :: s => .ok (.object (members ++ [(key, value)]), s)
                              | s => setError "expected ',' or '\x7d' in object" s
                      | s => setError "expected ':' after member name" s

/-- The loop of `parse_array`, likewise. -/
def elementLoop (parseElement : Bytes → Parse Value) :
    Nat → List Value → Bytes → Parse Value
  | room, elems, s =>
      match skipWs s with
      | [] => setError "unterminated array" []
      | c :: cs =>
          match room with
          | 0 => setError "array exceeds the maximum element count" (c :: cs)
          | room + 1 =>
              match parseElement (c :: cs) with
              | .error failure => .error failure
              | .ok (value, s) =>
                  match skipWs s with
                  | [] => setError "unterminated array" []
                  | 0x2C :: s => elementLoop parseElement room (elems ++ [value]) s
                  | 0x5D :: s => .ok (.array (elems ++ [value]), s)
                  | s => setError "expected ',' or ']' in array" s

/-- `parse_object`; `s` starts with the brace. -/
def parseObject (limits : Limits) (parseMember : Bytes → Parse Value) (s : Bytes) :
    Parse Value :=
  match skipWs s.tail with
  | [] => setError "unterminated object" []
  | 0x7D :: s => .ok (.object [], s)
  | s => memberLoop limits parseMember limits.maxMembers [] s

/-- `parse_array`; `s` starts with the bracket. -/
def parseArray (limits : Limits) (parseElement : Bytes → Parse Value) (s : Bytes) :
    Parse Value :=
  match skipWs s.tail with
  | [] => setError "unterminated array" []
  | 0x5D :: s => .ok (.array [], s)
  | s => elementLoop parseElement limits.maxElements [] s

/-- `parse_value` with `levels` levels left: `depth > max_depth` is `levels = 0`. -/
def parseValue (limits : Limits) : Nat → Bytes → Parse Value
  | 0, s => setError "maximum nesting depth exceeded" s
  | _ + 1, [] => setError "unexpected end of input" []
  | levels + 1, c :: cs =>
      if c = 0x7B then parseObject limits (parseValue limits levels) (c :: cs)
      else if c = 0x5B then parseArray limits (parseValue limits levels) (c :: cs)
      else if c = 0x22 then
        (parseString limits (c :: cs)).map fun (v, s) => (.string v, s)
      else if c = 0x74 then (literal "true" (c :: cs)).map fun (_, s) => (.bool true, s)
      else if c = 0x66 then (literal "false" (c :: cs)).map fun (_, s) => (.bool false, s)
      else if c = 0x6E then setError "null is not an accepted value" (c :: cs)
      else if c = 0x2D ∨ isDigit c = true then parseNumber (c :: cs)
      else setError "unexpected character" (c :: cs)

/-- `Parser::run`. Depth `1` has `max_depth` levels left. -/
def run (limits : Limits) (input : Bytes) : Parse Value :=
  if input.length > limits.maxInputBytes then
    setError "input exceeds the configured maximum size" input
  else if [0xEF, 0xBB, 0xBF].isPrefixOf input then
    setError "leading byte-order mark is not permitted" input
  else
    match skipWs input with
    | [] => setError "input is empty" []
    | c :: cs =>
        if c ≠ 0x7B then setError "top-level value must be an object" (c :: cs)
        else
          match parseValue limits limits.maxDepth (c :: cs) with
          | .error failure => .error failure
          | .ok (value, s) =>
              match skipWs s with
              | [] => .ok (value, [])
              | s => setError "unexpected trailing content after the JSON value" s

/-- `json::parse`; the error is the message followed by the offset, as `fail`
writes it. -/
def parse (limits : Limits) (input : Bytes) : Except Bytes Value :=
  match run limits input with
  | .ok (value, _) => .ok value
  | .error failure =>
      .error (failure.message ++ lit " at offset " ++
        decimal (input.length - failure.rest.length))

/-! ## Escaping -/

def hexDigit (n : Nat) : UInt8 :=
  if n < 10 then UInt8.ofNat (0x30 + n) else UInt8.ofNat (0x61 + n - 10)

/-- What `escape` writes for one byte. -/
def escapeByte (c : UInt8) : Bytes :=
  if c = 0x22 then [0x5C, 0x22]
  else if c = 0x5C then [0x5C, 0x5C]
  else if c = 0x08 then [0x5C, 0x62]
  else if c = 0x0C then [0x5C, 0x66]
  else if c = 0x0A then [0x5C, 0x6E]
  else if c = 0x0D then [0x5C, 0x72]
  else if c = 0x09 then [0x5C, 0x74]
  else if c < 0x20 then
    -- `"\\u%04x"` of a byte: two zeros, then its two digits
    [0x5C, 0x75, 0x30, 0x30, hexDigit (c.toNat / 16), hexDigit (c.toNat % 16)]
  else [c]

/-- `json::escape`. -/
def escape (s : Bytes) : Bytes := s.flatMap escapeByte

end FileMover.Json
