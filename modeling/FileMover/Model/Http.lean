import FileMover.Model.Text

/-!
# HTTP messages

`http_parser.cpp`: the head of a request, the body length it declares and the
bytes of a response. Headers are kept in the order of the request; the source
keeps them in a map, and since a name that comes twice is refused the two agree.
-/

namespace FileMover.Http

structure Request where
  method : Bytes := []
  target : Bytes := []
  version : Bytes := []
  headers : List (Bytes × Bytes) := []
  body : Bytes := []
deriving DecidableEq, Repr

/-- `headers.find(name)`. -/
def Request.header (request : Request) (name : Bytes) : Option Bytes :=
  (request.headers.find? fun header => header.1 = name).map Prod.snd

structure Response where
  status : Nat := 500
  contentType : Bytes := lit "application/json"
  body : Bytes := []
  allow : Bytes := []
deriving DecidableEq, Repr

inductive HeadParse
  | ok
  | needMore
  | bad
  | tooLarge
deriving DecidableEq, Repr

/-! ## Characters and tokens -/

def isUpperAlpha (c : UInt8) : Bool := 0x41 ≤ c && c ≤ 0x5A

def isDigit (c : UInt8) : Bool := 0x30 ≤ c && c ≤ 0x39

def isLowerAlpha (c : UInt8) : Bool := 0x61 ≤ c && c ≤ 0x7A

def isCtl (c : UInt8) : Bool := c < 0x20 || c = 0x7F

def toLowerAscii (c : UInt8) : UInt8 := if 0x41 ≤ c ∧ c ≤ 0x5A then c - 0x41 + 0x61 else c

def validMethod (token : Bytes) : Bool :=
  !(token.isEmpty || decide (token.length > 16)) && token.all isUpperAlpha

def validTarget (target : Bytes) : Bool :=
  target.head? = some 0x2F && target.all fun c => !(c = 0x20 || c = 0x09 || isCtl c)

def validHeaderName (name : Bytes) : Bool :=
  !name.isEmpty && name.all fun c =>
    isLowerAlpha c || isUpperAlpha c || isDigit c || c = 0x2D || c = 0x5F

def lowerAscii (s : Bytes) : Bytes := s.map toLowerAscii

def isOws (c : UInt8) : Bool := c = 0x20 || c = 0x09

/-- `trim_ows`: from the first byte that is not a blank to the last one. -/
def trimOws (s : Bytes) : Bytes := ((s.dropWhile isOws).reverse.dropWhile isOws).reverse

/-! ## The head -/

/-- `data.find("\r\n\r\n")`. -/
def findBlankLine : Bytes → Option Nat
  | [] => none
  | b :: data =>
      if [0x0D, 0x0A, 0x0D, 0x0A].isPrefixOf (b :: data) then some 0
      else (findBlankLine data).map (· + 1)

/-- `std::getline`: the bytes before the next line feed and what follows it. -/
def getline (stream : Bytes) : Option (Bytes × Bytes) :=
  match stream with
  | [] => none
  | _ => some (stream.takeWhile (· ≠ 0x0A), (stream.dropWhile (· ≠ 0x0A)).tail)

/-- The bytes before and after the first `b`, if there is one. -/
def splitAt (b : UInt8) (s : Bytes) : Option (Bytes × Bytes) :=
  if b ∈ s then some (s.takeWhile (· ≠ b), (s.dropWhile (· ≠ b)).tail) else none

/-- The line without its carriage return; `none` when it does not end in one. -/
def chomp (line : Bytes) : Option Bytes :=
  if line.getLast? = some 0x0D then some line.dropLast else none

/-- One header line: the lowercased name and the trimmed value. -/
def parseHeader (line : Bytes) : Except Bytes (Bytes × Bytes) :=
  if line.head? = some 0x20 ∨ line.head? = some 0x09 then
    .error (lit "obs-fold header continuation rejected")
  else
    match splitAt 0x3A line with
    | none => .error (lit "header without ':'")
    | some (name, rest) =>
        if validHeaderName name = false then .error (lit "invalid header name")
        else if (trimOws rest).any isCtl then
          .error (lit "control character in header value")
        else .ok (lowerAscii name, trimOws rest)

/-- The loop over the header lines; `room` is how many headers may still come. -/
def headerLoop : Nat → List (Bytes × Bytes) → Bytes → Except Bytes (List (Bytes × Bytes))
  | room, headers, stream =>
      match getline stream with
      | none => .ok headers
      | some (line, rest) =>
          match chomp line with
          | none => .error (lit "malformed header framing")
          | some line =>
              if line = [] then .ok headers
              else
                match parseHeader line with
                | .error error => .error error
                | .ok (key, value) =>
                    match room with
                    | 0 => .error (lit "too many headers")
                    | room + 1 =>
                        if key ∈ headers.map Prod.fst then
                          .error (lit "duplicate header \"" ++ key ++ lit "\"")
                        else headerLoop room (headers ++ [(key, value)]) rest

/-- The three parts of the request line. -/
def parseRequestLine (line : Bytes) : Except Bytes Request :=
  match splitAt 0x20 line with
  | none => .error (lit "malformed request line")
  | some (method, rest) =>
      match splitAt 0x20 rest with
      | none => .error (lit "malformed request line")
      | some (target, version) =>
          if 0x20 ∈ version then .error (lit "malformed request line")
          else if validMethod method = false then .error (lit "invalid method token")
          else if validTarget target = false then .error (lit "invalid request target")
          else if version ≠ lit "HTTP/1.1" ∧ version ≠ lit "HTTP/1.0" then
            .error (lit "unsupported HTTP version")
          else .ok { method := method, target := target, version := version }

/-- The lines of a complete head. -/
def parseLines (head : Bytes) : Except Bytes Request :=
  match getline head with
  | none => .error (lit "malformed request line")
  | some (line, rest) =>
      match chomp line with
      | none => .error (lit "malformed request line")
      | some line =>
          match parseRequestLine line with
          | .error error => .error error
          | .ok request =>
              match headerLoop 64 [] rest with
              | .error error => .error error
              | .ok headers => .ok { request with headers := headers }

/-- The parameters that `parse_request_head` may assign. -/
structure HeadOut where
  request : Request := {}
  headLen : Nat := 0
  error : Bytes := []
deriving DecidableEq, Repr

def parseRequestHead (data : Bytes) (maxHead : Nat) (out : HeadOut) : HeadParse × HeadOut :=
  match findBlankLine data with
  | none =>
      if data.length > maxHead then
        (.tooLarge, { out with error := lit "request head exceeds limit" })
      else (.needMore, out)
  | some stop =>
      if stop + 4 > maxHead then
        (.tooLarge, { out with error := lit "request head exceeds limit" })
      else
        match parseLines (data.take (stop + 2)) with
        | .error error => (.bad, { out with error := error })
        | .ok parsed => (.ok, { request := parsed, headLen := stop + 4, error := [] })

/-! ## The declared length -/

/-- The loop of `content_length_for` over the digits. -/
def lengthDigits : Nat → Bytes → Except (Nat × Bytes) Nat
  | parsed, [] => .ok parsed
  | parsed, c :: cs =>
      if isDigit c = false then .error (400, lit "invalid Content-Length")
      else
        let digit := c.toNat - 0x30
        if parsed > (2 ^ 64 - 1 - digit) / 10 then
          .error (413, lit "request body exceeds limit")
        else lengthDigits (parsed * 10 + digit) cs

/-- `content_length_for`: the length, or the status and the message of a refusal. -/
def contentLengthFor (request : Request) (maxBody : Nat) : Except (Nat × Bytes) Nat :=
  if (request.header (lit "transfer-encoding")).isSome then
    .error (400, lit "Transfer-Encoding is not supported")
  else
    match request.header (lit "content-length") with
    | none => .ok 0
    | some value =>
        if value = [] then .error (400, lit "invalid Content-Length")
        else
          match lengthDigits 0 value with
          | .error refusal => .error refusal
          | .ok parsed =>
              if parsed > maxBody then .error (413, lit "request body exceeds limit")
              else .ok parsed

/-! ## Responses -/

def reasonFor (status : Nat) : Bytes :=
  if status = 200 then lit "OK"
  else if status = 201 then lit "Created"
  else if status = 400 then lit "Bad Request"
  else if status = 404 then lit "Not Found"
  else if status = 405 then lit "Method Not Allowed"
  else if status = 409 then lit "Conflict"
  else if status = 413 then lit "Payload Too Large"
  else if status = 431 then lit "Request Header Fields Too Large"
  else lit "Internal Server Error"

def serializeResponse (response : Response) : Bytes :=
  lit "HTTP/1.1 " ++ decimal response.status ++ lit " " ++ reasonFor response.status ++
    lit "\r\n" ++
  lit "Content-Type: " ++ response.contentType ++ lit "\r\n" ++
  lit "Content-Length: " ++ decimal response.body.length ++ lit "\r\n" ++
  lit "Connection: close\r\n" ++
  (if response.allow = [] then [] else lit "Allow: " ++ response.allow ++ lit "\r\n") ++
  lit "\r\n" ++ response.body

end FileMover.Http
