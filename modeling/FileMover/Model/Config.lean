import FileMover.Model.EventLog
import Mathlib.Data.List.DropRight

/-!
# The configuration file

`config.cpp`: an INI text, read line by line into a `Config`. A faulty line is noted and
reading goes on, so that one run lists everything that is wrong with the file.
-/

namespace FileMover.Ini

/-- `Config`, with the documented defaults. Every range that is checked fits the type of
its field, so the fields are plain numbers here. -/
structure Config where
  httpBind : Bytes := lit "127.0.0.1"
  httpPort : Nat := 8080
  httpMaxBodyBytes : Nat := 65536
  jobsWorkers : Nat := 4
  storageDatabasePath : Bytes := []
  retryMaxAttempts : Nat := 3
  retryBackoffInitialMs : Nat := 1000
  retryBackoffMaxMs : Nat := 60000
  loggingLevel : EventSeverity := .info
  loggingEnabled : Bool := true
deriving DecidableEq

/-! ## Tokens -/

def isBlank (b : UInt8) : Bool := b = 0x20 || b = 0x09 || b = 0x0D

def trim (s : Bytes) : Bytes := (s.dropWhile isBlank).rdropWhile isBlank

def isDigit (b : UInt8) : Bool := 0x30 ≤ b && b ≤ 0x39

def digitsValue (digits : Bytes) : Nat :=
  digits.foldl (fun n b => 10 * n + (b.toNat - 0x30)) 0

/-- `strtoul` in base 10 on a C string that begins with a digit, so that there are neither
blanks nor a sign to skip: the number, unless it is out of range, and what follows it. -/
def strtoul (s : Bytes) : Option Nat × Bytes :=
  let n := digitsValue (s.takeWhile isDigit)
  (if n < 2 ^ 64 then some n else none, s.dropWhile isDigit)

def parseUint (token : Bytes) (minValue maxValue : Nat) : Option Nat :=
  match token with
  | [] => none
  | b :: _ =>
      if isDigit b = false then none
      else
        match strtoul (cstr token) with
        | (some parsed, []) =>
            if parsed < minValue ∨ parsed > maxValue then none else some parsed
        | _ => none

/-! ## Issues -/

/-- An issue that is tied to a line. -/
structure Issue where
  line : UInt32
  message : Bytes
deriving DecidableEq

/-- `at`. -/
def Issue.text (origin : Bytes) (issue : Issue) : Bytes :=
  origin ++ lit ":" ++ decimal issue.line.toNat ++ lit ": " ++ issue.message

/-- `IssueLog::joined`. -/
def joined : List Bytes → Bytes
  | [] => []
  | [text] => text
  | text :: texts => text ++ lit "\n" ++ joined texts

/-! ## Lines -/

/-- What `std::getline` yields before the stream ends: what follows the last line feed is
a line unless it is empty. -/
def getlines : Bytes → List Bytes
  | [] => []
  | b :: rest =>
      if b = 0x0A then [] :: getlines rest
      else
        match getlines rest with
        | [] => [[b]]
        | line :: lines => (b :: line) :: lines

/-- The locals of `load_config_from_string`. -/
structure Loader where
  cfg : Config := {}
  issues : List Issue := []
  seenSections : List Bytes := []
  /-- Each as `section.key`. -/
  seenKeys : List Bytes := []
  sectionName : Bytes := []

def Loader.add (s : Loader) (lineNo : UInt32) (message : Bytes) : Loader :=
  { s with issues := s.issues ++ [⟨lineNo, message⟩] }

def knownSections : List Bytes :=
  [lit "http", lit "jobs", lit "storage", lit "retry", lit "logging"]

/-- The branches of an integer key. -/
def assignUint (value : Bytes) (minValue maxValue : Nat) (message : Bytes)
    (assigned : Nat → Config) : Except Bytes Config :=
  match parseUint value minValue maxValue with
  | some n => .ok (assigned n)
  | none => .error message

/-- The chain over the known keys: the new configuration, or the message of the issue. -/
def assign (cfg : Config) (sectionName key value : Bytes) : Except Bytes Config :=
  if sectionName = lit "http" ∧ key = lit "bind" then
    if value = [] ∨ value.any (fun b => b = 0x20 || b = 0x09) then
      .error (lit "http.bind must be non-empty without whitespace")
    else .ok { cfg with httpBind := value }
  else if sectionName = lit "http" ∧ key = lit "port" then
    assignUint value 1 65535 (lit "http.port must be an integer in 1..65535")
      fun n => { cfg with httpPort := n }
  else if sectionName = lit "http" ∧ key = lit "max_body_bytes" then
    assignUint value 1 16777216 (lit "http.max_body_bytes must be an integer in 1..16777216")
      fun n => { cfg with httpMaxBodyBytes := n }
  else if sectionName = lit "jobs" ∧ key = lit "workers" then
    assignUint value 1 64 (lit "jobs.workers must be an integer in 1..64")
      fun n => { cfg with jobsWorkers := n }
  else if sectionName = lit "storage" ∧ key = lit "database_path" then
    if value = [] then .error (lit "storage.database_path must be non-empty")
    else if 0 ∈ value then
      .error (lit "storage.database_path must not contain an embedded NUL")
    else .ok { cfg with storageDatabasePath := value }
  else if sectionName = lit "retry" ∧ key = lit "max_attempts" then
    assignUint value 1 100 (lit "retry.max_attempts must be an integer in 1..100")
      fun n => { cfg with retryMaxAttempts := n }
  else if sectionName = lit "retry" ∧ key = lit "backoff_initial_ms" then
    assignUint value 1 3600000 (lit "retry.backoff_initial_ms must be an integer in 1..3600000")
      fun n => { cfg with retryBackoffInitialMs := n }
  else if sectionName = lit "retry" ∧ key = lit "backoff_max_ms" then
    assignUint value 1 3600000 (lit "retry.backoff_max_ms must be an integer in 1..3600000")
      fun n => { cfg with retryBackoffMaxMs := n }
  else if sectionName = lit "logging" ∧ key = lit "level" then
    match Log.parseSeverity value .info with
    | some (level, enabled) => .ok { cfg with loggingLevel := level, loggingEnabled := enabled }
    | none => .error (lit "logging.level must be one of DEBUG, INFO, WARNING, ERROR, OFF")
  else .error (lit "unknown key \"" ++ key ++ lit "\" in [" ++ sectionName ++ lit "]")

/-- A section header with a name. -/
def Loader.openSection (s : Loader) (lineNo : UInt32) (name : Bytes) : Loader :=
  -- the section stays what it was before this header
  if name ∈ s.seenSections then s.add lineNo (lit "duplicate section [" ++ name ++ lit "]")
  else
    let s := { s with seenSections := s.seenSections ++ [name] }
    let s :=
      if name ∉ knownSections then s.add lineNo (lit "unknown section [" ++ name ++ lit "]")
      else s
    { s with sectionName := name }

/-- A line that begins with `[`. -/
def Loader.readHeader (s : Loader) (lineNo : UInt32) (line : Bytes) : Loader :=
  if line.length < 3 ∨ line.getLast? ≠ some 0x5D then
    s.add lineNo (lit "malformed section header")
  else
    let name := trim line.tail.dropLast
    if name = [] then s.add lineNo (lit "empty section name") else s.openSection lineNo name

/-- A line `key = value`, split at its first `=`. -/
def Loader.readEntry (s : Loader) (lineNo : UInt32) (key value : Bytes) : Loader :=
  if s.sectionName = [] then s.add lineNo (lit "entry before any section header")
  else if key = [] then s.add lineNo (lit "empty key")
  else
    let qualified := s.sectionName ++ lit "." ++ key
    if qualified ∈ s.seenKeys then
      s.add lineNo (lit "duplicate key \"" ++ key ++ lit "\" in [" ++ s.sectionName ++ lit "]")
    else
      let s := { s with seenKeys := s.seenKeys ++ [qualified] }
      match assign s.cfg s.sectionName key value with
      | .ok cfg => { s with cfg }
      | .error message => s.add lineNo message

/-- One round of the loop. -/
def Loader.readLine (s : Loader) (lineNo : UInt32) (raw : Bytes) : Loader :=
  let line := trim raw
  if line = [] ∨ line.head? = some 0x3B ∨ line.head? = some 0x23 then s
  else if line.head? = some 0x5B then s.readHeader lineNo line
  else if 0x3D ∉ line then s.add lineNo (lit "expected 'key = value' or section header")
  else
    s.readEntry lineNo (trim (line.takeWhile (· ≠ 0x3D)))
      (trim (line.dropWhile (· ≠ 0x3D)).tail)

/-- The loop, from a line number on; `line_no` is an `unsigned`. -/
def Loader.readLines (s : Loader) (lineNo : UInt32) : List Bytes → Loader
  | [] => s
  | raw :: lines => (s.readLine lineNo raw).readLines (lineNo + 1) lines

def readText (text : Bytes) : Loader := Loader.readLines {} 1 (getlines text)

/-! ## The result -/

/-- The issues that are not tied to a line. -/
def Config.wholeIssues (cfg : Config) (origin : Bytes) : List Bytes :=
  (if cfg.storageDatabasePath = [] then
    [origin ++ lit ": missing required parameter storage.database_path"] else []) ++
  (if cfg.retryBackoffInitialMs > cfg.retryBackoffMaxMs then
    [origin ++ lit ": retry.backoff_initial_ms (" ++ decimal cfg.retryBackoffInitialMs ++
      lit ") must not exceed retry.backoff_max_ms (" ++ decimal cfg.retryBackoffMaxMs ++
      lit ")"] else [])

structure Loaded where
  ok : Bool
  out : Config
  error : Bytes
deriving DecidableEq

/-- `load_config_from_string`, with what its two out-parameters hold afterwards. -/
def loadConfigFromString (text origin : Bytes) (out : Config) : Loaded :=
  let s := readText text
  let issues := s.issues.map (Issue.text origin) ++ s.cfg.wholeIssues origin
  if issues ≠ [] then ⟨false, out, joined issues⟩ else ⟨true, s.cfg, []⟩

example :
    loadConfigFromString (lit "[http]\nport = 0\n; x\n[jobs\nbind = ::1") (lit "fm.ini") {} =
      ⟨false, {},
        lit "fm.ini:2: http.port must be an integer in 1..65535\n" ++
        lit "fm.ini:4: malformed section header\n" ++
        lit "fm.ini: missing required parameter storage.database_path"⟩ := by
  decide +kernel

end FileMover.Ini
