import FileMover.Framework.History
import FileMover.Model.Config
import Mathlib.Data.Fintype.Basic

/-!
# The documented file

What a configuration file is by the schema: which line is in order after the lines before
it, and which value a key has. Two things are left open, how an entry finds its section and
what a value denotes. The documented reading settles them by the nearest section header and
by the whole value.
-/

namespace FileMover.Ini

open Framework

/-! ## Keys and their values -/

inductive Key
  | bind
  | port
  | maxBodyBytes
  | workers
  | databasePath
  | maxAttempts
  | backoffInitialMs
  | backoffMaxMs
  | level
deriving DecidableEq

namespace Key

def all : List Key :=
  [.bind, .port, .maxBodyBytes, .workers, .databasePath, .maxAttempts, .backoffInitialMs,
    .backoffMaxMs, .level]

instance : Fintype Key where
  elems := ⟨all, by decide⟩
  complete key := by cases key <;> decide

def header : Key → Bytes
  | .bind | .port | .maxBodyBytes => lit "http"
  | .workers => lit "jobs"
  | .databasePath => lit "storage"
  | .maxAttempts | .backoffInitialMs | .backoffMaxMs => lit "retry"
  | .level => lit "logging"

def name : Key → Bytes
  | .bind => lit "bind"
  | .port => lit "port"
  | .maxBodyBytes => lit "max_body_bytes"
  | .workers => lit "workers"
  | .databasePath => lit "database_path"
  | .maxAttempts => lit "max_attempts"
  | .backoffInitialMs => lit "backoff_initial_ms"
  | .backoffMaxMs => lit "backoff_max_ms"
  | .level => lit "level"

/-- The range of a key with an integer value. -/
def range : Key → Option (Nat × Nat)
  | .port => some (1, 65535)
  | .maxBodyBytes => some (1, 16777216)
  | .workers => some (1, 64)
  | .maxAttempts => some (1, 100)
  | .backoffInitialMs | .backoffMaxMs => some (1, 3600000)
  | .bind | .databasePath | .level => none

def IsInteger (key : Key) : Prop := key.range.isSome = true

instance : DecidablePred IsInteger := fun key =>
  inferInstanceAs (Decidable (key.range.isSome = true))

end Key

inductive Value
  | text (s : Bytes)
  | number (n : Nat)
  | level (severity : EventSeverity) (enabled : Bool)
deriving DecidableEq

/-- The levels of the log, in capitals. -/
def levels : List (Bytes × Value) :=
  [(lit "DEBUG", .level .debug true), (lit "INFO", .level .info true),
    (lit "WARNING", .level .warning true), (lit "ERROR", .level .error true),
    (lit "OFF", .level .info false)]

/-- What a value says for a key; there is nothing if it is not valid there. -/
def Key.denotes : Key → Bytes → Option Value
  | .bind, value =>
      if value ≠ [] ∧ ∀ b ∈ value, b ≠ 0x20 ∧ b ≠ 0x09 then some (.text value) else none
  | .databasePath, value => if value ≠ [] ∧ 0 ∉ value then some (.text value) else none
  | .level, value => levels.lookup (Log.upper value)
  | key, value =>
      match key.range with
      | some (least, greatest) =>
          if value ≠ [] ∧ (∀ b ∈ value, isDigit b) ∧ least ≤ digitsValue value ∧
              digitsValue value ≤ greatest then
            some (.number (digitsValue value))
          else none
      | none => none

/-- An integer is read as far as its first NUL. -/
def Key.denotesUpToNul (key : Key) (value : Bytes) : Option Value :=
  key.denotes (if key.IsInteger then cstr value else value)

def Config.get (cfg : Config) : Key → Value
  | .bind => .text cfg.httpBind
  | .port => .number cfg.httpPort
  | .maxBodyBytes => .number cfg.httpMaxBodyBytes
  | .workers => .number cfg.jobsWorkers
  | .databasePath => .text cfg.storageDatabasePath
  | .maxAttempts => .number cfg.retryMaxAttempts
  | .backoffInitialMs => .number cfg.retryBackoffInitialMs
  | .backoffMaxMs => .number cfg.retryBackoffMaxMs
  | .level => .level cfg.loggingLevel cfg.loggingEnabled

/-- A configuration is the values of its keys. -/
theorem Config.ext_get {cfg cfg' : Config} (h : ∀ key, cfg.get key = cfg'.get key) :
    cfg = cfg' := by
  have hlevel := h .level
  injection h .bind with hbind
  injection h .port with hport
  injection h .maxBodyBytes with hbody
  injection h .workers with hworkers
  injection h .databasePath with hpath
  injection h .maxAttempts with hattempts
  injection h .backoffInitialMs with hinitial
  injection h .backoffMaxMs with hmax
  injection hlevel with hseverity henabled
  cases cfg
  cases cfg'
  simp_all

/-! ## Lines -/

inductive Line
  | skip
  | header (name : Bytes)
  | entry (key value : Bytes)
  /-- Neither of these. -/
  | malformed
deriving DecidableEq

def Line.ofBytes (raw : Bytes) : Line :=
  match trim raw with
  | [] => .skip
  | b :: rest =>
      if b = 0x3B ∨ b = 0x23 then .skip
      else if b = 0x5B then
        if rest.getLast? = some 0x5D ∧ trim rest.dropLast ≠ [] then .header (trim rest.dropLast)
        else .malformed
      else
        let key := trim ((b :: rest).takeWhile (· ≠ 0x3D))
        if 0x3D ∈ b :: rest ∧ key ≠ [] then
          .entry key (trim ((b :: rest).dropWhile (· ≠ 0x3D)).tail)
        else .malformed

/-- The lines of a text. -/
def linesOf (text : Bytes) : List Line := (text.splitOn 0x0A).map Line.ofBytes

def Line.header? : Line → Option Bytes
  | .header name => some name
  | _ => none

def headers (lines : List Line) : List Bytes := lines.filterMap Line.header?

/-- The nearest header. -/
def nearest (lines : List Line) : Option Bytes := (headers lines).getLast?

/-- The nearest header that is not a repetition of an earlier one. -/
def nearestNew (lines : List Line) : Option Bytes := (headers lines).eraseDups.getLast?

/-! ## Readings -/

/-- How an entry finds its section, and what a value says. -/
structure Reading where
  sectionOf : List Line → Option Bytes
  denotes : Key → Bytes → Option Value

def documented : Reading := ⟨nearest, Key.denotes⟩

structure Given where
  line : Nat
  header : Bytes
  name : Bytes
  value : Bytes
deriving DecidableEq

def Given.Of (given : Given) (key : Key) : Prop :=
  given.header = key.header ∧ given.name = key.name

instance (given : Given) (key : Key) : Decidable (given.Of key) :=
  inferInstanceAs (Decidable (_ ∧ _))

namespace Reading

variable (reading : Reading)

/-- The entry on a line, with its section. -/
def givenAt (past : List Line) : Line → Option Given
  | .entry key value => (reading.sectionOf past).map fun header =>
      ⟨past.length + 1, header, key, value⟩
  | _ => none

/-- The entries, with their sections. -/
def given (lines : List Line) : List Given :=
  (withPast lines).filterMap fun item => reading.givenAt item.1 item.2

/-- A line is in order after the lines before it: blank or a comment, a known section that
is new, or a known key that is new and has a valid value. -/
def InOrder (past : List Line) : Line → Prop
  | .skip => True
  | .header name => name ∈ knownSections ∧ name ∉ headers past
  | .entry name value => ∃ key : Key, reading.sectionOf past = some key.header ∧
      name = key.name ∧ (reading.denotes key value).isSome = true ∧
      ∀ given ∈ reading.given past, ¬ given.Of key
  | .malformed => False

instance (past : List Line) : DecidablePred (reading.InOrder past)
  | .skip => .isTrue trivial
  | .header _ => inferInstanceAs (Decidable (_ ∧ _))
  | .entry _ _ => inferInstanceAs (Decidable (∃ _, _))
  | .malformed => .isFalse id

/-- The numbers of the lines that are not in order, counted from 1. -/
def faulty (lines : List Line) : List Nat :=
  ((withPast lines).filter fun item => ¬ reading.InOrder item.1 item.2).map
    fun item => item.1.length + 1

def firstGiven (lines : List Line) (key : Key) : Option Given :=
  (reading.given lines).find? fun given => given.Of key

/-- The value of a key: the given one if it is valid, else the default. -/
def valueOf (lines : List Line) (key : Key) : Value :=
  ((reading.firstGiven lines key).bind fun given => reading.denotes key given.value).getD
    (({} : Config).get key)

/-- The file is as the schema wants it. -/
structure Accepts (lines : List Line) : Prop where
  inOrder : ∀ item ∈ withPast lines, reading.InOrder item.1 item.2
  path : ∃ given ∈ reading.given lines, given.Of .databasePath
  backoff : ∃ initial max, reading.valueOf lines .backoffInitialMs = .number initial ∧
    reading.valueOf lines .backoffMaxMs = .number max ∧ initial ≤ max

end Reading

/-! ## One line more -/

theorem Given.Of.inj {given : Given} {key key' : Key} (h : given.Of key) (h' : given.Of key') :
    key = key' := by
  have hname : ∀ key key' : Key, key.name = key'.name → key = key' := by decide
  exact hname key key' (h.2.symm.trans h'.2)

theorem headers_concat (past : List Line) (line : Line) :
    headers (past ++ [line]) = headers past ++ line.header?.toList := by
  rw [headers, List.filterMap_append]
  cases line <;> rfl

theorem eraseDups_concat_of_mem {names : List Bytes} {name : Bytes} (h : name ∈ names) :
    (names ++ [name]).eraseDups = names.eraseDups := by
  rw [List.eraseDups_append, List.removeAll, List.filter_cons_of_neg (by simpa using h)]
  exact List.append_nil _

theorem eraseDups_concat_of_notMem {names : List Bytes} {name : Bytes} (h : name ∉ names) :
    (names ++ [name]).eraseDups = names.eraseDups ++ [name] := by
  rw [List.eraseDups_append, List.removeAll, List.filter_cons_of_pos (by simpa using h)]
  rfl

namespace Reading

variable (reading : Reading)

theorem given_concat (past : List Line) (line : Line) :
    reading.given (past ++ [line]) =
      reading.given past ++ (reading.givenAt past line).toList := by
  rw [given, withPast_concat, List.filterMap_append]
  congr 1

theorem firstGiven_concat (past : List Line) (line : Line) (key : Key) :
    reading.firstGiven (past ++ [line]) key =
      (reading.firstGiven past key).or
        ((reading.givenAt past line).filter fun given => given.Of key) := by
  rw [firstGiven, given_concat, List.find?_append]
  congr 1
  cases reading.givenAt past line with
  | none => rfl
  | some given => by_cases h : given.Of key <;> simp [h, Option.filter]

theorem firstGiven_eq_none {past : List Line} {key : Key} :
    reading.firstGiven past key = none ↔ ∀ given ∈ reading.given past, ¬ given.Of key := by
  simp [firstGiven]

theorem firstGiven_of {lines : List Line} {key : Key} {given : Given}
    (h : reading.firstGiven lines key = some given) : given.Of key := by
  simpa using List.find?_some h

/-- An entry is in order if it is the first that gives a known key, and its value is
valid. -/
theorem inOrder_entry {past : List Line} {name value : Bytes} :
    reading.InOrder past (.entry name value) ↔
      ∃ (given : Given) (key : Key), reading.givenAt past (.entry name value) = some given ∧
        given.Of key ∧ reading.firstGiven past key = none ∧
        (reading.denotes key value).isSome = true := by
  constructor
  · rintro ⟨key, hsection, rfl, hvalid, hnew⟩
    refine ⟨⟨past.length + 1, key.header, key.name, value⟩, key, ?_, ⟨rfl, rfl⟩,
      (reading.firstGiven_eq_none).mpr hnew, hvalid⟩
    rw [givenAt, hsection]
    rfl
  · rintro ⟨given, key, hgiven, hof, hnew, hvalid⟩
    obtain ⟨header, hsection, rfl⟩ := Option.map_eq_some_iff.mp hgiven
    exact ⟨key, hsection.trans (congrArg _ hof.1), hof.2, hvalid,
      (reading.firstGiven_eq_none).mp hnew⟩

end Reading

end FileMover.Ini
