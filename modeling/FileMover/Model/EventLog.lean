import FileMover.Model.Reports

/-!
# The log sink

`event_log.cpp`: one event is one line. The line begins with the stamp, and what follows
may come from a file name, so control characters are escaped in it.

`gmtime_r` is the C library's; it is a parameter here.
-/

namespace FileMover.Log

/-! ## The C library -/

/-- The fields of `struct tm` that are read. -/
structure Tm where
  /-- Counted from 1900. -/
  tmYear : Int
  /-- Counted from 0. -/
  tmMon : Nat
  tmMday : Nat
  tmHour : Nat
  tmMin : Nat
  tmSec : Nat
deriving DecidableEq, Repr

/-- `gmtime_r`: there is no value if it returns 0. -/
abbrev GmtimeR := Int → Option Tm

/-- A number printed with `%0*llu`. -/
def padded (width n : Nat) : Bytes :=
  List.replicate (width - (decimal n).length) 0x30 ++ decimal n

/-- A number printed with `%0*d`: the sign takes one of the places. -/
def signedPadded (width : Nat) (n : Int) : Bytes :=
  if n < 0 then 0x2D :: padded (width - 1) n.natAbs else padded width n.natAbs

example : signedPadded 3 (-1) = lit "-01" := by decide

/-! ## Events -/

structure Event where
  type : EventType
  severity : EventSeverity
  timestampMs : Int
  jobId : Bytes
  fileId : Bytes
  detail : Bytes
deriving DecidableEq, Repr

def severityToken : EventSeverity → Bytes
  | .debug => lit "DEBUG"
  | .info => lit "INFO"
  | .warning => lit "WARNING"
  | .error => lit "ERROR"

def typeToken : EventType → Bytes
  | .serviceStarted => lit "service.started"
  | .serviceStopping => lit "service.stopping"
  | .jobSubmitted => lit "job.submitted"
  | .jobStarted => lit "job.started"
  | .jobCompleted => lit "job.completed"
  | .jobFailed => lit "job.failed"
  | .jobHaltedAfterCommit => lit "job.halted_after_commit"
  | .jobFailedExternal => lit "job.failed_external"
  | .jobRetryScheduled => lit "job.retry_scheduled"
  | .jobRetrySubmitted => lit "job.retry_submitted"
  | .jobPaused => lit "job.paused"
  | .jobResumed => lit "job.resumed"
  | .jobCancelled => lit "job.cancelled"
  | .subscriberFailed => lit "subscriber.failed"

/-! ## Lines -/

/-- A value that an operator sees, with control characters as `\xNN`. -/
def sanitize (value : Bytes) : Bytes :=
  value.flatMap fun b =>
    if b < 0x20 ∨ b = 0x7F then
      let digits := hex b.toNat
      lit "\\x" ++ List.replicate (2 - digits.length) 0x30 ++ digits
    else [b]

/-- Whole seconds and the remainder, corrected for times before the epoch. -/
def splitMs (ms : Int) : Int × Int :=
  let seconds := ms.tdiv 1000
  let remainder := ms.tmod 1000
  if remainder < 0 then (seconds - 1, remainder + 1000) else (seconds, remainder)

/-- The stamp of `format_event`. -/
def stamp (gmtimeR : GmtimeR) (ms : Int) : Bytes :=
  let (seconds, remainder) := splitMs ms
  match gmtimeR seconds with
  | some parts =>
      signedPadded 4 (parts.tmYear + 1900) ++ lit "-" ++ padded 2 (parts.tmMon + 1) ++ lit "-" ++
        padded 2 parts.tmMday ++ lit "T" ++ padded 2 parts.tmHour ++ lit ":" ++
        padded 2 parts.tmMin ++ lit ":" ++ padded 2 parts.tmSec ++ lit "." ++
        signedPadded 3 remainder ++ lit "Z"
  | none => lit "epoch_ms=" ++ signedDecimal ms

def formatEvent (gmtimeR : GmtimeR) (event : Event) : Bytes :=
  stamp gmtimeR event.timestampMs ++ lit " " ++ severityToken event.severity ++ lit " " ++
    typeToken event.type ++
    (if event.jobId ≠ [] then lit " job=" ++ sanitize event.jobId else []) ++
    (if event.fileId ≠ [] then lit " file=" ++ sanitize event.fileId else []) ++
    (if event.detail ≠ [] then lit " " ++ sanitize event.detail else [])

/-! ## Levels -/

def asciiUpper (b : UInt8) : UInt8 := if 0x61 ≤ b ∧ b ≤ 0x7A then b - 0x20 else b

def upper (text : Bytes) : Bytes := text.map asciiUpper

/-- `parse_severity` with its two out-parameters: the level, which `OFF` leaves as it was,
and whether anything is logged. -/
def parseSeverity (text : Bytes) (minimum : EventSeverity) : Option (EventSeverity × Bool) :=
  let value := upper text
  if value = lit "OFF" then some (minimum, false)
  else if value = lit "DEBUG" then some (.debug, true)
  else if value = lit "INFO" then some (.info, true)
  else if value = lit "WARNING" then some (.warning, true)
  else if value = lit "ERROR" then some (.error, true)
  else none

end FileMover.Log
