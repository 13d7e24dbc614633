import FileMover.Model.Job
import FileMover.Model.Json

/-!
# The REST codec

`api_codec.cpp`: the submit body on the way in, jobs and errors on the way out.
-/

namespace FileMover

structure SubmitRequest where
  source : Bytes
  dest : Bytes
deriving DecidableEq, Repr

def maxPathBytes : Nat := 4096

def submitLimits : Json.Limits where
  maxDepth := 2
  maxInputBytes := 16 * 1024
  maxStringBytes := maxPathBytes
  maxMembers := 8
  maxElements := 8

/-- `require_string`. -/
def requireString (root : Json.Value) (name : String) : Except Bytes Bytes :=
  match root.find (lit name) with
  | none => .error (lit "missing required member \"" ++ lit name ++ lit "\"")
  | some (.string s) =>
      if s = [] then .error (lit "member \"" ++ lit name ++ lit "\" must not be empty")
      else if s.length > maxPathBytes then
        .error (lit "member \"" ++ lit name ++ lit "\" exceeds the maximum path length")
      else .ok s
  | some _ => .error (lit "member \"" ++ lit name ++ lit "\" must be a string")

def decodeSubmitRequest (body : Bytes) : Except Bytes SubmitRequest :=
  match Json.parse submitLimits body with
  | .error error => .error error
  | .ok (.object members) =>
      match members.find? fun member => member.1 ≠ lit "source" ∧ member.1 ≠ lit "dest" with
      | some (key, _) => .error (lit "unknown member \"" ++ Json.escape key ++ lit "\"")
      | none => do
          let source ← requireString (.object members) "source"
          let dest ← requireString (.object members) "dest"
          return ⟨source, dest⟩
  | .ok _ => .error (lit "request body must be a JSON object")

/-- `append_string_member`: what it appends. -/
def stringMember (name : String) (value : Bytes) (trailingComma : Bool) : Bytes :=
  lit "\"" ++ lit name ++ lit "\":\"" ++ Json.escape value ++ lit "\"" ++
    if trailingComma then lit "," else []

/-- `append_int_member`: what it appends. -/
def intMember (name : String) (value : Int) (trailingComma : Bool) : Bytes :=
  lit "\"" ++ lit name ++ lit "\":" ++ signedDecimal value ++ if trailingComma then lit "," else []

def toInt64Clamped (value : UInt64) : Int :=
  if value.toNat > 2 ^ 63 - 1 then 2 ^ 63 - 1 else value.toNat

def encodeJob (job : Job) : Bytes :=
  lit "\x7b" ++
    stringMember "id" job.id true ++
    stringMember "source" job.sourcePath true ++
    stringMember "dest" job.destPath true ++
    stringMember "state" job.state.toToken true ++
    intMember "created_at_ms" job.createdAtMs true ++
    intMember "updated_at_ms" job.updatedAtMs true ++
    intMember "finished_at_ms" job.finishedAtMs true ++
    intMember "bytes_total" (toInt64Clamped job.bytesTotal) true ++
    intMember "bytes_moved" (toInt64Clamped job.bytesMoved) true ++
    stringMember "error" job.error false ++
  lit "\x7d"

/-- The loop of `encode_job_list`: a comma before every job but the first. -/
def encodeJobs : List Job → Bytes
  | [] => []
  | job :: jobs => encodeJob job ++ jobs.flatMap fun job => lit "," ++ encodeJob job

def encodeJobList (jobs : List Job) : Bytes :=
  lit "\x7b\"jobs\":[" ++ encodeJobs jobs ++ lit "]\x7d"

def encodeError (message : Bytes) : Bytes :=
  lit "\x7b\"error\":\"" ++ Json.escape message ++ lit "\"\x7d"

end FileMover
