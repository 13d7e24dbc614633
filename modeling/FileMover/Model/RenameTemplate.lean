import FileMover.Model.EventLog

/-!
# Rename templates

`rename_template.cpp`: a template with fields in braces is expanded to the name of an
entry. The scanner looks for the next closing brace by a search.
-/

namespace FileMover.Template

open Log

structure RenameContext where
  atMs : Int
  sequence : UInt64
deriving DecidableEq, Repr

/-- The text before the last dot and the text behind it, if there is a dot. -/
def lastDot : Bytes → Option (Bytes × Bytes)
  | [] => none
  | b :: rest =>
      match lastDot rest with
      | some (front, back) => some (b :: front, back)
      | none => if b = 0x2E then some ([], rest) else none

/-- `split_name`: stem and extension. A leading dot separates nothing. -/
def splitName (name : Bytes) : Bytes × Bytes :=
  match lastDot name with
  | none => (name, [])
  | some (stem, ext) => if stem = [] then (name, []) else (stem, ext)

example : splitName (lit "a.tar.gz") = (lit "a.tar", lit "gz") := by decide

example : splitName (lit ".bashrc") = (lit ".bashrc", []) := by decide

def formatTs (gmtimeR : GmtimeR) (atMs : Int) : Bytes :=
  match gmtimeR (atMs.tdiv 1000) with
  | none => lit "INVALID-TIMESTAMP"
  | some utc =>
      signedPadded 4 (utc.tmYear + 1900) ++ padded 2 (utc.tmMon + 1) ++ padded 2 utc.tmMday ++
        lit "T" ++ padded 2 utc.tmHour ++ padded 2 utc.tmMin ++ padded 2 utc.tmSec ++ lit "." ++
        signedPadded 3 (atMs.tmod 1000)

def formatSeq (sequence : UInt64) : Bytes := padded 6 sequence.toNat

/-- What a field stands for. -/
def fieldValue (gmtimeR : GmtimeR) (sourceName : Bytes) (context : RenameContext)
    (field : Bytes) : Option Bytes :=
  if field = lit "name" then some sourceName
  else if field = lit "stem" then some (splitName sourceName).1
  else if field = lit "ext" then some (splitName sourceName).2
  else if field = lit "ts" then some (formatTs gmtimeR context.atMs)
  else if field = lit "seq" then some (formatSeq context.sequence)
  else none

def openBrace : UInt8 := 0x7B

def closeBrace : UInt8 := 0x7D

/-- The loop over the template; `result` is what has been expanded so far. -/
def expandLoop (value : Bytes → Option Bytes) (result : Bytes) (templ : Bytes) :
    Except Bytes Bytes :=
  match templ with
  | [] => .ok result
  | c :: rest =>
      if c ≠ openBrace then
        if c = closeBrace then .error (lit "stray '\x7d' in rename template")
        else expandLoop value (result ++ [c]) rest
      else
        match hclose : rest.dropWhile (· ≠ closeBrace) with
        | [] => .error (lit "unclosed '\x7b' in rename template")
        | _ :: after =>
            let field := rest.takeWhile (· ≠ closeBrace)
            match value field with
            | some expanded => expandLoop value (result ++ expanded) after
            | none =>
                .error (lit "unknown rename template field \"\x7b" ++ field ++ lit "\x7d\"")
termination_by templ.length
decreasing_by
  · exact Nat.lt_succ_self _
  · have hle := (List.dropWhile_suffix (· ≠ closeBrace) (l := rest)).length_le
    rw [hclose, List.length_cons] at hle
    exact Nat.lt_succ_of_le (Nat.le_of_succ_le hle)

/-- The result of `expand_rename_template` and its two out-parameters. -/
structure Expansion where
  accepted : Bool
  out : Bytes
  error : Bytes
deriving DecidableEq, Repr

def expandRenameTemplate (gmtimeR : GmtimeR) (templ sourceName : Bytes)
    (context : RenameContext) (out : Bytes) : Expansion :=
  match expandLoop (fieldValue gmtimeR sourceName context) [] templ with
  | .error error => ⟨false, out, error⟩
  | .ok result =>
      if result = [] ∨ result = lit "." ∨ result = lit ".." then
        ⟨false, out, lit "rename template expands to an invalid name"⟩
      else if slash ∈ result ∨ 0 ∈ result then
        ⟨false, out, lit "expanded rename target must not contain '/' or NUL"⟩
      else ⟨true, result, []⟩

end FileMover.Template
