import FileMover.Framework.Program
import FileMover.Model.Database

/-!
# Opening the store

`JobStore::open` on any number of connections to one database file, statement by
statement. The schema is made inside a transaction, of which the other connections see
nothing before it commits; a connection that closes or dies takes its transaction with it.

A `PRAGMA` that SQLite does not understand, or will not obey, is accepted like any other.
That is one of the ways in which a statement may turn out here, and the reason why the
source reads every setting back.
-/

namespace FileMover.Store.Opening

open Framework

/-! ## The file -/

/-- What a database file holds: `user_version`, and the tables that exist. -/
structure Contents where
  version : Int
  jobs : Option Database
  /-- The table `job_sequence`, and `next` of its row. -/
  sequence : Option (Option Int)

structure File where
  contents : Contents
  wal : Bool
  /-- What `PRAGMA integrity_check` finds. -/
  verdict : Bytes

/-- `sqlite3_open_v2` creates an empty file. -/
def emptyFile : File := ⟨⟨0, none, none⟩, false, lit "ok"⟩

structure Handle where
  foreignKeys : Int
  synchronous : Int
  /-- What a transaction that is open has made of the contents. -/
  transaction : Option Contents

structure Disk where
  file : Option File
  handles : Nat → Option Handle
  /-- The connection that has the write lock. -/
  writer : Option Nat

def kSchemaVersion : Int := 1

/-- The statements of `kSchemaSql`: the table of jobs, its index, the table of the counter
and its row. None of them replaces what is there. -/
def kSchemaSql : List (Contents → Contents) :=
  [fun c => { c with jobs := some (c.jobs.getD ∅) },
    id,
    fun c => { c with sequence := some (c.sequence.getD none) },
    fun c => { c with sequence := c.sequence.map fun row => some (row.getD 0) }]

def runSchema (done : Nat) (c : Contents) : Contents :=
  (kSchemaSql.take done).foldl (fun c statement => statement c) c

/-! ## The calls -/

inductive TextQuery
  | integrityCheck
  | journalMode

inductive IntQuery
  | synchronous
  | foreignKeys
  | userVersion

inductive Statement
  | foreignKeysOn
  | journalModeWal
  | synchronousFull
  | beginImmediate
  | schema
  | setVersion
  | commit
  | rollback

def Statement.isSetting : Statement → Bool
  | .foreignKeysOn | .journalModeWal | .synchronousFull => true
  | _ => false

inductive SqlOp
  | stat
  | openHandle
  | text (query : TextQuery)
  | int (query : IntQuery)
  | exec (statement : Statement)
  | close

/-- The replies. A failed `sqlite3_open_v2` may or may not leave a handle behind. -/
abbrev SqlReply : SqlOp → Type
  | .stat => Bool
  | .openHandle => Except (Bool × Bytes) Unit
  | .text _ => Except Bytes Bytes
  | .int _ => Except Bytes Int
  | .exec _ => Except Bytes Unit
  | .close => Unit

inductive SqlFault
  /-- A failure with this message, after so many parts of the call. -/
  | fails (message : Bytes) (done : Nat)
  /-- Accepted without any effect. -/
  | ignored

def TextQuery.sql : TextQuery → Bytes
  | .integrityCheck => lit "PRAGMA integrity_check;"
  | .journalMode => lit "PRAGMA journal_mode;"

def IntQuery.sql : IntQuery → Bytes
  | .synchronous => lit "PRAGMA synchronous;"
  | .foreignKeys => lit "PRAGMA foreign_keys;"
  | .userVersion => lit "PRAGMA user_version;"

/-- `query_text` and `query_int`: the statement cannot be prepared, or has no row. -/
def queryFailed (sql message : Bytes) (done : Nat) : Bytes :=
  if done = 0 then lit "store: preparing '" ++ sql ++ lit "': " ++ message
  else lit "store: no result from '" ++ sql ++ lit "': " ++ message

namespace Disk

def setHandle (d : Disk) (n : Nat) (h : Option Handle) : Disk :=
  { d with handles := Function.update d.handles n h }

/-- What a connection reads: its own transaction, or the file. -/
def contents (d : Disk) (n : Nat) : Option Contents :=
  ((d.handles n).bind (·.transaction)) <|> d.file.map (·.contents)

/-- A statement of a transaction that is open. -/
def write (d : Disk) (n : Nat) (change : Contents → Contents) : Disk :=
  match d.handles n with
  | some h => d.setHandle n (some { h with transaction := h.transaction.map change })
  | none => d

/-- The connection has no transaction any more, and the file holds this. -/
def release (d : Disk) (n : Nat) : Disk :=
  { d with
    handles := Function.update d.handles n
      ((d.handles n).map fun h => { h with transaction := none })
    writer := if d.writer = some n then none else d.writer }

def commit (d : Disk) (n : Nat) : Disk :=
  match (d.handles n).bind (·.transaction) with
  | some c => { d.release n with file := d.file.map fun f => { f with contents := c } }
  | none => d

/-- `sqlite3_close`. -/
def close (d : Disk) (n : Nat) : Disk := (d.release n).setHandle n none

/-- What a connection in use does: the rows change, the version and the tables stay. -/
def setRows (d : Disk) (jobs : Database) (next : Int) : Disk :=
  { d with file := d.file.map fun f =>
      { f with contents := ⟨f.contents.version, some jobs, some (some next)⟩ } }

/-- The statement as asked. -/
def exec (d : Disk) (n : Nat) : Statement → Except Bytes Unit × Disk
  | .foreignKeysOn =>
      (.ok (), d.setHandle n ((d.handles n).map fun h => { h with foreignKeys := 1 }))
  | .journalModeWal => (.ok (), { d with file := d.file.map fun f => { f with wal := true } })
  | .synchronousFull =>
      (.ok (), d.setHandle n ((d.handles n).map fun h => { h with synchronous := 2 }))
  | .beginImmediate =>
      match d.writer with
      | some _ => (.error (lit "database is locked"), d)
      | none =>
          (.ok (), { d.setHandle n ((d.handles n).map fun h =>
            { h with transaction := d.file.map (·.contents) }) with writer := some n })
  | .schema => (.ok (), d.write n (runSchema kSchemaSql.length))
  | .setVersion => (.ok (), d.write n fun c => { c with version := kSchemaVersion })
  | .commit => (.ok (), d.commit n)
  | .rollback => (.ok (), d.release n)

/-- What a statement that fails may have done: `sqlite3_exec` runs the statements of the
schema one after the other, and a transaction may be rolled back of its own accord. -/
def failed (d : Disk) (n done : Nat) : Statement → Disk
  | .schema => d.write n (runSchema done)
  | .setVersion | .commit => if done = 0 then d else d.release n
  | _ => d

def answerText (d : Disk) : TextQuery → Bytes
  | .integrityCheck => (d.file.map (·.verdict)).getD []
  | .journalMode => if (d.file.map (·.wal)).getD false then lit "wal" else lit "delete"

def answerInt (d : Disk) (n : Nat) : IntQuery → Int
  | .synchronous => ((d.handles n).map (·.synchronous)).getD 0
  | .foreignKeys => ((d.handles n).map (·.foreignKeys)).getD 0
  | .userVersion => ((d.contents n).map (·.version)).getD 0

def perform (n : Nat) (op : SqlOp) (fault : Option SqlFault) (d : Disk) : SqlReply op × Disk :=
  match op, fault with
  | .stat, none => (d.file.isSome, d)
  | .stat, some _ => (false, d)
  | .openHandle, some (.fails message 0) => (.error (false, message), d.setHandle n none)
  | .openHandle, some (.fails message _) =>
      (.error (true, message), d.setHandle n (some ⟨0, 0, none⟩))
  | .openHandle, _ =>
      (.ok (), { d.setHandle n (some ⟨0, 0, none⟩) with file := some (d.file.getD emptyFile) })
  | .text query, some (.fails message done) => (.error (queryFailed query.sql message done), d)
  | .text query, _ => (.ok (d.answerText query), d)
  | .int query, some (.fails message done) => (.error (queryFailed query.sql message done), d)
  | .int query, _ => (.ok (d.answerInt n query), d)
  | .exec statement, some (.fails message done) => (.error message, d.failed n done statement)
  | .exec statement, some .ignored =>
      if statement.isSetting then (.ok (), d) else d.exec n statement
  | .exec statement, none => d.exec n statement
  | .close, _ => ((), d.close n)

end Disk

def sqlite (n : Nat) : Machine SqlOp SqlReply SqlFault Disk where
  perform := Disk.perform n

/-! ## The code -/

abbrev OpenProg := Program SqlOp SqlReply

inductive StoreOpenResult
  | openedExisting
  | createdFresh
deriving DecidableEq, Repr

def queryText (query : TextQuery) : OpenProg (Except Bytes Bytes) :=
  Program.request (SqlOp.text query)

def queryInt (query : IntQuery) : OpenProg (Except Bytes Int) :=
  Program.request (SqlOp.int query)

/-- `exec(db, sql, what, error)`. -/
def exec (statement : Statement) (what : Bytes) : OpenProg (Except Bytes Unit) := do
  let outcome ← Program.request (SqlOp.exec statement)
  return outcome.mapError fun message => lit "store: " ++ what ++ lit ": " ++ message

/-- One step of `open` and the rest, which is not reached if the step fails. -/
def orFail {α β : Type} (first : OpenProg (Except Bytes α))
    (rest : α → OpenProg (Except Bytes β)) : OpenProg (Except Bytes β) := do
  match ← first with
  | .ok value => rest value
  | .error error => return .error error

/-- L2-JOB-012, only for a store that was already there. -/
def checkIntegrity (path : Bytes) : OpenProg (Except Bytes Unit) := do
  match ← queryText .integrityCheck with
  | .error error =>
      return .error (lit "store: '" ++ path ++
        lit "' is present but unreadable as a database (" ++ error ++
        lit ("). Refusing to start: continuing would discard the record " ++
          "of jobs whose source files may still exist."))
  | .ok verdict =>
      if verdict ≠ lit "ok" then
        return .error (lit "store: '" ++ path ++ lit "' is corrupt: " ++ verdict ++
          lit (". Refusing to start: corruption is never silently skipped " ++
            "or partially recovered."))
      else return .ok ()

/-- L2-JOB-002: the settings. -/
def configure : OpenProg (Except Bytes Unit) :=
  orFail (exec .foreignKeysOn (lit "enabling foreign keys")) fun _ =>
    orFail (exec .journalModeWal (lit "enabling WAL")) fun _ =>
      exec .synchronousFull (lit "setting synchronous=FULL")

/-- Each setting is read back. -/
def readBack : OpenProg (Except Bytes Unit) :=
  orFail (queryText .journalMode) fun journalMode =>
    if journalMode ≠ lit "wal" then
      .pure (.error (lit "store: journal_mode is '" ++ journalMode ++
        lit "', expected 'wal' (ADR-0010)"))
    else
      orFail (queryInt .synchronous) fun synchronous =>
        if synchronous ≠ 2 then
          .pure (.error (lit "store: synchronous is " ++ signedDecimal synchronous ++
            lit ", expected 2 (FULL) (ADR-0010)"))
        else
          orFail (queryInt .foreignKeys) fun foreignKeys =>
            if foreignKeys ≠ 1 then
              .pure (.error (lit "store: foreign_keys did not take effect"))
            else .pure (.ok ())

def versionMismatch (version : Int) : Bytes :=
  lit "store: database schema version " ++ signedDecimal version ++
    lit " does not match this build's version " ++ signedDecimal kSchemaVersion ++
    lit (". This is a pre-v1.0.0 build and carries no migration path: " ++
      "delete the database file and restart. Refusing to open it rather than misread it.")

/-- L2-JOB-004. Every failure is followed by a rollback whose own outcome is discarded. -/
def createSchema : OpenProg (Except Bytes Unit) := do
  let made ← orFail (exec .beginImmediate (lit "beginning schema creation")) fun _ =>
    orFail (exec .schema (lit "applying schema")) fun _ =>
      orFail (exec .setVersion (lit "recording schema version")) fun _ =>
        exec .commit (lit "committing schema creation")
  match made with
  | .ok () => return .ok ()
  | .error error =>
      let _ ← exec .rollback (lit "rolling back")
      return .error error

def ensureSchema : OpenProg (Except Bytes Unit) :=
  orFail (queryInt .userVersion) fun version =>
    if version ≠ 0 ∧ version ≠ kSchemaVersion then .pure (.error (versionMismatch version))
    else if version = 0 then createSchema
    else .pure (.ok ())

/-- What `open` does with a handle that it has got. -/
def prepare (path : Bytes) (existed : Bool) : OpenProg (Except Bytes Unit) :=
  orFail (if existed then checkIntegrity path else .pure (.ok ())) fun _ =>
    orFail configure fun _ =>
      orFail readBack fun _ => ensureSchema

def cannotOpen (path message : Bytes) : Bytes :=
  lit "store: cannot open '" ++ path ++ lit "': " ++ message

/-- The end of `open`: the handle is kept, or closed. -/
def keepOrClose (existed : Bool) : Except Bytes Unit → OpenProg (Except Bytes StoreOpenResult)
  | .ok () => return .ok (if existed then .openedExisting else .createdFresh)
  | .error error => do
      Program.request SqlOp.close
      return .error error

/-- `open` from `sqlite3_open_v2` on. -/
def openAt (path : Bytes) (existed : Bool) : OpenProg (Except Bytes StoreOpenResult) := do
  match ← Program.request SqlOp.openHandle with
  | .error (true, message) =>
      Program.request SqlOp.close
      return .error (cannotOpen path message)
  | .error (false, message) => return .error (cannotOpen path message)
  | .ok () => keepOrClose existed (← prepare path existed)

/-- `JobStore::open`. -/
def openStore (path : Bytes) : OpenProg (Except Bytes StoreOpenResult) := do
  Program.request SqlOp.close
  let existed ← Program.request SqlOp.stat
  openAt path existed

/-! ## Any number of connections -/

/-- One file and the connections to it: what is left of the `open` of each, down to its
result. -/
structure Openers where
  disk : Disk
  progs : Nat → Option (OpenProg (Except Bytes StoreOpenResult))

inductive OpenersEvent
  | begin (n : Nat) (path : Bytes)
  | call (n : Nat) (fault : Option SqlFault)
  /-- A connection that is open rewrites the rows, as one statement. -/
  | work (n : Nat) (jobs : Database) (next : Int)
  /-- A connection is closed, or its process dies at this point. -/
  | leave (n : Nat)

namespace Openers

def setProg (s : Openers) (n : Nat)
    (prog : Option (OpenProg (Except Bytes StoreOpenResult))) : Openers :=
  { s with progs := Function.update s.progs n prog }

def act (s : Openers) : OpenersEvent → Option Openers
  | .begin n path =>
      match s.progs n with
      | none => some (s.setProg n (some (openStore path)))
      | some _ => none
  | .call n fault =>
      match s.progs n with
      | some (.call op next) =>
          let (reply, disk) := (sqlite n).perform op fault s.disk
          some (({ s with disk := disk }).setProg n (some (next reply)))
      | _ => none
  | .work n jobs next =>
      match s.progs n, s.disk.writer with
      | some (.pure (.ok _)), none => some { s with disk := s.disk.setRows jobs next }
      | _, _ => none
  | .leave n =>
      match s.progs n with
      | some _ => some (({ s with disk := s.disk.close n }).setProg n none)
      | none => none

/-- Nobody has opened the file so far. -/
def quiet (file : Option File) : Openers := ⟨⟨file, fun _ => none, none⟩, fun _ => none⟩

/-- The result of an `open` that has returned. -/
def opened (s : Openers) (n : Nat) : Option (Except Bytes StoreOpenResult) :=
  match s.progs n with
  | some (.pure result) => some result
  | _ => none

end Openers

end FileMover.Store.Opening
