import FileMover.Framework.Guarded
import FileMover.Model.Text

/-!
# The durable sequence

`JobStore::next_sequence` on any number of connections to one database, statement by
statement. `BEGIN IMMEDIATE` takes the write lock, so one connection at a time has a
transaction and sees a value of the counter that the others do not; a crash of a
connection, and a `ROLLBACK` that goes through, throw that value away. A statement
that fails may have rolled the transaction back of its own accord, or may have left it
open.

The column `next` is a 64 bit integer. What is read of it is `sqlite3_column_int`.
-/

namespace FileMover.Store

/-! ## The counter -/

/-- The column `next`. An addition that leaves the range of 64 bits makes it a REAL,
which is then too large to be changed by adding one. -/
inductive Counter
  | integer (n : Int64)
  | real
deriving DecidableEq, Repr

/-- `next + 1`. -/
def Counter.bump : Counter → Counter
  | .integer n => if n = Int64.maxValue then .real else .integer (n + 1)
  | .real => .real

/-- `sqlite3_column_int`: the low 32 bits. A REAL is read as the largest integer. -/
def Counter.columnInt : Counter → Int32
  | .integer n => n.toInt32
  | .real => Int64.maxValue.toInt32

/-- `static_cast<std::uint64_t>(value)`. -/
def handedOut (value : Int32) : UInt64 := value.toInt64.toUInt64

/-! ## The calls -/

/-- How a statement ends. -/
inductive Outcome
  | ok
  | failed (message : Bytes) (rolledBack : Bool)
deriving DecidableEq, Repr

/-- Where a connection is in `next_sequence`. -/
inductive Point
  | idle
  | bumping
  | selecting
  | committing (value : Int32)
  | rollingBack (error : Bytes)
  /-- Committed as the `ticket`th, and not returned yet. -/
  | returning (ticket : Nat)
deriving DecidableEq, Repr

structure Sequence where
  /-- The counter that is on disk. -/
  stored : Counter
  /-- The connection that has a transaction, and the counter as it sees it. -/
  writer : Option (Nat × Counter) := none
  point : Nat → Point := fun _ => .idle
  /-- The value of every call that has committed, in the order of the commits. -/
  commits : List UInt64 := []
  /-- What the calls have returned, the last one first: an error, or the position of
  the value among the commits. -/
  answers : List (Except Bytes Nat) := []

inductive SequenceEvent
  /-- The connection is not open. -/
  | closed (c : Nat)
  | begin (c : Nat) (outcome : Outcome)
  | bump (c : Nat) (outcome : Outcome)
  /-- `prepared` says whether a failure is one of the step. -/
  | select (c : Nat) (outcome : Outcome) (prepared : Bool)
  | commit (c : Nat) (outcome : Outcome)
  | rollback (c : Nat) (ok : Bool)
  /-- The call returns its number. -/
  | handOut (c : Nat)
  /-- The process that has the connection dies, or its machine does. -/
  | crash (c : Nat)
deriving Repr

namespace Sequence

def goTo (s : Sequence) (c : Nat) (point : Point) : Sequence :=
  { s with point := Function.update s.point c point }

def answer (s : Sequence) (c : Nat) (result : Except Bytes Nat) : Sequence :=
  { s.goTo c .idle with answers := result :: s.answers }

/-- The transaction of the connection is gone, if it has one. -/
def release (s : Sequence) (c : Nat) : Sequence :=
  if s.writer.any (·.1 = c) then { s with writer := none } else s

def error (what message : Bytes) : Bytes := lit "store: " ++ what ++ lit ": " ++ message

/-- A statement of an open transaction has failed. -/
def fails (s : Sequence) (c : Nat) (what message : Bytes) (rolledBack : Bool) : Sequence :=
  (if rolledBack then s.release c else s).goTo c (.rollingBack (error what message))

def act (s : Sequence) : SequenceEvent → Option Sequence
  | .closed c =>
      if s.point c = .idle then some (s.answer c (.error (lit "store: not open"))) else none
  | .begin c outcome =>
      if s.point c = .idle then
        match outcome with
        | .ok =>
            if s.writer = none then some { s.goTo c .bumping with writer := some (c, s.stored) }
            else none
        | .failed message _ =>
            some (s.answer c (.error (error (lit "beginning sequence bump") message)))
      else none
  | .bump c outcome =>
      if s.point c = .bumping then
        match outcome, s.writer with
        | .ok, some (owner, next) =>
            if owner = c then some { s.goTo c .selecting with writer := some (c, next.bump) }
            else none
        | .ok, none => none
        | .failed message rolledBack, _ =>
            some (s.fails c (lit "bumping sequence") message rolledBack)
      else none
  | .select c outcome prepared =>
      if s.point c = .selecting then
        match outcome, s.writer with
        | .ok, some (owner, next) =>
            if owner = c then some (s.goTo c (.committing next.columnInt)) else none
        | .ok, none => none
        | .failed message rolledBack, _ =>
            let what := if prepared then lit "no result from" else lit "preparing"
            some (s.fails c (what ++ lit " 'SELECT next FROM job_sequence WHERE id = 1;'")
              message rolledBack)
      else none
  | .commit c outcome =>
      match s.point c, outcome, s.writer with
      | .committing value, .ok, some (owner, next) =>
          if owner = c then
            some { s.goTo c (.returning s.commits.length) with
              stored := next
              writer := none
              commits := s.commits ++ [handedOut value] }
          else none
      | .committing _, .failed message rolledBack, _ =>
          some (s.fails c (lit "committing sequence bump") message rolledBack)
      | _, _, _ => none
  | .rollback c ok =>
      match s.point c with
      | .rollingBack error => some ((if ok then s.release c else s).answer c (.error error))
      | _ => none
  | .handOut c =>
      match s.point c with
      | .returning ticket => some (s.answer c (.ok ticket))
      | _ => none
  | .crash c => some ((s.release c).goTo c .idle)

end Sequence

end FileMover.Store
