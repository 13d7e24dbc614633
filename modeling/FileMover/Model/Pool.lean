import FileMover.Framework.Guarded

/-!
# The acceptor and its handlers

`ConnectionServer` in `server.cpp`: one thread accepts connections, a fixed number of
threads serve them, and `start` and `shutdown` may follow one another any number of
times. The steps are the critical sections of the threads and the system calls that
move a descriptor.

The kernel gives the number of a closed descriptor out again, but to another
connection. Here a descriptor is the position of its connection among those that
`accept4` returned, and three fields that no code reads keep the books: how many were
returned, how many of them before the last `start`, and which ones were closed.

`start` is one step: no `shutdown` comes between its critical section and the threads
that it creates. A second `shutdown` finds the server stopped and returns.
-/

namespace FileMover.Server

abbrev Descriptor := Nat

inductive Acceptor
  /-- There is no such thread. -/
  | absent
  | polling
  /-- `accept4` has returned it, and the pool has not been asked. -/
  | deciding (conn : Descriptor)
  /-- Refused, and not closed yet. -/
  | refusing (conn : Descriptor)
  | returned
deriving DecidableEq, Repr

inductive Handler
  | waiting
  | serving (conn : Descriptor)
  /-- Has closed its connection, and has not given its slot back. -/
  | closed
  | returned
deriving DecidableEq, Repr

structure Pool where
  /-- The listening socket is open. -/
  listening : Bool := false
  queued : List Descriptor := []
  idle : Nat := 0
  stopping : Bool := false
  running : Bool := false
  served : Nat := 0
  rejected : Nat := 0
  acceptor : Acceptor := .absent
  handlers : List Handler := []
  /-- A `shutdown` that found the server running has not returned. -/
  shutting : Bool := false
  /-- `options.handlers` of the last `start`; zero before the first. -/
  configured : Nat := 0
  accepted : Nat := 0
  /-- How many were accepted before the last `start`. -/
  earlier : Nat := 0
  /-- The calls of `close` on connections, the last one first. -/
  closes : List Descriptor := []
deriving DecidableEq, Repr

inductive PoolEvent
  /-- `start`. `ready` says that its other arguments are in order, the address can be
  bound and the pair of sockets can be had. -/
  | start (handlers : Nat) (ready : Bool)
  /-- `shutdown` up to its first unlock. -/
  | stop
  /-- The threads have been joined; `shutdown` tidies up and returns. -/
  | finish
  | accept
  /-- The acceptor leaves its loop: it was woken, or `poll` failed. -/
  | quit
  | decide
  | refuse
  | take (h : Nat)
  | close (h : Nat)
  | giveBack (h : Nat)
  /-- A handler leaves its loop. -/
  | leave (h : Nat)
deriving Repr

namespace Pool

def setHandler (s : Pool) (h : Nat) (handler : Handler) : Pool :=
  { s with handlers := s.handlers.set h handler }

def act (s : Pool) : PoolEvent → Option Pool
  | .start handlers ready =>
      if s.running then some s
      else if handlers = 0 then some s
      else if s.listening || !ready then some s
      else some { s with
        listening := true
        configured := handlers
        idle := handlers
        stopping := false
        running := true
        served := 0
        rejected := 0
        handlers := s.handlers ++ List.replicate handlers .waiting
        acceptor := .polling
        earlier := s.accepted }
  | .stop =>
      if s.running then
        some { s with stopping := true, running := false, shutting := true }
      else some s
  | .finish =>
      if s.shutting ∧ (s.acceptor = .returned ∨ s.acceptor = .absent) ∧
          ∀ handler ∈ s.handlers, handler = .returned then
        some { s with
          listening := false
          acceptor := .absent
          handlers := []
          queued := []
          closes := s.queued.reverse ++ s.closes
          shutting := false }
      else none
  | .accept =>
      if s.acceptor = .polling then
        some { s with acceptor := .deciding s.accepted, accepted := s.accepted + 1 }
      else none
  | .quit =>
      if s.acceptor = .polling then some { s with acceptor := .returned } else none
  | .decide =>
      match s.acceptor with
      | .deciding conn =>
          if s.stopping = false ∧ 0 < s.idle then
            some { s with
              idle := s.idle - 1
              queued := s.queued ++ [conn]
              served := s.served + 1
              acceptor := .polling }
          else some { s with rejected := s.rejected + 1, acceptor := .refusing conn }
      | _ => none
  | .refuse =>
      match s.acceptor with
      | .refusing conn => some { s with closes := conn :: s.closes, acceptor := .polling }
      | _ => none
  | .take h =>
      match s.handlers[h]?, s.queued with
      | some .waiting, conn :: rest =>
          some { s.setHandler h (.serving conn) with queued := rest }
      | _, _ => none
  | .close h =>
      match s.handlers[h]? with
      | some (.serving conn) => some { s.setHandler h .closed with closes := conn :: s.closes }
      | _ => none
  | .giveBack h =>
      match s.handlers[h]? with
      | some .closed => some { s.setHandler h .waiting with idle := s.idle + 1 }
      | _ => none
  | .leave h =>
      if s.handlers[h]? = some .waiting ∧ s.queued = [] ∧ s.stopping = true then
        some (s.setHandler h .returned)
      else none

end Pool

end FileMover.Server
