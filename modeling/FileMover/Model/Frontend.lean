import FileMover.Model.Router

/-!
# Handlers in front of the manager

A handler takes a request that came in on a connection, routes it, and waits for
the manager where the route needs it. The handlers are threads of the `System`;
what is kept beside it is the request that each of them is answering and the
`job_id` that the answer will name.

The submission of a request takes its id from the sequence in the store first.
Which number that is plays no role here, so it is any number.
-/

namespace FileMover

/-- The statement of `next_sequence` that failed. -/
inductive SequenceFault
  | beginning
  | bumping
  | preparing
  | noResult
  | committing
deriving DecidableEq, Repr

def SequenceFault.what : SequenceFault → Bytes
  | .beginning => lit "beginning sequence bump"
  | .bumping => lit "bumping sequence"
  | .preparing => lit "preparing 'SELECT next FROM job_sequence WHERE id = 1;'"
  | .noResult => lit "no result from 'SELECT next FROM job_sequence WHERE id = 1;'"
  | .committing => lit "committing sequence bump"

def sequenceId (sequence : Nat) : Bytes := lit "job-" ++ decimal sequence

inductive Handler
  | free
  /-- The reply is known, and the manager is not needed for it any more. -/
  | answered (response : Http.Response)
  /-- `submit` has found the manager running and asks for a sequence number. -/
  | allocating (request : Http.Request)
  /-- A command is under way or has returned; `jobId` is what it sets on success. -/
  | asking (request : Http.Request) (jobId : Bytes)
deriving DecidableEq

namespace Handler

def mayBegin : Handler → Bool
  | .allocating _ => false
  | _ => true

/-- `retry` settles on a candidate. -/
def follow (thread : Thread) : Handler → Handler
  | .asking request jobId =>
      match thread with
      | .retryRecords candidate _ _ => .asking request candidate
      | _ => .asking request jobId
  | handler => handler

end Handler

structure Frontend where
  system : System
  handlers : Nat → Handler
  /-- The submissions that went through, with the ids they got. -/
  accepted : List (Bytes × Http.Request)

inductive FrontendEvent
  /-- A step of the manager, or a command of some other caller. -/
  | manager (event : ManagerEvent)
  | route (n : Nat) (request : Http.Request) (nowMs : Int)
  | allocate (n : Nat) (sequence : Nat) (nowMs : Int)
  | allocateFails (n : Nat) (fault : SequenceFault) (code : SqliteCode)

/-- The thread that begins a command with this event. -/
def ManagerEvent.begins : ManagerEvent → Option Nat
  | .submit n _ _ _ | .pause n _ | .resume n _ | .cancel n _ | .retry n _ _ => some n
  | _ => none

namespace Frontend

def setHandler (f : Frontend) (n : Nat) (handler : Handler) : Frontend :=
  { f with handlers := Function.update f.handlers n handler }

/-- The submission that an event publishes. -/
def publishing (f : Frontend) : ManagerEvent → List (Bytes × Http.Request)
  | .proceed n =>
      match f.system.threads n, f.handlers n with
      | .submitPublishes id _ (.ok _), .asking request _ => [(id, request)]
      | _, _ => []
  | _ => []

/-- The handlers after a step that took the system to `s`. -/
def following (f : Frontend) (event : ManagerEvent) (s : System) (k : Nat) : Handler :=
  if event.begins = some k then .free else (f.handlers k).follow (s.threads k)

/-- A handler begins a command. -/
def ask (f : Frontend) (n : Nat) (event : ManagerEvent) (request : Http.Request)
    (jobId : Bytes) : Option Frontend :=
  (f.system.act event).map fun s => { f with system := s }.setHandler n (.asking request jobId)

/-- What becomes of a request when the manager answers its command like this. -/
def answer (request : Http.Request) (reply : CommandReply) : Http.Response :=
  respond (fun _ => reply) request

def route (f : Frontend) (n : Nat) (request : Http.Request) (nowMs : Int) : Option Frontend :=
  match routeRequest request with
  | .reply response => some (f.setHandler n (.answered response))
  | .command (.submit _) _ =>
      if f.system.manager.running = false then
        some (f.setHandler n (.answered
          (answer request ⟨.notRunning, [], Manager.notRunning.2⟩)))
      else some (f.setHandler n (.allocating request))
  | .command (.pause id) _ => f.ask n (.pause n id) request []
  | .command (.resume id) _ => f.ask n (.resume n id) request []
  | .command (.cancel id) _ => f.ask n (.cancel n id) request []
  | .command (.retry id) _ => f.ask n (.retry n id nowMs) request []

def act (f : Frontend) : FrontendEvent → Option Frontend
  | .manager event =>
      if (event.begins.all fun n => (f.handlers n).mayBegin) = true then
        (f.system.act event).map fun s =>
          { system := s
            handlers := f.following event s
            accepted := f.accepted ++ f.publishing event }
      else none
  | .route n request nowMs =>
      if ((f.system.threads n).isFree && (f.handlers n).mayBegin) = true then
        f.route n request nowMs
      else none
  | .allocate n sequence nowMs =>
      match f.handlers n with
      | .allocating request =>
          match commandOf request with
          | some (.submit move) =>
              f.ask n (.submit n (sequenceId sequence) move nowMs) request (sequenceId sequence)
          | _ => none
      | _ => none
  | .allocateFails n fault code =>
      match f.handlers n with
      | .allocating request =>
          some (f.setHandler n (.answered
            (answer request ⟨.storeError, [], storeFail fault.what code⟩)))
      | _ => none

/-- The reply of a handler, once it is known. -/
def reply (f : Frontend) (n : Nat) : Option Http.Response :=
  match f.handlers n, f.system.threads n with
  | .answered response, _ => some response
  | .asking request jobId, .returned result error =>
      some (answer request ⟨result, if result = .ok then jobId else [], error⟩)
  | _, _ => none

/-- Handlers in front of a manager that has just been started. -/
def opened (s : System) : Frontend := ⟨s, fun _ => .free, []⟩

end Frontend

/-! ## What a step does to a thread in a command -/

/-- A command begins in one thread; the others stay where they are. -/
theorem System.begins_others {s t : System} {event : ManagerEvent} {n k : Nat}
    (h : s.act event = some t) (hbegins : event.begins = some n) (hk : k ≠ n) :
    t.threads k = s.threads k := by
  have hactor : event.actor ≠ some k := by
    rintro hactor
    cases event <;> cases hbegins <;> exact hk (Option.some.inj hactor).symm
  refine (systemStep h).others hactor ?_
  rintro workers rfl
  cases hbegins

/-- A worker, whatever it is doing. -/
def Thread.isWorker : Thread → Bool
  | .waiting | .exited | .working _ _ => true
  | _ => false

/-- A thread that does not begin a command with this event stays where it is, works,
gets the store mutex, gets a reply, or goes on after a stretch of calls. -/
theorem System.continues {s t : System} {event : ManagerEvent} {k : Nat}
    (h : s.act event = some t) (hbegins : event.begins ≠ some k) :
    t.threads k = s.threads k ∨ (t.threads k).isWorker = true ∨
      (s.threads k).locked = some (t.threads k) ∨
      (∃ c rest fault, Calling (s.threads k) c rest ∧
        t = { s with world := (perform c.op fault s.world).2 }.setThread k
          (rest (perform c.op fault s.world).1)) ∨
      event = .proceed k ∧ s.proceed k = some t := by
  by_cases hactor : event.actor = some k
  · cases event with
    | submit | pause | resume | cancel | retry => exact absurd hactor hbegins
    | pump | setStrategy | shutdown | start => cases hactor
    | pickUp n nowMs =>
        cases hactor
        simp only [System.act] at h
        split at h
        · cases h
          rw [threads_setThread_self]
          exact .inr (.inl rfl)
        · cases h
    | exit n =>
        cases hactor
        simp only [System.act] at h
        split at h
        · split at h
          · cases h
            rw [threads_setThread_self]
            exact .inr (.inl rfl)
          · cases h
        · cases h
    | lock n =>
        cases hactor
        simp only [System.act] at h
        split at h
        · rename_i hlocked _
          cases h
          rw [threads_setThread_self]
          exact .inr (.inr (.inl hlocked))
        · cases h
    | call n fault =>
        cases hactor
        simp only [System.act] at h
        split at h
        · rename_i hnext
          cases h
          exact .inr (.inr (.inr (.inl ⟨_, _, fault, Thread.next_calling hnext, rfl⟩)))
        · cases h
    | proceed n =>
        cases hactor
        exact .inr (.inr (.inr (.inr ⟨rfl, h⟩)))
  · cases event with
    | start workers =>
        simp only [System.act] at h
        split at h
        · cases h
        · cases h
          simp only
          split
          · exact .inr (.inl rfl)
          · exact .inl rfl
    | _ => exact .inl ((systemStep h).others hactor (by simp))

end FileMover
