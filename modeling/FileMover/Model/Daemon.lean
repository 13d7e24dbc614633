import FileMover.Model.Config
import FileMover.Model.Events
import FileMover.Model.FsOps

/-!
# Starting and stopping the service

`service.cpp` and `singleton.cpp`: the steps of `Service::start` with the way back from each
of them, and `Service::stop`. What the system answers during a call is given with the call;
`nullptr` and a descriptor of `-1` are `none`.

The pool, the workers and the callbacks run beside these calls, but they change nothing that
is kept here.
-/

namespace FileMover.Daemon

open Ini (Config)
open Events (Subscriber)

/-- What the system answers during one `start`. -/
structure Outcomes where
  /-- `storage_path_is_local`: why a directory is not. -/
  notLocal : Bytes → Option Bytes := fun _ => none
  /-- `open_root` on the directory of the database. -/
  openRoot : Option Bytes := none
  /-- `open_lock_file`: the file, or the error. -/
  openLockFile : Except Bytes Nat := .ok 0
  /-- `flock`, if no other descriptor of this process has the lock. -/
  flock : Option Errno := none
  storeOpen : Option Bytes := none
  /-- `socket`, `bind`, `listen`: the bound port, or the error. -/
  listen : Except Bytes Nat := .ok 0
  socketpair : Option Errno := none
  watchdogIntervalMs : Nat := 0

/-- A descriptor that is open on a lock file. -/
structure LockFile where
  file : Nat
  locked : Bool
deriving DecidableEq

structure JobManager where
  address : Nat
  running : Bool := false
  storeOpen : Bool := false
  workers : Nat := 0
deriving DecidableEq

structure ConnectionServer where
  running : Bool := false
  /-- The port of the listening socket. -/
  listener : Option Nat := none
  /-- Both ends of the pair that wakes the acceptor. -/
  wake : Bool := false
  acceptor : Bool := false
  handlers : Nat := 0
deriving DecidableEq

/-- `g_dispatch`. -/
structure Dispatch where
  manager : Option Nat := none
  options : Bool := false
deriving DecidableEq

/-- What is told to others. -/
inductive Notice
  | notify (state : Bytes)
  | publish (type : EventType) (detail : Bytes) (subscribers : List Subscriber)
deriving DecidableEq

/-- `Service::Impl`, with `g_dispatch` and what of the process the calls change. -/
structure Impl where
  subscribers : List Subscriber := []
  logMinimum : EventSeverity := .info
  logEnabled : Bool := true
  /-- `fd_` of the lock. -/
  lock : Option LockFile := none
  manager : Option JobManager := none
  server : ConnectionServer := {}
  maxBodyBytes : Nat := 65536
  running : Bool := false
  /-- The thread is joinable. -/
  watchdog : Bool := false
  watchdogStop : Bool := false
  dispatch : Dispatch := {}
  /-- The open descriptors. -/
  lockFiles : List LockFile := []
  /-- The managers that have not been deleted. -/
  managers : List Nat := []
  nextAddress : Nat := 0
  /-- A joinable thread was overwritten, which ends the process. -/
  terminated : Bool := false
  notices : List Notice := []
deriving DecidableEq

/-- `log_event` with `&log_options`. -/
def logSink : Subscriber := ⟨1, 1⟩

/-! ## check_config -/

/-- The directory of a path, by its last slash, and what follows. -/
def splitPath (path : Bytes) : Bytes × Bytes :=
  if slash ∈ path then
    let name := path.rtakeWhile (· ≠ slash)
    let directory := (path.rdropWhile (· ≠ slash)).dropLast
    (if directory = [] then lit "/" else directory, name)
  else (lit ".", path)

example : splitPath (lit "/var/lib/fm.db") = (lit "/var/lib", lit "fm.db") := by decide

def checkConfig (config : Config) (o : Outcomes) : Option Bytes :=
  if config.storageDatabasePath = [] then some (lit "storage.database_path is required")
  else
    match o.notLocal (splitPath config.storageDatabasePath).1 with
    | some reason => some reason
    | none =>
        if config.jobsWorkers = 0 then some (lit "jobs.workers must be at least 1") else none

/-! ## The singleton lock -/

/-- `lock_path_for_database`. -/
def lockPathForDatabase (databasePath : Bytes) : Except Bytes (Bytes × Bytes) :=
  if databasePath = [] then .error (lit "singleton: database path is empty")
  else
    let (directory, name) := splitPath databasePath
    if name = [] then
      .error (lit "singleton: database path " ++ quoted databasePath ++
        lit " names a directory, not a file")
    else .ok (directory, name ++ lit ".lock")

namespace Impl

/-- `flock`: a lock belongs to an open file, so another descriptor of this process refuses it
like one of another process. -/
def flock (s : Impl) (file : Nat) (o : Outcomes) : Option Errno :=
  if ⟨file, true⟩ ∈ s.lockFiles then some EAGAIN else o.flock

/-- `SingletonLock::acquire`: the error, if it fails. -/
def acquire (s : Impl) (databasePath : Bytes) (o : Outcomes) : Option Bytes × Impl :=
  if s.lock.isSome = true then
    (some (lit "singleton: lock is already held by this instance"), s)
  else
    match lockPathForDatabase databasePath with
    | .error error => (some error, s)
    | .ok (directory, name) =>
        match o.openRoot with
        | some error => (some (lit "singleton: " ++ error), s)
        | none =>
            match o.openLockFile with
            | .error error => (some (lit "singleton: " ++ error), s)
            | .ok file =>
                let display := directory ++ lit "/" ++ name
                let opened := { s with lockFiles := ⟨file, false⟩ :: s.lockFiles }
                match s.flock file o with
                | some err =>
                    let closed := { opened with
                      lockFiles := opened.lockFiles.erase ⟨file, false⟩ }
                    if err = EAGAIN then
                      (some (lit "another instance is already running (lock held on " ++
                        display ++ lit ")"), closed)
                    else
                      (some (lit "singleton: cannot lock " ++ quoted display ++ lit ": " ++
                        strerror err), closed)
                | none =>
                    (none, { s with
                      lock := some ⟨file, true⟩
                      lockFiles := ⟨file, true⟩ :: s.lockFiles })

/-- `SingletonLock::release`. -/
def release (s : Impl) : Impl :=
  match s.lock with
  | none => s
  | some fd => { s with lock := none, lockFiles := s.lockFiles.erase fd }

/-! ## Subscribers -/

def subscribe (s : Impl) (sub : Subscriber) : Option Bytes × Impl :=
  if sub.callback = 0 then (some (lit "events: subscriber callback is null"), s)
  else if sub ∈ s.subscribers then
    (some (lit "events: subscriber is already registered"), s)
  else (none, { s with subscribers := s.subscribers ++ [sub] })

def unsubscribe (s : Impl) (sub : Subscriber) : Impl :=
  { s with subscribers := s.subscribers.erase sub }

def publish (s : Impl) (type : EventType) (detail : Bytes) : Impl :=
  { s with notices := s.notices ++ [.publish type detail s.subscribers] }

def notify (s : Impl) (state : Bytes) : Impl :=
  { s with notices := s.notices ++ [.notify state] }

/-! ## The manager -/

/-- `new JobManager`. -/
def newManager (s : Impl) : Impl :=
  { s with
    manager := some { address := s.nextAddress }
    managers := s.nextAddress :: s.managers
    nextAddress := s.nextAddress + 1 }

/-- `JobManager::start`. -/
def managerStart (s : Impl) (config : Config) (o : Outcomes) : Option Bytes × Impl :=
  match s.manager with
  | none => (none, s)
  | some m =>
      if m.running = true then (none, s)
      else
        match o.storeOpen with
        | some error => (some error, s)
        | none =>
            (none, { s with manager := some { m with
              storeOpen := true
              running := true
              workers := if config.jobsWorkers > 0 then config.jobsWorkers else 1 } })

/-- `JobManager::shutdown`. -/
def managerShutdown (s : Impl) : Impl :=
  match s.manager with
  | none => s
  | some m =>
      if m.running = false then s
      else { s with manager := some { m with running := false, workers := 0, storeOpen := false } }

/-- `delete impl_->manager; impl_->manager = 0`. -/
def deleteManager (s : Impl) : Impl :=
  match s.manager with
  | none => s
  | some m => { s with manager := none, managers := s.managers.erase m.address }

/-! ## The server -/

/-- `ConnectionServer::start`, with the default timeouts and the handler `serve`. -/
def serverStart (s : Impl) (config : Config) (o : Outcomes) : Option Bytes × Impl :=
  if s.server.running = true then (some (lit "server: already running"), s)
  else if config.jobsWorkers = 0 then
    (some (lit "server: handler count must be at least 1"), s)
  else if s.server.listener.isSome = true then
    (some (lit "server: listen socket is already open"), s)
  else if config.httpBind = [] then (some (lit "server: bind address is empty"), s)
  else
    match o.listen with
    | .error error => (some error, s)
    | .ok port =>
        match o.socketpair with
        | some err => (some (lit "server: socketpair: " ++ strerror err), s)
        | none =>
            (none, { s with server :=
              { running := true, listener := some port, wake := true, acceptor := true,
                handlers := s.server.handlers + config.jobsWorkers } })

/-- `ConnectionServer::shutdown`. -/
def serverShutdown (s : Impl) : Impl :=
  if s.server.running = false then s
  else { s with server := {} }

def startWatchdog (s : Impl) (intervalMs : Nat) : Impl :=
  if intervalMs > 0 then
    { s with
      watchdogStop := false
      terminated := s.terminated || s.watchdog
      watchdog := true }
  else s

/-! ## The service -/

/-- `g_dispatch.manager = 0; g_dispatch.options = 0`. -/
def resetDispatch (s : Impl) : Impl := { s with dispatch := {} }

/-! `Service::start`, from its last steps to its first; a step that fails undoes those
before it. -/

/-- Readiness, once the socket accepts. -/
def ready (s : Impl) (config : Config) (o : Outcomes) : Impl :=
  let s := { s with running := true }
  let s := (s.notify (lit "READY=1")).startWatchdog o.watchdogIntervalMs
  s.publish .serviceStarted
    (lit "port=" ++ decimal (s.server.listener.getD 0) ++ lit " workers=" ++
      decimal config.jobsWorkers)

/-- The socket. -/
def startServer (s : Impl) (config : Config) (o : Outcomes) : Option Bytes × Impl :=
  let s := { s with
    maxBodyBytes := config.httpMaxBodyBytes
    dispatch := ⟨s.manager.map JobManager.address, true⟩ }
  match s.serverStart config o with
  | (some error, s) =>
      let s := s.managerShutdown.deleteManager.resetDispatch
      (some error, (s.unsubscribe logSink).release)
  | (none, s) => (none, s.ready config o)

/-- The manager. -/
def startManager (s : Impl) (config : Config) (o : Outcomes) : Option Bytes × Impl :=
  match s.newManager.managerStart config o with
  | (some error, s) => (some error, (s.deleteManager.unsubscribe logSink).release)
  | (none, s) => s.startServer config o

/-- The log sink. -/
def startSink (s : Impl) (config : Config) (o : Outcomes) : Option Bytes × Impl :=
  let s := { s with
    logMinimum := config.loggingLevel
    logEnabled := config.loggingEnabled }
  match s.subscribe logSink with
  | (some error, s) => (some error, s.release)
  | (none, s) => s.startManager config o

/-- `Service::start`: the error, if it fails. -/
def start (s : Impl) (config : Config) (o : Outcomes) : Option Bytes × Impl :=
  if s.running = true then (some (lit "service: already running"), s)
  else
    match checkConfig config o with
    | some error => (some error, s)
    | none =>
        match s.acquire config.storageDatabasePath o with
        | (some error, s) => (some error, s)
        | (none, s) => s.startSink config o

/-- The stop is made known, and the watchdog ends. -/
def beginStop (s : Impl) : Impl :=
  let s := { s with running := false }
  let s := (s.publish .serviceStopping []).notify (lit "STOPPING=1")
  { s with watchdogStop := true, watchdog := false }

/-- `Service::stop`. -/
def stop (s : Impl) : Impl :=
  if s.running = false then s
  else
    let s := s.beginStop.serverShutdown.resetDispatch
    let s := s.managerShutdown.deleteManager
    (s.unsubscribe logSink).release

/-- `Service::is_running`. -/
def isRunning (s : Impl) : Bool := s.running

/-- `Service::port`. -/
def port (s : Impl) : Nat := s.server.listener.getD 0

end Impl

/-- One call of the owner of the service. -/
inductive Call
  | start (config : Config) (o : Outcomes)
  | stop

def Impl.call (s : Impl) : Call → Impl
  | .start config o => (s.start config o).2
  | .stop => s.stop

/-- The service after some calls. -/
def Impl.calls (s : Impl) (calls : List Call) : Impl := calls.foldl Impl.call s

example : (({} : Impl).start { storageDatabasePath := lit "/db/fm" }
    { listen := .error (lit "no port") }).1 = some (lit "no port") := by decide

end FileMover.Daemon
