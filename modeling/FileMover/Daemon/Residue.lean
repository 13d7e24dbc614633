import FileMover.Model.Daemon

/-!
# Starting and stopping leave nothing behind

Whatever fails on the way up is undone in reverse order, and so is everything on the way
down. A service that does not run is therefore as good as a new one, and its next start can
fail for nothing but what the system answers then.
-/

namespace FileMover.Daemon

open Ini (Config)

/-! ## What a start can fail for -/

/-- Why the lock cannot be had, with nothing left from before. -/
def lockFault (config : Config) (o : Outcomes) : Option Bytes :=
  match lockPathForDatabase config.storageDatabasePath with
  | .error error => some error
  | .ok (directory, name) =>
      match o.openRoot, o.openLockFile, o.flock with
      | some error, _, _ => some (lit "singleton: " ++ error)
      | none, .error error, _ => some (lit "singleton: " ++ error)
      | none, .ok _, some err =>
          if err = EAGAIN then
            some (lit "another instance is already running (lock held on " ++
              (directory ++ lit "/" ++ name) ++ lit ")")
          else
            some (lit "singleton: cannot lock " ++ quoted (directory ++ lit "/" ++ name) ++
              lit ": " ++ strerror err)
      | none, .ok _, none => none

/-- Why the server cannot listen, with nothing left from before. -/
def serverFault (config : Config) (o : Outcomes) : Option Bytes :=
  if config.httpBind = [] then some (lit "server: bind address is empty")
  else
    match o.listen, o.socketpair with
    | .error error, _ => some error
    | .ok _, some err => some (lit "server: socketpair: " ++ strerror err)
    | .ok _, none => none

/-- The first thing that goes wrong in a start by itself. -/
def ownFault (config : Config) (o : Outcomes) : Option Bytes :=
  (checkConfig config o).or <| (lockFault config o).or <| o.storeOpen.or (serverFault config o)

/-! ## The two states of rest -/

/-- Not running, and nothing is held. -/
structure Idle (s : Impl) : Prop where
  running : s.running = false
  lock : s.lock = none
  lockFiles : s.lockFiles = []
  subscribers : s.subscribers = []
  manager : s.manager = none
  managers : s.managers = []
  server : s.server = {}
  dispatch : s.dispatch = {}
  watchdog : s.watchdog = false
  terminated : s.terminated = false

/-- Running, and everything is held once. -/
structure Up (s : Impl) : Prop where
  running : s.running = true
  lock : ∃ file, s.lock = some ⟨file, true⟩ ∧ s.lockFiles = [⟨file, true⟩]
  subscribers : s.subscribers = [logSink]
  manager : ∃ m, s.manager = some m ∧ s.managers = [m.address] ∧
    s.dispatch = ⟨some m.address, true⟩ ∧ m.running = true ∧ m.storeOpen = true
  server : s.server.running = true ∧ s.server.listener.isSome = true
  terminated : s.terminated = false

theorem workers_of_check {config : Config} {o : Outcomes} (h : checkConfig config o = none) :
    config.jobsWorkers ≠ 0 := by
  intro hzero
  rw [checkConfig, if_pos hzero] at h
  split_ifs at h
  split at h <;> cases h

namespace Idle

variable {s : Impl}

theorem acquire (h : Idle s) (config : Config) (o : Outcomes) :
    match lockFault config o with
    | some error => s.acquire config.storageDatabasePath o = (some error, s)
    | none => ∃ file, s.acquire config.storageDatabasePath o =
        (none, { s with lock := some ⟨file, true⟩, lockFiles := [⟨file, true⟩] }) := by
  have hflock : ∀ file, s.flock file o = o.flock := by
    intro file
    rw [Impl.flock, h.lockFiles]
    exact if_neg List.not_mem_nil
  have hclosed : ∀ file : Nat,
      { s with lockFiles := (⟨file, false⟩ :: s.lockFiles).erase ⟨file, false⟩ } = s := by
    intro file
    rw [List.erase_cons_head]
  rw [Impl.acquire, if_neg (by rw [h.lock]; exact Bool.noConfusion), lockFault]
  cases hpath : lockPathForDatabase config.storageDatabasePath with
  | error error => rfl
  | ok place =>
      obtain ⟨directory, name⟩ := place
      cases hroot : o.openRoot with
      | some error => rfl
      | none =>
          cases hfile : o.openLockFile with
          | error error => rfl
          | ok file =>
              simp only [hflock, hclosed]
              cases hlock : o.flock with
              | some err => by_cases hbusy : err = EAGAIN <;> simp [hbusy]
              | none => exact ⟨file, by rw [h.lockFiles]⟩

end Idle

theorem deleteManager_eq {s : Impl} {m : JobManager} (h : s.manager = some m) :
    s.deleteManager = { s with manager := none, managers := s.managers.erase m.address } := by
  rw [Impl.deleteManager, h]

theorem managerShutdown_eq {s : Impl} {m : JobManager} (h : s.manager = some m)
    (hrunning : m.running = true) :
    s.managerShutdown = { s with
      manager := some { m with running := false, workers := 0, storeOpen := false } } := by
  rw [Impl.managerShutdown, h]
  exact if_neg (by rw [hrunning]; exact Bool.noConfusion)

theorem resetDispatch_shutdown {s : Impl} {m : JobManager} (h : s.manager = some m)
    (hrunning : m.running = true) :
    s.managerShutdown.deleteManager.resetDispatch =
      s.resetDispatch.managerShutdown.deleteManager := by
  have hreset : s.resetDispatch.manager = some m := h
  rw [managerShutdown_eq h hrunning, deleteManager_eq rfl, managerShutdown_eq hreset hrunning,
    deleteManager_eq rfl]
  rfl

/-- On the way up, before anything listens. -/
structure Rising (s : Impl) : Prop where
  running : s.running = false
  lock : ∃ file, s.lock = some ⟨file, true⟩ ∧ s.lockFiles = [⟨file, true⟩]
  server : s.server = {}
  watchdog : s.watchdog = false
  terminated : s.terminated = false

namespace Rising

variable {s : Impl}

/-- What was taken is given back from the inside out. -/
theorem undo (h : Rising s) {m : JobManager} (hsubscribers : s.subscribers = [logSink])
    (hmanager : s.manager = some m) (hmanagers : s.managers = [m.address])
    (hdispatch : s.dispatch = {}) : Idle ((s.deleteManager.unsubscribe logSink).release) := by
  obtain ⟨file, hlock, hlockFiles⟩ := h.lock
  have hdelete : s.deleteManager = { s with manager := none, managers := [] } := by
    rw [deleteManager_eq hmanager, hmanagers, List.erase_cons_head]
  have hrelease : (s.deleteManager.unsubscribe logSink).release =
      { s with
        manager := none
        managers := []
        subscribers := []
        lock := none
        lockFiles := [] } := by
    rw [hdelete, Impl.unsubscribe, Impl.release]
    simp only [hlock, hlockFiles, hsubscribers, List.erase_cons_head]
  rw [hrelease]
  exact ⟨h.running, rfl, rfl, rfl, rfl, rfl, h.server, hdispatch, h.watchdog, h.terminated⟩

/-- The same for a manager that has run. -/
theorem undoRunning (h : Rising s) {m : JobManager} (hsubscribers : s.subscribers = [logSink])
    (hmanager : s.manager = some m) (hmanagers : s.managers = [m.address])
    (hrunning : m.running = true) (hdispatch : s.dispatch = {}) :
    Idle ((s.managerShutdown.deleteManager.unsubscribe logSink).release) := by
  rw [managerShutdown_eq hmanager hrunning]
  have hrising : Rising { s with
      manager := some { m with running := false, workers := 0, storeOpen := false } } :=
    ⟨h.running, h.lock, h.server, h.watchdog, h.terminated⟩
  exact hrising.undo hsubscribers rfl hmanagers hdispatch

theorem ready (h : Rising s) {m : JobManager} {server : ConnectionServer}
    (hsubscribers : s.subscribers = [logSink]) (hmanager : s.manager = some m)
    (hmanagers : s.managers = [m.address]) (hdispatch : s.dispatch = ⟨some m.address, true⟩)
    (hm : m.running = true ∧ m.storeOpen = true)
    (hserver : server.running = true ∧ server.listener.isSome = true)
    (config : Config) (o : Outcomes) : Up (Impl.ready { s with server } config o) := by
  have hup : ∀ t : Impl, t.running = true → t.subscribers = s.subscribers →
      t.lock = s.lock → t.lockFiles = s.lockFiles → t.manager = s.manager →
      t.managers = s.managers → t.dispatch = s.dispatch → t.server = server →
      t.terminated = false → Up t := by
    intro t hrunning hsubs hlock hlockFiles hman hmans hdisp hserv hterm
    obtain ⟨file, hfile⟩ := h.lock
    refine ⟨hrunning, ⟨file, ?_⟩, hsubs.trans hsubscribers, ⟨m, ?_⟩, ?_, hterm⟩
    · rw [hlock, hlockFiles]
      exact hfile
    · rw [hman, hmans, hdisp]
      exact ⟨hmanager, hmanagers, hdispatch, hm⟩
    · rwa [hserv]
  unfold Impl.ready Impl.startWatchdog
  dsimp only [Impl.notify, Impl.publish]
  split
  · refine hup _ rfl rfl rfl rfl rfl rfl rfl rfl ?_
    rw [h.terminated, h.watchdog]
    rfl
  · exact hup _ rfl rfl rfl rfl rfl rfl rfl rfl h.terminated

/-- What a step ends with: everything is up, or everything is given back. -/
def Ends (fault : Option Bytes) (result : Option Bytes × Impl) : Prop :=
  result.1 = fault ∧ (fault = none → Up result.2) ∧ (fault ≠ none → Idle result.2)

theorem startServer (h : Rising s) {m : JobManager} (hsubscribers : s.subscribers = [logSink])
    (hmanager : s.manager = some m) (hmanagers : s.managers = [m.address])
    (hm : m.running = true ∧ m.storeOpen = true) {config : Config}
    (hworkers : config.jobsWorkers ≠ 0) (o : Outcomes) :
    Ends (serverFault config o) (s.startServer config o) := by
  have hstart : ∀ t : Impl, t.server = {} →
      match serverFault config o with
      | some error => t.serverStart config o = (some error, t)
      | none => ∃ server, t.serverStart config o = (none, { t with server }) ∧
          server.running = true ∧ server.listener.isSome = true := by
    intro t ht
    rw [Impl.serverStart, ht, if_neg Bool.noConfusion, if_neg hworkers, if_neg Bool.noConfusion,
      serverFault]
    split_ifs
    · rfl
    · cases o.listen with
      | error error => rfl
      | ok port =>
          cases o.socketpair with
          | some err => rfl
          | none => exact ⟨_, rfl, rfl, rfl⟩
  rw [Impl.startServer]
  have hserver := hstart { s with
    maxBodyBytes := config.httpMaxBodyBytes
    dispatch := ⟨s.manager.map JobManager.address, true⟩ } h.server
  cases hfault : serverFault config o with
  | some error =>
      rw [hfault] at hserver
      simp only [hserver]
      rw [resetDispatch_shutdown (s := { s with
        maxBodyBytes := config.httpMaxBodyBytes
        dispatch := ⟨s.manager.map JobManager.address, true⟩ }) hmanager hm.1]
      have hrising : Rising { s with maxBodyBytes := config.httpMaxBodyBytes, dispatch := {} } :=
        ⟨h.running, h.lock, h.server, h.watchdog, h.terminated⟩
      exact ⟨rfl, nofun, fun _ =>
        hrising.undoRunning hsubscribers hmanager hmanagers hm.1 rfl⟩
  | none =>
      rw [hfault] at hserver
      obtain ⟨server, hserver, hrunning⟩ := hserver
      simp only [hserver]
      have hrising : Rising { s with
          maxBodyBytes := config.httpMaxBodyBytes
          dispatch := ⟨s.manager.map JobManager.address, true⟩ } :=
        ⟨h.running, h.lock, h.server, h.watchdog, h.terminated⟩
      refine ⟨rfl, fun _ => ?_, fun hne => absurd rfl hne⟩
      exact hrising.ready hsubscribers hmanager hmanagers (by rw [hmanager]; rfl) hm hrunning
        config o

theorem startManager (h : Rising s) (hsubscribers : s.subscribers = [logSink])
    (hmanagers : s.managers = []) (hdispatch : s.dispatch = {}) {config : Config}
    (hworkers : config.jobsWorkers ≠ 0) (o : Outcomes) :
    Ends (o.storeOpen.or (serverFault config o)) (s.startManager config o) := by
  have hrising : Rising s.newManager :=
    ⟨h.running, h.lock, h.server, h.watchdog, h.terminated⟩
  have hlive : s.newManager.managers = [s.nextAddress] := congrArg (s.nextAddress :: ·) hmanagers
  rw [Impl.startManager, Impl.managerStart]
  cases hstore : o.storeOpen with
  | some error => exact ⟨rfl, nofun, fun _ => hrising.undo hsubscribers rfl hlive hdispatch⟩
  | none =>
      have hstarted : Rising { s.newManager with
          manager := some ⟨s.nextAddress, true, true,
            if config.jobsWorkers > 0 then config.jobsWorkers else 1⟩ } :=
        ⟨h.running, h.lock, h.server, h.watchdog, h.terminated⟩
      exact hstarted.startServer hsubscribers rfl hlive ⟨rfl, rfl⟩ hworkers o

end Rising

open Rising

theorem Idle.startSink {s : Impl} (h : Idle s) {config : Config}
    (hworkers : config.jobsWorkers ≠ 0) (o : Outcomes) (file : Nat) :
    Ends (o.storeOpen.or (serverFault config o))
      (Impl.startSink { s with lock := some ⟨file, true⟩, lockFiles := [⟨file, true⟩] }
        config o) := by
  rw [Impl.startSink, Impl.subscribe, if_neg (by decide)]
  simp only [h.subscribers, List.not_mem_nil, if_false]
  have hrising : Rising { s with
      lock := some ⟨file, true⟩
      lockFiles := [⟨file, true⟩]
      logMinimum := config.loggingLevel
      logEnabled := config.loggingEnabled
      subscribers := [logSink] } :=
    ⟨h.running, ⟨file, rfl, rfl⟩, h.server, h.watchdog, h.terminated⟩
  exact hrising.startManager rfl h.managers h.dispatch hworkers o

/-- A start from rest fails for its own faults and for nothing else. -/
theorem Idle.start {s : Impl} (h : Idle s) (config : Config) (o : Outcomes) :
    Ends (ownFault config o) (s.start config o) := by
  rw [Impl.start, if_neg (by rw [h.running]; exact Bool.noConfusion), ownFault]
  cases hcheck : checkConfig config o with
  | some error => exact ⟨rfl, nofun, fun _ => h⟩
  | none =>
      have hacquire := h.acquire config o
      cases hlock : lockFault config o with
      | some error =>
          rw [hlock] at hacquire
          simp only [hacquire]
          exact ⟨rfl, nofun, fun _ => h⟩
      | none =>
          rw [hlock] at hacquire
          obtain ⟨file, hacquire⟩ := hacquire
          simp only [hacquire]
          exact h.startSink (workers_of_check hcheck) o file

theorem Up.start {s : Impl} (h : Up s) (config : Config) (o : Outcomes) :
    s.start config o = (some (lit "service: already running"), s) := by
  rw [Impl.start, if_pos h.running]

theorem Up.stop {s : Impl} (h : Up s) : Idle s.stop := by
  obtain ⟨m, hmanager, hmanagers, -, hm, -⟩ := h.manager
  rw [Impl.stop, if_neg (by rw [h.running]; exact Bool.noConfusion)]
  have hshutdown : s.beginStop.serverShutdown = { s.beginStop with server := {} } := by
    rw [Impl.serverShutdown]
    exact if_neg (by show s.server.running ≠ false; rw [h.server.1]; exact Bool.noConfusion)
  rw [hshutdown]
  have hrising : Rising (Impl.resetDispatch { s.beginStop with server := {} }) :=
    ⟨rfl, h.lock, rfl, rfl, h.terminated⟩
  exact hrising.undoRunning h.subscribers hmanager hmanagers hm rfl

theorem Idle.stop {s : Impl} (h : Idle s) : s.stop = s := by
  rw [Impl.stop, if_pos h.running]

/-! ## Any calls -/

/-- A service at rest is at rest after one more call. -/
theorem idle_or_up_call {s : Impl} (h : Idle s ∨ Up s) (call : Call) :
    Idle (s.call call) ∨ Up (s.call call) := by
  cases call with
  | start config o =>
      show Idle (s.start config o).2 ∨ Up (s.start config o).2
      rcases h with hidle | hup
      · obtain ⟨-, hnone, hsome⟩ := hidle.start config o
        by_cases hfault : ownFault config o = none
        · exact .inr (hnone hfault)
        · exact .inl (hsome hfault)
      · rw [hup.start]
        exact .inr hup
  | stop =>
      show Idle s.stop ∨ Up s.stop
      rcases h with hidle | hup
      · rw [hidle.stop]
        exact .inl hidle
      · exact .inl hup.stop

theorem idle_or_up (calls : List Call) :
    Idle (Impl.calls {} calls) ∨ Up (Impl.calls {} calls) := by
  induction calls using List.reverseRecOn with
  | nil => exact .inl ⟨rfl, rfl, rfl, rfl, rfl, rfl, rfl, rfl, rfl, rfl⟩
  | append_singleton calls call ih =>
      rw [Impl.calls, List.foldl_append]
      exact idle_or_up_call ih call

/-- What is held is what a running service holds. -/
structure Matches (s : Impl) : Prop where
  lock : s.lock.isSome = s.isRunning
  locked : ∀ fd ∈ s.lock, fd.locked = true
  /-- No descriptor is open besides. -/
  lockFiles : s.lockFiles = s.lock.toList
  sink : s.subscribers.count logSink = if s.isRunning = true then 1 else 0
  manager : s.manager.isSome = s.isRunning
  /-- No manager is alive besides. -/
  managers : s.managers = (s.manager.map JobManager.address).toList
  dispatch : s.dispatch = ⟨s.manager.map JobManager.address, s.isRunning⟩

theorem Idle.matches {s : Impl} (h : Idle s) : Matches s where
  lock := by rw [h.lock, Impl.isRunning, h.running]; rfl
  locked := by rw [h.lock]; exact nofun
  lockFiles := by rw [h.lockFiles, h.lock]; rfl
  sink := by rw [h.subscribers, Impl.isRunning, h.running]; rfl
  manager := by rw [h.manager, Impl.isRunning, h.running]; rfl
  managers := by rw [h.managers, h.manager]; rfl
  dispatch := by rw [h.dispatch, h.manager, Impl.isRunning, h.running]; rfl

theorem Up.matches {s : Impl} (h : Up s) : Matches s := by
  obtain ⟨file, hlock, hlockFiles⟩ := h.lock
  obtain ⟨m, hmanager, hmanagers, hdispatch, -⟩ := h.manager
  exact {
    lock := by rw [hlock, Impl.isRunning, h.running]; rfl
    locked := by
      rw [hlock]
      rintro fd ⟨⟩
      rfl
    lockFiles := by rw [hlockFiles, hlock]; rfl
    sink := by rw [h.subscribers, Impl.isRunning, h.running]; rfl
    manager := by rw [hmanager, Impl.isRunning, h.running]; rfl
    managers := by rw [hmanagers, hmanager]; rfl
    dispatch := by rw [hdispatch, hmanager, Impl.isRunning, h.running]; rfl }

theorem Idle.running_after_start {s : Impl} (h : Idle s) (config : Config) (o : Outcomes) :
    (s.start config o).2.isRunning = true ↔ ownFault config o = none := by
  obtain ⟨-, hup, hidle⟩ := h.start config o
  constructor
  · intro hrunning
    by_contra hfault
    rw [Impl.isRunning, (hidle hfault).running] at hrunning
    exact Bool.noConfusion hrunning
  · intro hfault
    exact (hup hfault).running

/-- After any calls the lock, the sink, the manager and the dispatch are there exactly while
the service runs, and a start that is not refused for that fails for its own faults only. The
service runs after a start exactly if it ran or the start had no such fault, and never after
a stop. -/
theorem start_stop_leave_no_residue (calls : List Call) :
    let s := Impl.calls {} calls
    Matches s ∧ s.stop.isRunning = false ∧ ∀ config o,
      (s.start config o).1 =
        (if s.isRunning = true then some (lit "service: already running")
        else ownFault config o) ∧
      ((s.start config o).2.isRunning = true ↔
        s.isRunning = true ∨ ownFault config o = none) := by
  dsimp only
  rcases idle_or_up calls with hidle | hup
  · have hstopped : (Impl.calls {} calls).isRunning = false := hidle.running
    refine ⟨hidle.matches, ?_, fun config o => ⟨?_, ?_⟩⟩
    · rw [hidle.stop]
      exact hstopped
    · rw [hstopped, if_neg Bool.noConfusion]
      exact (hidle.start config o).1
    · rw [hidle.running_after_start, hstopped]
      exact ⟨Or.inr, fun h => h.resolve_left Bool.noConfusion⟩
  · have hrunning : (Impl.calls {} calls).isRunning = true := hup.running
    refine ⟨hup.matches, hup.stop.running, fun config o => ⟨?_, ?_⟩⟩
    · rw [hup.start, if_pos hrunning]
    · rw [hup.start]
      exact ⟨Or.inl, fun _ => hrunning⟩

/-- A service that is started, stopped, refused a port and started again runs and holds
everything once. -/
theorem start_stop_leave_no_residue_running :
    ∃ s : Impl, s.isRunning = true ∧ s.lockFiles = [⟨0, true⟩] ∧ s.managers = [2] ∧
      Matches s := by
  let config : Config := { storageDatabasePath := lit "/db/fm" }
  let before : List Call :=
    [.start config {}, .stop, .start config { listen := .error (lit "no port") }]
  have hmatches := (start_stop_leave_no_residue (before ++ [.start config {}])).1
  exact ⟨_, by decide, by decide, by decide, hmatches⟩

end FileMover.Daemon
