import FileMover.Model.Locks

/-!
# Which locks are held when

The monitor `watch` keeps the two mutexes of the thread whose path it reads, and
whether one of the rules was broken: no store call and no acquisition of the store
mutex under the manager mutex, no publication under either, and no mutex taken that
the thread holds already.

One operation breaks a rule. `cancel` publishes inside the scope of its guard on the
store mutex, so its event goes out under that mutex whenever there is one: when the
store has taken its write and a publisher is installed. Everything else keeps the
rules on every path, also with callbacks that call the manager again.
-/

namespace FileMover.Locks

open Framework

/-- What the monitor knows. -/
structure Watch where
  manager : Bool := false
  store : Bool := false
  /-- One of the rules was broken. -/
  broken : Bool := false
  /-- A transition was written through the connection of the commands, and nobody has
  asked for the publisher since. -/
  cancelling : Bool := false
  /-- A publisher was there for the event of such a write. -/
  reported : Bool := false
deriving DecidableEq, Repr

/-- Whether the rules allow this action to a thread with these mutexes. -/
def Watch.allows (s : Watch) : Action → Bool
  | .acquire .manager => !s.manager
  | .acquire .store => !s.manager && !s.store
  | .openStore _ | .closeStore _ | .nextSequence | .call _ _ => !s.manager
  | .publish _ => !s.manager && !s.store
  | _ => true

/-- The write of `cancel`, taken by the store. -/
def cancels : (action : Action) → Result action → Bool
  | .call .commands ⟨_, .updateJob _ _ _⟩, .ok _ => true
  | _, _ => false

/-- A publisher is asked for, and there is one. -/
def installed : (action : Action) → Result action → Bool
  | .publisher, there => there
  | _, _ => false

def Action.asksPublisher : Action → Bool
  | .publisher => true
  | _ => false

def watch (s : Watch) (action : Action) (reply : Result action) : Watch where
  manager :=
    match action with
    | .acquire .manager => true
    | .release .manager => false
    | _ => s.manager
  store :=
    match action with
    | .acquire .store => true
    | .release .store => false
    | _ => s.store
  broken := s.broken || !s.allows action
  cancelling := !action.asksPublisher && (s.cancelling || cancels action reply)
  reported := s.reported || s.cancelling && installed action reply

/-- The rules were kept all along this path. -/
def Disciplined (path : List ((action : Action) × Result action)) : Prop :=
  (Program.watchAll watch {} path).broken = false

/-- On this path a `cancel` went through with a publisher installed. -/
def CancelReported (path : List ((action : Action) × Result action)) : Prop :=
  (Program.watchAll watch {} path).reported = true

/-- From here on nothing can go wrong any more, for it has. -/
def Watch.Spoilt (s : Watch) : Prop := s.broken = true ∧ s.reported = true

/-- Holds along every path: a rule is broken only if a cancellation was reported, and a
cancellation that is on its way out is under the store mutex. -/
def Watch.Fair (s : Watch) : Prop :=
  s.Spoilt ∨ s.broken = false ∧ (s.store = false → s.cancelling = false ∧ s.reported = false)

/-- Between two operations. -/
def Watch.Settled (s : Watch) : Prop := s = {} ∨ s.Spoilt

theorem Watch.Spoilt.watch {s : Watch} (spoilt : s.Spoilt) (action : Action)
    (reply : Result action) : (watch s action reply).Spoilt := by
  refine ⟨?_, ?_⟩
  · show (s.broken || !s.allows action) = true
    rw [spoilt.1]
    rfl
  · show (s.reported || s.cancelling && installed action reply) = true
    rw [spoilt.2]
    rfl

/-- `Watched`, with what is the same for all the operations. -/
abbrev Keeps {α : Type} (program : LockProg α) (s : Watch) (Finally : Watch → α → Prop) :
    Prop :=
  program.Watched watch Watch.Fair Finally s

theorem keeps_of_spoilt {α : Type} {program : LockProg α} {s : Watch}
    {Finally : Watch → α → Prop} (spoilt : s.Spoilt)
    (ends : ∀ t value, Watch.Spoilt t → Finally t value) : Keeps program s Finally :=
  Program.watched_of_closed (fun _ action reply h => h.watch action reply)
    (fun _ h => .inl h) ends spoilt

/-! ## The parts of the operations -/

/-- Nothing to remember but the mutexes. -/
def held (manager store : Bool) : Watch := { manager := manager, store := store }

theorem fair_held (manager store : Bool) : (held manager store).Fair :=
  .inr ⟨rfl, fun _ => ⟨rfl, rfl⟩⟩

/-- Begins and ends with these mutexes. -/
abbrev Stays {α : Type} (program : LockProg α) (manager store : Bool) : Prop :=
  Keeps program (held manager store) fun t _ => t = held manager store

section Parts
variable {α β : Type} {manager store : Bool}

theorem Stays.bind {program : LockProg α} {next : α → LockProg β} {Finally : Watch → β → Prop}
    (first : Stays program manager store)
    (rest : ∀ value, Keeps (next value) (held manager store) Finally) :
    Keeps (program.bind next) (held manager store) Finally := by
  refine Program.Watched.bind first fun t value ht => ?_
  rw [ht]
  exact rest value

theorem stays_pure (value : α) : Stays (.pure value) manager store :=
  ⟨fair_held manager store, rfl⟩

theorem stays_perform {action : Action}
    (hsame : ∀ reply, watch (held manager store) action reply = held manager store) :
    Stays (perform action) manager store := by
  refine ⟨fair_held manager store, fun reply => ?_⟩
  rw [hsame reply]
  exact stays_pure reply

theorem stays_look : Stays (perform .look) manager store :=
  stays_perform fun _ => by cases manager <;> cases store <;> rfl

theorem stays_change (m : Manager) : Stays (perform (.change m)) manager store :=
  stays_perform fun _ => by cases manager <;> cases store <;> rfl

theorem stays_now : Stays (perform .now) manager store :=
  stays_perform fun _ => by cases manager <;> cases store <;> rfl

theorem stays_openStore (connection : Connection) :
    Stays (perform (.openStore connection)) false store :=
  stays_perform fun _ => by cases store <;> rfl

theorem stays_closeStore (connection : Connection) :
    Stays (perform (.closeStore connection)) false store :=
  stays_perform fun _ => by cases store <;> rfl

theorem stays_nextSequence : Stays (perform .nextSequence) false store :=
  stays_perform fun _ => by cases store <;> rfl

theorem keeps_acquire_manager {next : Unit → LockProg α} {Finally : Watch → α → Prop}
    (rest : Keeps (next ()) (held true store) Finally) :
    Keeps ((perform (.acquire .manager)).bind next) (held false store) Finally := by
  refine ⟨fair_held false store, fun _ => ?_⟩
  cases store with
  | false => exact rest
  | true => exact rest

theorem keeps_release_manager {next : Unit → LockProg α} {Finally : Watch → α → Prop}
    (rest : Keeps (next ()) (held false store) Finally) :
    Keeps ((perform (.release .manager)).bind next) (held true store) Finally := by
  refine ⟨fair_held true store, fun _ => ?_⟩
  cases store with
  | false => exact rest
  | true => exact rest

theorem keeps_acquire_store {next : Unit → LockProg α} {Finally : Watch → α → Prop}
    (rest : Keeps (next ()) (held false true) Finally) :
    Keeps ((perform (.acquire .store)).bind next) (held false false) Finally :=
  ⟨fair_held false false, fun _ => rest⟩

theorem keeps_release_store {next : Unit → LockProg α} {Finally : Watch → α → Prop}
    (rest : Keeps (next ()) (held false false) Finally) :
    Keeps ((perform (.release .store)).bind next) (held false true) Finally :=
  ⟨fair_held false true, fun _ => rest⟩

/-- A section under the manager mutex. -/
theorem stays_section {body : LockProg α} (hbody : Stays body true store) :
    Stays (holding .manager body) false store := by
  refine keeps_acquire_manager (hbody.bind fun value => ?_)
  exact keeps_release_manager (stays_pure value)

/-- A scope with the store mutex held. -/
theorem stays_stored {body : LockProg α} (hbody : Stays body false true) :
    Stays (holding .store body) false false := by
  refine keeps_acquire_store (hbody.bind fun value => ?_)
  exact keeps_release_store (stays_pure value)

/-- Store and filesystem calls without the manager mutex. Those through the connection
of the commands change no state of a job. -/
theorem stays_calls {connection : Connection} {program : Prog α}
    (huses : connection = .commands → program.Uses fun c => c.op.writesState = false ∨
      ∃ job retryOf, c.op = .insertJob job retryOf) :
    Stays (calls connection program) false store := by
  induction program with
  | pure value => exact stays_pure value
  | call c next ih =>
      refine ⟨fair_held false store, fun reply => ?_⟩
      have hcancels : cancels (.call connection c) reply = false := by
        cases connection with
        | worker => rfl
        | commands =>
            obtain ⟨site, op⟩ := c
            cases op with
            | updateJob id before after =>
                rcases (huses rfl).1 with h | ⟨job, retryOf, h⟩
                · cases h
                · cases h
            | _ => rfl
      have hsame : watch (held false store) (.call connection c) reply = held false store := by
        unfold watch
        rw [hcancels]
        cases store <;> rfl
      rw [hsame]
      exact ih reply fun h => (huses h).2 reply

/-- With no mutex held an event may go out. -/
theorem stays_emit (event : JobEvent) : Stays (emit event) false false := by
  have hpublisher : Stays (perform .publisher) false false :=
    stays_perform fun there => by cases there <;> rfl
  refine hpublisher.bind fun there => ?_
  split
  · have hpublish : Stays (perform (.publish event)) false false := stays_perform fun _ => rfl
    exact hpublish.bind fun _ => stays_pure ()
  · exact stays_pure ()

end Parts

/-! ## The operations -/

theorem stays_start : Stays start false false := by
  refine Stays.bind (stays_section ?_) fun running => ?_
  · exact stays_look.bind fun m => stays_pure _
  split
  · exact stays_pure _
  refine (stays_stored (stays_openStore .commands)).bind fun opened => ?_
  match opened with
  | .error message => exact stays_pure _
  | .ok () =>
      refine Stays.bind (stays_section ?_) fun _ => ?_
      · exact stays_look.bind fun m => stays_change _
      have hspawn : Stays (perform .spawn) false false := stays_perform fun _ => rfl
      refine hspawn.bind fun _ => ?_
      exact (stays_section (stays_pure ())).bind fun _ => stays_pure _

theorem stays_shutdown : Stays shutdown false false := by
  refine Stays.bind (stays_section ?_) fun stops => ?_
  · refine stays_look.bind fun m => ?_
    split
    · exact (stays_change _).bind fun _ => stays_pure _
    · exact stays_pure _
  split
  · have hjoin : Stays (perform .join) false false := stays_perform fun _ => rfl
    exact hjoin.bind fun _ => stays_stored (stays_closeStore .commands)
  · exact stays_pure ()

theorem stays_command (change : Manager → Except Refusal Manager) :
    Stays (command change) false false := by
  refine stays_section (stays_look.bind fun m => ?_)
  split
  · exact stays_pure _
  · exact (stays_change _).bind fun _ => stays_pure _

/-- Commands of one section tell of their success when the section is over. -/
theorem stays_told (result : Refusal) (event : JobEvent) :
    Stays (match result with
      | (result, error) => do
          if result = .ok then
            emit event
            return (.ok, [])
          else return (result, error) : LockProg Refusal) false false := by
  obtain ⟨result, error⟩ := result
  simp only
  split
  · exact (stays_emit event).bind fun _ => stays_pure _
  · exact stays_pure _

theorem stays_pause (id : Bytes) : Stays (pause id) false false :=
  (stays_command _).bind fun result => stays_told result _

theorem stays_resume (id : Bytes) : Stays (resume id) false false :=
  (stays_command _).bind fun result => stays_told result _

theorem stays_settle {store : Bool} (id : Bytes) (request : MoveRequest)
    (recorded : Except Bytes Unit) : Stays (settle id request recorded) false store := by
  refine stays_section (stays_look.bind fun m => (stays_change _).bind fun _ => ?_)
  match recorded with
  | .error message => exact stays_pure _
  | .ok () => exact stays_pure _

theorem stays_recordIntent (job : Job) (retryOf : Bytes) :
    Stays (calls .commands (recordIntent job retryOf)) false true :=
  stays_calls fun _ => uses_recordIntent (.inr ⟨job, retryOf, rfl⟩)

theorem stays_submit (id : Bytes) (request : MoveRequest) :
    Stays (submit id request) false false := by
  refine Stays.bind (stays_section ?_) fun claimed => ?_
  · refine stays_look.bind fun m => ?_
    split
    · exact stays_pure _
    · exact (stays_change _).bind fun _ => stays_now.bind fun _ => stays_pure _
  match claimed with
  | .error refusal => exact stays_pure _
  | .ok nowMs =>
      refine (stays_stored (stays_recordIntent _ _)).bind fun recorded => ?_
      exact (stays_settle id request recorded).bind fun result => stays_told result _

theorem stays_submitNew (request : MoveRequest) : Stays (submitNew request) false false := by
  refine Stays.bind (stays_section ?_) fun running => ?_
  · exact stays_look.bind fun m => stays_pure _
  split
  · exact stays_pure _
  refine (stays_stored stays_nextSequence).bind fun sequence => ?_
  match sequence with
  | .error message => exact stays_pure _
  | .ok sequence => exact stays_submit _ request

theorem stays_pump : Stays pump false false := by
  refine stays_section (stays_look.bind fun m => ?_)
  split
  · exact stays_pure _
  · exact stays_now.bind fun _ => (stays_change _).bind fun _ => stays_pure _

/-! ### `retry` -/

theorem stays_loadForRetry (id : Bytes) :
    Stays (calls .commands (loadForRetry id)) false true := by
  refine stays_calls fun _ => (uses_load (.inl rfl)).bind fun loaded => ?_
  match loaded with
  | .error message => trivial
  | .ok none => trivial
  | .ok (some job) =>
      simp only
      split <;> trivial

theorem stays_probeCandidate (candidate : Bytes) :
    Stays (calls .commands (probeCandidate candidate)) false true := by
  refine stays_calls fun _ => (uses_load (.inl rfl)).bind fun loaded => ?_
  match loaded with
  | .error message => trivial
  | .ok job => trivial

theorem stays_claimCandidate (candidate : Bytes) :
    Stays (claimCandidate candidate) false true := by
  refine stays_section (stays_look.bind fun m => ?_)
  split
  · exact stays_pure _
  · exact (stays_change _).bind fun _ => stays_pure _

/-- The section of a round takes the manager mutex under the store mutex, which is the
order that is allowed. -/
theorem stays_probe (id : Bytes) (rounds n : Nat) : Stays (probe id rounds n) false true := by
  induction rounds generalizing n with
  | zero => exact ⟨fair_held false true, fun none => nomatch none⟩
  | succ rounds ih =>
      refine (stays_probeCandidate _).bind fun taken => ?_
      match taken with
      | .error message => exact stays_pure _
      | .ok true => exact ih (n + 1)
      | .ok false =>
          refine (stays_claimCandidate _).bind fun claimed => ?_
          split
          · exact stays_pure _
          · exact ih (n + 1)

theorem stays_retryInStore (rounds : Nat) (id : Bytes) (move : MoveRequest) (nowMs : Int) :
    Stays (retryInStore rounds id move nowMs) false true := by
  refine (stays_loadForRetry id).bind fun loaded => ?_
  match loaded with
  | .error refusal => exact stays_pure _
  | .ok () =>
      refine (stays_probe id rounds 1).bind fun probed => ?_
      match probed with
      | .error message => exact stays_pure _
      | .ok candidate =>
          refine (stays_recordIntent _ _).bind fun recorded => ?_
          refine (stays_settle candidate move recorded).bind fun result => ?_
          obtain ⟨result, error⟩ := result
          simp only
          split
          · exact stays_pure _
          · exact stays_pure _

theorem stays_retry (rounds : Nat) (id : Bytes) : Stays (retry rounds id) false false := by
  refine Stays.bind (stays_section ?_) fun claimed => ?_
  · refine stays_look.bind fun m => ?_
    split
    · exact stays_pure _
    · exact stays_now.bind fun _ => stays_pure _
  match claimed with
  | .error refusal => exact stays_pure _
  | .ok (move, nowMs) =>
      refine (stays_stored (stays_retryInStore rounds id move nowMs)).bind fun recorded => ?_
      match recorded with
      | .error refusal => exact stays_pure _
      | .ok candidate => exact (stays_emit _).bind fun _ => stays_pure _

/-! ### `cancel` -/

theorem calls_bind {α β : Type} (connection : Connection) (program : Prog α)
    (next : α → Prog β) :
    calls connection (program.bind next) =
      (calls connection program).bind fun value => calls connection (next value) := by
  induction program with
  | pure value => rfl
  | call c more ih =>
      simp only [Program.call_bind, calls]
      congr 1
      funext reply
      exact ih reply

/-- The store mutex is held, and the write of the cancellation is in the store. -/
def cancelled : Watch := { store := true, cancelling := true }

theorem fair_cancelled : cancelled.Fair := .inr ⟨rfl, fun h => nomatch h⟩

theorem keeps_updateState (id : Bytes) (target : JobState) (nowMs : Int) (message : Bytes) :
    Keeps (calls .commands (updateState id target nowMs message)) (held false true)
      fun t result => t = match result with
        | .ok _ => cancelled
        | .error _ => held false true := by
  simp only [updateState, Program.bind_def]
  rw [calls_bind]
  refine Stays.bind (stays_calls fun _ => uses_load (.inl rfl)) fun loaded => ?_
  match loaded with
  | .error e => exact ⟨fair_held false true, rfl⟩
  | .ok none => exact ⟨fair_held false true, rfl⟩
  | .ok (some job) =>
      simp only
      split
      · exact ⟨fair_held false true, rfl⟩
      · refine ⟨fair_held false true, fun reply => ?_⟩
        cases reply with
        | ok _ => exact ⟨fair_cancelled, rfl⟩
        | error e => exact ⟨fair_held false true, rfl⟩

theorem keeps_cancelInStore (id : Bytes) :
    Keeps (calls .commands (cancelInStore id)) (held false true)
      fun t result => t = if result.1 = .ok then cancelled else held false true := by
  simp only [cancelInStore, Program.bind_def]
  rw [calls_bind]
  refine Stays.bind (stays_calls fun _ => uses_load (.inl rfl)) fun loaded => ?_
  match loaded with
  | .error e => exact ⟨fair_held false true, rfl⟩
  | .ok none => exact ⟨fair_held false true, rfl⟩
  | .ok (some job) =>
      simp only
      split
      · exact ⟨fair_held false true, rfl⟩
      · rw [calls_bind]
        refine (keeps_updateState _ _ _ _).bind fun t result ht => ?_
        subst ht
        cases result with
        | ok _ => exact ⟨fair_cancelled, rfl⟩
        | error message => exact ⟨fair_held false true, rfl⟩

/-- The event of a cancellation goes out under the store mutex, if it goes out. -/
theorem keeps_emit_cancelled (event : JobEvent) :
    Keeps (emit event) cancelled fun t _ => t = held false true ∨ t.Spoilt := by
  refine ⟨fair_cancelled, fun there => ?_⟩
  cases there with
  | true =>
      refine ⟨.inr ⟨rfl, fun h => nomatch h⟩, fun _ => ?_⟩
      exact ⟨.inl ⟨rfl, rfl⟩, .inr ⟨rfl, rfl⟩⟩
  | false => exact ⟨fair_held false true, .inl rfl⟩

theorem fair_scope {t : Watch} (h : t = held false true ∨ t.Spoilt) : t.Fair := by
  rcases h with rfl | hspoilt
  · exact fair_held false true
  · exact .inl hspoilt

theorem keeps_cancelInScope (id : Bytes) (wasRunnable : Bool) :
    Keeps (cancelInScope id wasRunnable) (held false true)
      fun t _ => t = held false true ∨ t.Spoilt := by
  refine (keeps_cancelInStore id).bind fun t result ht => ?_
  obtain ⟨outcome, error⟩ := result
  subst ht
  simp only
  split
  · next hback =>
      rw [if_neg hback.1]
      refine Stays.bind (stays_section ?_) fun _ => ⟨fair_held false true, .inl rfl⟩
      exact stays_look.bind fun m => stays_change _
  · split
    · exact (keeps_emit_cancelled _).bind fun t _ ht => ⟨fair_scope ht, ht⟩
    · exact ⟨fair_held false true, .inl rfl⟩

theorem keeps_cancel (id : Bytes) :
    Keeps (cancel id) (held false false) fun t _ => t.Settled := by
  refine Stays.bind (stays_section ?_) fun claimed => ?_
  · refine stays_look.bind fun m => ?_
    split
    · exact stays_pure _
    · exact (stays_change _).bind fun _ => stays_pure _
  match claimed with
  | .error refusal => exact ⟨fair_held false false, .inl rfl⟩
  | .ok wasRunnable =>
      refine keeps_acquire_store ((keeps_cancelInScope id wasRunnable).bind fun t value ht => ?_)
      rcases ht with rfl | hspoilt
      · exact keeps_release_store ⟨fair_held false false, .inl rfl⟩
      · exact keeps_of_spoilt hspoilt fun _ _ h => .inr h

/-! ### Workers -/

/-- A worker ends without a mutex. -/
theorem keeps_workerLoop (rounds : Nat) :
    Keeps (workerLoop rounds) (held true false) fun t _ => t = held false false := by
  induction rounds with
  | zero => exact ⟨fair_held true false, fun none => nomatch none⟩
  | succ rounds ih =>
      refine stays_look.bind fun m => ?_
      split
      · split
        · exact keeps_release_manager (stays_closeStore .worker)
        · exact keeps_release_manager (keeps_acquire_manager ih)
      · refine (stays_change _).bind fun _ => stays_now.bind fun nowMs => ?_
        refine keeps_release_manager ((stays_emit _).bind fun _ => ?_)
        refine Stays.bind (stays_calls fun h => nomatch h) fun done => ?_
        refine (stays_emit _).bind fun _ => keeps_acquire_manager ?_
        exact stays_look.bind fun m => (stays_change _).bind fun _ => ih

theorem stays_runWorker (rounds : Nat) : Stays (runWorker rounds) false false := by
  refine (stays_openStore .worker).bind fun opened => ?_
  match opened with
  | .error message => exact stays_pure ()
  | .ok () => exact keeps_acquire_manager (keeps_workerLoop rounds)

/-! ## Every operation -/

theorem keeps_program (rounds : Nat) (operation : Operation) :
    Keeps (operation.program rounds) {} fun t _ => t.Settled := by
  have hsettles {α : Type} {program : LockProg α} (stays : Stays program false false) :
      Keeps program {} fun t _ => t.Settled := stays.mono fun _ _ h => .inl h
  cases operation with
  | start => exact hsettles (stays_start.bind fun _ => stays_pure ())
  | shutdown => exact hsettles stays_shutdown
  | submitNew request => exact hsettles ((stays_submitNew request).bind fun _ => stays_pure ())
  | submit id request => exact hsettles ((stays_submit id request).bind fun _ => stays_pure ())
  | pause id => exact hsettles ((stays_pause id).bind fun _ => stays_pure ())
  | resume id => exact hsettles ((stays_resume id).bind fun _ => stays_pure ())
  | cancel id =>
      refine (keeps_cancel id).bind fun t _ ht => ⟨?_, ht⟩
      rcases ht with rfl | hspoilt
      · exact fair_held false false
      · exact .inl hspoilt
  | retry id => exact hsettles ((stays_retry rounds id).bind fun _ => stays_pure ())
  | pump => exact hsettles (stays_pump.bind fun _ => stays_pure ())
  | runWorker => exact hsettles (stays_runWorker rounds)

/-- Operations one after the other, with what their callbacks call. -/
theorem keeps_inTurn {run : Operation → LockProg Unit}
    (keeps : ∀ operation, Keeps (run operation) {} fun t _ => t.Settled)
    (operations : List Operation) : Keeps (inTurn run operations) {} fun t _ => t.Settled := by
  induction operations with
  | nil => exact ⟨fair_held false false, .inl rfl⟩
  | cons operation rest ih =>
      refine (keeps operation).bind fun t _ ht => ?_
      rcases ht with rfl | hspoilt
      · exact ih
      · exact keeps_of_spoilt hspoilt fun _ _ h => .inr h

/-- When the rules allow a publication there is nothing to remember, or all is lost
anyway. -/
theorem settled_publish {t : Watch} {event : JobEvent} {called : List Operation}
    (before : t.Fair) (after : (watch t (.publish event) called).Fair) :
    (watch t (.publish event) called).Settled := by
  rcases after with hspoilt | ⟨hsound, hfree⟩
  · exact .inr hspoilt
  · have hallowed : t.broken = false ∧ t.manager = false ∧ t.store = false := by
      have h : (t.broken || !(!t.manager && !t.store)) = false := hsound
      simpa [and_assoc] using h
    obtain ⟨hbroken, hmanager, hstore⟩ := hallowed
    rcases before with hspoilt | ⟨_, hclear⟩
    · rw [hspoilt.1] at hbroken
      cases hbroken
    · obtain ⟨hcancelling, hreported⟩ := hclear hstore
      refine .inl ?_
      obtain ⟨manager, store, broken, cancelling, reported⟩ := t
      simp only at hbroken hmanager hstore hcancelling hreported
      subst hbroken hmanager hstore hcancelling hreported
      rfl

theorem keeps_nested (rounds depth : Nat) (operation : Operation) :
    Keeps (operation.nested rounds depth) {} fun t _ => t.Settled := by
  induction depth generalizing operation with
  | zero => exact keeps_program rounds operation
  | succ depth ih =>
      refine Program.Watched.graft (keeps_program rounds operation) ?_ fun u hspoilt program =>
        keeps_of_spoilt hspoilt fun _ _ h => .inr h
      intro t action reply before after
      cases action with
      | publish event =>
          rcases settled_publish before after with hempty | hspoilt
          · rw [hempty]
            exact keeps_inTurn ih reply
          · exact keeps_of_spoilt hspoilt fun _ _ h => .inr h
      | _ => exact ⟨after, .inl rfl⟩

/-- Every path of every operation keeps the rules, with whatever its subscribers call
from their callbacks, unless a cancellation was reported on it; and an operation that
is over has kept them exactly then. -/
theorem locks_disciplined (rounds depth : Nat) (operation : Operation)
    {path : List ((action : Action) × Result action)} {result : Option Unit}
    (taken : (operation.nested rounds depth).Path path result) :
    (¬ CancelReported path → Disciplined path) ∧
      (result ≠ none → (Disciplined path ↔ ¬ CancelReported path)) := by
  obtain ⟨hfair, hsettled⟩ := (keeps_nested rounds depth operation).path taken
  constructor
  · intro hquiet
    rcases hfair with hspoilt | ⟨hsound, _⟩
    · exact absurd hspoilt.2 hquiet
    · exact hsound
  · intro hover
    obtain ⟨value, hvalue⟩ := Option.ne_none_iff_exists'.mp hover
    rcases hsettled value hvalue with hempty | hspoilt
    · unfold Disciplined CancelReported
      rw [hempty]
      decide
    · unfold Disciplined CancelReported
      rw [hspoilt.1, hspoilt.2]
      decide

def aMove : MoveRequest := ⟨lit "/in", lit "a", lit "/out", lit "a"⟩

/-- A running manager that knows one job, which is not active. -/
def oneJob : Manager where
  config := ⟨3, 10, 100⟩
  strategy := .renameNoReplace
  runnable := [lit "j"]
  requests := AList.singleton (lit "j") aMove
  waiting := ∅
  paused := ∅
  active := ∅
  pending := ∅
  running := true
  stopping := false

/-- That job is QUEUED, the store takes every write, and a publisher is installed. -/
def oneJobAnswers : (action : Action) → Option (Result action)
  | .look => some oneJob
  | .call _ ⟨_, .selectJob _⟩ => some (.ok (some (freshJob (lit "j") aMove 0)))
  | .call _ ⟨_, .updateJob _ _ _⟩ => some (.ok ())
  | .publisher => some true
  | .publish _ => some []
  | .acquire _ | .release _ | .change _ => some ()
  | _ => none

/-- `pause` tells of its success when the mutex is free again. -/
theorem locks_disciplined_pause :
    ∃ path, ((Operation.pause (lit "j")).nested 0 0).Path path (some ()) ∧
      path.length = 6 ∧ Disciplined path := by
  have hpath := Program.path_follow oneJobAnswers ((Operation.pause (lit "j")).nested 0 0)
  have hend : (Program.follow oneJobAnswers ((Operation.pause (lit "j")).nested 0 0)).2 =
      some () := by decide +kernel
  have hquiet : ¬ CancelReported
      (Program.follow oneJobAnswers ((Operation.pause (lit "j")).nested 0 0)).1 := by
    unfold CancelReported
    decide +kernel
  refine ⟨_, hend ▸ hpath, by decide +kernel, ?_⟩
  exact (locks_disciplined 0 0 (.pause (lit "j")) hpath).1 hquiet

/-- `cancel` tells of its success with the store mutex held. -/
theorem cancel_publishes_locked :
    ∃ path, ((Operation.cancel (lit "j")).nested 0 0).Path path (some ()) ∧
      ¬ Disciplined path := by
  have hpath := Program.path_follow oneJobAnswers ((Operation.cancel (lit "j")).nested 0 0)
  have hend : (Program.follow oneJobAnswers ((Operation.cancel (lit "j")).nested 0 0)).2 =
      some () := by decide +kernel
  refine ⟨_, hend ▸ hpath, ?_⟩
  unfold Disciplined
  decide +kernel

end FileMover.Locks
