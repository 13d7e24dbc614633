import FileMover.Manager.Claims
import FileMover.Model.Frontend

/-!
# Submitted paths and system calls

A client names a file by an absolute path. The router splits it, the manager keeps
the parts, and the engine checks the directory part before it makes a system call;
the last component is only asked to be a plain name, and only after the directories
have been opened. Here the two checks are put together and compared with
`validate_external_path` on the path as it was submitted.
-/

namespace FileMover

open Framework

/-! ## Validation and splitting -/

def ValidPath (path : Bytes) : Prop := validateExternalPath path = .ok ()

instance (path : Bytes) : Decidable (ValidPath path) :=
  match h : validateExternalPath path with
  | .ok () => .isTrue h
  | .error message => .isFalse fun h' => by
      rw [ValidPath, h] at h'
      cases h'

/-- The last component is not `..` and holds no control character. -/
structure PlainLast (path : Bytes) : Prop where
  up : baseName path ≠ lit ".."
  control : ∀ b ∈ baseName path, isControl b = false

theorem validPath_iff {path : Bytes} :
    ValidPath path ↔ path.head? = some slash ∧ (∀ b ∈ path, isControl b = false) ∧
      hasDotDot [] path = false := by
  unfold ValidPath validateExternalPath
  by_cases hhead : path.head? = some slash
  · have hne : path ≠ [] := by
      rintro rfl
      cases hhead
    simp only [hne, if_false, hhead, ne_eq, not_true_eq_false, true_and]
    cases hcontrol : path.findIdx? isControl with
    | some i =>
        simp only [reduceCtorEq, false_iff, not_and]
        intro hall
        have hnone : path.findIdx? isControl = none := List.findIdx?_eq_none_iff.mpr hall
        rw [hnone] at hcontrol
        cases hcontrol
    | none =>
        rw [List.findIdx?_eq_none_iff] at hcontrol
        by_cases hup : hasDotDot [] path = true
        · simp [hup]
        · simpa [hup] using hcontrol
  · by_cases hne : path = []
    · simp [hne]
    · simp [hne, hhead]

theorem hasDotDot_append {component x y : Bytes} :
    hasDotDot component (x ++ slash :: y) = (hasDotDot component x || hasDotDot [] y) := by
  induction x generalizing component with
  | nil => simp [hasDotDot]
  | cons b x ih =>
      simp only [List.cons_append, hasDotDot]
      split_ifs with hb
      · rw [ih, Bool.or_assoc]
      · exact ih

theorem hasDotDot_name {component name : Bytes} (h : slash ∉ name) :
    hasDotDot component name = decide (component ++ name = lit "..") := by
  induction name generalizing component with
  | nil => simp [hasDotDot]
  | cons b name ih =>
      rw [List.mem_cons, not_or] at h
      rw [hasDotDot, if_neg (Ne.symm h.1), ih h.2]
      simp

/-! ### The scan, position by position -/

/-- Where the component that begins at `start` ends: `path.find('/', start)`, or the size of
the path if that is `npos`. -/
def componentEnd (path : Bytes) (start : Nat) : Nat :=
  start + ((path.drop start).takeWhile (· ≠ slash)).length

/-- The component loop of `validate_external_path`, position by position: whether it meets a
`..`, and no answer if it has not come to its end after so many rounds. -/
def componentLoop (path : Bytes) : Nat → Nat → Option Bool
  | 0, _ => none
  | rounds + 1, start =>
      if start ≤ path.length then
        let stop := componentEnd path start
        if (path.drop start).take (stop - start) = lit ".." then some true
        else componentLoop path rounds (stop + 1)
      else some false

/-- The component at `start`, and what follows it: nothing, or a slash and the rest. -/
theorem exists_component (path : Bytes) (start : Nat) :
    ∃ name, slash ∉ name ∧ componentEnd path start = start + name.length ∧
      (path.drop start = name ∨
        path.drop start = name ++ slash :: path.drop (componentEnd path start + 1)) := by
  have hsplit := (List.takeWhile_append_dropWhile (p := (· ≠ slash)) (l := path.drop start)).symm
  refine ⟨(path.drop start).takeWhile (· ≠ slash), ?_, rfl, ?_⟩
  · intro hmem
    simpa using List.mem_takeWhile_imp hmem
  · rw [componentEnd]
    generalize (path.drop start).takeWhile (· ≠ slash) = name at hsplit ⊢
    cases hrest : (path.drop start).dropWhile (· ≠ slash) with
    | nil =>
        rw [hrest, List.append_nil] at hsplit
        exact .inl hsplit
    | cons b rest =>
        have hslash : b = slash := by
          have hhead := List.head?_dropWhile_not (· ≠ slash) (path.drop start)
          rw [hrest] at hhead
          simpa using hhead
        rw [hrest, hslash] at hsplit
        have htail : path.drop (start + name.length + 1) = rest := by
          rw [Nat.add_assoc, ← List.drop_drop, hsplit]
          simp
        rw [htail]
        exact .inr hsplit

/-- Every round moves the start forward, and the round that begins behind the path is the
last one: the loop ends, and it has looked at every component. -/
theorem componentLoop_eq {path : Bytes} {rounds start : Nat} (hstart : start ≤ path.length + 1)
    (enough : path.length + 2 ≤ rounds + start) :
    componentLoop path rounds start =
      some (decide (start ≤ path.length) && hasDotDot [] (path.drop start)) := by
  induction rounds generalizing start with
  | zero => omega
  | succ rounds ih =>
      rw [componentLoop]
      dsimp only
      by_cases hle : start ≤ path.length
      · obtain ⟨name, hname, hend, hrest⟩ := exists_component path start
        have htake : (path.drop start).take name.length = name := by
          rcases hrest with hlast | hmore
          · rw [hlast, List.take_length]
          · rw [hmore, List.take_left]
        rw [if_pos hle, hend, Nat.add_sub_cancel_left, htake, decide_eq_true hle, Bool.true_and]
        rcases hrest with hlast | hmore
        · -- the last component; the next round finds the start behind the path
          have hlength := congrArg List.length hlast
          rw [List.length_drop] at hlength
          rw [hlast, hasDotDot_name hname, List.nil_append]
          split_ifs with hup
          · rw [decide_eq_true hup]
          · have hover : ¬ start + name.length + 1 ≤ path.length := by omega
            rw [ih (by omega) (by omega), decide_eq_false hup, decide_eq_false hover,
              Bool.false_and]
        · have hlength := congrArg List.length hmore
          rw [List.length_append, List.length_cons, List.length_drop, List.length_drop, hend]
            at hlength
          rw [hend] at hmore
          rw [hmore, hasDotDot_append, hasDotDot_name hname, List.nil_append]
          split_ifs with hup
          · rw [decide_eq_true hup, Bool.true_or]
          · have hinside : start + name.length + 1 ≤ path.length := by omega
            rw [ih (by omega) (by omega), decide_eq_false hup, decide_eq_true hinside,
              Bool.true_and, Bool.false_or]
      · rw [if_neg hle, decide_eq_false hle, Bool.false_and]

/-- `..` is looked for among the pieces between the slashes. -/
theorem hasDotDot_iff {component path : Bytes} :
    hasDotDot component path = true ↔
      lit ".." ∈ (path.splitOn slash).modifyHead (component ++ ·) := by
  induction path generalizing component with
  | nil => simp [hasDotDot, eq_comm]
  | cons b path ih =>
      rw [hasDotDot, List.splitOn_cons_eq_if_modifyHead]
      by_cases hb : b = slash
      · have hid : ((fun x => ([] : Bytes) ++ x) : Bytes → Bytes) = id := rfl
        rw [if_pos hb, if_pos (beq_iff_eq.mpr hb), Bool.or_eq_true, ih, hid,
          List.modifyHead_id, id_eq, List.modifyHead_cons, List.append_nil, List.mem_cons,
          decide_eq_true_eq, eq_comm]
      · rw [if_neg hb, if_neg (mt beq_iff_eq.mp hb), ih, List.modifyHead_modifyHead]
        simp [Function.comp_def]

/-- Accepted are exactly the absolute paths without a control character none of whose pieces
between slashes is `..`; and the loop over the components, which steps behind the end of
the path, ends for every path, with the answer that decides. -/
theorem validateExternalPath_decides (path : Bytes) :
    (validateExternalPath path = .ok () ↔
      path ≠ [] ∧ path.head? = some slash ∧ (∀ b ∈ path, ¬ b < 0x20 ∧ b ≠ 0x7F) ∧
        lit ".." ∉ path.splitOn slash) ∧
      ∃ rounds, ∀ more, componentLoop path (rounds + more) 0 = some (hasDotDot [] path) := by
  refine ⟨?_, path.length + 2, fun more => ?_⟩
  · have hup : hasDotDot [] path = false ↔ lit ".." ∉ path.splitOn slash := by
      have hid : ((fun x => ([] : Bytes) ++ x) : Bytes → Bytes) = id := rfl
      rw [← Bool.not_eq_true, hasDotDot_iff, hid, List.modifyHead_id, id_eq]
    have hcontrol : ∀ b : UInt8, isControl b = false ↔ ¬ b < 0x20 ∧ b ≠ 0x7F := by
      intro b
      simp [isControl]
    constructor
    · intro haccept
      obtain ⟨hhead, hbytes, hdots⟩ := validPath_iff.mp haccept
      refine ⟨?_, hhead, fun b hb => (hcontrol b).mp (hbytes b hb), hup.mp hdots⟩
      rintro rfl
      cases hhead
    · rintro ⟨-, hhead, hbytes, hdots⟩
      exact validPath_iff.mpr ⟨hhead, fun b hb => (hcontrol b).mpr (hbytes b hb), hup.mpr hdots⟩
  · rw [componentLoop_eq (Nat.zero_le _) (by omega), decide_eq_true (Nat.zero_le _),
      Bool.true_and, List.drop_zero]

example : componentLoop (lit "/a/") 5 0 = some false := by decide

/-! ### Splitting -/

/-- What stands before the last slash. -/
theorem exists_front {path : Bytes} (h : slash ∈ path) :
    ∃ front, path = front ++ slash :: baseName path := by
  obtain ⟨x, y, heq, hx⟩ := List.eq_append_cons_of_mem (List.mem_reverse.mpr h)
  have hall : ∀ b ∈ x, decide (b ≠ slash) = true := by
    intro b hb
    simp only [ne_eq, decide_eq_true_eq]
    rintro rfl
    exact hx hb
  have hbase : baseName path = x.reverse := by
    rw [baseName, heq, List.takeWhile_append_of_pos hall]
    simp
  refine ⟨y.reverse, ?_⟩
  rw [hbase, ← List.reverse_reverse path, heq]
  simp

theorem splitPath_eq {path dir name : Bytes} (h : splitPath path = some (dir, name)) :
    ∃ front, path = front ++ slash :: name ∧ path.head? = some slash ∧ name = baseName path ∧
      dir = if front = [] then lit "/" else front := by
  unfold splitPath at h
  by_cases hhead : path.head? = some slash
  · by_cases hname : baseName path = []
    · simp [hhead, hname] at h
    · obtain ⟨front, hfront⟩ := exists_front (List.mem_of_mem_head? hhead)
      have hslash : path.length - (baseName path).length - 1 = front.length := by
        have hlength := congrArg List.length hfront
        simp only [List.length_append, List.length_cons] at hlength
        omega
      have htake : path.take front.length = front := by
        rw [hfront, List.take_left]
      simp only [hhead, ne_eq, not_true_eq_false, if_false, hname, hslash, htake,
        List.length_eq_zero_iff, Option.some.injEq, Prod.mk.injEq] at h
      obtain ⟨rfl, rfl⟩ := h
      exact ⟨front, hfront, hhead, rfl, rfl⟩
  · simp [hhead] at h

/-- Of a path that can be split, the directory part is validated as a whole; what
remains to be asked is about the last component. -/
theorem validPath_of_split {path dir name : Bytes} (h : splitPath path = some (dir, name)) :
    ValidPath path ↔ ValidPath dir ∧ PlainLast path := by
  obtain ⟨front, hfront, hhead, hname, hdir⟩ := splitPath_eq h
  have hnoslash : slash ∉ name := by
    rw [hname]
    exact slash_notMem_baseName path
  have hplain : PlainLast path ↔ name ≠ lit ".." ∧ ∀ b ∈ name, isControl b = false := by
    rw [hname]
    exact ⟨fun h => ⟨h.up, h.control⟩, fun h => ⟨h.1, h.2⟩⟩
  have hcontrol : (∀ b ∈ path, isControl b = false) ↔
      (∀ b ∈ front, isControl b = false) ∧ ∀ b ∈ name, isControl b = false := by
    have hs : isControl slash = false := by decide
    rw [hfront, List.forall_mem_append, List.forall_mem_cons]
    simp [hs]
  have hup : hasDotDot [] path = false ↔ hasDotDot [] front = false ∧ name ≠ lit ".." := by
    rw [hfront, hasDotDot_append, hasDotDot_name hnoslash]
    simp
  rw [hplain, validPath_iff, hcontrol, hup, hdir]
  by_cases hempty : front = []
  · have hroot : ValidPath (lit "/") := by decide
    have hnil : hasDotDot [] [] = false := by decide
    subst hempty
    simp only [hhead, if_true, hroot, hnil, List.not_mem_nil, false_implies, implies_true,
      true_and]
    exact and_comm
  · have hfirst : front.head? = some slash := by
      rw [hfront, List.head?_append_of_ne_nil _ hempty] at hhead
      exact hhead
    rw [if_neg hempty, validPath_iff]
    simp only [hhead, hfirst, true_and]
    tauto

/-! ## The system calls of a worker -/

section Calls
variable {P : Prop} {id : Bytes}

/-- Calls that are not system calls on the filesystem, unless `P`. -/
def Behind (P : Prop) (c : Call) : Prop := c.op.onStore = false → P

theorem behind_of_store {c : Call} (h : c.op.onStore = true) : Behind P c := by
  intro h'
  rw [h] at h'
  cases h'

theorem failPermanently_behind {reason : Bytes} : (failPermanently id reason).Uses (Behind P) := by
  refine (uses_recordAttempt (behind_of_store rfl)).bind fun _ => ?_
  refine (uses_load (behind_of_store rfl)).bind fun loaded => ?_
  match loaded with
  | .error message => trivial
  | .ok none => trivial
  | .ok (some job) =>
      simp only
      split
      · trivial
      · exact (uses_updateState (behind_of_store rfl) fun _ _ _ => behind_of_store rfl).bind
          fun _ => trivial

/-- A worker makes a system call for a job exactly if both directories of its request
are valid: the first one is opened before anything is said about the names. -/
theorem workOn_behind_iff {config : RetryConfig} {request : MoveRequest}
    {strategy : MoveStrategy} {nowMs : Int} :
    (workOn config id request strategy nowMs).Uses (Behind P) ↔
      (ValidPath request.sourceDir → ValidPath request.destDir → P) := by
  constructor
  · intro huses hsource hdest
    unfold workOn execute validate at huses
    rw [show validateExternalPath request.sourceDir = .ok () from hsource,
      show validateExternalPath request.destDir = .ok () from hdest] at huses
    -- the row is there, and the source directory is opened next
    have hload := huses.2 (.ok (some (Job.new id [] [] 0)))
    exact hload.1 rfl
  · intro hvalid
    by_cases hdirs : ValidPath request.sourceDir ∧ ValidPath request.destDir
    · have hp := hvalid hdirs.1 hdirs.2
      exact workOn_calls.mono fun _ _ _ => hp
    · have hrejected : ∃ message, execute id request strategy = .pure (.rejected, message) := by
        unfold execute validate
        cases hsource : validateExternalPath request.sourceDir with
        | error message => exact ⟨message, rfl⟩
        | ok _ =>
            cases hdest : validateExternalPath request.destDir with
            | error message => exact ⟨message, rfl⟩
            | ok _ => exact absurd ⟨hsource, hdest⟩ hdirs
      obtain ⟨message, hmessage⟩ := hrejected
      unfold workOn
      rw [hmessage]
      exact failPermanently_behind.bind fun _ => trivial

end Calls

/-! ## Workers and the requests of their jobs -/

/-- Whatever a worker still does for a job, it makes a system call only if both
directories of the request of the job are valid. -/
structure Screened (s : System) : Prop where
  registry : Registry s
  claims : Claims s
  working : ∀ n id rest request, s.threads n = .working id rest →
    s.manager.requests.lookup id = some request →
    rest.Uses (Behind (ValidPath request.sourceDir ∧ ValidPath request.destDir))

theorem screened_started (config : RetryConfig) (strategy : MoveStrategy) (w : World)
    (workers : Nat → Bool) : Screened (System.started config strategy w workers) := by
  refine ⟨registry_started config strategy w workers, claims_started config strategy w workers, ?_⟩
  intro n id rest request h
  simp only [System.started] at h
  split at h <;> cases h

theorem Screened.step {s t : System} {event : ManagerEvent} (inv : Screened s)
    (step : SystemStep s event t) : Screened t := by
  refine ⟨inv.registry.step step, inv.claims.step inv.registry step, ?_⟩
  intro n id rest request hworking hlookup
  -- a worker's job is known, and the request of a known job does not change
  have hbefore : ∀ {more}, s.threads n = .working id more →
      s.manager.requests.lookup id = some request := by
    intro more hmore
    have hknown : id ∈ s.manager.requests := by
      refine inv.registry.works n id ?_
      rw [System.roles, hmore]
      rfl
    obtain ⟨request', hrequest'⟩ := Option.isSome_iff_exists.mp (AList.lookup_isSome.mpr hknown)
    rw [step.lookup inv.claims hrequest'] at hlookup
    rw [hrequest', hlookup]
  rcases step.working hworking with ⟨hsame, -⟩ | ⟨fault, c, next, -, hcalled, rfl, -⟩ |
    ⟨nowMs, request', m, -, hpick, rfl, hmanager⟩
  · exact inv.working n id rest request hsame (hbefore hsame)
  · exact (inv.working n id _ request hcalled (hbefore hcalled)).2 _
  · rw [hmanager, Manager.pickUp_lookup hpick] at hlookup
    cases hlookup
    exact workOn_behind_iff.mpr fun hsource hdest => ⟨hsource, hdest⟩

/-! ## Submissions and their ids -/

/-- How far the command of a handler is, and what that says about its submission. -/
def Stage (accepted : List (Bytes × Http.Request)) (request : Http.Request) (jobId : Bytes) :
    Thread → Prop
  | .submitWaits id move _ => commandOf request = some (.submit move) ∧ jobId = id
  | .submitRecords id move _ => commandOf request = some (.submit move) ∧ jobId = id
  | .submitPublishes id move _ => commandOf request = some (.submit move) ∧ jobId = id
  | .returned result _ => result = .ok → ∀ move, commandOf request = some (.submit move) →
      (jobId, request) ∈ accepted
  | .cancelWaits _ _ | .cancelActs _ _ _ | .retryWaits _ _ _ | .retryLoads _ _ _ _ =>
      ∀ move, commandOf request ≠ some (.submit move)
  | .retryProbes _ _ _ _ _ | .retryRecords _ _ _ =>
      ∀ move, commandOf request ≠ some (.submit move)
  | .idle | .waiting | .exited | .working _ _ => True

variable {accepted accepted' : List (Bytes × Http.Request)} {request : Http.Request}
  {jobId : Bytes}

theorem Stage.grow {thread : Thread} (h : Stage accepted request jobId thread)
    (grows : ∀ entry ∈ accepted, entry ∈ accepted') : Stage accepted' request jobId thread := by
  cases thread with
  | returned result error => exact fun hok move hmove => grows _ (h hok move hmove)
  | _ => exact h

theorem Stage.locked {thread thread' : Thread} (h : Stage accepted request jobId thread)
    (hlocked : thread.locked = some thread') : Stage accepted request jobId thread' := by
  unfold Thread.locked at hlocked
  split at hlocked
  · cases hlocked
    exact h
  · cases hlocked
    exact h
  · cases hlocked
    exact h
  · cases hlocked

theorem Stage.called {thread : Thread} {c : Call} {rest : Reply c → Thread}
    (h : Stage accepted request jobId thread) (calling : Calling thread c rest)
    (reply : Reply c) : Stage accepted request jobId (rest reply) := by
  cases calling <;> exact h

theorem Stage.proceed {s t : System} {n : Nat} (h : Stage accepted request jobId (s.threads n))
    (hproceed : s.proceed n = some t)
    (published : ∀ id move, s.threads n = .submitPublishes id move (.ok ()) →
      (id, request) ∈ accepted) : Stage accepted request jobId (t.threads n) := by
  unfold System.proceed at hproceed
  split at hproceed
  · cases hproceed
    rw [System.threads_setThread_self]
    trivial
  · rename_i hthread
    rw [hthread] at h
    cases hproceed
    rw [System.threads_setThread_self]
    exact h
  · rename_i id move recorded hthread
    cases hproceed
    rw [System.threads_setThread_self]
    rw [hthread] at h
    obtain ⟨-, rfl⟩ := h
    cases recorded with
    | ok _ => exact fun _ _ _ => published _ _ hthread
    | error message => exact fun hok => absurd hok (by decide)
  · rename_i hthread
    rw [hthread] at h
    cases hproceed
    rw [System.threads_setThread_self]
    exact fun _ move hmove => absurd hmove (h move)
  · rename_i hthread
    rw [hthread] at h
    split at hproceed
    · cases hproceed
      rw [System.threads_setThread_self]
      exact fun _ move hmove => absurd hmove (h move)
    · cases hproceed
      rw [System.threads_setThread_self]
      exact h
  · rename_i hthread
    rw [hthread] at h
    split at hproceed
    · cases hproceed
      rw [System.threads_setThread_self]
      exact fun _ move hmove => absurd hmove (h move)
    · cases hproceed
      rw [System.threads_setThread_self]
      exact h
    · split at hproceed
      · cases hproceed
        rw [System.threads_setThread_self]
        exact h
      · cases hproceed
        rw [System.threads_setThread_self]
        exact h
  · rename_i recorded hthread
    rw [hthread] at h
    cases hproceed
    rw [System.threads_setThread_self]
    cases recorded <;> exact fun _ move hmove => absurd hmove (h move)
  · cases hproceed

theorem Stage.act {s t : System} {event : ManagerEvent} {k : Nat}
    (h : Stage accepted request jobId (s.threads k)) (hact : s.act event = some t)
    (hbegins : event.begins ≠ some k)
    (published : ∀ id move, event = .proceed k → s.threads k = .submitPublishes id move (.ok ()) →
      (id, request) ∈ accepted) : Stage accepted request jobId (t.threads k) := by
  rcases System.continues hact hbegins with hsame | hworker | hlocked |
    ⟨c, rest, fault, calling, rfl⟩ | ⟨hevent, hproceed⟩
  · rw [hsame]
    exact h
  · cases hthread : t.threads k with
    | waiting | exited | working => trivial
    | _ =>
        rw [hthread] at hworker
        cases hworker
  · exact h.locked hlocked
  · rw [System.threads_setThread_self]
    exact h.called calling _
  · exact h.proceed hproceed fun id move => published id move hevent

/-! ## The handlers -/

/-- The manager has, for every submission that went through, the request that its
paths were split into. -/
structure Tracked (f : Frontend) : Prop where
  screened : Screened f.system
  accepted : ∀ id request, (id, request) ∈ f.accepted → ∃ move,
    commandOf request = some (.submit move) ∧ f.system.manager.requests.lookup id = some move
  stage : ∀ n request jobId, f.handlers n = .asking request jobId →
    Stage f.accepted request jobId (f.system.threads n)

variable {f g : Frontend}

/-- Only the submission that is published is added to the accepted ones. -/
theorem Frontend.publishing_eq {event : ManagerEvent} {entry : Bytes × Http.Request}
    (h : entry ∈ f.publishing event) :
    ∃ n move jobId, event = .proceed n ∧
      f.system.threads n = .submitPublishes entry.1 move (.ok ()) ∧
      f.handlers n = .asking entry.2 jobId := by
  unfold Frontend.publishing at h
  split at h
  · split at h
    · rename_i hthread hhandler
      rw [List.mem_singleton] at h
      subst h
      exact ⟨_, _, _, rfl, hthread, hhandler⟩
    · cases h
  · cases h

theorem Tracked.manager (inv : Tracked f) {event : ManagerEvent} {t : System}
    (hact : f.system.act event = some t) :
    Tracked ⟨t, f.following event t, f.accepted ++ f.publishing event⟩ := by
  have step := systemStep hact
  refine ⟨inv.screened.step step, ?_, ?_⟩
  · intro id request hmem
    rcases List.mem_append.mp hmem with hmem | hmem
    · obtain ⟨move, hcommand, hlookup⟩ := inv.accepted id request hmem
      exact ⟨move, hcommand, step.lookup inv.screened.claims hlookup⟩
    · obtain ⟨n, move, jobId, rfl, hthread, hhandler⟩ := Frontend.publishing_eq hmem
      have hstage := inv.stage n request jobId hhandler
      rw [hthread] at hstage
      obtain ⟨hcommand, -⟩ := hstage
      refine ⟨move, hcommand, ?_⟩
      simp only [System.act, System.proceed, hthread] at hact
      cases hact
      exact AList.lookup_insert _
  · intro n request jobId hhandler
    simp only [Frontend.following] at hhandler
    split_ifs at hhandler with hbegins
    -- the handler was asking before, at the latest with another id
    have hasked : ∃ jobId', f.handlers n = .asking request jobId' ∧
        (jobId = jobId' ∨
          ∃ candidate move rest, t.threads n = .retryRecords candidate move rest) := by
      cases hbefore : f.handlers n with
      | asking request' jobId' =>
          rw [hbefore] at hhandler
          simp only [Handler.follow] at hhandler
          split at hhandler
          · rename_i hthread
            cases hhandler
            exact ⟨jobId', rfl, .inr ⟨_, _, _, hthread⟩⟩
          · cases hhandler
            exact ⟨_, rfl, .inl rfl⟩
      | _ =>
          rw [hbefore] at hhandler
          cases hhandler
    obtain ⟨jobId', hbefore, hid⟩ := hasked
    have hgrows : ∀ entry ∈ f.accepted, entry ∈ f.accepted ++ f.publishing event :=
      fun _ h => List.mem_append_left _ h
    have hstage := (inv.stage n request jobId' hbefore).grow hgrows
    have hafter := hstage.act hact hbegins fun id move hevent hthread => by
      refine List.mem_append_right _ ?_
      rw [hevent]
      simp [Frontend.publishing, hthread, hbefore]
    rcases hid with heq | ⟨candidate, move, rest, hthread⟩
    · rw [heq]
      exact hafter
    · simp only [hthread] at hafter ⊢
      exact hafter

theorem Tracked.setHandler (inv : Tracked f) {n : Nat} {handler : Handler}
    (h : ∀ request jobId, handler = .asking request jobId →
      Stage f.accepted request jobId (f.system.threads n)) : Tracked (f.setHandler n handler) := by
  refine ⟨inv.screened, inv.accepted, fun k request jobId hhandler => ?_⟩
  by_cases hk : k = n
  · subst hk
    simp only [Frontend.setHandler, Function.update_self] at hhandler
    exact h request jobId hhandler
  · simp only [Frontend.setHandler, Function.update_of_ne hk] at hhandler
    exact inv.stage k request jobId hhandler

/-- A handler begins a command; the other threads stay where they are. -/
theorem Tracked.ask (inv : Tracked f) {n : Nat} {event : ManagerEvent} {request : Http.Request}
    {jobId : Bytes} (hbegins : event.begins = some n)
    (hask : f.ask n event request jobId = some g)
    (h : ∀ t, f.system.act event = some t → Stage f.accepted request jobId (t.threads n)) :
    Tracked g := by
  unfold Frontend.ask at hask
  obtain ⟨t, ht, rfl⟩ := Option.map_eq_some_iff.mp hask
  have step := systemStep ht
  refine ⟨inv.screened.step step, ?_, fun k request' jobId' hhandler => ?_⟩
  · intro id request' hmem
    obtain ⟨move, hcommand, hlookup⟩ := inv.accepted id request' hmem
    exact ⟨move, hcommand, step.lookup inv.screened.claims hlookup⟩
  · by_cases hk : k = n
    · subst hk
      simp only [Frontend.setHandler, Function.update_self, Handler.asking.injEq] at hhandler
      obtain ⟨rfl, rfl⟩ := hhandler
      exact h t ht
    · simp only [Frontend.setHandler, Function.update_of_ne hk] at hhandler
      show Stage f.accepted request' jobId' (t.threads k)
      rw [System.begins_others ht hbegins hk]
      exact inv.stage k request' jobId' hhandler

/-- A command of one section answers at once, and is no submission. -/
theorem stage_command {s : System} {n : Nat} {result : Except Refusal Manager}
    (h : ∀ move, commandOf request ≠ some (.submit move)) :
    Stage accepted request jobId ((s.command n result).threads n) := by
  cases result with
  | error refusal =>
      simp only [System.command]
      rw [System.threads_setThread_self]
      exact fun _ move hmove => absurd hmove (h move)
  | ok m =>
      simp only [System.command]
      rw [System.threads_setThread_self]
      exact fun _ move hmove => absurd hmove (h move)

theorem Tracked.route (inv : Tracked f) {n : Nat} {request : Http.Request} {nowMs : Int}
    (hroute : f.route n request nowMs = some g) : Tracked g := by
  have hcommand : ∀ command answer, routeRequest request = .command command answer →
      ∀ move, commandOf request = some (.submit move) → command = .submit move := by
    intro command answer heq move hmove
    simpa [commandOf, heq] using hmove
  unfold Frontend.route at hroute
  split at hroute
  · cases hroute
    exact inv.setHandler nofun
  · split_ifs at hroute
    · cases hroute
      exact inv.setHandler nofun
    · cases hroute
      exact inv.setHandler nofun
  · rename_i heq
    have hno : ∀ move, commandOf request ≠ some (.submit move) :=
      fun move hmove => by cases hcommand _ _ heq move hmove
    refine inv.ask rfl hroute fun t ht => ?_
    simp only [System.act] at ht
    split_ifs at ht
    cases ht
    exact stage_command hno
  · rename_i heq
    have hno : ∀ move, commandOf request ≠ some (.submit move) :=
      fun move hmove => by cases hcommand _ _ heq move hmove
    refine inv.ask rfl hroute fun t ht => ?_
    simp only [System.act] at ht
    split_ifs at ht
    cases ht
    exact stage_command hno
  · rename_i heq
    have hno : ∀ move, commandOf request ≠ some (.submit move) :=
      fun move hmove => by cases hcommand _ _ heq move hmove
    refine inv.ask rfl hroute fun t ht => ?_
    simp only [System.act] at ht
    split_ifs at ht
    split at ht
    · cases ht
      rw [System.threads_setThread_self]
      exact fun _ move hmove => absurd hmove (hno move)
    · cases ht
      rw [System.threads_setThread_self]
      exact hno
  · rename_i heq
    have hno : ∀ move, commandOf request ≠ some (.submit move) :=
      fun move hmove => by cases hcommand _ _ heq move hmove
    refine inv.ask rfl hroute fun t ht => ?_
    simp only [System.act] at ht
    split_ifs at ht
    split at ht
    · cases ht
      rw [System.threads_setThread_self]
      exact fun _ move hmove => absurd hmove (hno move)
    · cases ht
      rw [System.threads_setThread_self]
      exact hno

theorem Tracked.step (inv : Tracked f) {event : FrontendEvent} (hact : f.act event = some g) :
    Tracked g := by
  cases event with
  | manager event =>
      simp only [Frontend.act] at hact
      split_ifs at hact
      obtain ⟨t, ht, rfl⟩ := Option.map_eq_some_iff.mp hact
      exact inv.manager ht
  | route n request nowMs =>
      simp only [Frontend.act] at hact
      split_ifs at hact
      exact inv.route hact
  | allocate n sequence nowMs =>
      simp only [Frontend.act] at hact
      split at hact
      · split at hact
        · rename_i hcommand
          refine inv.ask rfl hact fun t ht => ?_
          simp only [System.act] at ht
          split_ifs at ht
          split at ht
          · rename_i hclaim
            cases ht
            rw [System.threads_setThread_self]
            intro hok
            -- a claim is never refused with `Ok`
            unfold Manager.claimSubmit at hclaim
            split_ifs at hclaim <;> cases hclaim <;> cases hok
          · cases ht
            rw [System.threads_setThread_self]
            exact ⟨hcommand, rfl⟩
        · cases hact
      · cases hact
  | allocateFails n fault code =>
      simp only [Frontend.act] at hact
      split at hact
      · cases hact
        exact inv.setHandler (by rintro _ _ ⟨⟩)
      · cases hact

/-! ## Accepted submissions -/

/-- What is accepted stays accepted. -/
theorem Frontend.accepted_mono {event : FrontendEvent} (hact : f.act event = some g) :
    ∀ entry ∈ f.accepted, entry ∈ g.accepted := by
  have hask : ∀ {n event request jobId}, f.ask n event request jobId = some g →
      g.accepted = f.accepted := by
    intro n event request jobId h
    unfold Frontend.ask at h
    obtain ⟨t, -, rfl⟩ := Option.map_eq_some_iff.mp h
    rfl
  have hsame : g.accepted = f.accepted → ∀ entry ∈ f.accepted, entry ∈ g.accepted := by
    intro h entry hentry
    rw [h]
    exact hentry
  cases event with
  | manager event =>
      simp only [Frontend.act] at hact
      split_ifs at hact
      obtain ⟨t, -, rfl⟩ := Option.map_eq_some_iff.mp hact
      exact fun entry hentry => List.mem_append_left _ hentry
  | route n request nowMs =>
      simp only [Frontend.act] at hact
      split_ifs at hact
      unfold Frontend.route at hact
      split at hact
      · cases hact
        exact hsame rfl
      · split_ifs at hact
        · cases hact
          exact hsame rfl
        · cases hact
          exact hsame rfl
      all_goals exact hsame (hask hact)
  | allocate n sequence nowMs =>
      simp only [Frontend.act] at hact
      split at hact
      · split at hact
        · exact hsame (hask hact)
        · cases hact
      · cases hact
  | allocateFails n fault code =>
      simp only [Frontend.act] at hact
      split at hact
      · cases hact
        exact hsame rfl
      · cases hact

/-- Only a submission that the manager has accepted is answered with 202. -/
def CreatedRoute : Routed → Prop
  | .reply response => response.status ≠ 202
  | .command command answer => ∀ reply : CommandReply, (answer reply).status = 202 →
      (∃ move, command = .submit move) ∧ reply.result = .ok

theorem statusFor_ne_202 (result : CommandResult) : statusFor result ≠ 202 := by
  cases result <;> decide

theorem created_action {command : Command} (body : CommandReply → Bytes) :
    CreatedRoute (.command command fun reply => actionResponse reply (body reply)) := by
  intro reply h
  unfold actionResponse at h
  beta_reduce at h
  split_ifs at h <;> exact absurd h (statusFor_ne_202 _)

theorem created_routeRequest (request : Http.Request) : CreatedRoute (routeRequest request) := by
  have herror : ∀ {status message}, status ≠ 202 →
      CreatedRoute (.reply (errorResponse status message)) := fun h => h
  have hmethod : ∀ allow, CreatedRoute (.reply (methodNotAllowed allow)) := by
    intro allow
    show (405 : Nat) ≠ 202
    decide
  unfold routeRequest
  split
  · split_ifs
    · exact hmethod _
    · show (200 : Nat) ≠ 202
      decide
    · exact herror (by decide)
  · split_ifs
    · exact hmethod _
    · unfold routeSubmit
      split
      · exact herror (by decide)
      split
      · exact herror (by decide)
      · intro reply h
        beta_reduce at h
        split_ifs at h with hok
        · exact absurd h (statusFor_ne_202 _)
        · exact ⟨⟨_, rfl⟩, not_not.mp hok⟩
    · exact herror (by decide)
  · split_ifs
    · exact herror (by decide)
    · exact hmethod _
    · unfold routeAction
      split_ifs
      · exact herror (by decide)
      all_goals exact created_action _
    · exact herror (by decide)
  · exact herror (by decide)

theorem answer_202 {request : Http.Request} {reply : CommandReply}
    (h : (Frontend.answer request reply).status = 202) :
    (∃ move, commandOf request = some (.submit move)) ∧ reply.result = .ok := by
  have hroute := created_routeRequest request
  unfold Frontend.answer respond at h
  unfold commandOf
  cases hrequest : routeRequest request with
  | reply response =>
      rw [hrequest] at hroute h
      exact absurd h hroute
  | command command answer =>
      rw [hrequest] at hroute h
      obtain ⟨⟨move, rfl⟩, hok⟩ := hroute reply h
      exact ⟨⟨move, rfl⟩, hok⟩

/-- The submission behind a command of `POST /api/jobs`. -/
theorem submission_of_command {request : Http.Request} {move : MoveRequest}
    {submission : SubmitRequest} (hcommand : commandOf request = some (.submit move))
    (hdecode : decodeSubmitRequest request.body = .ok submission) :
    routedRequest submission.source submission.dest = some move := by
  unfold commandOf at hcommand
  split at hcommand
  · cases hcommand
  rename_i hroute
  cases hcommand
  unfold routeRequest at hroute
  split at hroute
  · split_ifs at hroute
  · split_ifs at hroute
    unfold routeSubmit at hroute
    rw [hdecode] at hroute
    simp only at hroute
    split at hroute
    · cases hroute
    · rename_i hrouted
      cases hroute
      exact hrouted
  · split_ifs at hroute
    unfold routeAction at hroute
    split_ifs at hroute
    all_goals cases hroute
  · cases hroute

/-- Both paths as a whole, when they are split into this request. -/
theorem validPaths_of_routed {source dest : Bytes} {move : MoveRequest}
    (h : routedRequest source dest = some move) :
    ValidPath source ∧ ValidPath dest ↔
      (ValidPath move.sourceDir ∧ ValidPath move.destDir) ∧ PlainLast source ∧ PlainLast dest := by
  unfold routedRequest at h
  split at h
  · rename_i hsource hdest
    cases h
    rw [validPath_of_split hsource, validPath_of_split hdest]
    exact and_and_and_comm
  · cases h

/-- A reply with 202 says that the submission went through. -/
theorem Tracked.accepted_of_reply (inv : Tracked f) {n : Nat} {request : Http.Request}
    {jobId : Bytes} {response : Http.Response} (hhandler : f.handlers n = .asking request jobId)
    (hreply : f.reply n = some response) (h202 : response.status = 202) :
    (jobId, request) ∈ f.accepted := by
  have hstage := inv.stage n request jobId hhandler
  unfold Frontend.reply at hreply
  rw [hhandler] at hreply
  split at hreply
  · rename_i hanswered
    cases hanswered
  · rename_i hasking hthread
    cases hasking
    cases hreply
    obtain ⟨⟨move, hmove⟩, hok⟩ := answer_202 h202
    rw [hthread] at hstage
    exact hstage hok move hmove
  · cases hreply

theorem tracked_opened (config : RetryConfig) (strategy : MoveStrategy) (w : World)
    (workers : Nat → Bool) : Tracked (Frontend.opened (System.started config strategy w workers)) :=
  ⟨screened_started config strategy w workers, nofun, nofun⟩

/-! ## The main result -/

/-- **Submitted paths are validated.** After a submission has been answered with 202,
every system call that a worker makes for the job is made with paths that
`validate_external_path` accepts as a whole, provided that the last component of
neither is `..` or holds a control character. For an execution of the job this is
exactly what it takes, unless its directories are refused. -/
theorem submitted_paths_validated (config : RetryConfig) (strategy : MoveStrategy) (w : World)
    (workers : Nat → Bool)
    (reach : GuardedReach Frontend.act (fun _ _ => True)
      (Frontend.opened (System.started config strategy w workers)) f)
    {n : Nat} {request : Http.Request} {jobId : Bytes} {response : Http.Response}
    {submission : SubmitRequest} (hhandler : f.handlers n = .asking request jobId)
    (hreply : f.reply n = some response) (h202 : response.status = 202)
    (hdecode : decodeSubmitRequest request.body = .ok submission)
    (later : GuardedReach Frontend.act (fun _ _ => True) f g) :
    (∀ k c rest, g.system.threads k = .working jobId (.call c rest) → c.op.onStore = false →
      PlainLast submission.source → PlainLast submission.dest →
      ValidPath submission.source ∧ ValidPath submission.dest) ∧
    ∃ move, g.system.manager.requests.lookup jobId = some move ∧
      routedRequest submission.source submission.dest = some move ∧
      ∀ config strategy nowMs,
        (workOn config jobId move strategy nowMs).Uses
            (Behind (ValidPath submission.source ∧ ValidPath submission.dest)) ↔
          (ValidPath move.sourceDir → ValidPath move.destDir →
            PlainLast submission.source ∧ PlainLast submission.dest) := by
  have hf : Tracked f := reach.invariant Tracked (fun _ hact h => h.step hact)
    (tracked_opened config strategy w workers)
  have hg : Tracked g := later.invariant Tracked (fun _ hact h => h.step hact) hf
  have haccepted := hf.accepted_of_reply hhandler hreply h202
  have hkept : (jobId, request) ∈ g.accepted :=
    later.invariant (fun h => (jobId, request) ∈ h.accepted)
      (fun _ hact h => Frontend.accepted_mono hact _ h) haccepted
  obtain ⟨move, hcommand, hlookup⟩ := hg.accepted jobId request hkept
  have hrouted := submission_of_command hcommand hdecode
  refine ⟨fun k c rest hworking hcall hsource hdest => ?_, move, hlookup, hrouted, ?_⟩
  · have huses := hg.screened.working k jobId _ move hworking hlookup
    have hdirs := huses.1 hcall
    exact (validPaths_of_routed hrouted).mpr ⟨hdirs, hsource, hdest⟩
  · intro config strategy nowMs
    rw [workOn_behind_iff, validPaths_of_routed hrouted]
    constructor
    · exact fun h hsource hdest => (h hsource hdest).2
    · exact fun h hsource hdest => ⟨⟨hsource, hdest⟩, h hsource hdest⟩

/-! ## Two submissions -/

/-- A manager with one worker on an empty store; `/s` and `/d` are directories. -/
def workerFrontend : Frontend :=
  Frontend.opened (System.started ⟨3, 1000, 60000⟩ .renameNoReplace
    { fs := (sampleWorld .queued []).fs, db := ∅ } fun n => n = 3)

def submitRequest (body : Bytes) : Http.Request :=
  { method := lit "POST", target := lit "/api/jobs", version := lit "HTTP/1.1", body := body }

/-- Handler 1 submits the body and gets the sequence number 7. -/
def submitSteps (body : Bytes) : List FrontendEvent :=
  [.route 1 (submitRequest body) 0, .allocate 1 7 0, .manager (.lock 1),
    .manager (.call 1 none), .manager (.proceed 1), .manager (.proceed 1)]

/-- Worker 3 picks the job up and has read its row. -/
def workSteps : List FrontendEvent := [.manager (.pickUp 3 0), .manager (.call 3 none)]

/-- The worker is about to open the source directory of a submission that was answered
with 202. -/
theorem exists_worked {body : Bytes}
    (hrun : ((replay Frontend.act (submitSteps body) workerFrontend).bind fun f =>
      (f.reply 1).map fun response => (f.handlers 1, response.status)) =
        some (.asking (submitRequest body) (lit "job-7"), 202))
    (hwork : ((replay Frontend.act (submitSteps body ++ workSteps) workerFrontend).bind fun g =>
      (g.system.threads 3).next.map fun next => ((g.system.threads 3).role, next.1.op)) =
        some (.works (lit "job-7"), .openRoot (lit "/s"))) :
    ∃ f g response c rest,
      GuardedReach Frontend.act (fun _ _ => True) workerFrontend f ∧
      GuardedReach Frontend.act (fun _ _ => True) f g ∧
      f.handlers 1 = .asking (submitRequest body) (lit "job-7") ∧
      f.reply 1 = some response ∧ response.status = 202 ∧
      g.system.threads 3 = .working (lit "job-7") (.call c rest) ∧ c.op.onStore = false := by
  have hfree : ∀ labels s, AllSteps Frontend.act (fun _ _ => True) labels s :=
    AllSteps.of_free fun _ _ => trivial
  obtain ⟨g', hg', hnext⟩ := Option.bind_eq_some_iff.mp hwork
  obtain ⟨f, g, hf, hg, hfg⟩ := exists_replay (Option.isSome_iff_exists.mpr ⟨g', hg'⟩)
  rw [hg'] at hfg
  cases hfg
  obtain ⟨f', hf', hreply⟩ := Option.bind_eq_some_iff.mp hrun
  rw [hf] at hf'
  cases hf'
  obtain ⟨response, hresponse, heq⟩ := Option.map_eq_some_iff.mp hreply
  obtain ⟨next, hnext, hop⟩ := Option.map_eq_some_iff.mp hnext
  simp only [Prod.mk.injEq] at heq hop
  obtain ⟨rest, hrest⟩ := Thread.working_of_role hop.1
  cases rest with
  | pure due =>
      rw [hrest] at hnext
      cases hnext
  | call c rest =>
      refine ⟨f, g', response, c, rest, .of_replay (hfree _ _) hf, .of_replay (hfree _ _) hg,
        heq.1, hresponse, heq.2, hrest, ?_⟩
      rw [hrest] at hnext
      cases hnext
      rw [show c.op = .openRoot (lit "/s") from hop.2]
      rfl

def plainBody : Bytes := lit "\x7b\"source\":\"/s/f\",\"dest\":\"/d/f\"\x7d"

/-- The source names a directory above the one it is split into. -/
def upwardBody : Bytes := lit "\x7b\"source\":\"/s/..\",\"dest\":\"/d/f\"\x7d"

theorem submitted_paths_validated_sample :
    ∃ g : Frontend, ∃ c rest, g.system.threads 3 = .working (lit "job-7") (.call c rest) ∧
      c.op.onStore = false ∧ ValidPath (lit "/s/f") ∧ ValidPath (lit "/d/f") := by
  obtain ⟨f, g, response, c, rest, reach, later, hhandler, hreply, h202, hworking, hcall⟩ :=
    @exists_worked plainBody (by decide +kernel) (by decide +kernel)
  have hdecode : decodeSubmitRequest plainBody = .ok ⟨lit "/s/f", lit "/d/f"⟩ := by
    decide +kernel
  have hvalid := (submitted_paths_validated _ _ _ _ reach hhandler hreply h202 hdecode later).1 3 c
    rest hworking hcall ⟨by decide, by decide⟩ ⟨by decide, by decide⟩
  exact ⟨g, c, rest, hworking, hcall, hvalid⟩

/-- A system call is made for a submission whose source `validate_external_path`
refuses. -/
theorem submitted_path_refused :
    ∃ f g response c rest,
      GuardedReach Frontend.act (fun _ _ => True) workerFrontend f ∧
      GuardedReach Frontend.act (fun _ _ => True) f g ∧
      f.handlers 1 = .asking (submitRequest upwardBody) (lit "job-7") ∧
      f.reply 1 = some response ∧ response.status = 202 ∧
      decodeSubmitRequest upwardBody = .ok ⟨lit "/s/..", lit "/d/f"⟩ ∧
      g.system.threads 3 = .working (lit "job-7") (.call c rest) ∧ c.op.onStore = false ∧
      ¬ ValidPath (lit "/s/..") := by
  obtain ⟨f, g, response, c, rest, reach, later, hhandler, hreply, h202, hworking, hcall⟩ :=
    @exists_worked upwardBody (by decide +kernel) (by decide +kernel)
  exact ⟨f, g, response, c, rest, reach, later, hhandler, hreply, h202, by decide +kernel,
    hworking, hcall, by decide⟩

end FileMover
