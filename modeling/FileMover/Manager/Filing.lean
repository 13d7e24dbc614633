import FileMover.Manager.Claims
import FileMover.Model.Effects
import FileMover.Model.Frontend

/-!
# What the rows say of a job

A row is written once by `submit` or by `retry`, with the paths of the request that
the manager publishes afterwards and the id of the job it replaces. Every later write
leaves these columns alone. So a job that the manager knows has the paths of its
request on record, and a retry has those of the job it was made from.

The id of a retried job can hold no NUL: every candidate would then be taken for the
row of the job itself, and `retry` would never find a free one.
-/

namespace FileMover

open Framework

/-! ## Columns that stay -/

/-- The columns that no statement but the insert writes. -/
structure Row.SameOrigin (r r' : Row) : Prop where
  source : r'.job.sourcePath = r.job.sourcePath
  dest : r'.job.destPath = r.job.destPath
  retryOf : r'.retryOf = r.retryOf

variable {w : World} {op : Op} {fault : Option Fault} {id : Bytes} {r : Row}

theorem RowStep.origin {r' : Row} (step : RowStep op id r r') : r.SameOrigin r' := by
  cases step <;> exact ⟨rfl, rfl, rfl⟩

/-- A row that is there keeps these columns, whatever the call. -/
theorem perform_origin (hr : w.db.row id = some r) :
    ∃ r', (perform op fault w).2.db.row id = some r' ∧ r.SameOrigin r' := by
  obtain ⟨r', hr', hstep⟩ := perform_row hr
  exact ⟨r', hr', hstep.origin⟩

/-! ## A job on record -/

/-- The two paths as `submit` and `retry` put them together. -/
def Row.Records (r : Row) (move : MoveRequest) : Prop :=
  r.job.sourcePath = cstr (move.sourceDir ++ lit "/" ++ move.sourceName) ∧
    r.job.destPath = cstr (move.destDir ++ lit "/" ++ move.destName)

/-- The job is on record with the paths of its request; if it is a retry, so is the job
that it replaces. -/
def OnFile (w : World) (id : Bytes) (move : MoveRequest) : Prop :=
  ∃ r, w.db.row id = some r ∧ r.Records move ∧
    (r.retryOf = [] ∨ ∃ r', w.db.row r.retryOf = some r' ∧ r'.Records move)

theorem Row.Records.same {r r' : Row} {move : MoveRequest} (h : r.Records move)
    (same : r.SameOrigin r') : r'.Records move :=
  ⟨same.source.trans h.1, same.dest.trans h.2⟩

theorem OnFile.call {move : MoveRequest} (h : OnFile w id move) :
    OnFile (perform op fault w).2 id move := by
  obtain ⟨r, hr, hrecords, horigin⟩ := h
  obtain ⟨r', hr', hsame⟩ := perform_origin hr
  refine ⟨r', hr', hrecords.same hsame, ?_⟩
  rw [hsame.retryOf]
  rcases horigin with hnew | ⟨parent, hparent, hpaths⟩
  · exact .inl hnew
  · obtain ⟨parent', hparent', hsame'⟩ := perform_origin hparent
    exact .inr ⟨parent', hparent', hpaths.same hsame'⟩

/-! ## Candidates -/

theorem lastMarker_spec {marker : Bytes} {s : Bytes} {i : Nat}
    (h : lastMarker marker s = some i) : (s.drop i).take marker.length = marker := by
  induction s generalizing i with
  | nil =>
      rw [lastMarker] at h
      split at h
      · rename_i hempty
        rw [hempty]
        simp
      · cases h
  | cons b s ih =>
      rw [lastMarker] at h
      split at h
      · rename_i i' hi'
        cases h
        exact ih hi'
      · split at h
        · rename_i hhere
          cases h
          exact hhere
        · cases h

/-- A NUL of an id is in front of the suffix that `retry` takes off. -/
theorem zero_mem_stripRetrySuffix (h : 0 ∈ id) : 0 ∈ stripRetrySuffix id := by
  rw [stripRetrySuffix]
  split
  · exact h
  · rename_i i hmarker
    dsimp only
    split
    · exact h
    · split
      · rename_i hdigits
        have hsplit : id = id.take i ++ (retryMarker ++ id.drop (i + retryMarker.length)) := by
          have hhere := lastMarker_spec hmarker
          conv_lhs => rw [← List.take_append_drop i id]
          rw [← List.take_append_drop retryMarker.length (id.drop i), hhere, List.drop_drop]
        rw [hsplit, List.mem_append, List.mem_append] at h
        rcases h with hfront | hmark | hsuffix
        · exact hfront
        · exact absurd hmark (by decide)
        · have hdigit := List.all_eq_true.mp hdigits 0 hsuffix
          exact absurd hdigit (by decide)
      · exact h

theorem stripRetrySuffix_front (id : Bytes) : stripRetrySuffix id <+: id := by
  rw [stripRetrySuffix]
  split
  · exact List.prefix_rfl
  · dsimp only
    split
    · exact List.prefix_rfl
    · split
      · exact List.take_prefix _ _
      · exact List.prefix_rfl

theorem cstr_append_of_mem {s t : Bytes} (h : 0 ∈ s) : cstr (s ++ t) = cstr s := by
  induction s with
  | nil => cases h
  | cons b s ih =>
      by_cases hb : b = 0
      · subst hb
        simp [cstr]
      · have hs : 0 ∈ s := (List.mem_cons.mp h).resolve_left (Ne.symm hb)
        have hrest := ih hs
        simp only [cstr, List.cons_append, List.takeWhile_cons] at hrest ⊢
        simp only [hrest]

/-- Every candidate of an id with a NUL has the row of that id. -/
theorem cstr_retryCandidate (h : 0 ∈ id) (n : Nat) : cstr (retryCandidate id n) = cstr id := by
  have hstrip := zero_mem_stripRetrySuffix h
  obtain ⟨rest, hrest⟩ := stripRetrySuffix_front id
  have hid : cstr id = cstr (stripRetrySuffix id) := by
    conv_lhs => rw [← hrest]
    exact cstr_append_of_mem hstrip
  rw [retryCandidate, List.append_assoc, cstr_append_of_mem hstrip, hid]

/-! ## Threads that make a job -/

/-- A thread that puts a job on record does so with the paths of the request that it will
publish; one that retries does so for a job that it was asked to retry. -/
def Thread.Files (s : System) (asked : Bytes → Prop) : Thread → Prop
  | .submitRecords id request rest =>
      (∃ nowMs, rest = recordIntent (freshJob id request nowMs) []) ∨
        (∃ message, rest = .pure (.error message)) ∨
        rest = .pure (.ok ()) ∧ OnFile s.world id request
  | .submitPublishes id request (.ok _) => OnFile s.world id request
  | .retryWaits id move _ | .retryLoads id move _ _ =>
      asked id ∧ s.manager.requests.lookup id = some move
  | .retryProbes id move _ n rest =>
      asked id ∧ s.manager.requests.lookup id = some move ∧
        (rest = probeCandidate (retryCandidate id n) ∨
          (∃ result, rest = .pure result ∧ result ≠ .ok false) ∨
          rest = .pure (.ok false) ∧ 0 ∉ id)
  | .retryRecords candidate move rest =>
      (∃ id n nowMs, asked id ∧ 0 ∉ id ∧ s.manager.requests.lookup id = some move ∧
        candidate = retryCandidate id n ∧
        rest = recordIntent (freshJob candidate move nowMs) id) ∨
        (∃ message, rest = .pure (.error message)) ∨
        rest = .pure (.ok ()) ∧ OnFile s.world candidate move
  | _ => True

structure Filed (asked : Nat → Bytes → Prop) (s : System) : Prop where
  registry : Registry s
  claims : Claims s
  known : ∀ id move, s.manager.requests.lookup id = some move → OnFile s.world id move
  threads : ∀ n, (s.threads n).Files s (asked n)

section Step
variable {s t : System} {event : ManagerEvent} {asked asked' : Nat → Bytes → Prop}

/-- What is on file stays there. -/
theorem SystemStep.onFile (step : SystemStep s event t) {id : Bytes} {move : MoveRequest}
    (h : OnFile s.world id move) : OnFile t.world id move := by
  cases step with
  | called calling => exact h.call
  | _ => exact h

theorem Thread.Files.keep {thread : Thread} {P Q : Bytes → Prop} (h : thread.Files s P)
    (files : ∀ id move, OnFile s.world id move → OnFile t.world id move)
    (lookup : ∀ id move, s.manager.requests.lookup id = some move →
      t.manager.requests.lookup id = some move)
    (weaken : ∀ id, P id → Q id) : thread.Files t Q := by
  cases thread with
  | submitRecords id request rest =>
      rcases h with hcall | herror | ⟨hok, hfile⟩
      · exact .inl hcall
      · exact .inr (.inl herror)
      · exact .inr (.inr ⟨hok, files id request hfile⟩)
  | submitPublishes id request recorded =>
      cases recorded with
      | error message => trivial
      | ok _ => exact files id request h
  | retryWaits id move nowMs => exact ⟨weaken id h.1, lookup id move h.2⟩
  | retryLoads id move nowMs rest => exact ⟨weaken id h.1, lookup id move h.2⟩
  | retryProbes id move nowMs n rest => exact ⟨weaken id h.1, lookup id move h.2.1, h.2.2⟩
  | retryRecords candidate move rest =>
      rcases h with ⟨id, n, nowMs, hasked, hzero, hlookup, hcand, hcall⟩ | herror | ⟨hok, hfile⟩
      · exact .inl ⟨id, n, nowMs, weaken id hasked, hzero, lookup id move hlookup, hcand, hcall⟩
      · exact .inr (.inl herror)
      · exact .inr (.inr ⟨hok, files candidate move hfile⟩)
  | _ => trivial

/-- The insert of a command, and what its reply makes of it. -/
theorem recordIntent_call {job : Job} {retryOf : Bytes} {c : Call}
    {next : Reply c → Prog (Except Bytes Unit)}
    (h : Program.call c next = recordIntent job retryOf) :
    c.op = .insertJob job retryOf ∧
      ∀ reply, (∃ message, next reply = .pure (.error message)) ∨
        next reply = .pure (.ok ()) ∧ ∃ answer, reply = .ok answer := by
  cases h
  refine ⟨rfl, fun reply => ?_⟩
  cases reply with
  | error e => exact .inl ⟨_, rfl⟩
  | ok answer => exact .inr ⟨rfl, answer, rfl⟩

/-- A job that has just been inserted is on file. -/
theorem onFile_insert {w : World} {fault : Option Fault} {candidate retryOf : Bytes}
    {move : MoveRequest} {nowMs : Int}
    (hok : (perform (.insertJob (freshJob candidate move nowMs) retryOf) fault w).1 = .ok ())
    (origin : retryOf = [] ∨ 0 ∉ retryOf ∧ OnFile w retryOf move) :
    OnFile (perform (.insertJob (freshJob candidate move nowMs) retryOf) fault w).2 candidate
      move := by
  obtain ⟨hnone, r, hjob, hretry, -, hdb⟩ := perform_insert hok
  refine ⟨r, ?_, ?_, ?_⟩
  · rw [hdb]
    exact Database.row_setRow_self
  · rw [Row.Records, hjob]
    exact ⟨rfl, rfl⟩
  · rw [hretry]
    rcases origin with rfl | ⟨hzero, parent, hparent, hrecords, -⟩
    · exact .inl rfl
    · obtain ⟨parent', hparent', hsame⟩ := perform_origin hparent
      refine .inr ⟨parent', ?_, hrecords.same hsame⟩
      rw [cstr_of_notMem hzero]
      exact hparent'

/-- A command begins. -/
theorem Thread.files_begun {k : Nat} (hact : s.act event = some t)
    (hbegins : event.begins = some k)
    (begun : ∀ n id nowMs, event = .retry n id nowMs → asked' n id) :
    (t.threads k).Files t (asked' k) := by
  cases event with
  | submit n id request nowMs =>
      cases hbegins
      simp only [System.act] at hact
      split at hact
      · split at hact
        all_goals
          cases hact
          rw [System.threads_setThread_self]
          trivial
      · cases hact
  | pause n id | resume n id =>
      cases hbegins
      simp only [System.act] at hact
      split at hact
      · cases hact
        rw [System.command.eq_def]
        split
        all_goals
          rw [System.threads_setThread_self]
          trivial
      · cases hact
  | cancel n id =>
      cases hbegins
      simp only [System.act] at hact
      split at hact
      · split at hact
        all_goals
          cases hact
          rw [System.threads_setThread_self]
          trivial
      · cases hact
  | retry n id nowMs =>
      cases hbegins
      simp only [System.act] at hact
      split at hact
      · split at hact
        · cases hact
          rw [System.threads_setThread_self]
          trivial
        · rename_i move hclaim
          cases hact
          rw [System.threads_setThread_self]
          refine ⟨begun k id nowMs rfl, ?_⟩
          rw [Manager.claimRetry] at hclaim
          split at hclaim
          · cases hclaim
          · split at hclaim
            · cases hclaim
            · rename_i request hlookup
              cases hclaim
              exact hlookup
      · cases hact
  | _ => cases hbegins

theorem Thread.Files.locked {thread thread' : Thread} {P : Bytes → Prop} (h : thread.Files s P)
    (hlocked : thread.locked = some thread') : thread'.Files s P := by
  cases thread with
  | submitWaits id request nowMs =>
      cases hlocked
      exact .inl ⟨nowMs, rfl⟩
  | cancelWaits id wasRunnable =>
      cases hlocked
      trivial
  | retryWaits id move nowMs =>
      cases hlocked
      exact h
  | _ => cases hlocked

theorem Thread.Files.called {thread : Thread} {c : Call} {rest : Reply c → Thread}
    {fault : Option Fault} {P : Bytes → Prop} (inv : Filed asked s) (h : thread.Files s P)
    (calling : Calling thread c rest)
    (hworld : t.world = (perform c.op fault s.world).2)
    (hmanager : t.manager = s.manager) :
    (rest (perform c.op fault s.world).1).Files t P := by
  cases calling with
  | working | cancel => trivial
  | @submit id request c next =>
      obtain ⟨nowMs, hcall⟩ :
          ∃ nowMs, Program.call c next = recordIntent (freshJob id request nowMs) [] := by
        rcases h with hcall | ⟨message, herror⟩ | ⟨hok, -⟩
        · exact hcall
        · cases herror
        · cases hok
      obtain ⟨site, op⟩ := c
      obtain ⟨rfl, hnext⟩ := recordIntent_call hcall
      rcases hnext (perform (.insertJob (freshJob id request nowMs) []) fault s.world).1 with
        herror | ⟨hok, answer, hreply⟩
      · exact .inr (.inl herror)
      · refine .inr (.inr ⟨hok, ?_⟩)
        rw [hworld]
        exact onFile_insert hreply (.inl rfl)
  | @retryLoad id move nowMs c next =>
      show _ ∧ t.manager.requests.lookup id = some move
      rw [hmanager]
      exact h
  | @retryProbe id move nowMs n c next =>
      obtain ⟨hasked, hlookup, hprobe⟩ := h
      obtain hcall : Program.call c next = probeCandidate (retryCandidate id n) := by
        rcases hprobe with hcall | ⟨result, hpure, -⟩ | ⟨hpure, -⟩
        · exact hcall
        · cases hpure
        · cases hpure
      refine ⟨hasked, by rw [hmanager]; exact hlookup, .inr ?_⟩
      cases hcall
      -- a NUL in the id would make the probe find the row of the job itself
      have hfree : (perform (.selectJob (retryCandidate id n)) fault s.world).1 = .ok none →
          0 ∉ id := by
        intro hreply hzero
        obtain ⟨r, hr, -⟩ := inv.known id move hlookup
        rcases perform_cases (.selectJob (retryCandidate id n)) fault s.world with
          ⟨e, _, heq⟩ | heq
        · rw [heq] at hreply
          cases hreply
        · rw [heq] at hreply
          simp only [answer, Database.row_congr (cstr_retryCandidate hzero n), hr] at hreply
          cases hreply
      revert hfree
      show (_ → 0 ∉ id) → _
      rcases hreply : (perform (.selectJob (retryCandidate id n)) fault s.world).1 with e | found
      · exact fun _ => .inl ⟨_, rfl, (by rintro ⟨⟩)⟩
      · cases found with
        | none => exact fun hfree => .inr ⟨rfl, hfree rfl⟩
        | some job => exact fun _ => .inl ⟨_, rfl, (by rintro ⟨⟩)⟩
  | @retryRecord candidate move c next =>
      obtain ⟨id, n, nowMs, hasked, hzero, hlookup, rfl, hcall⟩ :
          ∃ id n nowMs, P id ∧ 0 ∉ id ∧ s.manager.requests.lookup id = some move ∧
            candidate = retryCandidate id n ∧
            Program.call c next = recordIntent (freshJob candidate move nowMs) id := by
        rcases h with hcall | ⟨message, herror⟩ | ⟨hok, -⟩
        · exact hcall
        · cases herror
        · cases hok
      obtain ⟨site, op⟩ := c
      obtain ⟨rfl, hnext⟩ := recordIntent_call hcall
      rcases hnext (perform (.insertJob (freshJob (retryCandidate id n) move nowMs) id) fault
        s.world).1 with herror | ⟨hok, answer, hreply⟩
      · exact .inr (.inl herror)
      · refine .inr (.inr ⟨hok, ?_⟩)
        rw [hworld]
        exact onFile_insert hreply (.inr ⟨hzero, inv.known id move hlookup⟩)

theorem Thread.Files.proceed {k : Nat} {P : Bytes → Prop} (h : (s.threads k).Files s P)
    (hproceed : s.proceed k = some t) : (t.threads k).Files t P := by
  unfold System.proceed at hproceed
  split at hproceed
  · cases hproceed
    rw [System.threads_setThread_self]
    trivial
  · rename_i id request recorded hthread
    cases hproceed
    rw [System.threads_setThread_self]
    rw [hthread] at h
    cases recorded with
    | error message => trivial
    | ok _ =>
        rcases h with ⟨nowMs, hcall⟩ | ⟨message, herror⟩ | ⟨-, hfile⟩
        · cases hcall
        · cases herror
        · exact hfile
  · rename_i id request recorded hthread
    cases hproceed
    rw [System.threads_setThread_self]
    cases recorded <;> trivial
  · cases hproceed
    rw [System.threads_setThread_self]
    trivial
  · rename_i id move nowMs result hthread
    rw [hthread] at h
    split at hproceed
    · cases hproceed
      rw [System.threads_setThread_self]
      trivial
    · cases hproceed
      rw [System.threads_setThread_self]
      exact ⟨h.1, h.2, .inl rfl⟩
  · rename_i id move nowMs n result hthread
    rw [hthread] at h
    obtain ⟨hasked, hlookup, hprobe⟩ := h
    split at hproceed
    · cases hproceed
      rw [System.threads_setThread_self]
      trivial
    · cases hproceed
      rw [System.threads_setThread_self]
      exact ⟨hasked, hlookup, .inl rfl⟩
    · split at hproceed
      · rename_i m hclaim
        obtain ⟨-, -, rfl⟩ := Manager.claimCandidate_eq hclaim
        cases hproceed
        rw [System.threads_setThread_self]
        have hzero : 0 ∉ id := by
          rcases hprobe with hcall | ⟨result, hpure, hne⟩ | ⟨-, hzero⟩
          · cases hcall
          · cases hpure
            exact absurd rfl hne
          · exact hzero
        exact .inl ⟨id, n, nowMs, hasked, hzero, hlookup, rfl, rfl⟩
      · cases hproceed
        rw [System.threads_setThread_self]
        exact ⟨hasked, hlookup, .inl rfl⟩
  · rename_i candidate move recorded hthread
    cases hproceed
    rw [System.threads_setThread_self]
    cases recorded <;> trivial
  · cases hproceed

/-- A job that the manager gets to know is one that a thread publishes. -/
theorem SystemStep.lookup_back (step : SystemStep s event t) (inv : Registry s) {id : Bytes}
    {move : MoveRequest} (h : t.manager.requests.lookup id = some move) :
    s.manager.requests.lookup id = some move ∨
      ∃ n, (s.threads n).publishes = some (id, move, .ok ()) := by
  cases step with
  | paused free hm =>
      obtain ⟨-, -, rfl⟩ := Manager.pause_eq hm
      exact .inl h
  | resumed free hm =>
      obtain ⟨-, -, rfl⟩ := Manager.resume_eq hm
      exact .inl h
  | @pumped nowMs =>
      change (s.manager.pump nowMs).requests.lookup id = some move at h
      rw [Manager.requests_pump] at h
      exact .inl h
  | claimedSubmit free hm =>
      obtain ⟨-, -, rfl⟩ := Manager.claimSubmit_eq hm
      exact .inl h
  | claimedCancel free hm =>
      obtain ⟨-, -, -, rfl⟩ := Manager.claimCancel_eq hm
      exact .inl h
  | claimedCandidate thread hm =>
      obtain ⟨-, -, rfl⟩ := Manager.claimCandidate_eq hm
      exact .inl h
  | @published n id' request recorded storeMutex hpublishes =>
      change (s.manager.publish id' request _).requests.lookup id = some move at h
      cases recorded with
      | error message => exact .inl h
      | ok _ =>
          by_cases hid : id = id'
          · subst hid
            have hmove : request = move := by
              simpa [Manager.publish, System.recordedOk] using h
            rw [hmove] at hpublishes
            exact .inr ⟨n, hpublishes⟩
          · refine .inl ?_
            simpa [Manager.publish, System.recordedOk, AList.lookup_insert_ne hid] using h
  | settledCancel thread =>
      refine .inl ?_
      simp only [Manager.settleCancel] at h
      split at h <;> exact h
  | @pickedUp n nowMs id' request m thread hm =>
      obtain ⟨rest, requests, hrunnable, hrequests, rfl⟩ := Manager.pickUp_eq hm
      have hknown : id' ∈ s.manager.requests :=
        inv.known id' (.inl (by rw [hrunnable]; exact List.mem_cons_self))
      change requests.lookup id = some move at h
      rw [hrequests hknown] at h
      exact .inl h
  | @settled n id' due thread => cases due <;> exact .inl h
  | _ => exact .inl h

/-- A job that is about to be published is on file. -/
theorem Thread.Files.published {thread : Thread} {P : Bytes → Prop} {id : Bytes}
    {move : MoveRequest} (h : thread.Files s P)
    (hpublishes : thread.publishes = some (id, move, .ok ())) : OnFile s.world id move := by
  unfold Thread.publishes at hpublishes
  split at hpublishes
  · cases hpublishes
    exact h
  · cases hpublishes
    rcases h with ⟨_, _, _, _, _, _, _, hcall⟩ | ⟨message, herror⟩ | ⟨-, hfile⟩
    · cases hcall
    · cases herror
    · exact hfile
  · cases hpublishes

theorem Filed.step (inv : Filed asked s) (hact : s.act event = some t)
    (kept : ∀ n id, event.begins ≠ some n → asked n id → asked' n id)
    (begun : ∀ n id nowMs, event = .retry n id nowMs → asked' n id) : Filed asked' t := by
  have hstep := systemStep hact
  refine ⟨inv.registry.step hstep, inv.claims.step inv.registry hstep, ?_, ?_⟩
  · intro id move hlookup
    rcases hstep.lookup_back inv.registry hlookup with hold | ⟨n, hpublishes⟩
    · exact hstep.onFile (inv.known id move hold)
    · exact hstep.onFile ((inv.threads n).published hpublishes)
  · intro k
    by_cases hbegins : event.begins = some k
    · exact Thread.files_begun hact hbegins begun
    have hthread : (s.threads k).Files s (asked' k) :=
      (inv.threads k).keep (fun _ _ h => h) (fun _ _ h => h) fun id h => kept k id hbegins h
    have hfiles : ∀ {thread : Thread}, thread.Files s (asked' k) → thread.Files t (asked' k) :=
      fun h => h.keep (fun _ _ => hstep.onFile) (fun _ _ h => hstep.lookup inv.claims h)
        fun _ h => h
    rcases System.continues hact hbegins with hsame | hworker | hlocked |
      ⟨c, rest, fault, calling, rfl⟩ | ⟨-, hproceed⟩
    · rw [hsame]
      exact hfiles hthread
    · revert hworker
      cases t.threads k <;> first | exact fun _ => trivial | exact nofun
    · exact hfiles (hthread.locked hlocked)
    · rw [System.threads_setThread_self]
      exact hthread.called inv calling rfl rfl
    · exact hthread.proceed hproceed

end Step

theorem filed_started (asked : Nat → Bytes → Prop) (config : RetryConfig)
    (strategy : MoveStrategy) (w : World) (workers : Nat → Bool) :
    Filed asked (System.started config strategy w workers) := by
  refine ⟨registry_started config strategy w workers, claims_started config strategy w workers,
    nofun, fun n => ?_⟩
  simp only [System.started]
  split <;> trivial

end FileMover
