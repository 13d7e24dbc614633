import FileMover.Api.Messages
import FileMover.Api.Paths
import FileMover.Manager.Filing

/-!
# Recorded paths

The router splits a path at its last slash, and the manager puts a slash between the
two parts when it writes the row. For a path whose last slash is its first byte the
directory is `/` itself, so that the row gets a second slash; every other path comes
back as it was, doubled slashes included. A retry writes its row from the same two
parts.
-/

namespace FileMover

open Framework

/-! ## Splitting and joining -/

/-- The two parts, put together again, are the path unless its directory is the root. -/
theorem join_split_iff {path dir name : Bytes} (h : splitPath path = some (dir, name)) :
    dir ++ lit "/" ++ name = path ↔ slash ∈ path.tail := by
  obtain ⟨front, hfront, -, hname, hdir⟩ := splitPath_eq h
  have hnoslash : slash ∉ name := by
    rw [hname]
    exact slash_notMem_baseName path
  cases front with
  | nil =>
      rw [if_pos rfl] at hdir
      rw [hfront, hdir]
      constructor
      · intro heq
        have hlength := congrArg List.length heq
        simp [lit] at hlength
      · intro hmem
        exact absurd hmem hnoslash
  | cons b front =>
      rw [if_neg (by simp)] at hdir
      rw [hfront, hdir]
      refine ⟨fun _ => by simp, fun _ => ?_⟩
      show b :: front ++ [slash] ++ name = _
      simp

theorem split_notMem {path dir name : Bytes} (h : splitPath path = some (dir, name))
    (hzero : 0 ∉ path) : 0 ∉ dir ++ lit "/" ++ name := by
  obtain ⟨front, hfront, -, -, hdir⟩ := splitPath_eq h
  have hslash : (0 : UInt8) ∉ lit "/" := by decide
  rw [hfront, List.mem_append, List.mem_cons, not_or, not_or] at hzero
  have hdir0 : 0 ∉ dir := by
    rw [hdir]
    split
    · exact hslash
    · exact hzero.1
  simp only [List.mem_append, not_or]
  exact ⟨⟨hdir0, hslash⟩, hzero.2.2⟩

/-- A row with the joined parts has the paths themselves exactly if neither directory is
the root. -/
theorem records_iff {source dest : Bytes} {move : MoveRequest} {r : Row}
    (h : routedRequest source dest = some move) (hsource : 0 ∉ source) (hdest : 0 ∉ dest)
    (hrecords : r.Records move) :
    r.job.sourcePath = source ∧ r.job.destPath = dest ↔
      slash ∈ source.tail ∧ slash ∈ dest.tail := by
  unfold routedRequest at h
  split at h
  · rename_i hs hd
    cases h
    rw [hrecords.1, hrecords.2, cstr_of_notMem (split_notMem hs hsource),
      cstr_of_notMem (split_notMem hd hdest), join_split_iff hs, join_split_iff hd]
  · cases h

/-! ## The strings of a body -/

namespace Json

theorem IsMembers.string_notMem {limits : Limits} {level : Nat} {text : Bytes}
    {members : List (Bytes × Value)} (h : IsMembers limits level text members) {key s : Bytes}
    (hmem : (key, Value.string s) ∈ members) : 0 ∉ s := by
  have hone : ∀ {text}, IsMember limits level text (key, .string s) → 0 ∉ s := by
    rintro text ⟨-, -, -, -, hvalue, -⟩
    cases hvalue with
    | string _ hstring =>
        cases hstring with
        | mk _ _ hnul _ => exact hnul
  induction members generalizing text with
  | nil => cases hmem
  | cons member members ih =>
      rcases List.mem_cons.mp hmem with rfl | hrest
      · cases h with
        | one hmember => exact hone hmember
        | more hmember _ => exact hone hmember
      · cases h with
        | one _ => cases hrest
        | more _ hmembers => exact ih hmembers hrest

end Json

theorem requireString_notMem {limits : Json.Limits} {body s : Bytes} {name : String}
    {members : List (Bytes × Json.Value)} (hparse : Json.parse limits body = .ok (.object members))
    (h : requireString (.object members) name = .ok s) : 0 ∉ s := by
  obtain ⟨-, -, w, object, w', -, -, -, hvalue, -⟩ := Json.parse_ok_iff.mp hparse
  unfold requireString at h
  split at h
  · cases h
  · rename_i s' hfind
    split_ifs at h
    cases h
    obtain ⟨member, hmember, hsnd⟩ := Option.map_eq_some_iff.mp hfind
    have hmem := List.mem_of_find?_eq_some hmember
    obtain ⟨key, value⟩ := member
    cases hsnd
    cases hvalue with
    | emptyObject => cases hmem
    | object _ hmembers _ _ => exact hmembers.string_notMem hmem
  · cases h

/-- No NUL gets through the decoder. -/
theorem decodeSubmitRequest_notMem {body : Bytes} {submission : SubmitRequest}
    (h : decodeSubmitRequest body = .ok submission) :
    0 ∉ submission.source ∧ 0 ∉ submission.dest := by
  unfold decodeSubmitRequest at h
  split at h
  · cases h
  · rename_i members hparse
    split at h
    · cases h
    · cases hsource : requireString (.object members) "source" with
      | error message =>
          rw [hsource] at h
          cases h
      | ok source =>
          cases hdest : requireString (.object members) "dest" with
          | error message =>
              rw [hsource, hdest] at h
              cases h
          | ok dest =>
              rw [hsource, hdest] at h
              cases h
              exact ⟨requireString_notMem hparse hsource, requireString_notMem hparse hdest⟩
  · cases h

/-! ## The jobs made from a job -/

/-- The jobs of this manager that were made by retrying the job, its retries and so on.
A row that names no other job was submitted. -/
inductive RetryOf (s : System) (id : Bytes) : Bytes → Prop
  | self : RetryOf s id id
  | retry {parent child : Bytes} {r : Row} (h : RetryOf s id parent)
      (known : child ∈ s.manager.requests) (row : s.world.db.row child = some r)
      (isRetry : r.retryOf ≠ []) (replaces : r.retryOf = cstr parent) : RetryOf s id child

/-- The row of the job and the rows of its retries have these paths. -/
def RecordedAs (s : System) (id source dest : Bytes) : Prop :=
  ∀ child, RetryOf s id child →
    ∃ r, s.world.db.row child = some r ∧ r.job.sourcePath = source ∧ r.job.destPath = dest

/-- All of them have the paths of the request of the job. -/
theorem RetryOf.records {asked : Nat → Bytes → Prop} {s : System} {id child : Bytes}
    {move : MoveRequest} (h : RetryOf s id child) (inv : Filed asked s)
    (hlookup : s.manager.requests.lookup id = some move) :
    ∃ r, s.world.db.row child = some r ∧ r.Records move := by
  induction h with
  | self =>
      obtain ⟨r, hr, hrecords, -⟩ := inv.known id move hlookup
      exact ⟨r, hr, hrecords⟩
  | @retry parent child r _ known hrow isRetry replaces ih =>
      obtain ⟨rp, hrp, hparent⟩ := ih
      obtain ⟨move', hmove'⟩ := Option.isSome_iff_exists.mp (AList.lookup_isSome.mpr known)
      obtain ⟨r', hr', hrecords', horigin⟩ := inv.known child move' hmove'
      obtain rfl : r' = r := Option.some.inj (hr'.symm.trans hrow)
      rcases horigin with hnew | ⟨rp', hrp', hpaths⟩
      · exact absurd hnew isRetry
      · -- the job on record as replaced is the parent, whose paths are known
        rw [replaces, Database.row_congr (cstr_cstr parent)] at hrp'
        obtain rfl : rp' = rp := Option.some.inj (hrp'.symm.trans hrp)
        refine ⟨r', hrow, ?_, ?_⟩
        · exact hrecords'.1.trans (hpaths.1.symm.trans hparent.1)
        · exact hrecords'.2.trans (hpaths.2.symm.trans hparent.2)

/-! ## Every history -/

variable {f g : Frontend}

/-- A step of the front end is one of the manager, or none. -/
theorem Frontend.system_act {event : FrontendEvent} (hact : f.act event = some g) :
    g.system = f.system ∨ ∃ e, f.system.act e = some g.system := by
  have hask : ∀ {n : Nat} {e : ManagerEvent} {request : Http.Request} {jobId : Bytes},
      f.ask n e request jobId = some g → ∃ e, f.system.act e = some g.system := by
    intro n e request jobId h
    obtain ⟨s, hs, rfl⟩ := Option.map_eq_some_iff.mp h
    exact ⟨e, hs⟩
  cases event with
  | manager e =>
      simp only [Frontend.act] at hact
      split at hact
      · obtain ⟨s, hs, rfl⟩ := Option.map_eq_some_iff.mp hact
        exact .inr ⟨e, hs⟩
      · cases hact
  | route n request nowMs =>
      simp only [Frontend.act] at hact
      split at hact
      · unfold Frontend.route at hact
        split at hact
        · cases hact
          exact .inl rfl
        · split at hact
          all_goals
            cases hact
            exact .inl rfl
        all_goals exact .inr (hask hact)
      · cases hact
  | allocate n sequence nowMs =>
      simp only [Frontend.act] at hact
      split at hact
      · split at hact
        · exact .inr (hask hact)
        · cases hact
      · cases hact
  | allocateFails n fault code =>
      simp only [Frontend.act] at hact
      split at hact
      · cases hact
        exact .inl rfl
      · cases hact

theorem filed_step {event : FrontendEvent} (hact : f.act event = some g)
    (inv : Filed (fun _ _ => True) f.system) : Filed (fun _ _ => True) g.system := by
  rcases Frontend.system_act hact with heq | ⟨e, he⟩
  · rw [heq]
    exact inv
  · exact inv.step he (fun _ _ _ h => h) fun _ _ _ _ => trivial

/-- After a submission has been answered with 202, its row and those of its retries have
the two strings of the body if and only if neither of them names an entry of the root. -/
theorem recorded_paths_iff (config : RetryConfig) (strategy : MoveStrategy) (w : World)
    (workers : Nat → Bool)
    (reach : GuardedReach Frontend.act (fun _ _ => True)
      (Frontend.opened (System.started config strategy w workers)) f)
    {n : Nat} {request : Http.Request} {jobId : Bytes} {response : Http.Response}
    {submission : SubmitRequest} (hhandler : f.handlers n = .asking request jobId)
    (hreply : f.reply n = some response) (h202 : response.status = 202)
    (hdecode : decodeSubmitRequest request.body = .ok submission)
    (later : GuardedReach Frontend.act (fun _ _ => True) f g) :
    RecordedAs g.system jobId submission.source submission.dest ↔
      slash ∈ submission.source.tail ∧ slash ∈ submission.dest.tail := by
  have hf : Tracked f := reach.invariant Tracked (fun _ hact h => h.step hact)
    (tracked_opened config strategy w workers)
  have hg : Tracked g := later.invariant Tracked (fun _ hact h => h.step hact) hf
  have hreach : GuardedReach Frontend.act (fun _ _ => True)
      (Frontend.opened (System.started config strategy w workers)) g := reach.trans later
  have hfiled : Filed (fun _ _ => True) g.system :=
    hreach.invariant (fun h => Filed (fun _ _ => True) h.system)
      (fun _ hact h => filed_step hact h) (filed_started _ config strategy w workers)
  have haccepted : (jobId, request) ∈ g.accepted :=
    later.invariant (fun h => (jobId, request) ∈ h.accepted)
      (fun _ hact h => Frontend.accepted_mono hact _ h) (hf.accepted_of_reply hhandler hreply h202)
  obtain ⟨move, hcommand, hlookup⟩ := hg.accepted jobId request haccepted
  have hrouted := submission_of_command hcommand hdecode
  obtain ⟨hsource, hdest⟩ := decodeSubmitRequest_notMem hdecode
  constructor
  · intro hrecorded
    obtain ⟨r, hr, hpaths⟩ := hrecorded jobId .self
    obtain ⟨r', hr', hrecords⟩ := RetryOf.self.records hfiled hlookup
    obtain rfl : r' = r := Option.some.inj (hr'.symm.trans hr)
    exact (records_iff hrouted hsource hdest hrecords).mp hpaths
  · intro hslashes child hchild
    obtain ⟨r, hr, hrecords⟩ := hchild.records hfiled hlookup
    exact ⟨r, hr, (records_iff hrouted hsource hdest hrecords).mpr hslashes⟩

/-- Thread 2 cancels the job and retries it. -/
def retrySteps : List FrontendEvent :=
  [.cancel 2 (lit "job-7"), .lock 2, .call 2 none, .call 2 none, .call 2 none, .proceed 2,
    .retry 2 (lit "job-7") 9, .lock 2, .call 2 none, .proceed 2, .call 2 none, .proceed 2,
    .call 2 none, .proceed 2].map .manager

/-- A submission that was answered with 202, and what follows it. -/
theorem exists_answered {body : Bytes} {more : List FrontendEvent} {check : Frontend → Bool}
    (hrun : ((replay Frontend.act (submitSteps body) workerFrontend).bind fun f =>
      (f.reply 1).map fun response => (f.handlers 1, response.status)) =
        some (.asking (submitRequest body) (lit "job-7"), 202))
    (hmore : (replay Frontend.act (submitSteps body ++ more) workerFrontend).any check = true) :
    ∃ f g response,
      GuardedReach Frontend.act (fun _ _ => True) workerFrontend f ∧
      GuardedReach Frontend.act (fun _ _ => True) f g ∧
      f.handlers 1 = .asking (submitRequest body) (lit "job-7") ∧
      f.reply 1 = some response ∧ response.status = 202 ∧ check g = true := by
  have hfree : ∀ labels s, AllSteps Frontend.act (fun _ _ => True) labels s :=
    AllSteps.of_free fun _ _ => trivial
  obtain ⟨g', hg', hcheck⟩ := (Option.any_eq_true _ _).mp hmore
  obtain ⟨f, g, hf, hg, hfg⟩ := exists_replay (Option.isSome_iff_exists.mpr ⟨g', hg'⟩)
  obtain rfl : g' = g := Option.some.inj (hg'.symm.trans hfg)
  obtain ⟨f', hf', hreply⟩ := Option.bind_eq_some_iff.mp hrun
  obtain rfl : f' = f := Option.some.inj (hf'.symm.trans hf)
  obtain ⟨response, hresponse, heq⟩ := Option.map_eq_some_iff.mp hreply
  rw [Prod.mk.injEq] at heq
  exact ⟨f', g', response, .of_replay (hfree _ _) hf, .of_replay (hfree _ _) hg, heq.1, hresponse,
    heq.2, hcheck⟩

theorem recorded_paths_iff_retried :
    ∃ g : Frontend, RetryOf g.system (lit "job-7") (lit "job-7-retry-1") ∧
      RecordedAs g.system (lit "job-7") (lit "/s/f") (lit "/d/f") := by
  obtain ⟨f, g, response, reach, later, hhandler, hreply, h202, hcheck⟩ :=
    @exists_answered plainBody retrySteps
      (fun g => decide (lit "job-7-retry-1" ∈ g.system.manager.requests) &&
        decide ((g.system.world.db.row (lit "job-7-retry-1")).map (·.retryOf) =
          some (lit "job-7")))
      (by decide +kernel) (by decide +kernel)
  have hdecode : decodeSubmitRequest plainBody = .ok ⟨lit "/s/f", lit "/d/f"⟩ := by
    decide +kernel
  obtain ⟨hknown, hrow⟩ := Bool.and_eq_true_iff.mp hcheck
  obtain ⟨r, hr, hretry⟩ := Option.map_eq_some_iff.mp (of_decide_eq_true hrow)
  refine ⟨g, ?_, ?_⟩
  · exact .retry .self (of_decide_eq_true hknown) hr (by rw [hretry]; decide)
      (hretry.trans (by decide))
  · exact (recorded_paths_iff _ _ _ _ reach hhandler hreply h202 hdecode later).mpr
      ⟨by decide, by decide⟩

/-- A file of the root directory. -/
def rootBody : Bytes := lit "\x7b\"source\":\"/f\",\"dest\":\"/d/f\"\x7d"

/-- The row of a submission from the root has a slash too many. -/
theorem recorded_path_doubled :
    ∃ f g response,
      GuardedReach Frontend.act (fun _ _ => True) workerFrontend f ∧
      GuardedReach Frontend.act (fun _ _ => True) f g ∧
      f.handlers 1 = .asking (submitRequest rootBody) (lit "job-7") ∧
      f.reply 1 = some response ∧ response.status = 202 ∧
      decodeSubmitRequest rootBody = .ok ⟨lit "/f", lit "/d/f"⟩ ∧
      ¬ RecordedAs g.system (lit "job-7") (lit "/f") (lit "/d/f") := by
  obtain ⟨f, g, response, reach, later, hhandler, hreply, h202, hcheck⟩ :=
    @exists_answered rootBody []
      (fun g => decide ((g.system.world.db.row (lit "job-7")).map (·.job.sourcePath) =
        some (lit "//f")))
      (by decide +kernel) (by decide +kernel)
  refine ⟨f, g, response, reach, later, hhandler, hreply, h202, by decide +kernel, ?_⟩
  intro hrecorded
  obtain ⟨r, hr, hsource, -⟩ := hrecorded (lit "job-7") .self
  have hstored := of_decide_eq_true hcheck
  rw [hr] at hstored
  have hdoubled : r.job.sourcePath = lit "//f" := Option.some.inj hstored
  rw [hsource] at hdoubled
  exact absurd hdoubled (by decide)

end FileMover
