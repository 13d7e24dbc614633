import FileMover.Json.Printing
import FileMover.Model.Codec

/-!
# The codec reads back what it writes

Each encoder prints a value that can be named without it: the members that the
interface documents, in their order. Its output is therefore read back as that
value under any limits that leave room for it.
-/

namespace FileMover

open Json

/-! ## What the documents say -/

/-- The documented members of a job. -/
def jobDocument (job : Job) : Value :=
  .object
    [(lit "id", .string job.id),
      (lit "source", .string job.sourcePath),
      (lit "dest", .string job.destPath),
      (lit "state", .string job.state.toToken),
      (lit "created_at_ms", .int job.createdAtMs),
      (lit "updated_at_ms", .int job.updatedAtMs),
      (lit "finished_at_ms", .int job.finishedAtMs),
      (lit "bytes_total", .int (min job.bytesTotal.toNat (2 ^ 63 - 1))),
      (lit "bytes_moved", .int (min job.bytesMoved.toNat (2 ^ 63 - 1))),
      (lit "error", .string job.error)]

def jobListDocument (jobs : List Job) : Value :=
  .object [(lit "jobs", .array (jobs.map jobDocument))]

def errorDocument (message : Bytes) : Value := .object [(lit "error", .string message)]

def submitDocument (source dest : Bytes) : Value :=
  .object [(lit "source", .string source), (lit "dest", .string dest)]

/-- The submit object, built with `json::escape`. -/
def submitBody (source dest : Bytes) : Bytes :=
  lit "\x7b" ++ stringMember "source" source true ++ stringMember "dest" dest false ++ lit "\x7d"

/-! ## The encoders print them -/

theorem stringMember_eq {name : String} (h : escape (lit name) = lit name) (value : Bytes)
    (comma : Bool) :
    stringMember name value comma =
      renderMember (lit name, .string value) ++ if comma then [0x2C] else [] := by
  have hcolon : lit "\":\"" = [0x22, 0x3A, 0x22] := rfl
  have hquote : lit "\"" = [0x22] := rfl
  have hcomma : lit "," = [0x2C] := rfl
  simp [stringMember, renderMember, render, Json.quoted, h, hcolon, hquote, hcomma]

theorem intMember_eq {name : String} (h : escape (lit name) = lit name) (value : Int)
    (comma : Bool) :
    intMember name value comma =
      renderMember (lit name, .int value) ++ if comma then [0x2C] else [] := by
  have hcolon : lit "\":" = [0x22, 0x3A] := rfl
  have hquote : lit "\"" = [0x22] := rfl
  have hcomma : lit "," = [0x2C] := rfl
  simp [intMember, renderMember, render, Json.quoted, h, hcolon, hquote, hcomma]

theorem toInt64Clamped_eq (value : UInt64) :
    toInt64Clamped value = min (value.toNat : Int) (2 ^ 63 - 1) := by
  unfold toInt64Clamped
  split_ifs <;> omega

theorem encodeJob_eq (job : Job) : encodeJob job = render (jobDocument job) := by
  have hopen : lit "\x7b" = [0x7B] := rfl
  have hclose : lit "\x7d" = [0x7D] := rfl
  simp only [encodeJob, jobDocument, render, renderMembers, hopen, hclose, toInt64Clamped_eq]
  rw [stringMember_eq (by decide), stringMember_eq (by decide), stringMember_eq (by decide),
    stringMember_eq (by decide), intMember_eq (by decide), intMember_eq (by decide),
    intMember_eq (by decide), intMember_eq (by decide), intMember_eq (by decide),
    stringMember_eq (by decide)]
  simp

theorem encodeJobs_eq (jobs : List Job) :
    encodeJobs jobs = renderElements (jobs.map jobDocument) := by
  cases jobs with
  | nil => rfl
  | cons job jobs =>
      induction jobs generalizing job with
      | nil => simp [encodeJobs, renderElements, encodeJob_eq]
      | cons job' jobs ih =>
          have hcomma : lit "," = [0x2C] := rfl
          have hrest := ih job'
          simp only [encodeJobs, List.map_cons] at hrest
          simp [encodeJobs, renderElements, encodeJob_eq, hcomma] at hrest ⊢
          exact hrest

theorem encodeJobList_eq (jobs : List Job) :
    encodeJobList jobs = render (jobListDocument jobs) := by
  have hopen : lit "\x7b\"jobs\":[" = 0x7B :: Json.quoted (lit "jobs") ++ [0x3A, 0x5B] := by decide
  have hclose : lit "]\x7d" = [0x5D, 0x7D] := rfl
  simp only [encodeJobList, jobListDocument, render, renderMembers, renderMember, hopen, hclose,
    encodeJobs_eq]
  simp

theorem encodeError_eq (message : Bytes) :
    encodeError message = render (errorDocument message) := by
  have hopen : lit "\x7b\"error\":\"" = 0x7B :: Json.quoted (lit "error") ++ [0x3A, 0x22] := by
    decide
  have hclose : lit "\"\x7d" = [0x22, 0x7D] := rfl
  simp only [encodeError, errorDocument, render, renderMembers, renderMember, hopen, hclose]
  simp [Json.quoted]

theorem submitBody_eq (source dest : Bytes) :
    submitBody source dest = render (submitDocument source dest) := by
  have hopen : lit "\x7b" = [0x7B] := rfl
  have hclose : lit "\x7d" = [0x7D] := rfl
  simp only [submitBody, submitDocument, render, renderMembers, hopen, hclose]
  rw [stringMember_eq (by decide), stringMember_eq (by decide)]
  simp

/-! ## The documents are clean -/

/-- The strings of the job are NUL-free UTF-8, its timestamps are of type int64. -/
structure Job.Clean (job : Job) : Prop where
  id : CleanText job.id
  source : CleanText job.sourcePath
  dest : CleanText job.destPath
  error : CleanText job.error
  created : -2 ^ 63 ≤ job.createdAtMs ∧ job.createdAtMs < 2 ^ 63
  updated : -2 ^ 63 ≤ job.updatedAtMs ∧ job.updatedAtMs < 2 ^ 63
  finished : -2 ^ 63 ≤ job.finishedAtMs ∧ job.finishedAtMs < 2 ^ 63

theorem cleanText_toToken (s : JobState) : CleanText s.toToken :=
  cleanText_of_ascii (by cases s <;> decide)

theorem clean_counter (value : UInt64) :
    Json.Clean (.int (min (value.toNat : Int) (2 ^ 63 - 1))) :=
  .int (by omega) (by omega)

theorem clean_jobDocument {job : Job} (h : job.Clean) : Json.Clean (jobDocument job) := by
  have hvalues : Json.Clean (.string job.id) ∧ Json.Clean (.string job.sourcePath) ∧
      Json.Clean (.string job.destPath) ∧ Json.Clean (.string job.state.toToken) ∧
      Json.Clean (.int job.createdAtMs) ∧ Json.Clean (.int job.updatedAtMs) ∧
      Json.Clean (.int job.finishedAtMs) ∧ Json.Clean (.string job.error) :=
    ⟨.string h.id, .string h.source, .string h.dest, .string (cleanText_toToken _),
      .int h.created.1 h.created.2, .int h.updated.1 h.updated.2, .int h.finished.1 h.finished.2,
      .string h.error⟩
  refine .object (by simp only [List.map_cons, List.map_nil]; decide) ?_ ?_
  · have hnames : ∀ key ∈ [lit "id", lit "source", lit "dest", lit "state", lit "created_at_ms",
        lit "updated_at_ms", lit "finished_at_ms", lit "bytes_total", lit "bytes_moved",
        lit "error"], ∀ b ∈ key, b ≠ 0 ∧ b < 0x80 := by decide
    intro member hmember
    exact cleanText_of_ascii (hnames _ (List.mem_map_of_mem hmember))
  · simp only [List.forall_mem_cons, List.not_mem_nil, false_implies, implies_true, and_true]
    obtain ⟨hid, hsource, hdest, hstate, hcreated, hupdated, hfinished, herror⟩ := hvalues
    exact ⟨hid, hsource, hdest, hstate, hcreated, hupdated, hfinished, clean_counter _,
      clean_counter _, herror⟩

theorem clean_jobListDocument {jobs : List Job} (h : ∀ job ∈ jobs, job.Clean) :
    Json.Clean (jobListDocument jobs) := by
  refine .object (by simp) ?_ ?_
  · simp only [List.mem_singleton, forall_eq]
    exact cleanText_of_ascii (by decide)
  · simp only [List.mem_singleton, forall_eq]
    refine .array fun value hvalue => ?_
    obtain ⟨job, hjob, rfl⟩ := List.mem_map.mp hvalue
    exact clean_jobDocument (h job hjob)

theorem clean_errorDocument {message : Bytes} (h : CleanText message) :
    Json.Clean (errorDocument message) := by
  refine .object (by simp) ?_ ?_
  · simp only [List.mem_singleton, forall_eq]
    exact cleanText_of_ascii (by decide)
  · simp only [List.mem_singleton, forall_eq]
    exact .string h

theorem clean_submitDocument {source dest : Bytes} (hsource : CleanText source)
    (hdest : CleanText dest) : Json.Clean (submitDocument source dest) := by
  refine .object (by simp only [List.map_cons, List.map_nil]; decide) ?_ ?_
  · simp only [List.forall_mem_cons, List.not_mem_nil, false_implies, implies_true, and_true]
    exact ⟨cleanText_of_ascii (by decide), cleanText_of_ascii (by decide)⟩
  · simp only [List.forall_mem_cons, List.not_mem_nil, false_implies, implies_true, and_true]
    exact ⟨.string hsource, .string hdest⟩

/-- The submit object is flat and has two members: the limits of the codec only
bound its size and the paths. -/
theorem fits_submitDocument {source dest : Bytes} (hsource : source.length ≤ maxPathBytes)
    (hdest : dest.length ≤ maxPathBytes) : Fits submitLimits 1 (submitDocument source dest) := by
  refine .object (by decide) (by simp [submitLimits]) ?_ ?_
  · simp only [List.forall_mem_cons, List.not_mem_nil, false_implies, implies_true, and_true]
    exact ⟨by decide, by decide⟩
  · simp only [List.forall_mem_cons, List.not_mem_nil, false_implies, implies_true, and_true]
    exact ⟨.string (by decide) hsource, .string (by decide) hdest⟩

theorem fits_jobDocument {limits : Limits} {level : Nat} {job : Job}
    (hdeep : level + 1 ≤ limits.maxDepth) (hmembers : 10 ≤ limits.maxMembers)
    (hnames : 14 ≤ limits.maxStringBytes)
    (hstrings : ∀ s ∈ [job.id, job.sourcePath, job.destPath, job.error],
      s.length ≤ limits.maxStringBytes) : Fits limits level (jobDocument job) := by
  have htoken : job.state.toToken.length ≤ limits.maxStringBytes := by
    have hlen : job.state.toToken.length ≤ 14 := by cases job.state <;> decide
    omega
  simp only [List.forall_mem_cons, List.not_mem_nil, false_implies, implies_true, and_true]
    at hstrings
  obtain ⟨hid, hsource, hdest, herror⟩ := hstrings
  refine .object (by omega) hmembers ?_ ?_
  · have hkeys : ∀ key ∈ [lit "id", lit "source", lit "dest", lit "state", lit "created_at_ms",
        lit "updated_at_ms", lit "finished_at_ms", lit "bytes_total", lit "bytes_moved",
        lit "error"], key.length ≤ 14 := by decide
    intro member hmember
    exact Nat.le_trans (hkeys _ (List.mem_map_of_mem hmember)) hnames
  · simp only [List.forall_mem_cons, List.not_mem_nil, false_implies, implies_true, and_true]
    exact ⟨.string hdeep hid, .string hdeep hsource, .string hdeep hdest, .string hdeep htoken,
      .int hdeep, .int hdeep, .int hdeep, .int hdeep, .int hdeep, .string hdeep herror⟩

theorem decode_submitBody {source dest : Bytes} (hsource : CleanText source)
    (hdest : CleanText dest) (hne : source ≠ []) (hne' : dest ≠ [])
    (hlen : source.length ≤ maxPathBytes) (hlen' : dest.length ≤ maxPathBytes)
    (hsize : (submitBody source dest).length ≤ 16 * 1024) :
    decodeSubmitRequest (submitBody source dest) = .ok ⟨source, dest⟩ := by
  have hparse : parse submitLimits (submitBody source dest) = .ok (submitDocument source dest) := by
    rw [submitBody_eq] at hsize ⊢
    exact parse_render ⟨hsize, fits_submitDocument hlen hlen'⟩
      (clean_submitDocument hsource hdest)
  have hdistinct : lit "source" ≠ lit "dest" := by decide
  simp only [decodeSubmitRequest, hparse, submitDocument]
  simp [requireString, Value.find, hdistinct, hne, hne', Nat.not_lt.mpr hlen, Nat.not_lt.mpr hlen']
  rfl

/-- **The codec reads back what it writes**: jobs, lists of jobs and errors come
back as the documented members with their original values, and the submit object
as the two paths. -/
theorem codec_round_trip {jobs : List Job} (hjobs : ∀ job ∈ jobs, job.Clean) {message : Bytes}
    (hmessage : CleanText message) {source dest : Bytes} (hsource : CleanText source)
    (hdest : CleanText dest) (hne : source ≠ []) (hne' : dest ≠ [])
    (hlen : source.length ≤ 4096) (hlen' : dest.length ≤ 4096)
    (hsize : (submitBody source dest).length ≤ 16 * 1024) :
    (∀ limits, ∀ job ∈ jobs, Roomy limits (encodeJob job) (jobDocument job) →
      parse limits (encodeJob job) = .ok (jobDocument job) ∧
        JobState.fromToken job.state.toToken = some job.state) ∧
    (∀ limits, Roomy limits (encodeJobList jobs) (jobListDocument jobs) →
      parse limits (encodeJobList jobs) = .ok (jobListDocument jobs)) ∧
    (∀ limits, Roomy limits (encodeError message) (errorDocument message) →
      parse limits (encodeError message) = .ok (errorDocument message)) ∧
    decodeSubmitRequest (submitBody source dest) = .ok ⟨source, dest⟩ := by
  refine ⟨fun limits job hjob hroom => ⟨?_, JobState.fromToken_toToken _⟩, fun limits hroom => ?_,
    fun limits hroom => ?_, decode_submitBody hsource hdest hne hne' hlen hlen' hsize⟩
  · rw [encodeJob_eq] at hroom ⊢
    exact parse_render hroom (clean_jobDocument (hjobs job hjob))
  · rw [encodeJobList_eq] at hroom ⊢
    exact parse_render hroom (clean_jobListDocument hjobs)
  · rw [encodeError_eq] at hroom ⊢
    exact parse_render hroom (clean_errorDocument hmessage)

/-- A job from `/a` to `/b`, submitted and listed. -/
theorem codec_round_trip_sample :
    parse {} (encodeJob (Job.new (lit "j1") (lit "/a") (lit "/b") 10)) =
        .ok (jobDocument (Job.new (lit "j1") (lit "/a") (lit "/b") 10)) ∧
      decodeSubmitRequest (submitBody (lit "/a") (lit "/b")) = .ok ⟨lit "/a", lit "/b"⟩ := by
  have hpath : CleanText (lit "/a") ∧ CleanText (lit "/b") :=
    ⟨cleanText_of_ascii (by decide), cleanText_of_ascii (by decide)⟩
  have hjob : (Job.new (lit "j1") (lit "/a") (lit "/b") 10).Clean :=
    ⟨cleanText_of_ascii (by decide), hpath.1, hpath.2, cleanText_of_ascii (by decide),
      by decide, by decide, by decide⟩
  have hjobs : ∀ job ∈ [Job.new (lit "j1") (lit "/a") (lit "/b") 10], job.Clean := by
    simpa using hjob
  have hround := codec_round_trip hjobs
    (cleanText_of_ascii (by decide : ∀ b ∈ lit "no", b ≠ 0 ∧ b < 0x80))
    hpath.1 hpath.2 (by decide) (by decide) (by decide) (by decide) (by decide)
  refine ⟨(hround.1 _ _ (by simp) ⟨by decide +kernel, ?_⟩).1, hround.2.2.2⟩
  exact fits_jobDocument (by decide) (by decide) (by decide) (by decide)

end FileMover
