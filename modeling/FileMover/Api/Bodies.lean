import FileMover.Api.Messages
import FileMover.Framework.Guarded
import FileMover.Model.Frontend

/-!
# Reply bodies

Every body is printed from a value with one member, except where an id is put
between quotes as it is. What a handler answers with comes out of the manager, so
the messages are followed through the commands: `Thread.Clean` says of a thread
in a command that whatever it will return is clean text.
-/

namespace FileMover

open Framework Json

/-! ## Readable bodies -/

/-- At least as permissive in every measure. -/
structure Json.Limits.Within (limits limits' : Limits) : Prop where
  depth : limits.maxDepth ≤ limits'.maxDepth
  input : limits.maxInputBytes ≤ limits'.maxInputBytes
  string : limits.maxStringBytes ≤ limits'.maxStringBytes
  members : limits.maxMembers ≤ limits'.maxMembers
  elements : limits.maxElements ≤ limits'.maxElements

/-- `json::parse` accepts the body under large enough limits. -/
def Json.Readable (body : Bytes) : Prop :=
  ∃ limits : Limits, ∀ limits', limits.Within limits' → ∃ value, parse limits' body = .ok value

/-- An object with one string in it. -/
theorem readable_member {key s : Bytes} (hkey : CleanText key) (hs : CleanText s) :
    Readable (render (.object [(key, .string s)])) := by
  refine ⟨⟨2, (render (.object [(key, .string s)])).length, key.length + s.length, 1, 0⟩,
    fun limits' hwithin => ⟨_, parse_render ⟨hwithin.input, ?_⟩ ?_⟩⟩
  · have hdepth := hwithin.depth
    have hstring := hwithin.string
    simp only at hdepth hstring
    refine .object (by omega) hwithin.members ?_ ?_
    · simp only [List.mem_singleton, forall_eq]
      omega
    · simp only [List.mem_singleton, forall_eq]
      exact .string hdepth (by omega)
  · refine .object (by simp) ?_ ?_
    · simpa using hkey
    · simpa using Clean.string hs

theorem Json.Readable.wellFormed {body : Bytes} (h : Readable body) : Utf8.WellFormed body := by
  obtain ⟨limits, hreads⟩ := h
  obtain ⟨value, hvalue⟩ := hreads limits ⟨le_refl _, le_refl _, le_refl _, le_refl _, le_refl _⟩
  exact wellFormed_of_parse hvalue

/-- Nothing but a string that is not UTF-8 keeps such an object from being read. -/
theorem readable_member_iff {key s : Bytes} (hkey : CleanText key) (hnul : 0 ∉ s) :
    Readable (render (.object [(key, .string s)])) ↔ Utf8.WellFormed s := by
  constructor
  · intro h
    have hbody := h.wellFormed
    have heq : render (.object [(key, .string s)]) =
        (0x7B :: Json.quoted key ++ [0x3A, 0x22]) ++ escape s ++ [0x22, 0x7D] := by
      simp [render, renderMembers, renderMember, Json.quoted]
    have hname : Utf8.WellFormed (0x7B :: Json.quoted key ++ [0x3A, 0x22]) := by
      have hquoted : Utf8.WellFormed (Json.quoted key) :=
        wellFormed_between (by decide) (by decide) (wellFormed_escape_iff.mpr hkey.utf8)
      exact (hquoted.cons (by decide)).append (Utf8.wellFormed_of_ascii (by decide))
    rw [heq, Utf8.wellFormed_append_iff_left (Utf8.wellFormed_of_ascii (by decide)),
      Utf8.wellFormed_append_iff_right hname] at hbody
    exact wellFormed_escape_iff.mp hbody
  · intro hs
    exact readable_member hkey ⟨hs, hnul⟩

theorem readable_encodeError_iff {message : Bytes} (hnul : 0 ∉ message) :
    Readable (encodeError message) ↔ Utf8.WellFormed message := by
  rw [encodeError_eq]
  exact readable_member_iff (cleanText_of_ascii (by decide)) hnul

theorem readable_encodeError {message : Bytes} (h : CleanText message) :
    Readable (encodeError message) :=
  (readable_encodeError_iff h.nul).mpr h.utf8

theorem readable_statusOk : Readable statusOk := by
  have heq : statusOk = render (.object [(lit "status", .string (lit "ok"))]) := by decide
  rw [heq]
  exact readable_member (cleanText_of_ascii (by decide)) (cleanText_of_ascii (by decide))

/-- An id that may stand between quotes as it is. -/
structure PlainId (id : Bytes) : Prop where
  clean : CleanText id
  plain : escape id = id

theorem zero_notMem_escape (s : Bytes) : 0 ∉ escape s := by
  intro hzero
  obtain ⟨c, -, hmem⟩ := List.mem_flatMap.mp hzero
  obtain rfl := eq_zero_of_mem_escapeByte hmem
  exact absurd hmem (by decide)

theorem readable_jobIdBody_iff {id : Bytes} (hplain : escape id = id) :
    Readable (jobIdBody id) ↔ Utf8.WellFormed id := by
  have hopen : lit "\x7b\"job_id\":\"" = 0x7B :: Json.quoted (lit "job_id") ++ [0x3A, 0x22] := by
    decide
  have hclose : lit "\"\x7d" = [0x22, 0x7D] := rfl
  have heq : jobIdBody id = render (.object [(lit "job_id", .string id)]) := by
    simp only [jobIdBody, render, renderMembers, renderMember, hopen, hclose]
    simp [Json.quoted, hplain]
  have hnul := zero_notMem_escape id
  rw [hplain] at hnul
  rw [heq]
  exact readable_member_iff (cleanText_of_ascii (by decide)) hnul

theorem readable_jobIdBody {id : Bytes} (h : PlainId id) : Readable (jobIdBody id) :=
  (readable_jobIdBody_iff h.plain).mpr h.clean.utf8

/-- ASCII around a name between apostrophes changes nothing. -/
theorem readable_names_iff {before name after : Bytes} (hbefore : Ascii before)
    (hafter : Ascii after) (hnul : 0 ∉ name) :
    Readable (encodeError (before ++ quoted name ++ after)) ↔ Utf8.WellFormed name := by
  have hopen : Ascii (before ++ lit "'") := hbefore.append (by decide)
  have hclose : Ascii (lit "'" ++ after) := Ascii.append (by decide) hafter
  have heq : before ++ quoted name ++ after =
      (before ++ lit "'") ++ name ++ (lit "'" ++ after) := by
    simp [quoted]
  have hzero : 0 ∉ (before ++ lit "'") ++ name ++ (lit "'" ++ after) := by
    rw [List.mem_append, List.mem_append, not_or, not_or]
    exact ⟨⟨hopen.clean.nul, hnul⟩, hclose.clean.nul⟩
  rw [heq, readable_encodeError_iff hzero, Utf8.wellFormed_append_iff_left hclose.clean.utf8,
    Utf8.wellFormed_append_iff_right hopen.clean.utf8]

/-! ## Ids -/

theorem escape_eq_self {s : Bytes} : escape s = s ↔ ∀ c ∈ s, escapeByte c = [c] := by
  have hone : ∀ c : UInt8, escapeByte c = [c] ∨ 2 ≤ (escapeByte c).length := by
    intro c
    unfold escapeByte
    split_ifs <;> simp
  have hlength : ∀ s : Bytes, s.length ≤ (escape s).length := by
    intro s
    induction s with
    | nil => simp
    | cons c s ih =>
        rw [escape, List.flatMap_cons, List.length_append]
        rcases hone c with h | h
        · rw [h]
          simp only [escape, List.length_cons, List.length_nil] at ih ⊢
          omega
        · simp only [escape, List.length_cons] at ih ⊢
          omega
  induction s with
  | nil => simp [escape]
  | cons c s ih =>
      rw [List.forall_mem_cons]
      constructor
      · intro h
        rw [escape, List.flatMap_cons] at h
        rcases hone c with hc | hc
        · rw [hc] at h
          exact ⟨hc, ih.mp (by simpa [escape] using h)⟩
        · have hlen := congrArg List.length h
          have hs := hlength s
          simp only [escape, List.length_append, List.length_cons] at hlen hs
          omega
      · rintro ⟨hc, hs⟩
        rw [escape, List.flatMap_cons, hc]
        simpa [escape] using ih.mpr hs

theorem PlainId.append {s t : Bytes} (hs : PlainId s) (ht : PlainId t) : PlainId (s ++ t) := by
  refine ⟨hs.clean.append ht.clean, ?_⟩
  rw [escape, List.flatMap_append]
  exact congrArg₂ (· ++ ·) hs.plain ht.plain

theorem plainId_decimal (n : Nat) : PlainId (decimal n) := by
  refine ⟨(ascii_decimal n).clean, escape_eq_self.mpr fun c hc => ?_⟩
  obtain ⟨hlow, hhigh⟩ := mem_decimal hc
  unfold escapeByte
  grind

theorem plainId_sequenceId (sequence : Nat) : PlainId (sequenceId sequence) :=
  PlainId.append ⟨cleanText_of_ascii (by decide), by decide⟩ (plainId_decimal sequence)

theorem lastMarker_drop {marker id : Bytes} {at' : Nat} (h : lastMarker marker id = some at') :
    (id.drop at').take marker.length = marker := by
  induction id generalizing at' with
  | nil =>
      simp only [lastMarker] at h
      split_ifs at h with hmarker
      simp [hmarker]
  | cons b rest ih =>
      simp only [lastMarker] at h
      split at h
      · rename_i found hfound
        cases h
        exact ih hfound
      · split_ifs at h with hhere
        cases h
        exact hhere

/-- What is cut off starts with a hyphen, so no sequence is cut in two. -/
theorem PlainId.stripRetrySuffix {id : Bytes} (h : PlainId id) :
    PlainId (stripRetrySuffix id) := by
  unfold FileMover.stripRetrySuffix
  split
  · exact h
  · rename_i at' hmarker
    simp only
    split_ifs
    · exact h
    · have hcut := lastMarker_drop hmarker
      obtain ⟨rest, hrest⟩ : ∃ rest, id.drop at' = 0x2D :: rest := by
        cases hdrop : id.drop at' with
        | nil =>
            rw [hdrop] at hcut
            simp [retryMarker, lit] at hcut
        | cons b rest =>
            rw [hdrop] at hcut
            have hhead := congrArg List.head? hcut
            have hb : b = 0x2D := by simpa [retryMarker, lit] using hhead
            exact ⟨rest, by rw [hb]⟩
      have hid : id = id.take at' ++ 0x2D :: rest := by rw [← hrest, List.take_append_drop]
      have hutf8 := h.clean.utf8
      rw [hid] at hutf8
      refine ⟨⟨hutf8.of_append_left (by decide), fun hzero => ?_⟩, ?_⟩
      · exact h.clean.nul (List.mem_of_mem_take hzero)
      · exact escape_eq_self.mpr fun c hc =>
          escape_eq_self.mp h.plain c (List.mem_of_mem_take hc)
    · exact h

theorem PlainId.retryCandidate {id : Bytes} (h : PlainId id) (n : Nat) :
    PlainId (retryCandidate id n) :=
  (h.stripRetrySuffix.append ⟨cleanText_of_ascii (by decide), by decide⟩).append
    (plainId_decimal n)

/-! ## What the commands answer -/

theorem cleanText_lit {s : String} (h : Ascii (lit s)) : CleanText (lit s) := h.clean

theorem ascii_sqliteErrStr (code : SqliteCode) : Ascii (sqliteErrStr code) := by
  have htexts : ∀ text ∈ sqliteTexts, Ascii (lit text) := by decide
  unfold sqliteErrStr
  split_ifs
  · decide
  · decide
  · decide
  · split
    · rename_i text htext
      exact htexts text (List.mem_of_getElem? htext)
    · decide

theorem ascii_sqliteErrmsg (code : SqliteCode) : Ascii (sqliteErrmsg code) := by
  unfold sqliteErrmsg
  split_ifs
  · decide
  · decide
  · exact ascii_sqliteErrStr code

theorem ascii_toToken (state : JobState) : Ascii state.toToken := by
  cases state <;> decide

/-- A message that begins with a literal and then names a job. -/
theorem cleanText_about {text : String} (h : Ascii (lit text)) {id : Bytes} (hid : CleanText id) :
    CleanText (lit text ++ quoted id) := by
  refine h.clean.append (CleanText.append (CleanText.append ?_ hid) ?_)
  · exact cleanText_lit (by decide)
  · exact cleanText_lit (by decide)

/-- A message that goes on with a literal. -/
theorem cleanText_then {s : Bytes} (hs : CleanText s) {text : String} (h : Ascii (lit text)) :
    CleanText (s ++ lit text) :=
  hs.append h.clean

/-- A message that names a job, a state and what cannot be done. -/
theorem cleanText_state {before between after : String} (hbefore : Ascii (lit before))
    (hbetween : Ascii (lit between)) (hafter : Ascii (lit after)) {id : Bytes}
    (hid : CleanText id) (state : JobState) :
    CleanText (lit before ++ quoted id ++ lit between ++ state.toToken ++ lit after) :=
  cleanText_then ((cleanText_then (cleanText_about hbefore hid) hbetween).append
    (ascii_toToken state).clean) hafter

theorem cleanText_nil : CleanText [] := cleanText_of_ascii (by simp)

theorem cleanText_storeFail {what : Bytes} (h : CleanText what) (code : SqliteCode) :
    CleanText (storeFail what code) := by
  refine CleanText.append (CleanText.append (CleanText.append ?_ h) ?_)
    (ascii_sqliteErrmsg code).clean
  · exact cleanText_lit (by decide)
  · exact cleanText_lit (by decide)

/-- The message of a refusal, if it is one. -/
def Spoken {α : Type} (result : Except Bytes α) : Prop :=
  ∀ message, result = .error message → CleanText message

section Commands
variable {id : Bytes} (hid : CleanText id)
include hid

theorem load_spoken (site : Site) : (load site id).Returns Spoken := by
  intro reply
  cases reply with
  | ok job =>
      intro message h
      cases h
  | error e =>
      intro message h
      cases h
      exact cleanText_storeFail (cleanText_about (by decide) hid) e

theorem updateState_spoken (target : JobState) (nowMs : Int) (text : Bytes) :
    (updateState id target nowMs text).Returns Spoken := by
  refine (load_spoken hid _).bind fun loaded hloaded => ?_
  match loaded with
  | .error e =>
      intro message h
      cases h
      exact hloaded _ rfl
  | .ok none =>
      intro message h
      cases h
      exact cleanText_about (by decide) hid
  | .ok (some job) =>
      simp only
      split
      · intro message h
        cases h
        refine (cleanText_state (by decide) (by decide) (by decide) hid _).append
          (ascii_toToken _).clean |>.append ?_
        split_ifs
        · exact cleanText_lit (by decide)
        · exact cleanText_lit (by decide)
        · exact cleanText_nil
      · intro reply
        cases reply with
        | ok _ =>
            intro message h
            cases h
        | error e =>
            intro message h
            cases h
            exact cleanText_storeFail (cleanText_about (by decide) hid) e

theorem recordIntent_spoken (request : MoveRequest) (nowMs : Int) (retryOf : Bytes) :
    (recordIntent (freshJob id request nowMs) retryOf).Returns Spoken := by
  intro reply
  cases reply with
  | ok _ =>
      intro message h
      cases h
  | error e =>
      intro message h
      cases h
      exact cleanText_storeFail (cleanText_about (by decide) hid) e

theorem cancelInStore_spoken :
    (cancelInStore id).Returns fun refusal => CleanText refusal.2 := by
  refine (load_spoken hid _).bind fun loaded hloaded => ?_
  match loaded with
  | .error e => exact hloaded _ rfl
  | .ok none => exact cleanText_nil
  | .ok (some job) =>
      simp only
      split
      · exact cleanText_state (by decide) (by decide) (by decide) hid _
      · refine (updateState_spoken hid _ _ _).bind fun result hresult => ?_
        cases result with
        | error e => exact hresult _ rfl
        | ok _ => exact cleanText_nil

theorem cleanText_noSuchJobHere : CleanText (noSuchJobHere id) :=
  cleanText_about (by decide) hid

theorem loadForRetry_spoken :
    (loadForRetry id).Returns fun result =>
      ∀ refusal, result = .error refusal → CleanText refusal.2 := by
  refine (load_spoken hid _).bind fun loaded _ => ?_
  match loaded with
  | .error e =>
      rintro refusal ⟨⟩
      exact cleanText_noSuchJobHere hid
  | .ok none =>
      rintro refusal ⟨⟩
      exact cleanText_noSuchJobHere hid
  | .ok (some job) =>
      simp only
      split
      · rintro refusal ⟨⟩
        exact cleanText_state (by decide) (by decide) (by decide) hid _
      · rintro refusal ⟨⟩

theorem probeCandidate_spoken : (probeCandidate id).Returns Spoken := by
  refine (load_spoken hid _).bind fun loaded hloaded => ?_
  cases loaded with
  | error e =>
      intro message h
      cases h
      exact hloaded _ rfl
  | ok job =>
      intro message h
      cases h

end Commands

/-- Whatever a thread in a command returns is clean text. -/
def Thread.Clean : Thread → Prop
  | .returned _ error => CleanText error
  | .submitWaits id _ _ => CleanText id
  | .submitRecords _ _ rest => rest.Returns Spoken
  | .submitPublishes _ _ recorded => Spoken recorded
  | .cancelWaits id _ => CleanText id
  | .cancelActs _ _ rest => rest.Returns fun refusal => CleanText refusal.2
  | .retryWaits id _ _ => PlainId id
  | .retryLoads id _ _ rest => PlainId id ∧ rest.Returns fun result =>
      ∀ refusal, result = .error refusal → CleanText refusal.2
  | .retryProbes id _ _ _ rest => PlainId id ∧ rest.Returns Spoken
  | .retryRecords candidate _ rest => PlainId candidate ∧ rest.Returns Spoken
  | .idle | .waiting | .exited | .working _ _ => True

theorem Thread.Clean.locked {thread thread' : Thread} (h : thread.Clean)
    (hlocked : thread.locked = some thread') : thread'.Clean := by
  unfold Thread.locked at hlocked
  split at hlocked
  · cases hlocked
    exact recordIntent_spoken h _ _ _
  · cases hlocked
    exact cancelInStore_spoken h
  · cases hlocked
    exact ⟨h, loadForRetry_spoken h.clean⟩
  · cases hlocked

theorem Thread.Clean.called {thread : Thread} {c : Call} {rest : Reply c → Thread}
    (h : thread.Clean) (hcalling : Calling thread c rest) (reply : Reply c) :
    (rest reply).Clean := by
  cases hcalling with
  | working => trivial
  | submit => exact h reply
  | cancel => exact h reply
  | retryLoad => exact ⟨h.1, h.2 reply⟩
  | retryProbe => exact ⟨h.1, h.2 reply⟩
  | retryRecord => exact ⟨h.1, h.2 reply⟩

theorem clean_afterPublish {recorded : Except Bytes Unit} (h : Spoken recorded) :
    (System.afterPublish recorded).Clean := by
  cases recorded with
  | ok _ => exact cleanText_nil
  | error message => exact h message rfl

theorem PlainId.retryTries {id : Bytes} (h : PlainId id) (move : MoveRequest) (nowMs : Int)
    (n : Nat) : (FileMover.retryTries id move nowMs n).Clean :=
  ⟨h, probeCandidate_spoken (h.retryCandidate n).clean⟩

theorem System.clean_proceed {s t : System} {n : Nat} (h : s.proceed n = some t)
    (hclean : (s.threads n).Clean) : (t.threads n).Clean := by
  unfold System.proceed at h
  split at h
  · cases h
    rw [threads_setThread_self]
    trivial
  · rename_i hthread
    rw [hthread] at hclean
    cases h
    rw [threads_setThread_self]
    exact hclean
  · rename_i hthread
    rw [hthread] at hclean
    cases h
    rw [threads_setThread_self]
    exact clean_afterPublish hclean
  · rename_i hthread
    rw [hthread] at hclean
    cases h
    rw [threads_setThread_self]
    exact hclean
  · rename_i hthread
    rw [hthread] at hclean
    split at h
    · cases h
      rw [threads_setThread_self]
      exact hclean.2 _ rfl
    · cases h
      rw [threads_setThread_self]
      exact hclean.1.retryTries _ _ _
  · rename_i hthread
    rw [hthread] at hclean
    split at h
    · cases h
      rw [threads_setThread_self]
      exact hclean.2 _ rfl
    · cases h
      rw [threads_setThread_self]
      exact hclean.1.retryTries _ _ _
    · split at h
      · cases h
        rw [threads_setThread_self]
        have hcandidate := hclean.1.retryCandidate
        exact ⟨hcandidate _, recordIntent_spoken (hcandidate _).clean _ _ _⟩
      · cases h
        rw [threads_setThread_self]
        exact hclean.1.retryTries _ _ _
  · rename_i hthread
    rw [hthread] at hclean
    cases h
    rw [threads_setThread_self]
    exact clean_afterPublish hclean.2
  · cases h

/-- A thread in a command stays clean, whatever the system does. -/
theorem System.clean_act {s t : System} {event : ManagerEvent} {k : Nat}
    (h : s.act event = some t) (hbegins : event.begins ≠ some k)
    (hclean : (s.threads k).Clean) : (t.threads k).Clean := by
  rcases System.continues h hbegins with hsame | hworker | hlocked |
    ⟨c, rest, fault, calling, rfl⟩ | ⟨-, hproceed⟩
  · rw [hsame]
    exact hclean
  · cases hthread : t.threads k with
    | waiting | exited | working => trivial
    | _ =>
        rw [hthread] at hworker
        cases hworker
  · exact hclean.locked hlocked
  · rw [System.threads_setThread_self]
    exact hclean.called calling _
  · exact System.clean_proceed hproceed hclean

/-! ## The sections that begin a command -/

section Sections
variable {m : Manager} {id : Bytes} {refusal : Refusal} (hid : CleanText id)
include hid

theorem Manager.pause_spoken (h : m.pause id = .error refusal) : CleanText refusal.2 := by
  unfold Manager.pause at h
  split_ifs at h
  · cases h
    exact cleanText_lit (by decide)
  · cases h
    exact cleanText_then (cleanText_about (by decide) hid) (by decide)
  · cases h
    exact cleanText_noSuchJobHere hid

theorem Manager.resume_spoken (h : m.resume id = .error refusal) : CleanText refusal.2 := by
  unfold Manager.resume at h
  split_ifs at h
  · cases h
    exact cleanText_lit (by decide)
  · cases h
    exact cleanText_then (cleanText_about (by decide) hid) (by decide)
  · cases h
    exact cleanText_noSuchJobHere hid

theorem Manager.claimCancel_spoken (h : m.claimCancel id = .error refusal) :
    CleanText refusal.2 := by
  unfold Manager.claimCancel at h
  split_ifs at h
  · cases h
    exact cleanText_lit (by decide)
  · cases h
    exact cleanText_then (cleanText_about (by decide) hid) (by decide)
  · cases h
    exact cleanText_noSuchJobHere hid

theorem Manager.claimRetry_spoken (h : m.claimRetry id = .error refusal) :
    CleanText refusal.2 := by
  unfold Manager.claimRetry at h
  split_ifs at h
  · cases h
    exact cleanText_lit (by decide)
  · split at h
    · cases h
      exact cleanText_noSuchJobHere hid
    · cases h

theorem Manager.claimSubmit_spoken (h : m.claimSubmit id = .error refusal) :
    CleanText refusal.2 := by
  unfold Manager.claimSubmit at h
  split_ifs at h
  · cases h
    exact cleanText_lit (by decide)
  · cases h
    exact cleanText_then (cleanText_about (by decide) hid) (by decide)

end Sections

section Beginnings
variable {s t : System} {n : Nat} {id : Bytes}

theorem System.clean_command {result : Except Refusal Manager}
    (h : ∀ refusal, result = .error refusal → CleanText refusal.2) :
    ((s.command n result).threads n).Clean := by
  cases result with
  | error refusal =>
      simp only [System.command]
      rw [threads_setThread_self]
      exact h refusal rfl
  | ok m =>
      simp only [System.command]
      rw [threads_setThread_self]
      exact cleanText_nil

theorem System.clean_pause (h : s.act (.pause n id) = some t) (hid : CleanText id) :
    (t.threads n).Clean := by
  simp only [System.act] at h
  split_ifs at h
  cases h
  exact clean_command fun _ => Manager.pause_spoken hid

theorem System.clean_resume (h : s.act (.resume n id) = some t) (hid : CleanText id) :
    (t.threads n).Clean := by
  simp only [System.act] at h
  split_ifs at h
  cases h
  exact clean_command fun _ => Manager.resume_spoken hid

theorem System.clean_cancel (h : s.act (.cancel n id) = some t) (hid : CleanText id) :
    (t.threads n).Clean := by
  simp only [System.act] at h
  split_ifs at h
  split at h
  · rename_i hclaim
    cases h
    rw [threads_setThread_self]
    exact Manager.claimCancel_spoken hid hclaim
  · cases h
    rw [threads_setThread_self]
    exact hid

theorem System.clean_retry {nowMs : Int} (h : s.act (.retry n id nowMs) = some t)
    (hid : PlainId id) : (t.threads n).Clean := by
  simp only [System.act] at h
  split_ifs at h
  split at h
  · rename_i hclaim
    cases h
    rw [threads_setThread_self]
    exact Manager.claimRetry_spoken hid.clean hclaim
  · cases h
    rw [threads_setThread_self]
    exact hid

theorem System.clean_submit {request : MoveRequest} {nowMs : Int}
    (h : s.act (.submit n id request nowMs) = some t) (hid : CleanText id) :
    (t.threads n).Clean := by
  simp only [System.act] at h
  split_ifs at h
  split at h
  · rename_i hclaim
    cases h
    rw [threads_setThread_self]
    exact Manager.claimSubmit_spoken hid hclaim
  · cases h
    rw [threads_setThread_self]
    exact hid

end Beginnings

/-! ## The routes -/

/-- A route whose replies can be read if the manager answers with clean text. -/
def ReadableRoute : Routed → Prop
  | .reply response => Readable response.body
  | .command _ answer => ∀ reply : CommandReply, CleanText reply.error → PlainId reply.jobId →
      Readable (answer reply).body

theorem readable_actionResponse {reply : CommandReply} {body : Bytes}
    (herror : CleanText reply.error) (hbody : body ≠ [] → Readable body) :
    Readable (actionResponse reply body).body := by
  unfold actionResponse
  split_ifs with hok hempty
  · exact readable_statusOk
  · exact hbody hempty
  · exact readable_encodeError herror

theorem readable_routeSubmit (body : Bytes) : ReadableRoute (routeSubmit body) := by
  unfold routeSubmit
  split
  · rename_i hdecode
    exact readable_encodeError (decodeSubmitRequest_error hdecode)
  · split
    · exact readable_encodeError (cleanText_lit (by decide))
    · intro reply herror hjob
      beta_reduce
      split_ifs
      · exact readable_encodeError herror
      · exact readable_jobIdBody hjob

theorem readable_routeAction (id action : Bytes) : ReadableRoute (routeAction id action) := by
  unfold routeAction
  split_ifs
  · exact readable_encodeError (cleanText_lit (by decide))
  · exact fun reply herror _ => readable_actionResponse herror (absurd rfl)
  · exact fun reply herror _ => readable_actionResponse herror (absurd rfl)
  · exact fun reply herror _ => readable_actionResponse herror (absurd rfl)
  · exact fun reply herror hjob =>
      readable_actionResponse herror fun _ => readable_jobIdBody hjob

theorem readable_routeRequest (request : Http.Request) :
    ReadableRoute (routeRequest request) := by
  have hroute : ReadableRoute (.reply noSuchRoute) :=
    readable_encodeError (cleanText_lit (by decide))
  have hmethod : ∀ allow, ReadableRoute (.reply (methodNotAllowed allow)) :=
    fun _ => readable_encodeError (cleanText_lit (by decide))
  unfold routeRequest
  split
  · split_ifs
    · exact hmethod _
    · exact readable_statusOk
    · exact hroute
  · split_ifs
    · exact hmethod _
    · exact readable_routeSubmit _
    · exact hroute
  · split_ifs
    · exact hroute
    · exact hmethod _
    · exact readable_routeAction _ _
    · exact hroute
  · exact hroute

theorem readable_answer {request : Http.Request} {reply : CommandReply}
    (herror : CleanText reply.error) (hjob : PlainId reply.jobId) :
    Readable (Frontend.answer request reply).body := by
  have hroute := readable_routeRequest request
  unfold Frontend.answer respond
  cases hrequest : routeRequest request with
  | reply response =>
      rw [hrequest] at hroute
      exact hroute
  | command command answer =>
      rw [hrequest] at hroute
      exact hroute reply herror hjob

/-! ## Requests -/

/-- `parse_request_head` and `content_length_for` accept the request; its body is
whatever followed. -/
def AcceptedRequest (request : Http.Request) : Prop :=
  ∃ data maxHead maxBody out length body,
    Http.parseRequestHead data maxHead {} = (.ok, out) ∧
      Http.contentLengthFor out.request maxBody = .ok length ∧
      request = { out.request with body := body }

/-- The id that an action names. -/
def Command.target : Command → Option Bytes
  | .submit _ => none
  | .pause id | .resume id | .cancel id | .retry id => some id

/-- The id of an action is UTF-8, and where it comes back in a body it needs no
escaping. -/
def Command.Tame : Command → Prop
  | .submit _ => True
  | .pause id | .resume id | .cancel id => Utf8.WellFormed id
  | .retry id => Utf8.WellFormed id ∧ escape id = id

theorem parseLines_target {head : Bytes} {request : Http.Request}
    (h : Http.parseLines head = .ok request) : Http.IsTarget request.target := by
  unfold Http.parseLines at h
  split at h
  · cases h
  split at h
  · cases h
  split at h
  · cases h
  rename_i hline
  split at h
  · cases h
  cases h
  exact (Http.parseRequestLine_eq_ok.mp hline).2.1

theorem AcceptedRequest.target {request : Http.Request} (h : AcceptedRequest request) :
    Http.IsTarget request.target := by
  obtain ⟨data, maxHead, maxBody, out, length, body, hparse, -, rfl⟩ := h
  show Http.IsTarget out.request.target
  unfold Http.parseRequestHead at hparse
  split at hparse
  · split_ifs at hparse <;> cases hparse
  split_ifs at hparse
  · cases hparse
  split at hparse
  · cases hparse
  · rename_i hlines
    cases hparse
    exact parseLines_target hlines

theorem mem_of_mem_splitOn {b sep : UInt8} {path segment : Bytes}
    (hsegment : segment ∈ path.splitOn sep) (hb : b ∈ segment) : b ∈ path := by
  have hwithin : ∀ {l : List Bytes}, segment ∈ l → segment ∈ l.intersperse [sep] := by
    intro l hl
    induction l with
    | nil => cases hl
    | cons x l ih =>
        cases l with
        | nil => simpa using hl
        | cons y l =>
            rcases List.mem_cons.mp hl with rfl | hl
            · simp
            · simp [ih hl]
  have hpath := @List.intercalate_splitOn _ path _ _ sep
  rw [← hpath, List.intercalate]
  exact List.mem_flatten.mpr ⟨segment, hwithin hsegment, hb⟩

theorem commandOf_target {request : Http.Request} {command : Command} {id : Bytes}
    (h : commandOf request = some command) (hid : command.target = some id) :
    id ∈ pathSegments request.target := by
  unfold commandOf at h
  split at h
  · cases h
  rename_i hroute
  cases h
  unfold routeRequest at hroute
  split at hroute
  · split_ifs at hroute
  · split_ifs at hroute
    unfold routeSubmit at hroute
    split at hroute
    · cases hroute
    split at hroute
    · cases hroute
    · cases hroute
      cases hid
  · rename_i hsegments
    rw [hsegments]
    split_ifs at hroute
    unfold routeAction at hroute
    split_ifs at hroute
    all_goals
      cases hroute
      cases hid
      simp
  · cases hroute

theorem AcceptedRequest.nul {request : Http.Request} (h : AcceptedRequest request)
    {command : Command} {id : Bytes} (hcommand : commandOf request = some command)
    (hid : command.target = some id) : 0 ∉ id := by
  intro hzero
  have hsegment := List.mem_of_mem_filter (commandOf_target hcommand hid)
  have hmem := (List.takeWhile_prefix _).subset (mem_of_mem_splitOn hsegment hzero)
  exact absurd (h.target.plain 0 hmem) (by decide)

/-! ## Handlers -/

/-- The command of the request, if it makes one, has a tame id. -/
def TameRequest (request : Http.Request) : Prop :=
  ∀ command, commandOf request = some command → command.Tame

/-- What a handler has in hand leads to a readable body. -/
def Handler.Promising (handler : Handler) (thread : Thread) : Prop :=
  match handler with
  | .free => True
  | .answered response => Readable response.body
  | .allocating _ => True
  | .asking request jobId => TameRequest request → thread.Clean ∧ PlainId jobId

theorem plainId_nil : PlainId [] := ⟨cleanText_nil, rfl⟩

theorem Handler.Promising.follow {handler : Handler} {thread thread' : Thread}
    (h : handler.Promising thread) (hclean : thread.Clean → thread'.Clean) :
    (handler.follow thread').Promising thread' := by
  cases handler with
  | free | answered | allocating => exact h
  | asking request jobId =>
      unfold Handler.follow
      simp only
      split
      · intro htame
        have hthread := hclean (h htame).1
        exact ⟨hthread, hthread.1⟩
      · exact fun htame => ⟨hclean (h htame).1, (h htame).2⟩

def Frontend.Promising (f : Frontend) : Prop :=
  ∀ n, (f.handlers n).Promising (f.system.threads n)

/-- The requests that handlers get come out of the parser. -/
def FromWire (_ : Frontend) : FrontendEvent → Prop
  | .route _ request _ => AcceptedRequest request
  | _ => True

theorem Frontend.Promising.setHandler {f : Frontend} (h : f.Promising) {n : Nat}
    {handler : Handler} (hhandler : handler.Promising (f.system.threads n)) :
    (f.setHandler n handler).Promising := by
  intro k
  show (Function.update f.handlers n handler k).Promising (f.system.threads k)
  by_cases hk : k = n
  · subst hk
    rw [Function.update_self]
    exact hhandler
  · rw [Function.update_of_ne hk]
    exact h k

/-- A command that a handler begins leaves the other handlers where they are. -/
theorem Frontend.Promising.ask {f g : Frontend} (h : f.Promising) {n : Nat}
    {event : ManagerEvent} {request : Http.Request} {jobId : Bytes}
    (hbegins : event.begins = some n)
    (hask : f.ask n event request jobId = some g)
    (hclean : ∀ t, f.system.act event = some t → TameRequest request →
      (t.threads n).Clean ∧ PlainId jobId) : g.Promising := by
  unfold Frontend.ask at hask
  obtain ⟨t, ht, rfl⟩ := Option.map_eq_some_iff.mp hask
  intro k
  show (Function.update f.handlers n _ k).Promising (t.threads k)
  by_cases hk : k = n
  · subst hk
    rw [Function.update_self]
    exact hclean t ht
  · rw [Function.update_of_ne hk, System.begins_others ht hbegins hk]
    exact h k

theorem Frontend.Promising.route {f g : Frontend} (h : f.Promising) {n : Nat}
    {request : Http.Request} {nowMs : Int} (haccepted : AcceptedRequest request)
    (hroute : f.route n request nowMs = some g) : g.Promising := by
  have hcommand : ∀ command answer, routeRequest request = .command command answer →
      commandOf request = some command := by
    intro command answer heq
    simp [commandOf, heq]
  have hreadable := readable_routeRequest request
  unfold Frontend.route at hroute
  split at hroute
  · rename_i hreply
    cases hroute
    rw [hreply] at hreadable
    exact h.setHandler hreadable
  · split_ifs at hroute
    · cases hroute
      exact h.setHandler (readable_answer (cleanText_lit (by decide)) plainId_nil)
    · cases hroute
      exact h.setHandler trivial
  · rename_i heq
    have hc := hcommand _ _ heq
    refine h.ask rfl hroute fun t ht htame => ⟨System.clean_pause ht ?_, plainId_nil⟩
    exact ⟨htame _ hc, haccepted.nul hc rfl⟩
  · rename_i heq
    have hc := hcommand _ _ heq
    refine h.ask rfl hroute fun t ht htame => ⟨System.clean_resume ht ?_, plainId_nil⟩
    exact ⟨htame _ hc, haccepted.nul hc rfl⟩
  · rename_i heq
    have hc := hcommand _ _ heq
    refine h.ask rfl hroute fun t ht htame => ⟨System.clean_cancel ht ?_, plainId_nil⟩
    exact ⟨htame _ hc, haccepted.nul hc rfl⟩
  · rename_i heq
    have hc := hcommand _ _ heq
    refine h.ask rfl hroute fun t ht htame => ⟨System.clean_retry ht ?_, plainId_nil⟩
    obtain ⟨hutf8, hplain⟩ := htame _ hc
    exact ⟨⟨hutf8, haccepted.nul hc rfl⟩, hplain⟩

theorem Frontend.Promising.step {f g : Frontend} (h : f.Promising) {event : FrontendEvent}
    (hwire : FromWire f event) (hact : f.act event = some g) : g.Promising := by
  cases event with
  | manager event =>
      simp only [Frontend.act] at hact
      split_ifs at hact
      obtain ⟨t, ht, rfl⟩ := Option.map_eq_some_iff.mp hact
      intro k
      show (f.following event t k).Promising (t.threads k)
      unfold Frontend.following
      split_ifs with hbegins
      · trivial
      · exact (h k).follow (System.clean_act ht hbegins)
  | route n request nowMs =>
      simp only [Frontend.act] at hact
      split_ifs at hact
      exact h.route hwire hact
  | allocate n sequence nowMs =>
      simp only [Frontend.act] at hact
      split at hact
      · split at hact
        · refine h.ask rfl hact fun t ht _ => ?_
          have hid := plainId_sequenceId sequence
          exact ⟨System.clean_submit ht hid.clean, hid⟩
        · cases hact
      · cases hact
  | allocateFails n fault code =>
      simp only [Frontend.act] at hact
      split at hact
      · cases hact
        have hwhat : CleanText fault.what := by cases fault <;> exact cleanText_lit (by decide)
        exact h.setHandler (readable_answer (cleanText_storeFail hwhat code) plainId_nil)
      · cases hact

section Asking
variable {f g : Frontend} {n k : Nat} {request request' : Http.Request} {jobId jobId' : Bytes}

/-- A handler that asks has asked before the update, or is the one put in place. -/
theorem asking_of_update {handlers : Nat → Handler} {handler : Handler}
    (h : Function.update handlers k handler n = .asking request jobId) :
    handlers n = .asking request jobId ∨ n = k ∧ handler = .asking request jobId := by
  by_cases hk : n = k
  · subst hk
    rw [Function.update_self] at h
    exact .inr ⟨rfl, h⟩
  · rw [Function.update_of_ne hk] at h
    exact .inl h

theorem Handler.asking_of_follow {handler : Handler} {thread : Thread}
    (h : handler.follow thread = .asking request jobId) :
    ∃ jobId', handler = .asking request jobId' := by
  unfold Handler.follow at h
  split at h
  · split at h
    · cases h
      exact ⟨_, rfl⟩
    · cases h
      exact ⟨_, rfl⟩
  · exact ⟨jobId, h⟩

theorem Frontend.asking_of_answered {response : Http.Response}
    (h : (f.setHandler k (.answered response)).handlers n = .asking request jobId) :
    f.handlers n = .asking request jobId := by
  rcases asking_of_update h with hbefore | ⟨-, heq⟩
  · exact hbefore
  · cases heq

theorem Frontend.asking_of_ask {event : ManagerEvent}
    (hask : f.ask k event request' jobId' = some g)
    (h : g.handlers n = .asking request jobId) :
    f.handlers n = .asking request jobId ∨ n = k ∧ request = request' := by
  unfold Frontend.ask at hask
  obtain ⟨t, -, rfl⟩ := Option.map_eq_some_iff.mp hask
  rcases asking_of_update h with hbefore | ⟨hk, heq⟩
  · exact .inl hbefore
  · cases heq
    exact .inr ⟨hk, rfl⟩

theorem Frontend.asking_of_route {nowMs : Int} (hroute : f.route k request' nowMs = some g)
    (h : g.handlers n = .asking request jobId) :
    f.handlers n = .asking request jobId ∨ n = k ∧ request = request' := by
  unfold Frontend.route at hroute
  split at hroute
  · cases hroute
    exact .inl (Frontend.asking_of_answered h)
  · split_ifs at hroute
    · cases hroute
      exact .inl (Frontend.asking_of_answered h)
    · cases hroute
      rcases asking_of_update h with hbefore | ⟨-, heq⟩
      · exact .inl hbefore
      · cases heq
  · exact Frontend.asking_of_ask hroute h
  · exact Frontend.asking_of_ask hroute h
  · exact Frontend.asking_of_ask hroute h
  · exact Frontend.asking_of_ask hroute h

/-- A handler that asks after a step has asked before it, or has begun with a request that
came in, or its request is a submission. -/
theorem Frontend.asking_cases {event : FrontendEvent} (hact : f.act event = some g)
    (h : g.handlers n = .asking request jobId) :
    (∃ jobId', f.handlers n = .asking request jobId') ∨
      (∃ nowMs, event = .route n request nowMs) ∨
      ∃ move, commandOf request = some (.submit move) := by
  cases event with
  | manager event =>
      simp only [Frontend.act] at hact
      split_ifs at hact
      obtain ⟨t, -, rfl⟩ := Option.map_eq_some_iff.mp hact
      simp only [Frontend.following] at h
      split_ifs at h
      exact .inl (Handler.asking_of_follow h)
  | route k request' nowMs =>
      simp only [Frontend.act] at hact
      split_ifs at hact
      rcases Frontend.asking_of_route hact h with hbefore | ⟨rfl, rfl⟩
      · exact .inl ⟨_, hbefore⟩
      · exact .inr (.inl ⟨nowMs, rfl⟩)
  | allocate k sequence nowMs =>
      simp only [Frontend.act] at hact
      split at hact
      · split at hact
        · rename_i hcommand
          rcases Frontend.asking_of_ask hact h with hbefore | ⟨rfl, rfl⟩
          · exact .inl ⟨_, hbefore⟩
          · exact .inr (.inr ⟨_, hcommand⟩)
        · cases hact
      · cases hact
  | allocateFails k fault code =>
      simp only [Frontend.act] at hact
      split at hact
      · cases hact
        exact .inl ⟨_, Frontend.asking_of_answered h⟩
      · cases hact

end Asking

/-- The id that a handler asks about holds no NUL. -/
def Frontend.NulFree (f : Frontend) : Prop :=
  ∀ n request jobId command id, f.handlers n = .asking request jobId →
    commandOf request = some command → command.target = some id → 0 ∉ id

theorem Frontend.NulFree.step {f g : Frontend} (h : f.NulFree) {event : FrontendEvent}
    (hwire : FromWire f event) (hact : f.act event = some g) : g.NulFree := by
  intro n request jobId command id hasking hcommand hid
  rcases Frontend.asking_cases hact hasking with ⟨jobId', hbefore⟩ | ⟨nowMs, rfl⟩ | ⟨move, hsubmit⟩
  · exact h n request jobId' command id hbefore hcommand hid
  · exact AcceptedRequest.nul hwire hcommand hid
  · -- a submission names no job
    rw [hsubmit] at hcommand
    cases hcommand
    cases hid

/-- **Reply bodies can be read.** In every run of the handlers and the manager, over
requests that the parser accepts, a reply has a body that `json::parse` accepts under
large enough limits, provided that the id of an action on a job is UTF-8 and that the
id of a retry needs no escaping; and so has every refusal of a connection. Where the
text of a reply holds the id of its request, or its body the new id as it is, the body
can be read exactly if that id is UTF-8. -/
theorem bodies_readable (config : RetryConfig) (strategy : MoveStrategy) (w : World)
    (workers : Nat → Bool) {f : Frontend}
    (reach : GuardedReach Frontend.act FromWire
      (Frontend.opened (System.started config strategy w workers)) f) :
    (∀ n response, f.reply n = some response →
      (∀ request jobId, f.handlers n = .asking request jobId → TameRequest request) →
      Readable response.body) ∧
    (∀ options wire response, Http.serveConnection options wire = .refused response →
      Readable response.body) ∧
    ∀ n response request jobId command id, f.reply n = some response →
      f.handlers n = .asking request jobId → commandOf request = some command →
      command.target = some id →
      (∀ before after, Ascii before → Ascii after →
        response.body = encodeError (before ++ quoted id ++ after) →
        (Readable response.body ↔ Utf8.WellFormed id)) ∧
      ∀ new, escape new = new → response.body = jobIdBody new →
        (Readable response.body ↔ Utf8.WellFormed new) := by
  have hinit : (Frontend.opened (System.started config strategy w workers)).Promising :=
    fun _ => trivial
  have hinv : f.Promising :=
    reach.invariant Frontend.Promising (fun hwire hact h => h.step hwire hact) hinit
  have hfree : (Frontend.opened (System.started config strategy w workers)).NulFree := by
    intro n request jobId command id hasking
    cases hasking
  have hnul : f.NulFree :=
    reach.invariant Frontend.NulFree (fun hwire hact h => h.step hwire hact) hfree
  refine ⟨?_, ?_, ?_⟩
  · intro n response hreply htame
    have hn := hinv n
    unfold Frontend.reply at hreply
    split at hreply
    · rename_i hhandler
      cases hreply
      rw [hhandler] at hn
      exact hn
    · rename_i hhandler hthread
      cases hreply
      rw [hhandler, hthread] at hn
      obtain ⟨herror, hjob⟩ := hn (htame _ _ hhandler)
      refine readable_answer herror ?_
      simp only
      split_ifs
      · exact hjob
      · exact plainId_nil
    · cases hreply
  · intro options wire response hrefused
    obtain ⟨status, message, hrefuses, rfl⟩ := Http.serveConnection_refused hrefused
    exact readable_encodeError hrefuses.ascii.clean
  · intro n response request jobId command id _ hasking hcommand hid
    constructor
    · intro before after hbefore hafter hbody
      rw [hbody]
      exact readable_names_iff hbefore hafter (hnul n request jobId command id hasking hcommand hid)
    · intro new hplain hbody
      rw [hbody]
      exact readable_jobIdBody_iff hplain

/-- The head of `POST /api/jobs/<id>/pause`. -/
def pauseHead (id : Bytes) : Bytes :=
  lit "POST /api/jobs/" ++ id ++ lit "/pause HTTP/1.1\r\n\r\n"

/-- The request that this head is. -/
def pauseRequest (id : Bytes) : Http.Request :=
  { method := lit "POST", target := lit "/api/jobs/" ++ id ++ lit "/pause"
    version := lit "HTTP/1.1" }

/-- A manager without workers on an empty store. -/
def emptyFrontend : Frontend :=
  Frontend.opened (System.started ⟨3, 1000, 60000⟩ .renameNoReplace
    { fs := (sampleWorld .queued []).fs, db := ∅ } fun _ => false)

/-- A client asks it to pause a job. -/
theorem exists_paused {id : Bytes}
    (hparse : Http.parseRequestHead (pauseHead id) 8192 {} =
      (.ok, ⟨pauseRequest id, (pauseHead id).length, []⟩))
    (hasked : (emptyFrontend.act (.route 0 (pauseRequest id) 0)).any
      (·.handlers 0 = .asking (pauseRequest id) []) = true)
    (hreply : (emptyFrontend.act (.route 0 (pauseRequest id) 0)).bind (·.reply 0) =
      some (errorResponse 404 (noSuchJobHere id))) :
    ∃ f, GuardedReach Frontend.act FromWire emptyFrontend f ∧
      f.handlers 0 = .asking (pauseRequest id) [] ∧
      f.reply 0 = some (errorResponse 404 (noSuchJobHere id)) := by
  obtain ⟨f, hf, hreply⟩ := Option.bind_eq_some_iff.mp hreply
  have haccepted : AcceptedRequest (pauseRequest id) :=
    ⟨pauseHead id, 8192, 65536, _, 0, [], hparse, rfl, rfl⟩
  refine ⟨f, .single ⟨.route 0 (pauseRequest id) 0, haccepted, hf⟩, ?_, hreply⟩
  rw [hf] at hasked
  simpa using hasked

/-- The text of the reply about a job that is not there. -/
theorem noSuchJob_body (id : Bytes) :
    (errorResponse 404 (noSuchJobHere id)).body =
      encodeError (lit "manager: no such job " ++ quoted id ++ []) := by
  rw [List.append_nil]
  rfl

/-- A job that is not there, and one whose id is the byte `0xFF`, which a target may hold. -/
theorem bodies_readable_sample :
    (∃ f response, GuardedReach Frontend.act FromWire emptyFrontend f ∧
      f.reply 0 = some response ∧ Readable response.body) ∧
    ∃ f response, GuardedReach Frontend.act FromWire emptyFrontend f ∧
      f.reply 0 = some response ∧ (Readable response.body ↔ Utf8.WellFormed [0xFF]) := by
  constructor
  · obtain ⟨f, reach, hhandler, hreply⟩ :=
      @exists_paused (lit "job-7") (by decide +kernel) (by decide +kernel) (by decide +kernel)
    refine ⟨f, _, reach, hreply, (bodies_readable _ _ _ _ reach).1 0 _ hreply ?_⟩
    intro request jobId hasking
    rw [hhandler] at hasking
    cases hasking
    have hcommand : commandOf (pauseRequest (lit "job-7")) = some (.pause (lit "job-7")) := by
      decide +kernel
    rintro command h
    rw [hcommand] at h
    cases h
    exact (cleanText_lit (by decide)).utf8
  · obtain ⟨f, reach, hhandler, hreply⟩ :=
      @exists_paused [0xFF] (by decide +kernel) (by decide +kernel) (by decide +kernel)
    have hcommand : commandOf (pauseRequest [0xFF]) = some (.pause [0xFF]) := by decide +kernel
    have hexact := (bodies_readable _ _ _ _ reach).2.2 0 _ _ _ _ _ hreply hhandler hcommand rfl
    exact ⟨f, _, reach, hreply, hexact.1 _ _ (by decide) (by decide) (noSuchJob_body _)⟩

/-- No sequence starts with `0xFF`. -/
theorem not_wellFormed_ff : ¬ Utf8.WellFormed [0xFF] := by
  intro h
  obtain ⟨q, t, heq, hq, -⟩ := h.split (by simp)
  obtain ⟨a, q', rfl, -, -⟩ := hq.lead
  obtain rfl : 0xFF = a := (List.cons.inj heq).1
  cases hq with
  | one ha => exact absurd ha (by decide)
  | two ha => exact absurd ha.2 (by decide)
  | three ha => exact absurd ha.2 (by decide)
  | four ha => exact absurd ha.2 (by decide)

/-- The id is the byte `0xFF`, which a target may hold. -/
theorem body_unreadable :
    ∃ f response, GuardedReach Frontend.act FromWire emptyFrontend f ∧
      f.reply 0 = some response ∧ ¬ Readable response.body := by
  obtain ⟨f, reach, -, hreply⟩ :=
    @exists_paused [0xFF] (by decide +kernel) (by decide +kernel) (by decide +kernel)
  refine ⟨f, _, reach, hreply, fun hreads => ?_⟩
  rw [noSuchJob_body, readable_names_iff (by decide) (by decide) (by decide)] at hreads
  exact not_wellFormed_ff hreads

end FileMover
