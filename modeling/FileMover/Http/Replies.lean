import FileMover.Http.Segments
import FileMover.Json.Printing
import FileMover.Model.Server

/-!
# The framing of replies

A reply is read back as a client reads it: a status line, header lines up to the
first blank line, and a body of the length the header declares. `Framed` says that
of a byte string without saying who wrote it. The three writers (the serializer
behind the router, the refusals of a connection, the fixed bytes of the accept
thread) are then compared with it.
-/

namespace FileMover.Http

/-! ## Well-formed replies -/

/-- Neither CR nor LF. -/
def OneLine (s : Bytes) : Prop := 0x0D ∉ s ∧ 0x0A ∉ s

instance (s : Bytes) : Decidable (OneLine s) :=
  inferInstanceAs (Decidable (0x0D ∉ s ∧ 0x0A ∉ s))

def statusLine (status : Nat) (reason : Bytes) : Bytes :=
  lit "HTTP/1.1 " ++ decimal status ++ lit " " ++ reason

def headerLine (header : Bytes × Bytes) : Bytes := header.1 ++ lit ": " ++ header.2

/-- Lines with their ends. -/
def block (lines : List Bytes) : Bytes := lines.flatMap (· ++ crlf)

/-- The values that the headers give to a name, in whatever case it is written. -/
def valuesOf (name : Bytes) (headers : List (Bytes × Bytes)) : List Bytes :=
  (headers.filter fun header => lowerAscii header.1 = name).map Prod.snd

/-- The parts of a reply. -/
structure Parts where
  status : Nat
  reason : Bytes
  headers : List (Bytes × Bytes)
  body : Bytes

structure FramedAs (bytes : Bytes) (parts : Parts) : Prop where
  layout : bytes = block (statusLine parts.status parts.reason :: parts.headers.map headerLine) ++
    crlf ++ parts.body
  bodyAt : ∃ stop, FirstBlankLine bytes stop ∧ parts.body = bytes.drop (stop + 4)
  reason : OneLine parts.reason
  headers : ∀ header ∈ parts.headers, IsName header.1 ∧ OneLine header.2
  contentLength : valuesOf (lit "content-length") parts.headers = [decimal parts.body.length]
  connection : valuesOf (lit "connection") parts.headers = [lit "close"]
  allow : valuesOf (lit "allow") parts.headers ≠ [] ↔ parts.status = 405
  internal : parts.reason = lit "Internal Server Error" → parts.status = 500

/-- The bytes are one correctly framed response. -/
def Framed (bytes : Bytes) : Prop := ∃ parts, FramedAs bytes parts

/-! ## The first blank line of a block -/

theorem findBlankLine_skip {x : Bytes} (hx : 0x0D ∉ x) (rest : Bytes) :
    findBlankLine (x ++ rest) = (findBlankLine rest).map (· + x.length) := by
  induction x with
  | nil => simp
  | cons b x ih =>
      have hb : b ≠ 0x0D := fun h => hx (by simp [h])
      have hx' : 0x0D ∉ x := fun h => hx (List.mem_cons_of_mem b h)
      have hhere : [0x0D, 0x0A, 0x0D, 0x0A].isPrefixOf (b :: (x ++ rest)) = false := by
        simp [List.isPrefixOf, hb.symm]
      rw [List.cons_append, findBlankLine, hhere, ih hx']
      cases findBlankLine rest with
      | none => rfl
      | some stop => simp [Nat.add_assoc]

theorem findBlankLine_crlf {b : UInt8} (hb : b ≠ 0x0D) (rest : Bytes) :
    findBlankLine (crlf ++ b :: rest) = (findBlankLine (b :: rest)).map (· + 2) := by
  have hcr : findBlankLine (0x0D :: 0x0A :: b :: rest) =
      (findBlankLine (0x0A :: b :: rest)).map (· + 1) := by
    rw [findBlankLine]
    simp [List.isPrefixOf, hb.symm]
  have hlf : findBlankLine ([0x0A] ++ b :: rest) = (findBlankLine (b :: rest)).map (· + 1) :=
    findBlankLine_skip (by decide) _
  show findBlankLine (0x0D :: 0x0A :: b :: rest) = _
  rw [hcr]
  show ((findBlankLine ([0x0A] ++ b :: rest)).map (· + 1)) = _
  rw [hlf]
  cases findBlankLine (b :: rest) with
  | none => rfl
  | some stop => rfl

/-- A line of a reply: not empty and without CR. -/
def IsLine (line : Bytes) : Prop := line ≠ [] ∧ 0x0D ∉ line

theorem findBlankLine_block {line : Bytes} {lines : List Bytes} (hline : IsLine line)
    (hlines : ∀ l ∈ lines, IsLine l) (body : Bytes) :
    findBlankLine (block (line :: lines) ++ crlf ++ body) =
      some ((block (line :: lines)).length - 2) := by
  induction lines generalizing line with
  | nil =>
      have hblock : block [line] ++ crlf ++ body = line ++ (crlf ++ (crlf ++ body)) := by
        simp [block]
      have hhere : findBlankLine (crlf ++ (crlf ++ body)) = some 0 := by
        simp [crlf, findBlankLine, List.isPrefixOf]
      rw [hblock, findBlankLine_skip hline.2, hhere]
      simp [block, crlf]
  | cons next lines ih =>
      have hnext := hlines next (by simp)
      obtain ⟨b, more, rfl⟩ := List.exists_cons_of_ne_nil hnext.1
      have hb : b ≠ 0x0D := fun h => hnext.2 (by simp [h])
      have ih' := ih hnext (fun l hl => hlines l (List.mem_cons_of_mem _ hl))
      have hblock : block (line :: (b :: more) :: lines) ++ crlf ++ body =
          line ++ (crlf ++ (block ((b :: more) :: lines) ++ crlf ++ body)) := by
        simp [block]
      have hshape : ∃ tail, block ((b :: more) :: lines) ++ crlf ++ body = b :: tail :=
        ⟨_, by simp only [block, List.flatMap_cons, List.cons_append, List.append_assoc]; rfl⟩
      obtain ⟨tail, htail⟩ := hshape
      rw [hblock, findBlankLine_skip hline.2, htail, findBlankLine_crlf hb, ← htail, ih']
      have hlen : 2 ≤ (block ((b :: more) :: lines)).length := by simp [block, crlf]; omega
      have hlong : (block (line :: (b :: more) :: lines)).length =
          line.length + 2 + (block ((b :: more) :: lines)).length := by
        simp [block, crlf]; omega
      simp only [Option.map_some, Option.some.injEq]
      omega

/-! ## The serializer -/

theorem notMem_decimal {n : Nat} {b : UInt8} (hb : b < 0x30) : b ∉ decimal n := by
  intro h
  exact absurd (mem_decimal h).1 (UInt8.not_le.mpr hb)

theorem oneLine_decimal (n : Nat) : OneLine (decimal n) :=
  ⟨notMem_decimal (by decide), notMem_decimal (by decide)⟩

theorem isLine_statusLine (status : Nat) {reason : Bytes} (h : OneLine reason) :
    IsLine (statusLine status reason) := by
  refine ⟨by simp [statusLine, lit], ?_⟩
  have hdecimal := (oneLine_decimal status).1
  have hreason := h.1
  simp only [statusLine, List.mem_append, not_or]
  exact ⟨⟨⟨by decide, hdecimal⟩, by decide⟩, hreason⟩

theorem isLine_headerLine {header : Bytes × Bytes} (hname : IsName header.1)
    (hvalue : OneLine header.2) : IsLine (headerLine header) := by
  refine ⟨by simp [headerLine, lit], ?_⟩
  simp only [headerLine, List.mem_append, not_or]
  exact ⟨⟨fun h => by have := hname.token _ h; revert this; decide, by decide⟩, hvalue.1⟩

/-- The headers of a response, as the serializer writes them. -/
def Response.headers (response : Response) : List (Bytes × Bytes) :=
  (lit "Content-Type", response.contentType) ::
  (lit "Content-Length", decimal response.body.length) ::
  (lit "Connection", lit "close") ::
  (if response.allow = [] then [] else [(lit "Allow", response.allow)])

theorem serializeResponse_eq (response : Response) :
    serializeResponse response =
      block (statusLine response.status (reasonFor response.status) ::
        response.headers.map headerLine) ++ crlf ++ response.body := by
  have hend : lit "\r\n" = crlf := by decide
  have htype : lit "Content-Type: " = lit "Content-Type" ++ lit ": " := by decide
  have hlength : lit "Content-Length: " = lit "Content-Length" ++ lit ": " := by decide
  have hclose : lit "Connection: close\r\n" =
    lit "Connection" ++ lit ": " ++ lit "close" ++ crlf := by decide
  have hallow : lit "Allow: " = lit "Allow" ++ lit ": " := by decide
  unfold serializeResponse Response.headers block statusLine headerLine
  rw [hend, htype, hlength, hclose, hallow]
  split_ifs with h <;> simp

/-- What the writers put into a response: the media type of the service, and an
`Allow` header with a 405 and only there. -/
structure Response.Proper (response : Response) : Prop where
  contentType : response.contentType = lit "application/json"
  allow : OneLine response.allow
  allow_iff : response.allow ≠ [] ↔ response.status = 405

theorem oneLine_reasonFor (status : Nat) : OneLine (reasonFor status) := by
  unfold reasonFor
  split_ifs <;> decide

theorem Response.Proper.headers {response : Response} (h : response.Proper) :
    ∀ header ∈ response.headers, IsName header.1 ∧ OneLine header.2 := by
  have hname : ∀ name : Bytes, validHeaderName name = true → IsName name :=
    fun name h => validHeaderName_iff.mp h
  intro header hheader
  simp only [Response.headers, List.mem_cons] at hheader
  rcases hheader with rfl | rfl | rfl | hallow
  · refine ⟨hname (lit "Content-Type") (by decide), ?_⟩
    rw [h.contentType]
    decide
  · exact ⟨hname (lit "Content-Length") (by decide), oneLine_decimal _⟩
  · exact ⟨hname _ (by decide), by decide⟩
  · split_ifs at hallow with hempty
    · cases hallow
    · rw [List.mem_singleton] at hallow
      subst hallow
      exact ⟨hname (lit "Allow") (by decide), h.allow⟩

theorem Response.Proper.blankLine {response : Response} (h : response.Proper) :
    FirstBlankLine (serializeResponse response)
      ((serializeResponse response).length - response.body.length - 4) := by
  have hlines : ∀ line ∈ response.headers.map headerLine, IsLine line := by
    intro line hline
    obtain ⟨header, hheader, rfl⟩ := List.mem_map.mp hline
    obtain ⟨hname, hvalue⟩ := h.headers header hheader
    exact isLine_headerLine hname hvalue
  have hfind := findBlankLine_block (isLine_statusLine response.status
    (oneLine_reasonFor response.status)) hlines response.body
  rw [← serializeResponse_eq] at hfind
  have hlen : (serializeResponse response).length - response.body.length - 4 =
      (block (statusLine response.status (reasonFor response.status) ::
        response.headers.map headerLine)).length - 2 := by
    rw [serializeResponse_eq]
    simp only [List.length_append, crlf, List.length_cons, List.length_nil]
    omega
  rw [hlen]
  exact findBlankLine_eq_some.mp hfind

/-- What the framing of a reply leaves open for the serializer is its reason table. -/
theorem Response.Proper.framedAs {response : Response} (h : response.Proper)
    (hreason : reasonFor response.status = lit "Internal Server Error" →
      response.status = 500) :
    FramedAs (serializeResponse response)
      ⟨response.status, reasonFor response.status, response.headers, response.body⟩ where
  layout := serializeResponse_eq response
  bodyAt := by
    refine ⟨_, h.blankLine, ?_⟩
    have hlen : (serializeResponse response).length - response.body.length - 4 + 4 =
        (serializeResponse response).length - response.body.length := by
      rw [serializeResponse_eq]
      simp only [List.length_append, crlf, block, List.flatMap_cons, List.length_cons,
        List.length_nil]
      omega
    rw [hlen, serializeResponse_eq, List.length_append, Nat.add_sub_cancel, List.drop_left]
  reason := oneLine_reasonFor response.status
  headers := h.headers
  contentLength := by
    unfold valuesOf Response.headers
    split_ifs <;> simp +decide
  connection := by
    unfold valuesOf Response.headers
    split_ifs <;> simp +decide
  allow := by
    rw [← h.allow_iff]
    unfold valuesOf Response.headers
    split_ifs with hempty
    · simp +decide [hempty]
    · simp +decide [hempty]
  internal := hreason

/-- The status line of a reply can be read in one way only. -/
theorem statusLine_unique {status status' : Nat} {reason reason' rest rest' : Bytes}
    (hreason : OneLine reason) (hreason' : OneLine reason')
    (h : statusLine status reason ++ (crlf ++ rest) =
      statusLine status' reason' ++ (crlf ++ rest')) :
    status = status' ∧ reason = reason' := by
  have hcut : splitAt 0x0D (statusLine status reason ++ (crlf ++ rest)) =
      some (statusLine status reason, 0x0A :: rest) :=
    splitAt_eq_some.mpr ⟨rfl, (isLine_statusLine status hreason).2⟩
  have hcut' : splitAt 0x0D (statusLine status' reason' ++ (crlf ++ rest')) =
      some (statusLine status' reason', 0x0A :: rest') :=
    splitAt_eq_some.mpr ⟨rfl, (isLine_statusLine status' hreason').2⟩
  rw [h, hcut'] at hcut
  have hline : decimal status' ++ (lit " " ++ reason') = decimal status ++ (lit " " ++ reason) := by
    simp only [Option.some.injEq, Prod.mk.injEq, statusLine, List.append_assoc,
      List.append_cancel_left_eq] at hcut
    simpa only [List.append_assoc] using hcut.1
  have hword :
      splitAt 0x20 (decimal status ++ (lit " " ++ reason)) = some (decimal status, reason) :=
    splitAt_eq_some.mpr ⟨rfl, notMem_decimal (by decide)⟩
  have hword' : splitAt 0x20 (decimal status' ++ (lit " " ++ reason')) =
      some (decimal status', reason') :=
    splitAt_eq_some.mpr ⟨rfl, notMem_decimal (by decide)⟩
  rw [hline, hword] at hword'
  simp only [Option.some.injEq, Prod.mk.injEq] at hword'
  refine ⟨?_, hword'.2⟩
  calc status = Json.numeral (decimal status) := (Json.numeral_decimal status).symm
    _ = Json.numeral (decimal status') := by rw [hword'.1]
    _ = status' := Json.numeral_decimal status'

theorem Response.Proper.framed_iff {response : Response} (h : response.Proper) :
    Framed (serializeResponse response) ↔
      (reasonFor response.status = lit "Internal Server Error" → response.status = 500) := by
  constructor
  · rintro ⟨parts, hparts⟩ hinternal
    have hlayout := hparts.layout
    rw [serializeResponse_eq] at hlayout
    simp only [block, List.flatMap_cons, List.append_assoc] at hlayout
    obtain ⟨hstatus, hreason⟩ :=
      statusLine_unique (oneLine_reasonFor response.status) hparts.reason hlayout
    rw [hstatus]
    exact hparts.internal (hreason.symm.trans hinternal)
  · intro hreason
    exact ⟨_, h.framedAs hreason⟩

/-! ## The accept thread -/

/-- The body of the fixed reply is one byte longer than it declares. -/
theorem not_framed_kServiceUnavailable : ¬ Framed kServiceUnavailable := by
  rintro ⟨parts, hparts⟩
  obtain ⟨stop, hstop, hbody⟩ := hparts.bodyAt
  have hfirst : findBlankLine kServiceUnavailable = some 103 := by decide +kernel
  obtain rfl : stop = 103 := by
    have hsame := hfirst.symm.trans (findBlankLine_eq_some.mpr hstop)
    exact (Option.some.inj hsame).symm
  have hlength : parts.body.length = 59 := by
    rw [hbody]
    decide +kernel
  have hvalues := hparts.contentLength
  rw [hlength] at hvalues
  have hmem : decimal 59 ∈ valuesOf (lit "content-length") parts.headers := by simp [hvalues]
  obtain ⟨header, hheader, hvalue⟩ := List.mem_map.mp hmem
  have hin : headerLine header ++ crlf <:+: kServiceUnavailable := by
    rw [hparts.layout]
    have hline : headerLine header ∈ parts.headers.map headerLine :=
      List.mem_map_of_mem (List.mem_of_mem_filter hheader)
    obtain ⟨before, after, hsplit⟩ := List.append_of_mem hline
    refine ⟨block (statusLine parts.status parts.reason :: before),
      block after ++ crlf ++ parts.body, ?_⟩
    rw [hsplit]
    simp [block]
  have habsent : ¬ lit ": " ++ decimal 59 ++ crlf <:+: kServiceUnavailable := by decide +kernel
  refine habsent (List.IsInfix.trans ⟨header.1, [], ?_⟩ hin)
  simp [headerLine, hvalue]

/-! ## The refusals of a connection -/

/-- Why a connection is refused before its request reaches the router. -/
inductive Refuses (options : ServiceOptions) : Nat → Bytes → Prop
  | badHead {data : Bytes} {out : HeadOut}
      (h : parseRequestHead data options.maxHeadBytes {} = (.bad, out)) :
      Refuses options 400 out.error
  | largeHead : Refuses options 431 (lit "request head exceeds the permitted size")
  | badLength {request : Request} {status : Nat} {message : Bytes}
      (h : contentLengthFor request options.maxBodyBytes = .error (status, message)) :
      Refuses options status message
  | surplus : Refuses options 400 (lit "unexpected bytes after the declared body")
  | short : Refuses options 400 (lit "body shorter than the declared length")

theorem serveConnection_refused {options : ServiceOptions} {wire : Wire} {response : Response}
    (h : serveConnection options wire = .refused response) :
    ∃ status message, Refuses options status message ∧ response = refusal status message := by
  have hhead := @headLoop_ends options wire.rest.length wire.rest [] wire rfl (le_refl _)
  unfold serveConnection at h
  cases hloop : headLoop options wire.rest.length [] {} wire with
  | error served =>
      rw [hloop] at h hhead
      obtain ⟨out, hbad, rfl⟩ | ⟨out, -, rfl⟩ | ⟨-, rfl⟩ := hhead
      · cases h
        exact ⟨400, _, .badHead hbad, rfl⟩
      · cases h
        exact ⟨431, _, .largeHead, rfl⟩
      · cases h
  | ok result =>
      obtain ⟨buffer, out, wire'⟩ := result
      rw [hloop] at h
      simp only [serveBody] at h
      cases hlength : contentLengthFor out.request options.maxBodyBytes with
      | error reason =>
          rw [hlength] at h
          cases h
          exact ⟨reason.1, reason.2, .badLength hlength, rfl⟩
      | ok declared =>
          rw [hlength] at h
          simp only at h
          by_cases hsurplus : buffer.length - out.headLen > declared
          · rw [if_pos hsurplus] at h
            cases h
            exact ⟨400, _, .surplus, rfl⟩
          · rw [if_neg hsurplus, bodyLoop_eq (le_refl _)] at h
            split_ifs at h with henough
            cases h
            exact ⟨400, _, .short, rfl⟩

theorem lengthDigits_error {parsed : Nat} {digits : Bytes} {reason : Nat × Bytes}
    (h : lengthDigits parsed digits = .error reason) :
    reason = (400, lit "invalid Content-Length") ∨
      reason = (413, lit "request body exceeds limit") := by
  induction digits generalizing parsed with
  | nil => cases h
  | cons c cs ih =>
      simp only [lengthDigits] at h
      split_ifs at h with hdigit hlarge
      · cases h
        exact .inl rfl
      · cases h
        exact .inr rfl
      · exact ih h

theorem contentLengthFor_error {request : Request} {maxBody : Nat} {reason : Nat × Bytes}
    (h : contentLengthFor request maxBody = .error reason) :
    reason = (400, lit "Transfer-Encoding is not supported") ∨
      reason = (400, lit "invalid Content-Length") ∨
      reason = (413, lit "request body exceeds limit") := by
  unfold contentLengthFor at h
  split_ifs at h with hchunked
  · cases h
    exact .inl rfl
  cases hvalue : request.header (lit "content-length") with
  | none =>
      rw [hvalue] at h
      cases h
  | some value =>
      rw [hvalue] at h
      simp only at h
      split_ifs at h with hempty
      · cases h
        exact .inr (.inl rfl)
      · cases hdigits : lengthDigits 0 value with
        | error reason' =>
            rw [hdigits] at h
            cases h
            exact .inr (lengthDigits_error hdigits)
        | ok parsed =>
            rw [hdigits] at h
            simp only at h
            split_ifs at h with hlarge
            cases h
            exact .inr (.inr rfl)

theorem Refuses.status {options : ServiceOptions} {status : Nat} {message : Bytes}
    (h : Refuses options status message) : status = 400 ∨ status = 413 ∨ status = 431 := by
  cases h with
  | badHead => exact .inl rfl
  | largeHead => exact .inr (.inr rfl)
  | badLength h =>
      rcases contentLengthFor_error h with heq | heq | heq
      · exact .inl (congrArg Prod.fst heq)
      · exact .inl (congrArg Prod.fst heq)
      · exact .inr (.inl (congrArg Prod.fst heq))
  | surplus => exact .inl rfl
  | short => exact .inl rfl

theorem proper_refusal {status : Nat} (h : status ≠ 405) (message : Bytes) :
    (refusal status message).Proper :=
  ⟨rfl, (by decide : OneLine []), by simp [refusal, h]⟩

theorem framed_refused {options : ServiceOptions} {wire : Wire} {response : Response}
    (h : serveConnection options wire = .refused response) :
    Framed (serializeResponse response) := by
  obtain ⟨status, message, hrefuses, rfl⟩ := serveConnection_refused h
  have hstatus := hrefuses.status
  refine (proper_refusal (by omega) message).framed_iff.mpr ?_
  show reasonFor status = lit "Internal Server Error" → status = 500
  rcases hstatus with rfl | rfl | rfl <;> decide

/-! ## The routes -/

/-- The statuses for which the serializer has a reason phrase of their own, and 500. -/
def tabled : List Nat := [200, 201, 400, 404, 405, 409, 413, 431, 500]

theorem internal_iff_tabled (status : Nat) :
    (reasonFor status = lit "Internal Server Error" → status = 500) ↔ status ∈ tabled := by
  unfold reasonFor tabled
  split_ifs with h1 h2 h3 h4 h5 h6 h7 h8
  any_goals subst status; exact iff_of_true (fun h => absurd h (by decide)) (by decide)
  simp [*]

theorem proper_makeResponse {status : Nat} (h : status ≠ 405) (body : Bytes) :
    (makeResponse status body).Proper :=
  ⟨rfl, (by decide : OneLine []), by simp [makeResponse, h]⟩

theorem proper_methodNotAllowed {allow : Bytes} (hline : OneLine allow) (hne : allow ≠ []) :
    (methodNotAllowed allow).Proper :=
  ⟨rfl, hline, by simp [methodNotAllowed, errorResponse, makeResponse, hne]⟩

/-- A reply that needs no command is proper and has a reason phrase. -/
def SoundRoute : Routed → Prop
  | .reply response => response.Proper ∧ response.status ∈ tabled
  | .command command answer => ∀ reply, (answer reply).Proper ∧
      ((answer reply).status ∈ tabled ↔
        reply.result ≠ .notRunning ∧ ((∃ move, command = .submit move) → reply.result ≠ .ok))

theorem sound_errorResponse {status : Nat} (hstatus : status ∈ tabled) (h405 : status ≠ 405)
    (message : Bytes) : SoundRoute (.reply (errorResponse status message)) :=
  ⟨proper_makeResponse h405 _, hstatus⟩

theorem statusFor_tabled (result : CommandResult) :
    statusFor result ∈ tabled ↔ result ≠ .notRunning := by
  cases result <;> decide

theorem statusFor_ne (result : CommandResult) : statusFor result ≠ 405 := by
  cases result <;> decide

theorem sound_action {command : Command} (h : ∀ move, command ≠ .submit move)
    (body : CommandReply → Bytes) :
    SoundRoute (.command command fun reply => actionResponse reply (body reply)) := by
  intro reply
  have hcommand : ¬ ∃ move, command = .submit move := fun ⟨move, hmove⟩ => h move hmove
  have hiff := statusFor_tabled reply.result
  unfold actionResponse
  beta_reduce
  split_ifs with hok hbody
  all_goals refine ⟨proper_makeResponse (statusFor_ne _) _, ?_⟩
  all_goals simpa [makeResponse, errorResponse, hcommand] using hiff

theorem sound_routeSubmit (body : Bytes) : SoundRoute (routeSubmit body) := by
  unfold routeSubmit
  cases decodeSubmitRequest body with
  | error message => exact sound_errorResponse (by decide) (by decide) message
  | ok submission =>
      simp only
      cases routedRequest submission.source submission.dest with
      | none => exact sound_errorResponse (by decide) (by decide) _
      | some move =>
          intro reply
          beta_reduce
          split_ifs with hok
          · refine ⟨proper_makeResponse (statusFor_ne _) _, ?_⟩
            have hiff := statusFor_tabled reply.result
            simpa [makeResponse, errorResponse, hok] using hiff
          · refine ⟨proper_makeResponse (by decide) _, ?_⟩
            rw [ne_eq, not_not] at hok
            simp [makeResponse, hok, tabled]

theorem sound_routeAction (id action : Bytes) : SoundRoute (routeAction id action) := by
  unfold routeAction
  split_ifs
  · exact sound_errorResponse (by decide) (by decide) _
  all_goals exact sound_action (fun move h => by cases h) _

theorem sound_routeRequest (request : Request) : SoundRoute (routeRequest request) := by
  have hroute : SoundRoute (.reply noSuchRoute) := sound_errorResponse (by decide) (by decide) _
  have hget : SoundRoute (.reply (methodNotAllowed (lit "GET, HEAD"))) :=
    ⟨proper_methodNotAllowed (by decide) (by decide), by decide⟩
  have hpost : SoundRoute (.reply (methodNotAllowed (lit "POST"))) :=
    ⟨proper_methodNotAllowed (by decide) (by decide), by decide⟩
  have hhealth : SoundRoute (.reply (makeResponse 200 statusOk)) :=
    ⟨proper_makeResponse (by decide) _, by decide⟩
  unfold routeRequest
  split
  · split_ifs
    · exact hget
    · exact hhealth
    · exact hroute
  · split_ifs
    · exact hpost
    · exact sound_routeSubmit request.body
    · exact hroute
  · split_ifs
    · exact hroute
    · exact hpost
    · exact sound_routeAction _ _
    · exact hroute
  · exact hroute

/-- **Which replies are framed.** A reply is a correctly framed response exactly when
the connection was not refused for saturation and the command it makes, if it makes
one, is neither answered `NotRunning` nor a submission that went through: the reason
table knows neither 503 nor 202, and the reply to a saturated server misstates its
own length. -/
theorem reply_framed_iff (options : ServiceOptions) (answers : Command → CommandReply)
    (connection : Connection) :
    (∀ bytes, replyBytes options answers connection = some bytes → Framed bytes) ↔
      (∃ wire, connection = .accepted wire) ∧
        ∀ command, commandOn options connection = some command →
          (answers command).result ≠ .notRunning ∧
            ((∃ move, command = .submit move) → (answers command).result ≠ .ok) := by
  cases connection with
  | saturated =>
      refine iff_of_false (fun h => ?_) (fun h => ?_)
      · exact not_framed_kServiceUnavailable (h _ rfl)
      · obtain ⟨⟨wire, hwire⟩, -⟩ := h
        cases hwire
  | accepted wire =>
      simp only [replyBytes, commandOn, Connection.accepted.injEq, exists_eq', true_and]
      cases hserved : serveConnection options wire with
      | silent => simp
      | refused response => simp [framed_refused hserved]
      | routed request =>
          have hsound := sound_routeRequest request
          simp only [Option.some.injEq, forall_eq', commandOf, respond]
          cases hroute : routeRequest request with
          | reply response =>
              rw [hroute] at hsound
              simp only [reduceCtorEq, false_implies, implies_true, iff_true]
              exact hsound.1.framed_iff.mpr ((internal_iff_tabled _).mpr hsound.2)
          | command command answer =>
              rw [hroute] at hsound
              obtain ⟨hproper, htabled⟩ := hsound (answers command)
              simp only [Option.some.injEq, forall_eq']
              rw [hproper.framed_iff, internal_iff_tabled, htabled]

/-- A submission that arrives in one piece. -/
def submission : Bytes :=
  lit "POST /api/jobs HTTP/1.1\r\nContent-Length: 31\r\n\r\n" ++
    lit "\x7b\"source\":\"/a/f\",\"dest\":\"/b/f\"\x7d"

/-- The reply to a saturated server declares 58 bytes and has 59; the reply to a
submission that went through is `202 Internal Server Error`. -/
theorem replies_misframed :
    (∃ bytes, replyBytes {} (fun _ => ⟨.ok, lit "job-1", []⟩) .saturated = some bytes ∧
      ¬ Framed bytes) ∧
    ∃ bytes, replyBytes {} (fun _ => ⟨.ok, lit "job-1", []⟩)
        (.accepted ⟨submission, fun _ => 2048⟩) = some bytes ∧ ¬ Framed bytes := by
  refine ⟨⟨_, rfl, not_framed_kServiceUnavailable⟩, ?_⟩
  have hbytes : replyBytes {} (fun _ => ⟨.ok, lit "job-1", []⟩)
      (.accepted ⟨submission, fun _ => 2048⟩) =
        some (serializeResponse (makeResponse 202 (jobIdBody (lit "job-1")))) := by
    decide +kernel
  refine ⟨_, hbytes, fun h => ?_⟩
  have hproper : (makeResponse 202 (jobIdBody (lit "job-1"))).Proper :=
    proper_makeResponse (by decide) _
  have hstatus : (202 : Nat) = 500 := hproper.framed_iff.mp h (by decide)
  omega

end FileMover.Http
