import FileMover.Http.Head
import FileMover.Model.HttpService

/-!
# A stream and its segments

The loop of `serve_connection` parses a growing buffer. A verdict other than
`NeedMore` on a prefix is the verdict on the whole stream, so the head is
understood in one way however it is cut; the body loop then reads a number of
bytes that is known. What does depend on the cut is whether bytes beyond the
declared body are noticed: they are compared with the length once, when the head
is complete.
-/

namespace FileMover.Http

variable {options : ServiceOptions}

/-! ## Verdicts on a prefix -/

theorem FirstBlankLine.length_le {data : Bytes} {stop : Nat} (h : FirstBlankLine data stop) :
    stop + 4 ≤ data.length := by
  have hlen := congrArg List.length h.here
  simp only [List.length_take, List.length_drop, crlf, List.length_append, List.length_cons,
    List.length_nil] at hlen
  omega

theorem take_drop_append {p t : Bytes} {i n : Nat} (h : i + n ≤ p.length) :
    ((p ++ t).drop i).take n = (p.drop i).take n := by
  rw [List.drop_append_of_le_length (by omega), List.take_append_of_le_length (by simp; omega)]

/-- The first blank line of a prefix that holds one is that of the whole. -/
theorem firstBlankLine_append {p t : Bytes} {stop : Nat} (hlen : stop + 4 ≤ p.length) :
    FirstBlankLine (p ++ t) stop ↔ FirstBlankLine p stop := by
  constructor
  · intro h
    refine ⟨?_, fun i hi => ?_⟩
    · rw [← take_drop_append hlen]
      exact h.here
    · rw [← take_drop_append (by omega : i + 4 ≤ p.length)]
      exact h.first i hi
  · intro h
    refine ⟨?_, fun i hi => ?_⟩
    · rw [take_drop_append hlen]
      exact h.here
    · rw [take_drop_append (by omega : i + 4 ≤ p.length)]
      exact h.first i hi

/-- A verdict on a prefix is the verdict on the whole. -/
theorem parseRequestHead_append {p t : Bytes} {maxHead : Nat} {out : HeadOut}
    (h : (parseRequestHead p maxHead out).1 ≠ .needMore) :
    parseRequestHead (p ++ t) maxHead out = parseRequestHead p maxHead out := by
  cases hp : findBlankLine p with
  | some stop =>
      have hstop := findBlankLine_eq_some.mp hp
      have hlen := hstop.length_le
      have hwhole : findBlankLine (p ++ t) = some stop :=
        findBlankLine_eq_some.mpr ((firstBlankLine_append hlen).mpr hstop)
      simp only [parseRequestHead, hp, hwhole]
      rw [List.take_append_of_le_length (by omega)]
  | none =>
      -- only the cap can have been decisive, and the whole is no shorter
      have hlong : p.length > maxHead := by
        by_contra hshort
        simp [parseRequestHead, hp, hshort] at h
      have htotal : (p ++ t).length > maxHead := by
        rw [List.length_append]
        omega
      cases hwhole : findBlankLine (p ++ t) with
      | none => simp only [parseRequestHead, hp, hwhole, hlong, htotal, if_true]
      | some stop =>
          have hstop := findBlankLine_eq_some.mp hwhole
          have hcut : ¬ stop + 4 ≤ p.length := by
            intro hle
            rw [findBlankLine_eq_some.mpr ((firstBlankLine_append hle).mp hstop)] at hp
            cases hp
          have hcap : stop + 4 > maxHead := by omega
          simp only [parseRequestHead, hp, hwhole, hlong, hcap, if_true]

theorem parseRequestHead_needMore {data : Bytes} {maxHead : Nat} {out : HeadOut}
    (h : (parseRequestHead data maxHead out).1 = .needMore) :
    parseRequestHead data maxHead out = (.needMore, out) := by
  unfold parseRequestHead at h ⊢
  split
  · rename_i hnone
    rw [hnone] at h
    split_ifs at h ⊢
    rfl
  · rename_i stop hsome
    rw [hsome] at h
    simp only at h
    split_ifs at h
    split at h <;> cases h

theorem parseRequestHead_ok {data : Bytes} {maxHead : Nat} {out out' : HeadOut}
    (h : parseRequestHead data maxHead out = (.ok, out')) :
    ∃ stop, FirstBlankLine data stop ∧ out'.headLen = stop + 4 ∧ stop + 4 ≤ maxHead := by
  unfold parseRequestHead at h
  split at h
  · split_ifs at h <;> cases h
  · rename_i stop hsome
    split_ifs at h with hcap
    · cases h
    · split at h
      · cases h
      · cases h
        exact ⟨stop, findBlankLine_eq_some.mp hsome, rfl, by omega⟩

/-! ## The two loops -/

/-- What `read_some` hands over is the front of the wire. -/
theorem readSome_eq_some {capacity : Nat} {wire wire' : Wire} {chunk : Bytes}
    (h : readSome capacity wire = some (chunk, wire')) :
    wire.rest = chunk ++ wire'.rest ∧ 1 ≤ chunk.length ∧ chunk.length ≤ capacity := by
  simp only [readSome] at h
  split_ifs at h with hend
  simp only [Option.some.injEq, Prod.mk.injEq] at h
  obtain ⟨rfl, rfl⟩ := h
  rw [not_or] at hend
  have hpos : 1 ≤ wire.rest.length := List.length_pos_of_ne_nil hend.2
  refine ⟨(List.take_append_drop _ _).symm, ?_, ?_⟩
  · rw [List.length_take]
    omega
  · rw [List.length_take]
    omega

theorem readSome_eq_none {capacity : Nat} {wire : Wire} (hcap : 0 < capacity) :
    readSome capacity wire = none ↔ wire.rest = [] := by
  have hne : capacity ≠ 0 := by omega
  simp [readSome, hne]

/-- What becomes of the head of the stream `all`. -/
def HeadEnds (options : ServiceOptions) (all : Bytes) :
    Except Served (Bytes × HeadOut × Wire) → Prop
  | .ok (buffer, out, wire) =>
      parseRequestHead all options.maxHeadBytes {} = (.ok, out) ∧ buffer ++ wire.rest = all ∧
        out.headLen ≤ buffer.length
  | .error served =>
      (∃ out, parseRequestHead all options.maxHeadBytes {} = (.bad, out) ∧
        served = .refused (refusal 400 out.error)) ∨
      (∃ out, parseRequestHead all options.maxHeadBytes {} = (.tooLarge, out) ∧
        served = .refused (refusal 431 (lit "request head exceeds the permitted size"))) ∨
      ((parseRequestHead all options.maxHeadBytes {}).1 = .needMore ∧ served = .silent)

/-- A round in which the head is decided. -/
theorem headLoop_decided {rounds : Nat} {buffer : Bytes} {wire : Wire}
    (h : (parseRequestHead buffer options.maxHeadBytes {}).1 ≠ .needMore) :
    HeadEnds options (buffer ++ wire.rest) (headLoop options rounds buffer {} wire) := by
  have hwhole := @parseRequestHead_append buffer wire.rest options.maxHeadBytes {} h
  unfold headLoop
  cases hread : parseRequestHead buffer options.maxHeadBytes {} with
  | mk verdict out =>
      rw [hread] at h hwhole
      cases verdict with
      | ok =>
          obtain ⟨stop, hstop, hlen, -⟩ := parseRequestHead_ok hread
          refine ⟨hwhole, rfl, ?_⟩
          rw [hlen]
          exact hstop.length_le
      | needMore => exact absurd rfl h
      | bad => exact .inl ⟨out, hwhole, rfl⟩
      | tooLarge => exact .inr (.inl ⟨out, hwhole, rfl⟩)

theorem headLoop_ends {rounds : Nat} {all buffer : Bytes} {wire : Wire}
    (hall : buffer ++ wire.rest = all) (hrounds : wire.rest.length ≤ rounds) :
    HeadEnds options all (headLoop options rounds buffer {} wire) := by
  induction rounds generalizing buffer wire with
  | zero =>
      by_cases hmore : (parseRequestHead buffer options.maxHeadBytes {}).1 = .needMore
      · have hend : wire.rest = [] := List.length_eq_zero_iff.mp (by omega)
        obtain rfl : buffer = all := by rw [← hall, hend, List.append_nil]
        unfold headLoop
        rw [parseRequestHead_needMore hmore]
        exact .inr (.inr ⟨hmore, rfl⟩)
      · rw [← hall]
        exact headLoop_decided hmore
  | succ rounds ih =>
      by_cases hmore : (parseRequestHead buffer options.maxHeadBytes {}).1 = .needMore
      · unfold headLoop
        rw [parseRequestHead_needMore hmore]
        cases hread : readSome 2048 wire with
        | none =>
            have hend := (readSome_eq_none (by omega)).mp hread
            obtain rfl : buffer = all := by rw [← hall, hend, List.append_nil]
            exact .inr (.inr ⟨hmore, rfl⟩)
        | some result =>
            obtain ⟨chunk, wire'⟩ := result
            obtain ⟨hrest, hpos, -⟩ := readSome_eq_some hread
            refine ih ?_ ?_
            · rw [← hall, hrest, List.append_assoc]
            · rw [hrest, List.length_append] at hrounds
              omega
      · rw [← hall]
        exact headLoop_decided hmore

/-- The body loop reads on until it has what it needs, or finds the end. -/
theorem bodyLoop_eq {rounds remaining : Nat} {buffer : Bytes} {wire : Wire}
    (hrounds : remaining ≤ rounds) :
    bodyLoop rounds remaining buffer wire =
      if remaining ≤ wire.rest.length then .ok (buffer ++ wire.rest.take remaining)
      else .error (.refused (refusal 400 (lit "body shorter than the declared length"))) := by
  induction rounds generalizing remaining buffer wire with
  | zero =>
      obtain rfl : remaining = 0 := by omega
      simp [bodyLoop]
  | succ rounds ih =>
      cases remaining with
      | zero => simp [bodyLoop]
      | succ remaining =>
          unfold bodyLoop
          cases hread : readSome (min (remaining + 1) 4096) wire with
          | none =>
              have hend := (readSome_eq_none (by omega)).mp hread
              simp [hend]
          | some result =>
              obtain ⟨chunk, wire'⟩ := result
              obtain ⟨hrest, hpos, hle⟩ := readSome_eq_some hread
              have hstep := @ih (remaining + 1 - chunk.length) (buffer ++ chunk) wire' (by omega)
              simp only
              rw [hstep, hrest, List.length_append]
              by_cases henough : remaining + 1 ≤ chunk.length + wire'.rest.length
              · rw [if_pos (by omega), if_pos henough, List.take_append, List.append_assoc,
                  List.take_of_length_le (by omega : chunk.length ≤ remaining + 1)]
              · rw [if_neg (by omega), if_neg henough]

/-! ## The whole connection -/

/-- How the stream is understood as a whole, when bytes beyond the declared body
are left out of account. -/
def understood (options : ServiceOptions) (all : Bytes) : Served :=
  match parseRequestHead all options.maxHeadBytes {} with
  | (.ok, out) =>
      match contentLengthFor out.request options.maxBodyBytes with
      | .error (status, error) => .refused (refusal status error)
      | .ok declared =>
          if all.length < out.headLen + declared then
            .refused (refusal 400 (lit "body shorter than the declared length"))
          else .routed { out.request with body := (all.drop out.headLen).take declared }
  | (.bad, out) => .refused (refusal 400 out.error)
  | (.tooLarge, _) => .refused (refusal 431 (lit "request head exceeds the permitted size"))
  | (.needMore, _) => .silent

theorem serveBody_eq {buffer all : Bytes} {out : HeadOut} {wire : Wire}
    (hparse : parseRequestHead all options.maxHeadBytes {} = (.ok, out))
    (hall : buffer ++ wire.rest = all) (hlen : out.headLen ≤ buffer.length)
    (hsurplus : ∀ declared,
      contentLengthFor out.request options.maxBodyBytes = .ok declared →
      buffer.length ≤ out.headLen + declared) :
    serveBody options buffer out wire = understood options all := by
  unfold serveBody understood
  rw [hparse]
  simp only
  cases hdeclared : contentLengthFor out.request options.maxBodyBytes with
  | error refused => rfl
  | ok declared =>
      have hfits := hsurplus declared hdeclared
      have hnot : ¬ buffer.length - out.headLen > declared := by omega
      simp only [hnot, if_false]
      rw [bodyLoop_eq (le_refl _)]
      by_cases henough : declared - (buffer.length - out.headLen) ≤ wire.rest.length
      · have hlong : ¬ all.length < out.headLen + declared := by
          rw [← hall, List.length_append]
          omega
        have hbody : ((buffer ++ wire.rest.take (declared - (buffer.length - out.headLen))).drop
            out.headLen).take declared = (all.drop out.headLen).take declared := by
          rw [← hall, List.drop_append_of_le_length hlen, List.drop_append_of_le_length hlen,
            List.take_append, List.take_append, List.length_drop, List.take_take,
            Nat.min_eq_left (le_refl _)]
        rw [if_pos henough, if_neg hlong]
        simp only [hbody]
      · have hshort : all.length < out.headLen + declared := by
          rw [← hall, List.length_append]
          omega
        rw [if_neg henough, if_pos hshort]

/-- The stream ends no later than the declared body, if it gets that far. -/
def NoSurplus (options : ServiceOptions) (all : Bytes) : Prop :=
  ∀ out declared, parseRequestHead all options.maxHeadBytes {} = (.ok, out) →
    contentLengthFor out.request options.maxBodyBytes = .ok declared →
    all.length ≤ out.headLen + declared

theorem serveConnection_eq {all : Bytes} {cut : Nat → Nat} (h : NoSurplus options all) :
    serveConnection options ⟨all, cut⟩ = understood options all := by
  have hends : HeadEnds options all
      (headLoop options (Wire.mk all cut).rest.length [] {} ⟨all, cut⟩) :=
    headLoop_ends rfl (le_refl _)
  unfold serveConnection
  cases hloop : headLoop options (Wire.mk all cut).rest.length [] {} ⟨all, cut⟩ with
  | error served =>
      rw [hloop] at hends
      obtain ⟨out, hparse, rfl⟩ | ⟨out, hparse, rfl⟩ | ⟨hmore, rfl⟩ := hends
      · simp only [understood, hparse]
      · simp only [understood, hparse]
      · simp only [understood, parseRequestHead_needMore hmore]
  | ok result =>
      obtain ⟨buffer, out, wire⟩ := result
      rw [hloop] at hends
      obtain ⟨hparse, hall, hlen⟩ := hends
      refine serveBody_eq hparse hall hlen fun declared hdeclared => ?_
      have hle := h out declared hparse hdeclared
      rw [← hall, List.length_append] at hle
      omega

/-- **A request is understood the same way however it is segmented.** -/
theorem same_however_cut {all : Bytes} (h : NoSurplus options all) (cut cut' : Nat → Nat) :
    serveConnection options ⟨all, cut⟩ = serveConnection options ⟨all, cut'⟩ := by
  rw [serveConnection_eq h, serveConnection_eq h]

def sampleStream : Bytes := lit "PUT / HTTP/1.1\r\nContent-Length: 12\r\n\r\nhello, world"

/-- In pieces of nine bytes, the fifth of which ends the head and begins the body, and in one
piece. -/
theorem same_however_cut_sample :
    serveConnection {} ⟨sampleStream, fun _ => 9⟩ =
        serveConnection {} ⟨sampleStream, fun _ => 2048⟩ ∧
      serveConnection {} ⟨sampleStream, fun _ => 9⟩ =
        .routed ⟨lit "PUT", lit "/", lit "HTTP/1.1", [(lit "content-length", lit "12")],
          lit "hello, world"⟩ := by
  refine ⟨same_however_cut ?_ _ _, by decide +kernel⟩
  intro out declared hparse hdeclared
  have hparsed : parseRequestHead sampleStream 8192 {} = (.ok, out) := hparse
  have hlength : contentLengthFor out.request 65536 = .ok declared := hdeclared
  have hends : (parseRequestHead sampleStream 8192 {}).2.headLen = 38 ∧
      contentLengthFor (parseRequestHead sampleStream 8192 {}).2.request 65536 = .ok 12 := by
    decide +kernel
  rw [hparsed, hlength] at hends
  obtain ⟨hhead, hbody⟩ := hends
  cases hbody
  rw [hhead]
  decide

/-! ## Bytes beyond the declared body -/

/-- How many bytes have been handed over by the first `recv` that brings their
number to `need`, starting from `total`. -/
def arrival (need : Nat) : Nat → Nat → Wire → Nat
  | rounds, total, wire =>
      if need ≤ total then total
      else
        match rounds, readSome 2048 wire with
        | rounds + 1, some (chunk, wire) => arrival need rounds (total + chunk.length) wire
        | _, _ => total

/-- A prefix of a stream with an acceptable head is decided exactly when it
reaches the end of the head. -/
theorem needMore_iff {p t : Bytes} {out : HeadOut}
    (hparse : parseRequestHead (p ++ t) options.maxHeadBytes {} = (.ok, out)) :
    (parseRequestHead p options.maxHeadBytes {}).1 = .needMore ↔ p.length < out.headLen := by
  obtain ⟨stop, hstop, hlen, hcap⟩ := parseRequestHead_ok hparse
  rw [hlen]
  constructor
  · intro hmore
    by_contra hlong
    have hp := findBlankLine_eq_some.mpr
      ((firstBlankLine_append (by omega : stop + 4 ≤ p.length)).mp hstop)
    simp only [parseRequestHead, hp] at hmore
    split_ifs at hmore
    split at hmore <;> cases hmore
  · intro hshort
    have hp : findBlankLine p = none := by
      rw [findBlankLine_eq_none]
      intro stop' hstop'
      have hwhole := (@firstBlankLine_append p t stop' hstop'.length_le).mpr hstop'
      obtain rfl := hwhole.unique hstop
      have hle := hstop'.length_le
      omega
    have hsmall : ¬ p.length > options.maxHeadBytes := by omega
    simp only [parseRequestHead, hp, hsmall, if_false]

/-- A decided head ends the loop with the buffer as it is. -/
theorem headLoop_stops {rounds : Nat} {buffer buffer' : Bytes} {out : HeadOut} {wire wire' : Wire}
    (hmore : (parseRequestHead buffer options.maxHeadBytes {}).1 ≠ .needMore)
    (h : headLoop options rounds buffer {} wire = .ok (buffer', out, wire')) :
    buffer' = buffer := by
  unfold headLoop at h
  cases hread : parseRequestHead buffer options.maxHeadBytes {} with
  | mk verdict out' =>
      rw [hread] at h hmore
      cases verdict with
      | ok =>
          cases h
          rfl
      | needMore => exact absurd rfl hmore
      | bad => cases h
      | tooLarge => cases h

/-- The buffer in which the head is complete is what has arrived by then. -/
theorem headLoop_arrival {rounds : Nat} {all buffer buffer' : Bytes} {out : HeadOut}
    {wire wire' : Wire} (hall : buffer ++ wire.rest = all)
    (hparse : parseRequestHead all options.maxHeadBytes {} = (.ok, out))
    (h : headLoop options rounds buffer {} wire = .ok (buffer', out, wire')) :
    buffer'.length = arrival out.headLen rounds buffer.length wire := by
  induction rounds generalizing buffer wire with
  | zero =>
      have hmore := needMore_iff (hall ▸ hparse)
      unfold arrival
      by_cases hshort : buffer.length < out.headLen
      · unfold headLoop at h
        rw [parseRequestHead_needMore (hmore.mpr hshort)] at h
        cases h
      · rw [if_pos (by omega), headLoop_stops (mt hmore.mp hshort) h]
  | succ rounds ih =>
      have hmore := needMore_iff (hall ▸ hparse)
      unfold arrival
      by_cases hshort : buffer.length < out.headLen
      · unfold headLoop at h
        rw [parseRequestHead_needMore (hmore.mpr hshort)] at h
        rw [if_neg (by omega)]
        cases hread : readSome 2048 wire with
        | none =>
            rw [hread] at h
            cases h
        | some result =>
            obtain ⟨chunk, wire₁⟩ := result
            rw [hread] at h
            have hrest := (readSome_eq_some hread).1
            have hstep := ih (by rw [← hall, hrest, List.append_assoc]) h
            rwa [List.length_append] at hstep
      · rw [if_pos (by omega), headLoop_stops (mt hmore.mp hshort) h]

/-- The reply to a request with bytes beyond its body. -/
def surplusRefusal : Response :=
  refusal 400 (lit "unexpected bytes after the declared body")

theorem serve_surplus {all : Bytes} {cut : Nat → Nat} {out : HeadOut} {declared : Nat}
    (hparse : parseRequestHead all options.maxHeadBytes {} = (.ok, out))
    (hdeclared : contentLengthFor out.request options.maxBodyBytes = .ok declared)
    (hsurplus : out.headLen + declared < all.length) :
    serveConnection options ⟨all, cut⟩ =
      if out.headLen + declared < arrival out.headLen all.length 0 ⟨all, cut⟩ then
        .refused surplusRefusal
      else .routed { out.request with body := (all.drop out.headLen).take declared } := by
  have hends : HeadEnds options all (headLoop options all.length [] {} ⟨all, cut⟩) :=
    headLoop_ends rfl (le_refl _)
  cases hloop : headLoop options all.length [] {} ⟨all, cut⟩ with
  | error served =>
      rw [hloop] at hends
      obtain ⟨out', hparse', -⟩ | ⟨out', hparse', -⟩ | ⟨hmore, -⟩ := hends
      · rw [hparse] at hparse'
        cases hparse'
      · rw [hparse] at hparse'
        cases hparse'
      · rw [hparse] at hmore
        cases hmore
  | ok result =>
      obtain ⟨buffer, out', wire⟩ := result
      rw [hloop] at hends
      obtain ⟨hparse', hall, hlen⟩ := hends
      rw [hparse] at hparse'
      cases hparse'
      have hstart : [] ++ (Wire.mk all cut).rest = all := rfl
      have harrival := headLoop_arrival hstart hparse hloop
      rw [List.length_nil] at harrival
      unfold serveConnection
      rw [hloop, ← harrival]
      simp only
      by_cases hseen : out.headLen + declared < buffer.length
      · have hmore : buffer.length - out.headLen > declared := by omega
        simp only [serveBody, hdeclared, hmore, hseen, if_true]
        rfl
      · rw [if_neg hseen, serveBody_eq hparse hall hlen]
        · simp only [understood, hparse, hdeclared, Nat.not_lt.mpr (Nat.le_of_lt hsurplus),
            if_false]
        · intro declared' hdeclared'
          rw [hdeclared] at hdeclared'
          cases hdeclared'
          omega

/-- **Bytes beyond the declared body are refused exactly when one of them has
arrived by the `recv` that completes the head**; otherwise the request is routed
and the surplus is never looked at. -/
theorem surplus_refused_iff {all : Bytes} {cut : Nat → Nat} {out : HeadOut} {declared : Nat}
    (hparse : parseRequestHead all options.maxHeadBytes {} = (.ok, out))
    (hdeclared : contentLengthFor out.request options.maxBodyBytes = .ok declared)
    (hsurplus : out.headLen + declared < all.length) :
    (∃ response, serveConnection options ⟨all, cut⟩ = .refused response ∧
        response.status = 400) ↔
      out.headLen + declared < arrival out.headLen all.length 0 ⟨all, cut⟩ := by
  rw [serve_surplus hparse hdeclared hsurplus]
  constructor
  · rintro ⟨response, hserved, -⟩
    by_contra hunseen
    rw [if_neg hunseen] at hserved
    cases hserved
  · intro hseen
    rw [if_pos hseen]
    exact ⟨surplusRefusal, rfl, rfl⟩

/-- A command with one byte too many. -/
def longCommand : Bytes := lit "POST /api/jobs/j1/cancel HTTP/1.1\r\n\r\nX"

/-- In one piece it is refused. -/
theorem surplus_refused_iff_sample :
    ∃ response, serveConnection {} ⟨longCommand, fun _ => 2048⟩ = .refused response ∧
      response.status = 400 := by
  have hparse : parseRequestHead longCommand 8192 {} =
      (.ok, (parseRequestHead longCommand 8192 {}).2) := by decide +kernel
  have hdeclared : contentLengthFor (parseRequestHead longCommand 8192 {}).2.request 65536 =
      .ok 0 := by rfl
  exact (@surplus_refused_iff {} _ _ _ _ hparse hdeclared (by decide +kernel)).mpr
    (by decide +kernel)

/-- When the last byte comes in a segment of its own, the command is carried out. -/
theorem surplus_routed :
    (parseRequestHead longCommand 8192 {}).1 = .ok ∧
      (parseRequestHead longCommand 8192 {}).2.headLen = 37 ∧ longCommand.length = 38 ∧
      contentLengthFor (parseRequestHead longCommand 8192 {}).2.request 65536 = .ok 0 ∧
      serveConnection {} ⟨longCommand, fun _ => 37⟩ =
        .routed { method := lit "POST", target := lit "/api/jobs/j1/cancel",
                  version := lit "HTTP/1.1" } := by
  refine ⟨by decide +kernel, by decide +kernel, by decide +kernel, by rfl, by decide +kernel⟩

end FileMover.Http
