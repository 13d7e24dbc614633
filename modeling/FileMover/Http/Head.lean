import FileMover.Model.Http
import Mathlib.Data.List.TakeWhile
import Mathlib.Data.List.Infix
import Mathlib.Tactic

/-!
# The grammar of a request head

`parse_request_head` cuts the head at its line feeds and looks for the carriage
return afterwards. Here the head is described by a grammar that knows CRLF only,
and the two are shown to agree on every byte string: what keeps them together is
that the head ends at the first blank line, so no line inside it is empty.
-/

namespace FileMover.Http

/-! ## The grammar -/

def crlf : Bytes := [0x0D, 0x0A]

/-- The first blank line of `data` starts at `stop`. -/
structure FirstBlankLine (data : Bytes) (stop : Nat) : Prop where
  here : (data.drop stop).take 4 = crlf ++ crlf
  first : ∀ i < stop, (data.drop i).take 4 ≠ crlf ++ crlf

structure IsMethod (method : Bytes) : Prop where
  length : 1 ≤ method.length ∧ method.length ≤ 16
  upper : ∀ c ∈ method, 0x41 ≤ c ∧ c ≤ 0x5A

structure IsTarget (target : Bytes) : Prop where
  slash : target.head? = some 0x2F
  plain : ∀ c ∈ target, c ≠ 0x20 ∧ c ≠ 0x09 ∧ 0x20 ≤ c ∧ c ≠ 0x7F

/-- A header name over `[A-Za-z0-9_-]`. -/
structure IsName (name : Bytes) : Prop where
  nonempty : name ≠ []
  token : ∀ c ∈ name, (0x41 ≤ c ∧ c ≤ 0x5A) ∨ (0x61 ≤ c ∧ c ≤ 0x7A) ∨ (0x30 ≤ c ∧ c ≤ 0x39) ∨
    c = 0x5F ∨ c = 0x2D

/-- One header as it stands in the head: its name and everything after the colon. -/
structure IsField (field : Bytes × Bytes) : Prop where
  name : IsName field.1
  value : ∀ c ∈ trimOws field.2, 0x20 ≤ c ∧ c ≠ 0x7F

def fieldLine (field : Bytes × Bytes) : Bytes := field.1 ++ 0x3A :: field.2 ++ crlf

/-- What a field contributes to the request. -/
def fieldEntry (field : Bytes × Bytes) : Bytes × Bytes := (lowerAscii field.1, trimOws field.2)

/-- `head` is a request line and up to 64 header lines, and denotes `request`. -/
structure IsHead (head : Bytes) (request : Request) : Prop where
  method : IsMethod request.method
  target : IsTarget request.target
  version : request.version = lit "HTTP/1.0" ∨ request.version = lit "HTTP/1.1"
  fields : ∃ fields : List (Bytes × Bytes),
    head = request.method ++ 0x20 :: request.target ++ 0x20 :: request.version ++ crlf ++
      fields.flatMap fieldLine ∧
    fields.length ≤ 64 ∧ (∀ field ∈ fields, IsField field) ∧
    (fields.map fun field => lowerAscii field.1).Nodup ∧
    request.headers = fields.map fieldEntry
  body : request.body = []

/-! ## The first blank line -/

theorem isPrefixOf_crlf {data : Bytes} :
    [0x0D, 0x0A, 0x0D, 0x0A].isPrefixOf data = true ↔ data.take 4 = crlf ++ crlf := by
  rw [List.isPrefixOf_iff_prefix, List.prefix_iff_eq_take]
  exact eq_comm

theorem findBlankLine_spec (data : Bytes) :
    match findBlankLine data with
    | some stop => FirstBlankLine data stop
    | none => ∀ stop, ¬ FirstBlankLine data stop := by
  induction data with
  | nil =>
      intro stop h
      have hhere := h.here
      simp [crlf] at hhere
  | cons b data ih =>
      unfold findBlankLine
      by_cases hhere : [0x0D, 0x0A, 0x0D, 0x0A].isPrefixOf (b :: data) = true
      · rw [if_pos hhere]
        exact ⟨isPrefixOf_crlf.mp hhere, by simp⟩
      · rw [if_neg hhere]
        have hhere' : (b :: data).take 4 ≠ crlf ++ crlf := fun h => hhere (isPrefixOf_crlf.mpr h)
        cases hfind : findBlankLine data with
        | none =>
            rw [hfind] at ih
            intro stop h
            cases stop with
            | zero => exact hhere' h.here
            | succ stop =>
                refine ih stop ⟨h.here, fun i hi => ?_⟩
                exact h.first (i + 1) (by omega)
        | some stop =>
            rw [hfind] at ih
            refine ⟨ih.here, fun i hi => ?_⟩
            cases i with
            | zero => exact hhere'
            | succ i => exact ih.first i (Nat.lt_of_succ_lt_succ hi)

theorem FirstBlankLine.unique {data : Bytes} {i j : Nat} (hi : FirstBlankLine data i)
    (hj : FirstBlankLine data j) : i = j := by
  rcases Nat.lt_trichotomy i j with h | h | h
  · exact absurd hi.here (hj.first i h)
  · exact h
  · exact absurd hj.here (hi.first j h)

theorem findBlankLine_eq_some {data : Bytes} {stop : Nat} :
    findBlankLine data = some stop ↔ FirstBlankLine data stop := by
  have hspec := findBlankLine_spec data
  cases hfind : findBlankLine data with
  | none =>
      rw [hfind] at hspec
      simpa using hspec stop
  | some i =>
      rw [hfind] at hspec
      constructor
      · rintro ⟨⟩
        exact hspec
      · intro h
        rw [hspec.unique h]

theorem findBlankLine_eq_none {data : Bytes} :
    findBlankLine data = none ↔ ∀ stop, ¬ FirstBlankLine data stop := by
  rw [Option.eq_none_iff_forall_ne_some]
  exact forall_congr' fun stop => not_congr findBlankLine_eq_some

/-- The head ends in CRLF and holds no blank line. -/
theorem FirstBlankLine.head {data : Bytes} {stop : Nat} (h : FirstBlankLine data stop) :
    ∃ front, data.take (stop + 2) = front ++ crlf ∧ ¬ crlf ++ crlf <:+: front ++ crlf := by
  have hcut : (data.drop stop).take 2 = crlf := by
    have h4 := congrArg (List.take 2) h.here
    simpa [crlf, List.take_take] using h4
  refine ⟨data.take stop, ?_, ?_⟩
  · rw [List.take_add, hcut]
  · rintro ⟨pre, post, heq⟩
    -- an occurrence inside the head would be an earlier blank line
    have hlen : (crlf ++ crlf).length = 4 := rfl
    have htake : data.take (stop + 2) = data.take stop ++ crlf := by rw [List.take_add, hcut]
    have hlen' : (data.take (stop + 2)).length ≤ stop + 2 := List.length_take_le _ _
    have hpre : pre.length < stop := by
      have hsum := congrArg List.length heq
      rw [← htake] at hsum
      simp only [List.length_append, hlen] at hsum
      omega
    refine h.first pre.length hpre ?_
    have hdata : data = pre ++ (crlf ++ crlf) ++ (post ++ data.drop (stop + 2)) := by
      rw [← List.append_assoc, heq, ← htake, List.take_append_drop]
    rw [hdata, List.append_assoc, List.drop_left]
    rfl

/-! ## Cutting -/

theorem span_append {b : UInt8} {x y : Bytes} (hx : b ∉ x) :
    (x ++ b :: y).takeWhile (· ≠ b) = x ∧ (x ++ b :: y).dropWhile (· ≠ b) = b :: y := by
  have hall : ∀ c ∈ x, decide (c ≠ b) = true := by
    intro c hc
    simp only [ne_eq, decide_eq_true_eq]
    rintro rfl
    exact hx hc
  rw [List.takeWhile_append_of_pos hall, List.dropWhile_append_of_pos hall]
  simp [List.takeWhile, List.dropWhile]

theorem splitAt_eq_some {b : UInt8} {s x y : Bytes} :
    splitAt b s = some (x, y) ↔ s = x ++ b :: y ∧ b ∉ x := by
  unfold splitAt
  constructor
  · intro h
    split_ifs at h with hb
    obtain ⟨x', y', rfl, hx'⟩ := List.eq_append_cons_of_mem hb
    obtain ⟨htake, hdrop⟩ := @span_append b x' y' hx'
    rw [htake, hdrop] at h
    cases h
    exact ⟨rfl, hx'⟩
  · rintro ⟨rfl, hx⟩
    obtain ⟨htake, hdrop⟩ := @span_append b x y hx
    rw [if_pos (by simp), htake, hdrop]
    rfl

theorem getline_append {x y : Bytes} (hx : 0x0A ∉ x) :
    getline (x ++ 0x0A :: y) = some (x, y) := by
  obtain ⟨htake, hdrop⟩ := @span_append 0x0A x y hx
  unfold getline
  split
  · rename_i h
    simp at h
  · rw [htake, hdrop]
    rfl

theorem chomp_eq_some {line x : Bytes} : chomp line = some x ↔ line = x ++ [0x0D] := by
  unfold chomp
  constructor
  · intro h
    split_ifs at h with hlast
    cases h
    obtain ⟨front, rfl⟩ := List.getLast?_eq_some_iff.mp hlast
    simp
  · rintro rfl
    simp

/-! ## Tokens -/

theorem validMethod_iff {method : Bytes} : validMethod method = true ↔ IsMethod method := by
  constructor
  · intro h
    simp only [validMethod, isUpperAlpha, Bool.and_eq_true, Bool.not_eq_true',
      Bool.or_eq_false_iff, List.isEmpty_eq_false_iff, decide_eq_false_iff_not, List.all_eq_true,
      decide_eq_true_eq] at h
    exact ⟨⟨List.length_pos_of_ne_nil h.1.1, by omega⟩, h.2⟩
  · rintro ⟨⟨hpos, hle⟩, hupper⟩
    have hne : method ≠ [] := List.ne_nil_of_length_pos hpos
    simp only [validMethod, isUpperAlpha, Bool.and_eq_true, Bool.not_eq_true',
      Bool.or_eq_false_iff, List.isEmpty_eq_false_iff, decide_eq_false_iff_not, List.all_eq_true,
      decide_eq_true_eq]
    exact ⟨⟨hne, by omega⟩, hupper⟩

theorem validTarget_iff {target : Bytes} : validTarget target = true ↔ IsTarget target := by
  have hbyte : ∀ c : UInt8, (!(decide (c = 0x20) || decide (c = 0x09) || isCtl c)) = true ↔
      c ≠ 0x20 ∧ c ≠ 0x09 ∧ 0x20 ≤ c ∧ c ≠ 0x7F := by
    intro c
    simp only [isCtl]
    grind
  constructor
  · intro h
    simp only [validTarget, Bool.and_eq_true, decide_eq_true_eq, List.all_eq_true, hbyte] at h
    exact ⟨h.1, h.2⟩
  · intro h
    simp only [validTarget, Bool.and_eq_true, decide_eq_true_eq, List.all_eq_true, hbyte]
    exact ⟨h.slash, h.plain⟩

theorem validHeaderName_iff {name : Bytes} : validHeaderName name = true ↔ IsName name := by
  have hbyte : ∀ c : UInt8,
      (isLowerAlpha c || isUpperAlpha c || isDigit c || decide (c = 0x2D) ||
        decide (c = 0x5F)) = true ↔
      (0x41 ≤ c ∧ c ≤ 0x5A) ∨ (0x61 ≤ c ∧ c ≤ 0x7A) ∨ (0x30 ≤ c ∧ c ≤ 0x39) ∨ c = 0x5F ∨
        c = 0x2D := by
    intro c
    simp only [isLowerAlpha, isUpperAlpha, isDigit]
    grind
  constructor
  · intro h
    simp only [validHeaderName, Bool.and_eq_true, Bool.not_eq_true', List.isEmpty_eq_false_iff,
      List.all_eq_true, hbyte] at h
    exact ⟨h.1, h.2⟩
  · intro h
    simp only [validHeaderName, Bool.and_eq_true, Bool.not_eq_true', List.isEmpty_eq_false_iff,
      List.all_eq_true, hbyte]
    exact ⟨h.nonempty, h.token⟩

theorem any_isCtl_eq_false {s : Bytes} :
    s.any isCtl = false ↔ ∀ c ∈ s, 0x20 ≤ c ∧ c ≠ 0x7F := by
  rw [List.any_eq_false]
  refine forall₂_congr fun c _ => ?_
  simp only [isCtl]
  grind

/-- Only blanks are trimmed away. -/
theorem mem_trimOws_or {c : UInt8} {s : Bytes} (h : c ∈ s) : isOws c = true ∨ c ∈ trimOws s := by
  by_cases hc : isOws c = true
  · exact .inl hc
  · refine .inr ?_
    have hkeep : ∀ t : Bytes, c ∈ t → c ∈ t.dropWhile isOws := by
      intro t ht
      have hsplit := @List.takeWhile_append_dropWhile _ isOws t
      rw [← hsplit] at ht
      rcases List.mem_append.mp ht with hmem | hmem
      · exact absurd (List.mem_takeWhile_imp hmem) hc
      · exact hmem
    simp only [trimOws, List.mem_reverse]
    exact hkeep _ (List.mem_reverse.mpr (hkeep s h))

theorem IsName.notMem {name : Bytes} (h : IsName name) :
    0x3A ∉ name ∧ 0x0A ∉ name ∧ name.head? ≠ some 0x20 ∧ name.head? ≠ some 0x09 := by
  refine ⟨fun hm => ?_, fun hm => ?_, fun hm => ?_, fun hm => ?_⟩
  · exact absurd (h.token _ hm) (by decide)
  · exact absurd (h.token _ hm) (by decide)
  · exact absurd (h.token _ (List.mem_of_mem_head? hm)) (by decide)
  · exact absurd (h.token _ (List.mem_of_mem_head? hm)) (by decide)

theorem IsField.no_lf {field : Bytes × Bytes} (h : IsField field) :
    0x0A ∉ field.1 ++ 0x3A :: field.2 := by
  intro hm
  simp only [List.mem_append, List.mem_cons] at hm
  rcases hm with hm | hm | hm
  · exact h.name.notMem.2.1 hm
  · exact absurd hm (by decide)
  · rcases mem_trimOws_or hm with hows | hmem
    · exact absurd hows (by decide)
    · exact absurd (h.value _ hmem) (by decide)

/-! ## Header lines -/

theorem parseHeader_eq_ok {line : Bytes} {entry : Bytes × Bytes} :
    parseHeader line = .ok entry ↔
      ∃ field, IsField field ∧ line = field.1 ++ 0x3A :: field.2 ∧ entry = fieldEntry field := by
  constructor
  · intro h
    simp only [parseHeader] at h
    split_ifs at h with hfold
    split at h
    · cases h
    rename_i name value hsplit
    split_ifs at h with hname hctl
    obtain ⟨rfl, -⟩ := splitAt_eq_some.mp hsplit
    cases h
    refine ⟨(name, value), ⟨validHeaderName_iff.mp (by simpa using hname), ?_⟩, rfl, rfl⟩
    exact any_isCtl_eq_false.mp (by simpa using hctl)
  · rintro ⟨⟨name, value⟩, hfield, rfl, rfl⟩
    obtain ⟨hcolon, -, hblank, htab⟩ := hfield.name.notMem
    obtain ⟨c, tail, rfl⟩ := List.exists_cons_of_ne_nil hfield.name.nonempty
    have hsplit : splitAt 0x3A (c :: tail ++ 0x3A :: value) = some (c :: tail, value) :=
      splitAt_eq_some.mpr ⟨rfl, hcolon⟩
    have hname := validHeaderName_iff.mpr hfield.name
    have hctl := any_isCtl_eq_false.mpr hfield.value
    simp only [List.head?_cons, ne_eq] at hblank htab
    rw [List.cons_append] at hsplit
    simp [parseHeader, hblank, htab, hsplit, hname, hctl, fieldEntry]

theorem headerLoop_complete {room : Nat} {headers : List (Bytes × Bytes)}
    {fields : List (Bytes × Bytes)} (hfields : ∀ field ∈ fields, IsField field)
    (hlen : fields.length ≤ room)
    (hnodup : ((headers ++ fields.map fieldEntry).map Prod.fst).Nodup) :
    headerLoop room headers (fields.flatMap fieldLine) =
      .ok (headers ++ fields.map fieldEntry) := by
  induction fields generalizing room headers with
  | nil =>
      unfold headerLoop
      simp [getline]
  | cons field fields ih =>
      obtain ⟨room, rfl⟩ : ∃ n, room = n + 1 := ⟨room - 1, by simp at hlen; omega⟩
      have hfield := hfields field (by simp)
      have hline : getline (fieldLine field ++ fields.flatMap fieldLine) =
          some (field.1 ++ 0x3A :: field.2 ++ [0x0D], fields.flatMap fieldLine) := by
        have hlf : 0x0A ∉ field.1 ++ 0x3A :: field.2 ++ [0x0D] := by
          rw [List.mem_append, not_or]
          exact ⟨hfield.no_lf, by decide⟩
        simpa [fieldLine, crlf] using getline_append hlf
      have hchomp : chomp (field.1 ++ 0x3A :: field.2 ++ [0x0D]) =
          some (field.1 ++ 0x3A :: field.2) := chomp_eq_some.mpr rfl
      have hread : parseHeader (field.1 ++ 0x3A :: field.2) = .ok (fieldEntry field) :=
        parseHeader_eq_ok.mpr ⟨field, hfield, rfl, rfl⟩
      have hfresh : (fieldEntry field).1 ∉ headers.map Prod.fst := by
        rw [List.map_append, List.nodup_append] at hnodup
        exact fun hmem => hnodup.2.2 _ hmem _ (by simp) rfl
      have hrest : headerLoop room (headers ++ [fieldEntry field]) (fields.flatMap fieldLine) =
          .ok (headers ++ [fieldEntry field] ++ fields.map fieldEntry) :=
        ih (fun f hf => hfields f (by simp [hf])) (by simpa using hlen) (by simpa using hnodup)
      have hne : field.1 ++ 0x3A :: field.2 ≠ [] := by simp
      rw [headerLoop.eq_def, List.flatMap_cons]
      simp only [hline, hchomp, hne, if_false, hread, hfresh]
      rw [hrest]
      simp

/-- Every line of a stream that ends in a line feed has one. -/
theorem mem_lf_of_suffix {front stream pre : Bytes} (h : front ++ crlf = pre ++ stream)
    (hne : stream ≠ []) : 0x0A ∈ stream := by
  have hlast : stream.getLast? = some 0x0A := by
    have hcut := congrArg List.getLast? h
    rw [List.getLast?_append_of_ne_nil _ (by simp [crlf]),
      List.getLast?_append_of_ne_nil _ hne] at hcut
    rw [← hcut]
    rfl
  exact List.mem_of_getLast? hlast

/-- What one round of the loop can have done when the loop ends well. No line is
empty: it would stand right after a CRLF. -/
theorem headerLoop_inv {room : Nat} {headers result : List (Bytes × Bytes)}
    {front pre stream : Bytes} (hhead : front ++ crlf = pre ++ crlf ++ stream)
    (hblank : ¬ crlf ++ crlf <:+: front ++ crlf)
    (h : headerLoop room headers stream = .ok result) :
    (stream = [] ∧ result = headers) ∨
      ∃ room' field rest, room = room' + 1 ∧ stream = fieldLine field ++ rest ∧
        IsField field ∧ (fieldEntry field).1 ∉ headers.map Prod.fst ∧
        headerLoop room' (headers ++ [fieldEntry field]) rest = .ok result := by
  by_cases hne : stream = []
  · subst hne
    unfold headerLoop at h
    cases h
    exact .inl ⟨rfl, rfl⟩
  · obtain ⟨x, rest, rfl, hx⟩ := List.eq_append_cons_of_mem (mem_lf_of_suffix hhead hne)
    unfold headerLoop at h
    rw [getline_append hx] at h
    simp only at h
    split at h
    · cases h
    rename_i line hchomp
    obtain rfl := chomp_eq_some.mp hchomp
    split_ifs at h with hempty
    · -- the line would be the second half of a blank line
      subst hempty
      exact absurd ⟨pre, rest, by rw [hhead]; simp [crlf]⟩ hblank
    · split at h
      · cases h
      rename_i key value hread
      obtain ⟨field, hfield, rfl, hentry⟩ := parseHeader_eq_ok.mp hread
      split at h
      · cases h
      rename_i room'
      split_ifs at h with hdup
      rw [hentry] at h
      have hkey : key = (fieldEntry field).1 := congrArg Prod.fst hentry
      rw [hkey] at hdup
      exact .inr ⟨room', field, rest, rfl, by simp [fieldLine, crlf], hfield, hdup, h⟩

theorem headerLoop_sound {room : Nat} {headers result : List (Bytes × Bytes)}
    {front pre stream : Bytes} (hhead : front ++ crlf = pre ++ crlf ++ stream)
    (hblank : ¬ crlf ++ crlf <:+: front ++ crlf)
    (h : headerLoop room headers stream = .ok result)
    (hnodup : (headers.map Prod.fst).Nodup) :
    ∃ fields : List (Bytes × Bytes), stream = fields.flatMap fieldLine ∧
      fields.length ≤ room ∧ (∀ field ∈ fields, IsField field) ∧
      result = headers ++ fields.map fieldEntry ∧ (result.map Prod.fst).Nodup := by
  induction room generalizing headers pre stream with
  | zero =>
      rcases headerLoop_inv hhead hblank h with ⟨rfl, rfl⟩ | ⟨room', _, _, hroom, -⟩
      · exact ⟨[], rfl, by simp, by simp, by simp, hnodup⟩
      · omega
  | succ room ih =>
      rcases headerLoop_inv hhead hblank h with
        ⟨rfl, rfl⟩ | ⟨room', field, rest, hroom, rfl, hfield, hfresh, hrest⟩
      · exact ⟨[], rfl, by simp, by simp, by simp, hnodup⟩
      · obtain rfl : room = room' := by omega
        have hhead' : front ++ crlf =
            pre ++ crlf ++ field.1 ++ 0x3A :: field.2 ++ crlf ++ rest := by
          rw [hhead]
          simp [fieldLine]
        have hnodup' : ((headers ++ [fieldEntry field]).map Prod.fst).Nodup := by
          rw [List.map_append, List.nodup_append]
          refine ⟨hnodup, by simp, ?_⟩
          rintro a ha b hb rfl
          obtain rfl : a = (fieldEntry field).1 := by simpa using hb
          exact hfresh ha
        obtain ⟨fields, rfl, hlen, hfields, rfl, hall⟩ := ih hhead' hrest hnodup'
        refine ⟨field :: fields, rfl, by simpa using hlen, ?_, by simp, hall⟩
        simp only [List.forall_mem_cons]
        exact ⟨hfield, hfields⟩

/-! ## The request line and the head -/

theorem parseRequestLine_eq_ok {line : Bytes} {request : Request} :
    parseRequestLine line = .ok request ↔
      IsMethod request.method ∧ IsTarget request.target ∧
      (request.version = lit "HTTP/1.0" ∨ request.version = lit "HTTP/1.1") ∧
      line = request.method ++ 0x20 :: request.target ++ 0x20 :: request.version ∧
      request.headers = [] ∧ request.body = [] := by
  constructor
  · intro h
    simp only [parseRequestLine] at h
    split at h
    · cases h
    rename_i method rest hmethod
    split at h
    · cases h
    rename_i target version htarget
    split_ifs at h with hblank hvm hvt hvv
    obtain ⟨rfl, -⟩ := splitAt_eq_some.mp hmethod
    obtain ⟨rfl, -⟩ := splitAt_eq_some.mp htarget
    cases h
    refine ⟨validMethod_iff.mp (by simpa using hvm), validTarget_iff.mp (by simpa using hvt), ?_,
      by simp, rfl, rfl⟩
    by_cases h11 : version = lit "HTTP/1.1"
    · exact .inr h11
    · exact .inl (by simpa [h11] using hvv)
  · rintro ⟨hmethod, htarget, hversion, rfl, hheaders, hbody⟩
    obtain ⟨method, target, version, headers, body⟩ := request
    simp only at hmethod htarget hversion hheaders hbody ⊢
    subst hheaders
    subst hbody
    have hm : 0x20 ∉ method := fun hmem => absurd (hmethod.upper _ hmem) (by decide)
    have ht : 0x20 ∉ target := fun hmem => (htarget.plain _ hmem).1 rfl
    have hv : 0x20 ∉ version := by
      rcases hversion with rfl | rfl <;> decide
    have hsplit : splitAt 0x20 (method ++ 0x20 :: target ++ 0x20 :: version) =
        some (method, target ++ 0x20 :: version) := splitAt_eq_some.mpr ⟨by simp, hm⟩
    have hsplit' : splitAt 0x20 (target ++ 0x20 :: version) = some (target, version) :=
      splitAt_eq_some.mpr ⟨rfl, ht⟩
    have hvv : ¬ (version ≠ lit "HTTP/1.1" ∧ version ≠ lit "HTTP/1.0") := by
      rcases hversion with rfl | rfl <;> simp
    simp only [parseRequestLine, hsplit, hsplit', hv, validMethod_iff.mpr hmethod,
      validTarget_iff.mpr htarget, hvv, if_false, Bool.true_eq_false]

/-- On the lines before the first blank line, the parser and the grammar agree. -/
theorem parseLines_eq_ok {front : Bytes} {request : Request}
    (hblank : ¬ crlf ++ crlf <:+: front ++ crlf) :
    parseLines (front ++ crlf) = .ok request ↔ IsHead (front ++ crlf) request := by
  constructor
  · intro h
    have hlf : 0x0A ∈ front ++ crlf := by simp [crlf]
    obtain ⟨x, rest, heq, hx⟩ := List.eq_append_cons_of_mem hlf
    unfold parseLines at h
    rw [heq, getline_append hx] at h
    simp only at h
    split at h
    · cases h
    rename_i line hchomp
    obtain rfl := chomp_eq_some.mp hchomp
    split at h
    · cases h
    rename_i parsed hline
    split at h
    · cases h
    rename_i headers hheaders
    cases h
    obtain ⟨hmethod, htarget, hversion, rfl, -, hbody⟩ := parseRequestLine_eq_ok.mp hline
    have hhead : front ++ crlf = (parsed.method ++ 0x20 :: parsed.target ++
        0x20 :: parsed.version) ++ crlf ++ rest := by
      rw [heq]
      simp [crlf]
    obtain ⟨fields, rfl, hlen, hfields, rfl, hnodup⟩ :=
      headerLoop_sound hhead hblank hheaders (by simp)
    refine ⟨hmethod, htarget, hversion, ⟨fields, hhead, hlen, hfields, ?_, rfl⟩, hbody⟩
    simpa [fieldEntry, Function.comp_def] using hnodup
  · intro h
    obtain ⟨hmethod, htarget, hversion, ⟨fields, hhead, hlen, hfields, hnodup, hheaders⟩, hbody⟩ :=
      h
    have hline : parseRequestLine (request.method ++ 0x20 :: request.target ++
        0x20 :: request.version) = .ok { request with headers := [] } :=
      parseRequestLine_eq_ok.mpr ⟨hmethod, htarget, hversion, rfl, rfl, hbody⟩
    have hloop : headerLoop 64 [] (fields.flatMap fieldLine) = .ok ([] ++ fields.map fieldEntry) :=
      headerLoop_complete hfields hlen (by simpa [fieldEntry, Function.comp_def] using hnodup)
    have hlf : 0x0A ∉ request.method ++ 0x20 :: request.target ++ 0x20 :: request.version ++
        [0x0D] := by
      have hm : 0x0A ∉ request.method := fun hmem => absurd (hmethod.upper _ hmem) (by decide)
      have ht : 0x0A ∉ request.target := fun hmem => absurd (htarget.plain _ hmem) (by decide)
      have hv : 0x0A ∉ request.version := by
        rcases hversion with hv | hv <;> rw [hv] <;> decide
      simp [hm, ht, hv]
    have hget := getline_append hlf (y := fields.flatMap fieldLine)
    have heq : front ++ crlf = request.method ++ 0x20 :: request.target ++
        0x20 :: request.version ++ [0x0D] ++ 0x0A :: fields.flatMap fieldLine := by
      rw [hhead]
      simp [crlf]
    unfold parseLines
    rw [heq, hget]
    simp only [chomp_eq_some.mpr rfl, hline, hloop]
    rw [List.nil_append, ← hheaders]

/-- **`parse_request_head` accepts exactly its grammar**, for every input and
every cap; what it does not accept leaves the output parameters alone. -/
theorem head_accepts_exactly (data : Bytes) (maxHead : Nat) (out : HeadOut) :
    ((∀ stop, ¬ FirstBlankLine data stop) →
      (parseRequestHead data maxHead out).1 =
        if data.length > maxHead then .tooLarge else .needMore) ∧
    (∀ stop, FirstBlankLine data stop →
      (stop + 4 > maxHead → (parseRequestHead data maxHead out).1 = .tooLarge) ∧
      (stop + 4 ≤ maxHead →
        ((parseRequestHead data maxHead out).1 = .ok ↔
          ∃ request, IsHead (data.take (stop + 2)) request) ∧
        ((parseRequestHead data maxHead out).1 ≠ .ok →
          (parseRequestHead data maxHead out).1 = .bad) ∧
        ∀ request, IsHead (data.take (stop + 2)) request →
          (parseRequestHead data maxHead out).2.request = request ∧
            (parseRequestHead data maxHead out).2.headLen = stop + 4)) ∧
    ((parseRequestHead data maxHead out).1 ≠ .ok →
      (parseRequestHead data maxHead out).2.request = out.request ∧
        (parseRequestHead data maxHead out).2.headLen = out.headLen) := by
  refine ⟨fun hnone => ?_, fun stop hstop => ⟨fun hlong => ?_, fun hfits => ?_⟩, fun hnot => ?_⟩
  · simp only [parseRequestHead, findBlankLine_eq_none.mpr hnone]
    split_ifs <;> rfl
  · simp only [parseRequestHead, findBlankLine_eq_some.mpr hstop, hlong, if_true]
  · obtain ⟨front, htake, hblank⟩ := hstop.head
    have hread := fun request => @parseLines_eq_ok front request hblank
    simp only [parseRequestHead, findBlankLine_eq_some.mpr hstop, Nat.not_lt.mpr hfits, if_false,
      htake]
    cases hlines : parseLines (front ++ crlf) with
    | error error =>
        have hrefused : ∀ request, ¬ IsHead (front ++ crlf) request := by
          intro request hhead
          rw [(hread request).mpr hhead] at hlines
          cases hlines
        exact ⟨by simpa using hrefused, fun _ => rfl, fun request h => absurd h (hrefused request)⟩
    | ok parsed =>
        have hparsed := (hread parsed).mp hlines
        refine ⟨by simpa using ⟨parsed, hparsed⟩, fun h => absurd rfl h, fun request h => ?_⟩
        rw [(hread request).mpr h] at hlines
        cases hlines
        exact ⟨rfl, rfl⟩
  · unfold parseRequestHead at hnot ⊢
    split at hnot
    · split_ifs <;> exact ⟨rfl, rfl⟩
    · rename_i stop hstop
      split_ifs at hnot ⊢
      · exact ⟨rfl, rfl⟩
      · split at hnot
        · exact ⟨rfl, rfl⟩
        · exact absurd rfl hnot

end FileMover.Http
