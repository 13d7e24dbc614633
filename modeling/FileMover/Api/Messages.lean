import FileMover.Api.RoundTrip
import FileMover.Http.Replies

/-!
# The texts of error messages

An error body is a message between quotes, and `json::escape` passes every byte
above the ASCII range through. So the body can be read back exactly as far as the
message is UTF-8. The messages of the parsers are ASCII, whatever bytes they were
given: they name offsets, not contents. The exceptions are the name of an unknown
member, which the parser has already accepted as text, and the name of a header,
which is a token.
-/

namespace FileMover

open Json

/-- ASCII without NUL. -/
def Ascii (s : Bytes) : Prop := ∀ b ∈ s, b ≠ 0 ∧ b < 0x80

instance (s : Bytes) : Decidable (Ascii s) :=
  inferInstanceAs (Decidable (∀ b ∈ s, b ≠ 0 ∧ b < 0x80))

theorem Ascii.clean {s : Bytes} (h : Ascii s) : CleanText s := cleanText_of_ascii h

theorem Ascii.append {s t : Bytes} (hs : Ascii s) (ht : Ascii t) : Ascii (s ++ t) := by
  intro b hb
  rcases List.mem_append.mp hb with hb | hb
  · exact hs b hb
  · exact ht b hb

theorem ascii_decimal (n : Nat) : Ascii (decimal n) := by
  intro b hb
  obtain ⟨hlow, hhigh⟩ := mem_decimal hb
  grind

theorem Json.CleanText.append {s t : Bytes} (hs : CleanText s) (ht : CleanText t) :
    CleanText (s ++ t) := by
  refine ⟨Utf8.WellFormed.append hs.utf8 ht.utf8, fun h => ?_⟩
  rcases List.mem_append.mp h with h | h
  · exact hs.nul h
  · exact ht.nul h

/-! ## The JSON parser -/

namespace Json

/-- A parse that, if it fails, fails with an ASCII message. -/
def Speaks {α : Type} (result : Parse α) : Prop :=
  ∀ failure, result = .error failure → Ascii failure.message

theorem speaks_ok {α : Type} (value : α × Bytes) : Speaks (.ok value : Parse α) := by
  intro failure h
  cases h

theorem speaks_setError {α : Type} {message : String} (h : Ascii (lit message)) (rest : Bytes) :
    Speaks (setError message rest : Parse α) := by
  intro failure hfailure
  cases hfailure
  exact h

theorem Speaks.error {α β : Type} {result : Parse α} {failure : Failure} (h : Speaks result)
    (heq : result = .error failure) : Speaks (.error failure : Parse β) := by
  intro failure' hfailure
  cases hfailure
  exact h failure heq

theorem Speaks.map {α β : Type} {result : Parse α} (h : Speaks result)
    (f : α × Bytes → β × Bytes) : Speaks (result.map f : Parse β) := by
  cases hresult : result with
  | error failure => exact h.error hresult
  | ok value => exact speaks_ok _

theorem speaks_literal {word : String} {s : Bytes} : Speaks (literal word s) := by
  unfold literal
  split_ifs
  · exact speaks_ok _
  · exact speaks_setError (by decide) _

theorem speaks_consumeUtf8 (s : Bytes) : Speaks (consumeUtf8 s) := by
  unfold consumeUtf8
  cases utf8Lead (s.headD 0) with
  | none => exact speaks_setError (by decide) _
  | some lead =>
      simp only
      split_ifs
      · exact speaks_setError (by decide) _
      · exact speaks_setError (by decide) _
      · exact speaks_ok _

theorem speaks_parseHex4 (s : Bytes) : Speaks (parseHex4 s) := by
  unfold parseHex4
  split_ifs
  · exact speaks_setError (by decide) _
  · cases hexDigits 0 (s.take 4) with
    | none => exact speaks_setError (by decide) _
    | some v => exact speaks_ok _

theorem speaks_unicodeEscape (s : Bytes) : Speaks (unicodeEscape s) := by
  unfold unicodeEscape
  cases hunit : parseHex4 s with
  | error failure => exact (speaks_parseHex4 s).error hunit
  | ok unit =>
      simp only
      split_ifs
      · exact speaks_setError (by decide) _
      · exact speaks_setError (by decide) _
      · cases hlow : parseHex4 (unit.2.drop 2) with
        | error failure => exact (speaks_parseHex4 _).error hlow
        | ok low =>
            simp only
            split_ifs
            · exact speaks_setError (by decide) _
            · exact speaks_ok _
      · exact speaks_setError (by decide) _
      · exact speaks_ok _

theorem speaks_parseEscape (s : Bytes) : Speaks (parseEscape s) := by
  cases s with
  | nil => exact speaks_setError (by decide) _
  | cons e s =>
      simp only [parseEscape]
      split
      · exact speaks_ok _
      · split_ifs
        · exact speaks_unicodeEscape s
        · exact speaks_setError (by decide) _

theorem speaks_stringLoop (limits : Limits) (rounds : Nat) (out s : Bytes) :
    Speaks (stringLoop limits rounds out s) := by
  induction rounds generalizing out s with
  | zero => exact speaks_setError (by decide) _
  | succ rounds ih =>
      cases s with
      | nil => exact speaks_setError (by decide) _
      | cons c s =>
          unfold stringLoop
          split_ifs with hlong hquote hcontrol hslash
          · exact speaks_setError (by decide) _
          · exact speaks_ok _
          · exact speaks_setError (by decide) _
          · cases hitem : parseEscape s with
            | error failure => exact (speaks_parseEscape s).error hitem
            | ok item => exact ih _ _
          · cases hitem : consumeUtf8 (c :: s) with
            | error failure => exact (speaks_consumeUtf8 _).error hitem
            | ok item => exact ih _ _

theorem speaks_parseString (limits : Limits) (s : Bytes) : Speaks (parseString limits s) :=
  speaks_stringLoop limits _ _ _

theorem speaks_parseNumber (s : Bytes) : Speaks (parseNumber s) := by
  have hdigits : ∀ negative s, Speaks (parseDigits negative s) := by
    intro negative s
    cases s with
    | nil => exact speaks_setError (by decide) _
    | cons c cs =>
        unfold parseDigits integerOf
        simp only
        split_ifs
        all_goals try exact speaks_setError (by decide) _
        all_goals
          split
          · exact speaks_setError (by decide) _
          · exact speaks_ok _
  unfold parseNumber
  split_ifs
  · exact hdigits true _
  · exact hdigits false _

section Containers
variable {limits : Limits} {parseInner : Bytes → Parse Value}
  (inner : ∀ s, Speaks (parseInner s))
include inner

theorem speaks_memberLoop (room : Nat) (members : List (Bytes × Value)) (s : Bytes) :
    Speaks (memberLoop limits parseInner room members s) := by
  induction room generalizing members s with
  | zero =>
      rw [memberLoop.eq_def]
      simp only
      split
      · exact speaks_setError (by decide) _
      · split_ifs
        · exact speaks_setError (by decide) _
        · split
          · rename_i hkey
            exact (speaks_parseString limits _).error hkey
          · split_ifs
            · exact speaks_setError (by decide) _
            · exact speaks_setError (by decide) _
  | succ room ih =>
      rw [memberLoop.eq_def]
      simp only
      split
      · exact speaks_setError (by decide) _
      · split_ifs
        · exact speaks_setError (by decide) _
        · split
          · rename_i hkey
            exact (speaks_parseString limits _).error hkey
          · split_ifs
            · exact speaks_setError (by decide) _
            · split
              · split
                · rename_i hvalue
                  exact (inner _).error hvalue
                · split
                  · exact speaks_setError (by decide) _
                  · exact ih _ _
                  · exact speaks_ok _
                  · exact speaks_setError (by decide) _
              · exact speaks_setError (by decide) _

theorem speaks_elementLoop (room : Nat) (elems : List Value) (s : Bytes) :
    Speaks (elementLoop parseInner room elems s) := by
  induction room generalizing elems s with
  | zero =>
      rw [elementLoop.eq_def]
      simp only
      split
      · exact speaks_setError (by decide) _
      · exact speaks_setError (by decide) _
  | succ room ih =>
      rw [elementLoop.eq_def]
      simp only
      split
      · exact speaks_setError (by decide) _
      · split
        · rename_i hvalue
          exact (inner _).error hvalue
        · split
          · exact speaks_setError (by decide) _
          · exact ih _ _
          · exact speaks_ok _
          · exact speaks_setError (by decide) _

end Containers

theorem speaks_parseValue (limits : Limits) (levels : Nat) (s : Bytes) :
    Speaks (parseValue limits levels s) := by
  induction levels generalizing s with
  | zero => exact speaks_setError (by decide) _
  | succ levels ih =>
      cases s with
      | nil => exact speaks_setError (by decide) _
      | cons c cs =>
          unfold parseValue
          split_ifs
          · unfold parseObject
            split
            · exact speaks_setError (by decide) _
            · exact speaks_ok _
            · exact speaks_memberLoop ih _ _ _
          · unfold parseArray
            split
            · exact speaks_setError (by decide) _
            · exact speaks_ok _
            · exact speaks_elementLoop ih _ _ _
          · exact (speaks_parseString limits _).map _
          · exact speaks_literal.map _
          · exact speaks_literal.map _
          · exact speaks_setError (by decide) _
          · exact speaks_parseNumber _
          · exact speaks_setError (by decide) _

theorem speaks_run (limits : Limits) (input : Bytes) : Speaks (run limits input) := by
  unfold run
  split_ifs
  · exact speaks_setError (by decide) _
  · exact speaks_setError (by decide) _
  · split
    · exact speaks_setError (by decide) _
    · split_ifs
      · exact speaks_setError (by decide) _
      · split
        · rename_i hvalue
          exact (speaks_parseValue limits _ _).error hvalue
        · split
          · exact speaks_ok _
          · exact speaks_setError (by decide) _

theorem parse_error {limits : Limits} {input message : Bytes}
    (h : parse limits input = .error message) : Ascii message := by
  unfold parse at h
  cases hrun : run limits input with
  | ok result =>
      rw [hrun] at h
      cases h
  | error failure =>
      rw [hrun] at h
      cases h
      have hmessage := speaks_run limits input failure hrun
      exact (hmessage.append (by decide)).append (ascii_decimal _)

end Json

/-! ## The codec -/

namespace Json

theorem eq_zero_of_mem_escapeByte {c : UInt8} (h : 0 ∈ escapeByte c) : c = 0 := by
  have hall : ∀ n < 0x100, 0 ∈ escapeByte (UInt8.ofNat n) → UInt8.ofNat n = 0 := by
    decide +kernel
  have hc := hall c.toNat c.toNat_lt
  rw [UInt8.ofNat_toNat] at hc
  exact hc h

/-- Escaping keeps clean text clean. -/
theorem cleanText_escape {s : Bytes} (h : CleanText s) : CleanText (escape s) := by
  refine ⟨wellFormed_escape_iff.mpr h.utf8, fun hzero => ?_⟩
  obtain ⟨c, hc, hmem⟩ := List.mem_flatMap.mp hzero
  obtain rfl := eq_zero_of_mem_escapeByte hmem
  exact h.nul hc

theorem IsMember.cleanText {limits : Limits} {level : Nat} {text : Bytes}
    {member : Bytes × Value} (h : IsMember limits level text member) : CleanText member.1 := by
  obtain ⟨-, hkey, -, -, -, -⟩ := h
  cases hkey with
  | mk _ hutf8 hnul _ => exact ⟨hutf8, hnul⟩

theorem IsMembers.cleanText {limits : Limits} {level : Nat} {text : Bytes}
    {members : List (Bytes × Value)} (h : IsMembers limits level text members) :
    ∀ member ∈ members, CleanText member.1 := by
  induction members generalizing text with
  | nil => simp
  | cons member members ih =>
      cases h with
      | one hmember => simpa using hmember.cleanText
      | more hmember hmembers =>
          rw [List.forall_mem_cons]
          exact ⟨hmember.cleanText, ih hmembers⟩

/-- The member names of an accepted document are clean. -/
theorem cleanText_of_parse {limits : Limits} {input : Bytes} {members : List (Bytes × Value)}
    (h : parse limits input = .ok (.object members)) : ∀ member ∈ members, CleanText member.1 := by
  obtain ⟨-, -, w, object, w', -, -, -, hvalue, -⟩ := parse_ok_iff.mp h
  cases hvalue with
  | emptyObject => simp
  | object _ hmembers _ _ => exact hmembers.cleanText

end Json

theorem requireString_error {root : Value} {name : String} {message : Bytes}
    (hname : Ascii (lit name)) (h : requireString root name = .error message) :
    CleanText message := by
  unfold requireString at h
  split at h
  · cases h
    exact (((by decide : Ascii (lit "missing required member \"")).append hname).append
      (by decide)).clean
  · split_ifs at h
    · cases h
      exact (((by decide : Ascii (lit "member \"")).append hname).append (by decide)).clean
    · cases h
      exact (((by decide : Ascii (lit "member \"")).append hname).append (by decide)).clean
  · cases h
    exact (((by decide : Ascii (lit "member \"")).append hname).append (by decide)).clean

theorem decodeSubmitRequest_error {body message : Bytes}
    (h : decodeSubmitRequest body = .error message) : CleanText message := by
  unfold decodeSubmitRequest at h
  split at h
  · rename_i hparse
    cases h
    exact (parse_error hparse).clean
  · rename_i members hparse
    split at h
    · rename_i key value hfind
      cases h
      have hkey : CleanText key :=
        cleanText_of_parse hparse _ (List.mem_of_find?_eq_some hfind)
      have hopen : CleanText (lit "unknown member \"") := cleanText_of_ascii (by decide)
      exact (hopen.append (cleanText_escape hkey)).append (cleanText_of_ascii (by decide))
    · cases hsource : requireString (.object members) "source" with
      | error message' =>
          rw [hsource] at h
          cases h
          exact requireString_error (by decide) hsource
      | ok source =>
          cases hdest : requireString (.object members) "dest" with
          | error message' =>
              rw [hsource, hdest] at h
              cases h
              exact requireString_error (by decide) hdest
          | ok dest =>
              rw [hsource, hdest] at h
              cases h
  · cases h
    exact cleanText_of_ascii (by decide)

/-! ## The head of a request -/

namespace Http

theorem parseHeader_error {line message : Bytes} (h : parseHeader line = .error message) :
    Ascii message := by
  unfold parseHeader at h
  split_ifs at h
  · cases h
    decide
  · split at h
    · cases h
      decide
    · split_ifs at h
      · cases h
        decide
      · cases h
        decide

theorem ascii_of_isName {name : Bytes} (h : IsName name) : Ascii (lowerAscii name) := by
  intro b hb
  obtain ⟨c, hc, rfl⟩ := List.mem_map.mp hb
  have htoken := h.token c hc
  unfold toLowerAscii
  grind

theorem headerLoop_error {room : Nat} {headers : List (Bytes × Bytes)} {stream message : Bytes}
    (h : headerLoop room headers stream = .error message) : Ascii message := by
  induction room generalizing headers stream with
  | zero =>
      rw [headerLoop.eq_def] at h
      simp only at h
      split at h
      · cases h
      · split at h
        · cases h
          decide
        · split_ifs at h
          split at h
          · rename_i hheader
            cases h
            exact parseHeader_error hheader
          · cases h
            decide
  | succ room ih =>
      rw [headerLoop.eq_def] at h
      simp only at h
      split at h
      · cases h
      · split at h
        · cases h
          decide
        · split_ifs at h
          split at h
          · rename_i hheader
            cases h
            exact parseHeader_error hheader
          · rename_i key value hheader
            split_ifs at h with hdup
            · cases h
              obtain ⟨field, hfield, -, hentry⟩ := parseHeader_eq_ok.mp hheader
              have hkey : Ascii key := by
                have hname : key = lowerAscii field.1 := congrArg Prod.fst hentry
                rw [hname]
                exact ascii_of_isName hfield.name
              exact ((by decide : Ascii (lit "duplicate header \"")).append hkey).append
                (by decide)
            · exact ih h

theorem parseRequestLine_error {line message : Bytes}
    (h : parseRequestLine line = .error message) : Ascii message := by
  unfold parseRequestLine at h
  split at h
  · cases h
    decide
  · split at h
    · cases h
      decide
    · split_ifs at h
      all_goals
        cases h
        decide

theorem parseRequestHead_error {data : Bytes} {maxHead : Nat} {out : HeadOut}
    (h : parseRequestHead data maxHead {} = (.bad, out)) : Ascii out.error := by
  have hlines : ∀ head message, parseLines head = .error message → Ascii message := by
    intro head message h
    unfold parseLines at h
    split at h
    · cases h
      decide
    · split at h
      · cases h
        decide
      · split at h
        · rename_i hline
          cases h
          exact parseRequestLine_error hline
        · split at h
          · rename_i hheaders
            cases h
            exact headerLoop_error hheaders
          · cases h
  unfold parseRequestHead at h
  split at h
  · split_ifs at h
    · cases h
    · cases h
  · split_ifs at h
    · cases h
    · split at h
      · rename_i hline
        cases h
        exact hlines _ _ hline
      · cases h

theorem Refuses.ascii {options : ServiceOptions} {status : Nat} {message : Bytes}
    (h : Refuses options status message) : Ascii message := by
  cases h with
  | badHead h => exact parseRequestHead_error h
  | largeHead => decide
  | badLength h =>
      rcases contentLengthFor_error h with heq | heq | heq
      · rw [show message = _ from congrArg Prod.snd heq]
        decide
      · rw [show message = _ from congrArg Prod.snd heq]
        decide
      · rw [show message = _ from congrArg Prod.snd heq]
        decide
  | surplus => decide
  | short => decide

end Http

end FileMover
