import FileMover.Ini.Documented

/-!
# The loader reads lines

The loop of the loader is the reading in which an entry belongs to the nearest header that
is not a repetition, and an integer ends at its first NUL.
-/

namespace FileMover.Ini

open Framework

/-! ## Splitting -/

theorem splitOn_getlines (text : Bytes) :
    text.splitOn 0x0A = getlines text ∨ text.splitOn 0x0A = getlines text ++ [[]] := by
  induction text with
  | nil => exact .inr (List.splitOn_nil _)
  | cons b rest ih =>
      rw [List.splitOn_cons_eq_if_modifyHead, getlines]
      by_cases hb : b = 0x0A
      · rw [if_pos (beq_iff_eq.mpr hb), if_pos hb]
        exact ih.imp (congrArg _) (congrArg _)
      · rw [if_neg (by rwa [beq_iff_eq]), if_neg hb]
        cases hlines : getlines rest with
        | nil =>
            rw [hlines] at ih
            rcases ih with hnil | hone
            · exact absurd hnil (List.splitOn_ne_nil _ _)
            · exact .inl (by rw [hone]; rfl)
        | cons line lines =>
            rw [hlines] at ih
            rcases ih with hsame | hmore
            · exact .inl (by rw [hsame]; rfl)
            · exact .inr (by rw [hmore]; rfl)

/-- What the loop reads, and at most a blank line more. -/
theorem linesOf_eq (text : Bytes) :
    linesOf text = (getlines text).map Line.ofBytes ∨
      linesOf text = (getlines text).map Line.ofBytes ++ [.skip] := by
  rcases splitOn_getlines text with h | h
  · exact .inl (by rw [linesOf, h])
  · exact .inr (by rw [linesOf, h, List.map_append]; rfl)

/-! ## One line -/

theorem getLast?_cons_of_ne_nil {b : UInt8} {rest : Bytes} (h : rest ≠ []) :
    (b :: rest).getLast? = rest.getLast? := by
  rw [List.getLast?_eq_some_getLast h, List.getLast?_eq_some_getLast (List.cons_ne_nil b rest),
    List.getLast_cons h]

theorem readHeader_named {s : Loader} {lineNo : UInt32} {rest : Bytes}
    (hlast : rest.getLast? = some 0x5D) (hname : trim rest.dropLast ≠ []) :
    s.readHeader lineNo (0x5B :: rest) = s.openSection lineNo (trim rest.dropLast) := by
  have hrest : rest ≠ [] := by
    rintro rfl
    cases hlast
  have hlength : ¬ (0x5B :: rest : Bytes).length < 3 := by
    intro hshort
    have hnil : rest.dropLast = [] := List.length_eq_zero_iff.mp (by
      rw [List.length_dropLast]
      rw [List.length_cons] at hshort
      omega)
    rw [hnil] at hname
    exact hname rfl
  rw [Loader.readHeader, if_neg (not_or.mpr ⟨hlength, by
    rw [getLast?_cons_of_ne_nil hrest, hlast]; exact fun h => h rfl⟩)]
  exact if_neg hname

theorem readHeader_malformed {s : Loader} {lineNo : UInt32} {rest : Bytes}
    (h : ¬ (rest.getLast? = some 0x5D ∧ trim rest.dropLast ≠ [])) :
    ∃ message, s.readHeader lineNo (0x5B :: rest) = s.add lineNo message := by
  rw [Loader.readHeader]
  split
  · exact ⟨_, rfl⟩
  · rename_i hshape
    obtain ⟨hlength, hlast⟩ := not_or.mp hshape
    have hrest : rest ≠ [] := by
      rintro rfl
      exact hlength (by decide)
    rw [not_not, getLast?_cons_of_ne_nil hrest] at hlast
    have hname : trim rest.dropLast = [] := by
      by_contra hne
      exact h ⟨hlast, hne⟩
    exact ⟨_, if_pos hname⟩

theorem readEntry_nameless (s : Loader) (lineNo : UInt32) (value : Bytes) :
    ∃ message, s.readEntry lineNo [] value = s.add lineNo message := by
  rw [Loader.readEntry]
  split
  · exact ⟨_, rfl⟩
  · exact ⟨_, if_pos rfl⟩

/-- What one round does with each kind of line. -/
theorem readLine_eq (s : Loader) (lineNo : UInt32) (raw : Bytes) :
    match Line.ofBytes raw with
    | .skip => s.readLine lineNo raw = s
    | .header name => name ≠ [] ∧ s.readLine lineNo raw = s.openSection lineNo name
    | .entry key value => key ≠ [] ∧ s.readLine lineNo raw = s.readEntry lineNo key value
    | .malformed => ∃ message, s.readLine lineNo raw = s.add lineNo message := by
  unfold Line.ofBytes Loader.readLine
  cases htrim : trim raw with
  | nil => exact if_pos (.inl rfl)
  | cons b rest =>
      by_cases hcomment : b = 0x3B ∨ b = 0x23
      · have hskip : (b :: rest = [] ∨ (b :: rest).head? = some 0x3B ∨
            (b :: rest).head? = some 0x23) := by
          rcases hcomment with rfl | rfl
          · exact .inr (.inl rfl)
          · exact .inr (.inr rfl)
        simp only [if_pos hcomment, if_pos hskip]
      · have hread : ¬ (b :: rest = [] ∨ (b :: rest).head? = some 0x3B ∨
            (b :: rest).head? = some 0x23) := by
          rintro (h | h | h)
          · cases h
          · exact hcomment (.inl (Option.some.inj h))
          · exact hcomment (.inr (Option.some.inj h))
        simp only [if_neg hcomment, if_neg hread]
        by_cases hbracket : b = 0x5B
        · subst hbracket
          rw [if_pos rfl, if_pos (show (0x5B :: rest : Bytes).head? = some 0x5B from rfl)]
          by_cases hshape : rest.getLast? = some 0x5D ∧ trim rest.dropLast ≠ []
          · rw [if_pos hshape]
            exact ⟨hshape.2, readHeader_named hshape.1 hshape.2⟩
          · rw [if_neg hshape]
            exact readHeader_malformed hshape
        · have hhead : ¬ (b :: rest).head? = some 0x5B := fun h => hbracket (Option.some.inj h)
          rw [if_neg hbracket, if_neg hhead]
          by_cases hshape : 0x3D ∈ b :: rest ∧ trim ((b :: rest).takeWhile (· ≠ 0x3D)) ≠ []
          · rw [if_pos hshape, if_neg (not_not.mpr hshape.1)]
            exact ⟨hshape.2, rfl⟩
          · rw [if_neg hshape]
            by_cases heq : 0x3D ∈ b :: rest
            · have hkey : trim ((b :: rest).takeWhile (· ≠ 0x3D)) = [] := by
                by_contra hne
                exact hshape ⟨heq, hne⟩
              rw [if_neg (not_not.mpr heq), hkey]
              exact readEntry_nameless s lineNo _
            · exact ⟨_, if_pos heq⟩

/-! ## Values -/

theorem parseUint_eq (token : Bytes) {least greatest : Nat} (h : greatest < 2 ^ 64) :
    parseUint token least greatest =
      if cstr token ≠ [] ∧ (∀ b ∈ cstr token, isDigit b) ∧ least ≤ digitsValue (cstr token) ∧
          digitsValue (cstr token) ≤ greatest then
        some (digitsValue (cstr token))
      else none := by
  cases token with
  | nil => rfl
  | cons b rest =>
      rw [parseUint]
      by_cases hb : isDigit b = true
      · have hcstr : cstr (b :: rest) = b :: cstr rest := by
          have hne : b ≠ 0 := by
            rintro rfl
            cases hb
          simp [cstr, hne]
        rw [if_neg (by rw [hb]; exact Bool.noConfusion), hcstr, strtoul]
        by_cases hall : ∀ c ∈ b :: cstr rest, isDigit c = true
        · rw [List.takeWhile_eq_self_iff.mpr hall, List.dropWhile_eq_nil_iff.mpr hall]
          by_cases hsmall : digitsValue (b :: cstr rest) < 2 ^ 64
          · simp only [if_pos hsmall]
            by_cases hrange : least ≤ digitsValue (b :: cstr rest) ∧
                digitsValue (b :: cstr rest) ≤ greatest
            · rw [if_neg (by omega), if_pos ⟨List.cons_ne_nil _ _, hall, hrange⟩]
            · rw [if_pos (by omega), if_neg fun hvalid => hrange hvalid.2.2]
          · simp only [if_neg hsmall]
            rw [if_neg fun hvalid => hsmall (by omega)]
        · have hrest : (b :: cstr rest).dropWhile isDigit ≠ [] := by
            rwa [ne_eq, List.dropWhile_eq_nil_iff]
          refine Eq.trans ?_ (if_neg fun hvalid => hall hvalid.2.1).symm
          split
          · rename_i hread
            exact absurd (congrArg Prod.snd hread) hrest
          · rfl
      · rw [if_pos (Bool.not_eq_true _ ▸ hb), if_neg]
        rintro ⟨hne, hall, -⟩
        have hzero : b ≠ 0 := by
          rintro rfl
          exact hne (by simp [cstr])
        exact hb (hall b (by simp [cstr, hzero]))

theorem denotes_of_range {key : Key} {least greatest : Nat}
    (h : key.range = some (least, greatest)) (value : Bytes) :
    key.denotes value =
      if value ≠ [] ∧ (∀ b ∈ value, isDigit b) ∧ least ≤ digitsValue value ∧
          digitsValue value ≤ greatest then
        some (.number (digitsValue value))
      else none := by
  cases key <;> cases h <;> rfl

theorem denotesUpToNul_of_range {key : Key} {least greatest : Nat}
    (h : key.range = some (least, greatest)) (hsmall : greatest < 2 ^ 64) (value : Bytes) :
    key.denotesUpToNul value = (parseUint value least greatest).map Value.number := by
  have hinteger : key.IsInteger := by
    rw [Key.IsInteger, h]
    rfl
  rw [Key.denotesUpToNul, if_pos hinteger, denotes_of_range h, parseUint_eq value hsmall]
  split <;> rfl

/-- One key gets a value, and the others keep theirs. -/
def Sets (cfg cfg' : Config) (key : Key) (value : Value) : Prop :=
  cfg'.get key = value ∧ ∀ other, other ≠ key → cfg'.get other = cfg.get other

/-- The branches of the integer keys. -/
theorem assign_integer (cfg : Config) {key : Key} {least greatest : Nat}
    (h : key.range = some (least, greatest)) (value : Bytes) :
    greatest < 2 ^ 64 ∧ ∃ (message : Bytes) (assigned : Nat → Config),
      assign cfg key.header key.name value =
        assignUint value least greatest message assigned ∧
      ∀ n, Sets cfg (assigned n) key (.number n) := by
  cases key <;> cases h <;> refine ⟨by decide, _, _, rfl, fun n => ⟨rfl, ?_⟩⟩ <;>
    rintro ⟨⟩ hne <;> first | rfl | exact absurd rfl hne

theorem assign_bind (cfg : Config) (value : Bytes) :
    assign cfg (Key.header .bind) (Key.name .bind) value =
      if value = [] ∨ value.any (fun b => b = 0x20 || b = 0x09) then
        .error (lit "http.bind must be non-empty without whitespace")
      else .ok { cfg with httpBind := value } := rfl

theorem assign_databasePath (cfg : Config) (value : Bytes) :
    assign cfg (Key.header .databasePath) (Key.name .databasePath) value =
      if value = [] then .error (lit "storage.database_path must be non-empty")
      else if 0 ∈ value then
        .error (lit "storage.database_path must not contain an embedded NUL")
      else .ok { cfg with storageDatabasePath := value } := rfl

theorem assign_level (cfg : Config) (value : Bytes) :
    assign cfg (Key.header .level) (Key.name .level) value =
      match Log.parseSeverity value .info with
      | some (level, enabled) =>
          .ok { cfg with loggingLevel := level, loggingEnabled := enabled }
      | none =>
          .error (lit "logging.level must be one of DEBUG, INFO, WARNING, ERROR, OFF") := rfl

theorem lookup_levels (value : Bytes) :
    levels.lookup (Log.upper value) =
      (Log.parseSeverity value .info).map fun level => Value.level level.1 level.2 := by
  unfold Log.parseSeverity levels
  by_cases hoff : Log.upper value = lit "OFF"
  · rw [hoff]
    rfl
  by_cases hdebug : Log.upper value = lit "DEBUG"
  · rw [hdebug]
    rfl
  by_cases hinfo : Log.upper value = lit "INFO"
  · rw [hinfo]
    rfl
  by_cases hwarning : Log.upper value = lit "WARNING"
  · rw [hwarning]
    rfl
  by_cases herror : Log.upper value = lit "ERROR"
  · rw [herror]
    rfl
  · simp only [List.lookup_cons, List.lookup_nil, beq_eq_false_iff_ne.mpr hoff,
      beq_eq_false_iff_ne.mpr hdebug,
      beq_eq_false_iff_ne.mpr hinfo, beq_eq_false_iff_ne.mpr hwarning,
      beq_eq_false_iff_ne.mpr herror, if_neg hoff, if_neg hdebug, if_neg hinfo,
      if_neg hwarning, if_neg herror, Option.map_none]

/-- A known key is assigned what its value says when an integer ends at its first NUL. -/
theorem assign_known (cfg : Config) (key : Key) (value : Bytes) :
    match key.denotesUpToNul value with
    | some v => ∃ cfg', assign cfg key.header key.name value = .ok cfg' ∧ Sets cfg cfg' key v
    | none => ∃ message, assign cfg key.header key.name value = .error message := by
  cases hrange : key.range with
  | some range =>
      obtain ⟨least, greatest⟩ := range
      obtain ⟨hsmall, message, assigned, hassign, hsets⟩ := assign_integer cfg hrange value
      rw [denotesUpToNul_of_range hrange hsmall, hassign, assignUint]
      cases parseUint value least greatest with
      | some n => exact ⟨assigned n, rfl, hsets n⟩
      | none => exact ⟨message, rfl⟩
  | none =>
      have hwhole : key.denotesUpToNul value = key.denotes value := by
        rw [Key.denotesUpToNul, if_neg (by rw [Key.IsInteger, hrange]; exact Bool.noConfusion)]
      rw [hwhole]
      cases key with
      | bind =>
          rw [assign_bind, Key.denotes]
          by_cases hvalid : value ≠ [] ∧ ∀ b ∈ value, b ≠ 0x20 ∧ b ≠ 0x09
          · rw [if_pos hvalid, if_neg (by simpa [not_or] using hvalid)]
            exact ⟨_, rfl, rfl, by rintro ⟨⟩ hne <;> first | rfl | exact absurd rfl hne⟩
          · rw [if_neg hvalid, if_pos (by
              by_contra hnone
              exact hvalid (by simpa [not_or] using hnone))]
            exact ⟨_, rfl⟩
      | databasePath =>
          rw [assign_databasePath, Key.denotes]
          by_cases hempty : value = []
          · rw [if_pos hempty, if_neg fun hvalid => hvalid.1 hempty]
            exact ⟨_, rfl⟩
          · by_cases hnul : 0 ∈ value
            · rw [if_neg hempty, if_pos hnul, if_neg fun hvalid => hvalid.2 hnul]
              exact ⟨_, rfl⟩
            · rw [if_neg hempty, if_neg hnul, if_pos ⟨hempty, hnul⟩]
              exact ⟨_, rfl, rfl, by rintro ⟨⟩ hne <;> first | rfl | exact absurd rfl hne⟩
      | level =>
          rw [assign_level, Key.denotes, lookup_levels]
          cases Log.parseSeverity value .info with
          | some level =>
              exact ⟨_, rfl, rfl, by rintro ⟨⟩ hne <;> first | rfl | exact absurd rfl hne⟩
          | none => exact ⟨_, rfl⟩
      | _ => cases hrange

/-- Every other key is refused. -/
theorem assign_unknown (cfg : Config) {header name : Bytes} (value : Bytes)
    (h : ∀ key : Key, ¬ (header = key.header ∧ name = key.name)) :
    ∃ message, assign cfg header name value = .error message := by
  exact ⟨_, (if_neg (h .bind)).trans <| (if_neg (h .port)).trans <|
    (if_neg (h .maxBodyBytes)).trans <| (if_neg (h .workers)).trans <|
    (if_neg (h .databasePath)).trans <| (if_neg (h .maxAttempts)).trans <|
    (if_neg (h .backoffInitialMs)).trans <| (if_neg (h .backoffMaxMs)).trans <|
    if_neg (h .level)⟩

/-! ## The loop -/

/-- What the loop reads its lines as. -/
def asLoaded : Reading := ⟨nearestNew, Key.denotesUpToNul⟩

def Key.qualified (key : Key) : Bytes := key.header ++ lit "." ++ key.name

/-- There is one dot in the qualified name of a known key, so it is not the name of any
other entry. -/
theorem eq_of_qualified {header name : Bytes} {key : Key}
    (h : header ++ lit "." ++ name = key.qualified) : header = key.header ∧ name = key.name := by
  have hdots : 0x2E ∉ key.header ∧ 0x2E ∉ key.name := by
    cases key <;> decide
  have hsplit : header ++ 0x2E :: name = key.header ++ 0x2E :: key.name := by
    rw [Key.qualified, List.append_assoc, List.append_assoc] at h
    exact h
  rcases List.append_eq_append_iff.mp hsplit with ⟨front, hheader, hname⟩ | ⟨back, hheader, hname⟩
  · cases front with
    | nil =>
        cases hname
        exact ⟨by rw [hheader, List.append_nil], rfl⟩
    | cons b front =>
        cases hname
        exact absurd (by rw [hheader]; simp) hdots.1
  · cases back with
    | nil =>
        cases hname
        exact ⟨by rw [hheader, List.append_nil], rfl⟩
    | cons b back =>
        obtain ⟨rfl, htail⟩ := List.cons.inj hname
        exact absurd (by rw [htail]; simp) hdots.2

theorem qualified_eq {header name : Bytes} {key : Key} :
    key.qualified = header ++ lit "." ++ name ↔ header = key.header ∧ name = key.name := by
  constructor
  · exact fun heq => eq_of_qualified heq.symm
  · rintro ⟨rfl, rfl⟩
    rfl

/-- What the locals of the loop say about the lines that were read. -/
structure Tracks (lines : List Line) (s : Loader) : Prop where
  sections : s.seenSections = (headers lines).eraseDups
  current : s.sectionName = (nearestNew lines).getD []
  named : ∀ name ∈ headers lines, name ≠ []
  keys : ∀ key : Key, key.qualified ∈ s.seenKeys ↔ asLoaded.firstGiven lines key ≠ none
  values : ∀ key, s.cfg.get key = asLoaded.valueOf lines key

/-- A line adds an issue, unless it is in order. -/
def Notes (s s' : Loader) (lineNo : UInt32) (inOrder : Prop) : Prop :=
  (inOrder → s'.issues = s.issues) ∧
    (¬ inOrder → ∃ message, s'.issues = s.issues ++ [⟨lineNo, message⟩])

theorem Notes.add {s : Loader} {lineNo : UInt32} {message : Bytes} {inOrder : Prop}
    (h : ¬ inOrder) : Notes s (s.add lineNo message) lineNo inOrder :=
  ⟨fun hin => absurd hin h, fun _ => ⟨message, rfl⟩⟩

namespace Tracks

variable {past : List Line} {s : Loader}

theorem nearestNew_eq_none (h : Tracks past s) : s.sectionName = [] ↔ nearestNew past = none := by
  rw [h.current]
  cases hnearest : nearestNew past with
  | none => simp
  | some name =>
      have hname : name ∈ headers past :=
        List.mem_eraseDups.mp (List.mem_of_getLast? hnearest)
      simpa using h.named name hname

/-- A line that gives nothing new, for which the locals stay. -/
theorem keep (h : Tracks past s) {line : Line} {s' : Loader}
    (hfirst : ∀ key, asLoaded.firstGiven (past ++ [line]) key = asLoaded.firstGiven past key)
    (hsections : (headers (past ++ [line])).eraseDups = (headers past).eraseDups)
    (hnamed : ∀ name, line = .header name → name ≠ [])
    (hs : s'.cfg = s.cfg ∧ s'.seenSections = s.seenSections ∧ s'.seenKeys = s.seenKeys ∧
      s'.sectionName = s.sectionName) : Tracks (past ++ [line]) s' := by
  obtain ⟨hcfg, hseen, hkeys, hcurrent⟩ := hs
  refine ⟨?_, ?_, ?_, ?_, ?_⟩
  · rw [hseen, hsections, h.sections]
  · rw [hcurrent, h.current, nearestNew, nearestNew, hsections]
  · intro name hname
    rw [headers_concat, List.mem_append] at hname
    rcases hname with hpast | hnew
    · exact h.named name hpast
    · cases line with
      | header other =>
          rw [List.mem_singleton.mp hnew]
          exact hnamed other rfl
      | _ => cases hnew
  · intro key
    rw [hkeys, hfirst, h.keys]
  · intro key
    rw [hcfg, h.values, Reading.valueOf, Reading.valueOf, hfirst]

theorem firstGiven_concat_of_none {line : Line} (hgiven : asLoaded.givenAt past line = none)
    (key : Key) :
    asLoaded.firstGiven (past ++ [line]) key = asLoaded.firstGiven past key := by
  rw [Reading.firstGiven_concat, hgiven]
  exact Option.or_none

theorem openSection (h : Tracks past s) (lineNo : UInt32) {name : Bytes} (hname : name ≠ []) :
    Tracks (past ++ [.header name]) (s.openSection lineNo name) ∧
      Notes s (s.openSection lineNo name) lineNo (asLoaded.InOrder past (.header name)) := by
  have hseen : name ∈ s.seenSections ↔ name ∈ headers past := by
    rw [h.sections, List.mem_eraseDups]
  rw [Loader.openSection]
  by_cases hdup : name ∈ headers past
  · rw [if_pos (hseen.mpr hdup)]
    refine ⟨h.keep (firstGiven_concat_of_none rfl) ?_ ?_ ⟨rfl, rfl, rfl, rfl⟩,
      Notes.add fun hin => hin.2 hdup⟩
    · rw [headers_concat]
      exact eraseDups_concat_of_mem hdup
    · rintro _ ⟨⟩
      exact hname
  · rw [if_neg (mt hseen.mp hdup)]
    have hfirst : ∀ key, asLoaded.firstGiven (past ++ [.header name]) key =
        asLoaded.firstGiven past key := firstGiven_concat_of_none rfl
    constructor
    · have hsections : (headers (past ++ [.header name])).eraseDups =
          s.seenSections ++ [name] := by
        rw [headers_concat, h.sections]
        exact eraseDups_concat_of_notMem hdup
      refine ⟨?_, ?_, ?_, ?_, ?_⟩
      · rw [hsections]
        dsimp only
        split <;> rfl
      · rw [nearestNew, hsections, List.getLast?_concat]
        rfl
      · intro other hother
        rw [headers_concat, List.mem_append] at hother
        rcases hother with hpast | hnew
        · exact h.named other hpast
        · rw [List.mem_singleton.mp hnew]
          exact hname
      · intro key
        rw [hfirst, ← h.keys]
        dsimp only
        split <;> rfl
      · intro key
        rw [Reading.valueOf, hfirst, ← Reading.valueOf, ← h.values]
        dsimp only
        split <;> rfl
    · by_cases hknown : name ∈ knownSections
      · refine ⟨fun _ => ?_, fun hnot => absurd ⟨hknown, hdup⟩ hnot⟩
        dsimp only
        rw [if_neg (not_not.mpr hknown)]
      · refine ⟨fun hin => absurd hin.1 hknown, fun _ => ?_⟩
        dsimp only
        rw [if_pos hknown]
        exact ⟨_, rfl⟩

theorem headers_concat_entry (past : List Line) (name value : Bytes) :
    headers (past ++ [.entry name value]) = headers past := by
  rw [headers_concat]
  exact List.append_nil _

/-! An entry under `header`. -/

section

variable {header name value : Bytes} (hnearest : nearestNew past = some header)
include hnearest

theorem givenAt_entry : asLoaded.givenAt past (.entry name value) =
    some ⟨past.length + 1, header, name, value⟩ := by
  show (nearestNew past).map _ = _
  rw [hnearest]
  rfl

theorem firstGiven_entry (key : Key) :
    asLoaded.firstGiven (past ++ [.entry name value]) key =
      (asLoaded.firstGiven past key).or
        (if header = key.header ∧ name = key.name then
          some ⟨past.length + 1, header, name, value⟩ else none) := by
  rw [Reading.firstGiven_concat, givenAt_entry hnearest]
  congr 1
  by_cases hof : header = key.header ∧ name = key.name
  · rw [if_pos hof]
    exact Option.filter_some_pos (decide_eq_true hof)
  · rw [if_neg hof]
    exact Option.filter_some_neg (decide_eq_false hof)

/-- It is in order if it is the first of a known key and has a valid value. -/
theorem inOrder_under : asLoaded.InOrder past (.entry name value) ↔
    ∃ key : Key, (header = key.header ∧ name = key.name) ∧
      asLoaded.firstGiven past key = none ∧ (key.denotesUpToNul value).isSome = true := by
  rw [Reading.inOrder_entry, givenAt_entry hnearest]
  constructor
  · rintro ⟨_, key, ⟨⟩, hof, hnone, hvalid⟩
    exact ⟨key, hof, hnone, hvalid⟩
  · rintro ⟨key, hof, hnone, hvalid⟩
    exact ⟨_, key, rfl, hof, hnone, hvalid⟩

theorem valueOf_entry_of_ne {key : Key} (hother : ¬ (header = key.header ∧ name = key.name)) :
    asLoaded.valueOf (past ++ [.entry name value]) key = asLoaded.valueOf past key := by
  rw [Reading.valueOf, firstGiven_entry hnearest, if_neg hother, Option.or_none,
    ← Reading.valueOf]

/-- What the locals are once an entry is remembered. -/
theorem remember (h : Tracks past s) {s' : Loader} (hsections : s'.seenSections = s.seenSections)
    (hsection : s'.sectionName = header)
    (hkeys : s'.seenKeys = s.seenKeys ++ [header ++ lit "." ++ name])
    (hvalues : ∀ key, s'.cfg.get key =
      asLoaded.valueOf (past ++ [.entry name value]) key) :
    Tracks (past ++ [.entry name value]) s' := by
  refine ⟨?_, ?_, ?_, ?_, hvalues⟩
  · rw [hsections, headers_concat_entry, h.sections]
  · rw [hsection, nearestNew, headers_concat_entry, ← nearestNew, hnearest]
    rfl
  · rw [headers_concat_entry]
    exact h.named
  · intro key
    rw [hkeys, List.mem_append, List.mem_singleton, h.keys, qualified_eq,
      firstGiven_entry hnearest]
    by_cases hof : header = key.header ∧ name = key.name <;>
      cases asLoaded.firstGiven past key <;> simp [hof]

/-- A qualified name that was seen before: every key with that name was given before. -/
theorem readRepeated (h : Tracks past s) (hseen : header ++ lit "." ++ name ∈ s.seenKeys)
    (lineNo : UInt32) (message : Bytes) :
    Tracks (past ++ [.entry name value]) (s.add lineNo message) ∧
      Notes s (s.add lineNo message) lineNo (asLoaded.InOrder past (.entry name value)) := by
  have hearlier : ∀ key : Key, header = key.header ∧ name = key.name →
      asLoaded.firstGiven past key ≠ none := by
    intro key hof
    rw [← h.keys, qualified_eq.mpr hof]
    exact hseen
  refine ⟨h.keep (fun key => ?_) (by rw [headers_concat_entry]) nofun ⟨rfl, rfl, rfl, rfl⟩,
    Notes.add ?_⟩
  · rw [firstGiven_entry hnearest]
    by_cases hof : header = key.header ∧ name = key.name
    · obtain ⟨given, hgiven⟩ := Option.ne_none_iff_exists'.mp (hearlier key hof)
      rw [hgiven]
      rfl
    · rw [if_neg hof]
      exact Option.or_none
  · rw [inOrder_under hnearest]
    rintro ⟨key, hof, hnone, -⟩
    exact hearlier key hof hnone

/-- A known key that is new. -/
theorem readKnown (h : Tracks past s) {key : Key} (hof : header = key.header ∧ name = key.name)
    (hnew : asLoaded.firstGiven past key = none) {t : Loader} (hcfg : t.cfg = s.cfg)
    (hissues : t.issues = s.issues) (hsections : t.seenSections = s.seenSections)
    (hsection : t.sectionName = header)
    (hkeys : t.seenKeys = s.seenKeys ++ [header ++ lit "." ++ name]) (lineNo : UInt32) :
    let s' := match assign s.cfg header name value with
      | .ok cfg => { t with cfg }
      | .error message => t.add lineNo message
    Tracks (past ++ [.entry name value]) s' ∧
      Notes s s' lineNo (asLoaded.InOrder past (.entry name value)) := by
  obtain ⟨rfl, rfl⟩ := hof
  have hothers : ∀ other, other ≠ key →
      asLoaded.valueOf (past ++ [.entry key.name value]) other =
        asLoaded.valueOf past other := fun other hne =>
    valueOf_entry_of_ne hnearest fun hof =>
      hne ((show Given.Of ⟨0, key.header, key.name, []⟩ other from hof).inj ⟨rfl, rfl⟩)
  have hvalue : asLoaded.valueOf (past ++ [.entry key.name value]) key =
      (key.denotesUpToNul value).getD (({} : Config).get key) := by
    rw [Reading.valueOf, firstGiven_entry hnearest, hnew, if_pos ⟨rfl, rfl⟩]
    rfl
  have hassign := assign_known s.cfg key value
  cases hdenotes : key.denotesUpToNul value with
  | some v =>
      rw [hdenotes] at hassign hvalue
      obtain ⟨cfg, hok, hkey, hrest⟩ := hassign
      simp only [hok]
      refine ⟨remember hnearest h hsections hsection hkeys fun other => ?_, fun _ => hissues,
        fun hnot => absurd ?_ hnot⟩
      · by_cases hother : other = key
        · rw [hother, hvalue, hkey]
          rfl
        · rw [hothers other hother, hrest other hother, h.values]
      · exact (inOrder_under hnearest).mpr
          ⟨key, ⟨rfl, rfl⟩, hnew, Option.isSome_iff_exists.mpr ⟨v, hdenotes⟩⟩
  | none =>
      rw [hdenotes] at hassign hvalue
      obtain ⟨message, herror⟩ := hassign
      simp only [herror]
      have hfault : ¬ asLoaded.InOrder past (.entry key.name value) := by
        rw [inOrder_under hnearest]
        rintro ⟨other, hof, -, hvalid⟩
        obtain rfl : other = key :=
          (show Given.Of ⟨0, key.header, key.name, []⟩ other from hof).inj ⟨rfl, rfl⟩
        rw [hdenotes] at hvalid
        cases hvalid
      refine ⟨remember hnearest h hsections hsection hkeys fun other => ?_,
        fun hin => absurd hin hfault, fun _ => ⟨message, by rw [← hissues]; rfl⟩⟩
      show t.cfg.get other = _
      rw [hcfg, h.values]
      by_cases hother : other = key
      · rw [hother, hvalue, Reading.valueOf, hnew]
        rfl
      · exact (hothers other hother).symm

end

theorem readEntry (h : Tracks past s) (lineNo : UInt32) {name value : Bytes}
    (hname : name ≠ []) :
    Tracks (past ++ [.entry name value]) (s.readEntry lineNo name value) ∧
      Notes s (s.readEntry lineNo name value) lineNo
        (asLoaded.InOrder past (.entry name value)) := by
  rw [Loader.readEntry]
  by_cases hsection : s.sectionName = []
  · rw [if_pos hsection]
    have hgiven : asLoaded.givenAt past (.entry name value) = none := by
      show (nearestNew past).map _ = none
      rw [h.nearestNew_eq_none.mp hsection]
      rfl
    refine ⟨h.keep (firstGiven_concat_of_none hgiven) (by rw [headers_concat_entry]) nofun
      ⟨rfl, rfl, rfl, rfl⟩, Notes.add ?_⟩
    rw [Reading.inOrder_entry, hgiven]
    rintro ⟨_, _, ⟨⟩, -⟩
  rw [if_neg hsection, if_neg hname]
  obtain ⟨header, hnearest⟩ : ∃ header, nearestNew past = some header :=
    Option.ne_none_iff_exists'.mp (mt h.nearestNew_eq_none.mpr hsection)
  have hcurrent : s.sectionName = header := by
    rw [h.current, hnearest]
    rfl
  rw [hcurrent]
  by_cases hseen : header ++ lit "." ++ name ∈ s.seenKeys
  · rw [if_pos hseen]
    exact readRepeated hnearest h hseen lineNo _
  rw [if_neg hseen]
  by_cases hknown : ∃ key : Key, header = key.header ∧ name = key.name
  · obtain ⟨key, hof⟩ := hknown
    have hnew : asLoaded.firstGiven past key = none := by
      by_contra hne
      exact hseen (by rw [← qualified_eq.mpr hof]; exact (h.keys key).mpr hne)
    exact readKnown hnearest h hof hnew
      (t := { s with seenKeys := s.seenKeys ++ [header ++ lit "." ++ name], sectionName := header })
      rfl rfl rfl rfl rfl lineNo
  · obtain ⟨message, herror⟩ := assign_unknown s.cfg value fun key hof => hknown ⟨key, hof⟩
    simp only [herror]
    refine ⟨remember hnearest h rfl rfl rfl fun key => ?_, Notes.add ?_⟩
    · rw [valueOf_entry_of_ne hnearest fun hof => hknown ⟨key, hof⟩, ← h.values]
      rfl
    · rw [inOrder_under hnearest]
      rintro ⟨key, hof, -⟩
      exact hknown ⟨key, hof⟩

theorem readLine (h : Tracks past s) (lineNo : UInt32) (raw : Bytes) :
    Tracks (past ++ [Line.ofBytes raw]) (s.readLine lineNo raw) ∧
      Notes s (s.readLine lineNo raw) lineNo (asLoaded.InOrder past (Line.ofBytes raw)) := by
  have hread := readLine_eq s lineNo raw
  cases hline : Line.ofBytes raw with
  | skip =>
      rw [hline] at hread
      rw [show s.readLine lineNo raw = s from hread]
      refine ⟨h.keep (firstGiven_concat_of_none rfl) ?_ nofun ⟨rfl, rfl, rfl, rfl⟩,
        fun _ => rfl, fun hnot => absurd trivial hnot⟩
      rw [headers_concat]
      exact congrArg _ (List.append_nil _)
  | header name =>
      rw [hline] at hread
      obtain ⟨hname, hread⟩ := hread
      rw [hread]
      exact h.openSection lineNo hname
  | entry name value =>
      rw [hline] at hread
      obtain ⟨hname, hread⟩ := hread
      rw [hread]
      exact h.readEntry lineNo hname
  | malformed =>
      rw [hline] at hread
      obtain ⟨message, hread⟩ := hread
      rw [hread]
      refine ⟨h.keep (firstGiven_concat_of_none rfl) ?_ nofun ⟨rfl, rfl, rfl, rfl⟩,
        Notes.add id⟩
      rw [headers_concat]
      exact congrArg _ (List.append_nil _)

end Tracks

/-- The locals after the first lines of a text. -/
def loaderAfter (raws : List Bytes) : Loader := Loader.readLines {} 1 raws

def lineNumber (past : List Bytes) : UInt32 := UInt32.ofNat (past.length + 1)

theorem readLines_concat (s : Loader) (lineNo : UInt32) (raws : List Bytes) (raw : Bytes) :
    s.readLines lineNo (raws ++ [raw]) =
      (s.readLines lineNo raws).readLine (lineNo + UInt32.ofNat raws.length) raw := by
  induction raws generalizing s lineNo with
  | nil => exact congrArg (s.readLine · raw) (UInt32.add_zero lineNo).symm
  | cons first raws ih =>
      rw [List.cons_append, Loader.readLines, ih, Loader.readLines, List.length_cons,
        UInt32.ofNat_add, UInt32.add_assoc, UInt32.add_comm 1]
      rfl

theorem loaderAfter_concat (past : List Bytes) (raw : Bytes) :
    loaderAfter (past ++ [raw]) = (loaderAfter past).readLine (lineNumber past) raw := by
  rw [loaderAfter, readLines_concat, lineNumber, UInt32.ofNat_add, UInt32.add_comm]
  rfl

theorem tracks_loaderAfter (raws : List Bytes) :
    Tracks (raws.map Line.ofBytes) (loaderAfter raws) := by
  induction raws using List.reverseRecOn with
  | nil =>
      refine ⟨rfl, rfl, nofun, fun key => ?_, fun key => rfl⟩
      exact ⟨nofun, fun hne => absurd rfl hne⟩
  | append_singleton past raw ih =>
      rw [loaderAfter_concat, List.map_append]
      exact (ih.readLine _ raw).1

/-- One line, read after others. -/
theorem notes_loaderAfter (past : List Bytes) (raw : Bytes) :
    Notes (loaderAfter past) (loaderAfter (past ++ [raw])) (lineNumber past)
      (asLoaded.InOrder (past.map Line.ofBytes) (Line.ofBytes raw)) := by
  rw [loaderAfter_concat]
  exact ((tracks_loaderAfter past).readLine _ raw).2

/-- The issues are those of the lines that are not in order, as the loop reads them. -/
theorem issues_loaderAfter (raws : List Bytes) :
    (loaderAfter raws).issues.map Issue.line =
      (asLoaded.faulty (raws.map Line.ofBytes)).map UInt32.ofNat := by
  induction raws using List.reverseRecOn with
  | nil => rfl
  | append_singleton past raw ih =>
      rw [List.map_append, Reading.faulty, List.map_singleton, withPast_concat,
        List.filter_append, List.map_append, List.map_append, ← Reading.faulty, ← ih]
      obtain ⟨hsame, hmore⟩ := notes_loaderAfter past raw
      by_cases hin : asLoaded.InOrder (past.map Line.ofBytes) (Line.ofBytes raw)
      · rw [hsame hin, List.filter_cons_of_neg (by simpa using hin)]
        exact (List.append_nil _).symm
      · obtain ⟨message, hissues⟩ := hmore hin
        rw [hissues, List.map_append, List.filter_cons_of_pos (by simpa using hin)]
        simp [lineNumber]

end FileMover.Ini
