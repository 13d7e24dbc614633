import FileMover.Ini.Reports

/-!
# Which files are accepted

A file is accepted if it is as the schema wants it when an integer is read as far as its
first NUL, and the configuration holds its values.
-/

namespace FileMover.Ini

open Framework

/-! ## Readings of one file -/

namespace Reading

variable {reading reading' : Reading} {lines : List Line}

theorem given_congr
    (h : ∀ item ∈ withPast lines,
      reading.givenAt item.1 item.2 = reading'.givenAt item.1 item.2) :
    reading.given lines = reading'.given lines :=
  List.filterMap_congr h

theorem mem_withPast_append {past rest : List Line} {item : List Line × Line}
    (h : item ∈ withPast past) : item ∈ withPast (past ++ rest) := by
  obtain ⟨later, hlater⟩ := mem_withPast.mp h
  exact mem_withPast.mpr ⟨later ++ rest, by rw [hlater]; simp⟩

theorem firstGiven_congr
    (h : ∀ item ∈ withPast lines,
      reading.givenAt item.1 item.2 = reading'.givenAt item.1 item.2) (key : Key) :
    reading.firstGiven lines key = reading'.firstGiven lines key := by
  rw [firstGiven, given_congr h, firstGiven]

theorem valueOf_congr
    (hgiven : ∀ item ∈ withPast lines,
      reading.givenAt item.1 item.2 = reading'.givenAt item.1 item.2)
    (hdenotes : ∀ given ∈ reading.given lines, ∀ key, given.Of key →
      reading.denotes key given.value = reading'.denotes key given.value) (key : Key) :
    reading.valueOf lines key = reading'.valueOf lines key := by
  rw [valueOf, valueOf, ← firstGiven_congr hgiven]
  cases hfirst : reading.firstGiven lines key with
  | none => rfl
  | some given =>
      have hvalue := hdenotes given (List.mem_of_find?_eq_some hfirst) key
        (reading.firstGiven_of hfirst)
      rw [Option.bind_some, Option.bind_some, hvalue]

/-- A file that is accepted by one reading is accepted by every other that finds the same
sections and takes its values for the same. -/
theorem Accepts.congr (h : reading.Accepts lines)
    (hgiven : ∀ item ∈ withPast lines,
      reading.givenAt item.1 item.2 = reading'.givenAt item.1 item.2)
    (hdenotes : ∀ given ∈ reading.given lines, ∀ key, given.Of key →
      reading.denotes key given.value = reading'.denotes key given.value) :
    reading'.Accepts lines := by
  refine ⟨?_, ?_, ?_⟩
  · rintro ⟨past, line⟩ hmem
    have hin := h.inOrder _ hmem
    cases line with
    | entry name value =>
        obtain ⟨given, key, hat, hof, hnone, hvalid⟩ := reading.inOrder_entry.mp hin
        have hpast : ∀ item ∈ withPast past,
            reading.givenAt item.1 item.2 = reading'.givenAt item.1 item.2 := by
          intro item hitem
          obtain ⟨rest, rfl⟩ := mem_withPast.mp hmem
          exact hgiven item (mem_withPast_append hitem)
        have hvalue : given.value = value := by
          have hentry := (reading.givenAt_line hat).2
          injection hentry with _ hvalue
          exact hvalue.symm
        have hmemGiven : given ∈ reading.given lines := List.mem_filterMap.mpr ⟨_, hmem, hat⟩
        refine reading'.inOrder_entry.mpr ⟨given, key, ?_, hof, ?_, ?_⟩
        · rw [← hgiven _ hmem]
          exact hat
        · rw [← firstGiven_congr hpast]
          exact hnone
        · rw [← hvalue, ← hdenotes given hmemGiven key hof, hvalue]
          exact hvalid
    | _ => exact hin
  · rw [← given_congr hgiven]
    exact h.path
  · rw [← valueOf_congr hgiven hdenotes, ← valueOf_congr hgiven hdenotes]
    exact h.backoff

/-- In a file that is accepted a key is given once, with a valid value. -/
theorem Accepts.of_mem_given (h : reading.Accepts lines) {given : Given} {key : Key}
    (hmem : given ∈ reading.given lines) (hof : given.Of key) :
    reading.firstGiven lines key = some given ∧
      (reading.denotes key given.value).isSome = true := by
  obtain ⟨⟨past, line⟩, hitem, hat⟩ := List.mem_filterMap.mp hmem
  change reading.givenAt past line = some given at hat
  have hin := h.inOrder _ hitem
  rw [(reading.givenAt_line hat).2] at hin
  obtain ⟨other, key', hat', hof', hnone, hvalid⟩ := reading.inOrder_entry.mp hin
  rw [← (reading.givenAt_line hat).2, hat] at hat'
  cases hat'
  obtain rfl : key = key' := hof.inj hof'
  exact ⟨reading.firstGiven_eq_some hitem hat hof hnone, hvalid⟩

/-- The headers of a file that is accepted are all different. -/
theorem Accepts.nodup_headers (h : reading.Accepts lines) : (headers lines).Nodup := by
  have hprefix : ∀ past rest, lines = past ++ rest → (headers past).Nodup := by
    intro past
    induction past using List.reverseRecOn with
    | nil => exact fun _ _ => List.nodup_nil
    | append_singleton past line ih =>
        intro rest hlines
        rw [List.append_assoc] at hlines
        have hin := h.inOrder (past, line) (mem_withPast.mpr ⟨rest, hlines⟩)
        rw [headers_concat]
        refine List.Nodup.append (ih _ hlines) ?_ ?_
        · cases line with
          | header name => exact List.nodup_singleton name
          | _ => exact List.nodup_nil
        · cases line with
          | header name => exact List.disjoint_singleton.mpr hin.2
          | _ => exact List.disjoint_nil_right _
  exact hprefix lines [] (List.append_nil lines).symm

end Reading

theorem eraseDups_of_nodup {names : List Bytes} (h : names.Nodup) : names.eraseDups = names := by
  induction names using List.reverseRecOn with
  | nil => rfl
  | append_singleton names name ih =>
      obtain ⟨hnames, -, hdisjoint⟩ := List.nodup_append.mp h
      have hnew : name ∉ names := fun hmem =>
        hdisjoint name hmem name (List.mem_singleton_self name) rfl
      rw [eraseDups_concat_of_notMem hnew, ih hnames]

/-- Every header counts, and an integer ends at its first NUL. -/
def upToNul : Reading := ⟨nearest, Key.denotesUpToNul⟩

theorem givenAt_of_nodup {lines : List Line} (h : (headers lines).Nodup) :
    ∀ item ∈ withPast lines,
      asLoaded.givenAt item.1 item.2 = upToNul.givenAt item.1 item.2 := by
  rintro ⟨past, line⟩ hmem
  obtain ⟨rest, rfl⟩ := mem_withPast.mp hmem
  have hpast : (headers past).Nodup := by
    rw [headers, List.filterMap_append] at h
    exact (List.nodup_append.mp h).1
  have hnearest : nearestNew past = nearest past := by
    rw [nearestNew, eraseDups_of_nodup hpast, nearest]
  cases line with
  | entry name value =>
      show (nearestNew past).map _ = (nearest past).map _
      rw [hnearest]
  | _ => rfl

theorem asLoaded_accepts_iff (lines : List Line) :
    asLoaded.Accepts lines ↔ upToNul.Accepts lines := by
  constructor
  · intro h
    exact h.congr (givenAt_of_nodup h.nodup_headers) fun _ _ _ _ => rfl
  · intro h
    exact h.congr (fun item hitem => (givenAt_of_nodup h.nodup_headers item hitem).symm)
      fun _ _ _ _ => rfl

/-! ## The order of the entries -/

/-- An entry without its line number. -/
def Given.content (given : Given) : Bytes × Bytes × Bytes :=
  (given.header, given.name, given.value)

/-- In files that are accepted the values of the keys do not depend on the order of the
entries. -/
theorem valueOf_perm {reading : Reading} {lines lines' : List Line}
    (h : reading.Accepts lines) (h' : reading.Accepts lines')
    (hperm : ((reading.given lines).map Given.content).Perm
      ((reading.given lines').map Given.content)) (key : Key) :
    reading.valueOf lines key = reading.valueOf lines' key := by
  have hfind : ∀ {lines lines' : List Line}, reading.Accepts lines' →
      ((reading.given lines).map Given.content).Perm
        ((reading.given lines').map Given.content) →
      ∀ given, reading.firstGiven lines key = some given →
        ∃ given', reading.firstGiven lines' key = some given' ∧ given'.value = given.value := by
    intro lines lines' h' hperm given hfirst
    have hcontent : given.content ∈ (reading.given lines').map Given.content :=
      hperm.mem_iff.mp (List.mem_map_of_mem (List.mem_of_find?_eq_some hfirst))
    obtain ⟨given', hmem', heq⟩ := List.mem_map.mp hcontent
    injection heq with hheader hrest
    injection hrest with hname hvalue
    have hof := reading.firstGiven_of hfirst
    exact ⟨given', (h'.of_mem_given hmem' ⟨hheader.trans hof.1, hname.trans hof.2⟩).1, hvalue⟩
  cases hfirst : reading.firstGiven lines key with
  | some given =>
      obtain ⟨given', hfirst', hvalue⟩ := hfind h' hperm given hfirst
      rw [Reading.valueOf, Reading.valueOf, hfirst, hfirst', Option.bind_some, Option.bind_some,
        hvalue]
  | none =>
      cases hfirst' : reading.firstGiven lines' key with
      | none => rw [Reading.valueOf, Reading.valueOf, hfirst, hfirst']
      | some given' =>
          obtain ⟨given, hsome, -⟩ := hfind h hperm.symm given' hfirst'
          rw [hfirst] at hsome
          cases hsome

/-! ## Integers with a NUL -/

/-- An integer value has a NUL in it. -/
def NulInInteger (lines : List Line) : Prop :=
  ∃ given ∈ documented.given lines, ∃ key : Key, key.IsInteger ∧ given.Of key ∧
    0 ∈ given.value

theorem denotesUpToNul_of_notMem {key : Key} {value : Bytes}
    (h : key.IsInteger → 0 ∉ value) : key.denotesUpToNul value = key.denotes value := by
  rw [Key.denotesUpToNul]
  split_ifs with hinteger
  · rw [cstr_of_notMem (h hinteger)]
  · rfl

theorem notMem_of_denotes {key : Key} {value : Bytes} (hinteger : key.IsInteger)
    (h : (key.denotes value).isSome = true) : 0 ∉ value := by
  intro hmem
  have hdigits : ¬ ∀ b ∈ value, isDigit b = true := fun hall => by
    have hzero := hall 0 hmem
    cases hzero
  obtain ⟨⟨least, greatest⟩, hrange⟩ := Option.isSome_iff_exists.mp hinteger
  rw [denotes_of_range hrange, if_neg fun hvalid => hdigits hvalid.2.1] at h
  cases h

/-- Where no integer has a NUL, both ways to take a value agree. -/
theorem documented_accepts_iff (lines : List Line) :
    documented.Accepts lines ↔ upToNul.Accepts lines ∧ ¬ NulInInteger lines := by
  have hsame : ¬ NulInInteger lines → ∀ given ∈ documented.given lines, ∀ key : Key,
      given.Of key → key.denotes given.value = key.denotesUpToNul given.value := by
    intro hnul given hmem key hof
    exact (denotesUpToNul_of_notMem fun hinteger hzero =>
      hnul ⟨given, hmem, key, hinteger, hof, hzero⟩).symm
  constructor
  · intro h
    have hnul : ¬ NulInInteger lines := by
      rintro ⟨given, hmem, key, hinteger, hof, hzero⟩
      exact notMem_of_denotes hinteger (h.of_mem_given hmem hof).2 hzero
    exact ⟨h.congr (fun _ _ => rfl) (hsame hnul), hnul⟩
  · rintro ⟨h, hnul⟩
    exact h.congr (fun _ _ => rfl) fun given hmem key hof =>
      (hsame hnul given hmem key hof).symm

/-! ## The result -/

theorem faulty_eq_nil {reading : Reading} {lines : List Line} :
    reading.faulty lines = [] ↔ ∀ item ∈ withPast lines, reading.InOrder item.1 item.2 := by
  rw [Reading.faulty, List.map_eq_nil_iff, List.filter_eq_nil_iff]
  simp

theorem valueOf_linesOf (reading : Reading) (text : Bytes) (key : Key) :
    reading.valueOf (linesOf text) key =
      reading.valueOf ((getlines text).map Line.ofBytes) key := by
  rw [Reading.valueOf, Reading.firstGiven, given_linesOf]
  rfl

theorem accepts_linesOf (reading : Reading) (text : Bytes) :
    reading.Accepts (linesOf text) ↔ reading.Accepts ((getlines text).map Line.ofBytes) := by
  have hvalue := valueOf_linesOf reading text
  have hinOrder : (∀ item ∈ withPast (linesOf text), reading.InOrder item.1 item.2) ↔
      ∀ item ∈ withPast ((getlines text).map Line.ofBytes),
        reading.InOrder item.1 item.2 := by
    rw [← faulty_eq_nil, faulty_linesOf, faulty_eq_nil]
  constructor
  · intro h
    exact ⟨hinOrder.mp h.inOrder, given_linesOf reading text ▸ h.path,
      hvalue .backoffInitialMs ▸ hvalue .backoffMaxMs ▸ h.backoff⟩
  · intro h
    exact ⟨hinOrder.mpr h.inOrder, given_linesOf reading text ▸ h.path,
      (hvalue .backoffInitialMs).symm ▸ (hvalue .backoffMaxMs).symm ▸ h.backoff⟩

theorem wholeIssues_eq_nil {cfg : Config} {origin : Bytes} :
    cfg.wholeIssues origin = [] ↔
      cfg.storageDatabasePath ≠ [] ∧ cfg.retryBackoffInitialMs ≤ cfg.retryBackoffMaxMs := by
  rw [Config.wholeIssues, List.append_eq_nil_iff]
  refine and_congr ?_ ?_
  · split_ifs with h <;> simp [h]
  · split_ifs with h
    · simp [Nat.not_le.mpr h]
    · simpa using h

theorem ok_iff (text origin : Bytes) (out : Config) :
    (loadConfigFromString text origin out).ok = true ↔
      (readText text).issues = [] ∧ (readText text).cfg.wholeIssues origin = [] := by
  rw [loadConfigFromString]
  by_cases h : (readText text).issues.map (Issue.text origin) ++
      (readText text).cfg.wholeIssues origin = []
  · rw [if_neg (not_not.mpr h)]
    rw [List.append_eq_nil_iff, List.map_eq_nil_iff] at h
    exact ⟨fun _ => h, fun _ => rfl⟩
  · rw [if_pos h]
    rw [List.append_eq_nil_iff, List.map_eq_nil_iff] at h
    exact ⟨fun hfalse => Bool.noConfusion hfalse, fun hnil => absurd hnil h⟩

/-- The loader accepts what it reads as a file that is in order. -/
theorem ok_iff_asLoaded (text origin : Bytes) (out : Config) :
    (loadConfigFromString text origin out).ok = true ↔
      asLoaded.Accepts ((getlines text).map Line.ofBytes) := by
  have hvalues := (tracks_loaderAfter (getlines text)).values
  have hissues : (readText text).issues = [] ↔
      ∀ item ∈ withPast ((getlines text).map Line.ofBytes),
        asLoaded.InOrder item.1 item.2 := by
    rw [← faulty_eq_nil, ← List.map_eq_nil_iff (f := Issue.line),
      ← List.map_eq_nil_iff (f := UInt32.ofNat), ← issues_loaderAfter]
    rfl
  rw [ok_iff, hissues, wholeIssues_eq_nil]
  have hinitial : (readText text).cfg.get .backoffInitialMs = _ := hvalues .backoffInitialMs
  have hmax : (readText text).cfg.get .backoffMaxMs = _ := hvalues .backoffMaxMs
  have hpath : (readText text).cfg.get .databasePath = _ := hvalues .databasePath
  constructor
  · rintro ⟨hinOrder, hne, hle⟩
    refine ⟨hinOrder, ?_, _, _, hinitial.symm, hmax.symm, hle⟩
    cases hfirst : asLoaded.firstGiven ((getlines text).map Line.ofBytes) .databasePath with
    | none =>
        rw [Reading.valueOf, hfirst] at hpath
        injection hpath with hnil
        exact absurd hnil hne
    | some given =>
        exact ⟨given, List.mem_of_find?_eq_some hfirst, asLoaded.firstGiven_of hfirst⟩
  · intro h
    obtain ⟨initial, max, hinitial', hmax', hle⟩ := h.backoff
    refine ⟨h.inOrder, ?_, ?_⟩
    · obtain ⟨given, hmem, hof⟩ := h.path
      obtain ⟨hfirst, hvalid⟩ := h.of_mem_given hmem hof
      obtain ⟨v, hdenotes⟩ := Option.isSome_iff_exists.mp hvalid
      rw [Reading.valueOf, hfirst, Option.bind_some, hdenotes] at hpath
      intro hempty
      change (if given.value ≠ [] ∧ 0 ∉ given.value then some (Value.text given.value)
        else none) = some v at hdenotes
      split_ifs at hdenotes with hpresent
      cases hdenotes
      injection hpath with hsame
      exact hpresent.1 (hsame.symm.trans hempty)
    · rw [hinitial'] at hinitial
      rw [hmax'] at hmax
      injection hinitial with hinitial
      injection hmax with hmax
      rw [hinitial, hmax]
      exact hle

theorem ok_iff_upToNul (text origin : Bytes) (out : Config) :
    (loadConfigFromString text origin out).ok = true ↔ upToNul.Accepts (linesOf text) := by
  rw [ok_iff_asLoaded, ← accepts_linesOf, asLoaded_accepts_iff]

theorem out_of_ok {text origin : Bytes} {out : Config}
    (h : (loadConfigFromString text origin out).ok = true) :
    (loadConfigFromString text origin out).out = (readText text).cfg := by
  rw [loadConfigFromString] at h ⊢
  split_ifs at h ⊢
  rfl

theorem get_of_ok {text origin : Bytes} {out : Config}
    (h : (loadConfigFromString text origin out).ok = true) (key : Key) :
    (loadConfigFromString text origin out).out.get key =
      upToNul.valueOf (linesOf text) key := by
  have haccepts := (accepts_linesOf upToNul text).mp ((ok_iff_upToNul text origin out).mp h)
  rw [out_of_ok h, valueOf_linesOf,
    ← Reading.valueOf_congr (givenAt_of_nodup haccepts.nodup_headers) fun _ _ _ _ => rfl]
  exact (tracks_loaderAfter (getlines text)).values key

/-- What the loader promises for a text. -/
structure MeetsContract (text : Bytes) : Prop where
  /-- It accepts the documented files. -/
  accepts : ∀ origin out, (loadConfigFromString text origin out).ok = true ↔
    documented.Accepts (linesOf text)
  /-- The configuration holds the given values, and the defaults elsewhere. -/
  values : ∀ origin out, (loadConfigFromString text origin out).ok = true → ∀ key,
    (loadConfigFromString text origin out).out.get key =
      documented.valueOf (linesOf text) key
  /-- The same entries in another order give the same configuration. -/
  orderless : ∀ text' origin origin' out out',
    (loadConfigFromString text origin out).ok = true →
    (loadConfigFromString text' origin' out').ok = true →
    ((documented.given (linesOf text)).map Given.content).Perm
      ((documented.given (linesOf text')).map Given.content) →
    (loadConfigFromString text origin out).out = (loadConfigFromString text' origin' out').out
  failure : ∀ origin out, (loadConfigFromString text origin out).ok = false →
    (loadConfigFromString text origin out).out = out ∧
      (loadConfigFromString text origin out).error ≠ []

theorem joined_ne_nil {texts : List Bytes} (hne : texts ≠ []) (h : ∀ text ∈ texts, text ≠ []) :
    joined texts ≠ [] := by
  cases texts with
  | nil => exact absurd rfl hne
  | cons text rest =>
      have hfirst := h text List.mem_cons_self
      cases rest with
      | nil => exact hfirst
      | cons other rest => simp [joined, hfirst]

theorem issue_text_ne_nil (origin : Bytes) (issue : Issue) : issue.text origin ≠ [] := by
  simp [Issue.text, lit]

theorem wholeIssues_ne_nil {cfg : Config} {origin text : Bytes}
    (h : text ∈ cfg.wholeIssues origin) : text ≠ [] := by
  rw [Config.wholeIssues, List.mem_append] at h
  rcases h with h | h <;> split_ifs at h
  · rw [List.mem_singleton.mp h]
    simp [lit]
  · cases h
  · rw [List.mem_singleton.mp h]
    simp [lit]
  · cases h

theorem failure_of_not_ok {text origin : Bytes} {out : Config}
    (h : (loadConfigFromString text origin out).ok = false) :
    (loadConfigFromString text origin out).out = out ∧
      (loadConfigFromString text origin out).error ≠ [] := by
  rw [loadConfigFromString] at h ⊢
  split_ifs at h ⊢ with hissues
  refine ⟨rfl, joined_ne_nil hissues fun text hmem => ?_⟩
  rcases List.mem_append.mp hmem with hline | hwhole
  · obtain ⟨issue, -, rfl⟩ := List.mem_map.mp hline
    exact issue_text_ne_nil origin issue
  · exact wholeIssues_ne_nil hwhole

/-- The loader keeps its promise for every text, unless the text would be accepted but for a
NUL in an integer. -/
theorem meetsContract_iff (text : Bytes) :
    MeetsContract text ↔
      ¬ (upToNul.Accepts (linesOf text) ∧ NulInInteger (linesOf text)) := by
  constructor
  · rintro h ⟨haccepts, hnul⟩
    have hok := (ok_iff_upToNul text [] {}).mpr haccepts
    exact ((documented_accepts_iff _).mp ((h.accepts [] {}).mp hok)).2 hnul
  · intro h
    have hnul : upToNul.Accepts (linesOf text) → ¬ NulInInteger (linesOf text) :=
      fun haccepts hnul => h ⟨haccepts, hnul⟩
    refine ⟨fun origin out => ?_, fun origin out hok key => ?_, ?_,
      fun _ _ => failure_of_not_ok⟩
    · rw [ok_iff_upToNul, documented_accepts_iff]
      exact ⟨fun haccepts => ⟨haccepts, hnul haccepts⟩, And.left⟩
    · rw [get_of_ok hok]
      have hgiven : ∀ item ∈ withPast (linesOf text),
          upToNul.givenAt item.1 item.2 = documented.givenAt item.1 item.2 := fun _ _ => rfl
      refine Reading.valueOf_congr hgiven (fun given hmem key hof => ?_) key
      refine denotesUpToNul_of_notMem fun hinteger hzero => ?_
      exact hnul ((ok_iff_upToNul text origin out).mp hok)
        ⟨given, hmem, key, hinteger, hof, hzero⟩
    · intro text' origin origin' out out' hok hok' hperm
      refine Config.ext_get fun key => ?_
      rw [get_of_ok hok, get_of_ok hok']
      exact valueOf_perm ((ok_iff_upToNul text origin out).mp hok)
        ((ok_iff_upToNul text' origin' out').mp hok') hperm key

/-- The text after the NUL is not looked at. -/
theorem nul_in_port_is_accepted :
    ¬ MeetsContract
      (lit "[storage]\ndatabase_path = /a\n[http]\nport = 80" ++ 0 :: lit "x\n") := by
  intro h
  have hok : (loadConfigFromString
      (lit "[storage]\ndatabase_path = /a\n[http]\nport = 80" ++ 0 :: lit "x\n") [] {}).ok =
        true := by
    decide +kernel
  have hinOrder := faulty_eq_nil.mpr ((h.accepts [] {}).mp hok).inOrder
  exact absurd hinOrder (by decide +kernel)

end FileMover.Ini
