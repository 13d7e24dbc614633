import FileMover.Ini.Loading

/-!
# Which lines are reported

A header that is repeated is reported, but the loop stays in the section before it, so the
entries behind it are judged by another section than the one they stand in.
-/

namespace FileMover.Ini

open Framework

namespace Reading

variable (reading : Reading)

theorem line_le_of_mem_given {lines : List Line} {given : Given}
    (h : given ∈ reading.given lines) : given.line ≤ lines.length := by
  obtain ⟨⟨past, line⟩, hmem, hgiven⟩ := List.mem_filterMap.mp h
  have hlength := length_lt_of_mem_withPast hmem
  cases line with
  | entry name value =>
      obtain ⟨header, -, rfl⟩ := Option.map_eq_some_iff.mp hgiven
      exact hlength
  | _ => cases hgiven

theorem givenAt_line {past : List Line} {line : Line} {given : Given}
    (h : reading.givenAt past line = some given) :
    given.line = past.length + 1 ∧ line = .entry given.name given.value := by
  cases line with
  | entry name value =>
      obtain ⟨header, -, rfl⟩ := Option.map_eq_some_iff.mp h
      exact ⟨rfl, rfl⟩
  | _ => cases h

/-- What is given later stands on a later line. -/
theorem given_append (past rest : List Line) :
    ∃ later, reading.given (past ++ rest) = reading.given past ++ later ∧
      ∀ given ∈ later, past.length < given.line := by
  induction rest using List.reverseRecOn with
  | nil => exact ⟨[], by rw [List.append_nil, List.append_nil], nofun⟩
  | append_singleton rest line ih =>
      obtain ⟨later, hgiven, hlater⟩ := ih
      refine ⟨later ++ (reading.givenAt (past ++ rest) line).toList, ?_, ?_⟩
      · rw [← List.append_assoc, given_concat, hgiven, List.append_assoc]
      · intro given hmem
        rcases List.mem_append.mp hmem with hearlier | hlast
        · exact hlater given hearlier
        · rw [Option.mem_toList] at hlast
          rw [(reading.givenAt_line hlast).1, List.length_append]
          omega

/-- The first line that gives a key, seen from the whole file. -/
theorem firstGiven_eq_some {lines past : List Line} {line : Line} {given : Given} {key : Key}
    (hmem : (past, line) ∈ withPast lines) (hgiven : reading.givenAt past line = some given)
    (hof : given.Of key) (hnone : reading.firstGiven past key = none) :
    reading.firstGiven lines key = some given := by
  obtain ⟨rest, rfl⟩ := mem_withPast.mp hmem
  obtain ⟨later, hlater, -⟩ := reading.given_append (past ++ [line]) rest
  have hfilter : (some given).filter (fun given => decide (given.Of key)) = some given :=
    Option.filter_some_pos (decide_eq_true hof)
  rw [firstGiven, List.append_cons, hlater, List.find?_append, ← firstGiven, firstGiven_concat,
    hnone, hgiven, Option.none_or, hfilter]
  rfl

/-- The line on which a key has its value, if that is valid. -/
def validLine (lines : List Line) (key : Key) : Option Nat :=
  ((reading.firstGiven lines key).filter fun given =>
    (reading.denotes key given.value).isSome).map Given.line

/-- It is the line that is in order and has the name of the key. -/
theorem validLine_eq_some {lines : List Line} {key : Key} {n : Nat} :
    reading.validLine lines key = some n ↔
      ∃ past value, (past, .entry key.name value) ∈ withPast lines ∧ n = past.length + 1 ∧
        reading.InOrder past (.entry key.name value) := by
  constructor
  · intro h
    obtain ⟨given, hfilter, rfl⟩ := Option.map_eq_some_iff.mp h
    obtain ⟨hfirst, hvalid⟩ := Option.filter_eq_some_iff.mp hfilter
    have hof := reading.firstGiven_of hfirst
    obtain ⟨⟨past, line⟩, hmem, hgiven⟩ :=
      List.mem_filterMap.mp (List.mem_of_find?_eq_some hfirst)
    change reading.givenAt past line = some given at hgiven
    obtain ⟨hline, hentry⟩ := reading.givenAt_line hgiven
    rw [hof.2] at hentry
    refine ⟨past, given.value, hentry ▸ hmem, hline, ?_⟩
    rw [inOrder_entry]
    refine ⟨given, key, hentry ▸ hgiven, hof, ?_, hvalid⟩
    obtain ⟨rest, rfl⟩ := mem_withPast.mp hmem
    obtain ⟨later, hlater, -⟩ := reading.given_append past (line :: rest)
    cases hearlier : reading.firstGiven past key with
    | none => rfl
    | some earlier =>
        have hsame : reading.firstGiven (past ++ line :: rest) key = some earlier := by
          rw [firstGiven, hlater, List.find?_append, ← firstGiven, hearlier]
          rfl
        rw [hfirst] at hsame
        cases hsame
        have hle := reading.line_le_of_mem_given (List.mem_of_find?_eq_some hearlier)
        omega
  · rintro ⟨past, value, hmem, rfl, hin⟩
    obtain ⟨given, other, hgiven, hof, hnone, hvalid⟩ := reading.inOrder_entry.mp hin
    obtain ⟨hline, hentry⟩ := reading.givenAt_line hgiven
    injection hentry with hname hvalue
    have hname' : ∀ key key' : Key, key.name = key'.name → key = key' := by decide
    obtain rfl : key = other := hname' key other (hname.trans hof.2)
    have hfirst := reading.firstGiven_eq_some hmem hgiven hof hnone
    rw [validLine, hfirst, Option.filter_some_pos (by rwa [← hvalue])]
    exact congrArg some hline

end Reading

/-- Two readings judge every line alike if they take the value of each key from the same
line. -/
theorem inOrder_alike_iff {reading reading' : Reading} {lines : List Line} :
    (∀ item ∈ withPast lines,
      (reading.InOrder item.1 item.2 ↔ reading'.InOrder item.1 item.2)) ↔
      ∀ key, reading.validLine lines key = reading'.validLine lines key := by
  constructor
  · intro h key
    refine Option.ext fun n => ?_
    rw [Reading.validLine_eq_some, Reading.validLine_eq_some]
    constructor
    · rintro ⟨past, value, hmem, hn, hin⟩
      exact ⟨past, value, hmem, hn, (h _ hmem).mp hin⟩
    · rintro ⟨past, value, hmem, hn, hin⟩
      exact ⟨past, value, hmem, hn, (h _ hmem).mpr hin⟩
  · have himp : ∀ {reading reading' : Reading},
        (∀ key, reading.validLine lines key = reading'.validLine lines key) →
        ∀ item ∈ withPast lines, reading.InOrder item.1 item.2 →
          reading'.InOrder item.1 item.2 := by
      rintro reading reading' h ⟨past, line⟩ hmem hin
      cases line with
      | entry name value =>
          obtain ⟨key, -, rfl, -⟩ := id hin
          have hvalid := reading.validLine_eq_some.mpr ⟨past, value, hmem, rfl, hin⟩
          rw [h key] at hvalid
          obtain ⟨past', value', hmem', hlength, hin'⟩ := reading'.validLine_eq_some.mp hvalid
          obtain ⟨rfl, hline⟩ := eq_of_length_eq hmem hmem' (Nat.succ.inj hlength)
          rwa [hline]
      | _ => exact hin
    exact fun h item hmem => ⟨himp h item hmem, himp (fun key => (h key).symm) item hmem⟩

/-! ## Blank lines at the end -/

theorem given_skip (reading : Reading) (lines : List Line) :
    reading.given (lines ++ [.skip]) = reading.given lines := by
  rw [Reading.given_concat]
  exact List.append_nil _

theorem faulty_skip (reading : Reading) (lines : List Line) :
    reading.faulty (lines ++ [.skip]) = reading.faulty lines := by
  rw [Reading.faulty, withPast_concat, List.filter_append,
    List.filter_cons_of_neg (by simp [Reading.InOrder])]
  simp [Reading.faulty]

theorem faulty_linesOf (reading : Reading) (text : Bytes) :
    reading.faulty (linesOf text) = reading.faulty ((getlines text).map Line.ofBytes) := by
  rcases linesOf_eq text with h | h
  · rw [h]
  · rw [h, faulty_skip]

theorem given_linesOf (reading : Reading) (text : Bytes) :
    reading.given (linesOf text) = reading.given ((getlines text).map Line.ofBytes) := by
  rcases linesOf_eq text with h | h
  · rw [h]
  · rw [h, given_skip]

theorem validLine_linesOf (reading : Reading) (text : Bytes) (key : Key) :
    reading.validLine (linesOf text) key =
      reading.validLine ((getlines text).map Line.ofBytes) key := by
  rw [Reading.validLine, Reading.firstGiven, given_linesOf]
  rfl

/-! ## The issues of a text -/

/-- The issues with a line number are those of the faulty lines, one for each and with its
number, and no other line is reported. -/
def ReportsFaults (text : Bytes) : Prop :=
  (readText text).issues.map (fun issue => issue.line.toNat) =
    documented.faulty (linesOf text) ∧
  ∀ past raw, (past, raw) ∈ withPast (getlines text) →
    ((loaderAfter (past ++ [raw])).issues ≠ (loaderAfter past).issues ↔
      ¬ documented.InOrder (past.map Line.ofBytes) (Line.ofBytes raw))

theorem reported_iff (past : List Bytes) (raw : Bytes) :
    (loaderAfter (past ++ [raw])).issues ≠ (loaderAfter past).issues ↔
      ¬ asLoaded.InOrder (past.map Line.ofBytes) (Line.ofBytes raw) := by
  obtain ⟨hsame, hmore⟩ := notes_loaderAfter past raw
  constructor
  · exact fun hne hin => hne (hsame hin)
  · intro hnot heq
    obtain ⟨message, hissues⟩ := hmore hnot
    rw [hissues] at heq
    simp at heq

theorem alike_iff (raws : List Bytes) :
    (∀ past raw, (past, raw) ∈ withPast raws →
      (asLoaded.InOrder (past.map Line.ofBytes) (Line.ofBytes raw) ↔
        documented.InOrder (past.map Line.ofBytes) (Line.ofBytes raw))) ↔
      ∀ item ∈ withPast (raws.map Line.ofBytes),
        (asLoaded.InOrder item.1 item.2 ↔ documented.InOrder item.1 item.2) := by
  constructor
  · rintro h ⟨past, line⟩ hmem
    obtain ⟨rest, heq⟩ := mem_withPast.mp hmem
    obtain ⟨pastRaws, restRaws, rfl, rfl, htail⟩ := List.map_eq_append_iff.mp heq
    obtain ⟨raw, laterRaws, rfl, rfl, -⟩ := List.map_eq_cons_iff.mp htail
    exact h pastRaws raw (mem_withPast.mpr ⟨laterRaws, rfl⟩)
  · intro h past raw hmem
    obtain ⟨rest, rfl⟩ := mem_withPast.mp hmem
    exact h (past.map Line.ofBytes, Line.ofBytes raw)
      (mem_withPast.mpr ⟨rest.map Line.ofBytes, by rw [List.map_append, List.map_cons]⟩)

theorem faulty_congr {reading reading' : Reading} {lines : List Line}
    (h : ∀ item ∈ withPast lines,
      (reading.InOrder item.1 item.2 ↔ reading'.InOrder item.1 item.2)) :
    reading.faulty lines = reading'.faulty lines := by
  rw [Reading.faulty, Reading.faulty]
  congr 1
  exact List.filter_congr fun item hitem => by simp [h item hitem]

/-- The faulty lines are reported, and no others, exactly if each key has its valid value,
if any, on the same line whether a repeated header counts or not and whether an integer
ends at its first NUL or not, and the numbers of the faulty lines fit the counter. -/
theorem reportsFaults_iff (text : Bytes) :
    ReportsFaults text ↔
      (∀ key, asLoaded.validLine (linesOf text) key =
        documented.validLine (linesOf text) key) ∧
      ∀ n ∈ documented.faulty (linesOf text), n < 2 ^ 32 := by
  have hissues : (readText text).issues.map (fun issue => issue.line.toNat) =
      (asLoaded.faulty (linesOf text)).map fun n => n % 2 ^ 32 := by
    have h := congrArg (List.map UInt32.toNat) (issues_loaderAfter (getlines text))
    rw [List.map_map, List.map_map, ← faulty_linesOf] at h
    exact h
  have halike : (∀ past raw, (past, raw) ∈ withPast (getlines text) →
      ((loaderAfter (past ++ [raw])).issues ≠ (loaderAfter past).issues ↔
        ¬ documented.InOrder (past.map Line.ofBytes) (Line.ofBytes raw))) ↔
      ∀ key, asLoaded.validLine (linesOf text) key =
        documented.validLine (linesOf text) key := by
    simp only [reported_iff, not_iff_not, validLine_linesOf]
    rw [alike_iff, inOrder_alike_iff]
  rw [ReportsFaults, halike, hissues, and_comm]
  refine and_congr_right fun hvalid => ?_
  have hsame : asLoaded.faulty (linesOf text) = documented.faulty (linesOf text) :=
    faulty_congr (inOrder_alike_iff.mpr hvalid)
  rw [hsame]
  constructor
  · intro h n hn
    rw [← h] at hn
    obtain ⟨m, -, rfl⟩ := List.mem_map.mp hn
    exact Nat.mod_lt _ (by decide)
  · intro h
    exact (List.map_congr_left fun n hn => Nat.mod_eq_of_lt (h n hn)).trans (List.map_id _)

/-- The port stands under its own header, but the loop is still in the section before. -/
theorem repeated_header_misreports :
    ¬ ReportsFaults (lit "[http]\n[jobs]\n[http]\nport = 80\n") := by
  intro h
  exact absurd h.1 (by decide +kernel)

end FileMover.Ini
