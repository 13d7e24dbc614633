import FileMover.Framework.Calendar
import FileMover.Framework.Numeral
import FileMover.Model.RenameTemplate

/-!
# Stamps

The stamp of a log line and the `{ts}` field of a rename template are made of the same
calendar fields. In the stamp the fields stand in the order of their weight and each has
its width, so the lines are in the order of the times.

What `gmtime_r` yields are the fields of the proleptic Gregorian calendar; that it yields
something is only asked for the years that have four digits.
-/

namespace FileMover.Log

open Framework Framework.Calendar Framework.Numeral Template

/-! ## What is expected of the C library -/

def Tm.moment (tm : Tm) : Moment :=
  ⟨⟨tm.tmYear + 1900, tm.tmMon, tm.tmMday⟩, tm.tmHour, tm.tmMin, tm.tmSec⟩

/-- The first second of 1970. -/
def epoch : Int := Moment.number ⟨⟨1970, 0, 1⟩, 0, 0, 0⟩

/-- The fields are those of the second that was asked for. -/
structure Gregorian (gmtimeR : GmtimeR) : Prop where
  fields : ∀ seconds tm, gmtimeR seconds = some tm →
    tm.moment.Valid ∧ tm.moment.number = seconds + epoch
  answers : ∀ m : Moment, m.Valid → 0 ≤ m.date.year → m.date.year ≤ 9999 →
    (gmtimeR (m.number - epoch)).isSome = true

/-- A `gmtime_r` for all times. -/
def civil : GmtimeR := fun seconds =>
  let m := Moment.ofNumber (seconds + epoch)
  some ⟨m.date.year - 1900, m.date.month, m.date.day, m.hour, m.minute, m.second⟩

theorem gregorian_civil : Gregorian civil := by
  refine ⟨?_, fun _ _ _ _ => rfl⟩
  rintro seconds tm ⟨rfl⟩
  obtain ⟨hvalid, hnumber⟩ := Moment.ofNumber_spec (seconds + epoch)
  have hmoment : ∀ m : Moment, Tm.moment ⟨m.date.year - 1900, m.date.month, m.date.day, m.hour,
      m.minute, m.second⟩ = m := by
    rintro ⟨⟨year, month, day⟩, hour, minute, second⟩
    simp [Tm.moment]
  rw [hmoment]
  exact ⟨hvalid, hnumber⟩

/-- The second that a time falls into. -/
def momentOf (ms : Int) : Moment := Moment.ofNumber (ms / 1000 + epoch)

/-- The UTC year is one of 0..9999. -/
structure FourDigits (ms : Int) : Prop where
  low : 0 ≤ (momentOf ms).date.year
  high : (momentOf ms).date.year ≤ 9999

/-! ## Numerals -/

def digit (d : Nat) : UInt8 := UInt8.ofNat (0x30 + d)

theorem ascending_digit : Ascending 10 digit := by
  have h : ∀ j < 10, ∀ i < j, digit i < digit j := by decide
  exact fun i j hij hj => h j hj i hij

theorem fixed_zero (width : Nat) : fixed 10 digit width 0 = List.replicate width 0x30 := by
  induction width with
  | zero => rfl
  | succ width ih =>
      rw [fixed, ih, List.replicate_succ']
      rfl

/-- Where the number has room, `%0*u` prints a numeral of that width. -/
theorem padded_eq {width n : Nat} (hwidth : 0 < width) (hn : n < 10 ^ width) :
    padded width n = fixed 10 digit width n := by
  induction width generalizing n with
  | zero => cases hwidth
  | succ width ih =>
      rw [padded, fixed, decimal_eq]
      split_ifs with hsmall
      · rw [Nat.div_eq_of_lt hsmall, Nat.mod_eq_of_lt hsmall, fixed_zero]
        rfl
      · have hquotient : n / 10 < 10 ^ width :=
          Nat.div_lt_of_lt_mul (by rwa [← Nat.pow_succ'])
        have hpos : 0 < width := by
          rcases Nat.eq_zero_or_pos width with rfl | hpos
          · rw [Nat.pow_zero] at hquotient
            omega
          · exact hpos
        rw [← ih hpos hquotient, padded, List.length_append, List.length_singleton,
          Nat.add_sub_add_right, List.append_assoc]
        rfl

theorem mem_fixed {width n : Nat} {b : UInt8} (h : b ∈ fixed 10 digit width n) :
    0x30 ≤ b ∧ b ≤ 0x39 := by
  have hdigit : ∀ d < 10, 0x30 ≤ digit d ∧ digit d ≤ 0x39 := by decide
  induction width generalizing n with
  | zero => cases h
  | succ width ih =>
      rcases List.mem_append.mp h with hfront | hlast
      · exact ih hfront
      · rw [List.mem_singleton.mp hlast]
        exact hdigit _ (Nat.mod_lt n (by decide))

/-! ## The text of a stamp -/

/-- From the epoch on, and at whole seconds, truncating is rounding down. -/
theorem tdiv_tmod_of_whole {ms : Int} (h : 0 ≤ ms ∨ ms % 1000 = 0) :
    ms.tdiv 1000 = ms / 1000 ∧ ms.tmod 1000 = ms % 1000 := by
  have h' : 0 ≤ ms ∨ (1000 : Int) ∣ ms := h.imp_right Int.dvd_of_emod_eq_zero
  rw [Int.tdiv_eq_ediv, Int.tmod_eq_emod, if_pos h', if_pos h']
  exact ⟨Int.add_zero _, Int.sub_zero _⟩

/-- At any other time before the epoch it is one second late. -/
theorem tdiv_tmod_of_broken {ms : Int} (h : ¬ (0 ≤ ms ∨ ms % 1000 = 0)) :
    ms.tdiv 1000 = ms / 1000 + 1 ∧ ms.tmod 1000 = ms % 1000 - 1000 := by
  have h' : ¬ (0 ≤ ms ∨ (1000 : Int) ∣ ms) := fun h' => h (h'.imp_right Int.emod_eq_zero_of_dvd)
  rw [Int.tdiv_eq_ediv, Int.tmod_eq_emod, if_neg h', if_neg h']
  exact ⟨rfl, rfl⟩

/-- The correction for negative remainders makes the division one that rounds down. -/
theorem splitMs_eq (ms : Int) : splitMs ms = (ms / 1000, ms % 1000) := by
  unfold splitMs
  dsimp only
  by_cases h : 0 ≤ ms ∨ ms % 1000 = 0
  · obtain ⟨hquotient, hremainder⟩ := tdiv_tmod_of_whole h
    rw [hquotient, hremainder, if_neg (by omega)]
  · obtain ⟨hquotient, hremainder⟩ := tdiv_tmod_of_broken h
    rw [hquotient, hremainder, if_pos (by omega), Int.add_sub_cancel, Int.sub_add_cancel]

/-- The fields of a second of a four-digit year, and a number of milliseconds. -/
def stampText (m : Moment) (milli : Nat) : Bytes :=
  fixed 10 digit 4 m.date.year.toNat ++ 0x2D :: (fixed 10 digit 2 (m.date.month + 1) ++
    0x2D :: (fixed 10 digit 2 m.date.day ++ 0x54 :: (fixed 10 digit 2 m.hour ++
      0x3A :: (fixed 10 digit 2 m.minute ++ 0x3A :: (fixed 10 digit 2 m.second ++
        0x2E :: (fixed 10 digit 3 milli ++ [0x5A]))))))

/-- The same without separators. -/
def tsText (m : Moment) (milli : Nat) : Bytes :=
  fixed 10 digit 4 m.date.year.toNat ++ (fixed 10 digit 2 (m.date.month + 1) ++
    (fixed 10 digit 2 m.date.day ++ 0x54 :: (fixed 10 digit 2 m.hour ++
      (fixed 10 digit 2 m.minute ++ (fixed 10 digit 2 m.second ++
        0x2E :: fixed 10 digit 3 milli)))))

theorem daysIn_le (leap : Bool) (month : Nat) : daysIn leap month ≤ 31 := by
  unfold daysIn
  split
  · cases leap <;> decide
  all_goals decide

section
variable {gmtimeR : GmtimeR} {ms : Int}

theorem momentOf_spec (ms : Int) :
    (momentOf ms).Valid ∧ (momentOf ms).number = ms / 1000 + epoch :=
  Moment.ofNumber_spec (ms / 1000 + epoch)

/-- For a four-digit year `gmtime_r` yields the fields of the calendar. -/
theorem Gregorian.answer (gregorian : Gregorian gmtimeR) (year : FourDigits ms) :
    ∃ tm, gmtimeR (ms / 1000) = some tm ∧ tm.moment = momentOf ms := by
  obtain ⟨hvalid, hnumber⟩ := momentOf_spec ms
  have hsome := gregorian.answers (momentOf ms) hvalid year.low year.high
  rw [hnumber, Int.add_sub_cancel] at hsome
  obtain ⟨tm, htm⟩ := Option.isSome_iff_exists.mp hsome
  obtain ⟨htmvalid, htmnumber⟩ := gregorian.fields _ tm htm
  exact ⟨tm, htm, Moment.number_injective htmvalid hvalid (htmnumber.trans hnumber.symm)⟩

theorem signedPadded_eq {width : Nat} {n : Int} (hwidth : 0 < width) (hn : 0 ≤ n)
    (hroom : n.toNat < 10 ^ width) : signedPadded width n = fixed 10 digit width n.toNat := by
  rw [signedPadded, if_neg (not_lt.mpr hn), show n.natAbs = n.toNat by omega]
  exact padded_eq hwidth hroom

/-- The fields as they are printed. -/
theorem padded_fields {tm : Tm} {m : Moment} (hm : tm.moment = m) (hvalid : m.Valid)
    (hlow : 0 ≤ m.date.year) (hhigh : m.date.year ≤ 9999) :
    signedPadded 4 (tm.tmYear + 1900) = fixed 10 digit 4 m.date.year.toNat ∧
      padded 2 (tm.tmMon + 1) = fixed 10 digit 2 (m.date.month + 1) ∧
      padded 2 tm.tmMday = fixed 10 digit 2 m.date.day ∧
      padded 2 tm.tmHour = fixed 10 digit 2 m.hour ∧
      padded 2 tm.tmMin = fixed 10 digit 2 m.minute ∧
      padded 2 tm.tmSec = fixed 10 digit 2 m.second := by
  subst hm
  have hday := hvalid.date.last.trans (daysIn_le _ _)
  have hmonth := hvalid.date.month
  have hhour := hvalid.hour
  have hminute := hvalid.minute
  have hsecond := hvalid.second
  simp only [Tm.moment] at *
  refine ⟨signedPadded_eq (by decide) hlow (by omega), ?_, ?_, ?_, ?_, ?_⟩
  all_goals exact padded_eq (by decide) (by omega)

theorem stamp_eq (gregorian : Gregorian gmtimeR) (year : FourDigits ms) :
    stamp gmtimeR ms = stampText (momentOf ms) (ms % 1000).toNat := by
  obtain ⟨tm, htm, hmoment⟩ := gregorian.answer year
  obtain ⟨hyear, hmonth, hday, hhour, hminute, hsecond⟩ :=
    padded_fields hmoment (momentOf_spec ms).1 year.low year.high
  have hmilli : signedPadded 3 (ms % 1000) = fixed 10 digit 3 (ms % 1000).toNat :=
    signedPadded_eq (by decide) (by omega) (by omega)
  rw [stamp, splitMs_eq]
  dsimp only
  rw [htm]
  dsimp only
  rw [hyear, hmonth, hday, hhour, hminute, hsecond, hmilli]
  simp only [List.append_assoc]
  rfl

theorem length_stampText (m : Moment) (milli : Nat) : (stampText m milli).length = 24 := by
  simp [stampText, length_fixed]

/-! ## The stamp and the field -/

/-- A stamp without the dashes of the date, the colons of the time and the final `Z`. -/
def unpunctuated (stamp : Bytes) : Bytes :=
  stamp.filter fun b => b ≠ 0x2D ∧ b ≠ 0x3A ∧ b ≠ 0x5A

/-- `YYYYMMDDThhmmss.mmm`. -/
def TsShape (ts : Bytes) : Prop :=
  ∃ date time milli : Bytes, ts = date ++ 0x54 :: time ++ 0x2E :: milli ∧
    date.length = 8 ∧ time.length = 6 ∧ milli.length = 3 ∧
    ∀ b ∈ date ++ time ++ milli, isDigit b = true

theorem TsShape.length {ts : Bytes} (h : TsShape ts) : ts.length = 19 := by
  obtain ⟨date, time, milli, rfl, hdate, htime, hmilli, -⟩ := h
  simp [hdate, htime, hmilli]

theorem filter_fixed (width n : Nat) :
    (fixed 10 digit width n).filter (fun b => b ≠ 0x2D ∧ b ≠ 0x3A ∧ b ≠ 0x5A) =
      fixed 10 digit width n := by
  rw [List.filter_eq_self]
  intro b hb
  obtain ⟨hlow, hhigh⟩ := mem_fixed hb
  refine decide_eq_true ⟨?_, ?_, ?_⟩
  · rintro rfl
    exact absurd hlow (by decide)
  · rintro rfl
    exact absurd hhigh (by decide)
  · rintro rfl
    exact absurd hhigh (by decide)

theorem unpunctuated_stampText (m : Moment) (milli : Nat) :
    unpunctuated (stampText m milli) = tsText m milli := by
  simp only [unpunctuated, stampText, tsText, List.filter_append, List.filter_cons, filter_fixed]
  simp

theorem tsShape_tsText (m : Moment) (milli : Nat) : TsShape (tsText m milli) := by
  refine ⟨fixed 10 digit 4 m.date.year.toNat ++ (fixed 10 digit 2 (m.date.month + 1) ++
    fixed 10 digit 2 m.date.day), fixed 10 digit 2 m.hour ++ (fixed 10 digit 2 m.minute ++
    fixed 10 digit 2 m.second), fixed 10 digit 3 milli, ?_, ?_, ?_, ?_, ?_⟩
  · simp [tsText]
  · simp [length_fixed]
  · simp [length_fixed]
  · exact length_fixed 3 milli
  · intro b hb
    have hdigit : 0x30 ≤ b ∧ b ≤ 0x39 := by
      simp only [List.mem_append] at hb
      rcases hb with ((hb | hb | hb) | hb | hb | hb) | hb
      all_goals exact mem_fixed hb
    exact Bool.and_eq_true_iff.mpr ⟨decide_eq_true hdigit.1, decide_eq_true hdigit.2⟩

/-- Where truncating is rounding down, the field has the fields of the stamp. -/
theorem formatTs_eq (gregorian : Gregorian gmtimeR) (year : FourDigits ms)
    (whole : 0 ≤ ms ∨ ms % 1000 = 0) :
    formatTs gmtimeR ms = tsText (momentOf ms) (ms % 1000).toNat := by
  obtain ⟨tm, htm, hmoment⟩ := gregorian.answer year
  obtain ⟨hyear, hmonth, hday, hhour, hminute, hsecond⟩ :=
    padded_fields hmoment (momentOf_spec ms).1 year.low year.high
  have hmilli : signedPadded 3 (ms % 1000) = fixed 10 digit 3 (ms % 1000).toNat :=
    signedPadded_eq (by decide) (by omega) (by omega)
  obtain ⟨hquotient, hremainder⟩ := tdiv_tmod_of_whole whole
  rw [formatTs, hquotient, htm, hremainder]
  dsimp only
  rw [hyear, hmonth, hday, hhour, hminute, hsecond, hmilli]
  simp only [List.append_assoc]
  rfl

/-- Elsewhere there is a minus sign in it. -/
theorem dash_mem_formatTs (broken : ¬ (0 ≤ ms ∨ ms % 1000 = 0)) :
    0x2D ∈ formatTs gmtimeR ms := by
  obtain ⟨-, hremainder⟩ := tdiv_tmod_of_broken broken
  unfold formatTs
  split
  · decide
  · have hsign : signedPadded 3 (ms.tmod 1000) =
        0x2D :: padded 2 (ms.tmod 1000).natAbs := by
      rw [signedPadded, if_pos (by omega)]
    rw [hsign]
    simp

theorem take_formatEvent (gregorian : Gregorian gmtimeR) {event : Event}
    (year : FourDigits event.timestampMs) :
    (formatEvent gmtimeR event).take 24 = stamp gmtimeR event.timestampMs := by
  have hlength : (stamp gmtimeR event.timestampMs).length = 24 := by
    rw [stamp_eq gregorian year, length_stampText]
  simp only [formatEvent, List.append_assoc]
  rw [← hlength, List.take_left]

/-- The `{ts}` field is the stamp of the same time without its separators, and has its
shape, exactly for the times from the epoch on and the whole seconds before it. -/
theorem ts_matches_stamp_iff (gregorian : Gregorian gmtimeR) (event : Event)
    (year : FourDigits event.timestampMs) :
    (formatTs gmtimeR event.timestampMs = unpunctuated ((formatEvent gmtimeR event).take 24) ∧
        TsShape (formatTs gmtimeR event.timestampMs) ∧
        (formatTs gmtimeR event.timestampMs).length = 19) ↔
      0 ≤ event.timestampMs ∨ event.timestampMs % 1000 = 0 := by
  rw [take_formatEvent gregorian year, stamp_eq gregorian year, unpunctuated_stampText]
  constructor
  · rintro ⟨-, hshape, -⟩
    by_contra broken
    obtain ⟨date, time, milli, hts, -, -, -, hdigits⟩ := hshape
    have hdash : 0x2D ∈ date ++ 0x54 :: time ++ 0x2E :: milli :=
      hts ▸ dash_mem_formatTs broken
    have hmem : (0x2D : UInt8) ∈ date ++ time ++ milli := by
      simp only [List.mem_append, List.mem_cons] at hdash ⊢
      simpa using hdash
    exact absurd (hdigits _ hmem) (by decide)
  · intro whole
    have hts := formatTs_eq gregorian year whole
    have hshape : TsShape (formatTs gmtimeR event.timestampMs) := hts ▸ tsShape_tsText _ _
    exact ⟨hts, hshape, hshape.length⟩

end

instance (ms : Int) : Decidable (FourDigits ms) :=
  decidable_of_iff (0 ≤ (momentOf ms).date.year ∧ (momentOf ms).date.year ≤ 9999)
    ⟨fun h => ⟨h.1, h.2⟩, fun h => ⟨h.low, h.high⟩⟩

/-- A job that starts at the given time. -/
def started (ms : Int) : Event := ⟨.jobStarted, .info, ms, lit "job-1", [], []⟩

theorem ts_matches_stamp_iff_sample :
    formatTs civil 1754634800123 = lit "20250808T063320.123" ∧
      formatTs civil 1754634800123 =
        unpunctuated ((formatEvent civil (started 1754634800123)).take 24) := by
  refine ⟨by decide +kernel, ?_⟩
  exact ((ts_matches_stamp_iff gregorian_civil (started 1754634800123) (by decide +kernel)).mpr
    (.inl (by decide))).1

/-- One millisecond before the epoch. -/
theorem ts_before_epoch :
    Gregorian civil ∧ FourDigits (-1) ∧
      (formatEvent civil (started (-1))).take 24 = lit "1969-12-31T23:59:59.999Z" ∧
      formatTs civil (-1) = lit "19700101T000000.-01" ∧
      formatTs civil (-1) ≠ unpunctuated ((formatEvent civil (started (-1))).take 24) :=
  ⟨gregorian_civil, by decide +kernel, by decide +kernel, by decide +kernel, by decide +kernel⟩

section
variable {gmtimeR : GmtimeR} {ms : Int}

/-! ## Order -/

/-- Later seconds, and later milliseconds of one second, have greater stamps. -/
theorem stampText_lt {m m' : Moment} {milli milli' : Nat} (hm : m'.Valid)
    (hlow : 0 ≤ m.date.year) (hhigh : m'.date.year ≤ 9999) (hmilli : milli' < 1000)
    (h : m.Before m' ∨ m = m' ∧ milli < milli') :
    stampText m milli < stampText m' milli' := by
  have hday := hm.date.last.trans (daysIn_le _ _)
  have hmonth := hm.date.month
  have hhour := hm.hour
  have hminute := hm.minute
  have hsecond := hm.second
  obtain ⟨⟨y, mo, d⟩, hh, mi, s⟩ := m
  obtain ⟨⟨y', mo', d'⟩, hh', mi', s'⟩ := m'
  dsimp only at hday hmonth hhour hminute hsecond hlow hhigh
  have hfields : y < y' ∨ y = y' ∧ (mo < mo' ∨ mo = mo' ∧ (d < d' ∨ d = d' ∧ (hh < hh' ∨
      hh = hh' ∧ (mi < mi' ∨ mi = mi' ∧ (s < s' ∨ s = s' ∧ milli < milli'))))) := by
    simp only [Moment.Before, Date.Before, Date.mk.injEq, Moment.mk.injEq] at h
    omega
  unfold stampText
  dsimp only
  -- the first field that differs decides
  refine fixed_separated_lt ascending_digit _ (by omega) ?_
  refine hfields.imp (fun hlt => by omega) (And.imp (congrArg Int.toNat) fun hfields => ?_)
  refine fixed_separated_lt ascending_digit _ (by omega) ?_
  refine hfields.imp Nat.succ_lt_succ (And.imp (congrArg Nat.succ) fun hfields => ?_)
  refine fixed_separated_lt ascending_digit _ (by omega) ?_
  refine hfields.imp id (And.imp_right fun h => ?_)
  refine fixed_separated_lt ascending_digit _ (by omega) (h.imp id (And.imp_right fun h => ?_))
  refine fixed_separated_lt ascending_digit _ (by omega) (h.imp id (And.imp_right fun h => ?_))
  refine fixed_separated_lt ascending_digit _ (by omega) (h.imp id (And.imp_right fun h => ?_))
  exact fixed_append_lt ascending_digit (by omega) (.inl h)

theorem stamp_lt (gregorian : Gregorian gmtimeR) {ms' : Int} (year : FourDigits ms)
    (year' : FourDigits ms') (h : ms < ms') : stamp gmtimeR ms < stamp gmtimeR ms' := by
  obtain ⟨hvalid, hnumber⟩ := momentOf_spec ms
  obtain ⟨hvalid', hnumber'⟩ := momentOf_spec ms'
  rw [stamp_eq gregorian year, stamp_eq gregorian year']
  refine stampText_lt hvalid' year.low year'.high (by omega) ?_
  rcases lt_or_eq_of_le (Int.ediv_le_ediv (by decide) h.le : ms / 1000 ≤ ms' / 1000) with hlt | heq
  · exact .inl (Moment.before_of_number_lt hvalid hvalid' (by omega))
  · have hsame : momentOf ms = momentOf ms' :=
      Moment.number_injective hvalid hvalid' (by omega)
    exact .inr ⟨hsame, by omega⟩

theorem stamp_injective (gregorian : Gregorian gmtimeR) {ms' : Int} (year : FourDigits ms)
    (year' : FourDigits ms') (h : stamp gmtimeR ms = stamp gmtimeR ms') : ms = ms' := by
  rcases lt_trichotomy ms ms' with hlt | heq | hgt
  · have hstamp := stamp_lt gregorian year year' hlt
    rw [h] at hstamp
    exact absurd hstamp (List.lt_irrefl _)
  · exact heq
  · have hstamp := stamp_lt gregorian year' year hgt
    rw [h] at hstamp
    exact absurd hstamp (List.lt_irrefl _)

/-- The line of an earlier event is the smaller one, whatever the events are, and equal
stamps are those of equal times. -/
theorem log_lines_in_order (gregorian : Gregorian gmtimeR) (event event' : Event)
    (year : FourDigits event.timestampMs) (year' : FourDigits event'.timestampMs) :
    (event.timestampMs < event'.timestampMs →
        formatEvent gmtimeR event < formatEvent gmtimeR event') ∧
      ((formatEvent gmtimeR event).take 24 = (formatEvent gmtimeR event').take 24 →
        event.timestampMs = event'.timestampMs) := by
  constructor
  · intro h
    simp only [formatEvent, List.append_assoc]
    refine append_lt_of_lt ?_ (stamp_lt gregorian year year' h) _ _
    rw [stamp_eq gregorian year, stamp_eq gregorian year', length_stampText, length_stampText]
  · intro h
    rw [take_formatEvent gregorian year, take_formatEvent gregorian year'] at h
    exact stamp_injective gregorian year year' h

end

/-- Across the epoch. -/
theorem log_lines_in_order_sample :
    formatEvent civil (started (-1)) < formatEvent civil (started 0) :=
  (log_lines_in_order gregorian_civil (started (-1)) (started 0) (by decide +kernel)
    (by decide +kernel)).1 (by decide)

end FileMover.Log
