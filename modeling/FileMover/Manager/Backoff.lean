import FileMover.Model.Manager

/-!
# The waiting time

`backoff_for` doubles a 64-bit delay round by round and leaves the loop as soon as the
delay is no longer below the 32-bit ceiling. The ceiling is what keeps the doubling small,
and leaving early costs nothing: what would still be doubled is cut off anyway.
-/

namespace FileMover

/-- The loop of `backoff_for` in `std::int64_t`; there is no value if the delay
overflows. -/
def doubled64 (maxMs : UInt32) : Nat → Int → Option Int
  | 0, delay => some delay
  | rounds + 1, delay =>
      if delay < maxMs.toNat then
        if delay * 2 < 2 ^ 63 then doubled64 maxMs rounds (delay * 2) else none
      else some delay

def backoffFor64 (attempts initialMs maxMs : UInt32) : Option Int :=
  (doubled64 maxMs (attempts.toNat - 1) initialMs.toNat).map fun delay =>
    if delay > (maxMs.toNat : Int) then (maxMs.toNat : Int) else delay

/-- No overflow: only a delay below the ceiling is doubled. -/
theorem doubled64_eq (maxMs : UInt32) (rounds delay : Nat) :
    doubled64 maxMs rounds delay = some (doubled maxMs.toNat rounds delay : Int) := by
  induction rounds generalizing delay with
  | zero => rfl
  | succ rounds ih =>
      rw [doubled64, doubled]
      by_cases hbelow : delay < maxMs.toNat
      · have hmax := maxMs.toNat_lt
        have hroom : (delay : Int) * 2 < 2 ^ 63 := by omega
        have hcast : (delay : Int) * 2 = (delay * 2 : Nat) := by omega
        rw [if_pos (Int.ofNat_lt.mpr hbelow), if_pos hroom, if_pos hbelow, hcast]
        exact ih (delay * 2)
      · rw [if_neg (mt Int.ofNat_lt.mp hbelow), if_neg hbelow]

theorem backoffFor64_eq (attempts initialMs maxMs : UInt32) :
    backoffFor64 attempts initialMs maxMs =
      some (backoffFor attempts.toNat initialMs.toNat maxMs.toNat : Int) := by
  rw [backoffFor64, doubled64_eq, Option.map_some, backoffFor]
  split_ifs with habove
  · rw [min_eq_right (Int.ofNat_lt.mp habove).le]
  · rw [min_eq_left (not_lt.mp (mt Int.ofNat_lt.mpr habove))]

/-- Below the ceiling the loop makes all its rounds; a delay it leaves alone is at the
ceiling already. -/
theorem min_doubled (maxMs rounds delay : Nat) :
    min (doubled maxMs rounds delay) maxMs = min maxMs (delay * 2 ^ rounds) := by
  induction rounds generalizing delay with
  | zero =>
      rw [doubled, Nat.pow_zero, Nat.mul_one]
      exact min_comm delay maxMs
  | succ rounds ih =>
      rw [doubled]
      split_ifs with hbelow
      · rw [ih, Nat.pow_succ', Nat.mul_assoc]
      · have hle : maxMs ≤ delay := not_lt.mp hbelow
        have hgrown : delay ≤ delay * 2 ^ (rounds + 1) :=
          Nat.le_mul_of_pos_right delay (Nat.two_pow_pos _)
        rw [min_eq_right hle, min_eq_left (hle.trans hgrown)]

theorem backoffFor_eq (attempts initialMs maxMs : Nat) :
    backoffFor attempts initialMs maxMs = min maxMs (initialMs * 2 ^ (attempts - 1)) :=
  min_doubled maxMs (attempts - 1) initialMs

theorem backoffFor_mono {attempts later : Nat} (h : attempts ≤ later) (initialMs maxMs : Nat) :
    backoffFor attempts initialMs maxMs ≤ backoffFor later initialMs maxMs := by
  rw [backoffFor_eq, backoffFor_eq]
  have hpow : 2 ^ (attempts - 1) ≤ 2 ^ (later - 1) :=
    Nat.pow_le_pow_right (by decide) (by omega)
  exact min_le_min_left maxMs (Nat.mul_le_mul_left initialMs hpow)

/-- The delay is the closed form cut off at the ceiling, in whatever order the two bounds
stand; the 64-bit loop computes it without overflow, and it does not shrink from one
attempt to the next. -/
theorem backoff_exact (attempts initialMs maxMs : UInt32) :
    backoffFor64 attempts initialMs maxMs =
        some ((min maxMs.toNat (initialMs.toNat * 2 ^ (attempts.toNat - 1)) : Nat) : Int) ∧
      backoffFor attempts.toNat initialMs.toNat maxMs.toNat =
        min maxMs.toNat (initialMs.toNat * 2 ^ (attempts.toNat - 1)) ∧
      ∀ later : UInt32, attempts ≤ later →
        ∃ delay delay', backoffFor64 attempts initialMs maxMs = some delay ∧
          backoffFor64 later initialMs maxMs = some delay' ∧ delay ≤ delay' := by
  have hexact := backoffFor_eq attempts.toNat initialMs.toNat maxMs.toNat
  refine ⟨?_, hexact, ?_⟩
  · rw [backoffFor64_eq, hexact]
  · intro later hlater
    refine ⟨_, _, backoffFor64_eq _ _ _, backoffFor64_eq _ _ _, ?_⟩
    have hle := backoffFor_mono (UInt32.le_iff_toNat_le.mp hlater) initialMs.toNat maxMs.toNat
    exact Int.ofNat_le.mpr hle

example : backoffFor64 3 1000 60000 = some 4000 := by decide

end FileMover
