import FileMover.Http.Segments
import Mathlib.Logic.Function.Iterate

/-!
# How much a connection reads

The head loop asks for more only while what has arrived is within the limit of the
head, so it overshoots by one chunk at most. From then on the bytes still missing are
known: they are what the body loop counts down, and no call asks for more than that.
-/

namespace FileMover.Http

variable {options : ServiceOptions}

namespace Serving

/-- What a phase says of the bytes read so far. -/
def Within (options : ServiceOptions) (bytesRead : Nat) : Phase → Prop
  | .head _ => bytesRead ≤ options.maxHeadBytes + 2048
  | .body out declared remaining =>
      declared ≤ options.maxBodyBytes ∧ bytesRead + remaining = out.headLen + declared
  | .over (.bodyShort _ headLen declared) | .over (.routed _ headLen declared) =>
      declared ≤ options.maxBodyBytes ∧
        bytesRead ≤ max (options.maxHeadBytes + 2048) (headLen + declared)
  | .over _ => bytesRead ≤ options.maxHeadBytes + 2048

structure Bounded (options : ServiceOptions) (c : Serving) : Prop where
  counted : c.bytesRead = c.buffer.length
  within : Within options c.bytesRead c.phase
  /-- After the head no call asks for more than is missing. -/
  asked : ∀ ask ∈ c.asked, ∀ missing, ask.missing = some missing → ask.capacity ≤ missing
  /-- No unsigned subtraction has gone below zero. -/
  exact : ∀ p ∈ c.subtractions, p.2 ≤ p.1

/-! ## One round -/

theorem contentLengthFor_le {request : Request} {maxBody declared : Nat}
    (h : contentLengthFor request maxBody = .ok declared) : declared ≤ maxBody := by
  revert h
  rw [contentLengthFor]
  split
  · nofun
  · split
    · intro h
      cases h
      omega
    · split
      · nofun
      · split
        · nofun
        · split
          · nofun
          · intro h
            cases h
            omega

theorem Bounded.ends {c : Serving} (h : Bounded options c) {ending : Ending}
    (hwithin : Within options c.bytesRead (.over ending)) : Bounded options (c.ends ending) :=
  ⟨h.counted, hwithin, h.asked, h.exact⟩

theorem Bounded.subtract {c : Serving} (h : Bounded options c) {a b : Nat} (hle : b ≤ a) :
    Bounded options (c.subtract a b) := by
  refine ⟨h.counted, h.within, h.asked, ?_⟩
  intro p hp
  rcases List.mem_cons.mp hp with rfl | hp
  · exact hle
  · exact h.exact p hp

theorem Bounded.ask {c : Serving} (h : Bounded options c) {missing : Option Nat} {capacity : Nat}
    (hle : ∀ left, missing = some left → capacity ≤ left) :
    Bounded options (c.ask missing capacity) := by
  refine ⟨h.counted, h.within, ?_, h.exact⟩
  intro ask hmem
  rcases List.mem_cons.mp hmem with rfl | hmem
  · exact hle
  · exact h.asked ask hmem

theorem Bounded.receive {c : Serving} (h : Bounded options c) {chunk : Bytes} {wire : Wire}
    {phase : Phase} (hwithin : Within options (c.bytesRead + chunk.length) phase) :
    Bounded options { c.receive chunk wire with phase := phase } := by
  refine ⟨?_, hwithin, h.asked, h.exact⟩
  show c.bytesRead + chunk.length = (c.buffer ++ chunk).length
  rw [List.length_append, h.counted]

theorem Bounded.declare {c : Serving} (h : Bounded options c) {out : HeadOut}
    (hhead : out.headLen ≤ c.buffer.length) (hread : c.bytesRead ≤ options.maxHeadBytes + 2048) :
    Bounded options (c.declare options out) := by
  rw [Serving.declare]
  split
  · exact h.ends hread
  · rename_i declared hdeclared
    have hsub : Bounded options (c.subtract c.buffer.length out.headLen) := h.subtract hhead
    dsimp only
    split
    · exact hsub.ends hread
    · rename_i hfew
      have hfew := Nat.le_of_not_lt hfew
      have hboth := hsub.subtract hfew
      refine ⟨h.counted, ⟨contentLengthFor_le hdeclared, ?_⟩, h.asked, hboth.exact⟩
      show c.bytesRead + (declared - (c.buffer.length - out.headLen)) = _
      rw [h.counted]
      omega

theorem Bounded.headRound {c : Serving} (h : Bounded options c) {out : HeadOut}
    (hread : c.bytesRead ≤ options.maxHeadBytes + 2048) :
    Bounded options (c.headRound options out) := by
  rw [Serving.headRound]
  split
  · rename_i out' hok
    obtain ⟨stop, hstop, hlen, -⟩ := parseRequestHead_ok hok
    refine h.declare ?_ hread
    rw [hlen]
    exact hstop.length_le
  · exact h.ends hread
  · exact h.ends hread
  · rename_i out' hmore
    have hasked : Bounded options (c.ask none 2048) := h.ask (by simp)
    dsimp only
    split
    · exact hasked.ends hread
    · rename_i chunk wire hchunk
      obtain ⟨-, -, hle⟩ := readSome_eq_some hchunk
      refine hasked.receive ?_
      -- the parser asks for more only below the limit
      have hsmall : c.buffer.length ≤ options.maxHeadBytes := by
        revert hmore
        rw [parseRequestHead]
        split
        · split
          · rintro ⟨⟩
          · intro _
            omega
        · split
          · rintro ⟨⟩
          · split <;> rintro ⟨⟩
      show c.bytesRead + chunk.length ≤ _
      rw [h.counted]
      omega

theorem Bounded.bodyRound {c : Serving} (h : Bounded options c) {out : HeadOut}
    {declared remaining : Nat} (hdeclared : declared ≤ options.maxBodyBytes)
    (hmissing : c.bytesRead + remaining = out.headLen + declared) :
    Bounded options (c.bodyRound out declared remaining) := by
  have hover : c.bytesRead ≤ max (options.maxHeadBytes + 2048) (out.headLen + declared) := by
    omega
  cases remaining with
  | zero => exact h.ends ⟨hdeclared, hover⟩
  | succ remaining =>
      rw [Serving.bodyRound]
      have hasked : Bounded options (c.ask (some (out.headLen + declared - c.bytesRead))
          (min (remaining + 1) 4096)) := by
        refine h.ask ?_
        rintro left ⟨⟩
        omega
      dsimp only
      split
      · exact hasked.ends ⟨hdeclared, hover⟩
      · rename_i chunk wire hchunk
        obtain ⟨-, -, hle⟩ := readSome_eq_some hchunk
        refine (hasked.subtract (by omega : chunk.length ≤ remaining + 1)).receive
          ⟨hdeclared, ?_⟩
        show c.bytesRead + chunk.length + (remaining + 1 - chunk.length) = _
        omega

theorem Bounded.step {c : Serving} (h : Bounded options c) : Bounded options (c.step options) := by
  have hwithin := h.within
  rw [Serving.step]
  split
  · rename_i out hphase
    rw [hphase] at hwithin
    exact h.headRound hwithin
  · rename_i out declared remaining hphase
    rw [hphase] at hwithin
    exact h.bodyRound hwithin.1 hwithin.2
  · exact h

theorem Bounded.start (wire : Wire) : Bounded options { wire := wire } :=
  ⟨rfl, Nat.zero_le _, by simp, by simp⟩

theorem Bounded.run (wire : Wire) (n : Nat) :
    Bounded options ((Serving.step options)^[n] { wire := wire }) := by
  induction n with
  | zero => exact Bounded.start wire
  | succ n ih =>
      rw [Function.iterate_succ_apply']
      exact ih.step

/-! ## The end of the loops -/

/-- The rounds from here on come to an end, and it is this one. -/
def EndsAs (options : ServiceOptions) (c : Serving) (served : Served) : Prop :=
  ∃ n ending, ((Serving.step options)^[n] c).phase = .over ending ∧ ending.served = served

theorem EndsAs.next {c : Serving} {served : Served}
    (h : EndsAs options (c.step options) served) : EndsAs options c served := by
  obtain ⟨n, ending, hphase, hserved⟩ := h
  exact ⟨n + 1, ending, by rw [Function.iterate_succ_apply]; exact hphase, hserved⟩

theorem EndsAs.now (c : Serving) (ending : Ending) :
    EndsAs options (c.ends ending) ending.served := ⟨0, ending, rfl, rfl⟩

/-- The body loop, whose rounds are bounded by the bytes it still wants. -/
theorem endsAs_body {rounds remaining declared : Nat} {c : Serving} {out : HeadOut}
    (hphase : c.phase = .body out declared remaining) (hrounds : remaining ≤ rounds) :
    EndsAs options c
      (match bodyLoop rounds remaining c.buffer c.wire with
      | .error served => served
      | .ok buffer =>
          .routed { out.request with body := (buffer.drop out.headLen).take declared }) := by
  induction rounds generalizing remaining c with
  | zero =>
      obtain rfl : remaining = 0 := by omega
      refine EndsAs.next ?_
      rw [Serving.step, hphase, bodyLoop]
      exact EndsAs.now _ _
  | succ rounds ih =>
      refine EndsAs.next ?_
      cases remaining with
      | zero =>
          rw [Serving.step, hphase, bodyLoop]
          exact EndsAs.now _ _
      | succ remaining =>
          unfold bodyLoop
          rw [Serving.step, hphase]
          show EndsAs options (c.bodyRound out declared (remaining + 1)) _
          rw [Serving.bodyRound]
          simp only [wire_ask]
          cases hread : readSome (min (remaining + 1) 4096) c.wire with
          | none => exact EndsAs.now _ _
          | some result =>
              obtain ⟨chunk, wire⟩ := result
              obtain ⟨-, hpos, -⟩ := readSome_eq_some hread
              exact ih rfl (by omega)

theorem endsAs_declare (c : Serving) (out : HeadOut) :
    EndsAs options (c.declare options out) (serveBody options c.buffer out c.wire) := by
  rw [Serving.declare, serveBody]
  cases contentLengthFor out.request options.maxBodyBytes with
  | error refusal => exact EndsAs.now _ _
  | ok declared =>
      dsimp only
      split
      · exact EndsAs.now _ _
      · exact endsAs_body rfl (Nat.le_refl _)

/-- The head loop, whose rounds are bounded by the bytes on the wire. -/
theorem endsAs_head {rounds : Nat} {c : Serving} {out : HeadOut}
    (hphase : c.phase = .head out) (hrounds : c.wire.rest.length ≤ rounds) :
    EndsAs options c
      (match headLoop options rounds c.buffer out c.wire with
      | .error served => served
      | .ok (buffer, out, wire) => serveBody options buffer out wire) := by
  induction rounds generalizing c out with
  | zero =>
      have hend : readSome 2048 c.wire = none :=
        (readSome_eq_none (by omega)).mpr (List.length_eq_zero_iff.mp (by omega))
      refine EndsAs.next ?_
      rw [Serving.step, hphase, headLoop]
      show EndsAs options (c.headRound options out) _
      rw [Serving.headRound]
      rcases parseRequestHead c.buffer options.maxHeadBytes out with ⟨verdict, out'⟩
      cases verdict with
      | ok => exact endsAs_declare c out'
      | bad => exact EndsAs.now _ _
      | tooLarge => exact EndsAs.now _ _
      | needMore =>
          simp only [wire_ask, hend]
          exact EndsAs.now _ _
  | succ rounds ih =>
      refine EndsAs.next ?_
      rw [Serving.step, hphase, headLoop]
      show EndsAs options (c.headRound options out) _
      rw [Serving.headRound]
      rcases parseRequestHead c.buffer options.maxHeadBytes out with ⟨verdict, out'⟩
      cases verdict with
      | ok => exact endsAs_declare c out'
      | bad => exact EndsAs.now _ _
      | tooLarge => exact EndsAs.now _ _
      | needMore =>
          simp only [wire_ask]
          cases hread : readSome 2048 c.wire with
          | none =>
              exact EndsAs.now _ _
          | some result =>
              obtain ⟨chunk, wire⟩ := result
              obtain ⟨hrest, hpos, -⟩ := readSome_eq_some hread
              refine ih rfl ?_
              rw [hrest, List.length_append] at hrounds
              show wire.rest.length ≤ rounds
              omega

end Serving

theorem reading_bounded (options : ServiceOptions) (wire : Wire) :
    (∀ n, ((Serving.step options)^[n] { wire := wire }).Bounded options) ∧
      ∃ n ending, ((Serving.step options)^[n] { wire := wire }).phase = .over ending ∧
        ending.served = serveConnection options wire := by
  constructor
  · intro n
    exact Serving.Bounded.run wire n
  · exact Serving.endsAs_head rfl (Nat.le_refl _)

end FileMover.Http
