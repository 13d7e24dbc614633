import FileMover.Model.JsonCursor

/-!
# The cursor stays in the buffer

Every production of the parser, started at an index of the buffer, does what the parser on
lists does with the bytes from that index on, and touches nothing outside on the way. Since
the parser on lists consumes its input, the loops end.
-/

namespace FileMover.Json.Cursor

/-- What is within bounds for an input of `n` bytes. -/
def Access.Within (n maxDepth : Nat) : Access → Prop
  | .read k => k < n
  | .cursor i => i ≤ n
  | .minus i => i ≤ n
  | .nesting calls => calls ≤ maxDepth + 1

section

variable (b : Buffer) (d : Nat)

/-- The parser stands at `i`, and all it has touched is within bounds. -/
structure At (i calls : Nat) (error : Bytes) (s : Parser) : Prop where
  cursor : s.i = i
  le : i ≤ b.n
  error : s.error = error
  calls : s.calls = calls
  within : ∀ access ∈ s.touched, access.Within b.n d

/-- Started at `i`, the scan ends like the parse of the bytes from there on. -/
def Computes {α : Type} (p : Scan α) (i calls : Nat) (parse : Parse α) : Prop :=
  ∀ s, At b d i calls [] s →
    match parse with
    | .ok (a, rest) => ∃ j, i ≤ j ∧ rest = b.bytes.drop j ∧ (p s).1 = .ok a ∧
        At b d j calls [] (p s).2
    | .error failure => ∃ j, failure.rest = b.bytes.drop j ∧ (p s).1 = .error .failed ∧
        At b d j calls failure.message (p s).2

end

variable {b : Buffer} {d : Nat} {α β : Type} {i c : Nat}

/-! ## Bytes of the buffer -/

theorem drop_eq_nil_iff : b.bytes.drop i = [] ↔ b.n ≤ i := List.drop_eq_nil_iff

theorem drop_eq_cons (h : i < b.n) : b.bytes.drop i = b.byte i :: b.bytes.drop (i + 1) := by
  rw [List.drop_eq_getElem_cons h, Buffer.byte, List.getD_eq_getElem?_getD,
    List.getElem?_eq_getElem h]
  rfl

theorem length_drop : (b.bytes.drop i).length = b.n - i := List.length_drop

theorem eq_of_drop_eq {j : Nat} (hi : i ≤ b.n) (hj : j ≤ b.n)
    (h : b.bytes.drop i = b.bytes.drop j) : i = j := by
  have hlength := congrArg List.length h
  rw [length_drop, length_drop] at hlength
  omega

/-! ## Rules -/

theorem bind_assoc {γ : Type} (p : Scan α) (f : α → Scan β) (g : β → Scan γ) :
    (p >>= f) >>= g = p >>= fun a => f a >>= g := by
  funext s
  show Scan.bind (Scan.bind p f) g s = Scan.bind p (fun a => Scan.bind (f a) g) s
  unfold Scan.bind
  rcases p s with ⟨result, t⟩
  cases result <;> rfl

theorem bind_value {p : Scan α} {f : α → Scan β} {s t : Parser} {a : α}
    (h : p s = (.ok a, t)) : (p >>= f) s = f a t := by
  show Scan.bind p f s = f a t
  rw [Scan.bind, h]

theorem bind_failed {p : Scan α} {f : α → Scan β} {s t : Parser} {stop : Stop}
    (h : p s = (.error stop, t)) : (p >>= f) s = (.error stop, t) := by
  show Scan.bind p f s = (.error stop, t)
  rw [Scan.bind, h]

namespace Computes

theorem of_eq {p : Scan α} {parse parse' : Parse α} (h : Computes b d p i c parse)
    (heq : parse' = parse) : Computes b d p i c parse' := heq ▸ h

theorem pure (a : α) : Computes b d (Pure.pure a : Scan α) i c (.ok (a, b.bytes.drop i)) :=
  fun _ hs => ⟨i, le_refl i, rfl, rfl, hs⟩

theorem setError {message : String} :
    Computes b d (Cursor.setError message : Scan α) i c
      (Json.setError message (b.bytes.drop i)) := by
  intro s hs
  refine ⟨i, rfl, rfl, ?_⟩
  rw [Cursor.setError, hs.error, if_pos rfl]
  exact ⟨hs.cursor, hs.le, rfl, hs.calls, hs.within⟩

/-- A production, and then the rest. -/
theorem bind {p : Scan α} {f : α → Scan β} {parse : Parse α} {parse' : Parse β}
    (hp : Computes b d p i c parse)
    (herror : ∀ failure, parse = .error failure → parse' = .error failure)
    (hok : ∀ a j, i ≤ j → j ≤ b.n → parse = .ok (a, b.bytes.drop j) →
      Computes b d (f a) j c parse') : Computes b d (p >>= f) i c parse' := by
  intro s hs
  have hfirst := hp s hs
  cases hparse : parse with
  | error failure =>
      rw [hparse] at hfirst
      obtain ⟨j, hrest, hstop, hat⟩ := hfirst
      have hps : p s = (.error .failed, (p s).2) := Prod.ext hstop rfl
      rw [herror failure hparse, bind_failed hps]
      exact ⟨j, hrest, rfl, hat⟩
  | ok result =>
      obtain ⟨a, rest⟩ := result
      rw [hparse] at hfirst
      obtain ⟨j, hle, rfl, hvalue, hat⟩ := hfirst
      have hsecond := hok a j hle hat.le hparse _ hat
      rw [bind_value (Prod.ext hvalue rfl : p s = (.ok a, (p s).2))]
      cases parse' with
      | error failure => exact hsecond
      | ok result =>
          obtain ⟨j', hle', hrest', hvalue', hat'⟩ := hsecond
          exact ⟨j', hle.trans hle', hrest', hvalue', hat'⟩

/-- The same for a production that cannot fail. -/
theorem andThen {p : Scan α} {f : α → Scan β} {a : α} {rest : Bytes} {parse : Parse β}
    (hp : Computes b d p i c (.ok (a, rest)))
    (hok : ∀ j, i ≤ j → j ≤ b.n → rest = b.bytes.drop j → Computes b d (f a) j c parse) :
    Computes b d (p >>= f) i c parse := by
  refine hp.bind nofun fun a' j hle hn hparse => ?_
  cases hparse
  exact hok j hle hn rfl

theorem map {p : Scan α} {parse : Parse α} (f : α → β) (hp : Computes b d p i c parse) :
    Computes b d (p >>= fun a => Pure.pure (f a)) i c
      (parse.map fun (a, rest) => (f a, rest)) := by
  refine hp.bind (fun failure hfailure => ?_) fun a j _ _ hparse => ?_
  · rw [hfailure]
    rfl
  · rw [hparse]
    exact pure (f a)

/-- What is touched first. -/
theorem touching {f : Unit → Scan β} {parse : Parse β} {access : Access}
    (hwithin : i ≤ b.n → access.Within b.n d) (h : Computes b d (f ()) i c parse) :
    Computes b d (touch access >>= f) i c parse := by
  intro s hs
  refine h { s with touched := access :: s.touched } ⟨hs.cursor, hs.le, hs.error, hs.calls, ?_⟩
  intro other hother
  rcases List.mem_cons.mp hother with rfl | hearlier
  · exact hwithin hs.le
  · exact hs.within other hearlier

theorem readAt {f : UInt8 → Scan β} {parse : Parse β} {k : Nat} (hk : k < b.n)
    (h : Computes b d (f (b.byte k)) i c parse) :
    Computes b d (Cursor.readAt b k >>= f) i c parse :=
  touching (f := fun _ => f (b.byte k)) (fun _ => hk) h

theorem position {f : Nat → Scan β} {parse : Parse β} (h : Computes b d (f i) i c parse) :
    Computes b d (Cursor.position >>= f) i c parse := by
  intro s hs
  have hstep := h s hs
  rw [← hs.cursor] at hstep
  rw [← hs.cursor]
  exact hstep

theorem peek {f : UInt8 → Scan β} {parse : Parse β} (hi : i < b.n)
    (h : Computes b d (f (b.byte i)) i c parse) : Computes b d (Cursor.peek b >>= f) i c parse :=
  position (f := fun k => Cursor.readAt b k >>= f) (readAt hi h)

theorem atEnd {f : Bool → Scan β} {parse : Parse β}
    (h : Computes b d (f (decide (b.n ≤ i))) i c parse) :
    Computes b d (Cursor.atEnd b >>= f) i c parse :=
  position (f := fun k => f (decide (b.n ≤ k))) h

theorem remaining {f : Nat → Scan β} {parse : Parse β} (hi : i ≤ b.n)
    (h : Computes b d (f (b.n - i)) i c parse) :
    Computes b d (Cursor.remaining b >>= f) i c parse := by
  have hminus : b.minus i = b.n - i := if_pos hi
  rw [← hminus] at h
  exact position (f := fun k => touch (.minus k) >>= fun _ => f (b.minus k))
    (touching (f := fun _ => f (b.minus i)) id h)

theorem advance {f : Unit → Scan β} {parse : Parse β} {k : Nat} (hk : i + k ≤ b.n)
    (h : Computes b d (f ()) (i + k) c parse) :
    Computes b d (Cursor.advance k >>= f) i c parse := by
  intro s hs
  have hafter : At b d (i + k) c []
      { s with i := s.i + k, touched := .cursor (s.i + k) :: s.touched } := by
    refine ⟨by rw [hs.cursor], hk, hs.error, hs.calls, fun access haccess => ?_⟩
    rcases List.mem_cons.mp haccess with rfl | hearlier
    · rw [hs.cursor]
      exact hk
    · exact hs.within access hearlier
  have hrest := h _ hafter
  cases parse with
  | error failure => exact hrest
  | ok result =>
      obtain ⟨j, hle, hrest⟩ := hrest
      exact ⟨j, by omega, hrest⟩

theorem failIf {f : Unit → Scan β} {parse : Parse β} {refused : Bool} {message : String}
    (hrefused : refused = true → parse = Json.setError message (b.bytes.drop i))
    (hok : refused = false → Computes b d (f ()) i c parse) :
    Computes b d (Cursor.failIf refused message >>= f) i c parse := by
  cases refused with
  | false => exact hok rfl
  | true =>
      rw [hrefused rfl]
      have hstop : Computes b d (Cursor.setError message : Scan Unit) i c
          (Json.setError message (b.bytes.drop i)) := setError
      refine hstop.bind ?_ nofun
      rintro failure ⟨⟩
      rfl

/-- One more call is open. -/
theorem called {body : Scan α} {parse : Parse α} (hcalls : c ≤ d)
    (h : Computes b d body i (c + 1) parse) : Computes b d (Cursor.called body) i c parse := by
  intro s hs
  have hstart : At b d i (c + 1) []
      { s with calls := s.calls + 1, touched := .nesting (s.calls + 1) :: s.touched } := by
    refine ⟨hs.cursor, hs.le, hs.error, by rw [hs.calls], fun access haccess => ?_⟩
    rcases List.mem_cons.mp haccess with rfl | hearlier
    · rw [hs.calls]
      exact Nat.succ_le_succ hcalls
    · exact hs.within access hearlier
  have hreturn : ∀ {j : Nat} {error : Bytes} {t : Parser}, At b d j (c + 1) error t →
      At b d j c error { t with calls := t.calls - 1 } := by
    intro j error t ht
    exact ⟨ht.cursor, ht.le, ht.error, by rw [ht.calls]; rfl, ht.within⟩
  have hbody := h _ hstart
  cases parse with
  | error failure =>
      obtain ⟨j, hrest, hstop, hat⟩ := hbody
      exact ⟨j, hrest, hstop, hreturn hat⟩
  | ok result =>
      obtain ⟨j, hle, hrest, hvalue, hat⟩ := hbody
      exact ⟨j, hle, hrest, hvalue, hreturn hat⟩

theorem sees {f : Bool → Scan β} {parse : Parse β} {q : UInt8 → Bool}
    (h : Computes b d (f ((b.bytes.drop i).head?.any q)) i c parse) :
    Computes b d (Cursor.sees b q >>= f) i c parse := by
  rw [Cursor.sees, bind_assoc]
  refine atEnd ?_
  by_cases hend : b.n ≤ i
  · rw [drop_eq_nil_iff.mpr hend] at h
    rw [if_pos (decide_eq_true hend)]
    exact h
  · rw [drop_eq_cons (Nat.lt_of_not_le hend)] at h
    rw [if_neg (by simpa using hend)]
    exact peek (f := fun x => f (q x)) (Nat.lt_of_not_le hend) h

theorem readFrom {f : Bytes → Scan β} {parse : Parse β} {k count : Nat} (hk : k + count ≤ b.n)
    (h : Computes b d (f ((b.bytes.drop k).take count)) i c parse) :
    Computes b d (Cursor.readFrom b k count >>= f) i c parse := by
  induction count generalizing k f with
  | zero => exact h
  | succ count ih =>
      have hlt : k < b.n := by omega
      rw [drop_eq_cons hlt, List.take_succ_cons] at h
      have hnext : Computes b d
          (Cursor.readFrom b (k + 1) count >>= fun rest => f (b.byte k :: rest)) i c parse :=
        ih (by omega) h
      rw [Cursor.readFrom, bind_assoc]
      refine readAt hlt ?_
      rw [bind_assoc]
      exact hnext

end Computes

/-! ## Blanks and literals -/

theorem computes_skipWs {rounds : Nat} (h : b.n - i < rounds) :
    Computes b d (skipWs b rounds) i c (.ok ((), Json.skipWs (b.bytes.drop i))) := by
  induction rounds generalizing i with
  | zero => omega
  | succ rounds ih =>
      rw [skipWs]
      refine Computes.sees ?_
      by_cases hi : i < b.n
      · rw [drop_eq_cons hi, List.head?_cons, Option.any_some]
        by_cases hws : isWs (b.byte i) = true
        · rw [if_pos hws, Json.skipWs, List.dropWhile_cons_of_pos hws]
          exact Computes.advance hi (ih (by omega))
        · rw [if_neg hws, Json.skipWs, List.dropWhile_cons_of_neg hws, ← drop_eq_cons hi]
          exact Computes.pure ()
      · have hend : b.bytes.drop i = [] := drop_eq_nil_iff.mpr (Nat.le_of_not_lt hi)
        rw [hend]
        exact (Computes.pure ()).of_eq (by rw [hend]; rfl)

theorem computes_literal {word : String} (hi : i ≤ b.n) :
    Computes b d (literal b word) i c (Json.literal word (b.bytes.drop i)) := by
  have hstarts : (lit word).isPrefixOf (b.bytes.drop i) = true ↔
      lit word = (b.bytes.drop i).take (lit word).length := by
    rw [List.isPrefixOf_iff_prefix, List.prefix_iff_eq_take]
  rw [literal, Json.literal]
  refine Computes.remaining hi (Computes.failIf (fun hshort => ?_) fun hlong => ?_)
  · have hlt := of_decide_eq_true hshort
    rw [if_neg]
    rw [hstarts]
    intro heq
    have hlength := congrArg List.length heq
    rw [List.length_take, length_drop] at hlength
    omega
  · have hle := of_decide_eq_false hlong
    refine Computes.position (Computes.readFrom (by omega)
      (Computes.failIf (fun hother => ?_) fun hsame => ?_))
    · rw [if_neg]
      rw [hstarts]
      exact fun heq => of_decide_eq_true hother heq.symm
    · rw [if_pos (hstarts.mpr (not_not.mp (of_decide_eq_false hsame)).symm), List.drop_drop]
      exact Computes.advance (by omega) (Computes.pure ())

/-! ## Strings -/

theorem computes_continuations {lo hi : UInt8} {k count : Nat} (h : i + k + count ≤ b.n) :
    Computes b d (continuations b lo hi k count) i c
      (if continuationBytes lo hi ((b.bytes.drop (i + k)).take count) = true then
        .ok ((), b.bytes.drop i)
      else Json.setError "invalid UTF-8 continuation byte in string" (b.bytes.drop i)) := by
  induction count generalizing lo hi k with
  | zero => exact Computes.pure ()
  | succ count ih =>
      have hlt : i + k < b.n := by omega
      rw [continuations, drop_eq_cons hlt, List.take_succ_cons, continuationBytes]
      refine Computes.position (Computes.readAt hlt
        (Computes.failIf (fun hbad => ?_) fun hgood => ?_))
      · rw [if_neg]
        have hrange := of_decide_eq_true hbad
        simp only [Bool.and_eq_true, decide_eq_true_eq, not_and_or, UInt8.not_le]
        exact .inl hrange
      · have hrange := of_decide_eq_false hgood
        simp only [not_or, UInt8.not_lt] at hrange
        rw [decide_eq_true hrange.1, decide_eq_true hrange.2, Bool.true_and, Bool.true_and]
        exact ih (by omega)

theorem utf8Lead_pos {x : UInt8} {len : Nat} {lo hi : UInt8}
    (h : utf8Lead x = some (len, lo, hi)) : 0 < len := by
  unfold utf8Lead at h
  split_ifs at h <;> cases h <;> decide

theorem computes_consumeUtf8 (hi : i < b.n) :
    Computes b d (consumeUtf8 b) i c (Json.consumeUtf8 (b.bytes.drop i)) := by
  have hhead : (b.bytes.drop i).headD 0 = b.byte i := by
    rw [drop_eq_cons hi]
    rfl
  rw [consumeUtf8, Json.consumeUtf8, hhead, length_drop]
  refine Computes.peek hi ?_
  cases hlead : utf8Lead (b.byte i) with
  | none => exact Computes.setError
  | some range =>
      obtain ⟨len, lo, hi'⟩ := range
      obtain ⟨more, rfl⟩ : ∃ more, len = more + 1 :=
        ⟨len - 1, (Nat.succ_pred_eq_of_pos (utf8Lead_pos hlead)).symm⟩
      refine Computes.remaining hi.le (Computes.failIf (fun hshort => ?_) fun hlong => ?_)
      · exact if_pos (of_decide_eq_true hshort)
      · have hle := of_decide_eq_false hlong
        have htail : ((b.bytes.drop i).take (more + 1)).tail =
            (b.bytes.drop (i + 1)).take more := by
          rw [drop_eq_cons hi]
          rfl
        show Computes b d _ i c (if b.n - i < more + 1 then _ else _)
        rw [if_neg hle, htail, Nat.add_sub_cancel]
        refine (computes_continuations (by omega)).bind ?_ ?_
        · intro failure hfailure
          split_ifs at hfailure with hbytes
          rw [if_pos (Bool.not_eq_true _ ▸ hbytes)]
          exact congrArg Except.error (Except.error.inj hfailure)
        · intro _ j _ hn hparse
          by_cases hbytes : continuationBytes lo hi' ((b.bytes.drop (i + 1)).take more) = true
          · rw [if_pos hbytes] at hparse
            obtain rfl := eq_of_drop_eq hi.le hn (Prod.mk.inj (Except.ok.inj hparse)).2
            rw [if_neg (by rw [hbytes]; exact Bool.noConfusion), List.drop_drop]
            exact Computes.position (Computes.readFrom (by omega)
              (Computes.advance (by omega) (Computes.pure _)))
          · rw [if_neg hbytes] at hparse
            cases hparse

theorem computes_hexLoop {v k count : Nat} (h : i + k + count ≤ b.n) :
    Computes b d (hexLoop b v k count) i c
      (match hexDigits v ((b.bytes.drop (i + k)).take count) with
      | some cp => .ok (cp, b.bytes.drop i)
      | none => Json.setError "invalid hex digit in \\u escape" (b.bytes.drop i)) := by
  induction count generalizing v k with
  | zero => exact Computes.pure v
  | succ count ih =>
      have hlt : i + k < b.n := by omega
      rw [hexLoop, drop_eq_cons hlt, List.take_succ_cons, hexDigits]
      refine Computes.position (Computes.readAt hlt ?_)
      cases hexValue (b.byte (i + k)) with
      | none => exact Computes.setError
      | some digit => exact ih (by omega)

theorem computes_parseHex4 (hi : i ≤ b.n) :
    Computes b d (parseHex4 b) i c (Json.parseHex4 (b.bytes.drop i)) := by
  rw [parseHex4, Json.parseHex4, length_drop]
  refine Computes.remaining hi (Computes.failIf (fun hshort => ?_) fun hlong => ?_)
  · exact if_pos (of_decide_eq_true hshort)
  · have hle := of_decide_eq_false hlong
    rw [if_neg hle]
    refine (computes_hexLoop (by omega)).bind ?_ ?_
    · intro failure hfailure
      cases hdigits : hexDigits 0 ((b.bytes.drop i).take 4) with
      | none =>
          rw [Nat.add_zero, hdigits] at hfailure
          exact congrArg Except.error (Except.error.inj hfailure)
      | some cp =>
          rw [Nat.add_zero, hdigits] at hfailure
          cases hfailure
    · intro cp j _ hn hparse
      cases hdigits : hexDigits 0 ((b.bytes.drop i).take 4) with
      | none =>
          rw [Nat.add_zero, hdigits] at hparse
          cases hparse
      | some cp' =>
          rw [Nat.add_zero, hdigits] at hparse
          obtain ⟨rfl, hdrop⟩ := Prod.mk.inj (Except.ok.inj hparse)
          obtain rfl := eq_of_drop_eq hi hn hdrop
          rw [List.drop_drop]
          exact Computes.advance (by omega) (Computes.pure _)

theorem Computes.lowSurrogateFollows {f : Bool → Scan β} {parse : Parse β} (hi : i ≤ b.n)
    (h : Computes b d (f (decide ((b.bytes.drop i).take 2 = [0x5C, 0x75]))) i c parse) :
    Computes b d (Cursor.lowSurrogateFollows b >>= f) i c parse := by
  rw [Cursor.lowSurrogateFollows, bind_assoc]
  refine Computes.remaining hi ?_
  by_cases hshort : b.n - i < 2
  · have hne : (b.bytes.drop i).take 2 ≠ [0x5C, 0x75] := by
      intro heq
      have hlength := congrArg List.length heq
      rw [List.length_take, length_drop] at hlength
      simp at hlength
      omega
    rw [decide_eq_false hne] at h
    rw [if_pos hshort]
    exact h
  · have htake : (b.bytes.drop i).take 2 = [b.byte i, b.byte (i + 1)] := by
      rw [drop_eq_cons (by omega), List.take_succ_cons, drop_eq_cons (by omega),
        List.take_succ_cons, List.take_zero]
    rw [htake] at h
    rw [if_neg hshort, bind_assoc]
    refine Computes.position ?_
    rw [bind_assoc]
    refine Computes.readAt (by omega) ?_
    by_cases hbackslash : b.byte i = 0x5C
    · rw [if_neg (not_not.mpr hbackslash), bind_assoc]
      refine Computes.position ?_
      rw [bind_assoc]
      refine Computes.readAt (by omega) ?_
      rw [hbackslash] at h
      have hsame : ([0x5C, b.byte (i + 1)] = ([0x5C, 0x75] : Bytes)) ↔ b.byte (i + 1) = 0x75 := by
        simp
      rw [decide_eq_decide.mpr hsame] at h
      exact h
    · rw [if_pos hbackslash]
      rw [decide_eq_false fun heq => hbackslash (List.cons.inj heq).1] at h
      exact h

theorem computes_unicodeEscape (hi : i ≤ b.n) :
    Computes b d (unicodeEscape b) i c (Json.unicodeEscape (b.bytes.drop i)) := by
  rw [unicodeEscape, Json.unicodeEscape]
  refine (computes_parseHex4 hi).bind (fun failure hfailure => by rw [hfailure]) ?_
  intro cp j _ hj hparse
  rw [hparse]
  show Computes b d _ j c (if cp = 0 then _ else _)
  by_cases hzero : cp = 0
  · rw [if_pos hzero, if_pos hzero]
    exact Computes.setError
  rw [if_neg hzero, if_neg hzero]
  by_cases hhigh : 0xD800 ≤ cp ∧ cp ≤ 0xDBFF
  · rw [if_pos hhigh, if_pos hhigh]
    refine Computes.lowSurrogateFollows hj (Computes.failIf (fun hlone => ?_) fun hpair => ?_)
    · rw [if_pos]
      simpa using hlone
    · have htake : (b.bytes.drop j).take 2 = [0x5C, 0x75] := by simpa using hpair
      have hlength := congrArg List.length htake
      rw [List.length_take, length_drop] at hlength
      have hroom : j + 2 ≤ b.n := by
        simp at hlength
        omega
      rw [if_neg (not_not.mpr htake), List.drop_drop]
      refine Computes.advance hroom ?_
      refine (computes_parseHex4 hroom).bind (fun failure hfailure => by rw [hfailure]) ?_
      intro lo k _ hk hlow
      rw [hlow]
      refine Computes.failIf (fun hbad => if_pos (of_decide_eq_true hbad)) fun hgood => ?_
      refine (Computes.pure _).of_eq ?_
      exact if_neg (of_decide_eq_false hgood)
  · rw [if_neg hhigh, if_neg hhigh]
    by_cases hlow : 0xDC00 ≤ cp ∧ cp ≤ 0xDFFF
    · rw [if_pos hlow, if_pos hlow]
      exact Computes.setError
    · rw [if_neg hlow, if_neg hlow]
      exact Computes.pure _

theorem computes_parseEscape :
    Computes b d (parseEscape b) i c (Json.parseEscape (b.bytes.drop i)) := by
  rw [parseEscape]
  refine Computes.atEnd (Computes.failIf (fun hend => ?_) fun hmore => ?_)
  · rw [drop_eq_nil_iff.mpr (of_decide_eq_true hend)]
    rfl
  · have hlt : i < b.n := Nat.lt_of_not_le (of_decide_eq_false hmore)
    rw [drop_eq_cons hlt, Json.parseEscape]
    refine Computes.peek hlt (Computes.advance hlt ?_)
    cases hshort : shortEscape (b.byte i) with
    | some x => exact Computes.pure _
    | none =>
        show Computes b d _ (i + 1) c (if b.byte i = 0x75 then _ else _)
        by_cases hu : b.byte i = 0x75
        · simp only [if_pos hu]
          exact computes_unicodeEscape hlt
        · simp only [if_neg hu]
          exact Computes.setError

theorem consumeUtf8_shorter {s bytes rest : Bytes}
    (h : Json.consumeUtf8 s = .ok (bytes, rest)) : rest.length < s.length := by
  rw [Json.consumeUtf8] at h
  cases hlead : utf8Lead (s.headD 0) with
  | none =>
      rw [hlead] at h
      cases h
  | some range =>
      obtain ⟨len, lo, hi⟩ := range
      have hpos := utf8Lead_pos hlead
      rw [hlead] at h
      dsimp only at h
      split_ifs at h
      · cases h
      · cases h
      · cases h
        rw [List.length_drop]
        omega

theorem computes_stringLoop {limits : Limits} {fuel rounds : Nat} {out : Bytes}
    (hfuel : b.n - i < fuel) (hrounds : b.n - i ≤ rounds) :
    Computes b d (stringLoop b limits fuel out) i c
      (Json.stringLoop limits rounds out (b.bytes.drop i)) := by
  induction fuel generalizing i rounds out with
  | zero => omega
  | succ fuel ih =>
      rw [stringLoop]
      refine Computes.atEnd (Computes.failIf (fun hend => ?_) fun hmore => ?_)
      · rw [drop_eq_nil_iff.mpr (of_decide_eq_true hend)]
        cases rounds <;> rfl
      have hlt : i < b.n := Nat.lt_of_not_le (of_decide_eq_false hmore)
      obtain ⟨rounds, rfl⟩ : ∃ n, rounds = n + 1 := ⟨rounds - 1, by omega⟩
      rw [drop_eq_cons hlt, Json.stringLoop, ← drop_eq_cons hlt]
      refine Computes.failIf (fun hlong => if_pos (of_decide_eq_true hlong)) fun hshort => ?_
      rw [if_neg (of_decide_eq_false hshort)]
      refine Computes.peek hlt ?_
      by_cases hquote : b.byte i = 0x22
      · rw [if_pos hquote, if_pos hquote]
        exact Computes.advance hlt (Computes.pure out)
      rw [if_neg hquote, if_neg hquote]
      by_cases hcontrol : b.byte i < 0x20
      · rw [if_pos hcontrol, if_pos hcontrol]
        exact Computes.setError
      rw [if_neg hcontrol, if_neg hcontrol]
      by_cases hescape : b.byte i = 0x5C
      · rw [if_neg (not_not.mpr hescape), if_pos hescape]
        refine Computes.advance hlt (computes_parseEscape.bind ?_ ?_)
        · intro failure hfailure
          rw [hfailure]
        · intro bytes j hle _ hparse
          rw [hparse]
          exact ih (by omega) (by omega)
      · rw [if_pos hescape, if_neg hescape]
        refine (computes_consumeUtf8 hlt).bind ?_ ?_
        · intro failure hfailure
          rw [hfailure]
        · intro bytes j hle _ hparse
          have hshorter := consumeUtf8_shorter hparse
          rw [length_drop, length_drop] at hshorter
          rw [hparse]
          exact ih (by omega) (by omega)

theorem computes_parseString {limits : Limits} {fuel : Nat} (hi : i < b.n)
    (hfuel : b.n - i ≤ fuel) :
    Computes b d (parseString b limits fuel) i c
      (Json.parseString limits (b.bytes.drop i)) := by
  rw [parseString, Json.parseString, drop_eq_cons hi, List.tail_cons, length_drop]
  exact Computes.advance hi (computes_stringLoop (by omega) (le_refl _))

/-! ## Numbers -/

theorem computes_digitLoop {rounds : Nat} (h : b.n - i < rounds) :
    Computes b d (digitLoop b rounds) i c (.ok ((), (b.bytes.drop i).dropWhile isDigit)) := by
  induction rounds generalizing i with
  | zero => omega
  | succ rounds ih =>
      rw [digitLoop]
      refine Computes.sees ?_
      by_cases hi : i < b.n
      · rw [drop_eq_cons hi, List.head?_cons, Option.any_some]
        by_cases hdigit : isDigit (b.byte i) = true
        · rw [if_pos hdigit, List.dropWhile_cons_of_pos hdigit]
          exact Computes.advance hi (ih (by omega))
        · rw [if_neg hdigit, List.dropWhile_cons_of_neg hdigit, ← drop_eq_cons hi]
          exact Computes.pure ()
      · have hend : b.bytes.drop i = [] := drop_eq_nil_iff.mpr (Nat.le_of_not_lt hi)
        rw [hend]
        exact (Computes.pure ()).of_eq (by rw [hend]; rfl)

theorem computes_accumulateLoop {limit acc k count : Nat} (h : k + count ≤ b.n) :
    Computes b d (accumulateLoop b limit acc k count) i c
      (match accumulate limit acc ((b.bytes.drop k).take count) with
      | none => Json.setError "integer is out of the representable range" (b.bytes.drop i)
      | some acc => .ok (acc, b.bytes.drop i)) := by
  induction count generalizing acc k with
  | zero => exact Computes.pure acc
  | succ count ih =>
      have hlt : k < b.n := by omega
      rw [accumulateLoop, drop_eq_cons hlt, List.take_succ_cons, accumulate]
      refine Computes.readAt hlt (Computes.failIf (fun hlarge => ?_) fun hsmall => ?_)
      · rw [if_pos (of_decide_eq_true hlarge)]
      · rw [if_neg (of_decide_eq_false hsmall)]
        exact ih (by omega)

theorem take_eq {j : Nat} {front : Bytes} (hi : i ≤ b.n) (hj : j ≤ b.n)
    (h : b.bytes.drop i = front ++ b.bytes.drop j) :
    (b.bytes.drop i).take (j - i) = front := by
  have hlength := congrArg List.length h
  rw [List.length_append, length_drop, length_drop] at hlength
  rw [h]
  exact List.take_left' (by omega)

/-- The digits of a number that starts with `x`, and the bytes behind them. -/
theorem computes_skipDigits {fuel : Nat} {x : UInt8} {cs : Bytes} (hi : i < b.n)
    (hdrop : b.bytes.drop i = x :: cs) (hfuel : b.n - i < fuel) :
    Computes b d (skipDigits b fuel) i c
      (if x = 0x30 ∧ (cs.head?.any isDigit) = true then
        Json.setError "leading zeros are not permitted" cs
      else .ok ((), if x = 0x30 then cs else (x :: cs).dropWhile isDigit)) := by
  obtain ⟨rfl, rfl⟩ := List.cons.inj (drop_eq_cons hi ▸ hdrop)
  rw [skipDigits]
  refine Computes.peek hi ?_
  by_cases hzero : b.byte i = 0x30
  · rw [if_pos hzero, if_pos hzero]
    refine Computes.advance hi (Computes.sees (Computes.of_eq ?_ rfl))
    cases hmore : (b.bytes.drop (i + 1)).head?.any isDigit with
    | true =>
        rw [if_pos ⟨hzero, rfl⟩]
        exact Computes.setError
    | false =>
        rw [if_neg fun h => Bool.noConfusion h.2]
        exact Computes.pure ()
  · rw [if_neg hzero, if_neg fun h => hzero h.1, if_neg hzero, ← drop_eq_cons hi]
    exact computes_digitLoop hfuel

theorem head?_any {s : Bytes} {x : UInt8} :
    (s.head?.any fun y => decide (y = x)) = true ↔ s.head? = some x := by
  cases s <;> simp

theorem head?_any_or {s : Bytes} {x y : UInt8} :
    (s.head?.any fun z => decide (z = x) || decide (z = y)) = true ↔
      s.head? = some x ∨ s.head? = some y := by
  cases s <;> simp

theorem computes_parseDigits {negative : Bool} {start fuel : Nat} (hn : i ≤ b.n)
    (hstart : start + (if negative then 1 else 0) = i) (hfuel : b.n - i < fuel) :
    Computes b d (parseDigits b negative start fuel) i c
      (Json.parseDigits negative (b.bytes.drop i)) := by
  rw [parseDigits]
  dsimp only
  rw [hstart]
  refine Computes.sees ?_
  cases hdrop : b.bytes.drop i with
  | nil =>
      refine Computes.failIf (fun _ => ?_) nofun
      rw [hdrop]
      rfl
  | cons x cs =>
      have hi : i < b.n := Nat.lt_of_not_le fun hle => by
        rw [drop_eq_nil_iff.mpr hle] at hdrop
        cases hdrop
      rw [Json.parseDigits]
      refine Computes.failIf (fun hnot => ?_) fun hdigit => ?_
      · have hnot : isDigit x = false := by simpa using hnot
        rw [if_pos hnot, hdrop]
      have hdigit : ¬ isDigit x = false := by simpa using hdigit
      rw [if_neg hdigit]
      refine (computes_skipDigits hi hdrop hfuel).bind ?_ ?_
      · intro failure hfailure
        split_ifs at hfailure with hzeros
        dsimp only
        rw [if_pos hzeros.1, if_pos hzeros.1, if_pos hzeros]
        exact congrArg Except.error (Except.error.inj hfailure)
      intro _ j hle hj hparse
      by_cases hzeros : x = 0x30 ∧ (cs.head?.any isDigit) = true
      · rw [if_pos hzeros] at hparse
        cases hparse
      rw [if_neg hzeros] at hparse
      have hrest : (if x = 0x30 then cs else (x :: cs).dropWhile isDigit) = b.bytes.drop j :=
        (Prod.mk.inj (Except.ok.inj hparse)).2
      have hdigits : (b.bytes.drop i).take (j - i) =
          if x = 0x30 then [x] else (x :: cs).takeWhile isDigit := by
        refine take_eq hn hj ?_
        rw [hdrop, ← hrest]
        split_ifs
        · rfl
        · exact List.takeWhile_append_dropWhile.symm
      have hleading : ¬ (x = 0x30 ∧ ((b.bytes.drop j).head?.any isDigit) = true) := by
        rintro ⟨hx, hmore⟩
        rw [← hrest, if_pos hx] at hmore
        exact hzeros ⟨hx, hmore⟩
      dsimp only
      rw [hrest, ← hdigits, if_neg hleading]
      refine Computes.sees (Computes.failIf (fun hpoint => ?_) fun hinteger => ?_)
      · exact if_pos (head?_any.mp hpoint)
      rw [if_neg (fun hpoint => Bool.noConfusion (hinteger.symm.trans (head?_any.mpr hpoint)))]
      refine Computes.sees (Computes.failIf (fun hexponent => ?_) fun hplain => ?_)
      · exact if_pos (head?_any_or.mp hexponent)
      rw [if_neg (fun hexponent =>
        Bool.noConfusion (hplain.symm.trans (head?_any_or.mpr hexponent))), integerOf]
      refine Computes.position ((computes_accumulateLoop (by omega)).bind ?_ ?_)
      · intro failure hfailure
        cases hacc : accumulate (magnitude negative) 0 ((b.bytes.drop i).take (j - i)) with
        | none =>
            rw [hacc] at hfailure
            cases hfailure
            rfl
        | some acc =>
            rw [hacc] at hfailure
            cases hfailure
      · intro acc k _ hk hacc
        cases hvalue : accumulate (magnitude negative) 0 ((b.bytes.drop i).take (j - i)) with
        | none =>
            rw [hvalue] at hacc
            cases hacc
        | some acc' =>
            rw [hvalue] at hacc
            obtain ⟨rfl, hdropk⟩ := Prod.mk.inj (Except.ok.inj hacc)
            obtain rfl := eq_of_drop_eq hj hk hdropk
            exact Computes.pure _

theorem computes_parseNumber {fuel : Nat} (hi : i < b.n) (hfuel : b.n - i < fuel) :
    Computes b d (parseNumber b fuel) i c (Json.parseNumber (b.bytes.drop i)) := by
  have hhead : (b.bytes.drop i).head? = some (b.byte i) := by
    rw [drop_eq_cons hi]
    rfl
  rw [parseNumber, Json.parseNumber]
  refine Computes.position (Computes.peek hi ?_)
  by_cases hsign : b.byte i = 0x2D
  · have htail : (b.bytes.drop i).tail = b.bytes.drop (i + 1) := by
      rw [drop_eq_cons hi]
      rfl
    rw [if_pos hsign, if_pos (hhead.trans (congrArg some hsign)), htail]
    refine Computes.advance hi (Computes.atEnd (Computes.failIf (fun hend => ?_) fun _ => ?_))
    · rw [drop_eq_nil_iff.mpr (of_decide_eq_true hend)]
      rfl
    · exact computes_parseDigits hi (by rfl) (by omega)
  · rw [if_neg hsign, if_neg fun h => hsign (Option.some.inj (hhead.symm.trans h))]
    exact computes_parseDigits hi.le (by rfl) hfuel

/-! ## Objects and arrays -/

/-- What may follow a member or an element: a comma, the closing bracket, or an error. -/
theorem computes_separator {close : UInt8} {again : Scan α} {value : α} {message : String}
    {parse : Parse α} (hi : i < b.n)
    (hcomma : b.byte i = 0x2C → Computes b d again (i + 1) c parse)
    (hclose : b.byte i ≠ 0x2C → b.byte i = close → parse = .ok (value, b.bytes.drop (i + 1)))
    (hother : b.byte i ≠ 0x2C → b.byte i ≠ close →
      parse = Json.setError message (b.bytes.drop i)) :
    Computes b d (do
      if (← peek b) = 0x2C then
        advance 1
        again
      else if (← peek b) = close then
        advance 1
        return value
      else Cursor.setError message) i c parse := by
  refine Computes.peek hi ?_
  by_cases hfirst : b.byte i = 0x2C
  · rw [if_pos hfirst]
    exact Computes.advance hi (hcomma hfirst)
  · rw [if_neg hfirst]
    refine Computes.peek hi ?_
    by_cases hsecond : b.byte i = close
    · rw [if_pos hsecond, hclose hfirst hsecond]
      exact Computes.advance hi (Computes.pure value)
    · rw [if_neg hsecond, hother hfirst hsecond]
      exact Computes.setError

theorem computes_memberLoop {limits : Limits} {parseMember : Scan Value}
    {parse : Bytes → Parse Value} {fuel rounds room : Nat} {members : List (Bytes × Value)}
    (hmember : ∀ j, i ≤ j → j ≤ b.n → Computes b d parseMember j c (parse (b.bytes.drop j)))
    (hfuel : b.n - i < fuel) (hrounds : b.n - i < rounds)
    (hroom : limits.maxMembers - members.length = room) :
    Computes b d (memberLoop b limits parseMember fuel rounds members) i c
      (Json.memberLoop limits parse room members (b.bytes.drop i)) := by
  induction rounds generalizing i room members with
  | zero => omega
  | succ rounds ih =>
      rw [memberLoop]
      unfold Json.memberLoop
      refine Computes.andThen (computes_skipWs hfuel) fun j hij hj hws => ?_
      rw [hws]
      refine Computes.atEnd (Computes.failIf (fun hend => ?_) fun hmore => ?_)
      · rw [drop_eq_nil_iff.mpr (of_decide_eq_true hend)]
      have hlt : j < b.n := Nat.lt_of_not_le (of_decide_eq_false hmore)
      rw [drop_eq_cons hlt]
      dsimp only
      rw [← drop_eq_cons hlt]
      refine Computes.peek hlt
        (Computes.failIf (fun hname => if_pos (of_decide_eq_true hname)) fun hquote => ?_)
      rw [if_neg (of_decide_eq_false hquote)]
      refine (computes_parseString hlt (by omega)).bind (fun failure hfailure => ?_) ?_
      · rw [hfailure]
      intro key k hjk hk hkey
      rw [hkey]
      dsimp only
      refine Computes.failIf (fun hdup => if_pos (of_decide_eq_true hdup)) fun hfresh => ?_
      rw [if_neg (of_decide_eq_false hfresh)]
      refine Computes.failIf (fun hfull => ?_) fun hspace => ?_
      · have hfull := of_decide_eq_true hfull
        obtain rfl : room = 0 := by omega
        rfl
      obtain ⟨room, rfl⟩ : ∃ n, room = n + 1 := by
        have hspace := of_decide_eq_false hspace
        exact ⟨room - 1, by omega⟩
      dsimp only
      refine Computes.andThen (computes_skipWs (by omega)) fun l hkl hl hws => ?_
      rw [hws]
      refine Computes.sees (Computes.failIf (fun hcolon => ?_) fun hcolon => ?_)
      · split
        · next heq =>
            rw [heq] at hcolon
            cases hcolon
        · rfl
      have hcolon : (b.bytes.drop l).head? = some 0x3A := head?_any.mp (by simpa using hcolon)
      have hl : l < b.n := Nat.lt_of_not_le fun hle => by
        rw [drop_eq_nil_iff.mpr hle] at hcolon
        cases hcolon
      rw [drop_eq_cons hl] at hcolon ⊢
      refine Computes.advance hl ?_
      split
      case h_2 hne => exact absurd (congrArg (· :: _) (Option.some.inj hcolon)) (hne _)
      next s heq =>
      obtain rfl : b.bytes.drop (l + 1) = s := (List.cons.inj heq).2
      refine Computes.andThen (computes_skipWs (by omega)) fun m hlm hm hws => ?_
      rw [hws]
      refine (hmember m (by omega) hm).bind (fun failure hfailure => ?_) ?_
      · rw [hfailure]
      intro value o hmo ho hvalue
      rw [hvalue]
      dsimp only
      refine Computes.andThen (computes_skipWs (by omega)) fun q hoq hq hws => ?_
      rw [hws]
      refine Computes.atEnd (Computes.failIf (fun hend => ?_) fun hmore => ?_)
      · rw [drop_eq_nil_iff.mpr (of_decide_eq_true hend)]
      have hlt : q < b.n := Nat.lt_of_not_le (of_decide_eq_false hmore)
      rw [drop_eq_cons hlt]
      refine computes_separator hlt (fun hcomma => ?_) (fun hnot hclose => ?_)
        fun hnot hnot' => ?_
      · rw [hcomma]
        exact ih (fun j' hj' => hmember j' (by omega)) (by omega) (by omega)
          (by rw [List.length_append]; simp; omega)
      · rw [hclose]
        rfl
      · rw [← drop_eq_cons hlt]
        split
        · next heq =>
            rw [drop_eq_cons hlt] at heq
            cases heq
        · next heq => exact absurd (List.cons.inj (drop_eq_cons hlt ▸ heq)).1 hnot
        · next heq => exact absurd (List.cons.inj (drop_eq_cons hlt ▸ heq)).1 hnot'
        · rfl

theorem computes_parseObject {limits : Limits} {parseMember : Scan Value}
    {parse : Bytes → Parse Value} {fuel : Nat} (hi : i < b.n) (hfuel : b.n - i < fuel)
    (hmember : ∀ j, i < j → j ≤ b.n → Computes b d parseMember j c (parse (b.bytes.drop j))) :
    Computes b d (parseObject b limits parseMember fuel) i c
      (Json.parseObject limits parse (b.bytes.drop i)) := by
  rw [parseObject, Json.parseObject, drop_eq_cons hi, List.tail_cons]
  refine Computes.advance hi (Computes.andThen (computes_skipWs (by omega))
    fun j hij hj hws => ?_)
  rw [hws]
  refine Computes.atEnd (Computes.failIf (fun hend => ?_) fun hmore => ?_)
  · rw [drop_eq_nil_iff.mpr (of_decide_eq_true hend)]
  have hlt : j < b.n := Nat.lt_of_not_le (of_decide_eq_false hmore)
  refine Computes.peek hlt ?_
  by_cases hclose : b.byte j = 0x7D
  · rw [if_pos hclose, drop_eq_cons hlt, hclose]
    exact Computes.advance hlt (Computes.pure _)
  · rw [if_neg hclose]
    split
    · next heq =>
        rw [drop_eq_cons hlt] at heq
        cases heq
    · next heq => exact absurd (List.cons.inj (drop_eq_cons hlt ▸ heq)).1 hclose
    · exact computes_memberLoop (fun j' hj' => hmember j' (by omega)) (by omega) (by omega)
        (Nat.sub_zero _)

theorem computes_elementLoop {limits : Limits} {parseElement : Scan Value}
    {parse : Bytes → Parse Value} {fuel rounds room : Nat} {elems : List Value}
    (helement : ∀ j, i ≤ j → j ≤ b.n → Computes b d parseElement j c (parse (b.bytes.drop j)))
    (hfuel : b.n - i < fuel) (hrounds : b.n - i < rounds)
    (hroom : limits.maxElements - elems.length = room) :
    Computes b d (elementLoop b limits parseElement fuel rounds elems) i c
      (Json.elementLoop parse room elems (b.bytes.drop i)) := by
  induction rounds generalizing i room elems with
  | zero => omega
  | succ rounds ih =>
      rw [elementLoop]
      unfold Json.elementLoop
      refine Computes.andThen (computes_skipWs hfuel) fun j hij hj hws => ?_
      rw [hws]
      refine Computes.atEnd (Computes.failIf (fun hend => ?_) fun hmore => ?_)
      · rw [drop_eq_nil_iff.mpr (of_decide_eq_true hend)]
      have hlt : j < b.n := Nat.lt_of_not_le (of_decide_eq_false hmore)
      rw [drop_eq_cons hlt]
      dsimp only
      rw [← drop_eq_cons hlt]
      refine Computes.failIf (fun hfull => ?_) fun hspace => ?_
      · have hfull := of_decide_eq_true hfull
        obtain rfl : room = 0 := by omega
        rfl
      obtain ⟨room, rfl⟩ : ∃ n, room = n + 1 := by
        have hspace := of_decide_eq_false hspace
        exact ⟨room - 1, by omega⟩
      dsimp only
      refine (helement j hij hj).bind (fun failure hfailure => ?_) ?_
      · rw [hfailure]
      intro value o hmo ho hvalue
      rw [hvalue]
      dsimp only
      refine Computes.andThen (computes_skipWs (by omega)) fun q hoq hq hws => ?_
      rw [hws]
      refine Computes.atEnd (Computes.failIf (fun hend => ?_) fun hmore => ?_)
      · rw [drop_eq_nil_iff.mpr (of_decide_eq_true hend)]
      have hlt : q < b.n := Nat.lt_of_not_le (of_decide_eq_false hmore)
      rw [drop_eq_cons hlt]
      refine computes_separator hlt (fun hcomma => ?_) (fun hnot hclose => ?_)
        fun hnot hnot' => ?_
      · rw [hcomma]
        exact ih (fun j' hj' => helement j' (by omega)) (by omega) (by omega)
          (by rw [List.length_append]; simp; omega)
      · rw [hclose]
        rfl
      · rw [← drop_eq_cons hlt]
        split
        · next heq =>
            rw [drop_eq_cons hlt] at heq
            cases heq
        · next heq => exact absurd (List.cons.inj (drop_eq_cons hlt ▸ heq)).1 hnot
        · next heq => exact absurd (List.cons.inj (drop_eq_cons hlt ▸ heq)).1 hnot'
        · rfl

theorem computes_parseArray {limits : Limits} {parseElement : Scan Value}
    {parse : Bytes → Parse Value} {fuel : Nat} (hi : i < b.n) (hfuel : b.n - i < fuel)
    (helement : ∀ j, i < j → j ≤ b.n → Computes b d parseElement j c (parse (b.bytes.drop j))) :
    Computes b d (parseArray b limits parseElement fuel) i c
      (Json.parseArray limits parse (b.bytes.drop i)) := by
  rw [parseArray, Json.parseArray, drop_eq_cons hi, List.tail_cons]
  refine Computes.advance hi (Computes.andThen (computes_skipWs (by omega))
    fun j hij hj hws => ?_)
  rw [hws]
  refine Computes.atEnd (Computes.failIf (fun hend => ?_) fun hmore => ?_)
  · rw [drop_eq_nil_iff.mpr (of_decide_eq_true hend)]
  have hlt : j < b.n := Nat.lt_of_not_le (of_decide_eq_false hmore)
  refine Computes.peek hlt ?_
  by_cases hclose : b.byte j = 0x5D
  · rw [if_pos hclose, drop_eq_cons hlt, hclose]
    exact Computes.advance hlt (Computes.pure _)
  · rw [if_neg hclose]
    split
    · next heq =>
        rw [drop_eq_cons hlt] at heq
        cases heq
    · next heq => exact absurd (List.cons.inj (drop_eq_cons hlt ▸ heq)).1 hclose
    · exact computes_elementLoop (fun j' hj' => helement j' (by omega)) (by omega) (by omega)
        (Nat.sub_zero _)

/-! ## Values -/

/-- `parse_value`, called inside `c` others. -/
theorem computes_parseValue {limits : Limits} {fuel : Nat} (hc : c ≤ limits.maxDepth)
    (hi : i ≤ b.n) (hfuel : b.n - i + 1 < fuel) :
    Computes b limits.maxDepth (parseValue b limits fuel (c + 1)) i c
      (Json.parseValue limits (limits.maxDepth - c) (b.bytes.drop i)) := by
  induction fuel generalizing i c with
  | zero => omega
  | succ fuel ih =>
      rw [parseValue]
      refine Computes.called hc (Computes.failIf (fun hdeep => ?_) fun hlevel => ?_)
      · have hdeep := of_decide_eq_true hdeep
        rw [show limits.maxDepth - c = 0 by omega]
        rfl
      obtain ⟨levels, hlevels⟩ : ∃ n, limits.maxDepth - c = n + 1 := by
        have hlevel := of_decide_eq_false hlevel
        exact ⟨limits.maxDepth - c - 1, by omega⟩
      have hchild : ∀ j, i < j → j ≤ b.n → Computes b limits.maxDepth
          (parseValue b limits fuel (c + 1 + 1)) j (c + 1)
          (Json.parseValue limits levels (b.bytes.drop j)) := by
        intro j hij hj
        have hlevel : limits.maxDepth - (c + 1) = levels := by omega
        exact hlevel ▸ ih (by omega) hj (by omega)
      rw [hlevels]
      refine Computes.atEnd (Computes.failIf (fun hend => ?_) fun hmore => ?_)
      · rw [drop_eq_nil_iff.mpr (of_decide_eq_true hend)]
        rfl
      have hlt : i < b.n := Nat.lt_of_not_le (of_decide_eq_false hmore)
      rw [drop_eq_cons hlt, Json.parseValue, ← drop_eq_cons hlt]
      refine Computes.peek hlt ?_
      by_cases hobject : b.byte i = 0x7B
      · rw [if_pos hobject, if_pos hobject]
        exact computes_parseObject hlt (by omega) hchild
      rw [if_neg hobject, if_neg hobject]
      by_cases harray : b.byte i = 0x5B
      · rw [if_pos harray, if_pos harray]
        exact computes_parseArray hlt (by omega) hchild
      rw [if_neg harray, if_neg harray]
      by_cases hstring : b.byte i = 0x22
      · rw [if_pos hstring, if_pos hstring]
        exact (computes_parseString hlt (by omega)).map Value.string
      rw [if_neg hstring, if_neg hstring]
      by_cases htrue : b.byte i = 0x74
      · rw [if_pos htrue, if_pos htrue]
        exact (computes_literal hi).map fun _ => Value.bool true
      rw [if_neg htrue, if_neg htrue]
      by_cases hfalse : b.byte i = 0x66
      · rw [if_pos hfalse, if_pos hfalse]
        exact (computes_literal hi).map fun _ => Value.bool false
      rw [if_neg hfalse, if_neg hfalse]
      by_cases hnull : b.byte i = 0x6E
      · rw [if_pos hnull, if_pos hnull]
        exact Computes.setError
      rw [if_neg hnull, if_neg hnull]
      by_cases hnumber : b.byte i = 0x2D ∨ isDigit (b.byte i) = true
      · rw [if_pos hnumber, if_pos hnumber]
        exact computes_parseNumber hlt (by omega)
      · rw [if_neg hnumber, if_neg hnumber]
        exact Computes.setError

/-! ## The run -/

theorem Computes.startsWithMark {f : Bool → Scan β} {parse : Parse β}
    (h : Computes b d (f ([0xEF, 0xBB, 0xBF].isPrefixOf b.bytes)) i c parse) :
    Computes b d (Cursor.startsWithMark b >>= f) i c parse := by
  rw [Cursor.startsWithMark]
  by_cases hshort : b.n < 3
  · have hno : [0xEF, 0xBB, 0xBF].isPrefixOf b.bytes = false := by
      rw [Bool.eq_false_iff, Ne, List.isPrefixOf_iff_prefix]
      intro hmark
      exact absurd hmark.length_le (Nat.not_le_of_lt hshort)
    rw [hno] at h
    rw [if_pos hshort]
    exact h
  · have hbytes : b.bytes = b.byte 0 :: b.byte 1 :: b.byte 2 :: b.bytes.drop 3 := by
      rw [← drop_eq_cons (by omega), ← drop_eq_cons (by omega), ← drop_eq_cons (by omega)]
      rfl
    have hmark : [0xEF, 0xBB, 0xBF].isPrefixOf b.bytes =
        (0xEF == b.byte 0 && (0xBB == b.byte 1 && (0xBF == b.byte 2 && true))) := by
      rw [hbytes]
      rfl
    rw [hmark] at h
    rw [if_neg hshort, bind_assoc]
    refine Computes.readAt (by omega) ?_
    by_cases hfirst : b.byte 0 = 0xEF
    · rw [if_neg (not_not.mpr hfirst), bind_assoc]
      refine Computes.readAt (by omega) ?_
      by_cases hsecond : b.byte 1 = 0xBB
      · rw [if_neg (not_not.mpr hsecond), bind_assoc]
        refine Computes.readAt (by omega) ?_
        have hthird : (0xBF == b.byte 2) = decide (b.byte 2 = 0xBF) := by
          rw [Bool.eq_iff_iff, beq_iff_eq, decide_eq_true_eq, eq_comm]
        rw [hfirst, hsecond, hthird, Bool.and_true] at h
        exact h
      · rw [if_pos hsecond]
        rw [beq_eq_false_iff_ne.mpr fun heq => hsecond heq.symm, Bool.false_and,
          Bool.and_false] at h
        exact h
    · rw [if_pos hfirst]
      rw [beq_eq_false_iff_ne.mpr fun heq => hfirst heq.symm, Bool.false_and] at h
      exact h

theorem computes_run {limits : Limits} {fuel : Nat} (hfuel : b.n + 1 < fuel) :
    Computes b limits.maxDepth (run b limits fuel) 0 0 (Json.run limits b.bytes) := by
  rw [run, Json.run, show b.bytes.length = b.n from rfl]
  refine Computes.failIf (fun hlarge => if_pos (of_decide_eq_true hlarge)) fun hsmall => ?_
  rw [if_neg (of_decide_eq_false hsmall)]
  refine Computes.startsWithMark (Computes.failIf (fun hmark => if_pos hmark) fun hplain => ?_)
  rw [if_neg (by rw [hplain]; exact Bool.noConfusion)]
  refine Computes.andThen (computes_skipWs (by omega)) fun j _ hj hws => ?_
  rw [List.drop_zero] at hws
  rw [hws]
  refine Computes.atEnd (Computes.failIf (fun hend => ?_) fun hmore => ?_)
  · rw [drop_eq_nil_iff.mpr (of_decide_eq_true hend)]
  have hlt : j < b.n := Nat.lt_of_not_le (of_decide_eq_false hmore)
  rw [drop_eq_cons hlt]
  dsimp only
  rw [← drop_eq_cons hlt]
  refine Computes.peek hlt
    (Computes.failIf (fun hother => if_pos (of_decide_eq_true hother)) fun hbrace => ?_)
  rw [if_neg (of_decide_eq_false hbrace)]
  refine (computes_parseValue (Nat.zero_le _) hj (by omega)).bind
    (fun failure hfailure => ?_) ?_
  · rw [Nat.sub_zero] at hfailure
    rw [hfailure]
  intro value k _ hk hvalue
  rw [Nat.sub_zero] at hvalue
  rw [hvalue]
  dsimp only
  refine Computes.andThen (computes_skipWs (by omega)) fun l _ hl hws => ?_
  rw [hws]
  refine Computes.atEnd (Computes.failIf (fun hrest => ?_) fun hend => ?_)
  · split
    · next heq => simp [drop_eq_nil_iff.mp heq] at hrest
    · rfl
  · have hend : b.bytes.drop l = [] := drop_eq_nil_iff.mpr (by simpa using hend)
    rw [hend]
    exact (Computes.pure value).of_eq (by rw [hend])

theorem at_start : At b d 0 0 [] {} where
  cursor := rfl
  le := Nat.zero_le _
  error := rfl
  calls := rfl
  within := nofun

/-- With more rounds than bytes, the run is the parse, down to the offset of the message. -/
theorem run_eq_parse (b : Buffer) (limits : Limits) {fuel : Nat} (hfuel : b.n + 1 < fuel) :
    Json.parse limits b.bytes =
      match run b limits fuel {} with
      | (.ok value, _) => .ok value
      | (.error _, s) => .error (s.error ++ lit " at offset " ++ decimal s.i) := by
  have hrun : Computes b limits.maxDepth (run b limits fuel) 0 0 _ := computes_run hfuel
  replace hrun := hrun {} at_start
  rw [Json.parse]
  cases hparse : Json.run limits b.bytes with
  | ok result =>
      rw [hparse] at hrun
      obtain ⟨_, _, _, hvalue, _⟩ := hrun
      rw [show run b limits fuel {} = (.ok result.1, (run b limits fuel {}).2) from
        Prod.ext hvalue rfl]
  | error failure =>
      rw [hparse] at hrun
      obtain ⟨j, hrest, hstop, hat⟩ := hrun
      have hoffset : b.bytes.length - failure.rest.length = j := by
        have hle := hat.le
        rw [hrest, length_drop]
        show b.n - (b.n - j) = j
        omega
      rw [show run b limits fuel {} = (.error .failed, (run b limits fuel {}).2) from
        Prod.ext hstop rfl]
      dsimp only
      rw [hoffset, hat.cursor, hat.error]

/-- For every input and every limits: `n_ + 2` rounds of each loop are enough for the run to
end, and nothing is touched outside on the way. -/
theorem run_stays_within_bounds (b : Buffer) (limits : Limits) (more : Nat) :
    (run b limits (b.n + 2 + more) {}).1 ≠ .error .unfinished ∧
      (run b limits (b.n + 2 + more) {}).2.i ≤ b.n ∧
      ∀ access ∈ (run b limits (b.n + 2 + more) {}).2.touched,
        access.Within b.n limits.maxDepth := by
  have hrun : Computes b limits.maxDepth (run b limits (b.n + 2 + more)) 0 0 _ :=
    computes_run (by omega)
  replace hrun := hrun {} at_start
  cases hparse : Json.run limits b.bytes with
  | ok result =>
      rw [hparse] at hrun
      obtain ⟨j, _, _, hvalue, hat⟩ := hrun
      rw [hvalue, hat.cursor]
      exact ⟨nofun, hat.le, hat.within⟩
  | error failure =>
      rw [hparse] at hrun
      obtain ⟨j, _, hstop, hat⟩ := hrun
      rw [hstop, hat.cursor]
      exact ⟨nofun, hat.le, hat.within⟩

end FileMover.Json.Cursor
