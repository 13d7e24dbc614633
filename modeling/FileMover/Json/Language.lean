import FileMover.Json.Strings
import FileMover.Json.Numbers

/-!
# The parser accepts exactly its language

Soundness and completeness of `parse_value` by induction on the levels that are
left, each loop once for an arbitrary parser of what it holds. From them, `parse`
returns a value exactly for the documents of the grammar, and it is the value
the document denotes.
-/

namespace FileMover.Json

variable {limits : Limits} {level levels : Nat}

/-! ## Where values stand -/

/-- A value starts neither with whitespace nor with the end of an array. -/
theorem IsValue.head {text : Bytes} {value : Value} (h : IsValue limits level text value) :
    ∃ b tail, text = b :: tail ∧ isWs b = false ∧ b ≠ 0x5D := by
  cases h with
  | litTrue => exact ⟨0x74, _, rfl, by decide⟩
  | litFalse => exact ⟨0x66, _, rfl, by decide⟩
  | int _ h =>
      cases h with
      | plain hnat =>
          obtain ⟨d, ds, rfl, hd⟩ := hnat.head
          have hd' := isDigit_iff.mp hd
          refine ⟨d, ds, rfl, ?_, by grind⟩
          simp only [isWs]
          grind
      | minus => exact ⟨0x2D, _, rfl, by decide⟩
  | string _ h =>
      obtain ⟨tail, rfl⟩ := h.head
      exact ⟨0x22, tail, rfl, by decide⟩
  | emptyArray => exact ⟨0x5B, _, rfl, by decide⟩
  | array => exact ⟨0x5B, _, rfl, by decide⟩
  | emptyObject => exact ⟨0x7B, _, rfl, by decide⟩
  | object => exact ⟨0x7B, _, rfl, by decide⟩

theorem IsValue.stops {text : Bytes} {value : Value} (h : IsValue limits level text value)
    (rest : Bytes) : Stops (text ++ rest) := by
  obtain ⟨b, tail, rfl, hb, -⟩ := h.head
  exact stops_cons hb _

/-- Whitespace and what may follow it may follow a value. -/
theorem follows_space {w : Bytes} {b : UInt8} (hw : Space w) (hb : b ∈ [0x2C, 0x5D, 0x7D])
    (rest : Bytes) : Follows (w ++ b :: rest) := by
  intro b' hb'
  cases w with
  | nil =>
      obtain rfl : b = b' := by simpa using hb'
      simp only [List.mem_cons, List.not_mem_nil, or_false] at hb ⊢
      grind
  | cons c w =>
      obtain rfl : c = b' := by simpa using hb'
      have hc := hw c (by simp)
      simp only [List.mem_cons, List.not_mem_nil, or_false] at hc ⊢
      grind

theorem follows_of_space {w : Bytes} (hw : Space w) : Follows w := by
  intro b hb
  have hmem := hw b (List.mem_of_mem_head? hb)
  simp only [List.mem_cons, List.not_mem_nil, or_false] at hmem ⊢
  grind

/-! ## Soundness -/

section Soundness

variable {child : Bytes → Parse Value}
  (hchild : ∀ s value rest, child s = .ok (value, rest) →
    ∃ text, s = text ++ rest ∧ IsValue limits level text value)

include hchild

theorem elementLoop_sound {room : Nat} {elems : List Value} {s rest : Bytes} {value : Value}
    (h : elementLoop child room elems s = .ok (value, rest)) :
    ∃ text more, s = text ++ 0x5D :: rest ∧ value = .array (elems ++ more) ∧
      IsElements limits level text more ∧ more.length ≤ room := by
  induction room generalizing elems s with
  | zero =>
      unfold elementLoop at h
      split at h <;> cases h
  | succ room ih =>
      unfold elementLoop at h
      obtain ⟨w, hs, hw⟩ := exists_skipWs s
      split at h
      · cases h
      rename_i c cs hskip
      simp only at h
      split at h
      · cases h
      rename_i v s' hv
      obtain ⟨text, htext, hvalue⟩ := hchild _ _ _ hv
      obtain ⟨w', hs', hw'⟩ := exists_skipWs s'
      split at h
      · cases h
      · -- a comma: the elements after it come from the next round
        rename_i s'' hskip'
        obtain ⟨texts, more, rfl, rfl, hmore, hlen⟩ := ih h
        refine ⟨w ++ text ++ w' ++ 0x2C :: texts, v :: more, ?_, by simp,
          .more hw hvalue hw' hmore, by simpa using hlen⟩
        rw [hs, hskip, htext, hs', hskip']
        simp
      · rename_i s'' hskip'
        cases h
        refine ⟨w ++ text ++ w', [v], ?_, rfl, .one hw hvalue hw', by simp⟩
        rw [hs, hskip, htext, hs', hskip']
        simp
      · cases h

theorem memberLoop_sound {room : Nat} {members : List (Bytes × Value)} {s rest : Bytes}
    {value : Value} (h : memberLoop limits child room members s = .ok (value, rest))
    (hnodup : (members.map Prod.fst).Nodup) :
    ∃ text more, s = text ++ 0x7D :: rest ∧ value = .object (members ++ more) ∧
      IsMembers limits level text more ∧ more.length ≤ room ∧
      ((members ++ more).map Prod.fst).Nodup := by
  induction room generalizing members s with
  | zero =>
      unfold memberLoop at h
      simp only [setError] at h
      split at h
      · cases h
      split_ifs at h
      split at h
      · cases h
      · split_ifs at h
  | succ room ih =>
      unfold memberLoop at h
      simp only [setError] at h
      obtain ⟨w, hs, hw⟩ := exists_skipWs s
      split at h
      · cases h
      rename_i c cs hskip
      split_ifs at h with hquote
      split at h
      · cases h
      rename_i key s₁ hkey
      obtain rfl : c = 0x22 := not_not.mp hquote
      obtain ⟨name, hname, hstring⟩ := parseString_sound rfl hkey
      obtain ⟨w₁, hs₁, hw₁⟩ := exists_skipWs s₁
      split_ifs at h with hdup
      split at h
      swap
      · cases h
      rename_i s₂ hcolon
      obtain ⟨w₂, hs₂, hw₂⟩ := exists_skipWs s₂
      split at h
      · cases h
      rename_i v s₃ hv
      obtain ⟨text, htext, hvalue⟩ := hchild _ _ _ hv
      obtain ⟨w₃, hs₃, hw₃⟩ := exists_skipWs s₃
      have hmember : IsMember limits level
          (w ++ name ++ w₁ ++ 0x3A :: w₂ ++ text ++ w₃) (key, v) :=
        .mk hw hstring hw₁ hw₂ hvalue hw₃
      have hnodup' : ((members ++ [(key, v)]).map Prod.fst).Nodup := by
        rw [List.map_append, List.nodup_append]
        refine ⟨hnodup, by simp, ?_⟩
        rintro a ha b hb rfl
        obtain rfl : a = key := by simpa using hb
        exact hdup ha
      have hread : s = w ++ name ++ w₁ ++ 0x3A :: w₂ ++ text ++ w₃ ++ skipWs s₃ := by
        rw [List.append_assoc _ w₃, ← hs₃, List.append_assoc _ text, ← htext]
        rw [hs, hskip, hname, hs₁, hcolon, hs₂]
        simp [← hs₂]
      split at h
      · cases h
      · rename_i s₄ hskip₃
        obtain ⟨texts, more, rfl, rfl, hmore, hlen, hall⟩ := ih h hnodup'
        refine ⟨_ ++ 0x2C :: texts, (key, v) :: more, ?_, by simp, .more hmember hmore,
          by simpa using hlen, by simpa using hall⟩
        rw [hread, hskip₃]
        simp
      · rename_i s₄ hskip₃
        cases h
        refine ⟨_, [(key, v)], ?_, rfl, .one hmember, by simp, hnodup'⟩
        rw [hread, hskip₃]
      · cases h

end Soundness

/-- A loop does not mind whitespace that is skipped before it. -/
theorem memberLoop_skipWs (child : Bytes → Parse Value) (room : Nat)
    (members : List (Bytes × Value)) (s : Bytes) :
    memberLoop limits child room members (skipWs s) = memberLoop limits child room members s := by
  unfold memberLoop
  rw [skipWs_skipWs]

theorem elementLoop_skipWs (child : Bytes → Parse Value) (room : Nat) (elems : List Value)
    (s : Bytes) :
    elementLoop child room elems (skipWs s) = elementLoop child room elems s := by
  unfold elementLoop
  rw [skipWs_skipWs]

theorem literal_sound {word : String} {s rest : Bytes} (h : literal word s = .ok ((), rest)) :
    s = lit word ++ rest := by
  simp only [literal, setError] at h
  split_ifs at h with hword
  cases h
  obtain ⟨tail, rfl⟩ := List.isPrefixOf_iff_prefix.mp hword
  simp

theorem parseValue_sound {s rest : Bytes} {value : Value}
    (hlevel : level + levels = limits.maxDepth + 1)
    (h : parseValue limits levels s = .ok (value, rest)) :
    ∃ text, s = text ++ rest ∧ IsValue limits level text value := by
  induction levels generalizing level s value rest with
  | zero => cases h
  | succ levels ih =>
      have hdeep : level ≤ limits.maxDepth := by omega
      have hchild : ∀ s value rest, parseValue limits levels s = .ok (value, rest) →
          ∃ text, s = text ++ rest ∧ IsValue limits (level + 1) text value :=
        fun s value rest hs => ih (by omega) hs
      cases s with
      | nil => cases h
      | cons c cs =>
          simp only [parseValue, setError] at h
          split_ifs at h with hobject harray hstring htrue hfalse hnull hnumber
          · subst hobject
            simp only [parseObject, List.tail_cons, setError] at h
            obtain ⟨w, hcs, hw⟩ := exists_skipWs cs
            split at h
            · cases h
            · rename_i s' hskip
              cases h
              exact ⟨0x7B :: w ++ [0x7D], by rw [hcs, hskip]; simp, .emptyObject hdeep hw⟩
            · rw [memberLoop_skipWs] at h
              obtain ⟨text, more, rfl, rfl, hmore, hlen, hnodup⟩ :=
                memberLoop_sound hchild h (by simp)
              exact ⟨0x7B :: text ++ [0x7D], by simp, .object hdeep hmore hlen hnodup⟩
          · subst harray
            simp only [parseArray, List.tail_cons, setError] at h
            obtain ⟨w, hcs, hw⟩ := exists_skipWs cs
            split at h
            · cases h
            · rename_i s' hskip
              cases h
              exact ⟨0x5B :: w ++ [0x5D], by rw [hcs, hskip]; simp, .emptyArray hdeep hw⟩
            · rw [elementLoop_skipWs] at h
              obtain ⟨text, more, rfl, rfl, hmore, hlen⟩ := elementLoop_sound hchild h
              exact ⟨0x5B :: text ++ [0x5D], by simp, .array hdeep hmore hlen⟩
          · cases hread : parseString limits (c :: cs) with
            | error failure =>
                rw [hread] at h
                cases h
            | ok r =>
                obtain ⟨v, s'⟩ := r
                rw [hread] at h
                cases h
                obtain ⟨text, heq, hv⟩ := parseString_sound (by rw [hstring]; rfl) hread
                exact ⟨text, heq, .string hdeep hv⟩
          · cases hread : literal "true" (c :: cs) with
            | error failure =>
                rw [hread] at h
                cases h
            | ok r =>
                rw [hread] at h
                cases h
                exact ⟨_, literal_sound hread, .litTrue hdeep⟩
          · cases hread : literal "false" (c :: cs) with
            | error failure =>
                rw [hread] at h
                cases h
            | ok r =>
                rw [hread] at h
                cases h
                exact ⟨_, literal_sound hread, .litFalse hdeep⟩
          · obtain ⟨text, n, heq, hn, rfl⟩ := parseNumber_sound h
            exact ⟨text, heq, .int hdeep hn⟩

/-! ## Completeness -/

section Completeness

variable {child : Bytes → Parse Value}
  (hchild : ∀ text value rest, IsValue limits level text value → Follows rest →
    child (text ++ rest) = .ok (value, rest))

include hchild

theorem elementLoop_complete {room : Nat} {elems more : List Value} {text : Bytes}
    (h : IsElements limits level text more) (hlen : more.length ≤ room) (rest : Bytes) :
    elementLoop child room elems (text ++ 0x5D :: rest) = .ok (.array (elems ++ more), rest) := by
  induction more generalizing room elems text with
  | nil => cases h
  | cons value more ih =>
      obtain ⟨room, rfl⟩ : ∃ n, room = n + 1 := ⟨room - 1, by simp at hlen; omega⟩
      -- one round: the value at the head, up to the delimiter after it
      have hround : ∀ {w text w' rest' : Bytes} {b : UInt8}, Space w →
          IsValue limits level text value → Space w' → b ∈ [0x2C, 0x5D] →
          elementLoop child (room + 1) elems (w ++ text ++ w' ++ b :: rest') =
            if b = 0x2C then elementLoop child room (elems ++ [value]) rest'
            else .ok (.array (elems ++ [value]), rest') := by
        intro w text w' rest' b hw hvalue hw' hb
        obtain ⟨c, tail, rfl, hc, -⟩ := hvalue.head
        have hb' : isWs b = false ∧ b ∈ [0x2C, 0x5D, 0x7D] := by
          simp only [List.mem_cons, List.not_mem_nil, or_false] at hb
          rcases hb with rfl | rfl <;> decide
        have hread := hchild _ _ (w' ++ b :: rest') hvalue (follows_space hw' hb'.2 rest')
        have hskip : skipWs (w ++ (c :: tail) ++ w' ++ b :: rest') =
            c :: (tail ++ (w' ++ b :: rest')) := by
          rw [List.append_assoc, List.append_assoc]
          exact skipWs_append hw (stops_cons hc _)
        have hskip' : skipWs (w' ++ b :: rest') = b :: rest' :=
          skipWs_append hw' (stops_cons hb'.1 _)
        rw [elementLoop.eq_def]
        rw [List.cons_append] at hread
        simp only [hskip, hread, hskip']
        simp only [List.mem_cons, List.not_mem_nil, or_false] at hb
        rcases hb with rfl | rfl <;> rfl
      cases h with
      | one hw hvalue hw' =>
          rw [hround hw hvalue hw' (by simp)]
          rfl
      | @more _ w text₁ w' texts _ _ hw hvalue hw' hs =>
          have hrest := @ih room (elems ++ [value]) texts hs (by simpa using hlen)
          rw [List.append_assoc _ (0x2C :: texts), List.cons_append,
            hround hw hvalue hw' (by simp), if_pos rfl, hrest]
          simp

theorem memberLoop_complete {room : Nat} {members more : List (Bytes × Value)} {text : Bytes}
    (h : IsMembers limits level text more) (hlen : more.length ≤ room)
    (hnodup : ((members ++ more).map Prod.fst).Nodup) (rest : Bytes) :
    memberLoop limits child room members (text ++ 0x7D :: rest) =
      .ok (.object (members ++ more), rest) := by
  induction more generalizing room members text with
  | nil => cases h
  | cons member more ih =>
      obtain ⟨room, rfl⟩ : ∃ n, room = n + 1 := ⟨room - 1, by simp at hlen; omega⟩
      -- one round: the member at the head, up to the delimiter after it
      have hround : ∀ {text rest' : Bytes} {b : UInt8}, IsMember limits level text member →
          b ∈ [0x2C, 0x7D] →
          memberLoop limits child (room + 1) members (text ++ b :: rest') =
            if b = 0x2C then memberLoop limits child room (members ++ [member]) rest'
            else .ok (.object (members ++ [member]), rest') := by
        intro text rest' b hmember hb
        obtain @⟨_, w, name, w₁, w₂, text, w₃, key, value, hw, hkey, hw₁, hw₂, hvalue, hw₃⟩ :=
          hmember
        have hb' : isWs b = false ∧ b ∈ [0x2C, 0x5D, 0x7D] := by
          simp only [List.mem_cons, List.not_mem_nil, or_false] at hb
          rcases hb with rfl | rfl <;> decide
        have hfresh : key ∉ members.map Prod.fst := by
          rw [List.map_append, List.nodup_append] at hnodup
          exact fun hmem => hnodup.2.2 key hmem key (by simp) rfl
        obtain ⟨tail, rfl⟩ := hkey.head
        have hskip : skipWs (w ++ (0x22 :: tail) ++ w₁ ++ 0x3A :: w₂ ++ text ++ w₃ ++
            b :: rest') =
            0x22 :: (tail ++ (w₁ ++ 0x3A :: (w₂ ++ (text ++ (w₃ ++ b :: rest'))))) := by
          have hstop := stops_cons (by decide : isWs 0x22 = false)
            (tail ++ (w₁ ++ 0x3A :: (w₂ ++ (text ++ (w₃ ++ b :: rest')))))
          simpa using skipWs_append hw hstop
        have hread := parseString_complete hkey
          (w₁ ++ 0x3A :: (w₂ ++ (text ++ (w₃ ++ b :: rest'))))
        have hskip₁ : skipWs (w₁ ++ 0x3A :: (w₂ ++ (text ++ (w₃ ++ b :: rest')))) =
            0x3A :: (w₂ ++ (text ++ (w₃ ++ b :: rest'))) :=
          skipWs_append hw₁ (stops_cons (by decide) _)
        have hskip₂ : skipWs (w₂ ++ (text ++ (w₃ ++ b :: rest'))) = text ++ (w₃ ++ b :: rest') :=
          skipWs_append hw₂ (hvalue.stops _)
        have hread' := hchild _ _ (w₃ ++ b :: rest') hvalue (follows_space hw₃ hb'.2 rest')
        have hskip₃ : skipWs (w₃ ++ b :: rest') = b :: rest' :=
          skipWs_append hw₃ (stops_cons hb'.1 _)
        rw [memberLoop.eq_def]
        rw [List.cons_append] at hread
        simp only [hskip, hread, ne_eq, not_true_eq_false, if_false, hfresh, hskip₁, hskip₂, hread',
          hskip₃]
        simp only [List.mem_cons, List.not_mem_nil, or_false] at hb
        rcases hb with rfl | rfl <;> rfl
      cases h with
      | one hmember =>
          rw [hround hmember (by simp)]
          rfl
      | @more _ text₁ texts _ _ hmember hs =>
          have hrest := @ih room (members ++ [member]) texts hs (by simpa using hlen)
            (by simpa using hnodup)
          rw [List.append_assoc, List.cons_append, hround hmember (by simp), if_pos rfl, hrest]
          simp

end Completeness

/-- A list of elements does not look like the end of the array. -/
theorem IsElements.head {text : Bytes} {elems : List Value}
    (h : IsElements limits level text elems) (rest : Bytes) :
    ∃ b tail, skipWs (text ++ rest) = b :: tail ∧ b ≠ 0x5D := by
  have hone : ∀ {w text : Bytes} {value : Value} (rest : Bytes), Space w →
      IsValue limits level text value →
      ∃ b tail, skipWs (w ++ (text ++ rest)) = b :: tail ∧ b ≠ 0x5D := by
    intro w text value rest hw hvalue
    obtain ⟨b, tail, rfl, hb, hne⟩ := hvalue.head
    exact ⟨b, tail ++ rest, skipWs_append hw (stops_cons hb _), hne⟩
  cases h with
  | one hw hvalue _ => simpa using hone (_ ++ rest) hw hvalue
  | more hw hvalue _ _ => simpa using hone (_ ++ 0x2C :: (_ ++ rest)) hw hvalue

/-- A list of members starts with the name of the first. -/
theorem IsMembers.head {text : Bytes} {members : List (Bytes × Value)}
    (h : IsMembers limits level text members) (rest : Bytes) :
    ∃ tail, skipWs (text ++ rest) = 0x22 :: tail := by
  have hone : ∀ {text : Bytes} {member : Bytes × Value} (rest : Bytes),
      IsMember limits level text member → ∃ tail, skipWs (text ++ rest) = 0x22 :: tail := by
    intro text member rest hmember
    obtain @⟨_, w, name, w₁, w₂, text, w₃, key, value, hw, hkey, -, -, -, -⟩ := hmember
    obtain ⟨tail, rfl⟩ := hkey.head
    refine ⟨tail ++ (w₁ ++ 0x3A :: (w₂ ++ (text ++ (w₃ ++ rest)))), ?_⟩
    simpa using skipWs_append hw (stops_cons (by decide : isWs 0x22 = false) _)
  cases h with
  | one hmember => exact hone rest hmember
  | more hmember _ => simpa using hone (0x2C :: (_ ++ rest)) hmember

theorem parseValue_complete {text : Bytes} {value : Value}
    (hlevel : level + levels = limits.maxDepth + 1) (h : IsValue limits level text value)
    {rest : Bytes} (hrest : Follows rest) :
    parseValue limits levels (text ++ rest) = .ok (value, rest) := by
  induction levels generalizing level text value rest with
  | zero =>
      have hdeep : level ≤ limits.maxDepth := by cases h <;> assumption
      omega
  | succ levels ih =>
      have hchild : ∀ text value rest, IsValue limits (level + 1) text value → Follows rest →
          parseValue limits levels (text ++ rest) = .ok (value, rest) :=
        fun text value rest hvalue hrest => ih (by omega) hvalue hrest
      cases h with
      | litTrue => rfl
      | litFalse => rfl
      | @int _ _ n _ hint =>
          have hread := parseNumber_complete hint hrest
          -- a numeral starts with a sign or a digit, which no other value does
          obtain ⟨c, tail, rfl, hc⟩ :
              ∃ c tail, text = c :: tail ∧ (c = 0x2D ∨ isDigit c = true) := by
            cases hint with
            | plain hnat =>
                obtain ⟨d, ds, rfl, hd⟩ := hnat.head
                exact ⟨d, ds, rfl, .inr hd⟩
            | minus => exact ⟨0x2D, _, rfl, .inl rfl⟩
          have hne : c ≠ 0x7B ∧ c ≠ 0x5B ∧ c ≠ 0x22 ∧ c ≠ 0x74 ∧ c ≠ 0x66 ∧ c ≠ 0x6E := by
            rw [isDigit_iff] at hc
            grind
          rw [List.cons_append] at hread ⊢
          simp only [parseValue, hne, hc, if_true, if_false, hread]
      | string _ hstring =>
          have hread := parseString_complete hstring rest
          obtain ⟨tail, rfl⟩ := hstring.head
          rw [List.cons_append] at hread ⊢
          simp [parseValue, hread]
          rfl
      | @emptyArray _ w _ hw =>
          have hskip : skipWs (w ++ 0x5D :: rest) = 0x5D :: rest :=
            skipWs_append hw (stops_cons (by decide) _)
          simp [parseValue, parseArray, hskip]
      | @array _ text elems _ helems hlen =>
          have hloop := @elementLoop_complete _ _ _ hchild limits.maxElements [] elems text helems
            hlen rest
          obtain ⟨b, tail, hskip, hne⟩ := helems.head (0x5D :: rest)
          rw [← elementLoop_skipWs, hskip] at hloop
          simp [parseValue, parseArray, hskip, hne, hloop]
      | @emptyObject _ w _ hw =>
          have hskip : skipWs (w ++ 0x7D :: rest) = 0x7D :: rest :=
            skipWs_append hw (stops_cons (by decide) _)
          simp [parseValue, parseObject, hskip]
      | @object _ text members _ hmembers hlen hnodup =>
          have hloop := @memberLoop_complete _ _ _ hchild limits.maxMembers [] members text hmembers
            hlen hnodup rest
          obtain ⟨tail, hskip⟩ := hmembers.head (0x7D :: rest)
          rw [← memberLoop_skipWs, hskip] at hloop
          simp [parseValue, parseObject, hskip, hloop]

/-! ## Documents -/

/-- The objects are the values that start with a brace. -/
theorem IsValue.object_iff {text : Bytes} {value : Value} (h : IsValue limits level text value) :
    (∃ members, value = .object members) ↔ text.head? = some 0x7B := by
  cases h with
  | litTrue => simp [lit]
  | litFalse => simp [lit]
  | int _ hint =>
      cases hint with
      | plain hnat =>
          obtain ⟨d, ds, rfl, hd⟩ := hnat.head
          have hne : d ≠ 0x7B := by
            rintro rfl
            exact absurd hd (by decide)
          simp [hne]
      | minus => simp
  | string _ hstring =>
      obtain ⟨tail, rfl⟩ := hstring.head
      simp
  | emptyArray => simp
  | array => simp
  | emptyObject => simp
  | object => simp

theorem run_sound {input rest : Bytes} {value : Value}
    (h : run limits input = .ok (value, rest)) : IsDocument limits input value := by
  simp only [run, setError] at h
  split_ifs at h with hsize hmark
  obtain ⟨w, hinput, hw⟩ := exists_skipWs input
  split at h
  · cases h
  rename_i c cs hskip
  split_ifs at h with hbrace
  split at h
  · cases h
  rename_i v s hv
  obtain rfl : c = 0x7B := not_not.mp hbrace
  obtain ⟨text, htext, hvalue⟩ := parseValue_sound (by omega : 1 + limits.maxDepth = _) hv
  obtain ⟨w', hs, hw'⟩ := exists_skipWs s
  split at h
  swap
  · cases h
  rename_i hend
  cases h
  refine ⟨by omega, fun hpre => hmark (List.isPrefixOf_iff_prefix.mpr hpre), w, text, w', ?_, hw,
    hw', hvalue, hvalue.object_iff.mpr ?_⟩
  · rw [hinput, hskip, htext, hs, hend]
    simp
  · obtain ⟨b, tail, rfl, -, -⟩ := hvalue.head
    have hb : b = 0x7B := (List.cons.inj htext).1.symm
    rw [hb]
    rfl

theorem run_complete {input : Bytes} {value : Value} (h : IsDocument limits input value) :
    run limits input = .ok (value, []) := by
  obtain ⟨hsize, hmark, w, text, w', rfl, hw, hw', hvalue, hobject⟩ := h
  have hmark' : ¬ [0xEF, 0xBB, 0xBF].isPrefixOf (w ++ text ++ w') = true :=
    fun hpre => hmark (List.isPrefixOf_iff_prefix.mp hpre)
  have hskip : skipWs (w ++ text ++ w') = text ++ w' := by
    rw [List.append_assoc]
    exact skipWs_append hw (hvalue.stops w')
  have hread : parseValue limits limits.maxDepth (text ++ w') = .ok (value, w') :=
    parseValue_complete (by omega : 1 + limits.maxDepth = _) hvalue (follows_of_space hw')
  have hend : skipWs w' = [] := by
    simpa using skipWs_append hw' (by simp [Stops] : Stops [])
  have hhead := hvalue.object_iff.mp hobject
  obtain ⟨b, tail, rfl, -, -⟩ := hvalue.head
  obtain rfl : b = 0x7B := by simpa using hhead
  rw [List.cons_append] at hskip hread
  simp only [run, Nat.not_lt.mpr hsize, if_false, hmark', hskip, ne_eq, not_true_eq_false, hread,
    hend, Bool.false_eq_true]

theorem parse_ok_iff {input : Bytes} {value : Value} :
    parse limits input = .ok value ↔ IsDocument limits input value := by
  unfold parse
  constructor
  · intro h
    cases hrun : run limits input with
    | error failure =>
        rw [hrun] at h
        cases h
    | ok r =>
        obtain ⟨v, rest⟩ := r
        rw [hrun] at h
        cases h
        exact run_sound hrun
  · intro h
    rw [run_complete h]

/-- **`json::parse` accepts exactly the documents of ADR-0009**, and what it
returns is the one value the document denotes, members in document order. -/
theorem parse_accepts_language (limits : Limits) (input : Bytes) :
    ((∃ value, parse limits input = .ok value) ↔ ∃ value, IsDocument limits input value) ∧
      ∀ value, parse limits input = .ok value →
        IsDocument limits input value ∧
          ∀ other, IsDocument limits input other → other = value := by
  refine ⟨exists_congr fun value => parse_ok_iff, fun value h => ⟨parse_ok_iff.mp h, ?_⟩⟩
  intro other hother
  have hparse := parse_ok_iff.mpr hother
  rw [h] at hparse
  cases hparse
  rfl

/-! ## A document is UTF-8

Outside strings it is ASCII. Inside them an escape is ASCII too and stands for one
sequence, so what stands there raw decodes to itself, sequence by sequence. -/

theorem IsHexDigit.ascii {c : UInt8} {d : Nat} (h : IsHexDigit c d) : c < 0x80 := by
  have hvalue := hexValue_iff.mpr h
  unfold hexValue at hvalue
  grind

theorem IsUnit.ascii {hex : Bytes} {u : Nat} (h : IsUnit hex u) : ∀ b ∈ hex, b < 0x80 := by
  cases h with
  | mk ha hb hc hd => simp [ha.ascii, hb.ascii, hc.ascii, hd.ascii]

theorem IsItem.ascii {item bytes : Bytes} (h : IsItem (0x5C :: item) bytes) :
    ∀ b ∈ 0x5C :: item, b < 0x80 := by
  generalize htext : 0x5C :: item = text at h
  cases h with
  | raw _ _ hbackslash =>
      cases htext
      exact absurd rfl hbackslash
  | @short e b hmem =>
      simp only [shortEscapes, List.mem_cons, Prod.mk.injEq, List.not_mem_nil, or_false] at hmem
      simp only [List.mem_cons, List.not_mem_nil, or_false]
      grind
  | unit hunit _ =>
      have hhex := hunit.ascii
      simp only [List.mem_cons]
      grind
  | pair hunit hunit' _ _ =>
      have hhex := hunit.ascii
      have hhex' := hunit'.ascii
      simp only [List.cons_append, List.mem_cons, List.mem_append]
      grind

/-- A continuation byte stands for itself. -/
theorem IsBody.raw_continuation {q body decoded : Bytes} (h : IsBody (q ++ body) decoded)
    (hq : ∀ b ∈ q, Utf8.Continuation b) :
    ∃ decoded', decoded = q ++ decoded' ∧ IsBody body decoded' := by
  induction q generalizing decoded with
  | nil => exact ⟨decoded, rfl, h⟩
  | cons b q ih =>
      have hb : b ≠ 0x5C := by
        rintro rfl
        exact absurd (hq 0x5C (by simp)) (by decide)
      generalize hall : b :: q ++ body = all at h
      cases h with
      | nil => cases hall
      | cons hitem hbody =>
          cases hitem with
          | raw =>
              cases hall
              obtain ⟨decoded', rfl, hrest⟩ := ih hbody fun b' hb' => hq b' (by simp [hb'])
              exact ⟨decoded', rfl, hrest⟩
          | short => exact absurd (List.cons.inj hall).1 hb
          | unit => exact absurd (List.cons.inj hall).1 hb
          | pair => exact absurd (List.cons.inj hall).1 hb

/-- The text between the quotes is UTF-8 exactly if what it decodes to is. -/
theorem IsBody.wellFormed_iff {body decoded : Bytes} (h : IsBody body decoded) :
    Utf8.WellFormed body ↔ Utf8.WellFormed decoded := by
  induction hn : body.length using Nat.strong_induction_on generalizing body decoded with
  | _ n ih =>
      -- an escape is taken off both sides, and the rest is shorter
      have hescape : ∀ {item bytes body' decoded' : Bytes}, IsItem (0x5C :: item) bytes →
          IsBody body' decoded' → (0x5C :: item ++ body').length = n →
          (Utf8.WellFormed (0x5C :: item ++ body') ↔ Utf8.WellFormed (bytes ++ decoded')) := by
        intro item bytes body' decoded' hitem hbody hlen
        have hshort : body'.length < n := by
          simp only [List.cons_append, List.length_cons, List.length_append] at hlen
          omega
        rw [Utf8.wellFormed_append_iff_right (Utf8.wellFormed_of_ascii hitem.ascii),
          ih body'.length hshort hbody rfl]
        exact ⟨hitem.sequence.append, fun hall => hall.of_append hitem.sequence⟩
      cases h with
      | nil => exact Iff.rfl
      | cons hitem hbody =>
          cases hitem with
          | short hmem => exact hescape (.short hmem) hbody hn
          | unit hunit hscalar => exact hescape (.unit hunit hscalar) hbody hn
          | pair h₁ h₂ hhigh hlow => exact hescape (.pair h₁ h₂ hhigh hlow) hbody hn
          | raw =>
              -- the rest of a raw sequence is raw, on either side
              constructor
              · intro hbodyUtf8
                obtain ⟨q, t, heq, hq, ht⟩ := hbodyUtf8.split (by simp)
                obtain ⟨a, q', rfl, -, hcont⟩ := hq.lead
                cases heq
                obtain ⟨decoded', rfl, hrest⟩ := hbody.raw_continuation hcont
                refine hq.append ((ih t.length ?_ hrest rfl).mp ht)
                rw [← hn]
                simp
              · intro hdecodedUtf8
                obtain ⟨q, t, heq, hq, ht⟩ := hdecodedUtf8.split (by simp)
                obtain ⟨a, q', rfl, -, hcont⟩ := hq.lead
                cases heq
                obtain ⟨body', rfl, hrest⟩ := hbody.of_continuation hcont
                refine hq.append ((ih body'.length ?_ hrest rfl).mpr ht)
                rw [← hn]
                simp

/-- What stands between two delimiters. -/
theorem wellFormed_between {a b : UInt8} {s : Bytes} (ha : a < 0x80) (hb : b < 0x80)
    (hs : Utf8.WellFormed s) : Utf8.WellFormed (a :: s ++ [b]) :=
  (hs.cons ha).append (Utf8.wellFormed_nil.cons hb)

theorem IsString.wellFormed {limits : Limits} {text decoded : Bytes}
    (h : IsString limits text decoded) : Utf8.WellFormed text := by
  cases h with
  | mk hbody hutf8 _ _ =>
      exact wellFormed_between (by decide) (by decide) (hbody.wellFormed_iff.mpr hutf8)

theorem IsNatural.wellFormed {digits : Bytes} (h : IsNatural digits) :
    Utf8.WellFormed digits := by
  apply Utf8.wellFormed_of_ascii
  rcases h with rfl | ⟨d, ds, rfl, -, hhigh, hds⟩
  · decide
  · intro b hb
    rcases List.mem_cons.mp hb with rfl | hb
    · exact UInt8.lt_of_le_of_lt hhigh (by decide)
    · exact UInt8.lt_of_le_of_lt (hds b hb).2 (by decide)

theorem IsInteger.wellFormed {text : Bytes} {n : Int} (h : IsInteger text n) :
    Utf8.WellFormed text := by
  cases h with
  | plain hdigits => exact hdigits.wellFormed
  | minus hdigits => exact hdigits.wellFormed.cons (by decide)

theorem Space.wellFormed {w : Bytes} (h : Space w) : Utf8.WellFormed w := by
  apply Utf8.wellFormed_of_ascii
  intro b hb
  have hspace := h b hb
  simp only [List.mem_cons, List.not_mem_nil, or_false] at hspace
  grind

mutual

theorem IsValue.wellFormed {limits : Limits} {level : Nat} {text : Bytes} {value : Value}
    (h : IsValue limits level text value) : Utf8.WellFormed text := by
  cases h with
  | litTrue => exact Utf8.wellFormed_of_ascii (by decide)
  | litFalse => exact Utf8.wellFormed_of_ascii (by decide)
  | int _ hint => exact hint.wellFormed
  | string _ hstring => exact hstring.wellFormed
  | emptyArray _ hspace => exact wellFormed_between (by decide) (by decide) hspace.wellFormed
  | array _ helems _ => exact wellFormed_between (by decide) (by decide) helems.wellFormed
  | emptyObject _ hspace => exact wellFormed_between (by decide) (by decide) hspace.wellFormed
  | object _ hmembers _ _ => exact wellFormed_between (by decide) (by decide) hmembers.wellFormed

theorem IsElements.wellFormed {limits : Limits} {level : Nat} {text : Bytes}
    {elems : List Value} (h : IsElements limits level text elems) : Utf8.WellFormed text := by
  cases h with
  | one hbefore hvalue hafter =>
      exact (hbefore.wellFormed.append hvalue.wellFormed).append hafter.wellFormed
  | more hbefore hvalue hafter helems =>
      have hfirst := (hbefore.wellFormed.append hvalue.wellFormed).append hafter.wellFormed
      exact hfirst.append (helems.wellFormed.cons (by decide))

theorem IsMember.wellFormed {limits : Limits} {level : Nat} {text : Bytes}
    {member : Bytes × Value} (h : IsMember limits level text member) :
    Utf8.WellFormed text := by
  cases h with
  | mk hbefore hkey hcolon hcolon' hvalue hafter =>
      have hname := (hbefore.wellFormed.append hkey.wellFormed).append hcolon.wellFormed
      have hafterColon := hname.append (hcolon'.wellFormed.cons (by decide : (0x3A : UInt8) < 0x80))
      exact (hafterColon.append hvalue.wellFormed).append hafter.wellFormed

theorem IsMembers.wellFormed {limits : Limits} {level : Nat} {text : Bytes}
    {members : List (Bytes × Value)} (h : IsMembers limits level text members) :
    Utf8.WellFormed text := by
  cases h with
  | one hmember => exact hmember.wellFormed
  | more hmember hmembers => exact hmember.wellFormed.append (hmembers.wellFormed.cons (by decide))

end

theorem wellFormed_of_parse {limits : Limits} {input : Bytes} {value : Value}
    (h : parse limits input = .ok value) : Utf8.WellFormed input := by
  obtain ⟨-, -, w, object, w', rfl, hbefore, hafter, hvalue, -⟩ := parse_ok_iff.mp h
  exact (hbefore.wellFormed.append hvalue.wellFormed).append hafter.wellFormed

end FileMover.Json
