import FileMover.Json.Printing
import FileMover.Model.RenameTemplate

/-!
# What a rename template stands for

A template is read as a sequence of pieces: runs without braces, and the five fields. The
scanner accepts exactly the texts that can be read so, and what it puts out is the values
of the pieces one after the other, however the runs are cut.
-/

namespace FileMover.Template

open Log

/-! ## Pieces -/

inductive Field
  | name
  | stem
  | ext
  | ts
  | seq
deriving DecidableEq, Repr

inductive Piece
  | run (literal : Bytes)
  | field (f : Field)
deriving DecidableEq, Repr

def Field.text : Field → Bytes
  | .name => lit "name"
  | .stem => lit "stem"
  | .ext => lit "ext"
  | .ts => lit "ts"
  | .seq => lit "seq"

/-- What a field stands for, by its name in the grammar. -/
def Field.value (gmtimeR : GmtimeR) (sourceName : Bytes) (context : RenameContext) :
    Field → Bytes
  | .name => sourceName
  | .stem => (splitName sourceName).1
  | .ext => (splitName sourceName).2
  | .ts => formatTs gmtimeR context.atMs
  | .seq => formatSeq context.sequence

namespace Piece

/-- A run has no braces. -/
def Plain : Piece → Prop
  | .run literal => openBrace ∉ literal ∧ closeBrace ∉ literal
  | .field _ => True

def text : Piece → Bytes
  | .run literal => literal
  | .field f => openBrace :: f.text ++ [closeBrace]

def value (gmtimeR : GmtimeR) (sourceName : Bytes) (context : RenameContext) : Piece → Bytes
  | .run literal => literal
  | .field f => f.value gmtimeR sourceName context

end Piece

/-- The template is the concatenation of these pieces. -/
structure Reads (templ : Bytes) (pieces : List Piece) : Prop where
  plain : ∀ p ∈ pieces, p.Plain
  text : templ = pieces.flatMap Piece.text

/-- The concatenation of the runs and the field values. -/
def expansion (gmtimeR : GmtimeR) (sourceName : Bytes) (context : RenameContext)
    (pieces : List Piece) : Bytes :=
  pieces.flatMap (Piece.value gmtimeR sourceName context)

section Scanner
variable {gmtimeR : GmtimeR} {sourceName : Bytes} {context : RenameContext}

theorem Field.brace_notMem (field : Field) :
    openBrace ∉ field.text ∧ closeBrace ∉ field.text := by
  cases field <;> decide

theorem fieldValue_text (field : Field) :
    fieldValue gmtimeR sourceName context field.text =
      some (field.value gmtimeR sourceName context) := by
  cases field <;> rfl

theorem fieldValue_eq_some {text expanded : Bytes}
    (h : fieldValue gmtimeR sourceName context text = some expanded) :
    ∃ field : Field, text = field.text ∧ expanded = field.value gmtimeR sourceName context := by
  unfold fieldValue at h
  split_ifs at h with hname hstem hext hts hseq
  · exact ⟨.name, hname, (Option.some.inj h).symm⟩
  · exact ⟨.stem, hstem, (Option.some.inj h).symm⟩
  · exact ⟨.ext, hext, (Option.some.inj h).symm⟩
  · exact ⟨.ts, hts, (Option.some.inj h).symm⟩
  · exact ⟨.seq, hseq, (Option.some.inj h).symm⟩

/-! ## The loop -/

variable {value : Bytes → Option Bytes} {result : Bytes}

theorem expandLoop_run {literal : Bytes} (hopen : openBrace ∉ literal)
    (hclose : closeBrace ∉ literal) (rest : Bytes) :
    expandLoop value result (literal ++ rest) = expandLoop value (result ++ literal) rest := by
  induction literal generalizing result with
  | nil => rw [List.nil_append, List.append_nil]
  | cons c literal ih =>
      rw [List.mem_cons, not_or] at hopen hclose
      rw [List.cons_append, expandLoop, if_pos (Ne.symm hopen.1), if_neg (Ne.symm hclose.1),
        ih hopen.2 hclose.2, List.append_assoc]
      rfl

theorem takeWhile_field {field : Bytes} (hclose : closeBrace ∉ field) (after : Bytes) :
    (field ++ closeBrace :: after).takeWhile (· ≠ closeBrace) = field ∧
      (field ++ closeBrace :: after).dropWhile (· ≠ closeBrace) = closeBrace :: after := by
  have hall : ∀ b ∈ field, decide (b ≠ closeBrace) = true := by
    intro b hb
    refine decide_eq_true ?_
    rintro rfl
    exact hclose hb
  rw [List.takeWhile_append_of_pos hall, List.dropWhile_append_of_pos hall]
  simp

/-- The search finds the brace behind the field. -/
theorem expandLoop_field {field after : Bytes} (hclose : closeBrace ∉ field) :
    expandLoop value result (openBrace :: (field ++ closeBrace :: after)) =
      match value field with
      | some expanded => expandLoop value (result ++ expanded) after
      | none =>
          .error (lit "unknown rename template field \"\x7b" ++ field ++ lit "\x7d\"") := by
  obtain ⟨htake, hdrop⟩ := takeWhile_field hclose after
  rw [expandLoop, if_neg (by simp)]
  split
  · rename_i hnone
    rw [hdrop] at hnone
    cases hnone
  · rename_i b after' hsome
    rw [hdrop] at hsome
    cases hsome
    rewrite [htake]
    rfl

/-- Pieces are expanded one after the other. -/
theorem expandLoop_pieces {pieces : List Piece} (plain : ∀ p ∈ pieces, p.Plain) :
    expandLoop (fieldValue gmtimeR sourceName context) result (pieces.flatMap Piece.text) =
      .ok (result ++ expansion gmtimeR sourceName context pieces) := by
  induction pieces generalizing result with
  | nil =>
      rw [List.flatMap_nil, expandLoop, expansion, List.flatMap_nil, List.append_nil]
  | cons p pieces ih =>
      have hrest : ∀ q ∈ pieces, q.Plain := fun q hq => plain q (List.mem_cons_of_mem _ hq)
      have hvalue : expansion gmtimeR sourceName context (p :: pieces) =
          p.value gmtimeR sourceName context ++ expansion gmtimeR sourceName context pieces := rfl
      rw [List.flatMap_cons, hvalue, ← List.append_assoc]
      cases p with
      | run literal =>
          obtain ⟨hopen, hclose⟩ := plain _ List.mem_cons_self
          exact (expandLoop_run hopen hclose _).trans (ih hrest)
      | field f =>
          have htext : (Piece.field f).text ++ pieces.flatMap Piece.text =
              openBrace :: (f.text ++ closeBrace :: pieces.flatMap Piece.text) := by
            simp [Piece.text]
          rw [htext, expandLoop_field f.brace_notMem.2, fieldValue_text]
          exact ih hrest

/-- What is in front of the brace that the search finds, and what is behind it. -/
theorem eq_append_of_dropWhile {rest after : Bytes} {b : UInt8}
    (h : rest.dropWhile (· ≠ closeBrace) = b :: after) :
    rest = rest.takeWhile (· ≠ closeBrace) ++ closeBrace :: after ∧
      closeBrace ∉ rest.takeWhile (· ≠ closeBrace) := by
  have hhead := List.head?_dropWhile_not (· ≠ closeBrace) rest
  rw [h] at hhead
  obtain rfl : b = closeBrace := by simpa using hhead
  constructor
  · rw [← h, List.takeWhile_append_dropWhile]
  · intro hmem
    simpa using List.mem_takeWhile_imp hmem

/-- What the loop gets through is a sequence of pieces. -/
theorem exists_pieces {templ out : Bytes}
    (h : expandLoop (fieldValue gmtimeR sourceName context) result templ = .ok out) :
    ∃ pieces, Reads templ pieces := by
  induction result, templ using expandLoop.induct
    (fieldValue gmtimeR sourceName context) with
  | case1 result => exact ⟨[], nofun, rfl⟩
  | case2 result rest hopen =>
      rw [expandLoop, if_pos hopen, if_pos rfl] at h
      cases h
  | case3 result c rest hopen hclose ih =>
      rw [expandLoop, if_pos hopen, if_neg hclose] at h
      obtain ⟨pieces, hpieces⟩ := ih h
      refine ⟨.run [c] :: pieces, ?_, ?_⟩
      · intro p hp
        rcases List.mem_cons.mp hp with rfl | hp
        · exact ⟨by simpa using Ne.symm hopen, by simpa using Ne.symm hclose⟩
        · exact hpieces.plain p hp
      · rw [List.flatMap_cons, ← hpieces.text]
        rfl
  | case4 result c rest hopen hnone =>
      rw [expandLoop, if_neg hopen] at h
      split at h
      · cases h
      · rename_i hsome
        rw [hnone] at hsome
        cases hsome
  | case5 result c rest hopen b after hsome field expanded hvalue ih =>
      obtain ⟨hrest, hclose⟩ := eq_append_of_dropWhile hsome
      obtain rfl : c = openBrace := not_not.mp hopen
      rw [hrest, expandLoop_field hclose, hvalue] at h
      obtain ⟨pieces, hpieces⟩ := ih h
      obtain ⟨f, hfield, -⟩ := fieldValue_eq_some hvalue
      refine ⟨.field f :: pieces, ?_, ?_⟩
      · intro p hp
        rcases List.mem_cons.mp hp with rfl | hp
        · trivial
        · exact hpieces.plain p hp
      · rw [List.flatMap_cons, ← hpieces.text, hrest, Piece.text, ← hfield]
        simp [field]
  | case6 result c rest hopen b after hsome field hvalue =>
      obtain ⟨hrest, hclose⟩ := eq_append_of_dropWhile hsome
      obtain rfl : c = openBrace := not_not.mp hopen
      rw [hrest, expandLoop_field hclose, hvalue] at h
      cases h

/-! ## Accepted templates -/

theorem isPlainName_iff {name : Bytes} :
    isPlainName name = true ↔
      ¬ (name = [] ∨ name = lit "." ∨ name = lit "..") ∧ ¬ (slash ∈ name ∨ 0 ∈ name) := by
  unfold isPlainName
  split_ifs with hreserved
  · simp [hreserved]
  · simp [hreserved, not_or]

theorem expand_of_reads {templ out : Bytes} {pieces : List Piece} (reads : Reads templ pieces) :
    ((expandRenameTemplate gmtimeR templ sourceName context out).accepted = true ↔
        isPlainName (expansion gmtimeR sourceName context pieces) = true) ∧
      ((expandRenameTemplate gmtimeR templ sourceName context out).accepted = true →
        (expandRenameTemplate gmtimeR templ sourceName context out).out =
          expansion gmtimeR sourceName context pieces) := by
  have hloop : expandLoop (fieldValue gmtimeR sourceName context) [] templ =
      .ok (expansion gmtimeR sourceName context pieces) := by
    rw [reads.text]
    exact expandLoop_pieces reads.plain
  rw [isPlainName_iff, expandRenameTemplate, hloop]
  dsimp only
  split_ifs with hreserved hseparator
  · exact ⟨⟨nofun, fun h => absurd hreserved h.1⟩, nofun⟩
  · exact ⟨⟨nofun, fun h => absurd hseparator h.2⟩, nofun⟩
  · exact ⟨⟨fun _ => ⟨hreserved, hseparator⟩, fun _ => rfl⟩, fun _ => rfl⟩

theorem exists_reads_of_accepted {templ out : Bytes}
    (h : (expandRenameTemplate gmtimeR templ sourceName context out).accepted = true) :
    ∃ pieces, Reads templ pieces := by
  rw [expandRenameTemplate] at h
  cases hloop : expandLoop (fieldValue gmtimeR sourceName context) [] templ with
  | error error =>
      rw [hloop] at h
      cases h
  | ok result => exact exists_pieces hloop

/-- A template that is refused leaves `out` alone and says why. -/
theorem expand_refused {templ out : Bytes}
    (h : (expandRenameTemplate gmtimeR templ sourceName context out).accepted = false) :
    (expandRenameTemplate gmtimeR templ sourceName context out).out = out := by
  rw [expandRenameTemplate] at h ⊢
  cases hloop : expandLoop (fieldValue gmtimeR sourceName context) [] templ with
  | error error => rfl
  | ok result =>
      rw [hloop] at h
      dsimp only at h ⊢
      split_ifs at h ⊢
      · rfl
      · rfl

/-! ## Stem and extension -/

theorem lastDot_eq_none {name : Bytes} : lastDot name = none ↔ 0x2E ∉ name := by
  induction name with
  | nil => simp [lastDot]
  | cons b name ih =>
      rw [lastDot]
      cases hrest : lastDot name with
      | some parts =>
          have hmem : 0x2E ∈ name := by
            by_contra hnone
            rw [ih.mpr hnone] at hrest
            cases hrest
          simp [hmem]
      | none =>
          have hmem := ih.mp hrest
          by_cases hb : b = 0x2E <;> simp [hb, hmem, eq_comm]

theorem lastDot_eq_some {name front back : Bytes} (h : lastDot name = some (front, back)) :
    name = front ++ 0x2E :: back ∧ 0x2E ∉ back := by
  induction name generalizing front with
  | nil => cases h
  | cons b name ih =>
      rw [lastDot] at h
      cases hrest : lastDot name with
      | some parts =>
          rw [hrest] at h
          cases h
          obtain ⟨hname, hback⟩ := ih hrest
          exact ⟨by rw [hname, List.cons_append], hback⟩
      | none =>
          rw [hrest] at h
          dsimp only at h
          split_ifs at h with hb
          cases h
          exact ⟨by rw [hb, List.nil_append], lastDot_eq_none.mp hrest⟩

/-- Either there is no extension, or the name is cut at its last dot. -/
theorem splitName_spec (name : Bytes) :
    ((splitName name).2 = [] ∧ (splitName name).1 = name) ∨
      (name = (splitName name).1 ++ 0x2E :: (splitName name).2 ∧ (splitName name).1 ≠ [] ∧
        0x2E ∉ (splitName name).2) := by
  unfold splitName
  split
  · exact .inl ⟨rfl, rfl⟩
  · rename_i stem ext hdot
    obtain ⟨hname, hext⟩ := lastDot_eq_some hdot
    split_ifs with hstem
    · exact .inl ⟨rfl, rfl⟩
    · exact .inr ⟨hname, hstem, hext⟩

end Scanner

/-! ## The sequence number -/

/-- A text that begins with `b` is found behind a part without `b`. -/
theorem infix_of_append {b : UInt8} {word front rest : Bytes} (hb : b ∉ front)
    (h : b :: word <:+: front ++ rest) : b :: word <:+: rest := by
  induction front with
  | nil => exact h
  | cons c front ih =>
      rw [List.mem_cons, not_or] at hb
      rcases List.infix_cons_iff.mp h with hprefix | hinfix
      · exact absurd (List.cons_prefix_cons.mp hprefix).1 hb.1
      · exact ih hb.2 hinfix

/-- A template in which the field occurs reads with the field. -/
theorem Reads.seq_mem {templ : Bytes} {pieces : List Piece} (reads : Reads templ pieces)
    (h : lit "\x7bseq\x7d" <:+: templ) : .field .seq ∈ pieces := by
  obtain ⟨plain, rfl⟩ := reads
  induction pieces with
  | nil => exact absurd (List.infix_nil.mp h) (by decide)
  | cons p pieces ih =>
      have hrest : ∀ q ∈ pieces, q.Plain := fun q hq => plain q (List.mem_cons_of_mem _ hq)
      rw [List.flatMap_cons] at h
      cases p with
      | run literal =>
          have hopen : openBrace ∉ literal := (plain _ List.mem_cons_self).1
          exact List.mem_cons_of_mem _ (ih hrest (infix_of_append hopen h))
      | field f =>
          have htext : (Piece.field f).text ++ pieces.flatMap Piece.text =
              openBrace :: ((f.text ++ [closeBrace]) ++ pieces.flatMap Piece.text) := by
            simp [Piece.text]
          rw [htext] at h
          rcases List.infix_cons_iff.mp h with hprefix | hinfix
          · have hfield : f = .seq := by
              obtain ⟨after, hafter⟩ := (List.cons_prefix_cons.mp hprefix).2
              have htake := congrArg (List.takeWhile (· ≠ closeBrace)) hafter
              rw [List.append_assoc] at htake
              have hseq : lit "seq" = f.text :=
                ((takeWhile_field (by decide) after).1.symm.trans htake).trans
                  (takeWhile_field f.brace_notMem.2 _).1
              cases f with
              | seq => rfl
              | name | stem | ext | ts => exact absurd hseq (by decide)
            rw [hfield]
            exact List.mem_cons_self
          · have hopen : openBrace ∉ f.text ++ [closeBrace] := by
              cases f <;> decide
            exact List.mem_cons_of_mem _ (ih hrest (infix_of_append hopen hinfix))

/-- Leading zeros do not count. -/
theorem numeral_padded (width n : Nat) : Json.numeral (padded width n) = n := by
  have hzeros : ∀ k, (List.replicate k (0x30 : UInt8)).foldl
      (fun n d => n * 10 + (d.toNat - 0x30)) 0 = 0 := by
    intro k
    induction k with
    | zero => rfl
    | succ k ih => exact ih
  rw [padded, Json.numeral, List.foldl_append, hzeros]
  exact Json.numeral_decimal n

theorem formatSeq_injective : Function.Injective formatSeq := by
  intro m n h
  have hnumeral := congrArg Json.numeral h
  rw [formatSeq, formatSeq, numeral_padded, numeral_padded] at hnumeral
  exact UInt64.toNat_inj.mp hnumeral

section Sequence
variable {gmtimeR : GmtimeR} {sourceName : Bytes} {context context' : RenameContext}

/-- Only the sequence field depends on the sequence number. -/
theorem Piece.value_eq {p : Piece} (time : context.atMs = context'.atMs) (hp : p ≠ .field .seq) :
    p.value gmtimeR sourceName context = p.value gmtimeR sourceName context' := by
  cases p with
  | run literal => rfl
  | field f =>
      cases f with
      | seq => exact absurd rfl hp
      | ts => exact congrArg (formatTs gmtimeR) time
      | name | stem | ext => rfl

/-- The length of what is expanded: something fixed, and the width of the number as often
as the field occurs. -/
theorem length_expansion (time : context.atMs = context'.atMs) (pieces : List Piece) :
    ∃ rest, (expansion gmtimeR sourceName context pieces).length =
        rest + pieces.count (.field .seq) * (formatSeq context.sequence).length ∧
      (expansion gmtimeR sourceName context' pieces).length =
        rest + pieces.count (.field .seq) * (formatSeq context'.sequence).length := by
  induction pieces with
  | nil => exact ⟨0, by simp [expansion], by simp [expansion]⟩
  | cons p pieces ih =>
      obtain ⟨rest, hrest, hrest'⟩ := ih
      simp only [expansion, List.flatMap_cons, List.length_append] at hrest hrest' ⊢
      by_cases hp : p = .field .seq
      · subst hp
        rw [List.count_cons_self]
        refine ⟨rest, ?_, ?_⟩
        · rw [hrest, Nat.succ_mul]
          show (formatSeq context.sequence).length + _ = _
          omega
        · rw [hrest', Nat.succ_mul]
          show (formatSeq context'.sequence).length + _ = _
          omega
      · rw [List.count_cons_of_ne hp, ← Piece.value_eq time hp]
        refine ⟨(p.value gmtimeR sourceName context).length + rest, ?_, ?_⟩
        · rw [hrest, Nat.add_assoc]
        · rw [hrest', Nat.add_assoc]

/-- Numbers of one width are where the field occurs first. -/
theorem formatSeq_eq_of_expansion_eq (time : context.atMs = context'.atMs)
    (width : (formatSeq context.sequence).length = (formatSeq context'.sequence).length)
    {pieces : List Piece} (hmem : .field .seq ∈ pieces)
    (h : expansion gmtimeR sourceName context pieces =
      expansion gmtimeR sourceName context' pieces) :
    formatSeq context.sequence = formatSeq context'.sequence := by
  induction pieces with
  | nil => cases hmem
  | cons p pieces ih =>
      simp only [expansion, List.flatMap_cons] at h
      by_cases hp : p = .field .seq
      · subst hp
        exact (List.append_inj h width).1
      · rw [Piece.value_eq time hp] at h
        rcases List.mem_cons.mp hmem with heq | hrest
        · exact absurd heq.symm hp
        · exact ih hrest (List.append_cancel_left h)

theorem expansion_injective (time : context.atMs = context'.atMs) {pieces : List Piece}
    (hmem : .field .seq ∈ pieces)
    (h : expansion gmtimeR sourceName context pieces =
      expansion gmtimeR sourceName context' pieces) : context.sequence = context'.sequence := by
  have hwidth : (formatSeq context.sequence).length = (formatSeq context'.sequence).length := by
    obtain ⟨rest, hlength, hlength'⟩ : ∃ rest,
        (expansion gmtimeR sourceName context pieces).length =
          rest + pieces.count (.field .seq) * (formatSeq context.sequence).length ∧
        (expansion gmtimeR sourceName context' pieces).length =
          rest + pieces.count (.field .seq) * (formatSeq context'.sequence).length :=
      length_expansion time pieces
    rw [h, hlength'] at hlength
    exact (Nat.eq_of_mul_eq_mul_left (List.count_pos_iff.mpr hmem)
      (Nat.add_left_cancel hlength)).symm
  exact formatSeq_injective (formatSeq_eq_of_expansion_eq time hwidth hmem h)

end Sequence

/-- The scanner accepts a template exactly if it is a sequence of pieces that expand to a
plain entry name, and then puts out just that; a refusal leaves `out` alone; the stem and the
extension make up the name; and where the template has the sequence field, different
numbers expand to different names. -/
theorem expand_implements_grammar (gmtimeR : GmtimeR) (templ sourceName : Bytes)
    (context : RenameContext) (out : Bytes) :
    ((expandRenameTemplate gmtimeR templ sourceName context out).accepted = true ↔
        ∃ pieces, Reads templ pieces ∧
          isPlainName (expansion gmtimeR sourceName context pieces) = true) ∧
      (∀ pieces, Reads templ pieces →
        (expandRenameTemplate gmtimeR templ sourceName context out).accepted = true →
          (expandRenameTemplate gmtimeR templ sourceName context out).out =
            expansion gmtimeR sourceName context pieces) ∧
      ((expandRenameTemplate gmtimeR templ sourceName context out).accepted = false →
        (expandRenameTemplate gmtimeR templ sourceName context out).out = out) ∧
      (((splitName sourceName).2 = [] ∧ (splitName sourceName).1 = sourceName) ∨
        (sourceName = (splitName sourceName).1 ++ 0x2E :: (splitName sourceName).2 ∧
          (splitName sourceName).1 ≠ [] ∧ 0x2E ∉ (splitName sourceName).2)) ∧
      ∀ (sequence' : UInt64) (out' : Bytes), sequence' ≠ context.sequence →
        lit "\x7bseq\x7d" <:+: templ →
          (expandRenameTemplate gmtimeR templ sourceName context out).accepted = true →
          (expandRenameTemplate gmtimeR templ sourceName ⟨context.atMs, sequence'⟩ out').accepted =
            true →
          (expandRenameTemplate gmtimeR templ sourceName context out).out ≠
            (expandRenameTemplate gmtimeR templ sourceName ⟨context.atMs, sequence'⟩ out').out := by
  refine ⟨⟨fun h => ?_, ?_⟩, fun pieces reads => (expand_of_reads reads).2, expand_refused,
    splitName_spec sourceName, ?_⟩
  · obtain ⟨pieces, reads⟩ := exists_reads_of_accepted h
    exact ⟨pieces, reads, (expand_of_reads reads).1.mp h⟩
  · rintro ⟨pieces, reads, hplain⟩
    exact (expand_of_reads reads).1.mpr hplain
  · intro sequence' out' hne hseq haccepted haccepted' hsame
    obtain ⟨pieces, reads⟩ := exists_reads_of_accepted haccepted
    rw [(expand_of_reads reads).2 haccepted, (expand_of_reads reads).2 haccepted'] at hsame
    have time : context.atMs = (⟨context.atMs, sequence'⟩ : RenameContext).atMs := rfl
    exact hne (expansion_injective time (reads.seq_mem hseq) hsame).symm

end FileMover.Template
