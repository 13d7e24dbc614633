import FileMover.Framework.Program

/-!
# Safety of programs under interference

The rely/guarantee reading of a program tree. A `Contract` says what the
environment may do between two calls of the program (`rely`), under which
circumstances a call is considered at all (`assume`), and what each call of
the program must do to the world (`guarantee`). `Program.Safe` is the resulting
obligation: from a given world, whatever the environment does and whatever
faults the calls meet, every call keeps the guarantee and the value returned
satisfies the postcondition.

The definition is by recursion on the tree, so the residual program of a
half-executed component is again an argument of `Safe`. This is what makes
crashes cheap: the obligation holds of every prefix of the run.
-/

namespace FileMover.Framework

structure Contract (Op Fault World : Type) where
  rely : World → World → Prop
  rely_refl : ∀ w, rely w w
  rely_trans : ∀ {a b c}, rely a b → rely b c → rely a c
  assume : Op → Option Fault → World → Prop
  guarantee : Op → Option Fault → World → World → Prop

namespace Program

variable {Op : Type} {Reply : Op → Type} {Fault World : Type} {α β : Type}

def Safe (M : Machine Op Reply Fault World) (C : Contract Op Fault World)
    (post : α → World → Prop) : Program Op Reply α → World → Prop
  | .pure value, w => ∀ w', C.rely w w' → post value w'
  | .call op next, w => ∀ w', C.rely w w' → ∀ fault, C.assume op fault w' →
      C.guarantee op fault w' (M.perform op fault w').2 ∧
        Safe M C post (next (M.perform op fault w').1) (M.perform op fault w').2

variable {M : Machine Op Reply Fault World} {C : Contract Op Fault World}
  {post : α → World → Prop} {program : Program Op Reply α} {w w' : World}

/-- Safety survives interference: it was required at every permitted later
world. -/
theorem Safe.interfere (safe : program.Safe M C post w) (h : C.rely w w') :
    program.Safe M C post w' := by
  cases program with
  | pure value => exact fun v hv => safe v (C.rely_trans h hv)
  | call op next => exact fun v hv => safe v (C.rely_trans h hv)

/-- One call of a safe program. -/
theorem Safe.step {op : Op} {next : Reply op → Program Op Reply α}
    (safe : (Program.call op next).Safe M C post w) {fault : Option Fault}
    (h : C.assume op fault w) :
    C.guarantee op fault w (M.perform op fault w).2 ∧
      (next (M.perform op fault w).1).Safe M C post (M.perform op fault w).2 :=
  safe w (C.rely_refl w) fault h

theorem Safe.result {value : α}
    (safe : (Program.pure value : Program Op Reply α).Safe M C post w) :
    post value w := safe w (C.rely_refl w)

theorem Safe.weaken {post' : α → World → Prop}
    (safe : program.Safe M C post w)
    (implies : ∀ value w, post value w → post' value w) :
    program.Safe M C post' w := by
  induction program generalizing w with
  | pure value => exact fun w' hw => implies value w' (safe w' hw)
  | call op next ih =>
      intro w' hw fault hf
      obtain ⟨hg, hs⟩ := safe w' hw fault hf
      exact ⟨hg, ih _ hs⟩

theorem Safe.bind {next : α → Program Op Reply β} {post' : β → World → Prop}
    (safe : program.Safe M C post w)
    (rest : ∀ value w', post value w' → (next value).Safe M C post' w') :
    (program.bind next).Safe M C post' w := by
  induction program generalizing w with
  | pure value => exact rest value w safe.result
  | call op more ih =>
      intro w' hw fault hf
      obtain ⟨hg, hs⟩ := safe w' hw fault hf
      exact ⟨hg, ih _ hs⟩

/-- Safety under a contract that allows the environment less and asks less of the program. -/
theorem Safe.narrow {C' : Contract Op Fault World} (safe : program.Safe M C post w)
    (rely : ∀ {w w'}, C'.rely w w' → C.rely w w')
    (assume : ∀ op fault w, C'.assume op fault w → C.assume op fault w)
    (guarantee : ∀ op fault w w', C.guarantee op fault w w' → C'.guarantee op fault w w') :
    program.Safe M C' post w := by
  induction program generalizing w with
  | pure value => exact fun w' hw => safe w' (rely hw)
  | call op next ih =>
      intro w' hw fault hf
      obtain ⟨hg, hs⟩ := safe w' (rely hw) fault (assume op fault w' hf)
      exact ⟨guarantee _ _ _ _ hg, ih _ hs⟩

/-- What holds under two contracts holds under the narrower one. -/
theorem Safe.and {C' : Contract Op Fault World} {post' : α → World → Prop}
    (safe' : program.Safe M C' post' w) (safe : program.Safe M C post w)
    (rely : ∀ {w w'}, C'.rely w w' → C.rely w w')
    (assume : ∀ op fault w, C'.assume op fault w → C.assume op fault w) :
    program.Safe M C' (fun value w' => post value w' ∧ post' value w') w := by
  induction program generalizing w with
  | pure value => exact fun w' hw => ⟨safe w' (rely hw), safe' w' hw⟩
  | call op next ih =>
      intro w' hw fault hf
      obtain ⟨hguarantee, hnext'⟩ := safe' w' hw fault hf
      obtain ⟨-, hnext⟩ := safe w' (rely hw) fault (assume op fault w' hf)
      exact ⟨hguarantee, ih _ hnext' hnext⟩

/-- A program that only makes calls of a kind that keeps the guarantee and `P`, where
the environment keeps `P` too. -/
theorem Safe.of_uses {allowed : Op → Prop} {P : World → Prop} {Q : α → Prop}
    (uses : program.Uses allowed) (returns : program.Returns Q)
    (stable : ∀ {w w'}, C.rely w w' → P w → P w')
    (keeps : ∀ op, allowed op → ∀ fault w, C.assume op fault w → P w →
      C.guarantee op fault w (M.perform op fault w).2 ∧ P (M.perform op fault w).2)
    (start : P w) : program.Safe M C (fun value w' => Q value ∧ P w') w := by
  induction program generalizing w with
  | pure value => exact fun w' hw => ⟨returns, stable hw start⟩
  | call op next ih =>
      intro w' hw fault hf
      obtain ⟨hguarantee, hp⟩ := keeps op uses.1 fault w' hf (stable hw start)
      exact ⟨hguarantee, ih _ (uses.2 _) (returns _) hp⟩

/-- Where nothing is guaranteed, nothing has to be shown. -/
theorem safe_of_free (free : ∀ op fault w w', C.guarantee op fault w w') :
    program.Safe M C (fun _ _ => True) w := by
  induction program generalizing w with
  | pure value => exact fun _ _ => trivial
  | call op next ih => exact fun w' _ fault _ => ⟨free op fault w' _, ih _⟩

end Program

end FileMover.Framework
