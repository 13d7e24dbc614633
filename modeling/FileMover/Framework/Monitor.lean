import FileMover.Framework.Program

/-!
# Paths and monitors

A path of a program is a list of calls with the replies they got, from the beginning
to some point, or to the end. A *monitor* reads a path exchange by exchange and never
stops: what it has seen is in its state, also that something went wrong.

`Watched` says that a property of the monitor's state holds at every point of every
path, and another one wherever the program ends. It is proved on the tree, one rule
for each way to build a program, and `Watched.path` turns it into a statement about
paths. `graft` puts more calls behind each call of a program, which is how code that
the environment runs in the middle of a call is expressed.
-/

namespace FileMover.Framework.Program

variable {Op : Type} {Reply : Op → Type} {α β σ : Type}

/-- The exchanges of a program up to some point; with the value it returns, if that
point is its end. -/
inductive Path : Program Op Reply α → List ((op : Op) × Reply op) → Option α → Prop
  | stops (program : Program Op Reply α) : Path program [] none
  | ends (value : α) : Path (.pure value) [] (some value)
  | goes {op : Op} {next : Reply op → Program Op Reply α} {path : List ((op : Op) × Reply op)}
      {result : Option α} (reply : Reply op) (rest : Path (next reply) path result) :
      Path (.call op next) (⟨op, reply⟩ :: path) result

/-- The path on which every call gets the reply that is given for it, as far as there
is one. -/
def follow (answers : (op : Op) → Option (Reply op)) :
    Program Op Reply α → List ((op : Op) × Reply op) × Option α
  | .pure value => ([], some value)
  | .call op next =>
      match answers op with
      | none => ([], none)
      | some reply =>
          let rest := follow answers (next reply)
          (⟨op, reply⟩ :: rest.1, rest.2)

theorem path_follow (answers : (op : Op) → Option (Reply op)) (program : Program Op Reply α) :
    program.Path (follow answers program).1 (follow answers program).2 := by
  induction program with
  | pure value => exact .ends value
  | call op next ih =>
      simp only [follow]
      split
      · exact .stops _
      · next reply _ => exact .goes reply (ih reply)

/-- What the monitor has seen after a path. -/
def watchAll (watch : σ → (op : Op) → Reply op → σ) (s : σ)
    (path : List ((op : Op) × Reply op)) : σ :=
  path.foldl (fun s exchange => watch s exchange.1 exchange.2) s

/-- The state of the monitor satisfies `Always` at every point, and `Finally` together
with the value that is returned. -/
def Watched (watch : σ → (op : Op) → Reply op → σ) (Always : σ → Prop)
    (Finally : σ → α → Prop) : Program Op Reply α → σ → Prop
  | .pure value, s => Always s ∧ Finally s value
  | .call op next, s =>
      Always s ∧ ∀ reply, (next reply).Watched watch Always Finally (watch s op reply)

variable {watch : σ → (op : Op) → Reply op → σ} {Always : σ → Prop}
  {Finally : σ → α → Prop} {program : Program Op Reply α} {s : σ}

theorem Watched.always (watched : program.Watched watch Always Finally s) : Always s := by
  cases program with
  | pure value => exact watched.1
  | call op next => exact watched.1

theorem Watched.bind {After : σ → β → Prop} {next : α → Program Op Reply β}
    (first : program.Watched watch Always Finally s)
    (rest : ∀ t value, Finally t value → (next value).Watched watch Always After t) :
    (program.bind next).Watched watch Always After s := by
  induction program generalizing s with
  | pure value => exact rest s value first.2
  | call op more ih => exact ⟨first.1, fun reply => ih reply (first.2 reply)⟩

theorem Watched.mono {After : σ → α → Prop} (watched : program.Watched watch Always Finally s)
    (implies : ∀ t value, Finally t value → After t value) :
    program.Watched watch Always After s := by
  induction program generalizing s with
  | pure value => exact ⟨watched.1, implies s value watched.2⟩
  | call op next ih => exact ⟨watched.1, fun reply => ih reply (watched.2 reply)⟩

/-- What no exchange ends, from some state on, ends nowhere. -/
theorem watched_of_closed {Closed : σ → Prop}
    (stays : ∀ t op reply, Closed t → Closed (watch t op reply))
    (always : ∀ t, Closed t → Always t) (ends : ∀ t value, Closed t → Finally t value)
    (closed : Closed s) : program.Watched watch Always Finally s := by
  induction program generalizing s with
  | pure value => exact ⟨always s closed, ends s value closed⟩
  | call op next ih => exact ⟨always s closed, fun reply => ih reply (stays s op reply closed)⟩

theorem Watched.path {path : List ((op : Op) × Reply op)} {result : Option α}
    (watched : program.Watched watch Always Finally s) (taken : program.Path path result) :
    Always (watchAll watch s path) ∧
      ∀ value, result = some value → Finally (watchAll watch s path) value := by
  induction taken generalizing s with
  | stops program => exact ⟨watched.always, fun _ h => nomatch h⟩
  | ends value =>
      refine ⟨watched.1, fun value' h => ?_⟩
      cases h
      exact watched.2
  | goes reply rest ih => exact ih (watched.2 reply)

/-! ## Calls that are put behind calls -/

/-- After each call, whatever is inserted for it and its reply. -/
def graft (inserted : (op : Op) → Reply op → Program Op Reply Unit) :
    Program Op Reply α → Program Op Reply α
  | .pure value => .pure value
  | .call op next =>
      .call op fun reply => (inserted op reply).bind fun _ => (next reply).graft inserted

/-- What is inserted leads back to the state in which it began, or to one from which
nothing can go wrong any more. -/
theorem Watched.graft {inserted : (op : Op) → Reply op → Program Op Reply Unit}
    {Closed : σ → Prop} (watched : program.Watched watch Always Finally s)
    (leads : ∀ t op reply, Always t → Always (watch t op reply) →
      (inserted op reply).Watched watch Always
        (fun u _ => u = watch t op reply ∨ Closed u) (watch t op reply))
    (closed : ∀ u, Closed u → ∀ program : Program Op Reply α,
      program.Watched watch Always Finally u) :
    (program.graft inserted).Watched watch Always Finally s := by
  induction program generalizing s with
  | pure value => exact watched
  | call op next ih =>
      refine ⟨watched.1, fun reply => ?_⟩
      have hback := leads s op reply watched.1 (watched.2 reply).always
      refine hback.bind fun u _ hu => ?_
      rcases hu with rfl | hclosed
      · exact ih reply (watched.2 reply)
      · exact closed u hclosed _

end FileMover.Framework.Program
