import Mathlib.Logic.Basic

/-!
# Programs of atomic calls

A component that talks to an operating system or to a database is a tree of
*calls*: the value it finally returns, or one atomic call together with what
it does with each possible reply. The tree keeps every point between two calls,
so stopping a program there (a crash) and letting other programs act there
(interleaving) are both visible, which a function from state to state would
hide.

A `Machine` gives the calls their meaning. Each call is performed either as
asked or with a *fault*, which is how a call that the environment makes fail is
expressed: quantifying over faults is quantifying over every pattern of
failures.

Nothing in this file mentions a particular component.
-/

namespace FileMover.Framework

inductive Program (Op : Type) (Reply : Op → Type) (α : Type) : Type where
  | pure (value : α) : Program Op Reply α
  | call (op : Op) (next : Reply op → Program Op Reply α) : Program Op Reply α

/-- The meaning of the calls: what each replies and how it changes the world,
performed as asked (`none`) or with an injected fault. -/
structure Machine (Op : Type) (Reply : Op → Type) (Fault World : Type) where
  perform : (op : Op) → Option Fault → World → Reply op × World

namespace Program

variable {Op : Type} {Reply : Op → Type} {α β γ : Type}

def bind (program : Program Op Reply α) (next : α → Program Op Reply β) :
    Program Op Reply β :=
  match program with
  | .pure value => next value
  | .call op rest => .call op (fun reply => (rest reply).bind next)

instance : Monad (Program Op Reply) where
  pure := Program.pure
  bind := Program.bind

@[simp] theorem pure_def (value : α) :
    (Pure.pure value : Program Op Reply α) = .pure value := rfl

@[simp] theorem bind_def (program : Program Op Reply α)
    (next : α → Program Op Reply β) :
    (program >>= next) = program.bind next := rfl

@[simp] theorem pure_bind (value : α) (next : α → Program Op Reply β) :
    (Program.pure value : Program Op Reply α).bind next = next value := rfl

@[simp] theorem call_bind (op : Op) (rest : Reply op → Program Op Reply α)
    (next : α → Program Op Reply β) :
    (Program.call op rest).bind next =
      .call op (fun reply => (rest reply).bind next) := rfl

theorem bind_assoc (program : Program Op Reply α)
    (first : α → Program Op Reply β) (second : β → Program Op Reply γ) :
    (program.bind first).bind second =
      program.bind (fun value => (first value).bind second) := by
  induction program with
  | pure value => rfl
  | call op rest ih =>
      simp only [call_bind]
      congr 1
      funext reply
      exact ih reply

@[simp] theorem bind_pure (program : Program Op Reply α) :
    (program.bind fun value => .pure value) = program := by
  induction program with
  | pure value => rfl
  | call op next ih =>
      simp only [call_bind]
      congr 1
      funext reply
      exact ih reply

/-- The program that makes one call and returns its reply. -/
def request (op : Op) : Program Op Reply (Reply op) := .call op .pure

@[simp] theorem request_bind (op : Op)
    (next : Reply op → Program Op Reply α) :
    (request op).bind next = .call op next := rfl

/-! ## Running a program -/

section Running
variable {Fault World : Type}

/-- The uninterrupted run, in which a call meets the fault `faults` names for
it. Calls that have to be told apart carry a mark of their own, so that an
arbitrary `faults` is an arbitrary pattern of success and failure. -/
def exec (M : Machine Op Reply Fault World) (faults : Op → Option Fault) :
    Program Op Reply α → World → α × World
  | .pure value, w => (value, w)
  | .call op next, w =>
      exec M faults (next (M.perform op (faults op) w).1)
        (M.perform op (faults op) w).2

variable {M : Machine Op Reply Fault World} {faults : Op → Option Fault}

@[simp] theorem exec_pure (value : α) (w : World) :
    exec M faults (Program.pure value) w = (value, w) := rfl

theorem exec_bind (program : Program Op Reply α)
    (next : α → Program Op Reply β) (w : World) :
    exec M faults (program.bind next) w =
      exec M faults (next (exec M faults program w).1)
        (exec M faults program w).2 := by
  induction program generalizing w with
  | pure value => rfl
  | call op rest ih => exact ih _ _

/-- The first `n` calls of the run: what is left of the program, and the world
it is left in. -/
def advance (M : Machine Op Reply Fault World) (faults : Op → Option Fault) :
    Nat → Program Op Reply α → World → Program Op Reply α × World
  | 0, program, w => (program, w)
  | _ + 1, .pure value, w => (.pure value, w)
  | n + 1, .call op next, w =>
      advance M faults n (next (M.perform op (faults op) w).1)
        (M.perform op (faults op) w).2

end Running

/-! ## Footprints -/

/-- Every call the program can make, whatever the replies, is allowed. -/
def Uses (allowed : Op → Prop) : Program Op Reply α → Prop
  | .pure _ => True
  | .call op next => allowed op ∧ ∀ reply, (next reply).Uses allowed

@[simp] theorem uses_pure (allowed : Op → Prop) (value : α) :
    (Program.pure value : Program Op Reply α).Uses allowed ↔ True := Iff.rfl

@[simp] theorem uses_call (allowed : Op → Prop) (op : Op)
    (next : Reply op → Program Op Reply α) :
    (Program.call op next).Uses allowed ↔
      allowed op ∧ ∀ reply, (next reply).Uses allowed := Iff.rfl

theorem Uses.bind {allowed : Op → Prop} {program : Program Op Reply α}
    {next : α → Program Op Reply β} (first : program.Uses allowed)
    (rest : ∀ value, (next value).Uses allowed) :
    (program.bind next).Uses allowed := by
  induction program with
  | pure value => exact rest value
  | call op next ih => exact ⟨first.1, fun reply => ih reply (first.2 reply)⟩

theorem Uses.mono {allowed allowed' : Op → Prop} {program : Program Op Reply α}
    (uses : program.Uses allowed) (implies : ∀ op, allowed op → allowed' op) :
    program.Uses allowed' := by
  induction program with
  | pure value => trivial
  | call op next ih =>
      exact ⟨implies op uses.1, fun reply => ih reply (uses.2 reply)⟩

/-- What every allowed call preserves, a run of the program preserves. -/
theorem Uses.exec_keeps {Fault World : Type} {M : Machine Op Reply Fault World}
    {faults : Op → Option Fault} {allowed : Op → Prop} {P : World → Prop}
    {program : Program Op Reply α} (uses : program.Uses allowed)
    (keeps : ∀ op, allowed op → ∀ fault w, P w → P (M.perform op fault w).2)
    {w : World} (start : P w) : P (program.exec M faults w).2 := by
  induction program generalizing w with
  | pure value => exact start
  | call op next ih => exact ih _ (uses.2 _) (keeps op uses.1 _ _ start)

/-! ## Results -/

/-- Every value the program can return, whatever the replies, satisfies `Q`. -/
def Returns (Q : α → Prop) : Program Op Reply α → Prop
  | .pure value => Q value
  | .call _ next => ∀ reply, (next reply).Returns Q

theorem Returns.bind {P : α → Prop} {Q : β → Prop} {program : Program Op Reply α}
    {next : α → Program Op Reply β} (first : program.Returns P)
    (rest : ∀ value, P value → (next value).Returns Q) :
    (program.bind next).Returns Q := by
  induction program with
  | pure value => exact rest value first
  | call op next ih => exact fun reply => ih reply (first reply)

/-- `Uses.bind`, where the rest may rely on what the first part returns. -/
theorem Uses.bind_returns {allowed : Op → Prop} {P : α → Prop} {program : Program Op Reply α}
    {next : α → Program Op Reply β} (first : program.Uses allowed)
    (returns : program.Returns P) (rest : ∀ value, P value → (next value).Uses allowed) :
    (program.bind next).Uses allowed := by
  induction program with
  | pure value => exact rest value returns
  | call op next ih =>
      exact ⟨first.1, fun reply => ih reply (first.2 reply) (returns reply)⟩

theorem Returns.mono {P Q : α → Prop} {program : Program Op Reply α}
    (returns : program.Returns P) (implies : ∀ value, P value → Q value) :
    program.Returns Q := by
  induction program with
  | pure value => exact implies value returns
  | call op next ih => exact fun reply => ih reply (returns reply)

theorem returns_true (program : Program Op Reply α) :
    program.Returns fun _ => True := by
  induction program with
  | pure value => trivial
  | call op next ih => exact ih

theorem Returns.exec {Fault World : Type} {M : Machine Op Reply Fault World}
    {faults : Op → Option Fault} {Q : α → Prop} {program : Program Op Reply α}
    (returns : program.Returns Q) (w : World) : Q (program.exec M faults w).1 := by
  induction program generalizing w with
  | pure value => exact returns
  | call op next ih => exact ih _ (returns _) _

/-! ## Last calls -/

/-- A value that satisfies `Q` is returned only right after a call and a reply that
satisfy `P`. -/
def EndsBy (Q : α → Prop) (P : (op : Op) → Reply op → Prop) : Program Op Reply α → Prop
  | .pure _ => True
  | .call op next => ∀ reply,
      (∀ value, next reply = .pure value → Q value → P op reply) ∧
        (next reply).EndsBy Q P

theorem endsBy_never {P : (op : Op) → Reply op → Prop} (program : Program Op Reply α) :
    program.EndsBy (fun _ => False) P := by
  induction program with
  | pure value => trivial
  | call op next ih => exact fun reply => ⟨fun _ _ h => h.elim, ih reply⟩

theorem eq_pure_of_bind_eq_pure {program : Program Op Reply α}
    {next : α → Program Op Reply β} {value : β} (h : program.bind next = .pure value) :
    ∃ first, program = .pure first ∧ next first = .pure value := by
  cases program with
  | pure first => exact ⟨first, rfl, h⟩
  | call op rest => cases h

theorem EndsBy.bind {Q : α → Prop} {R : β → Prop} {P : (op : Op) → Reply op → Prop}
    {program : Program Op Reply α} {next : α → Program Op Reply β}
    (first : program.EndsBy Q P) (rest : ∀ value, (next value).EndsBy R P)
    (ends : ∀ value value', next value = .pure value' → R value' → Q value) :
    (program.bind next).EndsBy R P := by
  induction program with
  | pure value => exact rest value
  | call op more ih =>
      intro reply
      refine ⟨?_, ih reply (first reply).2⟩
      intro value' hvalue' hr
      obtain ⟨value, hmore, hnext⟩ := eq_pure_of_bind_eq_pure hvalue'
      exact (first reply).1 value hmore (ends value value' hnext hr)

/-! ## After a call -/

/-- Once a call has got a reply that satisfies `P`, only allowed calls follow, and the
value returned satisfies `Q`. -/
def Since (P : (op : Op) → Reply op → Prop) (allowed : Op → Prop) (Q : α → Prop) :
    Program Op Reply α → Prop
  | .pure _ => True
  | .call op next => ∀ reply,
      (P op reply → (next reply).Uses allowed ∧ (next reply).Returns Q) ∧
        (next reply).Since P allowed Q

section Since
variable {P : (op : Op) → Reply op → Prop} {allowed : Op → Prop} {Q : α → Prop}
  {program : Program Op Reply α}

theorem Since.of_uses {kind : Op → Prop} (uses : program.Uses kind)
    (never : ∀ op, kind op → ∀ reply, ¬ P op reply) : program.Since P allowed Q := by
  induction program with
  | pure value => trivial
  | call op next ih =>
      intro reply
      exact ⟨fun h => absurd h (never op uses.1 reply), ih reply (uses.2 reply)⟩

theorem Since.of_allowed (uses : program.Uses allowed) (returns : program.Returns Q) :
    program.Since P allowed Q := by
  induction program with
  | pure value => trivial
  | call op next ih =>
      intro reply
      exact ⟨fun _ => ⟨uses.2 reply, returns reply⟩, ih reply (uses.2 reply) (returns reply)⟩

theorem Since.bind {R : β → Prop} {next : α → Program Op Reply β}
    (first : program.Since P allowed Q) (rest : ∀ value, (next value).Since P allowed R)
    (after : ∀ value, Q value → (next value).Uses allowed ∧ (next value).Returns R) :
    (program.bind next).Since P allowed R := by
  induction program with
  | pure value => exact rest value
  | call op more ih =>
      intro reply
      refine ⟨fun h => ?_, ih reply (first reply).2⟩
      obtain ⟨huses, hreturns⟩ := (first reply).1 h
      refine ⟨huses.bind_returns hreturns fun value hq => (after value hq).1, ?_⟩
      exact hreturns.bind fun value hq => (after value hq).2

end Since

/-! ## Points of a program -/

/-- What is left of a program after some of its calls, for some replies. -/
inductive Reaches : Program Op Reply α → Program Op Reply α → Prop
  | here (program : Program Op Reply α) : Reaches program program
  | after {op : Op} {next : Reply op → Program Op Reply α} {rest : Program Op Reply α}
      (reply : Reply op) (later : Reaches (next reply) rest) : Reaches (.call op next) rest

/-- The footprint of a program covers what is left of it at any point. -/
theorem Uses.reaches {allowed : Op → Prop} {program rest : Program Op Reply α}
    (uses : program.Uses allowed) (reaches : program.Reaches rest) : rest.Uses allowed := by
  induction reaches with
  | here => exact uses
  | after reply _ ih => exact ih (uses.2 reply)

end Program

end FileMover.Framework
