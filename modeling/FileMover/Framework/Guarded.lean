import Mathlib.Logic.Relation

/-!
# Labelled systems and guarded histories

A system of several parties as a partial function `act` from a state and a label
to the next state: the label says which party moves and how, and `none` that it
cannot. A *condition* on states and labels selects the histories one wants to talk
about: those in which every step meets it.

`replay` runs a given list of labels, so that a particular history can be
computed.
-/

namespace FileMover.Framework

variable {State Label : Type} {act : State → Label → Option State}
  {condition : State → Label → Prop} {s t : State}

/-- One step that meets the condition. -/
def GuardedStep (act : State → Label → Option State) (condition : State → Label → Prop)
    (s t : State) : Prop :=
  ∃ l, condition s l ∧ act s l = some t

abbrev GuardedReach (act : State → Label → Option State)
    (condition : State → Label → Prop) : State → State → Prop :=
  Relation.ReflTransGen (GuardedStep act condition)

/-- What every step that meets the condition preserves holds throughout. -/
theorem GuardedReach.invariant (Inv : State → Prop)
    (keeps : ∀ {s t l}, condition s l → act s l = some t → Inv s → Inv t)
    (init : Inv s) (reach : GuardedReach act condition s t) : Inv t := by
  induction reach with
  | refl => exact init
  | tail _ step ih =>
      obtain ⟨l, hcondition, hact⟩ := step
      exact keeps hcondition hact ih

/-! ## Particular histories -/

def replay (act : State → Label → Option State) : List Label → State → Option State
  | [], s => some s
  | l :: rest, s => (act s l).bind (replay act rest)

/-- A history that can be replayed in two parts. -/
theorem exists_replay {labels more : List Label}
    (h : (replay act (labels ++ more) s).isSome = true) :
    ∃ t u, replay act labels s = some t ∧ replay act more t = some u ∧
      replay act (labels ++ more) s = some u := by
  have hsplit : replay act (labels ++ more) s = (replay act labels s).bind (replay act more) := by
    clear h
    induction labels generalizing s with
    | nil => rfl
    | cons l rest ih =>
        simp only [List.cons_append, replay, Option.bind_assoc]
        congr 1
        funext t
        exact ih
  obtain ⟨u, hu⟩ := Option.isSome_iff_exists.mp h
  rw [hsplit] at hu
  obtain ⟨t, ht, hmore⟩ := Option.bind_eq_some_iff.mp hu
  refine ⟨t, u, ht, hmore, ?_⟩
  rw [hsplit]
  exact hu

/-- Every step of this history meets the condition. -/
def AllSteps (act : State → Label → Option State) (condition : State → Label → Prop) :
    List Label → State → Prop
  | [], _ => True
  | l :: rest, s => condition s l ∧ ∀ t ∈ act s l, AllSteps act condition rest t

instance AllSteps.decidable [∀ s l, Decidable (condition s l)] :
    (labels : List Label) → (s : State) → Decidable (AllSteps act condition labels s)
  | [], _ => .isTrue trivial
  | l :: rest, s =>
      have : ∀ t, Decidable (AllSteps act condition rest t) := AllSteps.decidable rest
      inferInstanceAs (Decidable (condition s l ∧
        ∀ t ∈ act s l, AllSteps act condition rest t))

theorem AllSteps.of_free (free : ∀ s l, condition s l) (labels : List Label) (s : State) :
    AllSteps act condition labels s := by
  induction labels generalizing s with
  | nil => trivial
  | cons l rest ih => exact ⟨free s l, fun t _ => ih t⟩

/-- The condition may be exchanged for one that follows from it and from what these labels
preserve. -/
theorem AllSteps.refine {condition' : State → Label → Prop} (Inv : State → Prop)
    (allowed : Label → Prop)
    (keeps : ∀ {s t l}, allowed l → act s l = some t → Inv s → Inv t)
    (implies : ∀ s l, allowed l → Inv s → condition s l → condition' s l) {labels : List Label}
    (all : ∀ l ∈ labels, allowed l) (init : Inv s) (meet : AllSteps act condition labels s) :
    AllSteps act condition' labels s := by
  induction labels generalizing s with
  | nil => trivial
  | cons l rest ih =>
      have hl : allowed l := all l List.mem_cons_self
      refine ⟨implies s l hl init meet.1, fun t ht => ?_⟩
      exact ih (fun l' h' => all l' (List.mem_cons_of_mem l h')) (keeps hl ht init) (meet.2 t ht)

theorem AllSteps.mono {condition' : State → Label → Prop} {labels : List Label}
    (meet : AllSteps act condition labels s)
    (implies : ∀ s l, condition s l → condition' s l) : AllSteps act condition' labels s :=
  AllSteps.refine (fun _ => True) (fun _ => True) (fun _ _ h => h)
    (fun s l _ _ h => implies s l h) (fun _ _ => trivial) trivial meet

/-- The condition is met along a history if it follows from what these labels
preserve. -/
theorem AllSteps.of_invariant (Inv : State → Prop) (allowed : Label → Prop)
    (keeps : ∀ {s t l}, allowed l → act s l = some t → Inv s → Inv t)
    (meets : ∀ s l, allowed l → Inv s → condition s l) {labels : List Label}
    (all : ∀ l ∈ labels, allowed l) (init : Inv s) : AllSteps act condition labels s :=
  AllSteps.refine Inv allowed keeps (fun s l hl h _ => meets s l hl h) all init
    (AllSteps.of_free (fun _ _ => trivial) labels s)

theorem GuardedReach.of_replay {labels : List Label}
    (meet : AllSteps act condition labels s) (h : replay act labels s = some t) :
    GuardedReach act condition s t := by
  induction labels generalizing s with
  | nil =>
      cases h
      exact .refl
  | cons l rest ih =>
      obtain ⟨u, hact, hrest⟩ := Option.bind_eq_some_iff.mp h
      exact .head ⟨l, meet.1, hact⟩ (ih (meet.2 u hact) hrest)

end FileMover.Framework
