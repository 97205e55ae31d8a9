import Mathlib.Data.List.Basic

/-!
Clocked machines. A machine is its next-state function: one application is one
rising edge of its clock, with the values its inputs have at that edge. `run`
takes a list of edges, `collect` gathers what an observer sees on each of them,
before the edge. `Along` holds a condition at every edge of a run, on the state
before the edge and the inputs there; `Always` holds one in every state of the run,
the last included, and `Visits` in some state. `Shuffle` merges what two observers saw.
Nothing here names a particular circuit.
-/

namespace WrCores.Clocked

variable {State Input Event : Type*}

def run (step : State → Input → State) (state : State) (inputs : List Input) : State :=
  inputs.foldl step state

def collect (step : State → Input → State) (seen : State → Input → List Event) :
    State → List Input → List Event
  | _, [] => []
  | state, input :: rest => seen state input ++ collect step seen (step state input) rest

def Along (step : State → Input → State) (holds : State → Input → Prop) :
    State → List Input → Prop
  | _, [] => True
  | state, input :: rest => holds state input ∧ Along step holds (step state input) rest

def Always (step : State → Input → State) (holds : State → Prop) : State → List Input → Prop
  | state, [] => holds state
  | state, input :: rest => holds state ∧ Always step holds (step state input) rest

def Visits (step : State → Input → State) (goal : State → Prop) : State → List Input → Prop
  | state, [] => goal state
  | state, input :: rest => goal state ∨ Visits step goal (step state input) rest

instance decidableAlong (step : State → Input → State) (holds : State → Input → Prop)
    [∀ state input, Decidable (holds state input)] (state : State) (inputs : List Input) :
    Decidable (Along step holds state inputs) :=
  match inputs with
  | [] => .isTrue trivial
  | input :: rest =>
      have := decidableAlong step holds (step state input) rest
      inferInstanceAs (Decidable (_ ∧ _))

variable (step : State → Input → State)

@[simp] theorem run_nil (state : State) : run step state [] = state := rfl

@[simp] theorem run_cons (state : State) (input : Input) (rest : List Input) :
    run step state (input :: rest) = run step (step state input) rest := rfl

theorem run_append (state : State) (first second : List Input) :
    run step state (first ++ second) = run step (run step state first) second :=
  List.foldl_append

@[simp] theorem collect_nil (seen : State → Input → List Event) (state : State) :
    collect step seen state [] = [] := rfl

@[simp] theorem collect_cons (seen : State → Input → List Event) (state : State)
    (input : Input) (rest : List Input) :
    collect step seen state (input :: rest) =
      seen state input ++ collect step seen (step state input) rest := rfl

theorem collect_append (seen : State → Input → List Event) (state : State)
    (first second : List Input) :
    collect step seen state (first ++ second) =
      collect step seen state first ++ collect step seen (run step state first) second := by
  induction first generalizing state with
  | nil => rfl
  | cons input rest ih => simp [ih]

@[simp] theorem along_nil (holds : State → Input → Prop) (state : State) :
    Along step holds state [] := trivial

@[simp] theorem along_cons (holds : State → Input → Prop) (state : State)
    (input : Input) (rest : List Input) :
    Along step holds state (input :: rest) ↔
      holds state input ∧ Along step holds (step state input) rest := Iff.rfl

theorem along_append (holds : State → Input → Prop) (state : State)
    (first second : List Input) :
    Along step holds state (first ++ second) ↔
      Along step holds state first ∧ Along step holds (run step state first) second := by
  induction first generalizing state with
  | nil => simp
  | cons input rest ih => simp [ih, and_assoc]

variable {step}

theorem Along.and {first second : State → Input → Prop} {state : State} {inputs : List Input}
    (left : Along step first state inputs) (right : Along step second state inputs) :
    Along step (fun s i => first s i ∧ second s i) state inputs := by
  induction inputs generalizing state with
  | nil => trivial
  | cons input rest ih => exact ⟨⟨left.1, right.1⟩, ih left.2 right.2⟩

theorem along_of_forall {holds : State → Input → Prop} (all : ∀ s i, holds s i) (state : State)
    (inputs : List Input) : Along step holds state inputs := by
  induction inputs generalizing state with
  | nil => trivial
  | cons input rest ih => exact ⟨all state input, ih _⟩

/-- The invariant rule: what one edge keeps under the condition of the run, the
whole run keeps. -/
theorem Along.invariant {holds : State → Input → Prop} (inv : State → Prop)
    (kept : ∀ state input, inv state → holds state input → inv (step state input))
    {state : State} {inputs : List Input} (start : inv state)
    (run_ok : Along step holds state inputs) : inv (run step state inputs) := by
  induction inputs generalizing state with
  | nil => exact start
  | cons input rest ih => exact ih (kept state input start run_ok.1) run_ok.2

/-- What holds at an edge under the invariant, holds along the run. -/
theorem Along.yields {holds shown : State → Input → Prop} (inv : State → Prop)
    (kept : ∀ state input, inv state → holds state input → inv (step state input))
    (here : ∀ state input, inv state → holds state input → shown state input)
    {state : State} {inputs : List Input} (start : inv state)
    (run_ok : Along step holds state inputs) : Along step shown state inputs := by
  induction inputs generalizing state with
  | nil => trivial
  | cons input rest ih =>
      exact ⟨here state input start run_ok.1, ih (kept state input start run_ok.1) run_ok.2⟩

theorem Along.imp {first second : State → Input → Prop} (weaker : ∀ s i, first s i → second s i)
    {state : State} {inputs : List Input} (along : Along step first state inputs) :
    Along step second state inputs :=
  along.yields (fun _ => True) (fun _ _ _ _ => trivial) (fun s i _ => weaker s i) trivial

theorem Always.head {holds : State → Prop} {state : State} {inputs : List Input}
    (always : Always step holds state inputs) : holds state := by
  cases inputs with
  | nil => exact always
  | cons _ _ => exact always.1

/-- What one edge keeps exactly under a condition, a run keeps exactly under it. -/
theorem always_iff_along {holds : State → Input → Prop} (inv : State → Prop)
    (kept : ∀ state input, inv state → (inv (step state input) ↔ holds state input))
    {state : State} {inputs : List Input} (start : inv state) :
    Always step inv state inputs ↔ Along step holds state inputs := by
  induction inputs generalizing state with
  | nil => simp [Always, Along, start]
  | cons input rest ih =>
      constructor
      · rintro ⟨-, later⟩
        have next : inv (step state input) := later.head
        exact ⟨(kept state input start).1 next, (ih next).1 later⟩
      · rintro ⟨here, later⟩
        have next := (kept state input start).2 here
        exact ⟨start, (ih next).2 later⟩

/-- The conservation rule. `held` is what the machine still owes; an edge takes
some events in and gives some out. If every edge balances, the run balances. -/
theorem Along.conserves {holds : State → Input → Prop} (inv : State → Prop)
    (held : State → List Event) (taken given : State → Input → List Event)
    (kept : ∀ state input, inv state → holds state input → inv (step state input))
    (balanced : ∀ state input, inv state → holds state input →
      held state ++ taken state input = given state input ++ held (step state input))
    {state : State} {inputs : List Input} (start : inv state)
    (run_ok : Along step holds state inputs) :
    held state ++ collect step taken state inputs =
      collect step given state inputs ++ held (run step state inputs) := by
  induction inputs generalizing state with
  | nil => simp
  | cons input rest ih =>
      have here := balanced state input start run_ok.1
      have later := ih (kept state input start run_ok.1) run_ok.2
      calc held state ++ collect step taken state (input :: rest)
          = (held state ++ taken state input) ++ collect step taken (step state input) rest := by
            simp
        _ = given state input ++ (held (step state input) ++
              collect step taken (step state input) rest) := by
            rw [here, List.append_assoc]
        _ = collect step given state (input :: rest) ++ held (run step state (input :: rest)) := by
            rw [later]
            simp

/-- Two lists into one, each in its order. -/
inductive Shuffle {α : Type*} : List α → List α → List α → Prop
  | nil : Shuffle [] [] []
  | left {as bs cs : List α} (a : α) : Shuffle as bs cs → Shuffle (as ++ [a]) bs (cs ++ [a])
  | right {as bs cs : List α} (b : α) : Shuffle as bs cs → Shuffle as (bs ++ [b]) (cs ++ [b])

end WrCores.Clocked
