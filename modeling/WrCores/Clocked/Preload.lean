import WrCores.Clocked.Stream

/-!
A machine that reads from a queue which is written while it runs. `step` is the machine,
`advance` the same without the writes, `preload` puts items behind those in the queue. If
an edge of `advance` with the items of the edge already in the queue does what `step` does
with them, then a run of `step` is one of `advance` with everything in the queue from the
start.
-/

namespace WrCores.Clocked

variable {State Input Item Event : Type*} {step advance : State → Input → State}
  {holds : State → Input → Prop} {preload : State → List Item → State} {written : Input → List Item}

/-- The law of such a queue. -/
structure Preloads (step advance : State → Input → State) (holds : State → Input → Prop)
    (preload : State → List Item → State) (written : Input → List Item) : Prop where
  edge : ∀ state input more, holds state input →
    advance (preload state (written input ++ more)) input = preload (step state input) more
  kept : ∀ state input more, holds state input → holds (preload state more) input

section Run

variable (law : Preloads step advance holds preload written)

include law

theorem Preloads.run {state : State} {inputs : List Input} (along : Along step holds state inputs)
    (more : List Item) :
    Clocked.run advance (preload state (inputs.flatMap written ++ more)) inputs =
        preload (Clocked.run step state inputs) more ∧
      Along advance holds (preload state (inputs.flatMap written ++ more)) inputs := by
  induction inputs generalizing state with
  | nil => exact ⟨rfl, trivial⟩
  | cons input rest ih =>
      have next := law.edge state input (rest.flatMap written ++ more) along.1
      rw [← List.append_assoc] at next
      obtain ⟨there, later⟩ := ih along.2
      rw [List.flatMap_cons]
      refine ⟨?_, law.kept _ _ _ along.1, ?_⟩
      · rw [run_cons, next, there, run_cons]
      · rw [next]
        exact later

theorem Preloads.collect {S : State → List Event}
    (same : ∀ state more, S (preload state more) = S state)
    {state : State} {inputs : List Input} (along : Along step holds state inputs)
    (more : List Item) :
    Clocked.collect advance (fun s i => S (advance s i))
        (preload state (inputs.flatMap written ++ more)) inputs =
      Clocked.collect step (fun s i => S (step s i)) state inputs := by
  induction inputs generalizing state with
  | nil => rfl
  | cons input rest ih =>
      have next := law.edge state input (rest.flatMap written ++ more) along.1
      rw [← List.append_assoc] at next
      rw [List.flatMap_cons, collect_cons, collect_cons, next, same, ih along.2]

variable {state : State} {inputs : Nat → Input} {items : List Item} {bound : Nat}

/-- All items are written before the edge `bound`. -/
theorem Preloads.throughout (always : Throughout step holds state inputs)
    (all : ∀ n ≥ bound, (upTo inputs n).flatMap written = items) :
    Throughout advance holds (preload state items) inputs := by
  intro n
  have later := (law.run (always (max n bound)) []).2
  rw [List.append_nil, all _ (Nat.le_max_right n bound)] at later
  exact later.start (Nat.le_max_left n bound)

theorem Preloads.state_at (always : Throughout step holds state inputs)
    (all : ∀ n ≥ bound, (upTo inputs n).flatMap written = items) (n : Nat) :
    Clocked.run advance (preload state items) (upTo inputs n) =
      preload (Clocked.run step state (upTo inputs n))
        ((upTo (Clocked.after inputs n) bound).flatMap written) := by
  have split : items = (upTo inputs n).flatMap written ++
      (upTo (Clocked.after inputs n) bound).flatMap written := by
    rw [← all (n + bound) (Nat.le_add_left bound n), upTo_add, List.flatMap_append]
  rw [split]
  exact (law.run (always n) _).1

end Run

end WrCores.Clocked
