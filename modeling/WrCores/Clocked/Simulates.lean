import WrCores.Clocked.Run

/-!
A clocked machine that performs the events of another one, each at some edge, with edges between them where nothing
happens. What the abstract machine shows over all events, the clocked one shows over the run. Nothing here names a
particular circuit.
-/

namespace WrCores.Clocked

variable {State Input Abstract Event Seen : Type*}

/-- `core` is what the machine `step` has of the machine `act`; `events` are what happens at an edge. -/
structure Simulates (step : State → Input → State) (act : Abstract → Event → Abstract) (core : State → Abstract)
    (events : State → Input → List Event) (inv : State → Prop) : Prop where
  kept : ∀ s i, inv s → inv (step s i)
  moves : ∀ s i, inv s → core (step s i) = run act (core s) (events s i)

namespace Simulates

variable {step : State → Input → State} {act : Abstract → Event → Abstract} {core : State → Abstract}
  {events : State → Input → List Event} {inv : State → Prop} (sim : Simulates step act core events inv)

include sim

theorem inv_run {s : State} (start : inv s) (inputs : List Input) : inv (run step s inputs) := by
  induction inputs generalizing s with
  | nil => exact start
  | cons i rest ih => exact ih (sim.kept s i start)

theorem core_run {s : State} (start : inv s) (inputs : List Input) :
    core (run step s inputs) = run act (core s) (collect step events s inputs) := by
  induction inputs generalizing s with
  | nil => rfl
  | cons i rest ih => rw [run_cons, ih (sim.kept s i start), collect_cons, run_append, sim.moves s i start]

theorem collect_run {seen : State → Input → List Seen} {shown : Abstract → Event → List Seen}
    (agree : ∀ s i, inv s → seen s i = collect act shown (core s) (events s i)) {s : State} (start : inv s)
    (inputs : List Input) :
    collect step seen s inputs = collect act shown (core s) (collect step events s inputs) := by
  induction inputs generalizing s with
  | nil => rfl
  | cons i rest ih =>
      rw [collect_cons, ih (sim.kept s i start), collect_cons, collect_append, agree s i start, sim.moves s i start]

theorem along_run {holds : State → Input → Prop} {shown : Abstract → Event → Prop}
    (agree : ∀ s i, inv s → holds s i → Along act shown (core s) (events s i)) {s : State} (start : inv s)
    {inputs : List Input} (good : Along step holds s inputs) :
    Along act shown (core s) (collect step events s inputs) := by
  induction inputs generalizing s with
  | nil => trivial
  | cons i rest ih =>
      rw [collect_cons, along_append, ← sim.moves s i start]
      exact ⟨agree s i start good.1, ih (sim.kept s i start) good.2⟩

end Simulates

end WrCores.Clocked
