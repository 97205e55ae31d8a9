import WrCores.Clocked.Run

/-!
Machines with an endless stream of inputs, one for each edge, and machines behind a
register. `collect` sees a machine before each edge; what its registers hold after an
edge is seen at the next one, which `collect_registered` says once for all observers of
registers. `collect_delayed` moves a register in front of a machine out of the way. `Shows` is a
triple for a machine that shows one event at each edge; `Reaches` is its counterpart for
streams, where the number of edges depends on the inputs.
-/

namespace WrCores.Clocked

variable {State Input Event : Type*}

/-- The first `n` inputs of a stream. -/
def upTo (inputs : Nat → Input) (n : Nat) : List Input := (List.range n).map inputs

/-- A stream without its first `m` inputs. -/
def after (inputs : Nat → Input) (m : Nat) : Nat → Input := fun n => inputs (m + n)

/-- A condition that holds at every edge. -/
def Throughout (step : State → Input → State) (holds : State → Input → Prop) (state : State)
    (inputs : Nat → Input) : Prop :=
  ∀ n, Along step holds state (upTo inputs n)

@[simp] theorem upTo_length (inputs : Nat → Input) (n : Nat) : (upTo inputs n).length = n := by
  simp [upTo]

theorem upTo_add (inputs : Nat → Input) (m n : Nat) :
    upTo inputs (m + n) = upTo inputs m ++ upTo (after inputs m) n := by
  simp only [upTo, List.range_add, List.map_append, List.map_map]
  rfl

theorem upTo_snoc (inputs : Nat → Input) (n : Nat) :
    upTo inputs (n + 1) = upTo inputs n ++ [inputs n] := by
  simp [upTo, List.range_succ]

theorem mem_upTo {inputs : Nat → Input} {n : Nat} {input : Input} :
    input ∈ upTo inputs n ↔ ∃ m < n, inputs m = input := by
  simp [upTo]

variable {step : State → Input → State}

theorem Along.start {holds : State → Input → Prop} {state : State} {inputs : Nat → Input}
    {m n : Nat} (short : m ≤ n) (along : Along step holds state (upTo inputs n)) :
    Along step holds state (upTo inputs m) := by
  obtain ⟨more, rfl⟩ := Nat.exists_eq_add_of_le short
  rw [upTo_add, along_append] at along
  exact along.1

theorem Throughout.after {holds : State → Input → Prop} {state : State} {inputs : Nat → Input}
    (always : Throughout step holds state inputs) (m : Nat) :
    Throughout step holds (run step state (upTo inputs m)) (Clocked.after inputs m) := by
  intro n
  have whole := always (m + n)
  rw [upTo_add, along_append] at whole
  exact whole.2

theorem Throughout.now {holds : State → Input → Prop} {state : State} {inputs : Nat → Input}
    (always : Throughout step holds state inputs) : holds state (inputs 0) :=
  (always 1).1

theorem Throughout.at_edge {holds : State → Input → Prop} {state : State} {inputs : Nat → Input}
    (always : Throughout step holds state inputs) (n : Nat) :
    holds (run step state (upTo inputs n)) (inputs n) :=
  (always.after n).now

theorem throughout_iff {holds : State → Input → Prop} {state : State} {inputs : Nat → Input} :
    Throughout step holds state inputs ↔ ∀ n, holds (run step state (upTo inputs n)) (inputs n) := by
  refine ⟨fun always n => always.at_edge n, fun all n => ?_⟩
  induction n with
  | zero => trivial
  | succ n ih =>
      rw [upTo_snoc, along_append]
      exact ⟨ih, all n, trivial⟩

theorem upTo_constant {inputs : Nat → Input} {input : Input} (same : ∀ n, inputs n = input)
    (n : Nat) : upTo inputs n = List.replicate n input := by
  simp [upTo, same, List.eq_replicate_iff]

/-- A machine that has come to a cycle of `p` states under inputs that have come to one of `p` inputs. -/
theorem throughout_of_cycle {holds : State → Input → Prop} {state : State} {inputs : Nat → Input} {m p : Nat}
    (positive : 0 < p) (first : Along step holds state (upTo inputs m)) (rest : ∀ n ≥ m, inputs (n + p) = inputs n)
    (fixed : run step (run step state (upTo inputs m)) (upTo (Clocked.after inputs m) p) =
      run step state (upTo inputs m))
    (kept : Along step holds (run step state (upTo inputs m)) (upTo (Clocked.after inputs m) p)) :
    Throughout step holds state inputs := by
  have turn : ∀ k n, inputs (m + k * p + n) = inputs (m + n) := by
    intro k n
    induction k with
    | zero => rw [Nat.zero_mul, Nat.add_zero]
    | succ k ih => rw [Nat.succ_mul, show m + (k * p + p) + n = m + k * p + n + p by omega, rest _ (by omega), ih]
  have stays : ∀ k, Along step holds state (upTo inputs (m + k * p)) ∧
      run step state (upTo inputs (m + k * p)) = run step state (upTo inputs m) := by
    intro k
    induction k with
    | zero => exact ⟨by simpa using first, by simp⟩
    | succ k ih =>
        have same : Clocked.after inputs (m + k * p) = Clocked.after inputs m := funext (turn k)
        rw [Nat.succ_mul, ← Nat.add_assoc, upTo_add, along_append, run_append, ih.2, same]
        exact ⟨⟨ih.1, kept⟩, fixed⟩
  intro n
  have far : n ≤ m + n * p := Nat.le_add_left_of_le (Nat.le_mul_of_pos_right n positive)
  exact (stays n).1.start far

/-- A machine that has come to a cycle of `p` states under an input that no longer changes. -/
theorem throughout_of_settled {holds : State → Input → Prop} {state : State}
    {inputs : Nat → Input} {input : Input} {m p : Nat} (positive : 0 < p)
    (first : Along step holds state (upTo inputs m)) (rest : ∀ n ≥ m, inputs n = input)
    (fixed : run step (run step state (upTo inputs m)) (List.replicate p input) =
      run step state (upTo inputs m))
    (kept : Along step holds (run step state (upTo inputs m)) (List.replicate p input)) :
    Throughout step holds state inputs := by
  have turn : upTo (Clocked.after inputs m) p = List.replicate p input :=
    upTo_constant (fun n => rest (m + n) (Nat.le_add_right m n)) p
  refine throughout_of_cycle positive first (fun n late => ?_) (turn ▸ fixed) (turn ▸ kept)
  rw [rest n late, rest (n + p) (by omega)]

variable (step)

theorem collect_registered (shown : State → List Event) (state : State) (inputs : List Input)
    (last : Input) :
    collect step (fun s _ => shown s) state (inputs ++ [last]) =
      shown state ++ collect step (fun s i => shown (step s i)) state inputs := by
  induction inputs generalizing state with
  | nil => simp
  | cons input rest ih => rw [List.cons_append, collect_cons, ih, collect_cons]

theorem collect_delayed {Machine Code : Type*} (whole : Machine → Code → Machine)
    (core : Machine → State) (reg : Machine → Input) (decode : Code → Input)
    (core_step : ∀ m c, core (whole m c) = step (core m) (reg m))
    (reg_step : ∀ m c, reg (whole m c) = decode c) (shown : State → List Event)
    (m : Machine) (codes : List Code) :
    collect whole (fun m _ => shown (core m)) m codes =
      collect step (fun s _ => shown s) (core m)
        ((reg m :: codes.map decode).take codes.length) := by
  induction codes generalizing m with
  | nil => rfl
  | cons c rest ih =>
      rw [collect_cons, ih, core_step, reg_step]
      rfl

/-- From a state in `pre`, with edges that keep to `holds`, the machine shows `events`,
one at each edge, and is then in `post`. -/
def Shows (holds : State → Input → Prop) (seen : State → Input → Event) (pre : State → Prop)
    (events : List Event) (post : State → Prop) : Prop :=
  ∀ state inputs, inputs.length = events.length → Along step holds state inputs → pre state →
    collect step (fun s i => [seen s i]) state inputs = events ∧ post (run step state inputs)

section Shows

variable {step} {holds : State → Input → Prop} {seen : State → Input → Event}
  {pre M post : State → Prop} {events more : List Event} {event : Event}

theorem Shows.nil : Shows step holds seen pre [] pre := by
  intro state inputs length _ start
  obtain rfl := List.eq_nil_of_length_eq_zero length
  exact ⟨rfl, start⟩

theorem Shows.cons
    (edge : ∀ state input, pre state → holds state input →
      seen state input = event ∧ M (step state input))
    (rest : Shows step holds seen M events post) :
    Shows step holds seen pre (event :: events) post := by
  intro state inputs length along start
  obtain ⟨input, later, rfl⟩ := List.exists_cons_of_length_eq_add_one length
  obtain ⟨here, next⟩ := edge state input start along.1
  obtain ⟨shown, there⟩ := rest _ later (by simpa using length) along.2 next
  exact ⟨by rw [collect_cons, here, shown, List.singleton_append], there⟩

theorem Shows.append (first : Shows step holds seen pre events M)
    (second : Shows step holds seen M more post) :
    Shows step holds seen pre (events ++ more) post := by
  intro state inputs length along start
  have short : (inputs.take events.length).length = events.length := by
    simp [length]
  have rest : (inputs.drop events.length).length = more.length := by simp [length]
  rw [← List.take_append_drop events.length inputs] at along ⊢
  rw [along_append] at along
  obtain ⟨shown, middle⟩ := first _ _ short along.1 start
  obtain ⟨shown', there⟩ := second _ _ rest along.2 middle
  exact ⟨by rw [collect_append, shown, shown'], by rwa [run_append]⟩

end Shows

/-- After some edges of the stream the events so far are in `events` and the state in `post`. -/
def Reaches (seen : State → Input → Event) (events : List Event → Prop) (post : State → Prop)
    (state : State) (inputs : Nat → Input) : Prop :=
  ∃ n, events (collect step (fun s i => [seen s i]) state (upTo inputs n)) ∧
    post (run step state (upTo inputs n))

section Reaches

variable {step} {seen : State → Input → Event} {events A B : List Event → Prop}
  {M post : State → Prop} {state : State} {inputs : Nat → Input}

theorem Reaches.here (none : events []) (start : post state) :
    Reaches step seen events post state inputs :=
  ⟨0, none, start⟩

theorem Reaches.trans (begins : Reaches step seen A M state inputs)
    (continues : ∀ n, M (run step state (upTo inputs n)) →
      Reaches step seen B post (run step state (upTo inputs n)) (after inputs n))
    (joins : ∀ es es', A es → B es' → events (es ++ es')) :
    Reaches step seen events post state inputs := by
  obtain ⟨m, shown, there⟩ := begins
  obtain ⟨n, shown', there'⟩ := continues m there
  refine ⟨m + n, ?_, ?_⟩
  · rw [upTo_add, collect_append]
    exact joins _ _ shown shown'
  · rwa [upTo_add, run_append]

theorem Reaches.edge (shown : A [seen state (inputs 0)]) (next : M (step state (inputs 0))) :
    Reaches step seen A M state inputs :=
  ⟨1, shown, next⟩

theorem Shows.reaches {holds : State → Input → Prop} {pre : State → Prop} {shown : List Event}
    (shows : Shows step holds seen pre shown post) (start : pre state)
    (always : Throughout step holds state inputs) :
    Reaches step seen (· = shown) post state inputs := by
  obtain ⟨codes, there⟩ := shows state (upTo inputs shown.length) (by simp) (always _) start
  exact ⟨shown.length, codes, there⟩

end Reaches

end WrCores.Clocked
