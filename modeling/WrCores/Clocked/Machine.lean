import WrCores.Clocked.Stream

/-!
Networks of clocked machines that share an enable. A machine of a network shows its output for the state before an edge
and the input there. `seq` puts one behind another, `par` puts two side by side, `wires` is one without registers.
`Delivers` says that the output is a function of the input some enabled edges before; the delays of machines in a row add
up. Nothing here names a particular circuit.
-/

namespace WrCores.Clocked

section Gated

variable {State Input : Type*}

/-- A machine that only moves at the edges which `enable` picks. -/
def gated (enable : Input → Bool) (step : State → Input → State) (s : State) (i : Input) : State :=
  if enable i then step s i else s

theorem run_gated (enable : Input → Bool) (step : State → Input → State) (s : State) (inputs : List Input) :
    run (gated enable step) s inputs = run step s (inputs.filter enable) := by
  induction inputs generalizing s with
  | nil => rfl
  | cons i rest ih =>
      rw [run_cons, ih, List.filter_cons, gated]
      split <;> rfl

end Gated

structure Machine (I O : Type) where
  State : Type
  /-- What the reset leaves. -/
  reset : State
  step : Bool → State → I → State
  out : State → I → O

namespace Machine

variable {I O A B C D : Type}

def wires (f : I → O) : Machine I O where
  State := Unit
  reset := ()
  step _ s _ := s
  out _ := f

def register (start : I) (f : I → O) : Machine I O where
  State := I
  reset := start
  step en s i := if en then i else s
  out s _ := f s

def seq (first : Machine A B) (second : Machine B C) : Machine A C where
  State := first.State × second.State
  reset := (first.reset, second.reset)
  step en s i := (first.step en s.1 i, second.step en s.2 (first.out s.1 i))
  out s i := second.out s.2 (first.out s.1 i)

def par (left : Machine A B) (right : Machine C D) : Machine (A × C) (B × D) where
  State := left.State × right.State
  reset := (left.reset, right.reset)
  step en s i := (left.step en s.1 i.1, right.step en s.2 i.2)
  out s i := (left.out s.1 i.1, right.out s.2 i.2)

/-- One machine for each index. -/
def each (m : Machine I O) : Machine (Nat → I) (Nat → O) where
  State := Nat → m.State
  reset _ := m.reset
  step en s i k := m.step en (s k) (i k)
  out s i k := m.out (s k) (i k)

/-- The state after `n` enabled edges. -/
def state (m : Machine I O) (s : m.State) (inputs : Nat → I) : Nat → m.State
  | 0 => s
  | n + 1 => m.step true (m.state s inputs n) (inputs n)

def outputs (m : Machine I O) (s : m.State) (inputs : Nat → I) (n : Nat) : O :=
  m.out (m.state s inputs n) (inputs n)

/-- The output at an edge belongs to the input `delay` enabled edges before. -/
def Delivers (m : Machine I O) (f : I → O) (delay : Nat) : Prop :=
  ∀ s inputs n, m.outputs s inputs (n + delay) = f (inputs n)

/-- Without the enable nothing moves. -/
def Holds (m : Machine I O) : Prop := ∀ s i, m.step false s i = s

theorem Delivers.congr {m : Machine I O} {f g : I → O} {d e : Nat} (delivers : m.Delivers f d)
    (same : ∀ i, f i = g i) (delay : d = e) : m.Delivers g e := by
  intro s inputs n
  rw [← delay, delivers, same]

theorem wires_delivers (f : I → O) : (wires f).Delivers f 0 := fun _ _ _ => rfl

theorem wires_holds (f : I → O) : (wires f).Holds := fun _ _ => rfl

theorem register_delivers (start : I) (f : I → O) : (register start f).Delivers f 1 := fun _ _ _ => rfl

theorem register_holds (start : I) (f : I → O) : (register start f).Holds := fun _ _ => rfl

section Compose

variable {first : Machine A B} {second : Machine B C} {left : Machine A B} {right : Machine C D}

theorem seq_state (s : (first.seq second).State) (inputs : Nat → A) (n : Nat) :
    (first.seq second).state s inputs n =
      (first.state s.1 inputs n, second.state s.2 (first.outputs s.1 inputs) n) := by
  induction n with
  | zero => rfl
  | succ n ih =>
      rw [state, ih]
      rfl

theorem Delivers.seq {f : A → B} {g : B → C} {d e : Nat} (front : first.Delivers f d) (back : second.Delivers g e) :
    (first.seq second).Delivers (fun i => g (f i)) (d + e) := by
  intro s inputs n
  rw [outputs, seq_state, ← Nat.add_assoc]
  have arrived := back s.2 (first.outputs s.1 inputs) (n + d)
  rw [front] at arrived
  exact arrived

theorem Holds.seq (front : first.Holds) (back : second.Holds) : (first.seq second).Holds :=
  fun s i => Prod.ext (front s.1 i) (back s.2 _)

theorem par_state (s : (left.par right).State) (inputs : Nat → A × C) (n : Nat) :
    (left.par right).state s inputs n =
      (left.state s.1 (fun k => (inputs k).1) n, right.state s.2 (fun k => (inputs k).2) n) := by
  induction n with
  | zero => rfl
  | succ n ih =>
      rw [state, ih]
      rfl

theorem Delivers.par {f : A → B} {g : C → D} {d : Nat} (one : left.Delivers f d) (other : right.Delivers g d) :
    (left.par right).Delivers (fun i => (f i.1, g i.2)) d := by
  intro s inputs n
  rw [outputs, par_state]
  exact Prod.ext (one s.1 (fun k => (inputs k).1) n) (other s.2 (fun k => (inputs k).2) n)

theorem each_state (s : left.each.State) (inputs : Nat → Nat → A) (n k : Nat) :
    left.each.state s inputs n k = left.state (s k) (fun t => inputs t k) n := by
  induction n with
  | zero => rfl
  | succ n ih =>
      rw [state, state, ← ih]
      rfl

theorem Delivers.each {f : A → B} {d : Nat} (one : left.Delivers f d) : left.each.Delivers (fun v k => f (v k)) d :=
    by
  intro s inputs n
  funext k
  have arrived := one (s k) (fun t => inputs t k) n
  rwa [outputs, ← each_state] at arrived

theorem Holds.each (one : left.Holds) : left.each.Holds := fun s i => funext fun k => one (s k) (i k)

theorem Holds.par (one : left.Holds) (other : right.Holds) : (left.par right).Holds :=
  fun s i => Prod.ext (one s.1 i.1) (other s.2 i.2)

end Compose

variable {m : Machine I O}

/-- One edge of the network, with its enable. -/
def edge (m : Machine I O) (s : m.State) (e : Bool × I) : m.State := m.step e.1 s e.2

theorem run_enabled (holds : m.Holds) (s : m.State) (edges : List (Bool × I)) :
    run m.edge s edges = run (m.step true) s ((edges.filter (·.1)).map (·.2)) := by
  induction edges generalizing s with
  | nil => rfl
  | cons e rest ih =>
      rw [run_cons, ih, List.filter_cons, edge]
      cases enabled : e.1 with
      | false => rw [if_neg Bool.false_ne_true, holds]
      | true => rw [if_pos rfl, List.map_cons, run_cons]

theorem run_state (s : m.State) (inputs : Nat → I) (n : Nat) :
    run (m.step true) s (upTo inputs n) = m.state s inputs n := by
  induction n with
  | zero => rfl
  | succ n ih => rw [upTo_snoc, run_append, ih, state, run_cons, run_nil]

/-- The inputs of the enabled edges and the one that is there now, the latest first. -/
def taken (edges : List (Bool × I)) (now : I) : List I := now :: ((edges.filter (·.1)).map (·.2)).reverse

theorem Delivers.run {f : I → O} {delay : Nat} (delivers : m.Delivers f delay) (holds : m.Holds) (s : m.State)
    (edges : List (Bool × I)) {now i : I} (before : (taken edges now)[delay]? = some i) :
    m.out (Clocked.run m.edge s edges) now = f i := by
  rw [run_enabled holds]
  generalize inner : (edges.filter (·.1)).map (·.2) = past
  rw [taken, inner] at before
  have far : delay ≤ past.length := by
    have inside := (List.getElem?_eq_some_iff.mp before).1
    rw [List.length_cons, List.length_reverse] at inside
    omega
  let inputs (k : Nat) : I := (past ++ [now])[k]?.getD now
  have early : upTo inputs past.length = past := by
    refine List.ext_getElem (by simp) fun k inside inside' => ?_
    simp only [upTo, List.getElem_map, List.getElem_range, inputs]
    rw [List.getElem?_append_left inside', List.getElem?_eq_getElem inside', Option.getD_some]
  have last : inputs past.length = now := by simp [inputs]
  have arrived := delivers s inputs (past.length - delay)
  rw [Nat.sub_add_cancel far, outputs, last, ← run_state, early] at arrived
  have index : (past ++ [now]).reverse = now :: past.reverse := by simp
  have found : (past ++ [now])[past.length - delay]? = some i := by
    rw [← before, ← index, List.getElem?_reverse (by simp; omega)]
    congr 1
    simp
  rw [arrived]
  simp only [inputs, found, Option.getD_some]

end Machine

end WrCores.Clocked
