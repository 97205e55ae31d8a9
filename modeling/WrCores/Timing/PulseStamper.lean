import WrCores.Clocked.HandOver
import WrCores.Clocked.Stream
import WrCores.Timing.TimeTag
import Mathlib.Tactic.IntervalCases

/-!
pulse_stamper.vhd. An event holds an edge of `clk_ref_i`, of `clk_sys_i`, or both; where a register of one clock is
read while it changes with the other one, the old or the new value is found, bit by bit for the tag.
-/

namespace WrCores.Timing.PulseStamper

open Clocked HandOver

structure RefEdge where
  pulseA : Bool
  tmTimeValid : Bool := true
  tm : Tag
  deriving DecidableEq, Repr

structure Event where
  clkRef : Option RefEdge
  clkSys : Bool
  rstN : Bool := true
  fresh : Side → Bool := fun _ => false
  chosen : Tag := ⟨0, 0⟩

structure State where
  pulseRef : Three
  pulseRefP1 : Bool
  pulseRefP1D1 : Bool
  tagRef : Tag
  rstFromSync : Bool
  pulseRefD2 : Bool
  pulseSys : Three
  pulseSysP1 : Bool
  pulseBack : Three
  tagO : Tag
  tagValidO : Bool
  deriving DecidableEq, Repr

namespace State

variable (s : State) (e : Event)

def stamped : Bool := e.clkRef.any fun r => s.pulseRefP1 && r.tmTimeValid

/-- `tagger`. -/
def tagger : Tag := e.clkRef.elim s.tagRef fun r => if s.pulseRefP1 && r.tmTimeValid then r.tm else s.tagRef

/-- `rst_from_sync` behind the event. -/
def syncRef : Bool := if e.clkRef.isSome then s.pulseBack.b2 else s.rstFromSync

/-- `sync_first_ff`: cleared without a clock. -/
def syncFirstFf : Bool :=
  if !e.rstN || s.rstFromSync || s.syncRef e then false
  else if e.clkRef.isSome && s.pulseRefP1D1 then true else s.pulseRefD2

def syncSys : Three :=
  if e.clkSys then s.pulseSys.push (if e.fresh .receiver then s.syncFirstFf e else s.pulseRefD2) else s.pulseSys

def step : State where
  pulseRef := e.clkRef.elim s.pulseRef fun r => s.pulseRef.push r.pulseA
  pulseRefP1 := if e.clkRef.isSome then s.pulseRef.b1 && !s.pulseRef.b2 else s.pulseRefP1
  pulseRefP1D1 := e.clkRef.elim s.pulseRefP1D1 fun r => s.pulseRefP1 && r.tmTimeValid
  tagRef := s.tagger e
  rstFromSync := s.syncRef e
  pulseRefD2 := s.syncFirstFf e
  pulseSys := s.syncSys e
  pulseSysP1 := if e.clkSys then s.pulseSys.b1 && !s.pulseSys.b2 else s.pulseSysP1
  pulseBack :=
    if e.clkRef.isSome then s.pulseBack.push (if e.fresh .sender then (s.syncSys e).b2 else s.pulseSys.b2)
    else s.pulseBack
  tagO :=
    if e.clkSys then
      if !e.rstN then ⟨0, 0⟩ else if s.pulseSysP1 then Tag.mixture e.chosen s.tagRef (s.tagger e) else s.tagO
    else s.tagO
  tagValidO := if e.clkSys then e.rstN && s.pulseSysP1 else s.tagValidO

end State

/-! ### The hand-over -/

def plan : Plan := ⟨[.receiver, .receiver, .receiver, .sender, .sender, .sender], 1, by decide, by decide⟩

def shake (s : State) : Shake where
  flag := s.pulseRefD2
  chain := [s.pulseSys.b0, s.pulseSys.b1, s.pulseSys.b2, s.pulseBack.b0, s.pulseBack.b1, s.pulseBack.b2]
  strobe := s.pulseSysP1
  clear := s.rstFromSync

def edge (s : State) (e : Event) : Edge where
  ticks
    | .sender => e.clkRef.isSome
    | .receiver => e.clkSys
  fresh := e.fresh
  request := s.pulseRefP1D1

theorem shake_chain (s : State) (e : Event) : (shake (s.step e)).chain =
    shift (edge s e) .sender s.pulseRefD2 (s.syncFirstFf e) plan.sides (shake s).chain := by
  rcases Bool.eq_false_or_eq_true e.clkSys with sys | sys <;>
    rcases Bool.eq_false_or_eq_true e.clkRef.isSome with ref | ref <;>
    simp [shake, State.step, State.syncSys, Three.push, shift, next, edge, plan, sys, ref]

theorem shake_step (s : State) {e : Event} (active : e.rstN = true) :
    shake (s.step e) = (shake s).step plan (edge s e) := by
  have flag : s.syncFirstFf e = (shake s).flagNext (edge s e) := by
    change _ = if s.rstFromSync || s.syncRef e then false else s.pulseRefD2 || (e.clkRef.isSome && s.pulseRefP1D1)
    rw [State.syncFirstFf, active]
    cases s.rstFromSync <;> cases s.syncRef e <;> cases e.clkRef.isSome <;> cases s.pulseRefP1D1 <;>
      cases s.pulseRefD2 <;> rfl
  have whole : shake (s.step e) =
      ⟨s.syncFirstFf e, (shake (s.step e)).chain, (s.step e).pulseSysP1, s.syncRef e⟩ := rfl
  rw [whole, shake_chain, flag]
  rfl

/-! ### Pulses and their tags -/

variable (g : Nat → Event)

def stateAt (start : State) (t : Nat) : State := run State.step start (upTo g t)

theorem stateAt_succ (start : State) (t : Nat) : stateAt g start (t + 1) = (stateAt g start t).step (g t) := by
  rw [stateAt, upTo_snoc, run_append]
  rfl

/-- Nothing is in the way of a pulse. -/
structure State.Quiet (s : State) : Prop where
  first : s.pulseRefP1 = false ∧ s.pulseRefP1D1 = false
  sync : s.pulseRefD2 = false ∧ s.rstFromSync = false
  registers : s.pulseSys = .zero ∧ s.pulseBack = .zero
  last : s.pulseSysP1 = false ∧ s.tagValidO = false

/-- No hand-over is in progress. -/
def State.Idle (s : State) : Prop :=
  s.pulseRefD2 = false ∧ s.pulseSys = .zero ∧ s.pulseBack = .zero ∧ s.rstFromSync = false

variable (start : State)

/-- A pulse arrives with valid time at the edge of the reference clock in event `n`. -/
def Arrives (n : Nat) : Prop := (stateAt g start n).stamped (g n) = true

/-- The pulse of `n` starts a hand-over, with the next edge of the reference clock, at `m`. -/
structure Starts (n m : Nat) : Prop where
  arrives : Arrives g start n
  order : n < m
  next : ∀ k, n < k → k < m → (g k).clkRef = none
  begins : (g m).clkRef.isSome = true ∧ (stateAt g start m).pulseRefP1D1 = true ∧
    (stateAt g start m).pulseRefD2 = false ∧ (stateAt g start m).rstFromSync = false

def Strobe (u : Nat) : Prop := (g u).clkSys = true ∧ (stateAt g start (u + 1)).tagValidO = true

/-- The strobe at `u` ends the hand-over that the pulse of `n` has started. -/
def Reported (n u : Nat) : Prop :=
  ∃ m, Starts g start n m ∧ m < u ∧ Strobe g start u ∧ ∀ n' m', m < m' → m' ≤ u → ¬ Starts g start n' m'

/-- No time is taken while a hand-over waits for its tag to be read. -/
def Undisturbed (s : State) (e : Event) : Prop :=
  s.stamped e = true → ¬ (s.pulseSysP1 = true ∨ s.pulseRefD2 = true ∧ s.pulseSys.b2 = false)

variable {g start}

theorem runs_of_quiet (quiet : start.Quiet) (active : ∀ t, (g t).rstN = true) :
    Runs plan (fun t => shake (stateAt g start t)) (fun t => edge (stateAt g start t) (g t)) := by
  constructor
  · obtain ⟨_, ⟨flag, clear⟩, ⟨sys, back⟩, strobe, _⟩ := quiet
    refine ⟨flag, clear, strobe, ?_⟩
    change [start.pulseSys.b0, start.pulseSys.b1, start.pulseSys.b2, start.pulseBack.b0, start.pulseBack.b1,
      start.pulseBack.b2] = _
    rw [sys, back]
    rfl
  · intro n
    rw [stateAt_succ, shake_step _ (active n)]

/-- The pulse detector shows an edge of the pulse once. -/
theorem detector_once (quiet : start.Quiet) (t : Nat) :
    ((stateAt g start t).pulseRefP1 = true → (stateAt g start t).pulseRef.b2 = true) ∧
      ((stateAt g start t).pulseRefP1D1 = true → (stateAt g start t).pulseRefP1 = false) := by
  induction t with
  | zero =>
      constructor
      · intro high
        rw [show (stateAt g start 0).pulseRefP1 = false from quiet.first.1] at high
        cases high
      · intro _
        exact quiet.first.1
  | succ t ih =>
      rw [stateAt_succ]
      cases ref : (g t).clkRef with
      | none => simpa [State.step, ref] using ih
      | some r =>
          simp only [State.step, ref, Option.elim_some, Option.isSome_some, if_true, Three.push]
          refine ⟨fun high => (Bool.and_eq_true_iff.1 high).1, fun high => ?_⟩
          rw [ih.1 (Bool.and_eq_true_iff.1 high).1, Bool.not_true, Bool.and_false]

/-- Behind an arrival, up to the next edge of the reference clock, the tag is that of the pulse. -/
theorem arrival_of (quiet : start.Quiet) {m : Nat} (high : (stateAt g start m).pulseRefP1D1 = true) :
    ∃ n r, Arrives g start n ∧ n < m ∧ (∀ k, n < k → k < m → (g k).clkRef = none) ∧ (g n).clkRef = some r ∧
      (stateAt g start m).tagRef = r.tm := by
  induction m with
  | zero =>
      rw [show (stateAt g start 0).pulseRefP1D1 = false from quiet.first.2] at high
      cases high
  | succ m ih =>
      rw [stateAt_succ] at high ⊢
      cases ref : (g m).clkRef with
      | none =>
          simp only [State.step, State.tagger, ref, Option.elim_none] at high ⊢
          obtain ⟨n, r, arrives, order, next, same⟩ := ih high
          refine ⟨n, r, arrives, by omega, fun k after' before => ?_, same⟩
          rcases Nat.lt_succ_iff_lt_or_eq.1 before with before | rfl
          · exact next k after' before
          · exact ref
      | some r =>
          simp only [State.step, State.tagger, ref, Option.elim_some] at high ⊢
          refine ⟨m, r, ?_, Nat.lt_succ_self m, fun k after' before => by omega, ref, if_pos high⟩
          rw [Arrives, State.stamped, ref]
          exact high

theorem Starts.begun {n m : Nat} (starts : Starts g start n m) :
    Begins (shake (stateAt g start m)) (edge (stateAt g start m) (g m)) :=
  ⟨⟨starts.begins.1, starts.begins.2.1⟩, starts.begins.2.2⟩

theorem starts_of_begun (quiet : start.Quiet) {m : Nat}
    (begins : Begins (shake (stateAt g start m)) (edge (stateAt g start m) (g m))) :
    ∃ n r, Starts g start n m ∧ (g n).clkRef = some r ∧ (stateAt g start m).tagRef = r.tm := by
  obtain ⟨n, r, arrives, order, next, ref, same⟩ := arrival_of quiet begins.1.2
  exact ⟨n, r, ⟨arrives, order, next, begins.1.1, begins.1.2, begins.2⟩, ref, same⟩

theorem strobe_iff (active : ∀ t, (g t).rstN = true) (u : Nat) : Strobe g start u ↔
    Takes (shake (stateAt g start u)) (edge (stateAt g start u) (g u)) := by
  rw [Strobe, stateAt_succ, Takes, and_comm]
  refine and_congr_left fun sys : (g u).clkSys = true => ?_
  simp only [State.step, sys, if_true, active u, Bool.true_and]
  rfl

theorem reported_iff (quiet : start.Quiet) (active : ∀ t, (g t).rstN = true) (n u : Nat) :
    Reported g start n u ↔ ∃ m, Starts g start n m ∧
      Ends (fun t => shake (stateAt g start t)) (fun t => edge (stateAt g start t) (g t)) m u := by
  constructor
  · rintro ⟨m, starts, order, strobe, last⟩
    refine ⟨m, starts, starts.begun, (strobe_iff active u).1 strobe, order, fun k after' upTo again => ?_⟩
    obtain ⟨n', _, starts', _⟩ := starts_of_begun quiet again
    exact last n' k after' upTo starts'
  · rintro ⟨m, starts, ends⟩
    exact ⟨m, starts, ends.order, (strobe_iff active u).2 ends.takes, fun n' k after' upTo starts' =>
      ends.last k after' upTo starts'.begun⟩

theorem starts_unique {n n' m : Nat} (first : Starts g start n m) (second : Starts g start n' m) : n = n' := by
  have noEdge {n n' : Nat} (first : Starts g start n m) (second : Starts g start n' m) : ¬ n < n' := by
    intro before
    have arrives := second.arrives
    rw [Arrives, State.stamped, first.next n' before second.order] at arrives
    cases arrives
  have upper := noEdge first second
  have lower := noEdge second first
  omega

theorem starts_next {n m m' : Nat} (first : Starts g start n m) (second : Starts g start n m') : m = m' := by
  have noEdge {m m' : Nat} (first : Starts g start n m) (second : Starts g start n m') : ¬ m < m' := by
    intro before
    have ref := first.begins.1
    rw [second.next m first.order before] at ref
    cases ref
  have upper := noEdge first second
  have lower := noEdge second first
  omega

/-- A tag that is not disturbed stays until it is read. -/
theorem tag_kept (quiet : start.Quiet)
    (undisturbed : ∀ t, Undisturbed (stateAt g start t) (g t)) {m u : Nat}
    (begins : Begins (shake (stateAt g start m)) (edge (stateAt g start m) (g m))) (order : m < u)
    (waits : ∀ k, m < k → k ≤ u → Waiting plan (shake (stateAt g start k))) :
    (stateAt g start u).tagger (g u) = (stateAt g start m).tagRef ∧
      (stateAt g start u).tagRef = (stateAt g start m).tagRef := by
  have kept {k : Nat} (none : (stateAt g start k).stamped (g k) ≠ true) :
      (stateAt g start k).tagger (g k) = (stateAt g start k).tagRef := by
    rw [State.tagger]
    cases ref : (g k).clkRef with
    | none => rfl
    | some r =>
        rw [State.stamped, ref] at none
        exact if_neg none
  have whileWaiting {k : Nat} (after' : m < k) (upTo : k ≤ u) :
      (stateAt g start k).tagger (g k) = (stateAt g start k).tagRef :=
    kept fun stamped => undisturbed k stamped (waits k after' upTo)
  -- the detector is at rest behind the edge that it has shown
  have atStart : (stateAt g start m).tagger (g m) = (stateAt g start m).tagRef := by
    refine kept fun stamped => ?_
    obtain ⟨r, ref⟩ := Option.isSome_iff_exists.1 begins.1.1
    rw [State.stamped, ref] at stamped
    have first := (detector_once quiet m).2 begins.1.2
    simp [first] at stamped
  have same : ∀ k, m < k → k ≤ u → (stateAt g start k).tagRef = (stateAt g start m).tagRef := by
    intro k after'
    induction k, Nat.succ_le_of_lt after' using Nat.le_induction with
    | base =>
        intro _
        rw [Nat.succ_eq_add_one, stateAt_succ]
        exact atStart
    | succ k later ih =>
        intro upTo
        rw [stateAt_succ]
        exact (whileWaiting later (by omega)).trans (ih later (by omega))
  exact ⟨(whileWaiting order le_rfl).trans (same u order le_rfl), same u order le_rfl⟩

/-- A pulse that finds neither the flag nor its reset set starts a hand-over. -/
theorem starts_of_idle (quiet : start.Quiet) (active : ∀ t, (g t).rstN = true) {n m : Nat}
    (arrives : Arrives g start n) (idle : (stateAt g start n).pulseRefD2 = false ∧
      (stateAt g start n).rstFromSync = false) (order : n < m) (next : ∀ k, n < k → k < m → (g k).clkRef = none)
    (ref : (g m).clkRef.isSome = true) : Starts g start n m := by
  have runs := runs_of_quiet quiet active
  -- up to the next edge of the reference clock nothing of the hand-over moves
  have still : ∀ k, n < k → k ≤ m → (stateAt g start k).pulseRefP1D1 = true ∧
      (stateAt g start k).pulseRefD2 = false ∧ (stateAt g start k).rstFromSync = false := by
    intro k after'
    induction k, Nat.succ_le_of_lt after' using Nat.le_induction with
    | base =>
        intro _
        have none : ¬ Begins (shake (stateAt g start n)) (edge (stateAt g start n) (g n)) := by
          intro begins
          have first := (detector_once quiet n).2 begins.1.2
          rw [Arrives, State.stamped, first] at arrives
          simp at arrives
        have stays := (runs.inv n).1.quiet idle.1 idle.2 none
        rw [← shake_step _ (active n), ← stateAt_succ] at stays
        refine ⟨?_, stays⟩
        rw [Nat.succ_eq_add_one, stateAt_succ]
        cases here : (g n).clkRef with
        | none =>
            rw [Arrives, State.stamped, here] at arrives
            cases arrives
        | some r =>
            rw [Arrives, State.stamped, here] at arrives
            simpa [State.step, here] using arrives
    | succ k later ih =>
        intro upTo
        obtain ⟨high, flag, clear⟩ := ih later (by omega)
        have noEdge := next k later (by omega)
        have none : ¬ Begins (shake (stateAt g start k)) (edge (stateAt g start k) (g k)) := by
          intro begins
          have ticks : (g k).clkRef.isSome = true := begins.1.1
          rw [noEdge] at ticks
          cases ticks
        have stays := (runs.inv k).1.quiet flag clear none
        rw [← shake_step _ (active k), ← stateAt_succ] at stays
        refine ⟨?_, stays⟩
        rw [stateAt_succ]
        simpa [State.step, noEdge] using high
  obtain ⟨high, flag, clear⟩ := still m order le_rfl
  exact ⟨arrives, order, next, ref, high, flag, clear⟩

theorem stamps_reported (quiet : start.Quiet) (active : ∀ t, (g t).rstN = true)
    (undisturbed : ∀ t, Undisturbed (stateAt g start t) (g t)) :
    (∀ u, Strobe g start u →
      ∃ n r, Reported g start n u ∧ (g n).clkRef = some r ∧ (stateAt g start (u + 1)).tagO = r.tm) ∧
    (∀ n n' u, Reported g start n u → Reported g start n' u → n = n') ∧
    (∀ n u u', Reported g start n u → Reported g start n u' → u = u') ∧
    ((∀ t, ∃ u, t ≤ u ∧ (g u).clkRef.isSome = true) → (∀ t, ∃ u, t ≤ u ∧ (g u).clkSys = true) →
      ∀ n, Arrives g start n → (stateAt g start n).Idle → ∃ u, Reported g start n u) := by
  have runs := runs_of_quiet quiet active
  refine ⟨fun u strobe => ?_, fun n n' u first second => ?_, fun n u u' first second => ?_,
    fun fairRef fairSys n arrives idle => ?_⟩
  · have takes := (strobe_iff active u).1 strobe
    obtain ⟨m, ends, waits⟩ := runs.ended takes
    obtain ⟨n, r, starts, ref, same⟩ := starts_of_begun quiet ends.begins
    refine ⟨n, r, (reported_iff quiet active n u).2 ⟨m, starts, ends⟩, ref, ?_⟩
    obtain ⟨found, held⟩ := tag_kept quiet undisturbed ends.begins ends.order waits
    have strobe : (stateAt g start u).pulseSysP1 = true := takes.1
    have sys : (g u).clkSys = true := takes.2
    rw [stateAt_succ, State.step]
    simp only [sys, active u, strobe, Bool.not_true, Bool.false_eq_true, if_true, if_false]
    rw [found, held, Tag.mixture_self, same]
  · obtain ⟨m, starts, ends⟩ := (reported_iff quiet active n u).1 first
    obtain ⟨m', starts', ends'⟩ := (reported_iff quiet active n' u).1 second
    obtain rfl := ends.start_unique ends'
    exact starts_unique starts starts'
  · obtain ⟨m, starts, ends⟩ := (reported_iff quiet active n u).1 first
    obtain ⟨m', starts', ends'⟩ := (reported_iff quiet active n u').1 second
    obtain rfl := starts_next starts starts'
    exact ends.unique runs ends'
  · have fair : Fair fun t => edge (stateAt g start t) (g t)
      | .sender, t => fairRef t
      | .receiver, t => fairSys t
    have found : ∃ m, n < m ∧ (g m).clkRef.isSome = true := by
      obtain ⟨m, later, ref⟩ := fairRef (n + 1)
      exact ⟨m, later, ref⟩
    have next : ∀ k, n < k → k < Nat.find found → (g k).clkRef = none := fun k after' before =>
      Option.not_isSome_iff_eq_none.1 fun ref => Nat.find_min found before ⟨after', ref⟩
    obtain ⟨order, ref⟩ := Nat.find_spec found
    have starts := starts_of_idle quiet active arrives ⟨idle.1, idle.2.2.2⟩ order next ref
    obtain ⟨u, ends⟩ := runs.ends fair starts.begun
    exact ⟨u, (reported_iff quiet active n u).2 ⟨_, starts, ends⟩⟩

def powerUp : State where
  pulseRef := .zero
  pulseRefP1 := false
  pulseRefP1D1 := false
  tagRef := ⟨0, 0⟩
  rstFromSync := false
  pulseRefD2 := false
  pulseSys := .zero
  pulseSysP1 := false
  pulseBack := .zero
  tagO := ⟨0, 0⟩
  tagValidO := false

theorem powerUp_quiet : powerUp.Quiet := ⟨⟨rfl, rfl⟩, ⟨rfl, rfl⟩, ⟨rfl, rfl⟩, ⟨rfl, rfl⟩⟩

/-- Pulses in the cycles given, six edges of the reference clock, and then those of the other clock only. -/
def pulses (cycles : List Nat) (t : Nat) : Event :=
  if t < 6 then
    { clkRef := some { pulseA := cycles.contains t, tm := ⟨0, BitVec.ofNat 28 t⟩ }, clkSys := false }
  else { clkRef := none, clkSys := true }

theorem pulses_active (cycles : List Nat) (t : Nat) : (pulses cycles t).rstN = true := by
  rw [pulses]
  split <;> rfl

theorem pulses_undisturbed (t : Nat) : Undisturbed (stateAt (pulses [0]) powerUp t) (pulses [0] t) := by
  intro stamped
  rcases Nat.lt_or_ge t 6 with early | late
  · interval_cases t <;> revert stamped <;> decide
  · rw [pulses, if_neg (by omega)] at stamped
    cases stamped

theorem stamps_reported_single : Strobe (pulses [0]) powerUp 9 ∧ ∃ n r, Reported (pulses [0]) powerUp n 9 ∧
    (pulses [0] n).clkRef = some r ∧ (stateAt (pulses [0]) powerUp 10).tagO = r.tm :=
  have strobe : Strobe (pulses [0]) powerUp 9 := by constructor <;> rfl
  ⟨strobe, (stamps_reported powerUp_quiet (pulses_active [0]) pulses_undisturbed).1 9 strobe⟩

/-- A second pulse two cycles later leaves its time in the tag of the first. -/
theorem stamp_overwritten : ¬ ∀ (g : Nat → Event) (start : State), start.Quiet → (∀ t, (g t).rstN = true) →
    ∀ u, Strobe g start u →
      ∃ n r, Reported g start n u ∧ (g n).clkRef = some r ∧ (stateAt g start (u + 1)).tagO = r.tm := by
  intro claim
  have strobe : Strobe (pulses [0, 2]) powerUp 9 := by constructor <;> rfl
  obtain ⟨n, r, ⟨m, starts, before, _, _⟩, ref, same⟩ :=
    claim (pulses [0, 2]) powerUp powerUp_quiet (pulses_active _) 9 strobe
  have order := starts.order
  have arrives := starts.arrives
  have begins := starts.begins
  clear starts
  have fourth : m = 4 := by interval_cases m <;> revert begins <;> decide
  subst fourth
  have third : n = 3 := by
    rw [Arrives] at arrives
    interval_cases n <;> revert arrives <;> decide
  subst third
  obtain rfl := Option.some.inj ref
  revert same
  decide

end WrCores.Timing.PulseStamper
