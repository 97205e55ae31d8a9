import WrCores.Clocked.HandOver
import WrCores.Clocked.Stream
import WrCores.Timing.TimeTag

/-!
pulse_gen.vhd. An event holds an edge of `clk_sys_i`, of `clk_ref_i`, or both; where a register of one clock is read
while it changes with the other one, the old or the new value is found. There is one pair of registers for the time
that is waited for, and a new request replaces it.
-/

namespace WrCores.Timing.PulseGen

open Clocked HandOver

structure SysEdge where
  trig : Tag := ⟨0, 0⟩
  trigValid : Bool := false
  deriving DecidableEq, Repr

structure RefEdge where
  tmTimeValid : Bool := true
  tm : Tag
  deriving DecidableEq, Repr

structure Event where
  clkSys : Option SysEdge
  clkRef : Option RefEdge
  rstN : Bool := true
  fresh : Side → Bool := fun _ => false
  chosen : Tag := ⟨0, 0⟩

structure State where
  trig : Tag
  trigRef : Tag
  trigValidSysD1 : Bool
  trigValidSysD2 : Bool
  rstFromSync : Bool
  rstFromSyncD1 : Bool
  trigValidRef : Three
  trigValidBack : Three
  trigValidRefP1 : Bool
  trigReadyO : Bool
  pulseO : Bool
  deriving DecidableEq, Repr

def Event.requests (e : Event) : Bool := e.clkSys.any (·.trigValid)

namespace State

variable (s : State) (e : Event)

def trigRegs : Tag :=
  e.clkSys.elim s.trig fun i => if !e.rstN then ⟨0, 0⟩ else if i.trigValid then i.trig else s.trig

/-- `rst_from_sync` behind the event. -/
def syncSys : Bool := if e.clkSys.isSome then s.trigValidBack.b2 else s.rstFromSync

/-- `sync_first_ff`: cleared without a clock. -/
def syncFirstFf : Bool :=
  if !e.rstN || s.rstFromSync || s.syncSys e then false else if e.requests then true else s.trigValidSysD1

def delaySys : Bool := if e.clkSys.isSome then s.trigValidSysD1 else s.trigValidSysD2

def syncRef : Three :=
  if e.clkRef.isSome then s.trigValidRef.push (if e.fresh .receiver then s.delaySys e else s.trigValidSysD2)
  else s.trigValidRef

def readyForTrig : Bool :=
  if !e.rstN then true
  else if e.clkSys.isSome then
    if e.requests then false else if s.rstFromSyncD1 && !s.rstFromSync then true else s.trigReadyO
  else s.trigReadyO

def genOut : Bool :=
  if !e.rstN then false else e.clkRef.elim s.pulseO fun r => if !r.tmTimeValid then false else r.tm == s.trigRef

def step : State where
  trig := s.trigRegs e
  trigRef :=
    if e.clkRef.isSome && s.trigValidRefP1 then Tag.mixture e.chosen s.trig (s.trigRegs e) else s.trigRef
  trigValidSysD1 := s.syncFirstFf e
  trigValidSysD2 := s.delaySys e
  rstFromSync := s.syncSys e
  rstFromSyncD1 := if e.clkSys.isSome then s.rstFromSync else s.rstFromSyncD1
  trigValidRef := s.syncRef e
  trigValidBack :=
    if e.clkSys.isSome then s.trigValidBack.push (if e.fresh .sender then (s.syncRef e).b2 else s.trigValidRef.b2)
    else s.trigValidBack
  trigValidRefP1 := if e.clkRef.isSome then s.trigValidRef.b1 && !s.trigValidRef.b2 else s.trigValidRefP1
  trigReadyO := s.readyForTrig e
  pulseO := s.genOut e

end State

/-! ### The hand-over -/

def plan : Plan :=
  ⟨[.sender, .receiver, .receiver, .receiver, .sender, .sender, .sender], 2, by decide, by decide⟩

def shake (s : State) : Shake where
  flag := s.trigValidSysD1
  chain := [s.trigValidSysD2, s.trigValidRef.b0, s.trigValidRef.b1, s.trigValidRef.b2, s.trigValidBack.b0,
    s.trigValidBack.b1, s.trigValidBack.b2]
  strobe := s.trigValidRefP1
  clear := s.rstFromSync

def edge (e : Event) : Edge where
  ticks
    | .sender => e.clkSys.isSome
    | .receiver => e.clkRef.isSome
  fresh := e.fresh
  request := e.requests

theorem shake_chain (s : State) (e : Event) : (shake (s.step e)).chain =
    shift (edge e) .sender s.trigValidSysD1 (s.syncFirstFf e) plan.sides (shake s).chain := by
  rcases Bool.eq_false_or_eq_true e.clkSys.isSome with sys | sys <;>
    rcases Bool.eq_false_or_eq_true e.clkRef.isSome with ref | ref <;>
    simp [shake, State.step, State.syncRef, State.delaySys, Three.push, shift, next, edge, plan, sys, ref]

theorem shake_step (s : State) {e : Event} (active : e.rstN = true) :
    shake (s.step e) = (shake s).step plan (edge e) := by
  have flag : s.syncFirstFf e = (shake s).flagNext (edge e) := by
    change _ = if s.rstFromSync || s.syncSys e then false else s.trigValidSysD1 || (e.clkSys.isSome && e.requests)
    rw [State.syncFirstFf, active]
    have sys : (e.clkSys.isSome && e.requests) = e.requests := by
      rw [Event.requests]
      cases e.clkSys <;> rfl
    rw [sys]
    cases s.rstFromSync <;> cases s.syncSys e <;> cases e.requests <;> cases s.trigValidSysD1 <;> rfl
  have whole : shake (s.step e) =
      ⟨s.syncFirstFf e, (shake (s.step e)).chain, (s.step e).trigValidRefP1, s.syncSys e⟩ := rfl
  rw [whole, shake_chain, flag]
  rfl

/-! ### Requests, loads and pulses -/

variable (g : Nat → Event) (start : State)

def stateAt (t : Nat) : State := run State.step start (upTo g t)

theorem stateAt_succ (t : Nat) : stateAt g start (t + 1) = (stateAt g start t).step (g t) := by
  rw [stateAt, upTo_snoc, run_append]
  rfl

/-- Ready for a request, and nothing of an earlier one is left. -/
structure State.Quiet (s : State) : Prop where
  sync : s.trigValidSysD1 = false ∧ s.trigValidSysD2 = false ∧ s.rstFromSync = false
  registers : s.trigValidRef = .zero ∧ s.trigValidBack = .zero
  last : s.trigValidRefP1 = false

def Request (m : Nat) : Prop := (g m).requests = true

/-- Requests come only while `trig_ready_o` is up. -/
def Polite : Prop := ∀ m, Request g m → (stateAt g start m).trigReadyO = true

def Load (u : Nat) : Prop := (g u).clkRef.isSome = true ∧ (stateAt g start u).trigValidRefP1 = true

/-- The load at `u` follows the request at `m`, and no other request is in between. -/
structure Loads (m u : Nat) : Prop where
  request : Request g m
  load : Load g start u
  order : m < u
  last : ∀ k, m < k → k ≤ u → ¬ Request g k

/-- At `k` the request of `m` is the one that was loaded last. -/
def Current (m k : Nat) : Prop := ∃ u, Loads g start m u ∧ u < k ∧ ∀ j, u < j → j < k → ¬ Load g start j

/-- `pulse_o` is up in the cycle behind the edge at `k`. -/
def Pulse (k : Nat) : Prop := (g k).clkRef.isSome = true ∧ (stateAt g start (k + 1)).pulseO = true

/-- Up to `t` the time is valid, and no value comes twice. -/
def PassesOnce (t : Nat) : Prop := ∀ k k' r r', k < t → k' < t → (g k).clkRef = some r → (g k').clkRef = some r' →
  r.tmTimeValid = true ∧ (r.tm = r'.tm → k = k')

variable {g start}

theorem runs_of_quiet (quiet : start.Quiet) (active : ∀ t, (g t).rstN = true) :
    Runs plan (fun t => shake (stateAt g start t)) (fun t => edge (g t)) := by
  constructor
  · obtain ⟨⟨flag, delayed, clear⟩, ⟨ref, back⟩, strobe⟩ := quiet
    refine ⟨flag, clear, strobe, ?_⟩
    change [start.trigValidSysD2, start.trigValidRef.b0, start.trigValidRef.b1, start.trigValidRef.b2,
      start.trigValidBack.b0, start.trigValidBack.b1, start.trigValidBack.b2] = _
    rw [delayed, ref, back]
    rfl
  · intro n
    rw [stateAt_succ, shake_step _ (active n)]

theorem request_ticks {e : Event} (requests : e.requests = true) : e.clkSys.isSome = true := by
  rw [Event.requests] at requests
  cases sys : e.clkSys with
  | none =>
      rw [sys] at requests
      cases requests
  | some i => rfl

/-- While `trig_ready_o` is up, and when it is about to rise, no hand-over is going on. -/
def State.Free (s : State) : Prop :=
  (s.trigReadyO = true → s.trigValidSysD1 = false ∧ s.rstFromSync = false) ∧
    (s.rstFromSyncD1 = true → s.rstFromSync = false → s.trigValidSysD1 = false)

theorem free_step {s : State} {e : Event} (stage : Stage plan (shake s)) (active : e.rstN = true) (free : s.Free) :
    (s.step e).Free := by
  have quiet (flag : s.trigValidSysD1 = false) (clear : s.rstFromSync = false) (none : e.requests = false) :
      (s.step e).trigValidSysD1 = false ∧ (s.step e).rstFromSync = false := by
    have stays := stage.quiet (e := edge e) flag clear fun begins => by
      have asked : e.requests = true := begins.1.2
      rw [none] at asked
      cases asked
    rwa [← shake_step s active] at stays
  constructor
  · intro ready
    change s.readyForTrig e = true at ready
    rw [State.readyForTrig, active] at ready
    rcases Bool.eq_false_or_eq_true e.requests with asked | none
    · rw [request_ticks asked, asked] at ready
      cases ready
    · have free' : s.trigValidSysD1 = false ∧ s.rstFromSync = false := by
        rw [none] at ready
        cases sys : e.clkSys.isSome with
        | false =>
            rw [sys] at ready
            exact free.1 ready
        | true =>
            rw [sys] at ready
            cases falls : s.rstFromSyncD1 && !s.rstFromSync with
            | false =>
                rw [falls] at ready
                exact free.1 ready
            | true =>
                obtain ⟨before, now⟩ := Bool.and_eq_true_iff.1 falls
                rw [Bool.not_eq_true'] at now
                exact ⟨free.2 before now, now⟩
      exact quiet free'.1 free'.2 none
  · intro before now
    change (if e.clkSys.isSome then s.rstFromSync else s.rstFromSyncD1) = true at before
    cases sys : e.clkSys.isSome with
    | false =>
        rw [sys] at before
        have held : s.rstFromSync = false := by
          change s.syncSys e = false at now
          rwa [State.syncSys, sys] at now
        have none : e.requests = false := by
          rw [Bool.eq_false_iff]
          intro asked
          rw [request_ticks asked] at sys
          cases sys
        exact (quiet (free.2 before held) held none).1
    -- a reset that is up clears the flag in every cycle
    | true =>
        rw [sys] at before
        change s.syncFirstFf e = false
        have clear : s.rstFromSync = true := before
        simp [State.syncFirstFf, clear]

section Runs

variable (quiet : start.Quiet) (active : ∀ t, (g t).rstN = true) (polite : Polite g start)

include quiet active in
theorem free_at (t : Nat) : (stateAt g start t).Free := by
  have runs := runs_of_quiet quiet active
  induction t with
  | zero => exact ⟨fun _ => ⟨quiet.sync.1, quiet.sync.2.2⟩, fun _ _ => quiet.sync.1⟩
  | succ t ih =>
      rw [stateAt_succ]
      exact free_step (runs.inv t).1 (active t) ih

include quiet active polite in
theorem begins_iff (m : Nat) : Begins (shake (stateAt g start m)) (edge (g m)) ↔ Request g m := by
  constructor
  · exact fun begins => begins.1.2
  · intro request
    obtain ⟨flag, clear⟩ := (free_at quiet active m).1 (polite m request)
    exact ⟨⟨request_ticks request, request⟩, flag, clear⟩

theorem load_iff (u : Nat) : Load g start u ↔ Takes (shake (stateAt g start u)) (edge (g u)) := and_comm

include quiet active polite in
theorem loads_iff (m u : Nat) : Loads g start m u ↔
    Ends (fun t => shake (stateAt g start t)) (fun t => edge (g t)) m u := by
  have begun := begins_iff quiet active polite
  constructor
  · rintro ⟨request, load, order, last⟩
    exact ⟨(begun m).2 request, (load_iff u).1 load, order, fun k after' upTo again =>
      last k after' upTo ((begun k).1 again)⟩
  · rintro ⟨begins, takes, order, last⟩
    exact ⟨(begun m).1 begins, (load_iff u).2 takes, order, fun k after' upTo again =>
      last k after' upTo ((begun k).2 again)⟩

include quiet active in
theorem ready_idle {n : Nat} (ready : (stateAt g start n).trigReadyO = true) :
    ¬ Waiting plan (shake (stateAt g start n)) := by
  have inv := (runs_of_quiet quiet active).inv n
  obtain ⟨flag, clear⟩ := (free_at quiet active n).1 ready
  exact inv.1.idle inv.2 flag clear

/-- The pair that a request has written is still there when it is loaded. -/
theorem trig_kept {m u : Nat} {i : SysEdge} (active : ∀ t, (g t).rstN = true) (sys : (g m).clkSys = some i)
    (request : Request g m) (order : m < u) (none : ∀ k, m < k → k < u → ¬ Request g k) :
    (stateAt g start u).trig = i.trig := by
  induction u, Nat.succ_le_of_lt order using Nat.le_induction with
  | base =>
      rw [Request, Event.requests, sys] at request
      have asked : i.trigValid = true := request
      rw [Nat.succ_eq_add_one, stateAt_succ]
      simp [State.step, State.trigRegs, sys, active m, asked]
  | succ u later ih =>
      have same := ih (by omega) fun k after' before => none k after' (by omega)
      have quiet := none u (by omega) (Nat.lt_succ_self u)
      rw [stateAt_succ, ← same]
      rw [Request, Event.requests] at quiet
      cases here : (g u).clkSys with
      | none => simp [State.step, State.trigRegs, here]
      | some j =>
          have silent : j.trigValid = false := by simpa [here] using quiet
          simp [State.step, State.trigRegs, here, active u, silent]

theorem Loads.pair {m u : Nat} {i : SysEdge} (active : ∀ t, (g t).rstN = true) (loads : Loads g start m u)
    (sys : (g m).clkSys = some i) : (stateAt g start (u + 1)).trigRef = i.trig := by
  have before : (stateAt g start u).trig = i.trig := trig_kept active sys loads.request loads.order
    fun k after' early =>
    loads.last k after' early.le
  have behind : (stateAt g start (u + 1)).trig = i.trig := trig_kept active sys loads.request
    (Nat.lt_succ_of_lt loads.order)
    fun k after' early =>
    loads.last k after' (Nat.lt_succ_iff.1 early)
  rw [stateAt_succ] at behind ⊢
  change (stateAt g start u).trigRegs (g u) = _ at behind
  simp only [State.step]
  rw [loads.load.1, loads.load.2, Bool.and_self, if_pos rfl, before, behind, Tag.mixture_self]

theorem Current.pair {m k : Nat} {i : SysEdge} (active : ∀ t, (g t).rstN = true) (current : Current g start m k)
    (sys : (g m).clkSys = some i) : (stateAt g start k).trigRef = i.trig := by
  obtain ⟨u, loads, order, none⟩ := current
  induction k, Nat.succ_le_of_lt order using Nat.le_induction with
  | base => exact loads.pair active sys
  | succ k later ih =>
      have same := ih (by omega) fun j after' before => none j after' (by omega)
      have still := none k (by omega) (Nat.lt_succ_self k)
      rw [Load, ← Bool.and_eq_true_iff] at still
      rw [stateAt_succ, ← same]
      simp only [State.step]
      rw [if_neg still]

theorem pulse_iff (active : ∀ t, (g t).rstN = true) {k : Nat} {r : RefEdge} (ref : (g k).clkRef = some r) :
    Pulse g start k ↔ r.tmTimeValid = true ∧ r.tm = (stateAt g start k).trigRef := by
  rw [Pulse, stateAt_succ]
  simp only [State.step, State.genOut, active k, ref, Option.isSome_some, Bool.not_true, Bool.false_eq_true, if_false,
    Option.elim_some, true_and]
  cases r.tmTimeValid <;> simp

include quiet active polite in
theorem load_of_request {m n : Nat} (request : Request g m) (order : m < n)
    (ready : (stateAt g start n).trigReadyO = true) : ∃ u, u < n ∧ Loads g start m u := by
  have runs := runs_of_quiet quiet active
  have begins := (begins_iff quiet active polite m).2 request
  have waits := begins.waits (runs.inv m).1
  rw [← shake_step _ (active m), ← stateAt_succ] at waits
  obtain ⟨u, later, before, takes, all⟩ := runs.taken_before waits order (ready_idle quiet active ready)
  exact ⟨u, before, (loads_iff quiet active polite m u).2 (runs.ends_of_waiting begins takes later all)⟩

include quiet active polite in
theorem current_of_load {k : Nat} (loaded : ∃ u, u < k ∧ Load g start u) : ∃ m, Current g start m k := by
  obtain ⟨u, before, load⟩ := loaded
  induction k, Nat.succ_le_of_lt before using Nat.le_induction with
  | base =>
      obtain ⟨m, ends, _⟩ := (runs_of_quiet quiet active).ended ((load_iff u).1 load)
      exact ⟨m, u, (loads_iff quiet active polite m u).2 ends, before, fun j after' early => by omega⟩
  | succ k later ih =>
      obtain ⟨m, u', loads, order, none⟩ := ih later
      by_cases here : Load g start k
      · obtain ⟨m', ends, _⟩ := (runs_of_quiet quiet active).ended ((load_iff k).1 here)
        exact ⟨m', k, (loads_iff quiet active polite m' k).2 ends, Nat.lt_succ_self k, fun j after' early => by omega⟩
      · refine ⟨m, u', loads, by omega, fun j after' early => ?_⟩
        rcases Nat.lt_succ_iff_lt_or_eq.1 early with early | rfl
        · exact none j after' early
        · exact here

end Runs

theorem requests_loaded (quiet : start.Quiet) (active : ∀ t, (g t).rstN = true) (polite : Polite g start) :
    ((∀ t, ∃ u, t ≤ u ∧ (g u).clkSys.isSome = true) → (∀ t, ∃ u, t ≤ u ∧ (g u).clkRef.isSome = true) →
      ∀ m, Request g m → ∃ u, Loads g start m u) ∧
    (∀ m u u', Loads g start m u → Loads g start m u' → u = u') ∧
    (∀ u, Load g start u → ∃ m, Loads g start m u) ∧
    (∀ m u i, Loads g start m u → (g m).clkSys = some i → (stateAt g start (u + 1)).trigRef = i.trig) ∧
    (∀ m n, Request g m → m < n → (stateAt g start n).trigReadyO = true → ∃ u, u < n ∧ Loads g start m u) ∧
    (∀ t, PassesOnce g t → ∀ m k i r, Current g start m k → k < t → (g m).clkSys = some i → (g k).clkRef = some r →
      r.tm = i.trig → Pulse g start k ∧ ∀ k', k' < t → Current g start m k' → Pulse g start k' → k' = k) ∧
    (∀ k, Pulse g start k → (∃ u, u < k ∧ Load g start u) → ∃ m i r, Current g start m k ∧
      (g m).clkSys = some i ∧ (g k).clkRef = some r ∧ r.tm = i.trig) := by
  have runs := runs_of_quiet quiet active
  have loads := loads_iff quiet active polite
  refine ⟨fun fairSys fairRef m request => ?_, fun m u u' first second => ?_, fun u load => ?_,
    fun m u i here sys => here.pair active sys, fun m n request order ready => ?_,
    fun t once m k i r current before sys ref same => ?_, fun k pulse loaded => ?_⟩
  · have fair : Fair fun t => edge (g t)
      | .sender, t => fairSys t
      | .receiver, t => fairRef t
    obtain ⟨u, ends⟩ := runs.ends fair ((begins_iff quiet active polite m).2 request)
    exact ⟨u, (loads m u).2 ends⟩
  · exact ((loads m u).1 first).unique runs ((loads m u').1 second)
  · obtain ⟨m, ends, _⟩ := runs.ended ((load_iff u).1 load)
    exact ⟨m, (loads m u).2 ends⟩
  · exact load_of_request quiet active polite request order ready
  · have valid := (once k k r r before before ref ref).1
    refine ⟨(pulse_iff active ref).2 ⟨valid, same.trans (current.pair active sys).symm⟩,
      fun k' before' current' pulse' => ?_⟩
    obtain ⟨r', ref'⟩ := Option.isSome_iff_exists.1 pulse'.1
    have same' := ((pulse_iff active ref').1 pulse').2
    rw [current'.pair active sys, ← same] at same'
    exact (once k' k r' r before' before ref' ref).2 same'
  · obtain ⟨m, current⟩ := current_of_load quiet active polite loaded
    obtain ⟨r, ref⟩ := Option.isSome_iff_exists.1 pulse.1
    have request : Request g m := by
      obtain ⟨_, loads, _⟩ := current
      exact loads.request
    obtain ⟨i, sys⟩ := Option.isSome_iff_exists.1 (request_ticks request)
    refine ⟨m, i, r, current, sys, ref, ?_⟩
    rw [((pulse_iff active ref).1 pulse).2, current.pair active sys]

def idle : State where
  trig := ⟨0, 0⟩
  trigRef := ⟨0, 0⟩
  trigValidSysD1 := false
  trigValidSysD2 := false
  rstFromSync := false
  rstFromSyncD1 := false
  trigValidRef := .zero
  trigValidBack := .zero
  trigValidRefP1 := false
  trigReadyO := true
  pulseO := false

theorem idle_quiet : idle.Quiet := ⟨⟨rfl, rfl, rfl⟩, ⟨rfl, rfl⟩, rfl⟩

/-- Both clocks together, the time counts up, and requests for cycle 30 and cycle 50 in the cycles given. -/
def requests (cycles : List Nat) (t : Nat) : Event where
  clkSys := some { trig := ⟨0, if t = 0 then 30 else 50⟩, trigValid := cycles.contains t }
  clkRef := some { tm := ⟨0, BitVec.ofNat 28 t⟩ }

theorem requests_passesOnce (cycles : List Nat) : PassesOnce (requests cycles) 31 := by
  intro k k' r r' before before' ref ref'
  obtain rfl := Option.some.inj ref
  obtain rfl := Option.some.inj ref'
  refine ⟨rfl, fun same => ?_⟩
  have cycles := congrArg (fun x => BitVec.toNat (Tag.cycles x)) same
  simp only [BitVec.toNat_ofNat] at cycles
  omega

theorem requests_polite : Polite (requests [0, 18]) idle := by
  intro m request
  have known : m = 0 ∨ m = 18 := by simpa [Request, Event.requests, requests] using request
  rcases known with rfl | rfl <;> decide

theorem requests_loads : Loads (requests [0, 18]) idle 0 5 where
  request := rfl
  load := by constructor <;> rfl
  order := by decide
  last k after' upTo request := by
    have known : k = 0 ∨ k = 18 := by simpa [Request, Event.requests, requests] using request
    omega

theorem requests_loaded_twice : (stateAt (requests [0, 18]) idle 6).trigRef = ⟨0, 30⟩ :=
  (requests_loaded idle_quiet (fun _ => rfl) requests_polite).2.2.2.1 0 5 _ requests_loads rfl

/-- The second request replaces the first one before its time comes. -/
theorem pulse_replaced : ¬ ∀ (g : Nat → Event) (start : State), start.Quiet → (∀ t, (g t).rstN = true) →
    Polite g start → ∀ t, PassesOnce g t → ∀ m u k i r, Loads g start m u → u < k → k < t →
    (g m).clkSys = some i → (g k).clkRef = some r → r.tm = i.trig → Pulse g start k := by
  intro claim
  have pulse := claim (requests [0, 18]) idle idle_quiet (fun _ => rfl) requests_polite 31
    (requests_passesOnce _) 0 5 30
    _ _ requests_loads (by decide) (by decide) rfl rfl rfl
  have none : (stateAt (requests [0, 18]) idle 31).pulseO = false := by decide
  rw [Pulse, none] at pulse
  cases pulse.2

end WrCores.Timing.PulseGen
