import Mathlib.Tactic
import WrCores.Eca.Msi

/-!
The interrupts of eca_msi over whole runs. A channel is chosen at one edge of `i_clk_i`, its target is read at
the next and its write begins at the one after. A disable sends a toggle around both clock domains: while it is
under way the bus waits, and it takes one edge longer than the enable needs to leave the last place from
which a target is read.
-/

namespace WrCores.Eca.Msi

open Clocked

variable {n : Nat}

/-- A write and its answer, as an observer of the ports expects them. -/
structure Service where
  channel : Nat
  target : BitVec 32
  num : BitVec 8
  code : BitVec 3
  requesting : Bool
  deriving DecidableEq, Repr

/-- What an observer notes: for every channel the target in force when it was last enabled; the channel chosen
at the last edge of `i_clk_i`, the one before, and the one whose write is under way, each with the target that
was in force when it was chosen; the requests that are open; the writes that have been taken. -/
structure Watch where
  inForce : Nat → BitVec 32
  picked : Option (Nat × BitVec 32) := none
  found : Option (Nat × BitVec 32) := none
  writing : Option (Nat × BitVec 32) := none
  asked : Nat → Option (BitVec 8 × BitVec 3) := fun _ => none
  opened : Option Service := none
  served : List Service := []

/-- The first channel that is enabled and requests. -/
def pick (s : Msi n) (i : MsiPorts n) : Option Nat := (List.range n).find? fun k => (s.sPending i).getLsbD k

namespace Watch

def cEdge (w : Watch) (s : Msi n) (bus : MsiBus n) : Watch :=
  { w with
    inForce :=
      if bus.enableStb && bus.enable then Function.update w.inForce bus.chan ((s.cEdge bus).cross bus.chan)
      else w.inForce }

/-- The write under way with the request of its channel as it is at this edge. -/
def service (w : Watch) (i : MsiPorts n) : Option Service :=
  w.writing.map fun v => ⟨v.1, v.2, i.num v.1, i.code v.1, i.stb.getLsbD v.1⟩

def iEdge (w : Watch) (s : Msi n) (i : MsiPorts n) : Watch :=
  let opened := if s.writes i then w.service i else w.opened
  { w with
    picked := if s.rCyc then none else (s.pick i).map fun k => (k, w.inForce k)
    found := if s.rCyc then none else w.picked
    writing := if s.rCyc then w.writing else w.found
    asked := fun k =>
      if i.stb.getLsbD k && !(s.iAck i).getLsbD k then some (i.num k, i.code k) else none
    opened := if sAck i then none else opened
    served := if sAck i then w.served ++ opened.toList else w.served }

def step (w : Watch) (s : Msi n) (e : MsiIn n) : Watch :=
  let i := (e.iEdge.map (w.iEdge s)).getD w
  if e.cEdge then { i with inForce := (w.cEdge s e.bus).inForce } else i

end Watch

def stepBoth (b : Msi n × Watch) (e : MsiIn n) : Msi n × Watch := (b.1.step e, b.2.step b.1 e)

def Service.events (v : Service) : List (Event n) :=
  [.write v.target (dat v.num v.code), .ack (BitVec.twoPow n v.channel)]

/-- The bus waits while it is told to. A request stays as it is until it is acknowledged. The slave answers
a write that it has taken, and once. -/
structure Fair (b : Msi n × Watch) (e : MsiIn n) : Prop where
  bus : b.1.rStall = true → e.bus.enableStb = false ∧ e.bus.targetStb = false
  requests : ∀ i ∈ e.iEdge, ∀ k < n, ∀ request ∈ b.2.asked k,
    i.stb.getLsbD k = true ∧ i.num k = request.1 ∧ i.code k = request.2
  answers : ∀ i ∈ e.iEdge, sAck i = true → b.1.rCyc = true ∧ (b.1.rStb = true → i.stall = false)

instance (b : Msi n × Watch) (e : MsiIn n) : Decidable (Fair b e) :=
  haveI (i : MsiPorts n) (k : Nat) : Decidable (∀ request ∈ b.2.asked k,
      i.stb.getLsbD k = true ∧ i.num k = request.1 ∧ i.code k = request.2) := Option.decidableForallMem (b.2.asked k)
  decidable_of_iff
    ((b.1.rStall = true → e.bus.enableStb = false ∧ e.bus.targetStb = false) ∧
      (∀ i ∈ e.iEdge, ∀ k < n, ∀ request ∈ b.2.asked k,
        i.stb.getLsbD k = true ∧ i.num k = request.1 ∧ i.code k = request.2) ∧
      ∀ i ∈ e.iEdge, sAck i = true → b.1.rCyc = true ∧ (b.1.rStb = true → i.stall = false))
    ⟨fun h => ⟨h.1, h.2.1, h.2.2⟩, fun h => ⟨h.1, h.2, h.3⟩⟩

section Lowest

theorem go_bound (fuel rest : Nat) (enough : rest ≤ fuel) : rest ≤ 2 ^ fEcaLog2.go fuel rest := by
  induction fuel generalizing rest with
  | zero => exact enough.trans (Nat.zero_le _)
  | succ fuel ih =>
      rw [fEcaLog2.go]
      split
      next more =>
        have half := ih ((rest + 1) / 2) (by omega)
        rw [Nat.pow_succ]
        omega
      next done =>
        rw [Nat.pow_zero]
        omega

theorem log2_bound (x : Nat) : x ≤ 2 ^ fEcaLog2Min1 x := by
  rw [fEcaLog2Min1]
  split
  next small => omega
  next big => exact go_bound x x le_rfl

theorem decode_twoPow {k : Nat} (inside : k < n) : fEca1hotDecode (BitVec.twoPow n k) = k := by
  have bound : k < 2 ^ fEcaLog2Min1 n := inside.trans_le (log2_bound n)
  apply Nat.eq_of_testBit_eq
  intro i
  by_cases low : i < fEcaLog2Min1 n
  · rw [fEca1hotDecode, Nat.testBit_ofBits_lt _ _ low, Nat.testBit_eq_decide_div_mod_eq, Bool.eq_iff_iff]
    simp only [List.any_eq_true, List.mem_range, Bool.and_eq_true, beq_iff_eq, BitVec.getLsbD_twoPow,
      decide_eq_true_eq]
    constructor
    · rintro ⟨j, -, odd, -, rfl⟩
      exact odd
    · intro odd
      exact ⟨k, inside, odd, inside, rfl⟩
  · rw [fEca1hotDecode, Nat.testBit_ofBits_ge _ _ (by omega), Nat.testBit_lt_two_pow]
    exact bound.trans_le (Nat.pow_le_pow_right (by omega) (by omega))

/-- `x and -x` is the lowest bit of `x`. -/
theorem lowest_bit (x : BitVec n) :
    x &&& (~~~x + 1) = ((List.range n).find? fun k => x.getLsbD k).elim 0 (BitVec.twoPow n) := by
  have negated : ~~~x + 1 = -x := (BitVec.neg_eq_not_add x).symm
  rw [negated]
  apply BitVec.eq_of_getLsbD_eq
  intro i inside
  rw [BitVec.getLsbD_and, BitVec.getLsbD_neg]
  cases found : (List.range n).find? fun k => x.getLsbD k with
  | none =>
      rw [List.find?_range_eq_none] at found
      have clear : x.getLsbD i = false := by simpa using found i inside
      simp [clear]
  | some k =>
      rw [List.find?_range_eq_some] at found
      obtain ⟨set, -, first⟩ := found
      simp only [Bool.not_eq_true'] at first
      rw [Option.elim_some, BitVec.getLsbD_twoPow]
      rcases Nat.lt_trichotomy i k with below | same | above
      · rw [first i below]
        simp [inside, Nat.ne_of_gt below]
      · rw [same, set]
        have none : ¬∃ j < k, x.getLsbD j = true := by
          rintro ⟨j, low, bit⟩
          rw [first j low] at bit
          exact Bool.false_ne_true bit
        simp [none, same ▸ inside]
      · have one : ∃ j < i, x.getLsbD j = true := ⟨k, above, set⟩
        simp [one, inside, Nat.ne_of_lt above]

end Lowest

section Toggle

/-- The registers of the toggle when its new value has passed the first `p` of them: the four of `ri_xor` and
then the four of `rc_xor`. -/
def riPattern (p : Fin 9) (new : Bool) : BitVec 4 :=
  let passed := [0b0000, 0b1000, 0b1100, 0b1110, 0b1111, 0b1111, 0b1111, 0b1111, 0b1111].getD p 0
  if new then passed else ~~~passed

def rcPattern (p : Fin 9) (new : Bool) : BitVec 4 :=
  let passed := [0b0000, 0b0000, 0b0000, 0b0000, 0b0000, 0b1000, 0b1100, 0b1110, 0b1111].getD p 0
  if new then passed else ~~~passed

/-- Where the toggle is after an edge. -/
def advance (p : Fin 9) (cEdge iEdge disable : Bool) : Fin 9 :=
  if p.val < 4 then if iEdge then p + 1 else p
  else if p.val < 8 then if cEdge then p + 1 else p
  else if cEdge && disable then 0 else p

/-- The toggle has come as far as `p`; the bus waits as long as it is under way. -/
structure Toggle (s : Msi n) (p : Fin 9) : Prop where
  riXor : s.riXor = riPattern p s.rcXor0
  rcXor : s.rcXor = rcPattern p s.rcXor0
  rStall : s.rStall = decide (p.val < 8)

theorem ri_advance : ∀ (p : Fin 9) (new cEdge iEdge disable : Bool), (p.val < 8 → disable = false) →
    (if iEdge then shiftDown new (riPattern p new) else riPattern p new) =
      riPattern (advance p cEdge iEdge disable) (if cEdge && disable then !new else new) := by
  decide

theorem rc_advance : ∀ (p : Fin 9) (new cEdge iEdge disable : Bool), (p.val < 8 → disable = false) →
    (if cEdge then shiftDown ((riPattern p new).getLsbD 0) (rcPattern p new) else rcPattern p new) =
      rcPattern (advance p cEdge iEdge disable) (if cEdge && disable then !new else new) := by
  decide

theorem stall_advance : ∀ (p : Fin 9) (new cEdge iEdge disable : Bool), (p.val < 8 → disable = false) →
    (if cEdge then
        if (rcPattern p new).getLsbD 1 ^^ (rcPattern p new).getLsbD 0 then false
        else if disable then true else decide (p.val < 8)
      else decide (p.val < 8)) = decide ((advance p cEdge iEdge disable).val < 8) := by
  decide

end Toggle

/-- A channel that is enabled, or was so not long ago: one of the places from which its target is read in the
end still has it. -/
def Visible (s : Msi n) (k : Nat) : Prop :=
  s.rcEnable.getLsbD k = true ∨ s.riEnable2.getLsbD k = true ∨ s.riEnable1.getLsbD k = true ∨
    s.riEnable.getLsbD k = true ∨ s.rSelect.getLsbD k = true

/-- The places that a disabled channel still has are ahead of the toggle of its disable. -/
structure Gone (s : Msi n) (p : Fin 9) (k : Nat) : Prop where
  enable2 : s.riEnable2.getLsbD k = true → p.val < 1
  enable1 : s.riEnable1.getLsbD k = true → p.val < 2
  enable : s.riEnable.getLsbD k = true → p.val < 3
  select : s.rSelect.getLsbD k = true → p.val < 4

/-- The target of a visible channel is the one in force when it was enabled. -/
structure Safe (b : Msi n × Watch) (p : Fin 9) : Prop where
  toggle : Toggle b.1 p
  gone : ∀ k, b.1.rcEnable.getLsbD k = false → Gone b.1 p k
  target : ∀ k, Visible b.1 k → b.1.cross k = b.2.inForce k

variable {b : Msi n × Watch} {e : MsiIn n} {p : Fin 9}

theorem getLsbD_setBit (x : BitVec n) (j : Fin n) (value : Bool) (k : Nat) :
    (setBit x j value).getLsbD k = if k = j.val then value else x.getLsbD k := by
  rw [setBit]
  cases value with
  | false =>
      by_cases same : k = j.val
      · simp [same]
      · cases bit : x.getLsbD k with
        | false => simp [same, bit]
        | true =>
            have inside := BitVec.lt_of_getLsbD bit
            simp [same, bit, inside]
  | true =>
      by_cases same : k = j.val
      · simp [same]
      · simp [same, Ne.symm same]

theorem select_enabled (s : Msi n) (i : MsiPorts n) (k : Nat)
    (chosen : (s.sPending i &&& (~~~s.sPending i + 1)).getLsbD k = true) : s.riEnable.getLsbD k = true := by
  rw [BitVec.getLsbD_and, Bool.and_eq_true, sPending, BitVec.getLsbD_and, Bool.and_eq_true] at chosen
  exact chosen.1.1

/-- Nothing is written to the target of a visible channel. -/
theorem not_written (safe : Safe b p) (fair : Fair b e) {k : Nat} (visible : Visible b.1 k)
    (written : b.1.sWen e.bus = true) : e.bus.chan.val ≠ k := by
  rintro rfl
  rw [sWen, Bool.and_eq_true, Bool.not_eq_true'] at written
  have still : b.1.rStall = false := by
    by_contra waits
    have quiet := (fair.bus (by simpa using waits)).2
    rw [quiet] at written
    exact Bool.false_ne_true written.2
  have finished : ¬p.val < 8 := by
    rw [safe.toggle.rStall] at still
    simpa using still
  have gone := safe.gone _ written.1
  rcases visible with on | two | one | zero | select
  · rw [written.1] at on
    exact Bool.false_ne_true on
  · have early := gone.enable2 two
    omega
  · have early := gone.enable1 one
    omega
  · have early := gone.enable zero
    omega
  · have early := gone.select select
    omega

theorem cross_kept (safe : Safe b p) (fair : Fair b e) {k : Nat} (visible : Visible b.1 k) :
    (b.1.step e).cross k = b.1.cross k := by
  have apart := not_written safe fair visible
  simp only [step, cEdge]
  cases e.cEdge with
  | false => rfl
  | true =>
      simp only [if_true]
      split
      next written => exact Function.update_of_ne (apart written).symm _ _
      next => rfl

theorem inForce_step (b : Msi n × Watch) (e : MsiIn n) (k : Nat) :
    (stepBoth b e).2.inForce k =
      if e.cEdge && e.bus.enableStb && e.bus.enable && decide (k = e.bus.chan) then (stepBoth b e).1.cross k
      else b.2.inForce k := by
  obtain ⟨bus, cEdge, iEdge⟩ := e
  have still : ((iEdge.map (b.2.iEdge b.1)).getD b.2).inForce = b.2.inForce := by
    cases iEdge <;> rfl
  cases cEdge with
  | false =>
      simp only [stepBoth, Watch.step, Bool.false_and, Bool.false_eq_true, if_false]
      rw [still]
  | true =>
      simp only [stepBoth, Watch.step, Watch.cEdge, if_true, Bool.true_and]
      cases enabled : bus.enableStb && bus.enable with
      | false => simp
      | true =>
          by_cases same : k = bus.chan
          · subst same
            simp [step]
          · simp [same]

theorem inForce_kept (safe : Safe b p) (fair : Fair b e) {k : Nat} (visible : Visible b.1 k) :
    (stepBoth b e).2.inForce k = b.2.inForce k := by
  rw [inForce_step]
  split
  · exact (cross_kept safe fair visible).trans (safe.target k visible)
  · rfl

/-- A channel becomes visible by an enable only. -/
theorem visible_back {k : Nat} (visible : Visible (b.1.step e) k) :
    Visible b.1 k ∨ (e.cEdge && e.bus.enableStb && e.bus.enable && decide (k = e.bus.chan)) = true := by
  obtain ⟨bus, cEdge, iEdge⟩ := e
  have enable : (b.1.step ⟨bus, cEdge, iEdge⟩).rcEnable.getLsbD k = true → b.1.rcEnable.getLsbD k = true ∨
      (cEdge && bus.enableStb && bus.enable && decide (k = bus.chan)) = true := by
    intro on
    simp only [step, Msi.cEdge] at on
    cases cEdge with
    | false => exact .inl on
    | true =>
        simp only [if_true] at on
        cases strobe : bus.enableStb with
        | false =>
            rw [strobe] at on
            exact .inl on
        | true =>
            rw [strobe, if_pos rfl, getLsbD_setBit] at on
            split at on
            next same => exact .inr (by simp [on, same])
            next => exact .inl on
  cases iEdge with
  | none =>
      rcases visible with on | rest
      · rcases enable on with before | now
        · exact .inl (.inl before)
        · exact .inr now
      · exact .inl (.inr rest)
  | some i =>
      rcases visible with on | two | one | zero | select
      · rcases enable on with before | now
        · exact .inl (.inl before)
        · exact .inr now
      · exact .inl (.inl two)
      · exact .inl (.inr (.inl one))
      · exact .inl (.inr (.inr (.inl zero)))
      · left
        right; right; right; left
        change (if b.1.rCyc then 0 else _ : BitVec n).getLsbD k = true at select
        split at select
        · simp at select
        · exact select_enabled b.1 i k select

theorem not_disabling (toggle : Toggle b.1 p) (fair : Fair b e) (way : p.val < 8) : disables e.bus = false := by
  have waits : b.1.rStall = true := by
    rw [toggle.rStall]
    simpa using way
  rw [disables, (fair.bus waits).1]
  rfl

theorem Toggle.step (toggle : Toggle b.1 p) (fair : Fair b e) :
    Toggle (b.1.step e) (advance p e.cEdge e.iEdge.isSome (disables e.bus)) := by
  have quiet := not_disabling toggle fair
  obtain ⟨bus, cEdge, iEdge⟩ := e
  have value : (b.1.step ⟨bus, cEdge, iEdge⟩).rcXor0 =
      if cEdge && disables bus then !b.1.rcXor0 else b.1.rcXor0 := by
    cases cEdge with
    | false => rfl
    | true => rfl
  constructor
  · rw [value, ← ri_advance p b.1.rcXor0 cEdge iEdge.isSome (disables bus) quiet, ← toggle.riXor]
    cases iEdge <;> rfl
  · rw [value, ← rc_advance p b.1.rcXor0 cEdge iEdge.isSome (disables bus) quiet, ← toggle.rcXor, ← toggle.riXor]
    cases cEdge <;> rfl
  · rw [← stall_advance p b.1.rcXor0 cEdge iEdge.isSome (disables bus) quiet, ← toggle.rcXor, ← toggle.rStall]
    cases cEdge <;> rfl

theorem advance_behind : ∀ (p : Fin 9) (cEdge iEdge disable : Bool), p.val < 4 →
    (advance p cEdge iEdge disable).val = if iEdge then p.val + 1 else p.val := by
  decide

theorem advance_disable : ∀ (p : Fin 9) (iEdge : Bool), ¬p.val < 8 → advance p true iEdge true = 0 := by
  decide

/-- One edge of `i_clk_i` moves the places of a disabled channel and the toggle on together. -/
theorem Gone.step {k : Nat} (gone : Gone b.1 p k) (off : b.1.rcEnable.getLsbD k = false) :
    Gone (b.1.step e) (advance p e.cEdge e.iEdge.isSome (disables e.bus)) k := by
  obtain ⟨bus, cEdge, iEdge⟩ := e
  have ahead := advance_behind p cEdge iEdge.isSome (disables bus)
  cases iEdge with
  | none =>
      simp only [Option.isSome_none, Bool.false_eq_true, if_false] at ahead
      constructor
      · intro two
        have early := gone.enable2 two
        exact (ahead (by omega)).trans_lt early
      · intro one
        have early := gone.enable1 one
        exact (ahead (by omega)).trans_lt early
      · intro zero
        have early := gone.enable zero
        exact (ahead (by omega)).trans_lt early
      · intro select
        have early := gone.select select
        exact (ahead (by omega)).trans_lt early
  | some i =>
      simp only [Option.isSome_some, if_true] at ahead
      constructor
      · intro two
        change b.1.rcEnable.getLsbD k = true at two
        rw [off] at two
        exact absurd two Bool.false_ne_true
      · intro one
        have early := gone.enable2 one
        exact (ahead (by omega)).trans_lt (by omega)
      · intro zero
        have early := gone.enable1 zero
        exact (ahead (by omega)).trans_lt (by omega)
      · intro select
        have before : b.1.riEnable.getLsbD k = true := by
          change (if b.1.rCyc then 0 else _ : BitVec n).getLsbD k = true at select
          split at select
          · simp at select
          · exact select_enabled b.1 i k select
        have early := gone.enable before
        exact (ahead (by omega)).trans_lt (by omega)

/-- A channel that was enabled and is not any more has just been disabled. -/
theorem just_disabled {k : Nat} (on : b.1.rcEnable.getLsbD k = true)
    (off : (b.1.step e).rcEnable.getLsbD k = false) : e.cEdge = true ∧ disables e.bus = true := by
  obtain ⟨bus, cEdge, iEdge⟩ := e
  simp only [Msi.step, Msi.cEdge] at off
  cases cEdge with
  | false =>
      simp only [Bool.false_eq_true, if_false] at off
      rw [on] at off
      exact absurd off.symm Bool.false_ne_true
  | true =>
      simp only [if_true] at off
      cases strobe : bus.enableStb with
      | false =>
          rw [strobe, if_neg Bool.false_ne_true, on] at off
          exact absurd off.symm Bool.false_ne_true
      | true =>
          rw [strobe, if_pos rfl, getLsbD_setBit] at off
          split at off
          · exact ⟨rfl, by simp [disables, strobe, off]⟩
          · rw [on] at off
            exact absurd off.symm Bool.false_ne_true

theorem Safe.step (safe : Safe b p) (fair : Fair b e) :
    Safe (stepBoth b e) (advance p e.cEdge e.iEdge.isSome (disables e.bus)) := by
  refine ⟨safe.toggle.step fair, ?_, ?_⟩
  · intro k off
    cases on : b.1.rcEnable.getLsbD k with
    | false => exact (safe.gone k on).step on
    | true =>
        obtain ⟨edge, disabling⟩ := just_disabled on off
        have finished : ¬p.val < 8 := by
          intro way
          rw [not_disabling safe.toggle fair way] at disabling
          exact Bool.false_ne_true disabling
        rw [edge, disabling, advance_disable p _ finished]
        exact ⟨fun _ => by decide, fun _ => by decide, fun _ => by decide, fun _ => by decide⟩
  · intro k visible
    rw [inForce_step]
    split
    next => rfl
    next not =>
      have before := (visible_back visible).resolve_right not
      exact (cross_kept safe fair before).trans (safe.target k before)

end WrCores.Eca.Msi
