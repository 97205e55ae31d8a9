import WrCores.Clocked.Machine
import WrCores.Gencores.BigAdder

/-!
eca_adder.vhd for any number of parts of any size. gc_big_adder is this entity under a new name, so the registers are
those of `BigAdder`; here they stop with `stall_i`.
-/

namespace WrCores.Eca.PartAdder

open Clocked Gencores

variable {bits parts : Nat}

structure In (bits parts : Nat) where
  stallI : Bool
  aI : BitVec (bits * parts)
  bI : BitVec (bits * parts)
  cI : Bool

def main : BigAdder bits parts → In bits parts → BigAdder bits parts :=
  gated (fun i => !i.stallI) fun s i => s.main i.aI i.bI i.cI

def c1O (s : BigAdder bits parts) : Bool := s.s1R.getLsbD parts

def c2O (s : BigAdder bits parts) : Bool := s.r2CH

def x2O (s : BigAdder bits parts) : BitVec (bits * parts) := s.x2

def In.sum (i : In bits parts) : Nat := i.aI.toNat + i.bI.toNat + i.cI.toNat

/-- The operands that are taken in, the latest first. -/
def taken (inputs : List (In bits parts)) : List (In bits parts) := (inputs.filter (!·.stallI)).reverse

/-- After any edges the first stage has the last operands that were taken in, the second those before them. -/
theorem outputs_taken (s : BigAdder bits parts) (inputs : List (In bits parts)) :
    let after := run main s inputs
    (∀ i ∈ (taken inputs)[0]?, c1O after = decide (2 ^ (bits * parts) ≤ i.sum)) ∧
      ∀ i ∈ (taken inputs)[1]?, (x2O after).toNat = i.sum % 2 ^ (bits * parts) ∧
        c2O after = decide (2 ^ (bits * parts) ≤ i.sum) := by
  rw [main, run_gated, taken]
  generalize inputs.filter (fun i => !i.stallI) = past
  rcases List.eq_nil_or_concat past with rfl | ⟨before, i, rfl⟩
  · simp
  rw [List.concat_eq_append, run_append, run_cons, run_nil, List.reverse_append, List.reverse_cons, List.reverse_nil,
    List.nil_append, List.singleton_append]
  refine ⟨fun j here => ?_, fun j here => ?_⟩
  · obtain rfl : i = j := by simpa using here
    exact BigAdder.main_carry_out ..
  · rcases List.eq_nil_or_concat before with rfl | ⟨first, k, rfl⟩
    · simp at here
    obtain rfl : k = j := by simpa using here
    rw [List.concat_eq_append, run_append, run_cons, run_nil]
    refine ⟨?_, BigAdder.main_carry_out ..⟩
    rw [x2O, BigAdder.main_x2]
    simp only [BitVec.toNat_add, BitVec.toNat_setWidth, BitVec.toNat_ofBool, Nat.mod_add_mod, Nat.add_mod_mod, In.sum]

theorem outputs_taken_stalled :
    let inputs : List (In 1 2) := [⟨false, 3, 1, true⟩, ⟨true, 0, 0, false⟩, ⟨false, 1, 1, false⟩]
    let after := run main ⟨fun _ => 0, 0, 0, false, fun _ => 0, 0, false⟩ inputs
    (∀ i ∈ (taken inputs)[0]?, c1O after = decide (2 ^ (1 * 2) ≤ i.sum)) ∧
      ∀ i ∈ (taken inputs)[1]?, (x2O after).toNat = i.sum % 2 ^ (1 * 2) ∧
        c2O after = decide (2 ^ (1 * 2) ≤ i.sum) :=
  outputs_taken ⟨fun _ => 0, 0, 0, false, fun _ => 0, 0, false⟩ [⟨false, 3, 1, true⟩, ⟨true, 0, 0, false⟩,
    ⟨false, 1, 1, false⟩]

end WrCores.Eca.PartAdder
