import Mathlib.Data.BitVec

/-!
A listener on the two lines of an I2C bus. It hears a start or a stop where SDA changes under a high SCL, and a bit in
each high of SCL in between; the ninth of them is the slot of the acknowledge. Whatever else happens on the lines breaks
it for good: a change of both lines at once, a stop inside a byte, a start inside a frame, a clock outside.
-/

namespace WrCores.I2c

inductive Phase
  | free
  /-- The bytes so far, the bits of the next one so far, and the bit of the present high of SCL. -/
  | frame (bytes : List (BitVec 8)) (count : Nat) (byte : BitVec 8) (slot : Option Bool)
  | broken
  deriving DecidableEq, Repr

structure Listener where
  scl : Bool
  sda : Bool
  phase : Phase
  heard : List (List (BitVec 8))
  deriving DecidableEq, Repr

/-- Both lines released and nothing heard. -/
def Listener.fresh : Listener := ⟨true, true, .free, []⟩

def Phase.start : Phase → Phase
  | .free => .frame [] 0 0#8 none
  | _ => .broken

def Phase.rise (sda : Bool) : Phase → Phase
  | .frame bytes count byte none => .frame bytes count byte (some sda)
  | _ => .broken

/-- The first fall of SCL in a frame belongs to its start. -/
def Phase.fall : Phase → Phase
  | .frame bytes count byte (some bit) =>
      if count = 8 then .frame (bytes ++ [byte]) 0 0#8 none else .frame bytes (count + 1) (byte.shiftConcat bit) none
  | .frame [] 0 byte none => .frame [] 0 byte none
  | _ => .broken

namespace Listener

variable (l : Listener)

def stop : Listener :=
  match l.phase with
  | .frame bytes 0 _ (some false) => { l with phase := .free, heard := l.heard ++ [bytes] }
  | _ => { l with phase := .broken }

def event (scl sda : Bool) : Listener :=
  match l.scl, scl, l.sda, sda with
  | false, false, _, _ => l
  | false, true, before, now => { l with phase := if before = now then l.phase.rise now else .broken }
  | true, false, before, now => { l with phase := if before = now then l.phase.fall else .broken }
  | true, true, true, false => { l with phase := l.phase.start }
  | true, true, false, true => l.stop
  | true, true, _, _ => l

def hear (scl sda : Bool) : Listener := { l.event scl sda with scl := scl, sda := sda }

variable {l}

theorem hear_same {scl sda : Bool} (clock : l.scl = scl) (data : l.sda = sda) : l.hear scl sda = l := by
  obtain ⟨scl, sda, phase, heard⟩ := l
  subst clock data
  cases scl <;> cases sda <;> rfl

theorem hear_low (sda : Bool) (clock : l.scl = false) : l.hear false sda = { l with sda := sda } := by
  simp [hear, event, clock]

theorem hear_rise (clock : l.scl = false) :
    l.hear true l.sda = { l with scl := true, phase := l.phase.rise l.sda } := by
  simp [hear, event, clock]

theorem hear_fall (clock : l.scl = true) :
    l.hear false l.sda = { l with scl := false, phase := l.phase.fall } := by
  simp [hear, event, clock]

theorem hear_stop {bytes : List (BitVec 8)} {byte : BitVec 8} (clock : l.scl = true) (data : l.sda = false)
    (phase : l.phase = .frame bytes 0 byte (some false)) :
    l.hear true true = ⟨true, true, .free, l.heard ++ [bytes]⟩ := by
  simp [hear, event, stop, clock, data, phase]

end Listener

/-! ### Bytes with the most significant bit first -/

/-- The bit of a byte that goes out as number `j`; number 8 is in the slot of the acknowledge. -/
def bitAt (byte : BitVec 8) (j : Nat) : Bool := byte.getLsbD (7 - j % 8)

/-- The first `j` bits of a byte, as they are shifted in. -/
def first (byte : BitVec 8) (j : Nat) : BitVec 8 := byte >>> (8 - j)

theorem first_zero (byte : BitVec 8) : first byte 0 = 0#8 :=
  BitVec.ushiftRight_eq_zero (by omega)

theorem first_eight (byte : BitVec 8) : first byte 8 = byte := by
  rw [first, Nat.sub_self, BitVec.ushiftRight_zero]

theorem first_succ (byte : BitVec 8) {j : Nat} (inside : j < 8) :
    first byte (j + 1) = (first byte j).shiftConcat (bitAt byte j) := by
  refine BitVec.eq_of_getLsbD_eq fun n less => ?_
  rw [first, first, bitAt, BitVec.getLsbD_ushiftRight, BitVec.getLsbD_shiftConcat, Nat.mod_eq_of_lt inside]
  rcases n with _ | n
  · simp
  · simp [less, show 7 - j + (n + 1) = 8 - j + n by omega]

theorem first_congr {byte other : BitVec 8} {j : Nat} (inside : j ≤ 8)
    (same : ∀ k < j, bitAt byte k = bitAt other k) : first byte j = first other j := by
  refine BitVec.eq_of_getLsbD_eq fun n less => ?_
  rw [first, first, BitVec.getLsbD_ushiftRight, BitVec.getLsbD_ushiftRight]
  rcases Nat.lt_or_ge (8 - j + n) 8 with low | high
  · have here := same (7 - (8 - j + n)) (by omega)
    rwa [bitAt, bitAt, Nat.mod_eq_of_lt (by omega), show 7 - (7 - (8 - j + n)) = 8 - j + n by omega] at here
  · rw [BitVec.getLsbD_of_ge _ _ high, BitVec.getLsbD_of_ge _ _ high]

theorem byte_ext {byte other : BitVec 8} (same : ∀ k < 8, bitAt byte k = bitAt other k) : byte = other := by
  rw [← first_eight byte, ← first_eight other, first_congr le_rfl same]

end WrCores.I2c
