import WrCores.Words.Gray

/-!
What pulse_gen.vhd and pulse_stamper.vhd have in common: the pair of seconds and cycles, and the chains of three
registers.
-/

namespace WrCores.Timing

/-- Seconds and cycles of the reference clock. -/
structure Tag where
  tai : BitVec 40
  cycles : BitVec 28
  deriving DecidableEq, Repr

namespace Tag

/-- What is read from registers that change at the same time. -/
def mixture (chosen old new : Tag) : Tag where
  tai := Words.Gray.mixture chosen.tai old.tai new.tai
  cycles := Words.Gray.mixture chosen.cycles old.cycles new.cycles

theorem mixture_self (chosen x : Tag) : mixture chosen x x = x := by
  rw [mixture, Words.Gray.mixture_self, Words.Gray.mixture_self]

end Tag

structure Three where
  b0 : Bool
  b1 : Bool
  b2 : Bool
  deriving DecidableEq, Repr

namespace Three

def push (x : Three) (bit : Bool) : Three := ⟨bit, x.b0, x.b1⟩

def zero : Three := ⟨false, false, false⟩

end Three

end WrCores.Timing
