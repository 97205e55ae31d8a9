import WrCores.Etherbone.Fifo
import WrCores.Etherbone.SlaveFsm

/-!
eb_cfg_fifo.vhd and eb_wbm_fifo.vhd: where the answers to reads wait for their turn. The configuration registers are
read when the answer is sent; what the bus answers is kept, with one bit of every answer in the error register. The
registers that the local side can set do not change here.
-/

namespace WrCores.Etherbone

open Clocked

/-- `g_sdb_address` and the registers that the local side sets. -/
structure CfgRegs where
  gSdbAddress : Word
  rMac : BitVec 48
  rIp : BitVec 32
  rPort : BitVec 16

def CfgRegs.dat (g : CfgRegs) (errreg : BitVec 64) (adr : BitVec 3) : Word :=
  match adr.toNat with
  | 0 => errreg.extractLsb 63 32
  | 1 => errreg.extractLsb 31 0
  | 2 => 0
  | 3 => g.gSdbAddress
  | 4 => (g.rMac.extractLsb 47 32).setWidth 32
  | 5 => g.rMac.extractLsb 31 0
  | 6 => g.rIp
  | _ => g.rPort.setWidth 32

structure CfgFifo where
  fifo : EbFifo 5 (BitVec 3)
  rCacheEmpty : Bool
  rCacheAdr : BitVec 3

namespace CfgFifo

def reset (ram : BitVec 5 → BitVec 3) : CfgFifo := ⟨.reset ram, true, 0⟩

variable (s : CfgFifo) (fsmStb muxPop : Bool) (adr : BitVec 3)

def sFifoPop : Bool := !s.fifo.rEmptyO && (s.rCacheEmpty || muxPop)

def step : CfgFifo where
  fifo := s.fifo.step fsmStb (s.sFifoPop muxPop) adr
  rCacheEmpty := if s.rCacheEmpty || muxPop then s.fifo.rEmptyO else s.rCacheEmpty
  rCacheAdr := if s.rCacheEmpty || muxPop then s.fifo.rDatO else s.rCacheAdr

def stored : List (BitVec 3) := (if s.rCacheEmpty then [] else [s.rCacheAdr]) ++ s.fifo.stored

variable {s fsmStb muxPop adr}

theorem step_stored (sound : s.fifo.Sound) (free : fsmStb = true → s.fifo.stored.length < 32)
    (some : muxPop = true → s.rCacheEmpty = false) :
    (s.step fsmStb muxPop adr).fifo.Sound ∧
      (s.step fsmStb muxPop adr).fifo.stored.length ≤ s.fifo.stored.length + fsmStb.toNat ∧
      s.stored ++ (if fsmStb then [adr] else []) =
        (if muxPop then [s.rCacheAdr] else []) ++ (s.step fsmStb muxPop adr).stored := by
  have pops : s.sFifoPop muxPop = true → s.fifo.rEmptyO = false := fun pop => by
    simpa using (Bool.and_eq_true_iff.mp pop).1
  obtain ⟨sound', short, balanced⟩ := sound.step free pops adr
  refine ⟨sound', short, ?_⟩
  rw [stored, List.append_assoc, balanced]
  by_cases cache : s.rCacheEmpty = true <;> by_cases pop : muxPop = true <;>
    by_cases empty : s.fifo.rEmptyO = true <;> simp_all [stored, step, sFifoPop]

end CfgFifo

structure WbmFifo (t : Nat) where
  rInflight : BitVec 5
  rBusy : Bool
  rQueued : BitVec 5
  rFull : Bool
  rTimeout : BitVec t
  rKillAck : Bool
  rErrreg : BitVec 64
  datfifo : EbFifo 5 (Bool × Word)

/-- What the bus answers. -/
structure Answer where
  ack : Bool
  err : Bool
  rty : Bool
  dat : Word

namespace WbmFifo

/-- An answer that is not an acknowledge sets a bit. -/
def logged (errreg : BitVec 64) (ack : Bool) : BitVec 64 := errreg.extractLsb 62 0 ++ BitVec.ofBool !ack

def reset (t gTimeoutCycles : Nat) (ram : BitVec 5 → Bool × Word) : WbmFifo t where
  rInflight := 0
  rBusy := false
  rQueued := 0
  rFull := false
  rTimeout := BitVec.ofNat t gTimeoutCycles
  rKillAck := false
  rErrreg := 0
  datfifo := .reset ram

variable {t : Nat} (gTimeoutCycles : Nat) (s : WbmFifo t) (wbI : Answer) (fsmStb muxPop : Bool)

def sWbIRdy : Bool := wbI.ack || wbI.err || wbI.rty || s.rKillAck

def step : WbmFifo t where
  rInflight :=
    if fsmStb then if s.sWbIRdy wbI then s.rInflight else s.rInflight + 1
    else if s.sWbIRdy wbI then s.rInflight - 1 else s.rInflight
  rBusy :=
    if fsmStb then if s.sWbIRdy wbI then s.rBusy else true
    else if s.sWbIRdy wbI && s.rInflight == 1 then false else s.rBusy
  rQueued :=
    if fsmStb then if muxPop then s.rQueued else s.rQueued + 1
    else if muxPop then s.rQueued - 1 else s.rQueued
  rFull :=
    if fsmStb then if !muxPop && s.rQueued == 31 then true else s.rFull
    else if muxPop then false else s.rFull
  rTimeout := if s.sWbIRdy wbI || !s.rBusy then BitVec.ofNat t gTimeoutCycles else s.rTimeout - 1
  rKillAck :=
    if s.sWbIRdy wbI || !s.rBusy then false else if s.rTimeout == 1 then true else s.rKillAck
  rErrreg := if muxPop then logged s.rErrreg s.datfifo.rDatO.1 else s.rErrreg
  datfifo := s.datfifo.step (s.sWbIRdy wbI) muxPop (wbI.ack, wbI.dat)

/-- With `queued` requests that have not been taken out. -/
structure Inv (queued : Nat) : Prop where
  few : queued ≤ 32
  rQueued : s.rQueued = BitVec.ofNat 5 queued
  full : s.rFull = true ↔ queued = 32
  sound : s.datfifo.Sound
  answered : s.datfifo.stored.length ≤ queued
  rInflight : s.rInflight = BitVec.ofNat 5 (queued - s.datfifo.stored.length)
  busy : s.rBusy = true ↔ s.datfifo.stored.length < queued
  kill : s.rKillAck = true → s.rBusy = true

variable {gTimeoutCycles s wbI fsmStb muxPop}

theorem reset_inv (ram : BitVec 5 → Bool × Word) : (reset t gTimeoutCycles ram).Inv 0 := by
  obtain ⟨sound, none⟩ := EbFifo.reset_sound ram
  refine ⟨Nat.zero_le _, rfl, by simp [reset], sound, ?_, ?_, ?_, nofun⟩
  · exact (congrArg List.length none).le
  · exact congrArg (BitVec.ofNat 5) (Nat.zero_sub _).symm
  · simp [reset]

/-- A counter with its two strobes. -/
theorem count_step (m : Nat) (up down : Bool) (some : down = true → 0 < m + up.toNat) :
    (if up then if down then BitVec.ofNat 5 m else BitVec.ofNat 5 m + 1
      else if down then BitVec.ofNat 5 m - 1 else BitVec.ofNat 5 m) =
      BitVec.ofNat 5 (m + up.toNat - down.toNat) := by
  cases up <;> cases down
  · rfl
  · obtain ⟨m, rfl⟩ := Nat.exists_eq_succ_of_ne_zero (some rfl).ne'
    change BitVec.ofNat 5 (m + 1) - 1 = BitVec.ofNat 5 m
    rw [BitVec.ofNat_add]
    exact BitVec.add_sub_cancel _ _
  · exact (BitVec.ofNat_add m 1).symm
  · rfl

theorem count_eq {m c : Nat} (few : m ≤ 32) (positive : 0 < c) (small : c < 32) :
    BitVec.ofNat 5 m = BitVec.ofNat 5 c ↔ m = c := by
  rw [← BitVec.toNat_inj, BitVec.toNat_ofNat, BitVec.toNat_ofNat]
  omega

/-- The flag of a counter that is full, with the strobes that count up and down. -/
theorem full_step {m : Nat} {up down full : Bool} (flag : full = true ↔ m = 32) (room : m + up.toNat ≤ 32) :
    (if up then if !down && BitVec.ofNat 5 m == 31 then true else full else if down then false else full) = true ↔
      m + up.toNat - down.toNat = 32 := by
  have last : BitVec.ofNat 5 m = 31 ↔ m = 31 := count_eq (by omega) (by decide) (by decide)
  cases up <;> cases down <;> simp_all <;> omega

/-- The flag of a counter that is not zero. -/
theorem busy_step {m : Nat} {up down busy : Bool} (flag : busy = true ↔ 0 < m) (few : m ≤ 32)
    (some : down.toNat ≤ m + up.toNat) :
    (if up then if down then busy else true else if down && BitVec.ofNat 5 m == 1 then false else busy) = true ↔
      0 < m + up.toNat - down.toNat := by
  have last : BitVec.ofNat 5 m = 1 ↔ m = 1 := count_eq few (by decide) (by decide)
  cases up <;> cases down <;> simp_all
  omega

variable (gTimeoutCycles) in
theorem Inv.step {queued : Nat} (inv : s.Inv queued) (free : fsmStb = true → queued < 32)
    (some : muxPop = true → s.datfifo.rEmptyO = false)
    (asked : wbI.ack || wbI.err || wbI.rty → s.rBusy = true ∨ fsmStb = true) :
    (s.step gTimeoutCycles wbI fsmStb muxPop).Inv (queued + fsmStb.toNat - muxPop.toNat) ∧
      s.datfifo.stored ++ (if s.sWbIRdy wbI then [(wbI.ack, wbI.dat)] else []) =
        (if muxPop then [s.datfifo.rDatO] else []) ++ (s.step gTimeoutCycles wbI fsmStb muxPop).datfifo.stored := by
  obtain ⟨few, rQueued, full, sound, answered, rInflight, busy, kill⟩ := inv
  have waits : s.sWbIRdy wbI = true → s.datfifo.stored.length < queued ∨ fsmStb = true := fun rdy => by
    rw [← busy]
    rcases Bool.or_eq_true_iff.mp rdy with answers | kills
    · exact asked answers
    · exact .inl (kill kills)
  have room : s.sWbIRdy wbI = true → s.datfifo.stored.length < 2 ^ 5 := fun rdy => by
    rcases waits rdy with more | stb
    · omega
    · have := free stb
      omega
  obtain ⟨sound', -, balanced⟩ := sound.step room some (wbI.ack, wbI.dat)
  have size := congrArg List.length balanced
  have taken : muxPop = true → 0 < s.datfifo.stored.length := fun pop => by
    obtain ⟨rest, shown⟩ := sound.shown (some pop)
    rw [shown]
    exact Nat.succ_pos _
  have count : s.datfifo.stored.length + (s.sWbIRdy wbI).toNat =
      muxPop.toNat + (s.step gTimeoutCycles wbI fsmStb muxPop).datfifo.stored.length := by
    have one {α : Type} (b : Bool) (x : α) : (if b then [x] else []).length = b.toNat := by cases b <;> rfl
    rwa [List.length_append, List.length_append, one, one] at size
  clear size
  generalize s.datfifo.stored.length = n at *
  have popped : muxPop.toNat ≤ n := by cases pop : muxPop with
    | false => exact Nat.zero_le _
    | true => exact taken pop
  have pushed : queued + fsmStb.toNat ≤ 32 := by cases stb : fsmStb with
    | false => exact few
    | true => exact free stb
  have ready : (s.sWbIRdy wbI).toNat ≤ queued - n + fsmStb.toNat := by
    cases rdy : s.sWbIRdy wbI with
    | false => exact Nat.zero_le _
    | true => rcases waits rdy with more | stb <;> simp only [Bool.toNat_true, *] <;> omega
  have counted (m : Nat) (up down : Bool) (some : down.toNat ≤ m + up.toNat) :=
    count_step m up down fun pop => by rw [pop] at some; exact some
  have inflight : (s.step gTimeoutCycles wbI fsmStb muxPop).rInflight =
      BitVec.ofNat 5 (queued - n + fsmStb.toNat - (s.sWbIRdy wbI).toNat) := by
    rw [WbmFifo.step, rInflight, counted _ _ _ ready]
  have waiting : (s.step gTimeoutCycles wbI fsmStb muxPop).rBusy = true ↔
      0 < queued - n + fsmStb.toNat - (s.sWbIRdy wbI).toNat := by
    rw [WbmFifo.step, rInflight]
    exact busy_step (busy.trans Nat.sub_pos_iff_lt.symm) (by omega) ready
  rw [show queued - n + fsmStb.toNat - (s.sWbIRdy wbI).toNat = queued + fsmStb.toNat - muxPop.toNat -
    (s.step gTimeoutCycles wbI fsmStb muxPop).datfifo.stored.length by omega] at inflight waiting
  refine ⟨⟨by omega, ?_, ?_, sound', by omega, inflight, waiting.trans Nat.sub_pos_iff_lt, fun kills => ?_⟩, balanced⟩
  · rw [WbmFifo.step, rQueued, counted _ _ _ (by omega)]
  · rw [WbmFifo.step, rQueued]
    exact full_step full pushed
  · -- the answer that is made up has not been given yet
    simp only [WbmFifo.step] at kills ⊢
    cases rdy : s.sWbIRdy wbI <;> cases was : s.rBusy <;> simp_all

end WbmFifo

end WrCores.Etherbone
