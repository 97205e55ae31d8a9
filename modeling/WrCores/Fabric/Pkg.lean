import Mathlib.Data.BitVec

/-!
The Wishbone packet fabric of wr_fabric_pkg.vhd: the records that cross it and
the STATUS word. A std_logic is a Bool. Bits of a STATUS word that the source
never assigns, and so leaves undefined, are zero here.
-/

namespace WrCores.Fabric

def cWrfData : BitVec 2 := 0b00#2
def cWrfOob : BitVec 2 := 0b01#2
def cWrfStatus : BitVec 2 := 0b10#2
def cWrfUser : BitVec 2 := 0b11#2

structure StatusReg where
  isHp : Bool := false
  hasSmac : Bool := false
  hasCrc : Bool := false
  error : Bool := false
  tagMe : Bool := false
  matchClass : BitVec 8 := 0
  deriving DecidableEq, Repr

/-- What a fabric source drives, `t_wrf_source_out`, and so what a sink reads. -/
structure SourceOut where
  adr : BitVec 2
  dat : BitVec 16
  cyc : Bool
  stb : Bool
  we : Bool
  sel : BitVec 2
  deriving DecidableEq, Repr

/-- What a fabric source reads back, `t_wrf_source_in`, and so what a sink drives. -/
structure SourceIn where
  ack : Bool
  stall : Bool
  err : Bool
  rty : Bool
  deriving DecidableEq, Repr

/-- One word of a fabric cycle, as the side that takes it sees it. -/
structure Word where
  adr : BitVec 2
  dat : BitVec 16
  sel : BitVec 2
  deriving DecidableEq, Repr

def SourceOut.word (out : SourceOut) : Word := ⟨out.adr, out.dat, out.sel⟩

/-- The word a pipelined Wishbone cycle hands over: cyc and stb and not stall. -/
def taken (out : SourceOut) (stall : Bool) : List Word :=
  if out.cyc && out.stb && !stall then [out.word] else []

/-- Bits 7 downto 0 of the STATUS word. -/
def statusFlags (stat : StatusReg) : BitVec 8 :=
  0#4 ++ BitVec.ofBool stat.hasCrc ++ BitVec.ofBool stat.hasSmac ++
    BitVec.ofBool stat.error ++ BitVec.ofBool stat.isHp

def fMarshallWrfStatus (stat : StatusReg) : BitVec 16 := stat.matchClass ++ statusFlags stat

def fUnmarshallWrfStatus (stat : BitVec 16) : StatusReg where
  isHp := stat.getLsbD 0
  error := stat.getLsbD 1
  hasSmac := stat.getLsbD 2
  hasCrc := stat.getLsbD 3
  matchClass := stat.extractLsb' 8 8

/-- Every field but `tag_me`, which has no bit in the word, survives the STATUS word. -/
theorem unmarshall_marshall (stat : StatusReg) :
    fUnmarshallWrfStatus (fMarshallWrfStatus stat) = { stat with tagMe := false } := by
  have class_kept : (fMarshallWrfStatus stat).extractLsb' 8 8 = stat.matchClass :=
    BitVec.extractLsb'_append_eq_left
  have flag_kept : ∀ i < 8, (fMarshallWrfStatus stat).getLsbD i = (statusFlags stat).getLsbD i := by
    intro i low
    rw [fMarshallWrfStatus, BitVec.getLsbD_append]
    simp [low]
  obtain ⟨isHp, hasSmac, hasCrc, error, tagMe, matchClass⟩ := stat
  simp only [fUnmarshallWrfStatus, class_kept, flag_kept 0 (by decide), flag_kept 1 (by decide),
    flag_kept 2 (by decide), flag_kept 3 (by decide)]
  cases isHp <;> cases hasSmac <;> cases hasCrc <;> cases error <;> simp [statusFlags]

theorem taken_of_not_cyc (out : SourceOut) (stall : Bool) (low : out.cyc = false) :
    taken out stall = [] := by
  simp [taken, low]

theorem taken_of_not_stb (out : SourceOut) (stall : Bool) (low : out.stb = false) :
    taken out stall = [] := by
  simp [taken, low]

end WrCores.Fabric
