import Mathlib.Data.BitVec

/-!
eb_hdr_pkg.vhd: the two Etherbone headers, their words, and what eb_slave_fsm.vhd answers to them.
-/

namespace WrCores.Etherbone

abbrev Word := BitVec 32

/-- `t_eb_hdr`. -/
structure EbHdr where
  magic : BitVec 16
  ver : BitVec 4
  res1 : Bool
  noResponse : Bool
  probeRes : Bool
  probe : Bool
  addrSize : BitVec 4
  dataSize : BitVec 4
  deriving DecidableEq

/-- `t_rec_hdr`. -/
structure RecHdr where
  bcaCfg : Bool
  rcaCfg : Bool
  rdFifo : Bool
  res1 : Bool
  dropCyc : Bool
  wcaCfg : Bool
  wrFifo : Bool
  res2 : Bool
  sel : BitVec 8
  wrCnt : BitVec 8
  rdCnt : BitVec 8
  deriving DecidableEq

def cEbMagic : BitVec 16 := 0x4e6f

def cEbVer : BitVec 4 := 0x1

def cEbInit : EbHdr where
  magic := cEbMagic
  ver := cEbVer
  res1 := false
  noResponse := true
  probeRes := false
  probe := false
  addrSize := 0x4
  dataSize := 0x4

def cRecInit : RecHdr where
  bcaCfg := false
  rcaCfg := false
  rdFifo := false
  res1 := false
  dropCyc := false
  wcaCfg := false
  wrFifo := false
  res2 := false
  sel := 0
  wrCnt := 0
  rdCnt := 0

def fParseEb (x : Word) : EbHdr where
  magic := x.extractLsb 31 16
  ver := x.extractLsb 15 12
  res1 := x.getLsbD 11
  noResponse := x.getLsbD 10
  probeRes := x.getLsbD 9
  probe := x.getLsbD 8
  addrSize := x.extractLsb 7 4
  dataSize := x.extractLsb 3 0

def fParseRec (x : Word) : RecHdr where
  bcaCfg := x.getLsbD 31
  rcaCfg := x.getLsbD 30
  rdFifo := x.getLsbD 29
  res1 := x.getLsbD 28
  dropCyc := x.getLsbD 27
  wcaCfg := x.getLsbD 26
  wrFifo := x.getLsbD 25
  res2 := x.getLsbD 24
  sel := x.extractLsb 23 16
  wrCnt := x.extractLsb 15 8
  rdCnt := x.extractLsb 7 0

def fFormatEb (x : EbHdr) : Word :=
  x.magic ++ x.ver ++ BitVec.ofBool x.res1 ++ BitVec.ofBool x.noResponse ++ BitVec.ofBool x.probeRes ++
    BitVec.ofBool x.probe ++ x.addrSize ++ x.dataSize

def fFormatRec (x : RecHdr) : Word :=
  BitVec.ofBool x.bcaCfg ++ BitVec.ofBool x.rcaCfg ++ BitVec.ofBool x.rdFifo ++ BitVec.ofBool x.res1 ++
    BitVec.ofBool x.dropCyc ++ BitVec.ofBool x.wcaCfg ++ BitVec.ofBool x.wrFifo ++ BitVec.ofBool x.res2 ++
    x.sel ++ x.wrCnt ++ x.rdCnt

def fReplyEb (rx : EbHdr) : EbHdr := { cEbInit with probeRes := rx.probe }

def fReplyRec (rx : RecHdr) : RecHdr where
  bcaCfg := cRecInit.bcaCfg
  rcaCfg := cRecInit.rcaCfg
  rdFifo := false
  res1 := cRecInit.res1
  dropCyc := rx.dropCyc
  wcaCfg := rx.bcaCfg
  wrFifo := rx.rdFifo
  res2 := cRecInit.res2
  sel := rx.sel
  wrCnt := rx.rdCnt
  rdCnt := 0

theorem fParseEb_format (h : EbHdr) : fParseEb (fFormatEb h) = h := by
  obtain ⟨magic, ver, res1, noResponse, probeRes, probe, addrSize, dataSize⟩ := h
  generalize word : fFormatEb ⟨magic, ver, res1, noResponse, probeRes, probe, addrSize, dataSize⟩ = x
  have bits : ∀ i, x.getLsbD i =
      (magic ++ ver ++ BitVec.ofBool res1 ++ BitVec.ofBool noResponse ++ BitVec.ofBool probeRes ++
        BitVec.ofBool probe ++ addrSize ++ dataSize).getLsbD i := fun i => word ▸ rfl
  simp only [BitVec.getLsbD_append] at bits
  rw [fParseEb, EbHdr.mk.injEq]
  refine ⟨?_, ?_, (bits 11).trans (by simp), (bits 10).trans (by simp), (bits 9).trans (by simp),
    (bits 8).trans (by simp), ?_, ?_⟩ <;>
  · apply BitVec.eq_of_getLsbD_eq
    intro i inside
    rw [BitVec.getLsbD_extractLsb, bits]
    grind

theorem fParseRec_format (h : RecHdr) : fParseRec (fFormatRec h) = h := by
  obtain ⟨bcaCfg, rcaCfg, rdFifo, res1, dropCyc, wcaCfg, wrFifo, res2, sel, wrCnt, rdCnt⟩ := h
  generalize word :
    fFormatRec ⟨bcaCfg, rcaCfg, rdFifo, res1, dropCyc, wcaCfg, wrFifo, res2, sel, wrCnt, rdCnt⟩ = x
  have bits : ∀ i, x.getLsbD i =
      (BitVec.ofBool bcaCfg ++ BitVec.ofBool rcaCfg ++ BitVec.ofBool rdFifo ++ BitVec.ofBool res1 ++
        BitVec.ofBool dropCyc ++ BitVec.ofBool wcaCfg ++ BitVec.ofBool wrFifo ++ BitVec.ofBool res2 ++
        sel ++ wrCnt ++ rdCnt).getLsbD i := fun i => word ▸ rfl
  simp only [BitVec.getLsbD_append] at bits
  rw [fParseRec, RecHdr.mk.injEq]
  refine ⟨(bits 31).trans (by simp), (bits 30).trans (by simp), (bits 29).trans (by simp), (bits 28).trans (by simp),
    (bits 27).trans (by simp), (bits 26).trans (by simp), (bits 25).trans (by simp), (bits 24).trans (by simp),
    ?_, ?_, ?_⟩ <;>
  · apply BitVec.eq_of_getLsbD_eq
    intro i inside
    rw [BitVec.getLsbD_extractLsb, bits]
    grind

end WrCores.Etherbone
