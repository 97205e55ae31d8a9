import WrCores.Clocked.Run
import WrCores.Endpoint.Pkg

/-!
ep_rx_vlan_unit.vhd. The registers of the port (`VCR0`, the map of `TCAR`) do not change, and the
receiver is enabled. The variables of `p_tag_untag` keep their values from edge to edge, so they
stand among the registers; what the source sets to 'X' is false here, since it is only compared
with '1'.
-/

namespace WrCores.Endpoint

inductive Qmode where
  | access | trunk | unqualified | vlanDisabled
  deriving DecidableEq, Repr

inductive TagType where
  | none | prio | vlan | nullVlan
  deriving DecidableEq, Repr

inductive VlanState where
  | waitFrame | data | flushStall | discardFrame | insertTag | endFrame
  deriving DecidableEq, Repr

structure VlanRegs where
  qmode : Qmode
  pvid : BitVec 12
  prioVal : BitVec 3
  fixPrio : Bool
  pcpMap : BitVec 24
  deriving DecidableEq, Repr

structure VlanDecision where
  admits : Bool
  usePvid : Bool
  useFixedPrio : Bool
  deriving DecidableEq, Repr

def fVlanDecision (tagType : TagType) : Qmode → VlanDecision
  | .access =>
      match tagType with
      | .none => ⟨true, true, true⟩
      | .prio => ⟨true, true, false⟩
      | .vlan => ⟨false, false, false⟩
      | .nullVlan => ⟨false, false, false⟩
  | .trunk =>
      match tagType with
      | .vlan => ⟨true, false, false⟩
      | _ => ⟨false, false, false⟩
  | .unqualified =>
      match tagType with
      | .none => ⟨true, true, true⟩
      | .prio => ⟨true, true, false⟩
      | .vlan => ⟨true, false, false⟩
      | .nullVlan => ⟨false, false, false⟩
  | .vlanDisabled =>
      match tagType with
      | .none => ⟨true, false, true⟩
      | _ => ⟨true, false, false⟩

structure VlanUnit where
  hdrOffset : BitVec 12 := 1
  state : VlanState := .waitFrame
  dreqMask : Bool := false
  vid : BitVec 12 := 0
  isTagInserted : Bool := false
  isTagged : Bool := false
  src : InternalFabric := {}
  storedEthertype : BitVec 16 := 0
  storedFab : InternalFabric := {}
  vStoredFab : InternalFabric := {}
  vSrcFab : InternalFabric := {}
  prioInt : BitVec 3 := 0
  tagDone : Bool := false
  tclass : BitVec 3 := 0
  deriving DecidableEq, Repr

namespace VlanUnit

/-- The address of a data word on the fabric. -/
def cWrfData : BitVec 2 := 0

def combTagType (isTagged : Bool) (data : BitVec 16) : TagType :=
  if !isTagged then .none
  else if data.extractLsb' 0 12 == 0x000 then .prio
  else if data.extractLsb' 0 12 == 0xfff then .nullVlan
  else .vlan

def atEthertype (s : VlanUnit) (snk : InternalFabric) : Bool := s.hdrOffset.getLsbD 6 && snk.dvalid

def atVid (s : VlanUnit) (snk : InternalFabric) : Bool := s.hdrOffset.getLsbD 7 && snk.dvalid && s.isTagged

def withVid (fab : InternalFabric) (vid : BitVec 12) : InternalFabric :=
  { fab with data := fab.data.extractLsb' 12 4 ++ vid }

/-- The branch `DATA` until the next state is known: the variables and registers it sets, with
`v_next_state` in `state` and `v_dreq_mask` in `dreqMask`. -/
def takeWord (s : VlanUnit) (snk : InternalFabric) (srcDreq : Bool) : VlanUnit :=
  let s := { s with dreqMask := true, vSrcFab := { s.vSrcFab with eof := false, error := false }, state := .data }
  if snk.dvalid && !srcDreq then
    { s with
      vStoredFab := { s.vStoredFab with
        bytesel := snk.bytesel, data := snk.data, addr := snk.addr, dvalid := true }
      state := .flushStall }
  else
    { s with vSrcFab := { s.vSrcFab with
        addr := snk.addr, data := snk.data, dvalid := srcDreq && snk.dvalid, bytesel := snk.bytesel } }

def seeEthertype (s : VlanUnit) (regs : VlanRegs) (data : BitVec 16) : VlanUnit :=
  let s := { s with storedEthertype := data }
  if data == 0x8100 then { s with isTagged := true }
  else
    match regs.qmode with
    | .access =>
        { s with
          prioInt := regs.prioVal, isTagInserted := true, vSrcFab := { s.vSrcFab with dvalid := false }
          state := .insertTag, dreqMask := false, isTagged := false }
    | .trunk =>
        { s with vSrcFab := { s.vSrcFab with dvalid := false }, state := .discardFrame, isTagged := false }
    | _ => { s with isTagged := false }

def seeEof (s : VlanUnit) (srcDreq : Bool) : VlanUnit :=
  if srcDreq then { s with vSrcFab := { s.vSrcFab with eof := true }, state := .waitFrame }
  else { s with state := .endFrame }

def seeVid (s : VlanUnit) (regs : VlanRegs) (tagType : TagType) (data : BitVec 16) : VlanUnit :=
  let decision := fVlanDecision tagType regs.qmode
  let s := if decision.admits then s else { s with state := .discardFrame }
  let s := if decision.usePvid then
      { s with vStoredFab := withVid s.vStoredFab regs.pvid, vSrcFab := withVid s.vSrcFab regs.pvid }
    else s
  { s with
    vid := s.vSrcFab.data.extractLsb' 0 12
    prioInt := if regs.fixPrio || decision.useFixedPrio then regs.prioVal else data.extractLsb' 13 3 }

def passOn (s : VlanUnit) : VlanUnit :=
  { s with
    src := if s.state == .insertTag then
        { s.src with
          eof := false, dvalid := true, error := false, addr := cWrfData, data := 0x8100, bytesel := false }
      else
        { s.src with
          eof := s.vSrcFab.eof, dvalid := s.vSrcFab.dvalid, error := s.vSrcFab.error, addr := s.vSrcFab.addr
          data := s.vSrcFab.data, bytesel := s.vSrcFab.bytesel }
    storedFab := s.vStoredFab }

def data (s : VlanUnit) (regs : VlanRegs) (snk : InternalFabric) (srcDreq : Bool) : VlanUnit :=
  let v := s.takeWord snk srcDreq
  let v := if s.atEthertype snk then v.seeEthertype regs snk.data else v
  let v := if snk.eof then v.seeEof srcDreq else v
  let v := if s.atVid snk then v.seeVid regs (combTagType s.isTagged snk.data) snk.data else v
  { v with hdrOffset := if snk.dvalid then s.hdrOffset <<< 1 else s.hdrOffset }.passOn

def insertTag (s : VlanUnit) (regs : VlanRegs) (snk : InternalFabric) (srcDreq : Bool) : VlanUnit :=
  let quiet := { s with src := { s.src with dvalid := false } }
  if !srcDreq then quiet
  else
    let v := if s.hdrOffset.getLsbD 7 then
        { quiet with
          src := { quiet.src with
            addr := cWrfData, data := regs.prioVal ++ 0#1 ++ regs.pvid, dvalid := true }
          vid := regs.pvid, dreqMask := false
          storedFab := { quiet.storedFab with
            bytesel := snk.bytesel, data := snk.data, addr := snk.addr, dvalid := snk.dvalid } }
      else quiet
    let v := if s.hdrOffset.getLsbD 8 then
        { v with
          src := { v.src with addr := cWrfData, data := s.storedEthertype, dvalid := true }, dreqMask := true }
      else v
    let v := if s.hdrOffset.getLsbD 9 then
        { v with
          src := { v.src with
            addr := s.storedFab.addr, data := s.storedFab.data, dvalid := s.storedFab.dvalid
            bytesel := s.storedFab.bytesel }
          dreqMask := true, state := .data }
      else v
    { v with hdrOffset := s.hdrOffset <<< 1 }

/-- The process `p_tag_untag`. -/
def tagUntag (s : VlanUnit) (regs : VlanRegs) (snk : InternalFabric) (srcDreq : Bool) : VlanUnit :=
  if snk.error then { s with state := .discardFrame }
  else
    match s.state with
    | .waitFrame =>
        { s with
          dreqMask := true, src := { s.src with eof := false, error := false }, isTagged := false
          isTagInserted := false, prioInt := regs.prioVal, vid := 0
          hdrOffset := if snk.sof then 1 else s.hdrOffset
          state := if snk.sof then .data else .waitFrame }
    | .data => s.data regs snk srcDreq
    | .endFrame =>
        if srcDreq then { s with src := { s.src with eof := true, dvalid := false }, state := .waitFrame } else s
    | .discardFrame =>
        if srcDreq then { s with src := { s.src with error := true, dvalid := false }, state := .waitFrame } else s
    | .flushStall =>
        if srcDreq then
          { s with
            src := { s.src with
              addr := s.storedFab.addr, data := s.storedFab.data, dvalid := s.storedFab.dvalid
              bytesel := s.storedFab.bytesel }
            state := .data }
        else { s with src := { s.src with dvalid := false } }
    | .insertTag => s.insertTag regs snk srcDreq

def mapPrio (regs : VlanRegs) (prio : BitVec 3) : BitVec 3 := regs.pcpMap.extractLsb' (3 * prio.toNat) 3

def step (regs : VlanRegs) (s : VlanUnit) (snk : InternalFabric) (srcDreq : Bool) : VlanUnit :=
  let v := s.tagUntag regs snk srcDreq
  if snk.sof then { v with tagDone := false, tclass := 0 }
  else if s.hdrOffset.getLsbD 9 then { v with tagDone := true, tclass := mapPrio regs s.prioInt }
  else v

def snkDreq (s : VlanUnit) (srcDreq : Bool) : Bool := srcDreq && s.dreqMask

def srcFab (s : VlanUnit) (snk : InternalFabric) : InternalFabric := { s.src with sof := snk.sof }

def isTaggedO (s : VlanUnit) : Bool := s.isTagged || s.isTagInserted

end VlanUnit

end WrCores.Endpoint
