import WrCores.Clocked.Simulates
import WrCores.Etherbone.Headers

/-!
eb_slave_fsm.vhd. Every word that is taken pushes one tag, and what the tag needs: a word to pass on, the address of a
configuration register, or a request on the bus. `perform` is what one event of the stream does when nothing stalls;
a run with any stalls performs the same events.
-/

namespace WrCores.Etherbone

open Clocked

/-- `t_tag`. -/
inductive Tag
  | dropTx
  | skipTx
  | passTx
  | passOn
  | cfgReq
  | cfgIgn
  | wbmReq
  | wbmIgn
  deriving DecidableEq, Repr

namespace Tag

def needsPass : Tag → Bool
  | .passTx | .passOn | .cfgIgn | .wbmIgn => true
  | .dropTx | .skipTx | .cfgReq | .wbmReq => false

def needsCfg : Tag → Bool
  | .cfgReq | .cfgIgn => true
  | _ => false

def needsWbm : Tag → Bool
  | .wbmReq | .wbmIgn => true
  | _ => false

end Tag

inductive StateRX
  | ebHdr
  | probeDrop
  | probeId
  | cycHdr
  | wrAdr
  | write
  | rdAdr
  | read
  | drop
  deriving DecidableEq, Repr

structure SlaveFsm where
  rTagStb : Bool
  rTagDat : Tag
  rPassStb : Bool
  rPassDat : Word
  rCfgStb : Bool
  rWbmStb : Bool
  rMasterCyc : Bool
  rMasterStb : Bool
  rMasterWe : Bool
  rMasterAdr : Word
  rMasterDat : Word
  rWrAdr : Word
  rRxRecHdr : RecHdr
  rTxRecHdr : RecHdr
  rRxCyc : Bool
  rState : StateRX

namespace SlaveFsm

structure In where
  rxCyc : Bool
  rxStb : Bool
  rxDat : Word
  tagFull : Bool
  passFull : Bool
  cfgFull : Bool
  wbmFull : Bool
  wbmBusy : Bool
  masterStall : Bool

def reset : SlaveFsm where
  rTagStb := false
  rTagDat := .dropTx
  rPassStb := false
  rPassDat := 0
  rCfgStb := false
  rWbmStb := false
  rMasterCyc := false
  rMasterStb := false
  rMasterWe := false
  rMasterAdr := 0
  rMasterDat := 0
  rWrAdr := 0
  rRxRecHdr := cRecInit
  rTxRecHdr := cRecInit
  rRxCyc := false
  rState := .ebHdr

/-- Push a tag and a word. -/
def pass (s : SlaveFsm) (tag : Tag) (dat : Word) : SlaveFsm :=
  { s with rTagStb := true, rTagDat := tag, rPassStb := true, rPassDat := dat }

def acceptEbHdr (s : SlaveFsm) (d : Word) : SlaveFsm :=
  let rx := fParseEb d
  if rx.magic = cEbMagic ∧ rx.ver = cEbVer then
    { if rx.noResponse then { s with rTagStb := true, rTagDat := .skipTx }
      else s.pass .passTx (fFormatEb (fReplyEb rx)) with
      rState :=
        if rx.probe then if rx.addrSize.getLsbD 2 && rx.dataSize.getLsbD 2 then .probeId else .probeDrop
        else if rx.addrSize = 0x4 ∨ rx.dataSize = 0x4 then .cycHdr else .drop }
  else { s with rTagStb := true, rTagDat := .skipTx, rState := .drop }

def acceptRecHdr (s : SlaveFsm) (d : Word) : SlaveFsm :=
  let rx := fParseRec d
  let tx := fReplyRec rx
  { s.pass .passOn (if rx.wrCnt ≠ 0 then 0 else fFormatRec tx) with
    rTxRecHdr := tx
    rRxRecHdr := rx
    rMasterCyc := if rx.wrCnt = 0 ∧ rx.rdCnt = 0 then s.rMasterCyc && !rx.dropCyc else s.rMasterCyc
    rState := if rx.wrCnt ≠ 0 then .wrAdr else if rx.rdCnt ≠ 0 then .rdAdr else .cycHdr }

def acceptWrite (s : SlaveFsm) (d : Word) : SlaveFsm :=
  let rx := s.rRxRecHdr
  { s.pass (if rx.wcaCfg then .cfgIgn else .wbmIgn) (if rx.wrCnt ≠ 1 then 0 else fFormatRec s.rTxRecHdr) with
    rMasterWe := true
    rMasterAdr := s.rWrAdr
    rMasterDat := d
    rWrAdr := if rx.wrFifo then s.rWrAdr else s.rWrAdr + 4
    rCfgStb := rx.wcaCfg
    rWbmStb := !rx.wcaCfg
    rMasterStb := if rx.wcaCfg then s.rMasterStb else true
    -- the last assignment wins: the last write of a record does not raise the cycle
    rMasterCyc :=
      if rx.wrCnt = 1 ∧ rx.rdCnt = 0 then s.rMasterCyc && !rx.dropCyc
      else if rx.wcaCfg then s.rMasterCyc else true
    rState := if rx.wrCnt ≠ 1 then .write else if rx.rdCnt ≠ 0 then .rdAdr else .cycHdr
    rRxRecHdr := { rx with wrCnt := rx.wrCnt - 1 } }

def acceptRead (s : SlaveFsm) (d : Word) : SlaveFsm :=
  let rx := s.rRxRecHdr
  { s with
    rMasterWe := false
    rMasterAdr := d
    rTagStb := true
    rTagDat := if rx.rcaCfg then .cfgReq else .wbmReq
    rCfgStb := rx.rcaCfg
    rWbmStb := !rx.rcaCfg
    rMasterStb := if rx.rcaCfg then s.rMasterStb else true
    rMasterCyc :=
      if rx.rdCnt = 1 then s.rMasterCyc && !rx.dropCyc else if rx.rcaCfg then s.rMasterCyc else true
    rState := if rx.rdCnt = 1 then .cycHdr else .read
    rRxRecHdr := { rx with rdCnt := rx.rdCnt - 1 } }

/-- What the process does with a word. -/
def accept (s : SlaveFsm) (d : Word) : SlaveFsm :=
  match s.rState with
  | .ebHdr => s.acceptEbHdr d
  | .probeDrop => { s.pass .passOn d with rState := .drop }
  | .probeId => { s.pass .passOn d with rState := .cycHdr }
  | .cycHdr => s.acceptRecHdr d
  | .wrAdr => { s.pass .passOn 0 with rWrAdr := d, rState := .write }
  | .write => s.acceptWrite d
  | .rdAdr => { s.pass .passOn d with rState := .read }
  | .read => s.acceptRead d
  | .drop => s.pass .passOn 0

/-- The end of the stream. -/
def terminate (s : SlaveFsm) : SlaveFsm := { s with rState := .ebHdr, rMasterCyc := false }

/-- The strobes at the edge: none, but that of a request which is not queued yet. -/
def lower (s : SlaveFsm) (stalled : Bool) : SlaveFsm :=
  { s with
    rTagStb := false
    rPassStb := false
    rCfgStb := false
    rWbmStb := false
    rMasterStb := s.rMasterStb && stalled }

section Source

variable (s : SlaveFsm) (i : In)

def sWbmBusy : Bool := i.wbmBusy || s.rWbmStb

def sStall : Bool :=
  i.tagFull || i.passFull || i.cfgFull || i.wbmFull || (s.rMasterStb && i.masterStall) ||
    (!s.rMasterCyc && s.sWbmBusy i)

def step : SlaveFsm :=
  let next :=
    if i.rxCyc = false then
      if s.rRxCyc then { (s.lower i.masterStall).terminate with rTagStb := true, rTagDat := .dropTx }
      else (s.lower i.masterStall).terminate
    else if i.rxStb = true ∧ s.sStall i = false then (s.lower i.masterStall).accept i.rxDat
    else s.lower i.masterStall
  { next with rRxCyc := i.rxCyc }

def masterCyc : Bool := s.rMasterCyc || s.sWbmBusy i

def masterSel : BitVec 4 := s.rRxRecHdr.sel.extractLsb 3 0

end Source

/-! ### What is pushed -/

/-- The register of the configuration space. -/
def cfgAdr (adr : Word) : BitVec 3 := adr.extractLsb 4 2

/-- A tag with what it needs. -/
inductive Entry
  | dropTx
  | skipTx
  | passTx (dat : Word)
  | passOn (dat : Word)
  | cfgReq (adr : BitVec 3)
  | cfgIgn (dat : Word) (adr : BitVec 3)
  | wbmReq
  | wbmIgn (dat : Word)
  deriving DecidableEq, Repr

inductive Op
  | write (adr dat : Word) (sel : BitVec 4)
  | read (adr : Word) (sel : BitVec 4)
  deriving DecidableEq, Repr

inductive Event
  | word (d : Word)
  | ending
  deriving DecidableEq, Repr

section Pushed

variable (s : SlaveFsm) (i : In)

def entry : Entry :=
  match s.rTagDat with
  | .dropTx => .dropTx
  | .skipTx => .skipTx
  | .passTx => .passTx s.rPassDat
  | .passOn => .passOn s.rPassDat
  | .cfgReq => .cfgReq (cfgAdr s.rMasterAdr)
  | .cfgIgn => .cfgIgn s.rPassDat (cfgAdr s.rMasterAdr)
  | .wbmReq => .wbmReq
  | .wbmIgn => .wbmIgn s.rPassDat

def op : Op :=
  if s.rMasterWe then .write s.rMasterAdr s.rMasterDat s.masterSel else .read s.rMasterAdr s.masterSel

/-- What the registers push at the next edge. -/
def pushed : List Entry := if s.rTagStb then [s.entry] else []

/-- The request that has been made at this edge. -/
def asked : List Op := if s.rWbmStb then [s.op] else []

/-- The request that the bus has not taken. -/
def pending : List Op := if s.rMasterStb then [s.op] else []

/-- The request that the bus takes. -/
def taken : List Op := if s.rMasterStb && !i.masterStall then [s.op] else []

/-- The events of the stream. -/
def events : List Event :=
  if i.rxCyc = false then if s.rRxCyc then [.ending] else []
  else if i.rxStb = true ∧ s.sStall i = false then [.word i.rxDat] else []

/-- What is left when all strobes are low. -/
def quiet : SlaveFsm := { s.lower false with rMasterStb := false, rRxCyc := false }

/-- An event that nothing stalls. -/
def perform : Event → SlaveFsm
  | .word d => s.quiet.accept d
  | .ending => { s.quiet.terminate with rTagStb := true, rTagDat := .dropTx }

end Pushed

/-- What is left after an event. -/
def act (s : SlaveFsm) (e : Event) : SlaveFsm := (s.perform e).quiet

def pushes (s : SlaveFsm) (e : Event) : List Entry := (s.perform e).pushed

def asks (s : SlaveFsm) (e : Event) : List Op := (s.perform e).asked

variable (s : SlaveFsm) (i : In)

theorem accept_rxCyc (b : Bool) (d : Word) :
    accept { s with rRxCyc := b } d = { s.accept d with rRxCyc := b } := by
  obtain ⟨_, _, _, _, _, _, _, _, _, _, _, _, _, _, _, state⟩ := s
  cases state
  case ebHdr =>
    simp only [accept, acceptEbHdr]
    split_ifs <;> rfl
  all_goals rfl

/-- A request is made together with its tag. -/
theorem accept_masterStb (d : Word) (low : s.rWbmStb = false) :
    (s.accept d).rMasterStb = (s.rMasterStb || (s.accept d).rWbmStb) := by
  unfold accept
  cases s.rState
  case ebHdr =>
    simp only [acceptEbHdr]
    split_ifs <;> simp [pass, low]
  case write => cases cfg : s.rRxRecHdr.wcaCfg <;> simp [acceptWrite, pass, cfg]
  case read => cases cfg : s.rRxRecHdr.rcaCfg <;> simp [acceptRead, cfg]
  all_goals simp [acceptRecHdr, pass, low]

/-- What a tag needs is pushed with it, and nothing else. -/
structure Agree (s : SlaveFsm) : Prop where
  pass : s.rPassStb = (s.rTagStb && s.rTagDat.needsPass)
  cfg : s.rCfgStb = (s.rTagStb && s.rTagDat.needsCfg)
  wbm : s.rWbmStb = (s.rTagStb && s.rTagDat.needsWbm)

/-- Every word pushes one tag. A packet begins, or is skipped, only at the first word of a stream. -/
theorem perform_word (d : Word) :
    (s.perform (.word d)).rTagStb = true ∧ (s.perform (.word d)).Agree ∧ (s.perform (.word d)).rState ≠ .ebHdr ∧
      ((s.perform (.word d)).rTagDat = .skipTx ∨ (s.perform (.word d)).rTagDat = .passTx → s.rState = .ebHdr) := by
  obtain ⟨_, _, _, _, _, _, _, _, _, _, _, _, rx, _, _, state⟩ := s
  cases state
  case ebHdr =>
    refine ⟨?_, ⟨?_, ?_, ?_⟩, ?_, fun _ => rfl⟩
    all_goals
      simp only [perform, accept, quiet, lower, acceptEbHdr]
      split_ifs <;> simp [pass, Tag.needsPass, Tag.needsCfg, Tag.needsWbm]
  case cycHdr =>
    refine ⟨rfl, ⟨rfl, rfl, rfl⟩, ?_, by rintro (tag | tag) <;> cases tag⟩
    simp only [perform, accept, quiet, lower, acceptRecHdr]
    split_ifs <;> exact nofun
  case write =>
    refine ⟨rfl, ⟨?_, ?_, ?_⟩, ?_, ?_⟩
    case refine_4 =>
      change (if rx.wrCnt ≠ 1 then StateRX.write else if rx.rdCnt ≠ 0 then .rdAdr else .cycHdr) ≠ .ebHdr
      split_ifs <;> exact nofun
    all_goals
      simp only [perform, accept, quiet, lower, acceptWrite, pass]
      split_ifs with cfg <;> simp [Tag.needsPass, Tag.needsCfg, Tag.needsWbm, cfg]
  case read =>
    refine ⟨rfl, ⟨?_, ?_, ?_⟩, ?_, ?_⟩
    case refine_4 =>
      change (if rx.rdCnt = 1 then StateRX.cycHdr else .read) ≠ .ebHdr
      split_ifs <;> exact nofun
    all_goals
      simp only [perform, accept, quiet, lower, acceptRead]
      split_ifs with cfg <;> simp [Tag.needsPass, Tag.needsCfg, Tag.needsWbm, cfg]
  all_goals exact ⟨rfl, ⟨rfl, rfl, rfl⟩, nofun, by rintro (tag | tag) <;> cases tag⟩

/-- Outside a stream the machine waits for a header. -/
def Inv : Prop := s.rRxCyc = false → s.rState = .ebHdr ∧ s.rMasterCyc = false

/-- What an edge does. -/
theorem step_cases : (∃ d, s.events i = [.word d] ∧ (s.rMasterStb && i.masterStall) = false ∧
      s.step i = { s.perform (.word d) with rRxCyc := true }) ∨
    (s.events i = [.ending] ∧
      s.step i = { s.perform .ending with rMasterStb := s.rMasterStb && i.masterStall }) ∨
    (s.events i = [] ∧ i.rxCyc = false ∧ s.rRxCyc = false ∧ s.step i = (s.lower i.masterStall).terminate) ∨
    (s.events i = [] ∧ i.rxCyc = true ∧ s.step i = { s.lower i.masterStall with rRxCyc := true }) := by
  simp only [events, step]
  cases cyc : i.rxCyc with
  | false =>
      cases past : s.rRxCyc with
      | false => exact .inr (.inr (.inl (by simp [terminate, lower, past])))
      | true => exact .inr (.inl (by simp [perform, terminate, lower, quiet]))
  | true =>
      by_cases taken : i.rxStb = true ∧ s.sStall i = false
      · have free : (s.rMasterStb && i.masterStall) = false := by
          have none := taken.2
          simp only [sStall, Bool.or_eq_false_iff] at none
          exact none.1.2
        refine .inl ⟨i.rxDat, by simp [taken], by simp [free], ?_⟩
        have lowered : s.lower i.masterStall = { s.quiet with rRxCyc := s.rRxCyc } := by
          simp [lower, quiet, free]
        simp [taken, lowered, accept_rxCyc, perform]
      · exact .inr (.inr (.inr (by simp [taken])))

theorem inv_reset : reset.Inv := fun _ => ⟨rfl, rfl⟩

theorem step_inv : (s.step i).Inv := by
  intro low
  rcases s.step_cases i with ⟨d, -, -, moves⟩ | ⟨-, moves⟩ | ⟨-, -, -, moves⟩ | ⟨-, -, moves⟩ <;> rw [moves] at low ⊢
  · cases low
  · exact ⟨rfl, rfl⟩
  · exact ⟨rfl, rfl⟩
  · cases low

/-- A run with stalls performs the events of its stream. -/
theorem simulates : Simulates step act quiet events Inv where
  kept s i _ := s.step_inv i
  moves s i inv := by
    rcases s.step_cases i with ⟨d, event, -, moves⟩ | ⟨event, moves⟩ | ⟨event, -, low, moves⟩ | ⟨event, -, moves⟩
      <;> rw [event, moves]
    · rfl
    · rfl
    · obtain ⟨state, cyc⟩ := inv low
      simp [quiet, terminate, lower, state, cyc]
    · rfl

/-- An edge pushes nothing, or the end of a packet, or what a word needs, where there is room for it. -/
theorem step_pushes (inv : s.Inv) : (s.step i).Agree ∧
    (((s.step i).rTagStb = false ∧ ((s.step i).rState = .ebHdr → s.rState = .ebHdr)) ∨
      s.events i ≠ [] ∧ (s.step i).rTagStb = true ∧ ((s.step i).rTagDat = .dropTx ∨
        (s.step i).rState ≠ .ebHdr ∧
          ((s.step i).rTagDat = .skipTx ∨ (s.step i).rTagDat = .passTx → s.rState = .ebHdr) ∧
          i.passFull = false ∧ i.cfgFull = false ∧ i.wbmFull = false)) := by
  rcases s.step_cases i with ⟨d, event, -, moves⟩ | ⟨event, moves⟩ | ⟨-, -, low, moves⟩ | ⟨-, -, moves⟩ <;> rw [moves]
  · obtain ⟨pushed, agree, state, skip⟩ := s.perform_word d
    have free : s.sStall i = false := by
      by_contra stalls
      simp only [events, stalls, and_false, if_false] at event
      split_ifs at event
      all_goals cases event
    simp only [sStall, Bool.or_eq_false_iff] at free
    exact ⟨⟨agree.pass, agree.cfg, agree.wbm⟩, .inr ⟨by simp [event], pushed, .inr
      ⟨state, skip, free.1.1.1.1.2, free.1.1.1.2, free.1.1.2⟩⟩⟩
  · exact ⟨⟨rfl, rfl, rfl⟩, .inr ⟨by simp [event], rfl, .inl rfl⟩⟩
  · exact ⟨⟨rfl, rfl, rfl⟩, .inl ⟨rfl, fun _ => (inv low).1⟩⟩
  · exact ⟨⟨rfl, rfl, rfl⟩, .inl ⟨rfl, id⟩⟩

theorem pushed_step : (s.step i).pushed = collect act pushes s.quiet (s.events i) := by
  rcases s.step_cases i with ⟨d, event, -, moves⟩ | ⟨event, moves⟩ | ⟨event, -, -, moves⟩ | ⟨event, -, moves⟩
    <;> rw [event, moves] <;> simp [collect_cons, collect_nil, pushes, pushed, entry, perform, terminate, lower, quiet]

theorem asked_step : (s.step i).asked = collect act asks s.quiet (s.events i) := by
  rcases s.step_cases i with ⟨d, event, -, moves⟩ | ⟨event, moves⟩ | ⟨event, -, -, moves⟩ | ⟨event, -, moves⟩
    <;> rw [event, moves] <;>
    simp [collect_cons, collect_nil, asks, asked, op, masterSel, perform, terminate, lower, quiet]

/-- The bus takes the requests one after the other. -/
theorem pending_step : s.pending ++ (s.step i).asked = s.taken i ++ (s.step i).pending := by
  rcases s.step_cases i with ⟨d, -, free, moves⟩ | ⟨-, moves⟩ | ⟨-, -, -, moves⟩ | ⟨-, -, moves⟩ <;> rw [moves]
  · have now : s.pending = s.taken i := by cases stb : s.rMasterStb <;> simp_all [pending, taken]
    have same := s.quiet.accept_masterStb d rfl
    rw [now]
    exact congrArg (s.taken i ++ ·) (by rw [asked, pending, perform, same]; rfl)
  all_goals
    cases stb : s.rMasterStb <;> cases stall : i.masterStall <;>
      simp [pending, taken, asked, perform, terminate, lower, quiet, op, masterSel, stb, stall]

variable (inputs : List In)

theorem pending_run : s.pending ++ collect step (fun s i => (s.step i).asked) s inputs =
    collect step taken s inputs ++ (run step s inputs).pending :=
  Along.conserves (fun _ => True) pending _ _ (fun _ _ _ _ => trivial) (fun s i _ _ => s.pending_step i) trivial
    (along_of_forall (fun _ _ => trivial) s inputs)

end SlaveFsm

end WrCores.Etherbone
