import WrCores.Endpoint.TxHeaderRuns

/-!
The timestamps that ep_tx_header_processor.vhd reports. The OOB words of a frame are collected beside the main FSM, also
while the frame is padded and in the gap behind it, and are forgotten when the next header starts.
-/

namespace WrCores.Endpoint.TxHeader

open Clocked Fabric

/-- The first OOB word asks for a timestamp, the second is the frame's id. -/
def block (ws : List Word) : Option (BitVec 16) :=
  match ofAdr cWrfOob ws with
  | kind :: id :: _ => if kind.dat.extractLsb' 12 4 = cWrfOobTypeTx then some id.dat else none
  | _ => none

def gapOver (g : Generics) (s : State) : Prop := g.gForceGapLength ≤ s.counter.toNat ∨ g.gForceGapLength = 0

/-- The second OOB word comes before the framer has left TXF_GAP. -/
def Timely (g : Generics) (p : State × Book) (i : In) : Prop :=
  (p.1.state = .idle ∨ (p.1.state = .gap ∧ gapOver g p.1)) →
    block (p.2.coming.getD [] ++ takes p.1 i) = block (p.2.coming.getD [])

instance (g : Generics) (p : State × Book) (i : In) : Decidable (Timely g p i) := by
  unfold Timely gapOver
  infer_instance

/-- One report for each frame that asked for one, in order; all of them when the next frame starts. -/
structure Reported (s : State) (b : Book) : Prop where
  order : b.stamped <+: (b.done ++ b.coming.toList).filterMap block
  sof : s.srcFab.sof = true → b.stamped = b.done.filterMap block
  idle : s.state = .idle → b.stamped = (b.done ++ b.coming.toList).filterMap block

/-- What an edge does to a report: it is made while the PCS is silent and stands until it is taken. -/
structure Samples (g : Generics) (r : Regs) (s : State) (i : In) : Prop where
  rises : s.txtsuStb = false → (s.step g r i).txtsuStb = true → i.pcsBusy = false ∧
    (s.step g r i).txtsuTsValue = i.txtsTimestamp ∧ (s.step g r i).txtsuTsIncorrect = !i.txtsTimestampValid
  stands : s.txtsuStb = true → i.txtsuAck = false → (s.step g r i).txtsuStb = true ∧
    (s.step g r i).txtsuFid = s.txtsuFid ∧ (s.step g r i).txtsuTsValue = s.txtsuTsValue ∧
      (s.step g r i).txtsuTsIncorrect = s.txtsuTsIncorrect
  falls : s.txtsuStb = true → i.txtsuAck = true → (s.step g r i).txtsuStb = false

/-! ### The OOB words of a frame -/

section Oob

variable {g : Generics} {r : Regs} {s : State} {i : In} {ws more : List Word}

/-- A block that is complete stays as it is. -/
theorem block_grows {id : BitVec 16} (some : block ws = some id) : block (ws ++ more) = .some id := by
  rw [block] at some
  rw [block, ofAdr_append]
  match words : ofAdr cWrfOob ws with
  | [] => simp [words] at some
  | [kind] => simp [words] at some
  | kind :: second :: rest =>
      rw [words] at some
      exact some

/-- What the OOB FSM knows of a frame. -/
def Collects (s : State) (ws : List Word) : Prop :=
  match ofAdr cWrfOob ws with
  | [] => s.oobState = .oob1 ∧ s.oobValid = false
  | [kind] => s.oobState = .oob2 ∧ s.oobValid = false ∧ s.oobType = kind.dat.extractLsb' 12 4
  | kind :: id :: _ =>
      if kind.dat.extractLsb' 12 4 = cWrfOobTypeTx then
        s.oobState = .oobIdle ∧ s.oobValid = true ∧ s.oobType = cWrfOobTypeTx ∧ s.oobFrameId = id.dat
      else s.oobState = .oob2 ∧ s.oobValid = false ∧ s.oobType ≠ cWrfOobTypeTx

theorem Collects.wants (collects : Collects s ws) : s.wantsTstamp = (block ws).isSome := by
  rw [Collects] at collects
  rw [State.wantsTstamp, block]
  match words : ofAdr cWrfOob ws with
  | [] => simp only [words] at collects; simp [collects]
  | [kind] => simp only [words] at collects; simp [collects]
  | kind :: id :: _ =>
      simp only [words] at collects
      split at collects
      · rename_i tx
        simp [collects, tx]
      · rename_i other
        simp [collects, other]

theorem Collects.id (collects : Collects s ws) {id : BitVec 16} (some : block ws = some id) : s.oobFrameId = id := by
  rw [Collects] at collects
  rw [block] at some
  match words : ofAdr cWrfOob ws with
  | [] => simp [words] at some
  | [kind] => simp [words] at some
  | kind :: second :: _ =>
      simp only [words] at collects some
      split at collects
      · rename_i tx
        rw [if_pos tx] at some
        exact collects.2.2.2.trans (Option.some.inj some)
      · rename_i other
        rw [if_neg other] at some
        exact absurd some (by simp)

/-- A header makes it forget what it had. -/
theorem collects_addr (stamps : g.gWithTimestamper = true) (state : s.state = .addr) (none : ofAdr cWrfOob ws = []) :
    Collects (s.step g r i) ws := by
  simp [Collects, none, State.step, State.oobFsm, stamps, state]

theorem collects_step (stamps : g.gWithTimestamper = true) (state : s.state ≠ .addr) (collects : Collects s ws) :
    Collects (s.step g r i) (ws ++ takes s i) := by
  have fsm : s.oobFsm g i = ((s.step g r i).oobState, (s.step g r i).oobValid, (s.step g r i).oobType,
      (s.step g r i).oobFrameId) := rfl
  simp only [State.oobFsm, stamps, Bool.not_true, Bool.false_eq_true, if_false, state] at fsm
  by_cases comes : s.snkValid i = true ∧ i.wbSnk.adr = cWrfOob
  · have oob : i.wbSnk.word.adr = cWrfOob := comes.2
    rw [Collects, takes_some comes.1, ofAdr_same oob]
    rw [Collects] at collects
    simp only [comes.1, comes.2, beq_self_eq_true, Bool.and_self, Bool.true_and, if_true, beq_iff_eq] at fsm
    match words : ofAdr cWrfOob ws with
    | [] =>
        simp only [words] at collects
        simp only [collects.1, Prod.mk.injEq] at fsm
        exact ⟨fsm.1.symm, fsm.2.1.symm, fsm.2.2.1.symm⟩
    | [kind] =>
        simp only [words] at collects
        simp only [collects.1] at fsm
        simp only [List.cons_append, List.nil_append]
        split at fsm
        · rename_i tx
          simp only [Prod.mk.injEq] at fsm
          rw [if_pos (collects.2.2.symm.trans tx)]
          exact ⟨fsm.1.symm, fsm.2.1.symm, fsm.2.2.1.symm.trans tx, fsm.2.2.2.symm⟩
        · rename_i other
          simp only [Prod.mk.injEq] at fsm
          rw [if_neg (fun tx => other (collects.2.2.trans tx))]
          exact ⟨fsm.1.symm, fsm.2.1.symm.trans collects.2.1, by rw [← fsm.2.2.1]; exact other⟩
    | kind :: id :: rest =>
        simp only [words] at collects
        simp only [List.cons_append]
        split at collects
        · rename_i tx
          simp only [collects.1, Prod.mk.injEq] at fsm
          rw [if_pos tx]
          exact ⟨fsm.1.symm, fsm.2.1.symm.trans collects.2.1, fsm.2.2.1.symm.trans collects.2.2.1,
            fsm.2.2.2.symm.trans collects.2.2.2⟩
        · rename_i other
          simp only [collects.1, collects.2.2, if_false, Prod.mk.injEq] at fsm
          rw [if_neg other]
          exact ⟨fsm.1.symm, fsm.2.1.symm.trans collects.2.1, by rw [← fsm.2.2.1]; exact collects.2.2⟩
  · have none : (s.snkValid i && i.wbSnk.adr == cWrfOob) = false := by
      rw [← Bool.not_eq_true, Bool.and_eq_true, beq_iff_eq]
      exact comes
    have same : ofAdr cWrfOob (ws ++ takes s i) = ofAdr cWrfOob ws := by
      cases valid : s.snkValid i with
      | false => rw [takes_none valid, List.append_nil]
      | true => rw [takes_some valid, ofAdr_other (fun oob => comes ⟨valid, oob⟩)]
    have kept : (s.step g r i).oobState = s.oobState ∧ (s.step g r i).oobValid = s.oobValid ∧
        (s.step g r i).oobType = s.oobType ∧ (s.step g r i).oobFrameId = s.oobFrameId := by
      simp only [none, Bool.false_and, Bool.false_eq_true, if_false] at fsm
      cases phase : s.oobState <;> simp only [phase, Prod.mk.injEq] at fsm <;>
        exact ⟨fsm.1.symm, fsm.2.1.symm, fsm.2.2.1.symm, fsm.2.2.2.symm⟩
    rw [Collects, same, kept.1, kept.2.1, kept.2.2.1, kept.2.2.2]
    exact collects

end Oob

/-! ### The frame that the framer is with -/

/-- Behind `front` the framer is with `cur`: its cycle goes on, or has ended, and the next may have begun. -/
def With (b : Book) (front : List (List Word)) (cur : List Word) : Prop :=
  (b.coming = some cur ∧ b.done = front) ∨ (b.done = front ++ [cur] ∧ (b.coming = none ∨ b.coming = some []))

/-- A start that is remembered is that of a cycle without words so far. -/
def Waits (s : State) (b : Book) : Prop := s.sofReg = true → b.coming = some []

structure Settled (s : State) (b : Book) : Prop where
  state : s.state = .idle
  stb : s.txtsuStb = false
  sof : s.srcFab.sof = false
  waits : Waits s b
  stamped : b.stamped = (b.done ++ b.coming.toList).filterMap block

structure Heading (s : State) (b : Book) (ws : List Word) : Prop where
  state : s.state = .addr
  stb : s.txtsuStb = false
  coming : b.coming = some ws
  oob : ofAdr cWrfOob ws = []
  count : s.counter.toNat = (ofAdr cWrfData ws).length
  short : (ofAdr cWrfData ws).length < 6
  stamped : b.stamped = b.done.filterMap block
  mode : s.txPauseMode = false

structure Collecting (s : State) (b : Book) (ws : List Word) : Prop where
  state : s.state = .data
  stb : s.txtsuStb = false
  sof : s.srcFab.sof = false
  sofReg : s.sofReg = false
  coming : b.coming = some ws
  collects : Collects s ws
  stamped : b.stamped = b.done.filterMap block

structure Closing (s : State) (b : Book) (front : List (List Word)) (cur : List Word) : Prop where
  state : s.state = .pad ∨ s.state = .gap
  stb : s.txtsuStb = false
  sof : s.srcFab.sof = false
  waits : Waits s b
  here : With b front cur
  collects : Collects s cur
  stamped : b.stamped = front.filterMap block

structure Reporting (s : State) (b : Book) (front : List (List Word)) (cur : List Word) : Prop where
  state : s.state = .storeTstamp
  stb : s.txtsuStb = true
  sof : s.srcFab.sof = false
  waits : Waits s b
  here : With b front cur
  id : block cur = some s.txtsuFid
  stamped : b.stamped = front.filterMap block

def Phased (s : State) (b : Book) : Prop :=
  Settled s b ∨ (∃ ws, Heading s b ws) ∨ (∃ ws, Collecting s b ws) ∨ (∃ front cur, Closing s b front cur) ∨
    ∃ front cur, Reporting s b front cur

section Stamping

variable {g : Generics} {r : Regs} {s : State} {b : Book} {i : In} {ws cur : List Word} {front : List (List Word)}

theorem With.blocks (here : With b front cur) :
    (b.done ++ b.coming.toList).filterMap block = (front ++ [cur]).filterMap block := by
  rcases here with ⟨coming, done⟩ | ⟨done, coming | coming⟩
  · rw [coming, done]
    rfl
  · rw [coming, done, Option.toList_none, List.append_nil]
  · have empty : block [] = none := rfl
    rw [coming, done, Option.toList_some, List.filterMap_append, List.filterMap_cons_none empty, List.filterMap_nil,
      List.append_nil]

theorem takes_low (low : i.wbSnk.cyc = false) : takes s i = [] := takes_none (by simp [State.snkValid, low])

theorem next_high (high : i.wbSnk.cyc = true) : (b.next true s i).coming = some (b.coming.getD [] ++ takes s i) := by
  simp [Book.next, high]

theorem next_low (low : i.wbSnk.cyc = false) : (b.next true s i).coming = none := by simp [Book.next, low]

theorem done_on (on : s.eofP1 i = false) : (b.next true s i).done = b.done := by simp [Book.next, on]

theorem stamped_same (stb : s.txtsuStb = false) : (b.next true s i).stamped = b.stamped := by simp [Book.next, stb]

/-- A cycle of which nothing has come goes on. -/
theorem coming_high (frames : Frames s b i) (cyc : s.snkCycD0 = b.coming.isSome) (coming : b.coming = some []) :
    i.wbSnk.cyc = true ∧ s.eofP1 i = false := by
  have before : s.snkCycD0 = true := by rw [cyc, coming]; rfl
  exact frames.goes_on before (by rw [coming]; decide)

theorem with_step (here : With b front cur) (frames : Frames s b i) (cyc : s.snkCycD0 = b.coming.isSome)
    (still : b.coming.getD [] = [] → takes s i = []) : With (b.next true s i) front (cur ++ takes s i) := by
  rcases here with ⟨coming, done⟩ | ⟨done, coming | coming⟩
  · have before : s.snkCycD0 = true := by rw [cyc, coming]; rfl
    cases high : i.wbSnk.cyc with
    | true =>
        have on : s.eofP1 i = false := eof_high high
        exact .inl ⟨by rw [next_high high, coming]; rfl, by rw [done_on on, done]⟩
    | false =>
        have ends : s.eofP1 i = true := eof_low before high
        refine .inr ⟨?_, .inl (next_low high)⟩
        rw [takes_low high, List.append_nil]
        simp [Book.next, ends, coming, done]
  · have on : s.eofP1 i = false := eof_none (by rw [cyc, coming]; rfl)
    have quiet := still (by rw [coming]; rfl)
    refine .inr ⟨by rw [done_on on, done, quiet, List.append_nil], ?_⟩
    cases high : i.wbSnk.cyc with
    | true => exact .inr (by rw [next_high high, coming, quiet]; rfl)
    | false => exact .inl (next_low high)
  · obtain ⟨high, on⟩ := coming_high frames cyc coming
    have quiet := still (by rw [coming]; rfl)
    exact .inr ⟨by rw [done_on on, done, quiet, List.append_nil], .inr (by rw [next_high high, coming, quiet]; rfl)⟩

theorem waits_step (waits : Waits s b) (frames : Frames s b i) (cyc : s.snkCycD0 = b.coming.isSome)
    (still : b.coming.getD [] = [] → takes s i = []) (state : s.state ≠ .addr) :
    Waits (s.step g r i) (b.next true s i) := by
  intro reg
  have either : s.sofP1 i = true ∨ s.sofReg = true := by
    simp only [State.step, state, if_false] at reg
    cases sof : s.sofP1 i with
    | true => exact .inl rfl
    | false =>
        rw [sof, if_neg (by decide)] at reg
        exact .inr reg
  rcases either with sof | reg
  · rw [State.sofP1, Bool.and_eq_true, Bool.not_eq_true', cyc] at sof
    have coming : b.coming = none := by simpa using sof.1
    have quiet := still (by rw [coming]; rfl)
    rw [next_high sof.2, coming, quiet]
    rfl
  · have coming := waits reg
    have quiet := still (by rw [coming]; rfl)
    rw [next_high (coming_high frames cyc coming).1, coming, quiet]
    rfl

theorem Undisturbed.fsm (und : Undisturbed (s, b) i) (going : s.state ≠ .abort) :
    s.txFsm g r i = match s.state with
      | .idle => s.idleStep i
      | .delayedSof => s.delayedSofStep i
      | .addr => s.addrStep g r i
      | .data => s.dataStep g r i
      | .gap => s.gapStep g r i
      | .pad => s.padStep i
      | .abort => s.abortStep
      | .storeTstamp => s.storeTstampStep i :=
  txFsm_quiet und.quiet (Follows.noError und.frames.word) going

theorem step_parts {next : State} (fsm : s.txFsm g r i = next) :
    (s.step g r i).state = next.state ∧ (s.step g r i).txtsuStb = next.txtsuStb ∧
      (s.step g r i).srcFab = next.srcFab ∧ (s.step g r i).txtsuFid = next.txtsuFid := by
  rw [← fsm]
  exact ⟨rfl, rfl, rfl, rfl⟩

theorem step_count {next : State} (fsm : s.txFsm g r i = next) :
    (s.step g r i).counter = next.counter ∧ (s.step g r i).txPauseMode = next.txPauseMode := by
  rw [← fsm]
  exact ⟨rfl, rfl⟩

theorem still_empty (und : Undisturbed (s, b) i)
    (phase : i.srcDreq = false ∨ s.state = .pad ∨ s.state = .gap ∨ s.state = .storeTstamp)
    (empty : b.coming.getD [] = []) : takes s i = [] :=
  takes_none (still_stalled und.quiet und.frames phase (by rw [empty]; decide))

/-- The framer is done with the frame. -/
theorem settle (here : With (b.next true s i) front cur) (waits : Waits (s.step g r i) (b.next true s i))
    (state : (s.step g r i).state = .idle) (stb : (s.step g r i).txtsuStb = false)
    (sof : (s.step g r i).srcFab.sof = false)
    (stamped : (b.next true s i).stamped = (front ++ [cur]).filterMap block) :
    Phased (s.step g r i) (b.next true s i) :=
  .inl ⟨state, stb, sof, waits, by rw [stamped, here.blocks]⟩

theorem pad_stamps (stamps : g.gWithTimestamper = true) (und : Undisturbed (s, b) i)
    (cyc : s.snkCycD0 = b.coming.isSome) (closing : Closing s b front cur) (state : s.state = .pad) :
    Phased (s.step g r i) (b.next true s i) := by
  have fsm : s.txFsm g r i = s.padStep i := by rw [und.fsm (by rw [state]; decide), state]
  have step := step_parts fsm
  have still := still_empty und (.inr (.inl state))
  have other : s.state ≠ .addr := by rw [state]; decide
  refine .inr (.inr (.inr (.inl ⟨front, cur ++ takes s i, ?_⟩)))
  constructor
  case here => exact with_step closing.here und.frames cyc still
  case waits => exact waits_step closing.waits und.frames cyc still other
  case collects => exact collects_step stamps other closing.collects
  case stamped => rw [stamped_same closing.stb, closing.stamped]
  case state =>
    rw [step.1]
    simp only [State.padStep]
    split
    · exact (em _).symm.imp (if_neg ·) (if_pos ·)
    · exact .inl state
  case stb =>
    rw [step.2.1, State.padStep]
    split <;> exact closing.stb
  case sof =>
    rw [step.2.2.1]
    simp only [State.padStep]
    split
    · simp only [apply_ite InternalFabric.sof, ite_self]
      exact closing.sof
    · exact closing.sof

theorem gap_stamps (stamps : g.gWithTimestamper = true) (und : Undisturbed (s, b) i) (timely : Timely g (s, b) i)
    (cyc : s.snkCycD0 = b.coming.isSome) (closing : Closing s b front cur) (state : s.state = .gap) :
    Phased (s.step g r i) (b.next true s i) := by
  have fsm : s.txFsm g r i = s.gapStep g r i := by rw [und.fsm (by rw [state]; decide), state]
  have still := still_empty und (.inr (.inr (.inl state)))
  have other : s.state ≠ .addr := by rw [state]; decide
  have here := with_step closing.here und.frames cyc still
  have waits := waits_step (g := g) (r := r) closing.waits und.frames cyc still other
  have collects := collects_step (r := r) (i := i) stamps other closing.collects
  have stamped : (b.next true s i).stamped = front.filterMap block := by
    rw [stamped_same closing.stb, closing.stamped]
  have step := step_parts fsm
  have sof : (s.step g r i).srcFab.sof = false := by
    rw [step.2.2.1, State.gapStep, State.submits]
    split_ifs <;> exact closing.sof
  by_cases wait : ¬gapOver g s ∨ (s.wantsTstamp = true ∧ i.pcsBusy = true)
  · have stays : (s.gapStep g r i).state = .gap ∧ (s.gapStep g r i).txtsuStb = false := by
      rw [State.gapStep]
      rcases wait with early | ⟨wants, busy⟩
      · have early : ¬(g.gForceGapLength ≤ s.counter.toNat ∨ g.gForceGapLength = 0) := early
        simp [early, state, closing.stb]
      · simp only [wants, busy, if_true]
        split_ifs <;> exact ⟨state, closing.stb⟩
    refine .inr (.inr (.inr (.inl ⟨front, cur ++ takes s i, ?_⟩)))
    exact ⟨.inr (step.1.trans stays.1), step.2.1.trans stays.2, sof, waits, here, collects, stamped⟩
  · rw [not_or, not_not, not_and_or] at wait
    obtain ⟨passed, ready⟩ := wait
    have late : g.gForceGapLength ≤ s.counter.toNat ∨ g.gForceGapLength = 0 := passed
    cases wants : s.wantsTstamp with
    | true =>
        have silent : i.pcsBusy = false := by simpa [wants] using ready
        have next : (s.gapStep g r i).state = .storeTstamp ∧ (s.gapStep g r i).txtsuStb = true ∧
            (s.gapStep g r i).txtsuFid = s.oobFrameId := by
          simp [State.gapStep, State.submits, late, wants, silent]
        obtain ⟨id, some⟩ := Option.isSome_iff_exists.1 (closing.collects.wants.symm.trans wants)
        refine .inr (.inr (.inr (.inr ⟨front, cur ++ takes s i, ?_⟩)))
        refine ⟨step.1.trans next.1, step.2.1.trans next.2.1, sof, waits, here, ?_, stamped⟩
        rw [step.2.2.2, next.2.2, closing.collects.id some]
        exact block_grows some
    | false =>
        have next : (s.gapStep g r i).state = .idle ∧ (s.gapStep g r i).txtsuStb = false := by
          simp [State.gapStep, late, wants, closing.stb]
        refine settle here waits (step.1.trans next.1) (step.2.1.trans next.2) sof ?_
        have none : block (cur ++ takes s i) = none := by
          have before : block cur = none := by
            rw [← Option.not_isSome_iff_eq_none, ← closing.collects.wants, wants]
            decide
          rcases closing.here with ⟨coming, -⟩ | ⟨-, coming⟩
          · have same := timely (.inr ⟨state, passed⟩)
            rw [coming] at same
            exact same.trans before
          · have quiet := still (by rcases coming with coming | coming <;> rw [coming] <;> rfl)
            rw [quiet, List.append_nil, before]
        rw [stamped, List.filterMap_append, List.filterMap_cons_none none, List.filterMap_nil, List.append_nil]

theorem store_stamps (und : Undisturbed (s, b) i) (cyc : s.snkCycD0 = b.coming.isSome)
    (reporting : Reporting s b front cur) : Phased (s.step g r i) (b.next true s i) := by
  have state := reporting.state
  have fsm : s.txFsm g r i = s.storeTstampStep i := by rw [und.fsm (by rw [state]; decide), state]
  have still := still_empty und (.inr (.inr (.inr state)))
  have other : s.state ≠ .addr := by rw [state]; decide
  have here := with_step reporting.here und.frames cyc still
  have waits := waits_step (g := g) (r := r) reporting.waits und.frames cyc still other
  have id : block (cur ++ takes s i) = some s.txtsuFid := block_grows reporting.id
  have step := step_parts fsm
  have sof : (s.step g r i).srcFab.sof = false := by
    rw [step.2.2.1, State.storeTstampStep]
    split <;> exact reporting.sof
  cases ack : i.txtsuAck with
  | true =>
      have next : (s.storeTstampStep i).state = .idle ∧ (s.storeTstampStep i).txtsuStb = false := by
        simp [State.storeTstampStep, ack]
      refine settle here waits (step.1.trans next.1) (step.2.1.trans next.2) sof ?_
      rw [List.filterMap_append, List.filterMap_cons_some id, List.filterMap_nil, ← reporting.stamped]
      simp [Book.next, reporting.stb, ack]
  | false =>
      have next : (s.storeTstampStep i).state = .storeTstamp ∧ (s.storeTstampStep i).txtsuStb = true ∧
          (s.storeTstampStep i).txtsuFid = s.txtsuFid := by
        simp [State.storeTstampStep, ack, state, reporting.stb]
      refine .inr (.inr (.inr (.inr ⟨front, cur ++ takes s i, ?_⟩)))
      refine ⟨step.1.trans next.1, step.2.1.trans next.2.1, sof, waits, here, ?_, ?_⟩
      · rw [step.2.2.2, next.2.2, id]
      · simp [Book.next, ack, reporting.stamped]

/-- The frame's cycle ends, or OOB words of a short one come. -/
theorem data_stamps (stamps : g.gWithTimestamper = true) (und : Undisturbed (s, b) i)
    (cyc : s.snkCycD0 = b.coming.isSome) (collecting : Collecting s b ws) :
    Phased (s.step g r i) (b.next true s i) := by
  have state := collecting.state
  have fsm : s.txFsm g r i = s.dataStep g r i := by rw [und.fsm (by rw [state]; decide), state]
  have step := step_parts fsm
  have other : s.state ≠ .addr := by rw [state]; decide
  have before : s.snkCycD0 = true := by rw [cyc, collecting.coming]; rfl
  have collects := collects_step (r := r) (i := i) stamps other collecting.collects
  have stamped : (b.next true s i).stamped = b.done.filterMap block := by
    rw [stamped_same collecting.stb, collecting.stamped]
  have sof : (s.step g r i).srcFab.sof = false := by
    rw [step.2.2.1, dataStep_keeps.2.2, collecting.sof]
  have sofReg : (s.step g r i).sofReg = false := by
    simp [State.step, State.sofP1, before, state, collecting.sofReg]
  have waits : Waits (s.step g r i) (b.next true s i) := fun reg => absurd (sofReg.symm.trans reg) (by decide)
  have here : With (b.next true s i) b.done (ws ++ takes s i) := by
    cases high : i.wbSnk.cyc with
    | true =>
        have on : s.eofP1 i = false := eof_high high
        exact .inl ⟨by rw [next_high high, collecting.coming]; rfl, done_on on⟩
    | false =>
        have ends : s.eofP1 i = true := eof_low before high
        rw [takes_low high, List.append_nil]
        exact .inr ⟨by simp [Book.next, ends, collecting.coming], .inl (next_low high)⟩
  have close : (s.dataStep g r i).state = .pad ∨ (s.dataStep g r i).state = .gap →
      (s.dataStep g r i).txtsuStb = false → Phased (s.step g r i) (b.next true s i) := fun next stb =>
    .inr (.inr (.inr (.inl ⟨b.done, ws ++ takes s i, by rwa [step.1], step.2.1.trans stb, sof, waits, here, collects,
      stamped⟩)))
  by_cases pads : (i.wbSnk.adr == cWrfOob || s.eofP1 i) = true ∧ s.needsPadding g = true
  · refine close (.inl ?_) ?_ <;> simp [State.dataStep, pads.1, pads.2, collecting.stb]
  · have pads : ((i.wbSnk.adr == cWrfOob || s.eofP1 i) && s.needsPadding g) = false := by
      rw [← Bool.not_eq_true, Bool.and_eq_true]
      exact pads
    cases ends : s.eofP1 i && !s.needsPadding g with
    | false =>
        have next : (s.dataStep g r i).state = .data ∧ (s.dataStep g r i).txtsuStb = false := by
          simp only [State.dataStep, pads, ends]
          exact ⟨state, collecting.stb⟩
        have high : i.wbSnk.cyc = true := by
          by_contra low
          have low : i.wbSnk.cyc = false := by simpa using low
          have eof : s.eofP1 i = true := eof_low before low
          rw [eof, Bool.or_true, Bool.true_and] at pads
          simp [eof, pads] at ends
        have on : s.eofP1 i = false := eof_high high
        refine .inr (.inr (.inl ⟨ws ++ takes s i, step.1.trans next.1, step.2.1.trans next.2, sof, sofReg, ?_,
          collects, ?_⟩))
        · rw [next_high high, collecting.coming]
          rfl
        · rw [stamped, done_on on]
    | true =>
        by_cases gaps : ¬(g.gForceGapLength = 0 ∧ s.bitselD = true) ∨ (s.wantsTstamp = true ∧ i.pcsBusy = true)
        · have next : (s.dataStep g r i).state = .gap ∧ (s.dataStep g r i).txtsuStb = false := by
            simp only [State.dataStep, pads, ends, if_true, Bool.false_eq_true, if_false]
            rcases gaps with gaps | ⟨wants, busy⟩
            · have gaps : ¬(decide (g.gForceGapLength = 0) && s.bitselD) = true := by simpa using gaps
              simp [gaps, collecting.stb]
            · simp only [wants, busy, if_true]
              split_ifs <;> exact ⟨rfl, collecting.stb⟩
          exact close (.inr next.1) next.2
        · rw [not_or, not_not, not_and_or] at gaps
          obtain ⟨⟨zero, bitsel⟩, ready⟩ := gaps
          have low : i.wbSnk.cyc = false := by
            rw [State.eofP1, Bool.and_eq_true, Bool.and_eq_true, Bool.not_eq_true'] at ends
            exact ends.1.2
          rw [takes_low low, List.append_nil] at here
          cases wants : s.wantsTstamp with
          | true =>
              have silent : i.pcsBusy = false := by simpa [wants] using ready
              have next : (s.dataStep g r i).state = .storeTstamp ∧ (s.dataStep g r i).txtsuStb = true ∧
                  (s.dataStep g r i).txtsuFid = s.oobFrameId := by
                simp [State.dataStep, State.submits, pads, ends, zero, bitsel, wants, silent]
              obtain ⟨id, some⟩ := Option.isSome_iff_exists.1 (collecting.collects.wants.symm.trans wants)
              refine .inr (.inr (.inr (.inr ⟨b.done, ws, ?_⟩)))
              refine ⟨step.1.trans next.1, step.2.1.trans next.2.1, sof, waits, here, ?_, stamped⟩
              rw [step.2.2.2, next.2.2, collecting.collects.id some, some]
          | false =>
              have next : (s.dataStep g r i).state = .idle ∧ (s.dataStep g r i).txtsuStb = false := by
                simp [State.dataStep, pads, ends, zero, bitsel, wants, collecting.stb]
              refine settle here waits (step.1.trans next.1) (step.2.1.trans next.2) sof ?_
              have none : block ws = none := by
                rw [← Option.not_isSome_iff_eq_none, ← collecting.collects.wants, wants]
                decide
              rw [stamped, List.filterMap_append, List.filterMap_cons_none none, List.filterMap_nil, List.append_nil]

theorem addr_stamps (stamps : g.gWithTimestamper = true) (und : Undisturbed (s, b) i)
    (cyc : s.snkCycD0 = b.coming.isSome) (heading : Heading s b ws) : Phased (s.step g r i) (b.next true s i) := by
  have state := heading.state
  have fsm : s.txFsm g r i = s.addrStep g r i := by rw [und.fsm (by rw [state]; decide), state]
  have step := step_parts fsm
  have pauses : s.pauses g = false := by simp [State.pauses, heading.mode]
  have small := heading.short
  have count := heading.count
  have before : s.snkCycD0 = true := by rw [cyc, heading.coming]; rfl
  obtain ⟨high, on⟩ := und.frames.goes_on before (by rw [heading.coming, Option.getD_some]; omega)
  have coming : (b.next true s i).coming = some (ws ++ takes s i) := by rw [next_high high, heading.coming]; rfl
  have stamped : (b.next true s i).stamped = (b.next true s i).done.filterMap block := by
    rw [stamped_same heading.stb, heading.stamped, done_on on]
  have stb : (s.step g r i).txtsuStb = false := by
    rw [step.2.1, State.addrStep]
    split <;> exact heading.stb
  have mode : (s.step g r i).txPauseMode = false := mode_step heading.mode und.req
  have follows : s.snkValid i = true → Follows ws i.wbSnk.word := by
    intro valid
    have follows := und.frames.word valid
    rwa [heading.coming, Option.getD_some] at follows
  have oob : ofAdr cWrfOob (ws ++ takes s i) = [] := by
    cases valid : s.snkValid i with
    | false => rw [takes_none valid, List.append_nil, heading.oob]
    | true =>
        rw [takes_some valid, ofAdr_other (fun adr => ?_), heading.oob]
        rcases follows valid with ⟨status, -⟩ | ⟨data, -⟩ | ⟨-, long⟩
        · exact absurd (status.symm.trans adr) (by decide)
        · exact absurd (data.symm.trans adr) (by decide)
        · omega
  by_cases word : s.snkValid i = true ∧ i.wbSnk.adr = cWrfData
  · obtain ⟨valid, data⟩ := word
    have dreq : i.srcDreq = true := by
      by_contra low
      have stall := stalled und.quiet (.inl (by simpa using low)) (by rw [data]; decide)
      exact absurd (stall.symm.trans valid) (by decide)
    have more : (s.counter + 1).toNat = s.counter.toNat + 1 := counter_succ (by omega : _ < 8) (by decide)
    have five : s.counter.setWidth 4 = 5 ↔ s.counter.toNat = 5 := by
      rw [← BitVec.toNat_inj, BitVec.toNat_setWidth, Nat.mod_eq_of_lt (by omega)]
      rfl
    have less : s.counter.setWidth 4 < 8 := by
      rw [BitVec.lt_def, BitVec.toNat_setWidth, Nat.mod_eq_of_lt (by omega)]
      exact (by omega : s.counter.toNat < 8)
    have longer : (ofAdr cWrfData (ws ++ takes s i)).length = (ofAdr cWrfData ws).length + 1 := by
      rw [takes_some valid, ofAdr_same data, List.length_append]
      rfl
    have next : (s.addrStep g r i).state = (if s.counter.toNat = 5 then .data else .addr) ∧
        (s.addrStep g r i).counter = s.counter + 1 ∧ (s.addrStep g r i).srcFab.sof = false := by
      simp only [State.addrStep, dreq, valid, data, beq_self_eq_true, Bool.and_self, Bool.true_or, if_true, five,
        less,
        heading.mode, Bool.not_false, and_self]
    have counter : (s.step g r i).counter.toNat = s.counter.toNat + 1 := by
      rw [(step_count fsm).1, next.2.1, more]
    by_cases last : s.counter.toNat = 5
    · rw [if_pos last] at next
      refine .inr (.inr (.inl ⟨ws ++ takes s i, ?_⟩))
      refine ⟨step.1.trans next.1, stb, by rw [step.2.2.1]; exact next.2.2, ?_, coming, ?_, stamped⟩
      · simp [State.step, State.sofP1, before, state]
      · exact collects_addr stamps state oob
    · rw [if_neg last] at next
      exact .inr (.inl ⟨ws ++ takes s i, step.1.trans next.1, stb, coming, oob, by rw [counter, longer, count],
        by omega, stamped, mode⟩)
  · have none : (s.snkValid i && i.wbSnk.adr == cWrfData) = false := by
      rw [← Bool.not_eq_true, Bool.and_eq_true, beq_iff_eq]
      exact word
    have next : (s.addrStep g r i).state = .addr ∧ (s.addrStep g r i).counter = s.counter := by
      simp [State.addrStep, none, pauses, state]
    have counter : (s.step g r i).counter = s.counter := (step_count fsm).1.trans next.2
    have same : ofAdr cWrfData (ws ++ takes s i) = ofAdr cWrfData ws := by
      cases valid : s.snkValid i with
      | false => rw [takes_none valid, List.append_nil]
      | true => rw [takes_some valid, ofAdr_other (fun data => word ⟨valid, data⟩)]
    exact .inr (.inl ⟨ws ++ takes s i, step.1.trans next.1, stb, coming, oob, by rw [counter, same, count],
      by rw [same]; exact small, stamped, mode⟩)

/-- Words that complete no block. -/
theorem blocks_same (cyc : s.snkCycD0 = b.coming.isSome)
    (same : block (b.coming.getD [] ++ takes s i) = block (b.coming.getD [])) :
    ((b.next true s i).done ++ (b.next true s i).coming.toList).filterMap block =
      (b.done ++ b.coming.toList).filterMap block := by
  cases coming : b.coming with
  | none =>
      have on : s.eofP1 i = false := eof_none (by rw [cyc, coming]; rfl)
      rw [coming] at same
      rw [done_on on]
      cases high : i.wbSnk.cyc with
      | false => rw [next_low high]
      | true =>
          have empty : block (b.coming.getD [] ++ takes s i) = none := by rw [coming]; exact same
          rw [next_high high, Option.toList_some, List.filterMap_append, List.filterMap_cons_none empty]
          simp
  | some ws =>
      rw [coming, Option.getD_some] at same
      cases high : i.wbSnk.cyc with
      | false =>
          have ends : s.eofP1 i = true := eof_low (by rw [cyc, coming]; rfl) high
          rw [next_low high]
          simp [Book.next, ends, coming]
      | true =>
          have on : s.eofP1 i = false := eof_high high
          rw [next_high high, done_on on, coming, Option.getD_some, Option.toList_some, Option.toList_some,
            List.filterMap_append, List.filterMap_append]
          simp only [List.filterMap_cons, same]

/-- Between frames. -/
theorem idle_stamps (und : Undisturbed (s, b) i) (timely : Timely g (s, b) i) (cyc : s.snkCycD0 = b.coming.isSome)
    (settled : Settled s b) : Phased (s.step g r i) (b.next true s i) := by
  have state := settled.state
  have fsm : s.txFsm g r i = s.idleStep i := by rw [und.fsm (by rw [state]; decide), state]
  have step := step_parts fsm
  have other : s.state ≠ .addr := by rw [state]; decide
  have tx : s.txEn i = true := und.quiet.txEn
  have req : i.fcPauseReq = false := und.req
  by_cases start : (s.sofP1 i || s.sofReg) = true ∧ i.srcDreq = true
  · obtain ⟨start, dreq⟩ := start
    have next : s.idleStep i = { s with
        err := false, rty := false, txtsuStb := false, bitselD := false, toBeUntagged := false
        fcPauseReady := false, txPauseMode := false, counter := 0, state := .addr
        srcFab := { s.srcFab with error := false, eof := false, dvalid := false, bytesel := false, sof :=
          true } } := by
      simp only [State.idleStep, tx, req, Bool.or_false, start, Bool.and_true, dreq, if_true]
    -- nothing of the cycle has come before
    have fresh : b.coming.getD [] = [] ∧ i.wbSnk.cyc = true ∧ s.eofP1 i = false := by
      cases reg : s.sofReg with
      | true =>
          have coming := settled.waits reg
          exact ⟨by rw [coming]; rfl, coming_high und.frames cyc coming⟩
      | false =>
          rw [reg, Bool.or_false, State.sofP1, Bool.and_eq_true, Bool.not_eq_true', cyc] at start
          have coming : b.coming = none := by simpa using start.1
          exact ⟨by rw [coming]; rfl, start.2, eof_high start.2⟩
    obtain ⟨nothing, high, on⟩ := fresh
    have empty : (b.done ++ b.coming.toList).filterMap block = b.done.filterMap block := by
      rw [List.filterMap_append]
      cases coming : b.coming with
      | none => simp
      | some ws =>
          rw [coming, Option.getD_some] at nothing
          rw [nothing]
          exact List.append_nil _
    have first : s.snkValid i = true → i.wbSnk.word.adr = cWrfStatus := by
      intro valid
      have follows := und.frames.word valid
      rw [nothing] at follows
      rcases follows with ⟨status, -⟩ | ⟨-, before, -⟩ | ⟨-, long⟩
      · exact status
      · exact absurd rfl before
      · exact absurd long (by decide)
    have words : ∀ adr, adr ≠ cWrfStatus → ofAdr adr (takes s i) = [] := by
      intro adr different
      cases valid : s.snkValid i with
      | false => rw [takes_none valid]; rfl
      | true =>
          rw [takes_some valid]
          exact ofAdr_other (by rw [first valid]; exact different.symm) []
    have counter : (s.step g r i).counter = 0 := by rw [(step_count fsm).1, next]
    refine .inr (.inl ⟨takes s i, ?_⟩)
    constructor
    case state => rw [step.1, next]
    case stb => rw [step.2.1, next]
    case coming => rw [next_high high, nothing]; rfl
    case oob => exact words _ (by decide)
    case count => rw [words _ (by decide), counter]; rfl
    case short => rw [words _ (by decide)]; decide
    case stamped => rw [stamped_same settled.stb, settled.stamped, empty, done_on on]
    case mode => rw [(step_count fsm).2, next]
  · have next : (s.idleStep i).state = .idle ∧ (s.idleStep i).txtsuStb = false ∧ (s.idleStep i).srcFab.sof =
    false := by
      simp only [State.idleStep, tx, req, Bool.or_false, Bool.and_true]
      cases begins : s.sofP1 i || s.sofReg with
      | false => simp [state]
      | true =>
          have dreq : i.srcDreq = false := by simpa [begins] using start
          simp [dreq, state, settled.sof]
    refine .inl ⟨step.1.trans next.1, step.2.1.trans next.2.1, by rw [step.2.2.1]; exact next.2.2, ?_, ?_⟩
    · cases begins : s.sofP1 i || s.sofReg with
      | true =>
          exact waits_step settled.waits und.frames cyc (still_empty und (.inl (by simpa [begins] using start))) other
      | false =>
          rw [Bool.or_eq_false_iff] at begins
          intro reg
          simp [State.step, begins, other] at reg
    · rw [stamped_same settled.stb, settled.stamped, blocks_same cyc (timely (.inl state))]

theorem phased_step (stamps : g.gWithTimestamper = true) (und : Undisturbed (s, b) i) (timely : Timely g (s, b) i)
    (cyc : s.snkCycD0 = b.coming.isSome) (phased : Phased s b) : Phased (s.step g r i) (b.next true s i) := by
  rcases phased with settled | ⟨ws, heading⟩ | ⟨ws, collecting⟩ | ⟨front, cur, closing⟩ | ⟨front, cur, reporting⟩
  · exact idle_stamps und timely cyc settled
  · exact addr_stamps stamps und cyc heading
  · exact data_stamps stamps und cyc collecting
  · rcases closing.state with pad | gap
    · exact pad_stamps stamps und cyc closing pad
    · exact gap_stamps stamps und timely cyc closing gap
  · exact store_stamps und cyc reporting

theorem cyc_step : (s.step g r i).snkCycD0 = (b.next true s i).coming.isSome := by
  have high : (s.step g r i).snkCycD0 = i.wbSnk.cyc := rfl
  rw [high]
  cases cyc : i.wbSnk.cyc <;> simp [Book.next, cyc]

theorem Phased.reported (phased : Phased s b) : Reported s b := by
  have grows : ∀ {more : List (List Word)} {front : List (List Word)}, front.filterMap block <+:
      (front ++ more).filterMap block := fun {more front} => by
    rw [List.filterMap_append]
    exact List.prefix_append _ _
  rcases phased with settled | ⟨ws, heading⟩ | ⟨ws, collecting⟩ | ⟨front, cur, closing⟩ | ⟨front, cur, reporting⟩
  · exact ⟨by rw [settled.stamped], fun sof => absurd (settled.sof.symm.trans sof) (by decide),
      fun _ => settled.stamped⟩
  · exact ⟨by rw [heading.stamped]; exact grows, fun _ => heading.stamped,
      fun idle => absurd (heading.state.symm.trans idle) (by decide)⟩
  · exact ⟨by rw [collecting.stamped]; exact grows, fun sof => absurd (collecting.sof.symm.trans sof) (by decide),
      fun idle => absurd (collecting.state.symm.trans idle) (by decide)⟩
  · refine ⟨by rw [closing.stamped, closing.here.blocks]; exact grows,
      fun sof => absurd (closing.sof.symm.trans sof) (by decide), fun idle => ?_⟩
    rcases closing.state with state | state <;> exact absurd (state.symm.trans idle) (by decide)
  · exact ⟨by rw [reporting.stamped, reporting.here.blocks]; exact grows,
      fun sof => absurd (reporting.sof.symm.trans sof) (by decide),
      fun idle => absurd (reporting.state.symm.trans idle) (by decide)⟩

theorem step_values {next : State} (fsm : s.txFsm g r i = next) :
    (s.step g r i).txtsuTsValue = next.txtsuTsValue ∧ (s.step g r i).txtsuTsIncorrect = next.txtsuTsIncorrect := by
  rw [← fsm]
  exact ⟨rfl, rfl⟩

/-- TXF_DATA makes a report with the PCS ready, of the stamp it is given, or none. -/
theorem dataStep_report : (s.dataStep g r i).txtsuStb = s.txtsuStb ∨
    (i.pcsBusy = false ∧ (s.dataStep g r i).txtsuTsValue = i.txtsTimestamp ∧
      (s.dataStep g r i).txtsuTsIncorrect = !i.txtsTimestampValid) := by
  unfold State.dataStep
  extract_lets word padding fab next
  split_ifs with _ _ _ _ busy
  case neg => exact .inr ⟨by simpa using busy, rfl, rfl⟩
  all_goals exact .inl rfl

/-- Where no report stands, one is made by TXF_DATA or TXF_GAP, or none. -/
theorem rises_only (stb : s.txtsuStb = false) (und : Undisturbed (s, b) i) (going : s.state ≠ .abort)
    (rise : (s.txFsm g r i).txtsuStb = true) : i.pcsBusy = false ∧
      (s.txFsm g r i).txtsuTsValue = i.txtsTimestamp ∧ (s.txFsm g r i).txtsuTsIncorrect = !i.txtsTimestampValid := by
  have none : s.txtsuStb ≠ true := by simp [stb]
  rw [und.fsm going] at rise ⊢
  cases state : s.state with
  | idle => simp only [state, State.idleStep] at rise; split_ifs at rise
  | delayedSof => simp only [state, State.delayedSofStep] at rise; split_ifs at rise <;> exact absurd rise none
  | addr => simp only [state, State.addrStep] at rise; split_ifs at rise <;> exact absurd rise none
  | pad => simp only [state, State.padStep] at rise; split_ifs at rise <;> exact absurd rise none
  | abort => exact absurd state going
  | storeTstamp => simp only [state, State.storeTstampStep] at rise; split_ifs at rise; exact absurd rise none
  | gap =>
      simp only [state, State.gapStep, State.submits] at rise ⊢
      split_ifs at rise ⊢ with passed wants busy
      · exact absurd rise none
      · exact ⟨by simpa using busy, rfl, rfl⟩
      · exact absurd rise none
      · exact absurd rise none
  | data =>
      simp only [state] at rise ⊢
      exact dataStep_report.resolve_left fun same => none (same.symm.trans rise)

theorem Phased.samples (phased : Phased s b) (und : Undisturbed (s, b) i) : Samples g r s i := by
  have going : s.state ≠ .abort := by
    rcases phased with settled | ⟨ws, heading⟩ | ⟨ws, collecting⟩ | ⟨front, cur, closing⟩ | ⟨front, cur, reporting⟩
    · rw [settled.state]; decide
    · rw [heading.state]; decide
    · rw [collecting.state]; decide
    · rcases closing.state with state | state <;> rw [state] <;> decide
    · rw [reporting.state]; decide
  have store : s.txtsuStb = true → s.state = .storeTstamp := by
    intro up
    rcases phased with settled | ⟨ws, heading⟩ | ⟨ws, collecting⟩ | ⟨front, cur, closing⟩ | ⟨front, cur, reporting⟩
    · exact absurd (settled.stb.symm.trans up) (by decide)
    · exact absurd (heading.stb.symm.trans up) (by decide)
    · exact absurd (collecting.stb.symm.trans up) (by decide)
    · exact absurd (closing.stb.symm.trans up) (by decide)
    · exact reporting.state
  have fsm : s.txtsuStb = true → s.txFsm g r i = s.storeTstampStep i := fun up => by rw [und.fsm going, store up]
  refine ⟨fun down rise => rises_only down und going rise, fun up wait => ?_, fun up ack => ?_⟩
  · have step := step_parts (fsm up)
    have values := step_values (fsm up)
    rw [step.2.1, step.2.2.2, values.1, values.2]
    simp [State.storeTstampStep, wait, up]
  · rw [(step_parts (fsm up)).2.1]
    simp [State.storeTstampStep, ack]

end Stamping

theorem stamped_once (g : Generics) (stamps : g.gWithTimestamper = true) (r : Regs) (s : State) (start : AfterReset s)
    (inputs : List In) (undisturbed : Along (stepBook true g r) Undisturbed (s, {}) inputs)
    (timely : Along (stepBook true g r) (Timely g) (s, {}) inputs) :
    let last := run (stepBook true g r) (s, {}) inputs
    Reported last.1 last.2 ∧ Along (stepBook true g r) (fun p i => Samples g r p.1 i) (s, {}) inputs := by
  have kept : ∀ p i, Phased p.1 p.2 ∧ p.1.snkCycD0 = p.2.coming.isSome → Undisturbed p i ∧ Timely g p i →
      Phased (stepBook true g r p i).1 (stepBook true g r p i).2 ∧
        (stepBook true g r p i).1.snkCycD0 = (stepBook true g r p i).2.coming.isSome :=
    fun p i here now => ⟨phased_step stamps now.1 now.2 here.2 here.1, cyc_step⟩
  have first : Phased s {} ∧ s.snkCycD0 = ({} : Book).coming.isSome := by
    refine ⟨.inl ⟨start.state, start.txtsuStb, start.sof, fun reg => ?_, rfl⟩, start.snkCycD0⟩
    exact absurd (start.sofReg.symm.trans reg) (by decide)
  have along := undisturbed.and timely
  exact ⟨(along.invariant (fun p => Phased p.1 p.2 ∧ p.1.snkCycD0 = p.2.coming.isSome) kept first).1.reported,
    along.yields _ kept (fun p i here now => here.1.samples now.1) first⟩

/-- A frame of seven words with `n` empty cycles between its two OOB words, and `m` cycles behind it. -/
def shortCycle (n m : Nat) : List In :=
  driven cWrfStatus 0 0b11 :: (List.replicate 7 (driven cWrfData 0x5a5a 0b11) ++ (driven cWrfOob 0x1000 0b11 ::
    (List.replicate n { wbSnk := ⟨cWrfOob, 0x00ab, true, false, true, 0b11⟩ } ++
      (driven cWrfOob 0x00ab 0b11 :: List.replicate m { free with txtsuAck := true }))))

set_option maxRecDepth 4000 in
theorem stamped_once_soon :
    let last := run (stepBook true padding anyRegs) (reset, {}) (shortCycle 3 30)
    Reported last.1 last.2 ∧
      Along (stepBook true padding anyRegs) (fun p i => Samples padding anyRegs p.1 i) (reset, {})
        (shortCycle 3 30) :=
  stamped_once padding rfl anyRegs reset afterReset_reset (shortCycle 3 30) (by decide +kernel) (by decide +kernel)

set_option maxRecDepth 4000 in
/-- The second OOB word comes when the padding is over. -/
theorem stamp_missed :
    let last := run (stepBook true padding anyRegs) (reset, {}) (shortCycle 24 2)
    Along (stepBook true padding anyRegs) Undisturbed (reset, {}) (shortCycle 24 2) ∧
      last.2.done.filterMap block = [0x00ab] ∧ last.2.stamped = [] ∧ ¬Reported last.1 last.2 := by
  have idle : (run (stepBook true padding anyRegs) (reset, {}) (shortCycle 24 2)).1.state = .idle := by decide +kernel
  refine ⟨by decide +kernel, by decide +kernel, by decide +kernel, fun reported => ?_⟩
  exact absurd (reported.idle idle) (by decide +kernel)

end WrCores.Endpoint.TxHeader
