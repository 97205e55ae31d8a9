import Mathlib.Data.Fin.Basic
import Mathlib.Data.List.FinRange
import Mathlib.Order.WellFounded
import WrCores.Clocked.Run
import WrCores.Fabric.Pkg

/-!
The demultiplexer of xwrf_mux.vhd, from the endpoint to `n` muxed ports. `DmuxState`
holds the registers of DMUX_FSM, `dmuxStep` is that process after reset, and
`muxSrcO` / `epSnkOutStall` are the concurrent assignments around it. The class
masks are constant over a run. Vectors over the ports are functions on `Fin n`.
-/

namespace WrCores.Fabric.Mux

open Clocked

variable {n : Nat} [NeZero n]

def fHotToBin (x : Fin n → Bool) : Fin n :=
  (List.finRange n).reverse.foldl (fun rv i => if x i then i else rv) 0

def fMatchClass (portMask pktMask : BitVec 8) : Bool := portMask &&& pktMask != 0#8

def lastPort : Fin n := ⟨n - 1, Nat.sub_lt (Nat.pos_of_neZero n) Nat.one_pos⟩

inductive Demux where
  | dmuxWait
  | dmuxStatus
  | dmuxPayload
  deriving DecidableEq, Repr

structure DmuxState (n : Nat) where
  demux : Demux
  dmuxSelect : Fin n → Bool
  dmuxSndStat : Fin n → Bool
  dmuxStatusReg : BitVec 16
  epStallMask : Bool

structure DmuxIn (n : Nat) where
  epSnkI : SourceOut
  muxSrcI : Fin n → SourceIn

def none (n : Nat) : Fin n → Bool := fun _ => false

def dmuxReset (n : Nat) : DmuxState n where
  demux := .dmuxWait
  dmuxSelect := none n
  dmuxSndStat := none n
  dmuxStatusReg := 0
  epStallMask := false

def anySet (x : Fin n → Bool) : Bool := (List.finRange n).any x

def dmuxSel (muxClassI : Fin n → BitVec 8) (status : BitVec 16) : Fin n → Bool :=
  fun i => fMatchClass (muxClassI i) (fUnmarshallWrfStatus status).matchClass

def dmuxStep (muxClassI : Fin n → BitVec 8) (s : DmuxState n) (i : DmuxIn n) : DmuxState n :=
  match s.demux with
  | .dmuxWait =>
      if i.epSnkI.cyc && i.epSnkI.stb && i.epSnkI.adr == cWrfStatus then
        { demux := .dmuxStatus
          dmuxSelect := none n
          dmuxSndStat := none n
          dmuxStatusReg := i.epSnkI.dat
          epStallMask := true }
      else
        { demux := .dmuxWait
          dmuxSelect := none n
          dmuxSndStat := none n
          dmuxStatusReg := 0
          epStallMask := false }
  | .dmuxStatus =>
      let dmuxSel := dmuxSel muxClassI s.dmuxStatusReg
      -- class not matched to anything: pass the packet to the last port
      let sel : Fin n := if anySet dmuxSel then fHotToBin dmuxSel else lastPort
      { demux := if (i.muxSrcI sel).stall then .dmuxStatus else .dmuxPayload
        dmuxSelect := if anySet dmuxSel then dmuxSel else Function.update s.dmuxSelect lastPort true
        dmuxSndStat := if anySet dmuxSel then dmuxSel else Function.update s.dmuxSndStat lastPort true
        dmuxStatusReg := s.dmuxStatusReg
        epStallMask := true }
  | .dmuxPayload =>
      { s with
        demux := if i.epSnkI.cyc then .dmuxPayload else .dmuxWait
        dmuxSndStat := none n
        epStallMask := false }

/-- `dmux_others(I)`: some port below I is selected too. -/
def dmuxOthers (s : DmuxState n) (port : Fin n) : Bool :=
  (List.finRange n).any fun j => decide (j < port) && s.dmuxSelect j

def muxSrcO (s : DmuxState n) (i : DmuxIn n) (port : Fin n) : SourceOut :=
  let status := s.dmuxSndStat port && !dmuxOthers s port
  let selected := s.dmuxSelect port && !dmuxOthers s port
  { cyc := if selected then i.epSnkI.cyc else false
    stb := if status then true else if selected then i.epSnkI.stb else false
    adr := if status then cWrfStatus else if selected then i.epSnkI.adr else 0
    dat := if status then s.dmuxStatusReg else if selected then i.epSnkI.dat else 0
    sel := if status then 0b11#2 else if selected then i.epSnkI.sel else 0b11#2
    we := true }

def epSnkOutStall (s : DmuxState n) (i : DmuxIn n) : Bool :=
  if s.epStallMask then true
  else if !anySet s.dmuxSelect then false
  else (i.muxSrcI (fHotToBin s.dmuxSelect)).stall

/-- The words port `port` takes in a cycle, and the words taken from the endpoint. -/
def portWords (port : Fin n) (s : DmuxState n) (i : DmuxIn n) : List Word :=
  taken (muxSrcO s i port) (i.muxSrcI port).stall

def epWords (s : DmuxState n) (i : DmuxIn n) : List Word := taken i.epSnkI (epSnkOutStall s i)

/-- The port a frame belongs to, by the masks alone: the lowest index whose mask
meets the class in the STATUS word, or the last port when none does. -/
def Target (muxClassI : Fin n → BitVec 8) (status : BitVec 16) (port : Fin n) : Prop :=
  (dmuxSel muxClassI status port = true ∧ ∀ lower < port, dmuxSel muxClassI status lower = false) ∨
  ((∀ any, dmuxSel muxClassI status any = false) ∧ port = lastPort)

/-- One frame as the endpoint presents it: cyc is low over `gap`, then high, at
first without a word, then with the STATUS word, then with whatever follows.
The stall of every port in every cycle is part of the cycle's input. -/
structure Frame (n : Nat) where
  gap : List (DmuxIn n)
  lead : List (DmuxIn n)
  status : DmuxIn n
  rest : List (DmuxIn n)

def Frame.cycles (frame : Frame n) : List (DmuxIn n) :=
  frame.gap ++ (frame.lead ++ frame.status :: frame.rest)

structure Frame.WellFormed (frame : Frame n) : Prop where
  gap_low : ∀ i ∈ frame.gap, i.epSnkI.cyc = false
  lead_high : ∀ i ∈ frame.lead, i.epSnkI.cyc = true
  lead_empty : ∀ i ∈ frame.lead, i.epSnkI.stb = false
  status_high : frame.status.epSnkI.cyc = true
  status_word : frame.status.epSnkI.stb = true
  status_adr : frame.status.epSnkI.adr = cWrfStatus
  rest_high : ∀ i ∈ frame.rest, i.epSnkI.cyc = true

def cyclesOf (frames : List (Frame n)) : List (DmuxIn n) := frames.flatMap Frame.cycles

omit [NeZero n] in
theorem anySet_iff (x : Fin n → Bool) : anySet x = true ↔ ∃ i, x i = true := by
  simp [anySet]

/-- The loop of f_hot_to_bin runs downwards, so the lowest set index is the last
one it assigns. -/
theorem fHotToBin_lowest (x : Fin n → Bool) (port : Fin n) (set : x port = true)
    (lower : ∀ j < port, x j = false) : fHotToBin x = port := by
  have scanned : ∀ l : List (Fin n), l.Pairwise (· < ·) → port ∈ l →
      l.foldr (fun i rv => if x i then i else rv) 0 = port := by
    intro l sorted member
    induction l with
    | nil => simp at member
    | cons i rest ih =>
        rw [List.pairwise_cons] at sorted
        rcases List.mem_cons.mp member with here | later
        · subst here
          simp [set]
        · have below := lower i (sorted.1 port later)
          simp [below, ih sorted.2 later]
  rw [fHotToBin, List.foldl_reverse]
  exact scanned _ (List.pairwise_lt_finRange n) (List.mem_finRange port)

/-- Exactly one port is connected: `port` is selected and no port below it is. -/
def Granted (s : DmuxState n) (port : Fin n) : Prop :=
  s.dmuxSelect port = true ∧ ∀ lower < port, s.dmuxSelect lower = false

omit [NeZero n] in
theorem granted_others (s : DmuxState n) (port : Fin n) (granted : Granted s port) :
    dmuxOthers s port = false := by
  simp only [dmuxOthers, List.any_eq_false, List.mem_finRange, forall_const]
  intro j
  by_cases below : j < port
  · simp [granted.2 j below]
  · simp [below]

omit [NeZero n] in
theorem granted_elsewhere (s : DmuxState n) (port other : Fin n) (granted : Granted s port)
    (different : other ≠ port) : (s.dmuxSelect other && !dmuxOthers s other) = false := by
  rcases lt_or_gt_of_ne different with below | above
  · simp [granted.2 other below]
  · have taken : dmuxOthers s other = true := by
      simp only [dmuxOthers, List.any_eq_true, List.mem_finRange, true_and]
      exact ⟨port, by simp [above, granted.1]⟩
    simp [taken]

theorem granted_stall (s : DmuxState n) (i : DmuxIn n) (port : Fin n) (granted : Granted s port)
    (unmasked : s.epStallMask = false) : epSnkOutStall s i = (i.muxSrcI port).stall := by
  have some_set : anySet s.dmuxSelect = true := (anySet_iff _).mpr ⟨port, granted.1⟩
  simp [epSnkOutStall, unmasked, some_set, fHotToBin_lowest _ port granted.1 granted.2]

omit [NeZero n] in
theorem portWords_elsewhere (s : DmuxState n) (i : DmuxIn n) (port other : Fin n)
    (granted : Granted s port) (different : other ≠ port) : portWords other s i = [] := by
  apply taken_of_not_cyc
  have off := granted_elsewhere s port other granted different
  simp [muxSrcO, off]

/-- What a stretch of cycles moves: `port` takes `got`, every other port takes
nothing, and `sent` is taken from the endpoint. -/
structure Moves (muxClassI : Fin n → BitVec 8) (s : DmuxState n) (cycles : List (DmuxIn n))
    (port : Fin n) (got sent : List Word) : Prop where
  here : collect (dmuxStep muxClassI) (portWords port) s cycles = got
  elsewhere : ∀ other ≠ port, collect (dmuxStep muxClassI) (portWords other) s cycles = []
  endpoint : collect (dmuxStep muxClassI) epWords s cycles = sent

theorem Moves.nil (muxClassI : Fin n → BitVec 8) (s : DmuxState n) (port : Fin n) :
    Moves muxClassI s [] port [] [] := ⟨rfl, fun _ _ => rfl, rfl⟩

theorem Moves.cons {muxClassI : Fin n → BitVec 8} {s : DmuxState n} {i : DmuxIn n}
    {cycles : List (DmuxIn n)} {port : Fin n} {got sent got' sent' : List Word}
    (here : portWords port s i = got) (elsewhere : ∀ other ≠ port, portWords other s i = [])
    (endpoint : epWords s i = sent)
    (later : Moves muxClassI (dmuxStep muxClassI s i) cycles port got' sent') :
    Moves muxClassI s (i :: cycles) port (got ++ got') (sent ++ sent') where
  here := by rw [collect_cons, here, later.here]
  elsewhere other different := by
    rw [collect_cons, elsewhere other different, later.elsewhere other different, List.nil_append]
  endpoint := by rw [collect_cons, endpoint, later.endpoint]

theorem Moves.append {muxClassI : Fin n → BitVec 8} {s : DmuxState n}
    {first second : List (DmuxIn n)} {port : Fin n} {got sent got' sent' : List Word}
    (before : Moves muxClassI s first port got sent)
    (later : Moves muxClassI (run (dmuxStep muxClassI) s first) second port got' sent') :
    Moves muxClassI s (first ++ second) port (got ++ got') (sent ++ sent') where
  here := by rw [collect_append, before.here, later.here]
  elsewhere other different := by
    rw [collect_append, before.elsewhere other different, later.elsewhere other different,
      List.nil_append]
  endpoint := by rw [collect_append, before.endpoint, later.endpoint]

/-! The states a frame passes through. `Clean`: waiting with nothing selected.
`Captured`: the STATUS word is in the register. `Sending`: it stands at the port.
`Closing`: the FSM has moved on, but the registered flags show it once more.
`Open`: the port is connected to the endpoint. -/

def Clean (s : DmuxState n) : Prop :=
  s.demux = .dmuxWait ∧ s.dmuxSelect = none n ∧ s.dmuxSndStat = none n ∧ s.epStallMask = false

def Captured (s : DmuxState n) (status : BitVec 16) : Prop :=
  s.demux = .dmuxStatus ∧ s.dmuxSelect = none n ∧ s.dmuxSndStat = none n ∧
    s.dmuxStatusReg = status ∧ s.epStallMask = true

def Replays (s : DmuxState n) (status : BitVec 16) (port : Fin n) : Prop :=
  Granted s port ∧ s.dmuxSndStat port = true ∧ s.dmuxStatusReg = status ∧ s.epStallMask = true

def Sending (s : DmuxState n) (status : BitVec 16) (port : Fin n) : Prop :=
  s.demux = .dmuxStatus ∧ s.dmuxSndStat = s.dmuxSelect ∧ Replays s status port

def Closing (s : DmuxState n) (status : BitVec 16) (port : Fin n) : Prop :=
  s.demux = .dmuxPayload ∧ Replays s status port

def Open (s : DmuxState n) (port : Fin n) : Prop :=
  s.demux = .dmuxPayload ∧ Granted s port ∧ s.dmuxSndStat = none n ∧ s.epStallMask = false

/-- The STATUS word as it is replayed: the byte selects are not kept. -/
def statusWord (status : BitVec 16) : Word := ⟨cWrfStatus, status, 0b11#2⟩

omit [NeZero n] in
theorem unselected_words (s : DmuxState n) (i : DmuxIn n) (port : Fin n)
    (unselected : s.dmuxSelect = none n) : portWords port s i = [] := by
  apply taken_of_not_cyc
  simp [muxSrcO, unselected, none]

theorem masked_endpoint (s : DmuxState n) (i : DmuxIn n) (masked : s.epStallMask = true) :
    epWords s i = [] := by
  simp [epWords, epSnkOutStall, masked, taken]

omit [NeZero n] in
/-- A replaying port takes the STATUS word exactly when it does not stall. -/
theorem replays_words (s : DmuxState n) (i : DmuxIn n) (status : BitVec 16) (port : Fin n)
    (replays : Replays s status port) (high : i.epSnkI.cyc = true) :
    portWords port s i = if (i.muxSrcI port).stall then [] else [statusWord status] := by
  obtain ⟨granted, sending, held, -⟩ := replays
  have alone := granted_others s port granted
  simp only [portWords, taken, muxSrcO, SourceOut.word, statusWord, sending, alone, granted.1, held]
  cases (i.muxSrcI port).stall <;> simp [high]

theorem open_words (s : DmuxState n) (i : DmuxIn n) (port : Fin n) (isOpen : Open s port) :
    portWords port s i = epWords s i := by
  obtain ⟨-, granted, quiet, unmasked⟩ := isOpen
  have alone := granted_others s port granted
  simp [portWords, epWords, taken, muxSrcO, SourceOut.word, quiet, none, alone, granted.1,
    granted_stall s i port granted unmasked]

/-- In the STATUS state the FSM looks at the stall of the frame's own port. -/
theorem status_step (muxClassI : Fin n → BitVec 8) (s : DmuxState n) (i : DmuxIn n)
    (status : BitVec 16) (port : Fin n) (target : Target muxClassI status port)
    (waiting : s.demux = .dmuxStatus) (held : s.dmuxStatusReg = status)
    (same : s.dmuxSndStat = s.dmuxSelect)
    (fresh : s.dmuxSelect = none n ∨ Granted s port) :
    let next := dmuxStep muxClassI s i
    (if (i.muxSrcI port).stall then Sending next status port else Closing next status port) := by
  have chosen : (if anySet (dmuxSel muxClassI status) then fHotToBin (dmuxSel muxClassI status)
      else lastPort) = port := by
    rcases target with ⟨set, lower⟩ | ⟨unset, isLast⟩
    · have some_set := (anySet_iff (dmuxSel muxClassI status)).mpr ⟨port, set⟩
      rw [if_pos some_set]
      exact fHotToBin_lowest _ port set lower
    · have none_set : ¬ anySet (dmuxSel muxClassI status) = true := by
        rw [anySet_iff]
        simp [unset]
      rw [if_neg none_set, isLast]
  have granted : Granted (dmuxStep muxClassI s i) port := by
    rcases target with ⟨set, lower⟩ | ⟨unset, isLast⟩
    · have some_set := (anySet_iff (dmuxSel muxClassI status)).mpr ⟨port, set⟩
      simpa [Granted, dmuxStep, waiting, held, some_set] using ⟨set, lower⟩
    · have none_set : anySet (dmuxSel muxClassI status) = false := by
        simp [anySet, unset]
      have below : ∀ lower < port, s.dmuxSelect lower = false := by
        rcases fresh with clear | ⟨-, lower⟩
        · simp [clear, none]
        · exact lower
      refine ⟨by simp [dmuxStep, waiting, held, none_set, isLast], fun lower less => ?_⟩
      have different : lower ≠ lastPort := isLast ▸ ne_of_lt less
      simp [dmuxStep, waiting, held, none_set, different, below lower less]
  have flags : (dmuxStep muxClassI s i).dmuxSndStat = (dmuxStep muxClassI s i).dmuxSelect := by
    simp [dmuxStep, waiting, same]
  have replays : Replays (dmuxStep muxClassI s i) status port :=
    ⟨granted, by rw [flags]; exact granted.1, by simp [dmuxStep, waiting, held],
      by simp [dmuxStep, waiting]⟩
  have moved : (dmuxStep muxClassI s i).demux =
      if (i.muxSrcI port).stall then .dmuxStatus else .dmuxPayload := by
    simp only [dmuxStep, waiting, held, chosen]
  cases stalled : (i.muxSrcI port).stall
  · exact ⟨by simp [moved, stalled], replays⟩
  · exact ⟨by simp [moved, stalled], flags, replays⟩

/-- The port stalls while the STATUS word stands at it, and once it stops stalling
it stalls again in the next cycle, or that cycle no longer belongs to the frame. -/
def TakenOnce (port : Fin n) : List (DmuxIn n) → Prop
  | [] => False
  | i :: rest =>
      if (i.muxSrcI port).stall then TakenOnce port rest
      else ∀ next ∈ rest.head?, (next.muxSrcI port).stall = true

/-- How the port must stall over the cycles after the STATUS word: low in the
first two, or high in the first and then `TakenOnce`. -/
def StatusTaken (port : Fin n) : List (DmuxIn n) → Prop
  | [] => False
  | i :: rest =>
      if (i.muxSrcI port).stall then TakenOnce port rest
      else ∃ next ∈ rest.head?, (next.muxSrcI port).stall = false

section Run
variable (muxClassI : Fin n → BitVec 8)

theorem open_run (s : DmuxState n) (port : Fin n) (cycles : List (DmuxIn n))
    (high : ∀ i ∈ cycles, i.epSnkI.cyc = true) (isOpen : Open s port) :
    Open (run (dmuxStep muxClassI) s cycles) port ∧
      ∃ words, Moves muxClassI s cycles port words words := by
  induction cycles generalizing s with
  | nil => exact ⟨isOpen, [], Moves.nil muxClassI s port⟩
  | cons i rest ih =>
      have here := high i (by simp)
      have next : Open (dmuxStep muxClassI s i) port := by
        obtain ⟨state, granted, -, -⟩ := isOpen
        refine ⟨by simp [dmuxStep, state, here], ?_, by simp [dmuxStep, state],
          by simp [dmuxStep, state]⟩
        simpa [Granted, dmuxStep, state] using granted
      obtain ⟨still, words, moved⟩ := ih _ (fun j member => high j (by simp [member])) next
      refine ⟨still, epWords s i ++ words, ?_⟩
      exact Moves.cons (open_words s i port isOpen)
        (fun other different => portWords_elsewhere s i port other isOpen.2.1 different) rfl moved

/-- From the replay's last cycle on: the STATUS word is taken again if the port
does not stall in that cycle, and then the port is open. -/
theorem closing_run (s : DmuxState n) (status : BitVec 16) (port : Fin n) (i : DmuxIn n)
    (rest : List (DmuxIn n)) (high : ∀ j ∈ i :: rest, j.epSnkI.cyc = true)
    (closing : Closing s status port) :
    (run (dmuxStep muxClassI) s (i :: rest)).demux = .dmuxPayload ∧
      ∃ words, Moves muxClassI s (i :: rest) port
        ((if (i.muxSrcI port).stall then [] else [statusWord status]) ++ words) words := by
  have here := high i (by simp)
  obtain ⟨state, replays⟩ := closing
  have next : Open (dmuxStep muxClassI s i) port := by
    refine ⟨by simp [dmuxStep, state, here], ?_, by simp [dmuxStep, state],
      by simp [dmuxStep, state]⟩
    simpa [Granted, dmuxStep, state] using replays.1
  obtain ⟨still, words, moved⟩ :=
    open_run muxClassI _ port rest (fun j member => high j (by simp [member])) next
  refine ⟨still.1, words, ?_⟩
  exact Moves.cons (replays_words s i status port replays here)
    (fun other different => portWords_elsewhere s i port other replays.1 different)
    (masked_endpoint s i replays.2.2.2) moved

theorem sending_run (s : DmuxState n) (status : BitVec 16) (port : Fin n)
    (target : Target muxClassI status port) (cycles : List (DmuxIn n))
    (high : ∀ j ∈ cycles, j.epSnkI.cyc = true) (sending : Sending s status port)
    (once : TakenOnce port cycles) :
    (run (dmuxStep muxClassI) s cycles).demux = .dmuxPayload ∧
      ∃ words, Moves muxClassI s cycles port (statusWord status :: words) words := by
  induction cycles generalizing s with
  | nil => exact absurd once id
  | cons i rest ih =>
      have here := high i (by simp)
      have after : ∀ j ∈ rest, j.epSnkI.cyc = true := fun j member => high j (by simp [member])
      obtain ⟨state, same, replays⟩ := sending
      have moved := status_step muxClassI s i status port target state replays.2.2.1 same
        (Or.inr replays.1)
      have mine := replays_words s i status port replays here
      have others := fun other different => portWords_elsewhere s i port other replays.1 different
      have masked := masked_endpoint s i replays.2.2.2
      cases stalled : (i.muxSrcI port).stall with
      | true =>
          simp only [TakenOnce, stalled, if_true] at once
          simp only [stalled, if_true] at moved mine
          obtain ⟨final, words, later⟩ := ih _ after moved once
          exact ⟨final, words, by simpa using Moves.cons mine others masked later⟩
      | false =>
          simp only [TakenOnce, stalled] at once
          simp only [stalled] at moved mine
          cases rest with
          | nil =>
              exact ⟨moved.1, [], by simpa using Moves.cons mine others masked (Moves.nil muxClassI _ port)⟩
          | cons j more =>
              have held : (j.muxSrcI port).stall = true := by simpa using once
              obtain ⟨final, words, later⟩ := closing_run muxClassI _ status port j more after moved
              simp only [held, if_true, List.nil_append] at later
              exact ⟨final, words, by simpa using Moves.cons mine others masked later⟩

theorem captured_run (s : DmuxState n) (status : BitVec 16) (port : Fin n)
    (target : Target muxClassI status port) (cycles : List (DmuxIn n))
    (high : ∀ j ∈ cycles, j.epSnkI.cyc = true) (captured : Captured s status)
    (taken : StatusTaken port cycles) :
    (run (dmuxStep muxClassI) s cycles).demux = .dmuxPayload ∧
      ∃ words, Moves muxClassI s cycles port (statusWord status :: words) words := by
  obtain ⟨state, unselected, unsent, held, mask⟩ := captured
  cases cycles with
  | nil => exact absurd taken id
  | cons i rest =>
      have after : ∀ j ∈ rest, j.epSnkI.cyc = true := fun j member => high j (by simp [member])
      have moved := status_step muxClassI s i status port target state held
        (unsent.trans unselected.symm) (Or.inl unselected)
      have quiet := fun any => unselected_words s i any unselected
      have masked := masked_endpoint s i mask
      cases stalled : (i.muxSrcI port).stall with
      | true =>
          simp only [StatusTaken, stalled, if_true] at taken
          simp only [stalled, if_true] at moved
          obtain ⟨final, words, later⟩ := sending_run muxClassI _ status port target rest after moved taken
          exact ⟨final, words, by simpa using Moves.cons (quiet port) (fun o _ => quiet o) masked later⟩
      | false =>
          simp only [StatusTaken, stalled] at taken
          simp only [stalled] at moved
          obtain ⟨j, first, free⟩ := taken
          cases rest with
          | nil => simp at first
          | cons k more =>
              obtain rfl : k = j := by simpa using first
              obtain ⟨final, words, later⟩ := closing_run muxClassI _ status port k more after moved
              simp only [free] at later
              exact ⟨final, words, by simpa using Moves.cons (quiet port) (fun o _ => quiet o) masked later⟩

/-- A cycle without a word: cyc is low or stb is. -/
def Idle (i : DmuxIn n) : Prop := i.epSnkI.cyc = false ∨ i.epSnkI.stb = false

omit [NeZero n] in
theorem idle_taken (i : DmuxIn n) (idle : Idle i) (stall : Bool) : taken i.epSnkI stall = [] := by
  rcases idle with low | low
  · exact taken_of_not_cyc _ _ low
  · exact taken_of_not_stb _ _ low

/-- Waiting without a word clears the selection that the last frame left behind. -/
theorem wait_step (s : DmuxState n) (i : DmuxIn n) (waiting : s.demux = .dmuxWait) (idle : Idle i) :
    Clean (dmuxStep muxClassI s i) := by
  have nothing : (i.epSnkI.cyc && i.epSnkI.stb && i.epSnkI.adr == cWrfStatus) = false := by
    rcases idle with low | low <;> simp [low]
  simp [Clean, dmuxStep, waiting, nothing]

omit [NeZero n] in
theorem idle_words (s : DmuxState n) (i : DmuxIn n) (port : Fin n) (idle : Idle i)
    (unsent : s.dmuxSndStat = none n) : portWords port s i = [] := by
  rcases idle with low | low
  · apply taken_of_not_cyc
    simp [muxSrcO, low]
  · apply taken_of_not_stb
    simp [muxSrcO, low, unsent, none]

theorem clean_run (s : DmuxState n) (port : Fin n) (cycles : List (DmuxIn n))
    (idle : ∀ i ∈ cycles, Idle i) (clean : Clean s) :
    Clean (run (dmuxStep muxClassI) s cycles) ∧ Moves muxClassI s cycles port [] [] := by
  induction cycles generalizing s with
  | nil => exact ⟨clean, Moves.nil muxClassI s port⟩
  | cons i rest ih =>
      have here := idle i (by simp)
      obtain ⟨still, moved⟩ := ih _ (fun j member => idle j (by simp [member]))
        (wait_step muxClassI s i clean.1 here)
      refine ⟨still, ?_⟩
      simpa using Moves.cons (idle_words s i port here clean.2.2.1)
        (fun other _ => idle_words s i other here clean.2.2.1) (idle_taken i here _) moved

/-- A frame that starts from a clean state, or two idle cycles after the end of the
frame before it, finds the demultiplexer clean when its STATUS word comes. -/
theorem settle_run (s : DmuxState n) (port : Fin n) (frame : Frame n) (formed : frame.WellFormed)
    (start : Clean s ∨ (s.demux = .dmuxPayload ∧ frame.gap ≠ [] ∧
      2 ≤ frame.gap.length + frame.lead.length)) :
    Clean (run (dmuxStep muxClassI) s (frame.gap ++ frame.lead)) ∧
      Moves muxClassI s (frame.gap ++ frame.lead) port [] [] := by
  have idle : ∀ i ∈ frame.gap ++ frame.lead, Idle i := by
    intro i member
    rcases List.mem_append.mp member with inGap | inLead
    · exact Or.inl (formed.gap_low i inGap)
    · exact Or.inr (formed.lead_empty i inLead)
  rcases start with clean | ⟨ended, some_gap, spaced⟩
  · exact clean_run muxClassI s port _ idle clean
  · obtain ⟨g, gs, gap_eq⟩ := List.exists_cons_of_ne_nil some_gap
    have low : g.epSnkI.cyc = false := formed.gap_low g (by simp [gap_eq])
    -- the first low cycle ends the old frame, the second one forgets its port
    obtain ⟨j, more, tail_eq⟩ : ∃ j more, gs ++ frame.lead = j :: more := by
      apply List.exists_cons_of_ne_nil
      intro empty
      have : gs.length + frame.lead.length = 0 := by simpa using congrArg List.length empty
      simp only [gap_eq, List.length_cons] at spaced
      omega
    have whole : frame.gap ++ frame.lead = g :: j :: more := by simp [gap_eq, tail_eq]
    have idle_j : Idle j := idle j (by simp [whole])
    have waiting : (dmuxStep muxClassI s g).demux = .dmuxWait := by simp [dmuxStep, ended, low]
    have unsent : (dmuxStep muxClassI s g).dmuxSndStat = none n := by simp [dmuxStep, ended]
    have dead : ∀ any, portWords any s g = [] := fun any =>
      taken_of_not_cyc _ _ (by simp [muxSrcO, low])
    obtain ⟨clean, moved⟩ := clean_run muxClassI _ port more
      (fun k member => idle k (by simp [whole, member])) (wait_step muxClassI _ j waiting idle_j)
    rw [whole]
    refine ⟨clean, ?_⟩
    have second := Moves.cons (idle_words _ j port idle_j unsent)
      (fun other _ => idle_words _ j other idle_j unsent) (idle_taken j idle_j _) moved
    simpa using Moves.cons (dead port) (fun other _ => dead other) (taken_of_not_cyc _ _ low) second

/-- The condition on one frame under which the demultiplexer delivers it. -/
structure Frame.Deliverable (frame : Frame n) : Prop where
  both_bytes : frame.status.epSnkI.sel = 0b11#2
  status_taken : ∀ port, Target muxClassI frame.status.epSnkI.dat port → StatusTaken port frame.rest

theorem frame_run (s : DmuxState n) (port : Fin n) (frame : Frame n) (formed : frame.WellFormed)
    (start : Clean s ∨ (s.demux = .dmuxPayload ∧ frame.gap ≠ [] ∧
      2 ≤ frame.gap.length + frame.lead.length))
    (deliverable : frame.Deliverable muxClassI)
    (target : Target muxClassI frame.status.epSnkI.dat port) :
    (run (dmuxStep muxClassI) s frame.cycles).demux = .dmuxPayload ∧
      ∃ words, Moves muxClassI s frame.cycles port
        (statusWord frame.status.epSnkI.dat :: words)
        (statusWord frame.status.epSnkI.dat :: words) := by
  obtain ⟨clean, idle⟩ := settle_run muxClassI s port frame formed start
  have captured : Captured (dmuxStep muxClassI
      (run (dmuxStep muxClassI) s (frame.gap ++ frame.lead)) frame.status) frame.status.epSnkI.dat := by
    simp [Captured, dmuxStep, clean.1, formed.status_high, formed.status_word, formed.status_adr]
  obtain ⟨final, words, moved⟩ := captured_run muxClassI _ _ port target frame.rest formed.rest_high
    captured (deliverable.status_taken port target)
  have quiet := fun any => unselected_words _ frame.status any clean.2.1
  have accepted : epWords (run (dmuxStep muxClassI) s (frame.gap ++ frame.lead)) frame.status =
      [statusWord frame.status.epSnkI.dat] := by
    have unselected : anySet (none n) = false := by simp [anySet, none]
    simp [epWords, taken, epSnkOutStall, clean.2.1, clean.2.2.2, unselected, formed.status_high,
      formed.status_word, SourceOut.word, statusWord, formed.status_adr, deliverable.both_bytes]
  have shape : frame.cycles = (frame.gap ++ frame.lead) ++ frame.status :: frame.rest := by
    simp [Frame.cycles]
  rw [shape, run_append]
  refine ⟨final, words, ?_⟩
  simpa using idle.append (Moves.cons (quiet port) (fun other _ => quiet other) accepted moved)

theorem target_exists (status : BitVec 16) : ∃ port, Target muxClassI status port := by
  by_cases matched : ∃ port, dmuxSel muxClassI status port = true
  · obtain ⟨port, set, least⟩ := WellFounded.has_min (wellFounded_lt (α := Fin n))
      {port | dmuxSel muxClassI status port = true} matched
    refine ⟨port, Or.inl ⟨set, fun lower less => ?_⟩⟩
    by_contra hit
    exact least lower (by simpa using hit) less
  · exact ⟨lastPort, Or.inr ⟨by simpa using matched, rfl⟩⟩

/-- After whole deliverable frames the demultiplexer is where the next frame may
start: clean from reset, or at the end of the payload. -/
theorem frames_end (frames : List (Frame n)) (formed : ∀ f ∈ frames, f.WellFormed)
    (separated : ∀ f ∈ frames.tail, f.gap ≠ [])
    (spaced : ∀ f ∈ frames.tail, 2 ≤ f.gap.length + f.lead.length)
    (deliverable : ∀ f ∈ frames, f.Deliverable muxClassI) (some_frame : frames ≠ []) :
    (run (dmuxStep muxClassI) (dmuxReset n) (cyclesOf frames)).demux = .dmuxPayload := by
  have later : ∀ (rest : List (Frame n)) (s : DmuxState n), s.demux = .dmuxPayload →
      (∀ f ∈ rest, f.WellFormed ∧ f.gap ≠ [] ∧ 2 ≤ f.gap.length + f.lead.length ∧
        f.Deliverable muxClassI) →
      (run (dmuxStep muxClassI) s (cyclesOf rest)).demux = .dmuxPayload := by
    intro rest
    induction rest with
    | nil => exact fun s ended _ => ended
    | cons f more ih =>
        intro s ended good
        obtain ⟨wf, some_gap, wide, deliver⟩ := good f (by simp)
        obtain ⟨port, target⟩ := target_exists muxClassI f.status.epSnkI.dat
        have step := frame_run muxClassI s port f wf (Or.inr ⟨ended, some_gap, wide⟩) deliver target
        rw [cyclesOf, List.flatMap_cons, run_append]
        exact ih _ step.1 (fun g member => good g (by simp [member]))
  cases frames with
  | nil => exact absurd rfl some_frame
  | cons f more =>
      obtain ⟨port, target⟩ := target_exists muxClassI f.status.epSnkI.dat
      have clean : Clean (dmuxReset n) := ⟨rfl, rfl, rfl, rfl⟩
      have step := frame_run muxClassI (dmuxReset n) port f (formed f (by simp)) (Or.inl clean)
        (deliverable f (by simp)) target
      rw [cyclesOf, List.flatMap_cons, run_append]
      exact later more _ step.1 fun g member =>
        ⟨formed g (by simp [member]), separated g member, spaced g member,
          deliverable g (by simp [member])⟩

/-- Every frame of the run goes to its port and to no other: the port takes the
STATUS word once and then exactly the words taken from the endpoint, provided the
endpoint leaves two cycles without a word between frames and the port stalls as
`StatusTaken` asks after each STATUS word. -/
theorem frames_delivered (frames : List (Frame n)) (formed : ∀ f ∈ frames, f.WellFormed)
    (separated : ∀ f ∈ frames.tail, f.gap ≠ [])
    (spaced : ∀ f ∈ frames.tail, 2 ≤ f.gap.length + f.lead.length)
    (deliverable : ∀ f ∈ frames, f.Deliverable muxClassI)
    (before after : List (Frame n)) (frame : Frame n) (split : frames = before ++ frame :: after) :
    ∃ port words, Target muxClassI frame.status.epSnkI.dat port ∧
      Moves muxClassI (run (dmuxStep muxClassI) (dmuxReset n) (cyclesOf before)) frame.cycles port
        (statusWord frame.status.epSnkI.dat :: words)
        (statusWord frame.status.epSnkI.dat :: words) := by
  subst split
  obtain ⟨port, target⟩ := target_exists muxClassI frame.status.epSnkI.dat
  have start : Clean (run (dmuxStep muxClassI) (dmuxReset n) (cyclesOf before)) ∨
      ((run (dmuxStep muxClassI) (dmuxReset n) (cyclesOf before)).demux = .dmuxPayload ∧
        frame.gap ≠ [] ∧ 2 ≤ frame.gap.length + frame.lead.length) := by
    cases before with
    | nil => exact Or.inl ⟨rfl, rfl, rfl, rfl⟩
    | cons f more =>
        refine Or.inr ⟨?_, separated frame (by simp), spaced frame (by simp)⟩
        refine frames_end muxClassI (f :: more) ?_ ?_ ?_ ?_ (by simp)
        · exact fun g member => formed g (List.mem_append_left _ member)
        · exact fun g member => separated g (List.mem_append_left _ member)
        · exact fun g member => spaced g (List.mem_append_left _ member)
        · exact fun g member => deliverable g (List.mem_append_left _ member)
  obtain ⟨-, words, moved⟩ := frame_run muxClassI _ port frame (formed frame (by simp)) start
    (deliverable frame (by simp)) target
  exact ⟨port, words, target, moved⟩

/-- A cycle of one-port traffic: the endpoint's cyc and stb, one STATUS word, and
the port's stall. -/
def statusCycle (cyc stb stall : Bool) : DmuxIn 1 :=
  ⟨⟨cWrfStatus, 0x0100, cyc, stb, true, 0b11⟩, fun _ => ⟨false, stall, false, false⟩⟩

/-- The port stalls once and is then free. -/
def stallOnce : Frame 1 where
  gap := [statusCycle false false false]
  lead := []
  status := statusCycle true true false
  rest := [statusCycle true false true, statusCycle true false false, statusCycle true false false]

/-- The port is never stalled. -/
def stallNever : Frame 1 where
  gap := [statusCycle false false false, statusCycle false false false]
  lead := []
  status := statusCycle true true false
  rest := [statusCycle true false false, statusCycle true false false]

/-- One stalled cycle is enough to deliver the STATUS word twice: it is taken in the
cycle in which the FSM sees the stall fall, and again in the cycle after it. -/
theorem status_taken_twice :
    stallOnce.WellFormed ∧ Target (fun _ => 0x01) stallOnce.status.epSnkI.dat (0 : Fin 1) ∧
      collect (dmuxStep fun _ => 0x01) epWords (dmuxReset 1) stallOnce.cycles =
        [statusWord 0x0100] ∧
      collect (dmuxStep fun _ => 0x01) (portWords 0) (dmuxReset 1) stallOnce.cycles =
        [statusWord 0x0100, statusWord 0x0100] := by
  refine ⟨?_, Or.inl ⟨by decide, by decide⟩, by decide, by decide⟩
  constructor <;> simp [stallOnce, statusCycle]

theorem frames_delivered_twice :
    ∃ port words, Target (fun _ => 0x01) stallNever.status.epSnkI.dat port ∧
      Moves (fun _ => 0x01)
        (run (dmuxStep fun _ => 0x01) (dmuxReset 1) (cyclesOf [stallNever])) stallNever.cycles port
        (statusWord stallNever.status.epSnkI.dat :: words)
        (statusWord stallNever.status.epSnkI.dat :: words) := by
  have formed : stallNever.WellFormed := by constructor <;> simp [stallNever, statusCycle]
  have deliverable : stallNever.Deliverable fun _ => 0x01 :=
    ⟨rfl, fun port _ => by simp [StatusTaken, stallNever, statusCycle]⟩
  exact frames_delivered (fun _ => 0x01) [stallNever, stallNever] (by simpa using formed)
    (by simp [stallNever]) (by simp [stallNever]) (by simpa using deliverable)
    [stallNever] [] stallNever rfl

end Run

end WrCores.Fabric.Mux
