import WrCores.Endpoint.Injection
import WrCores.Fabric.Pkg

/-!
ep_tx_vlan_unit.vhd, while nobody writes to the memory with the untagged set. The outputs are those
of a cycle, the bits the source sets to 'X' are zero.
-/

namespace WrCores.Endpoint

open Clocked
open Fabric (cWrfData)

inductive TxVlanState where
  | idle | checkEthertype | pushQheader1 | popQheader2 | popQheader3 | popEthertype
  deriving DecidableEq, Repr

structure TxVlanIn where
  fab : InternalFabric := {}
  srcDreq : Bool := true
  injectMemAddr : BitVec 10 := 0
  rstN : Bool := true
  deriving DecidableEq, Repr

structure TxVlan where
  state : TxVlanState := .idle
  counter : BitVec 3 := 0
  vutUntagReg : Bool := false
  vutStoredTag : BitVec 16 := 0
  vutStoredEthertype : BitVec 16 := 0
  flushEthertype : Bool := false
  flushed : Bool := false
  memRdata : BitVec 18 := 0
  srcDreqD0 : Bool := false
  deriving DecidableEq, Repr

def cVlanEthertype : BitVec 16 := 0x8100

namespace TxVlan

def memAddrMuxed (s : TxVlan) (i : TxVlanIn) : BitVec 10 :=
  if s.state != .idle then 0#2 ++ i.fab.data.extractLsb' 4 8 else i.injectMemAddr

def vutUntag (s : TxVlan) : Bool := s.memRdata.getLsbD (s.vutStoredTag.extractLsb' 0 4).toNat

/-- `p_main_fsm`. -/
def fsmStep (s : TxVlan) (i : TxVlanIn) : TxVlan :=
  if !i.rstN then { s with state := .idle }
  else
    match s.state with
    | .idle =>
        { s with
          flushed := false
          counter :=
            if i.fab.dvalid && i.fab.addr == cWrfData && s.counter != 6 then s.counter + 1
            else if i.fab.sof then 0 else s.counter
          flushEthertype := s.flushEthertype && !i.srcDreq
          state := if i.fab.dvalid && s.counter == 5 then .checkEthertype else .idle }
    | .checkEthertype =>
        { s with
          vutStoredEthertype := i.fab.data
          state :=
            if i.fab.dvalid then (if i.fab.data == cVlanEthertype then .pushQheader1 else .idle)
            else .checkEthertype }
    | .pushQheader1 =>
        { s with
          vutUntagReg := false
          vutStoredTag := if i.fab.dvalid then i.fab.data else s.vutStoredTag
          state := if i.fab.dvalid then .popEthertype else .pushQheader1 }
    | .popEthertype =>
        { s with
          vutUntagReg := s.vutUntagReg || s.vutUntag
          vutStoredEthertype := if i.fab.dvalid then i.fab.data else s.vutStoredEthertype
          flushEthertype :=
            if s.srcDreqD0 then false else s.flushEthertype || (!i.srcDreq && !s.flushed)
          flushed := s.flushed || s.srcDreqD0
          state :=
            if !s.vutUntag && !s.vutUntagReg && s.srcDreqD0 then .popQheader2
            else if (s.vutUntag || s.vutUntagReg) && i.srcDreq then .idle
            else .popEthertype }
    | .popQheader2 => { s with state := if s.srcDreqD0 then .popQheader3 else .popQheader2 }
    | .popQheader3 => { s with state := if s.srcDreqD0 then .idle else .popQheader3 }

def step (mem : BitVec 10 → BitVec 18) (s : TxVlan) (i : TxVlanIn) : TxVlan :=
  { s.fsmStep i with
    memRdata := mem (s.memAddrMuxed i)
    srcDreqD0 := i.srcDreq }

/-- `src_fab_o`. -/
def srcFab (s : TxVlan) (i : TxVlanIn) : InternalFabric :=
  match s.state with
  | .idle =>
      { sof := i.fab.sof, eof := i.fab.eof, error := i.fab.error, bytesel := i.fab.bytesel, addr := i.fab.addr
        dvalid := i.fab.dvalid || s.flushEthertype
        data := if s.flushEthertype then s.vutStoredEthertype else i.fab.data }
  | .checkEthertype =>
      { dvalid := i.fab.dvalid && i.fab.data != cVlanEthertype, data := i.fab.data, addr := i.fab.addr }
  | .pushQheader1 => {}
  | .popEthertype =>
      if s.vutUntag then { dvalid := i.fab.dvalid && s.srcDreqD0, data := i.fab.data }
      else { dvalid := s.srcDreqD0, data := cVlanEthertype }
  | .popQheader2 => { dvalid := s.srcDreqD0, data := s.vutStoredTag }
  | .popQheader3 => { dvalid := s.srcDreqD0, data := s.vutStoredEthertype }

def snkDreq (s : TxVlan) (i : TxVlanIn) : Bool :=
  match s.state with
  | .idle => i.srcDreq
  | .checkEthertype => i.srcDreq
  | .pushQheader1 => true
  | .popEthertype => s.vutUntag && i.srcDreq && s.srcDreqD0
  | .popQheader2 => false
  | .popQheader3 => i.srcDreq && s.srcDreqD0

def heard (s : TxVlan) (i : TxVlanIn) : List FabEvent := (s.srcFab i).txEvents

/-! ### Frames -/

variable (mem : BitVec 10 → BitVec 18)

/-- The VID of a tag is in the untagged set. -/
def untagged (tag : BitVec 16) : Bool :=
  (mem (0#2 ++ tag.extractLsb' 4 8)).getLsbD (tag.extractLsb' 0 4).toNat

def removeTag : List (BitVec 16 × Bool) → List (BitVec 16 × Bool)
  | ethertype :: tag :: rest =>
      if ethertype.1 == cVlanEthertype && untagged mem tag.1 then rest else ethertype :: tag :: rest
  | words => words

/-- What a frame is to go out with: a tag behind six words is taken out if its VID is in the set. -/
def detagged (words : List (BitVec 16 × Bool)) : List (BitVec 16 × Bool) :=
  words.take 6 ++ removeTag mem (words.drop 6)

/-- A frame: its words, its `eof` or error, and what went out from its start to that of the next one. -/
structure Frame where
  words : List (BitVec 16 × Bool) := []
  ends : List FabEvent := []
  heard : List FabEvent := []
  deriving DecidableEq, Repr

structure Book where
  done : List Frame := []
  current : Option Frame := none
  /-- `src_dreq_i` and `snk_dreq_o` of the cycle before -/
  dreq : Bool := false
  asked : Bool := false
  deriving DecidableEq, Repr

def newWords (i : TxVlanIn) : List (BitVec 16 × Bool) := if i.fab.dvalid then [(i.fab.data, i.fab.bytesel)] else []

def flags (i : TxVlanIn) : List FabEvent :=
  (if i.fab.eof then [FabEvent.eof] else []) ++ if i.fab.error then [FabEvent.error] else []

def Frame.next (f : Frame) (s : TxVlan) (i : TxVlanIn) : Frame :=
  { words := f.words ++ newWords i
    ends := f.ends ++ flags i
    heard := f.heard ++ s.heard i }

def Book.next (b : Book) (s : TxVlan) (i : TxVlanIn) : Book :=
  let kept := { b with dreq := i.srcDreq, asked := s.snkDreq i }
  if i.fab.sof then
    { kept with done := b.done ++ b.current.toList, current := some { heard := s.heard i } }
  else { kept with current := b.current.map (·.next s i) }

def stepBook (sb : TxVlan × Book) (i : TxVlanIn) : TxVlan × Book := (sb.1.step mem i, sb.2.next sb.1 i)

/-- The source sends frame after frame and obeys `snk_dreq_o`. -/
structure Legal (b : Book) (i : TxVlanIn) : Prop where
  rstN : i.rstN = true
  start : i.fab.sof = true → b.asked = true ∧ i.fab.dvalid = false ∧ i.fab.eof = false ∧ i.fab.error = false ∧
    ∀ f ∈ b.current, f.ends ≠ []
  word : i.fab.dvalid = true → b.asked = true ∧ i.fab.addr = cWrfData ∧ ∃ f ∈ b.current, f.ends = []
  bytesel : i.fab.bytesel = true → i.fab.dvalid = true

/-- Where the unit does its work: while it holds back words the source raises no flag; behind a tag
that stays, its memory is not read again and the next word follows at once; behind one that goes, the
next word comes along with a pause of the sink if the sink paused before it, and else does not come
yet; and a word that is left over is taken. -/
structure Fits (s : TxVlan) (b : Book) (i : TxVlanIn) : Prop where
  plain : s.state ≠ .idle →
    i.fab.sof = false ∧ i.fab.eof = false ∧ i.fab.error = false ∧ i.fab.bytesel = false
  stays : s.state = .popEthertype → untagged mem s.vutStoredTag = false → s.vutUntag = false
  behind : s.state = .popEthertype → ∀ f ∈ b.current, f.words.length = 8 →
    if untagged mem s.vutStoredTag then s.srcDreqD0 = false → s.flushed = false → i.fab.dvalid = !i.srcDreq
    else i.fab.dvalid = true
  left : s.state = .idle → s.flushEthertype = true → i.srcDreq = true

def asEvent (w : BitVec 16 × Bool) : FabEvent := .word w.1 w.2

/-- A frame goes out with its flags, and without a tag of the set. -/
def Frame.Detagged (f : Frame) : Prop := f.heard = .sof :: ((detagged mem f.words).map asEvent ++ f.ends)

/-! ### One cycle -/

/-- The frame brought `words`, and `out` went out. -/
structure Sent (f : Frame) (words out : List (BitVec 16 × Bool)) : Prop where
  words : f.words = words
  heard : f.heard = .sof :: (out.map asEvent ++ f.ends)

def Settled (rest : List (BitVec 16 × Bool)) : Prop :=
  ∀ more, removeTag mem (rest ++ more) = removeTag mem rest ++ more

def ethertypeWord : BitVec 16 × Bool := (cVlanEthertype, false)

def tagWord (s : TxVlan) : BitVec 16 × Bool := (s.vutStoredTag, false)

def storedWord (s : TxVlan) : BitVec 16 × Bool := (s.vutStoredEthertype, false)

/-- The unit is past the sixth word of a frame that has not ended, and reads no word in this cycle. -/
structure Past (s : TxVlan) (asked : Bool) (f : Frame) : Prop where
  counter : s.counter = 6
  ends : f.ends = []
  asked : asked = false

/-- Where a frame under way stands. -/
inductive Phase (s : TxVlan) (dreq asked : Bool) (f : Frame) : Prop
  | short (state : s.state = .idle) (flush : s.flushEthertype = false) (follows : asked = true → dreq = true)
      (few : f.words.length < 6) (count : s.counter.toNat = f.words.length) (sent : Sent f f.words f.words)
  | pass (six rest : List (BitVec 16 × Bool)) (state : s.state = .idle) (flush : s.flushEthertype = false)
      (follows : asked = true → dreq = true) (counter : s.counter = 6) (long : six.length = 6)
      (settled : Settled mem rest) (sent : Sent f (six ++ rest) (six ++ removeTag mem rest))
  | left (six : List (BitVec 16 × Bool)) (state : s.state = .idle) (flush : s.flushEthertype = true)
      (request : dreq = true) (past : Past s asked f) (long : six.length = 6)
      (gone : untagged mem s.vutStoredTag = true)
      (sent : Sent f (six ++ [ethertypeWord, s.tagWord, s.storedWord]) six)
  | check (state : s.state = .checkEthertype) (flush : s.flushEthertype = false) (flushed : s.flushed = false)
      (follows : asked = true → dreq = true) (counter : s.counter = 6) (long : f.words.length = 6)
      (sent : Sent f f.words f.words)
  | push (six : List (BitVec 16 × Bool)) (state : s.state = .pushQheader1) (flush : s.flushEthertype = false)
      (flushed : s.flushed = false) (counter : s.counter = 6) (ends : f.ends = []) (long : six.length = 6)
      (sent : Sent f (six ++ [ethertypeWord]) six)
  | fresh (six : List (BitVec 16 × Bool)) (state : s.state = .popEthertype) (flush : s.flushEthertype = false)
      (flushed : s.flushed = false) (reg : s.vutUntagReg = false)
      (looked : s.vutUntag = untagged mem s.vutStoredTag) (counter : s.counter = 6) (ends : f.ends = [])
      (long : six.length = 6) (sent : Sent f (six ++ [ethertypeWord, s.tagWord]) six)
  | passed (six rest : List (BitVec 16 × Bool)) (state : s.state = .popEthertype)
      (flush : s.flushEthertype = false) (flushed : s.flushed = true) (reg : s.vutUntagReg = true)
      (pause : s.srcDreqD0 = false) (past : Past s asked f) (long : six.length = 6)
      (gone : untagged mem s.vutStoredTag = true)
      (sent : Sent f (six ++ ethertypeWord :: s.tagWord :: rest) (six ++ rest))
  | pending (six : List (BitVec 16 × Bool)) (state : s.state = .popEthertype)
      (flush : s.flushEthertype = true) (flushed : s.flushed = false) (reg : s.vutUntagReg = true)
      (pause : s.srcDreqD0 = false) (past : Past s asked f) (long : six.length = 6)
      (gone : untagged mem s.vutStoredTag = true)
      (sent : Sent f (six ++ [ethertypeWord, s.tagWord, s.storedWord]) six)
  | stays (six : List (BitVec 16 × Bool)) (state : s.state = .popEthertype) (reg : s.vutUntagReg = false)
      (past : Past s asked f) (long : six.length = 6) (kept : untagged mem s.vutStoredTag = false)
      (sent : Sent f (six ++ [ethertypeWord, s.tagWord, s.storedWord]) six)
  | second (six : List (BitVec 16 × Bool)) (state : s.state = .popQheader2) (flush : s.flushEthertype = false)
      (past : Past s asked f) (long : six.length = 6) (kept : untagged mem s.vutStoredTag = false)
      (sent : Sent f (six ++ [ethertypeWord, s.tagWord, s.storedWord]) (six ++ [ethertypeWord]))
  | third (six : List (BitVec 16 × Bool)) (state : s.state = .popQheader3) (flush : s.flushEthertype = false)
      (past : Past s asked f) (long : six.length = 6) (kept : untagged mem s.vutStoredTag = false)
      (sent : Sent f (six ++ [ethertypeWord, s.tagWord, s.storedWord]) (six ++ [ethertypeWord, s.tagWord]))

section Edge

variable {mem} {s : TxVlan} {b : Book} {f : Frame} {i : TxVlanIn} {asked dreq : Bool}
  {words out six rest : List (BitVec 16 × Bool)}

theorem Sent.next (sent : Sent f words out) {passes : List (BitVec 16 × Bool)}
    (heard : s.heard i = passes.map asEvent ++ flags i) (inside : passes = [] ∨ f.ends = []) :
    Sent (f.next s i) (words ++ newWords i) (out ++ passes) := by
  constructor
  · simp [Frame.next, sent.words]
  · rcases inside with none | running
    · simp [Frame.next, sent.heard, heard, none]
    · simp [Frame.next, sent.heard, heard, running]

theorem idle_heard (state : s.state = .idle) (flush : s.flushEthertype = false) (sof : i.fab.sof = false) :
    s.heard i = (newWords i).map asEvent ++ flags i := by
  cases valid : i.fab.dvalid <;>
    simp [heard, srcFab, InternalFabric.txEvents, newWords, flags, asEvent, state, flush, sof, valid]

theorem settled_long (ethertype tag : BitVec 16 × Bool) : Settled mem (ethertype :: tag :: rest) := by
  intro more
  simp only [List.cons_append, removeTag]
  split <;> simp

theorem settled_plain {word : BitVec 16 × Bool} (plain : word.1 ≠ cVlanEthertype) : Settled mem [word] := by
  intro more
  cases more with
  | nil => simp
  | cons tag more => simp [removeTag, plain]

theorem removeTag_gone (gone : untagged mem s.vutStoredTag = true) :
    removeTag mem (ethertypeWord :: s.tagWord :: rest) = rest := by
  simp [removeTag, ethertypeWord, tagWord, gone]

theorem Sent.gone (gone : untagged mem s.vutStoredTag = true)
    (sent : Sent f (six ++ ethertypeWord :: s.tagWord :: rest) (six ++ rest)) :
    Sent f (six ++ ethertypeWord :: s.tagWord :: rest)
      (six ++ removeTag mem (ethertypeWord :: s.tagWord :: rest)) := by
  rwa [removeTag_gone gone]

theorem removeTag_kept (kept : untagged mem s.vutStoredTag = false) :
    removeTag mem (ethertypeWord :: s.tagWord :: rest) = ethertypeWord :: s.tagWord :: rest := by
  simp [removeTag, tagWord, kept]

/-- What the frame under way becomes. -/
abbrev Phase.After (mem : BitVec 10 → BitVec 18) (s : TxVlan) (i : TxVlanIn) (f : Frame) : Prop :=
  Phase mem (s.step mem i) i.srcDreq (s.snkDreq i) (f.next s i)

theorem Legal.running (legal : Legal b i) (now : b.current = some f) : newWords i = [] ∨ f.ends = [] := by
  cases valid : i.fab.dvalid with
  | false => exact .inl (by simp [newWords, valid])
  | true =>
      obtain ⟨-, -, g, mem', running⟩ := legal.word valid
      rw [now, Option.mem_some_iff] at mem'
      exact .inr (mem' ▸ running)

theorem short_step (legal : Legal b i) (now : b.current = some f) (sof : i.fab.sof = false)
    (state : s.state = .idle) (flush : s.flushEthertype = false) (few : f.words.length < 6)
    (count : s.counter.toNat = f.words.length) (sent : Sent f f.words f.words) : Phase.After mem s i f := by
  have asks : s.snkDreq i = i.srcDreq := by simp [snkDreq, state]
  have sent' : Sent (f.next s i) (f.next s i).words (f.next s i).words :=
    sent.next (idle_heard state flush sof) (legal.running now)
  have more : (f.next s i).words = f.words ++ newWords i := rfl
  have below : s.counter ≠ 6#3 := by bv_omega
  rw [Phase.After, asks]
  cases valid : i.fab.dvalid with
  | false =>
      have same : (f.next s i).words = f.words := by simp [more, newWords, valid]
      refine .short ?_ ?_ id ?_ ?_ sent'
      · simp [step, fsmStep, legal.rstN, state, valid]
      · simp [step, fsmStep, legal.rstN, state, flush]
      · rwa [same]
      · simp [step, fsmStep, legal.rstN, state, sof, valid, same, count]
  | true =>
      have addr := (legal.word valid).2.1
      have length : (f.next s i).words.length = f.words.length + 1 := by simp [more, newWords, valid]
      by_cases last : s.counter = 5#3
      · have five : f.words.length = 5 := by rw [← count, last]; rfl
        refine .check ?_ ?_ ?_ id ?_ (by rw [length, five]) sent' <;>
          simp [step, fsmStep, legal.rstN, state, valid, flush, addr, last]
      · have next : (s.counter + 1#3).toNat = f.words.length + 1 := by bv_omega
        have five : f.words.length ≠ 5 := fun five => last (by bv_omega)
        refine .short ?_ ?_ id (by omega) ?_ sent'
        · simp [step, fsmStep, legal.rstN, state, valid, last]
        · simp [step, fsmStep, legal.rstN, state, flush]
        · simp [step, fsmStep, legal.rstN, state, valid, addr, below, next, length]

theorem pass_step (legal : Legal b i) (now : b.current = some f) (sof : i.fab.sof = false)
    (state : s.state = .idle) (flush : s.flushEthertype = false) (counter : s.counter = 6)
    (long : six.length = 6) (settled : Settled mem rest)
    (sent : Sent f (six ++ rest) (six ++ removeTag mem rest)) : Phase.After mem s i f := by
  have asks : s.snkDreq i = i.srcDreq := by simp [snkDreq, state]
  have sent' := sent.next (idle_heard state flush sof) (legal.running now)
  rw [List.append_assoc, List.append_assoc, ← settled] at sent'
  rw [Phase.After, asks]
  refine .pass six (rest ++ newWords i) ?_ ?_ id ?_ long ?_ sent'
  · simp [step, fsmStep, legal.rstN, state, counter]
  · simp [step, fsmStep, legal.rstN, state, flush]
  · simp [step, fsmStep, legal.rstN, state, counter, sof]
  · intro more
    rw [List.append_assoc, settled, settled, List.append_assoc]

/-- While the unit has not asked, no word comes. -/
theorem Legal.silent (legal : Legal b i) (asked : b.asked = false) : i.fab.dvalid = false := by
  by_contra valid
  have asks := (legal.word (by simpa using valid)).1
  simp [asked] at asks

theorem left_step (legal : Legal b i) (fits : Fits mem s b i) (sof : i.fab.sof = false)
    (state : s.state = .idle) (flush : s.flushEthertype = true) (past : Past s b.asked f) (long : six.length = 6)
    (gone : untagged mem s.vutStoredTag = true)
    (sent : Sent f (six ++ [ethertypeWord, s.tagWord, s.storedWord]) six) : Phase.After mem s i f := by
  have asks : s.snkDreq i = i.srcDreq := by simp [snkDreq, state]
  have silent := legal.silent past.asked
  have plain : i.fab.bytesel = false := by
    by_contra half
    have valid := legal.bytesel (by simpa using half)
    simp [silent] at valid
  have shown : s.heard i = [s.storedWord].map asEvent ++ flags i := by
    simp [heard, srcFab, InternalFabric.txEvents, flags, asEvent, storedWord, state, flush, sof, plain]
  have sent' := sent.next shown (.inr past.ends)
  have none : newWords i = [] := by simp [newWords, silent]
  rw [none, List.append_nil] at sent'
  rw [Phase.After, asks]
  refine .pass six [ethertypeWord, s.tagWord, s.storedWord] ?_ ?_ id ?_ long (settled_long _ _) ?_
  · simp [step, fsmStep, legal.rstN, state, silent]
  · simp [step, fsmStep, legal.rstN, state, fits.left state flush]
  · simp [step, fsmStep, legal.rstN, state, silent, sof, past.counter]
  · exact Sent.gone gone sent'

/-- While words are held back, the source raises no flag. -/
theorem Fits.held_words (fits : Fits mem s b i) (busy : s.state ≠ .idle) :
    flags i = [] ∧ newWords i = if i.fab.dvalid then [(i.fab.data, false)] else [] := by
  obtain ⟨-, eof, error, bytesel⟩ := fits.plain busy
  simp [flags, newWords, eof, error, bytesel]

theorem check_step (legal : Legal b i) (fits : Fits mem s b i) (now : b.current = some f)
    (state : s.state = .checkEthertype) (flush : s.flushEthertype = false) (flushed : s.flushed = false)
    (counter : s.counter = 6) (long : f.words.length = 6) (sent : Sent f f.words f.words) :
    Phase.After mem s i f := by
  have asks : s.snkDreq i = i.srcDreq := by simp [snkDreq, state]
  obtain ⟨none, words⟩ := fits.held_words (by simp [state])
  have inside := legal.running now
  rw [Phase.After, asks]
  cases valid : i.fab.dvalid with
  | false =>
      rw [valid, if_neg Bool.false_ne_true] at words
      have silent : s.heard i = ([] : List (BitVec 16 × Bool)).map asEvent ++ flags i := by
        simp [heard, srcFab, InternalFabric.txEvents, state, valid, none]
      have sent' := sent.next silent (.inl rfl)
      have same : (f.next s i).words = f.words := by simp [Frame.next, words]
      rw [words, List.append_nil] at sent'
      refine .check ?_ ?_ ?_ id ?_ (by rw [same, long]) (by rwa [same]) <;>
        simp [step, fsmStep, legal.rstN, state, valid, flush, flushed, counter]
  | true =>
      rw [valid, if_pos rfl] at words
      by_cases tagged : i.fab.data = cVlanEthertype
      · have silent : s.heard i = ([] : List (BitVec 16 × Bool)).map asEvent ++ flags i := by
          simp [heard, srcFab, InternalFabric.txEvents, state, tagged, none]
        have sent' := sent.next silent (.inl rfl)
        rw [words, List.append_nil, tagged] at sent'
        have running : f.ends = [] := inside.resolve_left (by simp [words])
        refine .push f.words ?_ ?_ ?_ ?_ (by simp [Frame.next, running, none]) long sent' <;>
          simp [step, fsmStep, legal.rstN, state, valid, flush, flushed, counter, tagged]
      · have shown : s.heard i = [(i.fab.data, false)].map asEvent ++ flags i := by
          simp [heard, srcFab, InternalFabric.txEvents, asEvent, state, valid, tagged, none]
        have sent' := sent.next shown (inside.imp_left fun none => by simp [words] at none)
        rw [words] at sent'
        refine .pass f.words [(i.fab.data, false)] ?_ ?_ id ?_ long (settled_plain tagged) sent' <;>
          simp [step, fsmStep, legal.rstN, state, valid, flush, counter, tagged]

theorem push_step (legal : Legal b i) (fits : Fits mem s b i) (state : s.state = .pushQheader1)
    (flush : s.flushEthertype = false) (flushed : s.flushed = false) (counter : s.counter = 6) (ends : f.ends = [])
    (long : six.length = 6) (sent : Sent f (six ++ [ethertypeWord]) six) : Phase.After mem s i f := by
  obtain ⟨none, words⟩ := fits.held_words (by simp [state])
  have silent : s.heard i = ([] : List (BitVec 16 × Bool)).map asEvent ++ flags i := by
    simp [heard, srcFab, InternalFabric.txEvents, state, none]
  have sent' := sent.next silent (.inl rfl)
  have running : (f.next s i).ends = [] := by simp [Frame.next, ends, none]
  rw [List.append_nil, words] at sent'
  cases valid : i.fab.dvalid with
  | false =>
      rw [valid, if_neg Bool.false_ne_true, List.append_nil] at sent'
      refine .push six ?_ ?_ ?_ ?_ running long sent' <;>
        simp [step, fsmStep, legal.rstN, state, valid, flush, flushed, counter]
  | true =>
      rw [valid, if_pos rfl, List.append_assoc] at sent'
      have tag : (s.step mem i).vutStoredTag = i.fab.data := by simp [step, fsmStep, legal.rstN, state, valid]
      refine .fresh six ?_ ?_ ?_ ?_ ?_ ?_ running long (by simpa [tagWord, tag] using sent')
      · simp [step, fsmStep, legal.rstN, state, valid]
      · simp [step, fsmStep, legal.rstN, state, flush]
      · simp [step, fsmStep, legal.rstN, state, flushed]
      · simp [step, fsmStep, legal.rstN, state]
      · rw [vutUntag, tag, untagged]
        simp [step, memAddrMuxed, state]
      · simp [step, fsmStep, legal.rstN, state, counter]

/-- Held words go out without flags. -/
theorem Sent.emits (sent : Sent f words out) (fits : Fits mem s b i) (busy : s.state ≠ .idle)
    {passes : List (BitVec 16 × Bool)} (shown : s.heard i = passes.map asEvent) (ends : f.ends = []) :
    Sent (f.next s i) (words ++ newWords i) (out ++ passes) ∧ (f.next s i).ends = [] := by
  obtain ⟨none, -⟩ := fits.held_words busy
  exact ⟨sent.next (by rw [none, List.append_nil]; exact shown) (.inr ends), by simp [Frame.next, ends, none]⟩

/-- Where no word comes the held ones stay. -/
theorem Sent.replays (sent : Sent f words out) (fits : Fits mem s b i) (busy : s.state ≠ .idle)
    (silent : i.fab.dvalid = false) {passes : List (BitVec 16 × Bool)} (shown : s.heard i = passes.map asEvent)
    (ends : f.ends = []) : Sent (f.next s i) words (out ++ passes) ∧ (f.next s i).ends = [] := by
  obtain ⟨sent', running⟩ := sent.emits fits busy shown ends
  rw [(fits.held_words busy).2, silent, if_neg Bool.false_ne_true, List.append_nil] at sent'
  exact ⟨sent', running⟩

variable (mem) in
theorem replay_kept (rstN : i.rstN = true)
    (state : s.state = .popEthertype ∨ s.state = .popQheader2 ∨ s.state = .popQheader3) :
    (s.step mem i).vutStoredTag = s.vutStoredTag ∧ (s.step mem i).tagWord = s.tagWord ∧
      (i.fab.dvalid = false → (s.step mem i).storedWord = s.storedWord) := by
  rcases state with state | state | state <;> simp_all [tagWord, storedWord, step, fsmStep]

/-- The tag goes: the next word passes, or waits for the sink. -/
theorem fresh_gone (legal : Legal b i) (fits : Fits mem s b i) (now : b.current = some f)
    (state : s.state = .popEthertype) (flush : s.flushEthertype = false) (flushed : s.flushed = false)
    (looked : s.vutUntag = true) (counter : s.counter = 6) (ends : f.ends = []) (long : six.length = 6)
    (gone : untagged mem s.vutStoredTag = true) (sent : Sent f (six ++ [ethertypeWord, s.tagWord]) six) :
    Phase.After mem s i f := by
  have busy : s.state ≠ .idle := by simp [state]
  have words := (fits.held_words busy).2
  obtain ⟨kept, tag, -⟩ := replay_kept mem legal.rstN (.inl state)
  have eight : f.words.length = 8 := by rw [sent.words]; simp [long]
  have behind := fits.behind state f now eight
  rw [gone, if_pos rfl] at behind
  have asks : s.snkDreq i = (i.srcDreq && s.srcDreqD0) := by simp [snkDreq, state, looked]
  rw [Phase.After, asks]
  cases delayed : s.srcDreqD0 with
  | true =>
      have shown : s.heard i = (newWords i).map asEvent := by
        rw [words]
        cases valid : i.fab.dvalid <;>
          simp [heard, srcFab, InternalFabric.txEvents, state, looked, delayed, valid, asEvent]
      obtain ⟨sent', running⟩ := sent.emits fits busy shown ends
      rw [List.append_assoc] at sent'
      cases dreq : i.srcDreq with
      | true =>
          refine .pass six _ ?_ ?_ id ?_ long (settled_long _ _) (Sent.gone gone sent') <;>
            simp [step, fsmStep, legal.rstN, state, looked, delayed, dreq, counter]
      | false =>
          refine .passed six (newWords i) ?_ ?_ ?_ ?_ ?_ ⟨?_, running, rfl⟩ long (by rw [kept, gone])
            (by rw [tag]; exact sent') <;>
            simp [step, fsmStep, legal.rstN, state, looked, delayed, dreq, counter]
  | false =>
      have shown : s.heard i = ([] : List (BitVec 16 × Bool)).map asEvent := by
        simp [heard, srcFab, InternalFabric.txEvents, state, looked, delayed]
      obtain ⟨sent', running⟩ := sent.emits fits busy shown ends
      rw [List.append_nil, words, behind delayed flushed] at sent'
      cases dreq : i.srcDreq with
      | true =>
          rw [dreq, Bool.not_true, if_neg Bool.false_ne_true, List.append_nil] at sent'
          have sent' : Sent (f.next s i) (six ++ [ethertypeWord, s.tagWord]) (six ++ []) := by simpa using sent'
          refine .pass six _ ?_ ?_ (by simp) ?_ long (settled_long _ _) (Sent.gone gone sent') <;>
            simp [step, fsmStep, legal.rstN, state, looked, delayed, dreq, counter, flush]
      | false =>
          have valid : i.fab.dvalid = true := by rw [behind delayed flushed, dreq]; rfl
          have stored : (s.step mem i).storedWord = (i.fab.data, false) := by
            simp [storedWord, step, fsmStep, legal.rstN, state, valid]
          rw [dreq, Bool.not_false, if_pos rfl, List.append_assoc] at sent'
          refine .pending six ?_ ?_ ?_ ?_ ?_ ⟨?_, running, rfl⟩ long (by rw [kept, gone])
            (by rw [tag, stored]; exact sent') <;>
            simp [step, fsmStep, legal.rstN, state, looked, delayed, dreq, counter, flush, flushed]

/-- The tag stays: three words are replayed. -/
theorem fresh_kept (legal : Legal b i) (fits : Fits mem s b i) (now : b.current = some f)
    (state : s.state = .popEthertype) (reg : s.vutUntagReg = false) (looked : s.vutUntag = false)
    (counter : s.counter = 6) (ends : f.ends = []) (long : six.length = 6)
    (kept : untagged mem s.vutStoredTag = false) (sent : Sent f (six ++ [ethertypeWord, s.tagWord]) six) :
    Phase.After mem s i f := by
  have busy : s.state ≠ .idle := by simp [state]
  have words := (fits.held_words busy).2
  have eight : f.words.length = 8 := by rw [sent.words]; simp [long]
  have valid := fits.behind state f now eight
  rw [kept, if_neg Bool.false_ne_true] at valid
  have asks : s.snkDreq i = false := by simp [snkDreq, state, looked]
  obtain ⟨same, tag, -⟩ := replay_kept mem legal.rstN (.inl state)
  have stored : (s.step mem i).storedWord = (i.fab.data, false) := by
    simp [storedWord, step, fsmStep, legal.rstN, state, valid]
  have shown : s.heard i = (if s.srcDreqD0 then [ethertypeWord] else []).map asEvent := by
    cases delayed : s.srcDreqD0 <;>
      simp [heard, srcFab, InternalFabric.txEvents, state, looked, delayed, ethertypeWord, asEvent]
  obtain ⟨sent', running⟩ := sent.emits fits busy shown ends
  rw [words, valid, if_pos rfl, List.append_assoc, ← stored, ← tag] at sent'
  rw [Phase.After, asks]
  cases delayed : s.srcDreqD0 with
  | true =>
      rw [delayed, if_pos rfl] at sent'
      refine .second six ?_ ?_ ⟨?_, running, rfl⟩ long (by rw [same, kept]) sent' <;>
        simp [step, fsmStep, legal.rstN, state, looked, delayed, counter, reg]
  | false =>
      rw [delayed, if_neg Bool.false_ne_true, List.append_nil] at sent'
      refine .stays six ?_ ?_ ⟨?_, running, rfl⟩ long (by rw [same, kept]) sent' <;>
        simp [step, fsmStep, legal.rstN, state, looked, delayed, counter, reg]

theorem passed_step (legal : Legal b i) (fits : Fits mem s b i) (state : s.state = .popEthertype)
    (flush : s.flushEthertype = false) (flushed : s.flushed = true) (reg : s.vutUntagReg = true)
    (pause : s.srcDreqD0 = false) (past : Past s b.asked f) (long : six.length = 6)
    (gone : untagged mem s.vutStoredTag = true)
    (sent : Sent f (six ++ ethertypeWord :: s.tagWord :: rest) (six ++ rest)) : Phase.After mem s i f := by
  have silent := legal.silent past.asked
  have asks : s.snkDreq i = false := by simp [snkDreq, state, pause]
  have shown : s.heard i = ([] : List (BitVec 16 × Bool)).map asEvent := by
    cases looked : s.vutUntag <;> simp [heard, srcFab, InternalFabric.txEvents, state, looked, pause]
  obtain ⟨sent', running⟩ := sent.replays fits (by simp [state]) silent shown past.ends
  obtain ⟨same, tag, stored⟩ := replay_kept mem legal.rstN (.inl state)
  rw [List.append_nil] at sent'
  rw [Phase.After, asks]
  cases dreq : i.srcDreq with
  | true =>
      refine .pass six _ ?_ ?_ (by simp) ?_ long (settled_long _ _) (Sent.gone gone sent') <;>
        simp [step, fsmStep, legal.rstN, state, pause, reg, dreq, flush, past.counter]
  | false =>
      refine .passed six rest ?_ ?_ ?_ ?_ ?_ ⟨?_, running, rfl⟩ long (by rw [same, gone])
        (by rw [tag]; exact sent') <;>
        simp [step, fsmStep, legal.rstN, state, pause, reg, dreq, flush, flushed, past.counter]

theorem pending_step (legal : Legal b i) (fits : Fits mem s b i) (state : s.state = .popEthertype)
    (flush : s.flushEthertype = true) (flushed : s.flushed = false) (reg : s.vutUntagReg = true)
    (pause : s.srcDreqD0 = false) (past : Past s b.asked f) (long : six.length = 6)
    (gone : untagged mem s.vutStoredTag = true)
    (sent : Sent f (six ++ [ethertypeWord, s.tagWord, s.storedWord]) six) : Phase.After mem s i f := by
  have silent := legal.silent past.asked
  have asks : s.snkDreq i = false := by simp [snkDreq, state, pause]
  have shown : s.heard i = ([] : List (BitVec 16 × Bool)).map asEvent := by
    cases looked : s.vutUntag <;> simp [heard, srcFab, InternalFabric.txEvents, state, looked, pause]
  obtain ⟨sent', running⟩ := sent.replays fits (by simp [state]) silent shown past.ends
  obtain ⟨same, tag, stored⟩ := replay_kept mem legal.rstN (.inl state)
  rw [List.append_nil] at sent'
  rw [Phase.After, asks]
  cases dreq : i.srcDreq with
  | true =>
      refine .left six ?_ ?_ rfl ⟨?_, running, rfl⟩ long (by rw [same, gone])
        (by rw [tag, stored silent]; exact sent') <;>
        simp [step, fsmStep, legal.rstN, state, pause, reg, dreq, flush, past.counter]
  | false =>
      refine .pending six ?_ ?_ ?_ ?_ ?_ ⟨?_, running, rfl⟩ long (by rw [same, gone])
        (by rw [tag, stored silent]; exact sent') <;>
        simp [step, fsmStep, legal.rstN, state, pause, reg, dreq, flush, flushed, past.counter]

theorem stays_step (legal : Legal b i) (fits : Fits mem s b i) (state : s.state = .popEthertype)
    (reg : s.vutUntagReg = false) (past : Past s b.asked f) (long : six.length = 6)
    (kept : untagged mem s.vutStoredTag = false)
    (sent : Sent f (six ++ [ethertypeWord, s.tagWord, s.storedWord]) six) : Phase.After mem s i f := by
  have silent := legal.silent past.asked
  have looked := fits.stays state kept
  have asks : s.snkDreq i = false := by simp [snkDreq, state, looked]
  have shown : s.heard i = (if s.srcDreqD0 then [ethertypeWord] else []).map asEvent := by
    cases delayed : s.srcDreqD0 <;>
      simp [heard, srcFab, InternalFabric.txEvents, state, looked, delayed, ethertypeWord, asEvent]
  obtain ⟨sent', running⟩ := sent.replays fits (by simp [state]) silent shown past.ends
  obtain ⟨same, tag, stored⟩ := replay_kept mem legal.rstN (.inl state)
  rw [← stored silent, ← tag] at sent'
  rw [Phase.After, asks]
  cases delayed : s.srcDreqD0 with
  | true =>
      rw [delayed, if_pos rfl] at sent'
      refine .second six ?_ ?_ ⟨?_, running, rfl⟩ long (by rw [same, kept]) sent' <;>
        simp [step, fsmStep, legal.rstN, state, looked, delayed, past.counter, reg]
  | false =>
      rw [delayed, if_neg Bool.false_ne_true, List.append_nil] at sent'
      refine .stays six ?_ ?_ ⟨?_, running, rfl⟩ long (by rw [same, kept]) sent' <;>
        simp [step, fsmStep, legal.rstN, state, looked, delayed, past.counter, reg]

theorem second_step (legal : Legal b i) (fits : Fits mem s b i) (state : s.state = .popQheader2)
    (flush : s.flushEthertype = false) (past : Past s b.asked f) (long : six.length = 6)
    (kept : untagged mem s.vutStoredTag = false)
    (sent : Sent f (six ++ [ethertypeWord, s.tagWord, s.storedWord]) (six ++ [ethertypeWord])) :
    Phase.After mem s i f := by
  have silent := legal.silent past.asked
  have asks : s.snkDreq i = false := by simp [snkDreq, state]
  have shown : s.heard i = (if s.srcDreqD0 then [s.tagWord] else []).map asEvent := by
    cases delayed : s.srcDreqD0 <;>
      simp [heard, srcFab, InternalFabric.txEvents, state, delayed, tagWord, asEvent]
  obtain ⟨sent', running⟩ := sent.replays fits (by simp [state]) silent shown past.ends
  obtain ⟨same, tag, stored⟩ := replay_kept mem legal.rstN (.inr (.inl state))
  rw [List.append_assoc] at sent'
  rw [← stored silent, ← tag] at sent'
  rw [Phase.After, asks]
  cases delayed : s.srcDreqD0 with
  | true =>
      rw [delayed, if_pos rfl] at sent'
      refine .third six ?_ ?_ ⟨?_, running, rfl⟩ long (by rw [same, kept]) sent' <;>
        simp [step, fsmStep, legal.rstN, state, delayed, past.counter, flush]
  | false =>
      rw [delayed, if_neg Bool.false_ne_true, List.append_nil] at sent'
      refine .second six ?_ ?_ ⟨?_, running, rfl⟩ long (by rw [same, kept]) sent' <;>
        simp [step, fsmStep, legal.rstN, state, delayed, past.counter, flush]

theorem third_step (legal : Legal b i) (fits : Fits mem s b i) (state : s.state = .popQheader3)
    (flush : s.flushEthertype = false) (past : Past s b.asked f) (long : six.length = 6)
    (kept : untagged mem s.vutStoredTag = false)
    (sent : Sent f (six ++ [ethertypeWord, s.tagWord, s.storedWord]) (six ++ [ethertypeWord, s.tagWord])) :
    Phase.After mem s i f := by
  have silent := legal.silent past.asked
  have asks : s.snkDreq i = (i.srcDreq && s.srcDreqD0) := by simp [snkDreq, state]
  have shown : s.heard i = (if s.srcDreqD0 then [s.storedWord] else []).map asEvent := by
    cases delayed : s.srcDreqD0 <;>
      simp [heard, srcFab, InternalFabric.txEvents, state, delayed, storedWord, asEvent]
  obtain ⟨sent', running⟩ := sent.replays fits (by simp [state]) silent shown past.ends
  obtain ⟨same, tag, stored⟩ := replay_kept mem legal.rstN (.inr (.inr state))
  rw [List.append_assoc] at sent'
  rw [Phase.After, asks]
  cases delayed : s.srcDreqD0 with
  | true =>
      rw [delayed, if_pos rfl] at sent'
      refine .pass six [ethertypeWord, s.tagWord, s.storedWord] ?_ ?_ (by simp) ?_ long (settled_long _ _)
        (by rw [removeTag_kept kept]; exact sent') <;>
        simp [step, fsmStep, legal.rstN, state, delayed, past.counter, flush]
  | false =>
      rw [delayed, if_neg Bool.false_ne_true, List.append_nil, ← stored silent, ← tag] at sent'
      rw [Bool.and_false]
      refine .third six ?_ ?_ ⟨?_, running, rfl⟩ long (by rw [same, kept]) sent' <;>
        simp [step, fsmStep, legal.rstN, state, delayed, past.counter, flush]

/-- A cycle that starts no frame. -/
theorem Phase.step (phase : Phase mem s b.dreq b.asked f) (legal : Legal b i) (fits : Fits mem s b i)
    (now : b.current = some f) (sof : i.fab.sof = false) : Phase.After mem s i f := by
  cases phase with
  | short state flush follows few count sent => exact short_step legal now sof state flush few count sent
  | pass six rest state flush follows counter long settled sent =>
      exact pass_step legal now sof state flush counter long settled sent
  | left six state flush request past long gone sent =>
      exact left_step legal fits sof state flush past long gone sent
  | check state flush flushed follows counter long sent =>
      exact check_step legal fits now state flush flushed counter long sent
  | push six state flush flushed counter ends long sent =>
      exact push_step legal fits state flush flushed counter ends long sent
  | fresh six state flush flushed reg looked counter ends long sent =>
      cases gone : untagged mem s.vutStoredTag with
      | true => exact fresh_gone legal fits now state flush flushed (looked.trans gone) counter ends long gone sent
      | false => exact fresh_kept legal fits now state reg (looked.trans gone) counter ends long gone sent
  | passed six rest state flush flushed reg pause past long gone sent =>
      exact passed_step legal fits state flush flushed reg pause past long gone sent
  | pending six state flush flushed reg pause past long gone sent =>
      exact pending_step legal fits state flush flushed reg pause past long gone sent
  | stays six state reg past long kept sent => exact stays_step legal fits state reg past long kept sent
  | second six state flush past long kept sent => exact second_step legal fits state flush past long kept sent
  | third six state flush past long kept sent => exact third_step legal fits state flush past long kept sent

theorem Phase.follows (phase : Phase mem s dreq asked f) (asks : s.state = .idle ∨ s.state = .checkEthertype)
    (now : asked = true) : dreq = true := by
  cases phase with
  | short state flush follows few count sent => exact follows now
  | pass six rest state flush follows counter long settled sent => exact follows now
  | check state flush flushed follows counter long sent => exact follows now
  | left six state flush request past long gone sent => exact request
  | _ => simp_all

theorem Phase.request (phase : Phase mem s dreq asked f) (state : s.state = .idle)
    (flush : s.flushEthertype = true) : dreq = true := by
  cases phase with
  | left six _ _ request past long gone sent => exact request
  | _ => simp_all

theorem detagged_append (long : six.length = 6) : detagged mem (six ++ rest) = six ++ removeTag mem rest := by
  rw [detagged, ← long, List.take_left, List.drop_left]

theorem detagged_short (few : words.length ≤ 6) : detagged mem words = words := by
  rw [detagged, List.take_of_length_le few, List.drop_of_length_le few]
  simp [removeTag]

/-- Where the unit asks for words or the frame has ended, nothing is held back. -/
theorem Phase.goes_out (phase : Phase mem s dreq asked f)
    (rests : s.state = .idle ∧ asked = true ∨ f.ends ≠ []) : f.Detagged mem := by
  have finish : ∀ words, Sent f words (detagged mem words) → f.Detagged mem := by
    intro words sent
    rw [Frame.Detagged, sent.heard, sent.words]
  cases phase with
  | short state flush follows few count sent =>
      apply finish f.words
      rwa [detagged_short (by omega)]
  | pass six rest state flush follows counter long settled sent =>
      apply finish (six ++ rest)
      rwa [detagged_append long]
  | check state flush flushed follows counter long sent =>
      apply finish f.words
      rwa [detagged_short (by omega)]
  | left six state flush request past long gone sent =>
      rcases rests with ⟨-, asks⟩ | ended
      · exact absurd past.asked (by simp [asks])
      · exact absurd past.ends ended
  | push six state flush flushed counter ends long sent => simp [state, ends] at rests
  | fresh six state flush flushed reg looked counter ends long sent => simp [state, ends] at rests
  | passed six rest state flush flushed reg pause past long gone sent => simp [state, past.ends] at rests
  | pending six state flush flushed reg pause past long gone sent => simp [state, past.ends] at rests
  | stays six state reg past long kept sent => simp [state, past.ends] at rests
  | second six state flush past long kept sent => simp [state, past.ends] at rests
  | third six state flush past long kept sent => simp [state, past.ends] at rests

end Edge

structure Inv (sb : TxVlan × Book) : Prop where
  done : ∀ f ∈ sb.2.done, f.Detagged mem
  free : sb.2.current = none → sb.1.state = .idle ∧ sb.1.flushEthertype = false
  current : ∀ f ∈ sb.2.current, Phase mem sb.1 sb.2.dreq sb.2.asked f
  delayed : sb.1.state ≠ .idle → sb.1.srcDreqD0 = sb.2.dreq

section Run

variable {mem} {s : TxVlan} {b : Book} {f : Frame} {i : TxVlanIn}

theorem step_dreq : (s.step mem i).srcDreqD0 = i.srcDreq := rfl

theorem Inv.start (inv : Inv mem (s, b)) (legal : Legal b i) (state : s.state = .idle) (sof : i.fab.sof = true) :
    Inv mem (stepBook mem (s, b) i) := by
  obtain ⟨asked, silent, eof, error, past⟩ := legal.start sof
  have unflushed : s.flushEthertype = false := by
    cases now : b.current with
    | none => exact (inv.free now).2
    | some f =>
        have phase : Phase mem s b.dreq b.asked f := inv.current f now
        cases phase with
        | left six state flush request past long gone sent => exact absurd past.asked (by simp [asked])
        | _ => simp_all
  have half : i.fab.bytesel = false := by
    by_contra half
    have valid := legal.bytesel (by simpa using half)
    simp [silent] at valid
  have shown : s.heard i = [.sof] := by
    simp [heard, srcFab, InternalFabric.txEvents, state, sof, silent, eof, error, unflushed]
  refine ⟨?_, by simp [stepBook, Book.next, sof], ?_, fun _ => by simpa [stepBook, Book.next, sof] using step_dreq⟩
  · intro f done
    simp only [stepBook, Book.next, sof, if_true, List.mem_append, Option.mem_toList] at done
    rcases done with done | now
    · exact inv.done f done
    · exact (inv.current f now).goes_out (.inr (past f now))
  · intro f now
    simp only [stepBook, Book.next, sof, if_true, Option.mem_some_iff] at now
    subst now
    have asks : s.snkDreq i = i.srcDreq := by simp [snkDreq, state]
    simp only [stepBook, Book.next, sof, if_true, asks]
    refine .short ?_ ?_ id (by simp) ?_ ⟨rfl, by simp [shown]⟩ <;>
      simp [step, fsmStep, legal.rstN, state, sof, silent, unflushed]

theorem Inv.step (inv : Inv mem (s, b)) (legal : Legal b i) (fits : Fits mem s b i) :
    Inv mem (stepBook mem (s, b) i) := by
  cases sof : i.fab.sof with
  | true =>
      have state : s.state = .idle := by
        by_contra busy
        exact absurd (fits.plain busy).1 (by simp [sof])
      exact inv.start legal state sof
  | false =>
      refine ⟨by simpa [stepBook, Book.next, sof] using inv.done, ?_, ?_,
        fun _ => by simpa [stepBook, Book.next, sof] using step_dreq⟩
      · intro absent
        have before : b.current = none := by simpa [stepBook, Book.next, sof] using absent
        obtain ⟨(state : s.state = .idle), (flush : s.flushEthertype = false)⟩ := inv.free before
        have silent : i.fab.dvalid = false := by
          by_contra valid
          obtain ⟨-, -, f, now, -⟩ := legal.word (by simpa using valid)
          simp [before] at now
        simp [stepBook, TxVlan.step, fsmStep, legal.rstN, state, silent, flush]
      · intro f now
        simp only [stepBook, Book.next, sof, Bool.false_eq_true, if_false, Option.mem_def,
          Option.map_eq_some_iff] at now
        obtain ⟨g, now, rfl⟩ := now
        simpa [stepBook, Book.next, sof] using (inv.current g now).step legal fits now sof

/-- A word goes out behind a request only. -/
theorem Inv.requested (inv : Inv mem (s, b)) (legal : Legal b i) (valid : (s.srcFab i).dvalid = true) :
    b.dreq = true := by
  cases state : s.state with
  | idle =>
      cases now : b.current with
      | none =>
          have flush : s.flushEthertype = false := (inv.free now).2
          have word : i.fab.dvalid = true := by simpa [srcFab, state, flush] using valid
          obtain ⟨-, -, f, present, -⟩ := legal.word word
          simp [now] at present
      | some f =>
          have phase : Phase mem s b.dreq b.asked f := inv.current f now
          cases flush : s.flushEthertype with
          | true => exact phase.request state flush
          | false => exact phase.follows (.inl state) (legal.word (by simpa [srcFab, state, flush] using valid)).1
  | checkEthertype =>
      simp only [srcFab, state, Bool.and_eq_true] at valid
      obtain ⟨asked, -, f, now, -⟩ := legal.word valid.1
      have phase : Phase mem s b.dreq b.asked f := inv.current f now
      exact phase.follows (.inr state) asked
  | pushQheader1 => simp [srcFab, state] at valid
  | popEthertype =>
      rw [← inv.delayed (by simp [state])]
      cases looked : s.vutUntag <;> simp_all [srcFab]
  | _ =>
      rw [← inv.delayed (by simp [state])]
      simpa [srcFab, state] using valid

end Run

/-- In a run from the idle unit: every frame that ended went out with its flags, and without its tag if that is
in the set. -/
theorem detags_exactly (cycles : List TxVlanIn) (s : TxVlan) (idle : s.state = .idle)
    (flush : s.flushEthertype = false)
    (legal : Along (stepBook mem) (fun sb i => Legal sb.2 i) (s, {}) cycles)
    (fits : Along (stepBook mem) (fun sb i => Fits mem sb.1 sb.2 i) (s, {}) cycles) :
    (∀ f ∈ (run (stepBook mem) (s, {}) cycles).2.done, f.Detagged mem) ∧
      (∀ f ∈ (run (stepBook mem) (s, {}) cycles).2.current, f.ends ≠ [] → f.Detagged mem) ∧
      Along (stepBook mem) (fun sb i => (sb.1.srcFab i).dvalid = true → sb.2.dreq = true) (s, {}) cycles := by
  have start : Inv mem (s, {}) := ⟨by simp, fun _ => ⟨idle, flush⟩, by simp, by simp [idle]⟩
  have runs := legal.and fits
  have kept := runs.invariant (Inv mem) (fun _ _ inv both => inv.step both.1 both.2) start
  refine ⟨kept.done, ?_, ?_⟩
  · intro f now ended
    exact (kept.current f now).goes_out (.inr ended)
  · exact runs.yields (Inv mem) (fun _ _ inv both => inv.step both.1 both.2)
      (fun sb i inv (both : Legal sb.2 i ∧ Fits mem sb.1 sb.2 i) valid => inv.requested both.1 valid) start

/-! ### Frames with a tag -/

instance (b : Book) (i : TxVlanIn) : Decidable (Legal b i) :=
  decidable_of_iff
    (i.rstN = true ∧
      (i.fab.sof = true → b.asked = true ∧ i.fab.dvalid = false ∧ i.fab.eof = false ∧ i.fab.error = false ∧
        ∀ f ∈ b.current, f.ends ≠ []) ∧
      (i.fab.dvalid = true → b.asked = true ∧ i.fab.addr = cWrfData ∧ ∃ f ∈ b.current, f.ends = []) ∧
      (i.fab.bytesel = true → i.fab.dvalid = true))
    ⟨fun ⟨rstN, start, word, bytesel⟩ => ⟨rstN, start, word, bytesel⟩,
      fun ⟨rstN, start, word, bytesel⟩ => ⟨rstN, start, word, bytesel⟩⟩

instance (s : TxVlan) (b : Book) (i : TxVlanIn) : Decidable (Fits mem s b i) :=
  decidable_of_iff
    ((s.state ≠ .idle → i.fab.sof = false ∧ i.fab.eof = false ∧ i.fab.error = false ∧ i.fab.bytesel = false) ∧
      (s.state = .popEthertype → untagged mem s.vutStoredTag = false → s.vutUntag = false) ∧
      (s.state = .popEthertype → ∀ f ∈ b.current, f.words.length = 8 →
        if untagged mem s.vutStoredTag then s.srcDreqD0 = false → s.flushed = false → i.fab.dvalid = !i.srcDreq
        else i.fab.dvalid = true) ∧
      (s.state = .idle → s.flushEthertype = true → i.srcDreq = true))
    ⟨fun ⟨plain, stays, behind, left⟩ => ⟨plain, stays, behind, left⟩,
      fun ⟨plain, stays, behind, left⟩ => ⟨plain, stays, behind, left⟩⟩

instance (f : Frame) : Decidable (f.Detagged mem) :=
  inferInstanceAs (Decidable (f.heard = .sof :: ((detagged mem f.words).map asEvent ++ f.ends)))

/-- VID 5 is to go. -/
def onlyFive (addr : BitVec 10) : BitVec 18 := if addr = 0 then 0x20 else 0

def waitIn (srcDreq : Bool) : TxVlanIn := { srcDreq }

def sofIn : TxVlanIn := { fab := { sof := true } }

def wordIn (data : BitVec 16) (srcDreq : Bool) : TxVlanIn :=
    { fab := { dvalid := true, data := data }, srcDreq := srcDreq }

def eofIn : TxVlanIn := { fab := { eof := true } }

def errorIn : TxVlanIn := { fab := { error := true } }

def headerIn : List TxVlanIn := [1, 2, 3, 4, 5, 6].map (wordIn · true)

/-- A tag that goes while the sink pauses, one that stays, and a frame that is aborted in its header. -/
def mixed : List TxVlanIn :=
  [waitIn true, sofIn] ++ headerIn ++
    [wordIn cVlanEthertype true, wordIn 5 false, wordIn 0x800 false, waitIn false, waitIn true, waitIn true,
      wordIn 7 true,
      eofIn] ++
  sofIn :: headerIn ++
    [wordIn cVlanEthertype true, wordIn 6 false, wordIn 0x800 true, waitIn false, waitIn true, waitIn true,
      waitIn true, wordIn 7 true,
      eofIn, sofIn, wordIn 1 true, errorIn, waitIn true]

theorem detags_exactly_mixed : (run (stepBook onlyFive) ({}, {}) mixed).2.done.length = 2 ∧
    ∀ f ∈ (run (stepBook onlyFive) ({}, {}) mixed).2.done, f.Detagged onlyFive :=
  ⟨by decide +kernel, (detags_exactly onlyFive mixed {} rfl rfl (by decide +kernel) (by decide +kernel)).1⟩

/-- A frame that is aborted behind its six words of header. -/
def aborted : List TxVlanIn := [waitIn true, sofIn] ++ headerIn ++ [errorIn, waitIn true, waitIn true]

/-- The error is not forwarded. -/
theorem error_masked : Along (stepBook onlyFive) (fun sb i => Legal sb.2 i) ({}, {}) aborted ∧
    ¬∀ f ∈ (run (stepBook onlyFive) ({}, {}) aborted).2.current, f.ends ≠ [] → f.Detagged onlyFive := by
  decide +kernel

end TxVlan

end WrCores.Endpoint
