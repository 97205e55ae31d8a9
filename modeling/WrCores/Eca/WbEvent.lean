import Mathlib.Data.BitVec
import Mathlib.Logic.Function.Basic
import Mathlib.Tactic.FinCases
import WrCores.Clocked.Run

/-!
eca_wb_event.vhd: chunks of eight words from a Wishbone slave become events in another clock
domain. An input says which clock has an edge; where both have one, each side sees the other as it
was. The memory is the one of eca_sdp.vhd: a read of the address that is being written gives an
undefined word, which is an input here. The resets have been applied until the pointers in the
synchronisers were zero.
-/

namespace WrCores.Eca

open Clocked

/-- `S0` to `S7`, and `SERR`. -/
inductive ChunkState where
  | s (k : Fin 8)
  | serr
  deriving DecidableEq, Repr

/-- The slave's inputs at an edge of `w_clk_i`. -/
structure WbIn where
  cyc : Bool
  stb : Bool
  we : Bool
  dat : BitVec 32
  deriving DecidableEq, Repr

structure StreamIn where
  stall : Bool
  undefined : BitVec 32
  deriving DecidableEq, Repr

structure EventIn where
  wEdge : Option WbIn
  eEdge : Option StreamIn
  deriving DecidableEq, Repr

/-- `t_stream` without its `stb`. -/
structure StreamItem where
  event : BitVec 64
  param : BitVec 64
  tef : BitVec 32
  time : BitVec 64
  deriving DecidableEq, Repr

structure WbEvent where
  memory : BitVec 5 → BitVec 32
  rwReadyGray : BitVec 3 := 0
  rw1SentGray : BitVec 3 := 0
  rw0SentGray : BitVec 3 := 0
  rwSent : BitVec 3 := 0
  rwLimit : BitVec 3 := 7
  rwReady : BitVec 3 := 0
  rwState : ChunkState := .s 0
  rwAddr : BitVec 5 := 0
  rwOk : BitVec 5 := 0
  wAck : Bool := false
  wErr : Bool := false
  reSentGray : BitVec 3 := 0
  re1ReadyGray : BitVec 3 := 0
  re0ReadyGray : BitVec 3 := 0
  reReady : BitVec 3 := 0
  reSent : BitVec 3 := 0
  reState : ChunkState := .s 0
  reStb : Bool := false
  reAddr : BitVec 5 := 0
  reItem : StreamItem := ⟨0, 0, 0, 0⟩
  seData : BitVec 32 := 0

def fEcaGrayEncode (x : BitVec 3) : BitVec 3 := x ^^^ (x >>> 1)

/-- Called with step 1, which for three bits goes on with step 2. -/
def fEcaGrayDecode (x : BitVec 3) : BitVec 3 :=
  let y := x ^^^ (x >>> 1)
  y ^^^ (y >>> 2)

theorem gray_decode : ∀ x : BitVec 3, fEcaGrayDecode (fEcaGrayEncode x) = x := by decide

namespace WbEvent

/-- The answer to a write; reads are always acknowledged. -/
def refuses (s : WbEvent) : Bool :=
  match s.rwState with
  | .s k => k == 0 && s.rwReady == s.rwLimit
  | .serr => true

/-- The process `W` and the write port of the memory. -/
def writeEdge (s : WbEvent) (b : WbIn) : WbEvent :=
  let next := { s with
    memory := Function.update s.memory s.rwAddr b.dat
    rwReadyGray := fEcaGrayEncode s.rwReady
    rw1SentGray := s.reSentGray
    rw0SentGray := s.rw1SentGray
    rwSent := fEcaGrayDecode s.rw0SentGray
    rwLimit := s.rwSent + 7
    wAck := false
    wErr := false }
  if !b.cyc then { next with rwState := .s 0, rwAddr := s.rwOk }
  else if !b.stb then next
  else if !b.we then { next with wAck := true }
  else if s.refuses then { next with rwState := .serr, wErr := true }
  else
    match s.rwState with
    | .s k =>
        let written := { next with rwState := .s (k + 1), wAck := true, rwAddr := s.rwAddr + 1 }
        if k == 7 then { written with rwReady := s.rwReady + 1, rwOk := s.rwAddr + 1 } else written
    | .serr => next

def seExitS0 (s : WbEvent) (stall : Bool) : Bool := s.reSent != s.reReady && (!s.reStb || !stall)

def seAddr (s : WbEvent) (stall : Bool) : BitVec 5 :=
  if s.reState == .s 0 && !s.seExitS0 stall then s.reAddr else s.reAddr + 1

/-- The upper and the lower half of a field. -/
def upper (old : BitVec 64) (word : BitVec 32) : BitVec 64 := word ++ old.extractLsb' 0 32

def lower (old : BitVec 64) (word : BitVec 32) : BitVec 64 := old.extractLsb' 32 32 ++ word

/-- The process `E` and the read port of the memory. -/
def readEdge (s : WbEvent) (i : StreamIn) : WbEvent :=
  let addr := s.seAddr i.stall
  let next := { s with
    seData := if addr == s.rwAddr then i.undefined else s.memory addr
    reSentGray := fEcaGrayEncode s.reSent
    re1ReadyGray := s.rwReadyGray
    re0ReadyGray := s.re1ReadyGray
    reReady := fEcaGrayDecode s.re0ReadyGray
    reAddr := addr }
  match s.reState with
  | .s 0 =>
      { next with
        reStb := s.reStb && i.stall
        reItem := if !s.reStb || !i.stall then { s.reItem with event := upper s.reItem.event s.seData }
          else s.reItem
        reState := if s.seExitS0 i.stall then .s 1 else .s 0 }
  | .s 1 => { next with reItem.event := lower s.reItem.event s.seData, reState := .s 2 }
  | .s 2 => { next with reItem.param := upper s.reItem.param s.seData, reState := .s 3 }
  | .s 3 => { next with reItem.param := lower s.reItem.param s.seData, reState := .s 4 }
  | .s 4 => { next with reState := .s 5 }
  | .s 5 => { next with reItem.tef := s.seData, reState := .s 6 }
  | .s 6 => { next with reItem.time := upper s.reItem.time s.seData, reState := .s 7 }
  | .s 7 =>
      { next with
        reItem.time := lower s.reItem.time s.seData, reState := .s 0, reStb := true, reSent := s.reSent + 1 }
  | .serr => next

def step (s : WbEvent) (i : EventIn) : WbEvent :=
  let w := (i.wEdge.map s.writeEdge).getD s
  let e := (i.eEdge.map s.readEdge).getD s
  { w with
    reSentGray := e.reSentGray, re1ReadyGray := e.re1ReadyGray, re0ReadyGray := e.re0ReadyGray
    reReady := e.reReady, reSent := e.reSent, reState := e.reState, reStb := e.reStb, reAddr := e.reAddr
    reItem := e.reItem, seData := e.seData }

/-! ### What is seen on the two sides -/

/-- The fields of an event, from the eight words of its chunk. -/
def itemOf (chunk : List (BitVec 32)) : StreamItem where
  event := chunk.getD 0 0 ++ chunk.getD 1 0
  param := chunk.getD 2 0 ++ chunk.getD 3 0
  tef := chunk.getD 5 0
  time := chunk.getD 6 0 ++ chunk.getD 7 0

/-- The chunks that are complete, the acknowledged words of the one that is not, whether a write of
the current cycle was answered by an error, and the items taken from the stream. -/
structure Observer where
  chunks : List (List (BitVec 32)) := []
  chunk : List (BitVec 32) := []
  refused : Bool := false
  taken : List StreamItem := []
  deriving DecidableEq, Repr

/-- Words are acknowledged writes, a cycle that ends early takes its words with it. -/
def Observer.onBus (o : Observer) (b : WbIn) (ack err : Bool) : Observer :=
  if !b.cyc then { o with chunk := [], refused := false }
  else if b.stb && b.we then
    let refused := o.refused || err
    if !ack then { o with refused := refused }
    else if o.chunk.length == 7 then
      { o with chunks := o.chunks ++ [o.chunk ++ [b.dat]], chunk := [], refused := refused }
    else { o with chunk := o.chunk ++ [b.dat], refused := refused }
  else o

def onStream (s : WbEvent) (i : EventIn) : List StreamItem :=
  match i.eEdge with
  | some e => if s.reStb && !e.stall then [s.reItem] else []
  | none => []

def observe (s : WbEvent) (o : Observer) (i : EventIn) : Observer :=
  let written :=
    match i.wEdge with
    | some b => o.onBus b (s.step i).wAck (s.step i).wErr
    | none => o
  { written with taken := o.taken ++ s.onStream i }

def watch (so : WbEvent × Observer) (i : EventIn) : WbEvent × Observer :=
  (so.1.step i, so.1.observe so.2 i)

/-- The address of a word of an event. -/
def address (e k : Nat) : BitVec 5 := BitVec.ofNat 5 (8 * e + k)

/-! ### The two sides hold together -/

def word (chunks : List (List (BitVec 32))) (e k : Nat) : BitVec 32 := (chunks.getD e []).getD k 0

theorem address_ne {e k f m : Nat} (apart : 8 * e + k < 8 * f + m) (near : 8 * f + m < 8 * e + k + 32) :
    address e k ≠ address f m := by
  intro same
  have values := congrArg BitVec.toNat same
  simp only [address, BitVec.toNat_ofNat] at values
  omega

theorem address_next (e k : Nat) : address e k + 1 = address e (k + 1) := by
  simp [address, ← BitVec.ofNat_add, Nat.add_assoc]

theorem address_wrap (e : Nat) : address e 8 = address (e + 1) 0 := by
  simp [address, Nat.mul_add]

theorem pointer_ne {a b : Nat} (below : a < b) (near : b < a + 8) :
    BitVec.ofNat 3 a ≠ BitVec.ofNat 3 b := by
  intro same
  have values := congrArg BitVec.toNat same
  simp only [BitVec.toNat_ofNat] at values
  omega

theorem word_append {chunks : List (List (BitVec 32))} {e : Nat} (inside : e < chunks.length)
    (more : List (List (BitVec 32))) (k : Nat) : word (chunks ++ more) e k = word chunks e k := by
  simp [word, List.getD, List.getElem?_append_left inside]

/-- The write side has the chunks that were not taken, and the begun one, in the memory. -/
structure Writing (s : WbEvent) (o : Observer) : Prop where
  ready : s.rwReady = BitVec.ofNat 3 o.chunks.length
  addr : s.rwAddr = address o.chunks.length o.chunk.length
  ok : s.rwOk = address o.chunks.length 0
  state : ∃ k : Fin 8, k.val = o.chunk.length ∧ s.rwState = if o.refused then .serr else .s k
  empty : o.refused = true → o.chunk = []
  kept : ∀ e k, o.taken.length ≤ e → e < o.chunks.length → k < 8 →
    s.memory (address e k) = word o.chunks e k
  begun : ∀ k, k < o.chunk.length → s.memory (address o.chunks.length k) = o.chunk.getD k 0

/-- The fields that are there when word `k` is read. -/
structure Loaded (words : Nat → BitVec 32) (k : Nat) (item : StreamItem) : Prop where
  event : 1 ≤ k → item.event.extractLsb' 32 32 = words 0
  eventLow : 2 ≤ k → item.event = words 0 ++ words 1
  param : 3 ≤ k → item.param.extractLsb' 32 32 = words 2
  paramLow : 4 ≤ k → item.param = words 2 ++ words 3
  tef : 6 ≤ k → item.tef = words 5
  time : 7 ≤ k → item.time.extractLsb' 32 32 = words 6

/-- The events that left the memory. -/
def sent (s : WbEvent) (o : Observer) : Nat := o.taken.length + s.reStb.toNat

/-- The read side knows of `known` events and reads word `k` of the next one. -/
structure Reading (s : WbEvent) (o : Observer) (known : Nat) (k : Fin 8) : Prop where
  sent : s.reSent = BitVec.ofNat 3 (sent s o)
  ready : s.reReady = BitVec.ofNat 3 known
  behind : s.sent o ≤ known
  state : s.reState = .s k
  addr : s.reAddr = address (s.sent o) k
  busy : 0 < k → s.reStb = false ∧ s.sent o < known
  data : s.sent o < known → s.seData = word o.chunks (s.sent o) k
  loaded : Loaded (word o.chunks (s.sent o)) k s.reItem
  offered : s.reStb = true → s.reItem = itemOf (o.chunks.getD o.taken.length [])
  taken : o.taken = (o.chunks.take o.taken.length).map itemOf

/-- The ready pointers between the two sides, newest first. -/
structure Passing (s : WbEvent) (o : Observer) (n₁ n₂ n₃ n₄ : Nat) : Prop where
  gray : s.rwReadyGray = fEcaGrayEncode (BitVec.ofNat 3 n₁)
  re1 : s.re1ReadyGray = fEcaGrayEncode (BitVec.ofNat 3 n₂)
  re0 : s.re0ReadyGray = fEcaGrayEncode (BitVec.ofNat 3 n₃)
  order : n₄ ≤ n₃ ∧ n₃ ≤ n₂ ∧ n₂ ≤ n₁ ∧ n₁ ≤ o.chunks.length

structure Full (so : WbEvent × Observer) (n₁ n₂ n₃ n₄ : Nat) (k : Fin 8) : Prop where
  writing : Writing so.1 so.2
  reading : Reading so.1 so.2 n₄ k
  passing : Passing so.1 so.2 n₁ n₂ n₃ n₄
  room : so.2.chunks.length ≤ so.2.taken.length + 4

/-- At a write clock edge at most three events wait. At a read clock edge there may be four, unless
the next one of them is known of from this edge on and the read meets the write address. -/
def Fits (so : WbEvent × Observer) (i : EventIn) : Prop :=
  (i.wEdge.isSome → so.2.chunks.length ≤ so.2.taken.length + 3) ∧
  ∀ e ∈ i.eEdge, so.2.chunks.length ≤ so.2.taken.length + 3 ∨
    so.1.seAddr e.stall ≠ so.1.rwAddr ∨ fEcaGrayDecode so.1.re0ReadyGray = so.1.reSent

theorem Writing.short {s : WbEvent} {o : Observer} (w : Writing s o) : o.chunk.length < 8 := by
  obtain ⟨k, place, -⟩ := w.state
  exact place ▸ k.isLt

/-- A word written at the write address meets no word of an event that waits. -/
theorem Writing.apart {s : WbEvent} {o : Observer} (w : Writing s o)
    (few : o.chunks.length ≤ o.taken.length + 3) {e k : Nat} (waits : o.taken.length ≤ e)
    (complete : e < o.chunks.length) (inside : k < 8) : address e k ≠ s.rwAddr := by
  have := w.short
  rw [w.addr]
  apply address_ne <;> omega

theorem Writing.kept_write {s : WbEvent} {o : Observer} (w : Writing s o)
    (few : o.chunks.length ≤ o.taken.length + 3) (dat : BitVec 32) (e k : Nat)
    (waits : o.taken.length ≤ e) (complete : e < o.chunks.length) (inside : k < 8) :
    Function.update s.memory s.rwAddr dat (address e k) = word o.chunks e k := by
  rw [Function.update_of_ne (w.apart few waits complete inside)]
  exact w.kept e k waits complete inside

theorem Writing.begun_write {s : WbEvent} {o : Observer} (w : Writing s o) (dat : BitVec 32) (k : Nat)
    (inside : k < o.chunk.length) :
    Function.update s.memory s.rwAddr dat (address o.chunks.length k) = o.chunk.getD k 0 := by
  have := w.short
  have apart : address o.chunks.length k ≠ s.rwAddr := by
    rw [w.addr]
    apply address_ne <;> omega
  rw [Function.update_of_ne apart]
  exact w.begun k inside

/-- The word just written, behind the words of its chunk. -/
theorem Writing.word_written {s : WbEvent} {o : Observer} (w : Writing s o) (dat : BitVec 32) (k : Nat)
    (inside : k < o.chunk.length + 1) :
    Function.update s.memory s.rwAddr dat (address o.chunks.length k) = (o.chunk ++ [dat]).getD k 0 := by
  by_cases old : k < o.chunk.length
  · rw [w.begun_write dat k old]
    simp [List.getD, List.getElem?_append_left old]
  · have last : k = o.chunk.length := by omega
    subst last
    rw [w.addr, Function.update_self]
    simp [List.getD]

/-- The word that completes a chunk. -/
theorem Writing.completes {s next : WbEvent} {o : Observer} (w : Writing s o)
    (few : o.chunks.length ≤ o.taken.length + 3) (dat : BitVec 32) (full : o.chunk.length = 7)
    (clear : o.refused = false) (memory : next.memory = Function.update s.memory s.rwAddr dat)
    (ready : next.rwReady = s.rwReady + 1) (addr : next.rwAddr = s.rwAddr + 1)
    (ok : next.rwOk = s.rwAddr + 1) (state : next.rwState = .s 0) :
    Writing next { o with chunks := o.chunks ++ [o.chunk ++ [dat]], chunk := [] } := by
  have after : s.rwAddr + 1 = address (o.chunks.length + 1) 0 := by
    rw [w.addr, full, address_next, address_wrap]
  constructor
  · rw [ready, w.ready, List.length_append]
    exact (BitVec.ofNat_add _ _).symm
  · simpa using addr.trans after
  · simpa using ok.trans after
  · exact ⟨0, rfl, by simp [state, clear]⟩
  · simp
  · intro e k waits complete inside
    rw [memory]
    by_cases old : e < o.chunks.length
    · rw [word_append old]
      exact w.kept_write few dat e k waits old inside
    · have newest : e = o.chunks.length := by
        simp only [List.length_append, List.length_singleton] at complete
        omega
      subst newest
      rw [w.word_written dat k (by omega)]
      simp [word, List.getD]
  · intro k inside
    simp at inside

/-- A word that leaves its chunk open. -/
theorem Writing.continues {s next : WbEvent} {o : Observer} (w : Writing s o)
    (few : o.chunks.length ≤ o.taken.length + 3) (dat : BitVec 32) (open_ : o.chunk.length < 7)
    (clear : o.refused = false) (memory : next.memory = Function.update s.memory s.rwAddr dat)
    (ready : next.rwReady = s.rwReady) (addr : next.rwAddr = s.rwAddr + 1) (ok : next.rwOk = s.rwOk)
    {k : Fin 8} (place : k.val = o.chunk.length) (state : next.rwState = .s (k + 1)) :
    Writing next { o with chunk := o.chunk ++ [dat] } := by
  constructor
  · rw [ready, w.ready]
  · rw [addr, w.addr, address_next, List.length_append, List.length_singleton]
  · rw [ok, w.ok]
  · refine ⟨k + 1, ?_, by simp [state, clear]⟩
    rw [Fin.val_add_one_of_lt (Fin.lt_def.2 (by simp [place]; omega)), place]
    simp
  · simp [clear]
  · intro e m waits complete inside
    rw [memory]
    exact w.kept_write few dat e m waits complete inside
  · intro m inside
    rw [memory]
    exact w.word_written dat m (by simpa using inside)

/-- An edge with no acknowledged write: the begun chunk stays or is given up. -/
theorem Writing.idles {s next : WbEvent} {o : Observer} (w : Writing s o)
    (few : o.chunks.length ≤ o.taken.length + 3) (dat : BitVec 32)
    (memory : next.memory = Function.update s.memory s.rwAddr dat)
    (ready : next.rwReady = s.rwReady) (addr : next.rwAddr = s.rwAddr) (ok : next.rwOk = s.rwOk)
    {refused : Bool} (empty : refused = true → o.chunk = [])
    (state : ∃ k : Fin 8, k.val = o.chunk.length ∧ next.rwState = if refused then .serr else .s k) :
    Writing next { o with refused := refused } := by
  constructor
  · rw [ready, w.ready]
  · rw [addr, w.addr]
  · rw [ok, w.ok]
  · exact state
  · exact empty
  · intro e k waits complete inside
    rw [memory]
    exact w.kept_write few dat e k waits complete inside
  · intro k inside
    rw [memory]
    exact w.begun_write dat k inside

theorem Writing.gives_up {s next : WbEvent} {o : Observer} (w : Writing s o)
    (few : o.chunks.length ≤ o.taken.length + 3) (dat : BitVec 32)
    (memory : next.memory = Function.update s.memory s.rwAddr dat)
    (ready : next.rwReady = s.rwReady) (addr : next.rwAddr = s.rwOk) (ok : next.rwOk = s.rwOk)
    (state : next.rwState = .s 0) : Writing next { o with chunk := [], refused := false } := by
  constructor
  · rw [ready, w.ready]
  · rw [addr, w.ok]
    rfl
  · rw [ok, w.ok]
  · exact ⟨0, rfl, by simp [state]⟩
  · simp
  · intro e k waits complete inside
    rw [memory]
    exact w.kept_write few dat e k waits complete inside
  · intro k inside
    simp at inside

@[simp] theorem writeEdge_memory (s : WbEvent) (b : WbIn) :
    (s.writeEdge b).memory = Function.update s.memory s.rwAddr b.dat := by
  simp only [writeEdge]
  repeat' split
  all_goals rfl

@[simp] theorem writeEdge_readyGray (s : WbEvent) (b : WbIn) :
    (s.writeEdge b).rwReadyGray = fEcaGrayEncode s.rwReady := by
  simp only [writeEdge]
  repeat' split
  all_goals rfl

theorem Writing.state_refused {s : WbEvent} {o : Observer} (w : Writing s o) (refused : o.refused = true) :
    s.rwState = .serr := by
  obtain ⟨k, -, state⟩ := w.state
  rw [state, if_pos refused]

theorem Writing.state_open {s : WbEvent} {o : Observer} (w : Writing s o) (clear : o.refused = false) :
    ∃ k : Fin 8, k.val = o.chunk.length ∧ s.rwState = .s k := by
  obtain ⟨k, place, state⟩ := w.state
  exact ⟨k, place, by rw [state, if_neg (by simp [clear])]⟩

theorem Writing.refused_empty {s : WbEvent} {o : Observer} (w : Writing s o) (refuses : s.refuses = true) :
    o.chunk = [] := by
  cases refused : o.refused with
  | true => exact w.empty refused
  | false =>
      obtain ⟨k, place, state⟩ := w.state_open refused
      have first : k = 0 := by
        simp only [WbEvent.refuses, state, Bool.and_eq_true, beq_iff_eq] at refuses
        exact refuses.1
      rw [first] at place
      exact List.length_eq_zero_iff.1 place.symm

theorem Writing.accepted_clear {s : WbEvent} {o : Observer} (w : Writing s o) (accepted : ¬s.refuses = true) :
    o.refused = false := by
  by_contra refused
  apply accepted
  simp [WbEvent.refuses, w.state_refused (by simpa using refused)]

/-- What the write clock does to the write side. -/
theorem bus_edge {s : WbEvent} {o : Observer} (w : Writing s o)
    (few : o.chunks.length ≤ o.taken.length + 3) (b : WbIn) :
    Writing (s.writeEdge b) (o.onBus b (s.writeEdge b).wAck (s.writeEdge b).wErr) := by
  have memory := s.writeEdge_memory b
  cases cyc : b.cyc with
  | false =>
      have seen (ack err : Bool) : o.onBus b ack err = { o with chunk := [], refused := false } := by
        simp [Observer.onBus, cyc]
      rw [seen]
      apply w.gives_up few b.dat memory <;> simp [writeEdge, cyc]
  | true =>
      cases write : b.stb && b.we with
      | false =>
          have seen (ack err : Bool) : o.onBus b ack err = { o with refused := o.refused } := by
            simp [Observer.onBus, cyc, write]
          have same : (s.writeEdge b).rwReady = s.rwReady ∧ (s.writeEdge b).rwAddr = s.rwAddr ∧
              (s.writeEdge b).rwOk = s.rwOk ∧ (s.writeEdge b).rwState = s.rwState := by
            cases stb : b.stb <;> cases we : b.we <;> simp_all [writeEdge]
          rw [seen]
          apply w.idles few b.dat memory same.1 same.2.1 same.2.2.1 w.empty
          rw [same.2.2.2]
          exact w.state
      | true =>
          have bits : b.stb = true ∧ b.we = true := by simpa using write
          by_cases refuses : s.refuses = true
          · have seen : o.onBus b (s.writeEdge b).wAck (s.writeEdge b).wErr = { o with refused := true } := by
              simp [Observer.onBus, writeEdge, cyc, bits, refuses]
            have empty := w.refused_empty refuses
            rw [seen]
            apply w.idles few b.dat memory
            case empty => exact fun _ => empty
            case state => exact ⟨0, by simp [empty], by simp [writeEdge, cyc, bits, refuses]⟩
            all_goals simp [writeEdge, cyc, bits, refuses]
          · have clear := w.accepted_clear refuses
            obtain ⟨k, place, state⟩ := w.state_open clear
            by_cases last : k = 7
            · have full : o.chunk.length = 7 := by simp [← place, last]
              have seen : o.onBus b (s.writeEdge b).wAck (s.writeEdge b).wErr =
                  { o with chunks := o.chunks ++ [o.chunk ++ [b.dat]], chunk := [] } := by
                simp [Observer.onBus, writeEdge, cyc, bits, refuses, state, last, full, clear]
              rw [seen]
              apply w.completes few b.dat full clear memory
              all_goals simp [writeEdge, cyc, bits, refuses, state, last]
            · have more : o.chunk.length ≠ 7 := fun seven => last (Fin.ext (place.trans seven))
              have short := w.short
              have seen : o.onBus b (s.writeEdge b).wAck (s.writeEdge b).wErr =
                  { o with chunk := o.chunk ++ [b.dat] } := by
                simp [Observer.onBus, writeEdge, cyc, bits, refuses, state, last, more, clear]
              rw [seen]
              apply w.continues few b.dat (by omega) clear memory
              case place => exact place
              all_goals simp [writeEdge, cyc, bits, refuses, state, last]

/-! ### The read side -/

/-- What an edge in a state puts into the item. -/
def load (k : Fin 8) (item : StreamItem) (word : BitVec 32) : StreamItem :=
  match k with
  | 0 => { item with event := upper item.event word }
  | 1 => { item with event := lower item.event word }
  | 2 => { item with param := upper item.param word }
  | 3 => { item with param := lower item.param word }
  | 4 => item
  | 5 => { item with tef := word }
  | 6 => { item with time := upper item.time word }
  | 7 => { item with time := lower item.time word }

theorem upper_half (high low : BitVec 32) : BitVec.extractLsb' 32 32 (high ++ low : BitVec 64) = high :=
  BitVec.extractLsb'_append_eq_left

theorem Loaded.next {words : Nat → BitVec 32} {k : Fin 8} {item : StreamItem} (l : Loaded words k item) :
    Loaded words (k + 1) (load k item (words k)) := by
  obtain ⟨event, eventLow, param, paramLow, tef, time⟩ := l
  constructor
  all_goals
    intro enough
    fin_cases k <;> simp_all [load, upper, lower, upper_half]

theorem Loaded.whole {words : Nat → BitVec 32} {item : StreamItem} (l : Loaded words 7 item) :
    load 7 item (words 7) = ⟨words 0 ++ words 1, words 2 ++ words 3, words 5, words 6 ++ words 7⟩ := by
  obtain ⟨-, eventLow, -, paramLow, tef, time⟩ := l
  simp_all [load, lower]

theorem readEdge_busy {s : WbEvent} {k : Fin 8} (state : s.reState = .s k) (busy : 0 < k) (i : StreamIn) :
    s.readEdge i = { s.readEdge i with
      reItem := load k s.reItem s.seData, reState := .s (k + 1)
      reStb := if k = 7 then true else s.reStb
      reSent := if k = 7 then s.reSent + 1 else s.reSent } := by
  fin_cases k <;> simp_all [readEdge, load]

/-- A chunk that is completed elsewhere changes nothing for the read side. -/
theorem Reading.grows {s : WbEvent} {o : Observer} {known : Nat} {k : Fin 8} (r : Reading s o known k)
    (complete : known ≤ o.chunks.length) {later : Observer} {more : List (List (BitVec 32))}
    (chunks : later.chunks = o.chunks ++ more) (taken : later.taken = o.taken) :
    Reading s later known k := by
  have same : s.sent later = s.sent o := by rw [WbEvent.sent, WbEvent.sent, taken]
  have passed : o.taken.length ≤ o.chunks.length := by
    have := r.behind
    unfold WbEvent.sent at this
    omega
  have words (inside : s.sent o < known) : word later.chunks (s.sent o) = word o.chunks (s.sent o) := by
    funext m
    rw [chunks, word_append (by omega)]
  constructor
  · rw [same, r.sent]
  · exact r.ready
  · rw [same]
    exact r.behind
  · exact r.state
  · rw [same, r.addr]
  · rw [same]
    exact r.busy
  · rw [same]
    intro inside
    rw [words inside, r.data inside]
  · rw [same]
    by_cases inside : s.sent o < known
    · rw [words inside]
      exact r.loaded
    · have first : k = 0 := by
        by_contra other
        exact inside (r.busy (Fin.pos_iff_ne_zero.2 other)).2
      subst first
      constructor <;> simp
  · intro stb
    have inside : o.taken.length < o.chunks.length := by
      have := r.behind
      simp only [WbEvent.sent, stb, Bool.toNat_true] at this
      omega
    rw [r.offered stb, chunks, taken]
    simp [List.getD, List.getElem?_append_left inside]
  · rw [chunks, taken, List.take_append_of_le_length passed, ← r.taken]

@[simp] theorem readEdge_addr (s : WbEvent) (i : StreamIn) : (s.readEdge i).reAddr = s.seAddr i.stall := by
  simp only [readEdge]
  repeat' split
  all_goals rfl

@[simp] theorem readEdge_ready (s : WbEvent) (i : StreamIn) :
    (s.readEdge i).reReady = fEcaGrayDecode s.re0ReadyGray := by
  simp only [readEdge]
  repeat' split
  all_goals rfl

@[simp] theorem readEdge_re0 (s : WbEvent) (i : StreamIn) : (s.readEdge i).re0ReadyGray = s.re1ReadyGray := by
  simp only [readEdge]
  repeat' split
  all_goals rfl

@[simp] theorem readEdge_re1 (s : WbEvent) (i : StreamIn) : (s.readEdge i).re1ReadyGray = s.rwReadyGray := by
  simp only [readEdge]
  repeat' split
  all_goals rfl

@[simp] theorem readEdge_data (s : WbEvent) (i : StreamIn) : (s.readEdge i).seData =
    if s.seAddr i.stall == s.rwAddr then i.undefined else s.memory (s.seAddr i.stall) := by
  simp only [readEdge]
  repeat' split
  all_goals rfl

def taking (s : WbEvent) (i : StreamIn) : List StreamItem :=
  if s.reStb && !i.stall then [s.reItem] else []

/-- What the read side relies on at one of its edges: the pointer that arrives, and that the memory
has the word it reads. -/
structure Served (s : WbEvent) (o : Observer) (i : StreamIn) (known next : Nat) : Prop where
  arrives : s.re0ReadyGray = fEcaGrayEncode (BitVec.ofNat 3 next)
  later : known ≤ next
  near : next < s.sent o + 8
  read : ∀ e k, s.sent o ≤ e → e < next → k < 8 → s.seAddr i.stall = address e k →
    (s.readEdge i).seData = word o.chunks e k

theorem stream_busy {s : WbEvent} {o : Observer} {i : StreamIn} {known next : Nat} {k : Fin 8}
    (r : Reading s o known k) (v : Served s o i known next) (busy : 0 < k) (more : k ≠ 7) :
    Reading (s.readEdge i) { o with taken := o.taken ++ s.taking i } next (k + 1) := by
  obtain ⟨free, inside⟩ := r.busy busy
  have none : s.taking i = [] := by simp [taking, free]
  have below : k < 7 := by omega
  have value : (k + 1).val = k.val + 1 := by omega
  have edge := readEdge_busy r.state busy i
  rw [if_neg more, if_neg more] at edge
  have stb : (s.readEdge i).reStb = s.reStb := by rw [edge]
  have same : (s.readEdge i).sent o = s.sent o := by rw [WbEvent.sent, WbEvent.sent, stb]
  have addr : s.seAddr i.stall = address (s.sent o) (k + 1).val := by
    rw [seAddr, r.state, r.addr, value, ← address_next, if_neg]
    simp [Fin.pos_iff_ne_zero.1 busy]
  have loaded := (r.loaded).next
  rw [← r.data inside] at loaded
  simp only [none, List.append_nil]
  constructor
  · rw [same, edge, ← r.sent]
  · rw [readEdge_ready, v.arrives, gray_decode]
  · rw [same]
    exact r.behind.trans v.later
  · rw [edge]
  · rw [same, readEdge_addr, addr]
  · intro _
    rw [same, stb]
    exact ⟨free, inside.trans_le v.later⟩
  · rw [same]
    intro known'
    exact v.read _ _ le_rfl known' (k + 1).isLt addr
  · rw [same, value, edge]
    exact loaded
  · rw [stb, free]
    simp
  · exact r.taken

theorem stream_last {s : WbEvent} {o : Observer} {i : StreamIn} {known next : Nat}
    (r : Reading s o known 7) (v : Served s o i known next) :
    Reading (s.readEdge i) { o with taken := o.taken ++ s.taking i } next 0 := by
  obtain ⟨free, inside⟩ := r.busy (by decide)
  have none : s.taking i = [] := by simp [taking, free]
  have edge := readEdge_busy r.state (by decide) i
  rw [if_pos rfl, if_pos rfl] at edge
  have stb : (s.readEdge i).reStb = true := by rw [edge]
  have before : s.sent o = o.taken.length := by rw [WbEvent.sent, free, Bool.toNat_false, Nat.add_zero]
  have same : (s.readEdge i).sent o = s.sent o + 1 := by
    rw [before, WbEvent.sent, stb, Bool.toNat_true]
  have addr : s.seAddr i.stall = address (s.sent o + 1) 0 := by
    rw [seAddr, r.state, r.addr, ← address_wrap, if_neg]
    · exact address_next _ _
    · simp
  simp only [none, List.append_nil]
  constructor
  · rw [same, edge, r.sent]
    exact (BitVec.ofNat_add _ _).symm
  · rw [readEdge_ready, v.arrives, gray_decode]
  · rw [same]
    exact inside.trans_le v.later
  · rw [edge]
    rfl
  · rw [same, readEdge_addr, addr]
    rfl
  · simp
  · rw [same]
    intro known'
    exact v.read _ _ (by omega) known' (by decide) addr
  · constructor <;> simp
  · intro _
    have loaded := r.loaded.whole
    rw [edge, r.data inside, ← before]
    exact loaded
  · exact r.taken

theorem exit_iff {s : WbEvent} {o : Observer} {known : Nat} {k : Fin 8} (r : Reading s o known k)
    (near : known < s.sent o + 8) (stall : Bool) :
    s.seExitS0 stall = true ↔ s.sent o < known ∧ (s.reStb = false ∨ stall = false) := by
  have differ : s.reSent ≠ s.reReady ↔ s.sent o < known := by
    constructor
    · intro different
      rw [r.sent, r.ready] at different
      apply lt_of_le_of_ne r.behind
      intro same
      exact different (by rw [same])
    · intro below
      rw [r.sent, r.ready]
      exact pointer_ne below near
  simp [seExitS0, differ]

/-- An item that is taken is the next chunk. -/
theorem Reading.takes {s : WbEvent} {o : Observer} {known : Nat} {k : Fin 8} (r : Reading s o known k)
    (complete : known ≤ o.chunks.length) (i : StreamIn) :
    o.taken ++ s.taking i =
      (o.chunks.take (o.taken ++ s.taking i).length).map itemOf := by
  by_cases takes : (s.reStb && !i.stall) = true
  · have stb : s.reStb = true := by simp_all
    have inside : o.taken.length < o.chunks.length := by
      have := r.behind
      simp only [WbEvent.sent, stb, Bool.toNat_true] at this
      omega
    have item := r.offered stb
    rw [List.getD, List.getElem?_eq_getElem inside, Option.getD_some] at item
    rw [taking, if_pos takes, List.length_append, List.length_singleton, List.take_succ_eq_append_getElem inside,
      List.map_append, ← r.taken, item]
    rfl
  · rw [taking, if_neg takes, List.append_nil]
    exact r.taken

theorem stream_idle {s : WbEvent} {o : Observer} {i : StreamIn} {known next : Nat}
    (r : Reading s o known 0) (v : Served s o i known next) (complete : known ≤ o.chunks.length) :
    Reading (s.readEdge i) { o with taken := o.taken ++ s.taking i } next
      (if s.seExitS0 i.stall then 1 else 0) := by
  have edge : s.readEdge i = { s.readEdge i with
      reStb := s.reStb && i.stall, reSent := s.reSent
      reItem := if !s.reStb || !i.stall then load 0 s.reItem s.seData else s.reItem
      reState := if s.seExitS0 i.stall then .s 1 else .s 0 } := by
    simp [readEdge, r.state, load]
  have stb : (s.readEdge i).reStb = (s.reStb && i.stall) := by rw [edge]
  have same : (s.readEdge i).sent { o with taken := o.taken ++ s.taking i } = s.sent o := by
    rw [WbEvent.sent, WbEvent.sent, stb]
    cases held : s.reStb <;> cases stall : i.stall <;> simp [taking, held, stall]
  have exits := exit_iff r (lt_of_le_of_lt v.later v.near) i.stall
  have sent : (s.readEdge i).reSent = BitVec.ofNat 3 (s.sent o) := by rw [edge, ← r.sent]
  have ready : (s.readEdge i).reReady = BitVec.ofNat 3 next := by rw [readEdge_ready, v.arrives, gray_decode]
  have behind : (s.readEdge i).sent { o with taken := o.taken ++ s.taking i } ≤ next := by
    rw [same]
    exact r.behind.trans v.later
  have offered : (s.readEdge i).reStb = true → (s.readEdge i).reItem =
      itemOf (o.chunks.getD (o.taken ++ s.taking i).length []) := by
    intro held
    have both : s.reStb = true ∧ i.stall = true := by simpa [stb] using held
    rw [edge]
    simpa [both, taking] using r.offered both.1
  by_cases leaves : s.seExitS0 i.stall = true
  · obtain ⟨inside, free⟩ := exits.1 leaves
    have addr : s.seAddr i.stall = address (s.sent o) 1 := by
      rw [seAddr, r.state, leaves, r.addr]
      exact address_next _ _
    have unheld : (s.readEdge i).reStb = false := by
      rw [stb]
      rcases free with free | free <;> simp [free]
    have loaded := r.loaded.next
    rw [← r.data inside] at loaded
    have item : (s.readEdge i).reItem = load 0 s.reItem s.seData := by
      rw [edge]
      exact if_pos (by rcases free with free | free <;> simp [free])
    rw [if_pos leaves]
    constructor
    · rw [same, sent]
    · exact ready
    · exact behind
    · rw [edge, if_pos leaves]
    · rw [same, readEdge_addr, addr]
      rfl
    · intro _
      rw [same]
      exact ⟨unheld, inside.trans_le v.later⟩
    · rw [same]
      intro known'
      exact v.read _ _ le_rfl known' (by decide) addr
    · rw [same, item]
      exact loaded
    · exact offered
    · exact r.takes complete i
  · have addr : s.seAddr i.stall = address (s.sent o) 0 := by
      rw [seAddr, r.state, r.addr]
      simp [leaves]
    rw [if_neg leaves]
    constructor
    · rw [same, sent]
    · exact ready
    · exact behind
    · rw [edge, if_neg leaves]
    · rw [same, readEdge_addr, addr]
      rfl
    · simp
    · rw [same]
      intro known'
      exact v.read _ _ le_rfl known' (by decide) addr
    · constructor <;> simp
    · exact offered
    · exact r.takes complete i

/-- The word that is read after an edge of the read clock. -/
def nextWord (s : WbEvent) (stall : Bool) (k : Fin 8) : Fin 8 :=
  if k = 0 then if s.seExitS0 stall then 1 else 0 else k + 1

/-- What the read clock does to the read side. -/
theorem stream_edge {s : WbEvent} {o : Observer} {i : StreamIn} {known next : Nat} {k : Fin 8}
    (r : Reading s o known k) (v : Served s o i known next) (complete : known ≤ o.chunks.length) :
    Reading (s.readEdge i) { o with taken := o.taken ++ s.taking i } next (s.nextWord i.stall k) := by
  by_cases first : k = 0
  · subst first
    exact stream_idle r v complete
  · rw [nextWord, if_neg first]
    by_cases last : k = 7
    · subst last
      exact stream_last r v
    · exact stream_busy r v (Fin.pos_iff_ne_zero.2 first) last

/-! ### Whole runs -/

theorem Full.served {so : WbEvent × Observer} {n₁ n₂ n₃ n₄ : Nat} {k : Fin 8} (f : Full so n₁ n₂ n₃ n₄ k)
    {i : EventIn} (fits : Fits so i) {e : StreamIn} (edge : i.eEdge = some e) :
    Served so.1 so.2 e n₄ n₃ := by
  obtain ⟨known, older, old, newest⟩ := f.passing.order
  have room := f.room
  have passed : so.2.taken.length ≤ so.1.sent so.2 := Nat.le_add_right _ _
  constructor
  · exact f.passing.re0
  · exact known
  · omega
  · intro m j waits complete inside addr
    have apart : so.1.seAddr e.stall ≠ so.1.rwAddr := by
      rcases fits.2 e (by simp [edge]) with few | other | unknown
      · rw [addr]
        exact f.writing.apart few (by omega) (by omega) inside
      · exact other
      · -- the pointer that arrives is the number of events sent, so there is none to read
        rw [f.passing.re0, gray_decode, f.reading.sent] at unknown
        exact absurd unknown.symm (pointer_ne (by omega) (by omega))
    rw [readEdge_data, if_neg (by simpa using apart), addr]
    exact f.writing.kept m j (by omega) (by omega) inside

theorem onBus_chunks (o : Observer) (b : WbIn) (ack err : Bool) :
    ∃ more, (o.onBus b ack err).chunks = o.chunks ++ more ∧ more.length ≤ 1 := by
  simp only [Observer.onBus]
  repeat' split
  all_goals first | exact ⟨[_], rfl, le_rfl⟩ | exact ⟨[], by simp⟩

theorem onBus_taken (o : Observer) (b : WbIn) (ack err : Bool) : (o.onBus b ack err).taken = o.taken := by
  simp only [Observer.onBus]
  repeat' split
  all_goals rfl

theorem Writing.later {s : WbEvent} {o : Observer} (w : Writing s o) (items : List StreamItem) :
    Writing s { o with taken := o.taken ++ items } := by
  refine ⟨w.ready, w.addr, w.ok, w.state, w.empty, ?_, w.begun⟩
  intro e k waits complete inside
  apply w.kept e k _ complete inside
  exact le_trans (by simp) waits

/-- The observer after the write clock alone. -/
def written (so : WbEvent × Observer) (i : EventIn) : Observer :=
  match i.wEdge with
  | some b => so.2.onBus b (so.1.writeEdge b).wAck (so.1.writeEdge b).wErr
  | none => so.2

theorem watch_observer (so : WbEvent × Observer) (i : EventIn) :
    (watch so i).2 = { written so i with taken := so.2.taken ++ so.1.onStream i } := by
  rcases i with ⟨b | b, e⟩ <;> rfl

theorem written_taken (so : WbEvent × Observer) (i : EventIn) : (written so i).taken = so.2.taken := by
  rcases i with ⟨b | b, e⟩
  · rfl
  · exact onBus_taken _ _ _ _

theorem written_chunks (so : WbEvent × Observer) (i : EventIn) :
    ∃ more, (written so i).chunks = so.2.chunks ++ more ∧ more.length ≤ 1 ∧ (more ≠ [] → i.wEdge.isSome) := by
  rcases i with ⟨b | b, e⟩
  · exact ⟨[], by simp [written]⟩
  · obtain ⟨more, chunks, one⟩ := onBus_chunks so.2 b (so.1.writeEdge b).wAck (so.1.writeEdge b).wErr
    exact ⟨more, chunks, one, fun _ => rfl⟩

theorem Full.writes {so : WbEvent × Observer} {n₁ n₂ n₃ n₄ : Nat} {k : Fin 8} (f : Full so n₁ n₂ n₃ n₄ k)
    {i : EventIn} (fits : Fits so i) : Writing (watch so i).1 (watch so i).2 := by
  have side : Writing (so.1.step i) (written so i) := by
    rcases i with ⟨b | b, e⟩
    · exact ⟨f.writing.1, f.writing.2, f.writing.3, f.writing.4, f.writing.5, f.writing.6, f.writing.7⟩
    · have w := bus_edge f.writing (fits.1 rfl) b
      exact ⟨w.1, w.2, w.3, w.4, w.5, w.6, w.7⟩
  rw [watch_observer, ← written_taken so i]
  exact side.later _

theorem Full.reads {so : WbEvent × Observer} {n₁ n₂ n₃ n₄ : Nat} {k : Fin 8} (f : Full so n₁ n₂ n₃ n₄ k)
    {i : EventIn} (fits : Fits so i) :
    Reading (watch so i).1 (watch so i).2 (if i.eEdge.isSome then n₃ else n₄)
      (match i.eEdge with | some e => so.1.nextWord e.stall k | none => k) := by
  obtain ⟨known, older, old, newest⟩ := f.passing.order
  obtain ⟨more, chunks, -, -⟩ := written_chunks so i
  rw [watch_observer]
  rcases i with ⟨b, e | e⟩
  · have side : Reading (so.1.step ⟨b, none⟩) { so.2 with taken := so.2.taken ++ [] } n₄ k := by
      rw [List.append_nil]
      have r := f.reading
      exact ⟨r.1, r.2, r.3, r.4, r.5, r.6, r.7, r.8, r.9, r.10⟩
    exact side.grows (by simp; omega) chunks rfl
  · have side : Reading (so.1.step ⟨b, some e⟩) { so.2 with taken := so.2.taken ++ so.1.taking e } n₃
        (so.1.nextWord e.stall k) := by
      have r := stream_edge f.reading (f.served fits rfl) (by omega)
      exact ⟨r.1, r.2, r.3, r.4, r.5, r.6, r.7, r.8, r.9, r.10⟩
    exact side.grows (by simp; omega) chunks rfl

theorem Full.passes {so : WbEvent × Observer} {n₁ n₂ n₃ n₄ : Nat} {k : Fin 8} (f : Full so n₁ n₂ n₃ n₄ k)
    (i : EventIn) : Passing (watch so i).1 (watch so i).2 (if i.wEdge.isSome then so.2.chunks.length else n₁)
      (if i.eEdge.isSome then n₁ else n₂) (if i.eEdge.isSome then n₂ else n₃)
      (if i.eEdge.isSome then n₃ else n₄) := by
  obtain ⟨gray, re1, re0, order⟩ := f.passing
  obtain ⟨more, chunks, -, -⟩ := written_chunks so i
  have longer : so.2.chunks.length ≤ (watch so i).2.chunks.length := by
    rw [watch_observer, chunks]
    simp
  constructor
  · rcases i with ⟨b | b, e⟩
    · exact gray
    · exact (so.1.writeEdge_readyGray b).trans (by rw [f.writing.ready]; rfl)
  · rcases i with ⟨b, e | e⟩
    · exact re1
    · exact (so.1.readEdge_re1 e).trans gray
  · rcases i with ⟨b, e | e⟩
    · exact re0
    · exact (so.1.readEdge_re0 e).trans re1
  · split <;> split <;> omega

theorem Full.step {so : WbEvent × Observer} {n₁ n₂ n₃ n₄ : Nat} {k : Fin 8} (f : Full so n₁ n₂ n₃ n₄ k)
    {i : EventIn} (fits : Fits so i) : Full (watch so i)
      (if i.wEdge.isSome then so.2.chunks.length else n₁) (if i.eEdge.isSome then n₁ else n₂)
      (if i.eEdge.isSome then n₂ else n₃) (if i.eEdge.isSome then n₃ else n₄)
      (match i.eEdge with | some e => so.1.nextWord e.stall k | none => k) := by
  refine ⟨f.writes fits, f.reads fits, f.passes i, ?_⟩
  obtain ⟨more, chunks, one, edge⟩ := written_chunks so i
  have room := f.room
  rw [watch_observer]
  simp only [chunks, List.length_append]
  by_cases none : more = []
  · rw [none, List.length_nil]
    omega
  · have few := fits.1 (edge none)
    omega

/-- What holds of an edge: the items taken by then are the first chunks, a refused cycle gets no
write acknowledged, and nothing is written over an event that waits. -/
structure Sound (so : WbEvent × Observer) (i : EventIn) : Prop where
  inOrder : (watch so i).2.taken =
    ((watch so i).2.chunks.take (watch so i).2.taken.length).map itemOf
  complete : (watch so i).2.taken.length ≤ (watch so i).2.chunks.length
  refused : ∀ b ∈ i.wEdge, so.2.refused = true → b.cyc = true → b.stb = true → b.we = true →
    (so.1.step i).wAck = false ∧ (so.1.step i).wErr = true
  kept : i.wEdge.isSome → ∀ e k, so.2.taken.length ≤ e → e < so.2.chunks.length → k < 8 →
    address e k ≠ so.1.rwAddr

theorem Full.sound {so : WbEvent × Observer} {n₁ n₂ n₃ n₄ : Nat} {k : Fin 8} (f : Full so n₁ n₂ n₃ n₄ k)
    {i : EventIn} (fits : Fits so i) : Sound so i := by
  have next := f.step fits
  constructor
  · exact next.reading.taken
  · obtain ⟨known, older, old, newest⟩ := next.passing.order
    have passed : (watch so i).2.taken.length ≤ (watch so i).1.sent (watch so i).2 := Nat.le_add_right _ _
    have behind := next.reading.behind
    omega
  · intro b edge refused cyc stb we
    rcases i with ⟨bus, e⟩
    obtain rfl : bus = some b := edge
    have refuses : so.1.refuses = true := by simp [WbEvent.refuses, f.writing.state_refused refused]
    constructor <;> simp [WbEvent.step, writeEdge, cyc, stb, we, refuses]
  · intro edge e m waits complete inside
    exact f.writing.apart (fits.1 edge) waits complete inside

def start (memory : BitVec 5 → BitVec 32) : WbEvent × Observer := ({ memory := memory }, {})

theorem start_full (memory : BitVec 5 → BitVec 32) : Full (start memory) 0 0 0 0 0 := by
  constructor
  · constructor <;> simp [start, address]
  · constructor <;> simp [start, address, WbEvent.sent]
    constructor <;> simp
  · constructor <;> simp [start] <;> decide
  · simp [start]

def Reached (so : WbEvent × Observer) : Prop := ∃ n₁ n₂ n₃ n₄ k, Full so n₁ n₂ n₃ n₄ k

theorem Reached.step {so : WbEvent × Observer} (reached : Reached so) {i : EventIn} (fits : Fits so i) :
    Reached (watch so i) := by
  obtain ⟨_, _, _, _, _, f⟩ := reached
  exact ⟨_, _, _, _, _, f.step fits⟩

theorem Reached.sound {so : WbEvent × Observer} (reached : Reached so) {inputs : List EventIn}
    (fits : Along watch Fits so inputs) : Along watch Sound so inputs := by
  induction inputs generalizing so with
  | nil => trivial
  | cons i rest ih =>
      obtain ⟨_, _, _, _, _, f⟩ := id reached
      exact ⟨f.sound fits.1, ih (reached.step fits.1) fits.2⟩

/-- Both clocks have an edge, the bus is idle and the stream is not stalled. -/
def Quiet (i : EventIn) : Prop := ∃ b e, i = ⟨some b, some e⟩ ∧ b.cyc = false ∧ e.stall = false

/-- The stages a ready pointer has to pass until the read side knows of all events. -/
def lag (all n₁ n₂ n₃ n₄ : Nat) : Nat :=
  (if n₁ < all then 1 else 0) + (if n₂ < all then 1 else 0) + (if n₃ < all then 1 else 0) +
    if n₄ < all then 1 else 0

theorem lag_moves (all n₁ n₂ n₃ n₄ : Nat) :
    lag all n₁ n₂ n₃ n₄ = lag all all n₁ n₂ n₃ + if n₄ < all then 1 else 0 := by
  simp [lag]

/-- The quiet edges until all events are taken: an event takes nine once it is known of. -/
def rank (so : WbEvent × Observer) (n₁ n₂ n₃ n₄ : Nat) (k : Fin 8) : Nat :=
  9 * (so.2.chunks.length - so.1.sent so.2) + so.1.reStb.toNat - k + lag so.2.chunks.length n₁ n₂ n₃ n₄

theorem taking_length (s : WbEvent) {e : StreamIn} (free : e.stall = false) :
    (s.taking e).length = s.reStb.toNat := by
  cases stb : s.reStb <;> simp [taking, stb, free]

theorem readEdge_stb {s : WbEvent} {o : Observer} {known : Nat} {k : Fin 8} (r : Reading s o known k)
    {e : StreamIn} (free : e.stall = false) : (s.readEdge e).reStb = decide (k = 7) := by
  by_cases first : k = 0
  · subst first
    simp [readEdge, r.state, free]
  · have busy := Fin.pos_iff_ne_zero.2 first
    rw [readEdge_busy r.state busy e]
    by_cases last : k = 7
    · simp [last]
    · simp [last, (r.busy busy).1]

theorem quiet_rank {so : WbEvent × Observer} {n₁ n₂ n₃ n₄ : Nat} {k : Fin 8} (f : Full so n₁ n₂ n₃ n₄ k)
    {b : WbIn} {e : StreamIn} (idle : b.cyc = false) (free : e.stall = false) :
    rank (watch so ⟨some b, some e⟩) so.2.chunks.length n₁ n₂ n₃ (so.1.nextWord e.stall k) ≤
      rank so n₁ n₂ n₃ n₄ k - 1 := by
  obtain ⟨known, older, old, newest⟩ := f.passing.order
  have room := f.room
  have passed : so.2.taken.length ≤ so.1.sent so.2 := Nat.le_add_right _ _
  have chunks : (watch so ⟨some b, some e⟩).2.chunks = so.2.chunks := by
    simp [watch, observe, Observer.onBus, idle]
  have stb : (watch so ⟨some b, some e⟩).1.reStb = decide (k = 7) := readEdge_stb f.reading free
  have sent : (watch so ⟨some b, some e⟩).1.sent (watch so ⟨some b, some e⟩).2 =
      so.1.sent so.2 + (decide (k = 7)).toNat := by
    rw [WbEvent.sent, WbEvent.sent, stb, watch_observer, List.length_append]
    exact congrArg (so.2.taken.length + · + _) (so.1.taking_length free)
  have behind := f.reading.behind
  have exits := exit_iff f.reading (by omega) e.stall
  rw [rank, rank, chunks, sent, stb, lag_moves so.2.chunks.length n₁ n₂ n₃ n₄]
  by_cases first : k = 0
  · subst first
    by_cases leaves : so.1.sent so.2 < n₄
    · have word : so.1.nextWord e.stall 0 = 1 := by simp [nextWord, exits.2 ⟨leaves, .inr free⟩]
      rw [word]
      simp
      omega
    · -- a pointer on its way moves on, or there is nothing left to read
      have stays : ¬so.1.seExitS0 e.stall = true := fun leaves' => leaves (exits.1 leaves').1
      have word : so.1.nextWord e.stall 0 = 0 := by simp [nextWord, stays]
      rw [word]
      by_cases waits : n₄ < so.2.chunks.length
      · simp [waits]
      · have none : lag so.2.chunks.length so.2.chunks.length n₁ n₂ n₃ = 0 := by
          simp [lag]
          omega
        simp [waits, none]
        omega
  · obtain ⟨held, inside⟩ := f.reading.busy (Fin.pos_iff_ne_zero.2 first)
    have word : so.1.nextWord e.stall k = k + 1 := by simp [nextWord, first]
    rw [word, held]
    by_cases last : k = 7
    · subst last
      simp
      omega
    · have value : (k + 1).val = k.val + 1 := by omega
      rw [value]
      simp [last]
      omega

/-- Quiet edges wear the rank off. -/
theorem quiet_run {so : WbEvent × Observer} {n₁ n₂ n₃ n₄ : Nat} {k : Fin 8} (f : Full so n₁ n₂ n₃ n₄ k)
    {inputs : List EventIn} (fits : Along watch Fits so inputs) (quiet : ∀ i ∈ inputs, Quiet i) :
    ∃ m₁ m₂ m₃ m₄ j, Full (run watch so inputs) m₁ m₂ m₃ m₄ j ∧
      rank (run watch so inputs) m₁ m₂ m₃ m₄ j ≤ rank so n₁ n₂ n₃ n₄ k - inputs.length := by
  induction inputs generalizing so n₁ n₂ n₃ n₄ k with
  | nil => exact ⟨_, _, _, _, _, f, le_rfl⟩
  | cons i rest ih =>
      obtain ⟨b, e, rfl, idle, free⟩ := quiet i (by simp)
      have next := f.step fits.1
      obtain ⟨m₁, m₂, m₃, m₄, j, full, less⟩ := ih next fits.2 fun i inside => quiet i (by simp [inside])
      refine ⟨m₁, m₂, m₃, m₄, j, full, less.trans ?_⟩
      have here := quiet_rank f idle free
      simp only [Option.isSome_some, if_true, List.length_cons]
      omega

theorem rank_le {so : WbEvent × Observer} {n₁ n₂ n₃ n₄ : Nat} {k : Fin 8} (f : Full so n₁ n₂ n₃ n₄ k) :
    rank so n₁ n₂ n₃ n₄ k ≤ 41 := by
  have room := f.room
  have passed : so.2.taken.length ≤ so.1.sent so.2 := Nat.le_add_right _ _
  have one := so.1.reStb.toNat_le
  simp only [rank, lag]
  split <;> split <;> split <;> split <;> omega

theorem rank_zero {so : WbEvent × Observer} {n₁ n₂ n₃ n₄ : Nat} {k : Fin 8} (f : Full so n₁ n₂ n₃ n₄ k)
    (zero : rank so n₁ n₂ n₃ n₄ k = 0) : so.2.taken = so.2.chunks.map itemOf := by
  obtain ⟨known, older, old, newest⟩ := f.passing.order
  have behind := f.reading.behind
  have all : so.2.taken.length = so.2.chunks.length := by
    simp only [rank, Nat.add_eq_zero_iff] at zero
    by_cases first : k = 0
    · subst first
      simp only [WbEvent.sent, Fin.val_zero] at zero behind
      omega
    · have inside := (f.reading.busy (Fin.pos_iff_ne_zero.2 first)).2
      omega
  rw [f.reading.taken, all, List.take_length]

theorem events_kept (memory : BitVec 5 → BitVec 32) :
    (∀ inputs, Along watch Fits (start memory) inputs → Along watch Sound (start memory) inputs) ∧
    ∀ inputs quiet, Along watch Fits (start memory) (inputs ++ quiet) → (∀ i ∈ quiet, Quiet i) →
      41 ≤ quiet.length → (run watch (start memory) (inputs ++ quiet)).2.taken =
        (run watch (start memory) (inputs ++ quiet)).2.chunks.map itemOf := by
  have reached : Reached (start memory) := ⟨_, _, _, _, _, start_full memory⟩
  constructor
  · intro inputs fits
    exact reached.sound fits
  · intro inputs quiet fits idle enough
    obtain ⟨first, second⟩ := (along_append watch Fits _ inputs quiet).1 fits
    have before : Reached (run watch (start memory) inputs) :=
      first.invariant Reached (fun _ _ here fit => here.step fit) reached
    obtain ⟨n₁, n₂, n₃, n₄, k, full⟩ := before
    obtain ⟨m₁, m₂, m₃, m₄, j, last, less⟩ := quiet_run full second idle
    have most := rank_le full
    rw [run_append]
    exact rank_zero last (by omega)

instance (so : WbEvent × Observer) (i : EventIn) : Decidable (Fits so i) := inferInstanceAs (Decidable (_ ∧ _))

/-- One word at each edge, with the stream stalled. -/
def burst (words : Nat) : List EventIn :=
  (List.range words).map fun n => ⟨some ⟨true, true, true, BitVec.ofNat 32 n⟩, some ⟨true, 0⟩⟩

def rest (edges : Nat) : List EventIn :=
  List.replicate edges ⟨some ⟨false, false, false, 0⟩, some ⟨false, 0⟩⟩

theorem events_kept_one : (run watch (start fun _ => 0) (burst 8 ++ rest 41)).2.taken =
    (run watch (start fun _ => 0) (burst 8 ++ rest 41)).2.chunks.map itemOf ∧
    Along watch Sound (start fun _ => 0) (burst 8 ++ rest 41) := by
  have fits : Along watch Fits (start fun _ => 0) (burst 8 ++ rest 41) := by decide
  constructor
  · apply (events_kept fun _ => 0).2 _ _ fits
    · intro i inside
      exact ⟨_, _, List.eq_of_mem_replicate inside, rfl, rfl⟩
    · simp [rest]
  · exact (events_kept fun _ => 0).1 _ fits

/-- Six events while the stream is stalled: the second item taken has the words of the sixth. -/
theorem event_overwritten : ¬Along watch Sound (start fun _ => 0) (burst 48 ++ rest 11 ++ rest 1) := by
  have wrong : (run watch (start fun _ => 0) (burst 48 ++ rest 11 ++ rest 1)).2.taken ≠
      ((run watch (start fun _ => 0) (burst 48 ++ rest 11 ++ rest 1)).2.chunks.take
        (run watch (start fun _ => 0) (burst 48 ++ rest 11 ++ rest 1)).2.taken.length).map itemOf := by
    decide +kernel
  intro sound
  have last := ((along_append watch Sound _ _ _).1 sound).2.1.inOrder
  rw [run_append] at wrong
  exact wrong last

end WbEvent

end WrCores.Eca
