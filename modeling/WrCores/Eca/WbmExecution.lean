import WrCores.Eca.WbmChannel
import WrCores.Eca.WbmTape

/-!
Executions of a macro by eca_ac_wbm: what the bus master does between the trigger and the return to `st_IDLE`, for any
stalls and any answers of the slave. `r_channel` is what it is in each cycle.
-/

namespace WrCores.Eca.Wbm

open Clocked Heap WbmChannel

variable {n entries : Nat}

/-! ### The master -/

/-- `mux_master_out`. -/
def muxMasterOut (chShow : BitVec 4) (data : BitVec 32) (c : TChannel) : BitVec 32 :=
  match chShow.toNat with
  | 0 => data
  | 1 => (BitVec.ofBool c.late ++ BitVec.ofBool c.conflict).setWidth 32
  | 2 => c.event.extractLsb' 32 32
  | 3 => c.event.extractLsb' 0 32
  | 4 => c.param.extractLsb' 32 32
  | 5 => c.param.extractLsb' 0 32
  | 6 => c.tag
  | 7 => c.tef
  | 8 => c.deadline.extractLsb' 32 32
  | 9 => c.deadline.extractLsb' 0 32
  | _ => data

/-- An operation on the bus. -/
structure Op where
  adr : BitVec 32
  sel : BitVec 4
  dat : BitVec 32
  deriving DecidableEq, Repr

/-- `master_out` with `s_q`. -/
def masterOut (s : Wbm n entries) (c : TChannel) : Op := ⟨s.q.addr, s.q.sel, muxMasterOut s.q.chShow s.q.data c⟩

/-- The operation that an element asks for. -/
def Element.op (e : Element) (c : TChannel) : Op :=
  ⟨e.addr, e.metaWord.extractLsb' 0 4, muxMasterOut (e.metaWord.extractLsb' 4 4) e.data c⟩

/-- What the bus shows: an operation that is accepted, with what `r_channel` holds then, and the end of a cycle. -/
inductive Event
  | op (channel : TChannel) (op : Op)
  | fall
  deriving DecidableEq, Repr

def accepts (s : Wbm n entries) (i : WbmIn n) : Bool := s.cyc && s.stb && !i.mStall

def falls (s : Wbm n entries) (i : WbmIn n) : Bool := s.cyc && !(s.step i).cyc

def shown (s : Wbm n entries) (i : WbmIn n) (c : TChannel) : List Event :=
  (if s.accepts i then [.op c (s.masterOut c)] else []) ++ if s.falls i then [.fall] else []

/-! ### What is due -/

/-- An element that was sent, and whether the cycle ends behind it. -/
structure Sent where
  element : Element
  falls : Bool
  channel : TChannel

def Sent.op (x : Sent) : Event := .op x.channel (x.element.op x.channel)

def Sent.events (x : Sent) : List Event := x.op :: if x.falls then [.fall] else []

/-- The cycle ends behind an element with its drop bit set and behind the last one. -/
def marked : List Element → List (Element × Bool)
  | [] => []
  | e :: rest => (e, e.drop || rest.isEmpty) :: marked rest

/-- The elements of `l` are the first ones of `es`. -/
def Begins (l : List Sent) (es rest : List Element) : Prop :=
  l.map (fun x => (x.element, x.falls)) ++ marked rest = marked es

@[simp] theorem marked_length (es : List Element) : (marked es).length = es.length := by
  induction es with
  | nil => rfl
  | cons e rest ih => simp [marked, ih]

theorem Begins.snoc {l : List Sent} {es rest : List Element} {e : Element} (begins : Begins l es (e :: rest))
    (c : TChannel) : Begins (l ++ [⟨e, e.drop || rest.isEmpty, c⟩]) es rest := by
  simpa [Begins, marked] using begins

theorem Begins.length {l : List Sent} {es rest : List Element} (begins : Begins l es rest) :
    l.length + rest.length = es.length := by
  have lengths := congrArg List.length begins
  simpa using lengths

/-! ### The invariant -/

/-- The two counters, for a cycle that began when `base` operations had been accepted and answered. -/
structure Counts (s : Wbm n entries) (accepted answered base : Nat) : Prop where
  below : base ≤ answered
  op : s.opCnt = BitVec.ofNat (n + 1) (accepted - base)
  ackerr : s.ackerrCnt = BitVec.ofNat (n + 1) (answered - base)

/-- What is behind the element that was accepted last. -/
def Behind (ram : Addr n → Rec n) (r : Rec n) : List Element → Prop
  | [] => r.hasNext = false
  | e :: rest => r.hasNext = true ∧ Plays ram r.pnext (e :: rest)

/-- How far an execution is. -/
inductive Progress (es : List Element) (s : Wbm n entries) (accepted answered : Nat) (log : List Event) : Prop
  | load (l : List Sent) (rest : List Element) (base : Nat) : s.state = .txLoad → s.rdy = true → s.ramWe = false →
      s.stb = false → Plays s.ram s.ramA rest → Begins l es rest → log = l.flatMap Sent.events →
      accepted = l.length → (if s.cyc then Counts s accepted answered base else accepted = answered) →
      Progress es s accepted answered log
  | send (l : List Sent) (rest : List Element) (base : Nat) : s.state = .tx → s.rdy = true → s.ramWe = false →
      s.stb = true → s.cyc = true → s.q = s.ram s.ramA → Plays s.ram s.ramA rest → Begins l es rest →
      log = l.flatMap Sent.events → accepted = l.length → Counts s accepted answered base →
      Progress es s accepted answered log
  | wait (l : List Sent) (x : Sent) (rest : List Element) (base : Nat) : s.state = .txWait → s.rdy = true →
      s.ramWe = false → s.stb = false → s.cyc = true → s.q = s.ram s.ramA → Behind s.ram s.q rest →
      Begins (l ++ [x]) es rest → x.falls = true → log = l.flatMap Sent.events ++ [x.op] →
      accepted = l.length + 1 → Counts s accepted answered base → Progress es s accepted answered log
  | ended (l : List Sent) : s.state = .idle → s.cyc = false → Begins l es [] → log = l.flatMap Sent.events →
      Progress es s accepted answered log

/-! ### One edge -/

section Edge

variable {s : Wbm n entries} {i : WbmIn n} {es : List Element} {A R base : Nat} {log : List Event}

/-- The counters follow while the cycle lasts. -/
theorem Counts.step (counts : Counts s A R base) (clear : s.clearing = false) (cyc : s.cyc = true) (bound : R ≤ A) :
    Counts (s.step i) (A + (s.accepts i).toNat) (R + i.mAck.toNat) base := by
  have below := counts.below
  constructor
  · omega
  · have next : (s.step i).opCnt = if s.accepts i then s.opCnt + 1 else s.opCnt := by
      simp [Wbm.step, masterCnt, clear, cyc, accepts]
    rw [next, counts.op]
    cases s.accepts i with
    | false => rfl
    | true =>
        rw [Bool.toNat_true, show A + 1 - base = (A - base) + 1 by omega, BitVec.ofNat_add]
        rfl
  · have next : (s.step i).ackerrCnt = if i.mAck then s.ackerrCnt + 1 else s.ackerrCnt := by
      simp [Wbm.step, masterCnt, clear, cyc]
    rw [next, counts.ackerr]
    cases i.mAck with
    | false => rfl
    | true =>
        rw [Bool.toNat_true, show R + 1 - base = (R - base) + 1 by omega, BitVec.ofNat_add]
        rfl

/-- Outside a cycle both start again. -/
theorem counts_start (clear : s.clearing = false) (cyc : s.cyc = false) : Counts (s.step i) A A A := by
  refine ⟨le_rfl, ?_, ?_⟩ <;> simp [Wbm.step, masterCnt, clear, cyc]

/-- Where the counters agree all is answered, or as many operations as the RAM has records are not. -/
theorem Counts.agree (counts : Counts s A R base) (bound : R ≤ A) (short : A ≤ 2 ^ (n + 1)) :
    s.ackerrCnt = s.opCnt ↔ A = R ∨ A = 2 ^ (n + 1) ∧ R = 0 := by
  have below := counts.below
  rw [counts.op, counts.ackerr]
  constructor
  · intro same
    have values := congrArg BitVec.toNat same
    rw [BitVec.toNat_ofNat, BitVec.toNat_ofNat] at values
    rcases Nat.lt_or_ge (A - base) (2 ^ (n + 1)) with less | full
    · rw [Nat.mod_eq_of_lt less, Nat.mod_eq_of_lt (by omega)] at values
      omega
    · rw [show A - base = 2 ^ (n + 1) by omega, Nat.mod_self] at values
      rcases Nat.lt_or_ge (R - base) (2 ^ (n + 1)) with less | all
      · rw [Nat.mod_eq_of_lt less] at values
        omega
      · omega
  · rintro (rfl | ⟨rfl, rfl⟩)
    · rfl
    · obtain rfl : base = 0 := by omega
      apply BitVec.eq_of_toNat_eq
      rw [BitVec.toNat_ofNat, BitVec.toNat_ofNat, Nat.sub_zero, Nat.sub_zero, Nat.mod_self, Nat.zero_mod]

theorem Stores.op {r : Rec n} {e : Element} (stores : Stores r e) (here : s.q = r) (c : TChannel) :
    s.masterOut c = e.op c := by
  rw [masterOut, Element.op, here, stores.addr, stores.data, stores.sel, stores.chShow]

theorem Plays.first {ram : Addr n → Rec n} {a : Addr n} {rest : List Element} (plays : Plays ram a rest) :
    ∃ e more, rest = e :: more ∧ Stores (ram a) e ∧ Behind ram (ram a) more := by
  cases rest with
  | nil => exact plays.elim
  | cons e more =>
      refine ⟨e, more, rfl, plays.1, ?_⟩
      cases more with
      | nil => exact plays.2
      | cons second more => exact plays.2

theorem Behind.hasNext {ram : Addr n → Rec n} {r : Rec n} {rest : List Element} (behind : Behind ram r rest) :
    r.hasNext = !rest.isEmpty := by
  cases rest with
  | nil => exact behind
  | cons e more => exact behind.1

theorem Behind.plays {ram : Addr n → Rec n} {r : Rec n} {rest : List Element} (behind : Behind ram r rest)
    (more : r.hasNext = true) : Plays ram r.pnext rest := by
  cases rest with
  | nil =>
      have none : r.hasNext = false := behind
      rw [none] at more
      cases more
  | cons e rest => exact behind.2

/-- What the three states of an execution do. -/
theorem load_main (clear : s.clearing = false) (ready : s.rdy = true) (state : s.state = .txLoad) :
    s.main i = { s.settle with stall := true, cyc := true, stb := true, state := .tx } := by
  simp [Wbm.main, clear, ready, state]

theorem tx_main (clear : s.clearing = false) (ready : s.rdy = true) (state : s.state = .tx) (cyc : s.cyc = true)
    (stb : s.stb = true) :
    s.main i = if i.mStall then { s.settle with stall := true, stb := true }
      else if s.q.hasNext && !s.q.drop then { s.settle with stall := true, ramA := s.q.pnext, state := .txLoad }
      else { s.settle with stall := true, state := .txWait } := by
  have main : s.main i = s.settle.tx s.stb i.mStall := by simp [Wbm.main, clear, ready, state]
  rw [main, Wbm.tx]
  cases i.mStall <;> cases more : s.q.hasNext <;> cases drop : s.q.drop <;> simp [settle, cyc, stb, more, drop]

theorem wait_main (clear : s.clearing = false) (ready : s.rdy = true) (state : s.state = .txWait) :
    s.main i = if s.ackerrCnt = s.opCnt then
        if s.q.hasNext then { s.settle with stall := true, cyc := false, ramA := s.q.pnext, state := .txLoad }
        else { s.settle with stall := true, cyc := false, busy := false, state := .idle }
      else { s.settle with stall := true } := by
  have main : s.main i = s.settle.txWait := by simp [Wbm.main, clear, ready, state]
  rw [main, Wbm.txWait]
  by_cases same : s.ackerrCnt = s.opCnt <;> cases more : s.q.hasNext <;> simp [settle, same, more]

theorem load_step {c : TChannel} {l : List Sent} {rest : List Element} (clear : s.clearing = false)
    (state : s.state = .txLoad) (ready : s.rdy = true) (ramWe : s.ramWe = false) (stb : s.stb = false)
    (plays : Plays s.ram s.ramA rest) (begins : Begins l es rest) (sent : log = l.flatMap Sent.events)
    (number : A = l.length) (counts : if s.cyc then Counts s A R base else A = R)
    (bound : R + i.mAck.toNat ≤ A) :
    Progress es (s.step i) (A + (s.accepts i).toNat) (R + i.mAck.toNat) (log ++ s.shown i c) := by
  have main := load_main (i := i) clear ready state
  have quiet : s.accepts i = false := by simp [accepts, stb]
  have goes : s.falls i = false := by simp [falls, step, main]
  have ram : (s.step i).ram = s.ram := by simp [step, ramNext, ramWe]
  have address : (s.step i).ramA = s.ramA := by simp [step, main, settle]
  have log' : log ++ s.shown i c = l.flatMap Sent.events := by simp [shown, quiet, goes, sent]
  have next : ∃ base, Counts (s.step i) (A + (s.accepts i).toNat) (R + i.mAck.toNat) base := by
    cases cyc : s.cyc with
    | true =>
        rw [if_pos cyc] at counts
        exact ⟨base, counts.step clear cyc (by omega)⟩
    | false =>
        rw [if_neg (by simp [cyc])] at counts
        have none : i.mAck.toNat = 0 := by omega
        rw [quiet, none, Bool.toNat_false, Nat.add_zero, Nat.add_zero, ← counts]
        exact ⟨A, counts_start clear cyc⟩
  obtain ⟨base, counts⟩ := next
  refine .send l rest base ?_ ?_ ?_ ?_ ?_ ?_ ?_ begins log' (by simpa [quiet] using number) counts
  · simp [step, main]
  · simp [step, main, settle, ready]
  · simp [step, main, settle]
  · simp [step, main]
  · simp [step, main]
  · rw [ram, address]
    simp [step, ramWe]
  · rw [ram, address]
    exact plays

theorem send_step {c : TChannel} {l : List Sent} {rest : List Element} (clear : s.clearing = false)
    (state : s.state = .tx) (ready : s.rdy = true) (ramWe : s.ramWe = false) (stb : s.stb = true)
    (cyc : s.cyc = true) (shown : s.q = s.ram s.ramA) (plays : Plays s.ram s.ramA rest) (begins : Begins l es rest)
    (sent : log = l.flatMap Sent.events) (number : A = l.length) (counts : Counts s A R base) (bound : R ≤ A) :
    Progress es (s.step i) (A + (s.accepts i).toNat) (R + i.mAck.toNat) (log ++ s.shown i c) := by
  have main := tx_main (i := i) clear ready state cyc stb
  have next := counts.step clear cyc bound (i := i)
  have ram : (s.step i).ram = s.ram := by simp [step, ramNext, ramWe]
  have read : (s.step i).q = s.ram s.ramA := by simp [step, ramWe]
  have goes : s.falls i = false := by
    have stays : (s.main i).cyc = true := by
      rw [main]
      repeat' split
      all_goals exact cyc
    simp [falls, step, stays]
  cases stall : i.mStall with
  | true =>
      have quiet : s.accepts i = false := by simp [accepts, stall]
      rw [stall, if_pos rfl] at main
      have address : (s.step i).ramA = s.ramA := by simp [step, main, settle]
      refine .send l rest base ?_ ?_ ?_ ?_ ?_ ?_ ?_ begins ?_ (by simpa [quiet] using number) next
      · simp [step, main, settle, state]
      · simp [step, main, settle, ready]
      · simp [step, main, settle]
      · simp [step, main]
      · simp [step, main, settle, cyc]
      · rw [ram, address, read]
      · rw [ram, address]
        exact plays
      · simp [Wbm.shown, quiet, goes, sent]
  | false =>
      obtain ⟨e, more, rfl, stores, behind⟩ := plays.first
      rw [← shown] at stores behind
      have takes : s.accepts i = true := by simp [accepts, cyc, stb, stall]
      have log' : log ++ s.shown i c = l.flatMap Sent.events ++ [.op c (e.op c)] := by
        simp [Wbm.shown, takes, goes, sent, stores.op rfl c]
      have number' : A + (s.accepts i).toNat = l.length + 1 := by simp [takes, number]
      have begins' := begins.snoc c
      rw [stall, if_neg (by decide), behind.hasNext, stores.drop] at main
      cases last : e.drop || more.isEmpty with
      | true =>
          -- the cycle ends here
          rw [if_neg (by cases more <;> simp_all)] at main
          have address : (s.step i).ramA = s.ramA := by simp [step, main, settle]
          refine .wait l ⟨e, true, c⟩ more base ?_ ?_ ?_ ?_ ?_ ?_ ?_ (last ▸ begins') rfl log' number' next
          · simp [step, main]
          · simp [step, main, settle, ready]
          · simp [step, main, settle]
          · simp [step, main, settle]
          · simp [step, main, settle, cyc]
          · rw [ram, address, read]
          · rw [ram, read, ← shown]
            exact behind
      | false =>
          have goesOn : s.q.hasNext = true := by
            rw [behind.hasNext]
            simpa using (Bool.or_eq_false_iff.1 last).2
          rw [if_pos (by cases more <;> simp_all)] at main
          have address : (s.step i).ramA = s.q.pnext := by simp [step, main]
          have cyc' : (s.step i).cyc = true := by simp [step, main, settle, cyc]
          refine .load (l ++ [⟨e, false, c⟩]) more base ?_ ?_ ?_ ?_ ?_ (last ▸ begins') ?_ ?_ ?_
          · simp [step, main]
          · simp [step, main, settle, ready]
          · simp [step, main, settle]
          · simp [step, main, settle]
          · rw [ram, address]
            exact behind.plays goesOn
          · rw [log', List.flatMap_append]
            rfl
          · simpa using number'
          · rw [if_pos cyc']
            exact next

theorem wait_step {c : TChannel} {l : List Sent} {x : Sent} {rest : List Element} (clear : s.clearing = false)
    (state : s.state = .txWait) (ready : s.rdy = true) (ramWe : s.ramWe = false) (stb : s.stb = false)
    (cyc : s.cyc = true) (shown : s.q = s.ram s.ramA) (behind : Behind s.ram s.q rest)
    (begins : Begins (l ++ [x]) es rest) (ends : x.falls = true) (sent : log = l.flatMap Sent.events ++ [x.op])
    (number : A = l.length + 1) (counts : Counts s A R base) (short : es.length ≤ 2 ^ (n + 1))
    (bound : R + i.mAck.toNat ≤ A) :
    Progress es (s.step i) (A + (s.accepts i).toNat) (R + i.mAck.toNat) (log ++ s.shown i c) := by
  have main := wait_main (i := i) clear ready state
  have next := counts.step clear cyc (by omega) (i := i)
  have ram : (s.step i).ram = s.ram := by simp [step, ramNext, ramWe]
  have read : (s.step i).q = s.ram s.ramA := by simp [step, ramWe]
  have quiet : s.accepts i = false := by simp [accepts, stb]
  have whole : (l ++ [x]).flatMap Sent.events = l.flatMap Sent.events ++ [x.op, .fall] := by
    simp [Sent.events, ends]
  have lengths := begins.length
  simp only [List.length_append, List.length_singleton] at lengths
  by_cases same : s.ackerrCnt = s.opCnt
  · rw [if_pos same] at main
    have falls : s.falls i = true := by
      have down : (s.main i).cyc = false := by
        rw [main]
        split <;> rfl
      simp [Wbm.falls, step, cyc, down]
    have log' : log ++ s.shown i c = (l ++ [x]).flatMap Sent.events := by
      simp [Wbm.shown, quiet, falls, sent, whole]
    cases more : s.q.hasNext with
    | true =>
        rw [if_pos more] at main
        have plays := behind.plays more
        obtain ⟨e, later, rfl, -, -⟩ := plays.first
        -- an element is left, so the counters have not gone round
        have all : A = R := by
          rcases (counts.agree (by omega) (by omega)).1 same with all | ⟨full, -⟩
          · exact all
          · simp only [List.length_cons] at lengths
            omega
        have address : (s.step i).ramA = s.q.pnext := by simp [step, main]
        have down : (s.step i).cyc = false := by simp [step, main]
        refine .load (l ++ [x]) (e :: later) base ?_ ?_ ?_ ?_ ?_ begins log' (by simp [quiet, number]) ?_
        · simp [step, main]
        · simp [step, main, settle, ready]
        · simp [step, main, settle]
        · simp [step, main, settle]
        · rw [ram, address]
          exact plays
        · rw [if_neg (by simp [down]), quiet, Bool.toNat_false]
          omega
    | false =>
        rw [if_neg (by simp [more])] at main
        have none : rest = [] := by
          have flag := behind.hasNext
          rw [more] at flag
          simpa using flag.symm
        subst none
        exact .ended (l ++ [x]) (by simp [step, main]) (by simp [step, main]) begins log'
  · rw [if_neg same] at main
    have stays : s.falls i = false := by simp [Wbm.falls, step, main, settle, cyc]
    have address : (s.step i).ramA = s.ramA := by simp [step, main, settle]
    refine .wait l x rest base ?_ ?_ ?_ ?_ ?_ ?_ ?_ begins ends ?_ (by simpa [quiet] using number) next
    · simp [step, main, settle, state]
    · simp [step, main, settle, ready]
    · simp [step, main, settle]
    · simp [step, main, settle]
    · simp [step, main, settle, cyc]
    · rw [ram, address, read]
    · rw [ram, read, ← shown]
      exact behind
    · simp [Wbm.shown, quiet, stays, sent]

theorem progress_step {c : TChannel} (progress : Progress es s A R log) (clear : s.clearing = false)
    (away : s.state ≠ .idle) (short : es.length ≤ 2 ^ (n + 1)) (before : R ≤ A)
    (bound : R + i.mAck.toNat ≤ A + (s.accepts i).toNat) :
    Progress es (s.step i) (A + (s.accepts i).toNat) (R + i.mAck.toNat) (log ++ s.shown i c) := by
  cases progress with
  | load l rest base state ready ramWe stb plays begins sent number counts =>
      have quiet : (s.accepts i).toNat = 0 := by simp [accepts, stb]
      exact load_step clear state ready ramWe stb plays begins sent number counts (by omega)
  | send l rest base state ready ramWe stb cyc shown plays begins sent number counts =>
      exact send_step clear state ready ramWe stb cyc shown plays begins sent number counts before
  | wait l x rest base state ready ramWe stb cyc shown behind begins ends sent number counts =>
      have quiet : (s.accepts i).toNat = 0 := by simp [accepts, stb]
      exact wait_step clear state ready ramWe stb cyc shown behind begins ends sent number counts short (by omega)
  | ended l idle => exact absurd idle away

/-! ### The trigger -/

/-- An action or the bus starts the macro `m`, and `CLEAR_ALL` does not come with it. -/
structure Triggers (s : Wbm n entries) (i : WbmIn n) (m : Fin entries) : Prop where
  idle : s.state = .idle
  enabled : s.enable = true
  index : ∃ idx, macroIdx idx = some m ∧
    (i.action = some idx ∨ i.action = none ∧ ∃ v : BitVec 8, s.pulse = some (.exec v) ∧ v.toNat = idx)
  taken : s.free m = false
  clear : s.clearing = false
  calm : (s.step i).clearing = false

theorem Triggers.main {m : Fin entries} (triggers : Triggers s i m) (ready : s.rdy = true) :
    ∃ idx, s.main i = { s.settle with
      lastExec := BitVec.ofNat 8 idx, ramA := s.ptr m, stall := true, busy := true, state := .txLoad } := by
  obtain ⟨idle, enabled, ⟨idx, found, from_⟩, taken, clear, -⟩ := triggers
  refine ⟨idx, ?_⟩
  have main : s.main i = s.settle.idle i.action := by simp [Wbm.main, clear, ready, idle]
  have enabled' : s.settle.enable = true := enabled
  have taken' : s.settle.free m = false := taken
  rw [main]
  rcases from_ with action | ⟨none, v, pulse, rfl⟩
  · rw [action]
    simp only [Wbm.idle, enabled', if_true, execute, found, taken', Bool.false_eq_true, if_false]
    rfl
  · have pulse' : s.settle.pulse = some (.exec v) := pulse
    rw [none]
    simp only [Wbm.idle, pulse', enabled', if_true, execute, found, taken', Bool.false_eq_true, if_false]
    rfl

/-- The states of an execution. -/
def sends : WbmState → Bool
  | .txLoad | .tx | .txWait => true
  | _ => false

theorem idle_cyc (s : Wbm n entries) (action : Option Nat) : (s.idle action).cyc = s.cyc := by
  unfold Wbm.idle execute
  repeat' split
  all_goals rfl

/-- There is a cycle on the bus only in an execution. -/
theorem cyc_step (i : WbmIn n) (apart : s.cyc = true → sends s.state = true) (cyc : (s.step i).cyc = true) :
    sends (s.step i).state = true := by
  change (s.main i).cyc = true at cyc
  change sends (s.main i).state = true
  unfold Wbm.main at *
  split at cyc
  · cases cyc
  · rw [if_neg ‹_›]
    split at cyc
    · rw [if_pos ‹_›]
      exact apart cyc
    · rw [if_neg ‹_›]
      cases state : s.state with
      | idle =>
          rw [state] at cyc apart
          have cyc' : s.cyc = true := (idle_cyc s.settle i.action).symm.trans cyc
          cases apart cyc'
      | txLoad => rfl
      | tx =>
          simp only [Wbm.tx]
          split
          · split <;> rfl
          · simp [settle, state, sends]
      | txWait =>
          simp only [state, Wbm.txWait] at cyc ⊢
          split at cyc
          · split at cyc <;> cases cyc
          · rw [if_neg ‹_›]
            simp [settle, state, sends]
      | recAddr | recData | recMeta | clr =>
          simp only [state, Wbm.recAddr, Wbm.recData, Wbm.recMeta, Wbm.clr, sends] at *
          repeat' split at cyc
          all_goals exact absurd (apart cyc) (by decide)
      | clrLoad =>
          rw [state] at cyc apart
          exact absurd (apart cyc) (by decide)

/-- An execution holds the control slave, and no command comes in. -/
theorem held_step (clear : s.clearing = false) (ready : s.rdy = true) (sending : sends s.state = true)
    (stall : s.stall = true) : (s.step i).clearing = false ∧ (s.step i).stall = true := by
  have none : (s.step i).pulse = none := by simp [step, slave, stall]
  refine ⟨by simp [clearing, none], ?_⟩
  change (s.main i).stall = true
  simp only [Wbm.main, clear, ready, Bool.false_eq_true, if_false, Bool.not_true]
  cases state : s.state with
  | txLoad => rfl
  | tx =>
      simp only [Wbm.tx]
      repeat' split
      all_goals rfl
  | txWait =>
      simp only [Wbm.txWait]
      repeat' split
      all_goals rfl
  | idle | recAddr | recData | recMeta | clr | clrLoad => simp [state, sends] at sending

end Edge

/-! ### Whole executions -/

section Run

variable (s : Wbm n entries) (inputs : Nat → WbmIn n) (c : Nat → TChannel)

/-- From a trigger at the first edge up to the cycle `u` there was no way back to `st_IDLE`. -/
def Executing (u : Nat) : Prop := ∀ v, 1 ≤ v → v < u → (run step s (upTo inputs v)).state ≠ .idle

/-- The operations accepted before the cycle `u`. -/
def accepted (u : Nat) : Nat := Nat.count (fun v => (run step s (upTo inputs v)).accepts (inputs v) = true) u

/-- The answers, `ack` or `err`, before the cycle `u`. -/
def answered (u : Nat) : Nat := Nat.count (fun v => (inputs v).mAck = true) u

def logged (u : Nat) : List Event :=
  (List.range u).flatMap fun v => (run step s (upTo inputs v)).shown (inputs v) (c v)

/-- No answer without an operation, and none twice. -/
def Answers : Prop := ∀ u, Executing s inputs u → answered inputs u ≤ accepted s inputs u

/-- What an execution of the elements shows, with the channel as it is where they are accepted. -/
def Script (es : List Element) (script : List Event) : Prop :=
  ∃ l : List Sent, l.map (fun x => (x.element, x.falls)) = marked es ∧ script = l.flatMap Sent.events

variable {s inputs c} {es : List Element}

theorem Executing.before {u v : Nat} (executing : Executing s inputs u) (less : v ≤ u) : Executing s inputs v :=
  fun w first last => executing w first (by omega)

theorem accepted_succ (u : Nat) : accepted s inputs (u + 1) =
    accepted s inputs u + ((run step s (upTo inputs u)).accepts (inputs u)).toNat := by
  rw [accepted, Nat.count_succ]
  cases (run step s (upTo inputs u)).accepts (inputs u) <;> rfl

theorem answered_succ (u : Nat) : answered inputs (u + 1) = answered inputs u + (inputs u).mAck.toNat := by
  rw [answered, Nat.count_succ]
  cases (inputs u).mAck <;> rfl

theorem logged_succ (u : Nat) : logged s inputs c (u + 1) =
    logged s inputs c u ++ (run step s (upTo inputs u)).shown (inputs u) (c u) := by
  simp [logged, List.range_succ]

theorem run_succ (u : Nat) : run step s (upTo inputs (u + 1)) = (run step s (upTo inputs u)).step (inputs u) := by
  rw [upTo_snoc, run_append]
  rfl

theorem Progress.sends {A R : Nat} {log : List Event} (progress : Progress es s A R log) (away : s.state ≠ .idle) :
    s.rdy = true ∧ Wbm.sends s.state = true := by
  cases progress with
  | load l rest base state ready => exact ⟨ready, by rw [state]; rfl⟩
  | send l rest base state ready => exact ⟨ready, by rw [state]; rfl⟩
  | wait l x rest base state ready => exact ⟨ready, by rw [state]; rfl⟩
  | ended l idle => exact absurd idle away

/-- A macro that is about to be executed: it is in the RAM, and there is no cycle. -/
structure Ready (s : Wbm n entries) (i : WbmIn n) (es : List Element) : Prop where
  start : ∃ m, Triggers s i m ∧ Plays s.ramNext (s.ptr m) es
  ready : s.rdy = true
  cyc : s.cyc = false
  short : es.length ≤ 2 ^ (n + 1)

theorem Ready.first (ready : Ready s (inputs 0) es) (answers : Answers s inputs) :
    Progress es (run step s (upTo inputs 1)) (accepted s inputs 1) (answered inputs 1) (logged s inputs c 1) ∧
      (run step s (upTo inputs 1)).clearing = false ∧ (run step s (upTo inputs 1)).stall = true := by
  obtain ⟨⟨m, triggers, plays⟩, rdy, cyc, -⟩ := ready
  obtain ⟨idx, main⟩ := triggers.main rdy
  have next : run step s (upTo inputs 1) = s.step (inputs 0) := rfl
  have none : accepted s inputs 1 = 0 := by simp [accepted, Nat.count_succ, upTo, accepts, cyc]
  have silent : logged s inputs c 1 = [] := by simp [logged, upTo, shown, accepts, falls, cyc]
  have early := answers 1 (fun v first last => by omega)
  rw [none] at early
  rw [next, silent, none, Nat.le_zero.1 early]
  refine ⟨.load [] es 0 ?_ ?_ ?_ ?_ ?_ rfl rfl rfl ?_, triggers.calm, ?_⟩
  · simp [step, main]
  · simp [step, main, settle, rdy]
  · simp [step, main, settle]
  · simp [step, main, settle]
  · have ram : (s.step (inputs 0)).ram = s.ramNext := rfl
    have address : (s.step (inputs 0)).ramA = s.ptr m := by simp [step, main]
    rw [ram, address]
    exact plays
  · simp [step, main, settle, cyc]
  · simp [step, main]

theorem Ready.progress (ready : Ready s (inputs 0) es) (answers : Answers s inputs) (u : Nat)
    (executing : Executing s inputs (u + 1)) :
    Progress es (run step s (upTo inputs (u + 1))) (accepted s inputs (u + 1)) (answered inputs (u + 1))
      (logged s inputs c (u + 1)) ∧ ((run step s (upTo inputs (u + 1))).state ≠ .idle →
      (run step s (upTo inputs (u + 1))).clearing = false ∧ (run step s (upTo inputs (u + 1))).stall = true) := by
  induction u with
  | zero =>
      obtain ⟨progress, clear, stall⟩ := ready.first answers (c := c)
      exact ⟨progress, fun _ => ⟨clear, stall⟩⟩
  | succ u ih =>
      obtain ⟨progress, held⟩ := ih (executing.before (by omega))
      have away := executing (u + 1) (by omega) (by omega)
      obtain ⟨clear, stall⟩ := held away
      have before := answers (u + 1) (executing.before (by omega))
      have bound := answers (u + 1 + 1) executing
      rw [accepted_succ, answered_succ] at bound
      obtain ⟨rdy, sending⟩ := progress.sends away
      rw [run_succ, accepted_succ, answered_succ, logged_succ]
      exact ⟨progress_step progress clear away ready.short before bound, fun _ => held_step clear rdy sending stall⟩

/-! ### What follows -/

theorem Begins.script {l : List Sent} {rest : List Element} (begins : Begins l es rest) :
    ∃ more, Script es (l.flatMap Sent.events ++ more) := by
  refine ⟨((marked rest).map fun x => ⟨x.1, x.2, .none⟩).flatMap Sent.events,
    l ++ (marked rest).map fun x => ⟨x.1, x.2, .none⟩, ?_, by rw [List.flatMap_append]⟩
  rw [List.map_append, List.map_map]
  exact (congrArg _ (List.map_id _)).trans begins

theorem Progress.script {A R : Nat} {log : List Event} (progress : Progress es s A R log) :
    ∃ script, Script es script ∧ log <+: script := by
  cases progress with
  | load l rest base _ _ _ _ _ begins sent =>
      obtain ⟨more, script⟩ := begins.script
      exact ⟨_, script, sent ▸ List.prefix_append ..⟩
  | send l rest base _ _ _ _ _ _ _ begins sent =>
      obtain ⟨more, script⟩ := begins.script
      exact ⟨_, script, sent ▸ List.prefix_append ..⟩
  | wait l x rest base _ _ _ _ _ _ _ begins ends sent =>
      obtain ⟨more, script⟩ := begins.script
      refine ⟨_, script, ?_⟩
      have whole : (l ++ [x]).flatMap Sent.events ++ more = (l.flatMap Sent.events ++ [x.op]) ++ (.fall :: more) := by
        simp [Sent.events, ends]
      rw [whole, sent]
      exact List.prefix_append ..
  | ended l _ _ begins sent =>
      obtain ⟨more, script⟩ := begins.script
      exact ⟨_, script, sent ▸ List.prefix_append ..⟩

/-- A cycle ends where the machine waits and the counters agree. -/
theorem Progress.falls {A R : Nat} {log : List Event} {i : WbmIn n} (progress : Progress es s A R log)
    (clear : s.clearing = false) : s.falls i = true ↔ s.state = .txWait ∧ s.ackerrCnt = s.opCnt := by
  cases progress with
  | load l rest base state ready =>
      have main := load_main (i := i) clear ready state
      simp [Wbm.falls, step, main, state]
  | send l rest base state ready _ stb cyc =>
      have main := tx_main (i := i) clear ready state cyc stb
      have stays : (s.main i).cyc = true := by
        rw [main]
        repeat' split
        all_goals exact cyc
      simp [Wbm.falls, step, stays, state]
  | wait l x rest base state ready _ _ cyc =>
      have main := wait_main (i := i) clear ready state
      by_cases same : s.ackerrCnt = s.opCnt
      · rw [if_pos same] at main
        have down : (s.main i).cyc = false := by
          rw [main]
          split <;> rfl
        simp [Wbm.falls, step, down, cyc, state, same]
      · rw [if_neg same] at main
        simp [Wbm.falls, step, main, settle, cyc, same]
  | ended l idle cyc => simp [Wbm.falls, cyc, idle]

/-- Where it waits, the counters agree when all is answered, or too many operations are not. -/
theorem Progress.agree {A R : Nat} {log : List Event} (progress : Progress es s A R log) (state : s.state = .txWait)
    (short : es.length ≤ 2 ^ (n + 1)) (bound : R ≤ A) :
    s.ackerrCnt = s.opCnt ↔ A = R ∨ A = 2 ^ (n + 1) ∧ R = 0 := by
  cases progress with
  | wait l x rest base _ _ _ _ _ _ _ begins _ _ number counts =>
      have lengths := begins.length
      simp only [List.length_append, List.length_singleton] at lengths
      exact counts.agree bound (by omega)
  | load l rest base here => simp [here] at state
  | send l rest base here => simp [here] at state
  | ended l here => simp [here] at state

/-- As many operations as the RAM has records are unanswered only where it waits. -/
theorem Progress.full {A R : Nat} {log : List Event} (progress : Progress es s A R log) (away : s.state ≠ .idle)
    (short : es.length ≤ 2 ^ (n + 1)) (many : R + 2 ^ (n + 1) ≤ A) :
    s.state = .txWait ∧ A = 2 ^ (n + 1) ∧ R = 0 := by
  cases progress with
  | load l rest base _ _ _ _ plays begins _ number =>
      obtain ⟨e, more, rfl, -, -⟩ := plays.first
      have lengths := begins.length
      simp only [List.length_cons] at lengths
      omega
  | send l rest base _ _ _ _ _ _ plays begins _ number =>
      obtain ⟨e, more, rfl, -, -⟩ := plays.first
      have lengths := begins.length
      simp only [List.length_cons] at lengths
      omega
  | wait l x rest base state _ _ _ _ _ _ begins _ _ number =>
      have lengths := begins.length
      simp only [List.length_append, List.length_singleton] at lengths
      exact ⟨state, by omega, by omega⟩
  | ended l idle => exact absurd idle away

/-- What is left to do. -/
def rank : WbmState → Nat
  | .txLoad => 1
  | .txWait => 2
  | _ => 0

def work (es : List Element) (s : Wbm n entries) (A : Nat) : Nat := 3 * (es.length - A) + rank s.state

/-- An edge without progress. -/
structure Stuck (s : Wbm n entries) (i : WbmIn n) : Prop where
  state : (s.step i).state = s.state
  accepts : s.accepts i = false
  tx : s.state = .tx → i.mStall = true
  wait : s.state = .txWait → s.ackerrCnt ≠ s.opCnt
  load : s.state ≠ .txLoad

theorem Progress.moves {A R : Nat} {log : List Event} {i : WbmIn n} (progress : Progress es s A R log)
    (clear : s.clearing = false) (away : s.state ≠ .idle) : (s.step i).state = .idle ∨
      work es (s.step i) (A + (s.accepts i).toNat) < work es s A ∨ Stuck s i := by
  have next : (s.step i).state = (s.main i).state := rfl
  cases progress with
  | load l rest base state ready _ stb =>
      have main := load_main (i := i) clear ready state
      have quiet : s.accepts i = false := by simp [Wbm.accepts, stb]
      right; left
      simp [work, next, main, state, rank, quiet]
  | send l rest base state ready _ stb cyc _ plays begins _ number =>
      have main := tx_main (i := i) clear ready state cyc stb
      right
      cases stall : i.mStall with
      | true =>
          rw [stall, if_pos rfl] at main
          right
          exact ⟨by simp [next, main, settle], by simp [Wbm.accepts, stall], fun _ => stall, by simp [state],
            by simp [state]⟩
      | false =>
          have takes : s.accepts i = true := by simp [Wbm.accepts, cyc, stb, stall]
          obtain ⟨e, more, rfl, -, -⟩ := plays.first
          have lengths := begins.length
          simp only [List.length_cons] at lengths
          have low : rank (s.main i).state ≤ 2 := by cases (s.main i).state <;> decide
          left
          rw [work, work, next, takes, state, Bool.toNat_true, show rank .tx = 0 from rfl]
          omega
  | wait l x rest base state ready _ stb cyc =>
      have main := wait_main (i := i) clear ready state
      have quiet : s.accepts i = false := by simp [Wbm.accepts, stb]
      by_cases same : s.ackerrCnt = s.opCnt
      · rw [if_pos same] at main
        cases more : s.q.hasNext with
        | true =>
            rw [if_pos more] at main
            right; left
            simp [work, next, main, state, rank, quiet]
        | false =>
            rw [if_neg (by simp [more])] at main
            left
            rw [next, main]
      · rw [if_neg same] at main
        right; right
        exact ⟨by simp [next, main, settle], quiet, by simp [state], fun _ => same, by simp [state]⟩
  | ended l idle => exact absurd idle away

/-- A slave that takes every operation some time and answers it brings the execution on. -/
theorem Ready.drops (ready : Ready s (inputs 0) es) (answers : Answers s inputs)
    (fair : ∀ u, ∃ v ≥ u, (inputs v).mStall = false)
    (all : ∀ u, Executing s inputs u → ∃ v, accepted s inputs u ≤ answered inputs v) (u : Nat)
    (executing : Executing s inputs (u + 2)) :
    ∃ v > u, Executing s inputs (v + 1) ∧ ((run step s (upTo inputs (v + 1))).state = .idle ∨
      work es (run step s (upTo inputs (v + 1))) (accepted s inputs (v + 1)) <
        work es (run step s (upTo inputs (u + 1))) (accepted s inputs (u + 1))) := by
  by_contra never
  -- as long as nothing gets on, the machine stands still
  have still (k : Nat) : Executing s inputs (u + k + 2) ∧
      (run step s (upTo inputs (u + k + 1))).state = (run step s (upTo inputs (u + 1))).state ∧
      accepted s inputs (u + k + 1) = accepted s inputs (u + 1) ∧
      Stuck (run step s (upTo inputs (u + k + 1))) (inputs (u + k + 1)) := by
    have stuck (v : Nat) (late : u ≤ v) (executing : Executing s inputs (v + 2))
        (state : (run step s (upTo inputs (v + 1))).state = (run step s (upTo inputs (u + 1))).state)
        (same : accepted s inputs (v + 1) = accepted s inputs (u + 1)) :
        Stuck (run step s (upTo inputs (v + 1))) (inputs (v + 1)) := by
      have away := executing (v + 1) (by omega) (by omega)
      obtain ⟨progress, held⟩ := ready.progress answers v (executing.before (by omega)) (c := fun _ => .none)
      rcases progress.moves (held away).1 away (i := inputs (v + 1)) with idle | less | stuck
      · exact absurd ⟨v + 1, by omega, executing, .inl (by rwa [run_succ])⟩ never
      · rw [← accepted_succ, ← run_succ] at less
        refine absurd ⟨v + 1, by omega, executing, .inr (less.trans_eq ?_)⟩ never
        rw [work, work, state, same]
      · exact stuck
    induction k with
    | zero => exact ⟨executing, rfl, rfl, stuck u le_rfl executing rfl rfl⟩
    | succ k ih =>
        obtain ⟨before, state, same, here⟩ := ih
        have state' : (run step s (upTo inputs (u + (k + 1) + 1))).state =
            (run step s (upTo inputs (u + 1))).state := by
          rw [← state, show u + (k + 1) + 1 = u + k + 1 + 1 by omega, run_succ]
          exact here.state
        have same' : accepted s inputs (u + (k + 1) + 1) = accepted s inputs (u + 1) := by
          rw [← same, show u + (k + 1) + 1 = u + k + 1 + 1 by omega, accepted_succ, here.accepts]
          rfl
        have later : Executing s inputs (u + (k + 1) + 2) := by
          intro v first last
          rcases Nat.lt_or_ge v (u + k + 2) with old | new
          · exact before v first old
          · rw [show v = u + (k + 1) + 1 by omega, state']
            exact executing (u + 1) (by omega) (by omega)
        exact ⟨later, state', same', stuck (u + (k + 1)) (by omega) later state' same'⟩
  obtain ⟨-, -, -, here⟩ := still 0
  have away := executing (u + 1) (by omega) (by omega)
  obtain ⟨progress, held⟩ := ready.progress answers u (executing.before (by omega)) (c := fun _ => .none)
  have sending := (progress.sends away).2
  cases state : (run step s (upTo inputs (u + 1))).state with
  | tx =>
      obtain ⟨v, late, free⟩ := fair (u + 1)
      obtain ⟨k, rfl⟩ := Nat.exists_eq_add_of_le late
      obtain ⟨-, same, -, stuck⟩ := still k
      have stall := stuck.tx (same.trans state)
      rw [show u + k + 1 = u + 1 + k by omega, free] at stall
      cases stall
  | txWait =>
      obtain ⟨v, enough⟩ := all (u + 1) (executing.before (by omega))
      obtain ⟨later, same, none, stuck⟩ := still v
      have wait := same.trans state
      have more : answered inputs v ≤ answered inputs (u + v + 1) := Nat.count_monotone _ (by omega)
      have bound := answers (u + v + 1) (later.before (by omega))
      obtain ⟨progress, -⟩ := ready.progress answers (u + v) (later.before (by omega)) (c := fun _ => .none)
      exact stuck.wait wait ((progress.agree wait ready.short bound).2 (.inl (by omega)))
  | txLoad => exact here.load state
  | idle => exact away state
  | recAddr | recData | recMeta | clrLoad | clr =>
      rw [state] at sending
      cases sending

theorem Ready.ends (ready : Ready s (inputs 0) es) (answers : Answers s inputs)
    (fair : ∀ u, ∃ v ≥ u, (inputs v).mStall = false)
    (all : ∀ u, Executing s inputs u → ∃ v, accepted s inputs u ≤ answered inputs v) :
    ∃ u ≥ 1, Executing s inputs u ∧ (run step s (upTo inputs u)).state = .idle := by
  have descends (k u : Nat) (executing : Executing s inputs (u + 1))
      (low : work es (run step s (upTo inputs (u + 1))) (accepted s inputs (u + 1)) = k) :
      ∃ v ≥ 1, Executing s inputs v ∧ (run step s (upTo inputs v)).state = .idle := by
    induction k using Nat.strong_induction_on generalizing u with
    | _ k ih =>
        by_cases idle : (run step s (upTo inputs (u + 1))).state = .idle
        · exact ⟨u + 1, by omega, executing, idle⟩
        · have later : Executing s inputs (u + 2) := by
            intro v first last
            rcases Nat.lt_or_ge v (u + 1) with old | new
            · exact executing v first old
            · rwa [show v = u + 1 by omega]
          obtain ⟨v, -, executing, idle | less⟩ := ready.drops answers fair all u later
          · exact ⟨v + 1, by omega, executing, idle⟩
          · exact ih _ (low ▸ less) v executing rfl
  exact descends _ 0 (fun v first last => by omega) rfl

end Run

end WrCores.Eca.Wbm
