import Mathlib.Data.BitVec
import WrCores.Clocked.Run
import WrCores.Eca.Adder
import WrCores.Eca.Free
import WrCores.Eca.MsiRuns

/-!
eca_walker.vhd: a request walks a list of the table, one node in a cycle, and each node becomes an action three cycles
later. The table does not change while it is walked; its ports on the other clock and the copy for reading it back
are left out.
-/

namespace WrCores.Eca.Walker

open Clocked

-- `g_log_table_size` and `g_num_channels`.
variable {k m : Nat}

/-- One entry of the table. -/
structure Node (k m : Nat) where
  valid : Bool
  delayed : Bool
  conflict : Bool
  late : Bool
  early : Bool
  num : BitVec 8
  next : BitVec k
  time : BitVec 64
  tag : BitVec 32
  channel : BitVec (fEcaLog2 m)
  deriving DecidableEq, Repr

abbrev Table (k m : Nat) := Bool → BitVec k → Node k m

structure Event where
  event : BitVec 64
  param : BitVec 64
  tef : BitVec 32
  time : BitVec 64
  deriving DecidableEq, Repr

structure In (k : Nat) where
  bStb : Bool
  bPage : Bool
  bFirst : BitVec k
  b1 : Event
  deriving DecidableEq, Repr

/-- What the registers of the pipeline carry along. -/
structure Info where
  delayed : Bool
  conflict : Bool
  late : Bool
  early : Bool
  num : BitVec 8
  event : BitVec 64
  param : BitVec 64
  tag : BitVec 32
  tef : BitVec 32
  deriving DecidableEq, Repr

structure Stage (m : Nat) extends Info where
  channel : BitVec (fEcaLog2 m)
  valid : Bool

/-- `t_channel` without its flag; `executed` is always zero. -/
structure Action extends Info where
  deadline : BitVec 64
  deriving DecidableEq, Repr

structure State (k m : Nat) where
  -- the data register of the memory
  mr : Node k m
  wValid : Bool
  wLatch : Bool
  wPage : Bool
  wEvent : Event
  r3 : Stage m
  r3EventTime : BitVec 64
  r3OffsetTime : BitVec 64
  r2 : Stage m
  r1 : Info
  r1Validv : Nat → Bool
  adder : Adder

/-- The reset lasts until the stages behind `r_w_valid` are empty. -/
structure AfterReset (s : State k m) : Prop where
  wValid : s.wValid = false
  r3 : s.r3.valid = false
  r2 : s.r2.valid = false
  r1 : ∀ i, s.r1Validv i = false

namespace State

def active (s : State k m) : Bool := s.wValid && s.mr.valid

def bStall (s : State k m) : Bool := s.active

/-- The event of the node in `mr`, past the register that latches it late. -/
def current (s : State k m) (i : In k) : Event := if s.wLatch then i.b1 else s.wEvent

def step (table : Table k m) (s : State k m) (i : In k) : State k m where
  mr := table (if s.active then s.wPage else i.bPage) (if s.active then s.mr.next else i.bFirst)
  wValid := s.active || i.bStb
  wLatch := i.bStb && !s.active
  wPage := if s.active then s.wPage else i.bPage
  wEvent := if s.wLatch then i.b1 else s.wEvent
  r3 :=
    { delayed := s.mr.delayed
      conflict := s.mr.conflict
      late := s.mr.late
      early := s.mr.early
      num := s.mr.num
      event := (s.current i).event
      param := (s.current i).param
      tag := s.mr.tag
      tef := (s.current i).tef
      channel := s.mr.channel
      valid := s.wValid }
  r3EventTime := (s.current i).time
  r3OffsetTime := s.mr.time
  r2 := s.r3
  r1 := s.r2.toInfo
  r1Validv n := s.r2.valid && fEcaEq s.r2.channel (BitVec.ofNat _ n)
  adder := s.adder.main s.r3EventTime s.r3OffsetTime false

/-- The channels with an action in this cycle. -/
def qChannel (s : State k m) : List (Nat × Action) :=
  ((List.range m).filter s.r1Validv).map fun n => (n, { s.r1 with deadline := s.adder.x2 })

end State

/-- The action of a node for an event. -/
def Node.action (node : Node k m) (e : Event) : Action where
  delayed := node.delayed
  conflict := node.conflict
  late := node.late
  early := node.early
  num := node.num
  event := e.event
  param := e.param
  tag := node.tag
  tef := e.tef
  deadline := e.time + node.time

/-- The nodes from an address on, to the first that is not followed by another. -/
def Chain (table : Table k m) (page : Bool) : BitVec k → List (Node k m) → Prop
  | _, [] => False
  | addr, node :: rest =>
      node = table page addr ∧ if node.valid then Chain table page node.next rest else rest = []

structure Request (k : Nat) where
  page : Bool
  first : BitVec k
  event : Event

/-- The accepted requests, each with the event of the cycle after; `taken` is the one of the last cycle. -/
def requests (table : Table k m) : State k m → Option (Bool × BitVec k) → List (In k) → List (Request k)
  | _, _, [] => []
  | s, taken, i :: rest =>
      (taken.map fun r => (⟨r.1, r.2, i.b1⟩ : Request k)).toList ++
        requests table (s.step table i) (if i.bStb && !s.bStall then some (i.bPage, i.bFirst) else none) rest

/-- One action for each node, on its channel. -/
def due (chains : Bool → BitVec k → List (Node k m)) (r : Request k) : List (Nat × Action) :=
  (chains r.page r.first).map fun node => (node.channel.toNat, node.action r.event)

def shown (table : Table k m) (s : State k m) (inputs : List (In k)) : List (Nat × Action) :=
  collect (State.step table) (fun s _ => s.qChannel) s inputs

/-- The channels of the source exist, and their numbers have at least one bit. -/
def onPort (m : Nat) (x : Nat × Action) : Bool := decide (1 < m) && decide (x.1 < m)

/-! ### The pipeline -/

/-- What a stage will show on the channels. -/
def ports (valid : Bool) (channel : BitVec (fEcaLog2 m)) (a : Action) : List (Nat × Action) :=
  ((List.range m).filter fun n => valid && fEcaEq channel (BitVec.ofNat _ n)).map fun n => (n, a)

theorem log2_one {m : Nat} (small : m ≤ 1) : fEcaLog2 m = 0 := by
  interval_cases m <;> rfl

theorem channel_iff {m n : Nat} (many : 1 < m) (inside : n < m) (channel : BitVec (fEcaLog2 m)) :
    fEcaEq channel (BitVec.ofNat _ n) = true ↔ n = channel.toNat := by
  have wide : m ≤ 2 ^ fEcaLog2 m := Msi.go_bound m m le_rfl
  have bits : 0 < fEcaLog2 m := by
    by_contra none
    rw [Nat.eq_zero_of_not_pos none] at wide
    omega
  rw [fEcaEq_eq, Bool.and_eq_true, decide_eq_true_eq, decide_eq_true_eq]
  constructor
  · rintro ⟨-, rfl⟩
    rw [BitVec.toNat_ofNat, Nat.mod_eq_of_lt (by omega)]
  · rintro rfl
    exact ⟨bits, by rw [BitVec.ofNat_toNat, BitVec.setWidth_eq]⟩

theorem range_filter (m n : Nat) : (List.range m).filter (· == n) = if n < m then [n] else [] := by
  rw [List.filter_beq]
  split
  next inside => rw [List.count_eq_one_of_mem List.nodup_range (List.mem_range.mpr inside), List.replicate_one]
  next outside =>
    rw [List.count_eq_zero_of_not_mem fun member => outside (List.mem_range.mp member), List.replicate_zero]

theorem ports_eq (valid : Bool) (channel : BitVec (fEcaLog2 m)) (a : Action) :
    ports valid channel a = (if valid then [(channel.toNat, a)] else []).filter (onPort m) := by
  cases valid with
  | false => simp [ports]
  | true =>
      by_cases many : 1 < m
      · have chosen : (List.range m).filter (fun n => true && fEcaEq channel (BitVec.ofNat _ n)) =
            (List.range m).filter (· == channel.toNat) := by
          apply List.filter_congr
          intro n member
          rw [Bool.true_and, Bool.eq_iff_iff, channel_iff many (List.mem_range.mp member), beq_iff_eq]
        rw [ports, chosen, range_filter]
        by_cases inside : channel.toNat < m <;> simp [onPort, many, inside]
      · -- Numbers of no bits are never equal.
        have none : fEcaLog2 m = 0 := log2_one (by omega)
        have never (n : Nat) : fEcaEq channel (BitVec.ofNat _ n) = false := by
          rw [fEcaEq_eq, decide_eq_false (by omega), Bool.false_and]
        simp [ports, never, onPort, many]

/-- The actions in the pipeline, the oldest first. -/
def held (s : State k m) : List (Nat × Action) :=
  s.qChannel ++ ports s.r2.valid s.r2.channel { s.r2.toInfo with deadline := (s.adder.main 0 0 false).x2 } ++
    ports s.r3.valid s.r3.channel { s.r3.toInfo with deadline := s.r3EventTime + s.r3OffsetTime }

/-- The action of the node in `mr`. -/
def dueNow (s : State k m) (i : In k) : List (Nat × Action) :=
  if s.wValid then [(s.mr.channel.toNat, s.mr.action (s.current i))] else []

theorem adder_sum (s : Adder) (a b : BitVec 64) : ((s.main a b false).main 0 0 false).x2 = a + b := by
  apply BitVec.eq_of_toNat_eq
  rw [Adder.main_x2, BitVec.toNat_add, Bool.toNat_false, Nat.add_zero]

/-- The second stage is the next to be shown, and the third the one after. -/
theorem qChannel_step (table : Table k m) (s : State k m) (i : In k) :
    (s.step table i).qChannel =
      ports s.r2.valid s.r2.channel { s.r2.toInfo with deadline := (s.adder.main 0 0 false).x2 } := rfl

theorem ports_step (table : Table k m) (s : State k m) (i : In k) :
    ports (s.step table i).r2.valid (s.step table i).r2.channel
        { (s.step table i).r2.toInfo with deadline := ((s.step table i).adder.main 0 0 false).x2 } =
      ports s.r3.valid s.r3.channel { s.r3.toInfo with deadline := s.r3EventTime + s.r3OffsetTime } := by
  rw [← adder_sum s.adder]
  rfl

theorem held_step (table : Table k m) (s : State k m) (i : In k) :
    held s ++ (dueNow s i).filter (onPort m) = s.qChannel ++ held (s.step table i) := by
  have third : ports (s.step table i).r3.valid (s.step table i).r3.channel
      { (s.step table i).r3.toInfo with
        deadline := (s.step table i).r3EventTime + (s.step table i).r3OffsetTime } = (dueNow s i).filter (onPort m) :=
    ports_eq s.wValid s.mr.channel (s.mr.action (s.current i))
  rw [held, held, qChannel_step, ports_step, third]
  simp only [List.append_assoc]

theorem collect_filter {S I E : Type*} (step : S → I → S) (seen : S → I → List E) (p : E → Bool) (s : S)
    (inputs : List I) :
    (collect step seen s inputs).filter p = collect step (fun s i => (seen s i).filter p) s inputs := by
  induction inputs generalizing s with
  | nil => rfl
  | cons i rest ih => rw [collect_cons, collect_cons, List.filter_append, ih]

theorem shown_held (table : Table k m) (s : State k m) (inputs : List (In k)) :
    held s ++ (collect (State.step table) dueNow s inputs).filter (onPort m) =
      shown table s inputs ++ held (run (State.step table) s inputs) := by
  rw [collect_filter]
  have free : Along (State.step table) (fun _ _ => True) s inputs := along_of_forall (fun _ _ => trivial) s inputs
  exact free.conserves (fun _ => True) held _ _ (fun _ _ _ _ => trivial) (fun s i _ _ => held_step table s i) trivial

/-- Three edges later the pipeline has been shown. -/
theorem shown_flush (table : Table k m) (s : State k m) (i j l : In k) (rest : List (In k)) :
    held s <+: shown table s (i :: j :: l :: rest) := by
  rw [held, ← qChannel_step table s i, ← ports_step table s i, ← qChannel_step table (s.step table i) j, shown,
    collect_cons, collect_cons, collect_cons, List.append_assoc]
  refine List.prefix_append_right_inj _ |>.mpr (List.prefix_append_right_inj _ |>.mpr ?_)
  exact List.prefix_append _ _

/-! ### The walk -/

/-- Where the walk is: nothing to do, a request taken in the last cycle, or a list with these nodes left. -/
inductive Walking (table : Table k m) (s : State k m) : Option (Bool × BitVec k) → List (Node k m) → Prop
  | idle : s.wValid = false → Walking table s none []
  | fresh {page : Bool} {first : BitVec k} : s.wValid = true → s.wLatch = true → s.wPage = page →
      s.mr = table page first → Walking table s (some (page, first)) []
  | going (addr : BitVec k) {nodes : List (Node k m)} : s.wValid = true → s.wLatch = false →
      s.mr = table s.wPage addr → Chain table s.wPage addr nodes → Walking table s none nodes

/-- The next request, if there is one, when the list has come to its end. -/
theorem walking_next (table : Table k m) {s : State k m} (i : In k) (done : s.active = false) :
    Walking table (s.step table i) (if i.bStb && !s.bStall then some (i.bPage, i.bFirst) else none) [] := by
  have free : s.bStall = false := done
  cases stb : i.bStb with
  | false =>
      rw [Bool.false_and, if_neg Bool.false_ne_true]
      exact .idle (by simp [State.step, done, stb])
  | true =>
      rw [free, Bool.not_false, Bool.and_self, if_pos rfl]
      refine .fresh ?_ ?_ ?_ ?_ <;> simp [State.step, done, stb]

/-- One node of a list that has `nodes` to go. -/
theorem walking_node {table : Table k m} {s : State k m} {addr : BitVec k} {nodes : List (Node k m)} (i : In k)
    (valid : s.wValid = true) (here : s.mr = table s.wPage addr) (chain : Chain table s.wPage addr nodes) :
    ∃ rest, nodes = s.mr :: rest ∧
      Walking table (s.step table i) (if i.bStb && !s.bStall then some (i.bPage, i.bFirst) else none) rest := by
  cases nodes with
  | nil => exact absurd chain id
  | cons node rest =>
      obtain ⟨same, tail⟩ := chain
      rw [← here] at same
      subst same
      refine ⟨rest, rfl, ?_⟩
      cases more : s.mr.valid with
      | false =>
          rw [more, if_neg Bool.false_ne_true] at tail
          subst tail
          exact walking_next table i (by simp [State.active, more])
      | true =>
          rw [more, if_pos rfl] at tail
          have busy : s.active = true := by simp [State.active, valid, more]
          have stall : s.bStall = true := busy
          rw [stall, Bool.not_true, Bool.and_false, if_neg Bool.false_ne_true]
          refine .going s.mr.next ?_ ?_ ?_ ?_
          · simp [State.step, busy]
          · simp [State.step, busy]
          · simp [State.step, busy]
          · simpa [State.step, busy] using tail

/-- The actions of the nodes that are left, with the event that has been latched. -/
def pend (s : State k m) (nodes : List (Node k m)) : List (Nat × Action) :=
  nodes.map fun node => (node.channel.toNat, node.action s.wEvent)

section Runs

variable {table : Table k m} {chains : Bool → BitVec k → List (Node k m)}

theorem walking_step {s : State k m} {taken : Option (Bool × BitVec k)} {nodes : List (Node k m)} (i : In k)
    (walking : Walking table s taken nodes)
    (finite : ∀ page first, taken = some (page, first) → Chain table page first (chains page first)) :
    ∃ nodes', Walking table (s.step table i) (if i.bStb && !s.bStall then some (i.bPage, i.bFirst) else none) nodes' ∧
      pend s nodes ++ (taken.map fun r => (⟨r.1, r.2, i.b1⟩ : Request k)).toList.flatMap (due chains) =
        dueNow s i ++ pend (s.step table i) nodes' ∧
      (nodes'.length ≤ nodes.length ∨ ∃ page first, taken = some (page, first) ∧
        nodes'.length ≤ (chains page first).length) := by
  cases walking with
  | idle none =>
      refine ⟨[], walking_next table i (by simp [State.active, none]), ?_, .inl le_rfl⟩
      simp [dueNow, none, pend]
  | @fresh page first valid latch page' here =>
      subst page'
      obtain ⟨rest, nodes, next⟩ := walking_node i valid here (finite _ _ rfl)
      refine ⟨rest, next, ?_, .inr ⟨_, _, rfl, ?_⟩⟩
      · simp [dueNow, pend, due, nodes, valid, latch, State.current, State.step]
      · rw [nodes, List.length_cons]
        omega
  | going _ valid latch here chain =>
      obtain ⟨rest, rfl, next⟩ := walking_node i valid here chain
      refine ⟨rest, next, ?_, .inl (by simp)⟩
      simp [dueNow, pend, valid, latch, State.current, State.step]

theorem walking_run {s : State k m} {taken : Option (Bool × BitVec k)} {nodes : List (Node k m)} (bound : Nat)
    (inputs : List (In k)) (walking : Walking table s taken nodes) (short : nodes.length ≤ bound)
    (finite : ∀ r ∈ requests table s taken inputs,
      Chain table r.page r.first (chains r.page r.first) ∧ (chains r.page r.first).length ≤ bound) :
    ∃ taken' nodes', Walking table (run (State.step table) s inputs) taken' nodes' ∧ nodes'.length ≤ bound ∧
      pend s nodes ++ (requests table s taken inputs).flatMap (due chains) =
        collect (State.step table) dueNow s inputs ++ pend (run (State.step table) s inputs) nodes' := by
  induction inputs generalizing s taken nodes with
  | nil => exact ⟨taken, nodes, walking, short, by simp [requests]⟩
  | cons i rest ih =>
      have known (page : Bool) (first : BitVec k) (is : taken = some (page, first)) :
          Chain table page first (chains page first) ∧ (chains page first).length ≤ bound :=
        finite ⟨page, first, i.b1⟩ (by simp [requests, is])
      obtain ⟨nodes₁, next, sum, length⟩ := walking_step i walking fun page first is => (known page first is).1
      have short₁ : nodes₁.length ≤ bound := by
        rcases length with less | ⟨page, first, is, less⟩
        · exact less.trans short
        · exact less.trans (known page first is).2
      obtain ⟨taken', nodes', after, short', total⟩ := ih next short₁ fun r member =>
        finite r (by rw [requests]; exact List.mem_append_right _ member)
      refine ⟨taken', nodes', after, short', ?_⟩
      rw [requests, List.flatMap_append, ← List.append_assoc, sum, List.append_assoc, total, collect_cons, run_cons,
        List.append_assoc]

/-- A list that is under way goes to its end, one node in a cycle. -/
theorem walking_emits {s : State k m} {taken : Option (Bool × BitVec k)} {nodes : List (Node k m)}
    {inputs : List (In k)}
    (walking : Walking table s taken nodes) (length : inputs.length = nodes.length) :
    collect (State.step table) dueNow s inputs = pend s nodes := by
  induction inputs generalizing s taken nodes with
  | nil =>
      rw [List.eq_nil_of_length_eq_zero length.symm]
      rfl
  | cons i rest ih =>
      cases walking with
      | idle => exact absurd length (by simp)
      | fresh => exact absurd length (by simp)
      | going _ valid latch here chain =>
          obtain ⟨left, rfl, next⟩ := walking_node i valid here chain
          rw [collect_cons, ih next (by simpa using length)]
          simp [dueNow, pend, valid, latch, State.current, State.step]

theorem length_le_sum {rs : List (Request k)} {r : Request k} (member : r ∈ rs) :
    (chains r.page r.first).length ≤ (rs.map fun r => (chains r.page r.first).length).sum :=
  List.single_le_sum (fun _ _ => Nat.zero_le _) _ (List.mem_map.mpr ⟨r, member, rfl⟩)

theorem held_reset {s : State k m} (fresh : AfterReset s) : held s = [] := by
  have none : s.qChannel = [] := by simp [State.qChannel, fresh.r1]
  rw [held, none, fresh.r2, fresh.r3]
  simp [ports]

/-- Only channels that exist show an action. -/
theorem shown_onPort {s : State k m} (fresh : AfterReset s) (inputs : List (In k)) :
    ∀ x ∈ shown table s inputs, onPort m x = true := by
  intro x member
  have balance := shown_held table s inputs
  rw [held_reset fresh, List.nil_append] at balance
  have inside : x ∈ (collect (State.step table) dueNow s inputs).filter (onPort m) := by
    rw [balance]
    exact List.mem_append_left _ member
  exact (List.mem_filter.mp inside).2

/-- What is shown is due, and what is due is shown, save for nodes whose channel has no port. -/
theorem shown_due {s : State k m} (fresh : AfterReset s) (inputs : List (In k))
    (finite : ∀ r ∈ requests table s none inputs, Chain table r.page r.first (chains r.page r.first)) :
    let dues := ((requests table s none inputs).flatMap (due chains)).filter (onPort m)
    shown table s inputs <+: dues ∧
      ∀ rest, (∀ r ∈ requests table s none inputs, (chains r.page r.first).length + 3 ≤ rest.length) →
        dues <+: shown table s (inputs ++ rest) := by
  intro dues
  constructor
  · obtain ⟨taken, nodes, -, -, sum⟩ := walking_run ((requests table s none inputs).map fun r =>
      (chains r.page r.first).length).sum inputs (.idle fresh.wValid) (Nat.zero_le _) fun r member =>
        ⟨finite r member, length_le_sum member⟩
    have balance := shown_held table s inputs
    rw [held_reset fresh, List.nil_append] at balance
    have total : dues = shown table s inputs ++ (held (run (State.step table) s inputs) ++
        (pend (run (State.step table) s inputs) nodes).filter (onPort m)) := by
      rw [← List.append_assoc, ← balance, ← List.filter_append, ← sum]
      rfl
    rw [total]
    exact List.prefix_append _ _
  · intro rest long
    cases accepted : requests table s none inputs with
    | nil =>
        have none : dues = [] := by simp [dues, accepted]
        rw [none]
        exact List.nil_prefix
    | cons r others =>
        have room : 3 ≤ rest.length := by
          have enough := long r (by simp [accepted])
          omega
        obtain ⟨taken, nodes, walking, short, sum⟩ := walking_run (rest.length - 3) inputs
          (.idle fresh.wValid) (Nat.zero_le _) fun r member =>
            ⟨finite r member, by have enough := long r member; omega⟩
        -- The nodes that are left take their cycles, then the pipeline takes three.
        obtain ⟨first, second, rfl, length⟩ : ∃ first second, rest = first ++ second ∧ first.length = nodes.length :=
          ⟨rest.take nodes.length, rest.drop nodes.length, (List.take_append_drop _ _).symm, by
            rw [List.length_take]
            omega⟩
        have emitted := walking_emits walking length
        have balance := shown_held table s (inputs ++ first)
        rw [held_reset fresh, List.nil_append, collect_append, emitted, ← sum] at balance
        have more : 3 ≤ second.length := by
          rw [List.length_append] at short room
          omega
        match second, more with
        | i :: j :: l :: left, _ =>
            have flush := shown_flush table (run (State.step table) s (inputs ++ first)) i j l left
            have dues_eq : dues = shown table s (inputs ++ first) ++
                held (run (State.step table) s (inputs ++ first)) := by
              rw [← balance]
              rfl
            have whole : shown table s (inputs ++ first ++ i :: j :: l :: left) = shown table s (inputs ++ first) ++
                shown table (run (State.step table) s (inputs ++ first)) (i :: j :: l :: left) :=
              collect_append _ _ _ _ _
            rw [dues_eq, ← List.append_assoc, whole]
            exact (List.prefix_append_right_inj _).mpr flush

/-- Every request gives one action for each node of its list, in their order, and nothing else does; and its actions
have been shown three cycles after the list is through. This is so if and only if there are at least two channels
and the nodes name channels that exist. -/
theorem walks_lists (table : Table k m) (chains : Bool → BitVec k → List (Node k m)) (s : State k m)
    (fresh : AfterReset s) (inputs : List (In k))
    (finite : ∀ r ∈ requests table s none inputs, Chain table r.page r.first (chains r.page r.first)) :
    (shown table s inputs <+: (requests table s none inputs).flatMap (due chains) ∧
      ∀ rest, (∀ r ∈ requests table s none inputs, (chains r.page r.first).length + 3 ≤ rest.length) →
        (requests table s none inputs).flatMap (due chains) <+: shown table s (inputs ++ rest)) ↔
      ∀ r ∈ requests table s none inputs, ∀ node ∈ chains r.page r.first, 1 < m ∧ node.channel.toNat < m := by
  have ports : (∀ x ∈ (requests table s none inputs).flatMap (due chains), onPort m x = true) ↔
      ∀ r ∈ requests table s none inputs, ∀ node ∈ chains r.page r.first, 1 < m ∧ node.channel.toNat < m := by
    constructor
    · intro all r accepted node member
      have port := all (node.channel.toNat, node.action r.event)
        (List.mem_flatMap.mpr ⟨r, accepted, List.mem_map.mpr ⟨node, member, rfl⟩⟩)
      simpa [onPort] using port
    · intro all x member
      obtain ⟨r, accepted, inside⟩ := List.mem_flatMap.mp member
      obtain ⟨node, listed, rfl⟩ := List.mem_map.mp inside
      simpa [onPort] using all r accepted node listed
  rw [← ports]
  constructor
  · rintro ⟨-, later⟩ x member
    obtain ⟨rest, long⟩ : ∃ rest : List (In k), ∀ r ∈ requests table s none inputs,
        (chains r.page r.first).length + 3 ≤ rest.length := by
      refine ⟨List.replicate (((requests table s none inputs).map fun r => (chains r.page r.first).length).sum + 3)
        ⟨false, false, 0, ⟨0, 0, 0, 0⟩⟩, fun r member => ?_⟩
      rw [List.length_replicate]
      exact Nat.add_le_add_right (length_le_sum member) 3
    exact shown_onPort fresh (inputs ++ rest) x ((later rest long).subset member)
  · intro exist
    have shownDue := shown_due fresh inputs finite
    rw [List.filter_eq_self.mpr exist] at shownDue
    exact shownDue

end Runs

/-- The registers after the reset. -/
def blank (table : Table k m) : State k m where
  mr := table false 0
  wValid := false
  wLatch := false
  wPage := false
  wEvent := ⟨0, 0, 0, 0⟩
  r3 := ⟨⟨false, false, false, false, 0, 0, 0, 0, 0⟩, 0, false⟩
  r3EventTime := 0
  r3OffsetTime := 0
  r2 := ⟨⟨false, false, false, false, 0, 0, 0, 0, 0⟩, 0, false⟩
  r1 := ⟨false, false, false, false, 0, 0, 0, 0, 0⟩
  r1Validv _ := false
  adder := ⟨fun _ => 0, 0, 0, false, fun _ => 0, 0, false⟩

theorem blank_reset (table : Table k m) : AfterReset (blank table) := ⟨rfl, rfl, rfl, fun _ => rfl⟩

/-- The list 0, 1 with a node for each channel that the numbers can name. -/
def pair (m : Nat) : Table 1 m := fun _ addr =>
  ⟨addr == 0, false, false, true, false, 7, 1, 8, 5, addr.setWidth _⟩

/-- One request, with its event one cycle later. -/
def once : List (In 1) :=
  [⟨true, false, 0, ⟨0, 0, 0, 0⟩⟩, ⟨false, false, 0, ⟨1, 2, 3, 100⟩⟩]

theorem walks_lists_two :
    requests (pair 2) (blank (pair 2)) none once = [⟨false, 0, ⟨1, 2, 3, 100⟩⟩] ∧
      [(0, (pair 2 false 0).action ⟨1, 2, 3, 100⟩), (1, (pair 2 false 1).action ⟨1, 2, 3, 100⟩)] <+:
        shown (pair 2) (blank (pair 2)) (once ++ List.replicate 5 ⟨true, true, 0, ⟨0, 0, 0, 0⟩⟩) := by
  have accepted : requests (pair 2) (blank (pair 2)) none once = [⟨false, 0, ⟨1, 2, 3, 100⟩⟩] := rfl
  have finite : ∀ r ∈ requests (pair 2) (blank (pair 2)) none once,
      Chain (pair 2) r.page r.first [pair 2 false 0, pair 2 false 1] := by
    rw [accepted]
    simp [Chain, pair]
  have named : ∀ r ∈ requests (pair 2) (blank (pair 2)) none once,
      ∀ node ∈ [pair 2 false 0, pair 2 false 1], 1 < 2 ∧ node.channel.toNat < 2 := by
    rw [accepted]
    decide
  have walks := (walks_lists (pair 2) (fun _ _ => [pair 2 false 0, pair 2 false 1]) (blank (pair 2))
    (blank_reset _) once
    finite).mpr named
  refine ⟨accepted, walks.2 _ ?_⟩
  rw [accepted]
  decide

/-- A single channel: its number has no bits, and the actions are lost. -/
theorem single_channel_silent :
    let idle : In 1 := ⟨false, false, 0, ⟨0, 0, 0, 0⟩⟩
    requests (pair 1) (blank (pair 1)) none once = [⟨false, 0, ⟨1, 2, 3, 100⟩⟩] ∧
      Chain (pair 1) false 0 [pair 1 false 0, pair 1 false 1] ∧
      shown (pair 1) (blank (pair 1)) (once ++ List.replicate 5 idle) = [] := by
  refine ⟨rfl, by simp [Chain, pair], rfl⟩

end WrCores.Eca.Walker
