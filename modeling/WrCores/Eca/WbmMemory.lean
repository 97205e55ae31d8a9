import WrCores.Heap.Chain
import WrCores.Eca.Wbm

/-!
The memory of eca_ac_wbm over whole runs: every address is once in the pool or in the list of one
macro. An address on its way into or out of the pool and a record on its way into the RAM count as
arrived; `poolNext` and `ramNext` are what they will be after the edge.
-/

namespace WrCores.Eca.Wbm

open Clocked Heap

variable {n entries : Nat}

/-- The record behind a record. -/
def link (ram : Addr n → Rec n) (a : Addr n) : Option (Addr n) :=
  if (ram a).hasNext then some (ram a).pnext else none

/-- The macros with `r_free = '0'`. -/
def used (free : Fin entries → Bool) : Nat := ∑ m, (!free m).toNat

/-- The lists of the macros, the pool and the addresses under way hold each address once. -/
structure Owned (s : Wbm n entries) (lists : Fin entries → List (Addr n)) (way : List (Addr n)) : Prop where
  once : ∀ a, held (s.poolNext ++ way) lists a = 1
  unused : ∀ m, s.free m = true → lists m = []
  qty : s.macroQty = BitVec.ofNat 8 (used s.free)

def Chained (s : Wbm n entries) (lists : Fin entries → List (Addr n)) (m : Fin entries) : Prop :=
  Chain (link s.ramNext) (s.ptr m) (lists m)

/-- The states that leave the memory alone. -/
def leaves : WbmState → Bool
  | .idle | .txLoad | .tx | .txWait => true
  | _ => false

structure Resting (s : Wbm n entries) (lists : Fin entries → List (Addr n)) : Prop where
  ready : s.rdy = true
  state : leaves s.state = true
  pop : s.addrPoolPop = false
  owned : Owned s lists []
  chained : ∀ m, s.free m = false → Chained s lists m
  space : s.spaceLeft = BitVec.ofNat 16 s.poolNext.length

/-- A recording of the macro `m` is open. -/
structure Recording (s : Wbm n entries) (lists : Fin entries → List (Addr n)) (m : Fin entries) : Prop where
  ready : s.rdy = true
  last : macroIdx s.lastRec.toNat = some m
  taken : s.free m = false
  push : s.addrPoolPush = false
  owned : Owned s lists []
  chained : ∀ j, j ≠ m → s.free j = false → Chained s lists j

/-- No element yet: the pointer is the address the first one will get. -/
structure Opened (s : Wbm n entries) (lists : Fin entries → List (Addr n)) (m : Fin entries) : Prop
    extends Recording s lists m where
  state : s.state = .recAddr
  pop : s.addrPoolPop = false
  ramWe : s.ramWe = false
  opWrite : s.opWrite = false
  empty : lists m = []
  first : ∃ rest, s.pool = s.ptr m :: rest
  space : s.spaceLeft = BitVec.ofNat 16 s.poolNext.length

/-- The last element waits in `r_d`, its address in `r_ram_a`. -/
structure Queued (s : Wbm n entries) (lists : Fin entries → List (Addr n)) (m : Fin entries) : Prop
    extends Recording s lists m where
  state : s.state = .recAddr
  pop : s.addrPoolPop = false
  opWrite : s.opWrite = true
  path : ∃ l, lists m = l ++ [s.ramA] ∧ Path (link s.ramNext) (s.ptr m) l s.ramA
  space : s.spaceLeft = BitVec.ofNat 16 s.poolNext.length

/-- The elements so far lead to the head of the pool. -/
structure Linked (s : Wbm n entries) (lists : Fin entries → List (Addr n)) (m : Fin entries) : Prop
    extends Recording s lists m where
  state : s.state = .recData
  pop : s.addrPoolPop = false
  path : ∃ h rest, s.pool = h :: rest ∧ Path (link s.ramNext) (s.ptr m) (lists m) h
  space : s.spaceLeft = BitVec.ofNat 16 s.poolNext.length

/-- An address is out of the pool and not yet off `SPACE_LEFT`. -/
structure Popped (s : Wbm n entries) (lists : Fin entries → List (Addr n)) (m : Fin entries) : Prop
    extends Recording s lists m where
  state : s.state = .recMeta
  path : ∃ l, lists m = l ++ [s.ramA] ∧ Path (link s.ramNext) (s.ptr m) l s.ramA
  space : s.spaceLeft = BitVec.ofNat 16 (s.poolNext.length + 1)

/-- A macro is given back; the record at `r_ram_a` is in the pool, the rest of the list is on its way. -/
structure Clearing (s : Wbm n entries) (lists : Fin entries → List (Addr n)) (rest : List (Addr n)) : Prop where
  ready : s.rdy = true
  pop : s.addrPoolPop = false
  ramWe : s.ramWe = false
  state : (s.state = .clrLoad) ∨ (s.state = .clr ∧ s.addrPoolPush = false ∧ s.q = s.ram s.ramA)
  owned : Owned s lists rest
  chained : ∀ m, s.free m = false → Chained s lists m
  chain : Chain (link s.ramNext) s.ramA (s.ramA :: rest)
  space : s.spaceLeft + 1 = BitVec.ofNat 16 s.poolNext.length

/-- The pool holds the addresses below `j`. -/
structure Preparing (s : Wbm n entries) (j : Nat) : Prop where
  ready : s.rdy = false
  state : leaves s.state = true
  pop : s.addrPoolPop = false
  ramWe : s.ramWe = false
  free : ∀ m, s.free m = true
  qty : s.macroQty = 0
  space : s.spaceLeft = BitVec.ofNat 16 (2 ^ (n + 1))
  pool : s.poolNext = (List.range j).map (BitVec.ofNat (n + 1))
  next : s.ramA + 1 = BitVec.ofNat (n + 1) j
  more : j < 2 ^ (n + 1)

inductive Inv (s : Wbm n entries) : Prop
  | preparing (j : Nat) : Preparing s j → Inv s
  | resting (lists : Fin entries → List (Addr n)) : Resting s lists → Inv s
  | opened (lists : Fin entries → List (Addr n)) (m : Fin entries) : Opened s lists m → Inv s
  | queued (lists : Fin entries → List (Addr n)) (m : Fin entries) : Queued s lists m → Inv s
  | linked (lists : Fin entries → List (Addr n)) (m : Fin entries) : Linked s lists m → Inv s
  | popped (lists : Fin entries → List (Addr n)) (m : Fin entries) : Popped s lists m → Inv s
  | clearing (lists : Fin entries → List (Addr n)) (rest : List (Addr n)) : Clearing s lists rest → Inv s

/-- A step of normal operation: what it makes of the registers, the pool and the RAM. -/
theorem step_poolNext {s : Wbm n entries} (clear : s.clearing = false) (i : WbmIn n) :
    (s.step i).poolNext = (if (s.main i).addrPoolPop then s.poolNext.tail else s.poolNext) ++
      if (s.main i).addrPoolPush then [(s.main i).ramA] else [] := by
  simp only [step, poolNext, clear]
  rfl

theorem step_ramNext (s : Wbm n entries) (i : WbmIn n) :
    (s.step i).ramNext = if (s.main i).ramWe then Function.update s.ramNext (s.main i).ramA (s.main i).d
      else s.ramNext := rfl

theorem used_update (free : Fin entries → Bool) (m : Fin entries) (bit : Bool) :
    used (Function.update free m bit) + (!free m).toNat = used free + (!bit).toNat := by
  have values : (fun j => (!(Function.update free m bit j)).toNat) =
      Function.update (fun j => (!free j).toNat) m (!bit).toNat := by
    funext j
    by_cases same : j = m
    · subst same
      simp
    · simp [same]
  have sums := sum_update (fun j => (!free j).toNat) m (!bit).toNat
  rw [← values] at sums
  exact sums

/-- An edge that starts nothing in the memory. -/
structure Still (s : Wbm n entries) (i : WbmIn n) : Prop where
  clear : s.clearing = false
  rdy : (s.main i).rdy = true
  pop : (s.main i).addrPoolPop = false
  push : (s.main i).addrPoolPush = false
  ramWe : (s.main i).ramWe = false
  free : (s.main i).free = s.free
  ptr : (s.main i).ptr = s.ptr
  qty : (s.main i).macroQty = s.macroQty

variable {s : Wbm n entries} {i : WbmIn n} {lists : Fin entries → List (Addr n)}

theorem Still.poolNext (still : Still s i) : (s.step i).poolNext = s.poolNext := by
  simp [step_poolNext still.clear, still.pop, still.push]

theorem Still.ramNext (still : Still s i) : (s.step i).ramNext = s.ramNext := by
  simp [step_ramNext, still.ramWe]

theorem Still.owned (still : Still s i) {way : List (Addr n)} (owned : Owned s lists way) :
    Owned (s.step i) lists way := by
  constructor
  · rw [still.poolNext]
    exact owned.once
  · rw [show (s.step i).free = s.free from still.free]
    exact owned.unused
  · rw [show (s.step i).free = s.free from still.free]
    exact still.qty.trans owned.qty

theorem Still.chained (still : Still s i) {m : Fin entries} (chained : Chained s lists m) :
    Chained (s.step i) lists m := by
  rw [Chained, still.ramNext, show (s.step i).ptr = s.ptr from still.ptr]
  exact chained

theorem Resting.stays (rest : Resting s lists) (still : Still s i) (state : leaves (s.main i).state = true)
    (space : (s.main i).spaceLeft = s.spaceLeft) : Resting (s.step i) lists := by
  constructor
  · exact still.rdy
  · exact state
  · exact still.pop
  · exact still.owned rest.owned
  · intro m taken
    apply still.chained
    apply rest.chained
    rwa [show (s.step i).free = s.free from still.free] at taken
  · rw [still.poolNext]
    exact space.trans rest.space

/-! ### Idle, and executing a macro -/

/-- A recording takes the head of the pool for its first element. -/
theorem rest_record (rest : Resting s lists) (clear : s.clearing = false) {idx : BitVec 8} {m : Fin entries}
    (found : macroIdx idx.toNat = some m) (room : s.pool ≠ []) (free : s.free m = true)
    (main : s.main i = { s.settle with
      lastRec := idx, macroQty := s.macroQty + 1, ptr := Function.update s.ptr m s.addrPoolQ
      free := Function.update s.free m false, opWrite := false, busy := true, state := .recAddr }) :
    Opened (s.step i) lists m := by
  have pool : (s.step i).poolNext = s.poolNext := by simp [step_poolNext clear, main, settle]
  have ram : (s.step i).ramNext = s.ramNext := by simp [step_ramNext, main, settle]
  have frees : (s.step i).free = Function.update s.free m false := by simp [step, main]
  have ptrs : (s.step i).ptr = Function.update s.ptr m s.addrPoolQ := by simp [step, main]
  have empty := rest.owned.unused m free
  constructor
  · constructor
    · simp [step, main, settle, rest.ready]
    · simpa [step, main] using found
    · simp [frees]
    · simp [step, main, settle]
    · constructor
      · rw [pool]
        exact rest.owned.once
      · intro j unused
        by_cases same : j = m
        · rw [same, empty]
        · exact rest.owned.unused j (by simpa [frees, same] using unused)
      · have count := used_update s.free m false
        rw [free] at count
        simp only [step, main]
        rw [rest.owned.qty]
        simp only [Bool.not_true, Bool.toNat_false, Bool.not_false, Bool.toNat_true, Nat.add_zero] at count
        rw [count]
        exact (BitVec.ofNat_add _ _).symm
    · intro j other taken
      rw [Chained, ram, ptrs, Function.update_of_ne other]
      exact rest.chained j (by simpa [frees, other] using taken)
  · simp [step, main]
  · simp [step, main, settle]
  · simp [step, main, settle]
  · simp [step, main]
  · exact empty
  · obtain ⟨h, more, pool'⟩ := List.exists_cons_of_ne_nil room
    refine ⟨more ++ if s.addrPoolPush then [s.ramA] else [], ?_⟩
    rw [ptrs, Function.update_self]
    simp [step, clear, poolNext, rest.pop, pool', addrPoolQ]
  · rw [pool]
    simp [step, main, settle, rest.space]

/-- The head of a cleared macro goes to the pool at once. -/
theorem rest_clear (rest : Resting s lists) (clear : s.clearing = false) {m : Fin entries}
    (taken : s.free m = false) (main : s.main i = { s.settle with
      macroQty := s.macroQty - 1, ramA := s.ptr m, addrPoolPush := true
      free := Function.update s.free m true, busy := true, state := .clrLoad }) :
    ∃ way, Clearing (s.step i) (Function.update lists m []) way := by
  obtain ⟨way, list⟩ := (rest.chained m taken).begins
  have pool : (s.step i).poolNext = s.poolNext ++ [s.ptr m] := by simp [step_poolNext clear, main, settle]
  have ram : (s.step i).ramNext = s.ramNext := by simp [step_ramNext, main, settle]
  have frees : (s.step i).free = Function.update s.free m true := by simp [step, main]
  have ptrs : (s.step i).ptr = s.ptr := by simp [step, main, settle]
  have address : (s.step i).ramA = s.ptr m := by simp [step, main]
  refine ⟨way, ?_⟩
  constructor
  · simp [step, main, settle, rest.ready]
  · simp [step, main, settle]
  · simp [step, main, settle]
  · simp [step, main]
  · constructor
    · intro a
      have moved := held_update s.poolNext lists m [] a
      have before := rest.owned.once a
      rw [list] at moved
      rw [pool]
      simp only [held, List.append_nil, List.count_append, List.count_cons, List.count_nil] at moved before ⊢
      omega
    · intro j unused
      by_cases same : j = m
      · simp [same]
      · rw [Function.update_of_ne same]
        exact rest.owned.unused j (by simpa [frees, same] using unused)
    · have count := used_update s.free m true
      rw [taken] at count
      simp only [Bool.not_true, Bool.toNat_false, Bool.not_false, Bool.toNat_true, Nat.add_zero] at count
      rw [frees]
      have qty : (s.step i).macroQty = s.macroQty - 1 := by simp [step, main]
      rw [qty, rest.owned.qty, ← count, BitVec.ofNat_add]
      exact BitVec.add_sub_cancel _ _
  · intro j used
    have other : j ≠ m := by
      intro same
      simp [frees, same] at used
    rw [Chained, ram, ptrs, Function.update_of_ne other]
    exact rest.chained j (by simpa [frees, other] using used)
  · rw [ram, address, ← list]
    exact rest.chained m taken
  · have space : (s.step i).spaceLeft = s.spaceLeft := by simp [step, main, settle]
    rw [space, rest.space, pool, List.length_append]
    exact (BitVec.ofNat_add _ _).symm

/-- The registers of the memory that an edge does not touch. -/
def Same (s t : Wbm n entries) : Prop :=
  (t.rdy = s.rdy ∧ t.addrPoolPop = s.addrPoolPop ∧ t.addrPoolPush = s.addrPoolPush ∧ t.ramWe = s.ramWe) ∧
  t.macroQty = s.macroQty ∧ t.spaceLeft = s.spaceLeft ∧ t.free = s.free ∧ t.ptr = s.ptr

theorem execute_same (s : Wbm n entries) (idx : Nat) (wb : Bool) (state : leaves s.state = true) :
    Same s (s.execute idx wb) ∧ leaves (s.execute idx wb).state = true := by
  unfold execute
  repeat' split
  · exact ⟨by simp [Same], state⟩
  · exact ⟨by simp [Same], rfl⟩
  · exact ⟨by simp [Same], state⟩

theorem tx_same (s : Wbm n entries) (stb mStall : Bool) (state : leaves s.state = true) :
    Same s (s.tx stb mStall) ∧ leaves (s.tx stb mStall).state = true := by
  simp only [tx]
  repeat' split
  · exact ⟨by simp [Same], rfl⟩
  · exact ⟨by simp [Same], rfl⟩
  · exact ⟨by simp [Same], state⟩

theorem txWait_same (s : Wbm n entries) (state : leaves s.state = true) :
    Same s s.txWait ∧ leaves s.txWait.state = true := by
  simp only [txWait]
  repeat' split
  · exact ⟨by simp [Same], rfl⟩
  · exact ⟨by simp [Same], rfl⟩
  · exact ⟨by simp [Same], state⟩

/-- What an edge in a state that leaves the memory alone can do. -/
theorem rest_cases (rest : Resting s lists) (clear : s.clearing = false) :
    (Still s i ∧ leaves (s.main i).state = true ∧ (s.main i).spaceLeft = s.spaceLeft) ∨
    (∃ idx m, (s.state = .idle ∧ i.action = none ∧ s.pulse = some (.record idx)) ∧ macroIdx idx.toNat = some m ∧
      s.pool ≠ [] ∧ s.free m = true ∧ s.main i = { s.settle with
      lastRec := idx, macroQty := s.macroQty + 1, ptr := Function.update s.ptr m s.addrPoolQ
      free := Function.update s.free m false, opWrite := false, busy := true, state := .recAddr }) ∨
    ∃ m, s.free m = false ∧ s.main i = { s.settle with
      macroQty := s.macroQty - 1, ramA := s.ptr m, addrPoolPush := true
      free := Function.update s.free m true, busy := true, state := .clrLoad } := by
  have ready := rest.ready
  have main : s.main i = match s.state with
      | .idle => s.settle.idle i.action
      | .txLoad => { s.settle with stall := true, cyc := true, stb := true, state := .tx }
      | .tx => s.settle.tx s.stb i.mStall
      | .txWait => s.settle.txWait
      | _ => s := by
    have leaves := rest.state
    cases state : s.state <;> simp_all [Wbm.main, Wbm.leaves]
  -- an edge that gives up, or runs a macro, keeps the registers of the memory
  have quiet (t : Wbm n entries) (this : s.main i = t) (same : Same s.settle t) (state : leaves t.state = true) :
      Still s i ∧ leaves (s.main i).state = true ∧ (s.main i).spaceLeft = s.spaceLeft := by
    obtain ⟨⟨rdy, pop, push, ramWe⟩, qty, space, free, ptr⟩ := same
    subst this
    exact ⟨⟨clear, rdy.trans ready, pop, push, ramWe, free, ptr, qty⟩, state, space⟩
  have rested : leaves s.settle.state = true := rest.state
  cases state : s.state with
  | idle =>
      rw [state] at main
      simp only [idle] at main
      split at main
      · split at main
        · exact .inl (quiet _ main (execute_same _ _ _ rested).1 (execute_same _ _ _ rested).2)
        · exact .inl (quiet _ main (by simp [Same]) rested)
      · split at main
        · exact .inl (quiet _ main (execute_same _ _ _ rested).1 (execute_same _ _ _ rested).2)
        · exact .inl (quiet _ main (by simp [Same]) rested)
      · rename_i idx none pulse
        split at main
        · rename_i m found
          split at main
          · rename_i room
            simp only [Bool.and_eq_true, Bool.not_eq_true'] at room
            refine .inr (.inl ⟨idx, m, ⟨rfl, none, pulse⟩, found, ?_, room.2, main⟩)
            simpa [addrPoolEmpty, settle] using room.1
          · exact .inl (quiet _ main (by simp [Same]) rested)
        · exact .inl (quiet _ main (by simp [Same]) rested)
      · split at main
        · rename_i m _
          split at main
          · exact .inl (quiet _ main (by simp [Same]) rested)
          · rename_i taken
            exact .inr (.inr ⟨m, by simpa [settle] using taken, main⟩)
        · exact .inl (quiet _ main (by simp [Same]) rested)
      · exact .inl (quiet _ main (by simp [Same]) rested)
  | txLoad =>
      rw [state] at main
      exact .inl (quiet _ main (by simp [Same]) rfl)
  | tx =>
      rw [state] at main
      have same := tx_same s.settle s.stb i.mStall rested
      exact .inl (quiet _ main same.1 same.2)
  | txWait =>
      rw [state] at main
      have same := txWait_same s.settle rested
      exact .inl (quiet _ main same.1 same.2)
  | recAddr | recData | recMeta | clrLoad | clr =>
      have other := rest.state
      simp [leaves, state] at other

theorem rest_step (rest : Resting s lists) (clear : s.clearing = false) : Inv (s.step i) := by
  rcases rest_cases rest clear (i := i) with ⟨still, state, space⟩ | ⟨idx, m, -, found, room, free, main⟩ |
    ⟨m, taken, main⟩
  · exact .resting lists (rest.stays still state space)
  · exact .opened lists m (rest_record rest clear found room free main)
  · obtain ⟨way, clearing⟩ := rest_clear rest clear taken main
    exact .clearing _ way clearing

/-! ### Recording a macro -/

theorem Recording.stays {m : Fin entries} (r : Recording s lists m) (still : Still s i)
    (last : (s.main i).lastRec = s.lastRec) : Recording (s.step i) lists m := by
  have frees : (s.step i).free = s.free := still.free
  constructor
  · exact still.rdy
  · rw [show (s.step i).lastRec = s.lastRec from last]
    exact r.last
  · rw [frees]
    exact r.taken
  · exact still.push
  · exact still.owned r.owned
  · intro j other taken
    rw [frees] at taken
    exact still.chained (r.chained j other taken)

theorem record_pool {m : Fin entries} (r : Recording s lists m) (pop : s.addrPoolPop = false) :
    s.poolNext = s.pool := by
  simp [poolNext, pop, r.push]

/-- The address of the first element is the pointer of the macro. -/
theorem opened_links {m : Fin entries} (o : Opened s lists m) (clear : s.clearing = false) {word : BitVec 32}
    (main : s.main i = { s.settle with
      d := { s.d with hasNext := true, pnext := s.addrPoolQ }
      ramWe := s.opWrite, opWrite := false, wbAddrD := word, state := .recData }) :
    Still s i ∧ Linked (s.step i) lists m := by
  obtain ⟨rest, pool⟩ := o.first
  have still : Still s i := by constructor <;> simp [main, settle, clear, o.ready, o.opWrite]
  refine ⟨still, ?_⟩
  constructor
  · exact o.toRecording.stays still (by simp [main, settle])
  · simp [step, main]
  · exact still.pop
  · refine ⟨s.ptr m, rest, ?_, ?_⟩
    · simp [step, clear, record_pool o.toRecording o.pop, pool]
    · rw [o.empty]
      exact congrFun still.ptr m
  · rw [still.poolNext]
    simp [step, main, settle, o.space]

theorem Opened.stays {m : Fin entries} (o : Opened s lists m) (clear : s.clearing = false)
    (main : s.main i = s.settle) : Still s i ∧ Opened (s.step i) lists m := by
  obtain ⟨rest, pool⟩ := o.first
  have still : Still s i := by constructor <;> simp [main, settle, clear, o.ready]
  refine ⟨still, ?_⟩
  constructor
  · exact o.toRecording.stays still (by simp [main, settle])
  · simp [step, main, settle, o.state]
  · exact still.pop
  · exact still.ramWe
  · simp [step, main, settle, o.opWrite]
  · exact o.empty
  · refine ⟨rest, ?_⟩
    rw [show (s.step i).ptr = s.ptr from still.ptr, ← pool]
    simp [step, clear, record_pool o.toRecording o.pop]
  · rw [still.poolNext]
    simp [step, main, settle, o.space]

theorem opened_step {m : Fin entries} (o : Opened s lists m) (clear : s.clearing = false)
    (careful : ∀ idx, s.pulse ≠ some (.record idx)) : Inv (s.step i) := by
  obtain ⟨rest, pool⟩ := o.first
  have main : s.main i = s.settle.recAddr := by simp [Wbm.main, clear, o.ready, o.state]
  simp only [recAddr] at main
  split at main
  · rename_i idx pulse
    exact absurd pulse (careful idx)
  · have room : s.settle.addrPoolEmpty = false := by simp [addrPoolEmpty, settle, pool]
    rw [room] at main
    exact .linked lists m (opened_links o clear main).2
  · exact .opened lists m (o.stays clear main).2

theorem link_update (ram : Addr n → Rec n) (a b : Addr n) (d : Rec n) (other : b ≠ a) :
    link (Function.update ram a d) b = link ram b := by
  simp [link, other]

theorem link_self (ram : Addr n → Rec n) (a : Addr n) (d : Rec n) :
    link (Function.update ram a d) a = if d.hasNext then some d.pnext else none := by
  simp [link]

/-- The waiting element is in no other place. -/
theorem Queued.apart {m : Fin entries} (k : Queued s lists m) {l : List (Addr n)} (list : lists m = l ++ [s.ramA]) :
    s.ramA ∉ l ∧ ∀ j, j ≠ m → s.ramA ∉ lists j := by
  have inside : s.ramA ∈ lists m := by simp [list]
  constructor
  · intro twice
    have once := k.owned.once s.ramA
    have bound := count_le_held (s.poolNext ++ []) lists m s.ramA
    have two := List.count_pos_iff.2 twice
    simp only [once, list, List.count_append, List.count_singleton_self] at bound
    omega
  · intro j other
    exact held_apart k.owned.once (Ne.symm other) inside

/-- The waiting element is written. -/
structure Writes (s : Wbm n entries) (i : WbmIn n) (d : Rec n) : Prop where
  clear : s.clearing = false
  rdy : (s.main i).rdy = true
  pop : (s.main i).addrPoolPop = false
  push : (s.main i).addrPoolPush = false
  ramWe : (s.main i).ramWe = true
  ramA : (s.main i).ramA = s.ramA
  d : (s.main i).d = d
  free : (s.main i).free = s.free
  ptr : (s.main i).ptr = s.ptr
  qty : (s.main i).macroQty = s.macroQty
  space : (s.main i).spaceLeft = s.spaceLeft

theorem Writes.poolNext {d : Rec n} (w : Writes s i d) : (s.step i).poolNext = s.poolNext := by
  simp [step_poolNext w.clear, w.pop, w.push]

theorem Writes.ramNext {d : Rec n} (w : Writes s i d) :
    (s.step i).ramNext = Function.update s.ramNext s.ramA d := by
  simp [step_ramNext, w.ramWe, w.ramA, w.d]

theorem Writes.owned {d : Rec n} (w : Writes s i d) (owned : Owned s lists []) : Owned (s.step i) lists [] := by
  constructor
  · rw [w.poolNext]
    exact owned.once
  · rw [show (s.step i).free = s.free from w.free]
    exact owned.unused
  · rw [show (s.step i).free = s.free from w.free]
    exact w.qty.trans owned.qty

theorem Writes.chained {d : Rec n} (w : Writes s i d) {m : Fin entries} (k : Queued s lists m) (j : Fin entries)
    (other : j ≠ m) (taken : (s.step i).free j = false) : Chained (s.step i) lists j := by
  obtain ⟨l, list, -⟩ := k.path
  have apart := (k.apart list).2 j other
  rw [show (s.step i).free = s.free from w.free] at taken
  rw [Chained, w.ramNext, show (s.step i).ptr = s.ptr from w.ptr]
  apply (k.chained j other taken).frame
  intro a inside
  exact link_update _ _ _ _ fun same => apart (same ▸ inside)

/-- The path to the waiting element, in the RAM after the write. -/
theorem Writes.path {d : Rec n} (w : Writes s i d) {m : Fin entries} (k : Queued s lists m) :
    ∃ l, lists m = l ++ [s.ramA] ∧ Path (link (s.step i).ramNext) ((s.step i).ptr m) l s.ramA ∧
      link (s.step i).ramNext s.ramA = if d.hasNext then some d.pnext else none := by
  obtain ⟨l, list, path⟩ := k.path
  have apart := (k.apart list).1
  refine ⟨l, list, ?_, ?_⟩
  · rw [w.ramNext, show (s.step i).ptr = s.ptr from w.ptr]
    apply path.frame
    intro a inside
    exact link_update _ _ _ _ fun same => apart (same ▸ inside)
  · rw [w.ramNext, link_self]

/-- The last element of a list ends it. -/
theorem queued_finish {m : Fin entries} (k : Queued s lists m) {d : Rec n} (w : Writes s i d)
    (last : d.hasNext = false) (state : (s.main i).state = .idle) : Resting (s.step i) lists := by
  constructor
  · exact w.rdy
  · rw [show (s.step i).state = .idle from state]
    rfl
  · exact w.pop
  · exact w.owned k.owned
  · intro j taken
    by_cases same : j = m
    · subst same
      obtain ⟨l, list, path, ends⟩ := w.path k
      rw [last] at ends
      rw [Chained, list]
      exact path.close ends
    · exact w.chained k j same taken
  · rw [w.poolNext]
    exact w.space.trans k.space

/-- Another element will follow, at the head of the pool. -/
theorem queued_links {m : Fin entries} (k : Queued s lists m) (clear : s.clearing = false) (room : s.pool ≠ [])
    {word : BitVec 32} (main : s.main i = { s.settle with
      d := { s.d with hasNext := true, pnext := s.addrPoolQ }
      ramWe := s.opWrite, opWrite := false, wbAddrD := word, state := .recData }) :
    Writes s i { s.d with hasNext := true, pnext := s.addrPoolQ } ∧ Linked (s.step i) lists m := by
  have w : Writes s i { s.d with hasNext := true, pnext := s.addrPoolQ } := by
    constructor <;> simp [main, settle, clear, k.ready, k.opWrite]
  refine ⟨w, ?_⟩
  obtain ⟨h, rest, pool⟩ := List.exists_cons_of_ne_nil room
  have head : s.addrPoolQ = h := by simp [addrPoolQ, pool]
  obtain ⟨l, list, path, linked⟩ := w.path k
  rw [if_pos rfl, head] at linked
  constructor
  · constructor
    · exact w.rdy
    · rw [show (s.step i).lastRec = s.lastRec by simp [step, main, settle]]
      exact k.last
    · rw [show (s.step i).free = s.free from w.free]
      exact k.taken
    · exact w.push
    · exact w.owned k.owned
    · exact w.chained k
  · simp [step, main]
  · exact w.pop
  · refine ⟨h, rest, ?_, ?_⟩
    · simp [step, clear, record_pool k.toRecording k.pop, pool]
    · rw [list]
      exact path.snoc linked
  · rw [w.poolNext]
    exact w.space.trans k.space

theorem Queued.stays {m : Fin entries} (k : Queued s lists m) (clear : s.clearing = false)
    (main : s.main i = s.settle) : Still s i ∧ Queued (s.step i) lists m := by
  have still : Still s i := by constructor <;> simp [main, settle, clear, k.ready]
  refine ⟨still, ?_⟩
  constructor
  · exact k.toRecording.stays still (by simp [main, settle])
  · simp [step, main, settle, k.state]
  · exact still.pop
  · simp [step, main, settle, k.opWrite]
  · rw [still.ramNext, show (s.step i).ptr = s.ptr from still.ptr,
      show (s.step i).ramA = s.ramA by simp [step, main, settle]]
    exact k.path
  · rw [still.poolNext]
    simp [step, main, settle, k.space]

/-- What an edge does where an element waits to be written. -/
theorem queued_cases {m : Fin entries} (k : Queued s lists m) (clear : s.clearing = false) :
    (Writes s i { s.d with hasNext := false } ∧ Resting (s.step i) lists) ∨
    (∃ word, s.pulse = some (.recFifo word) ∧ (s.step i).wbAddrD = word ∧
      Writes s i { s.d with hasNext := true, pnext := s.addrPoolQ } ∧ Linked (s.step i) lists m) ∨
    ((∀ word, s.pulse ≠ some (.recFifo word)) ∧ s.main i = s.settle ∧ Still s i ∧ Queued (s.step i) lists m) := by
  have main : s.main i = s.settle.recAddr := by simp [Wbm.main, clear, k.ready, k.state]
  simp only [recAddr] at main
  split at main
  · have w : Writes s i { s.d with hasNext := false } := by
      constructor <;> simp [main, settle, clear, k.ready, k.opWrite]
    exact .inl ⟨w, queued_finish k w rfl (by simp [main])⟩
  · rename_i word pulse
    split at main
    · have w : Writes s i { s.d with hasNext := false } := by
        constructor <;> simp [main, settle, clear, k.ready, k.opWrite]
      exact .inl ⟨w, queued_finish k w rfl (by simp [main])⟩
    · rename_i room
      have links := queued_links k clear (by simpa [addrPoolEmpty, settle] using room) main
      exact .inr (.inl ⟨word, pulse, by simp [step, main], links⟩)
  · rename_i other
    exact .inr (.inr ⟨other, main, k.stays clear main⟩)

theorem queued_step {m : Fin entries} (k : Queued s lists m) (clear : s.clearing = false) : Inv (s.step i) := by
  rcases queued_cases k clear (i := i) with ⟨-, rest⟩ | ⟨_, -, -, -, linked⟩ | ⟨-, -, -, queued⟩
  · exact .resting lists rest
  · exact .linked lists m linked
  · exact .queued lists m queued

/-- The address of the next element leaves the pool. -/
theorem linked_pops {m : Fin entries} (k : Linked s lists m) (clear : s.clearing = false) {word : BitVec 32}
    (main : s.main i = { s.settle with
      ramA := s.addrPoolQ, addrPoolPop := true, d := { s.d with addr := s.wbAddrD, data := word }
      state := .recMeta }) :
    Popped (s.step i) (Function.update lists m (lists m ++ [s.addrPoolQ])) m := by
  obtain ⟨h, rest, pool, path⟩ := k.path
  have before := record_pool k.toRecording k.pop
  have head : s.addrPoolQ = h := by simp [addrPoolQ, pool]
  have ram : (s.step i).ramNext = s.ramNext := by simp [step_ramNext, main, settle]
  have after : (s.step i).poolNext = rest := by
    simp [step_poolNext clear, main, settle, before, pool]
  have address : (s.step i).ramA = h := by simp [step, main, head]
  have frees : (s.step i).free = s.free := by simp [step, main, settle]
  have ptrs : (s.step i).ptr = s.ptr := by simp [step, main, settle]
  rw [head]
  constructor
  · constructor
    · simp [step, main, settle, k.ready]
    · simpa [step, main, settle] using k.last
    · rw [frees]
      exact k.taken
    · simp [step, main, settle]
    · constructor
      · intro a
        have moved := held_update rest lists m (lists m ++ [h]) a
        have once := k.owned.once a
        rw [before, pool] at once
        rw [after]
        simp only [held, List.append_nil, List.count_append, List.count_cons, List.count_nil] at moved once ⊢
        omega
      · intro j unused
        rw [frees] at unused
        have other : j ≠ m := by
          intro same
          rw [same, k.taken] at unused
          cases unused
        rw [Function.update_of_ne other]
        exact k.owned.unused j unused
      · rw [frees]
        simpa [step, main, settle] using k.owned.qty
    · intro j other taken
      rw [frees] at taken
      rw [Chained, ram, ptrs, Function.update_of_ne other]
      exact k.chained j other taken
  · simp [step, main]
  · refine ⟨lists m, ?_, ?_⟩
    · rw [Function.update_self, address]
    · rw [ram, ptrs, address]
      exact path
  · rw [after]
    have space := k.space
    rw [before, pool] at space
    simpa [step, main, settle] using space

theorem Linked.stays {m : Fin entries} (k : Linked s lists m) (clear : s.clearing = false)
    (main : s.main i = s.settle) : Still s i ∧ Linked (s.step i) lists m := by
  obtain ⟨h, rest, pool, path⟩ := k.path
  have still : Still s i := by constructor <;> simp [main, settle, clear, k.ready]
  refine ⟨still, ?_⟩
  constructor
  · exact k.toRecording.stays still (by simp [main, settle])
  · simp [step, main, settle, k.state]
  · exact still.pop
  · refine ⟨h, rest, ?_, ?_⟩
    · simp [step, clear, record_pool k.toRecording k.pop, pool]
    · rw [still.ramNext, show (s.step i).ptr = s.ptr from still.ptr]
      exact path
  · rw [still.poolNext]
    simp [step, main, settle, k.space]

theorem linked_step {m : Fin entries} (k : Linked s lists m) (clear : s.clearing = false) : Inv (s.step i) := by
  have main : s.main i = s.settle.recData := by simp [Wbm.main, clear, k.ready, k.state]
  simp only [recData] at main
  split at main
  · exact .popped _ m (linked_pops k clear main)
  · exact .linked lists m (k.stays clear main).2

/-- The element is complete and waits in `r_d`. -/
theorem popped_queues {m : Fin entries} (k : Popped s lists m) (clear : s.clearing = false) {word : BitVec 32}
    (main : s.main i = { s.settle with
      d := { s.d with chShow := word.extractLsb' 4 4, drop := word.getLsbD 8, sel := word.extractLsb' 0 4 }
      free := match macroIdx s.lastRec.toNat with
        | some m => Function.update s.free m false
        | none => s.free
      spaceLeft := s.spaceLeft - 1, opWrite := true, state := .recAddr }) :
    Still s i ∧ Queued (s.step i) lists m := by
  have same : Function.update s.free m false = s.free := by
    rw [← k.taken, Function.update_eq_self]
  have last := k.last
  have still : Still s i := by constructor <;> simp [main, settle, clear, k.ready, last, same]
  refine ⟨still, ?_⟩
  constructor
  · exact k.toRecording.stays still (by simp [main, settle])
  · simp [step, main]
  · exact still.pop
  · simp [step, main]
  · rw [still.ramNext, show (s.step i).ptr = s.ptr from still.ptr,
      show (s.step i).ramA = s.ramA by simp [step, main, settle]]
    exact k.path
  · have space : (s.step i).spaceLeft = s.spaceLeft - 1 := by simp [step, main, settle]
    rw [still.poolNext, space, k.space, BitVec.ofNat_add]
    exact BitVec.add_sub_cancel _ _

theorem Popped.stays {m : Fin entries} (k : Popped s lists m) (clear : s.clearing = false)
    (main : s.main i = s.settle) : Still s i ∧ Popped (s.step i) lists m := by
  have still : Still s i := by constructor <;> simp [main, settle, clear, k.ready]
  refine ⟨still, ?_⟩
  constructor
  · exact k.toRecording.stays still (by simp [main, settle])
  · simp [step, main, settle, k.state]
  · rw [still.ramNext, show (s.step i).ptr = s.ptr from still.ptr,
      show (s.step i).ramA = s.ramA by simp [step, main, settle]]
    exact k.path
  · rw [still.poolNext]
    simp [step, main, settle, k.space]

theorem popped_step {m : Fin entries} (k : Popped s lists m) (clear : s.clearing = false) : Inv (s.step i) := by
  have main : s.main i = s.settle.recMeta := by simp [Wbm.main, clear, k.ready, k.state]
  simp only [recMeta] at main
  split at main
  · exact .queued lists m (popped_queues k clear main).2
  · exact .popped lists m (k.stays clear main).2

/-! ### Clearing a macro, and the pool after a reset -/

theorem Still.clears {rest : List (Addr n)} (still : Still s i) (k : Clearing s lists rest) :
    Owned (s.step i) lists rest ∧ ∀ m, (s.step i).free m = false → Chained (s.step i) lists m := by
  constructor
  · exact still.owned k.owned
  · intro m taken
    rw [show (s.step i).free = s.free from still.free] at taken
    exact still.chained (k.chained m taken)

/-- The next record of the list follows into the pool. -/
theorem clearing_next {rest : List (Addr n)} (k : Clearing s lists rest) (clear : s.clearing = false)
    {p : Addr n} (linked : link s.ramNext s.ramA = some p) (main : s.main i = { s.settle with
      stall := true, spaceLeft := s.spaceLeft + 1, addrPoolPush := true, ramA := p, state := .clrLoad }) :
    ∃ more, Clearing (s.step i) lists more := by
  have chain := k.chain.goes_on linked
  obtain ⟨more, list⟩ := chain.begins
  have pool : (s.step i).poolNext = s.poolNext ++ [p] := by simp [step_poolNext clear, main, settle]
  have ram : (s.step i).ramNext = s.ramNext := by simp [step_ramNext, main, settle]
  have frees : (s.step i).free = s.free := by simp [step, main, settle]
  have address : (s.step i).ramA = p := by simp [step, main]
  refine ⟨more, ?_⟩
  constructor
  · simp [step, main, settle, k.ready]
  · simp [step, main, settle]
  · simp [step, main, settle]
  · simp [step, main]
  · constructor
    · intro a
      have once := k.owned.once a
      rw [list] at once
      rw [pool]
      simpa using once
    · rw [frees]
      exact k.owned.unused
    · rw [frees]
      simpa [step, main, settle] using k.owned.qty
  · intro m taken
    rw [frees] at taken
    rw [Chained, ram, show (s.step i).ptr = s.ptr by simp [step, main, settle]]
    exact k.chained m taken
  · rw [ram, address, ← list]
    exact chain
  · have space : (s.step i).spaceLeft = s.spaceLeft + 1 := by simp [step, main]
    rw [space, k.space, pool, List.length_append]
    exact (BitVec.ofNat_add _ _).symm

/-- The RAM and the macros in use stay while a list is given back. -/
theorem clearing_cases {rest : List (Addr n)} (k : Clearing s lists rest) (clear : s.clearing = false) :
    ((s.step i).ramNext = s.ramNext ∧ (s.step i).free = s.free) ∧
      ((∃ more, Clearing (s.step i) lists more) ∨ Resting (s.step i) lists) := by
  have ram : s.ramNext = s.ram := by simp [ramNext, k.ramWe]
  rcases k.state with state | ⟨state, -, shown⟩
  · have main : s.main i = { s.settle with stall := true, state := .clr } := by
      simp [Wbm.main, clear, k.ready, state]
    have still : Still s i := by constructor <;> simp [main, settle, clear, k.ready]
    have address : (s.step i).ramA = s.ramA := by simp [step, main, settle]
    refine ⟨⟨still.ramNext, still.free⟩, .inl ⟨rest, ?_⟩⟩
    constructor
    · exact still.rdy
    · exact still.pop
    · exact still.ramWe
    · right
      refine ⟨by simp [step, main], still.push, ?_⟩
      simp [step, k.ramWe, ram, main, settle]
    · exact (still.clears k).1
    · exact (still.clears k).2
    · rw [still.ramNext, address]
      exact k.chain
    · rw [still.poolNext]
      simpa [step, main, settle] using k.space
  · have main : s.main i = s.settle.clr := by simp [Wbm.main, clear, k.ready, state]
    simp only [clr] at main
    split at main
    · rename_i linked
      refine ⟨⟨by simp [step_ramNext, main, settle], by simp [step, main, settle]⟩, .inl ?_⟩
      apply clearing_next k clear _ main
      rw [ram, link, ← shown]
      exact if_pos linked
    · rename_i last
      have ends : link s.ramNext s.ramA = none := by
        rw [ram, link, ← shown]
        exact if_neg last
      have still : Still s i := by constructor <;> simp [main, settle, clear, k.ready]
      have none := k.chain.ends ends
      subst none
      refine ⟨⟨still.ramNext, still.free⟩, .inr ?_⟩
      constructor
      · exact still.rdy
      · simp [step, main, leaves]
      · exact still.pop
      · exact (still.clears k).1
      · exact (still.clears k).2
      · rw [still.poolNext]
        simpa [step, main, settle] using k.space

theorem clearing_step {rest : List (Addr n)} (k : Clearing s lists rest) (clear : s.clearing = false) :
    Inv (s.step i) := by
  rcases (clearing_cases k clear (i := i)).2 with ⟨more, clearing⟩ | rest
  · exact .clearing lists more clearing
  · exact .resting lists rest

theorem reset_step (state : leaves s.state = true) (clear : s.clearing = true) : Preparing (s.step i) 0 := by
  have main : s.main i = s.reset := by simp [Wbm.main, clear]
  constructor
  · simp [step, main, reset]
  · simpa [step, main, reset] using state
  · simp [step, main, reset]
  · simp [step, main, reset]
  · simp [step, main, reset]
  · simp [step, main, reset]
  · simp [step, main, reset]
  · simp [step, main, reset, clear, poolNext]
  · have address : (s.step i).ramA = BitVec.allOnes (n + 1) := by simp [step, main, reset]
    rw [address]
    apply BitVec.eq_of_toNat_eq
    have := Nat.two_pow_pos (n + 1)
    simp [show 2 ^ (n + 1) - 1 + 1 = 2 ^ (n + 1) by omega]
  · exact Nat.two_pow_pos _

theorem addresses_distinct {j k : Nat} (first : j < 2 ^ (n + 1)) (second : k < 2 ^ (n + 1))
    (same : BitVec.ofNat (n + 1) j = BitVec.ofNat (n + 1) k) : j = k := by
  have values := congrArg BitVec.toNat same
  rwa [BitVec.toNat_ofNat, BitVec.toNat_ofNat, Nat.mod_eq_of_lt first, Nat.mod_eq_of_lt second] at values

/-- All addresses, each once. -/
theorem count_addresses (a : Addr n) : ((List.range (2 ^ (n + 1))).map (BitVec.ofNat (n + 1))).count a = 1 := by
  apply List.count_eq_one_of_mem
  · apply List.Nodup.map_on _ List.nodup_range
    intro j first k second same
    exact addresses_distinct (List.mem_range.1 first) (List.mem_range.1 second) same
  · rw [List.mem_map]
    exact ⟨a.toNat, List.mem_range.2 a.isLt, by simp⟩

/-- One more address is in the pool, or all are. -/
theorem preparing_cases {j : Nat} (k : Preparing s j) (clear : s.clearing = false) :
    Preparing (s.step i) (j + 1) ∨ Resting (s.step i) (fun _ => []) ∧ ∀ m, (s.step i).free m = true := by
  have main : s.main i = s.prepare := by simp [Wbm.main, clear, k.ready]
  have pool : (s.step i).poolNext = (List.range (j + 1)).map (BitVec.ofNat (n + 1)) := by
    simp [step_poolNext clear, main, prepare, k.pop, k.pool, List.range_succ]
    exact k.next
  have address : (s.step i).ramA = BitVec.ofNat (n + 1) j := by
    simp only [step, main]
    exact k.next
  have frees : (s.step i).free = s.free := by simp [step, main, prepare]
  have two : 2 ≤ 2 ^ (n + 1) := Nat.le_self_pow (by omega) 2
  have more := k.more
  have last : (s.step i).rdy = true ↔ j + 1 = 2 ^ (n + 1) := by
    have here : (s.step i).rdy = (s.ramA == BitVec.ofNat (n + 1) (2 ^ (n + 1) - 2)) := by
      simp [step, main, prepare]
    have behind : BitVec.ofNat (n + 1) (2 ^ (n + 1) - 2) + 1 = BitVec.ofNat (n + 1) (2 ^ (n + 1) - 1) := by
      rw [show 2 ^ (n + 1) - 1 = (2 ^ (n + 1) - 2) + 1 by omega, BitVec.ofNat_add]
      rfl
    rw [here, beq_iff_eq]
    constructor
    · intro same
      have next := k.next
      rw [same, behind] at next
      have := addresses_distinct (by omega) more next
      omega
    · intro full
      have next := k.next
      rw [show j = 2 ^ (n + 1) - 1 by omega, ← behind] at next
      exact add_right_cancel next
  have state : leaves (s.step i).state = true := by simpa [step, main, prepare] using k.state
  have pop : (s.step i).addrPoolPop = false := by simp [step, main, prepare, k.pop]
  have space : (s.step i).spaceLeft = BitVec.ofNat 16 (2 ^ (n + 1)) := by simp [step, main, prepare, k.space]
  have qty : (s.step i).macroQty = 0 := by simp [step, main, prepare, k.qty]
  have free : ∀ m, (s.step i).free m = true := by
    rw [frees]
    exact k.free
  by_cases full : j + 1 = 2 ^ (n + 1)
  · refine .inr ⟨?_, free⟩
    constructor
    · exact last.2 full
    · exact state
    · exact pop
    · constructor
      · intro a
        rw [pool, full]
        simp [held, count_addresses]
      · simp
      · simp [qty, used, free]
    · intro m taken
      simp [free] at taken
    · simp [space, pool, full]
  · left
    constructor
    · rw [← Bool.not_eq_true, last]
      exact full
    · exact state
    · exact pop
    · simp [step, main, prepare, k.ramWe]
    · exact free
    · exact qty
    · exact space
    · exact pool
    · rw [address]
      exact (BitVec.ofNat_add _ _).symm
    · omega

theorem preparing_step {j : Nat} (k : Preparing s j) (clear : s.clearing = false) : Inv (s.step i) := by
  rcases preparing_cases k clear (i := i) with more | ⟨rest, -⟩
  · exact .preparing (j + 1) more
  · exact .resting _ rest

/-! ### Whole runs -/

/-- All is cleared only while the memory is left alone, and a recording is not finished without an
element. -/
def Careful (s : Wbm n entries) (_ : WbmIn n) : Prop :=
  (s.clearing = true → leaves s.state = true) ∧
  ∀ idx, s.pulse = some (.record idx) → s.state = .recAddr → s.opWrite = true

theorem inv_step (inv : Inv s) (careful : Careful s i) : Inv (s.step i) := by
  cases clear : s.clearing with
  | true => exact .preparing 0 (reset_step (careful.1 clear) clear)
  | false =>
      cases inv with
      | preparing j k => exact preparing_step k clear
      | resting lists k => exact rest_step k clear
      | opened lists m k =>
          apply opened_step k clear
          intro idx pulse
          have written := careful.2 idx pulse k.state
          rw [k.opWrite] at written
          cases written
      | queued lists m k => exact queued_step k clear
      | linked lists m k => exact linked_step k clear
      | popped lists m k => exact popped_step k clear
      | clearing lists rest k => exact clearing_step k clear

/-- After `rst_sys_n_i`: the RAM and the pointers hold anything. -/
def boot (s : Wbm n entries) : Wbm n entries :=
  { s.reset with
    enable := false, pulse := none, autoStall := false, opCnt := 0, ackerrCnt := 0, state := .idle, pool := [] }

theorem boot_prepares (s : Wbm n entries) : Preparing (boot s) 0 := by
  constructor
  case next =>
    apply BitVec.eq_of_toNat_eq
    have := Nat.two_pow_pos (n + 1)
    simp [boot, reset, show 2 ^ (n + 1) - 1 + 1 = 2 ^ (n + 1) by omega]
  case more => exact Nat.two_pow_pos _
  all_goals simp [boot, reset, leaves, poolNext]

/-- Every address is once in the pool or in the list of one macro that is in use, the lists end, and
the two counters are right. -/
def Conserved (s : Wbm n entries) : Prop :=
  ∃ lists : Fin entries → List (Addr n),
    (∀ a, s.poolNext.count a + ∑ m, (lists m).count a = 1) ∧
    (∀ m, s.free m = true → lists m = []) ∧
    (∀ m, s.free m = false → Chain (link s.ramNext) (s.ptr m) (lists m)) ∧
    s.spaceLeft = BitVec.ofNat 16 s.poolNext.length ∧
    s.macroQty = BitVec.ofNat 8 (Finset.univ.filter fun m => s.free m = false).card

theorem used_card (free : Fin entries → Bool) :
    used free = (Finset.univ.filter fun m => free m = false).card := by
  rw [used, Finset.card_filter]
  apply Finset.sum_congr rfl
  intro m _
  cases free m <;> rfl

theorem inv_idle (inv : Inv s) (ready : s.rdy = true) (idle : s.state = .idle) : Conserved s := by
  cases inv with
  | resting lists k =>
      refine ⟨lists, ?_, k.owned.unused, k.chained, k.space, ?_⟩
      · intro a
        simpa [held] using k.owned.once a
      · rw [k.owned.qty, used_card]
  | preparing j k => simp [k.ready] at ready
  | opened lists m k => simp [k.state] at idle
  | queued lists m k => simp [k.state] at idle
  | linked lists m k => simp [k.state] at idle
  | popped lists m k => simp [k.state] at idle
  | clearing lists rest k =>
      rcases k.state with state | ⟨state, -⟩
      · simp [state] at idle
      · simp [state] at idle

theorem memory_conserved (s : Wbm n entries) (inputs : List (WbmIn n))
    (careful : Along step Careful (boot s) inputs) (ready : (run step (boot s) inputs).rdy = true)
    (idle : (run step (boot s) inputs).state = .idle) : Conserved (run step (boot s) inputs) := by
  have inv : Inv (run step (boot s) inputs) :=
    careful.invariant Inv (fun _ _ here care => inv_step here care) (.preparing 0 (boot_prepares s))
  exact inv_idle inv ready idle

instance (s : Wbm n entries) (i : WbmIn n) : Decidable (Careful s i) :=
  decidable_of_iff ((s.clearing = true → leaves s.state = true) ∧
      ((match s.pulse with | some (.record _) => true | _ => false) = true → s.state = .recAddr → s.opWrite = true)) (by
    unfold Careful
    cases pulse : s.pulse with
    | none => simp
    | some command => cases command <;> simp)

def blank : Rec n := ⟨false, 0, false, 0, 0, 0, 0⟩

/-- A RAM of four records and two macros. -/
def small : Wbm 1 2 :=
  boot ⟨false, none, false, false, false, false, false, 0, 0, 0, 0, false, false, false, false, 0, 0, false, 0,
    false, fun _ => false, fun _ => 0, 0, blank, .idle, [], fun _ => blank, blank⟩

/-- Five edges to get ready, then the commands, with an edge behind each. -/
def commands (list : List Command) : List (WbmIn n) :=
  List.replicate 5 ⟨none, none, false, false, blank⟩ ++
    list.flatMap fun command => [⟨some command, none, false, false, blank⟩, ⟨none, none, false, false, blank⟩]

theorem memory_conserved_one :
    (run step small (commands [.record 0, .recFifo 16, .recFifo 5, .recFifo 15, .record 0])).free 0 = false ∧
    Conserved (run step small (commands [.record 0, .recFifo 16, .recFifo 5, .recFifo 15, .record 0])) := by
  refine ⟨by decide, ?_⟩
  apply memory_conserved
  · decide
  · decide +kernel
  · decide +kernel

/-- A recording without elements: its pointer stays in the pool. -/
theorem empty_macro_shares : (run step small (commands [.record 0, .record 0])).rdy = true ∧
    (run step small (commands [.record 0, .record 0])).state = .idle ∧
    ¬Conserved (run step small (commands [.record 0, .record 0])) := by
  refine ⟨by decide +kernel, by decide +kernel, ?_⟩
  rintro ⟨lists, once, -, chains, -⟩
  have taken : (run step small (commands [.record 0, .record 0])).free 0 = false := by decide +kernel
  have pointer : (run step small (commands [.record 0, .record 0])).ptr 0 = 0 := by decide +kernel
  have pooled : (run step small (commands [.record 0, .record 0])).poolNext.count 0 = 1 := by decide
  obtain ⟨rest, list⟩ := (chains 0 taken).begins
  have bound := count_le_held (run step small (commands [.record 0, .record 0])).poolNext lists 0 0
  rw [held, once, pooled, list, pointer] at bound
  simp at bound

end WrCores.Eca.Wbm
