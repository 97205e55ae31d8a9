import WrCores.Eca.ChannelShake

/-!
Where the slots of eca_channel.vhd are, over whole runs of both clocks. A book kept beside the registers says which slots
are held and which of them eca_tag_channel still has; every held slot is in exactly one place, and a cycle moves it from
place to place.
-/

namespace WrCores.Eca.Channel

open Clocked

variable {v c g : Nat}

/-! ### The table of errors -/

/-- The count and the slot of an entry. -/
def Main.count (m : Main v c g) (x : BitVec (v + 2)) : BitVec c := (m.saved.memory x).extractLsb' g c

def Main.index (m : Main v c g) (x : BitVec (v + 2)) : BitVec g := (m.saved.memory x).extractLsb' 0 g

theorem packed_count (t : BitVec 64) (n : BitVec c) (k : BitVec g) : (t ++ n ++ k).extractLsb' g c = n := by
  apply BitVec.eq_of_getLsbD_eq
  intro i inside
  simp [BitVec.getLsbD_append, inside]

theorem packed_index (t : BitVec 64) (n : BitVec c) (k : BitVec g) : (t ++ n ++ k).extractLsb' 0 g = k := by
  apply BitVec.eq_of_getLsbD_eq
  intro i inside
  simp [BitVec.getLsbD_append, inside]

theorem fIncrement_toNat (bits : 0 < c) (x : BitVec c) : (fIncrement x).toNat = min (x.toNat + 1) (2 ^ c - 1) := by
  have bound := x.isLt
  have ones : (BitVec.allOnes c).toNat = 2 ^ c - 1 := BitVec.toNat_allOnes
  rw [fIncrement, fEcaAnd, decide_eq_true bits, Bool.true_and]
  by_cases full : x = BitVec.allOnes c
  · rw [decide_eq_true full, if_pos rfl, full, ones]
    omega
  · have less : x.toNat ≠ 2 ^ c - 1 := fun same => full (BitVec.eq_of_toNat_eq (same.trans ones.symm))
    have one : (1 : BitVec c).toNat = 1 := BitVec.toNat_one bits
    rw [decide_eq_false full, if_neg Bool.false_ne_true, BitVec.toNat_add, one, Nat.mod_eq_of_lt (by omega)]
    omega

section Table

variable {m : Main v c g} {i : In v g} {bus : Bus v}

/-- With the table wiped, what is written is the entry that was read. -/
theorem memory_step (safe : m.sSafe = true) (x : BitVec (v + 2)) :
    (m.step bus i).saved.memory x =
      if (m.rBusy || m.sAtomFree) && decide (m.rRidx = x) then m.sDataI else m.saved.memory x := by
  have wen : m.sWen = (m.rBusy || m.sAtomFree) := by rw [Main.sWen, safe, Bool.not_true, Bool.or_false]
  have widx : m.sWidx = m.rRidx := by rw [Main.sWidx, safe, if_pos rfl]
  change (if m.sWen then Function.update m.saved.memory m.sWidx m.sDataI else m.saved.memory) x = _
  rw [wen, widx]
  cases m.rBusy || m.sAtomFree with
  | false => rfl
  | true =>
      by_cases same : m.rRidx = x
      · simp [same]
      · simp [same, Function.update_of_ne (Ne.symm same)]

theorem data_step : (m.step bus i).saved.rData = (m.step bus i).saved.memory (m.step bus i).rRidx :=
  Sdp.rData_step (by omega) _ _ _ _ _

theorem sDataI_count : m.sDataI.extractLsb' g c = if m.rBusy then fIncrement m.sCountO else 0 := packed_count _ _ _

theorem sDataI_index : m.sDataI.extractLsb' 0 g = if m.sZero then m.rIndex else m.sIndexO := packed_index _ _ _

end Table

/-! ### The places of a slot -/

/-- The slots that are held, those that eca_tag_channel has, the errors of each kind since its entry was last read with
field 11, and how many they were when that was last done. -/
structure Book (v g : Nat) where
  held : BitVec g → Bool
  inside : BitVec g → Bool
  errors : BitVec (v + 2) → Nat
  asked : Nat

/-- The entry that a request is about. -/
def Main.request (m : Main v c g) : BitVec (v + 2) := m.rcReqNum ++ m.rcReqType

def Book.tick (b : Book v g) (m : Main v c g) (i : In v g) : Book v g where
  held j := decide (i.accept = some j) || (b.held j && !(m.rFreeStb && decide (m.rFreeIdx = j)))
  inside j := decide (i.accept = some j) || (b.inside j && !(i.sFinal && decide (i.channel.index = j)))
  errors x := (if m.sAtomFree && decide (m.request = x) then 0 else b.errors x) +
    (i.sBusy && decide (i.entry = x)).toNat
  asked := if m.sAtomFree then b.errors m.request else b.asked

def Book.next (b : Book v g) (s : State v c g) (e : Edge v g) : Book v g := (e.1.map (b.tick s.main)).getD b

inductive Place (v : Nat) where
  /-- In eca_tag_channel. -/
  | inside
  /-- Shown for the last time in the cycle before. -/
  | shown
  /-- The first error of its kind. -/
  | recorded (x : BitVec (v + 2))
  /-- Taken out of the table by a request that is not yet answered. -/
  | asked
  /-- On its way to `free_i`. -/
  | freed
  deriving DecidableEq, Repr

def At (m : Main v c g) (b : Book v g) (j : BitVec g) : Place v → Prop
  | .inside => b.inside j = true
  | .shown => m.rFinal = true ∧ m.rIndex = j
  | .recorded x => m.count x ≠ 0 ∧ m.index x = j
  | .asked => m.rReqAok = true ∧ m.rReqAck = false ∧ m.rcReqField = 11 ∧ m.rReqCnt ≠ 0 ∧ m.rReqIdx = j
  | .freed => m.rFreeStb = true ∧ m.rFreeIdx = j

/-- Where a slot goes in a cycle of `clk_i`. -/
def move (m : Main v c g) (i : In v g) (j : BitVec g) : Place v → Option (Place v)
  | .inside => if i.sFinal && decide (i.channel.index = j) then some .shown else some .inside
  | .shown => if m.sSteal then some (.recorded m.rRidx) else some .freed
  | .recorded x => if m.sAtomFree && decide (m.rRidx = x) then some .asked else some (.recorded x)
  | .asked => if m.sReqAck then some .freed else some .asked
  | .freed => none

/-- What eca_tag_channel promises: an action is put out once, and its slot is given out again only when it was freed.
Actions are taken when the table of errors has been wiped. -/
structure Fair (m : Main v c g) (b : Book v g) (i : In v g) : Prop where
  output : i.sFinal = true → b.inside i.channel.index = true
  accept : ∀ j, i.accept = some j →
    m.sSafe = true ∧ (b.held j = false ∨ (m.rFreeStb = true ∧ m.rFreeIdx = j))

/-- The registers once the table has been wiped. -/
structure Ready (s : State v c g) (b : Book v g) (p : Fin 13) : Prop where
  shake : Shake s p
  safe : s.main.sSafe = true
  data : s.main.saved.rData = s.main.saved.memory s.main.rRidx
  busy : s.main.rBusy = true → s.main.rFinal = true

section Places

variable {s : State v c g} {b : Book v g} {p : Fin 13} {i : In v g} {j : BitVec g}

theorem sCountO_eq (ready : Ready s b p) : s.main.sCountO = s.main.count s.main.rRidx := by
  rw [Main.sCountO, Main.sDataO, ready.data]
  rfl

theorem sIndexO_eq (ready : Ready s b p) : s.main.sIndexO = s.main.index s.main.rRidx := by
  rw [Main.sIndexO, Main.sDataO, ready.data]
  rfl

theorem sZero_eq (bits : 0 < c) (ready : Ready s b p) : s.main.sZero = decide (s.main.count s.main.rRidx = 0) := by
  rw [Main.sZero, sCountO_eq ready, fEcaOr_eq bits]
  simp

theorem errorField_eq (m : Main v c g) : m.sErrorField = decide (m.rcReqField = 11) := by
  rw [Main.sErrorField, fEcaEq_eq]
  rfl

theorem fIncrement_ne (bits : 0 < c) (x : BitVec c) : fIncrement x ≠ 0#c := by
  intro zero
  have value := fIncrement_toNat bits x
  have wide : 2 ^ 1 ≤ 2 ^ c := Nat.pow_le_pow_right (by decide) bits
  rw [zero, BitVec.toNat_ofNat, Nat.zero_mod] at value
  omega

/-- A new entry, and what one of the table becomes. -/
theorem recorded_step (bits : 0 < c) (ready : Ready s b p) (x : BitVec (v + 2)) :
    At (s.main.step s.bus i) (b.tick s.main i) j (.recorded x) ↔
      (At s.main b j .shown ∧ s.main.sSteal = true ∧ s.main.rRidx = x) ∨
        (At s.main b j (.recorded x) ∧ ¬(s.main.sAtomFree = true ∧ s.main.rRidx = x)) := by
  have zero := sZero_eq bits ready
  have exclusive : s.main.rBusy = true → s.main.sAtomFree = false := by
    intro busy
    rw [Main.sAtomFree, Main.sReqIdx, busy, Bool.not_true, Bool.and_false, Bool.false_and]
  have count : (s.main.step s.bus i).count x = if (s.main.rBusy || s.main.sAtomFree) && decide (s.main.rRidx = x) then
      (if s.main.rBusy then fIncrement s.main.sCountO else 0) else s.main.count x := by
    rw [Main.count, memory_step ready.safe, apply_ite (BitVec.extractLsb' g c), sDataI_count]
    rfl
  have index : (s.main.step s.bus i).index x = if (s.main.rBusy || s.main.sAtomFree) && decide (s.main.rRidx = x) then
      (if s.main.sZero then s.main.rIndex else s.main.sIndexO) else s.main.index x := by
    rw [Main.index, memory_step ready.safe, apply_ite (BitVec.extractLsb' 0 g), sDataI_index]
    rfl
  simp only [At, count, index, Main.sSteal]
  by_cases here : s.main.rRidx = x
  · subst here
    cases busy : s.main.rBusy with
    | false =>
        cases atom : s.main.sAtomFree with
        | false => simp
        | true => simp
    | true =>
        have final := ready.busy busy
        rw [exclusive busy, zero, sIndexO_eq ready]
        have positive := fIncrement_ne bits s.main.sCountO
        by_cases empty : s.main.count s.main.rRidx = 0#c
        · simp [empty, final, positive]
        · simp [empty, positive]
  · simp [here]

/-- A slot that a request takes out of the table, and one that it has. -/
theorem asked_step (ready : Ready s b p) :
    At (s.main.step s.bus i) (b.tick s.main i) j .asked ↔
      (At s.main b j (.recorded s.main.rRidx) ∧ s.main.sAtomFree = true) ∨
        (At s.main b j .asked ∧ s.main.sReqAck = false) := by
  have shake := ready.shake
  have aok : (s.main.step s.bus i).rReqAok = (!s.main.sReqRok && (s.main.rReqAok || s.main.sReqIdx)) := rfl
  have ack : (s.main.step s.bus i).rReqAck = (!s.main.sReqRok && (s.main.rReqAck || s.main.sReqAck)) := rfl
  have field : (s.main.step s.bus i).rcReqField = if s.main.sReqRok then s.bus.rsReqField else s.main.rcReqField :=
    rfl
  have cnt : (s.main.step s.bus i).rReqCnt = if s.main.sReqIdx then s.main.sCountO else s.main.rReqCnt := rfl
  have idx : (s.main.step s.bus i).rReqIdx = if s.main.sReqIdx then s.main.sIndexO else s.main.rReqIdx := rfl
  simp only [At, aok, ack, field, cnt, idx, Main.sAtomFree, errorField_eq, sCountO_eq ready, sIndexO_eq ready,
    shake.sReqRok,
    shake.sReqIdx, shake.sReqAck, shake.aok, shake.ack]
  by_cases three : p = 3
  · subst three
    simp
  by_cases five : p = 5
  · subst five
    cases s.main.rBusy with
    | false =>
        simp
        tauto
    | true => simp
  · cases s.main.rFinal with
    | false =>
        simp [three, five]
        tauto
    | true => simp [three, five]

/-- A slot is freed when it was shown and is not kept, or when the request that has it is answered. -/
theorem freed_step (bits : 0 < c) (ready : Ready s b p) :
    At (s.main.step s.bus i) (b.tick s.main i) j .freed ↔
      (At s.main b j .shown ∧ s.main.sSteal = false) ∨ (At s.main b j .asked ∧ s.main.sReqAck = true) := by
  have shake := ready.shake
  have stb : (s.main.step s.bus i).rFreeStb = s.main.sFreeStb := rfl
  have idx : (s.main.step s.bus i).rFreeIdx = s.main.sFreeIdx := rfl
  simp only [At, stb, idx, Main.sFreeStb, Main.sFreeIdx, Main.sLateFree, errorField_eq, fEcaOr_eq bits, shake.sReqAck,
    shake.aok, shake.ack]
  cases s.main.rFinal with
  | false =>
      simp only [Bool.false_and, Bool.false_or, Bool.not_false, Bool.and_true, Bool.and_eq_true, decide_eq_true_iff,
        Bool.false_eq_true, if_false, false_and, false_or, decide_eq_false_iff_not]
      constructor
      · rintro ⟨⟨⟨rfl, field⟩, some⟩, slot⟩
        exact ⟨⟨by decide, by decide, field, some, slot⟩, rfl⟩
      · rintro ⟨⟨-, -, field, some, slot⟩, eight⟩
        exact ⟨⟨⟨eight, field⟩, some⟩, slot⟩
  | true =>
      simp only [Bool.true_and, Bool.not_true, Bool.and_false, Bool.false_and, Bool.or_false, Bool.not_eq_true',
        if_true,
        true_and, Bool.false_eq_true, and_false, or_false]
      exact and_comm

/-- A slot goes where `move` says, and a new one comes into eca_tag_channel. -/
theorem at_step (bits : 0 < c) (ready : Ready s b p) (fair : Fair s.main b i) (q : Place v) :
    At (s.main.step s.bus i) (b.tick s.main i) j q ↔
      (∃ r, At s.main b j r ∧ move s.main i j r = some q) ∨ (i.accept = some j ∧ q = .inside) := by
  constructor
  · intro now
    cases q with
    | inside =>
        change (decide (i.accept = some j) || (b.inside j && !(i.sFinal && decide (i.channel.index = j)))) =
          true at now
        rw [Bool.or_eq_true, decide_eq_true_iff, Bool.and_eq_true, Bool.not_eq_true'] at now
        rcases now with new | ⟨here, stays⟩
        · exact .inr ⟨new, rfl⟩
        · exact .inl ⟨.inside, here, by rw [move, stays, if_neg Bool.false_ne_true]⟩
    | shown =>
        obtain ⟨final, index⟩ : i.sFinal = true ∧ i.channel.index = j := now
        refine .inl ⟨.inside, index ▸ fair.output final, ?_⟩
        rw [move, final, index, decide_eq_true rfl]
        rfl
    | recorded x =>
        rcases (recorded_step bits ready x).mp now with ⟨shown, steal, rfl⟩ | ⟨here, stays⟩
        · exact .inl ⟨.shown, shown, by rw [move, steal, if_pos rfl]⟩
        · refine .inl ⟨.recorded x, here, ?_⟩
          rw [move, if_neg]
          rw [Bool.and_eq_true, decide_eq_true_iff]
          exact stays
    | asked =>
        rcases (asked_step ready).mp now with ⟨here, atom⟩ | ⟨here, waits⟩
        · refine .inl ⟨.recorded s.main.rRidx, here, ?_⟩
          rw [move, atom, decide_eq_true rfl]
          rfl
        · exact .inl ⟨.asked, here, by rw [move, waits, if_neg Bool.false_ne_true]⟩
    | freed =>
        rcases (freed_step bits ready).mp now with ⟨here, free⟩ | ⟨here, done⟩
        · exact .inl ⟨.shown, here, by rw [move, free, if_neg Bool.false_ne_true]⟩
        · exact .inl ⟨.asked, here, by rw [move, done, if_pos rfl]⟩
  · rintro (⟨r, here, goes⟩ | ⟨new, rfl⟩)
    · cases r with
      | inside =>
          rw [move] at goes
          split at goes
          next leaves =>
            obtain rfl := Option.some_inj.mp goes
            rw [Bool.and_eq_true, decide_eq_true_iff] at leaves
            exact leaves
          next stays =>
            obtain rfl := Option.some_inj.mp goes
            change (decide (i.accept = some j) || (b.inside j && !(i.sFinal && decide (i.channel.index = j)))) = true
            rw [Bool.eq_false_iff.mpr stays, show b.inside j = true from here]
            simp
      | shown =>
          rw [move] at goes
          split at goes
          next steal =>
            obtain rfl := Option.some_inj.mp goes
            exact (recorded_step bits ready _).mpr (.inl ⟨here, steal, rfl⟩)
          next free =>
            obtain rfl := Option.some_inj.mp goes
            exact (freed_step bits ready).mpr (.inl ⟨here, Bool.eq_false_iff.mpr free⟩)
      | recorded x =>
          rw [move] at goes
          split at goes
          next atom =>
            obtain rfl := Option.some_inj.mp goes
            rw [Bool.and_eq_true, decide_eq_true_iff] at atom
            obtain ⟨atom, rfl⟩ := atom
            exact (asked_step ready).mpr (.inl ⟨here, atom⟩)
          next stays =>
            obtain rfl := Option.some_inj.mp goes
            rw [Bool.and_eq_true, decide_eq_true_iff] at stays
            exact (recorded_step bits ready x).mpr (.inr ⟨here, stays⟩)
      | asked =>
          rw [move] at goes
          split at goes
          next done =>
            obtain rfl := Option.some_inj.mp goes
            exact (freed_step bits ready).mpr (.inr ⟨here, done⟩)
          next waits =>
            obtain rfl := Option.some_inj.mp goes
            exact (asked_step ready).mpr (.inr ⟨here, Bool.eq_false_iff.mpr waits⟩)
      | freed => exact absurd goes.symm (Option.some_ne_none q)
    · change (decide (i.accept = some j) || (b.inside j && !(i.sFinal && decide (i.channel.index = j)))) = true
      rw [decide_eq_true new, Bool.true_or]

/-- A held slot is in exactly one place, one that is not held in none. -/
def Placed (m : Main v c g) (b : Book v g) (j : BitVec g) : Prop :=
  if b.held j then ∃! q, At m b j q else ∀ q, ¬At m b j q

theorem placed_step (bits : 0 < c) (ready : Ready s b p) (fair : Fair s.main b i) (placed : Placed s.main b j) :
    Placed (s.main.step s.bus i) (b.tick s.main i) j := by
  have held : (b.tick s.main i).held j =
      (decide (i.accept = some j) || (b.held j && !(s.main.rFreeStb && decide (s.main.rFreeIdx = j)))) := rfl
  have freed : At s.main b j .freed ↔ (s.main.rFreeStb && decide (s.main.rFreeIdx = j)) = true := by
    rw [Bool.and_eq_true, decide_eq_true_iff]
    rfl
  rw [Placed] at placed ⊢
  simp only [at_step bits ready fair]
  cases before : b.held j with
  | false =>
      rw [before, if_neg Bool.false_ne_true] at placed
      rw [held, before, Bool.false_and, Bool.or_false]
      by_cases new : i.accept = some j
      · rw [decide_eq_true new, if_pos rfl]
        refine ⟨.inside, .inr ⟨new, rfl⟩, ?_⟩
        rintro q (⟨r, here, -⟩ | ⟨-, rfl⟩)
        · exact absurd here (placed r)
        · rfl
      · rw [decide_eq_false new, if_neg Bool.false_ne_true]
        rintro q (⟨r, here, -⟩ | ⟨now, -⟩)
        · exact placed r here
        · exact new now
  | true =>
      rw [before, if_pos rfl] at placed
      obtain ⟨r, here, only⟩ := placed
      by_cases leaves : r = .freed
      · subst leaves
        have gone : ∀ q, ¬∃ r, At s.main b j r ∧ move s.main i j r = some q := by
          rintro q ⟨r, there, goes⟩
          obtain rfl := only r there
          exact absurd goes.symm (Option.some_ne_none q)
        rw [held, before, freed.mp here]
        by_cases new : i.accept = some j
        · rw [decide_eq_true new, Bool.true_or, if_pos rfl]
          refine ⟨.inside, .inr ⟨new, rfl⟩, ?_⟩
          rintro q (there | ⟨-, rfl⟩)
          · exact absurd there (gone q)
          · rfl
        · rw [decide_eq_false new]
          rintro q (there | ⟨now, -⟩)
          · exact gone q there
          · exact new now
      · have stays : ¬At s.main b j .freed := fun there => leaves (only .freed there).symm
        have old : i.accept ≠ some j := by
          intro new
          rcases (fair.accept j new).2 with free | there
          · rw [before] at free
            exact absurd free.symm Bool.false_ne_true
          · exact stays there
        rw [held, before, Bool.eq_false_iff.mpr (mt freed.mpr stays), Bool.not_false, Bool.and_true, Bool.or_true,
          if_pos rfl]
        obtain ⟨q, goes⟩ : ∃ q, move s.main i j r = some q := by
          cases r with
          | inside => exact ⟨_, (apply_ite some _ _ _).symm⟩
          | shown => exact ⟨_, (apply_ite some _ _ _).symm⟩
          | recorded x => exact ⟨_, (apply_ite some _ _ _).symm⟩
          | asked => exact ⟨_, (apply_ite some _ _ _).symm⟩
          | freed => exact absurd rfl leaves
        refine ⟨q, .inl ⟨r, here, goes⟩, ?_⟩
        rintro q' (⟨r', there, goes'⟩ | ⟨now, -⟩)
        · obtain rfl := only r' there
          exact Option.some_inj.mp (goes'.symm.trans goes)
        · exact absurd now old

end Places

/-! ### The counts and the answers -/

/-- An error that is being counted. -/
def pending (m : Main v c g) (x : BitVec (v + 2)) : Nat := (m.rBusy && decide (m.rRidx = x)).toNat

/-- The count of an entry is the number of its errors, as far as it goes. -/
def Counted (m : Main v c g) (b : Book v g) (x : BitVec (v + 2)) : Prop :=
  pending m x ≤ b.errors x ∧ (m.count x).toNat = min (b.errors x - pending m x) (2 ^ c - 1)

/-- The entry that was read for a request is the one it is about. -/
def Aimed (m : Main v c g) : Prop := m.sReqIdx = true → m.rRidx = m.request

theorem counted_step {s : State v c g} {b : Book v g} {p : Fin 13} {i : In v g} (bits : 0 < c) (ready : Ready s b p)
    (aimed : Aimed s.main) {x : BitVec (v + 2)} (counted : Counted s.main b x) :
    Counted (s.main.step s.bus i) (b.tick s.main i) x := by
  have count : (s.main.step s.bus i).count x = if (s.main.rBusy || s.main.sAtomFree) && decide (s.main.rRidx = x) then
      (if s.main.rBusy then fIncrement s.main.sCountO else 0) else s.main.count x := by
    rw [Main.count, memory_step ready.safe, apply_ite (BitVec.extractLsb' g c), sDataI_count]
    rfl
  have next : pending (s.main.step s.bus i) x = (i.sBusy && decide (i.entry = x)).toNat := by
    change (i.sBusy && decide (s.main.sRidx i = x)).toNat = _
    rw [Main.sRidx]
    cases i.sBusy with
    | false => rfl
    | true => rfl
  have errors : (b.tick s.main i).errors x =
      (if s.main.sAtomFree && decide (s.main.request = x) then 0 else b.errors x) +
        pending (s.main.step s.bus i) x := by
    rw [next]
    rfl
  obtain ⟨early, value⟩ := counted
  refine ⟨by rw [errors]; exact Nat.le_add_left _ _, ?_⟩
  rw [errors, Nat.add_sub_cancel, count]
  cases busy : s.main.rBusy with
  | true =>
      have still : s.main.sAtomFree = false := by
        rw [Main.sAtomFree, Main.sReqIdx, busy, Bool.not_true, Bool.and_false, Bool.false_and]
      rw [pending, busy, Bool.true_and] at early value
      rw [still, Bool.false_and, if_neg Bool.false_ne_true, Bool.or_false, Bool.true_and]
      by_cases here : s.main.rRidx = x
      · rw [decide_eq_true here, Bool.toNat_true] at early value
        rw [decide_eq_true here, if_pos rfl, if_pos rfl, fIncrement_toNat bits, sCountO_eq ready, here, value]
        omega
      · rw [decide_eq_false here, Bool.toNat_false, Nat.sub_zero] at value
        rw [decide_eq_false here, if_neg Bool.false_ne_true, value]
  | false =>
      rw [pending, busy, Bool.false_and, Bool.toNat_false, Nat.sub_zero] at value
      cases atom : s.main.sAtomFree with
      | false => exact value
      | true =>
          have same : s.main.rRidx = s.main.request := by
            rw [Main.sAtomFree, Bool.and_eq_true] at atom
            exact aimed atom.1
          rw [same, Bool.false_or, Bool.true_and]
          by_cases here : s.main.request = x
          · rw [decide_eq_true here, if_pos rfl, if_pos rfl]
            simp
          · rw [decide_eq_false here, if_neg Bool.false_ne_true, if_neg Bool.false_ne_true, value]

theorem aimed_step {s : State v c g} {p : Fin 13} (shake : Shake s p) (i : In v g) (e : Option (ReqIn v)) :
    Aimed (s.step (some i, e)).main := by
  intro now
  have next := (shake_step shake (some i, e)).sReqIdx
  have phase : ∀ (q : Fin 13) (a b d f h : Bool), nextPhase q true a b d f h = 5 → q ≠ 3 := by decide
  rw [next, Bool.and_eq_true, decide_eq_true_iff, Bool.not_eq_true'] at now
  have idle : i.sBusy = false := now.2
  have still : s.main.sReqRok = false := by
    rw [shake.sReqRok]
    exact decide_eq_false (phase _ _ _ _ _ _ now.1)
  change s.main.sRidx i = (if s.main.sReqRok then s.bus.rsReqNum else s.main.rcReqNum) ++
    (if s.main.sReqRok then s.bus.rsReqType else s.main.rcReqType)
  rw [Main.sRidx, idle, still]
  rfl

/-- What a request with field 11 has read, on its way to the bus. -/
def Answered (s : State v c g) (b : Book v g) (p : Fin 13) : Prop :=
  6 ≤ p → s.main.rcReqField = 11 →
    s.main.rReqCnt.toNat = min b.asked (2 ^ c - 1) ∧ (8 ≤ p → s.main.rcReqDat = s.main.rReqCnt.setWidth 32) ∧
      (p = 12 → s.bus.rsReqDat = s.main.rReqCnt.setWidth 32)

theorem phase_bounds : ∀ (q : Fin 13) (clk req a d f h : Bool), let q' := nextPhase q clk req a d f h
    (6 ≤ q' → (q = 5 ∧ clk = true ∧ d = false) ∨ 6 ≤ q) ∧ (8 ≤ q' → (q = 7 ∧ clk = true ∧ f = true) ∨ 8 ≤ q) ∧
      (q' = 12 → (q = 11 ∧ req = true) ∨ (q = 12 ∧ req = false)) := by
  decide

/-- The bus keeps the answer it has. -/
theorem answer_kept {s : State v c g} {p : Fin 13} (shake : Shake s p) {e : Option (ReqIn v)}
    (last : (p = 11 ∧ e.isSome = true) ∨ (p = 12 ∧ e.isSome = false)) {dat : BitVec 32}
      (ready : s.main.rcReqDat = dat)
    (shown : p = 12 → s.bus.rsReqDat = dat) : ((e.map (s.bus.step s.main)).getD s.bus).rsReqDat = dat := by
  match e, last with
  | none, .inr ⟨here, _⟩ => exact shown here
  | some j, .inl ⟨here, _⟩ =>
      change (if s.bus.sReqOok then s.main.rcReqDat else s.bus.rsReqDat) = dat
      rw [shake.sReqOok, here]
      exact ready

theorem answered_step {s : State v c g} {b : Book v g} {p : Fin 13} (shake : Shake s p) (answered : Answered s b p)
    (reads : s.main.sAtomFree = true → s.main.sCountO.toNat = min (b.errors s.main.request) (2 ^ c - 1))
      (e : Edge v g) :
    Answered (s.step e) (b.next s e) (phaseAfter s p e) := by
  obtain ⟨six, eight, twelve⟩ := phase_bounds p e.1.isSome e.2.isSome ((e.2.map (·.stb)).getD false) s.main.rBusy
    ((e.1.map s.main.sReqVal).getD false) s.main.rFinal
  intro late field
  obtain ⟨clk, e⟩ := e
  cases clk with
  | none =>
      have before : 6 ≤ p := (six late).resolve_left fun now => Bool.false_ne_true now.2.1
      obtain ⟨cnt, dat, shown⟩ := answered before field
      refine ⟨cnt, fun later => ?_, fun last => ?_⟩
      · exact dat ((eight later).resolve_left fun now => Bool.false_ne_true now.2.1)
      · have place := twelve last
        exact answer_kept shake place (dat (by rcases place with ⟨rfl, -⟩ | ⟨rfl, -⟩ <;> decide)) shown
  | some i =>
      have rest : p ≠ 3 := by
        rintro rfl
        rcases six late with ⟨wrong, -⟩ | wrong
        · exact absurd wrong (by decide)
        · exact absurd wrong (by decide)
      have still : s.main.sReqRok = false := by
        rw [shake.sReqRok]
        exact decide_eq_false rest
      have same : s.main.rcReqField = 11 := by
        change (if s.main.sReqRok then s.bus.rsReqField else s.main.rcReqField) = 11 at field
        rw [still] at field
        exact field
      rcases six late with ⟨rfl, -, idle⟩ | before
      · have idx : s.main.sReqIdx = true := by
          rw [shake.sReqIdx, idle]
          rfl
        have atom : s.main.sAtomFree = true := by
          rw [Main.sAtomFree, idx, errorField_eq, decide_eq_true same]
          rfl
        refine ⟨?_, fun later => ?_, fun last => ?_⟩
        · change (if s.main.sReqIdx then s.main.sCountO else s.main.rReqCnt).toNat =
            min (if s.main.sAtomFree then b.errors s.main.request else b.asked) (2 ^ c - 1)
          rw [idx, atom]
          exact reads atom
        · rcases eight later with ⟨wrong, -⟩ | wrong
          · exact absurd wrong (by decide)
          · exact absurd wrong (by decide)
        · rcases twelve last with ⟨wrong, -⟩ | ⟨wrong, -⟩
          · exact absurd wrong (by decide)
          · exact absurd wrong (by decide)
      · obtain ⟨cnt, dat, shown⟩ := answered before same
        have idx : s.main.sReqIdx = false := by
          rw [shake.sReqIdx, decide_eq_false (by rintro rfl; exact absurd before (by decide)), Bool.false_and]
        have atom : s.main.sAtomFree = false := by
          rw [Main.sAtomFree, idx, Bool.false_and]
        have count : (s.step (some i, e)).main.rReqCnt = s.main.rReqCnt := by
          change (if s.main.sReqIdx then s.main.sCountO else s.main.rReqCnt) = _
          rw [idx]
          rfl
        rw [count]
        refine ⟨?_, fun later => ?_, fun last => ?_⟩
        · change _ = min (if s.main.sAtomFree then b.errors s.main.request else b.asked) (2 ^ c - 1)
          rw [atom]
          exact cnt
        · change (if s.main.sReqDok i then s.main.sReqDat i else s.main.rcReqDat) = _
          rw [shake.sReqDok]
          rcases eight later with ⟨rfl, -, val⟩ | there
          · have val : s.main.sReqVal i = true := val
            rw [val, Main.sReqDat, same]
            rfl
          · rw [decide_eq_false (by rintro rfl; exact absurd there (by decide)), Bool.false_and,
            if_neg Bool.false_ne_true]
            exact dat there
        · have place := twelve last
          exact answer_kept shake place (dat (by rcases place with ⟨rfl, -⟩ | ⟨rfl, -⟩ <;> decide)) shown

/-! ### Whole runs -/

structure Running (s : State v c g) (b : Book v g) (p : Fin 13) : Prop extends Ready s b p where
  placed : ∀ j, Placed s.main b j
  counted : ∀ x, Counted s.main b x
  aimed : Aimed s.main
  answered : Answered s b p

/-- While the table is wiped, nothing comes in or goes out, and no request has got past its entry with field 11. -/
structure Wiping (s : State v c g) (b : Book v g) (p : Fin 13) : Prop where
  shake : Shake s p
  rest : s.main.rWipe.toNat < 2 ^ (v + 2)
  cells : ∀ x : BitVec (v + 2), x.toNat < s.main.rWipe.toNat → s.main.count x = 0
  busy : s.main.rBusy = false
  final : s.main.rFinal = false
  free : s.main.rFreeStb = false
  quiet : 6 ≤ p → s.main.rcReqField ≠ 11
  aimed : Aimed s.main
  held : ∀ j, b.held j = false
  inside : ∀ j, b.inside j = false
  errors : ∀ x, b.errors x = 0

def stepBoth (x : State v c g × Book v g) (e : Edge v g) : State v c g × Book v g := (x.1.step e, x.2.next x.1 e)

/-- The promises of eca_tag_channel at an edge of `clk_i`; and no request reads an entry with field 11 before the table
has been wiped. -/
def Allowed (x : State v c g × Book v g) (e : Edge v g) : Prop :=
  ∀ i, e.1 = some i → Fair x.1.main x.2 i ∧ (x.1.main.sAtomFree = true → x.1.main.sSafe = true)

section Runs

variable {s : State v c g} {b : Book v g} {p : Fin 13}

theorem reads_count (ready : Ready s b p) (aimed : Aimed s.main) (counted : ∀ x, Counted s.main b x)
    (atom : s.main.sAtomFree = true) : s.main.sCountO.toNat = min (b.errors s.main.request) (2 ^ c - 1) := by
  rw [Main.sAtomFree, Bool.and_eq_true] at atom
  have idle : s.main.rBusy = false := by
    have idx := atom.1
    rw [Main.sReqIdx, Bool.and_eq_true, Bool.not_eq_true'] at idx
    exact idx.2
  have value := (counted s.main.request).2
  rw [pending, idle, Bool.false_and, Bool.toNat_false, Nat.sub_zero] at value
  rw [sCountO_eq ready, aimed atom.1, value]

theorem safe_step (safe : s.main.sSafe = true) (i : In v g) : (s.main.step s.bus i).sSafe = true := by
  have same : (s.main.step s.bus i).rWipe = s.main.rWipe := by
    simp only [Main.step, safe]
    simp
  rw [Main.sSafe, same]
  exact safe

theorem running_step (bits : 0 < c) (running : Running s b p) {e : Edge v g} (allowed : Allowed (s, b) e) :
    Running (s.step e) (b.next s e) (phaseAfter s p e) := by
  have shake := shake_step running.shake e
  have answered := answered_step running.shake running.answered
    (reads_count running.toReady running.aimed running.counted) e
  match e with
  | (none, e) => exact ⟨⟨shake, running.safe, running.data, running.busy⟩, running.placed, running.counted,
    running.aimed, answered⟩
  | (some i, e) =>
      have fair := (allowed i rfl).1
      have busy : i.sBusy = true → i.sFinal = true := by
        intro now
        rw [In.sBusy, Bool.and_eq_true] at now
        exact now.2
      exact ⟨⟨shake, safe_step running.safe i, data_step, busy⟩,
        fun j => placed_step bits running.toReady fair (running.placed j),
        fun x => counted_step bits running.toReady running.aimed (running.counted x), aimed_step running.shake i e,
          answered⟩

theorem not_safe (rest : s.main.rWipe.toNat < 2 ^ (v + 2)) : s.main.sSafe = false := by
  rw [Main.sSafe, BitVec.msb_eq_decide]
  exact decide_eq_false (by simpa using rest)

/-- One more entry is wiped. -/
theorem wiping_cells (wiping : Wiping s b p) (i : In v g) {x : BitVec (v + 2)} (done : x.toNat ≤ s.main.rWipe.toNat) :
    (s.main.step s.bus i).count x = 0 := by
  have stalled := not_safe wiping.rest
  have wen : s.main.sWen = true := by rw [Main.sWen, stalled, Bool.not_false, Bool.or_true]
  have widx : s.main.sWidx = s.main.rWipe.setWidth (v + 2) := by rw [Main.sWidx, stalled, if_neg Bool.false_ne_true]
  change ((if s.main.sWen then Function.update s.main.saved.memory s.main.sWidx s.main.sDataI
    else s.main.saved.memory) x).extractLsb' g c = 0
  rw [wen, widx, if_pos rfl]
  by_cases here : x = s.main.rWipe.setWidth (v + 2)
  · rw [here, Function.update_self, sDataI_count, wiping.busy]
    rfl
  · rw [Function.update_of_ne here]
    apply wiping.cells
    refine lt_of_le_of_ne done fun same => here (BitVec.eq_of_toNat_eq ?_)
    rw [BitVec.toNat_setWidth, same, Nat.mod_eq_of_lt wiping.rest]

theorem wipe_toNat (rest : s.main.rWipe.toNat < 2 ^ (v + 2)) (i : In v g) :
    (s.main.step s.bus i).rWipe.toNat = s.main.rWipe.toNat + 1 := by
  have one : ((BitVec.ofBool true).setWidth (v + 3)).toNat = 1 := by
    have wide : 2 ^ 1 ≤ 2 ^ (v + 3) := Nat.pow_le_pow_right (by decide) (by omega)
    rw [BitVec.toNat_setWidth]
    exact Nat.mod_eq_of_lt wide
  have bound : s.main.rWipe.toNat + 1 < 2 ^ (v + 3) := by
    rw [Nat.pow_succ]
    omega
  simp only [Main.step, not_safe rest, Bool.not_false]
  rw [BitVec.toNat_add, one, Nat.mod_eq_of_lt bound]

theorem wiping_step (wiping : Wiping s b p) {e : Edge v g} (allowed : Allowed (s, b) e) :
    Wiping (s.step e) (b.next s e) (phaseAfter s p e) ∨ Running (s.step e) (b.next s e) (phaseAfter s p e) := by
  have shake := shake_step wiping.shake e
  have stalled := not_safe wiping.rest
  obtain ⟨six, -, -⟩ := phase_bounds p e.1.isSome e.2.isSome ((e.2.map (·.stb)).getD false) s.main.rBusy
    ((e.1.map s.main.sReqVal).getD false) s.main.rFinal
  obtain ⟨clk, e⟩ := e
  cases clk with
  | none =>
      refine .inl ⟨shake, wiping.rest, wiping.cells, wiping.busy, wiping.final, wiping.free, fun late => ?_,
        wiping.aimed,
        wiping.held, wiping.inside, wiping.errors⟩
      exact wiping.quiet ((six late).resolve_left fun now => Bool.false_ne_true now.2.1)
  | some i =>
      obtain ⟨fair, calm⟩ := allowed i rfl
      have atom : s.main.sAtomFree = false := by
        rw [Bool.eq_false_iff]
        intro now
        exact Bool.false_ne_true (stalled.symm.trans (calm now))
      have final : i.sFinal = false := by
        rw [Bool.eq_false_iff]
        intro now
        exact Bool.false_ne_true ((wiping.inside _).symm.trans (fair.output now))
      have busy : i.sBusy = false := by rw [In.sBusy, final, Bool.and_false]
      have accept : ∀ j, i.accept ≠ some j := fun j new => Bool.false_ne_true
        (stalled.symm.trans (fair.accept j new).1)
      have quiet : 6 ≤ phaseAfter s p (some i, e) → (s.step (some i, e)).main.rcReqField ≠ 11 := by
        intro late field
        change (if s.main.sReqRok then s.bus.rsReqField else s.main.rcReqField) = 11 at field
        have rest : ¬p = 3 := by
          rintro rfl
          rcases six late with ⟨wrong, -⟩ | wrong
          · exact absurd wrong (by decide)
          · exact absurd wrong (by decide)
        rw [wiping.shake.sReqRok, decide_eq_false rest, if_neg Bool.false_ne_true] at field
        rcases six late with ⟨rfl, -, idle⟩ | before
        · have now : s.main.sAtomFree = true := by
            rw [Main.sAtomFree, wiping.shake.sReqIdx, idle, errorField_eq, decide_eq_true field]
            rfl
          exact Bool.false_ne_true (atom.symm.trans now)
        · exact wiping.quiet before field
      have free : s.main.sFreeStb = false := by
        rw [Main.sFreeStb, wiping.final, Bool.false_and, Bool.false_or, Main.sLateFree, wiping.shake.sReqAck,
          errorField_eq]
        by_cases eight : p = 8
        · rw [decide_eq_false (wiping.quiet (by rw [eight]; decide)), Bool.and_false, Bool.false_and]
        · rw [decide_eq_false eight, Bool.false_and, Bool.false_and, Bool.false_and]
      have held : ∀ j, (b.tick s.main i).held j = false := by
        intro j
        change (decide (i.accept = some j) || (b.held j && _)) = false
        rw [decide_eq_false (accept j), wiping.held, Bool.false_and, Bool.false_or]
      have inside : ∀ j, (b.tick s.main i).inside j = false := by
        intro j
        change (decide (i.accept = some j) || (b.inside j && _)) = false
        rw [decide_eq_false (accept j), wiping.inside, Bool.false_and, Bool.false_or]
      have errors : ∀ x, (b.tick s.main i).errors x = 0 := by
        intro x
        change (if s.main.sAtomFree && _ then 0 else b.errors x) + (i.sBusy && _).toNat = 0
        rw [atom, busy, wiping.errors]
        rfl
      have wipe := wipe_toNat wiping.rest i
      have aimed := aimed_step wiping.shake i e
      by_cases more : s.main.rWipe.toNat + 1 < 2 ^ (v + 2)
      · left
        exact ⟨shake, wipe ▸ more, fun x below => wiping_cells wiping i
          (by change x.toNat < (s.main.step s.bus i).rWipe.toNat at below; omega),
          busy, final, free, quiet, aimed, held, inside, errors⟩
      · right
        have last : s.main.rWipe.toNat + 1 = 2 ^ (v + 2) := by
          have rest := wiping.rest
          omega
        have empty : ∀ x, (s.main.step s.bus i).count x = 0 := fun x =>
          wiping_cells wiping i (by have := x.isLt; omega)
        have safe : (s.main.step s.bus i).sSafe = true := by
          rw [Main.sSafe, BitVec.msb_eq_decide, wipe, last]
          exact decide_eq_true le_rfl
        refine ⟨⟨shake, safe, data_step, fun now => absurd (busy.symm.trans now) Bool.false_ne_true⟩, ?_, ?_, aimed,
          ?_⟩
        · intro j
          rw [Placed, show (b.next s (some i, e)).held j = false from held j, if_neg Bool.false_ne_true]
          intro q there
          cases q with
          | inside => exact Bool.false_ne_true ((inside j).symm.trans there)
          | shown => exact Bool.false_ne_true (final.symm.trans there.1)
          | recorded x => exact there.1 (empty x)
          | asked =>
              obtain ⟨aok, ack, field, -, -⟩ := there
              have past : ∀ q : Fin 13, decide (q < 4 ∨ 6 ≤ q) = true → decide (q < 4 ∨ 9 ≤ q) = false → 6 ≤ q :=
                by decide
              exact quiet (past _ (shake.aok.symm.trans aok) (shake.ack.symm.trans ack)) field
          | freed => exact Bool.false_ne_true (free.symm.trans there.1)
        · intro x
          have none : pending (s.step (some i, e)).main x = 0 := by
            change (i.sBusy && _).toNat = 0
            rw [busy]
            rfl
          refine ⟨by rw [none]; exact Nat.zero_le _, ?_⟩
          rw [none, show (b.next s (some i, e)).errors x = 0 from errors x, show (s.step (some i, e)).main.count x =
            0 from empty x]
          simp
        · exact fun late field => absurd field (quiet late)

/-- The state of a run. -/
def Kept (x : State v c g × Book v g) : Prop := ∃ p, Wiping x.1 x.2 p ∨ Running x.1 x.2 p

theorem kept_step (bits : 0 < c) {x : State v c g × Book v g} {e : Edge v g} (kept : Kept x) (allowed : Allowed x e) :
    Kept (stepBoth x e) := by
  obtain ⟨p, wiping | running⟩ := kept
  · exact ⟨_, wiping_step wiping allowed⟩
  · exact ⟨_, .inr (running_step bits running allowed)⟩

/-- The book after the reset. -/
def Book.start : Book v g where
  held _ := false
  inside _ := false
  errors _ := 0
  asked := 0

theorem kept_reset (reset : AfterReset s) : Kept (s, Book.start) := by
  obtain ⟨wipe, free, busy, final, ⟨x2, x3, x4, x5⟩, ⟨rok, aok, sok, dok, ack⟩, old, ⟨x1, x6, x7, x8⟩, out⟩ := reset
  have zero : s.main.rWipe.toNat = 0 := by
    rw [wipe]
    rfl
  have shake : Shake s 0 := by
    constructor
    · exact old
    · rw [x1, x2]; rfl
    · rw [x2, x3]; rfl
    · rw [x3, x4]; rfl
    · exact rok
    · exact aok
    · exact sok
    · exact dok
    · exact ack
    · rw [x5, x6]; rfl
    · rw [x6, x7]; rfl
    · rw [x7, x8]; rfl
    · exact out
  refine ⟨0, .inl ⟨shake, zero ▸ Nat.two_pow_pos _, fun x below => ?_, busy, final, free, fun late => ?_,
    fun now => ?_,
    fun _ => rfl, fun _ => rfl, fun _ => rfl⟩⟩
  · have below : x.toNat < s.main.rWipe.toNat := below
    omega
  · exact absurd late (by decide)
  · rw [shake.sReqIdx] at now
    exact absurd now Bool.false_ne_true

/-- A slot that is on its way to `free_i` is held. -/
theorem freed_held {x : State v c g × Book v g} (kept : Kept x) (free : x.1.main.rFreeStb = true) :
    x.2.held x.1.main.rFreeIdx = true := by
  obtain ⟨p, wiping | running⟩ := kept
  · exact absurd (wiping.free.symm.trans free) Bool.false_ne_true
  · have placed := running.placed x.1.main.rFreeIdx
    rw [Placed] at placed
    split at placed
    next held => exact held
    next => exact absurd ⟨free, rfl⟩ (placed .freed)

end Runs

/-- An action is taken into a slot, and the slot is given back at `free_i`. -/
def accepted (j : BitVec g) (_ : State v c g × Book v g) (e : Edge v g) : List Unit :=
  if e.1.any fun i => decide (i.accept = some j) then [()] else []

def freed (j : BitVec g) (x : State v c g × Book v g) (e : Edge v g) : List Unit :=
  if e.1.isSome && x.1.main.rFreeStb && decide (x.1.main.rFreeIdx = j) then [()] else []

theorem held_balanced (j : BitVec g) {x : State v c g × Book v g} {e : Edge v g} (kept : Kept x)
    (allowed : Allowed x e) :
    (if x.2.held j then [()] else []) ++ accepted j x e =
      freed j x e ++ if (stepBoth x e).2.held j then [()] else [] := by
  obtain ⟨clk, req⟩ := e
  cases clk with
  | none =>
      change _ ++ [] = [] ++ if x.2.held j then [()] else []
      rw [List.append_nil, List.nil_append]
  | some i =>
      have fair := ((allowed i rfl).1.accept j)
      have owner : (x.1.main.rFreeStb && decide (x.1.main.rFreeIdx = j)) = true → x.2.held j = true := by
        rw [Bool.and_eq_true, decide_eq_true_iff]
        rintro ⟨free, rfl⟩
        exact freed_held kept free
      change (if x.2.held j then [()] else []) ++ (if decide (i.accept = some j) then [()] else []) =
        (if x.1.main.rFreeStb && decide (x.1.main.rFreeIdx = j) then [()] else []) ++
          if decide (i.accept = some j) ||
            (x.2.held j && !(x.1.main.rFreeStb && decide (x.1.main.rFreeIdx = j))) then [()] else []
      by_cases new : i.accept = some j
      · rcases (fair new).2 with vacant | ⟨free, same⟩
        · cases gone : x.1.main.rFreeStb && decide (x.1.main.rFreeIdx = j) with
          | true =>
              rw [owner gone] at vacant
              exact absurd vacant.symm Bool.false_ne_true
          | false => simp [new, vacant]
        · have gone : (x.1.main.rFreeStb && decide (x.1.main.rFreeIdx = j)) = true := by
            rw [free, decide_eq_true same]
            rfl
          simp [new, gone, owner gone]
      · cases gone : x.1.main.rFreeStb && decide (x.1.main.rFreeIdx = j) with
        | true => simp [new, owner gone]
        | false => simp [new]

/-- Once the table has been wiped, every held slot is in exactly one place and no other slot is in any; a slot is given
back as often as it was taken, less one while it is held; and a request with field 11 is answered with the number of
errors since the last one, as far as the counter goes. -/
theorem slots_accounted (bits : 0 < c) {s : State v c g} (reset : AfterReset s) {edges : List (Edge v g)}
    (allowed : Along stepBoth Allowed (s, Book.start) edges) :
    let x := run stepBoth (s, Book.start) edges
    (x.1.main.sSafe = true → ∀ j, Placed x.1.main x.2 j) ∧
      (∀ j, (collect stepBoth (accepted j) (s, Book.start) edges).length =
        (collect stepBoth (freed j) (s, Book.start) edges).length + (x.2.held j).toNat) ∧
      (x.1.bus.rReqOut = true → x.1.main.rcReqField = 11 →
        x.1.bus.rsReqDat = (BitVec.ofNat c (min x.2.asked (2 ^ c - 1))).setWidth 32) := by
  intro x
  have kept : Kept x := allowed.invariant Kept (fun _ _ kept allowed => kept_step bits kept allowed)
    (kept_reset reset)
  refine ⟨fun safe => ?_, fun j => ?_, fun out field => ?_⟩
  · obtain ⟨p, wiping | running⟩ := kept
    · exact absurd ((not_safe wiping.rest).symm.trans safe) Bool.false_ne_true
    · exact running.placed
  · have sum := allowed.conserves Kept (fun x => if x.2.held j then [()] else []) (accepted j) (freed j)
      (fun _ _ kept allowed => kept_step bits kept allowed) (fun _ _ kept allowed => held_balanced j kept allowed)
      (kept_reset reset)
    have lengths := congrArg List.length sum
    rw [List.length_append, List.length_append, show (Book.start : Book v g).held j = false from rfl] at lengths
    change 0 + _ = _ + (if x.2.held j then [()] else []).length at lengths
    rw [Nat.zero_add] at lengths
    rw [lengths]
    cases x.2.held j with
    | false => rfl
    | true => rfl
  · obtain ⟨p, wiping | running⟩ := kept
    · have last := wiping.shake.out.symm.trans out
      rw [decide_eq_true_iff] at last
      exact absurd field (wiping.quiet (by rw [last]; decide))
    · have last := running.shake.out.symm.trans out
      rw [decide_eq_true_iff] at last
      obtain ⟨cnt, -, shown⟩ := running.answered (by rw [last]; decide) field
      rw [shown last, ← cnt, BitVec.ofNat_toNat, BitVec.setWidth_eq]

instance (m : Main v c g) (b : Book v g) (i : In v g) : Decidable (Fair m b i) :=
  decidable_of_iff ((i.sFinal = true → b.inside i.channel.index = true) ∧
    ∀ j, i.accept = some j → m.sSafe = true ∧ (b.held j = false ∨ (m.rFreeStb = true ∧ m.rFreeIdx = j)))
    ⟨fun both => ⟨both.1, both.2⟩, fun fair => ⟨fair.output, fair.accept⟩⟩

instance (x : State v c g × Book v g) (e : Edge v g) : Decidable (Allowed x e) :=
  decidable_of_iff (∀ i ∈ e.1, Fair x.1.main x.2 i ∧ (x.1.main.sAtomFree = true → x.1.main.sSafe = true)) Iff.rfl

/-- Registers after the reset, with what the table happens to hold. -/
def fresh (v c g : Nat) (memory : BitVec (v + 2) → BitVec (64 + c + g)) : State v c g where
  main :=
    { rWipe := 0, saved := ⟨memory, 0, false, 0⟩, rRidx := 0, rIndex := 0, rFreeStb := false, rFreeIdx := 0,
      rBusy := false
      rFinal := false, rHold := false, rTime := 0, rReqXor2 := false, rReqXor3 := false, rReqXor4 := false
      rReqXor5 := false, rReqRok := true, rReqAok := true, rReqSok := true, rReqDok := true, rReqAck := true
      rcReqNum := 0, rcReqType := 0, rcReqField := 0, rReqIdx := 0, rReqCnt := 0, rReqTime := 0, rcReqDat := 0 }
  bus :=
    { rReqOld := false, rReqXor1 := false, rsReqNum := 0, rsReqType := 0, rsReqField := 0, rReqXor6 := false
      rReqXor7 := false, rReqXor8 := false, rReqOut := false, rsReqDat := 0 }

theorem fresh_reset (memory : BitVec (v + 2) → BitVec (64 + c + g)) : AfterReset (fresh v c g memory) :=
  ⟨rfl, rfl, rfl, rfl, ⟨rfl, rfl, rfl, rfl⟩, ⟨rfl, rfl, rfl, rfl, rfl⟩, rfl, ⟨rfl, rfl, rfl, rfl⟩, rfl⟩

/-- Edges of `clk_i`: one with nothing, one with an action taken into slot 1, and one with that action shown late. -/
def quietEdge : Edge 1 1 := (some ⟨⟨false, false, false, false, false, 0, 0⟩, false, 0, true, 0, none⟩, none)

def acceptEdge : Edge 1 1 := (some ⟨⟨false, false, false, false, false, 0, 0⟩, false, 0, true, 0, some 1⟩, none)

def lateEdge : Edge 1 1 := (some ⟨⟨false, false, false, true, false, 1, 1⟩, false, 0, true, 0, none⟩, none)

/-- Edges of `req_clk_i`: a request for the late actions of number 1 with field 11, and one with nothing. -/
def askEdge : Edge 1 1 := (none, some ⟨true, 1, 0, 11⟩)

def waitEdge : Edge 1 1 := (none, some ⟨false, 0, 0, 0⟩)

/-- A late action is counted and asked for. -/
def oneLate : List (Edge 1 1) :=
  List.replicate 8 quietEdge ++ [acceptEdge, lateEdge, quietEdge, askEdge] ++ List.replicate 8 quietEdge ++
    List.replicate 3 waitEdge

set_option maxRecDepth 4000 in
theorem slots_accounted_late :
    (run stepBoth (fresh 1 2 1 fun _ => 0, Book.start) oneLate).1.bus.rsReqDat = 1 := by
  have allowed : Along stepBoth Allowed (fresh 1 2 1 fun _ => 0, Book.start) oneLate := by decide
  obtain ⟨-, -, answer⟩ := slots_accounted (by decide) (fresh_reset fun _ => 0) allowed
  have out : (run stepBoth (fresh 1 2 1 fun _ => 0, Book.start) oneLate).1.bus.rReqOut = true ∧
      (run stepBoth (fresh 1 2 1 fun _ => 0, Book.start) oneLate).1.main.rcReqField = 11 ∧
      (run stepBoth (fresh 1 2 1 fun _ => 0, Book.start) oneLate).2.asked = 1 := by decide
  have shown := answer out.1 out.2.1
  rw [out.2.2] at shown
  exact shown

set_option maxRecDepth 4000 in
/-- A request right after the reset finds an entry that is not wiped yet and gives its slot back, though no action was
taken; and with a counter of no bits a request for nothing gives a slot back. -/
theorem slot_freed_unheld :
    (collect stepBoth (freed 1) (fresh 1 1 1 fun _ => 3, Book.start) ([askEdge] ++ List.replicate 9 quietEdge) =
      [()] ∧
      collect stepBoth (accepted 1) (fresh 1 1 1 fun _ => 3, Book.start) ([askEdge] ++ List.replicate 9 quietEdge) =
        []) ∧
    collect stepBoth (freed 0) (fresh 1 0 1 fun _ => 0, Book.start)
      (List.replicate 8 quietEdge ++ [askEdge] ++ List.replicate 9 quietEdge) = [()] ∧
      collect stepBoth (accepted 0) (fresh 1 0 1 fun _ => 0, Book.start)
        (List.replicate 8 quietEdge ++ [askEdge] ++ List.replicate 9 quietEdge) = [] := by
  decide

end WrCores.Eca.Channel
