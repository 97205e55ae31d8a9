import WrCores.TbiPhy.Codes

/-!
The encoder and the decoder over whole streams, and the disparity functions of disparity_gen_pkg.vhd. The
encoder starts with the negative running disparity and the decoder with the positive one: the first
unbalanced group brings them together, and one inverted bit parts them until the next one.
-/

namespace WrCores.TbiPhy

open Clocked

/-- `f_next_8b10b_disparity8`. -/
def fNext8b10bDisparity8 (curDisp : Disparity) (ctrl : Bool) (data : BitVec 8) : Disparity :=
  let dp4bit := cDisPar4b.getMsbD (data.extractLsb' 5 3).toNat
  let dp6bit := cDisPar6b.getMsbD (data.extractLsb' 0 5).toNat
  let newDisp :=
    match curDisp with
    | .rdMinus => if (ctrl ^^ dp6bit ^^ dp4bit) = true then .rdPlus else curDisp
    | .rdPlus => if (ctrl ^^ dp6bit ^^ dp4bit) = true then .rdMinus else curDisp
  if data.extractLsb' 0 2 ≠ 0 ∧ ctrl = true then curDisp else newDisp

/-- `f_next_8b10b_disparity16`. -/
def fNext8b10bDisparity16 (curDisp : Disparity) (ctrl : BitVec 2) (data : BitVec 16) : Disparity :=
  let tmp := fNext8b10bDisparity8 curDisp (ctrl.getLsbD 1) (data.extractLsb' 8 8)
  fNext8b10bDisparity8 tmp (ctrl.getLsbD 0) (data.extractLsb' 0 8)

/-- The disparity of the bits of the groups, from the negative one on. -/
def bitDisparity (groups : List (BitVec 10)) : ℤ := -1 + (groups.map fun x => 2 * (ones x : ℤ) - 10).sum

/-- The decoder reports an error on group `i`. -/
def Alarm (marks : List Mark) (i : Nat) : Prop :=
  ∃ mark, marks[i]? = some mark ∧ (mark.codeErr = true ∨ mark.rdispErr = true)

namespace LineCode

open Codes

/-- The output register, the group of the input register and the groups of the inputs. -/
theorem collect_enc (s : Enc) (symbols : List Symbol) (next afterNext : Symbol) :
    collect Enc.step (fun s _ => [s.out10bReg]) s (symbols ++ [next, afterNext]) =
      s.out10bReg :: Enc.groups s.runDisp (s.symbol :: symbols) := by
  induction symbols generalizing s with
  | nil => rfl
  | cons symbol rest ih =>
      rw [List.cons_append, collect_cons, ih]
      rfl

theorem sent_eq (symbols : List Symbol) (next afterNext : Symbol) :
    Enc.sent symbols next afterNext = Enc.groups .rdMinus symbols := by
  rw [Enc.sent, collect_enc]
  rfl

theorem collect_dec (s : Dec) (groups : List (BitVec 10)) (next afterNext : BitVec 10) :
    collect Dec.step (fun s _ => [s.outReg]) s (groups ++ [next, afterNext]) =
      s.outReg :: s.in10b.mark s.runDisp :: Dec.marks (s.in10b.nextDisp s.runDisp) groups := by
  induction groups generalizing s with
  | nil => rfl
  | cons group rest ih =>
      rw [List.cons_append, collect_cons, ih]
      rfl

theorem received_eq (groups : List (BitVec 10)) (next afterNext : BitVec 10) :
    Dec.received groups next afterNext = Dec.marks .rdPlus groups := by
  rw [Dec.received, collect_dec]
  rfl

theorem run_enc (s : Enc) (symbols : List Symbol) (next : Symbol) :
    (run Enc.step s (symbols ++ [next])).runDisp = Enc.disparityAfter s.runDisp (s.symbol :: symbols) := by
  induction symbols generalizing s with
  | nil => rfl
  | cons symbol rest ih =>
      rw [List.cons_append, run_cons, ih]
      rfl

/-- `s_RunDisp` when the group of the last symbol is at the output. -/
theorem runDisp_eq (symbols : List Symbol) (next : Symbol) :
    (run Enc.step {} (symbols ++ [next])).runDisp = Enc.disparityAfter .rdMinus symbols := by
  rw [run_enc]
  rfl

theorem take_groups (rd : Disparity) (symbols : List Symbol) (k : Nat) :
    (Enc.groups rd symbols).take k = Enc.groups rd (symbols.take k) := by
  induction symbols generalizing rd k with
  | nil => simp [Enc.groups]
  | cons symbol rest ih =>
      cases k with
      | zero => rfl
      | succ k => simp [Enc.groups, ih]

theorem bits_carried (symbols : List Symbol) (valid : ∀ s ∈ symbols, s.Valid) (rd : Disparity) :
    rd.level + ((Enc.groups rd symbols).map fun x => 2 * (ones x : ℤ) - 10).sum =
      (Enc.disparityAfter rd symbols).level := by
  induction symbols generalizing rd with
  | nil => simp [Enc.groups, Enc.disparityAfter]
  | cons symbol rest ih =>
      rw [List.forall_mem_cons] at valid
      have carried := (sound symbol valid.1 rd).carried
      have later := ih valid.2 (symbol.nextDisp rd)
      simp only [Enc.groups, List.map_cons, List.sum_cons]
      rw [← add_assoc, carried, later]
      rfl

theorem disparity8_eq (s : Symbol) (rd : Disparity) : fNext8b10bDisparity8 rd s.ctrl s.byte = s.nextDisp rd := by
  cases rd <;> rfl

theorem disparity16_eq (high low : Symbol) (rd : Disparity) :
    fNext8b10bDisparity16 rd (BitVec.ofBool high.ctrl ++ BitVec.ofBool low.ctrl) (high.byte ++ low.byte) =
      low.nextDisp (high.nextDisp rd) := by
  have ctrl : ∀ a b : Bool, (BitVec.ofBool a ++ BitVec.ofBool b).getLsbD 1 = a ∧
      (BitVec.ofBool a ++ BitVec.ofBool b).getLsbD 0 = b := by decide
  rw [fNext8b10bDisparity16, (ctrl high.ctrl low.ctrl).1, (ctrl high.ctrl low.ctrl).2,
    BitVec.extractLsb'_append_eq_left, BitVec.extractLsb'_append_eq_right, disparity8_eq, disparity8_eq]

theorem fold8_eq (symbols : List Symbol) (rd : Disparity) :
    symbols.foldl (fun d s => fNext8b10bDisparity8 d s.ctrl s.byte) rd = Enc.disparityAfter rd symbols := by
  simp only [disparity8_eq]
  rfl

theorem fold16_eq (words : List (Symbol × Symbol)) (rd : Disparity) :
    words.foldl (fun d w => fNext8b10bDisparity16 d (BitVec.ofBool w.1.ctrl ++ BitVec.ofBool w.2.ctrl)
      (w.1.byte ++ w.2.byte)) rd = Enc.disparityAfter rd (words.flatMap fun w => [w.1, w.2]) := by
  simp only [disparity16_eq]
  induction words generalizing rd with
  | nil => rfl
  | cons word rest ih =>
      rw [List.foldl_cons, ih]
      rfl

/-- A decoder of any disparity: the symbols come back without a code error. -/
theorem marks_symbols (symbols : List Symbol) (valid : ∀ s ∈ symbols, s.Valid) (rd other : Disparity) :
    (Dec.marks other (Enc.groups rd symbols)).map (fun m => Symbol.mk m.ctrl m.byte) = symbols ∧
      ∀ m ∈ Dec.marks other (Enc.groups rd symbols), m.codeErr = false := by
  induction symbols generalizing rd other with
  | nil => simp [Enc.groups, Dec.marks]
  | cons symbol rest ih =>
      rw [List.forall_mem_cons] at valid
      have fine := sound symbol valid.1 rd
      obtain ⟨same, clean⟩ := ih valid.2 (symbol.nextDisp rd) (Group.nextDisp (symbol.code rd).reverse other)
      refine ⟨?_, ?_⟩
      · simp only [Enc.groups, Dec.marks, List.map_cons, same, Group.mark, fine.ctrl, fine.byte]
      · intro m member
        rw [Enc.groups, Dec.marks, List.mem_cons] at member
        rcases member with rfl | later
        · exact fine.noErr
        · exact clean m later

/-- A decoder of the disparity of the encoder reports nothing. -/
theorem marks_quiet (symbols : List Symbol) (valid : ∀ s ∈ symbols, s.Valid) (rd : Disparity) :
    ∀ m ∈ Dec.marks rd (Enc.groups rd symbols), m.rdispErr = false := by
  induction symbols generalizing rd with
  | nil => simp [Enc.groups, Dec.marks]
  | cons symbol rest ih =>
      rw [List.forall_mem_cons] at valid
      obtain ⟨mark, next⟩ := follows symbol valid.1 rd
      intro m member
      rw [Enc.groups, Dec.marks, List.mem_cons, next, mark] at member
      rcases member with rfl | later
      · rfl
      · exact ih valid.2 _ m later

/-- Behind the first unbalanced group no decoder does. -/
theorem marks_met (symbols : List Symbol) (valid : ∀ s ∈ symbols, s.Valid) (rd other : Disparity)
    {i u : Nat} (before : u < i) {x : BitVec 10} (first : (Enc.groups rd symbols)[u]? = some x)
    (unbalanced : Unbalanced x) {m : Mark} (here : (Dec.marks other (Enc.groups rd symbols))[i]? = some m) :
    m.rdispErr = false := by
  induction symbols generalizing rd other i u with
  | nil => simp [Enc.groups] at first
  | cons symbol rest ih =>
      by_cases apart : other = rd
      · rw [apart] at here
        exact marks_quiet _ valid rd m (List.mem_of_getElem? here)
      · rw [List.forall_mem_cons] at valid
        obtain ⟨i, rfl⟩ : ∃ n, i = n + 1 := ⟨i - 1, by omega⟩
        rw [Enc.groups, Dec.marks, List.getElem?_cons_succ] at here
        rcases meets symbol valid.1 rd other apart with ⟨five, -, -⟩ | ⟨-, -, met⟩
        · cases u with
          | zero =>
              rw [Enc.groups, List.getElem?_cons_zero, Option.some_inj] at first
              exact absurd (first ▸ five) unbalanced
          | succ u =>
              rw [Enc.groups, List.getElem?_cons_succ] at first
              exact ih valid.2 _ _ (Nat.lt_of_succ_lt_succ before) first here
        · rw [met] at here
          exact marks_quiet _ valid.2 _ m (List.mem_of_getElem? here)

theorem alarm_succ {mark : Mark} {marks : List Mark} {i : Nat} (alarm : Alarm marks i) :
    Alarm (mark :: marks) (i + 1) := alarm

theorem alarm_zero {rd : Disparity} {x : Group} {marks : List Mark} (report : x.rdispErr rd = true) :
    Alarm (x.mark rd :: marks) 0 := ⟨x.mark rd, rfl, .inr report⟩

/-- A decoder of the other disparity raises its alarm on the next unbalanced group. -/
theorem alarm_apart (symbols : List Symbol) (valid : ∀ s ∈ symbols, s.Valid) (rd other : Disparity)
    (apart : other ≠ rd) {m : Nat} {x : BitVec 10} (next : (Enc.groups rd symbols)[m]? = some x)
    (unbalanced : Unbalanced x) : ∃ i ≤ m, Alarm (Dec.marks other (Enc.groups rd symbols)) i := by
  induction symbols generalizing m with
  | nil => simp [Enc.groups] at next
  | cons symbol rest ih =>
      rw [List.forall_mem_cons] at valid
      rcases meets symbol valid.1 rd other apart with ⟨five, stays, waits⟩ | ⟨-, report, -⟩
      · cases m with
        | zero =>
            rw [Enc.groups, List.getElem?_cons_zero, Option.some_inj] at next
            exact absurd (next ▸ five) unbalanced
        | succ m =>
            rw [Enc.groups, List.getElem?_cons_succ, stays] at next
            obtain ⟨i, low, alarm⟩ := ih valid.2 next
            refine ⟨i + 1, Nat.succ_le_succ low, ?_⟩
            rw [Enc.groups, Dec.marks, stays, waits]
            exact alarm_succ alarm
      · exact ⟨0, Nat.zero_le m, alarm_zero report⟩

/-- One inverted bit: the alarm at once, or the disparities part. -/
theorem invert_parts (s : Symbol) (valid : s.Valid) (rd : Disparity) (j : Fin 10) :
    Group.rdispErr (invert j (s.code rd)).reverse rd = true ∨
      Group.nextDisp (invert j (s.code rd)).reverse rd ≠ s.nextDisp rd := by
  have count := ones_code s valid rd
  have changed := ones_invert j (s.code rd)
  have report := rdispErr_reverse (invert j (s.code rd)) rd
  rw [nextDisp_reverse]
  cases rd <;> grind

theorem alarm_inverted (symbols : List Symbol) (valid : ∀ s ∈ symbols, s.Valid) (rd : Disparity) (j : Fin 10)
    {k m : Nat} (behind : k < m) {x : BitVec 10} (next : (Enc.groups rd symbols)[m]? = some x)
    (unbalanced : Unbalanced x) :
    ∃ i, k ≤ i ∧ i ≤ m ∧ Alarm (Dec.marks rd ((Enc.groups rd symbols).modify k (invert j))) i := by
  induction symbols generalizing rd k m with
  | nil => simp [Enc.groups] at next
  | cons symbol rest ih =>
      rw [List.forall_mem_cons] at valid
      obtain ⟨m, rfl⟩ : ∃ n, m = n + 1 := ⟨m - 1, by omega⟩
      rw [Enc.groups, List.getElem?_cons_succ] at next
      cases k with
      | zero =>
          rw [Enc.groups, List.modify_zero_cons, Dec.marks]
          rcases invert_parts symbol valid.1 rd j with report | apart
          · exact ⟨0, le_rfl, Nat.zero_le _, alarm_zero report⟩
          · obtain ⟨i, low, alarm⟩ := alarm_apart rest valid.2 _ _ apart next unbalanced
            exact ⟨i + 1, Nat.zero_le _, Nat.succ_le_succ low, alarm_succ alarm⟩
      | succ k =>
          obtain ⟨i, after, low, alarm⟩ := ih valid.2 _ (Nat.lt_of_succ_lt_succ behind) next
          refine ⟨i + 1, Nat.succ_le_succ after, Nat.succ_le_succ low, ?_⟩
          rw [Enc.groups, List.modify_succ_cons, Dec.marks, (follows symbol valid.1 rd).2]
          exact alarm_succ alarm

/-- The same for any decoder behind the first unbalanced group. -/
theorem alarm_met (symbols : List Symbol) (valid : ∀ s ∈ symbols, s.Valid) (rd other : Disparity) (j : Fin 10)
    {u k m : Nat} (before : u < k) (behind : k < m) {x y : BitVec 10}
    (first : (Enc.groups rd symbols)[u]? = some x) (met : Unbalanced x)
    (next : (Enc.groups rd symbols)[m]? = some y) (unbalanced : Unbalanced y) :
    ∃ i, k ≤ i ∧ i ≤ m ∧ Alarm (Dec.marks other ((Enc.groups rd symbols).modify k (invert j))) i := by
  induction symbols generalizing rd other u k m with
  | nil => simp [Enc.groups] at next
  | cons symbol rest ih =>
      by_cases apart : other = rd
      · rw [apart]
        exact alarm_inverted _ valid rd j behind next unbalanced
      · rw [List.forall_mem_cons] at valid
        obtain ⟨k, rfl⟩ : ∃ n, k = n + 1 := ⟨k - 1, by omega⟩
        obtain ⟨m, rfl⟩ : ∃ n, m = n + 1 := ⟨m - 1, by omega⟩
        rw [Enc.groups, List.getElem?_cons_succ] at next
        have later : ∃ i, k ≤ i ∧ i ≤ m ∧ Alarm (Dec.marks (Group.nextDisp (symbol.code rd).reverse other)
            ((Enc.groups (symbol.nextDisp rd) rest).modify k (invert j))) i := by
          rcases meets symbol valid.1 rd other apart with ⟨five, -, -⟩ | ⟨-, -, together⟩
          · cases u with
            | zero =>
                rw [Enc.groups, List.getElem?_cons_zero, Option.some_inj] at first
                exact absurd (first ▸ five) met
            | succ u =>
                rw [Enc.groups, List.getElem?_cons_succ] at first
                exact ih valid.2 _ _ (Nat.lt_of_succ_lt_succ before) (Nat.lt_of_succ_lt_succ behind) first next
          · rw [together]
            exact alarm_inverted _ valid.2 _ j (Nat.lt_of_succ_lt_succ behind) next unbalanced
        obtain ⟨i, after, low, alarm⟩ := later
        refine ⟨i + 1, Nat.succ_le_succ after, Nat.succ_le_succ low, ?_⟩
        rw [Enc.groups, List.modify_succ_cons, Dec.marks]
        exact alarm_succ alarm

/-- The output of the encoder straight into the decoder: the reset value and the group of the reset input
come before the first symbol, and leave the decoder as they find it. -/
theorem wired_eq (symbols : List Symbol) (next afterNext : Symbol) (nextGroup afterNextGroup : BitVec 10) :
    (collect Dec.step (fun s _ => [s.outReg]) {}
      (collect Enc.step (fun s _ => [s.out10bReg]) {} (symbols ++ [next, afterNext])
        ++ [nextGroup, afterNextGroup])).drop 4 = Dec.marks .rdPlus (Enc.groups .rdMinus symbols) := by
  rw [collect_enc, collect_dec]
  rfl

theorem line_code (symbols : List Symbol) (valid : ∀ s ∈ symbols, s.Valid) (next afterNext : Symbol)
    (nextGroup afterNextGroup : BitVec 10) :
    let groups := Enc.sent symbols next afterNext
    let marks := Dec.received groups nextGroup afterNextGroup
    marks.map (fun m => Symbol.mk m.ctrl m.byte) = symbols ∧
      (∀ m ∈ marks, m.codeErr = false) ∧
      (∀ (u i : Nat) (x : BitVec 10) (m : Mark), u < i → groups[u]? = some x → Unbalanced x →
        marks[i]? = some m → m.rdispErr = false) ∧
      (collect Dec.step (fun s _ => [s.outReg]) {}
        (collect Enc.step (fun s _ => [s.out10bReg]) {} (symbols ++ [next, afterNext])
          ++ [nextGroup, afterNextGroup])).drop 4 = marks ∧
      (∀ k later, let rd := (run Enc.step {} (symbols.take k ++ [later])).runDisp
        bitDisparity (groups.take k) = rd.level ∧
          (symbols.take k).foldl (fun d s => fNext8b10bDisparity8 d s.ctrl s.byte) .rdMinus = rd ∧
          ∀ words : List (Symbol × Symbol), words.flatMap (fun w => [w.1, w.2]) = symbols.take k →
            words.foldl (fun d w => fNext8b10bDisparity16 d (BitVec.ofBool w.1.ctrl ++ BitVec.ofBool w.2.ctrl)
              (w.1.byte ++ w.2.byte)) .rdMinus = rd) ∧
      ∀ (j : Fin 10) (u k m : Nat) (x y : BitVec 10), u < k → k < m → groups[u]? = some x → Unbalanced x →
        groups[m]? = some y → Unbalanced y →
          ∃ i, k ≤ i ∧ i ≤ m ∧
            Alarm (Dec.received (groups.modify k (invert j)) nextGroup afterNextGroup) i := by
  simp only [sent_eq, received_eq, runDisp_eq, wired_eq]
  obtain ⟨same, clean⟩ := marks_symbols symbols valid .rdMinus .rdPlus
  refine ⟨same, clean, ?_, trivial, ?_, ?_⟩
  · intro u i x m before first unbalanced here
    exact marks_met symbols valid _ _ before first unbalanced here
  · intro k later
    refine ⟨?_, fold8_eq _ _, ?_⟩
    · have part : ∀ s ∈ symbols.take k, s.Valid := fun s member => valid s (List.mem_of_mem_take member)
      rw [take_groups]
      exact bits_carried _ part .rdMinus
    · intro words packed
      rw [fold16_eq, packed]
  · intro j u k m x y before behind first met later unbalanced
    exact alarm_met symbols valid _ _ j before behind first met later unbalanced

/-- K28.5, D16.2 with its fourth bit inverted, and K28.5. -/
theorem line_code_inverted :
    let symbols := [⟨true, 0xBC⟩, ⟨false, 0x50⟩, ⟨true, 0xBC⟩]
    (∀ s ∈ symbols, s.Valid) ∧
      ∃ i, 1 ≤ i ∧ i ≤ 2 ∧
        Alarm (Dec.received ((Enc.sent symbols ⟨false, 0⟩ ⟨false, 0⟩).modify 1 (invert 3)) 0 0) i := by
  intro symbols
  have valid : ∀ s ∈ symbols, s.Valid := by decide
  obtain ⟨-, -, -, -, -, alarm⟩ := line_code symbols valid ⟨false, 0⟩ ⟨false, 0⟩ 0 0
  exact ⟨valid, alarm 3 0 1 2 _ _ (by decide) (by decide) rfl (by decide) rfl (by decide)⟩

end LineCode

end WrCores.TbiPhy
