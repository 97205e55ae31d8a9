import WrCores.Endpoint.Pcs8
import WrCores.TbiPhy.LineCode

/-!
wr_tbi_phy.vhd at both ends of a link, between ep_tx_pcs_8bit and ep_rx_pcs_8bit. The registers at the pins have no
reset; when the reset ends they hold what the encoder shows under reset. The error that the receiver is told of is that
of the disparity alone: `serdes_rx_enc_err_o` names `dec_err_rdisp` twice. One inverted bit is told all the same.
-/

namespace WrCores.TbiPhy

open Clocked Endpoint

/-- The registers of the sender and those of the receiver, whose pins are wired together. -/
structure WrTbiPhy where
  enc : Enc := {}
  txReg : BitVec 10 := 0
  rxReg : BitVec 10 := 0
  dec : Dec := {}
  deriving DecidableEq, Repr

namespace WrTbiPhy

def step (s : WrTbiPhy) (i : Symbol) : WrTbiPhy where
  enc := s.enc.step i
  txReg := s.enc.out10bReg
  rxReg := s.txReg
  dec := s.dec.step s.rxReg

def serdesRxEncErrO (m : Mark) : Bool := m.rdispErr || m.rdispErr

/-- What the receiver's ports show while the symbols are sent. -/
def received (symbols : List Symbol) : List Mark := collect step (fun s _ => [s.dec.outReg]) {} symbols

/-- The output register and what the groups on the way will show. -/
theorem collect_eq (s : WrTbiPhy) (symbols : List Symbol) : collect step (fun s _ => [s.dec.outReg]) s symbols =
    (s.dec.outReg :: s.dec.in10b.mark s.dec.runDisp :: Dec.marks (s.dec.in10b.nextDisp s.dec.runDisp)
      (s.rxReg :: s.txReg :: s.enc.out10bReg :: Enc.groups s.enc.runDisp (s.enc.symbol :: symbols))).take
        symbols.length := by
  induction symbols generalizing s with
  | nil => rfl
  | cons symbol rest ih =>
      rw [collect_cons, ih]
      rfl

theorem marks_append (rd : Disparity) (groups more : List (BitVec 10)) :
    ∃ rd', Dec.marks rd (groups ++ more) = Dec.marks rd groups ++ Dec.marks rd' more := by
  induction groups generalizing rd with
  | nil => exact ⟨rd, rfl⟩
  | cons x rest ih =>
      obtain ⟨rd', split⟩ := ih (Group.nextDisp x.reverse rd)
      exact ⟨rd', by rw [List.cons_append, Dec.marks, split, Dec.marks, List.cons_append]⟩

/-- The registers show six symbols before the first one that is sent. -/
def early : List Mark :=
  let dec : Dec := {}
  dec.outReg :: dec.in10b.mark dec.runDisp :: Dec.marks (dec.in10b.nextDisp dec.runDisp)
    [0, 0, 0, (Symbol.mk false 0).code .rdMinus]

theorem received_eq (symbols : List Symbol) : ∃ rd other, received symbols =
    (early ++ Dec.marks other (Enc.groups rd symbols)).take symbols.length := by
  let dec : Dec := {}
  obtain ⟨other, split⟩ := marks_append (dec.in10b.nextDisp dec.runDisp)
    [0, 0, 0, (Symbol.mk false 0).code .rdMinus] (Enc.groups ((Symbol.mk false 0).nextDisp .rdMinus) symbols)
  refine ⟨(Symbol.mk false 0).nextDisp .rdMinus, other, ?_⟩
  rw [received, collect_eq, early, List.cons_append, List.cons_append, ← split]
  rfl

/-! ### The receiver behind it -/

def symbol (c : Code8) : Symbol := ⟨c.k, c.data⟩

def Mark.code (m : Mark) : Code8 := ⟨m.byte, m.ctrl⟩

/-- The register of `p_8b10b_postprocess` for what the ports show. -/
def decode (m : Mark × Bool) : RxDecoded8 :=
  if serdesRxEncErrO m.1 then { data := m.1.byte, err := true, isEven := m.2 } else .decode (Mark.code m.1, m.2)

/-- One edge of ep_rx_pcs_8bit, at an even position or an odd one. -/
def rxStep (s : RxRun8) (m : Mark × Bool) : RxRun8 :=
  let rx := s.rx.step
    { s.stamps.input with code := Mark.code m.1, rxEven := m.2, encErr := serdesRxEncErrO m.1 }
  ⟨rx, s.stamps.next rx.fsm.fab.sof⟩

def shown (s : RxRun8) (_ : Mark × Bool) : List FabEvent := s.rx.fsm.fab.events

def placed (even : Bool) : List Mark → List (Mark × Bool)
  | [] => []
  | m :: rest => (m, even) :: placed (!even) rest

theorem placed_even (even : Bool) (ms more : List Mark) (whole : Even ms.length) :
    placed even (ms ++ more) = placed even ms ++ placed even more := by
  match ms with
  | [] => rfl
  | [_] => exact absurd whole (by simp)
  | m :: m' :: rest =>
      have less : Even rest.length := by simpa [Nat.even_add_one] using whole
      simp only [List.cons_append, placed, Bool.not_not, placed_even even rest more less]

theorem placed_append (even : Bool) (ms more : List Mark) :
    ∃ even', placed even (ms ++ more) = placed even ms ++ placed even' more := by
  induction ms generalizing even with
  | nil => exact ⟨even, rfl⟩
  | cons m rest ih =>
      obtain ⟨even', split⟩ := ih (!even)
      exact ⟨even', by rw [List.cons_append, placed, split, placed, List.cons_append]⟩

theorem shown_late (s : RxRun8) (ms : List (Mark × Bool)) (m m' : Mark × Bool) :
    collect rxStep shown s (ms ++ [m, m']) =
      s.core.events ++ collect RxCore8.step RxCore8.brings s.core (s.rx.d :: ms.map decode) := by
  have delayed := collect_delayed RxCore8.step rxStep RxRun8.core (fun s => s.rx.d) decode
    (fun _ _ => rfl) (fun _ _ => rfl) RxCore8.events s (ms ++ [m, m'])
  have registers : (s.rx.d :: (ms ++ [m, m']).map decode).take (ms ++ [m, m']).length =
      (s.rx.d :: ms.map decode) ++ [decode m] := by
    simp [List.take_append]
  rw [registers, collect_registered] at delayed
  exact delayed

/-- Symbols that are shown without an error are decoded as characters that come without the code. -/
theorem decode_clean (even : Bool) (ms : List Mark) (clean : ∀ m ∈ ms, m.rdispErr = false) :
    (placed even ms).map decode = (marked even (ms.map Mark.code)).map .decode := by
  induction ms generalizing even with
  | nil => rfl
  | cons m rest ih =>
      rw [List.forall_mem_cons] at clean
      have fine : serdesRxEncErrO m = false := by rw [serdesRxEncErrO, clean.1, Bool.or_false]
      rw [placed, List.map_cons, List.map_cons, marked, List.map_cons, ih _ clean.2, decode, fine,
        if_neg Bool.false_ne_true]

/-! ### Frames -/

section Run

open RxCore8 (Waits brings decoded Owes)

variable {stamps : Stamps} {s : RxCore8}

/-- Neither a comma nor the start of a frame. -/
def Idle (d : RxDecoded8) : Prop := d.isSpd = false ∧ d.isComma = false

instance (d : RxDecoded8) : Decidable (Idle d) := inferInstanceAs (Decidable (_ ∧ _))

theorem idle_run (ds : List RxDecoded8) (idle : ∀ d ∈ ds, Idle d) (waits : Waits 0#3 stamps s) :
    Waits 0#3 stamps (run RxCore8.step s ds) ∧ collect RxCore8.step brings s ds = [] := by
  induction ds generalizing s with
  | nil => exact ⟨waits, rfl⟩
  | cons d rest ih =>
      rw [List.forall_mem_cons] at idle
      obtain ⟨next, silent⟩ := waits.quiet idle.1.1 idle.1.2
      obtain ⟨there, silent'⟩ := ih idle.2 next
      exact ⟨there, by rw [collect_cons, silent, silent', List.append_nil]⟩

/-- A pair whose comma is shown with an error is passed over like any other. -/
theorem pair_run {d : RxDecoded8} (first : d = .decode (.comma, true) ∨ Idle d) {c : Code8}
    (second : TxPcs8.IsSecond c) (waits : Waits 0#3 stamps s) :
    Waits 0#3 stamps ((s.step d).step (.decode (c, false))) ∧
      collect RxCore8.step brings s [d, .decode (c, false)] = [] := by
  rcases first with rfl | idle
  · obtain ⟨at₁, silent₁⟩ := waits.comma_edge true
    obtain ⟨at₂, silent₂⟩ := at₁.edge second
    exact ⟨at₂, by rw [collect_cons, collect_cons, silent₁, silent₂]; rfl⟩
  · refine idle_run [d, .decode (c, false)] ?_ waits
    rintro d' (_ | ⟨_, _ | ⟨_, none⟩⟩)
    · exact idle
    · rcases second with rfl | rfl <;> decide
    · cases none

/-- What is heard behind the first pair of a line. -/
theorem line_heard {frames : List PcsFrame} {answers : List (Option (BitVec 32))}
    (each : answers.length = frames.length) {codes idles : List Code8} (line : TxPcs8.Line 0 frames codes)
    (idle : TxPcs8.Idles 4 idles) : ∃ second rest, codes ++ idles = .comma :: second :: rest ∧
      TxPcs8.IsSecond second ∧ ∀ s, Waits 0#3 ⟨none, answers⟩ s →
        (collect RxCore8.step brings s (decoded rest)).map .trim =
          (frames.zip answers).flatMap fun p => p.1.received8 p.2 := by
  cases line with
  | done =>
      obtain ⟨_, half, ⟨_ | ⟨second, seconds⟩, long, all, rfl⟩, rest, rfl⟩ := idle
      · cases long
      · rw [List.forall_mem_cons] at all
        refine ⟨second, seconds.flatMap TxPcs8.pair ++ half, rfl, all.1, fun s waits => ?_⟩
        have later : TxPcs8.Idles 0 (seconds.flatMap TxPcs8.pair ++ half) :=
          ⟨_, half, ⟨seconds, Nat.zero_le _, all.2, rfl⟩, rest, rfl⟩
        rw [(Owes.nothing rfl waits).idles_run later (fun some => absurd rfl some)]
        simp
  | @frame _ f fs data bytesel first codes last pairs line =>
      obtain ⟨_ | ⟨second, seconds⟩, long, all, rfl⟩ := pairs
      · cases long
      · rw [List.forall_mem_cons] at all
        refine ⟨second, seconds.flatMap TxPcs8.pair ++ (PcsFrame.codes8 f.words data bytesel ++ (codes ++ idles)),
          by simp [TxPcs8.pair], all.1, fun s waits => ?_⟩
        obtain ⟨answer, answers, rfl⟩ := List.exists_cons_of_length_eq_add_one each
        have idlePairs : TxPcs8.IdlePairs 0 (seconds.flatMap TxPcs8.pair) := ⟨seconds, Nat.zero_le _, all.2, rfl⟩
        obtain ⟨waits', silent⟩ := RxCore8.pairs_run seconds all.2 waits
        obtain ⟨closing, heard⟩ := RxCore8.frame_run f.words data bytesel waits'
        obtain ⟨evs, stamps, owes, heard'⟩ := RxCore8.line_run line (.frameEnd rfl closing) (fun _ => by decide)
          answers (by simp [Stamps.next]) (by simpa using each)
        have ends := owes.idles_run idle fun _ => by decide
        have current : (Stamps.next ⟨none, answer :: answers⟩ true).current = answer := by simp [Stamps.next]
        rw [RxCore8.decoded_append _ _ idlePairs.aligned.1,
          RxCore8.decoded_append _ _ (aligned_codes8 f.words data bytesel).1,
          RxCore8.decoded_append _ _ line.aligned.1, collect_append, silent, collect_append, collect_append, ends,
          List.nil_append, List.map_append, heard, heard', current, RxCore8.map_trim_endEvents, List.zip_cons_cons,
          List.flatMap_cons]
        simp [PcsFrame.received8, last]

end Run

/-! ### The symbols of a line -/

theorem valid_char (data : BitVec 8) : (symbol (.char data)).Valid := nofun

theorem valid_frame (words : List (BitVec 16)) (data : BitVec 16) (bytesel : Bool) :
    ∀ c ∈ PcsFrame.codes8 words data bytesel, (symbol c).Valid := by
  intro c member
  simp only [PcsFrame.codes8, PcsFrame.preamble8, List.mem_append, List.mem_cons, List.mem_replicate,
    List.mem_flatMap, PcsFrame.wordCodes8, PcsFrame.lastCodes8] at member
  rcases member with (rfl | ⟨-, rfl⟩ | rfl | none) | ⟨_, _, rfl | rfl | none⟩ | last
  · decide
  · exact valid_char _
  · exact valid_char _
  · cases none
  · exact valid_char _
  · exact valid_char _
  · cases none
  · split at last <;> simp only [List.mem_cons] at last
    · rcases last with rfl | rfl | rfl | rfl | none
      · exact valid_char _
      · decide
      · decide
      · decide
      · cases none
    · rcases last with rfl | rfl | rfl | rfl | none
      · exact valid_char _
      · exact valid_char _
      · decide
      · decide
      · cases none

theorem valid_pairs {least : Nat} {codes : List Code8} (pairs : TxPcs8.IdlePairs least codes) :
    ∀ c ∈ codes, (symbol c).Valid := by
  obtain ⟨seconds, _, all, rfl⟩ := pairs
  intro c member
  obtain ⟨second, there, member⟩ := List.mem_flatMap.1 member
  rcases List.mem_cons.1 member with rfl | member
  · decide
  · obtain rfl := List.mem_singleton.1 member
    rcases all c there with rfl | rfl <;> exact valid_char _

theorem valid_line {g : Nat} {frames : List PcsFrame} {codes : List Code8} (line : TxPcs8.Line g frames codes) :
    ∀ c ∈ codes, (symbol c).Valid := by
  induction line with
  | done => nofun
  | frame _ pairs _ ih =>
      intro c member
      rcases List.mem_append.1 member with first | later
      · rcases List.mem_append.1 first with idle | frame
        · exact valid_pairs pairs c idle
        · exact valid_frame _ _ _ c frame
      · exact ih c later

theorem valid_idles {least : Nat} {codes : List Code8} (idle : TxPcs8.Idles least codes) :
    ∀ c ∈ codes, (symbol c).Valid := by
  obtain ⟨pairs, half, each, last, rfl⟩ := idle
  intro c member
  rcases List.mem_append.1 member with here | there
  · exact valid_pairs each c here
  · rcases last with rfl | rfl
    · cases there
    · obtain rfl := List.mem_singleton.1 there
      decide

/-- The first comma brings every decoder to the disparity of the encoder. -/
theorem comma_meets (rd other : Disparity) :
    Group.nextDisp ((symbol .comma).code rd).reverse other = (symbol .comma).nextDisp rd := by
  by_cases apart : other = rd
  · rw [apart]
    exact (Codes.follows (symbol .comma) (by decide) rd).2
  · rcases Codes.meets (symbol .comma) (by decide) rd other apart with ⟨five, -, -⟩ | ⟨-, -, met⟩
    · cases rd <;> exact absurd five (by decide)
    · exact met

/-- What a decoder shows of a first character, a comma and the rest: all but the first two are clean. -/
theorem shows_line (rd other : Disparity) (c : Code8) (rest : List Code8)
    (valid : ∀ x ∈ c :: .comma :: rest, (symbol x).Valid) : ∃ m₀ m₁ ms,
      Dec.marks other (Enc.groups rd ((c :: .comma :: rest).map symbol)) = m₀ :: m₁ :: ms ∧
        Mark.code m₀ = c ∧ Mark.code m₁ = .comma ∧ ms.map Mark.code = rest ∧ ∀ m ∈ ms, m.rdispErr = false := by
  have valid' : ∀ x ∈ (c :: .comma :: rest).map symbol, x.Valid := List.forall_mem_map.2 valid
  obtain ⟨same, -⟩ := LineCode.marks_symbols _ valid' rd other
  have quiet := LineCode.marks_quiet (rest.map symbol)
    (List.forall_mem_map.2 fun x member => valid x (by simp [member]))
    ((symbol .comma).nextDisp ((symbol c).nextDisp rd))
  rw [List.map_cons, List.map_cons, Enc.groups, Enc.groups, Dec.marks, Dec.marks, comma_meets] at same ⊢
  have codes := congrArg (List.map fun s => Code8.mk s.byte s.ctrl) same
  simp only [List.map_cons, List.map_map, List.cons.injEq] at codes
  have all : rest.map (fun c => Code8.mk (symbol c).byte (symbol c).ctrl) = rest := List.map_id' rest
  exact ⟨_, _, _, rfl, codes.1, codes.2.1, codes.2.2.trans all, quiet⟩

/-! ### From one PCS to the other -/

theorem decode_cases (m : Mark) (even : Bool) :
    decode (m, even) = .decode (Mark.code m, even) ∨ Idle (decode (m, even)) := by
  cases err : serdesRxEncErrO m with
  | false => exact .inl (by rw [decode, err, if_neg Bool.false_ne_true])
  | true => exact .inr (by rw [decode, err, if_pos rfl]; exact ⟨rfl, rfl⟩)

theorem marks_length (rd : Disparity) (groups : List (BitVec 10)) : (Dec.marks rd groups).length = groups.length := by
  induction groups generalizing rd with
  | nil => rfl
  | cons x rest ih => rw [Dec.marks, List.length_cons, List.length_cons, ih]

theorem groups_append (rd : Disparity) (symbols more : List Symbol) :
    Enc.groups rd (symbols ++ more) = Enc.groups rd symbols ++ Enc.groups (Enc.disparityAfter rd symbols) more := by
  induction symbols generalizing rd with
  | nil => rfl
  | cons symbol rest ih =>
      rw [List.cons_append, Enc.groups, Enc.groups, ih, List.cons_append]
      rfl

theorem groups_length (rd : Disparity) (symbols : List Symbol) : (Enc.groups rd symbols).length = symbols.length := by
  induction symbols generalizing rd with
  | nil => rfl
  | cons symbol rest ih => rw [Enc.groups, List.length_cons, List.length_cons, ih]

/-- The ports are eight symbols behind. -/
theorem received_late (symbols more : List Symbol) (long : more.length = 8) : ∃ rd other m m',
    received (symbols ++ more) = early ++ Dec.marks other (Enc.groups rd symbols) ++ [m, m'] := by
  obtain ⟨rd, other, all⟩ := received_eq (symbols ++ more)
  obtain ⟨other', split⟩ := marks_append other (Enc.groups rd symbols)
    (Enc.groups (Enc.disparityAfter rd symbols) more)
  have size : (Dec.marks other' (Enc.groups (Enc.disparityAfter rd symbols) more)).length = 8 := by
    rw [marks_length, groups_length, long]
  have front : (early ++ Dec.marks other (Enc.groups rd symbols)).length = symbols.length + 6 := by
    rw [List.length_append, marks_length, groups_length, Nat.add_comm]
    rfl
  match behind : Dec.marks other' (Enc.groups (Enc.disparityAfter rd symbols) more), size with
  | m :: m' :: _, _ =>
      refine ⟨rd, other, m, m', ?_⟩
      rw [all, groups_append, split, behind, ← List.append_assoc, List.length_append, long,
        show symbols.length + 8 = (early ++ Dec.marks other (Enc.groups rd symbols)).length + 2 by omega,
        List.take_length_add_append]
      rfl

/-- What the receiver decodes of a line: nothing that matters before the first pair. -/
theorem line_decoded (rd other : Disparity) (rest : List Code8) {second : Code8}
    (valid : ∀ x ∈ TxPcs8.reset.fsm.out :: .comma :: second :: rest, (symbol x).Valid) : ∃ ds d,
      (∀ x ∈ ds, Idle x) ∧ (d = .decode (.comma, true) ∨ Idle d) ∧
        (placed false (early ++ Dec.marks other (Enc.groups rd
          ((TxPcs8.reset.fsm.out :: .comma :: second :: rest).map symbol)))).map decode =
            ds ++ [d, .decode (second, false)] ++ RxCore8.decoded rest := by
  obtain ⟨m₀, m₁, ms, shows, first, comma, codes, clean⟩ := shows_line rd other _ _ valid
  have quiet : ∀ x ∈ (placed false early).map decode, Idle x := by decide
  have start : Idle (decode (m₀, false)) := by
    rcases decode_cases m₀ false with same | idle
    · rw [same, first]
      decide
    · exact idle
  refine ⟨(placed false early).map decode ++ [decode (m₀, false)], decode (m₁, true), ?_, ?_, ?_⟩
  · intro x member
    rcases List.mem_append.1 member with before | at_
    · exact quiet x before
    · exact (List.mem_singleton.1 at_) ▸ start
  · rcases decode_cases m₁ true with same | idle
    · exact .inl (by rw [same, comma])
    · exact .inr idle
  · rw [shows, placed_even _ _ _ (by decide), List.map_append]
    simp only [placed, Bool.not_false, Bool.not_true, List.map_cons, decode_clean false ms clean, codes, marked,
      List.append_assoc, List.cons_append, List.nil_append]
    rfl

theorem frames_over_ten_bits (frames : List PcsFrame) (good : ∀ f ∈ frames, f.last ≠ none)
    (answers : List (Option (BitVec 32))) (each : answers.length = frames.length)
    (inputs : Nat → TxPcsIn) (supplied : TxPcs8.Supplied frames inputs) :
    ∃ bound, ∀ n ≥ bound, (collect rxStep shown (RxRun8.reset answers)
      (placed false (received ((TxPcs8.line inputs n).map symbol)))).map .trim =
        (frames.zip answers).flatMap fun p => p.1.received8 p.2 := by
  obtain ⟨bound, at_, codes, line, tail⟩ := supplied.line good
  refine ⟨at_ + bound + 17, fun n late => ?_⟩
  obtain ⟨r, rfl, enough⟩ : ∃ r, n = at_ + r + 1 + 8 ∧ bound + 8 ≤ r := ⟨n - at_ - 9, by omega, by omega⟩
  obtain ⟨idles, ⟨pairs, half, ⟨seconds, least, idle⟩, ends⟩, sent⟩ := tail r (by omega)
  have idle4 : TxPcs8.Idles 4 idles := ⟨pairs, half, ⟨seconds, by omega, idle⟩, ends⟩
  obtain ⟨second, rest, split, isSecond, heard⟩ := line_heard each line idle4
  have valid : ∀ x ∈ TxPcs8.reset.fsm.out :: .comma :: second :: rest, (symbol x).Valid := by
    rw [← split, List.forall_mem_cons]
    refine ⟨by decide, fun x member => ?_⟩
    rcases List.mem_append.1 member with here | there
    · exact valid_line line x here
    · exact valid_idles idle4 x there
  obtain ⟨rd, other, m, m', shows⟩ := received_late ((TxPcs8.line inputs (at_ + r + 1)).map symbol)
    ((collect TxPcs8.step (fun s _ => [s.fsm.out]) (run TxPcs8.step TxPcs8.reset (upTo inputs (at_ + r + 1)))
      (upTo (after inputs (at_ + r + 1)) 8)).map symbol) rfl
  rw [TxPcs8.line_add, List.map_append, shows, sent, split]
  obtain ⟨even, last⟩ := placed_append false (early ++ Dec.marks other (Enc.groups rd
    ((TxPcs8.reset.fsm.out :: .comma :: second :: rest).map symbol))) [m, m']
  obtain ⟨ds, d, quiet, first, decodes⟩ := line_decoded rd other rest valid
  -- the register before the first edge, the symbols before the first pair, and that pair
  have start : RxCore8.Waits 0#3 ⟨none, answers⟩ (RxRun8.reset answers).core := ⟨rfl, rfl, rfl, rfl⟩
  obtain ⟨waits₁, silent₁⟩ := start.quiet (d := (RxRun8.reset answers).rx.d) rfl rfl
  obtain ⟨waits₂, silent₂⟩ := idle_run ds quiet waits₁
  obtain ⟨waits₃, silent₃⟩ := pair_run first isSecond waits₂
  rw [last]
  change ((collect rxStep shown (RxRun8.reset answers) (_ ++ [(m, even), (m', !even)])).map _) = _
  rw [shown_late, decodes, List.append_assoc, collect_cons, collect_append, collect_append, silent₁, silent₂, silent₃]
  exact heard _ waits₃

theorem frames_over_ten_bits_odd :
    ∃ bound, ∀ n ≥ bound, (collect rxStep shown (RxRun8.reset [none])
      (placed false (received ((TxPcs8.line TxPcs8.oddInputs n).map symbol)))).map .trim =
        PcsFrame.oddFrame.received8 none := by
  obtain ⟨bound, whole⟩ := frames_over_ten_bits [PcsFrame.oddFrame] (by decide) [none] rfl TxPcs8.oddInputs
    TxPcs8.oddFrame_supplied
  exact ⟨bound, fun n late => by simpa using whole n late⟩

/-! ### Bits inverted on the way -/

/-- One bit of the group that is on the line at edge `k + 3`, which is that of symbol `k`. -/
def inverted (symbols : List Symbol) (k : Nat) (j : Fin 10) : List (Symbol × (BitVec 10 → BitVec 10)) :=
  symbols.zipIdx.map fun s => (s.1, if s.2 = k + 3 then invert j else id)

def Report (marks : List Mark) (i : Nat) : Prop := ∃ m, marks[i]? = some m ∧ serdesRxEncErrO m = true

end WrTbiPhy

end WrCores.TbiPhy
