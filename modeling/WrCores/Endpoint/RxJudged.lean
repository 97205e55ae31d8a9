import WrCores.Endpoint.RxSizeCheck

/-!
Frame after frame through the check of check sequence and size: what the unit holds while a frame is
under way, how it is judged, and what went out when it is over.
-/

namespace WrCores.Endpoint

open Clocked
open Fabric (cWrfData cWrfOob)

namespace RxSizeCheck

variable (regs : RxCheckRegs)

/-! ### One cycle -/

/-- The last words in the delay line, the newest one first in `qValid`. -/
inductive Queued (s : RxSizeCheck) : List (BitVec 16 × Bool) → Prop
  | none (valid : s.qValid = (false, false)) : Queued s []
  | one {w : BitVec 16 × Bool} (valid : s.qValid = (true, false)) (data : s.qData.2 = (cWrfData, w.1)) : Queued s [w]
  | more {before : List (BitVec 16 × Bool)} {u v : BitVec 16 × Bool} (valid : s.qValid = (true, true))
      (data : s.qData = ((cWrfData, u.1), (cWrfData, v.1))) : Queued s (before ++ [u, v])

/-- Within a frame. -/
structure Inside (s : RxSizeCheck) (f : Frame) : Prop where
  state : s.state = .data
  running : f.ended = false
  words : f.oob = []
  full : Full f.words.dropLast
  heard : f.heard ++ (if s.srcSof then [Event.sof] else []) = Event.sof :: (body f.words).map asData
  first : s.srcSof = true → f.words = []
  error : s.srcError = false
  purge : s.qPurge = false
  bytesel : s.qBytesel = true → ¬Full f.words
  counted : s.byteCntr.toNat = f.bytes.length % 2 ^ 14
  runt : s.isRunt = decide (f.bytes.length < cMinFrameSize)
  giant : s.isGiant = decide (regs.mru.toNat < f.settled % 2 ^ 14)
  settled : f.settled ≤ f.bytes.length
  crc : ∃ odd, s.crc = RxCrcCheck.taken ⟨cCrc32InitValue, odd⟩ f.bytes
  queue : Queued s f.words

/-- The frame is not good, whatever comes behind. -/
def Bad (f : Frame) : Prop := regs.mru.toNat < f.bytes.length ∧ regs.aGiant = false ∨ f.oob ≠ [] ∧ ¬f.Good regs

/-- Good, and its out-of-band words pass. -/
structure Passing (s : RxSizeCheck) (f : Frame) : Prop where
  state : s.state = .oob
  running : f.ended = false
  oob : f.oob ≠ []
  good : f.Good regs
  long : 3 ≤ f.words.length
  full : Full f.words.dropLast
  heard : f.heard = .sof :: ((body f.words).map asData ++ f.oob.map .oob)
  sof : s.srcSof = false
  error : s.srcError = false
  purge : s.qPurge = false

/-- Refused, and the error is not out yet. -/
structure Failing (s : RxSizeCheck) (f : Frame) : Prop where
  state : s.state = .waitFrame
  running : f.ended = false
  sof : s.srcSof = false
  error : s.srcError = true
  bad : Bad regs f
  heard : ∃ (data : List (BitVec 16 × Bool)) (oob : List (BitVec 16)),
    data.map (·.1) <+: f.words.map (·.1) ∧ oob <+: f.oob ∧ f.heard = .sof :: (data.map asData ++ oob.map .oob)

structure Failed (s : RxSizeCheck) (f : Frame) : Prop where
  state : s.state = .waitFrame
  sof : s.srcSof = false
  error : s.srcError = false
  bad : Bad regs f
  rejected : f.Rejected

structure Through (s : RxSizeCheck) (f : Frame) : Prop where
  state : s.state = .waitFrame
  ended : f.ended = true
  sof : s.srcSof = false
  error : s.srcError = false
  good : f.Good regs
  stripped : f.Stripped

inductive Phase (s : RxSizeCheck) (f : Frame) : Prop
  | inside (inside : Inside regs s f)
  | passing (passing : Passing regs s f)
  | failing (failing : Failing regs s f)
  | failed (failed : Failed regs s f)
  | through (through : Through regs s f)

section Edge

variable {regs} {s : RxSizeCheck} {b : Book} {f : Frame} {i : RxCheckIn}

theorem taken_append {bytes : List (BitVec 8)} (even : bytes.length % 2 = 0) (c : RxCrcCheck)
    (more : List (BitVec 8)) :
    RxCrcCheck.taken c (bytes ++ more) = RxCrcCheck.taken (RxCrcCheck.taken c bytes) more := by
  induction bytes using List.twoStepInduction generalizing c with
  | nil => rfl
  | singleton x => simp at even
  | cons_cons x y rest ih _ =>
      rw [List.cons_append, List.cons_append, RxCrcCheck.taken, RxCrcCheck.taken,
        ih (by simp only [List.length_cons] at even; omega)]

theorem taken_match {bytes : List (BitVec 8)} (nonempty : bytes ≠ []) (odd : Bool) :
    (RxCrcCheck.taken ⟨cCrc32InitValue, odd⟩ bytes).crcMatch = true ↔
      bytes.foldl fUpdateCrc32D8 cCrc32InitValue = cCrc32ResidueFull := by
  rw [← RxCrcCheck.residue_iff bytes.length]
  by_cases even : bytes.length % 2 = 0
  · rw [RxCrcCheck.taken_even even nonempty]
    simp [RxCrcCheck.crcMatch, RxCrcCheck.residue, even]
  · rw [RxCrcCheck.taken_odd (by omega)]
    simp [RxCrcCheck.crcMatch, RxCrcCheck.residue, even]

theorem wordsOf_bytesOf (w : BitVec 16 × Bool) : wordsOf (bytesOf [w]) = [trimWord w] := by
  obtain ⟨data, bytesel⟩ := w
  cases bytesel <;> simp [bytesOf, wordsOf, trimWord, halves_append]

/-- The check of the sequence takes the word that comes. -/
theorem crc_step (sof : i.fab.sof = false) (rstN : i.rstN = true) (c : RxCrcCheck) :
    c.step { fab := i.fab, rstN := i.rstN } = RxCrcCheck.taken c (bytesOf i.fab.dataWord) := by
  apply RxCrcCheck.taken_run (s := c) [{ fab := i.fab, rstN := i.rstN }] (by simp [RxCrcCheck.Inside, rstN, sof])
  rw [List.flatMap_singleton]
  cases word : i.fab.dvalid && i.fab.addr == cWrfData with
  | false => simp [InternalFabric.dataWord, word, bytesOf, wordsOf]
  | true =>
      have one : i.fab.dataWord = [(i.fab.data, i.fab.bytesel)] := by simp [InternalFabric.dataWord, word]
      rw [one, wordsOf_bytesOf, List.map_singleton]

/-- The cycle brings a data word that may come, or none. -/
def Brings (f : Frame) (i : RxCheckIn) : Prop :=
  i.fab.dvalid = true → i.fab.addr = cWrfData ∧ Full f.words

theorem Inside.queue_full (inside : Inside regs s f) (long : 2 ≤ f.words.length) :
    ∃ before u v, f.words = before ++ [u, v] ∧ s.qValid = (true, true) ∧
      s.qData = ((cWrfData, u.1), (cWrfData, v.1)) := by
  have queue := inside.queue
  generalize f.words = words at queue long
  cases queue with
  | none valid => simp at long
  | one valid data => simp at long
  | more valid data => exact ⟨_, _, _, rfl, valid, data⟩

theorem next_bytes (s : RxSizeCheck) (f : Frame) (i : RxCheckIn) :
    (f.next s i).bytes = f.bytes ++ bytesOf i.fab.dataWord := bytesOf_append

theorem dataWord_none (silent : i.fab.dvalid = false) : i.fab.dataWord = [] := by
  simp [InternalFabric.dataWord, silent]

theorem dataWord_one (valid : i.fab.dvalid = true) (addr : i.fab.addr = cWrfData) :
    i.fab.dataWord = [(i.fab.data, i.fab.bytesel)] := by
  simp [InternalFabric.dataWord, valid, addr]

theorem Inside.counts (inside : Inside regs s f) (legal : Legal b i) (sof : i.fab.sof = false) (brings : Brings f i) :
    (s.step regs i).byteCntr.toNat = (f.next s i).bytes.length % 2 ^ 14 ∧
      (s.step regs i).isRunt = decide ((f.next s i).bytes.length < cMinFrameSize) := by
  have counted := inside.counted
  have runt := inside.runt
  rw [next_bytes]
  cases valid : i.fab.dvalid with
  | false =>
      rw [dataWord_none valid]
      simp [step, countBytes, legal.rstN, legal.rxEn, valid, sof, counted, runt, bytesOf]
  | true =>
      obtain ⟨addr, full⟩ := brings valid
      have even : f.bytes.length = 2 * f.words.length := full_length full
      rw [dataWord_one valid addr]
      generalize f.bytes = bytes at *
      have last : s.byteCntr = BitVec.ofNat 14 (cMinFrameSize - 2) ↔ s.byteCntr.toNat = 62 := by
        rw [BitVec.toNat_eq]
        rfl
      cases half : i.fab.bytesel with
      | true =>
          have grown : (bytes ++ bytesOf [(i.fab.data, true)]).length = bytes.length + 1 := by simp [bytesOf]
          rw [grown]
          simp only [step, countBytes, legal.rstN, legal.rxEn, valid, half, sof, runt, Bool.not_true, Bool.or_self,
            Bool.false_eq_true, if_false, if_true, Bool.and_false, Bool.or_false, cMinFrameSize]
          refine ⟨?_, decide_eq_decide.2 ⟨by omega, by omega⟩⟩
          have one : (1 : BitVec 14).toNat = 1 := rfl
          rw [BitVec.toNat_add, counted, one, Nat.mod_add_mod]
      | false =>
          have grown : (bytes ++ bytesOf [(i.fab.data, false)]).length = bytes.length + 2 := by simp [bytesOf]
          rw [grown]
          simp only [step, countBytes, legal.rstN, legal.rxEn, valid, half, sof, runt, Bool.not_true, Bool.or_self,
            Bool.false_eq_true, if_false, if_true, Bool.not_false, Bool.and_true, Bool.or_false, beq_iff_eq, last]
          constructor
          · have two : (2 : BitVec 14).toNat = 2 := rfl
            rw [BitVec.toNat_add, counted, two, Nat.mod_add_mod]
          · simp only [cMinFrameSize]
            -- an even number of bytes reaches the minimum from two below
            split
            · exact (decide_eq_false (by omega)).symm
            · exact decide_eq_decide.2 ⟨by omega, by omega⟩

section Queue

variable {words : List (BitVec 16 × Bool)}

theorem Queued.idle (queue : Queued s words) (rstN : i.rstN = true) (purge : s.qPurge = false)
    (silent : s.qDvalidIn i = false) : Queued (s.step regs i) words := by
  have valid : (s.step regs i).qValid = s.qValid := by
    simp [step, nextValid, sregEnable, qDvalidOut, oobIn, silent, rstN, purge]
  have data : (s.step regs i).qData = s.qData := by
    simp [step, sregEnable, qDvalidOut, oobIn, silent]
  cases queue with
  | none before => exact .none (valid.trans before)
  | one before word => exact .one (valid.trans before) (by rw [data, word])
  | more before pair => exact .more (valid.trans before) (data.trans pair)

/-- A word pushes the queue on. -/
theorem Queued.push (queue : Queued s words) (rstN : i.rstN = true) (purge : s.qPurge = false)
    (word : s.qDvalidIn i = true) (addr : i.fab.addr = cWrfData) :
    Queued (s.step regs i) (words ++ [(i.fab.data, i.fab.bytesel)]) := by
  have valid : (s.step regs i).qValid = (true, s.qValid.1) := by
    simp [step, nextValid, sregEnable, qDvalidOut, oobIn, word, rstN, purge, addr, cWrfData, cWrfOob]
  have data : (s.step regs i).qData = (s.qData.2, (cWrfData, i.fab.data)) := by
    simp [step, sregEnable, word, addr]
  cases queue with
  | none before => exact .one (by rw [valid, before]) (by rw [data])
  | one before last =>
      rename_i word
      have pair : [word] ++ [(i.fab.data, i.fab.bytesel)] = [] ++ [word, (i.fab.data, i.fab.bytesel)] := rfl
      rw [pair]
      exact .more (by rw [valid, before]) (by rw [data, last])
  | more before pair =>
      rename_i front u v
      have more : front ++ [u, v] ++ [(i.fab.data, i.fab.bytesel)] =
        (front ++ [u]) ++ [v, (i.fab.data, i.fab.bytesel)] := by
        simp
      rw [more]
      exact .more (by rw [valid, before]) (by rw [data, pair])

/-- The word that goes out for one that comes in. -/
theorem Queued.passes (queue : Queued s words) (word : s.qDvalidIn i = true) (addr : i.fab.addr = cWrfData) :
    ∃ passes, body (words ++ [(i.fab.data, i.fab.bytesel)]) = body words ++ passes ∧
      s.heard i = (if s.srcSof then [Event.sof] else []) ++ passes.map asData ++
        (if s.srcError then [Event.error] else []) ++ (if i.fab.eof then [Event.eof] else []) := by
  have none : s.oobIn i = false := by simp [oobIn, addr, cWrfData, cWrfOob]
  cases queue with
  | none valid =>
      refine ⟨[], by rw [body_short (by simp), body_short (by simp)]; rfl, ?_⟩
      simp [heard, srcFab, qDvalidOut, qfull, valid, none]
  | one valid last =>
      refine ⟨[], by rw [body_short (by simp), body_short (by simp)]; rfl, ?_⟩
      simp [heard, srcFab, qDvalidOut, qfull, valid, none]
  | more valid pair =>
      refine ⟨_, body_snoc _ _ _ _, ?_⟩
      simp [heard, srcFab, qDvalidOut, qfull, valid, none, word, pair, asData, datIn, addr, cWrfData, cWrfOob]

end Queue

/-- What came and what went out, whatever becomes of the frame. -/
theorem Inside.shifts (inside : Inside regs s f) (legal : Legal b i) (brings : Brings f i) :
    Queued (s.step regs i) (f.next s i).words ∧
      (f.next s i).heard = Event.sof :: (body (f.next s i).words).map asData ++
        if i.fab.eof then [Event.eof] else [] := by
  have before := inside.heard
  have words : (f.next s i).words = f.words ++ i.fab.dataWord := rfl
  have heard : (f.next s i).heard = f.heard ++ s.heard i := rfl
  rw [heard, words]
  cases valid : i.fab.dvalid with
  | false =>
      have silent : s.qDvalidIn i = false := by simp [qDvalidIn, valid]
      have shown : s.heard i = (if s.srcSof then [Event.sof] else []) ++ if i.fab.eof then [Event.eof] else [] := by
        simp [RxSizeCheck.heard, srcFab, qDvalidOut, oobIn, silent, inside.error]
      rw [dataWord_none valid, List.append_nil, shown, ← List.append_assoc, before]
      exact ⟨inside.queue.idle legal.rstN inside.purge silent, rfl⟩
  | true =>
      obtain ⟨addr, -⟩ := brings valid
      have word : s.qDvalidIn i = true := by simp [qDvalidIn, valid, inside.state]
      obtain ⟨passes, more, shown⟩ := inside.queue.passes word addr
      rw [dataWord_one valid addr]
      refine ⟨inside.queue.push legal.rstN inside.purge word addr, ?_⟩
      rw [more, shown, inside.error, if_neg Bool.false_ne_true, List.append_nil, List.map_append,
        ← List.append_assoc, ← List.append_assoc, before]
      rfl

theorem Inside.crc_next (inside : Inside regs s f) (legal : Legal b i) (sof : i.fab.sof = false)
    (brings : Brings f i) :
    ∃ odd, (s.step regs i).crc = RxCrcCheck.taken ⟨cCrc32InitValue, odd⟩ (f.next s i).bytes := by
  obtain ⟨odd, crc⟩ := inside.crc
  refine ⟨odd, ?_⟩
  have stepped : (s.step regs i).crc = s.crc.step { fab := i.fab, rstN := i.rstN } := rfl
  rw [stepped, crc_step sof legal.rstN, crc, next_bytes]
  cases valid : i.fab.dvalid with
  | false => simp [dataWord_none valid, bytesOf, RxCrcCheck.taken]
  | true =>
      have even : f.bytes.length = 2 * f.words.length := full_length (brings valid).2
      rw [taken_append (by omega)]

theorem giant_next (inside : Inside regs s f) (legal : Legal b i) (sof : i.fab.sof = false) :
    (s.step regs i).isGiant = decide (regs.mru.toNat < (f.next s i).settled % 2 ^ 14) := by
  have settled : (f.next s i).settled = f.bytes.length := rfl
  rw [settled, ← inside.counted]
  simp [step, countBytes, legal.rstN, legal.rxEn, sof, BitVec.lt_def]

theorem Inside.full_next (inside : Inside regs s f) (brings : Brings f i) : Full (f.next s i).words.dropLast := by
  have words : (f.next s i).words = f.words ++ i.fab.dataWord := rfl
  rw [words]
  cases valid : i.fab.dvalid with
  | false =>
      rw [dataWord_none valid, List.append_nil]
      exact inside.full
  | true =>
      obtain ⟨addr, full⟩ := brings valid
      rw [dataWord_one valid addr, List.dropLast_concat]
      exact full

theorem Inside.no_oob (_ : Inside regs s f) (brings : Brings f i) : s.oobIn i = false := by
  cases valid : i.fab.dvalid with
  | false => simp [oobIn, qDvalidIn, valid]
  | true => simp [oobIn, (brings valid).1, cWrfData, cWrfOob]

/-- Behind half a word there is none. -/
theorem Inside.no_more (inside : Inside regs s f) (brings : Brings f i) : s.qBytesel = true → i.fab.dvalid =
    false := by
  intro half
  by_contra valid
  exact inside.bytesel half (brings (by simpa using valid)).2

theorem Inside.step (inside : Inside regs s f) (legal : Legal b i) (sof : i.fab.sof = false) (eof : i.fab.eof = false)
    (brings : Brings f i) (quiet : s.errOnGiant regs = false) : Inside regs (s.step regs i) (f.next s i) := by
  obtain ⟨queue, heard⟩ := inside.shifts legal brings
  obtain ⟨counted, runt⟩ := inside.counts legal sof brings
  have noOob := inside.no_oob brings
  have plain := inside.no_more brings
  have output : s.genOutput regs i = { s with
      srcSof := false
      qBytesel := if i.fab.dvalid && i.fab.addr == cWrfData then i.fab.bytesel else s.qBytesel } := by
    simpa [genOutput, legal.rstN, legal.rxEn, inside.state, legal.error, eof, noOob, quiet] using plain
  have state : (s.step regs i).state = (s.genOutput regs i).state := rfl
  have first : (s.step regs i).srcSof = (s.genOutput regs i).srcSof := rfl
  have error : (s.step regs i).srcError = (s.genOutput regs i).srcError := rfl
  have purge : (s.step regs i).qPurge = (s.genOutput regs i).qPurge := rfl
  have half : (s.step regs i).qBytesel = (s.genOutput regs i).qBytesel := rfl
  rw [output] at state first error purge half
  refine
    { state := state.trans inside.state
      running := by simp [Frame.next, inside.running, eof]
      words := ?_
      full := inside.full_next brings
      heard := by simp [heard, first, eof]
      first := by simp [first]
      error := error.trans inside.error
      purge := purge.trans inside.purge
      bytesel := ?_
      counted, runt
      giant := giant_next inside legal sof
      settled := by rw [next_bytes, List.length_append]; exact Nat.le_add_right _ _
      crc := inside.crc_next legal sof brings
      queue }
  · have none : (i.fab.dvalid && i.fab.addr == cWrfOob) = false := by
      cases valid : i.fab.dvalid with
      | false => rfl
      | true => simp [(brings valid).1, cWrfData, cWrfOob]
    simp [Frame.next, inside.words, none]
  · rw [half]
    have words : (f.next s i).words = f.words ++ i.fab.dataWord := rfl
    rw [words]
    cases valid : i.fab.dvalid with
    | false => simpa [dataWord_none valid] using inside.bytesel
    | true =>
        obtain ⟨addr, -⟩ := brings valid
        rw [dataWord_one valid addr, addr]
        intro last full
        have unset := full (i.fab.data, i.fab.bytesel) (by simp)
        simp_all

/-! ### The judgement -/

theorem Inside.nonempty (long : 3 ≤ f.words.length) : f.bytes ≠ [] := by
  intro empty
  match words : f.words with
  | [] => simp [words] at long
  | w :: rest => simp [Frame.bytes, words, bytesOf] at empty

/-- The checks pass on a good frame, and on no other. -/
theorem Inside.judges (inside : Inside regs s f) (long : 3 ≤ f.words.length)
    (known : regs.aGiant = true ∨ f.bytes.length ≤ regs.mru.toNat ∨ regs.mru.toNat < f.settled % 2 ^ 14) :
    (s.sizeCheckOk regs = true ∧ s.crc.crcMatch = true) ↔ f.Good regs := by
  obtain ⟨odd, crc⟩ := inside.crc
  have settled := inside.settled
  have short := Nat.mod_le f.settled (2 ^ 14)
  have runt : s.isRunt = true ↔ f.bytes.length < cMinFrameSize := by rw [inside.runt, decide_eq_true_iff]
  have giant : s.isGiant = true ↔ regs.mru.toNat < f.settled % 2 ^ 14 := by rw [inside.giant, decide_eq_true_iff]
  rw [crc, taken_match (Inside.nonempty long) odd]
  constructor
  · rintro ⟨size, same⟩
    simp only [sizeCheckOk, Bool.not_eq_true', Bool.or_eq_false_iff, Bool.and_eq_false_iff,
      Bool.not_eq_false'] at size
    refine ⟨same, ?_, ?_⟩
    · rcases size.1 with enough | accepted
      · left
        by_contra few
        simp [runt.2 (by omega)] at enough
      · exact .inr accepted
    · rcases size.2 with fits | accepted
      · rcases known with accepted | few | flagged
        · exact .inr accepted
        · exact .inl few
        · simp [giant.2 flagged] at fits
      · exact .inr accepted
  · intro good
    refine ⟨?_, good.crc⟩
    simp only [sizeCheckOk, Bool.not_eq_true', Bool.or_eq_false_iff, Bool.and_eq_false_iff, Bool.not_eq_false']
    constructor
    · rcases good.runt with enough | accepted
      · left
        by_contra few
        have below := runt.1 (by simpa using few)
        omega
      · exact .inr accepted
    · rcases good.giant with few | accepted
      · left
        by_contra flagged
        have above := giant.1 (by simpa using flagged)
        omega
      · exact .inr accepted

/-- Three words or more take the last four bytes with them. -/
theorem stripped_of (full : Full f.words.dropLast) (long : 3 ≤ f.words.length)
    (heard : f.heard = .sof :: ((body f.words).map asData ++ f.oob.map .oob ++ [.eof])) : f.Stripped := by
  obtain ⟨before, u, v, w, words⟩ : ∃ before u v w, f.words = before ++ [u, v] ++ [w] := by
    match shape : f.words.reverse with
    | [] => simp [List.reverse_eq_nil_iff.1 shape] at long
    | [w] => simp [List.reverse_eq_iff.1 shape] at long
    | [w, v] => simp [List.reverse_eq_iff.1 shape] at long
    | w :: v :: u :: before => exact ⟨before.reverse, u, v, w, by simp [List.reverse_eq_iff.1 shape]⟩
  rw [words, List.dropLast_concat] at full
  refine ⟨body f.words, ?_, heard⟩
  rw [Frame.bytes, words]
  exact body_bytes full

theorem Bad.not_good (bad : Bad regs f) : ¬f.Good regs := by
  rcases bad with ⟨long, refused⟩ | ⟨-, bad⟩
  · intro good
    rcases good.giant with short | accepted
    · omega
    · simp [refused] at accepted
  · exact bad

/-- What a frame takes up in a cycle. -/
theorem Legal.takes (legal : Legal b i) (now : b.current = some f) (valid : i.fab.dvalid = true) :
    f.ended = false ∧ (i.fab.addr = cWrfData ∧ f.oob = [] ∧ Full f.words ∨ i.fab.addr = cWrfOob ∧
      3 ≤ f.words.length) := by
  obtain ⟨g, present, running, kind⟩ := legal.word valid
  rw [now, Option.mem_some_iff] at present
  exact present ▸ ⟨running, kind⟩

theorem Bad.next (bad : Bad regs f) (legal : Legal b i) (now : b.current = some f) : Bad regs (f.next s i) := by
  rcases bad with ⟨long, refused⟩ | ⟨some, bad⟩
  · left
    rw [next_bytes, List.length_append]
    exact ⟨by omega, refused⟩
  · right
    have none : i.fab.dataWord = [] := by
      cases valid : i.fab.dvalid with
      | false => exact dataWord_none valid
      | true =>
          rcases (legal.takes now valid).2 with ⟨-, empty, -⟩ | ⟨addr, -⟩
          · exact absurd empty some
          · simp [InternalFabric.dataWord, addr, cWrfOob, cWrfData]
    have same : (f.next s i).bytes = f.bytes := by rw [next_bytes, none]; simp [bytesOf]
    refine ⟨by simp [Frame.next, some], fun good => bad ⟨?_, ?_, ?_⟩⟩
    · rw [← same]; exact good.crc
    · rw [← same]; exact good.runt
    · rw [← same]; exact good.giant

/-- Between frames the unit passes ends only. -/
theorem waiting_heard (state : s.state = .waitFrame) (sof : s.srcSof = false) :
    s.heard i = (if s.srcError then [Event.error] else []) ++ (if i.fab.eof then [Event.eof] else []) := by
  simp [heard, srcFab, qDvalidOut, oobIn, qDvalidIn, state, sof]

variable (regs) in
theorem waiting_step (legal : Legal b i) (state : s.state = .waitFrame) (sof : i.fab.sof = false) :
    (s.step regs i).state = .waitFrame ∧ (s.step regs i).srcSof = false ∧ (s.step regs i).srcError = false := by
  simp [step, genOutput, legal.rstN, legal.rxEn, state, sof]

theorem Failing.step (failing : Failing regs s f) (legal : Legal b i) (now : b.current = some f)
    (sof : i.fab.sof = false) : Failed regs (s.step regs i) (f.next s i) := by
  obtain ⟨state, first, error⟩ := waiting_step regs legal failing.state sof
  refine ⟨state, first, error, failing.bad.next legal now, ?_⟩
  obtain ⟨data, oob, own, own', heard⟩ := failing.heard
  refine ⟨data, oob, if i.fab.eof then [.eof] else [], ?_, own'.trans (List.prefix_append _ _), ?_, ?_⟩
  · rw [Frame.next, List.map_append]
    exact own.trans (List.prefix_append _ _)
  · intro e inside
    cases eof : i.fab.eof <;> simp_all
  · simp [Frame.next, waiting_heard failing.state failing.sof, failing.error, heard]

theorem Failed.step (failed : Failed regs s f) (legal : Legal b i) (now : b.current = some f)
    (sof : i.fab.sof = false) : Failed regs (s.step regs i) (f.next s i) := by
  obtain ⟨state, first, error⟩ := waiting_step regs legal failed.state sof
  refine ⟨state, first, error, failed.bad.next legal now, ?_⟩
  obtain ⟨data, oob, rest, own, own', ends, heard⟩ := failed.rejected
  refine ⟨data, oob, rest ++ if i.fab.eof then [.eof] else [], ?_, own'.trans (List.prefix_append _ _), ?_, ?_⟩
  · rw [Frame.next, List.map_append]
    exact own.trans (List.prefix_append _ _)
  · intro e inside
    rcases List.mem_append.1 inside with before | here
    · exact ends e before
    · cases eof : i.fab.eof <;> simp_all
  · simp [Frame.next, waiting_heard failed.state failed.sof, failed.error, heard]

theorem Through.step (through : Through regs s f) (legal : Legal b i) (now : b.current = some f)
    (sof : i.fab.sof = false) : Through regs (s.step regs i) (f.next s i) := by
  obtain ⟨state, first, error⟩ := waiting_step regs legal through.state sof
  have silent : i.fab.dvalid = false := by
    by_contra valid
    have running := (legal.takes now (by simpa using valid)).1
    simp [through.ended] at running
  have eof : i.fab.eof = false := by
    by_contra ends
    obtain ⟨-, g, present, running, -⟩ := legal.ends (by simpa using ends)
    rw [now, Option.mem_some_iff] at present
    simp [← present, through.ended] at running
  have same : f.next s i = { f with settled := f.bytes.length } := by
    simp [Frame.next, waiting_heard through.state through.sof, through.error, through.ended, silent, eof,
      dataWord_none silent]
  rw [same]
  exact ⟨state, through.ended, first, error, ⟨through.good.crc, through.good.runt, through.good.giant⟩,
    through.stripped⟩

/-- A word behind the first of the out-of-band words. -/
theorem Passing.step (passing : Passing regs s f) (legal : Legal b i) (fits : Fits regs s b i)
    (now : b.current = some f) : Phase regs (s.step regs i) (f.next s i) := by
  have none : i.fab.dataWord = [] := by
    cases valid : i.fab.dvalid with
    | false => exact dataWord_none valid
    | true =>
        rcases (legal.takes now valid).2 with ⟨-, empty, -⟩ | ⟨addr, -⟩
        · exact absurd empty passing.oob
        · simp [InternalFabric.dataWord, addr, cWrfOob, cWrfData]
  have words : (f.next s i).words = f.words := by simp [Frame.next, none]
  have good : (f.next s i).Good regs := by
    refine ⟨?_, ?_, ?_⟩ <;> rw [Frame.bytes, words]
    · exact passing.good.crc
    · exact passing.good.runt
    · exact passing.good.giant
  have shown : s.heard i = (if i.fab.dvalid && i.fab.addr == cWrfOob then [Event.oob i.fab.data] else []) ++
      if i.fab.eof then [Event.eof] else [] := by
    cases valid : i.fab.dvalid with
    | false => simp [RxSizeCheck.heard, srcFab, qDvalidOut, oobIn, qDvalidIn, valid, passing.sof, passing.error]
    | true =>
        have addr : i.fab.addr = cWrfOob := by
          rcases (legal.takes now valid).2 with ⟨-, empty, -⟩ | ⟨addr, -⟩
          · exact absurd empty passing.oob
          · exact addr
        simp [RxSizeCheck.heard, srcFab, qDvalidOut, oobIn, qDvalidIn, valid, addr, passing.state, passing.sof,
          passing.error,
          fits.oob valid passing.state]
  have heard : (f.next s i).heard = .sof :: ((body (f.next s i).words).map asData ++ (f.next s i).oob.map .oob) ++
      if i.fab.eof then [Event.eof] else [] := by
    rw [words]
    simp only [Frame.next, shown, passing.heard]
    split <;> simp
  cases eof : i.fab.eof with
  | true =>
      have asks := fits.ends eof passing.state
      refine .through ⟨?_, ?_, ?_, ?_, good, stripped_of (by rw [words]; exact passing.full)
        (by rw [words]; exact passing.long) ?_⟩
      · simp [RxSizeCheck.step, genOutput, legal.rstN, legal.rxEn, passing.state, asks, eof]
      · simp [Frame.next, eof]
      · simp [RxSizeCheck.step, genOutput, legal.rstN, legal.rxEn, passing.state, passing.sof]
      · simp [RxSizeCheck.step, genOutput, legal.rstN, legal.rxEn, passing.state, passing.error]
      · rw [heard, eof]
        simp
  | false =>
      refine .passing ⟨?_, ?_, ?_, good, by rw [words]; exact passing.long, by rw [words]; exact passing.full, ?_,
        ?_, ?_, ?_⟩
      · simp [RxSizeCheck.step, genOutput, legal.rstN, legal.rxEn, passing.state, eof]
      · simp [Frame.next, eof, passing.running]
      · simp [Frame.next, passing.oob]
      · rw [heard, eof]
        simp
      · simp [RxSizeCheck.step, genOutput, legal.rstN, legal.rxEn, passing.state, passing.sof]
      · simp [RxSizeCheck.step, genOutput, legal.rstN, legal.rxEn, passing.state, passing.error]
      · simp [RxSizeCheck.step, genOutput, legal.rstN, legal.rxEn, passing.state, passing.purge]

/-- Words beyond the limit: the frame is refused at once. -/
theorem Inside.refused (inside : Inside regs s f) (legal : Legal b i) (eof : i.fab.eof = false)
    (brings : Brings f i) (giant : s.errOnGiant regs = true) : Failing regs (s.step regs i) (f.next s i) := by
  obtain ⟨-, heard⟩ := inside.shifts legal brings
  have noOob := inside.no_oob brings
  have plain := inside.no_more brings
  have bad : s.sizeCheckOk regs = false := by
    simp only [errOnGiant] at giant
    simp [sizeCheckOk, giant]
  have output : (s.genOutput regs i).state = .waitFrame ∧ (s.genOutput regs i).srcSof = false ∧
      (s.genOutput regs i).srcError = true := by
    cases half : s.qBytesel with
    | false => simp [genOutput, legal.rstN, legal.rxEn, inside.state, legal.error, eof, noOob, giant, bad, half]
    | true =>
        simp [genOutput, legal.rstN, legal.rxEn, inside.state, legal.error, eof, noOob, giant, bad, half, plain half]
  refine ⟨output.1, by simp [Frame.next, inside.running, eof], output.2.1, output.2.2, .inl ?_,
    body (f.next s i).words, [], body_own _, List.nil_prefix, ?_⟩
  · simp only [errOnGiant, Bool.and_eq_true, inside.giant, decide_eq_true_eq, Bool.not_eq_true'] at giant
    have settled := inside.settled
    have short := Nat.mod_le f.settled (2 ^ 14)
    rw [next_bytes, List.length_append]
    exact ⟨by omega, giant.2⟩
  · simp [heard, eof]

theorem Good.of_words {g : Frame} (good : f.Good regs) (words : g.words = f.words) : g.Good regs := by
  refine ⟨?_, ?_, ?_⟩ <;> rw [Frame.bytes, words]
  · exact good.crc
  · exact good.runt
  · exact good.giant

/-- The first of the out-of-band words. -/
theorem Inside.closed (inside : Inside regs s f) (legal : Legal b i) (fits : Fits regs s b i)
    (now : b.current = some f) (valid : i.fab.dvalid = true) (addr : i.fab.addr = cWrfOob) :
    Phase regs (s.step regs i) (f.next s i) := by
  have long : 3 ≤ f.words.length := by
    rcases (legal.takes now valid).2 with ⟨data, -⟩ | ⟨-, long⟩
    · simp [addr, cWrfData, cWrfOob] at data
    · exact long
  have eof : i.fab.eof = false := by
    by_contra ends
    have silent := (legal.ends (by simpa using ends)).1
    simp [valid] at silent
  have first : s.srcSof = false := by
    by_contra first
    have none := inside.first (by simpa using first)
    simp [none] at long
  obtain ⟨before, u, v, -, full, -⟩ := inside.queue_full (by omega)
  have oob : s.oobIn i = true := by simp [oobIn, qDvalidIn, valid, addr, inside.state]
  have word : s.qDvalidIn i = true := by simp [qDvalidIn, valid, inside.state]
  have shown : s.heard i = [.oob i.fab.data] := by
    simp [RxSizeCheck.heard, srcFab, qDvalidOut, qfull, full, word, oob, addr, first, inside.error, eof]
  have words : (f.next s i).words = f.words := by simp [Frame.next, InternalFabric.dataWord, addr, cWrfData, cWrfOob]
  have own : (f.next s i).oob = [i.fab.data] := by simp [Frame.next, inside.words, valid, addr]
  have heard : (f.next s i).heard = .sof :: ((body f.words).map asData ++ [i.fab.data].map .oob) := by
    have before := inside.heard
    rw [first, if_neg Bool.false_ne_true, List.append_nil] at before
    simp [Frame.next, shown, before]
  have judges := inside.judges long (fits.giant inside.state (.inr ⟨valid, addr⟩) f now)
  by_cases good : f.Good regs
  · obtain ⟨size, same⟩ := judges.2 good
    refine .passing ⟨?_, ?_, by simp [own], Good.of_words good words, by rw [words]; exact long,
      by rw [words]; exact inside.full, by rw [heard, words, own], ?_, ?_, ?_⟩
    · simp [RxSizeCheck.step, genOutput, legal.rstN, legal.rxEn, inside.state, legal.error, oob, size, same, eof]
    · simp [Frame.next, inside.running, eof]
    · simp [RxSizeCheck.step, genOutput, legal.rstN, legal.rxEn, inside.state, legal.error, oob, size, same, eof]
    · simp [RxSizeCheck.step, genOutput, legal.rstN, legal.rxEn, inside.state, legal.error, oob, size, same, eof,
        inside.error]
    · simp [RxSizeCheck.step, genOutput, legal.rstN, legal.rxEn, inside.state, legal.error, oob, size, same, eof,
        inside.purge]
  · have fails : (!s.sizeCheckOk regs || !s.crc.crcMatch) = true := by
      by_contra passes
      exact good (judges.1 (by simpa using passes))
    have bad : ¬(f.next s i).Good regs := fun better => good (Good.of_words better words.symm)
    have output : (s.genOutput regs i).state = .waitFrame ∧ (s.genOutput regs i).srcSof = false ∧
        (s.genOutput regs i).srcError = true := by
      simp only [genOutput, legal.rstN, legal.rxEn, inside.state, legal.error, oob, fails, Bool.not_true,
        Bool.and_false, Bool.false_and, Bool.or_self, Bool.or_true, Bool.true_or, Bool.false_eq_true, if_false,
          if_true,
        and_self]
    refine .failing ⟨output.1, by simp [Frame.next, inside.running, eof], output.2.1, output.2.2,
      .inr ⟨by simp [own], bad⟩, body f.words, [i.fab.data], ?_, ?_, heard⟩
    · rw [words]
      exact body_own _
    · rw [own]

/-- A good frame without out-of-band words ends. -/
theorem Inside.ends (inside : Inside regs s f) (legal : Legal b i) (fits : Fits regs s b i)
    (now : b.current = some f) (eof : i.fab.eof = true) : Through regs (s.step regs i) (f.next s i) := by
  obtain ⟨silent, g, present, -, long⟩ := legal.ends eof
  rw [now, Option.mem_some_iff] at present
  subst present
  have brings : Brings f i := by simp [Brings, silent]
  obtain ⟨-, heard⟩ := inside.shifts legal brings
  have noOob := inside.no_oob brings
  have good := fits.plain eof inside.state f now
  obtain ⟨size, same⟩ := (inside.judges long (fits.giant inside.state (.inl eof) f now)).2 good
  have words : (f.next s i).words = f.words := by simp [Frame.next, dataWord_none silent]
  have own : (f.next s i).oob = [] := by simp [Frame.next, inside.words, silent]
  refine ⟨?_, by simp [Frame.next, eof], ?_, ?_, Good.of_words good words,
    stripped_of (by rw [words]; exact inside.full) (by rw [words]; exact long) (by simp [heard, own, eof])⟩
  · simp [RxSizeCheck.step, genOutput, legal.rstN, legal.rxEn, inside.state, legal.error, silent, size, same, eof]
  · simp [RxSizeCheck.step, genOutput, legal.rstN, legal.rxEn, inside.state, legal.error, silent, size, same, eof]
  · simp [RxSizeCheck.step, genOutput, legal.rstN, legal.rxEn, inside.state, legal.error, silent, size, same, eof,
      inside.error]

theorem Phase.step (phase : Phase regs s f) (legal : Legal b i) (fits : Fits regs s b i)
    (now : b.current = some f) (sof : i.fab.sof = false) : Phase regs (s.step regs i) (f.next s i) := by
  cases phase with
  | inside inside =>
      cases eof : i.fab.eof with
      | true => exact .through (inside.ends legal fits now eof)
      | false =>
          by_cases oob : i.fab.dvalid = true ∧ i.fab.addr = cWrfOob
          · exact inside.closed legal fits now oob.1 oob.2
          · have brings : Brings f i := by
              intro valid
              rcases (legal.takes now valid).2 with ⟨addr, -, full⟩ | ⟨addr, -⟩
              · exact ⟨addr, full⟩
              · exact absurd ⟨valid, addr⟩ oob
            cases giant : s.errOnGiant regs with
            | true => exact .failing (inside.refused legal eof brings giant)
            | false => exact .inside (inside.step legal sof eof brings giant)
  | passing passing => exact passing.step legal fits now
  | failing failing => exact .failed (failing.step legal now sof)
  | failed failed => exact .failed (failed.step legal now sof)
  | through through => exact .through (through.step legal now sof)

/-- A frame that has ended is judged. -/
theorem Phase.judged (phase : Phase regs s f) (ended : f.ended = true) : f.Judged regs := by
  cases phase with
  | inside inside => simp [inside.running] at ended
  | passing passing => simp [passing.running] at ended
  | failing failing => simp [failing.running] at ended
  | failed failed => exact ⟨fun good => absurd good failed.bad.not_good, fun _ => failed.rejected⟩
  | through through => exact ⟨fun _ => through.stripped, fun bad => absurd through.good bad⟩

theorem start_step (legal : Legal b i) (sof : i.fab.sof = true) (state : s.state = .waitFrame)
    (queue : s.qValid = (false, false)) : Inside regs (s.step regs i) {} := by
  obtain ⟨silent, -, -⟩ := legal.start sof
  refine
    { state := by simp [RxSizeCheck.step, genOutput, legal.rstN, legal.rxEn, state, sof]
      running := rfl
      words := rfl
      full := by simp [Full]
      heard := by simp [RxSizeCheck.step, genOutput, legal.rstN, legal.rxEn, state, sof, body]
      first := fun _ => rfl
      error := by simp [RxSizeCheck.step, genOutput, legal.rstN, legal.rxEn, state]
      purge := by simp [RxSizeCheck.step, genOutput, legal.rstN, legal.rxEn, state]
      bytesel := by simp [RxSizeCheck.step, genOutput, legal.rstN, legal.rxEn, state]
      counted := by simp [RxSizeCheck.step, countBytes, legal.rstN, legal.rxEn, silent, sof, Frame.bytes, bytesOf]
      runt := by
        simp [RxSizeCheck.step, countBytes, legal.rstN, legal.rxEn, silent, sof, Frame.bytes, bytesOf, cMinFrameSize]
      giant := by simp [RxSizeCheck.step, countBytes, legal.rstN, legal.rxEn, sof]
      settled := Nat.zero_le _
      crc := ⟨s.crc.crcLastIsOdd, by
        simp [RxSizeCheck.step, RxCrcCheck.step, RxCrcCheck.crcGenReset, sof, Frame.bytes, bytesOf, RxCrcCheck.taken]⟩
      queue := .none ?_ }
  simp [RxSizeCheck.step, nextValid, sregEnable, qDvalidOut, oobIn, qDvalidIn, silent, queue]

/-- Where the next frame starts, the one before is judged and silent. -/
theorem Phase.over (phase : Phase regs s f) (legal : Legal b i) (sof : i.fab.sof = true)
    (now : b.current = some f) : s.state = .waitFrame ∧ (f.next s i).Judged regs := by
  obtain ⟨silent, eof, past⟩ := legal.start sof
  have ended := past f now
  have judged := phase.judged ended
  have rests : s.state = .waitFrame ∧ s.srcSof = false ∧ s.srcError = false := by
    cases phase with
    | inside inside => simp [inside.running] at ended
    | passing passing => simp [passing.running] at ended
    | failing failing => simp [failing.running] at ended
    | failed failed => exact ⟨failed.state, failed.sof, failed.error⟩
    | through through => exact ⟨through.state, through.sof, through.error⟩
  obtain ⟨state, first, error⟩ := rests
  have same : f.next s i = { f with settled := f.bytes.length } := by
    simp [Frame.next, waiting_heard state first, error, ended, silent, eof, dataWord_none silent]
  rw [same]
  exact ⟨state, fun good => judged.1 (Good.of_words good rfl), fun bad => judged.2 fun good => bad
    (Good.of_words good rfl)⟩

end Edge

structure Inv (sb : RxSizeCheck × Book) : Prop where
  done : ∀ f ∈ sb.2.done, f.Judged regs
  free : sb.2.current = none → sb.1.state = .waitFrame
  current : ∀ f ∈ sb.2.current, Phase regs sb.1 f

theorem Inv.step {s : RxSizeCheck} {b : Book} {i : RxCheckIn} (inv : Inv regs (s, b)) (legal : Legal b i)
    (fits : Fits regs s b i) : Inv regs (stepBook regs (s, b) i) := by
  cases sof : i.fab.sof with
  | true =>
      have state : s.state = .waitFrame := by
        cases now : b.current with
        | none => exact inv.free now
        | some f => exact ((inv.current f now).over legal sof now).1
      refine ⟨?_, by simp [stepBook, Book.next, sof], ?_⟩
      · intro f done
        simp only [stepBook, Book.next, sof, if_true, List.mem_append, Option.mem_toList,
          Option.map_eq_some_iff] at done
        rcases done with done | ⟨g, now, rfl⟩
        · exact inv.done f done
        · exact ((inv.current g now).over legal sof now).2
      · intro f now
        simp only [stepBook, Book.next, sof, if_true, Option.mem_some_iff] at now
        exact now ▸ .inside (start_step legal sof state (fits.start sof))
  | false =>
      refine ⟨by simpa [stepBook, Book.next, sof] using inv.done, ?_, ?_⟩
      · intro absent
        have before : b.current = none := by simpa [stepBook, Book.next, sof] using absent
        exact (waiting_step regs legal (inv.free before) sof).1
      · intro f now
        simp only [stepBook, Book.next, sof, Bool.false_eq_true, if_false, Option.mem_def,
          Option.map_eq_some_iff] at now
        obtain ⟨g, now, rfl⟩ := now
        exact (inv.current g now).step legal fits now sof

/-- In a run from the waiting unit a frame that has ended is stripped or refused, each for itself. -/
theorem frames_judged (cycles : List RxCheckIn) (s : RxSizeCheck) (waits : s.state = .waitFrame)
    (legal : Along (stepBook regs) (fun sb i => Legal sb.2 i) (s, {}) cycles)
    (fits : Along (stepBook regs) (fun sb i => Fits regs sb.1 sb.2 i) (s, {}) cycles) :
    (∀ f ∈ (run (stepBook regs) (s, {}) cycles).2.done, f.Judged regs) ∧
      ∀ f ∈ (run (stepBook regs) (s, {}) cycles).2.current, f.ended = true → f.Judged regs := by
  have start : Inv regs (s, {}) := ⟨by simp, fun _ => waits, by simp⟩
  have kept := (legal.and fits).invariant (Inv regs) (fun _ _ inv both => inv.step regs both.1 both.2) start
  exact ⟨kept.done, fun f now ended => (kept.current f now).judged ended⟩

/-! ### Frames with and without out-of-band words -/

instance (b : Book) (i : RxCheckIn) : Decidable (Legal b i) :=
  have (f : Frame) : Decidable (∀ w ∈ f.words, w.2 = false) := List.decidableBAll _ _
  decidable_of_iff
    (i.rstN = true ∧ i.rxEn = true ∧ i.fab.error = false ∧
      (i.fab.sof = true → i.fab.dvalid = false ∧ i.fab.eof = false ∧ ∀ f ∈ b.current, f.ended = true) ∧
      (i.fab.dvalid = true → ∃ f ∈ b.current, f.ended = false ∧
        (i.fab.addr = cWrfData ∧ f.oob = [] ∧ (∀ w ∈ f.words, w.2 = false) ∨
          i.fab.addr = cWrfOob ∧ 3 ≤ f.words.length)) ∧
      (i.fab.eof = true → i.fab.dvalid = false ∧ ∃ f ∈ b.current, f.ended = false ∧ 3 ≤ f.words.length))
    ⟨fun ⟨rstN, rxEn, error, start, word, ends⟩ => ⟨rstN, rxEn, error, start, word, ends⟩,
      fun ⟨rstN, rxEn, error, start, word, ends⟩ => ⟨rstN, rxEn, error, start, word, ends⟩⟩

instance (f : Frame) : Decidable (f.Good regs) :=
  decidable_of_iff
    (f.bytes.foldl fUpdateCrc32D8 cCrc32InitValue = cCrc32ResidueFull ∧
      (cMinFrameSize ≤ f.bytes.length ∨ regs.aRunt = true) ∧
      (f.bytes.length ≤ regs.mru.toNat ∨ regs.aGiant = true))
    ⟨fun ⟨crc, runt, giant⟩ => ⟨crc, runt, giant⟩, fun ⟨crc, runt, giant⟩ => ⟨crc, runt, giant⟩⟩

instance (s : RxSizeCheck) (b : Book) (i : RxCheckIn) : Decidable (Fits regs s b i) :=
  decidable_of_iff
    ((i.fab.sof = true → s.qValid = (false, false)) ∧
      (i.fab.eof = true → s.state = .data → ∀ f ∈ b.current, f.Good regs) ∧
      (i.fab.dvalid = true → s.state = .oob → s.validMask = true) ∧
      (i.fab.eof = true → s.state = .oob → i.srcDreq = true) ∧
      (s.state = .data → i.fab.eof = true ∨ i.fab.dvalid = true ∧ i.fab.addr = cWrfOob → ∀ f ∈ b.current,
        regs.aGiant = true ∨ f.bytes.length ≤ regs.mru.toNat ∨ regs.mru.toNat < f.settled % 2 ^ 14))
    ⟨fun ⟨start, plain, oob, ends, giant⟩ => ⟨start, plain, oob, ends, giant⟩,
      fun ⟨start, plain, oob, ends, giant⟩ => ⟨start, plain, oob, ends, giant⟩⟩

def anyRunt : RxCheckRegs := { mru := 1518, aRunt := true, aGiant := false }

def sofIn : RxCheckIn := { fab := { sof := true } }

def wordIn (data : BitVec 16) (bytesel : Bool) : RxCheckIn := { fab := { dvalid := true, data, bytesel } }

def extraIn (data : BitVec 16) : RxCheckIn := { fab := { dvalid := true, data, addr := cWrfOob } }

def eofIn : RxCheckIn := { fab := { eof := true } }

/-- Two bytes with their check sequence. -/
def twoBytes : List RxCheckIn := [sofIn, wordIn 0x1234 false, wordIn 0x9996 false, wordIn 0x9918 false]

/-- Two bytes, a frame with a wrong check sequence, and three bytes. -/
def mixed : List RxCheckIn :=
  twoBytes ++ [extraIn 0x0100, extraIn 7, eofIn] ++
    [sofIn, wordIn 0x1234 false, wordIn 0x9996 false, wordIn 0x9919 false, extraIn 0x0100, eofIn] ++
    [sofIn, wordIn 0x1234 false, wordIn 0x563a false, {}, wordIn 0xa9c1 false, wordIn 0xd900 true, extraIn 0x0100,
      eofIn,
      sofIn]

theorem frames_judged_mixed : (run (stepBook anyRunt) ({}, {}) mixed).2.done.length = 3 ∧
    ∀ f ∈ (run (stepBook anyRunt) ({}, {}) mixed).2.done, f.Judged anyRunt :=
  ⟨by decide +kernel, (frames_judged anyRunt mixed {} rfl (by decide +kernel) (by decide +kernel)).1⟩

/-- Two frames that end without out-of-band words. -/
def bare : List RxCheckIn := twoBytes ++ [eofIn] ++ twoBytes ++ [eofIn]

/-- The second frame is good, but it goes out behind the check sequence of the first one. -/
theorem sequence_left_over : Along (stepBook anyRunt) (fun sb i => Legal sb.2 i) ({}, {}) bare ∧
    ¬∀ f ∈ (run (stepBook anyRunt) ({}, {}) bare).2.current, f.ended = true → f.Judged anyRunt := by
  refine ⟨by decide +kernel, ?_⟩
  intro judged
  have last : ∃ f ∈ (run (stepBook anyRunt) ({}, {}) bare).2.current, f.ended = true ∧ f.Good anyRunt ∧
      f.bytes.length = 6 ∧ f.oob = [] ∧ f.heard.length = 5 := by decide +kernel
  obtain ⟨f, now, ended, good, six, none, five⟩ := last
  obtain ⟨data, words, heard⟩ := (judged f now ended).1 good
  have two : (f.bytes.take (f.bytes.length - 4)).length = 2 := by simp [six]
  obtain ⟨x, y, bytes⟩ := List.length_eq_two.1 two
  have one := congrArg List.length words
  have count := congrArg List.length heard
  simp only [bytes, wordsOf, List.length_map, List.length_singleton] at one
  simp only [five, none, List.map_nil, List.append_nil, List.length_cons, List.length_append, List.length_map, one,
    List.length_nil] at count
  omega

end RxSizeCheck

end WrCores.Endpoint
