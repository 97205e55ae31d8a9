import WrCores.Endpoint.CrcFrames

/-!
ep_rx_crc_size_check.vhd with `g_use_new_crc` and the queue that stands inlined in it. The registers
of the port do not change. Of its two words `qData` holds the older one first.
-/

namespace WrCores.Endpoint

open Clocked
open Fabric (cWrfData cWrfOob)

inductive RxCheckState where
  | waitFrame | data | oob
  deriving DecidableEq, Repr

structure RxCheckRegs where
  mru : BitVec 14
  aRunt : Bool
  aGiant : Bool
  deriving DecidableEq, Repr

structure RxCheckIn where
  fab : InternalFabric := {}
  srcDreq : Bool := true
  rxEn : Bool := true
  rstN : Bool := true
  deriving DecidableEq, Repr

structure RxSizeCheck where
  crc : RxCrcCheck := ⟨0, false⟩
  byteCntr : BitVec 14 := 0
  isRunt : Bool := false
  isGiant : Bool := false
  state : RxCheckState := .waitFrame
  qPurge : Bool := false
  qBytesel : Bool := false
  qData : (BitVec 2 × BitVec 16) × (BitVec 2 × BitVec 16) := default
  qValid : Bool × Bool := (false, false)
  validMask : Bool := false
  srcSof : Bool := false
  srcError : Bool := false
  rmonPcsErr : Bool := false
  rmonGiant : Bool := false
  rmonRunt : Bool := false
  rmonCrcErr : Bool := false
  deriving DecidableEq, Repr

def cMinFrameSize : Nat := 64

namespace RxSizeCheck

variable (regs : RxCheckRegs)

def sizeCheckOk (s : RxSizeCheck) : Bool := !(s.isRunt && !regs.aRunt || s.isGiant && !regs.aGiant)

def errOnGiant (s : RxSizeCheck) : Bool := s.isGiant && !regs.aGiant

def qDvalidIn (s : RxSizeCheck) (i : RxCheckIn) : Bool := i.fab.dvalid && (s.state == .data || s.state == .oob)

def oobIn (s : RxSizeCheck) (i : RxCheckIn) : Bool := i.fab.addr == cWrfOob && s.qDvalidIn i

def datIn (s : RxSizeCheck) (i : RxCheckIn) : Bool := i.fab.addr == cWrfData && s.qDvalidIn i

def qempty (s : RxSizeCheck) : Bool := !s.qValid.1 && !s.qValid.2

def qfull (s : RxSizeCheck) : Bool := s.qValid.1 && s.qValid.2

def qDvalidOut (s : RxSizeCheck) (i : RxCheckIn) : Bool := s.qfull && s.qDvalidIn i || s.oobIn i && s.validMask

def sregEnable (s : RxSizeCheck) (i : RxCheckIn) : Bool := s.qDvalidIn i || !s.qempty && s.qDvalidOut i

def snkDreq (s : RxSizeCheck) (i : RxCheckIn) : Bool := (i.srcDreq || !s.qfull) && !(i.fab.eof || i.fab.error)

/-- `src_fab_o`. -/
def srcFab (s : RxSizeCheck) (i : RxCheckIn) : InternalFabric :=
  { sof := s.srcSof
    eof := i.fab.eof
    error := s.srcError
    dvalid := s.qDvalidOut i
    bytesel := s.datIn i && i.fab.bytesel
    hasRxTimestamp := i.fab.hasRxTimestamp
    rxTimestampValid := i.fab.rxTimestampValid
    data := if s.oobIn i then i.fab.data else s.qData.1.2
    addr := if s.oobIn i then i.fab.addr else s.qData.1.1 }

/-- `p_count_bytes`. -/
def countBytes (s : RxSizeCheck) (i : RxCheckIn) : RxSizeCheck :=
  if !i.rstN || !i.rxEn then { s with byteCntr := 0, isRunt := false, isGiant := false }
  else
    { s with
      byteCntr :=
        if i.fab.dvalid then s.byteCntr + (if i.fab.bytesel then 1 else 2)
        else if i.fab.sof then 0 else s.byteCntr
      isRunt :=
        if s.byteCntr == BitVec.ofNat 14 (cMinFrameSize - 2) && i.fab.dvalid && !i.fab.bytesel then false
        else s.isRunt || i.fab.sof
      isGiant := decide (regs.mru < s.byteCntr) && !i.fab.sof }

/-- `p_gen_output`. -/
def genOutput (s : RxSizeCheck) (i : RxCheckIn) : RxSizeCheck :=
  if !i.rstN || !i.rxEn then
    { s with
      qPurge := false, qBytesel := false, state := .waitFrame, srcSof := false
      rmonPcsErr := false, rmonGiant := false, rmonRunt := false, rmonCrcErr := false }
  else
    match s.state with
    | .waitFrame =>
        { s with
          qPurge := false, qBytesel := false, srcError := false, srcSof := i.fab.sof
          rmonPcsErr := false, rmonGiant := false, rmonRunt := false, rmonCrcErr := false
          state := if i.fab.sof then .data else .waitFrame }
    | .data =>
        let s' := { s with
          srcSof := false
          qBytesel := if i.fab.dvalid && i.fab.addr == cWrfData then i.fab.bytesel else s.qBytesel }
        if i.fab.error || s.qBytesel && !s.oobIn i && i.fab.dvalid then
          { s' with srcError := true, rmonPcsErr := true, state := .waitFrame, qPurge := true }
        else if i.fab.eof || s.oobIn i || s.errOnGiant regs then
          let judged := { s' with
            rmonRunt := s.isRunt && !regs.aRunt
            rmonGiant := s.isGiant && !regs.aGiant
            rmonCrcErr := !s.crc.crcMatch }
          if !s.sizeCheckOk regs || !s.crc.crcMatch then
            { judged with state := .waitFrame, srcError := true, qPurge := true }
          else { judged with state := if i.fab.eof then .waitFrame else .oob }
        else s'
    | .oob =>
        { s with
          rmonRunt := false, rmonGiant := false, rmonCrcErr := false
          state := if i.srcDreq && i.fab.eof then .waitFrame else .oob }

/-- `p_queue` and `p_fifo`. -/
def nextValid (s : RxSizeCheck) (i : RxCheckIn) : Bool × Bool :=
  if !i.rstN || s.qPurge then (false, false)
  else if s.sregEnable i then (if s.oobIn i then (false, false) else (s.qDvalidIn i, s.qValid.1))
  else s.qValid

def step (s : RxSizeCheck) (i : RxCheckIn) : RxSizeCheck :=
  let counted := s.countBytes regs i
  { s.genOutput regs i with
    crc := s.crc.step { fab := i.fab, rstN := i.rstN }
    byteCntr := counted.byteCntr
    isRunt := counted.isRunt
    isGiant := counted.isGiant
    qData := if s.sregEnable i then (s.qData.2, (i.fab.addr, i.fab.data)) else s.qData
    qValid := s.nextValid i
    validMask := i.rstN && !s.qPurge && i.srcDreq }

/-! ### Frames -/

/-- What goes out. -/
inductive Event where
  | sof
  | data (word : BitVec 16) (bytesel : Bool)
  | oob (word : BitVec 16)
  | error
  | eof
  deriving DecidableEq, Repr

def heard (s : RxSizeCheck) (i : RxCheckIn) : List Event :=
  let fab := s.srcFab i
  (if fab.sof then [Event.sof] else []) ++
    (if fab.dvalid then
      [if fab.addr == cWrfOob then Event.oob fab.data else Event.data fab.data fab.bytesel] else []) ++
    (if fab.error then [Event.error] else []) ++ (if fab.eof then [Event.eof] else [])

/-- A frame: its words, its out-of-band words, and what went out for it. `settled` are the bytes it had
before the cycle that came last. -/
structure Frame where
  words : List (BitVec 16 × Bool) := []
  oob : List (BitVec 16) := []
  ended : Bool := false
  heard : List Event := []
  settled : Nat := 0
  deriving DecidableEq, Repr

def bytesOf (words : List (BitVec 16 × Bool)) : List (BitVec 8) :=
  words.flatMap fun w => w.1.extractLsb' 8 8 :: if w.2 then [] else [w.1.extractLsb' 0 8]

def Frame.bytes (f : Frame) : List (BitVec 8) := bytesOf f.words

structure Book where
  done : List Frame := []
  current : Option Frame := none
  deriving DecidableEq, Repr

def Frame.next (f : Frame) (s : RxSizeCheck) (i : RxCheckIn) : Frame :=
  { words := f.words ++ i.fab.dataWord
    oob := f.oob ++ if i.fab.dvalid && i.fab.addr == cWrfOob then [i.fab.data] else []
    ended := f.ended || i.fab.eof
    heard := f.heard ++ s.heard i
    settled := f.bytes.length }

/-- The start of a frame goes out one cycle later than it comes in. -/
def Book.next (b : Book) (s : RxSizeCheck) (i : RxCheckIn) : Book :=
  let now := b.current.map (·.next s i)
  if i.fab.sof then { done := b.done ++ now.toList, current := some {} } else { b with current := now }

def stepBook (sb : RxSizeCheck × Book) (i : RxCheckIn) : RxSizeCheck × Book :=
  (sb.1.step regs i, sb.2.next sb.1 i)

/-- The source sends frame after frame: its start, three words or more with `bytesel` at most on the
last one, perhaps out-of-band words, and its end. -/
structure Legal (b : Book) (i : RxCheckIn) : Prop where
  rstN : i.rstN = true
  rxEn : i.rxEn = true
  error : i.fab.error = false
  start : i.fab.sof = true → i.fab.dvalid = false ∧ i.fab.eof = false ∧ ∀ f ∈ b.current, f.ended = true
  word : i.fab.dvalid = true → ∃ f ∈ b.current, f.ended = false ∧
    (i.fab.addr = cWrfData ∧ f.oob = [] ∧ (∀ w ∈ f.words, w.2 = false) ∨
      i.fab.addr = cWrfOob ∧ 3 ≤ f.words.length)
  ends : i.fab.eof = true → i.fab.dvalid = false ∧ ∃ f ∈ b.current, f.ended = false ∧ 3 ≤ f.words.length

/-- The check sequence fits and the size is accepted. -/
structure Frame.Good (f : Frame) : Prop where
  crc : f.bytes.foldl fUpdateCrc32D8 cCrc32InitValue = cCrc32ResidueFull
  runt : cMinFrameSize ≤ f.bytes.length ∨ regs.aRunt = true
  giant : f.bytes.length ≤ regs.mru.toNat ∨ regs.aGiant = true

/-- Where the unit does its work: a frame starts with an empty queue; one that ends without
out-of-band words is good; the sink asks for the out-of-band words behind the first one and with the end
behind them; and when a frame is judged that is too long, it was so without the word of the cycle before. -/
structure Fits (s : RxSizeCheck) (b : Book) (i : RxCheckIn) : Prop where
  start : i.fab.sof = true → s.qValid = (false, false)
  plain : i.fab.eof = true → s.state = .data → ∀ f ∈ b.current, f.Good regs
  oob : i.fab.dvalid = true → s.state = .oob → s.validMask = true
  ends : i.fab.eof = true → s.state = .oob → i.srcDreq = true
  giant : s.state = .data → i.fab.eof = true ∨ i.fab.dvalid = true ∧ i.fab.addr = cWrfOob →
    ∀ f ∈ b.current, regs.aGiant = true ∨ f.bytes.length ≤ regs.mru.toNat ∨ regs.mru.toNat < f.settled % 2 ^ 14

def asData (w : BitVec 16 × Bool) : Event := .data w.1 w.2

/-- A good frame goes out without its last four bytes. -/
def Frame.Stripped (f : Frame) : Prop :=
  ∃ data : List (BitVec 16 × Bool), data.map trimWord = wordsOf (f.bytes.take (f.bytes.length - 4)) ∧
    f.heard = .sof :: (data.map asData ++ f.oob.map .oob ++ [.eof])

/-- Behind words of its own another one goes out with an error, and its end comes later. -/
def Frame.Rejected (f : Frame) : Prop :=
  ∃ (data : List (BitVec 16 × Bool)) (oob : List (BitVec 16)) (rest : List Event),
    data.map (·.1) <+: f.words.map (·.1) ∧ oob <+: f.oob ∧ (∀ e ∈ rest, e = .eof) ∧
    f.heard = .sof :: (data.map asData ++ oob.map .oob ++ .error :: rest)

def Frame.Judged (f : Frame) : Prop := (f.Good regs → f.Stripped) ∧ (¬f.Good regs → f.Rejected)

/-! ### Words in the delay line -/

/-- A word goes out when the second one behind it comes, with that one's `bytesel`. -/
def body (words : List (BitVec 16 × Bool)) : List (BitVec 16 × Bool) :=
  List.zipWith (fun w later => (w.1, later.2)) words (words.drop 2)

theorem body_snoc (before : List (BitVec 16 × Bool)) (u v w : BitVec 16 × Bool) :
    body (before ++ [u, v] ++ [w]) = body (before ++ [u, v]) ++ [(u.1, w.2)] := by
  have length : before.length = ((before ++ [u, v]).drop 2).length := by simp
  have later : (before ++ [u, v] ++ [w]).drop 2 = (before ++ [u, v]).drop 2 ++ [w] :=
    List.drop_append_of_le_length (by simp)
  rw [body, later, body, List.append_assoc, List.zipWith_append length]
  conv_rhs => rw [← List.append_nil ((before ++ [u, v]).drop 2), List.zipWith_append length]
  simp

theorem body_short {words : List (BitVec 16 × Bool)} (few : words.length ≤ 2) : body words = [] := by
  rw [body, List.drop_of_length_le few, List.zipWith_nil_right]

theorem zip_own (words later : List (BitVec 16 × Bool)) :
    (List.zipWith (fun w l => (w.1, l.2)) words later).map (·.1) <+: words.map (·.1) := by
  induction words generalizing later with
  | nil => simp
  | cons w words ih =>
      cases later with
      | nil => simp
      | cons l later =>
          simp only [List.zipWith_cons_cons, List.map_cons, List.cons_prefix_cons, true_and]
          exact ih later

theorem body_own (words : List (BitVec 16 × Bool)) : (body words).map (·.1) <+: words.map (·.1) :=
  zip_own words (words.drop 2)

def Full (words : List (BitVec 16 × Bool)) : Prop := ∀ w ∈ words, w.2 = false

section Bytes

variable {words later before : List (BitVec 16 × Bool)} {u v w : BitVec 16 × Bool}

theorem Full.tail (full : Full (w :: words)) : w = (w.1, false) ∧ Full words :=
  ⟨Prod.ext rfl (full w (by simp)), fun x inside => full x (by simp [inside])⟩

theorem zip_full (length : words.length = later.length) (full : Full words) (full' : Full later) :
    List.zipWith (fun w l => (w.1, l.2)) words later = words := by
  induction words generalizing later with
  | nil => simp
  | cons w words ih =>
      cases later with
      | nil => simp at length
      | cons l later =>
          obtain ⟨plain, rest⟩ := full.tail
          obtain ⟨plain', rest'⟩ := full'.tail
          rw [List.zipWith_cons_cons, ih (by simpa using length) rest rest', plain']
          exact congrArg (· :: words) plain.symm

theorem full_body (full : Full (before ++ [u, v])) : body (before ++ [u, v]) = before := by
  have length : before.length = ((before ++ [u, v]).drop 2).length := by simp
  have later : Full ((before ++ [u, v]).drop 2) := fun x inside => full x (List.mem_of_mem_drop inside)
  rw [body]
  conv_lhs => rw [← List.append_nil ((before ++ [u, v]).drop 2), List.zipWith_append length]
  rw [zip_full length (fun x inside => full x (by simp [inside])) later]
  simp

theorem bytesOf_append : bytesOf (words ++ later) = bytesOf words ++ bytesOf later := by
  simp [bytesOf]

theorem bytesOf_full (full : Full (w :: words)) :
    bytesOf (w :: words) = w.1.extractLsb' 8 8 :: w.1.extractLsb' 0 8 :: bytesOf words := by
  have plain : w.2 = false := full w (by simp)
  simp [bytesOf, plain]

theorem full_length (full : Full words) : (bytesOf words).length = 2 * words.length := by
  induction words with
  | nil => rfl
  | cons w words ih =>
      rw [bytesOf_full full, List.length_cons, List.length_cons, ih full.tail.2, List.length_cons]
      omega

theorem full_words (full : Full words) (more : List (BitVec 8)) :
    wordsOf (bytesOf words ++ more) = words ++ wordsOf more := by
  induction words with
  | nil => rfl
  | cons w words ih =>
      have whole : (w.1, false) = w := full.tail.1.symm
      rw [bytesOf_full full, List.cons_append, List.cons_append, wordsOf, ih full.tail.2, halves_append, whole,
        List.cons_append]

theorem full_trim (full : Full words) : words.map trimWord = words := by
  conv_rhs => rw [← List.map_id words]
  apply List.map_congr_left
  intro x inside
  simp [trimWord, full x inside]

/-- The last four bytes are two words, or one and two halves. -/
theorem body_bytes (full : Full (before ++ [u, v])) :
    (body (before ++ [u, v] ++ [w])).map trimWord =
      wordsOf ((bytesOf (before ++ [u, v] ++ [w])).take ((bytesOf (before ++ [u, v] ++ [w])).length - 4)) := by
  have inner : Full before := fun x inside => full x (by simp [inside])
  have plain : u.2 = false ∧ v.2 = false := ⟨full u (by simp), full v (by simp)⟩
  have length := full_length inner
  have bytes : bytesOf (before ++ [u, v] ++ [w]) =
      bytesOf before ++ [u.1.extractLsb' 8 8, u.1.extractLsb' 0 8, v.1.extractLsb' 8 8, v.1.extractLsb' 0 8] ++
        bytesOf [w] := by
    simp [bytesOf, plain]
  rw [body_snoc, full_body full, List.map_append, full_trim inner, bytes]
  cases half : w.2 with
  | false =>
      have kept : (bytesOf before ++ [u.1.extractLsb' 8 8, u.1.extractLsb' 0 8, v.1.extractLsb' 8 8,
          v.1.extractLsb' 0 8] ++ bytesOf [w]).length - 4 = (bytesOf before).length + 2 := by
        simp [bytesOf, half]
      rw [kept, List.append_assoc, List.take_length_add_append]
      simp [full_words inner, wordsOf, halves_append, trimWord]
  | true =>
      have kept : (bytesOf before ++ [u.1.extractLsb' 8 8, u.1.extractLsb' 0 8, v.1.extractLsb' 8 8,
          v.1.extractLsb' 0 8] ++ bytesOf [w]).length - 4 = (bytesOf before).length + 1 := by
        simp [bytesOf, half]
      rw [kept, List.append_assoc, List.take_length_add_append]
      simp [full_words inner, wordsOf, trimWord]

end Bytes

end RxSizeCheck

end WrCores.Endpoint
