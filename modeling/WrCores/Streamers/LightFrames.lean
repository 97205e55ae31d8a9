import Mathlib.Data.List.TakeWhile
import WrCores.Streamers.RxLight

/-!
Whole frames through xrx_streamer_light. A frame is a sof cycle and a list of further
cycles; those that carry a data word are its words, the others are gaps, whether the
fabric is idle there, refilling, or showing a STATUS or OOB word. The FSM leaves the
frame at the first gap behind a word, so what it delivers depends only on `burst`, the
words up to that gap.
-/

namespace WrCores.Streamers.RxLight

open Clocked

variable {k w : Nat} (cfg : RxStreamerCfg)

/-! ### The FSM -/

structure HeaderAt (pack₀ : Lanes k) (n : Nat) (f : Fsm k) : Prop where
  state : f.state = .header
  count : f.count = BitVec.ofNat 15 n
  serCount : f.serCount = 0#8
  dvalid : f.fifoDvalid = false
  pending : f.pendingWrite = false
  sync : f.fifoSync = false
  last : f.fifoLast = false
  pack : f.packData = pack₀

/-- Between frames, with nothing left to write. -/
structure FsmRests (pack₀ : Lanes k) (f : Fsm k) : Prop where
  state : f.state = .idle
  dvalid : f.fifoDvalid = false
  pack : f.packData = pack₀

section Fsm

variable {pack₀ : Lanes k} {f : Fsm k} {i : Pipe} {n : Nat}

theorem idle_sof (idle : f.state = .idle) (sof : i.sof = true) :
    HeaderAt f.packData 0 (f.step cfg i) := by
  constructor <;> simp [Fsm.step, idle, Fsm.idleStep, sof]

theorem idle_stays (idle : f.state = .idle) (sof : i.sof = false) :
    FsmRests f.packData (f.step cfg i) := by
  constructor <;> simp [Fsm.step, idle, Fsm.idleStep, sof]

theorem HeaderAt.wait (header : HeaderAt pack₀ n f) (dvalid : i.dvalid = false)
    (eof : i.eof = false) : f.step cfg i = f := by
  simp [Fsm.step, header.state, Fsm.headerStep, dvalid, eof]

theorem HeaderAt.close (header : HeaderAt pack₀ n f) (eof : i.eof = true) :
    FsmRests pack₀ (f.step cfg i) := by
  constructor <;> simp [Fsm.step, header.state, Fsm.headerStep, eof, header.dvalid, header.pack]

theorem HeaderAt.count_eq (header : HeaderAt pack₀ n f) (less : n < 7) :
    (f.count.setWidth 8).toNat = n := by
  rw [header.count]
  simp only [BitVec.toNat_setWidth, BitVec.toNat_ofNat]
  omega

theorem HeaderAt.word (header : HeaderAt pack₀ n f) (less : n < 6) (dvalid : i.dvalid = true)
    (eof : i.eof = false) (taken : cfg.refuses n i.data = false) :
    HeaderAt pack₀ (n + 1) (f.step cfg i) := by
  have count := header.count_eq (by omega)
  have counted : f.step cfg i = { f with count := f.count + 1#15 } := by
    simp [Fsm.step, header.state, Fsm.headerStep, Fsm.headerWord, dvalid, eof, count, less, taken]
  have next : f.count + 1#15 = BitVec.ofNat 15 (n + 1) := by rw [header.count, BitVec.ofNat_add]
  rw [counted]
  exact ⟨header.state, next, header.serCount, header.dvalid, header.pending, header.sync,
    header.last, header.pack⟩

theorem HeaderAt.refuse (header : HeaderAt pack₀ n f) (less : n < 6) (dvalid : i.dvalid = true)
    (eof : i.eof = false) (refused : cfg.refuses n i.data = true) :
    FsmRests pack₀ (f.step cfg i) := by
  have count := header.count_eq (by omega)
  constructor <;>
    simp [Fsm.step, header.state, Fsm.headerStep, Fsm.headerWord, dvalid, eof, count, less, refused,
      header.dvalid, header.pack]

/-- The seventh word opens the payload. -/
theorem HeaderAt.open_payload (header : HeaderAt pack₀ 6 f) (halves : List (BitVec 16))
    (positive : 0 < k) (dvalid : i.dvalid = true) (eof : i.eof = false) :
    (f.step cfg i).state = .payload ∧ Packed k pack₀ halves 0 (f.step cfg i) := by
  have count := header.count_eq (by omega)
  have opened : f.step cfg i =
      { f with state := .payload, rxFrameP1 := true, fifoDrop := false, fifoAccept := false,
               serCount := 0, count := f.count + 1#15 } := by
    simp [Fsm.step, header.state, Fsm.headerStep, Fsm.headerWord, dvalid, eof, count]
  rw [opened]
  refine ⟨rfl, header.sync, header.last, fun _ => by simp, ?_, ?_, fun _ long => by omega, ?_, ?_⟩
  · simp [header.pending]
    omega
  · simp [header.dvalid, Flushes]
    omega
  · simp
  · rintro rfl
    simpa [wordAt] using header.pack

theorem payload_word {halves : List (BitVec 16)} {j : Nat} (state : f.state = .payload)
    (packed : Packed k pack₀ halves j f) (positive : 0 < k) (dvalid : i.dvalid = true)
    (eof : i.eof = false) (data : i.data = halves.getD j 0) :
    (f.step cfg i).state = .payload ∧ Packed k pack₀ halves (j + 1) (f.step cfg i) := by
  have next := packed.pack positive
  have same : f.step cfg i =
      { f.pack (halves.getD j 0) with fifoAccept := true, fifoDrop := false } := by
    simp [Fsm.step, state, Fsm.payloadStep, dvalid, eof, data]
  have kept : (f.pack (halves.getD j 0)).state = f.state := by
    simp only [Fsm.pack]
    split_ifs <;> rfl
  rw [same]
  refine ⟨kept.trans state, ?_⟩
  obtain ⟨sync, last, serCount, pending, valid, fifo, lanes, single⟩ := next
  exact ⟨sync, last, serCount, pending, valid, fifo, lanes, single⟩

/-- The gap behind the payload: the FSM goes back to idle with `fifo_dvalid` as it was. -/
theorem payload_close (state : f.state = .payload) (eof : i.eof = true) :
    f.step cfg i = { f with state := .idle, fifoAccept := true, fifoDrop := false } := by
  simp [Fsm.step, state, Fsm.payloadStep, eof]

end Fsm

/-! ### Runs -/

def carries (i : RxLightIn) : Bool := fabDvalid i.fab

/-- The words up to the first gap behind a word. -/
def burst (body : List RxLightIn) : List RxLightIn := (body.dropWhile (!carries ·)).takeWhile carries

def frameWords (body : List RxLightIn) : List (BitVec 16) :=
  (body.filter carries).map (·.fab.data)

theorem burst_carries (body : List RxLightIn) : ∀ i ∈ burst body, carries i = true :=
  fun _ member => List.mem_takeWhile_imp member

/-- A body is gaps, the burst, and, if there was a burst, something that starts with a gap. -/
theorem split_body (body : List RxLightIn) :
    ∃ lead rest, body = lead ++ burst body ++ rest ∧ (∀ i ∈ lead, carries i = false) ∧
      (∀ i ∈ rest.head?, carries i = false) ∧ (burst body = [] → rest = []) := by
  refine ⟨body.takeWhile (!carries ·), (body.dropWhile (!carries ·)).dropWhile carries, ?_, ?_, ?_, ?_⟩
  · rw [burst, List.append_assoc, List.takeWhile_append_dropWhile, List.takeWhile_append_dropWhile]
  · intro i member
    simpa using List.mem_takeWhile_imp member
  · intro i first
    have := List.head?_dropWhile_not carries (body.dropWhile (!carries ·))
    simp_all
  · intro none
    cases after : body.dropWhile (!carries ·) with
    | nil => rfl
    | cons i more =>
        have first := List.head?_dropWhile_not (!carries ·) body
        rw [burst, after] at none
        simp_all

/-- The burst is the beginning of the frame. -/
theorem burst_words (body : List RxLightIn) :
    (burst body).map (·.fab.data) = (frameWords body).take (burst body).length := by
  obtain ⟨lead, rest, whole, gaps, -, -⟩ := split_body body
  have noLead : lead.filter carries = [] := by simpa using gaps
  have allBurst : (burst body).filter carries = burst body :=
    List.filter_eq_self.2 (burst_carries body)
  have words : frameWords body =
      (burst body).map (·.fab.data) ++ (rest.filter carries).map (·.fab.data) := by
    rw [frameWords]
    nth_rewrite 1 [whole]
    rw [List.filter_append, List.filter_append, noLead, allBurst, List.nil_append, List.map_append]
  rw [words, List.take_left' (by simp)]

theorem burst_word (body : List RxLightIn) (m : Nat) (i : RxLightIn) (here : i ∈ (burst body)[m]?) :
    (frameWords body)[m]? = some i.fab.data := by
  have same := congrArg (·[m]?) (burst_words body)
  have less : m < (burst body).length := (List.getElem?_eq_some_iff.1 here).1
  have found : (burst body)[m]? = some i := here
  simp only [List.getElem?_map, found, List.getElem?_take, less, if_true, Option.map_some] at same
  exact same.symm

section Run

variable {pack₀ : Lanes k} (s : RxLight k w)

theorem rests_run (inputs : List RxLightIn) (rests : FsmRests pack₀ s.fsm)
    (quiet : ∀ i ∈ inputs, i.fab.sof = false) :
    FsmRests pack₀ (run (step cfg) s inputs).fsm ∧ collect (step cfg) writes s inputs = [] := by
  induction inputs generalizing s with
  | nil => exact ⟨rests, rfl⟩
  | cons i rest ih =>
      have next : FsmRests pack₀ (s.step cfg i).fsm :=
        rests.pack ▸ idle_stays cfg rests.state (i := s.fsmIn i.fab) (quiet i (by simp))
      have later := ih (s.step cfg i) next fun j member => quiet j (by simp [member])
      refine ⟨later.1, ?_⟩
      simp [later.2, writes, rests.dvalid]

theorem wait_run {n : Nat} (inputs : List RxLightIn) (header : HeaderAt pack₀ n s.fsm)
    (low : s.fabDvalidD0 = false) (gaps : ∀ i ∈ inputs, carries i = false) :
    (run (step cfg) s inputs).fsm = s.fsm ∧ (run (step cfg) s inputs).fabDvalidD0 = false ∧
      collect (step cfg) writes s inputs = [] := by
  induction inputs generalizing s with
  | nil => exact ⟨rfl, low, rfl⟩
  | cons i rest ih =>
      have gap : fabDvalid i.fab = false := gaps i (by simp)
      have same : (s.step cfg i).fsm = s.fsm :=
        header.wait cfg (i := s.fsmIn i.fab) gap (by simp [fsmIn, low])
      have later := ih (s.step cfg i) (same ▸ header) gap fun j member => gaps j (by simp [member])
      rw [same] at later
      refine ⟨later.1, later.2.1, ?_⟩
      simp [later.2.2, writes, header.dvalid]

theorem header_run {n : Nat} (inputs : List RxLightIn) (header : HeaderAt pack₀ n s.fsm)
    (words : ∀ i ∈ inputs, carries i = true) (short : n + inputs.length ≤ 6)
    (taken : ∀ m, ∀ i ∈ inputs[m]?, cfg.refuses (n + m) i.fab.data = false) :
    HeaderAt pack₀ (n + inputs.length) (run (step cfg) s inputs).fsm ∧
      collect (step cfg) writes s inputs = [] := by
  induction inputs generalizing s n with
  | nil => exact ⟨header, rfl⟩
  | cons i rest ih =>
      have valid : fabDvalid i.fab = true := words i (by simp)
      have next : HeaderAt pack₀ (n + 1) (s.step cfg i).fsm :=
        header.word cfg (i := s.fsmIn i.fab) (by simp at short; omega) valid
          (by simp [fsmIn, valid]) (taken 0 i (by simp))
      have later := ih (s.step cfg i) next (fun j member => words j (by simp [member]))
        (by simp at short; omega)
        (fun m j member => by
          have := taken (m + 1) j (by simpa using member)
          rwa [Nat.add_assoc, Nat.add_comm 1 m])
      refine ⟨by simpa [Nat.add_comm, Nat.add_left_comm] using later.1, ?_⟩
      simp [later.2, writes, header.dvalid]

theorem packed_writes {halves : List (BitVec 16)} {j : Nat} (i : RxLightIn)
    (packed : Packed k pack₀ halves j s.fsm) : writes s i = flush k pack₀ halves j := by
  by_cases flushes : Flushes k j
  · have valid := packed.dvalid.2 flushes
    have data := packed.data flushes.1 flushes.2.1
    simp [writes, flush, flushes, valid, fifoDin, packed.sync, packed.last, data]
  · have idle : s.fsm.fifoDvalid = false := by simpa [flushes] using packed.dvalid.not
    simp [writes, flush, flushes, idle]

theorem payload_run {halves : List (BitVec 16)} {j : Nat} (inputs : List RxLightIn)
    (positive : 0 < k) (state : s.fsm.state = .payload) (packed : Packed k pack₀ halves j s.fsm)
    (words : ∀ i ∈ inputs, carries i = true)
    (data : ∀ m, ∀ i ∈ inputs[m]?, i.fab.data = halves.getD (j + m) 0) :
    (run (step cfg) s inputs).fsm.state = .payload ∧
      Packed k pack₀ halves (j + inputs.length) (run (step cfg) s inputs).fsm ∧
      collect (step cfg) writes s inputs =
        (List.range' j inputs.length).flatMap (flush k pack₀ halves) := by
  induction inputs generalizing s j with
  | nil => exact ⟨state, packed, rfl⟩
  | cons i rest ih =>
      have valid : fabDvalid i.fab = true := words i (by simp)
      have next := payload_word cfg (i := s.fsmIn i.fab) state packed positive valid
        (by simp [fsmIn, valid]) (data 0 i (by simp))
      have later := ih (s.step cfg i) next.1 next.2 (fun l member => words l (by simp [member]))
        (fun m l member => by
          have := data (m + 1) l (by simpa using member)
          rwa [Nat.add_assoc, Nat.add_comm 1 m])
      refine ⟨later.1, by simpa [Nat.add_comm, Nat.add_left_comm] using later.2.1, ?_⟩
      rw [collect_cons, packed_writes s i packed, later.2.2, List.length_cons, List.range'_succ, List.flatMap_cons]

theorem valid_run (inputs : List RxLightIn) (some : inputs ≠ [])
    (words : ∀ i ∈ inputs, carries i = true) :
    (run (step cfg) s inputs).fabDvalidD0 = true := by
  obtain ⟨front, i, rfl⟩ := List.eq_nil_or_concat inputs |>.resolve_left some
  rw [List.concat_eq_append, run_append]
  exact words i (by simp)

/-- What a frame makes the FSM write: the words flushed while it runs, and once more the
last of them if the gap falls into the cycle of its write. -/
def delivered (k : Nat) (pack₀ : Lanes k) (halves : List (BitVec 16)) (p : Nat) : List (RxWord k) :=
  (List.range (p + 1)).flatMap (flush k pack₀ halves) ++ flush k pack₀ halves p

theorem delivered_zero (positive : 0 < k) (halves : List (BitVec 16)) :
    delivered k pack₀ halves 0 = [] := by
  have quiet : ¬ Flushes k 0 := fun flushes => absurd flushes.2.1 (by omega)
  simp [delivered, flush, quiet]

/-- The gap behind the payload and what follows it. -/
theorem close_run {halves : List (BitVec 16)} {j : Nat} (g g' : RxLightIn) (rest : List RxLightIn)
    (state : s.fsm.state = .payload) (packed : Packed k pack₀ halves j s.fsm)
    (valid : s.fabDvalidD0 = true) (gap : carries g = false)
    (quiet : ∀ i ∈ g :: g' :: rest, i.fab.sof = false) :
    (∃ pack, FsmRests pack (run (step cfg) s (g :: g' :: rest)).fsm) ∧
      collect (step cfg) writes s (g :: g' :: rest) =
        flush k pack₀ halves j ++ flush k pack₀ halves j := by
  have closed : (s.step cfg g).fsm =
      { s.fsm with state := .idle, fifoAccept := true, fifoDrop := false } := by
    have low : fabDvalid g.fab = false := gap
    exact payload_close cfg state (by simp [fsmIn, low, valid])
  have still : Packed k pack₀ halves j (s.step cfg g).fsm := by
    rw [closed]
    obtain ⟨sync, last, serCount, pending, dvalid, data, lanes, single⟩ := packed
    exact ⟨sync, last, serCount, pending, dvalid, data, lanes, single⟩
  have idle : (s.step cfg g).fsm.state = .idle := by rw [closed]
  have rests := idle_stays cfg idle (i := (s.step cfg g).fsmIn g'.fab) (quiet g' (by simp))
  have later := rests_run cfg ((s.step cfg g).step cfg g') rest rests
    fun i member => quiet i (by simp [member])
  refine ⟨⟨_, later.1⟩, ?_⟩
  rw [collect_cons, collect_cons, later.2, packed_writes s g packed,
    packed_writes (s.step cfg g) g' still, List.append_nil]

/-- A burst that does not get past the header. -/
theorem short_run (bs rest : List RxLightIn) (g : RxLightIn) (header : HeaderAt pack₀ 0 s.fsm)
    (some : bs ≠ []) (words : ∀ i ∈ bs, carries i = true) (short : bs.length ≤ 6)
    (taken : ∀ m, ∀ i ∈ bs[m]?, cfg.refuses m i.fab.data = false) (gap : carries g = false)
    (quiet : ∀ i ∈ rest, i.fab.sof = false) :
    (run (step cfg) s (bs ++ g :: rest)).fsm.fifoDvalid = false ∧
      collect (step cfg) writes s (bs ++ g :: rest) = [] := by
  obtain ⟨stopped, silent⟩ := header_run cfg s bs header words (by omega) (by simpa using taken)
  have valid := valid_run cfg s bs some words
  have low : fabDvalid g.fab = false := gap
  have rests := stopped.close cfg (i := (run (step cfg) s bs).fsmIn g.fab) (by simp [fsmIn, low, valid])
  have later := rests_run cfg ((run (step cfg) s bs).step cfg g) rest rests quiet
  rw [run_append, collect_append, silent, run_cons, collect_cons, later.2]
  exact ⟨later.1.dvalid, by simp [writes, stopped.dvalid]⟩

/-- A burst that reaches the payload: six address words, a seventh, and `pay`. -/
theorem long_run (positive : 0 < k) (six pay rest : List RxLightIn) (b g g' : RxLightIn)
    (halves : List (BitVec 16)) (header : HeaderAt pack₀ 0 s.fsm) (count : six.length = 6)
    (words : ∀ i ∈ six ++ b :: pay, carries i = true)
    (taken : ∀ m, ∀ i ∈ six[m]?, cfg.refuses m i.fab.data = false)
    (data : ∀ m, ∀ i ∈ pay[m]?, i.fab.data = halves.getD m 0) (gap : carries g = false)
    (quiet : ∀ i ∈ g :: g' :: rest, i.fab.sof = false) :
    (run (step cfg) s (six ++ b :: (pay ++ g :: g' :: rest))).fsm.fifoDvalid = false ∧
      collect (step cfg) writes s (six ++ b :: (pay ++ g :: g' :: rest)) =
        delivered k pack₀ halves pay.length := by
  obtain ⟨sixth, silent⟩ := header_run cfg s six header (fun i member => words i (by simp [member]))
    (by omega) (by simpa using taken)
  rw [Nat.zero_add, count] at sixth
  generalize reached : run (step cfg) s six = s₁ at sixth
  have valid : fabDvalid b.fab = true := words b (by simp)
  obtain ⟨opened, packed⟩ := sixth.open_payload cfg halves positive (i := s₁.fsmIn b.fab) valid
    (by simp [fsmIn, valid])
  have quiet₁ : writes s₁ b = [] := by simp [writes, sixth.dvalid]
  obtain ⟨inside, packed', flushes⟩ := payload_run cfg (s₁.step cfg b) pay positive opened packed
    (fun i member => words i (by simp [member])) (by simpa using data)
  have high : (run (step cfg) (s₁.step cfg b) pay).fabDvalidD0 = true := by
    rw [← run_cons]
    exact valid_run cfg s₁ (b :: pay) (by simp) fun i member => words i (by simp at member ⊢; tauto)
  rw [Nat.zero_add] at packed'
  obtain ⟨⟨_, rests⟩, closing⟩ := close_run cfg _ g g' rest inside packed' high gap quiet
  rw [run_append, collect_append, silent, reached, run_cons, collect_cons, quiet₁, run_append,
    collect_append, flushes, closing]
  refine ⟨rests.dvalid, ?_⟩
  simp [delivered, List.range_succ, List.range_eq_range']

end Run

/-- A frame as the receiver sees it: a sof cycle, the cycles of its words with gaps
anywhere, and the cycles after it, long enough for its last write to be committed. -/
structure Frame where
  first : RxLightIn
  body : List RxLightIn
  tail : List RxLightIn

namespace Frame

def cycles (f : Frame) : List RxLightIn := f.first :: (f.body ++ f.tail)

structure WellFormed (f : Frame) : Prop where
  sof : f.first.fab.sof = true
  clear : carries f.first = false
  body_sof : ∀ i ∈ f.body, i.fab.sof = false
  tail_sof : ∀ i ∈ f.tail, i.fab.sof = false
  tail_gap : ∀ i ∈ f.tail, carries i = false
  tail_long : 3 ≤ f.tail.length

end Frame

/-- The half-words behind the header that the FSM gets to see. -/
def reachedHalves (body : List RxLightIn) : Nat := (burst body).length - 7

theorem frame_run (positive : 0 < k) (s : RxLight k w) (idle : s.fsm.state = .idle)
    (quiet : s.fsm.fifoDvalid = false) (first : RxLightIn) (body tail : List RxLightIn)
    (sof : first.fab.sof = true) (clear : carries first = false)
    (body_sof : ∀ i ∈ body, i.fab.sof = false) (tail_sof : ∀ i ∈ tail, i.fab.sof = false)
    (tail_gap : ∀ i ∈ tail, carries i = false) (tail_long : 2 ≤ tail.length)
    (passes : cfg.Passes (frameWords body)) :
    (run (step cfg) s (first :: (body ++ tail))).fsm.fifoDvalid = false ∧
      collect (step cfg) writes s (first :: (body ++ tail)) =
        delivered k s.fsm.packData ((frameWords body).drop 7) (reachedHalves body) := by
  have header : HeaderAt s.fsm.packData 0 (s.step cfg first).fsm :=
    idle_sof cfg idle (i := s.fsmIn first.fab) sof
  have low : (s.step cfg first).fabDvalidD0 = false := clear
  have nothing : writes s first = [] := by simp [writes, quiet]
  obtain ⟨lead, rest, whole, gaps, head_gap, all_gaps⟩ := split_body body
  rw [run_cons, collect_cons, nothing, List.nil_append]
  by_cases none : burst body = []
  · -- no word at all: the receiver is still waiting for the header
    have only_gaps : ∀ i ∈ body ++ tail, carries i = false := by
      intro i member
      rcases List.mem_append.1 member with inBody | inTail
      · rw [whole, none, all_gaps none] at inBody
        exact gaps i (by simpa using inBody)
      · exact tail_gap i inTail
    obtain ⟨same, -, silent⟩ := wait_run cfg _ (body ++ tail) header low only_gaps
    rw [same, silent, reachedHalves, none]
    exact ⟨header.dvalid, (delivered_zero positive _).symm⟩
  · obtain ⟨g, g', more, after, gap⟩ : ∃ g g' more, rest ++ tail = g :: g' :: more ∧
        carries g = false := by
      match rest, tail, tail_long with
      | [], g :: g' :: more, _ => exact ⟨g, g', more, rfl, tail_gap g (by simp)⟩
      | [g], g' :: more, _ => exact ⟨g, g', more, rfl, head_gap g rfl⟩
      | g :: g' :: rest', tail, _ => exact ⟨g, g', rest' ++ tail, rfl, head_gap g rfl⟩
    have later_sof : ∀ i ∈ g :: g' :: more, i.fab.sof = false := by
      intro i member
      rw [← after] at member
      rcases List.mem_append.1 member with inRest | inTail
      · exact body_sof i (by rw [whole]; simp [inRest])
      · exact tail_sof i inTail
    have cycles_eq : body ++ tail = lead ++ (burst body ++ g :: g' :: more) := by
      rw [← after]
      nth_rewrite 1 [whole]
      simp
    obtain ⟨same, -, silent⟩ := wait_run cfg _ lead header low gaps
    rw [cycles_eq, run_append, collect_append, silent, List.nil_append]
    generalize run (step cfg) (s.step cfg first) lead = s₁ at same
    rw [← same] at header
    have carry := burst_carries body
    by_cases short : (burst body).length ≤ 6
    · obtain ⟨dvalid, silent'⟩ := short_run cfg s₁ (burst body) (g' :: more) g header none carry short
        (fun m i here => passes m (by have := (List.getElem?_eq_some_iff.1 here).1; omega) _
          (burst_word body m i here)) gap fun i member => later_sof i (by simp at member ⊢; tauto)
      have zero : reachedHalves body = 0 := by rw [reachedHalves]; omega
      rw [silent', zero]
      exact ⟨dvalid, (delivered_zero positive _).symm⟩
    · have parts : burst body =
          (burst body).take 6 ++ (burst body)[6] :: (burst body).drop 7 := by
        rw [← List.drop_eq_getElem_cons (by omega), List.take_append_drop]
      have cycles_eq' : burst body ++ g :: g' :: more = (burst body).take 6 ++
          (burst body)[6] :: ((burst body).drop 7 ++ g :: g' :: more) := by
        rw [← List.cons_append, ← List.append_assoc, ← parts]
      have count : ((burst body).drop 7).length = reachedHalves body := by simp [reachedHalves]
      rw [cycles_eq', ← count]
      refine long_run cfg s₁ positive _ _ more _ g g' _ header (by simp; omega) ?_ ?_ ?_ gap later_sof
      · rwa [← parts]
      · intro m i here
        have less : m < 6 := by have := (List.getElem?_eq_some_iff.1 here).1; simp at this; omega
        exact passes m less _ (burst_word body m i (by simpa [List.getElem?_take, less] using here))
      · intro m i here
        have word := burst_word body (7 + m) i (by simpa [List.getElem?_drop] using here)
        rw [List.getD_eq_getElem?_getD, List.getElem?_drop, word, Option.getD_some]

/-! ### The buffer

The FSM never drops, and every word it writes is committed in the cycle after. -/

structure Sound (s : RxLight k w) : Prop where
  ordered : s.buffer.Ordered
  keeps : s.fsm.fifoDrop = false
  accepts : s.fsm.fifoDvalid = true → s.fsm.fifoAccept = true
  commits : s.buffer.ledger.tentative ≠ [] → s.fifoAcceptD0 = true
  header : s.fsm.state = .header → s.fsm.fifoDvalid = false

theorem reset_sound : (reset k w).Sound where
  ordered := DroppingBuffer.reset_ordered _
  keeps := rfl
  accepts := by simp [reset, Fsm.reset]
  commits := by simp [reset, DroppingBuffer.reset_ledger, Ledger.clear]
  header := by simp [reset, Fsm.reset]

/-- What the FSM's registers keep by themselves. -/
theorem fsm_step_sound (f : Fsm k) (i : Pipe) (keeps : f.fifoDrop = false)
    (header : f.state = .header → f.fifoDvalid = false) :
    (f.step cfg i).fifoDrop = false ∧
      ((f.step cfg i).fifoDvalid = true → (f.step cfg i).fifoAccept = true) ∧
      ((f.step cfg i).state = .header → (f.step cfg i).fifoDvalid = false) := by
  cases state : f.state with
  | idle => simp [Fsm.step, state, Fsm.idleStep]
  | header =>
      have quiet := header state
      simp only [Fsm.step, state, Fsm.headerStep, Fsm.headerWord]
      split_ifs <;> simp [keeps, quiet]
  | payload =>
      simp only [Fsm.step, state, Fsm.payloadStep, Fsm.pack]
      split_ifs <;> simp
  | last => simp [Fsm.step, state, Fsm.lastStep]
  | eof => simp [Fsm.step, state, Fsm.eofStep]

theorem Sound.no_swap {s : RxLight k w} (sound : s.Sound) (rxDreq : Bool) :
    ¬ s.buffer.Swaps (s.bufferIn rxDreq) := by
  rintro ⟨-, drops, -⟩
  simp [bufferIn, sound.keeps] at drops

/-- What the buffer holds, committed or not. -/
def stored (s : RxLight k w) : List (RxWord k) :=
  s.buffer.ledger.committed ++ s.buffer.ledger.tentative

/-- An edge commits what is tentative, and what it writes is tentative. -/
theorem Sound.ledger_step {s : RxLight k w} (sound : s.Sound) (i : RxLightIn) :
    (s.step cfg i).buffer.ledger.tentative =
        (if s.fsm.fifoDvalid && !s.buffer.full then [s.fifoDin] else []) ∧
      (s.step cfg i).buffer.ledger.committed =
        (if s.buffer.reads (s.bufferIn i.rxDreq) then s.buffer.ledger.committed.tail
          else s.buffer.ledger.committed) ++ s.buffer.ledger.tentative := by
  have refined := s.buffer.step_ledger (s.bufferIn i.rxDreq) sound.ordered (sound.no_swap i.rxDreq)
  have stepped : (s.step cfg i).buffer.ledger = _ := refined
  have moves : s.fifoAcceptD0 = false → s.buffer.ledger.tentative = [] := by
    intro low
    by_contra some
    simpa [low] using sound.commits some
  have valid_eq : (s.bufferIn i.rxDreq).dValidI = s.fsm.fifoDvalid := rfl
  have drop_eq : (s.bufferIn i.rxDreq).dDropI = false := sound.keeps
  have accept_eq : (s.bufferIn i.rxDreq).dAcceptI = s.fifoAcceptD0 := rfl
  rw [stepped]
  simp only [DroppingBuffer.ledgerStep, drop_eq, accept_eq, valid_eq]
  cases s.buffer.reads (s.bufferIn i.rxDreq) <;> cases s.fsm.fifoDvalid && !s.buffer.full <;>
    cases accepts : s.fifoAcceptD0 <;>
    simp [Ledger.take, Ledger.write, Ledger.accept, moves, accepts, bufferIn]

theorem Sound.stored_step {s : RxLight k w} (sound : s.Sound) (i : RxLightIn)
    (unread : i.rxDreq = false) :
    (s.step cfg i).stored = (s.stored ++ writes s i).take (2 ^ w - 1) := by
  have still : s.buffer.reads (s.bufferIn i.rxDreq) = false := by
    simp [DroppingBuffer.reads, bufferIn, unread]
  obtain ⟨tentative, committed⟩ := sound.ledger_step cfg i
  obtain ⟨short, room⟩ := s.buffer.ledger_length sound.ordered
  have length_eq : s.stored.length = s.buffer.ledger.length := by simp [stored, Ledger.length]
  rw [still] at committed
  have next : (s.step cfg i).stored =
      s.stored ++ (if s.fsm.fifoDvalid && !s.buffer.full then [s.fifoDin] else []) := by
    rw [stored, tentative, committed]
    rfl
  rw [next]
  cases valid : s.fsm.fifoDvalid with
  | false => simp [writes, valid, List.take_of_length_le (show s.stored.length ≤ 2 ^ w - 1 by omega)]
  | true =>
      cases full : s.buffer.full with
      | false =>
          have := room.1 full
          rw [List.take_of_length_le (by simp [writes, valid]; omega)]
          simp [writes, valid]
      | true =>
          have exact_length : s.stored.length = 2 ^ w - 1 := by
            have : ¬ s.buffer.ledger.length + 1 < 2 ^ w := fun lt => by simp [room.2 lt] at full
            omega
          simp [← exact_length]

theorem step_sound {s : RxLight k w} (sound : s.Sound) (i : RxLightIn) : (s.step cfg i).Sound := by
  obtain ⟨keeps, accepts, header⟩ := fsm_step_sound cfg s.fsm (s.fsmIn i.fab) sound.keeps sound.header
  refine ⟨s.buffer.step_ordered _ sound.ordered (sound.no_swap i.rxDreq), keeps, accepts, ?_, header⟩
  rw [(sound.ledger_step cfg i).1]
  intro some
  have valid : s.fsm.fifoDvalid = true := by
    by_contra quiet
    simp [quiet] at some
  exact sound.accepts valid

theorem run_sound {s : RxLight k w} (sound : s.Sound) (inputs : List RxLightIn) :
    (run (step cfg) s inputs).Sound := by
  induction inputs generalizing s with
  | nil => exact sound
  | cons i rest ih => exact ih (step_sound cfg sound i)

theorem take_take_append {α : Type*} (n : Nat) (l m : List α) :
    (l.take n ++ m).take n = (l ++ m).take n := by
  rw [List.take_append, List.take_append, List.take_take, Nat.min_self, List.length_take]
  congr 2
  omega

/-- Nothing is read, so the buffer holds the first words written, as many as it has room for. -/
theorem stored_run {s : RxLight k w} (sound : s.Sound) (inputs : List RxLightIn)
    (unread : ∀ i ∈ inputs, i.rxDreq = false) :
    (run (step cfg) s inputs).stored =
      (s.stored ++ collect (step cfg) writes s inputs).take (2 ^ w - 1) := by
  induction inputs generalizing s with
  | nil =>
      obtain ⟨short, -⟩ := s.buffer.ledger_length sound.ordered
      have length_eq : s.stored.length = s.buffer.ledger.length := by simp [stored, Ledger.length]
      simp [List.take_of_length_le (show s.stored.length ≤ 2 ^ w - 1 by omega)]
  | cons i rest ih =>
      rw [run_cons, ih (step_sound cfg sound i) fun j member => unread j (by simp [member]),
        sound.stored_step cfg i (unread i (by simp)), collect_cons, ← List.append_assoc,
        take_take_append]

/-! ### Two schedules of one frame -/

/-- A list whose last entry may come twice. -/
def stutter {α : Type*} (entry : Nat → α) (n : Nat) (again : Bool) : List α :=
  (List.range (n + again.toNat)).map fun j => entry (min j (n - 1))

/-- When two such lists, cut to the same room, are equal. -/
theorem stutter_eq_iff {α : Type*} (entry : Nat → α) (n m : Nat) (a b : Bool) (room : Nat) :
    (stutter entry n a).take room = (stutter entry m b).take room ↔
      min room (n + a.toNat) = min room (m + b.toNat) ∧
        (n ≠ m → min n m < min room (n + a.toNat) → entry (min n m - 1) = entry (min n m)) := by
  have small_a := a.toNat_le
  have small_b := b.toNat_le
  rw [stutter, stutter, ← List.map_take, ← List.map_take, List.take_range, List.take_range]
  constructor
  · intro equal
    have lengths : min room (n + a.toNat) = min room (m + b.toNat) := by
      simpa using congrArg List.length equal
    refine ⟨lengths, fun differ less => ?_⟩
    rw [← lengths, List.map_inj_left] at equal
    have here := equal (min n m) (by simpa using less)
    rcases Nat.lt_or_ge n m with lt | ge
    · have first : min (min n m) (n - 1) = min n m - 1 := by omega
      have second : min (min n m) (m - 1) = min n m := by omega
      rwa [first, second] at here
    · have first : min (min n m) (n - 1) = min n m := by omega
      have second : min (min n m) (m - 1) = min n m - 1 := by omega
      rw [first, second] at here
      exact here.symm
  · rintro ⟨lengths, same⟩
    rw [← lengths, List.map_inj_left]
    intro j member
    have less : j < min room (n + a.toNat) := by simpa using member
    by_cases equal : n = m
    · rw [equal]
    · by_cases inside : j < min n m
      · have first : min j (n - 1) = j := by omega
        have second : min j (m - 1) = j := by omega
        rw [first, second]
      · -- only the repeated entry of the shorter list is left
        have twice := same equal (by omega)
        rcases Nat.lt_or_ge n m with lt | ge
        · have first : min j (n - 1) = min n m - 1 := by omega
          have second : min j (m - 1) = min n m := by omega
          rw [first, second, twice]
        · have first : min j (n - 1) = min n m := by omega
          have second : min j (m - 1) = min n m - 1 := by omega
          rw [first, second, twice]

theorem delivered_stutter (positive : 0 < k) (pack₀ : Lanes k) (halves : List (BitVec 16)) (p : Nat) :
    delivered k pack₀ halves p =
      stutter (fun m => ⟨false, false, wordAt k pack₀ halves m⟩) (flushed k p)
        (decide (Flushes k p)) := by
  rw [delivered, flush_range k pack₀ halves positive, stutter]
  have plain : ∀ j < flushed k p, min j (flushed k p - 1) = j := fun j less => by omega
  have front : (List.range (flushed k p)).map (fun m => (⟨false, false, wordAt k pack₀ halves m⟩ : RxWord k)) =
      (List.range (flushed k p)).map fun j =>
        ⟨false, false, wordAt k pack₀ halves (min j (flushed k p - 1))⟩ := by
    apply List.map_congr_left
    intro j member
    rw [plain j (by simpa using member)]
  by_cases flushes : Flushes k p
  · have full : p % k + 1 = k := by
      have zero := flushes.2.2
      rw [mod_succ k positive] at zero
      split_ifs at zero with full
      exact full
    have count : flushed k p = p / k := by
      rw [flushed, if_pos flushes.1, div_succ k positive, if_pos full, Nat.add_sub_cancel]
    rw [front, flush, if_pos flushes]
    simp [flushes, List.range_succ, count]
  · rw [front, flush, if_neg flushes]
    simp [flushes]

/-- Between frames, everything written committed. -/
structure Resting (s : RxLight k w) : Prop where
  sound : s.Sound
  idle : s.fsm.state = .idle
  quiet : s.fsm.fifoDvalid = false
  committed : s.buffer.ledger.tentative = []

theorem reset_resting : (reset k w).Resting where
  sound := reset_sound
  idle := rfl
  quiet := rfl
  committed := by simp [reset, DroppingBuffer.reset_ledger, Ledger.clear]

/-- What a frame leaves committed, `rx_dreq` being undriven and so never high. -/
theorem frame_committed (positive : 0 < k) {s : RxLight k w} (rests : s.Resting) (f : Frame)
    (formed : f.WellFormed) (unread : ∀ i ∈ f.cycles, i.rxDreq = false)
    (passes : cfg.Passes (frameWords f.body)) :
    (run (step cfg) s f.cycles).buffer.ledger.committed =
      s.buffer.ledger.committed ++
        (delivered k s.fsm.packData ((frameWords f.body).drop 7) (reachedHalves f.body)).take
          (2 ^ w - 1 - s.buffer.ledger.committed.length) := by
  obtain ⟨front, z, tail_eq⟩ : ∃ front z, f.tail = front ++ [z] := by
    have some : f.tail ≠ [] := by
      intro none
      simpa [none] using formed.tail_long
    obtain ⟨front, z, same⟩ := List.eq_nil_or_concat f.tail |>.resolve_left some
    exact ⟨front, z, by simpa using same⟩
  have cycles_eq : f.cycles = (f.first :: (f.body ++ front)) ++ [z] := by
    simp [Frame.cycles, tail_eq]
  have long : 2 ≤ front.length := by
    have := formed.tail_long
    simp only [tail_eq, List.length_append, List.length_singleton] at this
    omega
  obtain ⟨quiet, written⟩ := frame_run cfg positive s rests.idle rests.quiet f.first f.body front
    formed.sof formed.clear formed.body_sof
    (fun i member => formed.tail_sof i (by simp [tail_eq, member]))
    (fun i member => formed.tail_gap i (by simp [tail_eq, member])) long passes
  generalize reached : run (step cfg) s (f.first :: (f.body ++ front)) = s₁ at quiet
  have last_step : run (step cfg) s f.cycles = s₁.step cfg z := by
    rw [cycles_eq, run_append, reached, run_cons, run_nil]
  -- nothing is written in the last cycle, so nothing is left uncommitted
  have sound₁ : s₁.Sound := reached ▸ run_sound cfg rests.sound _
  have settled : (run (step cfg) s f.cycles).buffer.ledger.tentative = [] := by
    rw [last_step, (sound₁.ledger_step cfg z).1]
    simp [quiet]
  have collected : collect (step cfg) writes s f.cycles =
      delivered k s.fsm.packData ((frameWords f.body).drop 7) (reachedHalves f.body) := by
    rw [cycles_eq, collect_append, written, reached]
    simp [writes, quiet]
  have whole := stored_run cfg rests.sound f.cycles unread
  rw [stored, stored, settled, rests.committed, List.append_nil, List.append_nil, collected] at whole
  obtain ⟨short, -⟩ := s.buffer.ledger_length rests.sound.ordered
  have fits : s.buffer.ledger.committed.length ≤ 2 ^ w - 1 := by
    simp only [Ledger.length, rests.committed] at short
    simp at short
    omega
  rw [whole, List.take_append, List.take_of_length_le fits]

/-- The number of words a frame delivers, and what the last but one of them may repeat. -/
def deliveredCount (k p : Nat) : Nat := flushed k p + (decide (Flushes k p)).toNat

/-- Two schedules of a frame leave the same words committed exactly when as many words
fit before the first gap of one as before that of the other (or the buffer cuts both
off), and, if one of them repeats its last word where the other goes on, that word is
followed by its like. -/
theorem schedules_agree_iff (positive : 0 < k) {s : RxLight k w} (rests : s.Resting)
    (words : List (BitVec 16)) (passes : cfg.Passes words) (f g : Frame)
    (f_formed : f.WellFormed) (g_formed : g.WellFormed)
    (f_words : frameWords f.body = words) (g_words : frameWords g.body = words)
    (f_unread : ∀ i ∈ f.cycles, i.rxDreq = false) (g_unread : ∀ i ∈ g.cycles, i.rxDreq = false) :
    let room := 2 ^ w - 1 - s.buffer.ledger.committed.length
    let p := reachedHalves f.body
    let q := reachedHalves g.body
    let word := wordAt k s.fsm.packData (words.drop 7)
    (run (step cfg) s f.cycles).buffer.ledger.committed =
        (run (step cfg) s g.cycles).buffer.ledger.committed ↔
      min room (deliveredCount k p) = min room (deliveredCount k q) ∧
        (flushed k p ≠ flushed k q → min (flushed k p) (flushed k q) < min room (deliveredCount k p) →
          word (min (flushed k p) (flushed k q) - 1) = word (min (flushed k p) (flushed k q))) := by
  intro room p q word
  rw [frame_committed cfg positive rests f f_formed f_unread (f_words ▸ passes),
    frame_committed cfg positive rests g g_formed g_unread (g_words ▸ passes), f_words, g_words,
    List.append_cancel_left_eq, delivered_stutter positive, delivered_stutter positive, stutter_eq_iff]
  simp only [RxWord.mk.injEq, true_and]
  rfl

def wordCycle (data : BitVec 16) : RxLightIn :=
  ⟨{ addr := Fabric.cWrfData, data := data, dvalid := true, sof := false, eof := false,
     error := false, bytesel := false }, false⟩

def gapCycle : RxLightIn :=
  ⟨{ addr := Fabric.cWrfData, data := 0, dvalid := false, sof := false, eof := false,
     error := false, bytesel := false }, false⟩

/-- Seven header words and a payload of five half-words, with a gap after `n` words. -/
def splitFrame (n : Nat) : Frame where
  first := ⟨{ gapCycle.fab with sof := true }, false⟩
  body := [1, 2, 3, 4, 5, 6, 7, 8, 9, 10, 11, 12].take n |>.map wordCycle |>.append
    (gapCycle :: ([1, 2, 3, 4, 5, 6, 7, 8, 9, 10, 11, 12].drop n |>.map wordCycle))
  tail := List.replicate 3 gapCycle

theorem splitFrame_formed (n : Nat) : (splitFrame n).WellFormed where
  sof := rfl
  clear := rfl
  body_sof := by
    intro i member
    simp only [splitFrame, List.append_eq, List.mem_append, List.mem_map, List.mem_cons] at member
    rcases member with ⟨d, -, rfl⟩ | rfl | ⟨d, -, rfl⟩ <;> rfl
  tail_sof := by simp [splitFrame, gapCycle]
  tail_gap := by simp [splitFrame, gapCycle, carries, fabDvalid]
  tail_long := by simp [splitFrame]

theorem splitFrame_committed (n : Nat)
    (words : frameWords (splitFrame n).body = [1, 2, 3, 4, 5, 6, 7, 8, 9, 10, 11, 12])
    (unread : ∀ i ∈ (splitFrame n).cycles, i.rxDreq = false) :
    (run (step cRxStreamerCfgDefault) (reset 2 4) (splitFrame n).cycles).buffer.ledger.committed =
      (delivered 2 (fun _ => 0) [8, 9, 10, 11, 12] (reachedHalves (splitFrame n).body)).take 15 := by
  have passes : cRxStreamerCfgDefault.Passes (frameWords (splitFrame n).body) := by
    rw [words]
    decide
  have committed := frame_committed cRxStreamerCfgDefault (k := 2) (w := 4) (by decide) reset_resting
    (splitFrame n) (splitFrame_formed n) unread passes
  rw [words] at committed
  exact committed

/-- With its gap behind the last word the frame leaves two words of 32 bits and the second
of them again; with the gap behind the first half-word of its payload it leaves none. -/
theorem gap_loses_words :
    let words := [1, 2, 3, 4, 5, 6, 7, 8, 9, 10, 11, 12]
    let left := fun n => (run (step cRxStreamerCfgDefault) (reset 2 4)
      (splitFrame n).cycles).buffer.ledger.committed.map fun word => List.ofFn word.data
    cRxStreamerCfgDefault.Passes words ∧
      frameWords (splitFrame 12).body = words ∧ frameWords (splitFrame 8).body = words ∧
      left 12 = [[8, 9], [10, 11], [10, 11]] ∧ left 8 = [] := by
  have words_steady : frameWords (splitFrame 12).body = [1, 2, 3, 4, 5, 6, 7, 8, 9, 10, 11, 12] := by
    decide
  have words_early : frameWords (splitFrame 8).body = [1, 2, 3, 4, 5, 6, 7, 8, 9, 10, 11, 12] := by
    decide
  refine ⟨by decide, words_steady, words_early, ?_, ?_⟩
  · beta_reduce
    rw [splitFrame_committed 12 words_steady (by decide)]
    decide
  · beta_reduce
    rw [splitFrame_committed 8 words_early (by decide)]
    decide

/-- A gap before the first word changes nothing. -/
theorem schedules_agree_iff_leading :
    (run (step cRxStreamerCfgDefault) (reset 2 4) (splitFrame 12).cycles).buffer.ledger.committed =
      (run (step cRxStreamerCfgDefault) (reset 2 4) (splitFrame 0).cycles).buffer.ledger.committed :=
  (schedules_agree_iff cRxStreamerCfgDefault (by decide) reset_resting
    [1, 2, 3, 4, 5, 6, 7, 8, 9, 10, 11, 12] (by decide) (splitFrame 12) (splitFrame 0)
    (splitFrame_formed 12) (splitFrame_formed 0) (by decide) (by decide) (by decide) (by decide)).2
    ⟨rfl, fun differ => absurd rfl differ⟩

end WrCores.Streamers.RxLight
