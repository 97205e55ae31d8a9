import WrCores.Streamers.LightFrames
import WrCores.Streamers.RxBuffer

/-!
The receive filter over whole headers, for both receivers. A frame is a sof cycle and the
cycles up to its end. xrx_streamer waits through gaps between the words; xrx_streamer_light
takes a gap for the end of the frame, so it needs the first seven words in a row.
-/

namespace WrCores.Streamers

open Clocked

namespace RxLight

variable {k w : Nat} (cfg : RxStreamerCfg)

def InPayload (s : RxLight k w) : Prop := s.fsm.state = .payload

theorem rests_never {pack₀ : Lanes k} (s : RxLight k w) (inputs : List RxLightIn)
    (rests : FsmRests pack₀ s.fsm) (quiet : ∀ i ∈ inputs, i.fab.sof = false) :
    ¬ Visits (step cfg) InPayload s inputs := by
  induction inputs generalizing s with
  | nil => simp [Visits, InPayload, rests.state]
  | cons i rest ih =>
      have next : FsmRests pack₀ (s.step cfg i).fsm :=
        rests.pack ▸ idle_stays cfg rests.state (i := s.fsmIn i.fab) (quiet i (by simp))
      rintro (here | later)
      · simp [InPayload, rests.state] at here
      · exact ih _ next (fun j member => quiet j (by simp [member])) later

/-- From inside the header: the words that follow without a gap decide. -/
theorem header_visits_iff {pack₀ : Lanes k} (positive : 0 < k) (s : RxLight k w) (n : Nat)
    (early : n ≤ 6) (inputs : List RxLightIn) (header : HeaderAt pack₀ n s.fsm)
    (quiet : ∀ i ∈ inputs, i.fab.sof = false)
    (started : ∀ i ∈ inputs.head?, carries i = true ∨ s.fabDvalidD0 = true) :
    Visits (step cfg) InPayload s inputs ↔
      7 ≤ n + (inputs.takeWhile carries).length ∧
        cfg.PassesFrom n ((inputs.takeWhile carries).map (·.fab.data)) := by
  induction inputs generalizing s n with
  | nil =>
      have short : ¬ 7 ≤ n := by omega
      simp [Visits, InPayload, header.state, short]
  | cons i rest ih =>
      have not_here : ¬ s.InPayload := by simp [InPayload, header.state]
      have quiet' : ∀ j ∈ rest, j.fab.sof = false := fun j member => quiet j (by simp [member])
      cases carry : carries i with
      | false =>
          have valid : s.fabDvalidD0 = true := by simpa [carry] using started i rfl
          have low : fabDvalid i.fab = false := carry
          have rests := header.close cfg (i := s.fsmIn i.fab) (by simp [fsmIn, low, valid])
          have never := rests_never cfg (s.step cfg i) rest rests quiet'
          have short : ¬ 7 ≤ n := by omega
          simp [Visits, not_here, never, carry, short]
      | true =>
          have high : fabDvalid i.fab = true := carry
          have open_eof : (s.fsmIn i.fab).eof = false := by simp [fsmIn, high]
          simp only [Visits, not_here, false_or, List.takeWhile_cons, carry, if_true, List.length_cons,
            List.map_cons, RxStreamerCfg.passesFrom_cons]
          by_cases six : n = 6
          · subst six
            have opened := (header.open_payload cfg [] positive (i := s.fsmIn i.fab) high open_eof).1
            have here : Visits (step cfg) InPayload (s.step cfg i) rest := by
              cases rest with
              | nil => exact opened
              | cons _ _ => exact Or.inl opened
            have passes : cfg.PassesFrom (6 + 1) ((rest.takeWhile carries).map (·.fab.data)) :=
              fun _ _ _ less => by omega
            have enough : 7 ≤ 6 + ((rest.takeWhile carries).length + 1) := by omega
            simp [here, passes, enough]
          · have less : n < 6 := by omega
            cases refused : cfg.refuses n i.fab.data with
            | true =>
                have rests := header.refuse cfg less (i := s.fsmIn i.fab) high open_eof refused
                have never := rests_never cfg (s.step cfg i) rest rests quiet'
                simp [never, less]
            | false =>
                have next := header.word cfg less (i := s.fsmIn i.fab) high open_eof refused
                have later := ih (s.step cfg i) (n + 1) (by omega) next quiet' fun j _ => Or.inr high
                rw [later]
                simp only [less, true_implies, true_and, Nat.add_assoc, Nat.add_comm 1]

/-- From the sof cycle on: gaps before the first word do not matter. -/
theorem wait_visits_iff {pack₀ : Lanes k} (positive : 0 < k) (s : RxLight k w)
    (inputs : List RxLightIn) (header : HeaderAt pack₀ 0 s.fsm) (low : s.fabDvalidD0 = false)
    (quiet : ∀ i ∈ inputs, i.fab.sof = false) :
    Visits (step cfg) InPayload s inputs ↔
      7 ≤ (burst inputs).length ∧ cfg.PassesFrom 0 ((burst inputs).map (·.fab.data)) := by
  induction inputs generalizing s with
  | nil => simp [Visits, InPayload, header.state, burst]
  | cons i rest ih =>
      cases carry : carries i with
      | true =>
          have started : ∀ j ∈ (i :: rest).head?, carries j = true ∨ s.fabDvalidD0 = true := by
            simp [carry]
          rw [header_visits_iff cfg positive s 0 (by omega) _ header quiet started]
          simp [burst, carry]
      | false =>
          have same : (s.step cfg i).fsm = s.fsm :=
            header.wait cfg (i := s.fsmIn i.fab) carry (by simp [fsmIn, low])
          have later := ih (s.step cfg i) (same ▸ header) carry
            fun j member => quiet j (by simp [member])
          have not_here : ¬ s.InPayload := by simp [InPayload, header.state]
          simp only [Visits, not_here, false_or, later]
          simp [burst, carry]

theorem payload_reached_iff (positive : 0 < k) (s : RxLight k w) (idle : s.fsm.state = .idle)
    (first : RxLightIn) (body : List RxLightIn) (sof : first.fab.sof = true)
    (clear : carries first = false) (quiet : ∀ i ∈ body, i.fab.sof = false) :
    Visits (step cfg) InPayload s (first :: body) ↔
      7 ≤ (burst body).length ∧ cfg.Passes (frameWords body) := by
  have header : HeaderAt s.fsm.packData 0 (s.step cfg first).fsm :=
    idle_sof cfg idle (i := s.fsmIn first.fab) sof
  have not_here : ¬ s.InPayload := by simp [InPayload, idle]
  simp only [Visits, not_here, false_or]
  rw [wait_visits_iff cfg positive (s.step cfg first) body header clear quiet, burst_words]
  refine and_congr_right fun long => ?_
  rw [← RxStreamerCfg.passes_iff_from]
  simp only [RxStreamerCfg.Passes, List.getElem?_take]
  refine forall₂_congr fun n less => ?_
  rw [if_pos (by omega)]

end RxLight

namespace Rx

variable {k w : Nat} (gen : Generics) (cfg : RxStreamerCfg)

def carries (i : RxIn) : Bool := fabDvalid i.fab

def frameWords (body : List RxIn) : List (BitVec 16) := (body.filter carries).map (·.fab.data)

/-- The header FSM is past the address words. -/
def PastAddress (s : Rx k w) : Prop := s.fsm.state = .header ∧ s.fsm.count = 6#15

/-- In the header with `n` words let through, escape detection off. -/
structure HeaderAt (n : Nat) (s : Rx k w) : Prop where
  state : s.fsm.state = .header
  count : s.fsm.count = BitVec.ofNat 15 n
  detect : s.fsm.detectEscapes = false
  detector : s.detector = ⟨.idle⟩

/-- A cycle inside a frame: no start and no end of one. -/
structure Inside (i : RxIn) : Prop where
  sof : i.fab.sof = false
  eof : i.fab.eof = false
  error : i.fab.error = false

section Header

variable {n : Nat} {s : Rx k w} {i : RxIn}

theorem HeaderAt.pipe_eq (header : HeaderAt n s) (inside : Inside i) :
    (s.fsmIn gen i).pipe = ⟨i.fab.data, carries i, false, false⟩ := by
  cases disabled : gen.gEscapeCodeDisable <;>
    simp [fsmIn, disabled, Escape.Detector.dO, Escape.Detector.dValidO, Escape.Detector.isEscapeCode,
      header.detector, detectorIn, header.detect, inside.sof, inside.eof, inside.error, carries]

theorem HeaderAt.detector_step (header : HeaderAt n s) :
    (s.step gen cfg i).detector = ⟨.idle⟩ := by
  simp [step, Escape.Detector.step, detectorIn, header.detect]

theorem HeaderAt.wait (header : HeaderAt n s) (inside : Inside i) (gap : carries i = false) :
    HeaderAt n (s.step gen cfg i) := by
  have same : (s.step gen cfg i).fsm = s.fsm := by
    simp [step, Fsm.step, header.state, Fsm.headerStep, header.pipe_eq gen inside, gap]
  exact ⟨same ▸ header.state, same ▸ header.count, same ▸ header.detect, header.detector_step gen cfg⟩

theorem HeaderAt.count_eq (header : HeaderAt n s) (less : n < 7) :
    (s.fsm.count.setWidth 8).toNat = n := by
  rw [header.count]
  simp only [BitVec.toNat_setWidth, BitVec.toNat_ofNat]
  omega

theorem HeaderAt.step_word (header : HeaderAt n s) (inside : Inside i) (carry : carries i = true)
    (less : n < 6) :
    (s.step gen cfg i).fsm = { s.fsm with
      count := s.fsm.count + 1#15
      state := if cfg.refuses n i.fab.data then .idle else s.fsm.state } := by
  simp [step, Fsm.step, header.state, Fsm.headerStep, header.pipe_eq gen inside, carry,
    Fsm.headerWord, header.count_eq (show n < 7 by omega), less]

end Header

theorem pastAddress_iff {n : Nat} {s : Rx k w} (early : n ≤ 6) (header : HeaderAt n s) :
    s.PastAddress ↔ n = 6 := by
  rw [PastAddress, header.count]
  simp only [header.state, true_and]
  constructor
  · intro same
    have values := congrArg BitVec.toNat same
    simp only [BitVec.toNat_ofNat] at values
    omega
  · rintro rfl
    rfl

theorem idle_never (s : Rx k w) (inputs : List RxIn) (idle : s.fsm.state = .idle)
    (quiet : ∀ i ∈ inputs, i.fab.sof = false) :
    ¬ Visits (step gen cfg) PastAddress s inputs := by
  induction inputs generalizing s with
  | nil => simp [Visits, PastAddress, idle]
  | cons i rest ih =>
      have next : (s.step gen cfg i).fsm.state = .idle := by
        simp [step, Fsm.step, idle, Fsm.idleStep, fsmIn, quiet i (by simp)]
      rintro (here | later)
      · simp [PastAddress, idle] at here
      · exact ih _ next (fun j member => quiet j (by simp [member])) later

theorem header_visits_iff (s : Rx k w) (n : Nat) (early : n ≤ 6) (inputs : List RxIn)
    (header : HeaderAt n s) (inside : ∀ i ∈ inputs, Inside i) :
    Visits (step gen cfg) PastAddress s inputs ↔
      6 ≤ n + (frameWords inputs).length ∧ cfg.PassesFrom n (frameWords inputs) := by
  have here_iff := pastAddress_iff early header
  induction inputs generalizing s n with
  | nil =>
      simp only [Visits, here_iff, frameWords, List.filter_nil, List.map_nil, List.length_nil]
      constructor
      · rintro rfl
        exact ⟨le_rfl, cfg.passesFrom_six _⟩
      · rintro ⟨six, -⟩
        omega
  | cons i rest ih =>
      have inside' : ∀ j ∈ rest, Inside j := fun j member => inside j (by simp [member])
      have quiet' : ∀ j ∈ rest, j.fab.sof = false := fun j member => (inside' j member).sof
      by_cases six : n = 6
      · subst six
        simp [Visits, here_iff, cfg.passesFrom_six]
      · have less : n < 6 := by omega
        simp only [Visits, here_iff, six, false_or]
        cases carry : carries i with
        | false =>
            have next := header.wait gen cfg (inside i (by simp)) carry
            have later := ih (s.step gen cfg i) n early next inside'
              (pastAddress_iff early next)
            refine later.trans ?_
            simp [frameWords, carry]
        | true =>
            have stepped := header.step_word gen cfg (inside i (by simp)) carry less
            simp only [frameWords, List.filter_cons, carry, if_true, List.map_cons, List.length_cons,
              RxStreamerCfg.passesFrom_cons]
            cases refused : cfg.refuses n i.fab.data with
            | true =>
                have idle : (s.step gen cfg i).fsm.state = .idle := by rw [stepped, if_pos refused]
                have never := idle_never gen cfg (s.step gen cfg i) rest idle quiet'
                simp [never, less]
            | false =>
                have next : HeaderAt (n + 1) (s.step gen cfg i) := by
                  refine ⟨?_, ?_, ?_, header.detector_step gen cfg⟩
                  · rw [stepped]
                    simp [refused, header.state]
                  · rw [stepped, header.count, BitVec.ofNat_add]
                  · rw [stepped, header.detect]
                have later := ih (s.step gen cfg i) (n + 1) (by omega) next inside'
                  (pastAddress_iff (by omega) next)
                refine later.trans ?_
                simp only [frameWords, less, true_implies, true_and, Nat.add_assoc, Nat.add_comm 1]

theorem address_passed_iff (s : Rx k w) (idle : s.fsm.state = .idle) (settled : s.detector = ⟨.idle⟩)
    (first : RxIn) (body : List RxIn) (sof : first.fab.sof = true) (clear : carries first = false)
    (inside : ∀ i ∈ body, Inside i) (long : 6 ≤ (frameWords body).length) :
    Visits (step gen cfg) PastAddress s (first :: body) ↔ cfg.Passes (frameWords body) := by
  have header : HeaderAt 0 (s.step gen cfg first) := by
    have low : fabDvalid first.fab = false := clear
    constructor
    · simp [step, Fsm.step, idle, Fsm.idleStep, fsmIn, sof]
    · simp [step, Fsm.step, idle, Fsm.idleStep]
    · simp [step, Fsm.step, idle, Fsm.idleStep]
    · simp [step, Escape.Detector.step, settled, detectorIn, low]
  have not_here : ¬ s.PastAddress := by simp [PastAddress, idle]
  simp only [Visits, not_here, false_or]
  rw [header_visits_iff gen cfg _ 0 (by omega) body header inside, RxStreamerCfg.passes_iff_from]
  simp [long]

end Rx

/-- The FSMs deliver exactly the frames the filter documents if and only if the address
tests happen to agree with it and, for the light receiver, the header of a wanted frame
comes without a gap. -/
theorem filter_exact_iff {k w k' w' : Nat} (positive : 0 < k) (gen : Rx.Generics)
    (cfg : RxStreamerCfg) (words : List (BitVec 16)) (long : 7 ≤ words.length)
    (light : RxLight k w) (light_idle : light.fsm.state = .idle)
    (sof : RxLightIn) (body : List RxLightIn) (sof_high : sof.fab.sof = true)
    (sof_clear : RxLight.carries sof = false) (body_sof : ∀ i ∈ body, i.fab.sof = false)
    (body_words : RxLight.frameWords body = words)
    (full : Rx k' w') (full_idle : full.fsm.state = .idle) (full_settled : full.detector = ⟨.idle⟩)
    (sof' : RxIn) (body' : List RxIn) (sof_high' : sof'.fab.sof = true)
    (sof_clear' : Rx.carries sof' = false) (body_inside' : ∀ i ∈ body', Rx.Inside i)
    (body_words' : Rx.frameWords body' = words) :
    ((Visits (RxLight.step cfg) RxLight.InPayload light (sof :: body) ↔ cfg.Wanted words) ∧
      (Visits (Rx.step gen cfg) Rx.PastAddress full (sof' :: body') ↔ cfg.Wanted words)) ↔
      cfg.Agrees words ∧ (cfg.Wanted words → 7 ≤ (RxLight.burst body).length) := by
  rw [RxLight.payload_reached_iff cfg positive light light_idle sof body sof_high sof_clear body_sof,
    Rx.address_passed_iff gen cfg full full_idle full_settled sof' body' sof_high' sof_clear'
      body_inside' (by rw [body_words']; omega),
    body_words, body_words', ← cfg.passes_wanted_iff words (by omega)]
  tauto

/-- A station that does or does not take broadcasts. -/
def station (acceptBroadcasts : Bool) : RxStreamerCfg :=
  { cRxStreamerCfgDefault with macLocal := 0x112233445566, acceptBroadcasts := acceptBroadcasts }

def framed (destination : List (BitVec 16)) : List (BitVec 16) := destination ++ [1, 2, 3, 0xdbff]

def lightFrame (words : List (BitVec 16)) : List RxLightIn :=
  ⟨{ RxLight.gapCycle.fab with sof := true }, false⟩ :: words.map RxLight.wordCycle

def fullFrame (words : List (BitVec 16)) : List RxIn :=
  Rx.cycle { RxLight.gapCycle.fab with sof := true } :: words.map Rx.wordCycle

theorem lightFrame_words (words : List (BitVec 16)) :
    RxLight.frameWords (words.map RxLight.wordCycle) = words := by
  have all : ∀ i ∈ words.map RxLight.wordCycle, RxLight.carries i = true := by
    simp [RxLight.wordCycle, RxLight.carries, fabDvalid]
  rw [RxLight.frameWords, List.filter_eq_self.2 all, List.map_map]
  exact List.map_id words

theorem fullFrame_words (words : List (BitVec 16)) :
    Rx.frameWords (words.map Rx.wordCycle) = words := by
  have all : ∀ i ∈ words.map Rx.wordCycle, Rx.carries i = true := by
    simp [Rx.wordCycle, Rx.cycle, Rx.carries, fabDvalid]
  rw [Rx.frameWords, List.filter_eq_self.2 all, List.map_map]
  exact List.map_id words

theorem lightFrame_reached (cfg : RxStreamerCfg) (words : List (BitVec 16)) :
    Visits (RxLight.step cfg) RxLight.InPayload (RxLight.reset 2 4) (lightFrame words) ↔
      7 ≤ (RxLight.burst (words.map RxLight.wordCycle)).length ∧ cfg.Passes words := by
  rw [lightFrame, RxLight.payload_reached_iff cfg (by decide) _ rfl _ _ rfl rfl
    (by simp [RxLight.wordCycle]), lightFrame_words]

theorem fullFrame_passed (cfg : RxStreamerCfg) (words : List (BitVec 16)) (long : 6 ≤ words.length) :
    Visits (Rx.step ⟨false, 0⟩ cfg) Rx.PastAddress (Rx.reset 2 4) (fullFrame words) ↔
      cfg.Passes words := by
  have inside : ∀ i ∈ words.map Rx.wordCycle, Rx.Inside i := by
    intro i member
    obtain ⟨data, -, rfl⟩ := List.mem_map.1 member
    exact ⟨rfl, rfl, rfl⟩
  rw [fullFrame, Rx.address_passed_iff _ cfg _ rfl rfl _ _ rfl rfl inside
    (by rwa [fullFrame_words]), fullFrame_words]

/-- A station that takes no broadcasts: both receivers refuse the frame addressed to it
and take the one addressed to another station. -/
theorem filter_inverted :
    let own := framed [0x1122, 0x3344, 0x5566]
    let other := framed [0xaaaa, 0xbbbb, 0xcccc]
    (station false).Wanted own ∧
      ¬ Visits (RxLight.step (station false)) RxLight.InPayload (RxLight.reset 2 4) (lightFrame own) ∧
      ¬ Visits (Rx.step ⟨false, 0⟩ (station false)) Rx.PastAddress (Rx.reset 2 4) (fullFrame own) ∧
      ¬ (station false).Wanted other ∧
      Visits (RxLight.step (station false)) RxLight.InPayload (RxLight.reset 2 4) (lightFrame other) ∧
      Visits (Rx.step ⟨false, 0⟩ (station false)) Rx.PastAddress (Rx.reset 2 4) (fullFrame other) := by
  have refused : ¬ (station false).Passes (framed [0x1122, 0x3344, 0x5566]) := by decide
  have passed : (station false).Passes (framed [0xaaaa, 0xbbbb, 0xcccc]) := by decide
  simp only [lightFrame_reached, fullFrame_passed _ (framed [0x1122, 0x3344, 0x5566]) (by decide),
    fullFrame_passed _ (framed [0xaaaa, 0xbbbb, 0xcccc]) (by decide), refused, passed,
    RxStreamerCfg.wanted_iff, RxStreamerCfg.forall_lt_three]
  decide

/-- With broadcasts accepted the frame for the station arrives. -/
theorem filter_exact_iff_own :
    let own := framed [0x1122, 0x3344, 0x5566]
    (Visits (RxLight.step (station true)) RxLight.InPayload (RxLight.reset 2 4) (lightFrame own) ↔
        (station true).Wanted own) ∧
      (Visits (Rx.step ⟨false, 0⟩ (station true)) Rx.PastAddress (Rx.reset 2 4) (fullFrame own) ↔
        (station true).Wanted own) := by
  have agrees : (station true).Agrees (framed [0x1122, 0x3344, 0x5566]) := by
    simp only [RxStreamerCfg.Agrees, RxStreamerCfg.forall_lt_three, RxStreamerCfg.exists_lt_three]
    decide
  exact (filter_exact_iff (by decide) ⟨false, 0⟩ (station true) (framed [0x1122, 0x3344, 0x5566])
    (by decide) (RxLight.reset 2 4) rfl _ _ rfl rfl (by simp [RxLight.wordCycle]) (lightFrame_words _)
    (Rx.reset 2 4) rfl rfl _ _ rfl rfl
    (fun i member => by obtain ⟨data, -, rfl⟩ := List.mem_map.1 member; exact ⟨rfl, rfl, rfl⟩)
    (fullFrame_words _)).2 ⟨agrees, fun _ => by decide⟩

end WrCores.Streamers
