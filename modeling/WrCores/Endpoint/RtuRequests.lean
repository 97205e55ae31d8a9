import WrCores.Endpoint.RtuPhases

/-!
Requests to the RTU over whole runs: how the header of each kind of frame comes in, and that the pulses
are those the frames owe, in their order.
-/

namespace WrCores.Endpoint.RxHead

open Clocked VlanUnit

variable {regs : VlanRegs} {s : RxHead} {i : RxHeadIn} {f : Frame}

/-! ### The request becomes due -/

/-- What the header extraction shows is what the frame asks for. -/
theorem request_eq (w : Waits s f) (vid : s.vlan.vid = f.vid regs) (prio : s.vlan.tclass = f.prio regs)
    (tag : s.vlan.isTaggedO = f.hasTag regs) : s.rtuRq = f.request regs := by
  obtain ⟨m, past, gathered⟩ := w.gathered
  have macs (k : Fin 6) : s.rtu.macs k = f.words.getD k 0 := gathered.macs k (by omega)
  simp only [rtuRq, Frame.request, RtuHeader.dmac, RtuHeader.smac, macs, vid, prio, tag]
  rfl

theorem Asks.see (asks : Asks regs s f) (typed : 7 ≤ f.words.length) (named : f.tagged = true → 8 ≤ f.words.length)
    (snk : InternalFabric) : Asks regs s (f.see snk) := by
  constructor
  · exact asks.waits.see typed snk
  · exact asks.ready
  · rw [asks.rq, Frame.see_request snk typed named]

/-- From here on the request stands on the output, whatever this cycle brings. -/
theorem turns_asking (flows : Flows s f) (asks : Asks regs (s.step regs i) f) (complete : f.complete regs = true)
    (aged : 0 < f.settled → 7 ≤ f.words.length) (none : s.pulses i = []) (sof : i.snkFab.sof = false)
    (stop : i.snkFab.eof = true → i.snkFab.error = false → s.vlan.state = .data ∧ i.snkFab.dvalid = false)
    (beyond : i.snkFab.error = false → i.snkFab.eof = false → Beyond regs (s.step regs i) (f.see i.snkFab)) :
    Moves regs s f (asked f (f.request regs)) 2 i := by
  obtain ⟨typed, named⟩ := Frame.complete_typed complete aged
  have enough : f.tagged = true → 8 ≤ f.words.length := fun tagged => by have := (named tagged).1; omega
  have same : (f.see i.snkFab).request regs = f.request regs := Frame.see_request i.snkFab typed enough
  cases error : i.snkFab.error with
  | true => exact fail_asks flows error sof typed asks complete none
  | false =>
      have later := asks.see typed enough i.snkFab
      have expected : (f.see i.snkFab).expected regs = f.expected regs := by
        have also := Frame.see_complete i.snkFab complete aged
        simp [Frame.expected, also, complete, same, see_sound error flows.sound, flows.sound]
      cases eof : i.snkFab.eof with
      | true =>
          obtain ⟨state, gap⟩ := stop eof error
          obtain ⟨ends, frame⟩ := flows.ends state error sof eof gap
          refine ⟨_, [], 1, .endsAsking ends later (.inl (by rw [frame])), by simp [expected], ?_, by simp⟩
          rw [none, asked_see, same, List.append_nil, List.nil_append]
      | false =>
          refine ⟨_, [], 1, .asking (beyond error eof) later, by simp [expected], ?_, by simp⟩
          rw [none, asked_see, same, List.append_nil, List.nil_append]

theorem Flows.inside (flows : Flows s f) (sof : i.snkFab.sof = false) : Inside s i := ⟨sof, flows.eof, flows.error⟩

theorem Shows.pulses (sh : Shows s f) (inside : Inside s i) : s.pulses i = [] := by
  rw [pulses_inside inside sh.gathered.quiet, sh.basic]
  rfl

/-- As long as the VLAN unit is not done the request is held. -/
theorem held_next (waits : Shows s f ∨ Waits s f) (inside : Inside s i) (held : s.ready = false) :
    Waits (s.step regs i) f ∧ s.pulses i = [] := by
  rcases waits with shows | waits
  · exact ⟨shows.next inside, shows.pulses inside⟩
  · refine ⟨waits.stays inside held, ?_⟩
    rw [waits.pulses inside, held]
    rfl

/-- A frame that goes on. -/
theorem see_live (live : f.ended = false) (snk : InternalFabric) (error : snk.error = false) (eof : snk.eof = false) :
    f.see snk = { f with
      words := if snk.dvalid then f.words ++ [snk.data] else f.words
      settled := if 7 ≤ f.words.length then f.settled + 1 else f.settled } := by
  simp [Frame.see, live, error, eof]

/-! ### An untagged frame -/

theorem Plain.complete (p : Plain regs s f) : f.complete regs = true := by
  have length := p.length
  obtain ⟨untagged, access, trunk⟩ := p.mode
  cases qmode : regs.qmode <;> simp_all [Frame.complete]

theorem Plain.late (p : Plain regs s f) (snk : InternalFabric) :
    s.vlan.atEthertype snk = false ∧ s.vlan.atVid snk = false := by
  constructor
  · rw [atEthertype, p.hdr, late_bits (by omega) (by omega)]
    rfl
  · simp [atVid, p.untagged.1]

/-- The registers that name the tag stay as they are. -/
theorem Plain.vlan (p : Plain regs s f) (sof : i.snkFab.sof = false)
    (stop : i.snkFab.eof = true → i.snkFab.error = false → i.snkFab.dvalid = false) :
    (s.step regs i).vlan.isTagged = false ∧ (s.step regs i).vlan.isTagInserted = false ∧
      (s.step regs i).vlan.vid = 0 ∧ (s.step regs i).vlan.tclass = 0 := by
  have nine : s.vlan.hdrOffset.getLsbD 9 = false := by
    rw [p.hdr, oneHot_bit 7 9 (by omega)]
    rfl
  have next : (s.step regs i).vlan = s.vlan.step regs i.snkFab true := rfl
  cases error : i.snkFab.error with
  | true =>
      rw [next, step_error regs s.vlan i.snkFab error sof, nine]
      exact ⟨p.untagged.1, p.untagged.2, p.blank.2.1, p.blank.2.2⟩
  | false =>
      cases eof : i.snkFab.eof with
      | true =>
          rw [next, step_eof regs s.vlan i.snkFab p.state error sof eof (stop eof error), nine]
          exact ⟨p.untagged.1, p.untagged.2, p.blank.2.1, p.blank.2.2⟩
      | false =>
          rw [next, step_word regs s.vlan i.snkFab p.state error sof eof (p.late _).1 (p.late _).2, nine]
          exact ⟨p.untagged.1, p.untagged.2, p.blank.2.1, p.blank.2.2⟩

theorem plain_moves (p : Plain regs s f) (sof : i.snkFab.sof = false)
    (stop : i.snkFab.eof = true → i.snkFab.error = false → i.snkFab.dvalid = false) :
    Moves regs s f (asked f (f.request regs)) 2 i := by
  have inside := p.toFlows.inside sof
  have waits : Waits (s.step regs i) f := p.shows.next inside
  obtain ⟨isTagged, inserted, vid, tclass⟩ := p.vlan sof stop
  obtain ⟨untagged, access, trunk⟩ := p.mode
  have access : (regs.qmode == .access) = false := by simpa using access
  have tag : (s.step regs i).vlan.isTaggedO = false := by simp [isTaggedO, isTagged, inserted]
  have asks : Asks regs (s.step regs i) f := by
    constructor
    · exact waits
    · simp [ready, tag]
    · apply request_eq waits
      · simp [vid, Frame.vid, untagged, access]
      · simp [tclass, Frame.prio, untagged, access]
      · simp [tag, Frame.hasTag, untagged, access]
  apply turns_asking p.toFlows asks p.complete (by simp [p.young]) (p.shows.pulses inside) sof
  · intro eof error
    exact ⟨p.state, stop eof error⟩
  · intro error eof
    have vlan := step_word regs s.vlan i.snkFab p.state error sof eof (p.late _).1 (p.late _).2
    have next : (s.step regs i).vlan = s.vlan.step regs i.snkFab true := rfl
    have frame := see_live p.live i.snkFab error eof
    constructor
    · constructor
      · rw [frame]
        exact p.live
      · exact see_sound error p.sound
      · rw [next, vlan]
        rfl
      · rw [next, vlan]
        rfl
    · rw [next, vlan]
      exact p.state
    · rw [isTagged, next, vlan, p.hdr]
      cases i.snkFab.dvalid with
      | false => exact ⟨7, by omega, by simp, rfl⟩
      | true => exact ⟨8, by omega, by simp, oneHot_next 7⟩
    · exact Frame.see_complete _ p.complete (by simp [p.young])
    · exact aged_see (by simp [p.young]) _

/-! ### A tagged frame -/

theorem Tag.held (t : Tag regs s f) : s.ready = false := by
  simp [ready, isTaggedO, t.tagged.1, t.blank]

theorem Tag.next (t : Tag regs s f) (inside : Inside s i) : Waits (s.step regs i) f ∧ s.pulses i = [] := by
  apply held_next _ inside t.held
  rcases t.waits with ⟨shows, -⟩ | waits
  · exact .inl shows
  · exact .inr waits

theorem Tag.short (t : Tag regs s f) (short : f.words.length ≤ 8) : f.complete regs = false := by
  simp [Frame.complete, t.mode]
  omega

theorem Tag.bit (t : Tag regs s f) : s.vlan.hdrOffset.getLsbD 9 = decide (f.words.length = 9) := by
  rw [t.hdr, oneHot_bit _ 9 (by omega)]
  simp [eq_comm]

/-- The type of the frame is known. -/
theorem Tag.late (t : Tag regs s f) (snk : InternalFabric) : s.vlan.atEthertype snk = false := by
  rw [atEthertype, t.hdr, late_bits t.range.1 (by omega)]
  rfl

/-- The registers of the VLAN unit once the last word of the header is past it. -/
theorem Tag.vlan (t : Tag regs s f) (nine : f.words.length = 9) (sof : i.snkFab.sof = false)
    (stop : i.snkFab.eof = true → i.snkFab.error = false → i.snkFab.dvalid = false) :
    (s.step regs i).vlan.isTagged = true ∧ (s.step regs i).vlan.isTagInserted = false ∧
      (s.step regs i).vlan.tagDone = true ∧ (s.step regs i).vlan.vid = s.vlan.vid ∧
      (s.step regs i).vlan.tclass = mapPrio regs s.vlan.prioInt := by
  have bit : s.vlan.hdrOffset.getLsbD 9 = true := by simp only [t.bit, nine, decide_true]
  have late : s.vlan.atVid i.snkFab = false := by
    rw [atVid, t.hdr, nine, oneHot_bit 9 7 (by omega)]
    rfl
  have next : (s.step regs i).vlan = s.vlan.step regs i.snkFab true := rfl
  cases error : i.snkFab.error with
  | true =>
      rw [next, step_error regs s.vlan i.snkFab error sof, bit]
      exact ⟨t.tagged.1, t.tagged.2, by simp, rfl, rfl⟩
  | false =>
      cases eof : i.snkFab.eof with
      | true =>
          rw [next, step_eof regs s.vlan i.snkFab t.state error sof eof (stop eof error), bit]
          exact ⟨t.tagged.1, t.tagged.2, by simp, rfl, rfl⟩
      | false =>
          rw [next, step_word regs s.vlan i.snkFab t.state error sof eof (t.late _) late, bit]
          exact ⟨t.tagged.1, t.tagged.2, by simp, rfl, rfl⟩

theorem Tag.complete (t : Tag regs s f) (nine : f.words.length = 9) : f.complete regs = true := by
  simp [Frame.complete, t.mode, nine, (t.named (by omega)).1]

theorem tag_asks (t : Tag regs s f) (nine : f.words.length = 9) (sof : i.snkFab.sof = false)
    (stop : i.snkFab.eof = true → i.snkFab.error = false → i.snkFab.dvalid = false) :
    Moves regs s f (asked f (f.request regs)) 2 i := by
  have inside := t.toFlows.inside sof
  obtain ⟨waits, none⟩ : Waits (s.step regs i) f ∧ s.pulses i = [] := t.next inside
  obtain ⟨isTagged, inserted, tagDone, vid, tclass⟩ := t.vlan nine sof stop
  obtain ⟨-, sameVid, samePrio⟩ := t.named (by omega)
  have asks : Asks regs (s.step regs i) f := by
    constructor
    · exact waits
    · simp [ready, tagDone]
    · apply request_eq waits
      · rw [vid, sameVid]
      · rw [tclass, samePrio]
      · simp [isTaggedO, isTagged, Frame.hasTag, t.mode]
  apply turns_asking t.toFlows asks (t.complete nine) t.aged none sof
  · intro eof error
    exact ⟨t.state, stop eof error⟩
  · intro error eof
    have late : s.vlan.atVid i.snkFab = false := by
      rw [atVid, t.hdr, nine, oneHot_bit 9 7 (by omega)]
      rfl
    have vlan := step_word regs s.vlan i.snkFab t.state error sof eof (t.late _) late
    have next : (s.step regs i).vlan = s.vlan.step regs i.snkFab true := rfl
    have frame := see_live t.live i.snkFab error eof
    constructor
    · constructor
      · rw [frame]
        exact t.live
      · exact see_sound error t.sound
      · rw [next, vlan]
        rfl
      · rw [next, vlan]
        rfl
    · rw [next, vlan]
      exact t.state
    · rw [next, vlan, t.hdr, nine]
      cases i.snkFab.dvalid with
      | false => exact ⟨9, by omega, fun _ => by omega, rfl⟩
      | true => exact ⟨10, by omega, fun _ => by omega, oneHot_next 9⟩
    · exact Frame.see_complete _ (t.complete nine) t.aged
    · exact aged_see t.aged _

/-- An error in the tag. -/
theorem tag_fails (t : Tag regs s f) (short : f.words.length ≤ 8) (sof : i.snkFab.sof = false)
    (error : i.snkFab.error = true) : Moves regs s f [] 0 i := by
  have inside := t.toFlows.inside sof
  obtain ⟨waits, none⟩ : Waits (s.step regs i) f ∧ s.pulses i = [] := t.next inside
  obtain ⟨m, -, gathered⟩ := waits.gathered
  have next : (s.step regs i).vlan = s.vlan.step regs i.snkFab true := rfl
  have young : f.words.length ≠ 9 := by omega
  apply fail_none t.toFlows error sof (t.short short) gathered.packet gathered.quiet waits.header _ none
  rw [ready, next, step_error regs s.vlan i.snkFab error sof, t.bit]
  simp [isTaggedO, t.tagged.1, t.blank, young]

/-- A tag is on its way and this cycle brings nothing that matters for it. -/
theorem tag_gap (t : Tag regs s f) (short : f.words.length ≤ 8) (sof : i.snkFab.sof = false)
    (error : i.snkFab.error = false) (eof : i.snkFab.eof = false) (gap : i.snkFab.dvalid = false) :
    Moves regs s f [] 0 i := by
  have inside := t.toFlows.inside sof
  obtain ⟨waits, none⟩ : Waits (s.step regs i) f ∧ s.pulses i = [] := t.next inside
  have young : f.words.length ≠ 9 := by omega
  have frame := see_live t.live i.snkFab error eof
  rw [gap, if_neg (by simp), if_pos t.range.1] at frame
  have late : s.vlan.atVid i.snkFab = false := by simp [atVid, gap]
  have vlan := step_word regs s.vlan i.snkFab t.state error sof eof (t.late _) late
  have next : (s.step regs i).vlan = s.vlan.step regs i.snkFab true := rfl
  rw [vlan, gap, if_neg (by simp), t.bit] at next
  have later : Tag regs (s.step regs i) (f.see i.snkFab) := by
    constructor
    · constructor
      · rw [frame]
        exact t.live
      · rw [frame]
        exact t.sound
      · rw [next]
        rfl
      · rw [next]
        rfl
    · rw [next]
      exact t.state
    · rw [frame]
      exact t.range
    · exact aged_see t.aged _
    · rw [frame]
      exact t.mode
    · rw [next, frame]
      exact t.hdr
    · rw [next]
      exact t.tagged
    · rw [next]
      simp [t.blank, young]
    · rw [next, frame]
      exact t.named
    · right
      exact waits.see t.range.1 _
  have young : ¬9 ≤ (f.see i.snkFab).words.length := by
    rw [frame]
    simp only
    omega
  refine ⟨_, [], _, .tag later, ?_, ?_, by simp [young]⟩
  · have still : (f.see i.snkFab).words.length ≤ 8 := by
      rw [frame]
      exact short
    simp [Frame.expected, later.short still, t.short short]
  · rw [none, if_neg young]

theorem tagVid_eq (tagged : f.tagged = true) : f.vid regs = tagVid regs (f.words.getD 7 0) := by
  simp [Frame.vid, Frame.decision, tagVid, tagged]

theorem tagPrio_eq (tagged : f.tagged = true) : f.prio regs = mapPrio regs (tagPrio regs (f.words.getD 7 0)) := by
  simp [Frame.prio, Frame.decision, tagPrio, tagged]

/-- The eighth word is the tag: it decides whether the port admits the frame. -/
theorem tag_word (t : Tag regs s f) (seven : f.words.length = 7) (sof : i.snkFab.sof = false)
    (error : i.snkFab.error = false) (eof : i.snkFab.eof = false) (word : i.snkFab.dvalid = true) :
    Moves regs s f [] 0 i := by
  have inside := t.toFlows.inside sof
  obtain ⟨waits, none⟩ : Waits (s.step regs i) f ∧ s.pulses i = [] := t.next inside
  have frame := see_live t.live i.snkFab error eof
  rw [word, if_pos rfl] at frame
  have words : (f.see i.snkFab).words = f.words ++ [i.snkFab.data] := by rw [frame]
  have length : (f.see i.snkFab).words.length = 8 := by simp [words, seven]
  have tag : (f.see i.snkFab).words.getD 7 0 = i.snkFab.data := by simp [words, List.getD, ← seven]
  have mode : (f.see i.snkFab).tagged = true := by rw [Frame.see_tagged _ t.range.1, t.mode]
  have short : (f.see i.snkFab).complete regs = false := by simp [Frame.complete, mode, length]
  have expected : (f.see i.snkFab).expected regs = f.expected regs ++ [] := by
    simp [Frame.expected, short, t.short (by omega)]
  have later := waits.see t.range.1 i.snkFab
  obtain ⟨state, hdr, vid, prio, isTagged, inserted, tagDone, srcEof, srcError⟩ :=
    step_vid regs s.vlan i.snkFab t.state error sof eof (by rw [t.hdr, seven]) word t.tagged.1
  cases admits : (fVlanDecision (combTagType true i.snkFab.data) regs.qmode).admits with
  | false =>
      rw [admits] at state
      have decision : ((f.see i.snkFab).decision regs).admits = false := by rw [Frame.decision, tag, admits]
      obtain ⟨m, -, gathered⟩ := later.gathered
      have held : (s.step regs i).ready = false := by
        simp [ready, isTaggedO, RxHead.step, isTagged, tagDone, t.blank]
      refine ⟨[], [], 0, ?_, expected, by rw [none], by simp⟩
      apply Phase.discardsNone
      · exact ⟨state, srcEof, srcError⟩
      · exact .inr (.inr ⟨by omega, mode, decision⟩)
      · exact short
      · exact gathered.packet
      · exact gathered.quiet
      · exact later.header
      · simp [held]
  | true =>
      rw [admits] at state
      have next : Tag regs (s.step regs i) (f.see i.snkFab) := by
        constructor
        · constructor
          · rw [frame]
            exact t.live
          · rw [frame]
            exact t.sound
          · exact srcEof
          · exact srcError
        · exact state
        · omega
        · exact aged_see t.aged _
        · exact mode
        · rw [length]
          exact hdr
        · exact ⟨isTagged, inserted.trans t.tagged.2⟩
        · exact tagDone.trans t.blank
        · intro _
          refine ⟨by rw [Frame.decision, tag, admits], ?_, ?_⟩
          · rw [tagVid_eq mode, tag]
            exact vid
          · rw [tagPrio_eq mode, tag]
            exact congrArg (mapPrio regs) prio
        · exact .inr later
      refine ⟨_, [], _, .tag next, expected, ?_, by simp [length]⟩
      rw [none, if_neg (by omega)]

/-- The ninth word completes the header. -/
theorem tag_last (t : Tag regs s f) (eight : f.words.length = 8) (sof : i.snkFab.sof = false)
    (error : i.snkFab.error = false) (eof : i.snkFab.eof = false) (word : i.snkFab.dvalid = true) :
    Moves regs s f [] 0 i := by
  have inside := t.toFlows.inside sof
  obtain ⟨waits, none⟩ : Waits (s.step regs i) f ∧ s.pulses i = [] := t.next inside
  have frame := see_live t.live i.snkFab error eof
  rw [word, if_pos rfl] at frame
  have length : (f.see i.snkFab).words.length = 9 := by simp [frame, eight]
  have mode : (f.see i.snkFab).tagged = true := by rw [Frame.see_tagged _ t.range.1, t.mode]
  have same : (f.see i.snkFab).words.getD 7 0 = f.words.getD 7 0 := Frame.see_word _ (by omega)
  have late : s.vlan.atVid i.snkFab = false := by
    rw [atVid, t.hdr, eight, oneHot_bit 8 7 (by omega)]
    rfl
  have vlan := step_word regs s.vlan i.snkFab t.state error sof eof (t.late _) late
  have next : (s.step regs i).vlan = s.vlan.step regs i.snkFab true := rfl
  rw [vlan, word, if_pos rfl, t.bit, eight, t.hdr, eight] at next
  obtain ⟨admits, sameVid, samePrio⟩ := t.named (by omega)
  have later : Tag regs (s.step regs i) (f.see i.snkFab) := by
    constructor
    · constructor
      · rw [frame]
        exact t.live
      · rw [frame]
        exact t.sound
      · rw [next]
        rfl
      · rw [next]
        rfl
    · rw [next]
      exact t.state
    · omega
    · exact aged_see t.aged _
    · exact mode
    · rw [next, length]
      exact oneHot_next 8
    · rw [next]
      exact t.tagged
    · rw [next]
      simp [t.blank]
    · intro _
      rw [Frame.see_decision _ (by omega), next]
      refine ⟨admits, ?_, ?_⟩
      · rw [tagVid_eq mode, same, ← tagVid_eq t.mode]
        exact sameVid
      · rw [tagPrio_eq mode, same, ← tagPrio_eq t.mode]
        exact samePrio
    · exact .inr (waits.see t.range.1 _)
  refine ⟨_, asked f ((f.see i.snkFab).request regs), _, .tag later, ?_, ?_, ?_⟩
  · have sound := see_sound error t.sound
    simp [Frame.expected, later.complete length, t.short (by omega), sound, asked]
  · rw [none, if_pos (by omega), asked_see]
  · intro idle
    rw [idle.dvalid] at word
    simp at word

theorem tag_moves (t : Tag regs s f) (sof : i.snkFab.sof = false)
    (stop : i.snkFab.eof = true → i.snkFab.error = false → i.snkFab.dvalid = false ∧ 9 ≤ f.words.length) :
    Moves regs s f (if 9 ≤ f.words.length then asked f (f.request regs) else [])
      (if 9 ≤ f.words.length then 2 else 0) i := by
  have range := t.range
  by_cases nine : 9 ≤ f.words.length
  · rw [if_pos nine, if_pos nine]
    exact tag_asks t (by omega) sof fun eof error => (stop eof error).1
  · rw [if_neg nine, if_neg nine]
    have short : f.words.length ≤ 8 := by omega
    cases error : i.snkFab.error with
    | true => exact tag_fails t short sof error
    | false =>
        have eof : i.snkFab.eof = false := by
          by_contra past
          exact nine (stop (by simpa using past) error).2
        cases word : i.snkFab.dvalid with
        | false => exact tag_gap t short sof error eof word
        | true =>
            by_cases seven : f.words.length = 7
            · exact tag_word t seven sof error eof word
            · exact tag_last t (by omega) sof error eof word

/-! ### A frame that gets the port's tag -/

section Inserted

variable {j : Nat}

theorem Insert.next (t : Insert regs s f j) (inside : Inside s i) :
    Waits (s.step regs i) f ∧ s.pulses i = [] := by
  have held : s.ready = false := by simp [ready, isTaggedO, t.tagged.2, t.blank]
  apply held_next _ inside held
  rcases t.waits with ⟨shows, -⟩ | waits
  · exact .inl shows
  · exact .inr waits

theorem Insert.bit (t : Insert regs s f j) : s.vlan.hdrOffset.getLsbD 9 = decide (j = 9) := by
  rw [t.hdr, oneHot_bit j 9 (by omega)]
  simp [eq_comm]

theorem Insert.complete (t : Insert regs s f j) : f.complete regs = decide (j = 9) := by
  have age := t.age
  rcases t.range with rfl | rfl | rfl <;> simp [Frame.complete, t.mode.1, t.mode.2, age]

theorem Insert.vid_eq (t : Insert regs s f j) : f.vid regs = regs.pvid := by
  simp [Frame.vid, t.mode.1, t.mode.2]

theorem Insert.prio_eq (t : Insert regs s f j) : f.prio regs = mapPrio regs regs.prioVal := by
  simp [Frame.prio, t.mode.1, t.mode.2]

/-- The registers of the VLAN unit once the tag is in. -/
theorem Insert.vlan (t : Insert regs s f 9) (sof : i.snkFab.sof = false) :
    (s.step regs i).vlan.isTagInserted = true ∧ (s.step regs i).vlan.tagDone = true ∧
      (s.step regs i).vlan.vid = regs.pvid ∧ (s.step regs i).vlan.tclass = mapPrio regs regs.prioVal := by
  have next : (s.step regs i).vlan = s.vlan.step regs i.snkFab true := rfl
  cases error : i.snkFab.error with
  | true =>
      rw [next, step_error regs s.vlan i.snkFab error sof, t.bit]
      exact ⟨t.tagged.2, by simp, t.vid (by omega), by simp [t.prio]⟩
  | false =>
      obtain ⟨-, -, vid, -, -, inserted, tagDone, tclass, -⟩ :=
        step_insert regs s.vlan i.snkFab t.range t.state error sof t.hdr
      rw [next, vid, inserted, tagDone, tclass]
      exact ⟨t.tagged.2, by simp, by simp [t.vid], by simp [t.prio]⟩

theorem insert_asks (t : Insert regs s f 9) (sof : i.snkFab.sof = false)
    (stop : i.snkFab.error = false → i.snkFab.eof = false) : Moves regs s f (asked f (f.request regs)) 2 i := by
  have inside := t.toFlows.inside sof
  obtain ⟨waits, none⟩ : Waits (s.step regs i) f ∧ s.pulses i = [] := t.next inside
  obtain ⟨inserted, tagDone, vid, tclass⟩ := t.vlan sof
  have aged : 0 < f.settled → 7 ≤ f.words.length := fun _ => t.length
  have complete : f.complete regs = true := t.complete
  have asks : Asks regs (s.step regs i) f := by
    constructor
    · exact waits
    · simp [ready, tagDone]
    · apply request_eq waits
      · rw [vid, t.vid_eq]
      · rw [tclass, t.prio_eq]
      · simp [isTaggedO, inserted, Frame.hasTag, t.mode.2]
  apply turns_asking t.toFlows asks complete aged none sof
  · intro eof error
    rw [stop error] at eof
    simp at eof
  · intro error eof
    obtain ⟨state, hdr, -, -, isTagged, -, -, -, srcEof, srcError⟩ :=
      step_insert regs s.vlan i.snkFab t.range t.state error sof t.hdr
    have frame := see_live t.live i.snkFab error eof
    constructor
    · constructor
      · rw [frame]
        exact t.live
      · exact see_sound error t.sound
      · exact srcEof.trans t.eof
      · exact srcError.trans t.error
    · exact state
    · exact ⟨10, by omega, fun _ => by omega, hdr⟩
    · exact Frame.see_complete _ complete aged
    · exact aged_see aged _

theorem insert_fails (t : Insert regs s f j) (early : j ≠ 9) (sof : i.snkFab.sof = false)
    (error : i.snkFab.error = true) : Moves regs s f [] (11 - j) i := by
  have inside := t.toFlows.inside sof
  obtain ⟨waits, none⟩ : Waits (s.step regs i) f ∧ s.pulses i = [] := t.next inside
  obtain ⟨m, -, gathered⟩ := waits.gathered
  have next : (s.step regs i).vlan = s.vlan.step regs i.snkFab true := rfl
  apply fail_none t.toFlows error sof (by simp [t.complete, early]) gathered.packet gathered.quiet waits.header _ none
  rw [ready, next, step_error regs s.vlan i.snkFab error sof, t.bit]
  simp [isTaggedO, t.tagged.2, t.blank, early]

theorem insert_next (t : Insert regs s f j) (early : j ≠ 9) (sof : i.snkFab.sof = false)
    (error : i.snkFab.error = false) (eof : i.snkFab.eof = false) : Moves regs s f [] (11 - j) i := by
  have inside := t.toFlows.inside sof
  have range := t.range
  obtain ⟨waits, none⟩ : Waits (s.step regs i) f ∧ s.pulses i = [] := t.next inside
  have frame := see_live t.live i.snkFab error eof
  rw [if_pos t.length] at frame
  obtain ⟨state, hdr, vid, prio, isTagged, inserted, tagDone, -, srcEof, srcError⟩ :=
    step_insert regs s.vlan i.snkFab range t.state error sof t.hdr
  have later : Insert regs (s.step regs i) (f.see i.snkFab) (j + 1) := by
    constructor
    · constructor
      · rw [frame]
        exact t.live
      · rw [frame]
        exact t.sound
      · exact srcEof.trans t.eof
      · exact srcError.trans t.error
    · rw [if_neg early] at state
      exact state
    · omega
    · have longer := Frame.see_length f i.snkFab
      have length := t.length
      omega
    · rw [frame]
      have age := t.age
      simp only
      omega
    · rw [Frame.see_tagged _ t.length]
      exact t.mode
    · exact hdr
    · exact ⟨isTagged.trans t.tagged.1, inserted.trans t.tagged.2⟩
    · refine tagDone.trans ?_
      simp [t.blank, early]
    · exact prio.trans t.prio
    · intro _
      refine vid.trans ?_
      split
      · rfl
      · exact t.vid (by omega)
    · exact .inr (waits.see t.length _)
  refine ⟨_, if j + 1 = 9 then asked f ((f.see i.snkFab).request regs) else [], _, .insert (j + 1) later, ?_, ?_,
    fun _ => by omega⟩
  · have sound := see_sound error t.sound
    rw [Frame.expected, Frame.expected, later.complete, t.complete, sound, asked, Frame.see_accepted]
    by_cases last : j + 1 = 9 <;> simp [last, early]
  · rw [none, asked_see]

theorem insert_moves (t : Insert regs s f j) (sof : i.snkFab.sof = false)
    (stop : i.snkFab.error = false → i.snkFab.eof = false) :
    Moves regs s f (if j = 9 then asked f (f.request regs) else []) (11 - j) i := by
  by_cases nine : j = 9
  · subst nine
    rw [if_pos rfl]
    exact insert_asks t sof stop
  · rw [if_neg nine]
    cases error : i.snkFab.error with
    | true => exact insert_fails t nine sof error
    | false => exact insert_next t nine sof error (stop error)

end Inserted

/-! ### The first seven words -/

theorem Head.short_of (h : Head s f) : f.complete regs = false := by
  have short := h.short
  have young := h.young
  cases tagged : f.tagged with
  | true =>
      simp [Frame.complete, tagged]
      omega
  | false =>
      cases qmode : regs.qmode <;> simp [Frame.complete, tagged, qmode, young]
      all_goals omega

/-- The word on the output of the VLAN unit is taken down. -/
theorem Head.gathers (h : Head s f) (inside : Inside s i) : Gathered (s.step regs i) f f.words.length := by
  obtain ⟨m, length, gathered, shown⟩ := h.gathered
  have short := h.short
  constructor
  · rw [step_hdr inside, gathered.hdr, length]
    cases s.vlan.src.dvalid with
    | false => rfl
    | true => exact oneHot_next m
  · intro k early
    rw [step_macs, gathered.hdr, oneHot_bit m k (by omega)]
    cases word : s.vlan.src.dvalid with
    | false =>
        rw [word] at length
        simp only [Bool.and_false, Bool.false_eq_true, if_false]
        exact gathered.macs k (by simp_all)
    | true =>
        rw [word] at length
        by_cases now : k.val = m
        · simp [now, shown word]
        · simp only [now, decide_false, Bool.false_and, Bool.false_eq_true, if_false]
          exact gathered.macs k (by simp at length; omega)
  · rw [step_packet inside, gathered.packet]
  · exact step_quiet inside

theorem Head.rtu (h : Head s f) (inside : Inside s i) :
    (s.step regs i).rtu.validBasic = false ∧ (f.accepted = true → (s.step regs i).rtu.inHeader = true) ∧
      s.pulses i = [] := by
  obtain ⟨m, length, gathered, -⟩ := h.gathered
  have short := h.short
  refine ⟨?_, ?_, ?_⟩
  · rw [step_basic inside, h.basic, gathered.hdr, oneHot_bit m 6 (by omega)]
    cases word : s.vlan.src.dvalid with
    | false => simp
    | true =>
        rw [word] at length
        simp at length ⊢
        omega
  · intro accepted
    rw [step_header inside, h.header accepted, h.basic]
    rfl
  · rw [pulses_inside inside gathered.quiet, h.basic]
    rfl

theorem head_fails (h : Head s f) (sof : i.snkFab.sof = false) (error : i.snkFab.error = true) :
    Moves regs s f [] 0 i := by
  have inside := h.toFlows.inside sof
  have gathered : Gathered (s.step regs i) f f.words.length := h.gathers inside
  obtain ⟨basic, header, none⟩ : (s.step regs i).rtu.validBasic = false ∧
      (f.accepted = true → (s.step regs i).rtu.inHeader = true) ∧ s.pulses i = [] := h.rtu inside
  exact fail_none h.toFlows error sof h.short_of gathered.packet gathered.quiet header (by simp [basic]) none

theorem Gathered.see {m : Nat} (g : Gathered s f m) (enough : m ≤ f.words.length) (snk : InternalFabric) :
    Gathered s (f.see snk) m := by
  constructor
  · exact g.hdr
  · intro k early
    rw [g.macs k early, Frame.see_word snk (by omega)]
  · rw [g.packet, Frame.see_accepted]
  · exact g.quiet

/-- The header goes on. -/
theorem head_next (h : Head s f) (sof : i.snkFab.sof = false) (error : i.snkFab.error = false)
    (eof : i.snkFab.eof = false) (before : i.snkFab.dvalid = true → f.words.length < 6) : Moves regs s f [] 0 i := by
  have inside := h.toFlows.inside sof
  have short := h.short
  have gathered : Gathered (s.step regs i) f f.words.length := h.gathers inside
  obtain ⟨basic, header, none⟩ : (s.step regs i).rtu.validBasic = false ∧
      (f.accepted = true → (s.step regs i).rtu.inHeader = true) ∧ s.pulses i = [] := h.rtu inside
  have frame := see_live h.live i.snkFab error eof
  rw [if_neg (by omega : ¬7 ≤ f.words.length)] at frame
  have ethertype : s.vlan.atEthertype i.snkFab = false := by
    rw [atEthertype, h.hdr, oneHot_bit _ 6 (by omega)]
    cases word : i.snkFab.dvalid with
    | false => simp
    | true =>
        have := before word
        simp
        omega
  have late : s.vlan.atVid i.snkFab = false := by simp [atVid, h.untagged.1]
  have nine : s.vlan.hdrOffset.getLsbD 9 = false := by
    rw [h.hdr, oneHot_bit _ 9 (by omega)]
    simp
    omega
  have vlan := step_word regs s.vlan i.snkFab h.state error sof eof ethertype late
  have next : (s.step regs i).vlan = s.vlan.step regs i.snkFab true := rfl
  rw [vlan, nine] at next
  have later : Head (s.step regs i) (f.see i.snkFab) := by
    constructor
    · constructor
      · rw [frame]
        exact h.live
      · rw [frame]
        exact h.sound
      · rw [next]
        rfl
      · rw [next]
        rfl
    · rw [next]
      exact h.state
    · rw [frame]
      cases word : i.snkFab.dvalid with
      | false => simpa using short
      | true =>
          have := before word
          simp
          omega
    · rw [frame]
      exact h.young
    · rw [next, frame, h.hdr]
      cases i.snkFab.dvalid with
      | false => rfl
      | true => simp [oneHot_next]
    · rw [next]
      exact h.untagged
    · rw [next]
      simpa using h.blank
    · refine ⟨f.words.length, ?_, gathered.see le_rfl _, ?_⟩
      · rw [next, frame, passed]
        cases i.snkFab.dvalid <;> simp
      · intro word
        rw [next, passed] at word ⊢
        simp only at word
        rw [frame, word]
        simp [List.getD]
    · exact basic
    · rw [Frame.see_accepted]
      exact header
  refine ⟨[], [], 0, .head later, ?_, by rw [none], by simp⟩
  simp [Frame.expected, later.short_of, h.short_of]

/-- The seventh word in the frame. -/
structure Seventh (s : RxHead) (f : Frame) : Prop where
  live : f.ended = false
  sound : f.failed = false
  length : f.words.length = 7
  young : f.settled = 0
  gathered : Gathered s f 6
  basic : s.rtu.validBasic = false
  header : f.accepted = true → s.rtu.inHeader = true

theorem Head.seventh (h : Head s f) (sof : i.snkFab.sof = false) (error : i.snkFab.error = false)
    (eof : i.snkFab.eof = false) (word : i.snkFab.dvalid = true) (six : f.words.length = 6) :
    Seventh (s.step regs i) (f.see i.snkFab) ∧ (f.see i.snkFab).words.getD 6 0 = i.snkFab.data := by
  have inside := h.toFlows.inside sof
  have gathered : Gathered (s.step regs i) f f.words.length := h.gathers inside
  have frame := see_live h.live i.snkFab error eof
  rw [word, if_pos rfl, if_neg (by omega : ¬7 ≤ f.words.length)] at frame
  have rtu : (s.step regs i).rtu.validBasic = false ∧
      (f.accepted = true → (s.step regs i).rtu.inHeader = true) ∧ s.pulses i = [] := h.rtu inside
  constructor
  · constructor
    · rw [frame]
      exact h.live
    · rw [frame]
      exact h.sound
    · simp [frame, six]
    · rw [frame]
      exact h.young
    · rw [six] at gathered
      exact gathered.see (by omega) _
    · exact rtu.1
    · rw [Frame.see_accepted]
      exact rtu.2.1
  · simp [frame, List.getD, ← six]

theorem Seventh.shows (seven : Seventh s f) (dvalid : s.vlan.src.dvalid = true) : Shows s f :=
  ⟨seven.gathered, dvalid, seven.basic, seven.header⟩

theorem untagged_of {data : BitVec 16} (type : f.words.getD 6 0 = data) (tag : data ≠ 0x8100#16) :
    f.tagged = false := by
  rw [Frame.tagged, type]
  simpa using tag

section Typed

variable (h : Head s f) (sof : i.snkFab.sof = false) (error : i.snkFab.error = false) (eof : i.snkFab.eof = false)
  (word : i.snkFab.dvalid = true) (six : f.words.length = 6)
include h sof error eof word six

theorem head_tag (tag : i.snkFab.data = 0x8100#16) : Moves regs s f [] 0 i := by
  obtain ⟨seven, type⟩ : Seventh (s.step regs i) (f.see i.snkFab) ∧ (f.see i.snkFab).words.getD 6 0 = i.snkFab.data :=
    h.seventh sof error eof word six
  obtain ⟨-, -, none⟩ : (s.step regs i).rtu.validBasic = false ∧
      (f.accepted = true → (s.step regs i).rtu.inHeader = true) ∧ s.pulses i = [] := h.rtu (h.toFlows.inside sof)
  have hdr : s.vlan.hdrOffset = oneHot 6 := by rw [h.hdr, six]
  have next : (s.step regs i).vlan = s.vlan.step regs i.snkFab true := rfl
  rw [step_tag regs s.vlan i.snkFab h.state error sof eof hdr word tag] at next
  have length := seven.length
  have mode : (f.see i.snkFab).tagged = true := by
    rw [Frame.tagged, type, tag]
    rfl
  have later : Tag regs (s.step regs i) (f.see i.snkFab) := by
    constructor
    · exact ⟨seven.live, seven.sound, by rw [next]; rfl, by rw [next]; rfl⟩
    · rw [next]
      exact h.state
    · omega
    · simp [seven.young]
    · exact mode
    · rw [next, length]
    · rw [next]
      exact ⟨rfl, h.untagged.2⟩
    · rw [next]
      exact h.blank.1
    · intro named
      omega
    · exact .inl ⟨seven.shows (by rw [next]; exact word), length⟩
  refine ⟨_, [], _, .tag later, ?_, ?_, by simp [length]⟩
  · simp [Frame.expected, later.short (by omega), h.short_of]
  · rw [none, if_neg (by omega)]

theorem head_access (tag : i.snkFab.data ≠ 0x8100#16) (access : regs.qmode = .access) : Moves regs s f [] 0 i := by
  obtain ⟨seven, type⟩ : Seventh (s.step regs i) (f.see i.snkFab) ∧ (f.see i.snkFab).words.getD 6 0 = i.snkFab.data :=
    h.seventh sof error eof word six
  obtain ⟨-, -, none⟩ : (s.step regs i).rtu.validBasic = false ∧
      (f.accepted = true → (s.step regs i).rtu.inHeader = true) ∧ s.pulses i = [] := h.rtu (h.toFlows.inside sof)
  have hdr : s.vlan.hdrOffset = oneHot 6 := by rw [h.hdr, six]
  have next : (s.step regs i).vlan = s.vlan.step regs i.snkFab true := rfl
  rw [step_access regs s.vlan i.snkFab h.state error sof eof hdr word tag access] at next
  have later : Insert regs (s.step regs i) (f.see i.snkFab) 7 := by
    constructor
    · exact ⟨seven.live, seven.sound, by rw [next], by rw [next]⟩
    · rw [next]
    · exact .inl rfl
    · exact seven.length.ge
    · exact seven.young
    · exact ⟨untagged_of type tag, access⟩
    · rw [next]
    · rw [next]
      exact ⟨rfl, rfl⟩
    · rw [next]
      exact h.blank.1
    · rw [next]
    · omega
    · exact .inl ⟨seven.shows (by rw [next]), rfl⟩
  refine ⟨_, [], _, .insert 7 later, ?_, ?_, ?_⟩
  · simp [Frame.expected, later.complete, h.short_of]
  · rw [none, if_neg (by omega)]
  · intro idle
    rw [idle.dvalid] at word
    simp at word

theorem head_trunk (tag : i.snkFab.data ≠ 0x8100#16) (trunk : regs.qmode = .trunk) : Moves regs s f [] 0 i := by
  obtain ⟨seven, type⟩ : Seventh (s.step regs i) (f.see i.snkFab) ∧ (f.see i.snkFab).words.getD 6 0 = i.snkFab.data :=
    h.seventh sof error eof word six
  obtain ⟨-, -, none⟩ : (s.step regs i).rtu.validBasic = false ∧
      (f.accepted = true → (s.step regs i).rtu.inHeader = true) ∧ s.pulses i = [] := h.rtu (h.toFlows.inside sof)
  have hdr : s.vlan.hdrOffset = oneHot 6 := by rw [h.hdr, six]
  have next : (s.step regs i).vlan = s.vlan.step regs i.snkFab true := rfl
  rw [step_trunk regs s.vlan i.snkFab h.state error sof eof hdr word tag trunk] at next
  have mode := untagged_of type tag
  have short : (f.see i.snkFab).complete regs = false := by simp [Frame.complete, mode, trunk]
  refine ⟨[], [], 0, ?_, by simp [Frame.expected, short, h.short_of], by rw [none], by simp⟩
  apply Phase.discardsNone
  · exact ⟨by rw [next], by rw [next]; rfl, by rw [next]; rfl⟩
  · exact .inr (.inl ⟨seven.length.ge, mode, trunk⟩)
  · exact short
  · exact seven.gathered.packet
  · exact seven.gathered.quiet
  · exact seven.header
  · simp [seven.basic]

theorem head_plain (tag : i.snkFab.data ≠ 0x8100#16) (access : regs.qmode ≠ .access) (trunk : regs.qmode ≠ .trunk) :
    Moves regs s f [] 0 i := by
  obtain ⟨seven, type⟩ : Seventh (s.step regs i) (f.see i.snkFab) ∧ (f.see i.snkFab).words.getD 6 0 = i.snkFab.data :=
    h.seventh sof error eof word six
  obtain ⟨-, -, none⟩ : (s.step regs i).rtu.validBasic = false ∧
      (f.accepted = true → (s.step regs i).rtu.inHeader = true) ∧ s.pulses i = [] := h.rtu (h.toFlows.inside sof)
  have hdr : s.vlan.hdrOffset = oneHot 6 := by rw [h.hdr, six]
  have next : (s.step regs i).vlan = s.vlan.step regs i.snkFab true := rfl
  rw [step_untagged regs s.vlan i.snkFab h.state error sof eof hdr word tag ⟨access, trunk⟩] at next
  have later : Plain regs (s.step regs i) (f.see i.snkFab) := by
    constructor
    · exact ⟨seven.live, seven.sound, by rw [next]; rfl, by rw [next]; rfl⟩
    · rw [next]
      exact h.state
    · exact seven.length
    · exact seven.young
    · exact ⟨untagged_of type tag, access, trunk⟩
    · rw [next]
    · rw [next]
      exact ⟨rfl, h.untagged.2⟩
    · rw [next]
      exact h.blank
    · exact seven.shows (by rw [next]; exact word)
  refine ⟨_, asked (f.see i.snkFab) ((f.see i.snkFab).request regs), 2, .plain later, ?_, by rw [none], ?_⟩
  · rw [Frame.expected, Frame.expected, later.complete, h.short_of, seven.sound, asked]
    simp
  · intro idle
    rw [idle.dvalid] at word
    simp at word

/-- The seventh word tells the kinds of frames apart. -/
theorem head_typed : Moves regs s f [] 0 i := by
  by_cases tag : i.snkFab.data = 0x8100#16
  · exact head_tag h sof error eof word six tag
  · by_cases access : regs.qmode = .access
    · exact head_access h sof error eof word six tag access
    · by_cases trunk : regs.qmode = .trunk
      · exact head_trunk h sof error eof word six tag trunk
      · exact head_plain h sof error eof word six tag access trunk

end Typed

theorem head_moves (h : Head s f) (sof : i.snkFab.sof = false)
    (stop : i.snkFab.eof = true → i.snkFab.error = false → 7 ≤ f.words.length) : Moves regs s f [] 0 i := by
  have short := h.short
  cases error : i.snkFab.error with
  | true => exact head_fails h sof error
  | false =>
      have eof : i.snkFab.eof = false := by
        by_contra past
        have := stop (by simpa using past) error
        omega
      by_cases last : i.snkFab.dvalid = true ∧ f.words.length = 6
      · exact head_typed h sof error eof last.1 last.2
      · apply head_next h sof error eof
        intro word
        have : f.words.length ≠ 6 := fun six => last ⟨word, six⟩
        omega

/-! ### Whole runs -/

theorem phase_moves {owed : List RtuEvent} {wait : Nat} {o : Observer} {rest : List Frame}
    (frames : o.frames = f :: rest)
    (phase : Phase regs s f owed wait) (fits : Fits (s, o) i) (sof : i.snkFab.sof = false) :
    Moves regs s f owed wait i := by
  have gap (eof : i.snkFab.eof = true) (error : i.snkFab.error = false) : i.snkFab.dvalid = false :=
    (fits.stop eof error).1
  have sound (state : s.vlan.state = .discardFrame) : i.snkFab.error = false := by
    by_contra error
    exact fits.error (by simpa using error) state
  have words (state : s.vlan.state = .data) (eof : i.snkFab.eof = true) (error : i.snkFab.error = false) :
      7 ≤ f.words.length ∧ (f.tagged = true → 9 ≤ f.words.length) :=
    Frame.headed_words ((fits.stop eof error).2.2 state f (by simp [frames]))
  cases phase with
  | quiet quiet dead => exact quiet_moves quiet dead sof
  | head head => exact head_moves head sof fun eof error => (words head.state eof error).1
  | plain plain => exact plain_moves plain sof gap
  | tag tag =>
      apply tag_moves tag sof
      intro eof error
      exact ⟨gap eof error, (words tag.state eof error).2 tag.mode⟩
  | insert j insert =>
      apply insert_moves insert sof
      intro error
      by_contra eof
      exact (fits.stop (by simpa using eof) error).2.1 insert.state
  | asking beyond asks => exact asking_moves beyond asks sof gap
  | done beyond past => exact done_moves beyond past sof gap
  | endsAsking ends asks dead => exact ends_asking ends asks dead sof
  | endsDone ends past dead => exact ends_done ends past dead sof
  | discardsAsking discards asks ended complete =>
      exact discards_asking discards asks ended complete (sound discards.state) sof
  | discardsDone discards past ended complete =>
      exact discards_done discards past ended complete (sound discards.state) sof
  | discardsNone discards dead short packet quiet header held =>
      exact discards_none discards dead short packet quiet header held (sound discards.state) sof
  | fails fails dead => exact fails_moves fails dead sof

/-- Where a frame may start nothing of the one before is under way. -/
theorem Phase.quiet_of {owed : List RtuEvent} {wait : Nat} (phase : Phase regs s f owed wait)
    (state : s.vlan.state = .waitFrame) (eof : s.vlan.src.eof = false) (error : s.vlan.src.error = false) :
    Quiet s ∧ owed = abortNow s := by
  cases phase with
  | quiet quiet dead => exact ⟨quiet, rfl⟩
  | head head => simp [head.state] at state
  | plain plain => simp [plain.state] at state
  | tag tag => simp [tag.state] at state
  | insert j insert => simp [insert.state] at state
  | asking beyond asks => simp [beyond.state] at state
  | done beyond past => simp [beyond.state] at state
  | endsAsking ends asks dead => simp [ends.eof] at eof
  | endsDone ends past dead => simp [ends.eof] at eof
  | discardsAsking discards asks ended complete => simp [discards.state] at state
  | discardsDone discards past ended complete => simp [discards.state] at state
  | discardsNone discards dead short packet quiet header held => simp [discards.state] at state
  | fails fails dead => simp [fails.error] at error

theorem Phase.settled {owed : List RtuEvent} (phase : Phase regs s f owed 0) : owed = [] := by
  generalize none : 0 = wait at phase
  cases phase with
  | quiet quiet dead => exact List.length_eq_zero_iff.mp none.symm
  | tag tag =>
      split at none
      · simp at none
      · rw [if_neg (by assumption)]
  | insert j insert =>
      have := insert.range
      omega
  | fails fails dead =>
      cases complete : f.complete regs
      · simp
      · simp [complete] at none
  | head head => rfl
  | done beyond past => rfl
  | endsDone ends past dead => rfl
  | discardsNone discards dead short packet quiet header held => rfl
  | plain plain => simp at none
  | asking beyond asks => simp at none
  | endsAsking ends asks dead => simp at none
  | discardsAsking discards asks ended complete => simp at none
  | discardsDone discards past ended complete => simp at none

/-- No more than four idle cycles are needed. -/
theorem Phase.bound {owed : List RtuEvent} {wait : Nat} (phase : Phase regs s f owed wait) : wait ≤ 4 := by
  cases phase with
  | quiet quiet dead => cases abort : s.rtu.abort <;> simp [abortNow, abort]
  | tag tag => split <;> omega
  | insert j insert =>
      have := insert.range
      omega
  | fails fails dead => split <;> omega
  | head head => omega
  | plain plain => omega
  | asking beyond asks => omega
  | done beyond past => omega
  | endsAsking ends asks dead => omega
  | endsDone ends past dead => omega
  | discardsAsking discards asks ended complete => omega
  | discardsDone discards past ended complete => omega
  | discardsNone discards dead short packet quiet header held => omega

theorem due_cons (f : Frame) (rest : List Frame) : due regs (f :: rest) = due regs rest ++ f.expected regs := by
  simp [due]

/-- What a start of frame makes of a quiet head. -/
theorem Quiet.start {o : Observer} (q : Quiet s) (fits : Fits (s, o) i) (sof : i.snkFab.sof = true) :
    Head (s.step regs i) { accepted := s.buffer.accepts (s.bufferIn i) } := by
  obtain ⟨state, eof, srcError, error, -, -⟩ : s.vlan.state = .waitFrame ∧ s.vlan.src.eof = false ∧
    s.vlan.src.error = false ∧ i.snkFab.error = false ∧ i.snkFab.eof = false ∧ i.snkFab.dvalid = false :=
      fits.start sof
  have drop := fits.drop sof
  have vlan := step_start regs s.vlan i.snkFab state error sof
  have next : (s.step regs i).vlan = s.vlan.step regs i.snkFab true := rfl
  rw [vlan] at next
  have accepts : s.buffer.accepts (s.bufferIn i) = (!i.rtuFull && !s.buffer.qDrop) := by
    simp only [RxBuffer.accepts, bufferIn, RtuHeader.srcFab, rtuIn, VlanUnit.srcFab, q.buffer, sof]
    cases full : i.rtuFull
    · cases qDrop : s.buffer.qDrop
      · simp_all
      · simp
    · simp
  have out := validOut_eq s i
  rw [q.basic] at out
  constructor
  · constructor
    · rfl
    · rfl
    · rw [next]
    · rw [next]
  · rw [next]
  · simp
  · rfl
  · rw [next]
    rfl
  · rw [next]
    exact ⟨rfl, rfl⟩
  · rw [next]
    exact ⟨rfl, rfl, rfl⟩
  · refine ⟨0, ?_, ?_, ?_⟩
    · rw [next]
      simp [q.dvalid]
    · constructor
      · simp [RxHead.step, RtuHeader.step, rtuIn, VlanUnit.srcFab, sof, oneHot]
      · simp
      · simp [RxHead.step, RtuHeader.step, rtuIn, VlanUnit.srcFab, sof, srcError, q.packet, accepts]
      · simp [RxHead.step, RtuHeader.step, q.packet]
    · rw [next]
      simp [q.dvalid]
  · simp [RxHead.step, RtuHeader.step, rtuIn, VlanUnit.srcFab, q.dvalid, q.basic]
  · intro accepted
    rw [accepts] at accepted
    simp only [RxHead.step, RtuHeader.step, out]
    simp_all [rtuIn, VlanUnit.srcFab]

/-- The pulses seen and those still owed are what is due. -/
def Settles (regs : VlanRegs) (so : RxHead × Observer) (wait : Nat) : Prop :=
  ∃ owed, so.2.log ++ owed = due regs so.2.frames ∧
    match so.2.frames with
    | [] => Quiet so.1 ∧ owed = abortNow so.1 ∧ wait = owed.length
    | f :: _ => Phase regs so.1 f owed wait

theorem settles_start : Settles regs ({}, {}) 0 := ⟨[], rfl, ⟨.inl rfl, rfl, rfl, rfl, rfl⟩, rfl, rfl⟩

theorem settles_sof {so : RxHead × Observer} {wait : Nat} (settles : Settles regs so wait) (fits : Fits so i)
    (sof : i.snkFab.sof = true) : Settles regs (watch regs so i) 0 := by
  obtain ⟨s, o⟩ := so
  obtain ⟨owed, log, phase⟩ := settles
  obtain ⟨state, eof, error, -⟩ := fits.start sof
  have quiet : Quiet s ∧ owed = abortNow s := by
    cases frames : o.frames with
    | nil =>
        simp only [frames] at phase
        exact ⟨phase.1, phase.2.1⟩
    | cons f rest =>
        simp only [frames] at phase
        exact phase.quiet_of state eof error
  have head : Head (s.step regs i) { accepted := s.buffer.accepts (s.bufferIn i) } := quiet.1.start fits sof
  have frames : (watch regs (s, o) i).2.frames = { accepted := s.buffer.accepts (s.bufferIn i) } :: o.frames := by
    simp [watch, observe, sof]
  refine ⟨[], ?_, ?_⟩
  · rw [frames, due_cons, ← log, quiet.2, ← quiet.1.pulses (i := i)]
    simp [watch, observe, Frame.expected, head.short_of]
  · rw [frames]
    exact .head head

theorem settles_step {so : RxHead × Observer} {wait : Nat} (settles : Settles regs so wait) (fits : Fits so i) :
    ∃ left, Settles regs (watch regs so i) left ∧ (Idle i.snkFab → left ≤ wait - 1) := by
  cases sof : i.snkFab.sof with
  | true => exact ⟨0, settles_sof settles fits sof, by simp⟩
  | false =>
      obtain ⟨s, o⟩ := so
      obtain ⟨owed, log, phase⟩ := settles
      cases frames : o.frames with
      | nil =>
          simp only [frames] at phase log
          obtain ⟨quiet, rfl, rfl⟩ := phase
          have after : abortNow (s.step regs i) = [] := by
            simp [abortNow, RxHead.step, RtuHeader.step, quiet.packet]
          have later : (watch regs (s, o) i).2.frames = [] := by simp [watch, observe, sof, frames]
          refine ⟨0, ⟨[], ?_, ?_⟩, by simp⟩
          · rw [later, ← log, ← quiet.pulses (i := i)]
            simp [watch, observe]
          · rw [later]
            exact ⟨quiet.step sof, after.symm, rfl⟩
      | cons f rest =>
          simp only [frames] at phase log
          obtain ⟨later, more, left, next, expected, pulses, idle⟩ := phase_moves frames phase fits sof
          have seen : (watch regs (s, o) i).2.frames = f.see i.snkFab :: rest := by simp [watch, observe, sof, frames]
          refine ⟨left, ⟨later, ?_, ?_⟩, idle⟩
          · calc (watch regs (s, o) i).2.log ++ later = o.log ++ (s.pulses i ++ later) := by simp [watch, observe]
              _ = o.log ++ owed ++ more := by rw [pulses, List.append_assoc]
              _ = due regs (f :: rest) ++ more := by rw [log]
              _ = due regs (watch regs (s, o) i).2.frames :=
                by rw [seen, due_cons, due_cons, expected, List.append_assoc]
          · rw [seen]
            exact next

theorem Settles.bound {so : RxHead × Observer} {wait : Nat} (settles : Settles regs so wait) : wait ≤ 4 := by
  obtain ⟨owed, -, phase⟩ := settles
  split at phase
  · obtain ⟨-, rfl, rfl⟩ := phase
    cases abort : so.1.rtu.abort <;> simp [abortNow, abort]
  · exact phase.bound

theorem Settles.past {so : RxHead × Observer} (settles : Settles regs so 0) : so.2.log = due regs so.2.frames := by
  obtain ⟨owed, log, phase⟩ := settles
  have none : owed = [] := by
    split at phase
    · exact List.length_eq_zero_iff.mp phase.2.2.symm
    · exact phase.settled
  rw [← log, none, List.append_nil]

/-- An idle cycle is always in order. -/
theorem Idle.fits {so : RxHead × Observer} (idle : Idle i.snkFab) : Fits so i := by
  constructor
  · simp [idle.sof]
  · simp [idle.sof]
  · simp [idle.eof]
  · simp [idle.error]

theorem settles_idle {inputs : List RxHeadIn} {so : RxHead × Observer} {wait : Nat} (settles : Settles regs so wait)
    (idle : ∀ i ∈ inputs, Idle i.snkFab) : ∃ left, Settles regs (run (watch regs) so inputs) left ∧
      left ≤ wait - inputs.length := by
  induction inputs generalizing so wait with
  | nil => exact ⟨wait, settles, by simp⟩
  | cons i rest ih =>
      have now := idle i (by simp)
      obtain ⟨left, later, less⟩ := settles_step settles now.fits
      obtain ⟨last, ends, bound⟩ := ih later fun i inside => idle i (by simp [inside])
      refine ⟨last, ends, ?_⟩
      have := less now
      simp only [List.length_cons]
      omega

/-- Over every run the pulses are those due, in the order of the frames, and four idle cycles bring out
what is on its way. -/
theorem requests_match_frames (regs : VlanRegs) (inputs : List RxHeadIn)
    (fits : Along (watch regs) Fits ({}, {}) inputs) :
    (run (watch regs) ({}, {}) inputs).2.log <+: due regs (run (watch regs) ({}, {}) inputs).2.frames ∧
    ∀ idle : List RxHeadIn, 4 ≤ idle.length → (∀ i ∈ idle, Idle i.snkFab) →
      (run (watch regs) ({}, {}) (inputs ++ idle)).2.log =
        due regs (run (watch regs) ({}, {}) (inputs ++ idle)).2.frames := by
  have all : ∃ wait, Settles regs (run (watch regs) ({}, {}) inputs) wait := by
    apply Along.invariant (fun so => ∃ wait, Settles regs so wait) _ ⟨0, settles_start⟩ fits
    intro so i settles fits
    obtain ⟨wait, settles⟩ := settles
    obtain ⟨left, later, -⟩ := settles_step settles fits
    exact ⟨left, later⟩
  obtain ⟨wait, settles⟩ := all
  constructor
  · obtain ⟨owed, log, -⟩ := settles
    rw [← log]
    exact List.prefix_append _ _
  · intro idle enough quiet
    have bound := settles.bound
    obtain ⟨left, later, less⟩ := settles_idle settles quiet
    have none : left = 0 := by omega
    rw [run_append]
    rw [none] at later
    exact later.past

/-- A port that leaves tags alone. -/
def plainPort : VlanRegs := ⟨.vlanDisabled, 1, 0, false, 0⟩

/-- The first seven words of an untagged frame. -/
def sevenWords (dropReq : Bool) : List RxHeadIn :=
  { snkFab := { sof := true }, dropReq } ::
    [1#16, 2#16, 3#16, 4#16, 5#16, 6#16, 0x800#16].map fun data => { snkFab := { dvalid := true, data } }

def failedFrame : List RxHeadIn := sevenWords false ++ [{ snkFab := { error := true } }]

def noInput (n : Nat) : List RxHeadIn := List.replicate n { snkFab := {} }

theorem requests_match_frames_failed :
    due plainPort (run (watch plainPort) ({}, {}) (failedFrame ++ noInput 4)).2.frames =
      [.request ⟨0x000100020003, 0x000400050006, 0, false, 0, false⟩, .abort] ∧
    (run (watch plainPort) ({}, {}) (failedFrame ++ noInput 4)).2.log =
      due plainPort (run (watch plainPort) ({}, {}) (failedFrame ++ noInput 4)).2.frames := by
  constructor
  · decide
  · have fits : Along (watch plainPort) Fits ({}, {}) failedFrame := by decide
    apply (requests_match_frames plainPort failedFrame fits).2
    · simp [noInput]
    · intro i inside
      rw [List.eq_of_mem_replicate inside]
      exact ⟨rfl, rfl, rfl, rfl⟩

/-- The buffer is told to drop a frame for which there is room: it stores nothing, and the request goes out. -/
theorem dropped_frame_asks :
    (run (watch plainPort) ({}, {}) (sevenWords true ++ noInput 2)).1.buffer.fifo = [] ∧
    due plainPort (run (watch plainPort) ({}, {}) (sevenWords true ++ noInput 2)).2.frames = [] ∧
    (run (watch plainPort) ({}, {}) (sevenWords true ++ noInput 2)).2.log =
      [.request ⟨0x000100020003, 0x000400050006, 0, false, 0, false⟩] := by
  decide

end WrCores.Endpoint.RxHead
