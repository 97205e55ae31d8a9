import WrCores.Endpoint.TxHeaderPhases

/-!
Runs of ep_tx_header_processor.vhd behind a reset: user frames by themselves, and with a pause frame among them.
-/

namespace WrCores.Endpoint.TxHeader

open Clocked Fabric

theorem kept_start {s : State} (sel : Bool) (g : Generics) (r : Regs) (start : AfterReset s) : Kept sel g r s {} := by
  refine ⟨⟨by rw [start.snkCycD0]; rfl, fun _ => ⟨start.state, rfl, start.sofReg⟩, fun req => absurd req (by decide)⟩,
    [], [], [], ⟨rfl, rfl, ?_⟩, .inl ⟨.inl start.state, start.sof, .inl ⟨rfl, start.sofReg, rfl⟩, rfl⟩⟩
  simp [out, fabEvents, start.sof, start.dvalid, start.eof, start.error, allEvents]

/-! ### User frames alone -/

/-- Transmission enabled, no errors, no pause requests. -/
structure Undisturbed (p : State × Book) (i : In) : Prop where
  quiet : Quiet p.1 i
  frames : Frames p.1 p.2 i
  req : i.fcPauseReq = false

/-- The edges on which the framer's tests are right. -/
structure Fitting (g : Generics) (r : Regs) (p : State × Book) (i : In) : Prop where
  addressed : Addressed g p.1 p.2 i
  sized : Sized g r p.1 p.2 i

instance (p : State × Book) (i : In) : Decidable (Undisturbed p i) :=
  decidable_of_iff (_ ∧ _ ∧ _) ⟨fun ⟨a, b, c⟩ => ⟨a, b, c⟩, fun ⟨a, b, c⟩ => ⟨a, b, c⟩⟩

instance (g : Generics) (r : Regs) (p : State × Book) (i : In) : Decidable (Fitting g r p i) :=
  decidable_of_iff (_ ∧ _) ⟨fun ⟨a, b⟩ => ⟨a, b⟩, fun ⟨a, b⟩ => ⟨a, b⟩⟩

/-- What is there of the cycle that is going on: all its words so far, or all of it once its OOB words come. -/
def Coming (sel : Bool) (g : Generics) (r : Regs) (b : Book) (last : List Event) : Prop :=
  (b.coming.getD [] = [] ∧ last = []) ∨ ∃ ws ∈ b.coming, last = (content ws).opening sel g r ∨
    (ofAdr cWrfOob ws ≠ [] ∧ last = (content ws).events sel g r)

/-- The rest of a frame that is padded. -/
def Padding (s : State) (owed : List Event) : Prop := s.state = .pad ∧ ∃ n, owed = zeros n ++ [.eof]

/-- The frames go out in their order, each as it should be, and all that was accepted is there. -/
def InOrder (g : Generics) (r : Regs) (s : State) (b : Book) : Prop :=
  ∃ last owed, out true s b ++ owed = (b.done.map content).flatMap (Content.events true g r) ++ last ∧
    Coming true g r b last ∧ (owed = [] ∨ Padding s owed)

section Outcome

variable {sel : Bool} {g : Generics} {r : Regs} {s : State} {b : Book} {i : In} {last owed : List Event}

theorem Begun.coming (begun : Begun sel g r s b last) : Coming sel g r b last := by
  rcases begun with ⟨coming, -, none⟩ | ⟨coming, -, none⟩ | ⟨ws, coming, -, oob, whole⟩
  · exact .inl ⟨by rw [coming]; rfl, none⟩
  · exact .inl ⟨by rw [coming]; rfl, none⟩
  · exact .inr ⟨ws, coming, .inr ⟨oob, whole⟩⟩

theorem moves_coming (moves : Moves sel g r s b last owed) : Coming sel g r b last := by
  rcases moves with rests | pads | heads | ⟨ws, leads⟩ | ⟨ws, flows⟩
  · exact rests.begun.coming
  · exact pads.begun.coming
  · exact .inl ⟨by rw [heads.coming]; rfl, heads.last⟩
  · exact .inr ⟨ws, leads.coming, .inl leads.last⟩
  · exact .inr ⟨ws, flows.coming, .inl flows.last⟩

theorem moves_owed (moves : Moves sel g r s b last owed) :
    owed = [] ∨ Padding s owed ∨ ((s.state = .addr ∧ s.pauses g = true) ∧ ∃ delay k,
      owed = ((pauseWords r delay).drop k).map plain ++ (zeros 21 ++ [.eof])) := by
  rcases moves with rests | pads | heads | ⟨ws, leads⟩ | ⟨ws, flows⟩
  · exact .inl rests.owed
  · obtain ⟨n, -, rest, -⟩ := pads.left
    exact .inr (.inl ⟨pads.state, n, rest⟩)
  · obtain ⟨delay, -, rest⟩ := heads.owed
    exact .inr (.inr ⟨⟨heads.state, heads.pauses⟩, delay, _, rest⟩)
  · exact .inl leads.owed
  · exact .inl flows.owed

theorem allEvents_users (items : List Item) (none : pauses items = []) :
    allEvents sel g r items = (users items).flatMap (Content.events sel g r) := by
  induction items with
  | nil => rfl
  | cons item rest ih =>
      cases item with
      | user c =>
          have later : pauses rest = [] := none
          have split : users (.user c :: rest) = c :: users rest := rfl
          rw [split, List.flatMap_cons, ← ih later]
          rfl
      | pause delay => exact absurd none (by simp [pauses])

/-- Without requests there is never a pause. -/
theorem mode_step (mode : s.txPauseMode = false) (req : i.fcPauseReq = false) :
    (s.step g r i).txPauseMode = false := by
  have fsm : (s.step g r i).txPauseMode = (s.txFsm g r i).txPauseMode := rfl
  rw [fsm, State.txFsm]
  split
  · exact mode
  split
  · exact mode
  cases s.state with
  | idle => simp only [State.idleStep]; split_ifs <;> first | exact req | exact mode
  | delayedSof => simp only [State.delayedSofStep]; split <;> exact mode
  | addr => simp only [State.addrStep]; split <;> exact mode
  | pad => simp only [State.padStep]; split <;> exact mode
  | storeTstamp => simp only [State.storeTstampStep]; split <;> exact mode
  | gap => simpa only [State.gapStep, State.submits, apply_ite State.txPauseMode, ite_self] using mode
  | data => exact dataStep_keeps.2.1.trans mode
  | abort => exact mode

/-- Without pauses. -/
structure Plain (g : Generics) (r : Regs) (p : State × Book) : Prop where
  kept : Kept true g r p.1 p.2
  mode : p.1.txPauseMode = false
  asked : p.2.asked = []
  req : p.2.req = false

theorem plain_step (p : State × Book) (plain : Plain g r p) (here : Undisturbed p i ∧ Fitting g r p i) :
    Plain g r (stepBook true g r p i) := by
  obtain ⟨⟨quiet, frames, req⟩, addressed, sized⟩ := here
  have mode := plain.mode
  have asks : Asks p.1 p.2 i :=
    ⟨fun before => absurd (plain.req.symm.trans before) (by decide), fun _ => by simp [plain.asked]⟩
  have alone : Alone g r p.1 p.2 i := by constructor <;> simp [req, mode]
  exact ⟨kept_step plain.kept ⟨quiet, frames, addressed, fun _ => sized, asks, alone⟩, mode_step mode req,
    (asked_same req).trans plain.asked, req⟩

theorem Plain.inOrder {p : State × Book} (plain : Plain g r p) : InOrder g r p.1 p.2 := by
  obtain ⟨-, items, last, owed, ⟨all, asked, total⟩, moves⟩ := plain.kept
  rw [plain.asked] at asked
  rw [allEvents_users items asked, all] at total
  refine ⟨last, owed, total, moves_coming moves, ?_⟩
  rcases moves_owed moves with none | pads | ⟨⟨-, pauses⟩, -⟩
  · exact .inl none
  · exact .inr pads
  · rw [State.pauses, plain.mode] at pauses
    exact absurd pauses (by simp)

end Outcome

theorem frames_in_order (g : Generics) (r : Regs) (s : State) (start : AfterReset s) (inputs : List In)
    (undisturbed : Along (stepBook true g r) Undisturbed (s, {}) inputs)
    (fitting : Along (stepBook true g r) (Fitting g r) (s, {}) inputs) :
    let last := run (stepBook true g r) (s, {}) inputs
    InOrder g r last.1 last.2 :=
  ((undisturbed.and fitting).invariant (Plain g r) (fun p _ => plain_step p)
    ⟨kept_start true g r start, start.txPauseMode, rfl, rfl⟩).inOrder

/-- A frame with `n` whole words and one half. -/
def oddCycle (n : Nat) : List In :=
  driven cWrfStatus 0x0004 0b11 :: (List.replicate n (driven cWrfData 0x5a5a 0b11) ++
    (driven cWrfData 0x5a00 0b10 :: List.replicate 4 free))

set_option maxRecDepth 4000 in
theorem frames_in_order_odd :
    let last := run (stepBook true padding anyRegs) (reset, {}) (oddCycle 30)
    InOrder padding anyRegs last.1 last.2 :=
  frames_in_order padding anyRegs reset afterReset_reset (oddCycle 30) (by decide) (by decide)

/-- Between frames nothing is left to be sent. -/
theorem coming_none {sel : Bool} {g : Generics} {r : Regs} {b : Book} {last : List Event} (none : b.coming = none)
    (coming : Coming sel g r b last) : last = [] := by
  rcases coming with ⟨-, nothing⟩ | ⟨ws, here, -⟩
  · exact nothing
  · exact absurd (none.symm.trans here) (by simp)

set_option maxRecDepth 4000 in
/-- A frame of 59 bytes leaves with 60. -/
theorem frame_grows :
    let last := run (stepBook true padding anyRegs) (reset, {}) (oddCycle 29)
    Along (stepBook true padding anyRegs) Undisturbed (reset, {}) (oddCycle 29) ∧
      ¬InOrder padding anyRegs last.1 last.2 := by
  have idle : (run (stepBook true padding anyRegs) (reset, {}) (oddCycle 29)).1.state = .idle := by decide
  have none : (run (stepBook true padding anyRegs) (reset, {}) (oddCycle 29)).2.coming = none := by decide
  refine ⟨by decide, ?_⟩
  rintro ⟨last, owed, total, coming, rest⟩
  obtain rfl := coming_none none coming
  rcases rest with rfl | ⟨pad, -⟩
  · exact absurd total (by decide)
  · exact absurd (idle.symm.trans pad) (by decide)

/-! ### Pauses -/

/-- Transmission enabled, no errors, requests as they should be made. -/
structure Requested (p : State × Book) (i : In) : Prop where
  quiet : Quiet p.1 i
  frames : Frames p.1 p.2 i
  asks : Asks p.1 p.2 i

/-- The edges on which a pause is in nobody's way. -/
structure Spared (g : Generics) (r : Regs) (p : State × Book) (i : In) : Prop where
  addressed : Addressed g p.1 p.2 i
  alone : Alone g r p.1 p.2 i

instance (p : State × Book) (i : In) : Decidable (Requested p i) :=
  decidable_of_iff (_ ∧ _ ∧ _) ⟨fun ⟨a, b, c⟩ => ⟨a, b, c⟩, fun ⟨a, b, c⟩ => ⟨a, b, c⟩⟩

instance (g : Generics) (r : Regs) (p : State × Book) (i : In) : Decidable (Spared g r p i) :=
  decidable_of_iff (_ ∧ _) ⟨fun ⟨a, b⟩ => ⟨a, b⟩, fun ⟨a, b⟩ => ⟨a, b⟩⟩

/-- The rest of a pause frame. -/
def Pausing (g : Generics) (r : Regs) (s : State) (owed : List Event) : Prop :=
  (s.state = .addr ∧ s.pauses g = true) ∧ ∃ delay k,
    owed = ((pauseWords r delay).drop k).map plain ++ (zeros 21 ++ [.eof])

/-- Each frame that has ended and each pause that was asked for is there once and complete, and all that was accepted. -/
def Answered (g : Generics) (r : Regs) (s : State) (b : Book) : Prop :=
  ∃ items last owed, users items = b.done.map content ∧ pauses items = b.asked ∧
    out false s b ++ owed = allEvents false g r items ++ last ∧ Coming false g r b last ∧
    (owed = [] ∨ Padding s owed ∨ Pausing g r s owed)

theorem Kept.answered {g : Generics} {r : Regs} {p : State × Book} (kept : Kept false g r p.1 p.2) :
    Answered g r p.1 p.2 := by
  obtain ⟨-, items, last, owed, ⟨all, asked, total⟩, moves⟩ := kept
  exact ⟨items, last, owed, all, asked, total, moves_coming moves, moves_owed moves⟩

theorem frames_and_pauses (g : Generics) (r : Regs) (s : State) (start : AfterReset s) (inputs : List In)
    (requested : Along (stepBook false g r) Requested (s, {}) inputs)
    (spared : Along (stepBook false g r) (Spared g r) (s, {}) inputs) :
    let last := run (stepBook false g r) (s, {}) inputs
    Answered g r last.1 last.2 := by
  have kept : ∀ p i, Kept false g r p.1 p.2 → Requested p i ∧ Spared g r p i →
      Kept false g r (stepBook false g r p i).1 (stepBook false g r p i).2 := by
    intro p i here ⟨requested, spared⟩
    exact kept_step here ⟨requested.quiet, requested.frames, spared.addressed, fun other => absurd other (by decide),
      requested.asks, spared.alone⟩
  exact ((requested.and spared).invariant (fun p => Kept false g r p.1 p.2) kept
    (kept_start false g r start)).answered

def quanta (i : In) : In := { i with fcPauseDelay := 0x0100 }

/-- A pause, and a frame behind it whose first word takes its time. -/
def pauseFirst : List In :=
  { quanta free with fcPauseReq := true } :: (List.replicate 32 free ++
    ({ wbSnk := ⟨cWrfStatus, 0, true, false, true, 0b11⟩ } :: oddCycle 30)).map quanta

set_option maxRecDepth 4000 in
theorem frames_and_pauses_first :
    let last := run (stepBook false padding anyRegs) (reset, {}) pauseFirst
    Answered padding anyRegs last.1 last.2 :=
  frames_and_pauses padding anyRegs reset afterReset_reset pauseFirst (by decide +kernel) (by decide +kernel)

/-- A frame of seven words while the header of the pause goes out. -/
def pauseBeside : List In :=
  { quanta free with fcPauseReq := true } :: (driven cWrfStatus 0 0b11 ::
    (List.replicate 7 (driven cWrfData 0xbeef 0b11) ++ List.replicate 28 free)).map quanta

/-- The words of a user's frame are among those that are sent. -/
theorem users_sent {sel : Bool} {g : Generics} {r : Regs} {items : List Item} {c : Content} (user : c ∈ users items)
    {e : Event} (part : e ∈ c.events sel g r) : e ∈ allEvents sel g r items := by
  obtain ⟨item, member, same⟩ := List.mem_filterMap.1 user
  cases item with
  | user d =>
      obtain rfl : d = c := Option.some.inj same
      exact List.mem_flatMap.2 ⟨_, member, part⟩
  | pause delay => exact absurd same (by simp)

set_option maxRecDepth 4000 in
/-- All words of the frame are accepted, and only the pause is sent. -/
theorem frame_swallowed :
    let last := run (stepBook false padding anyRegs) (reset, {}) pauseBeside
    Along (stepBook false padding anyRegs) Requested (reset, {}) pauseBeside ∧ last.2.done.length = 1 ∧
      ¬Answered padding anyRegs last.1 last.2 := by
  have idle : (run (stepBook false padding anyRegs) (reset, {}) pauseBeside).1.state = .idle := by decide +kernel
  have none : (run (stepBook false padding anyRegs) (reset, {}) pauseBeside).2.coming = none := by decide +kernel
  refine ⟨by decide +kernel, by decide +kernel, ?_⟩
  rintro ⟨items, last, owed, all, -, total, coming, rest⟩
  obtain rfl := coming_none none coming
  rcases rest with rfl | ⟨pad, -⟩ | ⟨⟨addr, -⟩, -⟩
  · rw [List.append_nil, List.append_nil] at total
    have user : ⟨false, List.replicate 7 (driven cWrfData 0xbeef 0b11).wbSnk.word⟩ ∈ users items := by
      rw [all]
      decide
    have sent : Event.word cWrfData 0xbeef false ∈ allEvents false padding anyRegs items :=
      users_sent user (by decide +kernel)
    rw [← total] at sent
    exact absurd sent (by decide +kernel)
  · exact absurd (idle.symm.trans pad) (by decide)
  · exact absurd (idle.symm.trans addr) (by decide)

end WrCores.Endpoint.TxHeader
