import WrCores.Endpoint.RxVlanPhases

/-!
Every frame leaves ep_rx_vlan_unit as its decision table says, as long as nothing comes where the unit slips. The phase of
the newest frame is the invariant, the frames before it are over.
-/

namespace WrCores.Endpoint.VlanUnit

open Clocked
open RxBuffer (Word fabWord)
open RxHead (oneHot)

variable {regs : VlanRegs} {s : VlanUnit} {heard shown : Frame} {asked : Bool}

/-! ### What a phase says of the output -/

theorem shown_out (s : VlanUnit) (shown : Frame) : shown.words <+: out s shown := List.prefix_append _ _

theorem follows_of_some {words : List Word} (goes : table regs heard.words = some words) (coming : shown.endings = [])
    (part : shown.words <+: words) : Follows regs heard shown := by
  simp only [Follows, goes]
  exact ⟨part, fun ended => absurd coming ended⟩

theorem Fails.follows {words : List Word} (fails : Fails regs heard words) (part : shown.words <+: words)
    (whole : shown.endings ≠ [] → shown.words = words ∧ shown.endings = [.error]) : Follows regs heard shown := by
  rcases fails with ⟨ended, goes⟩ | ⟨refused, inside, -⟩
  · simp only [Follows, goes]
    refine ⟨part, fun over' => ?_⟩
    rw [(whole over').2, ended]
    exact ⟨(whole over').1, rfl⟩
  · simp only [Follows, refused]
    exact ⟨part.trans inside, fun over' => (whole over').2⟩

theorem Phase.follows (phase : Phase regs s heard shown asked) : Follows regs heard shown := by
  cases phase with
  | data state live counts goes => exact follows_of_some goes live.2.1 (shown_out s shown)
  | flush state live idle kept counts goes =>
      exact follows_of_some goes live.2.1 ((shown_out s shown).trans (List.prefix_append _ _))
  | insert state live header w j inserts =>
      have goes := table_access header inserts.front inserts.untagged inserts.access (if j = 7 then [] else stored s)
      rw [← inserts.words] at goes
      refine follows_of_some goes live.2.1 ((shown_out s shown).trans ?_)
      rw [inserts.out, List.prefix_append_right_inj]
      exact (List.take_prefix _ _).trans (List.prefix_append [tpid, portTci regs, w] _)
  | finish state ended coming flags empty goes => exact follows_of_some goes coming (shown_out s shown)
  | discard state coming flags fails => exact fails.follows (shown_out s shown) fun ended => absurd coming ended
  | closing state coming empty flags =>
      rcases flags with ⟨-, -, -, goes⟩ | ⟨-, -, fails⟩
      · exact follows_of_some goes coming (shown_out s shown)
      · exact fails.follows (shown_out s shown) fun ended => absurd coming ended
  | closed state ended empty flags right =>
      rcases right with ⟨stops, same, goes⟩ | ⟨error, fails⟩
      · simp only [Follows, goes]
        exact ⟨List.prefix_rfl, fun _ => ⟨trivial, by rw [same, stops]⟩⟩
      · exact fails.follows List.prefix_rfl fun _ => ⟨rfl, error⟩

theorem Phase.tells (phase : Phase regs s heard shown asked) (coming : shown.endings = []) : Tells s
    (out s shown) := by
  cases phase with
  | data state live counts goes tells => exact tells
  | flush state live idle kept counts goes tells =>
      intro vid named
      exact tells vid (tagVid_kept _ named)
  | insert state live header w j inserts =>
      intro vid named
      rw [inserts.out] at named
      rcases inserts.range with rfl | rfl | rfl
      · rw [tagVid_short (by simp [inserts.front])] at named
        exact absurd named (by simp)
      · rw [show [tpid, portTci regs, w].take (8 - 6) = tpid :: portTci regs :: [] from rfl,
          tagVid_port header inserts.front] at named
        rw [← Option.some.inj named]
        exact inserts.vid (by omega)
      · rw [show [tpid, portTci regs, w].take (9 - 6) = tpid :: portTci regs :: [w] from rfl,
          tagVid_port header inserts.front] at named
        rw [← Option.some.inj named]
        exact inserts.vid (by omega)
  | finish state ended coming flags empty goes tells => exact tells
  | discard state coming flags fails tells => exact tells
  | closing state coming empty flags tells => exact tells
  | closed state ended => exact absurd ended (by simp [coming])

/-- A frame is over when it has ended and the unit waits for the next one. -/
theorem Phase.done (phase : Phase regs s heard shown asked) (state : s.state = .waitFrame)
    (ended : heard.endings ≠ []) :
    Follows regs heard (shown.show s.src) ∧ heard.endings.length = 1 ∧ (shown.show s.src).endings.length = 1 := by
  have once : ∀ {words}, Fails regs heard words → heard.endings.length = 1 := by
    rintro words (⟨error, -⟩ | ⟨-, -, few⟩)
    · simp [error]
    · have some := List.length_pos_iff.2 ended
      omega
  cases phase with
  | data other => exact absurd (other.symm.trans state) (by decide)
  | flush other => exact absurd (other.symm.trans state) (by decide)
  | insert other => exact absurd (other.symm.trans state) (by decide)
  | finish other => exact absurd (other.symm.trans state) (by decide)
  | discard other => exact absurd (other.symm.trans state) (by decide)
  | closing _ coming empty flags =>
      rcases flags with ⟨eof, error, stops, goes⟩ | ⟨eof, error, fails⟩
      · have stopped : (shown.show s.src).endings = [.eof] := by simp [Frame.show, coming, eof, error]
        refine ⟨?_, by simp [stops], by simp [stopped]⟩
        simp only [Follows, goes]
        exact ⟨List.prefix_rfl, fun _ => ⟨rfl, by rw [stopped, stops]⟩⟩
      · have failed : (shown.show s.src).endings = [.error] := by simp [Frame.show, coming, eof, error]
        exact ⟨fails.follows List.prefix_rfl fun _ => ⟨rfl, failed⟩, once fails, by simp [failed]⟩
  | closed _ stopped empty flags right =>
      have same : shown.show s.src = shown := by simp [Frame.show, empty, flags.1, flags.2]
      rw [same]
      refine ⟨?_, ?_, stopped⟩
      · have here : Phase regs s heard shown asked := .closed state stopped empty flags right
        exact here.follows
      · rcases right with ⟨stops, -⟩ | ⟨-, fails⟩
        · simp [stops]
        · exact once fails

/-! ### Runs -/

def start : VlanUnit × Book := ({}, {})

structure Inv (regs : VlanRegs) (p : VlanUnit × Book) : Prop where
  older : ∀ f ∈ p.2.frames.tail, Follows regs f.1 f.2 ∧ f.1.endings.length = 1 ∧ f.2.endings.length = 1
  newest : ∀ f ∈ p.2.frames.head?, Phase regs p.1 f.1 f.2 p.2.asked
  none : p.2.frames = [] → p.1.state = .waitFrame ∧ p.1.src.dvalid = false ∧ Unflagged p.1
  dreq : p.1.src.dvalid = true → p.2.srcDreq = true

theorem inv_start (regs : VlanRegs) : Inv regs start where
  older := by simp [start]
  newest := by simp [start]
  none _ := ⟨rfl, rfl, rfl, rfl⟩
  dreq shows := absurd shows (by simp [start])

theorem Inv.right {p : VlanUnit × Book} (inv : Inv regs p) : Right regs p where
  frames f member := by
    rcases frames : p.2.frames with _ | ⟨first, rest⟩
    · simp [frames] at member
    · rw [frames] at member
      rcases List.mem_cons.1 member with rfl | later
      · exact (inv.newest f (by simp [frames])).follows
      · exact (inv.older f (by simpa [frames] using later)).1
  ended f member := (inv.older f member).2
  dreq := inv.dreq
  vid f newest coming := (inv.newest f newest).tells coming
  silent none := ⟨(inv.none none).2.1, (inv.none none).2.2.1, (inv.none none).2.2.2⟩

variable {b : Book} {i : In}

theorem Frames.comes {rest : List (Frame × Frame)} (frames : Frames b i) (newest : b.frames = (heard, shown) :: rest)
    (sof : i.snkFab.sof = false) : Comes b.asked heard i.snkFab where
  sof := sof
  coming some := by
    have inside := frames.inside some
    simpa [Book.inside, newest] using inside
  asked some := frames.asked (by simpa [sof] using some)

/-- The first cycle of a frame. -/
theorem started_step (spares : Spares regs s i) (frames : Frames b i) (sof : i.snkFab.sof = true)
    (empty : s.src.dvalid = false) (asked : Bool) :
    Phase regs (s.step regs i.snkFab i.srcDreq) {} {} asked := by
  obtain ⟨-, -, -, error⟩ := frames.start sof
  have state := spares.start sof
  have next : s.tagUntag regs i.snkFab i.srcDreq = { s with
      dreqMask := true, src := { s.src with eof := false, error := false }, isTagged := false
      isTagInserted := false, prioInt := regs.prioVal, vid := 0, hdrOffset := 1, state := .data } := by
    simp [tagUntag, error, state, sof]
  obtain ⟨done, tclass, core⟩ := step_core regs s i.snkFab i.srcDreq
  rw [core]
  refine Phase.recast ?_ done tclass
  have nothing : out (s.tagUntag regs i.snkFab i.srcDreq) {} = [] := by simp [out, next, empty]
  refine .data (by rw [next]) ⟨rfl, rfl, by rw [next], by rw [next]⟩ ⟨0, by rw [next]; rfl, .inl ⟨rfl, by simp⟩⟩ ?_ ?_
  · rw [nothing, table_early (by simp)]
  · rw [nothing, Tells, tagVid_short (by simp)]
    simp

theorem Inv.waits (inv : Inv regs (s, b)) (state : s.state = .waitFrame) : s.src.dvalid = false := by
  rcases newest : b.frames with _ | ⟨⟨heard, shown⟩, rest⟩
  · exact (inv.none newest).2.1
  · have phase : Phase regs s heard shown b.asked := inv.newest (heard, shown) (by simp [newest])
    cases phase with
    | data other => exact absurd (other.symm.trans state) (by decide)
    | flush other => exact absurd (other.symm.trans state) (by decide)
    | insert other => exact absurd (other.symm.trans state) (by decide)
    | finish other => exact absurd (other.symm.trans state) (by decide)
    | discard other => exact absurd (other.symm.trans state) (by decide)
    | closing _ _ empty => exact empty
    | closed _ _ empty => exact empty

theorem wait_step (spares : Spares regs s i) (state : s.state = .waitFrame) (sof : i.snkFab.sof = false) :
    (s.step regs i.snkFab i.srcDreq).state = .waitFrame ∧ Unflagged (s.step regs i.snkFab i.srcDreq) := by
  have error : i.snkFab.error = false := by
    rw [← Bool.not_eq_true]
    exact fun error => (spares.error error).2 state
  obtain ⟨done, tclass, core⟩ := step_core regs s i.snkFab i.srcDreq
  rw [core]
  simp [tagUntag, error, state, sof, Unflagged]

theorem wait_src (spares : Spares regs s i) (state : s.state = .waitFrame) :
    (s.step regs i.snkFab i.srcDreq).src.dvalid = s.src.dvalid := by
  have error : i.snkFab.error = false := by
    rw [← Bool.not_eq_true]
    exact fun error => (spares.error error).2 state
  obtain ⟨done, tclass, core⟩ := step_core regs s i.snkFab i.srcDreq
  rw [core]
  simp [tagUntag, error, state]

theorem Inv.served (inv : Inv regs (s, b)) (spares : Spares regs s i)
    (shows : (s.step regs i.snkFab i.srcDreq).src.dvalid = true) : i.srcDreq = true := by
  rw [← Bool.not_eq_false]
  intro stall
  rcases newest : b.frames with _ | ⟨⟨heard, shown⟩, rest⟩
  · obtain ⟨state, empty, -⟩ := inv.none newest
    rw [wait_src spares state, empty] at shows
    exact absurd shows (by simp)
  · have phase : Phase regs s heard shown b.asked := inv.newest (heard, shown) (by simp [newest])
    rw [stall_src phase spares stall] at shows
    exact absurd shows (by simp)

theorem inv_step (inv : Inv regs (s, b)) (frames : Frames b i) (spares : Spares regs s i) :
    Inv regs (stepBook regs (s, b) i) := by
  have dreq := inv.served (i := i) spares
  rcases newest : b.frames with _ | ⟨⟨heard, shown⟩, rest⟩
  · obtain ⟨state, empty, -⟩ := inv.none newest
    cases sof : i.snkFab.sof with
    | false =>
        have none : (stepBook regs (s, b) i).2.frames = [] := by simp [stepBook, Book.next, sof, newest]
        obtain ⟨state', flags'⟩ := wait_step spares state sof
        exact ⟨by simp [none], by simp [none], fun _ => ⟨state', (wait_src spares state).trans empty, flags'⟩, dreq⟩
    | true =>
        have first : (stepBook regs (s, b) i).2.frames = [({}, {})] := by simp [stepBook, Book.next, sof, newest]
        refine ⟨by simp [first], ?_, fun none => absurd (first.symm.trans none) (by simp), dreq⟩
        intro f member
        obtain rfl : f = ({}, {}) := by simpa [first] using member.symm
        exact started_step spares frames sof empty _
  · have phase : Phase regs s heard shown b.asked := inv.newest (heard, shown) (by simp [newest])
    have older : ∀ f ∈ rest, Follows regs f.1 f.2 ∧ f.1.endings.length = 1 ∧ f.2.endings.length = 1 := by
      intro f member
      exact inv.older f (by simpa [newest] using member)
    cases sof : i.snkFab.sof with
    | false =>
        have next : (stepBook regs (s, b) i).2.frames = (heard.hear i.snkFab, shown.show s.src) :: rest := by
          simp [stepBook, Book.next, sof, newest]
        refine ⟨by simpa [next] using older, ?_, fun none => absurd (next.symm.trans none) (by simp), dreq⟩
        intro f member
        obtain rfl : f = (heard.hear i.snkFab, shown.show s.src) := by simpa [next] using member.symm
        exact phase.step (frames.comes newest sof) spares
    | true =>
        obtain ⟨outside, gap, eof, error⟩ := frames.start sof
        have state := spares.start sof
        have next : (stepBook regs (s, b) i).2.frames = ({}, {}) :: (heard, shown.show s.src) :: rest := by
          simp [stepBook, Book.next, sof, newest, hear_quiet ⟨gap, eof, error⟩]
        have ended : heard.endings ≠ [] := by simpa [Book.inside, newest] using outside
        refine ⟨?_, ?_, fun none => absurd (next.symm.trans none) (by simp), dreq⟩
        · intro f member
          rw [next, List.tail_cons] at member
          rcases List.mem_cons.1 member with rfl | later
          · exact phase.done state ended
          · exact older f later
        · intro f member
          obtain rfl : f = ({}, {}) := by simpa [next] using member.symm
          exact started_step spares frames sof (inv.waits state) _

theorem inv_run (regs : VlanRegs) (inputs : List In)
    (frames : Along (stepBook regs) (fun p i => Frames p.2 i) start inputs)
    (spared : Along (stepBook regs) (fun p i => Spares regs p.1 i) start inputs) :
    Inv regs (run (stepBook regs) start inputs) :=
  (frames.and spared).invariant (Inv regs) (fun _ _ inv here => inv_step inv here.1 here.2) (inv_start regs)

/-! ### The end of a frame comes out -/

structure Quiet (i : In) : Prop where
  sof : i.snkFab.sof = false
  dvalid : i.snkFab.dvalid = false
  eof : i.snkFab.eof = false
  error : i.snkFab.error = false

theorem Quiet.frames (quiet : Quiet i) : Frames b i where
  start sof := absurd sof (by simp [quiet.sof])
  inside some := absurd some (by simp [quiet.dvalid, quiet.eof, quiet.error])
  asked some := absurd some (by simp [quiet.sof, quiet.dvalid, quiet.eof, quiet.error])

/-- Every frame that has ended is ended on the output. -/
def Done (p : VlanUnit × Book) : Prop := ∀ f ∈ p.2.frames, f.1.endings ≠ [] → f.2.endings ≠ []

theorem Inv.done (inv : Inv regs (s, b)) (newest : ∀ f ∈ b.frames.head?, f.1.endings ≠ [] → f.2.endings ≠ []) :
    Done (s, b) := by
  intro f member ended
  have member : f ∈ b.frames := member
  rcases frames : b.frames with _ | ⟨first, rest⟩
  · simp [frames] at member
  · rw [frames] at member
    rcases List.mem_cons.1 member with rfl | later
    · exact newest f (by simp [frames]) ended
    · have stopped := (inv.older f (by simpa [frames] using later)).2.2
      exact List.length_pos_iff.1 (by omega)

theorem quiet_frames (quiet : Quiet i) : (b.next s i).frames.head? =
    b.frames.head?.map fun f => (f.1, f.2.show s.src) := by
  rcases frames : b.frames with _ | ⟨⟨heard, shown⟩, rest⟩
  · simp [Book.next, frames, quiet.sof]
  · simp [Book.next, frames, quiet.sof, hear_quiet ⟨quiet.dvalid, quiet.eof, quiet.error⟩]

/-- With `src_dreq_i` the unit comes back to WAIT_FRAME behind the end of a frame, and shows it in the next cycle. -/
theorem quiet_step (inv : Inv regs (s, b)) (quiet : Quiet i) (spares : Spares regs s i) :
    (Done (s, b) → Done (stepBook regs (s, b) i)) ∧
      (s.state = .waitFrame → Done (stepBook regs (s, b) i)) ∧
      (i.srcDreq = true → Done (stepBook regs (s, b) i) ∨ (stepBook regs (s, b) i).1.state = .waitFrame) := by
  have next := inv_step inv quiet.frames spares
  have ending {shown : Frame} (stopped : shown.endings ≠ []) : (shown.show s.src).endings ≠ [] := by
    simp [Frame.show, stopped]
  have newest (claim : ∀ f ∈ b.frames.head?, f.1.endings ≠ [] → (f.2.show s.src).endings ≠ []) :
      Done (stepBook regs (s, b) i) := by
    refine next.done ?_
    intro f member
    rw [quiet_frames quiet] at member
    obtain ⟨g, there, rfl⟩ := Option.map_eq_some_iff.1 member
    exact claim g there
  have waits (state : s.state = .waitFrame) : Done (stepBook regs (s, b) i) := by
    refine newest fun f member ended => ?_
    exact List.ne_nil_of_length_eq_add_one ((inv.newest f member).done state ended).2.2
  refine ⟨fun done => newest fun f member ended => ending (done f (List.mem_of_mem_head? member) ended), waits, ?_⟩
  intro dreq
  rcases frames : b.frames with _ | ⟨⟨heard, shown⟩, rest⟩
  · exact .inl (newest (by simp [frames]))
  · have phase : Phase regs s heard shown b.asked := inv.newest (heard, shown) (by simp [frames])
    have opened (coming : heard.endings = []) : Done (stepBook regs (s, b) i) := by
      refine newest fun f member ended => ?_
      obtain rfl : f = (heard, shown) := by simpa [frames] using member.symm
      exact absurd coming ended
    obtain ⟨done, tclass, core⟩ := step_core regs s i.snkFab i.srcDreq
    have step : (stepBook regs (s, b) i).1.state = (s.tagUntag regs i.snkFab i.srcDreq).state :=
      by rw [stepBook, core]
    cases phase with
    | data state live => exact .inl (opened live.1)
    | flush state live => exact .inl (opened live.1)
    | insert state live => exact .inl (opened live.1)
    | finish state => exact .inr (by rw [step]; simp [tagUntag, quiet.error, state, dreq])
    | discard state => exact .inr (by rw [step]; simp [tagUntag, quiet.error, state, dreq])
    | closing state => exact .inl (waits state)
    | closed state => exact .inl (waits state)

theorem quiet_run {p : VlanUnit × Book} (inv : Inv regs p) {rest : List In} (quiet : ∀ i ∈ rest, Quiet i)
    (spared : Along (stepBook regs) (fun p i => Spares regs p.1 i) p rest)
    (turn : Done p ∨ (p.1.state = .waitFrame ∧ 1 ≤ rest.countP (·.srcDreq)) ∨ 2 ≤ rest.countP (·.srcDreq)) :
    Done (run (stepBook regs) p rest) := by
  induction rest generalizing p with
  | nil => simpa using turn
  | cons i rest ih =>
      obtain ⟨s, b⟩ := p
      have here := quiet i (by simp)
      obtain ⟨stays, waits, returns⟩ := quiet_step inv here spared.1
      refine ih (inv_step inv here.frames spared.1) (fun j member => quiet j (by simp [member])) spared.2 ?_
      rcases turn with done | ⟨state, -⟩ | twice
      · exact .inl (stays done)
      · exact .inl (waits state)
      · cases dreq : i.srcDreq with
        | false => exact .inr (.inr (by simpa [List.countP_cons, dreq] using twice))
        | true =>
            rw [List.countP_cons, dreq, if_pos rfl] at twice
            rcases returns dreq with done | state
            · exact .inl done
            · exact .inr (.inl ⟨state, by omega⟩)

/-- Two cycles with `src_dreq_i` after the end of a frame, its ending is out. -/
def Settles (regs : VlanRegs) (p : VlanUnit × Book) : Prop :=
  ∀ rest, (∀ i ∈ rest, Quiet i) → Along (stepBook regs) (fun p i => Spares regs p.1 i) p rest →
    2 ≤ rest.countP (·.srcDreq) → Done (run (stepBook regs) p rest)

theorem frames_by_table (regs : VlanRegs) (inputs : List In)
    (frames : Along (stepBook regs) (fun p i => Frames p.2 i) start inputs)
    (spared : Along (stepBook regs) (fun p i => Spares regs p.1 i) start inputs) :
    Right regs (run (stepBook regs) start inputs) ∧ Settles regs (run (stepBook regs) start inputs) := by
  have inv := inv_run regs inputs frames spared
  exact ⟨inv.right, fun rest quiet spares twice => quiet_run inv quiet spares (.inr (.inr twice))⟩

def accessPort : VlanRegs := ⟨.access, 0xabc, 5, false, 0⟩

def wordIn (data : BitVec 16) : In := { snkFab := { dvalid := true, data := data } }

def stalled (i : In) : In := { i with srcDreq := false }

def sofIn : In := { snkFab := { sof := true } }

def eofIn : In := { snkFab := { eof := true } }

/-- An untagged frame; its sixth word waits, and so does the inserted tag. -/
def untagged : List In :=
  [{}, {}, sofIn, wordIn 0x0180, wordIn 0xc200, wordIn 0x000e, wordIn 0x0800, wordIn 0x3055, {}, stalled
    (wordIn 0x0001), {},
    wordIn 0x88f7, wordIn 0x0002, stalled {}, {}, {}, wordIn 0x002c, stalled eofIn, {}, {}]

theorem frames_by_table_untagged :
    Right accessPort (run (stepBook accessPort) start untagged) ∧
      Settles accessPort (run (stepBook accessPort) start untagged) :=
  frames_by_table accessPort untagged (by decide +kernel) (by decide +kernel)

/-- A word comes while `src_dreq_i = 0`, right behind another one. -/
def repeated : List In := [{}, {}, sofIn, wordIn 0x1111, stalled (wordIn 0x2222), {}]

theorem word_repeated : ¬∀ (regs : VlanRegs) (inputs : List In),
    Along (stepBook regs) (fun p i => Frames p.2 i) start inputs → Right regs (run (stepBook regs) start inputs) := by
  intro claim
  have right := claim accessPort repeated (by decide +kernel)
  have twice : (⟨[⟨0, 0x1111, false⟩, ⟨0, 0x2222, false⟩], []⟩, ⟨[⟨0, 0x1111, false⟩, ⟨0, 0x1111, false⟩], []⟩) ∈
      (run (stepBook accessPort) start repeated).2.frames := by decide +kernel
  have follows := right.frames _ twice
  rw [Follows, table_early (by decide)] at follows
  exact absurd follows.1 (by decide)

end WrCores.Endpoint.VlanUnit
