import WrCores.Etherbone.Packets
import WrCores.Etherbone.SlaveTop

/-!
What the slave sends back. The reply to a packet is a packet: padding stands for what was written, and a record writes
what was read to the address where the reader wants it. So the slave at the reader's side performs the reply, which
wants no reply of its own.
-/

namespace WrCores.Etherbone

open Clocked SlaveFsm

namespace Reply

/-- What an entry reads. -/
def value (g : CfgRegs) (t : Reply) : Entry → List Word
  | .cfgReq adr => [g.dat t.errreg adr]
  | .wbmReq => [(t.answers.map (·.2)).headD 0]
  | _ => []

def packet (t : Reply) (p : Packet) : Reply := run consume t p.entries

def record (t : Reply) (r : Record) : Reply := run consume t r.entries

end Reply

/-- The entries that belong to a packet which is open. -/
def SlaveFsm.Entry.inside : Entry → Bool
  | .passOn _ | .cfgReq _ | .cfgIgn .. | .wbmReq | .wbmIgn _ => true
  | .dropTx | .skipTx | .passTx _ => false

/-- The entries that read. -/
def SlaveFsm.Entry.wants : Entry → Bool
  | .cfgReq _ | .wbmReq => true
  | _ => false

section Replies

variable (g : CfgRegs) (t : Reply)

namespace Record

variable (r : Record)

def results : List Word := collect Reply.consume (Reply.value g) t r.entries

end Record

section Inside

variable {g t}

theorem consume_opened {e : Entry} (inside : e.inside = true) : (t.consume e).opened = t.opened := by
  cases e <;> simp_all [Reply.consume, Reply.pop, Entry.inside] <;> split <;> rfl

theorem run_opened {es : List Entry} (inside : ∀ e ∈ es, e.inside = true) :
    (run Reply.consume t es).opened = t.opened := by
  induction es generalizing t with
  | nil => rfl
  | cons e es ih =>
      rw [run_cons, ih fun e mem => inside e (List.mem_cons_of_mem _ mem), consume_opened (inside e List.mem_cons_self)]

/-- A reply that is not open says nothing. -/
theorem closed_sends {es : List Entry} (inside : ∀ e ∈ es, e.inside = true) (closed : t.opened = false) :
    collect Reply.consume (Reply.sends g) t es = [] := by
  induction es generalizing t with
  | nil => rfl
  | cons e es ih =>
      have here := inside e List.mem_cons_self
      rw [collect_cons, ih (fun e mem => inside e (List.mem_cons_of_mem _ mem)) ((consume_opened here).trans closed),
        List.append_nil]
      cases e <;> simp_all [Reply.sends, Reply.say, Entry.inside]

theorem reads_inside (h : RecHdr) (reads : List Word) : ∀ e ∈ h.readEntries reads, e.inside = true := by
  intro e mem
  obtain ⟨adr, -, rfl⟩ := List.mem_map.mp mem
  cases h.rcaCfg <;> rfl

theorem writes_inside (h : RecHdr) (adr : Word) (ds : List Word) : ∀ e ∈ h.writeEntries adr ds, e.inside = true := by
  induction ds generalizing adr with
  | nil => exact nofun
  | cons d ds ih =>
      rintro e (- | ⟨-, mem⟩)
      · cases h.wcaCfg <;> simp [Entry.inside]
      · exact ih _ e mem

theorem Record.inside (r : Record) : ∀ e ∈ r.entries, e.inside = true := by
  intro e mem
  rw [Record.entries, List.mem_append] at mem
  rcases mem with mem | mem <;> split at mem
  · obtain rfl := List.mem_singleton.mp mem
    rfl
  · rcases mem with - | ⟨-, - | ⟨-, mem⟩⟩
    · rfl
    · rfl
    · exact writes_inside _ _ _ e mem
  · cases mem
  · rcases mem with - | ⟨-, mem⟩
    · rfl
    · exact reads_inside _ _ e mem

variable (g t) in
theorem values_length (es : List Entry) :
    (collect Reply.consume (Reply.value g) t es).length = es.countP Entry.wants := by
  induction es generalizing t with
  | nil => rfl
  | cons e es ih =>
      rw [collect_cons, List.length_append, ih, List.countP_cons, Nat.add_comm]
      cases e <;> rfl

theorem reads_want (h : RecHdr) (reads : List Word) : (h.readEntries reads).countP Entry.wants = reads.length := by
  have all : ∀ e ∈ h.readEntries reads, e.wants = true := by
    intro e mem
    obtain ⟨adr, -, rfl⟩ := List.mem_map.mp mem
    cases h.rcaCfg <;> rfl
  rw [List.countP_eq_length.mpr all, RecHdr.readEntries, List.length_map]

theorem writes_want (h : RecHdr) (adr : Word) (ds : List Word) : (h.writeEntries adr ds).countP Entry.wants = 0 := by
  induction ds generalizing adr with
  | nil => rfl
  | cons d ds ih =>
      rw [RecHdr.writeEntries, List.countP_cons, ih]
      cases h.wcaCfg <;> simp [Entry.wants]

variable (g t) in
theorem Record.results_length (r : Record) : (r.results g t).length = r.reads.length := by
  rw [Record.results, values_length, Record.entries, List.countP_append]
  by_cases writes : r.writes = [] <;> by_cases reads : r.reads = [] <;>
    simp [writes, reads, Entry.wants, reads_want, writes_want]

/-- What is read is sent. -/
theorem reads_send (h : RecHdr) (reads : List Word) (opened : t.opened = true) :
    collect Reply.consume (Reply.sends g) t (h.readEntries reads) =
      (collect Reply.consume (Reply.value g) t (h.readEntries reads)).map .word := by
  induction reads generalizing t with
  | nil => rfl
  | cons adr reads ih =>
      have here : Entry.inside (if h.rcaCfg then .cfgReq (cfgAdr adr) else .wbmReq) = true := by cases h.rcaCfg <;> rfl
      rw [RecHdr.readEntries, List.map_cons, collect_cons, collect_cons, List.map_append, ← RecHdr.readEntries,
        ih ((consume_opened here).trans opened)]
      cases h.rcaCfg <;> simp [Reply.sends, Reply.say, Reply.value, opened]

/-- What is written is answered with padding, and with the header in the end. -/
theorem writes_send (h : RecHdr) (adr : Word) {ds : List Word} (some : ds ≠ []) (opened : t.opened = true) :
    collect Reply.consume (Reply.sends g) t (h.writeEntries adr ds) =
      (List.replicate (ds.length - 1) 0 ++ [fFormatRec (fReplyRec h)]).map .word := by
  induction ds generalizing t adr with
  | nil => exact absurd rfl some
  | cons d ds ih =>
      rw [RecHdr.writeEntries, collect_cons]
      by_cases more : ds = []
      · subst more
        cases h.wcaCfg <;> simp [RecHdr.writeEntries, Reply.sends, Reply.say, opened]
      · have here : ∀ pad : Word, Entry.inside (if h.wcaCfg then .cfgIgn pad (cfgAdr adr) else .wbmIgn pad) = true := by
          intro pad
          cases h.wcaCfg <;> rfl
        obtain ⟨n, size⟩ := Nat.exists_eq_succ_of_ne_zero (mt List.length_eq_zero_iff.mp more)
        rw [ih (h.next adr) more ((consume_opened (here _)).trans opened), if_neg more, List.length_cons, size]
        cases h.wcaCfg <;> simp [Reply.sends, Reply.say, opened, List.replicate_succ]

/-- What the reads of a record add, behind what has been said. -/
theorem readback_send (r : Record) (opened : t.opened = true) :
    collect Reply.consume (Reply.sends g) t
        (if r.reads = [] then [] else .passOn r.rdBase :: r.hdr.readEntries r.reads) =
      (if r.reads = [] then [] else
        r.rdBase :: collect Reply.consume (Reply.value g) t (r.hdr.readEntries r.reads)).map .word := by
  by_cases reads : r.reads = []
  · simp [reads]
  · simp [reads, Reply.consume, Reply.sends, Reply.say, opened, reads_send _ _ opened]

/-- The words that answer a record. -/
theorem record_send (r : Record) (opened : t.opened = true) : collect Reply.consume (Reply.sends g) t r.entries =
    (List.replicate (if r.writes = [] then 0 else r.writes.length + 1) 0 ++ fFormatRec (fReplyRec r.hdr) ::
      if r.reads = [] then [] else r.rdBase :: r.results g t).map .word := by
  rw [Record.results, Record.entries, collect_append, collect_append]
  by_cases writes : r.writes = []
  · rw [if_pos writes, readback_send r ((run_opened (by simp [Entry.inside])).trans opened)]
    by_cases reads : r.reads = [] <;>
      simp [writes, reads, Reply.sends, Reply.say, Reply.value, Reply.consume, opened]
  · have inside : ∀ e ∈ Entry.passOn 0 :: .passOn 0 :: r.hdr.writeEntries r.wrBase r.writes, e.inside = true := by
      rintro e (- | ⟨-, - | ⟨-, mem⟩⟩)
      · rfl
      · rfl
      · exact writes_inside _ _ _ e mem
    have none : collect Reply.consume (Reply.value g) t (r.hdr.writeEntries r.wrBase r.writes) = [] :=
      List.length_eq_zero_iff.mp ((values_length g t _).trans (writes_want _ _ _))
    obtain ⟨n, count⟩ := Nat.exists_eq_succ_of_ne_zero (mt List.length_eq_zero_iff.mp writes)
    rw [if_neg writes, readback_send r ((run_opened inside).trans opened)]
    by_cases reads : r.reads = [] <;>
      simp [writes, reads, Reply.sends, Reply.say, Reply.value, Reply.consume, opened, writes_send, none, count,
        List.replicate_succ]

end Inside

/-! ### The reply as a packet -/

namespace Record

variable (r : Record)

def pad : Record where
  hdr := cRecInit
  wrBase := 0
  writes := []
  rdBase := 0
  reads := []
  wrCount := rfl
  rdCount := rfl

def reply : Record where
  hdr := fReplyRec r.hdr
  wrBase := r.rdBase
  writes := r.results g t
  rdBase := 0
  reads := []
  wrCount := r.rdCount.trans (r.results_length g t).symm
  rdCount := rfl

/-- Padding for the words that are not answered, and the reply. -/
def replies : List Record := List.replicate (if r.writes = [] then 0 else r.writes.length + 1) pad ++ [r.reply g t]

/-- What the reply writes. -/
def landed : List Op := (fReplyRec r.hdr).writeOps r.rdBase (r.results g t)

theorem pads_encode (n : Nat) : (List.replicate n pad).flatMap encode = List.replicate n 0 := by
  induction n with
  | zero => rfl
  | succ n ih =>
      rw [List.replicate_succ, List.flatMap_cons, ih, List.replicate_succ]
      rfl

theorem replies_encode : (r.replies g t).flatMap encode =
    List.replicate (if r.writes = [] then 0 else r.writes.length + 1) 0 ++ fFormatRec (fReplyRec r.hdr) ::
      if r.reads = [] then [] else r.rdBase :: r.results g t := by
  have same : r.results g t = [] ↔ r.reads = [] := by
    rw [← List.length_eq_zero_iff, results_length, List.length_eq_zero_iff]
  simp [replies, pads_encode, encode, reply, same]

theorem pads_ops (n : Nat) : (List.replicate n pad).flatMap ops = [] := by
  induction n with
  | zero => rfl
  | succ n ih => exact ih

theorem replies_ops : (r.replies g t).flatMap ops = r.landed g t := by
  have none (h : RecHdr) : h.readOps [] = [] := by cases cfg : h.rcaCfg <;> simp [RecHdr.readOps, cfg]
  rw [replies, List.flatMap_append, pads_ops, List.nil_append, List.flatMap_singleton, ops]
  exact (congrArg (_ ++ ·) (none _)).trans (List.append_nil _)

end Record

namespace Packet

variable (p : Packet)

def reply : Packet where
  hdr := fReplyEb p.hdr
  probeId := 0
  records := collect Reply.record (fun t r => r.replies g t) { t with opened := true } p.records
  magic := rfl
  ver := rfl
  size := .inl rfl

/-- What the reply writes. -/
def landed : List Op := collect Reply.record (fun t r => r.landed g t) { t with opened := true } p.records

theorem reply_ops : (p.reply g t).ops = p.landed g t := by
  rw [ops, landed, reply]
  generalize { t with opened := true } = t'
  induction p.records generalizing t' with
  | nil => rfl
  | cons r rs ih => rw [collect_cons, collect_cons, List.flatMap_append, ih, Record.replies_ops]

end Packet

/-- What the other side receives. -/
def TxOut.events : TxOut → List Event
  | .word d => [.word d]
  | .drop => [.ending]
  | .skip => []

theorem words_received (ds : List Word) : (ds.map TxOut.word).flatMap TxOut.events = ds.map .word := by
  induction ds with
  | nil => rfl
  | cons d ds ih =>
      rw [List.map_cons, List.flatMap_cons, ih]
      rfl

variable {g t}

theorem records_inside (rs : List Record) : ∀ e ∈ rs.flatMap Record.entries, e.inside = true := by
  intro e mem
  obtain ⟨r, -, mem⟩ := List.mem_flatMap.mp mem
  exact r.inside e mem

theorem records_send (rs : List Record) (opened : t.opened = true) :
    collect Reply.consume (Reply.sends g) t (rs.flatMap Record.entries) =
      ((collect Reply.record (fun t r => r.replies g t) t rs).flatMap Record.encode).map .word := by
  induction rs generalizing t with
  | nil => rfl
  | cons r rs ih =>
      have here := record_send (g := g) r opened
      rw [← r.replies_encode] at here
      rw [List.flatMap_cons, collect_append, ih ((run_opened r.inside).trans opened), here, collect_cons,
        List.flatMap_append, List.map_append]
      rfl

/-- A packet that wants a reply gets it. -/
theorem packet_send (p : Packet) (plain : p.hdr.probe = false) (wanted : p.hdr.noResponse = false) :
    (collect Reply.consume (Reply.sends g) t p.entries).flatMap TxOut.events = (p.reply g t).events ∧
      (t.packet p).opened = false := by
  have front : p.entries = .passTx (fFormatEb (fReplyEb p.hdr)) :: p.records.flatMap Record.entries ++ [.dropTx] := by
    simp [Packet.entries, Packet.answers, Packet.opening, plain, wanted]
  have opened : (run Reply.consume { t with opened := true } (p.records.flatMap Record.entries)).opened = true :=
    run_opened (records_inside p.records)
  have encode : (p.reply g t).encode = fFormatEb (fReplyEb p.hdr) ::
      (collect Reply.record (fun t r => r.replies g t) { t with opened := true } p.records).flatMap Record.encode := rfl
  rw [Reply.packet, front, run_append]
  refine ⟨?_, rfl⟩
  rw [List.cons_append, collect_cons, collect_append, Reply.consume, records_send _ rfl, collect_cons, collect_nil,
    Reply.sends, Reply.sends, if_pos opened, Packet.events, encode]
  simp [words_received, TxOut.events]

theorem packets_send (packets : List Packet)
    (wanted : ∀ p ∈ packets, p.hdr.probe = false ∧ p.hdr.noResponse = false) :
    (collect Reply.consume (Reply.sends g) t (packets.flatMap Packet.entries)).flatMap TxOut.events =
      (collect Reply.packet (fun t p => [p.reply g t]) t packets).flatMap Packet.events := by
  induction packets generalizing t with
  | nil => rfl
  | cons p packets ih =>
      obtain ⟨plain, response⟩ := wanted p List.mem_cons_self
      rw [List.flatMap_cons, collect_append, List.flatMap_append, (packet_send p plain response).1, collect_cons,
        List.flatMap_append, List.flatMap_singleton, ← ih fun p mem => wanted p (List.mem_cons_of_mem _ mem)]
      rfl

theorem replies_ops (packets : List Packet) :
    (collect Reply.packet (fun t p => [p.reply g t]) t packets).flatMap Packet.ops =
      collect Reply.packet (fun t p => p.landed g t) t packets := by
  induction packets generalizing t with
  | nil => rfl
  | cons p packets ih =>
      rw [collect_cons, collect_cons, List.flatMap_append, List.flatMap_singleton, p.reply_ops, ih]

/-- A reply wants none. -/
theorem replies_skip (packets : List Packet) (t' : Reply) (closed : t'.opened = false) (g' : CfgRegs) :
    collect Reply.consume (Reply.sends g') t'
        ((collect Reply.packet (fun t p => [p.reply g t]) t packets).flatMap Packet.entries) =
      packets.map fun _ => .skip := by
  induction packets generalizing t t' with
  | nil => rfl
  | cons p packets ih =>
      have entries : (p.reply g t).entries = .skipTx :: (p.reply g t).records.flatMap Record.entries ++ [.dropTx] := rfl
      have ends : (run Reply.consume t' (p.reply g t).entries).opened = false := by
        rw [entries, run_append]
        rfl
      have still := (run_opened (t := t') (records_inside (p.reply g t).records)).trans closed
      rw [collect_cons, List.flatMap_append, List.flatMap_singleton, collect_append, ih _ ends, entries,
        List.cons_append, collect_cons, collect_append, Reply.consume, closed_sends (records_inside _) closed,
        collect_cons, collect_nil, Reply.sends, Reply.sends, if_neg (ne_true_of_eq_false still)]
      rfl

end Replies

namespace SlaveTop

variable (t : Nat) (g : CfgRegs) (gTimeoutCycles : Nat) (m : Memories) (inputs : List In)

/-- What the bus and a timeout answer over a run, before a reply is open. -/
def answersOf : Reply := ⟨false, 0, collect (step g gTimeoutCycles) answered (reset t gTimeoutCycles m) inputs⟩

/-- Whether the machine, the FIFOs and the multiplexer hold nothing. -/
structure Drained {t : Nat} (s : SlaveTop t) : Prop where
  tags : s.tags = []
  strobe : s.fsm.rTagStb = false
  leaving : s.leaving = []

/-- The machine in the slave performs the events of its stream. -/
theorem simulates : Simulates (step g gTimeoutCycles) act (fun s : SlaveTop t => s.fsm.quiet) events (·.fsm.Inv) where
  kept s i _ := s.fsm.step_inv (s.fsmIn i)
  moves s i inv := SlaveFsm.simulates.moves s.fsm (s.fsmIn i) inv

theorem pushes_run : collect (step g gTimeoutCycles) (pushes g gTimeoutCycles) (reset t gTimeoutCycles m) inputs =
    collect act SlaveFsm.pushes .reset (collect (step g gTimeoutCycles) events (reset t gTimeoutCycles m) inputs) :=
  (simulates t g gTimeoutCycles).collect_run (fun s i _ => s.fsm.pushed_step (s.fsmIn i)) SlaveFsm.inv_reset inputs

/-- The FIFOs are never overrun, and what is sent is what the first entries mean, in their order; the others are still
in the slave. -/
theorem replies_in_order
    (good : Along (step g gTimeoutCycles) (fun s i => s.Paced i ∧ s.Asked i) (reset t gTimeoutCycles m) inputs) :
    let last := run (step g gTimeoutCycles) (reset t gTimeoutCycles m) inputs
    (∃ gone rest,
      collect (step g gTimeoutCycles) (pushes g gTimeoutCycles) (reset t gTimeoutCycles m) inputs = gone ++ rest ∧
      last.Owes rest ∧
      collect (step g gTimeoutCycles) (sent g gTimeoutCycles) (reset t gTimeoutCycles m) inputs ++ last.leaving =
        collect Reply.consume (Reply.sends g) (answersOf t g gTimeoutCycles m inputs) gone) ∧
    last.tag.stored.length ≤ 32 ∧ last.pass.stored.length ≤ 32 ∧ last.cfg.fifo.stored.length ≤ 32 ∧
      last.wbm.datfifo.stored.length ≤ 32 := by
  obtain ⟨gone, rest, pushed, inv, sends⟩ := run_inv (reset_inv m) inputs good
  refine ⟨⟨gone, rest, pushed, inv.owes, ?_⟩, inv.tagSound.few, inv.passSound.few, inv.cfgSound.few,
    inv.wbm.sound.few⟩
  have start : ((reset t gTimeoutCycles m).reply false
      (collect (step g gTimeoutCycles) answered (reset t gTimeoutCycles m) inputs ++ [])) =
      answersOf t g gTimeoutCycles m inputs := by
    rw [reply, answersOf, List.append_nil, reset, WbmFifo.reset, (EbFifo.reset_sound m.wbm).2]
    rfl
  rw [← start]
  exact (sends []).1.symm

/-- What the readers asked for lands where they want it. The slave at their side takes what is sent: it writes what has
been read, to the addresses of the readers, and sends nothing. -/
theorem results_land
    (good : Along (step g gTimeoutCycles) (fun s i => s.Paced i ∧ s.Asked i) (reset t gTimeoutCycles m) inputs)
    (packets : List Packet) (wanted : ∀ p ∈ packets, p.hdr.probe = false ∧ p.hdr.noResponse = false)
    (stream : collect (step g gTimeoutCycles) events (reset t gTimeoutCycles m) inputs =
      packets.flatMap Packet.events)
    (drained : (run (step g gTimeoutCycles) (reset t gTimeoutCycles m) inputs).Drained)
    (others : List SlaveFsm.In)
    (back : collect SlaveFsm.step SlaveFsm.events .reset others =
      (collect (step g gTimeoutCycles) (sent g gTimeoutCycles) (reset t gTimeoutCycles m) inputs).flatMap
        TxOut.events) :
    collect SlaveFsm.step taken .reset others ++ (run SlaveFsm.step .reset others).pending =
        collect Reply.packet (fun t p => p.landed g t) (answersOf t g gTimeoutCycles m inputs) packets ∧
      ∀ g' errreg answers, collect Reply.consume (Reply.sends g') ⟨false, errreg, answers⟩
        (collect SlaveFsm.step (fun s i => (s.step i).pushed) .reset others) = packets.map fun _ => .skip := by
  obtain ⟨⟨gone, rest, pushed, owes, sends⟩, -⟩ := replies_in_order t g gTimeoutCycles m inputs good
  -- all that was pushed is gone
  have none := owes.tags
  rw [drained.tags, drained.strobe] at none
  obtain rfl : rest = [] := List.map_eq_nil_iff.mp none.symm
  rw [pushes_run, stream, (serve_packets _ packets rfl).1, List.append_nil] at pushed
  rw [drained.leaving, List.append_nil, ← pushed] at sends
  rw [sends, packets_send packets wanted] at back
  obtain ⟨-, -, whole⟩ := requests_performed others _ [] ((List.append_nil _).trans back)
  obtain ⟨ops, entries⟩ := whole rfl
  rw [replies_ops] at ops
  refine ⟨ops, fun g' errreg answers => ?_⟩
  rw [entries]
  exact replies_skip packets _ rfl g'

instance (s : SlaveTop t) (i : In) : Decidable (s.Paced i) := inferInstanceAs (Decidable (_ → _))

instance (s : SlaveTop t) (i : In) : Decidable (s.Asked i) := inferInstanceAs (Decidable (_ → _))

def calm (cyc stb : Bool) (d : Word) (wbI : Answer) : In := ⟨cyc, stb, d, false, false, false, wbI, 0⟩

/-- A write and a read, which the bus answers late. -/
def asks : List In :=
  let none : Answer := ⟨false, false, false, 0⟩
  (Packet.ask.encode.flatMap fun d => [calm true true d none, calm true false 0 none]) ++
    [calm false false 0 ⟨true, false, false, 0⟩, calm false false 0 ⟨true, false, false, 42⟩] ++
      List.replicate 5 (calm false false 0 none)

def blank : Memories := ⟨fun _ => .dropTx, fun _ => 0, fun _ => 0, fun _ => (false, 0)⟩

theorem replies_in_order_ask :
    (run (step ⟨0, 0, 0, 0⟩ 100) (reset 8 100 blank) asks).tag.stored.length ≤ 32 :=
  (replies_in_order _ _ _ _ _ (by decide +kernel)).2.1

/-- The output as the input of the other slave. -/
def back : TxOut → SlaveFsm.In
  | .word d => given d
  | .drop | .skip => { given 0 with rxCyc := false }

theorem results_land_ask :
    let replies := (collect (step ⟨0, 0, 0, 0⟩ 100) (sent ⟨0, 0, 0, 0⟩ 100) (reset 8 100 blank) asks).map back
    collect SlaveFsm.step taken .reset replies ++ (run SlaveFsm.step .reset replies).pending = [.write 0x8000 42 0xf] :=
  (results_land 8 ⟨0, 0, 0, 0⟩ 100 blank asks (by decide +kernel) [.ask] (by decide) (by decide +kernel)
    ⟨by decide +kernel, by decide +kernel, by decide +kernel⟩ _ (by decide +kernel)).1.trans (by decide +kernel)

end SlaveTop

end WrCores.Etherbone
