import VlanTagger.Nodes.PacketLog
import VlanTagger.Pipeline.Counters
import VlanTagger.Pipeline.DetailedLogging

/-!
# What the log says of the packets

The pipeline with the lines that the process functions of its loggers and packet counters print,
from the start of their loops on, where no `printL` fails; the warnings of `node_send_to_outputs`
about a full queue are not among them. Only the order of the lines of one node is meant; `printL`
keeps the lines of different threads apart. In every run the lines of a node say what the node
has taken.
-/
namespace VlanTagger.Pipeline

open Lib Lib.CString Nodes Queue Logger

/-! ## The lines of a step -/

/-- What the loop body of a logger or of a packet counter hands to `printL`. -/
def Process.bodyTexts (nodeName : CString) (logInterval : Int) (fullDump : Memory UInt8) (p : Process)
    (buffer : Memory UInt8) (packetSize : Int) : List CString :=
  match p with
  | .logger ctx => loggerTexts nodeName logInterval fullDump ctx buffer packetSize
  | .packetCounter ctx => packetCounterTexts nodeName logInterval ctx buffer packetSize
  | _ => []

/-- What the two hand to `printL` behind their loops. -/
def Process.finalTexts (nodeName : CString) : Process → List CString
  | .logger ctx => loggerFinal nodeName ctx
  | .packetCounter ctx => packetCounterFinal nodeName ctx
  | _ => []

/-- The test of the loop, or else the test of `input_queue`, has ended it. -/
def Process.exitTexts (nodeName : CString) (shouldExit : Bool) (p : Process) : List CString :=
  match p with
  | .logger _ | .packetCounter _ =>
    if shouldExit then p.finalTexts nodeName else (nodeName ++ ofString ": No input queue") :: p.finalTexts nodeName
  | _ => []

def Pc.isLeft {κ : Type*} : Pc κ → Bool
  | .left => true
  | _ => false

section

variable {ν κ : Type*}

/-- The lines that a step adds to the log, each with the node that prints it. -/
def State.lines (name : ν → CString) (logInterval : ν → Int) (fullDump : Memory UInt8) (s : State ν κ) :
    Event ν κ → List (ν × CString)
  | .take n k _ =>
    match pop (s.queue k) (s.node n).buffer with
    | none => []
    | some (ret, buffer, _) => ((s.node n).process.bodyTexts (name n) (logInterval n) fullDump buffer ret).map
        fun text => (n, message text)
  | .exit n => ((s.node n).process.exitTexts (name n) s.shouldExit).map fun text => (n, message text)
  | _ => []

variable [DecidableEq ν] [DecidableEq κ]

/-- The pipeline and its log, for the names of the nodes and their `log_interval`. -/
def loggedRuntime (host : ByteOrder) (T : Topology ν κ) (process : ν → Process) (name : ν → CString)
    (logInterval : ν → Int) : System (State ν κ × List (ν × CString)) (Event ν κ) :=
  (runtime host T process).logging fun s e out => ∃ fullDump, out = s.lines name logInterval fullDump e

/-- Every run of the pipeline leaves a log. -/
theorem exists_logged {host : ByteOrder} {T : Topology ν κ} {process : ν → Process} (name : ν → CString)
    (logInterval : ν → Int) {tr : List (Event ν κ)} {s : State ν κ} (h : (runtime host T process).Run tr s) :
    ∃ log, (loggedRuntime host T process name logInterval).Run tr (s, log) := by
  unfold loggedRuntime
  exact h.exists_logging fun s e => ⟨_, fun _ => 0, rfl⟩

/-- The lines of one node. -/
def linesOf (n : ν) (log : List (ν × CString)) : List CString :=
  log.filterMap fun line => if line.1 = n then some line.2 else none

theorem linesOf_append (n : ν) (log out : List (ν × CString)) :
    linesOf n (log ++ out) = linesOf n log ++ linesOf n out := List.filterMap_append

theorem linesOf_self (n : ν) (texts : List CString) :
    linesOf n (texts.map fun text => (n, message text)) = texts.map message := by
  rw [linesOf, List.filterMap_map, ← List.filterMap_eq_map]
  exact List.filterMap_congr fun _ _ => if_pos rfl

theorem linesOf_of_ne {n m : ν} (h : m ≠ n) (texts : List CString) :
    linesOf n (texts.map fun text => (m, message text)) = [] := by
  rw [linesOf, List.filterMap_map]
  exact List.filterMap_eq_nil_iff.mpr fun _ _ => if_neg h

end

/-! ## Nodes that report -/

def Process.Reports (p : Process) : Prop := p.role = .logger ∨ p.role = .packetCounter

/-- A logger or a packet counter, whose context is a matter of the frames that it has taken. -/
structure Reporter (nodeName : CString) (logInterval : Int) where
  /-- the process, when it has taken these frames -/
  process : List (List UInt8) → Process
  reports : ∀ ps, (process ps).Reports
  /-- the lines that it may print of the last of these frames -/
  shows : List (List UInt8) → List CString → Prop
  body : ∀ (host : ByteOrder) (outputCount rand : Nat) (shouldExit : Bool) (ps : List (List UInt8)) (p : Packet)
    (buffer : Memory UInt8), buffer.bytes p.bytes.length = p.bytes →
      ((process ps).body host outputCount rand shouldExit buffer p.bytes.length).process = process (ps ++ [p.bytes])
  prints : ∀ (fullDump : Memory UInt8) (ps : List (List UInt8)) (p : Packet) (buffer : Memory UInt8),
    buffer.bytes p.bytes.length = p.bytes →
      shows (ps ++ [p.bytes]) (((process ps).bodyTexts nodeName logInterval fullDump buffer p.bytes.length).map message)

section

variable {nodeName : CString} {logInterval : Int}

def loggerReporter (hname : nodeName.length ≤ 63) (hnul : 0 ∉ nodeName) : Reporter nodeName logInterval where
  process := fun ps => .logger ⟨UInt64.ofNat ps.length⟩
  reports := fun _ => .inl rfl
  shows := fun ps out => out.map (readPacketDump nodeName) = (dumpReport logInterval ps).toList.map some
  body := by
    intro host outputCount rand shouldExit ps p buffer h
    have hpos := p.length_pos
    have hone : ¬ (p.bytes.length : Int) < 1 := by omega
    simp only [Process.body, loggerBody, hone, if_false, ofNat_length_concat ps p.bytes]
  prints := by
    intro fullDump ps p buffer h
    rw [List.map_map]
    exact read_loggerTexts p hname hnul h fullDump ps

def packetCounterReporter : Reporter nodeName logInterval where
  process := fun ps => .packetCounter (countersOf ps)
  reports := fun _ => .inr rfl
  shows := fun ps out => out = ((statisticsReport nodeName logInterval ps).map message).toList
  body := by
    intro host outputCount rand shouldExit ps p buffer h
    exact congrArg Process.packetCounter (packetCounterBody_countersOf p h ps)
  prints := by
    intro fullDump ps p buffer h
    change (packetCounterTexts nodeName logInterval (countersOf ps) buffer p.bytes.length).map message = _
    rw [packetCounterTexts_countersOf p h]
    cases statisticsReport nodeName logInterval (ps ++ [p.bytes]) <;> rfl

end

/-! ## One step -/

section

variable {ν κ : Type*} {host : ByteOrder} {T : Topology ν κ} {process : ν → Process} {name : ν → CString}
  {logInterval : ν → Int} {n : ν} {s s' : State ν κ} {e : Event ν κ}

theorem isSniffer_of_reports {p : Process} (h : p.Reports) : p.isSniffer = false := by
  cases p with
  | sniffer errCounter => rcases h with h | h <;> cases h
  | _ => rfl

theorem not_dispatcher_of_reports {p : Process} (h : p.Reports) (ctx : DispatcherContext) : p ≠ .dispatcher ctx := by
  rintro rfl
  rcases h with h | h <;> cases h

theorem not_sender_of_reports {p : Process} (h : p.Reports) (errCounter : Nat) : p ≠ .sender errCounter := by
  rintro rfl
  rcases h with h | h <;> cases h

/-- The steps of the other nodes, of `pipeline_stop`, and those of the node itself that take no
frame and do not end its loop. -/
structure Quiet (n : ν) (s s' : State ν κ) : Prop where
  process : (s'.node n).process = (s.node n).process
  left : (s'.node n).pc.isLeft = (s.node n).pc.isLeft

theorem quiet_of_node (h : s'.node n = s.node n) : Quiet n s s' := ⟨by rw [h], by rw [h]⟩

/-- Such a node goes on behind its loop body when there was a packet. -/
theorem isLeft_body {p : Process} (h : p.Reports) {outputCount rand : Nat} {shouldExit : Bool}
    {buffer : Memory UInt8} {ret : Int} (hret : ¬ ret < 1) (outputs : List κ) :
    (Pc.after outputs (p.body host outputCount rand shouldExit buffer ret).effect).isLeft = false := by
  have hsending : ∀ (targets : List κ) (b : Memory UInt8) (size : UInt16),
      (Pc.sending targets b size).isLeft = false := by
    intro targets b size
    cases targets <;> rfl
  cases p with
  | logger ctx =>
    simp only [Process.body, loggerBody, hret, if_false]
    exact hsending _ _ _
  | packetCounter ctx =>
    simp only [Process.body, packetCounterBody, hret, if_false]
    exact hsending _ _ _
  | _ => rcases h with h | h <;> cases h

theorem isLeft_signal [DecidableEq κ] (s : State ν κ) (k : κ) (n : ν) :
    ((s.signal T k).node n).pc.isLeft = (s.node n).pc.isLeft := by
  simp only [State.signal]
  split
  next hasleep =>
    cases hpc : (s.node n).pc with
    | left =>
      have hno := hasleep.2
      rw [hpc] at hno
      cases hno
    | _ => rfl
  next => rfl

theorem isLeft_pushed [DecidableEq κ] (s : State ν κ) (k : κ) (ret : Int) (q : QueueT) (n : ν) :
    ((s.pushed T k ret q).node n).pc.isLeft = (s.node n).pc.isLeft := by
  unfold State.pushed
  split
  · exact isLeft_signal (s.setQueue k q) k n
  · rfl

variable [DecidableEq ν]

theorem isLeft_setPc {m : ν} {pc : Pc κ} (h : m = n → (s.node m).pc.isLeft = pc.isLeft) :
    ((s.setPc m pc).node n).pc.isLeft = (s.node n).pc.isLeft := by
  unfold State.setPc
  by_cases hn : n = m
  · subst hn
    rw [node_setNode_self]
    exact (h rfl).symm
  · rw [node_setNode_of_ne hn]

theorem quiet_setPc {m : ν} {pc : Pc κ} (h : m = n → (s.node m).pc.isLeft = pc.isLeft) :
    Quiet n s (s.setPc m pc) := ⟨process_setPc n, isLeft_setPc h⟩

/-- What a step of another kind adds to the log is of other nodes. -/
theorem linesOf_quiet (fullDump : Memory UInt8) (htake : ∀ k effect, e ≠ .take n k effect) (hexit : e ≠ .exit n) :
    linesOf n (s.lines name logInterval fullDump e) = [] := by
  cases e with
  | take m k effect =>
    have hm : m ≠ n := by
      rintro rfl
      exact htake _ _ rfl
    simp only [State.lines]
    cases pop (s.queue k) (s.node m).buffer with
    | none => rfl
    | some r => exact linesOf_of_ne hm _
  | exit m =>
    have hm : m ≠ n := by
      rintro rfl
      exact hexit rfl
    exact linesOf_of_ne hm _
  | _ => rfl

variable [DecidableEq κ]

theorem quiet_step (hreports : (s.node n).process.Reports) (htake : ∀ k effect, e ≠ .take n k effect)
    (hexit : e ≠ .exit n) (hs : Step host T s e s') : Quiet n s s' := by
  have hother : ∀ {m : ν}, (s.node m).process.isSniffer = true → n ≠ m := by
    rintro m hm rfl
    rw [isSniffer_of_reports hreports] at hm
    cases hm
  cases hs with
  | enter pc => exact quiet_setPc fun _ => by rw [pc]; rfl
  | @exit m pc stop =>
    refine quiet_setPc fun hm => ?_
    exact absurd (congrArg Event.exit hm) hexit
  | recv pc sniffer => exact quiet_of_node (node_finish_of_ne (hother sniffer))
  | recvFailed pc sniffer => exact quiet_of_node (node_finish_of_ne (hother sniffer))
  | @take m k ret buffer q rand pc input call =>
    have hm : n ≠ m := by
      rintro rfl
      exact htake _ _ rfl
    refine quiet_of_node ((node_finish_of_ne hm).trans ?_)
    rfl
  | wait pc =>
    refine quiet_setPc fun _ => ?_
    rcases pc.1 with hpc | hpc <;> rw [hpc] <;> rfl
  | spuriousWakeup pc => exact quiet_setPc fun _ => by rw [pc]; rfl
  | @push m k ks buffer size ret q pc call =>
    refine ⟨(process_pushed n).trans (process_setPc n), (isLeft_pushed _ _ _ _ _).trans (isLeft_setPc fun _ => ?_)⟩
    rw [pc]
    cases ks <;> rfl
  | @dispatch m k buffer size ret q ctx pc process call =>
    have hm : n ≠ m := by
      rintro rfl
      exact not_dispatcher_of_reports hreports ctx process
    refine ⟨(process_pushed n).trans ?_, (isLeft_pushed _ _ _ _ _).trans ?_⟩
    · rw [node_setNode_of_ne hm]
    · rw [node_setNode_of_ne hm]
  | @sendto m buffer len errCounter sent pc process =>
    have hm : n ≠ m := by
      rintro rfl
      exact not_sender_of_reports hreports errCounter process
    exact quiet_of_node (node_finish_of_ne hm)
  | @stopSignal k ks stop =>
    refine ⟨?_, isLeft_signal s k n⟩
    simp only [State.signal]
    split <;> rfl
  | _ => exact ⟨rfl, rfl⟩

/-- A node takes a frame in its own steps only. -/
theorem got_quiet {f : Traffic ν κ} (hreports : (s.node n).process.Reports)
    (htake : ∀ k effect, e ≠ .take n k effect) (hs : Step host T s e s') : (f.record T e).got n = f.got n := by
  cases hs with
  | @recv m frame pc sniffer len =>
    have hm : n ≠ m := by
      rintro rfl
      rw [isSniffer_of_reports hreports] at sniffer
      cases sniffer
    exact Flow.got_work_of_ne hm
  | @take m k ret buffer q rand pc input call =>
    have hm : n ≠ m := by
      rintro rfl
      exact htake _ _ rfl
    exact Flow.got_take_of_ne hm
  | push => exact Flow.got_offer
  | dispatch => exact Flow.got_offer
  | sendto => exact Flow.got_offer
  | _ => rfl

/-! ## Runs -/

variable {tr : List (Event ν κ)} {s : State ν κ × List (ν × CString)}

/-- What the process, its place and its lines say of the frames that the node has taken. -/
structure Told (R : Reporter (name n) (logInterval n)) (got : List (List UInt8))
    (s : State ν κ × List (ν × CString)) : Prop where
  process : (s.1.node n).process = R.process got
  lines : ∃ out, Reported R.shows got out ∧ linesOf n s.2 =
    out ++ if (s.1.node n).pc.isLeft then ((R.process got).finalTexts (name n)).map message else []

/-- The node takes the next frame. -/
theorem Told.take {R : Reporter (name n) (logInterval n)} {f : Traffic ν κ} {k : κ} {effect : Effect}
    {fullDump : Memory UInt8} {s' : State ν κ} (h : Told R (f.got n) s)
    (hfollows : Follows host T (fun n => (process n).role) s.1 f)
    (hs : Step host T s.1 (.take n k effect) s') :
    Told R ((f.record T (.take n k effect)).got n)
      (s', s.2 ++ s.1.lines name logInterval fullDump (.take n k effect)) := by
  obtain ⟨out, hreported, hlines⟩ := h.lines
  have hprocess := h.process
  have hreports : (s.1.node n).process.Reports := hprocess ▸ R.reports _
  cases hs with
  | @take _ _ ret buffer q rand pc input call =>
    obtain ⟨items, hrep, hitems⟩ := hfollows.queue n k input (hfollows.role_ne_sniffer pc.2)
    cases items with
    | nil =>
      rw [hrep.pop_nil] at call
      cases call
    | cons packet items =>
      obtain ⟨b, q₁, hpop, ⟨-, hbytes, -⟩, -⟩ := hrep.pop_cons (s.1.node n).buffer
      have hone : ¬ (packet.bytes.length : Int) < 1 := by
        have hpos := packet.length_pos
        omega
      have hout : s.1.lines name logInterval fullDump (.take n k
          (s.1.body host T n rand buffer ret).effect) = ((s.1.node n).process.bodyTexts (name n)
            (logInterval n) fullDump b packet.bytes.length).map fun text => (n, message text) := by
        simp only [State.lines, hpop]
      rw [hout]
      rw [hpop] at call
      cases call
      have hgot : (f.record T (.take n k (s.1.body host T n rand buffer packet.bytes.length).effect)).got n =
          f.got n ++ [packet.bytes] := by
        rw [Traffic.record, Flow.take_of_cons hitems.symm, Flow.got_work_self]
      have hbefore : (s.1.node n).pc.isLeft = false := by
        rcases pc.1 with hpc | hpc <;> rw [hpc] <;> rfl
      have hafter : ((((s.1.setQueue k q).finish T n
          (s.1.body host T n rand buffer packet.bytes.length)).node n).pc).isLeft = false := by
        rw [pc_finish_self]
        exact isLeft_body hreports hone _
      rw [hgot]
      refine ⟨?_, _, hreported.snoc (R.prints fullDump (f.got n) packet buffer hbytes), ?_⟩
      · simp only [State.finish, Function.update_self, State.body]
        rw [hprocess]
        exact R.body host _ _ _ _ packet buffer hbytes
      · rw [linesOf_append, linesOf_self, hlines, hbefore, hafter, hprocess]
        simp only [Bool.false_eq_true, if_false, List.append_nil]

/-- The node leaves its loop. -/
theorem Told.exit {R : Reporter (name n) (logInterval n)} {f : Traffic ν κ} {fullDump : Memory UInt8}
    {s' : State ν κ} (h : Told R (f.got n) s) (hin : (T.input n).isSome = true)
    (hs : Step host T s.1 (.exit n) s') :
    Told R ((f.record T (.exit n)).got n) (s', s.2 ++ s.1.lines name logInterval fullDump (.exit n)) := by
  obtain ⟨out, hreported, hlines⟩ := h.lines
  have hprocess := h.process
  cases hs with
  | exit pc stop =>
    have hready : ready T n (s.1.node n).process = true := by
      have hreports : (s.1.node n).process.Reports := hprocess ▸ R.reports _
      cases hp : (s.1.node n).process with
      | logger ctx => exact hin
      | packetCounter ctx => exact hin
      | _ =>
        rw [hp] at hreports
        rcases hreports with h | h <;> cases h
    have hexit : s.1.shouldExit = true := by
      rcases stop with hstop | hstop
      · exact hstop
      · rw [hready] at hstop
        cases hstop
    have htexts : (s.1.node n).process.exitTexts (name n) s.1.shouldExit =
        (R.process (f.got n)).finalTexts (name n) := by
      rw [hexit, hprocess]
      cases hp : R.process (f.got n) with
      | logger ctx => rfl
      | packetCounter ctx => rfl
      | _ => rfl
    refine ⟨(process_setPc n).trans hprocess, out, hreported, ?_⟩
    have hleft : ((s.1.setPc n .left).node n).pc.isLeft = true := by
      rw [State.setPc, node_setNode_self]
      rfl
    have hbefore : (s.1.node n).pc.isLeft = false := by rw [pc]; rfl
    rw [linesOf_append, State.lines, htexts, linesOf_self, hlines, hbefore, hleft]
    simp only [Bool.false_eq_true, if_false, if_true, List.append_nil]
    rfl

/-- In every run the lines of a reporting node say what it has taken. -/
theorem told_run (h : (loggedRuntime host T process name logInterval).Run tr s)
    (R : Reporter (name n) (logInterval n)) (hR : process n = R.process [])
    (hin : (T.input n).isSome = true) : Told R ((traffic T tr).got n) s := by
  refine h.invariant (I := fun tr s => Told R ((traffic T tr).got n) s) ?_ ?_
  · intro s hstart
    obtain ⟨⟨-, -, -, hnodes⟩, hlog⟩ := hstart
    obtain ⟨hpc, uninitialised, hprocess⟩ := hnodes n
    refine ⟨?_, [], .nil, ?_⟩
    · rw [hprocess, hR]
      have hreports := R.reports []
      cases hp : R.process [] with
      | tagger ctx buffer =>
        rw [hp] at hreports
        rcases hreports with h | h <;> cases h
      | _ => exact hp.symm
    · rw [hlog, hpc]
      rfl
  · intro tr s e s' hrun hi hs
    obtain ⟨hstep, out, ⟨fullDump, rfl⟩, hlog⟩ := hs
    have hfollows := follows_run hrun.of_logging
    rw [traffic_snoc]
    have hs' : s' = (s'.1, s.2 ++ s.1.lines name logInterval fullDump e) := Prod.ext rfl hlog
    rw [hs']
    by_cases htake : ∃ k effect, e = .take n k effect
    · obtain ⟨k, effect, rfl⟩ := htake
      exact hi.take hfollows hstep
    by_cases hexit : e = .exit n
    · subst hexit
      exact hi.exit hin hstep
    · have hreports : (s.1.node n).process.Reports := hi.process ▸ R.reports _
      have htake' : ∀ k effect, e ≠ .take n k effect := fun k effect he => htake ⟨k, effect, he⟩
      have hquiet := quiet_step hreports htake' hexit hstep
      obtain ⟨out, hreported, hlines⟩ := hi.lines
      rw [got_quiet hreports htake' hstep]
      refine ⟨hquiet.process.trans hi.process, out, hreported, ?_⟩
      rw [linesOf_append, linesOf_quiet fullDump htake' hexit, List.append_nil, hquiet.left, hlines]

/-- The dumps of a logger, and its line behind the loop. -/
theorem logger_lines (h : (loggedRuntime host T process name logInterval).Run tr s)
    (hprocess : process n = .logger ⟨0⟩) (hin : (T.input n).isSome = true) (hname : (name n).length ≤ 63)
    (hnul : 0 ∉ name n) :
    ∃ dumps, linesOf n s.2 = dumps ++ (if (s.1.node n).pc.isLeft then
        (loggerFinal (name n) ⟨UInt64.ofNat ((traffic T tr).got n).length⟩).map message else []) ∧
      dumps.map (readPacketDump (name n)) =
        (reports (dumpReport (logInterval n)) ((traffic T tr).got n)).map some := by
  obtain ⟨-, dumps, hreported, hlines⟩ := told_run h (loggerReporter hname hnul) hprocess hin
  refine ⟨dumps, hlines, ?_⟩
  rw [map_reports]
  refine hreported.map_eq fun ps out hshows => ?_
  rw [hshows]
  cases dumpReport (logInterval n) ps <;> rfl

/-- The lines of a packet counter. -/
theorem packetCounter_lines (h : (loggedRuntime host T process name logInterval).Run tr s)
    (hprocess : process n = .packetCounter packetCounterNodeCreate) (hin : (T.input n).isSome = true) :
    linesOf n s.2 = (reports (statisticsReport (name n) (logInterval n)) ((traffic T tr).got n)).map
      message ++ if (s.1.node n).pc.isLeft then
        (packetCounterFinal (name n) (countersOf ((traffic T tr).got n))).map message else [] := by
  obtain ⟨-, out, hreported, hlines⟩ := told_run h packetCounterReporter hprocess hin
  have hout : out.map id = reports (fun ps => (statisticsReport (name n) (logInterval n) ps).map message)
      ((traffic T tr).got n) := by
    refine hreported.map_eq fun ps out hshows => ?_
    rw [List.map_id, hshows]
  rw [List.map_id, ← map_reports] at hout
  rw [hlines, hout]
  rfl

end

/-! ## The pattern with two loggers -/

namespace DetailedLogging

/-- The names that the pattern gives its nodes, and `pipeline_connect_shared` the dispatcher. -/
def Station.name : Station → CString
  | sniffer => ofString "Sniffer"
  | tagger1 => ofString "Tagger1"
  | tagger2 => ofString "Tagger2"
  | collector => ofString "Collector"
  | logger1 => ofString "Logger1"
  | logger2 => ofString "Logger2"
  | packetCounter => ofString "PacketCounter"
  | sender => ofString "Sender"
  | dispatcher => ofString "Disp_Sniffer"

/-- The `log_interval` of the loggers and of the packet counter. -/
def Station.logInterval : Station → Int
  | packetCounter => 10
  | _ => 1

/-- The threads of the pattern with their log. -/
def loggedThreads (host : ByteOrder) (ctx : TaggerContext) :
    System (State Station Channel × List (Station × CString)) (Event Station Channel) :=
  loggedRuntime host network (Station.process ctx) Station.name Station.logInterval

/-- The log of the run in which the first logger takes two frames. -/
theorem logger1_logs :
    ∃ tr s, (loggedThreads .little oneRange).Run tr s ∧ receivedBy .sniffer tr = [[1, 2, 3], [4, 5]] ∧
      (traffic network tr).got .logger1 = [[1, 2, 3], [4, 5]] ∧ (s.1.node .logger1).pc = .test := by
  obtain ⟨tr, s, hrun, hreceived, hgot, hpc⟩ := logger1_takes
  obtain ⟨log, hlog⟩ := exists_logged Station.name Station.logInterval hrun
  exact ⟨tr, (s, log), hlog, hreceived, hgot, hpc⟩

end DetailedLogging

section

variable {ν κ : Type*} [DecidableEq ν] [DecidableEq κ] {host : ByteOrder} {T : Topology ν κ}
  {process : ν → Process} {name : ν → CString} {logInterval : ν → Int} {tr : List (Event ν κ)}
  {s : State ν κ × List (ν × CString)}

/-- What the log says of the packets. A logger has a dump of every `log_interval`-th packet that it
has taken, which can be read back, and a packet counter a line with its counters up to every
`log_interval`-th one; the lines behind the loop come when the loop has been left. A packet counter
whose interval is not positive is not created. -/
theorem packet_log (h : (loggedRuntime host T process name logInterval).Run tr s) :
    (∀ n, process n = .logger ⟨0⟩ → (T.input n).isSome = true → (name n).length ≤ 63 → 0 ∉ name n →
      ∃ dumps, linesOf n s.2 = dumps ++ (if (s.1.node n).pc.isLeft then
          (loggerFinal (name n) ⟨UInt64.ofNat ((traffic T tr).got n).length⟩).map message else []) ∧
        dumps.map (readPacketDump (name n)) =
          (reports (dumpReport (logInterval n)) ((traffic T tr).got n)).map some ∧
        (((traffic T tr).got n).length < 2 ^ 64 → logInterval n < 2 ^ 31 →
          dumps.length = ((traffic T tr).got n).length / (max 1 (logInterval n)).toNat) ∧
        (logInterval n ≤ 1 → (reports (dumpReport (logInterval n)) ((traffic T tr).got n)).map
          ShownPacket.bytes = (traffic T tr).got n)) ∧
      ∀ n, process n = .packetCounter packetCounterNodeCreate → (T.input n).isSome = true →
        0 < logInterval n →
        linesOf n s.2 = (reports (statisticsReport (name n) (logInterval n)) ((traffic T tr).got n)).map
            message ++ (if (s.1.node n).pc.isLeft then
              (packetCounterFinal (name n) (countersOf ((traffic T tr).got n))).map message else []) ∧
          (((traffic T tr).got n).length < 2 ^ 64 → logInterval n < 2 ^ 31 →
            (reports (statisticsReport (name n) (logInterval n)) ((traffic T tr).got n)).length =
              ((traffic T tr).got n).length / (logInterval n).toNat) := by
  refine ⟨fun n hprocess hin hname hnul => ?_, fun n hprocess hin hpos =>
    ⟨packetCounter_lines h hprocess hin, fun hlength hle => length_statisticsReports hlength hpos hle⟩⟩
  obtain ⟨dumps, hlines, hread⟩ := logger_lines h hprocess hin hname hnul
  refine ⟨dumps, hlines, hread, fun hlength hle => ?_, fun hle => dumpReports_all hle _⟩
  have hcount := congrArg List.length hread
  rwa [List.length_map, List.length_map, length_dumpReports hlength hle] at hcount

end

/-- The first logger shows the two frames that it has taken. -/
theorem packet_log_two :
    ∃ tr s dump dump', (DetailedLogging.loggedThreads .little oneRange).Run tr s ∧
      linesOf .logger1 s.2 = [dump, dump'] ∧
      readPacketDump (ofString "Logger1") dump = some ⟨1, 3, [1, 2, 3]⟩ ∧
      readPacketDump (ofString "Logger1") dump' = some ⟨2, 2, [4, 5]⟩ := by
  obtain ⟨tr, s, hrun, -, hgot, hpc⟩ := DetailedLogging.logger1_logs
  obtain ⟨dumps, hlines, hread, -⟩ := (packet_log hrun).1 .logger1 rfl rfl (by decide) (by decide)
  have hshown : dumps.map (readPacketDump (ofString "Logger1")) =
      [some ⟨1, 3, [1, 2, 3]⟩, some ⟨2, 2, [4, 5]⟩] := by
    rw [hgot] at hread
    exact hread
  obtain ⟨dump, rest, rfl, hdump, hrest⟩ := List.map_eq_cons_iff.mp hshown
  obtain ⟨dump', rfl, hdump'⟩ := List.map_eq_singleton_iff.mp hrest
  rw [hpc] at hlines
  exact ⟨tr, s, dump, dump', hrun, hlines, hdump, hdump'⟩

namespace DetailedLogging

section

variable {host : ByteOrder} {ctx : TaggerContext} {tr : List (Event Station Channel)}
  {s : State Station Channel × List (Station × CString)}

/-- A logger of the pattern shows every packet that it takes. -/
theorem logger_log (h : (loggedThreads host ctx).Run tr s) {n : Station} (hn : n = .logger1 ∨ n = .logger2) :
    ∃ (dumps : List CString) (shown : List ShownPacket),
      linesOf n s.2 = dumps ++ (if (s.1.node n).pc.isLeft then
        (loggerFinal n.name ⟨UInt64.ofNat ((traffic network tr).got n).length⟩).map message else []) ∧
      dumps.map (readPacketDump n.name) = shown.map some ∧
      shown.map ShownPacket.bytes = (traffic network tr).got n := by
  have hlog : n.process ctx = .logger ⟨0⟩ ∧ (network.input n).isSome = true ∧ n.name.length ≤ 63 ∧
      0 ∉ n.name ∧ n.logInterval ≤ 1 := by
    rcases hn with rfl | rfl <;> exact ⟨rfl, rfl, by decide, by decide, by decide⟩
  obtain ⟨hprocess, hin, hname, hnul, hle⟩ := hlog
  obtain ⟨dumps, hlines, hread⟩ := logger_lines h hprocess hin hname hnul
  exact ⟨dumps, _, hlines, hread, dumpReports_all hle _⟩

/-- What the packet counter gets is tagged. -/
theorem vlan_of_got {s : State Station Channel} (h : (threads host ctx).Run tr s) :
    ∀ p ∈ (traffic network tr).got .packetCounter, Vlan p := by
  intro p hp
  have hgot := got_behind_collector h (n := .packetCounter) (.inr (.inr rfl))
  obtain ⟨q, -, htag⟩ := List.mem_filterMap.mp ((got_collector h).subset (hgot.subset hp))
  exact vlan_of_tagFrame htag

/-- The log of the pattern. The dumps of the loggers show what these have taken: captured frames in
the order of their capture, and tagged forms of captured frames. The packet counter reports on
such forms too, all of them tagged. -/
theorem detailed_logging_log (h : (loggedThreads host ctx).Run tr s) :
    (∀ n, n = .logger1 ∨ n = .logger2 → ∃ (dumps : List CString) (shown : List ShownPacket),
      linesOf n s.2 = dumps ++ (if (s.1.node n).pc.isLeft then
        (loggerFinal n.name ⟨UInt64.ofNat ((traffic network tr).got n).length⟩).map message else []) ∧
      dumps.map (readPacketDump n.name) = shown.map some ∧
      shown.map ShownPacket.bytes = (traffic network tr).got n) ∧
    ((traffic network tr).got .logger1).Sublist (receivedBy .sniffer tr) ∧
    ((traffic network tr).got .logger2).Subperm ((receivedBy .sniffer tr).filterMap (tagFrame ctx)) ∧
    linesOf .packetCounter s.2 =
      (reports (statisticsReport Station.packetCounter.name Station.packetCounter.logInterval)
        ((traffic network tr).got .packetCounter)).map message ++
        (if (s.1.node .packetCounter).pc.isLeft then (packetCounterFinal Station.packetCounter.name
          (countersOf ((traffic network tr).got .packetCounter))).map message else []) ∧
    ((traffic network tr).got .packetCounter).Subperm
      ((receivedBy .sniffer tr).filterMap (tagFrame ctx)) ∧
    ∀ qs, qs <+: (traffic network tr).got .packetCounter →
      (countersOf qs).vlanPackets = (countersOf qs).totalPackets ∧ (countersOf qs).nonVlanPackets = 0 := by
  have hrun : (threads host ctx).Run tr s.1 := by
    unfold loggedThreads loggedRuntime at h
    exact h.of_logging
  have hcounter := packetCounter_lines (n := .packetCounter) h rfl rfl
  exact ⟨fun n hn => logger_log h hn, got_logger1 hrun,
    (got_behind_collector hrun (.inr (.inl rfl))).subperm.trans (got_collector hrun), hcounter,
    (got_behind_collector hrun (.inr (.inr rfl))).subperm.trans (got_collector hrun),
    fun qs hqs => countersOf_tagged fun p hp => vlan_of_got hrun p (hqs.subset hp)⟩

/-- The first logger shows the two frames that were captured. -/
theorem detailed_logging_log_two :
    ∃ tr s dumps, ∃ shown : List ShownPacket, (loggedThreads .little oneRange).Run tr s ∧
      receivedBy .sniffer tr = [[1, 2, 3], [4, 5]] ∧ linesOf .logger1 s.2 = dumps ∧
      dumps.map (readPacketDump (ofString "Logger1")) = shown.map some ∧
      shown.map ShownPacket.bytes = [[1, 2, 3], [4, 5]] := by
  obtain ⟨tr, s, hrun, hreceived, hgot, hpc⟩ := logger1_logs
  obtain ⟨dumps, shown, hlines, hread, hshown⟩ := (detailed_logging_log hrun).1 .logger1 (.inl rfl)
  rw [hpc] at hlines
  rw [hgot] at hshown
  exact ⟨tr, s, dumps, shown, hrun, hreceived, hlines.trans (List.append_nil dumps), hread, hshown⟩

end

end DetailedLogging

end VlanTagger.Pipeline
