import VlanTagger.Pipeline.Conservation
import VlanTagger.Pipeline.Graph

/-!
# The network of the program

`vlan_tagger_pattern` builds a pipeline of single lanes. An idle network carries a frame
that has a tag from queue to queue up to the sender, which shows that the runs the other
modules speak of exist for every such frame.
-/
namespace VlanTagger.Pipeline

open Lib Nodes Queue

/-- Frames travel raw up to the taggers and tagged behind them. -/
def Channel.stage : Channel → Stage
  | dispatcher => .raw
  | tagger1 => .raw
  | tagger2 => .raw
  | packetCounter => .tagged
  | sender => .tagged

theorem vlanTagger_lane (ctx : TaggerContext) (n : Station) :
    Lane vlanTagger ctx Channel.stage n (n.process ctx).role := by
  cases n with
  | sniffer => exact ⟨.dispatcher, rfl, rfl⟩
  | tagger1 => exact ⟨rfl, fun k hk => by cases hk; rfl, .packetCounter, rfl, rfl⟩
  | tagger2 => exact ⟨rfl, fun k hk => by cases hk; rfl, .packetCounter, rfl, rfl⟩
  | packetCounter => exact ⟨fun k hk => by cases hk; rfl, .sender, rfl, rfl⟩
  | sender => exact ⟨fun k hk => by cases hk; rfl, rfl⟩
  | dispatcher =>
    refine ⟨fun k hk => by cases hk; rfl, List.cons_ne_nil _ _, fun k hk => ?_⟩
    change k ∈ [Channel.tagger1, Channel.tagger2] at hk
    simp only [List.mem_cons, List.not_mem_nil, or_false] at hk
    rcases hk with rfl | rfl <;> rfl

/-- Only frames of 1..1518 bytes are captured. -/
def CapturesFrames (_ : State Station Channel) (e : Event Station Channel) : Prop :=
  ∀ n frame, e = .recv n frame → 1 ≤ frame.length ∧ frame.length ≤ 1518

/-- The threads of the program on a link with such frames. -/
def vlanTaggerOnLink (host : ByteOrder) (ctx : TaggerContext) :
    System (State Station Channel) (Event Station Channel) :=
  (vlanTaggerRuntime host ctx).restrict CapturesFrames

/-! ## Frame after frame through an idle network -/

/-- A run that has not been stopped, with the frames captured and the calls of `sendto` so far. -/
structure Running (host : ByteOrder) (ctx : TaggerContext) (captured : List (List UInt8))
    (handed : List (Nat × List UInt8)) (tr : List (Event Station Channel))
    (s : State Station Channel) : Prop where
  run : (vlanTaggerOnLink host ctx).Run tr s
  go : s.shouldExit = false
  captured : capturedFrames tr = captured
  handed : (ledger tr).handed = handed

/-- No frame is under way, and every thread is at its test. -/
structure Vacant (host : ByteOrder) (ctx : TaggerContext) (captured : List (List UInt8))
    (handed : List (Nat × List UInt8)) (tr : List (Event Station Channel))
    (s : State Station Channel) : Prop extends Running host ctx captured handed tr s where
  pc : ∀ n, (s.node n).pc = .test
  empty : ∀ k, Represents (s.queue k) []

/-- The last captured frame, `p`, waits in the queue `k`, and no other frame is under way. -/
structure Waiting (host : ByteOrder) (ctx : TaggerContext) (before : List (List UInt8))
    (handed : List (Nat × List UInt8)) (p : List UInt8) (k : Channel)
    (tr : List (Event Station Channel)) (s : State Station Channel) : Prop
    extends Running host ctx (before ++ [p]) handed tr s where
  pc : ∀ n, (s.node n).pc = .test
  front : ∃ packet, Represents (s.queue k) [packet] ∧ k.stage.Carries ctx p packet.bytes
  others : ∀ k', k' ≠ k → Represents (s.queue k') []
  held : (ledger tr).tokens.held (.queue k) = [before.length]
  arrived : (before.length, .queue k) ∈ (ledger tr).tokens.arrivals

/-- The last captured frame, `p`, is in the hands of `n`, and no other frame is under way. -/
structure InHands (host : ByteOrder) (ctx : TaggerContext) (before : List (List UInt8))
    (handed : List (Nat × List UInt8)) (p : List UInt8) (n : Station)
    (tr : List (Event Station Channel)) (s : State Station Channel) : Prop
    extends Running host ctx (before ++ [p]) handed tr s where
  pc : ∀ m, m ≠ n → (s.node m).pc = .test
  empty : ∀ k, Represents (s.queue k) []
  held : (ledger tr).tokens.held (.buffer n) = [before.length]

section

variable {host : ByteOrder} {ctx : TaggerContext} {before : List (List UInt8)}
  {handed : List (Nat × List UInt8)} {p : List UInt8} {tr : List (Event Station Channel)}
  {s : State Station Channel}

theorem agrees_onLink (h : (vlanTaggerOnLink host ctx).Run tr s) :
    Agrees vlanTagger ctx Channel.stage (fun n => (n.process ctx).role) s (ledger tr) :=
  agrees_run (vlanTagger_lane ctx) h.of_restrict

theorem vacant_start (host : ByteOrder) (ctx : TaggerContext) :
    Vacant host ctx [] [] [] (vlanTaggerStart ctx) :=
  ⟨⟨.start (vlanTaggerStart_initial host ctx), rfl, rfl, rfl⟩, fun _ => rfl, fun _ => represents_init _⟩

/-- The thread that holds the frame is about to pass it on. -/
theorem InHands.passes {n : Station} (h : InHands host ctx before handed p n tr s) :
    Passes vlanTagger ctx Channel.stage (n.process ctx).role n p (s.node n).pc := by
  have hagrees := (agrees_onLink h.run).buffer n
  obtain ⟨id, p', hheld, hname, hpass⟩ := hagrees.holds (hagrees.busy_of_held h.held)
  obtain rfl : before.length = id := List.head_eq_of_cons_eq (h.held.symm.trans hheld)
  rw [names_iff, h.captured, List.getElem?_concat_length] at hname
  rwa [Option.some.inj hname]

/-- An empty queue holds no frame of the account. -/
theorem held_of_empty (h : (vlanTaggerOnLink host ctx).Run tr s) {k : Channel}
    (hempty : Represents (s.queue k) []) : (ledger tr).tokens.held (.queue k) = [] := by
  obtain ⟨items, hrep, hall⟩ := (agrees_onLink h).queue k
  rw [hrep.unique hempty] at hall
  exact List.forall₂_nil_right_iff.mp hall

/-- A node that is not the sniffer and has an input queue passes the tests of its loop. -/
theorem ready_of_role {n : Station} {pr : Process} (hrole : pr.role = (n.process ctx).role)
    {k : Channel} (hin : n.input = some k) : ready vlanTagger n pr = true ∧ pr.isSniffer = false := by
  cases n with
  | sniffer => cases hin
  | _ => cases pr <;> first | exact ⟨rfl, rfl⟩ | cases hrole

/-- Signals change nothing where nobody sleeps. -/
theorem node_pushed {k : Channel} {ret : Int} {q : QueueT} {n : Station}
    (h : (s.node n).pc.isAsleep = false) :
    (s.pushed vlanTagger k ret q).node n = s.node n := by
  unfold State.pushed
  split
  · refine if_neg fun hasleep => ?_
    have hno : (s.node n).pc.isAsleep = true := hasleep.2
    rw [h] at hno
    cases hno
  · rfl

theorem queue_pushed {k k' : Channel} {ret : Int} {q : QueueT} :
    (s.pushed vlanTagger k ret q).queue k' = if k' = k then q else s.queue k' := by
  have hset : (s.setQueue k q).queue k' = if k' = k then q else s.queue k' := by
    split
    next hk =>
      rw [hk]
      exact queue_setQueue_self
    next hk => exact queue_setQueue_of_ne hk
  unfold State.pushed
  split <;> exact hset

theorem shouldExit_pushed {k : Channel} {ret : Int} {q : QueueT} :
    (s.pushed vlanTagger k ret q).shouldExit = s.shouldExit := by
  unfold State.pushed
  split <;> rfl

/-- Events that capture nothing and send nothing. -/
theorem Running.snoc {captured : List (List UInt8)} (h : Running host ctx captured handed tr s)
    {e : Event Station Channel} {s' : State Station Channel} (hrecv : e.captured = none)
    (hsend : e.handed = none) (hstep : Step host vlanTagger s e s') (hgo : s'.shouldExit = false) :
    Running host ctx captured handed (tr ++ [e]) s' := by
  refine ⟨h.run.snoc ⟨hstep, ?_⟩, hgo, ?_, ?_⟩
  · rintro n frame rfl
    cases hrecv
  · rw [capturedFrames, List.filterMap_append, ← capturedFrames, h.captured,
      List.filterMap_cons_none hrecv, List.filterMap_nil, List.append_nil]
  · rw [ledger_snoc, ← h.handed]
    cases e with
    | sendto n frame sent => cases hsend
    | _ => rfl

/-- A thread that holds the frame pushes it to the empty queue `k`. -/
theorem InHands.pushed {n : Station} {k : Channel} {buffer : Memory UInt8} {size : UInt16}
    {st : NodeState Channel} (h : InHands host ctx before handed p n tr s) (hst : st.pc = .test)
    (hlen : 1 ≤ p.length ∧ p.length ≤ 1518) (hc : k.stage.Carries ctx p (buffer.bytes size.toNat))
    (hstep : Step host vlanTagger s
      (.push n k (decide (0 < (push (s.queue k) buffer size).1)))
      ((s.setNode n st).pushed vlanTagger k (push (s.queue k) buffer size).1
        (push (s.queue k) buffer size).2)) :
    ∃ e s', Waiting host ctx before handed p k (tr ++ [e]) s' := by
  have hlow := hc.length_pos hlen.1
  have hhigh := hc.length_le
  rw [Memory.length_bytes] at hlow hhigh
  have hz : size ≠ 0 := by
    intro h
    rw [h] at hlow
    cases hlow
  have hmax : size.toNat ≤ maxPkgSize := by
    show size.toNat ≤ 1522
    omega
  obtain ⟨hret, hrep⟩ := (h.empty k).push_room (by decide) buffer size hz hmax
  have hstored : 0 < (push (s.queue k) buffer size).1 := by
    rw [hret]
    omega
  have hrecord : ∀ L : Ledger Station Channel,
      (L.record (.push n k (decide (0 < (push (s.queue k) buffer size).1)))).tokens =
        L.tokens.move (.buffer n) (.queue k) := by
    intro L
    simp only [Ledger.record, hstored, decide_true, if_true]
  refine ⟨_, _, h.toRunning.snoc rfl rfl hstep (shouldExit_pushed.trans h.go), fun m => ?_,
    ⟨Packet.ofBuffer buffer size hz hmax, ?_, hc⟩, fun k' hk => ?_, ?_, ?_⟩
  · by_cases hm : m = n
    · subst hm
      rw [node_pushed, node_setNode_self, hst]
      rw [node_setNode_self, hst]
      rfl
    · rw [node_pushed, node_setNode_of_ne hm, h.pc m hm]
      rw [node_setNode_of_ne hm, h.pc m hm]
      rfl
  · rw [queue_pushed, if_pos rfl]
    exact hrep
  · rw [queue_pushed, if_neg hk]
    exact h.empty k'
  · rw [ledger_snoc, hrecord, Tokens.held_move_target h.held (by simp),
      held_of_empty h.run (h.empty k), List.nil_append]
  · rw [ledger_snoc, hrecord, Tokens.arrivals_move h.held, List.mem_append, List.mem_singleton]
    exact .inr rfl

/-- A thread other than the sender's that holds the frame pushes it to one of its outputs. -/
theorem InHands.goes {n : Station} (h : InHands host ctx before handed p n tr s)
    (hlen : 1 ≤ p.length ∧ p.length ≤ 1518) (hn : n ≠ .sender) :
    ∃ k ∈ vlanTagger.outputs n, ∃ e s', Waiting host ctx before handed p k (tr ++ [e]) s' := by
  have hpass := h.passes
  have hrole := (agrees_onLink h.run).roles n
  cases hpc : (s.node n).pc with
  | send targets buffer size =>
    rw [hpc] at hpass
    obtain ⟨-, k, rfl, hk, hc⟩ := hpass
    exact ⟨k, hk, h.pushed rfl hlen hc (.push hpc rfl)⟩
  | dispatch k buffer size =>
    rw [hpc] at hpass
    obtain ⟨⟨strategy, hstrategy⟩, hk, hc⟩ := hpass
    rw [hstrategy] at hrole
    cases hp : (s.node n).process with
    | dispatcher c => exact ⟨k, hk, h.pushed rfl hlen hc (.dispatch hpc hp rfl)⟩
    | _ =>
      rw [hp] at hrole
      cases hrole
  | sendto buffer len =>
    rw [hpc] at hpass
    cases n with
    | sender => exact absurd rfl hn
    | _ => cases hpass.1
  | _ =>
    rw [hpc] at hpass
    cases idle_of_passes hpass

/-- The node behind the queue takes the frame: it keeps it, or is done with it. -/
theorem Waiting.taken {n : Station} {k : Channel} (h : Waiting host ctx before handed p k tr s)
    (hin : n.input = some k) :
    ∃ es s', InHands host ctx before handed p n (tr ++ es) s' ∨
      (Running host ctx (before ++ [p]) handed (tr ++ es) s' ∧ (∀ k, Represents (s'.queue k) []) ∧
        (s'.node n).pc.idle = true ∧ Discards ctx p (n.process ctx).role) := by
  obtain ⟨hready, -⟩ := ready_of_role ((agrees_onLink h.run).roles n) hin
  have hrun1 := h.toRunning.snoc rfl rfl (.enter (h.pc n) h.go hready) h.go
  have hpc1 : ((s.setPc n .call).node n).pc = .call := by rw [State.setPc, node_setNode_self]
  have hrole1 := (agrees_onLink hrun1.run).roles n
  have hl := vlanTagger_lane ctx n
  rw [← hrole1] at hl
  obtain ⟨-, hns⟩ := ready_of_role hrole1 hin
  obtain ⟨packet, hrep, hc⟩ := h.front
  obtain ⟨buff, q, hpop, ⟨-, hbytes, -⟩, hrep'⟩ := hrep.pop_cons ((s.setPc n .call).node n).buffer
  have hgo : ((s.setPc n .call).setQueue k q |>.finish vlanTagger n
      (State.body host vlanTagger (s.setPc n .call) n 0 buff packet.bytes.length)).shouldExit =
        false := by
    show (s.shouldExit || Effect.stops _) = false
    rw [h.go, Bool.false_or]
    exact stops_body hns ..
  have hrun2 := hrun1.snoc rfl rfl (.take (k := k) 0 ⟨.inl hpc1, hns⟩ hin hpop) hgo
  have hempty : ∀ k', Represents (((s.setPc n .call).setQueue k q).queue k') [] := by
    intro k'
    by_cases hk : k' = k
    · subst hk
      rw [queue_setQueue_self]
      exact hrep'
    · rw [queue_setQueue_of_ne hk]
      exact h.others k' hk
  have hheld1 : (ledger (tr ++ [.enter n])).tokens.held (.queue k) = [before.length] := by
    rw [ledger_snoc]
    exact h.held
  have hnil := ((agrees_onLink hrun1.run).buffer n).nil_of_idle (by rw [hpc1]; rfl)
  have hwork := passes_or_discards host hl hns hin hc packet.length_pos packet.length_le hbytes 0
    (s.setPc n .call).shouldExit
    (e := (State.body host vlanTagger (s.setPc n .call) n 0 buff packet.bytes.length).effect) rfl
  rw [hrole1] at hwork
  rw [List.append_assoc] at hrun2
  rcases hwork with ⟨-, hidle, hdisc⟩ | ⟨hframe, -⟩
  · refine ⟨_, _, .inr ⟨hrun2, hempty, ?_, hdisc⟩⟩
    rw [pc_finish_self]
    exact hidle
  · refine ⟨_, _, .inl ⟨hrun2, fun m hm => ?_, hempty, ?_⟩⟩
    · rw [node_finish_of_ne hm]
      show ((s.setPc n .call).node m).pc = .test
      rw [State.setPc, node_setNode_of_ne hm, h.pc m]
    · rw [← List.append_assoc, ledger_snoc]
      simp only [Ledger.record, hframe, if_true]
      rw [Tokens.held_move_target hheld1 (by simp), hnil, List.nil_append]

/-- The sniffer captures the next frame and pushes it. -/
theorem Vacant.captures (h : Vacant host ctx before handed tr s)
    (hlen : 1 ≤ p.length ∧ p.length ≤ 1518) :
    ∃ es s', Waiting host ctx before handed p .dispatcher (tr ++ es) s' := by
  have hready : ready vlanTagger .sniffer (s.node .sniffer).process = true ∧
      (s.node .sniffer).process.isSniffer = true := by
    have hrole := (agrees_onLink h.run).roles .sniffer
    cases hp : (s.node .sniffer).process with
    | sniffer errCounter => exact ⟨rfl, rfl⟩
    | _ =>
      rw [hp] at hrole
      cases hrole
  have hrun1 := h.toRunning.snoc rfl rfl (.enter (n := .sniffer) (h.pc _) h.go hready.1) h.go
  have hpc1 : ((s.setPc .sniffer .call).node .sniffer).pc = .call := by
    rw [State.setPc, node_setNode_self]
  have hmax : p.length ≤ ethernetFrameLength := by
    show p.length ≤ 1522
    omega
  have hsniffer : ((s.setPc .sniffer .call).node .sniffer).process.isSniffer = true := by
    rw [State.setPc, node_setNode_self]
    exact hready.2
  have hrecv : Step host vlanTagger (s.setPc .sniffer .call) (.recv .sniffer p) _ :=
    .recv hpc1 hsniffer hmax
  have hrun2 := hrun1.run.snoc ⟨hrecv, fun n frame he => by cases he; exact hlen⟩
  have hnil := ((agrees_onLink hrun1.run).buffer .sniffer).nil_of_idle (by rw [hpc1]; rfl)
  have hheld : (ledger (tr ++ [.enter .sniffer] ++ [.recv .sniffer p])).tokens.held
      (.buffer .sniffer) = [before.length] := by
    rw [ledger_snoc]
    show ((ledger (tr ++ [.enter .sniffer])).tokens.issue p (.buffer .sniffer)).held _ = _
    rw [Tokens.held_issue_self, hnil, ledger_captured, hrun1.captured, List.nil_append]
  have hbusy := ((agrees_onLink hrun2).buffer .sniffer).busy_of_held hheld
  rw [pc_finish_self] at hbusy
  obtain ⟨s', hands⟩ : ∃ s', InHands host ctx before handed p .sniffer
      (tr ++ [.enter .sniffer] ++ [.recv .sniffer p]) s' := by
    refine ⟨_, ⟨hrun2, ?_, ?_, ?_⟩, fun m hm => ?_, fun k => h.empty k, hheld⟩
    · show (s.shouldExit || Effect.stops _) = false
      rw [h.go, Bool.false_or]
      exact stops_of_busy hbusy
    · rw [capturedFrames, List.filterMap_append, ← capturedFrames, hrun1.captured]
      rfl
    · rw [ledger_snoc]
      exact hrun1.handed
    · rw [node_finish_of_ne hm, State.setPc, node_setNode_of_ne hm]
      exact h.pc m
  obtain ⟨k, hk, e, s'', hw⟩ := hands.goes hlen (by decide)
  cases List.mem_singleton.mp hk
  rw [List.append_assoc, List.append_assoc] at hw
  exact ⟨_, s'', hw⟩

/-- A node before the sender passes a frame that has a tag on. -/
theorem Waiting.hop {f : List UInt8} {n : Station} {k : Channel}
    (h : Waiting host ctx before handed p k tr s) (htag : tagFrame ctx p = some f)
    (hlen : 1 ≤ p.length ∧ p.length ≤ 1518) (hin : n.input = some k) (hn : n ≠ .sender) :
    ∃ k' ∈ vlanTagger.outputs n, ∃ es s', Waiting host ctx before handed p k' (tr ++ es) s' := by
  obtain ⟨es, s', hands | ⟨-, -, -, hdisc⟩⟩ := h.taken hin
  · obtain ⟨k', hk', e, s'', hw⟩ := hands.goes hlen hn
    rw [List.append_assoc] at hw
    exact ⟨k', hk', _, s'', hw⟩
  · cases n with
    | tagger1 =>
      rw [show tagFrame ctx p = none from hdisc] at htag
      cases htag
    | tagger2 =>
      rw [show tagFrame ctx p = none from hdisc] at htag
      cases htag
    | sender => exact absurd rfl hn
    | _ => exact hdisc.elim

/-- A frame that has a tag gets through to the queue of the sender. -/
theorem Vacant.reaches_sender {f : List UInt8} (h : Vacant host ctx before handed tr s)
    (htag : tagFrame ctx p = some f) (hlen : p.length ≤ 1518) :
    ∃ es s', Waiting host ctx before handed p .sender (tr ++ es) s' ∧
      (before.length, .queue .packetCounter) ∈ (ledger (tr ++ es)).tokens.arrivals := by
  have hlen' : 1 ≤ p.length ∧ p.length ≤ 1518 := by
    have hmin := (length_tagFrame htag).1
    omega
  obtain ⟨es1, s1, hw⟩ := h.captures hlen'
  obtain ⟨k, hk, es2, s2, hw⟩ := hw.hop (n := .dispatcher) htag hlen' rfl (by decide)
  have hcounter : ∃ es3 s3,
      Waiting host ctx before handed p .packetCounter (tr ++ es1 ++ es2 ++ es3) s3 := by
    change k ∈ [Channel.tagger1, Channel.tagger2] at hk
    simp only [List.mem_cons, List.not_mem_nil, or_false] at hk
    rcases hk with rfl | rfl
    · obtain ⟨k', hk', es3, s3, hw⟩ := hw.hop (n := .tagger1) htag hlen' rfl (by decide)
      cases List.mem_singleton.mp hk'
      exact ⟨es3, s3, hw⟩
    · obtain ⟨k', hk', es3, s3, hw⟩ := hw.hop (n := .tagger2) htag hlen' rfl (by decide)
      cases List.mem_singleton.mp hk'
      exact ⟨es3, s3, hw⟩
  obtain ⟨es3, s3, hw⟩ := hcounter
  obtain ⟨k', hk', es4, s4, hw'⟩ := hw.hop (n := .packetCounter) htag hlen' rfl (by decide)
  cases List.mem_singleton.mp hk'
  have hcounted := arrivals_subset_append _ es4 hw.arrived
  simp only [List.append_assoc] at hw' hcounted
  exact ⟨_, s4, hw', hcounted⟩

/-- The sender is done with the frame: it neither waits nor is in the hands of the sender. -/
def SenderDone (tr : List (Event Station Channel)) (id : Nat) : Prop :=
  id ∉ (ledger tr).tokens.held (.queue .sender) ∧ id ∉ (ledger tr).tokens.held (.buffer .sender)

theorem senderDone_of_idle (hrun : (vlanTaggerOnLink host ctx).Run tr s)
    (hempty : Represents (s.queue .sender) []) (hidle : (s.node .sender).pc.idle = true) (id : Nat) :
    SenderDone tr id := by
  constructor
  · rw [held_of_empty hrun hempty]
    exact List.not_mem_nil
  · rw [((agrees_onLink hrun).buffer .sender).nil_of_idle hidle]
    exact List.not_mem_nil

/-- A sender that holds the frame hands it to `sendto`, and the network is empty again. -/
theorem InHands.sent (h : InHands host ctx before handed p .sender tr s) :
    ∃ f s', tagFrame ctx p = some f ∧
      Vacant host ctx (before ++ [p]) (handed ++ [(before.length, f)])
        (tr ++ [.sendto .sender f true]) s' := by
  have hrole := (agrees_onLink h.run).roles .sender
  have hpass := h.passes
  cases hp : (s.node .sender).process with
  | sender errCounter =>
    cases hpc : (s.node .sender).pc with
    | sendto buffer len =>
      rw [hpc] at hpass
      refine ⟨buffer.bytes len, _, hpass.2.1,
        ⟨h.run.snoc ⟨.sendto true hpc hp, nofun⟩, ?_, ?_, ?_⟩, fun m => ?_, h.empty⟩
      · show (s.shouldExit || false) = false
        rw [h.go]
        rfl
      · rw [capturedFrames, List.filterMap_append, ← capturedFrames, h.captured]
        exact List.append_nil _
      · rw [ledger_snoc, ← h.handed]
        simp only [Ledger.record, h.held]
        rfl
      · by_cases hm : m = .sender
        · subst hm
          rw [pc_finish_self]
          rfl
        · rw [node_finish_of_ne hm]
          exact h.pc m hm
    | send targets buffer size =>
      rw [hpc] at hpass
      obtain ⟨-, k, -, hk, -⟩ := hpass
      cases hk
    | dispatch k buffer size =>
      rw [hpc] at hpass
      cases hpass.2.1
    | _ =>
      rw [hpc] at hpass
      cases idle_of_passes hpass
  | _ =>
    rw [hp] at hrole
    cases hrole

/-- A frame that has a tag passes the whole network, whatever the sender does with it. -/
theorem passes_network {f : List UInt8} (host : ByteOrder) (htag : tagFrame ctx p = some f)
    (hlen : p.length ≤ 1518) :
    ∃ tr s, (vlanTaggerOnLink host ctx).Run tr s ∧ capturedFrames tr = [p] ∧
      (0, .queue .packetCounter) ∈ (ledger tr).tokens.arrivals ∧
      (0, .queue .sender) ∈ (ledger tr).tokens.arrivals ∧ SenderDone tr 0 := by
  obtain ⟨tr, s, hw, hcounter⟩ := (vacant_start host ctx).reaches_sender htag hlen
  obtain ⟨es, s', hands | ⟨hrun, hempty, hidle, -⟩⟩ := hw.taken (n := .sender) rfl
  · obtain ⟨g, s'', -, hvacant⟩ := hands.sent
    have hsub := arrivals_subset_append ([] ++ tr) (es ++ [.sendto .sender g true])
    rw [← List.append_assoc] at hsub
    exact ⟨_, s'', hvacant.run, hvacant.captured, hsub hcounter, hsub hw.arrived,
      senderDone_of_idle hvacant.run (hvacant.empty _) (by rw [hvacant.pc]; rfl) 0⟩
  · have hsub := arrivals_subset_append ([] ++ tr) es
    exact ⟨_, s', hrun.run, hrun.captured, hsub hcounter, hsub hw.arrived,
      senderDone_of_idle hrun.run (hempty _) hidle 0⟩

/-- An empty network hands the next frame, if it has a tag and is short enough for the sender,
to `sendto` in its tagged form, and is empty again. -/
theorem Vacant.serves {f : List UInt8} (h : Vacant host ctx before handed tr s)
    (htag : tagFrame ctx p = some f) (hshort : f.length < vlanEthFrameLen) :
    ∃ es s', Vacant host ctx (before ++ [p]) (handed ++ [(before.length, f)]) (tr ++ es) s' := by
  have hlen := (length_tagFrame htag).2
  obtain ⟨es1, s1, hw, -⟩ := h.reaches_sender htag (by change f.length < 1518 at hshort; omega)
  obtain ⟨es2, s2, hands | ⟨-, -, -, g, htag', hlong⟩⟩ := hw.taken (n := .sender) rfl
  · obtain ⟨g, s3, htag', hvacant⟩ := hands.sent
    rw [htag] at htag'
    cases htag'
    simp only [List.append_assoc] at hvacant ⊢
    exact ⟨_, s3, hvacant⟩
  · rw [htag] at htag'
    cases htag'
    exact absurd hshort (Nat.not_lt.mpr hlong)

end

/-! ## A frame of any size -/

/-- An IPv4 frame to 10.0.0.1 with `n` bytes behind its addresses. -/
def paddedFrame (n : Nat) : List UInt8 := ipv4Frame 10 0 0 1 ++ List.replicate n 0

theorem length_paddedFrame (n : Nat) : (paddedFrame n).length = 34 + n := by
  rw [paddedFrame, List.length_append, List.length_replicate]
  rfl

theorem etherType_paddedFrame (n : Nat) : etherType (paddedFrame n) = 0x0800 := by
  rw [paddedFrame, etherType_append (by decide)]
  rfl

theorem tagFrame_paddedFrame (n : Nat) :
    tagFrame oneRange (paddedFrame n) = some (insertTag (paddedFrame n) 7) := by
  have hdest : destination (paddedFrame n) = 0x0a000001 := by
    rw [paddedFrame, destination_append (by decide)]
    rfl
  have hshort : ¬ (paddedFrame n).length < ethHlen + ipHeaderMinLen := by
    rw [length_paddedFrame]
    show ¬ 34 + n < 34
    omega
  have htag : taggerNodeGetTag 0x0a000001 oneRange.tagRules = 7 := by decide
  have hvid : vlanIdOf 7 = 7 := by decide
  unfold tagFrame
  rw [if_neg, hdest, htag, if_neg (by decide), hvid]
  rw [etherType_paddedFrame, hdest]
  exact not_or.mpr ⟨hshort, by decide⟩

end VlanTagger.Pipeline
