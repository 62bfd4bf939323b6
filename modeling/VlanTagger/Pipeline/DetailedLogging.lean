import VlanTagger.Pipeline.Flow
import VlanTagger.Pipeline.Graph

/-!
# The pattern with two loggers

The other pattern of pipeline_patterns/patterns.c and the network that it builds, in which
the sniffer and the collector copy every frame to several queues. What the loggers, the
counter and the wire get of the captured frames follows from the laws of any pipeline.
-/
namespace VlanTagger.Pipeline

open Lib Nodes Queue

/-- `detailed_logging_pattern` with the rules in `tagRules`. The calls that add and connect
the nodes are made whatever the calls before them returned. -/
def detailedLoggingPattern (creates : Nat → Bool) (host : ByteOrder) (g : Graph)
    (tagRules : List ConfigParser.TagRule) : Int × Graph :=
  let tagger := (taggerNodeCreate host tagRules).map fun ctx => Process.tagger ctx fun _ => 0
  match createNodes creates g [some (.sniffer 0), tagger, tagger, some .collector,
    some (.logger ⟨0⟩), some (.logger ⟨0⟩), some (.packetCounter packetCounterNodeCreate),
    some (.sender 0)] with
  | (some [sniffer, tagger1, tagger2, collector, logger1, logger2, counter, sender], g) =>
    let g := (pipelineAddNode g sniffer).2
    let g := (pipelineAddNode g tagger1).2
    let g := (pipelineAddNode g tagger2).2
    let g := (pipelineAddNode g collector).2
    let g := (pipelineAddNode g logger1).2
    let g := (pipelineAddNode g logger2).2
    let g := (pipelineAddNode g counter).2
    let g := (pipelineAddNode g sender).2
    let g := (pipelineConnectShared creates g sniffer [some tagger1, some tagger2]).2
    let g := (pipelineConnect creates g sniffer logger1).2
    let g := (pipelineConnect creates g tagger1 collector).2
    let g := (pipelineConnect creates g tagger2 collector).2
    let g := (pipelineConnect creates g collector sender).2
    let g := (pipelineConnect creates g collector logger2).2
    let g := (pipelineConnect creates g collector counter).2
    (0, g)
  | (_, g) => (1, g)

namespace DetailedLogging

/-- The nodes in the order in which the pattern adds them. -/
inductive Station
  | sniffer
  | tagger1
  | tagger2
  | collector
  | logger1
  | logger2
  | packetCounter
  | sender
  | dispatcher
  deriving DecidableEq

/-- The queues in the order of their creation, named by the node they are the input of. -/
inductive Channel
  | dispatcher
  | tagger1
  | tagger2
  | logger1
  | collector
  | sender
  | logger2
  | packetCounter
  deriving DecidableEq

namespace Station

def all : List Station :=
  [sniffer, tagger1, tagger2, collector, logger1, logger2, packetCounter, sender, dispatcher]

/-- The place of the node in the memory. -/
def address : Station → Nat
  | sniffer => 0
  | tagger1 => 1
  | tagger2 => 2
  | collector => 3
  | logger1 => 4
  | logger2 => 5
  | packetCounter => 6
  | sender => 7
  | dispatcher => 8

def input : Station → Option Channel
  | sniffer => none
  | tagger1 => some .tagger1
  | tagger2 => some .tagger2
  | collector => some .collector
  | logger1 => some .logger1
  | logger2 => some .logger2
  | packetCounter => some .packetCounter
  | sender => some .sender
  | dispatcher => some .dispatcher

def outputs : Station → List Channel
  | sniffer => [.dispatcher, .logger1]
  | tagger1 => [.collector]
  | tagger2 => [.collector]
  | collector => [.sender, .logger2, .packetCounter]
  | logger1 => []
  | logger2 => []
  | packetCounter => []
  | sender => []
  | dispatcher => [.tagger1, .tagger2]

/-- The process that the pattern gives the node. -/
def process (ctx : TaggerContext) : Station → Process
  | sniffer => .sniffer 0
  | tagger1 => .tagger ctx fun _ => 0
  | tagger2 => .tagger ctx fun _ => 0
  | collector => .collector
  | logger1 => .logger ⟨0⟩
  | logger2 => .logger ⟨0⟩
  | packetCounter => .packetCounter packetCounterNodeCreate
  | sender => .sender 0
  | dispatcher => .dispatcher (dispatcherNodeCreate .roundRobin)

end Station

namespace Channel

def all : List Channel :=
  [dispatcher, tagger1, tagger2, logger1, collector, sender, logger2, packetCounter]

def address : Channel → Nat
  | dispatcher => 0
  | tagger1 => 1
  | tagger2 => 2
  | logger1 => 3
  | collector => 4
  | sender => 5
  | logger2 => 6
  | packetCounter => 7

end Channel

/-- Sniffer -> Dispatcher -> {Tagger1, Tagger2} -> Collector -> {Sender, Logger2, PacketCounter},
and Sniffer -> Logger1 -/
def network : Topology Station Channel where
  nodes := Station.all
  queues := Channel.all
  input := Station.input
  outputs := Station.outputs
  mem_queues := by
    intro k
    cases k <;> decide
  input_injective := by
    intro n m k hn hm
    cases n <;> cases m <;> cases hn <;> first | rfl | cases hm

/-- The pipeline of this network: the nodes lie in memory in the order of `Station.all`. -/
def graph (ctx : TaggerContext) : Graph where
  heap := Station.all.map fun n => ⟨(network.input n).map Channel.address,
    (network.outputs n).map Channel.address, n.process ctx⟩
  nodes := network.nodes.map Station.address
  queueCount := network.queues.length
  tried := 17

/-- The threads of the pattern, with the tagger context that both taggers got. -/
def threads (host : ByteOrder) (ctx : TaggerContext) :
    System (State Station Channel) (Event Station Channel) :=
  runtime host network (Station.process ctx)

/-- A start with empty queues and zeroed buffers. -/
def start (ctx : TaggerContext) : State Station Channel where
  shouldExit := false
  queue := fun _ => Queue.init Queue.zeroed
  node := fun n => ⟨.test, fun _ => 0, n.process ctx⟩
  stop := .running

theorem start_initial (host : ByteOrder) (ctx : TaggerContext) :
    (threads host ctx).init (start ctx) := by
  refine ⟨rfl, rfl, fun k => ⟨_, rfl⟩, fun n => ⟨rfl, fun _ => 0, ?_⟩⟩
  cases n <;> rfl

end DetailedLogging

/-- When every creation succeeds, the pattern builds exactly this network. -/
theorem detailedLoggingPattern_builds {creates : Nat → Bool} (hcreates : ∀ i, creates i = true)
    {host : ByteOrder} {tagRules : List ConfigParser.TagRule} {ctx : TaggerContext}
    (hctx : taggerNodeCreate host tagRules = some ctx) :
    detailedLoggingPattern creates host pipelineInit tagRules = (0, DetailedLogging.graph ctx) := by
  unfold detailedLoggingPattern
  rw [hctx]
  simp [createNodes, nodeCreate, pipelineAddNode, pipelineConnectShared, pipelineConnect,
    connectTargets, pipelineCreateQueue, nodeAddOutput, nodeSetInput, Graph.update, pipelineInit,
    hcreates, maxNodeOutputs, maxPipelineNodes, maxPipelineQueues]
  rfl

namespace DetailedLogging

section

variable {host : ByteOrder} {ctx : TaggerContext} {tr : List (Event Station Channel)}
  {s : State Station Channel}

/-- No node of the network passes a frame twice to one queue. -/
theorem spread_queue (n : Station) (k : Channel) :
    Spread network (n.process ctx).role n fun p => p = .queue k := by
  refine .inr (.inr ?_)
  have hcount : ∀ n k, ((network.outputs n).map Port.queue).countP (fun p => p = .queue k) ≤ 1 := by
    intro n k
    cases n <;> cases k <;> decide
  exact hcount n k

/-- The only producer of a queue, or those of the collector. -/
theorem producer {k : Channel} {n m : Station} (hk : k ≠ .collector) (hn : k ∈ network.outputs n)
    (hm : k ∈ network.outputs m) : m = n := by
  cases n <;> cases m <;> first | rfl | (cases k <;> revert hk hn hm <;> decide)

/-- What a node with one producer behind its queue has got. -/
theorem got_of_producer (h : (threads host ctx).Run tr s) {n m : Station} {k : Channel}
    (hk : k ≠ .collector) (hin : network.input n = some k)
    (hns : (n.process ctx).role ≠ .sniffer) (hm : k ∈ network.outputs m) :
    ((traffic network tr).got n).Sublist ((traffic network tr).made m) := by
  have hfollows := follows_run h
  exact (hfollows.got_sublist hin hns).trans
    (hfollows.accepted_sublist (fun m' hm' => producer hk hm hm') (spread_queue m k))

theorem made_sniffer (h : (threads host ctx).Run tr s) :
    (traffic network tr).made .sniffer = receivedBy .sniffer tr := by
  rw [(follows_run h).made_same (n := .sniffer) fun p out hw => hw]
  exact got_sniffer h rfl

/-- Both taggers together get a part of the captured frames. -/
theorem got_taggers (h : (threads host ctx).Run tr s) :
    ((traffic network tr).got .tagger1 ++ (traffic network tr).got .tagger2).Subperm
      (receivedBy .sniffer tr) := by
  have hfollows := follows_run h
  have hpool : [Channel.tagger1, .tagger2].Nodup := by decide
  have hspread := hfollows.spread_subperm (n := .dispatcher) hpool
    (fun m k hk hm => by
      rcases List.mem_cons.mp hk with rfl | hk
      · exact producer (by decide) (by decide) hm
      · rw [List.mem_singleton] at hk
        subst hk
        exact producer (by decide) (by decide) hm)
    ⟨_, rfl⟩
  have hboth : ((traffic network tr).got .tagger1 ++ (traffic network tr).got .tagger2).Sublist
      (([Channel.tagger1, Channel.tagger2].map Port.queue).flatMap (traffic network tr).accepted) := by
    have h1 := hfollows.got_sublist (n := .tagger1) (k := .tagger1) rfl (by simp [Station.process, Process.role])
    have h2 := hfollows.got_sublist (n := .tagger2) (k := .tagger2) rfl (by simp [Station.process, Process.role])
    simpa using h1.append h2
  have hmade : (traffic network tr).made .dispatcher = (traffic network tr).got .dispatcher :=
    hfollows.made_same fun p out hw => hw
  have hdispatcher := got_of_producer h (n := .dispatcher) (m := .sniffer) (k := .dispatcher)
    (by decide) rfl (by simp [Station.process, Process.role]) (by decide)
  rw [made_sniffer h] at hdispatcher
  rw [hmade] at hspread
  exact hboth.subperm.trans (hspread.trans hdispatcher.subperm)

theorem made_tagger (h : (threads host ctx).Run tr s) {n : Station}
    (hn : n = .tagger1 ∨ n = .tagger2) :
    (traffic network tr).made n = ((traffic network tr).got n).filterMap (tagFrame ctx) := by
  rcases hn with rfl | rfl
  · exact (follows_run h).made_filterMap fun p out hw => hw
  · exact (follows_run h).made_filterMap fun p out hw => hw

/-- The collector gets a part of the tagged captured frames. -/
theorem got_collector (h : (threads host ctx).Run tr s) :
    ((traffic network tr).got .collector).Subperm
      ((receivedBy .sniffer tr).filterMap (tagFrame ctx)) := by
  have hfollows := follows_run h
  have hpool : [Station.tagger1, .tagger2].Nodup := by decide
  have hall : ∀ m, Channel.collector ∈ network.outputs m → m ∈ [Station.tagger1, .tagger2] := by
    intro m
    cases m <;> decide
  have haccepted := hfollows.accepted_subperm hpool hall fun n _ => spread_queue n .collector
  have hgot := hfollows.got_sublist (n := .collector) (k := .collector) rfl
    (by simp [Station.process, Process.role])
  have hmade : [Station.tagger1, .tagger2].flatMap (traffic network tr).made =
      ((traffic network tr).got .tagger1 ++ (traffic network tr).got .tagger2).filterMap
        (tagFrame ctx) := by
    rw [List.filterMap_append, ← made_tagger h (.inl rfl), ← made_tagger h (.inr rfl)]
    simp
  rw [hmade] at haccepted
  obtain ⟨taggers, hperm, hsub⟩ := got_taggers h
  exact hgot.subperm.trans (haccepted.trans
    ⟨_, hperm.filterMap (tagFrame ctx), hsub.filterMap (tagFrame ctx)⟩)

/-- What a tagger puts into the collector's queue, in the order of capture. -/
theorem sent_tagger (h : (threads host ctx).Run tr s) {n : Station}
    (hn : n = .tagger1 ∨ n = .tagger2) :
    ((traffic network tr).sentTo n fun p => p = .queue .collector).Sublist
      ((receivedBy .sniffer tr).filterMap (tagFrame ctx)) := by
  have hfollows := follows_run h
  have hsent := (hfollows.once n _ (spread_queue n .collector)).sentTo_sublist
  rw [made_tagger h hn] at hsent
  refine hsent.trans (List.Sublist.filterMap _ ?_)
  have hdispatcher := got_of_producer h (n := .dispatcher) (m := .sniffer) (k := .dispatcher)
    (by decide) rfl (by simp [Station.process, Process.role]) (by decide)
  have hmade : (traffic network tr).made .dispatcher = (traffic network tr).got .dispatcher :=
    hfollows.made_same fun p out hw => hw
  rw [made_sniffer h] at hdispatcher
  rcases hn with rfl | rfl
  · have hgot := got_of_producer h (n := .tagger1) (m := .dispatcher) (k := .tagger1)
      (by decide) rfl (by simp [Station.process, Process.role]) (by decide)
    rw [hmade] at hgot
    exact hgot.trans hdispatcher
  · have hgot := got_of_producer h (n := .tagger2) (m := .dispatcher) (k := .tagger2)
      (by decide) rfl (by simp [Station.process, Process.role]) (by decide)
    rw [hmade] at hgot
    exact hgot.trans hdispatcher

/-- What a node behind the collector gets. -/
theorem got_behind_collector (h : (threads host ctx).Run tr s) {n : Station}
    (hn : n = .sender ∨ n = .logger2 ∨ n = .packetCounter) :
    ((traffic network tr).got n).Sublist ((traffic network tr).got .collector) := by
  have hcollector : (traffic network tr).made .collector = (traffic network tr).got .collector :=
    (follows_run h).made_same fun p out hw => hw
  rw [← hcollector]
  rcases hn with rfl | rfl | rfl
  · exact got_of_producer h (k := .sender) (by decide) rfl
      (by simp [Station.process, Process.role]) (by decide)
  · exact got_of_producer h (k := .logger2) (by decide) rfl
      (by simp [Station.process, Process.role]) (by decide)
  · exact got_of_producer h (k := .packetCounter) (by decide) rfl
      (by simp [Station.process, Process.role]) (by decide)

/-- What the first logger gets. -/
theorem got_logger1 (h : (threads host ctx).Run tr s) :
    ((traffic network tr).got .logger1).Sublist (receivedBy .sniffer tr) := by
  rw [← made_sniffer h]
  exact got_of_producer h (n := .logger1) (k := .logger1) (by decide) rfl
    (by simp [Station.process, Process.role]) (by decide)

/-- The pattern builds this network when every creation succeeds. Whatever queues are full and in
whatever order the threads go on then: the first logger gets a part of the captured frames, the
collector a part of their tagged forms, each of them once and in the order of capture through one
tagger, and behind the collector a node gets a part of what the collector got, of which the
short frames go to the wire. -/
theorem detailed_logging_flow (h : (threads host ctx).Run tr s) :
    (∀ creates tagRules, (∀ i, creates i = true) → taggerNodeCreate host tagRules = some ctx →
        detailedLoggingPattern creates host pipelineInit tagRules = (0, graph ctx)) ∧
      ((traffic network tr).got .logger1).Sublist (receivedBy .sniffer tr) ∧
      ((traffic network tr).got .collector).Subperm
        ((receivedBy .sniffer tr).filterMap (tagFrame ctx)) ∧
      (∀ n, n = .tagger1 ∨ n = .tagger2 →
        ((traffic network tr).sentTo n fun p => p = .queue .collector).Sublist
          ((receivedBy .sniffer tr).filterMap (tagFrame ctx))) ∧
      (∀ n, n = .sender ∨ n = .logger2 ∨ n = .packetCounter →
        ((traffic network tr).got n).Sublist ((traffic network tr).got .collector)) ∧
      (wiredBy .sender tr).Sublist
        (((traffic network tr).got .sender).filter fun f => f.length < vlanEthFrameLen) := by
  have hfollows := follows_run h
  refine ⟨fun _ _ hcreates hctx => detailedLoggingPattern_builds hcreates hctx, got_logger1 h,
    got_collector h, fun n hn => sent_tagger h hn, fun n hn => got_behind_collector h hn, ?_⟩
  · have hmade : (traffic network tr).made .sender =
        ((traffic network tr).got .sender).filterMap fun p =>
          if vlanEthFrameLen ≤ p.length then none else some p :=
      hfollows.made_filterMap fun p out hw => hw
    have hshort : (((traffic network tr).got .sender).filterMap fun p =>
        if vlanEthFrameLen ≤ p.length then none else some p) =
        ((traffic network tr).got .sender).filter fun f => f.length < vlanEthFrameLen := by
      rw [← List.filterMap_eq_filter]
      refine List.filterMap_congr fun p _ => ?_
      by_cases hlong : vlanEthFrameLen ≤ p.length
      · simp [Option.guard, hlong]
      · simp [Option.guard, hlong]
    rw [← sentTo_wire h, ← hshort, ← hmade]
    exact (hfollows.once .sender _ (.inr (.inl rfl))).sentTo_sublist

/-- Two frames are captured, copied to the dispatcher and to the first logger, and logged. -/
theorem logger1_takes :
    ∃ tr s, (threads .little oneRange).Run tr s ∧ receivedBy .sniffer tr = [[1, 2, 3], [4, 5]] ∧
      (traffic network tr).got .logger1 = [[1, 2, 3], [4, 5]] ∧ (s.node .logger1).pc = .test := by
  have h0 := System.Run.start (start_initial .little oneRange)
  have h1 := h0.snoc (.enter (n := .sniffer) rfl rfl rfl)
  have h2 := h1.snoc (@Step.recv _ _ _ _ _ _ _ .sniffer [1, 2, 3] rfl rfl (by decide))
  have h3 := h2.snoc (@Step.push _ _ _ _ _ _ _ .sniffer .dispatcher _ _ _ _ _ rfl rfl)
  have h4 := h3.snoc (@Step.push _ _ _ _ _ _ _ .sniffer .logger1 _ _ _ _ _ rfl rfl)
  have h5 := h4.snoc (.enter (n := .sniffer) rfl rfl rfl)
  have h6 := h5.snoc (@Step.recv _ _ _ _ _ _ _ .sniffer [4, 5] rfl rfl (by decide))
  have h7 := h6.snoc (@Step.push _ _ _ _ _ _ _ .sniffer .dispatcher _ _ _ _ _ rfl rfl)
  have h8 := h7.snoc (@Step.push _ _ _ _ _ _ _ .sniffer .logger1 _ _ _ _ _ rfl rfl)
  have h9 := h8.snoc (.enter (n := .logger1) rfl rfl rfl)
  have h10 := h9.snoc (@Step.take _ _ _ _ _ _ _ .logger1 .logger1 _ _ _ 0 ⟨.inl rfl, rfl⟩ rfl rfl)
  have h11 := h10.snoc (.enter (n := .logger1) rfl rfl rfl)
  have h12 := h11.snoc (@Step.take _ _ _ _ _ _ _ .logger1 .logger1 _ _ _ 0 ⟨.inl rfl, rfl⟩ rfl rfl)
  exact ⟨_, _, h12, rfl, rfl, rfl⟩

/-- The pattern for one rule, and two frames that the first logger has taken. -/
theorem detailed_logging_flow_two :
    detailedLoggingPattern (fun _ => true) .little pipelineInit [⟨0x0000000a, 0xff00000a, 7⟩] =
        (0, graph oneRange) ∧
      ∃ tr s, (threads .little oneRange).Run tr s ∧
        receivedBy .sniffer tr = [[1, 2, 3], [4, 5]] ∧
        (traffic network tr).got .logger1 = [[1, 2, 3], [4, 5]] ∧
        ((traffic network tr).got .logger1).Sublist (receivedBy .sniffer tr) := by
  obtain ⟨tr, s, hrun, hreceived, hgot, -⟩ := logger1_takes
  have hflow := detailed_logging_flow hrun
  exact ⟨hflow.1 _ _ (fun _ => rfl) rfl, tr, s, hrun, hreceived, hgot, hflow.2.1⟩

end

end DetailedLogging

end VlanTagger.Pipeline
