import VlanTagger.Pipeline.Runtime

/-!
# Building a pipeline

pipeline/pipeline.c and pipeline/node.c, and the pattern of pipeline_patterns/patterns.c
that the program starts. Nodes and queues are named by the order in which they were
created. Every creation may fail, as `creates` says for the creations in their order;
a call that fails in the middle leaves behind what it has done so far. The `NULL` tests
of the arguments are left out, but for the targets of `pipeline_connect_shared`.
-/
namespace VlanTagger.Pipeline

open Lib Nodes

/-- `MAX_NODE_OUTPUTS` -/
def maxNodeOutputs : Nat := 16

/-- `MAX_PIPELINE_NODES` -/
def maxPipelineNodes : Nat := 32

/-- `MAX_PIPELINE_QUEUES` -/
def maxPipelineQueues : Nat := 64

/-- `Node`, with its context in `process`. -/
structure Node where
  inputQueue : Option Nat
  outputQueues : List Nat
  process : Process

/-- A `Pipeline` and the memory its pointers point to. -/
structure Graph where
  /-- the nodes that exist -/
  heap : List Node
  nodes : List Nat
  queueCount : Nat
  /-- the creations that were tried -/
  tried : Nat

/-- `pipeline_init` -/
def pipelineInit : Graph := ⟨[], [], 0, 0⟩

def Graph.update (g : Graph) (n : Nat) (f : Node → Node) : Graph :=
  { g with heap := g.heap.modify n f }

section

variable (creates : Nat → Bool)

/-- The creation functions of the nodes, down to `node_create`. -/
def nodeCreate (g : Graph) (process : Process) : Option Nat × Graph :=
  let g' := { g with tried := g.tried + 1 }
  if creates g.tried then (some g.heap.length, { g' with heap := g.heap ++ [⟨none, [], process⟩] })
  else (none, g')

def nodeAddOutput (g : Graph) (node outputQueue : Nat) : Int × Graph :=
  match g.heap[node]? with
  | none => (-1, g)
  | some n =>
    if maxNodeOutputs ≤ n.outputQueues.length then (-1, g)
    else (0, g.update node fun n => { n with outputQueues := n.outputQueues ++ [outputQueue] })

def nodeSetInput (g : Graph) (node inputQueue : Nat) : Int × Graph :=
  (0, g.update node fun n => { n with inputQueue := some inputQueue })

def pipelineAddNode (g : Graph) (node : Nat) : Int × Graph :=
  if maxPipelineNodes ≤ g.nodes.length then (-1, g)
  else (0, { g with nodes := g.nodes ++ [node] })

def pipelineCreateQueue (g : Graph) : Option Nat × Graph :=
  if maxPipelineQueues ≤ g.queueCount then (none, g)
  else
    let g' := { g with tried := g.tried + 1 }
    if creates g.tried then (some g.queueCount, { g' with queueCount := g.queueCount + 1 })
    else (none, g')

def pipelineConnect (g : Graph) (source target : Nat) : Int × Graph :=
  match g.heap[target]? with
  | none => (-1, g)
  | some toNode =>
    match toNode.inputQueue with
    | some queue => nodeAddOutput g source queue
    | none =>
      match pipelineCreateQueue creates g with
      | (none, g) => (-1, g)
      | (some queue, g) => nodeAddOutput (nodeSetInput g target queue).2 source queue

/-- The loop of `pipeline_connect_shared` over the targets, which skips those that are `NULL`. -/
def connectTargets (dispatcher : Nat) : Graph → List (Option Nat) → Int × Graph
  | g, [] => (0, g)
  | g, none :: toNodes => connectTargets dispatcher g toNodes
  | g, some target :: toNodes =>
    match pipelineConnect creates g dispatcher target with
    | (ret, g) => if ret ≠ 0 then (-1, g) else connectTargets dispatcher g toNodes

def pipelineConnectShared (g : Graph) (source : Nat) (toNodes : List (Option Nat)) : Int × Graph :=
  if toNodes = [] then (-1, g)
  else
    match nodeCreate creates g (.dispatcher (dispatcherNodeCreate .roundRobin)) with
    | (none, g) => (-1, g)
    | (some dispatcher, g) =>
      match pipelineAddNode g dispatcher with
      | (ret, g) =>
        if ret ≠ 0 then (-1, g)
        else
          match pipelineConnect creates g source dispatcher with
          | (ret, g) =>
            if ret ≠ 0 then (-1, g) else connectTargets creates dispatcher g toNodes

/-- The nodes of a pattern, created one after the other up to the first failure; `none`
stands for a node whose creation function refuses its arguments. -/
def createNodes (g : Graph) : List (Option Process) → Option (List Nat) × Graph
  | [] => (some [], g)
  | none :: _ => (none, g)
  | some p :: ps =>
    match nodeCreate creates g p with
    | (none, g) => (none, g)
    | (some n, g) =>
      match createNodes g ps with
      | (none, g) => (none, g)
      | (some ns, g) => (some (n :: ns), g)

/-- `vlan_tagger_pattern` with the rules in `tagRules`. The calls that add and connect
the nodes are made whatever the calls before them returned. -/
def vlanTaggerPattern (host : ByteOrder) (g : Graph) (tagRules : List ConfigParser.TagRule) :
    Int × Graph :=
  let tagger := (taggerNodeCreate host tagRules).map fun ctx => Process.tagger ctx fun _ => 0
  match createNodes creates g [some (.sniffer 0), tagger, tagger,
    some (.packetCounter packetCounterNodeCreate), some (.sender 0)] with
  | (some [sniffer, tagger1, tagger2, counter, sender], g) =>
    let g := (pipelineAddNode g sniffer).2
    let g := (pipelineAddNode g tagger1).2
    let g := (pipelineAddNode g tagger2).2
    let g := (pipelineAddNode g counter).2
    let g := (pipelineAddNode g sender).2
    let g := (pipelineConnectShared creates g sniffer [some tagger1, some tagger2]).2
    let g := (pipelineConnect creates g tagger1 counter).2
    let g := (pipelineConnect creates g tagger2 counter).2
    let g := (pipelineConnect creates g counter sender).2
    (0, g)
  | (_, g) => (1, g)

end

/-! ## The network of `vlan_tagger_pattern` -/

/-- The nodes in the order in which the pattern adds them. -/
inductive Station
  | sniffer
  | tagger1
  | tagger2
  | packetCounter
  | sender
  | dispatcher
  deriving DecidableEq

/-- The queues in the order of their creation, named by the node they are the input of. -/
inductive Channel
  | dispatcher
  | tagger1
  | tagger2
  | packetCounter
  | sender
  deriving DecidableEq

namespace Station

def all : List Station := [sniffer, tagger1, tagger2, packetCounter, sender, dispatcher]

/-- The place of the node in the memory. -/
def address : Station → Nat
  | sniffer => 0
  | tagger1 => 1
  | tagger2 => 2
  | packetCounter => 3
  | sender => 4
  | dispatcher => 5

def input : Station → Option Channel
  | sniffer => none
  | tagger1 => some .tagger1
  | tagger2 => some .tagger2
  | packetCounter => some .packetCounter
  | sender => some .sender
  | dispatcher => some .dispatcher

def outputs : Station → List Channel
  | sniffer => [.dispatcher]
  | tagger1 => [.packetCounter]
  | tagger2 => [.packetCounter]
  | packetCounter => [.sender]
  | sender => []
  | dispatcher => [.tagger1, .tagger2]

/-- The process that the pattern gives the node. -/
def process (ctx : TaggerContext) : Station → Process
  | sniffer => .sniffer 0
  | tagger1 => .tagger ctx fun _ => 0
  | tagger2 => .tagger ctx fun _ => 0
  | packetCounter => .packetCounter packetCounterNodeCreate
  | sender => .sender 0
  | dispatcher => .dispatcher (dispatcherNodeCreate .roundRobin)

end Station

namespace Channel

def all : List Channel := [dispatcher, tagger1, tagger2, packetCounter, sender]

def address : Channel → Nat
  | dispatcher => 0
  | tagger1 => 1
  | tagger2 => 2
  | packetCounter => 3
  | sender => 4

end Channel

/-- Sniffer -> Dispatcher -> {Tagger1, Tagger2} -> PacketCounter -> Sender -/
def vlanTagger : Topology Station Channel where
  nodes := Station.all
  queues := Channel.all
  input := Station.input
  outputs := Station.outputs
  mem_queues := by
    intro k
    cases k <;> decide
  input_injective := by
    intro n m k hn hm
    cases n <;> cases m <;> cases hn <;> first | rfl | cases hm

/-- The pipeline of this network: the nodes lie in memory in the order of `Station.all`. -/
def vlanTaggerGraph (ctx : TaggerContext) : Graph where
  heap := Station.all.map fun n => ⟨(vlanTagger.input n).map Channel.address,
    (vlanTagger.outputs n).map Channel.address, n.process ctx⟩
  nodes := vlanTagger.nodes.map Station.address
  queueCount := vlanTagger.queues.length
  tried := 11

/-- When every creation succeeds, the pattern builds exactly this network. -/
theorem vlanTaggerPattern_builds {creates : Nat → Bool} (hcreates : ∀ i, creates i = true)
    {host : ByteOrder} {tagRules : List ConfigParser.TagRule} {ctx : TaggerContext}
    (hctx : taggerNodeCreate host tagRules = some ctx) :
    vlanTaggerPattern creates host pipelineInit tagRules = (0, vlanTaggerGraph ctx) := by
  unfold vlanTaggerPattern
  rw [hctx]
  simp [createNodes, nodeCreate, pipelineAddNode, pipelineConnectShared, pipelineConnect,
    connectTargets, pipelineCreateQueue, nodeAddOutput, nodeSetInput, Graph.update, pipelineInit,
    hcreates, maxNodeOutputs, maxPipelineNodes, maxPipelineQueues]
  rfl

/-- The threads of the program, with the tagger context that both taggers got. -/
def vlanTaggerRuntime (host : ByteOrder) (ctx : TaggerContext) :
    System (State Station Channel) (Event Station Channel) :=
  runtime host vlanTagger (Station.process ctx)

/-- A start of the program with empty queues and zeroed buffers. -/
def vlanTaggerStart (ctx : TaggerContext) : State Station Channel where
  shouldExit := false
  queue := fun _ => Queue.init Queue.zeroed
  node := fun n => ⟨.test, fun _ => 0, n.process ctx⟩
  stop := .running

theorem vlanTaggerStart_initial (host : ByteOrder) (ctx : TaggerContext) :
    (vlanTaggerRuntime host ctx).init (vlanTaggerStart ctx) := by
  refine ⟨rfl, rfl, fun k => ⟨_, rfl⟩, fun n => ⟨rfl, fun _ => 0, ?_⟩⟩
  cases n <;> rfl

/-- 10.0.0.0/24 is tagged with VLAN 7. -/
def oneRange : TaggerContext := ⟨[⟨0x0a000000, 0x0a0000ff, 7⟩]⟩

end VlanTagger.Pipeline
