import VlanTagger.Lib.Ownership
import VlanTagger.Pipeline.DetailedLogging

/-!
# The memory, the sockets and the log of a pipeline

The same functions of pipeline/, pipeline_patterns/ and nodes/src as in the graph of a
pipeline, with each request they make to the operating system: `calloc`, `malloc`, `socket`,
`ioctl`, `bind`, `fopen` and the `init` of a queue or a mutex may each be refused, and every
block, socket and file that they give back or write to has to be held. Pointers to nodes and queues
are numbers as in the graph; what each stands for is kept beside it. Left out are the names of the
nodes and the interval of a logger, which only the log shows, the `NULL` tests of the arguments, the
accesses to the `Pipeline` itself, and the lines that other functions than `main` and
`fill_tag_rules` log, all between `start_log` and `stop_log`.
-/
namespace VlanTagger.Pipeline.Allocation

open Lib Nodes

inductive Kind
  | pipeline
  | nodes
  | queues
  | queue
  | node
  | outputQueues
  | context
  | tagRules
  | socket
  | log
  deriving DecidableEq

/-- The answers of the operating system, by the number of the request. -/
structure OperatingSystem where
  grants : Nat → Bool
  /-- the index that `ioctl(SIOCGIFINDEX)` finds for a name, if it does not fail -/
  ifIndex : Nat → CString → Option Int

/-- `file` and `mutex` of the logger; the mutex is of use once it was initialised. -/
structure Log where
  file : Option (HandleOf Kind.log)
  mutex : Bool

/-- The descriptor of a socket and `sll_ifindex` of its address. -/
structure PacketSocket where
  fd : HandleOf Kind.socket
  ifIndex : Int

/-- The context of a node, with what its fields own. -/
structure ContextBlocks where
  block : HandleOf Kind.context
  tagRules : Option (HandleOf Kind.tagRules)
  /-- the socket, until it is closed -/
  socket : Option PacketSocket

structure NodeBlocks where
  block : HandleOf Kind.node
  outputQueues : HandleOf Kind.outputQueues
  context : Option ContextBlocks

/-- A node that was created, and whether `node_destroy` was called on it. -/
structure Cell where
  node : Node
  blocks : NodeBlocks
  destroyed : Bool

/-- A `Pipeline`, with every node that was created. `self` is none for an object that is not
on the heap; the queues are in the order of their creation. -/
structure PipelineBlocks where
  self : Option (HandleOf Kind.pipeline)
  nodesArray : Option (HandleOf Kind.nodes)
  queuesArray : Option (HandleOf Kind.queues)
  heap : List Cell
  nodes : List Nat
  queues : List (HandleOf Kind.queue)

/-- What a creation function of a node returns, with the process and its context. -/
abbrev Creation := Program Kind (Option (Process × NodeBlocks))

/-- The clean-up of a function that fails, and `NULL`. -/
def clearAndExit {α : Type} (hs : List (Handle Kind)) : Program Kind (Option α) := do
  releaseAll hs
  return none

/-! ## The log -/

section

variable (os : OperatingSystem)

def startLog : Program Kind (Int × Log) := do
  match ← acquire os.grants .log with
  | none => return (-1, ⟨none, false⟩)
  | some file => if ← ask os.grants then return (0, ⟨some file, true⟩) else return (-1, ⟨some file, false⟩)

/-- The mutex is locked or destroyed. -/
def Log.useMutex (log : Log) : Program Kind Unit := if log.mutex then return () else undefined

/-- The accesses of a `printL` whose `get_time` has succeeded. -/
def printL (log : Log) : Program Kind Unit := do
  log.useMutex
  deref log.file

/-- The file is closed whatever `fclose` returns. -/
def stopLog (log : Log) : Program Kind Int := do
  match log.file with
  | none => undefined
  | some file => do
    release file.val
    if ← ask os.grants then do
      log.useMutex
      if ← ask os.grants then return 0 else return -1
    else return -1

end

/-! ## The nodes -/

/-- `IFNAMSIZ` -/
def ifNameSize : Nat := 16

section

variable (os : OperatingSystem)

def setupPacketSocket (devName : CString) : Program Kind (Option PacketSocket) := do
  if ifNameSize ≤ devName.length ∨ devName.length < 1 then return none
  else
    match ← acquire os.grants .socket with
    | none => return none
    | some fd =>
      match ← ask fun i => os.ifIndex i devName with
      | none => clearAndExit [fd.val]
      | some ifIndex =>
        if ifIndex = 0 then clearAndExit [fd.val]
        else if ← ask os.grants then return some ⟨fd, ifIndex⟩
        else clearAndExit [fd.val]

def nodeCreate (process : Process) (context : Option ContextBlocks) : Creation := do
  match ← acquire os.grants .node with
  | none => return none
  | some node =>
    match ← acquire os.grants .outputQueues with
    | none => clearAndExit [node.val]
    | some outputQueues => return some (process, ⟨node, outputQueues, context⟩)

/-- The creation functions whose context owns nothing. -/
def contextNodeCreate (process : Process) : Creation := do
  match ← acquire os.grants .context with
  | none => return none
  | some ctx =>
    match ← nodeCreate os process (some ⟨ctx, none, none⟩) with
    | none => clearAndExit [ctx.val]
    | some node => return some node

def packetCounterNodeCreate (logInterval : Int) : Creation :=
  if logInterval ≤ 0 then return none
  else contextNodeCreate os (.packetCounter Nodes.packetCounterNodeCreate)

def loggerNodeCreate : Creation := contextNodeCreate os (.logger ⟨0⟩)

def dispatcherNodeCreate (strategy : DispatchStrategy) : Creation :=
  contextNodeCreate os (.dispatcher (Nodes.dispatcherNodeCreate strategy))

def collectorNodeCreate : Creation := nodeCreate os .collector none

/-- The tests of the arguments and the copy of the rules are those of the tagger's context. -/
def taggerNodeCreate (host : ByteOrder) (tagRules : List ConfigParser.TagRule) : Creation := do
  match Nodes.taggerNodeCreate host tagRules with
  | none => return none
  | some taggerContext =>
    match ← acquire os.grants .context with
    | none => return none
    | some ctx =>
      match ← acquire os.grants .tagRules with
      | none => clearAndExit [ctx.val]
      | some rules =>
        match ← nodeCreate os (.tagger taggerContext fun _ => 0) (some ⟨ctx, some rules, none⟩) with
        | none => clearAndExit [rules.val, ctx.val]
        | some node => return some node

/-- `sniffer_node_create` and `sender_node_create`. A socket that was not set up is -1 and not
closed. -/
def socketNodeCreate (process : Process) (devName : CString) : Creation := do
  match ← acquire os.grants .context with
  | none => return none
  | some ctx =>
    match ← setupPacketSocket os devName with
    | none => clearAndExit [ctx.val]
    | some socket =>
      match ← nodeCreate os process (some ⟨ctx, none, some socket⟩) with
      | none => clearAndExit [socket.fd.val, ctx.val]
      | some node => return some node

def snifferNodeCreate (devName : CString) : Creation := socketNodeCreate os (.sniffer 0) devName

def senderNodeCreate (devName : CString) : Creation := socketNodeCreate os (.sender 0) devName

end

namespace PipelineBlocks

def update (P : PipelineBlocks) (n : Nat) (f : Cell → Cell) : PipelineBlocks :=
  { P with heap := P.heap.modify n f }

def updateNode (P : PipelineBlocks) (n : Nat) (f : Node → Node) : PipelineBlocks :=
  P.update n fun cell => { cell with node := f cell.node }

/-- The pointer to a node is followed. -/
def accessNode (P : PipelineBlocks) (n : Nat) : Program Kind Cell :=
  match P.heap[n]? with
  | none => undefined
  | some cell => do
    access cell.blocks.block.val
    return cell

/-- A node that a creation function has returned. -/
def add (P : PipelineBlocks) (process : Process) (blocks : NodeBlocks) : PipelineBlocks :=
  { P with heap := P.heap ++ [⟨⟨none, [], process⟩, blocks, false⟩] }

end PipelineBlocks

def nodeDestroy (P : PipelineBlocks) (node : Nat) : Program Kind PipelineBlocks := do
  let cell ← P.accessNode node
  release cell.blocks.outputQueues.val
  release cell.blocks.block.val
  return P.update node fun cell => { cell with destroyed := true }

def nodeAddOutput (P : PipelineBlocks) (node outputQueue : Nat) : Program Kind (Int × PipelineBlocks) := do
  let cell ← P.accessNode node
  if maxNodeOutputs ≤ cell.node.outputQueues.length then return (-1, P)
  else do
    access cell.blocks.outputQueues.val
    return (0, P.updateNode node fun n => { n with outputQueues := n.outputQueues ++ [outputQueue] })

def nodeSetInput (P : PipelineBlocks) (node inputQueue : Nat) : Program Kind (Int × PipelineBlocks) := do
  let _ ← P.accessNode node
  return (0, P.updateNode node fun n => { n with inputQueue := some inputQueue })

/-! ## The pipeline -/

def pipelineAddNode (P : PipelineBlocks) (node : Nat) : Program Kind (Int × PipelineBlocks) := do
  if maxPipelineNodes ≤ P.nodes.length then return (-1, P)
  else do
    deref P.nodesArray
    let _ ← P.accessNode node
    return (0, { P with nodes := P.nodes ++ [node] })

section

variable (os : OperatingSystem)

/-- `pipeline_init`; when it fails, `nodes` and `queues` keep the pointers. -/
def pipelineInit (P : PipelineBlocks) : Program Kind (Int × PipelineBlocks) := do
  let nodesArray ← acquire os.grants .nodes
  let queuesArray ← acquire os.grants .queues
  if nodesArray = none ∨ queuesArray = none then do
    free nodesArray
    free queuesArray
    return (1, { P with nodesArray := nodesArray, queuesArray := queuesArray })
  else return (0, { P with nodesArray := nodesArray, queuesArray := queuesArray, nodes := [], queues := [] })

def pipelineCreateQueue (P : PipelineBlocks) : Program Kind (Option Nat × PipelineBlocks) := do
  if maxPipelineQueues ≤ P.queues.length then return (none, P)
  else
    match ← acquire os.grants .queue with
    | none => return (none, P)
    | some queue =>
      if ← ask os.grants then do
        deref P.queuesArray
        return (some P.queues.length, { P with queues := P.queues ++ [queue] })
      else do
        release queue.val
        return (none, P)

def pipelineConnect (P : PipelineBlocks) (source target : Nat) : Program Kind (Int × PipelineBlocks) := do
  let toCell ← P.accessNode target
  match toCell.node.inputQueue with
  | some queue => nodeAddOutput P source queue
  | none =>
    match ← pipelineCreateQueue os P with
    | (none, P) => return (-1, P)
    | (some queue, P) => do
      let (_, P) ← nodeSetInput P target queue
      nodeAddOutput P source queue

/-- The loop of `pipeline_connect_shared` over the targets, which skips those that are `NULL`. -/
def connectTargets (dispatcher : Nat) : PipelineBlocks → List (Option Nat) → Program Kind (Int × PipelineBlocks)
  | P, [] => return (0, P)
  | P, none :: toNodes => connectTargets dispatcher P toNodes
  | P, some target :: toNodes => do
    let (ret, P) ← pipelineConnect os P dispatcher target
    if ret ≠ 0 then return (-1, P) else connectTargets dispatcher P toNodes

/-- `pipeline_connect_shared` behind the creation of its dispatcher. -/
def connectDispatcher (P : PipelineBlocks) (source dispatcher : Nat) (toNodes : List (Option Nat)) :
    Program Kind (Int × PipelineBlocks) := do
  let (ret, P) ← pipelineAddNode P dispatcher
  if ret ≠ 0 then do
    let P ← nodeDestroy P dispatcher
    return (-1, P)
  else do
    let (ret, P) ← pipelineConnect os P source dispatcher
    if ret ≠ 0 then return (-1, P) else connectTargets os dispatcher P toNodes

def pipelineConnectShared (P : PipelineBlocks) (source : Nat) (toNodes : List (Option Nat)) :
    Program Kind (Int × PipelineBlocks) := do
  if toNodes = [] then return (-1, P)
  else
    match ← dispatcherNodeCreate os .roundRobin with
    | none => return (-1, P)
    | some (process, blocks) => connectDispatcher os (P.add process blocks) source P.heap.length toNodes

/-- The nodes of a pattern, created one after the other up to the first failure, and whether
that is all of them. -/
def createNodes (P : PipelineBlocks) : List Creation → Program Kind ((Bool × List Nat) × PipelineBlocks)
  | [] => return ((true, []), P)
  | create :: rest => do
    match ← create with
    | none => return ((false, []), P)
    | some (process, blocks) => do
      let ((complete, nodes), P') ← createNodes (P.add process blocks) rest
      return ((complete, P.heap.length :: nodes), P')

/-- The calls of `node_destroy` at the end of a pattern that fails. -/
def destroyNodes (P : PipelineBlocks) : List Nat → Program Kind PipelineBlocks
  | [] => return P
  | node :: nodes => do
    let P ← nodeDestroy P node
    destroyNodes P nodes

def vlanTaggerPattern (host : ByteOrder) (P : PipelineBlocks) (srcDevName dstDevName : CString)
    (tagRules : List ConfigParser.TagRule) : Program Kind (Int × PipelineBlocks) := do
  match ← createNodes P [snifferNodeCreate os srcDevName, taggerNodeCreate os host tagRules,
    taggerNodeCreate os host tagRules, packetCounterNodeCreate os 10, senderNodeCreate os dstDevName] with
  | ((true, [sniffer, tagger1, tagger2, counter, sender]), P) => do
    let (_, P) ← pipelineAddNode P sniffer
    let (_, P) ← pipelineAddNode P tagger1
    let (_, P) ← pipelineAddNode P tagger2
    let (_, P) ← pipelineAddNode P counter
    let (_, P) ← pipelineAddNode P sender
    let (_, P) ← pipelineConnectShared os P sniffer [some tagger1, some tagger2]
    let (_, P) ← pipelineConnect os P tagger1 counter
    let (_, P) ← pipelineConnect os P tagger2 counter
    let (_, P) ← pipelineConnect os P counter sender
    return (0, P)
  | ((_, created), P) => do
    let P ← destroyNodes P created
    return (1, P)

def detailedLoggingPattern (host : ByteOrder) (P : PipelineBlocks) (srcDevName dstDevName : CString)
    (tagRules : List ConfigParser.TagRule) : Program Kind (Int × PipelineBlocks) := do
  match ← createNodes P [snifferNodeCreate os srcDevName, taggerNodeCreate os host tagRules,
    taggerNodeCreate os host tagRules, collectorNodeCreate os, loggerNodeCreate os, loggerNodeCreate os,
    packetCounterNodeCreate os 10, senderNodeCreate os dstDevName] with
  | ((true, [sniffer, tagger1, tagger2, collector, logger1, logger2, counter, sender]), P) => do
    let (_, P) ← pipelineAddNode P sniffer
    let (_, P) ← pipelineAddNode P tagger1
    let (_, P) ← pipelineAddNode P tagger2
    let (_, P) ← pipelineAddNode P collector
    let (_, P) ← pipelineAddNode P logger1
    let (_, P) ← pipelineAddNode P logger2
    let (_, P) ← pipelineAddNode P counter
    let (_, P) ← pipelineAddNode P sender
    let (_, P) ← pipelineConnectShared os P sniffer [some tagger1, some tagger2]
    let (_, P) ← pipelineConnect os P sniffer logger1
    let (_, P) ← pipelineConnect os P tagger1 collector
    let (_, P) ← pipelineConnect os P tagger2 collector
    let (_, P) ← pipelineConnect os P collector sender
    let (_, P) ← pipelineConnect os P collector logger2
    let (_, P) ← pipelineConnect os P collector counter
    return (0, P)
  | ((_, created), P) => do
    let P ← destroyNodes P created
    return (1, P)

end

/-! ## The end -/

/-- The socket is not open any more. -/
def NodeBlocks.closed (b : NodeBlocks) : NodeBlocks :=
  { b with context := b.context.map fun ctx => { ctx with socket := none } }

/-- `close(ctx->socket)` -/
def closeSocket (P : PipelineBlocks) (node : Nat) : Program Kind PipelineBlocks := do
  let cell ← P.accessNode node
  match cell.blocks.context with
  | none => undefined
  | some ctx =>
    match ctx.socket with
    | none => undefined
    | some socket => do
      release socket.fd.val
      return P.update node fun cell => { cell with blocks := cell.blocks.closed }

/-- The end of the thread of a node: a sniffer closes its socket, and so does a sender unless it
gives up. -/
def threadEnd (P : PipelineBlocks) (node : Nat) (gaveUp : Bool) : Program Kind PipelineBlocks := do
  let cell ← P.accessNode node
  match cell.node.process with
  | .sniffer _ => closeSocket P node
  | .sender _ => if gaveUp then return P else closeSocket P node
  | _ => return P

/-- The threads of these nodes end, in this order. -/
def threadsEnd (gaveUp : Nat → Bool) (P : PipelineBlocks) : List Nat → Program Kind PipelineBlocks
  | [] => return P
  | node :: nodes => do
    let P ← threadEnd P node (gaveUp node)
    threadsEnd gaveUp P nodes

/-- The first loop of `pipeline_destroy`. -/
def destroyQueues (P : PipelineBlocks) : List (HandleOf Kind.queue) → Program Kind Unit
  | [] => return ()
  | queue :: queues => do
    deref P.queuesArray
    release queue.val
    destroyQueues P queues

/-- The second loop of `pipeline_destroy`. -/
def destroyAdded (P : PipelineBlocks) : List Nat → Program Kind PipelineBlocks
  | [] => return P
  | node :: nodes => do
    deref P.nodesArray
    let P ← nodeDestroy P node
    destroyAdded P nodes

/-- `pipeline_destroy`, which frees the pipeline itself last, wherever it is. -/
def pipelineDestroy (P : PipelineBlocks) : Program Kind PipelineBlocks := do
  destroyQueues P P.queues
  let P ← destroyAdded P P.nodes
  free P.nodesArray
  free P.queuesArray
  match P.self with
  | none => undefined
  | some self => do
    release self.val
    return P

/-- A pipeline of zeros, as `global_pipeline` is; it is `global_pipeline` when `self` is none. -/
def zeroed (self : Option (HandleOf Kind.pipeline)) : PipelineBlocks := ⟨self, none, none, [], [], []⟩

/-- `main` behind `pipeline_init`, up to `cleanup`, when every thread can be created: the exit status
and the pipeline. `order` is the order in which the threads of the nodes end. -/
def runPipeline (os : OperatingSystem) (host : ByteOrder) (log : Log) (P : PipelineBlocks)
    (srcDevName dstDevName : CString) (tagRules : List ConfigParser.TagRule) (gaveUp : Nat → Bool)
    (order : List Nat → List Nat) : Program Kind (Int × PipelineBlocks) := do
  let (ret, P) ← vlanTaggerPattern os host P srcDevName dstDevName tagRules
  if ret ≠ 0 then do
    printL log
    return (1, P)
  else do
    printL log
    printL log
    let P ← threadsEnd gaveUp P (order P.nodes)
    return (0, P)

/-- `main` behind `start_log`, up to `cleanup`, for a pipeline at `self`. `loaded` says whether the
stack limit, the signals and the rules were set up; either way there is a line about it. -/
def runMain (os : OperatingSystem) (host : ByteOrder) (log : Log) (self : Option (HandleOf Kind.pipeline))
    (loaded : Bool) (srcDevName dstDevName : CString) (tagRules : List ConfigParser.TagRule)
    (gaveUp : Nat → Bool) (order : List Nat → List Nat) : Program Kind (Int × PipelineBlocks) := do
  printL log
  if loaded then do
    let (ret, P) ← pipelineInit os (zeroed self)
    if ret ≠ 0 then do
      printL log
      return (1, P)
    else runPipeline os host log P srcDevName dstDevName tagRules gaveUp order
  else return (1, zeroed self)

def cleanup (os : OperatingSystem) (log : Log) (P : PipelineBlocks) : Program Kind PipelineBlocks := do
  let P ← pipelineDestroy P
  let _ ← stopLog os log
  return P

/-- `main` behind `start_log`, with the `cleanup` that stands before each `exit`. -/
def mainLogged (os : OperatingSystem) (host : ByteOrder) (log : Log) (self : Option (HandleOf Kind.pipeline))
    (loaded : Bool) (srcDevName dstDevName : CString) (tagRules : List ConfigParser.TagRule)
    (gaveUp : Nat → Bool) (order : List Nat → List Nat) : Program Kind (Int × PipelineBlocks) := do
  let (status, P) ← runMain os host log self loaded srcDevName dstDevName tagRules gaveUp order
  let P ← cleanup os log P
  return (status, P)

/-- `main` from `start_log` on, which goes on whatever that returns. -/
def main (os : OperatingSystem) (host : ByteOrder) (self : Option (HandleOf Kind.pipeline)) (loaded : Bool)
    (srcDevName dstDevName : CString) (tagRules : List ConfigParser.TagRule) (gaveUp : Nat → Bool)
    (order : List Nat → List Nat) : Program Kind (Int × PipelineBlocks) := do
  let (_, log) ← startLog os
  mainLogged os host log self loaded srcDevName dstDevName tagRules gaveUp order

end VlanTagger.Pipeline.Allocation
