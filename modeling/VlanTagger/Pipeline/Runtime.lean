import VlanTagger.Lib.Transition
import VlanTagger.Nodes.IpModifier
import VlanTagger.Nodes.Tagger
import VlanTagger.Nodes.Workers

/-!
# A pipeline at work

The threads of a built pipeline, one for each node, and one call of `pipeline_stop`.
A step is one critical section of a queue, one test of `should_exit`, one socket call
or one action of `pipeline_stop`; the steps of different threads may follow one another
in any order. A thread inside `pthread_cond_wait` is `asleep` until a signal or a
spurious wake-up, and then re-tests its queue as any caller of `pop` does. A queue is
the input of one node at most, so a signal wakes that node's thread if it sleeps, and
is lost otherwise.
-/
namespace VlanTagger.Pipeline

open Lib Nodes Queue

/-! ## Nodes -/

/-- The process function of a node with its context and its local variables. -/
inductive Process
  | sniffer (errCounter : UInt8)
  | tagger (ctx : TaggerContext) (outputBuffer : Memory UInt8)
  | dispatcher (ctx : DispatcherContext)
  | packetCounter (ctx : PacketCounterContext)
  | sender (errCounter : Nat)
  | collector
  | logger (ctx : LoggerContext)
  | ipModifier (ctx : IpModifierContext)

/-- What the loop body leaves behind. -/
structure Outcome where
  process : Process
  buffer : Memory UInt8
  effect : Effect

/-- The loop body behind the call that got the packet and returned `ret`. -/
def Process.body (host : ByteOrder) (outputCount rand : Nat) (shouldExit : Bool) (p : Process)
    (buffer : Memory UInt8) (ret : Int) : Outcome :=
  match p with
  | .sniffer errCounter =>
    let r := snifferBody errCounter buffer ret
    ⟨.sniffer r.1, buffer, r.2⟩
  | .tagger ctx outputBuffer =>
    let r := taggerBody host ctx buffer outputBuffer ret
    ⟨.tagger ctx r.1, buffer, r.2⟩
  | .dispatcher ctx =>
    let r := dispatcherBody ctx outputCount rand buffer ret
    ⟨.dispatcher r.1, buffer, r.2⟩
  | .packetCounter ctx =>
    let r := packetCounterBody ctx buffer ret
    ⟨.packetCounter r.1, buffer, r.2⟩
  | .sender errCounter => ⟨.sender errCounter, buffer, senderBody buffer ret shouldExit⟩
  | .collector => ⟨.collector, buffer, collectorBody buffer ret⟩
  | .logger ctx =>
    let r := loggerBody ctx buffer ret
    ⟨.logger r.1, buffer, r.2⟩
  | .ipModifier ctx =>
    let r := ipModifierBody host ctx buffer ret
    ⟨.ipModifier ctx, r.1, r.2⟩

/-- Where a thread is in its loop. -/
inductive Pc (κ : Type*)
  /-- at the test of `should_exit` -/
  | test
  /-- about to enter `pop` or `recvfrom` -/
  | call
  /-- in `pthread_cond_wait` -/
  | asleep
  /-- woken, and about to re-acquire the mutex -/
  | woken
  /-- in `node_send_to_outputs`, with these queues still to come -/
  | send (targets : List κ) (buffer : Memory UInt8) (size : UInt16)
  /-- at the `push` of the dispatcher -/
  | dispatch (target : κ) (buffer : Memory UInt8) (size : UInt16)
  /-- at `sendto` -/
  | sendto (buffer : Memory UInt8) (len : Nat)
  /-- the process function has returned -/
  | left

namespace Pc

variable {κ : Type*}

def isAsleep : Pc κ → Bool
  | .asleep => true
  | _ => false

/-- The next `push` of `node_send_to_outputs`, or the end of the body. -/
def sending (targets : List κ) (buffer : Memory UInt8) (size : UInt16) : Pc κ :=
  match targets with
  | [] => .test
  | k :: ks => .send (k :: ks) buffer size

/-- Where the thread goes after the loop body of a node with these outputs. -/
def after (outputs : List κ) : Effect → Pc κ
  | .next => .test
  | .leave => .left
  | .giveUp => .left
  | .sendToOutputs buffer size => sending outputs buffer size
  | .pushTo i buffer size =>
    match outputs[i]? with
    | none => .test
    | some k => .dispatch k buffer size
  | .sendto buffer len => .sendto buffer len

end Pc

structure NodeState (κ : Type*) where
  pc : Pc κ
  buffer : Memory UInt8
  process : Process

/-! ## Pipelines -/

/-- The graph of a built pipeline: `nodes` and `queues` in the order in which they were
added. Every queue is the input of one node at most. -/
structure Topology (ν κ : Type*) where
  nodes : List ν
  queues : List κ
  input : ν → Option κ
  outputs : ν → List κ
  mem_queues : ∀ k, k ∈ queues
  input_injective : ∀ {n m : ν} {k : κ}, input n = some k → input m = some k → n = m

/-- How far `pipeline_stop` is. -/
inductive Stop (ν κ : Type*)
  | running
  | signalling (rest : List κ)
  | joining (rest : List ν)

structure State (ν κ : Type*) where
  shouldExit : Bool
  queue : κ → QueueT
  node : ν → NodeState κ
  stop : Stop ν κ

/-- What a step does, as far as an observer needs to know. -/
inductive Event (ν κ : Type*)
  | enter (n : ν)
  | exit (n : ν)
  /-- `recvfrom` returned a frame -/
  | recv (n : ν) (frame : List UInt8)
  | recvFailed (n : ν)
  /-- `pop` took the front packet and the loop body ran -/
  | take (n : ν) (k : κ) (effect : Effect)
  /-- `pop` found the queue empty -/
  | wait (n : ν) (k : κ)
  | spuriousWakeup (n : ν)
  | push (n : ν) (k : κ) (stored : Bool)
  | sendto (n : ν) (frame : List UInt8) (sent : Bool)
  | stopFlag
  | stopSignal (k : κ)
  | stopJoin
  | joined (n : ν)

section

variable {ν κ : Type*} [DecidableEq ν] [DecidableEq κ]

def State.setNode (s : State ν κ) (n : ν) (st : NodeState κ) : State ν κ :=
  { s with node := Function.update s.node n st }

def State.setPc (s : State ν κ) (n : ν) (pc : Pc κ) : State ν κ :=
  s.setNode n { s.node n with pc := pc }

def State.setQueue (s : State ν κ) (k : κ) (q : QueueT) : State ν κ :=
  { s with queue := Function.update s.queue k q }

/-- `pthread_cond_signal` on the condition of `k`. -/
def State.signal (T : Topology ν κ) (s : State ν κ) (k : κ) : State ν κ :=
  { s with node := fun n =>
      if T.input n = some k ∧ (s.node n).pc.isAsleep then { s.node n with pc := .woken }
      else s.node n }

def Effect.stops : Effect → Bool
  | .giveUp => true
  | _ => false

/-- The node goes on behind its loop body. -/
def State.finish (T : Topology ν κ) (s : State ν κ) (n : ν) (o : Outcome) : State ν κ :=
  { s with
    shouldExit := s.shouldExit || Effect.stops o.effect
    node := Function.update s.node n ⟨Pc.after (T.outputs n) o.effect, o.buffer, o.process⟩ }

/-- The queue after a `push` and the signal of a `push` that stored its packet. -/
def State.pushed (T : Topology ν κ) (s : State ν κ) (k : κ) (ret : Int) (q : QueueT) : State ν κ :=
  if 0 < ret then (s.setQueue k q).signal T k else s.setQueue k q

/-- The checks of a loop before its `pop`: there is an input queue, and the dispatcher
has outputs. -/
def ready (T : Topology ν κ) (n : ν) : Process → Bool
  | .sniffer _ => true
  | .dispatcher _ => (T.input n).isSome && !(T.outputs n).isEmpty
  | _ => (T.input n).isSome

def Process.isSniffer : Process → Bool
  | .sniffer _ => true
  | _ => false

/-- The body of node `n` in the state `s`. -/
def State.body (host : ByteOrder) (T : Topology ν κ) (s : State ν κ) (n : ν) (rand : Nat)
    (buffer : Memory UInt8) (ret : Int) : Outcome :=
  (s.node n).process.body host (T.outputs n).length rand s.shouldExit buffer ret

/-- The thread is in `pop`, with the mutex still to be locked. -/
def InPop (st : NodeState κ) : Prop :=
  (st.pc = .call ∨ st.pc = .woken) ∧ st.process.isSniffer = false

inductive Step (host : ByteOrder) (T : Topology ν κ) : State ν κ → Event ν κ → State ν κ → Prop
  | enter {s : State ν κ} {n : ν} (pc : (s.node n).pc = .test) (run : s.shouldExit = false)
      (checks : ready T n (s.node n).process = true) : Step host T s (.enter n) (s.setPc n .call)
  | exit {s : State ν κ} {n : ν} (pc : (s.node n).pc = .test)
      (stop : s.shouldExit = true ∨ ready T n (s.node n).process = false) :
      Step host T s (.exit n) (s.setPc n .left)
  | recv {s : State ν κ} {n : ν} {frame : List UInt8} (pc : (s.node n).pc = .call)
      (sniffer : (s.node n).process.isSniffer = true) (len : frame.length ≤ ethernetFrameLength) :
      Step host T s (.recv n frame) (s.finish T n (s.body host T n 0
        ((s.node n).buffer.memcpy 0 (Memory.ofList frame 0) frame.length) frame.length))
  | recvFailed {s : State ν κ} {n : ν} (pc : (s.node n).pc = .call)
      (sniffer : (s.node n).process.isSniffer = true) :
      Step host T s (.recvFailed n) (s.finish T n (s.body host T n 0 (s.node n).buffer (-1)))
  | take {s : State ν κ} {n : ν} {k : κ} {ret : Int} {buffer : Memory UInt8} {q : QueueT}
      (rand : Nat) (pc : InPop (s.node n)) (input : T.input n = some k)
      (call : pop (s.queue k) (s.node n).buffer = some (ret, buffer, q)) :
      Step host T s (.take n k (s.body host T n rand buffer ret).effect)
        ((s.setQueue k q).finish T n (s.body host T n rand buffer ret))
  | wait {s : State ν κ} {n : ν} {k : κ} (pc : InPop (s.node n)) (input : T.input n = some k)
      (call : pop (s.queue k) (s.node n).buffer = none) :
      Step host T s (.wait n k) (s.setPc n .asleep)
  | spuriousWakeup {s : State ν κ} {n : ν} (pc : (s.node n).pc = .asleep) :
      Step host T s (.spuriousWakeup n) (s.setPc n .woken)
  | push {s : State ν κ} {n : ν} {k : κ} {ks : List κ} {buffer : Memory UInt8} {size : UInt16}
      {ret : Int} {q : QueueT} (pc : (s.node n).pc = .send (k :: ks) buffer size)
      (call : push (s.queue k) buffer size = (ret, q)) :
      Step host T s (.push n k (decide (0 < ret)))
        ((s.setPc n (.sending ks buffer size)).pushed T k ret q)
  | dispatch {s : State ν κ} {n : ν} {k : κ} {buffer : Memory UInt8} {size : UInt16} {ret : Int}
      {q : QueueT} {ctx : DispatcherContext} (pc : (s.node n).pc = .dispatch k buffer size)
      (process : (s.node n).process = .dispatcher ctx)
      (call : push (s.queue k) buffer size = (ret, q)) :
      Step host T s (.push n k (decide (0 < ret)))
        ((s.setNode n ⟨.test, (s.node n).buffer,
          .dispatcher (dispatcherPushed ctx ret size.toNat)⟩).pushed T k ret q)
  | sendto {s : State ν κ} {n : ν} {buffer : Memory UInt8} {len errCounter : Nat} (sent : Bool)
      (pc : (s.node n).pc = .sendto buffer len) (process : (s.node n).process = .sender errCounter) :
      Step host T s (.sendto n (buffer.bytes len) sent)
        (s.finish T n ⟨.sender (senderSent errCounter sent).1, (s.node n).buffer,
          (senderSent errCounter sent).2⟩)
  | stopFlag {s : State ν κ} (stop : s.stop = .running) :
      Step host T s .stopFlag { s with shouldExit := true, stop := .signalling T.queues }
  | stopSignal {s : State ν κ} {k : κ} {ks : List κ} (stop : s.stop = .signalling (k :: ks)) :
      Step host T s (.stopSignal k) { s.signal T k with stop := .signalling ks }
  | stopJoin {s : State ν κ} (stop : s.stop = .signalling []) :
      Step host T s .stopJoin { s with stop := .joining T.nodes }
  | joined {s : State ν κ} {n : ν} {ns : List ν} (stop : s.stop = .joining (n :: ns))
      (pc : (s.node n).pc = .left) :
      Step host T s (.joined n) { s with shouldExit := true, stop := .joining ns }

/-- At the start of the thread; a tagger does not initialise its output buffer. -/
def Process.started (uninitialised : Memory UInt8) : Process → Process
  | .tagger ctx _ => .tagger ctx uninitialised
  | p => p

/-- Every thread at the start of its loop, every queue fresh from `init`. -/
def Initial (process : ν → Process) (s : State ν κ) : Prop :=
  s.shouldExit = false ∧ s.stop = .running ∧ (∀ k, ∃ uninitialised, s.queue k = init uninitialised) ∧
    ∀ n, (s.node n).pc = .test ∧
      ∃ uninitialised, (s.node n).process = (process n).started uninitialised

def runtime (host : ByteOrder) (T : Topology ν κ) (process : ν → Process) :
    System (State ν κ) (Event ν κ) where
  init := Initial process
  step := Step host T

end

end VlanTagger.Pipeline
