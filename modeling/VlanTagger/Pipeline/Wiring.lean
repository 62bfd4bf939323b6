import Mathlib.Logic.Relation
import VlanTagger.Pipeline.Graph

/-!
# What the pipeline API wires up

Any calls of `pipeline_add_node`, `pipeline_connect` and `pipeline_connect_shared` by a
client that creates its nodes as it goes. Whatever the order of the calls and whichever of
them fail or stop half way, every queue is the input of exactly one node, and the outputs
of a node are the inputs of the nodes it has been connected to, in that order. So what
`node_send_to_outputs` sends to one node does not depend on the queues of the others.
-/
namespace VlanTagger.Pipeline

open Lib Nodes Queue

/-! ## Calls -/

/-- What a client does next; `none` is `NULL`. -/
inductive ApiCall
  | create (process : Process)
  | addNode (node : Option Nat)
  | connect (source target : Option Nat)
  | connectShared (source : Option Nat) (toNodes : Option (List (Option Nat)))

namespace Graph

/-- `node->input_queue` -/
def input (g : Graph) (n : Nat) : Option Nat := g.heap[n]?.bind Node.inputQueue

/-- `node->output_queues[0..output_count)` -/
def outputs (g : Graph) (n : Nat) : List Nat := (g.heap[n]?.map Node.outputQueues).getD []

end Graph

section

variable (creates : Nat → Bool)

/-- The pipeline after the call. -/
def ApiCall.run (g : Graph) : ApiCall → Graph
  | .create process => (nodeCreate creates g process).2
  | .addNode (some node) => (pipelineAddNode g node).2
  | .connect (some source) (some target) => (pipelineConnect creates g source target).2
  | .connectShared (some source) (some toNodes) => (pipelineConnectShared creates g source toNodes).2
  | _ => g

/-- The connections that the loop of `pipeline_connect_shared` makes. -/
def targetConnections (dispatcher : Nat) : Graph → List (Option Nat) → List (Nat × Nat)
  | _, [] => []
  | g, none :: toNodes => targetConnections dispatcher g toNodes
  | g, some target :: toNodes =>
    match pipelineConnect creates g dispatcher target with
    | (ret, g) => if ret ≠ 0 then [] else (dispatcher, target) :: targetConnections dispatcher g toNodes

/-- The connections that `pipeline_connect_shared` makes, those of its dispatcher included. -/
def sharedConnections (g : Graph) (source : Nat) (toNodes : List (Option Nat)) : List (Nat × Nat) :=
  if toNodes = [] then []
  else
    match nodeCreate creates g (.dispatcher (dispatcherNodeCreate .roundRobin)) with
    | (none, _) => []
    | (some dispatcher, g) =>
      match pipelineAddNode g dispatcher with
      | (ret, g) =>
        if ret ≠ 0 then []
        else
          match pipelineConnect creates g source dispatcher with
          | (ret, g) =>
            if ret ≠ 0 then [] else (source, dispatcher) :: targetConnections creates dispatcher g toNodes

/-- The ordered pairs of nodes for which the call ran a `pipeline_connect` that returned 0. -/
def ApiCall.connections (g : Graph) : ApiCall → List (Nat × Nat)
  | .connect (some source) (some target) =>
    if (pipelineConnect creates g source target).1 = 0 then [(source, target)] else []
  | .connectShared (some source) (some toNodes) => sharedConnections creates g source toNodes
  | _ => []

/-- The pipeline after the calls. -/
def buildCalls (g : Graph) : List ApiCall → Graph
  | [] => g
  | c :: cs => buildCalls (c.run creates g) cs

def connections (g : Graph) : List ApiCall → List (Nat × Nat)
  | [] => []
  | c :: cs => c.connections creates g ++ connections (c.run creates g) cs

end

/-- The `push` of the packet to one output after the other, which goes on behind one that fails. -/
def nodeSendToOutputs (queue : Nat → QueueT) (outputQueues : List Nat) (buffer : Memory UInt8)
    (size : UInt16) : Nat → QueueT :=
  outputQueues.foldl (fun queue k => Function.update queue k (push (queue k) buffer size).2) queue

/-- Queue `k` is `queues[k]` of the pipeline, and the connections `log` have been made. -/
structure Wired (g : Graph) (log : List (Nat × Nat)) : Prop where
  nodes_le : g.nodes.length ≤ maxPipelineNodes
  queues_le : g.queueCount ≤ maxPipelineQueues
  outputs_le : ∀ n, (g.outputs n).length ≤ maxNodeOutputs
  input_lt : ∀ {n k : Nat}, g.input n = some k → k < g.queueCount
  input_injective : ∀ {n m k : Nat}, g.input n = some k → g.input m = some k → n = m
  input_surjective : ∀ k < g.queueCount, ∃ n, g.input n = some k
  outputs_eq : ∀ n, (g.outputs n).map some = (log.filter fun c => c.1 = n).map fun c => g.input c.2

/-- What the calls come down to: one assignment to a pointer, or none, with the connections
that have been made before and after it. -/
inductive Assigns : Graph × List (Nat × Nat) → Graph × List (Nat × Nat) → Prop
  | none {g g' : Graph} {log : List (Nat × Nat)}
      (nodes : g.nodes.length ≤ maxPipelineNodes → g'.nodes.length ≤ maxPipelineNodes)
      (queueCount : g'.queueCount = g.queueCount) (input : g'.input = g.input)
      (outputs : g'.outputs = g.outputs) : Assigns (g, log) (g', log)
  /-- `node_set_input` with a new queue -/
  | inputQueue {g g' : Graph} {log : List (Nat × Nat)} {target : Nat}
      (unset : g.input target = .none) (room : g.queueCount < maxPipelineQueues)
      (nodes : g'.nodes = g.nodes) (queueCount : g'.queueCount = g.queueCount + 1)
      (input : g'.input = Function.update g.input target (some g.queueCount))
      (outputs : g'.outputs = g.outputs) : Assigns (g, log) (g', log)
  /-- `node_add_output` with the input of `target` -/
  | outputQueue {g g' : Graph} {log : List (Nat × Nat)} {source target queue : Nat}
      (set : g.input target = some queue) (room : (g.outputs source).length < maxNodeOutputs)
      (nodes : g'.nodes = g.nodes) (queueCount : g'.queueCount = g.queueCount)
      (input : g'.input = g.input)
      (outputs : g'.outputs = Function.update g.outputs source (g.outputs source ++ [queue])) :
      Assigns (g, log) (g', log ++ [(source, target)])

abbrev Assigned : Graph × List (Nat × Nat) → Graph × List (Nat × Nat) → Prop :=
  Relation.ReflTransGen Assigns

/-! ## Single operations -/

section

variable {creates : Nat → Bool} {g : Graph} {log : List (Nat × Nat)} {source target : Nat}

/-- A node that is created has no input and no outputs. -/
theorem heap_nodeCreate (process : Process) (n : Nat) :
    (nodeCreate creates g process).2.heap[n]? = g.heap[n]? ∨
      g.heap[n]? = none ∧ (nodeCreate creates g process).2.heap[n]? = some ⟨none, [], process⟩ := by
  unfold nodeCreate
  by_cases hcreates : creates g.tried = true
  · rw [if_pos hcreates]
    show (g.heap ++ [_])[n]? = _ ∨ _ ∧ (g.heap ++ [_])[n]? = _
    rcases Nat.lt_trichotomy n g.heap.length with hn | rfl | hn
    · exact .inl (List.getElem?_append_left hn)
    · exact .inr ⟨List.getElem?_eq_none le_rfl, List.getElem?_concat_length⟩
    · refine .inl ?_
      rw [List.getElem?_eq_none hn.le, List.getElem?_eq_none]
      rw [List.length_append, List.length_singleton]
      exact hn
  · rw [if_neg hcreates]
    exact .inl rfl

theorem input_nodeCreate (process : Process) : (nodeCreate creates g process).2.input = g.input := by
  funext n
  unfold Graph.input
  rcases @heap_nodeCreate creates g process n with heq | ⟨hnone, hnew⟩
  · rw [heq]
  · rw [hnone, hnew]
    rfl

theorem outputs_nodeCreate (process : Process) :
    (nodeCreate creates g process).2.outputs = g.outputs := by
  funext n
  unfold Graph.outputs
  rcases @heap_nodeCreate creates g process n with heq | ⟨hnone, hnew⟩
  · rw [heq]
  · rw [hnone, hnew]
    rfl

theorem heap_update_self (n : Nat) (f : Node → Node) :
    (g.update n f).heap[n]? = g.heap[n]?.map f := List.getElem?_modify_eq ..

theorem heap_update_of_ne {n m : Nat} (h : m ≠ n) (f : Node → Node) :
    (g.update n f).heap[m]? = g.heap[m]? := List.getElem?_modify_ne f g.heap h.symm

theorem input_nodeSetInput {queue : Nat} (htarget : target < g.heap.length) :
    (nodeSetInput g target queue).2.input = Function.update g.input target (some queue) := by
  funext n
  by_cases hn : n = target
  · subst hn
    rw [Function.update_self, Graph.input, nodeSetInput, heap_update_self,
      List.getElem?_eq_getElem htarget]
    rfl
  · rw [Function.update_of_ne hn, Graph.input, nodeSetInput, heap_update_of_ne hn]
    rfl

theorem outputs_nodeSetInput (queue : Nat) : (nodeSetInput g target queue).2.outputs = g.outputs := by
  funext n
  by_cases hn : n = target
  · subst hn
    rw [Graph.outputs, nodeSetInput, heap_update_self, Option.map_map]
    rfl
  · rw [Graph.outputs, nodeSetInput, heap_update_of_ne hn]
    rfl

/-- `node_add_output` refuses and changes nothing, or it appends to the outputs of one node. -/
theorem nodeAddOutput_cases (g : Graph) (source queue : Nat) :
    nodeAddOutput g source queue = (-1, g) ∨
      ∃ g', nodeAddOutput g source queue = (0, g') ∧ (g.outputs source).length < maxNodeOutputs ∧
        g'.nodes = g.nodes ∧ g'.queueCount = g.queueCount ∧ g'.input = g.input ∧
        g'.outputs = Function.update g.outputs source (g.outputs source ++ [queue]) := by
  unfold nodeAddOutput
  cases hsource : g.heap[source]? with
  | none => exact .inl rfl
  | some node =>
    have houtputs : g.outputs source = node.outputQueues := by
      rw [Graph.outputs, hsource]
      rfl
    by_cases hfull : maxNodeOutputs ≤ node.outputQueues.length
    · exact .inl (if_pos hfull)
    · refine .inr ⟨_, if_neg hfull, by rw [houtputs]; omega, rfl, rfl, ?_, ?_⟩
      · funext n
        by_cases hn : n = source
        · subst hn
          rw [Graph.input, heap_update_self, Graph.input, hsource]
          rfl
        · rw [Graph.input, heap_update_of_ne hn]
          rfl
      · funext n
        by_cases hn : n = source
        · subst hn
          rw [Function.update_self, houtputs, Graph.outputs, heap_update_self, hsource]
          rfl
        · rw [Function.update_of_ne hn, Graph.outputs, heap_update_of_ne hn]
          rfl

/-- `pipeline_create_queue` fails, or the queue is a new one. -/
theorem pipelineCreateQueue_cases (creates : Nat → Bool) (g : Graph) :
    (∃ tried, pipelineCreateQueue creates g = (none, { g with tried := tried })) ∨
      g.queueCount < maxPipelineQueues ∧ pipelineCreateQueue creates g =
        (some g.queueCount, { g with tried := g.tried + 1, queueCount := g.queueCount + 1 }) := by
  unfold pipelineCreateQueue
  by_cases hfull : maxPipelineQueues ≤ g.queueCount
  · exact .inl ⟨g.tried, if_pos hfull⟩
  · rw [if_neg hfull]
    by_cases hcreates : creates g.tried = true
    · exact .inr ⟨by omega, if_pos hcreates⟩
    · exact .inl ⟨g.tried + 1, if_neg hcreates⟩

/-! ## Every call is a sequence of assignments -/

theorem assigns_nodeCreate (process : Process) :
    Assigns (g, log) ((nodeCreate creates g process).2, log) := by
  refine .none ?_ ?_ (input_nodeCreate process) (outputs_nodeCreate process)
  · unfold nodeCreate
    split <;> exact id
  · unfold nodeCreate
    split <;> rfl

theorem assigns_pipelineAddNode (node : Nat) : Assigns (g, log) ((pipelineAddNode g node).2, log) := by
  unfold pipelineAddNode
  by_cases hfull : maxPipelineNodes ≤ g.nodes.length
  · rw [if_pos hfull]
    exact .none id rfl rfl rfl
  · rw [if_neg hfull]
    refine .none (fun _ => ?_) rfl rfl rfl
    rw [List.length_append, List.length_singleton]
    omega

theorem assigned_nodeAddOutput {queue : Nat} (htarget : g.input target = some queue) :
    Assigned (g, log) ((nodeAddOutput g source queue).2,
      log ++ if (nodeAddOutput g source queue).1 = 0 then [(source, target)] else []) := by
  rcases nodeAddOutput_cases g source queue with heq | ⟨g', heq, hroom, hnodes, hcount, hin, hout⟩
  · rw [heq, if_neg (by simp), List.append_nil]
  · rw [heq, if_pos rfl]
    exact .single (.outputQueue htarget hroom hnodes hcount hin hout)

theorem assigned_pipelineConnect (source target : Nat) :
    Assigned (g, log) ((pipelineConnect creates g source target).2,
      log ++ if (pipelineConnect creates g source target).1 = 0 then [(source, target)] else []) := by
  unfold pipelineConnect
  cases hnode : g.heap[target]? with
  | none =>
    simp only
    rw [if_neg (by decide), List.append_nil]
  | some toNode =>
    have hinput : g.input target = toNode.inputQueue := by
      rw [Graph.input, hnode]
      rfl
    cases hqueue : toNode.inputQueue with
    | some queue =>
      simp only [hqueue]
      exact assigned_nodeAddOutput (hinput.trans hqueue)
    | none =>
      simp only [hqueue]
      rcases pipelineCreateQueue_cases creates g with ⟨tried, heq⟩ | ⟨hroom, heq⟩
      · rw [heq]
        simp only
        rw [if_neg (by decide), List.append_nil]
        exact .single (.none id rfl rfl rfl)
      · -- the new queue stays the input also when the source has no room for an output
        have htarget : target < g.heap.length := (List.getElem?_eq_some_iff.mp hnode).1
        have hset : (nodeSetInput { g with tried := g.tried + 1, queueCount := g.queueCount + 1 }
            target g.queueCount).2.input = Function.update g.input target (some g.queueCount) :=
          input_nodeSetInput htarget
        have hassigns : Assigns (g, log) ((nodeSetInput
            { g with tried := g.tried + 1, queueCount := g.queueCount + 1 } target g.queueCount).2, log) :=
          .inputQueue (hinput.trans hqueue) hroom rfl rfl hset (outputs_nodeSetInput _)
        rw [heq]
        refine .head hassigns (assigned_nodeAddOutput ?_)
        rw [hset, Function.update_self]

theorem assigned_connectTargets (dispatcher : Nat) (toNodes : List (Option Nat)) :
    Assigned (g, log) ((connectTargets creates dispatcher g toNodes).2,
      log ++ targetConnections creates dispatcher g toNodes) := by
  induction toNodes generalizing g log with
  | nil =>
    rw [targetConnections, List.append_nil]
    exact .refl
  | cons toNode toNodes ih =>
    cases toNode with
    | none => exact ih
    | some target =>
      have hstep := @assigned_pipelineConnect creates g log dispatcher target
      rcases hconnect : pipelineConnect creates g dispatcher target with ⟨ret, g'⟩
      rw [hconnect] at hstep
      simp only [connectTargets, targetConnections, hconnect]
      by_cases hret : ret = 0
      · rw [if_neg (not_not.mpr hret), if_neg (not_not.mpr hret), ← List.singleton_append,
          ← List.append_assoc]
        rw [if_pos hret] at hstep
        exact hstep.trans ih
      · rw [if_pos hret, if_pos hret]
        rw [if_neg hret] at hstep
        exact hstep

/-- Every early return leaves what has been done. -/
theorem assigned_pipelineConnectShared (source : Nat) (toNodes : List (Option Nat)) :
    Assigned (g, log) ((pipelineConnectShared creates g source toNodes).2,
      log ++ sharedConnections creates g source toNodes) := by
  unfold pipelineConnectShared sharedConnections
  by_cases htargets : toNodes = []
  · rw [if_pos htargets, if_pos htargets, List.append_nil]
  · rw [if_neg htargets, if_neg htargets]
    have hcreate := @assigns_nodeCreate creates g log
      (.dispatcher (dispatcherNodeCreate .roundRobin))
    rcases hc : nodeCreate creates g (.dispatcher (dispatcherNodeCreate .roundRobin))
      with ⟨dispatcher | dispatcher, g₁⟩
    · rw [hc] at hcreate
      simp only
      rw [List.append_nil]
      exact .single hcreate
    · rw [hc] at hcreate
      have hadd := @assigns_pipelineAddNode g₁ log dispatcher
      rcases ha : pipelineAddNode g₁ dispatcher with ⟨ret, g₂⟩
      rw [ha] at hadd
      simp only [ha]
      have hadded : Assigned (g, log) (g₂, log) := .head hcreate (.single hadd)
      by_cases hret : ret = 0
      · rw [if_neg (not_not.mpr hret), if_neg (not_not.mpr hret)]
        have hconnect := @assigned_pipelineConnect creates g₂ log source dispatcher
        rcases hs : pipelineConnect creates g₂ source dispatcher with ⟨ret', g₃⟩
        rw [hs] at hconnect
        simp only
        by_cases hret' : ret' = 0
        · rw [if_neg (not_not.mpr hret'), if_neg (not_not.mpr hret'), ← List.singleton_append,
            ← List.append_assoc]
          rw [if_pos hret'] at hconnect
          exact (hadded.trans hconnect).trans (assigned_connectTargets dispatcher toNodes)
        · rw [if_pos hret', if_pos hret']
          rw [if_neg hret'] at hconnect
          exact hadded.trans hconnect
      · rw [if_pos hret, if_pos hret, List.append_nil]
        exact hadded

theorem assigned_nothing : Assigned (g, log) (g, log ++ []) := by
  rw [List.append_nil]

theorem assigned_run (c : ApiCall) :
    Assigned (g, log) (c.run creates g, log ++ c.connections creates g) := by
  cases c with
  | create process => exact assigned_nothing.tail (assigns_nodeCreate process)
  | addNode node =>
    cases node with
    | none => exact assigned_nothing
    | some node => exact assigned_nothing.tail (assigns_pipelineAddNode node)
  | connect source target =>
    cases source with
    | none => exact assigned_nothing
    | some source =>
      cases target with
      | none => exact assigned_nothing
      | some target => exact assigned_pipelineConnect source target
  | connectShared source toNodes =>
    cases source with
    | none => exact assigned_nothing
    | some source =>
      cases toNodes with
      | none => exact assigned_nothing
      | some toNodes => exact assigned_pipelineConnectShared source toNodes

theorem assigned_buildCalls (calls : List ApiCall) :
    Assigned (g, log) (buildCalls creates g calls, log ++ connections creates g calls) := by
  induction calls generalizing g log with
  | nil => exact assigned_nothing
  | cons c calls ih =>
    rw [connections, ← List.append_assoc]
    exact (assigned_run c).trans ih

end

/-! ## Every assignment keeps the wiring -/

theorem wired_pipelineInit : Wired pipelineInit [] := by
  constructor
  · exact Nat.zero_le _
  · exact Nat.zero_le _
  · intro n
    exact Nat.zero_le _
  · intro n k h
    cases h
  · intro n m k h
    cases h
  · intro k h
    exact absurd h (Nat.not_lt_zero k)
  · intro n
    rfl

/-- No assignment goes to an input that is set. -/
theorem Assigns.input_eq {s s' : Graph × List (Nat × Nat)} (h : Assigns s s') {n k : Nat}
    (hn : s.1.input n = some k) : s'.1.input n = some k := by
  cases h with
  | none nodes queueCount input outputs =>
    rw [input]
    exact hn
  | inputQueue unset room nodes queueCount input outputs =>
    rw [input, Function.update_of_ne]
    · exact hn
    · rintro rfl
      rw [unset] at hn
      cases hn
  | outputQueue set room nodes queueCount input outputs =>
    rw [input]
    exact hn

namespace Wired

variable {g g' : Graph} {log log' : List (Nat × Nat)} {source target : Nat}

/-- A connected node has an input, and it is an output of the other node. -/
theorem input_of_mem (h : Wired g log) (hmem : (source, target) ∈ log) :
    ∃ k ∈ g.outputs source, g.input target = some k := by
  have hinput : g.input target ∈ (g.outputs source).map some := by
    rw [h.outputs_eq source]
    exact List.mem_map.mpr ⟨_, List.mem_filter.mpr ⟨hmem, decide_eq_true rfl⟩, rfl⟩
  obtain ⟨k, hk, heq⟩ := List.mem_map.mp hinput
  exact ⟨k, hk, heq.symm⟩

/-- Every output is the input of a node to which a connection has been made. -/
theorem mem_of_output (h : Wired g log) {k : Nat} (hk : k ∈ g.outputs source) :
    ∃ n, (source, n) ∈ log ∧ g.input n = some k := by
  have hinput : some k ∈ (g.outputs source).map some := List.mem_map_of_mem hk
  rw [h.outputs_eq source] at hinput
  obtain ⟨⟨s, n⟩, hc, heq⟩ := List.mem_map.mp hinput
  obtain ⟨hmem, hs⟩ := List.mem_filter.mp hc
  obtain rfl : s = source := of_decide_eq_true hs
  exact ⟨n, hmem, heq⟩

theorem output_lt (h : Wired g log) {n k : Nat} (hk : k ∈ g.outputs n) : k < g.queueCount := by
  obtain ⟨m, -, hm⟩ := h.mem_of_output hk
  exact h.input_lt hm

theorem existsUnique_input (h : Wired g log) {k : Nat} (hk : k < g.queueCount) :
    ∃! n, g.input n = some k := by
  obtain ⟨n, hn⟩ := h.input_surjective k hk
  exact ⟨n, hn, fun m hm => h.input_injective hm hn⟩

theorem assigns_none (h : Wired g log)
    (hnodes : g.nodes.length ≤ maxPipelineNodes → g'.nodes.length ≤ maxPipelineNodes)
    (hcount : g'.queueCount = g.queueCount) (hinput : g'.input = g.input)
    (houtputs : g'.outputs = g.outputs) : Wired g' log := by
  refine ⟨hnodes h.nodes_le, ?_, ?_, ?_, ?_, ?_, ?_⟩
  · rw [hcount]
    exact h.queues_le
  · rw [houtputs]
    exact h.outputs_le
  · rw [hcount, hinput]
    exact h.input_lt
  · rw [hinput]
    exact h.input_injective
  · rw [hcount, hinput]
    exact h.input_surjective
  · rw [houtputs, hinput]
    exact h.outputs_eq

theorem assigns_inputQueue (h : Wired g log) (hunset : g.input target = none)
    (hroom : g.queueCount < maxPipelineQueues) (hnodes : g'.nodes = g.nodes)
    (hcount : g'.queueCount = g.queueCount + 1)
    (hinput : g'.input = Function.update g.input target (some g.queueCount))
    (houtputs : g'.outputs = g.outputs) : Wired g' log := by
  have hne : ∀ {n k : Nat}, g.input n = some k → n ≠ target := by
    intro n k hn heq
    rw [heq, hunset] at hn
    cases hn
  have hnew : g'.input target = some g.queueCount := by
    rw [hinput, Function.update_self]
  have hold : ∀ {n : Nat}, n ≠ target → g'.input n = g.input n := by
    intro n hn
    rw [hinput, Function.update_of_ne hn]
  refine ⟨?_, ?_, ?_, ?_, ?_, ?_, ?_⟩
  · rw [hnodes]
    exact h.nodes_le
  · rw [hcount]
    exact hroom
  · rw [houtputs]
    exact h.outputs_le
  · intro n k hn
    rw [hcount]
    by_cases heq : n = target
    · rw [heq, hnew] at hn
      exact Option.some.inj hn ▸ Nat.lt_succ_self _
    · rw [hold heq] at hn
      exact Nat.lt_succ_of_lt (h.input_lt hn)
  · intro n m k hn hm
    by_cases hnt : n = target
    · by_cases hmt : m = target
      · rw [hnt, hmt]
      · rw [hnt, hnew] at hn
        rw [hold hmt] at hm
        have hlt := h.input_lt hm
        have hk := Option.some.inj hn
        omega
    · rw [hold hnt] at hn
      have hlt := h.input_lt hn
      by_cases hmt : m = target
      · rw [hmt, hnew] at hm
        have hk := Option.some.inj hm
        omega
      · rw [hold hmt] at hm
        exact h.input_injective hn hm
  · intro k hk
    rw [hcount] at hk
    by_cases heq : k = g.queueCount
    · exact ⟨target, heq ▸ hnew⟩
    · obtain ⟨n, hn⟩ := h.input_surjective k (by omega)
      exact ⟨n, (hold (hne hn)).trans hn⟩
  · intro n
    rw [houtputs, h.outputs_eq n]
    refine List.map_congr_left fun c hc => ?_
    -- a connected node has an input already
    obtain ⟨k, -, hk⟩ := h.input_of_mem (List.mem_filter.mp hc).1
    exact (hold (hne hk)).symm

theorem assigns_outputQueue (h : Wired g log) {queue : Nat} (hset : g.input target = some queue)
    (hroom : (g.outputs source).length < maxNodeOutputs) (hnodes : g'.nodes = g.nodes)
    (hcount : g'.queueCount = g.queueCount) (hinput : g'.input = g.input)
    (houtputs : g'.outputs = Function.update g.outputs source (g.outputs source ++ [queue])) :
    Wired g' (log ++ [(source, target)]) := by
  refine ⟨?_, ?_, ?_, ?_, ?_, ?_, ?_⟩
  · rw [hnodes]
    exact h.nodes_le
  · rw [hcount]
    exact h.queues_le
  · intro n
    rw [houtputs]
    by_cases hn : n = source
    · rw [hn, Function.update_self, List.length_append, List.length_singleton]
      exact hroom
    · rw [Function.update_of_ne hn]
      exact h.outputs_le n
  · rw [hcount, hinput]
    exact h.input_lt
  · rw [hinput]
    exact h.input_injective
  · rw [hcount, hinput]
    exact h.input_surjective
  · intro n
    rw [houtputs, hinput, List.filter_append, List.map_append]
    by_cases hn : n = source
    · rw [hn, Function.update_self, List.map_append, h.outputs_eq source]
      simp [hset]
    · rw [Function.update_of_ne hn, h.outputs_eq n]
      simp [Ne.symm hn]

end Wired

theorem wired_assigns {s s' : Graph × List (Nat × Nat)} (hs : Assigns s s') (h : Wired s.1 s.2) :
    Wired s'.1 s'.2 := by
  cases hs with
  | none nodes queueCount input outputs => exact h.assigns_none nodes queueCount input outputs
  | inputQueue unset room nodes queueCount input outputs =>
    exact h.assigns_inputQueue unset room nodes queueCount input outputs
  | outputQueue set room nodes queueCount input outputs =>
    exact h.assigns_outputQueue set room nodes queueCount input outputs

section

variable {creates : Nat → Bool}

theorem wired_buildCalls (calls : List ApiCall) :
    Wired (buildCalls creates pipelineInit calls) (connections creates pipelineInit calls) := by
  have hassigned := @assigned_buildCalls creates pipelineInit [] calls
  rw [List.nil_append] at hassigned
  exact Relation.ReflTransGen.head_induction_on (motive := fun s _ => Wired s.1 s.2 → Wired _ _)
    hassigned id (fun hs _ ih h => ih (wired_assigns hs h)) wired_pipelineInit

/-- An input that is set stays what it is. -/
theorem input_buildCalls {g : Graph} {n k : Nat} (h : g.input n = some k) (calls : List ApiCall) :
    (buildCalls creates g calls).input n = some k := by
  refine Relation.ReflTransGen.head_induction_on
    (motive := fun s _ => s.1.input n = some k → (buildCalls creates g calls).input n = some k)
    (@assigned_buildCalls creates g [] calls) id (fun hs _ ih h => ih (hs.input_eq h)) h

end

/-! ## Sending to the outputs -/

theorem Wired.outputs_nodup {g : Graph} {log : List (Nat × Nat)} (h : Wired g log)
    (hlog : log.Nodup) (source : Nat) : (g.outputs source).Nodup := by
  have hmap : ((g.outputs source).map some).Nodup := by
    rw [h.outputs_eq source]
    refine (hlog.filter _).map_on fun c hc c' hc' heq => ?_
    obtain ⟨hmem, hs⟩ := List.mem_filter.mp hc
    obtain ⟨-, hs'⟩ := List.mem_filter.mp hc'
    obtain ⟨k, -, hk⟩ := h.input_of_mem hmem
    exact Prod.ext ((of_decide_eq_true hs).trans (of_decide_eq_true hs').symm)
      (h.input_injective hk (heq ▸ hk))
  exact hmap.of_map some

section

variable {queue : Nat → QueueT} {outputQueues : List Nat} {buffer : Memory UInt8} {size : UInt16} {k : Nat}

theorem nodeSendToOutputs_of_notMem (h : k ∉ outputQueues) :
    nodeSendToOutputs queue outputQueues buffer size k = queue k := by
  induction outputQueues generalizing queue with
  | nil => rfl
  | cons k' ks ih =>
    rw [List.mem_cons, not_or] at h
    exact (ih h.2).trans (Function.update_of_ne h.1 ..)

/-- Every output gets its packet as if it were the only one. -/
theorem nodeSendToOutputs_of_mem (hnodup : outputQueues.Nodup) (h : k ∈ outputQueues) :
    nodeSendToOutputs queue outputQueues buffer size k = (push (queue k) buffer size).2 := by
  induction outputQueues generalizing queue with
  | nil => cases h
  | cons k' ks ih =>
    obtain ⟨hk', hks⟩ := List.nodup_cons.mp hnodup
    rcases List.mem_cons.mp h with rfl | hmem
    · exact (nodeSendToOutputs_of_notMem hk').trans (Function.update_self ..)
    · have hne : k ≠ k' := fun heq => hk' (heq ▸ hmem)
      apply (ih hks hmem).trans
      exact congrArg (fun q => (push q buffer size).2) (Function.update_of_ne hne ..)

end

/-- Every queue of the pipeline has exactly one consumer, and keeps it. -/
structure SingleConsumer (creates : Nat → Bool) (g : Graph) : Prop where
  nodes_le : g.nodes.length ≤ maxPipelineNodes
  queues_le : g.queueCount ≤ maxPipelineQueues
  outputs_le : ∀ n, (g.outputs n).length ≤ maxNodeOutputs
  /-- The next queue is none of those that have been created. -/
  created_fresh : ∀ {k : Nat} {g' : Graph}, pipelineCreateQueue creates g = (some k, g') →
    ¬ k < g.queueCount ∧ ∀ k', k' < g'.queueCount ↔ k' = k ∨ k' < g.queueCount
  existsUnique_consumer : ∀ k < g.queueCount, ∃! n, g.input n = some k
  input_created : ∀ {n k : Nat}, g.input n = some k → k < g.queueCount
  output_created : ∀ {n k : Nat}, k ∈ g.outputs n → k < g.queueCount
  input_kept : ∀ {n k : Nat}, g.input n = some k → ∀ calls, (buildCalls creates g calls).input n = some k

/-- After any calls on a pipeline fresh from `pipeline_init`. When no two nodes have been
connected twice, `node_send_to_outputs` appends the packet to the input queue of each node
that `source` has been connected to, if that queue has room, and leaves all others alone. -/
theorem pipeline_single_consumer (creates : Nat → Bool) (calls : List ApiCall) :
    SingleConsumer creates (buildCalls creates pipelineInit calls) ∧
      ((connections creates pipelineInit calls).Nodup →
        ∀ (source : Nat) (queue : Nat → QueueT) (buffer : Memory UInt8) (size : UInt16)
          (hpos : size ≠ 0) (hle : size.toNat ≤ maxPkgSize),
          let g := buildCalls creates pipelineInit calls
          let queue' := nodeSendToOutputs queue (g.outputs source) buffer size
          (∀ n, (source, n) ∈ connections creates pipelineInit calls → ∃ k, g.input n = some k ∧
            ∀ items, Represents (queue k) items →
              if items.length < qSize then
                Represents (queue' k) (items ++ [Packet.ofBuffer buffer size hpos hle])
              else queue' k = queue k) ∧
          ∀ k, (∀ n, (source, n) ∈ connections creates pipelineInit calls → g.input n ≠ some k) →
            queue' k = queue k) := by
  have hwired := @wired_buildCalls creates calls
  refine ⟨?_, fun hlog source queue buffer size hpos hle => ⟨fun n hn => ?_, fun k hk => ?_⟩⟩
  · refine ⟨hwired.nodes_le, hwired.queues_le, hwired.outputs_le, fun {k g'} hcreate => ?_,
      fun k hk => hwired.existsUnique_input hk, hwired.input_lt, hwired.output_lt, input_buildCalls⟩
    rcases pipelineCreateQueue_cases creates (buildCalls creates pipelineInit calls) with
      ⟨tried, heq⟩ | ⟨-, heq⟩
    · rw [heq] at hcreate
      cases hcreate
    · rw [heq] at hcreate
      obtain ⟨rfl, rfl⟩ := hcreate
      refine ⟨Nat.lt_irrefl _, fun k' => ?_⟩
      show k' < _ + 1 ↔ _
      omega
  · obtain ⟨k, hmem, hk⟩ := hwired.input_of_mem hn
    refine ⟨k, hk, fun items hitems => ?_⟩
    rw [nodeSendToOutputs_of_mem (hwired.outputs_nodup hlog source) hmem]
    split
    · rename_i hroom
      exact (hitems.push_room hroom buffer size hpos hle).2
    · rename_i hfull
      rw [hitems.push_full hfull buffer size hpos hle]
  · refine nodeSendToOutputs_of_notMem fun hmem => ?_
    obtain ⟨n, hn, hinput⟩ := hwired.mem_of_output hmem
    exact hk n hn hinput

/-- There is a full queue. -/
theorem exists_full : ∃ (q : QueueT) (items : List Packet), Represents q items ∧ items.length = qSize := by
  have hupTo : ∀ n ≤ qSize, ∃ (q : QueueT) (items : List Packet), Represents q items ∧ items.length = n := by
    intro n
    induction n with
    | zero => exact fun _ => ⟨_, [], represents_init zeroed, rfl⟩
    | succ n ih =>
      intro hle
      obtain ⟨q, items, hrep, hlen⟩ := ih (Nat.le_of_succ_le hle)
      obtain ⟨-, hpushed⟩ := hrep.push_room (by omega) (fun _ => 7) 2 (by decide) (by decide)
      exact ⟨_, _, hpushed, by rw [List.length_append, hlen]; rfl⟩
  exact hupTo qSize (Nat.le_refl _)

/-- A sniffer and a collector are connected to one logger, with one queue, and the sniffer also to
a sender whose queue is full. Two bytes of the sniffer get to the logger and not to the sender. -/
theorem pipeline_single_consumer_shared :
    let calls : List ApiCall := [.create (.sniffer 0), .create .collector, .create (.logger ⟨0⟩),
      .create (.sender 0), .connect (some 0) (some 2), .connect (some 1) (some 2), .connect (some 0) (some 3)]
    let g := buildCalls (fun _ => true) pipelineInit calls
    g.outputs 0 = [0, 1] ∧ g.outputs 1 = [0] ∧ g.input 2 = some 0 ∧ g.input 3 = some 1 ∧
      ∃ queue : Nat → QueueT, isFull (queue 1) = true ∧
        Represents (nodeSendToOutputs queue (g.outputs 0) (fun _ => 7) 2 0)
          [Packet.ofBuffer (fun _ => 7) 2 (by decide) (by decide)] ∧
        nodeSendToOutputs queue (g.outputs 0) (fun _ => 7) 2 1 = queue 1 := by
  obtain ⟨full, items, hfull, hlen⟩ := exists_full
  obtain ⟨hsent, -⟩ := (pipeline_single_consumer (fun _ => true)
    [.create (.sniffer 0), .create .collector, .create (.logger ⟨0⟩), .create (.sender 0),
      .connect (some 0) (some 2), .connect (some 1) (some 2), .connect (some 0) (some 3)]).2
    (by decide) 0 (fun k => if k = 0 then init zeroed else full) (fun _ => 7) 2 (by decide) (by decide)
  refine ⟨rfl, rfl, rfl, rfl, fun k => if k = 0 then init zeroed else full,
    hfull.isFull_iff.mpr hlen, ?_, ?_⟩
  · obtain ⟨k, hk, hitems⟩ := hsent 2 (by decide)
    cases hk
    have hstored := hitems [] (represents_init zeroed)
    rwa [if_pos (by decide)] at hstored
  · obtain ⟨k, hk, hitems⟩ := hsent 3 (by decide)
    cases hk
    have hkept := hitems items hfull
    rwa [if_neg (by omega)] at hkept

end VlanTagger.Pipeline
