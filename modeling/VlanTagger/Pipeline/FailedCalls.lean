import Mathlib.Data.List.ReduceOption
import VlanTagger.Pipeline.Wiring

/-!
# What a failed connection leaves behind

`pipeline_connect` and `pipeline_connect_shared` take nothing back when they fail in the
middle. What stays is said here for every point of failure.
-/
namespace VlanTagger.Pipeline

open Nodes

/-- `pipeline_create_queue` would return a queue. -/
def CanCreate (creates : Nat → Bool) (g : Graph) : Prop :=
  g.queueCount < maxPipelineQueues ∧ creates g.tried = true

/-- The pipeline's nodes and queues, every input and all outputs are what they were. -/
structure SameGraph (g g' : Graph) : Prop where
  nodes : g'.nodes = g.nodes
  queueCount : g'.queueCount = g.queueCount
  input : g'.input = g.input
  outputs : g'.outputs = g.outputs

/-- One more queue, which is the input of a node that had none. -/
structure HalfConnected (g g' : Graph) (target : Nat) : Prop where
  unset : g.input target = none
  nodes : g'.nodes = g.nodes
  queueCount : g'.queueCount = g.queueCount + 1
  input : g'.input = Function.update g.input target (some g.queueCount)
  outputs : g'.outputs = g.outputs

/-- One more node, with no connections yet. -/
structure Added (g g' : Graph) (node : Nat) : Prop where
  nodes : g'.nodes = g.nodes ++ [node]
  queueCount : g'.queueCount = g.queueCount
  input : g'.input = g.input
  outputs : g'.outputs = g.outputs

/-- Nothing that was there is taken back: inputs stay, and outputs are only appended. -/
structure Grown (g g' : Graph) : Prop where
  queueCount : g.queueCount ≤ g'.queueCount
  input : ∀ {n k : Nat}, g.input n = some k → g'.input n = some k
  outputs : ∀ n, g.outputs n <+: g'.outputs n

section

variable (creates : Nat → Bool)

/-- Calls of `pipeline_connect`, one after the other, that have returned 0. -/
inductive Connects : Graph → List (Nat × Nat) → Graph → Prop
  | nil {g : Graph} : Connects g [] g
  | cons {g g₁ g₂ : Graph} {source target : Nat} {rest : List (Nat × Nat)}
      (call : pipelineConnect creates g source target = (0, g₁)) (next : Connects g₁ rest g₂) :
      Connects g ((source, target) :: rest) g₂

/-- What `pipeline_connect` and `pipeline_connect_shared` return; none for the other calls. -/
def ApiCall.connectRet (g : Graph) : ApiCall → Option Int
  | .connect (some source) (some target) => some (pipelineConnect creates g source target).1
  | .connect _ _ => some (-1)
  | .connectShared (some source) (some toNodes) => some (pipelineConnectShared creates g source toNodes).1
  | .connectShared _ _ => some (-1)
  | _ => none

/-- Every pointer that is not `NULL` points to a node. -/
def ApiCall.Valid (g : Graph) : ApiCall → Prop
  | .connect source target => (∀ n ∈ source, n < g.heap.length) ∧ ∀ n ∈ target, n < g.heap.length
  | .connectShared source toNodes => (∀ n ∈ source, n < g.heap.length) ∧
      ∀ targets ∈ toNodes, ∀ n, some n ∈ targets → n < g.heap.length
  | _ => True

/-- The call cannot even make its first assignment. -/
def ApiCall.Blocked (g : Graph) : ApiCall → Prop
  | .connect (some _) (some target) => g.input target ≠ none ∨ ¬ CanCreate creates g
  | .connectShared (some _) (some toNodes) =>
    toNodes = [] ∨ creates g.tried = false ∨ maxPipelineNodes ≤ g.nodes.length
  | _ => True

/-- What stays of a call that made its first assignment and then failed. -/
inductive Leftover (g g' : Graph) : ApiCall → Prop
  | connect {source target : Nat} (half : HalfConnected g g' target) :
      Leftover g g' (.connect (some source) (some target))
  /-- the dispatcher, the connections `made`, and at most a queue for the one that failed -/
  | shared {source : Nat} {toNodes : List (Option Nat)} {dispatcher : Nat} {g₁ g₂ : Graph}
      {made rest : List (Nat × Nat)} {failed : Nat × Nat} (added : Added g g₁ dispatcher)
      (order : (source, dispatcher) :: toNodes.reduceOption.map (fun t => (dispatcher, t)) =
        made ++ failed :: rest)
      (connected : Connects creates g₁ made g₂)
      (last : SameGraph g₂ g' ∨ HalfConnected g₂ g' failed.2) :
      Leftover g g' (.connectShared (some source) (some toNodes))

end

section

variable {creates : Nat → Bool} {g g' : Graph} {source target : Nat}

theorem pipelineCreateQueue_of_can (h : CanCreate creates g) : pipelineCreateQueue creates g =
    (some g.queueCount, { g with tried := g.tried + 1, queueCount := g.queueCount + 1 }) := by
  unfold pipelineCreateQueue
  rw [if_neg (Nat.not_le.mpr h.1)]
  exact if_pos h.2

theorem pipelineCreateQueue_of_cannot (h : ¬ CanCreate creates g) :
    ∃ tried, pipelineCreateQueue creates g = (none, { g with tried := tried }) := by
  rcases pipelineCreateQueue_cases creates g with hnone | ⟨hroom, hsome⟩
  · exact hnone
  · unfold pipelineCreateQueue at hsome
    rw [if_neg (Nat.not_le.mpr hroom)] at hsome
    by_cases hcreates : creates g.tried = true
    · exact absurd ⟨hroom, hcreates⟩ h
    · rw [if_neg hcreates] at hsome
      cases hsome

/-- A connection that fails leaves everything as it was, or a queue that was created for it. -/
theorem pipelineConnect_failed (htarget : target < g.heap.length)
    (h : pipelineConnect creates g source target = (-1, g')) :
    (SameGraph g g' ∧ (g.input target ≠ none ∨ ¬ CanCreate creates g)) ∨
      (HalfConnected g g' target ∧ CanCreate creates g) := by
  unfold pipelineConnect at h
  have hnode := List.getElem?_eq_getElem htarget
  have hinput : g.input target = g.heap[target].inputQueue := by
    rw [Graph.input, hnode]
    rfl
  rw [hnode] at h
  simp only at h
  cases hqueue : g.heap[target].inputQueue with
  | some queue =>
    simp only [hqueue] at h
    rcases nodeAddOutput_cases g source queue with heq | ⟨g'', heq, -⟩
    · rw [heq] at h
      cases h
      exact .inl ⟨⟨rfl, rfl, rfl, rfl⟩, .inl (by rw [hinput, hqueue]; simp)⟩
    · rw [heq] at h
      cases h
  | none =>
    simp only [hqueue] at h
    by_cases hcan : CanCreate creates g
    · rw [pipelineCreateQueue_of_can hcan] at h
      simp only at h
      rcases nodeAddOutput_cases (nodeSetInput { g with tried := g.tried + 1, queueCount := g.queueCount + 1 }
          target g.queueCount).2 source g.queueCount with heq | ⟨g'', heq, -⟩
      · rw [heq] at h
        cases h
        exact .inr ⟨⟨hinput.trans hqueue, rfl, rfl, input_nodeSetInput htarget, outputs_nodeSetInput _⟩, hcan⟩
      · rw [heq] at h
        cases h
    · obtain ⟨tried, heq⟩ := pipelineCreateQueue_of_cannot hcan
      rw [heq] at h
      cases h
      exact .inl ⟨⟨rfl, rfl, rfl, rfl⟩, .inr hcan⟩

theorem length_heap_nodeAddOutput (g : Graph) (source queue : Nat) :
    (nodeAddOutput g source queue).2.heap.length = g.heap.length := by
  unfold nodeAddOutput
  split
  · rfl
  · split
    · rfl
    · exact List.length_modify ..

/-- Connecting creates no nodes, and returns 0 or -1. -/
theorem pipelineConnect_nodes (creates : Nat → Bool) (g : Graph) (source target : Nat) :
    (pipelineConnect creates g source target).2.heap.length = g.heap.length ∧
      (pipelineConnect creates g source target).2.nodes = g.nodes ∧
      ((pipelineConnect creates g source target).1 = 0 ∨ (pipelineConnect creates g source target).1 = -1) := by
  have hadd : ∀ (g : Graph) (queue : Nat), (nodeAddOutput g source queue).2.nodes = g.nodes ∧
      ((nodeAddOutput g source queue).1 = 0 ∨ (nodeAddOutput g source queue).1 = -1) := by
    intro g queue
    rcases nodeAddOutput_cases g source queue with heq | ⟨g'', heq, -, hnodes, -⟩
    · rw [heq]
      exact ⟨rfl, .inr rfl⟩
    · rw [heq]
      exact ⟨hnodes, .inl rfl⟩
  unfold pipelineConnect
  cases hnode : g.heap[target]? with
  | none => exact ⟨rfl, rfl, .inr rfl⟩
  | some toNode =>
    cases hqueue : toNode.inputQueue with
    | some queue =>
      simp only [hqueue]
      exact ⟨length_heap_nodeAddOutput g source queue, hadd g queue⟩
    | none =>
      simp only [hqueue]
      rcases pipelineCreateQueue_cases creates g with ⟨tried, heq⟩ | ⟨-, heq⟩
      · rw [heq]
        exact ⟨rfl, rfl, .inr rfl⟩
      · rw [heq]
        refine ⟨?_, hadd _ _⟩
        exact (length_heap_nodeAddOutput _ source _).trans (List.length_modify ..)

/-- The loop over the targets stops at the first connection that fails. -/
theorem connectTargets_failed {dispatcher : Nat} {toNodes : List (Option Nat)}
    (h : connectTargets creates dispatcher g toNodes = (-1, g')) :
    ∃ made failed rest g₁, toNodes.reduceOption = made ++ failed :: rest ∧
      Connects creates g (made.map fun t => (dispatcher, t)) g₁ ∧ g₁.heap.length = g.heap.length ∧
      pipelineConnect creates g₁ dispatcher failed = (-1, g') := by
  induction toNodes generalizing g with
  | nil => cases h
  | cons toNode toNodes ih =>
    cases toNode with
    | none => exact ih h
    | some target =>
      obtain ⟨hheap, -, hret⟩ := pipelineConnect_nodes creates g dispatcher target
      rcases hcall : pipelineConnect creates g dispatcher target with ⟨ret, g₁⟩
      rw [hcall] at hheap hret
      rw [connectTargets, hcall] at h
      simp only at h hret hheap
      rcases hret with rfl | rfl
      · rw [if_neg (by decide)] at h
        obtain ⟨made, failed, rest, g₂, horder, hmade, hlen, hfail⟩ := ih h
        exact ⟨target :: made, failed, rest, g₂, congrArg (target :: ·) horder, .cons hcall hmade,
          hlen.trans hheap, hfail⟩
      · rw [if_pos (by decide)] at h
        cases h
        exact ⟨[], target, toNodes.reduceOption, g, rfl, .nil, rfl, hcall⟩

theorem nodeCreate_some (process : Process) {node : Nat} {g₁ : Graph}
    (h : nodeCreate creates g process = (some node, g₁)) : node = g.heap.length ∧
      g₁.heap.length = g.heap.length + 1 ∧ g₁.nodes = g.nodes ∧ g₁.queueCount = g.queueCount ∧
      creates g.tried = true := by
  unfold nodeCreate at h
  by_cases hcreates : creates g.tried = true
  · rw [if_pos hcreates] at h
    cases h
    exact ⟨rfl, by rw [List.length_append]; rfl, rfl, rfl, hcreates⟩
  · rw [if_neg hcreates] at h
    cases h

theorem nodeCreate_none (process : Process) (h : nodeCreate creates g process = (none, g')) :
    creates g.tried = false ∧ SameGraph g g' := by
  unfold nodeCreate at h
  by_cases hcreates : creates g.tried = true
  · rw [if_pos hcreates] at h
    cases h
  · rw [if_neg hcreates] at h
    cases h
    exact ⟨Bool.not_eq_true _ ▸ hcreates, rfl, rfl, rfl, rfl⟩

theorem pipelineAddNode_of_full (hfull : maxPipelineNodes ≤ g.nodes.length) (node : Nat) :
    pipelineAddNode g node = (-1, g) := by
  rw [pipelineAddNode, if_pos hfull]

theorem pipelineAddNode_of_room (hroom : ¬ maxPipelineNodes ≤ g.nodes.length) (node : Nat) :
    pipelineAddNode g node = (0, { g with nodes := g.nodes ++ [node] }) := by
  rw [pipelineAddNode, if_neg hroom]

theorem failed_or_half (htarget : target < g.heap.length)
    (h : pipelineConnect creates g source target = (-1, g')) : SameGraph g g' ∨ HalfConnected g g' target :=
  (pipelineConnect_failed htarget h).imp And.left And.left

/-- The connections behind the new dispatcher, up to the first that fails. -/
theorem connectAll_failed {dispatcher : Nat} {toNodes : List (Option Nat)} (hdisp : dispatcher < g.heap.length)
    (htargets : ∀ n, some n ∈ toNodes → n < g.heap.length)
    (h : (match pipelineConnect creates g source dispatcher with
      | (ret, g) => if ret ≠ 0 then (-1, g) else connectTargets creates dispatcher g toNodes) = (-1, g')) :
    ∃ made failed rest g₁,
      (source, dispatcher) :: toNodes.reduceOption.map (fun t => (dispatcher, t)) = made ++ failed :: rest ∧
      Connects creates g made g₁ ∧ (SameGraph g₁ g' ∨ HalfConnected g₁ g' failed.2) := by
  obtain ⟨hheap, -, hret⟩ := pipelineConnect_nodes creates g source dispatcher
  rcases hcall : pipelineConnect creates g source dispatcher with ⟨ret, g₁⟩
  rw [hcall] at h hheap hret
  simp only at h hheap hret
  rcases hret with rfl | rfl
  · rw [if_neg (by decide)] at h
    obtain ⟨made, failed, rest, g₂, horder, hmade, hlen, hfail⟩ := connectTargets_failed h
    have hmem : some failed ∈ toNodes := by
      rw [← List.reduceOption_mem_iff, horder]
      exact List.mem_append_right _ List.mem_cons_self
    refine ⟨(source, dispatcher) :: made.map (fun t => (dispatcher, t)), (dispatcher, failed),
      rest.map (fun t => (dispatcher, t)), g₂, ?_, .cons hcall hmade, ?_⟩
    · rw [horder, List.map_append, List.map_cons]
      rfl
    · apply failed_or_half _ hfail
      rw [hlen, hheap]
      exact htargets failed hmem
  · rw [if_pos (by decide)] at h
    cases h
    exact ⟨[], _, _, g, rfl, .nil, failed_or_half hdisp hcall⟩

/-- Without a dispatcher in the pipeline nothing has changed; with one, it stays. -/
theorem pipelineConnectShared_failed {toNodes : List (Option Nat)}
    (htargets : ∀ n, some n ∈ toNodes → n < g.heap.length)
    (h : pipelineConnectShared creates g source toNodes = (-1, g')) :
    (SameGraph g g' ∧ (toNodes = [] ∨ creates g.tried = false ∨ maxPipelineNodes ≤ g.nodes.length)) ∨
      (¬ (toNodes = [] ∨ creates g.tried = false ∨ maxPipelineNodes ≤ g.nodes.length) ∧
        Leftover creates g g' (.connectShared (some source) (some toNodes))) := by
  have hin := @input_nodeCreate creates g (.dispatcher (dispatcherNodeCreate .roundRobin))
  have hout := @outputs_nodeCreate creates g (.dispatcher (dispatcherNodeCreate .roundRobin))
  unfold pipelineConnectShared at h
  by_cases hempty : toNodes = []
  · rw [if_pos hempty] at h
    cases h
    exact .inl ⟨⟨rfl, rfl, rfl, rfl⟩, .inl hempty⟩
  rw [if_neg hempty] at h
  rcases hcreate : nodeCreate creates g (.dispatcher (dispatcherNodeCreate .roundRobin)) with
    ⟨dispatcher | dispatcher, g₀⟩
  · -- the dispatcher could not be created
    obtain ⟨hcreates, hsame⟩ := nodeCreate_none _ hcreate
    rw [hcreate] at h
    cases h
    exact .inl ⟨hsame, .inr (.inl hcreates)⟩
  rw [hcreate] at h hin hout
  simp only at h hin hout
  obtain ⟨rfl, hlen, hnodes, hcount, hcreates⟩ := nodeCreate_some _ hcreate
  by_cases hfull : maxPipelineNodes ≤ g.nodes.length
  · -- the pipeline has no room for it, and it is destroyed
    rw [pipelineAddNode_of_full (hnodes ▸ hfull)] at h
    cases h
    exact .inl ⟨⟨hnodes, hcount, hin, hout⟩, .inr (.inr hfull)⟩
  rw [pipelineAddNode_of_room (hnodes ▸ hfull)] at h
  change (if (0 : Int) ≠ 0 then _ else _) = _ at h
  rw [if_neg (by decide)] at h
  have hadded : Added g { g₀ with nodes := g₀.nodes ++ [g.heap.length] } g.heap.length :=
    ⟨congrArg (· ++ [g.heap.length]) hnodes, hcount, hin, hout⟩
  refine .inr ⟨?_, ?_⟩
  · rintro (hno | hno | hno)
    · exact hempty hno
    · rw [hno] at hcreates
      cases hcreates
    · exact hfull hno
  have hheap : ({ g₀ with nodes := g₀.nodes ++ [g.heap.length] } : Graph).heap.length = g.heap.length + 1 := hlen
  generalize ({ g₀ with nodes := g₀.nodes ++ [g.heap.length] } : Graph) = g₁ at h hadded hheap
  obtain ⟨made, failed, rest, g₂, horder, hmade, hlast⟩ := @connectAll_failed creates g₁ g' source _ _
    (by omega) (fun n hn => (htargets n hn).trans (by omega)) h
  exact .shared hadded horder hmade hlast

/-! ## Every failed call -/

theorem grown_assigned {s s' : Graph × List (Nat × Nat)} (h : Assigned s s') : Grown s.1 s'.1 := by
  induction h with
  | refl => exact ⟨le_rfl, id, fun _ => List.prefix_refl _⟩
  | tail _ hs ih =>
    refine ⟨ih.queueCount.trans ?_, fun hn => hs.input_eq (ih.input hn), fun n => (ih.outputs n).trans ?_⟩
    · cases hs with
      | none nodes queueCount input outputs => exact queueCount.ge
      | inputQueue unset room nodes queueCount input outputs =>
        rw [queueCount]
        exact Nat.le_succ _
      | outputQueue set room nodes queueCount input outputs => exact queueCount.ge
    · cases hs with
      | none nodes queueCount input outputs =>
        rw [outputs]
      | inputQueue unset room nodes queueCount input outputs =>
        rw [outputs]
      | @outputQueue g g' log source target queue set room nodes queueCount input outputs =>
        rw [outputs]
        by_cases hn : n = source
        · subst hn
          rw [Function.update_self]
          exact List.prefix_append _ _
        · rw [Function.update_of_ne hn]

theorem nodes_connects {made : List (Nat × Nat)} (h : Connects creates g made g') :
    g'.nodes = g.nodes := by
  induction h with
  | nil => rfl
  | @cons g g₁ g₂ source target rest call next ih =>
    obtain ⟨-, hnodes, -⟩ := pipelineConnect_nodes creates g source target
    rw [call] at hnodes
    exact ih.trans hnodes

theorem Leftover.not_same {c : ApiCall} (h : Leftover creates g g' c) : ¬ SameGraph g g' := by
  intro hsame
  cases h with
  | connect half =>
    have hcount := hsame.queueCount
    rw [half.queueCount] at hcount
    omega
  | @shared _ _ dispatcher g₁ g₂ made rest failed added order connected last =>
    have hnodes : g'.nodes = g.nodes ++ [dispatcher] := by
      rw [← added.nodes, ← nodes_connects connected]
      rcases last with last | last
      · exact last.nodes
      · exact last.nodes
    rw [hsame.nodes] at hnodes
    exact absurd hnodes (by simp)

/-- A connection that fails takes nothing back. The graph is what it was exactly if the call
was blocked before its first assignment; else its queue, or its dispatcher with the
connections made before, stays. -/
theorem failed_connection_leaves (creates : Nat → Bool) (calls : List ApiCall) (c : ApiCall) :
    let g := buildCalls creates pipelineInit calls
    let g' := c.run creates g
    c.Valid g → c.connectRet creates g = some (-1) →
      Grown g g' ∧ (SameGraph g g' ↔ c.Blocked creates g) ∧
        (¬ c.Blocked creates g → Leftover creates g g' c) := by
  intro g g' hvalid hret
  have hgrown : Grown g g' := grown_assigned (@assigned_run creates g [] c)
  refine ⟨hgrown, ?_⟩
  have hcase : (SameGraph g g' ∧ c.Blocked creates g) ∨ (¬ c.Blocked creates g ∧ Leftover creates g g' c) := by
    cases c with
    | create process => cases hret
    | addNode node => cases hret
    | connect source target =>
      cases source with
      | none => exact .inl ⟨⟨rfl, rfl, rfl, rfl⟩, trivial⟩
      | some source =>
        cases target with
        | none => exact .inl ⟨⟨rfl, rfl, rfl, rfl⟩, trivial⟩
        | some target =>
          rcases pipelineConnect_failed (hvalid.2 target rfl) (Prod.ext (Option.some.inj hret) rfl) with
            hsame | ⟨hhalf, hcan⟩
          · exact .inl hsame
          · refine .inr ⟨?_, .connect hhalf⟩
            rintro (hset | hcannot)
            · exact hset hhalf.unset
            · exact hcannot hcan
    | connectShared source toNodes =>
      cases source with
      | none => exact .inl ⟨⟨rfl, rfl, rfl, rfl⟩, trivial⟩
      | some source =>
        cases toNodes with
        | none => exact .inl ⟨⟨rfl, rfl, rfl, rfl⟩, trivial⟩
        | some toNodes =>
          exact pipelineConnectShared_failed (hvalid.2 toNodes rfl) (Prod.ext (Option.some.inj hret) rfl)
  rcases hcase with ⟨hsame, hblocked⟩ | ⟨hfree, hleft⟩
  · exact ⟨⟨fun _ => hblocked, fun _ => hsame⟩, fun hfree => absurd hblocked hfree⟩
  · exact ⟨⟨fun hsame => absurd hsame hleft.not_same, fun hblocked => absurd hblocked hfree⟩, fun _ => hleft⟩

end

/-- A sniffer with 16 outputs, and a sender that nothing is connected to. -/
def fullSource : List ApiCall :=
  [.create (.sniffer 0), .create (.sender 0), .create (.sender 0)] ++
    List.replicate 16 (.connect (some 0) (some 1))

/-- The queue created for the sender stays its input. -/
theorem failed_connection_leaves_queue :
    let g := buildCalls (fun _ => true) pipelineInit fullSource
    Grown g ((ApiCall.connect (some 0) (some 2)).run (fun _ => true) g) ∧
      Leftover (fun _ => true) g ((ApiCall.connect (some 0) (some 2)).run (fun _ => true) g)
        (.connect (some 0) (some 2)) := by
  have hall := failed_connection_leaves (fun _ => true) fullSource (.connect (some 0) (some 2))
    ⟨by decide, by decide⟩ (by decide)
  refine ⟨hall.1, hall.2.2 ?_⟩
  rintro (hset | hcannot)
  · exact hset (by decide)
  · exact hcannot ⟨by decide, rfl⟩

/-- So a connection that fails does not leave the graph as it was. -/
theorem failed_connection_changes : ¬ ∀ (creates : Nat → Bool) (calls : List ApiCall) (c : ApiCall),
    c.Valid (buildCalls creates pipelineInit calls) →
    c.connectRet creates (buildCalls creates pipelineInit calls) = some (-1) →
    SameGraph (buildCalls creates pipelineInit calls) (c.run creates (buildCalls creates pipelineInit calls)) := by
  intro hall
  have hsame := hall (fun _ => true) fullSource (.connect (some 0) (some 2)) ⟨by decide, by decide⟩ (by decide)
  exact absurd hsame.queueCount (by decide)

end VlanTagger.Pipeline
