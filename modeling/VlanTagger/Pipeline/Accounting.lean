import Mathlib.Data.Multiset.Bind
import VlanTagger.Pipeline.Allocation

/-!
# Every block is accounted for

The functions of the allocation model against those of the graph. Each of them, whatever the
operating system refuses, is defined, does on its pipeline what the function of the graph does
for some outcomes of the creations, and holds in the end exactly the blocks that its pipeline
names: the contexts of all nodes, the nodes that were not destroyed, the queues and the arrays.
-/
namespace VlanTagger.Pipeline.Allocation

open Lib Nodes

/-! ## What is held -/

def ContextBlocks.held (c : ContextBlocks) : Multiset (Handle Kind) :=
  {c.block.val} + Lib.held c.tagRules + Lib.held (c.socket.map PacketSocket.fd)

namespace NodeBlocks

/-- The context, which `node_destroy` leaves. -/
def contextHeld (b : NodeBlocks) : Multiset (Handle Kind) := (b.context.map ContextBlocks.held).getD 0

def held (b : NodeBlocks) : Multiset (Handle Kind) :=
  {b.outputQueues.val} + ({b.block.val} + b.contextHeld)

def socket (b : NodeBlocks) : Option PacketSocket := b.context.bind ContextBlocks.socket

end NodeBlocks

def usesSocket : Process → Bool
  | .sniffer _ => true
  | .sender _ => true
  | _ => false

def Cell.held (cell : Cell) : Multiset (Handle Kind) :=
  if cell.destroyed then cell.blocks.contextHeld else cell.blocks.held

def heapHeld (heap : List Cell) : Multiset (Handle Kind) := (heap : Multiset Cell).bind Cell.held

def queuesHeld (queues : List (HandleOf Kind.queue)) : Multiset (Handle Kind) :=
  (queues.map Subtype.val : List (Handle Kind))

namespace PipelineBlocks

/-- The pipeline itself and its arrays. -/
def arraysHeld (P : PipelineBlocks) : Multiset (Handle Kind) :=
  Lib.held P.nodesArray + (Lib.held P.queuesArray + Lib.held P.self)

def held (P : PipelineBlocks) : Multiset (Handle Kind) :=
  heapHeld P.heap + (queuesHeld P.queues + P.arraysHeld)

/-- The pointer leads to a node. -/
def Alive (P : PipelineBlocks) (n : Nat) : Prop := ∃ cell, P.heap[n]? = some cell ∧ cell.destroyed = false

/-- `pipeline_init` has succeeded. -/
structure Ready (P : PipelineBlocks) : Prop where
  nodesArray : P.nodesArray ≠ none
  queuesArray : P.queuesArray ≠ none

/-- The graph, when so many creations were tried. -/
def graph (P : PipelineBlocks) (tried : Nat) : Graph :=
  ⟨P.heap.map Cell.node, P.nodes, P.queues.length, tried⟩

/-- The pipeline stays where it is, and no pointer to a node is lost. -/
structure Extends (P P' : PipelineBlocks) : Prop where
  self : P'.self = P.self
  nodesArray : P'.nodesArray = P.nodesArray
  queuesArray : P'.queuesArray = P.queuesArray
  alive : ∀ n, P.Alive n → P'.Alive n

/-- The sniffers and the senders have a socket, and no other node has one. -/
def Socketed (P : PipelineBlocks) : Prop :=
  ∀ cell ∈ P.heap, cell.blocks.socket.isSome = usesSocket cell.node.process

/-- The nodes that are not destroyed are those of the pipeline and, in this order, those that
are still to be added to it. -/
structure Tidy (pending : List Nat) (P : PipelineBlocks) : Prop where
  nodup : (P.nodes ++ pending).Nodup
  alive : ∀ n, P.Alive n ↔ n ∈ P.nodes ++ pending
  socketed : P.Socketed

/-- No node was destroyed, and the pipeline has room for the nodes that are still to be added
to it and for so many more. -/
structure Registered (spare : Nat) (pending : List Nat) (P : PipelineBlocks) : Prop where
  tidy : Tidy pending P
  whole : ∀ n < P.heap.length, P.Alive n
  room : P.nodes.length + pending.length + spare ≤ maxPipelineNodes

end PipelineBlocks

open PipelineBlocks

section

variable {P P' P'' : PipelineBlocks} {n m : Nat} {cell : Cell}

theorem Extends.refl (P : PipelineBlocks) : P.Extends P := ⟨rfl, rfl, rfl, fun _ h => h⟩

theorem Extends.trans (h : P.Extends P') (h' : P'.Extends P'') : P.Extends P'' where
  self := h'.self.trans h.self
  nodesArray := h'.nodesArray.trans h.nodesArray
  queuesArray := h'.queuesArray.trans h.queuesArray
  alive := fun n hn => h'.alive n (h.alive n hn)

theorem Extends.ready (h : P.Extends P') (hready : P.Ready) : P'.Ready where
  nodesArray := h.nodesArray ▸ hready.nodesArray
  queuesArray := h.queuesArray ▸ hready.queuesArray

theorem heapHeld_append (l l' : List Cell) : heapHeld (l ++ l') = heapHeld l + heapHeld l' := by
  rw [heapHeld, ← Multiset.coe_add, Multiset.add_bind]
  rfl

theorem heapHeld_cons (cell : Cell) (l : List Cell) : heapHeld (cell :: l) = cell.held + heapHeld l := by
  rw [heapHeld, ← Multiset.cons_coe, Multiset.cons_bind]
  rfl

/-- What a change of one cell does to what is held. -/
theorem heapHeld_modify {heap : List Cell} (h : heap[n]? = some cell) (f : Cell → Cell) :
    ∃ rest, heapHeld heap = cell.held + rest ∧ heapHeld (heap.modify n f) = (f cell).held + rest := by
  obtain ⟨hlt, hget⟩ := List.getElem?_eq_some_iff.mp h
  obtain ⟨l, c, l', hsplit, hlen, hmod⟩ := List.exists_of_modify f hlt
  have hc : c = cell := by
    have hmid : heap[n]? = some c := by
      rw [hsplit, List.getElem?_append_right (Nat.le_of_eq hlen), hlen, Nat.sub_self]
      rfl
    exact Option.some.inj (hmid.symm.trans h)
  refine ⟨heapHeld l + heapHeld l', ?_, ?_⟩
  · rw [hsplit, heapHeld_append, heapHeld_cons, hc, add_left_comm]
  · rw [hmod, heapHeld_append, heapHeld_cons, hc, add_left_comm]

theorem Alive.lt (h : P.Alive n) : n < P.heap.length := by
  obtain ⟨cell, hcell, -⟩ := h
  exact (List.getElem?_eq_some_iff.mp hcell).1

/-- A node that is not destroyed is held. -/
theorem cell_le_held {rest : Multiset (Handle Kind)} (hcell : P.heap[n]? = some cell)
    (hd : cell.destroyed = false) : cell.blocks.held ≤ heapHeld P.heap + rest := by
  have hmem : cell ∈ (P.heap : Multiset Cell) := List.mem_of_getElem? hcell
  have hheld : cell.held = cell.blocks.held := if_neg (by rw [hd]; exact Bool.false_ne_true)
  calc cell.blocks.held ≤ heapHeld P.heap := hheld ▸ Multiset.le_bind _ hmem
    _ ≤ heapHeld P.heap + rest := Multiset.le_add_right _ _

theorem block_mem_held {rest : Multiset (Handle Kind)} (hcell : P.heap[n]? = some cell)
    (hd : cell.destroyed = false) : cell.blocks.block.val ∈ heapHeld P.heap + rest :=
  Multiset.mem_of_le (cell_le_held hcell hd)
    (Multiset.mem_add.mpr (Or.inr (Multiset.mem_add.mpr (Or.inl (Multiset.mem_singleton_self _)))))

theorem outputQueues_mem_held {rest : Multiset (Handle Kind)} (hcell : P.heap[n]? = some cell)
    (hd : cell.destroyed = false) : cell.blocks.outputQueues.val ∈ heapHeld P.heap + rest :=
  Multiset.mem_of_le (cell_le_held hcell hd) (Multiset.mem_add.mpr (Or.inl (Multiset.mem_singleton_self _)))

theorem nodesArray_le_held : Lib.held P.nodesArray ≤ P.held :=
  (Multiset.le_add_right _ _).trans ((Multiset.le_add_left _ _).trans (Multiset.le_add_left _ _))

theorem queuesArray_le_held : Lib.held P.queuesArray ≤ P.held :=
  (Multiset.le_add_right _ _).trans
    ((Multiset.le_add_left _ _).trans ((Multiset.le_add_left _ _).trans (Multiset.le_add_left _ _)))

theorem owns_accessNode {rest : Multiset (Handle Kind)} {post : Cell → Multiset (Handle Kind) → Prop}
    (hn : P.Alive n)
    (next : ∀ cell, P.heap[n]? = some cell → cell.destroyed = false → post cell (heapHeld P.heap + rest)) :
    Owns (heapHeld P.heap + rest) (P.accessNode n) post := by
  obtain ⟨cell, hcell, hd⟩ := hn
  unfold accessNode
  rw [hcell]
  exact Owns.bind (Owns.access (block_mem_held hcell hd) (Owns.pure (next cell hcell hd)))

end

/-! ## Against the graph -/

/-- What the program made of `P` is what `f` makes of its graph, for some outcomes of the
creations that it tries. -/
def Refines {α : Type} (f : (Nat → Bool) → Graph → α × Graph) (P : PipelineBlocks)
    (r : α × PipelineBlocks) : Prop :=
  ∀ tried, ∃ outcomes : List Bool, ∀ creates : Nat → Bool,
    (∀ i b, outcomes[i]? = some b → creates (tried + i) = b) →
      f creates (P.graph tried) = (r.1, r.2.graph (tried + outcomes.length))

/-- `f`, and then `g` on what it returned. -/
def andThen {α β : Type} (f : (Nat → Bool) → Graph → α × Graph) (g : α → (Nat → Bool) → Graph → β × Graph)
    (creates : Nat → Bool) (G : Graph) : β × Graph := g (f creates G).1 creates (f creates G).2

/-- What a call on `P` leaves. It establishes `after` where `before` held. -/
structure Done {α : Type} (f : (Nat → Bool) → Graph → α × Graph) (before : PipelineBlocks → Prop)
    (after : α → PipelineBlocks → Prop) (P : PipelineBlocks) (r : α × PipelineBlocks) (o : Multiset (Handle Kind)) : Prop where
  held : o = r.2.held
  refines : Refines f P r
  extended : P.Extends r.2
  keeps : before P → after r.1 r.2

def Implements {α : Type} (P : PipelineBlocks) (c : Program Kind (α × PipelineBlocks))
    (f : (Nat → Bool) → Graph → α × Graph) (before : PipelineBlocks → Prop)
    (after : α → PipelineBlocks → Prop) : Prop :=
  Owns P.held c (Done f before after P)

section

variable {α β : Type} {P P' : PipelineBlocks} {c : Program Kind (α × PipelineBlocks)}
  {d : α × PipelineBlocks → Program Kind (β × PipelineBlocks)}
  {f f' : (Nat → Bool) → Graph → α × Graph} {a : α} {before : PipelineBlocks → Prop}
  {mid : α → PipelineBlocks → Prop} {last : β → PipelineBlocks → Prop}

theorem Refines.pure (h : ∀ creates tried, f creates (P.graph tried) = (a, P'.graph tried)) :
    Refines f P (a, P') := fun tried => ⟨[], fun creates _ => h creates tried⟩

/-- One creation with this outcome. -/
theorem Refines.create {b : Bool}
    (h : ∀ creates tried, creates tried = b → f creates (P.graph tried) = (a, P'.graph (tried + 1))) :
    Refines f P (a, P') := fun tried => ⟨[b], fun creates hc => h creates tried (hc 0 b rfl)⟩

theorem Refines.bind {r : β × PipelineBlocks} (g : α → (Nat → Bool) → Graph → β × Graph)
    (h : Refines f P (a, P')) (h' : Refines (g a) P' r) :
    Refines (andThen f g) P r := by
  intro tried
  obtain ⟨outcomes, hf⟩ := h tried
  obtain ⟨outcomes', hg⟩ := h' (tried + outcomes.length)
  refine ⟨outcomes ++ outcomes', fun creates hc => ?_⟩
  have hfirst := hf creates fun i b hi => hc i b (List.getElem?_append_left
    (List.getElem?_eq_some_iff.mp hi).1 ▸ hi)
  have hsecond := hg creates fun i b hi => by
    rw [Nat.add_assoc]
    apply hc (outcomes.length + i) b
    rw [List.getElem?_append_right (Nat.le_add_right _ _), Nat.add_sub_cancel_left]
    exact hi
  rw [andThen, hfirst, hsecond, List.length_append, Nat.add_assoc]

theorem Refines.congr {r : α × PipelineBlocks} (h : Refines f P r)
    (heq : ∀ creates tried, f' creates (P.graph tried) = f creates (P.graph tried)) : Refines f' P r := by
  intro tried
  obtain ⟨outcomes, hf⟩ := h tried
  exact ⟨outcomes, fun creates hc => (heq creates tried).trans (hf creates hc)⟩

/-- One call behind another. -/
theorem Done.trans {g : α → (Nat → Bool) → Graph → β × Graph} {r : β × PipelineBlocks}
    {o o' : Multiset (Handle Kind)} (h : Done f before mid P (a, P') o) (h' : Done (g a) (mid a) last P' r o') :
    Done (andThen f g) before last P r o' where
  held := h'.held
  refines := Refines.bind g h.refines h'.refines
  extended := Extends.trans h.extended h'.extended
  keeps := fun hbefore => h'.keeps (h.keeps hbefore)

theorem Implements.pure (h : ∀ creates tried, f creates (P.graph tried) = (a, P.graph tried)) :
    Implements P (Pure.pure (a, P)) f before fun _ => before :=
  Owns.pure ⟨rfl, Refines.pure h, Extends.refl P, id⟩

/-- On the graph of `P` it may be another function. -/
theorem Implements.congr (h : Implements P c f before mid)
    (heq : ∀ creates tried, f' creates (P.graph tried) = f creates (P.graph tried)) :
    Implements P c f' before mid := by
  apply h.mono
  intro r o hr
  exact ⟨hr.held, hr.refines.congr heq, hr.extended, hr.keeps⟩

theorem Implements.bind (g : α → (Nat → Bool) → Graph → β × Graph) (h : Implements P c f before mid)
    (next : ∀ a P', P.Extends P' → Implements P' (d (a, P')) (g a) (mid a) last) :
    Implements P (c >>= d) (andThen f g) before last := by
  refine Owns.bind (h.mono ?_)
  intro ⟨a, P'⟩ o hr
  rw [hr.held]
  exact (next a P' hr.extended).mono fun r o' hr' => hr.trans hr'

/-- The pointer is followed first. -/
theorem Implements.accessNode {n : Nat} {k : Cell → Program Kind (α × PipelineBlocks)} (hn : P.Alive n)
    (next : ∀ cell, P.heap[n]? = some cell → cell.destroyed = false →
      Implements P (k cell) f before mid) :
    Implements P (P.accessNode n >>= k) f before mid :=
  Owns.bind (owns_accessNode hn next)

end

/-! ## The creation functions -/

/-- A creation function returns a node of this process, of which it holds every block, or
`NULL`, and then it holds nothing. Without a process it refuses its arguments. -/
def AllOrNothing (create : Creation) (process : Option Process) : Prop :=
  Owns 0 create fun r o =>
    match r with
    | none => o = 0
    | some (p, blocks) => process = some p ∧ blocks.socket.isSome = usesSocket p ∧ o = blocks.held

section

variable (os : OperatingSystem)

theorem owns_clearAndExit {α : Type} {hs : List (Handle Kind)} {owned rest : Multiset (Handle Kind)}
    {post : Option α → Multiset (Handle Kind) → Prop} (split : owned = (hs : Multiset (Handle Kind)) + rest)
    (next : post none rest) : Owns owned (clearAndExit hs) post := by
  rw [split]
  exact Owns.bind (Owns.releaseAll (Owns.pure next))

theorem owns_setupPacketSocket (devName : CString) : Owns 0 (setupPacketSocket os devName) fun r o =>
    o = Lib.held (r.map PacketSocket.fd) := by
  unfold setupPacketSocket
  split
  · exact Owns.pure rfl
  · refine Owns.bind (Owns.acquire (Owns.pure rfl) fun fd => ?_)
    have hclear : Owns (fd.val ::ₘ 0) (clearAndExit [fd.val] : Program Kind (Option PacketSocket)) fun r o =>
        o = Lib.held (r.map PacketSocket.fd) := owns_clearAndExit (add_zero _).symm rfl
    refine Owns.bind (Owns.ask fun ifIndex => ?_)
    cases ifIndex with
    | none => exact hclear
    | some ifIndex =>
      by_cases hzero : ifIndex = 0
      · simp only [hzero, if_true]
        exact hclear
      · simp only [hzero, if_false]
        refine Owns.bind (Owns.ask fun bound => ?_)
        cases bound with
        | false => exact hclear
        | true => exact Owns.pure rfl

theorem owns_nodeCreate (process : Process) (context : Option ContextBlocks) :
    Owns 0 (nodeCreate os process context) fun r o =>
      match r with
      | none => o = 0
      | some (p, blocks) => p = process ∧ blocks.context = context ∧
          o = {blocks.outputQueues.val} + {blocks.block.val} := by
  unfold nodeCreate
  refine Owns.bind (Owns.acquire (Owns.pure rfl) fun node => ?_)
  refine Owns.bind (Owns.acquire (owns_clearAndExit (add_zero _).symm rfl) fun outputQueues => ?_)
  exact Owns.pure ⟨rfl, rfl, rfl⟩

/-- A node behind its context: when the node fails, what the context owns is given back. -/
theorem owns_nodeCreate_context {process : Process} (ctx : ContextBlocks) {owned : Multiset (Handle Kind)}
    {hs : List (Handle Kind)} (howned : owned = ctx.held) (hctx : ctx.held = (hs : Multiset (Handle Kind)))
    (hsocket : ctx.socket.isSome = usesSocket process) :
    Owns owned (do
      match ← nodeCreate os process (some ctx) with
      | none => clearAndExit hs
      | some node => return some node) fun r o =>
        match r with
        | none => o = 0
        | some (p, blocks) => some process = some p ∧ blocks.socket.isSome = usesSocket p ∧ o = blocks.held := by
  rw [howned]
  refine Owns.bind ((owns_nodeCreate os process (some ctx)).call (zero_add _).symm ?_)
  intro r o hr
  cases r with
  | none =>
    have hsplit : o + ctx.held = (hs : Multiset (Handle Kind)) + 0 := by rw [hr, zero_add, add_zero, hctx]
    exact owns_clearAndExit hsplit rfl
  | some node =>
    obtain ⟨hp, hcontext, ho⟩ := hr
    refine Owns.pure ⟨congrArg some hp.symm, ?_, ?_⟩
    · rw [NodeBlocks.socket, hcontext, hp]
      exact hsocket
    rw [ho, add_assoc, NodeBlocks.held, NodeBlocks.contextHeld, hcontext]
    rfl

theorem contextNodeCreate_allOrNothing {process : Process} (hsocket : usesSocket process = false) :
    AllOrNothing (contextNodeCreate os process) (some process) := by
  refine Owns.bind (Owns.acquire (Owns.pure rfl) fun ctx => ?_)
  exact owns_nodeCreate_context os ⟨ctx, none, none⟩ rfl rfl hsocket.symm

theorem packetCounterNodeCreate_allOrNothing {logInterval : Int} (h : 0 < logInterval) :
    AllOrNothing (packetCounterNodeCreate os logInterval) (some (.packetCounter Nodes.packetCounterNodeCreate)) := by
  unfold packetCounterNodeCreate
  rw [if_neg (Int.not_le.mpr h)]
  exact contextNodeCreate_allOrNothing os rfl

theorem collectorNodeCreate_allOrNothing : AllOrNothing (collectorNodeCreate os) (some .collector) := by
  apply (owns_nodeCreate os .collector none).mono
  intro r o hr
  cases r with
  | none => exact hr
  | some node =>
    obtain ⟨hp, hcontext, ho⟩ := hr
    refine ⟨congrArg some hp.symm, ?_, ?_⟩
    · rw [NodeBlocks.socket, hcontext, hp]
      rfl
    rw [ho, NodeBlocks.held, NodeBlocks.contextHeld, hcontext]
    rfl

theorem taggerNodeCreate_allOrNothing (host : ByteOrder) (tagRules : List ConfigParser.TagRule) :
    AllOrNothing (taggerNodeCreate os host tagRules)
      ((Nodes.taggerNodeCreate host tagRules).map fun ctx => .tagger ctx fun _ => 0) := by
  unfold taggerNodeCreate
  cases Nodes.taggerNodeCreate host tagRules with
  | none => exact Owns.pure rfl
  | some taggerContext =>
    refine Owns.bind (Owns.acquire (Owns.pure rfl) fun ctx => ?_)
    refine Owns.bind (Owns.acquire (owns_clearAndExit (add_zero _).symm rfl) fun rules => ?_)
    exact owns_nodeCreate_context os ⟨ctx, some rules, none⟩ (Multiset.cons_swap _ _ _)
      (Multiset.cons_swap ctx.val rules.val 0) rfl

theorem socketNodeCreate_allOrNothing {process : Process} (hsocket : usesSocket process = true)
    (devName : CString) :
    AllOrNothing (socketNodeCreate os process devName) (some process) := by
  refine Owns.bind (Owns.acquire (Owns.pure rfl) fun ctx => ?_)
  refine Owns.bind ((owns_setupPacketSocket os devName).call (zero_add _).symm ?_)
  intro socket o ho
  cases socket with
  | none =>
    rw [ho]
    exact owns_clearAndExit (add_zero _).symm rfl
  | some socket =>
    rw [ho]
    exact owns_nodeCreate_context os ⟨ctx, none, some socket⟩ (add_comm _ _) (add_comm _ _) hsocket.symm

end

/-! ## Nodes and queues -/

section

variable {P : PipelineBlocks} {spare : Nat} {pending : List Nat}

theorem map_modify {α β : Type} {f : α → α} {g : β → β} {h : α → β} (hfg : ∀ a, h (f a) = g (h a))
    (l : List α) (n : Nat) : (l.modify n f).map h = (l.map h).modify n g := by
  apply List.ext_getElem?
  intro i
  rw [List.getElem?_map, List.getElem?_modify, List.getElem?_modify, List.getElem?_map]
  cases l[i]? with
  | none => rfl
  | some a =>
    by_cases hni : n = i
    · simp only [hni, if_true, Option.map_some, hfg, Option.map_eq_map]
    · simp only [hni, if_false, Option.map_some, Option.map_eq_map]

theorem held_updateNode (P : PipelineBlocks) (n : Nat) (u : Node → Node) : (P.updateNode n u).held = P.held := by
  have hheap : heapHeld (P.updateNode n u).heap = heapHeld P.heap := by
    cases hcell : P.heap[n]? with
    | none =>
      change heapHeld (P.heap.modify n _) = _
      rw [List.modify_eq_self (List.getElem?_eq_none_iff.mp hcell)]
    | some cell =>
      obtain ⟨rest, hbefore, hafter⟩ := heapHeld_modify hcell fun cell => { cell with node := u cell.node }
      exact hafter.trans hbefore.symm
  rw [PipelineBlocks.held, hheap]
  rfl

theorem graph_updateNode (P : PipelineBlocks) (n : Nat) (u : Node → Node) (tried : Nat) :
    (P.updateNode n u).graph tried = (P.graph tried).update n u := by
  have hmap : (P.heap.modify n fun cell => { cell with node := u cell.node }).map Cell.node =
      (P.heap.map Cell.node).modify n u := by
    refine map_modify ?_ P.heap n
    exact fun _ => rfl
  exact congrArg (fun heap => (⟨heap, P.nodes, P.queues.length, tried⟩ : Graph)) hmap

theorem heap_update (P : PipelineBlocks) (n m : Nat) (f : Cell → Cell) :
    (P.update n f).heap[m]? = (P.heap[m]?).map fun cell => if n = m then f cell else cell := by
  refine (List.getElem?_modify f n P.heap m).trans ?_
  by_cases hnm : n = m <;> cases P.heap[m]? <;> simp [hnm]

theorem alive_updateNode {n m : Nat} {u : Node → Node} : (P.updateNode n u).Alive m ↔ P.Alive m := by
  unfold PipelineBlocks.Alive PipelineBlocks.updateNode
  rw [heap_update]
  cases hcell : P.heap[m]? with
  | none => exact Iff.rfl
  | some cell => by_cases hnm : n = m <;> simp [hnm]

theorem Extends.updateNode (P : PipelineBlocks) (n : Nat) (u : Node → Node) : P.Extends (P.updateNode n u) :=
  ⟨rfl, rfl, rfl, fun _ h => alive_updateNode.mpr h⟩

theorem Registered.updateNode {n : Nat} {u : Node → Node} (hu : ∀ node, (u node).process = node.process)
    (h : Registered spare pending P) : Registered spare pending (P.updateNode n u) := by
  have hlength : (P.updateNode n u).heap.length = P.heap.length := List.length_modify ..
  refine ⟨⟨h.tidy.nodup, fun m => alive_updateNode.trans (h.tidy.alive m), ?_⟩,
    fun m hm => alive_updateNode.mpr (h.whole m (hlength ▸ hm)), h.room⟩
  intro cell hmem
  obtain ⟨m, hm⟩ := List.getElem?_of_mem hmem
  obtain ⟨old, hold, rfl⟩ := Option.map_eq_some_iff.mp ((heap_update P n m _).symm.trans hm)
  have hsockets := h.tidy.socketed old (List.mem_of_getElem? hold)
  by_cases hnm : n = m
  · simp only [hnm, if_true, hu, hsockets]
  · simp only [hnm, if_false, hsockets]

theorem graph_heap {n tried : Nat} {cell : Cell} (hcell : P.heap[n]? = some cell) :
    (P.graph tried).heap[n]? = some cell.node := by
  change (P.heap.map Cell.node)[n]? = _
  rw [List.getElem?_map, hcell]
  rfl

/-- A change of one node. -/
theorem implements_updateNode {n : Nat} {u : Node → Node} (hu : ∀ node, (u node).process = node.process)
    {f : (Nat → Bool) → Graph → Int × Graph} {a : Int}
    (h : ∀ creates tried, f creates (P.graph tried) = (a, (P.graph tried).update n u)) :
    Implements P (pure (a, P.updateNode n u)) f (Registered spare pending) fun _ => Registered spare pending := by
  refine Owns.pure ⟨(held_updateNode P n u).symm, Refines.pure fun creates tried => ?_,
    Extends.updateNode P n u, Registered.updateNode hu⟩
  rw [h, graph_updateNode]

theorem implements_nodeAddOutput {node : Nat} (hnode : P.Alive node) (outputQueue : Nat) :
    Implements P (nodeAddOutput P node outputQueue) (fun _ G => Pipeline.nodeAddOutput G node outputQueue)
      (Registered spare pending) fun _ => Registered spare pending := by
  refine Implements.accessNode hnode fun cell hcell hd => ?_
  have hgraph : ∀ tried, Pipeline.nodeAddOutput (P.graph tried) node outputQueue =
      if maxNodeOutputs ≤ cell.node.outputQueues.length then (-1, P.graph tried)
      else (0, (P.graph tried).update node fun n => { n with outputQueues := n.outputQueues ++ [outputQueue] }) := by
    intro tried
    unfold Pipeline.nodeAddOutput
    rw [graph_heap hcell]
  by_cases hfull : maxNodeOutputs ≤ cell.node.outputQueues.length
  · simp only [hfull, if_true]
    refine Implements.pure fun creates tried => ?_
    rw [hgraph, if_pos hfull]
  · simp only [hfull, if_false]
    refine Owns.bind (Owns.access (outputQueues_mem_held hcell hd) ?_)
    refine implements_updateNode ?_ fun creates tried => ?_
    · exact fun _ => rfl
    rw [hgraph, if_neg hfull]

theorem implements_nodeSetInput {node : Nat} (hnode : P.Alive node) (inputQueue : Nat) :
    Implements P (nodeSetInput P node inputQueue) (fun _ G => Pipeline.nodeSetInput G node inputQueue)
      (Registered spare pending) fun _ => Registered spare pending := by
  refine Implements.accessNode hnode fun _ _ _ => implements_updateNode ?_ fun _ _ => rfl
  exact fun _ => rfl

/-- What `pipeline_add_node` leaves when there is room. -/
def added (P : PipelineBlocks) (n : Nat) : PipelineBlocks := { P with nodes := P.nodes ++ [n] }

/-- The first of the pending nodes is added. -/
theorem done_added {n : Nat} (hroom : ¬ maxPipelineNodes ≤ P.nodes.length) :
    Done (fun _ G => Pipeline.pipelineAddNode G n) (Registered spare (n :: pending)) (fun _ => Registered spare pending) P
      (0, added P n) P.held := by
  refine ⟨rfl, Refines.pure fun creates tried => if_neg hroom, ⟨rfl, rfl, rfl, fun _ h => h⟩, fun hreg => ?_⟩
  have happend : P.nodes ++ n :: pending = (added P n).nodes ++ pending := by
    rw [added, List.append_assoc, List.singleton_append]
  have hlength : (added P n).nodes.length = P.nodes.length + 1 := List.length_append
  refine ⟨⟨happend ▸ hreg.tidy.nodup, fun m => happend ▸ hreg.tidy.alive m, hreg.tidy.socketed⟩, hreg.whole, ?_⟩
  have hroom := hreg.room
  rw [List.length_cons] at hroom
  change (added P n).nodes.length + pending.length + spare ≤ maxPipelineNodes
  omega

theorem owns_pipelineAddNode (hready : P.Ready) {n : Nat} (hn : P.Alive n)
    (hroom : ¬ maxPipelineNodes ≤ P.nodes.length) {post : Int × PipelineBlocks → Multiset (Handle Kind) → Prop}
    (next : post (0, added P n) P.held) : Owns P.held (pipelineAddNode P n) post := by
  unfold pipelineAddNode
  rw [if_neg hroom]
  refine Owns.bind (Owns.deref hready.nodesArray nodesArray_le_held ?_)
  exact Owns.bind (owns_accessNode hn fun _ _ _ => Owns.pure next)

theorem implements_pipelineAddNode (hready : P.Ready) {n : Nat} (hn : P.Alive n) :
    Implements P (pipelineAddNode P n) (fun _ G => Pipeline.pipelineAddNode G n)
      (Registered spare (n :: pending)) fun _ => Registered spare pending := by
  by_cases hfull : maxPipelineNodes ≤ P.nodes.length
  · unfold pipelineAddNode
    rw [if_pos hfull]
    refine Owns.pure ⟨rfl, Refines.pure fun creates tried => if_pos hfull, Extends.refl P, fun hreg => ?_⟩
    have hroom := hreg.room
    rw [List.length_cons] at hroom
    omega
  · exact owns_pipelineAddNode hready hn hfull (done_added hfull)

theorem queuesHeld_append (queues : List (HandleOf Kind.queue)) (queue : HandleOf Kind.queue) :
    queuesHeld (queues ++ [queue]) = queue.val ::ₘ queuesHeld queues := by
  rw [queuesHeld, List.map_append, ← Multiset.coe_add, add_comm]
  rfl

variable (os : OperatingSystem)

theorem implements_pipelineCreateQueue (hready : P.Ready) :
    Implements P (pipelineCreateQueue os P) (fun creates G => Pipeline.pipelineCreateQueue creates G)
      (Registered spare pending) fun _ => Registered spare pending := by
  unfold pipelineCreateQueue
  by_cases hfull : maxPipelineQueues ≤ P.queues.length
  · rw [if_pos hfull]
    exact Implements.pure fun creates tried => if_pos hfull
  · rw [if_neg hfull]
    -- the creation of the graph fails when one of the two requests is refused
    have hgraph : ∀ creates tried, Pipeline.pipelineCreateQueue creates (P.graph tried) =
        if creates tried then (some P.queues.length, { P.graph (tried + 1) with queueCount := P.queues.length + 1 })
        else (none, P.graph (tried + 1)) := fun creates tried => if_neg hfull
    have hnone : Refines (fun creates G => Pipeline.pipelineCreateQueue creates G) P (none, P) := by
      refine Refines.create fun creates tried (hc : creates tried = false) => ?_
      rw [hgraph, hc]
      rfl
    refine Owns.bind (Owns.acquire (Owns.pure ⟨rfl, hnone, Extends.refl P, id⟩) fun queue => ?_)
    refine Owns.bind (Owns.ask fun initialized => ?_)
    cases initialized with
    | false => exact Owns.bind (Owns.release (Owns.pure ⟨rfl, hnone, Extends.refl P, id⟩))
    | true =>
      have hle : Lib.held P.queuesArray ≤ queue.val ::ₘ P.held :=
        queuesArray_le_held.trans (Multiset.le_cons_self _ _)
      refine Owns.bind (Owns.deref hready.queuesArray hle (Owns.pure ⟨?_, ?_, ⟨rfl, rfl, rfl, fun _ h => h⟩, ?_⟩))
      · change queue.val ::ₘ P.held = heapHeld P.heap + (queuesHeld (P.queues ++ [queue]) + P.arraysHeld)
        rw [queuesHeld_append, Multiset.cons_add, Multiset.add_cons]
        rfl
      · refine Refines.create fun creates tried (hc : creates tried = true) => ?_
        rw [hgraph, hc]
        change _ = (_, (⟨_, _, (P.queues ++ [queue]).length, _⟩ : Graph))
        rw [List.length_append]
        rfl
      · exact fun hreg => ⟨⟨hreg.tidy.nodup, hreg.tidy.alive, hreg.tidy.socketed⟩, hreg.whole, hreg.room⟩

/-- `pipeline_connect` on the graph, behind the creation of the queue. -/
def connectQueue (source target : Nat) (queue : Option Nat) (_ : Nat → Bool) (G : Graph) : Int × Graph :=
  match queue with
  | none => (-1, G)
  | some queue => Pipeline.nodeAddOutput (Pipeline.nodeSetInput G target queue).2 source queue

theorem implements_pipelineConnect (hready : P.Ready) {source target : Nat} (hsource : P.Alive source)
    (htarget : P.Alive target) :
    Implements P (pipelineConnect os P source target) (fun creates G => Pipeline.pipelineConnect creates G source target)
      (Registered spare pending) fun _ => Registered spare pending := by
  refine Implements.accessNode htarget fun toCell hcell _ => ?_
  cases hinput : toCell.node.inputQueue with
  | some queue =>
    refine (implements_nodeAddOutput hsource queue).congr fun creates tried => ?_
    simp only [Pipeline.pipelineConnect, graph_heap hcell, hinput]
  | none =>
    refine Implements.congr (Implements.bind (connectQueue source target)
      (implements_pipelineCreateQueue os hready) ?_) fun creates tried => ?_
    · intro queue P' hext
      cases queue with
      | none => exact Implements.pure fun _ _ => rfl
      | some queue =>
        refine Implements.bind (fun _ _ G => Pipeline.nodeAddOutput G source queue)
          (implements_nodeSetInput (hext.alive _ htarget) queue) ?_
        intro _ P'' hext'
        exact implements_nodeAddOutput (hext'.alive _ (hext.alive _ hsource)) queue
    · simp only [Pipeline.pipelineConnect, graph_heap hcell, hinput, andThen]
      cases Pipeline.pipelineCreateQueue creates (P.graph tried) with
      | mk queue G => cases queue <;> rfl

end

end VlanTagger.Pipeline.Allocation
