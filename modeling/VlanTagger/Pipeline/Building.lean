import VlanTagger.Pipeline.Accounting

/-!
# The patterns and their memory

A pattern creates its nodes one after the other. When one fails it destroys those before it,
and otherwise it adds and connects them, whatever these calls return. Both patterns build what
they build on the graph, and all that they hold is accounted for.
-/
namespace VlanTagger.Pipeline.Allocation

open Lib Nodes PipelineBlocks

/-! ## One node more, one node less -/

section

variable {P : PipelineBlocks} {process : Process} {blocks : NodeBlocks} {n m : Nat}

theorem held_add (P : PipelineBlocks) (process : Process) (blocks : NodeBlocks) :
    (P.add process blocks).held = blocks.held + P.held := by
  have hcell : heapHeld [⟨⟨none, [], process⟩, blocks, false⟩] = blocks.held := by
    rw [heapHeld_cons, Cell.held]
    exact add_zero _
  change heapHeld (P.heap ++ _) + _ = _
  rw [heapHeld_append, hcell, add_comm (heapHeld P.heap), add_assoc]
  rfl

theorem alive_add : (P.add process blocks).Alive n ↔ P.Alive n ∨ n = P.heap.length := by
  unfold PipelineBlocks.Alive PipelineBlocks.add
  constructor
  · intro ⟨cell, hcell, hd⟩
    rcases Nat.lt_trichotomy n P.heap.length with hlt | heq | hgt
    · exact Or.inl ⟨cell, (List.getElem?_append_left hlt) ▸ hcell, hd⟩
    · exact Or.inr heq
    · rw [List.getElem?_eq_none (by rw [List.length_append, List.length_singleton]; omega)] at hcell
      cases hcell
  · intro h
    rcases h with ⟨cell, hcell, hd⟩ | rfl
    · exact ⟨cell, (List.getElem?_append_left (Alive.lt ⟨cell, hcell, hd⟩)).trans hcell, hd⟩
    · exact ⟨_, List.getElem?_concat_length, rfl⟩

theorem Extends.add (P : PipelineBlocks) (process : Process) (blocks : NodeBlocks) :
    P.Extends (P.add process blocks) :=
  ⟨rfl, rfl, rfl, fun _ h => alive_add.mpr (Or.inl h)⟩

theorem refines_nodeCreate_refused (P : PipelineBlocks) (process : Process) :
    Refines (fun creates G => Pipeline.nodeCreate creates G process) P (none, P) := by
  refine Refines.create fun creates tried (hc : creates tried = false) => ?_
  exact if_neg (by rw [PipelineBlocks.graph, hc]; exact Bool.false_ne_true)

theorem refines_nodeCreate (P : PipelineBlocks) (process : Process) (blocks : NodeBlocks) :
    Refines (fun creates G => Pipeline.nodeCreate creates G process) P
      (some P.heap.length, P.add process blocks) := by
  refine Refines.create fun creates tried (hc : creates tried = true) => ?_
  refine (if_pos hc).trans ?_
  simp only [PipelineBlocks.graph, PipelineBlocks.add, List.map_append, List.length_map]
  rfl

/-- Both outcomes of a creation function. -/
theorem owns_create {create : Creation} {process : Option Process}
    {post : Option (Process × NodeBlocks) → Multiset (Handle Kind) → Prop} (h : AllOrNothing create process)
    (refused : post none P.held)
    (created : ∀ p blocks, process = some p → blocks.socket.isSome = usesSocket p →
      post (some (p, blocks)) (P.add p blocks).held) : Owns P.held create post := by
  apply Owns.call h (zero_add _).symm
  intro r o hr
  cases r with
  | none =>
    rw [hr, zero_add]
    exact refused
  | some node =>
    obtain ⟨hp, hsocket, ho⟩ := hr
    rw [ho, ← held_add P node.1]
    exact created _ _ hp hsocket

/-- What `node_destroy` leaves. -/
def destroyed (P : PipelineBlocks) (n : Nat) : PipelineBlocks :=
  P.update n fun cell => { cell with destroyed := true }

theorem graph_destroyed (P : PipelineBlocks) (n tried : Nat) : (destroyed P n).graph tried = P.graph tried := by
  have hmap : (P.heap.modify n fun cell => { cell with destroyed := true }).map Cell.node =
      (P.heap.map Cell.node).modify n id := by
    refine map_modify ?_ P.heap n
    exact fun _ => rfl
  rw [List.modify_id] at hmap
  exact congrArg (fun heap => (⟨heap, P.nodes, P.queues.length, tried⟩ : Graph)) hmap

theorem alive_destroyed : (destroyed P n).Alive m ↔ P.Alive m ∧ m ≠ n := by
  unfold PipelineBlocks.Alive destroyed
  rw [heap_update]
  by_cases hnm : n = m
  · simp [hnm]
  · simp [hnm, Ne.symm hnm]

theorem owns_nodeDestroy {rest : Multiset (Handle Kind)} {post : PipelineBlocks → Multiset (Handle Kind) → Prop}
    (hn : P.Alive n) (next : post (destroyed P n) (heapHeld (destroyed P n).heap + rest)) :
    Owns (heapHeld P.heap + rest) (nodeDestroy P n) post := by
  refine Owns.bind (owns_accessNode hn fun cell hcell hd => ?_)
  obtain ⟨others, hbefore, hafter⟩ := heapHeld_modify hcell fun cell => { cell with destroyed := true }
  have hcellheld : cell.held = cell.blocks.held := if_neg (by rw [hd]; exact Bool.false_ne_true)
  have hheld : heapHeld P.heap + rest =
      cell.blocks.outputQueues.val ::ₘ cell.blocks.block.val ::ₘ (heapHeld (destroyed P n).heap + rest) := by
    change _ = _ ::ₘ _ ::ₘ (heapHeld (P.heap.modify n _) + _)
    rw [hbefore, hafter, hcellheld, NodeBlocks.held]
    simp only [add_assoc, Multiset.singleton_add, Multiset.cons_add]
    rfl
  rw [hheld]
  exact Owns.bind (Owns.release (Owns.bind (Owns.release (Owns.pure next))))

theorem socketed_add (h : P.Socketed) (hsocket : blocks.socket.isSome = usesSocket process) :
    (P.add process blocks).Socketed := by
  intro cell hmem
  rcases List.mem_append.mp hmem with hmem | hmem
  · exact h cell hmem
  · rw [List.mem_singleton.mp hmem]
    exact hsocket

/-- `P'` has these nodes more, and they are not in the pipeline yet. -/
structure Grows (P : PipelineBlocks) (ns : List Nat) (P' : PipelineBlocks) : Prop where
  nodes : P'.nodes = P.nodes
  mem : ∀ n, n < P'.heap.length ↔ n < P.heap.length ∨ n ∈ ns
  fresh : ∀ n ∈ ns, P.heap.length ≤ n
  nodup : ns.Nodup
  alive : ∀ n, P'.Alive n ↔ P.Alive n ∨ n ∈ ns
  socketed : P.Socketed → P'.Socketed

theorem Grows.refl (P : PipelineBlocks) : Grows P [] P where
  nodes := rfl
  mem := fun _ => ⟨Or.inl, fun h => h.resolve_right List.not_mem_nil⟩
  fresh := fun _ hn => absurd hn List.not_mem_nil
  nodup := List.nodup_nil
  alive := fun _ => ⟨Or.inl, fun h => h.resolve_right List.not_mem_nil⟩
  socketed := id

theorem Grows.add {P' : PipelineBlocks} {ns : List Nat} (hsocket : blocks.socket.isSome = usesSocket process)
    (h : Grows (P.add process blocks) ns P') : Grows P (P.heap.length :: ns) P' := by
  have hlength : (P.add process blocks).heap.length = P.heap.length + 1 := List.length_append
  refine ⟨h.nodes, ?_, ?_, List.nodup_cons.mpr ⟨?_, h.nodup⟩, ?_, fun hs => h.socketed (socketed_add hs hsocket)⟩
  · intro n
    rw [h.mem, hlength, Nat.lt_succ_iff_lt_or_eq, or_assoc, List.mem_cons]
  · intro n hn
    rcases List.mem_cons.mp hn with rfl | hn
    · exact Nat.le_refl _
    · have hfresh := h.fresh n hn
      omega
  · intro hn
    have hfresh := h.fresh _ hn
    omega
  · intro n
    rw [h.alive, alive_add, or_assoc, List.mem_cons]

/-- New nodes are the last that are still to be added. -/
theorem Grows.registered {P' : PipelineBlocks} {ns pending : List Nat} {spare : Nat} (h : Grows P ns P')
    (hreg : Registered (ns.length + spare) pending P) : Registered spare (pending ++ ns) P' := by
  refine ⟨⟨?_, ?_, h.socketed hreg.tidy.socketed⟩, ?_, ?_⟩
  · rw [h.nodes, ← List.append_assoc]
    apply List.Nodup.append hreg.tidy.nodup h.nodup
    intro n hn hnew
    exact absurd (Alive.lt ((hreg.tidy.alive n).mpr hn)) (Nat.not_lt.mpr (h.fresh n hnew))
  · intro n
    rw [h.alive, hreg.tidy.alive, h.nodes, ← List.append_assoc, List.mem_append (s := P.nodes ++ pending)]
  · intro n hn
    exact (h.alive n).mpr (((h.mem n).mp hn).imp_left (hreg.whole n))
  · have hroom := hreg.room
    rw [h.nodes, List.length_append]
    omega

theorem socketed_destroyed (h : P.Socketed) : (destroyed P n).Socketed := by
  intro cell hmem
  obtain ⟨m, hm⟩ := List.getElem?_of_mem hmem
  obtain ⟨old, hold, rfl⟩ := Option.map_eq_some_iff.mp ((heap_update P n m _).symm.trans hm)
  have hsocket := h old (List.mem_of_getElem? hold)
  by_cases hnm : n = m
  · simp only [hnm, if_true, hsocket]
  · simp only [hnm, if_false, hsocket]

end

/-! ## Shared connections -/

section

variable {P : PipelineBlocks} {spare : Nat} {pending : List Nat} (os : OperatingSystem)

/-- A call that is made when the call before it has returned 0. -/
theorem implements_unless {ret : Int} {c : Program Kind (Int × PipelineBlocks)}
    {f : (Nat → Bool) → Graph → Int × Graph} {inv : PipelineBlocks → Prop}
    (h : Implements P c f inv fun _ => inv) :
    Implements P (if ret ≠ 0 then pure (-1, P) else c)
      (fun creates G => if ret ≠ 0 then (-1, G) else f creates G) inv fun _ => inv := by
  by_cases hret : ret = 0
  · have hcall : ¬ ret ≠ 0 := not_not_intro hret
    simp only [if_neg hcall]
    exact h
  · simp only [if_pos hret]
    exact Implements.pure fun _ _ => rfl

theorem implements_connectTargets (hready : P.Ready) {dispatcher : Nat} (hdispatcher : P.Alive dispatcher)
    {toNodes : List (Option Nat)} (htargets : ∀ t, some t ∈ toNodes → P.Alive t) :
    Implements P (connectTargets os dispatcher P toNodes)
      (fun creates G => Pipeline.connectTargets creates dispatcher G toNodes)
      (Registered spare pending) fun _ => Registered spare pending := by
  induction toNodes generalizing P with
  | nil => exact Implements.pure fun _ _ => rfl
  | cons target toNodes ih =>
    have hrest : ∀ t, some t ∈ toNodes → P.Alive t := fun t ht => htargets t (List.mem_cons_of_mem _ ht)
    cases target with
    | none => exact ih hready hdispatcher hrest
    | some target =>
      refine Implements.congr (Implements.bind
        (fun ret creates G => if ret ≠ 0 then (-1, G) else Pipeline.connectTargets creates dispatcher G toNodes)
        (implements_pipelineConnect os hready hdispatcher (htargets target List.mem_cons_self)) ?_)
        fun creates tried => rfl
      intro ret P' hext
      exact implements_unless
        (ih (Extends.ready hext hready) (hext.alive _ hdispatcher) fun t ht => hext.alive t (hrest t ht))

/-- `pipeline_connect_shared` on the graph, behind the addition of the dispatcher. -/
def attach (source : Nat) (toNodes : List (Option Nat)) (dispatcher : Nat) (creates : Nat → Bool) (G : Graph) :
    Int × Graph :=
  match Pipeline.pipelineConnect creates G source dispatcher with
  | (ret, G) => if ret ≠ 0 then (-1, G) else Pipeline.connectTargets creates dispatcher G toNodes

/-- `pipeline_connect_shared` on the graph, behind the creation of the dispatcher. -/
def share (source : Nat) (toNodes : List (Option Nat)) (node : Option Nat) (creates : Nat → Bool) (G : Graph) :
    Int × Graph :=
  match node with
  | none => (-1, G)
  | some dispatcher =>
    match Pipeline.pipelineAddNode G dispatcher with
    | (ret, G) => if ret ≠ 0 then (-1, G) else attach source toNodes dispatcher creates G

theorem pipelineConnectShared_eq {source : Nat} {toNodes : List (Option Nat)} (hne : toNodes ≠ [])
    (creates : Nat → Bool) (G : Graph) : Pipeline.pipelineConnectShared creates G source toNodes =
      andThen (fun creates G => Pipeline.nodeCreate creates G (.dispatcher (Nodes.dispatcherNodeCreate .roundRobin)))
        (share source toNodes) creates G := by
  refine (if_neg hne).trans ?_
  simp only [andThen]
  cases Pipeline.nodeCreate creates G (.dispatcher (Nodes.dispatcherNodeCreate .roundRobin)) with
  | mk node G => cases node <;> rfl

/-- The dispatcher is added, and connected when that succeeds. -/
theorem implements_connectDispatcher (hready : P.Ready) {source dispatcher : Nat} (hsource : P.Alive source)
    (hdispatcher : P.Alive dispatcher) {toNodes : List (Option Nat)}
    (htargets : ∀ t, some t ∈ toNodes → P.Alive t) (hroom : ¬ maxPipelineNodes ≤ P.nodes.length) :
    Implements P (connectDispatcher os P source dispatcher toNodes) (share source toNodes (some dispatcher))
      (Registered spare [dispatcher]) fun _ => Registered spare [] := by
  have hadded : Done _ (Registered spare [dispatcher]) (fun _ => Registered spare []) P _ P.held := done_added hroom
  have hready' := Extends.ready hadded.extended hready
  refine Owns.bind (owns_pipelineAddNode hready hdispatcher hroom ?_)
  have hattach : ∀ creates tried, attach source toNodes dispatcher creates ((added P dispatcher).graph tried) =
      andThen (fun creates G => Pipeline.pipelineConnect creates G source dispatcher)
        (fun ret creates G => if ret ≠ 0 then (-1, G) else Pipeline.connectTargets creates dispatcher G toNodes)
        creates ((added P dispatcher).graph tried) := fun creates tried => rfl
  have hdone : ∀ r o, Done (attach source toNodes dispatcher) (Registered spare []) (fun _ => Registered spare [])
      (added P dispatcher) r o → Done (share source toNodes (some dispatcher)) (Registered spare [dispatcher])
        (fun _ => Registered spare []) P r o := by
    intro r o hr
    exact Done.trans (g := fun ret creates G => if ret ≠ 0 then (-1, G) else attach source toNodes dispatcher creates G)
      hadded hr
  change Owns (added P dispatcher).held _ _
  refine Owns.mono (Implements.congr (Implements.bind _
    (implements_pipelineConnect os hready' hsource hdispatcher) ?_) hattach) hdone
  intro ret P' hext
  exact implements_unless (implements_connectTargets os (Extends.ready hext hready')
    (hext.alive _ hdispatcher) fun t ht => hext.alive t (htargets t ht))

/-- A dispatcher that the pipeline has no room for is destroyed again. -/
theorem owns_connectDispatcher_full {source : Nat} {process : Process} {blocks : NodeBlocks}
    {toNodes : List (Option Nat)}
    (hfull : maxPipelineNodes ≤ P.nodes.length) :
    Owns (P.add process blocks).held (connectDispatcher os (P.add process blocks) source P.heap.length toNodes)
      (Done (andThen (fun creates G => Pipeline.nodeCreate creates G process) (share source toNodes))
        (Registered (spare + 1) []) (fun _ => Registered spare []) P) := by
  have hdispatcher : (P.add process blocks).Alive P.heap.length := alive_add.mpr (Or.inr rfl)
  have hadd : pipelineAddNode (P.add process blocks) P.heap.length = pure (-1, P.add process blocks) := if_pos hfull
  unfold connectDispatcher
  rw [hadd, pure_bind]
  refine Owns.bind (owns_nodeDestroy hdispatcher (Owns.pure ⟨rfl, ?_, ⟨rfl, rfl, rfl, ?_⟩, ?_⟩))
  · refine Refines.bind (share source toNodes) (refines_nodeCreate P process blocks) (Refines.pure ?_)
    intro creates tried
    rw [graph_destroyed]
    have hgraph : Pipeline.pipelineAddNode ((P.add process blocks).graph tried) P.heap.length =
        (-1, (P.add process blocks).graph tried) := if_pos hfull
    simp only [share, hgraph]
    rfl
  · intro n hn
    exact alive_destroyed.mpr ⟨alive_add.mpr (Or.inl hn), Nat.ne_of_lt (Alive.lt hn)⟩
  · intro hreg
    have hroom := hreg.room
    rw [List.length_nil] at hroom
    omega

theorem implements_pipelineConnectShared (hready : P.Ready) {source : Nat} (hsource : P.Alive source)
    {toNodes : List (Option Nat)} (htargets : ∀ t, some t ∈ toNodes → P.Alive t) :
    Implements P (pipelineConnectShared os P source toNodes)
      (fun creates G => Pipeline.pipelineConnectShared creates G source toNodes)
      (Registered (spare + 1) []) fun _ => Registered spare [] := by
  have hspare : Registered (spare + 1) [] P → Registered spare [] P := fun hreg =>
    ⟨hreg.tidy, hreg.whole, Nat.le_of_succ_le hreg.room⟩
  unfold pipelineConnectShared
  by_cases hnil : toNodes = []
  · rw [if_pos hnil]
    exact Owns.pure ⟨rfl, Refines.pure fun _ _ => if_pos hnil, Extends.refl P, hspare⟩
  · rw [if_neg hnil]
    refine Implements.congr ?_ fun creates tried => pipelineConnectShared_eq hnil creates _
    refine Owns.bind (owns_create (contextNodeCreate_allOrNothing os rfl) ?_ ?_)
    · exact Owns.pure ⟨rfl, Refines.bind (share source toNodes) (refines_nodeCreate_refused P _)
        (Refines.pure fun _ _ => rfl), Extends.refl P, hspare⟩
    · intro process blocks hp hsocket
      cases hp
      have hext := Extends.add P (.dispatcher (Nodes.dispatcherNodeCreate .roundRobin)) blocks
      by_cases hfull : maxPipelineNodes ≤ P.nodes.length
      · exact owns_connectDispatcher_full os hfull
      · have hconnect : Implements (P.add _ blocks) (connectDispatcher os (P.add _ blocks) source P.heap.length toNodes)
            (share source toNodes (some P.heap.length)) (Registered spare [P.heap.length])
            fun _ => Registered spare [] :=
          implements_connectDispatcher os (Extends.ready hext hready) (hext.alive _ hsource)
            (alive_add.mpr (Or.inr rfl)) (fun t ht => hext.alive t (htargets t ht)) hfull
        have hkeeps : Registered (spare + 1) [] P → Registered spare [P.heap.length] (P.add _ blocks) := fun hreg =>
          ((Grows.refl _).add hsocket).registered
            ⟨hreg.tidy, hreg.whole, (Nat.add_comm spare 1) ▸ hreg.room⟩
        refine hconnect.mono fun r o hr => ?_
        obtain ⟨hheld, hrefines, hextended, hafter⟩ := hr
        exact ⟨hheld, Refines.bind (share source toNodes) (refines_nodeCreate P _ blocks) hrefines,
          Extends.trans hext hextended, fun hreg => hafter (hkeeps hreg)⟩

end

/-! ## The nodes of a pattern -/

section

variable {P : PipelineBlocks} (os : OperatingSystem)

/-- `createNodes` on the graph, behind the creation of its first node. -/
def follow (processes : List (Option Process)) (node : Option Nat) (creates : Nat → Bool) (G : Graph) :
    Option (List Nat) × Graph :=
  match node with
  | none => (none, G)
  | some n =>
    match Pipeline.createNodes creates G processes with
    | (none, G) => (none, G)
    | (some ns, G) => (some (n :: ns), G)

theorem createNodes_cons (process : Process) (processes : List (Option Process)) (creates : Nat → Bool) (G : Graph) :
    Pipeline.createNodes creates G (some process :: processes) =
      andThen (fun creates G => Pipeline.nodeCreate creates G process) (follow processes) creates G := by
  simp only [Pipeline.createNodes, andThen]
  cases Pipeline.nodeCreate creates G process with
  | mk node G => cases node <;> rfl

/-- What `createNodes` leaves: the nodes up to the first failure, as on the graph. -/
structure Created (processes : List (Option Process)) (P : PipelineBlocks)
    (r : (Bool × List Nat) × PipelineBlocks) : Prop where
  extended : P.Extends r.2
  grows : Grows P r.1.2 r.2
  length_le : r.1.2.length ≤ processes.length
  length : r.1.1 = true → r.1.2.length = processes.length
  refines : Refines (fun creates G => Pipeline.createNodes creates G processes) P
    (if r.1.1 then some r.1.2 else none, r.2)

theorem Created.refused (P : PipelineBlocks) (process : Option Process) (processes : List (Option Process)) :
    Created (process :: processes) P ((false, []), P) where
  extended := Extends.refl P
  grows := Grows.refl P
  length_le := Nat.zero_le _
  length := fun h => absurd h Bool.false_ne_true
  refines := by
    cases process with
    | none => exact Refines.pure fun _ _ => rfl
    | some p =>
      refine Refines.congr (Refines.bind (follow processes) (refines_nodeCreate_refused P p)
        (Refines.pure fun _ _ => rfl)) ?_
      exact fun creates tried => createNodes_cons p processes creates _

theorem Created.cons {process : Process} {processes : List (Option Process)} {blocks : NodeBlocks}
    {complete : Bool} {ns : List Nat} {P' : PipelineBlocks} (hsocket : blocks.socket.isSome = usesSocket process)
    (h : Created processes (P.add process blocks) ((complete, ns), P')) :
    Created (some process :: processes) P ((complete, P.heap.length :: ns), P') where
  extended := Extends.trans (Extends.add P process blocks) h.extended
  grows := h.grows.add hsocket
  length_le := Nat.succ_le_succ h.length_le
  length := fun hc => congrArg (· + 1) (h.length hc)
  refines := by
    have hfollow : Refines (follow processes (some P.heap.length)) (P.add process blocks)
        (if complete then some (P.heap.length :: ns) else none, P') := by
      intro tried
      obtain ⟨outcomes, hf⟩ := h.refines tried
      refine ⟨outcomes, fun creates hc => ?_⟩
      simp only [follow, hf creates hc]
      cases complete <;> rfl
    apply Refines.congr (Refines.bind (follow processes) (refines_nodeCreate P process blocks) hfollow)
    exact fun creates tried => createNodes_cons process processes creates _

theorem owns_createNodes {creators : List Creation} {processes : List (Option Process)}
    (hcreators : List.Forall₂ AllOrNothing creators processes) :
    Owns P.held (createNodes P creators) fun r o => o = r.2.held ∧ Created processes P r := by
  induction hcreators generalizing P with
  | nil =>
    exact Owns.pure ⟨rfl, Extends.refl P, Grows.refl P, Nat.le_refl _, fun _ => rfl, Refines.pure fun _ _ => rfl⟩
  | cons hcreate _ ih =>
    refine Owns.bind (owns_create hcreate (Owns.pure ⟨rfl, Created.refused P _ _⟩) ?_)
    intro p blocks hp hsocket
    cases hp
    refine Owns.bind (ih.mono ?_)
    intro r o hr
    exact Owns.pure ⟨hr.1, hr.2.cons hsocket⟩

/-! ## The clean-up of a pattern -/

/-- `P'` has lost these nodes. -/
structure Loses (P : PipelineBlocks) (ns : List Nat) (P' : PipelineBlocks) : Prop where
  graph : ∀ tried, P'.graph tried = P.graph tried
  self : P'.self = P.self
  nodesArray : P'.nodesArray = P.nodesArray
  queuesArray : P'.queuesArray = P.queuesArray
  alive : ∀ n, P'.Alive n ↔ P.Alive n ∧ n ∉ ns
  socketed : P.Socketed → P'.Socketed

theorem owns_destroyNodes {ns : List Nat} (hnodup : ns.Nodup) (halive : ∀ n ∈ ns, P.Alive n) :
    Owns P.held (destroyNodes P ns) fun P' o => o = P'.held ∧ Loses P ns P' := by
  induction ns generalizing P with
  | nil =>
    exact Owns.pure ⟨rfl, fun _ => rfl, rfl, rfl, rfl, fun _ => ⟨fun h => ⟨h, List.not_mem_nil⟩, fun h => h.1⟩, id⟩
  | cons n ns ih =>
    obtain ⟨hn, hns⟩ := List.nodup_cons.mp hnodup
    refine Owns.bind (owns_nodeDestroy (halive n List.mem_cons_self) ?_)
    have hrest : ∀ m ∈ ns, (destroyed P n).Alive m := fun m hm =>
      alive_destroyed.mpr ⟨halive m (List.mem_cons_of_mem _ hm), fun heq => hn (heq ▸ hm)⟩
    apply (ih hns hrest).mono
    intro P' o ⟨ho, hl⟩
    refine ⟨ho, fun tried => (hl.graph tried).trans (graph_destroyed P n tried), hl.self, hl.nodesArray,
      hl.queuesArray, fun m => ?_, fun hs => hl.socketed (socketed_destroyed hs)⟩
    rw [hl.alive, alive_destroyed, List.mem_cons, not_or, and_assoc]

/-- What a pattern leaves: nothing new that is not destroyed when it has failed, and otherwise
all its nodes. -/
def Settled (ret : Int) (P : PipelineBlocks) : Prop := Tidy [] P ∧ (ret = 0 → ∀ n < P.heap.length, P.Alive n)

/-- The end of a pattern that has failed: the nodes that were created are destroyed. -/
theorem owns_failed {processes : List (Option Process)} {ns : List Nat} {P₁ : PipelineBlocks}
    (hr : Created processes P ((false, ns), P₁)) {g : Option (List Nat) → (Nat → Bool) → Graph → Int × Graph}
    (hg : ∀ creates G, g none creates G = (1, G)) {before : PipelineBlocks → Prop}
    (hbefore : before P → Tidy [] P) :
    Owns P₁.held (do
      let P ← destroyNodes P₁ ns
      return (1, P))
      (Done (andThen (fun creates G => Pipeline.createNodes creates G processes) g) before
        Settled P) := by
  have hnew : ∀ n ∈ ns, P₁.Alive n := fun n hn => (hr.grows.alive n).mpr (Or.inr hn)
  have hold : ∀ n, P.Alive n → n ∉ ns := fun n hn hmem =>
    absurd (Alive.lt hn) (Nat.not_lt.mpr (hr.grows.fresh n hmem))
  refine Owns.bind ((owns_destroyNodes hr.grows.nodup hnew).mono ?_)
  intro P' o ⟨ho, hl⟩
  have halive : ∀ n, P'.Alive n ↔ P.Alive n := by
    intro n
    rw [hl.alive, hr.grows.alive]
    exact ⟨fun h => h.1.resolve_right h.2, fun h => ⟨Or.inl h, hold n h⟩⟩
  have hlost : Refines (g none) P₁ (1, P') :=
    Refines.pure fun creates tried => by rw [hg, hl.graph]
  refine Owns.pure ⟨ho, Refines.bind g hr.refines hlost, ⟨hl.self.trans hr.extended.self,
    hl.nodesArray.trans hr.extended.nodesArray, hl.queuesArray.trans hr.extended.queuesArray,
    fun n hn => (halive n).mpr hn⟩, fun hb => ?_⟩
  have hreg := hbefore hb
  have hnodes : P'.nodes = P.nodes := (congrArg Graph.nodes (hl.graph 0)).trans hr.grows.nodes
  refine ⟨⟨hnodes ▸ hreg.nodup, fun n => ?_, hl.socketed (hr.grows.socketed hreg.socketed)⟩,
    fun h => absurd h one_ne_zero⟩
  rw [halive, hnodes, hreg.alive]

end

/-! ## The patterns -/

/-- Calls whose return values are not looked at. -/
def calls : List (PipelineBlocks → Program Kind (Int × PipelineBlocks)) →
    PipelineBlocks → Program Kind (Int × PipelineBlocks)
  | [], P => return (0, P)
  | c :: cs, P => do
    let (_, P) ← c P
    calls cs P

def graphCalls : List ((Nat → Bool) → Graph → Int × Graph) → (Nat → Bool) → Graph → Int × Graph
  | [], _, G => (0, G)
  | f :: fs, creates, G => graphCalls fs creates (f creates G).2

/-- Each of the calls does what the one of the graph does, wherever the pipeline has come to. -/
inductive CallsImplement (P : PipelineBlocks) : List (PipelineBlocks → Program Kind (Int × PipelineBlocks)) →
    List ((Nat → Bool) → Graph → Int × Graph) → (PipelineBlocks → Prop) → (PipelineBlocks → Prop) → Prop
  | nil {inv : PipelineBlocks → Prop} : CallsImplement P [] [] inv inv
  | cons {c : PipelineBlocks → Program Kind (Int × PipelineBlocks)}
      {cs : List (PipelineBlocks → Program Kind (Int × PipelineBlocks))}
      {f : (Nat → Bool) → Graph → Int × Graph} {fs : List ((Nat → Bool) → Graph → Int × Graph)}
      {before mid after : PipelineBlocks → Prop}
      (call : ∀ P', P.Extends P' → Implements P' (c P') f before fun _ => mid) (rest : CallsImplement P cs fs mid after) :
      CallsImplement P (c :: cs) (f :: fs) before after

section

variable {P P' : PipelineBlocks} {before after : PipelineBlocks → Prop}

theorem CallsImplement.implements {cs : List (PipelineBlocks → Program Kind (Int × PipelineBlocks))}
    {fs : List ((Nat → Bool) → Graph → Int × Graph)} (h : CallsImplement P cs fs before after)
    (hext : P.Extends P') : Implements P' (calls cs P') (graphCalls fs) before fun _ => after := by
  induction h generalizing P' with
  | nil => exact Implements.pure fun _ _ => rfl
  | @cons c cs f fs _ _ _ call _ ih =>
    refine Implements.congr (Implements.bind (fun _ => graphCalls fs) (call P' hext) ?_) fun creates tried => rfl
    intro _ P'' hext'
    exact ih (Extends.trans hext hext')

theorem Created.done {processes : List (Option Process)} {ns : List Nat} {spare : Nat}
    (h : Created processes P ((true, ns), P')) :
    Done (fun creates G => Pipeline.createNodes creates G processes) (Registered (processes.length + spare) [])
      (fun _ => Registered spare ns) P (some ns, P') P'.held where
  held := rfl
  refines := h.refines
  extended := h.extended
  keeps := by
    intro hreg
    have hlength : ns.length = processes.length := h.length rfl
    exact h.grows.registered (hlength ▸ hreg)

variable (os : OperatingSystem)

/-- The creation of the nodes, and then either the clean-up or the rest of the pattern. -/
theorem implements_pattern {creators : List Creation} {processes : List (Option Process)}
    (hcreators : List.Forall₂ AllOrNothing creators processes)
    {rest : (Bool × List Nat) × PipelineBlocks → Program Kind (Int × PipelineBlocks)}
    {g : Option (List Nat) → (Nat → Bool) → Graph → Int × Graph}
    (hfailed : ∀ ns P', rest ((false, ns), P') = do
      let P ← destroyNodes P' ns
      return (1, P))
    (hg : ∀ creates G, g none creates G = (1, G))
    (hrest : ∀ ns P', ns.length = processes.length → P.Extends P' → (∀ n ∈ ns, P'.Alive n) →
      Implements P' (rest ((true, ns), P')) (g (some ns)) (Registered 1 ns) fun _ => Registered 0 []) :
    Implements P (createNodes P creators >>= rest)
      (andThen (fun creates G => Pipeline.createNodes creates G processes) g)
      (Registered (processes.length + 1) []) Settled := by
  refine Owns.bind ((owns_createNodes hcreators).mono ?_)
  intro ⟨⟨complete, ns⟩, P₁⟩ o ⟨ho, hr⟩
  rw [ho]
  cases complete with
  | false =>
    rw [hfailed]
    exact owns_failed hr hg Registered.tidy
  | true =>
    have halive : ∀ n ∈ ns, P₁.Alive n := fun n hn => (hr.grows.alive n).mpr (Or.inr hn)
    refine (hrest ns P₁ (hr.length rfl) hr.extended halive).mono fun r o hd => ?_
    obtain ⟨hheld, hrefines, hextended, hkeeps⟩ := Done.trans hr.done hd
    exact ⟨hheld, hrefines, hextended, fun hreg => ⟨(hkeeps hreg).tidy, fun _ => (hkeeps hreg).whole⟩⟩

/-- The nodes `ns` are added, the first is connected to `shared` by a dispatcher, and then these
pairs are connected. -/
theorem callsImplement_wiring (ns shared : List Nat) (source : Nat) (pairs : List (Nat × Nat)) (hready : P.Ready)
    (halive : ∀ n ∈ ns, P.Alive n) (hsource : source ∈ ns) (hshared : ∀ n ∈ shared, n ∈ ns)
    (hpairs : ∀ p ∈ pairs, p.1 ∈ ns ∧ p.2 ∈ ns) :
    CallsImplement P
      (ns.map (fun n P => pipelineAddNode P n) ++
        (fun P => pipelineConnectShared os P source (shared.map some)) ::
          pairs.map fun p P => pipelineConnect os P p.1 p.2)
      (ns.map (fun n _ G => Pipeline.pipelineAddNode G n) ++
        (fun creates G => Pipeline.pipelineConnectShared creates G source (shared.map some)) ::
          pairs.map fun p creates G => Pipeline.pipelineConnect creates G p.1 p.2)
      (Registered 1 ns) (Registered 0 []) := by
  have hconnect : ∀ pairs : List (Nat × Nat), (∀ p ∈ pairs, p.1 ∈ ns ∧ p.2 ∈ ns) →
      CallsImplement P (pairs.map fun p P => pipelineConnect os P p.1 p.2)
        (pairs.map fun p creates G => Pipeline.pipelineConnect creates G p.1 p.2) (Registered 0 []) (Registered 0 []) := by
    intro pairs hp
    induction pairs with
    | nil => exact .nil
    | cons p pairs ih =>
      obtain ⟨hfrom, hto⟩ := hp p List.mem_cons_self
      refine .cons (fun P' h => ?_) (ih fun q hq => hp q (List.mem_cons_of_mem _ hq))
      exact implements_pipelineConnect os (Extends.ready h hready) (h.alive _ (halive _ hfrom))
        (h.alive _ (halive _ hto))
  have hshare : CallsImplement P
      ((fun P => pipelineConnectShared os P source (shared.map some)) ::
        pairs.map fun p P => pipelineConnect os P p.1 p.2)
      ((fun creates G => Pipeline.pipelineConnectShared creates G source (shared.map some)) ::
        pairs.map fun p creates G => Pipeline.pipelineConnect creates G p.1 p.2)
      (Registered 1 []) (Registered 0 []) := by
    refine .cons (fun P' h => ?_) (hconnect pairs hpairs)
    refine implements_pipelineConnectShared os (Extends.ready h hready) (h.alive _ (halive _ hsource)) fun t ht => ?_
    obtain ⟨m, hm, hmt⟩ := List.mem_map.mp ht
    exact h.alive t (halive t (hshared t (Option.some.inj hmt ▸ hm)))
  have hadd : ∀ ms : List Nat, (∀ n ∈ ms, n ∈ ns) → CallsImplement P
      (ms.map (fun n P => pipelineAddNode P n) ++ (fun P => pipelineConnectShared os P source (shared.map some)) ::
        pairs.map fun p P => pipelineConnect os P p.1 p.2)
      (ms.map (fun n _ G => Pipeline.pipelineAddNode G n) ++
        (fun creates G => Pipeline.pipelineConnectShared creates G source (shared.map some)) ::
          pairs.map fun p creates G => Pipeline.pipelineConnect creates G p.1 p.2)
      (Registered 1 ms) (Registered 0 []) := by
    intro ms hms
    induction ms with
    | nil => exact hshare
    | cons n ms ih =>
      refine .cons (fun P' h => ?_) (ih fun m hm => hms m (List.mem_cons_of_mem _ hm))
      exact implements_pipelineAddNode (Extends.ready h hready) (h.alive _ (halive n (hms n List.mem_cons_self)))
  exact hadd ns fun _ h => h

/-- `vlan_tagger_pattern` on the graph, behind the creation of its nodes. -/
def vlanTaggerCalls (nodes : Option (List Nat)) (creates : Nat → Bool) (G : Graph) : Int × Graph :=
  match nodes with
  | some [sniffer, tagger1, tagger2, counter, sender] =>
    graphCalls ([sniffer, tagger1, tagger2, counter, sender].map (fun n (_ : Nat → Bool) G => Pipeline.pipelineAddNode G n) ++
      (fun creates G => Pipeline.pipelineConnectShared creates G sniffer ([tagger1, tagger2].map some)) ::
        [(tagger1, counter), (tagger2, counter), (counter, sender)].map
          fun p creates G => Pipeline.pipelineConnect creates G p.1 p.2) creates G
  | _ => (1, G)

theorem implements_vlanTaggerPattern (hready : P.Ready) (host : ByteOrder) (srcDevName dstDevName : CString)
    (tagRules : List ConfigParser.TagRule) :
    Implements P (vlanTaggerPattern os host P srcDevName dstDevName tagRules)
      (fun creates G => Pipeline.vlanTaggerPattern creates host G tagRules) (Registered 6 []) Settled := by
  let tagger := (Nodes.taggerNodeCreate host tagRules).map fun ctx => Process.tagger ctx fun _ => 0
  let processes : List (Option Process) := [some (.sniffer 0), tagger, tagger,
    some (.packetCounter Nodes.packetCounterNodeCreate), some (.sender 0)]
  have hcreators : List.Forall₂ AllOrNothing [snifferNodeCreate os srcDevName, taggerNodeCreate os host tagRules,
      taggerNodeCreate os host tagRules, packetCounterNodeCreate os 10, senderNodeCreate os dstDevName] processes :=
    .cons (socketNodeCreate_allOrNothing os rfl _) <| .cons (taggerNodeCreate_allOrNothing os host tagRules) <|
      .cons (taggerNodeCreate_allOrNothing os host tagRules) <|
      .cons (packetCounterNodeCreate_allOrNothing os (by decide)) <|
      .cons (socketNodeCreate_allOrNothing os rfl _) .nil
  refine Implements.congr (f := andThen (fun creates G => Pipeline.createNodes creates G processes) vlanTaggerCalls)
    (implements_pattern hcreators (fun _ _ => rfl) (fun _ _ => rfl) ?_) fun creates tried => ?_
  · intro ns P' hlength hext halive
    obtain ⟨_ | ⟨sniffer, _ | ⟨tagger1, _ | ⟨tagger2, _ | ⟨counter, _ | ⟨sender, _ | ⟨n, ns⟩⟩⟩⟩⟩⟩, rfl⟩ :
      ∃ l, ns = l := ⟨ns, rfl⟩
    all_goals cases hlength
    exact CallsImplement.implements (callsImplement_wiring os [sniffer, tagger1, tagger2, counter, sender]
      [tagger1, tagger2] sniffer [(tagger1, counter), (tagger2, counter), (counter, sender)]
      (Extends.ready hext hready) halive (by simp) (by simp) (by simp)) (Extends.refl P')
  · simp only [Pipeline.vlanTaggerPattern, andThen]
    rcases Pipeline.createNodes creates (P.graph tried) processes with
      ⟨_ | ⟨_ | ⟨a, _ | ⟨b, _ | ⟨c, _ | ⟨d, _ | ⟨e, _ | ⟨f, l⟩⟩⟩⟩⟩⟩⟩, G⟩ <;> rfl

/-- `detailed_logging_pattern` on the graph, behind the creation of its nodes. -/
def detailedLoggingCalls (nodes : Option (List Nat)) (creates : Nat → Bool) (G : Graph) : Int × Graph :=
  match nodes with
  | some [sniffer, tagger1, tagger2, collector, logger1, logger2, counter, sender] =>
    graphCalls ([sniffer, tagger1, tagger2, collector, logger1, logger2, counter, sender].map
        (fun n (_ : Nat → Bool) G => Pipeline.pipelineAddNode G n) ++
      (fun creates G => Pipeline.pipelineConnectShared creates G sniffer ([tagger1, tagger2].map some)) ::
        [(sniffer, logger1), (tagger1, collector), (tagger2, collector), (collector, sender), (collector, logger2),
          (collector, counter)].map fun p creates G => Pipeline.pipelineConnect creates G p.1 p.2) creates G
  | _ => (1, G)

theorem implements_detailedLoggingPattern (hready : P.Ready) (host : ByteOrder) (srcDevName dstDevName : CString)
    (tagRules : List ConfigParser.TagRule) :
    Implements P (detailedLoggingPattern os host P srcDevName dstDevName tagRules)
      (fun creates G => Pipeline.detailedLoggingPattern creates host G tagRules) (Registered 9 []) Settled := by
  let tagger := (Nodes.taggerNodeCreate host tagRules).map fun ctx => Process.tagger ctx fun _ => 0
  let processes : List (Option Process) := [some (.sniffer 0), tagger, tagger, some .collector,
    some (.logger ⟨0⟩), some (.logger ⟨0⟩), some (.packetCounter Nodes.packetCounterNodeCreate), some (.sender 0)]
  have hcreators : List.Forall₂ AllOrNothing [snifferNodeCreate os srcDevName, taggerNodeCreate os host tagRules,
      taggerNodeCreate os host tagRules, collectorNodeCreate os, loggerNodeCreate os, loggerNodeCreate os,
      packetCounterNodeCreate os 10, senderNodeCreate os dstDevName] processes :=
    .cons (socketNodeCreate_allOrNothing os rfl _) <| .cons (taggerNodeCreate_allOrNothing os host tagRules) <|
      .cons (taggerNodeCreate_allOrNothing os host tagRules) <| .cons (collectorNodeCreate_allOrNothing os) <|
      .cons (contextNodeCreate_allOrNothing os rfl) <| .cons (contextNodeCreate_allOrNothing os rfl) <|
      .cons (packetCounterNodeCreate_allOrNothing os (by decide)) <|
      .cons (socketNodeCreate_allOrNothing os rfl _) .nil
  refine Implements.congr (f := andThen (fun creates G => Pipeline.createNodes creates G processes) detailedLoggingCalls)
    (implements_pattern hcreators (fun _ _ => rfl) (fun _ _ => rfl) ?_) fun creates tried => ?_
  · intro ns P' hlength hext halive
    obtain ⟨_ | ⟨sniffer, _ | ⟨tagger1, _ | ⟨tagger2, _ | ⟨collector, _ | ⟨logger1, _ | ⟨logger2, _ | ⟨counter,
      _ | ⟨sender, _ | ⟨n, ns⟩⟩⟩⟩⟩⟩⟩⟩⟩, rfl⟩ : ∃ l, ns = l := ⟨ns, rfl⟩
    all_goals cases hlength
    exact CallsImplement.implements (callsImplement_wiring os
      [sniffer, tagger1, tagger2, collector, logger1, logger2, counter, sender] [tagger1, tagger2] sniffer
      [(sniffer, logger1), (tagger1, collector), (tagger2, collector), (collector, sender), (collector, logger2),
        (collector, counter)]
      (Extends.ready hext hready) halive (by simp) (by simp) (by simp)) (Extends.refl P')
  · simp only [Pipeline.detailedLoggingPattern, andThen]
    rcases Pipeline.createNodes creates (P.graph tried) processes with
      ⟨_ | ⟨_ | ⟨a, _ | ⟨b, _ | ⟨c, _ | ⟨d, _ | ⟨e, _ | ⟨f, _ | ⟨g, _ | ⟨h, _ | ⟨i, l⟩⟩⟩⟩⟩⟩⟩⟩⟩⟩, G⟩ <;> rfl

/-- The graph is a sound picture of the patterns. Whatever the operating system refuses, and whatever
else is held, both patterns are defined on every pipeline that `pipeline_init` has set up: nothing is
used or given back that is not held. They return what the pattern of the graph returns, and leave its
graph, for some outcomes of the creations; and what is held of the pipeline is exactly what it names. -/
theorem patterns_refine_graph (hready : P.Ready) (host : ByteOrder) (srcDevName dstDevName : CString)
    (tagRules : List ConfigParser.TagRule) {s : Store Kind} {rest : Multiset (Handle Kind)}
    (hs : s.held = P.held + rest) :
    (∃ ret P' s', vlanTaggerPattern os host P srcDevName dstDevName tagRules s = some ((ret, P'), s') ∧
      s'.held = P'.held + rest ∧
      Refines (fun creates G => Pipeline.vlanTaggerPattern creates host G tagRules) P (ret, P')) ∧
    ∃ ret P' s', detailedLoggingPattern os host P srcDevName dstDevName tagRules s = some ((ret, P'), s') ∧
      s'.held = P'.held + rest ∧
      Refines (fun creates G => Pipeline.detailedLoggingPattern creates host G tagRules) P (ret, P') := by
  constructor
  · obtain ⟨⟨ret, P'⟩, s', o, hrun, hs', hd⟩ :=
      implements_vlanTaggerPattern os hready host srcDevName dstDevName tagRules s rest hs
    exact ⟨ret, P', s', hrun, by rw [hs', hd.held], hd.refines⟩
  · obtain ⟨⟨ret, P'⟩, s', o, hrun, hs', hd⟩ :=
      implements_detailedLoggingPattern os hready host srcDevName dstDevName tagRules s rest hs
    exact ⟨ret, P', s', hrun, by rw [hs', hd.held], hd.refines⟩

end

/-- The `socket` of the sender is refused, and all that was created is destroyed. -/
theorem patterns_refine_graph_one :
    ∃ ret P' s', vlanTaggerPattern ⟨fun i => decide (i ≠ 20), fun _ _ => some 1⟩ .little
      ⟨none, some ⟨⟨.nodes, 0⟩, rfl⟩, some ⟨⟨.queues, 1⟩, rfl⟩, [], [], []⟩ [101] [102] [⟨0x0a000000, 0x0a0000ff, 7⟩]
      ((Store.empty.granted .nodes).granted .queues) = some ((ret, P'), s') ∧ s'.held = P'.held + 0 ∧
      Refines (fun creates G => Pipeline.vlanTaggerPattern creates .little G [⟨0x0a000000, 0x0a0000ff, 7⟩])
        ⟨none, some ⟨⟨.nodes, 0⟩, rfl⟩, some ⟨⟨.queues, 1⟩, rfl⟩, [], [], []⟩ (ret, P') :=
  (patterns_refine_graph ⟨fun i => decide (i ≠ 20), fun _ _ => some 1⟩
    ⟨Option.some_ne_none _, Option.some_ne_none _⟩ .little [101] [102] [⟨0x0a000000, 0x0a0000ff, 7⟩]
    (Multiset.cons_swap (⟨.queues, 1⟩ : Handle Kind) ⟨.nodes, 0⟩ 0)).1

end VlanTagger.Pipeline.Allocation
