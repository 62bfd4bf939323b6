import VlanTagger.Pipeline.Building

/-!
# What `main` leaves behind

From `start_log` to the `cleanup` before `exit`. `pipeline_destroy` gives back the nodes, the
queues and the arrays, each once, and never the contexts of the nodes. It ends in a `free` of the
pipeline itself, which is undefined for `global_pipeline`. Nothing asks whether the log could be
opened.
-/
namespace VlanTagger.Pipeline.Allocation

open Lib Nodes PipelineBlocks

/-! ## Changes of some cells -/

/-- `P'` is `P` with the cells of these nodes changed. -/
structure Updated (f : Nat → Cell → Cell) (ns : List Nat) (P P' : PipelineBlocks) : Prop where
  self : P'.self = P.self
  nodesArray : P'.nodesArray = P.nodesArray
  queuesArray : P'.queuesArray = P.queuesArray
  nodes : P'.nodes = P.nodes
  queues : P'.queues = P.queues
  heap : ∀ m, P'.heap[m]? = (P.heap[m]?).map fun cell => if m ∈ ns then f m cell else cell

section

variable {P P' : PipelineBlocks} {f g : Nat → Cell → Cell} {ns : List Nat} {n : Nat}

theorem Updated.nil (f : Nat → Cell → Cell) (P : PipelineBlocks) : Updated f [] P P where
  self := rfl
  nodesArray := rfl
  queuesArray := rfl
  nodes := rfl
  queues := rfl
  heap := fun m => by simp

theorem Updated.cons (hn : n ∉ ns) (h : Updated f ns (P.update n (f n)) P') : Updated f (n :: ns) P P' where
  self := h.self
  nodesArray := h.nodesArray
  queuesArray := h.queuesArray
  nodes := h.nodes
  queues := h.queues
  heap := by
    intro m
    rw [h.heap, heap_update, Option.map_map]
    refine congrArg (fun f => (P.heap[m]?).map f) (funext fun cell => ?_)
    by_cases hnm : n = m
    · rw [← hnm]
      simp [hn]
    · simp [hnm, Ne.symm hnm]

/-- Only the cell that is there matters. -/
theorem update_congr {f g : Cell → Cell} (h : ∀ cell, P.heap[n]? = some cell → f cell = g cell) :
    P.update n f = P.update n g := by
  refine congrArg (fun heap => { P with heap := heap }) (List.ext_getElem? fun m => ?_)
  refine (heap_update P n m f).trans (Eq.trans ?_ (heap_update P n m g).symm)
  cases hcell : P.heap[m]? with
  | none => rfl
  | some cell =>
    by_cases hnm : n = m
    · simp only [Option.map_some, hnm, if_true, h cell (hnm ▸ hcell)]
    · simp only [Option.map_some, hnm, if_false]

end

/-! ## The threads -/

/-- The thread of a node closes its socket at its end. -/
def closesSocket (gaveUp : Bool) : Process → Bool
  | .sniffer _ => true
  | .sender _ => !gaveUp
  | _ => false

/-- A cell when the thread of its node has ended. -/
def ended (gaveUp : Bool) (cell : Cell) : Cell :=
  if closesSocket gaveUp cell.node.process then { cell with blocks := cell.blocks.closed } else cell

section

variable {P : PipelineBlocks} {n : Nat} {gaveUp : Bool} {rest : Multiset (Handle Kind)}

theorem socket_closed (b : NodeBlocks) : b.closed.socket = none := by
  unfold NodeBlocks.socket NodeBlocks.closed
  cases b.context <;> rfl

theorem ended_node (cell : Cell) : (ended gaveUp cell).node = cell.node := by
  unfold ended
  split <;> rfl

theorem ended_destroyed (cell : Cell) : (ended gaveUp cell).destroyed = cell.destroyed := by
  unfold ended
  split <;> rfl

theorem ended_socket {cell : Cell} (h : cell.blocks.socket.isSome = usesSocket cell.node.process) :
    (ended gaveUp cell).blocks.socket.isSome =
      (usesSocket cell.node.process && !closesSocket gaveUp cell.node.process) := by
  unfold ended
  by_cases hcloses : closesSocket gaveUp cell.node.process = true
  · rw [if_pos hcloses, hcloses, socket_closed, Bool.not_true, Bool.and_false]
    rfl
  · rw [if_neg hcloses, h, Bool.eq_false_iff.mpr hcloses, Bool.not_false, Bool.and_true]

/-- The descriptor of an open socket is held. -/
theorem contextHeld_closed {b : NodeBlocks} {ctx : ContextBlocks} {socket : PacketSocket}
    (hctx : b.context = some ctx) (hsocket : ctx.socket = some socket) :
    b.contextHeld = socket.fd.val ::ₘ b.closed.contextHeld := by
  unfold NodeBlocks.contextHeld NodeBlocks.closed
  rw [hctx]
  change {ctx.block.val} + Lib.held ctx.tagRules + Lib.held (ctx.socket.map PacketSocket.fd) =
    socket.fd.val ::ₘ ({ctx.block.val} + Lib.held ctx.tagRules + 0)
  rw [hsocket, add_zero, add_comm]
  rfl

/-- What is held of a cell whose socket is closed. -/
theorem held_closed {cell : Cell} {ctx : ContextBlocks} {socket : PacketSocket}
    (hctx : cell.blocks.context = some ctx) (hsocket : ctx.socket = some socket) :
    cell.held = socket.fd.val ::ₘ Cell.held { cell with blocks := cell.blocks.closed } := by
  have hcontext := contextHeld_closed hctx hsocket
  unfold Cell.held NodeBlocks.held
  split
  · exact hcontext
  · rw [hcontext]
    simp only [Multiset.add_cons]
    rfl

theorem owns_closeSocket {post : PipelineBlocks → Multiset (Handle Kind) → Prop} (hn : P.Alive n)
    (hopen : ∀ cell, P.heap[n]? = some cell → cell.blocks.socket.isSome = true)
    (next : post (P.update n fun cell => { cell with blocks := cell.blocks.closed })
      (heapHeld (P.update n fun cell => { cell with blocks := cell.blocks.closed }).heap + rest)) :
    Owns (heapHeld P.heap + rest) (closeSocket P n) post := by
  refine Owns.bind (owns_accessNode hn fun cell hcell _ => ?_)
  have hsocket := hopen cell hcell
  cases hctx : cell.blocks.context with
  | none =>
    rw [NodeBlocks.socket, hctx] at hsocket
    cases hsocket
  | some ctx =>
    cases hctxsocket : ctx.socket with
    | none =>
      rw [NodeBlocks.socket, hctx, Option.bind_some, hctxsocket] at hsocket
      cases hsocket
    | some socket =>
      obtain ⟨others, hbefore, hafter⟩ :=
        heapHeld_modify hcell fun cell => { cell with blocks := cell.blocks.closed }
      have hheld : heapHeld P.heap + rest = socket.fd.val ::ₘ
          (heapHeld (P.update n fun cell => { cell with blocks := cell.blocks.closed }).heap + rest) := by
        change _ = _ ::ₘ (heapHeld (P.heap.modify n _) + _)
        rw [hbefore, hafter, held_closed hctx hctxsocket]
        simp only [Multiset.cons_add]
      simp only [hctxsocket]
      rw [hheld]
      exact Owns.bind (Owns.release (Owns.pure next))

theorem owns_threadEnd {post : PipelineBlocks → Multiset (Handle Kind) → Prop} (hn : P.Alive n)
    (hsocket : ∀ cell, P.heap[n]? = some cell → cell.blocks.socket.isSome = usesSocket cell.node.process)
    (next : post (P.update n (ended gaveUp)) (heapHeld (P.update n (ended gaveUp)).heap + rest)) :
    Owns (heapHeld P.heap + rest) (threadEnd P n gaveUp) post := by
  refine Owns.bind (owns_accessNode hn fun cell hcell _ => ?_)
  have hsame : ∀ cell', P.heap[n]? = some cell' → cell' = cell := fun cell' h =>
    Option.some.inj (h.symm.trans hcell)
  have hclose : closesSocket gaveUp cell.node.process = true → usesSocket cell.node.process = true →
      Owns (heapHeld P.heap + rest) (closeSocket P n) post := by
    intro hcloses huses
    have hupdate : P.update n (ended gaveUp) = P.update n fun cell => { cell with blocks := cell.blocks.closed } :=
      update_congr fun cell' h => by
        rw [hsame cell' h]
        exact if_pos hcloses
    refine owns_closeSocket hn (fun cell' h => ?_) (hupdate ▸ next)
    rw [hsocket cell' h, hsame cell' h, huses]
  have hkeep : closesSocket gaveUp cell.node.process = false → Owns (heapHeld P.heap + rest) (pure P) post := by
    intro hcloses
    have hupdate : P.update n (ended gaveUp) = P := by
      refine (update_congr (g := id) fun cell' h => ?_).trans ?_
      · rw [hsame cell' h]
        exact if_neg (by rw [hcloses]; exact Bool.false_ne_true)
      · exact congrArg (fun heap => { P with heap := heap }) (List.modify_id n P.heap)
    exact Owns.pure (hupdate ▸ next)
  cases hp : cell.node.process with
  | sniffer errCounter => exact hclose (by rw [hp]; rfl) (by rw [hp]; rfl)
  | sender errCounter =>
    cases gaveUp with
    | true => exact hkeep (by rw [hp]; rfl)
    | false => exact hclose (by rw [hp]; rfl) (by rw [hp]; rfl)
  | tagger ctx outputBuffer => exact hkeep (by rw [hp]; rfl)
  | dispatcher ctx => exact hkeep (by rw [hp]; rfl)
  | packetCounter ctx => exact hkeep (by rw [hp]; rfl)
  | collector => exact hkeep (by rw [hp]; rfl)
  | logger ctx => exact hkeep (by rw [hp]; rfl)
  | ipModifier ctx => exact hkeep (by rw [hp]; rfl)

theorem owns_threadsEnd {gaveUp : Nat → Bool} {ns : List Nat} (hnodup : ns.Nodup) (halive : ∀ n ∈ ns, P.Alive n)
    (hsocket : ∀ n ∈ ns, ∀ cell, P.heap[n]? = some cell →
      cell.blocks.socket.isSome = usesSocket cell.node.process) :
    Owns (heapHeld P.heap + rest) (threadsEnd gaveUp P ns) fun P' o =>
      Updated (fun n => ended (gaveUp n)) ns P P' ∧ o = heapHeld P'.heap + rest := by
  induction ns generalizing P with
  | nil => exact Owns.pure ⟨Updated.nil _ P, rfl⟩
  | cons n ns ih =>
    obtain ⟨hn, hns⟩ := List.nodup_cons.mp hnodup
    refine Owns.bind (owns_threadEnd (halive n List.mem_cons_self) (hsocket n List.mem_cons_self) ?_)
    have hother : ∀ m ∈ ns, (P.update n (ended (gaveUp n))).heap[m]? = P.heap[m]? := by
      intro m hm
      rw [heap_update]
      have hne : n ≠ m := fun h => hn (h ▸ hm)
      simp [hne]
    refine (ih hns (fun m hm => ?_) fun m hm cell hcell => ?_).mono fun P' o h => ⟨h.1.cons hn, h.2⟩
    · obtain ⟨cell, hcell, hd⟩ := halive m (List.mem_cons_of_mem _ hm)
      exact ⟨cell, (hother m hm).trans hcell, hd⟩
    · exact hsocket m (List.mem_cons_of_mem _ hm) cell ((hother m hm).symm.trans hcell)

end

/-! ## `pipeline_destroy` -/

/-- The contexts of all nodes, with their rules and open sockets. -/
def contextsHeld (P : PipelineBlocks) : Multiset (Handle Kind) :=
  (P.heap : Multiset Cell).bind fun cell => cell.blocks.contextHeld

section

variable {P : PipelineBlocks} {rest : Multiset (Handle Kind)}

theorem owns_destroyQueues {queues : List (HandleOf Kind.queue)} (hready : P.Ready)
    (hle : Lib.held P.queuesArray ≤ rest) {post : Unit → Multiset (Handle Kind) → Prop} (next : post () rest) :
    Owns (queuesHeld queues + rest) (destroyQueues P queues) post := by
  induction queues with
  | nil =>
    rw [queuesHeld, List.map_nil, Multiset.coe_nil, zero_add]
    exact Owns.pure next
  | cons queue queues ih =>
    have hheld : queuesHeld (queue :: queues) + rest = queue.val ::ₘ (queuesHeld queues + rest) := by
      rw [queuesHeld, List.map_cons, ← Multiset.cons_coe, Multiset.cons_add]
      rfl
    rw [hheld]
    refine Owns.bind (Owns.deref hready.queuesArray ?_ (Owns.bind (Owns.release ih)))
    exact hle.trans ((Multiset.le_add_left _ _).trans (Multiset.le_cons_self _ _))

theorem owns_destroyAdded {ns : List Nat} (hready : P.Ready) (hle : Lib.held P.nodesArray ≤ rest)
    (hnodup : ns.Nodup) (halive : ∀ n ∈ ns, P.Alive n) :
    Owns (heapHeld P.heap + rest) (destroyAdded P ns) fun P' o =>
      Updated (fun _ cell => { cell with destroyed := true }) ns P P' ∧ o = heapHeld P'.heap + rest := by
  induction ns generalizing P with
  | nil => exact Owns.pure ⟨Updated.nil _ P, rfl⟩
  | cons n ns ih =>
    obtain ⟨hn, hns⟩ := List.nodup_cons.mp hnodup
    refine Owns.bind (Owns.deref hready.nodesArray (hle.trans (Multiset.le_add_left _ _)) ?_)
    refine Owns.bind (owns_nodeDestroy (halive n List.mem_cons_self) ?_)
    have hrest : ∀ m ∈ ns, (destroyed P n).Alive m := fun m hm =>
      alive_destroyed.mpr ⟨halive m (List.mem_cons_of_mem _ hm), fun heq => hn (heq ▸ hm)⟩
    have hready' : (destroyed P n).Ready := ⟨hready.nodesArray, hready.queuesArray⟩
    exact (ih hready' hle hns hrest).mono fun P' o h => ⟨h.1.cons hn, h.2⟩

/-- When no node is left, only the contexts are held. -/
theorem heapHeld_of_destroyed (h : ∀ cell ∈ P.heap, cell.destroyed = true) : heapHeld P.heap = contextsHeld P :=
  Multiset.bind_congr fun cell hcell => if_pos (h cell hcell)

/-- `pipeline_destroy` of a pipeline on the heap leaves the contexts of all nodes. -/
theorem owns_pipelineDestroy {self : HandleOf Kind.pipeline} (hself : P.self = some self) (hready : P.Ready)
    (hnodup : P.nodes.Nodup) (halive : ∀ n, P.Alive n ↔ n ∈ P.nodes) :
    Owns P.held (pipelineDestroy P) fun P' o => o = contextsHeld P' ∧
      (∀ cell ∈ P'.heap, cell.destroyed = true) ∧
      Updated (fun _ cell => { cell with destroyed := true }) P.nodes P P' := by
  have hsplit : P.held = queuesHeld P.queues + (heapHeld P.heap + P.arraysHeld) := add_left_comm ..
  rw [hsplit]
  refine Owns.bind (owns_destroyQueues hready ?_ ?_)
  · exact (Multiset.le_add_right _ _).trans ((Multiset.le_add_left _ _).trans (Multiset.le_add_left _ _))
  refine Owns.bind ((owns_destroyAdded hready (Multiset.le_add_right _ _) hnodup fun n hn => (halive n).mpr hn).mono ?_)
  intro P' o ⟨hupdated, ho⟩
  have hdestroyed : ∀ cell ∈ P'.heap, cell.destroyed = true := by
    intro cell hcell
    obtain ⟨m, hm⟩ := List.getElem?_of_mem hcell
    obtain ⟨old, hold, rfl⟩ := Option.map_eq_some_iff.mp ((hupdated.heap m).symm.trans hm)
    by_cases hmem : m ∈ P.nodes
    · simp only [hmem, if_true]
    · simp only [hmem, if_false]
      by_contra hd
      exact hmem ((halive m).mp ⟨old, hold, Bool.eq_false_iff.mpr hd⟩)
  have hheld : o = Lib.held P'.nodesArray + (Lib.held P'.queuesArray + (self.val ::ₘ contextsHeld P')) := by
    rw [ho, heapHeld_of_destroyed hdestroyed, hupdated.nodesArray, hupdated.queuesArray, hself]
    change contextsHeld P' + (_ + (_ + {self.val})) = _
    rw [add_left_comm, add_left_comm (contextsHeld P'), add_comm (contextsHeld P'), Multiset.singleton_add]
  rw [hheld]
  refine Owns.bind (Owns.free (Owns.bind (Owns.free ?_)))
  rw [hupdated.self, hself]
  exact Owns.bind (Owns.release (Owns.pure ⟨rfl, hdestroyed, hupdated⟩))

/-- A pipeline of zeros is only freed itself. -/
theorem owns_pipelineDestroy_zeroed (self : HandleOf Kind.pipeline) :
    Owns {self.val} (pipelineDestroy (zeroed (some self))) fun P' o => o = 0 ∧ P' = zeroed (some self) :=
  Owns.bind <| Owns.pure <| Owns.bind <| Owns.pure <| Owns.bind <| Owns.pure <| Owns.bind <| Owns.pure <|
    Owns.bind <| Owns.release <| Owns.pure ⟨rfl, rfl⟩

theorem self_destroyAdded {ns : List Nat} {P' : PipelineBlocks} {s s' : Store Kind}
    (h : destroyAdded P ns s = some (P', s')) : P'.self = P.self := by
  induction ns generalizing P s with
  | nil =>
    cases h
    rfl
  | cons n ns ih =>
    obtain ⟨_, s₁, -, h⟩ := bind_defined h
    obtain ⟨P₁, s₂, hdestroy, h⟩ := bind_defined h
    obtain ⟨cell, s₃, -, hdestroy⟩ := bind_defined hdestroy
    obtain ⟨_, s₄, -, hdestroy⟩ := bind_defined hdestroy
    obtain ⟨_, s₅, -, hdestroy⟩ := bind_defined hdestroy
    cases hdestroy
    have hself := ih h
    exact hself

/-- `global_pipeline` cannot be freed, whatever it holds. -/
theorem pipelineDestroy_static (h : P.self = none) (s : Store Kind) : pipelineDestroy P s = none := by
  refine bind_undefined fun _ _ _ => bind_undefined fun P' s' hdestroy => ?_
  refine bind_undefined fun _ _ _ => bind_undefined fun _ _ _ => ?_
  rw [self_destroyAdded hdestroy, h]
  rfl

end

/-! ## `pipeline_init` -/

section

variable {os : OperatingSystem} {P : PipelineBlocks} {s : Store Kind}

theorem pipelineInit_granted (hnodes : os.grants s.requests = true) (hqueues : os.grants (s.requests + 1) = true) :
    ∃ (nodesArray : HandleOf Kind.nodes) (queuesArray : HandleOf Kind.queues) (s' : Store Kind),
      pipelineInit os P s = some ((0, { P with
        nodesArray := some nodesArray, queuesArray := some queuesArray, nodes := [], queues := [] }), s') ∧
      s'.held = queuesArray.val ::ₘ nodesArray.val ::ₘ s.held := by
  have hfirst : acquire os.grants Kind.nodes s = some (some ⟨⟨.nodes, s.requests⟩, rfl⟩, s.granted .nodes) :=
    if_pos hnodes
  have hsecond : acquire os.grants Kind.queues (s.granted .nodes) =
      some (some ⟨⟨.queues, s.requests + 1⟩, rfl⟩, (s.granted .nodes).granted .queues) := if_pos hqueues
  exact ⟨⟨⟨.nodes, s.requests⟩, rfl⟩, ⟨⟨.queues, s.requests + 1⟩, rfl⟩, (s.granted .nodes).granted .queues,
    (bind_of_eq hfirst).trans (bind_of_eq hsecond), rfl⟩

theorem pipelineInit_refused (hnodes : os.grants s.requests = false) (hqueues : os.grants (s.requests + 1) = false) :
    pipelineInit os P s = some ((1, { P with nodesArray := none, queuesArray := none }), s.answered.answered) := by
  have hfirst : acquire os.grants Kind.nodes s = some (none, s.answered) :=
    if_neg (by rw [hnodes]; exact Bool.false_ne_true)
  have hsecond : acquire os.grants Kind.queues s.answered = some (none, s.answered.answered) :=
    if_neg (by rw [Store.answered, hqueues]; exact Bool.false_ne_true)
  exact (bind_of_eq hfirst).trans (bind_of_eq hsecond)

/-- An array that was given back is not freed again. -/
theorem pipelineDestroy_dangling (hqueues : P.queues = []) (hnodes : P.nodes = [])
    (h : (∃ a, P.nodesArray = some a ∧ a.val ∉ s.held) ∨
      (P.nodesArray = none ∧ ∃ a, P.queuesArray = some a ∧ a.val ∉ s.held)) : pipelineDestroy P s = none := by
  unfold pipelineDestroy
  simp only [hqueues, hnodes, destroyQueues, destroyAdded, pure_bind]
  rcases h with ⟨a, ha, hmem⟩ | ⟨hnone, a, ha, hmem⟩
  · refine bind_undefined fun _ s' hfree => ?_
    rw [ha, free, release_undefined hmem] at hfree
    cases hfree
  · rw [hnone, free, pure_bind]
    refine bind_undefined fun _ s' hfree => ?_
    rw [ha, free, release_undefined hmem] at hfree
    cases hfree

/-- When one array is granted and the other is not, `pipeline_init` frees it and keeps the pointer,
which `pipeline_destroy` frees again. -/
theorem pipelineInit_half (h : os.grants s.requests ≠ os.grants (s.requests + 1)) (self : Option (HandleOf Kind.pipeline)) :
    ∃ P s', pipelineInit os (zeroed self) s = some ((1, P), s') ∧ pipelineDestroy P s' = none := by
  cases hnodes : os.grants s.requests with
  | true =>
    have hqueues : os.grants (s.requests + 1) = false := by
      rw [hnodes] at h
      exact Bool.eq_false_iff.mpr (Ne.symm h)
    let nodesArray : HandleOf Kind.nodes := ⟨⟨.nodes, s.requests⟩, rfl⟩
    have hfirst : acquire os.grants Kind.nodes s = some (some nodesArray, s.granted .nodes) := if_pos hnodes
    have hsecond : acquire os.grants Kind.queues (s.granted .nodes) = some (none, (s.granted .nodes).answered) :=
      if_neg (by rw [Store.granted, hqueues]; exact Bool.false_ne_true)
    have hfree : free (some nodesArray) (s.granted .nodes).answered =
        some ((), (s.granted .nodes).answered.without nodesArray.val) := if_pos (Multiset.mem_cons_self _ _)
    exact ⟨_, _, (bind_of_eq hfirst).trans ((bind_of_eq hsecond).trans (bind_of_eq hfree)),
      pipelineDestroy_dangling rfl rfl (Or.inl ⟨nodesArray, rfl, Store.notMem_without _ _⟩)⟩
  | false =>
    have hqueues : os.grants (s.requests + 1) = true := by
      rw [hnodes] at h
      exact Bool.eq_true_of_not_eq_false (Ne.symm h)
    let queuesArray : HandleOf Kind.queues := ⟨⟨.queues, s.requests + 1⟩, rfl⟩
    have hfirst : acquire os.grants Kind.nodes s = some (none, s.answered) :=
      if_neg (by rw [hnodes]; exact Bool.false_ne_true)
    have hsecond : acquire os.grants Kind.queues s.answered = some (some queuesArray, s.answered.granted .queues) :=
      if_pos hqueues
    have hnull : free (none : Option (HandleOf Kind.nodes)) (s.answered.granted .queues) =
        some ((), s.answered.granted .queues) := rfl
    have hfree : free (some queuesArray) (s.answered.granted .queues) =
        some ((), (s.answered.granted .queues).without queuesArray.val) := if_pos (Multiset.mem_cons_self _ _)
    exact ⟨_, _, (bind_of_eq hfirst).trans ((bind_of_eq hsecond).trans ((bind_of_eq hnull).trans (bind_of_eq hfree))),
      pipelineDestroy_dangling rfl rfl (Or.inr ⟨rfl, queuesArray, rfl, Store.notMem_without _ _⟩)⟩

end

/-! ## The log -/

section

variable {os : OperatingSystem} {log : Log} {s : Store Kind}

/-- A log that was started. -/
def Log.started (file : HandleOf Kind.log) : Log := ⟨some file, true⟩

theorem owns_printL {file : HandleOf Kind.log} {owned : Multiset (Handle Kind)}
    {post : Unit → Multiset (Handle Kind) → Prop} (hfile : file.val ∈ owned) (next : post () owned) :
    Owns owned (printL (Log.started file)) post :=
  Owns.bind (Owns.pure (Owns.access hfile next))

theorem printL_held {file : HandleOf Kind.log} (hfile : file.val ∈ s.held) :
    printL (Log.started file) s = some ((), s) := if_pos hfile

theorem log_mem {file : HandleOf Kind.log} {before rest : Multiset (Handle Kind)}
    (hs : s.held = before + ({file.val} + rest)) : file.val ∈ s.held := by
  rw [hs, Multiset.singleton_add]
  exact Multiset.mem_add.mpr (Or.inr (Multiset.mem_cons_self _ _))

/-- A `printL` that is defined leaves what is held alone. -/
theorem printL_defined {r : Unit × Store Kind} (h : printL log s = some r) : r.2 = s := by
  obtain ⟨_, s₁, hmutex, hfile⟩ := bind_defined h
  have hs₁ : s₁ = s := by
    unfold Log.useMutex at hmutex
    split at hmutex <;> cases hmutex
    rfl
  subst hs₁
  cases hlog : log.file with
  | none =>
    rw [hlog] at hfile
    cases hfile
  | some file =>
    rw [hlog, deref, access] at hfile
    split at hfile <;> cases hfile
    rfl

theorem owns_stopLog (os : OperatingSystem) {file : HandleOf Kind.log} {owned : Multiset (Handle Kind)} :
    Owns (file.val ::ₘ owned) (stopLog os (Log.started file)) fun _ o => o = owned := by
  refine Owns.bind (Owns.release (Owns.bind (Owns.ask fun closed => ?_)))
  cases closed with
  | false => exact Owns.pure rfl
  | true =>
    refine Owns.bind (Owns.pure (Owns.bind (Owns.ask fun destroyed => ?_)))
    cases destroyed <;> exact Owns.pure rfl

theorem startLog_granted (hfile : os.grants s.requests = true) (hmutex : os.grants (s.requests + 1) = true) :
    ∃ (file : HandleOf Kind.log) (s' : Store Kind), startLog os s = some ((0, Log.started file), s') ∧
      s'.held = file.val ::ₘ s.held ∧ s'.requests = s.requests + 2 := by
  let file : HandleOf Kind.log := ⟨⟨.log, s.requests⟩, rfl⟩
  have hopened : acquire os.grants Kind.log s = some (some file, s.granted .log) := if_pos hfile
  have hasked : Lib.ask os.grants (s.granted .log) = some (true, (s.granted .log).answered) :=
    congrArg (fun b => some (b, (s.granted .log).answered)) hmutex
  exact ⟨file, _, (bind_of_eq hopened).trans (bind_of_eq hasked), rfl, rfl⟩

/-- When the file or the mutex is refused, the log is of no use. -/
theorem startLog_refused (h : os.grants s.requests = false ∨ os.grants (s.requests + 1) = false) :
    ∃ log s', startLog os s = some ((-1, log), s') ∧ log.mutex = false := by
  cases hfile : os.grants s.requests with
  | false =>
    have hrefused : acquire os.grants Kind.log s = some (none, s.answered) :=
      if_neg (by rw [hfile]; exact Bool.false_ne_true)
    exact ⟨⟨none, false⟩, _, bind_of_eq hrefused, rfl⟩
  | true =>
    have hmutex : os.grants (s.requests + 1) = false := h.resolve_left (by rw [hfile]; exact nofun)
    let file : HandleOf Kind.log := ⟨⟨.log, s.requests⟩, rfl⟩
    have hopened : acquire os.grants Kind.log s = some (some file, s.granted .log) := if_pos hfile
    have hasked : Lib.ask os.grants (s.granted .log) = some (false, (s.granted .log).answered) :=
      congrArg (fun b => some (b, (s.granted .log).answered)) hmutex
    exact ⟨⟨some file, false⟩, _, (bind_of_eq hopened).trans (bind_of_eq hasked), rfl⟩

/-- The first line that is logged is undefined then. -/
theorem printL_unstarted (h : log.mutex = false) (s : Store Kind) : printL log s = none := by
  refine bind_undefined fun _ s' hmutex => ?_
  rw [Log.useMutex, h, if_neg Bool.false_ne_true] at hmutex
  cases hmutex

end

/-! ## `main` -/

/-- The sockets that are open at the end of `main`: those of a pattern that has failed, or of
senders that have given up. -/
structure LeftOpen (status : Int) (gaveUp : Nat → Bool) (P : PipelineBlocks) : Prop where
  failed : status ≠ 0 → P.Socketed
  stopped : status = 0 → ∀ n cell, P.heap[n]? = some cell →
    cell.blocks.socket.isSome = (usesSocket cell.node.process && !closesSocket (gaveUp n) cell.node.process)

/-- A pipeline that `pipeline_destroy` can take. -/
structure Destroyable (status : Int) (gaveUp : Nat → Bool) (P : PipelineBlocks) : Prop where
  ready : P.Ready
  nodup : P.nodes.Nodup
  alive : ∀ n, P.Alive n ↔ n ∈ P.nodes
  open_ : LeftOpen status gaveUp P

section

variable {P : PipelineBlocks} {gaveUp : Nat → Bool} {order : List Nat → List Nat}

/-- What holds of the cells at the end of the threads. -/
theorem destroyable_threadsEnd {P' : PipelineBlocks} {ns : List Nat} (hready : P.Ready) (htidy : Tidy [] P)
    (hwhole : ∀ n < P.heap.length, P.Alive n) (hperm : ns.Perm P.nodes)
    (h : Updated (fun n => ended (gaveUp n)) ns P P') : Destroyable 0 gaveUp P' := by
  have hnodes : ∀ n, P.Alive n ↔ n ∈ P.nodes := fun n => List.append_nil P.nodes ▸ htidy.alive n
  refine ⟨⟨h.nodesArray ▸ hready.nodesArray, h.queuesArray ▸ hready.queuesArray⟩, ?_, fun n => ?_,
    fun hstatus => absurd rfl hstatus, fun _ n cell hcell => ?_⟩
  · rw [h.nodes]
    exact List.append_nil P.nodes ▸ htidy.nodup
  · rw [h.nodes, ← hnodes]
    unfold PipelineBlocks.Alive
    rw [h.heap]
    cases P.heap[n]? with
    | none => exact Iff.rfl
    | some cell =>
      by_cases hmem : n ∈ ns
      · simp [hmem, ended_destroyed]
      · simp [hmem]
  · obtain ⟨old, hold, rfl⟩ := Option.map_eq_some_iff.mp ((h.heap n).symm.trans hcell)
    have hmem : n ∈ ns :=
      hperm.mem_iff.mpr ((hnodes n).mp (hwhole n (List.getElem?_eq_some_iff.mp hold).1))
    simp only [hmem, if_true, ended_node]
    exact ended_socket (htidy.socketed old (List.mem_of_getElem? hold))

theorem owns_runPipeline (os : OperatingSystem) (host : ByteOrder) (srcDevName dstDevName : CString)
    (tagRules : List ConfigParser.TagRule) (gaveUp : Nat → Bool) (horder : ∀ l : List Nat, (order l).Perm l) (hready : P.Ready)
    (hreg : Registered 6 [] P) (file : HandleOf Kind.log) :
    Owns (P.held + {file.val})
      (runPipeline os host (Log.started file) P srcDevName dstDevName tagRules gaveUp order) fun r o =>
      o = r.2.held + {file.val} ∧ r.2.self = P.self ∧ Destroyable r.1 gaveUp r.2 := by
  refine Owns.bind
    ((implements_vlanTaggerPattern os hready host srcDevName dstDevName tagRules).call rfl ?_)
  rintro ⟨ret, P'⟩ o hd
  obtain ⟨htidy, hwhole⟩ : Settled ret P' := hd.keeps hreg
  have hready' : P'.Ready := Extends.ready hd.extended hready
  have hnodup : P'.nodes.Nodup := List.append_nil P'.nodes ▸ htidy.nodup
  have halive : ∀ n, P'.Alive n ↔ n ∈ P'.nodes := fun n => List.append_nil P'.nodes ▸ htidy.alive n
  have hfile : file.val ∈ P'.held + {file.val} :=
    Multiset.mem_add.mpr (Or.inr (Multiset.mem_singleton_self _))
  rw [hd.held]
  by_cases hret : ret = 0
  · have hgo : ¬ ret ≠ 0 := not_not_intro hret
    simp only [if_neg hgo]
    refine Owns.bind (owns_printL hfile (Owns.bind (owns_printL hfile ?_)))
    rw [PipelineBlocks.held, add_assoc]
    refine Owns.bind ((owns_threadsEnd ((horder _).nodup_iff.mpr hnodup)
      (fun n hn => (halive n).mpr ((horder _).mem_iff.mp hn))
      (fun n _ cell hcell => htidy.socketed cell (List.mem_of_getElem? hcell))).mono ?_)
    rintro P'' o' ⟨hupdated, ho'⟩
    refine Owns.pure ⟨?_, hupdated.self.trans hd.extended.self,
      destroyable_threadsEnd hready' htidy (hwhole hret) (horder _) hupdated⟩
    have harrays : P''.arraysHeld = P'.arraysHeld := by
      rw [PipelineBlocks.arraysHeld, hupdated.nodesArray, hupdated.queuesArray, hupdated.self]
      rfl
    rw [ho', PipelineBlocks.held, hupdated.queues, harrays, ← add_assoc]
  · simp only [if_pos hret]
    refine Owns.bind (owns_printL hfile (Owns.pure ?_))
    exact ⟨rfl, hd.extended.self, hready', hnodup, halive, fun _ => htidy.socketed,
      fun h => absurd h one_ne_zero⟩

/-- The pipeline behind a `pipeline_init` that has succeeded. -/
theorem registered_init (self : Option (HandleOf Kind.pipeline)) (nodesArray : HandleOf Kind.nodes)
    (queuesArray : HandleOf Kind.queues) :
    Registered 6 [] { zeroed self with nodesArray := some nodesArray, queuesArray := some queuesArray } := by
  refine ⟨⟨List.nodup_nil, fun n => ?_, fun cell hcell => absurd hcell List.not_mem_nil⟩,
    fun n hn => absurd hn (Nat.not_lt_zero n), ?_⟩
  · exact ⟨fun h => absurd (Alive.lt h) (Nat.not_lt_zero n), fun hn => absurd hn List.not_mem_nil⟩
  · change 6 ≤ maxPipelineNodes
    decide

/-- `main` up to `cleanup`, when the set-up and `pipeline_init` succeed. -/
theorem runMain_granted (os : OperatingSystem) (host : ByteOrder) (self : Option (HandleOf Kind.pipeline))
    (srcDevName dstDevName : CString) (tagRules : List ConfigParser.TagRule) (gaveUp : Nat → Bool)
    (horder : ∀ l : List Nat, (order l).Perm l) {s : Store Kind} {rest : Multiset (Handle Kind)}
    {file : HandleOf Kind.log} (hs : s.held = Lib.held self + ({file.val} + rest))
    (hnodes : os.grants s.requests = true) (hqueues : os.grants (s.requests + 1) = true) :
    ∃ (status : Int) (P : PipelineBlocks) (s' : Store Kind),
      runMain os host (Log.started file) self true srcDevName dstDevName tagRules gaveUp order s =
        some ((status, P), s') ∧
      s'.held = P.held + ({file.val} + rest) ∧ P.self = self ∧ Destroyable status gaveUp P := by
  obtain ⟨nodesArray, queuesArray, s₁, hinit, hs₁⟩ := pipelineInit_granted (P := zeroed self) hnodes hqueues
  have hheld : s₁.held = PipelineBlocks.held
      { zeroed self with nodesArray := some nodesArray, queuesArray := some queuesArray } +
        {file.val} + rest := by
    rw [hs₁, hs]
    change _ = 0 + (0 + ({nodesArray.val} + ({queuesArray.val} + Lib.held self))) + {file.val} + rest
    simp only [zero_add, Multiset.singleton_add, Multiset.cons_add, add_assoc]
    exact Multiset.cons_swap _ _ _
  obtain ⟨⟨status, P⟩, s', o, hrun, hs', ho, hself, hd⟩ :=
    owns_runPipeline os host srcDevName dstDevName tagRules gaveUp horder
      ⟨Option.some_ne_none _, Option.some_ne_none _⟩ (registered_init self nodesArray queuesArray) file s₁ rest
      hheld
  have hprint := printL_held (log_mem hs)
  exact ⟨status, P, s', (bind_of_eq hprint).trans ((bind_of_eq hinit).trans hrun), by rw [hs', ho, add_assoc],
    hself, hd⟩

theorem kind_of_mem_contextsHeld {h : Handle Kind} (hmem : h ∈ contextsHeld P) :
    h.kind = .context ∨ h.kind = .tagRules ∨ h.kind = .socket := by
  have hpointer : ∀ {kind : Kind} {p : Option (HandleOf kind)}, h ∈ Lib.held p → h.kind = kind := by
    intro kind p hp
    cases p with
    | none => exact absurd hp (Multiset.notMem_zero h)
    | some a => exact Multiset.mem_singleton.mp hp ▸ a.property
  obtain ⟨cell, -, hcell⟩ := Multiset.mem_bind.mp hmem
  unfold NodeBlocks.contextHeld at hcell
  cases hctx : cell.blocks.context with
  | none =>
    rw [hctx] at hcell
    exact absurd hcell (Multiset.notMem_zero h)
  | some ctx =>
    rw [hctx] at hcell
    rcases Multiset.mem_add.mp hcell with hcell | hcell
    · rcases Multiset.mem_add.mp hcell with hcell | hcell
      · exact Or.inl (Multiset.mem_singleton.mp hcell ▸ ctx.block.property)
      · exact Or.inr (Or.inl (hpointer hcell))
    · exact Or.inr (Or.inr (hpointer hcell))

/-- `pipeline_destroy` closes no socket. -/
theorem LeftOpen.destroyed {status : Int} {ns : List Nat} {P' : PipelineBlocks} (h : LeftOpen status gaveUp P)
    (hupdated : Updated (fun _ cell => { cell with destroyed := true }) ns P P') : LeftOpen status gaveUp P' := by
  have hcell : ∀ (n : Nat) (cell : Cell), P'.heap[n]? = some cell →
      ∃ old : Cell, P.heap[n]? = some old ∧ cell.node = old.node ∧ cell.blocks = old.blocks := by
    intro n cell hn
    obtain ⟨old, hold, rfl⟩ := Option.map_eq_some_iff.mp ((hupdated.heap n).symm.trans hn)
    refine ⟨old, hold, ?_⟩
    by_cases hmem : n ∈ ns <;> simp [hmem]
  constructor
  · intro hstatus cell hmem
    obtain ⟨n, hn⟩ := List.getElem?_of_mem hmem
    obtain ⟨old, hold, hnode, hblocks⟩ := hcell n cell hn
    rw [hnode, hblocks]
    exact h.failed hstatus old (List.mem_of_getElem? hold)
  · intro hstatus n cell hn
    obtain ⟨old, hold, hnode, hblocks⟩ := hcell n cell hn
    rw [hnode, hblocks]
    exact h.stopped hstatus n old hold

theorem leftOpen_zeroed (self : Option (HandleOf Kind.pipeline)) : LeftOpen 1 gaveUp (zeroed self) :=
  ⟨fun _ _ hmem => absurd hmem List.not_mem_nil, fun h => absurd h one_ne_zero⟩

/-- What `main` leaves when it is defined. -/
structure Left (status : Int) (gaveUp : Nat → Bool) (rest : Multiset (Handle Kind)) (P : PipelineBlocks)
    (s : Store Kind) : Prop where
  /-- the contexts of all nodes, and what `main` had nothing to do with -/
  held : s.held = contextsHeld P + rest
  destroyed : ∀ cell ∈ P.heap, cell.destroyed = true
  open_ : LeftOpen status gaveUp P

variable (os : OperatingSystem) (host : ByteOrder) (srcDevName dstDevName : CString)
  (tagRules : List ConfigParser.TagRule) (gaveUp : Nat → Bool)

/-- `cleanup` gives back what `pipeline_destroy` does, and the file of the log. -/
theorem cleanup_of_destroy {file : HandleOf Kind.log} {P P' : PipelineBlocks} {s s' : Store Kind}
    {rest : Multiset (Handle Kind)} (hdestroy : pipelineDestroy P s = some (P', s'))
    (hs' : s'.held = contextsHeld P' + ({file.val} + rest)) :
    ∃ s'', cleanup os (Log.started file) P s = some (P', s'') ∧ s''.held = contextsHeld P' + rest := by
  have hheld : s'.held = file.val ::ₘ contextsHeld P' + rest := by
    rw [hs', Multiset.cons_add, ← Multiset.singleton_add, add_left_comm]
  obtain ⟨_, s'', o, hstop, hs'', rfl⟩ := owns_stopLog os s' rest hheld
  exact ⟨s'', (bind_of_eq hdestroy).trans (bind_of_eq hstop), hs''⟩

/-- A pipeline of zeros on the heap is only freed itself. -/
theorem left_zeroed {self : HandleOf Kind.pipeline} {file : HandleOf Kind.log} {s : Store Kind}
    {rest : Multiset (Handle Kind)} (hs : s.held = {self.val} + ({file.val} + rest)) :
    ∃ s', cleanup os (Log.started file) (zeroed (some self)) s = some (zeroed (some self), s') ∧
      Left 1 gaveUp rest (zeroed (some self)) s' := by
  obtain ⟨P, s', o, hdestroy, hs', ho, rfl⟩ := owns_pipelineDestroy_zeroed self s _ hs
  obtain ⟨s'', hcleanup, hs''⟩ := cleanup_of_destroy os hdestroy (by rw [hs', ho]; rfl)
  exact ⟨s'', hcleanup, hs'', fun cell hmem => absurd hmem List.not_mem_nil, leftOpen_zeroed _⟩

/-- With a pipeline on the heap and both arrays granted or both refused, `main` is defined. -/
theorem main_defined {self : HandleOf Kind.pipeline} {loaded : Bool} (horder : ∀ l : List Nat, (order l).Perm l)
    {file : HandleOf Kind.log} {s : Store Kind} {rest : Multiset (Handle Kind)}
    (hs : s.held = {self.val} + ({file.val} + rest))
    (hgrants : loaded = true → os.grants s.requests = os.grants (s.requests + 1)) :
    ∃ status P s', mainLogged os host (Log.started file) (some self) loaded srcDevName dstDevName tagRules
      gaveUp order s = some ((status, P), s') ∧ Left status gaveUp rest P s' := by
  have hprint := printL_held (log_mem hs)
  cases loaded with
  | false =>
    have hrun : runMain os host (Log.started file) (some self) false srcDevName dstDevName tagRules gaveUp order s =
        some ((1, zeroed (some self)), s) := bind_of_eq hprint
    obtain ⟨s', hcleanup, hleft⟩ := left_zeroed os gaveUp hs
    exact ⟨1, _, s', (bind_of_eq hrun).trans (bind_of_eq hcleanup), hleft⟩
  | true =>
    cases hnodes : os.grants s.requests with
    | false =>
      have hinit := pipelineInit_refused (P := zeroed (some self)) hnodes (hgrants rfl ▸ hnodes)
      have hline : printL (Log.started file) s.answered.answered = some ((), s.answered.answered) :=
        printL_held (log_mem hs)
      have hrun : runMain os host (Log.started file) (some self) true srcDevName dstDevName tagRules gaveUp order s =
          some ((1, zeroed (some self)), s.answered.answered) :=
        (bind_of_eq hprint).trans ((bind_of_eq hinit).trans (bind_of_eq hline))
      obtain ⟨s', hcleanup, hleft⟩ := left_zeroed (s := s.answered.answered) os gaveUp hs
      exact ⟨1, _, s', (bind_of_eq hrun).trans (bind_of_eq hcleanup), hleft⟩
    | true =>
      obtain ⟨status, P, s₁, hrun, hs₁, hself, hd⟩ := runMain_granted os host (some self) srcDevName dstDevName tagRules
        gaveUp horder hs hnodes (hgrants rfl ▸ hnodes)
      obtain ⟨P', s', o, hdestroy, hs', ho, hdestroyed, hupdated⟩ :=
        owns_pipelineDestroy hself hd.ready hd.nodup hd.alive s₁ _ hs₁
      obtain ⟨s'', hcleanup, hs''⟩ := cleanup_of_destroy os hdestroy (by rw [hs', ho])
      exact ⟨status, P', s'', (bind_of_eq hrun).trans (bind_of_eq hcleanup), hs'', hdestroyed,
        hd.open_.destroyed hupdated⟩

/-- Where `pipeline_destroy` is undefined, so is `cleanup`. -/
theorem cleanup_undefined {log : Log} {P : PipelineBlocks} {s : Store Kind} (status : Int)
    (h : pipelineDestroy P s = none) :
    (do let P ← cleanup os log P; return (status, P) : Program Kind (Int × PipelineBlocks)) s = none := by
  refine bind_undefined fun P' s' hcleanup => ?_
  obtain ⟨_, _, hdestroy, -⟩ := bind_defined hcleanup
  rw [h] at hdestroy
  cases hdestroy

/-- The array that `pipeline_init` frees is freed again. -/
theorem main_half (log : Log) (self : Option (HandleOf Kind.pipeline)) (order : List Nat → List Nat)
    {s : Store Kind} (hgrants : os.grants s.requests ≠ os.grants (s.requests + 1)) :
    mainLogged os host log self true srcDevName dstDevName tagRules gaveUp order s = none := by
  obtain ⟨P, s', hinit, hundefined⟩ := pipelineInit_half hgrants self
  refine bind_undefined fun r s₁ hrun => ?_
  obtain ⟨_, s₂, hprint, hrun⟩ := bind_defined hrun
  have hs₂ : s₂ = s := printL_defined hprint
  rw [hs₂, if_pos rfl, bind_of_eq hinit] at hrun
  obtain ⟨_, s₃, hline, hrun⟩ := bind_defined hrun
  have hs₃ : s₃ = s' := printL_defined hline
  cases hrun
  exact cleanup_undefined os 1 (hs₃ ▸ hundefined)

/-- For `global_pipeline` it never is. -/
theorem main_static (file : HandleOf Kind.log) (loaded : Bool) (horder : ∀ l : List Nat, (order l).Perm l)
    {s : Store Kind} {rest : Multiset (Handle Kind)} (hs : s.held = {file.val} + rest) :
    mainLogged os host (Log.started file) none loaded srcDevName dstDevName tagRules gaveUp order s = none := by
  have hprint := printL_held (log_mem ((zero_add _).trans hs.symm).symm)
  cases loaded with
  | false =>
    have hrun : runMain os host (Log.started file) none false srcDevName dstDevName tagRules gaveUp order s =
        some ((1, zeroed none), s) := bind_of_eq hprint
    exact (bind_of_eq hrun).trans (cleanup_undefined os 1 (pipelineDestroy_static rfl s))
  | true =>
    by_cases hgrants : os.grants s.requests = os.grants (s.requests + 1)
    · cases hnodes : os.grants s.requests with
      | false =>
        have hinit := pipelineInit_refused (P := zeroed none) hnodes (hgrants ▸ hnodes)
        have hline : printL (Log.started file) s.answered.answered = some ((), s.answered.answered) :=
          printL_held (log_mem ((zero_add _).trans hs.symm).symm)
        have hrun : runMain os host (Log.started file) none true srcDevName dstDevName tagRules gaveUp order s =
            some ((1, zeroed none), s.answered.answered) :=
          (bind_of_eq hprint).trans ((bind_of_eq hinit).trans (bind_of_eq hline))
        exact (bind_of_eq hrun).trans (cleanup_undefined os 1 (pipelineDestroy_static rfl _))
      | true =>
        obtain ⟨status, P, s', hrun, -, hself, -⟩ := runMain_granted os host none srcDevName dstDevName tagRules
          gaveUp horder ((zero_add _).trans hs.symm).symm hnodes (hgrants ▸ hnodes)
        exact (bind_of_eq hrun).trans (cleanup_undefined os status (pipelineDestroy_static hself s'))
    · exact main_half os host srcDevName dstDevName tagRules gaveUp _ none order hgrants

/-- A log that could not be started makes every `main` undefined. -/
theorem main_unlogged {log : Log} (hlog : log.mutex = false) (self : Option (HandleOf Kind.pipeline))
    (loaded : Bool) (order : List Nat → List Nat) (s : Store Kind) :
    mainLogged os host log self loaded srcDevName dstDevName tagRules gaveUp order s = none := by
  refine bind_undefined fun r s' hrun => ?_
  obtain ⟨_, _, hprint, -⟩ := bind_defined hrun
  rw [printL_unstarted hlog] at hprint
  cases hprint

/-- Whatever the operating system refuses, in whatever order the threads end, and whichever senders
give up: `main` with its `cleanup` is undefined for a pipeline that is not on the heap, and for one
on the heap exactly when the log could not be started or one of the two arrays of `pipeline_init` is
refused. Where it is defined, every node, queue and array and the log have been given back once; the
contexts of all nodes are still held, with their rules, with the sockets of a pattern that has failed
and of senders that have given up, and with nothing else. -/
theorem main_leaves (self : Option (HandleOf Kind.pipeline)) (loaded : Bool)
    (horder : ∀ l : List Nat, (order l).Perm l) {s : Store Kind} {rest : Multiset (Handle Kind)}
    (hs : s.held = Lib.held self + rest) :
    (main os host self loaded srcDevName dstDevName tagRules gaveUp order s = none ↔
      self = none ∨ (os.grants s.requests = false ∨ os.grants (s.requests + 1) = false) ∨
        (loaded = true ∧ os.grants (s.requests + 2) ≠ os.grants (s.requests + 3))) ∧
    ∀ status P s', main os host self loaded srcDevName dstDevName tagRules gaveUp order s = some ((status, P), s') →
      Left status gaveUp rest P s' ∧
        ∀ h ∈ contextsHeld P, h.kind = .context ∨ h.kind = .tagRules ∨ h.kind = .socket := by
  by_cases hlog : os.grants s.requests = false ∨ os.grants (s.requests + 1) = false
  · obtain ⟨log, s', hstart, hmutex⟩ := startLog_refused hlog
    have hnone : main os host self loaded srcDevName dstDevName tagRules gaveUp order s = none :=
      (bind_of_eq hstart).trans
        (main_unlogged os host srcDevName dstDevName tagRules gaveUp hmutex self loaded order s')
    refine ⟨iff_of_true hnone (Or.inr (Or.inl hlog)), fun status P s' h => ?_⟩
    rw [hnone] at h
    cases h
  obtain ⟨hfile, hmutex⟩ := not_or.mp hlog
  have hopened : os.grants s.requests = true := Bool.eq_true_of_not_eq_false hfile
  have hasked : os.grants (s.requests + 1) = true := Bool.eq_true_of_not_eq_false hmutex
  obtain ⟨file, s₁, hstart, hs₁, hrequests⟩ := startLog_granted hopened hasked
  have hmain : main os host self loaded srcDevName dstDevName tagRules gaveUp order s =
      mainLogged os host (Log.started file) self loaded srcDevName dstDevName tagRules gaveUp order s₁ :=
    bind_of_eq hstart
  have hheld : s₁.held = Lib.held self + ({file.val} + rest) := by
    rw [hs₁, hs, ← Multiset.singleton_add, add_left_comm]
  rw [hmain]
  cases self with
  | none =>
    have hnone := main_static os host srcDevName dstDevName tagRules gaveUp file loaded horder
      (hheld.trans (zero_add _))
    refine ⟨iff_of_true hnone (Or.inl rfl), fun status P s' h => ?_⟩
    rw [hnone] at h
    cases h
  | some self =>
    have hnext : os.grants (s.requests + 2) = os.grants s₁.requests ∧
        os.grants (s.requests + 3) = os.grants (s₁.requests + 1) := by rw [hrequests]; exact ⟨rfl, rfl⟩
    rw [hnext.1, hnext.2]
    by_cases hgrants : loaded = true → os.grants s₁.requests = os.grants (s₁.requests + 1)
    · obtain ⟨status, P, s', hdefined, hleft⟩ :=
        main_defined os host srcDevName dstDevName tagRules gaveUp horder hheld hgrants
      rw [hdefined]
      refine ⟨iff_of_false (Option.some_ne_none _) ?_, fun status' P' s'' h => ?_⟩
      · intro h
        rcases h with h | h | ⟨hloaded, h⟩
        · cases h
        · exact hlog h
        · exact h (hgrants hloaded)
      · cases h
        exact ⟨hleft, fun h hmem => kind_of_mem_contextsHeld hmem⟩
    · obtain ⟨rfl, hne⟩ := Classical.not_imp.mp hgrants
      have hnone := main_half os host srcDevName dstDevName tagRules gaveUp (Log.started file) (some self) order hne
      refine ⟨iff_of_true hnone (Or.inr (Or.inr ⟨rfl, hne⟩)), fun status P s' h => ?_⟩
      rw [hnone] at h
      cases h

end

/-- With a pipeline that `malloc` has given, and nothing refused, `main` is defined and leaves
nothing but the contexts. -/
theorem main_leaves_one : ∃ status P s', main ⟨fun _ => true, fun _ _ => some 1⟩ .little
      (some ⟨⟨.pipeline, 0⟩, rfl⟩) true [101] [102] [⟨0x0a000000, 0x0a0000ff, 7⟩] (fun _ => false) id
      (Store.empty.granted .pipeline) = some ((status, P), s') ∧ Left status (fun _ => false) 0 P s' := by
  obtain ⟨hundefined, hleft⟩ := main_leaves ⟨fun _ => true, fun _ _ => some 1⟩ .little [101] [102]
    [⟨0x0a000000, 0x0a0000ff, 7⟩] (fun _ => false) (some ⟨⟨.pipeline, 0⟩, rfl⟩) true
    (fun l => List.Perm.refl l) (s := Store.empty.granted .pipeline) (add_zero _).symm
  obtain ⟨⟨⟨status, P⟩, s'⟩, hmain⟩ := Option.ne_none_iff_exists'.mp fun hnone => by
    rcases hundefined.mp hnone with hself | (hlog | hlog) | ⟨-, hgrants⟩
    · cases hself
    · cases hlog
    · cases hlog
    · exact hgrants rfl
  exact ⟨status, P, s', hmain, (hleft status P s' hmain).1⟩

end VlanTagger.Pipeline.Allocation
