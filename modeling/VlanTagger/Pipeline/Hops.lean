import VlanTagger.Lib.Lines
import VlanTagger.Pipeline.Delivery

/-!
# What a step does to the account

`Hop` says it once for the network of the program: a frame is captured, or one frame goes
from a place to the next, or is lost on the way. The dispatcher, which has an index of its
own for its outputs, deals its packets to the two taggers in turn.
-/
namespace VlanTagger.Pipeline

open Lib Nodes Queue

/-! ## Turns -/

/-- The queue whose turn it is with the `i`-th packet of the dispatcher. -/
def turn (i : Nat) : Channel := if i % 2 = 0 then .tagger1 else .tagger2

/-- The packets that the dispatcher has popped. -/
def Ledger.popped (L : Ledger Station Channel) : List Nat := L.tokens.arrived (.buffer .dispatcher)

theorem outputs_turn (i : Nat) : (Station.outputs .dispatcher)[i % 2]? = some (turn i) := by
  unfold turn
  rcases Nat.mod_two_eq_zero_or_one i with h | h
  · rw [h]
    rfl
  · rw [h]
    rfl

/-! ## Hops -/

/-- What a step does to the account. -/
inductive Hop : Ledger Station Channel → Ledger Station Channel → Prop
  | stay {L : Ledger Station Channel} : Hop L L
  | capture {L : Ledger Station Channel} (frame : List UInt8) :
      Hop L { L with tokens := L.tokens.issue frame (.buffer .sniffer) }
  | take {L : Ledger Station Channel} {n : Station} {k : Channel} {id : Nat} {ids : List Nat}
      {target : Place Station Channel} (input : n.input = some k)
      (held : L.tokens.held (.queue k) = id :: ids)
      (goes : target = .buffer n ∨ target = .discarded n ∧ n ≠ .dispatcher) :
      Hop L { L with tokens := L.tokens.move (.queue k) target }
  | push {L : Ledger Station Channel} {n : Station} {k : Channel} {id : Nat}
      {target : Place Station Channel} (output : k ∈ n.outputs)
      (held : L.tokens.held (.buffer n) = [id])
      (turn : n = .dispatcher → ∃ i, L.popped.length = i + 1 ∧ k = turn i)
      (goes : target = .queue k ∨ target = .dropped k) :
      Hop L { L with tokens := L.tokens.move (.buffer n) target }
  | send {L : Ledger Station Channel} {id : Nat} {frame : List UInt8}
      {target : Place Station Channel} (held : L.tokens.held (.buffer .sender) = [id])
      (goes : target = .failed .sender ∨ target = .sent .sender) :
      Hop L ⟨L.tokens.move (.buffer .sender) target, L.handed ++ [(id, frame)]⟩

/-- The queue that the dispatcher is about to push to. -/
def Pc.target : Pc Channel → Option Channel
  | .dispatch k _ _ => some k
  | _ => none

/-- The dispatcher has popped as many packets as its index says, and the last one goes to
the queue whose turn it is. -/
structure RoundRobin (s : State Station Channel) (L : Ledger Station Channel) : Prop where
  next : ∃ c, (s.node .dispatcher).process = .dispatcher c ∧ c.strategy = .roundRobin ∧
    c.nextIndex = L.popped.length % 2
  target : ∀ k, (s.node .dispatcher).pc.target = some k → ∃ i, L.popped.length = i + 1 ∧ k = turn i

section

variable {host : ByteOrder} {ctx : TaggerContext} {s s' : State Station Channel}
  {L : Ledger Station Channel} {e : Event Station Channel}

/-- The account agrees with the pipeline, in the network of the program. -/
abbrev NetworkAgrees (ctx : TaggerContext) : State Station Channel → Ledger Station Channel → Prop :=
  Agrees vlanTagger ctx Channel.stage fun n => (n.process ctx).role

theorem isSniffer_role {pr : Process} (h : pr.isSniffer = true) : pr.role = .sniffer := by
  cases pr with
  | sniffer errCounter => rfl
  | _ => cases h

/-- Only the sniffer captures frames. -/
theorem sniffer_of_isSniffer (h : NetworkAgrees ctx s L) {n : Station}
    (hn : (s.node n).process.isSniffer = true) : n = .sniffer := by
  have hrole := (h.roles n).symm.trans (isSniffer_role hn)
  cases n with
  | sniffer => rfl
  | _ => cases hrole

theorem sender_of_process (h : NetworkAgrees ctx s L) {n : Station} {errCounter : Nat}
    (hn : (s.node n).process = .sender errCounter) : n = .sender := by
  have hrole := h.roles n
  rw [hn] at hrole
  cases n with
  | sender => rfl
  | _ => cases hrole

theorem dispatcher_of_process (h : NetworkAgrees ctx s L) {n : Station} {c : DispatcherContext}
    (hn : (s.node n).process = .dispatcher c) : n = .dispatcher := by
  have hrole := h.roles n
  rw [hn] at hrole
  cases n with
  | dispatcher => rfl
  | _ => cases hrole

theorem target_of_isAsleep {pc : Pc Channel} (h : pc.isAsleep = true) : pc.target = none := by
  cases pc with
  | asleep => rfl
  | _ => cases h

/-- A signal starts no `push`. -/
theorem target_signal (k : Channel) (n : Station) :
    ((s.signal vlanTagger k).node n).pc.target = (s.node n).pc.target := by
  simp only [State.signal]
  split
  next hasleep =>
    rw [target_of_isAsleep hasleep.2]
    rfl
  next => rfl

theorem target_pushed {k : Channel} {ret : Int} {q : QueueT} (n : Station) :
    ((s.pushed vlanTagger k ret q).node n).pc.target = (s.node n).pc.target := by
  unfold State.pushed
  split
  · rw [target_signal]
    rfl
  · rfl

theorem target_setPc {m : Station} {pc : Pc Channel} (hpc : pc.target = none) (n : Station)
    {k : Channel} (h : ((s.setPc m pc).node n).pc.target = some k) :
    (s.node n).pc.target = some k := by
  unfold State.setPc at h
  by_cases hn : n = m
  · subst hn
    rw [node_setNode_self] at h
    exact absurd (h.symm.trans hpc) nofun
  · rwa [node_setNode_of_ne hn] at h

/-- Steps other than its own `pop` and `push` leave the dispatcher alone. -/
theorem dispatcher_unmoved (h : NetworkAgrees ctx s L) (hs : Step host vlanTagger s e s')
    (htake : ∀ k effect, e ≠ .take .dispatcher k effect)
    (hpush : ∀ k stored, e ≠ .push .dispatcher k stored) :
    (s'.node .dispatcher).process = (s.node .dispatcher).process ∧
      ∀ k, (s'.node .dispatcher).pc.target = some k → (s.node .dispatcher).pc.target = some k := by
  cases hs with
  | enter => exact ⟨process_setPc _, fun k => target_setPc rfl _⟩
  | exit => exact ⟨process_setPc _, fun k => target_setPc rfl _⟩
  | wait => exact ⟨process_setPc _, fun k => target_setPc rfl _⟩
  | spuriousWakeup => exact ⟨process_setPc _, fun k => target_setPc rfl _⟩
  | @recv n frame pc sniffer len =>
    obtain rfl := sniffer_of_isSniffer h sniffer
    rw [node_finish_of_ne (by decide)]
    exact ⟨rfl, fun _ => id⟩
  | @recvFailed n pc sniffer =>
    obtain rfl := sniffer_of_isSniffer h sniffer
    rw [node_finish_of_ne (by decide)]
    exact ⟨rfl, fun _ => id⟩
  | @take n k ret buffer q rand pc input call =>
    have hn : Station.dispatcher ≠ n := by
      rintro rfl
      exact htake _ _ rfl
    rw [node_finish_of_ne hn]
    exact ⟨rfl, fun _ => id⟩
  | @push n k ks buffer size ret q pc call =>
    have hn : Station.dispatcher ≠ n := by
      rintro rfl
      exact hpush _ _ rfl
    rw [process_pushed, target_pushed, State.setPc, node_setNode_of_ne hn]
    exact ⟨rfl, fun _ => id⟩
  | @dispatch n k buffer size ret q c pc process call =>
    obtain rfl := dispatcher_of_process h process
    exact absurd rfl (hpush _ _)
  | @sendto n buffer len errCounter sent pc process =>
    obtain rfl := sender_of_process h process
    rw [node_finish_of_ne (by decide)]
    exact ⟨rfl, fun _ => id⟩
  | @stopSignal k ks stop =>
    refine ⟨?_, fun k' hk => (target_signal (s := s) k .dispatcher).symm.trans hk⟩
    show ((s.signal vlanTagger k).node .dispatcher).process = _
    simp only [State.signal]
    split <;> rfl
  | stopFlag => exact ⟨rfl, fun _ => id⟩
  | stopJoin => exact ⟨rfl, fun _ => id⟩
  | joined => exact ⟨rfl, fun _ => id⟩

theorem popped_move_of_ne {p q : Place Station Channel} (hq : q ≠ .buffer .dispatcher)
    (handed' : List (Nat × List UInt8)) :
    Ledger.popped ⟨L.tokens.move p q, handed'⟩ = L.popped :=
  Tokens.arrived_move_of_ne hq.symm

theorem popped_issue (frame : List UInt8) :
    Ledger.popped { L with tokens := L.tokens.issue frame (.buffer .sniffer) } = L.popped :=
  Tokens.arrived_arrive_of_ne nofun

/-- Only its own `pop` gives the dispatcher a packet. -/
theorem popped_record (h : NetworkAgrees ctx s L) (hs : Step host vlanTagger s e s')
    (htake : ∀ k effect, e ≠ .take .dispatcher k effect) : (L.record e).popped = L.popped := by
  cases hs with
  | @recv n frame pc sniffer len =>
    obtain rfl := sniffer_of_isSniffer h sniffer
    exact popped_issue frame
  | @take n k ret buffer q rand pc input call =>
    have hn : n ≠ .dispatcher := by
      rintro rfl
      exact htake _ _ rfl
    refine popped_move_of_ne ?_ _
    split
    · exact fun heq => hn (Place.buffer.inj heq)
    · exact nofun
  | push pc call =>
    refine popped_move_of_ne ?_ _
    split <;> exact nofun
  | dispatch pc process call =>
    refine popped_move_of_ne ?_ _
    split <;> exact nofun
  | @sendto n buffer len errCounter sent pc process =>
    refine popped_move_of_ne ?_ _
    split <;> exact nofun
  | _ => rfl

/-- The dispatcher passes every packet on that it pops. -/
theorem record_take_dispatcher (h : NetworkAgrees ctx s L) {k : Channel} {ret : Int}
    {buffer : Memory UInt8} {q : QueueT} (rand : Nat) (pc : InPop (s.node .dispatcher))
    (input : vlanTagger.input .dispatcher = some k)
    (call : pop (s.queue k) (s.node .dispatcher).buffer = some (ret, buffer, q)) :
    1 ≤ ret ∧ ∃ id ids, L.tokens.held (.queue k) = id :: ids ∧
      L.record (.take .dispatcher k (s.body host vlanTagger .dispatcher rand buffer ret).effect) =
        { L with tokens := L.tokens.move (.queue k) (.buffer .dispatcher) } := by
  obtain ⟨id, ids, p, packet, hheld, -, rfl, -, hwork⟩ :=
    h.taken host (vlanTagger_lane ctx) rand pc input call
  refine ⟨by exact_mod_cast packet.length_pos, id, ids, hheld, ?_⟩
  rcases hwork with ⟨-, -, hdiscards⟩ | ⟨hsome, -⟩
  · exact hdiscards.elim
  · simp only [Ledger.record, hsome, if_true]

theorem dispatcherBody_roundRobin {c : DispatcherContext} (hc : c.strategy = .roundRobin) {ret : Int}
    (hret : 1 ≤ ret) (rand : Nat) (buffer : Memory UInt8) :
    dispatcherBody c 2 rand buffer ret = ({ c with nextIndex := (c.nextIndex + 1) % 2 },
      .pushTo (c.nextIndex % 2) buffer (UInt16.ofInt ret)) := by
  have hone : ¬ ret < 1 := by omega
  unfold dispatcherBody
  rw [if_neg hone, hc]

/-- The dispatcher pops a packet and turns to the queue for it. -/
theorem RoundRobin.take (hr : RoundRobin s L) {k : Channel} {ret : Int} {buffer : Memory UInt8}
    {q : QueueT} (rand : Nat) (hret : 1 ≤ ret) {id : Nat} {ids : List Nat}
    (hheld : L.tokens.held (.queue k) = id :: ids) :
    RoundRobin ((s.setQueue k q).finish vlanTagger .dispatcher
        (s.body host vlanTagger .dispatcher rand buffer ret))
      { L with tokens := L.tokens.move (.queue k) (.buffer .dispatcher) } := by
  obtain ⟨c, hprocess, hstrategy, hnext⟩ := hr.next
  have hpopped : Ledger.popped
      { L with tokens := L.tokens.move (.queue k) (.buffer .dispatcher) } = L.popped ++ [id] :=
    Tokens.arrived_move_target hheld
  have hbody : s.body host vlanTagger .dispatcher rand buffer ret =
      ⟨.dispatcher { c with nextIndex := (c.nextIndex + 1) % 2 }, buffer,
        .pushTo (c.nextIndex % 2) buffer (UInt16.ofInt ret)⟩ := by
    unfold State.body
    rw [hprocess]
    show (⟨.dispatcher (dispatcherBody c 2 rand buffer ret).1, buffer,
      (dispatcherBody c 2 rand buffer ret).2⟩ : Outcome) = _
    rw [dispatcherBody_roundRobin hstrategy hret]
  constructor
  · refine ⟨{ c with nextIndex := (c.nextIndex + 1) % 2 }, by rw [process_finish_self, hbody],
      hstrategy, ?_⟩
    show (c.nextIndex + 1) % 2 = _
    rw [hpopped, List.length_append, List.length_singleton, hnext]
    omega
  · intro k' hk'
    have hturn : (vlanTagger.outputs .dispatcher)[c.nextIndex % 2]? = some (turn c.nextIndex) :=
      outputs_turn _
    rw [pc_finish_self, hbody, Pc.after, hturn] at hk'
    refine ⟨L.popped.length, by rw [hpopped, List.length_append, List.length_singleton], ?_⟩
    rw [← Option.some.inj hk', hnext]
    unfold turn
    rw [Nat.mod_mod]

theorem roundRobin_step (h : NetworkAgrees ctx s L) (hr : RoundRobin s L)
    (hs : Step host vlanTagger s e s') : RoundRobin s' (L.record e) := by
  by_cases htake : ∃ k effect, e = .take .dispatcher k effect
  · obtain ⟨k, effect, rfl⟩ := htake
    cases hs with
    | take rand pc input call =>
      obtain ⟨hret, id, ids, hheld, hrecord⟩ := record_take_dispatcher h rand pc input call
      rw [hrecord]
      exact hr.take rand hret hheld
  have hpopped := popped_record h hs fun k effect heq => htake ⟨k, effect, heq⟩
  by_cases hpush : ∃ k stored, e = .push .dispatcher k stored
  · obtain ⟨k, stored, rfl⟩ := hpush
    obtain ⟨c, hprocess, hstrategy, hnext⟩ := hr.next
    cases hs with
    | push pc call =>
      obtain ⟨id, p, -, -, hrole, -⟩ := pc ▸ (h.buffer .dispatcher).holds (by rw [pc]; rfl)
      exact absurd rfl (hrole .roundRobin)
    | @dispatch _ _ buffer size ret q c' pc process call =>
      rw [hprocess] at process
      cases process
      constructor
      · refine ⟨dispatcherPushed c ret size.toNat, ?_, ?_, ?_⟩
        · rw [process_pushed, node_setNode_self]
        · unfold dispatcherPushed
          split <;> exact hstrategy
        · rw [hpopped, ← hnext]
          unfold dispatcherPushed
          split <;> rfl
      · intro k' hk'
        rw [target_pushed, node_setNode_self] at hk'
        cases hk'
  · obtain ⟨hprocess, htarget⟩ := dispatcher_unmoved h hs (fun k effect heq => htake ⟨k, effect, heq⟩)
      fun k stored heq => hpush ⟨k, stored, heq⟩
    constructor
    · rw [hprocess, hpopped]
      exact hr.next
    · intro k hk
      rw [hpopped]
      exact hr.target k (htarget k hk)

/-- What a step does to the account is a hop. -/
theorem hop_step (h : NetworkAgrees ctx s L) (hr : RoundRobin s L)
    (hs : Step host vlanTagger s e s') : Hop L (L.record e) := by
  cases hs with
  | @recv n frame pc sniffer len =>
    obtain rfl := sniffer_of_isSniffer h sniffer
    exact .capture frame
  | @take n k ret buffer q rand pc input call =>
    obtain ⟨id, ids, p, packet, hheld, -, rfl, -, hwork⟩ :=
      h.taken host (vlanTagger_lane ctx) rand pc input call
    refine .take input hheld ?_
    rcases hwork with ⟨hnone, -, hdiscards⟩ | ⟨hsome, -⟩
    · refine .inr ⟨by rw [hnone]; rfl, ?_⟩
      rintro rfl
      exact hdiscards
    · exact .inl (by rw [hsome]; rfl)
  | @push n k ks buffer size ret q pc call =>
    obtain ⟨id, p, hheld, -, hrole, k', hone, hk, -⟩ := pc ▸ (h.buffer n).holds (by rw [pc]; rfl)
    cases hone
    refine .push hk hheld ?_ ?_
    · rintro rfl
      exact absurd rfl (hrole .roundRobin)
    · split
      · exact .inl rfl
      · exact .inr rfl
  | @dispatch n k buffer size ret q c pc process call =>
    obtain ⟨id, p, hheld, -, -, hk, -⟩ := pc ▸ (h.buffer n).holds (by rw [pc]; rfl)
    refine .push hk hheld ?_ ?_
    · rintro rfl
      exact hr.target k (by rw [pc]; rfl)
    · split
      · exact .inl rfl
      · exact .inr rfl
  | @sendto n buffer len errCounter sent pc process =>
    obtain rfl := sender_of_process h process
    obtain ⟨id, p, hheld, -⟩ := (h.buffer .sender).holds (by rw [pc]; rfl)
    simp only [Ledger.record, hheld]
    refine .send hheld ?_
    split
    · exact .inr rfl
    · exact .inl rfl
  | _ => exact .stay

/-! ## Runs -/

variable {tr : List (Event Station Channel)}

theorem roundRobin_run (h : (vlanTaggerRuntime host ctx).Run tr s) : RoundRobin s (ledger tr) := by
  refine h.invariant (I := fun tr s => RoundRobin s (ledger tr)) ?_ ?_
  · intro s hinit
    obtain ⟨-, -, -, hnode⟩ := hinit
    obtain ⟨hpc, uninitialised, hprocess⟩ := hnode .dispatcher
    refine ⟨⟨dispatcherNodeCreate .roundRobin, hprocess, rfl, rfl⟩, fun k hk => ?_⟩
    rw [hpc] at hk
    cases hk
  · intro tr s e s' hrun hr hs
    rw [ledger_snoc]
    exact roundRobin_step (agrees_run (vlanTagger_lane ctx) hrun) hr hs

/-- The places of the account are queues. -/
theorem ledger_queued (tr : List (Event Station Channel)) : (ledger tr).tokens.Queued := by
  refine ledger_invariant (I := fun L => L.tokens.Queued) Tokens.queued_empty (fun L e h => ?_) tr
  cases e with
  | recv n frame => exact h.issue frame _
  | take n k effect => exact h.move _ _
  | push n k stored => exact h.move _ _
  | sendto n frame sent => exact h.move _ _
  | _ => exact h

/-- What holds of the empty account and is kept by every hop holds of the account of a run. -/
theorem hop_invariant {I : Ledger Station Channel → Prop} (start : I ⟨.empty, []⟩)
    (hop : ∀ L L', L.HandedOnce → L.tokens.Queued → I L → Hop L L' → I L')
    (h : (vlanTaggerRuntime host ctx).Run tr s) : I (ledger tr) := by
  refine h.invariant (I := fun tr _ => I (ledger tr)) (fun _ _ => start) ?_
  intro tr s e s' hrun hi hs
  rw [ledger_snoc]
  exact hop _ _ (ledger_handedOnce tr) (ledger_queued tr) hi
    (hop_step (agrees_run (vlanTagger_lane ctx) hrun) (roundRobin_run hrun) hs)

end

end VlanTagger.Pipeline
