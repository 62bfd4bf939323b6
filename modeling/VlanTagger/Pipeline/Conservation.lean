import VlanTagger.Pipeline.Lanes
import VlanTagger.Pipeline.Ledger

/-!
# The account is that of the pipeline

`Agrees` relates a pipeline of single lanes to the account of its events: every queue
holds exactly the frames that the account has in it, in order and in the form of their
stage, and a thread that is about to pass a frame on holds the one frame that the account
has in its hands. Every step keeps it, whatever the other threads do, so that the account
of any run tells where the captured frames are.
-/
namespace VlanTagger.Pipeline

open Lib Nodes Queue

section

variable {ν κ : Type*}

/-- `p` is the captured frame with this number. -/
def Ledger.Names (L : Ledger ν κ) (id : Nat) (p : List UInt8) : Prop :=
  L.tokens.issued[id]? = some p

theorem names_iff [DecidableEq ν] [DecidableEq κ] {tr : List (Event ν κ)} {id : Nat}
    {p : List UInt8} : (ledger tr).Names id p ↔ (capturedFrames tr)[id]? = some p := by
  unfold Ledger.Names
  rw [ledger_captured]

/-! ## The relation -/

section

variable (T : Topology ν κ) (ctx : TaggerContext) (stage : κ → Stage) (role : ν → Role)

def QueueAgrees (L : Ledger ν κ) (k : κ) (q : QueueT) : Prop :=
  ∃ items, Represents q items ∧
    List.Forall₂ (fun id (packet : Packet) => ∃ p, L.Names id p ∧ (stage k).Carries ctx p packet.bytes)
      (L.tokens.held (.queue k)) items

def BufferAgrees (L : Ledger ν κ) (n : ν) (pc : Pc κ) : Prop :=
  (pc.idle = true ∧ L.tokens.held (.buffer n) = []) ∨
    ∃ id p, L.tokens.held (.buffer n) = [id] ∧ L.Names id p ∧ Passes T ctx stage (role n) n p pc

structure Agrees (s : State ν κ) (L : Ledger ν κ) : Prop where
  roles : ∀ n, (s.node n).process.role = role n
  queue : ∀ k, QueueAgrees ctx stage L k (s.queue k)
  buffer : ∀ n, BufferAgrees T ctx stage role L n (s.node n).pc
  discarded : ∀ n id, id ∈ L.tokens.held (.discarded n) → ∃ p, L.Names id p ∧ Discards ctx p (role n)
  handed : ∀ x ∈ L.handed, ∃ p, L.Names x.1 p ∧ tagFrame ctx p = some x.2 ∧
    x.2.length < vlanEthFrameLen

end

/-- The places behind the queue `k` of a sender `n`. -/
def AtSender (n : ν) (k : κ) (p : Place ν κ) : Prop :=
  p = .queue k ∨ p = .buffer n ∨ p = .discarded n ∨ p = .failed n ∨ p = .sent n

theorem eq_of_atSender_queue {n : ν} {k k' : κ} (h : AtSender n k (.queue k')) : k' = k := by
  rcases h with he | he | he | he | he
  · exact Place.queue.inj he
  all_goals cases he

theorem eq_of_atSender_buffer {n m : ν} {k : κ} (h : AtSender n k (.buffer m)) : m = n := by
  rcases h with he | he | he | he | he
  · cases he
  · exact Place.buffer.inj he
  all_goals cases he

variable {T : Topology ν κ} {ctx : TaggerContext} {stage : κ → Stage} {role : ν → Role}
  {s s' : State ν κ} {L L' : Ledger ν κ}

theorem QueueAgrees.kept {k : κ} {q : QueueT} (h : QueueAgrees ctx stage L k q)
    (hheld : L'.tokens.held (.queue k) = L.tokens.held (.queue k))
    (hnames : ∀ {id p}, L.Names id p → L'.Names id p) : QueueAgrees ctx stage L' k q := by
  obtain ⟨items, hrep, hall⟩ := h
  refine ⟨items, hrep, ?_⟩
  rw [hheld]
  refine hall.imp fun id packet hp => ?_
  obtain ⟨p, hp, hc⟩ := hp
  exact ⟨p, hnames hp, hc⟩

theorem BufferAgrees.kept {n : ν} {pc : Pc κ} (h : BufferAgrees T ctx stage role L n pc)
    (hheld : L'.tokens.held (.buffer n) = L.tokens.held (.buffer n))
    (hnames : ∀ {id p}, L.Names id p → L'.Names id p) : BufferAgrees T ctx stage role L' n pc := by
  rcases h with ⟨hidle, hnil⟩ | ⟨id, p, hone, hp, hpass⟩
  · exact .inl ⟨hidle, hheld.trans hnil⟩
  · exact .inr ⟨id, p, hheld.trans hone, hnames hp, hpass⟩

/-- An idle thread holds no frame. -/
theorem BufferAgrees.nil_of_idle {n : ν} {pc : Pc κ} (h : BufferAgrees T ctx stage role L n pc)
    (hidle : pc.idle = true) : L.tokens.held (.buffer n) = [] := by
  rcases h with ⟨-, hnil⟩ | ⟨id, p, -, -, hpass⟩
  · exact hnil
  · rw [idle_of_passes hpass] at hidle
    cases hidle

/-- The frame in the hands of a thread that is about to pass it on. -/
theorem BufferAgrees.holds {n : ν} {pc : Pc κ} (h : BufferAgrees T ctx stage role L n pc)
    (hbusy : pc.idle = false) :
    ∃ id p, L.tokens.held (.buffer n) = [id] ∧ L.Names id p ∧ Passes T ctx stage (role n) n p pc := by
  rcases h with ⟨hidle, -⟩ | hheld
  · rw [hbusy] at hidle
    cases hidle
  · exact hheld

/-- A thread that holds a frame is about to pass it on. -/
theorem BufferAgrees.busy_of_held {n : ν} {pc : Pc κ} (h : BufferAgrees T ctx stage role L n pc)
    {id : Nat} {ids : List Nat} (hheld : L.tokens.held (.buffer n) = id :: ids) : pc.idle = false := by
  cases hidle : pc.idle with
  | false => rfl
  | true =>
    rw [h.nil_of_idle hidle] at hheld
    cases hheld

theorem agrees_initial {process : ν → Process} (h : Initial process s) :
    Agrees T ctx stage (fun n => (process n).role) s ⟨.empty, []⟩ := by
  obtain ⟨-, -, hqueue, hnode⟩ := h
  refine ⟨fun n => ?_, fun k => ?_, fun n => ?_, nofun, nofun⟩
  · obtain ⟨-, uninitialised, hp⟩ := hnode n
    rw [hp, role_started]
  · obtain ⟨uninitialised, hq⟩ := hqueue k
    rw [hq]
    exact ⟨[], represents_init _, .nil⟩
  · rw [(hnode n).1]
    exact .inl ⟨rfl, rfl⟩

/-- Steps that move no frame: threads go from one idle place to another. -/
theorem Agrees.same (h : Agrees T ctx stage role s L) (hqueue : s'.queue = s.queue)
    (hrole : ∀ n, (s'.node n).process.role = (s.node n).process.role)
    (hpc : ∀ n, (s'.node n).pc = (s.node n).pc ∨
      ((s.node n).pc.idle = true ∧ (s'.node n).pc.idle = true)) :
    Agrees T ctx stage role s' L := by
  refine ⟨fun n => (hrole n).trans (h.roles n), fun k => ?_, fun n => ?_, h.discarded, h.handed⟩
  · rw [hqueue]
    exact h.queue k
  · rcases hpc n with he | ⟨hidle, hidle'⟩
    · rw [he]
      exact h.buffer n
    · exact .inl ⟨hidle', (h.buffer n).nil_of_idle hidle⟩

/-! ## What a step leaves alone -/

theorem node_setNode_of_ne [DecidableEq ν] {m n : ν} {st : NodeState κ} (h : m ≠ n) :
    (s.setNode n st).node m = s.node m := Function.update_of_ne h ..

theorem node_setNode_self [DecidableEq ν] {n : ν} {st : NodeState κ} :
    (s.setNode n st).node n = st := Function.update_self ..

theorem node_finish_of_ne [DecidableEq ν] {m n : ν} {o : Outcome} (h : m ≠ n) :
    (s.finish T n o).node m = s.node m := Function.update_of_ne h ..

theorem pc_finish_self [DecidableEq ν] {n : ν} {o : Outcome} :
    ((s.finish T n o).node n).pc = Pc.after (T.outputs n) o.effect := by
  show (Function.update s.node n _ n).pc = _
  rw [Function.update_self]

theorem pc_finish [DecidableEq ν] {n : ν} {o : Outcome} (hidle : (s.node n).pc.idle = true)
    (hidle' : (Pc.after (T.outputs n) o.effect).idle = true) (m : ν) :
    ((s.finish T n o).node m).pc = (s.node m).pc ∨
      ((s.node m).pc.idle = true ∧ ((s.finish T n o).node m).pc.idle = true) := by
  by_cases hm : m = n
  · subst hm
    rw [pc_finish_self]
    exact .inr ⟨hidle, hidle'⟩
  · rw [node_finish_of_ne hm]
    exact .inl rfl

theorem pc_setPc [DecidableEq ν] {n : ν} {pc : Pc κ} (hidle : (s.node n).pc.idle = true)
    (hidle' : pc.idle = true) (m : ν) :
    ((s.setPc n pc).node m).pc = (s.node m).pc ∨
      ((s.node m).pc.idle = true ∧ ((s.setPc n pc).node m).pc.idle = true) := by
  unfold State.setPc
  by_cases hm : m = n
  · subst hm
    rw [node_setNode_self]
    exact .inr ⟨hidle, hidle'⟩
  · rw [node_setNode_of_ne hm]
    exact .inl rfl

variable [DecidableEq κ]

theorem queue_setQueue_self {k : κ} {q : QueueT} : (s.setQueue k q).queue k = q :=
  Function.update_self ..

theorem queue_setQueue_of_ne {k k' : κ} {q : QueueT} (h : k' ≠ k) :
    (s.setQueue k q).queue k' = s.queue k' := Function.update_of_ne h ..

theorem Agrees.signal (h : Agrees T ctx stage role s L) (k : κ) :
    Agrees T ctx stage role (s.signal T k) L := by
  refine h.same rfl (fun n => role_signal n) fun n => ?_
  simp only [State.signal]
  split
  next hasleep =>
    right
    refine ⟨?_, rfl⟩
    cases hpc : (s.node n).pc with
    | asleep => rfl
    | _ =>
      have hno := hasleep.2
      rw [hpc] at hno
      cases hno
  next => exact .inl rfl

/-! ## Moving a frame -/

variable [DecidableEq ν]

theorem names_move {id : Nat} {p : List UInt8} {source target : Place ν κ}
    {handed' : List (Nat × List UInt8)} (h : L.Names id p) :
    Ledger.Names ⟨L.tokens.move source target, handed'⟩ id p := by
  unfold Ledger.Names
  rw [Tokens.issued_move]
  exact h

/-- One frame moves in the account. What is left to show is that the queue and the thread
that it concerns agree with the new account. -/
theorem Agrees.move (h : Agrees T ctx stage role s L) {source target : Place ν κ} {id : Nat}
    {ids : List Nat} {p : List UInt8} {handed' : List (Nat × List UInt8)}
    (hheld : L.tokens.held source = id :: ids) (hname : L.Names id p)
    (hrole : ∀ n, (s'.node n).process.role = (s.node n).process.role)
    (hqueue : ∀ k, (Place.queue k ≠ source ∧ Place.queue k ≠ target ∧ s'.queue k = s.queue k) ∨
      QueueAgrees ctx stage ⟨L.tokens.move source target, handed'⟩ k (s'.queue k))
    (hbuffer : ∀ n, (Place.buffer n ≠ source ∧ Place.buffer n ≠ target ∧
        (s'.node n).pc = (s.node n).pc) ∨
      BufferAgrees T ctx stage role ⟨L.tokens.move source target, handed'⟩ n (s'.node n).pc)
    (hfrom : ∀ n, source ≠ .discarded n) (hto : ∀ n, target = .discarded n → Discards ctx p (role n))
    (hhanded : ∀ x ∈ handed', x ∈ L.handed ∨
      (x.1 = id ∧ tagFrame ctx p = some x.2 ∧ x.2.length < vlanEthFrameLen)) :
    Agrees T ctx stage role s' ⟨L.tokens.move source target, handed'⟩ := by
  refine ⟨fun n => (hrole n).trans (h.roles n), fun k => ?_, fun n => ?_, fun n i hi => ?_,
    fun x hx => ?_⟩
  · rcases hqueue k with ⟨hf, ht, he⟩ | hq
    · rw [he]
      exact (h.queue k).kept (Tokens.held_move_of_ne hf ht) names_move
    · exact hq
  · rcases hbuffer n with ⟨hf, ht, he⟩ | hb
    · rw [he]
      exact (h.buffer n).kept (Tokens.held_move_of_ne hf ht) names_move
    · exact hb
  · have hf := hfrom n
    by_cases ht : target = .discarded n
    · subst ht
      change i ∈ (L.tokens.move source (.discarded n)).held (.discarded n) at hi
      rw [Tokens.held_move_target hheld hf, List.mem_append, List.mem_singleton] at hi
      rcases hi with hi | rfl
      · obtain ⟨p', hp', hd⟩ := h.discarded n i hi
        exact ⟨p', names_move hp', hd⟩
      · exact ⟨p, names_move hname, hto n rfl⟩
    · change i ∈ (L.tokens.move source target).held (.discarded n) at hi
      rw [Tokens.held_move_of_ne hf.symm (Ne.symm ht)] at hi
      obtain ⟨p', hp', hd⟩ := h.discarded n i hi
      exact ⟨p', names_move hp', hd⟩
  · rcases hhanded x hx with hx | ⟨hid, ht⟩
    · obtain ⟨p', hp', ht⟩ := h.handed x hx
      exact ⟨p', names_move hp', ht⟩
    · rw [hid]
      exact ⟨p, names_move hname, ht⟩

theorem names_issue {id : Nat} {p frame : List UInt8} {at' : Place ν κ} (h : L.Names id p) :
    Ledger.Names ⟨L.tokens.issue frame at', L.handed⟩ id p := by
  have hlt : id < L.tokens.issued.length := (List.getElem?_eq_some_iff.mp h).1
  unfold Ledger.Names
  rw [Tokens.issued_issue, List.getElem?_append_left hlt]
  exact h

/-- `pop` takes the frame that the account has at the head of the queue. -/
theorem QueueAgrees.pop {k : κ} {q q' : QueueT} {buff buff' : Memory UInt8} {ret : Int}
    (h : QueueAgrees ctx stage L k q) (call : Queue.pop q buff = some (ret, buff', q')) :
    ∃ id ids p, ∃ packet : Packet, L.tokens.held (.queue k) = id :: ids ∧ L.Names id p ∧
      (stage k).Carries ctx p packet.bytes ∧ ret = packet.bytes.length ∧
      buff'.bytes packet.bytes.length = packet.bytes ∧
      ∀ (target : Place ν κ) (handed' : List (Nat × List UInt8)), target ≠ .queue k →
        QueueAgrees ctx stage ⟨L.tokens.move (.queue k) target, handed'⟩ k q' := by
  obtain ⟨items, hrep, hall⟩ := h
  cases items with
  | nil =>
    rw [hrep.pop_nil] at call
    cases call
  | cons packet items =>
    obtain ⟨b, q₁, hpop, ⟨-, hbytes, -⟩, hrep'⟩ := hrep.pop_cons buff
    rw [hpop] at call
    cases call
    cases hheld : L.tokens.held (.queue k) with
    | nil =>
      rw [hheld] at hall
      cases hall
    | cons id ids =>
      rw [hheld] at hall
      obtain ⟨⟨p, hname, hc⟩, hall⟩ := List.forall₂_cons.mp hall
      refine ⟨id, ids, p, packet, rfl, hname, hc, rfl, hbytes, fun target handed' ht => ?_⟩
      refine ⟨items, hrep', ?_⟩
      show List.Forall₂ _ ((L.tokens.move (.queue k) target).held (.queue k)) items
      rw [Tokens.held_move_source hheld ht.symm]
      refine hall.imp fun i packet hi => ?_
      obtain ⟨p', hp', hc'⟩ := hi
      exact ⟨p', names_move hp', hc'⟩

/-- `push` stores the frame behind the others, or leaves the queue as it was. -/
theorem QueueAgrees.push {k : κ} {q q' : QueueT} {buffer : Memory UInt8} {size : UInt16}
    {ret : Int} (h : QueueAgrees ctx stage L k q) (call : Queue.push q buffer size = (ret, q'))
    {source : Place ν κ} {id : Nat} {ids : List Nat} {p : List UInt8}
    (hheld : L.tokens.held source = id :: ids) (hname : L.Names id p)
    (hc : (stage k).Carries ctx p (buffer.bytes size.toNat)) (hne : source ≠ .queue k) :
    (0 < ret ∧ ∀ handed' : List (Nat × List UInt8),
      QueueAgrees ctx stage ⟨L.tokens.move source (.queue k), handed'⟩ k q') ∨
    (¬ 0 < ret ∧ q' = q) := by
  obtain ⟨items, hrep, hall⟩ := h
  by_cases hbig : maxPkgSize < size.toNat
  · unfold Queue.push at call
    rw [if_pos hbig] at call
    cases call
    exact .inr ⟨by decide, rfl⟩
  by_cases hz : size = 0
  · unfold Queue.push at call
    rw [if_neg hbig, if_pos hz] at call
    cases call
    exact .inr ⟨by decide, rfl⟩
  by_cases hl : items.length < qSize
  · obtain ⟨hret, hrep'⟩ := hrep.push_room hl buffer size hz (Nat.not_lt.mp hbig)
    rw [call] at hret hrep'
    have hpos : 0 < size.toNat := Nat.pos_of_ne_zero fun h0 => hz (UInt16.toNat.inj h0)
    refine .inl ⟨by change ret = _ at hret; omega, fun handed' => ⟨_, hrep', ?_⟩⟩
    show List.Forall₂ _ ((L.tokens.move source (.queue k)).held (.queue k)) _
    rw [Tokens.held_move_target hheld hne]
    apply List.rel_append
    · refine hall.imp fun i packet hi => ?_
      obtain ⟨p', hp', hc'⟩ := hi
      exact ⟨p', names_move hp', hc'⟩
    · exact .cons ⟨p, names_move hname, hc⟩ .nil
  · rw [hrep.push_full hl buffer size hz (Nat.not_lt.mp hbig)] at call
    cases call
    exact .inr ⟨by decide, rfl⟩

/-! ## One lemma for each step that concerns a frame -/

namespace Agrees

variable {host : ByteOrder}

/-- The sniffer captures a frame and is about to push it. -/
theorem recv (hlane : ∀ n, Lane T ctx stage n (role n)) (h : Agrees T ctx stage role s L) {n : ν}
    {frame : List UInt8} (pc : (s.node n).pc = .call)
    (sniffer : (s.node n).process.isSniffer = true) (len : frame.length ≤ ethernetFrameLength) :
    Agrees T ctx stage role (s.finish T n (s.body host T n 0
      ((s.node n).buffer.memcpy 0 (Memory.ofList frame 0) frame.length) frame.length))
      (L.record (.recv n frame)) := by
  have hnil : L.tokens.held (.buffer n) = [] := (h.buffer n).nil_of_idle (by rw [pc]; rfl)
  have hpass : Passes T ctx stage (role n) n frame (Pc.after (T.outputs n) (s.body host T n 0
      ((s.node n).buffer.memcpy 0 (Memory.ofList frame 0) frame.length) frame.length).effect) := by
    have hl := hlane n
    have hrole := h.roles n
    unfold State.body
    cases hp : (s.node n).process with
    | sniffer errCounter =>
      rw [hp] at hrole
      rw [← hrole] at hl ⊢
      obtain ⟨k, hout, hraw⟩ := hl
      have hlen : frame.length ≤ 1522 := len
      have hneg : ¬ (frame.length : Int) < 0 := by omega
      simp only [Process.body, snifferBody, hneg, if_false]
      refine passes_sendToOutputs (fun _ h => by cases h) hout (toNat_ofInt (by omega)) ?_ ?_
      · rw [Memory.bytes_memcpy_zero, Memory.bytes_ofList]
      · rw [hraw]
        rfl
    | _ =>
      rw [hp] at sniffer
      cases sniffer
  refine ⟨fun m => (role_finish (role_body ..) m).trans (h.roles m), fun k => ?_, fun m => ?_,
    fun m id hid => ?_, fun x hx => ?_⟩
  · exact (h.queue k).kept (Tokens.held_issue_of_ne _ (by simp)) names_issue
  · by_cases hm : m = n
    · subst hm
      rw [pc_finish_self]
      refine .inr ⟨L.tokens.issued.length, frame, ?_, ?_, hpass⟩
      · show (L.tokens.issue frame (.buffer m)).held (.buffer m) = _
        rw [Tokens.held_issue_self, hnil, List.nil_append]
      · show (L.tokens.issued ++ [frame])[L.tokens.issued.length]? = some frame
        rw [List.getElem?_concat_length]
    · rw [node_finish_of_ne hm]
      have hne : Place.buffer m ≠ (.buffer n : Place ν κ) := fun he => hm (Place.buffer.inj he)
      exact (h.buffer m).kept (Tokens.held_issue_of_ne _ hne) names_issue
  · change id ∈ (L.tokens.issue frame (.buffer n)).held (.discarded m) at hid
    have hne : Place.discarded m ≠ (.buffer n : Place ν κ) := by simp
    rw [Tokens.held_issue_of_ne _ hne] at hid
    obtain ⟨p, hp, hd⟩ := h.discarded m id hid
    exact ⟨p, names_issue hp, hd⟩
  · obtain ⟨p, hp, ht⟩ := h.handed x hx
    exact ⟨p, names_issue hp, ht⟩

/-- The frame that a node takes from its queue, and what its body does with it. -/
theorem taken (host : ByteOrder) (hlane : ∀ n, Lane T ctx stage n (role n))
    (h : Agrees T ctx stage role s L) {n : ν} {k : κ} {ret : Int} {buffer : Memory UInt8}
    {q : QueueT} (rand : Nat) (pc : InPop (s.node n)) (input : T.input n = some k)
    (call : pop (s.queue k) (s.node n).buffer = some (ret, buffer, q)) :
    ∃ id ids p, ∃ packet : Packet, L.tokens.held (.queue k) = id :: ids ∧ L.Names id p ∧
      ret = packet.bytes.length ∧
      (∀ (target : Place ν κ) (handed' : List (Nat × List UInt8)), target ≠ .queue k →
        QueueAgrees ctx stage ⟨L.tokens.move (.queue k) target, handed'⟩ k q) ∧
      (((s.body host T n rand buffer ret).effect.frame = none ∧
          (Pc.after (T.outputs n) (s.body host T n rand buffer ret).effect).idle = true ∧
          Discards ctx p (role n)) ∨
        ((s.body host T n rand buffer ret).effect.frame.isSome = true ∧
          Passes T ctx stage (role n) n p
            (Pc.after (T.outputs n) (s.body host T n rand buffer ret).effect))) := by
  obtain ⟨id, ids, p, packet, hheld, hname, hc, rfl, hbytes, hpopped⟩ := (h.queue k).pop call
  have hl := hlane n
  rw [← h.roles n] at hl
  have hwork := passes_or_discards host hl pc.2 input hc packet.length_pos packet.length_le hbytes
    rand s.shouldExit (e := (s.body host T n rand buffer packet.bytes.length).effect) rfl
  rw [h.roles n] at hwork
  exact ⟨id, ids, p, packet, hheld, hname, rfl, hpopped, hwork⟩

/-- A node takes the front frame of its queue and works on it. -/
theorem take (hlane : ∀ n, Lane T ctx stage n (role n)) (h : Agrees T ctx stage role s L) {n : ν}
    {k : κ} {ret : Int} {buffer : Memory UInt8} {q : QueueT} (rand : Nat) (pc : InPop (s.node n))
    (input : T.input n = some k) (call : pop (s.queue k) (s.node n).buffer = some (ret, buffer, q)) :
    Agrees T ctx stage role ((s.setQueue k q).finish T n (s.body host T n rand buffer ret))
      (L.record (.take n k (s.body host T n rand buffer ret).effect)) := by
  have hidle : (s.node n).pc.idle = true := by rcases pc.1 with hpc | hpc <;> rw [hpc] <;> rfl
  have hnil := (h.buffer n).nil_of_idle hidle
  obtain ⟨id, ids, p, packet, hheld, hname, rfl, hpopped, hwork⟩ :=
    h.taken host hlane rand pc input call
  have hrole : ∀ m, (((s.setQueue k q).finish T n
      (s.body host T n rand buffer packet.bytes.length)).node m).process.role =
        (s.node m).process.role := fun m => role_finish (role_body ..) m
  -- the queues, wherever the frame goes
  have hqueue : ∀ target : Place ν κ, (∀ k, target ≠ .queue k) → ∀ k',
      (Place.queue k' ≠ (.queue k : Place ν κ) ∧ Place.queue k' ≠ target ∧
        (s.setQueue k q).queue k' = s.queue k') ∨
      QueueAgrees ctx stage ⟨L.tokens.move (.queue k) target, L.handed⟩ k'
        ((s.setQueue k q).queue k') := by
    intro target htarget k'
    by_cases hk : k' = k
    · subst hk
      rw [queue_setQueue_self]
      exact .inr (hpopped _ _ (htarget k'))
    · exact .inl ⟨fun he => hk (Place.queue.inj he), (htarget k').symm, queue_setQueue_of_ne hk⟩
  rcases hwork with ⟨hnone, hidle', hdisc⟩ | ⟨hsome, hpass⟩
  · simp only [Ledger.record, hnone, Option.isSome_none, Bool.false_eq_true, if_false]
    refine h.move hheld hname hrole (hqueue (.discarded n) (by simp)) (fun m => ?_) (by simp) (fun m he => ?_)
      fun x hx => .inl hx
    · by_cases hm : m = n
      · subst hm
        rw [pc_finish_self]
        refine .inr (.inl ⟨hidle', ?_⟩)
        show (L.tokens.move (.queue k) (.discarded m)).held (.buffer m) = []
        have hk : Place.buffer m ≠ (.queue k : Place ν κ) := by simp
        have hm : Place.buffer m ≠ (.discarded m : Place ν κ) := by simp
        rw [Tokens.held_move_of_ne hk hm, hnil]
      · rw [node_finish_of_ne hm]
        exact .inl ⟨by simp, by simp, rfl⟩
    · cases he
      exact hdisc
  · simp only [Ledger.record, hsome, if_true]
    refine h.move hheld hname hrole (hqueue (.buffer n) (by simp)) (fun m => ?_) (by simp) (by simp)
      fun x hx => .inl hx
    by_cases hm : m = n
    · subst hm
      rw [pc_finish_self]
      refine .inr (.inr ⟨id, p, ?_, names_move hname, hpass⟩)
      show (L.tokens.move (.queue k) (.buffer m)).held (.buffer m) = [id]
      have hk : Place.queue k ≠ (.buffer m : Place ν κ) := by simp
      rw [Tokens.held_move_target hheld hk, hnil, List.nil_append]
    · rw [node_finish_of_ne hm]
      exact .inl ⟨by simp, fun he => hm (Place.buffer.inj he), rfl⟩

/-- The `push` of a frame that a node holds, after which its thread is idle again. -/
theorem push (h : Agrees T ctx stage role s L) {n : ν} {k : κ} {id : Nat} {p : List UInt8}
    {buffer : Memory UInt8} {size : UInt16} {ret : Int} {q : QueueT} {st : NodeState κ}
    (hheld : L.tokens.held (.buffer n) = [id]) (hname : L.Names id p)
    (hc : (stage k).Carries ctx p (buffer.bytes size.toNat))
    (call : Queue.push (s.queue k) buffer size = (ret, q)) (hidle : st.pc.idle = true)
    (hrole : st.process.role = (s.node n).process.role) :
    Agrees T ctx stage role ((s.setNode n st).pushed T k ret q)
      (L.record (.push n k (decide (0 < ret)))) := by
  have hbuffer : ∀ target : Place ν κ, (∀ m, target ≠ .buffer m) → ∀ m,
      (Place.buffer m ≠ (.buffer n : Place ν κ) ∧ Place.buffer m ≠ target ∧
        ((s.setNode n st).node m).pc = (s.node m).pc) ∨
      BufferAgrees T ctx stage role ⟨L.tokens.move (.buffer n) target, L.handed⟩ m
        ((s.setNode n st).node m).pc := by
    intro target htarget m
    by_cases hm : m = n
    · subst hm
      rw [node_setNode_self]
      exact .inr (.inl ⟨hidle, Tokens.held_move_source hheld (htarget m).symm⟩)
    · rw [node_setNode_of_ne hm]
      exact .inl ⟨fun he => hm (Place.buffer.inj he), (htarget m).symm, rfl⟩
  rcases (h.queue k).push call hheld hname hc (by simp) with ⟨hstored, hpushed⟩ | ⟨hrefused, rfl⟩
  · unfold State.pushed
    simp only [Ledger.record, hstored, decide_true, if_true]
    have hmove : Agrees T ctx stage role ((s.setNode n st).setQueue k q)
        ⟨L.tokens.move (.buffer n) (.queue k), L.handed⟩ := by
      refine h.move hheld hname (role_setNode hrole) (fun k' => ?_) (hbuffer (.queue k) (by simp))
        (by simp) (by simp) fun x hx => .inl hx
      by_cases hk : k' = k
      · subst hk
        rw [queue_setQueue_self]
        exact .inr (hpushed _)
      · refine .inl ⟨by simp, fun he => hk (Place.queue.inj he), ?_⟩
        exact queue_setQueue_of_ne hk
    exact hmove.signal k
  · unfold State.pushed
    simp only [Ledger.record, hrefused, decide_false, Bool.false_eq_true, if_false]
    refine h.move hheld hname (role_setNode hrole)
      (fun k' => ?_) (hbuffer (.dropped k) (by simp)) (by simp) (by simp) fun x hx => .inl hx
    refine .inl ⟨by simp, by simp, ?_⟩
    by_cases hk : k' = k
    · subst hk
      exact queue_setQueue_self
    · exact queue_setQueue_of_ne hk

/-- The `sendto` of the frame that a sender holds. -/
theorem sendto (h : Agrees T ctx stage role s L) {n : ν} {buffer : Memory UInt8}
    {len errCounter : Nat} (sent : Bool) (pc : (s.node n).pc = .sendto buffer len)
    (process : (s.node n).process = .sender errCounter) :
    Agrees T ctx stage role (s.finish T n ⟨.sender (senderSent errCounter sent).1,
        (s.node n).buffer, (senderSent errCounter sent).2⟩)
      (L.record (.sendto n (buffer.bytes len) sent)) := by
  obtain ⟨id, p, hheld, hname, hpass⟩ := (h.buffer n).holds (by rw [pc]; rfl)
  rw [pc] at hpass
  obtain ⟨-, htag, hlen⟩ := hpass
  have hidle : (Pc.after (T.outputs n) (senderSent errCounter sent).2).idle = true := by
    unfold senderSent
    split
    · rfl
    · split <;> rfl
  have htarget : ∀ target : Place ν κ, target = (if sent then Place.sent n else Place.failed n) →
      (∀ m, target ≠ .buffer m) ∧ (∀ k, target ≠ .queue k) ∧ ∀ m, target ≠ .discarded m := by
    intro target he
    subst he
    cases sent <;> exact ⟨by simp, by simp, by simp⟩
  obtain ⟨hbuf, hque, hdis⟩ := htarget _ rfl
  have hhead : (L.tokens.held (.buffer n)).head?.toList.map (fun id => (id, buffer.bytes len)) =
      [(id, buffer.bytes len)] := by rw [hheld]; rfl
  simp only [Ledger.record, hhead]
  refine h.move hheld hname (role_finish ?_) (fun k => ?_) (fun m => ?_) (by simp)
    (fun m he => absurd he (hdis m)) fun x hx => ?_
  · rw [process]
    rfl
  · exact .inl ⟨by simp, (hque k).symm, rfl⟩
  · by_cases hm : m = n
    · subst hm
      rw [pc_finish_self]
      exact .inr (.inl ⟨hidle, Tokens.held_move_source hheld (hbuf m).symm⟩)
    · rw [node_finish_of_ne hm]
      exact .inl ⟨fun he => hm (Place.buffer.inj he), (hbuf m).symm, rfl⟩
  · rcases List.mem_append.mp hx with hx | hx
    · exact .inl hx
    · rw [List.mem_singleton] at hx
      subst hx
      exact .inr ⟨rfl, htag, by rwa [Memory.length_bytes]⟩

/-- Every step of every thread and of `pipeline_stop` keeps the account right. -/
theorem step (hlane : ∀ n, Lane T ctx stage n (role n)) (h : Agrees T ctx stage role s L)
    {e : Event ν κ} (hs : Step host T s e s') : Agrees T ctx stage role s' (L.record e) := by
  cases hs with
  | enter pc => exact h.same rfl role_setPc (pc_setPc (by rw [pc]; rfl) rfl)
  | exit pc => exact h.same rfl role_setPc (pc_setPc (by rw [pc]; rfl) rfl)
  | recv pc sniffer len => exact h.recv hlane pc sniffer len
  | @recvFailed n pc sniffer =>
    refine h.same rfl (role_finish (role_body ..)) (pc_finish (by rw [pc]; rfl) ?_)
    unfold State.body
    cases hp : (s.node n).process with
    | sniffer errCounter =>
      simp only [Process.body, snifferBody]
      split <;> [split <;> rfl; contradiction]
    | _ =>
      rw [hp] at sniffer
      cases sniffer
  | take rand pc input call => exact h.take hlane rand pc input call
  | wait pc =>
    refine h.same rfl role_setPc (pc_setPc ?_ rfl)
    rcases pc.1 with hpc | hpc <;> rw [hpc] <;> rfl
  | spuriousWakeup pc => exact h.same rfl role_setPc (pc_setPc (by rw [pc]; rfl) rfl)
  | @push n k ks buffer size ret q pc call =>
    obtain ⟨id, p, hheld, hname, -, k', hone, -, hc⟩ := pc ▸ (h.buffer n).holds (by rw [pc]; rfl)
    cases hone
    exact h.push hheld hname hc call rfl rfl
  | @dispatch n k buffer size ret q c pc process call =>
    obtain ⟨id, p, hheld, hname, -, -, hc⟩ := pc ▸ (h.buffer n).holds (by rw [pc]; rfl)
    apply h.push hheld hname hc call rfl
    rw [process]
    exact role_dispatcherPushed ..
  | sendto sent pc process => exact h.sendto sent pc process
  | stopFlag => exact h.same rfl (fun _ => rfl) fun _ => .inl rfl
  | stopSignal => exact (h.signal _).same rfl (fun _ => rfl) fun _ => .inl rfl
  | stopJoin => exact h.same rfl (fun _ => rfl) fun _ => .inl rfl
  | joined => exact h.same rfl (fun _ => rfl) fun _ => .inl rfl

end Agrees

/-! ## Runs -/

variable {host : ByteOrder} {process : ν → Process} {tr : List (Event ν κ)}

theorem agrees_run (hlane : ∀ n, Lane T ctx stage n (process n).role)
    (h : (runtime host T process).Run tr s) :
    Agrees T ctx stage (fun n => (process n).role) s (ledger tr) := by
  refine h.invariant (I := fun tr s => Agrees T ctx stage (fun n => (process n).role) s (ledger tr))
    (fun s hs => agrees_initial hs) ?_
  intro tr s e s' _ hi hs
  rw [ledger_snoc]
  exact hi.step hlane hs

/-- The account has the bytes of every call of `sendto`. -/
theorem handed_run (hlane : ∀ n, Lane T ctx stage n (process n).role)
    (h : (runtime host T process).Run tr s) :
    (ledger tr).handed.map Prod.snd = handedFrames tr := by
  refine h.invariant (I := fun tr _ => (ledger tr).handed.map Prod.snd = handedFrames tr)
    (fun _ _ => rfl) ?_
  intro tr s e s' hrun hi hs
  rw [ledger_snoc, handedFrames, List.filterMap_append, ← handedFrames, ← hi]
  cases hs with
  | @sendto n buffer len errCounter sent pc process =>
    obtain ⟨id, p, hheld, -⟩ := ((agrees_run hlane hrun).buffer n).holds (by rw [pc]; rfl)
    simp only [Ledger.record, hheld, List.map_append]
    rfl
  | _ => exact (List.append_nil _).symm

/-- There are no more calls of `sendto` than captured frames. -/
theorem handed_le_captured (hlane : ∀ n, Lane T ctx stage n (process n).role)
    (h : (runtime host T process).Run tr s) :
    (handedFrames tr).length ≤ (capturedFrames tr).length := by
  have hsub : (ledger tr).handed.map Prod.fst ⊆ List.range (capturedFrames tr).length := by
    intro id hid
    obtain ⟨x, hx, rfl⟩ := List.mem_map.mp hid
    obtain ⟨p, hname, -⟩ := (agrees_run hlane h).handed x hx
    exact List.mem_range.mpr (List.getElem?_eq_some_iff.mp (names_iff.mp hname)).1
  have hle := (List.subperm_of_subset (ledger_handedOnce tr).nodup hsub).length_le
  rwa [List.length_map, List.length_range, ← List.length_map (f := Prod.snd),
    handed_run hlane h] at hle

/-- A `push` goes to an output of the node that makes it. -/
theorem push_outputs (hlane : ∀ n, Lane T ctx stage n (process n).role)
    (h : (runtime host T process).Run tr s) {n : ν} {k : κ} {stored : Bool}
    (hs : Step host T s (.push n k stored) s') :
    k ∈ T.outputs n := by
  cases hs with
  | push pc call =>
    obtain ⟨id, p, -, -, -, k', hone, hk, -⟩ :=
      pc ▸ ((agrees_run hlane h).buffer n).holds (by rw [pc]; rfl)
    cases hone
    exact hk
  | dispatch pc process call =>
    obtain ⟨id, p, -, -, -, hk, -⟩ := pc ▸ ((agrees_run hlane h).buffer n).holds (by rw [pc]; rfl)
    exact hk

/-- A `push` refuses a frame only when its queue is full, if the captured frames leave room
for a tag. -/
theorem refused_full (hlane : ∀ n, Lane T ctx stage n (process n).role)
    (h : (runtime host T process).Run tr s)
    (hsize : ∀ p ∈ capturedFrames tr, 1 ≤ p.length ∧ p.length ≤ 1518) {n : ν} {k : κ} {stored : Bool}
    (hs : Step host T s (.push n k stored) s') (hrefused : stored = false) :
    ∃ items, Represents (s.queue k) items ∧ items.length = qSize := by
  have hagrees := agrees_run hlane h
  obtain ⟨items, hrep, -⟩ := hagrees.queue k
  have hfull : ∀ {id : Nat} {p : List UInt8} {buffer : Memory UInt8} {size : UInt16} {ret : Int}
      {q : QueueT}, (ledger tr).Names id p → (stage k).Carries ctx p (buffer.bytes size.toNat) →
      Queue.push (s.queue k) buffer size = (ret, q) → decide (0 < ret) = false →
      items.length = qSize := by
    intro id p buffer size ret q hname hc call hret
    obtain ⟨hmin, hmax⟩ := hsize p (List.mem_of_getElem? (names_iff.mp hname))
    have hlow := hc.length_pos hmin
    have hhigh := hc.length_le
    rw [Memory.length_bytes] at hlow hhigh
    refine hrep.full_of_refused call ?_ ?_ (of_decide_eq_false hret)
    · intro hz
      rw [hz] at hlow
      cases hlow
    · show size.toNat ≤ 1522
      omega
  cases hs with
  | push pc call =>
    obtain ⟨id, p, -, hname, -, k', hone, -, hc⟩ := pc ▸ (hagrees.buffer n).holds (by rw [pc]; rfl)
    cases hone
    exact ⟨items, hrep, hfull hname hc call hrefused⟩
  | dispatch pc process call =>
    obtain ⟨id, p, -, hname, -, -, hc⟩ := pc ▸ (hagrees.buffer n).holds (by rw [pc]; rfl)
    exact ⟨items, hrep, hfull hname hc call hrefused⟩

/-- A frame that was accepted by the queue of a sender stays with that sender. -/
theorem stays_run (hlane : ∀ n, Lane T ctx stage n (process n).role)
    (h : (runtime host T process).Run tr s) {n : ν} {k : κ} (hsender : (process n).role = .sender)
    (hin : T.input n = some k) : (ledger tr).tokens.Stays (AtSender n k) := by
  refine h.invariant (I := fun tr _ => (ledger tr).tokens.Stays (AtSender n k))
    (fun _ _ => Tokens.stays_empty _) ?_
  intro tr s e s' hrun hi hs
  have hexcl := ledger_exclusive tr
  rw [ledger_snoc]
  -- a sender has no outputs, so it never pushes
  have hpush : ∀ {m : ν} {k' : κ} {stored : Bool} {q : Place ν κ},
      Step host T s (.push m k' stored) s' →
      ((ledger tr).tokens.move (.buffer m) q).Stays (AtSender n k) := by
    intro m k' stored q hs
    apply hi.move hexcl
    intro hat
    have hk := push_outputs hlane hrun hs
    have hl := hlane n
    rw [hsender] at hl
    rw [eq_of_atSender_buffer hat, hl.2] at hk
    cases hk
  cases hs with
  | recv => exact hi.issue _ _
  | @take m k' ret buffer q rand pc input call =>
    apply hi.move hexcl
    intro hat
    rw [eq_of_atSender_queue hat] at input
    have hm : m = n := T.input_injective input hin
    subst hm
    split
    · exact .inr (.inl rfl)
    · exact .inr (.inr (.inl rfl))
  | push pc call => exact hpush (.push pc call)
  | dispatch pc process call => exact hpush (.dispatch pc process call)
  | @sendto m buffer len errCounter sent pc process =>
    apply hi.move hexcl
    intro hat
    have hm : m = n := eq_of_atSender_buffer hat
    subst hm
    split
    · exact .inr (.inr (.inr (.inr rfl)))
    · exact .inr (.inr (.inr (.inl rfl)))
  | _ => exact hi

/-- A tagged frame that the queue of a sender has accepted and that the sender is done with
was handed to `sendto` exactly if it passes the size test, and then once and unchanged. -/
theorem sends_iff (hlane : ∀ n, Lane T ctx stage n (process n).role)
    (h : (runtime host T process).Run tr s) {n : ν} {k : κ} (hsender : (process n).role = .sender)
    (hin : T.input n = some k) {id : Nat} {p f : List UInt8} (hname : (ledger tr).Names id p)
    (htag : tagFrame ctx p = some f) (haccepted : (id, .queue k) ∈ (ledger tr).tokens.arrivals)
    (hqueue : id ∉ (ledger tr).tokens.held (.queue k))
    (hbuffer : id ∉ (ledger tr).tokens.held (.buffer n)) :
    (ledger tr).sends id = [f] ↔ f.length < vlanEthFrameLen := by
  have hagrees := agrees_run hlane h
  have honce := ledger_handedOnce tr
  have hsame : ∀ {p' f' : List UInt8}, (ledger tr).Names id p' → tagFrame ctx p' = some f' →
      f' = f := by
    intro p' f' hname' htag'
    have hp' : p' = p := Option.some.inj (hname'.symm.trans hname)
    rw [hp', htag] at htag'
    exact (Option.some.inj htag').symm
  constructor
  · intro hsends
    have hmem : (id, f) ∈ (ledger tr).handed := by
      apply Ledger.mem_of_sends
      rw [hsends]
      exact List.mem_singleton_self f
    obtain ⟨p', hname', htag', hshort⟩ := hagrees.handed _ hmem
    exact hshort
  · intro hshort
    -- the frame is somewhere at the sender: not in the queue, not in the buffer, not discarded
    obtain ⟨q, hq, hid⟩ := stays_run hlane h hsender hin id _ haccepted (.inl rfl)
    have hhanded : id ∈ (ledger tr).handed.map Prod.fst := by
      rw [honce.mem_iff]
      rcases hq with rfl | rfl | rfl | rfl | rfl
      · exact absurd hid hqueue
      · exact absurd hid hbuffer
      · obtain ⟨p', hname', hd⟩ := hagrees.discarded n id hid
        rw [hsender] at hd
        obtain ⟨f', htag', hlong⟩ := hd
        rw [hsame hname' htag'] at hlong
        exact absurd hshort (Nat.not_lt.mpr hlong)
      · exact ⟨_, rfl, hid⟩
      · exact ⟨_, rfl, hid⟩
    obtain ⟨⟨i, f'⟩, hmem, rfl⟩ := List.mem_map.mp hhanded
    obtain ⟨p', hname', htag', -⟩ := hagrees.handed _ hmem
    have hf : f' = f := hsame hname' htag'
    rw [honce.sends_of_mem hmem, hf]

end

end VlanTagger.Pipeline
