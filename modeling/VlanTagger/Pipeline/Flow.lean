import VlanTagger.Lib.Flow
import VlanTagger.Pipeline.Conservation
import VlanTagger.Pipeline.Graph

/-!
# What flows through any pipeline

The account of a pipeline of any shape, in which `node_send_to_outputs` may copy a frame to
several queues. What a node takes, makes and pushes is recorded by the events of a run
alone; `Follows` relates the account to the state, and every step keeps it. From it come
the laws of a pipeline: a queue gives its consumer what it accepted, in order; a node makes
of a frame what its process says; a queue accepts a subsequence of what a producer made; and
a dispatcher passes every frame to one of its queues at most.
-/
namespace VlanTagger.Pipeline

open Lib Nodes Queue

/-- Where a node passes a frame to. -/
inductive Port (κ : Type*)
  | queue (k : κ)
  /-- `sendto` -/
  | wire
  deriving DecidableEq

namespace Pc

variable {κ : Type*}

/-- The ports to which the thread has still to pass its frame. -/
def ports : Pc κ → List (Port κ)
  | .send targets _ _ => targets.map .queue
  | .dispatch k _ _ => [.queue k]
  | .sendto _ _ => [.wire]
  | _ => []

/-- The frame in the hands of the thread. -/
def frame : Pc κ → Option (List UInt8)
  | .send _ buffer size => some (buffer.bytes size.toNat)
  | .dispatch _ buffer size => some (buffer.bytes size.toNat)
  | .sendto buffer len => some (buffer.bytes len)
  | _ => none

theorem ports_of_idle {pc : Pc κ} (h : pc.idle = true) : pc.ports = [] := by
  cases pc with
  | send targets buffer size => cases h
  | dispatch k buffer size => cases h
  | sendto buffer len => cases h
  | _ => rfl

theorem frame_of_idle {pc : Pc κ} (h : pc.idle = true) : pc.frame = none := by
  cases pc with
  | send targets buffer size => cases h
  | dispatch k buffer size => cases h
  | sendto buffer len => cases h
  | _ => rfl

theorem ports_sending (targets : List κ) (buffer : Memory UInt8) (size : UInt16) :
    (sending targets buffer size).ports = targets.map .queue := by
  cases targets <;> rfl

theorem frame_sending {targets : List κ} {buffer : Memory UInt8} {size : UInt16} {p : List UInt8}
    (h : (sending targets buffer size).frame = some p) : buffer.bytes size.toNat = p := by
  cases targets with
  | nil => cases h
  | cons k ks => exact Option.some.inj h

/-- A thread holds the frame that its body passes on. -/
theorem frame_after {outputs : List κ} {e : Effect} {p : List UInt8}
    (h : (after outputs e).frame = some p) : e.frame = some p := by
  cases e with
  | sendToOutputs buffer size => exact congrArg some (frame_sending h)
  | pushTo i buffer size =>
    rw [after] at h
    cases hi : outputs[i]? with
    | none =>
      rw [hi] at h
      cases h
    | some k =>
      rw [hi] at h
      exact h
  | sendto buffer len => exact h
  | _ => cases h

theorem isSome_of_ports_after {outputs : List κ} {e : Effect} (h : (after outputs e).ports ≠ []) :
    e.frame.isSome = true := by
  cases e with
  | sendToOutputs buffer size => rfl
  | pushTo i buffer size => rfl
  | sendto buffer len => rfl
  | _ => exact absurd rfl h

end Pc

/-! ## What a process makes of a frame -/

/-- The body of a node in this role, on the frame `p`, passes `out` on. -/
def Works (host : ByteOrder) (role : Role) (p : List UInt8) (out : Option (List UInt8)) : Prop :=
  match role with
  | .tagger ctx => out = tagFrame ctx p
  | .sender => out = if vlanEthFrameLen ≤ p.length then none else some p
  | .ipModifier ctx => ∃ buffer : Memory UInt8, buffer.bytes p.length = p ∧
      out = (ipModifierBody host ctx buffer p.length).2.frame
  | _ => out = some p

/-- A node passes frames on in the way of its role. -/
def Suits (role : Role) : Effect → Prop
  | .sendToOutputs _ _ => (∀ strategy, role ≠ .dispatcher strategy) ∧ role ≠ .sender
  | .pushTo _ _ _ => ∃ strategy, role = .dispatcher strategy
  | .sendto _ _ => role = .sender
  | _ => True

theorem suits_popFailed (role : Role) (ret : Int) : Suits role (popFailed ret) := by
  unfold popFailed
  split <;> trivial

theorem suits_body (host : ByteOrder) (outputCount rand : Nat) (shouldExit : Bool) (p : Process)
    (buffer : Memory UInt8) (ret : Int) :
    Suits p.role (p.body host outputCount rand shouldExit buffer ret).effect := by
  cases p with
  | sniffer errCounter =>
    simp only [Process.body, snifferBody]
    repeat' split
    all_goals first | trivial | exact ⟨by simp [Process.role], by simp [Process.role]⟩
  | tagger ctx out =>
    simp only [Process.body, taggerBody]
    repeat' split
    all_goals first | trivial | exact ⟨by simp [Process.role], by simp [Process.role]⟩
  | dispatcher ctx =>
    simp only [Process.body, dispatcherBody]
    repeat' split
    all_goals first | exact suits_popFailed _ ret | exact ⟨_, rfl⟩
  | packetCounter ctx =>
    simp only [Process.body, packetCounterBody]
    split
    · exact suits_popFailed _ ret
    · exact ⟨by simp [Process.role], by simp [Process.role]⟩
  | sender errCounter =>
    simp only [Process.body, senderBody]
    repeat' split
    all_goals trivial
  | collector =>
    simp only [Process.body, collectorBody]
    split
    · exact suits_popFailed _ ret
    · exact ⟨by simp [Process.role], by simp [Process.role]⟩
  | logger ctx =>
    simp only [Process.body, loggerBody]
    split
    · exact suits_popFailed _ ret
    · exact ⟨by simp [Process.role], by simp [Process.role]⟩
  | ipModifier ctx =>
    simp only [Process.body, ipModifierBody]
    repeat' split
    all_goals first | exact suits_popFailed _ ret | trivial | exact ⟨by simp [Process.role], by simp [Process.role]⟩

/-- The frame that a node took, and what its body passes on. -/
theorem works_body {pr : Process} (host : ByteOrder) (hns : pr.isSniffer = false) {p : List UInt8}
    (hpos : 1 ≤ p.length) (hle : p.length ≤ 1522) {buffer : Memory UInt8}
    (hb : buffer.bytes p.length = p) (outputCount rand : Nat) (shouldExit : Bool) :
    Works host pr.role p (pr.body host outputCount rand shouldExit buffer p.length).effect.frame := by
  have hone : ¬ ((p.length : Int) < 1) := by omega
  have hsize : (UInt16.ofInt (p.length : Int)).toNat = p.length := toNat_ofInt (by omega)
  cases pr with
  | sniffer errCounter => cases hns
  | tagger ctx out =>
    have hspec := taggerBody_spec host ctx hb hpos hle out
    simp only [Process.body]
    show _ = tagFrame ctx p
    cases hf : tagFrame ctx p with
    | none =>
      rw [hf] at hspec
      rw [hspec]
      rfl
    | some f =>
      rw [hf] at hspec
      obtain ⟨out', size, heff, hsize, hbytes⟩ := hspec
      rw [heff]
      show some (out'.bytes size.toNat) = some f
      rw [hsize, hbytes]
  | dispatcher ctx =>
    show _ = some p
    simp only [Process.body, dispatcherBody, hone, if_false]
    cases ctx.strategy with
    | roundRobin => exact congrArg some (by rw [hsize, hb])
    | random => exact congrArg some (by rw [hsize, hb])
  | packetCounter ctx =>
    show _ = some p
    simp only [Process.body, packetCounterBody, hone, if_false]
    exact frame_sendToOutputs hb (by omega)
  | sender errCounter =>
    have hneg : ¬ (p.length : Int) < 0 := by omega
    show _ = if vlanEthFrameLen ≤ p.length then none else some p
    simp only [Process.body, senderBody]
    by_cases hlong : vlanEthFrameLen ≤ p.length
    · have hint : (vlanEthFrameLen : Int) ≤ p.length := by exact_mod_cast hlong
      rw [if_pos hint, if_pos hlong]
      rfl
    · have hint : ¬ (vlanEthFrameLen : Int) ≤ p.length := by exact_mod_cast hlong
      rw [if_neg hint, if_neg hneg, if_neg hlong]
      show some (buffer.bytes (p.length : Int).toNat) = some p
      rw [Int.toNat_natCast, hb]
  | collector =>
    show _ = some p
    simp only [Process.body, collectorBody, hone, if_false]
    exact frame_sendToOutputs hb (by omega)
  | logger ctx =>
    show _ = some p
    simp only [Process.body, loggerBody, hone, if_false]
    exact frame_sendToOutputs hb (by omega)
  | ipModifier ctx => exact ⟨buffer, hb, rfl⟩

/-! ## The account -/

/-- What the nodes have taken and made, and what the queues and the wire have got. -/
abbrev Traffic (ν κ : Type*) := Flow ν (Port κ) (List UInt8)

section

variable {ν κ : Type*} [DecidableEq ν] [DecidableEq κ] (T : Topology ν κ)

def Traffic.record (f : Traffic ν κ) : Event ν κ → Traffic ν κ
  | .recv n frame => f.work n frame (some frame) ((T.outputs n).map .queue)
  | .take n k effect => f.take n (.queue k) effect.frame (Pc.after (T.outputs n) effect).ports
  | .push n _ stored => f.offer n stored
  | .sendto n _ _ => f.offer n true
  | _ => f

/-- The account of a run with these events. -/
def traffic (tr : List (Event ν κ)) : Traffic ν κ := tr.foldl (Traffic.record T) .empty

theorem traffic_snoc (tr : List (Event ν κ)) (e : Event ν κ) :
    traffic T (tr ++ [e]) = (traffic T tr).record T e := by
  rw [traffic, List.foldl_append]
  rfl

end

section

variable {ν κ : Type*} [DecidableEq ν]

/-- The frames that `recvfrom` returned to this node. -/
def receivedBy (n : ν) (tr : List (Event ν κ)) : List (List UInt8) :=
  tr.filterMap fun e => match e with
    | .recv m frame => if m = n then some frame else none
    | _ => none

/-- The frames of this node's calls of `sendto`. -/
def wiredBy (n : ν) (tr : List (Event ν κ)) : List (List UInt8) :=
  tr.filterMap fun e => match e with
    | .sendto m frame _ => if m = n then some frame else none
    | _ => none

theorem receivedBy_snoc (n : ν) (tr : List (Event ν κ)) (e : Event ν κ) : receivedBy n (tr ++ [e]) =
    receivedBy n tr ++ receivedBy n [e] := List.filterMap_append

theorem wiredBy_snoc (n : ν) (tr : List (Event ν κ)) (e : Event ν κ) : wiredBy n (tr ++ [e]) =
    wiredBy n tr ++ wiredBy n [e] := List.filterMap_append

end

/-! ## The relation to the state -/

section

variable {ν κ : Type*}

/-- The node may pass a frame to this port. -/
def Feeds (T : Topology ν κ) (role : ν → Role) (n : ν) : Port κ → Prop
  | .queue k => k ∈ T.outputs n
  | .wire => role n = .sender

/-- The node passes no frame to two ports of `P`: a dispatcher and a sender have one port
for a frame anyway, the other nodes copy a frame to all their outputs. -/
def Spread (T : Topology ν κ) (role : Role) (n : ν) (P : Port κ → Bool) : Prop :=
  (∃ strategy, role = .dispatcher strategy) ∨ role = .sender ∨
    ((T.outputs n).map Port.queue).countP P ≤ 1

theorem feeds_ports {T : Topology ν κ} {role : ν → Role} {n : ν} {e : Effect}
    (hsuits : Suits (role n) e) : ∀ p ∈ (Pc.after (T.outputs n) e).ports, Feeds T role n p := by
  intro p hp
  cases e with
  | sendToOutputs buffer size =>
    rw [Pc.after, Pc.ports_sending] at hp
    obtain ⟨k, hk, rfl⟩ := List.mem_map.mp hp
    exact hk
  | pushTo i buffer size =>
    rw [Pc.after] at hp
    cases hi : (T.outputs n)[i]? with
    | none =>
      rw [hi] at hp
      cases hp
    | some k =>
      rw [hi] at hp
      rw [List.mem_singleton.mp hp]
      exact List.mem_of_getElem? hi
  | sendto buffer len =>
    rw [List.mem_singleton.mp hp]
    exact hsuits
  | _ => cases hp

theorem countP_ports {T : Topology ν κ} {role : Role} {n : ν} {P : Port κ → Bool} {e : Effect}
    (hsuits : Suits role e) (h : Spread T role n P) :
    (Pc.after (T.outputs n) e).ports.countP P ≤ 1 := by
  have hone : ∀ p : Port κ, [p].countP P ≤ 1 := fun p => List.countP_le_length
  cases e with
  | sendToOutputs buffer size =>
    rw [Pc.after, Pc.ports_sending]
    rcases h with ⟨strategy, h⟩ | h | h
    · exact absurd h (hsuits.1 strategy)
    · exact absurd h hsuits.2
    · exact h
  | pushTo i buffer size =>
    rw [Pc.after]
    cases (T.outputs n)[i]? with
    | none => exact Nat.zero_le 1
    | some k => exact hone _
  | sendto buffer len => exact hone _
  | _ => exact Nat.zero_le 1

end

section

variable {ν κ : Type*} [DecidableEq ν] [DecidableEq κ]

/-- The account is that of the state. -/
structure Follows (host : ByteOrder) (T : Topology ν κ) (role : ν → Role) (s : State ν κ)
    (f : Traffic ν κ) : Prop where
  roles : ∀ n, (s.node n).process.role = role n
  queue : ∀ n k, T.input n = some k → role n ≠ .sniffer →
    ∃ items, Represents (s.queue k) items ∧ items.map Packet.bytes = f.waiting n (.queue k)
  inOrder : ∀ n k, T.input n = some k → role n ≠ .sniffer → f.InOrder n (.queue k)
  todo : ∀ n, f.todo n = (s.node n).pc.ports
  frame : ∀ n p, (s.node n).pc.frame = some p → (f.made n).getLast? = some p
  works : ∀ n, ∀ x ∈ f.worked n, Works host (role n) x.1 x.2
  once : ∀ n P, Spread T (role n) n P → f.Once n P
  feeds : ∀ n, ∀ p ∈ f.todo n, Feeds T role n p
  origin : ∀ x ∈ f.stored, Feeds T role x.1 x.2.1

namespace Follows

variable {host : ByteOrder} {T : Topology ν κ} {role : ν → Role} {s s' : State ν κ} {f : Traffic ν κ}

theorem initial {process : ν → Process} (h : Initial process s) :
    Follows host T (fun n => (process n).role) s .empty := by
  obtain ⟨-, -, hqueue, hnode⟩ := h
  refine ⟨fun n => ?_, fun n k _ _ => ?_, fun n k _ _ => .empty n _, fun n => ?_, fun n p hp => ?_,
    fun n x hx => ?_, fun n P _ => .empty n P, fun n p hp => ?_, fun x hx => ?_⟩
  · obtain ⟨-, uninitialised, hp⟩ := hnode n
    rw [hp, role_started]
  · obtain ⟨uninitialised, hq⟩ := hqueue k
    rw [hq]
    exact ⟨[], represents_init _, rfl⟩
  · rw [(hnode n).1]
    rfl
  · rw [(hnode n).1] at hp
    cases hp
  · cases hx
  · cases hp
  · cases hx

/-- Steps that move no frame: threads go from one idle place to another. -/
theorem same (h : Follows host T role s f) (hqueue : s'.queue = s.queue)
    (hrole : ∀ n, (s'.node n).process.role = (s.node n).process.role)
    (hpc : ∀ n, (s'.node n).pc = (s.node n).pc ∨
      ((s.node n).pc.idle = true ∧ (s'.node n).pc.idle = true)) : Follows host T role s' f := by
  refine ⟨fun n => (hrole n).trans (h.roles n), fun n k hin hns => ?_, h.inOrder, fun n => ?_,
    fun n p hp => ?_, h.works, h.once, h.feeds, h.origin⟩
  · rw [hqueue]
    exact h.queue n k hin hns
  · rcases hpc n with he | ⟨hidle, hidle'⟩
    · rw [he]
      exact h.todo n
    · rw [h.todo n, Pc.ports_of_idle hidle, Pc.ports_of_idle hidle']
  · rcases hpc n with he | ⟨hidle, hidle'⟩
    · rw [he] at hp
      exact h.frame n p hp
    · rw [Pc.frame_of_idle hidle'] at hp
      cases hp

theorem signal (h : Follows host T role s f) (k : κ) : Follows host T role (s.signal T k) f := by
  refine h.same rfl (fun n => role_signal n) fun n => ?_
  simp only [State.signal]
  split
  next hasleep =>
    right
    refine ⟨?_, rfl⟩
    cases hpc : (s.node n).pc with
    | asleep => rfl
    | _ =>
      have hno := hasleep.2
      rw [hpc] at hno
      cases hno
  next => exact .inl rfl

/-- A node has got a frame and is behind its loop body. -/
theorem worked (h : Follows host T role s f) {n : ν} {a : List UInt8} {e : Effect}
    (hrole : ∀ m, (s'.node m).process.role = (s.node m).process.role)
    (hself : (s'.node n).pc = Pc.after (T.outputs n) e)
    (hother : ∀ m, m ≠ n → (s'.node m).pc = (s.node m).pc)
    (hsuits : Suits (role n) e) (hworks : Works host (role n) a e.frame)
    (hqueue : ∀ m k, T.input m = some k → role m ≠ .sniffer →
      ∃ items, Represents (s'.queue k) items ∧ items.map Packet.bytes =
        (f.work n a e.frame (Pc.after (T.outputs n) e).ports).waiting m (.queue k))
    (horder : ∀ k, T.input n = some k → role n ≠ .sniffer →
      (f.work n a e.frame (Pc.after (T.outputs n) e).ports).InOrder n (.queue k)) :
    Follows host T role s' (f.work n a e.frame (Pc.after (T.outputs n) e).ports) := by
  refine ⟨fun m => (hrole m).trans (h.roles m), hqueue, fun m k hin hns => ?_, fun m => ?_,
    fun m p hp => ?_, fun m x hx => ?_, fun m P hP => ?_, fun m p hp => ?_, h.origin⟩
  · by_cases hm : m = n
    · subst hm
      exact horder k hin hns
    · exact (h.inOrder m k hin hns).work_of_ne hm
  · by_cases hm : m = n
    · subst hm
      rw [Flow.todo_work_self, hself]
    · rw [Flow.todo_work_of_ne hm, hother m hm]
      exact h.todo m
  · by_cases hm : m = n
    · subst hm
      rw [hself] at hp
      rw [Flow.made_work_self, Pc.frame_after hp]
      exact List.getLast?_concat
    · rw [hother m hm] at hp
      rw [Flow.made_work_of_ne hm]
      exact h.frame m p hp
  · by_cases hm : m = n
    · subst hm
      rw [Flow.worked_work_self] at hx
      rcases List.mem_append.mp hx with hx | hx
      · exact h.works m x hx
      · rw [List.mem_singleton.mp hx]
        exact hworks
    · rw [Flow.worked_work_of_ne hm] at hx
      exact h.works m x hx
  · by_cases hm : m = n
    · subst hm
      exact (h.once m P hP).work (countP_ports hsuits hP) Pc.isSome_of_ports_after
    · exact (h.once m P hP).work_of_ne hm
  · by_cases hm : m = n
    · subst hm
      rw [Flow.todo_work_self] at hp
      exact feeds_ports hsuits p hp
    · rw [Flow.todo_work_of_ne hm] at hp
      exact h.feeds m p hp

/-- A node has passed its frame to the next port. -/
theorem offered (h : Follows host T role s f) {n : ν} {port : Port κ} {ports : List (Port κ)}
    {p : List UInt8} {accept : Bool}
    (hrole : ∀ m, (s'.node m).process.role = (s.node m).process.role)
    (hports : (s.node n).pc.ports = port :: ports) (hframe : (s.node n).pc.frame = some p)
    (hports' : (s'.node n).pc.ports = ports)
    (hframe' : ∀ p', (s'.node n).pc.frame = some p' → p' = p)
    (hother : ∀ m, m ≠ n → (s'.node m).pc = (s.node m).pc)
    (hqueue : ∀ k, (accept = true ∧ port = .queue k ∧ ∀ items, Represents (s.queue k) items →
        ∃ packet : Packet, packet.bytes = p ∧ Represents (s'.queue k) (items ++ [packet])) ∨
      (¬ (accept = true ∧ port = .queue k) ∧ s'.queue k = s.queue k)) :
    Follows host T role s' (f.offer n accept) := by
  have htodo : f.todo n = port :: ports := (h.todo n).trans hports
  have hlast := h.frame n p hframe
  have hmade : f.made n ≠ [] := by
    intro hnil
    rw [hnil] at hlast
    cases hlast
  refine ⟨fun m => (hrole m).trans (h.roles m), fun m k hin hns => ?_,
    fun m k hin hns => (h.inOrder m k hin hns).offer n accept, fun m => ?_, fun m p' hp => ?_,
    fun m x hx => ?_, fun m P hP => ?_, fun m p' hp => ?_, fun x hx => ?_⟩
  · obtain ⟨items, hrep, hitems⟩ := h.queue m k hin hns
    rw [Flow.waiting_offer (h.inOrder m k hin hns) htodo, hlast]
    rcases hqueue k with ⟨haccept, hport, hstored⟩ | ⟨hnot, hkept⟩
    · obtain ⟨packet, hbytes, hrep'⟩ := hstored items hrep
      refine ⟨items ++ [packet], hrep', ?_⟩
      rw [List.map_append, hitems, haccept, hport]
      simp [hbytes]
    · have hcond : (accept && decide (port = .queue k)) = false := by
        by_contra hne
        rw [Bool.not_eq_false, Bool.and_eq_true, decide_eq_true_eq] at hne
        exact hnot hne
      rw [hkept, hcond]
      exact ⟨items, hrep, by simpa using hitems⟩
  · by_cases hm : m = n
    · subst hm
      rw [Flow.todo_offer_self htodo, hports']
    · rw [Flow.todo_offer_of_ne hm, hother m hm]
      exact h.todo m
  · rw [Flow.made_offer]
    by_cases hm : m = n
    · subst hm
      rw [hframe' p' hp]
      exact hlast
    · rw [hother m hm] at hp
      exact h.frame m p' hp
  · rw [Flow.worked_offer] at hx
    exact h.works m x hx
  · by_cases hm : m = n
    · subst hm
      exact (h.once m P hP).offer htodo hmade
    · exact (h.once m P hP).offer_of_ne hm
  · by_cases hm : m = n
    · subst hm
      rw [Flow.todo_offer_self htodo] at hp
      exact h.feeds m p' (by rw [htodo]; exact List.mem_cons_of_mem _ hp)
    · rw [Flow.todo_offer_of_ne hm] at hp
      exact h.feeds m p' hp
  · rw [Flow.stored_offer htodo, hlast] at hx
    split at hx
    · rcases List.mem_append.mp hx with hx | hx
      · exact h.origin x hx
      · rw [Option.toList_some, List.map_singleton, List.mem_singleton] at hx
        subst hx
        exact h.feeds n port (by rw [htodo]; exact List.mem_cons_self)
    · exact h.origin x hx

/-! ## One lemma for each step that concerns a frame -/

theorem role_ne_sniffer (h : Follows host T role s f) {n : ν}
    (hns : (s.node n).process.isSniffer = false) : role n ≠ .sniffer := by
  rw [← h.roles n]
  cases hp : (s.node n).process with
  | sniffer errCounter =>
    rw [hp] at hns
    cases hns
  | _ => simp [Process.role]

theorem role_eq_sniffer (h : Follows host T role s f) {n : ν}
    (hsniffer : (s.node n).process.isSniffer = true) : role n = .sniffer := by
  rw [← h.roles n]
  cases hp : (s.node n).process with
  | sniffer errCounter => rfl
  | _ =>
    rw [hp] at hsniffer
    cases hsniffer

/-- The sniffer makes of a frame that frame, and passes it to its outputs. -/
theorem recv (h : Follows host T role s f) {n : ν} {frame : List UInt8}
    (sniffer : (s.node n).process.isSniffer = true) (len : frame.length ≤ ethernetFrameLength) :
    Follows host T role (s.finish T n (s.body host T n 0
      ((s.node n).buffer.memcpy 0 (Memory.ofList frame 0) frame.length) frame.length))
      (Traffic.record T f (.recv n frame)) := by
  have hrole := h.role_eq_sniffer sniffer
  have hsuits := suits_body host (T.outputs n).length 0 s.shouldExit (s.node n).process
    ((s.node n).buffer.memcpy 0 (Memory.ofList frame 0) frame.length) frame.length
  rw [h.roles n] at hsuits
  have heffect : (s.body host T n 0
      ((s.node n).buffer.memcpy 0 (Memory.ofList frame 0) frame.length) frame.length).effect =
      .sendToOutputs ((s.node n).buffer.memcpy 0 (Memory.ofList frame 0) frame.length)
        (UInt16.ofInt frame.length) := by
    have hneg : ¬ (frame.length : Int) < 0 := by omega
    unfold State.body
    cases hp : (s.node n).process with
    | sniffer errCounter => simp only [Process.body, snifferBody, hneg, if_false]
    | _ =>
      rw [hp] at sniffer
      cases sniffer
  have hframe : (s.body host T n 0 ((s.node n).buffer.memcpy 0 (Memory.ofList frame 0) frame.length)
      frame.length).effect.frame = some frame := by
    have hlen : frame.length ≤ 1522 := len
    rw [heffect]
    refine frame_sendToOutputs ?_ (by omega)
    rw [Memory.bytes_memcpy_zero, Memory.bytes_ofList]
  have hrecord : Traffic.record T f (.recv n frame) = f.work n frame (s.body host T n 0
      ((s.node n).buffer.memcpy 0 (Memory.ofList frame 0) frame.length) frame.length).effect.frame
      (Pc.after (T.outputs n) (s.body host T n 0
        ((s.node n).buffer.memcpy 0 (Memory.ofList frame 0) frame.length)
          frame.length).effect).ports := by
    rw [hframe, heffect, Pc.after, Pc.ports_sending]
    rfl
  rw [hrecord]
  refine h.worked (role_finish (role_body ..)) pc_finish_self
    (fun m hm => congrArg NodeState.pc (node_finish_of_ne hm)) hsuits ?_ (fun m k hin hns => ?_)
    fun k _ hns => absurd hrole hns
  · rw [hframe, hrole]
    rfl
  · have hm : m ≠ n := fun he => hns (he ▸ hrole)
    rw [Flow.waiting_work_of_ne hm]
    exact h.queue m k hin hns

/-- A node takes the front frame of its queue and works on it. -/
theorem take (h : Follows host T role s f) {n : ν} {k : κ} {ret : Int} {buffer : Memory UInt8}
    {q : QueueT} (rand : Nat) (pc : InPop (s.node n)) (input : T.input n = some k)
    (call : pop (s.queue k) (s.node n).buffer = some (ret, buffer, q)) :
    Follows host T role ((s.setQueue k q).finish T n (s.body host T n rand buffer ret))
      (Traffic.record T f (.take n k (s.body host T n rand buffer ret).effect)) := by
  have hns := h.role_ne_sniffer pc.2
  obtain ⟨items, hrep, hitems⟩ := h.queue n k input hns
  cases items with
  | nil =>
    rw [hrep.pop_nil] at call
    cases call
  | cons packet items =>
    obtain ⟨b, q₁, hpop, ⟨-, hbytes, -⟩, hrep'⟩ := hrep.pop_cons (s.node n).buffer
    rw [hpop] at call
    cases call
    have hwait : f.waiting n (.queue k) = packet.bytes :: items.map Packet.bytes := hitems.symm
    have hsuits := suits_body host (T.outputs n).length rand s.shouldExit (s.node n).process
      buffer packet.bytes.length
    have hworks := works_body host pc.2 packet.length_pos packet.length_le hbytes
      (T.outputs n).length rand s.shouldExit
    rw [h.roles n] at hsuits hworks
    simp only [Traffic.record, Flow.take_of_cons hwait]
    refine h.worked (role_finish (role_body ..)) pc_finish_self
      (fun m hm => congrArg NodeState.pc (node_finish_of_ne hm)) hsuits hworks
      (fun m k' hin hns' => ?_) fun k' hin hns' => ?_
    · by_cases hm : m = n
      · subst hm
        have hk : k' = k := Option.some.inj (hin.symm.trans input)
        subst hk
        rw [Flow.waiting_work hwait]
        refine ⟨items, ?_, rfl⟩
        show Represents ((s.setQueue k' q).queue k') items
        rwa [queue_setQueue_self]
      · -- the queue of another node is another queue
        have hk : k' ≠ k := fun he => hm (T.input_injective hin (he ▸ input))
        rw [Flow.waiting_work_of_ne hm]
        show ∃ items, Represents ((s.setQueue k q).queue k') items ∧ _
        rw [queue_setQueue_of_ne hk]
        exact h.queue m k' hin hns'
    · have hk : k' = k := Option.some.inj (hin.symm.trans input)
      subst hk
      exact (h.inOrder n k' input hns).work hwait

/-- A `push` of the frame in the hands of a node to the next of its queues. -/
theorem push (h : Follows host T role s f) {n : ν} {k : κ} {ports : List (Port κ)}
    {buffer : Memory UInt8} {size : UInt16} {ret : Int} {q : QueueT} {st : NodeState κ}
    (hports : (s.node n).pc.ports = .queue k :: ports)
    (hframe : (s.node n).pc.frame = some (buffer.bytes size.toNat))
    (call : Queue.push (s.queue k) buffer size = (ret, q))
    (hrole : st.process.role = (s.node n).process.role) (hports' : st.pc.ports = ports)
    (hframe' : ∀ p, st.pc.frame = some p → p = buffer.bytes size.toNat) :
    Follows host T role ((s.setNode n st).pushed T k ret q)
      (Traffic.record T f (.push n k (decide (0 < ret)))) := by
  have hoffer : Follows host T role ((s.setNode n st).setQueue k q) (f.offer n (decide (0 < ret))) := by
    refine h.offered (role_setNode hrole) hports hframe ?_ ?_
      (fun m hm => congrArg NodeState.pc (node_setNode_of_ne hm)) fun k' => ?_
    · show ((s.setNode n st).node n).pc.ports = ports
      rwa [node_setNode_self]
    · intro p hp
      change ((s.setNode n st).node n).pc.frame = some p at hp
      rw [node_setNode_self] at hp
      exact hframe' p hp
    · by_cases hk : k' = k
      · subst hk
        rw [queue_setQueue_self]
        by_cases hret : 0 < ret
        · refine .inl ⟨decide_eq_true hret, rfl, fun items hrep => ?_⟩
          rcases hrep.push_stored call with ⟨-, hstored⟩ | ⟨hnot, -⟩
          · exact hstored
          · exact absurd hret hnot
        · refine .inr ⟨fun hboth => hret (of_decide_eq_true hboth.1), ?_⟩
          rcases push_cases call with ⟨hsize, hz⟩ | ⟨-, hq⟩
          · have hpos : 0 < size.toNat := Nat.pos_of_ne_zero fun h0 => hz (UInt16.toNat.inj h0)
            omega
          · exact hq
      · exact .inr ⟨fun hboth => hk (Port.queue.inj hboth.2).symm, queue_setQueue_of_ne hk⟩
  unfold State.pushed
  split
  · exact hoffer.signal k
  · exact hoffer

/-- The `sendto` of the frame in the hands of a sender. -/
theorem sendto (h : Follows host T role s f) {n : ν} {buffer : Memory UInt8}
    {len errCounter : Nat} (sent : Bool) (pc : (s.node n).pc = .sendto buffer len)
    (process : (s.node n).process = .sender errCounter) :
    Follows host T role (s.finish T n ⟨.sender (senderSent errCounter sent).1,
        (s.node n).buffer, (senderSent errCounter sent).2⟩)
      (Traffic.record T f (.sendto n (buffer.bytes len) sent)) := by
  have hidle : (Pc.after (T.outputs n) (senderSent errCounter sent).2).idle = true := by
    unfold senderSent
    split
    · rfl
    · split <;> rfl
  have hports : (s.node n).pc.ports = .wire :: [] := by rw [pc]; rfl
  have hframe : (s.node n).pc.frame = some (buffer.bytes len) := by rw [pc]; rfl
  refine h.offered (role_finish (by rw [process]; rfl)) hports hframe ?_ (fun p hp => ?_)
    (fun m hm => congrArg NodeState.pc (node_finish_of_ne hm)) fun k => .inr ⟨by simp, rfl⟩
  · rw [pc_finish_self]
    exact Pc.ports_of_idle hidle
  · rw [pc_finish_self, Pc.frame_of_idle hidle] at hp
    cases hp

/-- Every step of every thread and of `pipeline_stop` keeps the account right. -/
theorem step (h : Follows host T role s f) {e : Event ν κ} (hs : Step host T s e s') :
    Follows host T role s' (f.record T e) := by
  cases hs with
  | enter pc => exact h.same rfl role_setPc (pc_setPc (by rw [pc]; rfl) rfl)
  | exit pc => exact h.same rfl role_setPc (pc_setPc (by rw [pc]; rfl) rfl)
  | recv pc sniffer len => exact h.recv sniffer len
  | @recvFailed n pc sniffer =>
    refine h.same rfl (role_finish (role_body ..)) (pc_finish (by rw [pc]; rfl) ?_)
    unfold State.body
    cases hp : (s.node n).process with
    | sniffer errCounter =>
      simp only [Process.body, snifferBody]
      split <;> [split <;> rfl; contradiction]
    | _ =>
      rw [hp] at sniffer
      cases sniffer
  | take rand pc input call => exact h.take rand pc input call
  | wait pc =>
    refine h.same rfl role_setPc (pc_setPc ?_ rfl)
    rcases pc.1 with hpc | hpc <;> rw [hpc] <;> rfl
  | spuriousWakeup pc => exact h.same rfl role_setPc (pc_setPc (by rw [pc]; rfl) rfl)
  | @push n k ks buffer size ret q pc call =>
    have hports : (s.node n).pc.ports = .queue k :: ks.map .queue := by rw [pc]; rfl
    exact h.push hports (by rw [pc]; rfl) call rfl (Pc.ports_sending ks buffer size)
      fun p hp => (Pc.frame_sending hp).symm
  | @dispatch n k buffer size ret q c pc process call =>
    have hports : (s.node n).pc.ports = .queue k :: [] := by rw [pc]; rfl
    refine h.push hports (by rw [pc]; rfl) call ?_ rfl fun p hp => ?_
    · rw [process]
      exact role_dispatcherPushed ..
    · cases hp
  | sendto sent pc process => exact h.sendto sent pc process
  | stopFlag => exact h.same rfl (fun _ => rfl) fun _ => .inl rfl
  | stopSignal => exact (h.signal _).same rfl (fun _ => rfl) fun _ => .inl rfl
  | stopJoin => exact h.same rfl (fun _ => rfl) fun _ => .inl rfl
  | joined => exact h.same rfl (fun _ => rfl) fun _ => .inl rfl

/-! ## What follows for a graph -/

theorem made_filterMap (h : Follows host T role s f) {n : ν} {g : List UInt8 → Option (List UInt8)}
    (hg : ∀ p out, Works host (role n) p out → out = g p) : f.made n = (f.got n).filterMap g :=
  Flow.made_eq_filterMap fun x hx => hg x.1 x.2 (h.works n x hx)

/-- A node that passes every frame on as it is. -/
theorem made_same (h : Follows host T role s f) {n : ν}
    (hsame : ∀ p out, Works host (role n) p out → out = some p) : f.made n = f.got n :=
  (h.made_filterMap hsame).trans List.filterMap_some

theorem got_sublist (h : Follows host T role s f) {n : ν} {k : κ} (hin : T.input n = some k)
    (hns : role n ≠ .sniffer) : (f.got n).Sublist (f.accepted (.queue k)) :=
  (h.inOrder n k hin hns).sublist

/-- The queue of one producer. -/
theorem accepted_sublist (h : Follows host T role s f) {n : ν} {k : κ}
    (hone : ∀ m, k ∈ T.outputs m → m = n) (hspread : Spread T (role n) n fun p => p = .queue k) :
    (f.accepted (.queue k)).Sublist (f.made n) := by
  refine Flow.accepted_sublist (fun x hx hk => ?_) (h.once n _ hspread)
  have hfeeds := h.origin x hx
  rw [hk] at hfeeds
  exact hone x.1 hfeeds

/-- The queue of several producers. -/
theorem accepted_subperm (h : Follows host T role s f) {ns : List ν} {k : κ} (hns : ns.Nodup)
    (hall : ∀ m, k ∈ T.outputs m → m ∈ ns)
    (hspread : ∀ n ∈ ns, Spread T (role n) n fun p => p = .queue k) :
    (f.accepted (.queue k)).Subperm (ns.flatMap f.made) := by
  refine Flow.accepted_subperm hns (fun x hx hk => ?_) fun n hn => h.once n _ (hspread n hn)
  have hfeeds := h.origin x hx
  rw [hk] at hfeeds
  exact hall x.1 hfeeds

/-- The queues among which a dispatcher spreads its frames. -/
theorem spread_subperm (h : Follows host T role s f) {n : ν} {ks : List κ} (hks : ks.Nodup)
    (hone : ∀ m, ∀ k ∈ ks, k ∈ T.outputs m → m = n)
    (hdispatcher : ∃ strategy, role n = .dispatcher strategy) :
    ((ks.map Port.queue).flatMap f.accepted).Subperm (f.made n) := by
  refine Flow.spread_subperm (hks.map fun _ _ he => Port.queue.inj he) (fun x hx hmem => ?_)
    (h.once n _ (.inl hdispatcher))
  obtain ⟨k, hk, he⟩ := List.mem_map.mp hmem
  have hfeeds := h.origin x hx
  rw [← he] at hfeeds
  exact hone x.1 k hk hfeeds

end Follows

/-! ## Runs -/

variable {host : ByteOrder} {T : Topology ν κ} {process : ν → Process} {s : State ν κ}
  {tr : List (Event ν κ)}

theorem follows_run (h : (runtime host T process).Run tr s) :
    Follows host T (fun n => (process n).role) s (traffic T tr) := by
  refine h.invariant
    (I := fun tr s => Follows host T (fun n => (process n).role) s (traffic T tr))
    (fun s hs => Follows.initial hs) ?_
  intro tr s e s' _ hi hs
  rw [traffic_snoc]
  exact hi.step hs

/-- A sniffer takes in what it receives. -/
theorem got_sniffer (h : (runtime host T process).Run tr s) {n : ν}
    (hsniffer : (process n).role = .sniffer) : (traffic T tr).got n = receivedBy n tr := by
  refine h.invariant (I := fun tr _ => (traffic T tr).got n = receivedBy n tr) (fun _ _ => rfl) ?_
  intro tr s e s' hrun hi hs
  rw [traffic_snoc, receivedBy_snoc, ← hi]
  cases hs with
  | @recv m frame pc sniffer len =>
    by_cases hm : m = n
    · subst hm
      rw [Traffic.record, Flow.got_work_self]
      simp [receivedBy]
    · rw [Traffic.record, Flow.got_work_of_ne (Ne.symm hm)]
      simp [receivedBy, hm]
  | @take m k ret buffer q rand pc input call =>
    have hm : n ≠ m := by
      intro he
      subst he
      exact (follows_run hrun).role_ne_sniffer pc.2 hsniffer
    rw [Traffic.record, Flow.got_take_of_ne hm]
    exact (List.append_nil _).symm
  | push => exact Flow.got_offer.trans (List.append_nil _).symm
  | dispatch => exact Flow.got_offer.trans (List.append_nil _).symm
  | sendto => exact Flow.got_offer.trans (List.append_nil _).symm
  | _ => exact (List.append_nil _).symm

/-- The wire gets what is handed to `sendto`. -/
theorem sentTo_wire (h : (runtime host T process).Run tr s) (n : ν) :
    (traffic T tr).sentTo n (fun p => p = .wire) = wiredBy n tr := by
  refine h.invariant
    (I := fun tr _ => (traffic T tr).sentTo n (fun p => p = .wire) = wiredBy n tr)
    (fun _ _ => rfl) ?_
  intro tr s e s' hrun hi hs
  have hfollows := follows_run hrun
  -- a `push` offers to a queue
  have hpush : ∀ {m : ν} {k : κ} {ports : List (Port κ)} {stored : Bool},
      (s.node m).pc.ports = .queue k :: ports →
      ((traffic T tr).offer m stored).sentTo n (fun p => p = .wire) = wiredBy n tr := by
    intro m k ports stored hports
    rw [Flow.sentTo, Flow.select_offer ((hfollows.todo m).trans hports)]
    simpa [Flow.sentTo] using hi
  rw [traffic_snoc, wiredBy_snoc]
  cases hs with
  | recv => exact hi.trans (List.append_nil _).symm
  | take =>
    rw [Traffic.record, Flow.sentTo, Flow.select_take]
    exact hi.trans (List.append_nil _).symm
  | @push m k ks buffer size ret q pc call =>
    have hports : (s.node m).pc.ports = .queue k :: ks.map .queue := by rw [pc]; rfl
    exact (hpush hports).trans (List.append_nil _).symm
  | @dispatch m k buffer size ret q c pc process call =>
    have hports : (s.node m).pc.ports = .queue k :: [] := by rw [pc]; rfl
    exact (hpush hports).trans (List.append_nil _).symm
  | @sendto m buffer len errCounter sent pc process =>
    have hports : (s.node m).pc.ports = .wire :: [] := by rw [pc]; rfl
    have hlast := hfollows.frame m (buffer.bytes len) (by rw [pc]; rfl)
    rw [Traffic.record, Flow.sentTo, Flow.select_offer ((hfollows.todo m).trans hports), hlast, ← hi]
    by_cases hm : m = n
    · simp [wiredBy, hm, Flow.sentTo]
    · simp [wiredBy, hm, Flow.sentTo]
  | _ => exact hi.trans (List.append_nil _).symm

/-- The laws of any pipeline, in every run of it. A node that copies its frames has to list a
queue once: a second `pipeline_connect` of one pair of nodes doubles the frames. -/
theorem frames_flow (h : (runtime host T process).Run tr s) :
    (∀ n k, T.input n = some k → (process n).role ≠ .sniffer → ∃ items, Represents (s.queue k) items ∧
        (traffic T tr).accepted (.queue k) = (traffic T tr).got n ++ items.map Packet.bytes) ∧
      (∀ n, (process n).role = .sniffer → (traffic T tr).got n = receivedBy n tr) ∧
      (∀ n, ∀ x ∈ (traffic T tr).worked n, Works host (process n).role x.1 x.2) ∧
      (∀ n P, Spread T (process n).role n P →
        ((traffic T tr).sentTo n P).Sublist ((traffic T tr).made n)) ∧
      (∀ (ns : List ν) (k : κ), ns.Nodup → (∀ m, k ∈ T.outputs m → m ∈ ns) →
        (∀ n ∈ ns, Spread T (process n).role n fun p => p = .queue k) →
        ((traffic T tr).accepted (.queue k)).Subperm (ns.flatMap (traffic T tr).made)) ∧
      (∀ x ∈ (traffic T tr).stored, Feeds T (fun n => (process n).role) x.1 x.2.1) ∧
      ∀ n, (traffic T tr).sentTo n (fun p => p = .wire) = wiredBy n tr := by
  have hfollows := follows_run h
  refine ⟨fun n k hin hns => ?_, fun n hsniffer => got_sniffer h hsniffer, hfollows.works,
    fun n P hP => (hfollows.once n P hP).sentTo_sublist,
    fun ns k hns hall hspread => hfollows.accepted_subperm hns hall hspread, hfollows.origin,
    sentTo_wire h⟩
  obtain ⟨items, hrep, hitems⟩ := hfollows.queue n k hin hns
  refine ⟨items, hrep, ?_⟩
  rw [hitems]
  exact (hfollows.inOrder n k hin hns).accepted_eq

/-- In the network of the program, a frame is captured and waits for the dispatcher. -/
theorem frames_flow_one :
    ∃ tr s, (vlanTaggerRuntime .little oneRange).Run tr s ∧
      receivedBy .sniffer tr = [[1, 2, 3]] ∧
      (traffic vlanTagger tr).accepted (.queue .dispatcher) = [[1, 2, 3]] ∧
      ∃ items, Represents (s.queue .dispatcher) items ∧
        (traffic vlanTagger tr).accepted (.queue .dispatcher) =
          (traffic vlanTagger tr).got .dispatcher ++ items.map Packet.bytes := by
  have h0 := System.Run.start (vlanTaggerStart_initial .little oneRange)
  have h1 := h0.snoc (.enter (n := .sniffer) rfl rfl rfl)
  have h2 := h1.snoc (@Step.recv _ _ _ _ _ _ _ .sniffer [1, 2, 3] rfl rfl (by decide))
  have h3 := h2.snoc (@Step.push _ _ _ _ _ _ _ .sniffer .dispatcher _ _ _ _ _ rfl rfl)
  exact ⟨_, _, h3, rfl, rfl,
    (frames_flow h3).1 .dispatcher .dispatcher rfl (by simp [Station.process, Process.role])⟩

end

end VlanTagger.Pipeline
