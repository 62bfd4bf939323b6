import VlanTagger.Pipeline.Conservation

/-!
# The counters of the dispatcher and of the packet counter

`packets_sent` and `total_packets` count events of the run: the pushes of the dispatcher
that were stored and the frames that the packet counter took. Both are 64-bit words.
-/
namespace VlanTagger.Pipeline

open Lib Nodes Queue

/-- `packets_sent` of a dispatcher and `total_packets` of a packet counter. -/
def Process.counter : Process → UInt64
  | .dispatcher ctx => ctx.packetsSent
  | .packetCounter ctx => ctx.totalPackets
  | _ => 0

section

variable {ν κ : Type*}

theorem process_pushed [DecidableEq κ] {T : Topology ν κ} {s : State ν κ} {k : κ}
    {ret : Int} {q : QueueT} (n : ν) :
    ((s.pushed T k ret q).node n).process = (s.node n).process := by
  unfold State.pushed
  split
  · simp only [State.signal]
    split <;> rfl
  · rfl

theorem counter_started {s : State ν κ} {process : ν → Process} (n : ν) (hzero : (process n).counter = 0)
    (h : Initial process s) : (s.node n).process.counter = 0 := by
  obtain ⟨-, -, -, hnode⟩ := h
  obtain ⟨-, uninitialised, hp⟩ := hnode n
  rw [hp, ← hzero]
  cases process n <;> rfl

variable [DecidableEq ν]

/-- What the counter of node `n` counts. -/
def Event.counts (n : ν) : Role → Event ν κ → Bool
  | .dispatcher _, .push m _ stored => decide (m = n) && stored
  | .packetCounter, .take m _ _ => decide (m = n)
  | _, _ => false

/-- The counter is started at 0 and has counted `events`. -/
def Counted (n : ν) (role : Role) (tr : List (Event ν κ)) (counter : UInt64) : Prop :=
  counter = UInt64.ofNat (tr.countP (Event.counts n role))

theorem counted_snoc {n : ν} {role : Role} {tr : List (Event ν κ)} {counter counter' : UInt64}
    {e : Event ν κ} (h : Counted n role tr counter)
    (hstep : counter' = if Event.counts n role e then counter + 1 else counter) :
    Counted n role (tr ++ [e]) counter' := by
  unfold Counted at h ⊢
  rw [hstep, List.countP_append, List.countP_singleton, h]
  split
  · rw [UInt64.ofNat_add]
    rfl
  · rfl

theorem counts_of_ne {n m : ν} (h : m ≠ n) (role : Role) :
    (∀ (k : κ) (stored : Bool), Event.counts n role (.push m k stored) = false) ∧
      ∀ (k : κ) (effect : Effect), Event.counts n role (.take m k effect) = false := by
  constructor
  · intro k stored
    cases role with
    | dispatcher strategy => simp only [Event.counts, h, decide_false, Bool.false_and]
    | _ => rfl
  · intro k effect
    cases role with
    | packetCounter => simp only [Event.counts, h, decide_false]
    | _ => rfl

/-- Events that no counter counts. -/
theorem counts_other {n : ν} {e : Event ν κ} (hpush : ∀ m k stored, e ≠ .push m k stored)
    (htake : ∀ m k effect, e ≠ .take m k effect) (role : Role) : Event.counts n role e = false := by
  cases e with
  | push m k stored => exact absurd rfl (hpush m k stored)
  | take m k effect => exact absurd rfl (htake m k effect)
  | _ => cases role <;> rfl

/-- A step that is not counted leaves the counter alone. -/
theorem counter_kept {n : ν} {role : Role} {e : Event ν κ} {counter counter' : UInt64}
    (hno : Event.counts n role e = false) (h : counter' = counter) :
    counter' = if Event.counts n role e then counter + 1 else counter := by
  rw [hno, if_neg Bool.false_ne_true]
  exact h

variable {T : Topology ν κ} {ctx : TaggerContext} {stage : κ → Stage} {role : ν → Role}
  {s s' : State ν κ} {L : Ledger ν κ} {host : ByteOrder}

theorem process_setPc {m : ν} {pc : Pc κ} (n : ν) :
    ((s.setPc m pc).node n).process = (s.node n).process := by
  unfold State.setPc
  by_cases hn : n = m
  · subst hn
    rw [node_setNode_self]
  · rw [node_setNode_of_ne hn]

theorem process_finish_self {n : ν} {o : Outcome} : ((s.finish T n o).node n).process = o.process := by
  show (Function.update s.node n _ n).process = _
  rw [Function.update_self]

/-- The body of a node counts the frame it was given exactly if it is a packet counter. -/
theorem counter_body {pr : Process} {ret : Int} (hpos : 1 ≤ ret) (outputCount rand : Nat)
    (shouldExit : Bool) (buffer : Memory UInt8) {n : ν} (k : κ) (effect : Effect) :
    (pr.body host outputCount rand shouldExit buffer ret).process.counter =
      if Event.counts n pr.role (.take n k effect) then pr.counter + 1 else pr.counter := by
  have hone : ¬ ret < 1 := by omega
  cases pr with
  | dispatcher c =>
    show (Process.dispatcher (dispatcherBody c outputCount rand buffer ret).1).counter = c.packetsSent
    simp only [dispatcherBody, hone, if_false]
    cases c.strategy <;> rfl
  | packetCounter c =>
    have hcounts : Event.counts n .packetCounter (.take n k effect : Event ν κ) = true :=
      decide_eq_true rfl
    show (Process.packetCounter (packetCounterBody c buffer ret).1).counter = _
    simp only [Process.role, hcounts, if_true, packetCounterBody, hone, if_false]
    split <;> rfl
  | _ => rfl

/-- For a packet that is not empty, `push` returns its size or stores nothing. -/
theorem dispatcherPushed_counter {q q' : QueueT} {buffer : Memory UInt8} {size : UInt16} {ret : Int}
    (call : push q buffer size = (ret, q')) (hpos : 1 ≤ size.toNat) (c : DispatcherContext) :
    (dispatcherPushed c ret size.toNat).packetsSent =
      if 0 < ret then c.packetsSent + 1 else c.packetsSent := by
  unfold dispatcherPushed
  rcases push_cases call with ⟨rfl, -⟩ | ⟨hle, -⟩
  · have hlt : (0 : Int) < size.toNat := by omega
    rw [if_neg (not_not.mpr rfl), if_pos hlt]
  · have hne : ret ≠ size.toNat := by omega
    rw [if_pos hne, if_neg (not_lt.mpr hle)]

/-- The body of the sniffer leaves every counter alone. -/
theorem counter_sniffer {m : ν} (sniffer : (s.node m).process.isSniffer = true)
    {buffer : Memory UInt8} {ret : Int} (n : ν) :
    ((s.finish T m (s.body host T m 0 buffer ret)).node n).process.counter =
      (s.node n).process.counter := by
  by_cases hn : n = m
  · subst hn
    rw [process_finish_self]
    unfold State.body
    cases hp : (s.node n).process with
    | sniffer errCounter => rfl
    | _ =>
      rw [hp] at sniffer
      cases sniffer
  · rw [node_finish_of_ne hn]

variable [DecidableEq κ]

/-- One step, in a pipeline that has captured no empty frame. -/
theorem counter_step (h : Agrees T ctx stage role s L)
    (hpos : ∀ p ∈ L.tokens.issued, 1 ≤ p.length)
    {e : Event ν κ} (hs : Step host T s e s') (n : ν) :
    (s'.node n).process.counter =
      if Event.counts n (role n) e then (s.node n).process.counter + 1
      else (s.node n).process.counter := by
  have hother {e : Event ν κ} (hpush : ∀ m k stored, e ≠ .push m k stored)
      (htake : ∀ m k effect, e ≠ .take m k effect) :
      (s'.node n).process.counter = (s.node n).process.counter →
        (s'.node n).process.counter =
          if Event.counts n (role n) e then (s.node n).process.counter + 1
          else (s.node n).process.counter :=
    counter_kept (counts_other hpush htake (role n))
  cases hs with
  | @recv m frame pc sniffer len =>
    exact hother (by simp) (by simp) (counter_sniffer sniffer n)
  | @recvFailed m pc sniffer =>
    exact hother (by simp) (by simp) (counter_sniffer sniffer n)
  | @take m k ret buffer q rand pc input call =>
    by_cases hn : n = m
    · subst hn
      obtain ⟨id, ids, p, packet, -, -, -, rfl, -⟩ := (h.queue k).pop call
      have hret : (1 : Int) ≤ packet.bytes.length := by exact_mod_cast packet.length_pos
      rw [process_finish_self, ← h.roles n]
      exact counter_body hret _ _ _ _ k _
    · apply counter_kept ((counts_of_ne (Ne.symm hn) (role n)).2 k _)
      rw [node_finish_of_ne hn]
      rfl
  | @push m k ks buffer size ret q pc call =>
    have hno : Event.counts n (role n) (.push m k (decide (0 < ret)) : Event ν κ) = false := by
      by_cases hn : n = m
      · subst hn
        obtain ⟨id, p, -, -, hrole, -⟩ := pc ▸ (h.buffer n).holds (by rw [pc]; rfl)
        cases hr : role n with
        | dispatcher strategy => exact absurd hr (hrole strategy)
        | _ => rfl
      · exact (counts_of_ne (Ne.symm hn) (role n)).1 k _
    apply counter_kept hno
    rw [process_pushed, process_setPc]
  | @dispatch m k buffer size ret q c pc process call =>
    by_cases hn : n = m
    · subst hn
      obtain ⟨id, p, -, hname, -, -, hc⟩ := pc ▸ (h.buffer n).holds (by rw [pc]; rfl)
      have hsize : 1 ≤ size.toNat := by
        have hlen := hc.length_pos (hpos p (List.mem_of_getElem? hname))
        rwa [Memory.length_bytes] at hlen
      have hrole : role n = .dispatcher c.strategy := by rw [← h.roles n, process]; rfl
      have hcounts : Event.counts n (role n) (.push n k (decide (0 < ret)) : Event ν κ) =
          decide (0 < ret) := by
        rw [hrole]
        simp only [Event.counts, decide_true, Bool.true_and]
      rw [process_pushed, node_setNode_self, hcounts, process]
      show (dispatcherPushed c ret size.toNat).packetsSent = _
      rw [dispatcherPushed_counter call hsize]
      simp only [decide_eq_true_eq]
      rfl
    · apply counter_kept ((counts_of_ne (Ne.symm hn) (role n)).1 k _)
      rw [process_pushed, node_setNode_of_ne hn]
  | @sendto m buffer len errCounter sent pc process =>
    apply hother (by simp) (by simp)
    by_cases hn : n = m
    · subst hn
      rw [process_finish_self, process]
      rfl
    · rw [node_finish_of_ne hn]
  | @stopSignal k ks stop =>
    apply hother (by simp) (by simp)
    simp only [State.signal]
    split <;> rfl
  | enter => exact hother (by simp) (by simp) (congrArg Process.counter (process_setPc n))
  | exit => exact hother (by simp) (by simp) (congrArg Process.counter (process_setPc n))
  | wait => exact hother (by simp) (by simp) (congrArg Process.counter (process_setPc n))
  | spuriousWakeup => exact hother (by simp) (by simp) (congrArg Process.counter (process_setPc n))
  | _ => exact hother (by simp) (by simp) rfl

/-- Over a run the counters count exactly these events, as 64-bit words. -/
theorem counter_run {process : ν → Process} {tr : List (Event ν κ)}
    (hlane : ∀ n, Lane T ctx stage n (process n).role) (h : (runtime host T process).Run tr s)
    (hpos : ∀ n frame, Event.recv n frame ∈ tr → 1 ≤ frame.length) (n : ν)
    (hzero : (process n).counter = 0) :
    Counted n (process n).role tr (s.node n).process.counter := by
  refine h.invariant (I := fun tr s =>
    (∀ n frame, Event.recv n frame ∈ tr → 1 ≤ frame.length) →
      Counted n (process n).role tr (s.node n).process.counter) ?_ ?_ hpos
  · intro s hs _
    exact counter_started n hzero hs
  · intro tr s e s' hrun hi hs hpos
    have hpos' : ∀ n frame, Event.recv n frame ∈ tr → 1 ≤ frame.length :=
      fun n frame hm => hpos n frame (List.mem_append_left _ hm)
    refine counted_snoc (hi hpos') (counter_step (agrees_run hlane hrun) ?_ hs n)
    rw [ledger_captured]
    exact forall_captured hpos'

end

end VlanTagger.Pipeline
