import Mathlib.Algebra.Order.BigOperators.Group.List
import Mathlib.Algebra.Order.Group.Nat
import VlanTagger.Lib.Potential
import VlanTagger.Pipeline.Failures
import VlanTagger.Pipeline.Network
import VlanTagger.Pipeline.Worth

/-!
# A pipeline without a cycle drains

A packet in a queue is worth the steps that it can still cause: those of its consumer, and
those of the copies that the consumer pushes on. In a pipeline without a cycle these weights
exist, and every step of a thread or of `pipeline_stop` lowers what the state is worth; only
`recvfrom` and a spurious wake-up raise it. So a pipeline that gets no frames comes to rest,
and a pipeline at rest that has not been stopped has handed on everything: its threads sleep
on empty queues, or sit in `recvfrom`.
-/
namespace VlanTagger.Pipeline

open Lib Nodes Queue

/-! ## What a packet is worth -/

/-- The worth of a packet that is pushed to these queues: each push, the wake-up that its
signal can cause, and the packet in the queue. -/
def copies {κ : Type*} (W : κ → Nat) (ks : List κ) : Nat := (ks.map fun k => W k + 2).sum

/-- A packet is worth more than all that its consumer can do with it. -/
def Weighted {ν κ : Type*} (T : Topology ν κ) (W : κ → Nat) : Prop :=
  ∀ n k, T.input n = some k → copies W (T.outputs n) + 3 ≤ W k

/-- The steps that a thread can still take before it sleeps, with what it passes on. -/
def Pc.steps {κ : Type*} (W : κ → Nat) : Pc κ → Nat
  | .test => 2
  | .call => 1
  | .asleep => 0
  | .woken => 1
  | .send ks _ _ => copies W ks + 2
  | .dispatch k _ _ => W k + 4
  | .sendto _ _ => 3
  | .left => 0

theorem steps_sending {κ : Type*} (W : κ → Nat) (ks : List κ) (buffer : Memory UInt8)
    (size : UInt16) : (Pc.sending ks buffer size).steps W = copies W ks + 2 := by
  cases ks <;> rfl

theorem le_copies {κ : Type*} (W : κ → Nat) {ks : List κ} {k : κ} (h : k ∈ ks) :
    W k + 2 ≤ copies W ks :=
  List.single_le_sum (fun _ _ => Nat.zero_le _) _ (List.mem_map.mpr ⟨k, h, rfl⟩)

theorem steps_after {κ : Type*} (W : κ → Nat) (outputs : List κ) (e : Effect) :
    (Pc.after outputs e).steps W ≤ copies W outputs + 3 := by
  cases e with
  | sendToOutputs buffer size =>
    rw [Pc.after, steps_sending]
    omega
  | pushTo i buffer size =>
    rw [Pc.after]
    cases hi : outputs[i]? with
    | none =>
      show 2 ≤ _
      omega
    | some k =>
      have hk := le_copies W (List.mem_of_getElem? hi)
      show W k + 4 ≤ _
      omega
  | next =>
    show 2 ≤ _
    omega
  | leave => exact Nat.zero_le _
  | giveUp => exact Nat.zero_le _
  | sendto buffer len => exact Nat.le_add_left 3 _

/-- The weight of a queue behind which frames pass `rank` further queues, when no node has
more than `b` outputs. -/
def rankWeight (b : Nat) : Nat → Nat
  | 0 => 3
  | rank + 1 => b * (rankWeight b rank + 2) + 3

theorem rankWeight_mono (b : Nat) : Monotone (rankWeight b) := by
  refine monotone_nat_of_le_succ fun rank => ?_
  induction rank with
  | zero => exact Nat.le_add_left 3 _
  | succ rank ih => exact Nat.add_le_add_right (Nat.mul_le_mul_left b (Nat.add_le_add_right ih 2)) 3

/-- In a pipeline without a cycle the weights exist. -/
theorem weighted_of_rank {ν κ : Type*} {T : Topology ν κ} {b : Nat} {rank : κ → Nat}
    (hb : ∀ n, (T.outputs n).length ≤ b)
    (hrank : ∀ n k k', T.input n = some k → k' ∈ T.outputs n → rank k' < rank k) :
    Weighted T fun k => rankWeight b (rank k) := by
  intro n k hin
  show copies (fun k => rankWeight b (rank k)) (T.outputs n) + 3 ≤ rankWeight b (rank k)
  cases hk : rank k with
  | zero =>
    have hnil : T.outputs n = [] := by
      rw [List.eq_nil_iff_forall_not_mem]
      intro k' hk'
      have hlt := hrank n k k' hin hk'
      omega
    rw [hnil]
    exact Nat.le_refl 3
  | succ r =>
    have hle : copies (fun k => rankWeight b (rank k)) (T.outputs n) ≤
        (T.outputs n).length • (rankWeight b r + 2) := by
      unfold copies
      rw [← List.length_map (fun k => rankWeight b (rank k) + 2)]
      refine List.sum_le_card_nsmul _ _ fun x hx => ?_
      obtain ⟨k', hk', rfl⟩ := List.mem_map.mp hx
      have hlt := hrank n k k' hin hk'
      exact Nat.add_le_add_right (rankWeight_mono b (by omega)) 2
    have hmul : (T.outputs n).length • (rankWeight b r + 2) ≤ b * (rankWeight b r + 2) :=
      Nat.mul_le_mul_right _ (hb n)
    show _ ≤ b * (rankWeight b r + 2) + 3
    omega

/-! ## Every step is paid for -/

/-- A step of the pipeline itself: no frame from outside, no spurious wake-up and no call of
`pipeline_stop`. -/
def Event.isInner {ν κ : Type*} : Event ν κ → Bool
  | .recv _ _ => false
  | .recvFailed _ => false
  | .spuriousWakeup _ => false
  | .stopFlag => false
  | _ => true

/-- A pipeline that is left alone captures nothing. -/
theorem captured_of_inner {ν κ : Type*} (tr : List (Event ν κ)) {tr' : List (Event ν κ)}
    (hinner : ∀ e ∈ tr', e.isInner = true) : capturedFrames (tr ++ tr') = capturedFrames tr := by
  have hnone : tr'.filterMap Event.captured = [] := by
    rw [List.filterMap_eq_nil_iff]
    intro e he
    cases e with
    | recv n frame => cases hinner _ he
    | _ => rfl
  rw [capturedFrames, List.filterMap_append, hnone, List.append_nil]
  rfl

/-- A pipeline that is left alone with no more than three frames to send goes on. -/
theorem undisturbed_of_inner {ν κ : Type*} [DecidableEq ν] {tr tr' : List (Event ν κ)}
    (hstop : .stopFlag ∉ tr) (hrecv : ∀ n, .recvFailed n ∉ tr) (hinner : ∀ e ∈ tr', e.isInner = true)
    (hfew : (handedFrames (tr ++ tr')).length ≤ 3) : Undisturbed (tr ++ tr') := by
  refine ⟨fun hmem => ?_, fun n => (countP_failsAt_le n fun m hmem => ?_).trans hfew⟩
  · rcases List.mem_append.mp hmem with hmem | hmem
    · exact hstop hmem
    · cases hinner _ hmem
  · rcases List.mem_append.mp hmem with hmem | hmem
    · exact hrecv m hmem
    · cases hinner _ hmem

/-- What a step of the outside adds. -/
def earned {ν κ : Type*} (T : Topology ν κ) (W : κ → Nat) : Event ν κ → Nat
  | .recv n _ => copies W (T.outputs n) + 2
  | .recvFailed n => copies W (T.outputs n) + 2
  | .spuriousWakeup _ => 1
  | _ => 0

theorem earned_inner {ν κ : Type*} {T : Topology ν κ} {W : κ → Nat} {e : Event ν κ}
    (h : e.isInner = true) : earned T W e = 0 := by
  cases e with
  | recv n frame => cases h
  | recvFailed n => cases h
  | spuriousWakeup n => cases h
  | _ => rfl

/-- What a state is worth in steps, those of `pipeline_stop` included. -/
noncomputable def stepsLeft {ν κ : Type*} [Fintype ν] [Fintype κ] (W : κ → Nat) (T : Topology ν κ)
    (s : State ν κ) : Nat :=
  worth (fun _ => Pc.steps W) W s + s.stop.left T

section

variable {ν κ : Type*} {T : Topology ν κ} {W : κ → Nat} {e : Event ν κ}

/-- Where a step takes a thread, it pays for the step and for what it puts into a queue. -/
theorem steps_moves (hW : Weighted T W) {exit : Bool} {n : ν} {pc pc' : Pc κ}
    (h : Moves T exit e n pc pc') :
    pc'.steps W + e.adds W 1 + (if e.isInner then 1 else 0) ≤
      pc.steps W + e.removes W + earned T W e := by
  cases h with
  | enter run => exact Nat.le_refl 2
  | exit => exact Nat.le_succ 1
  | recv effect =>
    have hafter := steps_after W (T.outputs n) effect
    show _ + 0 + 0 ≤ 1 + 0 + (copies W (T.outputs n) + 2)
    omega
  | recvFailed effect =>
    have hafter := steps_after W (T.outputs n) effect
    show _ + 0 + 0 ≤ 1 + 0 + (copies W (T.outputs n) + 2)
    omega
  | @take _ k _ effect input pc_pop =>
    -- the packet that is taken pays for everything that is made of it
    have hafter := steps_after W (T.outputs n) effect
    have hweight := hW n k input
    have hpc : pc.steps W = 1 := by rcases pc_pop with rfl | rfl <;> rfl
    show _ + 0 + 1 ≤ _ + W k + 0
    omega
  | wait pc_pop =>
    have hpc : pc.steps W = 1 := by rcases pc_pop with rfl | rfl <;> rfl
    rw [hpc]
    exact Nat.le_refl 1
  | spuriousWakeup => exact Nat.le_refl 1
  | @push _ k ks buffer size stored =>
    have hsend : (Pc.send (k :: ks) buffer size).steps W = W k + 2 + copies W ks + 2 := rfl
    rw [steps_sending, hsend]
    show _ + (W k + 1) + 1 ≤ _ + 0 + 0
    omega
  | @dispatch _ k =>
    show 2 + (W k + 1) + 1 ≤ W k + 4 + 0 + 0
    omega
  | sendto next =>
    have hpc : pc'.steps W ≤ 2 := by
      rcases next with rfl | rfl
      · exact Nat.le_refl 2
      · exact Nat.zero_le 2
    show _ + 0 + 1 ≤ 3 + 0 + 0
    omega

/-- A step of `pipeline_stop` pays for the thread that its signal wakes. -/
theorem stopCost_pays (h : e.isStop = true) :
    e.adds W 1 + (if e.isInner then 1 else 0) ≤ e.stopCost := by
  cases e with
  | stopFlag => exact Nat.zero_le 1
  | stopSignal k => exact Nat.le_refl 2
  | stopJoin => exact Nat.le_refl 1
  | joined n => exact Nat.le_refl 1
  | _ => cases h

theorem stepsLeft_step [DecidableEq ν] [DecidableEq κ] [Fintype ν] [Fintype κ] {host : ByteOrder}
    {s s' : State ν κ} (hW : Weighted T W) (hrep : Represented s) (hs : Step host T s e s') :
    stepsLeft W T s' + (if e.isInner then 1 else 0) ≤ stepsLeft W T s + earned T W e := by
  have hleft := stop_step hs
  unfold stepsLeft
  rcases worth_step (φ := fun _ => Pc.steps W) (W := W) (w := 1) (fun _ => Nat.le_refl 1) hrep hs with
    ⟨n, pc, pc', hmoves, hworth⟩ | ⟨hstop, hworth⟩
  · have hpays := steps_moves hW hmoves
    omega
  · have hpays := stopCost_pays (W := W) hstop
    omega

end

/-! ## Where a thread can be -/

section

variable {ν κ : Type*}

/-- The thread of `n` can be where it is: it is in `pop` with an input queue, asleep on an
empty one, and passes frames on in the way of its role, to its outputs in their order. -/
def Placed (T : Topology ν κ) (s : State ν κ) (n : ν) : Prop :=
  match (s.node n).pc with
  | .call => (s.node n).process.role ≠ .sniffer → ∃ k, T.input n = some k
  | .asleep => (s.node n).process.role ≠ .sniffer ∧
      ∃ k, T.input n = some k ∧ isEmpty (s.queue k) = true
  | .woken => (s.node n).process.role ≠ .sniffer ∧ ∃ k, T.input n = some k
  | .send ks _ _ => ks ≠ [] ∧ ks <:+ T.outputs n
  | .dispatch _ _ _ => ∃ strategy, (s.node n).process.role = .dispatcher strategy
  | .sendto _ _ => (s.node n).process.role = .sender
  | .test => True
  | .left => s.shouldExit = true ∨ ready T n (s.node n).process = false

theorem isSniffer_iff (p : Process) : p.isSniffer = true ↔ p.role = .sniffer := by
  cases p <;> simp [Process.isSniffer, Process.role]

/-- Whether a node passes the checks of its loop depends on its role alone. -/
theorem ready_congr {T : Topology ν κ} {n : ν} {p p' : Process} (h : p.role = p'.role) :
    ready T n p = ready T n p' := by
  cases p <;> cases p' <;> first | rfl | cases h

theorem input_of_ready {T : Topology ν κ} {n : ν} {p : Process} (h : ready T n p = true)
    (hns : p.role ≠ .sniffer) : ∃ k, T.input n = some k := by
  cases p with
  | sniffer errCounter => exact absurd rfl hns
  | dispatcher ctx =>
    rw [ready, Bool.and_eq_true] at h
    exact Option.isSome_iff_exists.mp h.1
  | _ => exact Option.isSome_iff_exists.mp h

/-- Only a body that got no packet breaks out of its loop. -/
theorem body_ne_leave (host : ByteOrder) (outputCount rand : Nat) (shouldExit : Bool) (p : Process)
    (buffer : Memory UInt8) {ret : Int} (hret : 0 < ret ∨ p.isSniffer = true) :
    (p.body host outputCount rand shouldExit buffer ret).effect ≠ .leave := by
  cases p with
  | sniffer errCounter =>
    simp only [Process.body, snifferBody]
    repeat' split
    all_goals simp
  | tagger ctx out =>
    have hone : ¬ ret < 1 := by rcases hret with h | h; omega; cases h
    simp only [Process.body, taggerBody, hone, if_false]
    repeat' split
    all_goals simp
  | dispatcher ctx =>
    have hone : ¬ ret < 1 := by rcases hret with h | h; omega; cases h
    simp only [Process.body, dispatcherBody, hone, if_false]
    split <;> simp
  | packetCounter ctx =>
    have hone : ¬ ret < 1 := by rcases hret with h | h; omega; cases h
    simp only [Process.body, packetCounterBody, hone, if_false]
    simp
  | sender errCounter =>
    have hneg : ¬ ret < 0 := by rcases hret with h | h; omega; cases h
    simp only [Process.body, senderBody, hneg, if_false]
    split <;> simp
  | collector =>
    have hone : ¬ ret < 1 := by rcases hret with h | h; omega; cases h
    simp only [Process.body, collectorBody, hone, if_false]
    simp
  | logger ctx =>
    have hone : ¬ ret < 1 := by rcases hret with h | h; omega; cases h
    simp only [Process.body, loggerBody, hone, if_false]
    simp
  | ipModifier ctx =>
    have hone : ¬ ret < 1 := by rcases hret with h | h; omega; cases h
    simp only [Process.body, ipModifierBody, hone, if_false]
    split <;> simp

variable {T : Topology ν κ} {s s' : State ν κ} {n : ν}

/-- A thread that stays where it is, on a queue that stays empty if it sleeps on it. -/
theorem Placed.kept (h : Placed T s n) (hpc : (s'.node n).pc = (s.node n).pc)
    (hrole : (s'.node n).process.role = (s.node n).process.role)
    (hexit : s.shouldExit = true → s'.shouldExit = true)
    (hqueue : (s.node n).pc = .asleep → ∀ k, T.input n = some k → s'.queue k = s.queue k) :
    Placed T s' n := by
  unfold Placed at h ⊢
  rw [hpc, hrole, ready_congr hrole]
  cases hp : (s.node n).pc with
  | asleep =>
    rw [hp] at h
    obtain ⟨hns, k, hin, hempty⟩ := h
    exact ⟨hns, k, hin, by rwa [hqueue hp k hin]⟩
  | left =>
    rw [hp] at h
    exact h.imp_left hexit
  | _ =>
    rw [hp] at h
    exact h

/-- A thread behind its loop body. -/
theorem placed_after {e : Effect} (hpc : (s'.node n).pc = Pc.after (T.outputs n) e)
    (hsuits : Suits (s'.node n).process.role e) (hleave : e ≠ .leave)
    (hexit : Effect.stops e = true → s'.shouldExit = true) : Placed T s' n := by
  unfold Placed
  rw [hpc]
  cases e with
  | next => trivial
  | leave => exact absurd rfl hleave
  | giveUp => exact .inl (hexit rfl)
  | sendToOutputs buffer size =>
    rw [Pc.after]
    cases ho : T.outputs n with
    | nil => trivial
    | cons k ks => exact ⟨List.cons_ne_nil k ks, List.suffix_rfl⟩
  | pushTo i buffer size =>
    rw [Pc.after]
    cases (T.outputs n)[i]? with
    | none => trivial
    | some k => exact hsuits
  | sendto buffer len => exact hsuits

theorem Placed.finish [DecidableEq ν] {m : ν} {o : Outcome} (h : Placed T s n) (hsuits : Suits (s.node m).process.role o.effect)
    (hrole : o.process.role = (s.node m).process.role) (hleave : o.effect ≠ .leave) :
    Placed T (s.finish T m o) n := by
  by_cases hn : n = m
  · subst hn
    refine placed_after pc_finish_self ?_ hleave fun hstops => ?_
    · rwa [role_finish hrole]
    · show (s.shouldExit || Effect.stops o.effect) = true
      rw [hstops, Bool.or_true]
  · refine h.kept (congrArg NodeState.pc (node_finish_of_ne hn)) (role_finish hrole n)
      (fun hexit => ?_) fun _ _ _ => rfl
    show (s.shouldExit || Effect.stops o.effect) = true
    rw [hexit, Bool.true_or]

theorem Placed.setNode [DecidableEq ν] {m : ν} {st : NodeState κ} (h : Placed T s n)
    (hself : n = m → Placed T (s.setNode m st) m) : Placed T (s.setNode m st) n := by
  by_cases hn : n = m
  · rw [hn]
    exact hself hn
  · exact h.kept (congrArg NodeState.pc (node_setNode_of_ne hn))
      (by rw [node_setNode_of_ne hn]) id fun _ _ _ => rfl

variable [DecidableEq κ]

/-- A signal wakes whoever sleeps on the queue. -/
theorem Placed.signal (h : Placed T s n) {k : κ} {q : κ → QueueT}
    (hqueue : ∀ k', k' ≠ k → q k' = s.queue k') :
    Placed T ({ s with queue := q }.signal T k) n := by
  by_cases hwake : T.input n = some k ∧ (s.node n).pc.isAsleep = true
  · have hnode : ({ s with queue := q }.signal T k).node n = { s.node n with pc := .woken } :=
      if_pos hwake
    have hasleep : (s.node n).pc = .asleep := by
      cases hp : (s.node n).pc with
      | asleep => rfl
      | _ =>
        rw [hp] at hwake
        cases hwake.2
    unfold Placed at h ⊢
    rw [hasleep] at h
    rw [hnode]
    exact ⟨h.1, k, hwake.1⟩
  · have hnode : ({ s with queue := q }.signal T k).node n = s.node n := if_neg hwake
    refine h.kept (congrArg NodeState.pc hnode) (by rw [hnode]) id fun hasleep k' hin => ?_
    refine hqueue k' fun he => hwake ⟨he ▸ hin, ?_⟩
    rw [hasleep]
    rfl

theorem Placed.pushed (h : Placed T s n) {k : κ} {buffer : Memory UInt8} {size : UInt16} {ret : Int}
    {q : QueueT} (call : push (s.queue k) buffer size = (ret, q)) :
    Placed T (s.pushed T k ret q) n := by
  unfold State.pushed
  split
  · exact h.signal fun k' hk => Function.update_of_ne hk ..
  next hret =>
    rcases push_cases call with ⟨hsize, hz⟩ | ⟨-, rfl⟩
    · have hpos : 0 < size.toNat := Nat.pos_of_ne_zero fun h0 => hz (UInt16.toNat.inj h0)
      omega
    · refine h.kept rfl rfl id fun _ k' _ => ?_
      show Function.update s.queue k (s.queue k) k' = s.queue k'
      rw [Function.update_eq_self]

variable [DecidableEq ν] {host : ByteOrder} {process : ν → Process}

theorem placed_step (hrep : Represented s) (h : ∀ n, Placed T s n) {e : Event ν κ}
    (hs : Step host T s e s') (n : ν) : Placed T s' n := by
  cases hs with
  | @enter m pc run checks =>
    refine (h n).setNode fun _ => ?_
    unfold Placed
    rw [node_setNode_self]
    exact input_of_ready checks
  | @exit m pc stop =>
    refine (h n).setNode fun _ => ?_
    unfold Placed
    rw [node_setNode_self]
    exact stop
  | @recv m frame pc sniffer len =>
    exact (h n).finish (suits_body ..) (role_body ..) (body_ne_leave _ _ _ _ _ _ (.inr sniffer))
  | @recvFailed m pc sniffer =>
    exact (h n).finish (suits_body ..) (role_body ..) (body_ne_leave _ _ _ _ _ _ (.inr sniffer))
  | @take m k ret buffer q rand pc input call =>
    obtain ⟨packet, items, -, -, rfl⟩ := hrep.pop call
    have hset : ∀ m', m' ≠ m → Placed T (s.setQueue k q) m' := fun m' hm' =>
      (h m').kept rfl rfl id fun _ k' hin =>
        queue_setQueue_of_ne fun he => hm' (T.input_injective hin (he ▸ input))
    have hpos := packet.length_pos
    by_cases hn : n = m
    · subst hn
      refine placed_after pc_finish_self ?_
        (body_ne_leave host _ rand s.shouldExit (s.node n).process buffer (.inl (by omega)))
        fun hstops => ?_
      · have hrole : (s.body host T n rand buffer packet.bytes.length).process.role =
            ((s.setQueue k q).node n).process.role := role_body ..
        rw [role_finish hrole]
        exact suits_body ..
      · show (s.shouldExit || _) = true
        rw [hstops, Bool.or_true]
    · exact (hset n hn).finish (suits_body ..) (role_body ..)
        (body_ne_leave _ _ _ _ _ _ (.inl (by omega)))
  | @wait m k pc input call =>
    refine (h n).setNode fun _ => ?_
    unfold Placed
    rw [node_setNode_self]
    refine ⟨fun hsniffer => ?_, k, input, ?_⟩
    · have hno := pc.2
      rw [(isSniffer_iff _).mpr hsniffer] at hno
      cases hno
    · show isEmpty (s.queue k) = true
      by_contra hne
      rw [pop, if_neg hne] at call
      cases call
  | @spuriousWakeup m pc =>
    refine (h n).setNode fun _ => ?_
    have hm := h m
    unfold Placed at hm ⊢
    rw [pc] at hm
    rw [node_setNode_self]
    obtain ⟨hns, k, hin, -⟩ := hm
    exact ⟨hns, k, hin⟩
  | @push m k ks buffer size ret q pc call =>
    refine Placed.pushed ((h n).setNode fun _ => ?_) call
    have hm := h m
    unfold Placed at hm ⊢
    rw [pc] at hm
    rw [node_setNode_self]
    cases ks with
    | nil => trivial
    | cons k' ks => exact ⟨List.cons_ne_nil k' ks, (List.suffix_cons k _).trans hm.2⟩
  | @dispatch m k buffer size ret q ctx pc process call =>
    refine Placed.pushed ((h n).setNode fun _ => ?_) call
    unfold Placed
    rw [node_setNode_self]
    trivial
  | @sendto m buffer len errCounter sent pc process =>
    refine (h n).finish ?_ (by rw [process]; rfl) ?_
    · unfold senderSent
      split
      · trivial
      · split <;> trivial
    · unfold senderSent
      split
      · simp
      · split <;> simp
  | stopFlag => exact (h n).kept rfl rfl (fun _ => rfl) fun _ _ _ => rfl
  | stopSignal =>
    refine ((h n).signal (q := s.queue) fun _ _ => rfl).kept rfl rfl id fun _ _ _ => rfl
  | stopJoin => exact (h n).kept rfl rfl id fun _ _ _ => rfl
  | joined => exact (h n).kept rfl rfl (fun _ => rfl) fun _ _ _ => rfl

theorem placed_reachable (h : (runtime host T process).Reachable s) :
    Represented s ∧ ∀ n, Placed T s n := by
  refine System.Reachable.invariant (I := fun s => Represented s ∧ ∀ n, Placed T s n) ?_ ?_ h
  · intro s hs
    refine ⟨represented_initial hs, fun n => ?_⟩
    unfold Placed
    rw [(hs.2.2.2 n).1]
    trivial
  · intro s e s' hi hs
    exact ⟨represented_step hi.1 hs, placed_step hi.1 hi.2 hs⟩

/-! ## At rest -/

/-- The pipeline can only wait for frames, a spurious wake-up or a call of `pipeline_stop`. -/
def AtRest (host : ByteOrder) (T : Topology ν κ) (process : ν → Process) (s : State ν κ) : Prop :=
  (runtime host T process).Quiet Event.isInner s

theorem AtRest.not_inner (hrest : AtRest host T process s) {e : Event ν κ} (hs : Step host T s e s')
    (hinner : e.isInner = true) : False := by
  rw [hrest e s' hs] at hinner
  cases hinner

/-- At rest every thread sleeps on an empty queue, sits in `recvfrom` or has returned. -/
theorem placed_at_rest (h : ∀ n, Placed T s n) (hrest : AtRest host T process s) (n : ν) :
    ((s.node n).process.role ≠ .sniffer ∧ (s.node n).pc = .asleep ∧
        ∃ k, T.input n = some k ∧ isEmpty (s.queue k) = true) ∨
      ((s.node n).process.role = .sniffer ∧ (s.node n).pc = .call) ∨
      ((s.node n).pc = .left ∧ (s.shouldExit = true ∨ ready T n (s.node n).process = false)) := by
  have hplaced := h n
  unfold Placed at hplaced
  -- a thread in `pop` takes a packet or goes to sleep
  have hpop : ∀ {k : κ}, InPop (s.node n) → T.input n = some k → False := by
    intro k hin input
    cases call : pop (s.queue k) (s.node n).buffer with
    | none => exact hrest.not_inner (.wait hin input call) rfl
    | some r => exact hrest.not_inner (.take 0 hin input call) rfl
  have hnot : (s.node n).process.role ≠ .sniffer → (s.node n).process.isSniffer = false := by
    intro hns
    rw [← Bool.not_eq_true]
    exact fun hsniffer => hns ((isSniffer_iff _).mp hsniffer)
  cases hpc : (s.node n).pc with
  | test =>
    cases hexit : s.shouldExit with
    | true => exact (hrest.not_inner (.exit hpc (.inl hexit)) rfl).elim
    | false =>
      cases hready : ready T n (s.node n).process with
      | false => exact (hrest.not_inner (.exit hpc (.inr hready)) rfl).elim
      | true => exact (hrest.not_inner (.enter hpc hexit hready) rfl).elim
  | call =>
    by_cases hsniffer : (s.node n).process.role = .sniffer
    · exact .inr (.inl ⟨hsniffer, rfl⟩)
    · rw [hpc] at hplaced
      obtain ⟨k, hin⟩ := hplaced hsniffer
      exact (hpop ⟨.inl hpc, hnot hsniffer⟩ hin).elim
  | asleep =>
    rw [hpc] at hplaced
    exact .inl ⟨hplaced.1, rfl, hplaced.2⟩
  | woken =>
    rw [hpc] at hplaced
    obtain ⟨hns, k, hin⟩ := hplaced
    exact (hpop ⟨.inr hpc, hnot hns⟩ hin).elim
  | send ks buffer size =>
    rw [hpc] at hplaced
    cases ks with
    | nil => exact absurd rfl hplaced.1
    | cons k ks => exact (hrest.not_inner (.push hpc rfl) rfl).elim
  | dispatch k buffer size =>
    rw [hpc] at hplaced
    obtain ⟨strategy, hrole⟩ := hplaced
    cases hp : (s.node n).process with
    | dispatcher ctx => exact (hrest.not_inner (.dispatch hpc hp rfl) rfl).elim
    | _ =>
      rw [hp] at hrole
      cases hrole
  | sendto buffer len =>
    rw [hpc] at hplaced
    cases hp : (s.node n).process with
    | sender errCounter => exact (hrest.not_inner (.sendto true hpc hp) rfl).elim
    | _ =>
      rw [hp] at hplaced
      cases hplaced
  | left =>
    rw [hpc] at hplaced
    exact .inr (.inr ⟨rfl, hplaced⟩)

end

/-! ## The network of the program has no cycle -/

instance : Fintype Station := .ofList Station.all fun n => by cases n <;> decide

instance : Fintype Channel := .ofList Channel.all vlanTagger.mem_queues

/-- The number of queues that a frame passes behind this one. -/
def Channel.rank : Channel → Nat
  | dispatcher => 3
  | tagger1 => 2
  | tagger2 => 2
  | packetCounter => 1
  | sender => 0

theorem vlanTagger_outputs (n : Station) : (vlanTagger.outputs n).length ≤ 2 := by
  cases n <;> decide

theorem vlanTagger_rank (n : Station) (k k' : Channel) (hin : vlanTagger.input n = some k)
    (hout : k' ∈ vlanTagger.outputs n) : k'.rank < k.rank := by
  have hall : ∀ n k k', Station.input n = some k → k' ∈ Station.outputs n → k'.rank < k.rank := by
    intro n k k'
    cases n <;> cases k <;> cases k' <;> decide
  exact hall n k k' hin hout

theorem vlanTagger_ready (ctx : TaggerContext) (n : Station) :
    ready vlanTagger n (n.process ctx) = true := by
  cases n <;> rfl

/-! ## Runs -/

section

variable {ν κ : Type*} [DecidableEq ν] [DecidableEq κ] {host : ByteOrder} {T : Topology ν κ}
  {process : ν → Process} {s t : State ν κ} {tr : List (Event ν κ)}

theorem represented_keep (s : State ν κ) (e : Event ν κ) (s' : State ν κ) (h : Represented s)
    (hs : (runtime host T process).step s e s') : Represented s' := represented_step h hs

/-- At rest and not stopped: every thread sleeps or is in `recvfrom`, and has passed on what
it made; a queue has delivered what it accepted. -/
theorem drained_at_rest (hready : ∀ n, ready T n (process n) = true)
    (h : (runtime host T process).Run tr s) (hrest : AtRest host T process s)
    (hgo : s.shouldExit = false) (n : ν) :
    (traffic T tr).todo n = [] ∧ ((process n).role = .sniffer → (s.node n).pc = .call) ∧
      ((process n).role ≠ .sniffer → (s.node n).pc = .asleep ∧ ∃ k, T.input n = some k ∧
        Represents (s.queue k) [] ∧ (traffic T tr).accepted (.queue k) = (traffic T tr).got n) := by
  have hfollows := follows_run h
  have hrole := hfollows.roles n
  have hplaced := placed_at_rest (placed_reachable h.reachable).2 hrest n
  rw [hgo, ready_congr hrole, hready n, hrole] at hplaced
  rw [hfollows.todo n]
  rcases hplaced with ⟨hns, hpc, k, hin, hempty⟩ | ⟨hsniffer, hpc⟩ | ⟨-, hno | hno⟩
  · obtain ⟨items, hitems, hwaiting⟩ := hfollows.queue n k hin hns
    have hnil : items = [] := hitems.isEmpty_iff.mp hempty
    subst hnil
    refine ⟨by rw [hpc]; rfl, fun hs => absurd hs hns, fun _ => ⟨hpc, k, hin, hitems, ?_⟩⟩
    rw [(hfollows.inOrder n k hin hns).accepted_eq, ← hwaiting]
    exact List.append_nil _
  · exact ⟨by rw [hpc]; rfl, fun _ => hpc, fun hns => absurd hsniffer hns⟩
  · cases hno
  · cases hno

variable [Fintype ν] [Fintype κ] {W : κ → Nat}

/-- The inner steps of a path are paid by the state that it starts from and by the outside. -/
theorem inner_steps_le (hW : Weighted T W) (hs : (runtime host T process).Reachable s)
    (path : (runtime host T process).Path s tr t) :
    tr.countP Event.isInner ≤ stepsLeft W T s + (tr.map (earned T W)).sum := by
  have hpaid := path.countP_le represented_keep
    (fun s e s' hrep hs => stepsLeft_step hW hrep hs) (placed_reachable hs).1
  exact Nat.le_trans (Nat.le_add_left _ _) hpaid

theorem inner_length_le (hW : Weighted T W) (hs : (runtime host T process).Reachable s)
    (path : (runtime host T process).Path s tr t) (hinner : ∀ e ∈ tr, e.isInner = true) :
    tr.length ≤ stepsLeft W T s := by
  have hsteps := inner_steps_le hW hs path
  have hzero : (tr.map (earned T W)).sum = 0 := by
    rw [List.sum_eq_zero]
    intro x hx
    obtain ⟨e, he, rfl⟩ := List.mem_map.mp hx
    exact earned_inner (hinner e he)
  rwa [List.countP_eq_length.mpr hinner, hzero] at hsteps

/-- Left alone, the pipeline comes to rest. -/
theorem exists_rest (hW : Weighted T W) (hs : (runtime host T process).Reachable s) :
    ∃ tr t, (runtime host T process).Path s tr t ∧ (∀ e ∈ tr, e.isInner = true) ∧
      AtRest host T process t := by
  refine System.exists_quiet (I := Represented) (μ := stepsLeft W T) represented_keep ?_
    (placed_reachable hs).1
  intro s e s' hrep hs hinner
  have hstep := stepsLeft_step hW hrep hs
  rw [hinner, earned_inner hinner, if_pos rfl] at hstep
  omega

/-- In a pipeline without a cycle the threads can take only so many steps for what comes from
outside: the frames received, the failures of `recvfrom` and the spurious wake-ups. -/
theorem pipeline_settles {rank : κ → Nat} {b : Nat} (hb : ∀ n, (T.outputs n).length ≤ b)
    (hrank : ∀ n k k', T.input n = some k → k' ∈ T.outputs n → rank k' < rank k)
    (hs : (runtime host T process).Reachable s) (path : (runtime host T process).Path s tr t) :
    tr.countP Event.isInner ≤ stepsLeft (fun k => rankWeight b (rank k)) T s +
      (tr.map (earned T fun k => rankWeight b (rank k))).sum :=
  inner_steps_le (weighted_of_rank hb hrank) hs path

/-- The network comes to rest within so many steps for what comes from outside; here, a frame
that is captured, pushed and taken by the dispatcher. -/
theorem pipeline_settles_one :
    ∃ s tr t, (vlanTaggerRuntime .little oneRange).Reachable s ∧
      (vlanTaggerRuntime .little oneRange).Path s tr t ∧ tr.length = 2 ∧
      tr.countP Event.isInner ≤ stepsLeft (fun k => rankWeight 2 k.rank) vlanTagger s +
        (tr.map (earned vlanTagger fun k => rankWeight 2 k.rank)).sum := by
  have h0 := System.Reachable.start (vlanTaggerStart_initial .little oneRange)
  have h1 := h0.step (.enter (n := .sniffer) rfl rfl rfl)
  have p1 : (vlanTaggerRuntime .little oneRange).Path _ _ _ := .single (@Step.recv _ _ _ _ .little
    vlanTagger ((vlanTaggerStart oneRange).setPc .sniffer .call) .sniffer [1, 2, 3] rfl rfl (by decide))
  have p2 := p1.snoc (@Step.push _ _ _ _ _ _ _ .sniffer .dispatcher _ _ _ _ _ rfl rfl)
  exact ⟨_, _, _, h1, p2, rfl, pipeline_settles vlanTagger_outputs vlanTagger_rank h1 p2⟩

/-- A pipeline without a cycle whose loops all have their queues drains: left alone it comes
to rest, within a number of steps that is fixed beforehand, and then, unless it is being
stopped, every queue has delivered what it accepted. -/
theorem pipeline_drains {rank : κ → Nat} {b : Nat} (hb : ∀ n, (T.outputs n).length ≤ b)
    (hrank : ∀ n k k', T.input n = some k → k' ∈ T.outputs n → rank k' < rank k)
    (hready : ∀ n, ready T n (process n) = true) (h : (runtime host T process).Run tr s) :
    (∃ tr' t, (runtime host T process).Path s tr' t ∧ (∀ e ∈ tr', e.isInner = true) ∧
        AtRest host T process t) ∧
      ∀ tr' t, (runtime host T process).Path s tr' t → (∀ e ∈ tr', e.isInner = true) →
        tr'.length ≤ stepsLeft (fun k => rankWeight b (rank k)) T s ∧
          (AtRest host T process t → t.shouldExit = false → ∀ n, (process n).role ≠ .sniffer →
            ∃ k, T.input n = some k ∧ Represents (t.queue k) [] ∧
              (traffic T (tr ++ tr')).accepted (.queue k) = (traffic T (tr ++ tr')).got n) := by
  have hW := weighted_of_rank hb hrank
  refine ⟨exists_rest hW h.reachable, fun tr' t path hinner =>
    ⟨inner_length_le hW h.reachable path hinner, fun hrest hgo n hns => ?_⟩⟩
  obtain ⟨-, -, hdelivered⟩ := drained_at_rest hready (h.path path) hrest hgo n
  exact (hdelivered hns).2

/-- A frame waits in the queue to the dispatcher; at rest that queue is empty, and the
dispatcher has taken what it accepted. -/
theorem pipeline_drains_one :
    ∃ tr s, (vlanTaggerRuntime .little oneRange).Run tr s ∧ isEmpty (s.queue .dispatcher) = false ∧
      ∃ tr' t, (vlanTaggerRuntime .little oneRange).Path s tr' t ∧
        (∀ e ∈ tr', e.isInner = true) ∧ AtRest .little vlanTagger (Station.process oneRange) t ∧
        Represents (t.queue .dispatcher) [] ∧
        (traffic vlanTagger (tr ++ tr')).accepted (.queue .dispatcher) =
          (traffic vlanTagger (tr ++ tr')).got .dispatcher := by
  have h0 := System.Run.start (vlanTaggerStart_initial .little oneRange)
  have h1 := h0.snoc (.enter (n := .sniffer) rfl rfl rfl)
  have h2 := h1.snoc (@Step.recv _ _ _ _ _ _ _ .sniffer [1, 2, 3] rfl rfl (by decide))
  have h3 := h2.snoc (@Step.push _ _ _ _ _ _ _ .sniffer .dispatcher _ _ _ _ _ rfl rfl)
  obtain ⟨⟨tr', t, path, hinner, hrest⟩, hdrains⟩ := pipeline_drains vlanTagger_outputs
    vlanTagger_rank (vlanTagger_ready oneRange) h3
  have hrun := h3.path path
  have hgo : t.shouldExit = false := by
    refine (undisturbed_of_inner (by simp) (by simp) hinner ?_).goes_on (errCounter_process oneRange)
      hrun
    apply (handed_le_captured (vlanTagger_lane oneRange) hrun).trans
    rw [captured_of_inner _ hinner]
    decide
  obtain ⟨k, hin, hempty, hgot⟩ := (hdrains tr' t path hinner).2 hrest hgo .dispatcher (by nofun)
  cases hin
  exact ⟨_, _, h3, rfl, tr', t, path, hinner, hrest, hempty, hgot⟩

end

end VlanTagger.Pipeline
