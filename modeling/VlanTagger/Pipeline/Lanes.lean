import VlanTagger.Nodes.Tagging
import VlanTagger.Pipeline.Runtime

/-!
# Pipelines of single lanes

A pipeline in which every node but the dispatcher has one output, so that a frame is
never copied: it travels raw up to a tagger and tagged behind it. `Lane` says so of one
node, and `passes_or_discards` is what the body of any such node does with a frame: it
passes the frame on in the form of the next queue, or it drops the frame for a reason
that its role allows.
-/
namespace VlanTagger.Pipeline

open Lib Nodes

/-- What a process keeps for its whole life. -/
inductive Role
  | sniffer
  | tagger (ctx : TaggerContext)
  | dispatcher (strategy : DispatchStrategy)
  | packetCounter
  | sender
  | collector
  | logger
  | ipModifier (ctx : IpModifierContext)
  deriving DecidableEq

def Process.role : Process → Role
  | .sniffer _ => .sniffer
  | .tagger ctx _ => .tagger ctx
  | .dispatcher ctx => .dispatcher ctx.strategy
  | .packetCounter _ => .packetCounter
  | .sender _ => .sender
  | .collector => .collector
  | .logger _ => .logger
  | .ipModifier ctx => .ipModifier ctx

theorem role_started (p : Process) (uninitialised : Memory UInt8) :
    (p.started uninitialised).role = p.role := by
  cases p <;> rfl

theorem dispatcherBody_strategy (ctx : DispatcherContext) (outputCount rand : Nat)
    (buffer : Memory UInt8) (ret : Int) :
    (dispatcherBody ctx outputCount rand buffer ret).1.strategy = ctx.strategy := by
  unfold dispatcherBody
  split
  · rfl
  · split <;> rfl

theorem role_body (host : ByteOrder) (outputCount rand : Nat) (shouldExit : Bool) (p : Process)
    (buffer : Memory UInt8) (ret : Int) :
    (p.body host outputCount rand shouldExit buffer ret).process.role = p.role := by
  cases p with
  | dispatcher ctx => exact congrArg Role.dispatcher (dispatcherBody_strategy ..)
  | _ => rfl

theorem role_dispatcherPushed (ctx : DispatcherContext) (ret packetSize : Int) :
    (Process.dispatcher (dispatcherPushed ctx ret packetSize)).role =
      (Process.dispatcher ctx).role := by
  unfold dispatcherPushed
  split <;> rfl

theorem stops_popFailed (ret : Int) : Effect.stops (popFailed ret) = false := by
  unfold popFailed
  split <;> rfl

/-- Among the loop bodies only that of the sniffer gives up. -/
theorem stops_body {p : Process} (hns : p.isSniffer = false) (host : ByteOrder)
    (outputCount rand : Nat) (shouldExit : Bool) (buffer : Memory UInt8) (ret : Int) :
    Effect.stops (p.body host outputCount rand shouldExit buffer ret).effect = false := by
  cases p with
  | sniffer errCounter => cases hns
  | tagger ctx out =>
    simp only [Process.body, taggerBody]
    repeat' split
    all_goals rfl
  | dispatcher ctx =>
    simp only [Process.body, dispatcherBody]
    repeat' split
    all_goals first | rfl | exact stops_popFailed ret
  | packetCounter ctx =>
    simp only [Process.body, packetCounterBody]
    repeat' split
    all_goals first | rfl | exact stops_popFailed ret
  | sender errCounter =>
    simp only [Process.body, senderBody]
    repeat' split
    all_goals rfl
  | collector =>
    simp only [Process.body, collectorBody]
    split
    · exact stops_popFailed ret
    · rfl
  | logger ctx =>
    simp only [Process.body, loggerBody]
    split
    · exact stops_popFailed ret
    · rfl
  | ipModifier ctx =>
    simp only [Process.body, ipModifierBody]
    repeat' split
    all_goals first | rfl | exact stops_popFailed ret

/-! ## The role of a node never changes -/

section

variable {ν κ : Type*}

theorem role_setNode [DecidableEq ν] {s : State ν κ} {m : ν} {st : NodeState κ}
    (hst : st.process.role = (s.node m).process.role) (n : ν) :
    ((s.setNode m st).node n).process.role = (s.node n).process.role := by
  show (Function.update s.node m st n).process.role = _
  by_cases hn : n = m
  · subst hn
    rw [Function.update_self]
    exact hst
  · rw [Function.update_of_ne hn]

theorem role_setPc [DecidableEq ν] {s : State ν κ} {m : ν} {pc : Pc κ} (n : ν) :
    ((s.setPc m pc).node n).process.role = (s.node n).process.role := by
  unfold State.setPc
  refine role_setNode ?_ n
  rfl

theorem role_finish [DecidableEq ν] {T : Topology ν κ} {s : State ν κ} {m : ν} {o : Outcome}
    (ho : o.process.role = (s.node m).process.role) (n : ν) :
    ((s.finish T m o).node n).process.role = (s.node n).process.role :=
  role_setNode (s := s) (m := m) ho n

variable [DecidableEq κ]

theorem role_signal {T : Topology ν κ} {s : State ν κ} {k : κ} (n : ν) :
    ((s.signal T k).node n).process.role = (s.node n).process.role := by
  simp only [State.signal]
  split <;> rfl

end

/-! ## Lanes -/

/-- The form of a frame. -/
inductive Stage
  | raw
  | tagged
  deriving DecidableEq

/-- `f` is the captured frame `p` in this form. -/
def Stage.Carries (ctx : TaggerContext) (p f : List UInt8) : Stage → Prop
  | .raw => f = p
  | .tagged => tagFrame ctx p = some f

/-- No form of a frame is empty. -/
theorem Stage.Carries.length_pos {ctx : TaggerContext} {p f : List UInt8} {st : Stage}
    (h : st.Carries ctx p f) (hp : 1 ≤ p.length) : 1 ≤ f.length := by
  cases st with
  | raw =>
    have he : f = p := h
    rwa [he]
  | tagged =>
    have hlen := (length_tagFrame h).2
    omega

theorem Stage.Carries.length_le {ctx : TaggerContext} {p f : List UInt8} {st : Stage}
    (h : st.Carries ctx p f) : f.length ≤ p.length + 4 := by
  cases st with
  | raw =>
    have he : f = p := h
    rw [he]
    omega
  | tagged =>
    have hlen := (length_tagFrame h).2
    omega

section

variable {ν κ : Type*}

/-- The node takes frames of the form it works on and has outputs for what it makes of them. -/
def Lane (T : Topology ν κ) (ctx : TaggerContext) (stage : κ → Stage) (n : ν) : Role → Prop
  | .sniffer => ∃ k, T.outputs n = [k] ∧ stage k = .raw
  | .tagger c => c = ctx ∧ (∀ k, T.input n = some k → stage k = .raw) ∧
      ∃ k, T.outputs n = [k] ∧ stage k = .tagged
  | .dispatcher _ => (∀ k, T.input n = some k → stage k = .raw) ∧ T.outputs n ≠ [] ∧
      ∀ k ∈ T.outputs n, stage k = .raw
  | .packetCounter => (∀ k, T.input n = some k → stage k = .tagged) ∧
      ∃ k, T.outputs n = [k] ∧ stage k = .tagged
  | .sender => (∀ k, T.input n = some k → stage k = .tagged) ∧ T.outputs n = []
  | _ => False

/-- The node may discard the captured frame `p`. -/
def Discards (ctx : TaggerContext) (p : List UInt8) : Role → Prop
  | .tagger c => tagFrame c p = none
  | .sender => ∃ f, tagFrame ctx p = some f ∧ vlanEthFrameLen ≤ f.length
  | _ => False

/-- The thread is about to pass the captured frame `p` on, a dispatcher by its own `push`, a
sender by `sendto` and any other node by `node_send_to_outputs`. -/
def Passes (T : Topology ν κ) (ctx : TaggerContext) (stage : κ → Stage) (role : Role) (n : ν)
    (p : List UInt8) : Pc κ → Prop
  | .send targets buffer size => (∀ strategy, role ≠ .dispatcher strategy) ∧
      ∃ k, targets = [k] ∧ k ∈ T.outputs n ∧ (stage k).Carries ctx p (buffer.bytes size.toNat)
  | .dispatch k buffer size => (∃ strategy, role = .dispatcher strategy) ∧ k ∈ T.outputs n ∧
      (stage k).Carries ctx p (buffer.bytes size.toNat)
  | .sendto buffer len => role = .sender ∧ tagFrame ctx p = some (buffer.bytes len) ∧
      len < vlanEthFrameLen
  | _ => False

/-- The thread holds no frame that it has still to pass on. -/
def Pc.idle : Pc κ → Bool
  | .send _ _ _ => false
  | .dispatch _ _ _ => false
  | .sendto _ _ => false
  | _ => true

/-- A thread that passes a frame on does not give up. -/
theorem stops_of_busy {outputs : List κ} {e : Effect} (h : (Pc.after outputs e).idle = false) :
    Effect.stops e = false := by
  cases e with
  | giveUp => cases h
  | _ => rfl

theorem idle_of_passes {T : Topology ν κ} {ctx : TaggerContext} {stage : κ → Stage} {role : Role}
    {n : ν} {p : List UInt8} {pc : Pc κ} (h : Passes T ctx stage role n p pc) : pc.idle = false := by
  cases pc with
  | send targets buffer size => rfl
  | dispatch k buffer size => rfl
  | sendto buffer len => rfl
  | _ => exact h.elim

/-! ## What a body does with a frame -/

variable {T : Topology ν κ} {ctx : TaggerContext} {stage : κ → Stage} {role : Role} {n : ν}
  {p f : List UInt8} {buffer : Memory UInt8}

/-- `node_send_to_outputs` of a node with one output. -/
theorem passes_sendToOutputs (hrole : ∀ strategy, role ≠ .dispatcher strategy) {k : κ}
    (hout : T.outputs n = [k]) {size : UInt16}
    (hsize : size.toNat = f.length) (hb : buffer.bytes f.length = f)
    (hc : (stage k).Carries ctx p f) :
    Passes T ctx stage role n p (Pc.after (T.outputs n) (.sendToOutputs buffer size)) := by
  rw [hout]
  refine ⟨hrole, k, rfl, ?_, ?_⟩
  · rw [hout]
    exact List.mem_singleton_self k
  · rwa [hsize, hb]

theorem passes_dispatcher (hrole : ∃ strategy, role = .dispatcher strategy)
    (hne : T.outputs n ≠ []) (hraw : ∀ k ∈ T.outputs n, stage k = .raw)
    (hle : p.length ≤ 1522) (hb : buffer.bytes p.length = p) (i : Nat) :
    Passes T ctx stage role n p (Pc.after (T.outputs n)
      (.pushTo (i % (T.outputs n).length) buffer (UInt16.ofInt p.length))) := by
  have hi : i % (T.outputs n).length < (T.outputs n).length :=
    Nat.mod_lt _ (List.length_pos_iff.mpr hne)
  rw [Pc.after, List.getElem?_eq_getElem hi]
  refine ⟨hrole, List.getElem_mem hi, ?_⟩
  rw [hraw _ (List.getElem_mem hi), toNat_ofInt (by omega), hb]
  rfl

/-- The body passes the frame on in the form of the next queue, or discards it for a reason. -/
theorem passes_or_discards {pr : Process} (host : ByteOrder) (hl : Lane T ctx stage n pr.role)
    (hns : pr.isSniffer = false) {k : κ} (hin : T.input n = some k)
    (hc : (stage k).Carries ctx p f) (hpos : 1 ≤ f.length) (hle : f.length ≤ 1522)
    (hb : buffer.bytes f.length = f) (rand : Nat) (shouldExit : Bool) {e : Effect}
    (he : (pr.body host (T.outputs n).length rand shouldExit buffer f.length).effect = e) :
    (e.frame = none ∧ (Pc.after (T.outputs n) e).idle = true ∧ Discards ctx p pr.role) ∨
      (e.frame.isSome = true ∧ Passes T ctx stage pr.role n p (Pc.after (T.outputs n) e)) := by
  have hone : ¬ ((f.length : Int) < 1) := by omega
  subst he
  cases pr with
  | sniffer c => cases hns
  | dispatcher c =>
    obtain ⟨hraw, hne, hout⟩ := hl
    rw [hraw k hin] at hc
    have hfp : f = p := hc
    subst hfp
    right
    simp only [Process.body, dispatcherBody, hone, if_false]
    cases c.strategy with
    | roundRobin => exact ⟨rfl, passes_dispatcher ⟨_, rfl⟩ hne hout hle hb _⟩
    | random => exact ⟨rfl, passes_dispatcher ⟨_, rfl⟩ hne hout hle hb _⟩
  | tagger c out =>
    obtain ⟨hctx, hraw, k', hout, hstage⟩ := hl
    rw [hraw k hin] at hc
    have hfp : f = p := hc
    subst hfp
    have hspec := taggerBody_spec host c hb hpos hle out
    simp only [Process.body]
    cases hf : tagFrame c f with
    | none =>
      rw [hf] at hspec
      rw [hspec]
      exact .inl ⟨rfl, rfl, hf⟩
    | some g =>
      rw [hf] at hspec
      obtain ⟨out', size, heff, hsize, hbytes⟩ := hspec
      rw [heff]
      refine .inr ⟨rfl, passes_sendToOutputs (by nofun) hout hsize hbytes ?_⟩
      rw [hstage, ← hctx]
      exact hf
  | packetCounter c =>
    obtain ⟨htag, k', hout, hstage⟩ := hl
    rw [htag k hin] at hc
    right
    simp only [Process.body, packetCounterBody, hone, if_false]
    refine ⟨rfl, passes_sendToOutputs (by nofun) hout (toNat_ofInt (by omega)) hb ?_⟩
    rw [hstage]
    exact hc
  | sender c =>
    obtain ⟨htag, -⟩ := hl
    rw [htag k hin] at hc
    simp only [Process.body, senderBody]
    by_cases hlong : vlanEthFrameLen ≤ f.length
    · have hint : (vlanEthFrameLen : Int) ≤ f.length := by exact_mod_cast hlong
      rw [if_pos hint]
      exact .inl ⟨rfl, rfl, f, hc, hlong⟩
    · have hint : ¬ (vlanEthFrameLen : Int) ≤ f.length := by exact_mod_cast hlong
      have hneg : ¬ (f.length : Int) < 0 := by omega
      rw [if_neg hint, if_neg hneg]
      refine .inr ⟨rfl, rfl, ?_, Nat.not_le.mp hlong⟩
      rw [Int.toNat_natCast, hb]
      exact hc
  | collector => exact hl.elim
  | logger c => exact hl.elim
  | ipModifier c => exact hl.elim

end

end VlanTagger.Pipeline
