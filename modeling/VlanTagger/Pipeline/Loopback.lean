import VlanTagger.Pipeline.Network

/-!
# The network closed on itself

Source and destination interface are the same: every frame handed to `sendto` is on the
link from then on and may be captured again, once, at any time, among frames from outside.
A tagged frame has no tag put on it a second time, so what comes back from the link ends
in a tagger, and every call of `sendto` is paid for by a frame from outside.
-/
namespace VlanTagger.Pipeline

open Lib Nodes

/-- Where a captured frame comes from. -/
inductive Origin
  | external
  /-- handed to `sendto` before -/
  | returned
  deriving DecidableEq

/-- A capture with its origin, or any other event. -/
inductive LoopEvent
  | capture (origin : Origin) (n : Station) (frame : List UInt8)
  | inside (e : Event Station Channel)

namespace LoopEvent

def event : LoopEvent → Event Station Channel
  | .capture _ n frame => .recv n frame
  | .inside e => e

def captured : LoopEvent → Option (Origin × List UInt8)
  | .capture origin _ frame => some (origin, frame)
  | .inside _ => none

end LoopEvent

structure LoopState where
  pipeline : State Station Channel
  /-- the frames that have been handed to `sendto` and not come back yet -/
  link : List (List UInt8)

inductive LoopStep (host : ByteOrder) : LoopState → LoopEvent → LoopState → Prop
  | external {s : LoopState} {s' : State Station Channel} {n : Station} {frame : List UInt8}
      (len : 1 ≤ frame.length ∧ frame.length ≤ 1518)
      (step : Step host vlanTagger s.pipeline (.recv n frame) s') :
      LoopStep host s (.capture .external n frame) ⟨s', s.link⟩
  | returned {s : LoopState} {s' : State Station Channel} {n : Station} {frame : List UInt8}
      {before after : List (List UInt8)} (link : s.link = before ++ frame :: after)
      (step : Step host vlanTagger s.pipeline (.recv n frame) s') :
      LoopStep host s (.capture .returned n frame) ⟨s', before ++ after⟩
  | inside {s : LoopState} {s' : State Station Channel} {e : Event Station Channel}
      (other : e.captured = none) (step : Step host vlanTagger s.pipeline e s') :
      LoopStep host s (.inside e) ⟨s', s.link ++ e.handed.toList⟩

/-- The threads of the program, with nothing on the link at the start. -/
def loopback (host : ByteOrder) (ctx : TaggerContext) : System LoopState LoopEvent where
  init := fun s => (vlanTaggerRuntime host ctx).init s.pipeline ∧ s.link = []
  step := LoopStep host

/-- The captured frames in their order, with their origins. -/
def captures (tr : List LoopEvent) : List (Origin × List UInt8) := tr.filterMap LoopEvent.captured

/-- The frames from outside among them. -/
def externals (tr : List LoopEvent) : List (Origin × List UInt8) :=
  (captures tr).filter fun c => c.1 = .external

/-- `f` is `p` with one tag, which stands before an EtherType of IPv4. -/
structure OnceTagged (ctx : TaggerContext) (p f : List UInt8) : Prop where
  tagFrame : tagFrame ctx p = some f
  untag : f.take 12 ++ f.drop 16 = p
  tag : etherType f = 0x8100
  behind_tag : etherType (f.drop 4) = 0x0800

theorem onceTagged {ctx : TaggerContext} {p f : List UInt8} (h : Nodes.tagFrame ctx p = some f) :
    OnceTagged ctx p f := by
  obtain ⟨hlen, hip, vid, rfl⟩ := tagFrame_eq_insertTag h
  refine ⟨h, untag_insertTag (by omega) vid, etherType_insertTag (by omega) vid, ?_⟩
  rw [etherType_behind_tag (by omega), hip]

/-! ## Runs -/

section

variable {host : ByteOrder} {ctx : TaggerContext} {tr : List LoopEvent} {s s' : LoopState}
  {e : LoopEvent}

theorem LoopStep.pipeline (h : LoopStep host s e s') :
    Step host vlanTagger s.pipeline e.event s'.pipeline := by
  cases h with
  | external len step => exact step
  | returned link step => exact step
  | inside other step => exact step

/-- Without its link, the closed network is the network. -/
theorem loopback_run (h : (loopback host ctx).Run tr s) :
    (vlanTaggerRuntime host ctx).Run (tr.map LoopEvent.event) s.pipeline := by
  induction h with
  | start h => exact .start h.1
  | snoc _ h ih =>
    rw [List.map_append]
    exact ih.snoc h.pipeline

theorem captures_snoc (tr : List LoopEvent) (e : LoopEvent) :
    captures (tr ++ [e]) = captures tr ++ e.captured.toList := by
  rw [captures, List.filterMap_append, ← captures]
  cases e <;> rfl

theorem captures_event (h : (loopback host ctx).Run tr s) :
    capturedFrames (tr.map LoopEvent.event) = (captures tr).map Prod.snd := by
  refine h.invariant (I := fun tr _ => capturedFrames (tr.map LoopEvent.event) =
    (captures tr).map Prod.snd) (fun _ _ => rfl) ?_
  intro tr s e s' _ hi hs
  rw [captures_snoc, List.map_append, List.map_append, capturedFrames, List.filterMap_append,
    ← capturedFrames, hi]
  cases hs with
  | external => rfl
  | returned => rfl
  | inside other => exact congrArg _ (List.filterMap_cons_none other)

/-- What is on the link, and so what comes back from it, has been through a tagger. -/
structure Looped (ctx : TaggerContext) (tr : List LoopEvent) (s : LoopState) : Prop where
  link : ∀ f ∈ s.link, ∃ p, tagFrame ctx p = some f
  returned : ∀ f, (Origin.returned, f) ∈ captures tr → ∃ p, tagFrame ctx p = some f

/-- A frame that is handed to `sendto` is the tagged form of a captured one. -/
theorem tagged_of_handed (h : (vlanTaggerRuntime host ctx).Run (tr.map LoopEvent.event) s.pipeline)
    {f : List UInt8} (hf : f ∈ handedFrames (tr.map LoopEvent.event)) :
    ∃ p, tagFrame ctx p = some f := by
  rw [← handed_run (vlanTagger_lane ctx) h] at hf
  obtain ⟨x, hx, rfl⟩ := List.mem_map.mp hf
  obtain ⟨p, -, htag, -⟩ := (agrees_run (vlanTagger_lane ctx) h).handed x hx
  exact ⟨p, htag⟩

theorem looped_step (hrun : (loopback host ctx).Run tr s) (h : Looped ctx tr s)
    (hs : LoopStep host s e s') : Looped ctx (tr ++ [e]) s' := by
  have hrun' := loopback_run (hrun.snoc hs)
  cases hs with
  | external len step =>
    refine ⟨h.link, fun f hf => ?_⟩
    rw [captures_snoc] at hf
    exact h.returned f ((List.mem_append.mp hf).resolve_right (by simp [LoopEvent.captured]))
  | @returned _ n frame before after link step =>
    refine ⟨fun f hf => h.link f ?_, fun f hf => ?_⟩
    · rw [link]
      exact (List.mem_append.mp hf).elim (List.mem_append_left _)
        fun hf => List.mem_append_right _ (List.mem_cons_of_mem _ hf)
    · rw [captures_snoc] at hf
      rcases List.mem_append.mp hf with hf | hf
      · exact h.returned f hf
      · obtain rfl : f = frame := by simpa [LoopEvent.captured] using hf
        apply h.link f
        rw [link]
        exact List.mem_append_right _ List.mem_cons_self
  | @inside _ e other step =>
    refine ⟨fun f hf => ?_, fun f hf => ?_⟩
    · rcases List.mem_append.mp hf with hf | hf
      · exact h.link f hf
      · apply tagged_of_handed hrun'
        rw [handedFrames, List.map_append, List.filterMap_append, List.mem_append]
        exact .inr (by simpa [LoopEvent.event] using hf)
    · rw [captures_snoc] at hf
      exact h.returned f ((List.mem_append.mp hf).resolve_right (by simp [LoopEvent.captured]))

/-- A run on a link with frames from outside only. -/
theorem loopback_of_onLink {tr : List (Event Station Channel)} {s : State Station Channel}
    (h : (vlanTaggerOnLink host ctx).Run tr s) :
    ∃ tr' : List LoopEvent, (loopback host ctx).Run tr' ⟨s, handedFrames tr⟩ ∧
      tr'.map LoopEvent.event = tr ∧
      captures tr' = (capturedFrames tr).map fun frame => (.external, frame) := by
  induction h with
  | start h => exact ⟨[], .start ⟨h, rfl⟩, rfl, rfl⟩
  | @snoc tr s s' e _ hs ih =>
    obtain ⟨tr', hrun, hevents, hcaptures⟩ := ih
    have hframes : capturedFrames (tr ++ [e]) = capturedFrames tr ++ e.captured.toList := by
      rw [capturedFrames, List.filterMap_append, ← capturedFrames]
      cases e <;> rfl
    have hhanded : handedFrames (tr ++ [e]) = handedFrames tr ++ e.handed.toList := by
      rw [handedFrames, List.filterMap_append, ← handedFrames]
      cases e <;> rfl
    cases hcap : e.captured with
    | none =>
      refine ⟨tr' ++ [.inside e], ?_, ?_, ?_⟩
      · rw [hhanded]
        exact hrun.snoc (.inside hcap hs.1)
      · rw [List.map_append, hevents]
        rfl
      · rw [captures_snoc, hcaptures, hframes, hcap]
        simp [LoopEvent.captured]
    | some frame =>
      cases e with
      | recv n frame' =>
        cases hcap
        refine ⟨tr' ++ [.capture .external n frame], ?_, ?_, ?_⟩
        · rw [hhanded]
          simpa [Event.handed] using hrun.snoc (.external (hs.2 n frame rfl) hs.1)
        · rw [List.map_append, hevents]
          rfl
        · rw [captures_snoc, hcaptures, hframes]
          simp [LoopEvent.captured, Event.captured]
      | _ => cases hcap

theorem looped_run (h : (loopback host ctx).Run tr s) : Looped ctx tr s := by
  refine h.invariant (I := fun tr s => Looped ctx tr s) ?_ fun tr s e s' hrun hi hs =>
    looped_step hrun hi hs
  intro s hinit
  refine ⟨fun f hf => ?_, fun f hf => ?_⟩
  · rw [hinit.2] at hf
    cases hf
  · cases hf

end

/-- Different numbers of entries that meet `P` are no more than the entries that meet it. -/
theorem length_le_filter {α : Type*} {l : List α} {P : α → Bool} {ids : List Nat}
    (hnodup : ids.Nodup) (h : ∀ id ∈ ids, ∃ x, l[id]? = some x ∧ P x = true) :
    ids.length ≤ (l.filter P).length := by
  have hsub : ids ⊆ (l.zipIdx.filter fun x => P x.1).map Prod.snd := by
    intro id hid
    obtain ⟨x, hx, hp⟩ := h id hid
    exact List.mem_map.mpr ⟨(x, id), List.mem_filter.mpr ⟨List.mk_mem_zipIdx_iff_getElem?.mpr hx, hp⟩, rfl⟩
  have hle := (List.subperm_of_subset hnodup hsub).length_le
  rw [List.length_map, ← List.countP_eq_length_filter] at hle
  rw [← List.countP_eq_length_filter]
  calc ids.length ≤ l.zipIdx.countP fun x => P x.1 := hle
    _ = (l.zipIdx.map Prod.fst).countP P := List.countP_map.symm
    _ = l.countP P := by rw [List.zipIdx_map_fst]

/-- However often frames come back: every call of `sendto` is for a frame from outside, with
one tag, no frame that came back is ever handed to `sendto` again, and so there are never
more such calls than frames from outside. -/
theorem no_packet_storm {host : ByteOrder} {ctx : TaggerContext} {tr : List LoopEvent}
    {s : LoopState} (h : (loopback host ctx).Run tr s) :
    (∃ ids : List Nat, ids.Nodup ∧
      List.Forall₂ (fun id f => ∃ p, (captures tr)[id]? = some (.external, p) ∧ OnceTagged ctx p f)
        ids (handedFrames (tr.map LoopEvent.event)) ∧
      ∀ id p, (captures tr)[id]? = some (.returned, p) → id ∉ ids) ∧
    (handedFrames (tr.map LoopEvent.event)).length ≤ (externals tr).length := by
  have hrun := loopback_run h
  have hlooped := looped_run h
  have hnames : ∀ {id p}, (ledger (tr.map LoopEvent.event)).Names id p →
      ∃ origin, (captures tr)[id]? = some (origin, p) := by
    intro id p hname
    rw [names_iff, captures_event h, List.getElem?_map, Option.map_eq_some_iff] at hname
    obtain ⟨⟨origin, p'⟩, hcap, rfl⟩ := hname
    exact ⟨origin, hcap⟩
  have hexternal : ∀ x ∈ (ledger (tr.map LoopEvent.event)).handed,
      ∃ p, (captures tr)[x.1]? = some (.external, p) ∧ OnceTagged ctx p x.2 := by
    intro x hx
    obtain ⟨p, hname, htag, -⟩ := (agrees_run (vlanTagger_lane ctx) hrun).handed x hx
    obtain ⟨origin, hcap⟩ := hnames hname
    cases origin with
    | external => exact ⟨p, hcap, onceTagged htag⟩
    | returned =>
      -- a frame that came back is tagged already
      obtain ⟨p', htag'⟩ := hlooped.returned p (List.mem_of_getElem? hcap)
      rw [tagFrame_tagged htag'] at htag
      cases htag
  have hhanded := handed_run (vlanTagger_lane ctx) hrun
  have hnodup := (ledger_handedOnce (tr.map LoopEvent.event)).nodup
  have hmem : ∀ id ∈ (ledger (tr.map LoopEvent.event)).handed.map Prod.fst,
      ∃ p, (captures tr)[id]? = some (Origin.external, p) := by
    intro id hid
    obtain ⟨x, hx, rfl⟩ := List.mem_map.mp hid
    obtain ⟨p, hcap, -⟩ := hexternal x hx
    exact ⟨p, hcap⟩
  refine ⟨⟨_, hnodup, ?_, fun id p hcap hid => ?_⟩, ?_⟩
  · rw [← hhanded, List.forall₂_map_left_iff, List.forall₂_map_right_iff, List.forall₂_same]
    exact hexternal
  · obtain ⟨p', hcap'⟩ := hmem id hid
    rw [hcap] at hcap'
    cases hcap'
  · rw [← hhanded, List.length_map, ← List.length_map (f := Prod.fst)]
    refine length_le_filter hnodup fun id hid => ?_
    obtain ⟨p, hcap⟩ := hmem id hid
    exact ⟨_, hcap, decide_eq_true rfl⟩

/-- A frame of 34 bytes is sent in its tagged form, which comes back and is captured again;
there are no more calls of `sendto` than frames from outside. -/
theorem no_packet_storm_returned :
    ∃ tr s, (loopback .little oneRange).Run tr s ∧
      captures tr = [(.external, paddedFrame 0), (.returned, insertTag (paddedFrame 0) 7)] ∧
      handedFrames (tr.map LoopEvent.event) = [insertTag (paddedFrame 0) 7] ∧
      (handedFrames (tr.map LoopEvent.event)).length ≤ (externals tr).length := by
  obtain ⟨tr, s, hvacant⟩ := (vacant_start .little oneRange).serves (tagFrame_paddedFrame 0)
    (by decide : _ < vlanEthFrameLen)
  obtain ⟨tr', hloop, hevents, hcaptures⟩ := loopback_of_onLink hvacant.run
  have hlink : handedFrames ([] ++ tr) = [] ++ insertTag (paddedFrame 0) 7 :: [] := by
    rw [← handed_run (vlanTagger_lane oneRange) hvacant.run.of_restrict, hvacant.handed]
    rfl
  have hrole := (agrees_onLink hvacant.run).roles .sniffer
  have hsniffer : ∀ {pr : Process}, pr.role = .sniffer → pr.isSniffer = true ∧
      ready vlanTagger .sniffer pr = true := by
    intro pr hpr
    cases pr <;> first | exact ⟨rfl, rfl⟩ | cases hpr
  have hentered := hloop.snoc (.inside rfl
    (.enter (hvacant.pc .sniffer) hvacant.go (hsniffer hrole).2))
  have hback := hentered.snoc (.returned (by rw [hlink]; exact List.append_nil _)
    (.recv (n := .sniffer) (by rw [State.setPc, node_setNode_self])
      (by rw [State.setPc, node_setNode_self]; exact (hsniffer hrole).1) (by decide)))
  refine ⟨_, _, hback, ?_, ?_, (no_packet_storm hback).2⟩
  · rw [captures_snoc, captures_snoc, hcaptures, hvacant.captured]
    rfl
  · rw [List.map_append, List.map_append, hevents, handedFrames, List.filterMap_append,
      List.filterMap_append, ← handedFrames, hlink]
    rfl

end VlanTagger.Pipeline
