import VlanTagger.Pipeline.DetailedLogging
import VlanTagger.Pipeline.Draining

/-!
# What becomes of every captured frame

A pipeline of single lanes that has come to rest has no frame left in a queue or in a buffer,
so that each captured frame has met one of the ends that its role allows. Both networks of
pipeline_patterns/patterns.c have no cycle and drain.
-/
namespace VlanTagger.Pipeline

open Lib Nodes Queue

section

variable {ν κ : Type*} [DecidableEq ν] [DecidableEq κ] {host : ByteOrder} {T : Topology ν κ}
  {ctx : TaggerContext} {stage : κ → Stage} {process : ν → Process} {tr : List (Event ν κ)}
  {s : State ν κ}

/-- At rest no frame is on its way. -/
theorem held_at_rest (hlane : ∀ n, Lane T ctx stage n (process n).role)
    (hready : ∀ n, ready T n (process n) = true)
    (hconsumed : ∀ k, ∃ n, T.input n = some k ∧ (process n).role ≠ .sniffer)
    (h : (runtime host T process).Run tr s) (hrest : AtRest host T process s)
    (hgo : s.shouldExit = false) :
    (∀ k, (ledger tr).tokens.held (.queue k) = []) ∧ ∀ n, (ledger tr).tokens.held (.buffer n) = [] := by
  have hagrees := agrees_run hlane h
  refine ⟨fun k => ?_, fun n => ?_⟩
  · obtain ⟨n, hin, hns⟩ := hconsumed k
    obtain ⟨-, -, hdrained⟩ := drained_at_rest hready h hrest hgo n
    obtain ⟨-, k', hin', hempty, -⟩ := hdrained hns
    have hk : k' = k := Option.some.inj (hin'.symm.trans hin)
    subst hk
    obtain ⟨items, hitems, hall⟩ := hagrees.queue k'
    rw [hitems.unique hempty] at hall
    exact List.forall₂_nil_right_iff.mp hall
  · obtain ⟨-, hcall, hasleep⟩ := drained_at_rest hready h hrest hgo n
    apply (hagrees.buffer n).nil_of_idle
    by_cases hs : (process n).role = .sniffer
    · rw [hcall hs]
      rfl
    · rw [(hasleep hs).1]
      rfl

/-- At rest a captured frame was dropped at a full queue, or it has no tag, or its tagged form
is too long for the sender, or that form was handed to `sendto`, once. -/
theorem captured_at_rest (hlane : ∀ n, Lane T ctx stage n (process n).role)
    (hready : ∀ n, ready T n (process n) = true)
    (hconsumed : ∀ k, ∃ n, T.input n = some k ∧ (process n).role ≠ .sniffer)
    (h : (runtime host T process).Run tr s) (hrest : AtRest host T process s)
    (hgo : s.shouldExit = false) {id : Nat} {p : List UInt8}
    (hp : (capturedFrames tr)[id]? = some p) :
    (∃ k, id ∈ (ledger tr).tokens.held (.dropped k)) ∨ tagFrame ctx p = none ∨
      ∃ f, tagFrame ctx p = some f ∧ (vlanEthFrameLen ≤ f.length ∨ (ledger tr).sends id = [f]) := by
  have hagrees := agrees_run hlane h
  have honce := ledger_handedOnce tr
  obtain ⟨hqueue, hbuffer⟩ := held_at_rest hlane hready hconsumed h hrest hgo
  have hname : (ledger tr).Names id p := names_iff.mpr hp
  have hsame : ∀ {p'}, (ledger tr).Names id p' → p' = p := fun hname' =>
    Option.some.inj (hname'.symm.trans hname)
  have hlt : id < (ledger tr).tokens.issued.length := (List.getElem?_eq_some_iff.mp hname).1
  have hhanded : ∀ {place : Place ν κ}, place.isHanded = true → id ∈ (ledger tr).tokens.held place →
      ∃ f, tagFrame ctx p = some f ∧ (vlanEthFrameLen ≤ f.length ∨ (ledger tr).sends id = [f]) := by
    intro place hplace hid
    obtain ⟨⟨i, f⟩, hmem, rfl⟩ := List.mem_map.mp ((honce.mem_iff id).mpr ⟨place, hplace, hid⟩)
    obtain ⟨p', hname', htag, -⟩ := hagrees.handed _ hmem
    rw [hsame hname'] at htag
    exact ⟨f, htag, .inr (honce.sends_of_mem hmem)⟩
  obtain ⟨place, hid⟩ := (ledger_exclusive tr).placed hlt
  cases place with
  | queue k =>
    rw [hqueue k] at hid
    cases hid
  | buffer n =>
    rw [hbuffer n] at hid
    cases hid
  | dropped k => exact .inl ⟨k, hid⟩
  | discarded n =>
    obtain ⟨p', hname', hdiscards⟩ := hagrees.discarded n id hid
    have hl := hlane n
    cases hr : (process n).role with
    | tagger c =>
      rw [hr] at hl
      simp only [hr, hsame hname'] at hdiscards
      rw [hl.1] at hdiscards
      exact .inr (.inl hdiscards)
    | sender =>
      simp only [hr, hsame hname'] at hdiscards
      obtain ⟨f, htag, hlong⟩ := hdiscards
      exact .inr (.inr ⟨f, htag, .inl hlong⟩)
    | _ =>
      simp only [hr] at hdiscards
      exact hdiscards.elim
  | failed n => exact .inr (.inr (hhanded rfl hid))
  | sent n => exact .inr (.inr (hhanded rfl hid))

end

/-! ## The network of the program -/

theorem vlanTagger_consumed (ctx : TaggerContext) (k : Channel) :
    ∃ n, vlanTagger.input n = some k ∧ (n.process ctx).role ≠ .sniffer := by
  cases k with
  | dispatcher => exact ⟨.dispatcher, rfl, by simp [Station.process, Process.role]⟩
  | tagger1 => exact ⟨.tagger1, rfl, by simp [Station.process, Process.role]⟩
  | tagger2 => exact ⟨.tagger2, rfl, by simp [Station.process, Process.role]⟩
  | packetCounter => exact ⟨.packetCounter, rfl, by simp [Station.process, Process.role]⟩
  | sender => exact ⟨.sender, rfl, by simp [Station.process, Process.role]⟩

/-- The program drains: left alone it comes to rest, and then, unless it was stopped or a socket
gave up, each captured frame was dropped at a full queue, or is not to be tagged, or is too long
when it is tagged, or was handed to `sendto` in its tagged form, once. No socket gives up that
has failed three times at most. -/
theorem program_drains {host : ByteOrder} {ctx : TaggerContext} {tr : List (Event Station Channel)}
    {s : State Station Channel} (h : (vlanTaggerRuntime host ctx).Run tr s) :
    (∃ tr' t, (vlanTaggerRuntime host ctx).Path s tr' t ∧ (∀ e ∈ tr', e.isInner = true) ∧
        AtRest host vlanTagger (Station.process ctx) t) ∧
      ∀ tr' t, (vlanTaggerRuntime host ctx).Path s tr' t → (∀ e ∈ tr', e.isInner = true) →
        tr'.length ≤ stepsLeft (fun k => rankWeight 2 k.rank) vlanTagger s ∧
          (Undisturbed (tr ++ tr') → t.shouldExit = false) ∧
          (AtRest host vlanTagger (Station.process ctx) t → t.shouldExit = false →
            ∀ id p, (capturedFrames tr)[id]? = some p →
              (∃ k, id ∈ (ledger (tr ++ tr')).tokens.held (.dropped k)) ∨ tagFrame ctx p = none ∨
                ∃ f, tagFrame ctx p = some f ∧
                  (vlanEthFrameLen ≤ f.length ∨ (ledger (tr ++ tr')).sends id = [f])) := by
  have hW := weighted_of_rank vlanTagger_outputs vlanTagger_rank
  refine ⟨exists_rest hW h.reachable, fun tr' t path hinner =>
    ⟨inner_length_le hW h.reachable path hinner, fun hquiet => ?_, fun hrest hgo id p hp => ?_⟩⟩
  · exact hquiet.goes_on (errCounter_process ctx) (h.path path)
  · exact captured_at_rest (vlanTagger_lane ctx) (vlanTagger_ready ctx) (vlanTagger_consumed ctx)
      (h.path path) hrest hgo (capturedFrames_append hp)

/-- A frame of 34 bytes has just been captured: at rest it is sent with its tag, unless it was
dropped on the way. -/
theorem program_drains_one :
    ∃ tr s, (vlanTaggerRuntime .little oneRange).Run tr s ∧ capturedFrames tr = [paddedFrame 0] ∧
      ∃ tr' t, (vlanTaggerRuntime .little oneRange).Path s tr' t ∧
        (∀ e ∈ tr', e.isInner = true) ∧ AtRest .little vlanTagger (Station.process oneRange) t ∧
        ((∃ k, 0 ∈ (ledger (tr ++ tr')).tokens.held (.dropped k)) ∨
          (ledger (tr ++ tr')).sends 0 = [insertTag (paddedFrame 0) 7]) := by
  have h0 := System.Run.start (vlanTaggerStart_initial .little oneRange)
  have h1 := h0.snoc (.enter (n := .sniffer) rfl rfl rfl)
  have h2 := h1.snoc (@Step.recv _ _ _ _ _ _ _ .sniffer (paddedFrame 0) rfl rfl (by decide))
  obtain ⟨⟨tr', t, path, hinner, hrest⟩, hdrains⟩ := program_drains h2
  obtain ⟨-, hgoes, hends⟩ := hdrains tr' t path hinner
  refine ⟨_, _, h2, rfl, tr', t, path, hinner, hrest, ?_⟩
  have hfew : (handedFrames (_ ++ tr')).length ≤ 3 :=
    (handed_le_captured (vlanTagger_lane oneRange) (h2.path path)).trans
      (by rw [captured_of_inner _ hinner]; decide)
  rcases hends hrest (hgoes (undisturbed_of_inner (by simp) (by simp) hinner hfew)) 0 _ rfl with
    hdropped | hnone | ⟨f, htag, hlong | hsends⟩
  · exact .inl hdropped
  · rw [tagFrame_paddedFrame] at hnone
    cases hnone
  · rw [tagFrame_paddedFrame] at htag
    cases htag
    exact absurd hlong (by decide)
  · rw [tagFrame_paddedFrame] at htag
    cases htag
    exact .inr hsends

end VlanTagger.Pipeline
