import VlanTagger.Lib.Tokens
import VlanTagger.Pipeline.Runtime

/-!
# The account of the captured frames

Where every captured frame of a run is, by the events of the run alone: a frame is
entered when `recvfrom` returns it, and every `pop`, `push` and `sendto` moves the frame
at the head of one place to another. Frames are named by their number in the order of
capture. Whatever the events are, the account has every captured frame in exactly one
place; that its queues and buffers are those of the pipeline is proved beside the pipeline.
-/
namespace VlanTagger.Pipeline

open Lib Nodes

/-- Where a captured frame can be. -/
inductive Place (ν κ : Type*)
  | queue (k : κ)
  /-- in the hands of a node that has not passed it on yet -/
  | buffer (n : ν)
  /-- refused by a `push` -/
  | dropped (k : κ)
  /-- popped, and not passed on -/
  | discarded (n : ν)
  /-- handed to a `sendto` that failed -/
  | failed (n : ν)
  /-- handed to a `sendto` that succeeded -/
  | sent (n : ν)
  deriving DecidableEq

def Place.isHanded {ν κ : Type*} : Place ν κ → Bool
  | .failed _ => true
  | .sent _ => true
  | _ => false

structure Ledger (ν κ : Type*) where
  tokens : Tokens (List UInt8) (Place ν κ)
  /-- the calls of `sendto`: the frame number and the bytes -/
  handed : List (Nat × List UInt8)

namespace Event

variable {ν κ : Type*}

def captured : Event ν κ → Option (List UInt8)
  | .recv _ frame => some frame
  | _ => none

def handed : Event ν κ → Option (List UInt8)
  | .sendto _ frame _ => some frame
  | _ => none

end Event

/-- The frames that `recvfrom` returned. -/
def capturedFrames {ν κ : Type*} (tr : List (Event ν κ)) : List (List UInt8) :=
  tr.filterMap Event.captured

/-- Whatever holds of the frames received holds of the captured ones. -/
theorem forall_captured {ν κ : Type*} {tr : List (Event ν κ)} {P : List UInt8 → Prop}
    (h : ∀ n frame, Event.recv n frame ∈ tr → P frame) : ∀ p ∈ capturedFrames tr, P p := by
  intro p hp
  obtain ⟨e, he, hcap⟩ := List.mem_filterMap.mp hp
  cases e with
  | recv n frame =>
    cases hcap
    exact h n p he
  | _ => cases hcap

theorem capturedFrames_append {ν κ : Type*} {tr es : List (Event ν κ)} {id : Nat} {p : List UInt8}
    (hp : (capturedFrames tr)[id]? = some p) : (capturedFrames (tr ++ es))[id]? = some p := by
  rw [capturedFrames, List.filterMap_append]
  exact (List.getElem?_append_left (List.getElem?_eq_some_iff.mp hp).1).trans hp

/-- The frames of the calls of `sendto`. -/
def handedFrames {ν κ : Type*} (tr : List (Event ν κ)) : List (List UInt8) :=
  tr.filterMap Event.handed

/-! ## The calls of `sendto` -/

section

variable {ν κ : Type*}

/-- The frames handed to `sendto` are those that ended there, once each. -/
structure Ledger.HandedOnce (L : Ledger ν κ) : Prop where
  exclusive : L.tokens.Exclusive
  nodup : (L.handed.map Prod.fst).Nodup
  mem_iff : ∀ id, id ∈ L.handed.map Prod.fst ↔ ∃ p, p.isHanded = true ∧ id ∈ L.tokens.held p

/-- The frames that `sendto` got for the captured frame with this number. -/
def Ledger.sends (L : Ledger ν κ) (id : Nat) : List (List UInt8) :=
  (L.handed.filter fun x => x.1 = id).map Prod.snd

/-- In a list with one entry for each key, the entry of a key is all there is for it. -/
theorem filter_key {α : Type*} {l : List (Nat × α)} (hnodup : (l.map Prod.fst).Nodup)
    {x : Nat × α} (hx : x ∈ l) : (l.filter fun y => y.1 = x.1) = [x] := by
  induction l with
  | nil => cases hx
  | cons y l ih =>
    rw [List.map_cons, List.nodup_cons] at hnodup
    rcases List.mem_cons.mp hx with rfl | hx
    · rw [List.filter_cons, if_pos (decide_eq_true rfl), List.filter_eq_nil_iff.mpr]
      intro y hy
      rw [decide_eq_true_eq]
      intro he
      exact hnodup.1 (he ▸ List.mem_map_of_mem hy)
    · rw [List.filter_cons_of_neg, ih hnodup.2 hx]
      rw [decide_eq_true_eq]
      intro he
      exact hnodup.1 (he ▸ List.mem_map_of_mem hx)

theorem Ledger.HandedOnce.sends_of_mem {L : Ledger ν κ} (h : L.HandedOnce) {id : Nat}
    {f : List UInt8} (hmem : (id, f) ∈ L.handed) : L.sends id = [f] := by
  unfold Ledger.sends
  rw [filter_key h.nodup hmem]
  rfl

theorem Ledger.mem_of_sends {L : Ledger ν κ} {id : Nat} {f : List UInt8} (h : f ∈ L.sends id) :
    (id, f) ∈ L.handed := by
  obtain ⟨x, hx, rfl⟩ := List.mem_map.mp h
  obtain ⟨hx, hid⟩ := List.mem_filter.mp hx
  rw [decide_eq_true_eq] at hid
  rwa [← hid]

end

/-! ## The account of a run -/

section

variable {ν κ : Type*} [DecidableEq ν] [DecidableEq κ]

def Ledger.record (L : Ledger ν κ) : Event ν κ → Ledger ν κ
  | .recv n frame => { L with tokens := L.tokens.issue frame (.buffer n) }
  | .take n k effect =>
    { L with tokens :=
        L.tokens.move (.queue k) (if effect.frame.isSome then .buffer n else .discarded n) }
  | .push n k stored =>
    { L with tokens := L.tokens.move (.buffer n) (if stored then .queue k else .dropped k) }
  | .sendto n frame sent =>
    { tokens := L.tokens.move (.buffer n) (if sent then .sent n else .failed n)
      handed := L.handed ++ (L.tokens.held (.buffer n)).head?.toList.map fun id => (id, frame) }
  | _ => L

/-- The account of a run with these events. -/
def ledger (tr : List (Event ν κ)) : Ledger ν κ := tr.foldl Ledger.record ⟨.empty, []⟩

theorem ledger_snoc (tr : List (Event ν κ)) (e : Event ν κ) :
    ledger (tr ++ [e]) = (ledger tr).record e := by
  rw [ledger, List.foldl_append]
  rfl

/-- The account keeps whatever one record keeps. -/
theorem ledger_invariant {I : Ledger ν κ → Prop} (start : I ⟨.empty, []⟩)
    (step : ∀ L e, I L → I (L.record e)) (tr : List (Event ν κ)) : I (ledger tr) := by
  induction tr using List.reverseRecOn with
  | nil => exact start
  | append_singleton tr e ih =>
    rw [ledger_snoc]
    exact step _ e ih

theorem ledger_captured (tr : List (Event ν κ)) : (ledger tr).tokens.issued = capturedFrames tr := by
  induction tr using List.reverseRecOn with
  | nil => rfl
  | append_singleton tr e ih =>
    rw [ledger_snoc, capturedFrames, List.filterMap_append, ← capturedFrames, ← ih]
    cases e with
    | recv n frame => rfl
    | take n k effect => exact Tokens.issued_move.trans (List.append_nil _).symm
    | push n k stored => exact Tokens.issued_move.trans (List.append_nil _).symm
    | sendto n frame sent => exact Tokens.issued_move.trans (List.append_nil _).symm
    | _ => exact (List.append_nil _).symm

/-- A longer run only adds to what the account remembers. -/
theorem arrivals_subset_append (tr es : List (Event ν κ)) :
    (ledger tr).tokens.arrivals ⊆ (ledger (tr ++ es)).tokens.arrivals := by
  induction es using List.reverseRecOn with
  | nil =>
    rw [List.append_nil]
    exact List.Subset.refl _
  | append_singleton es e ih =>
    rw [← List.append_assoc, ledger_snoc]
    apply List.Subset.trans ih
    cases e with
    | recv n frame => exact List.subset_append_left _ _
    | take n k effect => exact Tokens.arrivals_subset_move
    | push n k stored => exact Tokens.arrivals_subset_move
    | sendto n frame sent => exact Tokens.arrivals_subset_move
    | _ => exact List.Subset.refl _

theorem record_exclusive {L : Ledger ν κ} (h : L.tokens.Exclusive) (e : Event ν κ) :
    (L.record e).tokens.Exclusive := by
  cases e with
  | recv n frame => exact h.issue frame _
  | take n k effect => exact h.move _ _
  | push n k stored => exact h.move _ _
  | sendto n frame sent => exact h.move _ _
  | _ => exact h

/-- Every captured frame is in exactly one place. -/
theorem ledger_exclusive (tr : List (Event ν κ)) : (ledger tr).tokens.Exclusive :=
  ledger_invariant (I := fun L => L.tokens.Exclusive) Tokens.exclusive_empty
    (fun _ e h => record_exclusive h e) tr

/-- A move from a place before `sendto` adds the token to the handed ones exactly if it
ends there. -/
theorem mem_handed_move {t : Tokens (List UInt8) (Place ν κ)} (h : t.Exclusive) {p q : Place ν κ}
    (hp : p.isHanded = false) {id : Nat} {ids : List Nat} (hheld : t.held p = id :: ids) (i : Nat) :
    (∃ r : Place ν κ, r.isHanded = true ∧ i ∈ (t.move p q).held r) ↔
      (∃ r : Place ν κ, r.isHanded = true ∧ i ∈ t.held r) ∨ (i = id ∧ q.isHanded = true) := by
  have hid : id ∈ t.held p := by rw [hheld]; exact List.mem_cons_self
  constructor
  · intro hi
    obtain ⟨r, hr, hmem⟩ := hi
    rcases (h.mem_move hheld).mp hmem with ⟨hi, -⟩ | ⟨rfl, rfl⟩
    · exact .inl ⟨r, hr, hi⟩
    · exact .inr ⟨rfl, hr⟩
  · intro hi
    rcases hi with ⟨r, hr, hi⟩ | ⟨rfl, hq⟩
    · refine ⟨r, hr, (h.mem_move hheld).mpr (.inl ⟨hi, fun he => ?_⟩)⟩
      -- the token that moves is in `p`, where no handed token is
      subst he
      rw [h.disjoint hi hid, hp] at hr
      cases hr
    · exact ⟨q, hq, (h.mem_move hheld).mpr (.inr ⟨rfl, rfl⟩)⟩

theorem handedOnce_move {L : Ledger ν κ} (h : L.HandedOnce) {p q : Place ν κ}
    (hp : p.isHanded = false) (hq : q.isHanded = false) :
    Ledger.HandedOnce { L with tokens := L.tokens.move p q } := by
  refine ⟨h.exclusive.move p q, h.nodup, fun i => ?_⟩
  cases hheld : L.tokens.held p with
  | nil =>
    rw [Tokens.move_of_nil hheld]
    exact h.mem_iff i
  | cons id ids =>
    rw [mem_handed_move h.exclusive hp hheld, hq]
    simpa using h.mem_iff i

theorem record_handedOnce {L : Ledger ν κ} (h : L.HandedOnce) (e : Event ν κ) :
    (L.record e).HandedOnce := by
  cases e with
  | recv n frame =>
    refine ⟨h.exclusive.issue frame _, h.nodup, fun i => ?_⟩
    show i ∈ L.handed.map Prod.fst ↔
      ∃ p, p.isHanded = true ∧ i ∈ (L.tokens.issue frame (.buffer n)).held p
    rw [h.mem_iff i]
    refine exists_congr fun p => and_congr_right fun hp => ?_
    rw [Tokens.held_issue_of_ne]
    rintro rfl
    cases hp
  | take n k effect =>
    apply handedOnce_move h rfl
    split <;> rfl
  | push n k stored =>
    apply handedOnce_move h rfl
    split <;> rfl
  | sendto n frame sent =>
    have hq : (if sent then Place.sent n else Place.failed n : Place ν κ).isHanded = true := by
      split <;> rfl
    simp only [Ledger.record]
    generalize (if sent then Place.sent n else Place.failed n : Place ν κ) = q at hq
    cases hheld : L.tokens.held (.buffer n) with
    | nil =>
      rw [Tokens.move_of_nil hheld]
      exact ⟨h.exclusive, by simpa using h.nodup, fun i => by simpa using h.mem_iff i⟩
    | cons id ids =>
      have hid : id ∈ L.tokens.held (.buffer n) := by rw [hheld]; exact List.mem_cons_self
      have hfresh : id ∉ L.handed.map Prod.fst := by
        intro hmem
        obtain ⟨p, hp, hmem⟩ := (h.mem_iff id).mp hmem
        rw [h.exclusive.disjoint hmem hid] at hp
        cases hp
      refine ⟨h.exclusive.move _ _, ?_, fun i => ?_⟩
      · show (List.map Prod.fst (L.handed ++ [(id, frame)])).Nodup
        rw [List.map_append, List.map_singleton, List.nodup_append_comm, List.singleton_append,
          List.nodup_cons]
        exact ⟨hfresh, h.nodup⟩
      · show i ∈ List.map Prod.fst (L.handed ++ [(id, frame)]) ↔ _
        rw [mem_handed_move h.exclusive rfl hheld, hq, List.map_append, List.mem_append,
          h.mem_iff i, List.map_singleton, List.mem_singleton]
        simp only [and_true]
  | _ => exact h

/-- No captured frame is handed to `sendto` twice. -/
theorem ledger_handedOnce (tr : List (Event ν κ)) : (ledger tr).HandedOnce := by
  refine ledger_invariant (I := Ledger.HandedOnce) ?_ (fun _ e h => record_handedOnce h e) tr
  refine ⟨Tokens.exclusive_empty, List.nodup_nil, fun i => ?_⟩
  simp [Tokens.empty]

end

end VlanTagger.Pipeline
