import Mathlib.Data.List.Flatten
import Mathlib.Data.List.Perm.Subperm
import Mathlib.Logic.Function.Basic

/-!
# Items that flow through a network and may be copied

A node takes items in, one after the other, and makes at most one item of each; what it
made last it offers to channels, one after the other, and a channel accepts it or not. The
account keeps what every node has taken in and made and what the channels have accepted.
`InOrder` says that a node has taken in a prefix of what its channel accepted. `Once` says
that a group of channels has accepted a subsequence of what a node made; it holds of
every group in which the node offers no item twice, one channel of a node that copies
its items as well as all channels of a node that picks one channel for each item.
-/
namespace VlanTagger.Lib

structure Flow (ν κ α : Type*) where
  /-- what a node has taken in, each with what the node made of it -/
  worked : ν → List (α × Option α)
  /-- what the channels have accepted, with the node it came from -/
  stored : List (ν × κ × α)
  /-- the channels to which a node has still to offer the item that it made last -/
  todo : ν → List κ

/-- A list is a permutation of its parts by a key. -/
theorem perm_flatMap_key {α γ : Type*} [DecidableEq γ] (key : α → γ) {cs : List γ}
    (hcs : cs.Nodup) {l : List α} (h : ∀ x ∈ l, key x ∈ cs) :
    l.Perm (cs.flatMap fun c => l.filter fun x => key x = c) := by
  induction cs generalizing l with
  | nil =>
    cases l with
    | nil => exact .nil
    | cons x l => exact absurd (h x List.mem_cons_self) List.not_mem_nil
  | cons c cs ih =>
    obtain ⟨hc, hcs⟩ := List.nodup_cons.mp hcs
    have hrest := @ih hcs (l.filter fun x => ¬ key x = c) fun x hx => by
      obtain ⟨hx, hne⟩ := List.mem_filter.mp hx
      exact (List.mem_cons.mp (h x hx)).resolve_left (of_decide_eq_true hne)
    -- the parts of the other keys are those of what is left
    have hparts : (cs.flatMap fun c' => (l.filter fun x => ¬ key x = c).filter fun x => key x = c') =
        cs.flatMap fun c' => l.filter fun x => key x = c' := by
      rw [List.flatMap_def, List.flatMap_def]
      refine congrArg List.flatten (List.map_congr_left fun c' hc' => ?_)
      rw [List.filter_filter]
      refine List.filter_congr fun x _ => ?_
      by_cases hx : key x = c'
      · have hne : ¬ key x = c := fun he => hc (by rwa [← he, hx])
        simp only [hx, decide_true, Bool.true_and, decide_eq_true_eq]
        rwa [hx] at hne
      · simp only [hx, decide_false, Bool.false_and]
    rw [hparts] at hrest
    have hsplit := List.filter_append_perm (fun x => decide (key x = c)) l
    have hneg : (l.filter fun x => !decide (key x = c)) = l.filter fun x => ¬ key x = c :=
      List.filter_congr fun x _ => (decide_not).symm
    rw [hneg] at hsplit
    exact hsplit.symm.trans (hrest.append_left _)

namespace Flow

variable {ν κ α : Type*}

def empty : Flow ν κ α := ⟨fun _ => [], [], fun _ => []⟩

section

variable (f : Flow ν κ α)

/-- What a node has taken in. -/
def got (n : ν) : List α := (f.worked n).map Prod.fst

/-- What a node has made. -/
def made (n : ν) : List α := (f.worked n).filterMap Prod.snd

/-- What was accepted from the nodes and by the channels of `Q`. -/
def select (Q : ν → κ → Bool) : List α :=
  (f.stored.filter fun x => Q x.1 x.2.1).map fun x => x.2.2

/-- What a channel has accepted. -/
def accepted [DecidableEq κ] (k : κ) : List α := f.select fun _ k' => k' = k

/-- What the channel of a node has accepted and the node not taken in. -/
def waiting [DecidableEq κ] (n : ν) (k : κ) : List α := (f.accepted k).drop (f.worked n).length

variable [DecidableEq ν]

/-- What the channels of `P` have accepted from a node. -/
def sentTo (n : ν) (P : κ → Bool) : List α := f.select fun m k => m = n && P k

/-- A node takes in `a`, makes `out` of it, and is about to offer that to `targets`. -/
def work (n : ν) (a : α) (out : Option α) (targets : List κ) : Flow ν κ α :=
  { f with
    worked := Function.update f.worked n (f.worked n ++ [(a, out)])
    todo := Function.update f.todo n targets }

/-- A node takes in what waits for it first. -/
def take [DecidableEq κ] (n : ν) (k : κ) (out : Option α) (targets : List κ) : Flow ν κ α :=
  match f.waiting n k with
  | [] => f
  | a :: _ => f.work n a out targets

/-- A node offers what it made last to the next channel. -/
def offer (n : ν) (accept : Bool) : Flow ν κ α :=
  match f.todo n with
  | [] => f
  | k :: ks =>
    { f with
      todo := Function.update f.todo n ks
      stored := if accept then f.stored ++ (f.made n).getLast?.toList.map fun a => (n, k, a)
        else f.stored }

end

/-- The node has taken in a prefix of what its channel has accepted. -/
def InOrder [DecidableEq κ] (f : Flow ν κ α) (n : ν) (k : κ) : Prop := f.got n <+: f.accepted k

/-- The channels of `P` have accepted a subsequence of what the node made and has offered
to them; at most one of them is still to come for the last item. -/
structure Once [DecidableEq ν] (f : Flow ν κ α) (n : ν) (P : κ → Bool) : Prop where
  todo_le : (f.todo n).countP P ≤ 1
  sublist : (f.sentTo n P).Sublist ((f.made n).take ((f.made n).length - (f.todo n).countP P))

section

variable [DecidableEq κ] {f : Flow ν κ α} {n : ν} {k : κ}

theorem InOrder.empty (n : ν) (k : κ) : (Flow.empty : Flow ν κ α).InOrder n k := List.prefix_refl _

/-- What is not taken in yet is waiting. -/
theorem InOrder.accepted_eq (h : f.InOrder n k) : f.accepted k = f.got n ++ f.waiting n k := by
  obtain ⟨rest, hrest⟩ := h
  have hl : (f.got n).length = (f.worked n).length := List.length_map _
  rw [waiting, ← hrest, ← hl, List.drop_left]

end

variable [DecidableEq ν] {f : Flow ν κ α} {m n : ν} {k : κ} {ks targets : List κ}
  {a : α} {as : List α} {out : Option α} {accept : Bool} {Q : ν → κ → Bool} {P : κ → Bool}

/-! ## The operations, part by part -/

theorem worked_work_self : (f.work n a out targets).worked n = f.worked n ++ [(a, out)] :=
  Function.update_self ..

theorem worked_work_of_ne (h : m ≠ n) : (f.work n a out targets).worked m = f.worked m :=
  Function.update_of_ne h ..

theorem todo_work_self : (f.work n a out targets).todo n = targets := Function.update_self ..

theorem todo_work_of_ne (h : m ≠ n) : (f.work n a out targets).todo m = f.todo m :=
  Function.update_of_ne h ..

theorem got_work_self : (f.work n a out targets).got n = f.got n ++ [a] := by
  rw [got, worked_work_self, List.map_append]
  rfl

theorem got_work_of_ne (h : m ≠ n) : (f.work n a out targets).got m = f.got m := by
  rw [got, worked_work_of_ne h, ← got]

theorem made_work_self : (f.work n a out targets).made n = f.made n ++ out.toList := by
  rw [made, worked_work_self, List.filterMap_append]
  cases out <;> rfl

theorem made_work_of_ne (h : m ≠ n) : (f.work n a out targets).made m = f.made m := by
  rw [made, worked_work_of_ne h, ← made]

theorem take_of_cons [DecidableEq κ] (h : f.waiting n k = a :: as) :
    f.take n k out targets = f.work n a out targets := by
  rw [take, h]

theorem got_take_of_ne [DecidableEq κ] (h : m ≠ n) : (f.take n k out targets).got m = f.got m := by
  unfold take
  split
  · rfl
  · exact got_work_of_ne h

@[simp] theorem select_take [DecidableEq κ] : (f.take n k out targets).select Q = f.select Q := by
  unfold take
  split <;> rfl

@[simp] theorem worked_offer : (f.offer n accept).worked = f.worked := by
  unfold offer
  cases f.todo n <;> rfl

@[simp] theorem got_offer : (f.offer n accept).got m = f.got m := by
  rw [got, worked_offer, ← got]

@[simp] theorem made_offer : (f.offer n accept).made m = f.made m := by
  rw [made, worked_offer, ← made]

theorem todo_offer_self (h : f.todo n = k :: ks) : (f.offer n accept).todo n = ks := by
  unfold offer
  rw [h]
  exact Function.update_self ..

theorem todo_offer_of_ne (h : m ≠ n) : (f.offer n accept).todo m = f.todo m := by
  unfold offer
  cases f.todo n with
  | nil => rfl
  | cons k ks => exact Function.update_of_ne h ..

theorem stored_offer (h : f.todo n = k :: ks) : (f.offer n accept).stored =
    if accept then f.stored ++ (f.made n).getLast?.toList.map fun a => (n, k, a) else f.stored := by
  unfold offer
  rw [h]

theorem select_offer (h : f.todo n = k :: ks) : (f.offer n accept).select Q =
    f.select Q ++ if accept && Q n k then (f.made n).getLast?.toList else [] := by
  unfold select
  rw [stored_offer h]
  cases accept with
  | false => exact (List.append_nil _).symm
  | true =>
    simp only [if_true, Bool.true_and, List.filter_append, List.map_append]
    congr 1
    cases (f.made n).getLast? with
    | none => cases Q n k <;> rfl
    | some a => cases hq : Q n k <;> simp [hq]

/-- What was accepted stays accepted. -/
theorem select_prefix_offer : f.select Q <+: (f.offer n accept).select Q := by
  cases h : f.todo n with
  | nil =>
    have hsame : f.offer n accept = f := by rw [offer, h]
    exact hsame.symm ▸ List.prefix_rfl
  | cons k ks =>
    rw [select_offer h]
    exact List.prefix_append _ _

/-! ## No item is offered twice -/

namespace Once

theorem empty (n : ν) (P : κ → Bool) : (Flow.empty : Flow ν κ α).Once n P :=
  ⟨Nat.zero_le 1, List.Sublist.refl []⟩

theorem sentTo_sublist (h : f.Once n P) : (f.sentTo n P).Sublist (f.made n) :=
  h.sublist.trans (List.take_sublist _ _)

theorem offer_of_ne (h : f.Once m P) (hne : m ≠ n) : (f.offer n accept).Once m P := by
  have hsent : (f.offer n accept).sentTo m P = f.sentTo m P := by
    cases hk : f.todo n with
    | nil =>
      unfold Flow.offer
      rw [hk]
    | cons k ks =>
      unfold sentTo
      rw [select_offer hk]
      simp only [hne.symm, decide_false, Bool.false_and, Bool.and_false, Bool.false_eq_true, if_false,
        List.append_nil]
  constructor
  · rw [todo_offer_of_ne hne]
    exact h.todo_le
  · rw [hsent, made_offer, todo_offer_of_ne hne]
    exact h.sublist

/-- The last item is offered to one more channel. -/
theorem offer (h : f.Once n P) (hk : f.todo n = k :: ks) (hmade : f.made n ≠ []) :
    (f.offer n accept).Once n P := by
  obtain ⟨prior, last, hlast⟩ := List.eq_nil_or_concat (f.made n) |>.resolve_left hmade
  obtain ⟨hle, hsub⟩ := h
  rw [List.concat_eq_append] at hlast
  rw [hk, List.countP_cons] at hle hsub
  have hget : (f.made n).getLast?.toList = [last] := by rw [hlast, List.getLast?_concat]; rfl
  have hsent : (f.offer n accept).sentTo n P =
      f.sentTo n P ++ if accept && P k then [last] else [] := by
    unfold sentTo
    rw [select_offer hk, hget]
    simp only [decide_true, Bool.true_and]
  refine ⟨?_, ?_⟩
  · rw [todo_offer_self hk]
    omega
  · rw [hsent, made_offer, todo_offer_self hk]
    cases hp : P k with
    | false =>
      rw [hp] at hsub
      simpa only [Bool.and_false, Bool.false_eq_true, if_false, List.append_nil, Nat.add_zero] using hsub
    | true =>
      -- no other channel of the group is to come, and this one got nothing of the last item yet
      rw [hp] at hle hsub
      simp only [if_true] at hle hsub
      have hzero : ks.countP P = 0 := by omega
      have hprior : (f.made n).take ((f.made n).length - 1) = prior := by
        rw [hlast, List.length_append, List.length_singleton, Nat.add_sub_cancel, List.take_left]
      rw [hzero, Nat.zero_add, hprior] at hsub
      rw [hzero, Nat.sub_zero, List.take_length, hlast]
      apply hsub.append
      split
      · exact List.Sublist.refl _
      · exact List.nil_sublist _

theorem work_of_ne (h : f.Once m P) (hne : m ≠ n) : (f.work n a out targets).Once m P := by
  constructor
  · rw [todo_work_of_ne hne]
    exact h.todo_le
  · rw [made_work_of_ne hne, todo_work_of_ne hne]
    exact h.sublist

/-- The node takes in the next item; of the last one nothing more is offered. -/
theorem work (h : f.Once n P) (htargets : targets.countP P ≤ 1)
    (hout : targets ≠ [] → out.isSome = true) : (f.work n a out targets).Once n P := by
  have hsub := h.sentTo_sublist
  refine ⟨by rwa [todo_work_self], ?_⟩
  rw [made_work_self, todo_work_self]
  show (f.sentTo n P).Sublist _
  cases out with
  | none =>
    have hnil : targets = [] := by
      by_contra hne
      cases hout hne
    rw [hnil, List.countP_nil, Nat.sub_zero, List.take_length]
    exact hsub.trans (List.sublist_append_left _ _)
  | some b =>
    have hlen : (f.made n).length ≤ (f.made n ++ [b]).length - targets.countP P := by
      rw [List.length_append, List.length_singleton]
      omega
    have htake : (f.made n).Sublist
        ((f.made n ++ [b]).take ((f.made n ++ [b]).length - targets.countP P)) := by
      exact (List.prefix_take_iff.mpr ⟨List.prefix_append _ _, hlen⟩).sublist
    exact hsub.trans htake

end Once
/-! ## Channels keep the order -/

variable [DecidableEq κ]

namespace InOrder

theorem offer (h : f.InOrder n k) (m : ν) (accept : Bool) : (f.offer m accept).InOrder n k := by
  unfold InOrder got
  rw [worked_offer]
  exact List.IsPrefix.trans h select_prefix_offer

theorem work_of_ne (h : f.InOrder m k) (hne : m ≠ n) : (f.work n a out targets).InOrder m k := by
  unfold InOrder got
  rw [worked_work_of_ne hne]
  exact h

/-- The first waiting item is taken in. -/
theorem work (h : f.InOrder n k) (hw : f.waiting n k = a :: as) :
    (f.work n a out targets).InOrder n k := by
  unfold InOrder
  rw [got_work_self]
  refine ⟨as, ?_⟩
  rw [List.append_assoc, List.singleton_append, ← hw]
  exact h.accepted_eq.symm

end InOrder

theorem waiting_work (h : f.waiting n k = a :: as) : (f.work n a out targets).waiting n k = as := by
  show (f.accepted k).drop ((f.work n a out targets).worked n).length = as
  rw [worked_work_self, List.length_append, List.length_singleton, ← List.drop_drop]
  change List.drop 1 (f.waiting n k) = as
  rw [h]
  rfl

theorem waiting_work_of_ne (h : m ≠ n) :
    (f.work n a out targets).waiting m k = f.waiting m k := by
  show (f.accepted k).drop ((f.work n a out targets).worked m).length = _
  rw [worked_work_of_ne h]
  rfl

/-- What is accepted waits behind the rest. -/
theorem waiting_offer {k' : κ} (ho : f.InOrder m k') (h : f.todo n = k :: ks) :
    (f.offer n accept).waiting m k' =
      f.waiting m k' ++ if accept && decide (k = k') then (f.made n).getLast?.toList else [] := by
  have hl : (f.worked m).length ≤ (f.accepted k').length := by
    rw [← @List.length_map _ _ (f.worked m) Prod.fst]
    exact ho.length_le
  unfold waiting
  rw [worked_offer, ← List.drop_append_of_le_length hl]
  exact congrArg _ (select_offer h)

/-! ## What comes together and what is spread -/

omit [DecidableEq ν] [DecidableEq κ] in
/-- A node that makes `g a` of every `a`. -/
theorem made_eq_filterMap {g : α → Option α} (h : ∀ x ∈ f.worked n, x.2 = g x.1) :
    f.made n = (f.got n).filterMap g := by
  rw [made, got, List.filterMap_map]
  exact List.filterMap_congr h

/-- A channel with one producer has accepted a subsequence of what that made. -/
theorem accepted_sublist (hfrom : ∀ x ∈ f.stored, x.2.1 = k → x.1 = n)
    (honce : f.Once n fun k' => k' = k) : (f.accepted k).Sublist (f.made n) := by
  have hsame : f.accepted k = f.sentTo n fun k' => k' = k := by
    refine congrArg (List.map _) (List.filter_congr fun x hx => ?_)
    by_cases hk : x.2.1 = k
    · simp only [hfrom x hx hk, decide_true, Bool.true_and]
    · simp only [hk, decide_false, Bool.and_false]
  rw [hsame]
  exact honce.sentTo_sublist

/-- A channel has accepted a part of what its producers have made. -/
theorem accepted_subperm {ns : List ν} (hns : ns.Nodup)
    (hfrom : ∀ x ∈ f.stored, x.2.1 = k → x.1 ∈ ns)
    (honce : ∀ n ∈ ns, f.Once n fun k' => k' = k) :
    (f.accepted k).Subperm (ns.flatMap f.made) := by
  have hparts := perm_flatMap_key (fun x : ν × κ × α => x.1) hns
    (l := f.stored.filter fun x => x.2.1 = k) fun x hx => by
      obtain ⟨hx, hk⟩ := List.mem_filter.mp hx
      exact hfrom x hx (of_decide_eq_true hk)
  have hperm := hparts.map fun x => x.2.2
  rw [List.map_flatMap] at hperm
  refine hperm.subperm.trans (List.Sublist.subperm (List.Sublist.flatMap_right ns fun n hn => ?_))
  rw [List.filter_filter]
  have hsent := (honce n hn).sentTo_sublist
  unfold sentTo select at hsent
  exact hsent

/-- The channels that one node feeds have together accepted a part of what it made, if it
offers an item to one of them only. -/
theorem spread_subperm {ks : List κ} (hks : ks.Nodup)
    (hfrom : ∀ x ∈ f.stored, x.2.1 ∈ ks → x.1 = n) (honce : f.Once n fun k' => k' ∈ ks) :
    (ks.flatMap f.accepted).Subperm (f.made n) := by
  have hparts := perm_flatMap_key (fun x : ν × κ × α => x.2.1) hks
    (l := f.stored.filter fun x => x.2.1 ∈ ks) fun x hx => of_decide_eq_true (List.mem_filter.mp hx).2
  have hperm := hparts.map fun x => x.2.2
  rw [List.map_flatMap] at hperm
  -- what they accepted, channel by channel and in the order of acceptance
  have hsame : (ks.flatMap fun k => ((f.stored.filter fun x => x.2.1 ∈ ks).filter fun x =>
      x.2.1 = k).map fun x => x.2.2) = ks.flatMap f.accepted := by
    rw [List.flatMap_def, List.flatMap_def]
    refine congrArg List.flatten (List.map_congr_left fun k hk => ?_)
    rw [List.filter_filter]
    refine congrArg (List.map _) (List.filter_congr fun x _ => ?_)
    by_cases hx : x.2.1 = k
    · simp only [hx, hk, decide_true, Bool.true_and]
    · simp only [hx, decide_false, Bool.false_and]
  have hsent : (f.stored.filter fun x => x.2.1 ∈ ks).map (fun x => x.2.2) =
      f.sentTo n fun k' => k' ∈ ks := by
    refine congrArg (List.map _) (List.filter_congr fun x hx => ?_)
    by_cases hk : x.2.1 ∈ ks
    · simp only [hfrom x hx hk, decide_true, Bool.true_and]
    · simp only [hk, decide_false, Bool.and_false]
  rw [hsame, hsent] at hperm
  exact hperm.symm.subperm.trans honce.sentTo_sublist.subperm

end Flow
end VlanTagger.Lib
