import Mathlib.Data.List.Flatten
import VlanTagger.Lib.Tokens

/-!
# Tokens on a line of places

What order tokens are in. A place gives its tokens up in the order in which they came to
it, so the ones it still holds are the last that arrived. On a line of places the tokens
are read from the far end: a move to the next place of the line leaves the reading as it
is, a move off the line takes one token out, and a token that joins at the near end comes
last. A sequence of such moves therefore keeps the order in which tokens joined.
-/
namespace VlanTagger.Lib.Tokens

variable {α π : Type*} [DecidableEq π]

/-- The tokens that have come to `p`, in the order of their arrival. -/
def arrived (t : Tokens α π) (p : π) : List Nat := (t.arrivals.filter fun x => x.2 = p).map Prod.fst

/-- The tokens on a line of places, of which the first is the far end. -/
def along {α π : Type*} (t : Tokens α π) (line : List π) : List Nat := line.flatMap t.held

variable {t t' : Tokens α π} {p q r : π} {id : Nat} {ids : List Nat}

/-! ## Arrivals -/

theorem mem_arrived : id ∈ t.arrived p ↔ (id, p) ∈ t.arrivals := by
  constructor
  · intro h
    obtain ⟨⟨i, q⟩, hx, rfl⟩ := List.mem_map.mp h
    obtain ⟨hx, hq⟩ := List.mem_filter.mp hx
    rw [← of_decide_eq_true hq]
    exact hx
  · intro h
    exact List.mem_map.mpr ⟨_, List.mem_filter.mpr ⟨h, decide_eq_true rfl⟩, rfl⟩

theorem arrived_arrive_self : (t.arrive id p).arrived p = t.arrived p ++ [id] := by
  simp [arrived]

theorem arrived_arrive_of_ne (h : p ≠ q) : (t.arrive id q).arrived p = t.arrived p := by
  simp [arrived, Ne.symm h]

theorem arrived_move_target (h : t.held p = id :: ids) :
    (t.move p q).arrived q = t.arrived q ++ [id] := by
  rw [move_of_cons h]
  exact arrived_arrive_self

theorem mem_arrivals_move (h : t.held p = id :: ids) {x : Nat × π} :
    x ∈ (t.move p q).arrivals ↔ x ∈ t.arrivals ∨ x = (id, q) := by
  rw [arrivals_move h, List.mem_append, List.mem_singleton]

theorem arrived_move_of_ne (h : r ≠ q) : (t.move p q).arrived r = t.arrived r := by
  cases hp : t.held p with
  | nil => rw [move_of_nil hp]
  | cons id ids =>
    rw [move_of_cons hp]
    exact arrived_arrive_of_ne h

/-- Every place holds the last of its arrivals. -/
def Queued (t : Tokens α π) : Prop := ∀ p, t.held p <:+ t.arrived p

theorem queued_empty : (empty : Tokens α π).Queued := fun _ => List.suffix_refl _

/-- A token that comes last is among the last. -/
theorem Queued.arrive (h : ∀ r, t.held r <:+ t.arrived r) (id : Nat) (p : π) :
    (t.arrive id p).Queued := by
  intro r
  by_cases hr : r = p
  · subst hr
    rw [held_arrive_self, arrived_arrive_self]
    obtain ⟨l, hl⟩ := h r
    exact ⟨l, by rw [← List.append_assoc, hl]⟩
  · rw [held_arrive_of_ne hr, arrived_arrive_of_ne hr]
    exact h r

theorem Queued.issue (h : t.Queued) (a : α) (p : π) : (t.issue a p).Queued :=
  Queued.arrive h t.issued.length p

theorem Queued.move (h : t.Queued) (p q : π) : (t.move p q).Queued := by
  cases hp : t.held p with
  | nil =>
    rw [move_of_nil hp]
    exact h
  | cons id ids =>
    rw [move_of_cons hp]
    refine Queued.arrive (fun r => ?_) id q
    show Function.update t.held p ids r <:+ t.arrived r
    by_cases hr : r = p
    · subst hr
      rw [Function.update_self]
      exact (List.suffix_cons id ids).trans (hp ▸ h r)
    · rw [Function.update_of_ne hr]
      exact h r

theorem Queued.mem_arrivals (h : t.Queued) (hid : id ∈ t.held p) : (id, p) ∈ t.arrivals :=
  mem_arrived.mp ((h p).subset hid)

/-! ## Lines -/

variable {line before behind : List π}

omit [DecidableEq π] in
theorem along_append : t.along (before ++ behind) = t.along before ++ t.along behind :=
  List.flatMap_append

omit [DecidableEq π] in
theorem along_cons : t.along (p :: line) = t.held p ++ t.along line := rfl

omit [DecidableEq π] in
theorem mem_along : id ∈ t.along line ↔ ∃ p ∈ line, id ∈ t.held p := List.mem_flatMap

omit [DecidableEq π] in
theorem along_congr (h : ∀ r ∈ line, t'.held r = t.held r) : t'.along line = t.along line :=
  List.flatMap_congr h

theorem along_issue_of_notMem (a : α) (hq : q ∉ line) : (t.issue a q).along line = t.along line :=
  along_congr fun _ hr => held_issue_of_ne a fun he => hq (he ▸ hr)

/-- A new token joins at the near end. -/
theorem along_issue_last (a : α) (hq : q ∉ line) :
    (t.issue a q).along (line ++ [q]) = t.along (line ++ [q]) ++ [t.issued.length] := by
  rw [along_append, along_append, along_issue_of_notMem a hq, along_cons, along_cons, held_issue_self]
  simp [along]

theorem along_move_of_notMem (hp : p ∉ line) (hq : q ∉ line) :
    (t.move p q).along line = t.along line :=
  along_congr fun _ hr => held_move_of_ne (fun he => hp (he ▸ hr)) fun he => hq (he ▸ hr)

/-- A move to the next place. -/
theorem along_move_next (hnext : [q, p] <:+: line) (hnodup : line.Nodup) :
    (t.move p q).along line = t.along line := by
  obtain ⟨before, behind, rfl⟩ := hnext
  cases hp : t.held p with
  | nil => rw [move_of_nil hp]
  | cons id ids =>
    rw [List.append_assoc] at hnodup ⊢
    obtain ⟨-, hqp, hdisj⟩ := List.nodup_append'.mp hnodup
    change (q :: p :: behind).Nodup at hqp
    rw [List.nodup_cons, List.nodup_cons, List.mem_cons, not_or] at hqp
    obtain ⟨⟨hne, hq⟩, hpb, -⟩ := hqp
    have hq' : q ∉ before := fun h => hdisj h List.mem_cons_self
    have hp' : p ∉ before := fun h => hdisj h (List.mem_cons_of_mem _ List.mem_cons_self)
    simp only [List.cons_append, List.nil_append, along_append, along_cons]
    rw [along_move_of_notMem hp' hq', along_move_of_notMem hpb hq,
      held_move_target hp (Ne.symm hne), held_move_source hp (Ne.symm hne), hp]
    simp

/-- A move off the line. -/
theorem along_move_out (hq : q ∉ line) : ((t.move p q).along line).Sublist (t.along line) := by
  induction line with
  | nil => exact List.Sublist.refl _
  | cons r line ih =>
    rw [List.mem_cons, not_or] at hq
    rw [along_cons, along_cons]
    refine List.Sublist.append ?_ (ih hq.2)
    by_cases hr : r = p
    · subst hr
      cases hp : t.held r with
      | nil => rw [move_of_nil hp, hp]
      | cons id ids =>
        rw [held_move_source hp (Ne.symm hq.1)]
        exact List.sublist_cons_self id ids
    · rw [held_move_of_ne hr (Ne.symm hq.1)]

/-- A move off the far end. -/
theorem along_move_first (hheld : t.held p = id :: ids) (hp : p ∉ line) (hq : q ∉ p :: line) :
    t.along (p :: line) = id :: (t.move p q).along (p :: line) := by
  rw [List.mem_cons, not_or] at hq
  rw [along_cons, along_cons, along_move_of_notMem hp hq.2, held_move_source hheld (Ne.symm hq.1),
    hheld]
  rfl

/-- A token joins at the near end. -/
theorem along_move_last (hheld : t.held p = id :: ids) (hp : p ∉ line ++ [q]) (hq : q ∉ line) :
    (t.move p q).along (line ++ [q]) = t.along (line ++ [q]) ++ [id] := by
  rw [List.mem_append, not_or, List.mem_singleton] at hp
  rw [along_append, along_append, along_move_of_notMem hp.1 hq, along_cons, along_cons,
    held_move_target hheld hp.2]
  simp [along]

/-- Tokens that do not count may join anywhere. -/
theorem along_move_filter {W : Nat → Bool} (hheld : t.held p = id :: ids) (hp : p ∉ line)
    (hid : W id = false) : ((t.move p q).along line).filter W = (t.along line).filter W := by
  induction line with
  | nil => rfl
  | cons r line ih =>
    rw [List.mem_cons, not_or] at hp
    rw [along_cons, along_cons, List.filter_append, List.filter_append, ih hp.2]
    congr 1
    by_cases hr : r = q
    · subst hr
      rw [held_move_target hheld hp.1, List.filter_append, List.filter_singleton, hid]
      exact List.append_nil _
    · rw [held_move_of_ne (Ne.symm hp.1) hr]

end VlanTagger.Lib.Tokens
