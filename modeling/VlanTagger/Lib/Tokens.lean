import Mathlib.Data.List.Nodup
import Mathlib.Logic.Function.Basic

/-!
# Tokens that move from place to place

An account of what happens to things that are never copied: every item that is issued
gets the next number as its token, and a token is moved on from the head of one place to
the end of another. `Exclusive` says that every issued token is in exactly one place and
stands there once; both operations keep it whatever the order in which they are used, so
the account of a run needs no assumption about the run. `arrivals` remembers every place
a token has come to, and `Stays` says what follows for a region that no move leaves.
-/
namespace VlanTagger.Lib

structure Tokens (α π : Type*) where
  issued : List α
  held : π → List Nat
  arrivals : List (Nat × π)

namespace Tokens

variable {α π : Type*}

def empty : Tokens α π := ⟨[], fun _ => [], []⟩

/-- Every issued token is in one place, once. -/
structure Exclusive (t : Tokens α π) : Prop where
  lt_of_held : ∀ {id : Nat} {p : π}, id ∈ t.held p → id < t.issued.length
  nodup : ∀ p, (t.held p).Nodup
  disjoint : ∀ {id : Nat} {p q : π}, id ∈ t.held p → id ∈ t.held q → p = q
  placed : ∀ {id : Nat}, id < t.issued.length → ∃ p, id ∈ t.held p

theorem exclusive_empty : (empty : Tokens α π).Exclusive := by
  constructor
  · intro id p h
    cases h
  · intro p
    exact List.nodup_nil
  · intro id p q h
    cases h
  · intro id h
    cases h

theorem Exclusive.existsUnique {t : Tokens α π} (h : t.Exclusive) {id : Nat}
    (hid : id < t.issued.length) : ∃! p, id ∈ t.held p := by
  obtain ⟨p, hp⟩ := h.placed hid
  exact ⟨p, hp, fun q hq => h.disjoint hq hp⟩

/-- Every token that has come to a place of `P` is still in one. -/
def Stays (P : π → Prop) (t : Tokens α π) : Prop :=
  ∀ id p, (id, p) ∈ t.arrivals → P p → ∃ q, P q ∧ id ∈ t.held q

theorem stays_empty (P : π → Prop) : (empty : Tokens α π).Stays P := by
  intro id p h
  cases h

variable [DecidableEq π]

def arrive (t : Tokens α π) (id : Nat) (p : π) : Tokens α π :=
  { t with held := Function.update t.held p (t.held p ++ [id]), arrivals := t.arrivals ++ [(id, p)] }

/-- A new item, in the place `p`. -/
def issue (t : Tokens α π) (a : α) (p : π) : Tokens α π :=
  { t.arrive t.issued.length p with issued := t.issued ++ [a] }

/-- The head of `p` moves to the end of `q`. -/
def move (t : Tokens α π) (p q : π) : Tokens α π :=
  match t.held p with
  | [] => t
  | id :: ids => arrive { t with held := Function.update t.held p ids } id q

/-! ## The operations, place by place -/

section

variable {t : Tokens α π} {p q r : π} {id : Nat} {ids : List Nat}

@[simp] theorem issued_arrive : (t.arrive id p).issued = t.issued := rfl

@[simp] theorem arrivals_arrive : (t.arrive id p).arrivals = t.arrivals ++ [(id, p)] := rfl

@[simp] theorem held_arrive_self : (t.arrive id p).held p = t.held p ++ [id] :=
  Function.update_self ..

theorem held_arrive_of_ne (h : q ≠ p) : (t.arrive id p).held q = t.held q :=
  Function.update_of_ne h ..

theorem mem_held_arrive {i : Nat} :
    i ∈ (t.arrive id p).held q ↔ i ∈ t.held q ∨ (i = id ∧ q = p) := by
  by_cases h : q = p
  · subst h
    simp
  · rw [held_arrive_of_ne h]
    simp [h]

@[simp] theorem issued_issue (a : α) : (t.issue a p).issued = t.issued ++ [a] := rfl

@[simp] theorem arrivals_issue (a : α) :
    (t.issue a p).arrivals = t.arrivals ++ [(t.issued.length, p)] := rfl

@[simp] theorem held_issue_self (a : α) : (t.issue a p).held p = t.held p ++ [t.issued.length] :=
  Function.update_self ..

theorem held_issue_of_ne (a : α) (h : q ≠ p) : (t.issue a p).held q = t.held q :=
  Function.update_of_ne h ..

theorem move_of_nil (h : t.held p = []) : t.move p q = t := by
  rw [move, h]

theorem move_of_cons (h : t.held p = id :: ids) :
    t.move p q = arrive { t with held := Function.update t.held p ids } id q := by
  rw [move, h]

@[simp] theorem issued_move : (t.move p q).issued = t.issued := by
  cases h : t.held p with
  | nil => rw [move_of_nil h]
  | cons id ids => rw [move_of_cons h, issued_arrive]

theorem held_move_source (h : t.held p = id :: ids) (hne : p ≠ q) : (t.move p q).held p = ids := by
  rw [move_of_cons h, held_arrive_of_ne hne]
  exact Function.update_self ..

theorem held_move_target (h : t.held p = id :: ids) (hne : p ≠ q) :
    (t.move p q).held q = t.held q ++ [id] := by
  rw [move_of_cons h, held_arrive_self]
  exact congrArg (fun l => l ++ [id]) (Function.update_of_ne hne.symm ..)

theorem held_move_of_ne (hp : r ≠ p) (hq : r ≠ q) : (t.move p q).held r = t.held r := by
  cases h : t.held p with
  | nil => rw [move_of_nil h]
  | cons id ids =>
    rw [move_of_cons h, held_arrive_of_ne hq]
    exact Function.update_of_ne hp ..

theorem arrivals_subset_move : t.arrivals ⊆ (t.move p q).arrivals := by
  cases h : t.held p with
  | nil =>
    rw [move_of_nil h]
    exact List.Subset.refl _
  | cons id ids =>
    rw [move_of_cons h]
    exact List.subset_append_left _ _

theorem arrivals_move (h : t.held p = id :: ids) :
    (t.move p q).arrivals = t.arrivals ++ [(id, q)] := by
  rw [move_of_cons h, arrivals_arrive]

end

/-! ## Every token is in one place -/

namespace Exclusive

variable {t : Tokens α π} {p q : π} {id : Nat} {ids : List Nat}

theorem issue (h : t.Exclusive) (a : α) (p : π) : (t.issue a p).Exclusive := by
  have hfresh : ∀ q, t.issued.length ∉ t.held q := fun q hq => absurd (h.lt_of_held hq) (by omega)
  have hmem : ∀ {i : Nat} {q : π}, i ∈ (t.issue a p).held q →
      i ∈ t.held q ∨ (i = t.issued.length ∧ q = p) := fun hi => mem_held_arrive.mp hi
  constructor
  · intro i q hi
    rw [issued_issue, List.length_append, List.length_singleton]
    rcases hmem hi with hi | ⟨rfl, -⟩
    · have hlt := h.lt_of_held hi
      omega
    · omega
  · intro q
    by_cases hq : q = p
    · subst hq
      rw [held_issue_self, List.nodup_append_comm, List.singleton_append, List.nodup_cons]
      exact ⟨hfresh q, h.nodup q⟩
    · rw [held_issue_of_ne a hq]
      exact h.nodup q
  · intro i q r hq hr
    rcases hmem hq with hq | ⟨rfl, rfl⟩
    · rcases hmem hr with hr | ⟨rfl, -⟩
      · exact h.disjoint hq hr
      · exact absurd hq (hfresh q)
    · rcases hmem hr with hr | ⟨-, rfl⟩
      · exact absurd hr (hfresh r)
      · rfl
  · intro i hi
    rw [issued_issue, List.length_append, List.length_singleton] at hi
    by_cases hlast : i = t.issued.length
    · exact ⟨p, mem_held_arrive.mpr (.inr ⟨hlast, rfl⟩)⟩
    · obtain ⟨q, hq⟩ := h.placed (by omega : i < t.issued.length)
      exact ⟨q, mem_held_arrive.mpr (.inl hq)⟩

/-- The head of a place is nowhere else, so taking it out frees it. -/
theorem mem_move (h : t.Exclusive) (hp : t.held p = id :: ids) {i : Nat} {r : π} :
    i ∈ (t.move p q).held r ↔ (i ∈ t.held r ∧ i ≠ id) ∨ (i = id ∧ r = q) := by
  have hid : id ∈ t.held p := by rw [hp]; exact List.mem_cons_self
  have hnot : id ∉ ids := by
    have hn := h.nodup p
    rw [hp] at hn
    exact (List.nodup_cons.mp hn).1
  rw [move_of_cons hp, mem_held_arrive]
  refine or_congr ?_ Iff.rfl
  show i ∈ Function.update t.held p ids r ↔ _
  by_cases hr : r = p
  · subst hr
    rw [Function.update_self, hp, List.mem_cons]
    constructor
    · intro hi
      exact ⟨.inr hi, fun he => hnot (he ▸ hi)⟩
    · intro hi
      exact hi.1.resolve_left hi.2
  · rw [Function.update_of_ne hr]
    constructor
    · intro hi
      exact ⟨hi, fun he => hr (h.disjoint (he ▸ hi) hid)⟩
    · exact And.left

theorem nodup_move (h : t.Exclusive) (hp : t.held p = id :: ids) (r : π) :
    ((t.move p q).held r).Nodup := by
  have hn := h.nodup p
  rw [hp, List.nodup_cons] at hn
  have hrest : (Function.update t.held p ids r).Nodup := by
    by_cases hr : r = p
    · subst hr
      rw [Function.update_self]
      exact hn.2
    · rw [Function.update_of_ne hr]
      exact h.nodup r
  by_cases hr : r = q
  · subst hr
    have hout : id ∉ Function.update t.held p ids r := by
      by_cases hrp : r = p
      · subst hrp
        rw [Function.update_self]
        exact hn.1
      · rw [Function.update_of_ne hrp]
        intro hi
        exact hrp (h.disjoint hi (by rw [hp]; exact List.mem_cons_self))
    rw [move_of_cons hp, held_arrive_self, List.nodup_append_comm, List.singleton_append,
      List.nodup_cons]
    exact ⟨hout, hrest⟩
  · rw [move_of_cons hp, held_arrive_of_ne hr]
    exact hrest

theorem move (h : t.Exclusive) (p q : π) : (t.move p q).Exclusive := by
  cases hp : t.held p with
  | nil =>
    rw [move_of_nil hp]
    exact h
  | cons id ids =>
    have hid : id ∈ t.held p := by rw [hp]; exact List.mem_cons_self
    constructor
    · intro i r hi
      rw [issued_move]
      rcases (h.mem_move hp).mp hi with ⟨hi, -⟩ | ⟨rfl, -⟩
      · exact h.lt_of_held hi
      · exact h.lt_of_held hid
    · exact fun r => h.nodup_move hp r
    · intro i r r' hi hi'
      rcases (h.mem_move hp).mp hi with ⟨hr, hne⟩ | ⟨rfl, rfl⟩
      · rcases (h.mem_move hp).mp hi' with ⟨hr', -⟩ | ⟨he, -⟩
        · exact h.disjoint hr hr'
        · exact absurd he hne
      · rcases (h.mem_move hp).mp hi' with ⟨-, hne⟩ | ⟨-, rfl⟩
        · exact absurd rfl hne
        · rfl
    · intro i hi
      rw [issued_move] at hi
      by_cases he : i = id
      · exact ⟨q, (h.mem_move hp).mpr (.inr ⟨he, rfl⟩)⟩
      · obtain ⟨r, hr⟩ := h.placed hi
        exact ⟨r, (h.mem_move hp).mpr (.inl ⟨hr, he⟩)⟩

end Exclusive

/-! ## Regions that are not left -/

theorem Stays.issue {P : π → Prop} {t : Tokens α π} (h : t.Stays P) (a : α) (p : π) :
    (t.issue a p).Stays P := by
  intro i r hi hr
  rw [arrivals_issue, List.mem_append, List.mem_singleton] at hi
  rcases hi with hi | hi
  · obtain ⟨q, hq, hheld⟩ := h i r hi hr
    exact ⟨q, hq, mem_held_arrive.mpr (.inl hheld)⟩
  · obtain ⟨rfl, rfl⟩ := Prod.mk.inj hi
    exact ⟨_, hr, mem_held_arrive.mpr (.inr ⟨rfl, rfl⟩)⟩

theorem Stays.move {P : π → Prop} {t : Tokens α π} (h : t.Stays P) (he : t.Exclusive) {p q : π}
    (hclosed : P p → P q) : (t.move p q).Stays P := by
  cases hp : t.held p with
  | nil =>
    rw [move_of_nil hp]
    exact h
  | cons id ids =>
    have hid : id ∈ t.held p := by rw [hp]; exact List.mem_cons_self
    intro i r hi hr
    rw [arrivals_move hp, List.mem_append, List.mem_singleton] at hi
    rcases hi with hi | hi
    · obtain ⟨r', hr', hheld⟩ := h i r hi hr
      by_cases heq : i = id
      · -- the token that moves was in `P`, and then so is its new place
        subst heq
        have hpp : P p := he.disjoint hheld hid ▸ hr'
        exact ⟨q, hclosed hpp, (he.mem_move hp).mpr (.inr ⟨rfl, rfl⟩)⟩
      · exact ⟨r', hr', (he.mem_move hp).mpr (.inl ⟨hheld, heq⟩)⟩
    · obtain ⟨rfl, rfl⟩ := Prod.mk.inj hi
      exact ⟨_, hr, (he.mem_move hp).mpr (.inr ⟨rfl, rfl⟩)⟩

end Tokens
end VlanTagger.Lib
