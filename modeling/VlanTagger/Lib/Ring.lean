import Mathlib.Data.Fin.Basic
import Mathlib.Data.Nat.ModEq
import Mathlib.Logic.Function.Basic
import Mathlib.Tactic.Common

/-!
# Ring buffers whose occupancy is marked slot by slot

A ring of `n` slots with a front and a rear index and no element counter: a slot
is either marked empty or holds an element. `Represents r items` says that the
elements, in order, stand in the slots from the front on and that every other
slot is empty. Fullness is read off the rear slot and emptiness off the front
slot; `rear_full_iff` and `front_empty_iff` are the reason why that is enough,
although the two indices agree both in the empty and in the full ring.
-/
namespace VlanTagger.Lib

structure Ring (n : Nat) (α : Type*) where
  slot : Fin n → Option α
  front : Fin n
  rear : Fin n

namespace Ring

variable {n : Nat} {α : Type*}

/-- The slot `k` places after `i`, wrapping at the end. -/
def after (i : Fin n) (k : Nat) : Fin n :=
  ⟨(i.val + k) % n, Nat.mod_lt _ (Nat.lt_of_le_of_lt (Nat.zero_le _) i.isLt)⟩

theorem after_zero (i : Fin n) : after i 0 = i := by
  apply Fin.ext
  exact Nat.mod_eq_of_lt i.isLt

theorem after_after (i : Fin n) (j k : Nat) : after (after i j) k = after i (j + k) := by
  apply Fin.ext
  simp [after, Nat.add_assoc]

theorem after_full (i : Fin n) : after i n = i := by
  apply Fin.ext
  simp only [after, Nat.add_mod_right]
  exact Nat.mod_eq_of_lt i.isLt

theorem after_injective (i : Fin n) {j k : Nat} (hj : j < n) (hk : k < n)
    (h : after i j = after i k) : j = k := by
  have hv : (i.val + j) % n = (i.val + k) % n := congrArg Fin.val h
  have hm : j % n = k % n := Nat.ModEq.add_left_cancel' i.val hv
  rwa [Nat.mod_eq_of_lt hj, Nat.mod_eq_of_lt hk] at hm

theorem exists_after (i j : Fin n) : ∃ k < n, after i k = j := by
  by_cases h : i.val ≤ j.val
  · refine ⟨j.val - i.val, by omega, Fin.ext ?_⟩
    simp only [after, Nat.add_sub_cancel' h]
    exact Nat.mod_eq_of_lt j.isLt
  · refine ⟨n + j.val - i.val, by omega, Fin.ext ?_⟩
    have he : i.val + (n + j.val - i.val) = n + j.val := by omega
    simp only [after, he, Nat.add_mod_left]
    exact Nat.mod_eq_of_lt j.isLt

/-- The elements stand in the slots `front, front + 1, ..` and nowhere else. -/
structure Represents (r : Ring n α) (items : List α) : Prop where
  length_le : items.length ≤ n
  rear_eq : r.rear = after r.front items.length
  contents : ∀ k < n, r.slot (after r.front k) = items[k]?

theorem represents_nil {r : Ring n α} (hs : ∀ i, r.slot i = none) (hr : r.rear = r.front) :
    Represents r [] := by
  constructor
  · exact Nat.zero_le n
  · rw [hr]; exact (after_zero r.front).symm
  · intro k _; simp [hs]

namespace Represents

variable {r : Ring n α} {items : List α}

theorem front_slot (h : Represents r items) : r.slot r.front = items.head? := by
  have hc := h.contents 0 (Nat.lt_of_le_of_lt (Nat.zero_le _) r.front.isLt)
  rw [after_zero] at hc
  rw [hc, List.head?_eq_getElem?]

/-- The front slot is empty exactly in the empty ring. -/
theorem front_empty_iff (h : Represents r items) : r.slot r.front = none ↔ items = [] := by
  rw [h.front_slot, List.head?_eq_none_iff]

theorem rear_slot_of_lt (h : Represents r items) (hl : items.length < n) :
    r.slot r.rear = none := by
  rw [h.rear_eq, h.contents _ hl]
  exact List.getElem?_eq_none (Nat.le_refl _)

theorem rear_slot_of_full (h : Represents r items) (hl : items.length = n) :
    r.slot r.rear = items.head? := by
  rw [h.rear_eq, hl, after_full, h.front_slot]

/-- The rear slot is empty exactly when there is room. -/
theorem rear_empty_iff (h : Represents r items) : r.slot r.rear = none ↔ items.length < n := by
  constructor
  · intro he
    by_contra hlt
    have hn : items.length = n := Nat.le_antisymm h.length_le (Nat.le_of_not_lt hlt)
    rw [h.rear_slot_of_full hn, List.head?_eq_none_iff] at he
    have hpos := r.front.isLt
    rw [he, List.length_nil] at hn
    omega
  · exact h.rear_slot_of_lt

/-- A slot is occupied exactly when it is one of the `items.length` slots from the front. -/
theorem occupied_iff (h : Represents r items) (i : Fin n) :
    r.slot i ≠ none ↔ ∃ k < items.length, i = after r.front k := by
  obtain ⟨k, hk, rfl⟩ := exists_after r.front i
  rw [h.contents k hk, ne_eq, List.getElem?_eq_none_iff, not_le]
  constructor
  · intro hl
    exact ⟨k, hl, rfl⟩
  · rintro ⟨j, hj, he⟩
    rwa [after_injective r.front hk (hj.trans_le h.length_le) he]

/-- Writing the rear slot and advancing the rear index appends. -/
theorem push (h : Represents r items) (hl : items.length < n) (a : α) :
    Represents { r with slot := Function.update r.slot r.rear (some a), rear := after r.rear 1 }
      (items ++ [a]) := by
  constructor
  · simp only [List.length_append, List.length_singleton]
    omega
  · simp only [List.length_append, List.length_singleton]
    rw [h.rear_eq, after_after]
  · intro k hk
    show Function.update r.slot r.rear (some a) (after r.front k) = _
    by_cases he : k = items.length
    · subst he
      rw [h.rear_eq, Function.update_self]
      simp
    · have hne : after r.front k ≠ r.rear := by
        rw [h.rear_eq]
        exact fun hc => he (after_injective r.front hk hl hc)
      rw [Function.update_of_ne hne, h.contents k hk, List.getElem?_append]
      split
      · rfl
      · have hr : items[k]? = none := List.getElem?_eq_none (by omega)
        rw [hr]
        exact (List.getElem?_eq_none (by simp; omega)).symm

/-- Emptying the front slot and advancing the front index removes the head. -/
theorem pop {a : α} (h : Represents r (a :: items)) :
    Represents { r with slot := Function.update r.slot r.front none, front := after r.front 1 }
      items := by
  have hl : items.length + 1 ≤ n := h.length_le
  constructor
  · exact Nat.le_of_succ_le hl
  · show r.rear = after (after r.front 1) items.length
    rw [h.rear_eq, after_after, List.length_cons, Nat.add_comm]
  · intro k hk
    show Function.update r.slot r.front none (after (after r.front 1) k) = _
    rw [after_after, Nat.add_comm]
    by_cases he : k + 1 = n
    · rw [he, after_full, Function.update_self]
      exact (List.getElem?_eq_none (by omega)).symm
    · have hne : after r.front (k + 1) ≠ r.front := by
        intro hc
        have h0 := after_injective r.front (by omega : k + 1 < n) (by omega : 0 < n)
          (hc.trans (after_zero r.front).symm)
        omega
      rw [Function.update_of_ne hne, h.contents (k + 1) (by omega), List.getElem?_cons_succ]

/-- The slot before the rear index holds the last element. -/
theorem last_slot (h : Represents r items) {i : Fin n} (hi : after i 1 = r.rear)
    (hne : items ≠ []) : r.slot i = items.getLast? := by
  have hpos : 0 < items.length := List.length_pos_iff.mpr hne
  have hlast : items.length - 1 < n := by have hl := h.length_le; omega
  obtain ⟨k, hk, rfl⟩ := exists_after r.front i
  have hk' : k = items.length - 1 := by
    rw [h.rear_eq, after_after] at hi
    by_cases hw : k + 1 = n
    · rw [hw, after_full, ← after_zero r.front, after_after, Nat.zero_add] at hi
      by_cases hf : items.length = n
      · omega
      · have h0 := after_injective r.front (by omega : 0 < n)
          (by have hl := h.length_le; omega : items.length < n) hi
        omega
    · by_cases hf : items.length = n
      · rw [hf, after_full] at hi
        have h0 := after_injective r.front (by omega : k + 1 < n) (by omega : 0 < n)
          (hi.trans (after_zero r.front).symm)
        omega
      · have h0 := after_injective r.front (by omega : k + 1 < n)
          (by have hl := h.length_le; omega : items.length < n) hi
        omega
  rw [h.contents k hk, hk', List.getLast?_eq_getElem?]

end Represents
end Ring
end VlanTagger.Lib
