import Mathlib.Control.Monad.Writer
import Mathlib.Data.List.Basic

/-!
# Programs that report what they touch

A program on buffers is written a second time in the writer monad, where it tells every
index that it reads or writes. `value` forgets the report, so it can be compared with the
program it was written after; `Within` says that everything reported is allowed, and it
goes through a sequence of actions one by one.
-/
namespace VlanTagger.Lib

/-- A value and the accesses made for it, in order. -/
abbrev Traced (ε : Type) := Writer (List ε)

namespace Traced

variable {ε α β : Type}

def value (m : Traced ε α) : α := (Id.run m.run).1

def touched (m : Traced ε α) : List ε := (Id.run m.run).2

/-- Report the `n` indices from `off` on. -/
def touch (f : Nat → ε) (off n : Nat) : Traced ε Unit := tell ((List.range' off n).map f)

/-- Every access is allowed. -/
def Within (P : ε → Prop) (m : Traced ε α) : Prop := ∀ e ∈ m.touched, P e

@[simp] theorem value_pure (a : α) : (pure a : Traced ε α).value = a := rfl

@[simp] theorem value_bind (m : Traced ε α) (f : α → Traced ε β) :
    (m >>= f).value = (f m.value).value := rfl

theorem touched_bind (m : Traced ε α) (f : α → Traced ε β) :
    (m >>= f).touched = m.touched ++ (f m.value).touched := rfl

variable {P : ε → Prop}

@[simp] theorem within_pure (a : α) : Within P (pure a : Traced ε α) := nofun

@[simp] theorem within_bind (m : Traced ε α) (f : α → Traced ε β) :
    Within P (m >>= f) ↔ Within P m ∧ Within P (f m.value) := by
  unfold Within
  rw [touched_bind]
  exact List.forall_mem_append

@[simp] theorem within_touch (f : Nat → ε) (off n : Nat) :
    Within P (touch f off n) ↔ ∀ i, off ≤ i → i < off + n → P (f i) := by
  show (∀ e ∈ (List.range' off n).map f, P e) ↔ _
  simp only [List.mem_map, List.mem_range'_1, forall_exists_index, and_imp]
  constructor
  · intro h i hlow hhigh
    exact h _ i hlow hhigh rfl
  · rintro h _ i hlow hhigh rfl
    exact h i hlow hhigh

end Traced
end VlanTagger.Lib
