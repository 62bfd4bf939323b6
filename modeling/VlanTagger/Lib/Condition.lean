import Mathlib.Data.Finset.Card
import Mathlib.Data.Finset.SDiff

/-!
# Condition variables

The threads that wait on a condition variable are either asleep or have been
woken and still have to re-acquire the mutex. A signal wakes at least one
sleeper if there is one and is lost otherwise; a sleeper may also wake for no
reason. `Covered n c` is the counting invariant that excludes a lost wake-up for
`n` items: as long as somebody sleeps, at least `n` threads are on their way.
-/
namespace VlanTagger.Lib

variable {Tid : Type*} [DecidableEq Tid]

structure Condition (Tid : Type*) [DecidableEq Tid] where
  asleep : Finset Tid
  woken : Finset Tid
  disjoint : Disjoint asleep woken

namespace Condition

/-- Nobody waits. -/
def idle : Condition Tid := ⟨∅, ∅, Finset.disjoint_empty_left _⟩

/-- The thread is neither asleep nor still on its way out of the wait. -/
def Running (c : Condition Tid) (t : Tid) : Prop := t ∉ c.asleep ∧ t ∉ c.woken

/-- The sleepers in `ws` wake. -/
def wake (c : Condition Tid) (ws : Finset Tid) : Condition Tid where
  asleep := c.asleep \ ws
  woken := c.woken ∪ (c.asleep ∩ ws)
  disjoint := by
    rw [Finset.disjoint_left]
    intro t ht
    obtain ⟨ha, hw⟩ := Finset.mem_sdiff.mp ht
    simp only [Finset.mem_union, Finset.mem_inter, not_or, not_and]
    exact ⟨Finset.disjoint_left.mp c.disjoint ha, fun _ => hw⟩

/-- A woken thread re-acquires the mutex and leaves the wait. -/
def resume (c : Condition Tid) (t : Tid) : Condition Tid where
  asleep := c.asleep
  woken := c.woken.erase t
  disjoint := c.disjoint.mono_right (Finset.erase_subset t c.woken)

/-- A thread that holds the mutex releases it and falls asleep. -/
def sleep (c : Condition Tid) (t : Tid) : Condition Tid where
  asleep := insert t c.asleep
  woken := c.woken.erase t
  disjoint := by
    rw [Finset.disjoint_insert_left]
    exact ⟨Finset.notMem_erase t c.woken, c.disjoint.mono_right (Finset.erase_subset t c.woken)⟩

/-- `pthread_cond_signal`: at least one sleeper wakes, if there is one. -/
def Signal (c c' : Condition Tid) : Prop :=
  ∃ ws, (c.asleep.Nonempty → (c.asleep ∩ ws).Nonempty) ∧ c' = c.wake ws

/-- While somebody sleeps, at least `n` threads have been woken and are on their way. -/
def Covered (n : Nat) (c : Condition Tid) : Prop := c.asleep.Nonempty → n ≤ c.woken.card

theorem wake_asleep_subset (c : Condition Tid) (ws : Finset Tid) :
    (c.wake ws).asleep ⊆ c.asleep := Finset.sdiff_subset

theorem card_woken_wake (c : Condition Tid) (ws : Finset Tid) :
    (c.wake ws).woken.card = c.woken.card + (c.asleep ∩ ws).card := by
  apply Finset.card_union_of_disjoint
  exact (c.disjoint.mono_left Finset.inter_subset_left).symm

theorem covered_zero (c : Condition Tid) : Covered 0 c := fun _ => Nat.zero_le _

theorem Covered.mono {c : Condition Tid} {m n : Nat} (h : Covered n c) (hmn : m ≤ n) :
    Covered m c := fun hs => hmn.trans (h hs)

theorem Covered.wake {c : Condition Tid} {n : Nat} (h : Covered n c) (ws : Finset Tid) :
    Covered n (c.wake ws) := by
  intro hs
  have hn := h (hs.mono (wake_asleep_subset c ws))
  rw [card_woken_wake]
  omega

theorem Covered.signal {c c' : Condition Tid} {n : Nat} (h : Covered n c) (hs : c.Signal c') :
    Covered n c' := by
  obtain ⟨ws, _, rfl⟩ := hs
  exact h.wake ws

/-- A signal pays for one more item. -/
theorem Covered.signal_succ {c c' : Condition Tid} {n : Nat} (h : Covered n c)
    (hs : c.Signal c') : Covered (n + 1) c' := by
  obtain ⟨ws, hw, rfl⟩ := hs
  intro hne
  have hne' := hne.mono (wake_asleep_subset c ws)
  have hn := h hne'
  have hpos : 0 < (c.asleep ∩ ws).card := Finset.card_pos.mpr (hw hne')
  rw [card_woken_wake]
  omega

/-- A thread that leaves the wait takes at most its own share with it. -/
theorem Covered.resume {c : Condition Tid} {n : Nat} (h : Covered (n + 1) c) (t : Tid) :
    Covered n (c.resume t) := by
  intro hs
  have hn : n + 1 ≤ c.woken.card := h hs
  have he : c.woken.card - 1 ≤ (c.woken.erase t).card := Finset.pred_card_le_card_erase
  show n ≤ (c.woken.erase t).card
  omega

end Condition
end VlanTagger.Lib
