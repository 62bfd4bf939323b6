import Mathlib.Data.UInt

/-!
# One's-complement sums

The checksum of the Internet protocols is the complement of the one's-complement
sum of the 16-bit words of a header. `fold` is the end-around carry: it brings a sum
of words back to 16 bits without changing its residue modulo 65535, and it takes no
positive sum to 0. So the complement of a folded sum, added to the sum, folds to
0xFFFF, and it is the only word but 0xFFFF itself that does.
-/
namespace VlanTagger.Lib

/-- The carries above 16 bits are added to the low word until none is left. -/
def fold (n : Nat) : Nat :=
  if n < 65536 then n else fold (n % 65536 + n / 65536)
termination_by n
decreasing_by omega

theorem fold_of_lt {n : Nat} (h : n < 65536) : fold n = n := by
  rw [fold, if_pos h]

theorem fold_carry (n : Nat) : fold (n % 65536 + n / 65536) = fold n := by
  by_cases h : n < 65536
  · have he : n % 65536 + n / 65536 = n := by omega
    rw [he]
  · rw [fold.eq_def n, if_neg h]

theorem fold_lt (n : Nat) : fold n < 65536 := by
  induction n using fold.induct with
  | case1 n h => rwa [fold_of_lt h]
  | case2 n h ih => rwa [← fold_carry]

/-- A carry of 65536 counts as 1, so nothing changes modulo 65535. -/
theorem fold_mod (n : Nat) : fold n % 65535 = n % 65535 := by
  induction n using fold.induct with
  | case1 n h => rw [fold_of_lt h]
  | case2 n h ih =>
    rw [← fold_carry, ih]
    omega

theorem fold_pos {n : Nat} (h : 0 < n) : 0 < fold n := by
  induction n using fold.induct with
  | case1 n hlt => rwa [fold_of_lt hlt]
  | case2 n hge ih =>
    rw [← fold_carry]
    exact ih (by omega)

theorem fold_eq_full_iff {n : Nat} (h : 0 < n) : fold n = 65535 ↔ n % 65535 = 0 := by
  have hlt := fold_lt n
  have hmod := fold_mod n
  have hpos := fold_pos h
  omega

/-- The complement of the folded sum makes the sum verify. -/
theorem fold_add_complement {n : Nat} (h : 0 < n) : fold (n + (65535 - fold n)) = 65535 := by
  have hlt := fold_lt n
  have hmod := fold_mod n
  rw [fold_eq_full_iff (by omega)]
  omega

/-- Only the complement and 0xFFFF make a positive sum verify. -/
theorem eq_complement_iff {n c : Nat} (h : 0 < n) (hc : c < 65536) :
    c = 65535 - fold n ↔ fold (n + c) = 65535 ∧ c ≠ 65535 := by
  have hlt := fold_lt n
  have hmod := fold_mod n
  have hpos := fold_pos h
  rw [fold_eq_full_iff (by omega)]
  omega

/-- The sum of the big-endian 16-bit words; a last odd byte is a high byte. -/
def words : List UInt8 → Nat
  | [] => 0
  | [a] => a.toNat * 256
  | a :: b :: rest => a.toNat * 256 + b.toNat + words rest

theorem words_le (l : List UInt8) : words l ≤ 65535 * l.length := by
  induction l using words.induct with
  | case1 => exact Nat.le_refl 0
  | case2 a =>
    have ha := a.toNat_lt
    rw [words, List.length_singleton]
    omega
  | case3 a b rest ih =>
    have ha := a.toNat_lt
    have hb := b.toNat_lt
    rw [words, List.length_cons, List.length_cons]
    omega

theorem words_append {l : List UInt8} (h : l.length % 2 = 0) (r : List UInt8) :
    words (l ++ r) = words l + words r := by
  induction l using words.induct with
  | case1 => rw [List.nil_append, words, Nat.zero_add]
  | case2 a => cases h
  | case3 a b rest ih =>
    have hrest : rest.length % 2 = 0 := by
      rw [List.length_cons, List.length_cons] at h
      omega
    rw [List.cons_append, List.cons_append, words, words, ih hrest]
    omega

/-- One byte counts with its weight, wherever it stands. -/
theorem words_append_cons (l r : List UInt8) (b : UInt8) :
    words (l ++ b :: r) = words (l ++ 0 :: r) + b.toNat * if l.length % 2 = 0 then 256 else 1 := by
  induction l using words.induct with
  | case1 =>
    cases r with
    | nil => exact (Nat.zero_add _).symm
    | cons c r =>
      rw [List.nil_append, List.nil_append, words, words, List.length_nil, if_pos (Nat.zero_mod 2)]
      show _ = 0 * 256 + c.toNat + words r + _
      omega
  | case2 a =>
    rw [List.singleton_append, List.singleton_append, words, words, List.length_singleton,
      if_neg (by decide)]
    show _ = a.toNat * 256 + 0 + words r + _
    omega
  | case3 a b' rest ih =>
    have hlen : (a :: b' :: rest).length % 2 = rest.length % 2 := by
      rw [List.length_cons, List.length_cons]
      omega
    rw [List.cons_append, List.cons_append, List.cons_append, List.cons_append, words, words, ih, hlen]
    omega

/-- Sums that differ by less than 65535 fold to different words. -/
theorem fold_add_ne (n : Nat) {d : Nat} (hpos : 0 < d) (hlt : d < 65535) : fold (n + d) ≠ fold n := by
  intro h
  have hmod := fold_mod n
  have hmod' := fold_mod (n + d)
  rw [h] at hmod'
  omega

end VlanTagger.Lib
