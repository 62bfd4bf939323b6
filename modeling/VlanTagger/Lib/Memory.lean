import Mathlib.Data.List.Basic

/-!
# Memory read through a pointer

A pointer is modelled by what can be read through it: the cell at each offset.
`advance` is pointer arithmetic, `memcpy` overwrites a window of the target and
leaves every other cell alone, and `bytes` reads a window back as a list. A
buffer that is used again keeps its old cells outside the window last written,
which is what `memcpy_of_ge` and `bytes_memcpy_zero` separate. On the bytes that are
read back, a copy is a `splice`.
-/
namespace VlanTagger.Lib

/-- The cells from some address on. -/
abbrev Memory (α : Type*) := Nat → α

namespace Memory

variable {α : Type*}

/-- The pointer `p + k`. -/
def advance (p : Memory α) (k : Nat) : Memory α := fun i => p (k + i)

/-- `memcpy(dst + off, src, n)`, as seen through `dst`. -/
def memcpy (dst : Memory α) (off : Nat) (src : Memory α) (n : Nat) : Memory α :=
  fun i => if off ≤ i ∧ i < off + n then src (i - off) else dst i

/-- The first `n` cells. -/
def bytes (p : Memory α) (n : Nat) : List α := (List.range n).map p

/-- The memory that holds a list, with `fill` behind it. -/
def ofList (l : List α) (fill : α) : Memory α := fun i => l.getD i fill

theorem advance_apply (p : Memory α) (k i : Nat) : p.advance k i = p (k + i) := rfl

theorem advance_advance (p : Memory α) (j k : Nat) : (p.advance j).advance k = p.advance (j + k) := by
  funext i
  exact congrArg p (Nat.add_assoc j k i).symm

theorem memcpy_of_lt (dst src : Memory α) {off n i : Nat} (h : i < off) :
    dst.memcpy off src n i = dst i := by
  simp only [memcpy, Nat.not_le.mpr h, false_and, if_false]

theorem memcpy_of_mem (dst src : Memory α) {off n i : Nat} (hl : off ≤ i) (hu : i < off + n) :
    dst.memcpy off src n i = src (i - off) := by
  simp only [memcpy, hl, hu, and_self, if_true]

theorem memcpy_of_ge (dst src : Memory α) {off n i : Nat} (h : off + n ≤ i) :
    dst.memcpy off src n i = dst i := by
  simp only [memcpy, Nat.not_lt.mpr h, and_false, if_false]

@[simp] theorem length_bytes (p : Memory α) (n : Nat) : (p.bytes n).length = n := by
  simp [bytes]

@[simp] theorem getElem_bytes (p : Memory α) (n i : Nat) (h : i < (p.bytes n).length) :
    (p.bytes n)[i] = p i := by
  simp [bytes]

theorem bytes_congr {p q : Memory α} {n : Nat} (h : ∀ i < n, p i = q i) :
    p.bytes n = q.bytes n := by
  unfold bytes
  exact List.map_congr_left fun i hi => h i (List.mem_range.mp hi)

/-- A copy to the start of a buffer is what the next read of that length finds. -/
theorem bytes_memcpy_zero (dst src : Memory α) (n : Nat) :
    (dst.memcpy 0 src n).bytes n = src.bytes n :=
  bytes_congr fun i hi => memcpy_of_mem dst src (Nat.zero_le i) (by omega)

theorem ofList_of_lt (l : List α) (fill : α) {i : Nat} (h : i < l.length) :
    ofList l fill i = l[i] := by
  simp [ofList, h]

theorem bytes_ofList (l : List α) (fill : α) : (ofList l fill).bytes l.length = l := by
  apply List.ext_getElem (length_bytes _ _)
  intro i hi _
  rw [getElem_bytes, ofList_of_lt]

/-- A buffer whose first cells are `l` reads as `l` at every index of `l`. -/
theorem apply_of_bytes {p : Memory α} {l : List α} {n : Nat} (h : p.bytes n = l) {i : Nat}
    (hi : i < l.length) : p i = l[i] := by
  subst h
  exact (getElem_bytes p n i hi).symm

theorem bytes_add (p : Memory α) (m n : Nat) :
    p.bytes (m + n) = p.bytes m ++ (p.advance m).bytes n := by
  unfold bytes
  rw [List.range_add, List.map_append, List.map_map]
  rfl

theorem take_bytes (p : Memory α) {m n : Nat} (h : m ≤ n) : (p.bytes n).take m = p.bytes m := by
  obtain ⟨k, rfl⟩ := Nat.exists_eq_add_of_le h
  rw [bytes_add, List.take_left' (length_bytes p m)]

theorem drop_bytes (p : Memory α) {m n : Nat} (h : m ≤ n) :
    (p.bytes n).drop m = (p.advance m).bytes (n - m) := by
  obtain ⟨k, rfl⟩ := Nat.exists_eq_add_of_le h
  rw [bytes_add, List.drop_left' (length_bytes p m), Nat.add_sub_cancel_left]

/-- A copy behind the first `off` cells appends to what they hold. -/
theorem bytes_memcpy_append (dst src : Memory α) (off n : Nat) :
    (dst.memcpy off src n).bytes (off + n) = dst.bytes off ++ src.bytes n := by
  rw [bytes_add]
  congr 1
  · exact bytes_congr fun i hi => memcpy_of_lt dst src hi
  · refine bytes_congr fun i hi => ?_
    rw [advance_apply, memcpy_of_mem dst src (Nat.le_add_right off i) (by omega),
      Nat.add_sub_cancel_left]

end Memory

/-! ## Overwriting a window -/

section

variable {α : Type*}

/-- The list with `l` written over it from index `off` on. -/
def splice (p : List α) (off : Nat) (l : List α) : List α :=
  p.take off ++ (l ++ p.drop (off + l.length))

variable {p l : List α} {off : Nat}

theorem length_splice (h : off + l.length ≤ p.length) : (splice p off l).length = p.length := by
  simp only [splice, List.length_append, List.length_take, List.length_drop]
  omega

theorem getElem?_splice_of_lt (h : off + l.length ≤ p.length) {i : Nat} (hi : i < off) :
    (splice p off l)[i]? = p[i]? := by
  rw [splice, List.getElem?_append_left (by rw [List.length_take]; omega), List.getElem?_take_of_lt hi]

theorem getElem?_splice_of_ge (h : off + l.length ≤ p.length) {i : Nat} (hi : off + l.length ≤ i) :
    (splice p off l)[i]? = p[i]? := by
  have ht : (p.take off).length = off := by rw [List.length_take]; omega
  rw [splice, ← List.append_assoc, List.getElem?_append_right (by rw [List.length_append, ht]; exact hi),
    List.length_append, ht, List.getElem?_drop]
  congr 1
  omega

theorem getElem?_splice_add (h : off + l.length ≤ p.length) {i : Nat} (hi : i < l.length) :
    (splice p off l)[off + i]? = l[i]? := by
  have ht : (p.take off).length = off := by rw [List.length_take]; omega
  rw [splice, List.getElem?_append_right (by omega), ht, Nat.add_sub_cancel_left,
    List.getElem?_append_left hi]

/-- Only what was written last counts. -/
theorem splice_splice {l' : List α} (h : off + l.length ≤ p.length) (hl : l'.length = l.length) :
    splice (splice p off l) off l' = splice p off l' := by
  have ht : (p.take off).length = off := by rw [List.length_take]; omega
  have h1 : (splice p off l).take off = p.take off := List.take_left' ht
  have h2 : (splice p off l).drop (off + l'.length) = p.drop (off + l'.length) := by
    rw [splice, ← List.append_assoc, List.drop_left' (by rw [List.length_append, ht, hl]), hl]
  rw [splice, h1, h2, splice]

theorem splice_self (p : List α) (off n : Nat) (h : off + n ≤ p.length) :
    splice p off ((p.drop off).take n) = p := by
  have hn : ((p.drop off).take n).length = n := by
    rw [List.length_take, List.length_drop]
    omega
  rw [splice, hn, ← List.drop_drop, List.take_append_drop, List.take_append_drop]

theorem drop_splice {k : Nat} (h : off + l.length ≤ p.length) (hk : k ≤ off) :
    (splice p off l).drop k = splice (p.drop k) (off - k) l := by
  rw [splice, List.drop_append_of_le_length (by rw [List.length_take]; omega), splice, List.drop_take,
    List.drop_drop, show k + (off - k + l.length) = off + l.length by omega]

theorem take_splice {n : Nat} (h : off + l.length ≤ n) (hn : n ≤ p.length) :
    (splice p off l).take n = splice (p.take n) off l := by
  have ht : (p.take off).length = off := by rw [List.length_take]; omega
  have hl : l.take (n - off) = l := List.take_of_length_le (by omega)
  rw [splice, List.take_append, ht, List.take_append, hl, List.take_take, Nat.min_eq_right (by omega),
    splice, List.take_take, Nat.min_eq_left (by omega), List.drop_take, Nat.sub_sub]

/-- A copy into a buffer, on the bytes that are read back. -/
theorem Memory.bytes_memcpy (dst src : Memory α) {n len : Nat} (h : off + n ≤ len) :
    (dst.memcpy off src n).bytes len = splice (dst.bytes len) off (src.bytes n) := by
  obtain ⟨k, rfl⟩ := Nat.exists_eq_add_of_le h
  have hrest : ((dst.memcpy off src n).advance (off + n)).bytes k = (dst.advance (off + n)).bytes k :=
    bytes_congr fun i _ => memcpy_of_ge dst src (Nat.le_add_right _ _)
  rw [bytes_add, bytes_memcpy_append, hrest, splice, take_bytes dst (by omega), length_bytes,
    drop_bytes dst (by omega), Nat.add_sub_cancel_left, List.append_assoc]

end

end VlanTagger.Lib
