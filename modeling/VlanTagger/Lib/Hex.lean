import VlanTagger.Lib.Decimal

/-!
# Hexadecimal numerals of a fixed width, and texts cut into rows

`hexPadded width n` is what the conversion `%0<width>x` prints. A number below `16 ^ width`
is printed with exactly `width` digits and read back as itself. The second half is about
lists that are printed in rows, and about rows that are cut into fields of one length.
-/
namespace VlanTagger.Lib

namespace CString

/-- The character of a hexadecimal digit, in lower case. -/
def hexChr (d : Nat) : UInt8 := if d < 10 then UInt8.ofNat (48 + d) else UInt8.ofNat (87 + d)

def hexPadded (width n : Nat) : CString :=
  List.leftpad width (chr '0') ((Nat.digits 16 n).reverse.map hexChr)

/-- The last `width` digits. -/
def hexFixed : Nat → Nat → CString
  | 0, _ => []
  | width + 1, n => hexFixed width (n / 16) ++ [hexChr (n % 16)]

theorem digitValue_hexChr : ∀ d < 16, digitValue 16 (hexChr d) = some d := by decide

theorem hexChr_visible : ∀ d < 16, 48 ≤ hexChr d := by decide

theorem leftpad_concat (width : Nat) (a b : UInt8) (l : CString) :
    List.leftpad (width + 1) a (l ++ [b]) = List.leftpad width a l ++ [b] := by
  rw [List.leftpad, List.leftpad, List.length_append, List.length_singleton, Nat.add_sub_add_right,
    List.append_assoc]

theorem hexPadded_eq_hexFixed {width n : Nat} (h : n < 16 ^ width) : hexPadded width n = hexFixed width n := by
  induction width generalizing n with
  | zero =>
    obtain rfl : n = 0 := by omega
    rfl
  | succ width ih =>
    have hdiv : n / 16 < 16 ^ width := by
      rw [Nat.div_lt_iff_lt_mul (by decide), ← Nat.pow_succ]
      exact h
    rw [hexFixed, ← ih hdiv, hexPadded, hexPadded]
    rcases Nat.eq_zero_or_pos n with rfl | hpos
    · rw [Nat.zero_div, Nat.digits_zero]
      show List.replicate (width + 1) (chr '0') ++ [] = (List.replicate width (chr '0') ++ []) ++ [chr '0']
      rw [List.append_nil, List.append_nil, List.replicate_succ']
    · rw [Nat.digits_def' (by decide) hpos, List.reverse_cons, List.map_append, List.map_singleton,
        leftpad_concat]

theorem length_hexFixed (width n : Nat) : (hexFixed width n).length = width := by
  induction width generalizing n with
  | zero => rfl
  | succ width ih => rw [hexFixed, List.length_append, ih, List.length_singleton]

theorem length_hexPadded {width n : Nat} (h : n < 16 ^ width) : (hexPadded width n).length = width := by
  rw [hexPadded_eq_hexFixed h, length_hexFixed]

theorem visible_hexPadded {width n : Nat} (h : n < 16 ^ width) : ∀ c ∈ hexPadded width n, 48 ≤ c := by
  rw [hexPadded_eq_hexFixed h]
  clear h
  induction width generalizing n with
  | zero => exact fun c hc => by cases hc
  | succ width ih =>
    intro c hc
    rcases List.mem_append.mp hc with hc | hc
    · exact ih c hc
    · rw [List.mem_singleton.mp hc]
      exact hexChr_visible _ (Nat.mod_lt _ (by decide))

theorem readDigits_hexFixed {width n : Nat} (h : n < 16 ^ width) (acc : Nat) (rest : CString) :
    readDigits 16 acc (hexFixed width n ++ rest) = readDigits 16 (acc * 16 ^ width + n) rest := by
  induction width generalizing n rest with
  | zero =>
    obtain rfl : n = 0 := by omega
    rw [Nat.pow_zero, Nat.mul_one]
    rfl
  | succ width ih =>
    have hdiv : n / 16 < 16 ^ width := by
      rw [Nat.div_lt_iff_lt_mul (by decide), ← Nat.pow_succ]
      exact h
    rw [hexFixed, List.append_assoc, ih hdiv, List.singleton_append,
      readDigits_cons (digitValue_hexChr _ (Nat.mod_lt _ (by decide)))]
    congr 1
    rw [Nat.pow_succ]
    have hmod := Nat.div_add_mod n 16
    ring_nf
    omega

theorem readDigits_hexPadded {width n : Nat} (h : n < 16 ^ width) :
    readDigits 16 0 (hexPadded width n) = (n, []) := by
  have hread := readDigits_hexFixed h 0 []
  rw [List.append_nil, Nat.zero_mul, Nat.zero_add] at hread
  rw [hexPadded_eq_hexFixed h, hread]
  rfl

end CString

section

variable {α : Type*}

/-- The elements behind one another in rows of `width`. -/
theorem flatMap_rows (width rows : Nat) (l : List α) :
    ((List.range rows).flatMap fun k => (l.drop (width * k)).take width) = l.take (width * rows) := by
  induction rows with
  | zero => simp
  | succ rows ih =>
    rw [List.range_succ, List.flatMap_append, ih, List.flatMap_singleton, Nat.mul_succ, List.take_add]

/-- A separator behind each of the texts but the last. -/
theorem intercalate_concat (x : α) (texts : List (List α)) (last : List α) :
    [x].intercalate (texts ++ [last]) = (texts.flatMap fun t => t ++ [x]) ++ last := by
  induction texts with
  | nil => simp [List.intercalate]
  | cons t texts ih =>
    cases texts with
    | nil => simp [List.intercalate]
    | cons t' texts =>
      rw [List.flatMap_cons, List.append_assoc, ← ih]
      simp [List.intercalate, List.intersperse]

theorem length_flatMap_concat_le (x : α) {m : Nat} {texts : List (List α)} (h : ∀ t ∈ texts, t.length ≤ m) :
    (texts.flatMap fun t => t ++ [x]).length ≤ (m + 1) * texts.length := by
  induction texts with
  | nil => exact Nat.zero_le _
  | cons t texts ih =>
    have hfirst := h t List.mem_cons_self
    have hrest := ih fun t' ht' => h t' (List.mem_cons_of_mem _ ht')
    rw [List.flatMap_cons, List.length_append, List.length_append, List.length_singleton, List.length_cons,
      Nat.mul_succ]
    omega

theorem length_intercalate_le (x : α) {m : Nat} {texts : List (List α)} (h : ∀ t ∈ texts, t.length ≤ m) :
    ([x].intercalate texts).length ≤ (m + 1) * texts.length := by
  rcases List.eq_nil_or_concat texts with rfl | ⟨before, last, rfl⟩
  · exact Nat.zero_le _
  · rw [List.concat_eq_append] at h ⊢
    have hbefore := length_flatMap_concat_le x fun t ht => h t (List.mem_append_left _ ht)
    have hlast := h last (List.mem_append_right _ List.mem_cons_self)
    rw [intercalate_concat, List.length_append, List.length_append, List.length_singleton,
      Nat.mul_succ]
    omega

theorem mem_intercalate {x c : α} {texts : List (List α)} (h : c ∈ [x].intercalate texts) :
    c = x ∨ ∃ t ∈ texts, c ∈ t := by
  rcases List.eq_nil_or_concat texts with rfl | ⟨before, last, rfl⟩
  · cases h
  · rw [List.concat_eq_append, intercalate_concat, List.mem_append, List.mem_flatMap] at h
    rcases h with ⟨t, ht, hc⟩ | hc
    · rcases List.mem_append.mp hc with hc | hc
      · exact .inr ⟨t, by simp [ht], hc⟩
      · exact .inl (List.mem_singleton.mp hc)
    · exact .inr ⟨last, by simp, hc⟩

/-- What is read at the columns of a short row is the row. -/
theorem filterMap_range_getElem? (l : List α) (n : Nat) :
    ((List.range n).filterMap fun j => l[j]?) = l.take n := by
  induction n with
  | zero => rfl
  | succ n ih =>
    rw [List.range_succ, List.filterMap_append, ih, List.take_add_one, List.filterMap_cons]
    cases l[n]? with
    | none => rfl
    | some a => rfl

theorem length_fields {width : Nat} {f : Nat → List α} (hf : ∀ i, (f i).length = width) (n : Nat) :
    ((List.range n).flatMap f).length = width * n := by
  induction n with
  | zero => rfl
  | succ n ih =>
    rw [List.range_succ, List.flatMap_append, List.length_append, ih, List.flatMap_singleton, hf, Nat.mul_succ]

/-- Field `j` of a row whose fields have `width` characters. -/
theorem drop_fields {width n j : Nat} {f : Nat → List α} (hf : ∀ i, (f i).length = width) (hj : j < n) :
    ∃ rest, ((List.range n).flatMap f).drop (width * j) = f j ++ rest := by
  obtain ⟨m, rfl⟩ : ∃ m, n = j + (1 + m) := ⟨n - j - 1, by omega⟩
  refine ⟨((List.range m).map fun i => j + (1 + i)).flatMap f, ?_⟩
  rw [List.range_add, List.flatMap_append, List.drop_left' (length_fields hf j), List.range_add]
  simp [List.flatMap_map, Nat.add_assoc]

end

end VlanTagger.Lib
