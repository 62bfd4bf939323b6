import Mathlib.Data.Nat.Digits.Lemmas
import VlanTagger.Lib.CString

/-!
# Decimal numerals, printed and read back

`decimal n` is the plain decimal numeral of `n`, without leading zeros. The C
conversions read it back as `n` whatever follows, as long as what follows does
not go on with a digit (or, after the numeral `0`, with the `x` of a hexadecimal
prefix).
-/
namespace VlanTagger.Lib.CString

/-- The character of a decimal digit. -/
def digitChr (d : Nat) : UInt8 := UInt8.ofNat (48 + d)

/-- The decimal numeral of `n`. -/
def decimal (n : Nat) : CString :=
  if n = 0 then [digitChr 0] else (Nat.digits 10 n).reverse.map digitChr

/-- The dotted quad of four one-byte numbers. -/
def dottedQuad (a b c d : Nat) : CString :=
  decimal a ++ chr '.' :: (decimal b ++ chr '.' :: (decimal c ++ chr '.' :: decimal d))

theorem digitChr_toNat {d : Nat} (h : d < 10) : (digitChr d).toNat = 48 + d :=
  UInt8.toNat_ofNat_of_lt' (by simp only [UInt8.size]; omega)

theorem isdigit_iff (c : UInt8) : isdigit c = true ↔ 48 ≤ c.toNat ∧ c.toNat ≤ 57 := by
  simp only [isdigit, Bool.and_eq_true, decide_eq_true_eq, UInt8.le_iff_toNat_le]
  rfl

theorem isdigit_digitChr {d : Nat} (h : d < 10) : isdigit (digitChr d) = true := by
  rw [isdigit_iff, digitChr_toNat h]
  omega

theorem digitValue_of_isdigit {base : Nat} {c : UInt8} (h : isdigit c = true)
    (hb : c.toNat - 48 < base) : digitValue base c = some (c.toNat - 48) := by
  simp [digitValue, digitOf, h, Option.filter, hb]

theorem digitValue_digitChr {d : Nat} (h : d < 10) : digitValue 10 (digitChr d) = some d := by
  have hv := @digitValue_of_isdigit 10 _ (isdigit_digitChr h)
  rw [digitChr_toNat h] at hv
  simpa [h] using hv

theorem readDigits_cons {base acc d : Nat} {c : UInt8} (h : digitValue base c = some d)
    (cs : CString) : readDigits base acc (c :: cs) = readDigits base (acc * base + d) cs := by
  simp only [readDigits, h]

/-- Reading stops at once in front of something that is not a digit. -/
theorem readDigits_stop {base acc : Nat} {s : CString}
    (h : ∀ c, s.head? = some c → digitValue base c = none) : readDigits base acc s = (acc, s) := by
  cases s with
  | nil => rfl
  | cons c cs => simp only [readDigits, h c rfl]

theorem readDigits_map_digitChr (ds : List Nat) (hds : ∀ d ∈ ds, d < 10) (acc : Nat)
    (rest : CString) :
    readDigits 10 acc (ds.map digitChr ++ rest) =
      readDigits 10 (ds.foldl (fun a d => a * 10 + d) acc) rest := by
  induction ds generalizing acc with
  | nil => rfl
  | cons d ds ih =>
    have hd := hds d (by simp)
    rw [List.map_cons, List.cons_append, readDigits_cons (digitValue_digitChr hd),
      ih (fun x hx => hds x (by simp [hx]))]
    rfl

theorem foldl_reverse_digits (ds : List Nat) :
    ds.reverse.foldl (fun a d => a * 10 + d) 0 = Nat.ofDigits 10 ds := by
  induction ds with
  | nil => rfl
  | cons d ds ih =>
    rw [List.reverse_cons, List.foldl_append, ih, Nat.ofDigits_cons]
    simp only [List.foldl_cons, List.foldl_nil]
    omega

theorem readDigits_decimal (n : Nat) {rest : CString}
    (h : ∀ c, rest.head? = some c → digitValue 10 c = none) :
    readDigits 10 0 (decimal n ++ rest) = (n, rest) := by
  unfold decimal
  split
  · rename_i hz
    rw [List.cons_append, List.nil_append, readDigits_cons (digitValue_digitChr (by decide)),
      readDigits_stop h, hz]
  · rw [readDigits_map_digitChr _ ?_, foldl_reverse_digits, Nat.ofDigits_digits, readDigits_stop h]
    intro d hd
    exact Nat.digits_lt_base (by decide) (List.mem_reverse.mp hd)

theorem decimal_isdigit (n : Nat) : ∀ c ∈ decimal n, isdigit c = true := by
  intro c hc
  unfold decimal at hc
  split at hc
  · rw [List.mem_singleton.mp hc]
    exact isdigit_digitChr (by decide)
  · obtain ⟨d, hd, rfl⟩ := List.mem_map.mp hc
    exact isdigit_digitChr (Nat.digits_lt_base (by decide) (List.mem_reverse.mp hd))

theorem decimal_ne_nil (n : Nat) : decimal n ≠ [] := by
  unfold decimal
  split
  · simp
  · rename_i hn
    simpa using Nat.digits_ne_nil_iff_ne_zero.mpr hn

theorem length_decimal_le {n k : Nat} (hk : 0 < k) (hn : n < 10 ^ k) : (decimal n).length ≤ k := by
  unfold decimal
  split
  · exact hk
  · rename_i hz
    rw [List.length_map, List.length_reverse]
    exact Nat.digits_length_le_iff (by decide) n |>.mpr hn

/-- Only the numeral of zero starts with `0`. -/
theorem decimal_head_ne_zero {n : Nat} (hn : n ≠ 0) : (decimal n).head? ≠ some (chr '0') := by
  have hne : Nat.digits 10 n ≠ [] := Nat.digits_ne_nil_iff_ne_zero.mpr hn
  have hlast := Nat.getLast_digit_ne_zero 10 hn
  have hlt : (Nat.digits 10 n).getLast hne < 10 :=
    Nat.digits_lt_base (by decide) (List.getLast_mem hne)
  unfold decimal
  rw [if_neg hn, List.head?_map, List.head?_reverse, List.getLast?_eq_some_getLast hne]
  intro h
  have hv := congrArg UInt8.toNat (Option.some.inj h)
  rw [digitChr_toNat hlt] at hv
  have h48 : (chr '0').toNat = 48 := by decide
  omega

/-- What may follow a numeral in an address: nothing, or a byte that is no digit in
any base up to 16 and no letter of a hexadecimal prefix. -/
def NumeralEnd (rest : CString) : Prop :=
  ∀ c, rest.head? = some c → digitValue 16 c = none ∧ c ≠ chr 'x' ∧ c ≠ chr 'X'

theorem digitValue_none_of_le {b b' : Nat} (hb : b ≤ b') {c : UInt8}
    (h : digitValue b' c = none) : digitValue b c = none := by
  unfold digitValue at h ⊢
  rw [Option.filter_eq_none_iff] at h ⊢
  intro d hd hlt
  exact h d hd (by simp only [decide_eq_true_eq] at hlt ⊢; omega)

theorem hasHexPrefix_decimal (n : Nat) {rest : CString} (h : NumeralEnd rest) :
    hasHexPrefix (decimal n ++ rest) = false := by
  by_cases hz : n = 0
  · subst hz
    have hd : decimal 0 = [digitChr 0] := rfl
    rw [hd]
    cases rest with
    | nil => rfl
    | cons x cs =>
      obtain ⟨_, hx, hX⟩ := h x rfl
      cases cs with
      | nil => rfl
      | cons d cs => simp [hasHexPrefix, hx, hX]
  · obtain ⟨z, zs, hzs⟩ := List.exists_cons_of_ne_nil (decimal_ne_nil n)
    have hz0 : z ≠ chr '0' := by
      have hhead := decimal_head_ne_zero hz
      rw [hzs] at hhead
      simpa using hhead
    rw [hzs, List.cons_append]
    cases hr : zs ++ rest with
    | nil => rfl
    | cons x cs =>
      cases cs with
      | nil => rfl
      | cons d cs => simp [hasHexPrefix, hz0]

theorem strtoul0_decimal (n : Nat) {rest : CString} (h : NumeralEnd rest) :
    strtoul0 (decimal n ++ rest) = (n, rest) := by
  unfold strtoul0
  rw [hasHexPrefix_decimal n h, if_neg Bool.false_ne_true]
  by_cases hz : n = 0
  · subst hz
    have hd : decimal 0 = [digitChr 0] := rfl
    have hhead : (digitChr 0 :: rest).head? = some (chr '0') := rfl
    rw [hd, List.cons_append, List.nil_append, if_pos hhead,
      readDigits_cons (d := 0) (by decide), readDigits_stop]
    exact fun c hc => digitValue_none_of_le (by decide) (h c hc).1
  · have hhead : (decimal n ++ rest).head? ≠ some (chr '0') := by
      rw [List.head?_append_of_ne_nil _ (decimal_ne_nil n)]
      exact decimal_head_ne_zero hz
    rw [if_neg hhead, readDigits_decimal n]
    exact fun c hc => digitValue_none_of_le (by decide) (h c hc).1

/-! ## Addresses and tags -/

theorem head_decimal_isdigit (n : Nat) (rest : CString) :
    (decimal n ++ rest).head?.any isdigit = true := by
  obtain ⟨z, zs, hzs⟩ := List.exists_cons_of_ne_nil (decimal_ne_nil n)
  have hz := decimal_isdigit n z (by simp [hzs])
  rw [hzs]
  simpa using hz

theorem numeralEnd_nil : NumeralEnd [] := by
  intro c h
  cases h

theorem numeralEnd_dot (rest : CString) : NumeralEnd (chr '.' :: rest) := by
  intro c h
  cases h
  decide

/-- One dotted part of an address. -/
theorem inetParts_dot {fuel : Nat} {parts : List Nat} {n : Nat} (hl : parts.length ≤ 2)
    (hn : n < 256) (rest : CString) :
    inetParts (fuel + 1) parts (decimal n ++ chr '.' :: rest) =
      inetParts fuel (parts ++ [n]) rest := by
  rw [inetParts, head_decimal_isdigit, if_pos rfl, strtoul0_decimal n (numeralEnd_dot rest)]
  have h32 : ¬ 0xffffffff < n := by omega
  have h8 : ¬ (2 < parts.length ∨ 0xff < n) := by omega
  simp only [h32, h8, if_false, if_true]

theorem inetNumber_dottedQuad {a b c d : Nat} (ha : a < 256) (hb : b < 256) (hc : c < 256)
    (hd : d < 256) :
    inetNumber (dottedQuad a b c d) = some (a * 16777216 + b * 65536 + c * 256 + d) := by
  have hlast : inetParts 1 [a, b, c] (decimal d) = some ([a, b, c], d) := by
    have hread := strtoul0_decimal d numeralEnd_nil
    have hhead := head_decimal_isdigit d []
    rw [List.append_nil] at hread hhead
    have h32 : ¬ 0xffffffff < d := by omega
    have h8 : d ≤ inetMax [a, b, c].length := by
      show d ≤ 0xff
      omega
    rw [inetParts, hhead, if_pos rfl, hread]
    simp only [h32, h8, if_false, if_true]
  unfold inetNumber dottedQuad
  rw [inetParts_dot (by simp) ha, inetParts_dot (by simp) hb, inetParts_dot (by simp) hc]
  simp only [List.nil_append, List.cons_append, hlast, Option.map_some, inetCombine]

theorem not_isspace_of_isdigit {c : UInt8} (h : isdigit c = true) : isspace c = false := by
  rw [isdigit_iff] at h
  simp only [isspace, Bool.or_eq_false_iff, Bool.and_eq_false_iff, beq_eq_false_iff_ne,
    decide_eq_false_iff_not, UInt8.le_iff_toNat_le]
  constructor
  · rintro rfl
    have h32 : (32 : UInt8).toNat = 32 := rfl
    omega
  · right
    have h13 : (13 : UInt8).toNat = 13 := rfl
    omega

theorem sign_of_isdigit {s : CString} (h : s.head?.any isdigit = true) : sign s = (false, s) := by
  cases s with
  | nil => rfl
  | cons c cs =>
    have hc : isdigit c = true := by simpa using h
    have hm : c ≠ chr '-' := by
      rintro rfl
      exact absurd hc (by decide)
    have hp : c ≠ chr '+' := by
      rintro rfl
      exact absurd hc (by decide)
    simp [sign, hm, hp]

theorem strtol_decimal {n : Nat} (hn : n < 2 ^ 63) :
    strtol (decimal n) = ⟨n, [], true, false⟩ := by
  have hhead := head_decimal_isdigit n []
  have hread := @readDigits_decimal n [] (by intro c h; cases h)
  rw [List.append_nil] at hread hhead
  have hspace : (decimal n).dropWhile isspace = decimal n := by
    obtain ⟨z, zs, hzs⟩ := List.exists_cons_of_ne_nil (decimal_ne_nil n)
    have hz := not_isspace_of_isdigit (decimal_isdigit n z (by simp [hzs]))
    rw [hzs, List.dropWhile_cons_of_neg (by simp [hz])]
  have hlow : ¬ ((n : Int) < longMin) := by unfold longMin; omega
  have hhigh : ¬ (longMax < (n : Int)) := by unfold longMax; omega
  unfold strtol
  rw [hspace, sign_of_isdigit hhead]
  simp only [hhead, hread, hlow, hhigh, if_true, if_false, Bool.false_eq_true]

theorem mem_dottedQuad {a b c d : Nat} {x : UInt8} (hx : x ∈ dottedQuad a b c d) :
    isdigit x = true ∨ x = chr '.' := by
  simp only [dottedQuad, List.mem_append, List.mem_cons] at hx
  rcases hx with h | h | h | h | h | h | h
  · exact .inl (decimal_isdigit a x h)
  · exact .inr h
  · exact .inl (decimal_isdigit b x h)
  · exact .inr h
  · exact .inl (decimal_isdigit c x h)
  · exact .inr h
  · exact .inl (decimal_isdigit d x h)

theorem length_dottedQuad_le {a b c d : Nat} (ha : a < 256) (hb : b < 256) (hc : c < 256)
    (hd : d < 256) : (dottedQuad a b c d).length ≤ 15 := by
  have hl (n : Nat) (hn : n < 256) : (decimal n).length ≤ 3 :=
    length_decimal_le (by decide) (by omega)
  simp only [dottedQuad, List.length_append, List.length_cons]
  have h1 := hl a ha
  have h2 := hl b hb
  have h3 := hl c hc
  have h4 := hl d hd
  omega

theorem dottedQuad_ne_nil (a b c d : Nat) : dottedQuad a b c d ≠ [] := by
  simp [dottedQuad]

theorem head_dottedQuad_isdigit (a b c d : Nat) (rest : CString) :
    (dottedQuad a b c d ++ rest).head?.any isdigit = true := by
  rw [dottedQuad, List.append_assoc]
  exact head_decimal_isdigit a _

/-! ## Reading any numeral -/

/-- The number that a string of decimal digits denotes. -/
def numeral (ds : CString) : Nat := ds.foldl (fun acc c => acc * 10 + (c.toNat - 48)) 0

theorem isdigit_of_digitValue {c : UInt8} {d : Nat} (h : digitValue 10 c = some d) :
    isdigit c = true ∧ d = c.toNat - 48 := by
  by_contra hn
  unfold digitValue digitOf at h
  split at h
  next hc =>
    rw [Option.filter_eq_some_iff] at h
    exact hn ⟨hc, by simpa using h.1.symm⟩
  next hc =>
    -- a letter is worth at least 10
    rw [Option.filter_eq_some_iff] at h
    obtain ⟨hv, hlt⟩ := h
    simp only [decide_eq_true_eq, UInt8.le_iff_toNat_le] at hv hlt
    have h97 : (97 : UInt8).toNat = 97 := rfl
    have h122 : (122 : UInt8).toNat = 122 := rfl
    have h65 : (65 : UInt8).toNat = 65 := rfl
    have h90 : (90 : UInt8).toNat = 90 := rfl
    split at hv
    · simp only [Option.some.injEq] at hv
      omega
    split at hv
    · simp only [Option.some.injEq] at hv
      omega
    · cases hv

/-- When nothing is left, everything was a digit. -/
theorem readDigits_eq_nil {acc n : Nat} {s : CString} (h : readDigits 10 acc s = (n, [])) :
    (∀ c ∈ s, isdigit c = true) ∧ n = s.foldl (fun acc c => acc * 10 + (c.toNat - 48)) acc := by
  induction s generalizing acc with
  | nil =>
    simp only [readDigits, Prod.mk.injEq, and_true] at h
    exact ⟨by simp, h.symm⟩
  | cons c cs ih =>
    rw [readDigits] at h
    cases hd : digitValue 10 c with
    | none =>
      rw [hd] at h
      simp at h
    | some d =>
      rw [hd] at h
      obtain ⟨hdigit, rfl⟩ := isdigit_of_digitValue hd
      obtain ⟨hall, hn⟩ := ih h
      exact ⟨List.forall_mem_cons.mpr ⟨hdigit, hall⟩, hn⟩

/-- A string without a minus sign that `strtol` reads to its end: white space, an
optional plus sign and decimal digits. -/
theorem strtol_complete {s : CString} (hminus : chr '-' ∉ s) (hconv : (strtol s).converted = true)
    (hrange : (strtol s).erange = false) (hrest : (strtol s).rest = []) :
    ∃ space plus digits, s = space ++ (plus ++ digits) ∧ (∀ c ∈ space, isspace c = true) ∧
      (plus = [] ∨ plus = [chr '+']) ∧ digits ≠ [] ∧ (∀ c ∈ digits, isdigit c = true) ∧
      (strtol s).value = (numeral digits : Int) := by
  have hs := (List.takeWhile_append_dropWhile (p := isspace) (l := s)).symm
  have hspace : ∀ c ∈ s.takeWhile isspace, isspace c = true := fun c hc => List.mem_takeWhile_imp hc
  unfold strtol at hconv hrange hrest ⊢
  generalize s.dropWhile isspace = u at *
  generalize s.takeWhile isspace = space at *
  have hsign : ∃ plus digits, u = plus ++ digits ∧ (plus = [] ∨ plus = [chr '+']) ∧
      sign u = (false, digits) := by
    cases u with
    | nil => exact ⟨[], [], rfl, .inl rfl, rfl⟩
    | cons c cs =>
      have hc : c ≠ chr '-' := by
        rintro rfl
        exact hminus (by rw [hs]; simp)
      by_cases hp : c = chr '+'
      · exact ⟨[c], cs, rfl, .inr (by rw [hp]), by simp [sign, hp]; decide⟩
      · exact ⟨[], c :: cs, rfl, .inl rfl, by simp [sign, hc, hp]⟩
  obtain ⟨plus, digits, hu, hplus, hsign⟩ := hsign
  rw [hsign] at hconv hrange hrest ⊢
  simp only at hconv hrange hrest ⊢
  split at hconv
  next hhead =>
    obtain ⟨n, rest, hread⟩ : ∃ n rest, readDigits 10 0 digits = (n, rest) := ⟨_, _, rfl⟩
    have hlow : ¬ ((n : Int) < longMin) := by unfold longMin; omega
    simp only [hhead, hread, if_true, Bool.false_eq_true, if_false, hlow] at hrange hrest ⊢
    split at hrange
    · cases hrange
    next hhigh =>
    rw [if_neg hhigh] at hrest ⊢
    simp only at hrest
    subst hrest
    obtain ⟨hdigits, hn⟩ := readDigits_eq_nil hread
    refine ⟨space, plus, digits, by rw [hs, hu], hspace, hplus, ?_, hdigits, by rw [hn]; rfl⟩
    rintro rfl
    simp at hhead
  · cases hconv

end VlanTagger.Lib.CString
