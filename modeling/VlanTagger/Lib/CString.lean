import Mathlib.Data.List.TakeWhile
import Mathlib.Data.UInt
import VlanTagger.Lib.ByteOrder

/-!
# C strings and the library functions on them

A C string is the list of its bytes without the terminating NUL; `cstr` reads
one from an array of characters. The functions follow the C standard, POSIX and
the glibc documentation in the C locale: `fgets`, `strtok_r` with one delimiter,
`strtol` in base 10, and `inet_aton` with its one- to four-part, decimal, octal
and hexadecimal forms. `long` has 64 bits.
-/
namespace VlanTagger.Lib

abbrev CString := List UInt8

namespace CString

/-- The byte of an ASCII character. -/
def chr (c : Char) : UInt8 := c.toUInt8

/-- The bytes of an ASCII text. -/
def ofString (s : String) : CString := s.toList.map chr

/-- The string that starts an array of characters. -/
def cstr (mem : List UInt8) : CString := mem.takeWhile (fun c => c ≠ 0)

def isspace (c : UInt8) : Bool := c == 32 || (9 ≤ c && c ≤ 13)

def isdigit (c : UInt8) : Bool := 48 ≤ c && c ≤ 57

/-! ## Reading a stream line by line -/

/-- `fgets(buf, size, stream)`: at most `size - 1` bytes, up to and with the first
newline, and what is left of the stream; `none` at the end of the stream. -/
def fgets (size : Nat) (stream : List UInt8) : Option (List UInt8 × List UInt8) :=
  if stream = [] then none
  else
    let window := stream.take (size - 1)
    let piece := window.takeWhile (fun c => c ≠ chr '\n') ++
      ((window.dropWhile (fun c => c ≠ chr '\n')).take 1)
    some (piece, stream.drop piece.length)

/-- What successive calls of `fgets` store until one returns `NULL`, with the
bytes `acc` of the current piece already read. -/
def pieces (size : Nat) (acc : List UInt8) : List UInt8 → List (List UInt8)
  | [] => if acc = [] then [] else [acc]
  | c :: cs =>
    if c = chr '\n' ∨ size ≤ acc.length + 2 then (acc ++ [c]) :: pieces size [] cs
    else pieces size (acc ++ [c]) cs

/-! ## Tokens and numbers -/

/-- `strtok_r` with one delimiter: the token and the string behind `saveptr`. -/
def strtok (delim : UInt8) (s : CString) : Option (CString × CString) :=
  let t := s.dropWhile (fun c => c = delim)
  if t = [] then none
  else some (t.takeWhile (fun c => c ≠ delim), (t.dropWhile (fun c => c ≠ delim)).tail)

/-- The value of a digit or letter. -/
def digitOf (c : UInt8) : Option Nat :=
  if isdigit c then some (c.toNat - 48)
  else if 97 ≤ c ∧ c ≤ 122 then some (c.toNat - 87)
  else if 65 ≤ c ∧ c ≤ 90 then some (c.toNat - 55)
  else none

/-- The value of a digit in the given base. -/
def digitValue (base : Nat) (c : UInt8) : Option Nat := (digitOf c).filter (fun d => d < base)

/-- The number read from the longest run of digits, after `acc`, and the rest. -/
def readDigits (base : Nat) (acc : Nat) : CString → Nat × CString
  | [] => (acc, [])
  | c :: cs =>
    match digitValue base c with
    | some d => readDigits base (acc * base + d) cs
    | none => (acc, c :: cs)

/-- A hexadecimal prefix with a digit behind it. -/
def hasHexPrefix (s : CString) : Bool :=
  match s with
  | z :: x :: d :: _ =>
    z == chr '0' && (x == chr 'x' || x == chr 'X') && (digitValue 16 d).isSome
  | _ => false

/-- `strtoul(s, &end, 0)` for a string that starts with a digit. -/
def strtoul0 (s : CString) : Nat × CString :=
  if hasHexPrefix s then readDigits 16 0 (s.drop 2)
  else if s.head? = some (chr '0') then readDigits 8 0 s
  else readDigits 10 0 s

structure Strtol where
  value : Int
  rest : CString
  /-- `endptr != nptr` -/
  converted : Bool
  /-- `errno == ERANGE` -/
  erange : Bool

def longMin : Int := -9223372036854775808
def longMax : Int := 9223372036854775807

/-- An optional sign. -/
def sign (s : CString) : Bool × CString :=
  match s with
  | c :: cs => if c = chr '-' then (true, cs) else if c = chr '+' then (false, cs) else (false, s)
  | [] => (false, [])

/-- `strtol(s, &endptr, 10)` -/
def strtol (s : CString) : Strtol :=
  let (neg, u) := sign (s.dropWhile isspace)
  if u.head?.any isdigit then
    let (n, rest) := readDigits 10 0 u
    let v : Int := if neg then -n else n
    if v < longMin then ⟨longMin, rest, true, true⟩
    else if longMax < v then ⟨longMax, rest, true, true⟩
    else ⟨v, rest, true, false⟩
  else ⟨0, s, false, false⟩

/-! ## Internet addresses -/

/-- The largest last part after `n` parts. -/
def inetMax (n : Nat) : Nat :=
  match n with
  | 0 => 0xffffffff
  | 1 => 0xffffff
  | 2 => 0xffff
  | _ => 0xff

/-- The address made of up to three one-byte parts and the last part. -/
def inetCombine : List Nat → Nat → Nat
  | [], last => last
  | [a], last => a * 16777216 + last
  | [a, b], last => a * 16777216 + b * 65536 + last
  | a :: b :: c :: _, last => a * 16777216 + b * 65536 + c * 256 + last

/-- The loop of `inet_aton`: `parts` are the parts before `cp`, at most `fuel` more
numbers may follow. -/
def inetParts : Nat → List Nat → CString → Option (List Nat × Nat)
  | 0, _, _ => none
  | fuel + 1, parts, cp =>
    if cp.head?.any isdigit then
      let (val, rest) := strtoul0 cp
      if 0xffffffff < val then none
      else
        match rest with
        | [] => if val ≤ inetMax parts.length then some (parts, val) else none
        | c :: cs =>
          if c = chr '.' then
            if 2 < parts.length ∨ 0xff < val then none else inetParts fuel (parts ++ [val]) cs
          else if isspace c then
            if val ≤ inetMax parts.length then some (parts, val) else none
          else none
    else none

/-- The address that `inet_aton` reads, as a number. -/
def inetNumber (cp : CString) : Option Nat :=
  (inetParts 4 [] cp).map fun r => inetCombine r.1 r.2

/-- `inet_aton`: what it stores in `s_addr`, in network byte order. -/
def inetAton (host : ByteOrder) (cp : CString) : Option UInt32 :=
  (inetNumber cp).map fun v => host.htonl (UInt32.ofNat v)

/-! ## What the functions return -/

theorem cstr_append_zero {s : CString} (h : ∀ c ∈ s, c ≠ 0) (tail : List UInt8) :
    cstr (s ++ 0 :: tail) = s := by
  unfold cstr
  rw [List.takeWhile_append_of_pos (by simpa using h)]
  simp

/-- Behind a string that is shorter than its array stands the terminator. -/
theorem eq_cstr_append {mem : List UInt8} (h : (cstr mem).length < mem.length) :
    ∃ zs, mem = cstr mem ++ 0 :: zs := by
  have hsplit := (List.takeWhile_append_dropWhile (p := fun c => decide (c ≠ 0)) (l := mem)).symm
  cases hrest : mem.dropWhile (fun c => decide (c ≠ 0)) with
  | nil =>
    rw [hrest, List.append_nil] at hsplit
    rw [cstr, ← hsplit] at h
    exact absurd h (Nat.lt_irrefl _)
  | cons c zs =>
    have hhead := List.head?_dropWhile_not (fun c => decide (c ≠ 0)) mem
    rw [hrest] at hhead hsplit
    have hc : c = 0 := by simpa using hhead
    exact ⟨zs, by rw [← hc]; exact hsplit⟩

theorem ne_zero_of_mem_cstr {mem : List UInt8} {c : UInt8} (h : c ∈ cstr mem) : c ≠ 0 := by
  simpa using List.mem_takeWhile_imp h

/-- Successive calls of `fgets` return the pieces, one after the other. -/
theorem pieces_append {size : Nat} {acc : List UInt8} {cs : List UInt8}
    (hacc : acc.length + 2 ≤ size) (hne : acc ++ cs ≠ []) :
    pieces size acc cs =
      (acc ++ ((cs.take (size - 1 - acc.length)).takeWhile (fun c => c ≠ chr '\n') ++
        ((cs.take (size - 1 - acc.length)).dropWhile (fun c => c ≠ chr '\n')).take 1)) ::
      pieces size [] (cs.drop
        ((cs.take (size - 1 - acc.length)).takeWhile (fun c => c ≠ chr '\n') ++
          ((cs.take (size - 1 - acc.length)).dropWhile (fun c => c ≠ chr '\n')).take 1).length) := by
  induction cs generalizing acc with
  | nil =>
    have ha : acc ≠ [] := by simpa using hne
    simp [pieces, ha]
  | cons c cs ih =>
    obtain ⟨m, hm⟩ : ∃ m, size - 1 - acc.length = m + 1 := ⟨size - 2 - acc.length, by omega⟩
    rw [hm, List.take_succ_cons]
    by_cases hc : c = chr '\n'
    · simp [pieces, hc]
    · by_cases hs : size ≤ acc.length + 2
      · have hm0 : m = 0 := by omega
        subst hm0
        simp [pieces, hc, hs]
      · have hm' : size - 1 - (acc ++ [c]).length = m := by
          rw [List.length_append, List.length_singleton]
          omega
        rw [pieces, if_neg (by simp [hc, hs]),
          ih (by rw [List.length_append, List.length_singleton]; omega) (by simp), hm']
        simp [hc]

/-- `fgets` and the pieces of a stream. -/
theorem pieces_eq_fgets {size : Nat} (hs : 2 ≤ size) (stream : List UInt8) :
    pieces size [] stream =
      match fgets size stream with
      | none => []
      | some (piece, rest) => piece :: pieces size [] rest := by
  by_cases h : stream = []
  · simp [fgets, pieces, h]
  · rw [pieces_append (by simpa using hs) (by simpa using h)]
    simp [fgets, h]

/-- A piece is not empty and leaves room for the terminator. -/
theorem length_of_mem_pieces {size : Nat} {acc cs piece : List UInt8} (hacc : acc.length + 2 ≤ size)
    (h : piece ∈ pieces size acc cs) : 0 < piece.length ∧ piece.length < size := by
  induction cs generalizing acc with
  | nil =>
    rw [pieces] at h
    split at h
    · cases h
    next hne =>
    rw [List.mem_singleton] at h
    subst h
    exact ⟨List.length_pos_iff.mpr hne, by omega⟩
  | cons c cs ih =>
    rw [pieces] at h
    split at h
    next hend =>
      rcases List.mem_cons.mp h with rfl | h
      · rw [List.length_append, List.length_singleton]
        omega
      · exact ih (by rw [List.length_nil]; omega) h
    next hend =>
      exact ih (by rw [List.length_append, List.length_singleton]; omega) h

theorem subset_of_mem_pieces {size : Nat} {acc cs piece : List UInt8} (h : piece ∈ pieces size acc cs) :
    piece ⊆ acc ++ cs := by
  induction cs generalizing acc with
  | nil =>
    rw [pieces] at h
    split at h
    · cases h
    · rw [List.mem_singleton.mp h, List.append_nil]
      exact List.Subset.refl _
  | cons c cs ih =>
    have happ : acc ++ c :: cs = acc ++ [c] ++ cs := by rw [List.append_assoc, List.singleton_append]
    rw [happ]
    rw [pieces] at h
    split at h
    · rcases List.mem_cons.mp h with rfl | h
      · exact List.subset_append_left _ _
      · exact List.Subset.trans (ih h) (List.subset_append_right _ _)
    · exact ih h

/-- Where a line ends, a piece ends. -/
theorem pieces_newline {size : Nat} {acc line : List UInt8} (hnl : chr '\n' ∉ line) (rest : List UInt8) :
    pieces size acc (line ++ chr '\n' :: rest) =
      pieces size acc (line ++ [chr '\n']) ++ pieces size [] rest := by
  induction line generalizing acc with
  | nil => simp [pieces]
  | cons c cs ih =>
    have hcs : chr '\n' ∉ cs := fun h => hnl (List.mem_cons_of_mem _ h)
    rw [List.cons_append, List.cons_append, pieces, pieces]
    split
    · rw [ih hcs, List.cons_append]
    · exact ih hcs

/-- What is read so far is the start of the next piece, which goes on with what follows. -/
theorem pieces_cons {size : Nat} {acc : List UInt8} (hne : acc ≠ []) (cs : List UInt8) :
    ∃ last more, last <+: cs ∧ pieces size acc cs = (acc ++ last) :: more := by
  induction cs generalizing acc with
  | nil => exact ⟨[], [], List.nil_prefix, by rw [pieces, if_neg hne, List.append_nil]⟩
  | cons c cs ih =>
    rw [pieces]
    split
    · exact ⟨[c], _, List.prefix_append [c] cs, rfl⟩
    · obtain ⟨last, more, hlast, heq⟩ :=
        @ih (acc ++ [c]) (List.append_ne_nil_of_right_ne_nil _ (by simp))
      refine ⟨c :: last, more, List.prefix_cons_iff.mpr (.inr ⟨last, rfl, hlast⟩), ?_⟩
      rw [heq, List.append_assoc, List.singleton_append]

/-- A text that ends no piece is part of what is read so far. -/
theorem pieces_shift {size : Nat} {acc line : List UInt8} (hnl : chr '\n' ∉ line)
    (hlen : acc.length + line.length + 2 ≤ size) (rest : List UInt8) :
    pieces size acc (line ++ rest) = pieces size (acc ++ line) rest := by
  induction line generalizing acc with
  | nil => rw [List.nil_append, List.append_nil]
  | cons c cs ih =>
    have hc : c ≠ chr '\n' := fun h => hnl (h ▸ List.mem_cons_self)
    rw [List.length_cons] at hlen
    rw [List.cons_append, pieces, if_neg (by simp only [hc, false_or]; omega),
      ih (fun h => hnl (List.mem_cons_of_mem _ h)) (by rw [List.length_append, List.length_singleton]; omega),
      List.append_assoc, List.singleton_append]

/-- A long line fills a piece. -/
theorem pieces_full {size : Nat} {line : List UInt8} (hnl : chr '\n' ∉ line)
    (hlen : line.length + 1 = size) (hsize : 2 ≤ size) (rest : List UInt8) :
    pieces size [] (line ++ rest) = line :: pieces size [] rest := by
  obtain ⟨init, c, rfl⟩ : ∃ init c, line = init ++ [c] := by
    refine ⟨line.dropLast, line.getLast ?_, (List.dropLast_concat_getLast _).symm⟩
    intro hnil
    rw [hnil, List.length_nil] at hlen
    omega
  rw [List.length_append, List.length_singleton] at hlen
  rw [List.append_assoc, pieces_shift (fun h => hnl (List.mem_append_left _ h))
    (by rw [List.length_nil]; omega), List.nil_append, List.singleton_append, pieces,
    if_pos (.inr (by omega))]

/-- A short line is one piece, with its newline. -/
theorem pieces_line {size : Nat} {acc line : List UInt8} (hnl : chr '\n' ∉ line)
    (hlen : acc.length + line.length + 2 ≤ size) (rest : List UInt8) :
    pieces size acc (line ++ chr '\n' :: rest) =
      (acc ++ (line ++ [chr '\n'])) :: pieces size [] rest := by
  rw [pieces_shift hnl hlen, pieces, if_pos (.inl rfl), List.append_assoc]

/-- A short last line without a newline is one piece, unless it is empty. -/
theorem pieces_last {size : Nat} {acc line : List UInt8} (hnl : chr '\n' ∉ line)
    (hlen : acc.length + line.length + 2 ≤ size) :
    pieces size acc line = if acc ++ line = [] then [] else [acc ++ line] := by
  have hshift := pieces_shift hnl hlen []
  rw [List.append_nil] at hshift
  rw [hshift, pieces]

/-- The first token of a string that does not start with the delimiter. -/
theorem strtok_cons {delim : UInt8} {tok : CString} (hne : tok ≠ []) (h : delim ∉ tok)
    (rest : CString) : strtok delim (tok ++ delim :: rest) = some (tok, rest) := by
  obtain ⟨c, cs, rfl⟩ := List.exists_cons_of_ne_nil hne
  have hc : c ≠ delim := fun hc => h (hc ▸ List.mem_cons_self)
  have hall : ∀ d ∈ c :: cs, decide (d ≠ delim) = true := by
    intro d hd
    exact decide_eq_true (fun he => h (he ▸ hd))
  have hdrop : (c :: cs ++ delim :: rest).dropWhile (fun d => decide (d = delim)) =
      c :: cs ++ delim :: rest := by
    rw [List.cons_append, List.dropWhile_cons_of_neg (by simpa using hc)]
  unfold strtok
  simp only [hdrop]
  rw [if_neg (by simp), List.takeWhile_append_of_pos hall, List.dropWhile_append_of_pos hall]
  simp

/-- The last token. -/
theorem strtok_last {delim : UInt8} {tok : CString} (hne : tok ≠ []) (h : delim ∉ tok) :
    strtok delim tok = some (tok, []) := by
  obtain ⟨c, cs, rfl⟩ := List.exists_cons_of_ne_nil hne
  have hc : c ≠ delim := fun hc => h (hc ▸ List.mem_cons_self)
  have hall : ∀ d ∈ c :: cs, decide (d ≠ delim) = true := by
    intro d hd
    exact decide_eq_true (fun he => h (he ▸ hd))
  have hdrop : (c :: cs).dropWhile (fun d => decide (d = delim)) = c :: cs := by
    rw [List.dropWhile_cons_of_neg (by simpa using hc)]
  unfold strtok
  simp only [hdrop]
  rw [if_neg (by simp), List.takeWhile_eq_self_iff.mpr hall, List.dropWhile_eq_nil_iff.mpr hall]
  rfl

/-- What a successful call says about its argument. -/
theorem strtok_some {delim : UInt8} {s tok rest : CString} (h : strtok delim s = some (tok, rest)) :
    tok ≠ [] ∧ delim ∉ tok ∧ ∃ lead, (∀ c ∈ lead, c = delim) ∧
      (s = lead ++ (tok ++ delim :: rest) ∨ rest = [] ∧ s = lead ++ tok) := by
  unfold strtok at h
  simp only at h
  split at h
  · cases h
  next hne =>
  simp only [Option.some.injEq, Prod.mk.injEq] at h
  obtain ⟨htok, hrest⟩ := h
  have hlead : ∀ c ∈ s.takeWhile (fun c => decide (c = delim)), c = delim := fun c hc => by
    simpa using List.mem_takeWhile_imp hc
  have hs := (List.takeWhile_append_dropWhile (p := fun c => decide (c = delim)) (l := s)).symm
  revert hne htok hrest hs
  generalize hr : s.dropWhile (fun c => decide (c = delim)) = run
  intro hne htok hrest hs
  obtain ⟨c, cs, rfl⟩ := List.exists_cons_of_ne_nil hne
  have hc : c ≠ delim := by
    have hd := List.head?_dropWhile_not (fun c => decide (c = delim)) s
    rw [hr] at hd
    simpa using hd
  have hsplit := (List.takeWhile_append_dropWhile (p := fun d => decide (d ≠ delim)) (l := c :: cs)).symm
  rw [htok] at hsplit
  refine ⟨?_, ?_, _, hlead, ?_⟩
  · rw [← htok, List.takeWhile_cons_of_pos (by simpa using hc)]
    simp
  · intro hmem
    rw [← htok] at hmem
    simpa using List.mem_takeWhile_imp hmem
  · cases hpost : (c :: cs).dropWhile (fun d => decide (d ≠ delim)) with
    | nil =>
      rw [hpost] at hrest hsplit
      rw [List.append_nil] at hsplit
      exact .inr ⟨hrest.symm, hs.trans (by rw [hsplit])⟩
    | cons d ds =>
      have hd : d = delim := by
        have hh := List.head?_dropWhile_not (fun d => decide (d ≠ delim)) (c :: cs)
        rw [hpost] at hh
        simpa using hh
      rw [hpost] at hrest hsplit
      rw [List.tail_cons] at hrest
      exact .inl (hs.trans (by rw [hsplit, hd, hrest]))

end CString
end VlanTagger.Lib
