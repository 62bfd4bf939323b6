import VlanTagger.Lib.Hex
import VlanTagger.Logger.Count
import VlanTagger.Nodes.Node

/-!
# The hex dump of nodes/src/logger_node.c

`log_packet_hex` builds its text in a local array by one `snprintf` after the other, each
followed by a test that leaves for `truncated_end`. For a packet that fits the buffer of
the node no test ever does that, and the text that goes to `printL` shows the packet.
-/
namespace VlanTagger.Nodes

open Lib Lib.CString Queue Logger

/-- `sizeof(full_dump)` -/
def dumpSize : Nat := 8192

/-- The local variables of `log_packet_hex`. -/
structure Dump where
  fullDump : Memory UInt8
  totalOffset : Nat
  /-- `total_offset` at every call of `snprintf` -/
  offsets : List Nat

/-- `snprintf(dst + off, size, ..)` with the text that its format expands to: the memory and
the returned value. -/
def snprintf (dst : Memory UInt8) (off size : Nat) (text : CString) : Memory UInt8 × Int :=
  let (buffer, n) := vsnprintf size text
  (if size = 0 then dst else dst.memcpy off (Memory.ofList (buffer ++ [0]) 0) (buffer.length + 1), n)

/-- One `snprintf` with the test behind it; an error is the `goto truncated_end`. -/
def put (text : CString) (d : Dump) : Except Dump Dump :=
  let (fullDump, n) := snprintf d.fullDump d.totalOffset (dumpSize - d.totalOffset) text
  let offsets := d.offsets ++ [d.totalOffset]
  if n < 0 ∨ ((dumpSize - d.totalOffset : Nat) : Int) ≤ n then .error ⟨fullDump, d.totalOffset, offsets⟩
  else .ok ⟨fullDump, d.totalOffset + n.toNat, offsets⟩

/-- `"=== %s: Packet #%lu (%zd bytes) ===\n"` -/
def dumpHeader (nodeName : CString) (size pktNum : Nat) : CString :=
  ofString "=== " ++ (nodeName ++ (ofString ": Packet #" ++ (decimal pktNum ++ (ofString " (" ++
    (decimal size ++ ofString " bytes) ===\n")))))

/-- The character of the ASCII column. -/
def visible (c : UInt8) : UInt8 := if 32 ≤ c ∧ c ≤ 126 then c else chr '.'

/-- The body of the loop over `i`. -/
def dumpLine (buffer : Memory UInt8) (size i : Nat) (d : Dump) : Except Dump Dump := do
  let d ← put (hexPadded 4 i ++ ofString ": ") d
  let d ← (List.range 16).foldlM (fun d j =>
    if i + j < size then put (hexPadded 2 (buffer (i + j)).toNat ++ ofString " ") d
    else put (ofString "   ") d) d
  let d ← put (ofString " |") d
  -- `j < 16 && i + j < size`
  let d ← (List.range (min 16 (size - i))).foldlM (fun d j => put [visible (buffer (i + j))] d) d
  let d ← put (ofString "|") d
  if i + 16 < size then put (ofString "\n") d else .ok d

/-- The loop over `i` = 0, 16, .. below `size`. -/
def dumpLines (buffer : Memory UInt8) (size : Nat) (d : Dump) : Except Dump Dump :=
  (List.range ((size + 15) / 16)).foldlM (fun d k => dumpLine buffer size (16 * k) d) d

/-- `truncated` and the array at the end of `log_packet_hex`. -/
structure Dumped where
  truncated : Bool
  dump : Dump

/-- From the label `truncated_end` on. -/
def truncatedEnd : Except Dump Dump → Dumped
  | .ok d => ⟨false, d⟩
  | .error d =>
    if d.totalOffset < dumpSize then
      ⟨true, (snprintf d.fullDump d.totalOffset (dumpSize - d.totalOffset)
        (ofString "\n...(truncated)...\n")).1, d.totalOffset, d.offsets ++ [d.totalOffset]⟩
    else ⟨true, d⟩

/-- The array is not initialised: `fullDump` is what it holds at first. -/
def logPacketHex (nodeName : CString) (buffer : Memory UInt8) (size pktNum : Nat)
    (fullDump : Memory UInt8) : Dumped :=
  truncatedEnd (put (dumpHeader nodeName size pktNum) ⟨fullDump, 0, []⟩ >>= dumpLines buffer size)

/-- The string that is passed to `printL` for its `%s`. -/
def Dumped.text (r : Dumped) : CString := cstr (r.dump.fullDump.bytes dumpSize)

/-! ## Appending to the array -/

/-- The array holds `text` and its NUL. -/
structure Holds (d : Dump) (text : CString) : Prop where
  offset : d.totalOffset = text.length
  bytes : d.fullDump.bytes text.length = text
  nul : text ≠ [] → d.fullDump text.length = 0
  offsets : ∀ off ∈ d.offsets, off < dumpSize

theorem put_ok {d : Dump} {text t : CString} (h : Holds d text) (hroom : text.length + t.length < dumpSize) :
    ∃ d', put t d = .ok d' ∧ Holds d' (text ++ t) := by
  have hsize : dumpSize - text.length ≠ 0 := by omega
  have htake : t.take (dumpSize - text.length - 1) = t := List.take_of_length_le (by omega)
  have hmax : (t.length : Int) ≤ intMax := by
    unfold dumpSize at hroom
    unfold intMax
    omega
  have hfits : ¬ ((t.length : Int) < 0 ∨ ((dumpSize - text.length : Nat) : Int) ≤ t.length) := by omega
  simp only [put, snprintf, vsnprintf, h.offset, if_neg hsize, htake, if_pos hmax, if_neg hfits]
  refine ⟨_, rfl, ?_, ?_, fun _ => ?_, ?_⟩
  · simp
  · have hwhole := Memory.bytes_memcpy_append d.fullDump (Memory.ofList (t ++ [0]) 0) text.length (t.length + 1)
    have hsrc : (Memory.ofList (t ++ [0]) 0).bytes (t.length + 1) = t ++ [0] := by
      have hof := Memory.bytes_ofList (t ++ [0]) (0 : UInt8)
      rwa [List.length_append] at hof
    rw [h.bytes, hsrc, ← List.append_assoc] at hwhole
    have htext := congrArg (List.take (text ++ t).length) hwhole
    rwa [List.take_left' rfl, List.length_append, Memory.take_bytes _ (by omega), ← List.length_append] at htext
  · rw [List.length_append]
    show d.fullDump.memcpy text.length (Memory.ofList (t ++ [0]) 0) (t.length + 1) (text.length + t.length) = 0
    rw [Memory.memcpy_of_mem _ _ (Nat.le_add_right _ _) (by omega), Nat.add_sub_cancel_left]
    exact (Memory.ofList_of_lt _ _ (by simp)).trans (by simp)
  · intro off hoff
    rcases List.mem_append.mp hoff with hoff | hoff
    · exact h.offsets off hoff
    · rw [List.mem_singleton.mp hoff]
      omega

def puts (texts : List CString) (d : Dump) : Except Dump Dump := texts.foldlM (fun d t => put t d) d

theorem puts_ok {d : Dump} {text : CString} {texts : List CString} (h : Holds d text)
    (hroom : text.length + texts.flatten.length < dumpSize) :
    ∃ d', puts texts d = .ok d' ∧ Holds d' (text ++ texts.flatten) := by
  induction texts generalizing d text with
  | nil => exact ⟨d, rfl, by rwa [List.flatten_nil, List.append_nil]⟩
  | cons t texts ih =>
    rw [List.flatten_cons, List.length_append] at hroom
    obtain ⟨d₁, hput, hd₁⟩ := put_ok (t := t) h (by omega)
    obtain ⟨d₂, hputs, hd₂⟩ := ih hd₁ (by rw [List.length_append]; omega)
    refine ⟨d₂, ?_, by rwa [List.flatten_cons, ← List.append_assoc]⟩
    rw [puts, List.foldlM_cons, hput]
    exact hputs

theorem puts_append (texts texts' : List CString) :
    puts (texts ++ texts') = fun d => puts texts d >>= puts texts' :=
  funext fun _ => List.foldlM_append

theorem puts_singleton (t : CString) : puts [t] = put t := by
  funext d
  rw [puts, List.foldlM_cons]
  exact bind_pure _

/-- A loop over texts. -/
theorem foldlM_puts {ι : Type*} {body : ι → Dump → Except Dump Dump} {texts : ι → List CString}
    (h : ∀ i d, body i d = puts (texts i) d) (l : List ι) (d : Dump) :
    l.foldlM (fun d i => body i d) d = puts (l.flatMap texts) d := by
  induction l generalizing d with
  | nil => rfl
  | cons i l ih =>
    rw [List.foldlM_cons, List.flatMap_cons, puts_append, h]
    congr 1
    funext d'
    exact ih d'

/-! ## What is written -/

/-- The texts of one line, in the order of the calls. -/
def lineTexts (buffer : Memory UInt8) (size i : Nat) : List CString :=
  [hexPadded 4 i ++ ofString ": "] ++
    (((List.range 16).flatMap fun j => [if i + j < size then hexPadded 2 (buffer (i + j)).toNat ++ ofString " "
      else ofString "   "]) ++
    ([ofString " |"] ++
    (((List.range (min 16 (size - i))).flatMap fun j => [[visible (buffer (i + j))]]) ++
    ([ofString "|"] ++ if i + 16 < size then [ofString "\n"] else []))))

theorem dumpLine_eq (buffer : Memory UInt8) (size i : Nat) (d : Dump) :
    dumpLine buffer size i d = puts (lineTexts buffer size i) d := by
  have hhex (d : Dump) : (List.range 16).foldlM (fun d j =>
      if i + j < size then put (hexPadded 2 (buffer (i + j)).toNat ++ ofString " ") d
      else put (ofString "   ") d) d = puts ((List.range 16).flatMap fun j =>
        [if i + j < size then hexPadded 2 (buffer (i + j)).toNat ++ ofString " " else ofString "   "]) d := by
    refine foldlM_puts (fun j d => ?_) _ d
    rw [puts_singleton]
    split <;> rfl
  have hascii (d : Dump) : (List.range (min 16 (size - i))).foldlM
      (fun d j => put [visible (buffer (i + j))] d) d =
        puts ((List.range (min 16 (size - i))).flatMap fun j => [[visible (buffer (i + j))]]) d :=
    foldlM_puts (fun j d => by rw [puts_singleton]) _ d
  have hend (d : Dump) : (if i + 16 < size then put (ofString "\n") d else .ok d) =
      puts (if i + 16 < size then [ofString "\n"] else []) d := by
    split
    · rw [puts_singleton]
    · rfl
  simp only [dumpLine, lineTexts, puts_append, puts_singleton, hhex, hascii, hend]

theorem dumpLines_eq (buffer : Memory UInt8) (size : Nat) (d : Dump) : dumpLines buffer size d =
    puts ((List.range ((size + 15) / 16)).flatMap fun k => lineTexts buffer size (16 * k)) d :=
  foldlM_puts (fun k d => dumpLine_eq buffer size (16 * k) d) _ d

section

variable {p : List UInt8} {buffer : Memory UInt8} {k : Nat}

/-- The bytes of line `k`. -/
def row (p : List UInt8) (k : Nat) : List UInt8 := (p.drop (16 * k)).take 16

/-- One of the 16 fields of a line. -/
def field : Option UInt8 → CString
  | some b => hexPadded 2 b.toNat ++ ofString " "
  | none => ofString "   "

def lineText (p : List UInt8) (k : Nat) : CString :=
  (hexPadded 4 (16 * k) ++ ofString ": ") ++ (((List.range 16).flatMap fun j => field (row p k)[j]?) ++
    (ofString " |" ++ ((row p k).map visible ++ ofString "|")))

/-- The number of lines. -/
def lineCount (p : List UInt8) : Nat := (p.length + 15) / 16

def dumpBody (p : List UInt8) : CString := [chr '\n'].intercalate ((List.range (lineCount p)).map (lineText p))

theorem row_eq (h : buffer.bytes p.length = p) (hk : 16 * k ≤ p.length) :
    row p k = (buffer.advance (16 * k)).bytes (min 16 (p.length - 16 * k)) := by
  have hdrop := Memory.drop_bytes buffer hk
  rw [h] at hdrop
  rw [row, hdrop, ← Memory.take_bytes _ (Nat.min_le_right 16 (p.length - 16 * k))]
  rcases Nat.le_total 16 (p.length - 16 * k) with hle | hle
  · rw [Nat.min_eq_left hle]
  · rw [Nat.min_eq_right hle, List.take_of_length_le (by rwa [Memory.length_bytes]),
      List.take_of_length_le (by rw [Memory.length_bytes])]

theorem field_row (h : buffer.bytes p.length = p) (hk : 16 * k ≤ p.length) {j : Nat} (hj : j < 16) :
    (if 16 * k + j < p.length then hexPadded 2 (buffer (16 * k + j)).toNat ++ ofString " "
      else ofString "   ") = field (row p k)[j]? := by
  rw [row_eq h hk]
  by_cases hin : 16 * k + j < p.length
  · have hlt : j < ((buffer.advance (16 * k)).bytes (min 16 (p.length - 16 * k))).length := by
      rw [Memory.length_bytes]
      omega
    rw [if_pos hin, List.getElem?_eq_getElem hlt, Memory.getElem_bytes]
    rfl
  · rw [if_neg hin, List.getElem?_eq_none (by rw [Memory.length_bytes]; omega)]
    rfl

theorem flatten_lineTexts (h : buffer.bytes p.length = p) (hk : 16 * k ≤ p.length) :
    (lineTexts buffer p.length (16 * k)).flatten =
      lineText p k ++ if 16 * k + 16 < p.length then [chr '\n'] else [] := by
  have hhex : ((List.range 16).flatMap fun j => [if 16 * k + j < p.length
      then hexPadded 2 (buffer (16 * k + j)).toNat ++ ofString " " else ofString "   "]).flatten =
        (List.range 16).flatMap fun j => field (row p k)[j]? := by
    rw [← List.map_eq_flatMap, List.flatMap_def]
    exact congrArg List.flatten (List.map_congr_left fun j hj => field_row h hk (List.mem_range.mp hj))
  have hascii : ((List.range (min 16 (p.length - 16 * k))).flatMap
      fun j => [[visible (buffer (16 * k + j))]]).flatten = (row p k).map visible := by
    rw [row_eq h hk, Memory.bytes, List.map_map, ← List.map_eq_flatMap, ← List.flatMap_def,
      ← List.map_eq_flatMap]
    rfl
  have hend : (if 16 * k + 16 < p.length then [ofString "\n"] else []).flatten =
      if 16 * k + 16 < p.length then [chr '\n'] else [] := by
    split <;> rfl
  simp only [lineTexts, List.flatten_append, List.flatten_singleton, hhex, hascii, hend, lineText,
    List.append_assoc]

/-- The lines behind one another are the text with a newline between any two lines. -/
theorem flatten_lines (h : buffer.bytes p.length = p) (hpos : 0 < p.length) :
    ((List.range (lineCount p)).flatMap fun k => lineTexts buffer p.length (16 * k)).flatten = dumpBody p := by
  obtain ⟨n, hn⟩ : ∃ n, lineCount p = n + 1 := ⟨lineCount p - 1, by unfold lineCount; omega⟩
  have hrange : 16 * n < p.length ∧ p.length ≤ 16 * n + 16 := by
    unfold lineCount at hn
    omega
  have hlast := flatten_lineTexts (k := n) h (by omega)
  rw [if_neg (by omega), List.append_nil] at hlast
  have hbefore : ((List.range n).flatMap fun k => lineTexts buffer p.length (16 * k)).flatten =
      ((List.range n).map (lineText p)).flatMap fun t => t ++ [chr '\n'] := by
    rw [List.flatMap_map, List.flatMap_def, List.flatten_flatten, List.map_map, List.flatMap_def]
    refine congrArg List.flatten (List.map_congr_left fun k hk => ?_)
    have hk := List.mem_range.mp hk
    have hline := flatten_lineTexts (k := k) h (by omega)
    rwa [if_pos (by omega)] at hline
  rw [dumpBody, hn, List.range_succ, List.flatMap_append, List.flatten_append, List.flatMap_singleton,
    hbefore, hlast, List.map_append, List.map_singleton, intercalate_concat]

theorem length_field (o : Option UInt8) : (field o).length = 3 := by
  cases o with
  | none => rfl
  | some b =>
    have hb : b.toNat < 16 ^ 2 := b.toNat_lt
    rw [field, List.length_append, length_hexPadded hb]
    rfl

theorem length_lineText (hk : 16 * k < 65536) : (lineText p k).length ≤ 73 := by
  have hoff : (hexPadded 4 (16 * k)).length = 4 := length_hexPadded hk
  have hfields := length_fields (f := fun j => field (row p k)[j]?) (fun j => length_field _) 16
  have hrow : (row p k).length ≤ 16 := List.length_take_le _ _
  rw [lineText, List.length_append, List.length_append, List.length_append, List.length_append,
    List.length_append, List.length_map, hoff, hfields]
  change 4 + 2 + (3 * 16 + (2 + ((row p k).length + 1))) ≤ 73
  omega

theorem lineCount_le (hle : p.length ≤ maxPkgSize) (hk : k < lineCount p) : 16 * k < 65536 := by
  unfold lineCount at hk
  unfold maxPkgSize at hle
  omega

theorem length_dumpBody (hle : p.length ≤ maxPkgSize) : (dumpBody p).length ≤ 7104 := by
  have hcount : lineCount p ≤ 96 := by
    unfold lineCount
    unfold maxPkgSize at hle
    omega
  have hlines : ∀ t ∈ (List.range (lineCount p)).map (lineText p), t.length ≤ 73 := by
    intro t ht
    obtain ⟨k, hk, rfl⟩ := List.mem_map.mp ht
    exact length_lineText (lineCount_le hle (List.mem_range.mp hk))
  have hbody := length_intercalate_le (chr '\n') hlines
  rw [List.length_map, List.length_range] at hbody
  exact hbody.trans (by omega)

theorem length_dumpHeader {nodeName : CString} (hname : nodeName.length ≤ 63) (hle : p.length ≤ maxPkgSize)
    {pktNum : Nat} (hnum : pktNum < 2 ^ 64) : (dumpHeader nodeName p.length pktNum).length ≤ 115 := by
  have hdec : (decimal pktNum).length ≤ 20 := length_decimal_le (by decide) (hnum.trans_le (by decide))
  have hsize : (decimal p.length).length ≤ 4 :=
    length_decimal_le (by decide) (hle.trans_lt (by decide))
  rw [dumpHeader, List.length_append, List.length_append, List.length_append, List.length_append,
    List.length_append, List.length_append]
  change 4 + (nodeName.length + (10 + ((decimal pktNum).length + (2 + ((decimal p.length).length + 12))))) ≤ 115
  omega

/-! ## The characters -/

theorem visible_ge (c : UInt8) : 32 ≤ visible c := by
  unfold visible
  split
  next h => exact h.1
  next => decide

/-- The characters of a fixed text. -/
theorem ge_of_all {s : CString} (h : s.all (fun c => 32 ≤ c) = true) : ∀ c ∈ s, 32 ≤ c :=
  fun c hc => of_decide_eq_true (List.all_eq_true.mp h c hc)

theorem field_ge (o : Option UInt8) : ∀ c ∈ field o, 32 ≤ c := by
  cases o with
  | none => exact ge_of_all (by decide)
  | some b =>
    intro c hc
    have hb : b.toNat < 16 ^ 2 := b.toNat_lt
    rcases List.mem_append.mp hc with hc | hc
    · exact UInt8.le_trans (by decide) (visible_hexPadded hb c hc)
    · exact ge_of_all (by decide) c hc

/-- Neither a NUL nor a newline stands inside a line. -/
theorem lineText_ge (hk : 16 * k < 65536) : ∀ c ∈ lineText p k, 32 ≤ c := by
  intro c hc
  simp only [lineText, List.mem_append, List.mem_flatMap, List.mem_map] at hc
  rcases hc with (hc | hc) | ⟨j, -, hc⟩ | hc | ⟨b, -, rfl⟩ | hc
  · exact UInt8.le_trans (by decide) (visible_hexPadded hk c hc)
  · exact ge_of_all (by decide) c hc
  · exact field_ge _ c hc
  · exact ge_of_all (by decide) c hc
  · exact visible_ge b
  · exact ge_of_all (by decide) c hc

theorem dumpBody_ne_zero (hle : p.length ≤ maxPkgSize) : ∀ c ∈ dumpBody p, c ≠ 0 := by
  intro c hc
  rcases mem_intercalate hc with rfl | ⟨t, ht, hc⟩
  · decide
  · obtain ⟨k, hk, rfl⟩ := List.mem_map.mp ht
    have hk := lineCount_le hle (List.mem_range.mp hk)
    rintro rfl
    exact absurd (lineText_ge hk 0 hc) (by decide)

theorem dumpHeader_ne_zero {nodeName : CString} (hname : 0 ∉ nodeName) (size pktNum : Nat) :
    ∀ c ∈ dumpHeader nodeName size pktNum, c ≠ 0 := by
  have hdecimal (n : Nat) : 0 ∉ decimal n := fun h => absurd (decimal_isdigit n 0 h) (by decide)
  rintro c hc rfl
  simp only [dumpHeader, List.mem_append, hname, hdecimal, false_or] at hc
  revert hc
  decide

/-! ## Reading the dump -/

/-- Two digits; none for the padding of the last line. -/
def readField (s : CString) : Option UInt8 :=
  match readDigits 16 0 s with
  | (n, []) => if s.length = 2 then some (UInt8.ofNat n) else none
  | _ => none

/-- The offset and the bytes in the hex columns of a line. -/
def readLine (line : CString) : Nat × List UInt8 :=
  ((readDigits 16 0 (line.take 4)).1,
    (List.range 16).filterMap fun j => readField ((line.drop (6 + 3 * j)).take 2))

def readDump (body : CString) : List (Nat × List UInt8) := (body.splitOn (chr '\n')).map readLine

theorem readField_field (o : Option UInt8) (rest : CString) : readField ((field o ++ rest).take 2) = o := by
  cases o with
  | none => rfl
  | some b =>
    have hb : b.toNat < 16 ^ 2 := b.toNat_lt
    rw [field, List.append_assoc, List.take_left' (length_hexPadded hb), readField, readDigits_hexPadded hb]
    simp [length_hexPadded hb]

theorem readLine_lineText (hk : 16 * k < 65536) : readLine (lineText p k) = (16 * k, row p k) := by
  have hoff : (hexPadded 4 (16 * k)).length = 4 := length_hexPadded hk
  have hcolumn : ∀ j < 16, readField (((lineText p k).drop (6 + 3 * j)).take 2) = (row p k)[j]? := by
    intro j hj
    obtain ⟨rest, hrest⟩ := drop_fields (f := fun j => field (row p k)[j]?) (fun j => length_field _) hj
    have hfields := length_fields (f := fun j => field (row p k)[j]?) (fun j => length_field _) 16
    rw [← List.drop_drop, lineText, List.drop_left' (by rw [List.length_append, hoff]; rfl),
      List.drop_append_of_le_length (by rw [hfields]; omega), hrest, List.append_assoc]
    exact readField_field _ _
  have hbytes : ((List.range 16).filterMap fun j => readField (((lineText p k).drop (6 + 3 * j)).take 2)) =
      (row p k).take 16 := by
    rw [← filterMap_range_getElem?]
    exact List.filterMap_congr fun j hj => hcolumn j (List.mem_range.mp hj)
  rw [readLine, hbytes, row, List.take_take, lineText, List.append_assoc, List.take_left' hoff,
    readDigits_hexPadded hk]
  rfl

theorem readDump_dumpBody (hpos : 0 < p.length) (hle : p.length ≤ maxPkgSize) :
    readDump (dumpBody p) = (List.range (lineCount p)).map fun k => (16 * k, row p k) := by
  have hlines : ∀ t ∈ (List.range (lineCount p)).map (lineText p), chr '\n' ∉ t := by
    intro t ht hmem
    obtain ⟨k, hk, rfl⟩ := List.mem_map.mp ht
    exact absurd (lineText_ge (lineCount_le hle (List.mem_range.mp hk)) _ hmem) (by decide)
  have hsome : (List.range (lineCount p)).map (lineText p) ≠ [] := by
    simp only [ne_eq, List.map_eq_nil_iff, List.range_eq_nil]
    unfold lineCount
    omega
  rw [readDump, dumpBody, List.splitOn_intercalate _ hlines hsome, List.map_map]
  exact List.map_congr_left fun k hk => readLine_lineText (lineCount_le hle (List.mem_range.mp hk))

/-- The rows make up the packet. -/
theorem flatMap_row (p : List UInt8) : (List.range (lineCount p)).flatMap (row p) = p := by
  show ((List.range (lineCount p)).flatMap fun k => (p.drop (16 * k)).take 16) = p
  rw [flatMap_rows, List.take_of_length_le]
  unfold lineCount
  omega

end

/-! ## The whole dump -/

section

variable {nodeName : CString} {pktNum : Nat} {buffer : Memory UInt8}

/-- No test leaves the function, and the array holds the header and the lines. -/
theorem logPacketHex_holds (p : Packet) (hname : nodeName.length ≤ 63) (hnum : pktNum < 2 ^ 64)
    (h : buffer.bytes p.bytes.length = p.bytes) (fullDump : Memory UInt8) :
    ∃ d, logPacketHex nodeName buffer p.bytes.length pktNum fullDump = ⟨false, d⟩ ∧
      Holds d (dumpHeader nodeName p.bytes.length pktNum ++ dumpBody p.bytes) := by
  have hheader := length_dumpHeader hname p.length_le hnum
  have hbody := length_dumpBody p.length_le
  have hstart : Holds ⟨fullDump, 0, []⟩ [] :=
    ⟨rfl, rfl, fun hne => absurd rfl hne, fun _ hoff => by cases hoff⟩
  have hlines := flatten_lines h p.length_pos
  obtain ⟨d₁, hput, hd₁⟩ := put_ok (t := dumpHeader nodeName p.bytes.length pktNum) hstart
    (by rw [List.length_nil]; unfold dumpSize; omega)
  rw [List.nil_append] at hd₁
  obtain ⟨d₂, hputs, hd₂⟩ := puts_ok hd₁ (by rw [hlines]; unfold dumpSize; omega)
  rw [hlines] at hd₂
  refine ⟨d₂, ?_, hd₂⟩
  have hrun : (put (dumpHeader nodeName p.bytes.length pktNum) ⟨fullDump, 0, []⟩ >>=
      dumpLines buffer p.bytes.length) = .ok d₂ := by
    rw [hput]
    exact (dumpLines_eq buffer p.bytes.length d₁).trans hputs
  exact congrArg truncatedEnd hrun

/-- The string in an array that holds `text`. -/
theorem cstr_holds {d : Dump} {text : CString} (hd : Holds d text) (hne : text ≠ [])
    (hlt : text.length < dumpSize) (hnul : ∀ c ∈ text, c ≠ 0) :
    cstr (d.fullDump.bytes dumpSize) = text := by
  obtain ⟨m, hm⟩ : ∃ m, dumpSize = text.length + (1 + m) := ⟨dumpSize - text.length - 1, by omega⟩
  have hzero : (d.fullDump.advance text.length).bytes 1 = [0] := congrArg (fun c => [c]) (hd.nul hne)
  rw [hm, Memory.bytes_add, Memory.bytes_add, hd.bytes, hzero]
  exact cstr_append_zero hnul _

/-- The dump of a packet is whole, the buffer of `printL` holds all of it, and its lines
show the bytes of the packet, 16 to a line. -/
theorem hex_dump_faithful (p : Packet) (hname : nodeName.length ≤ 63) (hnul : 0 ∉ nodeName)
    (hnum : pktNum < 2 ^ 64) (h : buffer.bytes p.bytes.length = p.bytes) (fullDump : Memory UInt8) :
    (logPacketHex nodeName buffer p.bytes.length pktNum fullDump).truncated = false ∧
    (∀ off ∈ (logPacketHex nodeName buffer p.bytes.length pktNum fullDump).dump.offsets, off < dumpSize) ∧
    message (logPacketHex nodeName buffer p.bytes.length pktNum fullDump).text =
      (logPacketHex nodeName buffer p.bytes.length pktNum fullDump).text ∧
    (logPacketHex nodeName buffer p.bytes.length pktNum fullDump).text.length < usrMsgSize ∧
    ∃ body, (logPacketHex nodeName buffer p.bytes.length pktNum fullDump).text =
        dumpHeader nodeName p.bytes.length pktNum ++ body ∧
      readDump body = (List.range (lineCount p.bytes)).map (fun k => (16 * k, row p.bytes k)) ∧
      (readDump body).flatMap Prod.snd = p.bytes := by
  obtain ⟨d, hrun, hd⟩ := logPacketHex_holds p hname hnum h fullDump
  have hheader := length_dumpHeader hname p.length_le hnum
  have hbody := length_dumpBody p.length_le
  have hlength : (dumpHeader nodeName p.bytes.length pktNum ++ dumpBody p.bytes).length < 8192 := by
    rw [List.length_append]
    omega
  have hchars : ∀ c ∈ dumpHeader nodeName p.bytes.length pktNum ++ dumpBody p.bytes, c ≠ 0 := by
    intro c hc
    rcases List.mem_append.mp hc with hc | hc
    · exact dumpHeader_ne_zero hnul _ _ c hc
    · exact dumpBody_ne_zero p.length_le c hc
  have hne : dumpHeader nodeName p.bytes.length pktNum ++ dumpBody p.bytes ≠ [] :=
    List.append_ne_nil_of_left_ne_nil (List.cons_ne_nil _ _) _
  have htext : (logPacketHex nodeName buffer p.bytes.length pktNum fullDump).text =
      dumpHeader nodeName p.bytes.length pktNum ++ dumpBody p.bytes := by
    rw [hrun]
    exact cstr_holds hd hne hlength hchars
  have hread := readDump_dumpBody p.length_pos p.length_le
  refine ⟨by rw [hrun], fun off hoff => ?_, ?_, ?_, dumpBody p.bytes, htext, hread, ?_⟩
  · rw [hrun] at hoff
    exact hd.offsets off hoff
  · rw [htext]
    exact (message_eq fun h0 => hchars 0 h0 rfl).trans (List.take_of_length_le (by omega))
  · rw [htext]
    exact hlength
  · rw [hread, List.flatMap_map]
    exact flatMap_row p.bytes

/-- The ASCII column of the byte `|` looks like the end of the column. -/
theorem hex_dump_faithful_separator :
    (logPacketHex (ofString "Logger") (Memory.ofList [124, 10] 0) 2 3 (fun _ => 255)).truncated = false ∧
    ∃ body, (logPacketHex (ofString "Logger") (Memory.ofList [124, 10] 0) 2 3 (fun _ => 255)).text =
        dumpHeader (ofString "Logger") 2 3 ++ body ∧ (readDump body).flatMap Prod.snd = [124, 10] := by
  obtain ⟨hwhole, -, -, -, body, htext, -, hbytes⟩ := @hex_dump_faithful (ofString "Logger") 3
    (Memory.ofList [124, 10] 0) ⟨[124, 10], by decide, by decide⟩ (by decide) (by decide) (by decide) rfl
    (fun _ => 255)
  exact ⟨hwhole, body, htext, hbytes⟩

end

end VlanTagger.Nodes
