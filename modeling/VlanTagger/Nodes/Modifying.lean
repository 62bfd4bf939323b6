import VlanTagger.Lib.Checksum
import VlanTagger.Nodes.IpModifier
import VlanTagger.Nodes.Tagging

/-!
# What the IP modifier makes of a frame

`redirect` is the purpose of the node, stated on the bytes of an untagged IPv4 frame:
the destination is overwritten and the header checksum is the one that verifies. The
loop body computes it. A tagged frame it does not recognise: the EtherType is read into
a `short`, in which 0x8100 is negative, and is compared with the positive constant.
-/
namespace VlanTagger.Nodes

open Lib Queue

/-! ## Headers -/

/-- `(buffer[14] & 0x0F) * 4` -/
def headerLength (p : List UInt8) : Nat := (p.getD 14 0).toNat % 16 * 4

/-- The IPv4 header of an untagged frame. -/
def header (p : List UInt8) : List UInt8 := (p.drop 14).take (headerLength p)

/-- An untagged IPv4 frame with the whole of its header in it. -/
structure WellFormed (p : List UInt8) : Prop where
  etherType_eq : etherType p = 0x0800
  ihl : 5 ≤ (p.getD 14 0).toNat % 16
  inside : 14 + headerLength p ≤ p.length

def halfWord (c : Nat) : List UInt8 := [UInt8.ofNat (c / 256), UInt8.ofNat (c % 256)]

/-- The header checksum of an untagged frame. -/
def checksumField (p : List UInt8) : Nat := (p.getD 24 0).toNat * 256 + (p.getD 25 0).toNat

def withChecksum (p : List UInt8) (c : Nat) : List UInt8 := splice p 24 (halfWord c)

def withDestination (p addr : List UInt8) : List UInt8 := splice p 30 addr

/-- The checksum that makes the header verify. -/
def properChecksum (p : List UInt8) : Nat := 65535 - fold (words (header (withChecksum p 0)))

/-- The frame with another destination address and the checksum that goes with it. -/
def redirect (p addr : List UInt8) : List UInt8 :=
  withChecksum (withDestination p addr) (properChecksum (withDestination p addr))

section

variable {p addr : List UInt8} {c : Nat}

theorem WellFormed.length_le (h : WellFormed p) : 34 ≤ p.length := by
  have hihl := h.ihl
  have hin := h.inside
  unfold headerLength at hin
  omega

theorem getD_eq_of_getElem? {l l' : List UInt8} {i : Nat} (h : l[i]? = l'[i]?) :
    l.getD i 0 = l'.getD i 0 := by
  rw [List.getD_eq_getElem?_getD, List.getD_eq_getElem?_getD, h]

theorem halfWord_value (h : c < 65536) : words (halfWord c) = c := by
  have hhigh : (UInt8.ofNat (c / 256)).toNat = c / 256 :=
    toNat_ofNat8 (by omega)
  have hlow : (UInt8.ofNat (c % 256)).toNat = c % 256 :=
    toNat_ofNat8 (by omega)
  rw [halfWord, words, words, hhigh, hlow]
  omega

theorem length_withChecksum (h : 34 ≤ p.length) : (withChecksum p c).length = p.length :=
  length_splice (by change 24 + 2 ≤ _; omega)

theorem length_withDestination (h : 34 ≤ p.length) (ha : addr.length = 4) :
    (withDestination p addr).length = p.length := length_splice (by omega)

/-- A new checksum leaves the other bytes alone. -/
theorem getElem?_withChecksum (h : 34 ≤ p.length) {i : Nat} (h24 : i ≠ 24) (h25 : i ≠ 25) :
    (withChecksum p c)[i]? = p[i]? := by
  have hw : 24 + (halfWord c).length ≤ p.length := by change 24 + 2 ≤ _; omega
  by_cases hi : i < 24
  · exact getElem?_splice_of_lt hw hi
  · exact getElem?_splice_of_ge hw (by change 24 + 2 ≤ _; omega)

theorem getElem?_withDestination (h : 34 ≤ p.length) (ha : addr.length = 4) {i : Nat}
    (hi : i < 30 ∨ 34 ≤ i) : (withDestination p addr)[i]? = p[i]? := by
  rcases hi with hi | hi
  · exact getElem?_splice_of_lt (by omega) hi
  · exact getElem?_splice_of_ge (by omega) (by omega)

theorem WellFormed.of_getElem? {q : List UInt8} (h : WellFormed p) (hlen : q.length = p.length)
    (h12 : q[12]? = p[12]?) (h13 : q[13]? = p[13]?) (h14 : q[14]? = p[14]?) : WellFormed q := by
  obtain ⟨hip, hihl, hin⟩ := h
  refine ⟨?_, ?_, ?_⟩
  · rw [etherType, getD_eq_of_getElem? h12, getD_eq_of_getElem? h13]
    exact hip
  · rwa [getD_eq_of_getElem? h14]
  · rwa [headerLength, getD_eq_of_getElem? h14, hlen]

theorem WellFormed.withChecksum (h : WellFormed p) : WellFormed (withChecksum p c) := by
  have hlen := h.length_le
  exact h.of_getElem? (length_withChecksum hlen) (getElem?_withChecksum hlen (by decide) (by decide))
    (getElem?_withChecksum hlen (by decide) (by decide))
    (getElem?_withChecksum hlen (by decide) (by decide))

theorem WellFormed.withDestination (h : WellFormed p) (ha : addr.length = 4) :
    WellFormed (withDestination p addr) := by
  have hlen := h.length_le
  exact h.of_getElem? (length_withDestination hlen ha)
    (getElem?_withDestination hlen ha (.inl (by decide)))
    (getElem?_withDestination hlen ha (.inl (by decide)))
    (getElem?_withDestination hlen ha (.inl (by decide)))

/-- The header of a frame is changed where the frame is. -/
theorem header_withChecksum (h : WellFormed p) :
    header (Nodes.withChecksum p c) = splice (header p) 10 (halfWord c) := by
  have hlen := h.length_le
  have hihl := h.ihl
  have hin := h.inside
  have hhl : headerLength (Nodes.withChecksum p c) = headerLength p := by
    rw [headerLength, getD_eq_of_getElem? (getElem?_withChecksum hlen (by decide) (by decide)), headerLength]
  have hw : 24 + (halfWord c).length ≤ p.length := by change 24 + 2 ≤ _; omega
  rw [header, hhl, Nodes.withChecksum, drop_splice hw (by decide), take_splice ?_ ?_, header]
  · show 10 + 2 ≤ _
    unfold headerLength
    omega
  · rw [List.length_drop]
    omega

theorem length_header (h : WellFormed p) : (header p).length = headerLength p := by
  have hin := h.inside
  rw [header, List.length_take, List.length_drop]
  omega

/-- The checksum field is one of the words that are summed. -/
theorem words_header (h : WellFormed p) (hc : c < 65536) :
    words (header (Nodes.withChecksum p c)) = words (header (Nodes.withChecksum p 0)) + c := by
  have hlen := length_header h
  have hihl := h.ihl
  have heven : ((header p).take 10).length % 2 = 0 := by
    rw [List.length_take, hlen]
    unfold headerLength
    omega
  have hhalf : ∀ c, (halfWord c).length % 2 = 0 := fun _ => Nat.mod_self 2
  rw [header_withChecksum h, header_withChecksum h, splice, splice, words_append heven,
    words_append heven, words_append (hhalf c), words_append (hhalf 0), halfWord_value hc,
    halfWord_value (by decide)]
  show _ + (_ + words ((header p).drop (10 + 2))) = _ + (_ + words ((header p).drop (10 + 2))) + _
  omega

/-- The first byte of a header is not 0. -/
theorem words_header_pos (h : WellFormed p) : 0 < words (header p) := by
  have hihl := h.ihl
  have hin := h.inside
  have hlen := h.length_le
  have hget : p.getD 14 0 = p[14] := by
    rw [List.getD_eq_getElem?_getD, List.getElem?_eq_getElem (by omega), Option.getD_some]
  have hdrop : p.drop 14 = p[14] :: p[15] :: p.drop 16 := by
    rw [List.drop_eq_getElem_cons (by omega), List.drop_eq_getElem_cons (by omega)]
  obtain ⟨k, hk⟩ : ∃ k, headerLength p = k + 2 := by
    refine ⟨headerLength p - 2, ?_⟩
    unfold headerLength
    omega
  rw [header, hk, hdrop, List.take_succ_cons, List.take_succ_cons, words]
  rw [hget] at hihl
  omega

theorem properChecksum_lt (p : List UInt8) : properChecksum p < 65536 := by
  unfold properChecksum
  omega

/-- The one's-complement sum of the header with the proper checksum is 0xFFFF. -/
theorem fold_header_properChecksum (h : WellFormed p) :
    fold (words (header (Nodes.withChecksum p (properChecksum p)))) = 0xFFFF := by
  rw [words_header h (properChecksum_lt p)]
  exact fold_add_complement (words_header_pos h.withChecksum)

/-- A frame has the proper checksum when its header verifies, but for the checksum 0xFFFF. -/
theorem eq_properChecksum_iff (h : WellFormed p) (hc : c < 65536) :
    c = properChecksum p ↔ fold (words (header (Nodes.withChecksum p c))) = 0xFFFF ∧ c ≠ 0xFFFF := by
  rw [words_header h hc]
  exact eq_complement_iff (words_header_pos h.withChecksum) hc

end

/-! ## The loops of `modify_destination_ip` -/

theorem word_toNat (a b : UInt8) : (a.toUInt16 <<< 8 ||| b.toUInt16).toNat = a.toNat * 256 + b.toNat := by
  have ha := a.toNat_lt
  have hb := b.toNat_lt
  have hshift : (a.toUInt16 <<< 8).toNat = a.toNat <<< 8 := by
    rw [UInt16.toNat_shiftLeft, UInt8.toNat_toUInt16, Nat.shiftLeft_eq]
    show a.toNat * 2 ^ 8 % 65536 = _
    rw [Nat.shiftLeft_eq]
    omega
  rw [UInt16.toNat_or, hshift, UInt8.toNat_toUInt16, ← Nat.shiftLeft_add_eq_or_of_lt hb, Nat.shiftLeft_eq]

/-- What the loop has added up after `n` passes, for a header of at most 60 bytes: the
accumulator is the sum of the words, without any overflow. -/
theorem headerSum_toNat (buffer : Memory UInt8) (ipOffset : Nat) {ihl : Nat} (hmax : ihl ≤ 60)
    (heven : ihl % 2 = 0) (n : Nat) {i : Nat} (hi : i % 2 = 0) :
    (headerSum buffer ipOffset ihl n i).toNat =
      words ((buffer.advance (ipOffset + i)).bytes (2 * min n ((ihl - i) / 2))) := by
  induction n generalizing i with
  | zero => rw [Nat.zero_min]; rfl
  | succ n ih =>
    rw [headerSum]
    by_cases hlt : i < ihl
    · obtain ⟨k, hk⟩ : ∃ k, (ihl - i) / 2 = k + 1 := ⟨(ihl - i) / 2 - 1, by omega⟩
      have hstep : (ihl - (i + 2)) / 2 = k := by omega
      have hbytes : (buffer.advance (ipOffset + i)).bytes (2 * min (n + 1) (k + 1)) =
          buffer (ipOffset + i) :: buffer (ipOffset + i + 1) ::
            (buffer.advance (ipOffset + (i + 2))).bytes (2 * min n k) := by
        rw [Nat.add_min_add_right, show 2 * (min n k + 1) = 2 + 2 * min n k by omega,
          Memory.bytes_add, Memory.advance_advance, Nat.add_assoc]
        rfl
      have hsum := ih (i := i + 2) (by omega)
      rw [hstep] at hsum
      have hbound := words_le ((buffer.advance (ipOffset + (i + 2))).bytes (2 * min n k))
      rw [Memory.length_bytes] at hbound
      have h1 := (buffer (ipOffset + i)).toNat_lt
      have h2 := (buffer (ipOffset + i + 1)).toNat_lt
      rw [if_pos hlt, UInt32.toNat_add, UInt16.toNat_toUInt32, word_toNat, hsum, hk, hbytes, words]
      show _ % 4294967296 = _
      exact Nat.mod_eq_of_lt (by omega)
    · have hzero : (ihl - i) / 2 = 0 := by omega
      rw [if_neg hlt, hzero, Nat.min_zero]
      rfl

theorem carry_toNat (checksum : UInt32) :
    (checksum >>> 16).toNat = checksum.toNat / 65536 ∧
      ((checksum &&& (0xFFFF : UInt32)) + (checksum >>> 16)).toNat =
        checksum.toNat % 65536 + checksum.toNat / 65536 := by
  have hlt := checksum.toNat_lt
  have hshift : (checksum >>> 16).toNat = checksum.toNat / 65536 := by
    rw [UInt32.toNat_shiftRight, Nat.shiftRight_eq_div_pow]
    rfl
  have hand : (checksum &&& (0xFFFF : UInt32)).toNat = checksum.toNat % 65536 := by
    rw [UInt32.toNat_and]
    exact Nat.and_two_pow_sub_one_eq_mod _ 16
  refine ⟨hshift, ?_⟩
  rw [UInt32.toNat_add, hand, hshift]
  show _ % 4294967296 = _
  omega

/-- The folding loop stops within two passes, with the folded sum. -/
theorem foldChecksum_toNat (checksum : UInt32) (n : Nat) :
    (foldChecksum (n + 2) checksum).toNat = fold checksum.toNat := by
  -- a pass of the loop on a value that still has a carry
  have hpass : ∀ (m : Nat) (c : UInt32), ¬ c >>> 16 = 0 → 65536 ≤ c.toNat ∧
      foldChecksum (m + 1) c = foldChecksum m ((c &&& (0xFFFF : UInt32)) + (c >>> 16)) := by
    intro m c hc
    refine ⟨?_, if_neg hc⟩
    by_contra hlt
    refine hc (UInt32.toNat.inj ?_)
    rw [(carry_toNat c).1]
    show c.toNat / 65536 = 0
    omega
  have hstop : ∀ (m : Nat) (c : UInt32), c.toNat < 65536 → foldChecksum m c = c := by
    intro m c hc
    cases m with
    | zero => rfl
    | succ m =>
      refine if_pos (UInt32.toNat.inj ?_)
      rw [(carry_toNat c).1]
      exact Nat.div_eq_of_lt hc
  have hlt := checksum.toNat_lt
  by_cases hc : checksum >>> 16 = 0
  · have hsmall : checksum.toNat < 65536 := by
      have hz := congrArg UInt32.toNat hc
      rw [(carry_toNat checksum).1] at hz
      change checksum.toNat / 65536 = 0 at hz
      omega
    rw [hstop _ _ hsmall, fold_of_lt hsmall]
  obtain ⟨-, heq⟩ := hpass (n + 1) checksum hc
  have hnext := (carry_toNat checksum).2
  rw [heq, ← fold_carry, ← hnext]
  generalize (checksum &&& (0xFFFF : UInt32)) + (checksum >>> 16) = c at hnext
  by_cases hc' : c >>> 16 = 0
  · have hsmall : c.toNat < 65536 := by
      have hz := congrArg UInt32.toNat hc'
      rw [(carry_toNat c).1] at hz
      change c.toNat / 65536 = 0 at hz
      omega
    rw [hstop _ _ hsmall, fold_of_lt hsmall]
  · obtain ⟨hge, heq⟩ := hpass n c hc'
    have hlast := (carry_toNat c).2
    have hsmall : ((c &&& (0xFFFF : UInt32)) + (c >>> 16)).toNat < 65536 := by
      rw [hlast]
      omega
    rw [heq, hstop _ _ hsmall, ← fold_carry, ← hlast, fold_of_lt hsmall]

/-- The loop is left with its condition false, so more passes would change nothing. -/
theorem foldChecksum_stops (checksum : UInt32) (n : Nat) :
    foldChecksum (n + 2) checksum = foldChecksum 2 checksum ∧ foldChecksum 2 checksum >>> 16 = 0 := by
  constructor
  · apply UInt32.toNat.inj
    rw [foldChecksum_toNat, foldChecksum_toNat checksum 0]
  · apply UInt32.toNat.inj
    rw [(carry_toNat _).1, foldChecksum_toNat checksum 0]
    exact Nat.div_eq_of_lt (fold_lt _)

/-- The complement is taken on 32 bits and stored in 16. -/
theorem complement_bytes {f : UInt32} (h : f.toNat < 65536) :
    [((~~~f >>> 8) &&& 0xFF).toUInt8, (~~~f &&& 0xFF).toUInt8] = halfWord (65535 - f.toNat) := by
  have hnot : (~~~f).toNat = 4294967295 - f.toNat := by
    rw [UInt32.toNat_not]
    rfl
  have hmask : ∀ w : UInt32, (w &&& 0xFF).toUInt8.toNat = w.toNat % 256 := by
    intro w
    have hand : (w &&& 0xFF).toNat = w.toNat % 256 := by
      rw [UInt32.toNat_and]
      exact Nat.and_two_pow_sub_one_eq_mod _ 8
    rw [UInt32.toNat_toUInt8, hand]
    omega
  have hhigh : ((~~~f >>> 8) &&& 0xFF).toUInt8 = UInt8.ofNat ((65535 - f.toNat) / 256) := by
    apply UInt8.toNat.inj
    rw [hmask, UInt32.toNat_shiftRight, hnot, Nat.shiftRight_eq_div_pow,
      toNat_ofNat8 (by omega)]
    show (4294967295 - f.toNat) / 256 % 256 = _
    omega
  have hlow : (~~~f &&& 0xFF).toUInt8 = UInt8.ofNat ((65535 - f.toNat) % 256) := by
    apply UInt8.toNat.inj
    rw [hmask, hnot, toNat_ofNat8 (by omega)]
    omega
  rw [hhigh, hlow, halfWord]

/-! ## The loop body -/

section

variable {host : ByteOrder} {ctx : IpModifierContext} {buffer : Memory UInt8} {p : List UInt8}

/-- The EtherType as a `short`. -/
theorem typeField_eq (h : buffer.bytes p.length = p) (hlen : 14 ≤ p.length) :
    typeField buffer 12 =
      if etherType p < 32768 then (etherType p : Int) else (etherType p : Int) - 65536 := by
  have h12 := getD_of_bytes h (i := 12) (by omega)
  have h13 := getD_of_bytes h (i := 13) (by omega)
  have heq : (buffer 12).toNat * 256 + (buffer 13).toNat = etherType p := by
    rw [etherType, h12, h13]
  simp only [typeField, heq]

/-- No `short` has the value 0x8100. -/
theorem typeField_ne (buffer : Memory UInt8) (off : Nat) : typeField buffer off ≠ 0x8100 := by
  have h0 := (buffer off).toNat_lt
  have h1 := (buffer (off + 1)).toNat_lt
  unfold typeField
  simp only
  split <;> omega

/-- So only untagged frames are recognised. -/
theorem isIpPacket_eq (h : buffer.bytes p.length = p) (hlen : 14 ≤ p.length) :
    isIpPacket buffer = decide (etherType p = 0x0800) := by
  have h0 := (p.getD 12 0).toNat_lt
  have h1 := (p.getD 13 0).toNat_lt
  have hlt : etherType p < 65536 := by
    unfold etherType
    omega
  simp only [isIpPacket, typeField_eq h hlen]
  congr 1
  split <;> apply propext <;> omega

/-- What `modify_destination_ip` sums: the buffer with the new address and the checksum 0. -/
def summedBuffer (host : ByteOrder) (buffer : Memory UInt8) (newIp : UInt32) : Memory UInt8 :=
  (buffer.memcpy 30 (host.store32 newIp) 4).memcpy 24 (fun _ => 0) 2

theorem summedBuffer_of_ge (host : ByteOrder) (buffer : Memory UInt8) (newIp : UInt32) {i : Nat}
    (hi : 34 ≤ i) : summedBuffer host buffer newIp i = buffer i := by
  rw [summedBuffer, Memory.memcpy_of_ge _ _ (by omega), Memory.memcpy_of_ge _ _ (by omega)]

theorem bytes_summedBuffer (h : buffer.bytes p.length = p) (hlen : 34 ≤ p.length) (newIp : UInt32) :
    (summedBuffer host buffer newIp).bytes p.length =
      withChecksum (withDestination p ((host.store32 newIp).bytes 4)) 0 := by
  rw [summedBuffer, Memory.bytes_memcpy _ _ (by omega), Memory.bytes_memcpy _ _ hlen, h]
  rfl

/-- `modify_destination_ip` writes the address and the complement of the sum over as many
bytes as the header claims to have, whether they belong to the packet or not. -/
theorem bytes_modifyDestinationIp (h : buffer.bytes p.length = p) (hlen : 34 ≤ p.length)
    (newIp : UInt32) :
    (modifyDestinationIp host buffer newIp).bytes p.length =
      withChecksum (withDestination p ((host.store32 newIp).bytes 4)) (65535 -
        fold (words (((summedBuffer host buffer newIp).advance 14).bytes (headerLength p)))) := by
  have haddr : ((host.store32 newIp).bytes 4).length = 4 := Memory.length_bytes _ _
  have hqlen := length_withDestination hlen haddr
  have hihl : (buffer.memcpy 30 (host.store32 newIp) 4 14 &&& 0x0F).toNat * 4 = headerLength p := by
    have h14 : p.getD 14 0 = buffer.memcpy 30 (host.store32 newIp) 4 14 := by
      rw [Memory.memcpy_of_lt _ _ (by decide), getD_of_bytes h (by omega)]
    rw [headerLength, h14, UInt8.toNat_and]
    exact congrArg (fun n => n * 4) (Nat.and_two_pow_sub_one_eq_mod _ 4)
  have hsum : (headerSum (summedBuffer host buffer newIp) 14 (headerLength p) 30 0).toNat =
      words (((summedBuffer host buffer newIp).advance 14).bytes (headerLength p)) := by
    have hmax : headerLength p ≤ 60 := by unfold headerLength; omega
    have heven : headerLength p % 2 = 0 := by unfold headerLength; omega
    have hpasses : 2 * min 30 ((headerLength p - 0) / 2) = headerLength p := by omega
    rw [headerSum_toNat _ _ hmax heven _ rfl, hpasses]
  have hfold := foldChecksum_toNat (headerSum (summedBuffer host buffer newIp) 14 (headerLength p) 30 0) 1
  rw [hsum] at hfold
  generalize hc : 65535 - fold (words (((summedBuffer host buffer newIp).advance 14).bytes
    (headerLength p))) = c
  have hbuffer : (summedBuffer host buffer newIp).bytes p.length =
      withChecksum (withDestination p ((host.store32 newIp).bytes 4)) 0 := bytes_summedBuffer h hlen newIp
  rw [summedBuffer] at hfold hbuffer
  have hhalf : (Memory.ofList (halfWord c) 0).bytes 2 = halfWord c := Memory.bytes_ofList _ _
  simp only [modifyDestinationIp, typeField_ne, if_false, hihl]
  rw [Memory.bytes_memcpy _ _ (by omega), hbuffer, complement_bytes (by rw [hfold]; exact fold_lt _), hfold,
    ← summedBuffer, hc, hhalf]
  exact splice_splice (by change 24 + 2 ≤ _; omega) rfl

/-- `modify_destination_ip` on an untagged IPv4 frame. -/
theorem modifyDestinationIp_spec (h : buffer.bytes p.length = p) (hp : WellFormed p) (newIp : UInt32) :
    (modifyDestinationIp host buffer newIp).bytes p.length =
      redirect p ((host.store32 newIp).bytes 4) := by
  have hlen := hp.length_le
  have hin := hp.inside
  have haddr : ((host.store32 newIp).bytes 4).length = 4 := Memory.length_bytes _ _
  have hqlen := length_withDestination hlen haddr
  rw [bytes_modifyDestinationIp h hlen, redirect]
  -- a header that lies in the frame is summed to its end and no further
  have hheader : ((summedBuffer host buffer newIp).advance 14).bytes (headerLength p) =
      header (withChecksum (withDestination p ((host.store32 newIp).bytes 4)) 0) := by
    have h14 : headerLength (withChecksum (withDestination p ((host.store32 newIp).bytes 4)) 0) =
        headerLength p := by
      rw [headerLength, getD_eq_of_getElem? (getElem?_withChecksum (by omega) (by decide) (by decide)),
        getD_eq_of_getElem? (getElem?_withDestination hlen haddr (.inl (by decide))), headerLength]
    rw [header, h14, ← bytes_summedBuffer h hlen, Memory.drop_bytes _ (by omega),
      Memory.take_bytes _ (by omega)]
  rw [hheader, properChecksum]

/-- The node passes on an untagged IPv4 frame with the new address, as long as it was. -/
theorem ipModifierBody_spec (host : ByteOrder) (ctx : IpModifierContext)
    (h : buffer.bytes p.length = p) (hp : WellFormed p) (hmin : 46 ≤ p.length) (hmax : p.length ≤ 1522) :
    ∃ out size, (ipModifierBody host ctx buffer p.length) = (out, .sendToOutputs out size) ∧
      size.toNat = p.length ∧
      out.bytes p.length = redirect p ((host.store32 ctx.newIp).bytes 4) := by
  have hone : ¬ ((p.length : Int) < 1) := by omega
  have hshort : ¬ ((p.length : Int) < 46) := by omega
  have hip : isIpPacket buffer = true := by
    rw [isIpPacket_eq h (by omega)]
    exact decide_eq_true hp.etherType_eq
  refine ⟨modifyDestinationIp host buffer ctx.newIp, UInt16.ofInt p.length, ?_, ?_,
    modifyDestinationIp_spec h hp ctx.newIp⟩
  · simp only [ipModifierBody, hone, hshort, hip, if_false, if_true]
  · exact toNat_ofInt (by omega)

/-- Any other frame is passed on as it came. -/
theorem ipModifierBody_other (host : ByteOrder) (ctx : IpModifierContext)
    (h : buffer.bytes p.length = p) (hp : etherType p ≠ 0x0800) (hmin : 46 ≤ p.length) :
    ipModifierBody host ctx buffer p.length =
      (buffer, .sendToOutputs buffer (UInt16.ofInt p.length)) := by
  have hone : ¬ ((p.length : Int) < 1) := by omega
  have hshort : ¬ ((p.length : Int) < 46) := by omega
  have hip : isIpPacket buffer = false := by
    rw [isIpPacket_eq h (by omega)]
    exact decide_eq_false hp
  simp only [ipModifierBody, hone, hshort, hip, if_false, Bool.false_eq_true]

end

/-! ## Exactness -/

/-- The loop of the IP modifier; the state is what its buffer holds. -/
def ipModifierSystem (host : ByteOrder) (ctx : IpModifierContext) : System (Memory UInt8) Handled where
  init := fun _ => True
  step := fun s e s' => ∃ received packetSize, Delivered e.1 s received packetSize ∧
    s' = (ipModifierBody host ctx received packetSize).1 ∧
    e.2 = (ipModifierBody host ctx received packetSize).2.frame

theorem destination_toNat (p : List UInt8) :
    (destination p).toNat = (p.getD 30 0).toNat * 16777216 + (p.getD 31 0).toNat * 65536 +
      (p.getD 32 0).toNat * 256 + (p.getD 33 0).toNat := by
  have h0 := (p.getD 30 0).toNat_lt
  have h1 := (p.getD 31 0).toNat_lt
  have h2 := (p.getD 32 0).toNat_lt
  have h3 := (p.getD 33 0).toNat_lt
  exact toNat_ofNat32 (by omega)

/-- A word in network order that was stored behind the first 30 bytes is the destination. -/
theorem destination_withDestination {p : List UInt8} (h : 34 ≤ p.length) (host : ByteOrder)
    (newIp : UInt32) :
    destination (withDestination p ((host.store32 newIp).bytes 4)) = host.ntohl newIp := by
  have hbyte : ∀ k < 4,
      (withDestination p ((host.store32 newIp).bytes 4)).getD (30 + k) 0 = host.store32 newIp k := by
    intro k hk
    have hk' : k < ((host.store32 newIp).bytes 4).length := by rwa [Memory.length_bytes]
    rw [List.getD_eq_getElem?_getD, withDestination,
      getElem?_splice_add (by rw [Memory.length_bytes]; omega) hk', List.getElem?_eq_getElem hk',
      Option.getD_some, Memory.getElem_bytes]
  apply UInt32.toNat.inj
  rw [destination_toNat, hbyte 0 (by decide), hbyte 1 (by decide), hbyte 2 (by decide),
    hbyte 3 (by decide), ← ByteOrder.ntohl_load32, ByteOrder.load32_store32]

theorem destination_withChecksum {p : List UInt8} (h : 34 ≤ p.length) (c : Nat) :
    destination (withChecksum p c) = destination p := by
  have hbyte : ∀ k < 4, (withChecksum p c).getD (30 + k) 0 = p.getD (30 + k) 0 := fun k hk =>
    getD_eq_of_getElem? (getElem?_withChecksum h (by omega) (by omega))
  rw [destination, hbyte 0 (by decide), hbyte 1 (by decide), hbyte 2 (by decide),
    hbyte 3 (by decide), destination]

theorem destination_redirect {p : List UInt8} (h : WellFormed p) (host : ByteOrder)
    (newIp : UInt32) : destination (redirect p ((host.store32 newIp).bytes 4)) = host.ntohl newIp := by
  have hlen := h.length_le
  have hq := length_withDestination hlen (Memory.length_bytes (host.store32 newIp) 4)
  rw [redirect, destination_withChecksum (by omega), destination_withDestination hlen]

theorem ipModifierSystem_step {host : ByteOrder} {ctx : IpModifierContext} {s s' : Memory UInt8}
    {e : Handled} (h : (ipModifierSystem host ctx).step s e s') (hp : WellFormed e.1.bytes)
    (hmin : 46 ≤ e.1.bytes.length) :
    e.2 = some (redirect e.1.bytes ((host.store32 ctx.newIp).bytes 4)) := by
  obtain ⟨received, packetSize, ⟨hret, hbytes, -⟩, -, hframe⟩ := h
  subst hret
  obtain ⟨out, size, hbody, hsize, hout⟩ := ipModifierBody_spec host ctx hbytes hp hmin e.1.length_le
  rw [hframe, hbody, Effect.frame, hsize, hout]

/-- Every untagged IPv4 frame of a run is passed on with the new destination, a header
checksum that verifies and no other change. The sum of the header words is that of the
natural numbers, so the accumulator does not overflow, and the folding loop is left with
its condition false after two passes at most. -/
theorem ip_modifier_exact (host : ByteOrder) (ctx : IpModifierContext) :
    (∀ tr s, (ipModifierSystem host ctx).Run tr s → ∀ e ∈ tr,
      WellFormed e.1.bytes → 46 ≤ e.1.bytes.length →
      ∃ f, e.2 = some f ∧ f.length = e.1.bytes.length ∧ destination f = host.ntohl ctx.newIp ∧
        headerLength f = headerLength e.1.bytes ∧ fold (words (header f)) = 0xFFFF ∧
        ∀ i, i ≠ 24 → i ≠ 25 → i < 30 ∨ 34 ≤ i → f[i]? = e.1.bytes[i]?) ∧
    (∀ (buffer : Memory UInt8) (b : UInt8) (n : Nat),
      (headerSum buffer 14 ((b &&& 0x0F).toNat * 4) n 0).toNat =
          words ((buffer.advance 14).bytes (2 * min n ((b &&& 0x0F).toNat * 2))) ∧
        headerSum buffer 14 ((b &&& 0x0F).toNat * 4) (30 + n) 0 =
          headerSum buffer 14 ((b &&& 0x0F).toNat * 4) 30 0) ∧
    (∀ (checksum : UInt32) (n : Nat), foldChecksum (2 + n) checksum = foldChecksum 2 checksum ∧
      foldChecksum 2 checksum >>> 16 = 0) := by
  refine ⟨fun tr s hrun e he hp hmin => ?_, fun buffer b n => ?_, fun checksum n => ?_⟩
  · obtain ⟨s₀, s₁, hstep⟩ := hrun.exists_step he
    have hlen := hp.length_le
    have haddr := Memory.length_bytes (host.store32 ctx.newIp) 4
    have hq := length_withDestination hlen haddr
    have hframe : ∀ i, i ≠ 24 → i ≠ 25 → i < 30 ∨ 34 ≤ i →
        (redirect e.1.bytes ((host.store32 ctx.newIp).bytes 4))[i]? = e.1.bytes[i]? := by
      intro i h24 h25 hi
      rw [redirect, getElem?_withChecksum (by omega) h24 h25, getElem?_withDestination hlen haddr hi]
    refine ⟨_, ipModifierSystem_step hstep hp hmin, ?_, destination_redirect hp host _, ?_,
      fold_header_properChecksum (hp.withDestination haddr), hframe⟩
    · rw [redirect, length_withChecksum (by omega), hq]
    · rw [headerLength, getD_eq_of_getElem? (hframe 14 (by decide) (by decide) (.inl (by decide))),
        headerLength]
  · have hihl : (b &&& 0x0F).toNat = b.toNat % 16 := by
      rw [UInt8.toNat_and]
      exact Nat.and_two_pow_sub_one_eq_mod _ 4
    have hmax : (b &&& 0x0F).toNat * 4 ≤ 60 := by omega
    have heven : (b &&& 0x0F).toNat * 4 % 2 = 0 := by omega
    have hwords : ((b &&& 0x0F).toNat * 4 - 0) / 2 = (b &&& 0x0F).toNat * 2 := by omega
    refine ⟨?_, UInt32.toNat.inj ?_⟩
    · rw [headerSum_toNat buffer 14 hmax heven n rfl, hwords]
    · rw [headerSum_toNat buffer 14 hmax heven _ rfl, headerSum_toNat buffer 14 hmax heven _ rfl,
        hwords, Nat.min_eq_right (by omega), Nat.min_eq_right (by omega)]
  · rw [Nat.add_comm]
    exact foldChecksum_stops checksum n

/-- An untagged IPv4 frame of 46 bytes with the checksum 0. -/
def plainFrame : List UInt8 :=
  List.replicate 12 0x02 ++ [0x08, 0x00, 0x45] ++ List.replicate 9 0x11 ++ [0x00, 0x00] ++
    List.replicate 20 0x22

/-- It leaves the node for 10.0.0.1 with a checksum that verifies. -/
theorem ip_modifier_exact_plain :
    ∃ f, (ipModifierBody .little ⟨0x0100000a⟩ (Memory.ofList plainFrame 0) 46).2.frame = some f ∧
      f.length = 46 ∧ destination f = 0x0a000001 ∧ fold (words (header f)) = 0xFFFF := by
  have hwell : WellFormed plainFrame := ⟨by decide, by decide, by decide⟩
  have hrun : (ipModifierSystem .little ⟨0x0100000a⟩).Run
      [(⟨plainFrame, by decide, by decide⟩,
        (ipModifierBody .little ⟨0x0100000a⟩ (Memory.ofList plainFrame 0) 46).2.frame)] _ :=
    .snoc (.start (s := Memory.ofList plainFrame 0) trivial)
      ⟨Memory.ofList plainFrame 0, 46, ⟨rfl, Memory.bytes_ofList _ _, fun _ _ => rfl⟩, rfl, rfl⟩
  obtain ⟨f, hf, hlen, hdest, -, hsum, -⟩ := (ip_modifier_exact .little ⟨0x0100000a⟩).1 _ _ hrun _
    List.mem_cons_self hwell (by decide)
  exact ⟨f, hf, hlen, hdest, hsum⟩

/-! ## Tagged frames -/

/-- The bytes of the packet that `tagger_node_edit_packet` makes of `p`. -/
def editPacket (host : ByteOrder) (vlanId : UInt16) (p : List UInt8) : List UInt8 :=
  let edited := taggerNodeEditPacket host (Memory.ofList p 0) (fun _ => 0) vlanId (UInt16.ofNat p.length)
  edited.1.bytes edited.2.toNat

section

variable {host : ByteOrder} {p : List UInt8}

theorem editPacket_eq (host : ByteOrder) (hmin : 12 ≤ p.length) (hmax : p.length ≤ 1522)
    (vlanId : UInt16) : editPacket host vlanId p = insertTag p (vlanId &&& vlanVidMask).toNat := by
  obtain ⟨hbytes, hsize⟩ :=
    taggerNodeEditPacket_spec host (Memory.bytes_ofList p 0) hmin hmax (fun _ => 0) vlanId
  rw [editPacket, hsize, hbytes]

theorem insertTag_injective {p q : List UInt8} (hp : 12 ≤ p.length) (hq : 12 ≤ q.length) {vid : Nat}
    (h : insertTag p vid = insertTag q vid) : p = q := by
  rw [← untag_insertTag hp vid, h, untag_insertTag hq vid]

theorem halfWord_of_bytes (a b : UInt8) : halfWord (a.toNat * 256 + b.toNat) = [a, b] := by
  have hb := b.toNat_lt
  have hhigh : (a.toNat * 256 + b.toNat) / 256 = a.toNat := by omega
  have hlow : (a.toNat * 256 + b.toNat) % 256 = b.toNat := by omega
  rw [halfWord, hhigh, hlow, UInt8.ofNat_toNat, UInt8.ofNat_toNat]

/-- The bytes of a window, written over the window. -/
theorem splice_window {off n : Nat} (h : off + n ≤ p.length) :
    splice p off (((Memory.ofList p 0).advance off).bytes n) = p := by
  have hw : ((Memory.ofList p 0).advance off).bytes n = (p.drop off).take n := by
    rw [← Memory.bytes_ofList p 0, Memory.drop_bytes _ (by omega), Memory.take_bytes _ (by omega),
      Memory.bytes_ofList]
  rw [hw, splice_self p off n h]

theorem withChecksum_checksumField (h : 34 ≤ p.length) : withChecksum p (checksumField p) = p := by
  have hw : 24 + 2 ≤ p.length := by omega
  rw [withChecksum, checksumField, halfWord_of_bytes]
  exact splice_window hw

theorem checksumField_withChecksum (h : 34 ≤ p.length) {c : Nat} (hc : c < 65536) :
    checksumField (withChecksum p c) = c := by
  have hw : 24 + (halfWord c).length ≤ p.length := by change 24 + 2 ≤ _; omega
  have hbyte : ∀ k < 2, (withChecksum p c).getD (24 + k) 0 = (halfWord c).getD k 0 := by
    intro k hk
    rw [List.getD_eq_getElem?_getD, withChecksum, getElem?_splice_add hw hk, List.getD_eq_getElem?_getD]
  have hvalue := halfWord_value hc
  rw [halfWord, words, words, Nat.add_zero] at hvalue
  rw [checksumField, hbyte 0 (by decide), hbyte 1 (by decide), halfWord, List.getD_cons_zero,
    List.getD_cons_succ, List.getD_cons_zero, hvalue]

/-- The window of the destination is that of the word it was loaded from. -/
theorem withDestination_eq_self_iff (h : 34 ≤ p.length) (newIp : UInt32) :
    withDestination p ((host.store32 newIp).bytes 4) = p ↔ destination p = host.ntohl newIp := by
  constructor
  · intro heq
    rw [← destination_withDestination h host newIp, heq]
  · intro hdest
    have hvalue := congrArg UInt32.toNat hdest
    rw [destination_toNat, ← ByteOrder.load32_store32 host newIp, ByteOrder.ntohl_load32] at hvalue
    have h0 := (p.getD 30 0).toNat_lt
    have h1 := (p.getD 31 0).toNat_lt
    have h2 := (p.getD 32 0).toNat_lt
    have h3 := (p.getD 33 0).toNat_lt
    have h0' := (host.store32 newIp 0).toNat_lt
    have h1' := (host.store32 newIp 1).toNat_lt
    have h2' := (host.store32 newIp 2).toNat_lt
    have h3' := (host.store32 newIp 3).toNat_lt
    -- equal numbers have equal digits
    have hbytes : (host.store32 newIp).bytes 4 = ((Memory.ofList p 0).advance 30).bytes 4 := by
      apply Memory.bytes_congr
      intro k hk
      apply UInt8.toNat.inj
      match k, hk with
      | 0, _ => exact (show (p.getD 30 0).toNat = _ by omega).symm
      | 1, _ => exact (show (p.getD 31 0).toNat = _ by omega).symm
      | 2, _ => exact (show (p.getD 32 0).toNat = _ by omega).symm
      | 3, _ => exact (show (p.getD 33 0).toNat = _ by omega).symm
    rw [withDestination, hbytes, splice_window (by omega)]

/-- A frame is left alone when it has the address and its checksum is the recomputed one. -/
theorem redirect_eq_self_iff (h : WellFormed p) (newIp : UInt32) :
    redirect p ((host.store32 newIp).bytes 4) = p ↔
      destination p = host.ntohl newIp ∧ checksumField p = properChecksum p := by
  have hlen := h.length_le
  constructor
  · intro heq
    have hdest : destination p = host.ntohl newIp := by
      rw [← destination_redirect h host newIp, heq]
    refine ⟨hdest, ?_⟩
    rw [redirect, (withDestination_eq_self_iff hlen newIp).mpr hdest] at heq
    rw [← checksumField_withChecksum hlen (properChecksum_lt p), heq]
  · rintro ⟨hdest, hsum⟩
    rw [redirect, (withDestination_eq_self_iff hlen newIp).mpr hdest, ← hsum,
      withChecksum_checksumField hlen]

/-- A tagged frame goes through the IP modifier as it came: it is not recognised as IPv4. So
the two nodes commute on a frame exactly when the modifier has nothing to change in it. -/
theorem ip_modifier_commutes_iff {ctx : IpModifierContext} {vlanId : UInt16} {buffer tagged : Memory UInt8}
    (hp : WellFormed p) (hmin : 46 ≤ p.length) (hmax : p.length ≤ 1518)
    (hbuffer : buffer.bytes p.length = p)
    (htagged : tagged.bytes (p.length + 4) = editPacket host vlanId p) :
    isIpPacket tagged = false ∧
      (ipModifierBody host ctx tagged (p.length + 4)).2.frame = some (editPacket host vlanId p) ∧
      ((ipModifierBody host ctx tagged (p.length + 4)).2.frame =
          (ipModifierBody host ctx buffer p.length).2.frame.map (editPacket host vlanId) ↔
        destination p = host.ntohl ctx.newIp ∧ fold (words (header p)) = 0xFFFF ∧
          checksumField p ≠ 0xFFFF) := by
  have hlen := hp.length_le
  generalize hf : insertTag p (vlanId &&& vlanVidMask).toNat = f
  have hflen : f.length = p.length + 4 := by
    rw [← hf]
    exact length_insertTag (by omega) _
  rw [editPacket_eq host (by omega) (by omega), hf] at htagged ⊢
  rw [← hflen] at htagged
  have hip : etherType f ≠ 0x0800 := by
    rw [← hf, etherType_insertTag (by omega)]
    decide
  have hcast : (p.length : Int) + 4 = f.length := by omega
  have hout : (ipModifierBody host ctx tagged (p.length + 4)).2.frame = some f := by
    rw [hcast, ipModifierBody_other host ctx htagged hip (by omega), frame_sendToOutputs htagged (by omega)]
  refine ⟨?_, hout, ?_⟩
  · rw [isIpPacket_eq htagged (by omega), decide_eq_false hip]
  -- the other side: the modified frame, tagged
  obtain ⟨out, size, hbody, hsize, hbytes⟩ := ipModifierBody_spec host ctx hbuffer hp hmin (by omega)
  have hq : (redirect p ((host.store32 ctx.newIp).bytes 4)).length = p.length := by
    have haddr := length_withDestination hlen (Memory.length_bytes (host.store32 ctx.newIp) 4)
    rw [redirect, length_withChecksum (by omega), haddr]
  rw [hout, hbody, Effect.frame, hsize, hbytes, Option.map_some, Option.some_inj,
    editPacket_eq host (by omega) (by omega), ← hf]
  have hsum := eq_properChecksum_iff hp (c := checksumField p) (by
    have h24 := (p.getD 24 0).toNat_lt
    have h25 := (p.getD 25 0).toNat_lt
    unfold checksumField
    omega)
  rw [withChecksum_checksumField hlen] at hsum
  rw [← hsum, ← redirect_eq_self_iff hp ctx.newIp]
  constructor
  · intro heq
    exact (insertTag_injective (by omega) (by omega) heq).symm
  · intro heq
    rw [heq]

end

/-- Tagging a frame first leaves its old destination in it. -/
theorem ip_modifier_skips_tagged :
    WellFormed plainFrame ∧ plainFrame.length = 46 ∧
      isIpPacket (Memory.ofList (editPacket .little 7 plainFrame) 0) = false ∧
      (ipModifierBody .little ⟨0x0100000a⟩ (Memory.ofList (editPacket .little 7 plainFrame) 0) 50).2.frame ≠
        (ipModifierBody .little ⟨0x0100000a⟩ (Memory.ofList plainFrame 0) 46).2.frame.map
          (editPacket .little 7) :=
  ⟨⟨by decide, by decide, by decide⟩, by decide, by decide +kernel, by decide +kernel⟩

/-- The frame with the checksum that verifies, for a modifier that sets the address it has. -/
def settledFrame : List UInt8 := withChecksum plainFrame 0xee21

theorem ip_modifier_commutes_settled :
    (ipModifierBody .little ⟨0x22222222⟩ (Memory.ofList (editPacket .little 7 settledFrame) 0) 50).2.frame =
      (ipModifierBody .little ⟨0x22222222⟩ (Memory.ofList settledFrame 0) 46).2.frame.map
        (editPacket .little 7) := by
  have hwell : WellFormed settledFrame := ⟨by decide, by decide, by decide⟩
  have hsum : fold (words (header settledFrame)) = 0xFFFF := (fold_eq_full_iff (by decide)).mpr (by decide)
  exact (@ip_modifier_commutes_iff _ _ ⟨0x22222222⟩ _ _ _ hwell (by decide) (by decide)
    (Memory.bytes_ofList settledFrame 0) (Memory.bytes_ofList (editPacket .little 7 settledFrame) 0)).2.2.mpr
    ⟨by decide, hsum, by decide⟩

end VlanTagger.Nodes
