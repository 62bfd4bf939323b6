import VlanTagger.Lib.Access
import VlanTagger.Nodes.Tagging

/-!
# What the tagger reads and writes

The loop body of the tagger once more, with every index of `buffer` that it reads and
every index of `output_buffer` that it writes. Without these reports it is the loop body
of the model. A frame grows by the tag between two buffers of one size, so the accesses
stay inside exactly when the frame is not tagged or leaves room for the tag.
-/
namespace VlanTagger.Nodes

open Lib Lib.Traced Queue

inductive TaggerAccess
  | readBuffer (i : Nat)
  | writeOutput (i : Nat)
  deriving DecidableEq

open TaggerAccess

/-- `memcpy(output_buffer + off, input_buffer + src, n)` -/
def copyTraced (outputBuffer : Memory UInt8) (off : Nat) (inputBuffer : Memory UInt8) (src n : Nat) :
    Traced TaggerAccess (Memory UInt8) := do
  touch readBuffer src n
  touch writeOutput off n
  return outputBuffer.memcpy off (inputBuffer.advance src) n

/-- `memcpy(output_buffer + off, &w, sizeof(w))` -/
def storeTraced (host : ByteOrder) (outputBuffer : Memory UInt8) (off : Nat) (w : UInt16) :
    Traced TaggerAccess (Memory UInt8) := do
  touch writeOutput off 2
  return outputBuffer.memcpy off (host.store16 w) 2

/-- The pointer that is returned is an index of `buffer`. -/
def taggerNodeGetIpOffsetTraced (host : ByteOrder) (buffer : Memory UInt8) :
    Traced TaggerAccess (Option Nat) := do
  touch readBuffer 12 2
  let etherType := host.ntohs (host.load16 (buffer.advance 12))
  if etherType.toNat ≤ ethDataLen then return none
  else if etherType = ethPIpv6 ∨ etherType = ethP8021Q then return none
  else if etherType = ethPIp then return some ethHlen
  else return none

def taggerNodeGetIpTraced (host : ByteOrder) (ipBuffer : Memory UInt8) : Traced TaggerAccess UInt32 := do
  match ← taggerNodeGetIpOffsetTraced host ipBuffer with
  | none => return 0
  | some ipOffset =>
    touch readBuffer (ipOffset + 16) 4
    return host.ntohl (host.load32 (ipBuffer.advance (ipOffset + 16)))

def taggerNodeEditPacketTraced (host : ByteOrder) (inputBuffer outputBuffer : Memory UInt8)
    (vlanId packetSize : UInt16) : Traced TaggerAccess (Memory UInt8 × UInt16) := do
  let outputBuffer ← copyTraced outputBuffer 0 inputBuffer 0 12
  let tpid := host.htons ethP8021Q
  let outputBuffer ← storeTraced host outputBuffer 12 tpid
  let tci := host.htons (vlanId &&& vlanVidMask)
  let outputBuffer ← storeTraced host outputBuffer 14 tci
  let outputBuffer ← copyTraced outputBuffer 16 inputBuffer 12 (packetSize.toNat - 12)
  return (outputBuffer, packetSize + vlanHlen)

def taggerBodyTraced (host : ByteOrder) (ctx : TaggerContext) (buffer outputBuffer : Memory UInt8)
    (packetSize : Int) : Traced TaggerAccess (Memory UInt8 × Effect) := do
  if packetSize < 1 then return (outputBuffer, if packetSize = 0 then .next else .leave)
  else if packetSize < ethHlen + ipHeaderMinLen then return (outputBuffer, .next)
  else
    let addr ← taggerNodeGetIpTraced host buffer
    if addr = 0 then return (outputBuffer, .next)
    else
      let tag := taggerNodeGetTag addr ctx.tagRules
      if tag = 0 then return (outputBuffer, .next)
      else
        let (outputBuffer, size) ← taggerNodeEditPacketTraced host buffer outputBuffer
          (UInt16.ofInt tag) (UInt16.ofInt packetSize)
        return (outputBuffer, .sendToOutputs outputBuffer size)

section

variable {host : ByteOrder} {ctx : TaggerContext} {buffer outputBuffer : Memory UInt8}

/-! ## The same program -/

theorem value_getIpOffsetTraced (host : ByteOrder) (buffer : Memory UInt8) :
    (taggerNodeGetIpOffsetTraced host buffer).value.map buffer.advance =
      taggerNodeGetIpOffset host buffer := by
  unfold taggerNodeGetIpOffsetTraced taggerNodeGetIpOffset
  simp only [value_bind]
  split
  · rfl
  split
  · rfl
  split <;> rfl

theorem value_getIpTraced (host : ByteOrder) (buffer : Memory UInt8) :
    (taggerNodeGetIpTraced host buffer).value = taggerNodeGetIp host buffer := by
  unfold taggerNodeGetIpTraced taggerNodeGetIp
  rw [← value_getIpOffsetTraced, value_bind]
  cases (taggerNodeGetIpOffsetTraced host buffer).value with
  | none => rfl
  | some ipOffset =>
    rw [Option.map_some]
    simp only [value_bind, value_pure, Memory.advance_advance]

theorem value_editPacketTraced (host : ByteOrder) (inputBuffer outputBuffer : Memory UInt8)
    (vlanId packetSize : UInt16) :
    (taggerNodeEditPacketTraced host inputBuffer outputBuffer vlanId packetSize).value =
      taggerNodeEditPacket host inputBuffer outputBuffer vlanId packetSize := by
  have hzero : inputBuffer.advance 0 = inputBuffer := by
    funext i
    rw [Memory.advance_apply, Nat.zero_add]
  simp only [taggerNodeEditPacketTraced, taggerNodeEditPacket, copyTraced, storeTraced, value_bind,
    value_pure, hzero]

theorem value_taggerBodyTraced (host : ByteOrder) (ctx : TaggerContext)
    (buffer outputBuffer : Memory UInt8) (packetSize : Int) :
    (taggerBodyTraced host ctx buffer outputBuffer packetSize).value =
      taggerBody host ctx buffer outputBuffer packetSize := by
  unfold taggerBodyTraced taggerBody
  split
  · rfl
  split
  · rfl
  simp only [value_bind, value_getIpTraced]
  split
  · rfl
  split
  · rfl
  rw [value_bind, value_editPacketTraced]
  rfl

/-! ## Its accesses -/

variable {P : TaggerAccess → Prop}

/-- The address is looked for in the first 34 bytes. -/
theorem within_getIpTraced (host : ByteOrder) (buffer : Memory UInt8) (h : ∀ i < 34, P (readBuffer i)) :
    Within P (taggerNodeGetIpTraced host buffer) := by
  have hoffset : Within P (taggerNodeGetIpOffsetTraced host buffer) ∧
      ∀ off ∈ (taggerNodeGetIpOffsetTraced host buffer).value, off = ethHlen := by
    unfold taggerNodeGetIpOffsetTraced
    simp only [within_bind, within_touch, value_bind]
    refine ⟨⟨fun i _ hi => h i (by omega), ?_⟩, ?_⟩
    · split
      · exact within_pure _
      split
      · exact within_pure _
      split <;> exact within_pure _
    · split
      · simp
      split
      · simp
      split
      · rintro off ⟨⟩
        rfl
      · simp
  obtain ⟨hwithin, hvalue⟩ := hoffset
  rw [taggerNodeGetIpTraced, within_bind]
  refine ⟨hwithin, ?_⟩
  cases hoff : (taggerNodeGetIpOffsetTraced host buffer).value with
  | none => exact within_pure _
  | some off =>
    have heq := hvalue off hoff
    subst heq
    simp only [within_bind, within_touch, within_pure, and_true]
    intro i _ hi
    exact h i (by unfold ethHlen at hi; omega)

/-- The packet is read once and written once, four bytes longer. -/
theorem within_editPacketTraced (host : ByteOrder) (inputBuffer outputBuffer : Memory UInt8)
    (vlanId : UInt16) {packetSize : UInt16} (hmin : 12 ≤ packetSize.toNat) :
    Within P (taggerNodeEditPacketTraced host inputBuffer outputBuffer vlanId packetSize) ↔
      (∀ i < packetSize.toNat, P (readBuffer i)) ∧ ∀ i < packetSize.toNat + 4, P (writeOutput i) := by
  simp only [taggerNodeEditPacketTraced, copyTraced, storeTraced, within_bind, within_touch, within_pure,
    and_true]
  constructor
  · rintro ⟨⟨hread, hwrite⟩, htpid, htci, hread', hwrite'⟩
    constructor
    · intro i hi
      by_cases hlow : i < 12
      · exact hread i (Nat.zero_le i) (by omega)
      · exact hread' i (by omega) (by omega)
    · intro i hi
      by_cases h12 : i < 12
      · exact hwrite i (Nat.zero_le i) (by omega)
      by_cases h14 : i < 14
      · exact htpid i (by omega) (by omega)
      by_cases h16 : i < 16
      · exact htci i (by omega) (by omega)
      · exact hwrite' i (by omega) (by omega)
  · rintro ⟨hread, hwrite⟩
    exact ⟨⟨fun i _ hi => hread i (by omega), fun i _ hi => hwrite i (by omega)⟩,
      fun i _ hi => hwrite i (by omega), fun i _ hi => hwrite i (by omega),
      fun i _ hi => hread i (by omega), fun i _ hi => hwrite i (by omega)⟩

/-- The accesses of the loop body are those of the frame's header and, if the frame is
tagged, of the edited packet. -/
theorem within_taggerBodyTraced (host : ByteOrder) (ctx : TaggerContext) {p : List UInt8}
    (h : buffer.bytes p.length = p) (hpos : 1 ≤ p.length) (hle : p.length ≤ 1522)
    (outputBuffer : Memory UInt8) (hread : ∀ i < p.length, P (readBuffer i)) :
    Within P (taggerBodyTraced host ctx buffer outputBuffer p.length) ↔
      (tagFrame ctx p = none ∨ ∀ i < p.length + 4, P (writeOutput i)) := by
  have hone : ¬ ((p.length : Int) < 1) := by omega
  unfold taggerBodyTraced tagFrame
  rw [if_neg hone]
  by_cases hshort : p.length < ethHlen + ipHeaderMinLen
  · have hint : (p.length : Int) < ethHlen + ipHeaderMinLen := by exact_mod_cast hshort
    simp only [hint, hshort, if_true, within_pure, true_or]
  have hint : ¬ ((p.length : Int) < ethHlen + ipHeaderMinLen) := by exact_mod_cast hshort
  have hlen : 34 ≤ p.length := Nat.not_lt.mp hshort
  have hip := within_getIpTraced host buffer (P := P) fun i hi => hread i (by omega)
  rw [if_neg hint, within_bind, and_iff_right hip, value_getIpTraced, taggerNodeGetIp_eq h hlen]
  by_cases hip : etherType p = 0x0800
  · by_cases hzero : destination p = 0
    · simp only [hzero, hip, if_true, or_true, within_pure, true_or]
    · simp only [hshort, hip, hzero, if_true, if_false, not_true_eq_false, or_self, ne_eq]
      by_cases htag : taggerNodeGetTag (destination p) ctx.tagRules = 0
      · simp only [htag, if_true, within_pure, true_or]
      · have hsize : (UInt16.ofInt (p.length : Int)).toNat = p.length := toNat_ofInt (by omega)
        simp only [htag, if_false, within_bind, within_pure, and_true, reduceCtorEq, false_or]
        rw [within_editPacketTraced host buffer outputBuffer _ (by omega), hsize, and_iff_right hread]
  · simp only [hip, if_false, if_true, within_pure, ne_eq, not_false_eq_true, true_or, or_true]

/-! ## The bounds -/

/-- The accesses allowed for a packet of the given size. -/
def InBuffers (packetSize : Int) : TaggerAccess → Prop
  | readBuffer i => i < packetSize
  | writeOutput i => i < ethernetFrameLength

/-- The loop body stays inside its buffers, and `push` accepts the size of what it sends. -/
structure StaysInside (host : ByteOrder) (ctx : TaggerContext) (buffer outputBuffer : Memory UInt8)
    (packetSize : Int) : Prop where
  accesses : Within (InBuffers packetSize) (taggerBodyTraced host ctx buffer outputBuffer packetSize)
  sent : ∀ out size, (taggerBody host ctx buffer outputBuffer packetSize).2 = .sendToOutputs out size →
    size.toNat ≤ maxPkgSize ∧ ∀ q, (push q out size).1 ≠ -1

theorem push_ne_neg_one {size : UInt16} (h : size.toNat ≤ maxPkgSize) (q : QueueT) (buf : Memory UInt8) :
    (push q buf size).1 ≠ -1 := by
  rw [push, if_neg (Nat.not_lt.mpr h)]
  have hzero : (0 : Int) ≠ -1 := by decide
  split
  · exact hzero
  split
  · exact hzero
  · simp only
    omega

/-- The frames that have to stay as they are in a full buffer. -/
theorem tagFrame_eq_none_iff {ctx : TaggerContext} {p : List UInt8} (h : 34 ≤ p.length) :
    tagFrame ctx p = none ↔ etherType p ≠ 0x0800 ∨ destination p = 0 ∨
      taggerNodeGetTag (destination p) ctx.tagRules = 0 := by
  have hshort : ¬ p.length < ethHlen + ipHeaderMinLen := Nat.not_lt.mpr h
  unfold tagFrame
  simp only [hshort, false_or]
  split
  next hfilter => simp only [← or_assoc, hfilter, true_or]
  next hfilter =>
  obtain ⟨hip, hzero⟩ := not_or.mp hfilter
  simp only [hip, hzero, false_or]
  split
  next htag => simp only [htag]
  next htag => simp only [htag, reduceCtorEq]

/-- A frame that is tagged inside the buffers leaves room for the tag. -/
theorem StaysInside.fits {p : List UInt8} (hbuffer : buffer.bytes p.length = p) (hpos : 1 ≤ p.length)
    (hle : p.length ≤ 1522) (h : StaysInside host ctx buffer outputBuffer p.length) :
    tagFrame ctx p = none ∨ p.length ≤ 1518 := by
  have hwithin := within_taggerBodyTraced host ctx hbuffer hpos hle outputBuffer
    (P := InBuffers p.length) fun i hi => Int.ofNat_lt.mpr hi
  refine (hwithin.mp h.accesses).imp_right fun hwrite => ?_
  by_contra hlong
  -- the byte behind the end of the output buffer is written
  have hlast : 1522 < 1522 := hwrite 1522 (by omega)
  exact Nat.lt_irrefl _ hlast

theorem staysInside_of_fits {p : List UInt8} (hbuffer : buffer.bytes p.length = p) (hpos : 1 ≤ p.length)
    (hle : p.length ≤ 1522) (h : tagFrame ctx p = none ∨ p.length ≤ 1518) :
    StaysInside host ctx buffer outputBuffer p.length := by
  have hspec := taggerBody_spec host ctx hbuffer hpos hle outputBuffer
  refine ⟨?_, fun out size hsend => ?_⟩
  · refine (within_taggerBodyTraced host ctx hbuffer hpos hle outputBuffer
      fun i hi => Int.ofNat_lt.mpr hi).mpr (h.imp_right fun hshort i hi => ?_)
    show i < 1522
    omega
  · have hsize : size.toNat ≤ maxPkgSize := by
      cases hframe : tagFrame ctx p with
      | none =>
        rw [hframe] at hspec
        rw [hspec] at hsend
        cases hsend
      | some f =>
        rw [hframe] at hspec
        obtain ⟨out', size', heff, hlen, -⟩ := hspec
        obtain ⟨-, hgrow⟩ := length_tagFrame hframe
        have hshort := h.resolve_left (by rw [hframe]; exact nofun)
        rw [heff] at hsend
        cases hsend
        rw [hlen, hgrow]
        show _ ≤ 1522
        omega
    exact ⟨hsize, fun q => push_ne_neg_one hsize q out⟩

/-- The tagger stays inside its buffers on a packet exactly when the packet leaves room for
the tag or gets none: up to 1518 bytes, or no IPv4 packet for which there is a tag. The loop
body with its reports computes what the loop body does. -/
theorem tagger_stays_inside_iff (host : ByteOrder) (ctx : TaggerContext) (p : Packet)
    (hbuffer : buffer.bytes p.bytes.length = p.bytes) (outputBuffer : Memory UInt8) :
    (taggerBodyTraced host ctx buffer outputBuffer p.bytes.length).value =
        taggerBody host ctx buffer outputBuffer p.bytes.length ∧
      (StaysInside host ctx buffer outputBuffer p.bytes.length ↔
        p.bytes.length ≤ 1518 ∨ etherType p.bytes ≠ 0x0800 ∨ destination p.bytes = 0 ∨
          taggerNodeGetTag (destination p.bytes) ctx.tagRules = 0) := by
  refine ⟨value_taggerBodyTraced .., ?_⟩
  by_cases hshort : p.bytes.length ≤ 1518
  · simp only [hshort, true_or, iff_true]
    exact staysInside_of_fits hbuffer p.length_pos p.length_le (.inr hshort)
  · simp only [hshort, false_or]
    rw [← tagFrame_eq_none_iff (by omega)]
    constructor
    · intro hinside
      exact (hinside.fits hbuffer p.length_pos p.length_le).resolve_right hshort
    · intro hnone
      exact staysInside_of_fits hbuffer p.length_pos p.length_le (.inl hnone)

end

/-- An IPv4 frame to 10.0.0.1 that fills a queue slot. -/
def fullFrame : Packet where
  bytes := ipv4Frame 10 0 0 1 ++ List.replicate 1488 0
  length_pos := by
    rw [List.length_append, List.length_replicate]
    decide
  length_le := by
    rw [List.length_append, List.length_replicate]
    decide

theorem length_fullFrame : fullFrame.bytes.length = 1522 := by
  rw [fullFrame, List.length_append, List.length_replicate]
  rfl

/-- The tagger writes it past the end of the output buffer. -/
theorem tagger_leaves_buffer :
    ¬ StaysInside .little ⟨[⟨0x0a000000, 0x0a0000ff, 7⟩]⟩ (Memory.ofList fullFrame.bytes 0) (fun _ => 0)
      fullFrame.bytes.length := by
  intro hinside
  have hlen := length_fullFrame
  rcases hinside.fits (Memory.bytes_ofList _ _) fullFrame.length_pos fullFrame.length_le with hnone | hshort
  · have hframe : 34 ≤ (ipv4Frame 10 0 0 1).length := by decide
    rw [tagFrame_eq_none_iff (by omega), fullFrame, etherType_append (by omega),
      destination_append hframe] at hnone
    exact absurd hnone (by decide)
  · omega

theorem tagger_stays_inside_plain :
    StaysInside .little ⟨[⟨0x0a000000, 0x0a0000ff, 7⟩]⟩ (Memory.ofList (ipv4Frame 10 0 0 1) 0)
      (fun _ => 0) 34 :=
  (tagger_stays_inside_iff .little _ ⟨ipv4Frame 10 0 0 1, by decide, by decide⟩
    (Memory.bytes_ofList _ _) _).2.mpr (.inl (by decide))

end VlanTagger.Nodes
