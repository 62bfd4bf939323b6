import VlanTagger.Nodes.Modifying

/-!
# What the IP modifier remembers

The node uses one buffer for all its packets, and `pop` overwrites as much of it as the
packet is long. The sum of the checksum runs over as many bytes as the header claims to
have: where that is more than the packet has, it goes on over bytes of earlier packets.
-/
namespace VlanTagger.Nodes

open Lib Queue

/-- The loop of the IP modifier with the buffer zeroed, as the thread starts. -/
def ipModifierProcess (host : ByteOrder) (ctx : IpModifierContext) : System (Memory UInt8) Handled :=
  { ipModifierSystem host ctx with init := fun s => s = fun _ => 0 }

section

variable {host : ByteOrder} {ctx : IpModifierContext} {p : Packet} {s s' buffer buffer' : Memory UInt8}

/-- The buffer when a packet has been delivered into `s`. -/
def received (s : Memory UInt8) (p : Packet) : Memory UInt8 :=
  s.memcpy 0 (Memory.ofList p.bytes 0) p.bytes.length

theorem bytes_received (s : Memory UInt8) (p : Packet) :
    (received s p).bytes p.bytes.length = p.bytes := by
  rw [received, Memory.bytes_memcpy_zero, Memory.bytes_ofList]

theorem received_of_ge {i : Nat} (hi : p.bytes.length ≤ i) : received s p i = s i :=
  Memory.memcpy_of_ge _ _ (by omega)

theorem delivered_received (s : Memory UInt8) (p : Packet) :
    Delivered p s (received s p) p.bytes.length :=
  ⟨rfl, bytes_received s p, fun _ hi => received_of_ge hi⟩

theorem eq_received {packetSize : Int} (h : Delivered p s buffer packetSize) :
    packetSize = p.bytes.length ∧ buffer = received s p := by
  obtain ⟨hret, hbytes, hrest⟩ := h
  refine ⟨hret, funext fun i => ?_⟩
  by_cases hi : i < p.bytes.length
  · rw [Memory.apply_of_bytes hbytes hi, Memory.apply_of_bytes (bytes_received s p) hi]
  · rw [hrest i (by omega), received_of_ge (by omega)]

/-- A step of the loop, as a function of the buffer and the packet. -/
theorem ipModifierSystem_step_iff {e : Handled} :
    (ipModifierSystem host ctx).step s e s' ↔
      s' = (ipModifierBody host ctx (received s e.1) e.1.bytes.length).1 ∧
        e.2 = (ipModifierBody host ctx (received s e.1) e.1.bytes.length).2.frame := by
  constructor
  · rintro ⟨buffer, packetSize, hdel, hbuffer, hframe⟩
    obtain ⟨rfl, rfl⟩ := eq_received hdel
    exact ⟨hbuffer, hframe⟩
  · rintro ⟨hbuffer, hframe⟩
    exact ⟨_, _, delivered_received s e.1, hbuffer, hframe⟩

/-! ## What a packet is passed on as -/

theorem frame_short (h : p.bytes.length < 46) :
    (ipModifierBody host ctx buffer p.bytes.length).2.frame = none := by
  have hpos := p.length_pos
  have hone : ¬ ((p.bytes.length : Int) < 1) := by omega
  have hshort : (p.bytes.length : Int) < 46 := by omega
  simp only [ipModifierBody, hone, hshort, if_false, if_true]
  rfl

theorem frame_other (hbuffer : buffer.bytes p.bytes.length = p.bytes) (hlen : 46 ≤ p.bytes.length)
    (hip : etherType p.bytes ≠ 0x0800) :
    ipModifierBody host ctx buffer p.bytes.length =
        (buffer, .sendToOutputs buffer (UInt16.ofInt p.bytes.length)) ∧
      (ipModifierBody host ctx buffer p.bytes.length).2.frame = some p.bytes := by
  have hle : p.bytes.length ≤ 1522 := p.length_le
  have hbody := ipModifierBody_other host ctx hbuffer hip hlen
  exact ⟨hbody, by rw [hbody, frame_sendToOutputs hbuffer (by omega)]⟩

/-- The sum that goes into the checksum of an IPv4 packet. -/
def headerWords (host : ByteOrder) (ctx : IpModifierContext) (buffer : Memory UInt8) (p : List UInt8) :
    Nat :=
  words (((summedBuffer host buffer ctx.newIp).advance 14).bytes (headerLength p))

theorem frame_ip (hbuffer : buffer.bytes p.bytes.length = p.bytes) (hlen : 46 ≤ p.bytes.length)
    (hip : etherType p.bytes = 0x0800) :
    (ipModifierBody host ctx buffer p.bytes.length).2.frame =
      some (withChecksum (withDestination p.bytes ((host.store32 ctx.newIp).bytes 4))
        (65535 - fold (headerWords host ctx buffer p.bytes))) := by
  have hle : p.bytes.length ≤ 1522 := p.length_le
  have hone : ¬ ((p.bytes.length : Int) < 1) := by omega
  have hshort : ¬ ((p.bytes.length : Int) < 46) := by omega
  have hrec : isIpPacket buffer = true := by
    rw [isIpPacket_eq hbuffer (by omega)]
    exact decide_eq_true hip
  simp only [ipModifierBody, hone, hshort, hrec, if_false, if_true]
  rw [Effect.frame, toNat_ofInt (by omega), bytes_modifyDestinationIp hbuffer (by omega), headerWords]

/-- The frames agree exactly if the sums fold to the same word. -/
theorem frame_ip_eq_iff (hbuffer : buffer.bytes p.bytes.length = p.bytes)
    (hbuffer' : buffer'.bytes p.bytes.length = p.bytes) (hlen : 46 ≤ p.bytes.length)
    (hip : etherType p.bytes = 0x0800) :
    (ipModifierBody host ctx buffer p.bytes.length).2.frame =
        (ipModifierBody host ctx buffer' p.bytes.length).2.frame ↔
      fold (headerWords host ctx buffer p.bytes) = fold (headerWords host ctx buffer' p.bytes) := by
  rw [frame_ip hbuffer hlen hip, frame_ip hbuffer' hlen hip, Option.some_inj]
  have hlt := fold_lt (headerWords host ctx buffer p.bytes)
  have hlt' := fold_lt (headerWords host ctx buffer' p.bytes)
  have hq := length_withDestination (p := p.bytes) (by omega)
    (Memory.length_bytes (host.store32 ctx.newIp) 4)
  constructor
  · intro heq
    have hsum := congrArg checksumField heq
    rw [checksumField_withChecksum (by omega) (by omega),
      checksumField_withChecksum (by omega) (by omega)] at hsum
    omega
  · intro heq
    rw [heq]

/-- A header inside the packet is summed from the packet alone. -/
theorem headerWords_inside (hbuffer : buffer.bytes p.bytes.length = p.bytes)
    (hbuffer' : buffer'.bytes p.bytes.length = p.bytes) (hlen : 34 ≤ p.bytes.length)
    (hin : 14 + headerLength p.bytes ≤ p.bytes.length) :
    headerWords host ctx buffer p.bytes = headerWords host ctx buffer' p.bytes := by
  have hsame : (summedBuffer host buffer ctx.newIp).bytes p.bytes.length =
      (summedBuffer host buffer' ctx.newIp).bytes p.bytes.length := by
    rw [bytes_summedBuffer hbuffer hlen, bytes_summedBuffer hbuffer' hlen]
  have hdrop := congrArg (fun l => (l.drop 14).take (headerLength p.bytes)) hsame
  rw [Memory.drop_bytes _ (by omega), Memory.take_bytes _ (by omega), Memory.drop_bytes _ (by omega),
    Memory.take_bytes _ (by omega)] at hdrop
  rw [headerWords, hdrop, headerWords]

/-- A header that goes on behind the packet is not: one byte there changes the checksum. -/
theorem headerWords_outside (hbuffer : buffer.bytes p.bytes.length = p.bytes)
    (hbuffer' : buffer'.bytes p.bytes.length = p.bytes) (hlen : 34 ≤ p.bytes.length)
    (hout : p.bytes.length < 14 + headerLength p.bytes) (hzero : buffer p.bytes.length = 0)
    (hone : buffer' p.bytes.length = 1)
    (hrest : ∀ i, p.bytes.length < i → buffer' i = buffer i) :
    fold (headerWords host ctx buffer' p.bytes) ≠ fold (headerWords host ctx buffer p.bytes) := by
  generalize hm : p.bytes.length - 14 = m
  obtain ⟨k, hk⟩ : ∃ k, headerLength p.bytes = m + (1 + k) :=
    ⟨headerLength p.bytes - m - 1, by omega⟩
  have hn : 14 + m = p.bytes.length := by omega
  -- the bytes of the packet, the first one behind it, and the rest
  have hsplit : ∀ b : Memory UInt8, ((summedBuffer host b ctx.newIp).advance 14).bytes (headerLength p.bytes) =
      ((summedBuffer host b ctx.newIp).bytes p.bytes.length).drop 14 ++ b p.bytes.length ::
        (b.advance (p.bytes.length + 1)).bytes k := by
    intro b
    rw [hk, Memory.bytes_add, Memory.bytes_add, Memory.drop_bytes _ (by omega), hm,
      Memory.advance_advance, Memory.advance_advance, hn]
    congr 1
    have hfirst : ((summedBuffer host b ctx.newIp).advance p.bytes.length).bytes 1 = [b p.bytes.length] := by
      show [summedBuffer host b ctx.newIp (p.bytes.length + 0)] = _
      rw [summedBuffer_of_ge _ _ _ (by omega), Nat.add_zero]
    have hbehind : ((summedBuffer host b ctx.newIp).advance (p.bytes.length + 1)).bytes k =
        (b.advance (p.bytes.length + 1)).bytes k :=
      Memory.bytes_congr fun i _ => summedBuffer_of_ge _ _ _ (by omega)
    rw [hfirst, hbehind, List.singleton_append]
  have hsum : headerWords host ctx buffer' p.bytes = headerWords host ctx buffer p.bytes +
      (1 : UInt8).toNat * if (((summedBuffer host buffer ctx.newIp).bytes p.bytes.length).drop 14).length % 2 = 0
        then 256 else 1 := by
    have hbehind : (buffer'.advance (p.bytes.length + 1)).bytes k =
        (buffer.advance (p.bytes.length + 1)).bytes k :=
      Memory.bytes_congr fun i _ => hrest _ (by omega)
    rw [headerWords, headerWords, hsplit, hsplit, bytes_summedBuffer hbuffer hlen,
      bytes_summedBuffer hbuffer' hlen, hzero, hone, hbehind]
    exact words_append_cons _ _ 1
  rw [hsum]
  apply fold_add_ne
  · split <;> decide
  · split <;> decide

/-- A packet without such a header comes out the same, whatever stands behind it in the buffer. -/
theorem frame_forgets (hbuffer : buffer.bytes p.bytes.length = p.bytes)
    (hbuffer' : buffer'.bytes p.bytes.length = p.bytes)
    (hcond : p.bytes.length < 46 ∨ etherType p.bytes ≠ 0x0800 ∨
      14 + headerLength p.bytes ≤ p.bytes.length) :
    (ipModifierBody host ctx buffer p.bytes.length).2.frame =
      (ipModifierBody host ctx buffer' p.bytes.length).2.frame := by
  by_cases hlen : p.bytes.length < 46
  · rw [frame_short hlen, frame_short hlen]
  by_cases hip : etherType p.bytes = 0x0800
  · have hin : 14 + headerLength p.bytes ≤ p.bytes.length := by
      rcases hcond with hshort | hother | hin
      · exact absurd hshort hlen
      · exact absurd hip hother
      · exact hin
    rw [frame_ip_eq_iff hbuffer hbuffer' (by omega) hip, headerWords_inside hbuffer hbuffer' (by omega) hin]
  · rw [(frame_other hbuffer (by omega) hip).2, (frame_other hbuffer' (by omega) hip).2]

end

/-! ## Two histories -/

/-- A packet that the node passes on as it came and that leaves a byte at offset `n`. -/
def leftover (n : Nat) (h : n < 1522) : Packet where
  bytes := List.replicate n 0 ++ [1]
  length_pos := by rw [List.length_append]; exact Nat.succ_pos _
  length_le := by
    rw [List.length_append, List.length_replicate]
    exact h

theorem etherType_leftover {n : Nat} (h : n < 1522) (hlen : 14 ≤ n) :
    etherType (leftover n h).bytes = 0 := by
  have hzero : ∀ i < n, (leftover n h).bytes.getD i 0 = 0 := by
    intro i hi
    rw [leftover, List.getD_append _ _ _ _ (by rwa [List.length_replicate]), List.getD_replicate _ hi]
  rw [etherType, hzero 12 (by omega), hzero 13 (by omega)]
  rfl

theorem leftover_last {n : Nat} (h : n < 1522) (s : Memory UInt8) : received s (leftover n h) n = 1 := by
  have hlast : (leftover n h).bytes[n]? = some 1 := by
    rw [leftover, List.getElem?_append_right (by rw [List.length_replicate]), List.length_replicate,
      Nat.sub_self]
    rfl
  obtain ⟨hn, hone⟩ := List.getElem?_eq_some_iff.mp hlast
  rw [Memory.apply_of_bytes (bytes_received s (leftover n h)) hn, hone]

/-- The last label of a run is the label of a step on that packet. -/
theorem frame_of_run {host : ByteOrder} {ctx : IpModifierContext} {p : Packet} {tr : List Handled}
    {out : Option (List UInt8)} {s : Memory UInt8}
    (h : (ipModifierProcess host ctx).Run (tr ++ [(p, out)]) s) :
    ∃ s', out = (ipModifierBody host ctx (received s' p) p.bytes.length).2.frame := by
  obtain ⟨s', -, hstep⟩ := h.of_snoc
  exact ⟨s', (ipModifierSystem_step_iff.mp hstep).2⟩

/-- A packet that claims more header than it has comes out differently as the first packet
and behind one that has left a byte in the buffer. -/
theorem remembers_leftover (host : ByteOrder) (ctx : IpModifierContext) {p : Packet}
    (hlen : 46 ≤ p.bytes.length) (hip : etherType p.bytes = 0x0800)
    (hout : p.bytes.length < 14 + headerLength p.bytes) :
    ∃ tr tr' out out' s s', (ipModifierProcess host ctx).Run (tr ++ [(p, out)]) s ∧
      (ipModifierProcess host ctx).Run (tr' ++ [(p, out')]) s' ∧ out ≠ out' := by
  have hmax : p.bytes.length < 1522 := by
    unfold headerLength at hout
    omega
  have hq : (leftover p.bytes.length hmax).bytes.length = p.bytes.length + 1 := by
    rw [leftover, List.length_append, List.length_replicate, List.length_singleton]
  obtain ⟨hbody, hframe⟩ := @frame_other host ctx (leftover p.bytes.length hmax) _
    (bytes_received (fun _ => 0) (leftover p.bytes.length hmax)) (by omega)
    (by rw [etherType_leftover hmax (by omega)]; decide)
  have hfirst : (ipModifierProcess host ctx).Run [] fun _ => 0 := .start rfl
  have hleft : (ipModifierProcess host ctx).step (fun _ => 0)
      (leftover p.bytes.length hmax, some (leftover p.bytes.length hmax).bytes)
      (received (fun _ => 0) (leftover p.bytes.length hmax)) :=
    ipModifierSystem_step_iff.mpr ⟨by rw [hbody], hframe.symm⟩
  have hlast (s : Memory UInt8) : (ipModifierProcess host ctx).step s
      (p, (ipModifierBody host ctx (received s p) p.bytes.length).2.frame)
      (ipModifierBody host ctx (received s p) p.bytes.length).1 :=
    ipModifierSystem_step_iff.mpr ⟨rfl, rfl⟩
  refine ⟨_, _, _, _, _, _, hfirst.snoc (hlast _), (hfirst.snoc hleft).snoc (hlast _), fun hsame => ?_⟩
  rw [frame_ip_eq_iff (bytes_received _ p) (bytes_received _ p) hlen hip] at hsame
  refine headerWords_outside (bytes_received _ p) (bytes_received _ p) (by omega) hout
    (received_of_ge le_rfl) ?_ (fun i hi => ?_) hsame.symm
  · rw [received_of_ge le_rfl, leftover_last]
  · rw [received_of_ge (by omega), received_of_ge (by omega), received_of_ge (by omega)]

/-- What the node makes of a packet does not depend on the packets before it exactly if it
drops the packet, does not recognise it as IPv4, or finds in it all the header it claims. -/
theorem ip_modifier_forgets_iff (host : ByteOrder) (ctx : IpModifierContext) (p : Packet) :
    (∀ tr tr' out out' s s', (ipModifierProcess host ctx).Run (tr ++ [(p, out)]) s →
      (ipModifierProcess host ctx).Run (tr' ++ [(p, out')]) s' → out = out') ↔
      p.bytes.length < 46 ∨ etherType p.bytes ≠ 0x0800 ∨
        14 + headerLength p.bytes ≤ p.bytes.length := by
  constructor
  · intro h
    by_contra hn
    simp only [not_or, not_not, Nat.not_lt, Nat.not_le] at hn
    obtain ⟨hlen, hip, hout⟩ := hn
    obtain ⟨tr, tr', out, out', s, s', hrun, hrun', hne⟩ := remembers_leftover host ctx hlen hip hout
    exact hne (h tr tr' out out' s s' hrun hrun')
  · intro hcond tr tr' out out' s s' hrun hrun'
    obtain ⟨t, rfl⟩ := frame_of_run hrun
    obtain ⟨t', rfl⟩ := frame_of_run hrun'
    exact frame_forgets (bytes_received t p) (bytes_received t' p) hcond

/-- 46 bytes of IPv4 whose header claims to be 60 bytes long. -/
def longHeader : Packet where
  bytes := List.replicate 12 0 ++ [0x08, 0x00, 0x4F] ++ List.replicate 31 0
  length_pos := by decide
  length_le := by decide

/-- A single byte that an earlier packet left behind the header changes the checksum. -/
theorem ip_modifier_remembers : ¬ ∀ (host : ByteOrder) (ctx : IpModifierContext) (p : Packet)
    (tr tr' : List Handled) (out out' : Option (List UInt8)) (s s' : Memory UInt8),
    (ipModifierProcess host ctx).Run (tr ++ [(p, out)]) s →
    (ipModifierProcess host ctx).Run (tr' ++ [(p, out')]) s' → out = out' := by
  intro h
  let M := ipModifierProcess .little ⟨0x0A00000A⟩
  have hstep (s : Memory UInt8) (q : Packet) : M.step s
      (q, (ipModifierBody .little ⟨0x0A00000A⟩ (received s q) q.bytes.length).2.frame)
      (ipModifierBody .little ⟨0x0A00000A⟩ (received s q) q.bytes.length).1 :=
    ipModifierSystem_step_iff.mpr ⟨rfl, rfl⟩
  have hfirst : M.Run [] fun _ => 0 := .start rfl
  have hsame := h _ _ longHeader _ _ _ _ _ _ (hfirst.snoc (hstep _ longHeader))
    ((hfirst.snoc (hstep _ (leftover 46 (by decide)))).snoc (hstep _ longHeader))
  revert hsame
  decide +kernel

end VlanTagger.Nodes
