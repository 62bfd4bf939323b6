import VlanTagger.Lib.Attempts
import VlanTagger.Nodes.Workers

/-!
# When the sniffer and the sender give up

Both loops while `should_exit` is 0. They count the failures of their socket call with
different types and different tests; the rule they follow is the same.
-/
namespace VlanTagger.Nodes

open Lib

/-- What the end of a loop body means for the loop. -/
def Effect.standing : Effect → Standing
  | .giveUp => .gaveUp
  | .leave => .left
  | _ => .running

/-- A call of `recvfrom`: the buffer behind it and its return value. -/
structure Receipt where
  buffer : Memory UInt8
  rcvLen : Int

def Receipt.result (e : Receipt) : Option Bool := some (decide (0 ≤ e.rcvLen))

/-- The loop of the sniffer, with its `uint8_t err_counter`. -/
def snifferSystem : System (UInt8 × Standing) Receipt :=
  loopSystem 0 fun errCounter e =>
    let done := snifferBody errCounter e.buffer e.rcvLen
    (done.1, done.2.standing)

/-- One iteration of the sender: what `pop` returned, and whether a `sendto` then succeeds. -/
structure Sending where
  buffer : Memory UInt8
  rcvLen : Int
  sent : Bool

/-- A frame of 1518 bytes or more and a failed `pop` lead to no socket call. -/
def Sending.result (e : Sending) : Option Bool :=
  if vlanEthFrameLen ≤ e.rcvLen ∨ e.rcvLen < 0 then none else some e.sent

def senderIteration (errCounter : Nat) (e : Sending) : Nat × Effect :=
  match senderBody e.buffer e.rcvLen false with
  | .sendto _ _ => senderSent errCounter e.sent
  | effect => (errCounter, effect)

/-- The loop of the sender, with its `int err_counter`. -/
def senderSystem : System (Nat × Standing) Sending :=
  loopSystem 0 fun errCounter e =>
    let done := senderIteration errCounter e
    (done.1, done.2.standing)

theorem sniffer_follows (errCounter : UInt8) (e : Receipt) (h : errCounter.toNat ≤ 3) :
    ((snifferBody errCounter e.buffer e.rcvLen).1.toNat,
      (snifferBody errCounter e.buffer e.rcvLen).2.standing) =
      giveUpRule 3 Receipt.result errCounter.toNat e := by
  unfold snifferBody giveUpRule Receipt.result
  by_cases hfail : e.rcvLen < 0
  · have hge : decide (0 ≤ e.rcvLen) = false := decide_eq_false (not_le.mpr hfail)
    rw [if_pos hfail, hge]
    -- `>=` before the increment, and a counter of eight bits
    by_cases hlimit : maxErrNum ≤ errCounter
    · have hthree : errCounter.toNat = 3 := Nat.le_antisymm h (UInt8.le_iff_toNat_le.mp hlimit)
      simp only [if_pos hlimit, if_pos hthree]
      rfl
    · have hlt : errCounter.toNat < 3 := Nat.not_le.mp fun hle => hlimit (UInt8.le_iff_toNat_le.mpr hle)
      have hadd : (errCounter + 1).toNat = errCounter.toNat + 1 := by
        rw [UInt8.toNat_add]
        change (errCounter.toNat + 1) % 256 = _
        omega
      simp only [if_neg hlimit, if_neg (Nat.ne_of_lt hlt), hadd]
      rfl
  · have hge : decide (0 ≤ e.rcvLen) = true := decide_eq_true (not_lt.mp hfail)
    rw [if_neg hfail, hge]
    rfl

theorem sender_follows (errCounter : Nat) (e : Sending) :
    ((senderIteration errCounter e).1, (senderIteration errCounter e).2.standing) =
      giveUpRule 3 Sending.result errCounter e := by
  unfold senderIteration senderBody giveUpRule Sending.result
  by_cases hbig : vlanEthFrameLen ≤ e.rcvLen
  · simp only [hbig, if_true, true_or]
    rfl
  by_cases hneg : e.rcvLen < 0
  · simp only [hbig, hneg, if_false, if_true, or_true]
    rfl
  · simp only [hbig, hneg, if_false, or_self, senderSent]
    cases e.sent with
    | true => rfl
    | false =>
      by_cases hlimit : errCounter = 3
      · simp only [hlimit, if_true]
        rfl
      · simp only [hlimit, if_false]
        rfl

/-- The sniffer and the sender give up at the first failure of their socket call that is the
fourth in a row, and at no other time. -/
theorem sniffer_and_sender_give_up :
    GivesUpAfter 3 Receipt.result snifferSystem UInt8.toNat ∧
      GivesUpAfter 3 Sending.result senderSystem id :=
  ⟨givesUpAfter_of_body rfl sniffer_follows, givesUpAfter_of_body rfl fun c e _ => sender_follows c e⟩

end VlanTagger.Nodes
