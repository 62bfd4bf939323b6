import Mathlib.Data.UInt
import VlanTagger.Lib.Memory

/-!
# Host and network byte order

A word is loaded from memory and stored to memory in the order of the host. The
conversions to and from network order are the identity on a big-endian host and
a byte swap on a little-endian one. Every result is for both hosts: after
`ntohs` or `ntohl` a loaded word is the big-endian value of its bytes, and a
word stored after `htons` lies in memory most significant byte first.
-/
namespace VlanTagger.Lib

inductive ByteOrder
  | little
  | big
  deriving DecidableEq

theorem toNat_ofNat8 {n : Nat} (h : n < 256) : (UInt8.ofNat n).toNat = n := UInt8.toNat_ofNat_of_lt' h

theorem toNat_ofNat16 {n : Nat} (h : n < 65536) : (UInt16.ofNat n).toNat = n := UInt16.toNat_ofNat_of_lt' h

theorem toNat_ofNat32 {n : Nat} (h : n < 4294967296) : (UInt32.ofNat n).toNat = n :=
  UInt32.toNat_ofNat_of_lt' h

namespace ByteOrder

def swap16 (w : UInt16) : UInt16 := UInt16.ofNat (w.toNat % 256 * 256 + w.toNat / 256)

def swap32 (w : UInt32) : UInt32 :=
  UInt32.ofNat (w.toNat % 256 * 16777216 + w.toNat / 256 % 256 * 65536 +
    w.toNat / 65536 % 256 * 256 + w.toNat / 16777216)

def htons : ByteOrder → UInt16 → UInt16
  | little, w => swap16 w
  | big, w => w

def htonl : ByteOrder → UInt32 → UInt32
  | little, w => swap32 w
  | big, w => w

def ntohs (host : ByteOrder) (w : UInt16) : UInt16 := host.htons w

def ntohl (host : ByteOrder) (w : UInt32) : UInt32 := host.htonl w

/-- The value of a `uint16_t` whose two bytes are at `p`. -/
def load16 : ByteOrder → Memory UInt8 → UInt16
  | little, p => UInt16.ofNat ((p 0).toNat + (p 1).toNat * 256)
  | big, p => UInt16.ofNat ((p 0).toNat * 256 + (p 1).toNat)

/-- The value of a `uint32_t` whose four bytes are at `p`. -/
def load32 : ByteOrder → Memory UInt8 → UInt32
  | little, p => UInt32.ofNat ((p 0).toNat + 256 * (p 1).toNat + 65536 * (p 2).toNat +
      16777216 * (p 3).toNat)
  | big, p => UInt32.ofNat ((p 0).toNat * 16777216 + (p 1).toNat * 65536 + (p 2).toNat * 256 +
      (p 3).toNat)

/-- The bytes of a `uint16_t` variable. -/
def store16 : ByteOrder → UInt16 → Memory UInt8
  | little, w => Memory.ofList [UInt8.ofNat (w.toNat % 256), UInt8.ofNat (w.toNat / 256)] 0
  | big, w => Memory.ofList [UInt8.ofNat (w.toNat / 256), UInt8.ofNat (w.toNat % 256)] 0

/-- The bytes of a `uint32_t` variable. -/
def store32 : ByteOrder → UInt32 → Memory UInt8
  | little, w => Memory.ofList [UInt8.ofNat (w.toNat % 256), UInt8.ofNat (w.toNat / 256 % 256),
      UInt8.ofNat (w.toNat / 65536 % 256), UInt8.ofNat (w.toNat / 16777216)] 0
  | big, w => Memory.ofList [UInt8.ofNat (w.toNat / 16777216), UInt8.ofNat (w.toNat / 65536 % 256),
      UInt8.ofNat (w.toNat / 256 % 256), UInt8.ofNat (w.toNat % 256)] 0

theorem swap16_toNat (w : UInt16) :
    (swap16 w).toNat = w.toNat % 256 * 256 + w.toNat / 256 := by
  have hw := w.toNat_lt
  exact toNat_ofNat16 (by omega)

theorem swap32_toNat (w : UInt32) :
    (swap32 w).toNat = w.toNat % 256 * 16777216 + w.toNat / 256 % 256 * 65536 +
      w.toNat / 65536 % 256 * 256 + w.toNat / 16777216 := by
  have hw := w.toNat_lt
  exact toNat_ofNat32 (by omega)

/-- Swapping four base-256 digits reverses them. -/
theorem swap32_digits (w : UInt32) {a b c d : Nat} (ha : a < 256) (hb : b < 256) (hc : c < 256)
    (h : w.toNat = a + 256 * b + 65536 * c + 16777216 * d) :
    (swap32 w).toNat = d + 256 * c + 65536 * b + 16777216 * a := by
  rw [swap32_toNat, h]
  have h0 : (a + 256 * b + 65536 * c + 16777216 * d) % 256 = a := by omega
  have h1 : (a + 256 * b + 65536 * c + 16777216 * d) / 256 % 256 = b := by omega
  have h2 : (a + 256 * b + 65536 * c + 16777216 * d) / 65536 % 256 = c := by omega
  have h3 : (a + 256 * b + 65536 * c + 16777216 * d) / 16777216 = d := by omega
  rw [h0, h1, h2, h3]
  omega

/-- Network order is an involution, so a converted address converts back. -/
@[simp] theorem ntohl_htonl (host : ByteOrder) (w : UInt32) : host.ntohl (host.htonl w) = w := by
  cases host with
  | big => rfl
  | little =>
    apply UInt32.toNat.inj
    show (swap32 (swap32 w)).toNat = w.toNat
    have hw := w.toNat_lt
    have hd : w.toNat = w.toNat % 256 + 256 * (w.toNat / 256 % 256) +
        65536 * (w.toNat / 65536 % 256) + 16777216 * (w.toNat / 16777216) := by omega
    have hs := swap32_digits w (by omega) (by omega) (by omega) hd
    rw [swap32_digits (swap32 w) (by omega) (by omega) (by omega) hs]
    exact hd.symm

/-- After `ntohs` a loaded half-word is the big-endian value of its bytes. -/
theorem ntohs_load16 (host : ByteOrder) (p : Memory UInt8) :
    (host.ntohs (host.load16 p)).toNat = (p 0).toNat * 256 + (p 1).toNat := by
  have h0 := (p 0).toNat_lt
  have h1 := (p 1).toNat_lt
  cases host with
  | big => exact toNat_ofNat16 (by omega)
  | little =>
    have hl : (load16 little p).toNat = (p 0).toNat + (p 1).toNat * 256 :=
      toNat_ofNat16 (by omega)
    show (swap16 (load16 little p)).toNat = _
    rw [swap16_toNat, hl]
    omega

/-- After `ntohl` a loaded word is the big-endian value of its bytes. -/
theorem ntohl_load32 (host : ByteOrder) (p : Memory UInt8) :
    (host.ntohl (host.load32 p)).toNat = (p 0).toNat * 16777216 + (p 1).toNat * 65536 +
      (p 2).toNat * 256 + (p 3).toNat := by
  have h0 := (p 0).toNat_lt
  have h1 := (p 1).toNat_lt
  have h2 := (p 2).toNat_lt
  have h3 := (p 3).toNat_lt
  cases host with
  | big => exact toNat_ofNat32 (by omega)
  | little =>
    have hl : (load32 little p).toNat = (p 0).toNat + 256 * (p 1).toNat + 65536 * (p 2).toNat +
        16777216 * (p 3).toNat := toNat_ofNat32 (by omega)
    show (swap32 (load32 little p)).toNat = _
    rw [swap32_digits _ h0 h1 h2 hl]
    omega

/-- A stored word is loaded back. -/
theorem load32_store32 (host : ByteOrder) (w : UInt32) : host.load32 (host.store32 w) = w := by
  have hw := w.toNat_lt
  have h0 : (UInt8.ofNat (w.toNat % 256)).toNat = w.toNat % 256 :=
    toNat_ofNat8 (by omega)
  have h1 : (UInt8.ofNat (w.toNat / 256 % 256)).toNat = w.toNat / 256 % 256 :=
    toNat_ofNat8 (by omega)
  have h2 : (UInt8.ofNat (w.toNat / 65536 % 256)).toNat = w.toNat / 65536 % 256 :=
    toNat_ofNat8 (by omega)
  have h3 : (UInt8.ofNat (w.toNat / 16777216)).toNat = w.toNat / 16777216 :=
    toNat_ofNat8 (by omega)
  apply UInt32.toNat.inj
  cases host with
  | big =>
    show (UInt32.ofNat ((UInt8.ofNat (w.toNat / 16777216)).toNat * 16777216 +
      (UInt8.ofNat (w.toNat / 65536 % 256)).toNat * 65536 +
      (UInt8.ofNat (w.toNat / 256 % 256)).toNat * 256 + (UInt8.ofNat (w.toNat % 256)).toNat)).toNat = _
    rw [h0, h1, h2, h3, toNat_ofNat32 (by omega)]
    omega
  | little =>
    show (UInt32.ofNat ((UInt8.ofNat (w.toNat % 256)).toNat +
      256 * (UInt8.ofNat (w.toNat / 256 % 256)).toNat +
      65536 * (UInt8.ofNat (w.toNat / 65536 % 256)).toNat +
      16777216 * (UInt8.ofNat (w.toNat / 16777216)).toNat)).toNat = _
    rw [h0, h1, h2, h3, toNat_ofNat32 (by omega)]
    omega

/-- A half-word stored after `htons` lies most significant byte first. -/
theorem bytes_store16_htons (host : ByteOrder) (w : UInt16) :
    (host.store16 (host.htons w)).bytes 2 =
      [UInt8.ofNat (w.toNat / 256), UInt8.ofNat (w.toNat % 256)] := by
  cases host with
  | big => exact Memory.bytes_ofList _ _
  | little =>
    have hw := w.toNat_lt
    have hm : (swap16 w).toNat % 256 = w.toNat / 256 := by rw [swap16_toNat]; omega
    have hd : (swap16 w).toNat / 256 = w.toNat % 256 := by rw [swap16_toNat]; omega
    show (Memory.ofList [UInt8.ofNat ((swap16 w).toNat % 256),
      UInt8.ofNat ((swap16 w).toNat / 256)] 0).bytes 2 = _
    rw [hm, hd]
    exact Memory.bytes_ofList _ _

end ByteOrder
end VlanTagger.Lib
