/-
**Byte order, addresses and the Internet checksum** (`net/net.h`).

Packets are byte storage with a length beside it, as the handlers receive them. A 16-bit or 32-bit
header field is a native little-endian load; `ntohs` and `ntohl` swap it. `ntohs_readLE` and
`ntohl_readLE` read a swapped load as the big-endian number on the wire.
-/

import LaylaOS.Lib.Bytes

namespace LaylaOS.Net

open LaylaOS.Lib

/-- `htons`: `(x >> 8) | (x << 8)` on 16 bits. -/
def htons (x : Nat) : Nat := x / 256 % 256 + 256 * (x % 256)

/-- `ntohs`. -/
def ntohs (x : Nat) : Nat := htons x

/-- `htonl`: the four bytes of a 32-bit word in the other order. -/
def htonl (x : Nat) : Nat :=
  x / 2 ^ 24 % 256 + 256 * (x / 2 ^ 16 % 256) + 2 ^ 16 * (x / 256 % 256) + 2 ^ 24 * (x % 256)

/-- `ntohl`. -/
def ntohl (x : Nat) : Nat := htonl x

/-- `IPv4Address`. -/
abbrev IPv4Address := Fin 4 → UInt8

/-- `MACAddress`. -/
abbrev MACAddress := Fin 6 → UInt8

/-- The address stored at an offset of a packet. -/
def addressAt (packet : Storage) (offset : Nat) : IPv4Address := fun index => packet (offset + index)

/-- The 16-bit big-endian number at an offset of a packet. -/
def be16 (packet : Storage) (offset : Nat) : Nat :=
  256 * (packet offset).toNat + (packet (offset + 1)).toNat

/-- The 32-bit big-endian number at an offset of a packet. -/
def be32 (packet : Storage) (offset : Nat) : Nat :=
  2 ^ 16 * be16 packet offset + be16 packet (offset + 2)

/-- The two bytes of a 16-bit number in network order. -/
def bytes16 (value : Nat) : List UInt8 := [UInt8.ofNat (value / 256), UInt8.ofNat value]

/-- The four bytes of a 32-bit number in network order. -/
def bytes32 (value : Nat) : List UInt8 := bytes16 (value / 2 ^ 16) ++ bytes16 value

/-- The bytes of a 16-bit store. -/
def native16 (value : Nat) : List UInt8 := [UInt8.ofNat value, UInt8.ofNat (value / 256)]

/-- The bytes of a 32-bit store. -/
def native32 (value : Nat) : List UInt8 := native16 value ++ native16 (value / 2 ^ 16)

theorem be16_lt (packet : Storage) (offset : Nat) : be16 packet offset < 2 ^ 16 := by
  have first := (packet offset).toNat_lt
  have second := (packet (offset + 1)).toNat_lt
  unfold be16
  omega

theorem be16_of_bytes {packet : Storage} {offset value : Nat} (word : value < 2 ^ 16)
    (high : packet offset = UInt8.ofNat (value / 256)) (low : packet (offset + 1) = UInt8.ofNat value) :
    be16 packet offset = value := by
  rw [be16, high, low, UInt8.toNat_ofNat', UInt8.toNat_ofNat']
  omega

theorem ntohs_readLE (packet : Storage) (offset : Nat) :
    ntohs (readLE packet offset 2) = be16 packet offset := by
  have first := (packet offset).toNat_lt
  have second := (packet (offset + 1)).toNat_lt
  simp only [ntohs, htons, readLE, be16]
  omega

theorem ntohl_readLE (packet : Storage) (offset : Nat) :
    ntohl (readLE packet offset 4) = be32 packet offset := by
  have byte0 := (packet offset).toNat_lt
  have byte1 := (packet (offset + 1)).toNat_lt
  have byte2 := (packet (offset + 2)).toNat_lt
  have byte3 := (packet (offset + 3)).toNat_lt
  simp only [ntohl, htonl, readLE, be32, be16, Nat.add_assoc, Nat.reduceAdd]
  omega

theorem byte_eq {x y : Nat} (same : x % 256 = y % 256) : UInt8.ofNat x = UInt8.ofNat y := by
  rw [← UInt8.toNat_inj, UInt8.toNat_ofNat', UInt8.toNat_ofNat']
  exact same

@[simp] theorem native16_htons (x : Nat) : native16 (htons x) = bytes16 x := by
  have first := Nat.mod_lt (x / 256) (show 0 < 256 by decide)
  have high : htons x % 256 = x / 256 % 256 := by
    unfold htons
    omega
  have low : htons x / 256 % 256 = x % 256 := by
    unfold htons
    generalize x / 256 % 256 = digit at first ⊢
    omega
  rw [native16, bytes16, byte_eq high, byte_eq low]

@[simp] theorem native32_htonl (x : Nat) : native32 (htonl x) = bytes32 x := by
  have bound (y : Nat) := Nat.mod_lt y (show 0 < 256 by decide)
  have digits : htonl x % 256 = x / 2 ^ 24 % 256 ∧ htonl x / 256 % 256 = x / 2 ^ 16 % 256 ∧
      htonl x / 2 ^ 16 % 256 = x / 256 % 256 ∧ htonl x / 2 ^ 16 / 256 % 256 = x % 256 := by
    have bounds := And.intro (bound (x / 2 ^ 24)) (And.intro (bound (x / 2 ^ 16))
      (And.intro (bound (x / 256)) (bound x)))
    unfold htonl
    generalize x / 2 ^ 24 % 256 = a, x / 2 ^ 16 % 256 = b, x / 256 % 256 = c, x % 256 = d at bounds ⊢
    omega
  obtain ⟨byte0, byte1, byte2, byte3⟩ := digits
  have top : x / 2 ^ 16 / 256 = x / 2 ^ 24 := Nat.div_div_eq_div_mul ..
  rw [native32, native16, native16, bytes32, bytes16, bytes16, top, byte_eq byte0, byte_eq byte1,
    byte_eq byte2, byte_eq byte3]

/-! ### The checksum -/

/-- The loops over 16-bit words of `InternetChecksum`, with its 32-bit accumulator. -/
def sumWords (packet : Storage) : Nat → Nat → Nat → Nat
  | offset, length + 2, sum =>
    sumWords packet (offset + 2) length ((sum + readLE packet offset 2) % 2 ^ 32)
  | offset, 1, sum => (sum + (packet offset).toNat) % 2 ^ 32
  | _, 0, sum => sum

/-- `while (sum >> 16) sum = (sum & 0xFFFF) + (sum >> 16)`, for at most the given number of
rounds. -/
def foldCarry : Nat → Nat → Nat
  | 0, sum => sum
  | rounds + 1, sum =>
    if sum / 2 ^ 16 = 0 then sum else foldCarry rounds (sum % 2 ^ 16 + sum / 2 ^ 16)

theorem foldCarry_lt {sum : Nat} (small : sum < 2 ^ 32) : foldCarry 3 sum < 2 ^ 16 := by
  simp only [foldCarry]
  split_ifs <;> omega

/-- `InternetChecksum(data, length)`. -/
def internetChecksum (packet : Storage) (length : Nat) : Nat :=
  2 ^ 16 - 1 - foldCarry 3 (sumWords packet 0 length 0)

end LaylaOS.Net
