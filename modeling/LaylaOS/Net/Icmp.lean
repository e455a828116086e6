/-
**Echo requests and their replies** (`net/icmp.cpp`).

`HandleIPv4Payload` copies a request into the static `tx_buf`, makes a reply of it there and hands that
to `IPv4Handler::Send`. The buffer has 64 bytes and `SendEchoRequest` uses it too; a longer request is
cut off.

* `sendEchoRequest_mirrored` — a request that the code itself sends is mirrored;
* `echo_mirrored_iff` — a request is mirrored if and only if it has at most 64 bytes.
-/

import LaylaOS.Lib.Buffers
import LaylaOS.Net.Checksum

namespace LaylaOS.Net

open LaylaOS.Lib

/-- `ICMP_ECHO_REQUEST`. -/
def icmpEchoRequest : UInt8 := 8
/-- `ICMP_ECHO_REPLY`. -/
def icmpEchoReply : UInt8 := 0
/-- `IPV4_PROTO_ICMP`. -/
def ipv4ProtoIcmp : UInt8 := 0x01
/-- `sizeof(ICMPHeader)`. -/
def icmpHeaderSize : Nat := 8
/-- `sizeof(tx_buf)`. -/
def icmpTxSize : Nat := 64

/-- A call of `IPv4Handler::Send`. -/
structure IPv4Send where
  dstIP : IPv4Address
  protocol : UInt8
  data : List UInt8
  deriving DecidableEq

/-- `ICMPHandler`, with its static buffer. -/
structure ICMPHandler where
  txBuf : Storage

namespace ICMPHandler

/-- `tx_buf` before the checksum is stored. -/
def replyFields (txBuf payload : Storage) (replySize : Nat) : Storage :=
  let txBuf := blit txBuf 0 (slice payload 0 replySize)
  let txBuf := Function.update txBuf 0 icmpEchoReply
  let txBuf := Function.update txBuf 1 0
  writeLE txBuf 2 0 2

/-- `tx_buf` when `IPv4Handler::Send` is called. -/
def echoReply (txBuf payload : Storage) (replySize : Nat) : Storage :=
  let txBuf := replyFields txBuf payload replySize
  writeLE txBuf 2 (internetChecksum txBuf replySize) 2

/-- `HandleIPv4Payload`, with the call of `IPv4Handler::Send` it makes. -/
def handleIPv4Payload (h : ICMPHandler) (payload : Storage) (size : Nat) (src : IPv4Address) :
    ICMPHandler × Option IPv4Send :=
  if size < icmpHeaderSize then (h, none)
  else if payload 0 ≠ icmpEchoRequest then (h, none)
  else
    let replySize := if size > icmpTxSize then icmpTxSize else size
    let txBuf := echoReply h.txBuf payload replySize
    (⟨txBuf⟩, some ⟨src, ipv4ProtoIcmp, slice txBuf 0 replySize⟩)

/-- `SendEchoRequest`, with the call of `IPv4Handler::Send` whose result it returns. -/
def sendEchoRequest (h : ICMPHandler) (target : IPv4Address) (id seq : Nat) :
    ICMPHandler × IPv4Send :=
  let txBuf := Function.update h.txBuf 0 icmpEchoRequest
  let txBuf := Function.update txBuf 1 0
  let txBuf := writeLE txBuf 2 0 2
  let txBuf := writeLE txBuf 4 (htons id) 2
  let txBuf := writeLE txBuf 6 (htons seq) 2
  let txBuf := writeLE txBuf 2 (internetChecksum txBuf icmpHeaderSize) 2
  (⟨txBuf⟩, ⟨target, ipv4ProtoIcmp, slice txBuf 0 icmpHeaderSize⟩)

end ICMPHandler

/-- The bytes as storage. -/
def asStorage (bytes : List UInt8) : Storage := fun place => bytes.getD place 0

/-- A call of `Send` that answers a request as it came: to its source, with the same identifier,
sequence number and data, of the same length, and with a checksum that verifies. -/
structure Mirrors (request : List UInt8) (src : IPv4Address) (sent : IPv4Send) : Prop where
  dstIP : sent.dstIP = src
  protocol : sent.protocol = ipv4ProtoIcmp
  type : sent.data[0]? = some icmpEchoReply
  code : sent.data[1]? = some 0
  rest : sent.data.drop 4 = request.drop 4
  length : sent.data.length = request.length
  verifies : internetChecksum (asStorage sent.data) sent.data.length = 0

/-! ### The reply -/

namespace ICMPHandler

variable {txBuf payload : Storage} {size : Nat}

theorem replyFields_header (txBuf payload : Storage) (size : Nat) :
    replyFields txBuf payload size 0 = icmpEchoReply ∧ replyFields txBuf payload size 1 = 0 ∧
      readLE (replyFields txBuf payload size) 2 2 = 0 := by
  refine ⟨?_, ?_, ?_⟩
  · exact writeLE_outside (.inl (by decide))
  · exact writeLE_outside (.inl (by decide))
  · exact readLE_writeLE ..

theorem replyFields_behind {place : Nat} (behind : 4 ≤ place) (inside : place < size) :
    replyFields txBuf payload size place = payload place := by
  have copied : blit txBuf 0 (slice payload 0 size) place = payload place := by
    rw [blit_start (by rwa [slice_length]), slice_getD _ _ inside, Nat.zero_add]
  unfold replyFields
  rw [writeLE_outside (.inr behind), Function.update_of_ne (by omega), Function.update_of_ne (by omega), copied]

theorem echoReply_spells (header : 8 ≤ size) :
    echoReply txBuf payload size 0 = icmpEchoReply ∧ echoReply txBuf payload size 1 = 0 ∧
      slice (echoReply txBuf payload size) 4 (size - 4) = slice payload 4 (size - 4) := by
  obtain ⟨type, code, -⟩ := replyFields_header txBuf payload size
  refine ⟨?_, ?_, slice_congr fun k bound => ?_⟩
  · exact (writeLE_outside (.inl (by decide))).trans type
  · exact (writeLE_outside (.inl (by decide))).trans code
  · refine (writeLE_outside (.inr (by omega))).trans ?_
    exact replyFields_behind (by omega) (by omega)

theorem echoReply_verifies (header : 8 ≤ size) (short : size < 2 ^ 16) :
    internetChecksum (echoReply txBuf payload size) size = 0 :=
  internetChecksum_store _ 1 (by omega) short (replyFields_header txBuf payload size).2.2

theorem asStorage_slice {storage : Storage} {count place : Nat} (bound : place < count) :
    asStorage (slice storage 0 count) place = storage place := by
  rw [asStorage, slice_getD _ _ bound, Nat.zero_add]

theorem drop_slice (storage : Storage) {m count : Nat} (inside : m ≤ count) :
    (slice storage 0 count).drop m = slice storage m (count - m) := by
  have cut := take_drop_slice storage 0 (Nat.add_sub_of_le inside).le
  rw [Nat.zero_add] at cut
  rw [← cut, List.take_of_length_le (by rw [List.length_drop, slice_length])]

theorem mirrors_echoReply (txBuf payload : Storage) (src : IPv4Address) (header : 8 ≤ size)
    (short : size < 2 ^ 16) :
    Mirrors (slice payload 0 size) src ⟨src, ipv4ProtoIcmp, slice (echoReply txBuf payload size) 0 size⟩ := by
  obtain ⟨type, code, behind⟩ := @echoReply_spells txBuf payload size header
  constructor
  case dstIP => rfl
  case protocol => rfl
  case type => simp [slice, type, show 0 < size by omega]
  case code => simp [slice, code, show 1 < size by omega]
  case rest =>
    show List.drop 4 (slice (echoReply txBuf payload size) 0 size) = _
    rw [drop_slice _ (by omega), drop_slice _ (by omega), behind]
  case length => exact (slice_length ..).trans (slice_length ..).symm
  case verifies =>
    show internetChecksum (asStorage (slice (echoReply txBuf payload size) 0 size))
      (slice (echoReply txBuf payload size) 0 size).length = 0
    rw [slice_length, internetChecksum_congr fun _ bound => asStorage_slice bound]
    exact echoReply_verifies header short

theorem handleIPv4Payload_request (h : ICMPHandler) (src : IPv4Address) (header : 8 ≤ size)
    (request : payload 0 = icmpEchoRequest) :
    (h.handleIPv4Payload payload size src).2 =
      some ⟨src, ipv4ProtoIcmp, slice (echoReply h.txBuf payload (min size 64)) 0 (min size 64)⟩ := by
  have clamped : (if size > icmpTxSize then icmpTxSize else size) = min size 64 := by
    unfold icmpTxSize
    split_ifs with large
    · exact (min_eq_right large.le).symm
    · exact (min_eq_left (Nat.le_of_not_lt large)).symm
  have whole : ¬ size < icmpHeaderSize := Nat.not_lt.mpr header
  unfold handleIPv4Payload
  rw [if_neg whole, if_neg (not_not.mpr request), clamped]

/-- A request of `SendEchoRequest` is mirrored by the machine it reaches. -/
theorem sendEchoRequest_mirrored (h peer : ICMPHandler) (src target : IPv4Address) (id seq : Nat) :
    let request := (h.sendEchoRequest target id seq).2.data
    ∃ sent ∈ (peer.handleIPv4Payload (asStorage request) request.length src).2, Mirrors request src sent := by
  intro request
  have length : request.length = 8 := slice_length ..
  have same : slice (asStorage request) 0 8 = request := by
    refine (slice_congr fun k bound => ?_).trans (slice_blit (asStorage request) 0 request)
    rw [Nat.zero_add, blit_start (by rwa [length])]
    rfl
  have type : asStorage request 0 = icmpEchoRequest := by
    refine (asStorage_slice (by decide)).trans ?_
    iterate 4 refine (writeLE_outside (.inl (by decide))).trans ?_
    rfl
  have sent := handleIPv4Payload_request peer src (le_refl 8) type
  rw [length, sent]
  refine ⟨_, rfl, ?_⟩
  have mirrors := mirrors_echoReply peer.txBuf (asStorage request) src (le_refl 8) (by decide)
  rwa [same] at mirrors

/-- **A request is mirrored if and only if it fits into the buffer**, whatever the buffer holds. -/
theorem echo_mirrored_iff (h : ICMPHandler) (payload : Storage) (size : Nat) (src : IPv4Address)
    (header : 8 ≤ size) (request : payload 0 = icmpEchoRequest) :
    (∃ sent ∈ (h.handleIPv4Payload payload size src).2, Mirrors (slice payload 0 size) src sent) ↔
      size ≤ 64 := by
  rw [handleIPv4Payload_request h src header request]
  constructor
  · rintro ⟨sent, handed, mirrors⟩
    obtain rfl := Option.some.inj handed
    have length := mirrors.length
    rw [slice_length, slice_length] at length
    exact min_eq_left_iff.mp length
  · intro fits
    rw [min_eq_left fits]
    exact ⟨_, rfl, mirrors_echoReply _ _ _ header (by omega)⟩

/-- A request of 9 bytes, from the gateway. -/
theorem echo_mirrored_nine : ∃ sent ∈ ((⟨fun _ => 0xAA⟩ : ICMPHandler).handleIPv4Payload
      (asStorage [8, 0, 0, 0, 0, 1, 0, 2, 77]) 9 ![10, 0, 2, 2]).2,
    Mirrors [8, 0, 0, 0, 0, 1, 0, 2, 77] ![10, 0, 2, 2] sent :=
  (echo_mirrored_iff ⟨fun _ => 0xAA⟩ (asStorage [8, 0, 0, 0, 0, 1, 0, 2, 77]) 9 ![10, 0, 2, 2]
    (by decide) rfl).mpr (by decide)

/-- A request of 65 bytes. -/
theorem long_echo_cut : ¬ ∀ (h : ICMPHandler) (payload : Storage) (size : Nat) (src : IPv4Address),
    8 ≤ size → size ≤ 1480 → payload 0 = icmpEchoRequest → ∃ sent ∈ (h.handleIPv4Payload payload size src).2,
        Mirrors (slice payload 0 size) src sent := by
  intro all
  obtain ⟨sent, handed, mirrors⟩ := all ⟨fun _ => 0⟩ (fun _ => 8) 65 ![10, 0, 2, 2] (by decide) (by decide) rfl
  rw [handleIPv4Payload_request _ _ (by decide) rfl] at handed
  obtain rfl := Option.some.inj handed
  have length := mirrors.length
  rw [slice_length, slice_length] at length
  exact absurd length (by decide)

end ICMPHandler

end LaylaOS.Net
