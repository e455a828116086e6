/-
**The transmit path** (`IPv4Handler::Send`, `RTL8139Driver::Send`, `ARPHandler::Resolve`).

Every layer copies what it is given behind its own header in a static buffer and hands that buffer
down. A buffer is storage without an end: a store past the declared size is a store like any other
here, and `writes` records the indices of each.
-/

import LaylaOS.Lib.Buffers
import LaylaOS.Net.Checksum

namespace LaylaOS.Net

open LaylaOS.Lib

/-- The static buffers of the transmit path: `UDPSocket::tx_buf`, `TCPSocket::tx_buf`, the `scratch` of
`ComputeChecksum`, `IPv4Handler::tx_buf` and `tx_buffers`. -/
inductive Buffer
  | udp
  | tcp
  | scratch
  | ipv4
  | nic (slot : Fin 4)
  deriving DecidableEq, Repr

/-- `sizeof`. -/
def Buffer.size : Buffer → Nat
  | udp => 1472
  | tcp => 1480
  | scratch => 1500
  | ipv4 => 1500
  | nic _ => 1536

/-- A store of `count` bytes from `index` on. -/
structure Write where
  buffer : Buffer
  index : Nat
  count : Nat
  deriving DecidableEq, Repr

/-- Every index stored to lies inside the buffer. -/
def Write.Inside (w : Write) : Prop := ∀ k < w.count, w.index + k < w.buffer.size

instance Write.decidableInside (w : Write) : Decidable w.Inside :=
  inferInstanceAs (Decidable (∀ k < w.count, w.index + k < w.buffer.size))

theorem Write.inside_of_le {w : Write} (le : w.index + w.count ≤ w.buffer.size) : w.Inside :=
  fun _ _ => by omega

/-- `ARPCacheEntry`. -/
structure ARPCacheEntry where
  ip : IPv4Address
  mac : MACAddress
  valid : Bool
  deriving DecidableEq

/-- The sending side of a machine. -/
structure Host where
  mac : MACAddress
  localIP : IPv4Address
  /-- `arp_cache`. -/
  arpCache : Fin 128 → ARPCacheEntry
  idCounter : Nat
  txCurrent : Fin 4
  buffers : Buffer → Storage
  /-- The stores to the buffers so far. -/
  writes : List Write
  /-- The frames handed to the NIC so far. -/
  frames : List (List UInt8)

namespace Host

/-- Store bytes, one after the other. -/
def store (h : Host) (b : Buffer) (index : Nat) (bytes : List UInt8) : Host :=
  { h with
    buffers := Function.update h.buffers b (blit (h.buffers b) index bytes)
    writes := h.writes ++ [⟨b, index, bytes.length⟩] }

/-- `RTL8139Driver::Send`. -/
def nicSend (h : Host) (dst : MACAddress) (ethertype : Nat) (payload : List UInt8) : Bool × Host :=
  let buf := Buffer.nic h.txCurrent
  let h := h
    |>.store buf 0 (List.ofFn dst)
    |>.store buf 6 (List.ofFn h.mac)
    |>.store buf 12 [UInt8.ofNat (ethertype / 256)]
    |>.store buf 13 [UInt8.ofNat ethertype]
    |>.store buf 14 payload
  -- the bytes up to the 60th are not cleared
  let frameSize := if 14 + payload.length < 60 then 60 else 14 + payload.length
  (true, { h with
    frames := h.frames ++ [slice (h.buffers buf) 0 frameSize]
    txCurrent := h.txCurrent + 1 })

/-- `ARPHandler::Resolve`, by `CacheGet`. -/
def resolve (h : Host) (ip : IPv4Address) : Option MACAddress :=
  (List.ofFn h.arpCache).findSome? fun entry =>
    if entry.valid ∧ entry.ip = ip then some entry.mac else none

/-- The header fields in the order of `IPv4Handler::Send`, the checksum still zero. -/
def ipv4Fields (h : Host) (dstIP : IPv4Address) (protocol : UInt8) (size : Nat) : Host :=
  { h with idCounter := (h.idCounter + 1) % 2 ^ 16 }
    |>.store .ipv4 0 [0x45]
    |>.store .ipv4 1 [0]
    |>.store .ipv4 2 (native16 (htons (20 + size)))
    |>.store .ipv4 4 (native16 (htons h.idCounter))
    |>.store .ipv4 6 (native16 0)
    |>.store .ipv4 8 [64]
    |>.store .ipv4 9 [protocol]
    |>.store .ipv4 10 (native16 0)
    |>.store .ipv4 12 (List.ofFn h.localIP)
    |>.store .ipv4 16 (List.ofFn dstIP)

/-- The whole packet in `IPv4Handler::tx_buf`. -/
def ipv4Stage (h : Host) (dstIP : IPv4Address) (protocol : UInt8) (payload : List UInt8) : Host :=
  let h := h.ipv4Fields dstIP protocol payload.length
  h |>.store .ipv4 10 (native16 (internetChecksum (h.buffers .ipv4) 20))
    |>.store .ipv4 20 payload

/-- `IPv4Handler::Send`. -/
def ipv4Send (h : Host) (dstIP : IPv4Address) (protocol : UInt8) (payload : List UInt8) :
    Bool × Host :=
  match h.resolve dstIP with
  | none => (false, h)
  | some dstMAC =>
    let h := h.ipv4Stage dstIP protocol payload
    h.nicSend dstMAC 0x0800 (slice (h.buffers .ipv4) 0 (20 + payload.length))

section Store

variable (h : Host) (b : Buffer) (index : Nat) (bytes : List UInt8)

@[simp] theorem store_mac : (h.store b index bytes).mac = h.mac := rfl
@[simp] theorem store_localIP : (h.store b index bytes).localIP = h.localIP := rfl
@[simp] theorem store_arpCache : (h.store b index bytes).arpCache = h.arpCache := rfl
@[simp] theorem store_idCounter : (h.store b index bytes).idCounter = h.idCounter := rfl
@[simp] theorem store_txCurrent : (h.store b index bytes).txCurrent = h.txCurrent := rfl
@[simp] theorem store_frames : (h.store b index bytes).frames = h.frames := rfl

@[simp] theorem store_writes : (h.store b index bytes).writes = h.writes ++ [⟨b, index, bytes.length⟩] := rfl

@[simp] theorem store_buffers_self : (h.store b index bytes).buffers b = blit (h.buffers b) index bytes :=
  Function.update_self ..

theorem store_buffers_of_ne {c : Buffer} (ne : c ≠ b) : (h.store b index bytes).buffers c = h.buffers c :=
  Function.update_of_ne ne ..

@[simp] theorem store_resolve : (h.store b index bytes).resolve = h.resolve := rfl

end Store

end Host

/-- An Ethernet frame before padding. -/
def ethernetFrame (dst src : MACAddress) (ethertype : Nat) (payload : List UInt8) : List UInt8 :=
  List.ofFn dst ++ List.ofFn src ++ bytes16 ethertype ++ payload

/-- An IPv4 header with the given bytes in its checksum field. -/
def ipv4Header (src dst : IPv4Address) (protocol : UInt8) (size id : Nat) (checksum : List UInt8) :
    List UInt8 :=
  [0x45, 0] ++ bytes16 (20 + size) ++ bytes16 id ++ [0, 0, 64, protocol] ++ checksum ++
    List.ofFn src ++ List.ofFn dst

/-- The checksum that `IPv4Handler::Send` computes. -/
def ipv4Checksum (src dst : IPv4Address) (protocol : UInt8) (size id : Nat) : Nat :=
  internetChecksum (fun offset => (ipv4Header src dst protocol size id [0, 0]).getD offset 0) 20

/-- An IPv4 packet as `IPv4Handler::Send` hands it to the driver. -/
def ipv4Packet (src dst : IPv4Address) (protocol : UInt8) (id : Nat) (payload : List UInt8) :
    List UInt8 :=
  ipv4Header src dst protocol payload.length id
    (native16 (ipv4Checksum src dst protocol payload.length id)) ++ payload

theorem ipv4Header_length (src dst : IPv4Address) (protocol : UInt8) (size id : Nat)
    {checksum : List UInt8} (two : checksum.length = 2) :
    (ipv4Header src dst protocol size id checksum).length = 20 := by
  simp [ipv4Header, bytes16, two]

theorem ipv4Packet_length (src dst : IPv4Address) (protocol : UInt8) (id : Nat) (payload : List UInt8) :
    (ipv4Packet src dst protocol id payload).length = 20 + payload.length := by
  rw [ipv4Packet, List.length_append, ipv4Header_length _ _ _ _ _ rfl]

theorem ethernetFrame_length (dst src : MACAddress) (ethertype : Nat) (payload : List UInt8) :
    (ethernetFrame dst src ethertype payload).length = 14 + payload.length := by
  simp [ethernetFrame, bytes16]
  omega

theorem blit_checksum (storage : Storage) (src dst : IPv4Address) (protocol : UInt8) (size id : Nat)
    (checksum : Nat) :
    blit (blit storage 0 (ipv4Header src dst protocol size id [0, 0])) 10 (native16 checksum) =
      blit storage 0 (ipv4Header src dst protocol size id (native16 checksum)) := by
  have replaced := blit_replace storage 0
    ([0x45, 0] ++ bytes16 (20 + size) ++ bytes16 id ++ [0, 0, 64, protocol])
    (List.ofFn src ++ List.ofFn dst) (show (native16 checksum).length = [0, 0].length from rfl)
  simpa [ipv4Header, bytes16] using replaced

theorem writeLE_eq_blit (storage : Storage) (index value : Nat) :
    writeLE storage index value 2 = blit storage index (native16 value) := by
  funext place
  by_cases inside : index ≤ place ∧ place < index + 2
  · obtain ⟨k, rfl⟩ := Nat.exists_eq_add_of_le inside.1
    have two : k < (native16 value).length := show k < 2 by omega
    rw [blit_inside two, writeLE, if_pos inside, Nat.add_sub_cancel_left]
    obtain rfl | rfl : k = 0 ∨ k = 1 := by omega
    · simp [native16]
    · simp [native16]
  · have two : (native16 value).length = 2 := rfl
    rw [writeLE_outside (by omega), blit_outside (by omega)]

theorem ipv4Packet_verifies (src dst : IPv4Address) (protocol : UInt8) (id : Nat)
    (payload : List UInt8) {packet : Storage}
    (spells : Spells packet (ipv4Packet src dst protocol id payload)) :
    internetChecksum packet 20 = 0 := by
  -- the header as it was when its checksum was computed
  let blank : Storage := blit (fun _ => 0) 0 (ipv4Header src dst protocol payload.length id [0, 0])
  have length {checksum : List UInt8} (two : checksum.length = 2) :=
    ipv4Header_length src dst protocol payload.length id two
  have checksum : internetChecksum blank 20 = ipv4Checksum src dst protocol payload.length id :=
    internetChecksum_congr fun k bound => blit_start (by rwa [length rfl])
  have stored : internetChecksum packet 20 =
      internetChecksum (writeLE blank (2 * 5) (internetChecksum blank 20) 2) 20 := by
    refine internetChecksum_congr fun k bound => ?_
    rw [checksum, writeLE_eq_blit, blit_checksum, blit_start (by rwa [length rfl]),
      spells.append.1 k (by rwa [length rfl])]
  rw [stored]
  refine internetChecksum_store blank 5 (by decide) (by decide) ?_
  rfl

namespace Host

theorem nicSend_frames (h : Host) (dst : MACAddress) (ethertype : Nat) (payload : List UInt8) :
    (h.nicSend dst ethertype payload).2.frames = h.frames ++
      [slice (blit (h.buffers (.nic h.txCurrent)) 0 (ethernetFrame dst h.mac ethertype payload)) 0
        (max 60 (14 + payload.length))] := by
  have padded : (if 14 + payload.length < 60 then 60 else 14 + payload.length) =
      max 60 (14 + payload.length) := by
    split_ifs <;> omega
  simp only [nicSend, store_frames, store_buffers_self, store_mac, padded]
  rw [blit_next (by simp), blit_next (by simp), blit_next (by simp), blit_next (by simp)]
  simp [ethernetFrame, bytes16]

theorem ipv4Fields_buffer (h : Host) (dstIP : IPv4Address) (protocol : UInt8) (size : Nat) :
    (h.ipv4Fields dstIP protocol size).buffers .ipv4 = blit (h.buffers .ipv4) 0
      (ipv4Header h.localIP dstIP protocol size h.idCounter [0, 0]) := by
  simp only [ipv4Fields, store_buffers_self, native16_htons]
  repeat rw [blit_next (by simp [bytes16, native16])]
  simp [ipv4Header, bytes16, native16]

theorem ipv4Stage_buffer (h : Host) (dstIP : IPv4Address) (protocol : UInt8) (payload : List UInt8) :
    (h.ipv4Stage dstIP protocol payload).buffers .ipv4 = blit (h.buffers .ipv4) 0
      (ipv4Packet h.localIP dstIP protocol h.idCounter payload) := by
  have checksum : internetChecksum ((h.ipv4Fields dstIP protocol payload.length).buffers .ipv4) 20 =
      ipv4Checksum h.localIP dstIP protocol payload.length h.idCounter := by
    rw [ipv4Fields_buffer]
    refine internetChecksum_congr fun place bound => blit_start ?_
    rwa [ipv4Header_length _ _ _ _ _ rfl]
  rw [ipv4Stage, checksum, store_buffers_self, store_buffers_self, ipv4Fields_buffer,
    blit_checksum, blit_next (ipv4Header_length _ _ _ _ _ rfl).symm]
  rfl

/-- Only buffers above the driver's have been stored to, and nothing has been handed to the NIC. -/
structure Staged (h h' : Host) : Prop where
  mac : h'.mac = h.mac
  localIP : h'.localIP = h.localIP
  arpCache : h'.arpCache = h.arpCache
  txCurrent : h'.txCurrent = h.txCurrent
  frames : h'.frames = h.frames
  nic : ∀ slot, h'.buffers (.nic slot) = h.buffers (.nic slot)

theorem Staged.refl (h : Host) : h.Staged h := ⟨rfl, rfl, rfl, rfl, rfl, fun _ => rfl⟩

/-- The frame with a datagram, as it is in the transmit buffer: behind a short one stands what the
buffer held before. -/
def frameOf (h : Host) (mac : MACAddress) (dstIP : IPv4Address) (protocol : UInt8)
    (payload : List UInt8) : List UInt8 :=
  slice (blit (h.buffers (.nic h.txCurrent)) 0 (ethernetFrame mac h.mac 0x0800
    (ipv4Packet h.localIP dstIP protocol h.idCounter payload))) 0 (max 60 (34 + payload.length))

theorem Staged.frameOf {h h' : Host} (staged : h.Staged h') (same : h'.idCounter = h.idCounter) :
    h'.frameOf = h.frameOf := by
  funext mac dstIP protocol payload
  unfold Host.frameOf
  rw [staged.txCurrent, staged.nic, staged.mac, staged.localIP, same]

theorem Staged.resolve {h h' : Host} (staged : h.Staged h') : h'.resolve = h.resolve := by
  unfold Host.resolve
  rw [staged.arpCache]

theorem Staged.store {h h' : Host} (staged : h.Staged h') {b : Buffer} (upper : ∀ slot, b ≠ .nic slot)
    (index : Nat) (bytes : List UInt8) : h.Staged (h'.store b index bytes) where
  mac := staged.mac
  localIP := staged.localIP
  arpCache := staged.arpCache
  txCurrent := staged.txCurrent
  frames := staged.frames
  nic := fun slot => (h'.store_buffers_of_ne b index bytes (upper slot).symm).trans (staged.nic slot)

theorem ipv4Stage_staged (h : Host) (dstIP : IPv4Address) (protocol : UInt8) (payload : List UInt8) :
    h.Staged (h.ipv4Stage dstIP protocol payload) := by
  unfold ipv4Stage ipv4Fields
  repeat refine Staged.store ?_ (by simp) _ _
  exact ⟨rfl, rfl, rfl, rfl, rfl, fun _ => rfl⟩

theorem ipv4Send_of_unresolved {h : Host} {dstIP : IPv4Address} (unresolved : h.resolve dstIP = none)
    (protocol : UInt8) (payload : List UInt8) : h.ipv4Send dstIP protocol payload = (false, h) := by
  simp [ipv4Send, unresolved]

/-- The stores of `IPv4Handler::Send` and of the driver. -/
def ipv4Writes (slot : Fin 4) (size : Nat) : List Write :=
  [⟨.ipv4, 0, 1⟩, ⟨.ipv4, 1, 1⟩, ⟨.ipv4, 2, 2⟩, ⟨.ipv4, 4, 2⟩, ⟨.ipv4, 6, 2⟩, ⟨.ipv4, 8, 1⟩,
    ⟨.ipv4, 9, 1⟩, ⟨.ipv4, 10, 2⟩, ⟨.ipv4, 12, 4⟩, ⟨.ipv4, 16, 4⟩, ⟨.ipv4, 10, 2⟩, ⟨.ipv4, 20, size⟩,
    ⟨.nic slot, 0, 6⟩, ⟨.nic slot, 6, 6⟩, ⟨.nic slot, 12, 1⟩, ⟨.nic slot, 13, 1⟩,
    ⟨.nic slot, 14, 20 + size⟩]

theorem ipv4Writes_inside (slot : Fin 4) {size : Nat} (fits : size ≤ 1480) :
    ∀ write ∈ ipv4Writes slot size, write.Inside := by
  intro write mem
  refine Write.inside_of_le ?_
  fin_cases mem <;> simp only [Buffer.size] <;> omega

/-- **A datagram to a resolved address**: the frame, and the stores on the way. -/
theorem ipv4Send_of_resolves {h : Host} {dstIP : IPv4Address} {mac : MACAddress}
    (resolves : h.resolve dstIP = some mac) (protocol : UInt8) (payload : List UInt8) :
    (h.ipv4Send dstIP protocol payload).1 = true ∧ (h.ipv4Send dstIP protocol payload).2.frames =
        h.frames ++ [h.frameOf mac dstIP protocol payload] ∧
      (h.ipv4Send dstIP protocol payload).2.writes = h.writes ++ ipv4Writes h.txCurrent payload.length := by
  have length := ipv4Packet_length h.localIP dstIP protocol h.idCounter payload
  have packet : slice ((h.ipv4Stage dstIP protocol payload).buffers .ipv4) 0 (20 + payload.length) =
      ipv4Packet h.localIP dstIP protocol h.idCounter payload := by
    rw [ipv4Stage_buffer, ← length, slice_blit]
  simp only [ipv4Send, resolves, packet]
  refine ⟨rfl, ?_, ?_⟩
  · have staged := h.ipv4Stage_staged dstIP protocol payload
    rw [nicSend_frames, length, staged.txCurrent, staged.nic, staged.mac, staged.frames, frameOf,
      ← Nat.add_assoc]
  · simp [nicSend, ipv4Stage, ipv4Fields, length, ipv4Writes, native16]

end Host

/-- The datagram in a frame, by the total length in its IPv4 header. -/
def datagramIn (frame : List UInt8) : List UInt8 :=
  (frame.drop 34).take (be16 (fun offset => frame.getD offset 0) 16 - 20)

theorem datagramIn_frameOf (h : Host) (mac : MACAddress) (dstIP : IPv4Address) (protocol : UInt8)
    {payload : List UInt8} (short : 20 + payload.length < 2 ^ 16) :
    datagramIn (h.frameOf mac dstIP protocol payload) = payload := by
  have spells := blit_spells (h.buffers (.nic h.txCurrent)) (ethernetFrame mac h.mac 0x0800
    (ipv4Packet h.localIP dstIP protocol h.idCounter payload))
  have carried : slice (shift (shift (blit (h.buffers (.nic h.txCurrent)) 0 (ethernetFrame mac h.mac
      0x0800 (ipv4Packet h.localIP dstIP protocol h.idCounter payload))) 14) 20) 0 payload.length =
      payload := spells.append.2.append.2.slice
  rw [slice_shift, slice_shift] at carried
  have total : be16 (fun offset => (h.frameOf mac dstIP protocol payload).getD offset 0) 16 =
      20 + payload.length := by
    have byte (k : Nat) (small : k < 34) : (h.frameOf mac dstIP protocol payload).getD k 0 =
        (ethernetFrame mac h.mac 0x0800
          (ipv4Packet h.localIP dstIP protocol h.idCounter payload)).getD k 0 := by
      rw [Host.frameOf, slice_getD _ _ (by omega), Nat.zero_add, spells k]
      rw [ethernetFrame_length, ipv4Packet_length]
      omega
    exact be16_of_bytes short (byte 16 (by decide)) (byte 17 (by decide))
  rw [datagramIn, total, Nat.add_sub_cancel_left, Host.frameOf, take_drop_slice _ _ (by omega)]
  exact carried

end LaylaOS.Net
