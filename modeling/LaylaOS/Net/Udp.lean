/-
**A datagram from one machine to another** (`net/udp.cpp`, `EthernetDriver::Dispatch`).

`Host.udpSend` is `UDPSocket::Send` on the way down. On the way up a frame passes the handler tables
that `kernelMain` fills in, and `Receiver.dispatch` are the calls of the UDP socket's `OnReceive` that
it leads to.

* `udp_round_trip` — what one machine sends, the other receives once and unchanged.
-/

import LaylaOS.Net.Ipv4
import LaylaOS.Net.Transmit

namespace LaylaOS.Net

open LaylaOS.Lib

/-! ### Send -/

/-- `sizeof(UDPHeader)`. -/
def udpHeaderSize : Nat := 8

/-- `UDPSocket::tx_buf` after `Send` has filled it. -/
def Host.udpStage (h : Host) (dstPort srcPort : UInt16) (data : List UInt8) : Host :=
  h |>.store .udp 0 (native16 (htons srcPort.toNat))
    |>.store .udp 2 (native16 (htons dstPort.toNat))
    |>.store .udp 4 (native16 (htons (udpHeaderSize + data.length)))
    |>.store .udp 6 (native16 0)
    |>.store .udp udpHeaderSize data

/-- `UDPSocket::Send`. -/
def Host.udpSend (h : Host) (dstIP : IPv4Address) (dstPort srcPort : UInt16) (data : List UInt8) :
    Bool × Host :=
  let data := data.take (Buffer.udp.size - udpHeaderSize)
  let h := h.udpStage dstPort srcPort data
  h.ipv4Send dstIP 0x11 (slice (h.buffers .udp) 0 (udpHeaderSize + data.length))

/-! ### Receive -/

/-- `UDPSocket`. -/
structure UDPSocket where
  localPort : UInt16

/-- A call of `OnReceive`. -/
structure OnReceive where
  srcIP : IPv4Address
  srcPort : Nat
  data : List UInt8
  deriving DecidableEq

/-- `UDPSocket::HandleIPv4Payload`; the length of the data is computed in 32-bit arithmetic. -/
def UDPSocket.handleIPv4Payload (s : UDPSocket) (payload : Storage) (size : Nat) (src : IPv4Address) :
    Option OnReceive :=
  if size < udpHeaderSize then none
  else if ntohs (readLE payload 2 2) ≠ s.localPort.toNat then none
  else some
    { srcIP := src
      srcPort := ntohs (readLE payload 0 2)
      data := slice payload udpHeaderSize
        ((ntohs (readLE payload 4 2) + 2 ^ 32 - udpHeaderSize) % 2 ^ 32) }

/-- `EthernetDriver::HandlerEntry`; `handler` is `none` for a null pointer. -/
structure HandlerEntry where
  ethertype : Nat
  handler : Option Nat
  deriving DecidableEq

/-- The handler table of `EthernetDriver`. -/
structure EthernetDriver where
  handlers : List HandlerEntry
  room : handlers.length ≤ 8

/-- One call of `HandleEthernetPayload`. The payload pointer is counted from the start of the frame. -/
structure EthernetDelivery where
  handler : Nat
  pointer : Nat
  size : Nat
  src : MACAddress
  dst : MACAddress

namespace EthernetDriver

/-- The constructor. -/
def new : EthernetDriver := ⟨[], Nat.zero_le _⟩

/-- `RegisterHandler`. -/
def registerHandler (d : EthernetDriver) (ethertype : Nat) (handler : Option Nat) : EthernetDriver :=
  if fits : d.handlers.length < 8 then
    { handlers := d.handlers ++ [⟨ethertype, handler⟩]
      room := by rw [List.length_append]; exact fits }
  else d

/-- `Dispatch`, as the handler calls it makes. -/
def dispatch (d : EthernetDriver) (frame : Storage) (size : Nat) : List EthernetDelivery :=
  if size < 14 then []
  else d.handlers.filterMap fun entry =>
    if entry.ethertype = ntohs (readLE frame 12 2) then
      entry.handler.map fun handler =>
        ⟨handler, 14, size - 14, fun index => frame (6 + index), fun index => frame index⟩
    else none

end EthernetDriver

/-- `global_arp`. -/
def globalArp : Nat := 0
/-- `global_ipv4`. -/
def globalIpv4 : Nat := 1
/-- `global_icmp`. -/
def globalIcmp : Nat := 2
/-- `global_udp`. -/
def globalUdp : Nat := 3
/-- `global_tcp`. -/
def globalTcp : Nat := 4

/-- The receiving side of a machine, as far as its UDP socket is concerned. -/
structure Receiver where
  nic : EthernetDriver
  ipv4 : IPv4Handler
  udp : UDPSocket

namespace Receiver

/-- The network objects of `kernelMain`, with a local address and a UDP port. -/
def boot (localIP : IPv4Address) (port : UInt16) : Receiver where
  nic := EthernetDriver.new
    |>.registerHandler 0x0806 (some globalArp)
    |>.registerHandler 0x0800 (some globalIpv4)
  ipv4 := IPv4Handler.mk localIP [] (Nat.zero_le _)
    |>.registerHandler 0x01 (some globalIcmp)
    |>.registerHandler 0x11 (some globalUdp)
    |>.registerHandler 0x06 (some globalTcp)
  udp := ⟨port⟩

/-- The calls of `OnReceive` that `Dispatch` leads to. -/
def dispatch (b : Receiver) (frame : Storage) (size : Nat) : List OnReceive :=
  (b.nic.dispatch frame size).flatMap fun packet =>
    if packet.handler = globalIpv4 then
      (b.ipv4.handleEthernetPayload (shift frame packet.pointer) packet.size).flatMap fun datagram =>
        if datagram.handler = globalUdp then
          (b.udp.handleIPv4Payload (shift (shift frame packet.pointer) datagram.pointer) datagram.size
            datagram.src).toList
        else []
    else []

end Receiver

/-! ### The layers -/

/-- A datagram as `UDPSocket::Send` hands it to the layer below. -/
def udpDatagram (dstPort srcPort : UInt16) (data : List UInt8) : List UInt8 :=
  bytes16 srcPort.toNat ++ bytes16 dstPort.toNat ++ bytes16 (8 + data.length) ++ [0, 0] ++ data

theorem udpDatagram_length (dstPort srcPort : UInt16) (data : List UInt8) :
    (udpDatagram dstPort srcPort data).length = 8 + data.length := by
  simp [udpDatagram, bytes16]
  omega

theorem Host.udpStage_buffer (h : Host) (dstPort srcPort : UInt16) (data : List UInt8) :
    (h.udpStage dstPort srcPort data).buffers .udp =
      blit (h.buffers .udp) 0 (udpDatagram dstPort srcPort data) := by
  simp only [udpStage, udpHeaderSize, store_buffers_self, native16_htons]
  repeat rw [blit_next (by simp [bytes16, native16])]
  simp [udpDatagram, bytes16, native16]

theorem udpDatagram_received {dstPort srcPort : UInt16} {data : List UInt8} {payload : Storage}
    (spells : Spells payload (udpDatagram dstPort srcPort data)) (short : 8 + data.length < 2 ^ 16)
    (src : IPv4Address) :
    (UDPSocket.mk dstPort).handleIPv4Payload payload (8 + data.length) src =
      some ⟨src, srcPort.toNat, data⟩ := by
  have byte (k : Nat) (header : k < 8) : payload k = (udpDatagram dstPort srcPort data).getD k 0 :=
    spells k (by rw [udpDatagram_length]; omega)
  have toPort : be16 payload 2 = dstPort.toNat :=
    be16_of_bytes dstPort.toNat_lt (byte 2 (by decide)) (byte 3 (by decide))
  have fromPort : be16 payload 0 = srcPort.toNat :=
    be16_of_bytes srcPort.toNat_lt (byte 0 (by decide)) (byte 1 (by decide))
  have length : be16 payload 4 = 8 + data.length :=
    be16_of_bytes short (byte 4 (by decide)) (byte 5 (by decide))
  have carried : slice payload 8 data.length = data :=
    (slice_shift payload 8 0 data.length).symm.trans spells.append.2.slice
  unfold UDPSocket.handleIPv4Payload udpHeaderSize
  rw [if_neg (by omega), ntohs_readLE, ntohs_readLE, ntohs_readLE, toPort, fromPort, length,
    if_neg (not_not.mpr rfl), show (8 + data.length + 2 ^ 32 - 8) % 2 ^ 32 = data.length by omega,
    carried]

theorem ipv4Packet_delivered {src dst : IPv4Address} {protocol : UInt8} {id size : Nat}
    {payload : List UInt8} {packet : Storage}
    (spells : Spells packet (ipv4Packet src dst protocol id payload))
    (short : 20 + payload.length < 2 ^ 16) (received : 20 ≤ size) {h : IPv4Handler}
    (here : h.localIP = dst) :
    h.handleEthernetPayload packet size = h.handlers.filterMap (fun entry =>
      if entry.protocol = protocol then
        entry.handler.map fun handler => ⟨handler, 20, payload.length, src, dst, protocol⟩
      else none) ∧ Spells (shift packet 20) payload := by
  have byte (k : Nat) (header : k < 20) : packet k = (ipv4Packet src dst protocol id payload).getD k 0 :=
    spells k (by rw [ipv4Packet_length]; omega)
  have total : be16 packet 2 = 20 + payload.length :=
    be16_of_bytes short (byte 2 (by decide)) (byte 3 (by decide))
  have toIP : addressAt packet 16 = dst := by
    funext index
    fin_cases index
    exacts [byte 16 (by decide), byte 17 (by decide), byte 18 (by decide), byte 19 (by decide)]
  have fromIP : addressAt packet 12 = src := by
    funext index
    fin_cases index
    exacts [byte 12 (by decide), byte 13 (by decide), byte 14 (by decide), byte 15 (by decide)]
  have accepted : h.accepts packet size := by
    refine ⟨received, ?_, toIP.trans here.symm, ipv4Packet_verifies src dst protocol id payload spells⟩
    have version : packet 0 = 0x45 := byte 0 (by decide)
    rw [version]
    rfl
  have tag : packet 9 = protocol := byte 9 (by decide)
  refine ⟨?_, spells.append.2⟩
  unfold IPv4Handler.handleEthernetPayload IPv4Handler.delivery
  rw [if_pos accepted, ntohs_readLE, total, toIP, fromIP, tag,
    show (20 + payload.length + 2 ^ 32 - 20) % 2 ^ 32 = payload.length by omega]

theorem ethernetFrame_dispatched {dst src : MACAddress} {ethertype size : Nat} {payload : List UInt8}
    {frame : Storage} (spells : Spells frame (ethernetFrame dst src ethertype payload))
    (word : ethertype < 2 ^ 16) (received : 14 ≤ size) (d : EthernetDriver) :
    d.dispatch frame size = d.handlers.filterMap (fun entry =>
      if entry.ethertype = ethertype then
        entry.handler.map fun handler => ⟨handler, 14, size - 14, src, dst⟩
      else none) ∧ Spells (shift frame 14) payload := by
  have byte (k : Nat) (header : k < 14) : frame k = (ethernetFrame dst src ethertype payload).getD k 0 :=
    spells k (by rw [ethernetFrame_length]; omega)
  have tag : be16 frame 12 = ethertype := be16_of_bytes word (byte 12 (by decide)) (byte 13 (by decide))
  have toMAC : (fun index : Fin 6 => frame index) = dst := by
    funext index
    fin_cases index
    exacts [byte 0 (by decide), byte 1 (by decide), byte 2 (by decide), byte 3 (by decide),
      byte 4 (by decide), byte 5 (by decide)]
  have fromMAC : (fun index : Fin 6 => frame (6 + index)) = src := by
    funext index
    fin_cases index
    exacts [byte 6 (by decide), byte 7 (by decide), byte 8 (by decide), byte 9 (by decide),
      byte 10 (by decide), byte 11 (by decide)]
  refine ⟨?_, spells.append.2⟩
  unfold EthernetDriver.dispatch
  rw [if_neg (by omega), ntohs_readLE, tag, toMAC, fromMAC]

namespace Host

section Stage

variable (h : Host) (dstPort srcPort : UInt16) (data : List UInt8)

theorem udpStage_staged : h.Staged (h.udpStage dstPort srcPort data) := by
  unfold udpStage
  repeat refine Staged.store ?_ (by simp) _ _
  exact Staged.refl h

theorem udpStage_idCounter : (h.udpStage dstPort srcPort data).idCounter = h.idCounter := by
  simp [udpStage]

theorem udpSend_eq (dstIP : IPv4Address) : h.udpSend dstIP dstPort srcPort data =
    (h.udpStage dstPort srcPort (data.take 1464)).ipv4Send dstIP 0x11
      (udpDatagram dstPort srcPort (data.take 1464)) := by
  have clamp : Buffer.udp.size - udpHeaderSize = 1464 := rfl
  rw [udpSend, clamp, udpStage_buffer, udpHeaderSize, ← udpDatagram_length dstPort srcPort, slice_blit]

/-- The stores of `UDPSocket::Send`. -/
def udpWrites (size : Nat) : List Write :=
  [⟨.udp, 0, 2⟩, ⟨.udp, 2, 2⟩, ⟨.udp, 4, 2⟩, ⟨.udp, 6, 2⟩, ⟨.udp, 8, size⟩]

theorem udpWrites_inside {size : Nat} (fits : size ≤ 1464) : ∀ write ∈ udpWrites size, write.Inside := by
  intro write mem
  refine Write.inside_of_le ?_
  fin_cases mem <;> simp only [Buffer.size] <;> omega

theorem udpStage_writes : (h.udpStage dstPort srcPort data).writes = h.writes ++ udpWrites data.length := by
  simp [udpStage, udpHeaderSize, udpWrites, native16]

end Stage

theorem udpSend_of_unresolved {h : Host} {dstIP : IPv4Address} (unresolved : h.resolve dstIP = none)
    (dstPort srcPort : UInt16) (data : List UInt8) :
    (h.udpSend dstIP dstPort srcPort data).1 = false ∧
      (h.udpSend dstIP dstPort srcPort data).2.frames = h.frames ∧
      (h.udpSend dstIP dstPort srcPort data).2.writes = h.writes ++ udpWrites (data.take 1464).length := by
  have staged := h.udpStage_staged dstPort srcPort (data.take 1464)
  rw [← staged.resolve] at unresolved
  rw [udpSend_eq, ipv4Send_of_unresolved unresolved]
  exact ⟨rfl, staged.frames, udpStage_writes ..⟩

/-- **A datagram to a resolved address**: the frame, and the stores on the way. -/
theorem udpSend_of_resolves {h : Host} {dstIP : IPv4Address} {mac : MACAddress}
    (resolves : h.resolve dstIP = some mac) (dstPort srcPort : UInt16) (data : List UInt8) :
    (h.udpSend dstIP dstPort srcPort data).1 = true ∧ (h.udpSend dstIP dstPort srcPort data).2.frames =
        h.frames ++ [h.frameOf mac dstIP 0x11 (udpDatagram dstPort srcPort (data.take 1464))] ∧
      (h.udpSend dstIP dstPort srcPort data).2.writes = h.writes ++ (udpWrites (data.take 1464).length ++
          ipv4Writes h.txCurrent (8 + (data.take 1464).length)) := by
  have staged := h.udpStage_staged dstPort srcPort (data.take 1464)
  rw [← staged.resolve] at resolves
  obtain ⟨sent, frames, writes⟩ :=
    ipv4Send_of_resolves resolves 0x11 (udpDatagram dstPort srcPort (data.take 1464))
  rw [udpSend_eq]
  refine ⟨sent, ?_, ?_⟩
  · rw [frames, staged.frames, staged.frameOf (udpStage_idCounter ..)]
  · rw [writes, udpStage_writes, staged.txCurrent, udpDatagram_length, List.append_assoc]

end Host

/-! ### The round trip -/

theorem Receiver.dispatch_udp {mac mac' : MACAddress} {src dst : IPv4Address} {id size : Nat}
    {dstPort srcPort : UInt16} {data : List UInt8} {frame : Storage} (short : data.length ≤ 1464)
    (spells : Spells frame (ethernetFrame mac mac' 0x0800
      (ipv4Packet src dst 0x11 id (udpDatagram dstPort srcPort data)))) (received : 34 ≤ size) :
    (Receiver.boot dst dstPort).dispatch frame size = [⟨src, srcPort.toNat, data⟩] := by
  have length := udpDatagram_length dstPort srcPort data
  obtain ⟨dispatched, packet⟩ := ethernetFrame_dispatched spells (by decide)
    (Nat.le_trans (by decide) received) (Receiver.boot dst dstPort).nic
  obtain ⟨delivered, datagram⟩ := ipv4Packet_delivered packet (by omega)
    (show 20 ≤ size - 14 by omega) (h := (Receiver.boot dst dstPort).ipv4) rfl
  have heard : (Receiver.boot dst dstPort).udp.handleIPv4Payload (shift (shift frame 14) 20)
      (8 + data.length) src = some ⟨src, srcPort.toNat, data⟩ :=
    udpDatagram_received datagram (by omega) src
  rw [length] at delivered
  have frames : (Receiver.boot dst dstPort).nic.handlers =
    [⟨0x0806, some globalArp⟩, ⟨0x0800, some globalIpv4⟩] := rfl
  have packets : (Receiver.boot dst dstPort).ipv4.handlers =
    [⟨0x01, some globalIcmp⟩, ⟨0x11, some globalUdp⟩, ⟨0x06, some globalTcp⟩] := rfl
  unfold Receiver.dispatch
  rw [dispatched, frames]
  simpa [delivered, packets] using heard

/-- **A datagram arrives once and unchanged.** -/
theorem udp_round_trip (a : Host) (dstIP : IPv4Address) (dstPort srcPort : UInt16) {data : List UInt8}
    (fits : data.length ≤ 1464) (sent : (a.udpSend dstIP dstPort srcPort data).1 = true) :
    ∃ frame, (a.udpSend dstIP dstPort srcPort data).2.frames = a.frames ++ [frame] ∧
      60 ≤ frame.length ∧ ∀ received : Storage, slice received 0 frame.length = frame →
        (Receiver.boot dstIP dstPort).dispatch received frame.length = [⟨a.localIP, srcPort.toNat, data⟩] := by
  cases resolves : a.resolve dstIP with
  | none =>
    rw [(Host.udpSend_of_unresolved resolves dstPort srcPort data).1] at sent
    cases sent
  | some mac =>
    obtain ⟨-, frames, -⟩ := Host.udpSend_of_resolves resolves dstPort srcPort data
    rw [List.take_of_length_le fits] at frames
    refine ⟨_, frames, ?_, fun received same => ?_⟩
    · rw [Host.frameOf, slice_length]
      exact Nat.le_max_left ..
    · rw [Host.frameOf, slice_length] at same ⊢
      refine Receiver.dispatch_udp fits ((blit_spells _ _).of_slice same ?_) (by omega)
      rw [ethernetFrame_length, ipv4Packet_length]
      omega

/-- The machine of `kernelMain`, with the gateway in its ARP cache. -/
def guest : Host where
  mac := ![0x52, 0x54, 0, 0x12, 0x34, 0x56]
  localIP := ![10, 0, 2, 15]
  arpCache := fun slot => ⟨![10, 0, 2, 2], ![0x52, 0x55, 10, 0, 2, 2], slot.val.beq 0⟩
  idCounter := 0
  txCurrent := Fin.last 3
  buffers := fun _ _ => 0
  writes := []
  frames := []

theorem udp_round_trip_guest : ∃ frame, (guest.udpSend ![10, 0, 2, 2] 7 1234 [104, 105]).2.frames = [frame] ∧
    60 ≤ frame.length ∧ ∀ received : Storage, slice received 0 frame.length = frame →
      (Receiver.boot ![10, 0, 2, 2] 7).dispatch received frame.length = [⟨![10, 0, 2, 15], 1234, [104, 105]⟩] :=
  udp_round_trip guest ![10, 0, 2, 2] 7 1234 (by decide) (by decide)

end LaylaOS.Net
