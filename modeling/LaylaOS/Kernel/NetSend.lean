/-
**The sending network calls** (`sys_net_send_udp`, `sys_net_tcp_send`).

Both take the length and the data from the shared page, of which up to 4088 bytes are data, and hand
them to the one socket of their protocol.

* `send_complete_iff` — a call is complete and in bounds if and only if it is clear.
-/

import LaylaOS.Kernel.Syscall
import LaylaOS.Net.TcpTransmit
import LaylaOS.Net.Udp

namespace LaylaOS.Kernel

open LaylaOS.Lib LaylaOS.Net

/-- What a sending call finds: `global_nic`, `global_udp`, `global_tcp`, the shared page and the
transmit path below the sockets. -/
structure NetWorld where
  globalNic : Bool
  globalUdp : Bool
  globalTcp : Option TCPSocket
  /-- `NET_BUF_DATA_LEN`. -/
  dataLen : UInt32
  /-- `NET_BUF_DATA`. -/
  data : Storage
  host : Host

/-- `NET_BUF_MAX_DATA`. -/
def netBufMaxData : UInt32 := 4088

/-- `ValidateNetShared`. -/
def validateNetShared (len : UInt32) : Bool :=
  if len > netBufMaxData then false
  else if !isRing3Range netSharedBase 4 then false
  else if !isRing3Range (netSharedBase + 4) 4 then false
  else if !isRing3Range (netSharedBase + 8) len then false
  else true

/-- `PackedToIPv4`. -/
def packedToIPv4 (packed : UInt32) : IPv4Address :=
  ![UInt8.ofNat (packed.toNat / 2 ^ 24), UInt8.ofNat (packed.toNat / 2 ^ 16),
    UInt8.ofNat (packed.toNat / 2 ^ 8), UInt8.ofNat packed.toNat]

/-- The two sending calls. -/
inductive NetSend
  | udp (dstIP : UInt32) (dstPort srcPort : UInt16)
  | tcp

namespace NetWorld

variable (w : NetWorld)

/-- The length that a call takes from the shared page. -/
def len : UInt32 := if w.dataLen > netBufMaxData then netBufMaxData else w.dataLen

/-- `sys_net_send_udp`. -/
def sysNetSendUdp (dstIP : UInt32) (dstPort srcPort : UInt16) : UInt32 × NetWorld :=
  if !w.globalNic || !w.globalUdp then (0xFFFFFFFF, w)
  else if !validateNetShared w.len then (0xFFFFFFFF, w)
  else
    let result := w.host.udpSend (packedToIPv4 dstIP) dstPort srcPort (slice w.data 0 w.len.toNat)
    (if result.1 then 0 else 0xFFFFFFFF, { w with host := result.2 })

/-- `sys_net_tcp_send`. -/
def sysNetTcpSend : UInt32 × NetWorld :=
  match w.globalTcp with
  | none => (0xFFFFFFFF, w)
  | some socket =>
    if !w.globalNic then (0xFFFFFFFF, w)
    else if !validateNetShared w.len then (0xFFFFFFFF, w)
    else
      let result := w.host.tcpSend socket (slice w.data 0 w.len.toNat)
      (if result.1 then 0 else 0xFFFFFFFF,
        { w with globalTcp := some result.2.1, host := result.2.2 })

def call : NetSend → UInt32 × NetWorld
  | .udp dstIP dstPort srcPort => w.sysNetSendUdp dstIP dstPort srcPort
  | .tcp => w.sysNetTcpSend

end NetWorld

/-- The data of the datagram or segment in a frame. -/
def NetSend.carried (frame : List UInt8) : NetSend → List UInt8
  | .udp .. => (datagramIn frame).drop 8
  | .tcp => (datagramIn frame).drop (((datagramIn frame).getD 12 0).toNat / 16 * 4)

namespace NetWorld

variable (w : NetWorld)

/-- The frames that a call hands to the NIC. -/
def emitted (call : NetSend) : List (List UInt8) :=
  (w.call call).2.host.frames.drop w.host.frames.length

/-- The stores that a call makes to the transmit buffers. -/
def written (call : NetSend) : List Write :=
  (w.call call).2.host.writes.drop w.host.writes.length

/-- The call returns -1 and nothing is sent, or it returns 0 and what is sent carries the data. -/
def Complete (call : NetSend) : Prop :=
  ((w.call call).1 = 0xFFFFFFFF ∧ w.emitted call = []) ∨
    ((w.call call).1 = 0 ∧ w.emitted call ≠ [] ∧
      (w.emitted call).flatMap (NetSend.carried · call) = slice w.data 0 w.dataLen.toNat)

/-- Every store stays inside its buffer. -/
def InBounds (call : NetSend) : Prop := ∀ write ∈ w.written call, write.Inside

/-- The data fits: into a datagram unless the address is unknown, into a segment with the peer's
address known unless the socket is not connected. -/
def Clear : NetSend → Prop
  | .udp dstIP _ _ => w.globalNic → w.globalUdp → w.host.resolve (packedToIPv4 dstIP) ≠ none →
      w.dataLen.toNat ≤ 1464
  | .tcp => w.globalNic → ∀ socket ∈ w.globalTcp, socket.state = .established →
      w.dataLen.toNat ≤ 1460 ∧ w.host.resolve socket.remoteIP ≠ none

/-! ### The shared page -/

theorem isRing3Range_page {len : UInt32} (small : len.toNat ≤ 4088) :
    isRing3Range (netSharedBase + 8) len = true := by
  have start : (netSharedBase + 8).toNat = 0x00600008 := rfl
  have sum : (netSharedBase + 8 + len).toNat = 0x00600008 + len.toNat := by
    rw [UInt32.toNat_add, start]
    omega
  have noWrap : ¬ netSharedBase + 8 + len < netSharedBase + 8 := by
    rw [UInt32.lt_iff_toNat_lt, sum, start]
    omega
  have inside : netSharedBase + 8 + len ≤ netSharedBase + 4096 := by
    rw [UInt32.le_iff_toNat_le, sum, show (netSharedBase + 4096).toNat = 0x00601000 from rfl]
    omega
  have page : (decide (netSharedBase ≤ netSharedBase + 8) &&
      decide (netSharedBase + 8 + len ≤ netSharedBase + 4096)) = true :=
    Bool.and_eq_true_iff.mpr ⟨by decide, decide_eq_true inside⟩
  unfold isRing3Range
  rw [if_neg noWrap, if_pos page, ite_self]

theorem len_of_admitted {w : NetWorld} (admitted : w.dataLen ≤ netBufMaxData) :
    w.len = w.dataLen ∧ validateNetShared w.dataLen = true := by
  have notLarge : ¬ w.dataLen > netBufMaxData := UInt32.not_lt.mpr admitted
  refine ⟨if_neg notLarge, ?_⟩
  unfold validateNetShared
  rw [if_neg notLarge, isRing3Range_page (UInt32.le_iff_toNat_le.mp admitted)]
  rfl

/-! ### What a call leaves -/

theorem emitted_of_unchanged {w : NetWorld} {call : NetSend}
    (frames : (w.call call).2.host.frames = w.host.frames) : w.emitted call = [] := by
  rw [emitted, frames]
  exact List.drop_length

theorem complete_of_failed {w : NetWorld} {call : NetSend} (failed : (w.call call).1 = 0xFFFFFFFF)
    (frames : (w.call call).2.host.frames = w.host.frames) : w.Complete call :=
  .inl ⟨failed, emitted_of_unchanged frames⟩

theorem complete_iff_of_sent {w : NetWorld} {call : NetSend} {frame : List UInt8}
    (sent : (w.call call).1 = 0) (frames : (w.call call).2.host.frames = w.host.frames ++ [frame]) :
    w.Complete call ↔ call.carried frame = slice w.data 0 w.dataLen.toNat := by
  have emitted : w.emitted call = [frame] := by
    rw [NetWorld.emitted, frames, List.drop_left]
  unfold Complete
  rw [emitted, sent]
  simp

theorem inBounds_iff {w : NetWorld} {call : NetSend} {writes : List Write}
    (made : (w.call call).2.host.writes = w.host.writes ++ writes) :
    w.InBounds call ↔ ∀ write ∈ writes, write.Inside := by
  unfold InBounds written
  rw [made, List.drop_left]

theorem complete_of_refused {w : NetWorld} {call : NetSend}
    (refused : w.call call = (0xFFFFFFFF, w)) : w.Complete call ∧ w.InBounds call := by
  refine ⟨complete_of_failed (by rw [refused]) (by rw [refused]), ?_⟩
  exact (inBounds_iff (show _ = _ ++ [] by rw [refused, List.append_nil])).mpr nofun

/-! ### The datagram -/

theorem call_udp {w : NetWorld} (admitted : w.dataLen ≤ netBufMaxData) (nic : w.globalNic = true)
    (udp : w.globalUdp = true) (dstIP : UInt32) (dstPort srcPort : UInt16) :
    w.call (.udp dstIP dstPort srcPort) =
      (if (w.host.udpSend (packedToIPv4 dstIP) dstPort srcPort (slice w.data 0 w.dataLen.toNat)).1
        then 0 else 0xFFFFFFFF, { w with
        host := (w.host.udpSend (packedToIPv4 dstIP) dstPort srcPort
          (slice w.data 0 w.dataLen.toNat)).2 }) := by
  obtain ⟨same, valid⟩ := len_of_admitted admitted
  simp [call, sysNetSendUdp, nic, udp, same, valid]

theorem carried_udp (h : Host) (mac : MACAddress) (dstIP : UInt32) (dstPort srcPort : UInt16)
    {data : List UInt8} (short : data.length < 2 ^ 15) :
    (NetSend.udp dstIP dstPort srcPort).carried (h.frameOf mac (packedToIPv4 dstIP) 0x11
      (udpDatagram dstPort srcPort data)) = data := by
  rw [NetSend.carried, datagramIn_frameOf _ _ _ _ (by rw [udpDatagram_length]; omega)]
  exact List.drop_left' rfl

/-- **A datagram** is complete and in bounds if and only if its data is not cut off. -/
theorem udp_complete_iff {w : NetWorld} (admitted : w.dataLen ≤ netBufMaxData) (dstIP : UInt32)
    (dstPort srcPort : UInt16) :
    w.Complete (.udp dstIP dstPort srcPort) ∧ w.InBounds (.udp dstIP dstPort srcPort) ↔
      w.Clear (.udp dstIP dstPort srcPort) := by
  by_cases ready : w.globalNic = true ∧ w.globalUdp = true
  · have made := call_udp admitted ready.1 ready.2 dstIP dstPort srcPort
    have cut : ((slice w.data 0 w.dataLen.toNat).take 1464).length ≤ 1464 := List.length_take_le ..
    cases resolves : w.host.resolve (packedToIPv4 dstIP) with
    | none =>
      obtain ⟨failed, frames, writes⟩ := Host.udpSend_of_unresolved resolves dstPort srcPort
        (slice w.data 0 w.dataLen.toNat)
      rw [failed] at made
      have complete := complete_of_failed (by rw [made]; rfl) (by rw [made]; exact frames)
      have inside := (inBounds_iff (by rw [made]; exact writes)).mpr (Host.udpWrites_inside cut)
      exact iff_of_true ⟨complete, inside⟩ fun _ _ known => absurd resolves known
    | some mac =>
      obtain ⟨sent, frames, writes⟩ := Host.udpSend_of_resolves resolves dstPort srcPort
        (slice w.data 0 w.dataLen.toNat)
      rw [sent] at made
      have inside : w.InBounds (.udp dstIP dstPort srcPort) := by
        refine (inBounds_iff (by rw [made]; exact writes)).mpr fun write mem => ?_
        rcases List.mem_append.mp mem with above | below
        · exact Host.udpWrites_inside cut write above
        · exact Host.ipv4Writes_inside _ (by omega) write below
      have carries := complete_iff_of_sent (by rw [made]; rfl) (by rw [made]; exact frames)
      have data := carried_udp w.host mac dstIP dstPort srcPort (show
        ((slice w.data 0 w.dataLen.toNat).take 1464).length < 2 ^ 15 by omega)
      rw [and_iff_left inside, carries, data, List.take_eq_self_iff, slice_length]
      exact ⟨fun fits _ _ _ => fits, fun clear => clear ready.1 ready.2 (by rw [resolves]; nofun)⟩
  · refine iff_of_true (complete_of_refused ?_) fun nic udp => absurd ⟨nic, udp⟩ ready
    rw [not_and_or, Bool.not_eq_true, Bool.not_eq_true] at ready
    simp only [call, sysNetSendUdp]
    rcases ready with nic | udp
    · rw [nic]
      rfl
    · rw [udp, Bool.not_false, Bool.or_true]
      rfl

/-! ### The segment -/

theorem call_tcp {w : NetWorld} (admitted : w.dataLen ≤ netBufMaxData) (nic : w.globalNic = true)
    {socket : TCPSocket} (tcp : w.globalTcp = some socket)
    (established : socket.state = .established) :
    w.call .tcp = (0, { w with
      globalTcp := some (w.host.sendSegment socket (tcpPsh ||| tcpAck) (slice w.data 0 w.dataLen.toNat)).1
      host := (w.host.sendSegment socket (tcpPsh ||| tcpAck) (slice w.data 0 w.dataLen.toNat)).2 }) := by
  obtain ⟨same, valid⟩ := len_of_admitted admitted
  simp [call, sysNetTcpSend, Host.tcpSend, nic, tcp, same, valid, established]

theorem call_tcp_refused {w : NetWorld} (admitted : w.dataLen ≤ netBufMaxData)
    (idle : w.globalNic = true → ∀ socket ∈ w.globalTcp, socket.state ≠ .established) :
    w.call .tcp = (0xFFFFFFFF, w) := by
  obtain ⟨same, valid⟩ := len_of_admitted admitted
  show w.sysNetTcpSend = _
  unfold sysNetTcpSend
  cases tcp : w.globalTcp with
  | none => rfl
  | some socket =>
    by_cases nic : w.globalNic = true
    · have refused : w.host.tcpSend socket (slice w.data 0 w.dataLen.toNat) =
        (false, socket, w.host) := if_neg (idle nic socket tcp)
      simp only [nic, same, valid, refused, Bool.not_true, Bool.false_eq_true, if_false]
      rw [← tcp, ← nic]
    · simp [nic]

theorem carried_tcp (h : Host) (mac : MACAddress) (s : TCPSocket) (flags : UInt8) {data : List UInt8}
    (short : data.length < 2 ^ 15) :
    NetSend.tcp.carried (h.frameOf mac s.remoteIP 0x06
      ((s.segment flags data).encode h.localIP s.remoteIP)) = data := by
  have length : ((s.segment flags data).encode h.localIP s.remoteIP).length = 20 + data.length :=
    Segment.encode_length ..
  have offset : ((s.segment flags data).encode h.localIP s.remoteIP).getD 12 0 = 0x50 := rfl
  rw [NetSend.carried, datagramIn_frameOf _ _ _ _ (by rw [length]; omega), offset]
  exact List.drop_left' rfl

/-- **A segment** is complete and in bounds if and only if its data fits and the peer is resolved. -/
theorem tcp_complete_iff {w : NetWorld} (admitted : w.dataLen ≤ netBufMaxData) :
    w.Complete .tcp ∧ w.InBounds .tcp ↔ w.Clear .tcp := by
  by_cases idle : w.globalNic = true → ∀ socket ∈ w.globalTcp, socket.state ≠ .established
  · refine iff_of_true (complete_of_refused (call_tcp_refused admitted idle)) ?_
    exact fun nic socket tcp established => absurd established (idle nic socket tcp)
  · push Not at idle
    obtain ⟨nic, socket, tcp, established⟩ := idle
    have made := call_tcp admitted nic tcp established
    have clear : w.Clear .tcp ↔ w.dataLen.toNat ≤ 1460 ∧ w.host.resolve socket.remoteIP ≠ none := by
      refine ⟨fun clear => clear nic socket tcp established, fun fits _ other member _ => ?_⟩
      rwa [← Option.some.inj (tcp.symm.trans member)]
    have sent : (w.call .tcp).1 = 0 := by rw [made]
    rw [clear]
    cases resolves : w.host.resolve socket.remoteIP with
    | none =>
      obtain ⟨frames, -⟩ := Host.sendSegment_of_unresolved (tcpPsh ||| tcpAck)
        (slice w.data 0 w.dataLen.toNat) resolves
      -- `Send` returns true although no segment has left
      refine iff_of_false ?_ fun fits => fits.2 rfl
      rintro ⟨⟨failed, -⟩ | ⟨-, nonempty, -⟩, -⟩
      · rw [sent] at failed
        exact absurd failed (by decide)
      · exact nonempty (emitted_of_unchanged (by rw [made]; exact frames))
    | some mac =>
      obtain ⟨frames, writes⟩ := Host.sendSegment_of_resolves (tcpPsh ||| tcpAck)
        (slice w.data 0 w.dataLen.toNat) resolves
      rw [slice_length] at writes
      have small : w.dataLen.toNat ≤ 4088 := UInt32.le_iff_toNat_le.mp admitted
      have complete : w.Complete .tcp :=
        (complete_iff_of_sent sent (by rw [made]; exact frames)).mpr
          (carried_tcp _ _ _ _ (by rw [slice_length]; omega))
      rw [and_iff_right complete, inBounds_iff (by rw [made]; exact writes), and_iff_left (by nofun)]
      refine ⟨fun inside => ?_, fun fits write mem => ?_⟩
      · exact (Host.tcpWrites_inside_iff _).mp fun write mem =>
          inside write (List.mem_append_left _ mem)
      · rcases List.mem_append.mp mem with above | below
        · exact (Host.tcpWrites_inside_iff _).mpr fits write above
        · exact Host.ipv4Writes_inside _ (by omega) write below

/-- **The sending calls are complete and in bounds** if and only if they are clear. -/
theorem send_complete_iff {w : NetWorld} (admitted : w.dataLen ≤ netBufMaxData) (call : NetSend) :
    w.Complete call ∧ w.InBounds call ↔ w.Clear call := by
  cases call with
  | udp dstIP dstPort srcPort => exact udp_complete_iff admitted dstIP dstPort srcPort
  | tcp => exact tcp_complete_iff admitted

/-- The machine with a connection to the gateway and a length in the shared page. -/
def guest (dataLen : UInt32) : NetWorld where
  globalNic := true
  globalUdp := true
  globalTcp := some ⟨1234, 80, ![10, 0, 2, 2], .established, 1, 1⟩
  dataLen := dataLen
  data := fun _ => 0
  host := Net.guest

theorem send_complete_three : (guest 3).Complete .tcp ∧ (guest 3).InBounds .tcp := by
  refine (send_complete_iff (by decide) .tcp).mpr fun _ socket member _ => ?_
  rw [← Option.some.inj member]
  decide

/-- 1465 bytes to the gateway are cut off without a word, 1461 bytes overrun `TCPSocket::tx_buf`. -/
theorem long_data_lost_or_overruns : (¬ ∀ w : NetWorld, w.dataLen ≤ netBufMaxData → ∀ dstIP dstPort srcPort,
      w.Complete (.udp dstIP dstPort srcPort) ∧ w.InBounds (.udp dstIP dstPort srcPort)) ∧
    ¬ ∀ w : NetWorld, w.dataLen ≤ netBufMaxData → w.Complete .tcp ∧ w.InBounds .tcp := by
  refine ⟨fun all => ?_, fun all => ?_⟩
  · have clear := (udp_complete_iff (by decide) _ _ _).mp (all (guest 1465) (by decide) 0x0A000202 7 1234)
    exact absurd (clear rfl rfl (by decide)) (by decide)
  · have clear := (tcp_complete_iff (by decide)).mp (all (guest 1461) (by decide))
    exact absurd (clear rfl _ rfl rfl).1 (by decide)

end NetWorld

end LaylaOS.Kernel
