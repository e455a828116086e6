/-
**Received datagrams on their way to the reader** (`UDPSocket::HandleIPv4Payload`,
`SyscallUDPSocket::OnReceive`, `sys_net_recv_udp`).

`HandleIPv4Payload` takes the length of the data from the header of the datagram. It compares neither
eight with that length nor that length with the size that the layer below has found, and what comes out
is clamped twice: to the 2048 bytes of `udp_rx_buf`, and to the 4088 bytes of the shared page.

* `udp_inside_iff` — a datagram is handed on from within if and only if its length field is right.
-/

import LaylaOS.Kernel.TcpReceive

namespace LaylaOS.Kernel

open LaylaOS.Lib LaylaOS.Net

/-- `sys_net_recv_udp`, from the test of `udp_rx_ready` behind the wait on. -/
def RxSlot.sysNetRecvUdp (slot : RxSlot) (page : NetPage) : UInt32 × RxSlot × NetPage :=
  if !validateNetShared netBufMaxData then (1, slot, { page with status := 1, dataLen := 0 })
  else if slot.ready then
    (0, { slot with ready := false, len := 0 },
      { status := 0
        dataLen := slot.copy
        data := blit page.data 0 (slice slot.buf 0 slot.copy) })
  else (1, slot, { page with dataLen := 0, status := 1 })

/-- What a program that reads next finds in the shared page after `OnReceive(.., data, size)`. -/
def handed (slot : RxSlot) (page : NetPage) (data : List UInt8) : List UInt8 :=
  let answer := (slot.onReceive data).sysNetRecvUdp page
  slice answer.2.2.data 0 answer.2.2.dataLen

theorem copy_onReceive (slot : RxSlot) (data : List UInt8) :
    (slot.onReceive data).copy = (slot.onReceive data).len := by
  have small : (slot.onReceive data).len ≤ rxBufSize := by
    rw [TcpReader.onReceive_len]
    exact min_le_right _ _
  exact if_neg (Nat.not_lt.mpr (small.trans (by decide)))

theorem handed_eq (slot : RxSlot) (page : NetPage) (data : List UInt8) :
    handed slot page data = data.take rxBufSize := by
  have valid : validateNetShared netBufMaxData = true := by decide
  have ready : (slot.onReceive data).ready = true := rfl
  have pending := TcpReader.onReceive_pending slot data
  unfold RxSlot.pending at pending
  rw [if_pos ready] at pending
  unfold handed RxSlot.sysNetRecvUdp
  rw [valid, ready, copy_onReceive, pending]
  have length : (data.take rxBufSize).length = (slot.onReceive data).len := by
    rw [TcpReader.onReceive_len, List.length_take, min_comm]
  show slice (blit page.data 0 (data.take rxBufSize)) 0 (slot.onReceive data).len = _
  rw [← length, slice_blit]

/-! ### Inside the datagram -/

/-- The length that `OnReceive` is given is that of the header without wrapping around, and the data
ends with the datagram. -/
structure Inside (payload : Storage) (size : Nat) (call : OnReceive) : Prop where
  field : udpHeaderSize + call.data.length = be16 payload 4
  bound : udpHeaderSize + call.data.length ≤ size

/-- The datagram has a header, and it is for the socket's port. -/
def Hears (s : UDPSocket) (payload : Storage) (size : Nat) : Prop :=
  udpHeaderSize ≤ size ∧ be16 payload 2 = s.localPort.toNat

/-- The length field covers the header and does not exceed the size. -/
def LengthRight (payload : Storage) (size : Nat) : Prop :=
  udpHeaderSize ≤ be16 payload 4 ∧ be16 payload 4 ≤ size

instance (payload : Storage) (size : Nat) : Decidable (LengthRight payload size) :=
  inferInstanceAs (Decidable (_ ∧ _))

variable {s : UDPSocket} {payload : Storage} {size : Nat} {src : IPv4Address} {call : OnReceive}

/-- The `data_size` of `HandleIPv4Payload`, in 32-bit arithmetic. -/
def dataSize (payload : Storage) : Nat := (be16 payload 4 + 2 ^ 32 - udpHeaderSize) % 2 ^ 32

theorem mem_handleIPv4Payload_iff : call ∈ s.handleIPv4Payload payload size src ↔ Hears s payload size ∧
      call = ⟨src, be16 payload 0, slice payload udpHeaderSize (dataSize payload)⟩ := by
  unfold UDPSocket.handleIPv4Payload Hears
  rw [ntohs_readLE, ntohs_readLE, ntohs_readLE]
  split_ifs with short other
  · exact iff_of_false (Option.not_mem_none _) fun hears => short.not_ge hears.1.1
  · exact iff_of_false (Option.not_mem_none _) fun hears => other hears.1.2
  · rw [Option.mem_some_iff, eq_comm]
    exact (and_iff_right ⟨Nat.le_of_not_lt short, not_not.mp other⟩).symm

theorem dataSize_iff (payload : Storage) :
    udpHeaderSize + dataSize payload = be16 payload 4 ↔ udpHeaderSize ≤ be16 payload 4 := by
  have word := be16_lt payload 4
  unfold dataSize udpHeaderSize
  omega

theorem data_of_heard (heard : call ∈ s.handleIPv4Payload payload size src) :
    call.data = slice payload udpHeaderSize (dataSize payload) := by
  rw [(mem_handleIPv4Payload_iff.mp heard).2]

theorem inside_iff (heard : call ∈ s.handleIPv4Payload payload size src) :
    Inside payload size call ↔ LengthRight payload size := by
  have length : call.data.length = dataSize payload := by
    rw [data_of_heard heard, slice_length]
  constructor
  · rintro ⟨field, bound⟩
    rw [length] at field bound
    exact ⟨(dataSize_iff payload).mp field, field ▸ bound⟩
  · rintro ⟨covered, within⟩
    have field := (dataSize_iff payload).mpr covered
    constructor
    · rw [length, field]
    · rwa [length, field]

theorem handed_isPrefix (heard : call ∈ s.handleIPv4Payload payload size src)
    (inside : Inside payload size call) (slot : RxSlot) (page : NetPage) :
    handed slot page call.data <+: slice payload udpHeaderSize (size - udpHeaderSize) := by
  have bound := inside.bound
  rw [data_of_heard heard, slice_length] at bound
  rw [handed_eq, data_of_heard heard]
  refine (List.take_prefix _ _).trans ?_
  obtain ⟨rest, total⟩ := Nat.exists_eq_add_of_le (Nat.le_sub_of_add_le' bound)
  rw [total, slice_add]
  exact List.prefix_append ..

/-- **A datagram is handed on from within if and only if its length field is right.** -/
theorem udp_inside_iff (s : UDPSocket) (payload : Storage) (size : Nat) (src : IPv4Address)
    (slot : RxSlot) (page : NetPage) :
    (∀ call ∈ s.handleIPv4Payload payload size src, Inside payload size call ∧
        handed slot page call.data <+: slice payload udpHeaderSize (size - udpHeaderSize)) ↔
      (Hears s payload size → LengthRight payload size) := by
  constructor
  · intro all hears
    have heard : _ ∈ s.handleIPv4Payload payload size src := mem_handleIPv4Payload_iff.mpr ⟨hears, rfl⟩
    exact (inside_iff heard).mp (all _ heard).1
  · intro right call heard
    have inside := (inside_iff heard).mpr (right (mem_handleIPv4Payload_iff.mp heard).1)
    exact ⟨inside, handed_isPrefix heard inside slot page⟩

/-- A header for port 7 with the length zero, and nothing behind it. -/
theorem short_length_wraps : ¬ ∀ (s : UDPSocket) (payload : Storage) (size : Nat) (src : IPv4Address)
    (slot : RxSlot) (page : NetPage), ∀ call ∈ s.handleIPv4Payload payload size src, Inside payload size call ∧
        handed slot page call.data <+: slice payload udpHeaderSize (size - udpHeaderSize) := by
  intro all
  let payload : Storage := fun place => [0, 9, 0, 7, 0, 0, 0, 0].getD place 0
  have hears : Hears ⟨7⟩ payload 8 := ⟨le_rfl, rfl⟩
  have heard : _ ∈ UDPSocket.handleIPv4Payload ⟨7⟩ payload 8 ![10, 0, 2, 2] :=
    mem_handleIPv4Payload_iff.mpr ⟨hears, rfl⟩
  have inside := (all _ _ _ _ .empty ⟨0, 0, fun _ => 0⟩ _ heard).1
  exact absurd ((inside_iff heard).mp inside) (by decide)

end LaylaOS.Kernel
