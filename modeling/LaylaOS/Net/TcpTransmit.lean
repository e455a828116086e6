/-
**The bytes of a TCP segment on the way down** (`TCPSocket::ComputeChecksum`, `SendSegment`).

`SendSegment` lays the segment out in `tx_buf`, copies it behind the pseudo header into the `scratch`
of `ComputeChecksum` and hands it to `IPv4Handler::Send`. Neither copy looks at the size of its
buffer.
-/

import LaylaOS.Net.Tcp
import LaylaOS.Net.Transmit

namespace LaylaOS.Net

open LaylaOS.Lib

namespace Host

/-- The pseudo header and the segment in `scratch`. -/
def scratchStage (h : Host) (src dst : IPv4Address) (segment : List UInt8) : Host :=
  h |>.store .scratch 0 (List.ofFn src)
    |>.store .scratch 4 (List.ofFn dst)
    |>.store .scratch 8 [0]
    |>.store .scratch 9 [0x06]
    |>.store .scratch 10 (native16 (htons segment.length))
    |>.store .scratch 12 segment

/-- `ComputeChecksum`. -/
def computeChecksum (h : Host) (src dst : IPv4Address) (segment : List UInt8) : Nat × Host :=
  let h := h.scratchStage src dst segment
  (internetChecksum (h.buffers .scratch) (12 + segment.length), h)

/-- The header fields in the order of `SendSegment`, the checksum still zero, and the data. -/
def tcpFields (h : Host) (s : TCPSocket) (flags : UInt8) (data : List UInt8) : Host :=
  h |>.store .tcp 0 (native16 (htons s.localPort))
    |>.store .tcp 2 (native16 (htons s.remotePort))
    |>.store .tcp 4 (native32 (htonl s.seq))
    |>.store .tcp 8 (native32 (htonl s.ack))
    |>.store .tcp 12 [0x50]
    |>.store .tcp 13 [flags]
    |>.store .tcp 14 (native16 (htons 8192))
    |>.store .tcp 16 (native16 0)
    |>.store .tcp 18 (native16 0)
    |>.store .tcp 20 data

/-- `TCPSocket::tx_buf` when `SendSegment` calls `IPv4Handler::Send`. -/
def tcpStage (h : Host) (s : TCPSocket) (flags : UInt8) (data : List UInt8) : Host :=
  let h := h.tcpFields s flags data
  let checked := h.computeChecksum h.localIP s.remoteIP (slice (h.buffers .tcp) 0 (20 + data.length))
  checked.2.store .tcp 16 (native16 checked.1)

/-- `SendSegment`. -/
def sendSegment (h : Host) (s : TCPSocket) (flags : UInt8) (data : List UInt8) : TCPSocket × Host :=
  let h := h.tcpStage s flags data
  -- `seq` advances whatever `IPv4Handler::Send` returns
  (s.advance flags data.length,
    (h.ipv4Send s.remoteIP 0x06 (slice (h.buffers .tcp) 0 (20 + data.length))).2)

/-- `TCPSocket::Send`. -/
def tcpSend (h : Host) (s : TCPSocket) (data : List UInt8) : Bool × TCPSocket × Host :=
  if s.state = .established then (true, h.sendSegment s (tcpPsh ||| tcpAck) data)
  else (false, s, h)

variable (h : Host) (s : TCPSocket) (flags : UInt8) (data : List UInt8)

theorem tcpFields_buffer : (h.tcpFields s flags data).buffers .tcp =
    blit (h.buffers .tcp) 0 ((s.segment flags data).image [0, 0]) := by
  simp only [tcpFields, store_buffers_self, native16_htons, native32_htonl]
  repeat rw [blit_next (by simp [bytes16, bytes32, native16])]
  simp [Segment.image, TCPSocket.segment, bytes16, native16]

theorem scratchStage_buffer (src dst : IPv4Address) (segment : List UInt8) :
    (h.scratchStage src dst segment).buffers .scratch =
      blit (h.buffers .scratch) 0 (pseudoHeader src dst segment) := by
  simp only [scratchStage, store_buffers_self, native16_htons]
  repeat rw [blit_next (by simp [bytes16])]
  simp [pseudoHeader, bytes16]

theorem computeChecksum_eq (src dst : IPv4Address) (segment : List UInt8) :
    (h.computeChecksum src dst segment).1 = Net.computeChecksum src dst segment := by
  have length : (pseudoHeader src dst segment).length = 12 + segment.length := by
    simp [pseudoHeader, bytes16]
    omega
  show internetChecksum ((h.scratchStage src dst segment).buffers .scratch) (12 + segment.length) =
    internetChecksum _ _
  rw [scratchStage_buffer, length]
  exact internetChecksum_congr fun place bound => blit_start (by rwa [length])

theorem blit_image (storage : Storage) (segment : Segment) (checksum : Nat) :
    blit (blit storage 0 (segment.image [0, 0])) 16 (native16 checksum) =
      blit storage 0 (segment.image (native16 checksum)) := by
  have replaced := blit_replace storage 0
    (bytes16 segment.srcPort ++ bytes16 segment.dstPort ++ bytes32 segment.seqNum ++
      bytes32 segment.ackNum ++ [segment.dataOffset, segment.flags] ++ bytes16 segment.windowSize)
    (bytes16 segment.urgentPtr ++ segment.data)
    (show (native16 checksum).length = [0, 0].length from rfl)
  simpa [Segment.image, bytes16, bytes32] using replaced

theorem tcpStage_buffer : (h.tcpStage s flags data).buffers .tcp =
    blit (h.buffers .tcp) 0 ((s.segment flags data).encode h.localIP s.remoteIP) := by
  have laid : slice ((h.tcpFields s flags data).buffers .tcp) 0 (20 + data.length) =
      (s.segment flags data).image [0, 0] := by
    have length : ((s.segment flags data).image [0, 0]).length = 20 + data.length := Segment.image_length _ rfl
    rw [tcpFields_buffer, ← length, slice_blit]
  have kept (src dst : IPv4Address) (segment : List UInt8) :
      ((h.tcpFields s flags data).computeChecksum src dst segment).2.buffers .tcp =
        (h.tcpFields s flags data).buffers .tcp := by
    simp [computeChecksum, scratchStage, store_buffers_of_ne]
  rw [tcpStage, laid, store_buffers_self, computeChecksum_eq, kept, tcpFields_buffer, blit_image]
  simp [tcpFields]
  rfl

theorem tcpStage_staged : h.Staged (h.tcpStage s flags data) := by
  unfold tcpStage computeChecksum scratchStage tcpFields
  repeat refine Staged.store ?_ (by simp) _ _
  exact Staged.refl h

theorem tcpStage_idCounter : (h.tcpStage s flags data).idCounter = h.idCounter := by
  simp [tcpStage, computeChecksum, scratchStage, tcpFields]

/-- **`SendSegment`**: the socket goes on as `TCPSocket.sendSegment` says, and the segment is handed to
`IPv4Handler::Send`. -/
theorem sendSegment_eq : h.sendSegment s flags data = ((s.sendSegment flags data).1,
    ((h.tcpStage s flags data).ipv4Send s.remoteIP 0x06
      ((s.segment flags data).encode h.localIP s.remoteIP)).2) := by
  have length : ((s.segment flags data).encode h.localIP s.remoteIP).length = 20 + data.length :=
    Segment.encode_length ..
  rw [sendSegment, tcpStage_buffer, ← length, slice_blit]
  rfl

/-- The stores of `SendSegment`. -/
def tcpWrites (size : Nat) : List Write :=
  [⟨.tcp, 0, 2⟩, ⟨.tcp, 2, 2⟩, ⟨.tcp, 4, 4⟩, ⟨.tcp, 8, 4⟩, ⟨.tcp, 12, 1⟩, ⟨.tcp, 13, 1⟩,
    ⟨.tcp, 14, 2⟩, ⟨.tcp, 16, 2⟩, ⟨.tcp, 18, 2⟩, ⟨.tcp, 20, size⟩, ⟨.scratch, 0, 4⟩, ⟨.scratch, 4, 4⟩,
    ⟨.scratch, 8, 1⟩, ⟨.scratch, 9, 1⟩, ⟨.scratch, 10, 2⟩, ⟨.scratch, 12, 20 + size⟩, ⟨.tcp, 16, 2⟩]

theorem tcpStage_writes : (h.tcpStage s flags data).writes = h.writes ++ tcpWrites data.length := by
  simp [tcpStage, computeChecksum, scratchStage, tcpFields, tcpWrites, bytes16, bytes32, native16]

/-- The stores of `SendSegment` stay inside `tx_buf` and `scratch` if and only if the data fits behind
the header in `tx_buf`. -/
theorem tcpWrites_inside_iff (size : Nat) : (∀ write ∈ tcpWrites size, write.Inside) ↔ size ≤ 1460 := by
  constructor
  · intro inside
    by_contra large
    have last : 20 + 1460 < 1480 :=
      inside ⟨.tcp, 20, size⟩ (by simp [tcpWrites]) 1460 (show 1460 < size by omega)
    omega
  · intro fits write mem
    refine Write.inside_of_le ?_
    fin_cases mem <;> simp only [Buffer.size] <;> omega

variable {h s}

theorem sendSegment_of_unresolved (unresolved : h.resolve s.remoteIP = none) :
    (h.sendSegment s flags data).2.frames = h.frames ∧
      (h.sendSegment s flags data).2.writes = h.writes ++ tcpWrites data.length := by
  have staged := h.tcpStage_staged s flags data
  rw [← staged.resolve] at unresolved
  rw [sendSegment_eq, ipv4Send_of_unresolved unresolved]
  exact ⟨staged.frames, tcpStage_writes ..⟩

/-- **A segment to a resolved address**: the frame, and the stores on the way. -/
theorem sendSegment_of_resolves {mac : MACAddress} (resolves : h.resolve s.remoteIP = some mac) :
    (h.sendSegment s flags data).2.frames = h.frames ++
        [h.frameOf mac s.remoteIP 0x06 ((s.segment flags data).encode h.localIP s.remoteIP)] ∧
      (h.sendSegment s flags data).2.writes =
        h.writes ++ (tcpWrites data.length ++ ipv4Writes h.txCurrent (20 + data.length)) := by
  have staged := h.tcpStage_staged s flags data
  rw [← staged.resolve] at resolves
  obtain ⟨-, frames, writes⟩ := ipv4Send_of_resolves resolves 0x06
    ((s.segment flags data).encode h.localIP s.remoteIP)
  rw [sendSegment_eq]
  refine ⟨?_, ?_⟩
  · rw [frames, staged.frames, staged.frameOf (tcpStage_idCounter ..)]
  · rw [writes, tcpStage_writes, staged.txCurrent, Segment.encode_length, List.append_assoc]
    rfl

end Host

end LaylaOS.Net
