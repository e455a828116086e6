/-
**The TCP socket** (`net/tcp.cpp`).

A socket is its connection state and its two sequence counters. What a call does outside the socket
— the segments it hands to `IPv4Handler::Send` and the callbacks it makes — is the list of effects
it returns, in order. `Segment.encode` is the image `SendSegment` leaves in `tx_buf`.
-/

import LaylaOS.Net.Wire

namespace LaylaOS.Net

open LaylaOS.Lib

/-- `enum TCPState`. -/
inductive TCPState
  | closed
  | listen
  | synSent
  | synReceived
  | established
  | finWait1
  | finWait2
  | closeWait
  | lastAck
  | timeWait
  deriving DecidableEq, Repr

/-- `TCP_FIN`. -/
def tcpFin : UInt8 := 0x01
/-- `TCP_SYN`. -/
def tcpSyn : UInt8 := 0x02
/-- `TCP_PSH`. -/
def tcpPsh : UInt8 := 0x08
/-- `TCP_ACK`. -/
def tcpAck : UInt8 := 0x10

/-- `flags & flag`. -/
def hasFlag (flags flag : UInt8) : Prop := flags &&& flag ≠ 0

instance (flags flag : UInt8) : Decidable (hasFlag flags flag) := by
  unfold hasFlag
  infer_instance

/-- The fields of `TCPHeader` that `SendSegment` fills in, and the data behind them. -/
structure Segment where
  srcPort : Nat
  dstPort : Nat
  seqNum : Nat
  ackNum : Nat
  dataOffset : UInt8
  flags : UInt8
  windowSize : Nat
  urgentPtr : Nat
  data : List UInt8
  deriving DecidableEq

/-- The segment with the given bytes in its checksum field. -/
def Segment.image (segment : Segment) (checksum : List UInt8) : List UInt8 :=
  bytes16 segment.srcPort ++ bytes16 segment.dstPort ++ bytes32 segment.seqNum ++
    bytes32 segment.ackNum ++ [segment.dataOffset, segment.flags] ++ bytes16 segment.windowSize ++
    checksum ++ bytes16 segment.urgentPtr ++ segment.data

/-- `TCPPseudoHeader` and the segment, as `ComputeChecksum` lays them out in `scratch`. -/
def pseudoHeader (src dst : IPv4Address) (segment : List UInt8) : List UInt8 :=
  List.ofFn src ++ List.ofFn dst ++ [0, 0x06] ++ bytes16 segment.length ++ segment

/-- `ComputeChecksum`. -/
def computeChecksum (src dst : IPv4Address) (segment : List UInt8) : Nat :=
  internetChecksum (fun offset => (pseudoHeader src dst segment).getD offset 0)
    (pseudoHeader src dst segment).length

/-- The first `seg_len` bytes of `tx_buf` when `SendSegment` calls `IPv4Handler::Send`: the checksum
is stored as a native 16-bit number. -/
def Segment.encode (segment : Segment) (src dst : IPv4Address) : List UInt8 :=
  let checksum := computeChecksum src dst (segment.image [0, 0])
  segment.image [UInt8.ofNat checksum, UInt8.ofNat (checksum / 256)]

theorem Segment.image_length (segment : Segment) {checksum : List UInt8}
    (two : checksum.length = 2) : (segment.image checksum).length = 20 + segment.data.length := by
  simp [Segment.image, bytes16, bytes32, two]
  omega

theorem Segment.encode_length (segment : Segment) (src dst : IPv4Address) :
    (segment.encode src dst).length = 20 + segment.data.length :=
  segment.image_length rfl

/-- What a call does outside the socket. -/
inductive TcpEffect
  | send (dst : IPv4Address) (segment : Segment)
  | onConnected
  | onReceive (data : List UInt8)
  | onClosed
  deriving DecidableEq

/-- The segments that a list of effects sends. -/
def sent : List TcpEffect → List Segment
  | [] => []
  | .send _ segment :: rest => segment :: sent rest
  | _ :: rest => sent rest

theorem sent_append (before after : List TcpEffect) : sent (before ++ after) = sent before ++ sent after := by
  induction before with
  | nil => rfl
  | cons effect before ih =>
    cases effect with
    | send dst segment => simpa [sent] using ih
    | _ => exact ih

/-- `TCPSocket`. -/
structure TCPSocket where
  localPort : Nat
  remotePort : Nat
  remoteIP : IPv4Address
  state : TCPState
  seq : Nat
  ack : Nat
  deriving DecidableEq

namespace TCPSocket

/-- The constructor. -/
def new (localPort : Nat) : TCPSocket where
  localPort := localPort
  remotePort := 0
  remoteIP := fun _ => 0
  state := .closed
  seq := 0
  ack := 0

/-- The segment `SendSegment(flags, data, size)` builds. -/
def segment (s : TCPSocket) (flags : UInt8) (data : List UInt8) : Segment where
  srcPort := s.localPort
  dstPort := s.remotePort
  seqNum := s.seq
  ackNum := s.ack
  dataOffset := 0x50
  flags := flags
  windowSize := 8192
  urgentPtr := 0
  data := data

/-- The advance of `seq` in `SendSegment`. -/
def advance (s : TCPSocket) (flags : UInt8) (size : Nat) : TCPSocket :=
  if hasFlag flags tcpSyn ∨ hasFlag flags tcpFin then { s with seq := (s.seq + 1) % 2 ^ 32 }
  else { s with seq := (s.seq + size) % 2 ^ 32 }

/-- `SendSegment`. The result of `IPv4Handler::Send` is not looked at. -/
def sendSegment (s : TCPSocket) (flags : UInt8) (data : List UInt8) : TCPSocket × List TcpEffect :=
  (s.advance flags data.length, [.send s.remoteIP (s.segment flags data)])

/-- `Connect`. -/
def connect (s : TCPSocket) (dstIP : IPv4Address) (dstPort : Nat) :
    Bool × TCPSocket × List TcpEffect :=
  (true, { s with
    remoteIP := dstIP
    remotePort := dstPort
    seq := 0xDEADBEEF
    ack := 0
    state := .synSent }.sendSegment tcpSyn [])

/-- `Send`. -/
def send (s : TCPSocket) (data : List UInt8) : Bool × TCPSocket × List TcpEffect :=
  if s.state = .established then (true, s.sendSegment (tcpPsh ||| tcpAck) data)
  else (false, s, [])

/-- `Close`. -/
def close (s : TCPSocket) : TCPSocket × List TcpEffect :=
  if s.state = .established then { s with state := .finWait1 }.sendSegment (tcpFin ||| tcpAck) []
  else (s, [])

/-- `sizeof(rx_buf)`. -/
def rxSize : Nat := 8192

/-- What `HandleIPv4Payload` reads of a segment before it looks at the state. -/
structure Incoming where
  seq : Nat
  ack : Nat
  flags : UInt8
  payloadSize : Nat
  data : Storage

/-- The header fields of a segment of `size` bytes. -/
def incoming (payload : Storage) (size : Nat) : Incoming :=
  let hdrLen := (payload 12).toNat / 16 * 4
  { seq := ntohl (readLE payload 4 4)
    ack := ntohl (readLE payload 8 4)
    flags := payload 13
    payloadSize := if size > hdrLen then size - hdrLen else 0
    data := fun k => payload (hdrLen + k) }

/-- `case TCP_SYN_SENT`. -/
def onSynSent (s : TCPSocket) (seg : Incoming) : TCPSocket × List TcpEffect :=
  if hasFlag seg.flags tcpSyn ∧ hasFlag seg.flags tcpAck then
    let reply := { s with
      ack := (seg.seq + 1) % 2 ^ 32
      seq := seg.ack
      state := .established }.sendSegment tcpAck []
    (reply.1, reply.2 ++ [.onConnected])
  else (s, [])

/-- The FIN branch of `case TCP_ESTABLISHED`. -/
def onFin (s : TCPSocket) (seg : Incoming) : TCPSocket × List TcpEffect :=
  let first := { s with ack := (seg.seq + 1) % 2 ^ 32 }.sendSegment tcpAck []
  let second := first.1.sendSegment (tcpFin ||| tcpAck) []
  ({ second.1 with state := .lastAck }, first.2 ++ second.2)

/-- The data branch of `case TCP_ESTABLISHED`: what does not fit `rx_buf` is acknowledged all the
same. -/
def onData (s : TCPSocket) (seg : Incoming) : TCPSocket × List TcpEffect :=
  let copy := if seg.payloadSize > rxSize then rxSize else seg.payloadSize
  let reply := { s with ack := (seg.seq + seg.payloadSize) % 2 ^ 32 }.sendSegment tcpAck []
  (reply.1, reply.2 ++ [.onReceive ((List.range copy).map seg.data)])

/-- `case TCP_ESTABLISHED`. -/
def onEstablished (s : TCPSocket) (seg : Incoming) : TCPSocket × List TcpEffect :=
  if hasFlag seg.flags tcpFin then s.onFin seg
  else if seg.payloadSize > 0 then s.onData seg
  else (s, [])

/-- `case TCP_LAST_ACK`. -/
def onLastAck (s : TCPSocket) (seg : Incoming) : TCPSocket × List TcpEffect :=
  if hasFlag seg.flags tcpAck then ({ s with state := .closed }, [.onClosed]) else (s, [])

/-- `case TCP_FIN_WAIT_1`. -/
def onFinWait1 (s : TCPSocket) (seg : Incoming) : TCPSocket × List TcpEffect :=
  if hasFlag seg.flags tcpAck then ({ s with state := .finWait2 }, []) else (s, [])

/-- `case TCP_FIN_WAIT_2`. -/
def onFinWait2 (s : TCPSocket) (seg : Incoming) : TCPSocket × List TcpEffect :=
  if hasFlag seg.flags tcpFin then
    let reply := { s with ack := (seg.seq + 1) % 2 ^ 32 }.sendSegment tcpAck []
    ({ reply.1 with state := .closed }, reply.2 ++ [.onClosed])
  else (s, [])

/-- The `switch (state)` of `HandleIPv4Payload`. -/
def receive (s : TCPSocket) (seg : Incoming) : TCPSocket × List TcpEffect :=
  match s.state with
  | .synSent => s.onSynSent seg
  | .established => s.onEstablished seg
  | .lastAck => s.onLastAck seg
  | .finWait1 => s.onFinWait1 seg
  | .finWait2 => s.onFinWait2 seg
  | _ => (s, [])

/-- `HandleIPv4Payload(payload, size, …)`. -/
def handleIPv4Payload (s : TCPSocket) (payload : Storage) (size : Nat) :
    TCPSocket × List TcpEffect :=
  if size < 20 then (s, [])
  else if ntohs (readLE payload 2 2) ≠ s.localPort then (s, [])
  else s.receive (incoming payload size)

@[simp] theorem advance_state (s : TCPSocket) (flags : UInt8) (size : Nat) :
    (s.advance flags size).state = s.state := by
  unfold advance
  split <;> rfl

@[simp] theorem advance_ack (s : TCPSocket) (flags : UInt8) (size : Nat) :
    (s.advance flags size).ack = s.ack := by
  unfold advance
  split <;> rfl

@[simp] theorem advance_localPort (s : TCPSocket) (flags : UInt8) (size : Nat) :
    (s.advance flags size).localPort = s.localPort := by
  unfold advance
  split <;> rfl

@[simp] theorem advance_remotePort (s : TCPSocket) (flags : UInt8) (size : Nat) :
    (s.advance flags size).remotePort = s.remotePort := by
  unfold advance
  split <;> rfl

theorem receive_localPort (s : TCPSocket) (seg : Incoming) : (s.receive seg).1.localPort = s.localPort := by
  unfold receive
  split
  · unfold onSynSent
    split <;> simp [sendSegment]
  · unfold onEstablished
    split_ifs <;> simp [onFin, onData, sendSegment]
  · unfold onLastAck
    split <;> rfl
  · unfold onFinWait1
    split <;> rfl
  · unfold onFinWait2
    split <;> simp [sendSegment]
  · rfl

end TCPSocket

end LaylaOS.Net
