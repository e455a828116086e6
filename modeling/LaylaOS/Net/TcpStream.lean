/-
**What a TCP receiver hands to its owner.**

A correct peer sends the bytes of a stream, each data segment numbered by the offset of its first
byte. `HandleIPv4Payload` takes every data segment as it comes: no branch compares the sequence
number with `ack`, so the stream is rebuilt as far as the segments arrive in order.

* `stream_integrity` — of segments in order, `OnReceive` is passed a prefix of the stream.
-/

import LaylaOS.Net.Tcp

namespace LaylaOS.Net

open LaylaOS.Lib

/-- A segment of a peer that sends `stream` after a SYN numbered `irs`, to our local port: a
retransmitted SYN, or `length` bytes of the stream from `offset` on behind a 20-byte header. A FIN
stands behind the last byte. -/
structure PeerSegment (stream : List UInt8) (irs port : Nat) where
  payload : Storage
  offset : Nat
  length : Nat
  inside : offset + length ≤ stream.length
  header : (payload 12).toNat / 16 = 5
  toPort : be16 payload 2 = port
  numbered : if hasFlag (payload 13) tcpSyn then be32 payload 4 = irs % 2 ^ 32 ∧ length = 0
    else be32 payload 4 = (irs + 1 + offset) % 2 ^ 32
  carries : ∀ k < length, stream[offset + k]? = some (payload (20 + k))
  last : hasFlag (payload 13) tcpFin → offset + length = stream.length

variable {stream : List UInt8} {irs port : Nat}

/-- The segment carries a FIN. -/
def PeerSegment.fin (seg : PeerSegment stream irs port) : Prop := hasFlag (seg.payload 13) tcpFin

instance (seg : PeerSegment stream irs port) : Decidable seg.fin := by
  unfold PeerSegment.fin
  infer_instance

/-- Every data segment up to the first FIN starts where the bytes delivered before it end, and fits
the receive buffer. -/
def InOrder : Nat → List (PeerSegment stream irs port) → Prop
  | _, [] => True
  | delivered, seg :: rest =>
    if seg.fin then True
    else if seg.length = 0 then InOrder delivered rest
    else seg.offset = delivered ∧ seg.length ≤ TCPSocket.rxSize ∧
      InOrder (delivered + seg.length) rest

theorem InOrder.of_prefix {delivered : Nat} {arrived segments : List (PeerSegment stream irs port)}
    (part : arrived <+: segments) (inOrder : InOrder delivered segments) :
    InOrder delivered arrived := by
  induction arrived generalizing delivered segments with
  | nil => trivial
  | cons seg arrived ih =>
    obtain ⟨rest, rfl⟩ := part
    have tail : arrived <+: arrived ++ rest := List.prefix_append _ _
    simp only [List.cons_append, InOrder] at inOrder ⊢
    by_cases fin : seg.fin
    · rw [if_pos fin]
      trivial
    · rw [if_neg fin] at inOrder ⊢
      by_cases empty : seg.length = 0
      · rw [if_pos empty] at inOrder ⊢
        exact ih tail inOrder
      · rw [if_neg empty] at inOrder ⊢
        exact ⟨inOrder.1, inOrder.2.1, ih tail inOrder.2.2⟩

/-- The bytes a list of effects hands to `OnReceive`. -/
def received : List TcpEffect → List UInt8
  | [] => []
  | .onReceive data :: rest => data ++ received rest
  | _ :: rest => received rest

/-- The socket after a list of segments, and the concatenation of the buffers passed to
`OnReceive`. -/
def receiveAll (s : TCPSocket) : List (PeerSegment stream irs port) → TCPSocket × List UInt8
  | [] => (s, [])
  | seg :: rest =>
    let result := s.handleIPv4Payload seg.payload (20 + seg.length)
    let later := receiveAll result.1 rest
    (later.1, received result.2 ++ later.2)

/-! ### One segment -/

/-- A segment of the peer passes the two checks in front of the state machine, and its payload is
what stands behind the 20-byte header. -/
theorem handle_peerSegment (s : TCPSocket) (seg : PeerSegment stream irs port) (onPort : s.localPort = port) :
    s.handleIPv4Payload seg.payload (20 + seg.length) =
      s.receive (TCPSocket.incoming seg.payload (20 + seg.length)) := by
  unfold TCPSocket.handleIPv4Payload
  rw [if_neg (by omega), ntohs_readLE, seg.toPort, onPort, if_neg (not_not.mpr rfl)]

theorem incoming_payloadSize (seg : PeerSegment stream irs port) :
    (TCPSocket.incoming seg.payload (20 + seg.length)).payloadSize = seg.length := by
  simp only [TCPSocket.incoming, seg.header]
  split <;> omega

theorem incoming_data (seg : PeerSegment stream irs port) :
    (List.range seg.length).map (TCPSocket.incoming seg.payload (20 + seg.length)).data =
      (stream.drop seg.offset).take seg.length := by
  apply List.ext_getElem?
  intro k
  simp only [TCPSocket.incoming, seg.header, List.getElem?_map]
  by_cases bound : k < seg.length
  · rw [List.getElem?_range bound, List.getElem?_take_of_lt bound, List.getElem?_drop, seg.carries k bound]
    rfl
  · rw [List.getElem?_eq_none (by rw [List.length_range]; omega),
      List.getElem?_eq_none (by rw [List.length_take]; omega)]
    rfl

theorem incoming_seq (seg : PeerSegment stream irs port) (data : seg.length ≠ 0) :
    (TCPSocket.incoming seg.payload (20 + seg.length)).seq = (irs + 1 + seg.offset) % 2 ^ 32 := by
  have numbered := seg.numbered
  split at numbered
  · exact absurd numbered.2 data
  · simp only [TCPSocket.incoming, ntohl_readLE]
    exact numbered

/-- A connection that is being closed passively hands nothing to its owner and does not come
back. -/
theorem receive_closing {s : TCPSocket} (closing : s.state = .lastAck ∨ s.state = .closed)
    (seg : TCPSocket.Incoming) :
    ((s.receive seg).1.state = .lastAck ∨ (s.receive seg).1.state = .closed) ∧
      received (s.receive seg).2 = [] := by
  rcases closing with last | closed
  · simp only [TCPSocket.receive, last, TCPSocket.onLastAck]
    split
    · exact ⟨.inr rfl, rfl⟩
    · exact ⟨.inl last, rfl⟩
  · have ignored : s.receive seg = (s, []) := by simp only [TCPSocket.receive, closed]
    rw [ignored]
    exact ⟨.inr closed, rfl⟩

/-! ### Runs -/

theorem receiveAll_closing {s : TCPSocket} (onPort : s.localPort = port)
    (closing : s.state = .lastAck ∨ s.state = .closed)
    (segments : List (PeerSegment stream irs port)) :
    (receiveAll s segments).1.state ≠ .established ∧ (receiveAll s segments).2 = [] := by
  induction segments generalizing s with
  | nil =>
    refine ⟨?_, rfl⟩
    rcases closing with last | closed
    · rw [receiveAll, last]; decide
    · rw [receiveAll, closed]; decide
  | cons seg rest ih =>
    obtain ⟨still, nothing⟩ := receive_closing closing (TCPSocket.incoming seg.payload (20 + seg.length))
    simp only [receiveAll]
    rw [handle_peerSegment s seg onPort]
    obtain ⟨never, empty⟩ := ih ((TCPSocket.receive_localPort _ _).trans onPort) still
    exact ⟨never, by rw [nothing, empty]; rfl⟩

/-- **Segments in order, from `delivered` bytes on.** The induction is on the segments; the
invariant is that `ack` is the number of the first byte not yet delivered. -/
theorem receiveAll_inOrder {s : TCPSocket} {delivered : Nat} (onPort : s.localPort = port)
    (established : s.state = .established) (acked : s.ack = (irs + 1 + delivered) % 2 ^ 32)
    {segments : List (PeerSegment stream irs port)} (inOrder : InOrder delivered segments) :
    (receiveAll s segments).2 <+: stream.drop delivered ∧ ((receiveAll s segments).1.state = .established →
        (receiveAll s segments).1.ack = (irs + 1 + delivered + (receiveAll s segments).2.length) % 2 ^ 32) := by
  induction segments generalizing s delivered with
  | nil => exact ⟨List.nil_prefix, fun _ => acked⟩
  | cons seg rest ih =>
    have branch : s.receive (TCPSocket.incoming seg.payload (20 + seg.length)) =
        s.onEstablished (TCPSocket.incoming seg.payload (20 + seg.length)) := by
      simp only [TCPSocket.receive, established]
    have keepsPort := TCPSocket.receive_localPort s (TCPSocket.incoming seg.payload (20 + seg.length))
    simp only [receiveAll]
    rw [handle_peerSegment s seg onPort]
    rw [branch] at keepsPort ⊢
    unfold TCPSocket.onEstablished at keepsPort ⊢
    rw [incoming_payloadSize] at keepsPort ⊢
    unfold InOrder at inOrder
    by_cases fin : seg.fin
    · have flagged : hasFlag (TCPSocket.incoming seg.payload (20 + seg.length)).flags tcpFin := fin
      rw [if_pos flagged] at keepsPort ⊢
      obtain ⟨never, empty⟩ := receiveAll_closing (keepsPort.trans onPort) (.inl rfl) rest
      refine ⟨?_, fun back => absurd back never⟩
      rw [empty]
      exact List.nil_prefix
    · have unflagged : ¬ hasFlag (TCPSocket.incoming seg.payload (20 + seg.length)).flags tcpFin := fin
      rw [if_neg unflagged] at keepsPort ⊢
      rw [if_neg fin] at inOrder
      by_cases empty : seg.length = 0
      · rw [if_neg (by omega)] at keepsPort ⊢
        rw [if_pos empty] at inOrder
        exact ih onPort established acked inOrder
      · rw [if_pos (by omega)] at keepsPort ⊢
        rw [if_neg empty] at inOrder
        obtain ⟨next, fits, later⟩ := inOrder
        have buffer : received (s.onData (TCPSocket.incoming seg.payload (20 + seg.length))).2 =
            (stream.drop delivered).take seg.length := by
          simp only [TCPSocket.onData, incoming_payloadSize]
          rw [if_neg (by omega), incoming_data, next]
          simp [TCPSocket.sendSegment, received]
        have length : ((stream.drop delivered).take seg.length).length = seg.length := by
          have inside := seg.inside
          rw [List.length_take, List.length_drop]
          omega
        have ack : (s.onData (TCPSocket.incoming seg.payload (20 + seg.length))).1.ack =
            (irs + 1 + (delivered + seg.length)) % 2 ^ 32 := by
          simp only [TCPSocket.onData, TCPSocket.sendSegment, TCPSocket.advance_ack,
            incoming_payloadSize, incoming_seq seg empty, next]
          omega
        have state : (s.onData (TCPSocket.incoming seg.payload (20 + seg.length))).1.state = .established := by
          simp [TCPSocket.onData, TCPSocket.sendSegment, established]
        obtain ⟨tail, counted⟩ := ih (keepsPort.trans onPort) state ack later
        rw [buffer]
        constructor
        · obtain ⟨missing, whole⟩ := tail
          refine ⟨missing, ?_⟩
          rw [List.append_assoc, whole, ← List.drop_drop, List.take_append_drop]
        · intro still
          rw [counted still, List.length_append, length]
          congr 1
          ring

/-- **Stream integrity of in-order arrival**, after every prefix of the segments. -/
theorem stream_integrity (s : TCPSocket) (onPort : s.localPort = port)
    (established : s.state = .established) (acked : s.ack = (irs + 1) % 2 ^ 32)
    (segments : List (PeerSegment stream irs port)) (inOrder : InOrder 0 segments)
    (arrived : List (PeerSegment stream irs port)) (part : arrived <+: segments) :
    (receiveAll s arrived).2 <+: stream ∧ ((receiveAll s arrived).1.state = .established →
        (receiveAll s arrived).1.ack = (irs + 1 + (receiveAll s arrived).2.length) % 2 ^ 32) := by
  have result := receiveAll_inOrder onPort established (acked : s.ack = (irs + 1 + 0) % 2 ^ 32)
    (inOrder.of_prefix part)
  rw [List.drop_zero, Nat.add_zero] at result
  exact result

/-- The socket at port 49152 after a handshake with a peer whose SYN was numbered 1000. -/
def connected : TCPSocket where
  localPort := 49152
  remotePort := 80
  remoteIP := ![10, 0, 2, 2]
  state := .established
  seq := 0xDEADBEF0
  ack := 1001

/-- A one-byte segment of the stream `[7, 8]`. -/
def byteSegment (offset : Fin 2) : PeerSegment [7, 8] 1000 49152 where
  payload := fun k =>
    ([0, 80, 192, 0, 0, 0, 3, 233 + UInt8.ofNat offset, 0, 0, 0, 0, 0x50, 0x18, 32, 0, 0, 0, 0, 0,
      7 + UInt8.ofNat offset] : List UInt8).getD k 0
  offset := offset
  length := 1
  inside := by
    show offset.val + 1 ≤ 2
    omega
  header := by revert offset; decide
  toPort := by revert offset; decide
  numbered := by revert offset; decide
  carries := by revert offset; decide
  last := by revert offset; decide

theorem stream_integrity_two_bytes : InOrder 0 [byteSegment 0, byteSegment 1] ∧
      (receiveAll connected [byteSegment 0, byteSegment 1]).2 <+: [7, 8] ∧
      ((receiveAll connected [byteSegment 0, byteSegment 1]).1.state = .established →
        (receiveAll connected [byteSegment 0, byteSegment 1]).1.ack =
          (1000 + 1 + (receiveAll connected [byteSegment 0, byteSegment 1]).2.length) % 2 ^ 32) := by
  have inOrder : InOrder 0 [byteSegment 0, byteSegment 1] := by
    simp only [InOrder]
    decide
  exact ⟨inOrder, stream_integrity connected rfl rfl rfl _ inOrder _ List.prefix_rfl⟩

/-- **A duplicated segment is delivered twice**: the buffers `[7]` and `[7]` are no prefix of the
stream `[7, 8]`. -/
theorem duplicate_delivered_twice :
    ¬ ∀ (stream : List UInt8) (irs port : Nat) (s : TCPSocket), s.localPort = port →
      s.state = .established → s.ack = (irs + 1) % 2 ^ 32 →
      ∀ arrived : List (PeerSegment stream irs port), (receiveAll s arrived).2 <+: stream ∧
          ((receiveAll s arrived).1.state = .established → (receiveAll s arrived).1.ack =
              (irs + 1 + (receiveAll s arrived).2.length) % 2 ^ 32) := by
  intro integrity
  have delivered := (integrity [7, 8] 1000 49152 connected rfl rfl rfl [byteSegment 0, byteSegment 0]).1
  revert delivered
  decide

end LaylaOS.Net
