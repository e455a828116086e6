/-
**When two TCP sockets agree that their connection is closed.**

* `close_agreement_iff` — when nothing is on its way after a close, both sockets are `TCP_CLOSED` if
  and only if no FIN was delivered to a socket in `TCP_FIN_WAIT_1`.
-/

import LaylaOS.Net.Handshake

namespace LaylaOS.Net

open LaylaOS.Lib

/-- Two sockets with two FIFO channels. -/
structure Connection where
  address : Side → IPv4Address
  socket : Side → TCPSocket
  inbox : Side → List Segment

/-- A call of the owner of a socket, or the delivery of the oldest segment to a socket. -/
inductive ConnectionEvent
  | send (x : Side) (data : List UInt8)
  | close (x : Side)
  | deliver (x : Side)
  deriving DecidableEq

namespace Connection

/-- A socket has come to the result of a call, with `rest` still on its way to it. -/
def emit (c : Connection) (x : Side) (rest : List Segment) (result : TCPSocket × List TcpEffect) :
    Connection :=
  { c with
    socket := Function.update c.socket x result.1
    inbox := Function.update (Function.update c.inbox x rest) x.other
      (c.inbox x.other ++ sent result.2) }

/-- The bytes of a segment as they arrive. -/
def wire (c : Connection) (x : Side) (segment : Segment) : List UInt8 :=
  segment.encode (c.address x.other) (c.address x)

def step (c : Connection) : ConnectionEvent → Connection
  | .send x data => c.emit x (c.inbox x) ((c.socket x).send data).2
  | .close x => c.emit x (c.inbox x) (c.socket x).close
  | .deliver x =>
    match c.inbox x with
    | [] => c
    | segment :: rest => c.emit x rest ((c.socket x).handleIPv4Payload
        (fun offset => (c.wire x segment).getD offset 0) (c.wire x segment).length)

/-- Both established, connected to each other, nothing on its way. -/
structure Joined (c : Connection) : Prop where
  established : ∀ x, (c.socket x).state = .established
  numbered : ∀ x, (c.socket x).seq = (c.socket x.other).ack
  port : ∀ x, (c.socket x).localPort < 2 ^ 16
  remotePort : ∀ x, (c.socket x).remotePort = (c.socket x.other).localPort
  remoteIP : ∀ x, (c.socket x).remoteIP = c.address x.other
  idle : ∀ x, c.inbox x = []

/-- No FIN is delivered to a socket in `TCP_FIN_WAIT_1`. -/
def FinAfterAck (c : Connection) : ConnectionEvent → Prop
  | .deliver x => (c.socket x).state = .finWait1 →
      ∀ segment ∈ (c.inbox x).head?, ¬ hasFlag segment.flags tcpFin
  | _ => True

end Connection

/-! ### The handshake of a connection -/

/-- What a segment is to the handshake. -/
def Segment.kind (segment : Segment) : Kind :=
  if hasFlag segment.flags tcpFin then .fin else if segment.data = [] then .bare else .data

theorem Segment.kind_eq_fin {segment : Segment} : segment.kind = .fin ↔ hasFlag segment.flags tcpFin := by
  unfold Segment.kind
  split_ifs with fin empty
  · exact iff_of_true rfl fin
  · exact iff_of_false nofun fin
  · exact iff_of_false nofun fin

/-- A segment of an established connection to a port. -/
structure Segment.Proper (segment : Segment) (port : Nat) : Prop where
  flags : segment.flags = tcpAck ∨ segment.flags = tcpPsh ||| tcpAck ∨
    segment.flags = tcpFin ||| tcpAck
  header : segment.dataOffset = 0x50
  toPort : segment.dstPort = port

theorem Segment.Proper.acks {segment : Segment} {port : Nat} (proper : segment.Proper port) :
    hasFlag segment.flags tcpAck ∧ ¬ hasFlag segment.flags tcpSyn := by
  rcases proper.flags with flags | flags | flags <;> rw [flags] <;> decide

namespace TCPSocket

theorem handle_encode (s : TCPSocket) {segment : Segment} (proper : segment.Proper s.localPort)
    (port : s.localPort < 2 ^ 16) (src dst : IPv4Address) : ∃ seg : Incoming,
      s.handleIPv4Payload (fun offset => (segment.encode src dst).getD offset 0)
        (segment.encode src dst).length = s.receive seg ∧
      seg.flags = segment.flags ∧ seg.payloadSize = segment.data.length := by
  refine ⟨incoming (fun offset => (segment.encode src dst).getD offset 0)
    (segment.encode src dst).length, ?_, rfl, ?_⟩
  · have toPort : be16 (fun offset => (segment.encode src dst).getD offset 0) 2 = s.localPort := by
      rw [← proper.toPort] at port ⊢
      show 256 * (UInt8.ofNat (segment.dstPort / 256)).toNat + (UInt8.ofNat segment.dstPort).toNat = _
      rw [UInt8.toNat_ofNat', UInt8.toNat_ofNat']
      omega
    unfold handleIPv4Payload
    rw [if_neg (by rw [Segment.encode_length]; omega), ntohs_readLE, toPort, if_neg (not_not.mpr rfl)]
  · show (if _ > segment.dataOffset.toNat / 16 * 4 then
      _ - segment.dataOffset.toNat / 16 * 4 else 0) = _
    rw [proper.header, Segment.encode_length]
    show (if 20 + segment.data.length > 20 then 20 + segment.data.length - 20 else 0) = _
    split_ifs <;> omega

@[simp] theorem kind_ack (s : TCPSocket) : (s.segment tcpAck []).kind = .bare :=
  if_neg (show ¬ hasFlag tcpAck tcpFin by decide)

@[simp] theorem kind_fin (s : TCPSocket) : (s.segment (tcpFin ||| tcpAck) []).kind = .fin :=
  if_pos (show hasFlag (tcpFin ||| tcpAck) tcpFin by decide)

@[simp] theorem kind_send (s : TCPSocket) (data : List UInt8) :
    (s.segment (tcpPsh ||| tcpAck) data).kind = if data = [] then .bare else .data :=
  if_neg (show ¬ hasFlag (tcpPsh ||| tcpAck) tcpFin by decide)

/-- **What a socket does with a segment** is what its phase does with the segment's kind. -/
theorem receive_react (s : TCPSocket) {segment : Segment} {seg : Incoming} {port : Nat}
    (proper : segment.Proper port) (flags : seg.flags = segment.flags)
    (size : seg.payloadSize = segment.data.length) :
    (s.receive seg).1.state = (react s.state segment.kind).1 ∧
      (sent (s.receive seg).2).map Segment.kind = (react s.state segment.kind).2 := by
  obtain ⟨acks, noSyn⟩ := proper.acks
  rw [← flags] at acks noSyn
  have loaded : seg.payloadSize > 0 ↔ segment.data ≠ [] := by
    rw [size, gt_iff_lt, List.length_pos_iff]
  have kind : segment.kind = if hasFlag seg.flags tcpFin then .fin
      else if seg.payloadSize > 0 then .data else .bare := by
    simp only [loaded, ne_eq, ite_not, flags]
    rfl
  rw [kind]
  unfold receive
  cases state : s.state with
  | established =>
    simp only [onEstablished]
    split_ifs with fin full
    · simp [onFin, sendSegment, sent, react]
    · simp [onData, sendSegment, sent, react, state]
    · exact ⟨state, rfl⟩
  | finWait2 =>
    simp only [onFinWait2]
    split_ifs with fin full
    · simp [sendSegment, sent, react]
    · exact ⟨state, rfl⟩
    · exact ⟨state, rfl⟩
  | finWait1 =>
    simp only [onFinWait1, if_pos acks]
    split_ifs <;> exact ⟨rfl, rfl⟩
  | lastAck =>
    simp only [onLastAck, if_pos acks]
    split_ifs <;> exact ⟨rfl, rfl⟩
  | synSent =>
    simp only [onSynSent, noSyn, false_and, if_false]
    split_ifs <;> exact ⟨state, rfl⟩
  | _ => split_ifs <;> exact ⟨state, rfl⟩

/-- The result of a call: the ports stay, and what is sent is proper. -/
def Continues (s : TCPSocket) (result : TCPSocket × List TcpEffect) : Prop :=
  result.1.localPort = s.localPort ∧ result.1.remotePort = s.remotePort ∧
    ∀ segment ∈ sent result.2, segment.Proper s.remotePort

theorem Continues.sendSegment {s t : TCPSocket} {flags : UInt8} {effects : List TcpEffect}
    (before : s.Continues (t, effects)) (data : List UInt8)
    (mark : flags = tcpAck ∨ flags = tcpPsh ||| tcpAck ∨ flags = tcpFin ||| tcpAck) :
    s.Continues ((t.sendSegment flags data).1, effects ++ (t.sendSegment flags data).2) := by
  obtain ⟨localPort, remotePort, proper⟩ := before
  refine ⟨?_, ?_, ?_⟩
  · exact (t.advance_localPort flags data.length).trans localPort
  · exact (t.advance_remotePort flags data.length).trans remotePort
  · rw [sent_append]
    intro segment mem
    rcases List.mem_append.mp mem with old | new
    · exact proper segment old
    · rw [List.mem_singleton.mp new]
      exact ⟨mark, rfl, remotePort⟩

theorem Continues.same {s t u : TCPSocket} {effects more : List TcpEffect}
    (before : s.Continues (t, effects)) (localPort : u.localPort = t.localPort)
    (remotePort : u.remotePort = t.remotePort) (quiet : sent more = sent effects) :
    s.Continues (u, more) :=
  ⟨localPort.trans before.1, remotePort.trans before.2.1, quiet ▸ before.2.2⟩

theorem continues_self (s : TCPSocket) : s.Continues (s, []) := ⟨rfl, rfl, nofun⟩

theorem receive_continues (s : TCPSocket) (seg : Incoming) : s.Continues (s.receive seg) := by
  have idle := s.continues_self
  unfold receive
  split
  · unfold onSynSent
    split
    · have ready := idle.same (u := { s with
        ack := (seg.seq + 1) % 2 ^ 32, seq := seg.ack, state := .established }) rfl rfl rfl
      exact (ready.sendSegment [] (.inl rfl)).same rfl rfl rfl
    · exact idle
  · unfold onEstablished
    split_ifs
    · have ready := idle.same (u := { s with ack := (seg.seq + 1) % 2 ^ 32 }) rfl rfl rfl
      have acked := ready.sendSegment [] (.inl rfl)
      exact (acked.sendSegment [] (.inr (.inr rfl))).same rfl rfl rfl
    · have ready := idle.same (u := { s with
        ack := (seg.seq + seg.payloadSize) % 2 ^ 32 }) rfl rfl rfl
      exact (ready.sendSegment [] (.inl rfl)).same rfl rfl rfl
    · exact idle
  · unfold onLastAck
    split
    · exact idle.same rfl rfl rfl
    · exact idle
  · unfold onFinWait1
    split
    · exact idle.same rfl rfl rfl
    · exact idle
  · unfold onFinWait2
    split
    · have ready := idle.same (u := { s with ack := (seg.seq + 1) % 2 ^ 32 }) rfl rfl rfl
      exact (ready.sendSegment [] (.inl rfl)).same rfl rfl rfl
    · exact idle
  · exact idle

end TCPSocket

/-! ### The simulation -/

/-- The event of the handshake. -/
def ConnectionEvent.abs : ConnectionEvent → HandshakeEvent
  | .send x data => .send x (data ≠ [])
  | .close x => .close x
  | .deliver x => .deliver x

namespace Connection

section Emit

variable (c : Connection) (x : Side) (rest : List Segment) (result : TCPSocket × List TcpEffect)

@[simp] theorem emit_socket_self : (c.emit x rest result).socket x = result.1 := by
  simp [emit]

@[simp] theorem emit_socket_other : (c.emit x rest result).socket x.other = c.socket x.other := by
  simp [emit]

@[simp] theorem emit_inbox_self : (c.emit x rest result).inbox x = rest := by
  simp [emit, (Side.other_ne x).symm]

@[simp] theorem emit_inbox_other : (c.emit x rest result).inbox x.other = c.inbox x.other ++ sent result.2 := by
  simp [emit]

end Emit

/-- Each socket is connected to the other's port, and what is on its way is proper. -/
structure Addressed (c : Connection) : Prop where
  port : ∀ x, (c.socket x).localPort < 2 ^ 16
  remotePort : ∀ x, (c.socket x).remotePort = (c.socket x.other).localPort
  proper : ∀ x, ∀ segment ∈ c.inbox x, segment.Proper (c.socket x).localPort

theorem Joined.addressed {c : Connection} (joined : c.Joined) : c.Addressed :=
  ⟨joined.port, joined.remotePort, fun x => by rw [joined.idle x]; nofun⟩

theorem Addressed.emit {c : Connection} (addressed : c.Addressed) {x : Side} {rest : List Segment}
    {result : TCPSocket × List TcpEffect} (continues : (c.socket x).Continues result)
    (left : ∀ segment ∈ rest, segment ∈ c.inbox x) : (c.emit x rest result).Addressed := by
  obtain ⟨localPort, remotePort, proper⟩ := continues
  have ports (z : Side) : ((c.emit x rest result).socket z).localPort = (c.socket z).localPort ∧
      ((c.emit x rest result).socket z).remotePort = (c.socket z).remotePort := by
    rcases Side.eq_or_other x z with rfl | rfl
    · rw [emit_socket_self]
      exact ⟨localPort, remotePort⟩
    · rw [emit_socket_other]
      exact ⟨rfl, rfl⟩
  refine ⟨fun z => ?_, fun z => ?_, fun z segment mem => ?_⟩
  · rw [(ports z).1]
    exact addressed.port z
  · rw [(ports z).2, (ports z.other).1]
    exact addressed.remotePort z
  · rw [(ports z).1]
    rcases Side.eq_or_other x z with rfl | rfl
    · rw [emit_inbox_self] at mem
      exact addressed.proper z segment (left segment mem)
    · rw [emit_inbox_other] at mem
      rcases List.mem_append.mp mem with old | new
      · exact addressed.proper _ segment old
      · rw [← addressed.remotePort x]
        exact proper segment new

/-- The handshake of a connection. -/
def abs (c : Connection) : Handshake where
  phase := fun x => (c.socket x).state
  queue := fun x => (c.inbox x).map Segment.kind

theorem abs_emit (c : Connection) (x : Side) (rest : List Segment)
    (result : TCPSocket × List TcpEffect) : (c.emit x rest result).abs =
      c.abs.act x result.1.state (rest.map Segment.kind) ((sent result.2).map Segment.kind) := by
  ext1
  · funext z
    rcases Side.eq_or_other x z with rfl | rfl
    · simp [abs]
    · simp [abs]
  · funext z
    rcases Side.eq_or_other x z with rfl | rfl
    · simp [abs]
    · simp [abs]

/-- **Every event of the connection is the event of its handshake.** -/
theorem Addressed.step {c : Connection} (addressed : c.Addressed) (event : ConnectionEvent) :
    (c.step event).Addressed ∧ (c.step event).abs = c.abs.step event.abs := by
  have refused (x : Side) : (c.emit x (c.inbox x) (c.socket x, [])).abs = c.abs :=
    (abs_emit ..).trans (c.abs.act_self x)
  cases event with
  | send x data =>
    have idle := (c.socket x).continues_self
    unfold Connection.step TCPSocket.send Handshake.step
    by_cases established : (c.socket x).state = .established
    · simp only [if_pos established]
      refine ⟨addressed.emit (idle.sendSegment data (.inr (.inl rfl))) fun _ mem => mem, ?_⟩
      rw [abs_emit]
      simp [TCPSocket.sendSegment, sent, ConnectionEvent.abs, abs, established]
    · simp only [if_neg established]
      refine ⟨addressed.emit idle fun _ mem => mem, (refused x).trans (if_neg established).symm⟩
  | close x =>
    have idle := (c.socket x).continues_self
    unfold Connection.step TCPSocket.close Handshake.step
    by_cases established : (c.socket x).state = .established
    · simp only [if_pos established]
      have ready := idle.same (u := { c.socket x with state := .finWait1 }) rfl rfl rfl
      refine ⟨addressed.emit (ready.sendSegment [] (.inr (.inr rfl))) fun _ mem => mem, ?_⟩
      rw [abs_emit]
      simp [TCPSocket.sendSegment, sent, ConnectionEvent.abs, abs, established]
    · simp only [if_neg established]
      exact ⟨addressed.emit idle fun _ mem => mem, (refused x).trans (if_neg established).symm⟩
  | deliver x =>
    unfold Connection.step Handshake.step
    cases arrives : c.inbox x with
    | nil => simpa [arrives, ConnectionEvent.abs, abs] using addressed
    | cons segment rest =>
      -- the bytes are read back as the segment's flags and length, all that the phase looks at
      have proper := addressed.proper x segment (by rw [arrives]; exact List.mem_cons_self ..)
      obtain ⟨seg, handled, flags, size⟩ :=
        (c.socket x).handle_encode proper (addressed.port x) (c.address x.other) (c.address x)
      obtain ⟨state, answers⟩ := (c.socket x).receive_react proper flags size
      simp only [arrives, wire, handled]
      refine ⟨addressed.emit ((c.socket x).receive_continues seg) fun other mem => ?_, ?_⟩
      · rw [arrives]
        exact List.mem_cons_of_mem segment mem
      · rw [abs_emit, state, answers]
        simp [ConnectionEvent.abs, abs, arrives]

/-- **The sockets simulate the handshake.** -/
theorem simulates : Simulates Connection.step Handshake.step Connection.abs ConnectionEvent.abs Addressed :=
  fun _ event addressed => addressed.step event

theorem Addressed.run {c : Connection} (addressed : c.Addressed) (events : List ConnectionEvent) :
    (events.foldl Connection.step c).abs = (events.map ConnectionEvent.abs).foldl Handshake.step c.abs :=
  simulates.run addressed events

theorem finAfterAck_abs (c : Connection) (event : ConnectionEvent) :
    c.abs.FinAfterAck event.abs ↔ c.FinAfterAck event := by
  cases event with
  | send x data => exact Iff.rfl
  | close x => exact Iff.rfl
  | deliver x =>
    refine imp_congr_right fun _ => ?_
    show ((c.inbox x).map Segment.kind).head? ≠ some .fin ↔ _
    cases c.inbox x with
    | nil => exact iff_of_true nofun nofun
    | cons segment rest => simp [Segment.kind_eq_fin]

theorem Addressed.always {c : Connection} (addressed : c.Addressed) (events : List ConnectionEvent) :
    Always Handshake.step Handshake.FinAfterAck c.abs (events.map ConnectionEvent.abs) ↔
      Always Connection.step FinAfterAck c events :=
  simulates.always_iff finAfterAck_abs addressed events

theorem Joined.abs {c : Connection} (joined : c.Joined) : c.abs = Handshake.start := by
  ext1
  · exact funext joined.established
  · exact funext fun x => congrArg (List.map Segment.kind) (joined.idle x)

theorem Joined.quiet_iff {c : Connection} (joined : c.Joined) (events : List ConnectionEvent) :
    (∀ x, (events.foldl step c).inbox x = []) ↔
      ∀ x, ((events.map ConnectionEvent.abs).foldl Handshake.step .start).queue x = [] := by
  rw [← joined.abs, ← joined.addressed.run events]
  exact forall_congr' fun x => List.map_eq_nil_iff.symm

theorem Joined.closed_iff {c : Connection} (joined : c.Joined) (events : List ConnectionEvent) :
    (∀ x, ((events.foldl step c).socket x).state = .closed) ↔
      ∀ x, ((events.map ConnectionEvent.abs).foldl Handshake.step .start).phase x = .closed := by
  rw [← joined.abs, ← joined.addressed.run events]
  exact Iff.rfl

/-- **Close agreement.** When an endpoint has called `Close` and no message is in flight, both are
`TCP_CLOSED` if and only if no FIN was delivered to a socket in `TCP_FIN_WAIT_1`. -/
theorem close_agreement_iff {c : Connection} (joined : c.Joined) {events : List ConnectionEvent}
    (closes : ∃ x, .close x ∈ events) (quiet : ∀ x, (events.foldl step c).inbox x = []) :
    (∀ x, ((events.foldl step c).socket x).state = .closed) ↔ Always step FinAfterAck c events := by
  obtain ⟨x, closes⟩ := closes
  rw [joined.closed_iff, ← joined.addressed.always, joined.abs]
  exact Handshake.closed_iff (List.mem_map_of_mem closes) ((joined.quiet_iff events).mp quiet)

/-- Two sockets at ports 4000 and 80, connected to each other. -/
def dialled : Connection where
  address
    | .left => ![10, 0, 2, 15]
    | .right => ![10, 0, 2, 2]
  socket
    | .left => ⟨4000, 80, ![10, 0, 2, 2], .established, 100, 700⟩
    | .right => ⟨80, 4000, ![10, 0, 2, 15], .established, 700, 100⟩
  inbox := fun _ => []

theorem dialled_joined : dialled.Joined where
  established := fun x => by cases x <;> rfl
  numbered := fun x => by cases x <;> rfl
  port := fun x => by cases x <;> decide
  remotePort := fun x => by cases x <;> rfl
  remoteIP := fun x => by cases x <;> rfl
  idle := fun _ => rfl

/-- The left endpoint sends three bytes and closes, and everything is delivered. -/
def orderly : List ConnectionEvent :=
  [.send .left [1, 2, 3], .close .left, .deliver .right, .deliver .right, .deliver .left,
    .deliver .left, .deliver .left, .deliver .right]

theorem close_agreement_orderly : (∀ x, ((orderly.foldl step dialled).socket x).state = .closed) ∧
      Always step FinAfterAck dialled orderly := by
  have quiet := (dialled_joined.quiet_iff orderly).mpr fun x => by cases x <;> rfl
  have closed := (dialled_joined.closed_iff orderly).mpr fun x => by cases x <;> rfl
  exact ⟨closed, (close_agreement_iff dialled_joined ⟨.left, by decide⟩ quiet).mp closed⟩

/-- Both endpoints call `Close` before either FIN is delivered. -/
def crossing : List ConnectionEvent := [.close .left, .close .right, .deliver .left, .deliver .right]

/-- Both endpoints take the other's FIN for their ACK and wait in `TCP_FIN_WAIT_2`. -/
theorem simultaneous_close_sticks :
    ¬ ∀ c : Connection, c.Joined → ∀ events : List ConnectionEvent, (∃ x, .close x ∈ events) →
      (∀ x, (events.foldl step c).inbox x = []) → ∀ x, ((events.foldl step c).socket x).state = .closed := by
  intro all
  have closed := all dialled dialled_joined crossing ⟨.left, by decide⟩
    ((dialled_joined.quiet_iff crossing).mpr fun x => by cases x <;> rfl)
  have left := (dialled_joined.closed_iff crossing).mp closed .left
  exact absurd left (by decide)

end Connection
end LaylaOS.Net
