/-
**Segments that are not sent** (`TCPSocket::Connect`, `Send`, `SendSegment`).

`IPv4Handler::Send` returns false where the ARP cache has no entry for the destination. `SendSegment`
does not look at that: it returns nothing, and it has advanced `seq`. Between two calls of a socket's
owner the ARP cache may change in any way.

* `unsent_iff` — the calls of a run do both if and only if none of them fails below.
-/

import LaylaOS.Lib.Steps
import LaylaOS.Net.TcpTransmit

namespace LaylaOS.Net

open LaylaOS.Lib

/-- The socket of `Connect` when it calls `SendSegment`. -/
def TCPSocket.opening (s : TCPSocket) (dstIP : IPv4Address) (dstPort : Nat) : TCPSocket :=
  { s with remoteIP := dstIP, remotePort := dstPort, seq := 0xDEADBEEF, ack := 0, state := .synSent }

/-- `TCPSocket::Connect`. -/
def Host.tcpConnect (h : Host) (s : TCPSocket) (dstIP : IPv4Address) (dstPort : Nat) :
    Bool × TCPSocket × Host :=
  (true, h.sendSegment (s.opening dstIP dstPort) tcpSyn [])

/-- The sequence numbers that a segment takes. -/
def Segment.count (segment : Segment) : Nat :=
  segment.data.length + if hasFlag segment.flags tcpSyn ∨ hasFlag segment.flags tcpFin then 1 else 0

/-- A socket and the machine it is on. -/
structure TcpOwner where
  host : Host
  socket : TCPSocket

inductive OwnerEvent
  /-- `Connect(dst_ip, dst_port)`. -/
  | connect (dstIP : IPv4Address) (dstPort : Nat)
  /-- `Send(data, size)`. -/
  | send (data : List UInt8)
  /-- What ARP packets leave in the cache. -/
  | arp (cache : Fin 128 → ARPCacheEntry)

namespace TcpOwner

def call (w : TcpOwner) : OwnerEvent → Bool × TcpOwner
  | .connect dstIP dstPort =>
    let result := w.host.tcpConnect w.socket dstIP dstPort
    (result.1, ⟨result.2.2, result.2.1⟩)
  | .send data =>
    let result := w.host.tcpSend w.socket data
    (result.1, ⟨result.2.2, result.2.1⟩)
  | .arp cache => (true, { w with host := { w.host with arpCache := cache } })

def step (w : TcpOwner) (event : OwnerEvent) : TcpOwner := (w.call event).2

/-- The address that `IPv4Handler::Send` is called with, if it is called. -/
def destination (w : TcpOwner) : OwnerEvent → Option IPv4Address
  | .connect dstIP _ => some dstIP
  | .send _ => if w.socket.state = .established then some w.socket.remoteIP else none
  | .arp _ => none

/-- `IPv4Handler::Send` is called and fails. -/
def Fails (w : TcpOwner) (event : OwnerEvent) : Prop :=
  ∃ dstIP ∈ w.destination event, w.host.resolve dstIP = none

/-- A call that fails below returns false and leaves the connection as it was. -/
def Keeps (w : TcpOwner) (event : OwnerEvent) : Prop :=
  w.Fails event → (w.call event).1 = false ∧
    (w.step event).socket.state = w.socket.state ∧ (w.step event).socket.seq = w.socket.seq ∧
    (w.step event).socket.ack = w.socket.ack

/-- The frame carries the segment. -/
def Carries (h : Host) (frame : List UInt8) (segment : Segment) : Prop :=
  ∃ mac dstIP id, ethernetFrame mac h.mac 0x0800
    (ipv4Packet h.localIP dstIP 0x06 id (segment.encode h.localIP dstIP)) <+: frame

/-- The `seq` that a call starts with. -/
def startSeq (w : TcpOwner) : OwnerEvent → Nat
  | .connect _ _ => 0xDEADBEEF
  | _ => w.socket.seq

/-- `seq` has advanced by the segments that were handed to the driver. -/
def Accounts (w : TcpOwner) (event : OwnerEvent) : Prop :=
  ∃ frames segments, (w.step event).host.frames = w.host.frames ++ frames ∧
    List.Forall₂ (Carries w.host) frames segments ∧
    (w.step event).socket.seq ≡ w.startSeq event + (segments.map Segment.count).sum [MOD 2 ^ 32]

/-! ### One segment -/

section Segment

variable {h : Host} {s : TCPSocket} (flags : UInt8) (data : List UInt8)

theorem frameOf_carries (h : Host) (mac : MACAddress) (dstIP : IPv4Address) (segment : Segment) :
    Carries h (h.frameOf mac dstIP 0x06 (segment.encode h.localIP dstIP)) segment := by
  refine ⟨mac, dstIP, h.idCounter, ?_⟩
  let payload := segment.encode h.localIP dstIP
  let bytes := ethernetFrame mac h.mac 0x0800 (ipv4Packet h.localIP dstIP 0x06 h.idCounter payload)
  have length : bytes.length = 34 + payload.length := by
    rw [ethernetFrame_length, ipv4Packet_length]
    omega
  obtain ⟨padding, total⟩ := Nat.exists_eq_add_of_le (le_max_right 60 (34 + payload.length))
  show bytes <+: slice (blit _ 0 bytes) 0 (max 60 (34 + payload.length))
  rw [total, slice_add, ← length, slice_blit]
  exact List.prefix_append ..

theorem advance_seq (s : TCPSocket) (alone : hasFlag flags tcpSyn ∨ hasFlag flags tcpFin → data = []) :
    (s.advance flags data.length).seq ≡ s.seq + (s.segment flags data).count [MOD 2 ^ 32] := by
  by_cases control : hasFlag flags tcpSyn ∨ hasFlag flags tcpFin
  · have one : (s.segment flags data).count = 1 := by
      rw [alone control]
      exact congrArg (0 + ·) (if_pos control)
    rw [TCPSocket.advance, if_pos control, one]
    exact Nat.mod_modEq ..
  · have counted : (s.segment flags data).count = data.length := congrArg (data.length + ·) (if_neg control)
    rw [TCPSocket.advance, if_neg control, counted]
    exact Nat.mod_modEq ..

theorem sendSegment_carried (resolves : h.resolve s.remoteIP ≠ none) :
    ∃ frame, (h.sendSegment s flags data).2.frames = h.frames ++ [frame] ∧
      Carries h frame (s.segment flags data) := by
  obtain ⟨mac, found⟩ := Option.ne_none_iff_exists'.mp resolves
  exact ⟨_, (Host.sendSegment_of_resolves flags data found).1, frameOf_carries ..⟩

end Segment

/-! ### The calls -/

variable {w : TcpOwner} {event : OwnerEvent}

theorem step_send (w : TcpOwner) (data : List UInt8) : w.step (.send data) =
    ⟨(w.host.tcpSend w.socket data).2.2, (w.host.tcpSend w.socket data).2.1⟩ := rfl

theorem call_of_fails (fails : w.Fails event) : (w.call event).1 = true := by
  obtain ⟨dstIP, called, -⟩ := fails
  cases event with
  | connect dstIP dstPort => rfl
  | send data =>
    unfold destination at called
    split_ifs at called with established
    · show (w.host.tcpSend w.socket data).1 = true
      rw [Host.tcpSend, if_pos established]
    · cases called
  | arp cache => cases called

theorem keeps_iff : w.Keeps event ↔ ¬ w.Fails event := by
  constructor
  · intro keeps fails
    have returned := (keeps fails).1
    rw [call_of_fails fails] at returned
    cases returned
  · intro sent fails
    exact absurd fails sent

/-- **A call that does not fail below** counts what the driver is given. -/
theorem accounts_of_not_fails (sent : ¬ w.Fails event) : w.Accounts event := by
  cases event with
  | connect dstIP dstPort =>
    have resolves : w.host.resolve (w.socket.opening dstIP dstPort).remoteIP ≠ none :=
      fun unresolved => sent ⟨dstIP, rfl, unresolved⟩
    obtain ⟨frame, frames, carries⟩ := sendSegment_carried tcpSyn [] resolves
    refine ⟨[frame], _, frames, .cons carries .nil, ?_⟩
    rw [List.map_singleton, List.sum_singleton]
    exact advance_seq tcpSyn [] (w.socket.opening dstIP dstPort) fun _ => rfl
  | send data =>
    by_cases established : w.socket.state = .established
    · have stepped : w.step (.send data) = ⟨(w.host.sendSegment w.socket (tcpPsh ||| tcpAck) data).2,
            (w.host.sendSegment w.socket (tcpPsh ||| tcpAck) data).1⟩ := by
        rw [step_send, Host.tcpSend, if_pos established]
      have resolves : w.host.resolve w.socket.remoteIP ≠ none :=
        fun unresolved => sent ⟨_, if_pos established, unresolved⟩
      obtain ⟨frame, frames, carries⟩ := sendSegment_carried (tcpPsh ||| tcpAck) data resolves
      unfold Accounts
      rw [stepped]
      refine ⟨[frame], _, frames, .cons carries .nil, ?_⟩
      rw [List.map_singleton, List.sum_singleton]
      refine advance_seq _ data w.socket fun control => absurd control ?_
      decide
    · have stepped : w.step (.send data) = w := by
        rw [step_send, Host.tcpSend, if_neg established]
      unfold Accounts
      rw [stepped]
      exact ⟨[], [], (List.append_nil _).symm, .nil, rfl⟩
  | arp cache => exact ⟨[], [], (List.append_nil _).symm, .nil, rfl⟩

/-- **The calls of a run leave unsent segments out if and only if there are none.** -/
theorem unsent_iff (w : TcpOwner) (events : List OwnerEvent) :
    Always step (fun w event => w.Keeps event ∧ w.Accounts event) w events ↔
      Always step (fun w event => ¬ w.Fails event) w events := by
  refine Always.iff_of_invariant (fun _ => True) (fun w event _ => ?_) (fun _ _ _ _ => trivial) trivial
  constructor
  · rintro ⟨keeps, -⟩
    exact keeps_iff.mp keeps
  · intro sent
    exact ⟨keeps_iff.mpr sent, accounts_of_not_fails sent⟩

/-- `Connect` on a machine with an empty ARP cache. -/
theorem connect_unresolved : ¬ ∀ (w : TcpOwner) (events : List OwnerEvent),
    Always step (fun w event => w.Keeps event ∧ w.Accounts event) w events := by
  intro all
  let host : Host :=
    ⟨fun _ => 0, fun _ => 0, fun _ => ⟨fun _ => 0, fun _ => 0, false⟩, 0, 0, fun _ _ => 0, [], []⟩
  have fails : Fails ⟨host, TCPSocket.new 80⟩ (.connect ![10, 0, 2, 2] 80) := ⟨_, rfl, by decide +kernel⟩
  exact keeps_iff.mp (all ⟨host, TCPSocket.new 80⟩ [.connect ![10, 0, 2, 2] 80]).1.1 fails

end TcpOwner

end LaylaOS.Net
