/-
**Whose segments a TCP socket acts on.**

`HandleIPv4Payload` looks at the destination port of a segment, at its flags and its size. It does not
look at the address and the port that the segment comes from, nor at the number that a SYN-ACK
acknowledges.

* `foreign_unaffected_iff` — a foreign segment leaves the connection as it is exactly if it is one
  of those.
-/

import LaylaOS.Net.Tcp

namespace LaylaOS.Net

open LaylaOS.Lib

/-- The arguments of `HandleIPv4Payload`. -/
structure Arrival where
  payload : Storage
  size : Nat
  src : IPv4Address
  dst : IPv4Address
  protocol : UInt8

/-- The `src_port` of the header. -/
def Arrival.srcPort (a : Arrival) : Nat := ntohs (readLE a.payload 0 2)

/-- The `seq` of the SYN that `Connect` sends. -/
def initialSeq : Nat := 0xDEADBEEF

namespace TCPSocket

/-- `HandleIPv4Payload` with all its arguments, of which it uses the first two. -/
def handle (s : TCPSocket) (a : Arrival) : TCPSocket × List TcpEffect :=
  s.handleIPv4Payload a.payload a.size

/-- The segment is not from the peer, or does not answer the SYN. -/
def Foreign (s : TCPSocket) (a : Arrival) : Prop :=
  a.src ≠ s.remoteIP ∨ a.srcPort ≠ s.remotePort ∨
    s.state = .synSent ∧ (incoming a.payload a.size).ack ≠ (initialSeq + 1) % 2 ^ 32

/-- The connection is as it was, nothing is sent and no callback is made. -/
structure Unaffected (s : TCPSocket) (result : TCPSocket × List TcpEffect) : Prop where
  state : result.1.state = s.state
  seq : result.1.seq = s.seq
  ack : result.1.ack = s.ack
  silent : result.2 = []

/-- What each state leaves alone. -/
def Ignores (seg : Incoming) : TCPState → Prop
  | .synSent => ¬ (hasFlag seg.flags tcpSyn ∧ hasFlag seg.flags tcpAck)
  | .established => ¬ hasFlag seg.flags tcpFin ∧ seg.payloadSize = 0
  | .lastAck => ¬ hasFlag seg.flags tcpAck
  | .finWait1 => ¬ hasFlag seg.flags tcpAck
  | .finWait2 => ¬ hasFlag seg.flags tcpFin
  | _ => True

/-- The segment is too short, or for another port, or of no interest in this state. -/
def PassesOver (s : TCPSocket) (a : Arrival) : Prop :=
  a.size < 20 ∨ ntohs (readLE a.payload 2 2) ≠ s.localPort ∨
    Ignores (incoming a.payload a.size) s.state

theorem unaffected_self (s : TCPSocket) : s.Unaffected (s, []) := ⟨rfl, rfl, rfl, rfl⟩

theorem not_unaffected_of_effects {s t : TCPSocket} {effects : List TcpEffect}
    (acts : effects ≠ []) : ¬ s.Unaffected (t, effects) :=
  fun same => acts same.silent

/-- **The state machine** leaves the connection as it is exactly for what the state ignores. -/
theorem receive_unaffected_iff (s : TCPSocket) (seg : Incoming) :
    s.Unaffected (s.receive seg) ↔ Ignores seg s.state := by
  unfold receive
  cases state : s.state with
  | synSent =>
    simp only [onSynSent, Ignores]
    split_ifs with answer
    · refine iff_of_false (not_unaffected_of_effects ?_) (not_not.mpr answer)
      exact List.append_ne_nil_of_right_ne_nil _ (List.cons_ne_nil _ _)
    · exact iff_of_true s.unaffected_self answer
  | established =>
    simp only [onEstablished, Ignores]
    split_ifs with fin full
    · refine iff_of_false (not_unaffected_of_effects ?_) fun quiet => quiet.1 fin
      exact List.append_ne_nil_of_right_ne_nil _ (List.cons_ne_nil _ _)
    · refine iff_of_false (not_unaffected_of_effects ?_) fun quiet => Nat.ne_of_gt full quiet.2
      exact List.append_ne_nil_of_right_ne_nil _ (List.cons_ne_nil _ _)
    · exact iff_of_true s.unaffected_self ⟨fin, Nat.eq_zero_of_not_pos full⟩
  | lastAck =>
    simp only [onLastAck, Ignores]
    split_ifs with acks
    · exact iff_of_false (not_unaffected_of_effects (List.cons_ne_nil _ _)) (not_not.mpr acks)
    · exact iff_of_true s.unaffected_self acks
  | finWait1 =>
    simp only [onFinWait1, Ignores]
    split_ifs with acks
    · refine iff_of_false (fun same => ?_) (not_not.mpr acks)
      exact nomatch same.state.trans state
    · exact iff_of_true s.unaffected_self acks
  | finWait2 =>
    simp only [onFinWait2, Ignores]
    split_ifs with fin
    · refine iff_of_false (not_unaffected_of_effects ?_) (not_not.mpr fin)
      exact List.append_ne_nil_of_right_ne_nil _ (List.cons_ne_nil _ _)
    · exact iff_of_true s.unaffected_self fin
  | _ => exact iff_of_true s.unaffected_self trivial

theorem handle_unaffected_iff (s : TCPSocket) (a : Arrival) : s.Unaffected (s.handle a) ↔ s.PassesOver a := by
  unfold handle handleIPv4Payload PassesOver
  split_ifs with short other
  · exact iff_of_true s.unaffected_self (.inl short)
  · exact iff_of_true s.unaffected_self (.inr (.inl other))
  · rw [receive_unaffected_iff]
    simp only [short, other, false_or]

/-- **Foreign segments**, exactly: one leaves the connection as it is if and only if the socket
passes over every such segment, from the peer or not. -/
theorem foreign_unaffected_iff (s : TCPSocket) (a : Arrival) :
    (s.Foreign a → s.Unaffected (s.handle a)) ↔ (s.Foreign a → s.PassesOver a) :=
  forall_congr' fun _ => s.handle_unaffected_iff a

end TCPSocket

/-- A connection with `10.0.2.2`. -/
def toGateway : TCPSocket where
  localPort := 1234
  remotePort := 80
  remoteIP := ![10, 0, 2, 2]
  state := .established
  seq := 0xDEADBEF0
  ack := 1001

/-- A FIN for port 1234 from port 9 of `10.0.2.99`. -/
def strayFin : Arrival where
  payload := fun k =>
    ([0, 9, 4, 210, 0, 0, 0, 0, 0, 0, 0, 0, 0x50, 0x01, 0, 0, 0, 0, 0, 0] : List UInt8).getD k 0
  size := 20
  src := ![10, 0, 2, 99]
  dst := ![10, 0, 2, 15]
  protocol := 6

/-- **A third host ends a connection**: its FIN is acknowledged and answered by a FIN. -/
theorem third_host_ends_connection :
    ¬ ∀ (s : TCPSocket) (a : Arrival), s.Foreign a → s.Unaffected (s.handle a) := by
  intro claim
  have same := (claim toGateway strayFin (.inl (by decide))).state
  revert same
  decide

end LaylaOS.Net
