/-
**The outgoing sequence numbers of a TCP socket.**

`SendSegment` advances `seq` by the size of the data, or by one behind a SYN or a FIN. It is called by
the owner of the socket and, in several states, by the receive path.

* `sequence_contiguous` — from the segment that makes the socket `TCP_ESTABLISHED` until the next
  `Connect`, what it sends is contiguous.
-/

import LaylaOS.Net.Tcp

namespace LaylaOS.Net

open LaylaOS.Lib

/-- The sequence number behind a segment. -/
def Segment.next (segment : Segment) : Nat :=
  (segment.seqNum + segment.data.length + if hasFlag segment.flags tcpFin then 1 else 0) % 2 ^ 32

/-- The segments tile the sequence space with the given payloads, and end with the FIN. -/
structure Contiguous (segments : List Segment) (given : List (List UInt8)) : Prop where
  chain : segments.IsChain fun segment following => following.seqNum = segment.next
  inOrder : (segments.map Segment.data).filter (· ≠ []) = given.filter (· ≠ [])
  oneFin : segments.countP (fun segment => hasFlag segment.flags tcpFin) ≤ 1
  noDataBehind : segments.Pairwise fun segment later =>
    hasFlag segment.flags tcpFin → later.data = []

/-- A call of the owner between two `Connect` calls, or the arrival of any bytes. -/
inductive TcpCall
  | send (data : List UInt8)
  | close
  | handleIPv4Payload (payload : Storage) (size : Nat)

namespace TCPSocket

def call (s : TCPSocket) : TcpCall → TCPSocket × List TcpEffect
  | .send data => (s.send data).2
  | .close => s.close
  | .handleIPv4Payload payload size => s.handleIPv4Payload payload size

/-- The segments that a run of calls sends. -/
def emitted : TCPSocket → List TcpCall → List Segment
  | _, [] => []
  | s, call :: calls => sent (s.call call).2 ++ emitted (s.call call).1 calls

/-- The data of a `Send` call that returns true. -/
def takes (s : TCPSocket) : TcpCall → List (List UInt8)
  | .send data => if (s.send data).1 then [data] else []
  | _ => []

/-- The data of the `Send` calls of a run that return true. -/
def accepted : TCPSocket → List TcpCall → List (List UInt8)
  | _, [] => []
  | s, call :: calls => s.takes call ++ accepted (s.call call).1 calls

/-! ### One call -/

/-- The segments begin at one sequence number, each where the one before it ends, and end at the
other. -/
def Follows : Nat → List Segment → Nat → Prop
  | start, [], stop => stop = start
  | start, segment :: rest, stop => segment.seqNum = start ∧ Follows segment.next rest stop

theorem Follows.append {start middle stop : Nat} {first second : List Segment}
    (left : Follows start first middle) (right : Follows middle second stop) :
    Follows start (first ++ second) stop := by
  induction first generalizing start with
  | nil =>
    rw [Follows] at left
    rwa [left] at right
  | cons segment first ih => exact ⟨left.1, ih left.2⟩

theorem Follows.isChain {start stop : Nat} {segments : List Segment} (follows : Follows start segments stop) :
    segments.IsChain fun segment following => following.seqNum = segment.next := by
  induction segments generalizing start with
  | nil => exact .nil
  | cons segment rest ih =>
    cases rest with
    | nil => exact .singleton _
    | cons following rest => exact .cons_cons follows.2.1 (ih follows.2)

theorem sendSegment_follows (s : TCPSocket) {flags : UInt8} {data : List UInt8}
    (noSyn : ¬ hasFlag flags tcpSyn) (fits : hasFlag flags tcpFin → data = []) :
    Follows s.seq (sent (s.sendSegment flags data).2) (s.sendSegment flags data).1.seq := by
  refine ⟨rfl, ?_⟩
  show (s.advance flags data.length).seq = (s.segment flags data).next
  unfold advance Segment.next
  by_cases fin : hasFlag flags tcpFin
  · rw [if_pos (.inr fin), fits fin]
    show _ = (s.seq + 0 + if hasFlag flags tcpFin then 1 else 0) % 2 ^ 32
    rw [if_pos fin, Nat.add_zero]
  · rw [if_neg (not_or.mpr ⟨noSyn, fin⟩)]
    show _ = (s.seq + data.length + if hasFlag flags tcpFin then 1 else 0) % 2 ^ 32
    rw [if_neg fin, Nat.add_zero]

theorem sendAck_follows (s : TCPSocket) :
    Follows s.seq (sent (s.sendSegment tcpAck []).2) (s.sendSegment tcpAck []).1.seq :=
  s.sendSegment_follows (by decide) fun _ => rfl

theorem sendFin_follows (s : TCPSocket) : Follows s.seq (sent (s.sendSegment (tcpFin ||| tcpAck) []).2)
      (s.sendSegment (tcpFin ||| tcpAck) []).1.seq :=
  s.sendSegment_follows (by decide) fun _ => rfl

/-- **What a call sends follows on.** Only a SYN-ACK that comes in answer to `Connect` resets
`seq`. -/
theorem receive_follows (s : TCPSocket) (seg : Incoming) (connected : s.state ≠ .synSent) :
    Follows s.seq (sent (s.receive seg).2) (s.receive seg).1.seq := by
  unfold receive
  split
  · exact absurd ‹_› connected
  · unfold onEstablished
    split_ifs
    · unfold onFin
      dsimp only
      rw [sent_append]
      exact (sendAck_follows { s with ack := (seg.seq + 1) % 2 ^ 32 }).append (sendFin_follows _)
    · unfold onData
      dsimp only
      rw [sent_append, show sent [TcpEffect.onReceive _] = [] from rfl, List.append_nil]
      exact sendAck_follows _
    · exact rfl
  · unfold onLastAck
    split_ifs <;> exact rfl
  · unfold onFinWait1
    split_ifs <;> exact rfl
  · unfold onFinWait2
    split_ifs
    · dsimp only
      rw [sent_append, show sent [TcpEffect.onClosed] = [] from rfl, List.append_nil]
      exact sendAck_follows _
    · exact rfl
  · exact rfl

theorem call_follows (s : TCPSocket) (call : TcpCall) (connected : s.state ≠ .synSent) :
    Follows s.seq (sent (s.call call).2) (s.call call).1.seq := by
  cases call with
  | send data =>
    simp only [TCPSocket.call, send]
    split_ifs
    · exact s.sendSegment_follows (by decide) fun fin => absurd fin (by decide)
    · exact rfl
  | close =>
    simp only [TCPSocket.call, close]
    split_ifs
    · exact sendFin_follows _
    · exact rfl
  | handleIPv4Payload payload size =>
    simp only [TCPSocket.call, handleIPv4Payload]
    split_ifs
    · exact rfl
    · exact rfl
    · exact s.receive_follows _ connected

/-- The connection is over for the sender. -/
def Finished (s : TCPSocket) : Prop := s.state ≠ .established ∧ s.state ≠ .synSent

/-- A segment without data and without FIN. -/
def Bare (segment : Segment) : Prop := ¬ hasFlag segment.flags tcpFin ∧ segment.data = []

theorem bare_ack (s : TCPSocket) : ∀ segment ∈ sent (s.sendSegment tcpAck []).2, Bare segment := by
  intro segment member
  rw [List.mem_singleton.mp member]
  exact ⟨show ¬ hasFlag tcpAck tcpFin by decide, rfl⟩

/-- **When the connection is over**, a call sends bare acknowledgements only. -/
theorem call_finished {s : TCPSocket} (finished : s.Finished) (call : TcpCall) :
    (s.call call).1.Finished ∧ (∀ segment ∈ sent (s.call call).2, Bare segment) ∧ s.takes call = [] := by
  obtain ⟨closed, connected⟩ := finished
  cases call with
  | send data =>
    simp only [TCPSocket.call, takes, send, if_neg closed]
    exact ⟨⟨closed, connected⟩, nofun, rfl⟩
  | close =>
    simp only [TCPSocket.call, close, if_neg closed]
    exact ⟨⟨closed, connected⟩, nofun, rfl⟩
  | handleIPv4Payload payload size =>
    refine and_assoc.mp ⟨?_, rfl⟩
    simp only [TCPSocket.call, handleIPv4Payload]
    split_ifs
    · exact ⟨⟨closed, connected⟩, nofun⟩
    · exact ⟨⟨closed, connected⟩, nofun⟩
    · unfold receive
      split
      · exact absurd ‹_› connected
      · exact absurd ‹_› closed
      · unfold onLastAck
        split_ifs
        · exact ⟨⟨nofun, nofun⟩, nofun⟩
        · exact ⟨⟨closed, connected⟩, nofun⟩
      · unfold onFinWait1
        split_ifs
        · exact ⟨⟨nofun, nofun⟩, nofun⟩
        · exact ⟨⟨closed, connected⟩, nofun⟩
      · unfold onFinWait2
        split_ifs
        · exact ⟨⟨nofun, nofun⟩, bare_ack _⟩
        · exact ⟨⟨closed, connected⟩, nofun⟩
      · exact ⟨⟨closed, connected⟩, nofun⟩

/-- A FIN is followed by bare segments only. -/
def FinLast (segment later : Segment) : Prop := hasFlag segment.flags tcpFin → Bare later

/-- The data that fills the sequence space. -/
def payloads (data : List (List UInt8)) : List (List UInt8) := data.filter (· ≠ [])

theorem payloads_append (first second : List (List UInt8)) :
    payloads (first ++ second) = payloads first ++ payloads second := List.filter_append ..

theorem payloads_bare {segments : List Segment} (bare : ∀ segment ∈ segments, Bare segment) :
    payloads (segments.map Segment.data) = [] := by
  refine List.filter_eq_nil_iff.mpr fun data member => ?_
  obtain ⟨segment, inside, rfl⟩ := List.mem_map.mp member
  simp [(bare segment inside).2]

/-- One call in an established connection. -/
structure OpenCall (t : TCPSocket) (segments : List Segment) (taken : List (List UInt8)) : Prop where
  finLast : segments.Pairwise FinLast
  data : payloads (segments.map Segment.data) = payloads taken
  next : (t.state = .established ∧ ∀ segment ∈ segments, ¬ hasFlag segment.flags tcpFin) ∨ t.Finished

theorem finLast_of_bare {segments : List Segment} (bare : ∀ segment ∈ segments, Bare segment) :
    segments.Pairwise FinLast :=
  List.pairwise_of_forall_mem_list fun _ _ later member _ => bare later member

theorem OpenCall.bare {t : TCPSocket} {segments : List Segment} (still : t.state = .established)
    (bare : ∀ segment ∈ segments, Bare segment) : OpenCall t segments [] where
  finLast := finLast_of_bare bare
  data := payloads_bare bare
  next := .inl ⟨still, fun segment member => (bare segment member).1⟩

/-- **In an established connection** a call sends no FIN, or it ends the connection with one. -/
theorem receive_open {s : TCPSocket} (established : s.state = .established) (seg : Incoming) :
    OpenCall (s.receive seg).1 (sent (s.receive seg).2) [] := by
  unfold receive
  rw [established]
  simp only [onEstablished]
  split_ifs
  · refine ⟨?_, rfl, .inr ⟨nofun, nofun⟩⟩
    -- the acknowledgement is in front of the FIN
    refine List.pairwise_cons.mpr ⟨fun _ _ fin => absurd fin ?_, List.pairwise_singleton ..⟩
    exact (bare_ack _ _ (List.mem_singleton_self _)).1
  · exact .bare ((advance_state ..).trans established) (bare_ack _)
  · exact .bare established (List.forall_mem_nil _)

theorem call_open {s : TCPSocket} (established : s.state = .established) (call : TcpCall) :
    OpenCall (s.call call).1 (sent (s.call call).2) (s.takes call) := by
  cases call with
  | send data =>
    simp only [TCPSocket.call, takes, send, if_pos established]
    have noFin : ¬ hasFlag (tcpPsh ||| tcpAck) tcpFin := by decide
    refine ⟨List.pairwise_singleton .., rfl, .inl ⟨(advance_state ..).trans established, ?_⟩⟩
    intro segment member
    rw [List.mem_singleton.mp member]
    exact noFin
  | close =>
    simp only [TCPSocket.call, takes, close, if_pos established]
    exact ⟨List.pairwise_singleton .., rfl, .inr (by simp [Finished, sendSegment])⟩
  | handleIPv4Payload payload size =>
    simp only [TCPSocket.call, takes, handleIPv4Payload]
    split_ifs
    · exact .bare established (List.forall_mem_nil _)
    · exact .bare established (List.forall_mem_nil _)
    · exact receive_open established _

/-! ### Runs -/

theorem emitted_finished {s : TCPSocket} (finished : s.Finished) (calls : List TcpCall) :
    (∀ segment ∈ s.emitted calls, Bare segment) ∧ s.accepted calls = [] := by
  induction calls generalizing s with
  | nil => exact ⟨nofun, rfl⟩
  | cons call calls ih =>
    obtain ⟨next, bare, none⟩ := call_finished finished call
    obtain ⟨later, nothing⟩ := ih next
    refine ⟨?_, by rw [accepted, none, nothing, List.append_nil]⟩
    intro segment member
    rcases List.mem_append.mp member with now | then_
    · exact bare segment now
    · exact later segment then_

theorem emitted_follows {s : TCPSocket} (connected : s.state ≠ .synSent) (calls : List TcpCall) :
    ∃ stop, Follows s.seq (s.emitted calls) stop := by
  induction calls generalizing s with
  | nil => exact ⟨s.seq, rfl⟩
  | cons call calls ih =>
    have next : (s.call call).1.state ≠ .synSent := by
      by_cases established : s.state = .established
      · rcases (call_open established call).next with ⟨still, -⟩ | finished
        · rw [still]
          exact nofun
        · exact finished.2
      · exact (call_finished ⟨established, connected⟩ call).1.2
    obtain ⟨stop, rest⟩ := ih next
    exact ⟨stop, (call_follows s call connected).append rest⟩

/-- **A run of an established connection** sends what it is given, with nothing behind the FIN. -/
theorem emitted_open {s : TCPSocket} (established : s.state = .established) (calls : List TcpCall) :
    (s.emitted calls).Pairwise FinLast ∧
      payloads ((s.emitted calls).map Segment.data) = payloads (s.accepted calls) := by
  induction calls generalizing s with
  | nil => exact ⟨.nil, rfl⟩
  | cons call calls ih =>
    obtain ⟨finLast, data, next⟩ := call_open established call
    rw [emitted, accepted, List.pairwise_append, List.map_append, payloads_append, payloads_append, data]
    rcases next with ⟨still, noFin⟩ | finished
    · obtain ⟨rest, given⟩ := ih still
      exact ⟨⟨finLast, rest, fun segment member _ _ fin => absurd fin (noFin segment member)⟩,
        by rw [given]⟩
    · obtain ⟨bare, nothing⟩ := emitted_finished finished calls
      refine ⟨⟨finLast, finLast_of_bare bare, fun _ _ later member _ => bare later member⟩, ?_⟩
      rw [payloads_bare bare, nothing]
      rfl

end TCPSocket

theorem contiguous_of {segments : List Segment} {given : List (List UInt8)}
    (chain : segments.IsChain fun segment following => following.seqNum = segment.next)
    (inOrder : TCPSocket.payloads (segments.map Segment.data) = TCPSocket.payloads given)
    (finLast : segments.Pairwise TCPSocket.FinLast) : Contiguous segments given where
  chain := chain
  inOrder := inOrder
  oneFin := by
    clear chain inOrder
    induction segments with
    | nil => exact Nat.zero_le 1
    | cons segment rest ih =>
      obtain ⟨first, later⟩ := List.pairwise_cons.mp finLast
      by_cases fin : hasFlag segment.flags tcpFin
      · have none : rest.countP (fun segment => hasFlag segment.flags tcpFin) = 0 := by
          refine List.countP_eq_zero.mpr fun later member => ?_
          simpa using (first later member fin).1
        simp [fin, none]
      · simpa [fin] using ih later
  noDataBehind := finLast.imp fun last fin => (last fin).2

/-- Only a SYN-ACK in `TCP_SYN_SENT` makes a socket established: it is answered by one
acknowledgement, which carries the number that `seq` is set to. -/
theorem TCPSocket.enters_established {s : TCPSocket} {payload : Storage} {size : Nat}
    (before : s.state ≠ .established)
    (enters : (s.handleIPv4Payload payload size).1.state = .established) :
    (∀ segment ∈ sent (s.handleIPv4Payload payload size).2, TCPSocket.Bare segment) ∧
      ∃ start, TCPSocket.Follows start (sent (s.handleIPv4Payload payload size).2)
        (s.handleIPv4Payload payload size).1.seq := by
  by_cases waiting : s.state = .synSent
  · unfold handleIPv4Payload receive at enters ⊢
    simp only [waiting, onSynSent] at enters ⊢
    split_ifs at enters ⊢
    · exact absurd enters (by rw [waiting]; exact nofun)
    · exact absurd enters (by rw [waiting]; exact nofun)
    · dsimp only
      rw [sent_append, show sent [TcpEffect.onConnected] = [] from rfl, List.append_nil]
      exact ⟨bare_ack _, _, sendAck_follows _⟩
    · exact absurd enters (by rw [waiting]; exact nofun)
  · exact absurd enters (call_finished ⟨before, waiting⟩ (.handleIPv4Payload payload size)).1.1

/-- **The outgoing sequence space is contiguous**, from the segment that makes the socket established
on. -/
theorem sequence_contiguous (s : TCPSocket) (payload : Storage) (size : Nat) (calls : List TcpCall)
    (before : s.state ≠ .established)
    (enters : (s.handleIPv4Payload payload size).1.state = .established) :
    Contiguous (s.emitted (.handleIPv4Payload payload size :: calls))
      (s.accepted (.handleIPv4Payload payload size :: calls)) := by
  obtain ⟨bare, start, follows⟩ := TCPSocket.enters_established before enters
  obtain ⟨finLast, data⟩ := TCPSocket.emitted_open enters calls
  obtain ⟨stop, rest⟩ := TCPSocket.emitted_follows (by rw [enters]; exact nofun) calls
  refine contiguous_of (follows.append rest).isChain ?_ ?_
  · show TCPSocket.payloads ((sent (s.handleIPv4Payload payload size).2 ++ _).map Segment.data) = _
    rw [List.map_append, TCPSocket.payloads_append, TCPSocket.payloads_bare bare]
    exact data
  · refine List.pairwise_append.mpr ⟨TCPSocket.finLast_of_bare bare, finLast, ?_⟩
    exact fun segment member _ _ fin => absurd fin (bare segment member).1

/-- A socket that has sent its SYN from port 49152. -/
def synSent : TCPSocket := ((TCPSocket.new 49152).connect ![10, 0, 2, 2] 80).2.1

/-- The answer: SYN and ACK, numbered 1000, acknowledging the SYN. -/
def synAck : List UInt8 :=
  [0, 80, 192, 0, 0, 0, 3, 232, 0xDE, 0xAD, 0xBE, 0xF0, 0x50, 0x12, 32, 0, 0, 0, 0, 0]

theorem sequence_contiguous_three_bytes :
    let calls := [.handleIPv4Payload (fun k => synAck.getD k 0) 20, .send [1, 2], .send [3], .close]
    (synSent.emitted calls).map Segment.seqNum = [0xDEADBEF0, 0xDEADBEF0, 0xDEADBEF2, 0xDEADBEF3] ∧
      Contiguous (synSent.emitted calls) (synSent.accepted calls) :=
  ⟨by decide, sequence_contiguous synSent _ _ _ (by decide) (by decide)⟩

end LaylaOS.Net
