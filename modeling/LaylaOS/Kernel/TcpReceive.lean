/-
**Received data on its way to the reader** (`SyscallTCPSocket::OnReceive`, `sys_net_tcp_recv`).

The socket leaves what it receives in one slot, `tcp_rx_buf` with its length and a flag, and the
system call copies the slot into the shared page. `OnReceive` runs in an interrupt. The system call
gate is a trap gate, so interrupts are on while a call that did not have to wait copies: `OnReceive`
may come between any two steps of it.

* `received_conserved_iff` — a run conserves the data if and only if all of it fits.
-/

import LaylaOS.Kernel.NetSend

namespace LaylaOS.Kernel

open LaylaOS.Lib

/-- `tcp_rx_buf`, `tcp_rx_len` and `tcp_rx_ready`; the UDP socket has such a slot too. -/
structure RxSlot where
  buf : Storage
  len : Nat
  ready : Bool

/-- `sizeof(tcp_rx_buf)`. -/
def rxBufSize : Nat := 2048

namespace RxSlot

def empty : RxSlot := ⟨fun _ => 0, 0, false⟩

/-- `OnReceive`: the data overwrites what is there. -/
def onReceive (slot : RxSlot) (data : List UInt8) : RxSlot :=
  let copy := if data.length > rxBufSize then rxBufSize else data.length
  { buf := blit slot.buf 0 (data.take copy)
    len := copy
    ready := true }

/-- The `copy` of `sys_net_tcp_recv`. -/
def copy (slot : RxSlot) : Nat :=
  if slot.len > netBufMaxData.toNat then netBufMaxData.toNat else slot.len

/-- What is buffered. -/
def pending (slot : RxSlot) : List UInt8 := if slot.ready then slice slot.buf 0 slot.len else []

end RxSlot

/-- The shared page: `NET_BUF_STATUS`, `NET_BUF_DATA_LEN` and `NET_BUF_DATA`. -/
structure NetPage where
  status : Nat
  dataLen : Nat
  data : Storage

/-- How far a call of `sys_net_tcp_recv` has got. -/
inductive RecvPhase
  /-- No call is past its test of `tcp_rx_ready`. -/
  | idle
  /-- In the copy loop, with its `copy` and `i`. -/
  | copying (copy i : Nat)
  /-- Behind the stores to `NET_BUF_DATA_LEN` and `NET_BUF_STATUS`. -/
  | answered
  /-- Behind `tcp_rx_ready = false`. -/
  | cleared
  deriving DecidableEq

/-- The slot, the page and the call at work, with a record of what went in and came out. -/
structure TcpReader where
  slot : RxSlot
  page : NetPage
  phase : RecvPhase
  given : List UInt8
  returned : List UInt8

inductive TcpReaderEvent
  /-- `OnReceive(data, size)`. -/
  | onReceive (data : List UInt8)
  /-- The next step of `sys_net_tcp_recv`. -/
  | recv
  deriving DecidableEq

namespace TcpReader

def init (page : NetPage) : TcpReader := ⟨.empty, page, .idle, [], []⟩

/-- `sys_net_tcp_recv`, from the test of `tcp_rx_ready` behind the wait on. -/
def recv (s : TcpReader) : TcpReader :=
  match s.phase with
  | .idle =>
    if validateNetShared netBufMaxData && s.slot.ready then
      { s with phase := .copying s.slot.copy 0 }
    else { s with page := { s.page with status := 1, dataLen := 0 } }
  | .copying copy i =>
    if i < copy then
      { s with
        page := { s.page with data := Function.update s.page.data i (s.slot.buf i) }
        phase := .copying copy (i + 1) }
    else { s with page := { s.page with dataLen := copy, status := 0 }, phase := .answered }
  | .answered => { s with slot := { s.slot with ready := false }, phase := .cleared }
  | .cleared =>
    { s with
      slot := { s.slot with len := 0 }
      phase := .idle
      returned := s.returned ++ slice s.page.data 0 s.page.dataLen }

def step (s : TcpReader) : TcpReaderEvent → TcpReader
  | .onReceive data => { s with slot := s.slot.onReceive data, given := s.given ++ data }
  | .recv => s.recv

/-- Nothing is lost, duplicated or reordered. -/
def Conserved (s : TcpReader) : Prop := s.returned ++ s.slot.pending = s.given

/-- The data fits into an empty slot while no call is at work. -/
def Fits (s : TcpReader) : TcpReaderEvent → Prop
  | .onReceive data =>
    if s.phase = .idle then s.slot.pending = [] ∧ data.length ≤ rxBufSize else data = []
  | .recv => True

instance (s : TcpReader) : (event : TcpReaderEvent) → Decidable (s.Fits event)
  | .onReceive data => inferInstanceAs (Decidable
      (if s.phase = .idle then s.slot.pending = [] ∧ data.length ≤ rxBufSize else data = []))
  | .recv => isTrue trivial

/-! ### What the reader holds -/

/-- The received bytes that are not returned yet: those in the slot or, in the middle of a call,
those in the page and those still to be copied. -/
def held (s : TcpReader) : List UInt8 :=
  match s.phase with
  | .idle => s.slot.pending
  | .copying copy i => slice s.page.data 0 i ++ slice s.slot.buf i (copy - i)
  | .answered => slice s.page.data 0 s.page.dataLen
  | .cleared => slice s.page.data 0 s.page.dataLen

theorem held_idle {s : TcpReader} (idle : s.phase = .idle) : s.held = s.slot.pending := by
  rw [held, idle]

theorem held_copying {s : TcpReader} {copy i : Nat} (phase : s.phase = .copying copy i) :
    s.held = slice s.page.data 0 i ++ slice s.slot.buf i (copy - i) := by
  rw [held, phase]

theorem held_done {s : TcpReader} (phase : s.phase = .answered ∨ s.phase = .cleared) :
    s.held = slice s.page.data 0 s.page.dataLen := by
  rcases phase with phase | phase <;> rw [held, phase]

/-- The slot holds no more than its buffer, and the loop has not run past its bound. -/
structure Bounded (s : TcpReader) : Prop where
  len : s.slot.len ≤ rxBufSize
  loop : ∀ copy i, s.phase = .copying copy i → i ≤ copy

/-- Nothing has been lost. -/
structure Whole (s : TcpReader) : Prop extends Bounded s where
  same : s.returned ++ s.held = s.given

/-- Something has been lost. -/
structure Short (s : TcpReader) : Prop extends Bounded s where
  less : s.returned.length + s.held.length < s.given.length

theorem onReceive_len (slot : RxSlot) (data : List UInt8) :
    (slot.onReceive data).len = min data.length rxBufSize := by
  show (if data.length > rxBufSize then rxBufSize else data.length) = _
  split_ifs with large
  · exact (min_eq_right large.le).symm
  · exact (min_eq_left (Nat.le_of_not_lt large)).symm

theorem onReceive_pending (slot : RxSlot) (data : List UInt8) :
    (slot.onReceive data).pending = data.take rxBufSize := by
  have copied : (data.take (slot.onReceive data).len).length = (slot.onReceive data).len := by
    rw [List.length_take, onReceive_len, min_eq_left (min_le_left _ _)]
  have read := slice_blit slot.buf 0 (data.take (slot.onReceive data).len)
  rw [copied] at read
  refine read.trans ?_
  rw [onReceive_len, ← List.take_take]
  exact List.take_of_length_le (List.length_take_le' ..)

theorem Bounded.step {s : TcpReader} (bounded : s.Bounded) (event : TcpReaderEvent) :
    (s.step event).Bounded := by
  obtain ⟨len, loop⟩ := bounded
  cases event with
  | onReceive data =>
    refine ⟨?_, loop⟩
    show (s.slot.onReceive data).len ≤ rxBufSize
    rw [onReceive_len]
    exact min_le_right _ _
  | recv =>
    unfold TcpReader.step recv
    cases phase : s.phase with
    | idle =>
      dsimp only
      split_ifs
      · refine ⟨len, fun copy i same => ?_⟩
        cases same
        exact Nat.zero_le _
      · exact ⟨len, nofun⟩
    | copying copy i =>
      dsimp only
      split_ifs with inside
      · refine ⟨len, fun copy' i' same => ?_⟩
        cases same
        exact inside
      · exact ⟨len, nofun⟩
    | answered => exact ⟨len, nofun⟩
    | cleared => exact ⟨Nat.zero_le _, nofun⟩

/-- **A step of the call** moves bytes from the slot to the page and from there to the caller. -/
theorem recv_accounts {s : TcpReader} (bounded : s.Bounded) :
    s.recv.returned ++ s.recv.held = s.returned ++ s.held := by
  unfold recv
  cases phase : s.phase with
  | idle =>
    have valid : validateNetShared netBufMaxData = true := by decide
    simp only [valid, Bool.true_and]
    split_ifs with ready
    · have whole : s.slot.copy = s.slot.len :=
        if_neg (Nat.not_lt.mpr (bounded.len.trans (show 2048 ≤ 4088 by decide)))
      rw [held_idle phase, RxSlot.pending, if_pos ready, held_copying rfl, whole]
      rfl
    · rw [held_idle phase]
      rfl
  | copying copy i =>
    dsimp only
    rw [held_copying phase]
    split_ifs with inside
    · refine congrArg (s.returned ++ ·) ?_
      -- the byte moves from the second part to the first
      have moved : slice (Function.update s.page.data i (s.slot.buf i)) 0 (i + 1) =
          slice s.page.data 0 i ++ slice s.slot.buf i 1 := by
        rw [slice_add]
        refine congrArg₂ (· ++ ·) (slice_congr fun k low => ?_) ?_
        · rw [Nat.zero_add]
          exact Function.update_of_ne (Nat.ne_of_lt low) _ _
        · simp [slice]
      show slice _ 0 (i + 1) ++ slice s.slot.buf (i + 1) (copy - (i + 1)) = _
      rw [moved, List.append_assoc, ← slice_add, show 1 + (copy - (i + 1)) = copy - i by omega]
    · have done : i = copy := Nat.le_antisymm (bounded.loop copy i phase) (Nat.le_of_not_lt inside)
      rw [done, Nat.sub_self, held_done (.inl rfl)]
      simp [slice]
  | answered =>
    rw [held_done (.inl phase)]
    rfl
  | cleared =>
    rw [held_done (.inr phase)]
    simp [held, RxSlot.pending, slice]

theorem recv_given (s : TcpReader) : s.recv.given = s.given := by
  unfold recv
  split
  · split_ifs <;> rfl
  · split_ifs <;> rfl
  · rfl
  · rfl

/-! ### Received data -/

theorem held_onReceive_idle {s : TcpReader} (idle : s.phase = .idle) (data : List UInt8) :
    (s.step (.onReceive data)).held = data.take rxBufSize :=
  (held_idle (s := s.step (.onReceive data)) idle).trans (onReceive_pending s.slot data)

theorem held_onReceive_busy {s : TcpReader} (busy : s.phase ≠ .idle) (data : List UInt8) :
    (s.step (.onReceive data)).held.length = s.held.length ∧
      (data = [] → (s.step (.onReceive data)).held = s.held) := by
  cases phase : s.phase with
  | idle => exact absurd phase busy
  | copying copy i =>
    rw [held_copying phase, held_copying (s := s.step (.onReceive data)) phase]
    refine ⟨by simp, ?_⟩
    rintro rfl
    have unchanged : (s.slot.onReceive []).buf = s.slot.buf := by
      funext place
      show blit s.slot.buf 0 [] place = s.slot.buf place
      exact blit_outside (.inr (Nat.zero_le _))
    show _ ++ slice (s.slot.onReceive []).buf i (copy - i) = _
    rw [unchanged]
    rfl
  | answered =>
    rw [held_done (.inl phase), held_done (s := s.step (.onReceive data)) (.inl phase)]
    exact ⟨rfl, fun _ => rfl⟩
  | cleared =>
    rw [held_done (.inr phase), held_done (s := s.step (.onReceive data)) (.inr phase)]
    exact ⟨rfl, fun _ => rfl⟩

theorem Whole.step {s : TcpReader} (whole : s.Whole) {event : TcpReaderEvent} (fits : s.Fits event) :
    (s.step event).Whole := by
  refine ⟨whole.toBounded.step event, ?_⟩
  cases event with
  | recv => exact (recv_accounts whole.toBounded).trans (whole.same.trans s.recv_given.symm)
  | onReceive data =>
    unfold Fits at fits
    show s.returned ++ (s.step (.onReceive data)).held = s.given ++ data
    split_ifs at fits with idle
    · obtain ⟨none, small⟩ := fits
      have nothing : s.held = [] := (held_idle idle).trans none
      rw [held_onReceive_idle idle, List.take_of_length_le small, ← whole.same, nothing, List.append_nil]
    · rw [(held_onReceive_busy idle data).2 fits, fits, List.append_nil]
      exact whole.same

theorem Whole.breach {s : TcpReader} (whole : s.Whole) {event : TcpReaderEvent}
    (breach : ¬ s.Fits event) : (s.step event).Short := by
  refine ⟨whole.toBounded.step event, ?_⟩
  cases event with
  | recv => exact absurd trivial breach
  | onReceive data =>
    have total : s.returned.length + s.held.length = s.given.length := by
      rw [← whole.same, List.length_append]
    unfold Fits at breach
    show s.returned.length + (s.step (.onReceive data)).held.length < (s.given ++ data).length
    rw [List.length_append]
    split_ifs at breach with idle
    · rw [held_idle idle] at total
      rw [held_onReceive_idle idle, List.length_take]
      rcases not_and_or.mp breach with full | large
      · have some : 0 < s.slot.pending.length := List.length_pos_iff.mpr full
        omega
      · omega
    · have some : 0 < data.length := List.length_pos_iff.mpr breach
      rw [(held_onReceive_busy idle data).1]
      omega

theorem Short.step {s : TcpReader} (short : s.Short) (event : TcpReaderEvent) : (s.step event).Short := by
  refine ⟨short.toBounded.step event, ?_⟩
  have less := short.less
  cases event with
  | recv =>
    have accounts := congrArg List.length (recv_accounts short.toBounded)
    rw [List.length_append, List.length_append] at accounts
    show s.recv.returned.length + s.recv.held.length < s.recv.given.length
    rwa [accounts, recv_given]
  | onReceive data =>
    show s.returned.length + (s.step (.onReceive data)).held.length < (s.given ++ data).length
    rw [List.length_append]
    by_cases idle : s.phase = .idle
    · rw [held_onReceive_idle idle, List.length_take]
      omega
    · rw [(held_onReceive_busy idle data).1]
      omega

theorem init_whole (page : NetPage) : (init page).Whole := ⟨⟨Nat.zero_le _, nofun⟩, rfl⟩

/-- **Received data is conserved**, exactly: with no call at work at the end of a run, what the calls
returned and what is buffered is what was received if and only if all of it came when it fitted. -/
theorem received_conserved_iff (page : NetPage) (events : List TcpReaderEvent)
    (finished : (events.foldl step (init page)).phase = .idle) :
    (events.foldl step (init page)).Conserved ↔ Always step Fits (init page) events := by
  have idle := held_idle finished
  rcases Always.good_or_bad Whole Short (fun _ _ whole _ fits => whole.step fits)
    (fun _ _ whole _ breach => whole.breach breach) (fun _ event short => short.step event)
    (init_whole page) (Always.of_forall (fun _ _ => trivial) _ events) with ⟨always, whole⟩ | ⟨never, short⟩
  · refine iff_of_true ?_ always
    rw [Conserved, ← idle]
    exact whole.same
  · refine iff_of_false (fun conserved => ?_) never
    have lengths := congrArg List.length conserved
    rw [List.length_append, ← idle] at lengths
    exact absurd lengths (Nat.ne_of_lt short.less)

/-- One segment is read before the next one comes: the test, two bytes, and the three steps that are
left of the call. -/
def oneByOne : List TcpReaderEvent :=
  [.onReceive [7, 8], .recv, .recv, .recv, .recv, .recv, .recv, .onReceive [9]]

theorem received_conserved_one_by_one : Always step Fits (init ⟨0, 0, fun _ => 0⟩) oneByOne ∧
      (oneByOne.foldl step (init ⟨0, 0, fun _ => 0⟩)).Conserved := by
  have fits : Always step Fits (init ⟨0, 0, fun _ => 0⟩) oneByOne := by decide
  exact ⟨fits, (received_conserved_iff _ oneByOne rfl).mpr fits⟩

/-- **A second segment overwrites the first**, which has been acknowledged. -/
theorem second_segment_overwrites : ¬ ∀ (page : NetPage) (events : List TcpReaderEvent),
    (∀ data, .onReceive data ∈ events → data.length ≤ 8192) →
    (events.foldl step (init page)).phase = .idle → (events.foldl step (init page)).Conserved := by
  intro claim
  have conserved := claim ⟨0, 0, fun _ => 0⟩ [.onReceive [7], .onReceive [8]] (by simp) rfl
  revert conserved
  unfold Conserved
  decide

end TcpReader

end LaylaOS.Kernel
