/-
**The receive ring of the network card** (`RTL8139Driver::HandleReceive`).

The card writes every packet behind a header of four bytes, one after the other, each at a multiple of
four, and keeps its offset modulo 8192; a packet that begins before the end of the ring runs on behind
it. The driver keeps a 32-bit pointer that it never reduces, reads the header there, and tells the card
how far it got in `CAPR`, 16 less than the offset. The two run independently of each other: the card may
write between any two iterations of the loop, as long as it leaves alone what was not read.

* `ring_in_step` — every iteration reads the packet it is for, inside `rx_buffer`.
-/

import LaylaOS.Lib.Steps
import LaylaOS.Lib.Buffers
import LaylaOS.Net.Wire

namespace LaylaOS.Net

open LaylaOS.Lib

/-- `sizeof(rx_buffer)`. -/
def rxBufferSize : Nat := 8192 + 16 + 1500

/-! ### The card -/

/-- A packet that was received without an error, its checksum included. -/
structure Packet where
  status : Nat
  data : List UInt8
  word : status < 2 ^ 16
  received : status % 2 = 1
  long : 4 ≤ data.length
  short : data.length ≤ 1518

namespace Packet

/-- The header and the data. -/
def image (p : Packet) : List UInt8 := native16 p.status ++ native16 p.data.length ++ p.data

/-- `((w + L + 4 + 3) & ~3) mod 8192`. -/
def advance (offset : Nat) (p : Packet) : Nat := (offset + p.data.length + 4 + 3) / 4 * 4 % 8192

/-- Where the card goes on after some packets. -/
def offset (packets : List Packet) : Nat := packets.foldl advance 0

theorem image_length (p : Packet) : p.image.length = 4 + p.data.length := by
  simp [image, native16]
  omega

theorem offset_concat (packets : List Packet) (p : Packet) :
    offset (packets ++ [p]) = advance (offset packets) p := List.foldl_concat ..

theorem offset_le (packets : List Packet) : offset packets ≤ 8188 := by
  induction packets using List.reverseRecOn with
  | nil => exact Nat.zero_le _
  | append_singleton packets p _ =>
    rw [offset_concat, advance]
    omega

end Packet

/-! ### The driver -/

/-- A call of `Dispatch`, with the pointer counted from `rx_buffer`. -/
structure Dispatched where
  pointer : Nat
  bytes : List UInt8
  deriving DecidableEq

/-- What an iteration of the loop does: where it reads the header, what it hands on, and what it writes
to `CAPR`. -/
structure Iteration where
  entry : Nat
  dispatched : Option Dispatched
  capr : Nat
  deriving DecidableEq

/-- `(rx_read_ptr + length + 4 + 3) & ~3u`. -/
def nextReadPtr (rxReadPtr : UInt32) (length : Nat) : UInt32 :=
  (rxReadPtr + UInt32.ofNat length + 4 + 3) &&& ~~~3

/-- The buffer, the driver's pointer, the packets written so far and the iterations so far. -/
structure RxRing where
  rxBuffer : Storage
  rxReadPtr : UInt32
  written : List Packet
  iterations : List Iteration

namespace RxRing

/-- The constructor of the driver and the reset of the card; the buffer is not cleared. -/
def start (rxBuffer : Storage) : RxRing := ⟨rxBuffer, 0, [], []⟩

/-- The body of the loop in `HandleReceive`. -/
def iterate (s : RxRing) : RxRing :=
  let entry := (s.rxReadPtr % 8192).toNat
  let status := readLE s.rxBuffer entry 2
  let length := readLE s.rxBuffer (entry + 2) 2
  let dispatched := if status % 2 = 1 then
    some ⟨entry + 4, slice s.rxBuffer (entry + 4) ((length + 2 ^ 32 - 4) % 2 ^ 32)⟩ else none
  let rxReadPtr := nextReadPtr s.rxReadPtr length
  { s with
    rxReadPtr := rxReadPtr
    iterations := s.iterations ++ [⟨entry, dispatched, ((rxReadPtr - 16) % 8192).toNat % 2 ^ 16⟩] }

/-- The card writes a packet. -/
def write (s : RxRing) (p : Packet) : RxRing :=
  { s with
    rxBuffer := blit s.rxBuffer (Packet.offset s.written) p.image
    written := s.written ++ [p] }

inductive Event
  | write (p : Packet)
  | iterate

def step (s : RxRing) : Event → RxRing
  | .write p => s.write p
  | .iterate => s.iterate

/-- The packet with a number, at its offset. -/
def Unread (s : RxRing) (k : Nat) (p : Packet) : Prop :=
  s.iterations.length ≤ k ∧ s.written[k]? = some p

/-- The card spares what was not read, and the loop runs as long as the card says that there is
something to read. -/
def Feasible (s : RxRing) : Event → Prop
  | .write p => ∀ k q, s.Unread k q →
      Packet.offset (s.written.take k) + q.image.length ≤ Packet.offset s.written ∨
        Packet.offset s.written + p.image.length ≤ Packet.offset (s.written.take k)
  | .iterate => s.iterations.length < s.written.length

/-- The iteration for a packet between two offsets. -/
def iterationFor (here next : Nat) (p : Packet) : Iteration where
  entry := here
  dispatched := some ⟨here + 4, p.data.take (p.data.length - 4)⟩
  capr := (next + 8192 - 16) % 8192

/-- The `k`th iteration is the one for the `k`th packet. -/
def ReadAs (s : RxRing) (k : Nat) (p : Packet) : Prop :=
  s.iterations[k]? = some
    (iterationFor (Packet.offset (s.written.take k)) (Packet.offset (s.written.take (k + 1))) p)

/-! ### The pointer -/

theorem toNat_and_not_three (x : UInt32) : (x &&& ~~~3).toNat = x.toNat / 4 * 4 := by
  have mask : (~~~3 : UInt32).toNat = 2 ^ 2 * (2 ^ 30 - 1) := rfl
  have rounded : x.toNat / 4 * 4 = 2 ^ 2 * (x.toNat / 2 ^ 2) := Nat.mul_comm ..
  rw [UInt32.toNat_and, mask, rounded]
  refine Nat.eq_of_testBit_eq fun i => ?_
  rw [Nat.testBit_and, Nat.testBit_two_pow_mul, Nat.testBit_two_pow_mul, Nat.testBit_two_pow_sub_one,
    Nat.testBit_div_two_pow]
  by_cases low : 2 ≤ i
  · rw [Nat.sub_add_cancel low]
    by_cases high : i < 32
    · simp [low, show i - 2 < 30 by omega]
    · have zero : x.toNat.testBit i = false :=
        Nat.testBit_lt_two_pow (x.toNat_lt.trans_le (Nat.pow_le_pow_right (by decide) (by omega)))
      simp [zero]
  · simp [low]

/-- **The driver's pointer goes on as the card's offset does**, also where it wraps. -/
theorem nextReadPtr_mod (rxReadPtr : UInt32) (p : Packet) :
    (nextReadPtr rxReadPtr p.data.length).toNat % 8192 = p.advance (rxReadPtr.toNat % 8192) := by
  have bound := rxReadPtr.toNat_lt
  have short := p.short
  rw [nextReadPtr, toNat_and_not_three, UInt32.toNat_add, UInt32.toNat_add, UInt32.toNat_add,
    UInt32.toNat_ofNat', Packet.advance]
  simp only [UInt32.reduceToNat]
  omega

theorem capr_eq (rxReadPtr : UInt32) :
    ((rxReadPtr - 16) % 8192).toNat % 2 ^ 16 = (rxReadPtr.toNat % 8192 + 8192 - 16) % 8192 := by
  have bound := rxReadPtr.toNat_lt
  rw [UInt32.toNat_mod, UInt32.toNat_sub]
  simp only [UInt32.reduceToNat]
  omega

/-! ### One iteration -/

section Header

variable {rxBuffer : Storage} {here : Nat} {p : Packet} (holds : slice rxBuffer here p.image.length = p.image)

include holds

theorem holds_getD {k : Nat} (inside : k < p.image.length) : rxBuffer (here + k) = p.image.getD k 0 := by
  rw [← slice_getD rxBuffer here inside, holds]

theorem readLE_status : readLE rxBuffer here 2 = p.status := by
  have length := p.image_length
  have low : rxBuffer here = UInt8.ofNat p.status := holds_getD holds (k := 0) (by omega)
  have high : rxBuffer (here + 1) = UInt8.ofNat (p.status / 256) := holds_getD holds (k := 1) (by omega)
  have word := p.word
  simp only [readLE, low, high, UInt8.toNat_ofNat']
  omega

theorem readLE_length : readLE rxBuffer (here + 2) 2 = p.data.length := by
  have length := p.image_length
  have low : rxBuffer (here + 2) = UInt8.ofNat p.data.length := holds_getD holds (k := 2) (by omega)
  have high : rxBuffer (here + 2 + 1) = UInt8.ofNat (p.data.length / 256) :=
    holds_getD holds (k := 3) (by omega)
  have short := p.short
  simp only [readLE, low, high, UInt8.toNat_ofNat']
  omega

theorem slice_data : slice rxBuffer (here + 4) (p.data.length - 4) = p.data.take (p.data.length - 4) := by
  have inside : 4 + (p.data.length - 4) ≤ p.image.length := by
    rw [p.image_length]
    omega
  rw [← take_drop_slice rxBuffer here inside, holds]
  rfl

end Header

theorem iterate_eq {s : RxRing} {p : Packet} {here : Nat} (pointer : s.rxReadPtr.toNat % 8192 = here)
    (holds : slice s.rxBuffer here p.image.length = p.image) :
    s.iterate = { s with
      rxReadPtr := nextReadPtr s.rxReadPtr p.data.length
      iterations := s.iterations ++ [iterationFor here (p.advance here) p] } := by
  have entry : (s.rxReadPtr % 8192).toNat = here := (UInt32.toNat_mod ..).trans pointer
  have long := p.long
  have short := p.short
  have size : (p.data.length + 2 ^ 32 - 4) % 2 ^ 32 = p.data.length - 4 := by omega
  unfold iterate
  simp only [entry, readLE_status holds, readLE_length holds, if_pos p.received, size,
    slice_data holds, capr_eq, nextReadPtr_mod, pointer]
  rfl

/-! ### Card and driver -/

/-- The driver is at the first packet it has not read, the buffer holds all of those, and the
iterations so far were for the packets before. -/
structure InStep (s : RxRing) : Prop where
  behind : s.iterations.length ≤ s.written.length
  pointer : s.rxReadPtr.toNat % 8192 = Packet.offset (s.written.take s.iterations.length)
  holds : ∀ k p, s.Unread k p →
    slice s.rxBuffer (Packet.offset (s.written.take k)) p.image.length = p.image
  past : ∀ k p, k < s.iterations.length → s.written[k]? = some p → s.ReadAs k p

theorem start_inStep (rxBuffer : Storage) : (start rxBuffer).InStep where
  behind := le_rfl
  pointer := rfl
  holds := by
    rintro k p ⟨-, none⟩
    cases none
  past := by
    intro k p few
    cases few

theorem InStep.write {s : RxRing} (inStep : s.InStep) {p : Packet} (spared : s.Feasible (.write p)) :
    (s.write p).InStep := by
  have behind := inStep.behind
  have takes {k : Nat} (old : k ≤ s.written.length) : (s.written ++ [p]).take k = s.written.take k :=
    List.take_append_of_le_length old
  constructor
  case behind => exact behind.trans (by simp [RxRing.write])
  case pointer =>
    show _ = Packet.offset ((s.written ++ [p]).take s.iterations.length)
    rw [takes behind]
    exact inStep.pointer
  case holds =>
    rintro k q ⟨later, found⟩
    show slice (blit s.rxBuffer _ p.image) (Packet.offset ((s.written ++ [p]).take k)) _ = _
    by_cases last : k = s.written.length
    · obtain rfl : p = q := by simpa [RxRing.write, last] using found
      rw [last, List.take_left' rfl, slice_blit]
    · have old : k < s.written.length := by
        have inside := (List.getElem?_eq_some_iff.mp found).1
        rw [RxRing.write, List.length_append, List.length_singleton] at inside
        omega
      have unread : s.Unread k q := by
        refine ⟨later, ?_⟩
        rwa [RxRing.write, List.getElem?_append_left old] at found
      rw [takes old.le, ← inStep.holds k q unread, slice_length]
      refine slice_congr fun place bound => blit_outside ?_
      have apart := spared k q unread
      omega
  case past =>
    intro k q few found
    have old : k < s.written.length := few.trans_le behind
    rw [RxRing.write, List.getElem?_append_left old] at found
    show s.iterations[k]? = some (iterationFor (Packet.offset ((s.written ++ [p]).take k))
      (Packet.offset ((s.written ++ [p]).take (k + 1))) q)
    rw [takes old.le, takes old]
    exact inStep.past k q few found

theorem InStep.iterate {s : RxRing} (inStep : s.InStep) (more : s.Feasible .iterate) : s.iterate.InStep := by
  obtain ⟨p, found⟩ : ∃ p, s.written[s.iterations.length]? = some p := ⟨_, List.getElem?_eq_getElem more⟩
  have next : s.written.take (s.iterations.length + 1) = s.written.take s.iterations.length ++ [p] := by
    rw [List.take_add_one, found]
    rfl
  have read := iterate_eq inStep.pointer (inStep.holds _ p ⟨le_rfl, found⟩)
  rw [read]
  constructor
  case behind =>
    show (s.iterations ++ [_]).length ≤ _
    rw [List.length_append]
    exact more
  case pointer =>
    show (nextReadPtr s.rxReadPtr p.data.length).toNat % 8192 = _
    rw [nextReadPtr_mod, inStep.pointer, List.length_append, List.length_singleton, next, Packet.offset_concat]
  case holds =>
    rintro k q ⟨later, here⟩
    rw [List.length_append] at later
    exact inStep.holds k q ⟨by omega, here⟩
  case past =>
    intro k q few here
    rw [List.length_append, List.length_singleton] at few
    show (s.iterations ++ [_])[k]? = _
    by_cases last : k = s.iterations.length
    · subst last
      obtain rfl : p = q := Option.some.inj (found.symm.trans here)
      rw [List.getElem?_append_right le_rfl, Nat.sub_self, next, Packet.offset_concat]
      rfl
    · rw [List.getElem?_append_left (by omega)]
      exact inStep.past k q (by omega) here

/-- **The reader never drifts from the card.** In every run, however long, the `k`th iteration reads
the header at the offset of the `k`th packet, hands on its data without the checksum from inside
`rx_buffer`, and writes the next offset, less 16, to `CAPR`. -/
theorem ring_in_step (rxBuffer : Storage) (events : List Event)
    (feasible : Always step Feasible (start rxBuffer) events) :
    let s := events.foldl step (start rxBuffer)
    s.iterations.length ≤ s.written.length ∧
      ∀ k p, k < s.iterations.length → s.written[k]? = some p → s.ReadAs k p ∧
        Packet.offset (s.written.take k) + 4 + (p.data.length - 4) ≤ rxBufferSize := by
  intro s
  have keeps (s : RxRing) (event : Event) (inStep : s.InStep) (feasible : s.Feasible event) :
      (s.step event).InStep := by
    cases event with
    | write p => exact inStep.write feasible
    | iterate => exact inStep.iterate feasible
  have inStep : s.InStep := Always.invariant keeps (start_inStep rxBuffer) feasible
  refine ⟨inStep.behind, fun k p few found => ⟨inStep.past k p few found, ?_⟩⟩
  have here := Packet.offset_le (s.written.take k)
  have short := p.short
  unfold rxBufferSize
  omega

/-- A packet of two bytes and its checksum. -/
def tiny : Packet := ⟨1, [104, 105, 1, 2, 3, 4], by decide, by decide, by decide, by decide⟩

/-- Two such packets, both written before the first one is read, and the second iteration. -/
theorem ring_in_step_tiny : ([Event.write tiny, .write tiny, .iterate, .iterate].foldl step
      (start fun _ => 0)).iterations[1]? = some ⟨12, some ⟨16, [104, 105]⟩, 8⟩ := by
  have first : Feasible (start fun _ => 0) (.write tiny) := by
    rintro k q ⟨-, none⟩
    cases none
  have second : Feasible ((start fun _ => 0).write tiny) (.write tiny) := by
    rintro k q ⟨-, found⟩
    obtain ⟨rfl, rfl⟩ : k = 0 ∧ tiny = q := by
      rcases k with _ | k
      · exact ⟨rfl, Option.some.inj found⟩
      · cases found
    exact .inl (by decide)
  have third : Feasible (((start fun _ => 0).write tiny).write tiny) .iterate := by
    show 0 < 2
    decide
  have fourth : Feasible (((start fun _ => 0).write tiny).write tiny).iterate .iterate := by
    show 1 < 2
    decide
  obtain ⟨-, reads⟩ := ring_in_step (fun _ => 0) [.write tiny, .write tiny, .iterate, .iterate]
    ⟨first, second, third, fourth, trivial⟩
  exact (reads 1 tiny (show 1 < 2 by decide) rfl).1

end RxRing

end LaylaOS.Net
