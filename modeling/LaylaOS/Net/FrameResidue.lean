/-
**What stands behind a short frame.**

`RTL8139Driver::Send` hands at least 60 bytes to the NIC and stores `14 + size` of them. The rest is
what the transmit buffer held before: bytes of a frame that was sent four, eight, ... calls ago.

* `frames_independent_iff` — the frames that no earlier traffic can change.
-/

import LaylaOS.Net.Transmit

namespace LaylaOS.Net

open LaylaOS.Lib

/-- The arguments of a call of `RTL8139Driver::Send`, with a payload that fits an Ethernet frame. -/
structure Transmission where
  dst : MACAddress
  ethertype : Nat
  payload : List UInt8
  fits : payload.length ≤ 1500

namespace Host

variable (h : Host) (t : Transmission)

/-- The driver after a call. -/
def transmit : Host := (h.nicSend t.dst t.ethertype t.payload).2

/-- The bytes that a call hands to the NIC. -/
def frameFor : List UInt8 := ((h.transmit t).frames.getLast?).getD []

@[simp] theorem transmit_mac : (h.transmit t).mac = h.mac := by
  simp only [transmit, nicSend, store_mac]

@[simp] theorem transmit_txCurrent : (h.transmit t).txCurrent = h.txCurrent + 1 := by
  simp only [transmit, nicSend, store_txCurrent]

theorem transmit_buffers : (h.transmit t).buffers = Function.update h.buffers (.nic h.txCurrent)
    (blit (h.buffers (.nic h.txCurrent)) 0 (ethernetFrame t.dst h.mac t.ethertype t.payload)) := by
  simp only [transmit, nicSend, store, Function.update_self, Function.update_idem]
  rw [blit_next (by simp), blit_next (by simp), blit_next (by simp), blit_next (by simp)]
  simp [ethernetFrame, bytes16]

theorem frameFor_slice : h.frameFor t =
    slice (blit (h.buffers (.nic h.txCurrent)) 0 (ethernetFrame t.dst h.mac t.ethertype t.payload)) 0
      (max 60 (14 + t.payload.length)) := by
  rw [frameFor, transmit, nicSend_frames, List.getLast?_concat]
  rfl

/-- **A frame is its header, its payload and the residue** of the transmit buffer. -/
theorem frameFor_eq : h.frameFor t = ethernetFrame t.dst h.mac t.ethertype t.payload ++
    slice (h.buffers (.nic h.txCurrent)) (14 + t.payload.length) (46 - t.payload.length) := by
  have length := ethernetFrame_length t.dst h.mac t.ethertype t.payload
  have total : max 60 (14 + t.payload.length) =
      (ethernetFrame t.dst h.mac t.ethertype t.payload).length + (46 - t.payload.length) := by
    omega
  rw [frameFor_slice, total, slice_add, slice_blit, Nat.zero_add, length]
  congr 1
  exact slice_congr fun k _ => blit_outside (.inr (by omega))

theorem history_mac (history : List Transmission) : (history.foldl transmit h).mac = h.mac := by
  induction history generalizing h with
  | nil => rfl
  | cons t history ih => rw [List.foldl_cons, ih, transmit_mac]

theorem four_calls (first second third fourth : Transmission) :
    let later := [first, second, third, fourth].foldl transmit h
    later.txCurrent = h.txCurrent ∧ later.buffers (.nic h.txCurrent) = blit (h.buffers (.nic h.txCurrent)) 0
        (ethernetFrame first.dst h.mac first.ethertype first.payload) := by
  have rotates : ∀ slot : Fin 4, slot + 1 + 1 + 1 + 1 = slot ∧ slot ≠ slot + 1 ∧
      slot ≠ slot + 1 + 1 ∧ slot ≠ slot + 1 + 1 + 1 := by decide
  obtain ⟨round, one, two, three⟩ := rotates h.txCurrent
  simp only [List.foldl_cons, List.foldl_nil, transmit_buffers, transmit_txCurrent]
  refine ⟨round, ?_⟩
  have apart {slot : Fin 4} (ne : h.txCurrent ≠ slot) : Buffer.nic h.txCurrent ≠ .nic slot :=
    fun same => ne (Buffer.nic.inj same)
  rw [Function.update_of_ne (apart three), Function.update_of_ne (apart two),
    Function.update_of_ne (apart one), Function.update_self]

/-- A full frame whose last byte is not the one in the transmit buffer. -/
def loud : Transmission where
  dst := fun _ => 0xFF
  ethertype := 0
  payload := List.replicate 46 (h.buffers (.nic h.txCurrent) 59 + 1)
  fits := by rw [List.length_replicate]; decide

theorem short_leaks (short : t.payload.length < 46) :
    ([h.loud, t, t, t].foldl transmit h).frameFor t ≠ h.frameFor t := by
  intro same
  obtain ⟨round, stored⟩ := h.four_calls h.loud t t t
  have last : ∀ g : Host, (g.frameFor t).getD 59 0 = g.buffers (.nic g.txCurrent) 59 := by
    intro g
    have length := ethernetFrame_length t.dst g.mac t.ethertype t.payload
    rw [frameFor_slice, slice_getD _ _ (by omega), Nat.zero_add, blit_outside (.inr (by omega))]
  have size : h.loud.payload.length = 46 := List.length_replicate
  have byte : (ethernetFrame h.loud.dst h.mac h.loud.ethertype h.loud.payload).getD 59 0 =
      h.buffers (.nic h.txCurrent) 59 + 1 := by
    simp [ethernetFrame, bytes16, loud]
  have changed := last ([h.loud, t, t, t].foldl transmit h)
  rw [round, stored, blit_start (by rw [ethernetFrame_length, size]; decide), byte, same, last] at changed
  have value := congrArg UInt8.toNat changed
  rw [UInt8.toNat_add, UInt8.toNat_one] at value
  omega

/-- **Which frames no earlier traffic can change**: those with a payload of at least 46 bytes. They
are the header and the payload. -/
theorem frames_independent_iff : ((∀ first second : List Transmission, (first.foldl transmit h).frameFor t =
        (second.foldl transmit h).frameFor t) ↔ 46 ≤ t.payload.length) ∧
      (46 ≤ t.payload.length → ∀ history : List Transmission,
        (history.foldl transmit h).frameFor t = ethernetFrame t.dst h.mac t.ethertype t.payload) := by
  have full : 46 ≤ t.payload.length → ∀ history : List Transmission,
      (history.foldl transmit h).frameFor t = ethernetFrame t.dst h.mac t.ethertype t.payload := by
    intro long history
    rw [frameFor_eq, history_mac, Nat.sub_eq_zero_of_le long]
    exact List.append_nil _
  refine ⟨⟨fun independent => ?_, fun long first second => ?_⟩, full⟩
  · by_contra short
    exact h.short_leaks t (Nat.lt_of_not_le short) (independent _ [])
  · rw [full long first, full long second]

/-- A machine after boot: the static buffers are zero. -/
def booted : Host where
  mac := ![0x52, 0x54, 0, 0x12, 0x34, 0x56]
  localIP := ![10, 0, 2, 15]
  arpCache := fun _ => ⟨![0, 0, 0, 0], ![0, 0, 0, 0, 0, 0], false⟩
  idCounter := 0
  txCurrent := ⟨0, by decide⟩
  buffers := fun _ _ => 0
  writes := []
  frames := []

/-- A call with a payload of two bytes. -/
def hello : Transmission := ⟨fun _ => 0xFF, 0x0800, [104, 105], by decide⟩

/-- A call with the least payload that fills a frame. -/
def full : Transmission := ⟨fun _ => 0xFF, 0x0800, List.replicate 46 7, by decide⟩

theorem frames_independent_full : 46 ≤ full.payload.length ∧ ([hello].foldl transmit booted).frameFor full =
      ethernetFrame full.dst booted.mac full.ethertype full.payload :=
  ⟨by decide, (frames_independent_iff booted full).2 (by decide) [hello]⟩

/-- **The frame of two bytes after four other calls** ends with a byte of the first of them. -/
theorem residue_leaks : ¬ ∀ (h : Host) (t : Transmission) (first second : List Transmission),
    (first.foldl transmit h).frameFor t = (second.foldl transmit h).frameFor t := by
  intro claim
  exact booted.short_leaks hello (by decide) (claim booted hello [booted.loud, hello, hello, hello] [])

end Host

end LaylaOS.Net
