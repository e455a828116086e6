/-
**IPv4 receive** (`IPv4Handler::HandleEthernetPayload`).

The handler checks the frame length against the fixed 20-byte header, the version, the destination
and the header checksum, and then hands every registered handler of the protocol the bytes from
offset 20 on, with the length `ntohs(total_length) - 20` in 32-bit arithmetic. The header length
field and the received length take no part in that.

* `delivers_datagram_iff` — exactly the payload is handed on if and only if the header carries no
  options and `20 ≤ total_length ≤ size`.
-/

import LaylaOS.Net.Wire

namespace LaylaOS.Net

open LaylaOS.Lib

/-- `IPv4Handler::ProtoEntry`; `handler` is `none` for a null pointer. -/
structure ProtoEntry where
  protocol : UInt8
  handler : Option Nat
  deriving DecidableEq

/-- `IPv4Handler::MAX_HANDLERS`. -/
def maxHandlers : Nat := 4

/-- The receiving side of `IPv4Handler`: its address and the first `handler_count` table entries. -/
structure IPv4Handler where
  localIP : IPv4Address
  handlers : List ProtoEntry
  room : handlers.length ≤ maxHandlers

/-- `RegisterHandler`. -/
def IPv4Handler.registerHandler (h : IPv4Handler) (protocol : UInt8) (handler : Option Nat) :
    IPv4Handler :=
  if fits : h.handlers.length < maxHandlers then
    { h with
      handlers := h.handlers ++ [⟨protocol, handler⟩]
      room := by rw [List.length_append]; exact fits }
  else h

/-- One call of a protocol handler's `HandleIPv4Payload`. The payload pointer is counted from the
start of the IPv4 header. -/
structure Delivery where
  handler : Nat
  pointer : Nat
  size : Nat
  src : IPv4Address
  dst : IPv4Address
  protocol : UInt8

/-- `sizeof(IPv4Header)`. -/
def headerSize : Nat := 20

/-- The header length field, in 32-bit words. -/
def ihl (payload : Storage) : Nat := (payload 0).toNat % 16

/-- The total length field. -/
def totalLength (payload : Storage) : Nat := be16 payload 2

namespace IPv4Handler

variable (h : IPv4Handler)

/-- The four checks in front of the delivery. -/
def accepts (payload : Storage) (size : Nat) : Prop :=
  headerSize ≤ size ∧ (payload 0).toNat / 16 = 4 ∧ addressAt payload 16 = h.localIP ∧
    internetChecksum payload 20 = 0

instance (payload : Storage) (size : Nat) : Decidable (h.accepts payload size) := by
  unfold accepts
  infer_instance

/-- The call `HandleEthernetPayload` makes of a registered handler. -/
def delivery (payload : Storage) (handler : Nat) : Delivery where
  handler := handler
  pointer := 20
  size := (ntohs (readLE payload 2 2) + 2 ^ 32 - 20) % 2 ^ 32
  src := addressAt payload 12
  dst := addressAt payload 16
  protocol := payload 9

/-- `HandleEthernetPayload`, as the handler calls it makes. -/
def handleEthernetPayload (payload : Storage) (size : Nat) : List Delivery :=
  if h.accepts payload size then
    h.handlers.filterMap fun entry =>
      if entry.protocol = payload 9 then entry.handler.map (delivery payload) else none
  else []

/-- A handler is registered for the protocol. -/
def handlesProtocol (protocol : UInt8) : Prop :=
  ∃ entry ∈ h.handlers, entry.protocol = protocol ∧ entry.handler.isSome

theorem mem_handleEthernetPayload {payload : Storage} {size : Nat} {delivery : Delivery}
    (delivered : delivery ∈ h.handleEthernetPayload payload size) :
    h.accepts payload size ∧ h.handlesProtocol (payload 9) ∧ delivery.pointer = 20 ∧
      delivery.size = (totalLength payload + 2 ^ 32 - 20) % 2 ^ 32 := by
  unfold handleEthernetPayload at delivered
  split at delivered
  · rename_i accepted
    obtain ⟨entry, member, made⟩ := List.mem_filterMap.mp delivered
    split at made
    · rename_i same
      obtain ⟨handler, registered, rfl⟩ := Option.map_eq_some_iff.mp made
      refine ⟨accepted, ⟨entry, member, same, by rw [registered]; rfl⟩, rfl, ?_⟩
      rw [delivery, ntohs_readLE]
      rfl
    · cases made
  · cases delivered

theorem exists_delivery {payload : Storage} {size : Nat} (accepted : h.accepts payload size)
    (handled : h.handlesProtocol (payload 9)) :
    ∃ handler, delivery payload handler ∈ h.handleEthernetPayload payload size := by
  obtain ⟨entry, member, same, registered⟩ := handled
  obtain ⟨handler, found⟩ := Option.isSome_iff_exists.mp registered
  unfold handleEthernetPayload
  rw [if_pos accepted]
  refine ⟨handler, List.mem_filterMap.mpr ⟨entry, member, ?_⟩⟩
  rw [if_pos same, found]
  rfl

/-- The handler is given the datagram's payload: the bytes after the header the header length field
names, up to the total length, all of them received. -/
def DeliversDatagram (payload : Storage) (size : Nat) (delivery : Delivery) : Prop :=
  delivery.pointer = 4 * ihl payload ∧ delivery.size + 4 * ihl payload = totalLength payload ∧
    delivery.pointer + delivery.size ≤ size

/-- **When IPv4 receive delivers exactly the datagram's payload.** -/
theorem delivers_datagram_iff (payload : Storage) (size : Nat) :
    (∀ delivery ∈ h.handleEthernetPayload payload size, DeliversDatagram payload size delivery) ↔
      (h.accepts payload size → h.handlesProtocol (payload 9) →
        ihl payload = 5 ∧ 20 ≤ totalLength payload ∧ totalLength payload ≤ size) := by
  have short : totalLength payload < 2 ^ 16 := be16_lt payload 2
  constructor
  · intro exact accepted handled
    obtain ⟨handler, delivered⟩ := h.exists_delivery accepted handled
    obtain ⟨_, _, pointer, length⟩ := h.mem_handleEthernetPayload delivered
    obtain ⟨start, total, inside⟩ := exact _ delivered
    omega
  · intro sound delivery delivered
    obtain ⟨accepted, handled, pointer, length⟩ := h.mem_handleEthernetPayload delivered
    obtain ⟨plain, least, received⟩ := sound accepted handled
    refine ⟨by omega, by omega, by omega⟩

/-- A UDP packet to `10.0.2.15` whose total length field is zero. -/
def shortDatagram : Storage := fun offset =>
  ([0x45, 0, 0, 0, 0, 0, 0, 0, 0x40, 0x11, 0x62, 0xDD, 10, 0, 2, 2, 10, 0, 2, 15] : List UInt8).getD
    offset 0

/-- The stack at `10.0.2.15` with one UDP handler. -/
def udpOnly : IPv4Handler where
  localIP := ![10, 0, 2, 15]
  handlers := [⟨0x11, some 0⟩]
  room := by decide

/-- **A total length below the header length underflows**: the handler is given a length of
`2 ^ 32 - 20`. -/
theorem short_datagram_escapes : ¬ ∀ delivery ∈ udpOnly.handleEthernetPayload shortDatagram 46,
      DeliversDatagram shortDatagram 46 delivery := by
  rw [delivers_datagram_iff]
  intro sound
  have lengths := sound (by decide) ⟨⟨0x11, some 0⟩, by decide, by decide, by decide⟩
  revert lengths
  decide

end IPv4Handler

end LaylaOS.Net
