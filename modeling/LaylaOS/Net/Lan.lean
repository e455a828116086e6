/-
**Address resolution on a network of such machines** (`net/arp.cpp`).

Any number of machines run this code on one Ethernet segment. At any time one of them asks for an address
or sends an IPv4 datagram, and any frame that was ever sent reaches any machine: frames may be lost, come
late, come more than once or overtake each other, and the receive configuration takes them all in. What
else a machine does with IPv4 packets ends in `IPv4Handler::Send`, which a machine may call at any time.

* `lan_resolves_iff` — what `Resolve` answers after any run;
* `lan_answers` — an ARP request is answered by the machine it asks for, and by no other.
-/

import LaylaOS.Lib.Steps
import LaylaOS.Net.Arp
import LaylaOS.Net.Udp

namespace LaylaOS.Net

open LaylaOS.Lib

/-! ### One machine -/

/-- The bytes of an `ARPPacket`. -/
def arpPacket (opcode : Nat) (senderMac : MACAddress) (senderIP : IPv4Address) (targetMac : MACAddress)
    (targetIP : IPv4Address) : List UInt8 :=
  bytes16 0x0001 ++ bytes16 0x0800 ++ [6, 4] ++ bytes16 opcode ++ List.ofFn senderMac ++
    List.ofFn senderIP ++ List.ofFn targetMac ++ List.ofFn targetIP

/-- `MACAddress::Broadcast`. -/
def broadcast : MACAddress := fun _ => 0xFF

/-- The bytes of a frame where the driver finds it. -/
def inBuffer (frame : List UInt8) : Storage := fun k => frame.getD k 0

namespace Host

/-- `ARPHandler::SendRequest`. -/
def sendRequest (h : Host) (targetIP : IPv4Address) : Host :=
  (h.nicSend broadcast 0x0806 (arpPacket 0x0001 h.mac h.localIP (fun _ => 0) targetIP)).2

/-- What `Dispatch` of a frame does by way of the ARP handler. The IPv4 handler is called for other frames
only; what it does to the driver ends in `IPv4Handler::Send`, which is a step of its own. -/
def arpDispatch (h : Host) (frame : List UInt8) : Host :=
  ((Receiver.boot h.localIP 1234).nic.dispatch (inBuffer frame) frame.length).foldl
    (fun h call =>
      if call.handler = globalArp then h.arpReceive (shift (inBuffer frame) call.pointer) call.size else h)
    h

end Host

/-! ### Frames -/

theorem arpPacket_length (opcode : Nat) (mac mac' : MACAddress) (ip ip' : IPv4Address) :
    (arpPacket opcode mac ip mac' ip').length = 28 := by
  simp [arpPacket, bytes16]

/-- The operation, the sender and the target of an ARP frame. -/
def arpFields (frame : List UInt8) : Option (Nat × IPv4Address × IPv4Address) :=
  let packet := shift (inBuffer frame) 14
  if be16 (inBuffer frame) 12 = 0x0806 then
    some (ntohs (readLE packet 6 2), addressAt packet 14, addressAt packet 24)
  else none

/-- A frame as a machine with the given addresses sends it. -/
inductive SentBy (owner : IPv4Address × MACAddress) (frame : List UInt8) : Prop
  | ipv4 (dst : MACAddress) (payload : List UInt8) (long : 60 ≤ frame.length)
      (spells : Spells (inBuffer frame) (ethernetFrame dst owner.2 0x0800 payload))
  | arp (dst : MACAddress) (opcode : Nat) (targetMac : MACAddress) (targetIP : IPv4Address)
      (word : opcode < 2 ^ 16) (long : 60 ≤ frame.length)
      (spells : Spells (inBuffer frame)
        (ethernetFrame dst owner.2 0x0806 (arpPacket opcode owner.2 owner.1 targetMac targetIP)))

section Frames

variable {opcode ethertype : Nat} {mac mac' dst src : MACAddress} {ip ip' : IPv4Address} {packet : Storage}
  {payload frame : List UInt8}

theorem arpPacket_read (spells : Spells packet (arpPacket opcode mac ip mac' ip')) (word : opcode < 2 ^ 16) :
    macAt packet 8 = mac ∧ addressAt packet 14 = ip ∧ ntohs (readLE packet 6 2) = opcode ∧
      addressAt packet 24 = ip' := by
  have byte (k : Nat) (bound : k < 28) : packet k = (arpPacket opcode mac ip mac' ip').getD k 0 :=
    spells k (by rwa [arpPacket_length])
  refine ⟨?_, ?_, ?_, ?_⟩
  · exact @Spells.ofFn (shift packet 8) _ _ spells.append.1.append.1.append.1.append.2
  · exact @Spells.ofFn (shift packet 14) _ _ spells.append.1.append.1.append.2
  · rw [ntohs_readLE]
    exact be16_of_bytes word (byte 6 (by decide)) (byte 7 (by decide))
  · exact @Spells.ofFn (shift packet 24) _ _ spells.append.2

theorem ethernetFrame_read (word : ethertype < 2 ^ 16)
    (spells : Spells (inBuffer frame) (ethernetFrame dst src ethertype payload)) :
    be16 (inBuffer frame) 12 = ethertype ∧ (fun index : Fin 6 => inBuffer frame index) = dst ∧
      Spells (shift (inBuffer frame) 14) payload := by
  have byte (k : Nat) (header : k < 14) :
      inBuffer frame k = (ethernetFrame dst src ethertype payload).getD k 0 :=
    spells k (by rw [ethernetFrame_length]; omega)
  exact ⟨be16_of_bytes word (byte 12 (by decide)) (byte 13 (by decide)),
    spells.append.1.append.1.append.1.ofFn, spells.append.2⟩

theorem arpFields_ipv4 (spells : Spells (inBuffer frame) (ethernetFrame dst src 0x0800 payload)) :
    arpFields frame = none := by
  rw [arpFields, (ethernetFrame_read (by decide) spells).1]
  rfl

theorem arpFields_arp (word : opcode < 2 ^ 16)
    (spells : Spells (inBuffer frame) (ethernetFrame dst src 0x0806 (arpPacket opcode mac ip mac' ip'))) :
    arpFields frame = some (opcode, ip, ip') := by
  obtain ⟨type, -, packet⟩ := ethernetFrame_read (by decide) spells
  obtain ⟨-, sender, code, target⟩ := arpPacket_read packet word
  rw [arpFields, type, sender, code, target]
  rfl

end Frames

namespace Host

/-- The frame of a call of the driver's `Send`. -/
def sentFrame (h : Host) (dst : MACAddress) (ethertype : Nat) (payload : List UInt8) : List UInt8 :=
  slice (blit (h.buffers (.nic h.txCurrent)) 0 (ethernetFrame dst h.mac ethertype payload)) 0
    (max 60 (14 + payload.length))

theorem sentFrame_length (h : Host) (dst : MACAddress) (ethertype : Nat) (payload : List UInt8) :
    (h.sentFrame dst ethertype payload).length = max 60 (14 + payload.length) := slice_length ..

theorem sentFrame_spells (h : Host) (dst : MACAddress) (ethertype : Nat) (payload : List UInt8) :
    Spells (inBuffer (h.sentFrame dst ethertype payload)) (ethernetFrame dst h.mac ethertype payload) := by
  intro k bound
  have inside : k < max 60 (14 + payload.length) := by
    rw [ethernetFrame_length] at bound
    omega
  rw [inBuffer, sentFrame, slice_getD _ _ inside, Nat.zero_add, blit_start bound]

variable {h : Host} {frame : List UInt8}

theorem arpDispatch_eq {dst src : MACAddress} {ethertype : Nat} {payload : List UInt8}
    (word : ethertype < 2 ^ 16) (long : 60 ≤ frame.length)
    (spells : Spells (inBuffer frame) (ethernetFrame dst src ethertype payload)) :
    h.arpDispatch frame = if ethertype = 0x0806 then
        h.arpReceive (shift (inBuffer frame) 14) (frame.length - 14)
      else h := by
  have calls := (ethernetFrame_dispatched spells word (Nat.le_trans (by decide) long)
    (Receiver.boot h.localIP 1234).nic).1
  have table : (Receiver.boot h.localIP 1234).nic.handlers =
    [⟨0x0806, some globalArp⟩, ⟨0x0800, some globalIpv4⟩] := rfl
  rw [arpDispatch, calls, table]
  by_cases arp : ethertype = 0x0806
  · subst arp
    rfl
  · by_cases ipv4 : ethertype = 0x0800
    · subst ipv4
      rfl
    · simp [arp, Ne.symm arp, Ne.symm ipv4]

theorem nicSend_identity (h : Host) (dst : MACAddress) (ethertype : Nat) (payload : List UInt8) :
    (h.nicSend dst ethertype payload).2.mac = h.mac ∧
      (h.nicSend dst ethertype payload).2.localIP = h.localIP := by
  simp only [nicSend, store_mac, store_localIP, and_self]

theorem arpReceive_eq {packet : Storage} {size opcode : Nat} {mac mac' : MACAddress}
    {ip ip' : IPv4Address} (spells : Spells packet (arpPacket opcode mac ip mac' ip'))
    (word : opcode < 2 ^ 16) (long : 28 ≤ size) :
    h.arpReceive packet size =
      let h := { h with arpCache := ArpCache.cacheSet h.arpCache ip mac }
      if opcode = 0x0001 ∧ ip' = h.localIP then
        (h.nicSend mac 0x0806 (arpPacket 0x0002 h.mac h.localIP mac ip)).2
      else h := by
  obtain ⟨sender, address, code, target⟩ := arpPacket_read spells word
  rw [arpReceive, if_neg (by omega), sender, address, code, target]
  unfold arpReply
  rw [sender, address]
  rfl

end Host

/-! ### The network -/

/-- The machines on the segment. -/
abbrev Lan (n : Nat) := Fin n → Host

/-- What happens on the segment. -/
inductive LanEvent (n : Nat)
  | request (i : Fin n) (targetIP : IPv4Address)
  | send (i : Fin n) (dstIP : IPv4Address) (protocol : UInt8) (payload : List UInt8)
  | deliver (frame : List UInt8) (i : Fin n)

/-- The steps. A frame that was sent may be delivered to any machine at any time. What the IPv4 handler sends
when a frame is delivered, an echo reply or a TCP segment, is a `send` step behind the delivery. -/
inductive Lan.Next {n : Nat} : Lan n → LanEvent n → Lan n → Prop
  | request (l : Lan n) (i : Fin n) (targetIP : IPv4Address) :
      Next l (.request i targetIP) (Function.update l i ((l i).sendRequest targetIP))
  | send (l : Lan n) (i : Fin n) (dstIP : IPv4Address) (protocol : UInt8) (payload : List UInt8) :
      Next l (.send i dstIP protocol payload)
        (Function.update l i ((l i).ipv4Send dstIP protocol payload).2)
  | deliver (l : Lan n) (frame : List UInt8) (i k : Fin n) (sent : frame ∈ (l k).frames) :
      Next l (.deliver frame i) (Function.update l i ((l i).arpDispatch frame))

/-- The sender that an ARP frame names. -/
def arpSender (frame : List UInt8) : Option IPv4Address := (arpFields frame).map fun fields => fields.2.1

/-- An ARP frame of the sender has been delivered to the machine. -/
def Heard {n : Nat} (past : List (LanEvent n)) (i : Fin n) (ip : IPv4Address) : Prop :=
  ∃ frame, LanEvent.deliver frame i ∈ past ∧ arpSender frame = some ip

/-- The addresses of the machines. -/
abbrev Names (n : Nat) := Fin n → IPv4Address × MACAddress

/-- The calls of `CacheSet` were for exactly the machines that the machine has heard from. -/
def Remembers {n : Nat} (names : Names n) (past : List (LanEvent n)) (i : Fin n) (cache : ArpCache) :
    Prop :=
  ∃ calls, cache = ArpCache.after calls ∧ (∀ call ∈ calls, ∃ k, call = names k) ∧
    ∀ ip, ip ∈ keysOf calls ↔ Heard past i ip

/-- The invariant of one machine after a past of the network. -/
structure Host.SoundIn {n : Nat} (names : Names n) (past : List (LanEvent n)) (i : Fin n) (h : Host) :
    Prop where
  localIP : h.localIP = (names i).1
  mac : h.mac = (names i).2
  frames : ∀ frame ∈ h.frames, SentBy (names i) frame
  cache : Remembers names past i h.arpCache

def Lan.Sound {n : Nat} (names : Names n) (past : List (LanEvent n)) (l : Lan n) : Prop :=
  ∀ i, (l i).SoundIn names past i

section Steps

variable {n : Nat} {names : Names n} {past : List (LanEvent n)} {i : Fin n} {h : Host}

theorem heard_concat {event : LanEvent n} {ip : IPv4Address} : Heard (past ++ [event]) i ip ↔
      Heard past i ip ∨ ∃ frame, event = .deliver frame i ∧ arpSender frame = some ip := by
  constructor
  · rintro ⟨frame, member, sender⟩
    rcases List.mem_append.mp member with before | now
    · exact .inl ⟨frame, before, sender⟩
    · exact .inr ⟨frame, (List.mem_singleton.mp now).symm, sender⟩
  · rintro (⟨frame, before, sender⟩ | ⟨frame, rfl, sender⟩)
    · exact ⟨frame, List.mem_append_left _ before, sender⟩
    · exact ⟨frame, List.mem_append_right _ (List.mem_singleton_self _), sender⟩

theorem Remembers.silent {cache : ArpCache} {event : LanEvent n} (remembers : Remembers names past i cache)
    (silent : ∀ frame, event = .deliver frame i → arpSender frame = none) :
    Remembers names (past ++ [event]) i cache := by
  obtain ⟨calls, same, machines, keys⟩ := remembers
  refine ⟨calls, same, machines, fun ip => (keys ip).trans ?_⟩
  rw [heard_concat]
  refine ⟨.inl, fun heard => heard.elim id ?_⟩
  rintro ⟨frame, same, sender⟩
  rw [silent frame same] at sender
  cases sender

theorem Host.SoundIn.silent {event : LanEvent n} (sound : h.SoundIn names past i)
    (silent : ∀ frame, event = .deliver frame i → arpSender frame = none) :
    h.SoundIn names (past ++ [event]) i :=
  ⟨sound.localIP, sound.mac, sound.frames, sound.cache.silent silent⟩

theorem Host.SoundIn.learn {past' : List (LanEvent n)} (sound : h.SoundIn names past i)
    {cache : ArpCache} (remembers : Remembers names past' i cache) :
    ({ h with arpCache := cache } : Host).SoundIn names past' i :=
  ⟨sound.localIP, sound.mac, sound.frames, remembers⟩

theorem Host.SoundIn.nicSend (sound : h.SoundIn names past i) {dst : MACAddress} {ethertype : Nat}
    {payload : List UInt8} (own : SentBy (names i) (h.sentFrame dst ethertype payload)) :
    (h.nicSend dst ethertype payload).2.SoundIn names past i := by
  have same := h.nicSend_identity dst ethertype payload
  refine ⟨same.2.trans sound.localIP, same.1.trans sound.mac, fun frame member => ?_, ?_⟩
  · rw [Host.nicSend_frames] at member
    rcases List.mem_append.mp member with old | new
    · exact sound.frames frame old
    · exact List.mem_singleton.mp new ▸ own
  · rw [Host.nicSend_arpCache]
    exact sound.cache

theorem Host.SoundIn.sendArp (sound : h.SoundIn names past i) (dst : MACAddress) {opcode : Nat}
    (word : opcode < 2 ^ 16) (targetMac : MACAddress) (targetIP : IPv4Address) :
    (h.nicSend dst 0x0806 (arpPacket opcode h.mac h.localIP targetMac targetIP)).2.SoundIn names past i := by
  refine sound.nicSend (.arp dst opcode targetMac targetIP word ?_ ?_)
  · rw [Host.sentFrame_length, arpPacket_length]
    decide
  · rw [← sound.mac, ← sound.localIP]
    exact h.sentFrame_spells _ _ _

theorem Host.SoundIn.sendPacket (sound : h.SoundIn names past i) (dst : MACAddress)
    (payload : List UInt8) : (h.nicSend dst 0x0800 payload).2.SoundIn names past i := by
  refine sound.nicSend (.ipv4 dst payload ?_ ?_)
  · rw [Host.sentFrame_length]
    exact le_max_left ..
  · rw [← sound.mac]
    exact h.sentFrame_spells _ _ _

theorem Host.SoundIn.ipv4Send (sound : h.SoundIn names past i) (dstIP : IPv4Address) (protocol : UInt8)
    (payload : List UInt8) : (h.ipv4Send dstIP protocol payload).2.SoundIn names past i := by
  unfold Host.ipv4Send
  cases h.resolve dstIP with
  | none => exact sound
  | some mac =>
    have staged := h.ipv4Stage_staged dstIP protocol payload
    have sound' : (h.ipv4Stage dstIP protocol payload).SoundIn names past i :=
      ⟨staged.localIP.trans sound.localIP, staged.mac.trans sound.mac,
        by rw [staged.frames]; exact sound.frames, by rw [staged.arpCache]; exact sound.cache⟩
    exact sound'.sendPacket mac _

/-! ### What a delivery leaves -/

theorem Remembers.hear {cache : ArpCache} (remembers : Remembers names past i cache) {frame : List UInt8}
    {k : Fin n} (sender : arpSender frame = some (names k).1) :
    Remembers names (past ++ [.deliver frame i]) i (cache.cacheSet (names k).1 (names k).2) := by
  obtain ⟨calls, rfl, machines, keys⟩ := remembers
  refine ⟨calls ++ [names k], ?_, fun call member => ?_, fun ip => ?_⟩
  · rw [ArpCache.after, ArpCache.after, List.foldl_concat]
  · rcases List.mem_append.mp member with old | last
    · exact machines call old
    · exact ⟨k, List.mem_singleton.mp last⟩
  · rw [keysOf, List.map_append, List.mem_append, ← keysOf, keys, heard_concat]
    refine or_congr Iff.rfl ⟨fun last => ⟨frame, rfl, ?_⟩, ?_⟩
    · rw [sender, List.mem_singleton.mp last]
    · rintro ⟨frame', same, sender'⟩
      cases same
      rw [sender, Option.some_inj] at sender'
      exact List.mem_singleton.mpr sender'.symm

theorem enough_slots (few : n ≤ 128) {calls : List (IPv4Address × MACAddress)}
    (machines : ∀ call ∈ calls, ∃ k, call = names k) :
    (keysOf calls).eraseDups.take 128 = (keysOf calls).eraseDups := by
  have nodup : (keysOf calls).eraseDups.Nodup := by
    have all : (keysOf (registerAll (keysOf calls).eraseDups.length calls)).Nodup :=
      nodup_keysOf_registerAll calls
    rwa [keys_registerAll, List.take_length] at all
  have within : (keysOf calls).eraseDups ⊆ List.ofFn fun k => (names k).1 := by
    intro ip member
    obtain ⟨call, inCalls, rfl⟩ := List.mem_map.mp (List.mem_eraseDups.mp member)
    obtain ⟨k, rfl⟩ := machines call inCalls
    exact List.mem_ofFn.mpr ⟨k, rfl⟩
  have bound := (nodup.subperm within).length_le
  rw [List.length_ofFn] at bound
  exact List.take_of_length_le (bound.trans few)

theorem Host.SoundIn.hear (sound : h.SoundIn names past i) {frame : List UInt8} {k : Fin n}
    (sent : SentBy (names k) frame) :
    (h.arpDispatch frame).SoundIn names (past ++ [.deliver frame i]) i := by
  cases sent with
  | ipv4 dst payload long spells =>
    rw [Host.arpDispatch_eq (by decide) long spells, if_neg (by decide)]
    refine sound.silent fun frame' same => ?_
    cases same
    rw [arpSender, arpFields_ipv4 spells, Option.map_none]
  | arp dst opcode targetMac targetIP word long spells =>
    have sender : arpSender frame = some (names k).1 := by
      rw [arpSender, arpFields_arp word spells, Option.map_some]
    have learnt := sound.learn (sound.cache.hear sender)
    rw [Host.arpDispatch_eq (by decide) long spells, if_pos rfl,
      Host.arpReceive_eq (ethernetFrame_read (by decide) spells).2.2 word (by omega)]
    simp only
    split_ifs
    · exact learnt.sendArp _ (by decide) _ _
    · exact learnt

/-- **One step** keeps the invariant. -/
theorem Lan.Sound.next {l l' : Lan n} {event : LanEvent n} (sound : l.Sound names past)
    (step : Lan.Next l event l') : l'.Sound names (past ++ [event]) := by
  -- A machine that the event is not about.
  have others : ∀ {i : Fin n} {h : Host}, (∀ frame j, event = .deliver frame j → j = i) →
      h.SoundIn names (past ++ [event]) i → Lan.Sound names (past ++ [event]) (Function.update l i h) := by
    intro i h here acted j
    by_cases same : j = i
    · subst same
      rwa [Function.update_self]
    · rw [Function.update_of_ne same]
      exact (sound j).silent fun frame eq => absurd (here frame j eq) same
  cases step with
  | request i targetIP =>
    refine others (fun frame j eq => by cases eq) ?_
    exact ((sound i).silent fun frame eq => by cases eq).sendArp _ (by decide) _ _
  | send i dstIP protocol payload =>
    refine others (fun frame j eq => by cases eq) ?_
    exact ((sound i).silent fun frame eq => by cases eq).ipv4Send ..
  | deliver frame i k sent =>
    refine others (fun frame' j eq => by cases eq; rfl) ?_
    exact (sound i).hear ((sound k).frames frame sent)

/-- **Every run** keeps it. -/
theorem Lan.Sound.run {l l' : Lan n} {events : List (LanEvent n)} (sound : l.Sound names past)
    (run : Steps Lan.Next l events l') : l'.Sound names (past ++ events) := by
  induction run generalizing past with
  | nil l => rwa [List.append_nil]
  | cons step _ ih => simpa using ih (sound.next step)

/-- The machines when they come up: nothing sent and nothing in the caches. -/
structure Lan.Cold (names : Names n) (l : Lan n) : Prop where
  localIP : ∀ i, (l i).localIP = (names i).1
  mac : ∀ i, (l i).mac = (names i).2
  frames : ∀ i, (l i).frames = []
  cache : ∀ i, (l i).arpCache = ArpCache.empty

theorem Lan.Cold.sound {l : Lan n} (cold : l.Cold names) : l.Sound names [] := by
  intro i
  refine ⟨cold.localIP i, cold.mac i, fun frame member => ?_, [], cold.cache i, List.forall_mem_nil _,
    fun ip => ?_⟩
  · rw [cold.frames i] at member
    cases member
  · refine iff_of_false List.not_mem_nil ?_
    rintro ⟨frame, member, -⟩
    cases member

theorem Host.SoundIn.resolve_iff (distinct : Function.Injective fun k => (names k).1) (few : n ≤ 128)
    (sound : h.SoundIn names past i) (ip : IPv4Address) (mac : MACAddress) :
    h.resolve ip = some mac ↔ (∃ k, names k = (ip, mac)) ∧ Heard past i ip := by
  obtain ⟨calls, same, machines, keys⟩ := sound.cache
  -- every call for the address was for the one machine that has it
  have stored {mac' : MACAddress} (found : calls.reverse.lookup ip = some mac') :
      ∃ k, names k = (ip, mac') := by
    obtain ⟨before, behind, split, -⟩ := List.lookup_eq_some_iff.mp found
    obtain ⟨k, call⟩ := machines (ip, mac') (List.mem_reverse.mp (by simp [split]))
    exact ⟨k, call.symm⟩
  have known : ip ∈ (keysOf calls).eraseDups ↔ Heard past i ip := List.mem_eraseDups.trans (keys ip)
  rw [Host.resolve_eq, same, (ArpCache.after_holds calls).get (nodup_keysOf_registerAll calls),
    lookup_registerAll, enough_slots few machines]
  constructor
  · intro found
    split_ifs at found with member
    exact ⟨stored found, known.mp member⟩
  · rintro ⟨⟨k, owner⟩, heard⟩
    rw [if_pos (known.mpr heard)]
    cases found : calls.reverse.lookup ip with
    | none =>
      have absent := lookup_eq_none_iff.mp found
      rw [keysOf, List.map_reverse, List.mem_reverse] at absent
      exact absurd ((keys ip).mpr heard) absent
    | some mac' =>
      obtain ⟨k', owner'⟩ := stored found
      have one : k' = k := distinct ((congrArg Prod.fst owner').trans (congrArg Prod.fst owner).symm)
      rw [one, owner] at owner'
      rw [(Prod.mk.inj owner').2]

/-- **What `Resolve` answers**: after any run, an address has the MAC address of the machine that owns it
once an ARP frame of that machine has been delivered here, and no other; before, it has none. -/
theorem lan_resolves_iff (distinct : Function.Injective fun k => (names k).1) (few : n ≤ 128)
    {l₀ l : Lan n} (cold : l₀.Cold names) {events : List (LanEvent n)}
    (run : Steps Lan.Next l₀ events l) (i : Fin n) (ip : IPv4Address) (mac : MACAddress) :
    (l i).resolve ip = some mac ↔ (∃ k, names k = (ip, mac)) ∧ Heard events i ip :=
  (cold.sound.run run i).resolve_iff distinct few ip mac

/-! ### Two machines -/

/-- The addresses of the guest and the gateway of `kernelMain`. -/
def pairNames : Names 2 :=
  ![(![10, 0, 2, 15], ![0x52, 0x54, 0, 0x12, 0x34, 0x56]), (![10, 0, 2, 2], ![0x52, 0x55, 10, 0, 2, 2])]

theorem pairNames_distinct : Function.Injective fun k => (pairNames k).1 := by decide

def pairLan : Lan 2 := fun i =>
  { guest with mac := (pairNames i).2, localIP := (pairNames i).1, arpCache := ArpCache.empty }

theorem pairLan_cold : pairLan.Cold pairNames := ⟨fun _ => rfl, fun _ => rfl, fun _ => rfl, fun _ => rfl⟩

/-- The request of `kernelMain` for the gateway. -/
def pairRequest : List UInt8 := (pairLan 0).sentFrame broadcast 0x0806
  (arpPacket 0x0001 (pairNames 0).2 (pairNames 0).1 (fun _ => 0) (pairNames 1).1)

def pairAsked : Lan 2 := Function.update pairLan 0 ((pairLan 0).sendRequest (pairNames 1).1)

theorem pairRequest_sent : pairRequest ∈ (pairAsked 0).frames := by
  rw [pairAsked, Function.update_self, Host.sendRequest, Host.nicSend_frames]
  exact List.mem_append_right _ (List.mem_singleton_self _)

def pairHeard : Lan 2 := Function.update pairAsked 1 ((pairAsked 1).arpDispatch pairRequest)

theorem pairAsked_run : Steps Lan.Next pairLan [.request 0 (pairNames 1).1] pairAsked :=
  .cons (.request _ _ _) (.nil _)

theorem pairHeard_run : Steps Lan.Next pairLan [.request 0 (pairNames 1).1, .deliver pairRequest 1] pairHeard :=
  .cons (.request _ _ _) (.cons (.deliver _ _ _ 0 pairRequest_sent) (.nil _))

theorem pairRequest_fields : arpFields pairRequest = some (0x0001, (pairNames 0).1, (pairNames 1).1) :=
  arpFields_arp (by decide) (Host.sentFrame_spells _ _ _ _)

theorem pair_heard : Heard [.request 0 (pairNames 1).1, .deliver pairRequest 1] (1 : Fin 2) (pairNames 0).1 :=
  ⟨pairRequest, List.mem_cons_of_mem _ (List.mem_singleton_self _),
    by rw [arpSender, pairRequest_fields]; rfl⟩

/-- The gateway knows the guest that asked for it. -/
theorem lan_resolves_iff_pair : (pairHeard 1).resolve (pairNames 0).1 = some (pairNames 0).2 :=
  (lan_resolves_iff pairNames_distinct (by decide) pairLan_cold pairHeard_run 1 _ _).mpr ⟨⟨0, rfl⟩, pair_heard⟩

/-! ### Answers -/

/-- The frame is an ARP request for the address. -/
def Asks (frame : List UInt8) (ip : IPv4Address) : Prop :=
  ∃ sender, arpFields frame = some (0x0001, sender, ip)

/-- Where a frame goes. -/
def frameDst (frame : List UInt8) : MACAddress := fun index => inBuffer frame index

theorem Host.SoundIn.answers (sound : h.SoundIn names past i) {frame : List UInt8} {k : Fin n}
    (sent : SentBy (names k) frame) (arp : (arpFields frame).isSome) :
    (Asks frame (names i).1 → ∃ reply, (h.arpDispatch frame).frames = h.frames ++ [reply] ∧
      frameDst reply = (names k).2 ∧ arpFields reply = some (0x0002, (names i).1, (names k).1)) ∧
    (¬ Asks frame (names i).1 → (h.arpDispatch frame).frames = h.frames) := by
  cases sent with
  | ipv4 dst payload long spells =>
    rw [arpFields_ipv4 spells] at arp
    cases arp
  | arp dst opcode targetMac targetIP word long spells =>
    have asks : Asks frame (names i).1 ↔ opcode = 0x0001 ∧ targetIP = h.localIP := by
      rw [Asks, arpFields_arp word spells, sound.localIP]
      simp
    rw [Host.arpDispatch_eq (by decide) long spells, if_pos rfl, asks,
      Host.arpReceive_eq (ethernetFrame_read (by decide) spells).2.2 word (by omega)]
    simp only
    constructor
    · intro request
      rw [if_pos request, Host.nicSend_frames]
      -- the frame of the reply, whatever the cache holds
      have reply := h.sentFrame_spells (names k).2 0x0806
        (arpPacket 0x0002 h.mac h.localIP (names k).2 (names k).1)
      refine ⟨_, rfl, (ethernetFrame_read (by decide) reply).2.1, ?_⟩
      rw [← sound.localIP]
      exact arpFields_arp (by decide) reply
    · intro other
      rw [if_neg other]

/-- **Who answers**: of the ARP frames a machine answers exactly the requests for its own address, with one
frame to the machine that asked. It is no request, so nobody answers it in turn. -/
theorem lan_answers {l₀ l : Lan n} (cold : l₀.Cold names) {events : List (LanEvent n)}
    (run : Steps Lan.Next l₀ events l) {frame : List UInt8} {k : Fin n} (sent : frame ∈ (l k).frames)
    (arp : (arpFields frame).isSome) (i : Fin n) :
    (Asks frame (names i).1 → ∃ reply, ((l i).arpDispatch frame).frames = (l i).frames ++ [reply] ∧
      frameDst reply = (names k).2 ∧ arpFields reply = some (0x0002, (names i).1, (names k).1)) ∧
    (¬ Asks frame (names i).1 → ((l i).arpDispatch frame).frames = (l i).frames) :=
  (cold.sound.run run i).answers ((cold.sound.run run k).frames frame sent) arp

/-- The gateway answers the guest, and the guest itself does not. -/
theorem lan_answers_pair :
    (∃ reply, ((pairAsked 1).arpDispatch pairRequest).frames = (pairAsked 1).frames ++ [reply] ∧
      frameDst reply = (pairNames 0).2 ∧
      arpFields reply = some (0x0002, (pairNames 1).1, (pairNames 0).1)) ∧
    ((pairAsked 0).arpDispatch pairRequest).frames = (pairAsked 0).frames := by
  have answers := lan_answers pairLan_cold pairAsked_run pairRequest_sent (by rw [pairRequest_fields]; rfl)
  refine ⟨(answers 1).1 ⟨_, pairRequest_fields⟩, (answers 0).2 ?_⟩
  rintro ⟨sender, own⟩
  rw [pairRequest_fields] at own
  exact absurd (Prod.mk.inj (Prod.mk.inj (Option.some.inj own)).2).2 (by decide)

end Steps

end LaylaOS.Net
