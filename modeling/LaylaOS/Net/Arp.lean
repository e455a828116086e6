/-
**The ARP cache** (`net/arp.cpp`).

`CacheSet` looks for the address, then for a slot that is not valid; `CacheGet` looks for the address.
No slot is ever given back, so the slots fill from the front and the cache is a registry of 128 keys.

* `arp_cache_is_map` — what the cache answers after any sequence of calls.
-/

import LaylaOS.Lib.Registry
import LaylaOS.Net.Transmit

namespace LaylaOS.Net

open LaylaOS.Lib

/-- `arp_cache`. -/
abbrev ArpCache := Fin 128 → ARPCacheEntry

namespace ArpCache

/-- The static cache before the first call. -/
def empty : ArpCache := fun _ => ⟨fun _ => 0, fun _ => 0, false⟩

/-- The first slot with `valid && ip == ip`. -/
def slotOf (cache : ArpCache) (ip : IPv4Address) : Option (Fin 128) :=
  Fin.find? fun i => (cache i).valid && decide ((cache i).ip = ip)

def cacheSet (cache : ArpCache) (ip : IPv4Address) (mac : MACAddress) : ArpCache :=
  match cache.slotOf ip with
  | some i => Function.update cache i { cache i with mac := mac }
  | none =>
    match Fin.find? fun i => !(cache i).valid with
    | some i => Function.update cache i ⟨ip, mac, true⟩
    | none => cache

def cacheGet (cache : ArpCache) (ip : IPv4Address) : Option MACAddress :=
  (cache.slotOf ip).map fun i => (cache i).mac

/-- The cache after a sequence of calls. -/
def after (calls : List (IPv4Address × MACAddress)) : ArpCache :=
  calls.foldl (fun cache call => cache.cacheSet call.1 call.2) empty

/-! ### The cache as a registry -/

/-- The slots of the table are valid and hold it, and the others are not valid. -/
structure Holds (cache : ArpCache) (table : List (IPv4Address × MACAddress)) : Prop where
  fits : table.length ≤ 128
  used : ∀ (i : Fin 128) (entry : IPv4Address × MACAddress), table[i.val]? = some entry →
    cache i = ⟨entry.1, entry.2, true⟩
  free : ∀ i : Fin 128, table[i.val]? = none → (cache i).valid = false

theorem Holds.empty : Holds empty [] where
  fits := Nat.zero_le _
  used i entry slot := by cases slot
  free _ _ := rfl

namespace Holds

variable {cache : ArpCache} {table : List (IPv4Address × MACAddress)} (holds : Holds cache table)
  {ip : IPv4Address} {mac : MACAddress}

include holds

theorem valid_iff (i : Fin 128) : (cache i).valid = true ↔ i.val < table.length := by
  cases slot : table[i.val]? with
  | none =>
    have outside := List.getElem?_eq_none_iff.mp slot
    rw [holds.free i slot]
    exact iff_of_false Bool.false_ne_true (not_lt.mpr outside)
  | some entry =>
    rw [holds.used i entry slot]
    exact iff_of_true rfl (List.getElem?_eq_some_iff.mp slot).1

theorem slotOf_some {i : Fin 128} (found : cache.slotOf ip = some i) :
    ∃ old, table[i.val]? = some (ip, old) := by
  obtain ⟨here, -⟩ := Fin.find?_eq_some_iff.mp found
  obtain ⟨valid, same⟩ := Bool.and_eq_true_iff.mp here
  have inside := (holds.valid_iff i).mp valid
  have slot := List.getElem?_eq_getElem inside
  have stored := holds.used i _ slot
  rw [stored, decide_eq_true_iff] at same
  exact ⟨(table[i.val]).2, slot.trans (congrArg some (Prod.ext same rfl))⟩

theorem slotOf_none (missing : cache.slotOf ip = none) : ip ∉ keysOf table := by
  intro member
  obtain ⟨entry, inTable, rfl⟩ := List.mem_map.mp member
  obtain ⟨i, slot⟩ := List.mem_iff_getElem?.mp inTable
  have inside := (List.getElem?_eq_some_iff.mp slot).1
  have here := Fin.find?_eq_none_iff.mp missing ⟨i, inside.trans_le holds.fits⟩
  rw [holds.used ⟨i, _⟩ entry slot] at here
  simp at here

theorem get (nodup : (keysOf table).Nodup) (ip : IPv4Address) : cache.cacheGet ip = table.lookup ip := by
  unfold cacheGet
  cases found : cache.slotOf ip with
  | none => exact (lookup_eq_none_iff.mpr (holds.slotOf_none found)).symm
  | some i =>
    obtain ⟨old, slot⟩ := holds.slotOf_some found
    rw [Option.map_some, holds.used i _ slot]
    exact (lookup_of_mem nodup (List.mem_of_getElem? slot)).symm

theorem free_slot {i : Fin 128} (found : Fin.find? (fun i => !(cache i).valid) = some i) :
    i.val = table.length := by
  obtain ⟨here, before⟩ := Fin.find?_eq_some_iff.mp found
  refine le_antisymm (not_lt.mp fun beyond => ?_) (not_lt.mp fun inside => ?_)
  · have valid := before ⟨table.length, beyond.trans i.isLt⟩ beyond
    rw [Bool.not_eq_false', holds.valid_iff] at valid
    exact lt_irrefl _ valid
  · rw [← holds.valid_iff] at inside
    rw [inside] at here
    cases here

theorem update_known (nodup : (keysOf table).Nodup) {i : Fin 128} {old : MACAddress}
    (slot : table[i.val]? = some (ip, old)) (mac : MACAddress) :
    Holds (Function.update cache i { cache i with mac := mac })
      (table.map fun entry => if entry.1 = ip then (ip, mac) else entry) := by
  have only : ∀ (j : Nat) (entry : IPv4Address × MACAddress), table[j]? = some entry → entry.1 = ip →
      j = i.val := by
    intro j entry there same
    have left : (keysOf table)[j]? = some ip := by rw [List.getElem?_map, there, Option.map_some, same]
    have right : (keysOf table)[i.val]? = some ip := by rw [List.getElem?_map, slot]; rfl
    have inside := (List.getElem?_eq_some_iff.mp left).1
    exact (List.getElem?_inj inside nodup).mp (left.trans right.symm)
  refine ⟨(List.length_map ..).le.trans holds.fits, fun j entry there => ?_, fun j there => ?_⟩
  · rw [List.getElem?_map, Option.map_eq_some_iff] at there
    obtain ⟨before, there, rfl⟩ := there
    by_cases same : before.1 = ip
    · obtain rfl : j = i := Fin.ext (only j before there same)
      rw [Function.update_self, if_pos same, holds.used j before there, same]
    · have other : j ≠ i := by
        rintro rfl
        rw [slot, Option.some_inj] at there
        exact same (there ▸ rfl)
      rw [Function.update_of_ne other, if_neg same]
      exact holds.used j before there
  · rw [List.getElem?_map, Option.map_eq_none_iff] at there
    have other : j ≠ i := by
      rintro rfl
      rw [slot] at there
      cases there
    rw [Function.update_of_ne other]
    exact holds.free j there

theorem update_free {i : Fin 128} (last : i.val = table.length) (ip : IPv4Address) (mac : MACAddress) :
    Holds (Function.update cache i ⟨ip, mac, true⟩) (table ++ [(ip, mac)]) := by
  refine ⟨?_, fun j entry there => ?_, fun j there => ?_⟩
  · rw [List.length_append, ← last]
    exact i.isLt
  · by_cases same : j = i
    · subst same
      rw [last, List.getElem?_concat_length, Option.some_inj] at there
      rw [Function.update_self, ← there]
    · have before : j.val < table.length := by
        have inside := (List.getElem?_eq_some_iff.mp there).1
        rw [List.length_append, List.length_singleton, ← last] at inside
        rw [← last]
        exact lt_of_le_of_ne (Nat.le_of_lt_succ inside) fun same' => same (Fin.ext same')
      rw [List.getElem?_append_left before] at there
      rw [Function.update_of_ne same]
      exact holds.used j entry there
  · have beyond := List.getElem?_eq_none_iff.mp there
    rw [List.length_append, List.length_singleton, ← last] at beyond
    have other : j ≠ i := fun same => absurd (same ▸ beyond) (Nat.not_succ_le_self _)
    rw [Function.update_of_ne other]
    refine holds.free j (List.getElem?_eq_none_iff.mpr ?_)
    rw [← last]
    exact Nat.le_of_succ_le beyond

theorem set (nodup : (keysOf table).Nodup) (ip : IPv4Address) (mac : MACAddress) :
    Holds (cache.cacheSet ip mac) (register 128 table (ip, mac)) := by
  unfold cacheSet register
  cases found : cache.slotOf ip with
  | some i =>
    obtain ⟨old, slot⟩ := holds.slotOf_some found
    have known : ip ∈ keysOf table := List.mem_map_of_mem (List.mem_of_getElem? slot)
    rw [if_pos known]
    exact holds.update_known nodup slot mac
  | none =>
    rw [if_neg (holds.slotOf_none found)]
    cases free : Fin.find? fun i => !(cache i).valid with
    | some i =>
      have last := holds.free_slot free
      rw [if_pos (last ▸ i.isLt)]
      exact holds.update_free last ip mac
    | none =>
      have full : ¬ table.length < 128 := by
        intro room
        have valid := Fin.find?_eq_none_iff.mp free ⟨table.length, room⟩
        rw [Bool.not_eq_false', holds.valid_iff] at valid
        exact lt_irrefl _ valid
      rw [if_neg full]
      exact holds

end Holds

theorem after_holds (calls : List (IPv4Address × MACAddress)) :
    Holds (after calls) (registerAll 128 calls) := by
  induction calls using List.reverseRecOn with
  | nil => exact Holds.empty
  | append_singleton calls call ih =>
    rw [registerAll_concat, after, List.foldl_concat]
    exact ih.set (nodup_keysOf_registerAll calls) call.1 call.2

/-- **The ARP cache is a map.** After any sequence of calls no address has two valid entries, and
`CacheGet` answers with the MAC address of the last call for the address if it is among the first 128
distinct ones, and with nothing otherwise. -/
theorem arp_cache_is_map (calls : List (IPv4Address × MACAddress)) :
    (∀ i j, (after calls i).valid = true → (after calls j).valid = true →
      (after calls i).ip = (after calls j).ip → i = j) ∧
    ∀ ip, (after calls).cacheGet ip =
      if ip ∈ (calls.map Prod.fst).eraseDups.take 128 then calls.reverse.lookup ip else none := by
  have holds := after_holds calls
  have nodup : (keysOf (registerAll 128 calls)).Nodup := nodup_keysOf_registerAll calls
  constructor
  · intro i j valid valid' same
    have inside := (holds.valid_iff i).mp valid
    have slot := List.getElem?_eq_getElem inside
    have slot' := List.getElem?_eq_getElem ((holds.valid_iff j).mp valid')
    rw [holds.used i _ slot, holds.used j _ slot'] at same
    refine Fin.ext ((List.getElem?_inj (by rwa [List.length_map]) nodup).mp ?_)
    rw [List.getElem?_map, List.getElem?_map, slot, slot', Option.map_some, Option.map_some]
    exact congrArg some same
  · intro ip
    rw [holds.get nodup, lookup_registerAll]

end ArpCache

/-! ### Received packets -/

/-- The MAC address stored at an offset of a packet. -/
def macAt (packet : Storage) (offset : Nat) : MACAddress := fun index => packet (offset + index)

namespace Host

theorem resolve_eq (h : Host) (ip : IPv4Address) : h.resolve ip = ArpCache.cacheGet h.arpCache ip := by
  unfold resolve ArpCache.cacheGet
  rw [List.ofFn_eq_map, List.findSome?_map, ← Fin.findSome?_eq_findSome?_finRange]
  cases found : ArpCache.slotOf h.arpCache ip with
  | none =>
    refine Fin.findSome?_eq_none_iff.mpr fun i => if_neg fun here => ?_
    have other := Fin.find?_eq_none_iff.mp found i
    rw [here.1, Bool.true_and, decide_eq_false_iff_not] at other
    exact other here.2
  | some i =>
    obtain ⟨here, before⟩ := Fin.find?_eq_some_iff.mp found
    rw [Bool.and_eq_true, decide_eq_true_iff] at here
    refine Fin.findSome?_eq_some_iff.mpr ⟨i, if_pos here, fun j earlier => if_neg fun there => ?_⟩
    have other := before j earlier
    rw [there.1, Bool.true_and, decide_eq_false_iff_not] at other
    exact other there.2

/-- The packet of `SendReply`. -/
def arpReply (h : Host) (request : Storage) : List UInt8 :=
  bytes16 0x0001 ++ bytes16 0x0800 ++ [6, 4] ++ bytes16 0x0002 ++ List.ofFn h.mac ++
    List.ofFn h.localIP ++ List.ofFn (macAt request 8) ++ List.ofFn (addressAt request 14)

/-- `ARPHandler::HandleEthernetPayload`. -/
def arpReceive (h : Host) (packet : Storage) (size : Nat) : Host :=
  if size < 28 then h
  else
    let h := { h with
      arpCache := ArpCache.cacheSet h.arpCache (addressAt packet 14) (macAt packet 8) }
    if ntohs (readLE packet 6 2) = 0x0001 ∧ addressAt packet 24 = h.localIP then
      (h.nicSend (macAt packet 8) 0x0806 (h.arpReply packet)).2
    else h

theorem nicSend_arpCache (h : Host) (dst : MACAddress) (ethertype : Nat) (payload : List UInt8) :
    (h.nicSend dst ethertype payload).2.arpCache = h.arpCache := by
  simp only [nicSend, store_arpCache]

end Host

end LaylaOS.Net
