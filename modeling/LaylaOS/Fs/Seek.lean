/-
**Which entry a lookup finds and which one a deletion marks** (`FindEntry`, `MarkEntryDeleted`).

Both walk the clusters of a directory and stop at the first entry of a name. They differ in what they
pass over: `FindEntry` skips deleted entries and long-name entries, `MarkEntryDeleted` only deleted ones.
Nothing is assumed of the directory here: its chain may be damaged and its entries may hold any bytes.

* `deletion_picks_found_iff` — that condition is exact.
-/

import LaylaOS.Fs.WellFormed

namespace LaylaOS.Fs

open LaylaOS.Lib

/-! ### One cluster -/

section Cluster

variable {skips skips' : DirEntry → Bool} {name83 : Name}

theorem scan_hit {entries : List DirEntry} {k i : Nat} (hit : scan skips name83 entries k = .hit i) :
    ∃ j e, i = k + j ∧ entries[j]? = some e ∧ skips e = false := by
  induction entries generalizing k with
  | nil => cases hit
  | cons e rest ih =>
    have later (found : scan skips name83 rest (k + 1) = .hit i) :
        ∃ j e', i = k + j ∧ (e :: rest)[j]? = some e' ∧ skips e' = false := by
      obtain ⟨j, e', place, entry, unskipped⟩ := ih found
      exact ⟨j + 1, e', by omega, entry, unskipped⟩
    rw [scan] at hit
    split_ifs at hit with stop skipped matched
    · exact later hit
    · cases hit
      exact ⟨0, e, rfl, rfl, (Bool.not_eq_true _).mp skipped⟩
    · exact later hit

theorem scan_of_unskipped (more : ∀ e, skips e = true → skips' e = true) {entries : List DirEntry}
    {k : Nat} (unskipped : ∀ j e, scan skips name83 entries k = .hit (k + j) →
      entries[j]? = some e → skips' e = false) :
    scan skips' name83 entries k = scan skips name83 entries k := by
  induction entries generalizing k with
  | nil => rfl
  | cons e rest ih =>
    have onward (same : scan skips name83 (e :: rest) k = scan skips name83 rest (k + 1)) :
        scan skips' name83 rest (k + 1) = scan skips name83 rest (k + 1) := by
      apply ih
      intro j e' hit entry
      refine unskipped (j + 1) e' ?_ entry
      rw [same, hit]
      exact congrArg Scan.hit (by omega)
    by_cases stop : e.first = 0
    · rw [scan, scan, if_pos stop, if_pos stop]
    by_cases skipped : skips e = true
    · have same : scan skips name83 (e :: rest) k = scan skips name83 rest (k + 1) := by
        rw [scan, if_neg stop, if_pos skipped]
      rw [same, scan, if_neg stop, if_pos (more e skipped), onward same]
    by_cases matched : namesMatch e name83 = true
    · have here : scan skips name83 (e :: rest) k = .hit k := by
        rw [scan, if_neg stop, if_neg skipped, if_pos matched]
      have kept := unskipped 0 e here rfl
      rw [here, scan, if_neg stop, kept, if_neg Bool.false_ne_true, if_pos matched]
    · have same : scan skips name83 (e :: rest) k = scan skips name83 rest (k + 1) := by
        rw [scan, if_neg stop, if_neg skipped, if_neg matched]
      rw [same, scan, if_neg stop, if_neg matched, ite_self, onward same]

end Cluster

namespace Volume

variable (v : Volume) (d : Disk)

/-- What `MarkEntryDeleted` passes over. -/
def markSkips (e : DirEntry) : Bool := e.first == 0xE5

/-- The position, a cluster and an index in it, at which a walk along a directory stops. -/
def seek (skips : DirEntry → Bool) (name83 : Name) : Nat → Nat → Option (Option (Nat × Nat))
  | 0, _ => none
  | fuel + 1, cluster =>
    if cluster < endOfChain then
      match scan skips name83 (entriesOf (v.clusterSize / 32) (v.readCluster d cluster)) 0 with
      | .stop => some none
      | .hit i => some (some (cluster, i))
      | .next => seek skips name83 fuel (v.nextCluster d cluster)
    else some none

/-- The entry at a position. -/
def entryOf (position : Nat × Nat) : DirEntry := entryAt (v.readCluster d position.1) position.2

variable {v d} {skips skips' : DirEntry → Bool} {name83 : Name}

theorem entriesOf_eq_some {count j : Nat} {buffer : Storage} {e : DirEntry}
    (entry : (entriesOf count buffer)[j]? = some e) : j < count ∧ entryAt buffer j = e := by
  have inside := (List.getElem?_eq_some_iff.mp entry).1
  rw [entriesOf_length] at inside
  rw [entriesOf_getElem? _ inside] at entry
  exact ⟨inside, Option.some.inj entry⟩

theorem seek_hit {fuel cluster : Nat} {position : Nat × Nat}
    (hit : v.seek d skips name83 fuel cluster = some (some position)) :
    position.2 < v.clusterSize / 32 ∧ skips (v.entryOf d position) = false := by
  induction fuel generalizing cluster with
  | zero => cases hit
  | succ fuel ih =>
    rw [seek] at hit
    split at hit
    · split at hit
      · cases hit
      · next i here =>
          cases hit
          obtain ⟨j, e, place, entry, unskipped⟩ := scan_hit here
          rw [Nat.zero_add] at place
          subst place
          obtain ⟨inside, same⟩ := entriesOf_eq_some entry
          exact ⟨inside, (congrArg skips same).trans unskipped⟩
      · exact ih hit
    · cases hit

/-- **A walk that skips more** ends at the same position unless it skips that one. -/
theorem seek_of_unskipped (more : ∀ e, skips e = true → skips' e = true) {fuel cluster : Nat}
    (unskipped : ∀ position, v.seek d skips name83 fuel cluster = some (some position) →
      skips' (v.entryOf d position) = false) :
    v.seek d skips' name83 fuel cluster = v.seek d skips name83 fuel cluster := by
  induction fuel generalizing cluster with
  | zero => rfl
  | succ fuel ih =>
    by_cases inside : cluster < endOfChain
    · have same : scan skips' name83 (entriesOf (v.clusterSize / 32) (v.readCluster d cluster)) 0 =
          scan skips name83 (entriesOf (v.clusterSize / 32) (v.readCluster d cluster)) 0 := by
        apply scan_of_unskipped more
        intro j e hit entry
        rw [Nat.zero_add] at hit
        have here : v.seek d skips name83 (fuel + 1) cluster = some (some (cluster, j)) := by
          rw [seek, if_pos inside, hit]
        rw [← (entriesOf_eq_some entry).2]
        exact unskipped (cluster, j) here
      rw [seek, seek, if_pos inside, if_pos inside, same]
      cases one : scan skips name83 (entriesOf (v.clusterSize / 32) (v.readCluster d cluster)) 0 with
      | stop => rfl
      | hit i => rfl
      | next =>
        apply ih
        intro position later
        apply unskipped
        rw [seek, if_pos inside, one]
        exact later
    · rw [seek, seek, if_neg inside, if_neg inside]

theorem findEntry_eq (v : Volume) (d : Disk) (D : Nat) (name : List UInt8) : v.findEntry d D name =
      (v.seek d findSkips (toShortName name) loopFuel D).map (·.map (v.entryOf d)) := by
  unfold findEntry
  generalize loopFuel = fuel
  induction fuel generalizing D with
  | zero => rfl
  | succ fuel ih =>
    rw [findEntryLoop, seek]
    by_cases inside : D < endOfChain
    · rw [if_pos inside, if_pos inside]
      simp only
      cases scan findSkips (toShortName name) (entriesOf (v.clusterSize / 32) (v.readCluster d D)) 0 with
      | stop => rfl
      | hit i => rfl
      | next => exact ih (v.nextCluster d D)
    · rw [if_neg inside, if_neg inside]
      rfl

/-- The disk after the entry at a position has been marked, as `MarkEntryDeleted` does it. -/
def marked (v : Volume) (d : Disk) (position : Nat × Nat) : Disk :=
  v.writeCluster d position.1
    (putEntry (v.readCluster d position.1) position.2 (v.entryOf d position).deleted)

/-- **`MarkEntryDeleted`**, by the position of its walk, where a cluster fits the buffer. -/
theorem markEntryDeleted_eq (fits : v.bufSize = v.clusterSize) (d : Disk) (D : Nat) (name83 : Name) :
    v.markEntryDeleted d D name83 = (v.seek d markSkips name83 loopFuel D).map fun position =>
        position.elim (d, false) fun position => (v.marked d position, true) := by
  unfold markEntryDeleted
  generalize loopFuel = fuel
  induction fuel generalizing D with
  | zero => rfl
  | succ fuel ih =>
    rw [markEntryDeletedLoop, seek, fits]
    by_cases inside : D < endOfChain
    · rw [if_pos inside, if_pos inside]
      simp only
      rw [show (fun e : DirEntry => e.first == 0xE5) = markSkips from rfl]
      cases scan markSkips name83 (entriesOf (v.clusterSize / 32) (v.readCluster d D)) 0 with
      | stop => rfl
      | hit i => rfl
      | next => exact ih (v.nextCluster d D)
    · rw [if_neg inside, if_neg inside]
      rfl

/-! ### The bytes of the disk -/

/-- The sector of a cluster by its number. -/
def sectorAt (v : Volume) (cluster j : Nat) : Nat := (v.clusterToLBA cluster + j) % 2 ^ 32 % 2 ^ 28

/-- One byte of the disk differs: the first one of the entry at a position is 0xE5. -/
def DeletedAt (v : Volume) (d d' : Disk) (position : Nat × Nat) : Prop :=
  ∀ sector k, k < 512 → d' sector k =
    if sector = v.sectorAt position.1 (32 * position.2 / 512) ∧ k = 32 * position.2 % 512 then 0xE5
    else d sector k

theorem sectorAt_inj {c i j : Nat} (small : i < 2 ^ 28) (small' : j < 2 ^ 28) :
    v.sectorAt c i = v.sectorAt c j ↔ i = j := by
  unfold sectorAt
  omega

theorem writeCluster_elsewhere (c : Nat) (buffer : Storage) {sector : Nat}
    (elsewhere : ∀ j < v.bpb.sectorsPerCluster, sector ≠ v.sectorAt c j) :
    v.writeCluster d c buffer sector = d sector := by
  unfold writeCluster
  generalize v.bpb.sectorsPerCluster = count at elsewhere
  induction count with
  | zero => rfl
  | succ count ih =>
    rw [List.range_succ, List.foldl_append, List.foldl_cons, List.foldl_nil]
    refine (if_neg (elsewhere count (Nat.lt_succ_self count))).trans (ih fun j below => ?_)
    exact elsewhere j (Nat.lt_succ_of_lt below)

theorem writeCluster_sector (few : v.bpb.sectorsPerCluster ≤ 2 ^ 28) (c : Nat) (buffer : Storage)
    {j : Nat} (inside : j < v.bpb.sectorsPerCluster) :
    v.writeCluster d c buffer (v.sectorAt c j) = fun k => buffer (j * 512 + k) := by
  unfold writeCluster
  generalize v.bpb.sectorsPerCluster = count at few inside
  induction count with
  | zero => exact absurd inside (Nat.not_lt_zero j)
  | succ count ih =>
    rw [List.range_succ, List.foldl_append, List.foldl_cons, List.foldl_nil]
    by_cases last : j = count
    · rw [last]
      exact if_pos rfl
    · have other : v.sectorAt c j ≠ v.sectorAt c count := mt (sectorAt_inj (by omega) (by omega)).mp last
      exact (if_neg other).trans (ih (by omega) (by omega))

theorem putEntry_deleted (buffer : Storage) (i : Nat) :
    putEntry buffer i (entryAt buffer i).deleted = fun k => if k = 32 * i then 0xE5 else buffer k := by
  funext k
  unfold putEntry
  by_cases within : 32 * i ≤ k ∧ k < 32 * i + 32
  · obtain ⟨j, rfl⟩ := Nat.exists_eq_add_of_le within.1
    have small : j < 32 := by omega
    rw [if_pos within, Nat.add_sub_cancel_left, DirEntry.bytes, dif_pos small]
    by_cases first : j = 0
    · subst first
      exact (if_pos rfl).trans (if_pos rfl).symm
    · exact (if_neg (mt Fin.val_eq_of_eq first)).trans (if_neg (by omega)).symm
  · rw [if_neg within, if_neg (by omega)]

theorem marked_deletedAt (few : v.bpb.sectorsPerCluster ≤ 2 ^ 28) {position : Nat × Nat}
    (inside : position.2 < v.clusterSize / 32) : v.DeletedAt d (v.marked d position) position := by
  obtain ⟨c, i⟩ := position
  have size : v.clusterSize = v.bpb.sectorsPerCluster * 512 := rfl
  have bound : 32 * i / 512 < v.bpb.sectorsPerCluster := by
    rw [size] at inside
    omega
  intro sector k small
  unfold marked entryOf
  simp only
  rw [putEntry_deleted]
  by_cases here : ∃ j < v.bpb.sectorsPerCluster, sector = v.sectorAt c j
  · obtain ⟨j, below, rfl⟩ := here
    rw [writeCluster_sector few c _ below]
    simp only [sectorAt_inj (below.trans_le few) (bound.trans_le few)]
    by_cases first : j * 512 + k = 32 * i
    · rw [if_pos first, if_pos (by omega)]
    · rw [if_neg first, if_neg (by omega), readCluster, if_pos (by rw [size]; omega)]
      unfold readSector
      rw [show (j * 512 + k) / 512 = j by omega, show (j * 512 + k) % 512 = k by omega]
      rfl
  · rw [writeCluster_elsewhere c _ fun j below same => here ⟨j, below, same⟩,
      if_neg fun same => here ⟨_, bound, same.1⟩]

/-! ### Both walks -/

/-- **Lookup and deletion pick the same entry**: if `FindEntry` finds the entry at a position,
`MarkEntryDeleted` returns true and marks it, and if `FindEntry` finds nothing, `MarkEntryDeleted`
returns false and writes nothing. -/
def PicksFound (v : Volume) (d : Disk) (D : Nat) (name : List UInt8) : Prop :=
  (∀ position, v.seek d findSkips (toShortName name) loopFuel D = some (some position) →
    ∃ d', v.markEntryDeleted d D (toShortName name) = some (d', true) ∧ v.DeletedAt d d' position) ∧
  (v.findEntry d D name = some none → v.markEntryDeleted d D (toShortName name) = some (d, false))

theorem bufSize_eq (few : v.bpb.sectorsPerCluster ≤ 8) : v.bufSize = v.clusterSize := by
  have size : v.clusterSize = v.bpb.sectorsPerCluster * 512 := rfl
  unfold bufSize
  split
  · rfl
  · omega

theorem findSkips_of_markSkips (e : DirEntry) (skipped : markSkips e = true) : findSkips e = true := by
  unfold markSkips at skipped
  rw [findSkips, skipped, Bool.true_or]

theorem findSkips_eq_false {e : DirEntry} (kept : markSkips e = false) :
    findSkips e = false ↔ e.attributes ≠ 0x0F := by
  unfold markSkips at kept
  rw [findSkips, kept, Bool.false_or, beq_eq_false_iff_ne]

theorem entryOf_byte {position : Nat × Nat} (inside : position.2 < v.clusterSize / 32) (k : Fin 32) :
    v.entryOf d position k = d (v.sectorAt position.1 (32 * position.2 / 512)) (32 * position.2 % 512 + k) := by
  obtain ⟨c, i⟩ := position
  have bound := k.isLt
  unfold entryOf entryAt readCluster readSector sectorAt
  simp only at inside ⊢
  rw [if_pos (by omega), show (32 * i + k) / 512 = 32 * i / 512 by omega,
    show (32 * i + k) % 512 = 32 * i % 512 + k by omega]

theorem DeletedAt.attributes_eq {d' : Disk} {position position' : Nat × Nat}
    (inside : position.2 < v.clusterSize / 32) (inside' : position'.2 < v.clusterSize / 32)
    (one : v.DeletedAt d d' position) (two : v.DeletedAt d d' position')
    (kept : markSkips (v.entryOf d position) = false) :
    (v.entryOf d position).attributes = (v.entryOf d position').attributes := by
  have first := entryOf_byte (d := d) inside 0
  have small : 32 * position.2 % 512 < 512 := Nat.mod_lt _ (by decide)
  have deleted := one (v.sectorAt position.1 (32 * position.2 / 512)) _ small
  rw [if_pos ⟨rfl, rfl⟩, two _ _ small] at deleted
  split at deleted
  · next same =>
      unfold DirEntry.attributes
      rw [entryOf_byte inside, entryOf_byte inside', same.1, same.2]
  · have gone : (v.entryOf d position).first = 0xE5 := first.trans deleted
    rw [markSkips, gone] at kept
    cases kept

/-- **When a deletion picks the entry that a lookup finds**: exactly if the first entry of the name that
is neither deleted nor behind the end mark is no long-name entry. -/
theorem deletion_picks_found_iff (v : Volume) (d : Disk) (D : Nat) (name : List UInt8)
    (few : v.bpb.sectorsPerCluster ≤ 8) {found : Option DirEntry}
    (returns : v.findEntry d D name = some found) :
    v.PicksFound d D name ↔
      ∀ position, v.seek d markSkips (toShortName name) loopFuel D = some (some position) →
        (v.entryOf d position).attributes ≠ 0x0F := by
  have sectors : v.bpb.sectorsPerCluster ≤ 2 ^ 28 := few.trans (by decide)
  have mark := markEntryDeleted_eq (bufSize_eq few) d D (toShortName name)
  constructor
  · rintro ⟨picks, misses⟩ position hit long
    obtain ⟨inside, kept⟩ := seek_hit hit
    rw [hit] at mark
    rw [findEntry_eq] at returns
    obtain ⟨place, walk, -⟩ := Option.map_eq_some_iff.mp returns
    cases place with
    | none =>
      have none := misses (by rw [findEntry_eq, walk]; rfl)
      have results := congrArg Prod.snd (Option.some.inj (mark.symm.trans none))
      cases results
    | some other =>
      obtain ⟨d', ran, deleted⟩ := picks other walk
      cases mark.symm.trans ran
      obtain ⟨inside', unskipped⟩ := seek_hit walk
      have same := (marked_deletedAt sectors inside).attributes_eq inside inside' deleted kept
      rw [findSkips, Bool.or_eq_false_iff, ← same, long] at unskipped
      cases unskipped.2
  · intro short
    have same : v.seek d findSkips (toShortName name) loopFuel D =
        v.seek d markSkips (toShortName name) loopFuel D := by
      apply seek_of_unskipped findSkips_of_markSkips
      intro position hit
      exact (findSkips_eq_false (seek_hit hit).2).mpr (short position hit)
    refine ⟨fun position walk => ?_, fun missing => ?_⟩
    · rw [same] at walk
      rw [walk] at mark
      exact ⟨_, mark, marked_deletedAt sectors (seek_hit walk).1⟩
    · rw [findEntry_eq, same] at missing
      obtain ⟨place, walk, none⟩ := Option.map_eq_some_iff.mp missing
      rw [Option.map_eq_none_iff.mp none] at walk
      rw [walk] at mark
      exact mark

theorem deletion_picks_letter : sample.PicksFound withLetter 2 [65] := by
  have returns : (sample.findEntry withLetter 2 [65]).isSome := by decide +kernel
  obtain ⟨found, returns⟩ := Option.isSome_iff_exists.mp returns
  refine (deletion_picks_found_iff sample withLetter 2 [65] (by decide) returns).mpr ?_
  have short : ∀ position ∈ (sample.seek withLetter markSkips (toShortName [65]) loopFuel 2).join,
      (sample.entryOf withLetter position).attributes ≠ 0x0F := by decide +kernel
  exact fun position hit => short position (Option.join_eq_some_iff.mpr hit)

/-- The root directory with a long-name entry whose first bytes are those of the name `A`, and the file
`A` behind it. -/
def withLongName : Disk :=
  sample.writeCluster blank 2 (putEntry (putEntry (fun _ => 0) 0 (buildDirEntry (toShortName [65]) 0x0F 0 0))
    1 (buildDirEntry (toShortName [65]) 0x20 3 0))

/-- **A long-name entry is deleted in place of the file**: `FindEntry` finds the entry behind it, and
`MarkEntryDeleted` returns true and marks the long-name entry. -/
theorem long_name_deleted_instead :
    sample.findEntry withLongName 2 [65] = some (some (buildDirEntry (toShortName [65]) 0x20 3 0)) ∧
      ¬ sample.PicksFound withLongName 2 [65] := by
  refine ⟨by decide +kernel, fun picks => ?_⟩
  obtain ⟨d', ran, deleted⟩ := picks.1 (2, 1) (by decide +kernel)
  have marked : ((sample.markEntryDeleted withLongName 2 (toShortName [65])).map fun result =>
      result.1 2 0) = some 0xE5 := by decide +kernel
  rw [ran, Option.map_some, Option.some.injEq] at marked
  exact absurd ((deleted 2 0 (by decide)).symm.trans marked) (by decide +kernel)

end Volume

end LaylaOS.Fs
