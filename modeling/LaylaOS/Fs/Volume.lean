/-
**A mounted FAT32 volume: sectors, clusters and the file allocation table.**

The lowest layer of `fat32.cpp`, over an ATA drive that never fails: reads return the last sector
written, so the `return false` after a failed `ReadSector` or `WriteSector` is never taken.
`Read28` and `Write28` send bits 0 to 27 of the LBA to the drive. Sector numbers and FAT offsets
are `uint32_t` and wrap.
-/

import LaylaOS.Lib.Bytes

namespace LaylaOS.Fs

open LaylaOS.Lib

/-- The drive: the bytes of each sector, by 28-bit LBA. Only offsets below 512 are stored. -/
abbrev Disk := Nat → Storage

def readSector (d : Disk) (lba : Nat) : Storage := d (lba % 2 ^ 28)

def writeSector (d : Disk) (lba : Nat) (buffer : Storage) : Disk := fun sector =>
  if sector = lba % 2 ^ 28 then buffer else d sector

/-- The fields of `FAT32BPB` that the driver uses. -/
structure Bpb where
  bytesPerSector : Nat
  sectorsPerCluster : Nat
  reservedSectors : Nat
  fatCount : Nat
  totalSectors16 : Nat
  totalSectors32 : Nat
  fatSize32 : Nat
  rootCluster : Nat
  deriving DecidableEq

/-- `fat_mem_copy` of the boot sector into the packed `FAT32BPB`. -/
def Bpb.ofSector (sector : Storage) : Bpb where
  bytesPerSector := readLE sector 11 2
  sectorsPerCluster := readLE sector 13 1
  reservedSectors := readLE sector 14 2
  fatCount := readLE sector 16 1
  totalSectors16 := readLE sector 19 2
  totalSectors32 := readLE sector 32 4
  fatSize32 := readLE sector 36 4
  rootCluster := readLE sector 44 4

/-- The members of `FAT32`; `fat_lba`, `data_lba` and `cluster_size` are computed by `Mount` and
never change afterwards. -/
structure Volume where
  partitionLba : Nat
  bpb : Bpb

namespace Volume

def fatLba (v : Volume) : Nat := (v.partitionLba + v.bpb.reservedSectors) % 2 ^ 32

def dataLba (v : Volume) : Nat := (v.fatLba + v.bpb.fatCount * v.bpb.fatSize32) % 2 ^ 32

def clusterSize (v : Volume) : Nat := v.bpb.sectorsPerCluster * 512

/-- `Mount`: the volume it sets up and whether it accepts it. -/
def mount (d : Disk) (partitionLba : Nat) : Volume × Bool :=
  let bpb := Bpb.ofSector (readSector d partitionLba)
  (⟨partitionLba, bpb⟩, bpb.bytesPerSector == 512)

/-- The size of the `cluster_buf` in use: `cluster_size < 4096 ? cluster_size : 4096`. -/
def bufSize (v : Volume) : Nat := if v.clusterSize < 4096 then v.clusterSize else 4096

def clusterToLBA (v : Volume) (cluster : Nat) : Nat :=
  (v.dataLba + (cluster + 2 ^ 32 - 2) % 2 ^ 32 * v.bpb.sectorsPerCluster) % 2 ^ 32

/-- The FAT entry of `cluster`. -/
def nextCluster (v : Volume) (d : Disk) (cluster : Nat) : Nat :=
  let fatOffset := cluster * 4 % 2 ^ 32
  readLE (readSector d ((v.fatLba + fatOffset / 512) % 2 ^ 32)) (fatOffset % 512) 4 &&& 0x0FFFFFFF

/-- The bytes `ReadCluster` puts into the buffer: sector `i` of the cluster at `i * 512`. -/
def readCluster (v : Volume) (d : Disk) (cluster : Nat) : Storage := fun k =>
  if k < v.clusterSize then
    readSector d ((v.clusterToLBA cluster + k / 512) % 2 ^ 32) (k % 512)
  else 0

def writeCluster (v : Volume) (d : Disk) (cluster : Nat) (buffer : Storage) : Disk :=
  (List.range v.bpb.sectorsPerCluster).foldl
    (fun d i => writeSector d ((v.clusterToLBA cluster + i) % 2 ^ 32) fun k => buffer (i * 512 + k)) d

/-- The local `max_cluster` of `AllocCluster`: one past the last cluster of the data region. -/
def maxCluster (v : Volume) : Nat :=
  let totalSectors :=
    if v.bpb.totalSectors32 ≠ 0 then v.bpb.totalSectors32 else v.bpb.totalSectors16
  let dataOffset := (v.dataLba + 2 ^ 32 - v.partitionLba) % 2 ^ 32
  (2 + if totalSectors > dataOffset then (totalSectors - dataOffset) / v.bpb.sectorsPerCluster
    else 0) % 2 ^ 32

/-- `AllocCluster`: the first free cluster from 3 on, or 0. It reserves nothing. -/
def allocCluster (v : Volume) (d : Disk) : Nat :=
  ((List.range v.bpb.fatSize32).findSome? fun s =>
    let sector := readSector d ((v.fatLba + s) % 2 ^ 32)
    (List.range 128).findSome? fun i =>
      let cluster := (s * 128 + i) % 2 ^ 32
      if cluster < 3 ∨ v.maxCluster ≤ cluster then none
      else if readLE sector (i * 4) 4 &&& 0x0FFFFFFF = 0 then some cluster
      else none).getD 0

/-- `SetFATEntry`: the first copy, and the second one if there is one. -/
def setFATEntry (v : Volume) (d : Disk) (cluster value : Nat) : Disk :=
  let fatOffset := cluster * 4 % 2 ^ 32
  let put := fun (d : Disk) (lba : Nat) =>
    writeSector d lba (writeLE (readSector d lba) (fatOffset % 512) (value &&& 0x0FFFFFFF) 4)
  let first := put d ((v.fatLba + fatOffset / 512) % 2 ^ 32)
  if v.bpb.fatCount > 1 then
    put first ((v.fatLba + v.bpb.fatSize32 + fatOffset / 512) % 2 ^ 32)
  else first

end Volume

end LaylaOS.Fs
