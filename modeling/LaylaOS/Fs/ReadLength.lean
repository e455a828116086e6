/-
**How much `ReadFile` puts into its buffer.**

`ReadFile` is not told how large its buffer is: it copies whole clusters until the chain ends. What
bounds it is what the writing calls can put on the volume. A volume is `Small` if every file occupies
at most `n` clusters; a write of at most `n` clusters keeps it so, whether it succeeds or leaves its
clusters to the entry that it could not replace.
-/

import LaylaOS.Fs.Failure
import LaylaOS.Fs.WellFormed
import LaylaOS.Fs.Calls

namespace LaylaOS.Fs

open LaylaOS.Lib

namespace Image

variable {I I' J : Image} {n D i first : Nat} {name83 : Name} {old : Option DirEntry} {O : List Nat}
  {data : List UInt8} {names : List (List UInt8)}

/-- `ReadFile` from the cluster `c` on copies at most `n` clusters: those of a complete chain; cluster 0,
for an entry without clusters; or a cluster 2 that has been freed and cluster 0. -/
def Spans (I : Image) (n c : Nat) : Prop :=
  (InTable c ∧ I.Strict c ∧ (I.chain c).length ≤ n) ∨ c = 0 ∨ (c = 2 ∧ I.fat 2 = 0 ∧ 2 < I.limit)

/-- No file has more than `n` clusters, or bytes for more than `n` clusters. -/
structure Small (I : Image) (n : Nat) : Prop where
  sound : I.Sound
  mark : endOfChain ≤ I.fat 0
  files : ∀ D i e, I.IsFile D i e → e.size ≤ n * I.clusterSize ∧ I.Spans n e.startCluster

theorem IsFile.loose {e : DirEntry} (is : I.IsFile D i e) (sound : I.Sound) :
    I.Loose e.startCluster := sound.chained _ _ (.entry is.1 is.2.1 is.2.2.1)

theorem Spans.congr {c : Nat} (spans : I.Spans n c) (loose : I.Loose c)
    (shape : I'.toShape = I.toShape) (same : ∀ x ∈ I.chain c, I'.fat x = I.fat x) :
    I'.Spans n c := by
  rcases spans with ⟨inTable, strict, short⟩ | zero | ⟨two, freed, high⟩
  · obtain ⟨strict', chain⟩ := strict.chain_congr shape same
    exact .inl ⟨inTable, strict', by rwa [chain]⟩
  · exact .inr (.inl zero)
  · refine .inr (.inr ⟨two, ?_, by rwa [shape]⟩)
    have member : 2 ∈ I.chain c := two ▸ loose.walk.start_mem (two ▸ by decide)
    rw [same 2 member, freed]

/-- **The step rule**: files that were there keep their links, and the others are small. -/
theorem Small.step (small : I.Small n) (sound : I'.Sound) (shape : I'.toShape = I.toShape)
    (fatZero : I'.fat 0 = I.fat 0)
    (files : ∀ D i e, I'.IsFile D i e → (I.IsFile D i e ∧ ∀ x ∈ I.chain e.startCluster, I'.fat x = I.fat x) ∨
        (e.size ≤ n * I.clusterSize ∧ I'.Spans n e.startCluster)) : I'.Small n := by
  refine ⟨sound, fatZero ▸ small.mark, fun D i e is => ?_⟩
  rw [shape]
  rcases files D i e is with ⟨before, same⟩ | new
  · obtain ⟨size, spans⟩ := small.files D i e before
    exact ⟨size, spans.congr (before.loose small.sound) shape same⟩
  · exact new

theorem Rewrites.small {e : DirEntry} {added : List Nat} (w : Rewrites I I' D i e added)
    (small : I.Small n) (fatZero : I'.fat 0 = I.fat 0)
    (new : e.Named → e.isDirectory = false →
      e.size ≤ n * I.clusterSize ∧ I'.Spans n e.startCluster) : I'.Small n := by
  refine small.step (w.preserves_sound small.sound) w.shape fatZero fun D' j e' is => ?_
  rcases w.isFile small.sound is with ⟨before, -, same⟩ | rfl
  · exact .inl ⟨before, same⟩
  · exact .inr (new is.2.2.1 is.2.2.2)

theorem Staged.small {L : List Nat} (staged : Staged I J D i O first L) (small : I.Small n) : J.Small n := by
  obtain ⟨e₀, dead, w⟩ := staged.rewrites
  exact w.small small staged.fatZero fun named => absurd named (Named.not_of_dead dead)

/-! ### Writing -/

theorem rounded_le {size : Nat} (positive : 0 < size) (room : 0 < n) (fits : data.length ≤ n * size) :
    (data.length - 1) / size + 1 ≤ n := by
  have below : (data.length - 1) / size < n := by
    rw [Nat.div_lt_iff_lt_mul positive]
    have : 0 < n * size := Nat.mul_pos room positive
    omega
  exact below

theorem Abandoned.spans {e : DirEntry} (a : Abandoned I J O first) (small : I.Small n)
    (dir : I.IsDir D) (vacates : Vacates I D name83 (some e) i O)
    (few : (I.free O).freeList.length ≤ n) : J.Spans n e.startCluster := by
  cases vacates with
  | old _ slot named file =>
    obtain ⟨-, spans⟩ := small.files D i e ⟨dir, slot, named, file⟩
    have loose := small.sound.chained _ _ (.entry dir slot named)
    by_cases two : e.startCluster = 2
    · have starts := loose.walk.start_mem (two ▸ by decide)
      have outside : 2 ∉ (I.free (I.chain e.startCluster)).freeList := fun member => by
        have := (mem_freeList.mp member).1
        omega
      refine .inr (.inr ⟨two, (a.zero_iff 2).mpr ⟨.inr (two ▸ starts), outside⟩, ?_⟩)
      rw [a.shape]
      exact two ▸ (loose.used _ starts).1
    · rcases spans with ⟨inTable, -⟩ | zero | ⟨other, -⟩
      · have starts := loose.walk.start_mem inTable
        have freed : e.startCluster ∈ (I.free (I.chain e.startCluster)).freeList :=
          mem_freeList.mpr ⟨by have := inTable.1; omega, (loose.used _ starts).1, if_pos starts⟩
        obtain ⟨before, after, split⟩ := List.append_of_mem freed
        obtain ⟨strict, chain⟩ := a.chain_of_mem split
        refine .inl ⟨inTable, strict, le_trans ?_ few⟩
        rw [chain, split, List.length_append]
        exact Nat.le_add_left _ _
      · exact .inr (.inl zero)
      · exact absurd other two

theorem Abandoned.small (a : Abandoned I J O first) (small : I.Small n) (dir : I.IsDir D)
    (vacates : Vacates I D name83 old i O) (few : (I.free O).freeList.length ≤ n) : J.Small n := by
  have w := a.rewrites small.sound dir vacates
  have fatZero : J.fat 0 = I.fat 0 := by
    rw [a.fatFrame 0 fun member => absurd (mem_freeList.mp member).1 (by decide)]
    exact if_neg fun member => absurd (vacates.inRange small.sound dir 0 member).2 (by decide)
  refine w.small small fatZero fun named file => ?_
  cases old with
  | none => exact absurd named.1 (by decide)
  | some e => exact ⟨(small.files D i e ⟨dir, vacates.slot.1, named, file⟩).1, a.spans small dir vacates few⟩

/-- **A write of at most `n` clusters**, whether it succeeds or fails. -/
theorem Write.small {b : Bool} (write : Write I names data I' b) (adds : b = true → I.Adds I' data)
    (small : I.Small n) (terminated : ∀ name ∈ names, 0 ∉ name) (positive : 0 < I.clusterSize)
    (room : 0 < n) (fits : data.length ≤ n * I.clusterSize) : I'.Small n := by
  cases write with
  | unresolved _ => exact small
  | directory _ _ _ => exact small
  | @store D i name old O _ _ found entry vacates store =>
    obtain ⟨dir, -⟩ := resolveParent_isDir .root terminated found
    cases store with
    | full _ full => exact (Abandoned.full full).small small dir vacates (by rw [full]; exact Nat.zero_le n)
    | short _ free short stored =>
      refine (Abandoned.short free stored).small small dir vacates ?_
      rw [free, List.length_cons]
      exact (Nat.lt_of_mul_lt_mul_right (short.trans_le fits)).le
    | blocked _ _ _ staged => exact staged.small small
    | done _ staged _ _ inserted =>
      have soundJ := staged.sound small.sound
      obtain ⟨_, -, w⟩ := staged.rewrites
      refine small.step (inserted.rewrites.preserves_sound soundJ)
        (inserted.rewrites.shape.trans w.shape) (inserted.fatZero.trans staged.fatZero) ?_
      intro D' j e is
      rcases adds rfl D' j e is with before | ⟨size, inTable, strict, length⟩
      · exact .inl before
      · refine .inr ⟨size ▸ fits, .inl ⟨inTable, strict, length.trans ?_⟩⟩
        exact rounded_le positive room fits

theorem Delete.small {b : Bool} (delete : Delete I names I' b) (small : I.Small n)
    (terminated : ∀ name ∈ names, 0 ∉ name) : I'.Small n := by
  cases delete with
  | unresolved _ => exact small
  | missing _ _ => exact small
  | directory _ _ _ => exact small
  | @done D i name e O found entry vacates =>
    obtain ⟨dir, -⟩ := resolveParent_isDir .root terminated found
    refine (vacates.delete_rewrites small.sound dir).small small ?_ fun named => ?_
    · rw [putSlot_fat]
      exact if_neg fun member => absurd (vacates.inRange small.sound dir 0 member).2 (by decide)
    · exact absurd named (Named.not_of_dead e.deleted_isDead)

theorem Make.small {b : Bool} (make : Make I names I' b) (small : I.Small n) : I'.Small n := by
  cases make with
  | unresolved _ => exact small
  | full _ _ => exact small
  | blocked _ _ _ staged => exact staged.small small
  | done _ _ _ staged _ inserted =>
    refine inserted.rewrites.small (staged.small small) inserted.fatZero fun _ file => ?_
    rw [DirEntry.isDirectory, buildDirEntry_attributes] at file
    exact absurd file (by decide)

end Image

/-- The bytes that a call writes to a file. -/
def Call.data : Call → List UInt8
  | .writeFile _ data _ => data
  | _ => []

namespace Volume

open Image

variable {v : Volume} {d : Disk} {I : Image} {n : Nat}

section Reading

variable (g : v.Geometry) (r : v.Represents d I) (mark : endOfChain ≤ I.fat 0)
include g r mark

/-- **The loop of `ReadFile`** from the start of a small file. -/
theorem readChainLoop_small {c : Nat} (spans : I.Spans n c) (two : 2 ≤ n) :
    ∃ bytes, v.readChainLoop d loopFuel c = some bytes ∧ bytes.length ≤ n * I.clusterSize := by
  have limit := r.limit_lt g
  have rounds : loopFuel = 2 ^ 32 - 3 + 2 + 1 := rfl
  rcases spans with ⟨inTable, strict, short⟩ | rfl | ⟨rfl, freed, high⟩
  · have length := length_le_of_nodup strict.walk.nodup fun x member => (strict.linked x member).1
    refine ⟨_, readChainLoop_spec r ⟨strict.walk, strict.linked, inTable.1⟩ (by unfold loopFuel; omega), ?_⟩
    rw [flatMap_bytesOf_length]
    exact Nat.mul_le_mul_right _ short
  · obtain ⟨bytes, ran, length⟩ := readChainLoop_zero r mark (2 ^ 32 - 2)
    refine ⟨bytes, ran, ?_⟩
    rw [length]
    exact Nat.le_mul_of_pos_left _ (by omega)
  · obtain ⟨bytes, ran, length⟩ := readChainLoop_zero r mark (2 ^ 32 - 3)
    refine ⟨v.clusterBytes (v.readCluster d 2) ++ bytes, ?_, ?_⟩
    · rw [rounds, readChainLoop_succ _ (by decide), r.nextCluster_eq high, freed, ran]
      rfl
    · rw [List.length_append, clusterBytes_length, r.clusterSize_eq, length, ← Nat.two_mul]
      exact Nat.mul_le_mul_right _ two

end Reading

/-- **`ReadFile`** on a small volume returns, and fills at most `n` clusters of its buffer. -/
theorem readFile_small (g : v.Geometry) (r : v.Represents d I) (small : I.Small n) (two : 2 ≤ n)
    (path : CString) :
    ∃ result, v.readFile d path = some result ∧ ∀ file ∈ result,
      file.1 ≤ n * I.clusterSize ∧ file.2.length ≤ n * I.clusterSize := by
  rw [readFile, resolvePath_spec g r small.sound]
  split_ifs with root
  · exact ⟨none, rfl, fun file none => by cases none⟩
  · cases found : I.resolve I.root (pathComponents path) with
    | none => exact ⟨none, rfl, fun file none => by cases none⟩
    | some e =>
      cases directory : e.isDirectory with
      | true => exact ⟨none, by simp [directory], fun file none => by cases none⟩
      | false =>
        obtain ⟨D, j, dir, slot, named⟩ := resolve_slot (pathComponents_terminated path) found
        obtain ⟨size, spans⟩ := small.files D j e ⟨dir, slot, named, directory⟩
        obtain ⟨bytes, ran, length⟩ := readChainLoop_small g r small.mark spans two
        refine ⟨some (e.size, bytes), by simp [directory, ran], ?_⟩
        rintro file ⟨⟩
        exact ⟨size, length⟩

/-- **Every call returns and keeps the volume small**, if its data fits `n` clusters. -/
theorem call_small (g : v.Geometry) (r : v.Represents d I) (small : I.Small n) (room : 0 < n)
    (call : Call) (fits : call.data.length ≤ n * I.clusterSize) :
    ∃ d' I' b, v.call d call = some (d', b) ∧ v.Represents d' I' ∧ I'.Small n := by
  have terminated := parentComponents_terminated call.path
  have positive : 0 < I.clusterSize := by
    have := g.clusterSize_eq.2.2
    rw [r.clusterSize_eq] at this
    exact lt_of_lt_of_le (by decide) this
  cases call with
  | writeFile path data word =>
    obtain ⟨d', I', b, ran, r', write, adds⟩ := writeFile_adds g r small.sound path word
    exact ⟨d', I', b, ran, r', write.small adds small terminated positive room fits⟩
  | createFile path =>
    obtain ⟨d', I', b, ran, r', write, adds⟩ := writeFile_adds g r small.sound path
      (show ([] : List UInt8).length < 2 ^ 32 by decide)
    exact ⟨d', I', b, ran, r', write.small adds small terminated positive room fits⟩
  | deleteFile path =>
    obtain ⟨d', I', b, ran, r', delete⟩ := deleteFile_spec g r small.sound path
    exact ⟨d', I', b, ran, r', delete.small small terminated⟩
  | makeDir path =>
    obtain ⟨d', I', b, ran, r', make⟩ := makeDir_spec g r small.sound path
    exact ⟨d', I', b, ran, r', make.small small⟩

end Volume

end LaylaOS.Fs
