/-
**Cluster chains: freeing them and writing new ones.**

`Image.chain I c` is the chain of clusters that starts at `c`. A disk `Represents` an image; the
driver's loops are described by what they do to it.
-/

import LaylaOS.Lib.Walk
import LaylaOS.Fs.Image

namespace LaylaOS.Fs

open LaylaOS.Lib

/-- The cluster numbers from which the driver follows a chain. -/
def InTable (c : Nat) : Prop := 2 ≤ c ∧ c < endOfChain

instance : DecidablePred InTable := fun c =>
  inferInstanceAs (Decidable (2 ≤ c ∧ c < endOfChain))

namespace Image

variable {I I' : Image}

/-- The clusters of the chain that starts at `c`. -/
def chain (I : Image) (c : Nat) : List Nat := follow I.fat InTable I.limit c

/-- The chain from `c` ends, stays on the volume, and is not free from cluster 3 on. -/
structure Loose (I : Image) (c : Nat) : Prop where
  walk : Walk I.fat InTable c (I.chain c)
  used : ∀ x ∈ I.chain c, x < I.limit ∧ (x = 2 ∨ I.fat x ≠ 0)

/-- The chain from `c` ends with an end mark and stays on the volume. -/
structure Strict (I : Image) (c : Nat) : Prop where
  walk : Walk I.fat InTable c (I.chain c)
  linked : ∀ x ∈ I.chain c, x < I.limit ∧ 2 ≤ I.fat x

theorem Strict.loose {c : Nat} (strict : I.Strict c) : I.Loose c :=
  ⟨strict.walk, fun x member => ⟨(strict.linked x member).1,
    .inr (by have := (strict.linked x member).2; omega)⟩⟩

theorem length_le_of_nodup {l : List Nat} {limit : Nat} (nodup : l.Nodup)
    (inRange : ∀ x ∈ l, x < limit) : l.length ≤ limit := by
  have subset : l ⊆ List.range limit := fun x member => List.mem_range.mpr (inRange x member)
  have bound := (nodup.subperm subset).length_le
  rwa [List.length_range] at bound

theorem chain_eq {c : Nat} {l : List Nat} (walk : Walk I.fat InTable c l)
    (inRange : ∀ x ∈ l, x < I.limit) : I.chain c = l :=
  follow_eq walk (length_le_of_nodup walk.nodup inRange)

theorem Strict.of_walk {c : Nat} {l : List Nat} (walk : Walk I.fat InTable c l)
    (linked : ∀ x ∈ l, x < I.limit ∧ 2 ≤ I.fat x) : I.Strict c ∧ I.chain c = l := by
  have same := chain_eq walk fun x member => (linked x member).1
  exact ⟨⟨same ▸ walk, same ▸ linked⟩, same⟩

theorem Loose.of_walk {c : Nat} {l : List Nat} (walk : Walk I.fat InTable c l)
    (used : ∀ x ∈ l, x < I.limit ∧ (x = 2 ∨ I.fat x ≠ 0)) : I.Loose c ∧ I.chain c = l := by
  have same := chain_eq walk fun x member => (used x member).1
  exact ⟨⟨same ▸ walk, same ▸ used⟩, same⟩

theorem Loose.chain_congr {c : Nat} (loose : I.Loose c) (shape : I'.toShape = I.toShape)
    (same : ∀ x ∈ I.chain c, I'.fat x = I.fat x) : I'.Loose c ∧ I'.chain c = I.chain c :=
  Loose.of_walk (loose.walk.congr same) fun x member => by
    rw [same x member, shape]
    exact loose.used x member

theorem Strict.chain_congr {c : Nat} (strict : I.Strict c) (shape : I'.toShape = I.toShape)
    (same : ∀ x ∈ I.chain c, I'.fat x = I.fat x) : I'.Strict c ∧ I'.chain c = I.chain c :=
  Strict.of_walk (strict.walk.congr same) fun x member => by
    rw [same x member, shape]
    exact strict.linked x member

/-! ### Updates of an image -/

/-- Free all clusters of a list. -/
def free (I : Image) (l : List Nat) : Image :=
  { I with fat := fun c => if c ∈ l then 0 else I.fat c }

@[simp] theorem free_nil (I : Image) : I.free [] = I := by simp [free]

/-- The bytes of a cluster. -/
def bytesOf (I : Image) (c : Nat) : List UInt8 := (List.range I.clusterSize).map (I.data c)

/-- A cluster that holds `bytes` and zeros behind them. -/
def padded (I : Image) (bytes : List UInt8) : Storage := fun k =>
  if k < I.clusterSize then bytes.getD k 0 else 0

theorem mem_freeList {x : Nat} : x ∈ I.freeList ↔ 3 ≤ x ∧ x < I.limit ∧ I.fat x = 0 := by
  simp only [freeList, List.mem_filter, List.mem_range, Bool.and_eq_true, decide_eq_true_eq]
  tauto

theorem freeList_congr (shape : I'.toShape = I.toShape)
    (same : ∀ x, 3 ≤ x → (I'.fat x = 0 ↔ I.fat x = 0)) : I'.freeList = I.freeList := by
  unfold freeList
  rw [shape]
  refine List.filter_congr fun x _ => ?_
  by_cases low : 3 ≤ x
  · simp [same x low]
  · simp [low]

theorem freeList_setFat {first : Nat} {rest : List Nat} (free : I.freeList = first :: rest)
    {value : Nat} (marked : value ≠ 0) : (I.setFat first value).freeList = rest := by
  have nodup : I.freeList.Nodup := List.nodup_range.filter _
  rw [free, List.nodup_cons] at nodup
  have removed : (I.setFat first value).freeList = I.freeList.filter (· ≠ first) := by
    unfold freeList
    rw [List.filter_filter]
    refine List.filter_congr fun x _ => ?_
    by_cases same : x = first
    · simp [setFat, same, marked]
    · simp [setFat, same]
  rw [removed, free, List.filter_cons_of_neg (by simp), List.filter_eq_self]
  intro x member
  simpa using fun same : x = first => nodup.1 (same ▸ member)

theorem bytesOf_length (I : Image) (c : Nat) : (I.bytesOf c).length = I.clusterSize := by
  simp [bytesOf]

theorem flatMap_bytesOf_length (J : Image) (l : List Nat) :
    (l.flatMap J.bytesOf).length = l.length * J.clusterSize := by
  induction l with
  | nil => simp
  | cons x l ih => rw [List.flatMap_cons, List.length_append, bytesOf_length, ih, List.length_cons,
      Nat.succ_mul, Nat.add_comm]

theorem map_padded (I : Image) (bytes : List UInt8) (fits : bytes.length ≤ I.clusterSize) :
    ((List.range I.clusterSize).map (I.padded bytes)).take bytes.length = bytes := by
  refine List.ext_getElem? fun k => ?_
  rw [List.getElem?_take]
  by_cases inside : k < bytes.length
  · rw [if_pos inside, List.getElem?_map, List.getElem?_range (by omega), Option.map_some, padded,
      if_pos (by omega), List.getD_eq_getElem?_getD, List.getElem?_eq_getElem inside]
    rfl
  · rw [if_neg inside, List.getElem?_eq_none (by omega)]

/-- The result of writing `data` into the clusters `first :: rest`: they form a chain and hold as
much of `data` as fits; everything else is as it was. -/
structure Stored (I I' : Image) (first : Nat) (rest : List Nat) (data : List UInt8) : Prop where
  shape : I'.toShape = I.toShape
  fatFrame : ∀ x ∉ first :: rest, I'.fat x = I.fat x
  dataFrame : ∀ x ∉ first :: rest, I'.data x = I.data x
  walk : Walk I'.fat InTable first (first :: rest)
  linked : ∀ x ∈ first :: rest, 2 ≤ I'.fat x
  bytes : ((first :: rest).flatMap I'.bytesOf).take data.length =
    data.take ((rest.length + 1) * I.clusterSize)

theorem stored_single {first value : Nat} {data : List UInt8} (inTable : InTable first)
    (mark : ¬ InTable value) (linked : 2 ≤ value) :
    Stored I ((I.setData first (I.padded (data.take I.clusterSize))).setFat first value) first [] data where
  shape := rfl
  fatFrame x other := setFat_of_ne _ _ (by simpa using other)
  dataFrame x other := setData_of_ne _ _ (by simpa using other)
  walk := ⟨rfl, inTable, by rw [setFat_self]; exact mark⟩
  linked x member := by
    rw [List.mem_singleton.mp member, setFat_self]
    exact linked
  bytes := by
    have whole : ((I.setData first (I.padded (data.take I.clusterSize))).setFat first value).bytesOf
        first = (List.range I.clusterSize).map (I.padded (data.take I.clusterSize)) := by
      simp [bytesOf]
    have starts := I.map_padded (data.take I.clusterSize) (List.length_take_le _ _)
    rw [List.flatMap_singleton, whole, List.length_nil, Nat.zero_add, Nat.one_mul]
    rw [List.length_take] at starts
    by_cases fits : data.length ≤ I.clusterSize
    · rw [Nat.min_eq_right fits] at starts
      exact starts
    · rw [Nat.min_eq_left (by omega)] at starts
      rw [List.take_of_length_le (by simp; omega)]
      rw [List.take_of_length_le (by simp)] at starts
      exact starts

theorem Stored.cons {cluster next : Nat} {rest : List Nat} {data : List UInt8}
    (stored : Stored (((I.setData cluster (I.padded (data.take I.clusterSize))).setFat
      cluster next).setFat next 0x0FFFFFFF) I' next rest (data.drop I.clusterSize))
    (inTable : InTable cluster) (follows : 2 ≤ next) (fresh : cluster ∉ next :: rest)
    (long : I.clusterSize < data.length) : Stored I I' cluster (next :: rest) data := by
  have link : I'.fat cluster = next := by
    rw [stored.fatFrame cluster fresh, setFat_of_ne _ _ (fun same => fresh (by simp [same])), setFat_self]
  have shape : I'.toShape = I.toShape := stored.shape
  refine ⟨shape, fun x other => ?_, fun x other => ?_, ?_, fun x member => ?_, ?_⟩
  · obtain ⟨notFirst, notLater⟩ := not_or.mp (mt List.mem_cons.mpr other)
    rw [stored.fatFrame x notLater, setFat_of_ne _ _ (fun same => notLater (by simp [same])),
      setFat_of_ne _ _ notFirst, setData_fat]
  · obtain ⟨notFirst, notLater⟩ := not_or.mp (mt List.mem_cons.mpr other)
    rw [stored.dataFrame x notLater, setFat_data, setFat_data, setData_of_ne _ _ notFirst]
  · exact ⟨rfl, inTable, by rw [link]; exact stored.walk⟩
  · rcases List.mem_cons.mp member with here | later
    · rw [here, link]
      exact follows
    · exact stored.linked x later
  · have chunk : I'.bytesOf cluster = data.take I.clusterSize := by
      have starts := I.map_padded (data.take I.clusterSize) (List.length_take_le _ _)
      rw [List.length_take, Nat.min_eq_left (by omega), List.take_of_length_le (by simp)] at starts
      rw [bytesOf, shape, stored.dataFrame cluster fresh, setFat_data, setFat_data, setData_self]
      exact starts
    have later := stored.bytes
    rw [List.length_drop] at later
    rw [List.flatMap_cons, chunk, List.take_append, List.length_take, Nat.min_eq_left (by omega),
      later, List.take_of_length_le (by rw [List.length_take]; omega), List.length_cons,
      Nat.succ_mul (rest.length + 1), Nat.add_comm (_ * _), List.take_add]
    rfl

end Image

namespace Volume

open Image

variable {v : Volume} {d : Disk} {I : Image}

/-- The disk holds the volume `I`, with identical FAT copies. -/
structure Represents (v : Volume) (d : Disk) (I : Image) : Prop where
  synced : v.Synced d
  image : v.image d = I

namespace Represents

variable (r : v.Represents d I)
include r

theorem root_eq : v.bpb.rootCluster = I.root := congrArg (·.root) r.image

theorem limit_eq : v.maxCluster = I.limit := congrArg (·.limit) r.image

theorem limit_lt (g : v.Geometry) : I.limit < 0x0FE04000 := r.limit_eq ▸ g.limit_lt

theorem clusterSize_eq : v.clusterSize = I.clusterSize := congrArg (·.clusterSize) r.image

theorem nextCluster_eq {c : Nat} (high : c < I.limit) : v.nextCluster d c = I.fat c := by
  rw [← r.image]
  exact (if_pos (r.limit_eq ▸ high)).symm

theorem readCluster_eq {c : Nat} (low : 2 ≤ c) (high : c < I.limit) : v.readCluster d c = I.data c := by
  rw [← r.image]
  exact (if_pos ⟨low, r.limit_eq ▸ high⟩).symm

theorem allocCluster_eq (g : v.Geometry) : v.allocCluster d = I.freeList.headD 0 := by
  rw [g.allocCluster_eq, r.image]

theorem setFATEntry (g : v.Geometry) {c value : Nat} (high : c < I.limit)
    (small : value < 2 ^ 28) : v.Represents (v.setFATEntry d c value) (I.setFat c value) := by
  rw [← r.limit_eq] at high
  refine ⟨g.synced_setFATEntry r.synced high value, ?_⟩
  rw [g.image_setFATEntry d high, r.image, Nat.mod_eq_of_lt small]

theorem writeCluster (g : v.Geometry) {c : Nat} (low : 2 ≤ c) (high : c < I.limit) (buffer : Storage) :
    v.Represents (v.writeCluster d c buffer) (I.setData c (v.clip buffer)) := by
  rw [← r.limit_eq] at high
  refine ⟨g.synced_writeCluster r.synced low high buffer, ?_⟩
  rw [g.image_writeCluster d low high, r.image]

end Represents

/-! ### Freeing a chain -/

theorem freeChainLoop_spec (g : v.Geometry) {c fuel : Nat} {l : List Nat}
    (r : v.Represents d I) (walk : Walk I.fat InTable c l) (inRange : ∀ x ∈ l, x < I.limit)
    (enough : l.length < fuel) :
    ∃ d', v.freeChainLoop fuel d c = some d' ∧ v.Represents d' (I.free l) := by
  induction l generalizing d I c fuel with
  | nil =>
    obtain ⟨fuel, rfl⟩ := Nat.exists_eq_add_of_lt enough
    refine ⟨d, ?_, ?_⟩
    · simp only [freeChainLoop]
      exact if_neg walk
    · have nothing : I.free [] = I := by simp [Image.free]
      rw [nothing]
      exact r
  | cons first rest ih =>
    obtain ⟨here, entered, later⟩ := walk
    subst here
    obtain ⟨fuel, rfl⟩ : ∃ more, fuel = more + 1 := ⟨fuel - 1, by omega⟩
    rw [List.length_cons] at enough
    have high := inRange first List.mem_cons_self
    have fresh : first ∉ rest := (List.nodup_cons.mp (show Walk I.fat InTable first
      (first :: rest) from ⟨rfl, entered, later⟩).nodup).1
    have onward : Walk (I.setFat first 0).fat InTable (I.fat first) rest :=
      later.congr fun x member => I.setFat_of_ne 0 fun same => fresh (same ▸ member)
    obtain ⟨d', freed, r'⟩ := ih (r.setFATEntry g high (by decide)) onward
      (fun x member => inRange x (List.mem_cons_of_mem _ member))
      (show rest.length < fuel by omega)
    refine ⟨d', ?_, ?_⟩
    · rw [freeChainLoop, if_pos (show 2 ≤ first ∧ first < endOfChain from entered)]
      simp only
      rw [r.nextCluster_eq high]
      exact freed
    · have both : (I.setFat first 0).free rest = I.free (first :: rest) := by
        refine Image.ext rfl rfl rfl (funext fun x => ?_) rfl
        by_cases same : x = first <;> by_cases member : x ∈ rest <;> simp [Image.free, setFat, same, member]
      rw [← both]
      exact r'

/-! ### Writing a chain -/

theorem clip_padded (r : v.Represents d I) (g : v.Geometry) (data : List UInt8) :
    (v.clip fun k => (data.take v.bufSize).getD k 0) = I.padded (data.take I.clusterSize) := by
  funext k
  rw [g.clusterSize_eq.1, r.clusterSize_eq, clip, padded, r.clusterSize_eq]

section Marked

variable {cluster : Nat} (marked : I.fat cluster = 0x0FFFFFFF)
include marked

theorem marked_notMem_freeList : cluster ∉ I.freeList := by
  intro free
  rw [mem_freeList, marked] at free
  omega

theorem setFat_marked (data : Nat → UInt8) :
    (I.setData cluster data).setFat cluster 0x0FFFFFFF = I.setData cluster data := by
  refine Image.ext rfl rfl rfl (funext fun x => ?_) rfl
  by_cases same : x = cluster
  · rw [same, setFat_self, setData_fat, marked]
  · rw [setFat_of_ne _ _ same]

theorem freeList_linked {next : Nat} {rest : List Nat} (free : I.freeList = next :: rest) (data : Nat → UInt8) :
    (((I.setData cluster data).setFat cluster next).setFat next 0x0FFFFFFF).freeList = rest := by
  have isFree : next ∈ I.freeList := free ▸ List.mem_cons_self
  have positive := (mem_freeList.mp isFree).1
  refine freeList_setFat ?_ (by decide)
  rw [← free]
  refine freeList_congr rfl fun x _ => ?_
  by_cases same : x = cluster
  · rw [same, setFat_self, marked]
    omega
  · rw [setFat_of_ne _ _ same, setData_fat]

end Marked

theorem writeChainLoop_spec (g : v.Geometry) {cluster fuel : Nat} {data : List UInt8}
    (r : v.Represents d I) (low : 3 ≤ cluster) (high : cluster < I.limit)
    (marked : I.fat cluster = 0x0FFFFFFF) (nonempty : data ≠ []) (enough : data.length < fuel) :
    ∃ d' I', v.writeChainLoop fuel d cluster data =
        some (d', decide (data.length ≤ (I.freeList.length + 1) * I.clusterSize)) ∧
      v.Represents d' I' ∧
      Stored I I' cluster (I.freeList.take ((data.length - 1) / I.clusterSize)) data := by
  have limit := r.limit_lt g
  have size : 512 ≤ I.clusterSize := r.clusterSize_eq ▸ g.clusterSize_eq.2.2
  have inTable : InTable cluster := ⟨by omega, by unfold endOfChain; omega⟩
  induction fuel generalizing d I cluster data with
  | zero => omega
  | succ fuel ih =>
    have wrote := r.writeCluster g (by omega) high fun k => (data.take v.bufSize).getD k 0
    rw [clip_padded r g] at wrote
    rw [writeChainLoop, if_neg nonempty]
    simp only
    rw [g.clusterSize_eq.1, r.clusterSize_eq] at wrote ⊢
    by_cases short : data.length ≤ I.clusterSize
    · -- the last cluster: the loop sets its end mark and leaves
      have ends : v.Represents (v.setFATEntry _ cluster 0x0FFFFFFF) _ := wrote.setFATEntry g high (by decide)
      obtain ⟨fuel, rfl⟩ : ∃ more, fuel = more + 1 :=
        ⟨fuel - 1, by have := List.length_pos_of_ne_nil nonempty; omega⟩
      have all : data.drop I.clusterSize = [] := List.drop_of_length_le short
      have none : (data.length - 1) / I.clusterSize = 0 := Nat.div_eq_of_lt (by omega)
      refine ⟨_, _, ?_, ends, ?_⟩
      · rw [if_neg (by simp [all]), writeChainLoop, if_pos all, decide_eq_true]
        rw [Nat.succ_mul]
        omega
      · rw [none, List.take_zero]
        exact stored_single inTable (by unfold InTable endOfChain; omega) (by omega)
    · have more : data.drop I.clusterSize ≠ [] := by
        rw [Ne, List.drop_eq_nil_iff]
        exact short
      have rounds : (data.length - 1) / I.clusterSize =
          ((data.drop I.clusterSize).length - 1) / I.clusterSize + 1 := by
        rw [List.length_drop, Nat.div_eq_sub_div (by omega) (by omega)]
        congr 2
        omega
      rw [if_pos more, wrote.allocCluster_eq g]
      have sameFree : (I.setData cluster (I.padded (data.take I.clusterSize))).freeList =
          I.freeList := freeList_congr rfl fun _ _ => Iff.rfl
      rw [sameFree]
      cases free : I.freeList with
      | nil =>
        -- no cluster is left: the chain ends at this one, which has its end mark already
        refine ⟨_, _, ?_, wrote, ?_⟩
        · rw [List.headD_nil, if_pos rfl, decide_eq_false]
          simpa using short
        · rw [List.take_nil, ← setFat_marked marked]
          exact stored_single inTable (by unfold InTable endOfChain; omega) (by omega)
      | cons next rest =>
        have isFree : next ∈ I.freeList := by rw [free]; exact List.mem_cons_self
        obtain ⟨low', high', zero⟩ := mem_freeList.mp isFree
        have different : cluster ≠ next := fun same => by rw [← same, marked] at zero; omega
        have linked := wrote.setFATEntry g high (show next < 2 ^ 28 by omega)
        have ready : v.Represents (v.setFATEntry _ next 0x0FFFFFFF) _ := linked.setFATEntry g high' (by decide)
        have taken := freeList_linked marked free (I.padded (data.take I.clusterSize))
        have fresh : ∀ count, cluster ∉ next :: rest.take count := by
          intro count member
          refine marked_notMem_freeList marked (free ▸ ?_)
          rcases List.mem_cons.mp member with here | later
          · exact here ▸ List.mem_cons_self
          · exact List.mem_cons_of_mem _ (List.mem_of_mem_take later)
        obtain ⟨d', I', ran, r', stored⟩ := ih ready low' high' (setFat_self ..) more
          (by rw [List.length_drop]; omega) limit size
          ⟨by omega, by unfold endOfChain; omega⟩
        refine ⟨d', I', ?_, r', ?_⟩
        · rw [List.headD_cons, if_neg (by omega), ran, taken, List.length_drop,
            List.length_cons, Nat.succ_mul (rest.length + 1)]
          refine congrArg (fun stored => some (d', stored)) (decide_eq_decide.mpr ?_)
          show data.length - I.clusterSize ≤ (rest.length + 1) * I.clusterSize ↔ _
          omega
        · rw [rounds, List.take_succ_cons]
          rw [taken] at stored
          exact stored.cons inTable (by omega) (fresh _) (by omega)

/-- **Writing a chain.** The clusters behind `cluster` are the first free ones, as many as `data`
needs; the call fails exactly if there are too few, after taking them all. -/
theorem writeClusterChain_spec (g : v.Geometry) {cluster : Nat} {data : List UInt8}
    (r : v.Represents d I) (low : 3 ≤ cluster) (high : cluster < I.limit)
    (marked : I.fat cluster = 0x0FFFFFFF) (word : data.length < 2 ^ 32) :
    ∃ d' I', v.writeClusterChain d cluster data =
        some (d', decide (data.length ≤ (I.freeList.length + 1) * I.clusterSize)) ∧
      v.Represents d' I' ∧
      Stored I I' cluster (I.freeList.take ((data.length - 1) / I.clusterSize)) data := by
  unfold writeClusterChain
  by_cases empty : data = []
  · have limit := r.limit_lt g
    have wrote := r.writeCluster g (by omega) high fun _ => 0
    have zeros : (v.clip fun _ => 0) = I.padded (data.take I.clusterSize) := by
      funext k
      simp [clip, padded, empty]
    have ends : v.Represents (v.setFATEntry _ cluster 0x0FFFFFFF) _ := wrote.setFATEntry g high (by decide)
    rw [zeros] at ends
    refine ⟨_, _, ?_, ends, ?_⟩
    · rw [if_pos empty, decide_eq_true (by simp [empty])]
    · have none : I.freeList.take ((data.length - 1) / I.clusterSize) = [] := by simp [empty]
      rw [none]
      exact stored_single ⟨by omega, by unfold endOfChain; omega⟩
        (by unfold InTable endOfChain; omega) (by omega)
  · rw [if_neg empty]
    exact writeChainLoop_spec g r low high marked empty word

end Volume

end LaylaOS.Fs
