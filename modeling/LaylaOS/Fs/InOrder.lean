/-
**Directories whose chains stay in the volume.**

The driver compares the cluster numbers that it reads from the disk with the end mark only. As long as the
numbers that a loop over a directory comes to are those of clusters, and the chain that is freed has nothing
to do with them, the loops behind it look at the same clusters of the directory, or at fewer.
-/

import LaylaOS.Fs.Permits
import LaylaOS.Fs.Seek

namespace LaylaOS.Fs

open LaylaOS.Lib

namespace Volume

section Definitions

variable (v : Volume) (d : Disk) (stops : Stops)

/-- A cluster of the volume. -/
def IsCluster (c : Nat) : Prop := 2 ≤ c ∧ c < v.maxCluster

/-- The loop looks at clusters of the volume only. -/
def InOrder (start : Nat) : Prop := ∀ c, v.Visits d stops start c → c < endOfChain → v.IsCluster c

/-- The loop is in order, and it ends if that is asked for. -/
structure Orderly (finite : Prop) (start : Nat) : Prop where
  inOrder : v.InOrder d stops start
  halts : finite → v.Halts d stops start

end Definitions

variable {v : Volume} {d d' : Disk} {stops stops' : Stops} {finite : Prop} {start : Nat}

/-- **The rule for a loop on a changed disk.** Some clusters of the volume are led to an end mark now, over
one other of them at most; behind the others the loop goes on as before, or not at all. -/
theorem Orderly.reroute {T : Nat → Prop} (orderly : v.Orderly d stops finite start)
    (same : ∀ c, v.Visits d stops start c → v.Goes d' stops' c →
      T c ∨ (v.Goes d stops c ∧ v.nextCluster d' c = v.nextCluster d c))
    (taken : ∀ c, T c → v.IsCluster c ∧ (endOfChain ≤ v.nextCluster d' c ∨
      (T (v.nextCluster d' c) ∧ endOfChain ≤ v.nextCluster d' (v.nextCluster d' c)))) :
    v.Orderly d' stops' finite start := by
  have ended : ∀ c, endOfChain ≤ c → ∃ places, Walk (v.nextCluster d') (v.Goes d' stops') c places :=
    fun c high => ⟨[], fun on => absurd on.1 (Nat.not_lt_of_le high)⟩
  have onward : ∀ c, (∃ places, Walk (v.nextCluster d') (v.Goes d' stops') (v.nextCluster d' c) places) →
      ∃ places, Walk (v.nextCluster d') (v.Goes d' stops') c places := by
    rintro c ⟨places, walk⟩
    by_cases on : v.Goes d' stops' c
    · exact ⟨c :: places, rfl, on, walk⟩
    · exact ⟨[], on⟩
  have stays : ∀ c, T c ∨ endOfChain ≤ c → v.Goes d' stops' c →
      T (v.nextCluster d' c) ∨ endOfChain ≤ v.nextCluster d' c := by
    rintro c (inT | high) on
    · exact ((taken c inT).2.imp_right And.left).symm
    · exact absurd on.1 (Nat.not_lt_of_le high)
  have reached : ∀ c, v.Visits d' stops' start c → v.Visits d stops start c ∨ T c ∨ endOfChain ≤ c :=
    fun c => Comes.reroute (fun c visits on => (same c visits on).imp_left .inl) stays
  constructor
  · intro c visits low
    rcases reached c visits with before | inT | high
    · exact orderly.inOrder c before low
    · exact (taken c inT).1
    · exact absurd low (Nat.not_lt_of_le high)
  · intro asked
    obtain ⟨clusters, walk⟩ := orderly.halts asked
    refine walk.reroute (T := T) (fun c visits on => ?_) fun c inT => onward c ?_
    · rcases reached c visits with before | inT | high
      · exact same c before on
      · exact .inl inT
      · exact absurd on.1 (Nat.not_lt_of_le high)
    · rcases (taken c inT).2 with high | ⟨-, high⟩
      · exact ended _ high
      · exact onward _ (ended _ high)

theorem Orderly.transfer (orderly : v.Orderly d stops finite start)
    (same : ∀ c, v.Visits d stops start c → v.Goes d' stops' c →
      v.Goes d stops c ∧ v.nextCluster d' c = v.nextCluster d c) : v.Orderly d' stops' finite start :=
  orderly.reroute (T := fun _ => False) (fun c visits on => .inr (same c visits on)) fun _ none => none.elim

theorem Orderly.grows {T : Nat → Prop} (orderly : v.Orderly d stops finite start)
    (same : ∀ c, v.IsCluster c → ¬ T c →
      v.nextCluster d' c = v.nextCluster d c ∧ v.readCluster d' c = v.readCluster d c)
    (taken : ∀ c, T c → v.IsCluster c ∧ (endOfChain ≤ v.nextCluster d' c ∨
      (T (v.nextCluster d' c) ∧ endOfChain ≤ v.nextCluster d' (v.nextCluster d' c)))) :
    v.Orderly d' stops finite start := by
  refine orderly.reroute (fun c visits on => ?_) taken
  by_cases inT : T c
  · exact .inl inT
  · obtain ⟨next, content⟩ := same c (orderly.inOrder c visits on.1) inT
    exact .inr ⟨⟨on.1, content ▸ on.2⟩, next⟩

/-! ### The writes of the driver -/

theorem isCluster_allocCluster (given : v.allocCluster d ≠ 0) : v.IsCluster (v.allocCluster d) := by
  obtain ⟨-, low, high⟩ := allocCluster_spec given
  exact ⟨Nat.le_of_succ_le low, high⟩

namespace Placement

variable (g : v.Placement) (d)
include g

theorem keeps_setFATEntry {c x : Nat} (inTable : c < 128 * v.bpb.fatSize32) (small : c < endOfChain)
    (value : Nat) (inside : v.IsCluster x) :
    (x ≠ c → v.nextCluster (v.setFATEntry d c value) x = v.nextCluster d x) ∧
      v.readCluster (v.setFATEntry d c value) x = v.readCluster d x := by
  have small : c < 2 ^ 30 := small.trans (by decide)
  have limit := g.limit_lt
  have high := inside.2
  refine ⟨fun other => ?_, g.readCluster_setFATEntry d inTable small value inside.1 high⟩
  rw [g.nextCluster_setFATEntry d inTable small value (high.trans_le g.covered) (by omega), if_neg other]

theorem marked_ends {c : Nat} (inside : v.IsCluster c) :
    endOfChain ≤ v.nextCluster (v.setFATEntry d c 0x0FFFFFFF) c := by
  have inTable := inside.2.trans_le g.covered
  have limit := g.limit_lt
  have high := inside.2
  rw [g.nextCluster_setFATEntry d inTable (by omega) _ inTable (by omega), if_pos rfl]
  decide

theorem keeps_writeCluster {c x : Nat} (cluster : v.IsCluster c) (buffer : Storage) (inside : v.IsCluster x) :
    v.nextCluster (v.writeCluster d c buffer) x = v.nextCluster d x ∧
      (x ≠ c → v.readCluster (v.writeCluster d c buffer) x = v.readCluster d x) := by
  refine ⟨g.nextCluster_writeCluster d cluster.1 cluster.2 buffer inside.2, fun other => ?_⟩
  rw [g.readCluster_writeCluster d cluster.1 cluster.2 buffer inside.1 inside.2, if_neg other]

theorem small {c : Nat} (inside : v.IsCluster c) : c < 128 * v.bpb.fatSize32 ∧ c < endOfChain := by
  have limit := g.limit_lt
  have high := inside.2
  exact ⟨high.trans_le g.covered, by unfold endOfChain; omega⟩

end Placement

section Allocation

variable (g : v.Placement) (orderly : v.Orderly d stops finite start)
include g orderly

theorem Orderly.mark {c : Nat} (cluster : v.IsCluster c) :
    v.Orderly (v.setFATEntry d c 0x0FFFFFFF) stops finite start := by
  obtain ⟨inTable, small⟩ := g.small cluster
  refine orderly.grows (T := (· = c)) (fun x inside other => ?_) ?_
  · exact (g.keeps_setFATEntry d inTable small _ inside).imp_left (· other)
  · rintro _ rfl
    exact ⟨cluster, .inl (g.marked_ends d cluster)⟩

theorem Orderly.write {c : Nat} (cluster : v.IsCluster c) (last : endOfChain ≤ v.nextCluster d c)
    (buffer : Storage) : v.Orderly (v.writeCluster d c buffer) stops finite start := by
  refine orderly.grows (T := (· = c)) (fun x inside other => ?_) ?_
  · exact (g.keeps_writeCluster d cluster buffer inside).imp_right (· other)
  · rintro _ rfl
    exact ⟨cluster, .inl (by rw [(g.keeps_writeCluster d cluster buffer cluster).1]; exact last)⟩

theorem Orderly.link {c next : Nat} (cluster : v.IsCluster c) (cluster' : v.IsCluster next) :
    v.Orderly (v.setFATEntry (v.setFATEntry d c next) next 0x0FFFFFFF) stops finite start := by
  obtain ⟨inTable, small⟩ := g.small cluster
  obtain ⟨inTable', small'⟩ := g.small cluster'
  have last := g.marked_ends (v.setFATEntry d c next) cluster'
  refine orderly.grows (T := fun x => x = c ∨ x = next) (fun x inside other => ?_) ?_
  · obtain ⟨other, other'⟩ := not_or.mp other
    have one := g.keeps_setFATEntry d inTable small next inside
    have two := g.keeps_setFATEntry (v.setFATEntry d c next) inTable' small' 0x0FFFFFFF inside
    exact ⟨(two.1 other').trans (one.1 other), two.2.trans one.2⟩
  · rintro x (rfl | rfl)
    · refine ⟨cluster, ?_⟩
      by_cases same : x = next
      · subst same
        exact .inl last
      · have linked : v.nextCluster (v.setFATEntry (v.setFATEntry d x next) next 0x0FFFFFFF) x = next := by
          have high := cluster'.2
          have limit := g.limit_lt
          rw [(g.keeps_setFATEntry _ inTable' small' _ cluster).1 same,
            g.nextCluster_setFATEntry d inTable (small.trans (by decide)) _ inTable
              (small.trans (by decide)), if_pos rfl, Nat.mod_eq_of_lt (by omega)]
        rw [linked]
        exact .inr ⟨.inr rfl, last⟩
    · exact ⟨cluster', .inl last⟩

theorem Orderly.writeChainLoop {fuel c : Nat} {rest : List UInt8} {stored : Bool} (cluster : v.IsCluster c)
    (last : endOfChain ≤ v.nextCluster d c)
    (ran : v.writeChainLoop fuel d c rest = some (d', stored)) : v.Orderly d' stops finite start := by
  induction fuel generalizing d c rest with
  | zero => cases ran
  | succ fuel ih =>
    have wrote := orderly.write g cluster last fun k => (rest.take v.bufSize).getD k 0
    rw [Volume.writeChainLoop] at ran
    dsimp only at ran
    split_ifs at ran with done more full
    · cases ran
      exact orderly
    · cases ran
      exact wrote
    · have cluster' := isCluster_allocCluster full
      exact ih (wrote.link g cluster cluster') cluster' (g.marked_ends _ cluster') ran
    · exact ih (wrote.mark g cluster) cluster (g.marked_ends _ cluster) ran

theorem Orderly.stored {fuel : Nat} {data : List UInt8} {stored : Bool} (given : v.allocCluster d ≠ 0)
    (ran : (Run.writeClusterChain v fuel (v.setFATEntry d (v.allocCluster d) 0x0FFFFFFF)
      (v.allocCluster d) data).result = some (d', stored)) : v.Orderly d' stops finite start := by
  have cluster := isCluster_allocCluster given
  have marked := orderly.mark g cluster
  have last := g.marked_ends d cluster
  unfold Run.writeClusterChain at ran
  split_ifs at ran
  · cases ran
    exact (marked.write g cluster last _).mark g cluster
  · rw [Run.writeChainLoop_result] at ran
    exact marked.writeChainLoop g cluster last ran

end Allocation

/-! ### Freeing a chain -/

/-- The loop that frees a chain stops at the numbers below 2. -/
def freeStops : Stops := fun c _ => c < 2

/-- The numbers that the free loop comes to have an entry in the FAT. -/
def StaysInTable (v : Volume) (d : Disk) (start : Nat) : Prop :=
  ∀ c, v.Visits d freeStops start c → 2 ≤ c → c < endOfChain → c < 128 * v.bpb.fatSize32

section Freeing

variable (g : v.Placement) (inTable : v.StaysInTable d start)
include g inTable

theorem Visits.freed (low : 2 ≤ start) (high : start < endOfChain) {c : Nat}
    (visits : v.Visits (v.setFATEntry d start 0) freeStops (v.nextCluster d start) c) :
    v.Visits d freeStops start c ∨ c = 0 := by
  have first := inTable start .refl low high
  have on : v.Goes d freeStops start := ⟨high, Nat.not_lt_of_le low⟩
  have next {x : Nat} (here : x < 128 * v.bpb.fatSize32) (small : x < endOfChain) :
      v.nextCluster (v.setFATEntry d start 0) x = if x = start then 0 else v.nextCluster d x :=
    g.nextCluster_setFATEntry d first (high.trans (by decide)) 0 here (small.trans (by decide))
  have reached : v.Visits d freeStops (v.nextCluster d start) c ∨ c = start ∨ c = 0 := by
    refine Comes.reroute (T := fun x => x = start ∨ x = 0) (fun x before goes => ?_) (fun x inT goes => ?_)
      visits
    · by_cases same : x = start
      · exact .inl (.inl same)
      · have here := inTable x (.head ⟨on, rfl⟩ before) (Nat.le_of_not_lt goes.2) goes.1
        exact .inr ⟨goes, by rw [next here goes.1, if_neg same]⟩
    · rcases inT with rfl | rfl
      · exact .inr (by rw [next first high, if_pos rfl])
      · exact absurd (show 0 < 2 by decide) goes.2
  rcases reached with before | rfl | rfl
  · exact .inl (.head ⟨on, rfl⟩ before)
  · exact .inl .refl
  · exact .inr rfl

theorem StaysInTable.next (low : 2 ≤ start) (high : start < endOfChain) :
    v.StaysInTable (v.setFATEntry d start 0) (v.nextCluster d start) := by
  intro c visits low' high'
  rcases visits.freed g inTable low high with before | rfl
  · exact inTable c before low' high'
  · exact absurd low' (by decide)

theorem freeChainLoop_keeps {fuel : Nat} (ran : v.freeChainLoop fuel d start = some d') {x : Nat}
    (inside : v.IsCluster x) :
    (¬ v.Visits d freeStops start x → v.nextCluster d' x = v.nextCluster d x) ∧
      v.readCluster d' x = v.readCluster d x := by
  induction fuel generalizing d start with
  | zero => cases ran
  | succ fuel ih =>
    rw [freeChainLoop] at ran
    split_ifs at ran with goes
    · obtain ⟨low, high⟩ := goes
      have first := inTable start .refl low high
      have one := g.keeps_setFATEntry d first high 0 inside
      have later := ih (inTable.next g low high) ran
      refine ⟨fun other => ?_, later.2.trans one.2⟩
      rw [later.1 fun visits => ?_, one.1 fun same => other (same ▸ .refl)]
      rcases visits.freed g inTable low high with before | rfl
      · exact other before
      · exact absurd inside.1 (by decide)
    · cases ran
      exact ⟨fun _ => rfl, rfl⟩

end Freeing

/-- The free loop leaves a loop over a directory alone: it comes to numbers with an entry in the FAT, and to
no cluster that the other goes on behind. -/
structure Spares (v : Volume) (d : Disk) (stops : Stops) (D start : Nat) : Prop where
  inTable : v.StaysInTable d start
  apart : ∀ c, v.Visits d freeStops start c → v.Visits d stops D c → ¬ v.Goes d stops c

theorem Orderly.freed (g : v.Placement) {fuel D : Nat} (orderly : v.Orderly d stops finite D)
    (spares : v.Spares d stops D start) (ran : v.freeChainLoop fuel d start = some d') :
    v.Orderly d' stops finite D := by
  refine orderly.transfer fun c visits on => ?_
  obtain ⟨links, content⟩ := freeChainLoop_keeps g spares.inTable ran (orderly.inOrder c visits on.1)
  have goes : v.Goes d stops c := ⟨on.1, content ▸ on.2⟩
  exact ⟨goes, links fun freed => spares.apart c freed visits goes⟩

/-! ### Deleting an entry -/

theorem scan_stop {skips : DirEntry → Bool} {name83 : Name} {entries : List DirEntry} {k : Nat}
    (stop : scan skips name83 entries k = .stop) : ∃ e ∈ entries, e.first = 0 := by
  induction entries generalizing k with
  | nil => cases stop
  | cons e rest ih =>
    have later (found : scan skips name83 rest (k + 1) = .stop) : ∃ e' ∈ e :: rest, e'.first = 0 :=
      let ⟨e', member, unused⟩ := ih found
      ⟨e', List.mem_cons_of_mem e member, unused⟩
    rw [scan] at stop
    split_ifs at stop with unused
    · exact ⟨e, List.mem_cons_self, unused⟩
    · exact later stop
    · exact later stop

theorem addStops_of_dead {c : Nat} {buffer : Storage} {e : DirEntry}
    (member : e ∈ entriesOf (v.bufSize / 32) buffer) (dead : e.isDead = true) :
    v.addStops c buffer :=
  List.findIdx?_isSome.trans (List.any_eq_true.mpr ⟨e, member, dead⟩)

theorem addStops_of_stop {skips : DirEntry → Bool} {name83 : Name} {c : Nat} {buffer : Storage}
    (stop : scan skips name83 (entriesOf (v.bufSize / 32) buffer) 0 = .stop) : v.addStops c buffer := by
  obtain ⟨e, member, unused⟩ := scan_stop stop
  exact addStops_of_dead member (DirEntry.isDead_iff.mpr (.inl unused))

section Directory

variable (g : v.Placement) {name83 : Name} {D : Nat}
include g

theorem addStops_of_deleted {c i : Nat} (cluster : v.IsCluster c) (slot : i < v.bufSize / 32) (e : DirEntry) :
    v.addStops c (v.readCluster (v.writeCluster d c (putEntry (v.readCluster d c) i e.deleted)) c) := by
  have fits := g.clusterSize_eq.1
  rw [g.readCluster_writeCluster d cluster.1 cluster.2 _ cluster.1 cluster.2, if_pos rfl]
  refine addStops_of_dead (List.mem_map_of_mem (List.mem_range.mpr slot)) (DirEntry.isDead_iff.mpr (.inr ?_))
  show v.clip (putEntry (v.readCluster d c) i e.deleted) (32 * i + 0) = 0xE5
  rw [clip, if_pos (by omega), putEntry, if_pos (by omega), Nat.add_sub_cancel_left]
  rfl

theorem goes_of_marked {fuel : Nat} {found : Bool} (inOrder : v.InOrder d (v.markStops name83) D)
    (ran : v.markEntryDeletedLoop d name83 fuel D = some (d', found)) :
    (∀ x, v.IsCluster x → v.nextCluster d' x = v.nextCluster d x) ∧
      ∀ c, v.Visits d (v.markStops name83) D c → v.Goes d' v.addStops c → v.Goes d (v.markStops name83) c := by
  induction fuel generalizing D with
  | zero => cases ran
  | succ fuel ih =>
    rw [markEntryDeletedLoop] at ran
    split_ifs at ran with low
    · dsimp only at ran
      have stopped (here : v.markStops name83 D (v.readCluster d D)) : ¬ v.Goes d (v.markStops name83) D :=
        fun goes => goes.2 here
      cases here : scan (fun e => e.first == 0xE5) name83
          (entriesOf (v.bufSize / 32) (v.readCluster d D)) 0 with
      | stop =>
        rw [here] at ran
        cases ran
        refine ⟨fun _ _ => rfl, fun c visits on => ?_⟩
        obtain rfl := visits.eq_start (stopped (by rw [markStops, here]; exact Scan.noConfusion))
        exact absurd (addStops_of_stop here) on.2
      | hit i =>
        rw [here] at ran
        cases ran
        have cluster := inOrder D .refl low
        refine ⟨fun x inside => (g.keeps_writeCluster d cluster _ inside).1, fun c visits on => ?_⟩
        obtain rfl := visits.eq_start (stopped (by rw [markStops, here]; exact Scan.noConfusion))
        obtain ⟨j, e, place, entry, -⟩ := scan_hit here
        rw [Nat.zero_add] at place
        subst place
        exact absurd (addStops_of_deleted g cluster (entriesOf_eq_some entry).1 _) on.2
      | next =>
        rw [here] at ran
        have goes : v.Goes d (v.markStops name83) D := ⟨low, not_not.mpr here⟩
        obtain ⟨links, room⟩ := ih (fun c visits => inOrder c (.head ⟨goes, rfl⟩ visits)) ran
        refine ⟨links, fun c visits on => ?_⟩
        rcases visits.cases_next with rfl | later
        · exact goes
        · exact room c later on
    · cases ran
      refine ⟨fun _ _ => rfl, fun c visits on => ?_⟩
      obtain rfl := visits.eq_start fun goes => low goes.1
      exact absurd on.1 low

theorem Orderly.marked {fuel : Nat} {found : Bool} (orderly : v.Orderly d (v.markStops name83) finite D)
    (ran : v.markEntryDeletedLoop d name83 fuel D = some (d', found)) :
    v.Orderly d' v.addStops finite D := by
  obtain ⟨links, room⟩ := goes_of_marked g orderly.inOrder ran
  exact orderly.transfer fun c visits on => ⟨room c visits on, links c (orderly.inOrder c visits on.1)⟩

end Directory

/-! ### Calls in order -/

section Calls

variable (v : Volume) (d : Disk) (path : CString)

/-- What `DeleteFile` needs: its loop over the directory is in order, and freeing the file spares it. -/
def DeletesInOrder : Prop :=
  ∀ D name, v.resolveParentDir d path = some (some (D, name)) →
    ∀ e, v.findEntry d D name = some (some e) → e.isDirectory = false →
      v.InOrder d (v.markStops (toShortName name)) D ∧
        v.Spares d (v.markStops (toShortName name)) D e.startCluster

end Calls

end Volume

end LaylaOS.Fs
