/-
**No cluster is lost, shared or freed in use.**

`Accounted`: chains are complete and disjoint, and the clusters from 3 on that are not free are
exactly those on chains. Between freeing, filling and inserting, the clusters just filled are
allocated but on no chain yet; `Exact` carries them as `spare`.

* `allocation_invariant` — so does a run of successful calls.
-/

import LaylaOS.Fs.Calls
import LaylaOS.Fs.WellFormed

namespace LaylaOS.Fs

open LaylaOS.Lib

namespace Image

variable {I J I' : Image} {D i first : Nat} {name83 : Name} {name : List UInt8}
  {old : Option DirEntry} {O L : List Nat} {data : List UInt8}

/-- The clusters from 3 on that are not free are those on chains and the `spare` ones. -/
def Exact (I : Image) (spare : List Nat) : Prop :=
  ∀ x, 3 ≤ x → x < I.limit → (I.fat x ≠ 0 ↔ I.Used x ∨ x ∈ spare)

theorem Vacates.used_iff (vacates : Vacates I D name83 old i O) (dir : I.IsDir D) {x : Nat} :
    I.Used x ↔ (∃ o c, I.Owns o c ∧ o ≠ some (D, i) ∧ x ∈ I.chain c) ∨ x ∈ O := by
  constructor
  · rintro ⟨o, c, owns, member⟩
    by_cases here : o = some (D, i)
    · subst here
      cases owns with
      | entry _ slot named =>
        cases vacates with
        | new =>
          rw [List.getElem?_eq_none le_rfl] at slot
          cases slot
        | old _ slot' _ _ =>
          rw [slot'] at slot
          cases slot
          exact .inr member
    · exact .inl ⟨o, c, owns, here, member⟩
  · rintro (⟨o, c, owns, -, member⟩ | given)
    · exact ⟨o, c, owns, member⟩
    · cases vacates with
      | new => exact absurd given List.not_mem_nil
      | old _ slot named _ => exact ⟨_, _, .entry dir slot named, given⟩

theorem Rewrites.exact {e₀ : DirEntry} (w : Rewrites I J D i e₀ []) (dead : e₀.isDead = true)
    (sound : I.Sound) (vacates : Vacates I D name83 old i O)
    (zero : ∀ x, J.fat x = 0 ↔ (I.fat x = 0 ∨ x ∈ O) ∧ x ∉ L) (exact : I.Exact []) :
    J.Exact L := by
  intro x low high
  have others : J.Used x ↔ ∃ o c, I.Owns o c ∧ o ≠ some (D, i) ∧ x ∈ I.chain c := by
    rw [w.used_iff sound]
    refine or_iff_left ?_
    rintro (none | ⟨named, -⟩)
    · exact List.not_mem_nil none
    · exact Named.not_of_dead dead named
  have before := exact x low (by rwa [w.shape] at high)
  rw [vacates.used_iff w.dir, ← others, or_iff_left List.not_mem_nil] at before
  have apart : J.Used x → x ∉ O := by
    rw [others]
    rintro ⟨o, c, owns, other, member⟩
    exact vacates.not_owned sound w.dir owns other member
  rw [Ne, zero x]
  tauto

theorem Inserted.exact {m : Nat} {e : DirEntry} {added : List Nat}
    (inserted : Inserted J I' D m e added) (sound : J.Sound) (named : e.Named)
    (chain : J.chain e.startCluster = L) (exact : J.Exact L) : I'.Exact [] := by
  intro x low high
  have others : (∃ o c, J.Owns o c ∧ o ≠ some (D, m) ∧ x ∈ J.chain c) ↔ J.Used x := by
    refine ⟨fun ⟨o, c, owns, _, member⟩ => ⟨o, c, owns, member⟩, fun ⟨o, c, owns, member⟩ =>
      ⟨o, c, owns, fun here => ?_, member⟩⟩
    subst here
    cases owns with
    | entry _ slot named' => exact Named.not_of_dead (inserted.vacant _ slot) named'
  have before := exact x low (by rwa [inserted.rewrites.shape] at high)
  rw [inserted.rewrites.used_iff sound, others, inserted.chain named, chain, Ne,
    inserted.zero_iff x low, or_iff_left List.not_mem_nil]
  tauto

/-- Chains are complete and disjoint, and no cluster is lost. -/
structure Accounted (I : Image) : Prop where
  sound : I.Sound
  strict : I.AllStrict
  exact : I.Exact []

theorem Staged.accounted {m : Nat} {attr : UInt8} {size : Nat} {added : List Nat}
    (staged : Staged I J D i O first L) (accounted : I.Accounted)
    (vacates : Vacates I D name83 old i O) (terminated : 0 ∉ name) (starts : first ∈ L)
    (inserted : Inserted J I' D m (buildDirEntry (toShortName name) attr first size) added)
    (live : toShortName name 0 ≠ 0xE5) : I'.Accounted := by
  obtain ⟨sound, strict, exact⟩ := accounted
  obtain ⟨e₀, dead, w⟩ := staged.rewrites
  have soundJ := staged.sound sound
  have named := builtEntry_named terminated first size attr live
  have strictJ : J.AllStrict := w.allStrict sound (fun o c owns _ => strict o c owns)
    fun named₀ => absurd named₀ (Named.not_of_dead dead)
  refine ⟨inserted.rewrites.preserves_sound soundJ, ?_, ?_⟩
  · exact inserted.rewrites.allStrict soundJ (fun o c owns _ => strictJ o c owns) inserted.strict
  · refine inserted.exact soundJ named ?_ (w.exact dead sound vacates staged.zero_iff exact)
    have small := (staged.strict.walk.mem_inside (staged.chain.symm ▸ starts)).2
    rw [buildDirEntry_start _ _ _ _ (lt_trans small (by decide))]
    exact staged.chain

theorem Write.accounted {names : List (List UInt8)} (write : Write I names data I' true)
    (accounted : I.Accounted) (terminated : ∀ n ∈ names, 0 ∉ n)
    (live : ∀ last, names.getLast? = some last → toShortName last 0 ≠ 0xE5) : I'.Accounted := by
  cases write with
  | @store D i name old O _ _ found entry vacates store =>
    obtain ⟨dir, last⟩ := resolveParent_isDir .root terminated found
    cases store with
    | done _ staged _ _ inserted =>
      exact staged.accounted accounted vacates (terminated name (List.mem_of_getLast? last))
        List.mem_cons_self inserted (live name last)

theorem Delete.accounted {names : List (List UInt8)} (delete : Delete I names I' true)
    (accounted : I.Accounted) (terminated : ∀ n ∈ names, 0 ∉ n) : I'.Accounted := by
  obtain ⟨sound, strict, exact⟩ := accounted
  cases delete with
  | @done D i name e O found entry vacates =>
    obtain ⟨dir, -⟩ := resolveParent_isDir .root terminated found
    have w := vacates.delete_rewrites sound dir
    refine ⟨w.preserves_sound sound, ?_, ?_⟩
    · exact w.allStrict sound (fun o c owns _ => strict o c owns) fun named =>
        absurd named (Named.not_of_dead e.deleted_isDead)
    · refine w.exact e.deleted_isDead sound vacates (fun x => ?_) exact
      rw [putSlot_fat]
      by_cases given : x ∈ O <;> simp [Image.free, given]

theorem Make.accounted {names : List (List UInt8)} (make : Make I names I' true)
    (accounted : I.Accounted) (terminated : ∀ n ∈ names, 0 ∉ n)
    (live : ∀ last, names.getLast? = some last → toShortName last 0 ≠ 0xE5) : I'.Accounted := by
  cases make with
  | @done D first m parent name added rest J _ found _ _ staged _ inserted =>
    obtain ⟨dir, last⟩ := resolveParent_isDir .root terminated found
    have vacates : Vacates I D (toShortName name) none (I.slots D).length [] := .new
    exact staged.accounted accounted vacates (terminated name (List.mem_of_getLast? last))
      List.mem_cons_self inserted (live name last)

end Image

/-- The entry that the call makes does not count as deleted. -/
def Call.LiveName (call : Call) : Prop :=
  ∀ last ∈ (parentComponents call.path).getLast?, toShortName last 0 ≠ 0xE5

instance (call : Call) : Decidable call.LiveName := inferInstanceAs (Decidable (∀ _ ∈ _, _ ≠ _))

theorem Image.Effect.accounted {I I' : Image} {call : Call} (effect : I.Effect call I' true)
    (accounted : I.Accounted) (live : call.LiveName) : I'.Accounted := by
  have terminated := parentComponents_terminated call.path
  cases call with
  | writeFile path data word => exact Write.accounted effect accounted terminated live
  | createFile path => exact Write.accounted effect accounted terminated live
  | deleteFile path => exact Delete.accounted effect accounted terminated
  | makeDir path => exact Make.accounted effect accounted terminated live

namespace Volume

/-- **The allocation invariant.** After any run of calls that all return true the FAT copies are
identical, chains are complete and disjoint, and the clusters in use are those on chains. -/
theorem allocation_invariant {v : Volume} {d d' : Disk} {calls : List Call} (g : v.Geometry)
    (run : Steps (fun d call d' => v.call d call = some (d', true) ∧ call.LiveName) d calls d')
    (synced : v.Synced d) (accounted : (v.image d).Accounted) :
    v.Synced d' ∧ (v.image d').Accounted := by
  refine run_keeps (fun _ call b => b = true ∧ call.LiveName) g (fun I before => before.sound)
    (fun I call I' b before ok effect => ?_)
    (run.mono fun d call d' step => ⟨true, step.1, rfl, step.2⟩) synced accounted
  obtain ⟨rfl, live⟩ := ok
  exact effect.accounted before live

/-- Make the directory `A`, write the file `A/B`, write it again, delete it. -/
def fileCalls : List Call :=
  let path : CString := ⟨[65, 47, 66], nested_terminated⟩
  [.makeDir ⟨[65], letter_terminated⟩, .writeFile path [1, 2, 3] three_short,
    .writeFile path [4, 5] (by decide), .deleteFile path]

theorem blank_accounted : (sample.image blank).Accounted where
  sound := blank_wellFormed.regular.sound
  strict := blank_wellFormed.regular.strict
  exact x low high := by
    have free : ∀ x < 8, 3 ≤ x → (sample.image blank).fat x = 0 := by decide +kernel
    have zero := free x high low
    refine ⟨fun used => absurd zero used, ?_⟩
    rintro (⟨o, c, owns, member⟩ | none)
    · rcases ((blank_wellFormed.regular.sound.chained o c owns).used x member).2 with two | used
      · omega
      · exact used
    · exact absurd none List.not_mem_nil

theorem allocation_invariant_files :
    ∃ d', Steps (fun d call d' => sample.call d call = some (d', true) ∧ call.LiveName) blank
      fileCalls d' ∧ sample.Synced d' ∧ (sample.image d').Accounted := by
  have run : Steps (fun d call d' => sample.call d call = some (d', true) ∧ call.LiveName) blank
      fileCalls (fileCalls.foldl sample.after blank) :=
    .cons ⟨call_after (by decide +kernel), by decide⟩ <|
    .cons ⟨call_after (by decide +kernel), by decide⟩ <|
    .cons ⟨call_after (by decide +kernel), by decide⟩ <|
    .cons ⟨call_after (by decide +kernel), by decide⟩ <| .nil _
  exact ⟨_, run, allocation_invariant sample_geometry run blank_wellFormed.synced blank_accounted⟩

end Volume

end LaylaOS.Fs
