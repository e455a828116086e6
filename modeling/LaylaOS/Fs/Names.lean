/-
**Names stay unique, except through `MakeDir`.**

`WriteFile` replaces the entry of the name it finds, but `MakeDir` inserts its entry without a
look at the directory. On a sound volume a sequence of calls keeps the names of every directory
distinct exactly if no `MakeDir` among them succeeds for a name that exists.

* `names_unique_iff` — a run.
-/

import LaylaOS.Fs.Calls
import LaylaOS.Fs.Failure
import LaylaOS.Fs.WellFormed

namespace LaylaOS.Fs

open LaylaOS.Lib

namespace Image

variable {I I' J : Image} {D i first : Nat} {name : List UInt8} {old : Option DirEntry}
  {O : List Nat} {data : List UInt8} {names : List (List UInt8)}

/-- A cluster for a new directory, and a slot or one more cluster for its entry. -/
def HasDirectoryRoom (I : Image) (D : Nat) : Prop :=
  I.freeList ≠ [] ∧ ((I.slots D).any DirEntry.isDead = true ∨ 1 < I.freeList.length)

instance (I : Image) (D : Nat) : Decidable (I.HasDirectoryRoom D) :=
  inferInstanceAs (Decidable (_ ∧ _))

theorem hasDirectoryRoom_iff {rest : List Nat} (free : I.freeList = first :: rest) :
    I.HasDirectoryRoom D ↔ (I.slots D).any DirEntry.isDead = true ∨ rest ≠ [] := by
  rw [HasDirectoryRoom, free, List.length_cons, Nat.lt_add_left_iff_pos, List.length_pos_iff]
  exact and_iff_right (List.cons_ne_nil _ _)

/-- The call is no `MakeDir` that makes a second entry of a name. -/
def Distinct (I : Image) : Call → Prop
  | .makeDir path => ∀ target ∈ I.resolveParent I.root (parentComponents path),
      I.HasDirectoryRoom target.1 → I.lookup target.1 (toShortName target.2) = none
  | _ => True

instance (I : Image) : ∀ call, Decidable (I.Distinct call)
  | .makeDir path => inferInstanceAs (Decidable
      (∀ target ∈ I.resolveParent I.root (parentComponents path),
        I.HasDirectoryRoom target.1 → I.lookup target.1 (toShortName target.2) = none))
  | .writeFile .. => isTrue trivial
  | .createFile _ => isTrue trivial
  | .deleteFile _ => isTrue trivial

/-! ### Writing and deleting -/

theorem Abandoned.unique (a : Abandoned I J O first) (sound : I.Sound) (unique : I.UniqueNames)
    (dir : I.IsDir D) {name83 : Name} (vacates : Vacates I D name83 old i O) : J.UniqueNames := by
  have w := a.rewrites sound dir vacates
  cases old with
  | none =>
    refine w.uniqueNames sound unique (fun live => absurd live (by decide)) fun named => ?_
    exact absurd named (Named.not_of_dead rfl)
  | some e =>
    obtain ⟨slot, live, -⟩ := vacates.slot
    refine w.uniqueNames sound unique (fun _ j other e' slot' live' same => other ?_) ?_
    · exact unique D dir j i e' e slot' slot live' live same
    · intro named directory
      rw [Option.getD_some] at named directory
      rw [vacates.file e slot named] at directory
      cases directory

/-- **A write keeps the names distinct**, whether it succeeds or fails. -/
theorem Write.unique {b : Bool} (write : Write I names data I' b) (sound : I.Sound)
    (unique : I.UniqueNames) (terminated : ∀ n ∈ names, 0 ∉ n) (size : data.length < 2 ^ 32) :
    I'.Sound ∧ I'.UniqueNames := by
  cases write with
  | unresolved _ => exact ⟨sound, unique⟩
  | directory _ _ _ => exact ⟨sound, unique⟩
  | @store D i name old O _ _ found entry vacates store =>
    obtain ⟨dir, last⟩ := resolveParent_isDir .root terminated found
    cases b with
    | true =>
      have written := store.written sound unique dir
        (terminated name (List.mem_of_getLast? last)) entry vacates size
      exact ⟨written.sound, written.unique⟩
    | false =>
      rcases store.abandoned with ⟨first, a⟩ | ⟨-, first, L, -, -, staged⟩
      · exact ⟨(a.rewrites sound dir vacates).preserves_sound sound, a.unique sound unique dir vacates⟩
      · obtain ⟨e₀, dead, w⟩ := staged.rewrites
        exact ⟨staged.sound sound, (w.vacated sound unique dir dead entry vacates).2.2⟩

theorem Delete.unique {b : Bool} (delete : Delete I names I' b) (sound : I.Sound)
    (unique : I.UniqueNames) (terminated : ∀ n ∈ names, 0 ∉ n) : I'.Sound ∧ I'.UniqueNames := by
  cases delete with
  | unresolved _ => exact ⟨sound, unique⟩
  | missing _ _ => exact ⟨sound, unique⟩
  | directory _ _ _ => exact ⟨sound, unique⟩
  | done found entry vacates =>
    obtain ⟨dir, -⟩ := resolveParent_isDir .root terminated found
    have deleted := vacates.deleted sound unique dir entry
    exact ⟨deleted.sound, deleted.unique⟩

/-! ### Making directories -/

theorem freshSlots_unique {parent a b : Nat} {e₁ e₂ : DirEntry}
    (slot₁ : (I.freshSlots first parent)[a]? = some e₁)
    (slot₂ : (I.freshSlots first parent)[b]? = some e₂) (live₁ : e₁.isDead = false)
    (live₂ : e₂.isDead = false) (same : e₁.name = e₂.name) : a = b := by
  have named : ∀ (j : Nat) (e : DirEntry), (I.freshSlots first parent)[j]? = some e →
      e.isDead = false → (j = 0 ∧ e.name = dotName) ∨ (j = 1 ∧ e.name = dotDotName) := by
    intro j e slot live
    match j with
    | 0 =>
      cases slot
      exact .inl ⟨rfl, buildDirEntry_name ..⟩
    | 1 =>
      cases slot
      exact .inr ⟨rfl, buildDirEntry_name ..⟩
    | j + 2 =>
      have zero := List.eq_of_mem_replicate
        (List.mem_of_getElem? (show (List.replicate _ DirEntry.zero)[j]? = some e from slot))
      rw [zero] at live
      exact absurd live (by decide)
  have different : dotName ≠ dotDotName := by decide
  rcases named a e₁ slot₁ live₁ with ⟨rfl, name₁⟩ | ⟨rfl, name₁⟩ <;>
    rcases named b e₂ slot₂ live₂ with ⟨rfl, name₂⟩ | ⟨rfl, name₂⟩
  · rfl
  · exact absurd (name₁.symm.trans (same.trans name₂)) different
  · exact absurd (name₂.symm.trans (same.symm.trans name₁)) different
  · rfl

theorem Inserted.slots {m : Nat} {e : DirEntry} {added : List Nat}
    (inserted : Inserted J I' D m e added) (named : e.Named) :
    I'.slots e.startCluster = J.slots e.startCluster := by
  rw [Image.slots, inserted.chain named]
  exact slotsOf_congr inserted.rewrites.shape fun x member => inserted.data named x member

theorem Inserted.duplicate {m j : Nat} {e e' : DirEntry} {added : List Nat}
    (inserted : Inserted J I' D m e added) (sound : J.Sound) (live : e.isDead = false)
    (slot : (J.slots D)[j]? = some e') (live' : e'.isDead = false) (same : e'.name = e.name) :
    ¬ I'.UniqueNames := by
  intro unique
  have w := inserted.rewrites
  have other : j ≠ m := by
    rintro rfl
    rw [inserted.vacant e' slot] at live'
    cases live'
  exact other (unique D (w.isDir_mono sound w.dir) j m e' e ((w.others j other e' live').mpr slot)
    ((w.here e live).mpr rfl) live' live same)

/-- **`MakeDir` keeps the names distinct exactly if** it makes no entry or its name is new. -/
theorem Make.unique_iff {b : Bool} (make : Make I names I' b) (sound : I.Sound)
    (unique : I.UniqueNames) (terminated : ∀ n ∈ names, 0 ∉ n) :
    I'.Sound ∧ (I'.UniqueNames ↔ ∀ target ∈ I.resolveParent I.root names,
      I.HasDirectoryRoom target.1 → I.lookup target.1 (toShortName target.2) = none) := by
  cases make with
  | unresolved found =>
    refine ⟨sound, iff_of_true unique fun target member => ?_⟩
    rw [found] at member
    cases member
  | full found full =>
    exact ⟨sound, iff_of_true unique fun target _ room => absurd full room.1⟩
  | @blocked D first name J found free noSlot staged =>
    obtain ⟨dir, -⟩ := resolveParent_isDir .root terminated found
    obtain ⟨e₀, dead, w⟩ := staged.rewrites
    refine ⟨staged.sound sound, iff_of_true ?_ fun target member room => ?_⟩
    · refine w.uniqueNames sound unique (fun live => ?_) fun named => ?_
      · rw [dead] at live
        cases live
      · exact absurd named (Named.not_of_dead dead)
    · rw [found] at member
      cases member
      rcases (hasDirectoryRoom_iff free).mp room with slot | clusters
      · rw [noSlot] at slot
        cases slot
      · exact absurd rfl clusters
  | @done D first m parent name added rest J _ found free space staged fresh inserted =>
    obtain ⟨dir, last⟩ := resolveParent_isDir .root terminated found
    have ended := terminated name (List.mem_of_getLast? last)
    obtain ⟨e₀, dead, w⟩ := staged.rewrites
    have soundJ := staged.sound sound
    have sameName := buildDirEntry_name (toShortName name) 0x10 first 0
    have room : I.HasDirectoryRoom D := (hasDirectoryRoom_iff free).mpr space
    refine ⟨inserted.rewrites.preserves_sound soundJ, fun unique' => ?_, fun distinct => ?_⟩
    · intro target member _
      rw [found] at member
      cases member
      show I.lookup D (toShortName name) = none
      by_contra present
      obtain ⟨e, entry⟩ := Option.ne_none_iff_exists'.mp present
      obtain ⟨member, live, sameEntry⟩ := lookup_mem entry
      obtain ⟨j, slot⟩ := List.mem_iff_getElem?.mp member
      have before : j ≠ (I.slots D).length := by
        have := (List.getElem?_eq_some_iff.mp slot).1
        omega
      refine inserted.duplicate soundJ ?_ ((w.others j before e live).mpr slot) live
        (sameEntry.trans sameName.symm) unique'
      rw [builtEntry_isDead ended, ← sameEntry]
      exact (Bool.or_eq_false_iff.mp live).2
    · have absent := distinct (D, name) found room
      have vacates : Vacates I D (toShortName name) none (I.slots D).length [] := .new
      obtain ⟨gone, -, uniqueJ⟩ := w.vacated sound unique dir dead absent vacates
      refine inserted.unique soundJ uniqueJ (fun _ => by rw [sameName]; exact gone) ?_
      intro named _ a b e₁ e₂ slot₁ slot₂ live₁ live₂ same
      have small := (staged.strict.walk.mem_inside
        (staged.chain.symm ▸ List.mem_cons_self : first ∈ J.chain first)).2
      rw [inserted.slots named, buildDirEntry_start _ _ _ _ (lt_trans small (by decide)), fresh] at slot₁ slot₂
      exact freshSlots_unique slot₁ slot₂ live₁ live₂ same

theorem Effect.unique_iff {call : Call} {b : Bool} (effect : I.Effect call I' b) (sound : I.Sound)
    (unique : I.UniqueNames) : I'.Sound ∧ (I'.UniqueNames ↔ I.Distinct call) := by
  have terminated := parentComponents_terminated call.path
  cases call with
  | writeFile path data word =>
    exact (Write.unique effect sound unique terminated word).imp_right (iff_of_true · trivial)
  | createFile path =>
    exact (Write.unique effect sound unique terminated (by decide)).imp_right (iff_of_true · trivial)
  | deleteFile path =>
    exact (Delete.unique effect sound unique terminated).imp_right (iff_of_true · trivial)
  | makeDir path => exact Make.unique_iff effect sound unique terminated

end Image

namespace Volume

variable {v : Volume} {d : Disk}

/-- The call returns and leaves at most one live entry of a name in each directory. -/
def KeepsNames (v : Volume) (d : Disk) (call : Call) : Prop :=
  ∃ d' b, v.call d call = some (d', b) ∧ (v.image d').UniqueNames

theorem keepsNames_iff (g : v.Geometry) (synced : v.Synced d) (sound : (v.image d).Sound)
    (unique : (v.image d).UniqueNames) (call : Call) :
    (v.KeepsNames d call ↔ (v.image d).Distinct call) ∧ v.Synced (v.after d call) ∧
      (v.image (v.after d call)).Sound ∧
      ((v.image (v.after d call)).UniqueNames ↔ (v.image d).Distinct call) := by
  obtain ⟨d', I', b, ran, ⟨synced', rfl⟩, effect⟩ := call_effect g ⟨synced, rfl⟩ sound call
  obtain ⟨sound', iff⟩ := effect.unique_iff sound unique
  have here : v.after d call = d' := by rw [after, ran]; rfl
  rw [here]
  refine ⟨⟨?_, fun distinct => ⟨d', b, ran, iff.mpr distinct⟩⟩, synced', sound', iff⟩
  rintro ⟨d₁, b₁, ran₁, unique'⟩
  rw [ran] at ran₁
  cases ran₁
  exact iff.mp unique'

/-- **Names stay unique in a run exactly if** no `MakeDir` call of it makes a second entry of a
name. -/
theorem names_unique_iff (g : v.Geometry) (synced : v.Synced d) (sound : (v.image d).Sound)
    (unique : (v.image d).UniqueNames) (calls : List Call) :
    Always v.after v.KeepsNames d calls ↔ Always v.after (fun d call => (v.image d).Distinct call) d calls := by
  refine Always.iff_of_invariant (fun d => v.Synced d ∧ (v.image d).Sound ∧ (v.image d).UniqueNames) ?_ ?_
    ⟨synced, sound, unique⟩
  · rintro d call ⟨synced, sound, unique⟩
    exact (keepsNames_iff g synced sound unique call).1
  · rintro d call ⟨synced, sound, unique⟩ distinct
    obtain ⟨-, synced', sound', iff⟩ := keepsNames_iff g synced sound unique call
    exact ⟨synced', sound', iff.mpr distinct⟩

/-- `A` is made a directory and `A/B` written; to create a file `A` fails; `A/B` is deleted. -/
def distinctCalls : List Call :=
  [.makeDir ⟨[65], letter_terminated⟩,
    .writeFile ⟨[65, 47, 66], nested_terminated⟩ [1, 2, 3] three_short,
    .createFile ⟨[65], letter_terminated⟩, .deleteFile ⟨[65, 47, 66], nested_terminated⟩]

theorem names_unique_iff_distinct :
    Always sample.after (fun d call => (sample.image d).Distinct call) blank distinctCalls ∧
      Always sample.after sample.KeepsNames blank distinctCalls := by
  have distinct : Always sample.after (fun d call => (sample.image d).Distinct call) blank
      distinctCalls := by decide +kernel
  exact ⟨distinct, (names_unique_iff sample_geometry blank_wellFormed.synced
    blank_wellFormed.regular.sound blank_wellFormed.regular.unique distinctCalls).mpr distinct⟩

/-- **`MakeDir` of one path, twice, leaves two entries of the name.** -/
theorem makeDir_twice_duplicates : ¬ ∀ (v : Volume) (d : Disk), v.WellFormed d → ∀ calls : List Call,
      Always v.after v.KeepsNames d calls := by
  intro claim
  let call : Call := .makeDir ⟨[65], by decide⟩
  have wf : sample.WellFormed (sample.after blank call) := sample_wellFormed [2, 3] (by decide +kernel)
  have second := (claim sample blank blank_wellFormed [call, call]).2.1
  rw [(keepsNames_iff sample_geometry wf.synced wf.regular.sound wf.regular.unique call).1] at second
  revert second
  decide +kernel

end Volume

end LaylaOS.Fs
