/-
**What a rewritten slot changes for users of the volume.**

Consequences of `Rewrites` beyond soundness: which entry a name finds afterwards, the contents of
the other files, distinct names, and the clusters in use.
-/

import LaylaOS.Fs.Lookup

namespace LaylaOS.Fs

open LaylaOS.Lib

theorem find?_congr_slots {p : DirEntry → Bool} {l l' : List DirEntry}
    (same : ∀ (j : Nat) e, p e = true → (l'[j]? = some e ↔ l[j]? = some e)) : l'.find? p = l.find? p := by
  have one : ∀ {l l' : List DirEntry}, (∀ (j : Nat) e, p e = true → (l'[j]? = some e ↔ l[j]? = some e)) →
      ∀ e, l.find? p = some e → l'.find? p = some e := by
    intro l l' same e found
    obtain ⟨holds, i, inside, here, first⟩ := List.find?_eq_some_iff_getElem.mp found
    have here' := (same i e holds).mpr (by rw [List.getElem?_eq_getElem inside, here])
    obtain ⟨inside', here'⟩ := List.getElem?_eq_some_iff.mp here'
    refine List.find?_eq_some_iff_getElem.mpr ⟨holds, i, inside', here', fun j before => ?_⟩
    by_contra matched
    simp only [Bool.not_eq_true', Bool.not_eq_false] at matched
    have earlier := (same j _ matched).mp (List.getElem?_eq_getElem (by omega))
    obtain ⟨inside'', earlier⟩ := List.getElem?_eq_some_iff.mp earlier
    have none := first j before
    rw [earlier, matched] at none
    cases none
  cases found : l.find? p with
  | some e => exact one same e found
  | none =>
    cases found' : l'.find? p with
    | none => rfl
    | some e =>
      rw [one (fun j e' holds => (same j e' holds).symm) e found'] at found
      cases found

namespace Image

variable {I I' : Image} {D i : Nat} {e : DirEntry} {added : List Nat}

/-- Each directory holds at most one live entry of a name. -/
def UniqueNames (I : Image) : Prop :=
  ∀ D, I.IsDir D → ∀ (i j : Nat) (e e' : DirEntry), (I.slots D)[i]? = some e → (I.slots D)[j]? = some e' →
    e.isDead = false → e'.isDead = false → e.name = e'.name → i = j

/-- Every chain ends with an end mark. -/
def AllStrict (I : Image) : Prop := ∀ o c, I.Owns o c → I.Strict c

/-- The cluster belongs to a chain. -/
def Used (I : Image) (x : Nat) : Prop := ∃ o c, I.Owns o c ∧ x ∈ I.chain c

/-- The directory a name leads to. -/
def subdirectory (I : Image) (D : Nat) (name83 : Name) : Option Nat :=
  ((I.lookup D name83).filter DirEntry.isDirectory).map DirEntry.startCluster

theorem resolveParent_congr (same : ∀ D, I.IsDir D → ∀ name, 0 ∉ name →
      I'.subdirectory D (toShortName name) = I.subdirectory D (toShortName name))
    {D : Nat} (dir : I.IsDir D) {names : List (List UInt8)} (terminated : ∀ n ∈ names, 0 ∉ n) :
    I'.resolveParent D names = I.resolveParent D names := by
  induction names generalizing D with
  | nil => rfl
  | cons name rest ih =>
    cases rest with
    | nil => rfl
    | cons next rest =>
      have later : ∀ n ∈ next :: rest, 0 ∉ n := fun n member => terminated n (List.mem_cons_of_mem _ member)
      have ended := terminated name List.mem_cons_self
      have step : ∀ J : Image, J.resolveParent D (name :: next :: rest) =
          (J.subdirectory D (toShortName name)).bind (J.resolveParent · (next :: rest)) := by
        intro J
        rw [resolveParent, subdirectory]
        cases J.lookup D (toShortName name) with
        | none => rfl
        | some e => cases directory : e.isDirectory <;> simp [directory, Option.filter]
      rw [step, step, same D dir name ended]
      cases entry : I.lookup D (toShortName name) with
      | none => simp [subdirectory, entry]
      | some e =>
        cases directory : e.isDirectory with
        | false => simp [subdirectory, entry, directory, Option.filter]
        | true =>
          have child := lookup_child dir ended entry directory
          simp only [subdirectory, entry, directory, Option.filter, if_true, Option.map_some, Option.bind_some]
          exact ih child later

theorem resolve_eq (I : Image) (D : Nat) (names : List (List UInt8)) : I.resolve D names =
      (I.resolveParent D names).bind fun found => I.lookup found.1 (toShortName found.2) := by
  induction names generalizing D with
  | nil => rfl
  | cons name rest ih =>
    cases rest with
    | nil =>
      simp only [resolve, resolveParent, Option.bind_some]
      cases I.lookup D (toShortName name) <;> rfl
    | cons next rest =>
      rw [resolve, resolveParent]
      cases I.lookup D (toShortName name) with
      | none => rfl
      | some e =>
        cases directory : e.isDirectory with
        | false => simp [directory]
        | true =>
          simp only [directory, if_true, reduceCtorEq, if_false]
          exact ih e.startCluster

theorem Sound.file_start_ne (sound : I.Sound) {D' j : Nat} {e' : DirEntry} (dir : I.IsDir D)
    (dir' : I.IsDir D') (slot : (I.slots D')[j]? = some e') (named : e'.Named)
    (file : e'.isDirectory = false) : e'.startCluster ≠ D := by
  intro same
  obtain ⟨o, owns, directory⟩ := dir.owner
  obtain ⟨inTable, strict⟩ := sound.directory D dir
  have first := strict.walk.start_mem inTable
  have owns' : I.Owns (some (D', j)) D := same ▸ .entry dir' slot named
  have both := sound.apart _ _ _ _ D owns owns' first first
  rw [directory D' j e' both slot] at file
  cases file

namespace Rewrites

variable (w : Rewrites I I' D i e added) (sound : I.Sound)
include w sound

theorem lookup_other {D' : Nat} (dir : I.IsDir D') {name83 : Name} (unnew : D' = D → Matches name83 e = false)
    (unold : D' = D → ∀ old, (I.slots D)[i]? = some old → Matches name83 old = false) :
    I'.lookup D' name83 = I.lookup D' name83 := by
  refine find?_congr_slots fun j e' matched => ?_
  have live := (Matches.live matched).1
  by_cases here : (D', j) = (D, i)
  · cases here
    rw [w.here e' live]
    constructor
    · rintro rfl
      rw [unnew rfl] at matched
      cases matched
    · intro slot
      rw [unold rfl e' slot] at matched
      cases matched
  · exact w.slot_iff sound dir here live

omit sound in
theorem lookup_new (live : e.isDead = false)
    (fresh : ∀ j ≠ i, ∀ e', (I.slots D)[j]? = some e' → Matches e.name e' = false) :
    I'.lookup D e.name = some e := by
  have matched : Matches e.name e = true := by simp [Matches, namesMatch, live]
  obtain ⟨inside, here⟩ := List.getElem?_eq_some_iff.mp ((w.here e live).mpr rfl)
  refine List.find?_eq_some_iff_getElem.mpr ⟨matched, i, inside, here, fun j before => ?_⟩
  by_contra found
  simp only [Bool.not_eq_true', Bool.not_eq_false] at found
  have slot : (I'.slots D)[j]? = some _ := List.getElem?_eq_getElem (by omega)
  have old := (w.others j (by omega) _ (Matches.live found).1).mp slot
  rw [fresh j (by omega) _ old] at found
  cases found

omit sound in
theorem lookup_gone {name83 : Name} (dead : e.isDead = true)
    (fresh : ∀ j ≠ i, ∀ e', (I.slots D)[j]? = some e' → Matches name83 e' = false) :
    I'.lookup D name83 = none := by
  refine List.find?_eq_none.mpr fun e' member matched => ?_
  have live := (Matches.live matched).1
  obtain ⟨j, slot⟩ := List.mem_iff_getElem?.mp member
  by_cases here : j = i
  · rw [here, w.here e' live] at slot
    rw [slot, dead] at live
    cases live
  · rw [fresh j here e' ((w.others j here e' live).mp slot)] at matched
    cases matched

theorem contents_eq {D' j : Nat} {e' : DirEntry} (dir : I.IsDir D')
    (slot : (I.slots D')[j]? = some e') (named : e'.Named) (file : e'.isDirectory = false)
    (other : (D', j) ≠ (D, i)) :
    I'.contents e' = I.contents e' ∧ I'.chain e'.startCluster = I.chain e'.startCluster ∧
      ∀ x ∈ I.chain e'.startCluster, I'.fat x = I.fat x := by
  have owns : I.Owns (some (D', j)) e'.startCluster := .entry dir slot named
  have notHere : some (D', j) ≠ some (D, i) := fun same => other (Option.some.inj same)
  have start := sound.file_start_ne w.dir dir slot named file
  have frame := w.frame _ _ owns notHere start
  have chain := (w.chain_eq sound owns notHere).2
  rw [if_neg start, List.append_nil] at chain
  refine ⟨?_, chain, fun x member => (frame x member).1⟩
  unfold contents
  rw [chain]
  congr 1
  refine List.flatMap_congr fun x member => ?_
  rw [bytesOf, bytesOf, (frame x member).2, w.shape]

theorem uniqueNames (unique : I.UniqueNames)
    (fresh : e.isDead = false → ∀ j ≠ i, ∀ e', (I.slots D)[j]? = some e' → e'.isDead = false → e'.name ≠ e.name)
    (inside : e.Named → e.isDirectory = true → ∀ (a b : Nat) (e₁ e₂ : DirEntry),
      (I'.slots e.startCluster)[a]? = some e₁ → (I'.slots e.startCluster)[b]? = some e₂ →
      e₁.isDead = false → e₂.isDead = false → e₁.name = e₂.name → a = b) :
    I'.UniqueNames := by
  intro D' dir a b e₁ e₂ first second live₁ live₂ same
  rcases (w.isDir_iff sound).mp dir with old | ⟨named, directory, rfl⟩
  · by_cases here₁ : (D', a) = (D, i)
    · cases here₁
      obtain rfl := (w.here e₁ live₁).mp first
      by_contra different
      exact fresh live₁ b (Ne.symm different) e₂
        ((w.others b (Ne.symm different) e₂ live₂).mp second) live₂ same.symm
    · by_cases here₂ : (D', b) = (D, i)
      · cases here₂
        obtain rfl := (w.here e₂ live₂).mp second
        by_contra different
        exact fresh live₂ a different e₁ ((w.others a different e₁ live₁).mp first) live₁ same
      · exact unique D' old a b e₁ e₂ ((w.slot_iff sound old here₁ live₁).mp first)
          ((w.slot_iff sound old here₂ live₂).mp second) live₁ live₂ same
  · exact inside named directory a b e₁ e₂ first second live₁ live₂ same

theorem allStrict (strict : ∀ o c, I.Owns o c → o ≠ some (D, i) → I.Strict c)
    (new : e.Named → I'.Strict e.startCluster) : I'.AllStrict := by
  intro o c owns
  rcases (w.owns_iff sound).mp owns with ⟨old, other⟩ | ⟨-, named, rfl⟩
  · by_cases same : c = D
    · exact same ▸ w.strict
    · exact ((strict o c old other).chain_congr w.shape fun x member =>
        (w.frame o c old other same x member).1).1
  · exact new named

theorem used_iff {x : Nat} : I'.Used x ↔ (∃ o c, I.Owns o c ∧ o ≠ some (D, i) ∧ x ∈ I.chain c) ∨ x ∈ added ∨
      (e.Named ∧ x ∈ I'.chain e.startCluster) := by
  constructor
  · rintro ⟨o, c, owns, member⟩
    rcases (w.owns_iff sound).mp owns with ⟨old, other⟩ | ⟨-, named, rfl⟩
    · rcases w.mem_chain sound old other member with inside | ⟨-, grown⟩
      · exact .inl ⟨o, c, old, other, inside⟩
      · exact .inr (.inl grown)
    · exact .inr (.inr ⟨named, member⟩)
  · rintro (⟨o, c, owns, other, member⟩ | grown | ⟨named, member⟩)
    · refine ⟨o, c, (w.owns_iff sound).mpr (.inl ⟨owns, other⟩), ?_⟩
      rw [(w.chain_eq sound owns other).2]
      exact List.mem_append_left _ member
    · obtain ⟨o, owns, other⟩ := w.dir.owner_ne w.file
      refine ⟨o, D, (w.owns_iff sound).mpr (.inl ⟨owns, other⟩), ?_⟩
      rw [w.chain]
      exact List.mem_append_right _ grown
    · exact ⟨_, _, (w.owns_iff sound).mpr (.inr ⟨rfl, named, rfl⟩), member⟩

end Rewrites

end Image

end LaylaOS.Fs
