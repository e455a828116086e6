/-
**Listed names and lookup** (`ListDirectoryToBuffer`, `FindEntry`).

A line of a listing is a name without its spaces, with a dot in front of the extension. Given to
`FindEntry` it is converted again.

* `reachable_listsNames` — the directories that calls can lead to.
-/

import LaylaOS.Fs.Listing
import LaylaOS.Fs.Names
import LaylaOS.Fs.ShortNames

namespace LaylaOS.Fs

open LaylaOS.Lib

/-! ### Printing a name and converting it again -/

/-- A name that some component is converted to. -/
def Converted (name83 : Name) : Prop :=
  ∃ component : List UInt8, 0 ∉ component ∧ 47 ∉ component ∧ name83 = toShortName component

theorem upper_upper (c : UInt8) : upper (upper c) = upper c := by
  unfold upper
  by_cases letter : 97 ≤ c ∧ c ≤ 122
  · rw [if_pos letter, if_neg]
    rintro ⟨low, -⟩
    have high : c.toNat ≤ 122 := letter.2
    have down : (c - 32).toNat = c.toNat - 32 :=
      UInt8.toNat_sub_of_le _ _ (UInt8.le_iff_toNat_le.mpr (le_trans (by decide) letter.1))
    have above : 97 ≤ (c - 32).toNat := low
    omega
  · rw [if_neg letter, if_neg letter]

theorem mem_rightpad_upper {part : List UInt8} {n : Nat} {byte : UInt8}
    (member : byte ∈ (part.map upper).rightpad n 32) : (∃ c ∈ part, byte = upper c) ∨ byte = 32 := by
  rcases List.mem_append.mp member with inside | padding
  · obtain ⟨c, here, same⟩ := List.mem_map.mp inside
    exact .inl ⟨c, here, same.symm⟩
  · exact .inr (List.eq_of_mem_replicate padding)

theorem mem_shortBase {component : List UInt8} {c : UInt8} (member : c ∈ shortBase component) :
    c ∈ component ∧ c ≠ 46 := by
  have front := List.mem_of_mem_take member
  exact ⟨(List.takeWhile_sublist _).subset front, by simpa using List.mem_takeWhile_imp front⟩

theorem mem_shortExt {component : List UInt8} {c : UInt8} (member : c ∈ shortExt component) :
    c ∈ component := by
  unfold shortExt at member
  split at member
  · next ext same =>
      have behind : c ∈ component.drop (shortBase component).length := by
        rw [same]
        exact List.mem_cons_of_mem _ (List.mem_of_mem_take member)
      exact List.mem_of_mem_drop behind
  · cases member

namespace Converted

variable {name83 : Name} (converted : Converted name83)
include converted

theorem base_bytes {byte : UInt8} (member : byte ∈ baseOf name83) :
    byte ≠ 46 ∧ byte ≠ 47 ∧ upper byte = byte := by
  obtain ⟨component, -, noSlash, rfl⟩ := converted
  rw [baseOf_toShortName] at member
  rcases mem_rightpad_upper member with ⟨c, here, rfl⟩ | rfl
  · obtain ⟨inside, noDot⟩ := mem_shortBase here
    have slash : c ≠ 47 := fun same => noSlash (same ▸ inside)
    exact ⟨upper_ne noDot (by decide), upper_ne slash (by decide), upper_upper c⟩
  · decide

theorem ext_bytes {byte : UInt8} (member : byte ∈ extOf name83) : byte ≠ 47 ∧ upper byte = byte := by
  obtain ⟨component, -, noSlash, rfl⟩ := converted
  rw [extOf_toShortName] at member
  rcases mem_rightpad_upper member with ⟨c, here, rfl⟩ | rfl
  · have slash : c ≠ 47 := fun same => noSlash (same ▸ mem_shortExt here)
    exact ⟨upper_ne slash (by decide), upper_upper c⟩
  · decide

end Converted

theorem head_extOf (name83 : Name) : ∃ rest, extOf name83 = name83 8 :: rest := ⟨[name83 9, name83 10], rfl⟩

theorem printed_eq (name83 : Name) : printed name83 = (baseOf name83).filter (· ≠ 32) ++
    if name83 8 ≠ 32 then 46 :: (extOf name83).filter (· ≠ 32) else [] := rfl

theorem shortBase_append {base tail : List UInt8} (noDot : 46 ∉ base) (short : base.length ≤ 8)
    (dot : tail = [] ∨ ∃ ext, tail = 46 :: ext) : shortBase (base ++ tail) = base := by
  have front : (base ++ tail).takeWhile (· ≠ 46) = base ++ tail.takeWhile (· ≠ 46) := by
    refine List.takeWhile_append_of_pos fun byte member => ?_
    simpa using fun same : byte = 46 => noDot (same ▸ member)
  have back : tail.takeWhile (· ≠ 46) = [] := by
    rcases dot with rfl | ⟨ext, rfl⟩ <;> simp
  rw [shortBase, front, back, List.append_nil, List.take_of_length_le short]

theorem short_printed {name83 : Name} (noDot : 46 ∉ baseOf name83) :
    shortBase (printed name83) = (baseOf name83).filter (· ≠ 32) ∧
      shortExt (printed name83) = if name83 8 ≠ 32 then (extOf name83).filter (· ≠ 32) else [] := by
  have small : ((baseOf name83).filter (· ≠ 32)).length ≤ 8 :=
    (List.length_filter_le _ _).trans_eq (baseOf_length name83)
  have small' : ((extOf name83).filter (· ≠ 32)).length ≤ 3 :=
    (List.length_filter_le _ _).trans_eq (extOf_length name83)
  have clean : 46 ∉ (baseOf name83).filter (· ≠ 32) := fun member =>
    noDot (List.mem_of_mem_filter member)
  have base : shortBase (printed name83) = (baseOf name83).filter (· ≠ 32) := by
    rw [printed_eq]
    apply shortBase_append clean small
    split
    · exact .inr ⟨_, rfl⟩
    · exact .inl rfl
  refine ⟨base, ?_⟩
  unfold shortExt
  rw [base, printed_eq, List.drop_left]
  by_cases ext : name83 8 ≠ 32
  · rw [if_pos ext, if_pos ext]
    exact List.take_of_length_le small'
  · rw [if_neg ext, if_neg ext]

theorem map_upper_filter {part : List UInt8} (fixed : ∀ byte ∈ part, upper byte = byte) :
    (part.filter (· ≠ 32)).map upper = part.filter (· ≠ 32) := by
  refine (List.map_congr_left fun byte member => ?_).trans (List.map_id _)
  exact fixed byte (List.mem_of_mem_filter member)

/-- **The printed form of a name is converted to that name exactly if** its spaces are padding. -/
theorem toShortName_printed_iff {name83 : Name} (converted : Converted name83) :
    toShortName (printed name83) = name83 ↔ Padded 32 (baseOf name83) ∧ Padded 32 (extOf name83) := by
  obtain ⟨base, ext⟩ := short_printed fun member => (converted.base_bytes member).1 rfl
  have sameBase : baseOf (toShortName (printed name83)) = baseOf name83 ↔ Padded 32 (baseOf name83) := by
    rw [← rightpad_filter_iff, baseOf_length, baseOf_toShortName, base,
      map_upper_filter fun byte member => (converted.base_bytes member).2.2]
  have sameExt : extOf (toShortName (printed name83)) = extOf name83 ↔ Padded 32 (extOf name83) := by
    rw [extOf_toShortName, ext]
    by_cases shown : name83 8 ≠ 32
    · rw [if_pos shown, ← rightpad_filter_iff, extOf_length,
        map_upper_filter fun byte member => (converted.ext_bytes member).2]
    · -- an extension that begins with a space is not printed
      obtain ⟨rest, split⟩ := head_extOf name83
      have blank : name83 8 = 32 := not_not.mp shown
      rw [if_neg shown, List.map_nil, nil_rightpad, split, blank, Padded, List.pairwise_cons]
      constructor
      · intro blanks
        have all : ∀ byte ∈ rest, byte = 32 := fun byte member =>
          List.eq_of_mem_replicate (blanks ▸ List.mem_cons_of_mem 32 member : byte ∈ List.replicate 3 32)
        exact ⟨fun byte member _ => all byte member, Padded.of_blanks all⟩
      · rintro ⟨blanks, -⟩
        have three := extOf_length name83
        rw [split, blank] at three
        refine (List.eq_replicate_iff.mpr ⟨three, ?_⟩).symm
        exact List.forall_mem_cons.mpr ⟨rfl, fun byte member => blanks byte member rfl⟩
  rw [name_ext_iff, sameBase, sameExt]

/-! ### The lines of a listing -/

theorem not_mem_of_mem_splitOn {text piece : List UInt8} {byte : UInt8}
    (member : piece ∈ text.splitOn byte) : byte ∉ piece := by
  induction text generalizing piece with
  | nil =>
    rw [List.splitOn_nil, List.mem_singleton] at member
    rw [member]
    exact List.not_mem_nil
  | cons x text ih =>
    rw [List.splitOn, List.splitOnP_cons_eq_if_modifyHead] at member
    change ∀ {piece}, piece ∈ text.splitOnP (· == byte) → byte ∉ piece at ih
    split at member
    · rcases List.mem_cons.mp member with rfl | later
      · exact List.not_mem_nil
      · exact ih later
    · next other =>
        cases pieces : text.splitOnP (· == byte) with
        | nil => exact absurd pieces (List.splitOnP_ne_nil _ _)
        | cons first rest =>
          rw [pieces] at member ih
          rcases List.mem_cons.mp member with rfl | later
          · rw [List.mem_cons]
            rintro (same | inside)
            · exact other (by simpa using same.symm)
            · exact ih List.mem_cons_self inside
          · exact ih (List.mem_cons_of_mem _ later)

/-- **The lines of a text** are what was printed, exactly if none of that has a line feed. -/
theorem splitOn_lines_iff (entries : List DirEntry) :
    (lines entries).splitOn 10 = entries.map nameText ++ [[]] ↔ ∀ e ∈ entries, 10 ∉ nameText e := by
  constructor
  · intro split e member
    have piece : nameText e ∈ (lines entries).splitOn 10 := by
      rw [split]
      exact List.mem_append_left _ (List.mem_map_of_mem member)
    exact not_mem_of_mem_splitOn piece
  · intro clean
    induction entries with
    | nil => rfl
    | cons e rest ih =>
      obtain ⟨here, later⟩ := List.forall_mem_cons.mp clean
      have text : lines (e :: rest) = nameText e ++ 10 :: lines rest := by
        rw [lines, List.flatMap_cons, List.append_assoc]
        rfl
      rw [text, List.splitOn_append_cons_self, List.splitOn_eq_singleton here, ih later]
      rfl

/-! ### Directories of a sound volume -/

/-- The live entries of a directory that do not begin with a dot. -/
def Image.shown (I : Image) (D : Nat) : List DirEntry :=
  (I.slots D).filter fun e => !e.isDead && e.first != 46

theorem Image.mem_shown {I : Image} {D : Nat} {e : DirEntry} :
    e ∈ I.shown D ↔ e ∈ I.slots D ∧ e.isDead = false ∧ e.first ≠ 46 := by
  rw [Image.shown, List.mem_filter, Bool.and_eq_true, Bool.not_eq_true', bne_iff_ne]

theorem Image.lookup_of_distinct {I : Image} {D : Nat} (distinct : ((I.shown D).map DirEntry.name).Nodup)
    {e : DirEntry} (member : e ∈ I.shown D) : I.lookup D e.name = some e := by
  obtain ⟨slot, live, plain⟩ := Image.mem_shown.mp member
  have matched : Matches e.name e = true := by simp [Matches, namesMatch, live]
  obtain ⟨e', found⟩ := Option.isSome_iff_exists.mp (List.find?_isSome.mpr ⟨e, slot, matched⟩)
  obtain ⟨slot', live', same⟩ := Image.lookup_mem found
  have first : e'.first = e.first := congrFun same 0
  have member' : e' ∈ I.shown D := Image.mem_shown.mpr ⟨slot', live', first ▸ plain⟩
  rw [← List.inj_on_of_nodup_map distinct member' member same]
  exact same ▸ found

theorem listSkips_of_short {e : DirEntry} (open' : e.first ≠ 0)
    (short : e.isDead = false → e.attributes ≠ 0x0F) :
    (!listSkips e) = (!e.isDead && e.first != 46) := by
  unfold listSkips
  by_cases gone : e.first = 0xE5
  · rw [DirEntry.isDead_iff.mpr (.inr gone), gone]
    rfl
  · have live : e.isDead = false := by simp [DirEntry.isDead, open', gone]
    have name : (e.attributes == 0x0F) = false := by simpa using short live
    have kept : (e.first == 0xE5) = false := by simpa using gone
    rw [live, name, kept, Bool.false_or, Bool.false_or]
    rfl

/-- In a directory without long-name entries, and with nothing behind the first 0x00 entry, these are the
entries that are listed. -/
theorem listed_of_tidy {slots : List DirEntry} (tidy : Tidy slots) :
    listedIn slots = slots.filter fun e => !e.isDead && e.first != 46 := by
  induction slots with
  | nil => rfl
  | cons e rest ih =>
    have later : Tidy rest := ⟨fun e' member => tidy.short e' (List.mem_cons_of_mem _ member),
      (List.pairwise_cons.mp tidy.ends).2⟩
    by_cases zero : e.first = 0
    · rw [listed_cons_zero zero]
      refine (List.filter_eq_nil_iff.mpr fun e' member shown => ?_).symm
      have dead : e'.first = 0 := by
        rcases List.mem_cons.mp member with rfl | behind
        · exact zero
        · exact (List.pairwise_cons.mp tidy.ends).1 e' behind zero
      rw [DirEntry.isDead_iff.mpr (.inl dead)] at shown
      cases shown
    have test := listSkips_of_short zero (tidy.short e List.mem_cons_self)
    by_cases skipped : listSkips e = true
    · rw [skipped] at test
      rw [listed_cons_skip zero skipped, ih later, List.filter_cons_of_neg (by rw [← test]; decide)]
    · rw [(Bool.not_eq_true _).mp skipped] at test
      rw [listed_cons_shown zero skipped, ih later, List.filter_cons_of_pos (by rw [← test]; decide)]

theorem listed_append_zero {here later : List DirEntry} (stops : here.any (·.first == 0) = true) :
    listedIn (here ++ later) = listedIn here := by
  induction here with
  | nil => cases stops
  | cons e here ih =>
    by_cases zero : e.first = 0
    · rw [List.cons_append, listed_cons_zero zero, listed_cons_zero zero]
    · have behind : here.any (·.first == 0) = true := by
        rw [List.any_cons, Bool.or_eq_true] at stops
        exact stops.resolve_left (by simpa using zero)
      by_cases skipped : listSkips e = true
      · rw [List.cons_append, listed_cons_skip zero skipped, listed_cons_skip zero skipped, ih behind]
      · rw [List.cons_append, listed_cons_shown zero skipped, listed_cons_shown zero skipped, ih behind]

namespace Volume

variable {v : Volume} {d : Disk} {I : Image}

theorem slotsFrom_spec (g : v.Geometry) (r : v.Represents d I) {c fuel : Nat} {l : List Nat}
    (segment : I.Segment c l) (enough : l.length < fuel) :
    ∃ entries, v.slotsFrom d fuel c = some entries ∧ listedIn entries = listedIn (I.slotsOf l) := by
  induction l generalizing c fuel with
  | nil =>
    obtain ⟨fuel, rfl⟩ : ∃ more, fuel = more + 1 := ⟨fuel - 1, by omega⟩
    exact ⟨[], by rw [slotsFrom, if_neg segment.ends], rfl⟩
  | cons x l ih =>
    rw [List.length_cons] at enough
    obtain ⟨fuel, rfl⟩ : ∃ more, fuel = more + 1 := ⟨fuel - 1, by omega⟩
    obtain ⟨rfl, inside, high, onward⟩ := segment.uncons
    rw [Image.slotsOf_cons, slotsFrom, if_pos inside]
    simp only
    rw [r.readCluster_eq segment.low high, (r.entries g).1, r.nextCluster_eq high]
    by_cases stops : (entriesOf I.perCluster (I.data x)).any (·.first == 0) = true
    · rw [if_pos stops]
      exact ⟨_, rfl, (listed_append_zero stops).symm⟩
    · rw [if_neg stops]
      obtain ⟨entries, found, same⟩ := ih onward (show l.length < fuel by omega)
      rw [found]
      refine ⟨_, rfl, ?_⟩
      have open' := (Bool.not_eq_true _).mp stops
      rw [listed_append open', listed_append open', same]

theorem listing_spec (g : v.Geometry) (r : v.Represents d I) (sound : I.Sound) {D : Nat} (dir : I.IsDir D) :
    (v.slotsFrom d loopFuel D).map listedIn = some (I.shown D) ∧
      v.lineLoop d loopFuel D [] = some (lines (I.shown D)) := by
  obtain ⟨segment, enough⟩ := segment g r sound dir
  obtain ⟨entries, found, same⟩ := slotsFrom_spec g r segment enough
  have shown : listedIn entries = I.shown D := same.trans (listed_of_tidy (sound.tidy D dir))
  rw [lineLoop_eq (bufSize_eq g.perCluster.2), found, Option.map_some, Option.map_some, shown]
  exact ⟨rfl, rfl⟩

/-- **Listed names can be looked up**: the lines that `ListDirectoryToBuffer` stores for the directory are
the names of the entries it goes through, `FindEntry` finds each of these entries by its line, without the
slash of a directory, and no two entries have the same line. -/
def ListsNames (v : Volume) (d : Disk) (D : Nat) : Prop :=
  ∃ entries text, (v.slotsFrom d loopFuel D).map listedIn = some entries ∧
    v.lineLoop d loopFuel D [] = some text ∧ text.splitOn 10 = entries.map nameText ++ [[]] ∧
    (∀ e ∈ entries, v.findEntry d D (printed e.name) = some (some e)) ∧
    (entries.map nameText).Nodup

end Volume

/-- A name that its line leads back to: no spaces but padding, and no line feed. -/
def Plain (name83 : Name) : Prop :=
  Padded 32 (baseOf name83) ∧ Padded 32 (extOf name83) ∧ 10 ∉ printed name83

instance (name83 : Name) : Decidable (Plain name83) :=
  inferInstanceAs (Decidable (_ ∧ _ ∧ _))

theorem Plain.toShortName_printed {name83 : Name} (plain : Plain name83) (converted : Converted name83) :
    toShortName (printed name83) = name83 :=
  (toShortName_printed_iff converted).mpr ⟨plain.1, plain.2.1⟩

theorem slash_not_mem_printed {name83 : Name} (converted : Converted name83) : 47 ∉ printed name83 := by
  rw [printed_eq, List.mem_append]
  rintro (base | ext)
  · exact (converted.base_bytes (List.mem_of_mem_filter base)).2.1 rfl
  · split at ext
    · rcases List.mem_cons.mp ext with dot | inside
      · exact absurd dot (by decide)
      · exact (converted.ext_bytes (List.mem_of_mem_filter inside)).1 rfl
    · cases ext

theorem feed_mem_nameText {e : DirEntry} : 10 ∈ nameText e ↔ 10 ∈ printed e.name := by
  rw [nameText, List.mem_append]
  refine or_iff_left fun slash => ?_
  split at slash
  · exact absurd slash (by decide)
  · cases slash

theorem printed_eq_of_nameText {e e' : DirEntry} (converted : Converted e.name)
    (converted' : Converted e'.name) (same : nameText e = nameText e') :
    printed e.name = printed e'.name := by
  unfold nameText at same
  split at same <;> split at same
  · exact List.append_cancel_right same
  · rw [List.append_nil] at same
    exact absurd (same ▸ List.mem_append_right _ List.mem_cons_self) (slash_not_mem_printed converted')
  · rw [List.append_nil] at same
    exact absurd (same ▸ List.mem_append_right _ List.mem_cons_self) (slash_not_mem_printed converted)
  · rwa [List.append_nil, List.append_nil] at same

namespace Volume

variable {v : Volume} {d : Disk} {I : Image}

/-- **When listed names can be looked up**, in a directory of a sound volume whose names are conversions
of components. -/
theorem listsNames_iff (g : v.Geometry) (r : v.Represents d I) (sound : I.Sound) {D : Nat}
    (dir : I.IsDir D) (converted : ∀ e ∈ I.shown D, Converted e.name) :
    v.ListsNames d D ↔ (∀ e ∈ I.shown D, Plain e.name) ∧ ((I.shown D).map DirEntry.name).Nodup := by
  obtain ⟨slots, text⟩ := listing_spec g r sound dir
  constructor
  · rintro ⟨entries, stored, slots', text', split, found, distinct⟩
    cases slots.symm.trans slots'
    cases text.symm.trans text'
    have back (e : DirEntry) (member : e ∈ I.shown D) : toShortName (printed e.name) = e.name ∧
        I.lookup D e.name = some e := by
      have here := found e member
      rw [findEntry_spec g r sound dir, Option.some.injEq] at here
      have name := (Image.lookup_mem here).2.2
      exact ⟨name.symm, name ▸ here⟩
    refine ⟨fun e member => ?_, ?_⟩
    · obtain ⟨base, ext⟩ := (toShortName_printed_iff (converted e member)).mp (back e member).1
      exact ⟨base, ext, mt feed_mem_nameText.mpr ((splitOn_lines_iff _).mp split e member)⟩
    · apply distinct.of_map.map_on
      intro e member e' member' same
      have one := (back e member).2
      rw [same, (back e' member').2] at one
      exact (Option.some.inj one).symm
  · rintro ⟨plain, distinct⟩
    refine ⟨_, _, slots, text, (splitOn_lines_iff _).mpr fun e member => ?_, fun e member => ?_, ?_⟩
    · exact mt feed_mem_nameText.mp (plain e member).2.2
    · rw [findEntry_spec g r sound dir, (plain e member).toShortName_printed (converted e member),
        Option.some.injEq]
      exact Image.lookup_of_distinct distinct member
    · apply distinct.of_map.map_on
      intro e member e' member' same
      have printed := printed_eq_of_nameText (converted e member) (converted e' member') same
      have names : e.name = e'.name := by
        rw [← (plain e member).toShortName_printed (converted e member), printed,
          (plain e' member').toShortName_printed (converted e' member')]
      exact List.inj_on_of_nodup_map distinct member member' names

end Volume

/-! ### What calls add to a directory -/

namespace Image

variable {I I' J : Image} {D E i : Nat} {P : Name → Prop}

/-- The volume is still sound, `E` is still a directory, and its live entries are old ones or have a name
of `P`. -/
structure Grows (I I' : Image) (E : Nat) (P : Name → Prop) : Prop where
  sound : I'.Sound
  dir : I'.IsDir E
  entries : ∀ e ∈ I'.slots E, e.isDead = false → e ∈ I.slots E ∨ P e.name

theorem Grows.refl (sound : I.Sound) (dir : I.IsDir E) : Grows I I E P :=
  ⟨sound, dir, fun _ member _ => .inl member⟩

theorem Grows.trans (one : Grows I J E P) (two : Grows J I' E P) : Grows I I' E P := by
  refine ⟨two.sound, two.dir, fun e member live => ?_⟩
  rcases two.entries e member live with old | new
  · exact one.entries e old live
  · exact .inr new

theorem Grows.shown (grows : Grows I I' E P) (names : ∀ e ∈ I.shown E, P e.name) :
    ∀ e ∈ I'.shown E, P e.name := by
  intro e member
  obtain ⟨slot, live, plain⟩ := mem_shown.mp member
  rcases grows.entries e slot live with old | new
  · exact names e (mem_shown.mpr ⟨old, live, plain⟩)
  · exact new

theorem Rewrites.grows {e : DirEntry} {added : List Nat} (w : Rewrites I I' D i e added)
    (sound : I.Sound) (dir : I.IsDir E) (new : e.isDead = false → e ∈ I.slots D ∨ P e.name) :
    Grows I I' E P := by
  refine ⟨w.preserves_sound sound, w.isDir_mono sound dir, fun e' member live => ?_⟩
  obtain ⟨j, slot⟩ := List.mem_iff_getElem?.mp member
  by_cases here : (E, j) = (D, i)
  · cases here
    obtain rfl := (w.here e' live).mp slot
    exact new live
  · exact .inl (List.mem_iff_getElem?.mpr ⟨j, (w.slot_iff sound dir here live).mp slot⟩)

theorem Rewrites.grows_dead {e : DirEntry} {added : List Nat} (w : Rewrites I I' D i e added)
    (sound : I.Sound) (dir : I.IsDir E) (dead : e.isDead = true) : Grows I I' E P :=
  w.grows sound dir fun live => by
    rw [dead] at live
    cases live

theorem Staged.grows {O L : List Nat} {first : Nat} (staged : Staged I J D i O first L)
    (sound : I.Sound) (dir : I.IsDir E) : Grows I J E P := by
  obtain ⟨e₀, dead, w⟩ := staged.rewrites
  exact w.grows_dead sound dir dead

theorem Inserted.grows {m first size : Nat} {added : List Nat} {name83 : Name} {attr : UInt8}
    (inserted : Inserted J I' D m (buildDirEntry name83 attr first size) added) (sound : J.Sound)
    (dir : J.IsDir E) (named : P name83) : Grows J I' E P := by
  refine inserted.rewrites.grows sound dir fun _ => .inr ?_
  rw [buildDirEntry_name]
  exact named

variable {names : List (List UInt8)} {data : List UInt8} {b : Bool}
  (sound : I.Sound) (dir : I.IsDir E) (terminated : ∀ n ∈ names, 0 ∉ n)
  (named : ∀ name, names.getLast? = some name → P (toShortName name))
include sound dir terminated named

theorem Write.grows (write : Write I names data I' b) : Grows I I' E P := by
  cases write with
  | unresolved _ => exact .refl sound dir
  | directory _ _ _ => exact .refl sound dir
  | @store D i name old O _ _ found entry vacates store =>
    obtain ⟨parent, last⟩ := resolveParent_isDir .root terminated found
    cases b with
    | true =>
      cases store with
      | done _ staged _ _ inserted =>
        have before : Grows I _ E P := staged.grows sound dir
        exact before.trans (inserted.grows before.sound before.dir (named name last))
    | false =>
      rcases store.abandoned with ⟨first, a⟩ | ⟨-, first, L, -, -, staged⟩
      · refine (a.rewrites sound parent vacates).grows sound dir fun live => .inl ?_
        cases old with
        | none => cases live
        | some e => exact List.mem_of_getElem? vacates.slot.1
      · exact staged.grows sound dir

omit named in
theorem Delete.grows (delete : Delete I names I' b) : Grows I I' E P := by
  cases delete with
  | unresolved _ => exact .refl sound dir
  | missing _ _ => exact .refl sound dir
  | directory _ _ _ => exact .refl sound dir
  | done found entry vacates =>
    obtain ⟨parent, -⟩ := resolveParent_isDir .root terminated found
    exact (vacates.delete_rewrites sound parent).grows_dead sound dir (DirEntry.deleted_isDead _)

theorem Make.grows (make : Make I names I' b) : Grows I I' E P := by
  cases make with
  | unresolved _ => exact .refl sound dir
  | full _ _ => exact .refl sound dir
  | blocked _ _ _ staged => exact staged.grows sound dir
  | done found _ _ staged _ inserted =>
    obtain ⟨-, last⟩ := resolveParent_isDir .root terminated found
    have before : Grows I _ E P := staged.grows sound dir
    exact before.trans (inserted.grows before.sound before.dir (named _ last))

omit terminated named in
theorem Effect.grows {call : Call} (effect : I.Effect call I' b)
    (named : ∀ name, (parentComponents call.path).getLast? = some name → P (toShortName name)) :
    Grows I I' E P := by
  have terminated := parentComponents_terminated call.path
  cases call with
  | writeFile path data word => exact Write.grows sound dir terminated named effect
  | createFile path => exact Write.grows sound dir terminated named effect
  | deleteFile path => exact Delete.grows sound dir terminated effect
  | makeDir path => exact Make.grows sound dir terminated named effect

end Image

theorem Call.converted (call : Call) (name : List UInt8)
    (last : (parentComponents call.path).getLast? = some name) : Converted (toShortName name) := by
  have member := List.mem_of_getLast? last
  refine ⟨name, parentComponents_terminated call.path name member, fun slash => ?_, rfl⟩
  obtain ⟨rest, rfl⟩ := cutPath_component member
  have other := List.mem_takeWhile_imp ((List.take_sublist _ _).subset slash)
  simp at other

theorem Image.UniqueNames.shown {I : Image} (unique : I.UniqueNames) {D : Nat} (dir : I.IsDir D) :
    ((I.shown D).map DirEntry.name).Nodup := by
  rw [List.Nodup, List.pairwise_map, Image.shown, List.pairwise_filter, List.pairwise_iff_getElem]
  intro a b inside inside' before shown shown' same
  have live (e : DirEntry) (test : (!e.isDead && e.first != 46) = true) : e.isDead = false := by
    rw [Bool.and_eq_true, Bool.not_eq_true'] at test
    exact test.1
  have equal := unique D dir a b _ _ (List.getElem?_eq_getElem inside) (List.getElem?_eq_getElem inside')
    (live _ shown) (live _ shown') same
  omega

namespace Volume

variable {v : Volume} {d d' : Disk} {D : Nat} {calls : List Call}

/-- A run of calls, whatever they return. -/
abbrev Runs (v : Volume) (d : Disk) (calls : List Call) (d' : Disk) : Prop :=
  Steps (fun d call d' => ∃ b, v.call d call = some (d', b)) d calls d'

/-- A run in which every name that is used is plain, and no `MakeDir` makes a second entry of a name. -/
abbrev RunsPlainly (v : Volume) (d : Disk) (calls : List Call) (d' : Disk) : Prop :=
  Steps (fun d call d' => ∃ b, v.call d call = some (d', b) ∧ (v.image d).Distinct call ∧
    ∀ name, (parentComponents call.path).getLast? = some name → Plain (toShortName name)) d calls d'

theorem Runs.converted (run : v.Runs d calls d') (wf : v.WellFormed d) (dir : (v.image d).IsDir D)
    (empty : (v.image d).shown D = []) :
    v.Synced d' ∧ (v.image d').Sound ∧ (v.image d').IsDir D ∧ ∀ e ∈ (v.image d').shown D, Converted e.name := by
  have run' : Steps (fun d call d' => ∃ b, v.call d call = some (d', b) ∧ True) d calls d' :=
    run.mono fun _ _ _ ⟨b, ran⟩ => ⟨b, ran, trivial⟩
  refine run_keeps (P := fun I => I.Sound ∧ I.IsDir D ∧ ∀ e ∈ I.shown D, Converted e.name)
    (fun _ _ _ => True) wf.geometry (fun _ before => before.1) ?_ run' wf.synced
    ⟨wf.regular.sound, dir, by rw [empty]; exact List.forall_mem_nil _⟩
  rintro I call I' b ⟨sound, dir, names⟩ - effect
  have grows := effect.grows sound dir call.converted
  exact ⟨grows.sound, grows.dir, grows.shown names⟩

theorem RunsPlainly.plain (run : v.RunsPlainly d calls d') (wf : v.WellFormed d)
    (dir : (v.image d).IsDir D) (empty : (v.image d).shown D = []) :
    (∀ e ∈ (v.image d').shown D, Plain e.name) ∧ (((v.image d').shown D).map DirEntry.name).Nodup := by
  obtain ⟨-, -, unique, dir', names⟩ := run_keeps
    (P := fun I => I.Sound ∧ I.UniqueNames ∧ I.IsDir D ∧ ∀ e ∈ I.shown D, Plain e.name)
    (fun I call _ => I.Distinct call ∧
      ∀ name, (parentComponents call.path).getLast? = some name → Plain (toShortName name))
    wf.geometry (fun _ before => before.1)
    (fun I call I' b before plain effect => by
      obtain ⟨sound, unique, dir, names⟩ := before
      obtain ⟨distinct, named⟩ := plain
      have grows := effect.grows sound dir named
      exact ⟨grows.sound, (effect.unique_iff sound unique).2.mpr distinct, grows.dir, grows.shown names⟩)
    run wf.synced
    ⟨wf.regular.sound, wf.regular.unique, dir, by rw [empty]; exact List.forall_mem_nil _⟩
  exact ⟨names, unique.shown dir'⟩

/-- **Directories that calls lead to.** After any calls on a well-formed volume, the names listed for a
directory that was empty can be looked up exactly if each of them is plain and none occurs twice. That is
so if all names used were plain and no `MakeDir` made a second entry of a name. -/
theorem reachable_listsNames (wf : v.WellFormed d) (dir : (v.image d).IsDir D)
    (empty : (v.image d).shown D = []) (run : v.Runs d calls d') :
    (v.ListsNames d' D ↔ (∀ e ∈ (v.image d').shown D, Plain e.name) ∧
      (((v.image d').shown D).map DirEntry.name).Nodup) ∧
      (v.RunsPlainly d calls d' → v.ListsNames d' D) := by
  obtain ⟨synced, sound, dir', converted⟩ := run.converted wf dir empty
  have iff := listsNames_iff wf.geometry ⟨synced, rfl⟩ sound dir' converted
  exact ⟨iff, fun plainly => iff.mpr (plainly.plain wf dir empty)⟩

theorem spaced_terminated : (0 : UInt8) ∉ [65, 32, 66] := by decide

/-- `A B` is created. -/
def spacedCall : Call := .createFile ⟨[65, 32, 66], spaced_terminated⟩

/-- `A` is created. -/
def letterCall : Call := .createFile ⟨[65], letter_terminated⟩

theorem listsNames_letter : sample.ListsNames (sample.after blank letterCall) 2 := by
  have run : sample.Runs blank [letterCall] (sample.after blank letterCall) :=
    .cons ⟨true, call_after (by decide +kernel)⟩ (.nil _)
  have empty : (sample.image blank).shown 2 = [] := by decide +kernel
  have names : ((sample.image (sample.after blank letterCall)).shown 2).map DirEntry.name =
      [toShortName [65]] := by decide +kernel
  have plain : Plain (toShortName [65]) := by decide +kernel
  refine (reachable_listsNames blank_wellFormed .root empty run).1.mpr ⟨fun e mem => ?_, ?_⟩
  · have name : e.name ∈ [toShortName [65]] := names ▸ List.mem_map_of_mem mem
    exact List.mem_singleton.mp name ▸ plain
  · have nodup := List.nodup_singleton (toShortName [65])
    rwa [← names] at nodup

/-- **A name with a space is listed without it**: after `A B` has been created in an empty directory, the
listing says `AB`, which is not found. -/
theorem spaced_name_lost : sample.Runs blank [spacedCall] (sample.after blank spacedCall) ∧
      (sample.image blank).shown 2 = [] ∧
      sample.lineLoop (sample.after blank spacedCall) loopFuel 2 [] = some [65, 66, 10] ∧
      sample.findEntry (sample.after blank spacedCall) 2 [65, 66] = some none ∧
      ¬ sample.ListsNames (sample.after blank spacedCall) 2 := by
  have lost : sample.findEntry (sample.after blank spacedCall) 2 [65, 66] = some none := by
    decide +kernel
  refine ⟨.cons ⟨true, call_after (by decide +kernel)⟩ (.nil _), by decide +kernel, by decide +kernel, lost, ?_⟩
  rintro ⟨entries, -, slots, -, -, found, -⟩
  have one : (sample.slotsFrom (sample.after blank spacedCall) loopFuel 2).map listedIn =
      some [buildDirEntry (toShortName [65, 32, 66]) 0x20 3 0] := by decide +kernel
  cases one.symm.trans slots
  have here := found _ List.mem_cons_self
  rw [show printed (buildDirEntry (toShortName [65, 32, 66]) 0x20 3 0).name = [65, 66] by decide, lost] at here
  cases here

end Volume

end LaylaOS.Fs
