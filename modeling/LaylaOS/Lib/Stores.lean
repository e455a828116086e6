/-
**Stores into a region of the memory.**

A region is a set of addresses, such as a number of them from one on; addresses go round at the end of the
memory. `Wrote` relates the memory and the record of the stores before and after: every store was to the
region, and outside of it the memory is as before.
-/

import LaylaOS.Lib.CStrings

namespace LaylaOS.Lib.Assembly

/-! ### Regions -/

/-- One of the `size` addresses from `a` on. -/
def Within (a : UInt32) (size : Nat) (x : UInt32) : Prop := (x - a).toNat < size

instance (a : UInt32) (size : Nat) (x : UInt32) : Decidable (Within a size x) :=
  inferInstanceAs (Decidable (_ < _))

theorem add_sub_self (a b : UInt32) : a + b - a = b := by
  rw [UInt32.add_comm, UInt32.add_sub_cancel]

theorem within_add {a : UInt32} {size k : Nat} (inside : k < size) : Within a size (a + UInt32.ofNat k) := by
  rw [Within, add_sub_self, UInt32.toNat_ofNat']
  exact lt_of_le_of_lt (Nat.mod_le _ _) inside

theorem within_add_iff {a : UInt32} {size k : Nat} (fits : k < 2 ^ 32) :
    Within a size (a + UInt32.ofNat k) ↔ k < size := by
  rw [Within, add_sub_self, UInt32.toNat_ofNat_of_lt' fits]

theorem not_within_of_apart {a : UInt32} {i j k size : Nat} (apart : j + k < i ∨ i + size ≤ j + k)
    (fits : i + size ≤ 2 ^ 32) (fits' : j + k < 2 ^ 32) :
    ¬ Within (a + UInt32.ofNat i) size (a + UInt32.ofNat j + UInt32.ofNat k) := by
  have place : a + UInt32.ofNat j + UInt32.ofNat k - (a + UInt32.ofNat i) =
      UInt32.ofNat (j + k) - UInt32.ofNat i := by
    rw [UInt32.ofNat_add]
    grind
  rw [Within, place, UInt32.toNat_sub, UInt32.toNat_ofNat_of_lt' fits', UInt32.toNat_ofNat']
  omega

theorem add_ofNat_ne {a : UInt32} {i j k l : Nat} (apart : i + k ≠ j + l) (fits : i + k < 2 ^ 32)
    (fits' : j + l < 2 ^ 32) :
    a + UInt32.ofNat i + UInt32.ofNat k ≠ a + UInt32.ofNat j + UInt32.ofNat l := by
  rw [UInt32.add_assoc, UInt32.add_assoc, Ne, UInt32.add_right_inj, ← UInt32.ofNat_add, ← UInt32.ofNat_add,
    ofNat_inj fits fits']
  exact apart

/-! ### Stores -/

/-- Between the two states nothing was stored outside of the region. -/
structure Wrote (region : UInt32 → Prop) (memory : Memory) (stores : List UInt32) (memory' : Memory)
    (stores' : List UInt32) : Prop where
  stored : ∃ new, stores' = new ++ stores ∧ ∀ x ∈ new, region x
  kept : ∀ x, ¬ region x → memory' x = memory x

namespace Wrote

variable {region wide : UInt32 → Prop} {x : UInt32} {memory memory' memory'' : Memory}
  {stores stores' stores'' : List UInt32}

theorem refl (region : UInt32 → Prop) (memory : Memory) (stores : List UInt32) :
    Wrote region memory stores memory stores :=
  ⟨⟨[], rfl, List.forall_mem_nil _⟩, fun _ _ => rfl⟩

theorem trans (first : Wrote region memory stores memory' stores')
    (second : Wrote region memory' stores' memory'' stores'') :
    Wrote region memory stores memory'' stores'' := by
  obtain ⟨new, rfl, within⟩ := first.stored
  obtain ⟨new', rfl, within'⟩ := second.stored
  refine ⟨⟨new' ++ new, (List.append_assoc ..).symm, ?_⟩, ?_⟩
  · exact List.forall_mem_append.mpr ⟨within', within⟩
  · intro x outside
    rw [second.kept x outside, first.kept x outside]

theorem store (before : Wrote region memory stores memory' stores') (inside : region x)
    (byte : UInt8) : Wrote region memory stores (Function.update memory' x byte) (x :: stores') := by
  refine before.trans ⟨⟨[x], rfl, List.forall_mem_singleton.mpr inside⟩, ?_⟩
  intro y outside
  refine Function.update_of_ne ?_ _ _
  rintro rfl
  exact outside inside

theorem storeAll {new : List (UInt32 × UInt8)} (before : Wrote region memory stores memory' stores')
    (inside : ∀ store ∈ new, region store.1) :
    Wrote region memory stores (storeAll memory' new) (new.map Prod.fst ++ stores') := by
  refine before.trans ⟨⟨new.map Prod.fst, rfl, List.forall_mem_map.mpr inside⟩, ?_⟩
  intro x outside
  clear before
  induction new generalizing memory' with
  | nil => rfl
  | cons store new ih =>
    refine (ih fun store inner => inside store (List.mem_cons_of_mem _ inner)).trans ?_
    refine Function.update_of_ne ?_ _ _
    rintro rfl
    exact outside (inside store List.mem_cons_self)

theorem mono (before : Wrote region memory stores memory' stores')
    (wider : ∀ x, region x → wide x) : Wrote wide memory stores memory' stores' := by
  obtain ⟨new, shape, within⟩ := before.stored
  exact ⟨⟨new, shape, fun x inside => wider x (within x inside)⟩,
    fun x outside => before.kept x fun inside => outside (wider x inside)⟩

end Wrote

/-! ### Words -/

theorem wordAt_congr {memory memory' : Memory} {a : UInt32}
    (same : ∀ k < 4, memory' (a + UInt32.ofNat k) = memory (a + UInt32.ofNat k)) :
    wordAt memory' a = wordAt memory a := by
  have first : memory' a = memory a := by simpa using same 0 (by decide)
  have second : memory' (a + 1) = memory (a + 1) := same 1 (by decide)
  have third : memory' (a + 2) = memory (a + 2) := same 2 (by decide)
  have fourth : memory' (a + 3) = memory (a + 3) := same 3 (by decide)
  rw [wordAt, first, second, third, fourth, wordAt]

theorem wordAt_wordStores (memory : Memory) (a value : UInt32) :
    wordAt (storeAll memory (wordStores a value)) a = value := by
  have bound := value.toNat_lt
  have first : storeAll memory (wordStores a value) a = UInt8.ofNat value.toNat := by
    simp [storeAll, wordStores]
  have second : storeAll memory (wordStores a value) (a + 1) = UInt8.ofNat (value.toNat / 256) := by
    simp [storeAll, wordStores]
  have third : storeAll memory (wordStores a value) (a + 2) = UInt8.ofNat (value.toNat / 256 ^ 2) := by
    simp [storeAll, wordStores]
  have fourth : storeAll memory (wordStores a value) (a + 3) = UInt8.ofNat (value.toNat / 256 ^ 3) := by
    simp [storeAll, wordStores]
  have split : value.toNat % 2 ^ 8 + 256 * (value.toNat / 256 % 2 ^ 8) +
      256 ^ 2 * (value.toNat / 256 ^ 2 % 2 ^ 8) + 256 ^ 3 * (value.toNat / 256 ^ 3 % 2 ^ 8) = value.toNat := by
    omega
  rw [wordAt, first, second, third, fourth, UInt8.toNat_ofNat', UInt8.toNat_ofNat', UInt8.toNat_ofNat',
    UInt8.toNat_ofNat', split, UInt32.ofNat_toNat]

theorem within_wordStores {a value : UInt32} {store : UInt32 × UInt8} (inside : store ∈ wordStores a value) :
    Within a 4 store.1 := by
  simp only [wordStores, List.mem_cons, List.not_mem_nil, or_false] at inside
  obtain rfl | rfl | rfl | rfl := inside
  · simpa using within_add (a := a) (k := 0) (show 0 < 4 by decide)
  · exact within_add (k := 1) (by decide)
  · exact within_add (k := 2) (by decide)
  · exact within_add (k := 3) (by decide)

/-! ### Bytes -/

/-- The memory holds the bytes from the address on. -/
def Holds (memory : Memory) (a : UInt32) (bytes : List UInt8) : Prop :=
  ∀ k c, bytes[k]? = some c → memory (a + UInt32.ofNat k) = c

section Bytes

variable {memory memory' : Memory} {a : UInt32} {bytes text : List UInt8}

theorem Holds.nil (memory : Memory) (a : UInt32) : Holds memory a [] := by
  intro k c inside
  cases inside

theorem Holds.left {behind : List UInt8} (held : Holds memory a (bytes ++ behind)) : Holds memory a bytes := by
  intro k c inside
  refine held k c ?_
  rwa [List.getElem?_append_left (List.getElem?_eq_some_iff.mp inside).1]

theorem Holds.concat (held : Holds memory a bytes) (fits : bytes.length < 2 ^ 32) (c : UInt8) :
    Holds (Function.update memory (a + UInt32.ofNat bytes.length) c) a (bytes ++ [c]) := by
  intro k d inside
  obtain before | rfl | behind := lt_trichotomy k bytes.length
  · rw [List.getElem?_append_left before] at inside
    rw [Function.update_of_ne, held k d inside]
    rw [Ne, UInt32.add_right_inj, ofNat_inj (by omega) fits]
    exact before.ne
  · rw [List.getElem?_concat_length] at inside
    rw [Function.update_self, Option.some.inj inside]
  · rw [List.getElem?_eq_none (by rw [List.length_append, List.length_singleton]; exact behind)] at inside
    cases inside

theorem Holds.read (held : Holds memory a bytes) :
    (List.range bytes.length).map (fun k => memory (a + UInt32.ofNat k)) = bytes := by
  refine List.ext_getElem (by simp) fun k _ inside => ?_
  rw [List.getElem_map, List.getElem_range, held k _ (List.getElem?_eq_getElem inside)]

theorem cstr_iff : Cstr memory a text ↔
    Holds memory a text ∧ memory (a + UInt32.ofNat text.length) = 0 ∧ ∀ c ∈ text, c ≠ 0 := by
  induction text generalizing a with
  | nil => simp [Cstr, Holds]
  | cons c text ih =>
    rw [Cstr, ih, List.length_cons, ← add_one_add_ofNat, List.forall_mem_cons]
    have split : Holds memory a (c :: text) ↔ memory a = c ∧ Holds memory (a + 1) text := by
      constructor
      · intro held
        refine ⟨by simpa using held 0 c rfl, fun k d inside => ?_⟩
        rw [add_one_add_ofNat]
        exact held (k + 1) d inside
      · rintro ⟨first, behind⟩ k d inside
        cases k with
        | zero => simpa [first] using inside
        | succ k =>
          rw [← add_one_add_ofNat]
          exact behind k d inside
    rw [split]
    tauto

theorem Holds.close (held : Holds memory a bytes) (fits : bytes.length < 2 ^ 32)
    (nonzero : ∀ c ∈ bytes, c ≠ 0) :
    Cstr (Function.update memory (a + UInt32.ofNat bytes.length) 0) a bytes := by
  refine cstr_iff.mpr ⟨fun k c inside => ?_, Function.update_self .., nonzero⟩
  have bound := (List.getElem?_eq_some_iff.mp inside).1
  rw [Function.update_of_ne, held k c inside]
  rw [Ne, UInt32.add_right_inj, ofNat_inj (by omega) fits]
  exact bound.ne

namespace Cstr

theorem at_append {before : List UInt8} {c : UInt8} (there : Cstr memory a (before ++ c :: text)) :
    memory (a + UInt32.ofNat before.length) = c ∧ c ≠ 0 := ⟨there.behind.1, there.behind.2.1⟩

theorem keep (there : Cstr memory a text)
    (same : ∀ k ≤ text.length, memory' (a + UInt32.ofNat k) = memory (a + UInt32.ofNat k)) :
    Cstr memory' a text := by
  obtain ⟨held, zero, nonzero⟩ := cstr_iff.mp there
  refine cstr_iff.mpr ⟨fun k c inside => ?_, ?_, nonzero⟩
  · have bound := (List.getElem?_eq_some_iff.mp inside).1
    rw [same k bound.le, held k c inside]
  · rw [same _ le_rfl, zero]

theorem kept {region : UInt32 → Prop} {stores stores' : List UInt32} (there : Cstr memory a text)
    (wrote : Wrote region memory stores memory' stores')
    (apart : ∀ k ≤ text.length, ¬ region (a + UInt32.ofNat k)) : Cstr memory' a text :=
  there.keep fun k inside => wrote.kept _ (apart k inside)

theorem unique {text' : List UInt8} (there : Cstr memory a text) (there' : Cstr memory a text') :
    text = text' := by
  induction text generalizing a text' with
  | nil =>
    cases text' with
    | nil => rfl
    | cons c text' => exact absurd (there'.1.symm.trans there) there'.2.1
  | cons c text ih =>
    cases text' with
    | nil => exact absurd (there.1.symm.trans there') there.2.1
    | cons d text' => rw [← there.1, ← there'.1, ih there.2.2 there'.2.2]

theorem truncate {before : List UInt8} (there : Cstr memory a (before ++ text)) :
    Cstr (Function.update memory (a + UInt32.ofNat before.length) 0) a before := by
  obtain ⟨held, -, nonzero⟩ := cstr_iff.mp there
  have short := there.length_lt
  rw [List.length_append] at short
  exact held.left.close (by omega) fun c inside => nonzero c (List.mem_append_left _ inside)

end Cstr

end Bytes

/-! ### Bytes that are being stored -/

/-- The bytes have been stored at the beginning of the region, and nothing outside of it. -/
structure Copied (a : UInt32) (size : Nat) (memory : Memory) (stores : List UInt32) (bytes : List UInt8)
    (memory' : Memory) (stores' : List UInt32) : Prop extends
    Wrote (Within a size) memory stores memory' stores' where
  held : Holds memory' a bytes

namespace Copied

variable {a : UInt32} {size : Nat} {memory memory' : Memory} {stores stores' : List UInt32}
  {bytes : List UInt8}

theorem nil (a : UInt32) (size : Nat) (memory : Memory) (stores : List UInt32) :
    Copied a size memory stores [] memory stores := ⟨.refl .., Holds.nil memory a⟩

theorem left {behind : List UInt8} (copied : Copied a size memory stores (bytes ++ behind) memory' stores') :
    Copied a size memory stores bytes memory' stores' := ⟨copied.toWrote, copied.held.left⟩

theorem concat (copied : Copied a size memory stores bytes memory' stores')
    (room : bytes.length < size) (fits : size ≤ 2 ^ 32) (c : UInt8) :
    Copied a size memory stores (bytes ++ [c]) (Function.update memory' (a + UInt32.ofNat bytes.length) c)
      ((a + UInt32.ofNat bytes.length) :: stores') :=
  ⟨copied.store (within_add room) c, copied.held.concat (lt_of_lt_of_le room fits) c⟩

end Copied

end LaylaOS.Lib.Assembly
