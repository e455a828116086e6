/-
**The 8.3 names of components** (`ToShortName`).

A name is a base of eight bytes and an extension of three, each padded with spaces. The conversion cuts
what does not fit, so different components may have one name.
-/

import LaylaOS.Lib.Padded
import LaylaOS.Fs.WriteRead

namespace LaylaOS.Fs

open LaylaOS.Lib

/-- The bytes of a name in front of the extension. -/
def baseOf (name83 : Name) : List UInt8 := (List.ofFn name83).take 8

/-- The bytes of the extension. -/
def extOf (name83 : Name) : List UInt8 := (List.ofFn name83).drop 8

theorem baseOf_length (name83 : Name) : (baseOf name83).length = 8 := by
  rw [baseOf, List.length_take, List.length_ofFn]
  rfl

theorem extOf_length (name83 : Name) : (extOf name83).length = 3 := by
  rw [extOf, List.length_drop, List.length_ofFn]

theorem name_ext_iff {n n' : Name} : n = n' ↔ baseOf n = baseOf n' ∧ extOf n = extOf n' := by
  constructor
  · rintro rfl
    exact ⟨rfl, rfl⟩
  · rintro ⟨base, ext⟩
    apply List.ofFn_injective
    rw [← List.take_append_drop 8 (List.ofFn n), ← List.take_append_drop 8 (List.ofFn n')]
    exact congrArg₂ (· ++ ·) base ext

theorem shortBase_length (component : List UInt8) : (shortBase component).length ≤ 8 := List.length_take_le _ _

theorem shortExt_length (component : List UInt8) : (shortExt component).length ≤ 3 := by
  unfold shortExt
  split
  · exact List.length_take_le _ _
  · exact Nat.zero_le _

theorem getElem?_rightpad {items : List UInt8} {n k : Nat} (inside : k < n) :
    (items.rightpad n 32)[k]? = some (items.getD k 32) := by
  unfold List.rightpad
  rw [List.getD_eq_getElem?_getD]
  rcases Nat.lt_or_ge k items.length with here | behind
  · rw [List.getElem?_append_left here, List.getElem?_eq_getElem here, Option.getD_some]
  · rw [List.getElem?_append_right behind, List.getElem?_replicate, if_pos (by omega),
      List.getElem?_eq_none behind, Option.getD_none]

theorem baseOf_toShortName (component : List UInt8) :
    baseOf (toShortName component) = ((shortBase component).map upper).rightpad 8 32 := by
  have length := shortBase_length component
  apply List.ext_getElem?
  intro k
  rcases Nat.lt_or_ge k 8 with inside | outside
  · rw [getElem?_rightpad inside, baseOf, List.getElem?_take_of_lt inside, List.getElem?_ofFn,
      dif_pos (by omega)]
    exact congrArg some (if_pos inside)
  · rw [List.getElem?_eq_none (by rw [baseOf_length]; exact outside), List.getElem?_eq_none]
    rw [List.length_rightpad, List.length_map]
    omega

theorem extOf_toShortName (component : List UInt8) :
    extOf (toShortName component) = ((shortExt component).map upper).rightpad 3 32 := by
  have length := shortExt_length component
  apply List.ext_getElem?
  intro k
  rcases Nat.lt_or_ge k 3 with inside | outside
  · rw [getElem?_rightpad inside, extOf, List.getElem?_drop, List.getElem?_ofFn, dif_pos (by omega)]
    refine congrArg some ((if_neg (Nat.not_lt.mpr (Nat.le_add_right 8 k))).trans ?_)
    rw [Nat.add_sub_cancel_left]
  · rw [List.getElem?_eq_none (by rw [extOf_length]; exact outside), List.getElem?_eq_none]
    rw [List.length_rightpad, List.length_map]
    omega

/-! ### Components that fit -/

/-- Nothing of the component is cut, and no space at the end of a part is taken for padding. -/
structure Fits (component : List UInt8) : Prop where
  whole : component = shortBase component ++
    if shortExt component = [] then [] else 46 :: shortExt component
  base : (shortBase component).getLast? ≠ some 32
  ext : (shortExt component).getLast? ≠ some 32

theorem getLast?_map_upper {part : List UInt8} (ends : part.getLast? ≠ some 32) :
    (part.map upper).getLast? ≠ some 32 := by
  rw [List.getLast?_map]
  intro same
  obtain ⟨last, here, space⟩ := Option.map_eq_some_iff.mp same
  have other : last ≠ 32 := fun equal => ends (here.trans (congrArg some equal))
  exact upper_ne other (by decide) space

theorem Fits.map_upper {component : List UInt8} (fits : Fits component) :
    component.map upper = (shortBase component).map upper ++
      if (shortExt component).map upper = [] then [] else 46 :: (shortExt component).map upper := by
  refine (congrArg (List.map upper) fits.whole).trans ?_
  rw [List.map_append]
  congr 1
  by_cases none : shortExt component = []
  · rw [none, if_pos rfl, List.map_nil, if_pos rfl]
  · rw [if_neg none, if_neg (mt List.map_eq_nil_iff.mp none), List.map_cons]
    rfl

/-- **Components that fit and have the same name differ in case at most.** -/
theorem toShortName_inj {first second : List UInt8} (fits : Fits first) (fits' : Fits second)
    (same : toShortName first = toShortName second) : first.map upper = second.map upper := by
  obtain ⟨base, ext⟩ := name_ext_iff.mp same
  rw [baseOf_toShortName, baseOf_toShortName] at base
  rw [extOf_toShortName, extOf_toShortName] at ext
  have short (part : List UInt8) {n : Nat} (le : part.length ≤ n) : (part.map upper).length ≤ n :=
    (List.length_map _).trans_le le
  have bases := rightpad_inj (short _ (shortBase_length _)) (short _ (shortBase_length _))
    (getLast?_map_upper fits.base) (getLast?_map_upper fits'.base) base
  have exts := rightpad_inj (short _ (shortExt_length _)) (short _ (shortExt_length _))
    (getLast?_map_upper fits.ext) (getLast?_map_upper fits'.ext) ext
  rw [fits.map_upper, fits'.map_upper, bases, exts]

end LaylaOS.Fs
