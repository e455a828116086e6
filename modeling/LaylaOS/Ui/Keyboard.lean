/-
**The keyboard driver and its modifiers** (`drivers/keyboard.cpp`).

An interrupt delivers one scancode: the make code of a key when it goes down, and that code with bit 7
set, the break code, when it goes up. The driver keeps one flag for both Shift keys, and it combines
that flag with Caps Lock before it chooses between its two tables, whatever the key.

* `modifiers_follow_iff` — the modifiers follow the keys throughout a run if and only if no Shift key is
  released while the other one is held and no such key is typed under Caps Lock.
-/

import LaylaOS.Lib.Steps

namespace LaylaOS.Ui

open LaylaOS.Lib

/-- `normal_table`. -/
def normalTable : List Char :=
  ['\x00', '\x00', '1', '2', '3', '4', '5', '6',
   '7', '8', '9', '0', '-', '=', '\x08', '\t',
   'q', 'w', 'e', 'r', 't', 'y', 'u', 'i',
   'o', 'p', '[', ']', '\n', '\x00', 'a', 's',
   'd', 'f', 'g', 'h', 'j', 'k', 'l', ';',
   '\x27', '\x60', '\x00', '\\', 'z', 'x', 'c', 'v',
   'b', 'n', 'm', ',', '.', '/', '\x00', '*',
   '\x00', ' '] ++ List.replicate 30 '\x00'

/-- `shifted_table`. -/
def shiftedTable : List Char :=
  ['\x00', '\x00', '!', '@', '#', '$', '%', '^',
   '&', '*', '(', ')', '_', '+', '\x08', '\t',
   'Q', 'W', 'E', 'R', 'T', 'Y', 'U', 'I',
   'O', 'P', '\x7b', '\x7d', '\n', '\x00', 'A', 'S',
   'D', 'F', 'G', 'H', 'J', 'K', 'L', ':',
   '\x22', '~', '\x00', '|', 'Z', 'X', 'C', 'V',
   'B', 'N', 'M', '<', '>', '?', '\x00', '*',
   '\x00', ' '] ++ List.replicate 30 '\x00'

/-- `table[scancode]`. -/
def keyAt (upper : Bool) (scancode : UInt8) : UInt8 :=
  ((if upper then shiftedTable else normalTable).getD scancode.toNat '\x00').toUInt8

/-- `(c >= 'a' && c <= 'z') || (c >= 'A' && c <= 'Z')`. -/
def isLetter (c : UInt8) : Bool := (97 ≤ c && c ≤ 122) || (65 ≤ c && c ≤ 90)

/-- `KeyboardDriver`. -/
structure KeyboardDriver where
  shift : Bool
  ctrl : Bool
  capsLock : Bool
  deriving DecidableEq

/-- What shows the characters: `VGA::IsGraphicsMode` and whether there is a desktop. -/
structure Display where
  graphicsMode : Bool
  desktop : Bool

/-- Where a character goes: to `Desktop::OnKeyPress`, or to the keyboard buffer and in text mode to
the screen as well. -/
inductive KeyDelivery
  | desktop (c : UInt8)
  | buffer (c : UInt8) (shown : Bool)
  deriving DecidableEq

/-- The character. -/
def KeyDelivery.character : KeyDelivery → UInt8
  | .desktop c => c
  | .buffer c _ => c

namespace KeyboardDriver

/-- The constructor. -/
def new : KeyboardDriver := ⟨false, false, false⟩

/-- The last part of the handler. -/
def deliver (display : Display) (c : UInt8) : KeyDelivery :=
  if display.graphicsMode && display.desktop then .desktop c
  else .buffer c !display.graphicsMode

/-- `HandleInterrupt`. -/
def handleInterrupt (d : KeyboardDriver) (display : Display) (scancode : UInt8) :
    KeyboardDriver × Option KeyDelivery :=
  if scancode = 0x9D then ({ d with ctrl := false }, none)
  else if scancode = 0xAA ∨ scancode = 0xB6 then ({ d with shift := false }, none)
  else if scancode = 0x1D then ({ d with ctrl := true }, none)
  else if scancode = 0x2A ∨ scancode = 0x36 then ({ d with shift := true }, none)
  else if scancode = 0x3A then ({ d with capsLock := !d.capsLock }, none)
  else if scancode &&& 0x80 ≠ 0 then (d, none)
  else
    let upper := d.shift ^^ d.capsLock
    if scancode ≥ 88 then (d, none)
    else
      let c := keyAt upper scancode
      if c = 0 then (d, none)
      else
        let c := if d.ctrl && isLetter c then c &&& 0x1F else c
        (d, some (deliver display c))

theorem handleInterrupt_fst (d : KeyboardDriver) (display : Display) (scancode : UInt8) :
    (d.handleInterrupt display scancode).1 =
      if scancode = 0x9D then { d with ctrl := false }
      else if scancode = 0xAA ∨ scancode = 0xB6 then { d with shift := false }
      else if scancode = 0x1D then { d with ctrl := true }
      else if scancode = 0x2A ∨ scancode = 0x36 then { d with shift := true }
      else if scancode = 0x3A then { d with capsLock := !d.capsLock }
      else d := by
  simp only [handleInterrupt, apply_ite Prod.fst, ite_self]

end KeyboardDriver

/-! ### The keys -/

/-- The driver, and the keys that are held, by their make codes. -/
structure Keyboard where
  driver : KeyboardDriver
  held : UInt8 → Bool

namespace Keyboard

/-- Nothing is held when the driver is made. -/
def new : Keyboard := ⟨.new, fun _ => false⟩

/-- A scancode: the key goes down or up. -/
def press (held : UInt8 → Bool) (scancode : UInt8) : UInt8 → Bool :=
  Function.update held (scancode &&& 0x7F) (scancode < 0x80)

def step (display : Display) (k : Keyboard) (scancode : UInt8) : Keyboard where
  driver := (k.driver.handleInterrupt display scancode).1
  held := press k.held scancode

/-- A make code comes when the key is up, a break code when it is down. -/
def Alternates (k : Keyboard) (scancode : UInt8) : Prop :=
  k.held (scancode &&& 0x7F) = !(scancode < 0x80 : Bool)

instance (k : Keyboard) (scancode : UInt8) : Decidable (k.Alternates scancode) :=
  inferInstanceAs (Decidable (_ = _))

/-- A Shift key is held. -/
def shiftHeld (k : Keyboard) : Bool := k.held 0x2A || k.held 0x36

/-- The flags say which modifiers are held. -/
structure Follows (k : Keyboard) : Prop where
  shift : k.driver.shift = k.shiftHeld
  ctrl : k.driver.ctrl = k.held 0x1D

/-- A key that is no letter. -/
def PlainKey (scancode : UInt8) : Prop := isLetter (keyAt false scancode) = false

instance (scancode : UInt8) : Decidable (PlainKey scancode) := inferInstanceAs (Decidable (_ = _))

/-- What is typed with such a key depends on Shift only. -/
def PlainByShift (display : Display) (k : Keyboard) (scancode : UInt8) : Prop :=
  PlainKey scancode →
    ((k.driver.handleInterrupt display scancode).2.map KeyDelivery.character).getD 0 =
      keyAt k.shiftHeld scancode

/-- No Shift key is released while the other one is held. -/
def ShiftsApart (k : Keyboard) (scancode : UInt8) : Prop :=
  (scancode = 0xAA → k.held 0x36 = false) ∧ (scancode = 0xB6 → k.held 0x2A = false)

/-- Under Caps Lock no key is typed that is not a letter and for which the tables differ. -/
def CapsOnLetters (k : Keyboard) (scancode : UInt8) : Prop :=
  k.driver.capsLock = true → PlainKey scancode → keyAt false scancode = keyAt true scancode

/-! ### What is typed -/

theorem forall_scancode {P : UInt8 → Prop} (all : ∀ n < 256, P (UInt8.ofNat n)) (scancode : UInt8) :
    P scancode := by
  have here := all scancode.toNat scancode.toNat_lt
  rwa [UInt8.ofNat_toNat] at here

theorem forall_low {P : UInt8 → Prop} (all : ∀ n < 88, P (UInt8.ofNat n)) {scancode : UInt8}
    (low : ¬ 88 ≤ scancode) : P scancode := by
  have here := all scancode.toNat (UInt8.lt_iff_toNat_lt.mp (UInt8.not_le.mp low))
  rwa [UInt8.ofNat_toNat] at here

theorem keyAt_high (upper : Bool) {scancode : UInt8} (high : 88 ≤ scancode) : keyAt upper scancode = 0 := by
  have length : (if upper then shiftedTable else normalTable).length = 88 := by cases upper <;> rfl
  have outside : 88 ≤ scancode.toNat := UInt8.le_iff_toNat_le.mp high
  rw [keyAt, List.getD_eq_getElem?_getD, List.getElem?_eq_none (length ▸ outside)]
  rfl

theorem keyAt_silent (upper : Bool) (scancode : UInt8)
    (silent : scancode = 0x1D ∨ scancode = 0x2A ∨ scancode = 0x36 ∨ scancode = 0x3A ∨ 88 ≤ scancode) :
    keyAt upper scancode = 0 := by
  rcases silent with rfl | rfl | rfl | rfl | high
  · cases upper <;> decide +kernel
  · cases upper <;> decide +kernel
  · cases upper <;> decide +kernel
  · cases upper <;> decide +kernel
  · exact keyAt_high upper high

theorem plainKey_shifted (scancode : UInt8) (plain : PlainKey scancode) :
    isLetter (keyAt true scancode) = false := by
  by_cases high : 88 ≤ scancode
  · rw [keyAt_high true high]
    rfl
  · exact forall_low (P := fun code => PlainKey code → isLetter (keyAt true code) = false)
      (by decide +kernel) high plain

theorem large_of_break (scancode : UInt8) (released : scancode &&& 0x80 ≠ 0) : 88 ≤ scancode := by
  by_contra low
  exact released (forall_low (P := fun code => code &&& 0x80 = 0) (by decide +kernel) low)

theorem character_deliver (display : Display) (c : UInt8) :
    (KeyboardDriver.deliver display c).character = c := by
  unfold KeyboardDriver.deliver
  split_ifs <;> rfl

/-- **What is typed**: the entry of the table, if there is one. -/
theorem handleInterrupt_snd (d : KeyboardDriver) (display : Display) (scancode : UInt8) :
    (d.handleInterrupt display scancode).2 =
      let c := keyAt (d.shift ^^ d.capsLock) scancode
      if c = 0 then none
      else some (KeyboardDriver.deliver display (if d.ctrl && isLetter c then c &&& 0x1F else c)) := by
  simp only [KeyboardDriver.handleInterrupt, apply_ite Prod.snd]
  by_cases zero : keyAt (d.shift ^^ d.capsLock) scancode = 0
  · simp only [zero, if_true, ite_self]
  -- only a key with an entry comes to the last part of the handler
  have loud := mt (keyAt_silent (d.shift ^^ d.capsLock) scancode) zero
  simp only [not_or] at loud
  obtain ⟨ctrl, left, right, caps, low⟩ := loud
  have noBreak : ¬ scancode &&& 0x80 ≠ 0 := fun released => low (large_of_break scancode released)
  have ctrlUp : scancode ≠ 0x9D := fun same => low (same ▸ by decide)
  have leftUp : scancode ≠ 0xAA := fun same => low (same ▸ by decide)
  have rightUp : scancode ≠ 0xB6 := fun same => low (same ▸ by decide)
  rw [if_neg ctrlUp, if_neg (not_or.mpr ⟨leftUp, rightUp⟩), if_neg ctrl, if_neg (not_or.mpr ⟨left, right⟩),
    if_neg caps, if_neg noBreak, if_neg low]

theorem typed_eq (d : KeyboardDriver) (display : Display) {scancode : UInt8} (plain : PlainKey scancode) :
    ((d.handleInterrupt display scancode).2.map KeyDelivery.character).getD 0 =
      keyAt (d.shift ^^ d.capsLock) scancode := by
  have noLetter : isLetter (keyAt (d.shift ^^ d.capsLock) scancode) = false := by
    cases d.shift ^^ d.capsLock
    · exact plain
    · exact plainKey_shifted scancode plain
  rw [handleInterrupt_snd]
  dsimp only
  rw [noLetter, Bool.and_false, if_neg Bool.false_ne_true]
  split_ifs with zero
  · exact zero.symm
  · exact character_deliver ..

theorem keyAt_caps_iff (shift caps : Bool) (scancode : UInt8) :
    keyAt (shift ^^ caps) scancode = keyAt shift scancode ↔
      (caps = true → keyAt false scancode = keyAt true scancode) := by
  cases caps with
  | false => simp
  | true =>
    cases shift with
    | false => exact ⟨fun same _ => same.symm, fun same => (same rfl).symm⟩
    | true => exact ⟨fun same _ => same, fun same => same rfl⟩

variable {k : Keyboard}

theorem plainByShift_iff (follows : k.Follows) (display : Display) (scancode : UInt8) :
    k.PlainByShift display scancode ↔ k.CapsOnLetters scancode := by
  unfold PlainByShift CapsOnLetters
  constructor
  · intro typed caps plain
    have same := typed plain
    rw [typed_eq k.driver display plain, ← follows.shift, keyAt_caps_iff] at same
    exact same caps
  · intro letters plain
    rw [typed_eq k.driver display plain, ← follows.shift, keyAt_caps_iff]
    exact fun caps => letters caps plain

/-! ### What is held -/

theorem two_codes : ∀ scancode : UInt8, scancode = scancode &&& 0x7F ∨ scancode = (scancode &&& 0x7F) + 0x80 :=
  forall_scancode (by decide +kernel)

theorem held_step_same (k : Keyboard) (display : Display) {key scancode : UInt8}
    (code : scancode &&& 0x7F = key) :
    (k.step display scancode).held key = decide (scancode < 0x80) := by
  subst code
  exact Function.update_self ..

theorem held_step_of_ne (k : Keyboard) (display : Display) {key scancode : UInt8}
    (down : scancode ≠ key) (up : scancode ≠ key + 0x80) :
    (k.step display scancode).held key = k.held key := by
  refine Function.update_of_ne (fun same => ?_) ..
  subst same
  rcases two_codes scancode with code | code
  · exact down code
  · exact up code

theorem shiftHeld_step_of_ne (k : Keyboard) (display : Display) {scancode : UInt8}
    (left : scancode ≠ 0x2A ∧ scancode ≠ 0xAA) (right : scancode ≠ 0x36 ∧ scancode ≠ 0xB6) :
    (k.step display scancode).shiftHeld = k.shiftHeld := by
  rw [shiftHeld, held_step_of_ne k display left.1 left.2, held_step_of_ne k display right.1 right.2, shiftHeld]

/-- The codes of the three modifier keys. -/
def modifierCodes : List UInt8 := [0x1D, 0x9D, 0x2A, 0xAA, 0x36, 0xB6]

theorem follows_step_other (follows : k.Follows) (display : Display) {scancode : UInt8}
    (other : scancode ∉ modifierCodes) : (k.step display scancode).Follows := by
  simp only [modifierCodes, List.mem_cons, List.not_mem_nil, or_false, not_or] at other
  obtain ⟨ctrlDown, ctrlUp, leftDown, leftUp, rightDown, rightUp⟩ := other
  have flags : (k.step display scancode).driver.shift = k.driver.shift ∧
      (k.step display scancode).driver.ctrl = k.driver.ctrl := by
    rw [step, KeyboardDriver.handleInterrupt_fst, if_neg ctrlUp, if_neg (not_or.mpr ⟨leftUp, rightUp⟩),
      if_neg ctrlDown, if_neg (not_or.mpr ⟨leftDown, rightDown⟩)]
    split_ifs <;> exact ⟨rfl, rfl⟩
  constructor
  · rw [flags.1, follows.shift, shiftHeld_step_of_ne k display ⟨leftDown, leftUp⟩ ⟨rightDown, rightUp⟩]
  · rw [flags.2, follows.ctrl, held_step_of_ne k display ctrlDown ctrlUp]

theorem follows_step_ctrl (follows : k.Follows) (display : Display) {scancode : UInt8}
    (code : scancode = 0x1D ∨ scancode = 0x9D) : (k.step display scancode).Follows := by
  rcases code with rfl | rfl
  · have kept := @shiftHeld_step_of_ne k display 0x1D (by decide) (by decide)
    have down := held_step_same k display (show (0x1D : UInt8) &&& 0x7F = 0x1D by decide)
    exact ⟨follows.shift.trans kept.symm, down.symm⟩
  · have kept := @shiftHeld_step_of_ne k display 0x9D (by decide) (by decide)
    have up := held_step_same k display (show (0x9D : UInt8) &&& 0x7F = 0x1D by decide)
    exact ⟨follows.shift.trans kept.symm, up.symm⟩

theorem follows_step_shift (follows : k.Follows) (display : Display) {scancode : UInt8}
    (code : scancode = 0x2A ∨ scancode = 0x36) : (k.step display scancode).Follows := by
  rcases code with rfl | rfl
  · have kept := held_step_of_ne k display (show (0x2A : UInt8) ≠ 0x1D by decide) (by decide)
    have down := held_step_same k display (show (0x2A : UInt8) &&& 0x7F = 0x2A by decide)
    refine ⟨?_, follows.ctrl.trans kept.symm⟩
    rw [shiftHeld, down]
    rfl
  · have kept := held_step_of_ne k display (show (0x36 : UInt8) ≠ 0x1D by decide) (by decide)
    have down := held_step_same k display (show (0x36 : UInt8) &&& 0x7F = 0x36 by decide)
    refine ⟨?_, follows.ctrl.trans kept.symm⟩
    rw [shiftHeld, down]
    exact (Bool.or_true _).symm

theorem follows_step_release (follows : k.Follows) (display : Display) :
    ((k.step display 0xAA).Follows ↔ k.held 0x36 = false) ∧
      ((k.step display 0xB6).Follows ↔ k.held 0x2A = false) := by
  have left : (k.step display 0xAA).shiftHeld = k.held 0x36 := by
    rw [shiftHeld, held_step_same k display (show (0xAA : UInt8) &&& 0x7F = 0x2A by decide),
      held_step_of_ne k display (show (0xAA : UInt8) ≠ 0x36 by decide) (by decide)]
    exact Bool.false_or _
  have right : (k.step display 0xB6).shiftHeld = k.held 0x2A := by
    rw [shiftHeld, held_step_same k display (show (0xB6 : UInt8) &&& 0x7F = 0x36 by decide),
      held_step_of_ne k display (show (0xB6 : UInt8) ≠ 0x2A by decide) (by decide)]
    exact Bool.or_false _
  have leftKept := held_step_of_ne k display (show (0xAA : UInt8) ≠ 0x1D by decide) (by decide)
  have rightKept := held_step_of_ne k display (show (0xB6 : UInt8) ≠ 0x1D by decide) (by decide)
  constructor
  · constructor
    · intro after
      exact left.symm.trans after.shift.symm
    · intro up
      exact ⟨(left.trans up).symm, follows.ctrl.trans leftKept.symm⟩
  · constructor
    · intro after
      exact right.symm.trans after.shift.symm
    · intro up
      exact ⟨(right.trans up).symm, follows.ctrl.trans rightKept.symm⟩

/-- **One interrupt.** The flags still follow the keys unless a Shift key was released while the
other one is held. -/
theorem follows_step_iff (follows : k.Follows) (display : Display) (scancode : UInt8) :
    (k.step display scancode).Follows ↔ k.ShiftsApart scancode := by
  obtain ⟨left, right⟩ := follows_step_release follows display
  by_cases leftUp : scancode = 0xAA
  · subst leftUp
    rw [left]
    exact ⟨fun up => ⟨fun _ => up, nofun⟩, fun apart => apart.1 rfl⟩
  by_cases rightUp : scancode = 0xB6
  · subst rightUp
    rw [right]
    exact ⟨fun up => ⟨nofun, fun _ => up⟩, fun apart => apart.2 rfl⟩
  refine iff_of_true ?_ ⟨fun here => absurd here leftUp, fun here => absurd here rightUp⟩
  by_cases modifier : scancode ∈ modifierCodes
  · simp only [modifierCodes, List.mem_cons, List.not_mem_nil, or_false] at modifier
    rcases modifier with code | code | code | code | code | code
    · exact follows_step_ctrl follows display (.inl code)
    · exact follows_step_ctrl follows display (.inr code)
    · exact follows_step_shift follows display (.inl code)
    · exact absurd code leftUp
    · exact follows_step_shift follows display (.inr code)
    · exact absurd code rightUp
  · exact follows_step_other follows display modifier

/-- **The modifiers follow the keys, and Caps Lock affects letters alone**, throughout a run. -/
theorem modifiers_follow_iff (display : Display) (scancodes : List UInt8) :
    Always (step display) (fun k scancode => (k.step display scancode).Follows ∧
        k.PlainByShift display scancode) new scancodes ↔
      Always (step display) (fun k scancode => k.ShiftsApart scancode ∧
        k.CapsOnLetters scancode) new scancodes := by
  refine Always.iff_of_invariant Follows (fun k scancode follows => ?_)
    (fun k scancode follows clean => (follows_step_iff follows display scancode).mpr clean.1)
    ⟨rfl, rfl⟩
  rw [follows_step_iff follows, plainByShift_iff follows]

/-- Both Shift keys are pressed and the left one is released. Caps Lock is pressed and released, and
then the key of the digit 1. -/
theorem shifts_share_flag : (¬ ∀ (display : Display) (scancodes : List UInt8),
      Always (step display) Alternates new scancodes →
        Always (step display) (fun k scancode => (k.step display scancode).Follows) new scancodes) ∧
    (¬ ∀ (display : Display) (scancodes : List UInt8), Always (step display) Alternates new scancodes →
        Always (step display) (PlainByShift display) new scancodes) := by
  constructor
  · intro all
    have held := (all ⟨true, true⟩ [0x2A, 0x36, 0xAA] (by decide)).2.2.1.shift
    exact absurd held (by decide)
  · intro all
    have typed := (all ⟨true, true⟩ [0x3A, 0xBA, 0x02] (by decide)).2.2.1 (by decide)
    exact absurd typed (by decide)

end Keyboard

end LaylaOS.Ui
