/-
**Addresses typed at the shell** (`parse_uint16` and `parse_ip` of `user/shell_program.s`).

`parse_uint16` reads decimal digits as long as the number stays within 65535, and `parse_ip` calls it for
each of the four octets, with the carry flag for what could not be read. The number of digits is not
limited, and neither are leading zeros.

* `parseIp_dotted` — what is accepted is dotted decimal, and the packed address is the one that the kernel
  unpacks.
-/

import LaylaOS.Lib.CStrings
import LaylaOS.User.Shell
import LaylaOS.Kernel.NetSend

namespace LaylaOS.User

open LaylaOS.Lib.Assembly LaylaOS.Kernel

/-! ### Numbers -/

/-- `'0'` to `'9'`. -/
def isDigit (c : UInt8) : Bool := 48 ≤ c && c ≤ 57

/-- The number written by the digits behind those of `v`. -/
def continued (v : Nat) (digits : List UInt8) : Nat :=
  digits.foldl (fun v c => 10 * v + (c.toNat - 48)) v

theorem le_continued (v : Nat) (digits : List UInt8) : v ≤ continued v digits := by
  induction digits generalizing v with
  | nil => exact le_rfl
  | cons c digits ih => exact le_trans (by omega) (ih (10 * v + (c.toNat - 48)))

theorem isDigit_iff {c : UInt8} : isDigit c ↔ ¬ c < 48 ∧ ¬ 57 < c := by
  simp [isDigit]

theorem digit_le {c : UInt8} (digit : isDigit c) : 48 ≤ c.toUInt32 := by
  have lower := (isDigit_iff.mp digit).1
  rw [UInt32.le_iff_toNat_le, UInt8.toNat_toUInt32]
  exact UInt8.le_iff_toNat_le.mp (UInt8.not_lt.mp lower)

theorem toNat_digit {c : UInt8} (digit : isDigit c) : (c.toUInt32 - 48).toNat = c.toNat - 48 := by
  rw [UInt32.toNat_sub_of_le _ _ (digit_le digit), UInt8.toNat_toUInt32]
  rfl

theorem digit_small {c : UInt8} (digit : isDigit c) : c.toNat - 48 ≤ 9 := by
  have upper := (isDigit_iff.mp digit).2
  exact Nat.sub_le_sub_right (UInt8.le_iff_toNat_le.mp (UInt8.not_lt.mp upper)) 48

theorem ofNat_digit {c : UInt8} (digit : isDigit c) (v : Nat) :
    UInt32.ofNat v * 10 + (c.toUInt32 - 48) = UInt32.ofNat (10 * v + (c.toNat - 48)) := by
  rw [UInt32.ofNat_add, UInt32.ofNat_mul, UInt32.mul_comm]
  congr 1
  rw [← toNat_digit digit, UInt32.ofNat_toNat]

/-! ### `parse_uint16` -/

variable {ω : Type} {kernel : Kernel ω} {s : Symbols} {m : Machine Label ω}
  {target : Label} {back : List (Instr Label)} {stk : List (Slot Label)} {text : List UInt8}

/-- What comes of reading the number at the beginning of the text, `k` digits of value `v` having been
read before. -/
structure NumberRead (m : Machine Label ω) (text : List UInt8) (v k : Nat) (eax esi : UInt32)
    (flags : Flags) (overflow : Bool) : Prop where
  carry : flags.carry = false ↔
    0 < k + (text.takeWhile isDigit).length ∧ continued v (text.takeWhile isDigit) ≤ 65535
  number : flags.carry = false → eax = UInt32.ofNat (continued v (text.takeWhile isDigit))
  place : flags.carry = false → esi = m.regs.esi + UInt32.ofNat (text.takeWhile isDigit).length
  fits : m.regs.esi.toNat + text.length < 2 ^ 32 → overflow = m.overflow

/-- `parse_uint16` has come back to its caller. -/
def ParsedUint16 (m : Machine Label ω) (target : Label) (back : List (Instr Label))
    (stk : List (Slot Label)) (text : List UInt8) (v k : Nat) (m' : Machine Label ω) : Prop :=
  ∃ eax ecx edx esi flags overflow, NumberRead m text v k eax esi flags overflow ∧
    m' = ⟨⟨eax, m.regs.ebx, ecx, edx, esi, m.regs.edi⟩, m.memory, flags, stk, target, back, m.world,
      m.stores, overflow⟩

section Loop

variable {v k : Nat} (eax : m.regs.eax = UInt32.ofNat v) (small : v ≤ 65535)
  (ecx : m.regs.ecx = UInt32.ofNat k) (stack : m.stack = .ret target back :: stk)

include eax small ecx stack in
theorem parseUint16Loop_stops (noDigit : text.takeWhile isDigit = [])
    (here : ¬ isDigit (m.memory m.regs.esi)) (fits : k < 2 ^ 32) :
    Runs (shell s) kernel (m.goto (shell s) .parseUint16Loop) (ParsedUint16 m target back stk text v k) := by
  have last : ∀ flags, Runs (shell s) kernel (Machine.goto (shell s) { m with
        regs := { m.regs with edx := (m.memory m.regs.esi).toUInt32 }, flags := flags } .parseUint16Done)
      (ParsedUint16 m target back stk text v k) := by
    intro flags
    have zero : UInt32.ofNat k = 0 ↔ k = 0 := ofNat_inj fits (by decide)
    by_cases none : k = 0
    · refine .enter (.test (.taken ?_ (.enter ?_)))
      · simp [ecx, none]
      · rw [stack]
        refine .stc (.ret (.now ⟨_, _, _, _, _, _, ⟨?_, ?_, ?_, fun _ => rfl⟩, rfl⟩))
        · simp [noDigit, none]
        · simp
        · simp
    · refine .enter (.test (.passed ?_ ?_))
      · simp [ecx, zero, none]
      · rw [stack]
        refine .clc (.ret (.now ⟨_, _, _, _, _, _, ⟨?_, ?_, ?_, fun _ => rfl⟩, rfl⟩))
        · simp [noDigit, continued, small, Nat.pos_of_ne_zero none]
        · simp [noDigit, continued, eax]
        · simp [noDigit]
  rw [isDigit_iff, Classical.not_and_iff_not_or_not, not_not, not_not] at here
  by_cases below : m.memory m.regs.esi < 48
  · refine .enter (.movzbl (.cmpb (.taken ?_ (last _))))
    simpa using below
  · refine .enter (.movzbl (.cmpb (.passed ?_ (.cmpb (.taken ?_ (last _))))))
    · simpa using below
    · simpa using here.resolve_left below

end Loop

theorem NumberRead.cons {m' : Machine Label ω} {c : UInt8} {v k : Nat} {eax esi : UInt32} {flags : Flags}
    {overflow : Bool} (digit : isDigit c)
    (read : NumberRead m' text (10 * v + (c.toNat - 48)) (k + 1) eax esi flags overflow)
    (next : m'.regs.esi = m.regs.esi + 1)
    (fits : m.regs.esi.toNat + 1 < 2 ^ 32 → m'.overflow = m.overflow) :
    NumberRead m (c :: text) v k eax esi flags overflow := by
  have shape : (c :: text).takeWhile isDigit = c :: text.takeWhile isDigit := List.takeWhile_cons_of_pos digit
  constructor
  · rw [read.carry, shape, List.length_cons, show k + 1 + _ = k + (_ + 1) from Nat.add_right_comm k 1 _]
    rfl
  · rw [shape]
    exact read.number
  · intro done
    rw [read.place done, next, shape, add_one_add_ofNat, List.length_cons]
  · intro inside
    rw [List.length_cons] at inside
    have here : m.regs.esi.toNat + 1 < 2 ^ 32 := by omega
    rw [← fits here]
    apply read.fits
    rw [next, UInt32.toNat_add, UInt32.toNat_one, Nat.mod_eq_of_lt here]
    omega

section Digit

variable (digit : isDigit (m.memory m.regs.esi)) (small : m.regs.eax.toNat ≤ 65535)

include small in
theorem product_fits : m.regs.eax.toNat * (10 : UInt32).toNat < 2 ^ 32 := by
  show m.regs.eax.toNat * 10 < 2 ^ 32
  omega

include digit small

theorem digit_fits : (m.regs.eax * 10).toNat + ((m.memory m.regs.esi).toUInt32 - 48).toNat < 2 ^ 32 := by
  have value := toNat_digit digit
  have bound := digit_small digit
  have product : (m.regs.eax * 10).toNat = m.regs.eax.toNat * 10 :=
    (UInt32.toNat_mul _ _).trans (Nat.mod_eq_of_lt (product_fits small))
  rw [value, product]
  omega

theorem parseUint16Loop_reads {Q : Machine Label ω → Prop} (count : m.regs.ecx.toNat + 1 < 2 ^ 32)
    (more : ¬ 65535 < m.regs.eax * 10 + ((m.memory m.regs.esi).toUInt32 - 48))
    (run : ∀ edx flags overflow, (m.regs.esi.toNat + 1 < 2 ^ 32 → overflow = m.overflow) →
      Runs (shell s) kernel (Machine.goto (shell s) { m with
        regs := { m.regs with
          eax := m.regs.eax * 10 + ((m.memory m.regs.esi).toUInt32 - 48), ecx := m.regs.ecx + 1,
          edx := edx, esi := m.regs.esi + 1 },
        flags := flags, overflow := overflow } .parseUint16Loop) Q) :
    Runs (shell s) kernel (m.goto (shell s) .parseUint16Loop) Q := by
  obtain ⟨lower, upper⟩ := isDigit_iff.mp digit
  refine .enter <| .movzbl <| .cmpb <| .passed ?_ <| .cmpb <| .passed ?_ <| .imul <| .subImm <| .add <|
    .cmp <| .passed ?_ <| .inc <| .inc <| .jmp <| run _ _ _ fun inside => ?_
  · simpa using lower
  · simpa using upper
  · simpa using more
  · exact (overflow_same count).trans <| (overflow_same inside).trans <|
      (overflow_same (digit_fits digit small)).trans <| (overflow_same (digit_le digit)).trans
        (overflow_same (product_fits small))

theorem parseUint16Loop_exceeds {v k : Nat} (stack : m.stack = .ret target back :: stk)
    (more : 65535 < m.regs.eax * 10 + ((m.memory m.regs.esi).toUInt32 - 48))
    (large : 65535 < continued v (text.takeWhile isDigit)) :
    Runs (shell s) kernel (m.goto (shell s) .parseUint16Loop) (ParsedUint16 m target back stk text v k) := by
  obtain ⟨lower, upper⟩ := isDigit_iff.mp digit
  refine .enter <| .movzbl <| .cmpb <| .passed ?_ <| .cmpb <| .passed ?_ <| .imul <| .subImm <| .add <|
    .cmp <| .taken ?_ <| .enter ?_
  · simpa using lower
  · simpa using upper
  · simpa using more
  · rw [stack]
    refine .stc <| .ret <| .now ⟨_, _, _, _, _, _, ⟨?_, ?_, ?_, fun _ => ?_⟩, rfl⟩
    · simp [large]
    · simp
    · simp
    · exact (overflow_same (digit_fits digit small)).trans <| (overflow_same (digit_le digit)).trans
        (overflow_same (product_fits small))

end Digit

theorem parseUint16Loop_runs {v k : Nat} (there : Cstr m.memory m.regs.esi text)
    (eax : m.regs.eax = UInt32.ofNat v) (small : v ≤ 65535)
    (ecx : m.regs.ecx = UInt32.ofNat k) (stack : m.stack = .ret target back :: stk)
    (fits : k + text.length < 2 ^ 32) :
    Runs (shell s) kernel (m.goto (shell s) .parseUint16Loop) (ParsedUint16 m target back stk text v k) := by
  induction text generalizing m v k with
  | nil =>
    refine parseUint16Loop_stops eax small ecx stack rfl ?_ fits
    rw [show m.memory m.regs.esi = 0 from there]
    decide
  | cons c text ih =>
    obtain ⟨rfl, -, behind⟩ := there
    rw [List.length_cons] at fits
    by_cases digit : isDigit (m.memory m.regs.esi)
    · have value := ofNat_digit digit v
      have bound := digit_small digit
      have before : m.regs.eax.toNat ≤ 65535 := by
        rw [eax, UInt32.toNat_ofNat_of_lt' (lt_of_le_of_lt small (by decide))]
        exact small
      have number : 65535 < m.regs.eax * 10 + ((m.memory m.regs.esi).toUInt32 - 48) ↔
          65535 < 10 * v + ((m.memory m.regs.esi).toNat - 48) := by
        rw [eax, value, UInt32.lt_iff_toNat_lt, UInt32.toNat_ofNat_of_lt']
        · rfl
        · show _ < 2 ^ 32
          omega
      by_cases more : 65535 < 10 * v + ((m.memory m.regs.esi).toNat - 48)
      · refine parseUint16Loop_exceeds digit before stack (number.mpr more) ?_
        rw [List.takeWhile_cons_of_pos digit]
        exact lt_of_lt_of_le more (le_continued _ _)
      · refine parseUint16Loop_reads digit before ?_ (mt number.mp more) ?_
        · rw [ecx, UInt32.toNat_ofNat_of_lt']
          · omega
          · show _ < 2 ^ 32
            omega
        · intro edx flags overflow same
          refine (ih (k := k + 1) ?_ ?_ (Nat.le_of_not_lt more) ?_ ?_ ?_).mono ?_
          · exact behind
          · show m.regs.eax * 10 + _ = _
            rw [eax, value]
          · show m.regs.ecx + 1 = _
            rw [ecx, ofNat_add_one]
          · exact stack
          · omega
          · rintro _ ⟨eax, ecx, edx, esi, flags, overflow, read, rfl⟩
            exact ⟨_, _, _, _, _, _, read.cons digit rfl same, rfl⟩
    · refine parseUint16Loop_stops eax small ecx stack ?_ digit (by omega)
      exact List.takeWhile_cons_of_neg digit

/-- **`parse_uint16` reads the number at the beginning of the text.** -/
theorem parseUint16_runs (there : Cstr m.memory m.regs.esi text) (stack : m.stack = .ret target back :: stk) :
    Runs (shell s) kernel (m.goto (shell s) .parseUint16) (ParsedUint16 m target back stk text 0 0) := by
  refine .enter <| .xor_self <| .xor_self <| .fall ?_
  refine Runs.mono (P := ParsedUint16 _ target back stk text 0 0)
    (parseUint16Loop_runs ?_ ?_ (Nat.zero_le _) ?_ ?_ ?_) ?_
  · exact there
  · rfl
  · rfl
  · exact stack
  · simpa using there.length_lt
  · rintro _ ⟨eax, ecx, edx, esi, flags, overflow, read, rfl⟩
    exact ⟨_, _, _, _, _, _, ⟨read.carry, read.number, read.place, read.fits⟩, rfl⟩

/-! ### Octets -/

/-- A number of one digit or more that fits into a byte. -/
def IsOctet (digits : List UInt8) : Prop :=
  digits ≠ [] ∧ (∀ c ∈ digits, isDigit c) ∧ continued 0 digits ≤ 255

/-- The text ends, or a blank, a newline or a carriage return is next. -/
def Delimited (rest : List UInt8) : Prop := ∀ c ∈ rest.head?, c = 32 ∨ c = 10 ∨ c = 13

/-- The text is these octets with a dot between any two, and a rest that begins with a delimiter. -/
def Octets : List (List UInt8) → List UInt8 → List UInt8 → Prop
  | [], _, _ => False
  | [octet], text, rest => IsOctet octet ∧ Delimited rest ∧ text = octet ++ rest
  | octet :: next :: octets, text, rest =>
    IsOctet octet ∧ ∃ behind, text = octet ++ 46 :: behind ∧ Octets (next :: octets) behind rest

/-- The octets behind those of `v`, in one number. -/
def packed (v : Nat) (octets : List (List UInt8)) : Nat :=
  octets.foldl (fun v octet => v * 256 + continued 0 octet) v

theorem Delimited.stops {rest : List UInt8} (delimited : Delimited rest) : ∀ c ∈ rest.head?, ¬ isDigit c := by
  intro c first
  obtain rfl | rfl | rfl := delimited c first <;> decide

theorem span_digits {digits rest : List UInt8} (all : ∀ c ∈ digits, isDigit c)
    (stops : ∀ c ∈ rest.head?, ¬ isDigit c) :
    (digits ++ rest).takeWhile isDigit = digits ∧ (digits ++ rest).dropWhile isDigit = rest := by
  rw [List.takeWhile_append_of_pos all, List.dropWhile_append_of_pos all]
  cases rest with
  | nil => simp
  | cons c rest =>
    have stop : ¬ isDigit c := stops c rfl
    rw [List.takeWhile_cons_of_neg stop, List.dropWhile_cons_of_neg stop, List.append_nil]
    exact ⟨rfl, rfl⟩

theorem length_span (text : List UInt8) :
    (text.takeWhile isDigit).length + (text.dropWhile isDigit).length = text.length := by
  rw [← List.length_append, List.takeWhile_append_dropWhile]

theorem Octets.length_le {octets : List (List UInt8)} {rest : List UInt8}
    (whole : Octets octets text rest) : rest.length ≤ text.length := by
  induction octets generalizing text with
  | nil => cases whole
  | cons octet octets ih =>
    cases octets with
    | nil =>
      obtain ⟨-, -, rfl⟩ := whole
      simp
    | cons next octets =>
      obtain ⟨-, behind, rfl, more⟩ := whole
      have inner := ih more
      simp only [List.length_append, List.length_cons]
      omega

theorem isOctet_takeWhile : IsOctet (text.takeWhile isDigit) ↔
    0 < (text.takeWhile isDigit).length ∧ continued 0 (text.takeWhile isDigit) ≤ 255 := by
  rw [IsOctet, List.length_pos_iff]
  exact and_congr_right fun _ => and_iff_right fun c inside => List.mem_takeWhile_imp inside

theorem octets_one_iff {octet rest : List UInt8} : Octets [octet] text rest ↔ IsOctet (text.takeWhile isDigit) ∧
      Delimited (text.dropWhile isDigit) ∧ octet = text.takeWhile isDigit ∧
      rest = text.dropWhile isDigit := by
  constructor
  · rintro ⟨isOctet, delimited, rfl⟩
    obtain ⟨digits, tail⟩ := span_digits isOctet.2.1 delimited.stops
    rw [digits, tail]
    exact ⟨isOctet, delimited, rfl, rfl⟩
  · rintro ⟨isOctet, delimited, rfl, rfl⟩
    exact ⟨isOctet, delimited, List.takeWhile_append_dropWhile.symm⟩

theorem octets_more_iff {octet next rest : List UInt8} {octets : List (List UInt8)} :
    Octets (octet :: next :: octets) text rest ↔ IsOctet (text.takeWhile isDigit) ∧
      octet = text.takeWhile isDigit ∧
      ∃ behind, text.dropWhile isDigit = 46 :: behind ∧ Octets (next :: octets) behind rest := by
  constructor
  · rintro ⟨isOctet, behind, rfl, more⟩
    have dot : ∀ c ∈ (46 :: behind).head?, ¬ isDigit c := by simp [isDigit]
    obtain ⟨digits, tail⟩ := span_digits isOctet.2.1 dot
    rw [digits, tail]
    exact ⟨isOctet, rfl, behind, rfl, more⟩
  · rintro ⟨isOctet, rfl, behind, tail, more⟩
    refine ⟨isOctet, behind, ?_, more⟩
    rw [← tail, List.takeWhile_append_dropWhile]

/-! ### `parse_ip` -/

/-- What comes of reading `n` octets from the text on, those of `v` having been read before. -/
structure AddressRead (m : Machine Label ω) (text : List UInt8) (v n : Nat) (eax esi : UInt32)
    (flags : Flags) (overflow : Bool) : Prop where
  carry : flags.carry = false ↔ ∃ octets rest, octets.length = n ∧ Octets octets text rest
  address : ∀ octets rest, octets.length = n → Octets octets text rest →
    eax = UInt32.ofNat (packed v octets)
  place : ∀ octets rest, octets.length = n → Octets octets text rest →
    esi = m.regs.esi + UInt32.ofNat (text.length - rest.length)
  fits : m.regs.esi.toNat + text.length < 2 ^ 32 → overflow = m.overflow

/-- `parse_ip` has come back to its caller, with its registers as they are on the stack. -/
def ParsedIp (m : Machine Label ω) (ebx ecx edx : UInt32) (target : Label) (back : List (Instr Label))
    (stk : List (Slot Label)) (text : List UInt8) (v n : Nat) (m' : Machine Label ω) : Prop :=
  ∃ eax esi flags overflow, AddressRead m text v n eax esi flags overflow ∧
    m' = ⟨⟨eax, ebx, ecx, edx, esi, m.regs.edi⟩, m.memory, flags, stk, target, back, m.world, m.stores,
      overflow⟩

theorem ofNat_octet {v octet : Nat} (fits : v * 256 < 2 ^ 32) (small : octet ≤ 255) :
    shifted (UInt32.ofNat v) 8 ||| UInt32.ofNat octet = UInt32.ofNat (v * 256 + octet) := by
  have small' : octet < 2 ^ 8 := Nat.lt_of_le_of_lt small (by decide)
  rw [shifted, UInt32.toNat_ofNat_of_lt' (by show v < 2 ^ 32; omega), ← UInt32.ofNat_or,
    Nat.mul_comm v, ← Nat.two_pow_add_eq_or_of_lt small' v, Nat.mul_comm]

theorem AddressRead.refused {v n : Nat} {eax esi : UInt32} {flags : Flags} {overflow : Bool}
    (none : ∀ octets rest, octets.length = n → ¬ Octets octets text rest) (carry : flags.carry = true)
    (fits : m.regs.esi.toNat + text.length < 2 ^ 32 → overflow = m.overflow) :
    AddressRead m text v n eax esi flags overflow where
  carry := by
    rw [carry]
    refine iff_of_false Bool.true_eq_false.mp ?_
    rintro ⟨octets, rest, count, whole⟩
    exact none octets rest count whole
  address octets rest count whole := absurd whole (none octets rest count)
  place octets rest count whole := absurd whole (none octets rest count)
  fits := fits

section Exits

variable {ebx ecx edx : UInt32} {Q : Machine Label ω → Prop}
  (stack : m.stack = .word edx :: .word ecx :: .word ebx :: .ret target back :: stk)
include stack

theorem parseIpFail_runs (done : ∀ flags, flags.carry = true → Q
      ⟨⟨m.regs.eax, ebx, ecx, edx, m.regs.esi, m.regs.edi⟩, m.memory, flags, stk, target, back, m.world,
        m.stores, m.overflow⟩) :
    Runs (shell s) kernel (m.goto (shell s) .parseIpFail) Q := by
  refine .enter ?_
  rw [stack]
  exact .stc <| .pop <| .pop <| .pop <| .ret <| .now (done _ rfl)

theorem parseIpOk_runs (done : ∀ flags, flags.carry = false → Q
      ⟨⟨m.regs.ebx, ebx, ecx, edx, m.regs.esi, m.regs.edi⟩, m.memory, flags, stk, target, back, m.world,
        m.stores, m.overflow⟩) :
    Runs (shell s) kernel (m.goto (shell s) .parseIpOk) Q := by
  refine .enter ?_
  rw [stack]
  exact .mov <| .clc <| .pop <| .pop <| .pop <| .ret <| .now (done _ rfl)

theorem parseIpDelim_runs (there : Cstr m.memory m.regs.esi text)
    (ok : Delimited text → ∀ flags, flags.carry = false → Q
      ⟨⟨m.regs.ebx, ebx, ecx, edx, m.regs.esi, m.regs.edi⟩, m.memory, flags, stk, target, back, m.world,
        m.stores, m.overflow⟩)
    (fail : ¬ Delimited text → ∀ flags, flags.carry = true → Q
      ⟨⟨m.regs.eax, ebx, ecx, edx, m.regs.esi, m.regs.edi⟩, m.memory, flags, stk, target, back, m.world,
        m.stores, m.overflow⟩) :
    Runs (shell s) kernel (m.goto (shell s) .parseIpDelim) Q := by
  have delimited : Delimited text ↔ m.memory m.regs.esi = 32 ∨ m.memory m.regs.esi = 10 ∨
      m.memory m.regs.esi = 0 ∨ m.memory m.regs.esi = 13 := by
    cases text with
    | nil => simp [Delimited, show m.memory m.regs.esi = 0 from there]
    | cons c text =>
      obtain ⟨rfl, some, -⟩ := there
      simp [Delimited, some]
  refine .enter <| .movb <| .cmpb ?_
  by_cases blank : m.memory m.regs.esi = 32
  · exact .taken (by simp [blank]) (parseIpOk_runs stack (ok (delimited.mpr (.inl blank))))
  refine .passed (by simp [blank]) <| .cmpb ?_
  by_cases newline : m.memory m.regs.esi = 10
  · exact .taken (by simp [newline]) (parseIpOk_runs stack (ok (delimited.mpr (.inr (.inl newline)))))
  refine .passed (by simp [newline]) <| .cmpb ?_
  by_cases zero : m.memory m.regs.esi = 0
  · exact .taken (by simp [zero]) (parseIpOk_runs stack (ok (delimited.mpr (.inr (.inr (.inl zero))))))
  refine .passed (by simp [zero]) <| .cmpb ?_
  by_cases carriage : m.memory m.regs.esi = 13
  · exact .taken (by simp [carriage]) (parseIpOk_runs stack (ok (delimited.mpr (.inr (.inr (.inr carriage))))))
  refine .passed (by simp [carriage]) <| .jmp <| parseIpFail_runs stack (fail ?_)
  rw [delimited]
  simp [blank, newline, zero, carriage]

end Exits

theorem not_octets (noOctet : ¬ IsOctet (text.takeWhile isDigit)) {n : Nat} :
    ∀ octets rest, octets.length = n + 1 → ¬ Octets octets text rest := by
  intro octets rest _ whole
  obtain _ | ⟨octet, _ | ⟨next, octets⟩⟩ := octets
  · exact whole
  · exact noOctet (octets_one_iff.mp whole).1
  · exact noOctet (octets_more_iff.mp whole).1

section Octet

variable {ebx ecx edx : UInt32} {v n : Nat} (there : Cstr m.memory m.regs.esi text)
  (sofar : m.regs.ebx = UInt32.ofNat v) (left : m.regs.ecx = UInt32.ofNat (n + 1))
  (stack : m.stack = .word edx :: .word ecx :: .word ebx :: .ret target back :: stk)
include there sofar stack

theorem parseIpOctet_reads (room : (v + 1) * 256 ≤ 2 ^ 32)
    (run : IsOctet (text.takeWhile isDigit) → ∀ eax scratch flags overflow,
      (m.regs.esi.toNat + text.length < 2 ^ 32 → overflow = m.overflow) →
      Runs (shell s) kernel ⟨⟨eax, UInt32.ofNat (v * 256 + continued 0 (text.takeWhile isDigit)), m.regs.ecx,
          scratch, m.regs.esi + UInt32.ofNat (text.takeWhile isDigit).length, m.regs.edi⟩, m.memory, flags,
          m.stack,
          .parseIpOctet, (block s .parseIpOctet).drop 8, m.world, m.stores, overflow⟩
        (ParsedIp m ebx ecx edx target back stk text v (n + 1))) :
    Runs (shell s) kernel (m.goto (shell s) .parseIpOctet)
      (ParsedIp m ebx ecx edx target back stk text v (n + 1)) := by
  refine .enter <| .push <| .call ?_
  refine Runs.trans (P := ParsedUint16 _ _ _ _ text 0 0) (parseUint16_runs there rfl) ?_
  rintro _ ⟨eax, ecx', edx', esi, flags, overflow, read, rfl⟩
  have carry := read.carry
  rw [Nat.zero_add] at carry
  refine .pop ?_
  by_cases parsed : flags.carry = false
  · obtain ⟨some, small⟩ := carry.mp parsed
    have number := read.number parsed
    have value : (UInt32.ofNat (continued 0 (text.takeWhile isDigit))).toNat =
        continued 0 (text.takeWhile isDigit) := UInt32.toNat_ofNat_of_lt' (lt_of_le_of_lt small (by decide))
    refine .passed parsed <| .cmp ?_
    by_cases byte : continued 0 (text.takeWhile isDigit) ≤ 255
    · have shape : UInt32.ofNat (v * 256 + continued 0 (text.takeWhile isDigit)) =
          shifted m.regs.ebx 8 ||| eax := by
        rw [sofar, number, ofNat_octet (by omega) byte]
      have next := run (isOctet_takeWhile.mpr ⟨some, byte⟩) eax edx'
      rw [shape, ← read.place parsed] at next
      refine .passed ?_ <| .shl <| .or <| next _ _ ?_
      · simpa [number, UInt32.le_iff_toNat_le, value] using byte
      · intro inside
        refine (overflow_same ?_).trans (read.fits inside)
        show m.regs.ebx.toNat * 2 ^ 8 < 2 ^ 32
        rw [sofar, UInt32.toNat_ofNat_of_lt' (by show v < 2 ^ 32; omega)]
        omega
    · refine .taken ?_ <| parseIpFail_runs stack ?_
      · simpa [number, UInt32.lt_iff_toNat_lt, value] using byte
      · intro flags carry
        refine ⟨_, _, _, _, .refused (not_octets ?_) carry read.fits, rfl⟩
        rw [isOctet_takeWhile]
        exact fun octet => byte octet.2
  · refine .taken (Bool.of_not_eq_false parsed) <| parseIpFail_runs stack ?_
    intro flags carry'
    refine ⟨_, _, _, _, .refused (not_octets ?_) carry' read.fits, rfl⟩
    rw [isOctet_takeWhile]
    intro octet
    exact parsed (carry.mpr ⟨octet.1, octet.2.trans (by decide)⟩)

end Octet

section Result

variable {v n : Nat} {eax esi : UInt32} {flags : Flags} {overflow : Bool}
  (isOctet : IsOctet (text.takeWhile isDigit))
include isOctet

theorem AddressRead.last (delimited : Delimited (text.dropWhile isDigit)) (carry : flags.carry = false)
    (fits : m.regs.esi.toNat + text.length < 2 ^ 32 → overflow = m.overflow) :
    AddressRead m text v 1 (UInt32.ofNat (v * 256 + continued 0 (text.takeWhile isDigit)))
      (m.regs.esi + UInt32.ofNat (text.takeWhile isDigit).length) flags overflow where
  carry := iff_of_true carry ⟨[text.takeWhile isDigit], text.dropWhile isDigit, rfl,
      octets_one_iff.mpr ⟨isOctet, delimited, rfl, rfl⟩⟩
  address octets rest count whole := by
    obtain ⟨octet, rfl⟩ := List.length_eq_one_iff.mp count
    obtain ⟨-, -, rfl, -⟩ := octets_one_iff.mp whole
    rfl
  place octets rest count whole := by
    obtain ⟨octet, rfl⟩ := List.length_eq_one_iff.mp count
    obtain ⟨-, -, -, rfl⟩ := octets_one_iff.mp whole
    rw [← length_span text, Nat.add_sub_cancel]
  fits := fits

theorem AddressRead.more {m' : Machine Label ω} {behind : List UInt8}
    (tail : text.dropWhile isDigit = 46 :: behind)
    (read : AddressRead m' behind (v * 256 + continued 0 (text.takeWhile isDigit)) (n + 1) eax esi flags
      overflow)
    (next : m'.regs.esi = m.regs.esi + UInt32.ofNat (text.takeWhile isDigit).length + 1)
    (fits : m.regs.esi.toNat + text.length < 2 ^ 32 → m'.overflow = m.overflow) :
    AddressRead m text v (n + 2) eax esi flags overflow := by
  have length := length_span text
  rw [tail, List.length_cons] at length
  -- the octets of the text are its digits and the octets behind the dot
  have inverse : ∀ octets rest, octets.length = n + 2 → Octets octets text rest →
      ∃ octets', octets = text.takeWhile isDigit :: octets' ∧ octets'.length = n + 1 ∧
        Octets octets' behind rest := by
    intro octets rest count whole
    obtain _ | ⟨octet, _ | ⟨next, octets⟩⟩ := octets
    · cases whole
    · simp at count
    · obtain ⟨-, rfl, behind', tail', more⟩ := octets_more_iff.mp whole
      rw [tail, List.cons.injEq] at tail'
      obtain rfl := tail'.2
      exact ⟨next :: octets, rfl, Nat.succ.inj count, more⟩
  constructor
  · rw [read.carry]
    constructor
    · rintro ⟨octets, rest, count, whole⟩
      obtain _ | ⟨first, octets⟩ := octets
      · cases whole
      · exact ⟨text.takeWhile isDigit :: first :: octets, rest, congrArg Nat.succ count,
          octets_more_iff.mpr ⟨isOctet, rfl, behind, tail, whole⟩⟩
    · rintro ⟨octets, rest, count, whole⟩
      obtain ⟨octets', -, count', whole'⟩ := inverse octets rest count whole
      exact ⟨octets', rest, count', whole'⟩
  · intro octets rest count whole
    obtain ⟨octets', rfl, count', whole'⟩ := inverse octets rest count whole
    exact read.address octets' rest count' whole'
  · intro octets rest count whole
    obtain ⟨octets', rfl, count', whole'⟩ := inverse octets rest count whole
    have shorter := whole'.length_le
    rw [read.place octets' rest count' whole', next, add_one_add_ofNat, UInt32.add_assoc, ← UInt32.ofNat_add]
    congr 2
    omega
  · intro inside
    have before : m'.regs.esi.toNat ≤ m.regs.esi.toNat + (text.takeWhile isDigit).length + 1 := by
      rw [next, add_ofNat_add_one]
      exact toNat_add_ofNat_le _ _
    rw [read.fits (by omega), fits inside]

end Result

/-- **The octet loop**, by induction on the octets that are left. -/
theorem parseIpOctet_runs {ebx ecx edx : UInt32} {v n : Nat} (there : Cstr m.memory m.regs.esi text)
    (sofar : m.regs.ebx = UInt32.ofNat v) (room : (v + 1) * 256 ^ (n + 1) ≤ 2 ^ 32)
    (left : m.regs.ecx = UInt32.ofNat (n + 1))
    (stack : m.stack = .word edx :: .word ecx :: .word ebx :: .ret target back :: stk) :
    Runs (shell s) kernel (m.goto (shell s) .parseIpOctet)
      (ParsedIp m ebx ecx edx target back stk text v (n + 1)) := by
  induction n generalizing m v text with
  | zero =>
    refine parseIpOctet_reads there sofar stack room ?_
    intro octet eax scratch flags overflow fits
    have exact : overflow = (overflow || !decide (0 < m.regs.ecx.toNat)) := by
      rw [left]
      exact (overflow_same (by decide)).symm
    rw [← List.takeWhile_append_dropWhile (p := isDigit) (l := text)] at there
    refine .dec <| .taken ?_ <| parseIpDelim_runs stack there.behind ?_ ?_
    · show decide (m.regs.ecx - 1 = 0) = true
      rw [left]
      rfl
    · intro delimited flags carry
      refine ⟨_, _, _, _, .last octet delimited carry ?_, rfl⟩
      exact fun inside => exact ▸ fits inside
    · intro none flags carry
      refine ⟨_, _, _, _, .refused ?_ carry ?_, rfl⟩
      · intro octets rest count whole
        obtain ⟨octet, rfl⟩ := List.length_eq_one_iff.mp count
        exact none (octets_one_iff.mp whole).2.1
      · exact fun inside => exact ▸ fits inside
  | succ n ih =>
    have room' : (v + 1) * 256 ≤ 2 ^ 32 :=
      le_trans (Nat.mul_le_mul_left _ (Nat.le_self_pow (Nat.succ_ne_zero _) 256)) room
    have few : n + 1 + 1 < 2 ^ 32 := lt_of_lt_of_le (Nat.lt_pow_self (by decide))
      (le_trans (Nat.le_mul_of_pos_left _ (Nat.succ_pos v)) room)
    refine parseIpOctet_reads there sofar stack room' ?_
    intro octet eax scratch flags overflow fits
    have exact : overflow = (overflow || !decide (0 < m.regs.ecx.toNat)) := by
      rw [left, UInt32.toNat_ofNat_of_lt' few]
      exact (overflow_same (Nat.succ_pos _)).symm
    rw [← List.takeWhile_append_dropWhile (p := isDigit) (l := text)] at there
    have tail := there.behind
    refine .dec <| .passed ?_ <| .movb <| .cmpb ?_
    · show decide (m.regs.ecx - 1 = 0) = false
      rw [left, ofNat_succ_sub_one, decide_eq_false_iff_not]
      exact mt (ofNat_inj (by omega) (by decide)).mp (Nat.succ_ne_zero n)
    by_cases dot : m.memory (m.regs.esi + UInt32.ofNat (text.takeWhile isDigit).length) = 46
    · obtain ⟨behind, shape⟩ : ∃ behind, text.dropWhile isDigit = 46 :: behind := by
        generalize text.dropWhile isDigit = rest at tail
        cases rest with
        | nil => simp [Cstr, dot] at tail
        | cons c rest => exact ⟨rest, by rw [← dot, tail.1]⟩
      rw [shape] at tail
      refine .passed (by simp [dot]) <| .inc <| .jmp ?_
      refine Runs.mono (P := ParsedIp _ ebx ecx edx target back stk behind _ (n + 1)) (ih ?_ rfl ?_ ?_ ?_) ?_
      · exact tail.2.2
      · calc (v * 256 + continued 0 (text.takeWhile isDigit) + 1) * 256 ^ (n + 1)
            ≤ (v + 1) * 256 * 256 ^ (n + 1) := Nat.mul_le_mul_right _ (by have := octet.2.2; omega)
          _ = (v + 1) * 256 ^ (n + 1 + 1) := by rw [Nat.mul_assoc, ← Nat.pow_succ']
          _ ≤ 2 ^ 32 := room
      · exact (congrArg (· - 1) left).trans (ofNat_succ_sub_one _)
      · exact stack
      · rintro _ ⟨eax, esi, flags, overflow, read, rfl⟩
        refine ⟨_, _, _, _, .more octet shape read rfl ?_, rfl⟩
        intro inside
        have before := toNat_add_ofNat_le m.regs.esi (text.takeWhile isDigit).length
        have length := length_span text
        rw [shape, List.length_cons] at length
        refine (overflow_same ?_).trans (exact ▸ fits inside)
        exact lt_of_le_of_lt (Nat.add_le_add_right before 1) (by omega)
    · refine .taken (by simp [dot]) <| parseIpFail_runs stack ?_
      intro flags carry
      refine ⟨_, _, _, _, .refused ?_ carry ?_, rfl⟩
      · intro octets rest count whole
        obtain _ | ⟨octet, _ | ⟨next, octets⟩⟩ := octets
        · cases whole
        · simp at count
        · obtain ⟨-, -, behind, shape, -⟩ := octets_more_iff.mp whole
          rw [shape] at tail
          exact dot tail.1
      · exact fun inside => exact ▸ fits inside

theorem parseIp_runs (there : Cstr m.memory m.regs.esi text) (stack : m.stack = .ret target back :: stk) :
    Runs (shell s) kernel (m.goto (shell s) .parseIp)
      (ParsedIp m m.regs.ebx m.regs.ecx m.regs.edx target back stk text 0 4) := by
  refine .enter <| .push <| .push <| .push <| .xor_self <| .movImm <| .fall ?_
  rw [stack]
  refine Runs.mono (P := ParsedIp _ m.regs.ebx m.regs.ecx m.regs.edx target back stk text 0 4)
    (parseIpOctet_runs ?_ rfl (by decide) rfl rfl) ?_
  · exact there
  · rintro _ ⟨eax, esi, flags, overflow, read, rfl⟩
    exact ⟨_, _, _, _, ⟨read.carry, read.address, read.place, read.fits⟩, rfl⟩

/-! ### Dotted decimal -/

/-- Four numbers of at most 255 with single dots between them, and a delimiter. -/
structure Dotted (text a b c d rest : List UInt8) : Prop where
  shape : text = a ++ 46 :: (b ++ 46 :: (c ++ 46 :: (d ++ rest)))
  octets : ∀ octet ∈ [a, b, c, d], IsOctet octet
  delimited : Delimited rest

theorem dotted_iff {a b c d rest : List UInt8} : Dotted text a b c d rest ↔ Octets [a, b, c, d] text rest := by
  constructor
  · rintro ⟨rfl, octets, delimited⟩
    simp only [List.forall_mem_cons] at octets
    obtain ⟨first, second, third, fourth, -⟩ := octets
    exact ⟨first, _, rfl, second, _, rfl, third, _, rfl, fourth, delimited, rfl⟩
  · rintro ⟨first, _, rfl, second, _, rfl, third, _, rfl, fourth, delimited, rfl⟩
    refine ⟨rfl, ?_, delimited⟩
    simp only [List.forall_mem_cons]
    exact ⟨first, second, third, fourth, by simp⟩

section Packed

variable {a b c d : Nat}

theorem packed_or (hb : b ≤ 255) (hc : c ≤ 255) (hd : d ≤ 255) :
    UInt32.ofNat (((a * 256 + b) * 256 + c) * 256 + d) =
      UInt32.ofNat a <<< 24 ||| UInt32.ofNat b <<< 16 ||| UInt32.ofNat c <<< 8 ||| UInt32.ofNat d := by
  have low : 2 ^ 8 * c + d = c <<< 8 ||| d := by
    rw [Nat.two_pow_add_eq_or_of_lt (by omega), Nat.shiftLeft_eq, Nat.mul_comm]
  have middle : 2 ^ 16 * b + (2 ^ 8 * c + d) = b <<< 16 ||| (c <<< 8 ||| d) := by
    rw [Nat.two_pow_add_eq_or_of_lt (by omega), low, Nat.shiftLeft_eq b, Nat.mul_comm]
  have whole : 2 ^ 24 * a + (2 ^ 16 * b + (2 ^ 8 * c + d)) = a <<< 24 ||| (b <<< 16 ||| (c <<< 8 ||| d)) := by
    rw [Nat.two_pow_add_eq_or_of_lt (by omega), middle, Nat.shiftLeft_eq a, Nat.mul_comm]
  rw [show ((a * 256 + b) * 256 + c) * 256 + d = 2 ^ 24 * a + (2 ^ 16 * b + (2 ^ 8 * c + d)) by omega,
    whole, UInt32.ofNat_or, UInt32.ofNat_or, UInt32.ofNat_or, UInt32.ofNat_shiftLeft _ _ (by decide),
    UInt32.ofNat_shiftLeft _ _ (by decide), UInt32.ofNat_shiftLeft _ _ (by decide), UInt32.or_assoc,
    UInt32.or_assoc]
  rfl

theorem packedToIPv4_ofNat (ha : a ≤ 255) (hb : b ≤ 255) (hc : c ≤ 255) (hd : d ≤ 255) :
    packedToIPv4 (UInt32.ofNat (((a * 256 + b) * 256 + c) * 256 + d)) =
      ![UInt8.ofNat a, UInt8.ofNat b, UInt8.ofNat c, UInt8.ofNat d] := by
  have small : ((a * 256 + b) * 256 + c) * 256 + d < 2 ^ 32 := by omega
  have byte : ∀ x y, x % 256 = y % 256 → UInt8.ofNat x = UInt8.ofNat y := by
    intro x y same
    rw [← UInt8.toNat_inj, UInt8.toNat_ofNat', UInt8.toNat_ofNat']
    exact same
  rw [packedToIPv4, UInt32.toNat_ofNat_of_lt' small,
    byte ((((a * 256 + b) * 256 + c) * 256 + d) / 2 ^ 24) a (by omega),
    byte ((((a * 256 + b) * 256 + c) * 256 + d) / 2 ^ 16) b (by omega),
    byte ((((a * 256 + b) * 256 + c) * 256 + d) / 2 ^ 8) c (by omega),
    byte (((a * 256 + b) * 256 + c) * 256 + d) d (by omega)]

end Packed

/-- What `parse_ip` leaves behind when it has come back to its caller. -/
structure IpParsed (m : Machine Label ω) (target : Label) (back : List (Instr Label))
    (stk : List (Slot Label)) (text : List UInt8) (m' : Machine Label ω) : Prop where
  returned : m'.label = target ∧ m'.rest = back ∧ m'.stack = stk
  untouched : m'.memory = m.memory ∧ m'.stores = m.stores ∧ m'.world = m.world
  preserved : m'.regs.ebx = m.regs.ebx ∧ m'.regs.ecx = m.regs.ecx ∧ m'.regs.edx = m.regs.edx
  accepted : m'.flags.carry = false ↔ ∃ a b c d rest, Dotted text a b c d rest
  address : ∀ a b c d rest, Dotted text a b c d rest →
    m'.regs.eax = UInt32.ofNat (continued 0 a) <<< 24 ||| UInt32.ofNat (continued 0 b) <<< 16 |||
      UInt32.ofNat (continued 0 c) <<< 8 ||| UInt32.ofNat (continued 0 d)
  unpacked : ∀ a b c d rest, Dotted text a b c d rest → packedToIPv4 m'.regs.eax =
    ![UInt8.ofNat (continued 0 a), UInt8.ofNat (continued 0 b), UInt8.ofNat (continued 0 c),
      UInt8.ofNat (continued 0 d)]
  delimiter : ∀ a b c d rest, Dotted text a b c d rest →
    m'.regs.esi = m.regs.esi + UInt32.ofNat (text.length - rest.length)
  fits : m.regs.esi.toNat + text.length < 2 ^ 32 → m'.overflow = m.overflow

/-- **`parse_ip` accepts exactly dotted decimal**: it comes back from every text, without an overflow
unless the text itself goes round the end of the memory. -/
theorem parseIp_dotted (s : Symbols) (kernel : Kernel ω) (m : Machine Label ω) (target : Label)
    (back : List (Instr Label)) (stk : List (Slot Label)) (text : List UInt8)
    (stack : m.stack = .ret target back :: stk) (there : Cstr m.memory m.regs.esi text) :
    Runs (shell s) kernel (m.goto (shell s) .parseIp) (IpParsed m target back stk text) := by
  refine (parseIp_runs there stack).mono ?_
  rintro _ ⟨eax, esi, flags, overflow, read, rfl⟩
  refine ⟨⟨rfl, rfl, rfl⟩, ⟨rfl, rfl, rfl⟩, ⟨rfl, rfl, rfl⟩, ?_, ?_, ?_, ?_, read.fits⟩
  · refine read.carry.trans ⟨?_, ?_⟩
    · rintro ⟨octets, rest, count, whole⟩
      obtain ⟨a, b, c, d, rfl⟩ := List.length_eq_four.mp count
      exact ⟨a, b, c, d, rest, dotted_iff.mpr whole⟩
    · rintro ⟨a, b, c, d, rest, dotted⟩
      exact ⟨[a, b, c, d], rest, rfl, dotted_iff.mp dotted⟩
  · intro a b c d rest dotted
    have small : ∀ octet ∈ [a, b, c, d], continued 0 octet ≤ 255 := fun octet inside =>
      (dotted.octets octet inside).2.2
    refine (read.address _ rest rfl (dotted_iff.mp dotted)).trans (Eq.trans ?_
      (packed_or (small b (by simp)) (small c (by simp)) (small d (by simp))))
    simp [packed]
  · intro a b c d rest dotted
    have small : ∀ octet ∈ [a, b, c, d], continued 0 octet ≤ 255 := fun octet inside =>
      (dotted.octets octet inside).2.2
    refine (congrArg packedToIPv4 (read.address _ rest rfl (dotted_iff.mp dotted))).trans (Eq.trans ?_
      (packedToIPv4_ofNat (small a (by simp)) (small b (by simp)) (small c (by simp)) (small d (by simp))))
    simp [packed]
  · intro a b c d rest dotted
    exact read.place _ rest rfl (dotted_iff.mp dotted)

/-- `10.0.2.2` and a newline, at the address 4096. -/
theorem parseIp_dotted_newline : Runs (shell ⟨0, fun _ => 0⟩) (fun _ _ () => ⟨0, [], ()⟩)
    (Machine.goto (shell ⟨0, fun _ => 0⟩)
      ⟨⟨0, 1, 2, 3, 4096, 0⟩, fun a => [49, 48, 46, 48, 46, 50, 46, 50, 10].getD (a - 4096).toNat 0,
        .ofResult 0, [.ret .promptLoop []], .promptLoop, [], (), [], false⟩ .parseIp)
    (IpParsed ⟨⟨0, 1, 2, 3, 4096, 0⟩, fun a => [49, 48, 46, 48, 46, 50, 46, 50, 10].getD (a - 4096).toNat 0,
        .ofResult 0, [.ret .promptLoop []], .promptLoop, [], (), [], false⟩
      .promptLoop [] [] [49, 48, 46, 48, 46, 50, 46, 50, 10]) :=
  parseIp_dotted _ _ _ _ _ _ _ rfl (by decide)

end LaylaOS.User
