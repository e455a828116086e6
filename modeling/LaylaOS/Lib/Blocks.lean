/-
**Regions cut into blocks.**

A region is covered by a list of blocks, each a header of `h` bytes in front of an area. The address
of a block is the start of the region plus what the blocks in front of it take (`span`); `areas`
lists the blocks with their addresses.
-/

import Mathlib.Tactic

namespace LaylaOS.Lib

/-- The length of the area, and whether it is in use. -/
structure Block where
  size : Nat
  used : Bool
  deriving DecidableEq, Repr

variable {h : Nat}

/-- The bytes that blocks take, with their headers. -/
def span (h : Nat) (blocks : List Block) : Nat := (blocks.map fun b => h + b.size).sum

@[simp] theorem span_nil : span h [] = 0 := rfl

@[simp] theorem span_cons (b : Block) (rest : List Block) :
    span h (b :: rest) = h + b.size + span h rest := List.sum_cons

@[simp] theorem span_append (first second : List Block) :
    span h (first ++ second) = span h first + span h second := by
  simp [span]

theorem length_le_span (positive : 0 < h) (blocks : List Block) : blocks.length ≤ span h blocks := by
  induction blocks with
  | nil => exact le_rfl
  | cons b rest ih =>
    rw [List.length_cons, span_cons]
    omega

/-- The blocks of a region with their addresses. -/
def areas (h : Nat) : Nat → List Block → List (Nat × Block)
  | _, [] => []
  | addr, b :: rest => (addr, b) :: areas h (addr + h + b.size) rest

theorem areas_append (addr : Nat) (first second : List Block) :
    areas h addr (first ++ second) = areas h addr first ++ areas h (addr + span h first) second := by
  induction first generalizing addr with
  | nil => rfl
  | cons b rest ih =>
    rw [List.cons_append, areas, areas, ih, List.cons_append, span_cons,
      show addr + h + b.size + span h rest = addr + (h + b.size + span h rest) by ring]

theorem areas_bounds {addr : Nat} {blocks : List Block} {entry : Nat × Block}
    (member : entry ∈ areas h addr blocks) :
    addr ≤ entry.1 ∧ entry.1 + h + entry.2.size ≤ addr + span h blocks := by
  induction blocks generalizing addr with
  | nil => exact absurd member List.not_mem_nil
  | cons b rest ih =>
    rw [span_cons]
    rcases List.mem_cons.mp member with rfl | later
    · exact ⟨le_rfl, by show addr + h + b.size ≤ _; omega⟩
    · have := ih later
      omega

theorem areas_pairwise (addr : Nat) (blocks : List Block) :
    (areas h addr blocks).Pairwise fun entry later => entry.1 + h + entry.2.size ≤ later.1 := by
  induction blocks generalizing addr with
  | nil => exact List.Pairwise.nil
  | cons b rest ih => exact List.pairwise_cons.mpr ⟨fun later member => (areas_bounds member).1, ih _⟩

/-- **Two blocks of a region** are the same or lie apart, headers and all. -/
theorem areas_apart {addr : Nat} {blocks : List Block} {entry other : Nat × Block}
    (member : entry ∈ areas h addr blocks) (member' : other ∈ areas h addr blocks) :
    entry = other ∨ entry.1 + h + entry.2.size ≤ other.1 ∨ other.1 + h + other.2.size ≤ entry.1 := by
  obtain ⟨i, inside, rfl⟩ := List.mem_iff_getElem.mp member
  obtain ⟨j, inside', rfl⟩ := List.mem_iff_getElem.mp member'
  have ordered := List.pairwise_iff_getElem.mp (areas_pairwise (h := h) addr blocks)
  rcases lt_trichotomy i j with less | same | more
  · exact .inr (.inl (ordered i j inside inside' less))
  · exact .inl (by simp [same])
  · exact .inr (.inr (ordered j i inside' inside more))

theorem areas_unique (positive : 0 < h) {addr : Nat} {blocks : List Block} {entry other : Nat × Block}
    (member : entry ∈ areas h addr blocks) (member' : other ∈ areas h addr blocks)
    (same : entry.1 = other.1) : entry = other := by
  rcases areas_apart member member' with equal | front | behind
  · exact equal
  · omega
  · omega

theorem areas_mid (addr : Nat) (pre post : List Block) (b : Block) :
    (addr + span h pre, b) ∈ areas h addr (pre ++ b :: post) := by
  simp [areas_append, areas]

theorem areas_split {addr : Nat} {blocks : List Block} {entry : Nat × Block}
    (member : entry ∈ areas h addr blocks) : ∃ before after,
      blocks = before ++ entry.2 :: after ∧ entry.1 = addr + span h before := by
  induction blocks generalizing addr with
  | nil => exact absurd member List.not_mem_nil
  | cons b rest ih =>
    rcases List.mem_cons.mp member with rfl | later
    · exact ⟨[], rest, rfl, rfl⟩
    · obtain ⟨before, after, rfl, place⟩ := ih later
      exact ⟨b :: before, after, rfl, by rw [place, span_cons]; ring⟩

/-- Where the headers are. -/
def heads (h addr : Nat) (blocks : List Block) : List Nat := (areas h addr blocks).map Prod.fst

@[simp] theorem heads_nil (addr : Nat) : heads h addr [] = [] := rfl

@[simp] theorem heads_cons (addr : Nat) (b : Block) (rest : List Block) :
    heads h addr (b :: rest) = addr :: heads h (addr + h + b.size) rest := rfl

@[simp] theorem heads_append (addr : Nat) (first second : List Block) :
    heads h addr (first ++ second) = heads h addr first ++ heads h (addr + span h first) second := by
  simp [heads, areas_append]

theorem heads_bounds {addr chunk : Nat} {blocks : List Block} (member : chunk ∈ heads h addr blocks) :
    addr ≤ chunk ∧ chunk + h ≤ addr + span h blocks := by
  obtain ⟨entry, inside, rfl⟩ := List.mem_map.mp member
  have := areas_bounds inside
  omega

theorem heads_mark (addr : Nat) (pre post : List Block) (b : Block) (used : Bool) :
    heads h addr (pre ++ ⟨b.size, used⟩ :: post) = heads h addr (pre ++ b :: post) := by
  simp

theorem heads_join {addr : Nat} {pre post : List Block} (x y : Block) (used : Bool) :
    heads h addr (pre ++ ⟨x.size + (h + y.size), used⟩ :: post) ⊆ heads h addr (pre ++ x :: y :: post) := by
  intro chunk member
  have total : addr + span h pre + h + (x.size + (h + y.size)) =
      addr + span h pre + h + x.size + h + y.size := by ring
  simp only [heads_append, heads_cons, List.mem_append, List.mem_cons, total] at member ⊢
  tauto

theorem areas_heads {addr chunk place : Nat} {blocks : List Block} {entry : Nat × Block}
    (member : entry ∈ areas h addr blocks) (head : chunk ∈ heads h addr blocks)
    (low : entry.1 + h ≤ place) (high : place < entry.1 + h + entry.2.size) :
    place < chunk ∨ chunk + h ≤ place := by
  obtain ⟨other, inside, rfl⟩ := List.mem_map.mp head
  rcases areas_apart member inside with rfl | front | behind <;> omega

theorem areas_replace {addr : Nat} {pre post : List Block} {entry : Nat × Block}
    (mid mid' : List Block) (same : span h mid' = span h mid)
    (other : entry ∉ areas h (addr + span h pre) mid)
    (other' : entry ∉ areas h (addr + span h pre) mid') :
    entry ∈ areas h addr (pre ++ (mid' ++ post)) ↔ entry ∈ areas h addr (pre ++ (mid ++ post)) := by
  simp only [areas_append, List.mem_append, same, other, other', false_or]

/-! ### Taking and giving back -/

/-- A free block after a request of `n` bytes: what is left over is a block of its own if it can hold
a header and at least one byte. -/
def carve (h n : Nat) (b : Block) : List Block :=
  if n + h < b.size then [⟨n, true⟩, ⟨b.size - n - h, false⟩] else [⟨b.size, true⟩]

/-- A block takes in the one behind it if that is free. -/
def absorb (h : Nat) (b : Block) : List Block → List Block
  | [] => [b]
  | y :: post => if y.used then b :: y :: post else ⟨b.size + (h + y.size), b.used⟩ :: post

/-- The last of the blocks `pre` takes in the first one of `rest`, if both are free. -/
def rejoin (h : Nat) (pre rest : List Block) : List Block :=
  match pre.getLast? with
  | none => rest
  | some y => if y.used then pre ++ rest else pre.dropLast ++ absorb h y rest

/-- A free block between `pre` and `post` joins its free neighbours. -/
def settle (h : Nat) (pre : List Block) (b : Block) (post : List Block) : List Block :=
  rejoin h pre (absorb h b post)

theorem rejoin_concat (front rest : List Block) (y : Block) :
    rejoin h (front ++ [y]) rest = if y.used then front ++ [y] ++ rest else front ++ absorb h y rest := by
  simp [rejoin]

theorem absorb_cons (b : Block) (post : List Block) :
    ∃ size rest, absorb h b post = ⟨size, b.used⟩ :: rest := by
  cases post with
  | nil => exact ⟨b.size, [], rfl⟩
  | cons y post =>
    rw [absorb]
    split
    · exact ⟨b.size, y :: post, rfl⟩
    · exact ⟨_, post, rfl⟩

theorem heads_absorb {addr : Nat} {pre : List Block} (b : Block) (post : List Block) :
    heads h addr (pre ++ absorb h b post) ⊆ heads h addr (pre ++ b :: post) := by
  cases post with
  | nil => exact List.Subset.refl _
  | cons y post =>
    rw [absorb]
    split
    · exact List.Subset.refl _
    · exact heads_join b y b.used

theorem span_carve (n : Nat) (b : Block) : span h (carve h n b) = span h [b] := by
  unfold carve
  split
  · simp only [span_cons, span_nil]
    omega
  · rfl

theorem carve_mem {n : Nat} {b : Block} (addr : Nat) (pre post : List Block) (fits : n ≤ b.size) :
    ∃ size, n ≤ size ∧ size ≤ min b.size (n + h) ∧
      (addr + span h pre, ⟨size, true⟩) ∈ areas h addr (pre ++ carve h n b ++ post) := by
  unfold carve
  rw [List.append_assoc]
  split
  · exact ⟨n, le_rfl, le_min fits (Nat.le_add_right n h), areas_mid addr pre _ _⟩
  · exact ⟨b.size, fits, le_min le_rfl (by omega), areas_mid addr pre _ _⟩

section Used

variable {addr : Nat} {pre post : List Block} {b : Block} {entry : Nat × Block}

theorem carve_fst {n : Nat} {start : Nat} (used : entry.2.used = true)
    (member : entry ∈ areas h start (carve h n b)) : entry.1 = start := by
  unfold carve at member
  split at member
  · rcases List.mem_cons.mp member with rfl | rest
    · rfl
    · rw [List.mem_singleton.mp rest] at used
      cases used
  · rw [List.mem_singleton.mp member]

theorem carve_used_iff (n : Nat) (unused : b.used = false) (used : entry.2.used = true)
    (other : entry ∉ areas h (addr + span h pre) (carve h n b)) :
    entry ∈ areas h addr (pre ++ carve h n b ++ post) ↔ entry ∈ areas h addr (pre ++ b :: post) := by
  rw [List.append_assoc]
  refine areas_replace [b] _ (span_carve n b) (fun inside => ?_) other
  rw [List.mem_singleton.mp inside, unused] at used
  cases used

theorem carve_keeps (n : Nat) (unused : b.used = false) (used : entry.2.used = true)
    (member : entry ∈ areas h addr (pre ++ b :: post)) :
    entry ∈ areas h addr (pre ++ carve h n b ++ post) := by
  by_cases carved : entry ∈ areas h (addr + span h pre) (carve h n b)
  · rw [areas_append, areas_append]
    exact List.mem_append_left _ (List.mem_append_right _ carved)
  · exact (carve_used_iff n unused used carved).mpr member

theorem absorb_used_iff (unused : b.used = false) (used : entry.2.used = true) :
    entry ∈ areas h addr (pre ++ absorb h b post) ↔ entry ∈ areas h addr (pre ++ b :: post) := by
  cases post with
  | nil => exact Iff.rfl
  | cons y post =>
    rw [absorb]
    by_cases busy : y.used = true
    · rw [if_pos busy]
    · rw [if_neg busy]
      refine areas_replace [b, y] [⟨b.size + (h + y.size), b.used⟩] ?_ (fun inside => ?_) fun inside => ?_
      · simp only [span_cons, span_nil]
        omega
      · rcases List.mem_cons.mp inside with rfl | inside
        · rw [unused] at used
          cases used
        · rw [List.mem_singleton.mp inside] at used
          exact busy used
      · rw [List.mem_singleton.mp inside] at used
        exact absurd (unused.symm.trans used) Bool.false_ne_true

/-- **Giving a block back** leaves the blocks in use as they are. -/
theorem settle_used_iff (unused : b.used = false) (used : entry.2.used = true) :
    entry ∈ areas h addr (settle h pre b post) ↔ entry ∈ areas h addr (pre ++ b :: post) := by
  rw [← absorb_used_iff unused used]
  unfold settle
  rcases List.eq_nil_or_concat' pre with rfl | ⟨front, y, rfl⟩
  · rfl
  · rw [rejoin_concat]
    by_cases busy : y.used = true
    · rw [if_pos busy]
    · rw [if_neg busy, absorb_used_iff (Bool.not_eq_true _ ▸ busy) used, ← List.append_cons]

end Used

/-! ### Free neighbours -/

/-- No two neighbours are both free. -/
def Coalesced (blocks : List Block) : Prop :=
  blocks.IsChain fun b next => b.used = true ∨ next.used = true

section Coalesced

variable {pre post : List Block} {b : Block}

theorem coalesced_free (unused : b.used = false) : Coalesced (pre ++ b :: post) ↔
    Coalesced pre ∧ Coalesced post ∧ (∀ y ∈ pre.getLast?, y.used = true) ∧ ∀ y ∈ post.head?, y.used = true := by
  unfold Coalesced
  rw [List.isChain_append, List.isChain_cons]
  simp only [List.head?_cons, Option.mem_some_iff, forall_eq', unused, Bool.false_eq_true, false_or, or_false]
  tauto

theorem carve_coalesced (n : Nat) (unused : b.used = false) (before : Coalesced (pre ++ b :: post)) :
    Coalesced (pre ++ carve h n b ++ post) := by
  obtain ⟨first, second, -, later⟩ := (coalesced_free unused).mp before
  unfold Coalesced carve at *
  rw [List.append_assoc, List.isChain_append]
  split
  · exact ⟨first, .cons_cons (.inl rfl) (List.isChain_cons.mpr
      ⟨fun y member => .inr (later y member), second⟩), by simp⟩
  · exact ⟨first, List.isChain_cons.mpr ⟨fun _ _ => .inl rfl, second⟩, by simp⟩

theorem absorb_coalesced (b : Block) (before : Coalesced post) : Coalesced (absorb h b post) := by
  cases post with
  | nil => exact .singleton _
  | cons y post =>
    rw [absorb]
    by_cases busy : y.used = true
    · rw [if_pos busy]
      exact .cons_cons (.inr busy) before
    · rw [if_neg busy]
      obtain ⟨-, rest, -, later⟩ := (coalesced_free (Bool.not_eq_true _ ▸ busy)).mp
        (show Coalesced ([] ++ y :: post) from before)
      exact List.isChain_cons.mpr ⟨fun z member => .inr (later z member), rest⟩

/-- **A block given back leaves no free neighbours**, if there were none. -/
theorem settle_coalesced (b : Block) (first : Coalesced pre) (second : Coalesced post) :
    Coalesced (settle h pre b post) := by
  have absorbed := absorb_coalesced (h := h) b second
  unfold settle
  rcases List.eq_nil_or_concat' pre with rfl | ⟨front, y, rfl⟩
  · exact absorbed
  · rw [rejoin_concat]
    by_cases busy : y.used = true
    · rw [if_pos busy]
      exact List.isChain_append.mpr ⟨first, absorbed, by simp [busy]⟩
    · rw [if_neg busy]
      have free : y.used = false := Bool.not_eq_true _ ▸ busy
      obtain ⟨rest, -, before, -⟩ := (coalesced_free free).mp first
      exact List.isChain_append.mpr ⟨rest, absorb_coalesced y absorbed,
        fun z member _ _ => .inl (before z member)⟩

theorem Coalesced.single {blocks : List Block} (coalesced : Coalesced blocks) (some : blocks ≠ [])
    (idle : ∀ b ∈ blocks, b.used = false) : ∃ b, blocks = [b] := by
  cases blocks with
  | nil => exact absurd rfl some
  | cons b rest =>
    cases rest with
    | nil => exact ⟨b, rfl⟩
    | cons c rest =>
      have near := (List.isChain_cons_cons.mp coalesced).1
      simp [idle b, idle c] at near

end Coalesced

end LaylaOS.Lib
