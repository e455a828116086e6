/-
**Paths in the shell** (`make_abs_path` and `path_up_one` of `user/shell_program.s`).

A path that does not begin with a slash is put behind the working directory, in a buffer of 256 bytes,
and the slashes at its end are removed. What does not fit is cut off.
-/

import LaylaOS.User.ShellText

namespace LaylaOS.User

open LaylaOS.Lib.Assembly

/-! ### Paths -/

def isSlash (c : UInt8) : Bool := c == 47

/-- Without the slashes at the end, except for the first byte. -/
def stripped : List UInt8 → List UInt8
  | [] => []
  | c :: path => c :: path.rdropWhile isSlash

/-- The path, or the one below the working directory. -/
def joined (cwd path : List UInt8) : List UInt8 :=
  if path.head? = some 47 then path
  else if cwd.length ≤ 1 then cwd ++ path
  else cwd ++ 47 :: path

/-- What stands before the last slash behind the first byte. -/
def above : List UInt8 → List UInt8
  | [] => [47]
  | c :: path =>
    if path.rdropWhile (fun c => !isSlash c) = [] then [47]
    else c :: (path.rdropWhile fun c => !isSlash c).dropLast

/-- The parent directory. -/
def parent (path : List UInt8) : List UInt8 := if path.length ≤ 1 then path else above path

theorem stripped_concat_slash {path : List UInt8} (some : path ≠ []) :
    stripped (path ++ [47]) = stripped path := by
  obtain ⟨c, path, rfl⟩ := List.exists_cons_of_ne_nil some
  rw [List.cons_append, stripped, List.rdropWhile_concat_pos _ _ _ rfl, stripped]

theorem stripped_concat {path : List UInt8} {c : UInt8} (some : path ≠ []) (other : c ≠ 47) :
    stripped (path ++ [c]) = path ++ [c] := by
  obtain ⟨d, path, rfl⟩ := List.exists_cons_of_ne_nil some
  rw [List.cons_append, stripped, List.rdropWhile_concat_neg]
  simpa [isSlash] using other

theorem stripped_short {path : List UInt8} (short : path.length ≤ 1) : stripped path = path := by
  obtain _ | ⟨c, _ | ⟨d, path⟩⟩ := path
  · rfl
  · rfl
  · simp at short

theorem above_concat_slash {path : List UInt8} (some : path ≠ []) : above (path ++ [47]) = path := by
  obtain ⟨c, path, rfl⟩ := List.exists_cons_of_ne_nil some
  rw [List.cons_append, above, List.rdropWhile_concat_neg _ _ _ (by decide), if_neg (by simp),
    List.dropLast_concat]

theorem above_concat {path : List UInt8} {c : UInt8} (some : path ≠ []) (other : c ≠ 47) :
    above (path ++ [c]) = above path := by
  obtain ⟨d, path, rfl⟩ := List.exists_cons_of_ne_nil some
  rw [List.cons_append, above, List.rdropWhile_concat_pos, above]
  simpa [isSlash] using other

theorem above_single (c : UInt8) : above [c] = [47] := rfl

variable {ω : Type} {kernel : Kernel ω} {s : Symbols} {m : Machine Label ω}
  {target : Label} {back : List (Instr Label)} {stk : List (Slot Label)} {Q : Machine Label ω → Prop}
  {src dst : UInt32} {memory : Memory} {stores : List UInt32} {u v t text : List UInt8}

theorem length_le_one_iff (fits : text.length < 2 ^ 32) : UInt32.ofNat text.length ≤ 1 ↔ text.length ≤ 1 := by
  rw [← UInt32.not_lt, ← Nat.not_lt]
  exact not_congr (ofNat_lt_iff (by decide) fits)

/-! ### `make_abs_path` -/

theorem makeAbsDone_runs (stack : m.stack = .ret target back :: stk) (run : ∀ regs flags overflow,
      Runs (shell s) kernel ⟨regs, m.memory, flags, stk, target, back, m.world, m.stores, overflow⟩ Q) :
    Runs (shell s) kernel (m.goto (shell s) .makeAbsDone) Q := by
  refine .enter ?_
  rw [stack]
  exact .ret <| run _ _ _

theorem makeAbsStripLoop_runs (there : Cstr m.memory dst text) (long : 1 < text.length)
    (short : text.length ≤ 255) (wrote : Wrote (Within dst 256) memory stores m.memory m.stores)
    (edi : m.regs.edi = dst) (ecx : m.regs.ecx = UInt32.ofNat text.length)
    (stack : m.stack = .ret target back :: stk)
    (run : ∀ regs memory' flags stores' overflow, Wrote (Within dst 256) memory stores memory' stores' →
      Cstr memory' dst (stripped text) →
      Runs (shell s) kernel ⟨regs, memory', flags, stk, target, back, m.world, stores', overflow⟩ Q) :
    Runs (shell s) kernel (m.goto (shell s) .makeAbsStripLoop) Q := by
  induction text using List.reverseRecOn generalizing m with
  | nil => simp at long
  | append_singleton path c ih =>
    rw [List.length_append, List.length_singleton] at ecx long short
    have some : path ≠ [] := List.length_pos_iff.mp (by omega)
    have place : m.regs.edi + m.regs.ecx - 1 = dst + UInt32.ofNat path.length := by
      rw [edi, ecx, add_ofNat_succ_sub_one]
    have next : m.regs.ecx - 1 = UInt32.ofNat path.length := by rw [ecx, ofNat_succ_sub_one]
    have count : (1 : UInt32) < UInt32.ofNat path.length ↔ 1 < path.length :=
      ofNat_lt_iff (by decide) (by omega)
    have here : m.memory (dst + UInt32.ofNat path.length) = c := there.at_append.1
    by_cases slash : c = 47
    · subst slash
      rw [stripped_concat_slash some] at run
      have cut : Cstr (Function.update m.memory (dst + UInt32.ofNat path.length) 0) dst path := there.truncate
      have wrote' := wrote.store (within_add (show path.length < 256 by omega)) 0
      refine .enter <| .movb <| .cmpb <| .passed ?_ <| .storebImm <| .dec <| .cmp ?_
      · simpa [place] using here
      by_cases more : 1 < path.length
      · refine .taken ?_ <| ih ?_ more (by omega) ?_ edi ?_ stack run
        · simpa [next] using count.mpr more
        · simpa [place] using cut
        · simpa [place] using wrote'
        · exact next
      · rw [stripped_short (by omega)] at run
        refine .passed ?_ <| .fall <| makeAbsDone_runs stack fun _ _ _ => run _ _ _ _ _ ?_ ?_
        · simpa [next] using mt count.mp more
        · simpa [place] using wrote'
        · simpa [place] using cut
    · rw [stripped_concat some slash] at run
      refine .enter <| .movb <| .cmpb <| .taken ?_ <| makeAbsDone_runs stack fun _ _ _ =>
        run _ _ _ _ _ wrote there
      simpa [place, here] using slash

theorem makeAbsStrip_runs (there : Cstr m.memory dst text) (short : text.length ≤ 255)
    (wrote : Wrote (Within dst 256) memory stores m.memory m.stores) (edi : m.regs.edi = dst)
    (stack : m.stack = .ret target back :: stk)
    (run : ∀ regs memory' flags stores' overflow, Wrote (Within dst 256) memory stores memory' stores' →
      Cstr memory' dst (stripped text) →
      Runs (shell s) kernel ⟨regs, memory', flags, stk, target, back, m.world, stores', overflow⟩ Q) :
    Runs (shell s) kernel (m.goto (shell s) .makeAbsStrip) Q := by
  have code : block s .makeAbsFindEnd = endLoop .edi .ecx .makeAbsFindEnd .makeAbsEndFound := rfl
  have count := length_le_one_iff (show text.length < 2 ^ 32 by omega)
  refine .enter <| .xor_self <| .fall <| endLoop_runs (u := []) (t := text) code (by decide) (by decide)
    (by decide) ?_ rfl ?_
  · rwa [← edi] at there
  intro regs flags overflow length same
  have length : regs.ecx = UInt32.ofNat text.length := length
  refine .enter <| .cmp ?_
  by_cases small : text.length ≤ 1
  · rw [stripped_short small] at run
    refine .taken ?_ <| makeAbsDone_runs stack fun _ _ _ => run _ _ _ _ _ wrote there
    simpa [length] using count.mpr small
  · refine .passed ?_ <| .fall <| makeAbsStripLoop_runs there (by omega) short wrote ?_ length stack run
    · simpa [length] using mt count.mp small
    · exact (same .edi (by decide) (by decide)).trans edi

theorem Copied.full {c : UInt8} {memory' : Memory} {stores' : List UInt32}
    (copied : Copied dst 256 memory stores u memory' stores') (last : 254 ≤ u.length)
    (below : u.length ≤ 255) (nonzero : ∀ d ∈ u, d ≠ 0) (some : c ≠ 0) :
    Wrote (Within dst 256) memory stores
        (Function.update (Function.update memory' (dst + UInt32.ofNat u.length) c) (255 + dst) 0)
        ((255 + dst) :: (dst + UInt32.ofNat u.length) :: stores') ∧
      Cstr (Function.update (Function.update memory' (dst + UInt32.ofNat u.length) c) (255 + dst) 0) dst
        ((u ++ c :: t).take 255) := by
  have next := copied.concat (by omega) (by decide) c
  have place : (255 : UInt32) + dst = dst + UInt32.ofNat 255 := UInt32.add_comm ..
  rw [place]
  refine ⟨next.store (within_add (by decide)) 0, ?_⟩
  have nonzero' : ∀ d ∈ u ++ [c], d ≠ 0 :=
    List.forall_mem_append.mpr ⟨nonzero, List.forall_mem_singleton.mpr some⟩
  have cut : (u ++ c :: t).take 255 = (u ++ [c]).take 255 := by
    rw [List.append_cons, List.take_append_of_le_length]
    simpa using last
  have held := next.held
  rw [← List.take_append_drop 255 (u ++ [c])] at held
  have length : ((u ++ [c]).take 255).length = 255 := by
    simp
    omega
  have closed := held.left.close (by omega) fun d inside => nonzero' d (List.mem_of_mem_take inside)
  rwa [length, ← cut] at closed

theorem count_next {r : UInt32} {n : Nat} (counts : r = UInt32.ofNat n) (small : n ≤ 255) :
    r + 1 = UInt32.ofNat (n + 1) ∧ (r + 1 < 255 ↔ n + 1 < 255) := by
  have next : r + 1 = UInt32.ofNat (n + 1) := by rw [counts, ofNat_add_one]
  rw [next]
  exact ⟨rfl, ofNat_lt_iff (by omega) (by decide)⟩

theorem makeAbsCopySrcLoop_runs (there : Cstr memory src (u ++ t)) (below : u.length < 255)
    (apart : ∀ k ≤ (u ++ t).length, ¬ Within dst 256 (src + UInt32.ofNat k))
    (copied : Copied dst 256 memory stores u m.memory m.stores) (esi : m.regs.esi = src)
    (edi : m.regs.edi = dst) (ecx : m.regs.ecx = UInt32.ofNat u.length)
    (run : ∀ regs memory' flags stores' overflow, regs.edi = dst →
      Wrote (Within dst 256) memory stores memory' stores' → Cstr memory' dst ((u ++ t).take 255) →
      Runs (shell s) kernel (Machine.goto (shell s)
        ⟨regs, memory', flags, m.stack, .makeAbsPath, [], m.world, stores', overflow⟩ .makeAbsStrip) Q) :
    Runs (shell s) kernel (m.goto (shell s) .makeAbsCopySrcLoop) Q := by
  induction t generalizing m u with
  | nil =>
    rw [List.append_nil] at there apart run
    have here := (there.kept copied.toWrote apart).ends
    have closed := copied.held.close (by omega) (cstr_iff.mp there).2.2
    rw [List.take_of_length_le below.le] at run
    refine .enter <| .movb <| .storeb <| .cmpb <| .taken ?_ <| run _ _ _ _ _ edi ?_ ?_
    · simp [esi, ecx, here]
    · simpa [edi, ecx] using copied.store (within_add (lt_trans below (by decide))) _
    · simpa [esi, edi, ecx, here] using closed
  | cons c t ih =>
    obtain ⟨here, some⟩ := (there.kept copied.toWrote apart).at_append
    obtain ⟨next, count⟩ := count_next ecx (by omega)
    refine .enter <| .movb <| .storeb <| .cmpb <| .passed ?_ <| .inc <| .cmp ?_
    · simp [esi, ecx, here, some]
    by_cases more : u.length + 1 < 255
    · rw [List.append_cons] at there apart run
      refine .taken ?_ <| ih (u := u ++ [c]) there ?_ apart ?_ esi edi ?_ run
      · simpa using count.mpr more
      · simpa using more
      · simpa [esi, edi, ecx, here] using copied.concat (by omega) (by decide) c
      · simpa using next
    · have nonzero := (List.forall_mem_append.mp (cstr_iff.mp there).2.2).1
      obtain ⟨wrote, closed⟩ := Copied.full copied (t := t) (by omega) (by omega) nonzero some
      refine .passed ?_ <| .storebImm <| .fall <| run _ _ _ _ _ edi ?_ ?_
      · simpa using mt count.mp more
      · simpa [esi, edi, ecx, here] using wrote
      · simpa [esi, edi, ecx, here] using closed

theorem makeAbsAppendLoop_runs (there : Cstr memory src (v ++ t)) (below : u.length ≤ 255)
    (nonzero : ∀ c ∈ u, c ≠ 0)
    (apart : ∀ k ≤ (v ++ t).length, ¬ Within dst 256 (src + UInt32.ofNat k))
    (copied : Copied dst 256 memory stores u m.memory m.stores) (esi : m.regs.esi = src)
    (edi : m.regs.edi = dst) (edx : m.regs.edx = UInt32.ofNat v.length)
    (ecx : m.regs.ecx = UInt32.ofNat u.length)
    (run : ∀ regs memory' flags stores' overflow, regs.edi = dst →
      Wrote (Within dst 256) memory stores memory' stores' → Cstr memory' dst ((u ++ t).take 255) →
      Runs (shell s) kernel (Machine.goto (shell s)
        ⟨regs, memory', flags, m.stack, .makeAbsPath, [], m.world, stores', overflow⟩ .makeAbsStrip) Q) :
    Runs (shell s) kernel (m.goto (shell s) .makeAbsAppendLoop) Q := by
  induction t generalizing m u v with
  | nil =>
    rw [List.append_nil] at there apart run
    have here := (there.kept copied.toWrote apart).ends
    have closed := copied.held.close (by omega) nonzero
    rw [List.take_of_length_le below] at run
    refine .enter <| .movb <| .storeb <| .cmpb <| .taken ?_ <| run _ _ _ _ _ edi ?_ ?_
    · simp [esi, edx, here]
    · simpa [edi, ecx] using copied.store (within_add (lt_of_le_of_lt below (by decide))) _
    · simpa [esi, edi, edx, ecx, here] using closed
  | cons c t ih =>
    obtain ⟨here, some⟩ := (there.kept copied.toWrote apart).at_append
    obtain ⟨next, count⟩ := count_next ecx (by omega)
    refine .enter <| .movb <| .storeb <| .cmpb <| .passed ?_ <| .inc <| .inc <| .cmp ?_
    · simp [esi, edx, here, some]
    by_cases more : u.length + 1 < 255
    · rw [List.append_cons] at there apart
      rw [List.append_cons u] at run
      refine .taken ?_ <| ih (u := u ++ [c]) (v := v ++ [c]) there ?_ ?_ apart ?_ esi edi ?_ ?_ run
      · simpa using count.mpr more
      · simpa using more.le
      · exact List.forall_mem_append.mpr ⟨nonzero, List.forall_mem_singleton.mpr some⟩
      · simpa [esi, edi, edx, ecx, here] using copied.concat (by omega) (by decide) c
      · simp [edx]
      · simpa using next
    · obtain ⟨wrote, closed⟩ := Copied.full copied (t := t) (by omega) (by omega) nonzero some
      refine .passed ?_ <| .storebImm <| .jmp <| run _ _ _ _ _ edi ?_ ?_
      · simpa using mt count.mp more
      · simpa [esi, edi, edx, ecx, here] using wrote
      · simpa [esi, edi, edx, ecx, here] using closed

theorem makeAbsCopyCwd_runs (there : Cstr memory s.cwdBuf (u ++ t)) (below : u.length < 255)
    (short : (u ++ t).length ≤ 255)
    (apart : ∀ k ≤ (u ++ t).length, ¬ Within dst 256 (s.cwdBuf + UInt32.ofNat k))
    (copied : Copied dst 256 memory stores u m.memory m.stores) (edi : m.regs.edi = dst)
    (ecx : m.regs.ecx = UInt32.ofNat u.length)
    (whole : (u ++ t).length < 255 → ∀ regs memory' flags stores' overflow, regs.esi = m.regs.esi →
      regs.edi = dst → regs.ecx = UInt32.ofNat (u ++ t).length →
      Copied dst 256 memory stores (u ++ t) memory' stores' →
      Runs (shell s) kernel (Machine.goto (shell s)
        ⟨regs, memory', flags, m.stack, .makeAbsCopyCwd, [], m.world, stores', overflow⟩
        .makeAbsCwdDone) Q)
    (full : (u ++ t).length = 255 → ∀ regs memory' flags stores' overflow, regs.edi = dst →
      Wrote (Within dst 256) memory stores memory' stores' → Cstr memory' dst (u ++ t) →
      Runs (shell s) kernel (Machine.goto (shell s)
        ⟨regs, memory', flags, m.stack, .makeAbsPath, [], m.world, stores', overflow⟩ .makeAbsStrip) Q) :
    Runs (shell s) kernel (m.goto (shell s) .makeAbsCopyCwd) Q := by
  induction t generalizing m u with
  | nil =>
    rw [List.append_nil] at there apart whole
    have here := (there.kept copied.toWrote apart).ends
    refine .enter <| .movb <| .storeb <| .cmpb <| .taken ?_ <| whole below _ _ _ _ _ rfl edi ecx ?_
    · simp [ecx, here]
    · have next := (copied.concat (by omega) (by decide) 0).left
      simpa [edi, ecx, here] using next
  | cons c t ih =>
    obtain ⟨here, some⟩ := (there.kept copied.toWrote apart).at_append
    obtain ⟨next, count⟩ := count_next ecx (by omega)
    refine .enter <| .movb <| .storeb <| .cmpb <| .passed ?_ <| .inc <| .cmp ?_
    · simp [ecx, here, some]
    by_cases more : u.length + 1 < 255
    · rw [List.append_cons] at there apart short whole full
      refine .taken ?_ <| ih (u := u ++ [c]) there ?_ short apart ?_ edi ?_ whole full
      · simpa using count.mpr more
      · simpa using more
      · simpa [edi, ecx, here] using copied.concat (by omega) (by decide) c
      · simpa using next
    · have nonzero := (List.forall_mem_append.mp (cstr_iff.mp there).2.2).1
      obtain ⟨wrote, closed⟩ := Copied.full copied (t := t) (by omega) (by omega) nonzero some
      have length : (u ++ c :: t).length = 255 := by
        simp at short ⊢
        omega
      rw [List.take_of_length_le length.le] at closed
      refine .passed ?_ <| .storebImm <| .jmp <| full length _ _ _ _ _ edi ?_ ?_
      · simpa using mt count.mp more
      · simpa [edi, ecx, here] using wrote
      · simpa [edi, ecx, here] using closed

theorem makeAbsCwdDone_runs {cwd path : List UInt8} (there : Cstr memory src path)
    (cwdThere : Cstr memory s.cwdBuf cwd) (below : cwd.length < 255)
    (apart : ∀ k ≤ path.length, ¬ Within dst 256 (src + UInt32.ofNat k))
    (copied : Copied dst 256 memory stores cwd m.memory m.stores) (esi : m.regs.esi = src)
    (edi : m.regs.edi = dst) (ecx : m.regs.ecx = UInt32.ofNat cwd.length)
    (run : ∀ regs memory' flags stores' overflow, regs.edi = dst →
      Wrote (Within dst 256) memory stores memory' stores' →
      Cstr memory' dst ((if cwd.length ≤ 1 then cwd ++ path else cwd ++ 47 :: path).take 255) →
      Runs (shell s) kernel (Machine.goto (shell s)
        ⟨regs, memory', flags, m.stack, .makeAbsPath, [], m.world, stores', overflow⟩ .makeAbsStrip) Q) :
    Runs (shell s) kernel (m.goto (shell s) .makeAbsCwdDone) Q := by
  have nonzero := (cstr_iff.mp cwdThere).2.2
  have count := length_le_one_iff (show cwd.length < 2 ^ 32 by omega)
  refine .enter <| .cmp ?_
  by_cases small : cwd.length ≤ 1
  · rw [if_pos small] at run
    refine .taken ?_ <| .enter <| .xor_self <| .fall ?_
    · simpa [ecx] using count.mpr small
    · exact makeAbsAppendLoop_runs (v := []) there below.le nonzero apart copied esi edi rfl ecx run
  · rw [if_neg small, List.append_cons] at run
    refine .passed ?_ <| .storebImm <| .inc <| .storebImm <| .fall <| .enter <| .xor_self <| .fall ?_
    · simpa [ecx] using mt count.mp small
    · have slash := copied.concat (by omega) (by decide) 47
      have zero := (slash.concat (by simp; omega) (by decide) 0).left
      refine makeAbsAppendLoop_runs (u := cwd ++ [47]) (v := []) there ?_ ?_ apart ?_ esi edi rfl ?_ run
      · simpa using below
      · exact List.forall_mem_append.mpr ⟨nonzero, by simp⟩
      · simpa [edi, ecx] using zero
      · simp [ecx]

/-- **`make_abs_path` makes a path absolute**, with the slashes at the end removed, and stores nothing
outside of its destination. -/
theorem makeAbsPath_runs {cwd path : List UInt8} (there : Cstr m.memory src path)
    (cwdThere : Cstr m.memory s.cwdBuf cwd) (short : cwd.length ≤ 255)
    (apart : ∀ k ≤ path.length, ¬ Within dst 256 (src + UInt32.ofNat k))
    (apartCwd : ∀ k ≤ cwd.length, ¬ Within dst 256 (s.cwdBuf + UInt32.ofNat k))
    (esi : m.regs.esi = src) (edi : m.regs.edi = dst) (stack : m.stack = .ret target back :: stk)
    (run : ∀ regs memory' flags stores' overflow, Wrote (Within dst 256) m.memory m.stores memory' stores' →
      Cstr memory' dst (stripped ((joined cwd path).take 255)) →
      Runs (shell s) kernel ⟨regs, memory', flags, stk, target, back, m.world, stores', overflow⟩ Q) :
    Runs (shell s) kernel (m.goto (shell s) .makeAbsPath) Q := by
  have strip : ∀ regs memory' flags stores' overflow, regs.edi = dst →
      Wrote (Within dst 256) m.memory m.stores memory' stores' → Cstr memory' dst ((joined cwd path).take 255) →
      Runs (shell s) kernel (Machine.goto (shell s)
        ⟨regs, memory', flags, m.stack, .makeAbsPath, [], m.world, stores', overflow⟩ .makeAbsStrip) Q := by
    intro regs memory' flags stores' overflow edi' wrote closed
    exact makeAbsStrip_runs closed (List.length_take_le ..) wrote edi' stack run
  have first : m.memory m.regs.esi = 47 ↔ path.head? = some 47 := by
    rw [esi]
    cases path with
    | nil => simp [show m.memory src = 0 from there]
    | cons c path => simp [there.1]
  by_cases absolute : path.head? = some 47
  · rw [joined, if_pos absolute] at strip
    refine .enter <| .movb <| .cmpb <| .taken ?_ <| .enter <| .xor_self <| .fall ?_
    · simpa using first.mpr absolute
    · exact makeAbsCopySrcLoop_runs (u := []) there (by decide) apart (.nil ..) esi edi rfl strip
  · rw [joined, if_neg absolute] at strip
    refine .enter <| .movb <| .cmpb <| .passed ?_ <| .xor_self <| .fall ?_
    · simpa using mt first.mp absolute
    refine makeAbsCopyCwd_runs (u := []) cwdThere (by decide) short apartCwd (.nil ..) edi rfl ?_ ?_
    · intro below regs memory' flags stores' overflow esi' edi' ecx copied
      exact makeAbsCwdDone_runs there cwdThere below apart copied (esi'.trans esi) edi' ecx strip
    · intro length regs memory' flags stores' overflow edi' wrote closed
      refine strip regs memory' flags stores' overflow edi' wrote ?_
      rw [List.nil_append] at length closed
      rwa [if_neg (by omega), List.take_left' length]

/-! ### `path_up_one` -/

theorem pathUpDone_runs (stack : m.stack = .ret target back :: stk) (run : ∀ regs flags overflow,
      Runs (shell s) kernel ⟨regs, m.memory, flags, stk, target, back, m.world, m.stores, overflow⟩ Q) :
    Runs (shell s) kernel (m.goto (shell s) .pathUpDone) Q := by
  refine .enter ?_
  rw [stack]
  exact .ret <| run _ _ _

theorem pathUpScan_runs (there : Cstr m.memory dst (u ++ v)) (some : u ≠ []) (short : u.length ≤ 255)
    (edi : m.regs.edi = dst) (ecx : m.regs.ecx = UInt32.ofNat (u.length - 1))
    (stack : m.stack = .ret target back :: stk)
    (run : ∀ regs memory' flags stores' overflow, Wrote (Within dst 256) m.memory m.stores memory' stores' →
      Cstr memory' dst (above u) →
      Runs (shell s) kernel ⟨regs, memory', flags, stk, target, back, m.world, stores', overflow⟩ Q) :
    Runs (shell s) kernel (m.goto (shell s) .pathUpScan) Q := by
  induction u using List.reverseRecOn generalizing m v with
  | nil => exact absurd rfl some
  | append_singleton u c ih =>
    rw [List.length_append, List.length_singleton] at short
    rw [List.length_append, List.length_singleton, Nat.add_sub_cancel] at ecx
    refine .enter <| .cmp ?_
    by_cases first : u = []
    · subst first
      rw [List.nil_append, above_single] at run
      have one := (Copied.nil dst 256 m.memory m.stores).concat (by decide) (by decide) 47
      have two := one.concat (by decide) (by decide) 0
      refine .taken (by simp [ecx]) <| .enter <| .storebImm <| .storebImm <| .jmp <|
        pathUpDone_runs stack fun _ _ _ => run _ _ _ _ _ ?_ ?_
      · simpa [edi, UInt32.add_comm] using two.toWrote
      · simpa [edi, UInt32.add_comm] using one.held.close (by decide) (by simp)
    · have left : m.regs.ecx ≠ 0 := by
        rw [ecx]
        exact mt (ofNat_inj (by omega) (by decide)).mp (List.length_pos_iff.mpr first).ne'
      rw [List.append_assoc, List.singleton_append] at there
      have here : m.memory (dst + UInt32.ofNat u.length) = c := there.at_append.1
      refine .passed (by simpa using left) <| .movb <| .cmpb ?_
      by_cases slash : c = 47
      · subst slash
        rw [above_concat_slash first] at run
        refine .taken (by simp [edi, ecx, here]) <| .enter <| .cmp <| .passed (by simpa using left) <|
          .storebImm <| .fall <| pathUpDone_runs stack fun _ _ _ => run _ _ _ _ _ ?_ ?_
        · have wrote := (Wrote.refl (Within dst 256) m.memory m.stores).store
            (within_add (show u.length < 256 by omega)) 0
          simpa [edi, ecx] using wrote
        · simpa [edi, ecx] using there.truncate
      · rw [above_concat first slash] at run
        refine .passed (by simpa [edi, ecx, here] using slash) <| .dec <| .jmp <|
          ih there first (by omega) edi ?_ stack run
        obtain ⟨k, length⟩ := Nat.exists_eq_succ_of_ne_zero (List.length_pos_iff.mpr first).ne'
        show m.regs.ecx - 1 = _
        rw [ecx, length, Nat.succ_sub_one, Nat.succ_eq_add_one, ofNat_succ_sub_one]

theorem pathUpOne_runs (there : Cstr m.memory dst text) (short : text.length ≤ 255)
    (edi : m.regs.edi = dst) (stack : m.stack = .ret target back :: stk)
    (run : ∀ regs memory' flags stores' overflow, Wrote (Within dst 256) m.memory m.stores memory' stores' →
      Cstr memory' dst (parent text) →
      Runs (shell s) kernel ⟨regs, memory', flags, stk, target, back, m.world, stores', overflow⟩ Q) :
    Runs (shell s) kernel (m.goto (shell s) .pathUpOne) Q := by
  have code : block s .pathUpFindEnd = endLoop .edi .ecx .pathUpFindEnd .pathUpEndFound := rfl
  have count := length_le_one_iff (show text.length < 2 ^ 32 by omega)
  refine .enter <| .xor_self <| .fall <| endLoop_runs (u := []) (t := text) code (by decide) (by decide)
    (by decide) ?_ rfl ?_
  · rwa [← edi] at there
  intro regs flags overflow length same
  have length : regs.ecx = UInt32.ofNat text.length := length
  refine .enter <| .cmp ?_
  by_cases small : text.length ≤ 1
  · rw [parent, if_pos small] at run
    refine .taken ?_ <| pathUpDone_runs stack fun _ _ _ => run _ _ _ _ _ (.refl ..) there
    simpa [length] using count.mpr small
  · rw [parent, if_neg small] at run
    have some : text ≠ [] := List.length_pos_iff.mp (by omega)
    refine .passed ?_ <| .dec <| .fall <| pathUpScan_runs (v := []) ?_ some short ?_ ?_ stack run
    · simpa [length] using mt count.mp small
    · simpa using there
    · exact (same .edi (by decide) (by decide)).trans edi
    · obtain ⟨k, count⟩ := Nat.exists_eq_succ_of_ne_zero (List.length_pos_iff.mpr some).ne'
      show regs.ecx - 1 = _
      rw [length, count, Nat.succ_sub_one, Nat.succ_eq_add_one, ofNat_succ_sub_one]

end LaylaOS.User
