/-
**Computations that leave a trace.**

A computation reports events on its way to a result. It may also be cut short, when the fuel of one of
its loops runs out: then it has no result, and its trace is what happened until then.
-/

import Mathlib.Tactic

namespace LaylaOS.Lib

/-- The events so far, and the result unless the computation was cut short. -/
@[ext]
structure Traced (ε α : Type) where
  trace : List ε
  result : Option α

namespace Traced

variable {ε α β : Type}

/-- A loop that is out of fuel. -/
def cut : Traced ε α := ⟨[], none⟩

def emit (event : ε) : Traced ε Unit := ⟨[event], some ()⟩

protected def bind (m : Traced ε α) (f : α → Traced ε β) : Traced ε β :=
  match m.result with
  | none => ⟨m.trace, none⟩
  | some a => ⟨m.trace ++ (f a).trace, (f a).result⟩

instance : Monad (Traced ε) where
  pure a := ⟨[], some a⟩
  bind := Traced.bind

@[simp] theorem result_cut : (cut : Traced ε α).result = none := rfl

@[simp] theorem result_emit (event : ε) : (emit event).result = some () := rfl

@[simp] theorem result_pure (a : α) : (pure a : Traced ε α).result = some a := rfl

@[simp] theorem trace_pure (a : α) : (pure a : Traced ε α).trace = [] := rfl

@[simp] theorem trace_emit (event : ε) : (emit event).trace = [event] := rfl

@[simp] theorem trace_cut : (cut : Traced ε α).trace = [] := rfl

@[simp] theorem result_bind (m : Traced ε α) (f : α → Traced ε β) :
    (m >>= f).result = m.result.bind fun a => (f a).result := by
  show (Traced.bind m f).result = _
  unfold Traced.bind
  cases m.result <;> rfl

@[simp] theorem result_map (g : α → β) (m : Traced ε α) : (g <$> m).result = m.result.map g := by
  show (m >>= fun a => pure (g a)).result = _
  rw [result_bind, Option.map_eq_bind]
  rfl

theorem mem_trace_bind {m : Traced ε α} {f : α → Traced ε β} {event : ε} : event ∈ (m >>= f).trace ↔
      event ∈ m.trace ∨ ∃ a, m.result = some a ∧ event ∈ (f a).trace := by
  show event ∈ (Traced.bind m f).trace ↔ _
  unfold Traced.bind
  cases m.result <;> simp

/-! ### What holds of every event -/

/-- Every event of the trace satisfies `P`. -/
def All (P : ε → Prop) (m : Traced ε α) : Prop := ∀ event ∈ m.trace, P event

variable {P : ε → Prop}

theorem All.pure (a : α) : All P (pure a : Traced ε α) := List.forall_mem_nil P

theorem All.cut : All P (cut : Traced ε α) := List.forall_mem_nil P

theorem All.emit {event : ε} (holds : P event) : All P (emit event) := List.forall_mem_singleton.mpr holds

theorem all_bind {m : Traced ε α} {f : α → Traced ε β} :
    All P (m >>= f) ↔ All P m ∧ ∀ a, m.result = some a → All P (f a) := by
  constructor
  · intro whole
    constructor
    · exact fun event early => whole event (mem_trace_bind.mpr (.inl early))
    · exact fun a result event late => whole event (mem_trace_bind.mpr (.inr ⟨a, result, late⟩))
  · rintro ⟨first, rest⟩ event mem
    rcases mem_trace_bind.mp mem with early | ⟨a, result, late⟩
    · exact first event early
    · exact rest a result event late

theorem All.bind {m : Traced ε α} {f : α → Traced ε β} (first : All P m)
    (rest : ∀ a, m.result = some a → All P (f a)) : All P (m >>= f) :=
  all_bind.mpr ⟨first, rest⟩

/-! ### What holds of the result -/

/-- If every event satisfies `P`, then the result, if there is one, satisfies `Q`. -/
def Ensures (P : ε → Prop) (Q : α → Prop) (m : Traced ε α) : Prop :=
  All P m → ∀ a, m.result = some a → Q a

variable {Q : α → Prop} {R : β → Prop}

theorem Ensures.any (m : Traced ε α) : Ensures P (fun _ => True) m := fun _ _ _ => trivial

theorem Ensures.cut : Ensures P Q cut := nofun

theorem Ensures.pure {a : α} (holds : Q a) : Ensures P Q (pure a) := by
  intro _ b result
  cases result
  exact holds

theorem Ensures.bind {m : Traced ε α} {f : α → Traced ε β} (first : Ensures P Q m)
    (rest : ∀ a, Q a → Ensures P R (f a)) : Ensures P R (m >>= f) := by
  intro whole b result
  rw [result_bind, Option.bind_eq_some_iff] at result
  obtain ⟨a, early, late⟩ := result
  obtain ⟨before, behind⟩ := all_bind.mp whole
  exact rest a (first before a early) (behind a early) b late

theorem Ensures.map {m : Traced ε α} {g : α → β} (holds : Ensures P (fun a => R (g a)) m) :
    Ensures P R (g <$> m) :=
  holds.bind fun _ => Ensures.pure

end Traced

end LaylaOS.Lib
