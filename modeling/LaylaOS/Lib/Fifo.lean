/-
**Bounded FIFO queues.**

`Fifo` is what a ring buffer is for: a list of bounded length, entries put to its end and taken from
its front, an entry that finds no room dropped. A `Session` is a queue together with what its clients
have seen of it: the answers of every `dequeue`, and the entries that were accepted.
-/

import LaylaOS.Lib.Ring
import LaylaOS.Lib.Steps

namespace LaylaOS.Lib

/-- A queue of at most `capacity` entries, the oldest first. -/
structure Fifo (α : Type) (capacity : Nat) where
  entries : List α
  bounded : entries.length ≤ capacity

/-- The calls that change a queue. -/
inductive QueueCall (α : Type)
  | enqueue (entry : α)
  | dequeue
  deriving DecidableEq, Repr

variable {α : Type}

namespace Fifo

variable {capacity : Nat}

@[ext] theorem ext {q q' : Fifo α capacity} (same : q.entries = q'.entries) : q = q' := by
  cases q
  cases q'
  cases same
  rfl

def empty : Fifo α capacity := ⟨[], Nat.zero_le _⟩

/-- There is no room for another entry. -/
def isFull (q : Fifo α capacity) : Bool := q.entries.length == capacity

/-- The entry goes to the end; it is ignored if the queue is full. -/
def enqueue (q : Fifo α capacity) (entry : α) : Fifo α capacity :=
  if room : q.entries.length < capacity then
    ⟨q.entries ++ [entry], by rw [List.length_append]; exact room⟩
  else q

/-- The oldest entry and the queue without it; `none` if the queue is empty. -/
def dequeue : Fifo α capacity → Option (α × Fifo α capacity)
  | ⟨[], _⟩ => none
  | ⟨entry :: entries, bounded⟩ => some (entry, ⟨entries, Nat.le_of_succ_le bounded⟩)

end Fifo

/-- A queue of the type `σ` and what has been seen of it. -/
structure Session (σ α : Type) where
  queue : σ
  /-- The answer of each `dequeue` so far, `none` for false. -/
  answers : List (Option α)
  /-- The entries that `enqueue` did not ignore. -/
  accepted : List α

namespace Session

variable {σ : Type}

def start (queue : σ) : Session σ α := ⟨queue, [], []⟩

/-- The entries that have come out. -/
def delivered (s : Session σ α) : List α := s.answers.filterMap id

/-- One call on a queue with the given operations. -/
def step (isFull : σ → Bool) (enqueue : σ → α → σ) (dequeue : σ → Option (α × σ)) (s : Session σ α) :
    QueueCall α → Session σ α
  | .enqueue entry =>
    { s with
      queue := enqueue s.queue entry
      accepted := s.accepted ++ if isFull s.queue then [] else [entry] }
  | .dequeue =>
    match dequeue s.queue with
    | none => { s with answers := s.answers ++ [none] }
    | some (entry, rest) => { s with queue := rest, answers := s.answers ++ [some entry] }

/-- The same session, with the queue seen through `abs`. -/
def map {τ : Type} (abs : σ → τ) (s : Session σ α) : Session τ α := ⟨abs s.queue, s.answers, s.accepted⟩

end Session

namespace Fifo

variable {capacity : Nat}

/-- One call on a bounded queue. -/
def call : Session (Fifo α capacity) α → QueueCall α → Session (Fifo α capacity) α :=
  Session.step isFull enqueue dequeue

theorem isFull_eq_false_iff (q : Fifo α capacity) : q.isFull = false ↔ q.entries.length < capacity := by
  rw [isFull, beq_eq_false_iff_ne]
  exact (Nat.lt_iff_le_and_ne.trans (and_iff_right q.bounded)).symm

theorem entries_enqueue (q : Fifo α capacity) (entry : α) :
    (q.enqueue entry).entries = q.entries ++ if q.isFull then [] else [entry] := by
  unfold enqueue
  by_cases room : q.entries.length < capacity
  · rw [dif_pos room, (isFull_eq_false_iff q).mpr room]
    rfl
  · have full : q.isFull = true := by
      rw [← Bool.not_eq_false, isFull_eq_false_iff]
      exact room
    rw [dif_neg room, full]
    exact (List.append_nil _).symm

/-- What was accepted is what was delivered, followed by what is still there. -/
def Conserved (s : Session (Fifo α capacity) α) : Prop :=
  s.accepted = s.delivered ++ s.queue.entries

theorem Conserved.call {s : Session (Fifo α capacity) α} (conserved : Conserved s)
    (call : QueueCall α) : Conserved (Fifo.call s call) := by
  unfold Conserved at conserved ⊢
  cases call with
  | enqueue entry =>
    show s.accepted ++ _ = s.delivered ++ (s.queue.enqueue entry).entries
    rw [entries_enqueue, ← List.append_assoc, conserved]
  | dequeue =>
    obtain ⟨⟨entries, bounded⟩, answers, accepted⟩ := s
    cases entries with
    | nil =>
      show accepted = (answers ++ [none]).filterMap id ++ []
      rw [List.filterMap_append]
      simpa [Session.delivered] using conserved
    | cons entry entries =>
      show accepted = (answers ++ [some entry]).filterMap id ++ entries
      rw [List.filterMap_append]
      simpa [Session.delivered] using conserved

/-- **Every accepted entry comes out exactly once, in order**, or is still there. -/
theorem conserved (calls : List (QueueCall α)) :
    Conserved (calls.foldl Fifo.call (Session.start (empty : Fifo α capacity))) :=
  List.foldlRecOn calls Fifo.call (show Conserved (Session.start empty) from rfl)
    fun _ kept call _ => kept.call call

end Fifo

/-! ### Rings are bounded queues -/

namespace Ring

variable {size : Nat} (r : Ring α size)

/-- The index behind `tail` is `head`. -/
def isFull : Bool := (r.tail + 1) % size == r.head

/-- One call on a ring. -/
def call : Session (Ring α size) α → QueueCall α → Session (Ring α size) α :=
  Session.step isFull enqueue dequeue

/-- The queue that a ring stands for. -/
def fifo : Fifo α (size - 1) := ⟨r.toList, by rw [toList_length]; exact Nat.le_sub_one_of_lt r.length_lt⟩

theorem isFull_fifo : r.fifo.isFull = r.isFull := by
  have count := r.length_lt
  rw [Bool.eq_iff_iff, Fifo.isFull, isFull, beq_iff_eq, beq_iff_eq, full_iff, fifo, toList_length]
  omega

theorem fifo_enqueue (entry : α) : (r.enqueue entry).fifo = r.fifo.enqueue entry := by
  ext1
  have count := r.length_lt
  show (r.enqueue entry).toList = _
  rw [toList_enqueue]
  unfold Fifo.enqueue fifo
  by_cases room : r.length + 1 < size
  · rw [if_pos room, dif_pos (by rw [toList_length]; omega)]
  · rw [if_neg room, dif_neg (by rw [toList_length]; omega)]

theorem fifo_dequeue : r.fifo.dequeue = r.dequeue.map fun taken => (taken.1, taken.2.fifo) := by
  cases taken : r.dequeue with
  | none =>
    have empty : r.fifo = Fifo.empty := by
      ext1
      exact r.dequeue_eq_none_iff.mp taken
    rw [empty]
    rfl
  | some pair =>
    obtain ⟨entry, rest⟩ := pair
    have behind : r.fifo = ⟨entry :: rest.toList, r.toList_dequeue taken ▸ r.fifo.bounded⟩ := by
      ext1
      exact r.toList_dequeue taken
    rw [behind]
    rfl

/-- **A ring simulates the bounded queue** with one entry less than it has slots. -/
theorem simulates : Simulates (call : Session (Ring α size) α → QueueCall α → _) Fifo.call
    (Session.map fifo) id fun _ => True := by
  rintro s call -
  refine ⟨trivial, ?_⟩
  cases call with
  | enqueue entry =>
    unfold Ring.call Fifo.call Session.step id Session.map
    simp only [fifo_enqueue, isFull_fifo]
  | dequeue =>
    unfold Ring.call Fifo.call Session.step id Session.map
    simp only [fifo_dequeue]
    cases s.queue.dequeue <;> rfl

end Ring

end LaylaOS.Lib
