/-
**The closing handshake of two endpoints.**

Of a segment only this matters to the closing of a connection: whether it carries a FIN, and whether
it carries data, which is acknowledged. Every segment of an established connection carries an ACK.
-/

import LaylaOS.Lib.Steps
import LaylaOS.Net.Tcp

namespace LaylaOS.Net

open LaylaOS.Lib

/-- The two endpoints. -/
inductive Side
  | left
  | right
  deriving DecidableEq, Repr

namespace Side

def other : Side → Side
  | left => right
  | right => left

@[simp] theorem other_other (x : Side) : x.other.other = x := by cases x <;> rfl

@[simp] theorem other_ne (x : Side) : x.other ≠ x := by cases x <;> decide

theorem eq_or_other (x z : Side) : z = x ∨ z = x.other := by
  cases x <;> cases z <;> decide

end Side

/-- A segment without data, with data, or with a FIN. -/
inductive Kind
  | bare
  | data
  | fin
  deriving DecidableEq, Repr

/-- The phase after a segment, and the segments sent in answer. -/
def react : TCPState → Kind → TCPState × List Kind
  | .established, .fin => (.lastAck, [.bare, .fin])
  | .established, .data => (.established, [.bare])
  | .lastAck, _ => (.closed, [])
  | .finWait1, _ => (.finWait2, [])
  | .finWait2, .fin => (.closed, [.bare])
  | phase, _ => (phase, [])

/-- The phases of both endpoints and what is on its way to each. -/
@[ext]
structure Handshake where
  phase : Side → TCPState
  queue : Side → List Kind

/-- What the endpoints do. -/
inductive HandshakeEvent
  | send (x : Side) (loaded : Bool)
  | close (x : Side)
  | deliver (x : Side)
  deriving DecidableEq, Repr

namespace Handshake

/-- One endpoint moves to a phase, has `rest` still on its way and sends `out`. -/
def act (h : Handshake) (x : Side) (phase : TCPState) (rest out : List Kind) : Handshake where
  phase := Function.update h.phase x phase
  queue := Function.update (Function.update h.queue x rest) x.other (h.queue x.other ++ out)

def step (h : Handshake) : HandshakeEvent → Handshake
  | .send x loaded =>
    if h.phase x = .established then
      h.act x .established (h.queue x) [if loaded then .data else .bare]
    else h
  | .close x => if h.phase x = .established then h.act x .finWait1 (h.queue x) [.fin] else h
  | .deliver x =>
    match h.queue x with
    | [] => h
    | kind :: rest => h.act x (react (h.phase x) kind).1 rest (react (h.phase x) kind).2

/-- No FIN reaches an endpoint in `FIN_WAIT_1`. -/
def FinAfterAck (h : Handshake) : HandshakeEvent → Prop
  | .deliver x => h.phase x = .finWait1 → (h.queue x).head? ≠ some .fin
  | _ => True

/-- Both established, nothing on its way. -/
def start : Handshake where
  phase := fun _ => .established
  queue := fun _ => []

section Act

variable (h : Handshake) (x : Side) (phase : TCPState) (rest out : List Kind)

@[simp] theorem act_phase_self : (h.act x phase rest out).phase x = phase := by
  simp [act]

@[simp] theorem act_phase_other : (h.act x phase rest out).phase x.other = h.phase x.other := by
  simp [act]

@[simp] theorem act_queue_self : (h.act x phase rest out).queue x = rest := by
  simp [act, (Side.other_ne x).symm]

@[simp] theorem act_queue_other : (h.act x phase rest out).queue x.other = h.queue x.other ++ out := by
  simp [act]

@[simp] theorem act_phase_peer : (h.act x.other phase rest out).phase x = h.phase x := by
  simpa using h.act_phase_other x.other phase rest out

@[simp] theorem act_queue_peer : (h.act x.other phase rest out).queue x = h.queue x ++ out := by
  simpa using h.act_queue_other x.other phase rest out

end Act

theorem act_self (h : Handshake) (x : Side) : h.act x (h.phase x) (h.queue x) [] = h := by
  ext1
  · exact Function.update_eq_self ..
  · simp [act]

/-! ### While no FIN reaches `FIN_WAIT_1` -/

/-- The phases of a connection that was established. -/
def Live (phase : TCPState) : Prop :=
  phase = .established ∨ phase = .finWait1 ∨ phase = .finWait2 ∨ phase = .lastAck ∨ phase = .closed

/-- An endpoint in one phase, its peer in another, and what is on its way to it: one FIN at most, none
from an established peer; it has heard the peer's FIN if and only if it waits for the last ACK or is
closed; and when only the last ACK is missing, it is on its way. -/
structure Heard (mine peer : TCPState) (queue : List Kind) : Prop where
  live : Live mine
  once : queue.count .fin ≤ if peer = .established then 0 else 1
  heard : mine = .lastAck ∨ mine = .closed ↔ peer ≠ .established ∧ .fin ∉ queue
  first : mine = .lastAck → peer ≠ .lastAck
  waits : mine = .lastAck → peer = .closed → queue ≠ []

section Heard

variable {mine peer : TCPState} {kind : Kind} {rest queue out : List Kind}

theorem Heard.pop (here : Heard mine peer (kind :: rest)) (plain : kind ≠ .fin) {next : TCPState}
    (live : Live next)
    (same : next = .lastAck ∨ next = .closed ↔ mine = .lastAck ∨ mine = .closed)
    (calm : next ≠ .lastAck) : Heard next peer rest where
  live := live
  once := by
    have once := here.once
    rwa [List.count_cons_of_ne plain] at once
  heard := by
    rw [same, here.heard, List.mem_cons, not_or]
    exact and_congr_right fun _ => and_iff_right plain.symm
  first := fun last => absurd last calm
  waits := fun last => absurd last calm

theorem Heard.popFin (here : Heard mine peer (.fin :: rest)) : peer ≠ .established ∧ rest.count .fin = 0 := by
  have once := here.once
  rw [List.count_cons_self] at once
  split_ifs at once with idle
  · omega
  · exact ⟨idle, by omega⟩

theorem Heard.append (here : Heard mine peer queue) (plain : out.count .fin = 0) :
    Heard mine peer (queue ++ out) where
  live := here.live
  once := by
    rw [List.count_append, plain]
    exact here.once
  heard := by
    rw [here.heard, List.mem_append, not_or]
    exact and_congr_right fun _ => (and_iff_left (List.count_eq_zero.mp plain)).symm
  first := here.first
  waits := fun last closed none => here.waits last closed (List.append_eq_nil_iff.mp none).1

theorem Heard.announce (here : Heard mine .established queue) (sends : out.count .fin = 1)
    (left : peer ≠ .established) : Heard mine peer (queue ++ out) := by
  have deaf : ¬ (mine = .lastAck ∨ mine = .closed) := fun heard => (here.heard.mp heard).1 rfl
  refine ⟨here.live, ?_, iff_of_false deaf ?_, fun last => absurd (.inl last) deaf,
    fun last => absurd (.inl last) deaf⟩
  · have once := here.once
    rw [if_pos rfl] at once
    rw [List.count_append, if_neg left]
    omega
  · rintro ⟨-, none⟩
    have zero := List.count_eq_zero.mpr none
    rw [List.count_append] at zero
    omega

theorem Heard.peerMoves (here : Heard mine peer queue) (left : peer ≠ .established) {next : TCPState}
    (still : next ≠ .established) (calm : next ≠ .lastAck)
    (acked : mine = .lastAck → next = .closed → queue ≠ []) : Heard mine next queue where
  live := here.live
  once := by
    have once := here.once
    rw [if_neg left] at once
    rwa [if_neg still]
  heard := by
    rw [here.heard]
    exact and_congr_left fun _ => iff_of_true left still
  first := fun _ => calm
  waits := acked

theorem Heard.hears (here : Heard mine peer (.fin :: rest)) {next : TCPState} (live : Live next)
    (done : next = .lastAck ∨ next = .closed) (first : next = .lastAck → peer ≠ .lastAck)
    (waits : next = .lastAck → peer = .closed → rest ≠ []) : Heard next peer rest := by
  obtain ⟨left, none⟩ := here.popFin
  -- it was the only FIN, so none is left behind it
  refine ⟨live, ?_, iff_of_true done ⟨left, List.count_eq_zero.mp none⟩, first, waits⟩
  rw [none]
  exact Nat.zero_le _

theorem Heard.plain (here : Heard mine peer (kind :: rest))
    (done : mine = .lastAck ∨ mine = .closed) : kind ≠ .fin := by
  rintro rfl
  exact (here.heard.mp done).2 (List.mem_cons_self ..)

/-- **One segment arrives**, and it is no FIN for an endpoint in `FIN_WAIT_1`. -/
theorem Heard.react (here : Heard mine peer (kind :: rest)) (there : Heard peer mine queue)
    (safe : mine = .finWait1 → kind ≠ .fin) : Heard (react mine kind).1 peer rest ∧
      Heard peer (react mine kind).1 (queue ++ (react mine kind).2) := by
  rcases here.live with rfl | rfl | rfl | rfl | rfl
  · cases kind with
    | bare => exact ⟨here.pop (by decide) (.inl rfl) Iff.rfl (by decide), there.append rfl⟩
    | data => exact ⟨here.pop (by decide) (.inl rfl) Iff.rfl (by decide), there.append rfl⟩
    | fin =>
      have deaf : ¬ (peer = .lastAck ∨ peer = .closed) := fun heard => (there.heard.mp heard).1 rfl
      refine ⟨here.hears ?_ (.inl rfl) (fun _ last => deaf (.inl last))
        fun _ closed => absurd (.inr closed) deaf, there.announce rfl (by decide)⟩
      exact .inr (.inr (.inr (.inl rfl)))
  · -- any segment is taken for the ACK; `safe` says that it is not the peer's FIN
    have plain := safe rfl
    have next : react .finWait1 kind = (.finWait2, []) := by cases kind <;> rfl
    rw [next]
    refine ⟨here.pop plain (.inr (.inr (.inl rfl))) (by decide) (by decide), ?_⟩
    exact (there.append rfl).peerMoves (by decide) (by decide) (by decide) fun _ closed => by
      cases closed
  · cases kind with
    | bare => exact ⟨here.pop (by decide) here.live Iff.rfl (by decide), there.append rfl⟩
    | data => exact ⟨here.pop (by decide) here.live Iff.rfl (by decide), there.append rfl⟩
    | fin =>
      refine ⟨here.hears (.inr (.inr (.inr (.inr rfl)))) (.inr rfl) nofun nofun, ?_⟩
      exact (there.append rfl).peerMoves (by decide) (by decide) (by decide) fun _ _ => by
        simp [Net.react]
  · have plain := here.plain (.inl rfl)
    have next : react .lastAck kind = (.closed, []) := by cases kind <;> rfl
    rw [next]
    refine ⟨here.pop plain (.inr (.inr (.inr (.inr rfl)))) (by decide) (by decide), ?_⟩
    exact (there.append rfl).peerMoves (by decide) (by decide) (by decide) fun last _ =>
      absurd rfl (there.first last)
  · have plain := here.plain (.inr rfl)
    have next : react .closed kind = (.closed, []) := by cases kind <;> rfl
    rw [next]
    exact ⟨here.pop plain here.live Iff.rfl (by decide), there.append rfl⟩

end Heard

/-- Both endpoints have heard what they should have. -/
def Sound (h : Handshake) : Prop := ∀ x, Heard (h.phase x) (h.phase x.other) (h.queue x)

theorem Sound.both {h : Handshake} (sound : h.Sound) (x : Side) :
    Heard (h.phase x) (h.phase x.other) (h.queue x) ∧ Heard (h.phase x.other) (h.phase x) (h.queue x.other) :=
  ⟨sound x, by simpa using sound x.other⟩

theorem start_sound : start.Sound := fun _ =>
  ⟨.inl rfl, Nat.zero_le _, iff_of_false nofun fun both => both.1 rfl, nofun, nofun⟩

theorem Sound.act {h : Handshake} {x : Side} {phase : TCPState} {rest out : List Kind}
    (here : Heard phase (h.phase x.other) rest)
    (there : Heard (h.phase x.other) phase (h.queue x.other ++ out)) :
    (h.act x phase rest out).Sound := by
  intro z
  rcases Side.eq_or_other x z with rfl | rfl
  · simpa using here
  · simpa using there

/-- **One event keeps the invariant.** -/
theorem Sound.step {h : Handshake} (sound : h.Sound) {event : HandshakeEvent}
    (safe : h.FinAfterAck event) : (h.step event).Sound := by
  cases event with
  | send x loaded =>
    unfold Handshake.step
    by_cases established : h.phase x = .established
    · obtain ⟨here, there⟩ := sound.both x
      rw [established] at here there
      simp only [if_pos established]
      refine Sound.act here (there.append ?_)
      cases loaded <;> rfl
    · simpa only [if_neg established] using sound
  | close x =>
    unfold Handshake.step
    by_cases established : h.phase x = .established
    · obtain ⟨here, there⟩ := sound.both x
      rw [established] at here there
      simp only [if_pos established]
      refine Sound.act ⟨.inr (.inl rfl), here.once, ?_, nofun, nofun⟩ (there.announce rfl (by decide))
      rw [← here.heard]
      decide
    · simpa only [if_neg established] using sound
  | deliver x =>
    obtain ⟨here, there⟩ := sound.both x
    unfold Handshake.step
    cases arrives : h.queue x with
    | nil => simpa only [arrives] using sound
    | cons kind rest =>
      rw [arrives] at here
      have plain : h.phase x = .finWait1 → kind ≠ .fin := by
        intro waiting fin
        exact safe waiting (by rw [arrives, fin]; rfl)
      obtain ⟨mine, peer⟩ := here.react there plain
      simpa only [arrives] using Sound.act mine peer

/-! ### After a FIN has reached `FIN_WAIT_1` -/

/-- An endpoint waits in `FIN_WAIT_2` for a FIN that its peer has sent before. -/
def Stuck (h : Handshake) : Prop :=
  ∃ x, h.phase x = .finWait2 ∧ h.phase x.other ≠ .established ∧ .fin ∉ h.queue x

theorem react_left {phase : TCPState} (left : phase ≠ .established) (kind : Kind) :
    (react phase kind).1 ≠ .established ∧ .fin ∉ (react phase kind).2 := by
  cases phase <;> cases kind <;> first | exact absurd rfl left | decide

theorem step_left {h : Handshake} {x : Side} (left : h.phase x ≠ .established) (loaded : Bool) :
    h.step (.send x loaded) = h ∧ h.step (.close x) = h :=
  ⟨if_neg left, if_neg left⟩

theorem Stuck.step {h : Handshake} (stuck : h.Stuck) (event : HandshakeEvent) : (h.step event).Stuck := by
  obtain ⟨x, waiting, left, none⟩ := stuck
  have busy (z : Side) : h.phase z ≠ .established := by
    rcases Side.eq_or_other x z with rfl | rfl
    · rw [waiting]
      decide
    · exact left
  cases event with
  | send z loaded =>
    rw [(step_left (busy z) loaded).1]
    exact ⟨x, waiting, left, none⟩
  | close z =>
    rw [(step_left (busy z) false).2]
    exact ⟨x, waiting, left, none⟩
  | deliver z =>
    unfold Handshake.step
    cases arrives : h.queue z with
    | nil =>
      simp only [arrives]
      exact ⟨x, waiting, left, none⟩
    | cons kind rest =>
      simp only [arrives]
      refine ⟨x, ?_⟩
      rcases Side.eq_or_other x z with rfl | rfl
      · rw [arrives] at none
        have plain : kind ≠ .fin := fun fin => none (by rw [fin]; exact List.mem_cons_self ..)
        have next : react .finWait2 kind = (.finWait2, []) := by
          cases kind <;> first | rfl | exact absurd rfl plain
        rw [act_phase_self, act_phase_other, act_queue_self, waiting, next]
        exact ⟨rfl, left, fun fin => none (List.mem_cons_of_mem kind fin)⟩
      · obtain ⟨still, quiet⟩ := react_left left kind
        rw [act_phase_peer, act_phase_self, act_queue_peer, List.mem_append, not_or]
        exact ⟨waiting, still, none, quiet⟩

theorem stuck_of_fin {h : Handshake} (sound : h.Sound) {event : HandshakeEvent}
    (crosses : ¬ h.FinAfterAck event) : (h.step event).Stuck := by
  cases event with
  | send z loaded => exact absurd trivial crosses
  | close z => exact absurd trivial crosses
  | deliver x =>
    unfold FinAfterAck at crosses
    push Not at crosses
    obtain ⟨waiting, head⟩ := crosses
    obtain ⟨rest, arrives⟩ := List.head?_eq_some_iff.mp head
    have here := sound x
    rw [arrives] at here
    obtain ⟨left, none⟩ := here.popFin
    unfold Handshake.step
    simp only [arrives, waiting]
    refine ⟨x, act_phase_self .., ?_, ?_⟩
    · rwa [act_phase_other]
    · rw [act_queue_self]
      exact List.count_eq_zero.mp none

theorem always_or_stuck {h : Handshake} (sound : h.Sound) (events : List HandshakeEvent) :
    (Always step FinAfterAck h events ∧ (events.foldl step h).Sound) ∨
      ¬ Always step FinAfterAck h events ∧ (events.foldl step h).Stuck := by
  apply Always.good_or_bad (A := fun _ _ => True) Sound Stuck
  · exact fun h event sound _ safe => sound.step safe
  · exact fun h event sound _ crosses => stuck_of_fin sound crosses
  · exact fun h event stuck => stuck.step event
  · exact sound
  · exact Always.of_forall (fun _ _ => trivial) h events

theorem step_act (h : Handshake) (event : HandshakeEvent) : ∃ z phase rest out,
    h.step event = h.act z phase rest out ∧ (h.phase z ≠ .established → phase ≠ .established ∧ .fin ∉ out) := by
  have idle (x : Side) : h = h.act x (h.phase x) (h.queue x) [] ∧
      (h.phase x ≠ .established → h.phase x ≠ .established ∧ Kind.fin ∉ ([] : List Kind)) :=
    ⟨(h.act_self x).symm, fun left => ⟨left, List.not_mem_nil⟩⟩
  cases event with
  | send x loaded =>
    by_cases established : h.phase x = .established
    · exact ⟨x, _, _, _, if_pos established, fun left => absurd established left⟩
    · exact ⟨x, _, _, _, (if_neg established).trans (idle x).1, (idle x).2⟩
  | close x =>
    by_cases established : h.phase x = .established
    · exact ⟨x, _, _, _, if_pos established, fun left => absurd established left⟩
    · exact ⟨x, _, _, _, (if_neg established).trans (idle x).1, (idle x).2⟩
  | deliver x =>
    unfold step
    cases arrives : h.queue x with
    | nil =>
      simp only [arrives]
      exact ⟨x, _, _, _, idle x⟩
    | cons kind rest =>
      simp only [arrives]
      exact ⟨x, _, _, _, rfl, fun left => react_left left kind⟩

theorem left_step {h : Handshake} {x : Side} (left : h.phase x ≠ .established)
    (event : HandshakeEvent) : (h.step event).phase x ≠ .established := by
  obtain ⟨z, phase, rest, out, acts, keeps⟩ := h.step_act event
  rw [acts]
  rcases Side.eq_or_other x z with rfl | rfl
  · rw [act_phase_self]
    exact (keeps left).1
  · rwa [act_phase_peer]

theorem left_of_close (h : Handshake) {events : List HandshakeEvent} {x : Side}
    (closes : .close x ∈ events) : (events.foldl step h).phase x ≠ .established := by
  induction events generalizing h with
  | nil => cases closes
  | cons event events ih =>
    rcases List.mem_cons.mp closes with rfl | later
    · have left : (h.step (.close x)).phase x ≠ .established := by
        unfold step
        by_cases established : h.phase x = .established
        · simp only [if_pos established, act_phase_self]
          decide
        · simpa only [if_neg established] using established
      exact List.foldlRecOn (motive := fun t : Handshake => t.phase x ≠ .established) events _ left
        fun _ left event _ => left_step left event
    · exact ih (h.step event) later

/-- **Both are closed** when nothing is on its way after a close, if and only if no FIN has reached an
endpoint in `FIN_WAIT_1`. -/
theorem closed_iff {events : List HandshakeEvent} {x : Side} (closes : .close x ∈ events)
    (quiet : ∀ z, (events.foldl step start).queue z = []) :
    (∀ z, (events.foldl step start).phase z = .closed) ↔ Always step FinAfterAck start events := by
  have left := left_of_close start closes
  rcases always_or_stuck start_sound events with ⟨always, sound⟩ | ⟨crosses, z, waiting, -, -⟩
  · refine iff_of_true ?_ always
    have heard (z : Side) (left : (events.foldl step start).phase z.other ≠ .established) :
        (events.foldl step start).phase z = .lastAck ∨ (events.foldl step start).phase z = .closed :=
      (sound z).heard.mpr ⟨left, by rw [quiet]; exact List.not_mem_nil⟩
    have peer := heard x.other (by rwa [Side.other_other])
    have both (z : Side) : (events.foldl step start).phase z = .lastAck ∨
        (events.foldl step start).phase z = .closed := by
      rcases Side.eq_or_other x z with rfl | rfl
      · refine heard z ?_
        rcases peer with last | closed
        · rw [last]
          decide
        · rw [closed]
          decide
      · exact peer
    intro z
    refine (both z).resolve_left fun last => ?_
    have closed := (both z.other).resolve_left ((sound z).first last)
    exact (sound z).waits last closed (quiet z)
  · refine iff_of_false (fun closed => ?_) crosses
    rw [closed z] at waiting
    cases waiting

end Handshake

end LaylaOS.Net
