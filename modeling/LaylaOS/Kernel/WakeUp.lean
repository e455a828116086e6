/-
**Wake-ups** (`KeyboardBuffer::WakeWaiters`, `SyscallUDPSocket::OnReceive`,
`SyscallTCPSocket::OnReceive` and the blocking system calls).

A blocking call marks its process `BLOCKED`, leaves the event that it waits for in `wait_pid`, and halts
until the event has happened. Once another process has the CPU, nothing but a `WakeParent` call of the
event's handler brings it back. The keyboard makes that call; the sockets do not. Nor does `Schedule`
look at the event when it takes the CPU from a process whose wait is over.

The system call gate is a trap gate, so a tick may come between any two stores of a call. The stores are
therefore events of their own, and a run is any sequence of them.

* `Machine.no_lost_wake_up_iff` — no wake-up is lost in a run if and only if that is so throughout.
-/

import LaylaOS.Kernel.Coherence
import LaylaOS.Kernel.TcpReceive
import LaylaOS.Kernel.TypedLines

namespace LaylaOS.Kernel

open LaylaOS.Lib LaylaOS.Ui LaylaOS.Net

/-! ### Waiting processes -/

/-- What a `BLOCKED` process waits for. -/
def Process.waitsFor (p : Process) : Option Int := if p.state = .blocked then some p.waitPid else none

theorem Process.waitsFor_eq_none {p : Process} (free : p.state ≠ .blocked) : p.waitsFor = none := if_neg free

namespace Scheduler

/-- What the process in a slot of the table waits for. -/
def waitsAt (s : Scheduler) (slot : Nat) : Option Int := s.processes[slot]?.bind Process.waitsFor

/-- What the active process waits for. -/
def activeWaits (s : Scheduler) : Option Int := s.current.bind s.waitsAt

/-- A process that is not the current one waits for `code`. -/
def Waiting (s : Scheduler) (code : Int) : Prop :=
  ∃ slot, s.current ≠ some slot ∧ s.waitsAt slot = some code

variable {s t : Scheduler} {slot : Nat} {code : Int}

theorem stateAt_of_waitsAt (waits : s.waitsAt slot = some code) : s.stateAt slot = some .blocked := by
  obtain ⟨p, there, waits⟩ := Option.bind_eq_some_iff.mp waits
  rw [stateAt, there]
  by_contra free
  rw [p.waitsFor_eq_none fun blocked => free (congrArg some blocked)] at waits
  cases waits

theorem activeWaits_eq_some_iff :
    s.activeWaits = some code ↔ ∃ slot, s.current = some slot ∧ s.waitsAt slot = some code :=
  Option.bind_eq_some_iff

theorem wasRunning_of_waitsAt (current : s.current = some slot) (waits : s.waitsAt slot = some code) :
    s.wasRunning = false := by
  rw [wasRunning, current]
  exact decide_eq_false (by rw [stateAt_of_waitsAt waits]; nofun)

theorem waitsAt_modify {index : Nat} {change : Process → Process}
    (keeps : ∀ p, s.processes[index]? = some p → (change p).waitsFor = p.waitsFor) :
    (s.modify index change).waitsAt slot = s.waitsAt slot := by
  rw [waitsAt, waitsAt, processes_modify]
  cases there : s.processes[slot]? with
  | none => rfl
  | some p =>
    show (if index = slot then change p else p).waitsFor = p.waitsFor
    split_ifs with same
    · exact keeps p (same ▸ there)
    · rfl

theorem waitsAt_modify_free {index : Nat} {change : Process → Process} {state : ProcessState}
    (before : s.stateAt index = some state) (free : state ≠ .blocked)
    (after : ∀ p, (change p).state ≠ .blocked) :
    (s.modify index change).waitsAt slot = s.waitsAt slot := by
  apply waitsAt_modify
  intro p there
  rw [stateAt, there] at before
  rw [Process.waitsFor_eq_none (after p),
    Process.waitsFor_eq_none fun blocked => free ((Option.some.inj before).symm.trans blocked)]

theorem save_waitsAt (esp : Nat) : (s.save esp).waitsAt slot = s.waitsAt slot := by
  unfold save
  split
  · rfl
  · split_ifs with running
    · exact waitsAt_modify_free running nofun fun _ => nofun
    · rfl

theorem dispatch_waitsAt {index : Nat} (ready : s.stateAt index = some .ready) :
    (s.dispatch index).waitsAt slot = s.waitsAt slot := by
  unfold dispatch
  split
  · rfl
  · show (s.modify index fun p => { p with state := .running }).waitsAt slot = _
    exact waitsAt_modify_free ready nofun fun _ => nofun

theorem schedule_waitsAt (esp : Nat) : (s.schedule esp).2.waitsAt slot = s.waitsAt slot := by
  rw [schedule_snd]
  split
  · exact save_waitsAt esp
  · rename_i picked
    rw [dispatch_waitsAt (pick_isReady picked), save_waitsAt]

theorem wakeParent_waitsAt (pid : Int) (waits : (s.wakeParent pid).waitsAt slot = some code) :
    code ≠ pid ∧ s.waitsAt slot = some code := by
  rw [waitsAt, wakeParent, List.getElem?_map, Option.bind_map] at waits
  obtain ⟨p, there, waits⟩ := Option.bind_eq_some_iff.mp waits
  rw [waitsAt, there]
  dsimp only [Function.comp_apply] at waits
  split_ifs at waits with woken
  · cases waits
  · refine ⟨fun same => woken ?_, waits⟩
    unfold Process.waitsFor at waits
    split_ifs at waits with blocked
    · exact ⟨blocked, (Option.some.inj waits).trans same⟩

theorem addProcess_waitsAt (p : Process) (waits : (s.addProcess p).waitsAt slot = some code) :
    s.waitsAt slot = some code := by
  unfold addProcess at waits
  split_ifs at waits
  · exact waits
  · rw [waitsAt, List.getElem?_append] at waits
    split_ifs at waits
    · exact waits
    · obtain ⟨q, there, waits⟩ := Option.bind_eq_some_iff.mp waits
      -- the new process is `READY`
      rw [List.mem_singleton.mp (List.mem_of_getElem? there)] at waits
      cases waits

theorem Waiting.mono (same : t.current = s.current)
    (blocks : ∀ slot, s.current ≠ some slot → t.waitsAt slot = some code → s.waitsAt slot = some code)
    (waiting : t.Waiting code) : s.Waiting code := by
  obtain ⟨slot, away, waits⟩ := waiting
  rw [same] at away
  exact ⟨slot, away, blocks slot away waits⟩

theorem waiting_wakeParent {pid : Int} (waiting : (s.wakeParent pid).Waiting code) :
    code ≠ pid ∧ s.Waiting code := by
  obtain ⟨slot, away, waits⟩ := waiting
  exact ⟨(wakeParent_waitsAt pid waits).1, slot, away, (wakeParent_waitsAt pid waits).2⟩

theorem waiting_modifyActive {change : Process → Process}
    (waiting : (s.modifyActive change).Waiting code) : s.Waiting code := by
  refine waiting.mono (modifyActive_current s change) fun slot away waits => ?_
  rwa [waitsAt, modifyActive_other change away] at waits

theorem waiting_addProcess {p : Process} (waiting : (s.addProcess p).Waiting code) : s.Waiting code :=
  waiting.mono (addProcess_current s p) fun _ _ => addProcess_waitsAt p

theorem waiting_markDead {exitCode : Int} (waiting : (s.markDead exitCode).Waiting code) : s.Waiting code := by
  unfold markDead at waiting
  split at waiting
  · exact waiting
  · exact waiting_modifyActive (waiting_wakeParent waiting).2

theorem activeWaits_markDead (exitCode : Int) : (s.markDead exitCode).activeWaits = none := by
  rw [Option.eq_none_iff_forall_ne_some]
  intro code active
  obtain ⟨slot, current, waits⟩ := activeWaits_eq_some_iff.mp active
  rw [markDead_current] at current
  unfold markDead getActive at waits
  rw [current] at waits
  dsimp only at waits
  split at waits
  · rename_i absent
    rw [waitsAt, absent] at waits
    cases waits
  · rename_i p there
    have dead := (wakeParent_waitsAt _ waits).2
    rw [waitsAt, modifyActive, current] at dead
    dsimp only at dead
    rw [processes_modify, there] at dead
    simp [Process.waitsFor] at dead

/-- **Whom `Schedule` leaves waiting**: those who waited, and the process that it interrupts, if that
waits and another is `READY`. -/
theorem schedule_waiting_iff (esp : Nat) : (s.schedule esp).2.Waiting code ↔
    s.Waiting code ∨ (s.activeWaits = some code ∧ ∃ other, s.stateAt other = some .ready) := by
  constructor
  · rintro ⟨slot, away, waits⟩
    rw [schedule_waitsAt] at waits
    by_cases active : s.current = some slot
    · refine .inr ⟨activeWaits_eq_some_iff.mpr ⟨slot, active, waits⟩, ?_⟩
      cases picked : (s.save esp).pick with
      | none => exact absurd ((schedule_current_none picked).trans active) away
      | some index =>
        rw [save_eq_self esp (wasRunning_of_waitsAt active waits)] at picked
        exact ⟨index, pick_isReady picked⟩
    · exact .inl ⟨slot, active, waits⟩
  · have stays {slot index : Nat} (waits : s.waitsAt slot = some code)
        (picked : (s.save esp).pick = some index) : (s.schedule esp).2.Waiting code := by
      refine ⟨slot, fun same => ?_, (schedule_waitsAt esp).trans waits⟩
      rw [schedule_current_some picked] at same
      cases same
      have blocked := stateAt_of_waitsAt ((save_waitsAt esp).trans waits)
      rw [pick_isReady picked] at blocked
      cases blocked
    rintro (⟨slot, away, waits⟩ | ⟨active, other, ready⟩)
    · cases picked : (s.save esp).pick with
      | none =>
        exact ⟨slot, by rwa [schedule_current_none picked], (schedule_waitsAt esp).trans waits⟩
      | some index => exact stays waits picked
    · obtain ⟨slot, current, waits⟩ := activeWaits_eq_some_iff.mp active
      have inTable : s.InTable := by
        intro index held
        cases current.symm.trans held
        obtain ⟨p, there, -⟩ := Option.map_eq_some_iff.mp (stateAt_of_waitsAt waits)
        exact (List.getElem?_eq_some_iff.mp there).1
      obtain ⟨i, -, -, -, -, picked⟩ := pick_scan inTable ready
      rw [← save_eq_self esp (wasRunning_of_waitsAt current waits)] at picked
      exact stays waits picked

end Scheduler

/-! ### The machine -/

/-- The process table, and where the four events are left. -/
structure Machine where
  scheduler : Scheduler
  terminal : Terminal
  keys : KeyboardBuffer
  udp : RxSlot
  tcpRx : RxSlot
  tcp : TCPSocket

/-- The handlers, and the stores that system calls of the active process make. -/
inductive MachineEvent
  /-- The timer interrupt: `Schedule(esp)`. -/
  | tick (esp : Nat)
  /-- A key that the desktop passes to its terminal. -/
  | key (c : UInt8)
  /-- A key in text mode, which goes to the keyboard buffer at once. -/
  | textKey (c : UInt8)
  /-- `SyscallUDPSocket::OnReceive`. -/
  | udp (data : List UInt8)
  /-- `TCPSocket::HandleIPv4Payload` -/
  | tcp (payload : Storage) (size : Nat)
  /-- `p->state = PROCESS_BLOCKED`. -/
  | block
  /-- `p->state = PROCESS_RUNNING`. -/
  | run
  /-- A store to `p->wait_pid`. -/
  | waitFor (code : Int)
  /-- The copy loop of `sys_read`. -/
  | read (n : Nat)
  /-- The end of `sys_net_recv_udp`: `udp_rx_ready = false; udp_rx_len = 0`. -/
  | takeUdp
  /-- The end of `sys_net_tcp_recv`. -/
  | takeTcp
  /-- `Connect`, with which `sys_net_tcp_connect` begins. -/
  | connect (dstIP : IPv4Address) (dstPort : Nat)
  | send (data : List UInt8)
  | close
  /-- `sys_set_raw_input`. -/
  | setRaw (enabled : Bool)
  | exit (code : Int) (esp : Nat)
  | add (p : Process)

/-- The buffers that a list of effects hands to `OnReceive`. -/
def buffersReceived : List TcpEffect → List (List UInt8)
  | [] => []
  | .onReceive data :: rest => data :: buffersReceived rest
  | _ :: rest => buffersReceived rest

theorem isEmpty_of_readLoop (n : Nat) {keys : KeyboardBuffer}
    (some : (readLoop n keys).2.isEmpty = false) : keys.isEmpty = false := by
  rw [← Bool.not_eq_true, Ring.isEmpty_iff] at some ⊢
  intro empty
  have all := (readLoop_spec n keys).2
  rw [empty] at all
  exact some (List.append_eq_nil_iff.mp all).2

namespace Machine

/-- The state in which the kernel starts, with the TCP socket at `localPort`. -/
def boot (localPort : Nat) : Machine where
  scheduler := .init
  terminal := .new
  keys := .init
  udp := .empty
  tcpRx := .empty
  tcp := .new localPort

def step (m : Machine) : MachineEvent → Machine
  | .tick esp => { m with scheduler := (m.scheduler.schedule esp).2 }
  | .key c =>
    let press := m.terminal.onKeyPress m.keys c
    { m with
      terminal := press.terminal
      keys := press.keys
      scheduler := if press.woken then m.scheduler.wakeParent (-2) else m.scheduler }
  | .textKey c => { m with keys := m.keys.enqueue c, scheduler := m.scheduler.wakeParent (-2) }
  | .udp data => { m with udp := m.udp.onReceive data }
  | .tcp payload size =>
    let handled := m.tcp.handleIPv4Payload payload size
    { m with
      tcp := handled.1
      tcpRx := (buffersReceived handled.2).foldl RxSlot.onReceive m.tcpRx }
  | .block => { m with scheduler := m.scheduler.modifyActive fun p => { p with state := .blocked } }
  | .run => { m with scheduler := m.scheduler.modifyActive fun p => { p with state := .running } }
  | .waitFor code =>
    { m with scheduler := m.scheduler.modifyActive fun p => { p with waitPid := code } }
  | .read n => { m with keys := (readLoop n m.keys).2 }
  | .takeUdp => { m with udp := { m.udp with ready := false, len := 0 } }
  | .takeTcp => { m with tcpRx := { m.tcpRx with ready := false, len := 0 } }
  | .connect dstIP dstPort => { m with tcp := (m.tcp.connect dstIP dstPort).2.1 }
  | .send data => { m with tcp := (m.tcp.send data).2.1 }
  | .close => { m with tcp := m.tcp.close.1 }
  | .setRaw enabled => { m with terminal := { m.terminal with rawInputMode := enabled } }
  | .exit code esp => { m with scheduler := ((m.scheduler.markDead code).schedule esp).2 }
  | .add p => { m with scheduler := m.scheduler.addProcess p }

/-- The event that a `wait_pid` stands for has happened. -/
def Happened (m : Machine) (code : Int) : Prop :=
  (code = -2 ∧ m.keys.isEmpty = false) ∨ (code = -3 ∧ m.udp.ready = true) ∨
    (code = -4 ∧ m.tcp.state = .established) ∨ (code = -5 ∧ m.tcpRx.ready = true)

/-- No process but the current one is `BLOCKED` on an event that has happened. -/
def NoLostWakeUp (m : Machine) : Prop := ∀ code, m.Happened code → ¬ m.scheduler.Waiting code

/-- A tick takes the CPU from no process whose event has happened, or there is none to give it to, and
no process waits at another's time for what a packet brings. -/
def Keeps (m : Machine) : MachineEvent → Prop
  | .tick _ => ∀ code, m.Happened code → m.scheduler.activeWaits = some code →
      ∀ other, m.scheduler.stateAt other ≠ some .ready
  | .udp _ => ¬ m.scheduler.Waiting (-3)
  | .tcp payload size =>
    ((m.tcp.handleIPv4Payload payload size).1.state = .established → ¬ m.scheduler.Waiting (-4)) ∧
    (buffersReceived (m.tcp.handleIPv4Payload payload size).2 ≠ [] → ¬ m.scheduler.Waiting (-5))
  | _ => True

variable {m : Machine}

/-! ### One event -/

theorem NoLostWakeUp.mono (clean : m.NoLostWakeUp) {n : Machine}
    (happened : ∀ code, n.Happened code → m.Happened code)
    (waiting : ∀ code, n.scheduler.Waiting code → m.scheduler.Waiting code) : n.NoLostWakeUp :=
  fun code now waits => clean code (happened code now) (waiting code waits)

theorem NoLostWakeUp.wakeParent (clean : m.NoLostWakeUp) {n : Machine} {pid : Int}
    (woken : n.scheduler = m.scheduler.wakeParent pid)
    (happened : ∀ code, n.Happened code → code = pid ∨ m.Happened code) : n.NoLostWakeUp := by
  intro code now waits
  rw [woken] at waits
  obtain ⟨other, waits⟩ := Scheduler.waiting_wakeParent waits
  rcases happened code now with same | before
  · exact other same
  · exact clean code before waits

theorem NoLostWakeUp.silent_iff (clean : m.NoLostWakeUp) (n : Machine)
    (same : n.scheduler = m.scheduler) {New : Int → Prop}
    (brings : ∀ code, New code → n.Happened code)
    (happened : ∀ code, n.Happened code → New code ∨ m.Happened code) :
    n.NoLostWakeUp ↔ ∀ code, New code → ¬ m.scheduler.Waiting code := by
  unfold NoLostWakeUp
  rw [same]
  constructor
  · exact fun all code new => all code (brings code new)
  · intro silent code now
    rcases happened code now with new | before
    · exact silent code new
    · exact clean code before

theorem noLostWakeUp_tick (clean : m.NoLostWakeUp) (esp : Nat) :
    (m.step (.tick esp)).NoLostWakeUp ↔ m.Keeps (.tick esp) := by
  refine forall_congr' fun code => imp_congr_right fun happened => ?_
  rw [step, Scheduler.schedule_waiting_iff, or_iff_right (clean code happened), not_and, not_exists]

theorem noLostWakeUp_key (clean : m.NoLostWakeUp) (c : UInt8) : (m.step (.key c)).NoLostWakeUp := by
  cases woken : (m.terminal.onKeyPress m.keys c).woken with
  | true =>
    refine clean.wakeParent (if_pos woken) fun code happened => ?_
    exact happened.imp And.left .inr
  | false =>
    refine clean.mono (fun code happened => ?_) fun code waits => ?_
    · rwa [Happened, step, Terminal.onKeyPress_woken woken] at happened
    · rwa [step, woken] at waits

theorem noLostWakeUp_udp (clean : m.NoLostWakeUp) (data : List UInt8) :
    (m.step (.udp data)).NoLostWakeUp ↔ m.Keeps (.udp data) := by
  have silent : (m.step (.udp data)).NoLostWakeUp ↔ ∀ code, code = -3 → ¬ m.scheduler.Waiting code := by
    refine clean.silent_iff (m.step (.udp data)) rfl ?_ ?_
    · exact fun code new => .inr (.inl ⟨new, rfl⟩)
    · rintro code (keys | udp | rest)
      · exact .inr (.inl keys)
      · exact .inl udp.1
      · exact .inr (.inr (.inr rest))
  rw [silent, forall_eq]
  rfl

theorem foldl_onReceive_ready (buffers : List (List UInt8)) (slot : RxSlot) :
    (buffers.foldl RxSlot.onReceive slot).ready = true ↔ buffers ≠ [] ∨ slot.ready = true := by
  rcases buffers.eq_nil_or_concat with rfl | ⟨first, last, rfl⟩
  · simp
  · rw [List.concat_eq_append, List.foldl_append]
    simp [RxSlot.onReceive]

theorem noLostWakeUp_tcp (clean : m.NoLostWakeUp) (payload : Storage) (size : Nat) :
    (m.step (.tcp payload size)).NoLostWakeUp ↔ m.Keeps (.tcp payload size) := by
  have silent : (m.step (.tcp payload size)).NoLostWakeUp ↔ ∀ code,
      (code = -4 ∧ (m.tcp.handleIPv4Payload payload size).1.state = .established) ∨
        (code = -5 ∧ buffersReceived (m.tcp.handleIPv4Payload payload size).2 ≠ []) →
      ¬ m.scheduler.Waiting code := by
    refine clean.silent_iff (m.step (.tcp payload size)) rfl ?_ ?_
    · rintro code (established | ⟨rfl, buffers⟩)
      · exact .inr (.inr (.inl established))
      · exact .inr (.inr (.inr ⟨rfl, (foldl_onReceive_ready _ _).mpr (.inl buffers)⟩))
    · rintro code (keys | udp | established | ⟨rfl, ready⟩)
      · exact .inr (.inl keys)
      · exact .inr (.inr (.inl udp))
      · exact .inl (.inl established)
      · rcases (foldl_onReceive_ready _ _).mp ready with buffers | before
        · exact .inl (.inr ⟨rfl, buffers⟩)
        · exact .inr (.inr (.inr (.inr ⟨rfl, before⟩)))
  rw [silent]
  constructor
  · exact fun all => ⟨fun state => all _ (.inl ⟨rfl, state⟩), fun some => all _ (.inr ⟨rfl, some⟩)⟩
  · rintro ⟨state, some⟩ code (⟨rfl, established⟩ | ⟨rfl, buffers⟩)
    · exact state established
    · exact some buffers

theorem happened_of_tcp {n : Machine} (keys : n.keys = m.keys) (udp : n.udp = m.udp)
    (tcpRx : n.tcpRx = m.tcpRx) (state : n.tcp.state = .established → m.tcp.state = .established)
    (code : Int) (happened : n.Happened code) : m.Happened code := by
  rw [Happened, keys, udp, tcpRx] at happened
  exact happened.imp_right (Or.imp_right (Or.imp_left (And.imp_right state)))

theorem noLostWakeUp_exit (clean : m.NoLostWakeUp) (code : Int) (esp : Nat) :
    (m.step (.exit code esp)).NoLostWakeUp := by
  refine clean.mono (fun _ => id) fun pid waits => ?_
  rcases (Scheduler.schedule_waiting_iff esp).mp waits with waits | ⟨active, -⟩
  · exact Scheduler.waiting_markDead waits
  · rw [Scheduler.activeWaits_markDead] at active
    cases active

/-- **One event** leaves no process behind if and only if it keeps to `Keeps`. -/
theorem noLostWakeUp_step (clean : m.NoLostWakeUp) (event : MachineEvent) :
    (m.step event).NoLostWakeUp ↔ m.Keeps event := by
  cases event with
  | tick esp => exact noLostWakeUp_tick clean esp
  | udp data => exact noLostWakeUp_udp clean data
  | tcp payload size => exact noLostWakeUp_tcp clean payload size
  | key c => exact iff_of_true (noLostWakeUp_key clean c) trivial
  | textKey c =>
    refine iff_of_true (clean.wakeParent rfl fun code happened => ?_) trivial
    exact happened.imp And.left .inr
  | block | run | waitFor =>
    exact iff_of_true (clean.mono (fun _ => id) fun _ => Scheduler.waiting_modifyActive) trivial
  | read n =>
    refine iff_of_true (clean.mono (fun code happened => ?_) fun _ => id) trivial
    exact happened.imp_left (And.imp_right (isEmpty_of_readLoop n))
  | takeUdp =>
    refine iff_of_true (clean.mono (fun code happened => ?_) fun _ => id) trivial
    exact happened.imp_right (Or.imp_left (And.imp_right nofun))
  | takeTcp =>
    refine iff_of_true (clean.mono (fun code happened => ?_) fun _ => id) trivial
    exact happened.imp_right (Or.imp_right (Or.imp_right (And.imp_right nofun)))
  | connect dstIP dstPort =>
    refine iff_of_true (clean.mono (happened_of_tcp rfl rfl rfl ?_) fun _ => id) trivial
    simp [step, TCPSocket.connect, TCPSocket.sendSegment]
  | send data =>
    refine iff_of_true (clean.mono (happened_of_tcp rfl rfl rfl ?_) fun _ => id) trivial
    dsimp only [step, TCPSocket.send]
    split <;> simp [TCPSocket.sendSegment]
  | close =>
    refine iff_of_true (clean.mono (happened_of_tcp rfl rfl rfl ?_) fun _ => id) trivial
    dsimp only [step, TCPSocket.close]
    split <;> simp [TCPSocket.sendSegment]
  | setRaw enabled => exact iff_of_true clean trivial
  | exit code esp => exact iff_of_true (noLostWakeUp_exit clean code esp) trivial
  | add p =>
    exact iff_of_true (clean.mono (fun _ => id) fun _ => Scheduler.waiting_addProcess) trivial

/-! ### Runs -/

theorem boot_noLostWakeUp (localPort : Nat) : (boot localPort).NoLostWakeUp := by
  rintro code - ⟨slot, -, waits⟩
  cases waits

/-- **No wake-up is lost** in a run from the start of the kernel if and only if no tick takes the CPU
from a process whose event has happened while another is `READY`, no datagram comes while a process
that is not the current one waits for it, no segment connects the socket while such a process waits for
the connection, and none brings data while one waits for data. -/
theorem no_lost_wake_up_iff (localPort : Nat) (events : List MachineEvent) :
    Always step (fun m event => (m.step event).NoLostWakeUp) (boot localPort) events ↔
      Always step Keeps (boot localPort) events :=
  Always.iff_of_invariant NoLostWakeUp (fun _ event clean => noLostWakeUp_step clean event)
    (fun _ event clean => (noLostWakeUp_step clean event).mpr) (boot_noLostWakeUp localPort)

/-- The first of two processes waits for a datagram, a tick gives the CPU to the second, and the
datagram comes: the first stays `BLOCKED`, with `udp_rx_ready` set. -/
theorem datagram_wakes_nobody : ¬ ∀ localPort events,
    Always step (fun m event => (m.step event).NoLostWakeUp) (boot localPort) events := by
  intro never
  have run := never 80 [.add (Scheduler.freshProcess 1 8096), .add (Scheduler.freshProcess 2 16192),
    .tick 0, .block, .waitFor (-3), .tick 8000, .udp [104, 105]]
  obtain ⟨-, -, -, -, -, -, last, -⟩ := run
  exact last (-3) (.inr (.inl ⟨rfl, rfl⟩)) ⟨0, by decide, by decide⟩

end Machine

end LaylaOS.Kernel
