/-
**Sequences of calls.**

A file system sees a sequence of `WriteFile`, `CreateFile`, `DeleteFile` and `MakeDir` calls.
`Image.Effect` is what a call may do to a volume, `call_effect` says that the driver always returns
and does it, and `run_keeps` is the invariant rule for runs on disks: what the effects keep, a run
keeps.
-/

import LaylaOS.Lib.Steps
import LaylaOS.Fs.Outcome

namespace LaylaOS.Fs

open LaylaOS.Lib

/-- A call that changes the volume; `size` is 32 bits wide. -/
inductive Call
  | writeFile (path : CString) (data : List UInt8) (word : data.length < 2 ^ 32)
  | createFile (path : CString)
  | deleteFile (path : CString)
  | makeDir (path : CString)

def Call.path : Call → CString
  | .writeFile path _ _ => path
  | .createFile path => path
  | .deleteFile path => path
  | .makeDir path => path

def Volume.call (v : Volume) (d : Disk) : Call → Option (Disk × Bool)
  | .writeFile path data _ => v.writeFile d path data
  | .createFile path => v.createFile d path
  | .deleteFile path => v.deleteFile d path
  | .makeDir path => v.makeDir d path

/-- What a call may do to a sound volume, with its result. -/
def Image.Effect (I : Image) : Call → Image → Bool → Prop
  | .writeFile path data _ => Write I (parentComponents path) data
  | .createFile path => Write I (parentComponents path) []
  | .deleteFile path => Delete I (parentComponents path)
  | .makeDir path => Make I (parentComponents path)

namespace Volume

variable {v : Volume} {d : Disk}

theorem call_effect {I : Image} (g : v.Geometry) (r : v.Represents d I) (sound : I.Sound) (call : Call) :
    ∃ d' I' b, v.call d call = some (d', b) ∧ v.Represents d' I' ∧ I.Effect call I' b := by
  cases call with
  | writeFile path data word => exact writeFile_spec g r sound path word
  | createFile path => exact writeFile_spec g r sound path (by decide)
  | deleteFile path => exact deleteFile_spec g r sound path
  | makeDir path => exact makeDir_spec g r sound path

/-- **The invariant rule for runs**: `P` is kept by the effects of the calls that meet `Ok`. -/
theorem run_keeps {P : Image → Prop} (Ok : Image → Call → Bool → Prop) (g : v.Geometry)
    (sound : ∀ I, P I → I.Sound)
    (keeps : ∀ I call I' b, P I → Ok I call b → I.Effect call I' b → P I')
    {calls : List Call} {d' : Disk}
    (run : Steps (fun d call d' => ∃ b, v.call d call = some (d', b) ∧ Ok (v.image d) call b) d calls d')
    (synced : v.Synced d) (start : P (v.image d)) : v.Synced d' ∧ P (v.image d') := by
  have step : ∀ d call d', v.Synced d ∧ P (v.image d) →
      (∃ b, v.call d call = some (d', b) ∧ Ok (v.image d) call b) →
      v.Synced d' ∧ P (v.image d') := by
    rintro d call d' ⟨synced, before⟩ ⟨b, ran, ok⟩
    obtain ⟨d₁, I', b', ran', ⟨synced', same⟩, effect⟩ := call_effect g ⟨synced, rfl⟩ (sound _ before) call
    rw [ran] at ran'
    cases ran'
    exact ⟨synced', same ▸ keeps _ call _ b before ok effect⟩
  exact run.invariant step ⟨synced, start⟩

/-- The disk a call leaves. -/
def after (v : Volume) (d : Disk) (call : Call) : Disk := ((v.call d call).getD (d, false)).1

theorem call_after {call : Call} {b : Bool} (ran : (v.call d call).map Prod.snd = some b) :
    v.call d call = some (v.after d call, b) := by
  obtain ⟨⟨d', b'⟩, same, rfl⟩ := Option.map_eq_some_iff.mp ran
  rw [after, same]
  rfl

end Volume

end LaylaOS.Fs
