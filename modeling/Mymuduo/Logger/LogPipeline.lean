import Mymuduo.Logger.Rolling
import Mymuduo.Logger.StopLogging

/-! The log from the call of `append` to the files.  The back end of an `AsyncLogging` has a `LogFile`
of its own, to which it appends the buffers that it takes, and which it flushes after each round and
when it ends. -/

namespace Mymuduo

open Lib

/-! ### Files that blocks are appended to -/

namespace LogFile

variable {zones : Zones} {w u : LogWorld} {appended data : Bytes} {g : FileUtil}

/-- A roll leaves the files as they are, and may add an empty one. -/
theorem rollFile_contents (zones : Zones) (w : LogWorld) (now : Int) :
    (rollFile zones w now).1.disk.map DiskFile.content = w.disk.map DiskFile.content ∨
      (rollFile zones w now).1.disk.map DiskFile.content = w.disk.map DiskFile.content ++ [[]] := by
  unfold rollFile Disk.fopen
  dsimp only
  split
  · split
    · exact .inl rfl
    · exact .inr List.map_append
  · exact .inl rfl

/-- What is written goes to the end of the last file. -/
theorem Sound.appendFile_contents (h : Sound zones w appended)
    (hu : LogFile.appendFile w data = .ok (u, g)) :
    ∃ older last, w.disk.map DiskFile.content = older ++ [last] ∧
      u.disk.map DiskFile.content = older ++ [last ++ data] := by
  obtain ⟨older, d, f, hdisk, hfile, hname, -, -⟩ := h.current
  obtain ⟨stderr, pieces, happend, hpieces⟩ := f.append_complete data fun _ => emptyCString
  have hnames := h.names
  rw [hdisk, List.map_append, List.map_singleton, List.nodup_append] at hnames
  have hwrite : w.disk.write f.fileName data = older ++ [{ d with content := d.content ++ data }] := by
    rw [hdisk, ← hname]
    refine Disk.write_last ?_ data
    intro e he
    exact hnames.2.2 e.name (List.mem_map_of_mem he) d.name (List.mem_singleton_self _)
  rw [LogFile.appendFile, hfile] at hu
  dsimp only at hu
  rw [happend] at hu
  dsimp only at hu
  rw [List.drop_left, hpieces, hwrite] at hu
  cases hu
  exact ⟨older.map DiskFile.content, d.content, by rw [hdisk, List.map_append]; rfl,
    by rw [List.map_append]; rfl⟩

/-- A block that is appended as a whole stays in one file. -/
theorem Sound.append_packs {blocks : List Bytes} {d₁ d₂ : Nat} (h : Sound zones w appended)
    (hpacks : Packs (w.disk.map DiskFile.content) blocks)
    (hu : appendUnLocked zones w data d₁ d₂ = .ok u) :
    Packs (u.disk.map DiskFile.content) (blocks ++ [data]) := by
  obtain ⟨⟨v, g⟩, hv, hu⟩ := bind_eq_ok.mp hu
  obtain ⟨older, last, hold, hnew⟩ := h.appendFile_contents hv
  rw [hold] at hpacks
  have hwritten : Packs (v.disk.map DiskFile.content) (blocks ++ [data]) := by
    rw [hnew]
    exact hpacks.extend
  have hroll : ∀ {x : LogWorld} (now : Int),
      Packs (x.disk.map DiskFile.content) (blocks ++ [data]) →
      Packs ((rollFile zones x now).1.disk.map DiskFile.content) (blocks ++ [data]) := by
    intro x now hx
    rcases rollFile_contents zones x now with hsame | hmore
    · rw [hsame]
      exact hx
    · rw [hmore]
      exact hx.push_nil
  dsimp only at hu
  split at hu
  · cases hu
    exact hroll _ hwritten
  · split at hu
    · split at hu
      · cases hu
        exact hroll _ hwritten
      · split at hu
        · unfold flush at hu
          split at hu <;> cases hu
          exact hwritten
        · cases hu
          exact hwritten
    · cases hu
      exact hwritten

end LogFile

/-! ### The back end with its file -/

/-- What goes wrong in the front end, or in the file. -/
inductive PipelineFault
  | front (f : Fault)
  | output (f : LogFault)
  deriving DecidableEq, Repr

/-- An `AsyncLogging` with `output`, the file that is local to `threadFunc`.  `flushed` are the files
as they were when `threadFunc` flushed `output` for the last time. -/
structure LogPipeline where
  front : AsyncLogging
  output : Option LogWorld
  flushed : Disk

/-- A step, and the seconds that go by between the clock readings of `output`. -/
structure PipelineStep where
  call : LogStep
  d₁ : Nat
  d₂ : Nat

namespace LogPipeline

def new : LogPipeline where
  front := .new
  output := none
  flushed := []

/-- The files on the disk. -/
def disk (p : LogPipeline) : Disk :=
  match p.output with
  | none => []
  | some w => w.disk

section

variable (zones : Zones) (basename : Bytes) (rollSize start : Int)

/-- `LogFile output(basename_, rollSize_, false)`, with the default intervals, in the second
`start`. -/
def openOutput : LogWorld := LogFile.new zones basename rollSize 3 1024 start

/-- What the next step of `threadFunc` does with `output`. -/
def advanceOutput (p : LogPipeline) (d₁ d₂ : Nat) : Except LogFault LogPipeline :=
  match p.output, p.front.place with
  | none, .entering => .ok { p with output := some (openOutput zones basename rollSize start) }
  | some w, .writing (buffer :: _) => do
    let w ← LogFile.appendUnLocked zones w buffer.content d₁ d₂
    return { p with output := some w }
  | some w, .writing [] => do
    let w ← LogFile.flush w
    return { p with output := some w, flushed := w.disk }
  | some w, .testing =>
    if p.front.running then .ok p
    else do
      let w ← LogFile.flush w
      return { p with output := some w, flushed := w.disk }
  | _, _ => .ok p

def step (p : LogPipeline) (a : PipelineStep) : Except PipelineFault LogPipeline := do
  let front ← (p.front.step a.call).mapError .front
  let p ←
    match a.call with
    | .advance => (advanceOutput zones basename rollSize start p a.d₁ a.d₂).mapError .output
    | _ => .ok p
  return { p with front := front }

end

/-- The bytes of each buffer that is not written yet. -/
def waiting (p : LogPipeline) : List Bytes :=
  (p.front.notWritten ++ p.front.buffers ++ [p.front.currentBuffer]).map BufferPtr.content

/-- `output` is there from the first step of `threadFunc` on, holds what has been written to it, and
has been flushed when the back end has ended. -/
def OutputSound (zones : Zones) (p : LogPipeline) : Prop :=
  match p.output with
  | none => (p.front.place = .notStarted ∨ p.front.place = .entering) ∧ p.front.written = []
  | some w =>
    p.front.place ≠ .notStarted ∧ p.front.place ≠ .entering ∧
      LogFile.Sound zones w p.front.written.flatten ∧ LogFile.Small w ∧
      Packs (w.disk.map DiskFile.content) p.front.written

structure Sound (zones : Zones) (p : LogPipeline) : Prop where
  front : p.front.Sound
  output : OutputSound zones p
  flushed : p.front.place = .ended → p.flushed = p.disk

variable {zones : Zones} {basename : Bytes} {rollSize start : Int} {p q : LogPipeline}

theorem sound_new : Sound zones new where
  front := AsyncLogging.sound_new
  output := ⟨.inl rfl, rfl⟩
  flushed := nofun

/-- The calls that are not steps of the back end write nothing, and start the back end at most. -/
theorem call_frame {s t : AsyncLogging} {a : LogStep} (ha : a ≠ .advance) (h : s.StepCase a t) :
    t.written = s.written ∧
      (t.place = s.place ∨ s.place = .notStarted ∧ t.place = .entering) := by
  cases h with
  | stay => exact ⟨rfl, .inl rfl⟩
  | appended | appendedNext | stopped | joined => exact ⟨rfl, .inl rfl⟩
  | started hplace => exact ⟨rfl, .inr ⟨hplace, rfl⟩⟩
  | entered | running | notRunning | waited | swapped | wrote | recycled => exact absurd rfl ha

theorem Sound.call {t : AsyncLogging} {a : LogStep} (h : Sound zones p) (ha : a ≠ .advance)
    (ht : p.front.StepCase a t) : Sound zones { p with front := t } := by
  obtain ⟨hwritten, hplace⟩ := call_frame ha ht
  have houtput := h.output
  refine ⟨h.front.step ht, ?_, ?_⟩
  · unfold OutputSound at houtput ⊢
    dsimp only
    split at houtput
    · rw [hwritten]
      refine ⟨?_, houtput.2⟩
      rcases hplace with hsame | ⟨-, hentering⟩
      · rw [hsame]
        exact houtput.1
      · exact .inr hentering
    · rw [hwritten]
      rcases hplace with hsame | ⟨hnot, -⟩
      · rw [hsame]
        exact houtput
      · exact absurd hnot houtput.1
  · intro hended
    rcases hplace with hsame | ⟨-, hentering⟩
    · exact h.flushed (hsame.symm.trans hended)
    · exact absurd (hentering.symm.trans hended) (by simp)

theorem flush_sound {w : LogWorld} {appended : Bytes} (h : LogFile.Sound zones w appended) :
    LogFile.flush w = .ok w := by
  obtain ⟨older, d, f, hcurrent⟩ := h.current
  rw [LogFile.flush, hcurrent.file]

section

variable (basename : Bytes) (rollSize : Int)

theorem openOutput_sound (hstart : 0 < start) :
    LogFile.Sound zones (openOutput zones basename rollSize start) [] ∧
      LogFile.Small (openOutput zones basename rollSize start) ∧
      (openOutput zones basename rollSize start).disk.map DiskFile.content = [[]] := by
  obtain ⟨hsound, hsmall⟩ :=
    LogFile.sound_new zones basename rollSize 3 (by decide : (1 : Int) ≤ 1024) hstart
  refine ⟨hsound, hsmall, ?_⟩
  unfold openOutput LogFile.new LogFile.rollFile Disk.fopen
  dsimp only
  rw [if_pos hstart]
  rfl

/-- A step of the back end. -/
theorem Sound.advance (d₁ d₂ : Nat) (hstart : 0 < start)
    (hzones : ∀ s u, s < u → localtime (zones s) s ≠ localtime (zones u) u)
    {t : AsyncLogging} (h : Sound zones p) (ht : p.front.step .advance = .ok t) :
    ∃ q, advanceOutput zones basename rollSize start p d₁ d₂ = .ok q ∧
      OutputSound zones { q with front := t } ∧ (t.place = .ended → q.flushed = q.disk) := by
  have hadvance : p.front.advance = .ok t := ht
  have houtput := h.output
  unfold OutputSound at houtput
  unfold advanceOutput
  cases hw : p.output with
  | none =>
    rw [hw] at houtput
    obtain ⟨hplace, hwritten⟩ := houtput
    rcases hplace with hplace | hplace
    · rw [AsyncLogging.advance, hplace] at hadvance
      cases hadvance
      rw [hplace]
      refine ⟨p, rfl, ?_, nofun⟩
      rw [OutputSound, hw]
      exact ⟨.inl hplace, hwritten⟩
    · rw [AsyncLogging.advance, hplace] at hadvance
      cases hadvance
      rw [hplace]
      obtain ⟨hsound, hsmall, hcontents⟩ : LogFile.Sound zones _ [] ∧ _ :=
        openOutput_sound basename rollSize hstart
      refine ⟨_, rfl, ⟨nofun, nofun, ?_, hsmall, ?_⟩, nofun⟩
      · dsimp only
        rw [hwritten]
        exact hsound
      · dsimp only
        rw [hwritten, hcontents]
        exact .single
  | some w =>
    rw [hw] at houtput
    obtain ⟨hstarted, hentered, hsound, hsmall, hpacks⟩ := houtput
    cases hplace : p.front.place with
    | notStarted => exact absurd hplace hstarted
    | entering => exact absurd hplace hentered
    | testing =>
      rw [AsyncLogging.advance, hplace] at hadvance
      cases hadvance
      dsimp only
      split
      · refine ⟨p, rfl, ?_, nofun⟩
        rw [OutputSound, hw]
        exact ⟨nofun, nofun, hsound, hsmall, hpacks⟩
      · rw [flush_sound hsound]
        exact ⟨_, rfl, ⟨nofun, nofun, hsound, hsmall, hpacks⟩, fun _ => rfl⟩
    | locking =>
      rw [AsyncLogging.advance, hplace] at hadvance
      refine ⟨p, rfl, ?_, ?_⟩ <;> dsimp only at hadvance <;> split at hadvance <;> cases hadvance
      · rw [OutputSound, hw]
        exact ⟨nofun, nofun, hsound, hsmall, hpacks⟩
      · rw [AsyncLogging.swapBuffers_eq h.front.supplied (.inl hplace), OutputSound, hw]
        exact ⟨nofun, nofun, hsound, hsmall, hpacks⟩
      · nofun
      · rw [AsyncLogging.swapBuffers_eq h.front.supplied (.inl hplace)]
        nofun
    | waiting =>
      rw [AsyncLogging.advance, hplace] at hadvance
      cases hadvance
      rw [AsyncLogging.swapBuffers_eq h.front.supplied (.inr hplace)]
      refine ⟨p, rfl, ?_, nofun⟩
      rw [OutputSound, hw]
      exact ⟨nofun, nofun, hsound, hsmall, hpacks⟩
    | writing rest =>
      rw [AsyncLogging.advance, hplace] at hadvance
      cases rest with
      | nil =>
        rw [AsyncLogging.recycle_spec h.front.backEnd hplace] at hadvance
        cases hadvance
        dsimp only
        rw [flush_sound hsound]
        exact ⟨_, rfl, ⟨nofun, nofun, hsound, hsmall, hpacks⟩, nofun⟩
      | cons buffer rest =>
        obtain ⟨b, hb, hadvance⟩ := bind_eq_ok.mp hadvance
        cases buffer with
        | none => cases hb
        | some buffer =>
          cases hb
          cases hadvance
          obtain ⟨u, hu, hsound', hsmall'⟩ := LogFile.sound_call hsound hsmall
            (hsound.freshName hzones (.append b.content d₁ d₂))
          have happend : LogFile.appendUnLocked zones w b.content d₁ d₂ = .ok u := hu
          have hpacks' := hsound.append_packs hpacks happend
          dsimp only
          rw [BufferPtr.content_some, happend, ok_bind]
          refine ⟨_, rfl, ⟨nofun, nofun, ?_, hsmall', hpacks'⟩, nofun⟩
          rw [List.flatten_append, List.flatten_singleton]
          exact hsound'
    | ended =>
      rw [AsyncLogging.advance, hplace] at hadvance
      cases hadvance
      refine ⟨p, rfl, ?_, fun _ => h.flushed hplace⟩
      rw [OutputSound, hw]
      exact ⟨hstarted, hentered, hsound, hsmall, hpacks⟩

theorem Sound.step (hstart : 0 < start)
    (hzones : ∀ s u, s < u → localtime (zones s) s ≠ localtime (zones u) u) (h : Sound zones p)
    (a : PipelineStep) :
    ∃ q, step zones basename rollSize start p a = .ok q ∧ Sound zones q ∧
      p.front.step a.call = .ok q.front := by
  obtain ⟨t, ht, hcase⟩ := AsyncLogging.step_cases h.front.supplied a.call
  have hfront : (p.front.step a.call).mapError PipelineFault.front = .ok t := by rw [ht]; rfl
  by_cases ha : a.call = .advance
  · rw [ha] at ht
    obtain ⟨q, hq, houtput, hflushed⟩ := h.advance basename rollSize a.d₁ a.d₂ hstart hzones ht
    refine ⟨{ q with front := t }, ?_, ⟨h.front.step hcase, houtput, hflushed⟩, ?_⟩
    · rw [LogPipeline.step, hfront, ok_bind, ha]
      dsimp only
      rw [hq]
      rfl
    · rw [ha]
      exact ht
  · refine ⟨{ p with front := t }, ?_, h.call ha hcase, ht⟩
    rw [LogPipeline.step, hfront, ok_bind]
    split
    · rename_i hadvance
      exact absurd hadvance ha
    · rfl

/-- What the threads do to the front end does not depend on the files. -/
theorem run_sound (hstart : 0 < start)
    (hzones : ∀ s u, s < u → localtime (zones s) s ≠ localtime (zones u) u) (h : Sound zones p)
    (steps : List PipelineStep) :
    ∃ q, run (step zones basename rollSize start) p steps = .ok q ∧ Sound zones q ∧
      run AsyncLogging.step p.front (steps.map PipelineStep.call) = .ok q.front := by
  induction steps generalizing p with
  | nil => exact ⟨p, rfl, h, rfl⟩
  | cons a steps ih =>
    obtain ⟨u, hu, hsound, hfront⟩ := h.step basename rollSize hstart hzones a
    obtain ⟨q, hq, hend, hrun⟩ := ih hsound
    exact ⟨q, run_cons_ok.mpr ⟨u, hu, hq⟩, hend, run_cons_ok.mpr ⟨u.front, hfront, hrun⟩⟩

/-- The files, followed by what waits, hold the messages. -/
theorem Sound.packs (h : Sound zones p) :
    Packs (p.disk.map DiskFile.content ++ p.waiting) p.front.appended := by
  have hblocks := h.front.packs
  have houtput := h.output
  unfold OutputSound at houtput
  unfold disk
  rw [AsyncLogging.blocks] at hblocks
  cases hw : p.output with
  | none =>
    rw [hw] at houtput
    rw [houtput.2] at hblocks
    exact hblocks
  | some w =>
    rw [hw] at houtput
    obtain ⟨first, later, heq, hfirst, hlater⟩ := hblocks.of_append
    rw [heq]
    exact (houtput.2.2.2.2.trans hfirst).append hlater

/-- In a zone in which no local time comes back, whatever the threads do and however long it takes:
nothing fails; the files on the disk, in the order of their creation, and then the buffers that are
not written hold the appended messages in the order of the calls, and no message is split between
two files; and if every message ends with a newline, so does every file that is not empty. -/
theorem files_hold_messages (hstart : 0 < start)
    (hzones : ∀ s u, s < u → localtime (zones s) s ≠ localtime (zones u) u)
    (steps : List PipelineStep) :
    ∃ p, run (step zones basename rollSize start) new steps = .ok p ∧
      p.disk.flatMap DiskFile.content ++ p.waiting.flatten = p.front.appended.flatten ∧
      Packs (p.disk.map DiskFile.content ++ p.waiting) p.front.appended ∧
      ((∀ m ∈ p.front.appended, m.getLast? = some 10) →
        ∀ d ∈ p.disk, d.content = [] ∨ d.content.getLast? = some 10) := by
  obtain ⟨p, hp, hsound, -⟩ := run_sound basename rollSize hstart hzones sound_new steps
  have hpacks := hsound.packs
  refine ⟨p, hp, ?_, hpacks, ?_⟩
  · have hflatten := hpacks.flatten_eq
    rw [List.flatten_append, ← List.flatMap_def] at hflatten
    exact hflatten
  · intro hlast d hd
    exact hpacks.getLast?_of_mem (List.mem_append_left _ (List.mem_map_of_mem hd)) hlast

theorem fixedZones_injective (s u : Int) (h : s < u) :
    localtime (LogFile.fixedZones s) s ≠ localtime (LogFile.fixedZones u) u :=
  fun heq => Int.ne_of_lt h (localtime_injective heq)

/-- The back end goes on by a step, and a second goes by before each clock reading. -/
def goesOn : PipelineStep := ⟨.advance, 1, 0⟩

/-- A line is appended and written, and then another one, with a roll after every buffer. -/
def twoLines : List PipelineStep :=
  [⟨.start, 0, 0⟩, goesOn, ⟨.append ⟨ofString "hi\n", by decide⟩, 0, 0⟩, goesOn, goesOn, goesOn, goesOn,
    ⟨.append ⟨ofString "ho\n", by decide⟩, 0, 0⟩, goesOn, goesOn, goesOn, goesOn, goesOn]

theorem files_hold_messages_two : ∃ p,
    run (step LogFile.fixedZones [97] 1 1) new twoLines = .ok p ∧
    p.disk.map DiskFile.content = [ofString "hi\n", ofString "ho\n", []] ∧
    Packs (p.disk.map DiskFile.content ++ p.waiting) p.front.appended := by
  obtain ⟨p, hp, -, hpacks, -⟩ :=
    files_hold_messages [97] 1 (by decide : (0 : Int) < 1) fixedZones_injective twoLines
  have heval : (run (step LogFile.fixedZones [97] 1 1) new twoLines).toOption.map
      (fun p => p.disk.map DiskFile.content) = some [ofString "hi\n", ofString "ho\n", []] := by
    decide +kernel
  rw [hp] at heval
  exact ⟨p, hp, Option.some.inj heval, hpacks⟩

end

/-- When `stop` has returned, `output` has been flushed since the last write to it; and the messages
whose `append` returned before `stop` was called are in the files if and only if at the call the back
end was between its test of `running_` and its swap, or the front end held no bytes. -/
theorem stop_flushes (hstart : 0 < start)
    (hzones : ∀ s u, s < u → localtime (zones s) s ≠ localtime (zones u) u)
    {steps : List PipelineStep} (hp : run (step zones basename rollSize start) new steps = .ok p)
    (hreturned : p.front.stopper = .returned) :
    p.flushed = p.disk ∧
      ((p.front.appended.take p.front.beforeStop).flatten <+: p.flushed.flatMap DiskFile.content ↔
        Along AsyncLogging.step AsyncLogging.StopsClean .new (steps.map PipelineStep.call)) := by
  obtain ⟨q, hq, hsound, hfront⟩ := run_sound basename rollSize hstart hzones sound_new steps
  cases hp.symm.trans hq
  rcases AsyncLogging.run_kept_iff AsyncLogging.sound_new rfl hfront with hnot | ⟨hstopped, hiff⟩
  · rw [hreturned] at hnot
    cases hnot
  · have hended := hstopped.returned hreturned
    have hflushed := hsound.flushed hended
    refine ⟨hflushed, ?_⟩
    have hwritten : p.disk.flatMap DiskFile.content = p.front.written.flatten := by
      have houtput := hsound.output
      unfold OutputSound at houtput
      unfold disk
      cases hw : p.output with
      | none =>
        rw [hw, hended] at houtput
        rcases houtput.1 with hplace | hplace <;> cases hplace
      | some w =>
        rw [hw] at houtput
        exact houtput.2.2.1.contents
    have htaken : p.front.taken = p.front.written.flatten := by
      rw [AsyncLogging.taken, AsyncLogging.notWritten, hended]
      exact List.append_nil _
    rw [hflushed, hwritten, ← hiff, AsyncLogging.Kept, hended, htaken]
    simp [AsyncLogging.appendedBeforeStop]

/-- A line is appended, and `stop` is called while the back end waits. -/
def lineThenStop : List PipelineStep :=
  [⟨.start, 0, 0⟩, goesOn, goesOn, goesOn, ⟨.append ⟨ofString "hi\n", by decide⟩, 0, 0⟩,
    ⟨.stop, 0, 0⟩, goesOn, goesOn, goesOn, goesOn, ⟨.joined, 0, 0⟩]

theorem stop_flushes_line : ∃ p,
    run (step LogFile.fixedZones [97] 1000 1) new lineThenStop = .ok p ∧
    p.flushed.map DiskFile.content = [ofString "hi\n"] ∧ p.flushed = p.disk ∧
    ((p.front.appended.take p.front.beforeStop).flatten <+: p.flushed.flatMap DiskFile.content ↔
      Along AsyncLogging.step AsyncLogging.StopsClean .new
        (lineThenStop.map PipelineStep.call)) := by
  have heval : (run (step LogFile.fixedZones [97] 1000 1) new lineThenStop).toOption.map
      (fun p => (p.front.stopper, p.flushed.map DiskFile.content)) =
        some (.returned, [ofString "hi\n"]) := by
    decide +kernel
  obtain ⟨p, hp, -⟩ :=
    run_sound [97] 1000 (by decide : (0 : Int) < 1) fixedZones_injective sound_new lineThenStop
  rw [hp] at heval
  obtain ⟨hreturned, hcontent⟩ := Prod.mk.inj (Option.some.inj heval)
  obtain ⟨hflushed, hiff⟩ := stop_flushes (by decide) fixedZones_injective hp hreturned
  exact ⟨p, hp, hcontent, hflushed, hiff⟩

end LogPipeline

end Mymuduo
