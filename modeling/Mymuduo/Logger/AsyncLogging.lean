import Mymuduo.Lib.Grouping
import Mymuduo.Lib.Run
import Mymuduo.Logger.FixedBuffer

/-! The asynchronous log: threads append messages to the buffers of the front end, and one thread,
the back end, takes these buffers and writes them to the log file.  A step is one call of `append`,
which holds the mutex from its first statement to its last, one step of `threadFunc`, or a part of
`start` or `stop`.  The history tells which messages were appended and what was written. -/

namespace Mymuduo

open Lib

/-- A message, shorter than a buffer. -/
abbrev LogMessage := { message : Bytes // message.length < kLargeBuffer }

/-- `AsyncLogging::BufferPtr` -/
abbrev BufferPtr := Option (FixedBuffer kLargeBuffer)

namespace BufferPtr

/-- The buffer that a pointer points to, where it is used. -/
def deref : BufferPtr → Except Fault (FixedBuffer kLargeBuffer)
  | some b => .ok b
  | none => .error .nullPointer

/-- The bytes in the buffer, none for a null pointer. -/
def content : BufferPtr → Bytes
  | some b => b.content
  | none => []

@[simp] theorem deref_some (b : FixedBuffer kLargeBuffer) : deref (some b) = .ok b := rfl

@[simp] theorem content_some (b : FixedBuffer kLargeBuffer) : content (some b) = b.content := rfl

@[simp] theorem content_none : content none = [] := rfl

end BufferPtr

/-- Where the back end is in `threadFunc`. -/
inductive BackEndPlace
  | notStarted
  | entering
  /-- At the test of `running_`. -/
  | testing
  /-- Before it takes the mutex. -/
  | locking
  /-- In `wait_for`, without the mutex. -/
  | waiting
  /-- In the loop over `buffersToWrite`, with the buffers that are left. -/
  | writing (rest : List BufferPtr)
  | ended
  deriving DecidableEq, Repr

/-- Where the one call of `stop` is. -/
inductive StopPlace
  | notCalled
  | joining
  | returned
  deriving DecidableEq, Repr

/-- The members of an `AsyncLogging`, the variables of `threadFunc`, and the history: `beforeStop`
is the number of messages that were appended before `stop` was called. -/
structure AsyncLogging where
  running : Bool
  currentBuffer : BufferPtr
  nextBuffer : BufferPtr
  buffers : List BufferPtr
  place : BackEndPlace
  newBuffer1 : BufferPtr
  newBuffer2 : BufferPtr
  buffersToWrite : List BufferPtr
  stopper : StopPlace
  appended : List Bytes
  written : List Bytes
  beforeStop : Nat

inductive LogStep
  | append (logline : LogMessage)
  | start
  /-- The next step of the back end. -/
  | advance
  /-- `stop` up to the call of `join`. -/
  | stop
  /-- `join` returns. -/
  | joined

namespace AsyncLogging

/-- `AsyncLogging::AsyncLogging` -/
def new : AsyncLogging where
  running := false
  currentBuffer := some .new
  nextBuffer := some .new
  buffers := []
  place := .notStarted
  newBuffer1 := none
  newBuffer2 := none
  buffersToWrite := []
  stopper := .notCalled
  appended := []
  written := []
  beforeStop := 0

def append (s : AsyncLogging) (logline : Bytes) : Except Fault AsyncLogging := do
  let s := { s with appended := s.appended ++ [logline] }
  let currentBuffer ← s.currentBuffer.deref
  if currentBuffer.avail > logline.length then
    return { s with currentBuffer := some (currentBuffer.append logline) }
  else
    let buffers := s.buffers ++ [s.currentBuffer]
    match s.nextBuffer with
    | some nextBuffer =>
      return { s with
        buffers := buffers
        currentBuffer := some (nextBuffer.append logline)
        nextBuffer := none }
    | none =>
      return { s with
        buffers := buffers
        currentBuffer := some (FixedBuffer.new.append logline) }

/-- What the back end does under the mutex, after `wait_for` if it has waited. -/
def swapBuffers (s : AsyncLogging) : AsyncLogging :=
  let buffers := s.buffers ++ [s.currentBuffer]
  let s := { s with
    currentBuffer := s.newBuffer1
    newBuffer1 := none
    buffersToWrite := buffers
    buffers := s.buffersToWrite
    place := .writing buffers }
  if s.nextBuffer.isNone then
    { s with nextBuffer := s.newBuffer2, newBuffer2 := none }
  else
    s

/-- The last buffer of a vector, moved out of it and reset. -/
def takeBack (v : List BufferPtr) : Except Fault (BufferPtr × List BufferPtr) :=
  match v.getLast? with
  | none => .error .emptyVector
  | some p => do
    let b ← p.deref
    return (some b.reset, v.dropLast)

/-- A spare buffer, and the vector that it is taken from if it is missing. -/
def refill (newBuffer : BufferPtr) (v : List BufferPtr) :
    Except Fault (BufferPtr × List BufferPtr) :=
  if newBuffer.isNone then takeBack v else return (newBuffer, v)

/-- The rest of the loop's body, after all buffers are written. -/
def recycle (s : AsyncLogging) : Except Fault AsyncLogging := do
  let buffersToWrite := if s.buffersToWrite.length > 2 then s.buffersToWrite.take 2
    else s.buffersToWrite
  let (newBuffer1, buffersToWrite) ← refill s.newBuffer1 buffersToWrite
  let (newBuffer2, _) ← refill s.newBuffer2 buffersToWrite
  return { s with
    newBuffer1 := newBuffer1
    newBuffer2 := newBuffer2
    buffersToWrite := []
    place := .testing }

/-- The next step of `threadFunc`. -/
def advance (s : AsyncLogging) : Except Fault AsyncLogging :=
  match s.place with
  | .notStarted => return s
  | .entering =>
    return { s with newBuffer1 := some .new, newBuffer2 := some .new, place := .testing }
  | .testing => return { s with place := if s.running then .locking else .ended }
  | .locking => return if s.buffers.isEmpty then { s with place := .waiting } else s.swapBuffers
  | .waiting => return s.swapBuffers
  | .writing (buffer :: rest) => do
    let b ← buffer.deref
    return { s with written := s.written ++ [b.content], place := .writing rest }
  | .writing [] => s.recycle
  | .ended => return s

/-- A step that is out of place does nothing.  `stop` notifies the back end, which can leave
`wait_for` at any time. -/
def step (s : AsyncLogging) : LogStep → Except Fault AsyncLogging
  | .append logline => s.append logline
  | .start =>
    if s.place = .notStarted then return { s with running := true, place := .entering }
    else return s
  | .advance => s.advance
  | .stop =>
    if s.stopper = .notCalled ∧ s.place ≠ .notStarted then
      return { s with running := false, stopper := .joining, beforeStop := s.appended.length }
    else
      return s
  | .joined =>
    if s.stopper = .joining ∧ s.place = .ended then return { s with stopper := .returned }
    else return s

/-! ### The buffers that travel -/

/-- The buffers of `buffersToWrite` that are not written yet. -/
def notWritten (s : AsyncLogging) : List BufferPtr :=
  match s.place with
  | .writing rest => rest
  | _ => []

/-- The bytes of each buffer that was written, is to be written, or is with the front end. -/
def blocks (s : AsyncLogging) : List Bytes :=
  s.written ++ (s.notWritten ++ s.buffers ++ [s.currentBuffer]).map BufferPtr.content

/-- What the back end has at each place: two empty buffers while it holds no others, and as many
buffers to write as it will take back. -/
def BackEndSound (s : AsyncLogging) : Prop :=
  match s.place with
  | .notStarted | .entering =>
    s.newBuffer1 = none ∧ s.newBuffer2 = none ∧ s.buffersToWrite = []
  | .testing | .locking | .waiting | .ended =>
    s.newBuffer1 = some .new ∧ s.newBuffer2 = some .new ∧ s.buffersToWrite = []
  | .writing rest =>
    s.newBuffer1 = none ∧ rest <:+ s.buffersToWrite ∧ none ∉ s.buffersToWrite ∧
      (s.newBuffer2 = some .new ∧ 1 ≤ s.buffersToWrite.length ∨
        s.newBuffer2 = none ∧ 2 ≤ s.buffersToWrite.length)

/-- No buffer is missing where it is used, spare buffers are empty, and the other ones hold the
messages in their order. -/
structure Sound (s : AsyncLogging) : Prop where
  currentBuffer : s.currentBuffer ≠ none
  buffers : none ∉ s.buffers
  nextBuffer : s.nextBuffer = some .new ∨ s.nextBuffer = none ∧ s.buffers ≠ []
  backEnd : s.BackEndSound
  packs : Packs s.blocks s.appended

/-- No buffer is missing where it is used. -/
structure Supplied (s : AsyncLogging) : Prop where
  currentBuffer : s.currentBuffer ≠ none
  buffers : none ∉ s.buffers
  nextBuffer : s.nextBuffer = some .new ∨ s.nextBuffer = none ∧ s.buffers ≠ []
  backEnd : s.BackEndSound

theorem Sound.supplied {s : AsyncLogging} (hs : s.Sound) : s.Supplied :=
  ⟨hs.currentBuffer, hs.buffers, hs.nextBuffer, hs.backEnd⟩

/-- The states that a step can lead to. -/
inductive StepCase (s : AsyncLogging) : LogStep → AsyncLogging → Prop
  | stay {a : LogStep}
    (hstop : a = .stop → s.stopper ≠ .notCalled ∨ s.place = .notStarted) : StepCase s a s
  | appended {logline : LogMessage} {b : FixedBuffer kLargeBuffer}
    (hcurrent : s.currentBuffer = some b) (hroom : logline.1.length < b.avail) :
    StepCase s (.append logline)
      { s with
        appended := s.appended ++ [logline.1]
        currentBuffer := some (b.append logline.1) }
  | appendedNext {logline : LogMessage} :
    StepCase s (.append logline)
      { s with
        appended := s.appended ++ [logline.1]
        buffers := s.buffers ++ [s.currentBuffer]
        currentBuffer := some (FixedBuffer.new.append logline.1)
        nextBuffer := none }
  | started (hplace : s.place = .notStarted) :
    StepCase s .start { s with running := true, place := .entering }
  | entered (hplace : s.place = .entering) :
    StepCase s .advance
      { s with newBuffer1 := some .new, newBuffer2 := some .new, place := .testing }
  | running (hplace : s.place = .testing) (hrunning : s.running = true) :
    StepCase s .advance { s with place := .locking }
  | notRunning (hplace : s.place = .testing) (hrunning : s.running = false) :
    StepCase s .advance { s with place := .ended }
  | waited (hplace : s.place = .locking) : StepCase s .advance { s with place := .waiting }
  | swapped (hplace : s.place = .locking ∨ s.place = .waiting) :
    StepCase s .advance s.swapBuffers
  | wrote {b : FixedBuffer kLargeBuffer} {rest : List BufferPtr}
    (hplace : s.place = .writing (some b :: rest)) :
    StepCase s .advance { s with written := s.written ++ [b.content], place := .writing rest }
  | recycled (hplace : s.place = .writing []) :
    StepCase s .advance
      { s with
        newBuffer1 := some .new
        newBuffer2 := some .new
        buffersToWrite := []
        place := .testing }
  | stopped (hcalled : s.stopper = .notCalled) (hplace : s.place ≠ .notStarted) :
    StepCase s .stop
      { s with running := false, stopper := .joining, beforeStop := s.appended.length }
  | joined (hjoining : s.stopper = .joining) (hplace : s.place = .ended) :
    StepCase s .joined { s with stopper := .returned }

theorem takeBack_spec {v : List BufferPtr} (hv : v ≠ []) (hnull : none ∉ v) :
    takeBack v = .ok (some .new, v.dropLast) := by
  have hlast : v.getLast? = some (v.getLast hv) := List.getLast?_eq_some_getLast hv
  have hmem : v.getLast hv ∈ v := List.getLast_mem hv
  cases h : v.getLast hv with
  | none =>
    rw [h] at hmem
    exact absurd hmem hnull
  | some b =>
    rw [takeBack, hlast, h]
    rfl

theorem recycle_spec {s : AsyncLogging} (hs : s.BackEndSound) (hplace : s.place = .writing []) :
    s.recycle = .ok { s with
      newBuffer1 := some .new
      newBuffer2 := some .new
      buffersToWrite := []
      place := .testing } := by
  rw [BackEndSound, hplace] at hs
  obtain ⟨hnew1, -, hnull, hspare⟩ := hs
  have hkept : ∀ v, v = (if s.buffersToWrite.length > 2 then s.buffersToWrite.take 2
      else s.buffersToWrite) → none ∉ v ∧ v.length = min 2 s.buffersToWrite.length := by
    rintro v rfl
    split
    · exact ⟨fun h => hnull (List.mem_of_mem_take h), by rw [List.length_take]⟩
    · exact ⟨hnull, by omega⟩
  unfold recycle
  generalize hv : (if s.buffersToWrite.length > 2 then s.buffersToWrite.take 2
    else s.buffersToWrite) = v
  obtain ⟨hnullv, hlen⟩ := hkept v hv.symm
  have hne : v ≠ [] := by
    rintro rfl
    simp only [List.length_nil] at hlen
    omega
  simp only [hnew1, refill, Option.isNone_none, if_true, takeBack_spec hne hnullv, ok_bind]
  rcases hspare with ⟨hnew2, -⟩ | ⟨hnew2, htwo⟩
  · simp only [hnew2]
    rfl
  · have hne' : v.dropLast ≠ [] := by
      apply List.ne_nil_of_length_pos
      rw [List.length_dropLast]
      omega
    have hnull' : none ∉ v.dropLast := fun h => hnullv (List.dropLast_subset v h)
    simp only [hnew2, Option.isNone_none, if_true, takeBack_spec hne' hnull', ok_bind]
    rfl

theorem append_cases {s : AsyncLogging} (hs : s.Supplied) (logline : LogMessage) :
    ∃ t, s.append logline = .ok t ∧ s.StepCase (.append logline) t := by
  obtain ⟨b, hcurrent⟩ := Option.ne_none_iff_exists'.mp hs.currentBuffer
  unfold append
  simp only [hcurrent, BufferPtr.deref_some, ok_bind]
  by_cases hroom : logline.1.length < b.avail
  · exact ⟨_, if_pos hroom, .appended hcurrent hroom⟩
  · rw [if_neg hroom, ← hcurrent]
    rcases hs.nextBuffer with hnext | ⟨hnext, -⟩
    · rw [hnext]
      exact ⟨_, rfl, .appendedNext⟩
    · rw [hnext]
      exact ⟨_, rfl, .appendedNext⟩

theorem advance_cases {s : AsyncLogging} (hs : s.Supplied) :
    ∃ t, s.advance = .ok t ∧ s.StepCase .advance t := by
  have hback := hs.backEnd
  unfold advance
  split
  case h_1 hplace => exact ⟨s, rfl, .stay nofun⟩
  case h_2 hplace => exact ⟨_, rfl, .entered hplace⟩
  case h_3 hplace =>
    by_cases hrunning : s.running = true
    · exact ⟨_, by rw [if_pos hrunning]; rfl, .running hplace hrunning⟩
    · exact ⟨_, by rw [if_neg hrunning]; rfl, .notRunning hplace (Bool.eq_false_iff.mpr hrunning)⟩
  case h_4 hplace =>
    split
    · exact ⟨_, rfl, .waited hplace⟩
    · exact ⟨_, rfl, .swapped (.inl hplace)⟩
  case h_5 hplace => exact ⟨_, rfl, .swapped (.inr hplace)⟩
  case h_6 buffer rest hplace =>
    rw [BackEndSound, hplace] at hback
    cases buffer with
    | none => exact absurd (hback.2.1.subset List.mem_cons_self) hback.2.2.1
    | some b => exact ⟨_, rfl, .wrote hplace⟩
  case h_7 hplace => exact ⟨_, recycle_spec hback hplace, .recycled hplace⟩
  case h_8 hplace => exact ⟨s, rfl, .stay nofun⟩

theorem step_cases {s : AsyncLogging} (hs : s.Supplied) (a : LogStep) :
    ∃ t, s.step a = .ok t ∧ s.StepCase a t := by
  cases a with
  | append logline => exact append_cases hs logline
  | advance => exact advance_cases hs
  | start =>
    by_cases hplace : s.place = .notStarted
    · exact ⟨_, if_pos hplace, .started hplace⟩
    · exact ⟨s, if_neg hplace, .stay nofun⟩
  | stop =>
    by_cases h : s.stopper = .notCalled ∧ s.place ≠ .notStarted
    · exact ⟨_, if_pos h, .stopped h.1 h.2⟩
    · refine ⟨s, if_neg h, .stay ?_⟩
      intro _
      by_cases hcalled : s.stopper = .notCalled
      · exact .inr (not_not.mp fun hplace => h ⟨hcalled, hplace⟩)
      · exact .inl hcalled
  | joined =>
    by_cases h : s.stopper = .joining ∧ s.place = .ended
    · exact ⟨_, if_pos h, .joined h.1 h.2⟩
    · exact ⟨s, if_neg h, .stay nofun⟩

theorem sound_new : new.Sound where
  currentBuffer := nofun
  buffers := nofun
  nextBuffer := .inl rfl
  backEnd := ⟨rfl, rfl, rfl⟩
  packs := .single

/-- The state after the swap, where the front end has two empty buffers. -/
theorem swapBuffers_eq {s : AsyncLogging} (hs : s.Supplied)
    (hplace : s.place = .locking ∨ s.place = .waiting) :
    s.swapBuffers = { s with
      currentBuffer := some .new
      nextBuffer := some .new
      buffers := []
      place := .writing (s.buffers ++ [s.currentBuffer])
      newBuffer1 := none
      newBuffer2 := if s.nextBuffer.isNone then none else some .new
      buffersToWrite := s.buffers ++ [s.currentBuffer] } := by
  have hback : s.newBuffer1 = some .new ∧ s.newBuffer2 = some .new ∧ s.buffersToWrite = [] := by
    have := hs.backEnd
    unfold BackEndSound at this
    rcases hplace with hplace | hplace <;> rwa [hplace] at this
  obtain ⟨hnew1, hnew2, hempty⟩ := hback
  rcases hs.nextBuffer with hnext | ⟨hnext, -⟩
  · simp [swapBuffers, hnext, hnew1, hnew2, hempty]
  · simp [swapBuffers, hnext, hnew1, hnew2, hempty]

theorem none_notMem_buffers_push {s : AsyncLogging} (hs : s.Supplied) :
    none ∉ s.buffers ++ [s.currentBuffer] := by
  intro h
  rcases List.mem_append.mp h with h | h
  · exact hs.buffers h
  · exact hs.currentBuffer (List.mem_singleton.mp h).symm

theorem Supplied.swapped {s : AsyncLogging} (hs : s.Supplied)
    (hplace : s.place = .locking ∨ s.place = .waiting) : s.swapBuffers.Supplied := by
  rw [swapBuffers_eq hs hplace]
  refine ⟨nofun, nofun, .inl rfl, rfl, List.suffix_refl _, none_notMem_buffers_push hs, ?_⟩
  rcases hs.nextBuffer with hnext | ⟨hnext, hbuffers⟩
  · exact .inl ⟨by simp [hnext], by simp⟩
  · have := List.length_pos_iff.mpr hbuffers
    exact .inr ⟨by simp [hnext], by simp only [List.length_append, List.length_singleton]; omega⟩

/-- Every step keeps the buffers in their places. -/
theorem Supplied.step {s t : AsyncLogging} {a : LogStep} (hs : s.Supplied) (h : s.StepCase a t) :
    t.Supplied := by
  have hback := hs.backEnd
  cases h with
  | stay => exact hs
  | appended hcurrent hroom => exact ⟨nofun, hs.buffers, hs.nextBuffer, hback⟩
  | appendedNext => exact ⟨nofun, none_notMem_buffers_push hs, .inr ⟨rfl, by simp⟩, hback⟩
  | started hplace =>
    rw [BackEndSound, hplace] at hback
    exact ⟨hs.currentBuffer, hs.buffers, hs.nextBuffer, hback⟩
  | entered hplace =>
    rw [BackEndSound, hplace] at hback
    exact ⟨hs.currentBuffer, hs.buffers, hs.nextBuffer, rfl, rfl, hback.2.2⟩
  | running hplace | notRunning hplace | waited hplace =>
    rw [BackEndSound, hplace] at hback
    exact ⟨hs.currentBuffer, hs.buffers, hs.nextBuffer, hback⟩
  | swapped hplace => exact hs.swapped hplace
  | @wrote b rest hplace =>
    rw [BackEndSound, hplace] at hback
    obtain ⟨hnew1, hrest, hnull, hspare⟩ := hback
    exact ⟨hs.currentBuffer, hs.buffers, hs.nextBuffer, hnew1,
      (List.suffix_cons _ rest).trans hrest, hnull, hspare⟩
  | recycled hplace => exact ⟨hs.currentBuffer, hs.buffers, hs.nextBuffer, rfl, rfl, rfl⟩
  | stopped | joined => exact ⟨hs.currentBuffer, hs.buffers, hs.nextBuffer, hback⟩

theorem Sound.packs_swapped {s : AsyncLogging} (hs : s.Sound)
    (hplace : s.place = .locking ∨ s.place = .waiting) :
    Packs s.swapBuffers.blocks s.swapBuffers.appended := by
  rw [swapBuffers_eq hs.supplied hplace]
  have hnothing : s.notWritten = [] := by
    unfold notWritten
    rcases hplace with hplace | hplace <;> rw [hplace]
  have hpacks := hs.packs.push_nil
  rw [blocks, hnothing, List.nil_append] at hpacks
  simpa [blocks, notWritten] using hpacks

theorem Sound.swapped {s : AsyncLogging} (hs : s.Sound)
    (hplace : s.place = .locking ∨ s.place = .waiting) : s.swapBuffers.Sound := by
  obtain ⟨hcurrent, hbuffers, hnext, hback⟩ := hs.supplied.swapped hplace
  exact ⟨hcurrent, hbuffers, hnext, hback, hs.packs_swapped hplace⟩

/-- Every step keeps the messages in their order. -/
theorem Sound.packs_step {s t : AsyncLogging} {a : LogStep} (hs : s.Sound) (h : s.StepCase a t) :
    Packs t.blocks t.appended := by
  have hpacks := hs.packs
  cases h with
  | stay => exact hpacks
  | @appended logline b hcurrent hroom =>
    rw [blocks, hcurrent, List.map_append, ← List.append_assoc] at hpacks
    rw [blocks, List.map_append, ← List.append_assoc]
    show Packs (_ ++ [(b.append logline.1).content]) _
    rw [FixedBuffer.content_append hroom]
    exact hpacks.extend
  | @appendedNext logline =>
    have hnew : (FixedBuffer.new.append logline.1 : FixedBuffer kLargeBuffer).content =
        logline.1 := FixedBuffer.content_append_of_empty rfl logline.2
    have hpush : Packs (s.blocks ++ [logline.1]) (s.appended ++ [logline.1]) := hpacks.push
    show Packs (s.written ++ (s.notWritten ++ (s.buffers ++ [s.currentBuffer]) ++
      [some (FixedBuffer.new.append logline.1)]).map BufferPtr.content) _
    simpa [blocks, hnew] using hpush
  | started hplace | entered hplace | running hplace | notRunning hplace | waited hplace
  | recycled hplace =>
    rw [blocks, notWritten, hplace] at hpacks
    exact hpacks
  | swapped hplace => exact hs.packs_swapped hplace
  | @wrote b rest hplace =>
    rw [blocks, notWritten, hplace] at hpacks
    simpa [blocks, notWritten] using hpacks
  | stopped | joined => exact hpacks

theorem Sound.step {s t : AsyncLogging} {a : LogStep} (hs : s.Sound) (h : s.StepCase a t) :
    t.Sound := by
  obtain ⟨hcurrent, hbuffers, hnext, hback⟩ := hs.supplied.step h
  exact ⟨hcurrent, hbuffers, hnext, hback, hs.packs_step h⟩

theorem run_sound {s : AsyncLogging} (hs : s.Sound) (steps : List LogStep) :
    ∃ t, run step s steps = .ok t ∧ t.Sound := by
  refine run_total (I := Sound) (fun {s} hs a => ?_) hs steps
  obtain ⟨t, ht, hcase⟩ := step_cases hs.supplied a
  exact ⟨t, ht, hs.step hcase⟩

/-- A buffer that waits to be filled, if there is one, is empty. -/
theorem content_spare {s : AsyncLogging} (hs : s.Sound) {p : BufferPtr}
    (hp : p = s.newBuffer1 ∨ p = s.newBuffer2 ∨ p = s.nextBuffer) : p.content = [] := by
  have hempty : p = none ∨ p = some .new := by
    have hback := hs.backEnd
    unfold BackEndSound at hback
    have hnext := hs.nextBuffer
    split at hback <;> rcases hp with rfl | rfl | rfl <;> tauto
  rcases hempty with rfl | rfl <;> rfl

/-- At every moment of every run, what was written, what is left of `buffersToWrite`, `buffers_` and
`currentBuffer_` hold the appended messages in the order of the calls, none of them split between
two buffers, and the spare buffers are empty. -/
theorem run_conserves_messages (steps : List LogStep) :
    ∃ t, run step new steps = .ok t ∧
      t.written.flatten ++ t.notWritten.flatMap BufferPtr.content ++
        t.buffers.flatMap BufferPtr.content ++ t.currentBuffer.content = t.appended.flatten ∧
      Packs (t.written ++ t.notWritten.map BufferPtr.content ++
        t.buffers.map BufferPtr.content ++ [t.currentBuffer.content]) t.appended ∧
      t.newBuffer1.content = [] ∧ t.newBuffer2.content = [] ∧ t.nextBuffer.content = [] := by
  obtain ⟨t, hrun, ht⟩ := run_sound sound_new steps
  refine ⟨t, hrun, ?_, ?_, content_spare ht (.inl rfl), content_spare ht (.inr (.inl rfl)),
    content_spare ht (.inr (.inr rfl))⟩
  · have := ht.packs.flatten_eq
    simpa [blocks, List.flatMap_def] using this
  · simpa [blocks] using ht.packs

end AsyncLogging

end Mymuduo
