import Mymuduo.Logger.AsyncLogging

/-! The supply of buffers.  Whatever is appended, messages that fit in no buffer included, the front
end always has a buffer to write to, the back end begins every round with two spare ones, and it
finds buffers to refill them from. -/

namespace Mymuduo

open Lib

/-- A step of the log, with messages of any length. -/
inductive LogCall
  | append (logline : Bytes)
  | other (a : LogStep)

namespace AsyncLogging

def callStep (s : AsyncLogging) : LogCall → Except Fault AsyncLogging
  | .append logline => s.append logline
  | .other a => s.step a

/-- What is left of `buffersToWrite` when `newBuffer1` is refilled. -/
def kept (s : AsyncLogging) : List BufferPtr :=
  if s.buffersToWrite.length > 2 then s.buffersToWrite.take 2 else s.buffersToWrite

/-- What is left of `buffersToWrite` when `newBuffer2` is refilled. -/
def keptForSecond (s : AsyncLogging) : List BufferPtr :=
  if s.newBuffer1 = none then s.kept.dropLast else s.kept

/-- No buffer is missing while the mutex is free, at the top of a round, or where a spare buffer is
refilled. -/
structure Provided (s : AsyncLogging) : Prop where
  current : s.currentBuffer ≠ none
  next : s.nextBuffer = none → s.buffers ≠ []
  round : s.place = .testing ∨ s.place = .locking → s.newBuffer1 ≠ none ∧ s.newBuffer2 ≠ none
  refill1 : s.place = .writing [] → s.newBuffer1 = none → s.kept ≠ []
  refill2 : s.place = .writing [] → s.newBuffer2 = none → s.keptForSecond ≠ []

variable {s : AsyncLogging}

/-- A message that does not fit is dropped, but it takes a new buffer all the same. -/
theorem Supplied.append (hs : s.Supplied) (logline : Bytes) :
    ∃ t, s.append logline = .ok t ∧ t.Supplied := by
  obtain ⟨b, hcurrent⟩ := Option.ne_none_iff_exists'.mp hs.currentBuffer
  unfold AsyncLogging.append
  simp only [hcurrent, BufferPtr.deref_some, ok_bind]
  by_cases hroom : logline.length < b.avail
  · exact ⟨_, if_pos hroom, nofun, hs.buffers, hs.nextBuffer, hs.backEnd⟩
  · rw [if_neg hroom, ← hcurrent]
    have hpush := none_notMem_buffers_push hs
    rcases hs.nextBuffer with hnext | ⟨hnext, -⟩
    · rw [hnext]
      exact ⟨_, rfl, nofun, hpush, .inr ⟨rfl, by simp⟩, hs.backEnd⟩
    · rw [hnext]
      exact ⟨_, rfl, nofun, hpush, .inr ⟨rfl, by simp⟩, hs.backEnd⟩

theorem Supplied.callStep (hs : s.Supplied) (a : LogCall) :
    ∃ t, s.callStep a = .ok t ∧ t.Supplied := by
  cases a with
  | append logline => exact hs.append logline
  | other a =>
    obtain ⟨t, ht, hcase⟩ := step_cases hs a
    exact ⟨t, ht, hs.step hcase⟩

theorem length_kept (s : AsyncLogging) : s.kept.length = min 2 s.buffersToWrite.length := by
  unfold kept
  split
  · rw [List.length_take]
  · omega

theorem Supplied.provided (hs : s.Supplied) : s.Provided := by
  have hback := hs.backEnd
  have hlength := s.length_kept
  refine ⟨hs.currentBuffer, ?_, ?_, ?_, ?_⟩
  · intro hnone
    rcases hs.nextBuffer with hnext | ⟨-, hbuffers⟩
    · rw [hnone] at hnext
      cases hnext
    · exact hbuffers
  · rintro (hplace | hplace)
    · rw [BackEndSound, hplace] at hback
      exact ⟨by simp [hback.1], by simp [hback.2.1]⟩
    · rw [BackEndSound, hplace] at hback
      exact ⟨by simp [hback.1], by simp [hback.2.1]⟩
  · intro hplace _
    rw [BackEndSound, hplace] at hback
    obtain ⟨-, -, -, hspare⟩ := hback
    apply List.ne_nil_of_length_pos
    omega
  · intro hplace hnew2
    rw [BackEndSound, hplace] at hback
    obtain ⟨hnew1, -, -, ⟨hsome, -⟩ | ⟨-, htwo⟩⟩ := hback
    · rw [hnew2] at hsome
      cases hsome
    · rw [keptForSecond, if_pos hnew1]
      apply List.ne_nil_of_length_pos
      rw [List.length_dropLast]
      omega

/-- In every run no null pointer is used and nothing is taken from an empty vector, and at every
moment the buffers are there. -/
theorem buffers_provided (calls : List LogCall) :
    ∃ t, run callStep new calls = .ok t ∧ t.Provided := by
  obtain ⟨t, hrun, ht⟩ := run_total (I := Supplied) (fun hs a => hs.callStep a)
    sound_new.supplied calls
  exact ⟨t, hrun, ht.provided⟩

end AsyncLogging

end Mymuduo
