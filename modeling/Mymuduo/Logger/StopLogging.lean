import Mymuduo.Logger.AsyncLogging

/-! What `stop` loses.  The back end ends at the first test of `running_` after `stop` has cleared
it, with whatever the front end holds at that time.  So the messages appended before `stop` was
called are all written if and only if, at the call, the back end was on its way to a swap or the
front end held no bytes. -/

namespace Mymuduo

open Lib

namespace AsyncLogging

/-- The bytes that the back end has taken from the front end. -/
def taken (s : AsyncLogging) : Bytes :=
  s.written.flatten ++ s.notWritten.flatMap BufferPtr.content

/-- The bytes in `buffers_` and `currentBuffer_`. -/
def pending (s : AsyncLogging) : Bytes :=
  s.buffers.flatMap BufferPtr.content ++ s.currentBuffer.content

/-- The bytes of the messages whose `append` returned before `stop` was called. -/
def appendedBeforeStop (s : AsyncLogging) : Bytes := (s.appended.take s.beforeStop).flatten

/-- If `stop` is called, the back end is between its test of `running_` and its swap, or the front
end holds no bytes. -/
def StopsClean (s : AsyncLogging) : LogStep → Prop
  | .stop => s.stopper = .notCalled → s.place ≠ .notStarted →
      s.place = .locking ∨ s.place = .waiting ∨ s.pending = []
  | _ => True

instance (s : AsyncLogging) (a : LogStep) : Decidable (s.StopsClean a) := by
  unfold StopsClean
  split <;> infer_instance

/-- `stop` has been called. -/
structure Stopped (s : AsyncLogging) : Prop where
  sound : s.Sound
  called : s.stopper ≠ .notCalled
  running : s.running = false
  started : s.place ≠ .notStarted
  beforeStop_le : s.beforeStop ≤ s.appended.length
  returned : s.stopper = .returned → s.place = .ended

/-- The back end has taken what was appended before `stop`, or it is going to. -/
def Kept (s : AsyncLogging) : Prop :=
  s.place = .locking ∨ s.place = .waiting ∨ s.appendedBeforeStop <+: s.taken

theorem Sound.taken_append_pending {s : AsyncLogging} (hs : s.Sound) :
    s.taken ++ s.pending = s.appended.flatten := by
  have := hs.packs.flatten_eq
  simpa [blocks, taken, pending, List.flatMap_def] using this

theorem taken_swapBuffers {s : AsyncLogging} (hs : s.Sound)
    (hplace : s.place = .locking ∨ s.place = .waiting) :
    s.swapBuffers.taken = s.appended.flatten := by
  have hpending : s.swapBuffers.pending = [] := by
    rw [swapBuffers_eq hs.supplied hplace]
    rfl
  have happended : s.swapBuffers.appended = s.appended := by
    rw [swapBuffers_eq hs.supplied hplace]
  have := (hs.swapped hplace).taken_append_pending
  rwa [hpending, List.append_nil, happended] at this

theorem appendedBeforeStop_prefix (s : AsyncLogging) :
    s.appendedBeforeStop <+: s.appended.flatten := by
  refine ⟨(s.appended.drop s.beforeStop).flatten, ?_⟩
  rw [appendedBeforeStop, ← List.flatten_append, List.take_append_drop]

theorem Stopped.step {s t : AsyncLogging} {a : LogStep} (hs : s.Stopped) (h : s.StepCase a t) :
    t.Stopped := by
  obtain ⟨hsound, hcalled, hrunning, hstarted, hle, hreturned⟩ := hs
  have hsoundt := hsound.step h
  cases h with
  | stay => exact ⟨hsound, hcalled, hrunning, hstarted, hle, hreturned⟩
  | appended | appendedNext =>
    refine ⟨hsoundt, hcalled, hrunning, hstarted, ?_, hreturned⟩
    show s.beforeStop ≤ (s.appended ++ [_]).length
    rw [List.length_append]
    exact Nat.le_add_right_of_le hle
  | started hplace => exact absurd hplace hstarted
  | running hplace htrue =>
    rw [hrunning] at htrue
    cases htrue
  | notRunning hplace => exact ⟨hsoundt, hcalled, hrunning, nofun, hle, fun _ => rfl⟩
  | stopped hnot => exact absurd hnot hcalled
  | joined hjoining hplace =>
    exact ⟨hsoundt, nofun, hrunning, hstarted, hle, fun _ => hplace⟩
  | swapped hplace =>
    rw [swapBuffers_eq hsound.supplied hplace] at hsoundt ⊢
    refine ⟨hsoundt, hcalled, hrunning, nofun, hle, ?_⟩
    intro hret
    have := hreturned hret
    rcases hplace with hplace | hplace <;> rw [hplace] at this <;> cases this
  | entered hplace | waited hplace | wrote hplace | recycled hplace =>
    refine ⟨hsoundt, hcalled, hrunning, nofun, hle, ?_⟩
    intro hret
    have := hreturned hret
    rw [hplace] at this
    cases this

/-- After `stop` was called, nothing that happens decides any more what is kept. -/
theorem Stopped.kept_iff {s t : AsyncLogging} {a : LogStep} (hs : s.Stopped)
    (h : s.StepCase a t) : t.Kept ↔ s.Kept := by
  cases h with
  | stay => exact Iff.rfl
  | @appended logline | @appendedNext logline =>
    have hsame : (s.appended ++ [logline.1]).take s.beforeStop = s.appended.take s.beforeStop :=
      List.take_append_of_le_length hs.beforeStop_le
    show _ ∨ _ ∨ ((s.appended ++ [logline.1]).take s.beforeStop).flatten <+: s.taken ↔ _
    rw [hsame]
    exact Iff.rfl
  | started hplace => exact absurd hplace hs.started
  | running hplace htrue =>
    have := hs.running
    rw [htrue] at this
    cases this
  | stopped hnot => exact absurd hnot hs.called
  | swapped hplace =>
    have hkept : s.Kept := by
      rcases hplace with hplace | hplace
      · exact .inl hplace
      · exact .inr (.inl hplace)
    refine iff_of_true (.inr (.inr ?_)) hkept
    have hsame : s.swapBuffers.appendedBeforeStop = s.appendedBeforeStop := by
      rw [swapBuffers_eq hs.sound.supplied hplace]
      rfl
    rw [taken_swapBuffers hs.sound hplace, hsame]
    exact s.appendedBeforeStop_prefix
  | waited hplace => exact iff_of_true (.inr (.inl rfl)) (.inl hplace)
  | @wrote b rest hplace =>
    have htaken : s.taken = (s.written ++ [b.content]).flatten ++
        rest.flatMap BufferPtr.content := by
      simp [taken, notWritten, hplace]
    rw [Kept, Kept, hplace, htaken]
    simp [taken, notWritten, appendedBeforeStop]
  | entered hplace | notRunning hplace | recycled hplace | joined _ hplace =>
    simp [Kept, taken, notWritten, appendedBeforeStop, hplace]

theorem Sound.appended_prefix_taken_iff {s : AsyncLogging} (hs : s.Sound) :
    s.appended.flatten <+: s.taken ↔ s.pending = [] := by
  rw [← hs.taken_append_pending]
  constructor
  · intro h
    have := h.length_le
    rw [List.length_append] at this
    exact List.eq_nil_of_length_eq_zero (by omega)
  · intro h
    simp [h]

/-- Until `stop` is called its condition is met, and the call decides what is kept. -/
theorem stop_cases {s t : AsyncLogging} {a : LogStep} (hs : s.Sound)
    (hnot : s.stopper = .notCalled) (h : s.StepCase a t) :
    t.stopper = .notCalled ∧ s.StopsClean a ∨ t.Stopped ∧ (t.Kept ↔ s.StopsClean a) := by
  have hsoundt := hs.step h
  cases h with
  | stay hstop =>
    refine .inl ⟨hnot, ?_⟩
    cases a with
    | stop =>
      intro _ hstarted
      rcases hstop rfl with hcalled | hplace
      · exact absurd hnot hcalled
      · exact absurd hplace hstarted
    | _ => trivial
  | swapped hplace =>
    refine .inl ⟨?_, trivial⟩
    rw [swapBuffers_eq hs.supplied hplace]
    exact hnot
  | joined hjoining =>
    rw [hnot] at hjoining
    cases hjoining
  | stopped hcalled hplace =>
    refine .inr ⟨⟨hsoundt, nofun, rfl, hplace, Nat.le_refl _, nofun⟩, ?_⟩
    have hkept : (s.appended.take s.appended.length).flatten <+: s.taken ↔ s.pending = [] := by
      rw [List.take_length]
      exact hs.appended_prefix_taken_iff
    show s.place = .locking ∨ s.place = .waiting ∨
      (s.appended.take s.appended.length).flatten <+: s.taken ↔ _
    rw [hkept]
    exact ⟨fun h _ _ => h, fun h => h hnot hplace⟩
  | _ => exact .inl ⟨hnot, trivial⟩

theorem Stopped.stopsClean {s : AsyncLogging} (hs : s.Stopped) (a : LogStep) : s.StopsClean a := by
  cases a with
  | stop => exact fun hnot => absurd hnot hs.called
  | _ => trivial

theorem run_stopped {s t : AsyncLogging} {steps : List LogStep} (hs : s.Stopped)
    (h : run step s steps = .ok t) :
    t.Stopped ∧ (t.Kept ↔ s.Kept) ∧ Along step StopsClean s steps := by
  induction steps generalizing s with
  | nil =>
    cases h
    exact ⟨hs, Iff.rfl, trivial⟩
  | cons a steps ih =>
    obtain ⟨u, hu, hrun⟩ := run_cons_ok.mp h
    obtain ⟨v, hv, hcase⟩ := step_cases hs.sound.supplied a
    rw [hu] at hv
    cases hv
    obtain ⟨ht, hkept, halong⟩ := ih (hs.step hcase) hrun
    exact ⟨ht, hkept.trans (hs.kept_iff hcase), (along_cons_ok hu).mpr ⟨hs.stopsClean a, halong⟩⟩

theorem run_kept_iff {s t : AsyncLogging} {steps : List LogStep} (hs : s.Sound)
    (hnot : s.stopper = .notCalled) (h : run step s steps = .ok t) :
    t.stopper = .notCalled ∨ t.Stopped ∧ (t.Kept ↔ Along step StopsClean s steps) := by
  induction steps generalizing s with
  | nil =>
    cases h
    exact .inl hnot
  | cons a steps ih =>
    obtain ⟨u, hu, hrun⟩ := run_cons_ok.mp h
    obtain ⟨v, hv, hcase⟩ := step_cases hs.supplied a
    rw [hu] at hv
    cases hv
    rw [along_cons_ok hu]
    rcases stop_cases hs hnot hcase with ⟨hnotu, hclean⟩ | ⟨hstopped, hkept⟩
    · rcases ih (hs.step hcase) hnotu hrun with hnott | ⟨ht, hiff⟩
      · exact .inl hnott
      · exact .inr ⟨ht, hiff.trans ⟨fun h => ⟨hclean, h⟩, And.right⟩⟩
    · obtain ⟨ht, hkeptt, halong⟩ := run_stopped hstopped hrun
      exact .inr ⟨ht, hkeptt.trans (hkept.trans ⟨fun h => ⟨h, halong⟩, And.left⟩)⟩

/-- When `stop` returns, the messages whose `append` returned before it was called have been passed
to `LogFile::append` in their order, if and only if at the call the back end was between its test of
`running_` and its swap or the front end held no bytes. -/
theorem stop_writes_all_iff {steps : List LogStep} {t : AsyncLogging}
    (h : run step new steps = .ok t) (hreturned : t.stopper = .returned) :
    (t.appended.take t.beforeStop).flatten <+: t.written.flatten ↔
      Along step StopsClean new steps := by
  rcases run_kept_iff sound_new rfl h with hnot | ⟨ht, hiff⟩
  · rw [hreturned] at hnot
    cases hnot
  · rw [← hiff, Kept, ht.returned hreturned]
    have htaken : t.taken = t.written.flatten := by
      simp [taken, notWritten, ht.returned hreturned]
    rw [htaken]
    simp [appendedBeforeStop]

/-- `stop` is called while the back end is on its way to the swap. -/
theorem stop_writes_all_iff_example :
    ∃ t, run step new [.start, .advance, .advance, .append ⟨[104, 105], by decide⟩, .stop,
        .advance, .advance, .advance, .advance, .advance, .joined] = .ok t ∧
      ((t.appended.take t.beforeStop).flatten <+: t.written.flatten ↔
        Along step StopsClean new [.start, .advance, .advance, .append ⟨[104, 105], by decide⟩,
          .stop, .advance, .advance, .advance, .advance, .advance, .joined]) :=
  ⟨_, rfl, stop_writes_all_iff rfl rfl⟩

/-- A message is lost if `stop` comes before the back end has tested `running_` for the first
time. -/
theorem stop_loses_message :
    ∃ t, run step new [.start, .append ⟨[104, 105], by decide⟩, .stop, .advance, .advance,
        .joined] = .ok t ∧ t.stopper = .returned ∧
      ¬(t.appended.take t.beforeStop).flatten <+: t.written.flatten :=
  ⟨_, rfl, rfl, by decide⟩

end AsyncLogging

end Mymuduo
