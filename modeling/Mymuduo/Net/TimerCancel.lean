import Mymuduo.Net.TimerInvariant

/-! What a cancellation does.  `cancelInLoop` looks for the timer in `activeTimers_`, which nothing
fills, so that it has an effect only while callbacks are run: `reset` then deletes the timer if it
is one of the batch.  A timer that waits in `timers_` is not touched, and is called when it is
due. -/

namespace Mymuduo.TimerQueue

open Lib

/-- The timer of `id` is in memory. -/
def Alive (q : TimerQueue) (id : TimerId) : Prop :=
  ∃ t, q.heap id.timer = some t ∧ t.sequence = id.sequence

/-- The timer of `id` is in `timers_`, for the time `w`. -/
structure Waiting (q : TimerQueue) (id : TimerId) (w : Timestamp) : Prop where
  alive : q.Alive id
  mem : Entry.mk w id.timer ∈ q.timers

/-- The timer of `id` is in the batch that is being run. -/
structure InBatch (q : TimerQueue) (id : TimerId) : Prop where
  alive : q.Alive id
  mem : ∃ e ∈ q.expired, e.timer = id.timer

/-- The step calls the callback of the timer of `id`. -/
def Invokes (q : TimerQueue) (id : TimerId) (a : Step) : Prop :=
  a = .runNext ∧ q.Alive id ∧
    ∃ b it todo, q.batch = some b ∧ b.todo = it :: todo ∧ it.timer = id.timer

/-- What a cancellation in the state `q` promises of a step in the state `u`: the callback is not
called, but by the `handleRead` in progress if the timer is in its batch. -/
def Stopped (q : TimerQueue) (id : TimerId) (u : TimerQueue) (a : Step) : Prop :=
  u.Invokes id a → q.InBatch id ∧ u.reads = q.reads

/-- If the timer waited in `timers_` in the state `q`, no `handleRead` that begins reads a clock at
which it is due. -/
def NotDue (q : TimerQueue) (id : TimerId) (u : TimerQueue) (a : Step) : Prop :=
  ∀ now w, a = .handleRead now → u.batch = none → q.Waiting id w → now < w

/-- The timer of `id` is deleted, and its address may be that of a later timer. -/
structure Gone (q : TimerQueue) (id : TimerId) : Prop where
  sequence : id.sequence ≤ q.numCreated
  dead : ¬q.Alive id

/-- The timer of `id` is in the batch of the `n`-th `handleRead`, and its cancellation is noted. -/
structure Cancelled (q : TimerQueue) (id : TimerId) (n : Nat) : Prop where
  reads : q.reads = n
  inBatch : q.InBatch id
  noted : toLex (id.timer, id.sequence) ∈ q.cancelingTimers

section

variable {q q' : TimerQueue} {id : TimerId} {w : Timestamp} {n : Nat} {a : Step}

/-! ### Where an inserted timer is -/

/-- A timer that has been inserted waits, or is in the batch, or is deleted. -/
theorem Sound.located (h : Sound q) (hid : id ∈ q.inserted) :
    (∃ w, q.Waiting id w) ∨ q.InBatch id ∨ q.Gone id := by
  obtain ⟨hle, hnot⟩ := h.placed.inserted id hid
  by_cases halive : q.Alive id
  · obtain ⟨t, ht, hseq⟩ := halive
    rcases h.placed.place id.timer t ht with hq | htimers | hbatch
    · exact absurd hq (hnot t ht hseq)
    · exact .inl ⟨t.expiration, ⟨t, ht, hseq⟩, htimers⟩
    · exact .inr (.inl ⟨⟨t, ht, hseq⟩, hbatch⟩)
  · exact .inr (.inr ⟨hle, halive⟩)

theorem Waiting.not_inBatch (h : Sound q) (hw : q.Waiting id w) : ¬q.InBatch id := by
  rintro ⟨-, e, he, htimer⟩
  exact (h.placed.batch e he).2.1 _ hw.mem htimer.symm

theorem Invokes.inBatch (h : Sound q) (ha : q.Invokes id a) : q.InBatch id := by
  obtain ⟨-, halive, b, it, todo, hbatch, htodo, htimer⟩ := ha
  refine ⟨halive, it, ?_, htimer⟩
  rw [expired_eq hbatch]
  exact (h.todo b hbatch).subset (by rw [htodo]; exact List.mem_cons_self)

/-! ### The loop of `reset` -/

theorem resetLoop_other {now : Timestamp} {expired : List Entry} {p : Nat}
    (hp : ∀ e ∈ expired, e.timer ≠ p) (h : run (resetOne now) q expired = .ok q') :
    q'.heap p = q.heap p ∧ ∀ w, Entry.mk w p ∈ q'.timers ↔ Entry.mk w p ∈ q.timers := by
  refine (along_of_mem (P := fun _ e => e.timer ≠ p) fun e he _ => hp e he).run_invariant
    (I := fun q' => q'.heap p = q.heap p ∧ ∀ w, Entry.mk w p ∈ q'.timers ↔ Entry.mk w p ∈ q.timers)
    ?_ ⟨rfl, fun _ => Iff.rfl⟩ h
  intro u it v hu hit hv
  obtain ⟨t, -, ⟨-, rfl⟩ | ⟨-, rfl⟩⟩ := resetOne_cases hv
  · refine ⟨(Function.update_of_ne hit.symm _ _).trans hu.1, ?_⟩
    intro w
    rw [OrderedSet.mem_insert, hu.2 w]
    refine or_iff_right fun heq => hit ?_
    rw [← Entry.mk_timer w p, heq, Entry.mk_timer]
  · exact ⟨(Function.update_of_ne hit.symm _ _).trans hu.1, hu.2⟩

theorem resetLoop_dead {now : Timestamp} {expired : List Entry} (hdead : ¬q.Alive id)
    (h : run (resetOne now) q expired = .ok q') : ¬q'.Alive id := by
  refine run_invariant (I := fun q => ¬q.Alive id) ?_ hdead h
  intro u it v hu hv
  rintro ⟨t', ht', hseq⟩
  obtain ⟨t, ht, ⟨-, rfl⟩ | ⟨-, rfl⟩⟩ := resetOne_cases hv
  · rcases update_eq_some.mp ht' with ⟨heq, hsome⟩ | ⟨-, ht'⟩
    · cases hsome
      exact hu ⟨t, heq ▸ ht, by rwa [Timer.restart_sequence] at hseq⟩
    · exact hu ⟨t', ht', hseq⟩
  · rcases update_eq_some.mp ht' with ⟨-, hnone⟩ | ⟨-, ht'⟩
    · cases hnone
    · exact hu ⟨t', ht', hseq⟩

/-- What becomes of a timer of the batch: it is put back if it repeats and nobody has cancelled it,
and is deleted otherwise. -/
theorem resetLoop_at {now : Timestamp} {expired : List Entry} {e : Entry} {t : Timer}
    (hnodup : (expired.map Entry.timer).Nodup) (he : e ∈ expired) (ht : q.heap e.timer = some t)
    (h : run (resetOne now) q expired = .ok q') :
    ((t.isRepeat = true ∧ toLex (e.timer, t.sequence) ∉ q.cancelingTimers) ∧
      q'.heap e.timer = some (t.restart now) ∧
      Entry.mk (t.restart now).expiration e.timer ∈ q'.timers) ∨
    (¬(t.isRepeat = true ∧ toLex (e.timer, t.sequence) ∉ q.cancelingTimers) ∧
      q'.heap e.timer = none) := by
  obtain ⟨before, after, rfl⟩ := List.append_of_mem he
  obtain ⟨u, hu, hrest⟩ := run_append_ok.mp h
  obtain ⟨v, hv, hafter⟩ := run_cons_ok.mp hrest
  rw [List.map_append, List.nodup_append, List.map_cons, List.nodup_cons] at hnodup
  have hbefore : ∀ e' ∈ before, e'.timer ≠ e.timer := fun e' he' =>
    hnodup.2.2 _ (List.mem_map_of_mem he') _ List.mem_cons_self
  have hlater : ∀ e' ∈ after, e'.timer ≠ e.timer := fun e' he' heq =>
    hnodup.2.1.1 (heq ▸ List.mem_map_of_mem he')
  obtain ⟨hheap, -⟩ := resetLoop_other hbefore hu
  obtain ⟨hheap', htimers'⟩ := resetLoop_other hlater hafter
  have hcanceling : u.cancelingTimers = q.cancelingTimers := by rw [resetLoop_frame hu]
  rw [hheap']
  obtain ⟨t', ht', hcase⟩ := resetOne_cases hv
  rw [hheap, ht] at ht'
  cases ht'
  rw [hcanceling] at hcase
  rcases hcase with ⟨hback, rfl⟩ | ⟨hnot, rfl⟩
  · refine .inl ⟨hback, Function.update_self .., (htimers' _).mpr ?_⟩
    exact OrderedSet.mem_insert.mpr (.inl rfl)
  · exact .inr ⟨hnot, Function.update_self ..⟩

theorem resetLoop_cancelled {now : Timestamp} {expired : List Entry} {e : Entry}
    (hnodup : (expired.map Entry.timer).Nodup) (he : e ∈ expired) (htimer : e.timer = id.timer)
    (halive : q.Alive id) (hnoted : toLex (id.timer, id.sequence) ∈ q.cancelingTimers)
    (h : run (resetOne now) q expired = .ok q') : ¬q'.Alive id := by
  obtain ⟨t, ht, hseq⟩ := halive
  rw [← htimer] at ht hnoted
  rcases resetLoop_at hnodup he ht h with ⟨⟨-, hback⟩, -⟩ | ⟨-, hnone⟩
  · exact absurd (hseq ▸ hnoted) hback
  · rintro ⟨s, hs, -⟩
    rw [← htimer, hnone] at hs
    cases hs

/-! ### What a step does to a timer -/

/-- A timer in memory stays as it is, under its address, until its batch is reset. -/
theorem StepCase.heap (hcase : StepCase q a q') {p : Nat} {t : Timer} (ht : q.heap p = some t)
    (hbatch : (∀ e ∈ q.expired, e.timer ≠ p) ∨ ∀ clock, a ≠ .finishRead clock) :
    q'.heap p = some t := by
  cases hcase with
  | addTimer p' when interval hfree hp =>
    have hne : p ≠ p' := fun heq => by simp [heq, hfree] at ht
    exact update_eq_some.mpr (.inr ⟨hne, ht⟩)
  | finishRead clock now expired q' timerfd hb hloop hplaced =>
    have hother := hbatch.resolve_right fun hall => hall clock rfl
    rw [expired_eq hb] at hother
    exact (resetLoop_other hother hloop).1.trans ht
  | _ => exact ht

theorem StepCase.alive (hcase : StepCase q a q') (halive : q.Alive id)
    (hbatch : ¬q.InBatch id ∨ ∀ clock, a ≠ .finishRead clock) : q'.Alive id := by
  obtain ⟨t, ht, hseq⟩ := halive
  refine ⟨t, hcase.heap ht ?_, hseq⟩
  rcases hbatch with hnot | hall
  · exact .inl fun e he htimer => hnot ⟨⟨t, ht, hseq⟩, e, he, htimer⟩
  · exact .inr hall

theorem StepCase.gone (hcase : StepCase q a q') (hgone : q.Gone id) : q'.Gone id := by
  obtain ⟨hle, hdead⟩ := hgone
  cases hcase with
  | addTimer p when interval hfree hp =>
    refine ⟨Nat.le_succ_of_le hle, ?_⟩
    rintro ⟨t, ht, hseq⟩
    rcases update_eq_some.mp ht with ⟨-, ht⟩ | ⟨-, ht⟩
    · cases ht
      change q.numCreated + 1 = id.sequence at hseq
      omega
    · exact hdead ⟨t, ht, hseq⟩
  | finishRead clock now expired q' timerfd hb hloop hplaced =>
    have hcreated : q'.numCreated = q.numCreated := by rw [resetLoop_frame hloop]
    have hdead' : ¬q'.Alive id := resetLoop_dead (q := { q with
      callingExpiredTimers := false, batch := none }) hdead hloop
    exact ⟨hcreated ▸ hle, hdead'⟩
  | _ => exact ⟨hle, hdead⟩

/-- A timer that waits goes on waiting, unless a `handleRead` begins at which it is due. -/
theorem StepCase.waiting (hcase : StepCase q a q') (h : Sound q) (hw : q.Waiting id w)
    (hdue : ∀ now, a = .handleRead now → q.batch = none → now < w) : q'.Waiting id w := by
  refine ⟨hcase.alive hw.alive (.inl (hw.not_inBatch h)), ?_⟩
  have hmem := hw.mem
  cases hcase with
  | addTimerInLoop p clock t timerfd hp ht => exact OrderedSet.mem_insert.mpr (.inr hmem)
  | handleRead now timerfd hidle =>
    refine OrderedSet.mem_eraseBelow.mpr ⟨hmem, le_of_not_gt ?_⟩
    intro hlt
    have hle := (h.placed.due_iff hmem now).mp hlt
    exact absurd (hdue now rfl hidle) (not_lt_of_ge hle)
  | finishRead clock now expired q' timerfd hb hloop hplaced =>
    have hother : ∀ e ∈ expired, e.timer ≠ id.timer := fun e he htimer =>
      hw.not_inBatch h ⟨hw.alive, e, by rw [expired_eq hb]; exact he, htimer⟩
    exact ((resetLoop_other hother hloop).2 w).mpr hmem
  | _ => exact hmem

/-- A cancelled timer of the batch stays in it, and is deleted when the batch is reset. -/
theorem StepCase.cancelled (hcase : StepCase q a q') (h : Sound q) (hc : q.Cancelled id n) :
    q'.Cancelled id n ∨ q'.Gone id := by
  obtain ⟨hreads, ⟨halive, e, he, htimer⟩, hnoted⟩ := hc
  have hle : id.sequence ≤ q.numCreated := by
    obtain ⟨t, ht, hseq⟩ := halive
    exact hseq ▸ h.placed.sequence _ t ht
  have hstays : (∀ clock, a ≠ .finishRead clock) → q'.Alive id := fun hall =>
    hcase.alive halive (.inr hall)
  cases hcase with
  | unchanged => exact .inl ⟨hreads, ⟨halive, e, he, htimer⟩, hnoted⟩
  | addTimer p when interval hfree hp =>
    exact .inl ⟨hreads, ⟨hstays (by simp), e, he, htimer⟩, hnoted⟩
  | addTimerInLoop p clock t timerfd hp ht =>
    exact .inl ⟨hreads, ⟨hstays (by simp), e, he, htimer⟩, hnoted⟩
  | cancelInLoop id' hcalling =>
    exact .inl ⟨hreads, ⟨hstays (by simp), e, he, htimer⟩, OrderedSet.mem_insert.mpr (.inr hnoted)⟩
  | handleRead now timerfd hidle =>
    rw [expired_eq_nil hidle] at he
    exact absurd he List.not_mem_nil
  | runNext now expired it todo hb =>
    rw [expired_eq hb] at he
    exact .inl ⟨hreads, ⟨hstays (by simp), e, he, htimer⟩, hnoted⟩
  | finishRead clock now expired q' timerfd hb hloop hplaced =>
    have hnodup := h.placed.batch_nodup
    rw [expired_eq hb] at he hnodup
    have hcreated : q'.numCreated = q.numCreated := by rw [resetLoop_frame hloop]
    have hdead : ¬q'.Alive id := resetLoop_cancelled (q := { q with
      callingExpiredTimers := false, batch := none }) hnodup he htimer halive hnoted hloop
    exact .inr ⟨hcreated ▸ hle, hdead⟩

/-- The timer of `id` is still to be run in the batch. -/
structure ToRun (q : TimerQueue) (id : TimerId) : Prop where
  alive : q.Alive id
  mem : ∃ b it, q.batch = some b ∧ it ∈ b.todo ∧ it.timer = id.timer

/-- A timer that is to be run is run next, or is to be run after the step as well. -/
theorem StepCase.toRun (hcase : StepCase q a q') (hrun : q.ToRun id) :
    q.Invokes id a ∨ q'.ToRun id := by
  obtain ⟨halive, b, it, hbatch, hit, htimer⟩ := hrun
  have hstays : (∀ clock, a ≠ .finishRead clock) → q'.Alive id := fun hall =>
    hcase.alive halive (.inr hall)
  cases hcase with
  | unchanged => exact .inr ⟨halive, b, it, hbatch, hit, htimer⟩
  | addTimer p when interval hfree hp =>
    exact .inr ⟨hstays (by simp), b, it, hbatch, hit, htimer⟩
  | addTimerInLoop p clock t timerfd hp ht =>
    exact .inr ⟨hstays (by simp), b, it, hbatch, hit, htimer⟩
  | cancelInLoop id' hcalling => exact .inr ⟨hstays (by simp), b, it, hbatch, hit, htimer⟩
  | handleRead now timerfd hidle =>
    rw [hidle] at hbatch
    cases hbatch
  | runNext now expired next todo hb =>
    rw [hb] at hbatch
    cases hbatch
    rcases List.mem_cons.mp hit with rfl | hit
    · exact .inl ⟨rfl, halive, _, it, todo, hb, rfl, htimer⟩
    · exact .inr ⟨hstays (by simp), _, it, rfl, hit, htimer⟩
  | finishRead clock now expired q' timerfd hb hloop hplaced =>
    rw [hb] at hbatch
    cases hbatch
    exact absurd hit List.not_mem_nil

theorem ToRun.invoked (h : Sound q) (htorun : q.ToRun id) {steps : List Step}
    (hrun : run step q steps = .ok q') (hend : q'.batch = none) :
    ¬Along step (fun u a => ¬u.Invokes id a) q steps := by
  induction steps generalizing q with
  | nil =>
    cases hrun
    obtain ⟨-, b, it, hbatch, -⟩ := htorun
    rw [hend] at hbatch
    cases hbatch
  | cons a steps ih =>
    obtain ⟨u, hu, hrun⟩ := run_cons_ok.mp hrun
    rintro ⟨hnot, hrest⟩
    have hcase := h.step_cases hu
    exact ih (hcase.sound h) ((hcase.toRun htorun).resolve_left hnot) hrun (hrest u hu)

theorem Waiting.due (h : Sound q) (hw : q.Waiting id w) {now : Timestamp}
    (hu : step q (.handleRead now) = .ok q') (hidle : q.batch = none) (hdue : w ≤ now) :
    q'.ToRun id := by
  have hcase := h.step_cases hu
  have halive : q'.Alive id := hcase.alive hw.alive (.inr (by simp))
  cases hcase with
  | unchanged _ hread hrun => exact absurd hidle (hread now rfl)
  | handleRead _ timerfd _ =>
    exact ⟨halive, _, _, rfl,
      OrderedSet.mem_below.mpr ⟨hw.mem, (h.placed.due_iff hw.mem now).mpr hdue⟩, rfl⟩

/-! ### Runs after a cancellation -/

/-- While no `handleRead` begins at which it is due, a waiting timer is not called. -/
theorem Waiting.not_invoked (h : Sound q) (hw : q.Waiting id w) {steps : List Step}
    (hdue : Along step (fun u a => ∀ now, a = .handleRead now → u.batch = none → now < w) q steps) :
    Along step (fun u a => ¬u.Invokes id a) q steps := by
  induction steps generalizing q with
  | nil => trivial
  | cons a steps ih =>
    refine ⟨fun ha => hw.not_inBatch h (ha.inBatch h), ?_⟩
    intro u hu
    have hcase := h.step_cases hu
    exact ih (hcase.sound h) (hcase.waiting h hw hdue.1) (hdue.2 u hu)

/-- A waiting timer that is not called before the last batch is done was never due. -/
theorem Waiting.not_due (h : Sound q) (hw : q.Waiting id w) {steps : List Step}
    (hrun : run step q steps = .ok q') (hend : q'.batch = none)
    (hnot : Along step (fun u a => ¬u.Invokes id a) q steps) :
    Along step (fun u a => ∀ now, a = .handleRead now → u.batch = none → now < w) q steps := by
  induction steps generalizing q with
  | nil => trivial
  | cons a steps ih =>
    obtain ⟨u, hu, hrest⟩ := run_cons_ok.mp hrun
    have hcase := h.step_cases hu
    have hdue : ∀ now, a = .handleRead now → q.batch = none → now < w := by
      rintro now rfl hidle
      by_contra hle
      exact (hw.due h hu hidle (le_of_not_gt hle)).invoked (hcase.sound h) hrest hend (hnot.2 u hu)
    refine ⟨hdue, ?_⟩
    intro v hv
    cases hu.symm.trans hv
    exact ih (hcase.sound h) (hcase.waiting h hw hdue) hrest (hnot.2 u hu)

theorem Gone.not_invoked (h : Sound q) (hgone : q.Gone id) {steps : List Step} :
    Along step (fun u a => ¬u.Invokes id a) q steps := by
  induction steps generalizing q with
  | nil => trivial
  | cons a steps ih =>
    refine ⟨fun ha => hgone.dead ha.2.1, ?_⟩
    intro u hu
    have hcase := h.step_cases hu
    exact ih (hcase.sound h) (hcase.gone hgone)

/-- A cancelled timer of a batch is called by the `handleRead` of that batch only. -/
theorem Cancelled.invoked (h : Sound q) (hc : q.Cancelled id n) {steps : List Step} :
    Along step (fun u a => u.Invokes id a → u.reads = n) q steps := by
  induction steps generalizing q with
  | nil => trivial
  | cons a steps ih =>
    refine ⟨fun _ => hc.reads, ?_⟩
    intro u hu
    have hcase := h.step_cases hu
    rcases hcase.cancelled h hc with hc | hgone
    · exact ih (hcase.sound h) hc
    · exact (hgone.not_invoked (hcase.sound h)).mono fun _ _ hnot ha => absurd ha hnot

theorem InBatch.cancelled (h : Sound q) (hb : q.InBatch id)
    (hu : step q (.cancelInLoop id) = .ok q') : q'.Cancelled id q.reads := by
  have hcalling : q.callingExpiredTimers = true := by
    rw [h.calling]
    obtain ⟨-, e, he, -⟩ := hb
    cases hbatch : q.batch with
    | none =>
      rw [expired_eq_nil hbatch] at he
      exact absurd he List.not_mem_nil
    | some b => rfl
  have hspec := cancelInLoop_spec h.placed.active id
  rw [if_pos hcalling] at hspec
  cases hu.symm.trans hspec
  exact ⟨rfl, ⟨hb.alive, hb.mem⟩, OrderedSet.mem_insert.mpr (.inl rfl)⟩

theorem Waiting.unique {w' : Timestamp} (h : Sound q) (hw : q.Waiting id w)
    (hw' : q.Waiting id w') : w = w' :=
  congrArg Entry.when (h.placed.timers_inj hw.mem hw'.mem rfl)

theorem stopped_of_notDue (h : Sound q) (hinserted : id ∈ q.inserted) {steps : List Step}
    (hdue : Along step (q.NotDue id) q (.cancelInLoop id :: steps)) :
    Along step (q.Stopped id) q (.cancelInLoop id :: steps) := by
  refine ⟨fun ha => absurd ha.1 (by simp), ?_⟩
  intro u hu
  have hcase := h.step_cases hu
  have hsound := hcase.sound h
  have hrest := hdue.2 u hu
  rcases h.located hinserted with ⟨w, hw⟩ | hb | hgone
  · have hw' := hcase.waiting h hw (by simp)
    exact (hw'.not_invoked hsound (hrest.mono fun _ _ hnot now ha hidle => hnot now w ha hidle hw)).mono
      fun _ _ hnot ha => absurd ha hnot
  · exact ((hb.cancelled h hu).invoked hsound).mono fun _ _ hreads ha => ⟨hb, hreads ha⟩
  · exact ((hcase.gone hgone).not_invoked hsound).mono fun _ _ hnot ha => absurd ha hnot

/-- A timer that is stopped in a run that ends between two calls of `handleRead` was never due. -/
theorem notDue_of_stopped (h : Sound q) {steps : List Step}
    (hrun : run step q (.cancelInLoop id :: steps) = .ok q') (hend : q'.batch = none)
    (hstopped : Along step (q.Stopped id) q (.cancelInLoop id :: steps)) :
    Along step (q.NotDue id) q (.cancelInLoop id :: steps) := by
  by_cases hwaiting : ∃ w, q.Waiting id w
  · obtain ⟨w, hw⟩ := hwaiting
    have hnot : Along step (fun u a => ¬u.Invokes id a) q (.cancelInLoop id :: steps) :=
      hstopped.mono fun u a (hs : q.Stopped id u a) ha => hw.not_inBatch h (hs ha).1
    exact (hw.not_due h hrun hend hnot).mono fun _ _ hdue now w' ha hidle hw' =>
      hw.unique h hw' ▸ hdue now ha hidle
  · exact along_of_mem fun _ _ _ _ w _ _ hw => absurd ⟨w, hw⟩ hwaiting

/-- A cancellation stops a timer that was inserted before it, in every run in which the timer, if it
waited, is never due.  In a run that ends between two calls of `handleRead` it does so only then: a
waiting timer is called as if it had not been cancelled. -/
theorem cancel_stops_iff_not_due (hreach : Reachable step new q) (hinserted : id ∈ q.inserted)
    (steps : List Step) :
    (Along step (q.NotDue id) q (.cancelInLoop id :: steps) →
      Along step (q.Stopped id) q (.cancelInLoop id :: steps)) ∧
    ∃ q', run step q (.cancelInLoop id :: steps) = .ok q' ∧ (q'.batch = none →
      (Along step (q.Stopped id) q (.cancelInLoop id :: steps) ↔
        Along step (q.NotDue id) q (.cancelInLoop id :: steps))) := by
  have h := Reachable.sound hreach
  obtain ⟨q', hrun, -⟩ := run_total step_returns h (.cancelInLoop id :: steps)
  exact ⟨stopped_of_notDue h hinserted, q', hrun, fun hend =>
    ⟨notDue_of_stopped h hrun hend, stopped_of_notDue h hinserted⟩⟩

end

theorem cancel_stops_timer_not_due : ∃ q : TimerQueue,
    Reachable step new q ∧ ⟨7, 1⟩ ∈ q.inserted ∧
    Along step (q.Stopped ⟨7, 1⟩) q [.cancelInLoop ⟨7, 1⟩, .handleRead 99, .finishRead 99] := by
  obtain ⟨q, hq⟩ : ∃ q, run step new [.addTimer 7 100 none, .addTimerInLoop 7 0] = .ok q := ⟨_, rfl⟩
  have hinserted : ⟨7, 1⟩ ∈ q.inserted := by cases hq; decide
  have htimers : ∀ e ∈ q.timers, e = Entry.mk 100 7 := by cases hq; decide
  refine ⟨q, ⟨_, hq⟩, hinserted, (cancel_stops_iff_not_due ⟨_, hq⟩ hinserted _).1 ?_⟩
  refine along_of_mem ?_
  intro a ha u now w hnow _ hw
  have hwhen : w = 100 := congrArg Entry.when (htimers _ hw.mem)
  have hread : now = 99 := by simpa [hnow] using ha
  rw [hread, hwhen]
  decide

/-- A timer for the time 100 is cancelled between two calls of `handleRead`, and called when the
clock reads 100. -/
theorem cancelled_timer_called : ∃ q u : TimerQueue,
    Reachable step new q ∧ ⟨7, 1⟩ ∈ q.inserted ∧ q.batch = none ∧
    run step q [.cancelInLoop ⟨7, 1⟩, .handleRead 100] = .ok u ∧ u.Invokes ⟨7, 1⟩ .runNext ∧
    ¬Along step (q.Stopped ⟨7, 1⟩) q [.cancelInLoop ⟨7, 1⟩, .handleRead 100, .runNext] := by
  obtain ⟨q, hq⟩ : ∃ q, run step new [.addTimer 7 100 none, .addTimerInLoop 7 0] = .ok q := ⟨_, rfl⟩
  have hinserted : ⟨7, 1⟩ ∈ q.inserted := by cases hq; decide
  have hidle : q.batch = none := by cases hq; rfl
  have heval : (run step q [.cancelInLoop ⟨7, 1⟩, .handleRead 100] >>= fun u =>
      .ok (u.heap 7, u.batch)) =
      .ok (some ⟨100, none, 1⟩, some ⟨100, [.mk 100 7], [.mk 100 7]⟩) := by
    cases hq
    decide +kernel
  obtain ⟨u, hu, heval⟩ := bind_eq_ok.mp heval
  simp only [Except.ok.injEq, Prod.mk.injEq] at heval
  obtain ⟨hheap, hbatch⟩ := heval
  have hinvokes : u.Invokes ⟨7, 1⟩ .runNext :=
    ⟨rfl, ⟨_, hheap, rfl⟩, _, .mk 100 7, [], hbatch, rfl, rfl⟩
  refine ⟨q, u, ⟨_, hq⟩, hinserted, hidle, hu, hinvokes, ?_⟩
  intro hstopped
  have hnot := along_iff.mp hstopped [.cancelInLoop ⟨7, 1⟩, .handleRead 100] .runNext [] rfl u hu
  obtain ⟨-, e, he, -⟩ := (hnot hinvokes).1
  rw [expired_eq_nil hidle] at he
  exact absurd he List.not_mem_nil

end Mymuduo.TimerQueue
