import Mymuduo.Net.TimerCancel

/-! Who owns a timer.  Timers are named by their sequence numbers, since an address may be given out
again.  At every moment of every run a timer that was created is in one place: its `addTimerInLoop`
is queued, or it is in `timers_`, or it is in the batch that is being processed, or it is deleted. -/

namespace Mymuduo.TimerQueue

open Lib

/-- Where a timer is. -/
inductive TimerPlace
  | queued
  | timers
  | batch
  | deleted
  deriving DecidableEq, Repr

/-- The moments of a queue up to the end of its next step, with the expired timers that are neither
put back nor deleted yet: the state itself, and those between two rounds of the loop of `reset`. -/
inductive Moment (q : TimerQueue) : TimerQueue → List Entry → Prop
  | between : Moment q q q.expired
  | resetting {now : Timestamp} {done rest : List Entry} {u : TimerQueue}
      (hbatch : q.batch = some ⟨now, done ++ rest, []⟩)
      (hloop : run (resetOne now) { q with callingExpiredTimers := false, batch := none } done =
        .ok u) : Moment q u rest

/-- The timer with the number `n` is in memory, at an address in `held`. -/
def HeldIn (q : TimerQueue) (n : Nat) (held : Nat → Prop) : Prop :=
  ∃ p t, q.heap p = some t ∧ t.sequence = n ∧ held p

/-- The timer with the number `n` is at a place, when `batch` is still to be processed. -/
def At (q : TimerQueue) (batch : List Entry) (n : Nat) : TimerPlace → Prop
  | .queued => q.HeldIn n fun p => p ∈ q.queued
  | .timers => q.HeldIn n fun p => ∃ e ∈ q.timers, e.timer = p
  | .batch => q.HeldIn n fun p => ∃ e ∈ batch, e.timer = p
  | .deleted => ∀ p t, q.heap p = some t → t.sequence ≠ n

/-- Every timer is in one place, once, and no place holds anything but timers in memory, in
`timers_` under their expiration. -/
structure Owned (q : TimerQueue) (batch : List Entry) : Prop where
  place : ∀ n, 0 < n → n ≤ q.numCreated → ∃! place, q.At batch n place
  queued : ∀ p ∈ q.queued, ∃ t, q.heap p = some t
  queued_once : q.queued.Nodup
  key : ∀ e ∈ q.timers, ∃ t, q.heap e.timer = some t ∧ e.when = t.expiration
  timers_once : ∀ e ∈ q.timers, ∀ e' ∈ q.timers, e.timer = e'.timer → e = e'
  expired : ∀ e ∈ batch, ∃ t, q.heap e.timer = some t
  expired_once : (batch.map Entry.timer).Nodup

/-- A deleted timer stays deleted, and what stays at an address is the same timer. -/
structure Keeps (q q' : TimerQueue) : Prop where
  deleted : ∀ n, n ≤ q.numCreated → (∀ p t, q.heap p = some t → t.sequence ≠ n) →
    ∀ p t, q'.heap p = some t → t.sequence ≠ n
  same : ∀ p t t', q.heap p = some t → q'.heap p = some t' → t'.sequence = t.sequence

/-- No two timers in memory have one number. -/
def Numbered (q : TimerQueue) : Prop :=
  ∀ p p' t t', q.heap p = some t → q.heap p' = some t' → t.sequence = t'.sequence → p = p'

section

variable {q q' : TimerQueue} {batch : List Entry} {n : Nat} {a : Step}

/-! ### One moment -/

theorem HeldIn.address {held : Nat → Prop} (hnumbered : q.Numbered) {p : Nat} {t : Timer}
    (ht : q.heap p = some t) (h : q.HeldIn t.sequence held) : held p := by
  obtain ⟨p', t', ht', hseq, hheld⟩ := h
  obtain rfl : p' = p := hnumbered p' p t' t ht' ht hseq
  exact hheld

/-- The places exclude each other, and leave out no timer. -/
theorem Placed.at_unique (h : Placed q batch) (hnumbered : q.Numbered) (n : Nat) :
    ∃! place, q.At batch n place := by
  by_cases hlive : ∃ p t, q.heap p = some t ∧ t.sequence = n
  · obtain ⟨p, t, ht, rfl⟩ := hlive
    have hdeleted : ¬q.At batch t.sequence .deleted := fun hgone => hgone p t ht rfl
    rcases h.place p t ht with hq | hmem | hbatch
    · refine ⟨.queued, ⟨p, t, ht, rfl, hq⟩, ?_⟩
      intro place hplace
      cases place with
      | queued => rfl
      | timers =>
        obtain ⟨e, he, rfl⟩ := HeldIn.address hnumbered ht hplace
        exact absurd hq (h.timers e he).1
      | batch =>
        obtain ⟨e, he, rfl⟩ := HeldIn.address hnumbered ht hplace
        exact absurd hq (h.batch e he).1
      | deleted => exact absurd hplace hdeleted
    · refine ⟨.timers, ⟨p, t, ht, rfl, _, hmem, rfl⟩, ?_⟩
      intro place hplace
      cases place with
      | queued => exact absurd (HeldIn.address hnumbered ht hplace) (h.timers _ hmem).1
      | timers => rfl
      | batch =>
        obtain ⟨e, he, htimer⟩ := HeldIn.address hnumbered ht hplace
        exact absurd htimer.symm ((h.batch e he).2.1 _ hmem)
      | deleted => exact absurd hplace hdeleted
    · refine ⟨.batch, ⟨p, t, ht, rfl, hbatch⟩, ?_⟩
      obtain ⟨e, he, rfl⟩ := hbatch
      intro place hplace
      cases place with
      | queued => exact absurd (HeldIn.address hnumbered ht hplace) (h.batch e he).1
      | timers =>
        obtain ⟨e', he', htimer⟩ := HeldIn.address hnumbered ht hplace
        exact absurd htimer ((h.batch e he).2.1 e' he')
      | batch => rfl
      | deleted => exact absurd hplace hdeleted
  · have hheld : ∀ held, ¬q.HeldIn n held := by
      rintro held ⟨p, t, ht, hseq, -⟩
      exact hlive ⟨p, t, ht, hseq⟩
    refine ⟨.deleted, fun p t ht hseq => hlive ⟨p, t, ht, hseq⟩, ?_⟩
    intro place hplace
    cases place with
    | deleted => rfl
    | queued | timers | batch => exact absurd hplace (hheld _)

theorem Placed.owned (h : Placed q batch) (hnumbered : q.Numbered) : q.Owned batch where
  place n _ _ := h.at_unique hnumbered n
  queued := h.queued
  queued_once := h.queued_nodup
  key e he := by
    obtain ⟨-, t, ht, hwhen⟩ := h.timers e he
    exact ⟨t, ht, hwhen.symm⟩
  timers_once e he e' he' := h.timers_inj he he'
  expired e he := (h.batch e he).2.2
  expired_once := h.batch_nodup

/-! ### The loop of `reset` -/

/-- What is in memory after the loop was there before it, with the same number. -/
theorem resetLoop_sequence {now : Timestamp} {expired : List Entry}
    (h : run (resetOne now) q expired = .ok q') :
    ∀ p t, q'.heap p = some t → ∃ u, q.heap p = some u ∧ t.sequence = u.sequence := by
  refine run_invariant (I := fun q' => ∀ p t, q'.heap p = some t →
    ∃ u, q.heap p = some u ∧ t.sequence = u.sequence) ?_ (fun p t ht => ⟨t, ht, rfl⟩) h
  intro v it w hv hw p t ht
  obtain ⟨s, hs, ⟨-, rfl⟩ | ⟨-, rfl⟩⟩ := resetOne_cases hw
  · rcases update_eq_some.mp ht with ⟨rfl, hback⟩ | ⟨-, ht⟩
    · cases hback
      obtain ⟨u, hu, hseq⟩ := hv _ s hs
      exact ⟨u, hu, (Timer.restart_sequence s now).trans hseq⟩
    · exact hv p t ht
  · rcases update_eq_some.mp ht with ⟨-, hnone⟩ | ⟨-, ht⟩
    · cases hnone
    · exact hv p t ht

theorem Numbered.of_sequence (h : q.Numbered) (hold : ∀ p t, q'.heap p = some t →
    ∃ u, q.heap p = some u ∧ t.sequence = u.sequence) : q'.Numbered := by
  intro p p' t t' ht ht' hseq
  obtain ⟨u, hu, hsame⟩ := hold p t ht
  obtain ⟨u', hu', hsame'⟩ := hold p' t' ht'
  exact h p p' u u' hu hu' (hsame.symm.trans (hseq.trans hsame'))

theorem keeps_of_sequence (hold : ∀ p t, q'.heap p = some t →
    ∃ u, q.heap p = some u ∧ t.sequence = u.sequence) : q.Keeps q' where
  deleted n _ hgone p t ht := by
    obtain ⟨u, hu, hsame⟩ := hold p t ht
    rw [hsame]
    exact hgone p u hu
  same p t t' ht ht' := by
    obtain ⟨u, hu, hsame⟩ := hold p t' ht'
    cases ht.symm.trans hu
    exact hsame

/-- The loop has come to some timer of the batch: those after it are still in the batch. -/
theorem Placed.resetPart {now : Timestamp} {done rest : List Entry} (h : Placed q (done ++ rest))
    (hloop : run (TimerQueue.resetOne now) q done = .ok q') : Placed q' rest := by
  induction done generalizing q with
  | nil =>
    cases hloop
    exact h
  | cons it done ih =>
    obtain ⟨u, hone, hloop⟩ := run_cons_ok.mp hloop
    obtain ⟨v, hv, hplaced⟩ := Placed.resetOne h now
    cases hone.symm.trans hv
    exact ih hplaced hloop

/-! ### Steps and runs -/

theorem StepCase.sequence (hcase : StepCase q a q') :
    (∃ p when interval, q.heap p = none ∧ q' = q.addTimer p when interval) ∨
    ∀ p t, q'.heap p = some t → ∃ u, q.heap p = some u ∧ t.sequence = u.sequence := by
  cases hcase with
  | addTimer p when interval hfree hp => exact .inl ⟨p, when, interval, hfree, rfl⟩
  | finishRead clock now expired q' timerfd hbatch hloop hplaced =>
    exact .inr fun p t ht => resetLoop_sequence hloop p t ht
  | _ => exact .inr fun p t ht => ⟨t, ht, rfl⟩

theorem StepCase.numbered (hcase : StepCase q a q') (h : Sound q) (hnumbered : q.Numbered) :
    q'.Numbered := by
  rcases hcase.sequence with ⟨p₀, when, interval, -, rfl⟩ | hold
  · intro p p' t t' ht ht' hseq
    have hle := h.placed.sequence
    rcases update_eq_some.mp ht with ⟨rfl, hnew⟩ | ⟨hne, ht⟩
    · cases hnew
      rcases update_eq_some.mp ht' with ⟨rfl, -⟩ | ⟨-, ht'⟩
      · rfl
      · have := hle p' t' ht'
        dsimp only at hseq
        omega
    · rcases update_eq_some.mp ht' with ⟨-, hnew⟩ | ⟨-, ht'⟩
      · cases hnew
        have := hle p t ht
        dsimp only at hseq
        omega
      · exact hnumbered p p' t t' ht ht' hseq
  · exact hnumbered.of_sequence hold

theorem StepCase.keeps (hcase : StepCase q a q') : q.Keeps q' := by
  rcases hcase.sequence with ⟨p₀, when, interval, hfree, rfl⟩ | hold
  · constructor
    · intro n hn hgone p t ht
      rcases update_eq_some.mp ht with ⟨-, hnew⟩ | ⟨-, ht⟩
      · cases hnew
        dsimp only
        omega
      · exact hgone p t ht
    · intro p t t' ht ht'
      rcases update_eq_some.mp ht' with ⟨rfl, -⟩ | ⟨-, ht'⟩
      · rw [hfree] at ht
        cases ht
      · cases ht.symm.trans ht'
        rfl
  · exact keeps_of_sequence hold

theorem Moment.owned {u : TimerQueue} (hmoment : q.Moment u batch) (h : Sound q)
    (hnumbered : q.Numbered) : u.Owned batch := by
  cases hmoment with
  | between => exact h.placed.owned hnumbered
  | @resetting now done rest u hbatch hloop =>
    have hplaced := h.placed
    rw [expired_eq hbatch] at hplaced
    have hstart : Placed { q with callingExpiredTimers := false, batch := none } (done ++ batch) :=
      hplaced.frame rfl rfl rfl rfl rfl rfl
    have hnumbered' : Numbered { q with callingExpiredTimers := false, batch := none } := hnumbered
    exact (hstart.resetPart hloop).owned (hnumbered'.of_sequence (resetLoop_sequence hloop))

end

end Mymuduo.TimerQueue
