import Mathlib.Order.MinMax
import Mymuduo.Base.LocalTime
import Mymuduo.Net.TimerInvariant

/-! When the timerfd is armed.  What is seen of a run here are the calls of `resetTimerfd`, each with
the clock that it reads and the expiration that it is given.  Between two calls of `handleRead` the
descriptor is armed for the earliest timer, or for the moment 100 microseconds after the last of
these calls if that is later; while callbacks are run this holds at least if a timer is there whose
expiration `reset` would take for an invalid one. -/

namespace Mymuduo

open Lib

/-- `struct timespec` -/
structure Timespec where
  tv_sec : Int
  tv_nsec : Int
  deriving DecidableEq, Repr

/-- What `timerfd_settime` takes to arm the descriptor. -/
structure Timespec.Arms (ts : Timespec) : Prop where
  nonzero : ts ≠ ⟨0, 0⟩
  tv_sec_nonneg : 0 ≤ ts.tv_sec
  tv_nsec_nonneg : 0 ≤ ts.tv_nsec
  tv_nsec_lt : ts.tv_nsec < 1000000000

/-- A call of `resetTimerfd`. -/
structure ResetCall where
  clock : Timestamp
  expiration : Timestamp
  deriving DecidableEq, Repr

namespace ResetCall

/-- The time that `howMuchTimeFromNow` returns, in microseconds. -/
def microseconds (c : ResetCall) : Int := TimerQueue.howMuchTimeFromNow c.clock c.expiration

/-- The `timespec` that `howMuchTimeFromNow` returns and `timerfd_settime` is given. -/
def timespec (c : ResetCall) : Timespec where
  tv_sec := c.microseconds.tdiv kMicroSecondsPerSecond
  tv_nsec := c.microseconds.tmod kMicroSecondsPerSecond * 1000

/-- The moment for which the call arms the descriptor. -/
def moment (c : ResetCall) : Timestamp := c.clock + c.microseconds

theorem microseconds_eq (c : ResetCall) : c.microseconds = max (c.expiration - c.clock) 100 := by
  rcases lt_or_ge (c.expiration - c.clock) 100 with h | h
  · rw [microseconds, TimerQueue.howMuchTimeFromNow, if_pos h, max_eq_right h.le]
  · rw [microseconds, TimerQueue.howMuchTimeFromNow, if_neg (not_lt.mpr h), max_eq_left h]

theorem hundred_le_microseconds (c : ResetCall) : 100 ≤ c.microseconds := by
  rw [microseconds_eq]
  exact le_max_right _ _

/-- The descriptor is armed for the expiration, or for 100 microseconds from now. -/
theorem moment_eq (c : ResetCall) : c.moment = max c.expiration (c.clock + 100) := by
  have hmax : ∀ clock expiration : Int,
      clock + max (expiration - clock) 100 = max expiration (clock + 100) := by
    intro clock expiration
    omega
  rw [moment, microseconds_eq]
  exact hmax c.clock c.expiration

/-- Every value that `timerfd_settime` is given is well-formed, and it arms the descriptor. -/
theorem timespec_arms (c : ResetCall) : c.timespec.Arms := by
  have hle := c.hundred_le_microseconds
  have hdiv : c.microseconds.tdiv kMicroSecondsPerSecond = c.microseconds / 1000000 :=
    Int.tdiv_eq_ediv_of_nonneg (by omega)
  have hmod : c.microseconds.tmod kMicroSecondsPerSecond = c.microseconds % 1000000 :=
    Int.tmod_eq_emod_of_nonneg (by omega)
  constructor
  · intro hzero
    have hsec := congrArg Timespec.tv_sec hzero
    have hnsec := congrArg Timespec.tv_nsec hzero
    simp only [timespec, hdiv, hmod] at hsec hnsec
    omega
  · simp only [timespec, hdiv]
    omega
  · simp only [timespec, hmod]
    omega
  · simp only [timespec, hmod]
    omega

/-- The `timespec` is the time that was asked for. -/
theorem timespec_nanoseconds (c : ResetCall) :
    c.timespec.tv_sec * 1000000000 + c.timespec.tv_nsec = c.microseconds * 1000 := by
  have hsplit := Int.tmod_add_mul_tdiv c.microseconds kMicroSecondsPerSecond
  have hsecond : kMicroSecondsPerSecond = 1000000 := rfl
  simp only [timespec, hsecond] at hsplit ⊢
  omega

end ResetCall

namespace TimerQueue

/-- The calls of `resetTimerfd` that a step makes. -/
def resetCalls (q : TimerQueue) : Step → List ResetCall
  | .addTimerInLoop p clock =>
    if p ∈ q.queued then
      match insert { q with queued := q.queued.erase p } p, q.heap p with
      | .ok (_, true), some t => [⟨clock, t.expiration⟩]
      | _, _ => []
    else
      []
  | .finishRead clock =>
    match q.batch with
    | some ⟨now, expired, []⟩ =>
      match run (resetOne now) { q with callingExpiredTimers := false, batch := none } expired with
      | .ok q =>
        match q.timers.first with
        | some it =>
          match q.heap it.timer with
          | some t => if 0 < t.expiration then [⟨clock, t.expiration⟩] else []
          | none => []
        | none => []
      | .error _ => []
    | _ => []
  | _ => []

/-- The last call of `resetTimerfd` has armed the descriptor, early enough for every timer. -/
def ArmedFor (q : TimerQueue) (calls : List ResetCall) : Prop :=
  ∃ c, calls.getLast? = some c ∧ q.timerfd = some c.moment ∧
    ∀ e ∈ q.timers, c.moment ≤ max e.when (c.clock + 100)

/-- Between two calls of `handleRead` the descriptor is armed for the timers that there are.  In a
`handleRead` it is, or all timers left expire at times that are valid. -/
structure Watched (q : TimerQueue) (calls : List ResetCall) : Prop where
  sound : Sound q
  idle : q.batch = none → (∃ e, e ∈ q.timers) → q.ArmedFor calls
  reading : ∀ b, q.batch = some b → 0 < b.now ∧ ((∀ e ∈ q.timers, 0 < e.when) ∨ q.ArmedFor calls)

section

variable {q q' : TimerQueue} {calls : List ResetCall} {p : Nat} {t : Timer}

theorem ArmedFor.frame (h : q.ArmedFor calls) (htimerfd : q'.timerfd = q.timerfd)
    (htimers : ∀ e ∈ q'.timers, ∃ e' ∈ q.timers, e'.when ≤ e.when) : q'.ArmedFor calls := by
  obtain ⟨c, hlast, harmed, hall⟩ := h
  refine ⟨c, hlast, htimerfd.trans harmed, ?_⟩
  intro e he
  obtain ⟨e', he', hle⟩ := htimers e he
  exact (hall e' he').trans (max_le_max_right _ hle)

/-- A call of `resetTimerfd` for an expiration that no timer precedes. -/
theorem armedFor_reset {c : ResetCall} (htimerfd : q.timerfd = some c.moment)
    (hfirst : ∀ e ∈ q.timers, c.expiration ≤ e.when) : q.ArmedFor (calls ++ [c]) := by
  refine ⟨c, by simp, htimerfd, ?_⟩
  intro e he
  rw [c.moment_eq]
  exact max_le_max_right _ (hfirst e he)

/-- `insert` tells whether the timer comes before all others. -/
theorem insert_earliest (ht : q.heap p = some t) :
    (q.insert p = .ok ({ q with timers := q.timers.insert (.mk t.expiration p) }, true) ∧
      ∀ e ∈ q.timers, t.expiration < e.when) ∨
    (q.insert p = .ok ({ q with timers := q.timers.insert (.mk t.expiration p) }, false) ∧
      ∃ e ∈ q.timers, e.when ≤ t.expiration) := by
  rw [insert, deref_eq_ok ht, ok_bind]
  cases hfirst : q.timers.first with
  | none => exact .inl ⟨rfl, fun e he => absurd he (OrderedSet.first_eq_none.mp hfirst e)⟩
  | some it =>
    obtain ⟨hmem, hmin⟩ := OrderedSet.first_spec hfirst
    by_cases hlt : t.expiration < it.when
    · refine .inl ⟨by simp only [hlt, decide_true]; rfl, fun e he => lt_of_lt_of_le hlt ?_⟩
      exact Entry.when_le (hmin e he)
    · exact .inr ⟨by simp only [hlt, decide_false]; rfl, it, hmem, not_lt.mp hlt⟩

/-- The loop of `reset` adds only timers that expire after the clock of their `handleRead`. -/
theorem resetLoop_when {now : Timestamp} {expired : List Entry}
    (h : run (resetOne now) q expired = .ok q') :
    (∀ e ∈ q.timers, e ∈ q'.timers) ∧ ∀ e ∈ q'.timers, e ∈ q.timers ∨ now ≤ e.when := by
  refine run_invariant (I := fun q' => (∀ e ∈ q.timers, e ∈ q'.timers) ∧
    ∀ e ∈ q'.timers, e ∈ q.timers ∨ now ≤ e.when) ?_
    ⟨fun _ he => he, fun _ he => .inl he⟩ h
  intro u it v hu hv
  obtain ⟨t, -, ⟨⟨hrepeat, -⟩, rfl⟩ | ⟨-, rfl⟩⟩ := resetOne_cases hv
  · refine ⟨fun e he => OrderedSet.mem_insert.mpr (.inr (hu.1 e he)), ?_⟩
    intro e he
    rcases OrderedSet.mem_insert.mp he with rfl | he
    · obtain ⟨delta, hdelta⟩ := Option.isSome_iff_exists.mp hrepeat
      right
      rw [Timer.restart, hdelta]
      exact Int.le_add_of_nonneg_right (Int.natCast_nonneg delta)
    · exact hu.2 e he
  · exact hu

/-- What `reset` does with the descriptor. -/
theorem reset_timerfd {now clock : Timestamp} {expired : List Entry} {q₁ : TimerQueue}
    (hloop : run (resetOne now) q expired = .ok q₁) (hplaced : Placed q₁ [])
    (h : q.reset expired now clock = .ok q') :
    (∃ it, q₁.timers.first = some it ∧ 0 < it.when ∧ q' = q₁.resetTimerfd clock it.when) ∨
    ((∀ it, q₁.timers.first = some it → it.when ≤ 0) ∧ q' = q₁) := by
  rw [reset, hloop, ok_bind] at h
  cases hfirst : q₁.timers.first with
  | none =>
    rw [hfirst] at h
    cases h
    exact .inr ⟨by simp, rfl⟩
  | some it =>
    obtain ⟨-, t, ht, hexp⟩ := hplaced.timers it (OrderedSet.first_spec hfirst).1
    rw [hfirst] at h
    dsimp only at h
    rw [deref_eq_ok ht, ok_bind, hexp] at h
    by_cases hvalid : 0 < it.when
    · rw [if_pos hvalid] at h
      cases h
      exact .inl ⟨it, rfl, hvalid, rfl⟩
    · rw [if_neg hvalid] at h
      cases h
      refine .inr ⟨?_, rfl⟩
      intro it' hit'
      cases hit'
      exact not_lt.mp hvalid

/-- What `addTimerInLoop` does with the descriptor. -/
theorem addTimerInLoop_timerfd {clock : Timestamp} (hp : p ∈ q.queued) (ht : q.heap p = some t)
    (h : step q (.addTimerInLoop p clock) = .ok q') :
    q'.batch = q.batch ∧ q'.timers = q.timers.insert (.mk t.expiration p) ∧
      ((q.resetCalls (.addTimerInLoop p clock) = [⟨clock, t.expiration⟩] ∧
          q'.timerfd = some (ResetCall.moment ⟨clock, t.expiration⟩) ∧
          ∀ e ∈ q.timers, t.expiration < e.when) ∨
        (q.resetCalls (.addTimerInLoop p clock) = [] ∧ q'.timerfd = q.timerfd ∧
          ∃ e ∈ q.timers, e.when ≤ t.expiration)) := by
  have hderef : deref { q with
      queued := q.queued.erase p
      timers := q.timers.insert (.mk t.expiration p) } p = .ok t := deref_eq_ok ht
  rw [step, if_pos hp, addTimerInLoop] at h
  rcases insert_earliest (q := { q with queued := q.queued.erase p }) ht with
    ⟨hinsert, hfirst⟩ | ⟨hinsert, hlater⟩
  · rw [hinsert, ok_bind] at h
    dsimp only at h
    rw [hderef] at h
    cases h
    refine ⟨rfl, rfl, .inl ⟨?_, rfl, hfirst⟩⟩
    simp only [resetCalls, if_pos hp, hinsert, ht]
  · rw [hinsert, ok_bind] at h
    dsimp only at h
    rw [hderef] at h
    cases h
    refine ⟨rfl, rfl, .inr ⟨?_, rfl, hlater⟩⟩
    simp only [resetCalls, if_pos hp, hinsert]

theorem mem_insert_when {e : Entry} {w : Timestamp} (he : e ∈ q.timers.insert (.mk w p)) :
    e.when = w ∨ e ∈ q.timers := by
  rcases OrderedSet.mem_insert.mp he with rfl | he
  · exact .inl rfl
  · exact .inr he

theorem Watched.addTimerInLoop {clock : Timestamp} (hw : q.Watched calls) (hp : p ∈ q.queued)
    (ht : q.heap p = some t) (h : step q (.addTimerInLoop p clock) = .ok q') :
    q'.Watched (calls ++ q.resetCalls (.addTimerInLoop p clock)) := by
  have hsound := step_sound q _ q' hw.sound h
  obtain ⟨hbatch, htimers, ⟨hcalls, htimerfd, hfirst⟩ | ⟨hcalls, htimerfd, e₀, he₀, hle⟩⟩ :=
    addTimerInLoop_timerfd hp ht h
  · -- The timer is the earliest one: the descriptor is armed for it.
    have harmed : q'.ArmedFor (calls ++ [⟨clock, t.expiration⟩]) := by
      refine armedFor_reset htimerfd ?_
      intro e he
      rw [htimers] at he
      rcases mem_insert_when he with heq | he
      · exact heq.ge
      · exact (hfirst e he).le
    rw [hcalls]
    exact ⟨hsound, fun _ _ => harmed,
      fun b hb => ⟨(hw.reading b (hbatch ▸ hb)).1, .inr harmed⟩⟩
  · -- A timer before it is there, for which the descriptor is armed.
    have hkept : q.ArmedFor calls → q'.ArmedFor calls := fun harmed => by
      refine harmed.frame htimerfd ?_
      intro e he
      rw [htimers] at he
      rcases mem_insert_when he with heq | he
      · exact ⟨e₀, he₀, heq ▸ hle⟩
      · exact ⟨e, he, le_refl _⟩
    rw [hcalls, List.append_nil]
    refine ⟨hsound, fun hidle _ => hkept (hw.idle (hbatch ▸ hidle) ⟨e₀, he₀⟩), ?_⟩
    intro b hb
    obtain ⟨hnow, hvalid | harmed⟩ := hw.reading b (hbatch ▸ hb)
    · refine ⟨hnow, .inl ?_⟩
      intro e he
      rw [htimers] at he
      rcases mem_insert_when he with heq | he
      · exact heq ▸ (hvalid e₀ he₀).trans_le hle
      · exact hvalid e he
    · exact ⟨hnow, .inr (hkept harmed)⟩

/-- `handleRead` leaves only timers that expire after its clock. -/
theorem Watched.handleRead {now : Timestamp} (hw : q.Watched calls) (hnow : 0 < now)
    (hidle : q.batch = none) (h : step q (.handleRead now) = .ok q') : q'.Watched calls := by
  have hsound := step_sound q _ q' hw.sound h
  have hcase := hw.sound.step_cases h
  cases hcase with
  | unchanged _ hread => exact absurd hidle (hread now rfl)
  | handleRead _ timerfd _ =>
    refine ⟨hsound, nofun, ?_⟩
    intro b hb
    cases hb
    refine ⟨hnow, .inl ?_⟩
    intro e he
    obtain ⟨hmem, hle⟩ := OrderedSet.mem_eraseBelow.mp he
    exact hnow.trans_le (Entry.when_le hle)

/-- A `handleRead` that ends arms the descriptor, unless a callback has done so for a timer whose
expiration is not valid. -/
theorem Watched.finishRead {clock now : Timestamp} {expired : List Entry} (hw : q.Watched calls)
    (hbatch : q.batch = some ⟨now, expired, []⟩) (h : step q (.finishRead clock) = .ok q') :
    q'.Watched (calls ++ q.resetCalls (.finishRead clock)) := by
  have hsound := step_sound q _ q' hw.sound h
  obtain ⟨q₁, -, hloop, hplaced, -⟩ := hw.sound.finishRead hbatch clock
  obtain ⟨hnow, hwatched⟩ := hw.reading _ hbatch
  obtain ⟨hkept, hadded⟩ := resetLoop_when hloop
  have hframe := resetLoop_frame hloop
  have hreset : reset { q with callingExpiredTimers := false, batch := none } expired now clock =
      .ok q' := by
    rw [← h, step, TimerQueue.finishRead, hbatch]
  have hidle : q₁.batch = none := by rw [hframe]
  have htimerfd : q₁.timerfd = q.timerfd := by rw [hframe]
  rcases reset_timerfd hloop hplaced hreset with ⟨it, hfirst, hvalid, rfl⟩ | ⟨hinvalid, rfl⟩
  · obtain ⟨hmem, hmin⟩ := OrderedSet.first_spec hfirst
    obtain ⟨-, t, ht, hexp⟩ := hplaced.timers it hmem
    have hcalls : q.resetCalls (.finishRead clock) = [⟨clock, it.when⟩] := by
      simp only [resetCalls, hbatch, hloop, hfirst, ht, hexp, if_pos hvalid]
    rw [hcalls]
    refine ⟨hsound, fun _ _ => armedFor_reset rfl fun e he => Entry.when_le (hmin e he), ?_⟩
    intro b hb
    rw [show (q₁.resetTimerfd clock it.when).batch = none from hidle] at hb
    cases hb
  · have hcalls : q.resetCalls (.finishRead clock) = [] := by
      simp only [resetCalls, hbatch, hloop]
      cases hfirst : q'.timers.first with
      | none => rfl
      | some it =>
        obtain ⟨-, t, ht, hexp⟩ := hplaced.timers it (OrderedSet.first_spec hfirst).1
        simp only [ht, hexp, if_neg (not_lt.mpr (hinvalid it hfirst))]
    rw [hcalls, List.append_nil]
    refine ⟨hsound, fun _ hsome => ?_, fun b hb => by rw [hidle] at hb; cases hb⟩
    obtain ⟨e, he⟩ := hsome
    cases hfirst : q'.timers.first with
    | none => exact absurd he (OrderedSet.first_eq_none.mp hfirst e)
    | some it =>
      -- The earliest timer was not put back by `reset`, whose timers are valid.
      obtain ⟨hmem, hmin⟩ := OrderedSet.first_spec hfirst
      have hle := hinvalid it hfirst
      have hold : it ∈ q.timers :=
        (hadded it hmem).resolve_right fun hge => absurd (hnow.trans_le hge) (not_lt.mpr hle)
      have harmed : q.ArmedFor calls :=
        hwatched.resolve_left fun hvalid => absurd (hvalid it hold) (not_lt.mpr hle)
      exact harmed.frame htimerfd fun e' he' => ⟨it, hold, Entry.when_le (hmin e' he')⟩

/-- A step that leaves the timers, the descriptor and the clock of the batch alone. -/
theorem Watched.frame (hw : q.Watched calls) (hsound : Sound q') (htimers : q'.timers = q.timers)
    (htimerfd : q'.timerfd = q.timerfd)
    (hbatch : q'.batch.map Batch.now = q.batch.map Batch.now) : q'.Watched calls := by
  have harmed : q.ArmedFor calls → q'.ArmedFor calls := fun harmed =>
    harmed.frame htimerfd fun e he => ⟨e, htimers ▸ he, le_refl _⟩
  refine ⟨hsound, fun hidle hsome => harmed (hw.idle ?_ (htimers ▸ hsome)), ?_⟩
  · rw [hidle] at hbatch
    exact Option.map_eq_none_iff.mp hbatch.symm
  · intro b hb
    rw [hb] at hbatch
    obtain ⟨b', hb', hnow⟩ := Option.map_eq_some_iff.mp hbatch.symm
    obtain ⟨hpos, hvalid⟩ := hw.reading b' hb'
    exact ⟨hnow ▸ hpos, hvalid.imp (fun hall e he => hall e (htimers ▸ he)) harmed⟩

/-- A step that makes no call of `resetTimerfd`. -/
theorem Watched.silent {a : Step} (hw : q'.Watched calls) (hcalls : q.resetCalls a = []) :
    q'.Watched (calls ++ q.resetCalls a) := by
  rw [hcalls, List.append_nil]
  exact hw

theorem Watched.step {a : Step} (hw : q.Watched calls)
    (hclock : ∀ now, a = .handleRead now → 0 < now) (h : step q a = .ok q') :
    q'.Watched (calls ++ q.resetCalls a) := by
  have hsound := step_sound q a q' hw.sound h
  have hcase := hw.sound.step_cases h
  cases a with
  | addTimer p when interval =>
    refine Watched.silent ?_ rfl
    cases hcase with
    | unchanged => exact hw
    | addTimer => exact hw.frame hsound rfl rfl rfl
  | cancelInLoop id =>
    refine Watched.silent ?_ rfl
    cases hcase with
    | unchanged => exact hw
    | cancelInLoop => exact hw.frame hsound rfl rfl rfl
  | runNext =>
    refine Watched.silent ?_ rfl
    cases hcase with
    | unchanged => exact hw
    | runNext now expired it todo hbatch =>
      exact hw.frame hsound rfl rfl (by rw [hbatch]; rfl)
  | addTimerInLoop p clock =>
    by_cases hp : p ∈ q.queued
    · obtain ⟨t, ht⟩ := hw.sound.placed.queued p hp
      exact hw.addTimerInLoop hp ht h
    · rw [TimerQueue.step, if_neg hp] at h
      cases h
      exact hw.silent (if_neg hp)
  | handleRead now =>
    refine Watched.silent ?_ rfl
    by_cases hidle : q.batch = none
    · exact hw.handleRead (hclock now rfl) hidle h
    · rw [TimerQueue.step, if_neg hidle] at h
      cases h
      exact hw
  | finishRead clock =>
    rcases hbatch : q.batch with _ | ⟨now, expired, _ | ⟨it, todo⟩⟩
    · rw [TimerQueue.step, TimerQueue.finishRead, hbatch] at h
      cases h
      exact hw.silent (by simp only [resetCalls, hbatch])
    · exact hw.finishRead hbatch h
    · rw [TimerQueue.step, TimerQueue.finishRead, hbatch] at h
      cases h
      exact hw.silent (by simp only [resetCalls, hbatch])

/-- The calls of `resetTimerfd` in a run. -/
def allResetCalls (q : TimerQueue) (steps : List Step) : List ResetCall :=
  trace TimerQueue.step resetCalls q steps

theorem run_watched {steps : List Step} (hclock : ∀ now, .handleRead now ∈ steps → 0 < now) :
    ∃ q, run TimerQueue.step new steps = .ok q ∧ q.Watched (new.allResetCalls steps) := by
  obtain ⟨q, hrun, -⟩ := run_total step_returns sound_new steps
  refine ⟨q, hrun, ?_⟩
  have halong : Along TimerQueue.step (fun _ a => ∀ now, a = .handleRead now → 0 < now) new steps :=
    along_of_mem fun a ha _ now heq => hclock now (heq ▸ ha)
  have hnew : new.Watched [] := ⟨sound_new, fun _ ⟨e, he⟩ => absurd he (OrderedSet.not_mem_empty e),
    nofun⟩
  exact halong.trace_invariant (l := []) (I := fun q calls => q.Watched calls)
    (fun q calls a q' hw ha h => hw.step ha h) hnew hrun

/-- In every run in which the clock reads times after the epoch: whenever no `handleRead` is in
progress and there are timers, the descriptor is armed by the last call of `resetTimerfd`, for a
moment that is not later than the earliest expiration or than 100 microseconds after this call, and
each call has given `timerfd_settime` a well-formed time that arms it. -/
theorem timerfd_armed {steps : List Step} (hclock : ∀ now, .handleRead now ∈ steps → 0 < now) :
    ∃ q, run TimerQueue.step new steps = .ok q ∧
      (q.batch = none → ∀ earliest, q.timers.first = some earliest →
        ∃ c, (new.allResetCalls steps).getLast? = some c ∧ q.timerfd = some c.moment ∧
          c.moment ≤ max earliest.when (c.clock + 100)) ∧
      ∀ c ∈ new.allResetCalls steps, c.timespec.Arms := by
  obtain ⟨q, hrun, hw⟩ := run_watched hclock
  refine ⟨q, hrun, ?_, fun c _ => c.timespec_arms⟩
  intro hidle earliest hfirst
  have hmem := (OrderedSet.first_spec hfirst).1
  obtain ⟨c, hlast, harmed, hall⟩ := hw.idle hidle ⟨earliest, hmem⟩
  exact ⟨c, hlast, harmed, hall earliest hmem⟩

/-- A callback inserts a timer for the time 0, which `reset` takes for an invalid one. -/
theorem timerfd_armed_example :
    ∃ q, run TimerQueue.step new [.addTimer 7 100 none, .addTimerInLoop 7 0, .handleRead 100,
        .runNext, .addTimer 8 0 none, .addTimerInLoop 8 101, .finishRead 102] = .ok q ∧
      (q.batch = none → ∀ earliest, q.timers.first = some earliest →
        ∃ c, (new.allResetCalls [.addTimer 7 100 none, .addTimerInLoop 7 0, .handleRead 100,
            .runNext, .addTimer 8 0 none, .addTimerInLoop 8 101, .finishRead 102]).getLast? =
          some c ∧ q.timerfd = some c.moment ∧
          c.moment ≤ max earliest.when (c.clock + 100)) ∧
      ∀ c ∈ new.allResetCalls [.addTimer 7 100 none, .addTimerInLoop 7 0, .handleRead 100,
        .runNext, .addTimer 8 0 none, .addTimerInLoop 8 101, .finishRead 102], c.timespec.Arms :=
  timerfd_armed (by simp)

end

end TimerQueue

end Mymuduo
