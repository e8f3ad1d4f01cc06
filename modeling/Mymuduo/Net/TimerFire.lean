import Mymuduo.Net.TimerCancel

/-! When the timers are called.  What is seen of a run are the calls of `handleRead` that begin, each
with its number and the clock that it reads, and the callbacks that it calls.  A `Schedule` is one
timer by itself: it is called by every `handleRead` that reads a clock at or after its expiration,
and expires again after its interval.  The queue calls each timer as its schedule does. -/

namespace Mymuduo

open Lib

/-- A call of a timer's callback: the time for which the timer was set, and the `handleRead` that
makes the call, with the clock that it read. -/
structure TimerCall where
  id : TimerId
  when : Timestamp
  now : Timestamp
  read : Nat
  deriving DecidableEq, Repr

inductive TimerEvent
  | begun (read : Nat) (now : Timestamp)
  | called (call : TimerCall)
  deriving DecidableEq, Repr

/-- The calls of `handleRead` that begin. -/
def readsOf (events : List TimerEvent) : List (Nat × Timestamp) :=
  events.filterMap fun
    | .begun read now => some (read, now)
    | .called _ => none

def callsOf (events : List TimerEvent) : List TimerCall :=
  events.filterMap fun
    | .begun _ _ => none
    | .called call => some call

/-- The calls of `handleRead` that call the timer of `id`. -/
def callsOfTimer (id : TimerId) (events : List TimerEvent) : List (Nat × Timestamp) :=
  ((callsOf events).filter fun call => call.id = id).map fun call => (call.read, call.now)

/-- One timer by itself: the calls of `handleRead` by which it was called, and the time at which it
expires next. -/
structure Schedule where
  calls : List (Nat × Timestamp)
  expiration : Option Timestamp
  deriving DecidableEq, Repr

namespace Schedule

/-- The expiration after a call at the clock `now`. -/
def next (interval : Option Nat) (now : Timestamp) : Option Timestamp :=
  interval.map fun delta : Nat => now + delta

/-- What a `handleRead` does to a timer with the given interval. -/
def read (interval : Option Nat) (s : Schedule) (r : Nat × Timestamp) : Schedule :=
  match s.expiration with
  | none => s
  | some w => if w ≤ r.2 then ⟨s.calls ++ [r], next interval r.2⟩ else s

/-- A timer that has just been inserted, after the given calls of `handleRead`. -/
def after (t : Timer) (reads : List (Nat × Timestamp)) : Schedule :=
  reads.foldl (read t.interval) ⟨[], some t.expiration⟩

theorem read_of_due {interval : Option Nat} {calls : List (Nat × Timestamp)} {w : Timestamp}
    {r : Nat × Timestamp} (h : w ≤ r.2) :
    read interval ⟨calls, some w⟩ r = ⟨calls ++ [r], next interval r.2⟩ :=
  if_pos h

theorem read_of_not_due {interval : Option Nat} {calls : List (Nat × Timestamp)} {w : Timestamp}
    {r : Nat × Timestamp} (h : ¬w ≤ r.2) :
    read interval ⟨calls, some w⟩ r = ⟨calls, some w⟩ :=
  if_neg h

theorem foldl_read_none (interval : Option Nat) (calls reads : List (Nat × Timestamp)) :
    reads.foldl (read interval) ⟨calls, none⟩ = ⟨calls, none⟩ := by
  induction reads with
  | nil => rfl
  | cons r reads ih => exact ih

/-- A timer that does not repeat is called once, by the first `handleRead` at which it is due. -/
theorem after_oneShot {t : Timer} (h : t.interval = none) (reads : List (Nat × Timestamp)) :
    (after t reads).calls = (reads.find? fun r => t.expiration ≤ r.2).toList := by
  rw [after, h]
  induction reads with
  | nil => rfl
  | cons r reads ih =>
    rw [List.foldl_cons]
    by_cases hdue : t.expiration ≤ r.2
    · rw [read_of_due hdue, List.find?_cons_of_pos (by simpa using hdue)]
      show (reads.foldl (read none) ⟨[r], none⟩).calls = [r]
      rw [foldl_read_none]
    · rw [read_of_not_due hdue, List.find?_cons_of_neg (by simpa using hdue), ih]

end Schedule

namespace TimerQueue

/-- What is seen of a step. -/
def observe (q : TimerQueue) : Step → List TimerEvent
  | .handleRead now => if q.batch = none then [.begun (q.reads + 1) now] else []
  | .runNext =>
    match q.batch with
    | some ⟨now, _, it :: _⟩ =>
      match q.heap it.timer with
      | some t => [.called ⟨⟨it.timer, t.sequence⟩, it.when, now, q.reads⟩]
      | none => []
    | _ => []
  | _ => []

/-- What is seen of a run. -/
def events (q : TimerQueue) (steps : List Step) : List TimerEvent := trace step observe q steps

/-! ### The order of the calls within one `handleRead` -/

/-- The calls of one `handleRead` were made in the order of the expirations, and those that it will
make come later. -/
structure CallsSorted (q : TimerQueue) (calls : List TimerCall) : Prop where
  sorted : calls.Pairwise fun c c' => c.read = c'.read → c.when ≤ c'.when
  read_le : ∀ c ∈ calls, c.read ≤ q.reads
  todo : ∀ b, q.batch = some b → b.todo.Pairwise (fun e e' => e.when ≤ e'.when) ∧
    ∀ c ∈ calls, c.read = q.reads → ∀ e ∈ b.todo, c.when ≤ e.when

theorem callsOf_append (events events' : List TimerEvent) :
    callsOf (events ++ events') = callsOf events ++ callsOf events' := List.filterMap_append ..

section

variable {q q' : TimerQueue} {a : Step}

theorem observe_of_unchanged (hread : ∀ now, a = .handleRead now → q.batch ≠ none)
    (hrun : a = .runNext → ∀ b, q.batch = some b → b.todo = []) : q.observe a = [] := by
  cases a with
  | handleRead now => exact if_neg (hread now rfl)
  | runNext =>
    rcases hbatch : q.batch with _ | ⟨now, expired, _ | ⟨it, todo⟩⟩
    · simp only [observe, hbatch]
    · simp only [observe, hbatch]
    · exact absurd (hrun rfl _ hbatch) (by simp)
  | _ => rfl

theorem CallsSorted.frame {calls : List TimerCall} (h : q.CallsSorted calls)
    (hreads : q'.reads = q.reads) (hbatch : q'.batch = q.batch ∨ q'.batch = none) :
    q'.CallsSorted calls where
  sorted := h.sorted
  read_le := hreads ▸ h.read_le
  todo b hb := by
    rcases hbatch with heq | hnone
    · exact hreads ▸ h.todo b (heq ▸ hb)
    · rw [hnone] at hb
      cases hb

/-- A `handleRead` begins whose batch is in the order of the expirations. -/
theorem CallsSorted.handleRead {calls : List TimerCall} {b : Batch} (hs : q.CallsSorted calls)
    (hreads : q'.reads = q.reads + 1) (hbatch : q'.batch = some b)
    (hsorted : b.todo.Pairwise fun e e' => e.when ≤ e'.when) : q'.CallsSorted calls := by
  refine ⟨hs.sorted, ?_, ?_⟩
  · intro c hc
    rw [hreads]
    exact Nat.le_succ_of_le (hs.read_le c hc)
  · intro b' hb'
    rw [hbatch] at hb'
    cases hb'
    refine ⟨hsorted, ?_⟩
    intro c hc hread
    -- No call was made in this `handleRead` yet.
    have := hs.read_le c hc
    omega

/-- The timer with the earliest expiration in the batch is called. -/
theorem CallsSorted.runNext {calls : List TimerCall} {now : Timestamp} {expired todo : List Entry}
    {it : Entry} {call : TimerCall} (hs : q.CallsSorted calls)
    (hbatch : q.batch = some ⟨now, expired, it :: todo⟩) (hwhen : call.when = it.when)
    (hread : call.read = q.reads) :
    CallsSorted { q with batch := some ⟨now, expired, todo⟩ } (calls ++ [call]) := by
  obtain ⟨htodo, hearlier⟩ := hs.todo _ hbatch
  obtain ⟨hit, htodo⟩ := List.pairwise_cons.mp htodo
  refine ⟨List.pairwise_append.mpr ⟨hs.sorted, List.pairwise_singleton _ _, ?_⟩, ?_, ?_⟩
  · intro c hc c' hc' hsame
    obtain rfl := List.mem_singleton.mp hc'
    rw [hwhen]
    exact hearlier c hc (hsame.trans hread) it List.mem_cons_self
  · intro c hc
    rcases List.mem_append.mp hc with hc | hc
    · exact hs.read_le c hc
    · obtain rfl := List.mem_singleton.mp hc
      exact hread.le
  · intro b hb
    cases hb
    refine ⟨htodo, ?_⟩
    intro c hc hsame e he
    rcases List.mem_append.mp hc with hc | hc
    · exact hearlier c hc hsame e (List.mem_cons_of_mem it he)
    · obtain rfl := List.mem_singleton.mp hc
      rw [hwhen]
      exact hit e he

theorem observe_runNext {now : Timestamp} {expired todo : List Entry} {it : Entry} {t : Timer}
    (hbatch : q.batch = some ⟨now, expired, it :: todo⟩) (ht : q.heap it.timer = some t) :
    q.observe .runNext = [.called ⟨⟨it.timer, t.sequence⟩, it.when, now, q.reads⟩] := by
  simp only [observe, hbatch, ht]

theorem StepCase.callsSorted {calls : List TimerCall} (hcase : StepCase q a q') (h : Sound q)
    (hs : q.CallsSorted calls) : q'.CallsSorted (calls ++ callsOf (q.observe a)) := by
  cases hcase with
  | unchanged _ hread hrun =>
    rw [observe_of_unchanged hread hrun]
    simpa [callsOf] using hs
  | addTimer | addTimerInLoop | cancelInLoop =>
    show CallsSorted _ (calls ++ [])
    rw [List.append_nil]
    exact hs.frame rfl (.inl rfl)
  | finishRead clock now expired q' timerfd hbatch hloop hplaced =>
    have hframe := resetLoop_frame hloop
    have hreads : q'.reads = q.reads := by rw [hframe]
    have hidle : q'.batch = none := by rw [hframe]
    show CallsSorted _ (calls ++ [])
    rw [List.append_nil]
    exact hs.frame hreads (.inr hidle)
  | handleRead now timerfd hidle =>
    have hnone : callsOf (q.observe (.handleRead now)) = [] := by
      simp [observe, hidle, callsOf]
    rw [hnone, List.append_nil]
    refine hs.handleRead rfl rfl ?_
    exact (q.timers.sorted.sublist (List.takeWhile_sublist _)).imp
      fun h => Entry.when_le (le_of_lt h)
  | runNext now expired it todo hbatch =>
    obtain ⟨-, t, ht⟩ := h.next hbatch
    rw [observe_runNext hbatch ht]
    exact hs.runNext hbatch rfl rfl

/-! ### The queue and the schedule of one timer -/

/-- The timer of `id` is in memory, with the given interval. -/
def Holds (q : TimerQueue) (id : TimerId) (interval : Option Nat) : Prop :=
  ∃ t, q.heap id.timer = some t ∧ t.sequence = id.sequence ∧ t.interval = interval

/-- The timer of `id` has been called as its schedule says, or is to be called by the `handleRead`
in progress, and is where the schedule needs it. -/
inductive Follows (q : TimerQueue) (id : TimerId) (interval : Option Nat) :
    List (Nat × Timestamp) → Schedule → Prop
  | waiting {calls : List (Nat × Timestamp)} (w : Timestamp) (hholds : q.Holds id interval)
    (hmem : Entry.mk w id.timer ∈ q.timers) : Follows q id interval calls ⟨calls, some w⟩
  | toRun {calls : List (Nat × Timestamp)} (b : Batch) (e : Entry) (hholds : q.Holds id interval)
    (hbatch : q.batch = some b) (he : e ∈ b.todo) (htimer : e.timer = id.timer)
    (hnoted : toLex (id.timer, id.sequence) ∉ q.cancelingTimers) :
    Follows q id interval calls ⟨calls ++ [(q.reads, b.now)], Schedule.next interval b.now⟩
  | ran {calls : List (Nat × Timestamp)} (b : Batch) (e : Entry) (hholds : q.Holds id interval)
    (hbatch : q.batch = some b) (he : e ∈ b.expired) (htimer : e.timer = id.timer)
    (htodo : ∀ e ∈ b.todo, e.timer ≠ id.timer)
    (hnoted : toLex (id.timer, id.sequence) ∉ q.cancelingTimers) :
    Follows q id interval calls ⟨calls, Schedule.next interval b.now⟩
  | gone {calls : List (Nat × Timestamp)} (hgone : q.Gone id) :
    Follows q id interval calls ⟨calls, none⟩

variable {id : TimerId} {interval : Option Nat} {calls : List (Nat × Timestamp)} {s : Schedule}

theorem Holds.alive (h : q.Holds id interval) : q.Alive id := by
  obtain ⟨t, ht, hseq, -⟩ := h
  exact ⟨t, ht, hseq⟩

/-- A step that leaves the batch and the timer alone. -/
theorem Follows.frame (hf : q.Follows id interval calls s) (hbatch : q'.batch = q.batch)
    (hreads : q'.reads = q.reads) (hheap : ∀ t, q.heap id.timer = some t → q'.heap id.timer = some t)
    (htimers : ∀ e ∈ q.timers, e ∈ q'.timers)
    (hnoted : toLex (id.timer, id.sequence) ∈ q'.cancelingTimers →
      toLex (id.timer, id.sequence) ∈ q.cancelingTimers)
    (hgone : q.Gone id → q'.Gone id) : q'.Follows id interval calls s := by
  have hholds : q.Holds id interval → q'.Holds id interval := by
    rintro ⟨t, ht, hseq, hint⟩
    exact ⟨t, hheap t ht, hseq, hint⟩
  cases hf with
  | waiting w h hmem => exact .waiting w (hholds h) (htimers _ hmem)
  | toRun b e h hb he htimer hnot =>
    rw [← hreads]
    exact .toRun b e (hholds h) (hbatch.trans hb) he htimer (mt hnoted hnot)
  | ran b e h hb he htimer htodo hnot =>
    exact .ran b e (hholds h) (hbatch.trans hb) he htimer htodo (mt hnoted hnot)
  | gone h => exact .gone (hgone h)

theorem callsOfTimer_append (events events' : List TimerEvent) :
    callsOfTimer id (events ++ events') = callsOfTimer id events ++ callsOfTimer id events' := by
  simp only [callsOfTimer, callsOf_append, List.filter_append, List.map_append]

theorem readsOf_append (events events' : List TimerEvent) :
    readsOf (events ++ events') = readsOf events ++ readsOf events' := List.filterMap_append ..

/-- A step that begins no `handleRead` and calls nothing. -/
theorem Follows.silent (hf : q'.Follows id interval calls s) {events : List TimerEvent}
    (hevents : events = []) :
    q'.Follows id interval (calls ++ callsOfTimer id events)
      ((readsOf events).foldl (Schedule.read interval) s) := by
  rw [hevents]
  show q'.Follows id interval (calls ++ []) s
  rw [List.append_nil]
  exact hf

theorem callsOfTimer_called (c : TimerCall) :
    callsOfTimer id [.called c] = if c.id = id then [(c.read, c.now)] else [] := by
  show ([c].filter fun call => call.id = id).map (fun call => (call.read, call.now)) = _
  by_cases h : c.id = id
  · rw [if_pos h, List.filter_cons_of_pos (by simpa using h)]
    rfl
  · rw [if_neg h, List.filter_cons_of_neg (by simpa using h)]
    rfl

/-- The callback of another timer is called. -/
theorem callsOfTimer_runNext_other {now : Timestamp} {expired todo : List Entry} {it : Entry}
    {t : Timer} (hbatch : q.batch = some ⟨now, expired, it :: todo⟩)
    (ht : q.heap it.timer = some t) (hother : ⟨it.timer, t.sequence⟩ ≠ id) :
    callsOfTimer id (q.observe .runNext) = [] := by
  rw [observe_runNext hbatch ht, callsOfTimer_called, if_neg hother]

/-- A timer is called once in a batch. -/
theorem Sound.next_notMem (h : Sound q) {now : Timestamp} {expired todo : List Entry} {it : Entry}
    (hbatch : q.batch = some ⟨now, expired, it :: todo⟩) : ∀ e ∈ todo, e.timer ≠ it.timer := by
  intro e he htimer
  have hnodup := h.placed.batch_nodup
  rw [expired_eq hbatch] at hnodup
  have htodo := hnodup.sublist ((h.todo _ hbatch).sublist.map Entry.timer)
  rw [List.map_cons, List.nodup_cons] at htodo
  exact htodo.1 (htimer ▸ List.mem_map_of_mem he)

theorem Follows.runNext (hf : q.Follows id interval calls s) (h : Sound q) {now : Timestamp}
    {expired todo : List Entry} {it : Entry} (hbatch : q.batch = some ⟨now, expired, it :: todo⟩) :
    Follows { q with batch := some ⟨now, expired, todo⟩ } id interval
      (calls ++ callsOfTimer id (q.observe .runNext)) s := by
  obtain ⟨hmem, t, ht⟩ := h.next hbatch
  have hnottimers := (h.placed.batch it hmem).2.1
  -- The head of the batch is the timer itself, or the step calls another one.
  have hself : it.timer ≠ id.timer → callsOfTimer id (q.observe .runNext) = [] := fun hne =>
    callsOfTimer_runNext_other hbatch ht fun heq => hne (congrArg TimerId.timer heq)
  cases hf with
  | waiting w hholds hwaiting =>
    rw [hself fun heq => hnottimers _ hwaiting heq.symm, List.append_nil]
    exact .waiting w hholds hwaiting
  | toRun b e hholds hb he htimer hnoted =>
    cases hbatch.symm.trans hb
    by_cases hit : it.timer = id.timer
    · obtain ⟨t', ht', hseq, hint⟩ := hholds
      rw [← hit, ht] at ht'
      cases ht'
      have hid : (⟨it.timer, t.sequence⟩ : TimerId) = id := by
        cases id
        simp_all
      rw [observe_runNext hbatch ht, callsOfTimer_called, if_pos hid]
      refine .ran ⟨now, expired, todo⟩ it ⟨t, hit ▸ ht, hseq, hint⟩ rfl ?_ hit ?_ hnoted
      · exact (expired_eq hbatch) ▸ hmem
      · exact fun e' he' htimer' => h.next_notMem hbatch e' he' (htimer'.trans hit.symm)
    · rw [hself hit, List.append_nil]
      have he' : e ∈ todo := (List.mem_cons.mp he).resolve_left fun heq => hit (heq ▸ htimer)
      exact .toRun ⟨now, expired, todo⟩ e hholds rfl he' htimer hnoted
  | ran b e hholds hb he htimer htodo hnoted =>
    cases hbatch.symm.trans hb
    rw [hself (htodo it List.mem_cons_self), List.append_nil]
    exact .ran ⟨now, expired, todo⟩ e hholds rfl he htimer
      (fun e' he' => htodo e' (List.mem_cons_of_mem it he')) hnoted
  | gone hgone =>
    have hother : (⟨it.timer, t.sequence⟩ : TimerId) ≠ id := by
      rintro rfl
      exact hgone.dead ⟨t, ht, rfl⟩
    rw [callsOfTimer_runNext_other hbatch ht hother, List.append_nil]
    exact .gone ⟨hgone.sequence, hgone.dead⟩

/-- A `handleRead` begins: the timer is due, or waits on. -/
theorem Follows.handleRead (hf : q.Follows id interval calls s) (h : Sound q) {now : Timestamp}
    (hidle : q.batch = none) (timerfd : Option Timestamp) :
    Follows { q with
      timers := q.timers.eraseBelow (.mk now UINTPTR_MAX)
      callingExpiredTimers := true
      cancelingTimers := .empty
      timerfd := timerfd
      batch := some
        ⟨now, q.timers.below (.mk now UINTPTR_MAX), q.timers.below (.mk now UINTPTR_MAX)⟩
      reads := q.reads + 1 } id interval calls (s.read interval (q.reads + 1, now)) := by
  cases hf with
  | waiting w hholds hmem =>
    have hiff := h.placed.due_iff hmem now
    by_cases hdue : w ≤ now
    · rw [Schedule.read_of_due hdue]
      refine Follows.toRun ⟨now, q.timers.below (.mk now UINTPTR_MAX),
        q.timers.below (.mk now UINTPTR_MAX)⟩ (Entry.mk w id.timer) ?_ rfl ?_ rfl ?_
      · exact hholds
      · exact OrderedSet.mem_below.mpr ⟨hmem, hiff.mpr hdue⟩
      · exact OrderedSet.not_mem_empty _
    · rw [Schedule.read_of_not_due hdue]
      refine .waiting w hholds (OrderedSet.mem_eraseBelow.mpr ⟨hmem, le_of_not_gt ?_⟩)
      exact mt hiff.mp hdue
  | toRun b e hholds hb =>
    rw [hidle] at hb
    cases hb
  | ran b e hholds hb =>
    rw [hidle] at hb
    cases hb
  | gone hgone => exact .gone ⟨hgone.sequence, hgone.dead⟩

/-- A `handleRead` ends: a timer that repeats waits again. -/
theorem Follows.finishRead (hf : q.Follows id interval calls s) (h : Sound q) {now : Timestamp}
    {expired : List Entry} (hbatch : q.batch = some ⟨now, expired, []⟩)
    (hloop : run (resetOne now) { q with callingExpiredTimers := false, batch := none } expired =
      .ok q') (timerfd : Option Timestamp) (hgone : q.Gone id → q'.Gone id) :
    Follows { q' with timerfd := timerfd } id interval calls s := by
  cases hf with
  | waiting w hholds hmem =>
    obtain ⟨t, ht, hseq, hint⟩ := hholds
    have hother : ∀ e ∈ expired, e.timer ≠ id.timer := fun e he htimer =>
      (h.placed.batch e (by rw [expired_eq hbatch]; exact he)).2.1 _ hmem htimer.symm
    obtain ⟨hheap, htimers⟩ := resetLoop_other hother hloop
    exact .waiting w ⟨t, hheap.trans ht, hseq, hint⟩ ((htimers w).mpr hmem)
  | toRun b e hholds hb he =>
    cases hbatch.symm.trans hb
    exact absurd he List.not_mem_nil
  | ran b e hholds hb he htimer htodo hnoted =>
    cases hbatch.symm.trans hb
    obtain ⟨t, ht, hseq, rfl⟩ := hholds
    have hnodup := h.placed.batch_nodup
    rw [expired_eq hbatch] at hnodup
    rw [← htimer] at ht
    have hle : id.sequence ≤ q.numCreated := hseq ▸ h.placed.sequence _ t ht
    rcases resetLoop_at (q := { q with callingExpiredTimers := false, batch := none }) hnodup he ht
      hloop with ⟨⟨hrepeat, -⟩, hheap, hmem⟩ | ⟨hnot, hnone⟩
    · obtain ⟨delta, hdelta⟩ := Option.isSome_iff_exists.mp hrepeat
      have hrestart : t.restart now = { t with expiration := now + delta } := by
        rw [Timer.restart, hdelta]
      rw [hrestart] at hheap hmem
      rw [htimer] at hheap hmem
      rw [hdelta]
      exact .waiting _ ⟨_, hheap, hseq, hdelta⟩ hmem
    · have hinterval : t.interval = none := by
        by_contra hsome
        refine hnot ⟨Option.isSome_iff_ne_none.mpr hsome, ?_⟩
        rw [htimer, hseq]
        exact hnoted
      rw [hinterval]
      refine .gone ⟨?_, ?_⟩
      · show id.sequence ≤ q'.numCreated
        rw [resetLoop_frame hloop]
        exact hle
      · rintro ⟨u, hu, -⟩
        rw [← htimer] at hu
        cases hnone.symm.trans hu
  | gone h => exact .gone ⟨(hgone h).sequence, (hgone h).dead⟩

/-- Every step keeps a timer that it does not cancel on its schedule. -/
theorem StepCase.follows (hcase : StepCase q a q') (h : Sound q) (hcancel : a ≠ .cancelInLoop id)
    (hf : q.Follows id interval calls s) :
    q'.Follows id interval (calls ++ callsOfTimer id (q.observe a))
      ((readsOf (q.observe a)).foldl (Schedule.read interval) s) := by
  have hgone : q.Gone id → q'.Gone id := hcase.gone
  cases hcase with
  | unchanged _ hread hrun => exact hf.silent (observe_of_unchanged hread hrun)
  | addTimer p when interval' hfree hp =>
    refine Follows.silent ?_ rfl
    refine hf.frame rfl rfl ?_ (fun _ he => he) (fun hmem => hmem) hgone
    intro t ht
    have hne : id.timer ≠ p := fun heq => by simp [heq, hfree] at ht
    exact update_eq_some.mpr (.inr ⟨hne, ht⟩)
  | addTimerInLoop p clock t timerfd hp ht =>
    refine Follows.silent ?_ rfl
    exact hf.frame rfl rfl (fun _ ht => ht) (fun _ he => OrderedSet.mem_insert.mpr (.inr he))
      (fun hmem => hmem) hgone
  | cancelInLoop id' hcalling =>
    refine Follows.silent ?_ rfl
    refine hf.frame rfl rfl (fun _ ht => ht) (fun _ he => he) ?_ hgone
    intro hmem
    refine (OrderedSet.mem_insert.mp hmem).resolve_left fun heq => hcancel ?_
    have hpair := toLex.injective heq
    cases id
    cases id'
    simp_all
  | handleRead now timerfd hidle =>
    have hobserve : q.observe (.handleRead now) = [.begun (q.reads + 1) now] := if_pos hidle
    rw [hobserve]
    show Follows _ id interval (calls ++ []) (s.read interval (q.reads + 1, now))
    rw [List.append_nil]
    exact hf.handleRead h hidle timerfd
  | runNext now expired it todo hbatch =>
    have hreads : readsOf (q.observe .runNext) = [] := by
      simp only [observe, hbatch]
      cases q.heap it.timer <;> rfl
    rw [hreads]
    exact hf.runNext h hbatch
  | finishRead clock now expired q' timerfd hbatch hloop hplaced =>
    have hgone' : q.Gone id → q'.Gone id := fun hg => ⟨(hgone hg).sequence, (hgone hg).dead⟩
    exact Follows.silent (hf.finishRead h hbatch hloop timerfd hgone') rfl

/-! ### Whole runs -/

/-- The timer of `id`, inserted as `t`, has been called as its schedule says: by each `handleRead`
seen since at which it was due, but for the one in progress if that is still to call it.  Between
two calls of `handleRead` it waits for the expiration of the schedule, or is deleted. -/
structure CalledWhenDue (q : TimerQueue) (id : TimerId) (t : Timer) (seen : List TimerEvent) :
    Prop where
  called : ¬q.ToRun id → callsOfTimer id seen = (Schedule.after t (readsOf seen)).calls
  toBeCalled : ∀ b, q.ToRun id → q.batch = some b →
    callsOfTimer id seen ++ [(q.reads, b.now)] = (Schedule.after t (readsOf seen)).calls
  waits : ∀ w, q.batch = none → (Schedule.after t (readsOf seen)).expiration = some w →
    q.Waiting id w
  deleted : q.batch = none → (Schedule.after t (readsOf seen)).expiration = none → ¬q.Alive id

theorem Follows.calledWhenDue {seen : List TimerEvent} {t : Timer} (h : Sound q)
    (hf : q.Follows id interval (callsOfTimer id seen) (Schedule.after t (readsOf seen))) :
    q.CalledWhenDue id t seen := by
  generalize hs : Schedule.after t (readsOf seen) = s at hf
  cases hf with
  | waiting w hholds hmem =>
    have hnot : ¬q.ToRun id := by
      rintro ⟨-, b, it, hb, hit, htimer⟩
      refine (h.placed.batch it ?_).2.1 _ hmem htimer.symm
      rw [expired_eq hb]
      exact (h.todo b hb).subset hit
    refine ⟨fun _ => by rw [hs], fun b hrun => absurd hrun hnot, ?_, ?_⟩
    · intro w' _ hw
      rw [hs] at hw
      cases hw
      exact ⟨hholds.alive, hmem⟩
    · intro _ hnone
      rw [hs] at hnone
      cases hnone
  | toRun b e hholds hb he htimer =>
    have hrun : q.ToRun id := ⟨hholds.alive, b, e, hb, he, htimer⟩
    refine ⟨fun hnot => absurd hrun hnot, ?_, ?_, ?_⟩
    · intro b' _ hb'
      cases hb.symm.trans hb'
      rw [hs]
    · intro w hidle
      cases hb.symm.trans hidle
    · intro hidle
      cases hb.symm.trans hidle
  | ran b e hholds hb he htimer htodo =>
    have hnot : ¬q.ToRun id := by
      rintro ⟨-, b', it, hb', hit, htimer'⟩
      cases hb.symm.trans hb'
      exact htodo it hit htimer'
    refine ⟨fun _ => by rw [hs], fun b hrun => absurd hrun hnot, ?_, ?_⟩
    · intro w hidle
      cases hb.symm.trans hidle
    · intro hidle
      cases hb.symm.trans hidle
  | gone hgone =>
    refine ⟨fun _ => by rw [hs], fun b hrun => absurd hrun.alive hgone.dead, ?_,
      fun _ _ => hgone.dead⟩
    intro w _ hw
    rw [hs] at hw
    cases hw

theorem follows_inserted {v : TimerQueue} {p : Nat} {t : Timer}
    (clock : Timestamp) (hp : p ∈ q.queued) (ht : q.heap p = some t)
    (hv : step q (.addTimerInLoop p clock) = .ok v) :
    v.Follows ⟨p, t.sequence⟩ t.interval [] ⟨[], some t.expiration⟩ := by
  obtain ⟨timerfd, hspec⟩ := addTimerInLoop_spec (q := { q with queued := q.queued.erase p }) clock ht
  rw [step, if_pos hp, hspec] at hv
  cases hv
  exact .waiting t.expiration ⟨t, ht, rfl, rfl⟩ (OrderedSet.mem_insert.mpr (.inl rfl))

/-- In every run, a timer that is inserted and that no later cancellation names is called exactly
when it is due: by the first `handleRead` begun since whose clock is at or after its expiration if it
does not repeat, and else by each one whose clock is at or after its current expiration, which then
becomes that clock and the interval.  The calls of one `handleRead` are in the order of the
expirations. -/
theorem timer_called_when_due {u : TimerQueue} {before after : List Step} {p : Nat} {t : Timer}
    (clock : Timestamp) (hbefore : run step new before = .ok u) (hp : p ∈ u.queued)
    (ht : u.heap p = some t) (hcancel : .cancelInLoop ⟨p, t.sequence⟩ ∉ after) :
    ∃ q, run step u (.addTimerInLoop p clock :: after) = .ok q ∧
      q.CalledWhenDue ⟨p, t.sequence⟩ t (u.events (.addTimerInLoop p clock :: after)) ∧
      (t.interval = none →
        (Schedule.after t (readsOf (u.events (.addTimerInLoop p clock :: after)))).calls =
          ((readsOf (u.events (.addTimerInLoop p clock :: after))).find?
            fun r => t.expiration ≤ r.2).toList) ∧
      (callsOf (new.events (before ++ .addTimerInLoop p clock :: after))).Pairwise
        fun c c' => c.read = c'.read → c.when ≤ c'.when := by
  have hu : Sound u := Reachable.sound ⟨before, hbefore⟩
  obtain ⟨q, hrun, hq⟩ := run_total step_returns hu (.addTimerInLoop p clock :: after)
  refine ⟨q, hrun, ?_, fun hinterval => Schedule.after_oneShot hinterval _, ?_⟩
  · obtain ⟨v, hv, hrest⟩ := run_cons_ok.mp hrun
    have hstart := follows_inserted clock hp ht hv
    have hseen : u.events (.addTimerInLoop p clock :: after) = v.events after := by
      rw [events, trace_cons_ok hv]
      rfl
    rw [hseen]
    have halong : Along step (fun _ a => a ≠ .cancelInLoop ⟨p, t.sequence⟩) v after :=
      along_of_mem fun a ha _ heq => hcancel (heq ▸ ha)
    refine Follows.calledWhenDue hq (halong.trace_invariant (l := [])
      (I := fun w seen => Sound w ∧ w.Follows ⟨p, t.sequence⟩ t.interval
        (callsOfTimer ⟨p, t.sequence⟩ seen) (Schedule.after t (readsOf seen)))
      ?_ ⟨step_sound u _ v hu hv, hstart⟩ hrest).2
    intro w seen a w' hw ha hstep
    have hcase := hw.1.step_cases hstep
    refine ⟨hcase.sound hw.1, ?_⟩
    rw [callsOfTimer_append, readsOf_append, Schedule.after, List.foldl_append]
    exact hcase.follows hw.1 ha hw.2
  · have hwhole : run step new (before ++ .addTimerInLoop p clock :: after) = .ok q :=
      run_append_ok.mpr ⟨u, hbefore, hrun⟩
    refine (trace_invariant (l := []) (I := fun w seen => Sound w ∧ w.CallsSorted (callsOf seen))
      ?_ ⟨sound_new, ⟨.nil, nofun, nofun⟩⟩ hwhole).2.sorted
    intro w seen a w' hw hstep
    have hcase := hw.1.step_cases hstep
    rw [callsOf_append]
    exact ⟨hcase.sound hw.1, hcase.callsSorted hw.1 hw.2⟩

end

/-- A timer for the time 100 that repeats after 50 waits for the clock 100, and then for 150. -/
theorem timer_called_when_due_example : ∃ u q : TimerQueue,
    run step new [.addTimer 7 100 (some 50)] = .ok u ∧
    run step u [.addTimerInLoop 7 0, .handleRead 99, .finishRead 99, .handleRead 100, .runNext,
      .finishRead 101, .handleRead 149] = .ok q ∧
    q.CalledWhenDue ⟨7, 1⟩ ⟨100, some 50, 1⟩ (u.events [.addTimerInLoop 7 0, .handleRead 99,
      .finishRead 99, .handleRead 100, .runNext, .finishRead 101, .handleRead 149]) := by
  obtain ⟨u, hu⟩ : ∃ u, run step new [.addTimer 7 100 (some 50)] = .ok u := ⟨_, rfl⟩
  have hp : 7 ∈ u.queued := by cases hu; decide
  have ht : u.heap 7 = some ⟨100, some 50, 1⟩ := by cases hu; rfl
  have hcancel : Step.cancelInLoop ⟨7, 1⟩ ∉ [.handleRead 99, .finishRead 99, .handleRead 100,
      .runNext, .finishRead 101, .handleRead 149] := by decide
  obtain ⟨q, hq, hcalled, -⟩ := timer_called_when_due 0 hu hp ht hcancel
  exact ⟨u, q, hu, hq, hcalled⟩

end TimerQueue

end Mymuduo
