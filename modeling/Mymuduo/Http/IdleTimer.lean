import Mymuduo.Net.TimerFire

/-! The idle timers of the HTTP connections of one loop.  `onConnection` arms a timer that shuts the
connection down after 60 seconds, `onMessage` cancels it and arms another one, and `onConnection`
cancels it when the connection is down.  Since no cancellation between two calls of `handleRead`
finds its timer, the timers agree with the connections just as long as every message and every close
comes after the time-out. -/

namespace Mymuduo

open Lib

/-- An HTTP connection: whether it is up, its `timerId_`, and whether `timeoutCallback` has been
called for it since that timer was armed. -/
structure IdleConnection where
  up : Bool
  timerId : TimerId
  fired : Bool
  deriving DecidableEq, Repr

/-- The timer queue of a loop and the connections on it.  `owner` has the connection that is bound
to the callback of a timer. -/
structure IdleLoop where
  queue : TimerQueue
  connections : Nat → Option IdleConnection
  owner : TimerId → Option Nat

/-- A step of the loop.  `p` is the address at which a timer is allocated, `now` the clock that
`runAfter` reads, and `clock` the one that `howMuchTimeFromNow` reads. -/
inductive IdleStep
  | connectionUp (conn p : Nat) (now clock : Timestamp)
  | message (conn p : Nat) (now clock : Timestamp)
  | connectionDown (conn : Nat)
  | handleRead (now : Timestamp)
  | runNext
  | finishRead (clock : Timestamp)
  deriving DecidableEq, Repr

/-- The 60 seconds of an idle timer, in microseconds. -/
def kIdleTime : Nat := 60 * 1000 * 1000

namespace IdleLoop

def new : IdleLoop where
  queue := .new
  connections := fun _ => none
  owner := fun _ => none

/-- `new` can return the address. -/
def Free (s : IdleLoop) (p : Nat) : Prop := s.queue.heap p = none ∧ p < UINTPTR_MAX

instance (s : IdleLoop) (p : Nat) : Decidable (s.Free p) := by
  unfold Free
  infer_instance

/-- `runAfter(60, std::bind(timeoutCallback, conn))`, in the loop's thread. -/
def runAfter (s : IdleLoop) (conn p : Nat) (now clock : Timestamp) :
    Except Fault (IdleLoop × TimerId) := do
  let id : TimerId := ⟨p, s.queue.numCreated + 1⟩
  let queue ← s.queue.step (.addTimer p (now + kIdleTime) none)
  let queue ← queue.step (.addTimerInLoop p clock)
  return ({ s with queue := queue, owner := Function.update s.owner id (some conn) }, id)

/-- `cancel`, in the loop's thread. -/
def cancel (s : IdleLoop) (id : TimerId) : Except Fault IdleLoop := do
  let queue ← s.queue.step (.cancelInLoop id)
  return { s with queue := queue }

def setConnection (s : IdleLoop) (conn : Nat) (c : IdleConnection) : IdleLoop :=
  { s with connections := Function.update s.connections conn (some c) }

/-- `onConnection`, for a connection that is up. -/
def onConnectionUp (s : IdleLoop) (conn p : Nat) (now clock : Timestamp) :
    Except Fault IdleLoop := do
  let (s, id) ← s.runAfter conn p now clock
  return s.setConnection conn ⟨true, id, false⟩

/-- `onMessage`, up to `processMessage`. -/
def onMessage (s : IdleLoop) (conn : Nat) (c : IdleConnection) (p : Nat) (now clock : Timestamp) :
    Except Fault IdleLoop := do
  let s ← s.cancel c.timerId
  let (s, id) ← s.runAfter conn p now clock
  return s.setConnection conn { c with timerId := id, fired := false }

/-- `onConnection`, for a connection that is down. -/
def onConnectionDown (s : IdleLoop) (conn : Nat) (c : IdleConnection) : Except Fault IdleLoop := do
  let s ← s.cancel c.timerId
  return s.setConnection conn { c with up := false }

/-- The connections for which `runNext` calls `timeoutCallback`. -/
def timedOut (s : IdleLoop) : List Nat :=
  (callsOf (s.queue.observe .runNext)).filterMap fun call => s.owner call.id

/-- A connection comes up once.  Its callbacks are called between two calls of `handleRead`, while
it is up. -/
def step (s : IdleLoop) : IdleStep → Except Fault IdleLoop
  | .connectionUp conn p now clock =>
    if s.queue.batch = none ∧ s.Free p ∧ s.connections conn = none then
      s.onConnectionUp conn p now clock
    else
      return s
  | .message conn p now clock =>
    match s.connections conn with
    | some c =>
      if s.queue.batch = none ∧ s.Free p ∧ c.up = true then s.onMessage conn c p now clock
      else return s
    | none => return s
  | .connectionDown conn =>
    match s.connections conn with
    | some c =>
      if s.queue.batch = none ∧ c.up = true then s.onConnectionDown conn c else return s
    | none => return s
  | .handleRead now => do
    let queue ← s.queue.step (.handleRead now)
    return { s with queue := queue }
  | .runNext => do
    let queue ← s.queue.step .runNext
    return { s with
      queue := queue
      connections := fun conn => (s.connections conn).map fun c =>
        if conn ∈ s.timedOut then { c with fired := true } else c }
  | .finishRead clock => do
    let queue ← s.queue.step (.finishRead clock)
    return { s with queue := queue }

/-- The timer of `id` is in `timers_`, and its callback is `timeoutCallback` for `conn`. -/
def Idles (s : IdleLoop) (conn : Nat) (id : TimerId) : Prop :=
  (∃ w, s.queue.Waiting id w) ∧ s.owner id = some conn

/-- Between two calls of `handleRead`, a connection that is up and has not timed out has one idle
timer, the one armed last, and a connection that is down has none. -/
def OneIdleTimer (s : IdleLoop) : Prop :=
  s.queue.batch = none → ∀ conn c, s.connections conn = some c →
    (c.up = true → c.fired = false → ∀ id, s.Idles conn id ↔ id = c.timerId) ∧
    (c.up = false → ∀ id, ¬s.Idles conn id)

/-- A message or a close of a connection that is up comes after its time-out. -/
def AfterTimeout (s : IdleLoop) : IdleStep → Prop
  | .message conn p _ _ => s.queue.batch = none → s.Free p →
      ∀ c, s.connections conn = some c → c.up = true → c.fired = true
  | .connectionDown conn => s.queue.batch = none →
      ∀ c, s.connections conn = some c → c.up = true → c.fired = true
  | _ => True

end IdleLoop

/-! ### One timer that does not repeat -/

/-- A timer that does not repeat is either to be called or has been called. -/
def Schedule.Single (s : Schedule) : Prop := s.calls = [] ↔ s.expiration.isSome = true

theorem Schedule.Single.read {s : Schedule} (h : s.Single) (r : Nat × Timestamp) :
    (s.read none r).Single := by
  obtain ⟨calls, expiration⟩ := s
  cases expiration with
  | none => exact h
  | some w =>
    by_cases hdue : w ≤ r.2
    · rw [read_of_due hdue]
      simp [Single, next]
    · rw [read_of_not_due hdue]
      exact h

theorem Schedule.Single.foldl_read {s : Schedule} (h : s.Single) (reads : List (Nat × Timestamp)) :
    (reads.foldl (Schedule.read none) s).Single := by
  induction reads generalizing s with
  | nil => exact h
  | cons r reads ih => exact ih (h.read r)

theorem callsOfTimer_ne_nil {id : TimerId} {events : List TimerEvent} :
    callsOfTimer id events ≠ [] ↔ ∃ call ∈ callsOf events, call.id = id := by
  simp [callsOfTimer]

namespace TimerQueue

section

variable {q q' : TimerQueue} {a : Step} {id : TimerId} {fired fired' : Bool}

/-- The timer of `id` does not repeat, and `fired` says whether it has been called. -/
def OneShot (q : TimerQueue) (id : TimerId) (fired : Bool) : Prop :=
  ∃ calls s, q.Follows id none calls s ∧ s.Single ∧ (fired = true ↔ calls ≠ [])

theorem StepCase.oneShot (hcase : StepCase q a q') (h : Sound q) (hcancel : a ≠ .cancelInLoop id)
    (hone : q.OneShot id fired)
    (hfired : fired' = true ↔ fired = true ∨ callsOfTimer id (q.observe a) ≠ []) :
    q'.OneShot id fired' := by
  obtain ⟨calls, s, hfollows, hsingle, hcalls⟩ := hone
  refine ⟨_, _, hcase.follows h hcancel hfollows, hsingle.foldl_read _, ?_⟩
  rw [hfired, hcalls, ← not_and_or, ← List.append_eq_nil_iff]

theorem oneShot_inserted {p : Nat} {t : Timer} (clock : Timestamp) (hp : p ∈ q.queued)
    (ht : q.heap p = some t) (hinterval : t.interval = none)
    (hq' : step q (.addTimerInLoop p clock) = .ok q') : q'.OneShot ⟨p, t.sequence⟩ false :=
  ⟨[], ⟨[], some t.expiration⟩, hinterval ▸ follows_inserted clock hp ht hq', by simp [Schedule.Single],
    by simp⟩

/-- Between two calls of `handleRead`, a timer that has not been called waits. -/
theorem OneShot.waiting (h : q.OneShot id false) (hidle : q.batch = none) : ∃ w, q.Waiting id w := by
  obtain ⟨calls, s, hfollows, hsingle, hcalls⟩ := h
  have hnil : calls = [] := by simpa using hcalls
  cases hfollows with
  | waiting w hholds hmem => exact ⟨w, hholds.alive, hmem⟩
  | toRun b e hholds hb => cases hidle.symm.trans hb
  | ran b e hholds hb => cases hidle.symm.trans hb
  | gone hgone =>
    have hsome := hsingle.mp hnil
    cases hsome

/-- Between two calls of `handleRead`, a timer that has been called is deleted. -/
theorem OneShot.gone (h : q.OneShot id true) (hidle : q.batch = none) : q.Gone id := by
  obtain ⟨calls, s, hfollows, hsingle, hcalls⟩ := h
  cases hfollows with
  | waiting w => exact absurd (hsingle.mpr rfl) (hcalls.mp rfl)
  | toRun b e hholds hb => cases hidle.symm.trans hb
  | ran b e hholds hb => cases hidle.symm.trans hb
  | gone hgone => exact hgone

theorem Alive.sequence_le (h : Sound q) (halive : q.Alive id) : id.sequence ≤ q.numCreated := by
  obtain ⟨t, ht, hseq⟩ := halive
  exact hseq ▸ h.placed.sequence _ t ht

theorem OneShot.sequence_le (h : Sound q) (hone : q.OneShot id fired) :
    id.sequence ≤ q.numCreated := by
  obtain ⟨calls, s, hfollows, -⟩ := hone
  cases hfollows with
  | waiting w hholds => exact hholds.alive.sequence_le h
  | toRun b e hholds => exact hholds.alive.sequence_le h
  | ran b e hholds => exact hholds.alive.sequence_le h
  | gone hgone => exact hgone.sequence

theorem Sound.called_alive (h : Sound q) {call : TimerCall} (hcall : call ∈ callsOf (q.observe a)) :
    q.Alive call.id := by
  cases a with
  | runNext =>
    rcases hbatch : q.batch with _ | ⟨now, expired, _ | ⟨it, todo⟩⟩
    · simp [observe, hbatch, callsOf] at hcall
    · simp [observe, hbatch, callsOf] at hcall
    · obtain ⟨hmem, t, ht⟩ := h.next hbatch
      rw [observe_runNext hbatch ht] at hcall
      obtain rfl : call = _ := List.mem_singleton.mp hcall
      exact ⟨t, ht, rfl⟩
  | handleRead now =>
    rw [observe] at hcall
    split at hcall <;> simp [callsOf] at hcall
  | _ => simp [observe, callsOf] at hcall

end

end TimerQueue

namespace IdleLoop

open TimerQueue (Sound StepCase update_eq_some)

/-! ### The timers of the connections -/

/-- The timer that a connection has in `timerId_` has been called if the connection has timed out,
and the other timers that were armed for it are deleted. -/
structure Tidy (s : IdleLoop) : Prop where
  sound : Sound s.queue
  owned : ∀ id conn, s.owner id = some conn →
    ∃ c, s.connections conn = some c ∧ (id = c.timerId ∨ s.queue.Gone id)
  latest : ∀ conn c, s.connections conn = some c →
    s.owner c.timerId = some conn ∧ s.queue.OneShot c.timerId c.fired
  down : ∀ conn c, s.connections conn = some c → c.up = false → c.fired = true

section

variable {s s' : IdleLoop} {conn p : Nat} {now clock : Timestamp} {c : IdleConnection} {id : TimerId}
  {q' : TimerQueue} {a : TimerQueue.Step}

theorem tidy_new : new.Tidy where
  sound := TimerQueue.sound_new
  owned := nofun
  latest := nofun
  down := nofun

theorem Tidy.owned_sequence_le (h : s.Tidy) (howner : s.owner id = some conn) :
    id.sequence ≤ s.queue.numCreated := by
  obtain ⟨c, hc, rfl | hgone⟩ := h.owned id conn howner
  · exact (h.latest conn c hc).2.sequence_le h.sound
  · exact hgone.sequence

/-- A step of the queue that cancels nothing and calls nothing. -/
theorem Tidy.quiet (h : s.Tidy) (hcase : StepCase s.queue a q') (hcancel : ∀ id, a ≠ .cancelInLoop id)
    (hcalls : callsOf (s.queue.observe a) = []) : Tidy { s with queue := q' } where
  sound := hcase.sound h.sound
  owned id conn howner := by
    obtain ⟨c, hc, hid⟩ := h.owned id conn howner
    exact ⟨c, hc, hid.imp_right hcase.gone⟩
  latest conn c hc := by
    obtain ⟨howner, hone⟩ := h.latest conn c hc
    refine ⟨howner, hcase.oneShot h.sound (hcancel _) hone ?_⟩
    rw [callsOfTimer_ne_nil, hcalls]
    simp
  down := h.down

theorem Tidy.mem_timedOut (h : s.Tidy) (hc : s.connections conn = some c) :
    conn ∈ s.timedOut ↔ callsOfTimer c.timerId (s.queue.observe .runNext) ≠ [] := by
  rw [callsOfTimer_ne_nil, timedOut, List.mem_filterMap]
  refine exists_congr fun call => and_congr_right fun hcall => ⟨?_, ?_⟩
  · intro howner
    -- The timer that is called is not deleted, so it is the one in `timerId_`.
    obtain ⟨c', hc', hid⟩ := h.owned _ _ howner
    cases hc.symm.trans hc'
    exact hid.resolve_right fun hgone => hgone.dead (h.sound.called_alive hcall)
  · intro hid
    rw [hid]
    exact (h.latest conn c hc).1

theorem Tidy.runNext (h : s.Tidy) (hcase : StepCase s.queue .runNext q') :
    Tidy { s with
      queue := q'
      connections := fun conn => (s.connections conn).map fun c =>
        if conn ∈ s.timedOut then { c with fired := true } else c } where
  sound := hcase.sound h.sound
  owned id conn howner := by
    obtain ⟨c, hc, hid⟩ := h.owned id conn howner
    refine ⟨_, congrArg (Option.map _) hc, ?_⟩
    split <;> exact hid.imp_right hcase.gone
  latest conn c' hc' := by
    obtain ⟨c, hc, rfl⟩ := Option.map_eq_some_iff.mp hc'
    obtain ⟨howner, hone⟩ := h.latest conn c hc
    have hmem := h.mem_timedOut hc
    split
    · rename_i hout
      exact ⟨howner, hcase.oneShot h.sound nofun hone (by simp [hmem.mp hout])⟩
    · rename_i hout
      refine ⟨howner, hcase.oneShot h.sound nofun hone ?_⟩
      rw [or_iff_left (mt hmem.mpr hout)]
  down conn c' hc' hdown := by
    obtain ⟨c, hc, rfl⟩ := Option.map_eq_some_iff.mp hc'
    split
    · rfl
    · rename_i hnot
      rw [if_neg hnot] at hdown
      exact h.down conn c hc hdown

/-- No cancellation finds its timer. -/
theorem cancel_eq (h : Sound s.queue) (hidle : s.queue.batch = none) (id : TimerId) :
    s.cancel id = .ok s := by
  have hcalling : s.queue.callingExpiredTimers = false := by
    rw [h.calling, hidle]
    rfl
  rw [cancel, TimerQueue.step, TimerQueue.cancelInLoop_spec h.placed.active, hcalling]
  rfl

/-- The timer that `runAfter` creates. -/
def created (s : IdleLoop) (p : Nat) : TimerId := ⟨p, s.queue.numCreated + 1⟩

/-- What `runAfter` does to the queue. -/
structure Arms (s : IdleLoop) (p : Nat) (now clock : Timestamp) (q' : TimerQueue) : Prop where
  steps : ∃ q, StepCase s.queue (.addTimer p (now + kIdleTime) none) q ∧
    StepCase q (.addTimerInLoop p clock) q'
  batch : q'.batch = s.queue.batch
  inserted : q'.OneShot (s.created p) false

/-- The loop when the connection has been armed with a new timer. -/
def armed (s : IdleLoop) (conn p : Nat) (q' : TimerQueue) : IdleLoop where
  queue := q'
  connections := Function.update s.connections conn (some ⟨true, s.created p, false⟩)
  owner := Function.update s.owner (s.created p) (some conn)

theorem runAfter_spec (h : Sound s.queue) (hfree : s.Free p) (conn : Nat) (now clock : Timestamp) :
    ∃ q', s.Arms p now clock q' ∧ s.runAfter conn p now clock = .ok ({ s with
      queue := q'
      owner := Function.update s.owner (s.created p) (some conn) }, s.created p) := by
  have hadd : s.queue.step (.addTimer p (now + kIdleTime) none) =
      .ok (s.queue.addTimer p (now + kIdleTime) none) := by
    rw [TimerQueue.step, if_pos (show s.queue.heap p = none ∧ p < UINTPTR_MAX from hfree)]
  have hcase := h.step_cases hadd
  obtain ⟨q', hinsert, hcase'⟩ := (hcase.sound h).step_spec (.addTimerInLoop p clock)
  refine ⟨q', ⟨⟨_, hcase, hcase'⟩, ?_, ?_⟩, ?_⟩
  · cases hcase' <;> rfl
  · exact TimerQueue.oneShot_inserted (t := ⟨now + kIdleTime, none, s.queue.numCreated + 1⟩) clock
      List.mem_cons_self (Function.update_self ..) rfl hinsert
  · rw [runAfter, hadd, ok_bind, hinsert]
    rfl

theorem Arms.sound (harms : s.Arms p now clock q') (h : Sound s.queue) : Sound q' := by
  obtain ⟨q, hcase, hcase'⟩ := harms.steps
  exact hcase'.sound (hcase.sound h)

theorem Tidy.created_fresh (h : s.Tidy) (howner : s.owner id = some conn) : id ≠ s.created p := by
  rintro rfl
  exact Nat.not_succ_le_self _ (h.owned_sequence_le howner)

/-- A new timer for a connection whose timers are all deleted. -/
theorem Tidy.arm (h : s.Tidy) (harms : s.Arms p now clock q')
    (hgone : ∀ id, s.owner id = some conn → s.queue.Gone id) : (s.armed conn p q').Tidy := by
  obtain ⟨⟨q, hcase, hcase'⟩, -, hone⟩ := harms
  have hquiet : Tidy { s with queue := q' } := (h.quiet hcase nofun rfl).quiet hcase' nofun rfl
  constructor
  · exact hquiet.sound
  · intro id conn' howner
    rcases update_eq_some.mp howner with ⟨rfl, heq⟩ | ⟨-, hold⟩
    · cases heq
      exact ⟨_, Function.update_self .., .inl rfl⟩
    · by_cases hconn : conn' = conn
      · subst hconn
        exact ⟨_, Function.update_self .., .inr (hcase'.gone (hcase.gone (hgone id hold)))⟩
      · obtain ⟨c, hc, hid⟩ := hquiet.owned id conn' hold
        exact ⟨c, update_eq_some.mpr (.inr ⟨hconn, hc⟩), hid⟩
  · intro conn' c hc
    rcases update_eq_some.mp hc with ⟨rfl, heq⟩ | ⟨-, hold⟩
    · cases heq
      exact ⟨Function.update_self .., hone⟩
    · obtain ⟨howner, hone'⟩ := hquiet.latest conn' c hold
      exact ⟨update_eq_some.mpr (.inr ⟨h.created_fresh howner, howner⟩), hone'⟩
  · intro conn' c hc hdown
    rcases update_eq_some.mp hc with ⟨rfl, heq⟩ | ⟨-, hold⟩
    · cases heq
      cases hdown
    · exact hquiet.down conn' c hold hdown

/-- The timers of a connection that has timed out are deleted. -/
theorem Tidy.gone_of_fired (h : s.Tidy) (hidle : s.queue.batch = none)
    (hc : s.connections conn = some c) (hfired : c.fired = true) (howner : s.owner id = some conn) :
    s.queue.Gone id := by
  obtain ⟨c', hc', hid⟩ := h.owned id conn howner
  cases hc.symm.trans hc'
  rcases hid with rfl | hgone
  · have hone := (h.latest conn c hc).2
    rw [hfired] at hone
    exact hone.gone hidle
  · exact hgone

theorem Tidy.close (h : s.Tidy) (hc : s.connections conn = some c) (hfired : c.fired = true) :
    Tidy (s.setConnection conn { c with up := false }) where
  sound := h.sound
  owned id conn' howner := by
    obtain ⟨c', hc', hid⟩ := h.owned id conn' howner
    by_cases hconn : conn' = conn
    · subst hconn
      cases hc.symm.trans hc'
      exact ⟨_, Function.update_self .., hid⟩
    · exact ⟨c', update_eq_some.mpr (.inr ⟨hconn, hc'⟩), hid⟩
  latest conn' c' hc' := by
    rcases update_eq_some.mp hc' with ⟨rfl, heq⟩ | ⟨-, hold⟩
    · cases heq
      exact h.latest _ c hc
    · exact h.latest conn' c' hold
  down conn' c' hc' hdown := by
    rcases update_eq_some.mp hc' with ⟨rfl, heq⟩ | ⟨-, hold⟩
    · cases heq
      exact hfired
    · exact h.down conn' c' hold hdown

/-! ### The steps -/

/-- What a step does. -/
inductive StepCase (s : IdleLoop) : IdleStep → IdleLoop → Prop
  | ignored (a : IdleStep) (h : s.AfterTimeout a) : StepCase s a s
  | connectionUp (conn p : Nat) (now clock : Timestamp) (q' : TimerQueue)
      (hconn : s.connections conn = none) (harms : s.Arms p now clock q') :
      StepCase s (.connectionUp conn p now clock) (s.armed conn p q')
  | message (conn p : Nat) (now clock : Timestamp) (c : IdleConnection) (q' : TimerQueue)
      (hidle : s.queue.batch = none) (hfree : s.Free p) (hc : s.connections conn = some c)
      (hup : c.up = true) (harms : s.Arms p now clock q') :
      StepCase s (.message conn p now clock) (s.armed conn p q')
  | connectionDown (conn : Nat) (c : IdleConnection) (hidle : s.queue.batch = none)
      (hc : s.connections conn = some c) (hup : c.up = true) :
      StepCase s (.connectionDown conn) (s.setConnection conn { c with up := false })
  | handleRead (now : Timestamp) (q' : TimerQueue)
      (hcase : TimerQueue.StepCase s.queue (.handleRead now) q') :
      StepCase s (.handleRead now) { s with queue := q' }
  | runNext (q' : TimerQueue) (hcase : TimerQueue.StepCase s.queue .runNext q') :
      StepCase s .runNext { s with
        queue := q'
        connections := fun conn => (s.connections conn).map fun c =>
          if conn ∈ s.timedOut then { c with fired := true } else c }
  | finishRead (clock : Timestamp) (q' : TimerQueue)
      (hcase : TimerQueue.StepCase s.queue (.finishRead clock) q') :
      StepCase s (.finishRead clock) { s with queue := q' }

theorem step_spec (h : Sound s.queue) (a : IdleStep) : ∃ s', step s a = .ok s' ∧ StepCase s a s' := by
  cases a with
  | connectionUp conn p now clock =>
    by_cases hnew : s.queue.batch = none ∧ s.Free p ∧ s.connections conn = none
    · obtain ⟨q', harms, hrun⟩ := runAfter_spec h hnew.2.1 conn now clock
      refine ⟨s.armed conn p q', ?_, .connectionUp conn p now clock q' hnew.2.2 harms⟩
      rw [step, if_pos hnew, onConnectionUp, hrun]
      rfl
    · exact ⟨s, by rw [step, if_neg hnew]; rfl, .ignored _ trivial⟩
  | message conn p now clock =>
    cases hc : s.connections conn with
    | none => exact ⟨s, by rw [step, hc]; rfl, .ignored _ fun _ _ c hsome => by simp [hc] at hsome⟩
    | some c =>
      by_cases hup : s.queue.batch = none ∧ s.Free p ∧ c.up = true
      · obtain ⟨q', harms, hrun⟩ := runAfter_spec h hup.2.1 conn now clock
        refine ⟨s.armed conn p q', ?_, .message conn p now clock c q' hup.1 hup.2.1 hc hup.2.2 harms⟩
        rw [step, hc]
        dsimp only
        rw [if_pos hup, onMessage, cancel_eq h hup.1, ok_bind, hrun, ok_bind]
        dsimp only
        rw [hup.2.2]
        rfl
      · refine ⟨s, by rw [step, hc]; exact if_neg hup, .ignored _ ?_⟩
        intro hidle hfree c' hc' hup'
        cases hc.symm.trans hc'
        exact absurd ⟨hidle, hfree, hup'⟩ hup
  | connectionDown conn =>
    cases hc : s.connections conn with
    | none => exact ⟨s, by rw [step, hc]; rfl, .ignored _ fun _ c hsome => by simp [hc] at hsome⟩
    | some c =>
      by_cases hup : s.queue.batch = none ∧ c.up = true
      · refine ⟨_, ?_, .connectionDown conn c hup.1 hc hup.2⟩
        rw [step, hc]
        dsimp only
        rw [if_pos hup, onConnectionDown, cancel_eq h hup.1]
        rfl
      · refine ⟨s, by rw [step, hc]; exact if_neg hup, .ignored _ ?_⟩
        intro hidle c' hc' hup'
        cases hc.symm.trans hc'
        exact absurd ⟨hidle, hup'⟩ hup
  | handleRead now =>
    obtain ⟨q', hq', hcase⟩ := h.step_spec (.handleRead now)
    exact ⟨_, by rw [step, hq']; rfl, .handleRead now q' hcase⟩
  | runNext =>
    obtain ⟨q', hq', hcase⟩ := h.step_spec .runNext
    exact ⟨_, by rw [step, hq']; rfl, .runNext q' hcase⟩
  | finishRead clock =>
    obtain ⟨q', hq', hcase⟩ := h.step_spec (.finishRead clock)
    exact ⟨_, by rw [step, hq']; rfl, .finishRead clock q' hcase⟩

theorem StepCase.sound {a : IdleStep} (hcase : StepCase s a s') (h : Sound s.queue) :
    Sound s'.queue := by
  cases hcase with
  | ignored | connectionDown => exact h
  | connectionUp conn p now clock q' hconn harms => exact harms.sound h
  | message conn p now clock c q' hidle hfree hc hup harms => exact harms.sound h
  | handleRead now q' hcase => exact hcase.sound h
  | runNext q' hcase => exact hcase.sound h
  | finishRead clock q' hcase => exact hcase.sound h

theorem step_returns (h : Sound s.queue) (a : IdleStep) : ∃ s', step s a = .ok s' ∧ Sound s'.queue := by
  obtain ⟨s', hs', hcase⟩ := step_spec h a
  exact ⟨s', hs', hcase.sound h⟩

theorem step_cases {a : IdleStep} (h : Sound s.queue) (hs' : step s a = .ok s') :
    StepCase s a s' := by
  obtain ⟨r, hr, hcase⟩ := step_spec h a
  cases hr.symm.trans hs'
  exact hcase

theorem callsOf_observe_handleRead (q : TimerQueue) (now : Timestamp) :
    callsOf (q.observe (.handleRead now)) = [] := by
  rw [TimerQueue.observe]
  split <;> rfl

/-- A message and a close of a connection that has timed out leave no timer behind. -/
theorem StepCase.tidy {a : IdleStep} (hcase : StepCase s a s') (h : s.Tidy)
    (hcond : s.AfterTimeout a) : s'.Tidy := by
  cases hcase with
  | ignored => exact h
  | connectionUp conn p now clock q' hconn harms =>
    refine h.arm harms ?_
    intro id howner
    obtain ⟨c, hc, -⟩ := h.owned id conn howner
    cases hconn.symm.trans hc
  | message conn p now clock c q' hidle hfree hc hup harms =>
    have hfired : c.fired = true := hcond hidle hfree c hc hup
    exact h.arm harms fun id howner => h.gone_of_fired hidle hc hfired howner
  | connectionDown conn c hidle hc hup => exact h.close hc (hcond hidle c hc hup)
  | handleRead now q' hcase => exact h.quiet hcase nofun (callsOf_observe_handleRead s.queue now)
  | runNext q' hcase => exact h.runNext hcase
  | finishRead clock q' hcase => exact h.quiet hcase nofun rfl

theorem Tidy.idles_latest (h : s.Tidy) (hidle : s.queue.batch = none)
    (hc : s.connections conn = some c) (hfired : c.fired = false) : s.Idles conn c.timerId := by
  obtain ⟨howner, hone⟩ := h.latest conn c hc
  rw [hfired] at hone
  exact ⟨hone.waiting hidle, howner⟩

theorem Tidy.oneIdleTimer (h : s.Tidy) : s.OneIdleTimer := by
  intro hidle conn c hc
  refine ⟨fun _ hfired id => ⟨?_, ?_⟩, ?_⟩
  · rintro ⟨⟨w, hw⟩, howner⟩
    obtain ⟨c', hc', hid⟩ := h.owned id conn howner
    cases hc.symm.trans hc'
    exact hid.resolve_right fun hgone => hgone.dead hw.alive
  · rintro rfl
    exact h.idles_latest hidle hc hfired
  · intro hdown id
    rintro ⟨⟨w, hw⟩, howner⟩
    exact (h.gone_of_fired hidle hc (h.down conn c hc hdown) howner).dead hw.alive

/-- The timer that a message or a close does not find goes on waiting. -/
theorem StepCase.afterTimeout {a : IdleStep} (hcase : StepCase s a s') (h : s.Tidy)
    (hone : s'.OneIdleTimer) : s.AfterTimeout a := by
  cases hcase with
  | ignored _ hcond => exact hcond
  | message conn p now clock c q' hidle hfree hc hup harms =>
    intro _ _ c' hc' _
    cases hc.symm.trans hc'
    by_contra hnot
    obtain ⟨⟨w, hw⟩, howner⟩ := h.idles_latest hidle hc (Bool.eq_false_iff.mpr hnot)
    obtain ⟨q, hcase, hcase'⟩ := harms.steps
    have hold : (s.armed conn p q').Idles conn c.timerId := by
      refine ⟨⟨w, ?_⟩, update_eq_some.mpr (.inr ⟨h.created_fresh howner, howner⟩)⟩
      exact hcase'.waiting (hcase.sound h.sound) (hcase.waiting h.sound hw nofun) nofun
    have hidle' : (s.armed conn p q').queue.batch = none := harms.batch.trans hidle
    have hunique := (hone hidle' conn _ (Function.update_self ..)).1 rfl rfl c.timerId
    exact h.created_fresh howner (hunique.mp hold)
  | connectionDown conn c hidle hc hup =>
    intro _ c' hc' _
    cases hc.symm.trans hc'
    by_contra hnot
    have hnone := (hone hidle conn _ (Function.update_self ..)).2 rfl c.timerId
    exact hnone (h.idles_latest hidle hc (Bool.eq_false_iff.mpr hnot))
  | _ => trivial

/-- No run faults, and the runs in which there is always one idle timer for each connection that is
up and has not timed out, and none for one that is down, are those in which no message and no close
comes before the time-out. -/
theorem one_idle_timer_iff (steps : List IdleStep) :
    (∃ s, run step new steps = .ok s) ∧
      ((∀ before after, steps = before ++ after → ∀ s, run step new before = .ok s →
          s.OneIdleTimer) ↔ Along step AfterTimeout new steps) := by
  constructor
  · obtain ⟨s, hrun, -⟩ := run_total (I := fun s : IdleLoop => Sound s.queue) step_returns tidy_new.sound steps
    exact ⟨s, hrun⟩
  · refine along_iff_states (I := Tidy) ?_ ?_
      (fun s h => h.oneIdleTimer) ?_ tidy_new
    · intro s a h
      obtain ⟨s', hs', -⟩ := step_returns h.sound a
      exact ⟨s', hs'⟩
    · intro s a s' h hcond hstep
      exact (step_cases h.sound hstep).tidy h hcond
    · intro s a s' h hstep hone
      exact (step_cases h.sound hstep).afterTimeout h hone

/-- After the first message of a connection two timers wait for it, and after its close as well. -/
theorem message_keeps_idle_timer : ∃ s s',
    run step new [.connectionUp 0 7 0 0, .message 0 8 10 10] = .ok s ∧
      s.Idles 0 ⟨7, 1⟩ ∧ s.Idles 0 ⟨8, 2⟩ ∧ ¬s.OneIdleTimer ∧
    step s (.connectionDown 0) = .ok s' ∧
      s'.Idles 0 ⟨7, 1⟩ ∧ s'.Idles 0 ⟨8, 2⟩ ∧ ¬s'.OneIdleTimer := by
  refine ⟨_, _, rfl, ⟨⟨60000000, ⟨_, rfl, rfl⟩, ?_⟩, rfl⟩, ⟨⟨60000010, ⟨_, rfl, rfl⟩, ?_⟩, rfl⟩,
    ?_, rfl, ⟨⟨60000000, ⟨_, rfl, rfl⟩, ?_⟩, rfl⟩, ⟨⟨60000010, ⟨_, rfl, rfl⟩, ?_⟩, rfl⟩,
    ?_⟩
  · decide
  · decide
  · intro hone
    have hunique := (hone rfl 0 _ rfl).1 rfl rfl ⟨7, 1⟩
    cases hunique.mp ⟨⟨60000000, ⟨_, rfl, rfl⟩, by decide⟩, rfl⟩
  · decide
  · decide
  · intro hone
    exact (hone rfl 0 _ rfl).2 rfl ⟨7, 1⟩ ⟨⟨60000000, ⟨_, rfl, rfl⟩, by decide⟩, rfl⟩

end

end IdleLoop

end Mymuduo
