import Mymuduo.Net.EventLoop

/-! An event loop and the threads that queue functors in it.  The loop's own thread is at a place of
`loop()`, where it takes one step after another; any other thread can queue a functor or stop the
loop at any time.  A call of `queueInLoop` is two steps, the push under the mutex and what follows
it, so that the steps of all threads interleave freely.  The history tells which functor was pushed
and which was called, each with the number of rounds of `doPendingFunctors` that had begun. -/

namespace Mymuduo

open Lib

namespace EventLoop

variable {φ : Type}

/-- The push of `queueInLoop`, under the mutex. -/
def push (l : EventLoop φ) (cb : φ) : EventLoop φ :=
  { l with pendingFunctors := l.pendingFunctors ++ [cb] }

/-- What `queueInLoop` does after the push. -/
def wakeAfterPush (l : EventLoop φ) (isInLoopThread : Bool) : EventLoop φ :=
  if !isInLoopThread || l.callingPendingFunctors then l.wakeup else l

theorem queueInLoop_eq (l : EventLoop φ) (isInLoopThread : Bool) (cb : φ) :
    l.queueInLoop isInLoopThread cb = (l.push cb).wakeAfterPush isInLoopThread := rfl

/-- `handleRead()`: the read resets the counter of the eventfd. -/
def handleRead (l : EventLoop φ) : EventLoop φ := { l with wakeups := 0 }

theorem ite_handleRead (p : Prop) [Decidable p] (l : EventLoop φ) :
    (if p then l.handleRead else l) = { l with wakeups := if p then 0 else l.wakeups } := by
  split <;> rfl

theorem wakeAfterPush_of_calling {l : EventLoop φ} (h : l.callingPendingFunctors = true)
    (isInLoopThread : Bool) : l.wakeAfterPush isInLoopThread = l.wakeup := by
  simp [wakeAfterPush, h]

theorem wakeAfterPush_frame (l : EventLoop φ) (isInLoopThread : Bool) :
    l.wakeAfterPush isInLoopThread =
      { l with wakeups := (l.wakeAfterPush isInLoopThread).wakeups } := by
  unfold wakeAfterPush
  split <;> rfl

theorem wakeups_le_wakeAfterPush (l : EventLoop φ) (isInLoopThread : Bool) :
    l.wakeups ≤ (l.wakeAfterPush isInLoopThread).wakeups := by
  unfold wakeAfterPush
  split
  · exact Nat.le_succ l.wakeups
  · exact Nat.le_refl l.wakeups

end EventLoop

/-- Where the loop's thread is in `loop()`, with the active channels and the functors that the two
`for` loops have not come to. -/
inductive LoopPlace (φ : Type)
  | outside
  | quitTest
  | polling
  | handling (channels : List Nat)
  | swapping
  | calling (functors : List φ)
  /-- At the end of `doPendingFunctors`, where the called functors are destroyed. -/
  | destroying
  deriving DecidableEq, Repr

/-- Where a thread is in a call of `queueInLoop` or `quit`. -/
inductive CallPlace
  | idle
  | pushed
  | quitting
  deriving DecidableEq, Repr

/-- The loop with `place` and `caller` for its own thread and `callers` for the other ones. -/
structure LoopThreads (φ : Type) where
  loop : EventLoop φ
  wakeupChannel : Nat
  place : LoopPlace φ
  caller : CallPlace
  callers : Nat → CallPlace
  rounds : Nat
  pushed : List (φ × Nat)
  executed : List (φ × Nat)

/-- A step of the loop's own thread, or of the thread `thread`. -/
inductive LoopAction (φ : Type)
  /-- The next step of `loop()`, where `active` is what a poll finds. -/
  | advance (active : List Nat)
  | push (cb : φ)
  | wakeup
  | quit
  | threadPush (thread : Nat) (cb : φ)
  | threadQuit (thread : Nat)
  | threadWakeup (thread : Nat)
  deriving DecidableEq, Repr

namespace LoopPlace

variable {φ : Type}

/-- The functors of the current round that have not been called. -/
def round : LoopPlace φ → List φ
  | calling functors => functors
  | _ => []

/-- Code of the user runs here: before or after `loop()`, in an event handler, in a functor or in
its destructor. -/
def RunsUserCode : LoopPlace φ → Prop
  | outside | handling _ | calling _ | destroying => True
  | _ => False

instance (p : LoopPlace φ) : Decidable p.RunsUserCode := by
  unfold RunsUserCode
  split <;> infer_instance

end LoopPlace

namespace LoopThreads

variable {φ : Type}

/-- A loop that has just been constructed, and threads that have not called it. -/
def new (wakeupChannel : Nat) : LoopThreads φ where
  loop := .new
  wakeupChannel := wakeupChannel
  place := .outside
  caller := .idle
  callers := fun _ => .idle
  rounds := 0
  pushed := []
  executed := []

def setCaller (s : LoopThreads φ) (thread : Nat) (p : CallPlace) : LoopThreads φ :=
  { s with callers := Function.update s.callers thread p }

/-- The push of `queueInLoop`, by any thread. -/
def pushFunctor (s : LoopThreads φ) (cb : φ) : LoopThreads φ :=
  { s with
    loop := s.loop.push cb
    pushed := s.pushed ++ [(cb, s.rounds)] }

/-- The next step of `loop()` and of `doPendingFunctors()`.  A poll that finds the wake-up channel
active has found its counter positive. -/
def advance (s : LoopThreads φ) (active : List Nat) : Except Fault (LoopThreads φ) :=
  match s.place with
  | .outside => do
    check .loop (!s.loop.looping)
    return { s with loop := { s.loop with looping := true, quit := false }, place := .quitTest }
  | .quitTest =>
    if s.loop.quit then
      return { s with loop := { s.loop with looping := false }, place := .outside }
    else
      return { s with loop := { s.loop with activeChannels := [] }, place := .polling }
  | .polling =>
    if s.wakeupChannel ∈ active ∧ s.loop.wakeups = 0 then
      return s
    else
      return { s with
        loop := { s.loop with activeChannels := active, eventHandling := true }
        place := .handling active }
  | .handling (channel :: channels) =>
    return { s with
      loop := if channel = s.wakeupChannel then s.loop.handleRead else s.loop
      place := .handling channels }
  | .handling [] =>
    return { s with
      loop := { s.loop with eventHandling := false, callingPendingFunctors := true }
      place := .swapping }
  | .swapping =>
    return { s with
      loop := { s.loop with pendingFunctors := [] }
      place := .calling s.loop.pendingFunctors
      rounds := s.rounds + 1 }
  | .calling (functor :: functors) =>
    return { s with
      place := .calling functors
      executed := s.executed ++ [(functor, s.rounds)] }
  | .calling [] =>
    return { s with
      loop := { s.loop with callingPendingFunctors := false }
      place := .destroying }
  | .destroying => return { s with place := .quitTest }

/-- A step that is out of place does nothing. -/
def step (s : LoopThreads φ) : LoopAction φ → Except Fault (LoopThreads φ)
  | .advance active => if s.caller = .idle then s.advance active else return s
  | .push cb =>
    if s.caller = .idle ∧ s.place.RunsUserCode then
      return { s.pushFunctor cb with caller := .pushed }
    else
      return s
  | .wakeup =>
    if s.caller = .pushed then
      return { s with loop := s.loop.wakeAfterPush true, caller := .idle }
    else
      return s
  | .quit =>
    if s.caller = .idle ∧ s.place.RunsUserCode then
      return { s with loop := { s.loop with quit := true } }
    else
      return s
  | .threadPush thread cb =>
    if s.callers thread = .idle then
      return (s.pushFunctor cb).setCaller thread .pushed
    else
      return s
  | .threadQuit thread =>
    if s.callers thread = .idle then
      return { s with loop := { s.loop with quit := true } }.setCaller thread .quitting
    else
      return s
  | .threadWakeup thread =>
    match s.callers thread with
    | .idle => return s
    | .pushed => return { s with loop := s.loop.wakeAfterPush false }.setCaller thread .idle
    | .quitting => return { s with loop := s.loop.wakeup }.setCaller thread .idle

/-! ### What a step does -/

/-- The flags of the loop say where its thread is, and that thread is in the middle of a call only
where code of the user runs. -/
structure Placed (s : LoopThreads φ) : Prop where
  looping : s.place = .outside → s.loop.looping = false
  eventHandling : s.loop.eventHandling = true ↔ ∃ channels, s.place = .handling channels
  callingPendingFunctors : s.loop.callingPendingFunctors = true ↔
    s.place = .swapping ∨ ∃ functors, s.place = .calling functors
  caller : s.caller ≠ .idle → s.caller = .pushed ∧ s.place.RunsUserCode

/-- The states that a step can lead to. -/
inductive StepCase (s : LoopThreads φ) : LoopAction φ → LoopThreads φ → Prop
  | stay {a : LoopAction φ} : StepCase s a s
  | enter {active : List Nat} (hidle : s.caller = .idle) (hplace : s.place = .outside) :
    StepCase s (.advance active)
      { s with loop := { s.loop with looping := true, quit := false }, place := .quitTest }
  | leave {active : List Nat} (hidle : s.caller = .idle) (hplace : s.place = .quitTest) :
    StepCase s (.advance active)
      { s with loop := { s.loop with looping := false }, place := .outside }
  | poll {active : List Nat} (hidle : s.caller = .idle) (hplace : s.place = .quitTest) :
    StepCase s (.advance active)
      { s with loop := { s.loop with activeChannels := [] }, place := .polling }
  | polled {active : List Nat} (hidle : s.caller = .idle) (hplace : s.place = .polling) :
    StepCase s (.advance active)
      { s with
        loop := { s.loop with activeChannels := active, eventHandling := true }
        place := .handling active }
  | handled {active channels : List Nat} {channel : Nat} (hidle : s.caller = .idle)
    (hplace : s.place = .handling (channel :: channels)) :
    StepCase s (.advance active)
      { s with
        loop := if channel = s.wakeupChannel then s.loop.handleRead else s.loop
        place := .handling channels }
  | handledAll {active : List Nat} (hidle : s.caller = .idle) (hplace : s.place = .handling []) :
    StepCase s (.advance active)
      { s with
        loop := { s.loop with eventHandling := false, callingPendingFunctors := true }
        place := .swapping }
  | swapped {active : List Nat} (hidle : s.caller = .idle) (hplace : s.place = .swapping) :
    StepCase s (.advance active)
      { s with
        loop := { s.loop with pendingFunctors := [] }
        place := .calling s.loop.pendingFunctors
        rounds := s.rounds + 1 }
  | called {active : List Nat} {functor : φ} {functors : List φ} (hidle : s.caller = .idle)
    (hplace : s.place = .calling (functor :: functors)) :
    StepCase s (.advance active)
      { s with place := .calling functors, executed := s.executed ++ [(functor, s.rounds)] }
  | calledAll {active : List Nat} (hidle : s.caller = .idle) (hplace : s.place = .calling []) :
    StepCase s (.advance active)
      { s with loop := { s.loop with callingPendingFunctors := false }, place := .destroying }
  | destroyed {active : List Nat} (hidle : s.caller = .idle) (hplace : s.place = .destroying) :
    StepCase s (.advance active) { s with place := .quitTest }
  | pushed {cb : φ} (hidle : s.caller = .idle) (hplace : s.place.RunsUserCode) :
    StepCase s (.push cb) { s.pushFunctor cb with caller := .pushed }
  | woken (hpushed : s.caller = .pushed) :
    StepCase s .wakeup { s with loop := s.loop.wakeAfterPush true, caller := .idle }
  | quit (hidle : s.caller = .idle) (hplace : s.place.RunsUserCode) :
    StepCase s .quit { s with loop := { s.loop with quit := true } }
  | threadPushed {thread : Nat} {cb : φ} (hidle : s.callers thread = .idle) :
    StepCase s (.threadPush thread cb) ((s.pushFunctor cb).setCaller thread .pushed)
  | threadQuit {thread : Nat} (hidle : s.callers thread = .idle) :
    StepCase s (.threadQuit thread)
      ({ s with loop := { s.loop with quit := true } }.setCaller thread .quitting)
  | threadWoken {thread : Nat} (hpushed : s.callers thread = .pushed) :
    StepCase s (.threadWakeup thread)
      ({ s with loop := s.loop.wakeAfterPush false }.setCaller thread .idle)
  | threadQuitted {thread : Nat} (hquitting : s.callers thread = .quitting) :
    StepCase s (.threadWakeup thread)
      ({ s with loop := s.loop.wakeup }.setCaller thread .idle)

theorem advance_cases {s : LoopThreads φ} {active : List Nat} (hs : s.Placed)
    (hidle : s.caller = .idle) :
    ∃ t, s.advance active = .ok t ∧ s.StepCase (.advance active) t := by
  unfold advance
  split
  case h_1 hplace =>
    refine ⟨_, ?_, .enter hidle hplace⟩
    rw [hs.looping hplace]
    rfl
  case h_2 hplace =>
    split
    · exact ⟨_, rfl, .leave hidle hplace⟩
    · exact ⟨_, rfl, .poll hidle hplace⟩
  case h_3 hplace =>
    split
    · exact ⟨_, rfl, .stay⟩
    · exact ⟨_, rfl, .polled hidle hplace⟩
  case h_4 hplace => exact ⟨_, rfl, .handled hidle hplace⟩
  case h_5 hplace => exact ⟨_, rfl, .handledAll hidle hplace⟩
  case h_6 hplace => exact ⟨_, rfl, .swapped hidle hplace⟩
  case h_7 hplace => exact ⟨_, rfl, .called hidle hplace⟩
  case h_8 hplace => exact ⟨_, rfl, .calledAll hidle hplace⟩
  case h_9 hplace => exact ⟨_, rfl, .destroyed hidle hplace⟩

theorem step_cases {s : LoopThreads φ} (hs : s.Placed) (a : LoopAction φ) :
    ∃ t, s.step a = .ok t ∧ s.StepCase a t := by
  cases a with
  | advance active =>
    by_cases hidle : s.caller = .idle
    · rw [step, if_pos hidle]
      exact advance_cases hs hidle
    · exact ⟨s, if_neg hidle, .stay⟩
  | push cb =>
    by_cases h : s.caller = .idle ∧ s.place.RunsUserCode
    · exact ⟨_, if_pos h, .pushed h.1 h.2⟩
    · exact ⟨s, if_neg h, .stay⟩
  | wakeup =>
    by_cases h : s.caller = .pushed
    · exact ⟨_, if_pos h, .woken h⟩
    · exact ⟨s, if_neg h, .stay⟩
  | quit =>
    by_cases h : s.caller = .idle ∧ s.place.RunsUserCode
    · exact ⟨_, if_pos h, .quit h.1 h.2⟩
    · exact ⟨s, if_neg h, .stay⟩
  | threadPush thread cb =>
    by_cases h : s.callers thread = .idle
    · exact ⟨_, if_pos h, .threadPushed h⟩
    · exact ⟨s, if_neg h, .stay⟩
  | threadQuit thread =>
    by_cases h : s.callers thread = .idle
    · exact ⟨_, if_pos h, .threadQuit h⟩
    · exact ⟨s, if_neg h, .stay⟩
  | threadWakeup thread =>
    cases h : s.callers thread with
    | idle => exact ⟨s, by rw [step, h]; rfl, .stay⟩
    | pushed => exact ⟨_, by rw [step, h]; rfl, .threadWoken h⟩
    | quitting => exact ⟨_, by rw [step, h]; rfl, .threadQuitted h⟩

theorem placed_new (wakeupChannel : Nat) : (new wakeupChannel : LoopThreads φ).Placed where
  looping := fun _ => rfl
  eventHandling := by simp [new, EventLoop.new]
  callingPendingFunctors := by simp [new, EventLoop.new]
  caller := fun h => absurd rfl h

theorem Placed.step {s t : LoopThreads φ} {a : LoopAction φ} (hs : s.Placed)
    (h : s.StepCase a t) : t.Placed := by
  obtain ⟨hloop, hevent, hcalling, hcaller⟩ := hs
  cases h with
  | stay => exact ⟨hloop, hevent, hcalling, hcaller⟩
  | enter hidle hplace | leave hidle hplace | poll hidle hplace | polled hidle hplace
  | handledAll hidle hplace | swapped hidle hplace | called hidle hplace
  | calledAll hidle hplace | destroyed hidle hplace =>
    constructor <;> simp_all
  | handled hidle hplace =>
    rw [EventLoop.ite_handleRead]
    constructor <;> simp_all
  | pushed hidle hplace => exact ⟨hloop, hevent, hcalling, fun _ => ⟨rfl, hplace⟩⟩
  | woken hpushed =>
    rw [EventLoop.wakeAfterPush_frame]
    exact ⟨hloop, hevent, hcalling, fun h => absurd rfl h⟩
  | quit | threadPushed | threadQuit | threadQuitted => exact ⟨hloop, hevent, hcalling, hcaller⟩
  | threadWoken hpushed =>
    rw [EventLoop.wakeAfterPush_frame]
    exact ⟨hloop, hevent, hcalling, hcaller⟩

/-! ### Every functor once, in the order of the pushes -/

/-- The functors that were pushed, each with the round after the one that had begun, are those that
were called, those of the current round that are left, and those in `pendingFunctors`. -/
structure Ordered (s : LoopThreads φ) : Prop where
  placed : s.Placed
  conserve : s.pushed.map (fun p => (p.1, p.2 + 1)) = s.executed ++
    s.place.round.map (fun cb => (cb, s.rounds)) ++
    s.loop.pendingFunctors.map (fun cb => (cb, s.rounds + 1))

theorem ordered_new (wakeupChannel : Nat) : (new wakeupChannel : LoopThreads φ).Ordered :=
  ⟨placed_new wakeupChannel, rfl⟩

theorem Ordered.pushFunctor {s : LoopThreads φ} (hs : s.Ordered) (cb : φ) :
    (s.pushFunctor cb).pushed.map (fun p => (p.1, p.2 + 1)) = s.executed ++
      s.place.round.map (fun cb => (cb, s.rounds)) ++
      (s.pushFunctor cb).loop.pendingFunctors.map (fun cb => (cb, s.rounds + 1)) := by
  simp only [LoopThreads.pushFunctor, EventLoop.push, List.map_append, List.map_cons, List.map_nil]
  rw [hs.conserve, List.append_assoc _ _ [_]]

/-- A step moves functors along the stations of the queue and changes nothing in their order. -/
theorem Ordered.step {s t : LoopThreads φ} {a : LoopAction φ} (hs : s.Ordered)
    (h : s.StepCase a t) : t.Ordered := by
  refine ⟨hs.placed.step h, ?_⟩
  have hconserve := hs.conserve
  cases h with
  | stay | quit | threadQuit | threadQuitted => exact hconserve
  | enter hidle hplace | leave hidle hplace | poll hidle hplace | polled hidle hplace
  | handledAll hidle hplace | calledAll hidle hplace | destroyed hidle hplace =>
    rw [hplace] at hconserve
    exact hconserve
  | handled hidle hplace =>
    rw [hplace] at hconserve
    rw [EventLoop.ite_handleRead]
    exact hconserve
  | swapped hidle hplace =>
    rw [hplace] at hconserve
    simpa [LoopPlace.round] using hconserve
  | called hidle hplace =>
    rw [hplace] at hconserve
    simpa [LoopPlace.round] using hconserve
  | pushed | threadPushed => exact hs.pushFunctor _
  | woken | threadWoken =>
    rw [EventLoop.wakeAfterPush_frame]
    exact hconserve

theorem run_ordered (wakeupChannel : Nat) (as : List (LoopAction φ)) :
    ∃ t, run step (new wakeupChannel) as = .ok t ∧ t.Ordered := by
  refine run_total (I := Ordered) (fun {s} hs a => ?_) (ordered_new wakeupChannel) as
  obtain ⟨t, ht, hcase⟩ := step_cases hs.placed a
  exact ⟨t, ht, hs.step hcase⟩

/-- At every moment the functors that were called, those of the current round that are left and
those in `pendingFunctors` are all that were pushed, in the order of the pushes, and a functor was
called in a later round than the last one that had begun when it was pushed. -/
theorem functors_called_in_order (wakeupChannel : Nat) (as : List (LoopAction φ)) :
    ∃ t, run step (new wakeupChannel) as = .ok t ∧
      t.executed.map Prod.fst ++ t.place.round ++ t.loop.pendingFunctors =
        t.pushed.map Prod.fst ∧
      ∀ (i : Nat) (cb : φ) (round : Nat), t.executed[i]? = some (cb, round) →
        ∃ begun, t.pushed[i]? = some (cb, begun) ∧ begun < round := by
  obtain ⟨t, hrun, ht⟩ := run_ordered wakeupChannel as
  refine ⟨t, hrun, ?_, ?_⟩
  · have hnames := congrArg (List.map Prod.fst) ht.conserve
    simp only [List.map_append, List.map_map] at hnames
    simpa [Function.comp_def] using hnames.symm
  · intro i cb round hi
    have hlen : i < t.executed.length := (List.getElem?_eq_some_iff.mp hi).1
    have hpushed : (t.pushed.map fun p => (p.1, p.2 + 1))[i]? = some (cb, round) := by
      rw [ht.conserve, List.append_assoc, List.getElem?_append_left hlen, hi]
    rw [List.getElem?_map, Option.map_eq_some_iff] at hpushed
    obtain ⟨⟨cb', begun⟩, hbegun, heq⟩ := hpushed
    obtain ⟨rfl, rfl⟩ := Prod.mk.inj heq
    exact ⟨begun, hbegun, Nat.lt_succ_self begun⟩

/-! ### No functor behind a blocking poll -/

/-- The functors in `pendingFunctors` will be swapped out before the next poll. -/
def SwapsFirst (s : LoopThreads φ) : Prop :=
  s.place = .swapping ∨ ∃ channels, s.place = .handling channels

/-- If functors are pending, they are swapped out before the next poll, or the counter of the
eventfd is positive or about to be. -/
structure Awake (s : LoopThreads φ) : Prop where
  placed : s.Placed
  awake : s.loop.pendingFunctors ≠ [] → s.SwapsFirst ∨ s.loop.wakeups ≠ 0 ∨
    (∃ thread, s.callers thread = .pushed) ∨
    (s.caller = .pushed ∧ s.loop.callingPendingFunctors = true)

/-- The loop's thread calls `queueInLoop` from an event handler or from a pending functor. -/
def QueuesFromCallback (s : LoopThreads φ) : LoopAction φ → Prop
  | .push _ => s.loop.eventHandling = true ∨ s.loop.callingPendingFunctors = true
  | _ => True

instance (s : LoopThreads φ) (a : LoopAction φ) : Decidable (s.QueuesFromCallback a) := by
  unfold QueuesFromCallback
  split <;> infer_instance

theorem awake_new (wakeupChannel : Nat) : (new wakeupChannel : LoopThreads φ).Awake :=
  ⟨placed_new wakeupChannel, fun h => absurd rfl h⟩

/-- Setting the place of a thread that was not at `pushed` hides no thread that is. -/
theorem exists_pushed_setCaller {s : LoopThreads φ} {thread : Nat} {p : CallPlace}
    (h : s.callers thread ≠ .pushed) (hpushed : ∃ other, s.callers other = .pushed) :
    ∃ other, (s.setCaller thread p).callers other = .pushed := by
  obtain ⟨other, hother⟩ := hpushed
  have hne : other ≠ thread := fun heq => h (heq ▸ hother)
  refine ⟨other, ?_⟩
  show Function.update s.callers thread p other = .pushed
  rw [Function.update_of_ne hne, hother]

theorem Awake.step {s t : LoopThreads φ} {a : LoopAction φ} (hs : s.Awake)
    (hcall : s.QueuesFromCallback a) (h : s.StepCase a t) : t.Awake := by
  refine ⟨hs.placed.step h, ?_⟩
  intro hpending
  have hawake := hs.awake
  cases h with
  | stay | quit => exact hawake hpending
  | polled | handled => exact .inl (.inr ⟨_, rfl⟩)
  | handledAll => exact .inl (.inl rfl)
  | swapped => exact absurd rfl hpending
  | enter hidle hplace | leave hidle hplace | poll hidle hplace | called hidle hplace
  | calledAll hidle hplace | destroyed hidle hplace =>
    -- The thread is neither about to swap nor between its own push and its wake-up.
    rcases hawake hpending with (hswap | ⟨_, hswap⟩) | hwake | hthread | ⟨hcaller, -⟩
    · rw [hplace] at hswap
      cases hswap
    · rw [hplace] at hswap
      cases hswap
    · exact .inr (.inl hwake)
    · exact .inr (.inr (.inl hthread))
    · rw [hidle] at hcaller
      cases hcaller
  | pushed hidle hplace =>
    rcases hcall with hevent | hcalling
    · exact .inl (.inr (hs.placed.eventHandling.mp hevent))
    · exact .inr (.inr (.inr ⟨rfl, hcalling⟩))
  | woken hpushed =>
    by_cases hcalling : s.loop.callingPendingFunctors = true
    · right; left
      simp [EventLoop.wakeAfterPush_of_calling hcalling, EventLoop.wakeup]
    · rw [EventLoop.wakeAfterPush_frame] at hpending
      rcases hawake hpending with hswap | hwake | hthread | ⟨-, hcalling'⟩
      · exact .inl hswap
      · have := s.loop.wakeups_le_wakeAfterPush true
        exact .inr (.inl (by dsimp only; omega))
      · exact .inr (.inr (.inl hthread))
      · exact absurd hcalling' hcalling
  | @threadPushed thread cb hidle =>
    exact .inr (.inr (.inl ⟨thread, by simp [setCaller]⟩))
  | threadQuit hidle =>
    rcases hawake hpending with hswap | hwake | hthread | hcaller
    · exact .inl hswap
    · exact .inr (.inl hwake)
    · exact .inr (.inr (.inl (exists_pushed_setCaller (by simp [hidle]) hthread)))
    · exact .inr (.inr (.inr hcaller))
  | threadWoken | threadQuitted => exact .inr (.inl (Nat.succ_ne_zero s.loop.wakeups))

/-- If the loop's thread calls `queueInLoop` only from event handlers and pending functors, then no
poll is entered with a functor pending and the counter of the eventfd at zero, unless a thread is
between its push and its wake-up. -/
theorem not_stranded_of_queues_from_callback (wakeupChannel : Nat) (as : List (LoopAction φ))
    (h : Along step QueuesFromCallback (new wakeupChannel) as) :
    ∃ t, run step (new wakeupChannel) as = .ok t ∧
      (t.place = .polling → (∀ thread, t.callers thread ≠ .pushed) →
        t.loop.pendingFunctors ≠ [] → t.loop.wakeups ≠ 0) := by
  have hstep : ∀ (s : LoopThreads φ) (a : LoopAction φ), s.Awake → s.QueuesFromCallback a →
      ∃ t, s.step a = .ok t ∧ t.Awake := by
    intro s a hs hcall
    obtain ⟨t, ht, hcase⟩ := step_cases hs.placed a
    exact ⟨t, ht, hs.step hcall hcase⟩
  obtain ⟨t, hrun, ht⟩ := h.run_total hstep (awake_new wakeupChannel)
  refine ⟨t, hrun, ?_⟩
  intro hplace hthreads hpending
  rcases ht.awake hpending with (hswap | ⟨_, hswap⟩) | hwake | ⟨thread, hthread⟩ | ⟨hcaller, -⟩
  · rw [hplace] at hswap
    cases hswap
  · rw [hplace] at hswap
    cases hswap
  · exact hwake
  · exact absurd hthread (hthreads thread)
  · obtain ⟨-, huser⟩ := ht.placed.caller (by rw [hcaller]; decide)
    rw [hplace] at huser
    exact huser.elim

/-- A functor queues another one, whose round starts with a positive counter. -/
theorem not_stranded_of_queues_from_callback_example :
    ∃ t : LoopThreads Nat,
      run step (new 7) [.threadPush 0 1, .advance [], .threadWakeup 0, .advance [], .advance [7],
        .advance [], .advance [], .advance [], .advance [], .push 2, .wakeup, .advance [],
        .advance [], .advance []] = .ok t ∧
      (t.place = .polling → (∀ thread, t.callers thread ≠ .pushed) →
        t.loop.pendingFunctors ≠ [] → t.loop.wakeups ≠ 0) :=
  not_stranded_of_queues_from_callback 7 _ (by decide)

/-- The functor that the loop's thread queues before `loop()` waits behind the first poll. -/
theorem stranded_before_loop :
    ∃ t : LoopThreads Nat,
      run step (new 7) [.push 1, .wakeup, .advance [], .advance []] = .ok t ∧
      t.place = .polling ∧ (∀ thread, t.callers thread ≠ .pushed) ∧
      t.loop.pendingFunctors = [1] ∧ t.loop.wakeups = 0 :=
  ⟨_, rfl, rfl, nofun, rfl, rfl⟩

end LoopThreads

end Mymuduo
