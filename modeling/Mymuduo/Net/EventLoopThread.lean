import Mymuduo.Net.EventLoop

/-! An `EventLoopThread`: the new thread runs `threadFunc`, whose `EventLoop` is on its stack, and
the owner calls `startLoop`, `quit` on the loop, and the destructor.  The two threads take one
statement after another, in any order; only the publication of `loop_` is under the mutex in both of
them. -/

namespace Mymuduo

open Lib

/-- The statement of `threadFunc`, or of `EventLoop::loop` in it, that the new thread is about to
execute. -/
inductive ThreadPlace
  | notStarted
  /-- `EventLoop loop;` -/
  | construct
  | callback
  | lockToSet
  /-- `loop_ = &loop;` -/
  | setLoop
  | notify
  | unlockSet
  /-- `looping_.store(true);` -/
  | setLooping
  /-- `quit_.store(false);` -/
  | clearQuit
  /-- `while (!quit_.load())` -/
  | testQuit
  | poll
  | handleEvents
  | doPendingFunctors
  /-- `looping_.store(false);` -/
  | clearLooping
  | lockToClear
  /-- `loop_ = nullptr;` -/
  | clearLoop
  | unlockCleared
  /-- The destructor of `loop`. -/
  | destroyLoop
  | finished
  deriving DecidableEq, Repr

/-- The statement that the owner is about to execute: in `startLoop`, between its calls, in `quit`,
or in the destructor, with the `quit` that it calls. -/
inductive OwnerPlace
  | start
  | waitLoop
  | returnLoop
  | idle
  | storeQuit
  | wakeup
  /-- `exiting_ = true;` -/
  | setExiting
  /-- `if (loop_ != nullptr)` -/
  | testLoop
  /-- The pointer is read again, for `loop_->quit()`. -/
  | readLoop
  | storeQuitOfDestructor
  | wakeupOfDestructor
  | join
  | destroyMembers
  | destroyed
  deriving DecidableEq, Repr

/-- An `EventLoopThread` and its two threads.  `loop_` says whether the pointer is set, and
`returned` whether the one that `startLoop` has returned is; `eventLoop` is the object it points to,
while that exists.  `iterations` counts the iterations of `loop()`, and `quitAt` holds their number
when `quit_` was first stored by a call of `quit`. -/
structure EventLoopThread (φ : Type) where
  loop_ : Bool
  exiting : Bool
  returned : Bool
  eventLoop : Option (EventLoop φ)
  place : ThreadPlace
  owner : OwnerPlace
  iterations : Nat
  quitAt : Option Nat

/-- One statement of the new thread or of the owner, or what they do between the calls modelled here:
the owner calls `quit` or the destructor, or an event handler or a functor of the loop calls
`quit`. -/
inductive ThreadStep
  | thread
  | owner
  | callQuit
  | callDestructor
  | quitInLoop
  deriving DecidableEq, Repr

namespace EventLoopThread

variable {φ : Type}

/-- `EventLoopThread::EventLoopThread` -/
def new : EventLoopThread φ where
  loop_ := false
  exiting := false
  returned := false
  eventLoop := none
  place := .notStarted
  owner := .start
  iterations := 0
  quitAt := none

/-- A statement that uses a member of the `EventLoopThread`. -/
def onMembers (s t : EventLoopThread φ) : Except Fault (EventLoopThread φ) :=
  if s.owner = .destroyed then .error .danglingPointer else .ok t

/-- The new thread holds the mutex. -/
def holdsMutex (p : ThreadPlace) : Bool :=
  p == .setLoop || p == .notify || p == .unlockSet || p == .clearLoop || p == .unlockCleared

/-- The next statement of the new thread.  A poll returns, if for nothing else because its time is
up, and the wake-up channel is handled if its counter is positive. -/
def thread (s : EventLoopThread φ) : Except Fault (EventLoopThread φ) :=
  match s.place with
  | .notStarted => .ok s
  | .construct => .ok { s with eventLoop := some .new, place := .callback }
  | .callback => s.onMembers { s with place := .lockToSet }
  | .lockToSet => s.onMembers { s with place := .setLoop }
  | .setLoop => s.onMembers { s with loop_ := true, place := .notify }
  | .notify => s.onMembers { s with place := .unlockSet }
  | .unlockSet => s.onMembers { s with place := .setLooping }
  | .setLooping => do
    check .loop (!s.eventLoop.any (·.looping))
    return { s with
      eventLoop := s.eventLoop.map fun l => { l with looping := true }
      place := .clearQuit }
  | .clearQuit =>
    .ok { s with
      eventLoop := s.eventLoop.map fun l => { l with quit := false }
      place := .testQuit }
  | .testQuit =>
    if s.eventLoop.any (·.quit) then .ok { s with place := .clearLooping }
    else .ok { s with place := .poll, iterations := s.iterations + 1 }
  | .poll => .ok { s with place := .handleEvents }
  | .handleEvents =>
    .ok { s with
      eventLoop := s.eventLoop.map fun l => { l with wakeups := 0 }
      place := .doPendingFunctors }
  | .doPendingFunctors => .ok { s with place := .testQuit }
  | .clearLooping =>
    .ok { s with
      eventLoop := s.eventLoop.map fun l => { l with looping := false }
      place := .lockToClear }
  | .lockToClear => s.onMembers { s with place := .clearLoop }
  | .clearLoop => s.onMembers { s with loop_ := false, place := .unlockCleared }
  | .unlockCleared => s.onMembers { s with place := .destroyLoop }
  | .destroyLoop => .ok { s with eventLoop := none, place := .finished }
  | .finished => .ok s

/-- `quit_.store(true);` in a call of `quit`. -/
def storeQuit (s : EventLoopThread φ) : EventLoopThread φ :=
  { s with
    eventLoop := s.eventLoop.map fun l => { l with quit := true }
    quitAt := some (s.quitAt.getD s.iterations) }

/-- A statement of `quit` on the object that `loop_` pointed to. -/
def onEventLoop (s t : EventLoopThread φ) : Except Fault (EventLoopThread φ) :=
  if s.eventLoop.isSome then .ok t else .error .danglingPointer

def wakeupLoop (s : EventLoopThread φ) : EventLoopThread φ :=
  { s with eventLoop := s.eventLoop.map .wakeup }

/-- The next statement of the owner, which waits in `startLoop` and in `join`. -/
def ownerStep (s : EventLoopThread φ) : Except Fault (EventLoopThread φ) :=
  match s.owner with
  | .start => .ok { s with place := .construct, owner := .waitLoop }
  | .waitLoop =>
    .ok (if s.loop_ && !holdsMutex s.place then { s with owner := .returnLoop } else s)
  | .returnLoop => .ok { s with returned := s.loop_, owner := .idle }
  | .idle => .ok s
  | .storeQuit =>
    if s.returned then s.onEventLoop { s.storeQuit with owner := .wakeup }
    else .error .nullPointer
  | .wakeup => s.onEventLoop { s.wakeupLoop with owner := .idle }
  | .setExiting => .ok { s with exiting := true, owner := .testLoop }
  | .testLoop => .ok { s with owner := if s.loop_ then .readLoop else .destroyMembers }
  | .readLoop =>
    if s.loop_ then .ok { s with owner := .storeQuitOfDestructor } else .error .nullPointer
  | .storeQuitOfDestructor => s.onEventLoop { s.storeQuit with owner := .wakeupOfDestructor }
  | .wakeupOfDestructor => s.onEventLoop { s.wakeupLoop with owner := .join }
  | .join => .ok (if s.place = .finished then { s with owner := .destroyMembers } else s)
  | .destroyMembers => .ok { s with owner := .destroyed }
  | .destroyed => .ok s

/-- The owner has called `startLoop`, and it has returned. -/
def hasReturned (p : OwnerPlace) : Bool := p != .start && p != .waitLoop && p != .returnLoop

def step (s : EventLoopThread φ) : ThreadStep → Except Fault (EventLoopThread φ)
  | .thread => s.thread
  | .owner => s.ownerStep
  | .callQuit => .ok (if s.owner = .idle then { s with owner := .storeQuit } else s)
  | .callDestructor =>
    .ok (if s.owner = .idle ∨ s.owner = .start then { s with owner := .setExiting } else s)
  | .quitInLoop =>
    .ok (if (s.place = .handleEvents ∨ s.place = .doPendingFunctors) ∧ hasReturned s.owner then
      s.storeQuit else s)

/-! ### Where the two threads can be -/

/-- The new thread has left `loop()`. -/
def leaving : ThreadPlace → Bool
  | .clearLooping | .lockToClear | .clearLoop | .unlockCleared | .destroyLoop | .finished => true
  | _ => false

/-- `loop_` has been cleared. -/
def cleared : ThreadPlace → Bool
  | .unlockCleared | .destroyLoop | .finished => true
  | _ => false

/-- `loop()` has not been entered, and its loop exists. -/
def beforeLoop : ThreadPlace → Bool
  | .callback | .lockToSet | .setLoop | .notify | .unlockSet | .setLooping => true
  | _ => false

/-- `loop_` has been set, and `quit_` has not been cleared. -/
def inWindow : ThreadPlace → Bool
  | .notify | .unlockSet | .setLooping | .clearQuit => true
  | _ => false

/-- `loop_` has been set. -/
def published : ThreadPlace → Bool
  | .notStarted | .construct | .callback | .lockToSet | .setLoop => false
  | _ => true

/-- The `EventLoop` exists. -/
def hasEventLoop : ThreadPlace → Bool
  | .notStarted | .construct | .finished => false
  | _ => true

/-- The two threads can be at these statements at the same time. -/
def meets : OwnerPlace → ThreadPlace → Bool
  | .start, p => p == .notStarted
  | .waitLoop, p => p != .notStarted && !leaving p
  | .returnLoop, p => published p && !leaving p
  | .setExiting, p | .testLoop, p => published p || p == .notStarted
  | .destroyMembers, p | .destroyed, p => cleared p || p == .notStarted
  | _, p => published p

/-- What the places say about the rest of the state. -/
structure Placed (s : EventLoopThread φ) : Prop where
  places : meets s.owner s.place = true
  pointer : s.loop_ = (published s.place && !cleared s.place)
  object : s.eventLoop.isSome = hasEventLoop s.place
  looping : beforeLoop s.place = true → s.eventLoop.any (·.looping) = false
  returned : s.owner = .storeQuit ∨ s.owner = .wakeup ∨ s.owner = .idle → s.returned = true
  early : hasReturned s.owner = false → s.quitAt = none
  quiet : s.quitAt = none → s.eventLoop.any (·.quit) = false ∧ leaving s.place = false

theorem placed_new : (new : EventLoopThread φ).Placed where
  places := rfl
  pointer := rfl
  object := rfl
  looping _ := rfl
  returned := by simp [new]
  early _ := rfl
  quiet _ := ⟨rfl, rfl⟩


/-! ### One statement of the new thread -/

/-- The statement after `p`, where `quit` is what the test of `quit_` reads. -/
def next (quit : Bool) : ThreadPlace → ThreadPlace
  | .notStarted => .notStarted
  | .construct => .callback
  | .callback => .lockToSet
  | .lockToSet => .setLoop
  | .setLoop => .notify
  | .notify => .unlockSet
  | .unlockSet => .setLooping
  | .setLooping => .clearQuit
  | .clearQuit => .testQuit
  | .testQuit => if quit then .clearLooping else .poll
  | .poll => .handleEvents
  | .handleEvents => .doPendingFunctors
  | .doPendingFunctors => .testQuit
  | .clearLooping => .lockToClear
  | .lockToClear => .clearLoop
  | .clearLoop => .unlockCleared
  | .unlockCleared => .destroyLoop
  | .destroyLoop => .finished
  | .finished => .finished

/-- What the statement `p` does to `loop_`. -/
def pointerAfter (pointer : Bool) : ThreadPlace → Bool
  | .setLoop => true
  | .clearLoop => false
  | _ => pointer

/-- What the statement `p` does to the `EventLoop`. -/
def eventLoopAfter (l : Option (EventLoop φ)) : ThreadPlace → Option (EventLoop φ)
  | .construct => some .new
  | .setLooping => l.map fun l => { l with looping := true }
  | .clearQuit => l.map fun l => { l with quit := false }
  | .handleEvents => l.map fun l => { l with wakeups := 0 }
  | .clearLooping => l.map fun l => { l with looping := false }
  | .destroyLoop => none
  | _ => l

/-- `quit_`, as the new thread reads it. -/
def quits (s : EventLoopThread φ) : Bool := s.eventLoop.any (·.quit)

def iterationsAfter (quit : Bool) (n : Nat) : ThreadPlace → Nat
  | .testQuit => if quit then n else n + 1
  | _ => n

/-- The state after a statement of the new thread that has no fault. -/
def threadNext (s : EventLoopThread φ) : EventLoopThread φ :=
  { s with
    loop_ := pointerAfter s.loop_ s.place
    eventLoop := eventLoopAfter s.eventLoop s.place
    place := next s.quits s.place
    iterations := iterationsAfter s.quits s.iterations s.place }

theorem onMembers_eq {s t u : EventLoopThread φ} (h : s.onMembers t = .ok u) : u = t := by
  unfold onMembers at h
  split at h
  · cases h
  · exact (Except.ok.inj h).symm

theorem onEventLoop_eq {s t u : EventLoopThread φ} (h : s.onEventLoop t = .ok u) : u = t := by
  unfold onEventLoop at h
  split at h
  · exact (Except.ok.inj h).symm
  · cases h

theorem thread_eq {s t : EventLoopThread φ} (h : s.thread = .ok t) : t = s.threadNext := by
  unfold thread at h
  unfold threadNext
  cases hp : s.place <;> simp only [hp] at h
  case testQuit =>
    split at h <;> rename_i hquit <;> cases h <;>
      simp [pointerAfter, eventLoopAfter, next, iterationsAfter, quits, hquit]
  case setLooping =>
    obtain ⟨u, -, h⟩ := bind_eq_ok.mp h
    exact (Except.ok.inj h).symm
  case callback | lockToSet | setLoop | notify | unlockSet | lockToClear | clearLoop
      | unlockCleared => exact onMembers_eq h
  case notStarted | finished =>
    cases h
    cases s
    cases hp
    rfl
  all_goals exact (Except.ok.inj h).symm

theorem thread_returns {s : EventLoopThread φ} (hs : s.Placed) (howner : s.owner ≠ .destroyed) :
    s.thread = .ok s.threadNext := by
  have hreturns : ∃ t, s.thread = .ok t := by
    unfold thread
    cases hp : s.place with
    | testQuit => dsimp only; split <;> exact ⟨_, rfl⟩
    | setLooping =>
      have hlooping := hs.looping (by rw [hp]; rfl)
      exact ⟨_, by rw [hlooping]; rfl⟩
    | callback | lockToSet | setLoop | notify | unlockSet | lockToClear | clearLoop
        | unlockCleared => exact ⟨_, if_neg howner⟩
    | _ => exact ⟨_, rfl⟩
  obtain ⟨t, ht⟩ := hreturns
  rw [ht, thread_eq ht]

theorem eventLoopAfter_isSome {l : Option (EventLoop φ)} {p : ThreadPlace} (quit : Bool)
    (h : l.isSome = hasEventLoop p) :
    (eventLoopAfter l p).isSome = hasEventLoop (next quit p) := by
  cases p <;> cases quit <;> simp_all [eventLoopAfter, next, hasEventLoop]

theorem eventLoopAfter_looping {l : Option (EventLoop φ)} {p : ThreadPlace} {quit : Bool}
    (h : beforeLoop p = true → l.any (·.looping) = false)
    (hnext : beforeLoop (next quit p) = true) :
    (eventLoopAfter l p).any (·.looping) = false := by
  cases p <;> cases quit <;> simp_all [eventLoopAfter, next, beforeLoop, EventLoop.new]

theorem eventLoopAfter_quit {l : Option (EventLoop φ)} {p : ThreadPlace}
    (h : l.any (·.quit) = false) : (eventLoopAfter l p).any (·.quit) = false := by
  cases p <;> cases l <;> simp_all [eventLoopAfter, EventLoop.new]

theorem published_next {p : ThreadPlace} (quit : Bool) (h : published p = true) :
    published (next quit p) = true := by
  cases p <;> cases quit <;> first | rfl | exact h

theorem cleared_next {p : ThreadPlace} (quit : Bool) (h : cleared p = true) :
    cleared (next quit p) = true := by
  cases p <;> first | rfl | cases h

theorem leaving_next {p : ThreadPlace} (h : leaving p = false) : leaving (next false p) = false := by
  cases p <;> first | rfl | exact h

theorem next_ne_notStarted {p : ThreadPlace} {quit : Bool} (h : p ≠ .notStarted) :
    next quit p ≠ .notStarted := by
  cases p <;> cases quit <;> simp_all [next]

theorem meets_next {o : OwnerPlace} {p : ThreadPlace} {quit : Bool} (h : meets o p = true)
    (hquit : hasReturned o = false → quit = false) : meets o (next quit p) = true := by
  cases o with
  | start =>
    have hp : p = .notStarted := by simpa [meets] using h
    rw [hp]
    rfl
  | waitLoop =>
    cases hquit rfl
    have hp : p ≠ .notStarted ∧ leaving p = false := by simpa [meets] using h
    simp [meets, next_ne_notStarted hp.1, leaving_next hp.2]
  | returnLoop =>
    cases hquit rfl
    have hp : published p = true ∧ leaving p = false := by simpa [meets] using h
    simp [meets, published_next false hp.1, leaving_next hp.2]
  | setExiting | testLoop =>
    have hp : published p = true ∨ p = .notStarted := by simpa [meets] using h
    obtain hp | rfl := hp
    · simp [meets, published_next quit hp]
    · rfl
  | destroyMembers | destroyed =>
    have hp : cleared p = true ∨ p = .notStarted := by simpa [meets] using h
    obtain hp | rfl := hp
    · simp [meets, cleared_next quit hp]
    · rfl
  | _ => exact published_next quit h

theorem pointerAfter_eq (p : ThreadPlace) (quit : Bool) :
    pointerAfter (published p && !cleared p) p =
      (published (next quit p) && !cleared (next quit p)) := by
  cases p <;> cases quit <;> rfl

theorem Placed.thread {s t : EventLoopThread φ} (hs : s.Placed) (h : s.thread = .ok t) :
    t.Placed := by
  cases thread_eq h
  refine
    { places := meets_next hs.places ?_
      pointer := ?_
      object := eventLoopAfter_isSome _ hs.object
      looping := eventLoopAfter_looping hs.looping
      returned := hs.returned
      early := hs.early
      quiet := ?_ }
  · intro howner
    exact (hs.quiet (hs.early howner)).1
  · exact (congrArg (pointerAfter · s.place) hs.pointer).trans (pointerAfter_eq s.place s.quits)
  · intro hquit
    obtain ⟨hquits, hleaving⟩ := hs.quiet hquit
    refine ⟨eventLoopAfter_quit hquits, ?_⟩
    exact (congrArg (leaving <| next · s.place) hquits).trans (leaving_next hleaving)

/-! ### One statement of the owner -/

theorem cleared_of_not_leaving {p : ThreadPlace} (h : leaving p = false) : cleared p = false := by
  cases p <;> first | rfl | cases h

theorem Placed.hasPublished {s : EventLoopThread φ} (hs : s.Placed) (h : s.loop_ = true) :
    published s.place = true :=
  (Bool.and_eq_true_iff.mp (hs.pointer.symm.trans h)).1

theorem Placed.setOwner {s : EventLoopThread φ} (hs : s.Placed) {o : OwnerPlace}
    (hplaces : meets o s.place = true)
    (hreturned : o = .storeQuit ∨ o = .wakeup ∨ o = .idle → s.returned = true)
    (hearly : hasReturned o = false → s.quitAt = none) : { s with owner := o }.Placed :=
  { hs with places := hplaces, returned := hreturned, early := hearly }

theorem Placed.storeQuit {s : EventLoopThread φ} (hs : s.Placed)
    (howner : hasReturned s.owner = true) : s.storeQuit.Placed where
  places := hs.places
  pointer := hs.pointer
  object := (Option.isSome_map ..).trans hs.object
  looping hbefore := (Option.any_map ..).trans (hs.looping hbefore)
  returned := hs.returned
  early hearly := absurd (howner.symm.trans hearly) (by simp)
  quiet hquiet := by simp [EventLoopThread.storeQuit] at hquiet

theorem Placed.wakeupLoop {s : EventLoopThread φ} (hs : s.Placed) : s.wakeupLoop.Placed where
  places := hs.places
  pointer := hs.pointer
  object := (Option.isSome_map ..).trans hs.object
  looping hbefore := (Option.any_map ..).trans (hs.looping hbefore)
  returned := hs.returned
  early := hs.early
  quiet hquiet := ⟨(Option.any_map ..).trans (hs.quiet hquiet).1, (hs.quiet hquiet).2⟩

/-- The owner can get from one statement to the other. -/
def follows : OwnerPlace → OwnerPlace → Bool
  | .start, o => o == .waitLoop
  | .waitLoop, o => o == .waitLoop || o == .returnLoop
  | .returnLoop, o => o == .idle
  | .idle, o => o == .idle
  | .storeQuit, o => o == .wakeup
  | .wakeup, o => o == .idle
  | .setExiting, o => o == .testLoop
  | .testLoop, o => o == .readLoop || o == .destroyMembers
  | .readLoop, o => o == .storeQuitOfDestructor
  | .storeQuitOfDestructor, o => o == .wakeupOfDestructor
  | .wakeupOfDestructor, o => o == .join
  | .join, o => o == .join || o == .destroyMembers
  | .destroyMembers, o => o == .destroyed
  | .destroyed, o => o == .destroyed

/-- What the owner does to anything but its own place and members. -/
theorem owner_cases {s t : EventLoopThread φ} (h : s.ownerStep = .ok t) :
    follows s.owner t.owner = true ∧
      (s.owner = .start ∧ t = { s with place := .construct, owner := t.owner } ∨
        (s.owner = .storeQuit ∨ s.owner = .storeQuitOfDestructor) ∧
          t = { s.storeQuit with owner := t.owner } ∨
        (s.owner = .wakeup ∨ s.owner = .wakeupOfDestructor) ∧
          t = { s.wakeupLoop with owner := t.owner } ∨
        t = { s with owner := t.owner, exiting := t.exiting, returned := t.returned }) := by
  unfold ownerStep at h
  cases ho : s.owner <;> simp only [ho] at h
  case start =>
    cases h
    exact ⟨rfl, .inl ⟨rfl, rfl⟩⟩
  case storeQuit =>
    split at h
    case isTrue =>
      cases onEventLoop_eq h
      exact ⟨rfl, .inr (.inl ⟨.inl rfl, rfl⟩)⟩
    case isFalse => cases h
  case storeQuitOfDestructor =>
    cases onEventLoop_eq h
    exact ⟨rfl, .inr (.inl ⟨.inr rfl, rfl⟩)⟩
  case wakeup =>
    cases onEventLoop_eq h
    exact ⟨rfl, .inr (.inr (.inl ⟨.inl rfl, rfl⟩))⟩
  case wakeupOfDestructor =>
    cases onEventLoop_eq h
    exact ⟨rfl, .inr (.inr (.inl ⟨.inr rfl, rfl⟩))⟩
  case readLoop =>
    split at h <;> cases h
    exact ⟨rfl, .inr (.inr (.inr rfl))⟩
  case waitLoop | testLoop | join =>
    cases h
    cases s
    cases ho
    split <;> exact ⟨rfl, .inr (.inr (.inr rfl))⟩
  all_goals
    cases h
    cases s
    cases ho
    exact ⟨rfl, .inr (.inr (.inr rfl))⟩

theorem Placed.owner {s t : EventLoopThread φ} (hs : s.Placed) (h : s.ownerStep = .ok t) :
    t.Placed := by
  have hplaces := hs.places
  unfold ownerStep at h
  cases ho : s.owner <;> simp only [ho] at h hplaces
  case start =>
    cases h
    have hp : s.place = .notStarted := by simpa [meets] using hplaces
    have hquiet := hs.early (by rw [ho]; rfl)
    have hobject : s.eventLoop = none := by simpa [hp, hasEventLoop] using hs.object
    refine
      { places := rfl
        pointer := by rw [hs.pointer, hp]; rfl
        object := by rw [hobject]; rfl
        looping := by simp [beforeLoop]
        returned := by simp
        early _ := hquiet
        quiet _ := ⟨(hs.quiet hquiet).1, rfl⟩ }
  case waitLoop =>
    cases h
    split
    case isTrue hloop =>
      have hpublished := hs.hasPublished (Bool.and_eq_true_iff.mp hloop).1
      have hleaving : leaving s.place = false := by
        simpa using (Bool.and_eq_true_iff.mp hplaces).2
      have hquiet := hs.early (by rw [ho]; rfl)
      exact hs.setOwner (by simp [meets, hpublished, hleaving]) (by simp) (fun _ => hquiet)
    case isFalse => exact hs
  case returnLoop =>
    cases h
    obtain ⟨hpublished, hleaving⟩ := Bool.and_eq_true_iff.mp hplaces
    have hpointer : s.loop_ = true := by
      rw [hs.pointer, hpublished, cleared_of_not_leaving (by simpa using hleaving)]
      rfl
    exact
      { hs with
        places := hpublished
        returned _ := hpointer
        early := by simp [hasReturned] }
  case idle | destroyed => exact Except.ok.inj h ▸ hs
  case storeQuit =>
    split at h
    case isTrue hreturned =>
      cases onEventLoop_eq h
      exact (hs.storeQuit (by rw [ho]; rfl)).setOwner hplaces (fun _ => hreturned)
        (by simp [hasReturned])
    case isFalse => cases h
  case wakeup =>
    cases onEventLoop_eq h
    have hreturned := hs.returned (by simp [ho])
    exact hs.wakeupLoop.setOwner hplaces (fun _ => hreturned) (by simp [hasReturned])
  case setExiting =>
    cases h
    exact
      { hs with
        places := hplaces
        returned := by simp
        early := by simp [hasReturned] }
  case testLoop =>
    cases h
    split
    case isTrue hloop => exact hs.setOwner (hs.hasPublished hloop) (by simp) (by simp [hasReturned])
    case isFalse hloop =>
      have hpointer : (published s.place && !cleared s.place) = false :=
        hs.pointer.symm.trans (by simpa using hloop)
      have hcleared : meets .destroyMembers s.place = true := by
        obtain hpublished | hp := Bool.or_eq_true_iff.mp hplaces
        · rw [hpublished] at hpointer
          have hcleared : cleared s.place = true := by simpa using hpointer
          exact Bool.or_eq_true_iff.mpr (.inl hcleared)
        · exact Bool.or_eq_true_iff.mpr (.inr hp)
      exact hs.setOwner hcleared (by simp) (by simp [hasReturned])
  case readLoop =>
    split at h
    case isTrue => 
      cases h
      exact hs.setOwner hplaces (by simp) (by simp [hasReturned])
    case isFalse => cases h
  case storeQuitOfDestructor =>
    cases onEventLoop_eq h
    exact (hs.storeQuit (by rw [ho]; rfl)).setOwner hplaces (by simp) (by simp [hasReturned])
  case wakeupOfDestructor =>
    cases onEventLoop_eq h
    exact hs.wakeupLoop.setOwner hplaces (by simp) (by simp [hasReturned])
  case join =>
    cases h
    split
    case isTrue hp =>
      exact hs.setOwner (by rw [hp]; rfl) (by simp) (by simp [hasReturned])
    case isFalse => exact hs
  case destroyMembers =>
    cases h
    exact hs.setOwner hplaces (by simp) (by simp [hasReturned])

theorem Placed.step {s t : EventLoopThread φ} {a : ThreadStep} (hs : s.Placed)
    (h : step s a = .ok t) : t.Placed := by
  cases a with
  | thread => exact hs.thread h
  | owner => exact hs.owner h
  | callQuit =>
    cases h
    split
    case isTrue ho =>
      have hplaces := hs.places
      rw [ho] at hplaces
      have hreturned := hs.returned (.inr (.inr ho))
      exact hs.setOwner hplaces (fun _ => hreturned) (by simp [hasReturned])
    case isFalse => exact hs
  | callDestructor =>
    cases h
    have hplaces := hs.places
    split
    case isTrue ho =>
      refine hs.setOwner ?_ (by simp) (by simp [hasReturned])
      obtain ho | ho := ho
      · rw [ho] at hplaces
        exact Bool.or_eq_true_iff.mpr (.inl hplaces)
      · rw [ho] at hplaces
        exact Bool.or_eq_true_iff.mpr (.inr hplaces)
    case isFalse => exact hs
  | quitInLoop =>
    cases h
    split
    case isTrue hquit => exact hs.storeQuit hquit.2
    case isFalse => exact hs

end EventLoopThread

end Mymuduo
