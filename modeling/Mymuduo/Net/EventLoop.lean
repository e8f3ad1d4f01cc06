import Mymuduo.Net.EPollPoller

/-! The event loop: its flags, the functors queued in it, and the calls by which a channel reaches
the poller.  Every function here but `queueInLoop` runs on the loop's own thread. -/

namespace Mymuduo

open Lib

/-- The fields of an `EventLoop`.  `wakeups` is the counter of the eventfd. -/
structure EventLoop (φ : Type) where
  looping : Bool
  quit : Bool
  eventHandling : Bool
  callingPendingFunctors : Bool
  poller : EPollPoller
  wakeups : Nat
  activeChannels : List Nat
  pendingFunctors : List φ

namespace EventLoop

variable {φ : Type}

/-- `EventLoop::EventLoop`, without the timer and wake-up channels. -/
def new : EventLoop φ where
  looping := false
  quit := false
  eventHandling := false
  callingPendingFunctors := false
  poller := .new
  wakeups := 0
  activeChannels := []
  pendingFunctors := []

def wakeup (l : EventLoop φ) : EventLoop φ := { l with wakeups := l.wakeups + 1 }

def queueInLoop (l : EventLoop φ) (isInLoopThread : Bool) (cb : φ) : EventLoop φ :=
  let l := { l with pendingFunctors := l.pendingFunctors ++ [cb] }
  if !isInLoopThread || l.callingPendingFunctors then l.wakeup else l

def updateChannel (l : EventLoop φ) (c : Channel) : Except Fault (Channel × EventLoop φ) := do
  let (p, c) ← l.poller.updateChannel c
  return (c, { l with poller := p })

def removeChannel (l : EventLoop φ) (c : Channel) : Except Fault (Channel × EventLoop φ) := do
  if l.eventHandling then
    check .loopRemoveChannel (!l.activeChannels.contains c.ptr)
  let (p, c) ← l.poller.removeChannel c
  return (c, { l with poller := p })

section

variable (l : EventLoop φ) (isInLoopThread : Bool) (cb : φ)

@[simp] theorem queueInLoop_poller : (l.queueInLoop isInLoopThread cb).poller = l.poller := by
  dsimp only [queueInLoop, wakeup]
  split <;> rfl

@[simp] theorem queueInLoop_pendingFunctors :
    (l.queueInLoop isInLoopThread cb).pendingFunctors = l.pendingFunctors ++ [cb] := by
  dsimp only [queueInLoop, wakeup]
  split <;> rfl

@[simp] theorem queueInLoop_eventHandling :
    (l.queueInLoop isInLoopThread cb).eventHandling = l.eventHandling := by
  dsimp only [queueInLoop, wakeup]
  split <;> rfl

@[simp] theorem queueInLoop_activeChannels :
    (l.queueInLoop isInLoopThread cb).activeChannels = l.activeChannels := by
  dsimp only [queueInLoop, wakeup]
  split <;> rfl

end

theorem updateChannel_frame {l l' : EventLoop φ} {c c' : Channel}
    (h : l.updateChannel c = .ok (c', l')) :
    l' = { l with poller := l'.poller } ∧ c' = { c with index := c'.index } := by
  obtain ⟨⟨p, d⟩, hp, h⟩ := bind_eq_ok.mp h
  cases h
  exact ⟨rfl, EPollPoller.updateChannel_frame hp⟩

theorem removeChannel_frame {l l' : EventLoop φ} {c c' : Channel}
    (h : l.removeChannel c = .ok (c', l')) : l' = { l with poller := l'.poller } := by
  unfold removeChannel at h
  split at h
  · obtain ⟨u, -, h⟩ := bind_eq_ok.mp h
    obtain ⟨⟨p, d⟩, -, h⟩ := bind_eq_ok.mp h
    cases h
    rfl
  · obtain ⟨⟨p, d⟩, -, h⟩ := bind_eq_ok.mp h
    cases h
    rfl

theorem removeChannel_poller {l l' : EventLoop φ} {c c' : Channel}
    (h : l.removeChannel c = .ok (c', l')) : l.poller.removeChannel c = .ok (l'.poller, c') := by
  unfold removeChannel at h
  split at h
  · obtain ⟨u, -, h⟩ := bind_eq_ok.mp h
    obtain ⟨⟨p, d⟩, hp, h⟩ := bind_eq_ok.mp h
    cases h
    exact hp
  · obtain ⟨⟨p, d⟩, hp, h⟩ := bind_eq_ok.mp h
    cases h
    exact hp

/-- While events are handled, no active channel can be removed. -/
theorem removeChannel_active {l : EventLoop φ} {c : Channel} (hhandling : l.eventHandling = true)
    (hactive : c.ptr ∈ l.activeChannels) :
    l.removeChannel c = .error (.assertion .loopRemoveChannel) := by
  have hcontains : l.activeChannels.contains c.ptr = true := List.contains_iff_mem.mpr hactive
  rw [removeChannel, if_pos hhandling, hcontains]
  rfl

end EventLoop

namespace Channel

variable {φ : Type}

def update (c : Channel) (l : EventLoop φ) : Except Fault (Channel × EventLoop φ) :=
  l.updateChannel { c with addedToLoop := true }

def enableReading (c : Channel) (l : EventLoop φ) : Except Fault (Channel × EventLoop φ) :=
  update { c with events := c.events ||| kReadEvent } l

def disableReading (c : Channel) (l : EventLoop φ) : Except Fault (Channel × EventLoop φ) :=
  update { c with events := c.events &&& ~~~kReadEvent } l

def enableWriting (c : Channel) (l : EventLoop φ) : Except Fault (Channel × EventLoop φ) :=
  update { c with events := c.events ||| kWriteEvent } l

def disableWriting (c : Channel) (l : EventLoop φ) : Except Fault (Channel × EventLoop φ) :=
  update { c with events := c.events &&& ~~~kWriteEvent } l

def disableAll (c : Channel) (l : EventLoop φ) : Except Fault (Channel × EventLoop φ) :=
  update { c with events := c.events &&& kNoneEvent } l

def remove (c : Channel) (l : EventLoop φ) : Except Fault (Channel × EventLoop φ) := do
  check .channelRemove c.isNoneEvent
  let (c, l) ← l.removeChannel c
  return ({ c with addedToLoop := false }, l)

/-- `Channel::~Channel`, on the loop's thread. -/
def destroy (c : Channel) (l : EventLoop φ) : Except Fault Unit := do
  check .destroyedAddedToLoop (!c.addedToLoop)
  check .destroyedEventHandling (!c.eventHandling)
  check .destroyedKnown (!l.poller.hasChannel c)

/-- A change of interest touches no field of the channel but its interest, its index and
`addedToLoop_`, and nothing of the loop but the poller. -/
structure Updated (c : Channel) (l : EventLoop φ) (events : Events) (c' : Channel)
    (l' : EventLoop φ) : Prop where
  events_eq : c'.events = events
  ptr_eq : c'.ptr = c.ptr
  fd_eq : c'.fd = c.fd
  loop_eq : l' = { l with poller := l'.poller }
  tracks : l'.poller.Tracks c'

theorem update_spec {c : Channel} {l : EventLoop φ} (h : l.poller.Tracks c) (events : Events) :
    ∃ c' l', update { c with events := events } l = .ok (c', l') ∧ Updated c l events c' l' := by
  have h' : l.poller.Tracks { c with addedToLoop := true } := h
  obtain ⟨q, index, hq, htracks, -, -⟩ := EPollPoller.updateChannel_spec h' events
  refine ⟨{ c with addedToLoop := true, events := events, index := index },
    { l with poller := q }, ?_, ⟨rfl, rfl, rfl, rfl, htracks⟩⟩
  unfold update EventLoop.updateChannel
  rw [hq]
  rfl

theorem update_frame {c c' : Channel} {l l' : EventLoop φ} (h : update c l = .ok (c', l')) :
    c' = { c with addedToLoop := true, index := c'.index } ∧ c'.index ≠ .kNew := by
  obtain ⟨⟨p, d⟩, hp, h⟩ := bind_eq_ok.mp h
  cases h
  exact ⟨EPollPoller.updateChannel_frame hp, EPollPoller.updateChannel_known hp⟩

theorem update_sameBut {c c' : Channel} {l l' : EventLoop φ} (h : update c l = .ok (c', l')) :
    EPollPoller.SameBut c.fd l.poller l'.poller := by
  obtain ⟨⟨p, d⟩, hp, h⟩ := bind_eq_ok.mp h
  cases h
  exact EPollPoller.updateChannel_sameBut (c := { c with addedToLoop := true }) hp

/-- The channel and the loop after a change of interest. -/
theorem update_exact {c : Channel} {l : EventLoop φ} (h : l.poller.Tracks c) (events : Events) :
    ∃ q : EPollPoller, ∃ index : Index,
      update { c with events := events } l =
        .ok ({ c with events := events, addedToLoop := true, index := index },
          { l with poller := q }) ∧
      index = (if c.index = .kAdded ∧ events = kNoneEvent then .kDeleted else .kAdded) ∧
      q.Tracks { c with events := events, index := index } ∧
      EPollPoller.SameBut c.fd l.poller q := by
  have h' : l.poller.Tracks { c with addedToLoop := true } := h
  obtain ⟨q, index, hq, htracks, hsame, -⟩ := EPollPoller.updateChannel_spec h' events
  refine ⟨q, index, ?_, EPollPoller.updateChannel_index hq, htracks, hsame⟩
  unfold update EventLoop.updateChannel
  rw [hq]
  rfl

/-- A registered channel without interest that is not being handled is removed. -/
theorem remove_spec {c : Channel} {l : EventLoop φ} (h : l.poller.Tracks c)
    (hnone : c.events = kNoneEvent) (hknown : c.index ≠ .kNew)
    (hinactive : l.eventHandling = true → c.ptr ∉ l.activeChannels) :
    ∃ q, remove c l =
        .ok ({ c with index := .kNew, addedToLoop := false }, { l with poller := q }) ∧
      q.Tracks { c with index := .kNew, addedToLoop := false } := by
  obtain ⟨q, hq, htracks, -⟩ := EPollPoller.removeChannel_spec h hnone hknown
  refine ⟨q, ?_, htracks⟩
  have hnone' : c.isNoneEvent = true := by simp [isNoneEvent, hnone]
  rw [remove, hnone', check_true, ok_bind, EventLoop.removeChannel, hq]
  by_cases hhandling : l.eventHandling = true
  · have hcontains : l.activeChannels.contains c.ptr = false := by
      simpa using hinactive hhandling
    rw [if_pos hhandling, hcontains]
    rfl
  · rw [if_neg hhandling]
    rfl

theorem remove_sameBut {c c' : Channel} {l l' : EventLoop φ} (h : remove c l = .ok (c', l')) :
    EPollPoller.SameBut c.fd l.poller l'.poller := by
  obtain ⟨u, -, h⟩ := bind_eq_ok.mp h
  obtain ⟨⟨d, m⟩, hm, h⟩ := bind_eq_ok.mp h
  cases h
  exact EPollPoller.removeChannel_sameBut (EventLoop.removeChannel_poller hm)

end Channel

end Mymuduo
