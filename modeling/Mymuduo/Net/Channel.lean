import Mymuduo.Base.Fault
import Mymuduo.Lib.Run

/-! Channels: the interest in one descriptor, and the dispatch of the events that the poller
reports for it. -/

namespace Mymuduo

open Lib

/-- The bits of an event mask, as `poll(2)` and `epoll(7)` define them. -/
abbrev Events := BitVec 32

def POLLIN : Events := 0x1
def POLLPRI : Events := 0x2
def POLLOUT : Events := 0x4
def POLLERR : Events := 0x8
def POLLHUP : Events := 0x10
def POLLNVAL : Events := 0x20
def POLLRDHUP : Events := 0x2000

/-- Some bit of `mask` is set in `events`. -/
def Events.has (events mask : Events) : Bool := events &&& mask != 0

/-- `Channel::index_`: what the poller knows of a channel. -/
inductive Index
  | kNew
  | kAdded
  | kDeleted
  deriving DecidableEq, Repr

/-- A `Channel`.  `ptr` is its address, which is what the poller stores; its loop is the one whose
functions it is passed to. -/
structure Channel where
  ptr : Nat
  fd : Nat
  events : Events
  revents : Events
  index : Index
  addedToLoop : Bool
  eventHandling : Bool
  tied : Bool
  deriving DecidableEq, Repr

namespace Channel

def kNoneEvent : Events := 0
def kReadEvent : Events := POLLIN ||| POLLPRI
def kWriteEvent : Events := POLLOUT

/-- `Channel::Channel(loop, fd)` -/
def new (ptr fd : Nat) : Channel where
  ptr := ptr
  fd := fd
  events := kNoneEvent
  revents := 0
  index := .kNew
  addedToLoop := false
  eventHandling := false
  tied := false

def isNoneEvent (c : Channel) : Bool := c.events == kNoneEvent

def isWriting (c : Channel) : Bool := Events.has c.events kWriteEvent

def isReading (c : Channel) : Bool := Events.has c.events kReadEvent

/-- The callbacks of a channel, as functions on the state they run in.  `none` is a
`std::function` that was never set. -/
structure Callbacks (σ : Type) where
  closeCallback : Option (σ → Except Fault σ)
  errorCallback : Option (σ → Except Fault σ)
  readCallback : Option (σ → Except Fault σ)
  writeCallback : Option (σ → Except Fault σ)

/-- A callback, if its condition holds and it is set. -/
def callIf {σ : Type} (condition : Bool) (callback : Option (σ → Except Fault σ)) (s : σ) :
    Except Fault σ :=
  match condition, callback with
  | true, some f => f s
  | _, _ => .ok s

/-- The calls that `handleEventWithGuard` makes for the events `revents`. -/
def dispatch {σ : Type} (revents : Events) (callbacks : Callbacks σ) (s : σ) : Except Fault σ := do
  let s ← callIf (revents.has POLLHUP && !revents.has POLLIN) callbacks.closeCallback s
  let s ← callIf (revents.has (POLLERR ||| POLLNVAL)) callbacks.errorCallback s
  let s ← callIf (revents.has (POLLIN ||| POLLPRI ||| POLLRDHUP)) callbacks.readCallback s
  callIf (revents.has POLLOUT) callbacks.writeCallback s

@[simp] theorem callIf_false {σ : Type} (f : Option (σ → Except Fault σ)) (s : σ) :
    callIf false f s = .ok s := by
  cases f <;> rfl

@[simp] theorem callIf_none {σ : Type} (condition : Bool) (s : σ) :
    callIf condition none s = .ok s := by
  cases condition <;> rfl

@[simp] theorem callIf_true {σ : Type} (f : σ → Except Fault σ) (s : σ) :
    callIf true (some f) s = f s := rfl

theorem callIf_keeps {σ : Type} {I : σ → Prop} {condition : Bool}
    {callback : Option (σ → Except Fault σ)}
    (hkeeps : ∀ f ∈ callback, ∀ s t, I s → f s = .ok t → I t) {s t : σ} (hs : I s)
    (h : callIf condition callback s = .ok t) : I t := by
  unfold callIf at h
  split at h
  · exact hkeeps _ rfl s t hs h
  · cases h; exact hs

theorem dispatch_keeps {σ : Type} {I : σ → Prop} {callbacks : Callbacks σ}
    (hclose : ∀ f ∈ callbacks.closeCallback, ∀ s t, I s → f s = .ok t → I t)
    (herror : ∀ f ∈ callbacks.errorCallback, ∀ s t, I s → f s = .ok t → I t)
    (hread : ∀ f ∈ callbacks.readCallback, ∀ s t, I s → f s = .ok t → I t)
    (hwrite : ∀ f ∈ callbacks.writeCallback, ∀ s t, I s → f s = .ok t → I t)
    {revents : Events} {s t : σ} (hs : I s) (h : dispatch revents callbacks s = .ok t) : I t := by
  unfold dispatch at h
  obtain ⟨s1, h1, h⟩ := bind_eq_ok.mp h
  obtain ⟨s2, h2, h⟩ := bind_eq_ok.mp h
  obtain ⟨s3, h3, h⟩ := bind_eq_ok.mp h
  exact callIf_keeps hwrite (callIf_keeps hread (callIf_keeps herror
    (callIf_keeps hclose hs h1) h2) h3) h

end Channel

end Mymuduo
