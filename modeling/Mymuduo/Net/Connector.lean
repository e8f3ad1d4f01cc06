import Mymuduo.Net.EventLoop

/-! A connector: it opens a socket, watches it for writability until the connection is there, and
tries again when it fails.  What the kernel answers is an argument of the function that asks it;
what becomes of the sockets is recorded in the connector. -/

namespace Mymuduo

open Lib

/-- `Connector::States` -/
inductive States
  | kDisconnected
  | kConnecting
  | kConnected
  deriving DecidableEq, Repr

/-- The values of `errno` that `connect` tells apart. -/
inductive Errno
  | EINPROGRESS
  | EINTR
  | EISCONN
  | EAGAIN
  | EADDRINUSE
  | EADDRNOTAVAIL
  | ECONNREFUSED
  | ENETUNREACH
  | EACCES
  | EPERM
  | EAFNOSUPPORT
  | EALREADY
  | EBADF
  | EFAULT
  | ENOTSOCK
  | unexpected
  deriving DecidableEq, Repr

/-- What `connect` meets: the descriptor of the new socket, the address of the channel that may be
allocated for it, and the error of `::connect`, if there is one. -/
structure ConnectResult where
  sockfd : Nat
  ptr : Nat
  savedErrno : Option Errno
  deriving DecidableEq, Repr

/-- What a socket says of itself once it is reported: whether `SO_ERROR` is set, and whether both
of its ends are the same. -/
structure SocketStatus where
  error : Bool
  selfConnect : Bool
  deriving DecidableEq, Repr

/-- What a connector does with a socket in the end. -/
inductive Outcome
  | newConnection (sockfd : Nat)
  | close (sockfd : Nat)
  | runAfter (delayMs : Nat)
  deriving DecidableEq, Repr

/-- The functors that a connector queues in its loop. -/
inductive ConnectorFunctor
  | startInLoop
  | stopInLoop
  | resetChannel
  deriving DecidableEq, Repr

/-- A `Connector` and its loop.  `newConnectionCallback` says whether the user has set one,
`retryTimers` counts the timers of `retry` that have not expired, and `outcomes` holds what became
of the sockets so far. -/
structure Connector where
  loop : EventLoop ConnectorFunctor
  connect_ : Bool
  state : States
  channel : Option Channel
  newConnectionCallback : Bool
  retryDelayMs : Nat
  retryTimers : Nat
  outcomes : List Outcome

namespace Connector

def kMaxRetryDelayMs : Nat := 30 * 1000
def kInitRetryDelayMs : Nat := 500

/-- `Connector::Connector` -/
def new (loop : EventLoop ConnectorFunctor) (newConnectionCallback : Bool) : Connector where
  loop := loop
  connect_ := false
  state := .kDisconnected
  channel := none
  newConnectionCallback := newConnectionCallback
  retryDelayMs := kInitRetryDelayMs
  retryTimers := 0
  outcomes := []

def record (c : Connector) (outcome : Outcome) : Connector :=
  { c with outcomes := c.outcomes ++ [outcome] }

def retry (c : Connector) (sockfd : Nat) : Connector :=
  let c := c.record (.close sockfd)
  let c := { c with state := .kDisconnected }
  if c.connect_ then
    let c := { c.record (.runAfter c.retryDelayMs) with retryTimers := c.retryTimers + 1 }
    { c with retryDelayMs := min (c.retryDelayMs * 2) kMaxRetryDelayMs }
  else
    c

def connecting (c : Connector) (sockfd ptr : Nat) : Except Fault Connector := do
  let c := { c with state := .kConnecting }
  check .connecting c.channel.isNone
  let (channel, loop) ← Channel.enableWriting (.new ptr sockfd) c.loop
  return { c with channel := some channel, loop := loop }

def connect (c : Connector) (r : ConnectResult) : Except Fault Connector :=
  match r.savedErrno with
  | none | some .EINPROGRESS | some .EINTR | some .EISCONN => c.connecting r.sockfd r.ptr
  | some .EAGAIN | some .EADDRINUSE | some .EADDRNOTAVAIL | some .ECONNREFUSED
  | some .ENETUNREACH => .ok (c.retry r.sockfd)
  | some .EACCES | some .EPERM | some .EAFNOSUPPORT | some .EALREADY | some .EBADF
  | some .EFAULT | some .ENOTSOCK => .ok (c.record (.close r.sockfd))
  | some .unexpected => .ok (c.record (.close r.sockfd))

def startInLoop (c : Connector) (r : ConnectResult) : Except Fault Connector :=
  if c.connect_ then c.connect r else .ok c

/-- `start`, called on the loop thread or on another one. -/
def start (c : Connector) (isInLoopThread : Bool) (r : ConnectResult) : Except Fault Connector :=
  let c := { c with connect_ := true }
  if isInLoopThread then c.startInLoop r
  else .ok { c with loop := c.loop.queueInLoop false .startInLoop }

def restart (c : Connector) (r : ConnectResult) : Except Fault Connector :=
  startInLoop { c with state := .kConnecting, retryDelayMs := kInitRetryDelayMs } r

def removeAndResetChannel (c : Connector) : Except Fault (Connector × Nat) :=
  match c.channel with
  | none => .error .nullPointer
  | some channel => do
    let (channel, loop) ← channel.disableAll c.loop
    let (channel, loop) ← channel.remove loop
    let loop := loop.queueInLoop true .resetChannel
    return ({ c with channel := some channel, loop := loop }, channel.fd)

/-- `stop`, called on the loop thread or on another one. -/
def stop (c : Connector) (isInLoopThread : Bool) : Connector :=
  { c with connect_ := false, loop := c.loop.queueInLoop isInLoopThread .stopInLoop }

def stopInLoop (c : Connector) : Except Fault Connector :=
  if c.state = .kConnecting then do
    let (c, sockfd) ← removeAndResetChannel { c with state := .kDisconnected }
    return c.retry sockfd
  else
    .ok c

/-- `resetChannel`, with the destructor of the channel. -/
def resetChannel (c : Connector) : Except Fault Connector :=
  match c.channel with
  | none => .ok c
  | some channel => do
    channel.destroy c.loop
    return { c with channel := none }

def handleWrite (s : SocketStatus) (c : Connector) : Except Fault Connector :=
  if c.state = .kConnecting then do
    let (c, sockfd) ← c.removeAndResetChannel
    if s.error then
      return c.retry sockfd
    else if s.selfConnect then
      return c.retry sockfd
    else
      let c := { c with state := .kConnected }
      if c.connect_ then
        if c.newConnectionCallback then return c.record (.newConnection sockfd)
        else return c.record (.close sockfd)
      else
        return c.record (.close sockfd)
  else do
    check .connectorHandleWrite (c.state == .kDisconnected)
    return c

def handleError (c : Connector) : Except Fault Connector :=
  if c.state = .kConnecting then do
    let (c, sockfd) ← c.removeAndResetChannel
    return c.retry sockfd
  else
    .ok c

/-- `channel_`'s flag while its events are handled. -/
def setEventHandling (c : Connector) (eventHandling : Bool) : Connector :=
  { c with channel := c.channel.map fun channel => { channel with eventHandling := eventHandling } }

/-- `Channel::handleEvent` for the channel of the connector, which has a write callback and an
error callback. -/
def handleEvent (revents : Events) (s : SocketStatus) (c : Connector) : Except Fault Connector := do
  let c ← Channel.dispatch revents
    { closeCallback := none
      errorCallback := some handleError
      readCallback := none
      writeCallback := some (handleWrite s) } (c.setEventHandling true)
  return c.setEventHandling false

/-- One queued functor of the connector; `r` is what a `connect` in it meets. -/
def runFunctor (r : ConnectResult) (c : Connector) : ConnectorFunctor → Except Fault Connector
  | .startInLoop => c.startInLoop r
  | .stopInLoop => c.stopInLoop
  | .resetChannel => c.resetChannel

/-! ### What the functions leave alone -/

section

variable {c d : Connector}

theorem connect_cases (c : Connector) (r : ConnectResult) :
    c.connect r = c.connecting r.sockfd r.ptr ∨ c.connect r = .ok (c.retry r.sockfd) ∨
      c.connect r = .ok (c.record (.close r.sockfd)) := by
  unfold connect
  split <;> simp

/-- The calls by which a socket is opened leave a channel that is there, and what the loop knows of
the events that it handles. -/
structure SameDispatch (c d : Connector) : Prop where
  channel : ∀ ch, c.channel = some ch → d.channel = some ch
  eventHandling : d.loop.eventHandling = c.loop.eventHandling
  activeChannels : d.loop.activeChannels = c.loop.activeChannels

theorem SameDispatch.refl (c : Connector) : SameDispatch c c := ⟨fun _ h => h, rfl, rfl⟩

theorem retry_sameDispatch (c : Connector) (sockfd : Nat) : SameDispatch c (c.retry sockfd) := by
  unfold retry
  dsimp only
  split <;> exact ⟨fun _ h => h, rfl, rfl⟩

theorem connecting_sameDispatch {sockfd ptr : Nat} (h : c.connecting sockfd ptr = .ok d) :
    SameDispatch c d := by
  obtain ⟨u, hnone, h⟩ := bind_eq_ok.mp h
  obtain ⟨⟨channel, loop⟩, hupdate, h⟩ := bind_eq_ok.mp h
  obtain ⟨hloop, -⟩ := EventLoop.updateChannel_frame hupdate
  have hnone := check_eq_ok.mp hnone
  cases h
  refine ⟨?_, ?_, ?_⟩
  · intro ch hch
    rw [hch] at hnone
    cases hnone
  · show loop.eventHandling = c.loop.eventHandling
    rw [hloop]
  · show loop.activeChannels = c.loop.activeChannels
    rw [hloop]

theorem startInLoop_sameDispatch {r : ConnectResult} (h : c.startInLoop r = .ok d) :
    SameDispatch c d := by
  unfold startInLoop at h
  split at h
  · rcases connect_cases c r with hconnect | hconnect | hconnect <;> rw [hconnect] at h
    · exact connecting_sameDispatch h
    · cases h
      exact retry_sameDispatch c r.sockfd
    · cases h
      exact ⟨fun _ h => h, rfl, rfl⟩
  · cases h
    exact .refl c

end

end Connector

end Mymuduo
