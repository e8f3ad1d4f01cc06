import Mymuduo.Net.TcpConnection
import Mymuduo.Net.TcpServer

/-! A server with its connections, its base loop and its I/O loops, each on a thread of its own.
The threads take one callback, functor or call after another, in any order.  A connection is known
by its number in the order of their acceptance, which also stands for the address of its channel. -/

namespace Mymuduo

open Lib

/-! ### The callbacks of a channel, one after another -/

inductive ChannelCallback
  | closeCallback
  | errorCallback
  | readCallback
  | writeCallback
  deriving DecidableEq, Repr

namespace Channel

/-- The callbacks that `handleEventWithGuard` calls for the events `revents`, in its order. -/
def called (revents : Events) : List ChannelCallback :=
  (if revents.has POLLHUP && !revents.has POLLIN then [.closeCallback] else []) ++
    (if revents.has (POLLERR ||| POLLNVAL) then [.errorCallback] else []) ++
    (if revents.has (POLLIN ||| POLLPRI ||| POLLRDHUP) then [.readCallback] else []) ++
    if revents.has POLLOUT then [.writeCallback] else []

variable {σ : Type}

def Callbacks.get (callbacks : Callbacks σ) : ChannelCallback → Option (σ → Except Fault σ)
  | .closeCallback => callbacks.closeCallback
  | .errorCallback => callbacks.errorCallback
  | .readCallback => callbacks.readCallback
  | .writeCallback => callbacks.writeCallback

/-- `dispatch` runs them one after another. -/
theorem dispatch_eq_run (revents : Events) (callbacks : Callbacks σ) (s : σ) :
    dispatch revents callbacks s =
      run (fun s k => callIf true (callbacks.get k) s) s (called revents) := by
  have hone : ∀ (condition : Bool) (k : ChannelCallback) (s : σ),
      callIf condition (callbacks.get k) s =
        run (fun s k => callIf true (callbacks.get k) s) s (if condition then [k] else []) := by
    intro condition k s
    cases condition with
    | false => exact callIf_false _ s
    | true => exact (run_singleton (fun s k => callIf true (callbacks.get k) s) s k).symm
  unfold called
  simp only [run_append, ← hone, bind_assoc]
  rfl

end Channel

/-! ### The state -/

/-- The functors that a server and its connections queue. -/
inductive ServerFunctor
  | ofConnection (conn : Nat) (functor : TcpFunctor)
  | connectEstablished (conn : Nat)
  | removeConnectionInLoop (conn : Nat)
  deriving DecidableEq, Repr

/-- Where a loop is in an iteration, with the callbacks and the functors that it has yet to call in
it. -/
inductive RoundPlace
  | polling
  | handling (callbacks : List (Nat × ChannelCallback))
  | calling (functors : List ServerFunctor)
  deriving DecidableEq, Repr

/-- `EventLoopThreadPool`: the number of its loops, and the index of the next one. -/
structure EventLoopThreadPool where
  loops : Nat
  next : Nat
  deriving DecidableEq, Repr

/-- `getNextLoop`.  Loop 0 is `baseLoop_`, and loop `k + 1` is `loops_[k]`. -/
def EventLoopThreadPool.getNextLoop (p : EventLoopThreadPool) : Nat × EventLoopThreadPool :=
  if p.loops ≠ 0 then
    (p.next + 1, { p with next := if p.next + 1 ≥ p.loops then 0 else p.next + 1 })
  else
    (0, p)

/-- A connection of the server, in loop `ioLoop`.  The last fields record how often
`connectEstablished` and `removeConnectionInLoop` have run for it, and what `eventHandling_` of its
loop was at each run of `connectDestroyed`. -/
structure ServerConnection where
  name : Bytes
  ioLoop : Nat
  conn : TcpConnection
  established : Nat
  removed : Nat
  destroyed : List Bool

/-- A server and its loops.  `calls` holds the calls of `send` and `shutdown` on other threads than
the connection's that have tested `state_` and not yet queued their functor. -/
structure ServerLoops where
  server : TcpServer
  threadPool : EventLoopThreadPool
  writeCompleteCallback : Bool
  loops : Nat → EventLoop ServerFunctor
  places : Nat → RoundPlace
  conns : Nat → Option ServerConnection
  accepted : Nat
  calls : List (Nat × TcpFunctor)

/-- A step of one of the threads: the base loop accepts a connection; a loop polls, calls the next
callback, takes its pending functors, calls the next one of them, or ends its iteration; a thread
calls `send` or `shutdown`, or goes on with a call; or the user's code on a loop's own thread does so
for a connection of that loop. -/
inductive ServerStep
  | accept (sockfd : Nat)
  | poll (loop size : Nat) (ready : List (Nat × Events))
  | callback (loop : Nat) (r : Buffer.ReadResult) (w : WriteResult)
  | beginRound (loop : Nat)
  | functor (loop : Nat) (preceding : UInt8) (w : WriteResult)
  | endRound (loop : Nat)
  | send (conn : Nat) (msg : Bytes)
  | shutdown (conn : Nat)
  | queue (call : Nat)
  | sendInLoop (loop conn : Nat) (msg : Bytes) (preceding : UInt8) (w : WriteResult)
  | shutdownInLoop (loop conn : Nat)
  deriving DecidableEq, Repr

namespace ServerLoops

/-- A started server with `threads` I/O loops, all loops waiting in their first poll. -/
def new (threads : Nat) (listenAddr : InetAddress) (nameArg : Bytes)
    (writeCompleteCallback : Bool) : ServerLoops where
  server := .new listenAddr nameArg
  threadPool := { loops := threads, next := 0 }
  writeCompleteCallback := writeCompleteCallback
  loops := fun _ => .new
  places := fun _ => .polling
  conns := fun _ => none
  accepted := 0
  calls := []

def setConn (s : ServerLoops) (i : Nat) (c : ServerConnection) : ServerLoops :=
  { s with conns := Function.update s.conns i (some c) }

def setLoop (s : ServerLoops) (l : Nat) (loop : EventLoop ServerFunctor) : ServerLoops :=
  { s with loops := Function.update s.loops l loop }

def setPlace (s : ServerLoops) (l : Nat) (p : RoundPlace) : ServerLoops :=
  { s with places := Function.update s.places l p }

/-- A loop as the functions of a connection see it, which only add functors to those it has. -/
def view (l : EventLoop ServerFunctor) : EventLoop TcpFunctor where
  looping := l.looping
  quit := l.quit
  eventHandling := l.eventHandling
  callingPendingFunctors := l.callingPendingFunctors
  poller := l.poller
  wakeups := l.wakeups
  activeChannels := l.activeChannels
  pendingFunctors := []

/-- What a function of connection `i` has made of its view of the loop. -/
def merge (l : EventLoop ServerFunctor) (i : Nat) (seen : EventLoop TcpFunctor) :
    EventLoop ServerFunctor :=
  { l with
    poller := seen.poller
    wakeups := seen.wakeups
    pendingFunctors := l.pendingFunctors ++ seen.pendingFunctors.map (.ofConnection i) }

def queueInLoop (s : ServerLoops) (l : Nat) (isInLoopThread : Bool) (cb : ServerFunctor) :
    ServerLoops :=
  s.setLoop l ((s.loops l).queueInLoop isInLoopThread cb)

/-- `TcpServer::removeConnectionInLoop`, on the thread of the base loop. -/
def removeConnectionInLoop (s : ServerLoops) (i : Nat) : Except Fault ServerLoops :=
  match s.conns i with
  | none => .error .danglingPointer
  | some c => do
    let server ← s.server.removeConnectionInLoop c.name
    let s := { s with server := server }.setConn i { c with removed := c.removed + 1 }
    return s.queueInLoop c.ioLoop (c.ioLoop == 0) (.ofConnection i .connectDestroyed)

/-- `TcpServer::removeConnection`, on the thread of loop `l`. -/
def removeConnection (s : ServerLoops) (l i : Nat) : Except Fault ServerLoops :=
  if l = 0 then s.removeConnectionInLoop i
  else .ok (s.queueInLoop 0 false (.removeConnectionInLoop i))

/-- A function of connection `i`, which asserts that it is called on the thread of its loop.
`closeCallback_`, where the function calls it, is the last thing that it calls. -/
def onConnection (s : ServerLoops) (l i : Nat)
    (f : TcpConnection → Except Fault TcpConnection) : Except Fault ServerLoops :=
  match s.conns i with
  | none => .error .danglingPointer
  | some c =>
    if c.ioLoop = l then do
      let d ← f { c.conn with loop := view (s.loops l) }
      let s := (s.setConn i { c with conn := d }).setLoop l (merge (s.loops l) i d.loop)
      if c.conn.closeCalls < d.closeCalls then s.removeConnection l i else .ok s
    else
      .error .fatal

/-- Something is recorded of connection `i`. -/
def record (s : ServerLoops) (i : Nat) (f : ServerConnection → ServerConnection) : ServerLoops :=
  { s with conns := Function.update s.conns i ((s.conns i).map f) }

def connectEstablished (s : ServerLoops) (l i : Nat) : Except Fault ServerLoops :=
  (s.record i fun c => { c with established := c.established + 1 }).onConnection l i
    TcpConnection.connectEstablished

def connectDestroyed (s : ServerLoops) (l i : Nat) : Except Fault ServerLoops :=
  (s.record i fun c =>
    { c with destroyed := c.destroyed ++ [(s.loops l).eventHandling] }).onConnection l i
    TcpConnection.connectDestroyed

/-- `TcpServer::newConnection`, on the thread of the base loop. -/
def newConnection (s : ServerLoops) (sockfd : Nat) : Except Fault ServerLoops :=
  let (ioLoop, threadPool) := s.threadPool.getNextLoop
  let c : ServerConnection :=
    { name := s.server.connName
      ioLoop := ioLoop
      conn := .new (view (s.loops ioLoop)) s.accepted sockfd s.writeCompleteCallback
      established := 0
      removed := 0
      destroyed := [] }
  let t := setConn
    { s with
      threadPool := threadPool
      server := s.server.newConnection s.accepted
      accepted := s.accepted + 1 } s.accepted c
  if ioLoop = 0 then t.connectEstablished 0 s.accepted
  else .ok (t.queueInLoop ioLoop false (.connectEstablished s.accepted))

/-- A functor, called on the thread of loop `l`. -/
def runFunctor (s : ServerLoops) (l : Nat) (preceding : UInt8) (w : WriteResult) :
    ServerFunctor → Except Fault ServerLoops
  | .connectEstablished i => s.connectEstablished l i
  | .removeConnectionInLoop i => if l = 0 then s.removeConnectionInLoop i else .error .fatal
  | .ofConnection i .connectDestroyed => s.connectDestroyed l i
  | .ofConnection i functor => s.onConnection l i (TcpConnection.runFunctor preceding w · functor)

/-- `handleRead`; what the user's `messageCallback_` does comes in steps of its own. -/
def handleRead (r : Buffer.ReadResult) (c : TcpConnection) : Except Fault TcpConnection := do
  let s ← TcpConnection.handleRead (κ := Unit) .ok r ((), c)
  return s.2

/-- A callback of the channel of connection `i`, called on the thread of loop `l`. -/
def callback (s : ServerLoops) (l i : Nat) (r : Buffer.ReadResult) (w : WriteResult) :
    ChannelCallback → Except Fault ServerLoops
  | .closeCallback => s.onConnection l i TcpConnection.handleClose
  | .errorCallback => .ok s
  | .readCallback => s.onConnection l i (handleRead r)
  | .writeCallback => s.onConnection l i (TcpConnection.handleWrite w)

/-- The channels of the connections. -/
def heap (s : ServerLoops) (i : Nat) : Option Channel := (s.conns i).map fun c => c.conn.channel

/-- The connections with the channels that the poller has written to. -/
def setHeap (s : ServerLoops) (heap : Nat → Option Channel) : ServerLoops :=
  { s with
    conns := fun i => (s.conns i).map fun c =>
      { c with conn := { c.conn with channel := (heap i).getD c.conn.channel } } }

/-- The loop's poller polls, with room for `size` events, and the callbacks to be called are
known. -/
def poll (s : ServerLoops) (l size : Nat) (ready : List (Nat × Events)) :
    Except Fault ServerLoops := do
  let (_, heap, activeChannels) ← (s.loops l).poller.poll size ready s.heap
  let callbacks := activeChannels.flatMap fun i =>
    (heap i).elim [] fun c => (Channel.called c.revents).map fun k => (i, k)
  return ((s.setHeap heap).setLoop l
    { s.loops l with eventHandling := true, activeChannels := activeChannels }).setPlace l
      (.handling callbacks)

/-- The user has been told of the connection by a first call of `connectionCallback_`. -/
def Known (c : ServerConnection) : Bool := !c.conn.connectionCalls.isEmpty

def step (s : ServerLoops) : ServerStep → Except Fault ServerLoops
  | .accept sockfd =>
    match s.places 0 with
    | .handling _ => s.newConnection sockfd
    | _ => .ok s
  | .poll l size ready =>
    match s.places l with
    | .polling => s.poll l size ready
    | _ => .ok s
  | .callback l r w =>
    match s.places l with
    | .handling ((i, k) :: rest) => (s.setPlace l (.handling rest)).callback l i r w k
    | _ => .ok s
  | .beginRound l =>
    match s.places l with
    | .handling [] =>
      .ok ((s.setLoop l
        { s.loops l with
          eventHandling := false
          callingPendingFunctors := true
          pendingFunctors := [] }).setPlace l (.calling (s.loops l).pendingFunctors))
    | _ => .ok s
  | .functor l preceding w =>
    match s.places l with
    | .calling (f :: rest) => (s.setPlace l (.calling rest)).runFunctor l preceding w f
    | _ => .ok s
  | .endRound l =>
    match s.places l with
    | .calling [] =>
      .ok ((s.setLoop l { s.loops l with callingPendingFunctors := false }).setPlace l .polling)
    | _ => .ok s
  | .send i msg =>
    match s.conns i with
    | some c =>
      .ok (if Known c ∧ c.conn.state = .kConnected then
        { s with calls := s.calls ++ [(i, .sendInLoop msg)] } else s)
    | none => .ok s
  | .shutdown i =>
    match s.conns i with
    | some c =>
      .ok (if Known c ∧ c.conn.state = .kConnected then
        setConn { s with calls := s.calls ++ [(i, .shutdownInLoop)] } i
          { c with conn := { c.conn with state := .kDisconnecting } } else s)
    | none => .ok s
  | .queue k =>
    match s.calls[k]? with
    | some (i, functor) =>
      match s.conns i with
      | some c =>
        .ok (queueInLoop { s with calls := s.calls.eraseIdx k } c.ioLoop false
          (.ofConnection i functor))
      | none => .error .danglingPointer
    | none => .ok s
  | .sendInLoop l i msg preceding w =>
    match s.conns i with
    | some c =>
      if Known c ∧ c.ioLoop = l ∧ s.places l ≠ .polling then
        s.onConnection l i fun c => c.send true msg preceding w
      else
        .ok s
    | none => .ok s
  | .shutdownInLoop l i =>
    match s.conns i with
    | some c =>
      if Known c ∧ c.ioLoop = l ∧ s.places l ≠ .polling then
        s.onConnection l i fun c => .ok (c.shutdown true)
      else
        .ok s
    | none => .ok s

/-- What the kernel promises: a new descriptor is not in use; a poll reports a descriptor once, and
`POLLPRI` and `POLLRDHUP` only together with `POLLIN`.  The server has not accepted 2^31
connections. -/
def KernelKeeps (s : ServerLoops) : ServerStep → Prop
  | .accept sockfd =>
    s.accepted + 1 < 2 ^ 31 ∧
      ∀ i < s.accepted, ∀ c ∈ s.conns i, c.destroyed = [] → c.conn.channel.fd ≠ sockfd
  | .poll _ _ ready =>
    (ready.map Prod.fst).Nodup ∧
      ∀ r ∈ ready, r.2.has (POLLPRI ||| POLLRDHUP) = true → r.2.has POLLIN = true
  | _ => True

instance (s : ServerLoops) : (a : ServerStep) → Decidable (KernelKeeps s a)
  | .accept sockfd => inferInstanceAs (Decidable (s.accepted + 1 < 2 ^ 31 ∧
      ∀ i < s.accepted, ∀ c ∈ s.conns i, c.destroyed = [] → c.conn.channel.fd ≠ sockfd))
  | .poll _ _ ready => inferInstanceAs (Decidable ((ready.map Prod.fst).Nodup ∧
      ∀ r ∈ ready, r.2.has (POLLPRI ||| POLLRDHUP) = true → r.2.has POLLIN = true))
  | .callback .. | .beginRound _ | .functor .. | .endRound _ | .send .. | .shutdown _ | .queue _
  | .sendInLoop .. | .shutdownInLoop .. => .isTrue trivial

/-- The functors that loop `l` has yet to call: those left of its round, and the pending ones. -/
def queued (s : ServerLoops) (l : Nat) : List ServerFunctor :=
  (match s.places l with
    | .calling functors => functors
    | _ => []) ++ (s.loops l).pendingFunctors

end ServerLoops

end Mymuduo
