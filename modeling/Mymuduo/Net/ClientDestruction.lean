import Mymuduo.Net.ForceClose
import Mymuduo.Net.TcpClient

/-! The destruction of a client on the loop's thread, between two steps of its loop.  The destructor
gives `connection_` another close callback and forces it closed if nobody else holds it; without a
connection it stops the connector.  Then the connector is released.  Its functors and its channel
call it by its bare address, and only its retry timers hold it. -/

namespace Mymuduo

open Lib

/-- What can go wrong after the destruction: a fault of a function that still runs, the assertion in
`~Connector` that `channel_` is not set, and a call on a connector or a client that is gone. -/
inductive RemainsFault
  | fault (f : Fault)
  | channelSet
  | connectorGone
  | clientGone
  deriving DecidableEq, Repr

/-- What a client leaves behind.  `released` says that the connector has been destroyed, and
`redirected` is the connection whose close callback is `detail::removeConnection`. -/
structure ClientRemains where
  connector : Connector
  released : Bool
  redirected : Option Nat
  conns : List ClientConnection

namespace ClientRemains

/-- A reference to the connector is dropped, which destroys it if no retry timer holds it. -/
def releaseConnector (t : ClientRemains) : Except RemainsFault ClientRemains :=
  if t.connector.retryTimers = 0 then
    if t.connector.channel.isSome then .error .channelSet else .ok { t with released := true }
  else
    .ok t

/-- A step of the connector.  Its `newConnectionCallback_` is a function of the client. -/
def onConnector (t : ClientRemains) (a : Connector.Step) : Except RemainsFault ClientRemains :=
  if t.released then
    .ok t
  else
    match t.connector.step a with
    | .error f => .error (.fault f)
    | .ok connector =>
      if (TcpClient.handedOver t.connector connector).isSome then .error .clientGone
      else releaseConnector { t with connector := connector }

/-- What still happens: a retry timer expires, the connector's channel has events, the functor at the
head of its queue is run, or something happens to a connection. -/
inductive Step
  | retryTimer (r : ConnectResult)
  | event (revents : Events) (s : SocketStatus)
  | functor (r : ConnectResult)
  | connection (i : Nat) (a : TcpClient.ConnectionStep)

section

variable (messageCallback : TcpConnection → Except Fault TcpConnection)

/-- A step of connection `i`, with its close callback. -/
def onConnection (t : ClientRemains) (i : Nat) (a : TcpClient.ConnectionStep) :
    Except RemainsFault ClientRemains :=
  match t.conns[i]? with
  | none => .ok t
  | some c =>
    match TcpClient.connectionStep messageCallback c.conn a with
    | .error f => .error (.fault f)
    | .ok conn =>
      if c.conn.closeCalls < conn.closeCalls then
        if t.redirected = some i then
          let conn := conn.queueInLoop true .connectDestroyed
          .ok { t with conns := t.conns.set i { c with conn := conn } }
        else
          .error .clientGone
      else
        .ok { t with conns := t.conns.set i { c with conn := conn } }

def step (t : ClientRemains) : Step → Except RemainsFault ClientRemains
  | .retryTimer r => t.onConnector (.retryTimer r)
  | .event revents s => t.onConnector (.event revents s)
  | .functor r =>
    if t.released then
      if t.connector.loop.pendingFunctors = [] then .ok t else .error .connectorGone
    else
      t.onConnector (.functor r)
  | .connection i a => t.onConnection messageCallback i a

end

end ClientRemains

namespace TcpClient

/-- `TcpClient::~TcpClient`; `unique` says that the client alone holds `connection_`. -/
def destroy (s : TcpClient) (unique : Bool) : Except RemainsFault ClientRemains :=
  match s.connection with
  | some i =>
    let conns :=
      if unique then s.conns.modify i fun c => { c with conn := c.conn.forceClose true }
      else s.conns
    ClientRemains.releaseConnector ⟨s.connector, false, some i, conns⟩
  | none => ClientRemains.releaseConnector ⟨s.connector.stop true, false, none, s.conns⟩

/-- After the destruction no step uses the client or its connector, and `~Connector` finds no
channel.  Other faults are those that the functions have in any case. -/
def SparesClient (messageCallback : TcpConnection → Except Fault TcpConnection) (s : TcpClient)
    (unique : Bool) : Prop :=
  ∀ later e,
    (s.destroy unique >>= fun t => run (ClientRemains.step messageCallback) t later) = .error e →
    ∃ f, e = .fault f

/-- Nothing is left that refers to the client or to its connector. -/
structure LeavesNothing (s : TcpClient) : Prop where
  connection : s.connection.isSome = true
  others : ∀ i c, s.conns[i]? = some c → s.connection ≠ some i → c.conn.state = .kDisconnected
  channel : s.connector.channel = none
  functors : s.connector.loop.pendingFunctors = []
  timers : s.connector.retryTimers = 0 ∨ s.connector.connect_ = false

end TcpClient

/-! ### The descriptors that a poller knows -/

/-- There are descriptors that the poller does not know, as far up as one likes. -/
def EPollPoller.Roomy (p : EPollPoller) : Prop :=
  ∃ n, ∀ fd, n ≤ fd → p.channels fd = none ∧ p.interest fd = none

theorem EPollPoller.SameBut.roomy {fd : Nat} {p q : EPollPoller} (h : SameBut fd p q)
    (hp : p.Roomy) : q.Roomy := by
  obtain ⟨n, hn⟩ := hp
  refine ⟨max n (fd + 1), ?_⟩
  intro m hm
  obtain ⟨hchannels, hinterest⟩ := h m (by omega)
  rw [hchannels, hinterest]
  exact hn m (by omega)

namespace Connector

variable {c d : Connector}

/-- The poller of the connector's loop has room. -/
def Roomy (c : Connector) : Prop := c.loop.poller.Roomy

theorem retry_roomy (h : Roomy c) (fd : Nat) : Roomy (c.retry fd) := by
  unfold Roomy
  rw [retry_loop]
  exact h

theorem connecting_roomy {sockfd ptr : Nat} (h : Roomy c) (hd : c.connecting sockfd ptr = .ok d) :
    Roomy d := by
  obtain ⟨u, -, hd⟩ := bind_eq_ok.mp hd
  obtain ⟨⟨channel, loop⟩, hupdate, hd⟩ := bind_eq_ok.mp hd
  cases hd
  exact (Channel.update_sameBut hupdate).roomy h

theorem startInLoop_roomy {r : ConnectResult} (h : Roomy c) (hd : c.startInLoop r = .ok d) :
    Roomy d := by
  unfold startInLoop at hd
  split at hd
  · rcases connect_cases c r with hconnect | hconnect | hconnect <;> rw [hconnect] at hd
    · exact connecting_roomy h hd
    · cases hd
      exact retry_roomy h r.sockfd
    · cases hd
      exact h
  · cases hd
    exact h

theorem removeAndResetChannel_roomy {fd : Nat} (h : Roomy c)
    (hd : c.removeAndResetChannel = .ok (d, fd)) : Roomy d := by
  unfold removeAndResetChannel at hd
  split at hd
  · cases hd
  · obtain ⟨⟨channel, loop⟩, hdisable, hd⟩ := bind_eq_ok.mp hd
    obtain ⟨⟨channel', loop'⟩, hremove, hd⟩ := bind_eq_ok.mp hd
    cases hd
    show (loop'.queueInLoop true .resetChannel).poller.Roomy
    rw [EventLoop.queueInLoop_poller]
    exact (Channel.remove_sameBut hremove).roomy ((Channel.update_sameBut hdisable).roomy h)

theorem stopInLoop_roomy (h : Roomy c) (hd : c.stopInLoop = .ok d) : Roomy d := by
  unfold stopInLoop at hd
  split at hd
  · obtain ⟨⟨e, fd⟩, he, hd⟩ := bind_eq_ok.mp hd
    cases hd
    exact retry_roomy (removeAndResetChannel_roomy (c := { c with state := .kDisconnected }) h he) fd
  · cases hd
    exact h

theorem resetChannel_roomy (h : Roomy c) (hd : c.resetChannel = .ok d) : Roomy d := by
  unfold resetChannel at hd
  split at hd
  · cases hd
    exact h
  · obtain ⟨u, -, hd⟩ := bind_eq_ok.mp hd
    cases hd
    exact h

theorem handleWrite_roomy {s : SocketStatus} (h : Roomy c) (hd : c.handleWrite s = .ok d) :
    Roomy d := by
  unfold handleWrite at hd
  split at hd
  · obtain ⟨⟨e, fd⟩, he, hd⟩ := bind_eq_ok.mp hd
    have hroomy := removeAndResetChannel_roomy h he
    have hretry := retry_roomy hroomy fd
    dsimp only at hd
    split at hd
    · cases hd
      exact hretry
    · split at hd
      · cases hd
        exact hretry
      · split at hd
        · split at hd <;> cases hd <;> exact hroomy
        · cases hd
          exact hroomy
  · obtain ⟨u, -, hd⟩ := bind_eq_ok.mp hd
    cases hd
    exact h

theorem handleError_roomy (h : Roomy c) (hd : c.handleError = .ok d) : Roomy d := by
  unfold handleError at hd
  split at hd
  · obtain ⟨⟨e, fd⟩, he, hd⟩ := bind_eq_ok.mp hd
    cases hd
    exact retry_roomy (removeAndResetChannel_roomy h he) fd
  · cases hd
    exact h

theorem handleEvent_roomy {revents : Events} {s : SocketStatus} (h : Roomy c)
    (hd : c.handleEvent revents s = .ok d) : Roomy d := by
  obtain ⟨e, he, hd⟩ := bind_eq_ok.mp hd
  have hroomy : Roomy e := by
    refine Channel.dispatch_keeps (I := Roomy) ?_ ?_ ?_ ?_ (s := c.setEventHandling true) h he
    · intro f hf
      cases hf
    · intro f hf x y hx hy
      cases hf
      exact handleError_roomy hx hy
    · intro f hf
      cases hf
    · intro f hf x y hx hy
      cases hf
      exact handleWrite_roomy hx hy
  cases hd
  exact hroomy

theorem queueInLoop_roomy (h : Roomy c) (isInLoopThread : Bool) (f : ConnectorFunctor) :
    (c.loop.queueInLoop isInLoopThread f).poller.Roomy := by
  rw [EventLoop.queueInLoop_poller]
  exact h

theorem step_roomy {a : Step} (h : Roomy c) (hd : c.step a = .ok d) : Roomy d := by
  unfold step at hd
  split at hd
  · cases a with
    | start r => exact startInLoop_roomy (c := { c with connect_ := true }) h hd
    | stop =>
      cases hd
      exact queueInLoop_roomy h true .stopInLoop
    | store connect_ =>
      cases hd
      exact h
    | queue connect_ =>
      cases hd
      exact queueInLoop_roomy h false _
    | retryTimer r =>
      exact startInLoop_roomy (c := { c with retryTimers := c.retryTimers - 1 }) h hd
    | event revents s => exact handleEvent_roomy h hd
    | functor r =>
      change c.runPending r = .ok d at hd
      unfold runPending at hd
      split at hd
      · cases hd
        exact h
      · rename_i f rest hfunctors
        cases f with
        | startInLoop =>
          exact startInLoop_roomy
            (c := { c with loop := { c.loop with pendingFunctors := rest } }) h hd
        | stopInLoop =>
          exact stopInLoop_roomy
            (c := { c with loop := { c.loop with pendingFunctors := rest } }) h hd
        | resetChannel =>
          exact resetChannel_roomy
            (c := { c with loop := { c.loop with pendingFunctors := rest } }) h hd
  · cases hd
    exact h

theorem Roomy.fresh (h : Roomy c) (savedErrno : Option Errno) :
    ∃ r : ConnectResult, c.Fresh r ∧ r.savedErrno = savedErrno := by
  obtain ⟨n, hn⟩ := h
  exact ⟨⟨n, 0, savedErrno⟩, hn n (Nat.le_refl n), rfl⟩

end Connector

/-! ### Connections that are up or down -/

namespace TcpConnection

variable {c d : TcpConnection} {messageCallback : TcpConnection → Except Fault TcpConnection}

/-- The connection is established, or its state says that it is not. -/
def UpOrDown (c : TcpConnection) : Prop := Up c ∨ c.state = .kDisconnected

/-- What the user's `messageCallback_` can do to the connection: it can send, shut down and force
closed one that is up, but the way to `closeCallback_` does not lead through it. -/
structure KeepsConnection (messageCallback : TcpConnection → Except Fault TcpConnection) :
    Prop where
  up : ∀ c d, Up c → messageCallback c = .ok d → UpOrDown d
  down : ∀ c d, c.state = .kDisconnected → messageCallback c = .ok d →
    d.state = .kDisconnected ∧ d.closeCalls = c.closeCalls

/-- What the handlers of a connection keep, the handling of its events keeps. -/
theorem handleEvent_invariant {I : TcpConnection → Prop} {revents : Events}
    {r : Buffer.ReadResult} {w : WriteResult} {s t : Unit × TcpConnection}
    (hflags : ∀ c revents eventHandling, I c →
      I { c with channel := { c.channel with revents := revents, eventHandling := eventHandling } })
    (hinput : ∀ c inputBuffer, I c → I { c with inputBuffer := inputBuffer })
    (hmessage : ∀ c d, I c → messageCallback c = .ok d → I d)
    (hclose : ∀ c d, I c → c.handleClose = .ok d → I d)
    (hwrite : ∀ c d, I c → c.handleWrite w = .ok d → I d) (hI : I s.2)
    (h : handleEvent (withContext messageCallback) revents r w s = .ok t) : I t.2 := by
  have hcontext : ∀ f : TcpConnection → Except Fault TcpConnection,
      (∀ c d, I c → f c = .ok d → I d) →
      ∀ s t : Unit × TcpConnection, I s.2 → withContext f s = .ok t → I t.2 := by
    intro f hf s t hs ht
    obtain ⟨d, hd, ht⟩ := bind_eq_ok.mp ht
    cases ht
    exact hf s.2 d hs hd
  obtain ⟨e, he, h⟩ := bind_eq_ok.mp h
  have hkeep : I e.2 := by
    refine Channel.dispatch_keeps (I := fun s : Unit × TcpConnection => I s.2)
      ?_ ?_ ?_ ?_ (hflags s.2 revents true hI) he
    · intro f hf s t hs ht
      cases hf
      exact hcontext handleClose hclose s t hs ht
    · intro f hf s t hs ht
      cases hf
      cases ht
      exact hs
    · intro f hf s t hs ht
      cases hf
      obtain ⟨⟨n, buffer⟩, -, ht⟩ := bind_eq_ok.mp ht
      have hread := hinput s.2 buffer hs
      dsimp only at ht
      split at ht
      · exact hcontext messageCallback hmessage _ t hread ht
      · split at ht
        · exact hcontext handleClose hclose _ t hread ht
        · cases ht
          exact hread
    · intro f hf s t hs ht
      cases hf
      exact hcontext (handleWrite w) hwrite s t hs ht
  cases h
  exact hflags e.2 e.2.channel.revents false hkeep

theorem Up.queueInLoop (h : Up c) (isInLoopThread : Bool) (f : TcpFunctor) :
    Up (c.queueInLoop isInLoopThread f) := by
  refine ⟨h.state, h.index, h.events, ?_⟩
  show (c.loop.queueInLoop isInLoopThread f).poller.Tracks c.channel
  rw [EventLoop.queueInLoop_poller]
  exact h.tracks

theorem UpOrDown.queueInLoop (h : UpOrDown c) (isInLoopThread : Bool) (f : TcpFunctor) :
    UpOrDown (c.queueInLoop isInLoopThread f) :=
  h.imp (fun hup => hup.queueInLoop isInLoopThread f) id

theorem UpOrDown.sendInLoop {message : Bytes} {preceding : UInt8} {w : WriteResult}
    (h : UpOrDown c) (hd : c.sendInLoop message preceding w = .ok d) : UpOrDown d := by
  rcases h with hup | hdown
  · obtain ⟨e, he, hup', -⟩ := hup.sendInLoop message preceding w
    cases hd.symm.trans he
    exact .inl hup'
  · exact .inr ((sendInLoop_sameLife hd).state.trans hdown)

theorem UpOrDown.handleWrite {w : WriteResult} (h : UpOrDown c) (hd : c.handleWrite w = .ok d) :
    UpOrDown d := by
  rcases h with hup | hdown
  · obtain ⟨e, he, hup', -⟩ := hup.handleWrite w
    cases hd.symm.trans he
    exact .inl hup'
  · exact .inr ((handleWrite_sameLife hd).state.trans hdown)

theorem UpOrDown.shutdownInLoop (h : UpOrDown c) : UpOrDown c.shutdownInLoop :=
  h.imp (fun hup => hup.shutdownInLoop.1) fun hdown => shutdownInLoop_sameLife.state.trans hdown

/-- `connectDestroyed` closes a connection that is up, or fails on one that is being shut down. -/
theorem UpOrDown.connectDestroyed (h : UpOrDown c) (hd : c.connectDestroyed = .ok d) :
    d.state = .kDisconnected := by
  rcases h with hup | hdown
  · rcases hup.state with hstate | hstate
    · obtain ⟨e, he, hdown, -⟩ := hup.connectDestroyed_eq hstate
      rw [he] at hd
      exact (onChannel_sameLife hd).state.trans hdown.state
    · rw [hup.connectDestroyed_error hstate] at hd
      cases hd
  · rw [connectDestroyed_of_ne (by rw [hdown]; simp)] at hd
    exact (onChannel_sameLife hd).state.trans hdown

theorem UpOrDown.runFunctor {preceding : UInt8} {w : WriteResult} {functor : TcpFunctor}
    (h : UpOrDown c) (hd : c.runFunctor preceding w functor = .ok d) : UpOrDown d := by
  cases functor with
  | sendInLoop message => exact h.sendInLoop hd
  | shutdownInLoop =>
    cases hd
    exact h.shutdownInLoop
  | forceCloseInLoop =>
    change c.forceCloseInLoop = .ok d at hd
    unfold forceCloseInLoop at hd
    split at hd
    · exact .inr (handleClose_change hd).2
    · cases hd
      exact h
  | connectDestroyed => exact .inr (h.connectDestroyed hd)
  | writeCompleteCallback =>
    cases hd
    exact h

theorem UpOrDown.shutdown (h : UpOrDown c) (isInLoopThread : Bool) :
    UpOrDown (c.shutdown isInLoopThread) := by
  unfold TcpConnection.shutdown
  split
  · rename_i hstate
    rcases h with hup | hdown
    · have hclosing : UpOrDown { c with state := .kDisconnecting } :=
        .inl ⟨.inr rfl, hup.index, hup.events, hup.tracks⟩
      dsimp only
      split
      · exact hclosing.shutdownInLoop
      · exact hclosing.queueInLoop false .shutdownInLoop
    · rw [hdown] at hstate
      cases hstate
  · exact h

theorem UpOrDown.forceClose (h : UpOrDown c) (isInLoopThread : Bool) :
    UpOrDown (c.forceClose isInLoopThread) := by
  unfold TcpConnection.forceClose
  split
  · exact .inr rfl
  · exact h

theorem UpOrDown.send {isInLoopThread : Bool} {msg : Bytes} {preceding : UInt8} {w : WriteResult}
    (h : UpOrDown c) (hd : c.send isInLoopThread msg preceding w = .ok d) : UpOrDown d := by
  unfold TcpConnection.send at hd
  split at hd
  · split at hd
    · exact h.sendInLoop hd
    · cases hd
      exact h.queueInLoop false (.sendInLoop msg)
  · cases hd
    exact h

/-- A functor of a connection that is down, or a call on it, leaves it down. -/
theorem lifeStep_down {a : LifeStep} (h : c.state = .kDisconnected) (hd : lifeStep c a = .ok d)
    (hevent : ∀ revents r w, a ≠ .event revents r w) :
    d.state = .kDisconnected ∧ d.closeCalls = c.closeCalls := by
  cases lifeStep_change hd hevent with
  | same state closeCalls => exact ⟨state.trans h, closeCalls⟩
  | shutdown before after closeCalls =>
    rw [h] at before
    cases before
  | abandoned before after closeCalls => exact ⟨after, closeCalls⟩
  | closed before after =>
    rw [h] at before
    simp at before

end TcpConnection

namespace TcpClient

variable {messageCallback : TcpConnection → Except Fault TcpConnection}

open TcpConnection (Up UpOrDown KeepsConnection)

theorem connectionStep_upOrDown {c d : TcpConnection} {a : ConnectionStep}
    (hcallback : KeepsConnection messageCallback) (h : UpOrDown c)
    (hd : connectionStep messageCallback c a = .ok d) : UpOrDown d := by
  cases a with
  | event revents r w =>
    simp only [connectionStep] at hd
    split at hd
    · obtain ⟨⟨u, e⟩, he, hd⟩ := bind_eq_ok.mp hd
      have hkeep : UpOrDown e := by
        refine TcpConnection.handleEvent_invariant (I := UpOrDown) ?_ ?_ ?_ ?_ ?_ h he
        · intro c revents eventHandling hc
          exact hc.imp (fun hup => ⟨hup.state, hup.index, hup.events, hup.tracks⟩) id
        · intro c inputBuffer hc
          exact hc.imp (fun hup => ⟨hup.state, hup.index, hup.events, hup.tracks⟩) id
        · intro c d hc hd
          rcases hc with hup | hdown
          · exact hcallback.up c d hup hd
          · exact .inr (hcallback.down c d hdown hd).1
        · intro c d _ hd
          exact .inr (TcpConnection.handleClose_change hd).2
        · intro c d hc hd
          exact hc.handleWrite hd
      cases hd
      exact hkeep
    · cases hd
      exact h
  | functor preceding w =>
    change c.runPending preceding w = .ok d at hd
    unfold TcpConnection.runPending at hd
    split at hd
    · cases hd
      exact h
    · rename_i f rest _
      have htaken : UpOrDown { c with loop := { c.loop with pendingFunctors := rest } } :=
        h.imp (fun hup => ⟨hup.state, hup.index, hup.events, hup.tracks⟩) id
      exact htaken.runFunctor hd
  | send isInLoopThread msg preceding w => exact h.send hd
  | shutdown isInLoopThread =>
    cases hd
    exact h.shutdown isInLoopThread
  | forceClose isInLoopThread =>
    cases hd
    exact h.forceClose isInLoopThread

/-- A connection that is down stays so, and its close callback is not called. -/
theorem connectionStep_down {c d : TcpConnection} {a : ConnectionStep}
    (hcallback : KeepsConnection messageCallback) (h : c.state = .kDisconnected)
    (hd : connectionStep messageCallback c a = .ok d) :
    d.state = .kDisconnected ∧ d.closeCalls = c.closeCalls := by
  cases a with
  | event revents r w =>
    simp only [connectionStep] at hd
    split at hd
    · obtain ⟨⟨u, e⟩, he, hd⟩ := bind_eq_ok.mp hd
      have hkeep : e.state = .kDisconnected ∧ e.closeCalls = c.closeCalls := by
        refine TcpConnection.handleEvent_invariant (s := ((), c))
          (I := fun e => e.state = .kDisconnected ∧ e.closeCalls = c.closeCalls)
          ?_ ?_ ?_ ?_ ?_ ⟨h, rfl⟩ he
        · intro c revents eventHandling hc
          exact hc
        · intro c inputBuffer hc
          exact hc
        · rintro x y ⟨hdown, hcalls⟩ hy
          obtain ⟨hdown', hcalls'⟩ := hcallback.down x y hdown hy
          exact ⟨hdown', hcalls'.trans hcalls⟩
        · rintro x y ⟨hdown, -⟩ hy
          have hbefore := (TcpConnection.handleClose_change hy).1
          rw [hdown] at hbefore
          simp at hbefore
        · rintro x y ⟨hdown, hcalls⟩ hy
          have hsame := TcpConnection.handleWrite_sameLife hy
          exact ⟨hsame.state.trans hdown, hsame.closeCalls.trans hcalls⟩
      cases hd
      exact hkeep
    · cases hd
      exact ⟨h, rfl⟩
  | functor preceding w =>
    exact TcpConnection.lifeStep_down (a := .functor preceding w) h hd (by simp)
  | send isInLoopThread msg preceding w =>
    exact TcpConnection.lifeStep_down (a := .send isInLoopThread msg preceding w) h hd (by simp)
  | shutdown isInLoopThread =>
    exact TcpConnection.lifeStep_down (a := .shutdown isInLoopThread) h hd (by simp)
  | forceClose isInLoopThread =>
    exact TcpConnection.lifeStep_down (a := .forceClose isInLoopThread) h hd (by simp)

/-! ### The client before its destruction -/

/-- What holds of a client in every run. -/
structure Prepared (s : TcpClient) : Prop where
  conns : ∀ c ∈ s.conns, UpOrDown c.conn
  poller : s.connector.Roomy

variable {s t : TcpClient}

theorem Prepared.set {i : Nat} {c : ClientConnection} (h : Prepared s) (hc : UpOrDown c.conn) :
    Prepared { s with conns := s.conns.set i c } := by
  refine ⟨?_, h.poller⟩
  intro d hd
  rcases List.mem_or_eq_of_mem_set hd with hold | rfl
  · exact h.conns d hold
  · exact hc

theorem Prepared.shutdown (h : Prepared s) (isInLoopThread : Bool) :
    Prepared (s.shutdown isInLoopThread) := by
  unfold TcpClient.shutdown
  split
  · exact h
  · rename_i i c hc
    obtain ⟨j, -, hc⟩ := Option.bind_eq_some_iff.mp hc
    obtain ⟨d, hd, hc⟩ := Option.map_eq_some_iff.mp hc
    cases hc
    exact h.set ((h.conns _ (List.mem_of_getElem? hd)).shutdown isInLoopThread)

theorem Prepared.newConnection {sockfd : Nat} {socket : ClientSocket} (h : Prepared s)
    (ht : s.newConnection sockfd socket = .ok t) : Prepared t := by
  obtain ⟨c, hc, ht⟩ := bind_eq_ok.mp ht
  obtain ⟨d, hd, hup, -⟩ := TcpConnection.connectEstablished_exact
    (c := .new .new socket.ptr sockfd s.writeCompleteCallback) rfl rfl rfl ⟨rfl, rfl⟩
  cases hc.symm.trans hd
  cases ht
  refine ⟨?_, h.poller⟩
  intro e he
  rcases List.mem_append.mp he with hold | hnew
  · exact h.conns e hold
  · rw [List.mem_singleton.mp hnew]
    exact .inl hup

theorem Prepared.removeConnection {i : Nat} {c : ClientConnection} {r : ConnectResult}
    (h : Prepared s) (hc : UpOrDown c.conn) (ht : s.removeConnection i c r = .ok t) :
    Prepared t := by
  have hset := h.set (i := i) (c := { c with conn := c.conn.queueInLoop true .connectDestroyed })
    (hc.queueInLoop true .connectDestroyed)
  unfold TcpClient.removeConnection at ht
  dsimp only at ht
  split at ht
  · obtain ⟨connector, hconnector, ht⟩ := bind_eq_ok.mp ht
    cases ht
    exact ⟨hset.conns, Connector.startInLoop_roomy (c := { s.connector with
      state := .kConnecting, retryDelayMs := Connector.kInitRetryDelayMs }) h.poller hconnector⟩
  · cases ht
    exact ⟨hset.conns, h.poller⟩

theorem step_prepared (hcallback : KeepsConnection messageCallback) (s : TcpClient) (a : Step)
    (t : TcpClient) (h : Prepared s) (ht : step messageCallback s a = .ok t) : Prepared t := by
  cases a with
  | connect r =>
    simp only [step] at ht
    split at ht
    · obtain ⟨connector, hconnector, ht⟩ := bind_eq_ok.mp ht
      cases ht
      exact ⟨h.conns, Connector.startInLoop_roomy (c := { s.connector with connect_ := true })
        h.poller hconnector⟩
    · cases ht
      exact h
  | disconnect =>
    cases ht
    have hstored : Prepared { s with connect_ := false } := ⟨h.conns, h.poller⟩
    exact hstored.shutdown true
  | stop =>
    cases ht
    exact ⟨h.conns, Connector.queueInLoop_roomy h.poller true .stopInLoop⟩
  | enableRetry =>
    cases ht
    exact ⟨h.conns, h.poller⟩
  | store connect_ =>
    cases ht
    exact ⟨h.conns, h.poller⟩
  | shutdown =>
    cases ht
    exact h.shutdown false
  | connector a socket =>
    obtain ⟨connector, hconnector, ht⟩ := bind_eq_ok.mp ht
    have hnext : Prepared { s with connector := connector } :=
      ⟨h.conns, Connector.step_roomy h.poller hconnector⟩
    dsimp only at ht
    split at ht
    · exact hnext.newConnection ht
    · cases ht
      exact hnext
  | connection i a r =>
    change s.onConnection messageCallback i a r = .ok t at ht
    unfold onConnection at ht
    split at ht
    · cases ht
      exact h
    · rename_i c hc
      obtain ⟨conn, hconn, ht⟩ := bind_eq_ok.mp ht
      have hkeep := connectionStep_upOrDown hcallback (h.conns c (List.mem_of_getElem? hc)) hconn
      have hnext := h.set (i := i) (c := { c with conn := conn }) hkeep
      dsimp only at ht
      split at ht
      · exact hnext.removeConnection hkeep ht
      · cases ht
        exact hnext

theorem new_prepared (memory : ClientMemory) (nameArg : Bytes) (writeCompleteCallback : Bool) :
    Prepared (new memory nameArg writeCompleteCallback) :=
  ⟨fun _ hc => absurd hc List.not_mem_nil, 0, fun _ _ => ⟨rfl, rfl⟩⟩

theorem handedOver_eq_none {c d : Connector} {outcomes : List Outcome}
    (h : d.outcomes = c.outcomes ++ outcomes) (hnew : ∀ fd, .newConnection fd ∉ outcomes) :
    handedOver c d = none := by
  rw [handedOver, h, List.drop_left, List.findSome?_eq_none_iff]
  intro outcome hmem
  cases outcome with
  | newConnection sockfd => exact absurd hmem (hnew sockfd)
  | _ => rfl

end TcpClient

/-! ### Retry timers that expire -/

namespace Connector

variable {c : Connector} {r : ConnectResult}

/-- A retry timer expires, and the attempt, if there is one, is given up at once. -/
theorem expire_fails (htimers : 0 < c.retryTimers) (hfresh : c.Fresh r)
    (herrno : r.savedErrno = some .EACCES) :
    ∃ outcomes, c.step (.retryTimer r) = .ok { c with
        retryTimers := c.retryTimers - 1, outcomes := c.outcomes ++ outcomes } ∧
      ∀ fd, .newConnection fd ∉ outcomes := by
  rw [step, if_pos ⟨htimers, hfresh⟩, act, startInLoop]
  split
  · refine ⟨[.close r.sockfd], ?_, by simp⟩
    rw [connect, herrno]
    rfl
  · refine ⟨[], ?_, by simp⟩
    rw [List.append_nil]

/-- A retry timer expires, and a socket is opened. -/
theorem expire_opens (htimers : 0 < c.retryTimers) (hfresh : c.Fresh r)
    (herrno : r.savedErrno = none) (hconnect : c.connect_ = true) (hchannel : c.channel = none) :
    ∃ d, c.step (.retryTimer r) = .ok d ∧ d.retryTimers = c.retryTimers - 1 ∧
      d.channel.isSome = true ∧ d.outcomes = c.outcomes := by
  obtain ⟨hunknown, habsent⟩ := hfresh
  have hnew : c.loop.poller.Tracks (.new r.ptr r.sockfd) := ⟨hunknown, habsent⟩
  obtain ⟨channel, loop, hupdate, -⟩ := Channel.update_spec hnew
    (Channel.kNoneEvent ||| Channel.kWriteEvent)
  have henable : Channel.enableWriting (.new r.ptr r.sockfd) c.loop = .ok (channel, loop) := hupdate
  refine ⟨{ c with
    retryTimers := c.retryTimers - 1, state := .kConnecting, channel := some channel,
    loop := loop }, ?_, rfl, rfl, rfl⟩
  rw [step, if_pos ⟨htimers, hunknown, habsent⟩, act, startInLoop, if_pos hconnect, connect, herrno]
  show connecting { c with retryTimers := c.retryTimers - 1 } r.sockfd r.ptr = _
  rw [connecting]
  dsimp only
  rw [hchannel, Option.isNone_none, check_true, ok_bind, henable]
  rfl

/-- A step of the loop, and not a call of the owner. -/
def Step.IsLoops : Step → Prop
  | .retryTimer _ | .event .. | .functor _ => True
  | .start _ | .stop | .store _ | .queue _ => False

/-- With no channel, nothing queued and `connect_` not set, a connector only uses up its timers. -/
theorem step_settled {a : Step} (ha : a.IsLoops) (hchannel : c.channel = none)
    (hfunctors : c.loop.pendingFunctors = []) (hconnect : c.connect_ = false) :
    ∃ n, c.step a = .ok { c with retryTimers := n } := by
  unfold step
  split
  · rename_i hpossible
    cases a with
    | retryTimer r =>
      refine ⟨c.retryTimers - 1, ?_⟩
      rw [act, startInLoop, if_neg (by simp [hconnect])]
    | event revents s =>
      change c.attempt.isSome = true at hpossible
      rw [attempt_of_unset hchannel] at hpossible
      cases hpossible
    | functor r =>
      refine ⟨c.retryTimers, ?_⟩
      rw [act, runPending, hfunctors]
    | _ => cases ha
  · exact ⟨c.retryTimers, rfl⟩

end Connector

/-! ### After the destruction -/

namespace ClientRemains

variable {t u : ClientRemains} {messageCallback : TcpConnection → Except Fault TcpConnection}

open TcpClient (handedOver)
open TcpConnection (KeepsConnection)

theorem releaseConnector_of_held (h : t.connector.retryTimers ≠ 0) :
    t.releaseConnector = .ok t := by
  rw [releaseConnector, if_neg h]

theorem releaseConnector_of_set (htimers : t.connector.retryTimers = 0)
    (hchannel : t.connector.channel.isSome = true) :
    t.releaseConnector = .error .channelSet := by
  rw [releaseConnector, if_pos htimers, if_pos hchannel]

theorem releaseConnector_of_unset (h : t.connector.channel = none) :
    t.releaseConnector =
      .ok { t with released := t.released || t.connector.retryTimers == 0 } := by
  rw [releaseConnector, h]
  by_cases htimers : t.connector.retryTimers = 0
  · simp [htimers]
  · have hheld : (t.connector.retryTimers == 0) = false := by simp [htimers]
    rw [if_neg htimers, hheld, Bool.or_false]

theorem onConnector_eq {a : Connector.Step} {d : Connector} (hreleased : t.released = false)
    (h : t.connector.step a = .ok d) (hnone : handedOver t.connector d = none) :
    t.onConnector a = releaseConnector { t with connector := d } := by
  rw [onConnector, hreleased]
  simp only [Bool.false_eq_true, if_false, h, hnone, Option.isSome_none]

/-! ### Steps that use what is gone -/

/-- Some run of what is left fails, and not in a function that is still there. -/
def Misuses (messageCallback : TcpConnection → Except Fault TcpConnection)
    (x : Except RemainsFault ClientRemains) : Prop :=
  ∃ later e, (x >>= fun t => run (step messageCallback) t later) = .error e ∧ ∀ f, e ≠ .fault f

/-- The retry timers expire one after the other, up to the last. -/
theorem expire_all_but_one (messageCallback : TcpConnection → Except Fault TcpConnection) (n : Nat)
    (hreleased : t.released = false) (hroomy : t.connector.Roomy)
    (htimers : t.connector.retryTimers = n + 1) :
    ∃ later outcomes, run (step messageCallback) t later = .ok { t with
      connector := { t.connector with retryTimers := 1, outcomes := outcomes } } := by
  induction n generalizing t with
  | zero =>
    refine ⟨[], t.connector.outcomes, ?_⟩
    rw [Nat.zero_add] at htimers
    rw [run_nil, ← htimers]
  | succ n ih =>
    obtain ⟨r, hfresh, herrno⟩ := hroomy.fresh (some .EACCES)
    obtain ⟨outcomes, hexpire, hnew⟩ := Connector.expire_fails (by omega) hfresh herrno
    have hleft : t.connector.retryTimers - 1 = n + 1 := by omega
    have hstep : step messageCallback t (.retryTimer r) = .ok { t with
        connector := { t.connector with
          retryTimers := n + 1, outcomes := t.connector.outcomes ++ outcomes } } := by
      rw [hleft] at hexpire
      refine (onConnector_eq hreleased hexpire (TcpClient.handedOver_eq_none rfl hnew)).trans ?_
      exact releaseConnector_of_held (Nat.succ_ne_zero n)
    obtain ⟨later, all, hlater⟩ := ih (t := { t with connector := { t.connector with
      retryTimers := n + 1, outcomes := t.connector.outcomes ++ outcomes } }) hreleased hroomy rfl
    exact ⟨.retryTimer r :: later, all, run_cons_ok.mpr ⟨_, hstep, hlater⟩⟩

/-- A connector that is destroyed with its channel set, or with functors queued. -/
theorem misused_of_release (messageCallback : TcpConnection → Except Fault TcpConnection)
    (htimers : t.connector.retryTimers = 0)
    (hleft : t.connector.channel.isSome = true ∨ t.connector.loop.pendingFunctors ≠ []) :
    Misuses messageCallback t.releaseConnector := by
  cases hchannel : t.connector.channel with
  | some channel =>
    refine ⟨[], .channelSet, ?_, by simp⟩
    rw [releaseConnector_of_set htimers (by rw [hchannel]; rfl), error_bind]
  | none =>
    have hfunctors : t.connector.loop.pendingFunctors ≠ [] :=
      hleft.resolve_left (by simp [hchannel])
    refine ⟨[.functor ⟨0, 0, none⟩], .connectorGone, ?_, by simp⟩
    rw [releaseConnector_of_unset hchannel, ok_bind, run_singleton, step]
    simp [htimers, hfunctors]

/-- The retry timers that hold such a connector expire. -/
theorem misused_of_left (hreleased : t.released = false) (hroomy : t.connector.Roomy)
    (hleft : t.connector.channel.isSome = true ∨ t.connector.loop.pendingFunctors ≠ []) :
    Misuses messageCallback t.releaseConnector := by
  cases hn : t.connector.retryTimers with
  | zero => exact misused_of_release messageCallback hn hleft
  | succ n =>
    obtain ⟨later, outcomes, hlater⟩ :=
      expire_all_but_one messageCallback n hreleased hroomy hn
    obtain ⟨r, hfresh, herrno⟩ := hroomy.fresh (some .EACCES)
    obtain ⟨more, hexpire, hnew⟩ := Connector.expire_fails
      (c := { t.connector with retryTimers := 1, outcomes := outcomes }) Nat.one_pos hfresh herrno
    obtain ⟨rest, e, hrest, he⟩ := misused_of_release messageCallback
      (t := { t with connector := { t.connector with
        retryTimers := 0, outcomes := outcomes ++ more } }) rfl hleft
    refine ⟨later ++ .retryTimer r :: rest, e, ?_, he⟩
    rw [releaseConnector_of_held (by omega), ok_bind, run_append, hlater, ok_bind, run_cons]
    rw [← hrest]
    congr 1
    exact onConnector_eq hreleased hexpire (TcpClient.handedOver_eq_none rfl hnew)

/-- A retry timer that is left opens a socket, whose channel outlives the connector. -/
theorem misused_of_timers (hreleased : t.released = false) (hroomy : t.connector.Roomy)
    (hchannel : t.connector.channel = none) (htimers : t.connector.retryTimers ≠ 0)
    (hconnect : t.connector.connect_ = true) :
    Misuses messageCallback t.releaseConnector := by
  obtain ⟨n, hn⟩ := Nat.exists_eq_succ_of_ne_zero htimers
  obtain ⟨later, outcomes, hlater⟩ :=
    expire_all_but_one messageCallback n hreleased hroomy hn
  obtain ⟨r, hfresh, herrno⟩ := hroomy.fresh none
  obtain ⟨d, hexpire, hzero, hset, houtcomes⟩ := Connector.expire_opens
    (c := { t.connector with retryTimers := 1, outcomes := outcomes }) Nat.one_pos hfresh herrno
    hconnect hchannel
  refine ⟨later ++ [.retryTimer r], .channelSet, ?_, by simp⟩
  rw [releaseConnector_of_held htimers, ok_bind, run_append, hlater, ok_bind, run_singleton]
  have hnone := TcpClient.handedOver_eq_none (houtcomes.trans (List.append_nil _).symm) (by simp)
  exact (onConnector_eq (t := { t with connector := { t.connector with
    retryTimers := 1, outcomes := outcomes } }) hreleased hexpire hnone).trans
    (releaseConnector_of_set hzero hset)

/-! ### Remains that use nothing -/

/-- The connector has nothing to do but to let its timers expire, and no connection will call the
close callback of the client. -/
structure Quiet (t : ClientRemains) : Prop where
  channel : t.connector.channel = none
  functors : t.connector.loop.pendingFunctors = []
  timers : t.released = true ∨ t.connector.connect_ = false
  others : ∀ i c, t.conns[i]? = some c → t.redirected ≠ some i → c.conn.state = .kDisconnected

theorem Quiet.release (h : Quiet t) : ∃ u, t.releaseConnector = .ok u ∧ Quiet u := by
  refine ⟨_, releaseConnector_of_unset h.channel, h.channel, h.functors, ?_, h.others⟩
  exact h.timers.imp (fun hreleased => by simp [hreleased]) id

theorem Quiet.onConnector (h : Quiet t) {a : Connector.Step} (ha : a.IsLoops) :
    ∃ u, t.onConnector a = .ok u ∧ Quiet u := by
  cases hreleased : t.released with
  | true => exact ⟨t, by rw [ClientRemains.onConnector, if_pos hreleased], h⟩
  | false =>
    have hconnect : t.connector.connect_ = false :=
      h.timers.resolve_left (by simp [hreleased])
    obtain ⟨n, hstep⟩ := Connector.step_settled ha h.channel h.functors hconnect
    have hnext : Quiet { t with connector := { t.connector with retryTimers := n } } :=
      ⟨h.channel, h.functors, .inr hconnect, h.others⟩
    rw [onConnector_eq hreleased hstep
      (TcpClient.handedOver_eq_none (List.append_nil _).symm (by simp))]
    exact hnext.release

/-- A connection is changed, and is down unless its close callback has been replaced. -/
theorem Quiet.set (h : Quiet t) {i : Nat} {c : ClientConnection}
    (hc : t.redirected ≠ some i → c.conn.state = .kDisconnected) :
    Quiet { t with conns := t.conns.set i c } := by
  refine ⟨h.channel, h.functors, h.timers, ?_⟩
  intro j d hd hj
  by_cases hij : i = j
  · subst hij
    rw [List.getElem?_set_self'] at hd
    obtain ⟨e, -, rfl⟩ := Option.map_eq_some_iff.mp hd
    exact hc hj
  · rw [List.getElem?_set_ne hij] at hd
    exact h.others j d hd hj

theorem Quiet.onConnection (hcallback : KeepsConnection messageCallback) (h : Quiet t) (i : Nat)
    (a : TcpClient.ConnectionStep) :
    (∃ u, t.onConnection messageCallback i a = .ok u ∧ Quiet u) ∨
      ∃ f, t.onConnection messageCallback i a = .error (.fault f) := by
  unfold ClientRemains.onConnection
  split
  · exact .inl ⟨t, rfl, h⟩
  · rename_i c hc
    split
    · rename_i f _
      exact .inr ⟨f, rfl⟩
    · rename_i conn hconn
      refine .inl ?_
      by_cases hredirected : t.redirected = some i
      · rw [if_pos hredirected]
        split
        · exact ⟨_, rfl, h.set fun hother => absurd hredirected hother⟩
        · exact ⟨_, rfl, h.set fun hother => absurd hredirected hother⟩
      · obtain ⟨hdown, hcalls⟩ :=
          TcpClient.connectionStep_down hcallback (h.others i c hc hredirected) hconn
        rw [if_neg (by omega)]
        exact ⟨_, rfl, h.set fun _ => hdown⟩

theorem Quiet.step (hcallback : KeepsConnection messageCallback) (h : Quiet t) (a : Step) :
    (∃ u, ClientRemains.step messageCallback t a = .ok u ∧ Quiet u) ∨
      ∃ f, ClientRemains.step messageCallback t a = .error (.fault f) := by
  cases a with
  | retryTimer r => exact .inl (h.onConnector trivial)
  | event revents s => exact .inl (h.onConnector trivial)
  | functor r =>
    refine .inl ?_
    simp only [ClientRemains.step]
    split
    · rw [if_pos h.functors]
      exact ⟨t, rfl, h⟩
    · exact h.onConnector trivial
  | connection i a => exact h.onConnection hcallback i a

theorem Quiet.run (hcallback : KeepsConnection messageCallback) (h : Quiet t) {later : List Step}
    {e : RemainsFault} (he : Lib.run (ClientRemains.step messageCallback) t later = .error e) :
    ∃ f, e = .fault f := by
  induction later generalizing t with
  | nil => cases he
  | cons a later ih =>
    rw [run_cons] at he
    obtain ⟨u, hu, hquiet⟩ | ⟨f, hf⟩ := h.step hcallback a
    · rw [hu] at he
      exact ih hquiet he
    · rw [hf] at he
      cases he
      exact ⟨f, rfl⟩

end ClientRemains

namespace TcpClient

variable {s : TcpClient} {messageCallback : TcpConnection → Except Fault TcpConnection}

open TcpConnection (KeepsConnection)

theorem SparesClient.not_misuses {unique : Bool} (h : SparesClient messageCallback s unique) :
    ¬ClientRemains.Misuses messageCallback (s.destroy unique) := by
  rintro ⟨later, e, he, hmisuse⟩
  obtain ⟨f, hf⟩ := h later e he
  exact hmisuse f hf

/-- The destruction leaves the connections but `connection_` as they are. -/
theorem destroy_of_connection {i : Nat} (h : s.connection = some i) (unique : Bool) :
    ∃ conns, s.destroy unique = ClientRemains.releaseConnector ⟨s.connector, false, some i, conns⟩ ∧
      ∀ j, j ≠ i → conns[j]? = s.conns[j]? := by
  rw [destroy, h]
  refine ⟨_, rfl, ?_⟩
  intro j hj
  split
  · simp [hj.symm]
  · rfl

/-- Without a connection the functor that `stop` queues is called after the connector is gone. -/
theorem misuses_of_unset (hprep : Prepared s) (h : s.connection = none) (unique : Bool) :
    ClientRemains.Misuses messageCallback (s.destroy unique) := by
  rw [destroy, h]
  refine ClientRemains.misused_of_left rfl ?_ (.inr ?_)
  · exact Connector.queueInLoop_roomy hprep.poller true .stopInLoop
  · show (s.connector.loop.queueInLoop true .stopInLoop).pendingFunctors ≠ []
    rw [EventLoop.queueInLoop_pendingFunctors]
    simp

/-- Another connection that is up hangs up. -/
theorem misuses_of_up {i j : Nat} {c : ClientConnection} (h : s.connection = some i)
    (hchannel : s.connector.channel = none) (hc : s.conns[j]? = some c) (hj : j ≠ i)
    (hup : TcpConnection.Up c.conn) (unique : Bool) :
    ClientRemains.Misuses messageCallback (s.destroy unique) := by
  obtain ⟨conns, hdestroy, hsame⟩ := destroy_of_connection h unique
  obtain ⟨d, hd, hcalls⟩ := connectionStep_hangUp messageCallback hup (.data []) .failed
  refine ⟨[.connection j (.event POLLHUP (.data []) .failed)], .clientGone, ?_, by simp⟩
  rw [hdestroy, ClientRemains.releaseConnector_of_unset hchannel, ok_bind, run_singleton]
  simp only [ClientRemains.step, ClientRemains.onConnection, hsame j hj, hc, hd]
  rw [if_pos (by omega), if_neg fun hij => hj (Option.some.inj hij).symm]

/-- A callback that answers with a message. -/
theorem keepsConnection_send (msg : Bytes) (preceding : UInt8) (w : WriteResult) :
    KeepsConnection fun c => c.send true msg preceding w := by
  refine ⟨?_, ?_⟩
  · intro c d hup hd
    exact TcpConnection.UpOrDown.send (.inl hup) hd
  · intro c d hdown hd
    rw [TcpConnection.send, if_neg (by simp [hdown])] at hd
    cases hd
    exact ⟨hdown, rfl⟩

/-- The client connects, the socket becomes writable, and the channel of the connector is deleted. -/
def connected : List Step :=
  [.connect ⟨5, 1, some .EINPROGRESS⟩, .connector (.event POLLOUT ⟨false, false⟩) ⟨localPeer, 2⟩,
    .connector (.functor ⟨0, 0, none⟩) ⟨localPeer, 0⟩]

end TcpClient

end Mymuduo
