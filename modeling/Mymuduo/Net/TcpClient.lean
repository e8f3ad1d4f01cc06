import Mymuduo.Lib.Coupled
import Mymuduo.Net.ConnectionStages
import Mymuduo.Net.ConnectorRun
import Mymuduo.Net.TcpServer

/-! A client: its connector and the connections that it has had, one after another.  The connector
and each connection see the loop as their own.  A connection is known by its number in the order in
which they were made. -/

namespace Mymuduo

open Lib

/-- What the memory of a client holds before its construction, in the members to which the
constructor assigns nothing. -/
structure ClientMemory where
  retry_ : Bool
  connect_ : Bool
  nextConnId : Int32
  deriving DecidableEq, Repr

structure ClientConnection where
  name : Bytes
  conn : TcpConnection

/-- A `TcpClient`.  `conns` holds the connections so far, and `restarts` counts the calls of
`Connector::restart`. -/
structure TcpClient where
  connector : Connector
  name : Bytes
  writeCompleteCallback : Bool
  retry_ : Bool
  connect_ : Bool
  nextConnId : Int
  connection : Option Nat
  conns : List ClientConnection
  restarts : Nat

/-- What `newConnection` meets: the address of the peer, and that of the channel that is
allocated. -/
structure ClientSocket where
  peerAddr : InetAddress
  ptr : Nat
  deriving DecidableEq, Repr

namespace TcpClient

/-- `TcpClient::TcpClient`, in some memory. -/
def new (memory : ClientMemory) (nameArg : Bytes) (writeCompleteCallback : Bool) : TcpClient where
  connector := .new .new true
  name := nameArg
  writeCompleteCallback := writeCompleteCallback
  retry_ := memory.retry_
  connect_ := memory.connect_
  nextConnId := memory.nextConnId.toInt
  connection := none
  conns := []
  restarts := 0

/-- The name of the next connection.  `snprintf` has a buffer of 32 bytes for it, the last of them
for the zero byte. -/
def connName (s : TcpClient) (peerAddr : InetAddress) : Bytes :=
  s.name ++ (ofString ":" ++ peerAddr.toIpPort ++ ofString "#" ++ toDecimal s.nextConnId).take 31

def newConnection (s : TcpClient) (sockfd : Nat) (socket : ClientSocket) :
    Except Fault TcpClient := do
  let connName := s.connName socket.peerAddr
  let s := { s with nextConnId := TcpServer.increment s.nextConnId }
  let conn := TcpConnection.new .new socket.ptr sockfd s.writeCompleteCallback
  let s := { s with connection := some s.conns.length }
  let conn ← conn.connectEstablished
  return { s with conns := s.conns ++ [{ name := connName, conn := conn }] }

/-- `removeConnection`, the close callback of connection `i`. -/
def removeConnection (s : TcpClient) (i : Nat) (c : ClientConnection) (r : ConnectResult) :
    Except Fault TcpClient := do
  let s := { s with connection := none }
  let c := { c with conn := c.conn.queueInLoop true .connectDestroyed }
  let s := { s with conns := s.conns.set i c }
  if s.retry_ && s.connect_ then
    let connector ← s.connector.restart r
    return { s with connector := connector, restarts := s.restarts + 1 }
  else
    return s

/-- The socket that a function of the connector has handed over. -/
def handedOver (before after : Connector) : Option Nat :=
  (after.outcomes.drop before.outcomes.length).findSome? fun
    | .newConnection sockfd => some sockfd
    | _ => none

/-- A step of the connector, with its `newConnectionCallback_`. -/
def onConnector (s : TcpClient) (a : Connector.Step) (socket : ClientSocket) :
    Except Fault TcpClient := do
  let connector ← s.connector.step a
  let before := s.connector
  let s := { s with connector := connector }
  match handedOver before connector with
  | some sockfd => s.newConnection sockfd socket
  | none => return s

/-- What happens to a connection: the poller reports events, the functor at the head of its queue is
run, or the user calls one of its functions. -/
inductive ConnectionStep
  | event (revents : Events) (r : Buffer.ReadResult) (w : WriteResult)
  | functor (preceding : UInt8) (w : WriteResult)
  | send (isInLoopThread : Bool) (msg : Bytes) (preceding : UInt8) (w : WriteResult)
  | shutdown (isInLoopThread : Bool)
  | forceClose (isInLoopThread : Bool)

/-- `connection_->shutdown()`, if there is a connection. -/
def shutdown (s : TcpClient) (isInLoopThread : Bool) : TcpClient :=
  match s.connection.bind fun i => s.conns[i]?.map fun c => (i, c) with
  | none => s
  | some (i, c) =>
    { s with conns := s.conns.set i { c with conn := c.conn.shutdown isInLoopThread } }

section

variable (messageCallback : TcpConnection → Except Fault TcpConnection)

/-- The step of a connection.  The poller reports only what the channel is interested in, and errors,
and only for a channel that it has. -/
def connectionStep (c : TcpConnection) : ConnectionStep → Except Fault TcpConnection
  | .event revents r w =>
    if c.loop.poller.hasChannel c.channel && !c.channel.isNoneEvent then do
      let (_, c) ← TcpConnection.handleEvent (TcpConnection.withContext messageCallback) revents r w
        ((), c)
      return c
    else
      return c
  | .functor preceding w => c.runPending preceding w
  | .send isInLoopThread msg preceding w => c.send isInLoopThread msg preceding w
  | .shutdown isInLoopThread => .ok (c.shutdown isInLoopThread)
  | .forceClose isInLoopThread => .ok (c.forceClose isInLoopThread)

/-- A step of connection `i`, with its close callback; `r` is what a `connect` in that meets. -/
def onConnection (s : TcpClient) (i : Nat) (a : ConnectionStep) (r : ConnectResult) :
    Except Fault TcpClient :=
  match s.conns[i]? with
  | none => .ok s
  | some c => do
    let conn ← connectionStep messageCallback c.conn a
    let before := c.conn
    let c := { c with conn := conn }
    let s := { s with conns := s.conns.set i c }
    if before.closeCalls < conn.closeCalls then s.removeConnection i c r else return s

/-- What the user of a client calls, and what happens to its connector and its connections.  A call
on the loop's thread is one step.  On another thread, `connect`, `disconnect` and `stop` first store
`connect_` and go on with the connector or the connection later.  A step with a new socket can be
taken only if the poller does not have its descriptor. -/
inductive Step
  | connect (r : ConnectResult)
  | disconnect
  | stop
  | enableRetry
  | store (connect_ : Bool)
  | shutdown
  | connector (a : Connector.Step) (socket : ClientSocket)
  | connection (i : Nat) (a : ConnectionStep) (r : ConnectResult)

def step (s : TcpClient) : Step → Except Fault TcpClient
  | .connect r =>
    if s.connector.Possible (.start r) then do
      let s := { s with connect_ := true }
      let connector ← s.connector.start true r
      return { s with connector := connector }
    else
      return s
  | .disconnect => .ok (shutdown { s with connect_ := false } true)
  | .stop => .ok { s with connect_ := false, connector := s.connector.stop true }
  | .enableRetry => .ok { s with retry_ := true }
  | .store connect_ => .ok { s with connect_ := connect_ }
  | .shutdown => .ok (s.shutdown false)
  | .connector a socket => s.onConnector a socket
  | .connection i a r => s.onConnection messageCallback i a r

/-- The names of the connections, in the order in which they were made. -/
def names (s : TcpClient) : List Bytes := s.conns.map ClientConnection.name

/-! ### Two runs -/

/-- Two runs that return alike, with connections of the same names, and without a restart. -/
def SameRun (x y : Except Fault TcpClient) : Prop :=
  x.map names = y.map names ∧ ∀ s, x = .ok s ∨ y = .ok s → s.restarts = 0

variable {messageCallback}

/-- Two clients that differ only in `connect_`, which is not read while `retry_` is not set. -/
structure Alike (s t : TcpClient) : Prop where
  same : ∃ connect_, t = { s with connect_ := connect_ }
  retry_ : s.retry_ = false
  restarts : s.restarts = 0

theorem Alike.names {s t : TcpClient} (h : Alike s t) : t.names = s.names := by
  obtain ⟨connect_, rfl⟩ := h.same
  rfl

theorem sameRun_of_alike {x y : Except Fault TcpClient} (h : Coupled Alike x y) : SameRun x y := by
  refine ⟨h.map_eq fun s t hst => hst.names.symm, ?_⟩
  cases h with
  | error e => rintro s (h | h) <;> cases h
  | ok h =>
    obtain ⟨connect_, rfl⟩ := h.same
    rintro u (hu | hu) <;> cases hu <;> exact h.restarts

theorem alike_newConnection {s t : TcpClient} (h : Alike s t) (sockfd : Nat)
    (socket : ClientSocket) :
    Coupled Alike (s.newConnection sockfd socket) (t.newConnection sockfd socket) := by
  obtain ⟨connect_, rfl⟩ := h.same
  unfold newConnection connName
  dsimp only
  cases TcpConnection.connectEstablished
    (TcpConnection.new .new socket.ptr sockfd s.writeCompleteCallback) with
  | error e => exact .error e
  | ok conn => exact .ok ⟨⟨_, rfl⟩, h.retry_, h.restarts⟩

theorem alike_onConnector {s t : TcpClient} (h : Alike s t) (a : Connector.Step)
    (socket : ClientSocket) : Coupled Alike (s.onConnector a socket) (t.onConnector a socket) := by
  obtain ⟨connect_, rfl⟩ := h.same
  unfold onConnector
  dsimp only
  cases s.connector.step a with
  | error e => exact .error e
  | ok connector =>
    have hnext : Alike { s with connector := connector }
        { s with connector := connector, connect_ := connect_ } := ⟨⟨_, rfl⟩, h.retry_, h.restarts⟩
    dsimp only [ok_bind]
    cases handedOver s.connector connector with
    | none => exact .ok hnext
    | some sockfd => exact alike_newConnection hnext sockfd socket

/-- With `retry_` not set, a connection that has been closed is not made again. -/
theorem alike_removeConnection {s t : TcpClient} (h : Alike s t) (i : Nat) (c : ClientConnection)
    (r : ConnectResult) : Coupled Alike (s.removeConnection i c r) (t.removeConnection i c r) := by
  obtain ⟨connect_, rfl⟩ := h.same
  unfold removeConnection
  dsimp only
  rw [h.retry_]
  exact .ok ⟨⟨_, rfl⟩, rfl, h.restarts⟩

theorem alike_onConnection {s t : TcpClient} (h : Alike s t) (i : Nat) (a : ConnectionStep)
    (r : ConnectResult) :
    Coupled Alike (s.onConnection messageCallback i a r) (t.onConnection messageCallback i a r) := by
  obtain ⟨connect_, rfl⟩ := h.same
  unfold onConnection
  dsimp only
  cases s.conns[i]? with
  | none => exact .ok h
  | some c =>
    dsimp only
    cases connectionStep messageCallback c.conn a with
    | error e => exact .error e
    | ok conn =>
      dsimp only [ok_bind]
      let c' : ClientConnection := { c with conn := conn }
      have hnext : Alike { s with conns := s.conns.set i c' }
          { s with conns := s.conns.set i c', connect_ := connect_ } :=
        ⟨⟨_, rfl⟩, h.retry_, h.restarts⟩
      split
      · exact alike_removeConnection hnext i c' r
      · exact .ok hnext

/-- `shutdown` neither reads nor changes `connect_`. -/
theorem shutdown_frame (s : TcpClient) (isInLoopThread : Bool) : ∃ conns, ∀ connect_,
    shutdown { s with connect_ := connect_ } isInLoopThread =
      { s with conns := conns, connect_ := connect_ } := by
  unfold shutdown
  dsimp only
  cases s.connection.bind fun i => s.conns[i]?.map fun c => (i, c) with
  | none => exact ⟨s.conns, fun _ => rfl⟩
  | some p => exact ⟨_, fun _ => rfl⟩

theorem alike_step (s t : TcpClient) (a : Step) (h : Alike s t) (ha : a ≠ .enableRetry) :
    Coupled Alike (step messageCallback s a) (step messageCallback t a) := by
  cases a with
  | connect r =>
    obtain ⟨connect_, rfl⟩ := h.same
    unfold step
    dsimp only
    split
    · cases s.connector.start true r with
      | error e => exact .error e
      | ok connector => exact .ok ⟨⟨_, rfl⟩, h.retry_, h.restarts⟩
    · exact .ok h
  | disconnect =>
    obtain ⟨connect_, rfl⟩ := h.same
    obtain ⟨conns, hshutdown⟩ := s.shutdown_frame true
    rw [step, step, hshutdown]
    exact .ok ⟨⟨_, rfl⟩, h.retry_, h.restarts⟩
  | stop =>
    obtain ⟨connect_, rfl⟩ := h.same
    exact .ok ⟨⟨_, rfl⟩, h.retry_, h.restarts⟩
  | enableRetry => exact absurd rfl ha
  | store connect_ =>
    obtain ⟨connect_, rfl⟩ := h.same
    exact .ok ⟨⟨_, rfl⟩, h.retry_, h.restarts⟩
  | shutdown =>
    obtain ⟨connect_, rfl⟩ := h.same
    obtain ⟨conns, hshutdown⟩ := s.shutdown_frame false
    rw [step, step, hshutdown connect_, show s.shutdown false = _ from hshutdown s.connect_]
    exact .ok ⟨⟨_, rfl⟩, h.retry_, h.restarts⟩
  | connector a socket => exact alike_onConnector h a socket
  | connection i a r => exact alike_onConnection h i a r

/-! ### A connection that is made and closed -/

variable (messageCallback) in
/-- The peer of an established connection hangs up. -/
theorem connectionStep_hangUp {c : TcpConnection} (hup : TcpConnection.Up c)
    (r : Buffer.ReadResult) (w : WriteResult) :
    ∃ d, connectionStep messageCallback c (.event POLLHUP r w) = .ok d ∧
      d.closeCalls = c.closeCalls + 1 := by
  have hchannel : c.loop.poller.hasChannel c.channel = true := by
    have htracks := hup.tracks
    simp only [EPollPoller.Tracks, hup.index] at htracks
    simp [EPollPoller.hasChannel, htracks.1]
  have hevents : c.channel.isNoneEvent = false := by
    simpa [Channel.isNoneEvent] using hup.events.ne_none
  have hhandling : TcpConnection.Up { c with
      channel := { c.channel with revents := POLLHUP, eventHandling := true } } :=
    ⟨hup.state, hup.index, hup.events, hup.tracks⟩
  obtain ⟨d, hd, -, -, -, hclosed⟩ := hhandling.handleClose
  have hclose : (POLLHUP.has POLLHUP && !POLLHUP.has POLLIN) = true := by decide
  have herror : POLLHUP.has (POLLERR ||| POLLNVAL) = false := by decide
  have hread : POLLHUP.has (POLLIN ||| POLLPRI ||| POLLRDHUP) = false := by decide
  have hwrite : POLLHUP.has POLLOUT = false := by decide
  refine ⟨{ d with channel := { d.channel with eventHandling := false } }, ?_, hclosed⟩
  rw [connectionStep, hchannel, hevents]
  dsimp only [Bool.not_false, Bool.and_true, if_true]
  rw [TcpConnection.handleEvent, Channel.dispatch, hclose, herror, hread, hwrite,
    Channel.callIf_true, TcpConnection.withContext, hd]
  rfl

variable (messageCallback) in
theorem step_connect {s : TcpClient} {k : Connector} {r : ConnectResult}
    (hpossible : s.connector.Possible (.start r)) (h : s.connector.start true r = .ok k) :
    step messageCallback s (.connect r) = .ok { s with connect_ := true, connector := k } := by
  rw [step, if_pos hpossible]
  dsimp only
  rw [h]
  rfl

/-- The connector hands over a socket, and a connection is made for it. -/
theorem onConnector_connects {s : TcpClient} {a : Connector.Step} {k : Connector} {sockfd : Nat}
    {socket : ClientSocket} {c : TcpConnection} (h : s.connector.step a = .ok k)
    (hhanded : handedOver s.connector k = some sockfd)
    (hestablished : TcpConnection.connectEstablished
      (.new .new socket.ptr sockfd s.writeCompleteCallback) = .ok c) :
    s.onConnector a socket = .ok { s with
      connector := k
      nextConnId := TcpServer.increment s.nextConnId
      connection := some s.conns.length
      conns := s.conns ++ [⟨s.connName socket.peerAddr, c⟩] } := by
  rw [onConnector, h, ok_bind]
  dsimp only
  rw [hhanded]
  dsimp only
  rw [newConnection]
  dsimp only
  rw [hestablished]
  rfl

theorem onConnector_keeps {s : TcpClient} {a : Connector.Step} {k : Connector}
    {socket : ClientSocket} (h : s.connector.step a = .ok k)
    (hhanded : handedOver s.connector k = none) :
    s.onConnector a socket = .ok { s with connector := k } := by
  rw [onConnector, h, ok_bind]
  dsimp only
  rw [hhanded]
  rfl

variable (messageCallback) in
/-- The close callback of a connection is called. -/
theorem onConnection_closes {s : TcpClient} {i : Nat} {c : ClientConnection} {a : ConnectionStep}
    {r : ConnectResult} {d : TcpConnection} (hc : s.conns[i]? = some c)
    (h : connectionStep messageCallback c.conn a = .ok d)
    (hclosed : c.conn.closeCalls < d.closeCalls) :
    s.onConnection messageCallback i a r =
      removeConnection { s with conns := s.conns.set i { c with conn := d } } i
        { c with conn := d } r := by
  rw [onConnection, hc]
  dsimp only
  rw [h, ok_bind]
  exact if_pos hclosed

/-- After a close the connection is made again if `retry_` and `connect_` are set. -/
theorem removeConnection_restarts {s : TcpClient} {k : Connector} {r : ConnectResult}
    (h : s.connector.restart r = .ok k) (i : Nat) (c : ClientConnection) :
    ∃ t, s.removeConnection i c r = .ok t ∧
      t.names = (s.conns.set i { c with conn := c.conn.queueInLoop true .connectDestroyed }).map
        ClientConnection.name ∧
      t.restarts = s.restarts + if s.retry_ && s.connect_ then 1 else 0 := by
  rw [removeConnection]
  dsimp only
  split
  · rw [h]
    exact ⟨_, rfl, rfl, rfl⟩
  · exact ⟨_, rfl, rfl, rfl⟩

/-- `127.0.0.1:80` -/
def localPeer : InetAddress := ⟨(127, 0, 0, 1), 80⟩

/-- The client connects, the socket becomes writable, the channel of the connector is deleted, and the
peer closes the connection. -/
def connectAndClose : List Step :=
  [.connect ⟨5, 1, some .EINPROGRESS⟩, .connector (.event POLLOUT ⟨false, false⟩) ⟨localPeer, 2⟩,
    .connector (.functor ⟨0, 0, none⟩) ⟨localPeer, 0⟩,
    .connection 0 (.event POLLHUP (.data []) .failed) ⟨6, 3, some .EINPROGRESS⟩]

variable (messageCallback) in
theorem run_connectAndClose (m : ClientMemory) (nameArg : Bytes) (writeCompleteCallback : Bool) :
    ∃ t, run (step messageCallback) (new m nameArg writeCompleteCallback) connectAndClose = .ok t ∧
      t.names = [(new m nameArg writeCompleteCallback).connName localPeer] ∧
      t.restarts = if m.retry_ then 1 else 0 := by
  -- The connector, up to the deletion of its channel and the next attempt.
  obtain ⟨k₁, k₂, k₃, k₄, hstart, hevent, hhanded, hfunctor, hnone, hrestart⟩ :
      ∃ k₁ k₂ k₃ k₄, (Connector.new .new true).start true ⟨5, 1, some .EINPROGRESS⟩ = .ok k₁ ∧
        k₁.step (.event POLLOUT ⟨false, false⟩) = .ok k₂ ∧ handedOver k₁ k₂ = some 5 ∧
        k₂.step (.functor ⟨0, 0, none⟩) = .ok k₃ ∧ handedOver k₂ k₃ = none ∧
        k₃.restart ⟨6, 3, some .EINPROGRESS⟩ = .ok k₄ :=
    ⟨_, _, _, _, rfl, rfl, rfl, rfl, rfl, rfl⟩
  -- The connection.
  obtain ⟨c, hestablished, hup, -, -, hopen⟩ := TcpConnection.connectEstablished_exact
    (c := .new .new 2 5 writeCompleteCallback) rfl rfl rfl ⟨rfl, rfl⟩
  obtain ⟨d, hhangUp, hclosed⟩ := connectionStep_hangUp messageCallback hup (.data []) .failed
  have hless : c.closeCalls < d.closeCalls := by omega
  let s := new m nameArg writeCompleteCallback
  let conn : ClientConnection := ⟨s.connName localPeer, c⟩
  let s₁ : TcpClient := { s with connect_ := true, connector := k₁ }
  let s₂ : TcpClient := { s₁ with
    connector := k₂, nextConnId := TcpServer.increment s.nextConnId, connection := some 0
    conns := [conn] }
  let s₃ : TcpClient := { s₂ with connector := k₃ }
  have h₁ : step messageCallback s (.connect ⟨5, 1, some .EINPROGRESS⟩) = .ok s₁ :=
    step_connect messageCallback ⟨rfl, rfl⟩ hstart
  have h₂ : step messageCallback s₁ (.connector (.event POLLOUT ⟨false, false⟩) ⟨localPeer, 2⟩) =
      .ok s₂ := onConnector_connects hevent hhanded hestablished
  have h₃ : step messageCallback s₂ (.connector (.functor ⟨0, 0, none⟩) ⟨localPeer, 0⟩) =
      .ok s₃ := onConnector_keeps hfunctor hnone
  let u : TcpClient := { s₃ with conns := [{ conn with conn := d }] }
  have h₄ : step messageCallback s₃
      (.connection 0 (.event POLLHUP (.data []) .failed) ⟨6, 3, some .EINPROGRESS⟩) =
      u.removeConnection 0 { conn with conn := d } ⟨6, 3, some .EINPROGRESS⟩ :=
    onConnection_closes messageCallback (s := s₃) (i := 0) (c := conn) rfl hhangUp hless
  obtain ⟨t, ht, hnames, hrestarts⟩ :=
    removeConnection_restarts (s := u) hrestart 0 { conn with conn := d }
  refine ⟨t, ?_, hnames, ?_⟩
  · rw [connectAndClose, run_cons, h₁, ok_bind, run_cons, h₂, ok_bind, run_cons, h₃, ok_bind,
      run_singleton, h₄, ht]
  · have hboth : (u.retry_ && u.connect_) = m.retry_ := Bool.and_true _
    rw [hrestarts, hboth]
    exact Nat.zero_add _

/-- With a short address, the name says the number of the connection. -/
theorem connName_localPeer {m m' : ClientMemory} {nameArg : Bytes} {writeCompleteCallback : Bool}
    (h : (new m nameArg writeCompleteCallback).connName localPeer =
      (new m' nameArg writeCompleteCallback).connName localPeer) : m.nextConnId = m'.nextConnId := by
  have hfits : ∀ n : Int32,
      (ofString ":" ++ localPeer.toIpPort ++ ofString "#" ++ toDecimal n.toInt).take 31 =
        ofString ":" ++ localPeer.toIpPort ++ ofString "#" ++ toDecimal n.toInt := by
    intro n
    apply List.take_of_length_le
    have hpeer : (ofString ":" ++ localPeer.toIpPort ++ ofString "#").length = 14 := by decide
    have hlow := n.le_toInt
    have hhigh := n.toInt_lt
    have hdigits : (toDecimal n.toInt).length ≤ 11 := length_toDecimal_le (by decide) (by omega)
    rw [List.length_append, hpeer]
    omega
  rw [connName, connName] at h
  have hsuffix := List.append_cancel_left h
  change (ofString ":" ++ localPeer.toIpPort ++ ofString "#" ++ toDecimal m.nextConnId.toInt).take
    31 = (ofString ":" ++ localPeer.toIpPort ++ ofString "#" ++
      toDecimal m'.nextConnId.toInt).take 31 at hsuffix
  rw [hfits, hfits] at hsuffix
  exact Int32.toInt_inj.mp (toDecimal_injective (List.append_cancel_left hsuffix))

/-- Two clients on which `enableRetry` is not called, constructed in different memory: all their runs
are the same exactly if `retry_` happens not to be set in either, and `nextConnId_` happens to be the
same number in both. -/
theorem same_run_iff (m m' : ClientMemory) (nameArg : Bytes) (writeCompleteCallback : Bool) :
    (∀ steps : List Step, (∀ a ∈ steps, a ≠ .enableRetry) →
      SameRun (run (step messageCallback) (new m nameArg writeCompleteCallback) steps)
        (run (step messageCallback) (new m' nameArg writeCompleteCallback) steps)) ↔
    m.retry_ = false ∧ m'.retry_ = false ∧ m.nextConnId = m'.nextConnId := by
  constructor
  · intro h
    have hsteps : ∀ a ∈ connectAndClose, a ≠ .enableRetry := by simp [connectAndClose]
    obtain ⟨hnames, hrestarts⟩ := h connectAndClose hsteps
    obtain ⟨t, ht, htnames, htrestarts⟩ := run_connectAndClose messageCallback m nameArg
      writeCompleteCallback
    obtain ⟨u, hu, hunames, hurestarts⟩ := run_connectAndClose messageCallback m' nameArg
      writeCompleteCallback
    have hm := hrestarts t (.inl ht)
    have hm' := hrestarts u (.inr hu)
    rw [htrestarts] at hm
    rw [hurestarts] at hm'
    rw [ht, hu] at hnames
    have hsame := (htnames.symm.trans (Except.ok.inj hnames)).trans hunames
    exact ⟨by simpa using hm, by simpa using hm', connName_localPeer (List.singleton_inj.mp hsame)⟩
  · rintro ⟨hretry, hretry', hid⟩ steps hsteps
    refine sameRun_of_alike (.run alike_step ⟨⟨m'.connect_, ?_⟩, hretry, rfl⟩ hsteps)
    rw [new, new, hretry, hretry', hid]

/-- The second memory holds another number, and has `retry_` set. -/
theorem memory_decides : ∃ t u,
    run (step .ok) (new ⟨false, false, 1⟩ (ofString "client") false) connectAndClose = .ok t ∧
    run (step .ok) (new ⟨true, false, 7⟩ (ofString "client") false) connectAndClose = .ok u ∧
    t.names = [ofString "client:127.0.0.1:80#1"] ∧ t.restarts = 0 ∧
    u.names = [ofString "client:127.0.0.1:80#7"] ∧ u.restarts = 1 := by
  obtain ⟨t, ht, htnames, htrestarts⟩ :=
    run_connectAndClose .ok ⟨false, false, 1⟩ (ofString "client") false
  obtain ⟨u, hu, hunames, hurestarts⟩ :=
    run_connectAndClose .ok ⟨true, false, 7⟩ (ofString "client") false
  have hone : (new ⟨false, false, 1⟩ (ofString "client") false).connName localPeer =
      ofString "client:127.0.0.1:80#1" := by decide
  have hseven : (new ⟨true, false, 7⟩ (ofString "client") false).connName localPeer =
      ofString "client:127.0.0.1:80#7" := by decide
  rw [hone] at htnames
  rw [hseven] at hunames
  exact ⟨t, u, ht, hu, htnames, htrestarts, hunames, hurestarts⟩

end

end TcpClient

end Mymuduo
