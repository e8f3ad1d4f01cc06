import Mymuduo.Net.Buffer
import Mymuduo.Net.EventLoop

/-! A TCP connection: its state, its channel and its two buffers, with the functions that run in
its loop.  What the kernel does is an argument of the function that asks it; what the user and the
owner of the connection are told is recorded in the connection. -/

namespace Mymuduo

open Lib

/-- `TcpConnection::StateE` -/
inductive StateE
  | kDisconnected
  | kConnecting
  | kConnected
  | kDisconnecting
  deriving DecidableEq, Repr

/-- What `::write` does: the kernel accepts some bytes, or the call returns -1. -/
inductive WriteResult
  | accepted (n : Nat)
  | failed
  deriving DecidableEq, Repr

/-- The value that `::write` returns for a request of `len` bytes.  The kernel accepts no more than
it is asked to write. -/
def WriteResult.ret (r : WriteResult) (len : Nat) : Int :=
  match r with
  | .accepted n => min n len
  | .failed => -1

/-- The `len` bytes of memory from `data() + offset`, for a string whose bytes are `message` and
which the byte `preceding` comes before in memory. -/
def bytesAt (preceding : UInt8) (message : Bytes) (offset : Int) (len : Nat) : Bytes :=
  ((preceding :: message).drop (offset + 1).toNat).take len

/-- The kernel's side of a connected socket: the bytes it has accepted so far, and how often the
socket was shut down. -/
structure Socket where
  written : Bytes
  shutdowns : Nat
  deriving DecidableEq, Repr

/-- The functors that a connection queues in its loop. -/
inductive TcpFunctor
  | sendInLoop (message : Bytes)
  | shutdownInLoop
  | forceCloseInLoop
  | connectDestroyed
  | writeCompleteCallback
  deriving DecidableEq, Repr

/-- A `TcpConnection` and its loop.  `connectionCalls` holds what `connected()` was at each call of
`connectionCallback_`, and `closeCalls` counts the calls of `closeCallback_`. -/
structure TcpConnection where
  loop : EventLoop TcpFunctor
  state : StateE
  socket : Socket
  channel : Channel
  writeCompleteCallback : Bool
  inputBuffer : Buffer
  outputBuffer : Buffer
  connectionCalls : List Bool
  closeCalls : Nat

namespace TcpConnection

/-- `TcpConnection::TcpConnection`, for a socket with descriptor `fd`. -/
def new (loop : EventLoop TcpFunctor) (ptr fd : Nat) (writeCompleteCallback : Bool) :
    TcpConnection where
  loop := loop
  state := .kConnecting
  socket := { written := [], shutdowns := 0 }
  channel := .new ptr fd
  writeCompleteCallback := writeCompleteCallback
  inputBuffer := .new kInitialSize
  outputBuffer := .new kInitialSize
  connectionCalls := []
  closeCalls := 0

def connected (c : TcpConnection) : Bool := c.state == .kConnected

/-- A call on `channel_`, which reaches the loop's poller. -/
def onChannel (c : TcpConnection)
    (f : Channel → EventLoop TcpFunctor → Except Fault (Channel × EventLoop TcpFunctor)) :
    Except Fault TcpConnection := do
  let (channel, loop) ← f c.channel c.loop
  return { c with channel := channel, loop := loop }

def queueInLoop (c : TcpConnection) (isInLoopThread : Bool) (cb : TcpFunctor) : TcpConnection :=
  { c with loop := c.loop.queueInLoop isInLoopThread cb }

def callConnectionCallback (c : TcpConnection) : TcpConnection :=
  { c with connectionCalls := c.connectionCalls ++ [c.connected] }

/-- `writeCompleteCallback_`, if the user has set one, is queued. -/
def queueWriteComplete (c : TcpConnection) : TcpConnection :=
  if c.writeCompleteCallback then c.queueInLoop true .writeCompleteCallback else c

/-- `::write(channel_->fd(), data)` -/
def write (c : TcpConnection) (data : Bytes) (r : WriteResult) : TcpConnection :=
  { c with socket :=
      { c.socket with written := c.socket.written ++ data.take (r.ret data.length).toNat } }

/-- The first half of `sendInLoop`: with nothing pending the message is written directly.  Returns
`n` and `remain` as well. -/
def writeDirectly (c : TcpConnection) (message : Bytes) (r : WriteResult) :
    TcpConnection × Int × Int :=
  if !c.channel.isWriting && c.outputBuffer.readableBytes == 0 then
    let n := r.ret message.length
    let c := c.write message r
    if 0 ≤ n then
      let remain := message.length - n
      let c := if remain = 0 then c.queueWriteComplete else c
      (c, n, remain)
    else
      (c, n, message.length)
  else
    (c, 0, message.length)

/-- `sendInLoop`; `preceding` is the byte of memory before `message.data()`. -/
def sendInLoop (c : TcpConnection) (message : Bytes) (preceding : UInt8) (r : WriteResult) :
    Except Fault TcpConnection :=
  if c.state = .kDisconnected then
    .ok c
  else
    let (c, n, remain) := c.writeDirectly message r
    if 0 < remain then do
      let outputBuffer ← c.outputBuffer.append (bytesAt preceding message n remain.toNat)
      let c := { c with outputBuffer := outputBuffer }
      if c.channel.isWriting then .ok c else c.onChannel Channel.enableWriting
    else
      .ok c

/-- `send(msg)`, on the loop thread or on another one. -/
def send (c : TcpConnection) (isInLoopThread : Bool) (msg : Bytes) (preceding : UInt8)
    (r : WriteResult) : Except Fault TcpConnection :=
  if c.state = .kConnected then
    if isInLoopThread then c.sendInLoop msg preceding r
    else .ok (c.queueInLoop false (.sendInLoop msg))
  else
    .ok c

/-- `send(&outputBuffer_)` on the loop thread, as the user calls it on the connection's own
buffer. -/
def sendOutputBuffer (c : TcpConnection) (preceding : UInt8) (r : WriteResult) :
    Except Fault TcpConnection :=
  if c.state = .kConnected then do
    let (msg, outputBuffer) ← c.outputBuffer.retrieveAllAsString
    sendInLoop { c with outputBuffer := outputBuffer } msg preceding r
  else
    .ok c

def shutdownInLoop (c : TcpConnection) : TcpConnection :=
  if !c.channel.isWriting then
    { c with socket := { c.socket with shutdowns := c.socket.shutdowns + 1 } }
  else
    c

def shutdown (c : TcpConnection) (isInLoopThread : Bool) : TcpConnection :=
  if c.state = .kConnected then
    let c := { c with state := .kDisconnecting }
    if isInLoopThread then c.shutdownInLoop else c.queueInLoop false .shutdownInLoop
  else
    c

def connectEstablished (c : TcpConnection) : Except Fault TcpConnection := do
  check .connectEstablished (c.state == .kConnecting)
  let c := { c with state := .kConnected }
  let c := { c with channel := { c.channel with tied := true } }
  let c ← c.onChannel Channel.enableReading
  return c.callConnectionCallback

def connectDestroyed (c : TcpConnection) : Except Fault TcpConnection := do
  let c ←
    if c.state = .kConnected then do
      let c ← onChannel { c with state := .kDisconnected } Channel.disableAll
      pure c.callConnectionCallback
    else
      pure c
  c.onChannel Channel.remove

def handleClose (c : TcpConnection) : Except Fault TcpConnection := do
  check .handleClose (c.state == .kConnected || c.state == .kDisconnecting)
  let c ← onChannel { c with state := .kDisconnected } Channel.disableAll
  let c := c.callConnectionCallback
  return { c with closeCalls := c.closeCalls + 1 }

/-- `forceClose`, called on the loop thread or on another one. -/
def forceClose (c : TcpConnection) (isInLoopThread : Bool) : TcpConnection :=
  if c.state = .kConnected ∨ c.state = .kDisconnecting then
    queueInLoop { c with state := .kDisconnected } isInLoopThread .forceCloseInLoop
  else
    c

def forceCloseInLoop (c : TcpConnection) : Except Fault TcpConnection :=
  if c.state = .kConnected ∨ c.state = .kDisconnecting then c.handleClose else .ok c

/-- What `handleWrite` does when it has written the last of the pending output. -/
def outputDrained (c : TcpConnection) : Except Fault TcpConnection := do
  let c ← c.onChannel Channel.disableWriting
  let c := c.queueWriteComplete
  return if c.state = .kDisconnecting then c.shutdownInLoop else c

def handleWrite (r : WriteResult) (c : TcpConnection) : Except Fault TcpConnection :=
  if c.channel.isWriting then
    let data := c.outputBuffer.readable
    let n := r.ret data.length
    let c := c.write data r
    if 0 < n then do
      let outputBuffer ← c.outputBuffer.retrieve n.toNat
      let c := { c with outputBuffer := outputBuffer }
      if c.outputBuffer.readableBytes = 0 then c.outputDrained else .ok c
    else
      .ok c
  else
    .ok c

section

variable {κ : Type}

/-- A callback that leaves the context of the user alone. -/
def withContext (f : TcpConnection → Except Fault TcpConnection) (s : κ × TcpConnection) :
    Except Fault (κ × TcpConnection) := do
  let c ← f s.2
  return (s.1, c)

/-- `handleRead`, with the user's `messageCallback_`, which has a context of its own. -/
def handleRead (messageCallback : κ × TcpConnection → Except Fault (κ × TcpConnection))
    (r : Buffer.ReadResult) (s : κ × TcpConnection) : Except Fault (κ × TcpConnection) := do
  let (n, inputBuffer) ← s.2.inputBuffer.readFd r
  let s := (s.1, { s.2 with inputBuffer := inputBuffer })
  if 0 < n then messageCallback s
  else if n = 0 then withContext handleClose s
  else .ok s

/-- `Channel::handleEvent` for the channel of the connection. -/
def handleEvent (messageCallback : κ × TcpConnection → Except Fault (κ × TcpConnection))
    (revents : Events) (r : Buffer.ReadResult) (w : WriteResult) (s : κ × TcpConnection) :
    Except Fault (κ × TcpConnection) := do
  let c := { s.2 with channel := { s.2.channel with revents := revents, eventHandling := true } }
  let (context, c) ← Channel.dispatch revents
    { closeCallback := some (withContext handleClose)
      errorCallback := some .ok
      readCallback := some (handleRead messageCallback r)
      writeCallback := some (withContext (handleWrite w)) } (s.1, c)
  return (context, { c with channel := { c.channel with eventHandling := false } })

end

/-- One queued functor of the connection.  A queued `sendInLoop` writes as a direct one does. -/
def runFunctor (preceding : UInt8) (w : WriteResult) (c : TcpConnection) :
    TcpFunctor → Except Fault TcpConnection
  | .sendInLoop message => c.sendInLoop message preceding w
  | .shutdownInLoop => .ok c.shutdownInLoop
  | .forceCloseInLoop => c.forceCloseInLoop
  | .connectDestroyed => c.connectDestroyed
  | .writeCompleteCallback => .ok c

/-- The functor at the head of the queue is run. -/
def runPending (c : TcpConnection) (preceding : UInt8) (w : WriteResult) :
    Except Fault TcpConnection :=
  match c.loop.pendingFunctors with
  | [] => .ok c
  | functor :: rest =>
    runFunctor preceding w { c with loop := { c.loop with pendingFunctors := rest } } functor

/-! ### What the functions leave alone -/

section

variable {c d : TcpConnection}

theorem onChannel_frame
    {f : Channel → EventLoop TcpFunctor → Except Fault (Channel × EventLoop TcpFunctor)}
    (h : c.onChannel f = .ok d) : d = { c with channel := d.channel, loop := d.loop } := by
  obtain ⟨p, -, hp⟩ := bind_eq_ok.mp h
  cases hp
  rfl

theorem onChannel_update {f : Channel → EventLoop TcpFunctor →
      Except Fault (Channel × EventLoop TcpFunctor)} {events : Events}
    (hf : f c.channel c.loop = Channel.update { c.channel with events := events } c.loop)
    (h : c.loop.poller.Tracks c.channel) :
    ∃ channel loop, c.onChannel f = .ok { c with channel := channel, loop := loop } ∧
      Channel.Updated c.channel c.loop events channel loop := by
  obtain ⟨channel, loop, hu, hupd⟩ := Channel.update_spec h events
  exact ⟨channel, loop, by rw [onChannel, hf, hu]; rfl, hupd⟩

theorem queueWriteComplete_frame (c : TcpConnection) :
    ∃ loop, c.queueWriteComplete = { c with loop := loop } ∧ loop.poller = c.loop.poller := by
  unfold queueWriteComplete
  split
  · exact ⟨_, rfl, EventLoop.queueInLoop_poller _ _ _⟩
  · exact ⟨c.loop, rfl, rfl⟩

theorem writeDirectly_frame (c : TcpConnection) (message : Bytes) (r : WriteResult) :
    ∃ loop socket, (c.writeDirectly message r).1 = { c with loop := loop, socket := socket } ∧
      loop.poller = c.loop.poller := by
  unfold writeDirectly
  split
  · dsimp only
    split
    · obtain ⟨loop, hqueued, hpoller⟩ := queueWriteComplete_frame (c.write message r)
      split
      · exact ⟨loop, _, hqueued, hpoller⟩
      · exact ⟨c.loop, _, rfl, rfl⟩
    · exact ⟨c.loop, _, rfl, rfl⟩
  · exact ⟨c.loop, c.socket, rfl, rfl⟩

/-- The state of the connection, what it has read, and what its user and its owner have been told,
are the same. -/
structure SameLife (c d : TcpConnection) : Prop where
  state : d.state = c.state
  inputBuffer : d.inputBuffer = c.inputBuffer
  connectionCalls : d.connectionCalls = c.connectionCalls
  closeCalls : d.closeCalls = c.closeCalls

theorem SameLife.refl (c : TcpConnection) : SameLife c c := ⟨rfl, rfl, rfl, rfl⟩

theorem SameLife.trans {e : TcpConnection} (h : SameLife c d) (h' : SameLife d e) : SameLife c e :=
  ⟨h'.state.trans h.state, h'.inputBuffer.trans h.inputBuffer, h'.connectionCalls.trans h.connectionCalls,
    h'.closeCalls.trans h.closeCalls⟩

theorem onChannel_sameLife
    {f : Channel → EventLoop TcpFunctor → Except Fault (Channel × EventLoop TcpFunctor)}
    (h : c.onChannel f = .ok d) : SameLife c d := by
  rw [onChannel_frame h]
  exact ⟨rfl, rfl, rfl, rfl⟩

theorem shutdownInLoop_sameLife : SameLife c c.shutdownInLoop := by
  unfold shutdownInLoop
  split <;> exact ⟨rfl, rfl, rfl, rfl⟩

theorem sendInLoop_sameLife {message : Bytes} {preceding : UInt8} {r : WriteResult}
    (h : c.sendInLoop message preceding r = .ok d) : SameLife c d := by
  unfold sendInLoop at h
  split at h
  · cases h
    exact .refl c
  · obtain ⟨loop, socket, hdirect, -⟩ := c.writeDirectly_frame message r
    generalize c.writeDirectly message r = direct at *
    obtain ⟨e, n, remain⟩ := direct
    dsimp only at h hdirect
    subst hdirect
    split at h
    · obtain ⟨out, -, h⟩ := bind_eq_ok.mp h
      dsimp only at h
      split at h
      · cases h
        exact ⟨rfl, rfl, rfl, rfl⟩
      · have hlife := onChannel_sameLife h
        exact ⟨hlife.state, hlife.inputBuffer, hlife.connectionCalls, hlife.closeCalls⟩
    · cases h
      exact ⟨rfl, rfl, rfl, rfl⟩

theorem outputDrained_sameLife (h : c.outputDrained = .ok d) : SameLife c d := by
  obtain ⟨e, he, h⟩ := bind_eq_ok.mp h
  obtain ⟨loop, hqueued, -⟩ := e.queueWriteComplete_frame
  dsimp only at h
  rw [hqueued] at h
  cases h
  refine (onChannel_sameLife he).trans (SameLife.trans (d := { e with loop := loop })
    ⟨rfl, rfl, rfl, rfl⟩ ?_)
  split
  · exact shutdownInLoop_sameLife
  · exact .refl _

theorem handleWrite_sameLife {r : WriteResult} (h : c.handleWrite r = .ok d) : SameLife c d := by
  unfold handleWrite at h
  split at h
  · dsimp only at h
    split at h
    · obtain ⟨out, -, h⟩ := bind_eq_ok.mp h
      split at h
      · have hlife := outputDrained_sameLife h
        exact ⟨hlife.state, hlife.inputBuffer, hlife.connectionCalls, hlife.closeCalls⟩
      · cases h
        exact ⟨rfl, rfl, rfl, rfl⟩
    · cases h
      exact ⟨rfl, rfl, rfl, rfl⟩
  · cases h
    exact .refl c

theorem handleClose_input (h : c.handleClose = .ok d) : d.inputBuffer = c.inputBuffer := by
  obtain ⟨u, -, h⟩ := bind_eq_ok.mp h
  obtain ⟨e, he, h⟩ := bind_eq_ok.mp h
  have hlife := onChannel_sameLife he
  cases h
  exact hlife.inputBuffer

theorem runFunctor_input {functor : TcpFunctor} {preceding : UInt8} {w : WriteResult}
    (h : c.runFunctor preceding w functor = .ok d) : d.inputBuffer = c.inputBuffer := by
  cases functor with
  | sendInLoop message => exact (sendInLoop_sameLife h).inputBuffer
  | shutdownInLoop =>
    cases h
    exact shutdownInLoop_sameLife.inputBuffer
  | forceCloseInLoop =>
    change c.forceCloseInLoop = .ok d at h
    unfold forceCloseInLoop at h
    split at h
    · exact handleClose_input h
    · cases h
      rfl
  | connectDestroyed =>
    change c.connectDestroyed = .ok d at h
    unfold connectDestroyed at h
    split at h
    · obtain ⟨e, he, h⟩ := bind_eq_ok.mp h
      exact (onChannel_sameLife h).inputBuffer.trans (onChannel_sameLife he).inputBuffer
    · exact (onChannel_sameLife h).inputBuffer
  | writeCompleteCallback =>
    cases h
    rfl

theorem runPending_input {preceding : UInt8} {w : WriteResult} (h : c.runPending preceding w = .ok d) :
    d.inputBuffer = c.inputBuffer := by
  unfold runPending at h
  split at h
  · cases h
    rfl
  · have hinput := runFunctor_input h
    exact hinput

end

/-- An event lets the connection read: `handleRead` is called, and gets bytes. -/
def Reads (revents : Events) (r : Buffer.ReadResult) : Prop :=
  revents.has (POLLIN ||| POLLPRI ||| POLLRDHUP) = true ∧ ∃ bytes, r = .data bytes ∧ bytes ≠ []

/-- What `handleRead` does to the input and to the user's context: nothing, or bytes have been read
and the message callback is called. -/
theorem handleRead_cases {κ : Type} {s t : κ × TcpConnection}
    {messageCallback : κ × TcpConnection → Except Fault (κ × TcpConnection)}
    {r : Buffer.ReadResult} (h : handleRead messageCallback r s = .ok t) :
    (t.1 = s.1 ∧ t.2.inputBuffer.readable = s.2.inputBuffer.readable) ∨
    (∃ bytes, r = .data bytes ∧ bytes ≠ []) ∧ ∃ (c : TcpConnection) (chunk : Bytes),
      c.inputBuffer.readable = s.2.inputBuffer.readable ++ chunk ∧
      messageCallback (s.1, c) = .ok t := by
  obtain ⟨⟨n, buffer⟩, hread, h⟩ := bind_eq_ok.mp h
  cases r with
  | error =>
    cases hread
    dsimp only at h
    rw [if_neg (by decide), if_neg (by decide)] at h
    cases h
    exact .inl ⟨rfl, rfl⟩
  | data bytes =>
    obtain ⟨u, hu, hreadable⟩ := s.2.inputBuffer.readFd_data_spec bytes
    cases hread.symm.trans hu
    dsimp only at h
    split at h
    · rename_i hpos
      have hne : bytes ≠ [] := by
        rintro rfl
        simp at hpos
      exact .inr ⟨⟨bytes, rfl, hne⟩, _, _, hreadable, h⟩
    · rename_i hzero
      have hnil : bytes.take s.2.inputBuffer.readCapacity = [] :=
        List.eq_nil_of_length_eq_zero (by omega)
      have hsame : buffer.readable = s.2.inputBuffer.readable := by
        rw [hreadable, hnil, List.append_nil]
      split at h
      · obtain ⟨d, hd, h⟩ := bind_eq_ok.mp h
        cases h
        exact .inl ⟨rfl, by rw [handleClose_input hd]; exact hsame⟩
      · cases h
        exact .inl ⟨rfl, hsame⟩

/-- A callback that leaves the input alone, called or not. -/
theorem callIf_withContext {κ : Type} {s t : κ × TcpConnection} {condition : Bool}
    {f : TcpConnection → Except Fault TcpConnection}
    (hf : ∀ c d, f c = .ok d → d.inputBuffer = c.inputBuffer)
    (h : Channel.callIf condition (some (withContext f)) s = .ok t) :
    t.1 = s.1 ∧ t.2.inputBuffer = s.2.inputBuffer := by
  refine Channel.callIf_keeps
    (I := fun u : κ × TcpConnection => u.1 = s.1 ∧ u.2.inputBuffer = s.2.inputBuffer) ?_
    ⟨rfl, rfl⟩ h
  rintro g hg u v ⟨hcontext, hinput⟩ hv
  cases hg
  obtain ⟨d, hd, hv⟩ := bind_eq_ok.mp hv
  cases hv
  exact ⟨hcontext, (hf _ _ hd).trans hinput⟩

theorem handleEvent_cases {κ : Type} {s t : κ × TcpConnection}
    {messageCallback : κ × TcpConnection → Except Fault (κ × TcpConnection)} {revents : Events}
    {r : Buffer.ReadResult} {w : WriteResult}
    (h : handleEvent messageCallback revents r w s = .ok t) :
    (t.1 = s.1 ∧ t.2.inputBuffer.readable = s.2.inputBuffer.readable) ∨
    Reads revents r ∧ ∃ (c : TcpConnection) (chunk : Bytes) (u : κ × TcpConnection),
      c.inputBuffer.readable = s.2.inputBuffer.readable ++ chunk ∧
      messageCallback (s.1, c) = .ok u ∧ t.1 = u.1 ∧ t.2.inputBuffer = u.2.inputBuffer := by
  obtain ⟨v, hv, h⟩ := bind_eq_ok.mp h
  cases h
  obtain ⟨s₁, h₁, hv⟩ := bind_eq_ok.mp hv
  obtain ⟨s₂, h₂, hv⟩ := bind_eq_ok.mp hv
  obtain ⟨s₃, h₃, hv⟩ := bind_eq_ok.mp hv
  obtain ⟨hcontext, hinput⟩ := callIf_withContext (fun c d => handleClose_input) h₁
  obtain ⟨hcontext', hinput'⟩ :=
    callIf_withContext (fun c d hd => (handleWrite_sameLife hd).inputBuffer) hv
  have hsame : s₂ = s₁ := by
    unfold Channel.callIf at h₂
    split at h₂
    · rename_i f hf
      cases hf
      exact (Except.ok.inj h₂).symm
    · exact (Except.ok.inj h₂).symm
  subst hsame
  cases hread : revents.has (POLLIN ||| POLLPRI ||| POLLRDHUP) with
  | false =>
    rw [hread, Channel.callIf_false] at h₃
    cases h₃
    exact .inl ⟨hcontext'.trans hcontext, by rw [hinput', hinput]⟩
  | true =>
    rw [hread, Channel.callIf_true] at h₃
    rcases handleRead_cases h₃ with ⟨hsame, hreadable⟩ | ⟨hbytes, c, chunk, hchunk, hmessage⟩
    · refine .inl ⟨(hcontext'.trans hsame).trans hcontext, ?_⟩
      dsimp only
      rw [hinput', hreadable, hinput]
    · refine .inr ⟨⟨hread, hbytes⟩, c, chunk, s₃, ?_, ?_, hcontext', hinput'⟩
      · rw [hchunk, hinput]
      · rw [← hcontext]
        exact hmessage

end TcpConnection

end Mymuduo
