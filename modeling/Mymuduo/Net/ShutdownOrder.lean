import Mathlib.Data.List.Perm.Subperm
import Mymuduo.Net.OutputStream

/-! Threads that send on one connection and shut it down.  A call of `send` or `shutdown` is two
steps: the test of `state_`, and what `runInLoop` does with the functor, which is to call it on the
loop's own thread and to queue it on any other.  The loop's thread writes pending output and takes
the queued functors in rounds.  If nothing is on its way to `sendInLoop` when the socket is shut
down, everything sent before the `shutdown` has been written by then, and nothing is written
later. -/

namespace Mymuduo

open Lib

/-- The messages that a functor sends. -/
def TcpFunctor.messages : TcpFunctor → List Bytes
  | .sendInLoop message => [message]
  | _ => []

/-- A connection, and the functor that each thread has yet to give to `runInLoop` in a call of
`send` or `shutdown`: `caller` for the loop's own thread and `callers` for the other ones.  `round`
holds the functors that the current `doPendingFunctors` has still to call.  `returned` holds the
messages whose `send` has returned, having seen `kConnected`, `due` those of them that the effective
call of `shutdown` found, and `sent` the messages of the calls of `sendInLoop`. -/
structure TcpThreads where
  conn : TcpConnection
  caller : Option TcpFunctor
  callers : Nat → Option TcpFunctor
  round : List TcpFunctor
  returned : List Bytes
  due : List Bytes
  sent : List Bytes

/-- A step of the loop's own thread, which `none` stands for, or of another one. -/
inductive TcpThreadStep
  /-- The test of `state_` in `send`. -/
  | send (thread : Option Nat) (msg : Bytes)
  /-- The exchange of `state_` in `shutdown`. -/
  | shutdown (thread : Option Nat)
  /-- `runInLoop` on another thread queues the functor. -/
  | queue (thread : Nat)
  /-- `runInLoop` on the loop's thread calls the functor. -/
  | call (preceding : UInt8) (r : WriteResult)
  | handleWrite (r : WriteResult)
  /-- `doPendingFunctors` takes the functors that are queued. -/
  | beginRound
  /-- The next functor of the round is called. -/
  | functor (preceding : UInt8) (r : WriteResult)
  deriving DecidableEq, Repr

namespace Channel

theorem has_enableWriting (events : Events) : Events.has (events ||| kWriteEvent) kWriteEvent = true := by
  have habsorb : (events ||| kWriteEvent) &&& kWriteEvent = kWriteEvent := by
    ext i
    simp only [BitVec.getElem_and, BitVec.getElem_or, Bool.and_eq_right_iff_imp, Bool.or_eq_true]
    exact Or.inr
  rw [Events.has, habsorb]
  rfl

theorem has_disableWriting (events : Events) :
    Events.has (events &&& ~~~kWriteEvent) kWriteEvent = false := by
  have hzero : (events &&& ~~~kWriteEvent) &&& kWriteEvent = 0 := by
    rw [BitVec.and_assoc]
    simp
  rw [Events.has, hzero]
  rfl

end Channel

namespace TcpConnection

variable {c d : TcpConnection} {r : WriteResult}

/-- `handleWrite` writes the last of the pending output. -/
structure DrainsOutput (c : TcpConnection) (r : WriteResult) : Prop where
  writing : c.channel.isWriting = true
  pending : 0 < c.outputBuffer.readableBytes
  all : r.ret c.outputBuffer.readableBytes = c.outputBuffer.readableBytes

/-- Output is pending only while the channel waits for the socket. -/
def Drained (c : TcpConnection) : Prop :=
  c.channel.isWriting = false → c.outputBuffer.readableBytes = 0

/-- Nothing but the callback of the user has been queued. -/
def QueuesCallbacks (c d : TcpConnection) : Prop :=
  ∃ more, d.loop.pendingFunctors = c.loop.pendingFunctors ++ more ∧
    ∀ f ∈ more, f = .writeCompleteCallback

/-- What a call in the loop's thread does that sends `messages`: it shuts the socket down only if
`shuts`. -/
structure Effect (c d : TcpConnection) (messages : List Bytes) (shuts : Prop) : Prop where
  opened : Open d
  state : d.state = c.state
  drained : Drained d
  stream : d.stream = c.stream ++ messages.flatten
  pending : QueuesCallbacks c d
  idle : messages = [] → c.channel.isWriting = false → d.channel.isWriting = false
  shutdowns : d.socket.shutdowns = c.socket.shutdowns ∨ shuts ∧ d.channel.isWriting = false

/-! ### What the calls in the loop's thread do -/

theorem QueuesCallbacks.of_eq (h : d.loop.pendingFunctors = c.loop.pendingFunctors) :
    QueuesCallbacks c d :=
  ⟨[], by rw [h, List.append_nil], nofun⟩

theorem QueuesCallbacks.trans {e : TcpConnection} (h : QueuesCallbacks c d)
    (h' : QueuesCallbacks d e) : QueuesCallbacks c e := by
  obtain ⟨more, hmore, hall⟩ := h
  obtain ⟨more', hmore', hall'⟩ := h'
  refine ⟨more ++ more', by rw [hmore', hmore, List.append_assoc], ?_⟩
  intro f hf
  exact (List.mem_append.mp hf).elim (hall f) (hall' f)

theorem queueWriteComplete_queues (c : TcpConnection) : QueuesCallbacks c c.queueWriteComplete := by
  unfold queueWriteComplete
  split
  · exact ⟨[.writeCompleteCallback], EventLoop.queueInLoop_pendingFunctors .., by simp⟩
  · exact .of_eq rfl

/-- A change of interest queues nothing and leaves the socket alone. -/
theorem onChannel_queues {f : Channel → EventLoop TcpFunctor →
      Except Fault (Channel × EventLoop TcpFunctor)} {events : Events}
    (hf : f c.channel c.loop = Channel.update { c.channel with events := events } c.loop)
    (h : c.loop.poller.Tracks c.channel) (hd : c.onChannel f = .ok d) :
    QueuesCallbacks c d ∧ d.channel.events = events := by
  obtain ⟨channel, loop, hspec, hupd⟩ := onChannel_update hf h
  cases hd.symm.trans hspec
  refine ⟨.of_eq ?_, hupd.events_eq⟩
  show loop.pendingFunctors = c.loop.pendingFunctors
  rw [hupd.loop_eq]

theorem writeDirectly_queues (c : TcpConnection) (message : Bytes) (r : WriteResult) :
    QueuesCallbacks c (c.writeDirectly message r).1 ∧
      (c.writeDirectly message r).1.socket.shutdowns = c.socket.shutdowns := by
  unfold writeDirectly
  split
  · dsimp only
    split
    · dsimp only
      split
      · obtain ⟨loop, hframe, -⟩ := (c.write message r).queueWriteComplete_frame
        refine ⟨QueuesCallbacks.trans (d := c.write message r) (.of_eq rfl)
          (queueWriteComplete_queues _), ?_⟩
        rw [hframe]
        rfl
      · exact ⟨.of_eq rfl, rfl⟩
    · exact ⟨.of_eq rfl, rfl⟩
  · exact ⟨.of_eq rfl, rfl⟩

theorem sendInLoop_effect {message : Bytes} {preceding : UInt8} (hopen : Open c)
    (hdrained : Drained c) (haccepted : DirectWriteAccepted c (.sendInLoop message preceding r))
    {shuts : Prop} : ∃ d, c.sendInLoop message preceding r = .ok d ∧ Effect c d [message] shuts := by
  obtain ⟨d, hd, hopend⟩ := hopen.sendInLoop message preceding r
  have hup : c.state ≠ .kDisconnected := by rcases hopen.state with h | h <;> simp [h]
  have hstream := sendInLoop_stream hup haccepted hd
  have hlife := sendInLoop_sameLife hd
  refine ⟨d, hd, ?_⟩
  obtain ⟨loop, socket, hframe, hpoller⟩ := c.writeDirectly_frame message r
  obtain ⟨hqueues, hshutdowns⟩ := c.writeDirectly_queues message r
  rw [sendInLoop, if_neg hup] at hd
  generalize c.writeDirectly message r = direct at *
  obtain ⟨e, n, remain⟩ := direct
  dsimp only at hd hframe hqueues hshutdowns
  subst hframe
  have hrest : Drained d ∧ QueuesCallbacks c d ∧ d.socket.shutdowns = c.socket.shutdowns := by
    split at hd
    · obtain ⟨out, -, hd⟩ := bind_eq_ok.mp hd
      dsimp only at hd
      split at hd
      · rename_i hwriting
        cases hd
        exact ⟨fun hidle => absurd hwriting (by simp [hidle]), hqueues, hshutdowns⟩
      · have htracks : loop.poller.Tracks c.channel := hpoller ▸ hopen.tracks
        obtain ⟨hmore, hevents⟩ := onChannel_queues (f := Channel.enableWriting) rfl htracks hd
        refine ⟨?_, hqueues.trans hmore, ?_⟩
        · intro hidle
          rw [Channel.isWriting, hevents, Channel.has_enableWriting] at hidle
          cases hidle
        · rw [onChannel_frame hd]
          exact hshutdowns
    · cases hd
      exact ⟨hdrained, hqueues, hshutdowns⟩
  exact ⟨hopend, hlife.state, hrest.1, by simpa using hstream, hrest.2.1, by simp, .inl hrest.2.2⟩

theorem shutdownInLoop_effect (hopen : Open c) (hdrained : Drained c) :
    Effect c c.shutdownInLoop [] (c.channel.isWriting = false) := by
  have hstream : c.shutdownInLoop.stream = c.stream ++ [].flatten := by
    simpa using shutdownInLoop_stream c
  have hopend := hopen.shutdownInLoop
  unfold shutdownInLoop at *
  split at hstream
  · rename_i hidle
    have hnot : c.channel.isWriting = false := by simpa using hidle
    rw [if_pos hidle] at *
    exact ⟨hopend, rfl, hdrained, hstream, .of_eq rfl, fun _ h => h, .inr ⟨hnot, hnot⟩⟩
  · rename_i hwriting
    rw [if_neg hwriting] at *
    exact ⟨hopen, rfl, hdrained, hstream, .of_eq rfl, fun _ h => h, .inl rfl⟩

theorem outputDrained_spec (hopen : Open c) (hd : c.outputDrained = .ok d) :
    QueuesCallbacks c d ∧ d.channel.isWriting = false ∧ d.outputBuffer = c.outputBuffer ∧
      (d.socket.shutdowns = c.socket.shutdowns ∨ c.state = .kDisconnecting) := by
  obtain ⟨e, he, hd⟩ := bind_eq_ok.mp hd
  obtain ⟨hqueues, hevents⟩ := onChannel_queues (f := Channel.disableWriting) rfl hopen.tracks he
  have hidle : e.channel.isWriting = false := by
    rw [Channel.isWriting, hevents, Channel.has_disableWriting]
  have hmore := hqueues.trans (queueWriteComplete_queues e)
  obtain ⟨loop, hframe, -⟩ := e.queueWriteComplete_frame
  have hold := onChannel_frame he
  dsimp only at hd
  rw [hframe] at hd hmore
  have hdown : { e with loop := loop }.shutdownInLoop =
      { e with loop := loop, socket := { e.socket with shutdowns := e.socket.shutdowns + 1 } } := by
    rw [shutdownInLoop, if_pos (by simpa using hidle)]
  cases hd
  split
  · rename_i hstate
    rw [hdown]
    refine ⟨hmore.trans (.of_eq rfl), hidle, by rw [hold], .inr ?_⟩
    rw [hold] at hstate
    exact hstate
  · exact ⟨hmore, hidle, by rw [hold], .inl (by rw [hold])⟩

/-- `handleWrite` shuts the socket down when it has written all, and a `shutdown` waits for that. -/
theorem handleWrite_effect (hopen : Open c) (hdrained : Drained c) (r : WriteResult) :
    ∃ d, c.handleWrite r = .ok d ∧
      Effect c d [] (c.DrainsOutput r ∧ c.state = .kDisconnecting) := by
  obtain ⟨d, hd, hopend⟩ := hopen.handleWrite r
  have hstream : d.stream = c.stream ++ [].flatten := by simpa using handleWrite_stream hd
  have hstate := (handleWrite_sameLife hd).state
  have hle := ret_le r c.outputBuffer.readable.length
  rw [Buffer.length_readable] at hle
  refine ⟨d, hd, ?_⟩
  unfold handleWrite at hd
  split at hd
  · rename_i hwriting
    have hbusy : c.channel.isWriting ≠ false := by simp [hwriting]
    dsimp only at hd
    rw [Buffer.length_readable] at hd
    split at hd
    · rename_i hpos
      have hlen : (r.ret c.outputBuffer.readableBytes).toNat ≤ c.outputBuffer.readableBytes := by omega
      obtain ⟨out, hout, hread⟩ := c.outputBuffer.retrieve_spec hlen
      have hleft : out.readableBytes =
          c.outputBuffer.readableBytes - (r.ret c.outputBuffer.readableBytes).toNat := by
        rw [← Buffer.length_readable, hread, List.length_drop, Buffer.length_readable]
      rw [show (c.write c.outputBuffer.readable r).outputBuffer = c.outputBuffer from rfl, hout,
        ok_bind] at hd
      split at hd
      · rename_i hempty
        have hdrains : c.DrainsOutput r := ⟨hwriting, by omega, by omega⟩
        have hopenOut : Open { c.write c.outputBuffer.readable r with outputBuffer := out } :=
          ⟨hopen.state, hopen.tracks⟩
        obtain ⟨hqueues, hidle, hbuffer, hdown⟩ := outputDrained_spec hopenOut hd
        refine ⟨hopend, hstate, fun _ => by rw [hbuffer]; exact hempty, hstream, hqueues,
          fun _ h => absurd h hbusy, ?_⟩
        exact hdown.imp_right fun hdisconnecting => ⟨⟨hdrains, hdisconnecting⟩, hidle⟩
      · cases hd
        exact ⟨hopend, rfl, fun h => absurd h hbusy, hstream, .of_eq rfl, fun _ h => absurd h hbusy,
          .inl rfl⟩
    · cases hd
      exact ⟨hopend, rfl, fun h => absurd h hbusy, hstream, .of_eq rfl, fun _ h => absurd h hbusy,
        .inl rfl⟩
  · cases hd
    exact ⟨hopen, rfl, hdrained, hstream, .of_eq rfl, fun _ h => h, .inl rfl⟩

/-- The functors that `send` and `shutdown` queue, and the callback of the user. -/
theorem runFunctor_effect (hopen : Open c) (hdrained : Drained c) {functor : TcpFunctor}
    {preceding : UInt8} (hforce : functor ≠ .forceCloseInLoop) (hdestroy : functor ≠ .connectDestroyed)
    (haccepted : ∀ message, functor = .sendInLoop message →
      DirectWriteAccepted c (.sendInLoop message preceding r)) :
    ∃ d, c.runFunctor preceding r functor = .ok d ∧
      Effect c d functor.messages (functor = .shutdownInLoop ∧ c.channel.isWriting = false) := by
  cases functor with
  | sendInLoop message => exact sendInLoop_effect hopen hdrained (haccepted message rfl)
  | shutdownInLoop =>
    have heffect := shutdownInLoop_effect hopen hdrained
    exact ⟨_, rfl, { heffect with
      shutdowns := heffect.shutdowns.imp_right fun h => ⟨⟨rfl, h.1⟩, h.2⟩ }⟩
  | forceCloseInLoop => exact absurd rfl hforce
  | connectDestroyed => exact absurd rfl hdestroy
  | writeCompleteCallback =>
    exact ⟨c, rfl, hopen, rfl, hdrained, by simp [TcpFunctor.messages], .of_eq rfl, fun _ h => h,
      .inl rfl⟩

/-- A new channel whose reading has been enabled was known to nobody before. -/
theorem enableReading_new (hnew : c.channel.index = .kNew)
    (h : c.onChannel Channel.enableReading = .ok d) :
    ∃ channel loop, d = { c with channel := channel, loop := loop } ∧
      Channel.Updated c.channel c.loop (c.channel.events ||| Channel.kReadEvent) channel loop := by
  have htracks : c.loop.poller.Tracks c.channel := by
    obtain ⟨⟨channel, loop⟩, hupdate, -⟩ := bind_eq_ok.mp h
    obtain ⟨⟨p, channel'⟩, hp, -⟩ := bind_eq_ok.mp hupdate
    rw [EPollPoller.Tracks, hnew]
    exact EPollPoller.unknown_of_updateChannel (c := { c.channel with
      events := c.channel.events ||| Channel.kReadEvent, addedToLoop := true }) hnew hp
  obtain ⟨channel, loop, hspec, hupd⟩ := onChannel_update (f := Channel.enableReading) rfl htracks
  cases h.symm.trans hspec
  exact ⟨channel, loop, rfl, hupd⟩

theorem connectEstablished_spec (hnew : c.channel.index = .kNew) (h : c.connectEstablished = .ok d) :
    Open d ∧ d.state = .kConnected ∧ d.channel.events = c.channel.events ||| Channel.kReadEvent ∧
      d.outputBuffer = c.outputBuffer ∧ d.socket = c.socket ∧
      d.loop.pendingFunctors = c.loop.pendingFunctors := by
  obtain ⟨u, -, h⟩ := bind_eq_ok.mp h
  obtain ⟨e, he, h⟩ := bind_eq_ok.mp h
  obtain ⟨channel, loop, rfl, hupd⟩ := enableReading_new (c := { c with
    state := .kConnected, channel := { c.channel with tied := true } }) hnew he
  cases h
  refine ⟨⟨.inl rfl, hupd.tracks⟩, rfl, hupd.events_eq, rfl, rfl, ?_⟩
  show loop.pendingFunctors = c.loop.pendingFunctors
  rw [hupd.loop_eq]

end TcpConnection

namespace TcpThreads

/-- A connection on which no call has been made. -/
def start (c : TcpConnection) : TcpThreads where
  conn := c
  caller := none
  callers := fun _ => none
  round := []
  returned := []
  due := []
  sent := []

def callOf (s : TcpThreads) : Option Nat → Option TcpFunctor
  | none => s.caller
  | some thread => s.callers thread

def setCall (s : TcpThreads) (thread : Option Nat) (call : Option TcpFunctor) : TcpThreads :=
  match thread with
  | none => { s with caller := call }
  | some thread => { s with callers := Function.update s.callers thread call }

/-- A functor is called on the loop's thread. -/
def callFunctor (s : TcpThreads) (functor : TcpFunctor) (preceding : UInt8) (r : WriteResult) :
    Except Fault TcpThreads := do
  let conn ← s.conn.runFunctor preceding r functor
  return { s with conn := conn, sent := s.sent ++ functor.messages }

def step (s : TcpThreads) : TcpThreadStep → Except Fault TcpThreads
  | .send thread msg =>
    if s.callOf thread = none ∧ s.conn.state = .kConnected then
      .ok (s.setCall thread (some (.sendInLoop msg)))
    else
      .ok s
  | .shutdown thread =>
    if s.callOf thread = none ∧ s.conn.state = .kConnected then
      .ok { s.setCall thread (some .shutdownInLoop) with
        conn := { s.conn with state := .kDisconnecting }, due := s.returned }
    else
      .ok s
  | .queue thread =>
    match s.callers thread with
    | none => .ok s
    | some functor => .ok { s.setCall thread none with
        conn := s.conn.queueInLoop false functor, returned := s.returned ++ functor.messages }
  | .call preceding r =>
    match s.caller with
    | none => .ok s
    | some functor =>
      callFunctor { s with caller := none, returned := s.returned ++ functor.messages } functor
        preceding r
  | .handleWrite r =>
    if s.caller = none ∧ s.round = [] then do
      let conn ← s.conn.handleWrite r
      return { s with conn := conn }
    else
      .ok s
  | .beginRound =>
    if s.caller = none ∧ s.round = [] then
      .ok { s with
        round := s.conn.loop.pendingFunctors
        conn := { s.conn with loop := { s.conn.loop with pendingFunctors := [] } } }
    else
      .ok s
  | .functor preceding r =>
    match s.caller, s.round with
    | none, functor :: round => callFunctor { s with round := round } functor preceding r
    | _, _ => .ok s

/-- The functor that a step calls, with what `::write` returns if it writes. -/
def called (s : TcpThreads) : TcpThreadStep → Option (TcpFunctor × UInt8 × WriteResult)
  | .call preceding r => s.caller.map fun functor => (functor, preceding, r)
  | .functor preceding r =>
    match s.caller, s.round with
    | none, functor :: _ => some (functor, preceding, r)
    | _, _ => none
  | _ => none

/-- The step handles an event for writing. -/
def Handles (s : TcpThreads) (a : TcpThreadStep) (r : WriteResult) : Prop :=
  a = .handleWrite r ∧ s.caller = none ∧ s.round = []

/-- The step calls `::write` on the socket. -/
def Writes (s : TcpThreads) (a : TcpThreadStep) : Prop :=
  (∃ message preceding r, s.called a = some (.sendInLoop message, preceding, r) ∧
    s.conn.state ≠ .kDisconnected ∧ s.conn.channel.isWriting = false ∧
    s.conn.outputBuffer.readableBytes = 0) ∨
  ∃ r, s.Handles a r ∧ s.conn.channel.isWriting = true

/-- The step calls `socket_->shutdown()`. -/
def ShutsDown (s : TcpThreads) (a : TcpThreadStep) : Prop :=
  (∃ preceding r, s.called a = some (.shutdownInLoop, preceding, r) ∧
    s.conn.channel.isWriting = false) ∨
  ∃ r, s.Handles a r ∧ s.conn.DrainsOutput r ∧ s.conn.state = .kDisconnecting

/-- A thread has yet to give the functor to `runInLoop`, or it is queued, or is in the current
round. -/
def Outstanding (s : TcpThreads) (f : TcpFunctor) : Prop :=
  (∃ thread, s.callOf thread = some f) ∨ f ∈ s.round ∨ f ∈ s.conn.loop.pendingFunctors

/-- No direct write fails, and no message is on its way to `sendInLoop` when the socket is shut
down. -/
structure InOrder (s : TcpThreads) (a : TcpThreadStep) : Prop where
  accepted : ∀ message preceding r, s.called a = some (.sendInLoop message, preceding, r) →
    s.conn.DirectWriteAccepted (.sendInLoop message preceding r)
  sent : s.ShutsDown a → ∀ f, s.Outstanding f → f.messages = []

/-- When the step shuts the socket down, everything sent before the `shutdown` has been written, and
it writes nothing if that has been done before. -/
structure ShutsDownLast (s : TcpThreads) (a : TcpThreadStep) : Prop where
  written : ∀ s', step s a = .ok s' → s.conn.socket.shutdowns < s'.conn.socket.shutdowns →
    s'.due.Subperm s'.sent ∧ s'.conn.socket.written = s'.sent.flatten
  noWrite : 0 < s.conn.socket.shutdowns → ¬s.Writes a

/-! ### The invariant -/

/-- The functors queued and in the current round. -/
def queued (s : TcpThreads) : List TcpFunctor := s.round ++ s.conn.loop.pendingFunctors

/-- Before the `shutdown` no functor shuts the socket down, and when the socket has been shut down
nothing is left to write. -/
structure Guarded (s : TcpThreads) : Prop where
  functors : ∀ f, s.Outstanding f → f ≠ .forceCloseInLoop ∧ f ≠ .connectDestroyed
  connected : s.conn.state = .kConnected →
    s.conn.socket.shutdowns = 0 ∧ ∀ f, s.Outstanding f → f ≠ .shutdownInLoop
  shut : 0 < s.conn.socket.shutdowns →
    s.conn.channel.isWriting = false ∧ ∀ f, s.Outstanding f → f.messages = []

/-- What is handed to `sendInLoop` is in the output stream, and what has been sent is there or is
queued. -/
structure Sound (s : TcpThreads) : Prop where
  opened : s.conn.Open
  drained : s.conn.Drained
  stream : s.conn.stream = s.sent.flatten
  returned : s.returned.Perm (s.sent ++ s.queued.flatMap TcpFunctor.messages)
  due : s.due <+: s.returned
  guarded : s.Guarded

section

variable {s s' : TcpThreads} {a : TcpThreadStep} {f functor : TcpFunctor} {thread : Option Nat}

theorem callOf_setCall {call : Option TcpFunctor} {thread' : Option Nat}
    (h : (s.setCall thread call).callOf thread' = some f) :
    call = some f ∨ s.callOf thread' = some f := by
  cases thread with
  | none =>
    cases thread' with
    | none => exact .inl h
    | some t' => exact .inr h
  | some t =>
    cases thread' with
    | none => exact .inr h
    | some t' =>
      change Function.update s.callers t call t' = some f at h
      by_cases heq : t' = t
      · subst heq
        rw [Function.update_self] at h
        exact .inl h
      · rw [Function.update_of_ne heq] at h
        exact .inr h

@[simp] theorem setCall_conn (call : Option TcpFunctor) : (s.setCall thread call).conn = s.conn := by
  cases thread <;> rfl

@[simp] theorem setCall_round (call : Option TcpFunctor) :
    (s.setCall thread call).round = s.round := by
  cases thread <;> rfl

@[simp] theorem setCall_returned (call : Option TcpFunctor) :
    (s.setCall thread call).returned = s.returned := by
  cases thread <;> rfl

@[simp] theorem setCall_due (call : Option TcpFunctor) : (s.setCall thread call).due = s.due := by
  cases thread <;> rfl

@[simp] theorem setCall_sent (call : Option TcpFunctor) : (s.setCall thread call).sent = s.sent := by
  cases thread <;> rfl

theorem called_outstanding {preceding : UInt8} {r : WriteResult}
    (h : s.called a = some (functor, preceding, r)) : s.Outstanding functor := by
  unfold called at h
  split at h
  · obtain ⟨f, hf, heq⟩ := Option.map_eq_some_iff.mp h
    cases heq
    exact .inl ⟨none, hf⟩
  · split at h
    · rename_i hround
      cases h
      exact .inr (.inl (hround ▸ List.mem_cons_self))
    · cases h
  · cases h

/-- When the socket has been shut down and nothing is left, all that was due has been written. -/
theorem Sound.written (h : s.Sound) (hshut : 0 < s.conn.socket.shutdowns) :
    s.due.Subperm s.sent ∧ s.conn.socket.written = s.sent.flatten := by
  obtain ⟨hidle, hnone⟩ := h.guarded.shut hshut
  have hqueued : s.queued.flatMap TcpFunctor.messages = [] := by
    refine List.flatMap_eq_nil_iff.mpr fun f hf => hnone f (.inr ?_)
    exact List.mem_append.mp hf
  have hreturned := h.returned
  rw [hqueued, List.append_nil] at hreturned
  refine ⟨h.due.sublist.subperm.trans hreturned.subperm, ?_⟩
  have hempty : s.conn.outputBuffer.readable = [] :=
    List.eq_nil_of_length_eq_zero (by rw [Buffer.length_readable, h.drained hidle])
  rw [← h.stream, TcpConnection.stream, hempty, List.append_nil]

theorem Sound.not_writes (h : s.Sound) (hshut : 0 < s.conn.socket.shutdowns) : ¬s.Writes a := by
  obtain ⟨hidle, hnone⟩ := h.guarded.shut hshut
  rintro (⟨message, preceding, r, hcalled, -⟩ | ⟨r, -, hwriting⟩)
  · cases hnone _ (called_outstanding hcalled)
  · rw [hidle] at hwriting
    cases hwriting

/-! ### The steps -/

/-- A step by which nothing comes up that is to be called, but the callback of the user. -/
theorem Guarded.frame (h : s.Guarded) (hstate : s'.conn.state = s.conn.state)
    (hshutdowns : s'.conn.socket.shutdowns = s.conn.socket.shutdowns)
    (hidle : 0 < s.conn.socket.shutdowns → s'.conn.channel.isWriting = false)
    (hout : ∀ f, s'.Outstanding f → s.Outstanding f ∨ f = .writeCompleteCallback) :
    s'.Guarded where
  functors f hf := by
    rcases hout f hf with hold | rfl
    · exact h.functors f hold
    · exact ⟨nofun, nofun⟩
  connected hconnected := by
    obtain ⟨hzero, hnone⟩ := h.connected (hstate ▸ hconnected)
    refine ⟨hshutdowns.trans hzero, ?_⟩
    intro f hf
    rcases hout f hf with hold | rfl
    · exact hnone f hold
    · exact nofun
  shut hshut := by
    rw [hshutdowns] at hshut
    refine ⟨hidle hshut, ?_⟩
    intro f hf
    rcases hout f hf with hold | rfl
    · exact (h.shut hshut).2 f hold
    · rfl

/-- A call of `send` begins. -/
theorem Sound.send (h : s.Sound) (hstate : s.conn.state = .kConnected) (msg : Bytes) :
    (s.setCall thread (some (.sendInLoop msg))).Sound := by
  obtain ⟨hzero, hnone⟩ := h.guarded.connected hstate
  have hout : ∀ f, (s.setCall thread (some (.sendInLoop msg))).Outstanding f →
      f = .sendInLoop msg ∨ s.Outstanding f := by
    rintro f (⟨thread', hcall⟩ | hqueued)
    · exact (callOf_setCall hcall).imp (fun heq => (Option.some.inj heq).symm) fun hold =>
        .inl ⟨thread', hold⟩
    · exact .inr (.inr (by simpa using hqueued))
  refine ⟨by simpa using h.opened, by simpa using h.drained, by simpa using h.stream,
    by simpa [queued] using h.returned, by simpa using h.due, ?_, fun _ => ⟨?_, ?_⟩,
    ?_⟩
  · intro f hf
    rcases hout f hf with rfl | hold
    · exact ⟨nofun, nofun⟩
    · exact h.guarded.functors f hold
  · simpa using hzero
  · intro f hf
    rcases hout f hf with rfl | hold
    · exact nofun
    · exact hnone f hold
  · intro hshut
    simp [hzero] at hshut

/-- The effective call of `shutdown` begins. -/
theorem Sound.shutdown (h : s.Sound) (hstate : s.conn.state = .kConnected) :
    Sound { s.setCall thread (some .shutdownInLoop) with
      conn := { s.conn with state := .kDisconnecting }, due := s.returned } := by
  refine ⟨⟨.inr rfl, h.opened.tracks⟩, h.drained, ?_, by simpa [queued] using h.returned, by simp,
    ?_, nofun, ?_⟩
  · rw [setCall_sent]
    exact h.stream
  · intro f hf
    rcases hf with ⟨thread', hcall⟩ | hqueued
    · rcases callOf_setCall hcall with heq | hold
      · cases heq
        exact ⟨nofun, nofun⟩
      · exact h.guarded.functors f (.inl ⟨thread', hold⟩)
    · exact h.guarded.functors f (.inr (by simpa using hqueued))
  · intro hshut
    simp [(h.guarded.connected hstate).1] at hshut

/-- A call on another thread queues its functor. -/
theorem Sound.queue (h : s.Sound) {t : Nat} (hcall : s.callers t = some functor) :
    Sound { s.setCall (some t) none with
      conn := s.conn.queueInLoop false functor, returned := s.returned ++ functor.messages } := by
  have hpending : (s.conn.queueInLoop false functor).loop.pendingFunctors =
      s.conn.loop.pendingFunctors ++ [functor] := EventLoop.queueInLoop_pendingFunctors ..
  have hpoller : (s.conn.queueInLoop false functor).loop.poller = s.conn.loop.poller :=
    EventLoop.queueInLoop_poller ..
  refine ⟨⟨h.opened.state, ?_⟩, h.drained, ?_, ?_, ?_,
    h.guarded.frame rfl rfl (fun hshut => (h.guarded.shut hshut).1) fun f hf => .inl ?_⟩
  · rw [hpoller]
    exact h.opened.tracks
  · rw [setCall_sent]
    exact h.stream
  · rw [queued, hpending, setCall_round, setCall_sent, ← List.append_assoc, List.flatMap_append,
      ← List.append_assoc]
    simpa [queued] using h.returned.append_right functor.messages
  · rw [setCall_due]
    exact h.due.trans (List.prefix_append s.returned functor.messages)
  · rcases hf with ⟨thread', hf⟩ | hf | hf
    · exact (callOf_setCall hf).elim nofun fun hold => .inl ⟨thread', hold⟩
    · exact .inr (.inl (by simpa using hf))
    · rw [hpending] at hf
      rcases List.mem_append.mp hf with hold | hnew
      · exact .inr (.inr hold)
      · rw [List.mem_singleton.mp hnew]
        exact .inl ⟨some t, hcall⟩

theorem Sound.beginRound (h : s.Sound) (hround : s.round = []) :
    Sound { s with
      round := s.conn.loop.pendingFunctors
      conn := { s.conn with loop := { s.conn.loop with pendingFunctors := [] } } } := by
  refine ⟨⟨h.opened.state, h.opened.tracks⟩, h.drained, h.stream,
    by simpa [queued, hround] using h.returned, h.due,
    h.guarded.frame rfl rfl (fun hshut => (h.guarded.shut hshut).1) fun f hf => .inl ?_⟩
  rcases hf with hf | hf | hf
  · exact .inl hf
  · exact .inr (.inr hf)
  · cases hf

/-- A call in the loop's thread, which takes the functor that sends `messages` from where it was. -/
theorem Sound.ran (h : s.Sound) {conn : TcpConnection} {messages : List Bytes} {shuts : Prop}
    (heffect : s.conn.Effect conn messages shuts) (caller : Option TcpFunctor)
    (round : List TcpFunctor) (returned : List Bytes)
    (hcaller : ∀ f, caller = some f → s.caller = some f) (hround : ∀ f ∈ round, f ∈ s.round)
    (hmessages : messages = [] ∨ ∃ f, s.Outstanding f ∧ f.messages = messages)
    (hreturned : returned.Perm (s.sent ++ messages ++
      (round ++ s.conn.loop.pendingFunctors).flatMap TcpFunctor.messages))
    (hdue : s.due <+: returned) (hstate : shuts → s.conn.state ≠ .kConnected)
    (hshuts : shuts → ∀ f, s.Outstanding f → f.messages = []) :
    Sound { s with
      conn := conn, caller := caller, round := round, returned := returned
      sent := s.sent ++ messages } := by
  obtain ⟨more, hpending, hmore⟩ := heffect.pending
  have hout : ∀ f, Outstanding { s with
      conn := conn, caller := caller, round := round, returned := returned
      sent := s.sent ++ messages } f → s.Outstanding f ∨ f = .writeCompleteCallback := by
    rintro f (⟨_ | thread, hf⟩ | hf | hf)
    · exact .inl (.inl ⟨none, hcaller f hf⟩)
    · exact .inl (.inl ⟨some thread, hf⟩)
    · exact .inl (.inr (.inl (hround f hf)))
    · rw [hpending] at hf
      exact (List.mem_append.mp hf).imp (fun hold => .inr (.inr hold)) (hmore f)
  refine ⟨heffect.opened, heffect.drained, ?_, ?_, hdue, ?_⟩
  · rw [heffect.stream, h.stream, List.flatten_append]
  · have hnone : more.flatMap TcpFunctor.messages = [] :=
      List.flatMap_eq_nil_iff.mpr fun f hf => by rw [hmore f hf]; rfl
    rw [queued, hpending, ← List.append_assoc, List.flatMap_append, hnone, List.append_nil]
    exact hreturned
  · rcases heffect.shutdowns with hsame | ⟨hnow, hidle⟩
    · refine h.guarded.frame heffect.state hsame ?_ hout
      intro hshut
      obtain ⟨hidle, hnone⟩ := h.guarded.shut hshut
      refine heffect.idle (hmessages.elim id ?_) hidle
      rintro ⟨f, hf, rfl⟩
      exact hnone f hf
    · refine ⟨?_, ?_, fun _ => ⟨hidle, ?_⟩⟩
      · intro f hf
        rcases hout f hf with hold | rfl
        · exact h.guarded.functors f hold
        · exact ⟨nofun, nofun⟩
      · intro hconnected
        exact absurd (heffect.state.symm.trans hconnected) (hstate hnow)
      · intro f hf
        rcases hout f hf with hold | rfl
        · exact hshuts hnow f hold
        · rfl

/-- A functor is called that was outstanding. -/
theorem Sound.callFunctor (h : s.Sound) {preceding : UInt8} {r : WriteResult}
    (hcalled : s.called a = some (functor, preceding, r)) (hin : s.InOrder a)
    (caller : Option TcpFunctor) (round : List TcpFunctor) (returned : List Bytes)
    (hcaller : ∀ f, caller = some f → s.caller = some f) (hround : ∀ f ∈ round, f ∈ s.round)
    (hreturned : returned.Perm (s.sent ++ functor.messages ++
      (round ++ s.conn.loop.pendingFunctors).flatMap TcpFunctor.messages))
    (hdue : s.due <+: returned) :
    ∃ s', callFunctor { s with caller := caller, round := round, returned := returned } functor
      preceding r = .ok s' ∧ s'.Sound := by
  have hout := called_outstanding hcalled
  obtain ⟨hforce, hdestroy⟩ := h.guarded.functors functor hout
  obtain ⟨conn, hconn, heffect⟩ := TcpConnection.runFunctor_effect h.opened h.drained hforce hdestroy
    fun message heq => hin.accepted message preceding r (heq ▸ hcalled)
  refine ⟨_, by rw [TcpThreads.callFunctor, hconn]; rfl, h.ran heffect caller round returned hcaller
    hround (.inr ⟨functor, hout, rfl⟩) hreturned hdue ?_ ?_⟩
  · exact fun hshuts hstate => (h.guarded.connected hstate).2 functor hout hshuts.1
  · rintro ⟨rfl, hidle⟩
    exact hin.sent (.inl ⟨preceding, r, hcalled, hidle⟩)

theorem Sound.step_spec (h : s.Sound) (hin : s.InOrder a) : ∃ s', step s a = .ok s' ∧ s'.Sound := by
  cases a with
  | send thread msg =>
    by_cases hcall : s.callOf thread = none ∧ s.conn.state = .kConnected
    · exact ⟨_, by rw [step, if_pos hcall], h.send hcall.2 msg⟩
    · exact ⟨s, by rw [step, if_neg hcall], h⟩
  | shutdown thread =>
    by_cases hcall : s.callOf thread = none ∧ s.conn.state = .kConnected
    · exact ⟨_, by rw [step, if_pos hcall], h.shutdown hcall.2⟩
    · exact ⟨s, by rw [step, if_neg hcall], h⟩
  | queue thread =>
    cases hcall : s.callers thread with
    | none => exact ⟨s, by rw [step, hcall], h⟩
    | some functor => exact ⟨_, by rw [step, hcall], h.queue hcall⟩
  | call preceding r =>
    cases hcall : s.caller with
    | none => exact ⟨s, by rw [step, hcall], h⟩
    | some functor =>
      have hcalled : s.called (.call preceding r) = some (functor, preceding, r) := by
        rw [called, hcall]
        rfl
      rw [step, hcall]
      refine h.callFunctor hcalled hin none s.round (s.returned ++ functor.messages) nofun
        (fun _ hf => hf) ?_ (h.due.trans (List.prefix_append ..))
      -- The message comes before those that are queued.
      refine (h.returned.append_right functor.messages).trans ?_
      rw [List.append_assoc, List.append_assoc]
      exact List.perm_append_comm.append_left s.sent
  | handleWrite r =>
    by_cases hidle : s.caller = none ∧ s.round = []
    · obtain ⟨conn, hconn, heffect⟩ := TcpConnection.handleWrite_effect h.opened h.drained r
      refine ⟨{ s with conn := conn }, by rw [step, if_pos hidle, hconn]; rfl, ?_⟩
      have hran := h.ran heffect s.caller s.round s.returned (fun _ hf => hf) (fun _ hf => hf)
        (.inl rfl) (by simpa [queued] using h.returned) h.due
        (fun hshuts => by simp [hshuts.2])
        (fun hshuts => hin.sent (.inr ⟨r, ⟨rfl, hidle⟩, hshuts.1, hshuts.2⟩))
      rw [List.append_nil] at hran
      exact hran
    · exact ⟨s, by rw [step, if_neg hidle], h⟩
  | beginRound =>
    by_cases hidle : s.caller = none ∧ s.round = []
    · exact ⟨_, by rw [step, if_pos hidle], h.beginRound hidle.2⟩
    · exact ⟨s, by rw [step, if_neg hidle], h⟩
  | functor preceding r =>
    rcases hcaller : s.caller with _ | _
    · rcases hround : s.round with _ | ⟨functor, round⟩
      · exact ⟨s, by rw [step, hcaller, hround], h⟩
      · have hcalled : s.called (.functor preceding r) = some (functor, preceding, r) := by
          rw [called, hcaller, hround]
        rw [step, hcaller, hround]
        refine (hcaller ▸ h.callFunctor hcalled hin s.caller round s.returned (fun _ hf => hf)
          (fun f hf => hround ▸ List.mem_cons_of_mem functor hf) ?_ h.due :)
        have hreturned := h.returned
        rw [queued, hround, List.cons_append, List.flatMap_cons, ← List.append_assoc] at hreturned
        exact hreturned
    · exact ⟨s, by rw [step, hcaller], h⟩

theorem sound_start {loop : EventLoop TcpFunctor} {ptr fd : Nat} {writeComplete : Bool}
    {c : TcpConnection} (hloop : loop.pendingFunctors = [])
    (hc : (TcpConnection.new loop ptr fd writeComplete).connectEstablished = .ok c) :
    (start c).Sound := by
  obtain ⟨hopen, hstate, hevents, hbuffer, hsocket, hpending⟩ :=
    TcpConnection.connectEstablished_spec rfl hc
  have hempty : c.outputBuffer.readableBytes = 0 := by rw [hbuffer]; rfl
  have hnone : c.loop.pendingFunctors = [] := hpending.trans hloop
  have hout : ∀ f, ¬(start c).Outstanding f := by
    rintro f (⟨_ | thread, hf⟩ | hf | hf)
    · cases hf
    · cases hf
    · cases hf
    · rw [start, hnone] at hf
      cases hf
  refine ⟨hopen, fun _ => hempty, ?_, ?_, List.nil_prefix, fun f hf => absurd hf (hout f),
    fun _ => ⟨?_, fun f hf => absurd hf (hout f)⟩, fun _ => ⟨?_, fun f hf => absurd hf (hout f)⟩⟩
  · have hread : c.outputBuffer.readable = [] :=
      List.eq_nil_of_length_eq_zero (by rw [Buffer.length_readable, hempty])
    show c.socket.written ++ c.outputBuffer.readable = []
    rw [hread, hsocket]
    rfl
  · rw [queued, start, hnone]
    exact .nil
  · show c.socket.shutdowns = 0
    rw [hsocket]
    rfl
  · show c.channel.isWriting = false
    rw [Channel.isWriting, hevents]
    show Events.has (Channel.kNoneEvent ||| Channel.kReadEvent) Channel.kWriteEvent = false
    decide

/-- In every run of the calls of any threads on an established connection, with the rounds and the
write events of its loop, in which no direct write fails and no message is on its way to
`sendInLoop` when the socket is shut down: when the socket is shut down, every message whose `send`
returned before the `shutdown` has been written, and nothing is written later. -/
theorem shuts_down_after_sends {loop : EventLoop TcpFunctor} {ptr fd : Nat} {writeComplete : Bool}
    {c : TcpConnection} (hloop : loop.pendingFunctors = [])
    (hc : (TcpConnection.new loop ptr fd writeComplete).connectEstablished = .ok c)
    {steps : List TcpThreadStep} (h : Along step InOrder (start c) steps) :
    (∃ s, run step (start c) steps = .ok s) ∧ Along step ShutsDownLast (start c) steps := by
  have hstart := sound_start hloop hc
  constructor
  · obtain ⟨s, hrun, -⟩ := h.run_total (fun _ _ hs hin => Sound.step_spec hs hin) hstart
    exact ⟨s, hrun⟩
  · have hnext : ∀ s a s', s.Sound → s.InOrder a → step s a = .ok s' → s'.Sound :=
      fun s a s' hs hin hstep => by
        obtain ⟨t, ht, hsound⟩ := hs.step_spec hin
        cases hstep.symm.trans ht
        exact hsound
    refine h.imp (I := Sound) hnext ?_ hstart
    intro s a hs hin
    exact ⟨fun s' hstep hlt => (hnext s a s' hs hin hstep).written (by omega), hs.not_writes⟩

theorem inOrder_of_called {a : TcpThreadStep}
    (hcalled : ∀ functor preceding r, s.called a = some (functor, preceding, r) →
      functor.messages = [] ∧ functor ≠ .shutdownInLoop) (hwrite : ∀ r, a ≠ .handleWrite r) :
    s.InOrder a where
  accepted message preceding r h := by
    cases (hcalled _ _ _ h).1
  sent hshuts := by
    rcases hshuts with ⟨preceding, r, h, -⟩ | ⟨r, hhandles, -⟩
    · exact absurd rfl (hcalled _ _ _ h).2
    · exact absurd hhandles.1 (hwrite r)

/-- A message is written whole before the loop's thread shuts the connection down. -/
theorem shuts_down_after_sends_example : ∃ (c : TcpConnection) (s : TcpThreads),
    (TcpConnection.new .new 1 5 false).connectEstablished = .ok c ∧
    run step (start c) [.send none (ofString "ab"), .call 0 (.accepted 2), .shutdown none,
      .call 0 .failed] = .ok s ∧
    Along step ShutsDownLast (start c) [.send none (ofString "ab"), .call 0 (.accepted 2),
      .shutdown none, .call 0 .failed] := by
  obtain ⟨c, hc⟩ : ∃ c, (TcpConnection.new .new 1 5 false).connectEstablished = .ok c := ⟨_, rfl⟩
  have hin : Along step InOrder (start c) [.send none (ofString "ab"), .call 0 (.accepted 2),
      .shutdown none, .call 0 .failed] := by
    cases hc
    refine ⟨inOrder_of_called nofun nofun, ?_⟩
    intro s hs
    cases hs
    refine ⟨⟨fun message preceding r h => ?_, ?_⟩, fun s hs => ?_⟩
    · cases h
      exact fun _ _ _ h => WriteResult.noConfusion h
    · rintro (⟨preceding, r, h, -⟩ | ⟨r, hhandles, -⟩)
      · cases h
      · cases hhandles.1
    cases hs
    refine ⟨inOrder_of_called nofun nofun, ?_⟩
    intro s hs
    cases hs
    refine ⟨⟨nofun, ?_⟩, fun s hs => trivial⟩
    intro _ f hf
    rcases hf with ⟨_ | thread, hf⟩ | hf | hf
    · cases hf
      rfl
    · cases hf
    · cases hf
    · cases hf
  obtain ⟨⟨s, hs⟩, hlast⟩ := shuts_down_after_sends rfl hc hin
  exact ⟨c, s, hc, hs, hlast⟩

/-- A message that another thread has sent is still queued when the loop's thread shuts the
connection down: the socket is shut down before the message is written. -/
theorem shutdown_overtakes_send : ∃ (c : TcpConnection) (s s' t : TcpThreads),
    (TcpConnection.new .new 1 5 false).connectEstablished = .ok c ∧
    run step (start c) [.send (some 3) (ofString "ab"), .queue 3, .shutdown none] = .ok s ∧
    step s (.call 0 .failed) = .ok s' ∧ s'.conn.socket = ⟨[], 1⟩ ∧ s'.due = [ofString "ab"] ∧
    s'.sent = [] ∧ ¬s.ShutsDownLast (.call 0 .failed) ∧
    step s' .beginRound = .ok t ∧ t.Writes (.functor 0 (.accepted 2)) ∧
    ¬t.ShutsDownLast (.functor 0 (.accepted 2)) := by
  refine ⟨_, _, _, _, rfl, rfl, rfl, rfl, rfl, rfl, ?_, rfl, ?_, ?_⟩
  · intro hlast
    have hdue := (hlast.written _ rfl (by decide)).1
    exact absurd hdue.length_le (by decide)
  · exact .inl ⟨_, _, _, rfl, nofun, by decide, by decide⟩
  · intro hlast
    exact hlast.noWrite (by decide) (.inl ⟨_, _, _, rfl, nofun, by decide, by decide⟩)

end

end TcpThreads

end Mymuduo
