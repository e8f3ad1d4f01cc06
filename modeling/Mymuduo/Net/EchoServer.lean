import Mymuduo.Net.MessageStream

/-! The echo server.  Its message callback sends the input of the connection back, so that what has
been written to the socket, what waits to be written and what is left of the input make up what has
been read. -/

namespace Mymuduo

open Lib

namespace TcpConnection

/-- `send(&inputBuffer_)` on the loop thread. -/
def sendInputBuffer (c : TcpConnection) (preceding : UInt8) (r : WriteResult) :
    Except Fault TcpConnection :=
  if c.state = .kConnected then do
    let (msg, inputBuffer) ← c.inputBuffer.retrieveAllAsString
    sendInLoop { c with inputBuffer := inputBuffer } msg preceding r
  else
    .ok c

end TcpConnection

namespace EchoServer

open TcpConnection

/-- `onMessage`.  `preceding` and `sent` are for the direct write of `sendInLoop`. -/
def onMessage (preceding : UInt8) (sent : WriteResult) (s : Unit × TcpConnection) :
    Except Fault (Unit × TcpConnection) :=
  withContext (fun c => c.sendInputBuffer preceding sent) s

/-- A step of the loop.  `ownerRemoves` is the server, which queues `connectDestroyed`. -/
inductive Step
  | event (revents : Events) (r : Buffer.ReadResult) (w : WriteResult) (preceding : UInt8)
      (sent : WriteResult)
  | functor (preceding : UInt8) (w : WriteResult)
  | ownerRemoves
  deriving DecidableEq, Repr

def step (c : TcpConnection) : Step → Except Fault TcpConnection
  | .event revents r w preceding sent => do
    let (_, c) ← handleEvent (onMessage preceding sent) revents r w ((), c)
    return c
  | .functor preceding w => c.runPending preceding w
  | .ownerRemoves => .ok (c.queueInLoop false .connectDestroyed)

/-- The bytes that a step reads from the socket. -/
def received (c : TcpConnection) : Step → Bytes
  | .event revents r _ _ _ => c.arriving revents r
  | .functor .. | .ownerRemoves => []

/-- No direct write of an echo fails. -/
def EchoTaken (c : TcpConnection) : Step → Prop
  | .event revents r _ _ sent => c.arriving revents r ≠ [] → c.TakesAnswer sent
  | .functor .. | .ownerRemoves => True

instance (c : TcpConnection) : (a : Step) → Decidable (EchoTaken c a)
  | .event _ _ _ _ sent => inferInstanceAs (Decidable (_ → c.TakesAnswer sent))
  | .functor .. | .ownerRemoves => .isTrue trivial

/-- What has been read is in the output stream or still in the input; while the connection is up it
is all in the stream, and what waits there is waited for. -/
structure Echoing (c : TcpConnection) (received : Bytes) : Prop where
  quiet : c.QuietQueue
  stream : c.stream ++ c.inputBuffer.readable = received
  up : c.state = .kConnected → Mirrors c ∧ c.inputBuffer.readable = []

variable {c d : TcpConnection} {bytes : Bytes} {preceding : UInt8} {sent w : WriteResult}

theorem Echoing.withEvents (h : Echoing c bytes) (revents : Events) (eventHandling : Bool) :
    Echoing (c.withEvents revents eventHandling) bytes where
  quiet := h.quiet
  stream := h.stream
  up hstate := by
    obtain ⟨hmirrors, hinput⟩ := h.up hstate
    exact ⟨hmirrors.withEvents revents eventHandling, hinput⟩

theorem Echoing.handleClose (h : Echoing c bytes) (hd : c.handleClose = .ok d) :
    Echoing d bytes ∧ d.inputBuffer = c.inputBuffer := by
  have hinput := handleClose_input hd
  have hdown := (handleClose_change hd).2
  refine ⟨⟨h.quiet.handleClose hd, ?_, ?_⟩, hinput⟩
  · rw [handleClose_stream hd, hinput]
    exact h.stream
  · intro hstate
    exact absurd (hdown.symm.trans hstate) (by simp)

theorem Echoing.handleWrite (h : Echoing c bytes) (hd : c.handleWrite w = .ok d) :
    Echoing d bytes := by
  have hlife := handleWrite_sameLife hd
  refine ⟨quietQueue_output.handleWrite h.quiet hd, ?_, ?_⟩
  · rw [handleWrite_stream hd, hlife.inputBuffer]
    exact h.stream
  · intro hstate
    rw [hlife.state] at hstate
    obtain ⟨hmirrors, hinput⟩ := h.up hstate
    obtain ⟨e, he, hspec⟩ := handleWrite_spec hmirrors w
    cases hd.symm.trans he
    exact ⟨hspec.mirrors, by rw [hlife.inputBuffer]; exact hinput⟩

/-- Everything in the input goes to the stream. -/
theorem sendInputBuffer_spec (hquiet : c.QuietQueue) (htakes : c.TakesAnswer sent)
    (hup : c.state = .kConnected → Mirrors c)
    (hd : c.sendInputBuffer preceding sent = .ok d) :
    Echoing d (c.stream ++ c.inputBuffer.readable) := by
  unfold sendInputBuffer at hd
  split at hd
  · rename_i hstate
    obtain ⟨inputBuffer, hall, hnil⟩ := c.inputBuffer.retrieveAllAsString_spec
    rw [hall, ok_bind] at hd
    dsimp only at hd
    have hlife := sendInLoop_sameLife hd
    have hinput : d.inputBuffer.readable = [] := by rw [hlife.inputBuffer]; exact hnil
    obtain ⟨e, he, hspec⟩ := sendInLoop_spec ((hup hstate).withInput inputBuffer)
      c.inputBuffer.readable preceding sent
    cases hd.symm.trans he
    refine ⟨quietQueue_output.sendInLoop (c := { c with inputBuffer := inputBuffer }) hquiet hd,
      ?_, fun _ => ⟨hspec.mirrors, hinput⟩⟩
    rw [sendAll_stream (c := { c with inputBuffer := inputBuffer }) hstate htakes hd, hinput,
      List.append_nil]
    rfl
  · rename_i hstate
    cases hd
    exact ⟨hquiet, rfl, fun hup => absurd hup hstate⟩

/-- `handleRead` adds what arrives. -/
theorem Echoing.handleRead {s t : Unit × TcpConnection} {revents : Events} {r : Buffer.ReadResult}
    (h : Echoing s.2 bytes) (htakes : s.2.arriving revents r ≠ [] → s.2.TakesAnswer sent)
    (hreads : revents.has (POLLIN ||| POLLPRI ||| POLLRDHUP) = true)
    (ht : TcpConnection.handleRead (onMessage preceding sent) r s = .ok t) :
    Echoing t.2 (bytes ++ s.2.arriving revents r) := by
  obtain ⟨inputBuffer, hreadable, ⟨hmessage, hne⟩ | ⟨hnil, hrest⟩⟩ := handleRead_stages hreads ht
  · obtain ⟨d, hd, hmessage⟩ := bind_eq_ok.mp hmessage
    cases hmessage
    have hspec := sendInputBuffer_spec (c := { s.2 with inputBuffer := inputBuffer })
      h.quiet (htakes hne) (fun hstate => (h.up hstate).1.withInput inputBuffer) hd
    dsimp only at hspec
    rw [hreadable, ← List.append_assoc] at hspec
    rw [← h.stream]
    exact hspec
  · rw [hnil, List.append_nil] at hreadable ⊢
    have hsame : Echoing { s.2 with inputBuffer := inputBuffer } bytes := by
      refine ⟨h.quiet, ?_, ?_⟩
      · show s.2.stream ++ inputBuffer.readable = bytes
        rw [hreadable]
        exact h.stream
      · intro hstate
        obtain ⟨hmirrors, hinput⟩ := h.up hstate
        exact ⟨hmirrors.withInput inputBuffer, hreadable.trans hinput⟩
    rcases hrest with rfl | ⟨d, hd, rfl⟩
    · exact hsame
    · exact (hsame.handleClose hd).1

theorem Echoing.event {revents : Events} {r : Buffer.ReadResult} (h : Echoing c bytes)
    (htakes : c.arriving revents r ≠ [] → c.TakesAnswer sent)
    (hd : step c (.event revents r w preceding sent) = .ok d) :
    Echoing d (bytes ++ c.arriving revents r) := by
  obtain ⟨t, ht, hd⟩ := bind_eq_ok.mp hd
  cases hd
  -- Closing the connection leaves the input alone, and with it what can arrive.
  obtain ⟨u, hu, rfl⟩ := handleEvent_stages
    (I := fun u => Echoing u.2 bytes ∧ (c.arriving revents r ≠ [] → u.2.TakesAnswer sent) ∧
      u.2.inputBuffer = c.inputBuffer)
    (K := fun u => Echoing u.2 (bytes ++ c.arriving revents r)) ht
    ⟨h.withEvents revents true, htakes, rfl⟩
    (fun u d hu hd => ⟨(hu.1.handleClose hd).1, fun _ => .handleClose hd,
      (hu.1.handleClose hd).2.trans hu.2.2⟩)
    (fun hreads u v hu hv => by
      have harriving : u.2.arriving revents r = c.arriving revents r := by
        unfold arriving
        rw [hu.2.2]
      rw [← harriving] at hu ⊢
      exact hu.1.handleRead hu.2.1 hreads hv)
    (fun hskip u hu => by
      have hnil : c.arriving revents r = [] := by
        cases r with
        | data bytes => exact if_neg (by rw [hskip]; simp)
        | error => rfl
      rw [hnil, List.append_nil]
      exact hu.1)
    (fun u d hu hd => hu.handleWrite hd)
  exact hu.withEvents _ false

theorem Echoing.functor (h : Echoing c bytes) (hd : c.runPending preceding w = .ok d) :
    Echoing d bytes := by
  obtain ⟨hstream, hquiet⟩ := runPending_stream h.quiet hd
  refine ⟨hquiet, ?_, ?_⟩
  · rw [hstream, runPending_input hd]
    exact h.stream
  · intro hstate
    obtain ⟨hup, hmirrors⟩ :=
      runPending_mirrors h.quiet (fun hup => (h.up hup).1) hd hstate
    exact ⟨hmirrors, by rw [runPending_input hd]; exact (h.up hup).2⟩

theorem Echoing.step {a : Step} (h : Echoing c bytes) (htaken : EchoTaken c a)
    (hd : step c a = .ok d) : Echoing d (bytes ++ received c a) := by
  cases a with
  | event revents r w preceding sent => exact h.event htaken hd
  | functor preceding w =>
    rw [received, List.append_nil]
    exact h.functor hd
  | ownerRemoves =>
    rw [received, List.append_nil]
    cases hd
    refine ⟨h.quiet.queueInLoop false (.inr rfl), h.stream, ?_⟩
    intro hstate
    obtain ⟨hmirrors, hinput⟩ := h.up hstate
    refine ⟨⟨⟨hmirrors.opened.state, ?_⟩, hmirrors.writing⟩, hinput⟩
    simpa [TcpConnection.queueInLoop] using hmirrors.opened.tracks

theorem echoing_connectEstablished {ptr fd : Nat} {writeComplete : Bool}
    (hc : (TcpConnection.new .new ptr fd writeComplete).connectEstablished = .ok c) :
    Echoing c [] := by
  obtain ⟨-, -, -, houtput, hsocket, hqueue⟩ := connectEstablished_spec rfl hc
  have hinput : c.inputBuffer = .new kInitialSize := by
    obtain ⟨u, -, hc⟩ := bind_eq_ok.mp hc
    obtain ⟨e, he, hc⟩ := bind_eq_ok.mp hc
    have hlife := onChannel_sameLife he
    cases hc
    exact hlife.inputBuffer
  refine ⟨?_, ?_, fun _ =>
    ⟨mirrors_connectEstablished hc, by rw [hinput]; exact Buffer.readable_new _⟩⟩
  · intro functor hfunctor
    rw [hqueue] at hfunctor
    cases hfunctor
  · rw [stream, houtput, hsocket, hinput]
    simp [TcpConnection.new]

/-- In every run of a connection of the echo server in which no direct write of an echo fails, what
the kernel has accepted, what waits to be written and what is left of the input make up what has been
read; while the connection is up nothing is left of the input, and the channel waits for the socket
exactly if something waits to be written. -/
theorem echoes {ptr fd : Nat} {writeComplete : Bool} {steps : List Step}
    (hc : (TcpConnection.new .new ptr fd writeComplete).connectEstablished = .ok c)
    (htaken : Along step EchoTaken c steps) (hrun : run step c steps = .ok d) :
    d.socket.written ++ d.outputBuffer.readable ++ d.inputBuffer.readable =
        trace step received c steps ∧
      (d.state = .kConnected → d.inputBuffer.readable = [] ∧
        (d.channel.isWriting = true ↔ d.outputBuffer.readable ≠ [])) := by
  have h := htaken.trace_invariant (I := Echoing) (fun _ _ _ _ h htaken hd => h.step htaken hd)
    (echoing_connectEstablished hc) hrun
  rw [List.nil_append] at h
  refine ⟨h.stream, ?_⟩
  intro hstate
  obtain ⟨hmirrors, hinput⟩ := h.up hstate
  refine ⟨hinput, ?_⟩
  rw [hmirrors.writing, ← Buffer.length_readable, Ne, List.length_eq_zero_iff]

/-- Three bytes arrive and one of them is written at once, and the client goes when the rest has
been written. -/
def sayHello : List Step :=
  [.event POLLIN (.data [104, 105, 33]) .failed 0 (.accepted 1),
    .event POLLOUT .error (.accepted 2) 0 .failed, .event POLLIN (.data []) .failed 0 .failed]

theorem echoes_sayHello : ∃ c d : TcpConnection,
    (TcpConnection.new .new 1 5 false).connectEstablished = .ok c ∧
    run step c sayHello = .ok d ∧ d.state = .kDisconnected ∧
    d.socket.written = [104, 105, 33] ∧
    d.socket.written ++ d.outputBuffer.readable ++ d.inputBuffer.readable =
      trace step received c sayHello := by
  have heval : ((TcpConnection.new .new 1 5 false).connectEstablished >>= fun c =>
      run step c sayHello >>= fun d =>
        .ok (d.state, d.socket.written, decide (Along step EchoTaken c sayHello))) =
      .ok (.kDisconnected, [104, 105, 33], true) := by decide +kernel
  obtain ⟨c, hc, heval⟩ := bind_eq_ok.mp heval
  obtain ⟨d, hd, heval⟩ := bind_eq_ok.mp heval
  simp only [Except.ok.injEq, Prod.mk.injEq, decide_eq_true_eq] at heval
  exact ⟨c, d, hc, hd, heval.1, heval.2.1, (echoes hc heval.2.2 hd).1⟩

end EchoServer

end Mymuduo
