import Mymuduo.Http.Session
import Mymuduo.Net.MessageStream

/-! The responses of an HTTP connection as its client receives them: in order, one behind the other,
however the socket takes them, and with the end of the stream behind the last of them. -/

namespace Mymuduo

open Lib

namespace Session

open TcpConnection

variable {fs : FileSystem} {sourceDir : Bytes} {s t : Session} {preceding : UInt8}
  {sent w : WriteResult}

/-- The bytes that a step reads from the socket. -/
def received (s : Session) : Step → Bytes
  | .event revents r _ _ _ => s.2.arriving revents r
  | .functor .. | .timeout | .ownerRemoves => []

/-- No direct write of a response fails. -/
def ResponseTaken (s : Session) : Step → Prop
  | .event revents r _ _ sent => s.2.arriving revents r ≠ [] → s.2.TakesAnswer sent
  | .functor .. | .timeout | .ownerRemoves => True

instance (s : Session) : (a : Step) → Decidable (ResponseTaken s a)
  | .event _ _ _ _ sent => inferInstanceAs (Decidable (_ → s.2.TakesAnswer sent))
  | .functor .. | .timeout | .ownerRemoves => .isTrue trivial

/-- The bytes of the responses given so far. -/
def responses (s : Session) : Bytes := s.1.answers.flatMap fun a => a.bytes

/-- The responses make up the output stream, and while the connection is up those that wait are
waited for. -/
structure Wired (s : Session) : Prop where
  quiet : s.2.QuietQueue
  stream : s.2.stream = s.responses
  up : s.2.state = .kConnected → Mirrors s.2

/-! ### The connection in `processMessage` -/

/-- What `processMessage` does to the connection: it takes bytes from the input, and a response goes
to the output buffer, is sent, and shuts the connection down unless it keeps it. -/
theorem processMessage_conn (h : processMessage fs preceding sent s = .ok t) :
    ∃ inputBuffer, t.1.answers = s.1.answers ∧ t.2 = { s.2 with inputBuffer := inputBuffer } ∨
      ∃ (a : Answer) (outputBuffer : Buffer) (d : TcpConnection),
        t.1.answers = s.1.answers ++ [a] ∧
        s.2.outputBuffer.append a.bytes = .ok outputBuffer ∧
        TcpConnection.sendOutputBuffer
          { s.2 with inputBuffer := inputBuffer, outputBuffer := outputBuffer } preceding sent =
          .ok d ∧
        t.2 = if a.keepAlive then d else d.shutdown true := by
  obtain ⟨⟨ret, http, inputBuffer⟩, -, h⟩ := bind_eq_ok.mp h
  refine ⟨inputBuffer, ?_⟩
  dsimp only at h
  split at h
  · cases h
    exact .inl ⟨rfl, rfl⟩
  · obtain ⟨⟨http', bytes⟩, -, h⟩ := bind_eq_ok.mp h
    obtain ⟨outputBuffer, hout, h⟩ := bind_eq_ok.mp h
    obtain ⟨d, hd, h⟩ := bind_eq_ok.mp h
    refine .inr ⟨⟨⟨bytes, http'.keepAlive⟩,
      s.1.lineTaken || takesRequestLine s.1.http s.2.inputBuffer⟩, outputBuffer, d, ?_, hout, hd, ?_⟩
    · dsimp only at h
      split at h <;> cases h <;> rfl
    · dsimp only at h
      split at h
      · rename_i hclose
        cases h
        rw [if_neg (by simpa using hclose)]
      · rename_i hkeep
        cases h
        rw [if_pos (by simpa using hkeep)]

/-! ### The output stream -/

theorem Wired.shutdown (h : Wired s) : Wired (s.1, s.2.shutdown true) where
  quiet := h.quiet.shutdown
  stream := (s.2.shutdown_stream true).trans h.stream
  up hstate := by
    unfold TcpConnection.shutdown at hstate
    split at hstate
    · have hlife := shutdownInLoop_sameLife (c := { s.2 with state := .kDisconnecting })
      exact absurd (hlife.state.symm.trans hstate) (by simp)
    · rename_i hdown
      exact absurd hstate hdown

theorem processMessage_wired (h : Wired s) (htakes : s.2.TakesAnswer sent)
    (ht : processMessage fs preceding sent s = .ok t) : Wired t := by
  obtain ⟨inputBuffer, ⟨hanswers, hconn⟩ | ⟨a, outputBuffer, d, hanswers, hout, hd, hconn⟩⟩ :=
    processMessage_conn ht
  · refine ⟨?_, ?_, ?_⟩
    · rw [hconn]
      exact h.quiet
    · rw [hconn, responses, hanswers]
      exact h.stream
    · rw [hconn]
      exact fun hstate => (h.up hstate).withInput inputBuffer
  · obtain ⟨out, happend, hreadable⟩ := s.2.outputBuffer.append_spec a.bytes
    cases hout.symm.trans happend
    have hanswered : Wired (t.1, d) := by
      refine ⟨?_, ?_, ?_⟩
      · exact quietQueue_output.sendOutputBuffer (c := { s.2 with
          inputBuffer := inputBuffer, outputBuffer := outputBuffer }) h.quiet hd
      · have hstream := sendOutputBuffer_stream (c := { s.2 with
          inputBuffer := inputBuffer, outputBuffer := outputBuffer }) htakes hd
        rw [hstream, responses, hanswers, List.flatMap_append, List.flatMap_singleton]
        rw [stream, hreadable, ← List.append_assoc]
        exact congrArg (· ++ a.bytes) h.stream
      · intro hstate
        have hup := (sendOutputBuffer_state hd).symm.trans hstate
        obtain ⟨e, he, hmirrors, -⟩ := sendOutputBuffer_spec
          (c := { s.2 with inputBuffer := inputBuffer }) ((h.up hup).withInput inputBuffer) hup hout
          preceding htakes
        cases hd.symm.trans he
        exact hmirrors
    have hend : t = (t.1, t.2) := rfl
    rw [hend, hconn]
    split
    · exact hanswered
    · exact hanswered.shutdown

theorem Wired.withConn {d : TcpConnection} (h : Wired s) (hquiet : d.QuietQueue)
    (hstream : d.stream = s.2.stream) (hup : d.state = .kConnected → Mirrors d) :
    Wired (s.1, d) :=
  ⟨hquiet, hstream.trans h.stream, hup⟩

theorem Wired.handleClose {d : TcpConnection} (h : Wired s) (hd : s.2.handleClose = .ok d) :
    Wired (s.1, d) := by
  have hdown := (handleClose_change hd).2
  refine h.withConn (h.quiet.handleClose hd) (handleClose_stream hd) ?_
  intro hstate
  exact absurd (hdown.symm.trans hstate) (by simp)

theorem Wired.handleWrite {d : TcpConnection} (h : Wired s) (hd : s.2.handleWrite w = .ok d) :
    Wired (s.1, d) := by
  refine h.withConn (quietQueue_output.handleWrite h.quiet hd) (handleWrite_stream hd) ?_
  intro hstate
  have hup := (handleWrite_sameLife hd).state.symm.trans hstate
  obtain ⟨e, he, hspec⟩ := handleWrite_spec (h.up hup) w
  cases hd.symm.trans he
  exact hspec.mirrors

theorem Wired.withEvents (h : Wired s) (revents : Events) (eventHandling : Bool) :
    Wired (s.1, s.2.withEvents revents eventHandling) :=
  h.withConn h.quiet rfl fun hstate => (h.up hstate).withEvents revents eventHandling

theorem Wired.handleRead {revents : Events} {r : Buffer.ReadResult} (h : Wired s)
    (htakes : s.2.arriving revents r ≠ [] → s.2.TakesAnswer sent)
    (hreads : revents.has (POLLIN ||| POLLPRI ||| POLLRDHUP) = true)
    (ht : TcpConnection.handleRead (processMessage fs preceding sent) r s = .ok t) : Wired t := by
  obtain ⟨inputBuffer, -, hcases⟩ := handleRead_stages hreads ht
  have hread : Wired (s.1, { s.2 with inputBuffer := inputBuffer }) :=
    h.withConn h.quiet rfl fun hstate => (h.up hstate).withInput inputBuffer
  rcases hcases with ⟨hmessage, hne⟩ | ⟨-, rfl | ⟨d, hd, rfl⟩⟩
  · exact processMessage_wired hread (htakes hne) hmessage
  · exact hread
  · exact hread.handleClose hd

theorem step_wired {a : Step} (h : Wired s) (htaken : ResponseTaken s a)
    (ht : step fs s a = .ok t) : Wired t := by
  cases a with
  | event revents r w preceding sent =>
    obtain ⟨u, hu, rfl⟩ := handleEvent_stages
      (I := fun u => Wired u ∧ (s.2.arriving revents r ≠ [] → u.2.TakesAnswer sent) ∧
        u.2.inputBuffer = s.2.inputBuffer)
      (K := Wired) ht ⟨h.withEvents revents true, htaken, rfl⟩
      (fun u d hu hd => ⟨hu.1.handleClose hd, fun _ => .handleClose hd,
        (handleClose_input hd).trans hu.2.2⟩)
      (fun hreads u v hu hv => by
        have harriving : u.2.arriving revents r = s.2.arriving revents r := by
          unfold arriving
          rw [hu.2.2]
        exact hu.1.handleRead (by rw [harriving]; exact hu.2.1) hreads hv)
      (fun _ u hu => hu.1)
      (fun u d hu hd => hu.handleWrite hd)
    exact hu.withEvents _ false
  | functor preceding w =>
    obtain ⟨d, hd, ht⟩ := bind_eq_ok.mp ht
    cases ht
    obtain ⟨hstream, hquiet⟩ := runPending_stream h.quiet hd
    exact h.withConn hquiet hstream fun hstate => (runPending_mirrors h.quiet h.up hd hstate).2
  | timeout =>
    cases ht
    exact h.shutdown
  | ownerRemoves =>
    cases ht
    refine h.withConn (h.quiet.queueInLoop false (.inr rfl)) rfl ?_
    intro hstate
    obtain ⟨hopen, hwriting⟩ := h.up hstate
    refine ⟨⟨hopen.state, ?_⟩, hwriting⟩
    simpa [TcpConnection.queueInLoop] using hopen.tracks

theorem wired_connectEstablished {conn : TcpConnection} {ptr fd : Nat} {writeComplete : Bool}
    (hc : (TcpConnection.new .new ptr fd writeComplete).connectEstablished = .ok conn) :
    Wired (onConnection sourceDir conn) := by
  obtain ⟨-, -, -, houtput, hsocket, hqueue⟩ := connectEstablished_spec rfl hc
  refine ⟨?_, ?_, fun _ => mirrors_connectEstablished hc⟩
  · intro functor hfunctor
    rw [onConnection, hqueue] at hfunctor
    cases hfunctor
  · show stream conn = _
    rw [stream, houtput, hsocket]
    rfl

/-- In every run of an HTTP connection in which no direct write of a response fails, what the kernel
has accepted and what waits to be written make up the responses, in the order in which they were
given; and while the connection is up, the channel waits for the socket exactly if something waits
to be written. -/
theorem responses_on_wire {conn : TcpConnection} {ptr fd : Nat} {writeComplete : Bool}
    {steps : List Step}
    (hc : (TcpConnection.new .new ptr fd writeComplete).connectEstablished = .ok conn)
    (htaken : Along (step fs) ResponseTaken (onConnection sourceDir conn) steps)
    (hrun : run (step fs) (onConnection sourceDir conn) steps = .ok s) :
    s.2.socket.written ++ s.2.outputBuffer.readable = s.1.answers.flatMap (fun a => a.bytes) ∧
      (s.2.state = .kConnected →
        (s.2.channel.isWriting = true ↔ s.2.outputBuffer.readable ≠ [])) := by
  have h := htaken.run_invariant (I := Wired) (fun s a t h htaken ht => step_wired h htaken ht)
    (wired_connectEstablished hc) hrun
  refine ⟨h.stream, ?_⟩
  intro hstate
  rw [(h.up hstate).writing, ← Buffer.length_readable, Ne, List.length_eq_zero_iff]

/-- Two requests of which the second one closes: the first response is taken in two writes. -/
def twoRequests : List Step :=
  [receive (ofString "GET / HTTP/1.1\r\nConnection: keep-alive\r\n\r\n") (.accepted 50),
    .event POLLOUT .error (.accepted 1000) 0 .failed,
    receive (ofString "GET / HTTP/1.1\r\n\r\n") (.accepted 50),
    .event POLLOUT .error (.accepted 1000) 0 .failed]

theorem responses_on_wire_two : ∃ (conn : TcpConnection) (s : Session),
    (TcpConnection.new .new 1 5 false).connectEstablished = .ok conn ∧
    run (step rootSite) (onConnection [] conn) twoRequests = .ok s ∧
    s.1.answers.length = 2 ∧ s.2.outputBuffer.readable = [] ∧
    s.2.socket.written ++ s.2.outputBuffer.readable =
      s.1.answers.flatMap (fun a => a.bytes) := by
  have heval : ((TcpConnection.new .new 1 5 false).connectEstablished >>= fun conn =>
      run (step rootSite) (onConnection [] conn) twoRequests >>= fun s =>
        .ok (s.1.answers.length, s.2.outputBuffer.readable,
          decide (Along (step rootSite) ResponseTaken (onConnection [] conn) twoRequests))) =
      .ok (2, [], true) := by decide +kernel
  obtain ⟨conn, hconn, heval⟩ := bind_eq_ok.mp heval
  obtain ⟨s, hs, heval⟩ := bind_eq_ok.mp heval
  simp only [Except.ok.injEq, Prod.mk.injEq, decide_eq_true_eq] at heval
  exact ⟨conn, s, hconn, hs, heval.1, heval.2.1, (responses_on_wire hconn heval.2.2 hs).1⟩

end Session

end Mymuduo
