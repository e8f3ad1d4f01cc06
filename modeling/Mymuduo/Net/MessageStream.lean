import Mymuduo.Net.ConnectionStages
import Mymuduo.Net.ForceClose
import Mymuduo.Net.WriteInterest

/-! A connection whose message callback answers: what an event, a queued functor or the owner does to
the output stream and to the queue of the loop, as long as no direct write of an answer fails. -/

namespace Mymuduo.TcpConnection

open Lib

variable {c d : TcpConnection}

/-! ### The stages of an event -/

/-- The channel as `handleEvent` finds it, and as it leaves it. -/
def withEvents (c : TcpConnection) (revents : Events) (eventHandling : Bool) : TcpConnection :=
  { c with channel := { c.channel with revents := revents, eventHandling := eventHandling } }

/-- The bytes that an event lets `handleRead` take from the socket. -/
def arriving (c : TcpConnection) (revents : Events) : Buffer.ReadResult → Bytes
  | .data bytes =>
    if revents.has (POLLIN ||| POLLPRI ||| POLLRDHUP) then bytes.take c.inputBuffer.readCapacity
    else []
  | .error => []

/-- What holds up to the read callback, and what holds from there on. -/
theorem handleEvent_stages {κ : Type} {I K : κ × TcpConnection → Prop} {s t : κ × TcpConnection}
    {messageCallback : κ × TcpConnection → Except Fault (κ × TcpConnection)} {revents : Events}
    {r : Buffer.ReadResult} {w : WriteResult}
    (h : handleEvent messageCallback revents r w s = .ok t)
    (hbegin : I (s.1, s.2.withEvents revents true))
    (hclose : ∀ u d, I u → u.2.handleClose = .ok d → I (u.1, d))
    (hread : revents.has (POLLIN ||| POLLPRI ||| POLLRDHUP) = true →
      ∀ u v, I u → handleRead messageCallback r u = .ok v → K v)
    (hskip : revents.has (POLLIN ||| POLLPRI ||| POLLRDHUP) = false → ∀ u, I u → K u)
    (hwrite : ∀ u d, K u → u.2.handleWrite w = .ok d → K (u.1, d)) :
    ∃ u : κ × TcpConnection, K u ∧ t = (u.1, u.2.withEvents u.2.channel.revents false) := by
  obtain ⟨v, hv, h⟩ := bind_eq_ok.mp h
  cases h
  obtain ⟨s₁, h₁, hv⟩ := bind_eq_ok.mp hv
  obtain ⟨s₂, h₂, hv⟩ := bind_eq_ok.mp hv
  obtain ⟨s₃, h₃, hv⟩ := bind_eq_ok.mp hv
  have hI₁ : I s₁ := by
    refine Channel.callIf_keeps (I := I) ?_ hbegin h₁
    rintro f hf u v hu hv
    cases hf
    obtain ⟨d, hd, hv⟩ := bind_eq_ok.mp hv
    cases hv
    exact hclose u d hu hd
  have hI₂ : I s₂ := by
    refine Channel.callIf_keeps (I := I) ?_ hI₁ h₂
    rintro f hf u v hu hv
    cases hf
    cases hv
    exact hu
  have hK₃ : K s₃ := by
    cases hreads : revents.has (POLLIN ||| POLLPRI ||| POLLRDHUP) with
    | false =>
      rw [hreads, Channel.callIf_false] at h₃
      cases h₃
      exact hskip hreads s₂ hI₂
    | true =>
      rw [hreads, Channel.callIf_true] at h₃
      exact hread hreads s₂ s₃ hI₂ h₃
  refine ⟨v, ?_, rfl⟩
  refine Channel.callIf_keeps (I := K) ?_ hK₃ hv
  rintro f hf u v hu hv
  cases hf
  obtain ⟨d, hd, hv⟩ := bind_eq_ok.mp hv
  cases hv
  exact hwrite u d hu hd

/-- `handleRead` puts the bytes that arrive into the input, and then calls the message callback, or
closes the connection, or does nothing. -/
theorem handleRead_stages {κ : Type} {s t : κ × TcpConnection}
    {messageCallback : κ × TcpConnection → Except Fault (κ × TcpConnection)} {revents : Events}
    {r : Buffer.ReadResult} (hreads : revents.has (POLLIN ||| POLLPRI ||| POLLRDHUP) = true)
    (h : handleRead messageCallback r s = .ok t) :
    ∃ inputBuffer, inputBuffer.readable = s.2.inputBuffer.readable ++ s.2.arriving revents r ∧
      (messageCallback (s.1, { s.2 with inputBuffer := inputBuffer }) = .ok t ∧
          s.2.arriving revents r ≠ [] ∨
        s.2.arriving revents r = [] ∧
          (t = (s.1, { s.2 with inputBuffer := inputBuffer }) ∨
            ∃ d, handleClose { s.2 with inputBuffer := inputBuffer } = .ok d ∧ t = (s.1, d))) := by
  obtain ⟨⟨n, buffer⟩, hread, h⟩ := bind_eq_ok.mp h
  cases r with
  | error =>
    cases hread
    dsimp only at h
    rw [if_neg (by decide), if_neg (by decide)] at h
    cases h
    exact ⟨s.2.inputBuffer, (List.append_nil _).symm, .inr ⟨rfl, .inl rfl⟩⟩
  | data bytes =>
    obtain ⟨u, hu, hreadable⟩ := s.2.inputBuffer.readFd_data_spec bytes
    cases hread.symm.trans hu
    have harriving : s.2.arriving revents (.data bytes) =
        bytes.take s.2.inputBuffer.readCapacity := if_pos hreads
    rw [← harriving] at h hreadable
    dsimp only at h
    refine ⟨buffer, hreadable, ?_⟩
    split at h
    · rename_i hpos
      refine .inl ⟨h, ?_⟩
      rintro hnil
      rw [hnil] at hpos
      simp at hpos
    · rename_i hzero
      have hnil : s.2.arriving revents (.data bytes) = [] :=
        List.eq_nil_of_length_eq_zero (by omega)
      refine .inr ⟨hnil, ?_⟩
      split at h
      · obtain ⟨d, hd, h⟩ := bind_eq_ok.mp h
        cases h
        exact .inr ⟨d, hd, rfl⟩
      · cases h
        exact .inl rfl

/-! ### The queue -/

/-- Only the user's callback and `connectDestroyed` wait in the queue of the loop. -/
def QuietQueue (c : TcpConnection) : Prop :=
  ∀ functor ∈ c.loop.pendingFunctors,
    functor = .writeCompleteCallback ∨ functor = .connectDestroyed

theorem onChannel_pendingFunctors {f : Channel → EventLoop TcpFunctor →
      Except Fault (Channel × EventLoop TcpFunctor)}
    (hf : ∀ {channel loop}, f c.channel c.loop = .ok (channel, loop) →
      loop.pendingFunctors = c.loop.pendingFunctors)
    (h : c.onChannel f = .ok d) : d.loop.pendingFunctors = c.loop.pendingFunctors := by
  obtain ⟨⟨channel, loop⟩, hupdate, h⟩ := bind_eq_ok.mp h
  cases h
  exact hf hupdate

theorem update_pendingFunctors {channel channel' : Channel} {loop loop' : EventLoop TcpFunctor}
    (h : Channel.update channel loop = .ok (channel', loop')) :
    loop'.pendingFunctors = loop.pendingFunctors := by
  rw [(EventLoop.updateChannel_frame h).1]

theorem remove_pendingFunctors {channel channel' : Channel} {loop loop' : EventLoop TcpFunctor}
    (h : Channel.remove channel loop = .ok (channel', loop')) :
    loop'.pendingFunctors = loop.pendingFunctors := by
  obtain ⟨u, -, h⟩ := bind_eq_ok.mp h
  obtain ⟨⟨e, m⟩, hm, h⟩ := bind_eq_ok.mp h
  cases h
  rw [EventLoop.removeChannel_frame hm]

theorem QuietQueue.of_eq (h : QuietQueue c)
    (heq : d.loop.pendingFunctors = c.loop.pendingFunctors) : QuietQueue d := by
  intro functor
  rw [heq]
  exact h functor

theorem QuietQueue.queueInLoop (h : QuietQueue c) (isInLoopThread : Bool) {functor : TcpFunctor}
    (hfunctor : functor = .writeCompleteCallback ∨ functor = .connectDestroyed) :
    QuietQueue (c.queueInLoop isInLoopThread functor) := by
  intro f hf
  have hqueued := EventLoop.queueInLoop_pendingFunctors c.loop isInLoopThread functor
  change f ∈ (c.loop.queueInLoop isInLoopThread functor).pendingFunctors at hf
  rw [hqueued] at hf
  rcases List.mem_append.mp hf with hf | hf
  · exact h f hf
  · rw [List.mem_singleton.mp hf]
    exact hfunctor

/-- What writes and waits for the socket queues nothing but the user's callback. -/
theorem quietQueue_output : OutputInvariant QuietQueue where
  output _ _ _ h := h
  queued c h := by
    unfold queueWriteComplete
    split
    · exact h.queueInLoop true (.inl rfl)
    · exact h
  enabled _ _ h hd :=
    h.of_eq (onChannel_pendingFunctors (f := Channel.enableWriting) (update_pendingFunctors ·) hd)
  disabled _ _ h hd :=
    h.of_eq (onChannel_pendingFunctors (f := Channel.disableWriting) (update_pendingFunctors ·) hd)

theorem QuietQueue.handleClose (h : QuietQueue c) (hd : c.handleClose = .ok d) : QuietQueue d := by
  obtain ⟨u, -, hd⟩ := bind_eq_ok.mp hd
  obtain ⟨e, he, hd⟩ := bind_eq_ok.mp hd
  have hqueue := onChannel_pendingFunctors (f := Channel.disableAll) (update_pendingFunctors ·) he
  cases hd
  exact h.of_eq hqueue

theorem QuietQueue.connectDestroyed (h : QuietQueue c) (hd : c.connectDestroyed = .ok d) :
    QuietQueue d := by
  unfold TcpConnection.connectDestroyed at hd
  split at hd
  · obtain ⟨e, he, hd⟩ := bind_eq_ok.mp hd
    have hdisable :=
      onChannel_pendingFunctors (f := Channel.disableAll) (update_pendingFunctors ·) he
    exact h.of_eq ((onChannel_pendingFunctors remove_pendingFunctors hd).trans hdisable)
  · exact h.of_eq (onChannel_pendingFunctors remove_pendingFunctors hd)

theorem QuietQueue.shutdown (h : QuietQueue c) : QuietQueue (c.shutdown true) := by
  have hstate : QuietQueue { c with state := .kDisconnecting } := h
  unfold TcpConnection.shutdown
  split
  · exact quietQueue_output.shutdownInLoop hstate
  · exact h

/-- What the functor at the head of a quiet queue does. -/
theorem QuietQueue.runPending {preceding : UInt8} {w : WriteResult} (h : QuietQueue c)
    (hd : c.runPending preceding w = .ok d) :
    d = c ∨ ∃ rest, QuietQueue { c with loop := { c.loop with pendingFunctors := rest } } ∧
      (d = { c with loop := { c.loop with pendingFunctors := rest } } ∨
        TcpConnection.connectDestroyed
          { c with loop := { c.loop with pendingFunctors := rest } } = .ok d) := by
  unfold TcpConnection.runPending at hd
  split at hd
  · cases hd
    exact .inl rfl
  · rename_i functor rest hpending
    have hrest : QuietQueue { c with loop := { c.loop with pendingFunctors := rest } } := by
      intro f hf
      refine h f ?_
      rw [hpending]
      exact List.mem_cons_of_mem _ hf
    refine .inr ⟨rest, hrest, ?_⟩
    rcases h functor (by rw [hpending]; exact List.mem_cons_self) with rfl | rfl
    · cases hd
      exact .inl rfl
    · exact .inr hd

/-! ### The output stream -/

theorem handleClose_stream (hd : c.handleClose = .ok d) : d.stream = c.stream := by
  obtain ⟨u, -, hd⟩ := bind_eq_ok.mp hd
  obtain ⟨e, he, hd⟩ := bind_eq_ok.mp hd
  have hstream := onChannel_stream he
  cases hd
  exact hstream

theorem connectDestroyed_stream (hd : c.connectDestroyed = .ok d) : d.stream = c.stream := by
  unfold TcpConnection.connectDestroyed at hd
  split at hd
  · obtain ⟨e, he, hd⟩ := bind_eq_ok.mp hd
    have hdisable := onChannel_stream he
    exact (onChannel_stream hd).trans hdisable
  · exact onChannel_stream hd

theorem shutdown_stream (c : TcpConnection) (isInLoopThread : Bool) :
    (c.shutdown isInLoopThread).stream = c.stream := by
  unfold TcpConnection.shutdown
  split
  · dsimp only
    split
    · exact shutdownInLoop_stream _
    · rfl
  · rfl

/-- The functors of a quiet queue leave the stream as it is. -/
theorem runPending_stream {preceding : UInt8} {w : WriteResult} (h : QuietQueue c)
    (hd : c.runPending preceding w = .ok d) : d.stream = c.stream ∧ QuietQueue d := by
  rcases h.runPending hd with rfl | ⟨rest, hrest, rfl | hdestroyed⟩
  · exact ⟨rfl, h⟩
  · exact ⟨rfl, hrest⟩
  · have hstream := connectDestroyed_stream hdestroyed
    exact ⟨hstream, hrest.connectDestroyed hdestroyed⟩

/-! ### Write interest -/

theorem Mirrors.withInput (h : Mirrors c) (inputBuffer : Buffer) :
    Mirrors { c with inputBuffer := inputBuffer } :=
  ⟨⟨h.opened.state, h.opened.tracks⟩, h.writing⟩

theorem Mirrors.withEvents (h : Mirrors c) (revents : Events) (eventHandling : Bool) :
    Mirrors (c.withEvents revents eventHandling) :=
  ⟨⟨h.opened.state, h.opened.tracks⟩, h.writing⟩

theorem connectDestroyed_state (hd : c.connectDestroyed = .ok d) : d.state ≠ .kConnected := by
  unfold TcpConnection.connectDestroyed at hd
  split at hd
  · obtain ⟨e, he, hd⟩ := bind_eq_ok.mp hd
    have hdisable := (onChannel_sameLife he).state
    have hstate : d.state = .kDisconnected := (onChannel_sameLife hd).state.trans hdisable
    simp [hstate]
  · rename_i hstate
    rwa [(onChannel_sameLife hd).state]

/-- A connection that is up after a functor was up before, and output is waited for as before. -/
theorem runPending_mirrors {preceding : UInt8} {w : WriteResult} (hquiet : QuietQueue c)
    (h : c.state = .kConnected → Mirrors c) (hd : c.runPending preceding w = .ok d)
    (hstate : d.state = .kConnected) : c.state = .kConnected ∧ Mirrors d := by
  rcases hquiet.runPending hd with rfl | ⟨rest, hrest, rfl | hdestroyed⟩
  · exact ⟨hstate, h hstate⟩
  · obtain ⟨⟨hopen, htracks⟩, hwriting⟩ := h hstate
    exact ⟨hstate, ⟨⟨hopen, htracks⟩, hwriting⟩⟩
  · exact absurd hstate (connectDestroyed_state hdestroyed)

/-! ### Answers -/

/-- If the connection is up and its channel is not waiting for the socket, the write that sends an
answer does not fail. -/
def TakesAnswer (c : TcpConnection) (sent : WriteResult) : Prop :=
  c.state = .kConnected → c.channel.isWriting = false → sent ≠ .failed

instance (c : TcpConnection) (sent : WriteResult) : Decidable (c.TakesAnswer sent) :=
  inferInstanceAs (Decidable (_ → _ → _))

theorem TakesAnswer.handleClose {sent : WriteResult} (hd : c.handleClose = .ok d) :
    TakesAnswer d sent := by
  obtain ⟨u, -, hd⟩ := bind_eq_ok.mp hd
  obtain ⟨e, he, hd⟩ := bind_eq_ok.mp hd
  have hlife := onChannel_sameLife he
  cases hd
  intro hstate
  exact absurd (hlife.state.symm.trans hstate) (by simp)

/-- A buffer of the connection is sent: the stream grows by what the buffer held, which is no longer
in it. -/
theorem sendAll_stream {message : Bytes} {preceding : UInt8} {sent : WriteResult}
    (hstate : c.state = .kConnected) (htakes : TakesAnswer c sent)
    (hd : c.sendInLoop message preceding sent = .ok d) : d.stream = c.stream ++ message :=
  sendInLoop_stream (by rw [hstate]; simp) (fun hidle _ _ => htakes hstate hidle) hd

/-! ### A response in the output buffer -/

theorem sendOutputBuffer_state {preceding : UInt8} {r : WriteResult}
    (hd : c.sendOutputBuffer preceding r = .ok d) : d.state = c.state := by
  unfold sendOutputBuffer at hd
  split at hd
  · obtain ⟨⟨msg, outputBuffer⟩, -, hd⟩ := bind_eq_ok.mp hd
    exact (sendInLoop_sameLife hd).state
  · cases hd
    rfl

theorem OutputInvariant.sendOutputBuffer {I : TcpConnection → Prop} (hI : OutputInvariant I)
    {preceding : UInt8} {r : WriteResult} (hc : I c)
    (hd : c.sendOutputBuffer preceding r = .ok d) : I d := by
  unfold TcpConnection.sendOutputBuffer at hd
  split at hd
  · obtain ⟨⟨msg, outputBuffer⟩, -, hd⟩ := bind_eq_ok.mp hd
    exact hI.sendInLoop (hI.output c c.socket outputBuffer hc) hd
  · cases hd
    exact hc

/-- What the output buffer holds is already in the stream. -/
theorem sendOutputBuffer_stream {preceding : UInt8} {sent : WriteResult}
    (htakes : TakesAnswer c sent) (hd : c.sendOutputBuffer preceding sent = .ok d) :
    d.stream = c.stream := by
  unfold sendOutputBuffer at hd
  split at hd
  · rename_i hstate
    obtain ⟨outputBuffer, hall, hnil⟩ := c.outputBuffer.retrieveAllAsString_spec
    rw [hall, ok_bind] at hd
    rw [sendAll_stream (c := { c with outputBuffer := outputBuffer }) hstate htakes hd, stream,
      stream]
    simp only [hnil, List.append_nil]
  · cases hd
    rfl

/-- A response goes behind the pending output: it is written directly when there is none, and waits
with it when there is some. -/
theorem sendOutputBuffer_spec (h : Mirrors c) (hstate : c.state = .kConnected) {bytes : Bytes}
    {outputBuffer : Buffer} (hout : c.outputBuffer.append bytes = .ok outputBuffer)
    (preceding : UInt8) {sent : WriteResult} (htakes : TakesAnswer c sent) :
    ∃ d, sendOutputBuffer { c with outputBuffer := outputBuffer } preceding sent = .ok d ∧
      Mirrors d ∧ d.socket.shutdowns = c.socket.shutdowns := by
  obtain ⟨out, happend, hreadable⟩ := c.outputBuffer.append_spec bytes
  cases hout.symm.trans happend
  obtain ⟨empty, hall, hnil⟩ := outputBuffer.retrieveAllAsString_spec
  have hempty : empty.readableBytes = 0 := by rw [← Buffer.length_readable, hnil]; rfl
  have hopen : Open { c with outputBuffer := empty } := ⟨h.opened.state, h.opened.tracks⟩
  obtain ⟨d, hd, heffect⟩ : ∃ d, TcpConnection.sendInLoop { c with outputBuffer := empty }
        outputBuffer.readable preceding sent = .ok d ∧
      Effect { c with outputBuffer := empty } d [outputBuffer.readable] False :=
    sendInLoop_effect hopen (fun _ => hempty) fun hidle _ _ => htakes hstate hidle
  refine ⟨d, ?_, ?_, heffect.shutdowns.resolve_right And.left⟩
  · rw [sendOutputBuffer, if_pos hstate, hall]
    exact hd
  · by_cases hidle : c.channel.isWriting = false
    · have hmirrors : Mirrors { c with outputBuffer := empty } :=
        ⟨hopen, iff_of_false (by simp [hidle]) (fun hne => hne hempty)⟩
      obtain ⟨e, he, hspec⟩ := sendInLoop_spec hmirrors outputBuffer.readable preceding sent
      cases hd.symm.trans he
      exact hspec.mirrors
    · -- What was pending is part of the message, and the message is kept as a whole.
      have hwriting : c.channel.isWriting = true := by simpa using hidle
      have hpending := h.writing.mp hwriting
      have hlength : outputBuffer.readable.length ≠ 0 := by
        rw [hreadable, List.length_append, Buffer.length_readable]
        omega
      have hkept : (bytesAt preceding outputBuffer.readable 0
          (outputBuffer.readable.length : Int).toNat).length ≠ 0 := by
        rw [length_bytesAt preceding _ (by omega) (by omega)]
        omega
      obtain ⟨e, he, hmirrors, -⟩ := keep_spec hopen _ hkept
      rw [sendInLoop, if_neg hopen.not_disconnected, writeDirectly,
        if_neg (by simp [hwriting])] at hd
      dsimp only at hd
      rw [if_pos (by omega)] at hd
      cases hd.symm.trans he
      exact hmirrors

end Mymuduo.TcpConnection
