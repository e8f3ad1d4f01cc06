import Mymuduo.Http.Wire
import Mymuduo.Http.Pipeline
import Mymuduo.Http.Responses
import Mymuduo.Http.Isolation

/-! The service that a client gets which keeps its connection: whatever pieces the network makes of
its requests, and however the socket takes the responses, the connection stays up and each request
has the response that it has when it comes alone. -/

namespace Mymuduo

open Lib HttpConnection

namespace Exchange

/-- All the responses to requests that ask for it keep the connection. -/
theorem Serves.keepAlive {fs : FileSystem} {c : HttpConnection} {rs : List KeepAliveRequest}
    {replies : List Reply} (h : Serves fs c rs replies) :
    ∀ reply ∈ replies, reply.keepAlive = true := by
  induction h with
  | nil c => simp
  | cons hparse hret hkeep hmake hrest ih => exact List.forall_mem_cons.mpr ⟨rfl, ih⟩

end Exchange

namespace Session

open TcpConnection

variable {fs : FileSystem} {sourceDir : Bytes} {s t : Session} {e e' : Exchange} {a : Step}
  {preceding : UInt8} {sent w : WriteResult}

/-- The piece that a step reads from the socket, if it reads any. -/
def arrival (s : Session) (a : Step) : List Bytes :=
  if received s a = [] then [] else [received s a]

/-- The peer does not close the connection, nobody shuts it down or removes it, and no direct write of
a response fails. -/
def Calm (s : Session) : Step → Prop
  | .event revents r _ _ sent =>
    (revents.has POLLHUP = true → revents.has POLLIN = true) ∧
      (revents.has (POLLIN ||| POLLPRI ||| POLLRDHUP) = true → r ≠ .data []) ∧
      (s.2.arriving revents r ≠ [] → s.2.TakesAnswer sent)
  | .functor .. => True
  | .timeout | .ownerRemoves => False

instance (s : Session) : (a : Step) → Decidable (Calm s a)
  | .event _ _ _ _ sent =>
    inferInstanceAs (Decidable (_ ∧ _ ∧ (_ → s.2.TakesAnswer sent)))
  | .functor .. => .isTrue trivial
  | .timeout | .ownerRemoves => .isFalse id

theorem Calm.responseTaken (h : Calm s a) : ResponseTaken s a := by
  cases a with
  | event revents r w preceding sent => exact h.2.2
  | functor preceding w => trivial
  | timeout => trivial
  | ownerRemoves => trivial

/-- A connection in service: it is up, it stands as the conversation does, and nothing is queued that
would change it. -/
structure Serving (s : Session) (e : Exchange) : Prop where
  connected : s.2.state = .kConnected
  up : Up s.2
  mirrors : Mirrors s.2
  callbacks : ∀ functor ∈ s.2.loop.pendingFunctors, functor = .writeCompleteCallback
  refines : Refines s e

theorem callbacks_of_queues {c d : TcpConnection} (h : QueuesCallbacks c d)
    (hc : ∀ functor ∈ c.loop.pendingFunctors, functor = .writeCompleteCallback) :
    ∀ functor ∈ d.loop.pendingFunctors, functor = .writeCompleteCallback := by
  obtain ⟨more, hmore, hall⟩ := h
  intro functor hfunctor
  rw [hmore] at hfunctor
  exact (List.mem_append.mp hfunctor).elim (hc functor) (hall functor)

theorem Serving.withEvents (h : Serving s e) (revents : Events) (eventHandling : Bool) :
    Serving (s.1, s.2.withEvents revents eventHandling) e where
  connected := h.connected
  up := ⟨h.up.state, h.up.index, h.up.events, h.up.tracks⟩
  mirrors := h.mirrors.withEvents revents eventHandling
  callbacks := h.callbacks
  refines := ⟨h.refines.http, h.refines.input, h.refines.replies⟩

/-! ### What is delivered is answered -/

/-- Where the conversation answers, or waits for more, `processMessage` does. -/
theorem processMessage_of_respond {reply : Option Reply} {http : HttpConnection} {rest : Bytes}
    (hconnected : s.2.state = .kConnected) (hup : Up s.2) (hmirrors : Mirrors s.2)
    (preceding : UInt8) (htakes : s.2.TakesAnswer sent)
    (hrespond : respond fs s.1.http s.2.inputBuffer.readable = .ok (reply, http, rest))
    (hkeep : ∀ r ∈ reply, r.keepAlive = true) :
    ∃ t, processMessage fs preceding sent s = .ok t ∧ t.2.state = .kConnected ∧ Up t.2 ∧
      Mirrors t.2 ∧ QueuesCallbacks s.2 t.2 ∧ t.1.http = http ∧
      t.2.inputBuffer.readable = rest ∧
      t.1.answers.map Answer.toReply = s.1.answers.map Answer.toReply ++ reply.toList := by
  obtain ⟨⟨ret, c, q⟩, hparse, hrespond⟩ := bind_eq_ok.mp hrespond
  have hsim := parseRequest_sim fs s.1.http s.2.inputBuffer
  have hbytes : parse fs s.1.http (ByteQueue.bytes s.2.inputBuffer) = .ok (ret, c, q) := hparse
  rw [hbytes] at hsim
  obtain ⟨inputBuffer, hbuffer, hreadable⟩ := hsim
  dsimp only at hrespond
  rw [processMessage]
  dsimp only
  rw [hbuffer, ok_bind]
  dsimp only
  split at hrespond
  · rename_i hno
    cases hrespond
    rw [if_pos hno]
    exact ⟨_, rfl, hconnected, ⟨hup.state, hup.index, hup.events, hup.tracks⟩,
      hmirrors.withInput inputBuffer, .of_eq rfl, rfl, hreadable, (List.append_nil _).symm⟩
  · rename_i hret
    obtain ⟨⟨http', bytes⟩, hmake, hrespond⟩ := bind_eq_ok.mp hrespond
    have hkeeps : http'.keepAlive = true := by
      dsimp only at hrespond
      split at hrespond
      · rename_i hclose
        cases hrespond
        exact hkeep _ rfl
      · rename_i hopen
        simpa using hopen
    rw [hkeeps] at hrespond
    cases hrespond
    obtain ⟨outputBuffer, hout, -⟩ := s.2.outputBuffer.append_spec bytes
    obtain ⟨d, hd, hmirrors', -⟩ := sendOutputBuffer_spec
      (c := { s.2 with inputBuffer := inputBuffer }) (hmirrors.withInput inputBuffer) hconnected hout
      preceding htakes
    obtain ⟨hup', -, hkeeps'⟩ := (Up.outputInvariant s.2).sendOutputBuffer
      (c := { s.2 with inputBuffer := inputBuffer, outputBuffer := outputBuffer })
      ⟨⟨hup.state, hup.index, hup.events, hup.tracks⟩, rfl,
        ⟨rfl, rfl, rfl, rfl, .refl _ _, .of_eq rfl⟩⟩ hd
    rw [if_neg hret, hmake, ok_bind]
    dsimp only
    rw [hout, ok_bind, hd, ok_bind, hkeeps]
    refine ⟨_, rfl, (sendOutputBuffer_state hd).trans hconnected, hup', hmirrors', hkeeps'.queues,
      rfl, ?_, ?_⟩
    · exact (congrArg Buffer.readable (sendOutputBuffer_input hd)).trans hreadable
    · rw [List.map_append]
      rfl

theorem Serving.withConn {d : TcpConnection} (h : Serving s e) (hconnected : d.state = .kConnected)
    (hup : Up d) (hmirrors : Mirrors d) (hqueues : QueuesCallbacks s.2 d)
    (hinput : d.inputBuffer.readable = s.2.inputBuffer.readable) : Serving (s.1, d) e where
  connected := hconnected
  up := hup
  mirrors := hmirrors
  callbacks := callbacks_of_queues hqueues h.callbacks
  refines := ⟨h.refines.http, h.refines.input.trans hinput.symm, h.refines.replies⟩

theorem Serving.handleRead {revents : Events} {r : Buffer.ReadResult} (h : Serving s e)
    (hreads : revents.has (POLLIN ||| POLLPRI ||| POLLRDHUP) = true) (hdata : r ≠ .data [])
    (htakes : s.2.arriving revents r ≠ [] → s.2.TakesAnswer sent)
    (hd : run (Exchange.deliver fs) e (arrival s (.event revents r w preceding sent)) = .ok e')
    (hkeep : ∀ reply ∈ e'.replies, reply.keepAlive = true) :
    ∃ t, TcpConnection.handleRead (processMessage fs preceding sent) r s = .ok t ∧ Serving t e' := by
  cases r with
  | error =>
    cases hd
    exact ⟨s, rfl, h⟩
  | data bytes =>
    obtain ⟨inputBuffer, hread, hreadable⟩ := s.2.inputBuffer.readFd_data_spec bytes
    have harriving : s.2.arriving revents (.data bytes) = bytes.take s.2.inputBuffer.readCapacity :=
      if_pos hreads
    rw [← harriving] at hread hreadable
    have hpos : 0 < (s.2.arriving revents (.data bytes)).length := by
      have hne : bytes.length ≠ 0 := by
        intro hzero
        exact hdata (by rw [List.eq_nil_of_length_eq_zero hzero])
      have hroom : 0 < s.2.inputBuffer.readCapacity := by
        rw [Buffer.readCapacity, Buffer.extrabufSize]
        split <;> omega
      rw [harriving, List.length_take]
      omega
    have hne : s.2.arriving revents (.data bytes) ≠ [] := List.ne_nil_of_length_pos hpos
    have harrival : arrival s (.event revents (.data bytes) w preceding sent) =
        [s.2.arriving revents (.data bytes)] := if_neg hne
    rw [harrival, run_singleton] at hd
    obtain ⟨⟨reply, http, rest⟩, hrespond, hd⟩ := bind_eq_ok.mp hd
    cases hd
    rw [h.refines.http, h.refines.input, ← hreadable] at hrespond
    obtain ⟨t, ht, hconnected, hup, hmirrors, hqueues, hhttp, hinput, hreplies⟩ :=
      processMessage_of_respond (s := (s.1, { s.2 with inputBuffer := inputBuffer }))
        h.connected ⟨h.up.state, h.up.index, h.up.events, h.up.tracks⟩
        (h.mirrors.withInput inputBuffer) preceding (htakes hne) hrespond
        (fun r hr => hkeep r (List.mem_append_right _ (Option.mem_toList.mpr hr)))
    refine ⟨t, ?_, hconnected, hup, hmirrors, callbacks_of_queues hqueues h.callbacks, hhttp.symm,
      hinput.symm, ?_⟩
    · rw [TcpConnection.handleRead, hread, ok_bind]
      dsimp only
      rw [if_pos (by omega)]
      exact ht
    · rw [hreplies, h.refines.replies]

theorem Serving.handleWrite (h : Serving s e) (w : WriteResult) :
    ∃ t, withContext (TcpConnection.handleWrite w) s = .ok t ∧ Serving t e := by
  obtain ⟨d, hd, hspec⟩ := handleWrite_spec h.mirrors w
  obtain ⟨d', hd', hup, hkeeps⟩ := h.up.handleWrite w
  cases hd.symm.trans hd'
  have hlife := handleWrite_sameLife hd
  refine ⟨(s.1, d), by rw [withContext, hd]; rfl, ?_⟩
  exact h.withConn (hlife.state.trans h.connected) hup hspec.mirrors hkeeps.queues
    (by rw [hlife.inputBuffer])

/-- A calm step does what the conversation does with the piece that arrives, if any does. -/
theorem Serving.step (h : Serving s e) (hcalm : Calm s a)
    (hd : run (Exchange.deliver fs) e (arrival s a) = .ok e')
    (hkeep : ∀ reply ∈ e'.replies, reply.keepAlive = true) :
    ∃ t, step fs s a = .ok t ∧ Serving t e' := by
  cases a with
  | event revents r w preceding sent =>
    obtain ⟨hhup, hdata, htakes⟩ := hcalm
    have hclose : (revents.has POLLHUP && !revents.has POLLIN) = false := by
      cases hbit : revents.has POLLHUP with
      | false => rfl
      | true => rw [hhup hbit]; rfl
    obtain ⟨u, hu, hserves⟩ : ∃ u, Channel.callIf
        (revents.has (POLLIN ||| POLLPRI ||| POLLRDHUP))
        (some (TcpConnection.handleRead (processMessage fs preceding sent) r))
        (s.1, s.2.withEvents revents true) = .ok u ∧ Serving u e' := by
      cases hreads : revents.has (POLLIN ||| POLLPRI ||| POLLRDHUP) with
      | true =>
        exact (h.withEvents revents true).handleRead (w := w) hreads (hdata hreads) htakes hd hkeep
      | false =>
        have hnone : s.2.arriving revents r = [] := by
          cases r with
          | data bytes => exact if_neg (by simp [hreads])
          | error => rfl
        rw [arrival, received, hnone, if_pos rfl] at hd
        cases hd
        exact ⟨_, Channel.callIf_false _ _, h.withEvents revents true⟩
    obtain ⟨v, hv, hserves⟩ : ∃ v, Channel.callIf (revents.has POLLOUT)
        (some (withContext (TcpConnection.handleWrite w))) u = .ok v ∧ Serving v e' := by
      cases revents.has POLLOUT with
      | true => exact hserves.handleWrite w
      | false => exact ⟨u, Channel.callIf_false _ _, hserves⟩
    have herror : Channel.callIf (revents.has (POLLERR ||| POLLNVAL)) (some .ok)
        (s.1, s.2.withEvents revents true) = .ok (s.1, s.2.withEvents revents true) := by
      cases revents.has (POLLERR ||| POLLNVAL) <;> rfl
    have hdispatch : Channel.dispatch revents
        { closeCallback := some (withContext TcpConnection.handleClose)
          errorCallback := some .ok
          readCallback := some (TcpConnection.handleRead (processMessage fs preceding sent) r)
          writeCallback := some (withContext (TcpConnection.handleWrite w)) }
        (s.1, s.2.withEvents revents true) = .ok v := by
      rw [Channel.dispatch, hclose, Channel.callIf_false, ok_bind, herror, ok_bind, hu, ok_bind]
      exact hv
    refine ⟨(v.1, v.2.withEvents v.2.channel.revents false), ?_, hserves.withEvents _ false⟩
    exact bind_eq_ok.mpr ⟨v, hdispatch, rfl⟩
  | functor preceding w =>
    have hsame : arrival s (.functor preceding w) = [] := if_pos rfl
    rw [hsame] at hd
    cases hd
    show ∃ t, withContext (fun c => c.runPending preceding w) s = .ok t ∧ _
    rw [withContext, runPending]
    split
    · exact ⟨s, rfl, h⟩
    · rename_i functor rest hpending
      have hfunctor := h.callbacks functor (by rw [hpending]; exact List.mem_cons_self)
      subst hfunctor
      refine ⟨_, rfl, h.connected, ⟨h.up.state, h.up.index, h.up.events, h.up.tracks⟩,
        ⟨⟨h.mirrors.opened.state, h.mirrors.opened.tracks⟩, h.mirrors.writing⟩, ?_,
        ⟨h.refines.http, h.refines.input, h.refines.replies⟩⟩
      intro f hf
      refine h.callbacks f ?_
      rw [hpending]
      exact List.mem_cons_of_mem _ hf
  | timeout => exact hcalm.elim
  | ownerRemoves => exact hcalm.elim

/-- A conversation whose responses all keep the connection is carried on by every connection that
receives its pieces. -/
theorem Serving.run {steps : List Step} (h : Serving s e)
    (hcalm : Along (Session.step fs) Calm s steps)
    (hd : Lib.run (Exchange.deliver fs) e (trace (Session.step fs) arrival s steps) = .ok e')
    (hkeep : ∀ reply ∈ e'.replies, reply.keepAlive = true) :
    ∃ t, Lib.run (Session.step fs) s steps = .ok t ∧ Serving t e' := by
  induction steps generalizing s e with
  | nil =>
    cases hd
    exact ⟨s, rfl, h⟩
  | cons a steps ih =>
    obtain ⟨e₁, hd₁, hrest⟩ := run_append_ok.mp hd
    have hkeep₁ : ∀ reply ∈ e₁.replies, reply.keepAlive = true := by
      have hprefix : e₁.replies <+: e'.replies :=
        run_invariant (I := fun e => e₁.replies <+: e.replies)
          (fun _ _ _ hpre hstep => hpre.trans (Exchange.deliver_replies hstep))
          (List.prefix_refl _) hrest
      exact fun reply hreply => hkeep reply (List.IsPrefix.subset hprefix hreply)
    obtain ⟨u, hu, hserves⟩ := h.step hcalm.1 hd₁ hkeep₁
    rw [hu] at hrest
    obtain ⟨t, ht, hend⟩ := ih hserves (hcalm.2 u hu) hrest
    exact ⟨t, run_cons_ok.mpr ⟨u, hu, ht⟩, hend⟩

theorem serving_connectEstablished {conn : TcpConnection} {ptr fd : Nat} {writeComplete : Bool}
    (hc : (TcpConnection.new .new ptr fd writeComplete).connectEstablished = .ok conn) :
    Serving (onConnection sourceDir conn) (.start sourceDir) := by
  obtain ⟨-, hconnected, -, -, -, hqueue⟩ := connectEstablished_spec rfl hc
  obtain ⟨d, hd, hup, -⟩ := connectEstablished_exact (c := .new .new ptr fd writeComplete) rfl rfl rfl
    ⟨rfl, rfl⟩
  cases hc.symm.trans hd
  have hinput : conn.inputBuffer = .new kInitialSize := by
    obtain ⟨u, -, hc⟩ := bind_eq_ok.mp hc
    obtain ⟨f, hf, hc⟩ := bind_eq_ok.mp hc
    have hlife := onChannel_sameLife hf
    cases hc
    exact hlife.inputBuffer
  refine ⟨hconnected, hup, mirrors_connectEstablished hc, ?_, rfl, ?_, rfl⟩
  · intro functor hfunctor
    rw [onConnection, hqueue] at hfunctor
    cases hfunctor
  · rw [onConnection, hinput]
    exact (Buffer.readable_new _).symm

/-- Every response of a conversation has been written by a call of `makeResponse`. -/
theorem replies_written (h : Reachable (Exchange.deliver fs) (.start sourceDir) e) :
    ∀ reply ∈ e.replies, Exchange.Written fs sourceDir reply.bytes := by
  obtain ⟨chunks, hrun⟩ := h
  have hboth : Reachable (Exchange.deliver fs) (.start sourceDir) e ∧
      ∀ reply ∈ e.replies, Exchange.Written fs sourceDir reply.bytes := by
    refine run_invariant (I := fun e => Reachable (Exchange.deliver fs) (.start sourceDir) e ∧
      ∀ reply ∈ e.replies, Exchange.Written fs sourceDir reply.bytes) ?_
      ⟨.refl _, by simp [Exchange.start]⟩ hrun
    rintro e chunk e' ⟨⟨before, hbefore⟩, hwritten⟩ hd
    refine ⟨⟨before ++ [chunk], run_append_ok.mpr ⟨e, hbefore, by rw [run_singleton]; exact hd⟩⟩, ?_⟩
    obtain ⟨ret, c, rest, hparse, -, ⟨-, -, hreplies, -⟩ | ⟨hret, d, bytes, hmake, hreplies, -⟩⟩ :=
      Exchange.deliver_cases hd
    · rw [hreplies]
      exact hwritten
    · rw [hreplies]
      intro reply hreply
      rcases List.mem_append.mp hreply with hreply | hreply
      · exact hwritten reply hreply
      · rw [List.mem_singleton.mp hreply]
        exact ⟨c, ret, d, ⟨e, chunk, rest, ⟨before, hbefore⟩, hparse, hret⟩, hmake⟩
  exact hboth.2

/-- Requests of a client that keeps its connection arrive in pieces of any kind, at no time with
more of them incomplete than pieces are left, and the socket takes the responses as it can.  If no
direct write fails and each request can be answered, then nothing fails, the connection stays up,
and what the client has been sent and is still to be sent are the responses that the requests have
when they come alone, which it can tell apart by their lengths. -/
theorem keep_alive_service {rs : List KeepAliveRequest} {conn : TcpConnection} {ptr fd : Nat}
    {writeComplete : Bool} {steps : List Step}
    (hc : (TcpConnection.new .new ptr fd writeComplete).connectEstablished = .ok conn)
    (hsite : Site fs sourceDir) (hexist : ∀ r ∈ rs, ResourceExists fs sourceDir r)
    (hanswer : ∀ r ∈ rs, Answerable fs sourceDir r)
    (hcalm : Along (Session.step fs) Calm (onConnection sourceDir conn) steps)
    (hcut : (trace (Session.step fs) arrival (onConnection sourceDir conn) steps).flatten =
      rs.flatMap fun r => r.bytes)
    (hcount : ∀ before after,
      trace (Session.step fs) arrival (onConnection sourceDir conn) steps = before ++ after →
      rs.length ≤ completed (rs.map fun r => r.bytes.length) before.flatten.length + after.length) :
    ∃ s alone, Lib.run (Session.step fs) (onConnection sourceDir conn) steps = .ok s ∧
      Lib.run (Exchange.deliver fs) (.start sourceDir) (rs.map fun r => r.bytes) = .ok alone ∧
      alone.replies.length = rs.length ∧ s.2.state = .kConnected ∧
      s.2.socket.written ++ s.2.outputBuffer.readable =
        (alone.replies.map fun r => r.bytes).flatten ∧
      readResponses (s.2.socket.written ++ s.2.outputBuffer.readable) =
        some (alone.replies.map fun r => r.bytes) := by
  have hfresh := fresh_new sourceDir
  have hpos : ∀ size ∈ rs.map fun r => r.bytes.length, 0 < size := by
    intro size hsize
    obtain ⟨r, -, rfl⟩ := List.mem_map.mp hsize
    exact r.length_pos
  obtain ⟨replies, hserves⟩ := Exchange.serves_of_answerable hsite hexist hanswer hfresh
  obtain ⟨alone, halone, hreplies⟩ := hserves.run_alone (e := .start sourceDir) rfl rfl
  obtain ⟨e, he, hcutReplies⟩ :=
    hserves.run_cut (e := .start sourceDir) (p := []) rfl (fun t => rfl) hcut
  have hall := (Exchange.served_cut_iff hpos _).mp (by rw [List.length_map]; exact hcount)
  rw [List.length_map] at hall
  rw [List.length_nil, hall, ← hserves.length_eq, List.take_length, ← hreplies] at hcutReplies
  have hkeep : ∀ reply ∈ e.replies, reply.keepAlive = true := by
    rw [hcutReplies, hreplies]
    exact fun reply hreply => hserves.keepAlive reply (by simpa [Exchange.start] using hreply)
  obtain ⟨s, hs, hend⟩ := (serving_connectEstablished hc).run hcalm he hkeep
  have hwired : Wired s := (hcalm.mono fun s a h => h.responseTaken).run_invariant (I := Wired)
    (fun s a t h htaken ht => step_wired h htaken ht) (wired_connectEstablished hc) hs
  have hstream : s.2.socket.written ++ s.2.outputBuffer.readable =
      (alone.replies.map fun r => r.bytes).flatten := by
    rw [← hcutReplies, hend.refines.replies, List.map_map, ← List.flatMap_def]
    exact hwired.stream
  refine ⟨s, alone, hs, halone, by rw [hreplies]; exact hserves.length_eq, hend.connected, hstream,
    ?_⟩
  rw [hstream]
  refine readResponses_flatten ?_
  intro text htext
  obtain ⟨reply, hreply, rfl⟩ := List.mem_map.mp htext
  obtain ⟨c, ret, d, hcalled, hmake⟩ := replies_written ⟨_, halone⟩ reply hreply
  obtain ⟨f, r, -, -, hr⟩ := makeResponse_response hcalled.statted hmake
  exact ⟨r, hr⟩

/-- Two requests in two pieces, the first of which ends in the middle of the second request; the
first response is taken in two writes. -/
def twoPieces : List Step :=
  [receive (Exchange.getRoot.bytes ++ Exchange.getRoot.bytes.take 20) (.accepted 50),
    .event POLLOUT .error (.accepted 1000) 0 .failed,
    receive (Exchange.getRoot.bytes.drop 20) (.accepted 1000)]

theorem keep_alive_service_two : ∃ (conn : TcpConnection) (s : Session) (alone : Exchange),
    (TcpConnection.new .new 1 5 false).connectEstablished = .ok conn ∧
    Lib.run (Session.step rootSite) (onConnection [] conn) twoPieces = .ok s ∧
    Lib.run (Exchange.deliver rootSite) (.start [])
      ([Exchange.getRoot, Exchange.getRoot].map fun r => r.bytes) = .ok alone ∧
    alone.replies.length = 2 ∧ s.2.state = .kConnected ∧
    readResponses (s.2.socket.written ++ s.2.outputBuffer.readable) =
      some (alone.replies.map fun r => r.bytes) := by
  have heval : ((TcpConnection.new .new 1 5 false).connectEstablished >>= fun conn =>
      .ok (trace (Session.step rootSite) arrival (onConnection [] conn) twoPieces,
        decide (Along (Session.step rootSite) Calm (onConnection [] conn) twoPieces))) =
      .ok ([Exchange.getRoot.bytes ++ Exchange.getRoot.bytes.take 20,
        Exchange.getRoot.bytes.drop 20], true) := by decide +kernel
  obtain ⟨conn, hconn, heval⟩ := bind_eq_ok.mp heval
  simp only [Except.ok.injEq, Prod.mk.injEq, decide_eq_true_eq] at heval
  obtain ⟨htrace, hcalm⟩ := heval
  have hservable : Servable rootSite [] (resourcePath Exchange.getRoot.target) :=
    ⟨_, rfl, rfl, rfl, by decide +kernel⟩
  have hexist : ∀ r ∈ [Exchange.getRoot, Exchange.getRoot], ResourceExists rootSite [] r := by
    intro r hr
    obtain rfl : r = Exchange.getRoot := by simpa using hr
    exact ⟨_, rfl, rfl, rfl⟩
  have hanswer : ∀ r ∈ [Exchange.getRoot, Exchange.getRoot], Answerable rootSite [] r := by
    intro r hr
    obtain rfl : r = Exchange.getRoot := by simpa using hr
    have hlength : contentLength (headerMap Exchange.getRoot.fields) = none := by
      rw [contentLength, show headerMap Exchange.getRoot.fields (ofString "Content-Length") = none by
        decide +kernel]
      rfl
    exact ⟨fun e => by rw [hlength]; simp, fun _ => hservable⟩
  have hpos : ∀ size ∈ [Exchange.getRoot, Exchange.getRoot].map fun r => r.bytes.length,
      0 < size := by decide +kernel
  have hcut : (trace (Session.step rootSite) arrival (onConnection [] conn) twoPieces).flatten =
      [Exchange.getRoot, Exchange.getRoot].flatMap fun r => r.bytes := by
    rw [htrace]
    decide +kernel
  have hcount := (Exchange.served_cut_iff hpos
    (trace (Session.step rootSite) arrival (onConnection [] conn) twoPieces)).mpr
      (by rw [htrace]; decide +kernel)
  obtain ⟨s, alone, hs, halone, hlength, hstate, -, hread⟩ :=
    keep_alive_service hconn Exchange.rootSite_site hexist hanswer hcalm hcut
      (by simpa only [List.length_map] using hcount)
  exact ⟨conn, s, alone, hconn, hs, halone, hlength, hstate, hread⟩

end Session

end Mymuduo
