import Mymuduo.Http.Exchange
import Mymuduo.Net.TcpConnection

/-! An HTTP connection with its socket: the events of a `TcpConnection` whose message callback is
`onMessage`.  Its runs do what conversations do, and each of its responses answers a request of its
own as long as no message arrives after a response that closes. -/

namespace Mymuduo

open Lib

/-- A call of `makeResponse`: the response, and whether a request line has been taken from the input
since the call before. -/
structure Answer extends Reply where
  ownLine : Bool
  deriving DecidableEq, Repr

/-- The context of the connection, with the history of its responses.  `lineTaken` says whether a
request line has been taken from the input since the last of them. -/
structure HttpContext where
  http : HttpConnection
  lineTaken : Bool
  answers : List Answer

/-- A connection with its context. -/
abbrev Session := HttpContext × TcpConnection

namespace Session

variable {fs : FileSystem} {sourceDir : Bytes} {s t : Session}

/-- `onConnection`, for a connection that is up. -/
def onConnection (sourceDir : Bytes) (conn : TcpConnection) : Session :=
  (⟨.new sourceDir, false, []⟩, conn)

/-- The loop of `parseRequest` begins with a request line that is there. -/
def takesRequestLine {Q : Type} [ByteQueue Q] (c : HttpConnection) (q : Q) : Bool :=
  c.parseState == .kRequestLine && (ByteQueue.findCRLF q).isSome

/-- `processMessage`.  `preceding` and `w` are for the direct write of `sendInLoop`. -/
def processMessage (fs : FileSystem) (preceding : UInt8) (w : WriteResult) (s : Session) :
    Except Fault Session := do
  let (context, conn) := s
  let lineTaken := context.lineTaken || takesRequestLine context.http conn.inputBuffer
  let (parseRet, http, inputBuffer) ← context.http.parseRequest fs conn.inputBuffer
  let conn := { conn with inputBuffer := inputBuffer }
  if parseRet = .kNoRequest then
    return (⟨http, lineTaken, context.answers⟩, conn)
  else
    let (http, bytes) ← http.makeResponse fs parseRet
    let outputBuffer ← conn.outputBuffer.append bytes
    let conn ← TcpConnection.sendOutputBuffer { conn with outputBuffer := outputBuffer } preceding w
    let answers := context.answers ++ [⟨⟨bytes, http.keepAlive⟩, lineTaken⟩]
    if !http.keepAlive then
      return (⟨http, false, answers⟩, conn.shutdown true)
    else
      return (⟨http.resetState, false, answers⟩, conn)

/-- A step of the loop.  `timeout` is `timeoutCallback`, and `ownerRemoves` the owner that queues
`connectDestroyed`. -/
inductive Step
  | event (revents : Events) (r : Buffer.ReadResult) (w : WriteResult) (preceding : UInt8)
      (sent : WriteResult)
  | functor (preceding : UInt8) (w : WriteResult)
  | timeout
  | ownerRemoves
  deriving DecidableEq, Repr

def step (fs : FileSystem) (s : Session) : Step → Except Fault Session
  | .event revents r w preceding sent =>
    TcpConnection.handleEvent (processMessage fs preceding sent) revents r w s
  | .functor preceding w => TcpConnection.withContext (fun c => c.runPending preceding w) s
  | .timeout => .ok (s.1, s.2.shutdown true)
  | .ownerRemoves => .ok (s.1, s.2.queueInLoop false .connectDestroyed)

/-! ### What a message does -/

theorem shutdown_input (c : TcpConnection) (isInLoopThread : Bool) :
    (c.shutdown isInLoopThread).inputBuffer = c.inputBuffer := by
  unfold TcpConnection.shutdown
  split
  · dsimp only
    split
    · exact TcpConnection.shutdownInLoop_sameLife.inputBuffer
    · rfl
  · rfl

theorem sendOutputBuffer_input {c d : TcpConnection} {preceding : UInt8} {w : WriteResult}
    (h : c.sendOutputBuffer preceding w = .ok d) : d.inputBuffer = c.inputBuffer := by
  unfold TcpConnection.sendOutputBuffer at h
  split at h
  · obtain ⟨⟨msg, outputBuffer⟩, -, h⟩ := bind_eq_ok.mp h
    exact (TcpConnection.sendInLoop_sameLife h).inputBuffer
  · cases h
    rfl

theorem processMessage_spec {preceding : UInt8} {w : WriteResult}
    (h : processMessage fs preceding w s = .ok t) :
    ∃ reply, respond fs s.1.http s.2.inputBuffer.readable =
        .ok (reply, t.1.http, t.2.inputBuffer.readable) ∧
      ((reply = none ∧ t.1.answers = s.1.answers ∧
          t.1.lineTaken = (s.1.lineTaken || takesRequestLine s.1.http s.2.inputBuffer)) ∨
        ∃ r, reply = some r ∧ t.1.lineTaken = false ∧ t.1.answers = s.1.answers ++
          [⟨r, s.1.lineTaken || takesRequestLine s.1.http s.2.inputBuffer⟩]) := by
  obtain ⟨⟨ret, http, inputBuffer⟩, hparse, h⟩ := bind_eq_ok.mp h
  have hbytes : s.1.http.parseRequest fs s.2.inputBuffer.readable =
      .ok (ret, http, inputBuffer.readable) := HttpConnection.parse_of_parseRequest hparse
  unfold respond
  rw [hbytes, ok_bind]
  dsimp only at h ⊢
  split at h
  · rename_i hno
    cases h
    rw [if_pos hno]
    exact ⟨none, rfl, .inl ⟨rfl, rfl, rfl⟩⟩
  · rename_i hret
    obtain ⟨⟨http', bytes⟩, hmake, h⟩ := bind_eq_ok.mp h
    obtain ⟨outputBuffer, -, h⟩ := bind_eq_ok.mp h
    obtain ⟨conn, hsend, h⟩ := bind_eq_ok.mp h
    have hinput := sendOutputBuffer_input hsend
    rw [if_neg hret, hmake, ok_bind]
    dsimp only at h hinput ⊢
    split at h
    · rename_i hclose
      cases h
      refine ⟨some ⟨bytes, http'.keepAlive⟩, ?_, .inr ⟨_, rfl, rfl, rfl⟩⟩
      rw [if_pos hclose, shutdown_input, hinput]
      rfl
    · rename_i hkeep
      cases h
      refine ⟨some ⟨bytes, http'.keepAlive⟩, ?_, .inr ⟨_, rfl, rfl, rfl⟩⟩
      rw [if_neg hkeep, hinput]
      rfl

/-- A step that calls the message callback. -/
def Delivers : Step → Prop
  | .event revents r _ _ _ => TcpConnection.Reads revents r
  | _ => False

theorem takesRequestLine_buffer (c : HttpConnection) (b : Buffer) :
    takesRequestLine c b = takesRequestLine c b.readable := by
  have hsome : b.findCRLF.isSome = (search kCRLF b.readable).isSome := by
    rw [Buffer.findCRLF, Option.isSome_map]
  exact congrArg (_ && ·) hsome

/-- Whether a step changes the context: it does not, or it delivers bytes, which are answered as in
a conversation. -/
theorem step_cases {a : Step} (h : step fs s a = .ok t) :
    (t.1 = s.1 ∧ t.2.inputBuffer.readable = s.2.inputBuffer.readable) ∨
    Delivers a ∧ ∃ chunk reply, respond fs s.1.http (s.2.inputBuffer.readable ++ chunk) =
        .ok (reply, t.1.http, t.2.inputBuffer.readable) ∧
      ((reply = none ∧ t.1.answers = s.1.answers ∧ t.1.lineTaken =
          (s.1.lineTaken || takesRequestLine s.1.http (s.2.inputBuffer.readable ++ chunk))) ∨
        ∃ r, reply = some r ∧ t.1.lineTaken = false ∧ t.1.answers = s.1.answers ++
          [⟨r, s.1.lineTaken ||
            takesRequestLine s.1.http (s.2.inputBuffer.readable ++ chunk)⟩]) := by
  cases a with
  | event revents r w preceding sent =>
    rcases TcpConnection.handleEvent_cases h with hsame | ⟨hreads, c, chunk, u, hchunk, hmessage, h1, h2⟩
    · exact .inl hsame
    · refine .inr ⟨hreads, chunk, ?_⟩
      have hspec := processMessage_spec hmessage
      dsimp only at hspec
      rw [takesRequestLine_buffer, hchunk] at hspec
      rw [h1, h2]
      exact hspec
  | functor preceding w =>
    obtain ⟨d, hd, h⟩ := bind_eq_ok.mp h
    cases h
    exact .inl ⟨rfl, by rw [TcpConnection.runPending_input hd]⟩
  | timeout =>
    cases h
    exact .inl ⟨rfl, by rw [shutdown_input]⟩
  | ownerRemoves =>
    cases h
    exact .inl ⟨rfl, rfl⟩

/-! ### Sessions and conversations -/

/-- The session stands as the conversation does. -/
structure Refines (s : Session) (e : Exchange) : Prop where
  http : e.http = s.1.http
  input : e.input = s.2.inputBuffer.readable
  replies : e.replies = s.1.answers.map Answer.toReply

/-- Every run of a session is a conversation. -/
theorem run_refines {conn : TcpConnection} {steps : List Step}
    (hinput : conn.inputBuffer.readable = [])
    (hrun : run (step fs) (onConnection sourceDir conn) steps = .ok s) :
    ∃ e, Reachable (Exchange.deliver fs) (.start sourceDir) e ∧ Refines s e := by
  have hstart : Refines (onConnection sourceDir conn) (.start sourceDir) :=
    ⟨rfl, hinput.symm, rfl⟩
  refine run_invariant (I := fun s => ∃ e, Reachable (Exchange.deliver fs) (.start sourceDir) e ∧
    Refines s e) ?_ ⟨_, .refl _, hstart⟩ hrun
  rintro s a t ⟨e, ⟨chunks, hchunks⟩, hrefines⟩ hstep
  rcases step_cases hstep with ⟨hcontext, hsame⟩ | ⟨-, chunk, reply, hrespond, hreply⟩
  · refine ⟨e, ⟨chunks, hchunks⟩, ?_, ?_, ?_⟩
    · rw [hcontext, hrefines.http]
    · rw [hsame, hrefines.input]
    · rw [hcontext, hrefines.replies]
  · rw [← hrefines.http, ← hrefines.input] at hrespond
    have hd := Exchange.deliver_of_respond hrespond
    have hrun := run_append_ok.mpr ⟨e, hchunks, (run_singleton _ e chunk).trans hd⟩
    refine ⟨_, ⟨chunks ++ [chunk], hrun⟩, rfl, rfl, ?_⟩
    rcases hreply with ⟨rfl, hanswers, -⟩ | ⟨r, rfl, -, hanswers⟩
    · rw [hanswers, hrefines.replies, Option.toList_none, List.append_nil]
    · rw [hanswers, hrefines.replies, List.map_append]
      rfl

/-- What `takesRequestLine` says: the loop of `parseRequest` takes a request line. -/
theorem takesRequestLine_iff (fs : FileSystem) (c : HttpConnection) (q : Bytes) :
    takesRequestLine c q = true ↔ ∃ c' q' crlf, HttpConnection.Visits fs c q c' q' ∧
      c'.parseState = .kRequestLine ∧ search kCRLF q' = some crlf := by
  have hfind : (ByteQueue.findCRLF q).isSome = (search kCRLF q).isSome := rfl
  rw [takesRequestLine, hfind, Bool.and_eq_true, beq_iff_eq]
  constructor
  · rintro ⟨hstate, hfound⟩
    obtain ⟨crlf, hcrlf⟩ := Option.isSome_iff_exists.mp hfound
    exact ⟨c, q, crlf, .here c q, hstate, hcrlf⟩
  · rintro ⟨c', q', crlf, hvisit, hstate, hcrlf⟩
    obtain ⟨rfl, rfl⟩ := hvisit.requestLine hstate
    exact ⟨hstate, Option.isSome_iff_exists.mpr ⟨crlf, hcrlf⟩⟩

/-! ### One response for each request -/

/-- The last response has closed the connection. -/
def Closing (context : HttpContext) : Prop :=
  ∃ before a, context.answers = before ++ [a] ∧ a.keepAlive = false

/-- No message is delivered after a response that closes. -/
def NotAfterClosing (s : Session) (a : Step) : Prop := Closing s.1 → ¬Delivers a

/-- Each response has a request line of its own, and none follows one that closes.  While none has
closed the connection, a request line has been taken or is what comes next. -/
structure Answered (context : HttpContext) : Prop where
  own : ∀ a ∈ context.answers, a.ownLine = true
  last : ∀ before a after, context.answers = before ++ a :: after → a.keepAlive = false → after = []
  started : ¬Closing context → context.http.parseState = .kRequestLine ∨ context.lineTaken = true

theorem respond_of_not_takes {c http : HttpConnection} {q rest : Bytes} {reply : Option Reply}
    (hstate : c.parseState = .kRequestLine) (htakes : takesRequestLine c q = false)
    (h : respond fs c q = .ok (reply, http, rest)) : reply = none ∧ http = c := by
  have hcrlf : search kCRLF q = none := by
    rw [takesRequestLine, hstate] at htakes
    have hfind : ByteQueue.findCRLF q = none := by simpa using htakes
    exact hfind
  have hparse : c.parseRequest fs q = .ok (.kNoRequest, c, q) := by
    refine HttpConnection.parse_waits (by simp [hstate]) ?_
    unfold HttpConnection.consume
    simp only [hstate, hcrlf]
  rw [respond, hparse] at h
  cases h
  exact ⟨rfl, rfl⟩

/-- A response that does not close is given in a state that `resetState` has left. -/
theorem respond_keeps {c http : HttpConnection} {q rest : Bytes} {r : Reply}
    (h : respond fs c q = .ok (some r, http, rest)) (hkeep : r.keepAlive = true) :
    http.parseState = .kRequestLine := by
  obtain ⟨⟨ret, d, q'⟩, -, h⟩ := bind_eq_ok.mp h
  dsimp only at h
  split at h
  · cases h
  · obtain ⟨⟨d', bytes⟩, -, h⟩ := bind_eq_ok.mp h
    dsimp only at h
    split at h
    · rename_i hclose
      cases h
      dsimp only at hkeep
      rw [hkeep] at hclose
      cases hclose
    · cases h
      rfl

theorem step_answered {a : Step} (h : Answered s.1) (hopen : NotAfterClosing s a)
    (hstep : step fs s a = .ok t) : Answered t.1 := by
  rcases step_cases hstep with ⟨hcontext, -⟩ | ⟨hdelivers, chunk, reply, hrespond, hreply⟩
  · rw [hcontext]
    exact h
  · have hnot : ¬Closing s.1 := fun hclosing => hopen hclosing hdelivers
    -- A request line has been taken, unless nothing at all is parsed.
    have hline : (s.1.lineTaken ||
          takesRequestLine s.1.http (s.2.inputBuffer.readable ++ chunk)) = true ∨
        reply = none ∧ t.1.http = s.1.http ∧ s.1.http.parseState = .kRequestLine := by
      rcases h.started hnot with hstate | htaken
      · cases htakes : takesRequestLine s.1.http (s.2.inputBuffer.readable ++ chunk) with
        | true => exact .inl (Bool.or_true _)
        | false =>
          obtain ⟨hnone, hsame⟩ := respond_of_not_takes hstate htakes hrespond
          exact .inr ⟨hnone, hsame, hstate⟩
      · exact .inl (by rw [htaken, Bool.true_or])
    rcases hreply with ⟨-, hanswers, htaken⟩ | ⟨r, rfl, -, hanswers⟩
    · refine ⟨hanswers ▸ h.own, hanswers ▸ h.last, ?_⟩
      intro _
      rcases hline with hline | ⟨-, hsame, hstate⟩
      · exact .inr (htaken.trans hline)
      · exact .inl (by rw [hsame, hstate])
    · have hown := hline.resolve_right fun hnone => by cases hnone.1
      rw [hown] at hanswers
      refine ⟨?_, ?_, ?_⟩
      · intro a ha
        rw [hanswers] at ha
        rcases List.mem_append.mp ha with ha | ha
        · exact h.own a ha
        · rw [List.mem_singleton.mp ha]
      · intro before a after hsplit hclose
        rw [hanswers] at hsplit
        rcases List.eq_nil_or_concat after with hnil | ⟨after', x, rfl⟩
        · exact hnil
        · rw [List.concat_eq_append, ← List.cons_append, ← List.append_assoc] at hsplit
          have hbefore := (List.append_inj_left' hsplit rfl)
          have hnil := h.last before a after' hbefore hclose
          exact absurd ⟨before, a, by rw [hbefore, hnil], hclose⟩ hnot
      · intro hnot'
        cases hkeep : r.keepAlive with
        | true => exact .inl (respond_keeps hrespond hkeep)
        | false => exact absurd ⟨_, _, hanswers, hkeep⟩ hnot'

/-- In every run of a connection in which no message is delivered after a response that closes, each
response has a request line of its own, and none follows one that closes. -/
theorem one_response_per_request {conn : TcpConnection} {steps : List Step}
    (hopen : Along (step fs) NotAfterClosing (onConnection sourceDir conn) steps)
    (hrun : run (step fs) (onConnection sourceDir conn) steps = .ok s) :
    (∀ a ∈ s.1.answers, a.ownLine = true) ∧
      ∀ before a after, s.1.answers = before ++ a :: after → a.keepAlive = false → after = [] := by
  have hstart : Answered (onConnection sourceDir conn).1 :=
    ⟨by simp [onConnection], by simp [onConnection], fun _ => .inl rfl⟩
  have hend := hopen.run_invariant (I := fun s => Answered s.1)
    (fun s a t hs ha ht => step_answered hs ha ht) hstart hrun
  exact ⟨hend.own, hend.last⟩

/-- Bytes arrive, and `sent` is what becomes of the direct write of a response. -/
def receive (bytes : Bytes) (sent : WriteResult) : Step := .event POLLIN (.data bytes) .failed 0 sent

theorem one_response_per_request_two : ∃ (conn : TcpConnection) (s : Session),
    run (step rootSite) (onConnection [] conn)
      [receive (ofString "GET / HTTP/1.1\r\nConnection: keep-alive\r\n\r\n") (.accepted 500),
        receive (ofString "GET / HTTP/1.1\r\n\r\n") (.accepted 500)] = .ok s ∧
    s.1.answers.map (fun a => a.keepAlive) = [true, false] ∧
    (∀ a ∈ s.1.answers, a.ownLine = true) ∧
    ∀ before a after, s.1.answers = before ++ a :: after → a.keepAlive = false → after = [] := by
  have heval : ((TcpConnection.new .new 1 5 false).connectEstablished >>= fun conn =>
      step rootSite (onConnection [] conn)
        (receive (ofString "GET / HTTP/1.1\r\nConnection: keep-alive\r\n\r\n") (.accepted 500)) >>=
      fun u => step rootSite u (receive (ofString "GET / HTTP/1.1\r\n\r\n") (.accepted 500)) >>=
      fun s => .ok (u.1.answers.map (fun a => a.keepAlive), s.1.answers.map fun a => a.keepAlive)) =
      .ok ([true], [true, false]) := by decide +kernel
  obtain ⟨conn, -, heval⟩ := bind_eq_ok.mp heval
  obtain ⟨u, hu, heval⟩ := bind_eq_ok.mp heval
  obtain ⟨s, hs, heval⟩ := bind_eq_ok.mp heval
  simp only [Except.ok.injEq, Prod.mk.injEq] at heval
  obtain ⟨hkept, hanswers⟩ := heval
  have hrun := run_cons_ok.mpr ⟨u, hu, (run_singleton (step rootSite) u _).trans hs⟩
  have hfirst : ¬Closing (onConnection [] conn).1 := by
    rintro ⟨before, a, hsplit, -⟩
    simp [onConnection] at hsplit
  have hsecond : ¬Closing u.1 := by
    rintro ⟨before, a, hsplit, hclose⟩
    rw [hsplit, List.map_append, List.map_singleton, hclose] at hkept
    have hlast := congrArg List.getLast? hkept
    simp at hlast
  have hopen : Along (step rootSite) NotAfterClosing (onConnection [] conn)
      [receive (ofString "GET / HTTP/1.1\r\nConnection: keep-alive\r\n\r\n") (.accepted 500),
        receive (ofString "GET / HTTP/1.1\r\n\r\n") (.accepted 500)] := by
    refine ⟨fun h => absurd h hfirst, fun v hv => ⟨?_, fun w hw => trivial⟩⟩
    intro h
    cases hu.symm.trans hv
    exact absurd h hsecond
  exact ⟨conn, s, hrun, hanswers, one_response_per_request hopen hrun⟩

/-- A byte that arrives after a response that closes, part of which is still to be written: a second
response is added to the output. -/
theorem response_after_closing : ∃ (conn : TcpConnection) (s t : Session),
    (TcpConnection.new .new 1 5 false).connectEstablished = .ok conn ∧
    step rootSite (onConnection [] conn)
      (receive (ofString "GET / HTTP/1.1\r\n\r\n") (.accepted 1)) = .ok s ∧
    step rootSite s (receive (ofString "x") .failed) = .ok t ∧
    s.2.state = .kDisconnecting ∧ s.1.answers.map (fun a => (a.ownLine, a.keepAlive)) =
      [(true, false)] ∧
    t.1.answers.map (fun a => (a.ownLine, a.keepAlive)) = [(true, false), (false, false)] ∧
    s.2.outputBuffer.readable.length < t.2.outputBuffer.readable.length := by
  have heval : ((TcpConnection.new .new 1 5 false).connectEstablished >>= fun conn =>
      step rootSite (onConnection [] conn)
        (receive (ofString "GET / HTTP/1.1\r\n\r\n") (.accepted 1)) >>= fun s =>
      step rootSite s (receive (ofString "x") .failed) >>= fun t =>
        .ok (s.2.state, s.1.answers.map (fun a => (a.ownLine, a.keepAlive)),
          t.1.answers.map (fun a => (a.ownLine, a.keepAlive)),
          decide (s.2.outputBuffer.readable.length < t.2.outputBuffer.readable.length))) =
      .ok (.kDisconnecting, [(true, false)], [(true, false), (false, false)], true) := by
    decide +kernel
  obtain ⟨conn, hconn, heval⟩ := bind_eq_ok.mp heval
  obtain ⟨s, hs, heval⟩ := bind_eq_ok.mp heval
  obtain ⟨t, ht, heval⟩ := bind_eq_ok.mp heval
  simp only [Except.ok.injEq, Prod.mk.injEq, decide_eq_true_eq] at heval
  exact ⟨conn, s, t, hconn, hs, ht, heval⟩

end Session

end Mymuduo
