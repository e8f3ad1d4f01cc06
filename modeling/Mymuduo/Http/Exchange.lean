import Mymuduo.Http.ParseRequest

/-! A conversation: bytes are delivered, the parser takes a request from them, and it is answered.
This is `processMessage` without the socket. -/

namespace Mymuduo

open Lib

/-- A response, and the decision to keep the connection. -/
structure Reply where
  bytes : Bytes
  keepAlive : Bool
  deriving DecidableEq, Repr

/-- What `processMessage` makes of the input: the response, if a request has ended. -/
def respond {Q : Type} [ByteQueue Q] (fs : FileSystem) (c : HttpConnection) (q : Q) :
    Except Fault (Option Reply × HttpConnection × Q) := do
  let (parseRet, c, q) ← c.parseRequest fs q
  if parseRet = .kNoRequest then
    return (none, c, q)
  else
    let (c, bytes) ← c.makeResponse fs parseRet
    if !c.keepAlive then return (some ⟨bytes, c.keepAlive⟩, c, q)
    else return (some ⟨bytes, c.keepAlive⟩, c.resetState, q)

/-- The state of a conversation.  `replies` holds the responses so far, and `consumed` the bytes
taken from the input since the beginning or the last `resetState`. -/
structure Exchange where
  http : HttpConnection
  input : Bytes
  replies : List Reply
  consumed : Bytes

namespace Exchange

def start (sourceDir : Bytes) : Exchange := ⟨.new sourceDir, [], [], []⟩

/-- The bytes taken from the input since the last `resetState`, when `rest` is left of it. -/
def takenSince (e : Exchange) (chunk rest : Bytes) : Bytes :=
  e.consumed ++ (e.input ++ chunk).take ((e.input ++ chunk).length - rest.length)

/-- A chunk of bytes arrives, and the message callback is called. -/
def deliver (fs : FileSystem) (e : Exchange) (chunk : Bytes) : Except Fault Exchange := do
  let (reply, http, input) ← respond fs e.http (e.input ++ chunk)
  let kept := reply.any Reply.keepAlive
  return {
    http := http
    input := input
    replies := e.replies ++ reply.toList
    consumed := if kept then [] else e.takenSince chunk input }

end Exchange

namespace HttpConnection

variable {fs : FileSystem} {c c' : HttpConnection} {q q' : Bytes} {ret : HttpCode}

/-! ### Responses -/

theorem initResponse_frame (h : c.initResponse fs ret = .ok c') :
    c' = { c with
      path := c'.path
      responseCode := codeOf ret
      requestFileStat := c'.requestFileStat } := by
  unfold initResponse at h
  dsimp only at h
  split at h
  · split at h
    · cases h
    · cases h
      rfl
  · cases h
    rfl

/-- Every code that `initResponse` sets has its text. -/
theorem makeResponseLine_isOk (h : c.initResponse fs ret = .ok c') :
    ∃ line, c'.makeResponseLine = .ok line := by
  have hcode : c'.responseCode = codeOf ret := by rw [initResponse_frame h]
  rw [makeResponseLine, hcode]
  cases ret <;> exact ⟨_, rfl⟩

/-- What a response is put together from. -/
theorem makeResponse_cases {bytes : Bytes} (h : c.makeResponse fs ret = .ok (c', bytes)) :
    ret ≠ .kNoRequest ∧ ∃ d line body, c.initResponse fs ret = .ok d ∧
      d.makeResponseLine = .ok line ∧ c' = { d with keepAlive := d.asksKeepAlive } ∧
      c'.makeResponseBody fs = .ok body ∧ bytes = line ++ d.makeResponseHeader.2 ++ body := by
  obtain ⟨u, hcheck, h⟩ := bind_eq_ok.mp h
  obtain ⟨d, hinit, h⟩ := bind_eq_ok.mp h
  obtain ⟨line, hline, h⟩ := bind_eq_ok.mp h
  obtain ⟨body, hbody, h⟩ := bind_eq_ok.mp h
  obtain ⟨rfl, rfl⟩ := Prod.mk.inj (Except.ok.inj h)
  exact ⟨bne_iff_ne.mp (check_eq_ok.mp hcheck), d, line, body, hinit, hline, rfl, hbody, rfl⟩

/-- A response changes the path, the code, the attributes of the file and the decision to keep the
connection, which depends on the header and the version. -/
theorem makeResponse_frame {bytes : Bytes} (h : c.makeResponse fs ret = .ok (c', bytes)) :
    c' = { c with
      path := c'.path
      responseCode := codeOf ret
      requestFileStat := c'.requestFileStat
      keepAlive := c.asksKeepAlive } := by
  obtain ⟨-, d, line, body, hinit, -, rfl, -⟩ := makeResponse_cases h
  have hframe := initResponse_frame hinit
  have hasks : d.asksKeepAlive = c.asksKeepAlive := by rw [hframe]; rfl
  rw [hasks]
  rw [hframe]

/-! ### Invariants of the parser -/

/-- What every iteration keeps, a parse keeps. -/
theorem parse_invariant {I : HttpConnection → Prop}
    (hstep : ∀ c q n ret c', I c → c.parseState ≠ .kFinish →
      consume fs c q = .ok (some (n, ret, c')) → I c')
    (hI : I c) (h : parse fs c q = .ok (ret, c', q')) : I c' := by
  induction c, q using parse_induction fs with
  | finish c q hfinish =>
    rw [parse_finish hfinish] at h
    cases h
    exact hI
  | fails c q e hfinish hconsume =>
    rw [parse_error hfinish hconsume] at h
    cases h
  | waits c q hfinish hconsume =>
    rw [parse_waits hfinish hconsume] at h
    cases h
    exact hI
  | returns c q n ret c' hfinish hret hconsume =>
    rw [parse_returns hfinish hconsume hret] at h
    cases h
    exact hstep c q n _ _ hI hfinish hconsume
  | continues c q n c' hfinish hconsume ih =>
    rw [parse_continues hfinish hconsume] at h
    exact ih (hstep c q n _ _ hI hfinish hconsume) h

theorem consume_sourceDir {n : Nat} (hfinish : c.parseState ≠ .kFinish)
    (h : consume fs c q = .ok (some (n, ret, c'))) : c'.sourceDir = c.sourceDir := by
  cases consume_cases hfinish h with
  | requestLine hstate hcrlf hparse =>
    rcases parseRequestLine_cases fs c _ with
      ⟨-, hline⟩ | ⟨method, path, version, -, ret', stat, hline, -, -⟩ <;>
      cases hparse.symm.trans hline <;> rfl
  | header hstate hcrlf hparse =>
    rcases parseRequestHeader_cases hparse with
      ⟨-, -, -, rfl⟩ | ⟨-, -, -, rfl⟩ | ⟨-, -, -, rfl⟩ | ⟨-, key, value, -, -, rfl⟩ <;> rfl
  | body hstate hremain henough hparse => rw [parseRequestBody_frame hparse]

theorem parse_sourceDir (h : parse fs c q = .ok (ret, c', q')) : c'.sourceDir = c.sourceDir :=
  parse_invariant (I := fun d => d.sourceDir = c.sourceDir)
    (fun _ _ _ _ _ hI hfinish hconsume => (consume_sourceDir hfinish hconsume).trans hI) rfl h

/-- The states in which an iteration of a parse begins, with the bytes that are left there. -/
inductive Visits (fs : FileSystem) : HttpConnection → Bytes → HttpConnection → Bytes → Prop
  | here (c : HttpConnection) (q : Bytes) : Visits fs c q c q
  | next {c d c' : HttpConnection} {q q' : Bytes} {n : Nat} (hfinish : c.parseState ≠ .kFinish)
      (hconsume : consume fs c q = .ok (some (n, .kNoRequest, d)))
      (hrest : Visits fs d (q.drop n) c' q') : Visits fs c q c' q'

theorem Visits.parse_eq (h : Visits fs c q c' q') : parse fs c q = parse fs c' q' := by
  induction h with
  | here c q => rfl
  | next hfinish hconsume hrest ih =>
    rw [parse_continues hfinish hconsume]
    exact ih

theorem Visits.invariant {I : HttpConnection → Prop}
    (hstep : ∀ c q n ret c', I c → c.parseState ≠ .kFinish →
      consume fs c q = .ok (some (n, ret, c')) → I c')
    (h : Visits fs c q c' q') (hI : I c) : I c' := by
  induction h with
  | here c q => exact hI
  | next hfinish hconsume hrest ih => exact ih (hstep _ _ _ _ _ hI hfinish hconsume)

theorem Visits.length_le (h : Visits fs c q c' q') : q'.length ≤ q.length := by
  induction h with
  | here c q => exact Nat.le_refl _
  | next hfinish hconsume hrest ih =>
    rw [List.length_drop] at ih
    omega

/-- A parse that ends no request ends in a state that it visits. -/
theorem visits_of_waits (h : parse fs c q = .ok (.kNoRequest, c', q')) : Visits fs c q c' q' := by
  induction c, q using parse_induction fs with
  | finish c q hfinish =>
    rw [parse_finish hfinish] at h
    cases h
  | fails c q e hfinish hconsume =>
    rw [parse_error hfinish hconsume] at h
    cases h
  | waits c q hfinish hconsume =>
    rw [parse_waits hfinish hconsume] at h
    cases h
    exact .here _ _
  | returns c q n ret c' hfinish hret hconsume =>
    rw [parse_returns hfinish hconsume hret] at h
    cases h
    exact absurd rfl hret
  | continues c q n d hfinish hconsume ih =>
    rw [parse_continues hfinish hconsume] at h
    exact .next hfinish hconsume (ih h)

/-- The loop is in `kRequestLine` in its first iteration only. -/
theorem Visits.requestLine (h : Visits fs c q c' q') (hstate : c'.parseState = .kRequestLine) :
    c' = c ∧ q' = q := by
  induction h with
  | here c q => exact ⟨rfl, rfl⟩
  | @next c d c' q q' n hfinish hconsume hrest ih =>
    obtain ⟨rfl, rfl⟩ := ih hstate
    cases consume_cases hfinish hconsume with
    | requestLine _ hcrlf hparse =>
      rcases parseRequestLine_cases fs c _ with
        ⟨-, hline⟩ | ⟨method, path, version, -, ret', stat, hline, -, -⟩
      · cases hparse.symm.trans hline
      · cases hparse.symm.trans hline
        cases hstate
    | header hstate' hcrlf hparse =>
      rcases parseRequestHeader_cases hparse with
        ⟨-, -, hret, -⟩ | ⟨-, -, -, rfl⟩ | ⟨-, -, hret, -⟩ | ⟨-, key, value, -, -, rfl⟩
      · cases hret
      · cases hstate
      · cases hret
      · cases hstate'.symm.trans hstate
    | body hstate' hremain henough hparse =>
      refine absurd rfl (parseRequestBody_ne_kNoRequest hremain ?_ hparse)
      rw [List.length_take]
      omega

end HttpConnection

namespace Exchange

open HttpConnection

variable {fs : FileSystem} {e e' : Exchange} {chunk : Bytes}

theorem deliver_cases (h : e.deliver fs chunk = .ok e') :
    ∃ ret c rest, parse fs e.http (e.input ++ chunk) = .ok (ret, c, rest) ∧ e'.input = rest ∧
      ((ret = .kNoRequest ∧ e'.http = c ∧ e'.replies = e.replies ∧
          e'.consumed = e.takenSince chunk rest) ∨
        ret ≠ .kNoRequest ∧ ∃ d bytes, c.makeResponse fs ret = .ok (d, bytes) ∧
          e'.replies = e.replies ++ [⟨bytes, c.asksKeepAlive⟩] ∧
          ((c.asksKeepAlive = false ∧ e'.http = d ∧ e'.consumed = e.takenSince chunk rest) ∨
            c.asksKeepAlive = true ∧ e'.http = d.resetState ∧ e'.consumed = [])) := by
  obtain ⟨⟨reply, http, input⟩, hrespond, h⟩ := bind_eq_ok.mp h
  obtain ⟨⟨ret, c, rest⟩, hparse, hrespond⟩ := bind_eq_ok.mp hrespond
  cases h
  refine ⟨ret, c, rest, hparse, ?_⟩
  dsimp only at hrespond
  split at hrespond
  · rename_i hret
    cases hrespond
    exact ⟨rfl, .inl ⟨hret, rfl, List.append_nil _, rfl⟩⟩
  · rename_i hret
    obtain ⟨⟨d, bytes⟩, hmake, hrespond⟩ := bind_eq_ok.mp hrespond
    have hkeep : d.keepAlive = c.asksKeepAlive := by rw [makeResponse_frame hmake]
    dsimp only at hrespond
    cases hasks : c.asksKeepAlive with
    | false =>
      rw [hkeep, hasks] at hrespond
      cases hrespond
      exact ⟨rfl, .inr ⟨hret, _, bytes, hmake, rfl, .inl ⟨rfl, rfl, rfl⟩⟩⟩
    | true =>
      rw [hkeep, hasks] at hrespond
      cases hrespond
      exact ⟨rfl, .inr ⟨hret, _, bytes, hmake, rfl, .inr ⟨rfl, rfl, rfl⟩⟩⟩

theorem deliver_waits {c : HttpConnection} {rest : Bytes}
    (h : parse fs e.http (e.input ++ chunk) = .ok (.kNoRequest, c, rest)) :
    deliver fs e chunk = .ok { e with
      http := c
      input := rest
      consumed := e.takenSince chunk rest } := by
  have hparse : e.http.parseRequest fs (e.input ++ chunk) = .ok (.kNoRequest, c, rest) := h
  rw [deliver, respond, hparse]
  show Except.ok _ = _
  rw [Option.toList_none, List.append_nil]
  rfl

theorem deliver_keeps {d d' : HttpConnection} {ret : HttpCode} {rest bytes : Bytes}
    (h : parse fs e.http (e.input ++ chunk) = .ok (ret, d, rest))
    (hret : ret ≠ .kNoRequest) (hkeep : d.asksKeepAlive = true)
    (hmake : d.makeResponse fs ret = .ok (d', bytes)) :
    deliver fs e chunk = .ok ⟨d'.resetState, rest, e.replies ++ [⟨bytes, true⟩], []⟩ := by
  have hparse : e.http.parseRequest fs (e.input ++ chunk) = .ok (ret, d, rest) := h
  have hkeep' : d'.keepAlive = true := by rw [makeResponse_frame hmake]; exact hkeep
  rw [deliver, respond, hparse, ok_bind]
  dsimp only
  rw [if_neg hret, hmake, ok_bind]
  dsimp only
  rw [hkeep']
  rfl

theorem deliver_of_respond {reply : Option Reply} {http : HttpConnection} {input : Bytes}
    (h : respond fs e.http (e.input ++ chunk) = .ok (reply, http, input)) :
    deliver fs e chunk = .ok {
      http := http
      input := input
      replies := e.replies ++ reply.toList
      consumed := if reply.any Reply.keepAlive then [] else e.takenSince chunk input } := by
  rw [deliver, h]
  rfl

/-- What the parser keeps, responses do not touch and a reset restores, holds in every conversation. -/
theorem deliver_invariant {I : HttpConnection → Prop}
    (hstep : ∀ c q n ret c', I c → c.parseState ≠ .kFinish →
      consume fs c q = .ok (some (n, ret, c')) → I c')
    (hresponse : ∀ c path responseCode requestFileStat keepAlive, I c →
      I { c with
        path := path
        responseCode := responseCode
        requestFileStat := requestFileStat
        keepAlive := keepAlive })
    (hreset : ∀ c, I c → I (resetState c)) (e : Exchange) (chunk : Bytes) (e' : Exchange)
    (hI : I e.http) (h : e.deliver fs chunk = .ok e') : I e'.http := by
  obtain ⟨ret, c, rest, hparse, -, hend⟩ := deliver_cases h
  have hIc := parse_invariant hstep hI hparse
  rcases hend with ⟨-, hhttp, -⟩ | ⟨-, d, bytes, hmake, -, ⟨-, hhttp, -⟩ | ⟨-, hhttp, -⟩⟩
  · rw [hhttp]
    exact hIc
  · rw [hhttp, makeResponse_frame hmake]
    exact hresponse c _ _ _ _ hIc
  · rw [hhttp]
    refine hreset d ?_
    rw [makeResponse_frame hmake]
    exact hresponse c _ _ _ _ hIc

theorem deliver_sourceDir (h : e.deliver fs chunk = .ok e') :
    e'.http.sourceDir = e.http.sourceDir :=
  deliver_invariant (I := fun c => c.sourceDir = e.http.sourceDir)
    (fun _ _ _ _ _ hI hfinish hconsume => (consume_sourceDir hfinish hconsume).trans hI)
    (fun _ _ _ _ _ hI => hI) (fun _ hI => hI) e chunk e' rfl h

theorem reachable_sourceDir {sourceDir : Bytes} (h : Reachable (deliver fs) (start sourceDir) e) :
    e.http.sourceDir = sourceDir :=
  h.invariant (I := fun e => e.http.sourceDir = sourceDir)
    (fun _ _ _ hI hd => (deliver_sourceDir hd).trans hI) rfl

end Exchange

end Mymuduo
