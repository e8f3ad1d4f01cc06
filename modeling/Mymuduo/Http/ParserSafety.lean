import Mymuduo.Http.ContentLength
import Mymuduo.Http.Resume

/-! The safety of `parseRequest`.  In whatever state earlier deliveries, responses and resets have
left the parser, it returns unless a conversion throws: no assertion fails, and the body that is read
is never longer than its announced length. -/

namespace Mymuduo

open Lib

/-- What happens to the parser: a delivery, with any content of the input buffer, a response, whatever
the outcome was, and a reset, whatever the response was. -/
inductive ParserStep
  | parseRequest (inputBuf : Buffer)
  | makeResponse (parseRet : HttpCode)
  | resetState

namespace HttpConnection

def parserStep (fs : FileSystem) (c : HttpConnection) : ParserStep → Except Fault HttpConnection
  | .parseRequest inputBuf => do
    let (_, c, _) ← c.parseRequest fs inputBuf
    return c
  | .makeResponse parseRet => do
    let (c, _) ← c.makeResponse fs parseRet
    return c
  | .resetState => return c.resetState

/-- The body that has been read is missing or complete, as long as the parser is in `kBody`. -/
structure Fitting (c : HttpConnection) : Prop where
  coherent : Coherent c
  body : c.parseState = .kBody → ∀ m, c.bodyLength = .ok m →
    c.body = [] ∨ c.body.length = m.toNat

variable {fs : FileSystem} {c c' : HttpConnection} {q q' : Bytes} {n : Nat} {ret : HttpCode}
  {e : Fault}

theorem fitting_of_fresh (hstate : c.parseState = .kRequestLine) (hbody : c.body = []) :
    Fitting c := ⟨coherent_of_fresh hstate hbody, fun h => by rw [hstate] at h; cases h⟩

/-- With what `remain` says the body is complete. -/
theorem Fitting.complete {m : UInt64} (h : Fitting c) (hstate : c.parseState = .kBody)
    (hm : c.bodyLength = .ok m) :
    c.body.length ≤ m.toNat ∧
      (m - UInt64.ofNat c.body.length).toNat = m.toNat - c.body.length := by
  rcases h.body hstate m hm with hnil | hfull
  · rw [hnil]
    simp
  · rw [hfull, UInt64.ofNat_toNat, UInt64.sub_self]
    simp

theorem consume_fitting (c : HttpConnection) (q : Bytes) (n : Nat) (ret : HttpCode)
    (c' : HttpConnection) (h : Fitting c) (hfinish : c.parseState ≠ .kFinish)
    (hconsume : consume fs c q = .ok (some (n, ret, c'))) : Fitting c' := by
  have hcoherent := consume_coherent c q n ret c' h.coherent hfinish hconsume
  refine ⟨hcoherent, ?_⟩
  intro hbody m hm
  cases consume_cases hfinish hconsume with
  | requestLine hstate hcrlf hparse =>
    rcases parseRequestLine_cases fs c _ with
      ⟨-, hline⟩ | ⟨method, path, version, -, ret', stat, hline, -, -⟩
    · cases hparse.symm.trans hline
      rw [hstate] at hbody
      cases hbody
    · cases hparse.symm.trans hline
      cases hbody
  | header hstate hcrlf hparse =>
    have hnil := h.coherent.body_nil (.inr hstate)
    rcases parseRequestHeader_cases hparse with
      ⟨-, -, -, rfl⟩ | ⟨-, -, -, rfl⟩ | ⟨-, -, -, rfl⟩ | ⟨-, key, value, -, -, rfl⟩
    · cases hbody
    · exact .inl hnil
    · exact .inl hnil
    · exact .inl hnil
  | body hstate hremain henough hparse =>
    obtain ⟨m', hm', hremain'⟩ := h.coherent.remain hstate
    cases hremain.symm.trans hremain'
    have hframe := parseRequestBody_frame hparse
    have hlength : c'.bodyLength = c.bodyLength := by rw [hframe]; rfl
    rw [hlength, hm'] at hm
    cases hm
    obtain ⟨hle, hrest⟩ := h.complete hstate hm'
    have hbody' : c'.body = c.body ++ q.take (m - UInt64.ofNat c.body.length).toNat := by
      rw [hframe]
    rw [hbody', List.length_append, List.length_take, Nat.min_eq_left henough, hrest]
    exact .inr (by omega)

/-- Only a conversion can throw: an assertion of `parseRequest` holds, and the input is asked for no
more than it has. -/
theorem Coherent.consume_error (h : Coherent c) (herror : consume fs c q = .error e) :
    ∃ x, e = .exception x := by
  unfold consume at herror
  cases hs : c.parseState with
  | kBody =>
    obtain ⟨m, hm, hremain⟩ := h.remain hs
    simp only [hs, hremain, ok_bind] at herror
    split at herror
    · cases herror
    · obtain ⟨r, hr⟩ := parseRequestBody_returns fs (q.take (m - UInt64.ofNat c.body.length).toNat) hm
      rw [hr] at herror
      cases herror
  | kRequestLine =>
    simp only [hs] at herror
    split at herror <;> cases herror
  | kHeader =>
    simp only [hs] at herror
    split at herror
    · cases herror
    · rename_i crlf hcrlf
      cases hline : c.parseRequestHeader (q.take crlf) with
      | ok r =>
        rw [hline] at herror
        cases herror
      | error e' =>
        rw [hline] at herror
        cases herror
        unfold parseRequestHeader at hline
        split at hline
        · split at hline
          · cases hline
          · cases hline
            exact ⟨_, rfl⟩
          · split at hline <;> cases hline
        · split at hline <;> cases hline
  | kFinish =>
    simp only [hs] at herror
    cases herror

theorem Coherent.parse_error (h : Coherent c) (herror : parse fs c q = .error e) :
    ∃ x, e = .exception x := by
  induction c, q using parse_induction fs with
  | finish c q hfinish =>
    rw [parse_finish hfinish] at herror
    cases herror
  | fails c q e' hfinish hconsume =>
    rw [HttpConnection.parse_error hfinish hconsume] at herror
    cases herror
    exact h.consume_error hconsume
  | waits c q hfinish hconsume =>
    rw [parse_waits hfinish hconsume] at herror
    cases herror
  | returns c q n ret c' hfinish hret hconsume =>
    rw [parse_returns hfinish hconsume hret] at herror
    cases herror
  | continues c q n c' hfinish hconsume ih =>
    rw [parse_continues hfinish hconsume] at herror
    exact ih (consume_coherent c q n _ c' h hfinish hconsume) herror

theorem parserStep_fitting (c : HttpConnection) (a : ParserStep) (c' : HttpConnection)
    (h : Fitting c) (hstep : c.parserStep fs a = .ok c') : Fitting c' := by
  cases a with
  | parseRequest inputBuf =>
    obtain ⟨⟨ret, d, b⟩, hparse, hstep⟩ := bind_eq_ok.mp hstep
    cases hstep
    exact parse_invariant consume_fitting h (parse_of_parseRequest hparse)
  | makeResponse parseRet =>
    obtain ⟨⟨d, bytes⟩, hmake, hstep⟩ := bind_eq_ok.mp hstep
    cases hstep
    rw [makeResponse_frame hmake]
    exact ⟨⟨h.coherent.body_nil, h.coherent.length⟩, h.body⟩
  | resetState =>
    cases hstep
    exact fitting_of_fresh rfl rfl

/-- In every state that deliveries, responses and resets lead to, and with any content of the buffer:
the loop of `parseRequest` ends, only a conversion can throw in it, the length of the body is never
exceeded, and what is taken from the buffer is its front. -/
theorem parseRequest_safe {sourceDir : Bytes}
    (hreach : Reachable (parserStep fs) (.new sourceDir) c) (inputBuf : Buffer) :
    (∃ p : Parsed Buffer, Ends fs c inputBuf p ∧
      c.parseRequest fs inputBuf = p.ending.map fun ret => (ret, p.http, p.input)) ∧
    (∀ e, c.parseRequest fs inputBuf = .error e → ∃ x, e = .exception x) ∧
    (∀ d r, Visits fs c inputBuf.readable d r → d.parseState = .kBody →
      ∃ m, d.bodyLength = .ok m ∧ d.body.length ≤ m.toNat) ∧
    ∀ ret c' inputBuf', c.parseRequest fs inputBuf = .ok (ret, c', inputBuf') →
      inputBuf'.readable <:+ inputBuf.readable := by
  have hfitting : Fitting c :=
    hreach.invariant (I := Fitting) parserStep_fitting (fitting_of_fresh rfl rfl)
  refine ⟨⟨attempt fs c inputBuf, attempt_ends fs c inputBuf, parseRequest_eq_attempt fs c _⟩,
    ?_, ?_, ?_⟩
  · intro e herror
    have hsim := parseRequest_sim fs c inputBuf
    cases hparse : parse fs c inputBuf.readable with
    | error e' =>
      rw [bytes_buffer, hparse] at hsim
      cases hsim.symm.trans herror
      exact hfitting.coherent.parse_error hparse
    | ok r =>
      rw [bytes_buffer, hparse] at hsim
      obtain ⟨q', hq', -⟩ := hsim
      cases hq'.symm.trans herror
  · intro d r hvisit hstate
    have hd := hvisit.invariant consume_fitting hfitting
    obtain ⟨m, hm, -⟩ := hd.coherent.remain hstate
    exact ⟨m, hm, (hd.complete hstate hm).1⟩
  · intro ret c' inputBuf' hparse
    exact parse_suffix (parse_of_parseRequest hparse)

/-- A form without a value, in a request that is refused and not reset: its body is complete, and is
looked at again with the next delivery. -/
theorem parseRequest_safe_refused : ∃ (b : Buffer) (c : HttpConnection),
    run (parserStep rootSite) (.new []) [.parseRequest b, .makeResponse .kBadRequest] = .ok c ∧
    c.parseState = .kBody ∧ c.body = ofString "a" ∧
    (∃ p : Parsed Buffer, Ends rootSite c b p ∧
      c.parseRequest rootSite b = p.ending.map fun ret => (ret, p.http, p.input)) ∧
    (∀ e, c.parseRequest rootSite b = .error e → ∃ x, e = .exception x) ∧
    (∀ d r, Visits rootSite c b.readable d r → d.parseState = .kBody →
      ∃ m, d.bodyLength = .ok m ∧ d.body.length ≤ m.toNat) ∧
    ∀ ret c' b', c.parseRequest rootSite b = .ok (ret, c', b') → b'.readable <:+ b.readable := by
  have heval : ((Buffer.new 8).append (ofString ("POST / HTTP/1.1\r\nContent-Length: 1\r\n" ++
      "Content-Type: application/x-www-form-urlencoded\r\n\r\na")) >>= fun b =>
        run (parserStep rootSite) (.new []) [.parseRequest b, .makeResponse .kBadRequest] >>= fun c =>
          .ok (c.parseState, c.body)) = .ok (.kBody, ofString "a") := by decide +kernel
  obtain ⟨b, -, heval⟩ := bind_eq_ok.mp heval
  obtain ⟨c, hrun, heval⟩ := bind_eq_ok.mp heval
  simp only [Except.ok.injEq, Prod.mk.injEq] at heval
  exact ⟨b, c, hrun, heval.1, heval.2, parseRequest_safe ⟨_, hrun⟩ b⟩

end HttpConnection

end Mymuduo
