import Mymuduo.Http.Exchange

/-! The length of a body.  `parseRequestHeader` reads it with `stoi` to see whether a body follows,
and `parseRequest` reads it again with `stoul` to see how many bytes to wait for. -/

namespace Mymuduo

open Lib

namespace HttpConnection

variable {fs : FileSystem} {c c' : HttpConnection} {q q' : Bytes} {n : Nat} {ret : HttpCode}

/-- No body has been read before its headers have ended, and `stoi` has read the length of a body
that is being read. -/
structure Coherent (c : HttpConnection) : Prop where
  body_nil : c.parseState = .kRequestLine ∨ c.parseState = .kHeader → c.body = []
  length : c.parseState = .kBody → ∃ k, contentLength c.header = some (.ok k)

theorem coherent_of_fresh (hstate : c.parseState = .kRequestLine) (hbody : c.body = []) :
    Coherent c := ⟨fun _ => hbody, fun h => by rw [hstate] at h; cases h⟩

theorem consume_coherent (c : HttpConnection) (q : Bytes) (n : Nat) (ret : HttpCode)
    (c' : HttpConnection) (h : Coherent c) (hfinish : c.parseState ≠ .kFinish)
    (hconsume : consume fs c q = .ok (some (n, ret, c'))) : Coherent c' := by
  cases consume_cases hfinish hconsume with
  | requestLine hstate hcrlf hparse =>
    have hbody := h.body_nil (.inl hstate)
    rcases parseRequestLine_cases fs c _ with
      ⟨-, hline⟩ | ⟨method, path, version, -, ret', stat, hline, -, -⟩
    · cases hparse.symm.trans hline
      exact h
    · cases hparse.symm.trans hline
      exact ⟨fun _ => hbody, by simp⟩
  | header hstate hcrlf hparse =>
    have hbody := h.body_nil (.inr hstate)
    rcases parseRequestHeader_cases hparse with
      ⟨-, -, -, rfl⟩ | ⟨-, ⟨k, hk, -⟩, -, rfl⟩ | ⟨-, -, -, rfl⟩ | ⟨-, key, value, -, -, rfl⟩
    · exact ⟨by simp, by simp⟩
    · exact ⟨by simp, fun _ => ⟨k, hk⟩⟩
    · exact h
    · exact ⟨fun _ => hbody, fun hbody => by simp [hstate] at hbody⟩
  | body hstate hremain henough hparse =>
    have hframe := parseRequestBody_frame hparse
    have hstate' : c'.parseState = .kFinish ∨ c'.parseState = .kBody := by
      rw [hframe]
      dsimp only
      split
      · exact .inl rfl
      · exact .inr hstate
    refine ⟨?_, ?_⟩
    · intro hline
      rcases hstate' with hstate' | hstate' <;> simp [hstate'] at hline
    · intro _
      rw [hframe]
      exact h.length hstate

/-- The length of a body that is being read is read by `stoul` as well. -/
theorem Coherent.remain (h : Coherent c) (hstate : c.parseState = .kBody) :
    ∃ m, c.bodyLength = .ok m ∧ c.remain = .ok (m - UInt64.ofNat c.body.length) := by
  obtain ⟨k, hk⟩ := h.length hstate
  obtain ⟨value, hvalue, hstoi⟩ := Option.map_eq_some_iff.mp hk
  obtain ⟨m, hm⟩ := stoul_isOk_of_stoi hstoi
  have hlength : c.bodyLength = .ok m := by
    rw [bodyLength, hvalue]
    dsimp only
    rw [hm]
  refine ⟨m, hlength, ?_⟩
  rw [HttpConnection.remain, hvalue, Option.isSome_some, check_true, ok_bind, hlength]
  rfl

/-- The parser is at the end of the headers, and their Content-Length cannot be read as a length. -/
def UnreadableEnd (c : HttpConnection) (q : Bytes) : Prop :=
  c.parseState = .kHeader ∧ search kCRLF q = some 0 ∧
    ∃ result, contentLength c.header = some result ∧ ∀ k, result = .ok k → k < 0

theorem Coherent.consume_returns (h : Coherent c) (fs : FileSystem) (hend : ¬UnreadableEnd c q) :
    ∃ taken, consume fs c q = .ok taken := by
  unfold consume
  cases hs : c.parseState with
  | kBody =>
    obtain ⟨m, hm, hremain⟩ := h.remain hs
    dsimp only
    rw [hremain, ok_bind]
    split
    · exact ⟨none, rfl⟩
    · obtain ⟨r, hr⟩ := parseRequestBody_returns fs (q.take (m - UInt64.ofNat c.body.length).toNat) hm
      rw [hr]
      exact ⟨_, rfl⟩
  | kRequestLine =>
    dsimp only
    split
    · exact ⟨none, rfl⟩
    · exact ⟨_, rfl⟩
  | kHeader =>
    dsimp only
    split
    · exact ⟨none, rfl⟩
    · rename_i crlf hcrlf
      have hreturns : ∃ r, c.parseRequestHeader (q.take crlf) = .ok r := by
        unfold parseRequestHeader
        split
        · rename_i hline
          obtain rfl := eq_zero_of_search_of_take hcrlf (List.eq_nil_of_length_eq_zero hline)
          split
          · exact ⟨_, rfl⟩
          · rename_i e hlength
            exact absurd ⟨hs, hcrlf, .error e, hlength, by simp⟩ hend
          · split <;> exact ⟨_, rfl⟩
        · split <;> exact ⟨_, rfl⟩
      obtain ⟨r, hr⟩ := hreturns
      rw [hr]
      exact ⟨_, rfl⟩
  | kFinish => exact ⟨_, rfl⟩

/-! ### The body -/

theorem parse_body (fs : FileSystem) {m : UInt64} (q : Bytes) (hstate : c.parseState = .kBody)
    (hbody : c.body = []) (hm : c.bodyLength = .ok m) (hpresent : (c.header (ofString "Content-Length")).isSome) :
    if q.length < m.toNat then parse fs c q = .ok (.kNoRequest, c, q)
    else ∃ ret d, c.parseRequestBody fs (q.take m.toNat) = .ok (ret, d) ∧ ret ≠ .kNoRequest ∧
      parse fs c q = .ok (ret, d, q.drop m.toNat) := by
  have hfinish : c.parseState ≠ .kFinish := by simp [hstate]
  have hremain : c.remain = .ok m := by
    rw [HttpConnection.remain, hpresent, check_true, ok_bind, hm, ok_bind, hbody]
    exact congrArg Except.ok (UInt64.sub_zero m)
  have hconsume : consume fs c q =
      if q.length < m.toNat then .ok none
      else c.parseRequestBody fs (q.take m.toNat) >>= fun r => .ok (some (m.toNat, r)) := by
    unfold consume
    simp only [hstate]
    rw [hremain, ok_bind]
    rfl
  split
  · rename_i hwait
    rw [if_pos hwait] at hconsume
    exact parse_waits hfinish hconsume
  · rename_i henough
    obtain ⟨⟨ret, d⟩, hr⟩ := parseRequestBody_returns fs (q.take m.toNat) hm
    rw [if_neg henough, hr, ok_bind] at hconsume
    have hline : (q.take m.toNat).length = m.toNat := by
      rw [List.length_take]
      omega
    have hret := parseRequestBody_ne_kNoRequest hremain hline hr
    exact ⟨ret, d, hr, hret, parse_returns hfinish hconsume hret⟩

/-- The parser is at the end of headers in which `stoi` reads that a body of `n` bytes follows. -/
structure BodyFollows (c : HttpConnection) (q value : Bytes) (n : Int) : Prop where
  state : c.parseState = .kHeader
  line : search kCRLF q = some 0
  header : c.header (ofString "Content-Length") = some value
  reads : stoi value = .ok n
  ne_zero : n ≠ 0

/-- The state in which the parser waits for a body. -/
def awaitBody (c : HttpConnection) : HttpConnection := { c with parseState := .kBody }

theorem BodyFollows.contentLength {value : Bytes} {k : Int} (h : BodyFollows c q value k) :
    contentLength c.header = some (.ok k) := by
  rw [HttpConnection.contentLength, h.header, Option.map_some, h.reads]

theorem BodyFollows.consume {value : Bytes} {k : Int} (h : BodyFollows c q value k) :
    consume fs c q = .ok (some (2, .kNoRequest, c.awaitBody)) := by
  have hline : c.parseRequestHeader (q.take 0) = .ok (.kNoRequest, c.awaitBody) := by
    rw [parseRequestHeader, if_pos (by simp), h.contentLength]
    exact if_neg h.ne_zero
  unfold HttpConnection.consume
  simp only [h.state, h.line]
  rw [hline]
  rfl

theorem BodyFollows.parse_eq {value : Bytes} {k : Int} (h : BodyFollows c q value k) :
    parse fs c q = parse fs c.awaitBody (q.drop 2) :=
  parse_continues (by simp [h.state]) h.consume

/-- What becomes of the body that the headers announce: `m` bytes are waited for. -/
theorem BodyFollows.parse_body {value : Bytes} {k : Int} {m : UInt64}
    (h : BodyFollows c q value k) (fs : FileSystem) (hc : Coherent c) (hm : stoul value = .ok m) :
    if (q.drop 2).length < m.toNat then
      parse fs c q = .ok (.kNoRequest, c.awaitBody, q.drop 2)
    else ∃ ret d, c.awaitBody.parseRequestBody fs ((q.drop 2).take m.toNat) = .ok (ret, d) ∧
      ret ≠ .kNoRequest ∧ parse fs c q = .ok (ret, d, (q.drop 2).drop m.toNat) := by
  have hlength : c.awaitBody.bodyLength = .ok m := by
    show bodyLength c.awaitBody = _
    rw [bodyLength, show c.awaitBody.header = c.header from rfl, h.header]
    dsimp only
    rw [hm]
  rw [h.parse_eq]
  exact HttpConnection.parse_body fs (q.drop 2) rfl (hc.body_nil (.inr h.state)) hlength
    (show (c.header _).isSome by rw [h.header]; rfl)

/-- An end of the headers without a length that can be read is not answered with `kBadRequest`. -/
theorem UnreadableEnd.not_refused (hc : Coherent c) (h : UnreadableEnd c q) :
    parse fs c q ≠ .ok (.kBadRequest, c', q.drop 2) := by
  obtain ⟨hstate, hcrlf, result, hlength, hneg⟩ := h
  have hfinish : c.parseState ≠ .kFinish := by simp [hstate]
  cases result with
  | error e =>
    have hraise : consume fs c q = .error (.exception e) := by
      unfold consume
      simp only [hstate, hcrlf]
      rw [parseRequestHeader, if_pos (by simp), hlength]
      rfl
    rw [parse_error hfinish hraise]
    simp
  | ok k =>
    have hk : k < 0 := hneg k rfl
    obtain ⟨value, hvalue, hreads⟩ := Option.map_eq_some_iff.mp hlength
    have hbody : BodyFollows c q value k := ⟨hstate, hcrlf, hvalue, hreads, by omega⟩
    obtain ⟨m, hm, hmk⟩ := stoul_of_stoi_neg hreads hk
    have hbound := stoi_natAbs_le hreads
    have hend := hbody.parse_body fs hc hm
    intro hrefused
    rw [hrefused] at hend
    split at hend
    · simp at hend
    · rename_i henough
      obtain ⟨ret, d, -, -, hparse⟩ := hend
      simp only [Except.ok.injEq, Prod.mk.injEq] at hparse
      have hlen := congrArg List.length hparse.2.2
      simp only [List.length_drop] at hlen henough
      omega

/-- A parse that visits no such end of the headers returns. -/
theorem parse_returns_of_readable (hc : Coherent c)
    (h : ∀ d r, Visits fs c q d r → ¬UnreadableEnd d r) : ∃ result, parse fs c q = .ok result := by
  induction c, q using parse_induction fs with
  | finish c q hfinish => exact ⟨_, parse_finish hfinish⟩
  | fails c q e hfinish hconsume =>
    obtain ⟨taken, htaken⟩ := hc.consume_returns fs (h c q (.here c q))
    rw [hconsume] at htaken
    cases htaken
  | waits c q hfinish hconsume => exact ⟨_, parse_waits hfinish hconsume⟩
  | returns c q n ret c' hfinish hret hconsume => exact ⟨_, parse_returns hfinish hconsume hret⟩
  | continues c q n c' hfinish hconsume ih =>
    rw [parse_continues hfinish hconsume]
    exact ih (consume_coherent c q n _ c' hc hfinish hconsume) fun d r hvisit =>
      h d r (.next hfinish hconsume hvisit)

theorem Visits.append (h : Visits fs c q c' q') (t : Bytes) :
    Visits fs c (q ++ t) c' (q' ++ t) := by
  induction h with
  | here c q => exact .here _ _
  | next hfinish hconsume hrest ih =>
    obtain ⟨hlen, happend⟩ := consume_append hconsume
    refine .next hfinish (happend t) ?_
    rw [List.drop_append_of_le_length hlen]
    exact ih

theorem BodyFollows.append {value : Bytes} {k : Int} (h : BodyFollows c q value k) (t : Bytes) :
    BodyFollows c (q ++ t) value k :=
  ⟨h.state, search_append h.line t, h.header, h.reads, h.ne_zero⟩

end HttpConnection

namespace Exchange

open HttpConnection

variable {fs : FileSystem} {sourceDir : Bytes} {e : Exchange}

/-- Every conversation keeps the parser coherent. -/
theorem reachable_coherent (h : Reachable (deliver fs) (start sourceDir) e) : Coherent e.http := by
  refine h.invariant (I := fun e => Coherent e.http) ?_
    (coherent_of_fresh rfl rfl)
  intro e chunk e' hI hd
  refine deliver_invariant consume_coherent ?_ (fun c _ => coherent_of_fresh rfl rfl) e chunk e' hI hd
  intro c path responseCode requestFileStat keepAlive hc
  exact ⟨hc.body_nil, hc.length⟩

/-- At every delivery of every conversation `parseRequest` returns, and answers a Content-Length that
it cannot read with `kBadRequest`, exactly when it comes to no such length. -/
theorem parse_answers_iff (h : Reachable (deliver fs) (start sourceDir) e) (chunk : Bytes) :
    (∃ ret d rest, parse fs e.http (e.input ++ chunk) = .ok (ret, d, rest) ∧
        ∀ c q, Visits fs e.http (e.input ++ chunk) c q → UnreadableEnd c q →
          ret = .kBadRequest ∧ rest = q.drop 2) ↔
      ∀ c q, Visits fs e.http (e.input ++ chunk) c q → ¬UnreadableEnd c q := by
  have hcoherent := reachable_coherent h
  constructor
  · rintro ⟨ret, d, rest, hparse, hanswer⟩ c q hvisit hend
    obtain ⟨rfl, rfl⟩ := hanswer c q hvisit hend
    rw [hvisit.parse_eq] at hparse
    exact hend.not_refused (hvisit.invariant consume_coherent hcoherent) hparse
  · intro hreadable
    obtain ⟨⟨ret, d, rest⟩, hparse⟩ := parse_returns_of_readable hcoherent hreadable
    exact ⟨ret, d, rest, hparse, fun c q hvisit hend => absurd hend (hreadable c q hvisit)⟩

theorem parse_answers_part : ∃ ret d rest,
    parse rootSite (start []).http ((start []).input ++ ofString "GET / HT") =
        .ok (ret, d, rest) ∧
      ∀ c q, Visits rootSite (start []).http ((start []).input ++ ofString "GET / HT") c q →
        UnreadableEnd c q → ret = .kBadRequest ∧ rest = q.drop 2 := by
  refine (parse_answers_iff (.refl (start [])) (ofString "GET / HT")).mpr ?_
  intro c q hvisit hend
  cases hvisit with
  | here c q => exact absurd hend.1 (by decide)
  | next hfinish hconsume hrest => cases hconsume

/-- A Content-Length that is no number makes `stoi` throw. -/
theorem parse_throws :
    parse rootSite (.new [])
      (ofString "GET / HTTP/1.1\r\nContent-Length: x\r\n\r\n") =
    .error (.exception .invalidArgument) := by
  have heval : (parse rootSite (.new [])
      (ofString "GET / HTTP/1.1\r\nContent-Length: x\r\n\r\n")).map (fun _ => ()) =
    .error (.exception .invalidArgument) := by decide +kernel
  exact map_eq_error.mp heval

/-- `n` bytes of body are waited for, and with as many bytes a request has ended. -/
def AwaitsExactly (fs : FileSystem) (e : Exchange) (chunk : Bytes) (c : HttpConnection) (q : Bytes)
    (n : Int) : Prop :=
  (∃ m, c.awaitBody.remain = .ok m ∧ (m.toNat : Int) = n) ∧
    ∀ t : Bytes, n ≤ ((q ++ t).drop 2).length →
      ∃ ret d rest, parse fs e.http (e.input ++ chunk ++ t) = .ok (ret, d, rest) ∧
        ret ≠ .kNoRequest

/-- Wherever a parse finds that a body follows, what `stoul` reads is what `stoi` has read, exactly
when the text has no minus sign. -/
theorem awaitsExactly_iff (h : Reachable (deliver fs) (start sourceDir) e) (chunk : Bytes)
    {c : HttpConnection} {q value : Bytes} {n : Int}
    (hvisit : Visits fs e.http (e.input ++ chunk) c q) (hbody : BodyFollows c q value n) :
    AwaitsExactly fs e chunk c q n ↔ hasMinus value = false := by
  have hcoherent := hvisit.invariant consume_coherent (reachable_coherent h)
  have hnil := hcoherent.body_nil (.inr hbody.state)
  have hsign := stoi_sign hbody.reads
  constructor
  · rintro ⟨⟨m, -, hmn⟩, -⟩
    cases hminus : hasMinus value with
    | false => rfl
    | true =>
      rw [hminus, if_pos rfl] at hsign
      have := hbody.ne_zero
      omega
  · intro hminus
    rw [hminus, if_neg (by simp)] at hsign
    obtain ⟨m, hm, hmn⟩ := stoul_of_stoi_nonneg hbody.reads hsign
    refine ⟨⟨m, ?_, hmn⟩, ?_⟩
    · rw [remain, awaitBody]
      dsimp only
      rw [hbody.header, Option.isSome_some, check_true, ok_bind, bodyLength]
      dsimp only
      rw [hbody.header]
      dsimp only
      rw [hm, hnil]
      exact congrArg Except.ok (UInt64.sub_zero m)
    · intro t ht
      have hend := (hbody.append t).parse_body fs hcoherent hm
      rw [if_neg (by omega)] at hend
      obtain ⟨ret, d, -, hret, hparse⟩ := hend
      exact ⟨ret, d, _, ((hvisit.append t).parse_eq).trans hparse, hret⟩

theorem awaitsExactly_two : ∃ e : Exchange,
    Reachable (deliver rootSite) (start []) e ∧
    AwaitsExactly rootSite e kCRLF e.http kCRLF 2 := by
  have heval : (run (deliver rootSite) (start [])
      [ofString "POST / HTTP/1.1\r\nContent-Length: 2\r\n"] >>= fun e =>
        .ok (e.http.parseState, e.input, e.http.header (ofString "Content-Length"))) =
      .ok (.kHeader, [], some (ofString "2")) := by decide +kernel
  obtain ⟨e, he, heval⟩ := bind_eq_ok.mp heval
  simp only [Except.ok.injEq, Prod.mk.injEq] at heval
  obtain ⟨hstate, hinput, hvalue⟩ := heval
  have hvisit : Visits rootSite e.http
      (e.input ++ kCRLF) e.http kCRLF := by
    rw [hinput]
    exact .here _ _
  have hbody : BodyFollows e.http kCRLF (ofString "2") 2 :=
    ⟨hstate, by decide, hvalue, by decide +kernel, by decide⟩
  exact ⟨e, ⟨_, he⟩, (awaitsExactly_iff ⟨_, he⟩ kCRLF hvisit hbody).mpr (by decide +kernel)⟩

/-- A negative Content-Length is waited for as a number near `2 ^ 64`. -/
theorem negative_length_awaited : ∃ (c : HttpConnection) (m : UInt64),
    parse rootSite (.new [])
      (ofString "POST / HTTP/1.1\r\nContent-Length: -5\r\n\r\nhello") =
        .ok (.kNoRequest, c, ofString "hello") ∧
    c.parseState = .kBody ∧ contentLength c.header = some (.ok (-5)) ∧ c.remain = .ok m ∧
    m.toNat = 18446744073709551611 := by
  have heval : (parse rootSite (.new [])
      (ofString "POST / HTTP/1.1\r\nContent-Length: -5\r\n\r\nhello") >>= fun r =>
        r.2.1.remain >>= fun m =>
          .ok (r.1, r.2.2, r.2.1.parseState, r.2.1.header (ofString "Content-Length"), m.toNat)) =
      .ok (.kNoRequest, ofString "hello", .kBody, some (ofString "-5"), 18446744073709551611) := by
    decide +kernel
  obtain ⟨⟨ret, c, rest⟩, hparse, heval⟩ := bind_eq_ok.mp heval
  obtain ⟨m, hremain, heval⟩ := bind_eq_ok.mp heval
  simp only [Except.ok.injEq, Prod.mk.injEq] at heval
  obtain ⟨rfl, rfl, hstate, hvalue, hm⟩ := heval
  have hlength : contentLength c.header = some (.ok (-5)) := by
    rw [contentLength, hvalue]
    decide +kernel
  exact ⟨c, m, hparse, hstate, hlength, hremain, hm⟩

end Exchange

end Mymuduo
