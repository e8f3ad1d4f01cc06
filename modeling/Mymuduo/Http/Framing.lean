import Mymuduo.Http.ContentLength
import Mymuduo.Http.Request

/-! Where requests begin and end.  The bytes that are taken from the input between two calls of
`resetState` are one request, unless a malformed header line ends it early while the connection is
to be kept. -/

namespace Mymuduo

open Lib

namespace HttpConnection

variable {fs : FileSystem} {c c' : HttpConnection} {q q' b : Bytes} {n : Nat} {ret : HttpCode}

/-- The bytes `taken` belong to the request that is being parsed. -/
inductive Framed : HttpConnection → Bytes → Prop
  | requestLine {c : HttpConnection} (hstate : c.parseState = .kRequestLine)
      (hheader : c.header = headerMap []) (hbody : c.body = []) : Framed c []
  | header {c : HttpConnection} (head : RequestHead) (hstate : c.parseState = .kHeader)
      (hheader : c.header = headerMap head.fields) (hbody : c.body = []) : Framed c head.bytes
  | body {c : HttpConnection} (head : RequestHead) (hstate : c.parseState = .kBody)
      (hheader : c.header = headerMap head.fields)
      (hbody : c.body = [] ∨ announcedLength c.header = some c.body.length) :
      Framed c (head.bytes ++ kCRLF ++ c.body)
  | finish {c : HttpConnection} (r : Request) (hstate : c.parseState = .kFinish) :
      Framed c r.bytes

/-- The next line is a request line or a header line, and is not well-formed. -/
def Malformed (c : HttpConnection) (q : Bytes) : Prop :=
  ∃ crlf, search kCRLF q = some crlf ∧
    ((c.parseState = .kRequestLine ∧ matchRequestLine (q.take crlf) = none) ∨
      (c.parseState = .kHeader ∧ q.take crlf ≠ [] ∧ matchHeader (q.take crlf) = none))

/-- The bytes of a whole request. -/
def WholeRequest (b : Bytes) : Prop := ∃ r : Request, r.bytes = b

/-- What an iteration makes of the bytes taken: they still belong to the request, which is whole if
the connection can be kept, or the line was malformed. -/
def Progress (c : HttpConnection) (q b : Bytes) (n : Nat) (ret : HttpCode) (c' : HttpConnection) :
    Prop :=
  (Framed c' (b ++ q.take n) ∧
    (ret = .kNoRequest ∨ c'.asksKeepAlive = false ∨ WholeRequest (b ++ q.take n))) ∨
  (ret = .kBadRequest ∧ c' = c ∧ Malformed c q)

theorem take_line {crlf : Nat} (h : search kCRLF q = some crlf) :
    q.take (crlf + 2) = q.take crlf ++ kCRLF := by
  have hsplit := search_split h
  have hlen := (search_spec h).1
  conv_lhs => rw [hsplit]
  have hline : (q.take crlf ++ kCRLF).length = crlf + 2 := by
    rw [List.length_append, List.length_take, Nat.min_eq_left (by omega)]
    rfl
  rw [← hline, List.take_left]

theorem asksKeepAlive_of_no_header (h : c.header = headerMap []) : c.asksKeepAlive = false := by
  rw [asksKeepAlive, h]
  rfl

theorem framed_requestLine {crlf : Nat} (hheader : c.header = headerMap []) (hbody : c.body = [])
    (hstate : c.parseState = .kRequestLine) (hcrlf : search kCRLF q = some crlf)
    (hparse : c.parseRequestLine fs (q.take crlf) = (ret, c')) :
    Progress c q [] (crlf + 2) ret c' := by
  rcases parseRequestLine_cases fs c (q.take crlf) with
    ⟨hmatch, hline⟩ | ⟨method, path, version, hmatch, ret', stat, hline, -, -⟩
  · cases hparse.symm.trans hline
    exact .inr ⟨rfl, rfl, crlf, hcrlf, .inl ⟨hstate, hmatch⟩⟩
  · cases hparse.symm.trans hline
    let head : RequestHead :=
      { line := q.take crlf
        fields := []
        isLine := isLine_take hcrlf
        line_matches := by rw [hmatch]; rfl
        fields_match := by simp }
    have hbytes : head.bytes = [] ++ q.take (crlf + 2) := by
      rw [RequestHead.bytes, ofLines_nil, List.append_nil, take_line hcrlf]
      rfl
    refine .inl ⟨?_, .inr (.inl (asksKeepAlive_of_no_header hheader))⟩
    rw [← hbytes]
    exact .header head rfl hheader hbody

theorem framed_header {crlf : Nat} (head : RequestHead) (hstate : c.parseState = .kHeader)
    (hheader : c.header = headerMap head.fields) (hbody : c.body = [])
    (hcrlf : search kCRLF q = some crlf)
    (hparse : c.parseRequestHeader (q.take crlf) = .ok (ret, c')) :
    Progress c q head.bytes (crlf + 2) ret c' := by
  have htake := take_line hcrlf
  rcases parseRequestHeader_cases hparse with
    ⟨hline, hlength, rfl, rfl⟩ | ⟨hline, -, rfl, rfl⟩ | ⟨hline, hmatch, rfl, rfl⟩ |
      ⟨hline, key, value, hmatch, rfl, rfl⟩
  · -- The empty line, and no body follows.
    have hannounced := announcedLength_of_no_body hlength
    let r : Request := { head with body := [], length := by rw [← hheader, hannounced]; rfl }
    have hbytes : r.bytes = head.bytes ++ q.take (crlf + 2) := by
      rw [Request.bytes, List.append_nil, htake, hline]
      rfl
    refine .inl ⟨?_, .inr (.inr ⟨r, hbytes⟩)⟩
    rw [← hbytes]
    exact .finish r rfl
  · have hbytes : head.bytes ++ q.take (crlf + 2) = head.bytes ++ kCRLF ++ c.body := by
      rw [htake, hline, hbody, List.append_nil]
      rfl
    refine .inl ⟨?_, .inl rfl⟩
    rw [hbytes]
    exact .body head rfl hheader (.inl hbody)
  · exact .inr ⟨rfl, rfl, crlf, hcrlf, .inr ⟨hstate, hline, hmatch⟩⟩
  · have hisSome : (matchHeader (q.take crlf)).isSome := by
      rw [hmatch]
      rfl
    refine .inl ⟨?_, .inl rfl⟩
    rw [htake, ← head.bytes_concat (q.take crlf) (isLine_take hcrlf) hisSome]
    refine .header _ hstate ?_ hbody
    show Function.update c.header key (some value) = headerMap (head.fields ++ [q.take crlf])
    rw [headerMap_concat, addField, hmatch, hheader]

theorem announcedLength_of_bodyLength {m : UInt64} (h : c.bodyLength = .ok m) :
    announcedLength c.header = some m.toNat := by
  unfold bodyLength at h
  cases hvalue : c.header (ofString "Content-Length") with
  | none =>
    rw [hvalue] at h
    cases h
  | some value =>
    rw [hvalue] at h
    dsimp only at h
    cases hm : stoul value with
    | error e =>
      rw [hm] at h
      cases h
    | ok k =>
      rw [hm] at h
      cases h
      exact announcedLength_of_stoul hvalue hm

theorem framed_body {remain : UInt64} (head : RequestHead) (hstate : c.parseState = .kBody)
    (hheader : c.header = headerMap head.fields)
    (hbody : c.body = [] ∨ announcedLength c.header = some c.body.length)
    (hremain : c.remain = .ok remain) (henough : remain.toNat ≤ q.length)
    (hparse : c.parseRequestBody fs (q.take remain.toNat) = .ok (ret, c')) :
    Progress c q (head.bytes ++ kCRLF ++ c.body) remain.toNat ret c' := by
  have hframe := parseRequestBody_frame hparse
  obtain ⟨u, -, hlength⟩ := bind_eq_ok.mp hremain
  obtain ⟨m, hm, hlength⟩ := bind_eq_ok.mp hlength
  cases hlength
  have hannounced := announcedLength_of_bodyLength hm
  have hsize : (c.body ++ q.take (m - UInt64.ofNat c.body.length).toNat).length = m.toNat := by
    rw [List.length_append, List.length_take, Nat.min_eq_left henough]
    rcases hbody with hnil | hfull
    · rw [hnil]
      simp
    · have hsame : c.body.length = m.toNat := Option.some.inj (hfull.symm.trans hannounced)
      rw [hsame, UInt64.ofNat_toNat, UInt64.sub_self]
      rfl
  have hbody' : c'.body = c.body ++ q.take (m - UInt64.ofNat c.body.length).toNat := by rw [hframe]
  have hheader' : c'.header = c.header := by rw [hframe]
  let r : Request :=
    { head with
      body := c'.body
      length := by rw [← hheader, hannounced, hbody', hsize] }
  have hbytes : r.bytes =
      head.bytes ++ kCRLF ++ c.body ++ q.take (m - UInt64.ofNat c.body.length).toNat := by
    rw [Request.bytes, show r.body = c'.body from rfl, hbody', ← List.append_assoc]
  refine .inl ⟨?_, .inr (.inr ⟨r, hbytes⟩)⟩
  rw [← hbytes]
  by_cases hget : ret = .kGetRequest
  · refine .finish r ?_
    rw [hframe, hget]
    rfl
  · refine .body head ?_ (hheader'.trans hheader) (.inr ?_)
    · rw [hframe, if_neg hget]
      exact hstate
    · rw [hheader', hannounced, hbody', hsize]

theorem Framed.consume (h : Framed c b) (hfinish : c.parseState ≠ .kFinish)
    (hconsume : consume fs c q = .ok (some (n, ret, c'))) : Progress c q b n ret c' := by
  cases consume_cases hfinish hconsume with
  | requestLine hstate hcrlf hparse =>
    cases h with
    | requestLine hstate' hheader hbody =>
      exact framed_requestLine hheader hbody hstate hcrlf hparse
    | header _ hstate' | body _ hstate' | finish _ hstate' =>
      rw [hstate] at hstate'
      cases hstate'
  | header hstate hcrlf hparse =>
    cases h with
    | header head hstate' hheader hbody =>
      exact framed_header head hstate hheader hbody hcrlf hparse
    | requestLine hstate' | body _ hstate' | finish _ hstate' =>
      rw [hstate] at hstate'
      cases hstate'
  | body hstate hremain henough hparse =>
    cases h with
    | body head hstate' hheader hbody =>
      exact framed_body head hstate hheader hbody hremain henough hparse
    | requestLine hstate' | header _ hstate' | finish _ hstate' =>
      rw [hstate] at hstate'
      cases hstate'

theorem Framed.parse (h : Framed c b) (hparse : parse fs c q = .ok (ret, c', q')) :
    (Framed c' (b ++ q.take (q.length - q'.length)) ∧ (ret = .kNoRequest ∨
      c'.asksKeepAlive = false ∨ WholeRequest (b ++ q.take (q.length - q'.length)))) ∨
    (ret = .kBadRequest ∧ ∃ s, Visits fs c q c' s ∧ Malformed c' s) := by
  induction c, q using parse_induction fs generalizing b with
  | finish c q hfinish =>
    rw [parse_finish hfinish] at hparse
    cases hparse
    rw [Nat.sub_self, List.take_zero, List.append_nil]
    refine .inl ⟨h, .inr (.inr ?_)⟩
    cases h with
    | finish r hstate => exact ⟨r, rfl⟩
    | requestLine hstate | header _ hstate | body _ hstate =>
      rw [hfinish] at hstate
      cases hstate
  | fails c q e hfinish hconsume =>
    rw [parse_error hfinish hconsume] at hparse
    cases hparse
  | waits c q hfinish hconsume =>
    rw [parse_waits hfinish hconsume] at hparse
    cases hparse
    rw [Nat.sub_self, List.take_zero, List.append_nil]
    exact .inl ⟨h, .inl rfl⟩
  | returns c q n ret c' hfinish hret hconsume =>
    rw [parse_returns hfinish hconsume hret] at hparse
    cases hparse
    have hlen : n ≤ q.length := (consume_append hconsume).1
    rw [List.length_drop, Nat.sub_sub_self hlen]
    rcases h.consume hfinish hconsume with hframed | ⟨hbad, hsame, hmalformed⟩
    · exact .inl hframed
    · exact .inr ⟨hbad, q, by rw [hsame]; exact .here c q, by rwa [hsame]⟩
  | continues c q n d hfinish hconsume ih =>
    have hcontinue := hparse
    rw [parse_continues hfinish hconsume] at hcontinue
    have hlen : n ≤ q.length := (consume_append hconsume).1
    have hrest := (parse_suffix hcontinue).length_le
    rw [List.length_drop] at hrest
    rcases h.consume hfinish hconsume with ⟨hframed, -⟩ | ⟨hbad, -⟩
    · have hbytes : b ++ q.take n ++ (q.drop n).take ((q.drop n).length - q'.length) =
          b ++ q.take (q.length - q'.length) := by
        rw [List.append_assoc, List.length_drop, ← List.take_add]
        congr 2
        omega
      have hend := ih hframed hcontinue
      rw [hbytes] at hend
      rcases hend with hend | ⟨hret, s, hvisit, hmalformed⟩
      · exact .inl hend
      · exact .inr ⟨hret, s, .next hfinish hconsume hvisit, hmalformed⟩
    · cases hbad

/-- The bytes taken depend on the state, the header and the body only. -/
theorem Framed.congr (h : Framed c b) (hstate : c'.parseState = c.parseState)
    (hheader : c'.header = c.header) (hbody : c'.body = c.body) : Framed c' b := by
  cases h with
  | requestLine hs hh hb =>
    exact .requestLine (hstate.trans hs) (hheader.trans hh) (hbody.trans hb)
  | header head hs hh hb =>
    exact .header head (hstate.trans hs) (hheader.trans hh) (hbody.trans hb)
  | body head hs hh hb =>
    rw [← hbody]
    refine .body head (hstate.trans hs) (hheader.trans hh) ?_
    rw [hheader, hbody]
    exact hb
  | finish r hs => exact .finish r (hstate.trans hs)

theorem Malformed.parse (h : Malformed c q) (fs : FileSystem) :
    ∃ rest, parse fs c q = .ok (.kBadRequest, c, rest) := by
  obtain ⟨crlf, hcrlf, ⟨hstate, hmatch⟩ | ⟨hstate, hline, hmatch⟩⟩ := h
  · refine ⟨_, parse_returns (n := crlf + 2) (by simp [hstate]) ?_ (by simp)⟩
    unfold HttpConnection.consume
    simp only [hstate, hcrlf]
    rw [parseRequestLine, hmatch]
  · refine ⟨_, parse_returns (n := crlf + 2) (by simp [hstate]) ?_ (by simp)⟩
    unfold HttpConnection.consume
    simp only [hstate, hcrlf]
    rw [parseRequestHeader, if_neg fun hlen => hline (List.eq_nil_of_length_eq_zero hlen), hmatch]
    rfl

/-- A parse that is not answered with `kBadRequest` comes to no malformed line. -/
theorem Visits.not_malformed {d : HttpConnection} {r : Bytes} (h : Visits fs c q c' q')
    (hparse : HttpConnection.parse fs c q = .ok (ret, d, r)) (hret : ret ≠ .kBadRequest) : ¬Malformed c' q' := by
  intro hmalformed
  obtain ⟨rest, hbad⟩ := hmalformed.parse fs
  rw [h.parse_eq, hbad] at hparse
  cases hparse
  exact hret rfl

end HttpConnection

namespace Exchange

open HttpConnection

variable {fs : FileSystem} {sourceDir : Bytes} {e e' : Exchange} {chunk : Bytes}

/-- A malformed line has been answered, and the connection has been asked to close. -/
def AfterMalformed (c : HttpConnection) : Prop :=
  c.responseCode = 400 ∧ (c.parseState = .kRequestLine ∨ c.parseState = .kHeader)

/-- The delivery does not come after a malformed line, and holds none that ends a request while the
connection is to be kept. -/
def KeepsFraming (fs : FileSystem) (e : Exchange) (chunk : Bytes) : Prop :=
  ¬AfterMalformed e.http ∧
    ∀ c q, Visits fs e.http (e.input ++ chunk) c q → Malformed c q → c.asksKeepAlive = false

/-- What `resetState` is called after is one whole request. -/
def ResetsAfterRequest (fs : FileSystem) (e : Exchange) (chunk : Bytes) : Prop :=
  ∀ e' r, deliver fs e chunk = .ok e' → e'.replies = e.replies ++ [r] → r.keepAlive = true →
    WholeRequest (e.takenSince chunk e'.input)

theorem framed_deliver (h : Framed e.http e.consumed) (hkeeps : KeepsFraming fs e chunk)
    (hd : deliver fs e chunk = .ok e') :
    (AfterMalformed e'.http ∨ Framed e'.http e'.consumed) ∧
      ∀ r, e'.replies = e.replies ++ [r] → r.keepAlive = true →
        WholeRequest (e.takenSince chunk e'.input) := by
  obtain ⟨ret, c, rest, hparse, rfl, hend⟩ := deliver_cases hd
  have hframed := h.parse hparse
  rcases hend with ⟨rfl, hhttp, hreplies, hconsumed⟩ |
      ⟨hret, d, bytes, hmake, hreplies, ⟨hasks, hhttp, hconsumed⟩ | ⟨hasks, hhttp, hconsumed⟩⟩
  · rw [hhttp, hconsumed]
    refine ⟨.inr ?_, ?_⟩
    · rcases hframed with ⟨hframed, -⟩ | ⟨hbad, -⟩
      · exact hframed
      · cases hbad
    · intro r hr
      rw [hreplies] at hr
      simp at hr
  · rw [hhttp, hconsumed, makeResponse_frame hmake]
    refine ⟨?_, ?_⟩
    · rcases hframed with ⟨hframed, -⟩ | ⟨rfl, s, -, crlf, -, hline⟩
      · exact .inr (hframed.congr rfl rfl rfl)
      · exact .inl ⟨rfl, hline.imp And.left And.left⟩
    · intro r hr hkeep
      rw [hreplies, List.append_cancel_left_eq] at hr
      cases hr
      rw [hasks] at hkeep
      cases hkeep
  · rw [hhttp, hconsumed]
    refine ⟨.inr (.requestLine rfl rfl rfl), ?_⟩
    intro r hr hkeep
    rcases hframed with ⟨-, hno | hclose | hwhole⟩ | ⟨-, s, hvisit, hmalformed⟩
    · exact absurd hno hret
    · rw [hasks] at hclose
      cases hclose
    · exact hwhole
    · have hclose := hkeeps.2 c s hvisit hmalformed
      rw [hasks] at hclose
      cases hclose

/-- In every conversation whose deliveries keep the framing, each `resetState` comes after one whole
request. -/
theorem resets_after_request {chunks : List Bytes}
    (h : Along (deliver fs) (KeepsFraming fs) (start sourceDir) chunks) :
    Along (deliver fs) (ResetsAfterRequest fs) (start sourceDir) chunks := by
  refine h.imp (I := fun e => AfterMalformed e.http ∨ Framed e.http e.consumed)
    ?_ ?_
    (.inr (.requestLine rfl rfl rfl))
  · intro e chunk e' hI hkeeps hd
    exact (framed_deliver (hI.resolve_left hkeeps.1) hkeeps hd).1
  · intro e chunk hI hkeeps e' r hd
    exact (framed_deliver (hI.resolve_left hkeeps.1) hkeeps hd).2 r

theorem resets_after_request_get :
    Along (deliver rootSite)
      (ResetsAfterRequest rootSite) (start [])
      [ofString "GET / HTTP/1.1\r\nConnection: keep-alive\r\n\r\n"] := by
  refine resets_after_request ⟨⟨fun h => absurd h.1 (by decide), ?_⟩, fun t ht => trivial⟩
  intro c q hvisit hmalformed
  have heval : (parse rootSite (start []).http
      ((start []).input ++ ofString "GET / HTTP/1.1\r\nConnection: keep-alive\r\n\r\n") >>=
        fun r => .ok r.1) = .ok .kGetRequest := by decide +kernel
  obtain ⟨⟨ret, d, r⟩, hparse, heval⟩ := bind_eq_ok.mp heval
  cases heval
  exact absurd hmalformed (hvisit.not_malformed hparse (by simp))

/-- A malformed header line after `Connection: keep-alive`: the connection is kept, although only
the first lines of the request have been taken. -/
theorem reset_inside_request : ∃ (e : Exchange) (r : Reply),
    deliver rootSite
      (start []) (ofString "GET / HTTP/1.1\r\nConnection: keep-alive\r\nbad\r\n\r\n") = .ok e ∧
    e.replies = (start []).replies ++ [r] ∧ r.keepAlive = true ∧ e.input = kCRLF ∧
    ¬WholeRequest ((start []).takenSince
      (ofString "GET / HTTP/1.1\r\nConnection: keep-alive\r\nbad\r\n\r\n") e.input) := by
  have heval : (deliver rootSite
      (start []) (ofString "GET / HTTP/1.1\r\nConnection: keep-alive\r\nbad\r\n\r\n") >>= fun e =>
        .ok (e.replies.map Reply.keepAlive, e.input)) = .ok ([true], kCRLF) := by decide +kernel
  obtain ⟨e, he, heval⟩ := bind_eq_ok.mp heval
  simp only [Except.ok.injEq, Prod.mk.injEq] at heval
  obtain ⟨hreplies, hinput⟩ := heval
  obtain ⟨r, hr, hkeep⟩ := List.map_eq_singleton_iff.mp hreplies
  refine ⟨e, r, he, hr, hkeep, hinput, ?_⟩
  rintro ⟨request, hrequest⟩
  have hempty := request.empty_line
  rw [hrequest, hinput] at hempty
  refine absurd hempty (search_eq_none_iff.mp ?_)
  decide +kernel

end Exchange

end Mymuduo
