import Mymuduo.Http.HttpConnection

/-! The loop of `parseRequest` on a queue of bytes.  `consume` says what one iteration takes from the
front of the queue and what it makes of it; what it does does not depend on the bytes behind those.
From this follows how a parse goes on when more bytes arrive. -/

namespace Mymuduo.HttpConnection

open Lib

/-- What an iteration takes from the front of the bytes, and what the state function returns for it;
`none` if the line or the body is not there yet. -/
def consume (fs : FileSystem) (c : HttpConnection) (q : Bytes) :
    Except Fault (Option (Nat × HttpCode × HttpConnection)) :=
  match c.parseState with
  | .kBody => do
    let remain ← c.remain
    if q.length < remain.toNat then return none
    else
      let r ← c.parseRequestBody fs (q.take remain.toNat)
      return some (remain.toNat, r)
  | .kRequestLine =>
    match search kCRLF q with
    | none => .ok none
    | some crlf => .ok (some (crlf + 2, c.parseRequestLine fs (q.take crlf)))
  | .kHeader =>
    match search kCRLF q with
    | none => .ok none
    | some crlf => do
      let r ← c.parseRequestHeader (q.take crlf)
      return some (crlf + 2, r)
  | .kFinish => .ok (some (0, .kNoRequest, c))

variable {fs : FileSystem} {c c' : HttpConnection} {q q' t : Bytes} {n : Nat} {ret : HttpCode}
  {e : Fault}

/-! ### The state functions -/

theorem parseRequestLine_cases (fs : FileSystem) (c : HttpConnection) (line : Bytes) :
    (matchRequestLine line = none ∧ c.parseRequestLine fs line = (.kBadRequest, c)) ∨
    ∃ method path version, matchRequestLine line = some (method, path, version) ∧
      ∃ ret stat, c.parseRequestLine fs line = (ret, { c with
        method := method
        path := resourcePath path
        version := version
        parseState := .kHeader
        requestFileStat := stat }) ∧ ret ≠ .kGetRequest ∧ ret ≠ .kBadRequest := by
  unfold parseRequestLine
  cases hmatch : matchRequestLine line with
  | none => exact .inl ⟨rfl, rfl⟩
  | some groups =>
    obtain ⟨method, path, version⟩ := groups
    refine .inr ⟨method, path, version, rfl, ?_⟩
    dsimp only
    split
    · exact ⟨.kNoResource, c.requestFileStat, rfl, by simp, by simp⟩
    · rename_i f hfile
      split
      · exact ⟨.kNoResource, f.stat, rfl, by simp, by simp⟩
      · split
        · exact ⟨.kForbidden, f.stat, rfl, by simp, by simp⟩
        · exact ⟨.kNoRequest, f.stat, rfl, by simp, by simp⟩

theorem parseRequestHeader_nil (c : HttpConnection) : c.parseRequestHeader [] =
    match contentLength c.header with
    | none => .ok (.kGetRequest, { c with parseState := .kFinish })
    | some (.error e) => .error (.exception e)
    | some (.ok n) =>
      if n = 0 then .ok (.kGetRequest, { c with parseState := .kFinish })
      else .ok (.kNoRequest, { c with parseState := .kBody }) := rfl

theorem parseRequestHeader_cases {line : Bytes} (h : c.parseRequestHeader line = .ok (ret, c')) :
    (line = [] ∧ (contentLength c.header = none ∨ contentLength c.header = some (.ok 0)) ∧
      ret = .kGetRequest ∧ c' = { c with parseState := .kFinish }) ∨
    (line = [] ∧ (∃ n, contentLength c.header = some (.ok n) ∧ n ≠ 0) ∧ ret = .kNoRequest ∧
      c' = { c with parseState := .kBody }) ∨
    (line ≠ [] ∧ matchHeader line = none ∧ ret = .kBadRequest ∧ c' = c) ∨
    (line ≠ [] ∧ ∃ key value, matchHeader line = some (key, value) ∧ ret = .kNoRequest ∧
      c' = { c with header := Function.update c.header key (some value) }) := by
  unfold parseRequestHeader at h
  split at h
  · rename_i hline
    have hnil : line = [] := List.eq_nil_of_length_eq_zero hline
    split at h
    · rename_i hlength
      cases h
      exact .inl ⟨hnil, .inl hlength, rfl, rfl⟩
    · cases h
    · rename_i n hlength
      split at h
      · rename_i hzero
        subst hzero
        cases h
        exact .inl ⟨hnil, .inr hlength, rfl, rfl⟩
      · rename_i hn
        cases h
        exact .inr (.inl ⟨hnil, ⟨n, hlength, hn⟩, rfl, rfl⟩)
  · rename_i hline
    have hne : line ≠ [] := fun hnil => hline (by rw [hnil]; rfl)
    split at h
    · rename_i hmatch
      cases h
      exact .inr (.inr (.inl ⟨hne, hmatch, rfl, rfl⟩))
    · rename_i key value hmatch
      cases h
      exact .inr (.inr (.inr ⟨hne, key, value, hmatch, rfl, rfl⟩))

theorem parseFields_ret (post : StringMap) (key value : Bytes) (inValue : Bool) (body : Bytes) :
    (parseFields post key value inValue body).1 = .kNoRequest ∨
      (parseFields post key value inValue body).1 = .kBadRequest := by
  fun_induction parseFields post key value inValue body <;> simp_all

theorem parsePost_ret (c : HttpConnection) :
    c.parsePost.1 = .kNoRequest ∨ c.parsePost.1 = .kBadRequest := by
  unfold parsePost
  split
  · exact .inl rfl
  · split
    · exact .inr rfl
    · split
      · exact parseFields_ret ..
      · exact .inl rfl

theorem userVerify_ret (fs : FileSystem) (c : HttpConnection) :
    (c.userVerify fs).1 = .kNoRequest ∨ (c.userVerify fs).1 = .kNoResource := by
  unfold userVerify
  dsimp only
  split
  · exact .inr rfl
  · exact .inl rfl

theorem parsePost_frame (c : HttpConnection) :
    c.parsePost.2 = { c with post := c.parsePost.2.post } := by
  unfold parsePost
  split
  · rfl
  · split
    · rfl
    · split <;> rfl

theorem userPage_frame (c : HttpConnection) :
    c.userPage = { c with path := c.userPage.path, post := c.userPage.post } := by
  unfold userPage
  split
  · rfl
  · split <;> rfl

theorem userPage_path (c : HttpConnection) :
    c.userPage.path = ofString "/welcome.html" ∨ c.userPage.path = ofString "/error.html" := by
  unfold userPage
  split
  · exact .inl rfl
  · split
    · dsimp only
      split
      · exact .inl rfl
      · exact .inr rfl
    · exact .inr rfl

theorem userVerify_path (fs : FileSystem) (c : HttpConnection) :
    (c.userVerify fs).2.path = c.userPage.path := by
  unfold userVerify
  dsimp only
  split <;> rfl

theorem userVerify_frame (fs : FileSystem) (c : HttpConnection) :
    (c.userVerify fs).2 = { c with
      path := (c.userVerify fs).2.path
      post := (c.userVerify fs).2.post
      requestFileStat := (c.userVerify fs).2.requestFileStat } := by
  have hframe := c.userPage_frame
  unfold userVerify
  dsimp only
  split
  · dsimp only
    conv_lhs => rw [hframe]
    rw [hframe]
  · dsimp only
    rw [hframe]

/-- How the judgement of a body ends: `d` is the state with the body, and `m` its announced length. -/
inductive BodyEnd (fs : FileSystem) (d : HttpConnection) (m : UInt64) :
    HttpCode → HttpConnection → Prop
  | short (hlength : d.body.length < m.toNat) : BodyEnd fs d m .kNoRequest d
  | long (hlength : m.toNat < d.body.length) : BodyEnd fs d m .kBadRequest d
  | plain (hlength : d.body.length = m.toNat) (hmethod : d.method ≠ ofString "POST") :
      BodyEnd fs d m .kGetRequest { d with parseState := .kFinish }
  | refused (hlength : d.body.length = m.toNat) (hpost : d.parsePost.1 = .kBadRequest) :
      BodyEnd fs d m .kBadRequest d.parsePost.2
  | missing (hlength : d.body.length = m.toNat)
      (hverify : (d.parsePost.2.userVerify fs).1 = .kNoResource) :
      BodyEnd fs d m .kNoResource (d.parsePost.2.userVerify fs).2
  | verified (hlength : d.body.length = m.toNat)
      (hverify : (d.parsePost.2.userVerify fs).1 = .kNoRequest) :
      BodyEnd fs d m .kGetRequest
        { (d.parsePost.2.userVerify fs).2 with parseState := .kFinish }

theorem parseRequestBody_cases {line : Bytes} (h : c.parseRequestBody fs line = .ok (ret, c')) :
    ∃ m, c.bodyLength = .ok m ∧ BodyEnd fs { c with body := c.body ++ line } m ret c' := by
  obtain ⟨m, hm, h⟩ := bind_eq_ok.mp h
  refine ⟨m, hm, ?_⟩
  generalize { c with body := c.body ++ line } = d at h ⊢
  split at h
  · rename_i hlength
    cases h
    exact .short hlength
  · rename_i hshort
    split at h
    · rename_i hlength
      cases h
      exact .long hlength
    · rename_i hlong
      have hlength : d.body.length = m.toNat :=
        Nat.le_antisymm (Nat.le_of_not_lt hlong) (Nat.le_of_not_lt hshort)
      split at h
      · dsimp only at h
        split at h
        · rename_i hpost
          obtain ⟨rfl, rfl⟩ := Prod.mk.inj (Except.ok.inj h)
          rw [d.parsePost_ret.resolve_left hpost]
          exact .refused hlength (d.parsePost_ret.resolve_left hpost)
        · split at h
          · rename_i hverify
            obtain ⟨rfl, rfl⟩ := Prod.mk.inj (Except.ok.inj h)
            rw [(userVerify_ret fs _).resolve_left hverify]
            exact .missing hlength ((userVerify_ret fs _).resolve_left hverify)
          · rename_i hverify
            cases h
            exact .verified hlength (not_not.mp hverify)
      · rename_i hmethod
        cases h
        exact .plain hlength hmethod

theorem verified_frame (fs : FileSystem) (d : HttpConnection) :
    (d.parsePost.2.userVerify fs).2 = { d with
      path := (d.parsePost.2.userVerify fs).2.path
      post := (d.parsePost.2.userVerify fs).2.post
      requestFileStat := (d.parsePost.2.userVerify fs).2.requestFileStat } := by
  conv_lhs => rw [userVerify_frame fs d.parsePost.2]
  rw [parsePost_frame]

/-- What `parseRequestBody` changes.  Only when a request has ended does the state change. -/
theorem parseRequestBody_frame {line : Bytes} (h : c.parseRequestBody fs line = .ok (ret, c')) :
    c' = { c with
      parseState := if ret = .kGetRequest then .kFinish else c.parseState
      body := c.body ++ line
      path := c'.path
      post := c'.post
      requestFileStat := c'.requestFileStat } := by
  obtain ⟨m, -, hend⟩ := parseRequestBody_cases h
  cases hend with
  | short => rfl
  | long => rfl
  | plain => rfl
  | refused =>
    rw [parsePost_frame]
    rfl
  | missing => exact verified_frame fs _
  | verified => exact congrArg (fun d => { d with parseState := .kFinish }) (verified_frame fs _)

theorem parseRequestBody_returns (fs : FileSystem) (line : Bytes) {m : UInt64}
    (h : c.bodyLength = .ok m) : ∃ r, c.parseRequestBody fs line = .ok r := by
  have h' : bodyLength { c with body := c.body ++ line } = .ok m := h
  unfold parseRequestBody
  dsimp only
  rw [h', ok_bind]
  split
  · exact ⟨_, rfl⟩
  · split
    · exact ⟨_, rfl⟩
    · split
      · split
        · exact ⟨_, rfl⟩
        · split <;> exact ⟨_, rfl⟩
      · exact ⟨_, rfl⟩

/-- A body of the announced length is a form, or ends the request. -/
theorem parseRequestBody_complete {line : Bytes} {m : UInt64} (hbody : c.body = [])
    (hm : c.bodyLength = .ok m) (hline : line.length = m.toNat) :
    c.parseRequestBody fs line =
      if c.method = ofString "POST" then
        let post := parsePost { c with body := line }
        if post.1 ≠ .kNoRequest then .ok post
        else
          let verify := post.2.userVerify fs
          if verify.1 ≠ .kNoRequest then .ok verify
          else .ok (.kGetRequest, { verify.2 with parseState := .kFinish })
      else
        .ok (.kGetRequest, { c with body := line, parseState := .kFinish }) := by
  have hlength : bodyLength { c with body := line } = .ok m := hm
  unfold parseRequestBody
  rw [hbody, List.nil_append]
  dsimp only
  rw [hlength, ok_bind, if_neg (by omega), if_neg (by omega)]
  rfl

/-! ### One iteration -/

/-- Bytes that are there are the same when more bytes follow. -/
theorem bytes_append {k : Nat} (h : ¬q.length < k) (t : Bytes) :
    ¬(q ++ t).length < k ∧ (q ++ t).take k = q.take k := by
  have hle : k ≤ q.length := Nat.le_of_not_lt h
  refine ⟨?_, List.take_append_of_le_length hle⟩
  rw [List.length_append]
  omega

/-- A line that is there is the same when more bytes follow. -/
theorem line_append {crlf : Nat} (h : search kCRLF q = some crlf) (t : Bytes) :
    search kCRLF (q ++ t) = some crlf ∧ (q ++ t).take crlf = q.take crlf := by
  have hlen : crlf + 2 ≤ q.length := (search_spec h).1
  exact ⟨search_append h t, List.take_append_of_le_length (by omega)⟩

/-- An iteration takes bytes that are there, and does the same when more bytes follow. -/
theorem consume_append {x : Nat × HttpCode × HttpConnection} (h : consume fs c q = .ok (some x)) :
    x.1 ≤ q.length ∧ ∀ t, consume fs c (q ++ t) = .ok (some x) := by
  unfold consume at h ⊢
  cases hs : c.parseState with
  | kBody =>
    simp only [hs] at h ⊢
    obtain ⟨remain, hremain, h⟩ := bind_eq_ok.mp h
    split at h
    · cases h
    · rename_i henough
      obtain ⟨r, hr, h⟩ := bind_eq_ok.mp h
      cases h
      refine ⟨Nat.le_of_not_lt henough, ?_⟩
      intro t
      obtain ⟨hmore, hline⟩ := bytes_append henough t
      rw [hremain, ok_bind, if_neg hmore, hline, hr]
      rfl
  | kRequestLine =>
    simp only [hs] at h ⊢
    cases hcrlf : search kCRLF q with
    | none =>
      rw [hcrlf] at h
      cases h
    | some crlf =>
      have hlen : crlf + 2 ≤ q.length := (search_spec hcrlf).1
      rw [hcrlf] at h
      cases h
      refine ⟨hlen, ?_⟩
      intro t
      obtain ⟨hcrlf', hline⟩ := line_append hcrlf t
      rw [hcrlf']
      dsimp only
      rw [hline]
  | kHeader =>
    simp only [hs] at h ⊢
    cases hcrlf : search kCRLF q with
    | none =>
      rw [hcrlf] at h
      cases h
    | some crlf =>
      have hlen : crlf + 2 ≤ q.length := (search_spec hcrlf).1
      rw [hcrlf] at h
      obtain ⟨r, hr, h⟩ := bind_eq_ok.mp h
      cases h
      refine ⟨hlen, ?_⟩
      intro t
      obtain ⟨hcrlf', hline⟩ := line_append hcrlf t
      rw [hcrlf']
      dsimp only
      rw [hline, hr]
      rfl
  | kFinish =>
    simp only [hs] at h ⊢
    cases h
    exact ⟨Nat.zero_le _, fun _ => rfl⟩

theorem consume_append_error (h : consume fs c q = .error e) (t : Bytes) :
    consume fs c (q ++ t) = .error e := by
  unfold consume at h ⊢
  cases hs : c.parseState with
  | kBody =>
    simp only [hs] at h ⊢
    cases hremain : c.remain with
    | error e' =>
      rw [hremain] at h
      exact h
    | ok remain =>
      rw [hremain, ok_bind] at h
      split at h
      · cases h
      · rename_i henough
        obtain ⟨hmore, hline⟩ := bytes_append henough t
        rw [ok_bind, if_neg hmore, hline]
        exact h
  | kRequestLine =>
    simp only [hs] at h
    split at h <;> cases h
  | kHeader =>
    simp only [hs] at h ⊢
    cases hcrlf : search kCRLF q with
    | none =>
      rw [hcrlf] at h
      cases h
    | some crlf =>
      rw [hcrlf] at h
      obtain ⟨hcrlf', hline⟩ := line_append hcrlf t
      rw [hcrlf']
      dsimp only at h ⊢
      rw [hline]
      exact h
  | kFinish =>
    simp only [hs] at h
    cases h

/-- The body is taken as a whole, so that what is there is never too little. -/
theorem parseRequestBody_ne_kNoRequest {remain : UInt64} {line : Bytes} {r : HttpCode × HttpConnection}
    (hremain : c.remain = .ok remain) (hline : line.length = remain.toNat)
    (h : c.parseRequestBody fs line = .ok r) : r.1 ≠ .kNoRequest := by
  obtain ⟨ret, d⟩ := r
  obtain ⟨u, -, hremain⟩ := bind_eq_ok.mp hremain
  obtain ⟨m, hm, hremain⟩ := bind_eq_ok.mp hremain
  obtain ⟨m', hm', hend⟩ := parseRequestBody_cases h
  cases hm.symm.trans hm'
  cases hremain
  have henough : ¬(c.body ++ line).length < m.toNat := by
    rw [List.length_append, hline, UInt64.toNat_sub, UInt64.toNat_ofNat']
    have := m.toNat_lt
    omega
  cases hend with
  | short hlength => exact absurd hlength henough
  | long => simp
  | plain => simp
  | refused => simp
  | missing => simp
  | verified => simp

/-- What an iteration has taken: a request line, a header line or a body. -/
inductive Consumed (fs : FileSystem) (c : HttpConnection) (q : Bytes) :
    Nat → HttpCode → HttpConnection → Prop
  | requestLine {crlf : Nat} {ret : HttpCode} {c' : HttpConnection}
      (hstate : c.parseState = .kRequestLine) (hcrlf : search kCRLF q = some crlf)
      (hparse : c.parseRequestLine fs (q.take crlf) = (ret, c')) : Consumed fs c q (crlf + 2) ret c'
  | header {crlf : Nat} {ret : HttpCode} {c' : HttpConnection} (hstate : c.parseState = .kHeader)
      (hcrlf : search kCRLF q = some crlf)
      (hparse : c.parseRequestHeader (q.take crlf) = .ok (ret, c')) :
      Consumed fs c q (crlf + 2) ret c'
  | body {remain : UInt64} {ret : HttpCode} {c' : HttpConnection} (hstate : c.parseState = .kBody)
      (hremain : c.remain = .ok remain) (henough : remain.toNat ≤ q.length)
      (hparse : c.parseRequestBody fs (q.take remain.toNat) = .ok (ret, c')) :
      Consumed fs c q remain.toNat ret c'

theorem consume_cases (hfinish : c.parseState ≠ .kFinish)
    (h : consume fs c q = .ok (some (n, ret, c'))) : Consumed fs c q n ret c' := by
  unfold consume at h
  cases hs : c.parseState with
  | kBody =>
    simp only [hs] at h
    obtain ⟨remain, hremain, h⟩ := bind_eq_ok.mp h
    split at h
    · cases h
    · rename_i henough
      obtain ⟨r, hr, h⟩ := bind_eq_ok.mp h
      cases h
      exact .body hs hremain (Nat.le_of_not_lt henough) hr
  | kRequestLine =>
    simp only [hs] at h
    split at h
    · cases h
    · rename_i crlf hcrlf
      simp only [Except.ok.injEq, Option.some.injEq, Prod.mk.injEq] at h
      obtain ⟨rfl, hparse⟩ := h
      exact .requestLine hs hcrlf hparse
  | kHeader =>
    simp only [hs] at h
    split at h
    · cases h
    · rename_i crlf hcrlf
      obtain ⟨r, hr, h⟩ := bind_eq_ok.mp h
      cases h
      exact .header hs hcrlf hr
  | kFinish => exact absurd hs hfinish

theorem consume_continues (h : consume fs c q = .ok (some (n, .kNoRequest, c')))
    (hfinish : c.parseState ≠ .kFinish) : 2 ≤ n ∧ n ≤ q.length := by
  have hlen : n ≤ q.length := (consume_append h).1
  cases consume_cases hfinish h with
  | requestLine hstate hcrlf hparse => exact ⟨by omega, hlen⟩
  | header hstate hcrlf hparse => exact ⟨by omega, hlen⟩
  | body hstate hremain henough hparse =>
    refine absurd rfl (parseRequestBody_ne_kNoRequest hremain ?_ hparse)
    rw [List.length_take]
    omega

/-- On any queue an iteration does what it does on the bytes of the queue. -/
theorem iterate_spec (fs : FileSystem) {Q : Type} [ByteQueue Q] (q : Q) (hfinish : c.parseState ≠ .kFinish) :
    match consume fs c (ByteQueue.bytes q) with
    | .error e => iterate fs c q = .error e
    | .ok none => iterate fs c q = .ok (.returns .kNoRequest c q)
    | .ok (some (n, r)) => ∃ q', iterate fs c q = .ok (.of q' r) ∧
        ByteQueue.bytes q' = (ByteQueue.bytes q).drop n := by
  unfold consume iterate
  cases hs : c.parseState with
  | kBody =>
    dsimp only
    cases hremain : c.remain with
    | error e => exact rfl
    | ok remain =>
      rw [ok_bind, ok_bind, ByteQueue.readableBytes_eq]
      by_cases hwait : (ByteQueue.bytes q).length < remain.toNat
      · rw [if_pos hwait, if_pos hwait]
        exact rfl
      · obtain ⟨q', hq', hrest⟩ :=
          ByteQueue.retrieveAsString_spec q remain.toNat (Nat.le_of_not_lt hwait)
        rw [if_neg hwait, if_neg hwait, hq', ok_bind]
        cases hr : c.parseRequestBody fs ((ByteQueue.bytes q).take remain.toNat) with
        | error e => exact rfl
        | ok r => exact ⟨q', rfl, hrest⟩
  | kRequestLine =>
    dsimp only
    cases hcrlf : search kCRLF (ByteQueue.bytes q) with
    | none =>
      rw [ByteQueue.findCRLF_none q hcrlf]
    | some i =>
      obtain ⟨crlf, q', hfind, hq', hrest⟩ := ByteQueue.retrieveLine_spec q i hcrlf
      refine ⟨q', ?_, hrest⟩
      rw [hfind]
      dsimp only
      rw [hq']
      rfl
  | kHeader =>
    dsimp only
    cases hcrlf : search kCRLF (ByteQueue.bytes q) with
    | none =>
      rw [ByteQueue.findCRLF_none q hcrlf]
    | some i =>
      obtain ⟨crlf, q', hfind, hq', hrest⟩ := ByteQueue.retrieveLine_spec q i hcrlf
      rw [hfind]
      dsimp only
      rw [hq', ok_bind]
      cases hr : c.parseRequestHeader ((ByteQueue.bytes q).take i) with
      | error e => exact rfl
      | ok r => exact ⟨q', rfl, hrest⟩
  | kFinish => exact absurd hs hfinish

/-! ### The loop -/

section

variable {Q : Type} [ByteQueue Q]

theorem parseLoop_step (fs : FileSystem) (q : Q) (fuel : Nat) (hfinish : c.parseState ≠ .kFinish) :
    match consume fs c (ByteQueue.bytes q) with
    | .error e => parseLoop fs (fuel + 1) c q = .error e
    | .ok none => parseLoop fs (fuel + 1) c q = .ok (.kNoRequest, c, q)
    | .ok (some (n, ret, c')) => ∃ q', ByteQueue.bytes q' = (ByteQueue.bytes q).drop n ∧
        parseLoop fs (fuel + 1) c q =
          if ret ≠ .kNoRequest then .ok (ret, c', q') else parseLoop fs fuel c' q' := by
  have hspec := iterate_spec fs q hfinish
  rw [parseLoop, if_neg hfinish]
  cases hconsume : consume fs c (ByteQueue.bytes q) with
  | error e =>
    rw [hconsume] at hspec
    dsimp only at hspec ⊢
    rw [hspec]
    rfl
  | ok taken =>
    rw [hconsume] at hspec
    cases taken with
    | none =>
      dsimp only at hspec ⊢
      rw [hspec]
      rfl
    | some x =>
      obtain ⟨n, ret, c'⟩ := x
      obtain ⟨q', hiterate, hrest⟩ := hspec
      refine ⟨q', hrest, ?_⟩
      rw [hiterate, Iteration.of]
      by_cases hret : ret ≠ .kNoRequest
      · rw [if_pos hret, if_pos hret]
        rfl
      · rw [if_neg hret, if_neg hret]
        rfl

/-- With fuel for every byte the loop does on any queue what it does on the bytes of the queue. -/
theorem parseLoop_sim (fs : FileSystem) (q : Q) {fuel fuel' : Nat} (h : (ByteQueue.bytes q).length < fuel)
    (h' : (ByteQueue.bytes q).length < fuel') :
    match parseLoop fs fuel' c (ByteQueue.bytes q) with
    | .error e => parseLoop fs fuel c q = .error e
    | .ok (ret, c', r) => ∃ q', parseLoop fs fuel c q = .ok (ret, c', q') ∧ ByteQueue.bytes q' = r := by
  induction fuel generalizing fuel' c q with
  | zero => exact absurd h (Nat.not_lt_zero _)
  | succ fuel ih =>
    cases fuel' with
    | zero => exact absurd h' (Nat.not_lt_zero _)
    | succ fuel' =>
      by_cases hfinish : c.parseState = .kFinish
      · rw [parseLoop, if_pos hfinish]
        exact ⟨q, by rw [parseLoop, if_pos hfinish], rfl⟩
      · have hqueue := parseLoop_step fs q fuel hfinish
        have hlist := parseLoop_step fs (ByteQueue.bytes q) fuel' hfinish
        rw [bytes_list] at hlist
        cases hconsume : consume fs c (ByteQueue.bytes q) with
        | error e =>
          rw [hconsume] at hqueue hlist
          dsimp only at hqueue hlist
          rw [hlist]
          exact hqueue
        | ok taken =>
          rw [hconsume] at hqueue hlist
          cases taken with
          | none =>
            dsimp only at hqueue hlist
            rw [hlist]
            exact ⟨q, hqueue, rfl⟩
          | some x =>
            obtain ⟨n, ret, c'⟩ := x
            obtain ⟨q', hrest, hqueue⟩ := hqueue
            obtain ⟨r, hr, hlist⟩ := hlist
            rw [hlist, hqueue]
            obtain rfl : r = ByteQueue.bytes q' := hr.trans hrest.symm
            by_cases hret : ret ≠ .kNoRequest
            · rw [if_pos hret, if_pos hret]
              exact ⟨q', rfl, rfl⟩
            · rw [if_neg hret, if_neg hret]
              obtain rfl : ret = .kNoRequest := not_not.mp hret
              obtain ⟨hn, hlen⟩ := consume_continues hconsume hfinish
              have hshort : (ByteQueue.bytes q').length < (ByteQueue.bytes q).length := by
                rw [hrest, List.length_drop]
                omega
              exact ih q' (by omega) (by omega)

/-- `parseRequest` on a queue of bytes. -/
def parse (fs : FileSystem) (c : HttpConnection) (q : Bytes) :
    Except Fault (HttpCode × HttpConnection × Bytes) := c.parseRequest fs q

theorem parseRequest_sim (fs : FileSystem) (c : HttpConnection) (q : Q) :
    match parse fs c (ByteQueue.bytes q) with
    | .error e => c.parseRequest fs q = .error e
    | .ok (ret, c', r) => ∃ q', c.parseRequest fs q = .ok (ret, c', q') ∧ ByteQueue.bytes q' = r :=
  parseLoop_sim fs q (by rw [ByteQueue.readableBytes_eq]; exact Nat.lt_succ_self _)
    (Nat.lt_succ_self _)

/-- What `parseRequest` returns on a queue it returns on the bytes of the queue. -/
theorem parse_of_parseRequest {q q' : Q} (h : c.parseRequest fs q = .ok (ret, c', q')) :
    parse fs c (ByteQueue.bytes q) = .ok (ret, c', ByteQueue.bytes q') := by
  have hsim := parseRequest_sim fs c q
  rw [h] at hsim
  cases hparse : parse fs c (ByteQueue.bytes q) with
  | error e =>
    rw [hparse] at hsim
    cases hsim
  | ok r =>
    obtain ⟨ret', d, rest⟩ := r
    rw [hparse] at hsim
    obtain ⟨q'', hq, rfl⟩ := hsim
    cases hq
    rfl

end

theorem parse_finish (h : c.parseState = .kFinish) : parse fs c q = .ok (.kGetRequest, c, q) := by
  rw [parse, parseRequest, parseLoop, if_pos h]

theorem parse_error (hfinish : c.parseState ≠ .kFinish) (h : consume fs c q = .error e) :
    parse fs c q = .error e := by
  have hstep := parseLoop_step fs q q.length hfinish
  rw [bytes_list, h] at hstep
  exact hstep

theorem parse_waits (hfinish : c.parseState ≠ .kFinish) (h : consume fs c q = .ok none) :
    parse fs c q = .ok (.kNoRequest, c, q) := by
  have hstep := parseLoop_step fs q q.length hfinish
  rw [bytes_list, h] at hstep
  exact hstep

theorem parse_returns (hfinish : c.parseState ≠ .kFinish)
    (h : consume fs c q = .ok (some (n, ret, c'))) (hret : ret ≠ .kNoRequest) :
    parse fs c q = .ok (ret, c', q.drop n) := by
  have hstep := parseLoop_step fs q q.length hfinish
  rw [bytes_list, h] at hstep
  obtain ⟨q', rfl, hstep⟩ := hstep
  rw [if_pos hret] at hstep
  exact hstep

theorem parse_continues (hfinish : c.parseState ≠ .kFinish)
    (h : consume fs c q = .ok (some (n, .kNoRequest, c'))) :
    parse fs c q = parse fs c' (q.drop n) := by
  have hstep := parseLoop_step fs q q.length hfinish
  rw [bytes_list, h] at hstep
  obtain ⟨q', rfl, hstep⟩ := hstep
  rw [if_neg (by simp)] at hstep
  obtain ⟨hn, hlen⟩ := consume_continues h hfinish
  have hshort : (q.drop n).length < q.length := by
    rw [List.length_drop]
    omega
  have hsim := parseLoop_sim fs (c := c') (q.drop n) hshort (Nat.lt_succ_self _)
  refine Eq.trans hstep ?_
  rw [bytes_list] at hsim
  change match parse fs c' (q.drop n) with
    | .error e => parseLoop fs q.length c' (q.drop n) = .error e
    | .ok (ret, d, r) => ∃ q', parseLoop fs q.length c' (q.drop n) = .ok (ret, d, q') ∧ q' = r at hsim
  split at hsim
  · rename_i hp
    rw [hp]
    exact hsim
  · rename_i hp
    obtain ⟨q', hq', rfl⟩ := hsim
    rw [hp]
    exact hq'

/-- Induction along the iterations of a parse. -/
theorem parse_induction (fs : FileSystem) {motive : HttpConnection → Bytes → Prop}
    (finish : ∀ c q, c.parseState = .kFinish → motive c q)
    (fails : ∀ c q e, c.parseState ≠ .kFinish → consume fs c q = .error e → motive c q)
    (waits : ∀ c q, c.parseState ≠ .kFinish → consume fs c q = .ok none → motive c q)
    (returns : ∀ c q n ret c', c.parseState ≠ .kFinish → ret ≠ .kNoRequest →
      consume fs c q = .ok (some (n, ret, c')) → motive c q)
    (continues : ∀ c q n c', c.parseState ≠ .kFinish →
      consume fs c q = .ok (some (n, .kNoRequest, c')) → motive c' (q.drop n) → motive c q)
    (c : HttpConnection) (q : Bytes) : motive c q := by
  induction hk : q.length using Nat.strong_induction_on generalizing c q with
  | _ k ih =>
    by_cases hfinish : c.parseState = .kFinish
    · exact finish c q hfinish
    · cases hconsume : consume fs c q with
      | error e => exact fails c q e hfinish hconsume
      | ok taken =>
        cases taken with
        | none => exact waits c q hfinish hconsume
        | some x =>
          obtain ⟨n, ret, c'⟩ := x
          by_cases hret : ret = .kNoRequest
          · subst hret
            obtain ⟨hn, hlen⟩ := consume_continues hconsume hfinish
            have hshort : (q.drop n).length < k := by
              rw [List.length_drop]
              omega
            exact continues c q n c' hfinish hconsume (ih _ hshort c' (q.drop n) rfl)
          · exact returns c q n ret c' hfinish hret hconsume

/-! ### More bytes -/

/-- A parse that ended without a request goes on from where it stopped when more bytes come, and
any other end of it stays. -/
theorem parse_append (t : Bytes) :
    parse fs c (q ++ t) =
      match parse fs c q with
      | .error e => .error e
      | .ok (ret, c', q') =>
        if ret = .kNoRequest then parse fs c' (q' ++ t) else .ok (ret, c', q' ++ t) := by
  induction c, q using parse_induction fs with
  | finish c q h =>
    rw [parse_finish h, parse_finish h]
    rfl
  | fails c q e hfinish h =>
    rw [parse_error hfinish h, parse_error hfinish (consume_append_error h t)]
  | waits c q hfinish h =>
    rw [parse_waits hfinish h]
    rfl
  | returns c q n ret c' hfinish hret h =>
    obtain ⟨hlen, happend⟩ := consume_append h
    rw [parse_returns hfinish h hret, parse_returns hfinish (happend t) hret]
    dsimp only
    rw [if_neg hret, List.drop_append_of_le_length hlen]
  | continues c q n c' hfinish h ih =>
    obtain ⟨hlen, happend⟩ := consume_append h
    rw [parse_continues hfinish h, parse_continues hfinish (happend t),
      List.drop_append_of_le_length hlen]
    exact ih

theorem parse_suffix {r : Bytes} (h : parse fs c q = .ok (ret, c', r)) : r <:+ q := by
  induction c, q using parse_induction fs with
  | finish c q hfinish =>
    rw [parse_finish hfinish] at h
    cases h
    exact List.suffix_refl _
  | fails c q e hfinish hconsume =>
    rw [parse_error hfinish hconsume] at h
    cases h
  | waits c q hfinish hconsume =>
    rw [parse_waits hfinish hconsume] at h
    cases h
    exact List.suffix_refl _
  | returns c q n ret c' hfinish hret hconsume =>
    rw [parse_returns hfinish hconsume hret] at h
    cases h
    exact List.drop_suffix _ _
  | continues c q n c' hfinish hconsume ih =>
    rw [parse_continues hfinish hconsume] at h
    exact (ih h).trans (List.drop_suffix _ _)

end Mymuduo.HttpConnection
