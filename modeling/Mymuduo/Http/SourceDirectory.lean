import Mymuduo.Lib.Path
import Mymuduo.Http.Exchange

/-! The files that are served.  `makeResponseBody` opens `kSourceDir + path_`, where `path_` is
either one of the pages of the server or what the request line asks for, which may lead anywhere:
the file is below the source directory just if the path, when it leaves the directory upwards, comes
down by the same names. -/

namespace Mymuduo

open Lib

/-- `kSourceDir`: an absolute path, by the names on it. -/
structure SourceDir where
  names : List Bytes
  names_ne_nil : names ≠ []
  proper : ∀ n ∈ names, ProperName 47 46 n ∧ (0 : UInt8) ∉ n

namespace SourceDir

def path (d : SourceDir) : Bytes := pathOf 47 d.names

/-- The directory for which `onConnection` makes an `HttpConnection`. -/
def resources : SourceDir where
  names := [ofString "home", ofString "lofivo", ofString "Repository", ofString "myMuduo",
    ofString "resources"]
  names_ne_nil := List.cons_ne_nil _ _
  proper := by
    have hproper : ∀ n ∈ [ofString "home", ofString "lofivo", ofString "Repository",
        ofString "myMuduo", ofString "resources"],
        (n ≠ [] ∧ n ≠ [46] ∧ n ≠ [46, 46] ∧ (47 : UInt8) ∉ n) ∧ (0 : UInt8) ∉ n := by decide
    exact fun n hn => let ⟨⟨hnil, hdot, hparent, hsep⟩, hzero⟩ := hproper n hn
      ⟨⟨hnil, hdot, hparent, hsep⟩, hzero⟩

/-- The file at an absolute path is below the directory, after lexical resolution. -/
def Holds (d : SourceDir) (path : Bytes) : Prop := Below d.names (resolve [] (components 47 46 path))

/-- `path_`, written behind the directory, leads below it: when it leaves the directory upwards, it
comes down by the same names, and then goes on. -/
def Confines (d : SourceDir) (path : Bytes) : Prop :=
  (normalize (componentsBehind 47 46 d.names (cString path))).Returns d.names

variable {d : SourceDir}

theorem zero_notMem_path (d : SourceDir) : (0 : UInt8) ∉ d.path := by
  intro h
  obtain ⟨n, hn, hmem⟩ := List.mem_flatMap.mp h
  rcases List.mem_cons.mp hmem with h0 | hmem
  · exact absurd h0 (by decide)
  · exact (d.proper n hn).2 hmem

theorem cString_path_append (d : SourceDir) (path : Bytes) :
    cString (d.path ++ path) = d.path ++ cString path := by
  have hall : ∀ b ∈ d.path, (b != 0) = true := fun b hb =>
    bne_iff_ne.mpr fun h0 => d.zero_notMem_path (h0 ▸ hb)
  exact List.takeWhile_append_of_pos hall

theorem holds_iff (path : Bytes) : d.Holds (cString (d.path ++ path)) ↔ d.Confines path := by
  rw [cString_path_append, Holds, SourceDir.path,
    resolve_pathOf_append d.names_ne_nil fun n hn => (d.proper n hn).1]
  exact below_resolve_iff _

/-- A page of the server. -/
theorem confines_page (d : SourceDir) {page : Bytes} (h : components 47 46 (cString page) = [.name page.tail])
    (hsep : (cString page).head? = some 47) : d.Confines page := by
  rw [Confines, componentsBehind, if_pos hsep, h]
  show Below (d.names.drop (d.names.length - 0)) [page.tail]
  rw [Nat.sub_zero, List.drop_length]
  exact ⟨List.nil_prefix, (List.cons_ne_nil _ _).symm⟩

end SourceDir

namespace HttpConnection

variable {fs : FileSystem} {c c' d : HttpConnection} {q q' : Bytes} {n : Nat} {ret : HttpCode}

/-- The path that `makeResponseBody` opens, if a request has ended. -/
def openedPath (fs : FileSystem) (c : HttpConnection) (q : Bytes) : Except Fault (Option Bytes) := do
  let (parseRet, c, _) ← c.parseRequest fs q
  if parseRet = .kNoRequest then
    return none
  else
    let c ← c.initResponse fs parseRet
    let _ ← c.makeResponseLine
    let (c, _) := c.makeResponseHeader
    return some (cString (c.sourceDir ++ c.path))

/-- What the request asks for that the parser is in: the request line is at the front of `q`, or has
been read. -/
def requestedPath (c : HttpConnection) (q : Bytes) : Bytes :=
  if c.parseState = .kRequestLine then
    match (search kCRLF q).bind fun crlf => matchRequestLine (q.take crlf) with
    | some (_, path, _) => resourcePath path
    | none => c.path
  else
    c.path

/-- The parser is at the end of a request that is answered with what it asks for: the headers
announce no body, or the body is there and is no form. -/
def EndsWithPage (c : HttpConnection) (q : Bytes) : Prop :=
  c.parseState = .kFinish ∨
  (c.parseState = .kHeader ∧ search kCRLF q = some 0 ∧
    (contentLength c.header = none ∨ contentLength c.header = some (.ok 0))) ∨
  (c.parseState = .kBody ∧ c.method ≠ ofString "POST" ∧ ∃ m k, c.bodyLength = .ok m ∧
    c.remain = .ok k ∧ k.toNat ≤ q.length ∧ c.body.length + k.toNat = m.toNat)

/-! ### The path -/

theorem consume_path (hfinish : c.parseState ≠ .kFinish)
    (h : consume fs c q = .ok (some (n, .kNoRequest, d))) :
    d.parseState ≠ .kRequestLine ∧ d.path = requestedPath c q := by
  cases consume_cases hfinish h with
  | requestLine hstate hcrlf hparse =>
    rcases parseRequestLine_cases fs c _ with
      ⟨-, hline⟩ | ⟨method, path, version, hmatch, ret', stat, hline, -, -⟩
    · cases hparse.symm.trans hline
    · cases hparse.symm.trans hline
      refine ⟨nofun, ?_⟩
      rw [requestedPath, if_pos hstate, hcrlf, Option.bind_some, hmatch]
  | header hstate hcrlf hparse =>
    have hpath : requestedPath c q = c.path := if_neg (by simp [hstate])
    rw [hpath]
    rcases parseRequestHeader_cases hparse with
      ⟨-, -, hret, -⟩ | ⟨-, -, -, rfl⟩ | ⟨-, -, hret, -⟩ | ⟨-, key, value, -, -, rfl⟩
    · cases hret
    · exact ⟨nofun, rfl⟩
    · cases hret
    · exact ⟨by simp [hstate], rfl⟩
  | body hstate hremain henough hparse =>
    refine absurd rfl (parseRequestBody_ne_kNoRequest hremain ?_ hparse)
    rw [List.length_take]
    omega

theorem Visits.path (h : Visits fs c q c' q') (hstate : c'.parseState ≠ .kRequestLine) :
    c'.path = requestedPath c q := by
  induction h with
  | here c q => exact (if_neg hstate).symm
  | next hfinish hconsume hrest ih =>
    obtain ⟨hline, hpath⟩ := consume_path hfinish hconsume
    rw [ih hstate, ← hpath]
    exact if_neg hline

/-- A body that ends a request is no form, or leads to a page of the server. -/
theorem parseRequestBody_page {line : Bytes} (h : c.parseRequestBody fs line = .ok (.kGetRequest, c')) :
    (c.method ≠ ofString "POST" ∧ c'.path = c.path ∧
      ∃ m, c.bodyLength = .ok m ∧ (c.body ++ line).length = m.toNat) ∨
    c'.path = ofString "/welcome.html" ∨ c'.path = ofString "/error.html" := by
  obtain ⟨m, hm, hend⟩ := parseRequestBody_cases h
  cases hend with
  | plain hlength hmethod => exact .inl ⟨hmethod, rfl, m, hm, hlength⟩
  | verified hlength hverify =>
    -- The form leads to the page of `userVerify`.
    right
    show (userVerify fs _).2.path = _ ∨ (userVerify fs _).2.path = _
    rw [userVerify_path]
    exact userPage_path _

/-- A request that ends so is answered with what it asks for. -/
theorem EndsWithPage.parse (fs : FileSystem) (h : EndsWithPage c q) :
    ∃ d rest, parse fs c q = .ok (.kGetRequest, d, rest) ∧ d.path = c.path := by
  rcases h with hfinish | ⟨hstate, hcrlf, hlength⟩ | ⟨hstate, hmethod, m, k, hm, hk, henough, hline⟩
  · exact ⟨c, q, parse_finish hfinish, rfl⟩
  · have hheader : c.parseRequestHeader [] = .ok (.kGetRequest, { c with parseState := .kFinish }) := by
      rw [parseRequestHeader_nil]
      rcases hlength with hnone | hzero
      · rw [hnone]
      · rw [hzero]
        rfl
    have hconsume : consume fs c q = .ok (some (2, .kGetRequest, { c with parseState := .kFinish })) := by
      rw [consume, hstate]
      dsimp only
      rw [hcrlf]
      dsimp only
      rw [List.take_zero, hheader]
      rfl
    exact ⟨_, _, parse_returns (by simp [hstate]) hconsume nofun, rfl⟩
  · have hbody : c.parseRequestBody fs (q.take k.toNat) =
        .ok (.kGetRequest, { c with body := c.body ++ q.take k.toNat, parseState := .kFinish }) := by
      have hm' : bodyLength { c with body := c.body ++ q.take k.toNat } = .ok m := hm
      have htaken : (c.body ++ q.take k.toNat).length = m.toNat := by
        rw [List.length_append, List.length_take]
        omega
      unfold parseRequestBody
      dsimp only
      rw [hm', ok_bind, htaken, if_neg (by omega), if_neg (by omega), if_neg hmethod]
      rfl
    have hconsume : consume fs c q = .ok (some (k.toNat, .kGetRequest,
        { c with body := c.body ++ q.take k.toNat, parseState := .kFinish })) := by
      rw [consume, hstate]
      dsimp only
      rw [hk, ok_bind, if_neg (by omega), hbody]
      rfl
    exact ⟨_, _, parse_returns (by simp [hstate]) hconsume nofun, rfl⟩

/-- An iteration that ends a request well is in a state that is answered with what the request asks
for, or sets a page of the server. -/
theorem consume_page (hfinish : c.parseState ≠ .kFinish)
    (h : consume fs c q = .ok (some (n, .kGetRequest, d))) :
    (EndsWithPage c q ∧ d.path = c.path) ∨
      d.path = ofString "/welcome.html" ∨ d.path = ofString "/error.html" := by
  cases consume_cases hfinish h with
  | requestLine hstate hcrlf hparse =>
    rcases parseRequestLine_cases fs c _ with
      ⟨-, hline⟩ | ⟨method, path, version, hmatch, ret', stat, hline, hnot, -⟩
    · cases hparse.symm.trans hline
    · cases hparse.symm.trans hline
      exact absurd rfl hnot
  | header hstate hcrlf hparse =>
    rcases parseRequestHeader_cases hparse with
      ⟨hnil, hlength, -, rfl⟩ | ⟨-, -, hret, -⟩ | ⟨-, -, hret, -⟩ | ⟨-, key, value, -, hret, -⟩
    · obtain rfl := eq_zero_of_search_of_take hcrlf hnil
      exact .inl ⟨.inr (.inl ⟨hstate, hcrlf, hlength⟩), rfl⟩
    · cases hret
    · cases hret
    · cases hret
  | body hstate hremain henough hparse =>
    rcases parseRequestBody_page hparse with ⟨hmethod, hpath, m, hm, hline⟩ | hpage
    · refine .inl ⟨.inr (.inr ⟨hstate, hmethod, m, _, hm, hremain, henough, ?_⟩), hpath⟩
      rw [List.length_append, List.length_take] at hline
      omega
    · exact .inr hpage

/-- A request that has ended well is answered with what it asks for, or with a page of the
server. -/
theorem parse_page (h : parse fs c q = .ok (.kGetRequest, c', q')) :
    (∃ d r, Visits fs c q d r ∧ EndsWithPage d r ∧ c'.path = d.path) ∨
      c'.path = ofString "/welcome.html" ∨ c'.path = ofString "/error.html" := by
  induction c, q using parse_induction fs with
  | finish c q hfinish =>
    rw [parse_finish hfinish] at h
    cases h
    exact .inl ⟨_, _, .here _ _, .inl hfinish, rfl⟩
  | fails c q e hfinish hconsume =>
    rw [parse_error hfinish hconsume] at h
    cases h
  | waits c q hfinish hconsume =>
    rw [parse_waits hfinish hconsume] at h
    cases h
  | returns c q n ret d hfinish hret hconsume =>
    rw [parse_returns hfinish hconsume hret] at h
    cases h
    rcases consume_page hfinish hconsume with ⟨hends, hpath⟩ | hpage
    · exact .inl ⟨c, q, .here c q, hends, hpath⟩
    · exact .inr hpage
  | continues c q n d hfinish hconsume ih =>
    rw [parse_continues hfinish hconsume] at h
    rcases ih h with ⟨d', r, hvisits, hends⟩ | hpage
    · exact .inl ⟨d', r, .next hfinish hconsume hvisits, hends⟩
    · exact .inr hpage

theorem EndsWithPage.ne_requestLine (h : EndsWithPage c q) : c.parseState ≠ .kRequestLine := by
  rcases h with hstate | ⟨hstate, -⟩ | ⟨hstate, -⟩ <;> simp [hstate]

/-! ### The file that is opened -/

/-- The page that `initResponse` sets for a code that is not 200. -/
def errorPage (ret : HttpCode) : Bytes :=
  ofString "/" ++ toDecimal (codeOf ret) ++ ofString ".html"

theorem initResponse_get (fs : FileSystem) (c : HttpConnection) :
    c.initResponse fs .kGetRequest = .ok { c with responseCode := 200 } := rfl

theorem initResponse_path (hret : ret ≠ .kNoRequest) (h : c.initResponse fs ret = .ok c') :
    c'.sourceDir = c.sourceDir ∧
      c'.path = if ret = .kGetRequest then c.path else errorPage ret := by
  refine ⟨by rw [initResponse_frame h], ?_⟩
  unfold initResponse at h
  dsimp only at h
  split at h
  · rename_i hcode
    have hget : ret ≠ .kGetRequest := fun hret => hcode (by rw [hret]; rfl)
    rw [if_neg hget]
    split at h <;> cases h
    rfl
  · rename_i hcode
    have hget : ret = .kGetRequest := by
      cases ret with
      | kGetRequest => rfl
      | kNoRequest => exact absurd rfl hret
      | _ => exact absurd (by decide) hcode
    rw [if_pos hget]
    cases h
    rfl

theorem openedPath_get (h : parse fs c q = .ok (.kGetRequest, c', q')) :
    openedPath fs c q = .ok (some (cString (c.sourceDir ++ c'.path))) := by
  have hparse : c.parseRequest fs q = .ok (.kGetRequest, c', q') := h
  obtain ⟨line, hline⟩ := makeResponseLine_isOk (initResponse_get fs c')
  rw [openedPath, hparse, ok_bind]
  dsimp only
  rw [if_neg (by decide), initResponse_get, ok_bind, hline, ok_bind, ← parse_sourceDir h]
  rfl

theorem openedPath_cases {path : Bytes} (h : openedPath fs c q = .ok (some path)) :
    ∃ ret c' q', parse fs c q = .ok (ret, c', q') ∧ ret ≠ .kNoRequest ∧
      path = cString (c.sourceDir ++ if ret = .kGetRequest then c'.path else errorPage ret) := by
  obtain ⟨⟨ret, c', q'⟩, hparse, h⟩ := bind_eq_ok.mp h
  dsimp only at h
  split at h
  · cases h
  · rename_i hret
    obtain ⟨d, hinit, h⟩ := bind_eq_ok.mp h
    obtain ⟨line, -, h⟩ := bind_eq_ok.mp h
    obtain ⟨hdir, hpath⟩ := initResponse_path hret hinit
    refine ⟨ret, c', q', hparse, hret, ?_⟩
    cases h
    show cString (d.sourceDir ++ d.path) = _
    rw [hdir, hpath, parse_sourceDir hparse]

end HttpConnection

namespace SourceDir

open HttpConnection

theorem confines_errorPage (d : SourceDir) {ret : HttpCode} : d.Confines (errorPage ret) := by
  have hpage : components 47 46 (cString (errorPage ret)) = [.name (errorPage ret).tail] ∧
      (cString (errorPage ret)).head? = some 47 := by
    cases ret <;> decide +kernel
  exact d.confines_page hpage.1 hpage.2

theorem confines_userPage (d : SourceDir) {path : Bytes}
    (h : path = ofString "/welcome.html" ∨ path = ofString "/error.html") : d.Confines path := by
  rcases h with rfl | rfl <;> exact d.confines_page (by decide +kernel) (by decide)

end SourceDir

namespace Exchange

open HttpConnection

variable {d : SourceDir} {fs : FileSystem} {e e' : Exchange} {chunk : Bytes}

/-- The file that is opened after a delivery, if there is one, is below the source directory. -/
def OpensBelow (d : SourceDir) (fs : FileSystem) (e : Exchange) (chunk : Bytes) : Prop :=
  ∀ path, openedPath fs e.http (e.input ++ chunk) = .ok (some path) → d.Holds path

/-- A request that is answered with what it asks for asks for what is below the source
directory. -/
def RequestsBelow (d : SourceDir) (fs : FileSystem) (e : Exchange) (chunk : Bytes) : Prop :=
  ∀ c q, Visits fs e.http (e.input ++ chunk) c q → EndsWithPage c q →
    d.Confines (requestedPath e.http (e.input ++ chunk))

/-- The body of a response is from the file that is opened. -/
theorem deliver_opens (h : e.deliver fs chunk = .ok e') :
    e'.replies = e.replies ∨
      ∃ path f head n keepAlive, openedPath fs e.http (e.input ++ chunk) = .ok (some path) ∧
        fs path = some f ∧ e'.replies = e.replies ++ [⟨head ++ f.data.take n, keepAlive⟩] := by
  obtain ⟨ret, c, rest, hparse, -, ⟨-, -, hreplies, -⟩ | ⟨hret, d, bytes, hmake, hreplies, -⟩⟩ :=
    deliver_cases h
  · exact .inl hreplies
  · obtain ⟨u, -, hmake⟩ := bind_eq_ok.mp hmake
    obtain ⟨c', hinit, hmake⟩ := bind_eq_ok.mp hmake
    obtain ⟨line, hline, hmake⟩ := bind_eq_ok.mp hmake
    obtain ⟨body, hbody, hmake⟩ := bind_eq_ok.mp hmake
    cases hmake
    unfold makeResponseBody at hbody
    split at hbody
    · cases hbody
    · rename_i f hfile
      split at hbody <;> cases hbody
      refine .inr ⟨_, f, _, _, _, ?_, hfile, hreplies⟩
      have hparse' : e.http.parseRequest fs (e.input ++ chunk) = .ok (ret, c, rest) := hparse
      rw [openedPath, hparse', ok_bind]
      dsimp only
      rw [if_neg hret, hinit, ok_bind, hline, ok_bind]
      rfl

/-- Only a path that a request asks for can lead out of the source directory. -/
theorem opensBelow_iff (hdir : e.http.sourceDir = d.path) :
    OpensBelow d fs e chunk ↔ RequestsBelow d fs e chunk := by
  constructor
  · intro h c q hvisits hends
    obtain ⟨c', rest, hparse, hpath⟩ := hends.parse fs
    have hholds := h _ (openedPath_get (hvisits.parse_eq.trans hparse))
    rw [hdir, SourceDir.holds_iff, hpath, hvisits.path hends.ne_requestLine] at hholds
    exact hholds
  · intro h path hopened
    obtain ⟨ret, c', q', hparse, hret, rfl⟩ := openedPath_cases hopened
    rw [hdir, SourceDir.holds_iff]
    split
    · rename_i hget
      subst hget
      rcases parse_page hparse with ⟨c, q, hvisits, hends, hpath⟩ | hpage
      · rw [hpath, hvisits.path hends.ne_requestLine]
        exact h c q hvisits hends
      · exact d.confines_userPage hpage
    · exact d.confines_errorPage

/-- In a conversation only files below the source directory are opened, just if no request that is
answered with what it asks for asks for anything else. -/
theorem opens_below_sourceDir_iff (d : SourceDir) (fs : FileSystem) (chunks : List Bytes) :
    Along (deliver fs) (OpensBelow d fs) (start d.path) chunks ↔
      Along (deliver fs) (RequestsBelow d fs) (start d.path) chunks :=
  along_congr (I := fun e => e.http.sourceDir = d.path)
    (fun _ _ _ hI hd => (deliver_sourceDir hd).trans hI) (fun _ _ hI => opensBelow_iff hI) rfl

/-- A file next to the source directory. -/
def outsideSite : FileSystem :=
  siteOf [(SourceDir.resources.path ++ ofString "/../secret.txt", ofString "out")]

/-- A request climbs out of the source directory, and the file there is sent. -/
theorem climbs_out_of_sourceDir :
    ¬Along (deliver outsideSite) (OpensBelow .resources outsideSite)
        (start SourceDir.resources.path)
        [ofString "GET /../secret.txt HTTP/1.1" ++ kCRLF ++ kCRLF] ∧
      (run (deliver outsideSite) (start SourceDir.resources.path)
        [ofString "GET /../secret.txt HTTP/1.1" ++ kCRLF ++ kCRLF]).toOption.map (·.replies) =
        some [⟨ofString "HTTP/1.1 200 OK" ++ kCRLF ++ ofString "Connection: close" ++ kCRLF ++
          ofString "Content-Type: text/plain" ++ kCRLF ++ ofString "Content-Length: 3" ++ kCRLF ++
          kCRLF ++ ofString "out", false⟩] := by
  refine ⟨?_, by decide +kernel⟩
  intro h
  have hopened : openedPath outsideSite (HttpConnection.new SourceDir.resources.path)
      (ofString "GET /../secret.txt HTTP/1.1" ++ kCRLF ++ kCRLF) =
      .ok (some (SourceDir.resources.path ++ ofString "/../secret.txt")) := by decide +kernel
  have houtside : ¬SourceDir.resources.Holds (SourceDir.resources.path ++ ofString "/../secret.txt") := by
    unfold SourceDir.Holds
    decide +kernel
  exact houtside (h.1 _ hopened)

end Exchange

end Mymuduo
