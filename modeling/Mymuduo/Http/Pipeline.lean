import Mymuduo.Http.ContentLength
import Mymuduo.Http.Request
import Mymuduo.Lib.Arrivals

/-! Requests that come one after another on a connection that is kept, cut into deliveries in any
way.  A delivery is answered at most once, so that requests that end in one delivery wait for later
ones, and wait for ever if none comes. -/

namespace Mymuduo

open Lib

/-- A request of HTTP/1.1 that asks for the connection to be kept. -/
structure KeepAliveRequest extends Request where
  method : Bytes
  target : Bytes
  groups : matchRequestLine line = some (method, target, ofString "1.1")
  connection : headerMap fields (ofString "Connection") = some (ofString "keep-alive")

namespace HttpConnection

variable {fs : FileSystem} {sourceDir : Bytes} {c c' : HttpConnection} {q q' : Bytes} {n : Nat}
  {ret : HttpCode}

/-- What the constructor and `resetState` leave.  `post_` and `keepAlive_` may be old. -/
def Fresh (sourceDir : Bytes) (c : HttpConnection) : Prop :=
  c = { HttpConnection.new sourceDir with post := c.post, keepAlive := c.keepAlive }

theorem fresh_new (sourceDir : Bytes) : Fresh sourceDir (.new sourceDir) := rfl

theorem fresh_resetState (c : HttpConnection) : Fresh c.sourceDir c.resetState := rfl

/-! ### Pages -/

/-- The page at `path` can be sent: it can be opened and mapped. -/
def Servable (fs : FileSystem) (sourceDir path : Bytes) : Prop :=
  ∃ f, fs (cString (sourceDir ++ path)) = some f ∧ f.isDir = false ∧ f.openable = true ∧ f.data ≠ []

/-- The pages that the server itself sends to a client whose requests ask for files that exist. -/
structure Site (fs : FileSystem) (sourceDir : Bytes) : Prop where
  badRequest : Servable fs sourceDir (ofString "/400.html")
  welcome : Servable fs sourceDir (ofString "/welcome.html")
  error : Servable fs sourceDir (ofString "/error.html")

/-- The resource exists: it is a file that others may read. -/
def ResourceExists (fs : FileSystem) (sourceDir : Bytes) (r : KeepAliveRequest) : Prop :=
  ∃ f, fs (cString (sourceDir ++ resourcePath r.target)) = some f ∧ f.isDir = false ∧
    f.othRead = true

/-- The request carries a form. -/
def CarriesForm (r : KeepAliveRequest) : Prop := r.method = ofString "POST" ∧ r.body ≠ []

/-- `stoi` can read the length, and the file can be sent if it is what answers the request. -/
structure Answerable (fs : FileSystem) (sourceDir : Bytes) (r : KeepAliveRequest) : Prop where
  reads : ∀ e, contentLength (headerMap r.fields) ≠ some (.error e)
  servable : ¬CarriesForm r → Servable fs sourceDir (resourcePath r.target)

/-- The attributes are those of the file at the path. -/
def Statted (fs : FileSystem) (c : HttpConnection) : Prop :=
  ∃ f, c.file fs = some f ∧ c.requestFileStat = f.stat

/-- With the attributes of its file in place, the page is sent if it can be, and is fatal if not. -/
theorem makeResponseBody_isOk (h : Statted fs c) :
    (∃ bytes, c.makeResponseBody fs = .ok bytes) ↔ Servable fs c.sourceDir c.path := by
  obtain ⟨f, hfile, hstat⟩ := h
  have hsize : c.requestFileStat.size = f.data.length := by rw [hstat]; rfl
  rw [makeResponseBody, hfile]
  dsimp only
  rw [hsize]
  constructor
  · rintro ⟨bytes, h⟩
    split at h
    · rename_i hcond
      simp only [Bool.and_eq_true, Bool.not_eq_true', bne_iff_ne, ne_eq,
        List.length_eq_zero_iff] at hcond
      exact ⟨f, hfile, hcond.1.2, hcond.1.1, hcond.2⟩
    · cases h
  · rintro ⟨g, hg, hdir, hopen, hdata⟩
    obtain rfl : f = g := Option.some.inj (hfile.symm.trans hg)
    refine ⟨_, if_pos ?_⟩
    simp [hdir, hopen, hdata]

theorem makeResponse_of_init {d : HttpConnection} (hret : ret ≠ .kNoRequest)
    (hinit : c.initResponse fs ret = .ok d) (hstat : Statted fs d) :
    (∃ r, c.makeResponse fs ret = .ok r) ↔ Servable fs d.sourceDir d.path := by
  obtain ⟨line, hline⟩ := makeResponseLine_isOk hinit
  have hcheck : (ret != HttpCode.kNoRequest) = true := bne_iff_ne.mpr hret
  rw [← makeResponseBody_isOk hstat]
  rw [makeResponse, hcheck, check_true, ok_bind, hinit, ok_bind, hline, ok_bind]
  constructor
  · rintro ⟨r, hr⟩
    obtain ⟨body, hbody, -⟩ := bind_eq_ok.mp hr
    exact ⟨body, hbody⟩
  · rintro ⟨body, hbody⟩
    exact ⟨_, bind_eq_ok.mpr ⟨body, hbody, rfl⟩⟩

theorem makeResponse_get_isOk (h : Statted fs c) :
    (∃ r, c.makeResponse fs .kGetRequest = .ok r) ↔ Servable fs c.sourceDir c.path :=
  makeResponse_of_init (d := { c with responseCode := 200 }) (by simp) rfl h

theorem makeResponse_bad_isOk (h : Servable fs c.sourceDir (ofString "/400.html")) :
    ∃ r, c.makeResponse fs .kBadRequest = .ok r := by
  obtain ⟨f, hf, hrest⟩ := h
  have hpath : ofString "/" ++ toDecimal (codeOf .kBadRequest) ++ ofString ".html" =
      ofString "/400.html" := by decide +kernel
  have hinit : c.initResponse fs .kBadRequest =
      .ok { c with
        responseCode := 400
        path := ofString "/400.html"
        requestFileStat := f.stat } := by
    unfold initResponse file
    dsimp only
    split
    · rw [hpath, hf]
      rfl
    · rename_i hcode
      exact absurd (by decide) hcode
  exact (makeResponse_of_init (by simp) hinit ⟨f, hf, rfl⟩).mpr ⟨f, hf, hrest⟩

/-! ### Parsing the text of a request -/

theorem consume_requestLine {line : Bytes} (fs : FileSystem)
    (hstate : c.parseState = .kRequestLine)
    (hline : IsLine line) (t : Bytes) :
    consume fs c (line ++ kCRLF ++ t) =
      .ok (some (line.length + 2, c.parseRequestLine fs line)) := by
  unfold consume
  simp only [hstate, search_line hline]
  rw [List.append_assoc, List.take_left]

theorem consume_headerLine {line : Bytes} (fs : FileSystem)
    (hstate : c.parseState = .kHeader)
    (hline : IsLine line) (t : Bytes) :
    consume fs c (line ++ kCRLF ++ t) =
      c.parseRequestHeader line >>= fun r => .ok (some (line.length + 2, r)) := by
  unfold consume
  simp only [hstate, search_line hline]
  rw [List.append_assoc, List.take_left]
  rfl

theorem drop_line (line t : Bytes) : (line ++ kCRLF ++ t).drop (line.length + 2) = t := by
  have hlen : (line ++ kCRLF).length = line.length + 2 := by rw [List.length_append]; rfl
  rw [← hlen, List.drop_left]

theorem parse_fields {fields : List Bytes}
    (hfields : ∀ field ∈ fields, IsLine field ∧ (matchHeader field).isSome)
    (hstate : c.parseState = .kHeader) (t : Bytes) :
    parse fs c (ofLines fields ++ t) =
      parse fs { c with header := fields.foldl addField c.header } t := by
  induction fields generalizing c with
  | nil => rfl
  | cons field fields ih =>
    obtain ⟨hline, hmatch⟩ := hfields field (List.mem_cons_self ..)
    obtain ⟨⟨key, value⟩, hmatch⟩ := Option.isSome_iff_exists.mp hmatch
    have hne : ¬field.length = 0 := by
      intro hlen
      rw [List.eq_nil_of_length_eq_zero hlen] at hmatch
      cases hmatch
    have hconsume : consume fs c (field ++ kCRLF ++ (ofLines fields ++ t)) =
        .ok (some (field.length + 2, .kNoRequest, { c with header := addField c.header field })) := by
      rw [consume_headerLine fs hstate hline, parseRequestHeader, if_neg hne, addField, hmatch]
      rfl
    rw [ofLines_cons, List.append_assoc, parse_continues (by simp [hstate]) hconsume, drop_line]
    exact ih (fun f hf => hfields f (List.mem_cons_of_mem _ hf)) hstate

theorem parse_requestHead (head : RequestHead) {method target version : Bytes} {f : File}
    (hgroups : matchRequestLine head.line = some (method, target, version))
    (hfresh : Fresh sourceDir c)
    (hfile : fs (cString (sourceDir ++ resourcePath target)) = some f) (hdir : f.isDir = false)
    (hread : f.othRead = true) (t : Bytes) :
    parse fs c (head.bytes ++ t) =
      parse fs { c with
        parseState := .kHeader
        method := method
        path := resourcePath target
        version := version
        header := headerMap head.fields
        requestFileStat := f.stat } t := by
  have hstate : c.parseState = .kRequestLine := by rw [hfresh]; rfl
  have hheader : c.header = headerMap [] := by rw [hfresh]; rfl
  have hsource : c.sourceDir = sourceDir := by rw [hfresh]; rfl
  have hline : c.parseRequestLine fs head.line =
      (.kNoRequest, { c with
        parseState := .kHeader
        method := method
        path := resourcePath target
        version := version
        requestFileStat := f.stat }) := by
    rw [parseRequestLine, hgroups]
    dsimp only [file]
    rw [hsource, hfile]
    dsimp only
    rw [hdir, hread]
    rfl
  have hconsume := consume_requestLine fs hstate head.isLine (ofLines head.fields ++ t)
  rw [hline] at hconsume
  rw [RequestHead.bytes, List.append_assoc, parse_continues (by simp [hstate]) hconsume, drop_line,
    parse_fields head.fields_match rfl]
  dsimp only
  rw [hheader]
  rfl

/-- The end of headers that announce no body is the end of the request. -/
theorem parse_headerEnd (fs : FileSystem) (hstate : c.parseState = .kHeader)
    (hlength : contentLength c.header = none ∨ contentLength c.header = some (.ok 0)) (t : Bytes) :
    parse fs c (kCRLF ++ t) = .ok (.kGetRequest, { c with parseState := .kFinish }, t) := by
  have hline : c.parseRequestHeader [] =
      .ok (.kGetRequest, { c with parseState := .kFinish }) := by
    rw [parseRequestHeader_nil]
    rcases hlength with hnone | hzero
    · rw [hnone]
    · rw [hzero]
      rfl
  have hconsume := consume_headerLine fs hstate (show IsLine [] by decide) t
  rw [hline] at hconsume
  exact parse_returns (by simp [hstate]) hconsume (by simp)

/-- The state at the end of the header lines of a request for the file `f`. -/
def atHeaderEnd (c : HttpConnection) (r : KeepAliveRequest) (f : File) : HttpConnection :=
  { c with
    parseState := .kHeader
    method := r.method
    path := resourcePath r.target
    version := ofString "1.1"
    header := headerMap r.fields
    requestFileStat := f.stat }

theorem parse_head {r : KeepAliveRequest} {f : File} (hfresh : Fresh sourceDir c)
    (hfile : fs (cString (sourceDir ++ resourcePath r.target)) = some f) (hdir : f.isDir = false)
    (hread : f.othRead = true) (t : Bytes) :
    parse fs c (r.toRequestHead.bytes ++ t) = parse fs (c.atHeaderEnd r f) t :=
  parse_requestHead r.toRequestHead r.groups hfresh hfile hdir hread t

/-! ### The answer to a request -/

theorem userVerify_site (hsite : Site fs c.sourceDir) :
    (c.userVerify fs).1 = .kNoRequest ∧ Statted fs (c.userVerify fs).2 ∧
      Servable fs c.sourceDir (c.userVerify fs).2.path := by
  have hservable : Servable fs c.sourceDir c.userPage.path := by
    rcases c.userPage_path with hpath | hpath
    · rw [hpath]
      exact hsite.welcome
    · rw [hpath]
      exact hsite.error
  obtain ⟨f, hf, hrest⟩ := hservable
  have hfile : c.userPage.file fs = some f := by
    rw [file, c.userPage_frame]
    exact hf
  rw [userVerify, hfile]
  exact ⟨rfl, ⟨f, hfile, rfl⟩, f, hf, hrest⟩

theorem answers_form (hsite : Site fs c.sourceDir) {m : UInt64} {line : Bytes} (hbody : c.body = [])
    (hm : c.bodyLength = .ok m) (hline : line.length = m.toNat) (hpost : c.method = ofString "POST")
    (hr : c.parseRequestBody fs line = .ok (ret, c')) : ∃ r, c'.makeResponse fs ret = .ok r := by
  have hframe := parsePost_frame { c with body := line }
  have hsource : (parsePost { c with body := line }).2.sourceDir = c.sourceDir := by rw [hframe]
  rw [parseRequestBody_complete hbody hm hline, if_pos hpost] at hr
  dsimp only at hr
  split at hr
  · rename_i hret
    have hbad := (parsePost_ret { c with body := line }).resolve_left hret
    simp only [Except.ok.injEq] at hr
    rw [hr] at hbad hsource
    dsimp only at hbad hsource
    subst hbad
    exact makeResponse_bad_isOk (by rw [hsource]; exact hsite.badRequest)
  · obtain ⟨hverify, hstat, hservable⟩ :=
      userVerify_site (c := (parsePost { c with body := line }).2) (by rw [hsource]; exact hsite)
    rw [if_neg (by simp [hverify])] at hr
    cases hr
    have hstat' : Statted fs { ((parsePost { c with body := line }).2.userVerify fs).2 with
        parseState := .kFinish } := hstat
    refine (makeResponse_get_isOk hstat').mpr ?_
    dsimp only
    rw [userVerify_frame fs (parsePost { c with body := line }).2]
    exact hservable

/-- The parse of a request has ended with `ret` in the state `d`, which keeps the connection, and
whether it can be answered depends on the file if there is no form. -/
structure Ended (fs : FileSystem) (sourceDir : Bytes) (r : KeepAliveRequest) (ret : HttpCode)
    (d : HttpConnection) : Prop where
  ne_kNoRequest : ret ≠ .kNoRequest
  keeps : d.asksKeepAlive = true
  sourceDir_eq : d.sourceDir = sourceDir
  answers : (∃ x, d.makeResponse fs ret = .ok x) ↔
    (¬CarriesForm r → Servable fs sourceDir (resourcePath r.target))

theorem asksKeepAlive_of_request {r : KeepAliveRequest} (hheader : c.header = headerMap r.fields)
    (hversion : c.version = ofString "1.1") : c.asksKeepAlive = true := by
  rw [asksKeepAlive, hheader, hversion, r.connection, beq_self_eq_true, beq_self_eq_true]
  rfl

theorem ended_of_nil {r : KeepAliveRequest} {f : File} (hsource : c.sourceDir = sourceDir)
    (hfile : fs (cString (sourceDir ++ resourcePath r.target)) = some f)
    (hlength : contentLength (headerMap r.fields) = none ∨
      contentLength (headerMap r.fields) = some (.ok 0)) :
    ∃ d, parse fs (c.atHeaderEnd r f) (kCRLF ++ r.body) = .ok (.kGetRequest, d, []) ∧
      Ended fs sourceDir r .kGetRequest d := by
  have hnil := r.body_eq_nil hlength
  have hkeeps : asksKeepAlive { c.atHeaderEnd r f with parseState := .kFinish } = true :=
    asksKeepAlive_of_request (r := r) rfl rfl
  refine ⟨_, ?_, by simp, hkeeps, hsource, ?_⟩
  · rw [hnil]
    exact parse_headerEnd fs rfl hlength []
  · have hstat : Statted fs { c.atHeaderEnd r f with parseState := .kFinish } := by
      refine ⟨f, ?_, rfl⟩
      rw [← hsource] at hfile
      exact hfile
    rw [makeResponse_get_isOk hstat, ← hsource]
    exact ⟨fun h _ => h, fun h => h fun hform => hform.2 hnil⟩

theorem ended_of_body {r : KeepAliveRequest} {f : File} {k : Int} (hsite : Site fs sourceDir)
    (hsource : c.sourceDir = sourceDir) (hbody : c.body = [])
    (hfile : fs (cString (sourceDir ++ resourcePath r.target)) = some f)
    (hlength : contentLength (headerMap r.fields) = some (.ok k)) (hk : k ≠ 0) :
    ∃ ret d, parse fs (c.atHeaderEnd r f) (kCRLF ++ r.body) = .ok (ret, d, []) ∧
      Ended fs sourceDir r ret d := by
  obtain ⟨value, hvalue, hreads⟩ := Option.map_eq_some_iff.mp hlength
  obtain ⟨m, hm⟩ := stoul_isOk_of_stoi hreads
  have hsize : r.body.length = m.toNat :=
    Option.some.inj (r.length.symm.trans (announcedLength_of_stoul hvalue hm))
  have hm0 := stoul_ne_zero_of_stoi hreads hk hm
  have hfollows : BodyFollows (c.atHeaderEnd r f) (kCRLF ++ r.body) value k :=
    ⟨rfl, search_line (show IsLine [] by decide) r.body, hvalue, hreads, hk⟩
  have hend := hfollows.parse_body fs ⟨fun _ => hbody, by simp [atHeaderEnd]⟩ hm
  have hdrop : (kCRLF ++ r.body).drop 2 = r.body := rfl
  rw [hdrop, if_neg (by omega)] at hend
  obtain ⟨ret, d, hjudge, hret, hparse⟩ := hend
  rw [List.drop_of_length_le (by omega)] at hparse
  rw [List.take_of_length_le (by omega)] at hjudge
  have hframe := parseRequestBody_frame hjudge
  have hheader : d.header = headerMap r.fields := by rw [hframe]; rfl
  have hversion : d.version = ofString "1.1" := by rw [hframe]; rfl
  have hdir : d.sourceDir = sourceDir := by rw [hframe]; exact hsource
  have hlen : (c.atHeaderEnd r f).awaitBody.bodyLength = .ok m := by
    rw [bodyLength, show (c.atHeaderEnd r f).awaitBody.header = headerMap r.fields from rfl, hvalue]
    dsimp only
    rw [hm]
  refine ⟨ret, d, hparse, hret, asksKeepAlive_of_request hheader hversion, hdir, ?_⟩
  by_cases hpost : r.method = ofString "POST"
  · have hform : CarriesForm r := ⟨hpost, fun hnil => by rw [hnil] at hsize; exact hm0 hsize.symm⟩
    have hsite' : Site fs (c.atHeaderEnd r f).awaitBody.sourceDir := by
      show Site fs c.sourceDir
      rw [hsource]
      exact hsite
    exact ⟨fun _ hno => absurd hform hno,
      fun _ => answers_form hsite' hbody hlen hsize hpost hjudge⟩
  · have hbody' : (c.atHeaderEnd r f).awaitBody.body = [] := hbody
    have hother : ¬(c.atHeaderEnd r f).awaitBody.method = ofString "POST" := hpost
    rw [parseRequestBody_complete hbody' hlen hsize, if_neg hother] at hjudge
    cases hjudge
    have hstat : Statted fs { (c.atHeaderEnd r f).awaitBody with
        body := r.body
        parseState := .kFinish } := by
      refine ⟨f, ?_, rfl⟩
      rw [← hsource] at hfile
      exact hfile
    rw [makeResponse_get_isOk hstat, ← hsource]
    exact ⟨fun h _ => h, fun h => h fun hform => hpost hform.1⟩

/-- What becomes of a request on a connection that is fresh. -/
theorem parse_request {r : KeepAliveRequest} (hsite : Site fs sourceDir)
    (hexists : ResourceExists fs sourceDir r) (hfresh : Fresh sourceDir c) :
    (∃ e, contentLength (headerMap r.fields) = some (.error e) ∧
      parse fs c r.bytes = .error (.exception e)) ∨
    (∀ e, contentLength (headerMap r.fields) ≠ some (.error e)) ∧
      ∃ ret d, parse fs c r.bytes = .ok (ret, d, []) ∧ Ended fs sourceDir r ret d := by
  obtain ⟨f, hfile, hdir, hread⟩ := hexists
  have hsource : c.sourceDir = sourceDir := by rw [hfresh]; rfl
  have hbody : c.body = [] := by rw [hfresh]; rfl
  rw [Request.bytes, List.append_assoc, parse_head hfresh hfile hdir hread]
  cases hlength : contentLength (headerMap r.fields) with
  | none =>
    obtain ⟨d, hparse, hended⟩ := ended_of_nil hsource hfile (.inl hlength)
    exact .inr ⟨by simp, _, d, hparse, hended⟩
  | some result =>
    cases result with
    | error e =>
      refine .inl ⟨e, rfl, ?_⟩
      have hline : (c.atHeaderEnd r f).parseRequestHeader [] = .error (.exception e) := by
        rw [parseRequestHeader_nil, show (c.atHeaderEnd r f).header = headerMap r.fields from rfl,
          hlength]
      have hconsume := consume_headerLine fs (c := c.atHeaderEnd r f) rfl
        (show IsLine [] by decide) r.body
      rw [hline] at hconsume
      exact parse_error (by simp [atHeaderEnd]) hconsume
    | ok k =>
      refine .inr ⟨by simp, ?_⟩
      by_cases hk : k = 0
      · subst hk
        obtain ⟨d, hparse, hended⟩ := ended_of_nil hsource hfile (.inr hlength)
        exact ⟨_, d, hparse, hended⟩
      · exact ended_of_body hsite hsource hbody hfile hlength hk

end HttpConnection

namespace Exchange

open HttpConnection

variable {fs : FileSystem} {sourceDir : Bytes} {c d d' : HttpConnection} {e : Exchange}
  {ret : HttpCode} {chunk rest bytes : Bytes} {rs : List KeepAliveRequest} {replies : List Reply}

/-- The requests `rs`, one after another from the state `c`, are answered with `replies`. -/
inductive Serves (fs : FileSystem) : HttpConnection → List KeepAliveRequest → List Reply → Prop
  | nil (c : HttpConnection) : Serves fs c [] []
  | cons {c d d' : HttpConnection} {r : KeepAliveRequest} {rs : List KeepAliveRequest}
      {ret : HttpCode} {bytes : Bytes} {replies : List Reply}
      (hparse : parse fs c r.bytes = .ok (ret, d, [])) (hret : ret ≠ .kNoRequest)
      (hkeep : d.asksKeepAlive = true) (hmake : d.makeResponse fs ret = .ok (d', bytes))
      (hrest : Serves fs d'.resetState rs replies) : Serves fs c (r :: rs) (⟨bytes, true⟩ :: replies)

theorem Serves.length_eq (h : Serves fs c rs replies) : replies.length = rs.length := by
  induction h with
  | nil c => rfl
  | cons hparse hret hkeep hmake hrest ih => exact congrArg Nat.succ ih

theorem serves_of_answerable (hsite : Site fs sourceDir)
    (hexist : ∀ r ∈ rs, ResourceExists fs sourceDir r) (hanswer : ∀ r ∈ rs, Answerable fs sourceDir r)
    (hfresh : Fresh sourceDir c) : ∃ replies, Serves fs c rs replies := by
  induction rs generalizing c with
  | nil => exact ⟨[], .nil c⟩
  | cons r rs ih =>
    have hr := List.mem_cons_self (a := r) (l := rs)
    rcases parse_request hsite (hexist r hr) hfresh with
      ⟨e, hlength, -⟩ | ⟨-, ret, d, hparse, hended⟩
    · exact absurd hlength ((hanswer r hr).reads e)
    · obtain ⟨⟨d', bytes⟩, hmake⟩ := hended.answers.mpr (hanswer r hr).servable
      have hsource : d'.sourceDir = sourceDir := by
        rw [makeResponse_frame hmake]
        exact hended.sourceDir_eq
      obtain ⟨replies, hserves⟩ := ih (fun r' hr' => hexist r' (List.mem_cons_of_mem _ hr'))
        (fun r' hr' => hanswer r' (List.mem_cons_of_mem _ hr'))
        (hsource ▸ fresh_resetState d')
      exact ⟨_, .cons hparse hended.ne_kNoRequest hended.keeps hmake hserves⟩

theorem Serves.run_alone (h : Serves fs c rs replies) (hhttp : e.http = c) (hinput : e.input = []) :
    ∃ e', run (deliver fs) e (rs.map fun r => r.bytes) = .ok e' ∧
      e'.replies = e.replies ++ replies := by
  induction h generalizing e with
  | nil c => exact ⟨e, rfl, (List.append_nil _).symm⟩
  | cons hparse hret hkeep hmake hrest ih =>
    have hd := deliver_keeps (e := e) (by rw [hhttp, hinput]; exact hparse) hret hkeep hmake
    obtain ⟨e', hrun, hreplies⟩ := ih (e := ⟨_, [], e.replies ++ [⟨_, true⟩], []⟩) rfl rfl
    refine ⟨e', run_cons_ok.mpr ⟨_, hd, hrun⟩, ?_⟩
    rw [hreplies, List.append_assoc]
    rfl

theorem answerable_of_run_alone {e' : Exchange} (hsite : Site fs sourceDir)
    (hexist : ∀ r ∈ rs, ResourceExists fs sourceDir r) (hfresh : Fresh sourceDir e.http)
    (hinput : e.input = []) (h : run (deliver fs) e (rs.map fun r => r.bytes) = .ok e') :
    ∀ r ∈ rs, Answerable fs sourceDir r := by
  induction rs generalizing e with
  | nil => simp
  | cons r rs ih =>
    have hr := List.mem_cons_self (a := r) (l := rs)
    obtain ⟨u, hu, hrun⟩ := run_cons_ok.mp h
    obtain ⟨ret, d, rest, hparse, hrest, hend⟩ := deliver_cases hu
    rw [hinput, List.nil_append] at hparse
    rcases parse_request hsite (hexist r hr) hfresh with
      ⟨fault, -, hfails⟩ | ⟨hreads, ret', d', hparse', hended⟩
    · rw [hparse] at hfails
      cases hfails
    · cases hparse.symm.trans hparse'
      rcases hend with ⟨hno, -⟩ |
        ⟨-, d', bytes, hmake, -, ⟨hclose, -⟩ | ⟨-, hhttp, -⟩⟩
      · exact absurd hno hended.ne_kNoRequest
      · rw [hended.keeps] at hclose
        cases hclose
      · have hsource : d'.sourceDir = sourceDir := by
          rw [makeResponse_frame hmake]
          exact hended.sourceDir_eq
        intro r' hr'
        rcases List.mem_cons.mp hr' with rfl | hr'
        · exact ⟨hreads, hended.answers.mp ⟨_, hmake⟩⟩
        · refine ih (fun r' hr' => hexist r' (List.mem_cons_of_mem _ hr')) ?_ hrest hrun r' hr'
          rw [hhttp]
          exact hsource ▸ fresh_resetState d'

/-- The conversation stands as one in the state `c` to which the bytes `p` have been delivered. -/
def Pending (fs : FileSystem) (e : Exchange) (c : HttpConnection) (p : Bytes) : Prop :=
  ∀ t, parse fs e.http (e.input ++ t) = parse fs c (p ++ t)

theorem parse_part {p u : Bytes} (h : parse fs c (p ++ u) = .ok (ret, d, [])) (hu : u ≠ []) :
    ∃ d' q, parse fs c p = .ok (.kNoRequest, d', q) := by
  rw [parse_append] at h
  split at h
  · cases h
  · rename_i ret' d' q hp
    split at h
    · rename_i hno
      subst hno
      exact ⟨d', q, hp⟩
    · simp only [Except.ok.injEq, Prod.mk.injEq, List.append_eq_nil_iff] at h
      exact absurd h.2.2.2 hu

theorem Pending.waits {p : Bytes} (h : Pending fs e c p)
    (hpart : ∃ d q, parse fs c (p ++ chunk) = .ok (.kNoRequest, d, q)) :
    ∃ e', deliver fs e chunk = .ok e' ∧ e'.replies = e.replies ∧ Pending fs e' c (p ++ chunk) := by
  obtain ⟨d, q, hparse⟩ := hpart
  have hmore : ∀ t, parse fs c (p ++ chunk ++ t) = parse fs d (q ++ t) := by
    intro t
    rw [parse_append, hparse]
    rfl
  exact ⟨_, deliver_waits ((h chunk).trans hparse), rfl, fun t => (hmore t).symm⟩

theorem Pending.answers {p whole : Bytes} (h : Pending fs e c p)
    (hparse : parse fs c whole = .ok (ret, d, [])) (hret : ret ≠ .kNoRequest)
    (hkeep : d.asksKeepAlive = true) (hmake : d.makeResponse fs ret = .ok (d', bytes))
    (hsplit : whole ++ rest = p ++ chunk) :
    deliver fs e chunk = .ok ⟨d'.resetState, rest, e.replies ++ [⟨bytes, true⟩], []⟩ := by
  refine deliver_keeps ?_ hret hkeep hmake
  rw [h chunk, ← hsplit, parse_append, hparse]
  exact if_neg hret

/-- However the requests are cut, as many of them are answered as there are deliveries at which one
was complete, and with the same responses. -/
theorem Serves.run_cut {p : Bytes} {chunks : List Bytes} (h : Serves fs c rs replies)
    (hstate : c.parseState = .kRequestLine) (hpending : Pending fs e c p)
    (hcut : p ++ chunks.flatten = rs.flatMap fun r => r.bytes) :
    ∃ e', run (deliver fs) e chunks = .ok e' ∧
      e'.replies = e.replies ++ replies.take
        (served (rs.map fun r => r.bytes.length) p.length (chunks.map List.length)) := by
  induction chunks generalizing e c p rs replies with
  | nil =>
    refine ⟨e, rfl, ?_⟩
    rw [List.map_nil, served, List.take_zero, List.append_nil]
  | cons chunk chunks ih =>
    rw [List.flatten_cons, ← List.append_assoc] at hcut
    cases h with
    | nil c =>
      obtain ⟨hp, -⟩ := List.append_eq_nil_iff.mp hcut
      have hwait : parse fs c (p ++ chunk) = .ok (.kNoRequest, c, p ++ chunk) := by
        rw [hp]
        refine parse_waits (by simp [hstate]) ?_
        unfold consume
        simp only [hstate]
        rfl
      obtain ⟨e', hd, hreplies, hpending'⟩ := hpending.waits ⟨c, _, hwait⟩
      obtain ⟨e'', hrun, hreplies'⟩ := ih (.nil c) hstate hpending' hcut
      refine ⟨e'', run_cons_ok.mpr ⟨e', hd, hrun⟩, ?_⟩
      rw [hreplies', hreplies, List.take_nil, List.take_nil]
    | @cons _ d d' r rs ret bytes replies hparse hret hkeep hmake hrest =>
      rw [List.flatMap_cons] at hcut
      rw [List.map_cons, List.map_cons, served, ← List.length_append]
      by_cases henough : r.bytes.length ≤ (p ++ chunk).length
      · -- The first request is complete: it is answered, and the rest of the bytes is left.
        obtain ⟨rest, hsplit⟩ : r.bytes <+: p ++ chunk :=
          List.prefix_of_prefix_length_le ⟨_, hcut.symm⟩ ⟨_, rfl⟩ henough
        have hrest' : rest ++ chunks.flatten = rs.flatMap fun r => r.bytes := by
          rw [← hsplit, List.append_assoc] at hcut
          exact List.append_cancel_left hcut
        have hd := hpending.answers hparse hret hkeep hmake hsplit
        obtain ⟨e'', hrun, hreplies⟩ :=
          ih (e := ⟨d'.resetState, rest, e.replies ++ [⟨bytes, true⟩], []⟩) hrest rfl
            (fun t => rfl) hrest'
        refine ⟨e'', run_cons_ok.mpr ⟨_, hd, hrun⟩, ?_⟩
        have hleft : (p ++ chunk).length - r.bytes.length = rest.length := by
          rw [← hsplit, List.length_append, Nat.add_sub_cancel_left]
        rw [hreplies, if_pos henough, hleft, List.take_succ_cons, List.append_assoc]
        rfl
      · obtain ⟨u, hu⟩ : p ++ chunk <+: r.bytes :=
          List.prefix_of_prefix_length_le ⟨_, hcut⟩ ⟨_, rfl⟩ (by omega)
        have hne : u ≠ [] := by
          rintro rfl
          rw [List.append_nil] at hu
          exact henough (by rw [hu])
        obtain ⟨e', hd, hreplies, hpending'⟩ :=
          hpending.waits (parse_part (by rw [hu]; exact hparse) hne)
        obtain ⟨e'', hrun, hreplies'⟩ := ih (.cons hparse hret hkeep hmake hrest) hstate hpending'
          (by rw [hcut, List.flatMap_cons])
        refine ⟨e'', run_cons_ok.mpr ⟨e', hd, hrun⟩, ?_⟩
        rw [hreplies', hreplies, if_neg henough]
        rfl

theorem served_cut_iff {sizes : List Nat} (h : ∀ size ∈ sizes, 0 < size) (chunks : List Bytes) :
    (∀ before after, chunks = before ++ after →
        sizes.length ≤ completed sizes before.flatten.length + after.length) ↔
      served sizes 0 (chunks.map List.length) = sizes.length := by
  rw [served_eq_length_iff h]
  constructor
  · intro h before after hsplit
    obtain ⟨before', after', rfl, rfl, rfl⟩ := List.map_eq_append_iff.mp hsplit
    have hle := h before' after' rfl
    simpa only [List.length_flatten, List.length_map] using hle
  · rintro h before after rfl
    have hle := h (before.map List.length) (after.map List.length) List.map_append
    rwa [← List.length_flatten, List.length_map] at hle

/-- For requests of a connection that is kept, and any way to cut their bytes: each of them has been
answered when the last byte is delivered, with the response that it has when it comes alone, exactly
when each of them can be answered, and at no time more of them are incomplete than deliveries are
left. -/
theorem answered_alike_iff {chunks : List Bytes} (hsite : Site fs sourceDir)
    (hexist : ∀ r ∈ rs, ResourceExists fs sourceDir r)
    (hcut : chunks.flatten = rs.flatMap fun r => r.bytes) :
    (∃ e alone, run (deliver fs) (start sourceDir) chunks = .ok e ∧
        run (deliver fs) (start sourceDir) (rs.map fun r => r.bytes) = .ok alone ∧
        e.replies = alone.replies ∧ alone.replies.length = rs.length) ↔
      (∀ r ∈ rs, Answerable fs sourceDir r) ∧
        ∀ before after, chunks = before ++ after →
          rs.length ≤ completed (rs.map fun r => r.bytes.length) before.flatten.length +
            after.length := by
  have hfresh := fresh_new sourceDir
  have hpos : ∀ size ∈ rs.map fun r => r.bytes.length, 0 < size := by
    intro size hsize
    obtain ⟨r, -, rfl⟩ := List.mem_map.mp hsize
    exact r.length_pos
  have hall := served_cut_iff hpos chunks
  rw [List.length_map] at hall
  rw [hall]
  constructor
  · rintro ⟨e, alone, hrun, halone, hsame, hlength⟩
    have hanswer := answerable_of_run_alone hsite hexist hfresh rfl halone
    obtain ⟨replies, hserves⟩ := serves_of_answerable hsite hexist hanswer hfresh
    obtain ⟨e', hrun', hreplies⟩ :=
      hserves.run_cut (e := start sourceDir) (p := []) rfl (fun t => rfl) hcut
    cases hrun.symm.trans hrun'
    refine ⟨hanswer, ?_⟩
    have hcount := congrArg List.length (hsame.symm.trans hreplies)
    have hle := served_le (rs.map fun r => r.bytes.length) 0 (chunks.map List.length)
    rw [List.length_map] at hle
    rw [hlength, List.length_append, List.length_take, hserves.length_eq] at hcount
    simp only [start, List.length_nil] at hcount
    omega
  · rintro ⟨hanswer, hcount⟩
    obtain ⟨replies, hserves⟩ := serves_of_answerable hsite hexist hanswer hfresh
    obtain ⟨alone, halone, hreplies⟩ := hserves.run_alone (e := start sourceDir) rfl rfl
    obtain ⟨e, hrun, hreplies'⟩ :=
      hserves.run_cut (e := start sourceDir) (p := []) rfl (fun t => rfl) hcut
    refine ⟨e, alone, hrun, halone, ?_, by rw [hreplies]; exact hserves.length_eq⟩
    rw [hreplies, hreplies', List.length_nil, hcount, ← hserves.length_eq, List.take_length]

/-- A request for the root, on a connection that is to be kept. -/
def getRoot : KeepAliveRequest where
  line := ofString "GET / HTTP/1.1"
  fields := [ofString "Connection: keep-alive"]
  isLine := by decide +kernel
  line_matches := by decide +kernel
  fields_match := by decide +kernel
  body := []
  length := by decide +kernel
  method := ofString "GET"
  target := ofString "/"
  groups := by decide +kernel
  connection := by decide +kernel

theorem rootSite_site : Site rootSite [] where
  badRequest := ⟨_, rfl, rfl, rfl, by decide +kernel⟩
  welcome := ⟨_, rfl, rfl, rfl, by decide +kernel⟩
  error := ⟨_, rfl, rfl, rfl, by decide +kernel⟩

theorem answered_alike_cut : ∃ e alone : Exchange,
    run (deliver rootSite) (start [])
      [getRoot.bytes.take 20, getRoot.bytes.drop 20 ++ getRoot.bytes.take 20,
        getRoot.bytes.drop 20] = .ok e ∧
    run (deliver rootSite) (start []) ([getRoot, getRoot].map fun r => r.bytes) = .ok alone ∧
    e.replies = alone.replies ∧ alone.replies.length = [getRoot, getRoot].length := by
  have hservable : Servable rootSite [] (resourcePath getRoot.target) :=
    ⟨_, rfl, rfl, rfl, by decide +kernel⟩
  have hexist : ∀ r ∈ [getRoot, getRoot], ResourceExists rootSite [] r := by
    intro r hr
    obtain rfl : r = getRoot := by simpa using hr
    exact ⟨_, rfl, rfl, rfl⟩
  refine (answered_alike_iff rootSite_site hexist (by decide +kernel)).mpr ⟨?_, ?_⟩
  · intro r hr
    obtain rfl : r = getRoot := by simpa using hr
    have hlength : contentLength (headerMap getRoot.fields) = none := by
      rw [contentLength, show headerMap getRoot.fields (ofString "Content-Length") = none by
        decide +kernel]
      rfl
    exact ⟨fun e => by rw [hlength]; simp, fun _ => hservable⟩
  · have hpos : ∀ size ∈ [getRoot, getRoot].map fun r => r.bytes.length, 0 < size := by
      decide +kernel
    refine (served_cut_iff hpos _).mpr ?_
    decide +kernel

/-- Two requests in one delivery have one response. -/
theorem second_request_unanswered : ∃ e alone : Exchange,
    run (deliver rootSite) (start []) [getRoot.bytes ++ getRoot.bytes] = .ok e ∧
    run (deliver rootSite) (start []) [getRoot.bytes, getRoot.bytes] = .ok alone ∧
    e.replies.length = 1 ∧ alone.replies.length = 2 := by
  have htogether : (run (deliver rootSite) (start []) [getRoot.bytes ++ getRoot.bytes] >>=
      fun e => .ok e.replies.length) = .ok 1 := by decide +kernel
  have halone : (run (deliver rootSite) (start []) [getRoot.bytes, getRoot.bytes] >>=
      fun e => .ok e.replies.length) = .ok 2 := by decide +kernel
  obtain ⟨e, he, hcount⟩ := bind_eq_ok.mp htogether
  obtain ⟨alone, hrun, hcount'⟩ := bind_eq_ok.mp halone
  exact ⟨e, alone, he, hrun, Except.ok.inj hcount, Except.ok.inj hcount'⟩

end Exchange

end Mymuduo
