import Mymuduo.Http.Pipeline
import Mymuduo.Http.SourceDirectory

/-! The file that answers a request.  `parseRequestLine` and `userVerify` look at it with `::stat`
while the request is parsed, and `makeResponseBody` opens and maps it afterwards: what was looked at
is what is opened, but not all that can be looked at can be mapped. -/

namespace Mymuduo

open Lib

namespace HttpConnection

variable {fs : FileSystem} {c c' d : HttpConnection} {q q' : Bytes} {n : Nat} {ret : HttpCode}

/-! ### The attributes are those of the file -/

/-- As soon as a request line has been read, the attributes are those of the file at the path. -/
def Known (fs : FileSystem) (c : HttpConnection) : Prop :=
  c.parseState ≠ .kRequestLine → Statted fs c

theorem parseRequestLine_statted {line : Bytes}
    (h : c.parseRequestLine fs line = (.kNoRequest, c')) : Statted fs c' := by
  unfold parseRequestLine at h
  split at h
  · cases h
  · dsimp only at h
    split at h
    · cases h
    · rename_i f hfile
      split at h
      · cases h
      · split at h
        · cases h
        · cases h
          exact ⟨f, hfile, rfl⟩

theorem userVerify_statted (h : (c.userVerify fs).1 = .kNoRequest) :
    Statted fs (c.userVerify fs).2 := by
  unfold userVerify at h ⊢
  dsimp only at h ⊢
  split at h
  · cases h
  · rename_i f hfile
    exact ⟨f, hfile, rfl⟩

theorem parseRequestBody_statted {line : Bytes} (h : Statted fs c)
    (hbody : c.parseRequestBody fs line = .ok (.kGetRequest, c')) : Statted fs c' := by
  obtain ⟨m, -, hend⟩ := parseRequestBody_cases hbody
  cases hend with
  | plain => exact h
  | verified hlength hverify => exact userVerify_statted hverify

theorem consume_statted (h : Known fs c) (hfinish : c.parseState ≠ .kFinish)
    (hconsume : consume fs c q = .ok (some (n, ret, c')))
    (hret : ret = .kNoRequest ∨ ret = .kGetRequest) : Statted fs c' := by
  cases consume_cases hfinish hconsume with
  | requestLine hstate hcrlf hparse =>
    rcases hret with rfl | rfl
    · exact parseRequestLine_statted hparse
    · rcases parseRequestLine_cases fs c _ with
        ⟨-, hline⟩ | ⟨method, path, version, -, ret', stat, hline, hnot, -⟩
      · cases hparse.symm.trans hline
      · cases hparse.symm.trans hline
        exact absurd rfl hnot
  | header hstate hcrlf hparse =>
    have hstat := h (by simp [hstate])
    rcases parseRequestHeader_cases hparse with
      ⟨-, -, -, rfl⟩ | ⟨-, -, -, rfl⟩ | ⟨-, -, hbad, rfl⟩ | ⟨-, key, value, -, -, rfl⟩ <;>
      exact hstat
  | body hstate hremain henough hparse =>
    rcases hret with rfl | rfl
    · refine absurd rfl (parseRequestBody_ne_kNoRequest hremain ?_ hparse)
      rw [List.length_take]
      omega
    · exact parseRequestBody_statted (h (by simp [hstate])) hparse

/-- A parse that waits keeps the attributes in step with the path, and a request that has ended well
leaves those of the file that answers it. -/
theorem parse_statted (h : Known fs c) (hparse : parse fs c q = .ok (ret, c', q')) :
    (ret = .kNoRequest → Known fs c') ∧ (ret = .kGetRequest → Statted fs c') := by
  induction c, q using parse_induction fs with
  | finish c q hfinish =>
    rw [parse_finish hfinish] at hparse
    cases hparse
    exact ⟨by simp, fun _ => h (by simp [hfinish])⟩
  | fails c q e hfinish hconsume =>
    rw [parse_error hfinish hconsume] at hparse
    cases hparse
  | waits c q hfinish hconsume =>
    rw [parse_waits hfinish hconsume] at hparse
    cases hparse
    exact ⟨fun _ => h, by simp⟩
  | returns c q n ret d hfinish hret hconsume =>
    rw [parse_returns hfinish hconsume hret] at hparse
    cases hparse
    exact ⟨fun hno => absurd hno hret, fun hget => consume_statted h hfinish hconsume (.inr hget)⟩
  | continues c q n d hfinish hconsume ih =>
    rw [parse_continues hfinish hconsume] at hparse
    exact ih (fun _ => consume_statted h hfinish hconsume (.inl rfl)) hparse

/-! ### The answer -/

/-- The path of the file that answers a request which has ended with `ret`. -/
def answerPath (c : HttpConnection) (ret : HttpCode) : Bytes :=
  if ret = .kGetRequest then c.path else errorPage ret

/-- The file that answers a request which has ended with `ret`. -/
def answerFile (fs : FileSystem) (c : HttpConnection) (ret : HttpCode) : Option File :=
  fs (cString (c.sourceDir ++ c.answerPath ret))

theorem initResponse_error (hret : ret ≠ .kNoRequest) (hget : ret ≠ .kGetRequest) :
    c.initResponse fs ret =
      match fs (cString (c.sourceDir ++ errorPage ret)) with
      | none => .error .fatal
      | some f => .ok { c with
          responseCode := codeOf ret
          path := errorPage ret
          requestFileStat := f.stat } := by
  have hcode : codeOf ret ≠ 200 := by
    cases ret with
    | kGetRequest => exact absurd rfl hget
    | kNoRequest => exact absurd rfl hret
    | _ => decide
  unfold initResponse file
  dsimp only
  rw [if_pos hcode]
  rfl

/-- A response is for the file that answers, with its attributes. -/
theorem initResponse_statted (hret : ret ≠ .kNoRequest) (hstat : ret = .kGetRequest → Statted fs c)
    (h : c.initResponse fs ret = .ok d) :
    Statted fs d ∧ d.sourceDir = c.sourceDir ∧ d.path = c.answerPath ret := by
  obtain ⟨hdir, hpath⟩ := initResponse_path hret h
  refine ⟨?_, hdir, hpath⟩
  by_cases hget : ret = .kGetRequest
  · subst hget
    cases h
    exact hstat rfl
  · rw [initResponse_error hret hget] at h
    split at h
    · cases h
    · rename_i f hfile
      cases h
      exact ⟨f, hfile, rfl⟩

/-- A request that has ended is answered exactly when its file can be opened and mapped. -/
theorem makeResponse_isOk_iff (hret : ret ≠ .kNoRequest)
    (hstat : ret = .kGetRequest → Statted fs c) :
    (∃ r, c.makeResponse fs ret = .ok r) ↔ Servable fs c.sourceDir (c.answerPath ret) := by
  have hcheck : (ret != HttpCode.kNoRequest) = true := bne_iff_ne.mpr hret
  cases hinit : c.initResponse fs ret with
  | ok d =>
    obtain ⟨hd, hdir, hpath⟩ := initResponse_statted hret hstat hinit
    rw [makeResponse_of_init hret hinit hd, hdir, hpath]
  | error e =>
    have hget : ret ≠ .kGetRequest := by
      rintro rfl
      cases hinit
    rw [initResponse_error hret hget] at hinit
    constructor
    · rintro ⟨r, hr⟩
      rw [makeResponse, hcheck, check_true, ok_bind, initResponse_error hret hget, hinit] at hr
      cases hr
    · rintro ⟨f, hfile, -⟩
      rw [answerPath, if_neg hget] at hfile
      rw [hfile] at hinit
      cases hinit

theorem makeResponse_statted {bytes : Bytes} (hstat : ret = .kGetRequest → Statted fs c)
    (h : c.makeResponse fs ret = .ok (d, bytes)) : Statted fs d := by
  obtain ⟨hret, d', line, body, hinit, -, rfl, -⟩ := makeResponse_cases h
  exact (initResponse_statted hret hstat hinit).1

end HttpConnection

namespace Exchange

open HttpConnection

variable {fs : FileSystem} {sourceDir : Bytes} {c : HttpConnection} {ret : HttpCode}

theorem deliver_known (e : Exchange) (chunk : Bytes) (e' : Exchange) (h : Known fs e.http)
    (hd : deliver fs e chunk = .ok e') : Known fs e'.http := by
  obtain ⟨ret, c, rest, hparse, -, hend⟩ := deliver_cases hd
  obtain ⟨hwaits, hget⟩ := parse_statted h hparse
  rcases hend with ⟨hno, hhttp, -⟩ | ⟨-, d, bytes, hmake, -, ⟨-, hhttp, -⟩ | ⟨-, hhttp, -⟩⟩
  · rw [hhttp]
    exact hwaits hno
  · rw [hhttp]
    exact fun _ => makeResponse_statted hget hmake
  · rw [hhttp]
    exact fun hstate => absurd rfl hstate

/-- `makeResponse` is called with `ret` in the state `c`, at some delivery of some conversation. -/
def Called (fs : FileSystem) (sourceDir : Bytes) (c : HttpConnection) (ret : HttpCode) : Prop :=
  ∃ e chunk rest, Reachable (deliver fs) (start sourceDir) e ∧
    parse fs e.http (e.input ++ chunk) = .ok (ret, c, rest) ∧ ret ≠ .kNoRequest

theorem Called.ne_kNoRequest (h : Called fs sourceDir c ret) : ret ≠ .kNoRequest := by
  obtain ⟨-, -, -, -, -, hret⟩ := h
  exact hret

theorem Called.sourceDir_eq (h : Called fs sourceDir c ret) : c.sourceDir = sourceDir := by
  obtain ⟨e, chunk, rest, hreach, hparse, -⟩ := h
  rw [parse_sourceDir hparse, reachable_sourceDir hreach]

theorem Called.statted (h : Called fs sourceDir c ret) (hget : ret = .kGetRequest) :
    Statted fs c := by
  obtain ⟨e, chunk, rest, hreach, hparse, -⟩ := h
  have hknown : Known fs e.http :=
    hreach.invariant (I := fun e => Known fs e.http) deliver_known (fun hstate => absurd rfl hstate)
  exact (parse_statted hknown hparse).2 hget

/-- A request that has ended is answered exactly when its file can be opened and mapped. -/
theorem Called.answered_iff (h : Called fs sourceDir c ret) :
    (∃ r, c.makeResponse fs ret = .ok r) ↔ Servable fs c.sourceDir (c.answerPath ret) :=
  makeResponse_isOk_iff h.ne_kNoRequest h.statted

/-- The pages for the codes that are not 200 exist. -/
def HasErrorPages (fs : FileSystem) (sourceDir : Bytes) : Prop :=
  ∀ ret, ret ≠ .kNoRequest → ret ≠ .kGetRequest → (fs (cString (sourceDir ++ errorPage ret))).isSome

/-- Every file is a regular one that can be read. -/
def AllReadable (fs : FileSystem) : Prop :=
  ∀ path f, fs path = some f → f.isDir = false ∧ f.othRead = true ∧ f.openable = true

/-- The file that answers exists. -/
theorem Called.answerFile_isSome (h : Called fs sourceDir c ret)
    (hpages : HasErrorPages fs sourceDir) : ∃ f, c.answerFile fs ret = some f := by
  rw [answerFile, answerPath]
  split
  · rename_i hget
    obtain ⟨f, hfile, -⟩ := h.statted hget
    exact ⟨f, hfile⟩
  · rename_i hget
    rw [h.sourceDir_eq]
    exact Option.isSome_iff_exists.mp (hpages ret h.ne_kNoRequest hget)

/-- With regular files that can be read, the error pages among them, a request that has ended is
answered exactly when the file that answers is not empty. -/
theorem makeResponse_completes_iff (h : Called fs sourceDir c ret) (hreadable : AllReadable fs)
    (hpages : HasErrorPages fs sourceDir) :
    (∃ r, c.makeResponse fs ret = .ok r) ↔
      ∀ f, c.answerFile fs ret = some f → f.data ≠ [] := by
  obtain ⟨f, hfile⟩ := h.answerFile_isSome hpages
  obtain ⟨hdir, -, hopen⟩ := hreadable _ _ hfile
  rw [h.answered_iff]
  constructor
  · rintro ⟨g, hg, -, -, hdata⟩ f' hf'
    cases hg.symm.trans hf'
    exact hdata
  · intro hdata
    exact ⟨f, hfile, hdir, hopen, hdata f hfile⟩

/-- A site with its error pages, and an empty page. -/
def emptyPageSite : FileSystem :=
  siteOf [(ofString "/index.html", ofString "hi"), (ofString "/empty.html", []),
    (ofString "/400.html", ofString "no"), (ofString "/403.html", ofString "stop"),
    (ofString "/404.html", ofString "gone")]

theorem siteOf_readable (files : List (Bytes × Bytes)) : AllReadable (siteOf files) := by
  intro path f hf
  obtain ⟨data, -, rfl⟩ := Option.map_eq_some_iff.mp hf
  exact ⟨rfl, rfl, rfl⟩

theorem emptyPageSite_readable : AllReadable emptyPageSite := siteOf_readable _

theorem emptyPageSite_hasErrorPages : HasErrorPages emptyPageSite [] := by
  intro ret hret hget
  cases ret with
  | kGetRequest => exact absurd rfl hget
  | kNoRequest => exact absurd rfl hret
  | _ => decide +kernel

/-- The page at the root is answered. -/
theorem makeResponse_completes_get : ∃ c, Called emptyPageSite [] c .kGetRequest ∧
    ∃ r, c.makeResponse emptyPageSite .kGetRequest = .ok r := by
  have heval : (parse emptyPageSite (start []).http
      ((start []).input ++ ofString "GET / HTTP/1.1\r\n\r\n") >>= fun r =>
        .ok (r.1, (r.2.1.answerFile emptyPageSite .kGetRequest).map File.data)) =
      .ok (.kGetRequest, some (ofString "hi")) := by decide +kernel
  obtain ⟨⟨ret, c, rest⟩, hparse, heval⟩ := bind_eq_ok.mp heval
  simp only [Except.ok.injEq, Prod.mk.injEq] at heval
  obtain ⟨rfl, hdata⟩ := heval
  have hcalled : Called emptyPageSite [] c .kGetRequest :=
    ⟨_, _, rest, .refl _, hparse, by decide⟩
  refine ⟨c, hcalled, (makeResponse_completes_iff hcalled emptyPageSite_readable
    emptyPageSite_hasErrorPages).mpr ?_⟩
  intro f hf
  rw [hf, Option.map_some, Option.some_inj] at hdata
  rw [hdata]
  decide +kernel

/-- A page without a byte is found, and cannot be mapped. -/
theorem empty_page_fatal : AllReadable emptyPageSite ∧ HasErrorPages emptyPageSite [] ∧
    ∃ c rest, parse emptyPageSite (start []).http
        ((start []).input ++ ofString "GET /empty.html HTTP/1.1\r\n\r\n") =
          .ok (.kGetRequest, c, rest) ∧
      c.makeResponse emptyPageSite .kGetRequest = .error .fatal := by
  have heval : (parse emptyPageSite (start []).http
      ((start []).input ++ ofString "GET /empty.html HTTP/1.1\r\n\r\n") >>= fun r =>
        .ok (r.1, (r.2.1.makeResponse emptyPageSite .kGetRequest).map Prod.snd)) =
      .ok (.kGetRequest, .error .fatal) := by decide +kernel
  obtain ⟨⟨ret, c, rest⟩, hparse, heval⟩ := bind_eq_ok.mp heval
  simp only [Except.ok.injEq, Prod.mk.injEq] at heval
  obtain ⟨rfl, hmake⟩ := heval
  exact ⟨emptyPageSite_readable, emptyPageSite_hasErrorPages, c, rest, hparse,
    map_eq_error.mp hmake⟩

end Exchange

end Mymuduo
