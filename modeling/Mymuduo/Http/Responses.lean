import Mymuduo.Base.Decimal
import Mymuduo.Http.Headers
import Mymuduo.Http.ServedFile
import Mymuduo.Lib.Messages

/-! The text of the responses.  A client that takes the lines of a response up to the empty one, and
then as many bytes as they announce, comes to the beginning of the next response. -/

namespace Mymuduo

open Lib HttpConnection

/-- A response: a status line, headers, and a body of the length that the headers announce. -/
structure Response where
  line : Bytes
  headers : List (Bytes × Bytes)
  body : Bytes
  isLine : IsLine line
  line_ne_nil : line ≠ []
  nodup : (headers.map Prod.fst).Nodup
  isName : ∀ header ∈ headers, IsName header.1
  isValue : ∀ header ∈ headers, IsValue header.2
  length : (ofString "Content-Length", toDecimal body.length) ∈ headers

namespace Response

/-- The lines before the empty one. -/
def lines (r : Response) : List Bytes := r.line :: r.headers.map headerLine

def bytes (r : Response) : Bytes := ofLines r.lines ++ kCRLF ++ r.body

theorem lines_isLine (r : Response) : ∀ line ∈ r.lines, IsLine line ∧ line ≠ [] := by
  intro line hline
  rcases List.mem_cons.mp hline with rfl | hline
  · exact ⟨r.isLine, r.line_ne_nil⟩
  · obtain ⟨header, hheader, rfl⟩ := List.mem_map.mp hline
    refine ⟨isLine_headerLine (r.isName header hheader) (r.isValue header hheader), ?_⟩
    simp [headerLine, (r.isName header hheader).ne_nil]

end Response

/-! ### The client -/

/-- The lines before the first empty one, and what follows it. -/
def readLines : Nat → Bytes → Option (List Bytes × Bytes)
  | 0, _ => none
  | fuel + 1, q => do
    let crlf ← search kCRLF q
    if crlf = 0 then
      return ([], q.drop 2)
    else
      let (lines, rest) ← readLines fuel (q.drop (crlf + 2))
      return (q.take crlf :: lines, rest)

/-- A response at the front of the input, and what follows it. -/
def readResponse (q : Bytes) : Option (Bytes × Bytes) := do
  let (lines, rest) ← readLines (q.length + 1) q
  let value ← headerMap lines.tail (ofString "Content-Length")
  let n ← magnitude value
  if n ≤ rest.length then return (q.take (q.length - rest.length + n), rest.drop n) else none

/-- The responses that the input is made of. -/
def readResponses (q : Bytes) : Option (List Bytes) := readAll readResponse q.length q

theorem readLines_ofLines {lines : List Bytes} {fuel : Nat}
    (hlines : ∀ line ∈ lines, IsLine line ∧ line ≠ []) (hfuel : lines.length < fuel) (t : Bytes) :
    readLines fuel (ofLines lines ++ kCRLF ++ t) = some (lines, t) := by
  induction lines generalizing fuel with
  | nil =>
    obtain ⟨fuel, rfl⟩ : ∃ k, fuel = k + 1 := ⟨fuel - 1, by simp at hfuel; omega⟩
    have hempty : search kCRLF (ofLines [] ++ kCRLF ++ t) = some 0 :=
      search_line (show IsLine [] by decide) t
    rw [readLines, hempty]
    rfl
  | cons line lines ih =>
    obtain ⟨fuel, rfl⟩ : ∃ k, fuel = k + 1 := ⟨fuel - 1, by simp at hfuel; omega⟩
    obtain ⟨hline, hne⟩ := hlines line (List.mem_cons_self ..)
    have htext : ofLines (line :: lines) ++ kCRLF ++ t =
        line ++ kCRLF ++ (ofLines lines ++ kCRLF ++ t) := by
      rw [ofLines_cons]
      simp only [List.append_assoc]
    have htake : (line ++ kCRLF ++ (ofLines lines ++ kCRLF ++ t)).take line.length = line := by
      rw [List.append_assoc, List.take_left]
    have hmore := ih (fun l hl => hlines l (List.mem_cons_of_mem _ hl))
      (Nat.lt_of_succ_lt_succ hfuel)
    rw [htext, readLines, search_line hline]
    show (if line.length = 0 then _ else _) = _
    rw [if_neg (fun h => hne (List.eq_nil_of_length_eq_zero h)), drop_line, hmore, htake]
    rfl

theorem length_lines_le (lines : List Bytes) : lines.length ≤ (ofLines lines).length := by
  induction lines with
  | nil => exact Nat.le_refl _
  | cons line lines ih =>
    rw [ofLines_cons, List.length_append, List.length_append, List.length_cons]
    have hcrlf : kCRLF.length = 2 := rfl
    omega

theorem readResponse_eq_some {q rest value : Bytes} {lines : List Bytes} {n : Nat}
    (hlines : readLines (q.length + 1) q = some (lines, rest))
    (hvalue : headerMap lines.tail (ofString "Content-Length") = some value)
    (hn : magnitude value = some n) (hle : n ≤ rest.length) :
    readResponse q = some (q.take (q.length - rest.length + n), rest.drop n) := by
  simp only [readResponse, hlines, hvalue, hn, hle, Option.bind_eq_bind, Option.bind_some, if_true,
    Option.pure_def]

/-- A response is taken off the front of whatever follows it. -/
theorem Response.readResponse_bytes (r : Response) (t : Bytes) :
    readResponse (r.bytes ++ t) = some (r.bytes, t) := by
  have htext : r.bytes ++ t = ofLines r.lines ++ kCRLF ++ (r.body ++ t) := by
    rw [Response.bytes]
    simp only [List.append_assoc]
  have hfuel : r.lines.length < (r.bytes ++ t).length + 1 := by
    have := length_lines_le r.lines
    rw [htext, List.length_append, List.length_append]
    omega
  have hlines : readLines ((r.bytes ++ t).length + 1) (r.bytes ++ t) = some (r.lines, r.body ++ t) := by
    rw [htext] at hfuel ⊢
    exact readLines_ofLines r.lines_isLine hfuel _
  have hvalue : headerMap r.lines.tail (ofString "Content-Length") =
      some (toDecimal r.body.length) :=
    (headerMap_headerLines r.nodup r.isName r.isValue).mpr r.length
  have hsize : (r.bytes ++ t).length - (r.body ++ t).length + r.body.length = r.bytes.length := by
    simp only [Response.bytes, List.length_append]
    omega
  have henough : r.body.length ≤ (r.body ++ t).length := by
    rw [List.length_append]
    omega
  rw [readResponse_eq_some hlines hvalue (read_toDecimal r.body.length).1 henough, hsize,
    List.take_left, List.drop_left]

theorem readResponses_flatten {texts : List Bytes}
    (h : ∀ text ∈ texts, ∃ r : Response, r.bytes = text) :
    readResponses texts.flatten = some texts := by
  have hall : readAll readResponse texts.flatten.length (texts.flatMap id) = some texts := by
    refine readAll_flatMap ?_ ?_ ?_
    · intro text htext rest
      obtain ⟨r, rfl⟩ := h text htext
      exact r.readResponse_bytes rest
    · intro text htext
      obtain ⟨r, rfl⟩ := h text htext
      simp [Response.bytes, kCRLF]
    · rw [List.flatMap_id]
  rw [readResponses, ← hall, List.flatMap_id]

/-! ### What `makeResponse` writes -/

instance (value : Bytes) : Decidable (IsValue value) :=
  decidable_of_iff (value ≠ [] ∧ value.head? ≠ some 32 ∧ (13 : UInt8) ∉ value ∧ (10 : UInt8) ∉ value)
    ⟨fun h => ⟨h.1, h.2.1, h.2.2.1, h.2.2.2⟩, fun h => ⟨h.ne_nil, h.blank, h.cr, h.lf⟩⟩

instance (name : Bytes) : Decidable (IsName name) :=
  decidable_of_iff (name ≠ [] ∧ (58 : UInt8) ∉ name ∧ (13 : UInt8) ∉ name ∧ (10 : UInt8) ∉ name)
    ⟨fun h => ⟨h.1, h.2.1, h.2.2.1, h.2.2.2⟩, fun h => ⟨h.ne_nil, h.colon, h.cr, h.lf⟩⟩

theorem isValue_contentType (path : Bytes) : IsValue (contentType path) := by
  have hplain : IsValue (ofString "text/plain") := by decide +kernel
  have htypes : ∀ entry ∈ kMimeType, IsValue entry.2 := by decide +kernel
  unfold contentType
  split
  · exact hplain
  · rename_i s hs
    cases hlookup : kMimeType.lookup s with
    | none => exact hplain
    | some type =>
      obtain ⟨before, after, hentry, -⟩ := List.lookup_eq_some_iff.mp hlookup
      exact htypes (s, type) (by rw [hentry]; simp)

theorem isValue_toDecimal (n : Nat) : IsValue (toDecimal n) := by
  have hdigits := digits_toDecimal n
  refine ⟨toDecimal_natCast_ne_nil n, ?_, ?_, ?_⟩
  · intro hhead
    exact absurd (hdigits 32 (List.mem_of_mem_head? hhead)) (by decide)
  · intro hmem
    exact absurd (hdigits 13 hmem) (by decide)
  · intro hmem
    exact absurd (hdigits 10 hmem) (by decide)

namespace HttpConnection

variable {fs : FileSystem} {c d : HttpConnection} {ret : HttpCode}

/-- The headers of the response. -/
def responseHeaders (c : HttpConnection) : List (Bytes × Bytes) :=
  (if c.asksKeepAlive then
      [(ofString "Connection", ofString "keep-alive"),
        (ofString "Keep-Alive", ofString "max=6, timeout=120")]
    else
      [(ofString "Connection", ofString "close")]) ++
  [(ofString "Content-Type", contentType c.path),
    (ofString "Content-Length", toDecimal c.requestFileStat.size)]

theorem makeResponseHeader_eq (c : HttpConnection) :
    c.makeResponseHeader.2 = ofLines (c.responseHeaders.map headerLine) ++ kCRLF := by
  have hconnection : ofString "Connection: " = ofString "Connection" ++ ofString ": " := by
    decide +kernel
  have hkeep : ofString "Keep-Alive: max=6, timeout=120" =
      ofString "Keep-Alive" ++ (ofString ": " ++ ofString "max=6, timeout=120") := by decide +kernel
  have htype : ofString "Content-Type: " = ofString "Content-Type" ++ ofString ": " := by
    decide +kernel
  have hlength : ofString "Content-Length: " = ofString "Content-Length" ++ ofString ": " := by
    decide +kernel
  rw [makeResponseHeader, responseHeaders]
  dsimp only
  split <;>
    simp only [List.map_cons, List.map_nil, ofLines_cons, ofLines_nil, headerLine, hconnection,
      hkeep, htype, hlength, List.append_assoc, List.nil_append, List.append_nil, List.cons_append]

theorem responseHeaders_valid (c : HttpConnection) :
    (c.responseHeaders.map Prod.fst).Nodup ∧
      (∀ header ∈ c.responseHeaders, IsName header.1) ∧
      ∀ header ∈ c.responseHeaders, IsValue header.2 := by
  have htype := isValue_contentType c.path
  have hlength := isValue_toDecimal c.requestFileStat.size
  have hnames : c.responseHeaders.map Prod.fst =
        [ofString "Connection", ofString "Keep-Alive", ofString "Content-Type",
          ofString "Content-Length"] ∨
      c.responseHeaders.map Prod.fst =
        [ofString "Connection", ofString "Content-Type", ofString "Content-Length"] := by
    rw [responseHeaders]
    split
    · exact .inl rfl
    · exact .inr rfl
  have hname : (c.responseHeaders.map Prod.fst).Nodup ∧
      ∀ name ∈ c.responseHeaders.map Prod.fst, IsName name := by
    rcases hnames with hnames | hnames
    · rw [hnames]
      decide +kernel
    · rw [hnames]
      decide +kernel
  refine ⟨hname.1, fun header hheader => hname.2 _ (List.mem_map.mpr ⟨header, hheader, rfl⟩), ?_⟩
  rw [responseHeaders]
  simp only [List.mem_append, List.mem_cons, List.not_mem_nil, or_false]
  rintro header (hheader | rfl | rfl)
  · split at hheader
    · rcases List.mem_pair.mp hheader with rfl | rfl <;> decide +kernel
    · rw [List.mem_singleton.mp hheader]
      decide +kernel
  · exact htype
  · exact hlength

theorem makeResponseLine_spec (h : c.initResponse fs ret = .ok d) :
    ∃ line, d.makeResponseLine = .ok (line ++ kCRLF) ∧ IsLine line ∧ line ≠ [] := by
  have hcode : d.responseCode = codeOf ret := by rw [initResponse_frame h]
  rw [makeResponseLine, hcode]
  cases ret
  · exact ⟨_, rfl, by decide +kernel, by decide +kernel⟩
  · exact ⟨_, rfl, by decide +kernel, by decide +kernel⟩
  · exact ⟨_, rfl, by decide +kernel, by decide +kernel⟩
  · exact ⟨_, rfl, by decide +kernel, by decide +kernel⟩
  · exact ⟨_, rfl, by decide +kernel, by decide +kernel⟩

/-- A response that is written is one for the whole file at the path. -/
theorem makeResponse_response {bytes : Bytes} (hstat : ret = .kGetRequest → Statted fs c)
    (h : c.makeResponse fs ret = .ok (d, bytes)) :
    ∃ f, ∃ r : Response, d.file fs = some f ∧ r.body = f.data ∧ r.bytes = bytes := by
  obtain ⟨hret, d', text, body, hinit, htext, rfl, hbody, rfl⟩ := makeResponse_cases h
  obtain ⟨⟨f, hfile, hattributes⟩, -, -⟩ := initResponse_statted hret hstat hinit
  obtain ⟨line, hline, hisLine, hne⟩ := makeResponseLine_spec hinit
  cases htext.symm.trans hline
  have hsize : d'.requestFileStat.size = f.data.length := by rw [hattributes]; rfl
  have hfile' : file fs { d' with keepAlive := d'.asksKeepAlive } = some f := hfile
  have hdata : body = f.data := by
    rw [makeResponseBody, hfile'] at hbody
    dsimp only at hbody
    rw [hsize, List.take_length] at hbody
    split at hbody <;> cases hbody
    rfl
  obtain ⟨hnodup, hname, hvalue⟩ := d'.responseHeaders_valid
  have hlength : (ofString "Content-Length", toDecimal body.length) ∈ d'.responseHeaders := by
    rw [hdata, ← hsize, responseHeaders]
    simp
  refine ⟨f, ⟨line, d'.responseHeaders, body, hisLine, hne, hnodup, hname, hvalue, hlength⟩, hfile',
    hdata, ?_⟩
  rw [makeResponseHeader_eq, Response.bytes, Response.lines, ofLines_cons]
  simp only [List.append_assoc]

end HttpConnection

namespace Exchange

variable {fs : FileSystem} {sourceDir : Bytes} {c : HttpConnection} {ret : HttpCode}

/-- The call of `makeResponse` writes a response with the whole file at the path. -/
def AnswersFile (fs : FileSystem) (c : HttpConnection) (ret : HttpCode) : Prop :=
  ∃ d f, ∃ r : Response, c.makeResponse fs ret = .ok (d, r.bytes) ∧ d.file fs = some f ∧
    r.body = f.data

/-- Some call of `makeResponse` writes the text. -/
def Written (fs : FileSystem) (sourceDir text : Bytes) : Prop :=
  ∃ c ret d, Called fs sourceDir c ret ∧ c.makeResponse fs ret = .ok (d, text)

/-- No page is empty, so that it only has to be a file that can be opened. -/
theorem Called.answersFile_iff (h : Called fs sourceDir c ret)
    (hpages : HasErrorPages fs sourceDir)
    (hfull : ∀ f, c.answerFile fs ret = some f → f.data ≠ []) :
    AnswersFile fs c ret ↔
      ∀ f, c.answerFile fs ret = some f → f.isDir = false ∧ f.openable = true := by
  obtain ⟨f, hfile⟩ := h.answerFile_isSome hpages
  constructor
  · rintro ⟨d, -, r, hmake, -, -⟩ g hg
    obtain ⟨g', hg', hdir, hopen, -⟩ := h.answered_iff.mp ⟨_, hmake⟩
    cases hg.symm.trans hg'
    exact ⟨hdir, hopen⟩
  · intro hregular
    obtain ⟨hdir, hopen⟩ := hregular f hfile
    obtain ⟨⟨d, bytes⟩, hmake⟩ := h.answered_iff.mpr ⟨f, hfile, hdir, hopen, hfull f hfile⟩
    obtain ⟨g, r, hg, hbody, rfl⟩ := makeResponse_response h.statted hmake
    exact ⟨d, g, r, hmake, hg, hbody⟩

/-- With error pages, and no empty page to answer with: a call of `makeResponse` writes a response
that delimits itself and has the whole file at the path for its body, exactly when that file is a
regular one that can be opened; and a client that reads whatever responses have been written, one
after another, by their lengths, gets the list of them. -/
theorem responses_delimited (hpages : HasErrorPages fs sourceDir) :
    (∀ c ret, Called fs sourceDir c ret →
      (∀ f, c.answerFile fs ret = some f → f.data ≠ []) →
      (AnswersFile fs c ret ↔
        ∀ f, c.answerFile fs ret = some f → f.isDir = false ∧ f.openable = true)) ∧
    ∀ texts : List Bytes, (∀ text ∈ texts, Written fs sourceDir text) →
      readResponses texts.flatten = some texts := by
  refine ⟨fun c ret hcalled hfull => hcalled.answersFile_iff hpages hfull, ?_⟩
  intro texts htexts
  refine readResponses_flatten ?_
  intro text htext
  obtain ⟨c, ret, d, hcalled, hmake⟩ := htexts text htext
  obtain ⟨f, r, -, -, hr⟩ := makeResponse_response hcalled.statted hmake
  exact ⟨r, hr⟩

/-- A site whose welcome page the server may not read. -/
def lockedSite : FileSystem := fun path =>
  if path = ofString "/welcome.html" then some ⟨false, false, false, ofString "in"⟩
  else siteOf [(ofString "/index.html", ofString "hi"), (ofString "/register.html", ofString "who"),
    (ofString "/400.html", ofString "no"), (ofString "/403.html", ofString "stop"),
    (ofString "/404.html", ofString "gone")] path

theorem lockedSite_hasErrorPages : HasErrorPages lockedSite [] := by
  intro ret hret hget
  cases ret with
  | kGetRequest => exact absurd rfl hget
  | kNoRequest => exact absurd rfl hret
  | _ => decide +kernel

theorem lockedSite_full (path : Bytes) (f : File) (h : lockedSite path = some f) : f.data ≠ [] := by
  unfold lockedSite at h
  split at h
  · cases h
    decide +kernel
  · obtain ⟨data, hdata, rfl⟩ := Option.map_eq_some_iff.mp h
    obtain ⟨before, after, hentry, -⟩ := List.lookup_eq_some_iff.mp hdata
    have hmem : (path, data) ∈ before ++ (path, data) :: after := by simp
    rw [← hentry] at hmem
    have hall : ∀ entry ∈ [(ofString "/index.html", ofString "hi"),
        (ofString "/register.html", ofString "who"), (ofString "/400.html", ofString "no"),
        (ofString "/403.html", ofString "stop"), (ofString "/404.html", ofString "gone")],
        entry.2 ≠ [] := by decide +kernel
    exact hall _ hmem

/-- The page at the root, read twice. -/
theorem responses_delimited_get : ∃ c d text, Called lockedSite [] c .kGetRequest ∧
    AnswersFile lockedSite c .kGetRequest ∧ c.makeResponse lockedSite .kGetRequest = .ok (d, text) ∧
    readResponses [text, text].flatten = some [text, text] := by
  have heval : (parse lockedSite (start []).http
      ((start []).input ++ ofString "GET / HTTP/1.1\r\n\r\n") >>= fun r =>
        r.2.1.makeResponse lockedSite .kGetRequest >>= fun _ =>
        .ok (r.1, r.2.1.answerFile lockedSite .kGetRequest)) =
      .ok (.kGetRequest, some ⟨false, true, true, ofString "hi"⟩) := by decide +kernel
  obtain ⟨⟨ret, c, rest⟩, hparse, heval⟩ := bind_eq_ok.mp heval
  obtain ⟨⟨d, text⟩, hmake, heval⟩ := bind_eq_ok.mp heval
  simp only [Except.ok.injEq, Prod.mk.injEq] at heval
  obtain ⟨rfl, hfile⟩ := heval
  have hcalled : Called lockedSite [] c .kGetRequest := ⟨_, _, rest, .refl _, hparse, by decide⟩
  obtain ⟨hanswers, hread⟩ := responses_delimited lockedSite_hasErrorPages
  refine ⟨c, d, text, hcalled, ?_, hmake, hread _ ?_⟩
  · refine (hanswers c _ hcalled fun f hf => lockedSite_full _ f hf).mpr ?_
    intro f hf
    cases hf.symm.trans hfile
    exact ⟨rfl, rfl⟩
  · intro t ht
    rcases List.mem_pair.mp ht with rfl | rfl
    · exact ⟨c, _, d, hcalled, hmake⟩
    · exact ⟨c, _, d, hcalled, hmake⟩

/-- A form that leads to the welcome page finds it, and cannot open it. -/
theorem locked_page_fatal : HasErrorPages lockedSite [] ∧
    (∀ path f, lockedSite path = some f → f.data ≠ []) ∧
    ∃ c, Called lockedSite [] c .kGetRequest ∧
      c.makeResponse lockedSite .kGetRequest = .error .fatal ∧
      ¬AnswersFile lockedSite c .kGetRequest := by
  have heval : (parse lockedSite (start []).http ((start []).input ++
      ofString ("POST /register.html HTTP/1.1\r\nContent-Length: 3\r\n" ++
        "Content-Type: application/x-www-form-urlencoded\r\n\r\na=b")) >>= fun r =>
        .ok (r.1, (r.2.1.makeResponse lockedSite .kGetRequest).map Prod.snd)) =
      .ok (.kGetRequest, .error .fatal) := by decide +kernel
  obtain ⟨⟨ret, c, rest⟩, hparse, heval⟩ := bind_eq_ok.mp heval
  simp only [Except.ok.injEq, Prod.mk.injEq] at heval
  obtain ⟨rfl, hmake⟩ := heval
  have hfatal : c.makeResponse lockedSite .kGetRequest = .error .fatal := map_eq_error.mp hmake
  refine ⟨lockedSite_hasErrorPages, lockedSite_full, c,
    ⟨_, _, rest, .refl _, hparse, by decide⟩, hfatal, ?_⟩
  rintro ⟨d, f, r, hr, -, -⟩
  cases hfatal.symm.trans hr

end Exchange

end Mymuduo
