import Mymuduo.Base.Decimal
import Mymuduo.Http.Headers
import Mymuduo.Http.Pipeline

/-! A request that carries no form is read back from its text: the parser finds in it what its
sender has put there, and leaves the bytes that follow. -/

namespace Mymuduo

open Lib HttpConnection

/-- A word of a request line. -/
structure IsWord (word : Bytes) : Prop where
  ne_nil : word ≠ []
  space : (32 : UInt8) ∉ word
  cr : (13 : UInt8) ∉ word
  lf : (10 : UInt8) ∉ word

/-- What the sender of a request other than a POST wants to say. -/
structure PlainRequest where
  method : Bytes
  path : Bytes
  version : Bytes
  headers : List (Bytes × Bytes)
  body : Bytes
  isWord_method : IsWord method
  isWord_path : IsWord path
  isWord_version : IsWord version
  method_ne_post : method ≠ ofString "POST"
  nodup : (headers.map Prod.fst).Nodup
  isName : ∀ header ∈ headers, IsName header.1
  isValue : ∀ header ∈ headers, IsValue header.2
  length : body = [] ∧ ofString "Content-Length" ∉ headers.map Prod.fst ∨
    body ≠ [] ∧ body.length < 2147483648 ∧
      (ofString "Content-Length", toDecimal body.length) ∈ headers

/-- The path of the page that is served for a path: `/` is `/index.html`, and a path without a dot
is that of a page. -/
def servedPath (path : Bytes) : Bytes :=
  if path = ofString "/" then ofString "/index.html"
  else if (46 : UInt8) ∈ path then path
  else path ++ ofString ".html"

theorem resourcePath_eq_servedPath (path : Bytes) : resourcePath path = servedPath path := by
  rw [resourcePath, servedPath]
  split
  · rename_i hroot
    subst hroot
    decide +kernel
  · by_cases hdot : (46 : UInt8) ∈ path
    · rw [if_neg (not_not.mpr hdot), if_pos hdot]
    · rw [if_pos hdot, if_neg hdot]

/-! ### The text -/

namespace PlainRequest

variable (r : PlainRequest)

def requestLine : Bytes :=
  r.method ++ ofString " " ++ r.path ++ ofString " HTTP/" ++ r.version

theorem matchRequestLine_requestLine :
    matchRequestLine r.requestLine = some (r.method, r.path, r.version) := by
  have htext : r.requestLine =
      r.method ++ 32 :: (r.path ++ 32 :: (ofString "HTTP/" ++ r.version)) := by
    simp only [requestLine, List.append_assoc]
    rfl
  have hprotocol : (ofString "HTTP/").length = 5 := by decide +kernel
  have htake : (ofString "HTTP/" ++ r.version).take 5 = ofString "HTTP/" := by
    rw [← hprotocol, List.take_left]
  have hdrop : (ofString "HTTP/" ++ r.version).drop 5 = r.version := by
    rw [← hprotocol, List.drop_left]
  rw [matchRequestLine, htext, dropWhile_ne_append r.isWord_method.space,
    takeWhile_ne_append r.isWord_method.space]
  dsimp only
  rw [dropWhile_ne_append r.isWord_path.space, takeWhile_ne_append r.isWord_path.space]
  dsimp only
  rw [htake, hdrop]
  exact if_pos ⟨r.isWord_method.ne_nil, r.isWord_path.ne_nil, rfl, r.isWord_version.ne_nil,
    r.isWord_version.space⟩

theorem isLine_requestLine : IsLine r.requestLine := by
  refine isLine_of_cr ?_
  simp only [requestLine, List.mem_append, not_or]
  exact ⟨⟨⟨⟨r.isWord_method.cr, by decide +kernel⟩, r.isWord_path.cr⟩, by decide +kernel⟩,
    r.isWord_version.cr⟩

def head : RequestHead where
  line := r.requestLine
  fields := r.headers.map headerLine
  isLine := r.isLine_requestLine
  line_matches := by rw [r.matchRequestLine_requestLine]; rfl
  fields_match := by
    intro field hfield
    obtain ⟨header, hheader, rfl⟩ := List.mem_map.mp hfield
    have hname := r.isName header hheader
    have hvalue := r.isValue header hheader
    exact ⟨isLine_headerLine hname hvalue, by rw [matchHeader_headerLine hname hvalue]; rfl⟩

/-- The text of the request. -/
def bytes : Bytes :=
  r.requestLine ++ kCRLF ++ ofLines (r.headers.map headerLine) ++ kCRLF ++ r.body

theorem bytes_eq : r.bytes = r.head.bytes ++ (kCRLF ++ r.body) := by
  rw [bytes, List.append_assoc]
  rfl

/-- The map that the header lines build holds the headers. -/
theorem headerMap_head {key value : Bytes} :
    headerMap r.head.fields key = some value ↔ (key, value) ∈ r.headers :=
  headerMap_headerLines r.nodup r.isName r.isValue

theorem contentLength_of_no_body (h : ofString "Content-Length" ∉ r.headers.map Prod.fst) :
    contentLength (headerMap r.head.fields) = none := by
  rw [contentLength, Option.map_eq_none_iff, Option.eq_none_iff_forall_ne_some]
  intro value hvalue
  exact h (List.mem_map.mpr ⟨_, r.headerMap_head.mp hvalue, rfl⟩)

end PlainRequest

namespace HttpConnection

variable {fs : FileSystem} {sourceDir : Bytes} {c : HttpConnection}

/-- A body of the length that the headers say, in a request that carries no form. -/
theorem parse_plainBody {body : Bytes} (fs : FileSystem) (hstate : c.parseState = .kHeader)
    (hbody : c.body = []) (hmethod : c.method ≠ ofString "POST") (hne : body ≠ [])
    (hlt : body.length < 2147483648)
    (hheader : c.header (ofString "Content-Length") = some (toDecimal body.length))
    (trailing : Bytes) :
    parse fs c (kCRLF ++ (body ++ trailing)) =
      .ok (.kGetRequest, { c with body := body, parseState := .kFinish }, trailing) := by
  have hreads := stoi_toDecimal hlt
  have hzero : (body.length : Int) ≠ 0 := by
    have := List.length_pos_iff.mpr hne
    omega
  obtain ⟨m, hm, hmn⟩ := stoul_of_stoi_nonneg hreads (Int.natCast_nonneg _)
  have hsize : m.toNat = body.length := by omega
  have hfollows : BodyFollows c (kCRLF ++ (body ++ trailing)) (toDecimal body.length) body.length :=
    ⟨hstate, search_line (show IsLine [] by decide) (body ++ trailing), hheader, hreads, hzero⟩
  have hend := hfollows.parse_body fs ⟨fun _ => hbody, by simp [hstate]⟩ hm
  have hdrop : (kCRLF ++ (body ++ trailing)).drop 2 = body ++ trailing := rfl
  have henough : ¬(body ++ trailing).length < m.toNat := by
    rw [List.length_append]
    omega
  rw [hdrop, if_neg henough, hsize, List.take_left, List.drop_left] at hend
  obtain ⟨ret, d, hjudge, -, hparse⟩ := hend
  have hlength : c.awaitBody.bodyLength = .ok m := by
    rw [bodyLength, show c.awaitBody.header = c.header from rfl, hheader]
    dsimp only
    rw [hm]
  have hother : ¬c.awaitBody.method = ofString "POST" := hmethod
  rw [parseRequestBody_complete (show c.awaitBody.body = [] from hbody) hlength hsize.symm,
    if_neg hother] at hjudge
  cases hjudge
  exact hparse

/-- What the parser finds in the text of a request, and what it leaves. -/
theorem parse_plain {r : PlainRequest} {f : File} (hfresh : Fresh sourceDir c)
    (hfile : fs (cString (sourceDir ++ resourcePath r.path)) = some f) (hdir : f.isDir = false)
    (hread : f.othRead = true) (trailing : Bytes) :
    parse fs c (r.bytes ++ trailing) = .ok (.kGetRequest, { c with
      parseState := .kFinish
      method := r.method
      path := resourcePath r.path
      version := r.version
      header := headerMap r.head.fields
      body := r.body
      requestFileStat := f.stat }, trailing) := by
  have hbody : c.body = [] := by rw [hfresh]; rfl
  rw [r.bytes_eq, List.append_assoc, parse_requestHead r.head r.matchRequestLine_requestLine
    hfresh hfile hdir hread, List.append_assoc]
  rcases r.length with ⟨hnil, hnone⟩ | ⟨hne, hlt, hmem⟩
  · rw [hnil, List.nil_append, parse_headerEnd fs rfl (.inl (r.contentLength_of_no_body hnone)),
      hbody]
  · refine parse_plainBody fs rfl ?_ r.method_ne_post hne hlt (r.headerMap_head.mpr hmem) trailing
    exact hbody

/-- A well-formed request is read back: from a buffer that begins with its text, a fresh parser
returns `kGetRequest` with what its sender has said, and leaves the bytes behind the text. -/
theorem parseRequest_roundTrip {r : PlainRequest} {f : File} {inputBuf : Buffer} {trailing : Bytes}
    (hfresh : Fresh sourceDir c)
    (hfile : fs (cString (sourceDir ++ servedPath r.path)) = some f) (hdir : f.isDir = false)
    (hread : f.othRead = true) (hinput : inputBuf.readable = r.bytes ++ trailing) :
    ∃ c' inputBuf', c.parseRequest fs inputBuf = .ok (.kGetRequest, c', inputBuf') ∧
      c'.method = r.method ∧ c'.version = r.version ∧
      (∀ key value, c'.header key = some value ↔ (key, value) ∈ r.headers) ∧
      c'.body = r.body ∧ c'.path = servedPath r.path ∧ inputBuf'.readable = trailing := by
  rw [← resourcePath_eq_servedPath] at hfile ⊢
  have hsim := parseRequest_sim fs c inputBuf
  rw [bytes_buffer, hinput, parse_plain hfresh hfile hdir hread trailing] at hsim
  obtain ⟨inputBuf', hparse, hrest⟩ := hsim
  exact ⟨_, inputBuf', hparse, rfl, rfl, fun key value => r.headerMap_head, rfl, rfl, hrest⟩

end HttpConnection

/-- A request with a body, for the page at the root. -/
def PlainRequest.put : PlainRequest where
  method := ofString "PUT"
  path := ofString "/"
  version := ofString "1.1"
  headers := [(ofString "Content-Length", ofString "2"), (ofString "Host", ofString "a:b c")]
  body := kCRLF
  isWord_method := ⟨by decide +kernel, by decide +kernel, by decide +kernel, by decide +kernel⟩
  isWord_path := ⟨by decide +kernel, by decide +kernel, by decide +kernel, by decide +kernel⟩
  isWord_version := ⟨by decide +kernel, by decide +kernel, by decide +kernel, by decide +kernel⟩
  method_ne_post := by decide +kernel
  nodup := by decide +kernel
  isName := by
    intro header hheader
    rcases List.mem_pair.mp hheader with rfl | rfl <;>
      exact ⟨by decide +kernel, by decide +kernel, by decide +kernel, by decide +kernel⟩
  isValue := by
    intro header hheader
    rcases List.mem_pair.mp hheader with rfl | rfl <;>
      exact ⟨by decide +kernel, by decide +kernel, by decide +kernel, by decide +kernel⟩
  length := by decide +kernel

theorem HttpConnection.parseRequest_roundTrip_put : ∃ inputBuf : Buffer,
    inputBuf.readable = PlainRequest.put.bytes ++ ofString "GET" ∧
    ∃ c' inputBuf', (HttpConnection.new []).parseRequest rootSite inputBuf =
        .ok (.kGetRequest, c', inputBuf') ∧
      c'.method = PlainRequest.put.method ∧ c'.version = PlainRequest.put.version ∧
      (∀ key value, c'.header key = some value ↔ (key, value) ∈ PlainRequest.put.headers) ∧
      c'.body = PlainRequest.put.body ∧ c'.path = servedPath PlainRequest.put.path ∧
      inputBuf'.readable = ofString "GET" := by
  obtain ⟨inputBuf, -, hread⟩ :=
    (Buffer.new 8).append_spec (PlainRequest.put.bytes ++ ofString "GET")
  have hinput : inputBuf.readable = PlainRequest.put.bytes ++ ofString "GET" := hread
  have hfile : rootSite (cString ([] ++ servedPath PlainRequest.put.path)) =
      some ⟨false, true, true, ofString "hi"⟩ := by decide +kernel
  exact ⟨inputBuf, hinput, parseRequest_roundTrip (fresh_new []) hfile rfl rfl hinput⟩

end Mymuduo
