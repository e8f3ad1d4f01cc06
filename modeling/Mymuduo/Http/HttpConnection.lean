import Mathlib.Logic.Function.Basic
import Mymuduo.Net.ByteQueue

/-! The HTTP side of a connection: the parser of requests, which keeps its state from one delivery
of bytes to the next, and the responses.  The file system is a parameter that does not change. -/

namespace Mymuduo

open Lib

/-- What `::stat` tells of a file: whether it is a directory, whether others may read it, and its
size. -/
structure Stat where
  isDir : Bool
  othRead : Bool
  size : Nat
  deriving DecidableEq, Repr

/-- A file, with the bytes that a mapping of it holds. -/
structure File where
  isDir : Bool
  othRead : Bool
  openable : Bool
  data : Bytes
  deriving DecidableEq, Repr

def File.stat (f : File) : Stat := ⟨f.isDir, f.othRead, f.data.length⟩

/-- The files by their paths. -/
abbrev FileSystem := Bytes → Option File

/-- Regular files that everybody may read, by their paths. -/
def siteOf (files : List (Bytes × Bytes)) : FileSystem :=
  fun path => (files.lookup path).map fun data => ⟨false, true, true, data⟩

/-- The pages of a server, and the page for its root. -/
def rootSite : FileSystem :=
  siteOf [(ofString "/index.html", ofString "hi"), (ofString "/400.html", ofString "no"),
    (ofString "/login.html", ofString "who"), (ofString "/welcome.html", ofString "in"),
    (ofString "/error.html", ofString "out")]

/-- `HttpConnection::ParseState` -/
inductive ParseState
  | kRequestLine
  | kHeader
  | kBody
  | kFinish
  deriving DecidableEq, Repr

/-- `HttpConnection::HttpCode` -/
inductive HttpCode
  | kNoRequest
  | kGetRequest
  | kBadRequest
  | kForbidden
  | kNoResource
  deriving DecidableEq, Repr

/-- A `std::map` from strings to strings. -/
abbrev StringMap := Bytes → Option Bytes

def kResponses : Int → Option Bytes
  | 200 => some (ofString "OK")
  | 400 => some (ofString "Bad Request")
  | 403 => some (ofString "Forbidden")
  | 404 => some (ofString "Not Found")
  | _ => none

def kMimeType : List (Bytes × Bytes) :=
  [(".html", "text/html"),
    (".xml", "text/xml"),
    (".xhtml", "application/xhtml+xml"),
    (".txt", "text/plain"),
    (".rtf", "application/rtf"),
    (".pdf", "application/pdf"),
    (".doc", "application/msword"),
    (".png", "image/png"),
    (".gif", "image/gif"),
    (".jpg", "image/jpeg"),
    (".jpeg", "image/jpeg"),
    (".au", "audio/basic"),
    (".mpeg", "video/mpeg"),
    (".mpg", "video/mpeg"),
    (".avi", "video/x-msvideo"),
    (".gz", "application/x-gzip"),
    (".tar", "application/x-tar"),
    (".css", "text/css"),
    (".js", "text/javascript")].map fun entry => (ofString entry.1, ofString entry.2)

/-- An `HttpConnection`, without its timer.  Nothing reads `requestFileStat_` before `::stat` has
written it, so that it may begin as `resetState` leaves it. -/
structure HttpConnection where
  parseState : ParseState
  method : Bytes
  path : Bytes
  version : Bytes
  header : StringMap
  body : Bytes
  post : StringMap
  responseCode : Int
  keepAlive : Bool
  requestFileStat : Stat
  sourceDir : Bytes

/-- `regex_match` with `^([^ ]+) ([^ ]+) HTTP/([^ ]+)$`, and its three groups. -/
def matchRequestLine (line : Bytes) : Option (Bytes × Bytes × Bytes) :=
  match line.dropWhile (· != 32) with
  | [] => none
  | _ :: rest =>
    match rest.dropWhile (· != 32) with
    | [] => none
    | _ :: last =>
      let method := line.takeWhile (· != 32)
      let path := rest.takeWhile (· != 32)
      let version := last.drop 5
      if method ≠ [] ∧ path ≠ [] ∧ last.take 5 = ofString "HTTP/" ∧ version ≠ [] ∧
          (32 : UInt8) ∉ version then
        some (method, path, version)
      else
        none

/-- `regex_match` with `^([^:]+): *(.+)$`, and its two groups.  The dot matches no CR and no LF,
and the blanks give one up if nothing else is left for it. -/
def matchHeader (line : Bytes) : Option (Bytes × Bytes) :=
  match line.dropWhile (· != 58) with
  | [] => none
  | _ :: rest =>
    let key := line.takeWhile (· != 58)
    let value := if rest.dropWhile (· == 32) = [] then rest.drop (rest.length - 1)
      else rest.dropWhile (· == 32)
    if key ≠ [] ∧ value ≠ [] ∧ (13 : UInt8) ∉ value ∧ (10 : UInt8) ∉ value then some (key, value)
    else none

/-- `path.find(text) != npos` -/
def contains (text path : Bytes) : Bool := (search text path).isSome

/-- `path.substr(path.find_last_of('.'))`, if there is a dot. -/
def suffix (path : Bytes) : Option Bytes :=
  if (46 : UInt8) ∈ path then some (46 :: (path.reverse.takeWhile (· != 46)).reverse) else none

/-- `map[key]`: a key that is absent is inserted with an empty value. -/
def index (m : StringMap) (key : Bytes) : Bytes × StringMap :=
  match m key with
  | some value => (value, m)
  | none => ([], Function.update m key (some []))

namespace HttpConnection

/-- `HttpConnection::HttpConnection` -/
def new (sourceDir : Bytes) : HttpConnection where
  parseState := .kRequestLine
  method := []
  path := []
  version := []
  header := fun _ => none
  body := []
  post := fun _ => none
  responseCode := -1
  keepAlive := false
  requestFileStat := ⟨false, false, 0⟩
  sourceDir := sourceDir

def resetState (c : HttpConnection) : HttpConnection :=
  { c with
    parseState := .kRequestLine
    method := []
    path := []
    version := []
    header := fun _ => none
    body := []
    responseCode := -1
    requestFileStat := ⟨false, false, 0⟩ }

/-- The file at `(kSourceDir + path_).c_str()`. -/
def file (fs : FileSystem) (c : HttpConnection) : Option File :=
  fs (cString (c.sourceDir ++ c.path))

/-- The path of the file that a request line asks for. -/
def resourcePath (path : Bytes) : Bytes :=
  if path = ofString "/" then path ++ ofString "index.html"
  else if (46 : UInt8) ∉ path then path ++ ofString ".html"
  else path

def parseRequestLine (fs : FileSystem) (c : HttpConnection) (line : Bytes) :
    HttpCode × HttpConnection :=
  match matchRequestLine line with
  | none => (.kBadRequest, c)
  | some (method, path, version) =>
    let c := { c with
      method := method
      path := resourcePath path
      version := version
      parseState := .kHeader }
    match c.file fs with
    | none => (.kNoResource, c)
    | some f =>
      let c := { c with requestFileStat := f.stat }
      if f.isDir then (.kNoResource, c)
      else if !f.othRead then (.kForbidden, c)
      else (.kNoRequest, c)

/-- `stoi(header_.at("Content-Length"))`, if the header is there. -/
def contentLength (header : StringMap) : Option (Except ConversionError Int) :=
  (header (ofString "Content-Length")).map stoi

def parseRequestHeader (c : HttpConnection) (line : Bytes) :
    Except Fault (HttpCode × HttpConnection) :=
  if line.length = 0 then
    match contentLength c.header with
    | none => .ok (.kGetRequest, { c with parseState := .kFinish })
    | some (.error e) => .error (.exception e)
    | some (.ok n) =>
      if n = 0 then .ok (.kGetRequest, { c with parseState := .kFinish })
      else .ok (.kNoRequest, { c with parseState := .kBody })
  else
    match matchHeader line with
    | none => .ok (.kBadRequest, c)
    | some (key, value) =>
      .ok (.kNoRequest, { c with header := Function.update c.header key (some value) })

/-- The loop of `parseFromUrlEncode` over the rest of `body_`, which appends to `value` or to `key`
as `inValue` says.  Returns `post_` as well. -/
def parseFields (post : StringMap) (key value : Bytes) (inValue : Bool) :
    Bytes → HttpCode × StringMap
  | [] =>
    if key = [] ∨ value = [] then (.kBadRequest, post)
    else (.kNoRequest, Function.update post key (some value))
  | 61 :: rest => parseFields post key value true rest
  | 38 :: rest =>
    if key = [] ∨ value = [] then (.kBadRequest, post)
    else parseFields (Function.update post key (some value)) [] [] false rest
  | 43 :: rest =>
    if inValue then parseFields post key (value ++ [32]) inValue rest
    else parseFields post (key ++ [32]) value inValue rest
  | 37 :: high :: low :: rest =>
    let decoded := toDecimal (strtolHex [high, low])
    if inValue then parseFields post key (value ++ decoded) inValue rest
    else parseFields post (key ++ decoded) value inValue rest
  | b :: rest =>
    if b = 37 then (.kBadRequest, post)
    else if inValue then parseFields post key (value ++ [b]) inValue rest
    else parseFields post (key ++ [b]) value inValue rest

def parseFromUrlEncode (c : HttpConnection) : HttpCode × HttpConnection :=
  let (ret, post) := parseFields c.post [] [] false c.body
  (ret, { c with post := post })

def parsePost (c : HttpConnection) : HttpCode × HttpConnection :=
  if c.body.length = 0 then (.kNoRequest, c)
  else
    match c.header (ofString "Content-Type") with
    | none => (.kBadRequest, c)
    | some type =>
      if type = ofString "application/x-www-form-urlencoded" then c.parseFromUrlEncode
      else (.kNoRequest, c)

/-- `post_["username"] == "admin" && post_["password"] == "123456"`, and `post_` after it. -/
def checkLogin (post : StringMap) : Bool × StringMap :=
  let (username, post) := index post (ofString "username")
  if username = ofString "admin" then
    let (password, post) := index post (ofString "password")
    (password = ofString "123456", post)
  else
    (false, post)

/-- The first half of `userVerify`: the page that the form leads to. -/
def userPage (c : HttpConnection) : HttpConnection :=
  if contains (ofString "register.html") c.path then
    { c with path := ofString "/welcome.html" }
  else if contains (ofString "login.html") c.path then
    let (verified, post) := checkLogin c.post
    { c with
      post := post
      path := if verified then ofString "/welcome.html" else ofString "/error.html" }
  else
    { c with path := ofString "/error.html" }

def userVerify (fs : FileSystem) (c : HttpConnection) : HttpCode × HttpConnection :=
  let c := c.userPage
  match c.file fs with
  | none => (.kNoResource, c)
  | some f => (.kNoRequest, { c with requestFileStat := f.stat })

/-- `stoul(header_["Content-Length"])` -/
def bodyLength (c : HttpConnection) : Except Fault UInt64 :=
  match c.header (ofString "Content-Length") with
  | none => .error (.exception .outOfRange)
  | some value =>
    match stoul value with
    | .ok n => .ok n
    | .error e => .error (.exception e)

def parseRequestBody (fs : FileSystem) (c : HttpConnection) (line : Bytes) :
    Except Fault (HttpCode × HttpConnection) := do
  let c := { c with body := c.body ++ line }
  let contentLength ← c.bodyLength
  if c.body.length < contentLength.toNat then
    return (.kNoRequest, c)
  else if c.body.length > contentLength.toNat then
    return (.kBadRequest, c)
  else if c.method = ofString "POST" then
    let (ret, c) := c.parsePost
    if ret ≠ .kNoRequest then
      return (ret, c)
    else
      let (ret, c) := c.userVerify fs
      if ret ≠ .kNoRequest then return (ret, c)
      else return (.kGetRequest, { c with parseState := .kFinish })
  else
    return (.kGetRequest, { c with parseState := .kFinish })

/-- The end of one iteration of the loop of `parseRequest`: it returns, or goes on. -/
inductive Iteration (Q : Type)
  | returns (ret : HttpCode) (c : HttpConnection) (q : Q)
  | continues (c : HttpConnection) (q : Q)

/-- The iteration ends as what a state function returned says. -/
def Iteration.of {Q : Type} (q : Q) (r : HttpCode × HttpConnection) : Iteration Q :=
  if r.1 ≠ .kNoRequest then .returns r.1 r.2 q else .continues r.2 q

section

variable {Q : Type} [ByteQueue Q]

/-- `remain`, in `size_t` arithmetic. -/
def remain (c : HttpConnection) : Except Fault UInt64 := do
  check .parseRequestContentLength (c.header (ofString "Content-Length")).isSome
  let n ← c.bodyLength
  return n - UInt64.ofNat c.body.length

/-- One iteration of the loop of `parseRequest`. -/
def iterate (fs : FileSystem) (c : HttpConnection) (q : Q) : Except Fault (Iteration Q) :=
  match c.parseState with
  | .kBody => do
    let remain ← c.remain
    if ByteQueue.readableBytes q < remain.toNat then
      return .returns .kNoRequest c q
    else
      let (line, q) ← ByteQueue.retrieveAsString q remain.toNat
      let r ← c.parseRequestBody fs line
      return .of q r
  | .kRequestLine =>
    match ByteQueue.findCRLF q with
    | none => .ok (.returns .kNoRequest c q)
    | some crlf => do
      let (line, q) ← ByteQueue.retrieveLine q crlf
      return .of q (c.parseRequestLine fs line)
  | .kHeader =>
    match ByteQueue.findCRLF q with
    | none => .ok (.returns .kNoRequest c q)
    | some crlf => do
      let (line, q) ← ByteQueue.retrieveLine q crlf
      let r ← c.parseRequestHeader line
      return .of q r
  | .kFinish => .ok (.continues c q)

/-- The loop of `parseRequest`, for at most `fuel` iterations. -/
def parseLoop (fs : FileSystem) : Nat → HttpConnection → Q →
    Except Fault (HttpCode × HttpConnection × Q)
  | 0, c, q => .ok (.kNoRequest, c, q)
  | fuel + 1, c, q =>
    if c.parseState = .kFinish then .ok (.kGetRequest, c, q)
    else do
      match ← c.iterate fs q with
      | .returns ret c q => return (ret, c, q)
      | .continues c q => parseLoop fs fuel c q

/-- `parseRequest`.  An iteration that goes on has taken bytes from the input, so that the loop ends
before its fuel does. -/
def parseRequest (fs : FileSystem) (c : HttpConnection) (q : Q) :
    Except Fault (HttpCode × HttpConnection × Q) :=
  parseLoop fs (ByteQueue.readableBytes q + 1) c q

end

/-- The `switch` of `initResponse`. -/
def codeOf : HttpCode → Int
  | .kGetRequest => 200
  | .kBadRequest => 400
  | .kForbidden => 403
  | .kNoResource => 404
  | .kNoRequest => 400

def initResponse (fs : FileSystem) (c : HttpConnection) (httpCode : HttpCode) :
    Except Fault HttpConnection :=
  let c := { c with responseCode := codeOf httpCode }
  if c.responseCode ≠ 200 then
    let c := { c with path := ofString "/" ++ toDecimal c.responseCode ++ ofString ".html" }
    match c.file fs with
    | none => .error .fatal
    | some f => .ok { c with requestFileStat := f.stat }
  else
    .ok c

/-- The bytes that `makeResponseLine` appends. -/
def makeResponseLine (c : HttpConnection) : Except Fault Bytes := do
  check .makeResponseLine (c.responseCode != -1)
  match kResponses c.responseCode with
  | none => .error (.assertion .makeResponseLine)
  | some text =>
    return ofString "HTTP/1.1 " ++ toDecimal c.responseCode ++ ofString " " ++ text ++ kCRLF

/-- The header asks for the connection to be kept, and the version allows it. -/
def asksKeepAlive (c : HttpConnection) : Bool :=
  c.header (ofString "Connection") == some (ofString "keep-alive") && c.version == ofString "1.1"

def contentType (path : Bytes) : Bytes :=
  match suffix path with
  | none => ofString "text/plain"
  | some s => (kMimeType.lookup s).getD (ofString "text/plain")

/-- The bytes that `makeResponseHeader` appends. -/
def makeResponseHeader (c : HttpConnection) : HttpConnection × Bytes :=
  let connection := if c.asksKeepAlive then
      ofString "keep-alive" ++ kCRLF ++ ofString "Keep-Alive: max=6, timeout=120" ++ kCRLF
    else
      ofString "close" ++ kCRLF
  ({ c with keepAlive := c.asksKeepAlive },
    ofString "Connection: " ++ connection ++
    ofString "Content-Type: " ++ contentType c.path ++ kCRLF ++
    ofString "Content-Length: " ++ toDecimal c.requestFileStat.size ++ kCRLF ++ kCRLF)

/-- The bytes that `makeResponseBody` appends.  `::mmap` fails for a directory and for a length
of 0. -/
def makeResponseBody (fs : FileSystem) (c : HttpConnection) : Except Fault Bytes :=
  match c.file fs with
  | none => .error .fatal
  | some f =>
    if f.openable && !f.isDir && c.requestFileStat.size != 0 then
      .ok (f.data.take c.requestFileStat.size)
    else
      .error .fatal

/-- `makeResponse`, with the bytes that it appends to the output. -/
def makeResponse (fs : FileSystem) (c : HttpConnection) (parseRet : HttpCode) :
    Except Fault (HttpConnection × Bytes) := do
  check .makeResponse (parseRet != .kNoRequest)
  let c ← c.initResponse fs parseRet
  let line ← c.makeResponseLine
  let (c, header) := c.makeResponseHeader
  let body ← c.makeResponseBody fs
  return (c, line ++ header ++ body)

end HttpConnection

end Mymuduo
