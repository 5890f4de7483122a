import Mathlib.Data.List.AList
import TscServer.Lib.Chunks
import TscServer.Lib.FileTree
import TscServer.Lib.IStream
import TscServer.Model.RequestHandler

/-!
# Exchanges with an upstream

The part of `proxy_handler.cc` that sends a request to an upstream, takes the response apart and
stores it: the loop of `ProxyHandler::HandleRequest`, `MakeRequest`, `ParseLocation`, `HandleError`
and `MakeCache`. The upstreams, the clocks and the place of the cache files are parameters.
-/

namespace TscServer.Model
open Lib

structure ProxyHandler where
  uriPrefix : Bytes
  serverHost : Bytes
  serverPort : Bytes
deriving DecidableEq

/-- A `ptime` of the second clock, in seconds; `notADateTime` when default-constructed. -/
inductive Ptime where
  | notADateTime
  | at (seconds : Int)
deriving DecidableEq, Repr

-- `now >= expiration`, which holds of `not_a_date_time`
def Ptime.expired (now : Int) : Ptime → Bool
  | .notADateTime => true
  | .at seconds => seconds ≤ now

structure CacheSign where
  expiration : Ptime := .notADateTime
  eTag : Bytes := []
deriving DecidableEq, Repr

structure Outgoing where
  host : Bytes
  port : Bytes
  method : Bytes
  uri : Bytes
  raw : Bytes
deriving DecidableEq, Repr

/-- What a contact comes to: an error of `resolve`, `connect` or `write`, or the chunks that reads
deliver until they end with `eof` or with another error. -/
inductive Answer where
  | error (errorInfo : Bytes)
  | stream (chunks : List Bytes) (eof : Bool)
deriving DecidableEq, Repr

/-- The answer to each contact in turn, the two clocks at each reading in turn (the second one as
the text that is printed, on one line), and the path of the cache directory. -/
structure Environment where
  upstream : Nat → Outgoing → Answer
  clock : Nat → Int
  date : Nat → Bytes
  date_oneLine : ∀ n, 10 ∉ date n
  cacheDir : List (Component Bytes)

/-- An entry that was put into the cache after so many contacts, by `UpdateCache` if `revalidated`
and by `MakeCache` otherwise. -/
structure Install where
  key : Bytes
  sign : CacheSign
  contacts : Nat
  revalidated : Bool
deriving DecidableEq, Repr

structure ProxyState where
  cache : AList fun _ : Bytes => CacheSign := ∅
  files : FileTree Bytes Bytes
  readings : Nat := 0
  contacts : List Outgoing := []
  installs : List Install := []

abbrev ProxyProc := Proc Fault ProxyState

namespace ProxyHandler

/-! ## Paths and clocks -/

-- `request_uri.erase(find, size)` when the prefix occurs, and a slash in front
def stripPrefix (uriPrefix uri : Bytes) : Bytes :=
  let rest :=
    match find uriPrefix uri with
    | some i => uri.take i ++ uri.drop (i + uriPrefix.length)
    | none => uri
  if rest.head? = some 47 then rest else 47 :: rest

def cacheKey (uri : Bytes) : Bytes :=
  if uri.getLast? = some 47 then uri ++ bytes "index" else uri

def component (name : Bytes) : Component Bytes :=
  if name = [] ∨ name = bytes "." then .here
  else if name = bytes ".." then .up
  else .name name

-- `"proxy_cache" + path` as the system sees it
def cachePath (env : Environment) (path : Bytes) : List (Component Bytes) :=
  env.cacheDir ++ ((cStr path).splitOn 47).map component

def localTime (env : Environment) : ProxyProc Int := do
  let s ← Proc.get
  Proc.modify fun s => { s with readings := s.readings + 1 }
  return env.clock s.readings

def universalTime (env : Environment) : ProxyProc Bytes := do
  let s ← Proc.get
  Proc.modify fun s => { s with readings := s.readings + 1 }
  return env.date s.readings

/-! ## Requests to the upstream -/

def makeRequest (request : Request) (uri host port : Bytes) : Bytes :=
  let hostLine := bytes "Host: " ++ host ++ bytes ":" ++ port ++ crlf
  let closeLine := bytes "Connection: close" ++ crlf
  let named (name : Bytes) := request.headers.any fun header => header.1 = name
  request.method ++ bytes " " ++ uri ++ bytes " " ++ request.version ++ crlf ++
    request.headers.flatMap (fun header =>
      if header.1 = bytes "Host" then hostLine
      else if header.1 = bytes "Connection" then closeLine
      else header.1 ++ bytes ": " ++ header.2 ++ crlf) ++
    (if named (bytes "Host") then [] else hostLine) ++
    (if named (bytes "Connection") then [] else closeLine) ++ crlf ++ request.body

def contact (env : Environment) (out : Outgoing) : ProxyProc Answer := do
  let s ← Proc.get
  Proc.modify fun s => { s with contacts := s.contacts ++ [out] }
  return env.upstream s.contacts.length out

-- the host, the port and the path that a redirect leads to
def parseLocation (location host port : Bytes) : Bytes × Bytes × Bytes :=
  match find (bytes "://") location with
  | some i =>
      let rest := location.drop (i + 3)
      let hostAndPort := rest.takeWhile (· != 47)
      let path := rest.dropWhile (· != 47)
      let (host, port) :=
        match find [58] hostAndPort with
        | none => (hostAndPort, bytes "80")
        | some j =>
            if j = hostAndPort.length - 1 then (hostAndPort, bytes "80")
            else (hostAndPort.take j, hostAndPort.drop (j + 1))
      (host, port, if path = [] then bytes "/" else path)
  | none => (host, port, if location.head? = some 47 then location else 47 :: location)

def handleError (_errorInfo : Bytes) : Status := .handleFail

/-! ## The response -/

structure StatusLine where
  version : Bytes
  code : Option Nat  -- `none` when `status_code` was never assigned
  message : Bytes
deriving DecidableEq, Repr

def readStatusLine (buf : Bytes) : StatusLine × IStream :=
  let (version, stream) := IStream.extractToken { buf }
  let (code, stream) := stream.extractUnsigned
  let (message, stream) := stream.getline
  ({ version := version.getD [], code, message := message.getD [] }, stream)

def StatusLine.toBytes (line : StatusLine) (code : Nat) : Bytes :=
  line.version ++ bytes " " ++ toDecimal code ++ line.message ++ [10]

def readMaxAge (env : Environment) (value : Bytes) : ProxyProc (Int × Int) := do
  let start := (find (bytes "max-age") value).getD 0
  let directive := (value.drop start).takeWhile (· != 44)
  let cacheLife ← Proc.ofOption .outOfRange (substrFrom directive 8)
  let now ← localTime env
  match stoi cacheLife with
  | .error e => Proc.throw (.ofNumber e)
  | .ok life => return (life, now + life)

/-- What the header loop has gathered: the cache decision, the raw response, the value of the
Location that ended the loop, and the bytes of the buffer after the lines that were read. -/
structure Head where
  makeCache : Bool := false
  expire : Ptime := .notADateTime
  eTag : Bytes := []
  raw : Bytes
  location : Option Bytes := none
  rest : Bytes
deriving DecidableEq, Repr

-- a line without the character that `pop_back` takes
def headerName (header : Bytes) : Bytes := header.take ((find [58] header).getD header.length)

-- without a colon, `npos + 2` is 1
def headerValue (header : Bytes) : Option Bytes := substrFrom header (offset (find [58] header) 2)

def cacheable (code : Nat) : Bool := code != 302 && code != 304

def forbidsCaching (value : Bytes) : Bool :=
  contains (bytes "no-store") value || contains (bytes "no-cache") value

def readHeader (env : Environment) (code : Nat) (name value : Bytes) (head : Head) :
    ProxyProc Head :=
  if cacheable code && name == bytes "Cache-Control" && !forbidsCaching value then
    if contains (bytes "max-age") value then do
      let (life, expiration) ← readMaxAge env value
      return if 0 < life then { head with makeCache := true, expire := .at expiration } else head
    else return head
  else if cacheable code && name == bytes "ETag" then return { head with eTag := value }
  else return head

def headerLoop (env : Environment) (code : Nat) :
    List (Bytes × Option Bytes) → Head → ProxyProc Head
  | [], head => return head
  | (line, after) :: lines, head =>
      let head := { head with rest := after.getD [] }
      if line = [13] then return head
      else if line = [] then Proc.throw .popBackEmpty
      else do
        let header := line.dropLast
        let value ← Proc.ofOption .outOfRange (headerValue header)
        let head ← readHeader env code (headerName header) value head
        let head := { head with raw := head.raw ++ header ++ [10] }
        if code = 302 ∧ headerName header = bytes "Location" then
          return { head with location := some value }
        else headerLoop env code lines head

/-! ## Storing a response -/

-- the part of the path before each slash but the first
def directories (path : Bytes) : List Bytes :=
  ((List.range path.length).filter fun i => 1 ≤ i ∧ path[i]? = some 47).map path.take

def createDirectories (env : Environment) : List Bytes → ProxyProc Unit
  | [] => return ()
  | directory :: rest => do
      let s ← Proc.get
      if s.files.exists (cachePath env directory) then createDirectories env rest
      else
        let files ← Proc.ofOption .filesystemError
          (s.files.createDirectory (cachePath env directory))
        Proc.modify fun s => { s with files }
        createDirectories env rest

def makeCache (env : Environment) (uri : Bytes) (expiration : Ptime) (eTag : Bytes)
    (response : Response) : ProxyProc Unit := do
  let path := cacheKey uri
  createDirectories env (directories path)
  Proc.modify fun s =>
    { s with
      -- a file that cannot be opened is not written, without a report
      files := (s.files.write (cachePath env path) response.toBytes).getD s.files
      cache := s.cache.insert path { expiration, eTag }
      installs := s.installs ++
        [{ key := path, sign := { expiration, eTag }, contacts := s.contacts.length
           revalidated := false }] }

/-! ## The loop of `HandleRequest` -/

inductive Round where
  | finished (status : Status) (response : Response)
  | redirected (host port uri : Bytes)

def readResponse (env : Environment) (requestUri host port uri : Bytes) (line : StatusLine)
    (stream : IStream) (code : Nat) (chunks : List Bytes) (eof : Bool) : ProxyProc Round :=
  match readUntil crlfcrlf chunks stream.buf with
  | none => return .finished (handleError (bytes "read_until")) {}
  | some (buf, chunks) => do
      let head ← headerLoop env code (if stream.good then getlines buf else [])
        { raw := line.toBytes code, rest := buf }
      if code = 302 then
        match head.location with
        | none => return .redirected host port uri
        | some location =>
            let (host, port, uri) := parseLocation location host port
            return .redirected host port uri
      else if !eof then return .finished .handleFail (Response.setStatus {} .internalServerError)
      else
        let response := Response.setRawResponse {} (head.raw ++ crlf ++ head.rest ++ chunks.flatten)
        if head.makeCache then makeCache env requestUri head.expire head.eTag response
        return .finished .ok response

def exchange (env : Environment) (request : Request) (requestUri host port uri : Bytes) :
    ProxyProc Round := do
  let raw := makeRequest request uri host port
  match ← contact env { host, port, method := request.method, uri, raw } with
  | .error errorInfo => return .finished (handleError errorInfo) {}
  | .stream chunks eof =>
      match readUntil crlf chunks [] with
      | none => return .finished (handleError (bytes "read_until")) {}
      | some (buf, chunks) => do
          let (line, stream) := readStatusLine buf
          let code ← Proc.ofOption .indeterminateValue line.code
          readResponse env requestUri host port uri line stream code chunks eof

def exchangeLoop (env : Environment) (request : Request) (requestUri : Bytes) :
    Nat → Bytes → Bytes → Bytes → ProxyProc (Status × Response)
  | 0, _, _, _ => Proc.spin
  | fuel + 1, host, port, uri => do
      match ← exchange env request requestUri host port uri with
      | .finished status response => return (status, response)
      | .redirected host port uri => exchangeLoop env request requestUri fuel host port uri

end ProxyHandler
end TscServer.Model
