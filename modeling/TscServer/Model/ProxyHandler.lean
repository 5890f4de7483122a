import TscServer.Model.ProxyExchange

/-!
# The proxy handler

`ProxyHandler::Init`, and `HandleRequest`, `HandleCache` and `UpdateCache`, which call each other. The
fuel of `handleRequest` bounds the depth of these calls and the number of redirects of each.
-/

namespace TscServer.Model
open Lib

namespace ProxyHandler

/-! ## Initialisation -/

def initLoop : List NginxConfigStatement → ProxyHandler → Option (Status × ProxyHandler)
  | [], handler =>
      some (if handler.serverHost = [] ∨ handler.serverPort = [] then .invalidConfig else .ok, handler)
  | statement :: statements, handler =>
      match statement.tokens with
      | [] => none
      | startToken :: arguments =>
          if startToken = bytes "host" then
            if statement.tokens.length ≠ 2 then some (.invalidConfig, handler)
            else initLoop statements { handler with serverHost := arguments.headD [] }
          else if startToken = bytes "port" then
            if statement.tokens.length ≠ 2 then some (.invalidConfig, handler)
            else
              let handler := { handler with serverPort := arguments.headD [] }
              if handler.serverPort.all isDigit then initLoop statements handler
              else some (.invalidConfig, handler)
          else initLoop statements handler

def init (uriPrefix : Bytes) (config : NginxConfig) : Option (Status × ProxyHandler) :=
  initLoop config.statements { uriPrefix, serverHost := [], serverPort := [] }

/-! ## Answering from a cache file -/

-- `cache_[path]`
def entry (path : Bytes) : ProxyProc CacheSign := do
  let s ← Proc.get
  match s.cache.lookup path with
  | some sign => return sign
  | none =>
      Proc.modify fun s => { s with cache := s.cache.insert path {} }
      return {}

-- `(expiration - now).total_milliseconds() / 1000`, also of the special value
def secondsLeft (now : Int) : Ptime → Int
  | .notADateTime => 9223372036854
  | .at seconds => seconds - now

-- the tokens between the commas of a Cache-Control value
def rewriteMaxAge (maxAgeSec : Bytes) : List Bytes → Bytes
  | [] => []
  | [token] =>
      if contains (bytes "max-age") token then bytes "max-age=" ++ maxAgeSec ++ [13] else token
  | token :: tokens =>
      (if contains (bytes "max-age") token then bytes "max-age=" ++ maxAgeSec else token) ++
        44 :: rewriteMaxAge maxAgeSec tokens

def rewriteLine (env : Environment) (path line : Bytes) : ProxyProc Bytes := do
  let line ←
    if contains (bytes "Date:") line then do
      let date ← universalTime env
      pure (bytes "Date: " ++ date ++ [13])
    else pure line
  if contains (bytes "Cache-Control") line then do
    let now ← localTime env
    let sign ← entry path
    let value ← Proc.ofOption .outOfRange (substrFrom line (offset (find (bytes ": ") line) 2))
    let maxAgeSec := intToDecimal (secondsLeft now sign.expiration)
    return bytes "Cache-Control: " ++ rewriteMaxAge maxAgeSec (value.splitOn 44)
  else return line

def serveLines (env : Environment) (path : Bytes) : List (Bytes × Option Bytes) → ProxyProc Bytes
  | [] => return [10]  -- the line that `getline` does not find at the end of the file
  | (line, rest) :: lines =>
      if line = [13] then return crlf ++ rest.getD []
      else do
        let written ← rewriteLine env path line
        match rest with
        | none => return written ++ [10]
        | some _ =>
            let following ← serveLines env path lines
            return written ++ 10 :: following

def serveFile (env : Environment) (path : Bytes) (response : Response) : ProxyProc Response := do
  let s ← Proc.get
  match s.files.read (cachePath env path) with
  | none => Proc.spin  -- `eof` never holds of a file that was not opened
  | some content =>
      let raw ← serveLines env path (getlines content)
      return (response.setBody []).setRawResponse raw

/-! ## Revalidation -/

abbrev Inner := Request → Response → ProxyProc (Status × Response)

def revalidation (handler : ProxyHandler) (uri eTag : Bytes) : Request where
  method := bytes "GET"
  uri := uri
  version := bytes "HTTP/1.1"
  headers :=
    [(bytes "Host", handler.serverHost ++ bytes ":" ++ handler.serverPort),
      (bytes "Accept", bytes "*/*"), (bytes "If-None-Match", eTag), (bytes "Connection", bytes "close")]

-- `none` when a Cache-Control line has no `max-age`
def rearmHeader (env : Environment) (header : Bytes) (sign : CacheSign) :
    ProxyProc (Option CacheSign) := do
  let updated ←
    if contains (bytes "Cache-Control") header then
      if contains (bytes "max-age") header then do
        let (life, expiration) ← readMaxAge env header
        pure (some (if 0 < life then { sign with expiration := .at expiration } else sign))
      else pure none
    else pure (some sign)
  match updated with
  | none => return none
  | some sign =>
      if contains (bytes "Etag") header then do
        let eTag ← Proc.ofOption .outOfRange (substrFrom header (offset (find (bytes ": ") header) 2))
        return some { sign with eTag }
      else return some sign

def rearmLoop (env : Environment) : List (Bytes × Option Bytes) → CacheSign →
    ProxyProc (Option CacheSign)
  | [], sign => return some sign
  | (header, _) :: headers, sign =>
      if header = [13] then return some sign
      else do
        match ← rearmHeader env header sign with
        | none => return none
        | some sign => rearmLoop env headers sign

-- what `UpdateCache` does with the answer
def updateEntry (env : Environment) (path : Bytes) (status : Status) (response : Response) :
    ProxyProc Bool := do
  if status ≠ .ok then return false
  else
    let lines := getlines response.toBytes
    let responseLine := (lines.head?.map Prod.fst).getD []
    if contains (bytes "304") responseLine then
      match ← rearmLoop env lines.tail {} with
      | none => return false
      | some sign => do
          Proc.modify fun s =>
            { s with
              cache := s.cache.insert path sign
              installs := s.installs ++
                [{ key := path, sign, contacts := s.contacts.length, revalidated := true }] }
          return true
    else return contains (bytes "200") responseLine

def updateCache (env : Environment) (handler : ProxyHandler) (inner : Inner) (uri path : Bytes) :
    ProxyProc Bool := do
  let sign ← entry path
  Proc.modify fun s => { s with cache := s.cache.erase path }
  let (status, response) ← inner (handler.revalidation uri sign.eTag) {}
  updateEntry env path status response

def handleCache (env : Environment) (handler : ProxyHandler) (inner : Inner) (uri : Bytes)
    (response : Response) : ProxyProc (Option Response) := do
  let path := cacheKey uri
  let s ← Proc.get
  match s.cache.lookup path with
  | none => return none
  | some sign =>
      let now ← localTime env
      let usable ←
        if sign.expiration.expired now then updateCache env handler inner uri path else pure true
      if usable then return some (← serveFile env path response) else return none

def handleRequest (env : Environment) (handler : ProxyHandler) : Nat → Inner
  | 0, _, _ => Proc.spin
  | fuel + 1, request, response => do
      let requestUri := stripPrefix handler.uriPrefix request.uri
      match ← handleCache env handler (handleRequest env handler fuel) requestUri response with
      | some response => return (.ok, response)
      | none =>
          exchangeLoop env request requestUri (fuel + 1) handler.serverHost handler.serverPort
            requestUri

end ProxyHandler
end TscServer.Model
