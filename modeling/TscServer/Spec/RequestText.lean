import TscServer.Lib.HeaderLines
import TscServer.Model.ProxyExchange
import TscServer.Spec.Message

/-!
# Requests as texts

What a request has to be like so that it can stand in a message, what is true of every request that
`Request::Parse` returns, and which requests come back when they are printed and parsed.
-/

namespace TscServer.Spec
open Lib Model

def IsVersion (version : Bytes) : Prop :=
  ∃ major minor : Bytes, version = bytes "HTTP/" ++ major ++ 46 :: minor ∧ major ≠ [] ∧ minor ≠ [] ∧
    (∀ c ∈ major, isDigit c = true) ∧ (∀ c ∈ minor, isDigit c = true)

structure ValidHeader (header : Bytes × Bytes) : Prop where
  name_ne_nil : header.1 ≠ []
  name_bytes : ∀ c ∈ header.1, notSpace c = true ∧ c ≠ 58
  value_head : ∃ c ∈ header.2.head?, notSpace c = true
  value_bytes : ∀ c ∈ header.2, notLineEnd c = true

structure Valid (r : Request) : Prop where
  method_ne_nil : r.method ≠ []
  method_bytes : ∀ c ∈ r.method, notSpace c = true
  uri_slash : r.uri.head? = some 47
  uri_bytes : ∀ c ∈ r.uri, notSpace c = true
  uri_no_dots : ¬ bytes ".." <:+: r.uri
  version_form : IsVersion r.version
  headers_ne_nil : r.headers ≠ []
  headers_valid : ∀ header ∈ r.headers, ValidHeader header

structure ParsedHeader (header : Bytes × Bytes) : Prop where
  name_ne_nil : header.1 ≠ []
  name_bytes : ∀ c ∈ header.1, notSpace c = true ∧ c ≠ 0
  value_head : ∃ c ∈ header.2.head?, notSpace c = true
  value_bytes : ∀ c ∈ header.2, notLineEnd c = true ∧ c ≠ 0

structure Parsed (r : Request) : Prop where
  method_ne_nil : r.method ≠ []
  method_bytes : ∀ c ∈ r.method, notSpace c = true ∧ c ≠ 0
  uri_slash : r.uri.head? = some 47
  uri_bytes : ∀ c ∈ r.uri, notSpace c = true ∧ c ≠ 0
  uri_no_dots : ¬ bytes ".." <:+: r.uri
  version_form : IsVersion r.version
  headers_ne_nil : r.headers ≠ []
  headers_parsed : ∀ header ∈ r.headers, ParsedHeader header
  body_bytes : 0 ∉ r.body
  body_no_blank : ¬ crlfcrlf <:+: crlf ++ r.body

/-! ## The request to an upstream -/

def hostLine (host port : Bytes) : Bytes := bytes "Host: " ++ host ++ bytes ":" ++ port

def closeLine : Bytes := bytes "Connection: close"

def forwardedLine (host port : Bytes) (header : Bytes × Bytes) : Bytes :=
  if header.1 = bytes "Host" then hostLine host port
  else if header.1 = bytes "Connection" then closeLine
  else header.1 ++ bytes ": " ++ header.2

def addedLines (host port : Bytes) (headers : List (Bytes × Bytes)) : List Bytes :=
  (if headers.any (fun header => header.1 = bytes "Host") then [] else [hostLine host port]) ++
    (if headers.any (fun header => header.1 = bytes "Connection") then [] else [closeLine])

def upstreamLines (r : Request) (uri host port : Bytes) : List Bytes :=
  (r.method ++ bytes " " ++ uri ++ bytes " " ++ r.version) ::
    (r.headers.map (forwardedLine host port) ++ addedLines host port r.headers)

def named (key text : Bytes) : Bool := lower (text.takeWhile (· != 58)) == lower key

def isRewritten (text : Bytes) : Bool := named (bytes "Host") text || named (bytes "Connection") text

def HeadersRewritten (r : Request) (uri host port : Bytes) : Prop :=
  ∃ lines, crlfLines (ProxyHandler.makeRequest r uri host port) =
      (r.method ++ bytes " " ++ uri ++ bytes " " ++ r.version) :: (lines ++ [] :: crlfLines r.body) ∧
    lines.filter (named (bytes "Host")) = [hostLine host port] ∧
    lines.filter (named (bytes "Connection")) = [closeLine] ∧
    lines.filter (fun line => !isRewritten line) =
      (r.headers.filter fun header => !isRewritten header.1).map fun header =>
        header.1 ++ bytes ": " ++ header.2

def SpelledOnce (key : Bytes) (r : Request) : Prop :=
  let names := (r.headers.map Prod.fst).filter (named key)
  names = [] ∨ names = [key]

/-! ## Printing and parsing -/

def printedLine (header : Bytes × Bytes) : Bytes := header.1 ++ bytes ": " ++ header.2

def RoundTrips (r : Request) : Prop :=
  Request.parse r.toBytes = some { r with rawRequest := r.toBytes }

structure NoNul (r : Request) : Prop where
  method : 0 ∉ r.method
  uri : 0 ∉ r.uri
  names : ∀ header ∈ r.headers, 0 ∉ header.1
  values : ∀ header ∈ r.headers, 0 ∉ header.2
  body : 0 ∉ r.body

/-- A colon that the header expression takes for the one after the name: more than blanks follow. -/
def StealsColon (value : Bytes) : Prop := ∃ rest, value = 58 :: rest ∧ ∃ c ∈ rest, notSpace c = true

/-! ## Header lines -/

def headerLines (raw : Bytes) : List Bytes := (crlfLines raw).tail.takeWhile (· ≠ [])

structure HeaderForm (name blanks value : Bytes) : Prop where
  name_ne_nil : name ≠ []
  name_bytes : ∀ c ∈ name, notSpace c = true ∧ c ≠ 58
  blanks_bytes : ∀ c ∈ blanks, c = 32 ∨ c = 9
  value_head : ∃ c ∈ value.head?, c ≠ 32 ∧ c ≠ 9

structure RecordedAt (r : Request) (i : Nat) (name value : Bytes) : Prop where
  recorded : r.headers[i]? = some (name, value)
  found : (∀ j header, j < i → r.headers[j]? = some header → header.1 ≠ name) →
    r.getHeaderValueByName name = value

/-- A colon in the text after the name that white space separates from the name at most directly before
it, and that more than white space follows. -/
def DivertsColon (text : Bytes) : Prop :=
  ∃ run gap rest, text = run ++ gap ++ 58 :: rest ∧ (∀ c ∈ run, notSpace c = true) ∧
    (∀ c ∈ gap, isSpace c = true) ∧ ∃ c ∈ rest, notSpace c = true

structure SplitsAtFirst (blanks value : Bytes) : Prop where
  value_head : ∃ c ∈ value.head?, notSpace c = true
  first_colon : ¬ DivertsColon (blanks ++ value)

end TscServer.Spec
