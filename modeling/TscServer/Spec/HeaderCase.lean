import TscServer.Lib.HeaderLines
import TscServer.Model.ProxyHandler
import TscServer.Spec.RequestText
import TscServer.Spec.Routing

/-!
# The letter case of header names

Which messages differ in the letter case of header names alone, and what the server does that the case
could change. A name ends at the first colon of its line.
-/

namespace TscServer.Spec
open Lib Model Connection

def RecasedLine (line line' : Bytes) : Prop :=
  ∃ name name' rest, 58 ∉ name ∧ lower name' = lower name ∧ line = name ++ 58 :: rest ∧
    line' = name' ++ 58 :: rest

/-- The same message, up to the letter case of the names in its header lines. -/
def Recased (raw raw' : Bytes) : Prop :=
  ∃ first lines lines' rest, crlfLines raw = first :: (lines ++ [] :: rest) ∧
    crlfLines raw' = first :: (lines' ++ [] :: rest) ∧ List.Forall₂ RecasedLine lines lines'

def awaited (r : Request) : Option Nat := (contentLength r).map (· - r.body.length)

def coded (compression : Compression) (r : Request) (response : Response) : Response :=
  if response.isImage then response else compressPayload compression r response

def upstreamCount (name : Bytes) (r : Request) (uri host port : Bytes) : Nat :=
  (headerValues name (messageHead (ProxyHandler.makeRequest r uri host port)).tail).length

structure SameTreatment {ω : Type} (handlers : Handlers ω) (response : Response) (r r' : Request) :
    Prop where
  awaited : awaited r' = awaited r
  handler : selectPrefix handlers r' = selectPrefix handlers r
  coding : ∀ compression, coded compression r' response = coded compression r response
  closes : asksClose r' = asksClose r
  upstream : ∀ name ∈ [bytes "Host", bytes "Connection"], ∀ uri host port,
    (∀ c ∈ uri, notSpace c = true) → OneLine host → OneLine port →
      upstreamCount name r' uri host port = upstreamCount name r uri host port

def valuesUnder (name : Bytes) (r : Request) : List Bytes :=
  (r.headers.filter fun header => lower header.1 = lower name).map Prod.snd

def WantsCoding (value : Bytes) : Prop :=
  ∃ coding ∈ (value.filter (· != 32)).splitOn 44, coding = bytes "gzip" ∨ coding = bytes "deflate"

structure CaseBlind {ω : Type} (handlers : Handlers ω) (response : Response) (r : Request) : Prop where
  content_length : ∀ value ∈ valuesUnder (bytes "Content-Length") r,
    ∃ length, lexicalCast value = some length ∧ length ≤ r.body.length
  referer : valuesUnder (bytes "Referer") r = [] ∨ handlers.find (bytes "/") = none ∨
    ∃ key, key ≠ [] ∧ (handlers.find key).isSome ∧ AtBoundary key r.uri
  accept_encoding : response.isImage ∨
    ∀ value ∈ valuesUnder (bytes "Accept-Encoding") r, ¬ WantsCoding value
  host : valuesUnder (bytes "Host") r = []
  connection : valuesUnder (bytes "Connection") r = []

end TscServer.Spec
