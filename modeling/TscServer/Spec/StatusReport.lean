import TscServer.Spec.Configuration
import TscServer.Spec.Responses

/-!
# The status page read back

What a reader takes from the page of the status handler, line by line.
-/

namespace TscServer.Spec
open Lib Model

structure StatusReport where
  totalVisit : Int
  uriVisitCount : List (Bytes × Int)
  statusCodeCount : List (Bytes × Int)
  handlerToUri : List (Bytes × List Bytes)

def reportOf (status : ServerStatus) : StatusReport where
  totalVisit := status.totalVisit
  uriVisitCount := ServerStatus.sorted status.uriVisitCount
  statusCodeCount := ServerStatus.sorted status.statusCodeCount
  handlerToUri := ServerStatus.sorted status.handlerToUri

def readNumber (text : Bytes) : Int :=
  if text.head? = some 45 then -(decimal text.tail : Int) else decimal text

def readCounter (line : Bytes) : Bytes × Int :=
  let digits := (line.reverse.takeWhile (· != 32)).reverse
  (line.take (line.length - digits.length - 2), readNumber digits)

def readHandler (line : Bytes) : Bytes × List Bytes :=
  (line.takeWhile (· != 58), ((line.dropWhile (· != 58)).splitOn 32).tail)

def cutSection (lines : List Bytes) : List Bytes × List Bytes :=
  (lines.takeWhile fun line => !line.isEmpty, (lines.dropWhile fun line => !line.isEmpty).tail)

def readReport (page : Bytes) : StatusReport :=
  let summary := cutSection ((getlines page).map Prod.fst)
  let uris := cutSection summary.2
  let codes := cutSection uris.2
  { totalVisit := readNumber ((summary.1.getLastD []).drop (bytes "Total request received : ").length)
    uriVisitCount := uris.1.tail.map readCounter
    statusCodeCount := codes.1.tail.map readCounter
    handlerToUri := codes.2.tail.map readHandler }

def PrintableHandlers (handlerToUri : AList fun _ : Bytes => List Bytes) : Prop :=
  ∀ handler ∈ ServerStatus.sorted handlerToUri, 10 ∉ handler.1 ∧ 58 ∉ handler.1 ∧
    ∀ uri ∈ handler.2, 10 ∉ uri ∧ 32 ∉ uri

structure Printable (status : ServerStatus) : Prop where
  uris : ∀ counter ∈ ServerStatus.sorted status.uriVisitCount, 10 ∉ counter.1
  codes : ∀ counter ∈ ServerStatus.sorted status.statusCodeCount, 10 ∉ counter.1
  handlers : PrintableHandlers status.handlerToUri

/-- A report of these responses, where a key is listed if and only if it was counted. -/
structure Reports (report : StatusReport) (written : List Written) : Prop where
  total : report.totalVisit = written.length
  uris : ∀ uri n, uri ≠ sharedKey → ((uri, n) ∈ report.uriVisitCount ↔ 0 < n ∧
    n = (written.filter fun w => w.response.status = .ok ∧ w.request.uri = uri).length)
  unsuccessful : ∀ n, (sharedKey, n) ∈ report.uriVisitCount ↔ 0 < n ∧
    n = (written.filter fun w => w.response.status ≠ .ok).length
  codes : ∀ code n, (code, n) ∈ report.statusCodeCount ↔ 0 < n ∧
    n = (written.filter fun w => ServerStatus.responseToString w.response.status = code).length

def prefixesNaming (paths : List PathStatement) (name : Bytes) : List Bytes :=
  (paths.filter fun path => path.handlerName = name).map PathStatement.uriPrefix

def ListsPaths (report : StatusReport) (paths : List PathStatement) : Prop :=
  ∀ name uris, (name, uris) ∈ report.handlerToUri ↔
    handlerClass name ≠ none ∧ uris ≠ [] ∧ uris = prefixesNaming paths name

end TscServer.Spec
