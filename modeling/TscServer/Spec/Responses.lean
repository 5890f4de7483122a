import TscServer.Lib.HeaderLines
import TscServer.Model.ServerRun

/-!
# Responses as bytes

What a client reads off the bytes of a response: the status code, the length of the body, and whether
the connection is going to be closed. The statistics are compared with the responses written so far.
-/

namespace TscServer.Spec
open Lib Model

/-! ## The head -/

def statusCode (data : Bytes) : Bytes :=
  ((((messageHead data).headD []).dropWhile (· != 32)).drop 1).takeWhile isDigit

def AnnouncesClose (data : Bytes) : Prop :=
  ∃ value ∈ headerValues (bytes "Connection") (messageHead data).tail, lower value = bytes "close"

def Framed (data : Bytes) : Prop :=
  ∃ head body, cutHead data = some (head, body) ∧
    headerValues (bytes "Content-Length") (crlfLines head).tail = [toDecimal body.length]

/-! ## The statistics -/

def countedCode (data : Bytes) : Bytes :=
  if statusCode data = bytes "200" ∨ statusCode data = bytes "400" ∨ statusCode data = bytes "404" then
    statusCode data
  else bytes "500"

def count (counters : Counters) (key : Bytes) : Int := (counters.lookup key).getD 0

-- the key of `uri_visit_count` that unsuccessful responses share
def sharedKey : Bytes := bytes "uri with unsuccessful responses"

def sumWhere (p : Bytes → Bool) (entries : List (Sigma fun _ : Bytes => Int)) : Int :=
  (entries.filter fun entry => p entry.1).foldr (fun entry sum => entry.2 + sum) 0

def totalWhere (p : Bytes → Bool) (counters : Counters) : Int := sumWhere p counters.entries

def total (counters : Counters) : Int := totalWhere (fun _ => true) counters

structure Conserved (status : ServerStatus) : Prop where
  visits : status.totalVisit = total status.uriVisitCount
  codes : status.totalVisit = total status.statusCodeCount
  unsuccessful : count status.uriVisitCount sharedKey =
    totalWhere (fun code => code != bytes "200") status.statusCodeCount

def insertRecords (status : ServerStatus) (records : List (Bytes × ResponseCode)) : ServerStatus :=
  records.foldl (fun status record => status.insertRecord record.1 record.2) status

structure Tallies (records : List (Bytes × ResponseCode)) (status : ServerStatus) : Prop where
  conserved : Conserved status
  all : status.totalVisit = records.length
  uris : ∀ uri, uri ≠ sharedKey →
    count status.uriVisitCount uri = (records.filter fun record => record = (uri, .ok)).length

structure Accounts (status : ServerStatus) (written : List Written) : Prop where
  codes : ∀ code, count status.statusCodeCount code =
    (written.filter fun w => countedCode w.data = code).length
  uris : ∀ uri, uri ≠ sharedKey → count status.uriVisitCount uri =
    (written.filter fun w => statusCode w.data = bytes "200" ∧ w.request.uri = uri).length

def Truthful {ω : Type} (s : ServerState ω) : Prop := Accounts s.globals.serverStatus s.written

/-! ## Closing -/

section Closing
variable {ω : Type} (deployment : Deployment ω) (compression : Compression)

/-- Once the write of these bytes succeeds, the connection does what they announce: it closes, or it
reads on. -/
def KeepsWord (s : ServerState ω) (i : Nat) (data : Bytes) : Prop :=
  ∃ s' client,
    ServerState.step deployment compression s (.complete i (.write data) .success []) = some s' ∧
      s'.clients[i]? = some client ∧
      (client.conn.closed = true ↔ AnnouncesClose data) ∧
      (client.outstanding = [.readPartial] ↔ ¬ AnnouncesClose data)

def WordKept (s : ServerState ω) : Prop :=
  ∀ i client data, s.clients[i]? = some client → .write data ∈ client.outstanding →
    KeepsWord deployment compression s i data

end Closing
end TscServer.Spec
