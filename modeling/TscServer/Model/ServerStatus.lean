import Mathlib.Data.List.AList
import TscServer.Lib.Numeral
import TscServer.Model.Response

/-!
# Server statistics

`ServerStatus` of `server_status.cc`: the counters, the handlers and their prefixes, and the text that
the status handler shows.
-/

namespace TscServer.Model
open Lib

abbrev Counters := AList fun _ : Bytes => Int

def Counters.increment (counters : Counters) (key : Bytes) : Counters :=
  counters.insert key ((counters.lookup key).getD 0 + 1)

structure ServerStatus where
  uriVisitCount : Counters := ∅
  statusCodeCount : Counters := ∅
  totalVisit : Int := 0
  handlerToUri : AList fun _ : Bytes => List Bytes := ∅

namespace ServerStatus

def responseToString : ResponseCode → Bytes
  | .ok => bytes "200"
  | .badRequest => bytes "400"
  | .notFound => bytes "404"
  | _ => bytes "500"

def insertRecord (status : ServerStatus) (uri : Bytes) (code : ResponseCode) : ServerStatus :=
  { status with
    uriVisitCount := status.uriVisitCount.increment
      (if code = .ok then uri else bytes "uri with unsuccessful responses")
    statusCodeCount := status.statusCodeCount.increment (responseToString code)
    totalVisit := status.totalVisit + 1 }

def addHandlerToUri (status : ServerStatus) (handlerName uri : Bytes) : ServerStatus :=
  { status with
    handlerToUri := status.handlerToUri.insert handlerName
      ((status.handlerToUri.lookup handlerName).getD [] ++ [uri]) }

def getRecordNum (status : ServerStatus) : Int := status.totalVisit

def sorted {β : Type} (entries : AList fun _ : Bytes => β) : List (Bytes × β) :=
  (entries.entries.map fun entry => (entry.1, entry.2)).mergeSort fun a b => decide (a.1 ≤ b.1)

def counterLines (counters : Counters) : Bytes :=
  (sorted counters).flatMap fun counter =>
    counter.1 ++ bytes ": " ++ intToDecimal counter.2 ++ bytes "\n"

def getStatusString (status : ServerStatus) : Bytes :=
  bytes "Information on the status of web server:\n" ++
    bytes "Total request received : " ++ intToDecimal status.getRecordNum ++ bytes "\n" ++ bytes "\n" ++
    bytes "Count of url requested:\n" ++ counterLines status.uriVisitCount ++ bytes "\n" ++
    bytes "Count of status code returned:\n" ++ counterLines status.statusCodeCount ++ bytes "\n" ++
    bytes "Existing handlers and their matching uri prefix: \n" ++
    (sorted status.handlerToUri).flatMap fun handler =>
      handler.1 ++ bytes ":" ++ handler.2.flatMap (fun uri => bytes " " ++ uri) ++ bytes "\n"

end ServerStatus
end TscServer.Model
