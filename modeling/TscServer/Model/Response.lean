import TscServer.Lib.Numeral

/-!
# Responses

`Response` of `response.h` and `response.cc`.
-/

namespace TscServer.Model
open Lib

inductive ResponseCode where
  | none
  | ok
  | badRequest
  | notFound
  | internalServerError
  | redirect
deriving DecidableEq, Repr

def statusToString : ResponseCode → Bytes
  | .ok => bytes "200 OK\r\n"
  | .badRequest => bytes "400 Bad Request\r\n"
  | .notFound => bytes "404 Not Found\r\n"
  | .internalServerError => bytes "500 Internal Server Error\r\n"
  | .redirect => bytes "302 Redirect\r\n"
  | .none => bytes "500 Internal Server Error\r\n"

structure Response where
  version : Bytes := []
  status : ResponseCode := .none
  headers : List (Bytes × Bytes) := []
  body : Bytes := []
  rawResponse : Bytes := []
  isImage : Bool := false
deriving DecidableEq, Repr

namespace Response

def clear (_ : Response) : Response := {}

def setStatus (r : Response) (status : ResponseCode) : Response := { r with status }

def setBody (r : Response) (body : Bytes) : Response := { r with body }

def setRawResponse (r : Response) (rawResponse : Bytes) : Response := { r with rawResponse }

def setIsImage (r : Response) (isImage : Bool) : Response := { r with isImage }

def addHeader (r : Response) (name value : Bytes) : Response :=
  if r.headers.any (fun header => header.1 = name) then
    { r with headers := r.headers.map fun header => if header.1 = name then (name, value) else header }
  else { r with headers := r.headers ++ [(name, value)] }

section AddHeader
variable (r : Response) (name value : Bytes)

@[simp] theorem addHeader_status : (r.addHeader name value).status = r.status := by
  unfold addHeader
  split <;> rfl

@[simp] theorem addHeader_version : (r.addHeader name value).version = r.version := by
  unfold addHeader
  split <;> rfl

@[simp] theorem addHeader_rawResponse : (r.addHeader name value).rawResponse = r.rawResponse := by
  unfold addHeader
  split <;> rfl

@[simp] theorem addHeader_body : (r.addHeader name value).body = r.body := by
  unfold addHeader
  split <;> rfl

@[simp] theorem addHeader_isImage : (r.addHeader name value).isImage = r.isImage := by
  unfold addHeader
  split <;> rfl

end AddHeader

def toBytes (r : Response) : Bytes :=
  if r.rawResponse ≠ [] then r.rawResponse
  else
    (if r.version = [] then bytes "HTTP/1.1" else r.version) ++ bytes " " ++ statusToString r.status ++
      r.headers.flatMap (fun header => header.1 ++ bytes ": " ++ header.2 ++ crlf) ++ crlf ++ r.body

end Response
end TscServer.Model
