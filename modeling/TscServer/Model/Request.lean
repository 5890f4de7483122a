import TscServer.Lib.Regex
import TscServer.Lib.Numeral

/-!
# Requests

`Request` of `request.h` and `Request::Parse`, `Request::uri_decode` and `Request::ToString` of
`request.cc`.
-/

namespace TscServer.Model
open Lib

structure Request where
  rawRequest : Bytes := []
  method : Bytes := []
  uri : Bytes := []
  version : Bytes := []
  headers : List (Bytes × Bytes) := []
  body : Bytes := []
deriving DecidableEq, Repr

def notLineEnd (c : UInt8) : Bool := c != 13 && c != 10

def notSpace (c : UInt8) : Bool := !isSpace c

def anyByte (_ : UInt8) : Bool := true

namespace Request

def getHeaderValueByName (r : Request) (name : Bytes) : Bytes :=
  ((r.headers.find? fun header => header.1 = name).map Prod.snd).getD []

def appendBody (r : Request) (leftBody : Bytes) : Request :=
  { r with body := r.body ++ leftBody, rawRequest := r.rawRequest ++ leftBody }

/-- `([^\r\n]*)\r\n(.+)\r\n\r\n(.*)` -/
def requestExpression : Regex UInt8 :=
  [.group [.star notLineEnd], .text (crlf.map Piece.lit), .group (Piece.plus anyByte),
    .text (crlfcrlf.map Piece.lit), .group [.star anyByte]]

/-- `(\S+)\s(/\S*)\s(HTTP/\d+\.\d+)` -/
def requestLineExpression : Regex UInt8 :=
  [.group (Piece.plus notSpace), .text [.one isSpace], .group [.lit 47, .star notSpace],
    .text [.one isSpace],
    .group ((bytes "HTTP/").map Piece.lit ++ Piece.plus isDigit ++ [.lit 46] ++ Piece.plus isDigit)]

/-- `(\S+)\s*:\s*(\S[^\r\n]*)` -/
def headerExpression : Regex UInt8 :=
  [.group (Piece.plus notSpace), .text [.star isSpace, .lit 58, .star isSpace],
    .group [.one notSpace, .star notLineEnd]]

/-- What the token iterator over the delimiter `\r\n` yields: the text between the delimiters, and
the text after the last one unless it is empty. -/
def headerTokens : Bytes → List Bytes
  | [] => []
  | 13 :: 10 :: s => [] :: headerTokens s
  | c :: s =>
      match headerTokens s with
      | [] => [[c]]
      | token :: tokens => (c :: token) :: tokens

def parseHeader (header : Bytes) : Option (Bytes × Bytes) :=
  match regexMatch headerExpression (cStr header) with
  | some [name, value] => some (name, value)
  | _ => none

def parse (raw : Bytes) : Option Request :=
  match regexMatch requestExpression (cStr raw) with
  | some [requestLine, headersStr, bodyStr] =>
      match regexMatch requestLineExpression (cStr requestLine) with
      | some [method, uri, version] =>
          if contains (bytes "..") uri then none
          else
            ((headerTokens headersStr).mapM parseHeader).map fun headers =>
              { rawRequest := raw, method, uri, version, headers, body := bodyStr }
      | _ => none
  | _ => none

/-- `is >> std::hex >> value` on a stream of two bytes. A leading blank is skipped, a sign accepted,
and a digit that no digit follows stands alone; after `0`, an `x` starts a number without digits. -/
def extractHex (a b : UInt8) : Option Int :=
  if isSpace a || a == 43 then (hexDigit b).map fun d => (d : Int)
  else if a == 45 then (hexDigit b).map fun d => -(d : Int)
  else
    (hexDigit a).bind fun high =>
      match hexDigit b with
      | some low => some (16 * high + low)
      | none => if a == 48 && (b == 120 || b == 88) then none else some high

def toByte (value : Int) : UInt8 := UInt8.ofNat (value % 256).toNat

def uriDecode : Bytes → Option Bytes
  | [] => some []
  | c :: s =>
      if c = 37 then  -- '%'
        match s with
        | a :: b :: s => (extractHex a b).bind fun value => (uriDecode s).map (toByte value :: ·)
        | _ => none
      else (uriDecode s).map ((if c = 43 then 32 else c) :: ·)

def toBytes (r : Request) : Bytes :=
  r.method ++ bytes " " ++ r.uri ++ bytes " " ++ r.version ++ crlf ++
    r.headers.flatMap (fun header => header.1 ++ bytes ": " ++ header.2 ++ crlf) ++ crlf ++ r.body

end Request
end TscServer.Model
