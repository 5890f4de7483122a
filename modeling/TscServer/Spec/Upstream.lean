import TscServer.Model.ProxyHandler

/-!
# Responses of an upstream

What an upstream means to send: a status line, header lines and a body. Under it, what the header
loop of `HandleRequest` makes of a single line: whether it can be taken apart, and which age it
grants.
-/

namespace TscServer.Spec
open Lib Model ProxyHandler

/-! ## Messages -/

structure StatusText where
  version : Bytes
  code : Nat
  reason : Bytes
deriving DecidableEq

namespace StatusText

def toBytes (t : StatusText) : Bytes := t.version ++ 32 :: (toDecimal t.code ++ t.reason)

structure WellFormed (t : StatusText) : Prop where
  version_ne_nil : t.version ≠ []
  version_bytes : ∀ c ∈ t.version, notSpace c = true
  code_range : 100 ≤ t.code ∧ t.code ≤ 999
  reason_head : ∀ c ∈ t.reason.head?, c = 32
  reason_bytes : ∀ c ∈ t.reason, notLineEnd c = true

end StatusText

structure UpstreamResponse where
  status : StatusText
  lines : List Bytes
  body : Bytes
deriving DecidableEq

namespace UpstreamResponse

def toBytes (m : UpstreamResponse) : Bytes :=
  m.status.toBytes ++ crlf ++ m.lines.flatMap (· ++ crlf) ++ crlf ++ m.body

-- the header lines as `getline` returns them
def rawLines (m : UpstreamResponse) : List Bytes := m.lines.map (· ++ [13])

structure WellFormed (m : UpstreamResponse) : Prop where
  status : m.status.WellFormed
  lines_ne_nil : ∀ line ∈ m.lines, line ≠ []
  lines_bytes : ∀ line ∈ m.lines, ∀ c ∈ line, notLineEnd c = true

end UpstreamResponse

/-! ## Header lines -/

-- lines as `getline` returns them, each with its line feed
def block (lines : List Bytes) : Bytes := lines.flatMap (· ++ [10])

-- the lines that the loop takes apart: up to the blank one, and for 302 up to the first Location
def linesRead (code : Nat) : List (Bytes × Option Bytes) → List Bytes
  | [] => []
  | (line, _) :: lines =>
      if line = [13] then []
      else if code = 302 ∧ headerName line.dropLast = bytes "Location" then [line]
      else line :: linesRead code lines

def headLines (code : Nat) (s : Bytes) : List Bytes := linesRead code (getlines s)

-- what follows the blank line
def restAfter : List (Bytes × Option Bytes) → Bytes → Bytes
  | [], rest => rest
  | (line, after) :: lines, _ => if line = [13] then after.getD [] else restAfter lines (after.getD [])

-- the first line of a response, and what follows its blank line
def statusLineOf (raw : Bytes) : Bytes := ((getlines raw).head?.map Prod.fst).getD []

def bodyOf (raw : Bytes) : Bytes := restAfter (getlines raw) []

-- the text that an age is read from
def ageText (value : Bytes) : Bytes :=
  (value.drop ((find (bytes "max-age") value).getD 0)).takeWhile (· != 44)

-- the age that is read
def cacheLife (value : Bytes) : Except Fault Int :=
  match substrFrom (ageText value) 8 with
  | none => .error .outOfRange
  | some text =>
      match stoi text with
      | .error e => .error (.ofNumber e)
      | .ok life => .ok life

-- the value of a header that the loop reads a `max-age` from
def ageValue (code : Nat) (header : Bytes) : Option Bytes :=
  (headerValue header).filter fun value =>
    cacheable code && headerName header == bytes "Cache-Control" && !forbidsCaching value &&
      contains (bytes "max-age") value

-- the value of a header that the loop takes for the ETag
def tagValue (code : Nat) (header : Bytes) : Option Bytes :=
  (headerValue header).filter fun _ => cacheable code && headerName header == bytes "ETag"

def SafeLine (code : Nat) (line : Bytes) : Prop :=
  line ≠ [] ∧ (headerValue line.dropLast).isSome ∧
    ∀ value ∈ ageValue code line.dropLast, ∃ life, cacheLife value = .ok life

def Grants (code : Nat) (line : Bytes) (life : Int) : Prop :=
  ∃ value ∈ ageValue code line.dropLast, cacheLife value = .ok life

-- the faults that the text of a header line can cause
def HeaderFault (f : Fault) : Prop := f = .outOfRange ∨ f = .invalidArgument ∨ f = .popBackEmpty

-- the value of the Location that ends the loop
def locationRead (code : Nat) : List (Bytes × Option Bytes) → Option Bytes
  | [] => none
  | (line, _) :: lines =>
      if line = [13] then none
      else if code = 302 ∧ headerName line.dropLast = bytes "Location" then headerValue line.dropLast
      else locationRead code lines

/-- Lines from which `UpdateCache` reads its new expiration without an exception. A Cache-Control
line without a `max-age` ends the reading. -/
def RearmSafe : List Bytes → Prop
  | [] => True
  | header :: headers =>
      header = [13] ∨
        if contains (bytes "Cache-Control") header then
          if contains (bytes "max-age") header then
            (∃ life, cacheLife header = .ok life) ∧ RearmSafe headers
          else True
        else RearmSafe headers

def Rearms : List Bytes → Prop
  | [] => True
  | header :: headers =>
      header = [13] ∨
        (contains (bytes "Cache-Control") header = true →
          contains (bytes "max-age") header = true ∧ ∃ life, cacheLife header = .ok life) ∧
          Rearms headers

def Renews (header : Bytes) (life : Int) : Prop :=
  contains (bytes "Cache-Control") header = true ∧ contains (bytes "max-age") header = true ∧
    0 < life ∧ cacheLife header = .ok life

/-! ## Answers -/

/-- A response as it stands before the header loop: the status line, the lines that `getline` will
find in the buffer, the buffer, and what is still to be read. -/
structure Delivered where
  line : StatusLine
  code : Nat
  entries : List (Bytes × Option Bytes)
  buf : Bytes
  chunks : List Bytes
  eof : Bool

inductive Delivery where
  | failed
  | indeterminate
  | response (d : Delivered)

def delivery : Answer → Delivery
  | .error _ => .failed
  | .stream chunks eof =>
      match readUntil crlf chunks [] with
      | none => .failed
      | some (buf, chunks) =>
          let (line, stream) := readStatusLine buf
          match line.code with
          | none => .indeterminate
          | some code =>
              match readUntil crlfcrlf chunks stream.buf with
              | none => .failed
              | some (buf, chunks) =>
                  .response
                    { line, code, entries := if stream.good then getlines buf else []
                      buf, chunks, eof }

namespace Delivered

def lines (d : Delivered) : List Bytes := linesRead d.code d.entries

def body (d : Delivered) : Bytes := restAfter d.entries d.buf ++ d.chunks.flatten

-- without its line feed
def statusLine (d : Delivered) : Bytes :=
  d.line.version ++ bytes " " ++ toDecimal d.code ++ d.line.message

-- the response as it is put together again
def raw (d : Delivered) : Bytes :=
  d.line.toBytes d.code ++ d.lines.flatMap (fun line => line.dropLast ++ [10]) ++ crlf ++ d.body

def round (d : Delivered) (host port uri : Bytes) : Round :=
  if d.code = 302 then
    match locationRead d.code d.entries with
    | none => .redirected host port uri
    | some location =>
        let (host, port, uri) := parseLocation location host port
        .redirected host port uri
  else if !d.eof then .finished .handleFail (Response.setStatus {} .internalServerError)
  else .finished .ok (Response.setRawResponse {} d.raw)

end Delivered
end TscServer.Spec
