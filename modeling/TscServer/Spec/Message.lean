import TscServer.Model.Connection

/-!
# Well-formed request messages

A message is what a client means to send: a request line, header fields with any blanks between the
colon and the value, and a body. `Message.WellFormed` asks of it what the expressions of
`Request::Parse` ask for, a Content-Length that is the length of the body, and a connection that
stays open.
-/

namespace TscServer.Spec
open Lib Model

structure Field where
  name : Bytes
  blanks : Bytes := [32]
  value : Bytes
deriving DecidableEq

namespace Field

def line (f : Field) : Bytes := f.name ++ 58 :: (f.blanks ++ f.value)

structure WellFormed (f : Field) : Prop where
  name_ne_nil : f.name ≠ []
  name_bytes : ∀ c ∈ f.name, notSpace c = true ∧ c ≠ 58 ∧ c ≠ 0
  blanks_bytes : ∀ c ∈ f.blanks, c = 32 ∨ c = 9
  value_head : ∃ c ∈ f.value.head?, notSpace c = true
  value_bytes : ∀ c ∈ f.value, notLineEnd c = true ∧ c ≠ 0

/-- No colon of the value can be taken for the one that ends the name: none stands in the run of
non-blanks that follows the name, and none right after the blanks that end this run. -/
def OneColon (f : Field) : Prop :=
  let text := f.blanks ++ f.value
  58 ∉ text.takeWhile notSpace ∧
    ((text.dropWhile notSpace).dropWhile isSpace).head? ≠ some 58

end Field

structure Message where
  method : Bytes
  uri : Bytes
  version : Bytes
  fields : List Field
  body : Bytes := []
deriving DecidableEq

namespace Message

def requestLine (m : Message) : Bytes := m.method ++ 32 :: m.uri ++ 32 :: m.version

def head (m : Message) : Bytes :=
  m.requestLine ++ crlf ++ m.fields.flatMap (fun f => f.line ++ crlf) ++ crlf

def toBytes (m : Message) : Bytes := m.head ++ m.body

def request (m : Message) : Request where
  rawRequest := m.toBytes
  method := m.method
  uri := m.uri
  version := m.version
  headers := m.fields.map fun f => (f.name, f.value)
  body := m.body

structure WellFormed (m : Message) : Prop where
  method_ne_nil : m.method ≠ []
  method_bytes : ∀ c ∈ m.method, notSpace c = true ∧ c ≠ 0
  uri_slash : m.uri.head? = some 47
  uri_bytes : ∀ c ∈ m.uri, notSpace c = true ∧ c ≠ 0
  uri_no_dots : ¬ bytes ".." <:+: m.uri
  version_form : ∃ major minor : Bytes, m.version = bytes "HTTP/" ++ major ++ 46 :: minor ∧
    major ≠ [] ∧ minor ≠ [] ∧ (∀ c ∈ major, isDigit c = true) ∧ (∀ c ∈ minor, isDigit c = true)
  fields_ne_nil : m.fields ≠ []
  fields_wellFormed : ∀ f ∈ m.fields, f.WellFormed
  content_length : let value := m.request.getHeaderValueByName (bytes "Content-Length")
    (value = [] ∧ m.body = []) ∨
      (value ≠ [] ∧ (∀ c ∈ value, isDigit c = true) ∧ decimal value = m.body.length)
  body_size : m.body.length < 2 ^ 64
  keeps_alive : Connection.asksClose m.request = false

def OneColon (m : Message) : Prop := ∀ f ∈ m.fields, f.OneColon

end Message
end TscServer.Spec
