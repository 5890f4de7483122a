import TscServer.Model.PageHandlers

/-!
# The Python and database handlers

`PythonHandler` and `DbHandler`, which decode a form from the body of the request. The Python
interpreter and the database are parameters.
-/

namespace TscServer.Model
open Lib

/-! ## Forms -/

abbrev DecodedBody := List (Bytes × Bytes)

/-- `(\S+)=(\S*)` -/
def subBodyExpression : Regex UInt8 :=
  [.group (Piece.plus notSpace), .text [.lit 61], .group [.star notSpace]]

def parseSubBody (subBody : Bytes) : Option (Bytes × Bytes) :=
  match regexMatch subBodyExpression (cStr subBody) with
  | some [name, value] => (Request.uriDecode value).map fun value => (name, value)
  | _ => none

/-- The loop of both `ParseBody` functions, which cuts the body at each `&`; `none` is `false`. -/
def parseForm (body : Bytes) : Option DecodedBody := (body.splitOn 38).mapM parseSubBody

/-! ## Python -/

structure PythonHandler where
  uriPrefix : Bytes := []
  baseDir : Bytes := []
  entryFunc : Bytes := []
deriving DecidableEq

inductive PythonResult where
  | failed
  | string (text : Bytes)
  | other  -- a value that is not a string
deriving DecidableEq, Repr

/-- The search path, the script, the function and the items of its argument, all up to the first
NUL. -/
abbrev Interpreter := Bytes → Bytes → Bytes → List (Bytes × Bytes) → PythonResult

namespace PythonHandler

def parseBody (body : Bytes) : Option DecodedBody := parseForm body

def initLoop : List NginxConfigStatement → PythonHandler → Nat → Nat → Option (Status × PythonHandler)
  | [], handler, _, _ =>
      some (if handler.baseDir = [] ∨ handler.entryFunc = [] then .invalidConfig else .ok, handler)
  | statement :: statements, handler, rootNum, funcNum =>
      match statement.tokens with
      | [] => none
      | startToken :: arguments =>
          if startToken = bytes "root" then
            if rootNum > 0 ∨ statement.tokens.length ≠ 2 then some (.invalidConfig, handler)
            else
              match arguments.head?.bind List.getLast? with
              | none => none
              | some back =>
                  if back = 47 then some (.invalidConfig, handler)
                  else
                    let baseDir := arguments.headD []
                    initLoop statements
                      { handler with
                        baseDir := if baseDir = bytes "/" then baseDir ++ bytes "." else baseDir }
                      (rootNum + 1) funcNum
          else if startToken = bytes "func" then
            if funcNum > 0 ∨ statement.tokens.length ≠ 2 then some (.invalidConfig, handler)
            else
              initLoop statements { handler with entryFunc := arguments.headD [] } rootNum (funcNum + 1)
          else initLoop statements handler rootNum funcNum

def init (uriPrefix : Bytes) (config : NginxConfig) : Option (Status × PythonHandler) :=
  initLoop config.statements { uriPrefix } 0 0

/-- `substr(start + 1, end - start - 1)`, where the count wraps around; `none` when it throws. -/
def pythonScript (requestUri : Bytes) (start stop : Nat) : Option Bytes :=
  substr requestUri (start + 1) ((stop + 2 ^ 64 - (start + 1)) % 2 ^ 64)

def handleRequest (handler : PythonHandler) (python : Interpreter) (request : Request)
    (response : Response) : Except Fault (Status × Response) :=
  match Request.uriDecode request.uri with
  | none => .ok (.handleFail, response.setStatus .badRequest)
  | some requestUri =>
      match findLast 47 requestUri, findLast 46 requestUri with
      | some start, some stop =>
          match pythonScript requestUri start stop with
          | none => .error .outOfRange
          | some script =>
              match parseBody request.body with
              | none => .ok (.handleFail, response.setStatus .badRequest)
              | some form =>
                  match python (cStr handler.baseDir) (cStr script) (cStr handler.entryFunc)
                      (form.map fun item => (cStr item.1, cStr item.2)) with
                  | .failed => .ok (.handleFail, response)
                  | .other => .error .logicError  -- a `std::string` of the null pointer
                  | .string text => .ok (.ok, (response.setStatus .ok).setPage (cStr text) (bytes "text/plain"))
      | _, _ => .ok (.handleFail, response.setStatus .badRequest)

end PythonHandler

/-! ## The database -/

structure Database where
  executeQuery : Bytes → Except Bytes (List (Int × Int))
  executeUpdate : Bytes → Except Bytes Unit

namespace DbHandler

def parseBody (body : Bytes) : Option DecodedBody := parseForm body

def reply (response : Response) (rep : Bytes) : Response :=
  (((response.setStatus .ok).addHeader (bytes "Content-Length") (toDecimal rep.length)).addHeader
    (bytes "Content-Type") (bytes "text/plain")).setBody rep

def queryTable (database : Database) (query : Bytes) (response : Response) : Bool × Response :=
  match database.executeQuery query with
  | .ok rows =>
      (true, reply response (bytes "MySQL Query Replies: \n" ++ rows.flatMap fun row =>
        intToDecimal row.1 ++ bytes " " ++ intToDecimal row.2 ++ bytes "\n"))
  | .error what => (false, reply response (bytes "ERR: " ++ cStr what))

def updateTable (database : Database) (update : Bytes) (response : Response) : Bool × Response :=
  match database.executeUpdate update with
  | .ok () => (true, reply response (bytes "Update the table!"))
  | .error what => (false, reply response (bytes "ERR: " ++ cStr what))

def handleRequest (database : Database) (request : Request) (response : Response) :
    Except Fault (Status × Response) :=
  match parseBody request.body with
  | none => .ok (.handleFail, response.setStatus .badRequest)
  | some [] => .error .indeterminateValue
  | some ((name, value) :: _) =>
      -- what the two functions return is dropped
      if name = bytes "query" then .ok (.ok, (queryTable database value response).2)
      else if name = bytes "update" then .ok (.ok, (updateTable database value response).2)
      else .ok (.handleFail, response.setStatus .badRequest)

end DbHandler
end TscServer.Model
