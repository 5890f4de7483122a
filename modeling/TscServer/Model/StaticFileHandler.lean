import TscServer.Model.RequestHandler

/-!
# The static file handler

`StaticFileHandler::Init` and `HandleRequest`. The file system is a parameter, and so is the
vendored markdown renderer. The files that `HandleRequest` opens are recorded.
-/

namespace TscServer.Model
open Lib

structure StaticFileHandler where
  uriPrefix : Bytes := []
  baseDir : Bytes := []
deriving DecidableEq

/-- What the handler asks of the file system. System calls see a path up to its first NUL, and
`exists` throws on errors other than a missing file, which is `none`. -/
structure FileSystem where
  isRegularFile : Bytes → Option Bool
  contents : Bytes → Option Bytes

structure StaticFileState where
  response : Response
  opened : List Bytes := []

namespace StaticFileHandler

/-- The loop over the statements of the child block. `none` when a statement without tokens is
indexed or the last character of an empty string is taken. -/
def initLoop : List NginxConfigStatement → Bytes → Nat → Option (Status × Bytes)
  | [], baseDir, _ => some (.ok, baseDir)
  | statement :: statements, baseDir, rootNum =>
      match statement.tokens with
      | [] => none
      | startToken :: arguments =>
          if startToken = bytes "root" then
            if rootNum > 0 ∨ statement.tokens.length ≠ 2 then some (.invalidRootFormat, baseDir)
            else
              match arguments.head?.bind List.getLast? with
              | none => none
              | some back =>
                  if back = 47 then some (.invalidRootFormat, baseDir)
                  else
                    let baseDir := arguments.headD []
                    initLoop statements
                      (if baseDir = bytes "/" then baseDir ++ bytes "." else baseDir) (rootNum + 1)
          else initLoop statements baseDir rootNum

def init (uriPrefix : Bytes) (config : NginxConfig) : Option (Status × StaticFileHandler) :=
  (initLoop config.statements [] 0).map fun (status, baseDir) => (status, { uriPrefix, baseDir })

def extension2type (extension : Bytes) : Bytes :=
  if extension = bytes "gif" then bytes "image/gif"
  else if extension = bytes "htm" then bytes "text/html"
  else if extension = bytes "html" then bytes "text/html"
  else if extension = bytes "jpg" ∨ extension = bytes "jpeg" then bytes "image/jpeg"
  else if extension = bytes "png" then bytes "image/png"
  else bytes "text/plain"

def filePath (handler : StaticFileHandler) (requestUri : Bytes) : Option Bytes :=
  (substrFrom requestUri handler.uriPrefix.length).map fun rest =>
    let path := handler.baseDir ++ bytes "/" ++ rest
    if path.getLast? = some 47 then path ++ bytes "index.html" else path

def fileExtension (path : Bytes) : Bytes :=
  match findLast 46 path, findLast 47 path with
  | some dot, some slash => if slash < dot then path.drop (dot + 1) else []
  -- no position is greater than `npos`
  | _, _ => []

def setStatus (code : ResponseCode) : Proc Fault StaticFileState Unit :=
  .modify fun s => { s with response := s.response.setStatus code }

def openFile (fs : FileSystem) (path : Bytes) : Proc Fault StaticFileState (Option Bytes) := do
  Proc.modify fun s => { s with opened := s.opened ++ [cStr path] }
  return fs.contents (cStr path)

@[simp] theorem run_setStatus_bind {α : Type} (code : ResponseCode)
    (f : Unit → Proc Fault StaticFileState α) (s : StaticFileState) :
    (setStatus code >>= f).run s = (f ()).run { s with response := s.response.setStatus code } := rfl

@[simp] theorem run_openFile_bind {α : Type} (fs : FileSystem) (path : Bytes)
    (f : Option Bytes → Proc Fault StaticFileState α) (s : StaticFileState) :
    (openFile fs path >>= f).run s =
      (f (fs.contents (cStr path))).run { s with opened := s.opened ++ [cStr path] } := rfl

def handleRequest (fs : FileSystem) (markdown : Bytes → Bytes) (handler : StaticFileHandler)
    (request : Request) : Proc Fault StaticFileState Status :=
  match Request.uriDecode request.uri with
  | none => do
      setStatus .badRequest
      return .handleFail
  | some requestUri => do
      let path ← Proc.ofOption .outOfRange (handler.filePath requestUri)
      let regular ← Proc.ofOption .filesystemError (fs.isRegularFile (cStr path))
      if !regular then
        setStatus .notFound
        return .handleFail
      else
        match ← openFile fs path with
        | none =>
            setStatus .notFound
            return .handleFail
        | some contents =>
            let isMarkdown := fileExtension path == bytes "md"
            let body := if isMarkdown then markdown contents else contents
            let extension := if isMarkdown then bytes "html" else fileExtension path
            Proc.modify fun s =>
              let response := ((s.response.setStatus .ok).setBody body).addHeader
                (bytes "Content-Length") (toDecimal body.length)
              let response := response.addHeader (bytes "Content-Type") (extension2type extension)
              { s with response :=
                  if extension = bytes "jpg" ∨ extension = bytes "png" ∨ extension = bytes "jpeg"
                  then response.setIsImage true else response }
            return .ok

end StaticFileHandler
end TscServer.Model
