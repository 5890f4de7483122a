import TscServer.Model.StaticFileHandler

/-!
# Paths of static files

The file that a URI names under the prefix of a static file handler, and what it means that the handler
looks for that file.
-/

namespace TscServer.Spec
open Lib Model

def withIndex (path : Bytes) : Bytes :=
  if path.getLast? = some 47 then path ++ bytes "index.html" else path

def namedFile (handler : StaticFileHandler) (uri : Bytes) : Option Bytes :=
  (Request.uriDecode (uri.drop handler.uriPrefix.length)).map fun rest =>
    withIndex (handler.baseDir ++ bytes "/" ++ rest)

structure FindsFile (handler : StaticFileHandler) (request : Request) : Prop where
  returns : ∀ fs markdown s s',
    (handler.handleRequest fs markdown request).run s ≠ .threw .outOfRange s'
  path : ∀ decoded path, Request.uriDecode request.uri = some decoded →
    handler.filePath decoded = some path → namedFile handler request.uri = some path

end TscServer.Spec
