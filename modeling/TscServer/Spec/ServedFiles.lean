import TscServer.Model.MarkdownDocument
import TscServer.Spec.Responses

/-!
# Files that are served

What a client is to get for a file under a static handler, and what the converter of the handler has to do
with the model of the vendored one.
-/

namespace TscServer.Spec
open Lib Model StaticFileHandler

def isMarkdownFile (path : Bytes) : Bool := fileExtension path == bytes "md"

def fileBody (markdown : Bytes → Bytes) (path contents : Bytes) : Bytes :=
  if isMarkdownFile path then markdown contents else contents

def fileType (path : Bytes) : Bytes :=
  extension2type (if isMarkdownFile path then bytes "html" else fileExtension path)

structure ServedFile (body contentType : Bytes) (w : Written) : Prop where
  code : statusCode w.data = bytes "200"
  contentType : headerValues (bytes "Content-Type") (messageHead w.data).tail = [contentType]
  body : ∃ head, cutHead w.data = some (head, body)

/-- The converter writes what the model writes from some number of rounds on. -/
def Converts (markdown : Bytes → Bytes) (text : Bytes) : Prop :=
  ∀ html least, (∀ fuel, least ≤ fuel → Markdown.render fuel text = .ok html) → markdown text = html

end TscServer.Spec
