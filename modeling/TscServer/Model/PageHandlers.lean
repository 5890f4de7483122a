import TscServer.Model.RequestHandler

/-!
# The echo, status and error handlers

`EchoHandler`, `StatusHandler` and `ErrorHandler`, which answer from the request, from the statistics
and from the status of the response.
-/

namespace TscServer.Model
open Lib

def Response.setPage (response : Response) (body contentType : Bytes) : Response :=
  ((response.setBody body).addHeader (bytes "Content-Length") (toDecimal body.length)).addHeader
    (bytes "Content-Type") contentType

namespace EchoHandler

def handleRequest (request : Request) (response : Response) : Status × Response :=
  (.ok, (response.setStatus .ok).setPage request.rawRequest (bytes "text/plain"))

end EchoHandler

namespace StatusHandler

def handleRequest (serverStatus : ServerStatus) (response : Response) : Status × Response :=
  (.ok, (response.setStatus .ok).setPage serverStatus.getStatusString (bytes "text/plain"))

end StatusHandler

namespace ErrorHandler

def badRequest : Bytes :=
  bytes "<html>" ++ bytes "<head><title>Bad Request</title></head>" ++
    bytes "<body><h1>400 Bad Request</h1></body>" ++ bytes "</html>"

def notFound : Bytes :=
  bytes "<html>" ++ bytes "<head><title>Not Found</title></head>" ++
    bytes "<body><h1>404 Not Found</h1></body>" ++ bytes "</html>"

def internalServerError : Bytes :=
  bytes "<html>" ++ bytes "<head><title>Internal Server Error</title></head>" ++
    bytes "<body><h1>500 Internal Server Error</h1></body>" ++ bytes "</html>"

def toBytes : ResponseCode → Bytes
  | .notFound => notFound
  | .badRequest => badRequest
  | _ => internalServerError

def handleRequest (response : Response) : Status × Response :=
  (.ok, response.setPage (toBytes response.status) (bytes "text/html"))

end ErrorHandler
end TscServer.Model
