import TscServer.Lib.HeaderLines
import TscServer.Spec.Upstream

/-!
# Where a Location leads

An absolute URL by its parts, with the host, the port and the path that it stands for, and the
references that are none.
-/

namespace TscServer.Spec
open Lib Model ProxyHandler

/-! ## Absolute URLs -/

inductive UrlScheme where
  | http
  | https
deriving DecidableEq, Repr

namespace UrlScheme

def toBytes : UrlScheme → Bytes
  | http => bytes "http"
  | https => bytes "https"

def defaultPort : UrlScheme → Bytes
  | http => bytes "80"
  | https => bytes "443"

end UrlScheme

structure AbsoluteUrl where
  scheme : UrlScheme
  host : Bytes
  port : Option Bytes  -- `some []` for a colon that no digit follows
  path : Option Bytes
deriving DecidableEq, Repr

namespace AbsoluteUrl

def toBytes (url : AbsoluteUrl) : Bytes :=
  url.scheme.toBytes ++ bytes "://" ++ url.host ++ url.port.elim [] (58 :: ·) ++ url.path.getD []

structure WellFormed (url : AbsoluteUrl) : Prop where
  host_ne_nil : url.host ≠ []
  host_bytes : ∀ c ∈ url.host, c ≠ 47 ∧ c ≠ 58
  port_digits : ∀ port ∈ url.port, ∀ c ∈ port, isDigit c = true
  path_slash : ∀ path ∈ url.path, path.head? = some 47

def targetPort (url : AbsoluteUrl) : Bytes := (url.port.filter (· ≠ [])).getD url.scheme.defaultPort

def targetPath (url : AbsoluteUrl) : Bytes := url.path.getD (bytes "/")

end AbsoluteUrl

/-! ## Relative references -/

def isAlpha (c : UInt8) : Bool := (65 ≤ c && c ≤ 90) || (97 ≤ c && c ≤ 122)

def IsScheme (scheme : Bytes) : Prop :=
  ∃ c rest, scheme = c :: rest ∧ isAlpha c = true ∧
    ∀ d ∈ rest, isAlpha d || isDigit d || d == 43 || d == 45 || d == 46

def RelativeReference (location : Bytes) : Prop :=
  ∀ scheme rest, IsScheme scheme → location ≠ scheme ++ bytes "://" ++ rest

-- the header lines of a response without their line ends
def fieldsOf (d : Delivered) : List Bytes :=
  (d.entries.map fun entry => dropReturn entry.1).takeWhile fun line => !line.isEmpty

def withSlash (location : Bytes) : Bytes := if location.head? = some 47 then location else 47 :: location

/-- Behind the colon of a line named `Location`, and one more byte, stands no URL but a text that leads
to the same path; without such a line, the path is the one of the request itself. -/
structure ReadsLocation (d : Delivered) (uri location : Bytes) : Prop where
  spelled : ∀ line ∈ d.lines, headerName line.dropLast = bytes "Location" →
    ∀ text ∈ headerValue line.dropLast, ¬ bytes "://" <:+: text ∧ withSlash text = withSlash location
  unspelled : (∀ line ∈ d.lines, headerName line.dropLast ≠ bytes "Location") → uri = withSlash location

def SendsNextTo (env : Environment) (request : Request) (requestUri host port uri : Bytes) (s : ProxyState)
    (host' port' uri' : Bytes) : Prop :=
  ∃ s', (exchange env request requestUri host port uri).run s = .done (.redirected host' port' uri') s'

end TscServer.Spec
