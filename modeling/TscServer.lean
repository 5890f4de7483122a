import TscServer.Lib.ByteString
import TscServer.Lib.Regex
import TscServer.Lib.Chunks
import TscServer.Lib.Numeral
import TscServer.Lib.FileTree
import TscServer.Lib.Proc
import TscServer.Lib.LoggedRun
import TscServer.Lib.IStream
import TscServer.Model.Request
import TscServer.Model.Response
import TscServer.Model.ServerStatus
import TscServer.Model.RequestHandler
import TscServer.Model.StaticFileHandler
import TscServer.Model.ProxyExchange
import TscServer.Model.ProxyHandler
import TscServer.Model.Connection
import TscServer.Spec.Message
import TscServer.Spec.Upstream
import TscServer.Proof.RequestParse
import TscServer.Proof.ConnectionSafety
import TscServer.Model.Session
import TscServer.Proof.Framing
import TscServer.Proof.StaticContainment
import TscServer.Proof.HeaderLoop
import TscServer.Proof.ResponseText
import TscServer.Proof.Exchange
import TscServer.Proof.CacheFiles
import TscServer.Proof.ExchangeLoop
import TscServer.Proof.Revalidation
import TscServer.Proof.Serving
import TscServer.Proof.Calls
import TscServer.Proof.FixedUpstream
import TscServer.Proof.Transparency
import TscServer.Proof.Storing
import TscServer.Proof.UpstreamSafety
import TscServer.Proof.Freshness
import TscServer.Proof.Methods
import TscServer.Proof.RevalidatedBody
import TscServer.Proof.SharedCache
import TscServer.Proof.RedirectBound
import TscServer.Proof.UpstreamRequest
import TscServer.Proof.RequestRoundTrip
import TscServer.Proof.ConfigRoundTrip
import TscServer.Proof.ConfiguredHandlers
import TscServer.Proof.StatusAccounting
import TscServer.Proof.Announcements
import TscServer.Proof.Replies
import TscServer.Proof.Routing
import TscServer.Proof.HeaderSplit
import TscServer.Proof.FormRoundTrip
import TscServer.Proof.PythonModules
import TscServer.Proof.StaticPaths
import TscServer.Proof.HeaderCase
import TscServer.Proof.Operations
import TscServer.Proof.CacheHit
import TscServer.Proof.Validators
import TscServer.Proof.Lifetimes
import TscServer.Proof.Redirects
import TscServer.Proof.ConfigOrder
import TscServer.Proof.UpstreamHeaders
import TscServer.Proof.SameResource
import TscServer.Lib.FileAttempts
import TscServer.Proof.NestedCalls
import TscServer.Proof.CacheReading
import TscServer.Model.BodyCompression
import TscServer.Spec.ContentCoding
import TscServer.Proof.ContentCoding
import TscServer.Proof.LineEndings
import TscServer.Proof.ConfigAccesses
import TscServer.Proof.NumericSettings
import TscServer.Lib.PatternLead
import TscServer.Model.MarkdownDocument
import TscServer.Spec.Emphasis
import TscServer.Proof.EmphasisEnds
import TscServer.Spec.MarkdownFragment
import TscServer.Proof.MarkdownFragment
import TscServer.Proof.MarkdownClash
import TscServer.Proof.MarkdownInput
import TscServer.Lib.Agreement
import TscServer.Lib.Components
import TscServer.Spec.Clients
import TscServer.Proof.ClientSteps
import TscServer.Proof.Clients
import TscServer.Proof.Provenance
import TscServer.Proof.StatusReport
import TscServer.Proof.ConfiguredStatus
import TscServer.Proof.ServedFiles
