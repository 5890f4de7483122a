import TscServer.Spec.CacheHit

/-!
# The history of a cache

What put the entries into a cache, and the responses that an entry goes back to: one that was stored,
and the 304 responses that renewed its entry since.
-/

namespace TscServer.Spec
open Lib Model ProxyHandler

/-- An entry comes from `MakeCache`, from the end of `UpdateCache`, or from `operator[]` on a missing
key. What `UpdateCache` reads is a response of the upstream, or it comes from a cache file. -/
inductive CacheEvent where
  | stored (key : Bytes) (sign : CacheSign) (d : Delivered)
  | rearmed (key : Bytes) (sign : CacheSign) (source : Option Delivered)
  | defaulted (key : Bytes)

-- the latest event comes first
abbrev CacheHistory := List CacheEvent

namespace CacheEvent

def key : CacheEvent → Bytes
  | stored key _ _ => key
  | rearmed key _ _ => key
  | defaulted key => key

def sign : CacheEvent → CacheSign
  | stored _ sign _ => sign
  | rearmed _ sign _ => sign
  | defaulted _ => {}

def response : CacheEvent → Option Delivered
  | stored _ _ d => some d
  | rearmed _ _ source => source
  | defaulted _ => none

end CacheEvent

-- what was last put under a key
def latestSign (key : Bytes) (history : CacheHistory) : Option CacheSign :=
  (history.find? (·.key = key)).map CacheEvent.sign

/-- The responses that the entry of a key goes back to, the latest first, when it was stored and then
only renewed by 304 responses. -/
def lineage (key : Bytes) : CacheHistory → Option (List Delivered)
  | [] => none
  | event :: earlier =>
      if event.key = key then
        match event with
        | .stored _ _ d => some [d]
        | .rearmed _ _ source =>
            (source.filter (·.code = 304)).bind fun d => (lineage key earlier).map (d :: ·)
        | .defaulted _ => none
      else lineage key earlier

-- the response that the entry of a key was made from
def latestResponse (key : Bytes) (history : CacheHistory) : Option Delivered :=
  (history.find? (·.key = key)).bind CacheEvent.response

-- the lines that `UpdateCache` renews an entry from
def renewalLines (d : Delivered) : List Bytes := (d.lines.map List.dropLast).takeWhile (· != [13])

/-! ## Validators -/

def eTagOf (d : Delivered) : Option Bytes :=
  (headerValues (bytes "ETag") (d.lines.map dropReturn)).getLast?

def validator : List Delivered → Bytes
  | [] => []
  | d :: earlier => (eTagOf d).getD (validator earlier)

def SpelledTag (name line : Bytes) : Prop :=
  ∃ value, line = name ++ bytes ": " ++ value ++ [13] ∧ trimBlanks value = value

def isTagLine (line : Bytes) : Bool := (headerValue? (bytes "ETag") (dropReturn line)).isSome

def ReadsTag (d : Delivered) : Prop :=
  ∀ line ∈ d.lines, isTagLine line ∨ headerName line.dropLast = bytes "ETag" →
    SpelledTag (bytes "ETag") line

structure RenewsTag (before : Bytes) (d : Delivered) : Prop where
  solid : ∀ line ∈ d.lines, line.dropLast ≠ [13]
  spelled : ∀ line ∈ d.lines, isTagLine line ∨ contains (bytes "Etag") line.dropLast = true →
    SpelledTag (bytes "Etag") line
  carries : before = [] ∨ ∃ line ∈ d.lines, isTagLine line = true

def KeepsTags : CacheHistory → Prop
  | [] => True
  | .stored _ _ d :: earlier => ReadsTag d ∧ KeepsTags earlier
  | .rearmed key _ source :: earlier => (∀ d ∈ source, d.code = 304 →
      ∀ responses ∈ lineage key earlier, RenewsTag (validator responses) d) ∧ KeepsTags earlier
  | .defaulted _ :: earlier => KeepsTags earlier

def TagsCurrent (s : ProxyState) (history : CacheHistory) : Prop :=
  ∀ key sign responses, s.cache.lookup key = some sign → lineage key history = some responses →
    sign.eTag = validator responses

end TscServer.Spec
