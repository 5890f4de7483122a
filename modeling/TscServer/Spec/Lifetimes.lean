import TscServer.Spec.CacheHistory

/-!
# Lifetimes that are shown

The `max-age` values that an answer from a cache file shows, each with the reading of the clock at
which it was written, and what makes such a value right.
-/

namespace TscServer.Spec
open Lib Model ProxyHandler

/-! ## What is shown -/

structure Shown where
  seconds : Int
  reading : Nat

/-- What is written for a line from the `n`-th reading of the clocks on, the values that it shows,
and the readings after it. -/
inductive LineShows (n : Nat) (line : Bytes) : Bytes → List Shown → Nat → Prop
  | plain : contains (bytes "Cache-Control") line = false → LineShows n line line [] n
  | control (seconds : Int) : contains (bytes "Cache-Control") line = true → LineShows n line
      (bytes "Cache-Control: " ++ rewriteMaxAge (intToDecimal seconds) ((takenValue line).splitOn 44))
      (if ((takenValue line).splitOn 44).any (contains (bytes "max-age")) then [⟨seconds, n⟩] else [])
      (n + 1)

inductive Shows (env : Environment) :
    Nat → List (Bytes × Option Bytes) → Bytes → List Shown → Nat → Prop
  | ended {n : Nat} : Shows env n [] [10] [] n
  | blank {n : Nat} {after : Option Bytes} {lines : List (Bytes × Option Bytes)} :
      Shows env n (([13], after) :: lines) (crlf ++ after.getD []) [] n
  | last {n n' : Nat} {line written : Bytes} {shown : List Shown} {lines : List (Bytes × Option Bytes)} :
      line ≠ [13] → LineShows (afterDate n line) (datedLine env n line) written shown n' →
      Shows env n ((line, none) :: lines) (written ++ [10]) shown n'
  | line {n n' n'' : Nat} {line written after following : Bytes} {shown later : List Shown}
      {lines : List (Bytes × Option Bytes)} : line ≠ [13] →
      LineShows (afterDate n line) (datedLine env n line) written shown n' →
      Shows env n' lines following later n'' →
      Shows env n ((line, some after) :: lines) (written ++ 10 :: following) (shown ++ later) n''

/-! ## What is right -/

/-- The value is what the entry has left, and not more than its response allows. -/
structure RightLifetime (env : Environment) (key : Bytes) (s : ProxyState) (d : Delivered)
    (shown : Shown) : Prop where
  left : ∃ sign expires, s.cache.lookup key = some sign ∧ sign.expiration = .at expires ∧
    shown.seconds = expires - env.clock shown.reading
  nonneg : 0 ≤ shown.seconds
  declared : ∃ age, Declares d age ∧ shown.seconds ≤ age

structure RenewsAge (d : Delivered) : Prop where
  renews : ∃ header ∈ renewalLines d, ∃ life, Renews header life
  reads : ReadsRenewals d

structure RightAges (history : CacheHistory) : Prop where
  stored : ∀ key sign d, .stored key sign d ∈ history → ReadsAges d
  renewed : ∀ key sign source, .rearmed key sign source ∈ history → ∃ d ∈ source, RenewsAge d

end TscServer.Spec
