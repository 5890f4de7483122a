import TscServer.Lib.HeaderLines
import TscServer.Lib.Numeral
import TscServer.Spec.Upstream

/-!
# Answers from a cache file

What may change when a stored response is sent again, and which stored responses come back without any
other change. A header is known by the text before the first colon of its line.
-/

namespace TscServer.Spec
open Lib Model ProxyHandler

def fieldLines (raw : Bytes) : List Bytes := ((getlines raw).map Prod.fst).tail.takeWhile (· ≠ [13])

/-- A directive whose name is `max-age`, with or without an argument. -/
def MaxAge (directive : Bytes) : Prop :=
  lower (trimBlanks (directive.takeWhile (· != 61))) = bytes "max-age"

instance : DecidablePred MaxAge := fun _ => inferInstanceAs (Decidable (_ = _))

def KeptDirective (directive directive' : Bytes) : Prop :=
  directive' = directive ∨ MaxAge directive ∧ MaxAge directive'

inductive KeptLine : Bytes → Bytes → Prop
  | same (line : Bytes) : KeptLine line line
  | date {name : Bytes} (value value' : Bytes) : lower name = lower (bytes "Date") →
      KeptLine (name ++ 58 :: value) (name ++ 58 :: value')
  | cacheControl {name value value' : Bytes} : lower name = lower (bytes "Cache-Control") →
      List.Forall₂ KeptDirective (value.splitOn 44) (value'.splitOn 44) →
      KeptLine (name ++ 58 :: value) (name ++ 58 :: value')

structure Reproduces (stored served : Bytes) : Prop where
  statusLine : statusLineOf served = statusLineOf stored
  lines : List.Forall₂ KeptLine (fieldLines stored) (fieldLines served)
  body : bodyOf served = bodyOf stored

/-! ## Which lines are kept -/

-- the text after the first `": "`, and without one from the second byte on
def takenValue (line : Bytes) : Bytes := (substrFrom line (offset (find (bytes ": ") line) 2)).getD []

-- a line when its date was put into it, and the readings of the clocks that this takes
def datedLine (env : Environment) (n : Nat) (line : Bytes) : Bytes :=
  if contains (bytes "Date:") line then bytes "Date: " ++ env.date n ++ [13] else line

def afterDate (n : Nat) (line : Bytes) : Nat := if contains (bytes "Date:") line then n + 1 else n

-- what `UpdateCache` takes for the ETag
def renewedTag (header : Bytes) : Option Bytes :=
  if contains (bytes "Etag") header then some (takenValue header) else none

def TakenFor (directive token : Bytes) : Prop :=
  if contains (bytes "max-age") token then MaxAge directive else KeptDirective directive token

def RewritesRight (line : Bytes) : Prop :=
  if contains (bytes "Date:") line then bytes "Date:" <+: line
  else contains (bytes "Cache-Control") line = true →
    ∃ value, line = bytes "Cache-Control:" ++ value ∧
      List.Forall₂ TakenFor (value.splitOn 44) ((32 :: takenValue line).splitOn 44)

structure Reproducible (stored : Bytes) : Prop where
  undated : contains (bytes "Date:") (statusLineOf stored) = false
  uncontrolled : contains (bytes "Cache-Control") (statusLineOf stored) = false
  lines : ∀ line ∈ fieldLines stored, RewritesRight line

/-! ## Declared ages -/

-- the parts between the commas that stand outside of quoted strings
def splitDirectives : Bool → Bytes → List Bytes
  | _, [] => [[]]
  | true, 92 :: c :: s => (splitDirectives true s).modifyHead fun part => 92 :: c :: part
  | quoted, c :: s =>
      if c = 44 ∧ quoted = false then [] :: splitDirectives false s
      else (splitDirectives (quoted != (c == 34)) s).modifyHead (c :: ·)

def directives (value : Bytes) : List Bytes := (splitDirectives false value).map trimBlanks

def maxAgeOf (directive : Bytes) : Option Int :=
  let argument := trimBlanks ((directive.dropWhile (· != 61)).drop 1)
  if MaxAge directive ∧ IsNumeral argument then some (decimal argument) else none

-- the ages in a header line that is given without its line end
def declaredAges (line : Bytes) : List Int :=
  (headerValue? (bytes "Cache-Control") line).toList.flatMap fun value =>
    (directives value).filterMap maxAgeOf

/-- A Cache-Control line of the response has a `max-age` directive with this number. -/
def Declares (d : Delivered) (age : Int) : Prop := ∃ line ∈ d.lines, age ∈ declaredAges (dropReturn line)

/-- The text that an age is read from is a directive of the line, `max-age` with a number. -/
def ReadsDirective (line value : Bytes) : Prop :=
  ∃ control ∈ headerValue? (bytes "Cache-Control") (dropReturn line),
    trimBlanks (ageText value) ∈ directives control ∧ (maxAgeOf (trimBlanks (ageText value))).isSome

def ReadsAges (d : Delivered) : Prop :=
  ∀ line ∈ d.lines, ∀ value ∈ ageValue d.code line.dropLast, ∀ life > 0, cacheLife value = .ok life →
    ReadsDirective line value

def ReadsRenewals (d : Delivered) : Prop :=
  ∀ line ∈ d.lines, ∀ life, Renews line.dropLast life → ReadsDirective line line.dropLast

end TscServer.Spec
