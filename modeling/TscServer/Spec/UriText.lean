import TscServer.Lib.PercentCoding
import TscServer.Model.Request

/-!
# Encoded URIs and forms

Which escapes `Request::uri_decode` reads otherwise than as two digits, what a form is that a client
encodes, and which module a decoded URI names.
-/

namespace TscServer.Spec
open Lib Model

/-! ## Escapes -/

/-- An escape without two hexadecimal digits from which a number is extracted all the same: white space
or a sign before a digit, or a digit before another byte, unless they are the start of `0x`. -/
def misread : PercentUnit → Bool
  | .escape a b =>
      ((isSpace a || a == 43 || a == 45) && (hexDigit b).isSome) ||
        ((hexDigit a).isSome && (hexDigit b).isNone && !(a == 48 && (b == 120 || b == 88)))
  | _ => false

def rejected (unit : PercentUnit) : Bool := !unit.wellFormed && !misread unit

/-! ## Forms -/

def isUnreserved (c : UInt8) : Bool :=
  (97 ≤ c && c ≤ 122) || (65 ≤ c && c ≤ 90) || isDigit c || c == 45 || c == 46 || c == 95 || c == 126

def EncodesField (pair : Bytes × Bytes) (field : Bytes) : Prop :=
  ∃ name value, PercentEncodes isUnreserved pair.1 name ∧ PercentEncodes isUnreserved pair.2 value ∧
    field = name ++ 61 :: value

def EncodesForm (pairs : List (Bytes × Bytes)) (body : Bytes) : Prop :=
  ∃ fields, List.Forall₂ EncodesField pairs fields ∧ body = [38].intercalate fields

/-! ## Modules -/

def NamesModule (uri script : Bytes) : Prop :=
  ∃ front segment, uri = front ++ 47 :: segment ∧ 47 ∉ segment ∧
    ((∃ extension, segment = script ++ 46 :: extension ∧ 46 ∉ extension) ∨ 46 ∉ segment ∧ script = segment)

end TscServer.Spec
