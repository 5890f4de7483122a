import TscServer.Model.FormHandlers
import TscServer.Proof.RequestImage
import TscServer.Proof.UriDecoding

/-!
# Forms that are decoded again

Both `ParseBody` functions decode the values of a form and keep its names as they stand.
`parseBody_iff` says which forms come back.
-/

namespace TscServer.Proof
open Lib Model Spec

/-! ## Encoded bytes -/

theorem hexDigit_solid {c : UInt8} (digit : (hexDigit c).isSome) :
    notSpace c = true ∧ c ≠ 0 ∧ c ≠ 38 ∧ c ≠ 61 := by
  obtain ⟨solid, -, -⟩ := notBlank_of_hexDigit digit
  rw [hexDigit_isSome_iff] at digit
  refine ⟨notSpace_iff.mpr solid, ?_, ?_, ?_⟩ <;>
    · rintro rfl
      simp at digit

theorem unreserved_solid {c : UInt8} (plain : isUnreserved c = true) :
    notSpace c = true ∧ c ≠ 0 ∧ c ≠ 38 ∧ c ≠ 61 := by
  have range : 45 ≤ c.toNat ∧ c.toNat ≤ 126 ∧ c.toNat ≠ 61 := by
    simp only [isUnreserved, isDigit, Bool.or_eq_true, Bool.and_eq_true, decide_eq_true_eq, beq_iff_eq,
      UInt8.le_iff_toNat_le, ← UInt8.toNat_inj] at plain
    simp only [UInt8.reduceToNat] at plain
    omega
  refine ⟨?_, ?_, ?_, ?_⟩
  · exact notSpace_iff.mpr (isSpace_of_lt (by omega))
  all_goals
    rintro rfl
    simp at range

theorem encoding_solid {s e : Bytes} (encodes : PercentEncodes isUnreserved s e) :
    ∀ c ∈ e, notSpace c = true ∧ c ≠ 0 ∧ c ≠ 38 ∧ c ≠ 61 :=
  encodes.bytes (by decide) (by decide) (fun _ => hexDigit_solid) (fun _ => unreserved_solid)

theorem uriDecode_encoding {s e : Bytes} (encodes : PercentEncodes isUnreserved s e) :
    Request.uriDecode e = some s := by
  have decoded := percentDecode_encoding encodes (by decide)
  rw [percentDecode] at decoded
  split at decoded
  · rename_i form
    rwa [uriDecode_of_wellFormed form]
  · cases decoded

/-! ## One field -/

theorem subBodyExpression_pieces : subBodyExpression.flatMap Term.pieces =
    [.one notSpace, .star notSpace, .lit 61, .star notSpace] := rfl

theorem match_subBody {name value : Bytes} (nonempty : name ≠ [])
    (names : ∀ c ∈ name, notSpace c = true) (values : ∀ c ∈ value, notSpace c = true ∧ c ≠ 61) :
    regexMatch subBodyExpression (name ++ 61 :: value) = some [name, value] := by
  cases name with
  | nil => exact absurd rfl nonempty
  | cons c name =>
      have rest : matchPieces [.lit 61, .star notSpace] (61 :: value) = some [[61], value] := by
        rw [matchPieces_lit_cons, matchPieces_star_end fun c mem => (values c mem).1]
        rfl
      have star : matchPieces [.star notSpace, .lit 61, .star notSpace] (name ++ 61 :: value) =
          some [name, [61], value] := by
        rw [matchPieces_star]
        apply matchStar_append (fun c mem => names c (by simp [mem])) rest
        intro a b split nonempty _
        cases a with
        | nil => exact absurd rfl nonempty
        | cons d a =>
            obtain ⟨rfl, tail⟩ := List.cons.inj split
            cases b with
            | nil => rfl
            | cons d b =>
                have other : d ≠ 61 := (values d (by rw [tail]; simp)).2
                simp [Piece.lit, other]
      rw [regexMatch, subBodyExpression_pieces, List.cons_append, matchPieces_one_cons,
        if_pos (names c (by simp)), star]
      simp [captures, subBodyExpression, Piece.plus]

theorem parseSubBody_field {pair : Bytes × Bytes} {name value : Bytes} (nonempty : pair.1 ≠ [])
    (encodesName : PercentEncodes isUnreserved pair.1 name)
    (encodesValue : PercentEncodes isUnreserved pair.2 value) :
    parseSubBody (name ++ 61 :: value) = some (name, pair.2) := by
  have names := encoding_solid encodesName
  have values := encoding_solid encodesValue
  have named : name ≠ [] := by
    rintro rfl
    exact nonempty (List.length_eq_zero_iff.mp (Nat.le_zero.mp encodesName.length_le))
  have noNul : 0 ∉ name ++ 61 :: value := by
    simp only [List.mem_append, List.mem_cons, not_or]
    exact ⟨fun mem => (names 0 mem).2.1 rfl, by decide, fun mem => (values 0 mem).2.1 rfl⟩
  rw [parseSubBody, cStr_eq_self noNul, match_subBody named (fun c mem => (names c mem).1)
    (fun c mem => ⟨(values c mem).1, (values c mem).2.2.2⟩)]
  simp only [uriDecode_encoding encodesValue, Option.map_some]

/-! ## A form -/

theorem mapM_parseSubBody_iff {pairs : List (Bytes × Bytes)} {fields : List Bytes}
    (encodes : List.Forall₂ EncodesField pairs fields) (named : ∀ pair ∈ pairs, pair.1 ≠ []) :
    fields.mapM parseSubBody = some pairs ↔ ∀ pair ∈ pairs, ∀ c ∈ pair.1, isUnreserved c = true := by
  induction encodes with
  | nil => simp
  | @cons pair field pairs fields here _ ih =>
      obtain ⟨name, value, encodesName, encodesValue, rfl⟩ := here
      have first := parseSubBody_field (named pair (by simp)) encodesName encodesValue
      have rest := ih fun other mem => named other (by simp [mem])
      have same : (name, pair.2) = pair ↔ ∀ c ∈ pair.1, isUnreserved c = true := by
        rw [← encodesName.eq_self_iff (by decide), Prod.ext_iff]
        simp
      rw [List.forall_mem_cons, ← same, ← rest, List.mapM_cons, first]
      cases fields.mapM parseSubBody <;> simp

theorem splitOn_form {pairs : List (Bytes × Bytes)} {fields : List Bytes} (nonempty : pairs ≠ [])
    (encodes : List.Forall₂ EncodesField pairs fields) :
    ([38].intercalate fields).splitOn 38 = fields := by
  apply List.splitOn_intercalate
  · intro field mem
    obtain ⟨pair, -, name, value, encodesName, encodesValue, rfl⟩ := exists_left_of_forall₂ encodes mem
    have names := encoding_solid encodesName
    have values := encoding_solid encodesValue
    simp only [List.mem_append, List.mem_cons, not_or]
    exact ⟨fun mem => (names 38 mem).2.2.1 rfl, by decide, fun mem => (values 38 mem).2.2.1 rfl⟩
  · rintro rfl
    cases encodes
    exact nonempty rfl

theorem parseBody_iff {pairs : List (Bytes × Bytes)} {body : Bytes} (nonempty : pairs ≠ [])
    (named : ∀ pair ∈ pairs, pair.1 ≠ []) (encodes : EncodesForm pairs body) :
    (DbHandler.parseBody body = some pairs ∧ PythonHandler.parseBody body = some pairs) ↔
      ∀ pair ∈ pairs, ∀ c ∈ pair.1, isUnreserved c = true := by
  obtain ⟨fields, encodesFields, rfl⟩ := encodes
  rw [DbHandler.parseBody, PythonHandler.parseBody, and_self, parseForm, splitOn_form nonempty encodesFields,
    mapM_parseSubBody_iff encodesFields named]

/-! ## A plain name, and one with a space -/

theorem encodesField_query {name encoded : Bytes} (encodes : PercentEncodes isUnreserved name encoded) :
    EncodesField (name, bytes "1 2") (encoded ++ bytes "=1+2") :=
  ⟨encoded, bytes "1+2", encodes, .literal rfl (.plus (.literal rfl .nil)), rfl⟩

theorem parseBody_plain_name :
    DbHandler.parseBody (bytes "query=1+2&id=a%26b") =
        some [(bytes "query", bytes "1 2"), (bytes "id", bytes "a&b")] ∧
      PythonHandler.parseBody (bytes "query=1+2&id=a%26b") =
        some [(bytes "query", bytes "1 2"), (bytes "id", bytes "a&b")] := by
  have query : EncodesField (bytes "query", bytes "1 2") (bytes "query=1+2") :=
    encodesField_query (.literal rfl (.literal rfl (.literal rfl (.literal rfl (.literal rfl .nil)))))
  have id_ : EncodesField (bytes "id", bytes "a&b") (bytes "id=a%26b") :=
    ⟨bytes "id", bytes "a%26b", .literal rfl (.literal rfl .nil),
      .literal rfl (.escape rfl rfl rfl (.literal rfl .nil)), rfl⟩
  have encodes : EncodesForm [(bytes "query", bytes "1 2"), (bytes "id", bytes "a&b")]
      (bytes "query=1+2&id=a%26b") :=
    ⟨[bytes "query=1+2", bytes "id=a%26b"], .cons query (.cons id_ .nil), by decide⟩
  exact (parseBody_iff (by decide) (by decide) encodes).mpr (by decide +kernel)

theorem parseBody_not_inverse : ¬ ∀ pairs body, pairs ≠ [] → (∀ pair ∈ pairs, pair.1 ≠ []) →
    EncodesForm pairs body →
      DbHandler.parseBody body = some pairs ∧ PythonHandler.parseBody body = some pairs := by
  intro inverse
  have name : PercentEncodes isUnreserved (bytes "a b") (bytes "a+b") := .literal rfl (.plus (.literal rfl .nil))
  have field : EncodesField (bytes "a b", bytes "1 2") (bytes "a+b=1+2") := encodesField_query name
  have encodes : EncodesForm [(bytes "a b", bytes "1 2")] (bytes "a+b=1+2") :=
    ⟨[bytes "a+b=1+2"], .cons field .nil, by decide⟩
  have lost : DbHandler.parseBody (bytes "a+b=1+2") ≠ some [(bytes "a b", bytes "1 2")] := by
    decide +kernel
  exact lost (inverse _ _ (by decide) (by decide) encodes).1

end TscServer.Proof
