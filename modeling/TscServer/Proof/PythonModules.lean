import TscServer.Model.FormHandlers
import TscServer.Proof.UriDecoding

/-!
# Modules of the Python handler

The handler takes the module from the decoded URI, between the last slash and the last dot wherever
these are.
-/

namespace TscServer.Proof
open Lib Model Spec

theorem length_uriDecode_le {s decoded : Bytes} (read : Request.uriDecode s = some decoded) :
    decoded.length ≤ s.length := by
  fun_induction percentUnits s generalizing decoded with
  | case1 =>
      obtain rfl := Option.some.inj read
      exact Nat.le_refl _
  | case2 a b s ih =>
      rw [uriDecode_escape] at read
      obtain ⟨value, -, read⟩ := Option.bind_eq_some_iff.mp read
      obtain ⟨rest, later, rfl⟩ := Option.map_eq_some_iff.mp read
      have shorter := ih later
      simp only [List.length_cons]
      omega
  | case3 s short =>
      rw [uriDecode_cut short] at read
      cases read
  | case4 c s literal ih =>
      rw [uriDecode_literal literal] at read
      obtain ⟨rest, later, rfl⟩ := Option.map_eq_some_iff.mp read
      exact Nat.succ_le_succ (ih later)

section Script
variable {uri : Bytes} {start stop : Nat}

theorem pythonScript_of_lt (short : uri.length < 2 ^ 64) (slash : findLast 47 uri = some start)
    (dot : findLast 46 uri = some stop) (order : start < stop) : ∃ script,
    PythonHandler.pythonScript uri start stop = some script ∧ 47 ∉ script ∧ NamesModule uri script := by
  have bound := findLast_lt dot
  obtain ⟨front, segment, rfl, rfl, last⟩ := findLast_split slash
  obtain ⟨before, extension, cut, rfl, noDot⟩ := findLast_split dot
  obtain ⟨script, rfl, rfl⟩ : ∃ script,
      before = front ++ 47 :: script ∧ segment = script ++ 46 :: extension := by
    rcases List.append_eq_append_iff.mp cut with ⟨between, rfl, same⟩ | ⟨between, rfl, same⟩
    · cases between with
      | nil => simp at order
      | cons c script =>
          obtain ⟨rfl, rfl⟩ := List.cons.inj same
          exact ⟨script, rfl, rfl⟩
    · rw [List.length_append] at order
      omega
  rw [List.mem_append, not_or] at last
  refine ⟨script, ?_, last.1, front, _, rfl, ?_, .inl ⟨extension, rfl, noDot⟩⟩
  · have count : ((front ++ 47 :: script).length + 2 ^ 64 - (front.length + 1)) % 2 ^ 64 = script.length := by
      simp only [List.length_append, List.length_cons] at bound short ⊢
      omega
    rw [PythonHandler.pythonScript, substr_suffix rfl, count, List.take_left]
  · rw [List.mem_append, not_or]
    exact last

/-- The dot is in an earlier segment: the count wraps around and the script is the whole last one. -/
theorem pythonScript_of_gt (short : uri.length < 2 ^ 64) (slash : findLast 47 uri = some start)
    (dot : findLast 46 uri = some stop) (order : stop < start) : ∃ script,
    PythonHandler.pythonScript uri start stop = some script ∧ 47 ∉ script ∧ NamesModule uri script := by
  obtain ⟨front, segment, rfl, rfl, last⟩ := findLast_split slash
  obtain ⟨before, extension, cut, rfl, noDot⟩ := findLast_split dot
  have undotted : 46 ∉ segment := by
    rcases List.append_eq_append_iff.mp cut with ⟨between, rfl, same⟩ | ⟨between, rfl, same⟩
    · rw [List.length_append] at order
      omega
    · cases between with
      | nil => simp at order
      | cons c between =>
          obtain ⟨rfl, rfl⟩ := List.cons.inj same
          exact fun mem => noDot (by simp [mem])
  refine ⟨segment, ?_, last, front, segment, rfl, last, .inr ⟨undotted, rfl⟩⟩
  have count : segment.length ≤ (before.length + 2 ^ 64 - (front.length + 1)) % 2 ^ 64 := by
    simp only [List.length_append, List.length_cons] at short order ⊢
    omega
  rw [PythonHandler.pythonScript, substr_suffix rfl, List.take_of_length_le count]

theorem pythonScript_total (short : uri.length < 2 ^ 64) (slash : findLast 47 uri = some start)
    (dot : findLast 46 uri = some stop) : ∃ script,
    PythonHandler.pythonScript uri start stop = some script ∧ 47 ∉ script ∧ NamesModule uri script := by
  rcases Nat.lt_trichotomy start stop with order | same | order
  · exact pythonScript_of_lt short slash dot order
  · -- one byte would be a slash and a dot
    subst same
    obtain ⟨front, segment, rfl, rfl, -⟩ := findLast_split slash
    obtain ⟨before, extension, cut, same, -⟩ := findLast_split dot
    obtain ⟨-, ends⟩ := List.append_inj cut same.symm
    cases (List.cons.inj ends).1
  · exact pythonScript_of_gt short slash dot order

end Script

/-- Taking the script out of the decoded URI does not throw, and it names the module in its last
segment. -/
theorem pythonScript_names {r : Request} {uri : Bytes} (decoded : Request.uriDecode r.uri = some uri)
    (short : r.uri.length < 2 ^ 64) (slash : 47 ∈ uri) (dot : 46 ∈ uri) :
    ∃ start stop script, findLast 47 uri = some start ∧ findLast 46 uri = some stop ∧
      PythonHandler.pythonScript uri start stop = some script ∧ 47 ∉ script ∧ NamesModule uri script := by
  obtain ⟨start, slash⟩ := findLast_of_mem slash
  obtain ⟨stop, dot⟩ := findLast_of_mem dot
  have shorter := Nat.lt_of_le_of_lt (length_uriDecode_le decoded) short
  obtain ⟨script, returns⟩ := pythonScript_total shorter slash dot
  exact ⟨start, stop, script, slash, dot, returns⟩

theorem pythonScript_names_encoded : ∃ start stop script,
    findLast 47 (bytes "/v1.2/mod") = some start ∧ findLast 46 (bytes "/v1.2/mod") = some stop ∧
      PythonHandler.pythonScript (bytes "/v1.2/mod") start stop = some script ∧ 47 ∉ script ∧
      NamesModule (bytes "/v1.2/mod") script := by
  have decoded : Request.uriDecode (bytes "/v1%2E2%2Fmod") = some (bytes "/v1.2/mod") := by
    simp [bytes, Request.uriDecode, Request.extractHex, hexDigit, isSpace, isDigit, Request.toByte]
  have few : (bytes "/v1%2E2%2Fmod").length < 64 := by decide
  have short : (bytes "/v1%2E2%2Fmod").length < 2 ^ 64 := by omega
  exact pythonScript_names (r := { uri := bytes "/v1%2E2%2Fmod" }) decoded short (by decide) (by decide)

theorem python_not_outOfRange (handler : PythonHandler) (python : Interpreter) {r : Request}
    (short : r.uri.length < 2 ^ 64) (response : Response) :
    handler.handleRequest python r response ≠ .error .outOfRange := by
  intro threw
  unfold PythonHandler.handleRequest at threw
  split at threw
  · cases threw
  rename_i uri decoded
  split at threw
  · rename_i start stop slash dot
    have shorter := Nat.lt_of_le_of_lt (length_uriDecode_le decoded) short
    obtain ⟨script, returns, -⟩ := pythonScript_total shorter slash dot
    rw [returns] at threw
    split at threw
    · rename_i absent
      cases absent
    split at threw
    · cases threw
    split at threw
    · cases threw
    · cases threw
    · cases threw
  · cases threw

end TscServer.Proof
