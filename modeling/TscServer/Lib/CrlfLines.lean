import TscServer.Lib.ByteString

/-!
# Lines that end in CRLF

A text is cut at its first blank line into a head and what follows, and a head at each CRLF into its
lines. Cutting undoes joining for lines that are not empty and contain neither of the two bytes.
-/

namespace TscServer.Lib

def crlfLines : Bytes → List Bytes
  | [] => [[]]
  | 13 :: 10 :: s => [] :: crlfLines s
  | c :: s =>
      match crlfLines s with
      | [] => [[c]]
      | line :: lines => (c :: line) :: lines

def cutHead (s : Bytes) : Option (Bytes × Bytes) :=
  (find crlfcrlf s).map fun i => (s.take i, s.drop (i + crlfcrlf.length))

def OneLine (line : Bytes) : Prop := ∀ c ∈ line, c ≠ 13 ∧ c ≠ 10

instance (line : Bytes) : Decidable (OneLine line) :=
  decidable_of_iff (line.all (fun c => c != 13 && c != 10) = true) (by simp [OneLine])

theorem OneLine.append {a b : Bytes} (first : OneLine a) (second : OneLine b) : OneLine (a ++ b) := by
  intro c mem
  rcases List.mem_append.mp mem with mem | mem
  · exact first c mem
  · exact second c mem

theorem oneLine_of_tail {c : UInt8} {line : Bytes} (one : OneLine (c :: line)) : OneLine line :=
  fun d mem => one d (List.mem_cons_of_mem c mem)

theorem OneLine.noCrlf {line : Bytes} (one : OneLine line) : ¬ crlf <:+: line := by
  intro inside
  have return_ : 13 ∈ line := inside.subset (by simp [crlf])
  exact (one 13 return_).1 rfl

theorem crlf_infix_append_cons {c : UInt8} (other : c ≠ 13 ∧ c ≠ 10) (a b : Bytes) :
    crlf <:+: a ++ c :: b ↔ crlf <:+: a ∨ crlf <:+: b := by
  induction a with
  | nil =>
      have start : ¬ crlf <+: c :: b := fun occurs => other.1 (List.cons_prefix_cons.mp occurs).1.symm
      have none : ¬ crlf <:+: ([] : Bytes) := by simp [crlf]
      rw [List.nil_append, List.infix_cons_iff]
      simp [start, none]
  | cons d a ih =>
      have start : crlf <+: d :: (a ++ c :: b) ↔ crlf <+: d :: a := by
        cases a with
        | nil => simp [crlf, List.cons_prefix_cons, other.2.symm]
        | cons e a => simp [crlf, List.cons_prefix_cons]
      rw [List.cons_append, List.infix_cons_iff, List.infix_cons_iff, ih, start, or_assoc]

theorem crlfLines_ne_nil (s : Bytes) : crlfLines s ≠ [] := by
  fun_cases crlfLines s <;> simp_all

theorem crlfLines_cons {c : UInt8} {s line : Bytes} {lines : List Bytes}
    (noEnd : ∀ t, c = 13 → s = 10 :: t → False) (rest : crlfLines s = line :: lines) :
    crlfLines (c :: s) = (c :: line) :: lines := by
  rw [crlfLines, rest]
  exact noEnd

theorem crlfLines_cut (s t : Bytes) : crlfLines (s ++ crlf ++ t) = crlfLines s ++ crlfLines t := by
  induction s using crlfLines.induct with
  | case1 => rfl
  | case2 s ih => exact congrArg ([] :: ·) ih
  | case3 c s noEnd none ih => exact absurd none (crlfLines_ne_nil s)
  | case4 c s noEnd line lines rest ih =>
      rw [rest, List.cons_append] at ih
      rw [crlfLines_cons noEnd rest]
      refine crlfLines_cons (fun u return_ same => ?_) ih
      cases s with
      | nil => cases same
      | cons d s =>
          obtain ⟨rfl, -⟩ := List.cons.inj same
          exact noEnd s return_ rfl

/-- A line may contain either of the two bytes, but not both of them as a line end. -/
theorem crlfLines_line {line : Bytes} (noCrlf : ¬ crlf <:+: line) : crlfLines line = [line] := by
  induction line with
  | nil => rfl
  | cons c line ih =>
      refine crlfLines_cons (fun t return_ same => noCrlf ?_) (ih fun inside => noCrlf ?_)
      · exact ⟨[], t, by rw [return_, same]; rfl⟩
      · exact List.infix_cons inside

theorem intercalate_crlf_append {lines lines' : List Bytes} (nonempty : lines ≠ [])
    (nonempty' : lines' ≠ []) : crlf.intercalate (lines ++ lines') =
      crlf.intercalate lines ++ crlf ++ crlf.intercalate lines' := by
  induction lines with
  | nil => exact absurd rfl nonempty
  | cons line lines ih =>
      cases lines with
      | nil => simp [List.intercalate_cons_of_ne_nil nonempty']
      | cons next lines =>
          rw [List.cons_append, List.intercalate_cons_of_ne_nil (by simp), ih (by simp)]
          simp [List.intercalate_cons_cons]

theorem crlfLines_intercalate {lines : List Bytes} (nonempty : lines ≠ [])
    (noCrlf : ∀ line ∈ lines, ¬ crlf <:+: line) : crlfLines (crlf.intercalate lines) = lines := by
  induction lines with
  | nil => exact absurd rfl nonempty
  | cons line lines ih =>
      have first := crlfLines_line (noCrlf line (by simp))
      cases lines with
      | nil => simpa using first
      | cons next lines =>
          have rest := ih (by simp) fun other mem => noCrlf other (by simp [mem])
          have cut : crlf.intercalate (line :: next :: lines) =
              line ++ crlf ++ crlf.intercalate (next :: lines) := by
            simp [List.intercalate_cons_cons]
          rw [cut, crlfLines_cut, first, rest]
          rfl

theorem intercalate_crlfLines (s : Bytes) : crlf.intercalate (crlfLines s) = s := by
  induction s using crlfLines.induct with
  | case1 => rfl
  | case2 s ih =>
      rw [crlfLines, List.intercalate_cons_of_ne_nil (crlfLines_ne_nil s), ih]
      rfl
  | case3 c s noEnd none ih => exact absurd none (crlfLines_ne_nil s)
  | case4 c s noEnd line lines rest ih =>
      rw [crlfLines_cons noEnd rest, List.intercalate_cons_cons_left, ← rest, ih]

theorem noCrlf_of_mem_crlfLines {s line : Bytes} (mem : line ∈ crlfLines s) : ¬ crlf <:+: line := by
  induction s using crlfLines.induct generalizing line with
  | case1 =>
      obtain rfl := List.mem_singleton.mp mem
      decide
  | case2 s ih =>
      rcases List.mem_cons.mp mem with rfl | mem
      · decide
      · exact ih mem
  | case3 c s noEnd none ih => exact absurd none (crlfLines_ne_nil s)
  | case4 c s noEnd first lines rest ih =>
      rw [crlfLines_cons noEnd rest] at mem
      rcases List.mem_cons.mp mem with rfl | mem
      · intro inside
        rcases List.infix_cons_iff.mp inside with start | inside
        · -- the text would begin with the two bytes as well
          obtain ⟨return_, feed⟩ := List.cons_prefix_cons.mp start
          obtain ⟨t, rfl⟩ := feed
          have text := intercalate_crlfLines s
          rw [rest, List.singleton_append, List.intercalate_cons_cons_left] at text
          exact noEnd _ return_.symm text.symm
        · exact ih (by simp [rest]) inside
      · exact ih (by simp [rest, mem])

theorem flatMap_crlf {lines : List Bytes} (nonempty : lines ≠ []) :
    lines.flatMap (· ++ crlf) = crlf.intercalate lines ++ crlf := by
  induction lines with
  | nil => exact absurd rfl nonempty
  | cons line lines ih =>
      cases lines with
      | nil => simp
      | cons next lines =>
          rw [List.flatMap_cons, ih (by simp)]
          simp [List.intercalate_cons_cons]

theorem find_cons {α : Type} [DecidableEq α] {pat s : List α} {c : α} (other : ¬ pat <+: c :: s) :
    find pat (c :: s) = (find pat s).map (· + 1) := by
  rw [find, if_neg]
  simpa using other

theorem find_crlfcrlf_line {line : Bytes} (one : OneLine line) (s : Bytes) :
    find crlfcrlf (line ++ s) = (find crlfcrlf s).map (· + line.length) := by
  induction line with
  | nil => simp
  | cons c line ih =>
      have other : ¬ crlfcrlf <+: c :: (line ++ s) := by
        intro pre
        obtain ⟨same, -⟩ := List.cons_prefix_cons.mp pre
        exact (one c (by simp)).1 same.symm
      rw [List.cons_append, find_cons other, ih (oneLine_of_tail one)]
      cases find crlfcrlf s with
      | none => rfl
      | some i => simp [Nat.add_assoc]

theorem find_crlfcrlf_crlf {c : UInt8} (other : c ≠ 13) (s : Bytes) :
    find crlfcrlf (crlf ++ c :: s) = (find crlfcrlf (c :: s)).map (· + 2) := by
  have first : ¬ crlfcrlf <+: 13 :: 10 :: c :: s := by
    simp [crlfcrlf, other.symm]
  have second : ¬ crlfcrlf <+: 10 :: c :: s := by
    simp [crlfcrlf]
  rw [crlf, List.cons_append, List.cons_append, List.nil_append, find_cons first, find_cons second]
  cases find crlfcrlf (c :: s) with
  | none => rfl
  | some i => rfl

theorem find_crlfcrlf_intercalate {lines : List Bytes} (nonempty : lines ≠ [])
    (one : ∀ line ∈ lines, line ≠ [] ∧ OneLine line) (rest : Bytes) :
    find crlfcrlf (crlf.intercalate lines ++ crlfcrlf ++ rest) =
      some (crlf.intercalate lines).length := by
  induction lines with
  | nil => exact absurd rfl nonempty
  | cons line lines ih =>
      obtain ⟨-, first⟩ := one line (by simp)
      cases lines with
      | nil =>
          have blank : find crlfcrlf (crlfcrlf ++ rest) = some 0 := by simp [find, crlfcrlf]
          rw [List.intercalate_singleton, List.append_assoc, find_crlfcrlf_line first, blank]
          simp
      | cons next lines =>
          have later := ih (by simp) fun other mem => one other (by simp [mem])
          obtain ⟨some_byte, nextOne⟩ := one next (by simp)
          obtain ⟨c, next, rfl⟩ := List.exists_cons_of_ne_nil some_byte
          obtain ⟨tail, head⟩ : ∃ tail, crlf.intercalate ((c :: next) :: lines) = c :: tail := by
            cases lines with
            | nil => exact ⟨next, by simp⟩
            | cons other lines => exact ⟨_, by simp [List.intercalate_cons_cons]; rfl⟩
          have cut : crlf.intercalate (line :: (c :: next) :: lines) =
              line ++ (crlf ++ crlf.intercalate ((c :: next) :: lines)) := by
            simp [List.intercalate_cons_cons]
          rw [head] at later cut
          rw [cut, List.append_assoc, List.append_assoc, find_crlfcrlf_line first, List.append_assoc,
            List.cons_append, find_crlfcrlf_crlf (nextOne c (by simp)).1, ← List.cons_append,
            ← List.append_assoc, later]
          simp [crlf]
          omega

theorem cutHead_intercalate {lines : List Bytes} (nonempty : lines ≠ [])
    (one : ∀ line ∈ lines, line ≠ [] ∧ OneLine line) (rest : Bytes) :
    cutHead (crlf.intercalate lines ++ crlfcrlf ++ rest) = some (crlf.intercalate lines, rest) := by
  rw [cutHead, find_crlfcrlf_intercalate nonempty one, Option.map_some, List.append_assoc,
    List.take_left, ← List.append_assoc, ← List.length_append, List.drop_left]

end TscServer.Lib
