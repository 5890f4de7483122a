import Mathlib.Data.List.Basic
import Mathlib.Data.List.Infix
import TscServer.Lib.ByteString

/-!
# Reading from a chunked stream

A peer's bytes arrive as the chunks that successive reads deliver. `readUntil` is `async_read_until`
and `read_until`: it completes as soon as the buffer holds the delimiter, and the buffer may then
hold any number of further bytes. `readExactly` is a read with `transfer_exactly`.
-/

namespace TscServer.Lib
variable {α : Type} [DecidableEq α]

/-- The buffer at completion and the chunks not yet read; `none` when the chunks end first. -/
def readUntil (delim : List α) : List (List α) → List α → Option (List α × List (List α))
  | [], buf => if contains delim buf then some (buf, []) else none
  | c :: cs, buf => if contains delim buf then some (buf, c :: cs) else readUntil delim cs (buf ++ c)

omit [DecidableEq α] in
/-- The `n` bytes read and the chunks left; `none` when the chunks end first. -/
def readExactly : List (List α) → Nat → Option (List α × List (List α))
  | [], n => if n = 0 then some ([], []) else none
  | c :: cs, n =>
      if n ≤ c.length then some (c.take n, c.drop n :: cs)
      else (readExactly cs (n - c.length)).map fun (data, rest) => (c ++ data, rest)

theorem readUntil_append {delim : List α} {chunks rest : List (List α)} {buf read : List α}
    (h : readUntil delim chunks buf = some (read, rest)) :
    read ++ rest.flatten = buf ++ chunks.flatten := by
  induction chunks generalizing buf with
  | nil =>
      simp only [readUntil] at h
      split at h
      · cases h; simp
      · cases h
  | cons c cs ih =>
      simp only [readUntil] at h
      split at h
      · cases h; rfl
      · simpa using ih h

theorem readUntil_contains {delim : List α} {chunks rest : List (List α)} {buf read : List α}
    (h : readUntil delim chunks buf = some (read, rest)) : delim <:+: read := by
  induction chunks generalizing buf with
  | nil =>
      simp only [readUntil] at h
      split at h
      · rename_i found; cases h; exact contains_iff.mp found
      · cases h
  | cons c cs ih =>
      simp only [readUntil] at h
      split at h
      · rename_i found; cases h; exact contains_iff.mp found
      · exact ih h

theorem readUntil_eq_none_iff {delim : List α} {chunks : List (List α)} {buf : List α} :
    readUntil delim chunks buf = none ↔ ¬ delim <:+: buf ++ chunks.flatten := by
  induction chunks generalizing buf with
  | nil => simp [readUntil, contains_iff]
  | cons c cs ih =>
      by_cases found : delim <:+: buf
      · have inside : delim <:+: buf ++ (c :: cs).flatten :=
          found.trans (List.infix_append' [] buf _)
        simpa [readUntil, contains_iff.mpr found] using inside
      · rw [readUntil, if_neg (by simpa [contains_iff] using found), ih]
        simp

omit [DecidableEq α] in
theorem readExactly_zero (chunks : List (List α)) : readExactly chunks 0 = some ([], chunks) := by
  cases chunks <;> simp [readExactly]

omit [DecidableEq α] in
theorem readExactly_append {chunks rest : List (List α)} {n : Nat} {data : List α}
    (h : readExactly chunks n = some (data, rest)) :
    data ++ rest.flatten = chunks.flatten ∧ data.length = n := by
  induction chunks generalizing n data with
  | nil =>
      simp only [readExactly] at h
      split at h
      · rename_i zero; cases h; simp [zero]
      · cases h
  | cons c cs ih =>
      simp only [readExactly] at h
      split at h
      · rename_i le
        cases h
        rw [List.flatten_cons, ← List.append_assoc, List.take_append_drop]
        exact ⟨rfl, by simp [le]⟩
      · obtain ⟨⟨tail, left⟩, read, eq⟩ := Option.map_eq_some_iff.mp h
        cases eq
        obtain ⟨flat, length⟩ := ih read
        exact ⟨by simp [flat], by simp [length]; omega⟩

/-! ## Chunks without bytes -/

theorem readUntil_replicate {delim data : List α} (some_ : contains delim [] = false)
    (found : contains delim data = true) (k : Nat) (rest : List (List α)) :
    readUntil delim (List.replicate k [] ++ data :: rest) [] = some (data, rest) := by
  induction k with
  | zero =>
      rw [List.replicate_zero, List.nil_append, readUntil, some_, List.nil_append]
      cases rest <;> simp [readUntil, found]
  | succ k ih =>
      rw [List.replicate_succ, List.cons_append, readUntil, some_, List.append_nil]
      exact ih

omit [DecidableEq α] in
theorem readExactly_replicate (data : List α) (k : Nat) (rest : List (List α)) :
    ∃ n, readExactly (List.replicate k [] ++ data :: rest) data.length =
      some (data, List.replicate n [] ++ rest) := by
  induction k with
  | zero => exact ⟨1, by simp [readExactly]⟩
  | succ k ih =>
      obtain ⟨n, read⟩ := ih
      rw [List.replicate_succ, List.cons_append, readExactly]
      split
      · rename_i none_
        obtain rfl := List.eq_nil_of_length_eq_zero (Nat.le_zero.mp none_)
        have one_ : List.replicate k [] ++ [] :: rest = List.replicate (k + 1) [] ++ rest := by
          rw [List.replicate_succ', List.append_assoc]
          rfl
        exact ⟨k + 2, by rw [one_]; rfl⟩
      · rw [List.length_nil, Nat.sub_zero, read]
        exact ⟨n, rfl⟩

end TscServer.Lib
