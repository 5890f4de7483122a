import Mathlib.Data.List.Basic
import Mathlib.Data.List.Forall2
import Mathlib.Data.List.Infix
import Mathlib.Data.List.TakeWhile

/-!
# Byte strings

The operations of `std::string` that scanning code uses, over lists: the first occurrence of a
pattern (`find`), cutting with a bounds check (`substr`), and the offset arithmetic on the result
of `find`, which wraps around when nothing was found.
-/

namespace TscServer.Lib

abbrev Bytes := List UInt8

def bytes (s : String) : Bytes := s.toList.map fun c => UInt8.ofNat c.toNat

def crlf : Bytes := [13, 10]

def crlfcrlf : Bytes := [13, 10, 13, 10]

def isSpace (c : UInt8) : Bool := c == 32 || (9 ≤ c && c ≤ 13)

def isDigit (c : UInt8) : Bool := 48 ≤ c && c ≤ 57

def hexDigit (c : UInt8) : Option Nat :=
  if isDigit c then some (c.toNat - 48)
  else if 97 ≤ c && c ≤ 102 then some (c.toNat - 87)
  else if 65 ≤ c && c ≤ 70 then some (c.toNat - 55)
  else none

/-- What a `const char*` made from the string denotes: it ends at the first NUL. -/
def cStr (s : Bytes) : Bytes := s.takeWhile (· != 0)

section Span
variable {α : Type} {p : α → Bool} {a b : List α}

theorem takeWhile_append_stop (all : ∀ c ∈ a, p c = true) (stops : ∀ c ∈ b.head?, p c = false) :
    (a ++ b).takeWhile p = a := by
  rw [List.takeWhile_append_of_pos all]
  cases b with
  | nil => simp
  | cons c b => simp [stops c rfl]

theorem dropWhile_append_stop (all : ∀ c ∈ a, p c = true) (stops : ∀ c ∈ b.head?, p c = false) :
    (a ++ b).dropWhile p = b := by
  rw [List.dropWhile_append_of_pos all]
  cases b with
  | nil => simp
  | cons c b => simp [stops c rfl]

theorem cut_unique {α : Type} [DecidableEq α] {c : α} {a a' s s' : List α} (h : c ∉ a) (h' : c ∉ a')
    (same : a ++ c :: s = a' ++ c :: s') : a = a' ∧ s = s' := by
  have front {a s : List α} (h : c ∉ a) : (a ++ c :: s).takeWhile (· != c) = a :=
    takeWhile_append_stop (fun d mem => by simpa using fun eq : d = c => h (eq ▸ mem)) (by simp)
  have first : a = a' := by rw [← front (s := s) h, same, front h']
  subst first
  exact ⟨rfl, (List.cons.inj (List.append_cancel_left same)).2⟩

end Span

theorem isSpace_of_isDigit_false {c : UInt8} (h : isDigit c = true) : isSpace c = false := by
  simp only [isDigit, isSpace, Bool.and_eq_true, decide_eq_true_eq] at h ⊢
  grind

theorem isSpace_of_lt {c : UInt8} (printable : 32 < c.toNat) : isSpace c = false := by
  by_contra blank
  have range : c ≠ 32 → 9 ≤ c.toNat ∧ c.toNat ≤ 13 := by
    simpa [isSpace, UInt8.le_iff_toNat_le] using blank
  by_cases space : c = 32
  · subst space
    simp at printable
  · have bounds := range space
    omega

theorem cStr_eq_self {s : Bytes} (h : 0 ∉ s) : cStr s = s := by
  apply List.takeWhile_eq_self_iff.mpr
  intro c hc
  simpa using fun e : c = 0 => h (e ▸ hc)

theorem zero_notMem_cStr (s : Bytes) : 0 ∉ cStr s := by
  intro h
  simpa using List.mem_takeWhile_imp h

theorem cStr_append {s t : Bytes} (h : 0 ∉ s) : cStr (s ++ t) = s ++ cStr t := by
  have all : ∀ c ∈ s, (c != 0) = true := fun c hc => by simpa using fun e : c = 0 => h (e ▸ hc)
  exact List.takeWhile_append_of_pos all

theorem cStr_append_of_mem {s : Bytes} (h : 0 ∈ s) (t : Bytes) : cStr (s ++ t) = cStr s := by
  induction s with
  | nil => simp at h
  | cons c s ih =>
      by_cases zero : c = 0
      · simp [cStr, zero]
      · have inner : 0 ∈ s := by simpa [Ne.symm zero] using h
        simpa [cStr, zero] using ih inner

section Search
variable {α : Type} [DecidableEq α]

/-- The position of the first occurrence of `pat`, `none` standing for `npos`. -/
def find (pat : List α) : List α → Option Nat
  | [] => if pat.isPrefixOf [] then some 0 else none
  | c :: s => if pat.isPrefixOf (c :: s) then some 0 else (find pat s).map (· + 1)

def contains (pat s : List α) : Bool := (find pat s).isSome

theorem find_eq_none_iff {pat s : List α} : find pat s = none ↔ ¬ pat <:+: s := by
  induction s with
  | nil => cases pat <;> simp [find]
  | cons c s ih =>
      rw [List.infix_cons_iff]
      by_cases h : pat <+: c :: s
      · simp [find, h]
      · simp [find, h, ih]

theorem contains_iff {pat s : List α} : contains pat s = true ↔ pat <:+: s := by
  rw [contains, Option.isSome_iff_ne_none, ne_eq, find_eq_none_iff, not_not]

theorem contains_eq_false_iff {pat s : List α} : contains pat s = false ↔ ¬ pat <:+: s := by
  rw [← contains_iff, Bool.not_eq_true]

theorem find_eq_some_iff {pat s : List α} {i : Nat} :
    find pat s = some i ↔ pat <+: s.drop i ∧ i ≤ s.length ∧ ∀ j < i, ¬ pat <+: s.drop j := by
  induction s generalizing i with
  | nil =>
      cases pat with
      | nil => simp +contextual [find, eq_comm]
      | cons => simp [find]
  | cons c s ih =>
      by_cases h : pat <+: c :: s
      · constructor
        · intro found
          simp only [find, List.isPrefixOf_iff_prefix, h, if_true, Option.some.injEq] at found
          subst found
          exact ⟨h, Nat.zero_le _, fun j hj => absurd hj (Nat.not_lt_zero j)⟩
        · rintro ⟨-, -, first⟩
          have zero : i = 0 := by
            by_contra ne
            exact first 0 (Nat.pos_of_ne_zero ne) h
          simp [find, h, zero]
      · cases i with
        | zero => simp [find, h]
        | succ i =>
            simp only [find, List.isPrefixOf_iff_prefix, h, if_false, Option.map_eq_some_iff,
              Nat.add_right_cancel_iff, exists_eq_right, ih, List.drop_succ_cons, List.length_cons,
              Nat.add_le_add_iff_right]
            refine and_congr_right fun _ => and_congr_right fun _ => ⟨fun first j hj => ?_, fun first j hj => ?_⟩
            · cases j with
              | zero => simpa using h
              | succ j => simpa using first j (by omega)
            · simpa using first (j + 1) (by omega)

theorem find_le {pat s : List α} {i : Nat} (h : find pat s = some i) : i + pat.length ≤ s.length := by
  obtain ⟨occurrence, le, -⟩ := find_eq_some_iff.mp h
  have := occurrence.length_le
  rw [List.length_drop] at this
  omega

end Search

/-! ## Lists in step -/

theorem exists_left_of_forall₂ {α β : Type} {R : α → β → Prop} {xs : List α} {ys : List β}
    (pairs : List.Forall₂ R xs ys) {y : β} (mem : y ∈ ys) : ∃ x ∈ xs, R x y := by
  induction pairs with
  | nil => cases mem
  | @cons x _ xs _ here _ ih =>
      rcases List.mem_cons.mp mem with rfl | mem
      · exact ⟨x, List.mem_cons_self, here⟩
      · obtain ⟨other, inside, related⟩ := ih mem
        exact ⟨other, List.mem_cons_of_mem x inside, related⟩

theorem exists_right_of_forall₂ {α β : Type} {R : α → β → Prop} {xs : List α} {ys : List β}
    (pairs : List.Forall₂ R xs ys) {x : α} (mem : x ∈ xs) : ∃ y ∈ ys, R x y :=
  exists_left_of_forall₂ (R := fun y x => R x y) pairs.flip mem

/-! ## Splitting -/

theorem splitOnP_map {α β : Type} (f : α → β) (p : β → Bool) (s : List α) :
    (s.map f).splitOnP p = (s.splitOnP (p ∘ f)).map (List.map f) := by
  induction s with
  | nil => simp [List.splitOnP_nil]
  | cons c s ih =>
      rw [List.map_cons, List.splitOnP_cons_eq_if_modifyHead, List.splitOnP_cons_eq_if_modifyHead, ih]
      by_cases sep : p (f c) = true
      · simp [sep]
      · simp only [sep, Function.comp_apply, if_false, Bool.false_eq_true]
        cases s.splitOnP (p ∘ f) <;> simp

theorem notMem_of_mem_splitOn {α : Type} [DecidableEq α] {c : α} {s part : List α}
    (mem : part ∈ s.splitOn c) : c ∉ part := by
  induction s generalizing part with
  | nil =>
      obtain rfl := List.mem_singleton.mp mem
      simp
  | cons d s ih =>
      rw [List.splitOn_cons_eq_if_modifyHead] at mem
      split at mem
      · rcases List.mem_cons.mp mem with rfl | mem
        · simp
        · exact ih mem
      · rename_i other
        obtain ⟨first, parts, split⟩ := List.exists_cons_of_ne_nil (List.splitOn_ne_nil c s)
        rw [split, List.modifyHead_cons] at mem
        rcases List.mem_cons.mp mem with rfl | mem
        · have here : c ∉ first := ih (by simp [split])
          have apart : c ≠ d := fun same => other (by simp [same])
          simp [here, apart]
        · exact ih (by simp [split, mem])

theorem splitOnP_parts {α : Type} (p : α → Bool) (s : List α) :
    (∀ first ∈ (s.splitOnP p).head?, first <+: s) ∧ ∀ segment ∈ s.splitOnP p, segment <:+: s := by
  induction s with
  | nil => simp [List.splitOnP_nil]
  | cons c s ih =>
      obtain ⟨front, inside⟩ := ih
      rw [List.splitOnP_cons_eq_if_modifyHead]
      split
      · refine ⟨by simp, fun segment mem => ?_⟩
        rcases List.mem_cons.mp mem with rfl | mem
        · exact List.nil_infix
        · exact List.infix_cons (inside segment mem)
      · cases segments : s.splitOnP p with
        | nil => simp
        | cons first others =>
            rw [segments] at front inside
            have extended : c :: first <+: c :: s :=
              List.prefix_cons_inj c |>.mpr (front first rfl)
            refine ⟨by simpa using extended, fun segment mem => ?_⟩
            rcases List.mem_cons.mp mem with rfl | mem
            · exact extended.isInfix
            · exact List.infix_cons (inside segment (List.mem_cons_of_mem first mem))

section Last
variable {α : Type} [DecidableEq α]

def findLast (c : α) : List α → Option Nat
  | [] => none
  | d :: s =>
      match findLast c s with
      | some i => some (i + 1)
      | none => if d = c then some 0 else none

theorem findLast_lt {c : α} {s : List α} {i : Nat} (h : findLast c s = some i) : i < s.length := by
  induction s generalizing i with
  | nil => simp [findLast] at h
  | cons d s ih =>
      simp only [findLast] at h
      split at h
      · rename_i found
        cases h
        simpa using ih found
      · split at h
        · cases h; simp
        · cases h

theorem findLast_eq_none_iff {c : α} {s : List α} : findLast c s = none ↔ c ∉ s := by
  induction s with
  | nil => simp [findLast]
  | cons d s ih =>
      simp only [findLast, List.mem_cons, not_or]
      split
      · rename_i found
        simp only [reduceCtorEq, false_iff, not_and, not_not]
        exact fun _ => by_contra fun absent => by simp [ih.mpr absent] at found
      · rename_i none
        simp [ih.mp none, eq_comm]

theorem findLast_of_mem {c : α} {s : List α} (mem : c ∈ s) : ∃ i, findLast c s = some i := by
  apply Option.ne_none_iff_exists'.mp
  exact fun absent => findLast_eq_none_iff.mp absent mem

theorem findLast_split {c : α} {s : List α} {i : Nat} (h : findLast c s = some i) :
    ∃ a b, s = a ++ c :: b ∧ a.length = i ∧ c ∉ b := by
  induction s generalizing i with
  | nil => cases h
  | cons d s ih =>
      rw [findLast] at h
      cases found : findLast c s with
      | some last =>
          rw [found] at h
          obtain rfl := Option.some.inj h
          obtain ⟨a, b, rfl, rfl, absent⟩ := ih found
          exact ⟨d :: a, b, rfl, rfl, absent⟩
      | none =>
          simp only [found, Option.ite_none_right_eq_some, Option.some.injEq] at h
          obtain ⟨rfl, rfl⟩ := h
          exact ⟨[], s, rfl, rfl, findLast_eq_none_iff.mp found⟩

end Last

section Cut
variable {α : Type}

def substrFrom (s : List α) (pos : Nat) : Option (List α) :=
  if pos ≤ s.length then some (s.drop pos) else none

/-- `substr(pos, count)`, which goes to the end of the string when that comes first. -/
def substr (s : List α) (pos count : Nat) : Option (List α) := (substrFrom s pos).map (List.take count)

/-- `found + k` for a result of `find`: `npos + k` wraps around to `k - 1`. -/
def offset (found : Option Nat) (k : Nat) : Nat := found.elim (k - 1) (· + k)

@[simp] theorem offset_none (k : Nat) : offset none k = k - 1 := rfl

@[simp] theorem offset_some (i k : Nat) : offset (some i) k = i + k := rfl

theorem substrFrom_isSome_iff {s : List α} {pos : Nat} :
    (substrFrom s pos).isSome ↔ pos ≤ s.length := by
  simp [substrFrom]

theorem substr_suffix {front rest : List α} {c : α} {pos count : Nat} (here : front.length = pos) :
    substr (front ++ c :: rest) (pos + 1) count = some (rest.take count) := by
  subst here
  have inside : front.length + 1 ≤ (front ++ c :: rest).length := by simp
  have suffix : (front ++ c :: rest).drop (front.length + 1) = rest := by
    rw [← List.drop_drop, List.drop_left]
    rfl
  rw [substr, substrFrom, if_pos inside, suffix]
  rfl

end Cut

end TscServer.Lib
