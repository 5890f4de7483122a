import Mathlib.Data.List.Infix
import Mathlib.Data.List.TakeWhile
import Mathlib.Logic.Function.Basic

/-!
# Patterns

Regular expressions of the Perl kind with lazy repetitions, captures, back references and assertions. A
pattern is given by the ends of its matches from a spot, in the order in which backtracking tries them, so
that the first match of a larger pattern is the first of its ends. What is repeated takes at least one
symbol in each round.
-/

namespace TscServer.Lib

inductive Pattern (α : Type) where
  | empty
  | one (p : α → Bool)
  | seq (first second : Pattern α)
  | alt (first second : Pattern α)
  | rep (greedy : Bool) (min : Nat) (max : Option Nat) (body : Pattern α)
  | group (n : Nat) (body : Pattern α)
  | backref (n : Nat)
  | ahead (body : Pattern α)
  | notAhead (body : Pattern α)
  | edge (p : Option α → Option α → Bool)

/-- A place in a text: what was read of it, the last symbol first, and what is left. -/
structure Spot (α : Type) where
  before : List α
  rest : List α
  groups : Nat → Option (List α)

namespace Spot
variable {α : Type} {s t u : Spot α}

def start (text : List α) : Spot α := ⟨[], text, fun _ => none⟩

def take (s : Spot α) (n : Nat) : Spot α :=
  { s with before := (s.rest.take n).reverse ++ s.before, rest := s.rest.drop n }

def upTo (s t : Spot α) : List α := s.rest.take (s.rest.length - t.rest.length)

def capture (s : Spot α) (n : Nat) (t : Spot α) : Spot α :=
  { t with groups := Function.update t.groups n (some (s.upTo t)) }

structure Reads (s : Spot α) (span : List α) (t : Spot α) : Prop where
  rest : s.rest = span ++ t.rest
  before : t.before = span.reverse ++ s.before

theorem Reads.refl (s : Spot α) : Reads s [] s := ⟨rfl, rfl⟩

theorem Reads.trans {a b : List α} (first : Reads s a t) (second : Reads t b u) :
    Reads s (a ++ b) u := by
  constructor
  · rw [first.rest, second.rest, List.append_assoc]
  · rw [second.before, first.before, List.reverse_append, List.append_assoc]

theorem Reads.upTo {span : List α} (reads : Reads s span t) : s.upTo t = span := by
  simp [Spot.upTo, reads.rest]

@[simp] theorem take_zero (s : Spot α) : s.take 0 = s := by simp [take]

@[simp] theorem rest_take (s : Spot α) (n : Nat) : (s.take n).rest = s.rest.drop n := rfl

@[simp] theorem groups_take (s : Spot α) (n : Nat) : (s.take n).groups = s.groups := rfl

theorem reads_take (s : Spot α) (n : Nat) : Reads s (s.rest.take n) (s.take n) :=
  ⟨(List.take_append_drop n s.rest).symm, rfl⟩

theorem Reads.capture {span : List α} (reads : Reads s span t) (n : Nat) : Reads s span (u.capture n t) :=
  ⟨reads.rest, reads.before⟩

@[simp] theorem groups_capture_self (n : Nat) : (s.capture n t).groups n = some (s.upTo t) :=
  Function.update_self n _ _

theorem groups_capture_of_ne {m n : Nat} (other : m ≠ n) : (s.capture n t).groups m = t.groups m :=
  Function.update_of_ne other _ _

end Spot

namespace Pattern
open Spot
variable {α : Type}

/-- The spots after `min` to `max` rounds of the body, at most one round for each unit of fuel. -/
def rounds (body : Spot α → List (Spot α)) (greedy : Bool) : Nat → Nat → Option Nat → Spot α → List (Spot α)
  | 0, min, _, s => if min = 0 then [s] else []
  | fuel + 1, min, max, s =>
      let more :=
        if max = some 0 then []
        else ((body s).filter fun t => t.rest.length < s.rest.length).flatMap
          (rounds body greedy fuel (min - 1) (max.map (· - 1)))
      let stop := if min = 0 then [s] else []
      if greedy then more ++ stop else stop ++ more

section Ends
variable [DecidableEq α]

def ends : Pattern α → Spot α → List (Spot α)
  | .empty, s => [s]
  | .one p, s =>
      match s.rest with
      | [] => []
      | c :: _ => if p c then [s.take 1] else []
  | .seq a b, s => (a.ends s).flatMap b.ends
  | .alt a b, s => a.ends s ++ b.ends s
  | .rep greedy min max body, s => rounds body.ends greedy s.rest.length min max s
  | .group n body, s => (body.ends s).map (s.capture n)
  -- a group that took no part matches the empty text
  | .backref n, s =>
      if ((s.groups n).getD []).isPrefixOf s.rest then [s.take ((s.groups n).getD []).length] else []
  | .ahead body, s =>
      match (body.ends s).head? with
      | some t => [{ s with groups := t.groups }]
      | none => []
  | .notAhead body, s => if (body.ends s).isEmpty then [s] else []
  | .edge p, s => if p s.before.head? s.rest.head? then [s] else []

structure Match (α : Type) where
  pre : List α
  span : List α
  post : List α
  groups : Nat → Option (List α)

def Match.group (m : Match α) (n : Nat) : List α := (m.groups n).getD []

def fullMatch (p : Pattern α) (text : List α) : Option (Match α) :=
  ((p.ends (.start text)).find? fun t => t.rest.isEmpty).map fun t =>
    { pre := [], span := text, post := [], groups := t.groups }

def searchFrom (p : Pattern α) : List α → List α → Option (Match α)
  | before, rest =>
      match (p.ends ⟨before, rest, fun _ => none⟩).head? with
      | some t =>
          some
            { pre := before.reverse
              span := (Spot.mk before rest fun _ => none).upTo t
              post := t.rest
              groups := t.groups }
      | none =>
          match rest with
          | [] => none
          | c :: rest => searchFrom p (c :: before) rest

def search (p : Pattern α) (text : List α) : Option (Match α) := searchFrom p [] text

/-- The matches one after the other, each searched for in what follows the one before, and the text after
the last one. A match that takes nothing would be found for ever. -/
def searchAll (p : Pattern α) : Nat → List α → Option (List (Match α) × List α)
  | 0, _ => none
  | fuel + 1, text =>
      match p.search text with
      | none => some ([], text)
      | some m => (searchAll p fuel m.post).map fun (ms, last) => (m :: ms, last)

end Ends

/-! ## Abbreviations -/

def all (ps : List (Pattern α)) : Pattern α := ps.foldr .seq .empty

def lit [DecidableEq α] (text : List α) : Pattern α := all (text.map fun c => .one (· = c))

def star (p : Pattern α) : Pattern α := .rep true 0 none p

def plus (p : Pattern α) : Pattern α := .rep true 1 none p

def opt (p : Pattern α) : Pattern α := .rep true 0 (some 1) p

def lazyStar (p : Pattern α) : Pattern α := .rep false 0 none p

def lazyPlus (p : Pattern α) : Pattern α := .rep false 1 none p

def between (min max : Nat) (p : Pattern α) : Pattern α := .rep true min (some max) p

def exactly (n : Nat) (p : Pattern α) : Pattern α := .rep true n (some n) p

def any : Pattern α := .one fun _ => true

def behind (p : α → Bool) : Pattern α := .edge fun c _ => c.any p

def notBehind (p : α → Bool) : Pattern α := .edge fun c _ => !c.any p

/-! ## What the ends are -/

section Rounds
variable {body : Spot α → List (Spot α)} {greedy : Bool} {fuel min : Nat} {max : Option Nat} {s t : Spot α}

theorem cases_of_mem_rounds (mem : t ∈ rounds body greedy fuel min max s) :
    min = 0 ∧ t = s ∨ ∃ fuel', fuel = fuel' + 1 ∧ max ≠ some 0 ∧ ∃ u ∈ body s,
      u.rest.length < s.rest.length ∧ t ∈ rounds body greedy fuel' (min - 1) (max.map (· - 1)) u := by
  cases fuel with
  | zero =>
      rw [rounds] at mem
      split at mem
      · rename_i zero
        exact .inl ⟨zero, List.mem_singleton.mp mem⟩
      · cases mem
  | succ fuel =>
      have either : (max ≠ some 0 ∧ t ∈ ((body s).filter fun u => u.rest.length < s.rest.length).flatMap
          (rounds body greedy fuel (min - 1) (max.map (· - 1)))) ∨ (min = 0 ∧ t = s) := by
        rw [rounds] at mem
        split at mem <;> rcases List.mem_append.mp mem with h | h <;> split at h <;> simp_all
      rcases either with ⟨more, later⟩ | stop
      · obtain ⟨u, first, rest⟩ := List.mem_flatMap.mp later
        obtain ⟨here, shorter⟩ := List.mem_filter.mp first
        exact .inr ⟨fuel, rfl, more, u, here, by simpa using shorter, rest⟩
      · exact .inl stop

theorem exists_reads_of_mem_rounds (sound : ∀ s t, t ∈ body s → ∃ span, Reads s span t)
    (mem : t ∈ rounds body greedy fuel min max s) : ∃ span, Reads s span t := by
  induction fuel generalizing min max s with
  | zero =>
      rcases cases_of_mem_rounds mem with ⟨-, rfl⟩ | ⟨_, none_, -⟩
      · exact ⟨[], .refl t⟩
      · cases none_
  | succ fuel ih =>
      rcases cases_of_mem_rounds mem with ⟨-, rfl⟩ | ⟨_, more, -, u, first, -, later⟩
      · exact ⟨[], .refl t⟩
      · obtain rfl := Nat.succ.inj more
        obtain ⟨a, reads⟩ := sound s u first
        obtain ⟨b, reads'⟩ := ih later
        exact ⟨a ++ b, reads.trans reads'⟩

end Rounds

variable [DecidableEq α] {p q : Pattern α} {s t u : Spot α}

omit [DecidableEq α] in
theorem mem_ite_singleton {c : Prop} [Decidable c] : t ∈ (if c then [u] else []) ↔ c ∧ t = u := by
  by_cases here : c
  · rw [if_pos here, List.mem_singleton]
    exact (and_iff_right here).symm
  · rw [if_neg here]
    simp [here]

theorem ends_one_cons {f : α → Bool} {c : α} {rest : List α} (here : s.rest = c :: rest) :
    (one f).ends s = if f c then [s.take 1] else [] := by
  obtain ⟨before, rest', groups⟩ := s
  obtain rfl : rest' = c :: rest := here
  rfl

theorem mem_ends_one {f : α → Bool} :
    t ∈ (one f).ends s ↔ ∃ c, s.rest.head? = some c ∧ f c = true ∧ t = s.take 1 := by
  cases here : s.rest with
  | nil =>
      have none_ : (one f).ends s = [] := by
        obtain ⟨before, rest, groups⟩ := s
        obtain rfl : rest = [] := here
        rfl
      simp [none_]
  | cons c rest =>
      rw [ends_one_cons here, mem_ite_singleton]
      simp

theorem mem_ends_seq : t ∈ (seq p q).ends s ↔ ∃ u ∈ p.ends s, t ∈ q.ends u := List.mem_flatMap

theorem mem_ends_all_nil : t ∈ (all []).ends s ↔ t = s := List.mem_singleton

theorem mem_ends_all_cons {ps : List (Pattern α)} :
    t ∈ (all (p :: ps)).ends s ↔ ∃ u ∈ p.ends s, t ∈ (all ps).ends u := List.mem_flatMap

theorem ends_alt (p q : Pattern α) (s : Spot α) : (alt p q).ends s = p.ends s ++ q.ends s := rfl

theorem mem_ends_alt : t ∈ (alt p q).ends s ↔ t ∈ p.ends s ∨ t ∈ q.ends s := List.mem_append

theorem mem_ends_group {n : Nat} : t ∈ (group n p).ends s ↔ ∃ u ∈ p.ends s, s.capture n u = t := List.mem_map

theorem mem_ends_edge {f : Option α → Option α → Bool} :
    t ∈ (edge f).ends s ↔ t = s ∧ f s.before.head? s.rest.head? = true :=
  mem_ite_singleton.trans And.comm

theorem mem_ends_notAhead : t ∈ (notAhead p).ends s ↔ t = s ∧ p.ends s = [] := by
  rw [← List.isEmpty_iff, And.comm]
  exact mem_ite_singleton

theorem ends_ahead : (ahead p).ends s = (p.ends s).head?.toList.map fun u => { s with groups := u.groups } := by
  change (match (p.ends s).head? with
    | some u => [{ s with groups := u.groups }]
    | none => []) = _
  cases (p.ends s).head? <;> rfl

theorem mem_ends_ahead :
    t ∈ (ahead p).ends s ↔ ∃ u, (p.ends s).head? = some u ∧ { s with groups := u.groups } = t := by
  simp [ends_ahead, List.mem_map]

theorem mem_ends_backref {n : Nat} :
    t ∈ (backref n).ends s ↔
      ((s.groups n).getD []).isPrefixOf s.rest = true ∧ t = s.take ((s.groups n).getD []).length :=
  mem_ite_singleton

theorem exists_reads (mem : t ∈ p.ends s) : ∃ span, Reads s span t := by
  induction p generalizing s t with
  | empty =>
      obtain rfl := List.mem_singleton.mp mem
      exact ⟨[], .refl t⟩
  | one f =>
      obtain ⟨c, -, -, rfl⟩ := mem_ends_one.mp mem
      exact ⟨_, reads_take s 1⟩
  | seq p q ihp ihq =>
      obtain ⟨u, first, second⟩ := mem_ends_seq.mp mem
      obtain ⟨a, reads⟩ := ihp first
      obtain ⟨b, reads'⟩ := ihq second
      exact ⟨a ++ b, reads.trans reads'⟩
  | alt p q ihp ihq => exact (mem_ends_alt.mp mem).elim ihp ihq
  | rep greedy min max body ih => exact exists_reads_of_mem_rounds (fun _ _ => ih) mem
  | group n body ih =>
      obtain ⟨u, inner, rfl⟩ := mem_ends_group.mp mem
      obtain ⟨span, reads⟩ := ih inner
      exact ⟨span, reads.rest, reads.before⟩
  | backref n =>
      obtain ⟨-, rfl⟩ := mem_ends_backref.mp mem
      exact ⟨_, reads_take s _⟩
  | ahead body ih =>
      obtain ⟨u, -, rfl⟩ := mem_ends_ahead.mp mem
      exact ⟨[], rfl, rfl⟩
  | notAhead body ih =>
      obtain ⟨rfl, -⟩ := mem_ends_notAhead.mp mem
      exact ⟨[], .refl t⟩
  | edge f =>
      obtain ⟨rfl, -⟩ := mem_ends_edge.mp mem
      exact ⟨[], .refl t⟩

/-! ## Symbols that a match starts with, and symbols that it takes -/

def Begins (f : α → Bool) (p : Pattern α) : Prop :=
  ∀ s t, t ∈ p.ends s → s.rest.head?.any f = true

def Needs (f : α → Bool) (p : Pattern α) : Prop :=
  ∀ s t span, t ∈ p.ends s → Reads s span t → ∃ c ∈ span, f c = true

section Begins
variable {f : α → Bool}

theorem begins_one : Begins f (one f) := by
  intro s t mem
  obtain ⟨c, head, holds, -⟩ := mem_ends_one.mp mem
  simpa [head] using holds

theorem Begins.mono {g : α → Bool} (begins : Begins f p) (le : ∀ c, f c = true → g c = true) : Begins g p := by
  intro s t mem
  have here := begins s t mem
  cases head : s.rest.head? with
  | none => simp [head] at here
  | some c => simpa [head] using le c (by simpa [head] using here)

theorem Begins.seq (begins : Begins f p) : Begins f (.seq p q) := by
  intro s t mem
  obtain ⟨u, first, -⟩ := mem_ends_seq.mp mem
  exact begins s u first

theorem Begins.seq_edge {g : Option α → Option α → Bool} (begins : Begins f p) :
    Begins f (.seq (.edge g) p) := by
  intro s t mem
  obtain ⟨u, first, second⟩ := mem_ends_seq.mp mem
  obtain ⟨rfl, -⟩ := mem_ends_edge.mp first
  exact begins u t second

theorem Begins.alt (first : Begins f p) (second : Begins f q) : Begins f (.alt p q) :=
  fun s t mem => (mem_ends_alt.mp mem).elim (first s t) (second s t)

theorem Begins.group {n : Nat} (begins : Begins f p) : Begins f (.group n p) := by
  intro s t mem
  obtain ⟨u, inner, -⟩ := mem_ends_group.mp mem
  exact begins s u inner

theorem Begins.rep {greedy : Bool} {min : Nat} {max : Option Nat} (begins : Begins f p) (some_ : 0 < min) :
    Begins f (.rep greedy min max p) := by
  intro s t mem
  rcases cases_of_mem_rounds mem with ⟨none_, -⟩ | ⟨_, -, -, u, first, -⟩
  · omega
  · exact begins s u first

end Begins

section Needs
variable {f : α → Bool}

theorem needs_one : Needs f (one f) := by
  intro s t span mem reads
  obtain ⟨c, head, holds, rfl⟩ := mem_ends_one.mp mem
  refine ⟨c, ?_, holds⟩
  have span_eq : span = s.rest.take 1 := by
    rw [← reads.upTo, (reads_take s 1).upTo]
  cases rest : s.rest with
  | nil => simp [rest] at head
  | cons d rest =>
      rw [rest] at head span_eq
      simp_all

theorem Needs.seq_left (needs : Needs f p) : Needs f (.seq p q) := by
  intro s t span mem reads
  obtain ⟨u, first, second⟩ := mem_ends_seq.mp mem
  obtain ⟨a, reads₁⟩ := exists_reads first
  obtain ⟨b, reads₂⟩ := exists_reads second
  obtain ⟨c, here, holds⟩ := needs s u a first reads₁
  refine ⟨c, ?_, holds⟩
  rw [← reads.upTo, (reads₁.trans reads₂).upTo]
  exact List.mem_append_left b here

theorem Needs.seq_right (needs : Needs f q) : Needs f (.seq p q) := by
  intro s t span mem reads
  obtain ⟨u, first, second⟩ := mem_ends_seq.mp mem
  obtain ⟨a, reads₁⟩ := exists_reads first
  obtain ⟨b, reads₂⟩ := exists_reads second
  obtain ⟨c, here, holds⟩ := needs u t b second reads₂
  refine ⟨c, ?_, holds⟩
  rw [← reads.upTo, (reads₁.trans reads₂).upTo]
  exact List.mem_append_right a here

theorem Needs.alt (first : Needs f p) (second : Needs f q) : Needs f (.alt p q) :=
  fun s t span mem reads => (mem_ends_alt.mp mem).elim (first s t span · reads) (second s t span · reads)

theorem Needs.group {n : Nat} (needs : Needs f p) : Needs f (.group n p) := by
  intro s t span mem reads
  obtain ⟨u, inner, rfl⟩ := mem_ends_group.mp mem
  exact needs s u span inner ⟨reads.rest, reads.before⟩

theorem Needs.rep {greedy : Bool} {min : Nat} {max : Option Nat} (needs : Needs f p) (some_ : 0 < min) :
    Needs f (.rep greedy min max p) := by
  intro s t span mem reads
  rcases cases_of_mem_rounds mem with ⟨none_, -⟩ | ⟨_, -, -, u, first, -, later⟩
  · omega
  · obtain ⟨a, reads₁⟩ := exists_reads first
    obtain ⟨b, reads₂⟩ := exists_reads_of_mem_rounds (fun _ _ => exists_reads) later
    obtain ⟨c, here, holds⟩ := needs s u a first reads₁
    refine ⟨c, ?_, holds⟩
    rw [← reads.upTo, (reads₁.trans reads₂).upTo]
    exact List.mem_append_left b here

theorem Begins.needs (begins : Begins f p) (takes : ∀ s t, t ∈ p.ends s → t.rest.length < s.rest.length) :
    Needs f p := by
  intro s t span mem reads
  have head := begins s t mem
  have shorter := takes s t mem
  rw [reads.rest] at head shorter
  cases span with
  | nil => simp at shorter
  | cons c span => exact ⟨c, List.mem_cons_self, by simpa using head⟩

end Needs

end Pattern
end TscServer.Lib
