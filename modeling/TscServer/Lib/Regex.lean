import Mathlib.Data.List.Basic
import Mathlib.Data.List.TakeWhile
import Mathlib.Data.List.Forall2

/-!
# Backtracking regular expressions

Perl matching for the expressions that are a sequence of character classes and starred classes,
cut into plain text and capture groups. A star is greedy: it first tries its longest span and gives
symbols back one at a time, and the first alternative that lets the rest match wins. Matching is
against the whole input, as `regex_match` does.
-/

namespace TscServer.Lib

inductive Piece (α : Type) where
  | one (p : α → Bool)
  | star (p : α → Bool)

inductive Term (α : Type) where
  | text (pieces : List (Piece α))
  | group (pieces : List (Piece α))

abbrev Regex (α : Type) := List (Term α)

namespace Piece
variable {α : Type}

def lit [DecidableEq α] (c : α) : Piece α := .one (· == c)

def plus (p : α → Bool) : List (Piece α) := [.one p, .star p]

def Fits : Piece α → List α → Prop
  | .one p, span => ∃ c, span = [c] ∧ p c = true
  | .star p, span => ∀ c ∈ span, p c = true

end Piece

namespace Term
variable {α : Type}

def pieces : Term α → List (Piece α)
  | .text ps => ps
  | .group ps => ps

end Term

section Match
variable {α : Type}

def matchStar (p : α → Bool) (k : List α → Option (List (List α))) :
    List α → Option (List (List α))
  | [] => (k []).map ([] :: ·)
  | c :: s =>
      if p c then
        match matchStar p k s with
        | some (span :: spans) => some ((c :: span) :: spans)
        | _ => (k (c :: s)).map ([] :: ·)
      else (k (c :: s)).map ([] :: ·)

def matchPieces : List (Piece α) → List α → Option (List (List α))
  | [], s => if s.isEmpty then some [] else none
  | .one p :: ps, s =>
      match s with
      | [] => none
      | c :: s => if p c then (matchPieces ps s).map ([c] :: ·) else none
  | .star p :: ps, s => matchStar p (matchPieces ps) s

def captures : Regex α → List (List α) → List (List α)
  | [], _ => []
  | .text ps :: e, spans => captures e (spans.drop ps.length)
  | .group ps :: e, spans => (spans.take ps.length).flatten :: captures e (spans.drop ps.length)

def regexMatch (e : Regex α) (s : List α) : Option (List (List α)) :=
  (matchPieces (e.flatMap Term.pieces) s).map (captures e)

@[simp] theorem matchPieces_nil (s : List α) :
    matchPieces ([] : List (Piece α)) s = if s.isEmpty then some [] else none := rfl

@[simp] theorem matchPieces_one_nil (p : α → Bool) (ps : List (Piece α)) :
    matchPieces (.one p :: ps) [] = none := rfl

@[simp] theorem matchPieces_one_cons (p : α → Bool) (ps : List (Piece α)) (c : α) (s : List α) :
    matchPieces (.one p :: ps) (c :: s) =
      if p c then (matchPieces ps s).map ([c] :: ·) else none := rfl

theorem matchPieces_star (p : α → Bool) (ps : List (Piece α)) (s : List α) :
    matchPieces (.star p :: ps) s = matchStar p (matchPieces ps) s := rfl

theorem matchStar_eq_none_iff {p : α → Bool} {k : List α → Option (List (List α))} {s : List α} :
    matchStar p k s = none ↔ ∀ a b, s = a ++ b → (∀ c ∈ a, p c = true) → k b = none := by
  induction s with
  | nil => simp [matchStar]
  | cons c s ih =>
      constructor
      · intro none_here a b split all
        cases a with
        | nil =>
            simp only [List.nil_append] at split
            subst split
            simp only [matchStar] at none_here
            split at none_here
            · split at none_here
              · cases none_here
              · simpa using none_here
            · simpa using none_here
        | cons d a =>
            simp only [List.cons_append, List.cons.injEq] at split
            obtain ⟨rfl, rfl⟩ := split
            have pc : p c = true := all c (by simp)
            simp only [matchStar, pc, if_true] at none_here
            split at none_here
            · cases none_here
            · rename_i noSpan
              refine ih.mp ?_ a b rfl (fun d hd => all d (by simp [hd]))
              cases h : matchStar p k (a ++ b) with
              | none => rfl
              | some spans =>
                  cases spans with
                  | cons span spans => exact absurd h (noSpan span spans)
                  | nil =>
                      exfalso
                      cases ab : a ++ b with
                      | nil => simp [ab, matchStar] at h
                      | cons e t =>
                          simp only [ab, matchStar] at h
                          split at h
                          · split at h <;> simp at h
                          · simp at h
      · intro none_all
        have here : k (c :: s) = none := none_all [] (c :: s) rfl (by simp)
        by_cases pc : p c = true
        · have rest : matchStar p k s = none := by
            rw [ih]
            intro a b split all
            exact none_all (c :: a) b (by simp [split]) (by simpa [pc] using all)
          simp [matchStar, pc, rest, here]
        · simp [matchStar, pc, here]

/-- A star takes `a` when the rest matches after `a` and after no longer span. -/
theorem matchStar_append {p : α → Bool} {k : List α → Option (List (List α))} {a b : List α}
    {r : List (List α)} (all : ∀ c ∈ a, p c = true) (after : k b = some r)
    (longer : ∀ a' b', b = a' ++ b' → a' ≠ [] → (∀ c ∈ a', p c = true) → k b' = none) :
    matchStar p k (a ++ b) = some (a :: r) := by
  induction a with
  | nil =>
      cases b with
      | nil => simp [matchStar, after]
      | cons c b =>
          by_cases pc : p c = true
          · have rest : matchStar p k b = none := by
              rw [matchStar_eq_none_iff]
              intro a' b' split all'
              exact longer (c :: a') b' (by simp [split]) (by simp) (by simpa [pc] using all')
            simp [matchStar, pc, rest, after]
          · simp [matchStar, pc, after]
  | cons c a ih =>
      have pc : p c = true := all c (by simp)
      have rest := ih (fun d hd => all d (by simp [hd]))
      simp [matchStar, pc, rest]

/-- A star followed by a symbol outside its class takes everything before that symbol. -/
theorem matchStar_longest {p : α → Bool} {k : List α → Option (List (List α))} {a b : List α}
    {r : List (List α)} (all : ∀ c ∈ a, p c = true)
    (stops : ∀ c ∈ b.head?, p c = false) (after : k b = some r) :
    matchStar p k (a ++ b) = some (a :: r) := by
  apply matchStar_append all after
  intro a' b' split nonempty all'
  cases a' with
  | nil => exact absurd rfl nonempty
  | cons c a' =>
      have pc := all' c (by simp)
      have outside := stops c (by simp [split])
      simp [outside] at pc

theorem matchStar_greedy {p : α → Bool} {k : List α → Option (List (List α))} {s : List α}
    {spans : List (List α)} (h : matchStar p k s = some spans) :
    ∃ a b rest, spans = a :: rest ∧ s = a ++ b ∧ (∀ c ∈ a, p c = true) ∧ k b = some rest ∧
      ∀ a' b', b = a' ++ b' → a' ≠ [] → (∀ c ∈ a', p c = true) → k b' = none := by
  induction s generalizing spans with
  | nil =>
      obtain ⟨rest, hk, rfl⟩ := Option.map_eq_some_iff.mp h
      refine ⟨[], [], rest, rfl, rfl, by simp, hk, fun a' b' split nonempty => ?_⟩
      exact absurd (List.append_eq_nil_iff.mp split.symm).1 nonempty
  | cons c s ih =>
      have stop (h : (k (c :: s)).map ([] :: ·) = some spans)
          (longer : p c = true → matchStar p k s = none) :
          ∃ a b rest, spans = a :: rest ∧ c :: s = a ++ b ∧ (∀ c ∈ a, p c = true) ∧
            k b = some rest ∧
            ∀ a' b', b = a' ++ b' → a' ≠ [] → (∀ c ∈ a', p c = true) → k b' = none := by
        obtain ⟨rest, hk, rfl⟩ := Option.map_eq_some_iff.mp h
        refine ⟨[], c :: s, rest, rfl, rfl, by simp, hk, ?_⟩
        intro a' b' split nonempty all
        cases a' with
        | nil => exact absurd rfl nonempty
        | cons d a' =>
            obtain ⟨rfl, rfl⟩ := List.cons.inj split
            have fails := longer (all c (by simp))
            exact matchStar_eq_none_iff.mp fails a' b' rfl fun d mem => all d (by simp [mem])
      simp only [matchStar] at h
      split at h
      · rename_i pc
        split at h
        · rename_i span spans' found
          obtain ⟨a, b, rest, heq, rfl, all, hk, longer⟩ := ih found
          obtain ⟨rfl, rfl⟩ := List.cons.inj heq
          refine ⟨c :: span, b, spans', (Option.some.inj h).symm, rfl, ?_, hk, longer⟩
          simpa [pc] using all
        · rename_i noSpan
          apply stop h
          intro _
          cases found : matchStar p k s with
          | none => rfl
          | some spans =>
              obtain ⟨a, b, rest, rfl, -⟩ := ih found
              exact absurd found (noSpan a rest)
      · rename_i outside
        exact stop h fun inside => absurd inside outside

theorem matchStar_sound {p : α → Bool} {k : List α → Option (List (List α))} {s : List α}
    {spans : List (List α)} (h : matchStar p k s = some spans) :
    ∃ a b rest, spans = a :: rest ∧ s = a ++ b ∧ (∀ c ∈ a, p c = true) ∧ k b = some rest := by
  obtain ⟨a, b, rest, same, split, all, hk, -⟩ := matchStar_greedy h
  exact ⟨a, b, rest, same, split, all, hk⟩

theorem matchPieces_complete {ps : List (Piece α)} {spans : List (List α)}
    (fits : List.Forall₂ Piece.Fits ps spans) : matchPieces ps spans.flatten ≠ none := by
  induction fits with
  | nil => simp
  | @cons q span ps spans here _ ih =>
      cases q with
      | one p =>
          obtain ⟨c, rfl, pc⟩ := here
          simpa [pc] using ih
      | star p =>
          intro fails
          rw [matchPieces_star, matchStar_eq_none_iff] at fails
          exact ih (fails span spans.flatten rfl here)

@[simp] theorem matchPieces_lit_cons [DecidableEq α] (c : α) (ps : List (Piece α)) (s : List α) :
    matchPieces (.lit c :: ps) (c :: s) = (matchPieces ps s).map ([c] :: ·) := by
  simp [Piece.lit]

theorem matchPieces_lits_append [DecidableEq α] (w : List α) (ps : List (Piece α)) (s : List α) :
    matchPieces (w.map Piece.lit ++ ps) (w ++ s) = (matchPieces ps s).map (w.map ([·]) ++ ·) := by
  induction w with
  | nil => simp
  | cons c w ih => simp [ih, Function.comp_def]

theorem matchPieces_one_sound {p : α → Bool} {ps : List (Piece α)} {s : List α}
    {spans : List (List α)} (h : matchPieces (.one p :: ps) s = some spans) :
    ∃ c s' rest, s = c :: s' ∧ spans = [c] :: rest ∧ p c = true ∧ matchPieces ps s' = some rest := by
  cases s with
  | nil => cases h
  | cons c s =>
      rw [matchPieces_one_cons] at h
      split at h
      · rename_i here
        obtain ⟨rest, found, rfl⟩ := Option.map_eq_some_iff.mp h
        exact ⟨c, s, rest, rfl, rfl, here, found⟩
      · cases h

theorem matchPieces_lits_sound [DecidableEq α] {w : List α} {ps : List (Piece α)} {s : List α}
    {spans : List (List α)} (h : matchPieces (w.map Piece.lit ++ ps) s = some spans) :
    ∃ s' spans', s = w ++ s' ∧ spans = w.map ([·]) ++ spans' ∧ matchPieces ps s' = some spans' := by
  induction w generalizing s spans with
  | nil => exact ⟨s, spans, rfl, rfl, h⟩
  | cons c w ih =>
      obtain ⟨d, s, rest, rfl, rfl, same, found⟩ := matchPieces_one_sound h
      obtain ⟨s', spans', rfl, rfl, final⟩ := ih found
      obtain rfl : d = c := by simpa using same
      exact ⟨s', spans', rfl, rfl, final⟩

theorem matchPieces_lits_eq_none [DecidableEq α] {w : List α} {ps : List (Piece α)} {s : List α}
    (h : ¬ w <+: s) : matchPieces (w.map Piece.lit ++ ps) s = none := by
  induction w generalizing s with
  | nil => exact absurd (List.nil_prefix) h
  | cons c w ih =>
      cases s with
      | nil => rfl
      | cons d s =>
          by_cases eq : d = c
          · subst eq
            have rest : ¬ w <+: s := fun pre => h (by simpa using pre)
            simp [Piece.lit, ih rest]
          · simp [Piece.lit, eq]

theorem matchPieces_star_end {p : α → Bool} {s : List α} (all : ∀ c ∈ s, p c = true) :
    matchPieces [.star p] s = some [s] := by
  have h := matchStar_longest (k := matchPieces []) (b := []) all (by simp) rfl
  simpa [matchPieces_star] using h

/-! ## Matching up to a map of the symbols -/

section Map
variable (f : α → α)

def Keeps : Piece α → Prop
  | .one p => ∀ c, p (f c) = p c
  | .star p => ∀ c, p (f c) = p c

variable {f}

theorem matchStar_map {p : α → Bool} {k k' : List α → Option (List (List α))}
    (keeps : ∀ c, p (f c) = p c)
    (rest : ∀ s, k' (s.map f) = (k s).map (List.map (List.map f))) (s : List α) :
    matchStar p k' (s.map f) = (matchStar p k s).map (List.map (List.map f)) := by
  induction s with
  | nil =>
      have here := rest []
      rw [List.map_nil] at here
      simp only [List.map_nil, matchStar, here, Option.map_map]
      rfl
  | cons c s ih =>
      have here := rest (c :: s)
      rw [List.map_cons] at here
      simp only [List.map_cons, matchStar, keeps, ih, here]
      split
      · cases found : matchStar p k s with
        | none => simp [Function.comp_def]
        | some spans => cases spans <;> simp [Function.comp_def]
      · simp [Function.comp_def]

theorem matchPieces_map {ps : List (Piece α)} (keeps : ∀ piece ∈ ps, Keeps f piece) (s : List α) :
    matchPieces ps (s.map f) = (matchPieces ps s).map (List.map (List.map f)) := by
  induction ps generalizing s with
  | nil => cases s <;> simp
  | cons piece ps ih =>
      have rest := ih fun other mem => keeps other (by simp [mem])
      have here := keeps piece (by simp)
      cases piece with
      | one p =>
          cases s with
          | nil => rfl
          | cons c s =>
              have same : p (f c) = p c := here c
              rw [List.map_cons, matchPieces_one_cons, matchPieces_one_cons, same, rest]
              split
              · simp [Function.comp_def]
              · rfl
      | star p => exact matchStar_map here rest s

theorem captures_map (e : Regex α) (spans : List (List α)) :
    captures e (spans.map (List.map f)) = (captures e spans).map (List.map f) := by
  induction e generalizing spans with
  | nil => rfl
  | cons term e ih =>
      cases term with
      | text ps => rw [captures, captures, ← List.map_drop, ih]
      | group ps =>
          rw [captures, captures, ← List.map_drop, ih, ← List.map_take, List.map_cons, List.map_flatten]

theorem regexMatch_map {e : Regex α} (keeps : ∀ piece ∈ e.flatMap Term.pieces, Keeps f piece)
    (s : List α) : regexMatch e (s.map f) = (regexMatch e s).map (List.map (List.map f)) := by
  rw [regexMatch, regexMatch, matchPieces_map keeps, Option.map_map, Option.map_map]
  congr 1
  funext spans
  exact captures_map e spans

end Map

end Match

end TscServer.Lib
