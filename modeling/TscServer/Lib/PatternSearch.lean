import TscServer.Lib.Pattern

/-!
# Searching with patterns

When a search fails, what it finds, and the spots at which a repeated symbol can end.
-/

namespace TscServer.Lib.Pattern
open Spot
variable {α : Type} [DecidableEq α] {p q : Pattern α} {s t u : Spot α}

/-! ## Searching -/

section Search

theorem fullMatch_eq_none_iff {text : List α} :
    p.fullMatch text = none ↔ ∀ t ∈ p.ends (.start text), t.rest ≠ [] := by
  simp [fullMatch]

theorem fullMatch_eq_none_of_begins {f : α → Bool} {text : List α} (begins : Begins f p)
    (other : text.head?.any f = false) : p.fullMatch text = none := by
  rw [fullMatch_eq_none_iff]
  intro t mem
  have here := begins _ t mem
  rw [Spot.start, other] at here
  cases here

theorem ends_eq_nil_of_begins {f : α → Bool} (begins : Begins f p) (other : s.rest.head?.any f = false) :
    p.ends s = [] := by
  rw [List.eq_nil_iff_forall_not_mem]
  intro t mem
  rw [begins s t mem] at other
  cases other

theorem searchFrom_eq_none_iff {before rest : List α} :
    searchFrom p before rest = none ↔
      ∀ a b, rest = a ++ b → p.ends ⟨a.reverse ++ before, b, fun _ => none⟩ = [] := by
  induction rest generalizing before with
  | nil =>
      rw [searchFrom]
      constructor
      · intro none_ a b split
        obtain ⟨rfl, rfl⟩ := List.append_eq_nil_iff.mp split.symm
        cases ends_ : p.ends ⟨before, [], fun _ => none⟩ with
        | nil => simpa using ends_
        | cons t ts => simp [ends_] at none_
      · intro all
        rw [show p.ends ⟨before, [], fun _ => none⟩ = [] from all [] [] rfl]
        rfl
  | cons c rest ih =>
      rw [searchFrom]
      constructor
      · intro none_ a b split
        cases ends_ : p.ends ⟨before, c :: rest, fun _ => none⟩ with
        | cons t ts => simp [ends_] at none_
        | nil =>
            rw [ends_] at none_
            cases a with
            | nil =>
                obtain rfl := split
                simpa using ends_
            | cons d a =>
                obtain ⟨rfl, rfl⟩ := List.cons.inj split
                simpa using ih.mp none_ a b rfl
      · intro all
        rw [show p.ends ⟨before, c :: rest, fun _ => none⟩ = [] from all [] (c :: rest) rfl]
        apply ih.mpr
        rintro a b rfl
        simpa using all (c :: a) b rfl

theorem search_eq_none_iff {text : List α} :
    p.search text = none ↔ ∀ a b, text = a ++ b → p.ends ⟨a.reverse, b, fun _ => none⟩ = [] := by
  rw [search, searchFrom_eq_none_iff]
  simp

theorem search_eq_none_of_needs {f : α → Bool} {text : List α} (needs : Needs f p)
    (none_ : ∀ c ∈ text, f c = false) : p.search text = none := by
  rw [search_eq_none_iff]
  rintro a b rfl
  rw [List.eq_nil_iff_forall_not_mem]
  intro t mem
  obtain ⟨span, reads⟩ := exists_reads mem
  obtain ⟨c, here, holds⟩ := needs _ t span mem reads
  have outside := none_ c (List.mem_append_right a (by
    rw [show b = span ++ t.rest from reads.rest]
    exact List.mem_append_left _ here))
  rw [outside] at holds
  cases holds

theorem searchFrom_eq_some {before rest : List α} {m : Match α} (found : searchFrom p before rest = some m) :
    ∃ a b t, rest = a ++ b ∧ (p.ends ⟨a.reverse ++ before, b, fun _ => none⟩).head? = some t ∧
      (∀ a' b', rest = a' ++ b' → a'.length < a.length →
        p.ends ⟨a'.reverse ++ before, b', fun _ => none⟩ = []) ∧
      m.pre = before.reverse ++ a ∧ b = m.span ++ m.post ∧ m.post = t.rest ∧ m.groups = t.groups := by
  induction rest generalizing before with
  | nil =>
      rw [searchFrom] at found
      split at found
      · rename_i t first
        obtain rfl := Option.some.inj found
        obtain ⟨span, reads⟩ := exists_reads (List.mem_of_mem_head? first)
        refine ⟨[], [], t, rfl, first, fun a' b' _ shorter => absurd shorter (Nat.not_lt_zero _), ?_, ?_, rfl, rfl⟩
        · simp
        · rw [reads.upTo]
          exact reads.rest
      · cases found
  | cons c rest ih =>
      rw [searchFrom] at found
      split at found
      · rename_i t first
        obtain rfl := Option.some.inj found
        obtain ⟨span, reads⟩ := exists_reads (List.mem_of_mem_head? first)
        refine ⟨[], c :: rest, t, rfl, first, fun a' b' _ shorter => absurd shorter (Nat.not_lt_zero _), ?_, ?_,
          rfl, rfl⟩
        · simp
        · rw [reads.upTo]
          exact reads.rest
      · rename_i none_
        obtain ⟨a, b, t, rfl, first, before_, pre, rest_⟩ := ih found
        refine ⟨c :: a, b, t, rfl, by simpa using first, ?_, by simp [pre], rest_⟩
        intro a' b' split shorter
        cases a' with
        | nil =>
            obtain rfl := split
            simpa using none_
        | cons d a' =>
            obtain ⟨rfl, rest_eq⟩ := List.cons.inj split
            simpa using before_ a' b' rest_eq (by simpa using shorter)

theorem search_eq_some {text : List α} {m : Match α} (found : p.search text = some m) :
    ∃ t, (p.ends ⟨m.pre.reverse, m.span ++ m.post, fun _ => none⟩).head? = some t ∧
      text = m.pre ++ (m.span ++ m.post) ∧ m.post = t.rest ∧ m.groups = t.groups := by
  obtain ⟨a, b, t, rfl, first, -, pre, rest, post, groups⟩ := searchFrom_eq_some found
  obtain rfl : m.pre = a := by simpa using pre
  refine ⟨t, ?_, by rw [rest], post, groups⟩
  simpa [← rest] using first

theorem searchFrom_of_ends {before rest : List α} (first : (p.ends ⟨before, rest, fun _ => none⟩).head? = some t) :
    searchFrom p before rest = some
      { pre := before.reverse, span := (Spot.mk before rest fun _ => none).upTo t, post := t.rest,
        groups := t.groups } := by
  cases rest <;> rw [searchFrom, first]

theorem searchFrom_cons {c : α} {before rest : List α} (none_ : p.ends ⟨before, c :: rest, fun _ => none⟩ = []) :
    searchFrom p before (c :: rest) = searchFrom p (c :: before) rest := by
  rw [searchFrom, none_]
  rfl

theorem searchFrom_skip {f : α → Bool} {before skipped rest : List α} (begins : Begins f p)
    (other : ∀ c ∈ skipped, f c = false) :
    searchFrom p before (skipped ++ rest) = searchFrom p (skipped.reverse ++ before) rest := by
  induction skipped generalizing before with
  | nil => rfl
  | cons c skipped ih =>
      obtain ⟨here, others⟩ := List.forall_mem_cons.mp other
      have none_ : p.ends ⟨before, c :: (skipped ++ rest), fun _ => none⟩ = [] :=
        ends_eq_nil_of_begins begins (by simpa using here)
      rw [List.cons_append, searchFrom_cons none_, ih others, List.reverse_cons, List.append_assoc]
      rfl

theorem search_split {text : List α} {m : Match α} (found : p.search text = some m) :
    text = m.pre ++ (m.span ++ m.post) := (search_eq_some found).choose_spec.2.1

theorem span_ne_nil_of_needs {f : α → Bool} {text : List α} {m : Match α} (needs : Needs f p)
    (found : p.search text = some m) : ∃ c ∈ m.span, f c = true := by
  obtain ⟨t, first, -, post, -⟩ := search_eq_some found
  have mem := List.mem_of_mem_head? first
  obtain ⟨span, reads⟩ := exists_reads mem
  obtain ⟨c, here, holds⟩ := needs _ t span mem reads
  have same : m.span = span := by
    have rest := reads.rest
    rw [post] at rest
    exact List.append_cancel_right rest
  exact ⟨c, same ▸ here, holds⟩

theorem searchAll_of_none {text : List α} (none_ : p.search text = none) (fuel : Nat) :
    searchAll p (fuel + 1) text = some ([], text) := by
  rw [searchAll, none_]

theorem searchAll_of_some {text : List α} {m : Match α} (found : p.search text = some m) (fuel : Nat) :
    searchAll p (fuel + 1) text = (searchAll p fuel m.post).map fun (ms, last) => (m :: ms, last) := by
  rw [searchAll, found]

theorem searchAll_isSome {f : α → Bool} (needs : Needs f p) {fuel : Nat} {text : List α}
    (enough : text.length < fuel) : (searchAll p fuel text).isSome = true := by
  induction fuel generalizing text with
  | zero => omega
  | succ fuel ih =>
      rw [searchAll]
      cases found : p.search text with
      | none => rfl
      | some m =>
          obtain ⟨c, here, -⟩ := span_ne_nil_of_needs needs found
          have split := congrArg List.length (search_split found)
          have taken := List.length_pos_of_mem here
          rw [List.length_append, List.length_append] at split
          simpa using @ih m.post (by omega)

theorem searchAll_join {fuel : Nat} {text rest : List α} {ms : List (Match α)}
    (found : searchAll p fuel text = some (ms, rest)) :
    text = ms.flatMap (fun m => m.pre ++ m.span) ++ rest := by
  induction fuel generalizing text ms with
  | zero => cases found
  | succ fuel ih =>
      rw [searchAll] at found
      split at found
      · obtain ⟨rfl, rfl⟩ := Prod.mk.inj (Option.some.inj found)
        rfl
      · rename_i m first
        obtain ⟨⟨ms', rest'⟩, later, same⟩ := Option.map_eq_some_iff.mp found
        obtain ⟨rfl, rfl⟩ := Prod.mk.inj same
        rw [search_split first, List.flatMap_cons, List.append_assoc, ← ih later]
        simp

theorem mem_searchAll {fuel : Nat} {text rest : List α} {ms : List (Match α)}
    (found : searchAll p fuel text = some (ms, rest)) :
    ∀ m ∈ ms, ∃ text', text' <:+ text ∧ p.search text' = some m := by
  induction fuel generalizing text ms with
  | zero => cases found
  | succ fuel ih =>
      rw [searchAll] at found
      split at found
      · obtain ⟨rfl, rfl⟩ := Prod.mk.inj (Option.some.inj found)
        simp
      · rename_i m first
        obtain ⟨⟨ms', rest'⟩, later, same⟩ := Option.map_eq_some_iff.mp found
        obtain ⟨rfl, rfl⟩ := Prod.mk.inj same
        intro n mem
        rcases List.mem_cons.mp mem with rfl | mem
        · exact ⟨text, List.suffix_rfl, first⟩
        · obtain ⟨text', suffix, here⟩ := ih later n mem
          refine ⟨text', suffix.trans ?_, here⟩
          rw [search_split first, ← List.append_assoc]
          exact List.suffix_append _ _

end Search

/-! ## Repeated symbols -/

section Runs
variable {f : α → Bool} {greedy : Bool} {min : Nat} {max : Option Nat}

def runLength (f : α → Bool) (max : Option Nat) (rest : List α) : Nat :=
  max.elim (rest.takeWhile f).length (Nat.min (rest.takeWhile f).length)

omit [DecidableEq α] in
theorem runLength_le (f : α → Bool) (max : Option Nat) (rest : List α) : runLength f max rest ≤ rest.length := by
  have le := (List.takeWhile_sublist f (l := rest)).length_le
  cases max with
  | none => exact le
  | some m => exact (Nat.min_le_left _ _).trans le

omit [DecidableEq α] in
theorem runLength_cons {c : α} {rest : List α} (holds : f c = true) (more : max ≠ some 0) :
    runLength f max (c :: rest) = runLength f (max.map (· - 1)) rest + 1 := by
  rcases max with _ | _ | m
  · simp [runLength, holds]
  · exact absurd rfl more
  · simp only [runLength, holds, List.takeWhile_cons_of_pos, Option.elim_some, List.length_cons, Option.map_some,
      Nat.add_sub_cancel]
    exact Nat.add_min_add_right _ m 1

/-- The ends of a repeated symbol: as many of them as there are and as may be, down to the least number, or
the other way round. -/
theorem ends_rep_one (s : Spot α) :
    (rep greedy min max (one f)).ends s =
      (if greedy then (List.range' min (runLength f max s.rest + 1 - min)).reverse
        else List.range' min (runLength f max s.rest + 1 - min)).map s.take := by
  rw [ends]
  obtain ⟨before, rest, groups⟩ := s
  dsimp only
  induction rest generalizing before min max with
  | nil =>
      have zero : runLength f max ([] : List α) = 0 := Nat.le_zero.mp (runLength_le f max [])
      rw [List.length_nil, rounds, zero]
      rcases min with _ | min
      · cases greedy <;> simp
      · cases greedy <;> simp
  | cons c rest ih =>
      rw [List.length_cons, rounds]
      by_cases stop : max = some 0 ∨ f c = false
      · have zero : runLength f max (c :: rest) = 0 := by
          rcases stop with rfl | fails
          · simp [runLength]
          · cases max <;> simp [runLength, fails]
        have none_ : (if max = some 0 then [] else
            (((one f).ends ⟨before, c :: rest, groups⟩).filter fun t =>
              t.rest.length < (c :: rest).length).flatMap
              (rounds (one f).ends greedy rest.length (min - 1) (max.map (· - 1)))) = [] := by
          rcases stop with rfl | fails
          · rfl
          · simp [ends, fails]
        simp only [none_, zero]
        rcases min with _ | min
        · cases greedy <;> simp
        · cases greedy <;> simp
      · obtain ⟨more, holds⟩ := not_or.mp stop
        rw [Bool.not_eq_false] at holds
        have inner : (if max = some 0 then [] else
            (((one f).ends ⟨before, c :: rest, groups⟩).filter fun t =>
              t.rest.length < (c :: rest).length).flatMap
              (rounds (one f).ends greedy rest.length (min - 1) (max.map (· - 1)))) =
            ((if greedy then
                (List.range' (min - 1) (runLength f (max.map (· - 1)) rest + 1 - (min - 1))).reverse
              else List.range' (min - 1) (runLength f (max.map (· - 1)) rest + 1 - (min - 1))).map
                (· + 1)).map (Spot.mk before (c :: rest) groups).take := by
          rw [if_neg more]
          have step : (one f).ends ⟨before, c :: rest, groups⟩ = [⟨c :: before, rest, groups⟩] := by
            simp [ends, holds, Spot.take]
          rw [step]
          simp only [List.length_cons, Nat.lt_add_one, decide_true, List.filter_cons_of_pos, List.filter_nil,
            List.flatMap_cons, List.flatMap_nil, List.append_nil]
          rw [ih, List.map_map]
          apply List.map_congr_left
          intro n _
          simp [Spot.take]
        simp only [inner]
        rw [runLength_cons holds more]
        rcases min with _ | min
        · have shift (n : Nat) : List.range' 0 (n + 1 + 1 - 0) = 0 :: (List.range' 0 (n + 1 - 0)).map (· + 1) := by
            rw [Nat.sub_zero, Nat.sub_zero, List.range'_succ, List.range'_succ_left]
          rw [shift]
          cases greedy <;> simp
        · have shift : List.range' (min + 1) (runLength f (max.map (· - 1)) rest + 1 + 1 - (min + 1)) =
              (List.range' min (runLength f (max.map (· - 1)) rest + 1 - min)).map (· + 1) := by
            rw [List.range'_succ_left, Nat.add_sub_add_right]
          rw [shift]
          cases greedy <;> simp

theorem mem_ends_rep_one {s t : Spot α} :
    t ∈ (rep greedy min max (one f)).ends s ↔ ∃ n, min ≤ n ∧ n ≤ runLength f max s.rest ∧ t = s.take n := by
  have range_ : ∀ n, n ∈ (if greedy then (List.range' min (runLength f max s.rest + 1 - min)).reverse
      else List.range' min (runLength f max s.rest + 1 - min)) ↔ min ≤ n ∧ n ≤ runLength f max s.rest := by
    intro n
    cases greedy <;> simp [List.mem_range'_1] <;> omega
  rw [ends_rep_one, List.mem_map]
  constructor
  · rintro ⟨n, mem, rfl⟩
    obtain ⟨least, most⟩ := (range_ n).mp mem
    exact ⟨n, least, most, rfl⟩
  · rintro ⟨n, least, most, rfl⟩
    exact ⟨n, (range_ n).mpr ⟨least, most⟩, rfl⟩

omit [DecidableEq α] in
theorem any_head?_drop_of_lt {l : List α} {n : Nat} (lt : n < (l.takeWhile f).length) :
    (l.drop n).head?.any f = true := by
  have split_ : l.drop n = (l.takeWhile f).drop n ++ l.dropWhile f := by
    conv_lhs => rw [← List.takeWhile_append_dropWhile (p := f) (l := l)]
    rw [List.drop_append_of_le_length (Nat.le_of_lt lt)]
  rw [split_]
  cases here : (l.takeWhile f).drop n with
  | nil =>
      have := congrArg List.length here
      simp only [List.length_drop, List.length_nil] at this
      omega
  | cons c rest =>
      have mem : c ∈ l.takeWhile f := List.mem_of_mem_drop (here ▸ List.mem_cons_self)
      simpa using List.mem_takeWhile_imp mem

omit [DecidableEq α] in
theorem any_head?_drop_takeWhile (l : List α) : (l.drop (l.takeWhile f).length).head?.any f = false := by
  have rest : l.drop (l.takeWhile f).length = l.dropWhile f := by
    have split_ : (l.takeWhile f ++ l.dropWhile f).drop (l.takeWhile f).length = l.dropWhile f := List.drop_left
    rwa [List.takeWhile_append_dropWhile] at split_
  rw [rest]
  have first := List.head?_dropWhile_not f l
  cases head : (l.dropWhile f).head? with
  | none => rfl
  | some c =>
      rw [head] at first
      simpa using first

theorem ends_one_eq_nil_iff : (one f).ends s = [] ↔ s.rest.head?.any f = false := by
  rw [List.eq_nil_iff_forall_not_mem]
  constructor
  · intro none_
    cases head : s.rest.head? with
    | none => rfl
    | some c =>
        rw [Option.any_some]
        exact Bool.not_eq_true _ ▸ fun holds => none_ _ (mem_ends_one.mpr ⟨c, head, holds, rfl⟩)
  · intro none_ t mem
    obtain ⟨c, head, holds, -⟩ := mem_ends_one.mp mem
    rw [head, Option.any_some, holds] at none_
    cases none_

/-- A repeated symbol that the same symbol does not follow is all of it that there is. -/
theorem mem_ends_run_notAhead {m : Nat} :
    t ∈ (all [between min m (one f), notAhead (one f)]).ends s ↔
      min ≤ (s.rest.takeWhile f).length ∧ (s.rest.takeWhile f).length ≤ m ∧
        t = s.take (s.rest.takeWhile f).length := by
  simp only [mem_ends_all_cons, mem_ends_all_nil, mem_ends_notAhead, ends_one_eq_nil_iff, between, mem_ends_rep_one]
  constructor
  · rintro ⟨_, ⟨n, least, most, rfl⟩, _, ⟨rfl, last⟩, rfl⟩
    have le : n ≤ (s.rest.takeWhile f).length := most.trans (Nat.min_le_left _ _)
    rcases Nat.lt_or_eq_of_le le with lt | same
    · rw [rest_take, any_head?_drop_of_lt lt] at last
      cases last
    · rw [same] at least most
      exact ⟨least, most.trans (Nat.min_le_right _ _), by rw [same]⟩
  · rintro ⟨least, most, rfl⟩
    exact ⟨_, ⟨_, least, Nat.le_min.mpr ⟨Nat.le_refl _, most⟩, rfl⟩, _, ⟨rfl, any_head?_drop_takeWhile _⟩, rfl⟩

end Runs

end TscServer.Lib.Pattern
