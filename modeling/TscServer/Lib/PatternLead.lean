import TscServer.Lib.PatternSearch

/-!
# Where matches begin

Patterns whose matches can be empty but otherwise begin with a certain symbol, patterns that take nothing but
certain symbols, and what that says of texts which begin with other symbols.
-/

namespace TscServer.Lib.Pattern
open Spot
variable {α : Type} [DecidableEq α] {p q : Pattern α} {f g : α → Bool} {s t : Spot α} {text : List α}

def MayBegin (f : α → Bool) (p : Pattern α) : Prop :=
  ∀ s t, t ∈ p.ends s → t.rest = s.rest ∨ s.rest.head?.any f = true

def TakesOnly (f : α → Bool) (p : Pattern α) : Prop :=
  ∀ s t span, t ∈ p.ends s → s.Reads span t → ∀ c ∈ span, f c = true

section MayBegin

theorem Begins.mayBegin (begins : Begins f p) : MayBegin f p := fun s t mem => .inr (begins s t mem)

theorem mayBegin_nil : MayBegin f (all []) := by
  intro s t mem
  rw [mem_ends_all_nil.mp mem]
  exact .inl rfl

theorem MayBegin.seq (first : MayBegin f p) (second : MayBegin f q) : MayBegin f (.seq p q) := by
  intro s t mem
  obtain ⟨u, here, later⟩ := mem_ends_seq.mp mem
  rcases first s u here with same | head
  · rcases second u t later with same' | head
    · exact .inl (same'.trans same)
    · exact .inr (same ▸ head)
  · exact .inr head

theorem MayBegin.alt (first : MayBegin f p) (second : MayBegin f q) : MayBegin f (.alt p q) :=
  fun s t mem => (mem_ends_alt.mp mem).elim (first s t) (second s t)

theorem MayBegin.group {n : Nat} (leads : MayBegin f p) : MayBegin f (.group n p) := by
  intro s t mem
  obtain ⟨u, inner, rfl⟩ := mem_ends_group.mp mem
  exact leads s u inner

theorem MayBegin.rep {greedy : Bool} {min : Nat} {max : Option Nat} (leads : MayBegin f p) :
    MayBegin f (.rep greedy min max p) := by
  intro s t mem
  rcases cases_of_mem_rounds mem with ⟨-, rfl⟩ | ⟨_, -, -, u, first, shorter, -⟩
  · exact .inl rfl
  · rcases leads s u first with same | head
    · rw [same] at shorter
      exact absurd shorter (Nat.lt_irrefl _)
    · exact .inr head

theorem Begins.behind (leads : MayBegin f p) (begins : Begins f q) : Begins f (.seq p q) := by
  intro s t mem
  obtain ⟨u, here, later⟩ := mem_ends_seq.mp mem
  rcases leads s u here with same | head
  · exact same ▸ begins u t later
  · exact head

theorem fullMatch_eq_none_of_mayBegin (leads : MayBegin f p) (some_ : text ≠ []) (other : text.head?.any f = false) :
    p.fullMatch text = none := by
  rw [fullMatch_eq_none_iff]
  intro t mem
  rcases leads _ t mem with same | head
  · exact same ▸ some_
  · rw [Spot.start, other] at head
    cases head

theorem fullMatch_eq_none_of_ends (none_ : p.ends (.start text) = []) : p.fullMatch text = none := by
  rw [fullMatch, none_]
  rfl

end MayBegin

section TakesOnly

theorem takesOnly_one : TakesOnly f (one f) := by
  intro s t span mem reads c here
  obtain ⟨d, head, holds, rfl⟩ := mem_ends_one.mp mem
  rw [← reads.upTo, (s.reads_take 1).upTo] at here
  cases rest : s.rest with
  | nil => simp [rest] at here
  | cons e rest_ =>
      rw [rest] at here head
      obtain rfl := Option.some.inj head
      obtain rfl : c = e := by simpa using here
      exact holds

theorem takesOnly_edge {e : Option α → Option α → Bool} : TakesOnly f (edge e) := by
  intro s t span mem reads c here
  obtain ⟨rfl, -⟩ := mem_ends_edge.mp mem
  rw [← reads.upTo, (Reads.refl t).upTo] at here
  cases here

theorem takesOnly_nil : TakesOnly f (all []) := by
  intro s t span mem reads c here
  obtain rfl := mem_ends_all_nil.mp mem
  rw [← reads.upTo, (Reads.refl t).upTo] at here
  cases here

theorem TakesOnly.mono (takes : TakesOnly f p) (le : ∀ c, f c = true → g c = true) : TakesOnly g p :=
  fun s t span mem reads c here => le c (takes s t span mem reads c here)

theorem TakesOnly.seq (first : TakesOnly f p) (second : TakesOnly f q) : TakesOnly f (.seq p q) := by
  intro s t span mem reads c here
  obtain ⟨u, before, later⟩ := mem_ends_seq.mp mem
  obtain ⟨a, reads₁⟩ := exists_reads before
  obtain ⟨b, reads₂⟩ := exists_reads later
  rw [← reads.upTo, (reads₁.trans reads₂).upTo] at here
  rcases List.mem_append.mp here with here | here
  · exact first s u a before reads₁ c here
  · exact second u t b later reads₂ c here

theorem TakesOnly.group {n : Nat} (takes : TakesOnly f p) : TakesOnly f (.group n p) := by
  intro s t span mem reads
  obtain ⟨u, inner, rfl⟩ := mem_ends_group.mp mem
  exact takes s u span inner ⟨reads.rest, reads.before⟩

theorem TakesOnly.rep {greedy : Bool} {min : Nat} {max : Option Nat} (takes : TakesOnly f p) :
    TakesOnly f (.rep greedy min max p) := by
  intro s t span mem reads c here
  change t ∈ rounds p.ends greedy s.rest.length min max s at mem
  generalize s.rest.length = fuel at mem
  induction fuel generalizing min max s span with
  | zero =>
      rcases cases_of_mem_rounds mem with ⟨-, rfl⟩ | ⟨_, none_, -⟩
      · rw [← reads.upTo, (Reads.refl t).upTo] at here
        cases here
      · cases none_
  | succ fuel ih =>
      rcases cases_of_mem_rounds mem with ⟨-, rfl⟩ | ⟨_, more, -, u, first, -, later⟩
      · rw [← reads.upTo, (Reads.refl t).upTo] at here
        cases here
      · obtain rfl := Nat.succ.inj more
        obtain ⟨a, reads₁⟩ := exists_reads first
        obtain ⟨b, reads₂⟩ := exists_reads_of_mem_rounds (fun _ _ => exists_reads) later
        rw [← reads.upTo, (reads₁.trans reads₂).upTo] at here
        rcases List.mem_append.mp here with here | here
        · exact takes s u a first reads₁ c here
        · exact ih u b reads₂ here later

theorem fullMatch_eq_none_of_takesOnly (takes : TakesOnly f p) {c : α} (mem : c ∈ text) (other : f c = false) :
    p.fullMatch text = none := by
  rw [fullMatch_eq_none_iff]
  intro t here done
  obtain ⟨span, reads⟩ := exists_reads here
  have whole : text = span := by simpa [done, Spot.start] using reads.rest
  have holds := takes _ t span here reads c (whole ▸ mem)
  rw [other] at holds
  cases holds

end TakesOnly

section Captures
variable {n : Nat}

def capturing : Pattern α → List Nat
  | .seq p q => p.capturing ++ q.capturing
  | .alt p q => p.capturing ++ q.capturing
  | .rep _ _ _ body => body.capturing
  | .group n body => n :: body.capturing
  | .ahead body => body.capturing
  | .notAhead body => body.capturing
  | _ => []

omit [DecidableEq α] in
theorem groups_of_mem_rounds {body : Spot α → List (Spot α)} {greedy : Bool} {fuel min : Nat} {max : Option Nat}
    (keeps : ∀ s t, t ∈ body s → t.groups n = s.groups n) (mem : t ∈ rounds body greedy fuel min max s) :
    t.groups n = s.groups n := by
  induction fuel generalizing min max s with
  | zero =>
      rcases cases_of_mem_rounds mem with ⟨-, rfl⟩ | ⟨_, none_, -⟩
      · rfl
      · cases none_
  | succ fuel ih =>
      rcases cases_of_mem_rounds mem with ⟨-, rfl⟩ | ⟨_, more, -, u, first, -, later⟩
      · rfl
      · obtain rfl := Nat.succ.inj more
        exact (ih later).trans (keeps s u first)

theorem groups_of_not_mem_capturing (other : n ∉ p.capturing) (mem : t ∈ p.ends s) : t.groups n = s.groups n := by
  induction p generalizing s t with
  | empty => rw [List.mem_singleton.mp mem]
  | one f =>
      obtain ⟨c, -, -, rfl⟩ := mem_ends_one.mp mem
      rfl
  | seq p q ihp ihq =>
      obtain ⟨first, second⟩ := not_or.mp (mt List.mem_append.mpr other)
      obtain ⟨u, here, later⟩ := mem_ends_seq.mp mem
      exact (ihq second later).trans (ihp first here)
  | alt p q ihp ihq =>
      obtain ⟨first, second⟩ := not_or.mp (mt List.mem_append.mpr other)
      exact (mem_ends_alt.mp mem).elim (ihp first) (ihq second)
  | rep greedy min max body ih => exact groups_of_mem_rounds (fun _ _ => ih other) mem
  | group m body ih =>
      obtain ⟨apart, inside⟩ := not_or.mp (mt List.mem_cons.mpr other)
      obtain ⟨u, inner, rfl⟩ := mem_ends_group.mp mem
      exact (groups_capture_of_ne apart).trans (ih inside inner)
  | backref m =>
      obtain ⟨-, rfl⟩ := mem_ends_backref.mp mem
      rfl
  | ahead body ih =>
      obtain ⟨u, first, rfl⟩ := mem_ends_ahead.mp mem
      exact ih (t := u) other (List.mem_of_mem_head? first)
  | notAhead body ih =>
      obtain ⟨rfl, -⟩ := mem_ends_notAhead.mp mem
      rfl
  | edge f =>
      obtain ⟨rfl, -⟩ := mem_ends_edge.mp mem
      rfl

end Captures

theorem fullMatch_eq_some {m : Match α} (found : p.fullMatch text = some m) :
    ∃ t ∈ p.ends (.start text), t.rest = [] ∧ m.groups = t.groups := by
  obtain ⟨t, first, rfl⟩ := Option.map_eq_some_iff.mp found
  have done := List.find?_some (p := fun t : Spot α => t.rest.isEmpty) first
  exact ⟨t, List.mem_of_find?_eq_some first, List.isEmpty_iff.mp done, rfl⟩

theorem fullMatch_isSome (mem : t ∈ p.ends (.start text)) (done : t.rest = []) : ∃ m, p.fullMatch text = some m := by
  cases found : p.fullMatch text with
  | some m => exact ⟨m, rfl⟩
  | none => exact absurd done (fullMatch_eq_none_iff.mp found t mem)

end TscServer.Lib.Pattern
