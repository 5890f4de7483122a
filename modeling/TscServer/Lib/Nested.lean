import Mathlib.Data.List.Basic

/-!
# Nested pairs

Lists in which some elements open a pair and others close it, in the way of brackets, and lists in which
some pairs are still open.
-/

namespace TscServer.Lib
variable {α : Type}

/-- Elements that stand alone, and pairs of which one lies inside the other or apart from it. -/
inductive Nested (plain : α → Prop) (pairs : α → α → Prop) : List α → Prop
  | nil : Nested plain pairs []
  | plain {a : α} {rest : List α} : plain a → Nested plain pairs rest → Nested plain pairs (a :: rest)
  | pair {a b : α} {inner rest : List α} : pairs a b → Nested plain pairs inner →
      Nested plain pairs rest → Nested plain pairs (a :: (inner ++ b :: rest))

/-- The pairs opened by the second list, the innermost first, are not closed yet. -/
inductive OpenPairs (plain : α → Prop) (pairs : α → α → Prop) : List α → List α → Prop
  | none {xs : List α} : Nested plain pairs xs → OpenPairs plain pairs xs []
  | opened {a : α} {xs inner stack : List α} : OpenPairs plain pairs xs stack →
      Nested plain pairs inner → OpenPairs plain pairs (xs ++ a :: inner) (a :: stack)

section Rules
variable {plain : α → Prop} {pairs : α → α → Prop} {a b : α} {xs ys stack : List α}

theorem Nested.append (first : Nested plain pairs xs) (second : Nested plain pairs ys) :
    Nested plain pairs (xs ++ ys) := by
  induction first with
  | nil => exact second
  | plain here _ ih => exact .plain here ih
  | @pair a b inner rest here inside _ _ ih =>
      rw [List.cons_append, List.append_assoc, List.cons_append]
      exact .pair here inside ih

theorem OpenPairs.append (open_ : OpenPairs plain pairs xs stack) (more : Nested plain pairs ys) :
    OpenPairs plain pairs (xs ++ ys) stack := by
  cases open_ with
  | none nested => exact .none (nested.append more)
  | opened before inside =>
      rw [List.append_assoc, List.cons_append]
      exact .opened before (inside.append more)

theorem OpenPairs.snoc (open_ : OpenPairs plain pairs xs stack) (here : plain a) :
    OpenPairs plain pairs (xs ++ [a]) stack :=
  open_.append (.plain here .nil)

theorem OpenPairs.open (open_ : OpenPairs plain pairs xs stack) :
    OpenPairs plain pairs (xs ++ [a]) (a :: stack) :=
  .opened open_ .nil

theorem OpenPairs.close (open_ : OpenPairs plain pairs xs (a :: stack)) (here : pairs a b) :
    OpenPairs plain pairs (xs ++ [b]) stack := by
  cases open_ with
  | opened before inside =>
      rw [List.append_assoc, List.cons_append]
      exact before.append (.pair here inside .nil)

theorem OpenPairs.nested (open_ : OpenPairs plain pairs xs []) : Nested plain pairs xs := by
  cases open_ with
  | none nested => exact nested

theorem Nested.map {f : α → α} (alone : ∀ a ∈ xs, plain a → plain (f a))
    (together : ∀ a ∈ xs, ∀ b ∈ xs, pairs a b → pairs (f a) (f b)) (nested : Nested plain pairs xs) :
    Nested plain pairs (xs.map f) := by
  induction nested with
  | nil => exact .nil
  | @plain a rest here _ ih =>
      rw [List.map_cons]
      refine .plain (alone a List.mem_cons_self here) (ih ?_ ?_)
      · exact fun b mem => alone b (List.mem_cons_of_mem a mem)
      · exact fun b memb c memc => together b (List.mem_cons_of_mem a memb) c (List.mem_cons_of_mem a memc)
  | @pair a b inner rest here _ _ ihInner ihRest =>
      have inside : ∀ c ∈ inner, c ∈ a :: (inner ++ b :: rest) := fun c mem => by simp [mem]
      have behind : ∀ c ∈ rest, c ∈ a :: (inner ++ b :: rest) := fun c mem => by simp [mem]
      rw [List.map_cons, List.map_append, List.map_cons]
      refine .pair (together a (by simp) b (by simp) here) (ihInner ?_ ?_) (ihRest ?_ ?_)
      · exact fun c mem => alone c (inside c mem)
      · exact fun c memc d memd => together c (inside c memc) d (inside d memd)
      · exact fun c mem => alone c (behind c mem)
      · exact fun c memc d memd => together c (behind c memc) d (behind d memd)

/-- Each element becomes a list, and a pair becomes two lists between which nested pairs fit. -/
theorem Nested.flatMap {β : Type} {f : α → List β} {plain' : β → Prop} {pairs' : β → β → Prop}
    (alone : ∀ a ∈ xs, plain a → Nested plain' pairs' (f a))
    (together : ∀ a ∈ xs, ∀ b ∈ xs, pairs a b → ∀ inner, Nested plain' pairs' inner →
      Nested plain' pairs' (f a ++ inner ++ f b))
    (nested : Nested plain pairs xs) : Nested plain' pairs' (xs.flatMap f) := by
  induction nested with
  | nil => exact .nil
  | @plain a rest here _ ih =>
      rw [List.flatMap_cons]
      refine (alone a List.mem_cons_self here).append (ih ?_ ?_)
      · exact fun b mem => alone b (List.mem_cons_of_mem a mem)
      · exact fun b memb c memc => together b (List.mem_cons_of_mem a memb) c (List.mem_cons_of_mem a memc)
  | @pair a b inner rest here _ _ ihInner ihRest =>
      have inside : ∀ c ∈ inner, c ∈ a :: (inner ++ b :: rest) := fun c mem => by simp [mem]
      have behind : ∀ c ∈ rest, c ∈ a :: (inner ++ b :: rest) := fun c mem => by simp [mem]
      have within := ihInner (fun c mem => alone c (inside c mem))
        fun c memc d memd => together c (inside c memc) d (inside d memd)
      have after := ihRest (fun c mem => alone c (behind c mem))
        fun c memc d memd => together c (behind c memc) d (behind d memd)
      have joined := (together a (by simp) b (by simp) here _ within).append after
      simpa [List.append_assoc] using joined

/-- Elements are changed, in such a way that some of those that opened a pair stand alone. -/
theorem OpenPairs.map {f : α → α} {keeps : α → Bool} (alone : ∀ a ∈ xs, plain a → plain (f a))
    (together : ∀ a ∈ xs, ∀ b ∈ xs, pairs a b → pairs (f a) (f b))
    (dropped : ∀ a ∈ stack, keeps a = false → plain (f a)) (kept : ∀ a ∈ stack, keeps a = true → f a = a)
    (open_ : OpenPairs plain pairs xs stack) : OpenPairs plain pairs (xs.map f) (stack.filter keeps) := by
  induction open_ with
  | none nested => exact .none (nested.map alone together)
  | @opened a xs inner stack _ inside ih =>
      have before : ∀ c ∈ xs, c ∈ xs ++ a :: inner := fun c mem => List.mem_append_left _ mem
      have behind : ∀ c ∈ inner, c ∈ xs ++ a :: inner := fun c mem => by simp [mem]
      have outer := ih (fun c mem => alone c (before c mem))
        (fun c memc d memd => together c (before c memc) d (before d memd))
        (fun c mem => dropped c (List.mem_cons_of_mem a mem)) fun c mem => kept c (List.mem_cons_of_mem a mem)
      have inner_ := inside.map (fun c mem => alone c (behind c mem))
        fun c memc d memd => together c (behind c memc) d (behind d memd)
      rw [List.map_append, List.map_cons]
      cases keep : keeps a with
      | true =>
          rw [List.filter_cons_of_pos keep, kept a List.mem_cons_self keep]
          exact .opened outer inner_
      | false =>
          rw [List.filter_cons_of_neg (by simp [keep])]
          exact outer.append (.plain (dropped a List.mem_cons_self keep) inner_)

end Rules
end TscServer.Lib
