import TscServer.Lib.FileTree

/-!
# Attempts to make directories and files

A place becomes what the first attempt there wants it to be, and stays that: whatever fails at a later
attempt fails because of what is there.
-/

namespace TscServer.Lib.FileTree
variable {ν β : Type} [DecidableEq ν]

structure Attempt (ν : Type) where
  wanted : Kind
  path : List (Component ν)

def Attempt.place (attempt : Attempt ν) : List ν := location attempt.path

/-- The tree before and after an attempt. A directory is only made where nothing is, and a file whose
parent exists may be one that cannot be opened. -/
inductive Attempted : FileTree ν β → Attempt ν → FileTree ν β → Prop
  | there {tree : FileTree ν β} {path : List (Component ν)} : tree.exists path = true →
      Attempted tree ⟨.directory, path⟩ tree
  | made {before after : FileTree ν β} {path : List (Component ν)} :
      createDirectory before path = some after → Attempted before ⟨.directory, path⟩ after
  | written {before after : FileTree ν β} {path : List (Component ν)} {content : β} :
      write before path content = some after → Attempted before ⟨.file, path⟩ after
  | closed {tree : FileTree ν β} {parent : List (Component ν)} {c : Component ν} {content : β} :
      tree.exists parent = true → write tree (parent ++ [c]) content = none →
      Attempted tree ⟨.file, parent ++ [c]⟩ tree

inductive Attempts (start : FileTree ν β) : List (Attempt ν) → FileTree ν β → Prop
  | nil : Attempts start [] start
  | snoc {attempts : List (Attempt ν)} {attempt : Attempt ν} {before after : FileTree ν β} :
      Attempts start attempts before → Attempted before attempt after →
      Attempts start (attempts ++ [attempt]) after

def firstWanted (attempts : List (Attempt ν)) (loc : List ν) : Option Kind :=
  (attempts.find? fun attempt => attempt.place = loc).map Attempt.wanted

def kindAt (start : FileTree ν β) (attempts : List (Attempt ν)) (loc : List ν) : Option Kind :=
  (kind start loc).or (firstWanted attempts loc)

section
variable {start before after : FileTree ν β} {attempt : Attempt ν} {attempts : List (Attempt ν)}
  {loc : List ν} {k : Kind}

theorem kindAt_concat (start : FileTree ν β) (attempts : List (Attempt ν)) (attempt : Attempt ν)
    (loc : List ν) : kindAt start (attempts ++ [attempt]) loc =
      (kindAt start attempts loc).or (if attempt.place = loc then some attempt.wanted else none) := by
  rw [kindAt, kindAt, Option.or_assoc, firstWanted, firstWanted, List.find?_append, List.find?_singleton]
  congr 1
  cases attempts.find? fun attempt => attempt.place = loc with
  | some first => rfl
  | none =>
      rw [Option.none_or, Option.map_none, Option.none_or]
      by_cases here : attempt.place = loc
      · simp [here]
      · simp [here]

theorem firstWanted_eq_none :
    firstWanted attempts loc = none ↔ ∀ other ∈ attempts, other.place ≠ loc := by
  rw [firstWanted, Option.map_eq_none_iff, List.find?_eq_none]
  simp

theorem attempted_keepsKinds (step : Attempted before attempt after) : KeepsKinds before after := by
  cases step with
  | there _ => exact KeepsKinds.refl _
  | made created => exact keepsKinds_createDirectory created
  | written written => exact keepsKinds_write written
  | closed _ _ => exact KeepsKinds.refl _

theorem attempts_keepsKinds (run : Attempts start attempts after) : KeepsKinds start after := by
  induction run with
  | nil => exact KeepsKinds.refl _
  | snoc _ step ih => exact ih.trans (attempted_keepsKinds step)

theorem parent_of_resolve {path : List (Component ν)} (resolved : resolve before path = some (location path))
    (absent : kind before (location path) = none) :
    kind before (location path).dropLast ≠ some .file := by
  intro file
  by_cases top : (location path).dropLast = location path
  · rw [top, absent] at file
    cases file
  · have dir := isDir_above resolved (List.dropLast_prefix _) top
    rw [isDir_iff_kind, file] at dir
    cases dir

theorem attempted_new (step : Attempted before attempt after) (absent : kind before loc = none)
    (present : kind after loc = some k) :
    attempt.place = loc ∧ attempt.wanted = k ∧ kind before loc.dropLast ≠ some .file := by
  cases step with
  | there _ => cases absent.symm.trans present
  | made created =>
      rw [kind_createDirectory created] at present
      split at present
      · rename_i here
        subst here
        exact ⟨rfl, Option.some.inj present, parent_of_resolve (createDirectory_eq_some created).1 absent⟩
      · cases absent.symm.trans present
  | written written =>
      rw [kind_write written] at present
      split at present
      · rename_i here
        subst here
        exact ⟨rfl, Option.some.inj present, parent_of_resolve (write_eq_some written).1 absent⟩
      · cases absent.symm.trans present
  | closed _ _ => cases absent.symm.trans present

theorem isDir_of_closed {path : List (Component ν)} {loc : List ν} {content : β}
    (resolved : resolve before path = some loc) (closed : write before path content = none) :
    isDir before loc = true := by
  rw [write, resolved] at closed
  by_contra other
  rw [Bool.not_eq_true] at other
  simp [other] at closed

/-- Below a file nothing can be, elsewhere there is something after an attempt. -/
theorem attempted_reached (step : Attempted before attempt after) :
    (∃ k, kind after attempt.place = some k) ∨ kind after attempt.place.dropLast = some .file := by
  cases step with
  | there there => exact .inl (exists_iff_kind.mp there).2
  | made created => exact .inl ⟨.directory, (kind_createDirectory created _).trans (if_pos rfl)⟩
  | written written => exact .inl ⟨.file, (kind_write written _).trans (if_pos rfl)⟩
  | @closed parent c content there closed =>
      rw [Attempt.place]
      obtain ⟨resolved, k, here⟩ := exists_iff_kind.mp there
      cases k with
      | directory =>
          have opens : resolve before (parent ++ [c]) = some (location (parent ++ [c])) := by
            rw [resolve_concat_eq_some]
            exact ⟨resolved, isDir_iff_kind.mpr here, location_concat parent c⟩
          have dir := isDir_of_closed opens closed
          exact .inl ⟨.directory, isDir_iff_kind.mp dir⟩
      | file =>
          rw [location_concat]
          cases c with
          | here => exact .inl ⟨.file, here⟩
          | up =>
              rw [Component.target]
              by_cases top : (location parent).dropLast = location parent
              · exact .inl ⟨.file, by rw [top, here]⟩
              · have dir := isDir_above resolved (List.dropLast_prefix _) top
                exact .inl ⟨.directory, isDir_iff_kind.mp dir⟩
          | name n =>
              rw [Component.target, List.dropLast_concat]
              exact .inr here

structure Settled (start : FileTree ν β) (attempts : List (Attempt ν)) (tree : FileTree ν β) : Prop where
  keeps : KeepsKinds start tree
  kinds : ∀ loc k, kind tree loc = some k → kindAt start attempts loc = some k
  reached : ∀ attempt ∈ attempts,
    (∃ k, kind tree attempt.place = some k) ∨ kind tree attempt.place.dropLast = some .file

theorem settled_nil (start : FileTree ν β) : Settled start [] start where
  keeps := KeepsKinds.refl start
  kinds loc k here := by rw [kindAt, here, Option.some_or]
  reached attempt mem := by cases mem

theorem Settled.kindAt_eq_none (settled : Settled start attempts before) (absent : kind before loc = none)
    (above : kind before loc.dropLast ≠ some .file) : kindAt start attempts loc = none := by
  rw [kindAt, Option.or_eq_none_iff, firstWanted_eq_none]
  constructor
  · by_contra there
    obtain ⟨k, here⟩ := Option.ne_none_iff_exists'.mp there
    cases absent.symm.trans (settled.keeps loc k here)
  · rintro other mem rfl
    rcases settled.reached other mem with ⟨k, here⟩ | file
    · cases absent.symm.trans here
    · exact above file

theorem settled_step (settled : Settled start attempts before) (step : Attempted before attempt after) :
    Settled start (attempts ++ [attempt]) after where
  keeps := settled.keeps.trans (attempted_keepsKinds step)
  kinds loc k here := by
    rw [kindAt_concat]
    cases old : kind before loc with
    | some k' =>
        rw [settled.kinds loc k' old, Option.some_or, ← here]
        exact (attempted_keepsKinds step loc k' old).symm
    | none =>
        obtain ⟨place, wanted, above⟩ := attempted_new step old here
        rw [settled.kindAt_eq_none old above, Option.none_or, if_pos place, wanted]
  reached other mem := by
    rcases List.mem_append.mp mem with earlier | last
    · have keeps := attempted_keepsKinds step
      rcases settled.reached other earlier with ⟨k, here⟩ | file
      · exact .inl ⟨k, keeps _ k here⟩
      · exact .inr (keeps _ _ file)
    · obtain rfl := List.mem_singleton.mp last
      exact attempted_reached step

/-- By induction on the attempts. -/
theorem settled_attempts (run : Attempts start attempts after) : Settled start attempts after := by
  induction run with
  | nil => exact settled_nil start
  | snoc _ step ih => exact settled_step ih step

end
end TscServer.Lib.FileTree
