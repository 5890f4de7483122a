import Mathlib.Logic.Function.Basic
import Mathlib.Data.List.Basic
import Mathlib.Data.List.Infix

/-!
# A tree of directories and files

Path lookup as POSIX does it, without symbolic links: every component is looked up in a directory,
an empty component and `.` stay where they are, `..` goes to the parent. A file and a directory of
one name exclude each other.
-/

namespace TscServer.Lib

inductive Node (β : Type) where
  | dir
  | file (content : β)

/-- The node at each location; a location is the list of names on the way down from the root. -/
abbrev FileTree (ν β : Type) := List ν → Option (Node β)

inductive Component (ν : Type) where
  | here
  | up
  | name (n : ν)
deriving DecidableEq

namespace FileTree
variable {ν β : Type}

def Component.target (cur : List ν) : Component ν → List ν
  | .here => cur
  | .up => cur.dropLast
  | .name n => cur ++ [n]

def isDir (tree : FileTree ν β) (location : List ν) : Bool :=
  match tree location with
  | some .dir => true
  | _ => false

def walk (tree : FileTree ν β) : List ν → List (Component ν) → Option (List ν)
  | cur, [] => some cur
  | cur, c :: path =>
      if isDir tree cur then walk tree (Component.target cur c) path else none

def resolve (tree : FileTree ν β) (path : List (Component ν)) : Option (List ν) := walk tree [] path

def location (path : List (Component ν)) : List ν := path.foldl Component.target []

def «exists» (tree : FileTree ν β) (path : List (Component ν)) : Bool :=
  ((resolve tree path).bind tree).isSome

/-- The content of a file; `none` for a directory and for what does not exist. -/
def read (tree : FileTree ν β) (path : List (Component ν)) : Option β :=
  match (resolve tree path).bind tree with
  | some (.file content) => some content
  | _ => none

section Update
variable [DecidableEq ν]

/-- Open a file for writing, truncate it and write; `none` when it cannot be opened. -/
def write (tree : FileTree ν β) (path : List (Component ν)) (content : β) : Option (FileTree ν β) :=
  match resolve tree path with
  | none => none
  | some loc => if isDir tree loc then none else some (Function.update tree loc (some (.file content)))

def writable (tree : FileTree ν β) (path : List (Component ν)) : Bool :=
  (resolve tree path).any fun loc => !isDir tree loc

/-- `none` when the parent is no directory or a file has that name. -/
def createDirectory (tree : FileTree ν β) (path : List (Component ν)) : Option (FileTree ν β) :=
  match resolve tree path with
  | none => none
  | some loc =>
      match tree loc with
      | none => some (Function.update tree loc (some .dir))
      | some .dir => some tree
      | some (.file _) => none

end Update

def Grows (before after : FileTree ν β) : Prop := ∀ loc, isDir before loc → isDir after loc

theorem Grows.refl (tree : FileTree ν β) : Grows tree tree := fun _ h => h

theorem Grows.trans {a b c : FileTree ν β} (ab : Grows a b) (bc : Grows b c) : Grows a c :=
  fun loc h => bc loc (ab loc h)

theorem walk_grows {before after : FileTree ν β} (grows : Grows before after)
    {path : List (Component ν)} {cur loc : List ν} (h : walk before cur path = some loc) :
    walk after cur path = some loc := by
  induction path generalizing cur with
  | nil => exact h
  | cons c path ih =>
      simp only [walk] at h ⊢
      split at h
      · rename_i dir
        rw [if_pos (grows cur dir)]
        exact ih h
      · cases h

theorem resolve_grows {before after : FileTree ν β} (grows : Grows before after)
    {path : List (Component ν)} {loc : List ν} (h : resolve before path = some loc) :
    resolve after path = some loc := walk_grows grows h

theorem walk_location {tree : FileTree ν β} {path : List (Component ν)} {cur loc : List ν}
    (h : walk tree cur path = some loc) : loc = path.foldl Component.target cur := by
  induction path generalizing cur with
  | nil => cases h; rfl
  | cons c path ih =>
      simp only [walk] at h
      split at h
      · exact ih h
      · cases h

theorem resolve_location {tree : FileTree ν β} {path : List (Component ν)} {loc : List ν}
    (h : resolve tree path = some loc) : loc = location path := walk_location h

theorem read_eq_some_iff {tree : FileTree ν β} {path : List (Component ν)} {content : β} :
    read tree path = some content ↔
      resolve tree path = some (location path) ∧ tree (location path) = some (.file content) := by
  constructor
  · intro h
    unfold read at h
    split at h
    · rename_i c found
      obtain ⟨loc, resolved, node⟩ := Option.bind_eq_some_iff.mp found
      obtain rfl := resolve_location resolved
      cases h
      exact ⟨resolved, node⟩
    · cases h
  · rintro ⟨resolved, node⟩
    simp [read, resolved, node]

theorem exists_mono {before after : FileTree ν β} (grows : Grows before after)
    (nodes : ∀ loc, (before loc).isSome → (after loc).isSome) {path : List (Component ν)}
    (there : before.exists path = true) : after.exists path = true := by
  obtain ⟨node, found⟩ := Option.isSome_iff_exists.mp there
  obtain ⟨loc, resolved, here⟩ := Option.bind_eq_some_iff.mp found
  rw [FileTree.exists, resolve_grows grows resolved, Option.bind_some]
  apply nodes
  rw [here, Option.isSome_some]

section Update
variable [DecidableEq ν]

theorem write_eq_some {before after : FileTree ν β} {path : List (Component ν)} {content : β}
    (h : write before path content = some after) :
    resolve before path = some (location path) ∧ isDir before (location path) = false ∧
      after = Function.update before (location path) (some (.file content)) := by
  unfold write at h
  cases resolved : resolve before path with
  | none => simp [resolved] at h
  | some loc =>
      obtain rfl := resolve_location resolved
      simp only [resolved] at h
      split at h
      · cases h
      · rename_i noDir
        exact ⟨rfl, by simpa using noDir, (Option.some.inj h).symm⟩

theorem write_isSome (tree : FileTree ν β) (path : List (Component ν)) (content : β) :
    (write tree path content).isSome = writable tree path := by
  rw [write, writable]
  cases resolve tree path with
  | none => rfl
  | some loc =>
      rw [Option.any_some]
      cases here : isDir tree loc with
      | true => simp [here]
      | false => simp [here]

theorem write_grows {before after : FileTree ν β} {path : List (Component ν)} {content : β}
    (h : write before path content = some after) : Grows before after := by
  obtain ⟨-, noDir, rfl⟩ := write_eq_some h
  intro loc dir
  have ne : loc ≠ location path := by
    rintro rfl
    simp [noDir] at dir
  simpa [isDir, Function.update_of_ne ne] using dir

theorem read_write_same {before after : FileTree ν β} {path : List (Component ν)} {content : β}
    (h : write before path content = some after) : read after path = some content := by
  have resolved := resolve_grows (write_grows h) (write_eq_some h).1
  rw [read_eq_some_iff]
  refine ⟨resolved, ?_⟩
  rw [(write_eq_some h).2.2, Function.update_self]

theorem exists_write {before after : FileTree ν β} {path other : List (Component ν)} {content : β}
    (h : write before path content = some after) (there : before.exists other = true) :
    after.exists other = true := by
  refine exists_mono (write_grows h) (fun loc node => ?_) there
  rw [(write_eq_some h).2.2]
  by_cases here : loc = location path
  · rw [here, Function.update_self, Option.isSome_some]
  · rwa [Function.update_of_ne here]

theorem write_same {tree : FileTree ν β} {path : List (Component ν)} {content : β}
    (present : read tree path = some content) : write tree path content = some tree := by
  obtain ⟨resolved, node⟩ := read_eq_some_iff.mp present
  have noDir : isDir tree (location path) = false := by rw [isDir, node]
  simp only [write, resolved, noDir, Bool.false_eq_true, if_false]
  rw [← node, Function.update_eq_self]

omit [DecidableEq ν] in
theorem resolve_congr {a b : FileTree ν β} (same : ∀ loc, isDir a loc = isDir b loc)
    (path : List (Component ν)) : resolve a path = resolve b path := by
  have walks (cur : List ν) : walk a cur path = walk b cur path := by
    induction path generalizing cur with
    | nil => rfl
    | cons c path ih => simp only [walk, same, ih]
  exact walks []

theorem read_write {before after : FileTree ν β} {path : List (Component ν)} {content : β}
    (h : write before path content = some after) (other : List (Component ν)) :
    read after other =
      if resolve before other = resolve before path then some content else read before other := by
  obtain ⟨resolved, noDir, rfl⟩ := write_eq_some h
  have dirs loc : isDir (Function.update before (location path) (some (.file content))) loc =
      isDir before loc := by
    by_cases here : loc = location path
    · rw [here, noDir, isDir, Function.update_self]
    · rw [isDir, isDir, Function.update_of_ne here]
  rw [read, read, resolve_congr dirs]
  cases found : resolve before other with
  | none => simp [resolved]
  | some loc =>
      by_cases here : loc = location path
      · simp [resolved, here]
      · simp [resolved, here]

theorem read_write_other {before after : FileTree ν β} {path other : List (Component ν)}
    {content old : β} (h : write before path content = some after)
    (apart : location other ≠ location path) (present : read before other = some old) :
    read after other = some old := by
  obtain ⟨resolved, node⟩ := read_eq_some_iff.mp present
  rw [read_eq_some_iff]
  refine ⟨resolve_grows (write_grows h) resolved, ?_⟩
  rw [(write_eq_some h).2.2, Function.update_of_ne apart, node]

theorem createDirectory_eq_some {before after : FileTree ν β} {path : List (Component ν)}
    (h : createDirectory before path = some after) :
    resolve before path = some (location path) ∧
      ((before (location path) = none ∧
          after = Function.update before (location path) (some .dir)) ∨
        (before (location path) = some .dir ∧ after = before)) := by
  unfold createDirectory at h
  cases resolved : resolve before path with
  | none => simp [resolved] at h
  | some loc =>
      obtain rfl := resolve_location resolved
      simp only [resolved] at h
      split at h
      · rename_i absent
        exact ⟨rfl, .inl ⟨absent, (Option.some.inj h).symm⟩⟩
      · rename_i dir
        exact ⟨rfl, .inr ⟨dir, (Option.some.inj h).symm⟩⟩
      · cases h

theorem createDirectory_grows {before after : FileTree ν β} {path : List (Component ν)}
    (h : createDirectory before path = some after) : Grows before after := by
  obtain ⟨-, ⟨absent, rfl⟩ | ⟨-, rfl⟩⟩ := createDirectory_eq_some h
  · intro loc dir
    have ne : loc ≠ location path := by
      rintro rfl
      simp [isDir, absent] at dir
    simpa [isDir, Function.update_of_ne ne] using dir
  · exact Grows.refl _

theorem exists_createDirectory {before after : FileTree ν β} {path : List (Component ν)}
    (h : createDirectory before path = some after) :
    after.exists path = true ∧
      ∀ other, before.exists other = true → after.exists other = true := by
  obtain ⟨resolved, ⟨absent, rfl⟩ | ⟨dir, rfl⟩⟩ := createDirectory_eq_some h
  · constructor
    · rw [FileTree.exists, resolve_grows (createDirectory_grows h) resolved, Option.bind_some,
        Function.update_self, Option.isSome_some]
    · intro other there
      refine exists_mono (createDirectory_grows h) (fun loc node => ?_) there
      by_cases here : loc = location path
      · rw [here, Function.update_self, Option.isSome_some]
      · rwa [Function.update_of_ne here]
  · constructor
    · rw [FileTree.exists, resolved, Option.bind_some, dir, Option.isSome_some]
    · exact fun other there => there

theorem read_createDirectory {before after : FileTree ν β} {path other : List (Component ν)}
    {old : β} (h : createDirectory before path = some after)
    (present : read before other = some old) : read after other = some old := by
  obtain ⟨resolved, node⟩ := read_eq_some_iff.mp present
  rw [read_eq_some_iff]
  refine ⟨resolve_grows (createDirectory_grows h) resolved, ?_⟩
  obtain ⟨-, ⟨absent, rfl⟩ | ⟨-, rfl⟩⟩ := createDirectory_eq_some h
  · have ne : location other ≠ location path := fun same => by simp [same ▸ node] at absent
    rw [Function.update_of_ne ne, node]
  · exact node

end Update

/-! ## Ways to a location -/

theorem walk_concat (tree : FileTree ν β) (cur : List ν) (path : List (Component ν)) (c : Component ν) :
    walk tree cur (path ++ [c]) =
      (walk tree cur path).bind fun loc => if isDir tree loc then some (Component.target loc c) else none := by
  induction path generalizing cur with
  | nil => rfl
  | cons d path ih =>
      rw [List.cons_append, walk, walk]
      split
      · exact ih _
      · rfl

theorem location_concat (path : List (Component ν)) (c : Component ν) :
    location (path ++ [c]) = Component.target (location path) c := by
  rw [location, List.foldl_append]
  rfl

theorem resolve_concat_eq_some {tree : FileTree ν β} {path : List (Component ν)} {c : Component ν}
    {loc : List ν} : resolve tree (path ++ [c]) = some loc ↔
      resolve tree path = some (location path) ∧ isDir tree (location path) = true ∧
        loc = Component.target (location path) c := by
  rw [resolve, walk_concat, Option.bind_eq_some_iff]
  constructor
  · rintro ⟨mid, resolved, target⟩
    obtain rfl := resolve_location resolved
    split at target
    · rename_i dir
      exact ⟨resolved, dir, (Option.some.inj target).symm⟩
    · cases target
  · rintro ⟨resolved, dir, rfl⟩
    exact ⟨_, resolved, if_pos dir⟩

/-- Everything above the end of a walk is a directory, by induction on the walk. -/
theorem isDir_above_walk {tree : FileTree ν β} {path : List (Component ν)} {cur loc : List ν}
    (start : ∀ above, above <+: cur → above ≠ cur → isDir tree above = true)
    (walked : walk tree cur path = some loc) {above : List ν} (front : above <+: loc)
    (proper : above ≠ loc) : isDir tree above = true := by
  induction path generalizing cur with
  | nil =>
      obtain rfl := Option.some.inj walked
      exact start above front proper
  | cons c path ih =>
      rw [walk] at walked
      split at walked
      · rename_i here
        refine ih (fun above front proper => ?_) walked
        cases c with
        | here => exact start above front proper
        | up =>
            have front' : above <+: cur := front.trans (List.dropLast_prefix cur)
            by_cases whole : above = cur
            · rwa [whole]
            · exact start above front' whole
        | name n =>
            rcases List.prefix_concat_iff.mp front with whole | front'
            · exact absurd whole proper
            · by_cases whole : above = cur
              · rwa [whole]
              · exact start above front' whole
      · cases walked

theorem isDir_above {tree : FileTree ν β} {path : List (Component ν)} {loc above : List ν}
    (resolved : resolve tree path = some loc) (front : above <+: loc) (proper : above ≠ loc) :
    isDir tree above = true := by
  refine isDir_above_walk (fun above front proper => ?_) resolved front proper
  exact absurd (List.prefix_nil.mp front) proper

theorem dropLast_of_step {tree : FileTree ν β} {path : List (Component ν)} {c : Component ν}
    (resolved : resolve tree path = some (location path)) (dir : isDir tree (location path) = true)
    (other : isDir tree (location (path ++ [c])) = false) :
    (location (path ++ [c])).dropLast = location path := by
  rw [location_concat] at other ⊢
  cases c with
  | here => exact absurd dir (by simpa [Component.target] using other)
  | up =>
      rw [Component.target] at other
      by_cases top : (location path).dropLast = location path
      · rw [top, dir] at other
        cases other
      · rw [isDir_above resolved (List.dropLast_prefix _) top] at other
        cases other
  | name n => exact List.dropLast_concat

/-! ## What is at a location -/

inductive Kind where
  | directory
  | file
deriving DecidableEq, Repr

def kind (tree : FileTree ν β) (loc : List ν) : Option Kind :=
  match tree loc with
  | none => none
  | some .dir => some .directory
  | some (.file _) => some .file

theorem isDir_iff_kind {tree : FileTree ν β} {loc : List ν} :
    isDir tree loc = true ↔ kind tree loc = some .directory := by
  rw [isDir, kind]
  cases tree loc with
  | none => simp
  | some node => cases node <;> simp

theorem kind_file_iff {tree : FileTree ν β} {loc : List ν} :
    kind tree loc = some .file ↔ ∃ content, tree loc = some (.file content) := by
  rw [kind]
  cases tree loc with
  | none => simp
  | some node => cases node <;> simp

theorem exists_iff_kind {tree : FileTree ν β} {path : List (Component ν)} :
    tree.exists path = true ↔
      resolve tree path = some (location path) ∧ ∃ k, kind tree (location path) = some k := by
  constructor
  · intro there
    obtain ⟨node, found⟩ := Option.isSome_iff_exists.mp there
    obtain ⟨loc, resolved, here⟩ := Option.bind_eq_some_iff.mp found
    obtain rfl := resolve_location resolved
    refine ⟨resolved, ?_⟩
    rw [kind, here]
    cases node with
    | dir => exact ⟨_, rfl⟩
    | file content => exact ⟨_, rfl⟩
  · rintro ⟨resolved, k, here⟩
    rw [FileTree.exists, resolved, Option.bind_some, Option.isSome_iff_ne_none]
    intro none
    rw [kind, none] at here
    cases here

def KeepsKinds (before after : FileTree ν β) : Prop :=
  ∀ loc k, kind before loc = some k → kind after loc = some k

theorem KeepsKinds.refl (tree : FileTree ν β) : KeepsKinds tree tree := fun _ _ here => here

theorem KeepsKinds.trans {a b c : FileTree ν β} (first : KeepsKinds a b) (second : KeepsKinds b c) :
    KeepsKinds a c := fun loc k here => second loc k (first loc k here)

theorem KeepsKinds.grows {before after : FileTree ν β} (keeps : KeepsKinds before after) :
    Grows before after := by
  intro loc dir
  rw [isDir_iff_kind] at dir ⊢
  exact keeps loc _ dir

theorem KeepsKinds.exists {before after : FileTree ν β} (keeps : KeepsKinds before after)
    {path : List (Component ν)} (there : before.exists path = true) : after.exists path = true := by
  obtain ⟨resolved, k, here⟩ := exists_iff_kind.mp there
  exact exists_iff_kind.mpr ⟨resolve_grows keeps.grows resolved, k, keeps _ k here⟩

section Kinds
variable [DecidableEq ν] {before after : FileTree ν β} {path : List (Component ν)}

theorem kind_write {content : β} (written : write before path content = some after) (loc : List ν) :
    kind after loc = if loc = location path then some .file else kind before loc := by
  rw [(write_eq_some written).2.2]
  by_cases here : loc = location path
  · rw [if_pos here, here, kind, Function.update_self]
  · rw [if_neg here, kind, Function.update_of_ne here, kind]

theorem keepsKinds_write {content : β} (written : write before path content = some after) :
    KeepsKinds before after := by
  intro loc k here
  rw [kind_write written]
  split
  · rename_i same
    have noDir := (write_eq_some written).2.1
    cases k with
    | directory =>
        rw [same, ← isDir_iff_kind, noDir] at here
        cases here
    | file => rfl
  · exact here

theorem kind_createDirectory (created : createDirectory before path = some after) (loc : List ν) :
    kind after loc = if loc = location path then some .directory else kind before loc := by
  obtain ⟨-, ⟨absent, rfl⟩ | ⟨dir, rfl⟩⟩ := createDirectory_eq_some created
  · by_cases here : loc = location path
    · rw [if_pos here, here, kind, Function.update_self]
    · rw [if_neg here, kind, Function.update_of_ne here, kind]
  · by_cases here : loc = location path
    · rw [if_pos here, here, kind, dir]
    · rw [if_neg here]

theorem keepsKinds_createDirectory (created : createDirectory before path = some after) :
    KeepsKinds before after := by
  intro loc k here
  rw [kind_createDirectory created]
  split
  · rename_i same
    rw [same, kind] at here
    obtain ⟨-, ⟨absent, -⟩ | ⟨dir, -⟩⟩ := createDirectory_eq_some created
    · rw [absent] at here
      cases here
    · rwa [dir] at here
  · exact here

end Kinds
end FileTree
end TscServer.Lib
