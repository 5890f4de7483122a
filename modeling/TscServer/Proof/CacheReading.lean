import TscServer.Lib.FileAttempts
import TscServer.Proof.CacheFiles
import TscServer.Proof.Serving
import TscServer.Proof.Transparency

/-!
# Reading the cache

A sequence of calls of `MakeCache`, and what is read afterwards. A file and a directory of one name are
in each other's way, which `MakeCache` does not notice when it is the file that cannot be opened; two
keys can also name one file.
-/

namespace TscServer.Proof
open Lib Model Spec ProxyHandler
open Lib.FileTree (Attempt Attempts Kind kind kindAt)

/-! ## Calls of `MakeCache` -/

structure Caching where
  uri : Bytes
  expiration : Ptime
  eTag : Bytes
  response : Response

def makeCaches (env : Environment) : List Caching → ProxyProc Unit
  | [] => return ()
  | call :: calls => do
      makeCache env call.uri call.expiration call.eTag call.response
      makeCaches env calls

abbrev Caching.key (call : Caching) : Bytes := cacheKey call.uri

-- the path of the directory that the file of an entry is in
def parentPath (env : Environment) (key : Bytes) : List (Component Bytes) := (cachePath env key).dropLast

def parentLocation (env : Environment) (key : Bytes) : List Bytes := FileTree.location (parentPath env key)

def attemptsFor (env : Environment) (key : Bytes) : List (Attempt Bytes) :=
  (directories key).map (fun directory => ⟨.directory, cachePath env directory⟩) ++
    [⟨.file, cachePath env key⟩]

def attemptsOf (env : Environment) (calls : List Caching) : List (Attempt Bytes) :=
  calls.flatMap fun call => attemptsFor env call.key

def SameFile (env : Environment) (key other : Bytes) : Prop :=
  parentLocation env other = parentLocation env key ∧ fileLocation env other = fileLocation env key

instance (env : Environment) (key other : Bytes) : Decidable (SameFile env key other) :=
  inferInstanceAs (Decidable (_ ∧ _))

def lastWritten (env : Environment) (calls : List Caching) (key : Bytes) : Option Bytes :=
  ((calls.filter fun call => SameFile env key call.key).getLast?).map fun call => call.response.toBytes

/-! ## Paths -/

section Paths
variable (env : Environment) (key : Bytes)

theorem cachePath_split : ∃ c, cachePath env key = parentPath env key ++ [c] := by
  have parts : ((cStr key).splitOn 47).map component ≠ [] := by
    rw [Ne, List.map_eq_nil_iff]
    exact List.splitOn_ne_nil 47 _
  have nonempty : cachePath env key ≠ [] := fun none => parts (List.append_eq_nil_iff.mp none).2
  exact ⟨_, (List.dropLast_append_getLast nonempty).symm⟩

theorem mem_directories {first last : Bytes} (nonempty : first ≠ []) :
    first ∈ directories (first ++ 47 :: last) := by
  rw [directories, List.mem_map]
  refine ⟨first.length, List.mem_filter.mpr ⟨?_, ?_⟩, List.take_left⟩
  · simp
  · have some_ := List.length_pos_iff.mpr nonempty
    simp
    omega

theorem parentPath_cases : parentPath env key = env.cacheDir ∨ parentPath env key = env.cacheDir ++ [.here] ∨
    ∃ directory ∈ directories key, parentPath env key = cachePath env directory := by
  rw [parentPath, cachePath]
  cases found : findLast 47 (cStr key) with
  | none =>
      left
      rw [List.splitOn_eq_singleton (findLast_eq_none_iff.mp found), List.map_singleton, List.dropLast_concat]
  | some i =>
      right
      obtain ⟨first, last, split, -, noSlash⟩ := findLast_split found
      have parts : (cStr key).splitOn 47 = first.splitOn 47 ++ [last] := by
        rw [split, List.splitOn_append_cons_self, List.splitOn_eq_singleton noSlash]
      rw [parts, List.map_append, ← List.append_assoc, List.map_singleton, List.dropLast_concat]
      by_cases top : first = []
      · left
        rw [top]
        rfl
      · right
        obtain ⟨rest, whole⟩ : cStr key <+: key := List.takeWhile_prefix _
        have noZero : 0 ∉ first := by
          have none := zero_notMem_cStr key
          rw [split] at none
          exact fun zero => none (List.mem_append_left _ zero)
        refine ⟨first, ?_, ?_⟩
        · rw [← whole, split, List.append_assoc, List.cons_append]
          exact mem_directories top
        · rw [cachePath, cStr_eq_self noZero]

end Paths

/-! ## The disk after the calls -/

def CacheDirectory (env : Environment) (files : FileTree Bytes Bytes) : Prop :=
  files.exists env.cacheDir = true ∧ kind files (FileTree.location env.cacheDir) = some .directory

structure MadeCaches (env : Environment) (disk : FileTree Bytes Bytes) (calls : List Caching)
    (s : ProxyState) : Prop where
  attempts : Attempts disk (attemptsOf env calls) s.files
  parents : ∀ call ∈ calls, s.files.exists (parentPath env call.key) = true
  contents : ∀ key content written, kind s.files (parentLocation env key) = some .directory →
    s.files (fileLocation env key) = some (.file content) → lastWritten env calls key = some written →
    content = written
  keys : ∀ key ∈ s.cache, ∃ call ∈ calls, call.key = key

section Disk
variable {env : Environment} {disk before after : FileTree Bytes Bytes} {calls : List Caching}
  {call : Caching} {key : Bytes} {s s' : ProxyState}

theorem CacheDirectory.keeps (dir : CacheDirectory env before) (keeps : FileTree.KeepsKinds before after) :
    CacheDirectory env after := ⟨keeps.exists dir.1, keeps _ _ dir.2⟩

theorem attempts_makeDirectories {attempts : List (Attempt Bytes)} {directories : List Bytes}
    (run : Attempts disk attempts before) (made : makeDirectories env directories before = some after) :
    Attempts disk (attempts ++ directories.map fun directory => ⟨.directory, cachePath env directory⟩)
      after := by
  induction directories generalizing before attempts with
  | nil =>
      cases made
      rwa [List.map_nil, List.append_nil]
  | cons directory directories ih =>
      rw [List.map_cons, List.append_cons]
      rw [makeDirectories] at made
      split at made
      · rename_i there
        exact ih (run.snoc (.there there)) made
      · obtain ⟨mid, here, rest⟩ := Option.bind_eq_some_iff.mp made
        exact ih (run.snoc (.made here)) rest

theorem keepsKinds_makeDirectories {directories : List Bytes}
    (made : makeDirectories env directories before = some after) : FileTree.KeepsKinds before after :=
  FileTree.attempts_keepsKinds (attempts_makeDirectories .nil made)

theorem exists_parent (dir : CacheDirectory env before)
    (made : makeDirectories env (directories key) before = some after) :
    after.exists (parentPath env key) = true := by
  have dir' := dir.keeps (keepsKinds_makeDirectories made)
  rcases parentPath_cases env key with whole | here | ⟨directory, mem, same⟩
  · rw [whole]
    exact dir'.1
  · obtain ⟨resolved, -⟩ := FileTree.exists_iff_kind.mp dir'.1
    rw [here, FileTree.exists_iff_kind, FileTree.resolve_concat_eq_some, FileTree.location_concat]
    exact ⟨⟨resolved, FileTree.isDir_iff_kind.mpr dir'.2, rfl⟩, .directory, dir'.2⟩
  · rw [same]
    exact (exists_makeDirectories made).1 directory mem

theorem resolve_cachePath_iff (there : before.exists (parentPath env key) = true) :
    FileTree.resolve before (cachePath env key) = some (fileLocation env key) ↔
      kind before (parentLocation env key) = some .directory := by
  obtain ⟨c, split⟩ := cachePath_split env key
  obtain ⟨resolved, -⟩ := FileTree.exists_iff_kind.mp there
  rw [fileLocation, split, FileTree.resolve_concat_eq_some, FileTree.location_concat,
    FileTree.isDir_iff_kind]
  exact ⟨fun opens => opens.2.1, fun dir => ⟨resolved, dir, rfl⟩⟩

theorem dropLast_fileLocation (there : before.exists (parentPath env key) = true)
    (dir : kind before (parentLocation env key) = some .directory)
    (other : kind before (fileLocation env key) ≠ some .directory) :
    (fileLocation env key).dropLast = parentLocation env key := by
  obtain ⟨c, split⟩ := cachePath_split env key
  obtain ⟨resolved, -⟩ := FileTree.exists_iff_kind.mp there
  have noDir : FileTree.isDir before (fileLocation env key) = false := by
    rw [← Bool.not_eq_true, FileTree.isDir_iff_kind]
    exact other
  rw [fileLocation, split] at noDir ⊢
  exact FileTree.dropLast_of_step resolved (FileTree.isDir_iff_kind.mpr dir) noDir

/-! ## One call -/

section Stored
variable {uri content : Bytes} {sign : CacheSign} {attempts : List (Attempt Bytes)}

theorem attempts_stored (dir : CacheDirectory env s.files) (run : Attempts disk attempts s.files)
    (stored : Stored env uri sign content s s') :
    Attempts disk (attempts ++ attemptsFor env (cacheKey uri)) s'.files := by
  obtain ⟨made, directories, files⟩ := stored.files
  have opened := exists_parent dir directories
  rw [attemptsFor, ← List.append_assoc, files]
  refine (attempts_makeDirectories run directories).snoc ?_
  cases written : made.write (cachePath env (cacheKey uri)) content with
  | some after => exact .written written
  | none =>
      obtain ⟨c, split⟩ := cachePath_split env (cacheKey uri)
      rw [split] at written ⊢
      exact .closed opened written

theorem keepsKinds_of_stored (dir : CacheDirectory env s.files)
    (stored : Stored env uri sign content s s') : FileTree.KeepsKinds s.files s'.files :=
  FileTree.attempts_keepsKinds (attempts_stored dir .nil stored)

theorem exists_parent_stored (dir : CacheDirectory env s.files)
    (stored : Stored env uri sign content s s') :
    s'.files.exists (parentPath env (cacheKey uri)) = true := by
  obtain ⟨made, directories, files⟩ := stored.files
  have opened := exists_parent dir directories
  cases written : made.write (cachePath env (cacheKey uri)) content with
  | none => rwa [files, written]
  | some after =>
      rw [files, written, Option.getD_some]
      exact FileTree.exists_write written opened

theorem content_of_stored (dir : CacheDirectory env s.files) (stored : Stored env uri sign content s s')
    (parent : kind s'.files (parentLocation env (cacheKey uri)) = some .directory)
    (other : kind s'.files (fileLocation env (cacheKey uri)) ≠ some .directory) :
    s'.files (fileLocation env (cacheKey uri)) = some (.file content) := by
  obtain ⟨made, directories, files⟩ := stored.files
  have opened := exists_parent dir directories
  cases written : made.write (cachePath env (cacheKey uri)) content with
  | some after =>
      rw [files, written, Option.getD_some, (FileTree.write_eq_some written).2.2]
      exact Function.update_self ..
  | none =>
      rw [written, Option.getD_none] at files
      rw [files] at parent other
      have resolved := (resolve_cachePath_iff opened).mpr parent
      have isDir := FileTree.isDir_of_closed resolved written
      exact absurd (FileTree.isDir_iff_kind.mp isDir) other

/-- A file in a directory keeps its content when the entry that is stored has another file. -/
theorem content_of_stored_other (dir : CacheDirectory env s.files)
    (stored : Stored env uri sign content s s') (apart : ¬ SameFile env key (cacheKey uri))
    (there : s.files.exists (parentPath env key) = true)
    (parent : kind s'.files (parentLocation env key) = some .directory) {old : Bytes}
    (present : s'.files (fileLocation env key) = some (.file old)) :
    s.files (fileLocation env key) = some (.file old) := by
  have keeps := keepsKinds_of_stored dir stored
  obtain ⟨made, directories, files⟩ := stored.files
  have opened := exists_parent dir directories
  rw [← sameFiles_makeDirectories directories]
  cases written : made.write (cachePath env (cacheKey uri)) content with
  | none => rwa [files, written] at present
  | some after =>
      rw [written, Option.getD_some] at files
      have file {other : List Bytes} {c : Bytes} (here : s'.files other = some (.file c)) :
          kind s'.files other ≠ some .directory := by
        rw [FileTree.kind_file_iff.mpr ⟨c, here⟩]
        exact fun same => by cases same
      have ne : fileLocation env key ≠ fileLocation env (cacheKey uri) := by
        intro same
        apply apart
        have own := dropLast_fileLocation (keeps.exists there) parent (file present)
        have keeps' : FileTree.KeepsKinds made s'.files := by
          rw [files]
          exact FileTree.keepsKinds_write written
        have parent' := (resolve_cachePath_iff opened).mp (FileTree.write_eq_some written).1
        have other := dropLast_fileLocation (keeps'.exists opened) (keeps' _ _ parent')
          (file (same ▸ present))
        exact ⟨other.symm.trans (same ▸ own), same.symm⟩
      rw [files, (FileTree.write_eq_some written).2.2] at present
      exact (Function.update_of_ne ne _ _).symm.trans present

end Stored

/-! ## All calls -/

theorem lastWritten_concat (calls : List Caching) (call : Caching) : lastWritten env (calls ++ [call]) key =
    if SameFile env key call.key then some call.response.toBytes else lastWritten env calls key := by
  rw [lastWritten, lastWritten, List.filter_append, List.filter_singleton]
  by_cases same : SameFile env key call.key
  · simp [same]
  · simp [same]

theorem exists_of_lastWritten {written : Bytes} (last : lastWritten env calls key = some written) :
    ∃ call ∈ calls, SameFile env key call.key := by
  obtain ⟨call, last, -⟩ := Option.map_eq_some_iff.mp last
  obtain ⟨mem, same⟩ := List.mem_filter.mp (List.mem_of_getLast? last)
  exact ⟨call, mem, of_decide_eq_true same⟩

theorem lastWritten_isSome (mem : call ∈ calls) : ∃ written, lastWritten env calls call.key = some written := by
  have own : call ∈ calls.filter fun other => SameFile env call.key other.key :=
    List.mem_filter.mpr ⟨mem, decide_eq_true ⟨rfl, rfl⟩⟩
  cases last : (calls.filter fun other => SameFile env call.key other.key).getLast? with
  | none => exact absurd (List.getLast?_eq_none_iff.mp last) (List.ne_nil_of_mem own)
  | some other => exact ⟨other.response.toBytes, by rw [lastWritten, last, Option.map_some]⟩

theorem madeCaches_nil (env : Environment) (disk : FileTree Bytes Bytes) :
    MadeCaches env disk [] { files := disk } where
  attempts := .nil
  parents call mem := by cases mem
  contents key content written dir file last := by cases last
  keys key mem := absurd mem (AList.notMem_empty key)

theorem contents_step (dir : CacheDirectory env s.files) (made : MadeCaches env disk calls s)
    (stored : Stored env call.uri { expiration := call.expiration, eTag := call.eTag }
      call.response.toBytes s s') {content written : Bytes}
    (parent : kind s'.files (parentLocation env key) = some .directory)
    (present : s'.files (fileLocation env key) = some (.file content))
    (last : lastWritten env (calls ++ [call]) key = some written) : content = written := by
  rw [lastWritten_concat] at last
  split at last
  · rename_i same
    have file : kind s'.files (fileLocation env key) ≠ some .directory := by
      rw [FileTree.kind_file_iff.mpr ⟨content, present⟩]
      exact fun same => by cases same
    rw [← same.1] at parent
    rw [← same.2] at present file
    have now := content_of_stored dir stored parent file
    rw [present] at now
    injection now with now
    injection now with now
    exact now.trans (Option.some.inj last)
  · rename_i apart
    obtain ⟨other, mem, same⟩ := exists_of_lastWritten last
    have there := made.parents other mem
    have apart' : ¬ SameFile env other.key call.key := fun own =>
      apart ⟨own.1.trans same.1, own.2.trans same.2⟩
    rw [← same.1] at parent
    rw [← same.2] at present
    have before := content_of_stored_other dir stored apart' there parent present
    obtain ⟨-, k, here⟩ := FileTree.exists_iff_kind.mp there
    have directory : some k = some .directory :=
      (keepsKinds_of_stored dir stored _ k here).symm.trans parent
    rw [same.2] at before
    refine made.contents key content written ?_ before last
    rw [← same.1]
    exact here.trans directory

theorem madeCaches_step (dir : CacheDirectory env disk) (made : MadeCaches env disk calls s)
    (stored : Stored env call.uri { expiration := call.expiration, eTag := call.eTag }
      call.response.toBytes s s') : MadeCaches env disk (calls ++ [call]) s' := by
  have dir' := dir.keeps (FileTree.attempts_keepsKinds made.attempts)
  constructor
  · rw [attemptsOf, List.flatMap_append, List.flatMap_singleton]
    exact attempts_stored dir' made.attempts stored
  · intro other mem
    rcases List.mem_append.mp mem with earlier | last
    · exact (keepsKinds_of_stored dir' stored).exists (made.parents other earlier)
    · obtain rfl := List.mem_singleton.mp last
      exact exists_parent_stored dir' stored
  · intro key content written parent present last
    exact contents_step dir' made stored parent present last
  · intro key mem
    rw [stored.cache, AList.mem_insert] at mem
    rcases mem with rfl | earlier
    · exact ⟨call, by simp, rfl⟩
    · obtain ⟨other, mem, own⟩ := made.keys key earlier
      exact ⟨other, List.mem_append_left _ mem, own⟩

/-- By induction on the calls. -/
theorem madeCaches_run (dir : CacheDirectory env disk) {more : List Caching} (made : MadeCaches env disk calls s)
    (ran : (makeCaches env more).run s = .done () s') : MadeCaches env disk (calls ++ more) s' := by
  induction more generalizing calls s with
  | nil =>
      cases ran
      rwa [List.append_nil]
  | cons call more ih =>
      obtain ⟨_, mid, first, rest⟩ := Proc.run_bind_eq_done.mp ran
      have stored := Proc.wp_done (makeCache_wp call.uri call.expiration call.eTag call.response) first
      rw [List.append_cons]
      exact ih (madeCaches_step dir made stored) rest

theorem madeCaches (dir : CacheDirectory env disk)
    (ran : (makeCaches env calls).run { files := disk } = .done () s) : MadeCaches env disk calls s :=
  madeCaches_run dir (madeCaches_nil env disk) ran

/-! ## Reading -/

/-- The file of the entry has a response that was stored under this key, and the loop of `HandleCache`
reads it to its end. -/
def ReadsOwn (env : Environment) (calls : List Caching) (s : ProxyState) (key : Bytes) : Prop :=
  ∃ call ∈ calls, call.key = key ∧
    s.files.read (cachePath env key) = some call.response.toBytes ∧
    ∀ response, (serveFile env key response).twp
      (fun served s' => Serves key call.response.toBytes s s' served) (fun _ _ => False) s

/-- No directory is where the file should be and no file where its directory should be, and what was
written last was a response to this key. -/
structure OwnFile (env : Environment) (disk : FileTree Bytes Bytes) (calls : List Caching)
    (key : Bytes) : Prop where
  parent : kindAt disk (attemptsOf env calls) (parentLocation env key) ≠ some .file
  file : kindAt disk (attemptsOf env calls) (fileLocation env key) ≠ some .directory
  last : ∃ call ∈ calls, call.key = key ∧ lastWritten env calls key = some call.response.toBytes

theorem kind_file_of_ownFile (made : MadeCaches env disk calls s) (mem : call ∈ calls)
    (own : OwnFile env disk calls call.key) :
    kind s.files (parentLocation env call.key) = some .directory ∧
      kind s.files (fileLocation env call.key) = some .file := by
  have settled := FileTree.settled_attempts made.attempts
  have there := made.parents call mem
  have parent : kind s.files (parentLocation env call.key) = some .directory := by
    obtain ⟨-, k, here⟩ := FileTree.exists_iff_kind.mp there
    cases k with
    | directory => exact here
    | file => exact absurd (settled.kinds _ _ here) own.parent
  have other : kind s.files (fileLocation env call.key) ≠ some .directory := fun dir =>
    own.file (settled.kinds _ _ dir)
  refine ⟨parent, ?_⟩
  have attempt : (⟨.file, cachePath env call.key⟩ : Attempt Bytes) ∈ attemptsOf env calls :=
    List.mem_flatMap.mpr ⟨call, mem, List.mem_append_right _ (List.mem_singleton_self _)⟩
  rcases settled.reached _ attempt with ⟨k, here⟩ | below
  · cases k with
    | directory => exact absurd here other
    | file => exact here
  · have above : (fileLocation env call.key).dropLast = parentLocation env call.key :=
      dropLast_fileLocation there parent other
    have file : kind s.files (fileLocation env call.key).dropLast = some .file := below
    rw [above, parent] at file
    cases file

theorem readsOwn_iff (env : Environment) {disk : FileTree Bytes Bytes} {calls : List Caching}
    {s : ProxyState} {uri : Bytes} (dir : CacheDirectory env disk)
    (ran : (makeCaches env calls).run { files := disk } = .done () s) (cached : cacheKey uri ∈ s.cache) :
    ReadsOwn env calls s (cacheKey uri) ↔ OwnFile env disk calls (cacheKey uri) := by
  have made := madeCaches dir ran
  obtain ⟨call, mem, own⟩ := made.keys _ cached
  rw [← own]
  have there := made.parents call mem
  constructor
  · rintro ⟨writer, mem', same, readable, -⟩
    obtain ⟨resolved, present⟩ := FileTree.read_eq_some_iff.mp readable
    have settled := FileTree.settled_attempts made.attempts
    have parent := (resolve_cachePath_iff there).mp resolved
    have file : kind s.files (fileLocation env call.key) = some .file :=
      FileTree.kind_file_iff.mpr ⟨_, present⟩
    refine ⟨?_, ?_, writer, mem', same, ?_⟩
    · rw [settled.kinds _ _ parent]
      exact fun never => by cases never
    · rw [settled.kinds _ _ file]
      exact fun never => by cases never
    · obtain ⟨written, last⟩ : ∃ written, lastWritten env calls call.key = some written :=
        lastWritten_isSome mem
      rw [last, ← made.contents call.key _ written parent present last]
  · intro ownFile
    obtain ⟨writer, mem', same, last⟩ := ownFile.last
    obtain ⟨parent, file⟩ := kind_file_of_ownFile made mem ownFile
    obtain ⟨content, present⟩ := FileTree.kind_file_iff.mp file
    have content := made.contents call.key content _ parent present last
    subst content
    have readable : s.files.read (cachePath env call.key) = some writer.response.toBytes :=
      FileTree.read_eq_some_iff.mpr ⟨(resolve_cachePath_iff there).mpr parent, present⟩
    exact ⟨writer, mem', same, readable, serveFile_twp readable⟩

end Disk

def storedFor (uri : Bytes) : Caching where
  uri := uri
  expiration := .at 60
  eTag := []
  response := Response.setRawResponse {} (bytes "HTTP/1.1 200 OK\r\n\r\n" ++ uri)

theorem readsOwn_siblings : ∃ s,
    (makeCaches (scripted []) [storedFor (bytes "/a/b"), storedFor (bytes "/a/c")]).run
      { files := emptyDisk } = .done () s ∧
    ReadsOwn (scripted []) [storedFor (bytes "/a/b"), storedFor (bytes "/a/c")] s (bytes "/a/b") := by
  have computed : ((makeCaches (scripted []) [storedFor (bytes "/a/b"), storedFor (bytes "/a/c")]).run
      { files := emptyDisk }).any (fun _ s => cacheKey (bytes "/a/b") ∈ s.cache) = true := by
    decide
  obtain ⟨_, s, ran, cached⟩ := Outcome.exists_done_of_any computed
  have dir : CacheDirectory (scripted []) emptyDisk := ⟨by decide, by decide⟩
  refine ⟨s, ran, (readsOwn_iff (scripted []) dir ran (of_decide_eq_true cached)).mpr ?_⟩
  refine ⟨by decide, by decide, storedFor (bytes "/a/b"), by simp, rfl, ?_⟩
  decide

theorem not_readsOwn : ¬ ∀ calls s uri,
    (makeCaches (scripted []) calls).run { files := emptyDisk } = .done () s → cacheKey uri ∈ s.cache →
      ReadsOwn (scripted []) calls s (cacheKey uri) := by
  intro claim
  have computed : ((makeCaches (scripted []) [storedFor (bytes "/a"), storedFor (bytes "/a/b")]).run
      { files := emptyDisk }).any (fun _ s => cacheKey (bytes "/a/b") ∈ s.cache &&
        (s.files.read (cachePath (scripted []) (cacheKey (bytes "/a/b")))).isNone) = true := by
    decide
  obtain ⟨_, s, ran, test⟩ := Outcome.exists_done_of_any computed
  obtain ⟨cached, unreadable⟩ := Bool.and_eq_true_iff.mp test
  obtain ⟨call, -, -, readable, -⟩ := claim _ s _ ran (of_decide_eq_true cached)
  rw [readable] at unreadable
  cases unreadable

end TscServer.Proof
