import TscServer.Proof.Exchange

/-!
# Cache files

What `MakeCache` does to the disk when nothing is in its way. A file that it wrote stays as long as
no other entry is stored at the same place, and to store the same response again changes nothing.
-/

namespace TscServer.Proof
open Lib Model Spec ProxyHandler

def StoresFile (env : Environment) (key content : Bytes) (before after : FileTree Bytes Bytes) : Prop :=
  ∃ made, makeDirectories env (directories key) before = some made ∧
    made.write (cachePath env key) content = some after

structure HoldsFile (env : Environment) (key content : Bytes) (files : FileTree Bytes Bytes) : Prop where
  directories : ∀ directory ∈ directories key, files.exists (cachePath env directory) = true
  file : files.read (cachePath env key) = some content

-- where the file of an entry is
def fileLocation (env : Environment) (key : Bytes) : List Bytes :=
  FileTree.location (cachePath env key)

section Disk
variable {env : Environment} {before after files : FileTree Bytes Bytes} {key content : Bytes}

theorem exists_makeDirectories {directories : List Bytes}
    (made : makeDirectories env directories before = some after) :
    (∀ directory ∈ directories, after.exists (cachePath env directory) = true) ∧
      ∀ path, before.exists path = true → after.exists path = true := by
  induction directories generalizing before with
  | nil =>
      cases made
      exact ⟨by simp, fun path there => there⟩
  | cons directory directories ih =>
      rw [makeDirectories] at made
      split at made
      · rename_i there
        obtain ⟨others, kept⟩ := ih made
        exact ⟨List.forall_mem_cons.mpr ⟨kept _ there, others⟩, kept⟩
      · obtain ⟨mid, here, rest⟩ := Option.bind_eq_some_iff.mp made
        obtain ⟨others, kept⟩ := ih rest
        obtain ⟨there, kept'⟩ := FileTree.exists_createDirectory here
        refine ⟨List.forall_mem_cons.mpr ⟨kept _ there, others⟩, ?_⟩
        exact fun path old => kept path (kept' path old)

theorem makeDirectories_of_exists {directories : List Bytes}
    (there : ∀ directory ∈ directories, files.exists (cachePath env directory) = true) :
    makeDirectories env directories files = some files := by
  induction directories with
  | nil => rfl
  | cons directory directories ih =>
      obtain ⟨here, others⟩ := List.forall_mem_cons.mp there
      rw [makeDirectories, if_pos here]
      exact ih others

theorem read_makeDirectories {directories : List Bytes} {path : List (Component Bytes)} {old : Bytes}
    (made : makeDirectories env directories before = some after)
    (present : before.read path = some old) : after.read path = some old := by
  induction directories generalizing before with
  | nil =>
      cases made
      exact present
  | cons directory directories ih =>
      rw [makeDirectories] at made
      split at made
      · exact ih made present
      · obtain ⟨mid, here, rest⟩ := Option.bind_eq_some_iff.mp made
        exact ih rest (FileTree.read_createDirectory here present)

theorem StoresFile.unique {other : FileTree Bytes Bytes}
    (stores : StoresFile env key content before after)
    (stores' : StoresFile env key content before other) : after = other := by
  obtain ⟨made, directories, written⟩ := stores
  obtain ⟨made', directories', written'⟩ := stores'
  obtain rfl := Option.some.inj (directories.symm.trans directories')
  exact Option.some.inj (written.symm.trans written')

theorem holdsFile_of_storesFile (stores : StoresFile env key content before after) :
    HoldsFile env key content after := by
  obtain ⟨made, directories, written⟩ := stores
  refine ⟨fun directory mem => ?_, FileTree.read_write_same written⟩
  exact FileTree.exists_write written ((exists_makeDirectories directories).1 directory mem)

theorem storesFile_of_holdsFile (holds : HoldsFile env key content files) :
    StoresFile env key content files files :=
  ⟨files, makeDirectories_of_exists holds.directories, FileTree.write_same holds.file⟩

theorem HoldsFile.other {key' content' : Bytes} (holds : HoldsFile env key content before)
    (apart : fileLocation env key ≠ fileLocation env key')
    (stores : StoresFile env key' content' before after) : HoldsFile env key content after := by
  obtain ⟨made, directories, written⟩ := stores
  have kept := (exists_makeDirectories directories).2
  constructor
  · intro directory mem
    exact FileTree.exists_write written (kept _ (holds.directories directory mem))
  · have there := read_makeDirectories directories holds.file
    exact FileTree.read_write_other written apart there

end Disk
end TscServer.Proof
