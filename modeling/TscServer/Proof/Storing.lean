import TscServer.Proof.Exchange
import TscServer.Proof.ResponseText
import TscServer.Proof.Transparency

/-!
# Which responses are stored

The header loop remembers that some line granted an age, and a line that forbids caching does not
take this back. `forbidden_left_iff` says which of the responses that forbid caching leave the cache
as it was.
-/

namespace TscServer.Proof
open Lib Model Spec ProxyHandler

def Forbids (m : UpstreamResponse) : Prop :=
  ∃ line ∈ m.lines, headerName line = bytes "Cache-Control" ∧ forbidsCaching line = true

/-- A round with this answer changes neither the cache nor its files, and calls no `MakeCache`. -/
def LeavesCache (answer : Answer) : Prop :=
  ∀ (env : Environment) (request : Request) (requestUri host port uri : Bytes) (s s' : ProxyState),
    (∀ out, env.upstream s.contacts.length out = answer) →
    ((exchange env request requestUri host port uri).run s).state? = some s' →
    s'.cache = s.cache ∧ s'.files = s.files ∧ s'.installs = s.installs

def GrantsAge (m : UpstreamResponse) : Prop :=
  (∀ line ∈ m.rawLines, SafeLine m.status.code line) ∧
    ∃ line ∈ m.rawLines, ∃ life, 0 < life ∧ Grants m.status.code line life

section LeavesCache
variable {answer : Answer} {d : Delivered}

theorem ticked_leaves {k : Nat} {s s' : ProxyState} {out : Outgoing}
    (ticked : Ticked k { s with contacts := s.contacts ++ [out] } s') :
    s'.cache = s.cache ∧ s'.files = s.files ∧ s'.installs = s.installs := by
  obtain rfl := ticked
  exact ⟨rfl, rfl, rfl⟩

theorem leavesCache_of_not_stored
    (unstored : ∀ d, delivery answer = .response d →
      (∀ line ∈ d.lines, SafeLine d.code line) → ¬ Caches d) : LeavesCache answer := by
  intro env request requestUri host port uri s s' answers final
  rcases Proc.wp_state (exchange_wp request requestUri host port uri rfl (answers _)) final with
    ⟨round, done⟩ | ⟨f, threw⟩
  · cases done with
    | failed failed same =>
        obtain rfl := same
        exact ⟨rfl, rfl, rfl⟩
    | plain arrived safe notCached ticked round => exact ticked_leaves ticked
    | cached arrived safe caches => exact absurd caches (unstored _ arrived safe)
  · cases threw with
    | indeterminate failed same =>
        obtain rfl := same
        exact ⟨rfl, rfl, rfl⟩
    | header arrived fault bad ticked =>
        obtain ⟨k, ticked⟩ := ticked
        exact ticked_leaves ticked
    | directory arrived safe caches => exact absurd caches (unstored _ arrived safe)

-- a disk on which every path is a directory
def fullDisk : FileTree Bytes Bytes := fun _ => some .dir

theorem makeDirectories_fullDisk (env : Environment) (directories : List Bytes) :
    makeDirectories env directories fullDisk = some fullDisk := by
  have found (path : List (Component Bytes)) : fullDisk.exists path = true := by
    have walks (cur : List Bytes) : ∃ loc, FileTree.walk fullDisk cur path = some loc := by
      induction path generalizing cur with
      | nil => exact ⟨cur, rfl⟩
      | cons c path ih => exact ih _
    obtain ⟨loc, walk⟩ := walks []
    simp [FileTree.exists, FileTree.resolve, walk, fullDisk]
  induction directories with
  | nil => rfl
  | cons directory directories ih => rw [makeDirectories, if_pos (found _), ih]

theorem not_leavesCache (arrived : delivery answer = .response d)
    (safe : ∀ line ∈ d.lines, SafeLine d.code line) (caches : Caches d) : ¬ LeavesCache answer := by
  intro leaves
  let env : Environment := { scripted [] with upstream := fun _ _ => answer }
  have stores : Proc.wp (exchange env {} [] [] [] []) (fun _ s' => s'.installs ≠ [])
      (fun _ _ => False) { files := fullDisk } := by
    apply Proc.wp_mono (exchange_wp {} [] [] [] [] rfl rfl)
    · intro round s' done
      obtain ⟨-, -, ⟨notCached, -⟩ | ⟨-, k, mid, sign, -, -, stored⟩⟩ := roundDone_delivered arrived done
      · exact absurd caches notCached
      · rw [stored.installs]
        simp
    · intro f s' threw
      rcases roundThrew_delivered arrived threw with ⟨-, ⟨line, mem, bad⟩, -⟩ | ⟨-, -, -, blocked, -⟩
      · exact bad (safe line mem)
      · rw [makeDirectories_fullDisk] at blocked
        cases blocked
  obtain ⟨round, s', ran, installed⟩ := Proc.Halts.done (exchange_halts _ _ _ _ _) stores
  have unchanged := leaves env {} [] [] [] [] { files := fullDisk } s' (fun _ => rfl) (by rw [ran]; rfl)
  exact installed unchanged.2.2

end LeavesCache

section Messages
variable {m : UpstreamResponse} {chunks : List Bytes} {eof : Bool}

/-- A message is stored exactly when its lines can be taken apart and one of them grants an age. -/
theorem leavesCache_iff (wf : m.WellFormed) (nonempty : m.lines ≠ [])
    (text : chunks.flatten = m.toBytes) :
    LeavesCache (.stream chunks eof) ↔ ¬ (eof = true ∧ GrantsAge m) := by
  rw [toBytes_eq_block] at text
  obtain ⟨d, arrived, -, code, complete, lines, -⟩ :=
    delivery_text wf.status text (blank_of_lines nonempty) eof
  by_cases redirect : m.status.code = 302
  · -- the age of a redirect is not read
    have noGrant {line : Bytes} {life : Int} : ¬ Grants m.status.code line life := by
      intro grants
      have cacheable := cacheable_of_grants grants
      rw [redirect] at cacheable
      exact absurd cacheable (by decide)
    constructor
    · rintro - ⟨-, -, line, -, life, -, grants⟩
      exact noGrant grants
    · intro _
      apply leavesCache_of_not_stored
      rintro d' arrived' - ⟨-, line, -, life, -, grants⟩
      obtain rfl := delivered_unique arrived arrived'
      rw [code] at grants
      exact noGrant grants
  · rw [(headLines_message wf redirect).1] at lines
    have caches : Caches d ↔ eof = true ∧
        ∃ line ∈ m.rawLines, ∃ life, 0 < life ∧ Grants m.status.code line life := by
      rw [Caches, complete, lines, code]
    constructor
    · intro leaves ended
      obtain ⟨whole, safe, grants⟩ := ended
      apply not_leavesCache arrived _ (caches.mpr ⟨whole, grants⟩) leaves
      rwa [lines, code]
    · intro unstored
      apply leavesCache_of_not_stored
      intro d' arrived' safe caches'
      obtain rfl := delivered_unique arrived arrived'
      rw [lines, code] at safe
      obtain ⟨whole, grants⟩ := caches.mp caches'
      exact unstored ⟨whole, safe, grants⟩

theorem forbidden_left_iff (wf : m.WellFormed) (text : chunks.flatten = m.toBytes) :
    (Forbids m → LeavesCache (.stream chunks eof)) ↔
      (Forbids m → ¬ (eof = true ∧ GrantsAge m)) := by
  refine imp_congr_right fun forbids => leavesCache_iff wf ?_ text
  obtain ⟨line, mem, -⟩ := forbids
  exact List.ne_nil_of_mem mem

end Messages

/-! ## A response that forbids caching twice over, and one that does it after granting an age -/

theorem forbidden_left_no_store : LeavesCache
    (.stream [bytes "HTTP/1.1 200 OK\r\nCache-Control: no-store, max-age=60\r\n\r\n"] true) := by
  have wf : (UpstreamResponse.mk okStatus [bytes "Cache-Control: no-store, max-age=60"] []).WellFormed :=
    ⟨wellFormed_okStatus, by decide, by decide +kernel⟩
  refine (forbidden_left_iff wf (by decide)).mpr ?_ ⟨_, List.mem_singleton_self _, by decide, by decide⟩
  rintro - ⟨-, -, line, mem, life, -, value, age, -⟩
  obtain rfl := List.mem_singleton.mp mem
  have none_read : ageValue 200 (bytes "Cache-Control: no-store, max-age=60") = none := by
    decide
  cases none_read.symm.trans age

def grantThenForbid : UpstreamResponse where
  status := okStatus
  lines := [bytes "Cache-Control: max-age=60", bytes "Cache-Control: no-store"]
  body := []

theorem wellFormed_grantThenForbid : grantThenForbid.WellFormed where
  status := wellFormed_okStatus
  lines_ne_nil := by decide
  lines_bytes := by decide +kernel

theorem grantsAge_grantThenForbid : GrantsAge grantThenForbid := by
  have age : ageValue 200 (bytes "Cache-Control: max-age=60") = some (bytes "max-age=60") := by
    decide
  have life : cacheLife (bytes "max-age=60") = .ok 60 := by decide
  have noAge : ageValue 200 (bytes "Cache-Control: no-store") = none := by decide
  constructor
  · intro line mem
    rcases List.mem_pair.mp mem with rfl | rfl
    · refine ⟨by simp, by decide, fun value found => ⟨60, ?_⟩⟩
      rw [List.dropLast_concat] at found
      obtain rfl := Option.some.inj (age.symm.trans found)
      exact life
    · refine ⟨by simp, by decide, fun value found => ?_⟩
      rw [List.dropLast_concat] at found
      cases noAge.symm.trans found
  · refine ⟨_, List.mem_cons_self, 60, by decide, bytes "max-age=60", ?_, life⟩
    rw [List.dropLast_concat]
    exact age

theorem granted_before_forbidden : ¬ ∀ (m : UpstreamResponse) (chunks : List Bytes) (eof : Bool),
    m.WellFormed → chunks.flatten = m.toBytes → Forbids m → LeavesCache (.stream chunks eof) := by
  intro claim
  have text : [grantThenForbid.toBytes].flatten = grantThenForbid.toBytes := by simp
  have leaves := claim grantThenForbid _ true wellFormed_grantThenForbid text
    ⟨bytes "Cache-Control: no-store", by decide, by decide, by decide⟩
  exact (leavesCache_iff wellFormed_grantThenForbid (by decide) text).mp leaves
    ⟨rfl, grantsAge_grantThenForbid⟩

end TscServer.Proof
