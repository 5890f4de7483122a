import TscServer.Proof.Exchange
import TscServer.Spec.CacheHit

/-!
# The header loop of `UpdateCache`

What `rearmLoop` reads from the lines of a 304 response: `rearmLoop_wp` for the expiration that it
returns, and for the lines that make it throw.
-/

namespace TscServer.Proof
open Lib Model Spec ProxyHandler

section Rearm
variable {env : Environment} {s : ProxyState}

/-- The expiration is an age that one of the lines gives, from a reading of the clock on. -/
def Rearmed (env : Environment) (headers : List Bytes) (first last : Nat) (expire : Ptime) : Prop :=
  ∃ header ∈ headers, contains (bytes "Cache-Control") header = true ∧
    contains (bytes "max-age") header = true ∧
    ∃ life, 0 < life ∧ cacheLife header = .ok life ∧
      ∃ j, first ≤ j ∧ j < last ∧ expire = .at (env.clock j + life)

-- `find(": ") + 2` is within a line that is not empty
theorem etag_isSome {header : Bytes} (nonempty : header ≠ []) :
    (substrFrom header (offset (find (bytes ": ") header) 2)).isSome := by
  rw [substrFrom_isSome_iff]
  cases found : find (bytes ": ") header with
  | none =>
      have := List.length_pos_iff.mpr nonempty
      rw [offset_none]
      omega
  | some i => simpa [bytes] using find_le found

theorem readTag (header : Bytes) (sign : CacheSign) :
    (if contains (bytes "Etag") header = true then do
        let eTag ← Proc.ofOption .outOfRange (substrFrom header (offset (find (bytes ": ") header) 2))
        return some { sign with eTag }
      else return some sign : ProxyProc (Option CacheSign)) =
      pure (some { sign with eTag := (renewedTag header).getD sign.eTag }) := by
  rw [renewedTag]
  split
  · rename_i tagged
    have nonempty : header ≠ [] := by
      rintro rfl
      exact absurd tagged (by decide)
    obtain ⟨eTag, cut⟩ := Option.isSome_iff_exists.mp (etag_isSome nonempty)
    rw [takenValue, cut]
    rfl
  · rfl

variable (env) in
theorem rearmHeader_noControl {header : Bytes}
    (noControl : contains (bytes "Cache-Control") header = false) (sign : CacheSign) :
    rearmHeader env header sign =
      pure (some { sign with eTag := (renewedTag header).getD sign.eTag }) := by
  simp only [rearmHeader, noControl, Bool.false_eq_true, if_false, Proc.pure_bind]
  exact readTag header sign

theorem rearmHeader_noAge {header : Bytes} (control : contains (bytes "Cache-Control") header = true)
    (noAge : contains (bytes "max-age") header = false) (sign : CacheSign) :
    rearmHeader env header sign = pure none := by
  simp only [rearmHeader, control, noAge, Bool.false_eq_true, if_false, if_true, Proc.pure_bind]

variable (env) in
theorem rearmHeader_age {header : Bytes} (control : contains (bytes "Cache-Control") header = true)
    (age : contains (bytes "max-age") header = true) {life : Int}
    (parses : cacheLife header = .ok life) (sign : CacheSign) :
    (rearmHeader env header sign).run s = .done
      (some { expiration := if 0 < life then .at (env.clock s.readings + life) else sign.expiration
              eTag := (renewedTag header).getD sign.eTag }) { s with readings := s.readings + 1 } := by
  simp only [rearmHeader, control, age, if_true]
  rw [Proc.run_bind_of_done (readMaxAge_ok parses), Proc.pure_bind]
  by_cases positive : 0 < life
  · simp only [positive, if_true]
    rw [readTag header { sign with expiration := .at (env.clock s.readings + life) }]
    rfl
  · simp only [positive, if_false]
    rw [readTag header sign]
    rfl

variable (env) in
theorem rearmHeader_threw {header : Bytes} (control : contains (bytes "Cache-Control") header = true)
    (age : contains (bytes "max-age") header = true) {f : Fault}
    (fails : cacheLife header = .error f) (sign : CacheSign) :
    HeaderFault f ∧ ∃ k s', Ticked k s s' ∧ (rearmHeader env header sign).run s = .threw f s' := by
  obtain ⟨fault, k, s', ticked, threw⟩ := readMaxAge_error env (s := s) fails
  refine ⟨fault, k, s', ticked, ?_⟩
  simp only [rearmHeader, control, age, if_true]
  rw [Proc.run_bind_of_threw threw]

theorem Rearmed.cons {headers : List Bytes} {first first' last : Nat} {expire : Ptime}
    (rearmed : Rearmed env headers first last expire) (le : first' ≤ first) (header : Bytes) :
    Rearmed env (header :: headers) first' last expire := by
  obtain ⟨other, mem, control, age, life, positive, parses, j, low, high, same⟩ := rearmed
  exact ⟨other, List.mem_cons_of_mem header mem, control, age, life, positive, parses, j,
    le.trans low, high, same⟩

-- the lines up to the blank one
def headersOf (headers : List (Bytes × Option Bytes)) : List Bytes :=
  (headers.map Prod.fst).takeWhile (· != [13])

theorem headersOf_cons {header : Bytes} (solid : header ≠ [13]) (after : Option Bytes)
    (headers : List (Bytes × Option Bytes)) :
    headersOf ((header, after) :: headers) = header :: headersOf headers := by
  rw [headersOf, List.map_cons, List.takeWhile_cons_of_pos (by simpa using solid), headersOf]

structure RearmRead (env : Environment) (headers : List (Bytes × Option Bytes)) (sign : CacheSign)
    (s : ProxyState) (result : Option CacheSign) (s' : ProxyState) : Prop where
  ticked : ∃ k, Ticked k s s'
  safe : RearmSafe (headers.map Prod.fst)
  isSome : result.isSome = true ↔ Rearms (headers.map Prod.fst)
  expiration : ∀ sign' ∈ result, sign'.expiration = sign.expiration ∨
    Rearmed env (headersOf headers) s.readings s'.readings sign'.expiration
  renewed : ∀ sign' ∈ result, (∃ header ∈ headersOf headers, ∃ life, Renews header life) →
    Rearmed env (headersOf headers) s.readings s'.readings sign'.expiration
  eTag : ∀ sign' ∈ result,
    sign'.eTag = ((headersOf headers).filterMap renewedTag).getLast?.getD sign.eTag

section Cons
variable {headers : List (Bytes × Option Bytes)} {header : Bytes} {after : Option Bytes}
  {sign sign' : CacheSign} {result : Option CacheSign} {s' : ProxyState}

theorem RearmRead.cons_noControl (read : RearmRead env headers sign s result s')
    (solid : header ≠ [13]) (noControl : contains (bytes "Cache-Control") header = false)
    (same : sign.expiration = sign'.expiration)
    (tag : sign.eTag = (renewedTag header).getD sign'.eTag) :
    RearmRead env ((header, after) :: headers) sign' s result s' where
  ticked := read.ticked
  safe := by simpa [RearmSafe, noControl] using .inr read.safe
  isSome := by
    rw [read.isSome]
    simp [Rearms, noControl, solid]
  expiration := by
    intro sign'' mem
    rw [headersOf_cons solid, ← same]
    exact (read.expiration sign'' mem).imp_right fun rearmed => rearmed.cons le_rfl header
  renewed := by
    rintro sign'' mem ⟨other, member, life, renews⟩
    rw [headersOf_cons solid] at member ⊢
    rcases List.mem_cons.mp member with rfl | member
    · exact absurd (renews.1.symm.trans noControl) (by decide)
    · exact (read.renewed sign'' mem ⟨other, member, life, renews⟩).cons le_rfl header
  eTag := by
    intro sign'' mem
    rw [headersOf_cons solid, getLast?_filterMap_cons, ← tag]
    exact read.eTag sign'' mem

theorem rearmed_first {life : Int} (renews : Renews header life)
    (read : RearmRead env headers sign { s with readings := s.readings + 1 } result s')
    (same : sign'.expiration = .at (env.clock s.readings + life)) :
    Rearmed env (header :: headersOf headers) s.readings s'.readings sign'.expiration := by
  obtain ⟨control, age, positive, parses⟩ := renews
  have earlier : s.readings < s'.readings := by
    obtain ⟨k, ticked⟩ := read.ticked
    rw [ticked]
    exact Nat.lt_of_lt_of_le (Nat.lt_succ_self _) (Nat.le_add_right _ k)
  exact ⟨header, List.mem_cons_self, control, age, life, positive, parses, s.readings, le_rfl, earlier, same⟩

theorem RearmRead.cons_age
    (read : RearmRead env headers sign { s with readings := s.readings + 1 } result s')
    (solid : header ≠ [13]) (control : contains (bytes "Cache-Control") header = true)
    (age : contains (bytes "max-age") header = true) {life : Int}
    (parses : cacheLife header = .ok life)
    (new : sign.expiration = if 0 < life then .at (env.clock s.readings + life) else sign'.expiration)
    (tag : sign.eTag = (renewedTag header).getD sign'.eTag) :
    RearmRead env ((header, after) :: headers) sign' s result s' where
  ticked := by
    obtain ⟨k, ticked⟩ := read.ticked
    exact ⟨1 + k, Ticked.trans rfl ticked⟩
  safe := by simpa [RearmSafe, control, age, parses] using .inr read.safe
  isSome := by
    rw [read.isSome]
    simp [Rearms, control, age, parses, solid]
  expiration := by
    intro sign'' mem
    rw [headersOf_cons solid]
    rcases read.expiration sign'' mem with same | rearmed
    · rw [new] at same
      by_cases positive : 0 < life
      · rw [if_pos positive] at same
        exact .inr (rearmed_first ⟨control, age, positive, parses⟩ read same)
      · rw [if_neg positive] at same
        exact .inl same
    · exact .inr (rearmed.cons (Nat.le_succ _) header)
  renewed := by
    rintro sign'' mem ⟨other, member, life', renews⟩
    rw [headersOf_cons solid] at member ⊢
    rcases read.expiration sign'' mem with same | rearmed
    · rcases List.mem_cons.mp member with rfl | member
      · obtain rfl : life' = life := Except.ok.inj (renews.2.2.2.symm.trans parses)
        rw [new, if_pos renews.2.2.1] at same
        exact rearmed_first renews read same
      · exact (read.renewed sign'' mem ⟨other, member, life', renews⟩).cons (Nat.le_succ _) header
    · exact rearmed.cons (Nat.le_succ _) header
  eTag := by
    intro sign'' mem
    rw [headersOf_cons solid, getLast?_filterMap_cons, ← tag]
    exact read.eTag sign'' mem

end Cons

theorem rearmLoop_wp {headers : List (Bytes × Option Bytes)} (sign : CacheSign) :
    (rearmLoop env headers sign).wp (fun result s' => RearmRead env headers sign s result s')
      (fun f s' => HeaderFault f ∧ (∃ k, Ticked k s s') ∧ ¬ RearmSafe (headers.map Prod.fst)) s := by
  induction headers generalizing sign s with
  | nil => exact ⟨⟨0, rfl⟩, trivial, by simp [Rearms], fun sign' mem => .inl (by cases mem; rfl),
      fun sign' mem never => by simp [headersOf] at never, fun sign' mem => by cases mem; rfl⟩
  | cons entry headers ih =>
      obtain ⟨header, after⟩ := entry
      rw [rearmLoop]
      by_cases blank : header = [13]
      · rw [if_pos blank]
        refine ⟨⟨0, rfl⟩, .inl blank, by simp [Rearms, blank], fun sign' mem => .inl (by cases mem; rfl),
          fun sign' mem never => by simp [headersOf, blank] at never, ?_⟩
        intro sign' mem
        rw [blank]
        cases mem
        rfl
      · rw [if_neg blank]
        cases control : contains (bytes "Cache-Control") header with
        | false =>
            rw [rearmHeader_noControl env control sign, Proc.pure_bind]
            apply Proc.wp_mono (ih _)
            · exact fun result s' read => read.cons_noControl blank control rfl rfl
            · intro f s' ended
              obtain ⟨fault, ticked, bad⟩ := ended
              exact ⟨fault, ticked, by simpa [RearmSafe, blank, control] using bad⟩
        | true =>
            cases age : contains (bytes "max-age") header with
            | false =>
                rw [rearmHeader_noAge control age, Proc.pure_bind]
                refine ⟨⟨0, rfl⟩, ?_, ?_, nofun, nofun, nofun⟩
                · simp [RearmSafe, control, age]
                · simp [Rearms, blank, control, age]
            | true =>
                cases parses : cacheLife header with
                | error f =>
                    obtain ⟨fault, k, s', ticked, threw⟩ :=
                      rearmHeader_threw env (s := s) control age parses sign
                    refine Proc.wp_of_threw (Proc.run_bind_of_threw threw) ⟨fault, ⟨k, ticked⟩, ?_⟩
                    simp [RearmSafe, blank, control, age, parses]
                | ok life =>
                    rw [Proc.wp, Proc.run_bind_of_done (rearmHeader_age env control age parses sign)]
                    apply Proc.wp_mono (ih _)
                    · exact fun result s' read => read.cons_age blank control age parses rfl rfl
                    · intro f s' ended
                      obtain ⟨fault, ⟨k, ticked⟩, bad⟩ := ended
                      refine ⟨fault, ⟨1 + k, Ticked.trans rfl ticked⟩, ?_⟩
                      simpa [RearmSafe, blank, control, age, parses] using bad

theorem rearmLoop_halts (headers : List (Bytes × Option Bytes)) (sign : CacheSign) :
    (rearmLoop env headers sign).Halts := by
  have tag (header : Bytes) (sign : CacheSign) : Proc.Halts
      (if contains (bytes "Etag") header = true then do
        let eTag ← Proc.ofOption .outOfRange (substrFrom header (offset (find (bytes ": ") header) 2))
        return some { sign with eTag }
      else return some sign : ProxyProc (Option CacheSign)) := by
    rw [readTag header sign]
    exact Proc.halts_pure _
  induction headers generalizing sign with
  | nil => exact Proc.halts_pure _
  | cons entry headers ih =>
      refine Proc.Halts.ite (Proc.halts_pure _) (Proc.Halts.bind ?_ fun result => ?_)
      · refine Proc.Halts.ite (Proc.Halts.ite ?_ (Proc.halts_pure _)) (tag _ _)
        exact (readMaxAge_halts _).bind fun _ => tag _ _
      · cases result with
        | none => exact Proc.halts_pure _
        | some sign => exact ih sign

/-! ## `UpdateCache` around the loop -/

theorem erase_insert {cache : AList fun _ : Bytes => CacheSign} (path : Bytes) (sign : CacheSign) :
    (cache.insert path sign).erase path = cache.erase path := by
  apply AList.ext
  change List.kerase path ((cache.insert path sign).entries) = List.kerase path cache.entries
  rw [AList.entries_insert]
  have same : path = (⟨path, sign⟩ : Sigma fun _ : Bytes => CacheSign).1 := rfl
  exact List.kerase_cons_eq same

variable (env) in
theorem updateCache_present {sign : CacheSign} {path : Bytes} (present : s.cache.lookup path = some sign)
    (handler : ProxyHandler) (inner : Inner) (uri : Bytes) :
    (updateCache env handler inner uri path).run s =
      (inner (handler.revalidation uri sign.eTag) {} >>= fun result =>
        updateEntry env path result.1 result.2).run { s with cache := s.cache.erase path } := by
  rw [updateCache]
  simp only [entry, Proc.run_bind, Proc.run_get, present]
  rfl

variable (env) in
/-- `UpdateCache` is the request without the entry, followed by what is done with the answer. -/
theorem updateCache_run (handler : ProxyHandler) (inner : Inner) (uri path : Bytes) :
    ∃ eTag, (updateCache env handler inner uri path).run s =
      (inner (handler.revalidation uri eTag) {} >>= fun result =>
        updateEntry env path result.1 result.2).run { s with cache := s.cache.erase path } := by
  rw [updateCache]
  simp only [entry, Proc.run_bind, Proc.run_get]
  cases s.cache.lookup path with
  | none =>
      simp only [Proc.run_modify_bind, Proc.run_pure, Proc.run_modify, erase_insert]
      exact ⟨[], rfl⟩
  | some sign => exact ⟨sign.eTag, rfl⟩

end Rearm
end TscServer.Proof
