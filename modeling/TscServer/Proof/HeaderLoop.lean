import TscServer.Spec.Upstream

/-!
# The header loop

What `headerLoop` gathers from a block of lines that ends with a blank one: `headerLoop_safe` when
every line can be taken apart, `headerLoop_unsafe` when one cannot.
-/

namespace TscServer.Proof
open Lib Model Spec ProxyHandler

section HeaderLoop
variable {env : Environment} {code : Nat} {s : ProxyState}

theorem localTime_bind {α : Type} (f : Int → ProxyProc α) :
    (localTime env >>= f).run s =
      (f (env.clock s.readings)).run { s with readings := s.readings + 1 } := rfl

-- only the clock was read
def Ticked (k : Nat) (s s' : ProxyState) : Prop := s' = { s with readings := s.readings + k }

theorem Ticked.files {k : Nat} {s s' : ProxyState} (ticked : Ticked k s s') : s'.files = s.files := by
  rw [ticked]

theorem Ticked.trans {k l : Nat} {s s' s'' : ProxyState} (first : Ticked k s s')
    (second : Ticked l s' s'') : Ticked (k + l) s s'' := by
  obtain rfl := first
  obtain rfl := second
  rw [Ticked, Nat.add_assoc]

theorem readMaxAge_ok {value : Bytes} {life : Int} (parses : cacheLife value = .ok life) :
    (readMaxAge env value).run s =
      .done (life, env.clock s.readings + life) { s with readings := s.readings + 1 } := by
  simp only [cacheLife, ageText] at parses
  split at parses
  · cases parses
  · rename_i text cut
    split at parses
    · cases parses
    · rename_i number
      cases parses
      simp only [readMaxAge, cut, Proc.ofOption_some, Proc.pure_bind, localTime_bind, number]
      rfl

variable (env) in
theorem readMaxAge_error {value : Bytes} {f : Fault} (fails : cacheLife value = .error f) :
    HeaderFault f ∧ ∃ k s', Ticked k s s' ∧ (readMaxAge env value).run s = .threw f s' := by
  simp only [cacheLife, ageText] at fails
  split at fails
  · rename_i cut
    cases fails
    simp only [readMaxAge, cut, Proc.ofOption_none]
    exact ⟨.inl rfl, 0, s, rfl, rfl⟩
  · rename_i text cut
    split at fails
    · rename_i e number
      cases fails
      simp only [readMaxAge, cut, Proc.ofOption_some, Proc.pure_bind, localTime_bind, number]
      refine ⟨?_, 1, _, rfl, rfl⟩
      cases e with
      | invalidArgument => exact .inr (.inl rfl)
      | outOfRange => exact .inl rfl
    · cases fails

theorem ageValue_eq_some_iff {header value : Bytes} (present : headerValue header = some value) :
    ageValue code header = some value ↔
      (cacheable code && headerName header == bytes "Cache-Control" && !forbidsCaching value) = true ∧
        contains (bytes "max-age") value = true := by
  rw [ageValue, present, Option.filter_some]
  split
  · rename_i age
    simpa using age
  · rename_i noAge
    simpa using noAge

theorem readHeader_age {header value : Bytes} {head : Head}
    (present : headerValue header = some value) (age : ageValue code header = some value) :
    readHeader env code (headerName header) value head = (do
      let (life, expiration) ← readMaxAge env value
      return if 0 < life then { head with makeCache := true, expire := .at expiration } else head) := by
  obtain ⟨control, maxAge⟩ := (ageValue_eq_some_iff present).mp age
  rw [readHeader, if_pos control, if_pos maxAge]

theorem tagValue_eq_none {header : Bytes} (control : headerName header = bytes "Cache-Control") :
    tagValue code header = none := by
  have other : (bytes "Cache-Control" == bytes "ETag") = false := by decide
  simp [tagValue, control, other]

variable (env) in
theorem readHeader_noAge {header value : Bytes} (present : headerValue header = some value)
    (noAge : ageValue code header = none) (head : Head) :
    readHeader env code (headerName header) value head =
      pure { head with eTag := (tagValue code header).getD head.eTag } := by
  rw [readHeader]
  split
  · rename_i control
    have named : headerName header = bytes "Cache-Control" := by
      simp only [Bool.and_eq_true, beq_iff_eq] at control
      exact control.1.2
    split
    · rename_i maxAge
      rw [(ageValue_eq_some_iff present).mpr ⟨control, maxAge⟩] at noAge
      cases noAge
    · rw [tagValue_eq_none named, Option.getD_none]
  · split
    · rename_i tagged
      rw [tagValue, present, Option.filter_some, if_pos tagged, Option.getD_some]
    · rename_i untagged
      rw [tagValue, present, Option.filter_some, if_neg untagged, Option.getD_none]

/-- What the loop has made of the lines when it returns, `k` readings of the clock later. -/
structure Gathered (env : Environment) (code : Nat) (entries : List (Bytes × Option Bytes))
    (head head' : Head) (first k : Nat) : Prop where
  safe : ∀ line ∈ linesRead code entries, SafeLine code line
  raw : head'.raw = head.raw ++ (linesRead code entries).flatMap fun line => line.dropLast ++ [10]
  rest : code ≠ 302 → head'.rest = restAfter entries head.rest
  location : head'.location = (locationRead code entries).or head.location
  eTag : head'.eTag =
    ((linesRead code entries).filterMap fun line => tagValue code line.dropLast).getLast?.getD head.eTag
  grants : head'.makeCache = true ↔ head.makeCache = true ∨
    ∃ line ∈ linesRead code entries, ∃ life, 0 < life ∧ Grants code line life
  granted : head'.makeCache = true → (head.makeCache = true ∧ head'.expire = head.expire) ∨
    ∃ line ∈ linesRead code entries, ∃ life, 0 < life ∧ Grants code line life ∧
      ∃ j, first ≤ j ∧ j < first + k ∧ head'.expire = .at (env.clock j + life)

structure Took (env : Environment) (code : Nat) (line : Bytes) (head head' : Head)
    (first k : Nat) : Prop where
  safe : SafeLine code line
  raw : head'.raw = head.raw
  rest : head'.rest = head.rest
  location : head'.location = head.location
  eTag : head'.eTag = (tagValue code line.dropLast).getD head.eTag
  grants : head'.makeCache = true ↔ head.makeCache = true ∨ ∃ life, 0 < life ∧ Grants code line life
  granted : head'.makeCache = true → (head.makeCache = true ∧ head'.expire = head.expire) ∨
    ∃ life, 0 < life ∧ Grants code line life ∧
      ∃ j, first ≤ j ∧ j < first + k ∧ head'.expire = .at (env.clock j + life)

theorem readHeader_wp {line value : Bytes} (nonempty : line ≠ [])
    (present : headerValue line.dropLast = some value) (head : Head) :
    Proc.wp (readHeader env code (headerName line.dropLast) value head)
      (fun head' s' => ∃ k, Ticked k s s' ∧ Took env code line head head' s.readings k)
      (fun f s' => HeaderFault f ∧ (∃ k, Ticked k s s') ∧ ¬ SafeLine code line) s := by
  cases age : ageValue code line.dropLast with
  | none =>
      have noGrant life : ¬ Grants code line life := by
        rintro ⟨value, mem, -⟩
        rw [age] at mem
        cases mem
      rw [readHeader_noAge env present age head, Proc.wp_pure]
      refine ⟨0, rfl, ⟨nonempty, by simp [present], by simp [age]⟩, rfl, rfl, rfl, rfl,
        by simp [noGrant], ?_⟩
      exact fun made => .inl ⟨made, rfl⟩
  | some value' =>
      obtain rfl : value' = value := by
        obtain ⟨found, -⟩ := Option.filter_eq_some_iff.mp age
        exact Option.some.inj (found.symm.trans present)
      rw [readHeader_age present age, Proc.wp_bind]
      cases parses : cacheLife value' with
      | error f =>
          obtain ⟨fault, k, s', ticked, threw⟩ := readMaxAge_error env (s := s) parses
          refine Proc.wp_of_threw threw ⟨fault, ⟨k, ticked⟩, ?_⟩
          rintro ⟨-, -, ages⟩
          obtain ⟨life, parses'⟩ := ages value' age
          rw [parses] at parses'
          cases parses'
      | ok life =>
          have grants life' : Grants code line life' ↔ life' = life := by
            simp [Grants, age, parses, eq_comm]
          have safe : SafeLine code line := by
            refine ⟨nonempty, by simp [present], fun value mem => ?_⟩
            obtain rfl := Option.some.inj (age.symm.trans mem)
            exact ⟨life, parses⟩
          have untagged : tagValue code line.dropLast = none := by
            obtain ⟨control, -⟩ := (ageValue_eq_some_iff present).mp age
            simp only [Bool.and_eq_true, beq_iff_eq] at control
            exact tagValue_eq_none control.1.2
          refine Proc.wp_of_done (readMaxAge_ok parses) ⟨1, rfl, ?_⟩
          by_cases positive : 0 < life
          · simp only [positive, if_true]
            refine ⟨safe, rfl, rfl, rfl, by rw [untagged]; rfl, by simp [grants, positive],
              fun _ => .inr ?_⟩
            exact ⟨life, positive, (grants life).mpr rfl, s.readings, le_rfl, by omega, rfl⟩
          · simp only [positive, if_false]
            exact ⟨safe, rfl, rfl, rfl, by rw [untagged]; rfl, by simp [grants, positive],
              fun made => .inl ⟨made, rfl⟩⟩

-- the last value counts
theorem getLast?_filterMap_cons {α β : Type} (f : α → Option β) (x : α) (xs : List α) (before : β) :
    ((x :: xs).filterMap f).getLast?.getD before = (xs.filterMap f).getLast?.getD ((f x).getD before) := by
  rw [List.filterMap_cons]
  cases f x with
  | none => rfl
  | some value => rw [List.getLast?_cons, Option.getD_some, Option.getD_some]

section Lines
variable {line : Bytes} {after : Option Bytes} {entries : List (Bytes × Option Bytes)}
  {head head' next : Head} {first k l : Nat}

theorem linesRead_blank : linesRead code (([13], after) :: entries) = [] := by
  simp [linesRead]

theorem linesRead_last (solid : line ≠ [13])
    (stops : code = 302 ∧ headerName line.dropLast = bytes "Location") :
    linesRead code ((line, after) :: entries) = [line] := by
  rw [linesRead, if_neg solid, if_pos stops]

theorem linesRead_cons (solid : line ≠ [13])
    (goes_on : ¬ (code = 302 ∧ headerName line.dropLast = bytes "Location")) :
    linesRead code ((line, after) :: entries) = line :: linesRead code entries := by
  rw [linesRead, if_neg solid, if_neg goes_on]

theorem mem_linesRead (solid : line ≠ [13]) :
    line ∈ linesRead code ((line, after) :: entries) := by
  by_cases stops : code = 302 ∧ headerName line.dropLast = bytes "Location"
  · simp [linesRead_last solid stops]
  · simp [linesRead_cons solid stops]

theorem Took.last (took : Took env code line { head with rest := after.getD [] } next first k)
    (solid : line ≠ [13]) (stops : code = 302 ∧ headerName line.dropLast = bytes "Location")
    (raw : head'.raw = next.raw ++ line.dropLast ++ [10])
    (location : head'.location = headerValue line.dropLast)
    (makeCache : head'.makeCache = next.makeCache) (expire : head'.expire = next.expire)
    (eTag : head'.eTag = next.eTag) :
    Gathered env code ((line, after) :: entries) head head' first k where
  safe := by simpa [linesRead_last solid stops] using took.safe
  raw := by simp [linesRead_last solid stops, raw, took.raw]
  rest := fun other => absurd stops.1 other
  location := by
    obtain ⟨value, present⟩ := Option.isSome_iff_exists.mp took.safe.2.1
    simp [location, locationRead, solid, stops.1, stops.2, present]
  eTag := by
    rw [eTag, took.eTag, linesRead_last solid stops, getLast?_filterMap_cons]
    rfl
  grants := by simpa [linesRead_last solid stops, makeCache] using took.grants
  granted := by simpa [linesRead_last solid stops, makeCache, expire] using took.granted

theorem Took.cons (took : Took env code line { head with rest := after.getD [] } next first k)
    (solid : line ≠ [13])
    (goes_on : ¬ (code = 302 ∧ headerName line.dropLast = bytes "Location"))
    (gathered : Gathered env code entries { next with raw := next.raw ++ line.dropLast ++ [10] }
      head' (first + k) l) :
    Gathered env code ((line, after) :: entries) head head' first (k + l) where
  safe := by
    simpa [linesRead_cons solid goes_on] using ⟨took.safe, gathered.safe⟩
  raw := by
    rw [gathered.raw, linesRead_cons solid goes_on]
    simp [took.raw]
  rest := by
    intro other
    rw [gathered.rest other, restAfter, if_neg solid]
    simp [took.rest]
  location := by
    rw [gathered.location, locationRead, if_neg solid, if_neg goes_on]
    simp [took.location]
  eTag := by
    rw [gathered.eTag, linesRead_cons solid goes_on, getLast?_filterMap_cons, ← took.eTag]
  grants := by
    rw [gathered.grants, linesRead_cons solid goes_on]
    simp only [took.grants, List.mem_cons, exists_eq_or_imp, or_assoc]
  granted := by
    intro made
    rw [linesRead_cons solid goes_on]
    rcases gathered.granted made with ⟨before, same⟩ | ⟨other, mem, life, positive, grant, j, low, high, expire⟩
    · rcases took.granted before with ⟨earlier, unchanged⟩ | ⟨life, positive, grant, j, low, high, expire⟩
      · exact .inl ⟨earlier, same.trans unchanged⟩
      · exact .inr ⟨line, by simp, life, positive, grant, j, low, by omega, same.trans expire⟩
    · exact .inr ⟨other, by simp [mem], life, positive, grant, j, by omega, by omega, expire⟩

end Lines

theorem headerLoop_wp {entries : List (Bytes × Option Bytes)} (head : Head) :
    Proc.wp (headerLoop env code entries head)
      (fun head' s' => ∃ k, Ticked k s s' ∧ Gathered env code entries head head' s.readings k)
      (fun f s' => HeaderFault f ∧ (∃ k, Ticked k s s') ∧
        ∃ line ∈ linesRead code entries, ¬ SafeLine code line) s := by
  induction entries generalizing head s with
  | nil =>
      refine ⟨0, rfl, ?_⟩
      constructor <;> simp [linesRead, restAfter, locationRead]
  | cons entry entries ih =>
      obtain ⟨line, after⟩ := entry
      by_cases blank : line = [13]
      · subst blank
        refine ⟨0, rfl, ?_⟩
        constructor <;> simp [linesRead_blank, restAfter, locationRead]
      · have unsafe_here (bad : ¬ SafeLine code line) :
            ∃ line' ∈ linesRead code ((line, after) :: entries), ¬ SafeLine code line' :=
          ⟨line, mem_linesRead blank, bad⟩
        rw [headerLoop]
        simp only [if_neg blank]
        by_cases nonempty : line = []
        · simp only [nonempty, if_true, Proc.wp_throw]
          refine ⟨.inr (.inr rfl), ⟨0, rfl⟩, ?_⟩
          rw [← nonempty]
          exact unsafe_here fun safe => safe.1 nonempty
        · simp only [nonempty, if_false, Proc.wp_bind, Proc.wp_ofOption]
          cases present : headerValue line.dropLast with
          | none =>
              refine ⟨.inl rfl, ⟨0, rfl⟩, unsafe_here fun safe => ?_⟩
              simpa [present] using safe.2.1
          | some value =>
              apply Proc.wp_mono (readHeader_wp nonempty present _)
              · intro next s' ended
                obtain ⟨k, ticked, took⟩ := ended
                split
                · rename_i stops
                  exact ⟨k, ticked, took.last blank stops rfl present.symm rfl rfl rfl⟩
                · rename_i goes_on
                  apply Proc.wp_mono (ih _)
                  · intro head' s'' ended
                    obtain ⟨l, ticked', gathered⟩ := ended
                    refine ⟨k + l, ticked.trans ticked', took.cons blank goes_on ?_⟩
                    rwa [show s'.readings = s.readings + k by rw [ticked]] at gathered
                  · intro f s'' ended
                    obtain ⟨fault, ⟨l, ticked'⟩, line', mem, bad⟩ := ended
                    refine ⟨fault, ⟨k + l, ticked.trans ticked'⟩, line', ?_, bad⟩
                    rw [linesRead_cons blank goes_on]
                    exact List.mem_cons_of_mem line mem
              · intro f s' ended
                obtain ⟨fault, ticked, bad⟩ := ended
                exact ⟨fault, ticked, unsafe_here bad⟩

theorem readMaxAge_halts (value : Bytes) : (readMaxAge env value).Halts := by
  refine (Proc.halts_ofOption _ _).bind fun cacheLife => ?_
  refine (Proc.halts_get.bind fun s => (Proc.halts_modify _).bind fun _ => Proc.halts_pure _).bind
    fun now => ?_
  cases stoi cacheLife with
  | error e => exact Proc.halts_throw _
  | ok life => exact Proc.halts_pure _

theorem headerLoop_halts (entries : List (Bytes × Option Bytes)) (head : Head) :
    (headerLoop env code entries head).Halts := by
  induction entries generalizing head with
  | nil => exact Proc.halts_pure _
  | cons entry entries ih =>
      refine Proc.Halts.ite (Proc.halts_pure _) (Proc.Halts.ite (Proc.halts_throw _) ?_)
      refine (Proc.halts_ofOption _ _).bind fun value => ?_
      refine Proc.Halts.bind ?_ fun next => Proc.Halts.ite (Proc.halts_pure _) (ih _)
      refine Proc.Halts.ite (Proc.Halts.ite ?_ (Proc.halts_pure _))
        (Proc.Halts.ite (Proc.halts_pure _) (Proc.halts_pure _))
      exact (readMaxAge_halts value).bind fun _ => Proc.halts_pure _

end HeaderLoop
end TscServer.Proof
