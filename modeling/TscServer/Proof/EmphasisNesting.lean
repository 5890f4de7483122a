import TscServer.Proof.EmphasisSteps

/-!
# Nesting of markers

Every open marker that was matched is closed further on, and what is left after the matches that do not nest
were taken back nests.
-/

namespace TscServer.Proof
open Lib Pattern Model Markdown Spec

/-! ## Pairs -/

section Pairs
variable {o c : Marker} {id fuel next : Nat} {pending : List Marker} {token : Token} {tokens after out : List Token}

/-- The matched markers among the tokens are the close markers of the pending open ones. -/
inductive Awaits : List Marker → List Token → Prop
  | nil : Awaits [] []
  | other {pending : List Marker} {token : Token} {tokens : List Token} : Unmatched token →
      Awaits pending tokens → Awaits pending (token :: tokens)
  | close {o c : Marker} {before behind : List Marker} {tokens : List Token} : Closes o c →
      Awaits (before ++ behind) tokens → Awaits (before ++ o :: behind) (.marker c :: tokens)

/-- Every open marker is closed further on, and has an id greater than those before it. -/
inductive Paired : Nat → List Marker → List Token → Prop
  | nil {next : Nat} : Paired next [] []
  | other {next : Nat} {pending : List Marker} {token : Token} {tokens : List Token} : Unmatched token →
      Paired next pending tokens → Paired next pending (token :: tokens)
  | opens {next k : Nat} {pending : List Marker} {o : Marker} {tokens : List Token} : o.isOpen = true →
      o.matchId = some k → next ≤ k → Paired (k + 1) (o :: pending) tokens →
      Paired next pending (.marker o :: tokens)
  | close {next : Nat} {o c : Marker} {before behind : List Marker} {tokens : List Token} : Closes o c →
      Paired next (before ++ behind) tokens → Paired next (before ++ o :: behind) (.marker c :: tokens)

theorem unmatched_of_alive (alive : c.isUnmatchedCloseMarker = true) : Unmatched (.marker c) := by
  simp only [Marker.isUnmatchedCloseMarker, Bool.and_eq_true, Option.isNone_iff_eq_none] at alive
  exact alive.1.2

theorem unmatched_of_startable (startable : o.isUnmatchedOpenMarker = true) : Unmatched (.marker o) := by
  simp only [Marker.isUnmatchedOpenMarker, Bool.and_eq_true, Option.isNone_iff_eq_none] at startable
  exact startable.1.2

theorem awaits_tail (unmatched : Unmatched token) (awaits : Awaits pending (token :: tokens)) :
    Awaits pending tokens := by
  cases awaits with
  | other _ rest => exact rest
  | close closes _ =>
      have matched := closes.matched
      rw [closes.sameMatch, show _ = none from unmatched] at matched
      cases matched

/-- What the open marker comes to leaves the markers that were matched before as they were. -/
def KeepsPending (o : Marker) (id : Nat) (pending : List Marker) : Pairing → Prop
  | .unmatched after => Awaits pending after
  | .matched after => Awaits ({ o with matchId := some id } :: pending) after
  | .split first second after => Unmatched (.marker first) ∧ Unmatched (.marker second) ∧ Awaits pending after

theorem keepsPending_other {r : Pairing} (unmatched : Unmatched token) (keeps : KeepsPending o id pending r) :
    KeepsPending o id pending (r.map (token :: ·)) := by
  cases r with
  | unmatched after => exact .other unmatched keeps
  | matched after => exact .other unmatched keeps
  | split first second after => exact ⟨keeps.1, keeps.2.1, .other unmatched keeps.2.2⟩

theorem keepsPending_close {r : Pairing} {before behind : List Marker} {o' : Marker} (closes : Closes o' c)
    (keeps : KeepsPending o id (before ++ behind) r) :
    KeepsPending o id (before ++ o' :: behind) (r.map (.marker c :: ·)) := by
  cases r with
  | unmatched after => exact .close closes keeps
  | matched after => exact @Awaits.close _ _ ({ o with matchId := some id } :: before) _ _ closes keeps
  | split first second after => exact ⟨keeps.1, keeps.2.1, .close closes keeps.2.2⟩

theorem keepsPending_of_tryCloseMarkers {r : Pairing} (opens : o.isOpen = true)
    (run : tryCloseMarkers o id fuel after = some r) (awaits : Awaits pending after) :
    KeepsPending o id pending r := by
  revert pending
  refine tryCloseMarkers_induction (P := fun after r => ∀ {pending}, Awaits pending after → KeepsPending o id pending r)
    ?_ ?_ ?_ ?_ ?_ ?_ run
  · intro pending awaits
    exact awaits
  · intro token after r _ ih pending awaits
    cases awaits with
    | other unmatched rest => exact keepsPending_other unmatched (ih rest)
    | close closes rest => exact keepsPending_close closes (ih rest)
  · intro c after r alive _ _ ih pending awaits
    have unmatched := unmatched_of_alive alive
    have disabled : Unmatched (.marker c.disable) := unmatched
    exact keepsPending_other disabled (ih (.other rfl (.other rfl (awaits_tail unmatched awaits))))
  · intro c after alive char size pending awaits
    have rest := awaits_tail (unmatched_of_alive alive) awaits
    simp only [Marker.isUnmatchedCloseMarker, Bool.and_eq_true, Bool.not_eq_true'] at alive
    exact @Awaits.close _ _ [] _ _ ⟨opens, alive.1.1, rfl, rfl, size.symm, char.symm⟩ rest
  · intro c after alive _ _ pending awaits
    exact ⟨rfl, rfl, awaits⟩
  · intro c after r alive ih pending awaits
    exact keepsPending_other (unmatched_of_alive alive) (ih (awaits_tail (unmatched_of_alive alive) awaits))

theorem paired_of_matchMarkers (run : matchMarkers fuel id tokens = some out) (awaits : Awaits pending tokens) :
    Paired id pending out := by
  revert pending
  refine matchMarkers_induction (P := fun id tokens out => ∀ {pending}, Awaits pending tokens →
    Paired id pending out) ?_ ?_ ?_ ?_ ?_ run
  · intro id pending awaits
    cases awaits
    exact .nil
  · intro id token after out _ ih pending awaits
    cases awaits with
    | other unmatched rest => exact .other unmatched (ih rest)
    | close closes rest => exact .close closes (ih rest)
  · intro id fuel o after after' out startable tried ih pending awaits
    have unmatched := unmatched_of_startable startable
    simp only [Marker.isUnmatchedOpenMarker, Bool.and_eq_true] at startable
    exact .other unmatched (ih (keepsPending_of_tryCloseMarkers startable.1.1 tried (awaits_tail unmatched awaits)))
  · intro id fuel o after after' out startable tried ih pending awaits
    have unmatched := unmatched_of_startable startable
    simp only [Marker.isUnmatchedOpenMarker, Bool.and_eq_true] at startable
    exact .opens startable.1.1 rfl (Nat.le_refl id)
      (ih (keepsPending_of_tryCloseMarkers startable.1.1 tried (awaits_tail unmatched awaits)))
  · intro id fuel o first second after after' out startable tried ih pending awaits
    have unmatched := unmatched_of_startable startable
    simp only [Marker.isUnmatchedOpenMarker, Bool.and_eq_true] at startable
    obtain ⟨one, two, rest⟩ := keepsPending_of_tryCloseMarkers startable.1.1 tried (awaits_tail unmatched awaits)
    have disabled : Unmatched (.marker o.disable) := unmatched
    exact .other disabled (ih (.other one (.other two rest)))

end Pairs

/-! ## Matches taken back -/

section Unmatching
variable {o c : Marker} {id next : Nat} {pending before behind : List Marker} {token : Token}
  {done after : List Token} {openMatches below : List (Option Nat)}

/-- The matched markers so far: those of `pending`, the innermost first, wait for their close markers, and
their ids are on the stack. -/
structure Unwinding (next : Nat) (pending : List Marker) (done : List Token)
    (openMatches : List (Option Nat)) : Prop where
  nested : OpenPairs Unmatched PairOfMarkers done (pending.map .marker)
  stack : openMatches.filter Option.isSome = pending.map Marker.matchId
  top : openMatches.head? ≠ some none
  fresh : ∀ o ∈ pending, ∀ k, o.matchId = some k → k < next
  distinct : (pending.map Marker.matchId).Nodup
  closed : ∀ c, Token.marker c ∈ done → c.isOpen = false → ∀ k, c.matchId = some k →
    k < next ∧ some k ∉ pending.map Marker.matchId

theorem unwinding_start : Unwinding next [] [] [] where
  nested := .none .nil
  stack := rfl
  top := by simp
  fresh := by simp
  distinct := List.nodup_nil
  closed := by simp

theorem Unwinding.other (unmatched : Unmatched token) (state : Unwinding next pending done openMatches) :
    Unwinding next pending (done ++ [token]) openMatches where
  nested := state.nested.snoc unmatched
  stack := state.stack
  top := state.top
  fresh := state.fresh
  distinct := state.distinct
  closed := by
    intro c mem closes k matched
    rcases List.mem_append.mp mem with mem | mem
    · exact state.closed c mem closes k matched
    · obtain rfl := List.mem_singleton.mp mem
      rw [show c.matchId = none from unmatched] at matched
      cases matched

theorem Unwinding.opens {k : Nat} (opens : o.isOpen = true) (matched : o.matchId = some k) (le : next ≤ k)
    (state : Unwinding next pending done openMatches) :
    Unwinding (k + 1) (o :: pending) (done ++ [.marker o]) (some k :: openMatches) where
  nested := state.nested.open
  stack := by rw [List.filter_cons_of_pos rfl, state.stack, List.map_cons, matched]
  top := by simp
  fresh := by
    intro o' mem k' matched'
    rcases List.mem_cons.mp mem with rfl | mem
    · rw [matched] at matched'
      cases matched'
      omega
    · have := state.fresh o' mem k' matched'
      omega
  distinct := by
    rw [List.map_cons, List.nodup_cons]
    refine ⟨fun mem => ?_, state.distinct⟩
    obtain ⟨o', mem', same⟩ := List.mem_map.mp mem
    have := state.fresh o' mem' k (by rw [same, matched])
    omega
  closed := by
    intro c mem closes k' matched'
    rcases List.mem_append.mp mem with mem | mem
    · obtain ⟨lt, other⟩ := state.closed c mem closes k' matched'
      rw [List.map_cons, List.mem_cons, not_or, matched]
      exact ⟨by omega, fun same => by cases same; omega, other⟩
    · cases List.mem_singleton.mp mem
      rw [opens] at closes
      cases closes

theorem Unwinding.matches (closes : Closes o c) (state : Unwinding next (o :: pending) done (o.matchId :: below)) :
    Unwinding next pending (done ++ [.marker c]) (below.dropWhile Option.isNone) where
  nested := state.nested.close ⟨o, c, rfl, rfl, closes⟩
  stack := by
    have stack := state.stack
    rw [List.filter_cons_of_pos closes.matched, List.map_cons, List.cons.injEq] at stack
    rw [← stack.2]
    clear stack state
    induction below with
    | nil => rfl
    | cons x below ih => cases x <;> simp_all
  top := by
    have first := List.head?_dropWhile_not Option.isNone below
    intro head
    rw [head] at first
    simp at first
  fresh := fun o' mem => state.fresh o' (List.mem_cons_of_mem o mem)
  distinct := (List.nodup_cons.mp state.distinct).2
  closed := by
    intro c' mem closed k matched
    rcases List.mem_append.mp mem with mem | mem
    · obtain ⟨lt, other⟩ := state.closed c' mem closed k matched
      exact ⟨lt, fun mem => other (List.mem_cons_of_mem _ mem)⟩
    · cases List.mem_singleton.mp mem
      rw [← closes.sameMatch] at matched
      refine ⟨state.fresh o List.mem_cons_self k matched, ?_⟩
      rw [← matched]
      exact (List.nodup_cons.mp state.distinct).1

theorem unmatch_marker (m : Marker) :
    Token.unmatch id (.marker m) = .marker (if m.matchId = some id then { m with matchId := none } else m) :=
  rfl

theorem unmatch_of_ne {m : Marker} (other : m.matchId ≠ some id) : Token.unmatch id (.marker m) = .marker m := by
  rw [unmatch_marker, if_neg other]

theorem unmatched_unmatch (unmatched : Unmatched token) : Unmatched (Token.unmatch id token) := by
  cases token with
  | marker m =>
      rw [unmatch_of_ne]
      · exact unmatched
      · rw [show m.matchId = none from unmatched]
        simp
  | text kind contents => trivial
  | escapedCharacter char => trivial
  | image altText url title => trivial
  | container kind subTokens => trivial

theorem unmatch_same {m : Marker} (same : m.matchId = some id) : Unmatched (Token.unmatch id (.marker m)) := by
  rw [unmatch_marker, if_pos same]
  rfl

def stillMatched (id : Nat) : Token → Bool
  | .marker m => m.matchId != some id
  | _ => true

theorem filter_stillMatched (same : o.matchId = some id) (others : ∀ m ∈ before ++ behind, m.matchId ≠ some id) :
    ((before ++ o :: behind).map Token.marker).filter (stillMatched id) =
      (before ++ behind).map Token.marker := by
  have kept : ∀ ms : List Marker, (∀ m ∈ ms, m.matchId ≠ some id) →
      (ms.map Token.marker).filter (stillMatched id) = ms.map Token.marker := by
    intro ms all
    rw [List.filter_eq_self]
    intro token mem
    obtain ⟨m, here, rfl⟩ := List.mem_map.mp mem
    simpa [stillMatched] using all m here
  have here : stillMatched id (.marker o) = false := by simp [stillMatched, same]
  rw [List.map_append, List.map_cons, List.filter_append, List.filter_cons_of_neg (by simp [here]),
    kept before fun m mem => others m (List.mem_append_left _ mem),
    kept behind fun m mem => others m (List.mem_append_right _ mem), List.map_append]

theorem filter_forget (openMatches : List (Option Nat)) :
    (openMatches.map fun x => if x = some id then none else x).filter Option.isSome =
      (openMatches.filter Option.isSome).filter (· != some id) := by
  induction openMatches with
  | nil => rfl
  | cons x openMatches ih =>
      rw [List.map_cons]
      by_cases same : x = some id
      · subst same
        rw [if_pos rfl, List.filter_cons_of_neg (by simp), List.filter_cons_of_pos rfl,
          List.filter_cons_of_neg (by simp), ih]
      · rw [if_neg same]
        cases x with
        | none => rw [List.filter_cons_of_neg (by simp), List.filter_cons_of_neg (by simp), ih]
        | some k =>
            rw [List.filter_cons_of_pos rfl, List.filter_cons_of_pos rfl,
              List.filter_cons_of_pos (by simpa using same), ih]

/-- The marker of an outer pair is closed before the inner ones: the match is taken back. -/
theorem Unwinding.unmatches (closes : Closes o c) (matched : c.matchId = some id)
    (state : Unwinding next (before ++ o :: behind) done openMatches) (other : openMatches.head? ≠ some (some id)) :
    Unwinding next (before ++ behind) ((done ++ [Token.marker c]).map (Token.unmatch id))
      (openMatches.map fun x => if x = some id then none else x) := by
  have same : o.matchId = some id := closes.sameMatch.trans matched
  have distinct := state.distinct
  rw [List.map_append, List.map_cons, List.nodup_middle, ← List.map_append, List.nodup_cons, same] at distinct
  have others : ∀ m ∈ before ++ behind, m.matchId ≠ some id := fun m mem eq =>
    distinct.1 (eq ▸ List.mem_map_of_mem mem)
  have pendingOf : ∀ m ∈ before ++ behind, m ∈ before ++ o :: behind := fun m mem => by
    rcases List.mem_append.mp mem with mem | mem
    · exact List.mem_append_left _ mem
    · exact List.mem_append_right _ (List.mem_cons_of_mem o mem)
  refine ⟨?_, ?_, ?_, ?_, distinct.2, ?_⟩
  · rw [List.map_append, List.map_singleton, ← filter_stillMatched same others]
    refine OpenPairs.snoc (state.nested.map ?_ ?_ ?_ ?_) (unmatch_same matched)
    · exact fun token _ unmatched => unmatched_unmatch unmatched
    · rintro _ _ _ memb ⟨a, b, rfl, rfl, pair⟩
      have apart : b.matchId ≠ some id := fun eq =>
        (state.closed b memb pair.closes id eq).2
          (List.mem_map.mpr ⟨o, List.mem_append_right before List.mem_cons_self, same⟩)
      rw [unmatch_of_ne apart, unmatch_of_ne (pair.sameMatch ▸ apart)]
      exact ⟨a, b, rfl, rfl, pair⟩
    · intro token mem gone
      obtain ⟨m, _, rfl⟩ := List.mem_map.mp mem
      exact unmatch_same (by simpa [stillMatched] using gone)
    · intro token mem kept
      obtain ⟨m, _, rfl⟩ := List.mem_map.mp mem
      exact unmatch_of_ne (by simpa [stillMatched] using kept)
  · rw [filter_forget, state.stack, List.map_append, List.map_cons, List.filter_append,
      List.filter_cons_of_neg (by simp [same]), ← List.filter_append, ← List.map_append, List.filter_eq_self]
    intro x mem
    obtain ⟨m, here, rfl⟩ := List.mem_map.mp mem
    simpa using others m here
  · rw [List.head?_map]
    cases openMatches with
    | nil => simp
    | cons x openMatches =>
        have some_ := state.top
        simp only [List.head?_cons, Option.map_some, ne_eq, Option.some.injEq] at some_ other ⊢
        rw [if_neg other]
        exact some_
  · exact fun m mem => state.fresh m (pendingOf m mem)
  · intro m mem closed k matched'
    obtain ⟨token, here, eq⟩ := List.mem_map.mp mem
    obtain ⟨m', rfl⟩ : ∃ m', token = .marker m' := by
      cases token <;> first | exact ⟨_, rfl⟩ | cases eq
    rw [unmatch_marker, Token.marker.injEq] at eq
    split_ifs at eq with taken
    · rw [← eq] at matched'
      cases matched'
    · subst eq
      rcases List.mem_append.mp here with here | here
      · obtain ⟨lt, other⟩ := state.closed m' here closed k matched'
        refine ⟨lt, fun mem => other ?_⟩
        obtain ⟨m, mem, eq⟩ := List.mem_map.mp mem
        exact List.mem_map.mpr ⟨m, pendingOf m mem, eq⟩
      · cases List.mem_singleton.mp here
        exact absurd matched taken

theorem unmatchLoop_skip (unmatched : Unmatched token) :
    unmatchLoop done openMatches (token :: after) = unmatchLoop (done ++ [token]) openMatches after := by
  cases token with
  | marker m => rw [unmatchLoop, show m.matchId = none from unmatched]
  | text kind contents => rfl
  | escapedCharacter char => rfl
  | image altText url title => rfl
  | container kind subTokens => rfl

theorem unmatchLoop_open (opens : o.isOpen = true) (matched : o.matchId = some id) :
    unmatchLoop done openMatches (.marker o :: after) =
      unmatchLoop (done ++ [.marker o]) (some id :: openMatches) after := by
  rw [unmatchLoop, matched]
  exact if_pos opens

theorem unmatchLoop_close {top : Option Nat} (closes : c.isOpen = false) (matched : c.matchId = some id) :
    unmatchLoop done (top :: below) (.marker c :: after) =
      if top = some id then unmatchLoop (done ++ [.marker c]) (below.dropWhile Option.isNone) after
      else
        unmatchLoop ((done ++ [Token.marker c]).map (Token.unmatch id))
          ((top :: below).map fun x => if x = some id then none else x) after := by
  rw [unmatchLoop, matched]
  exact if_neg (by simp [closes])

theorem wellNested_of_paired (paired : Paired next pending after)
    (state : Unwinding next pending done openMatches) :
    ∃ tokens, unmatchLoop done openMatches after = .ok tokens ∧ WellNested tokens := by
  induction paired generalizing done openMatches with
  | nil => exact ⟨done, rfl, state.nested.nested⟩
  | other unmatched _ ih =>
      rw [unmatchLoop_skip unmatched]
      exact ih (state.other unmatched)
  | opens opens matched le _ ih =>
      rw [unmatchLoop_open opens matched]
      exact ih (state.opens opens matched le)
  | @close next o c before behind after closes _ ih =>
      obtain ⟨id, matched⟩ := Option.isSome_iff_exists.mp (closes.sameMatch ▸ closes.matched)
      have same : o.matchId = some id := closes.sameMatch.trans matched
      have stack := state.stack
      rw [List.map_append, List.map_cons, same] at stack
      cases openMatches with
      | nil => simp at stack
      | cons top below =>
          rw [unmatchLoop_close closes.closes matched]
          split_ifs with innermost
          · subst innermost
            rw [List.filter_cons_of_pos rfl] at stack
            have outermost : before = [] := by
              cases before with
              | nil => rfl
              | cons b before =>
                  rw [List.map_cons, List.cons_append, List.cons.injEq] at stack
                  have distinct := state.distinct
                  rw [List.cons_append, List.map_cons, List.nodup_cons, ← stack.1, ← same] at distinct
                  exact absurd (List.mem_map_of_mem (List.mem_append_right before List.mem_cons_self)) distinct.1
            subst outermost
            exact ih (Unwinding.matches closes (same ▸ state))
          · exact ih (state.unmatches closes matched (by simpa using innermost))

end Unmatching

end TscServer.Proof
