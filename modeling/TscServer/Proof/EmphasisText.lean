import TscServer.Lib.PatternSearch
import TscServer.Proof.EmphasisNesting

/-!
# Text of the markers

The markers of a text stand for what the text has there, and the matching leaves them so.
-/

namespace TscServer.Proof
open Lib Pattern Model Markdown Spec

/-! ## Markers that are split -/

section Text
variable {o c : Marker} {id fuel : Nat} {token : Token} {tokens after out : List Token}

/-- A marker of at most three characters, which is neither matched nor to be matched when it was split. -/
def Sane : Token → Prop
  | .marker m => m.size ≤ 3 ∧ (m.disabled = true → m.cannotMatch = true ∧ m.matchId = none)
  | _ => True

theorem shown_of_alive (sane : Sane (.marker c)) (alive : c.isUnmatchedCloseMarker = true) : c.disabled = false := by
  cases shown : c.disabled with
  | false => rfl
  | true => simp [Marker.isUnmatchedCloseMarker, (sane.2 shown).1] at alive

theorem shown_of_startable (sane : Sane (.marker o)) (startable : o.isUnmatchedOpenMarker = true) :
    o.disabled = false := by
  cases shown : o.disabled with
  | false => rfl
  | true => simp [Marker.isUnmatchedOpenMarker, (sane.2 shown).1] at startable

theorem sane_disable (sane : Sane (.marker c)) (unmatched : Unmatched (.marker c)) : Sane (.marker c.disable) :=
  ⟨sane.1, fun _ => ⟨rfl, unmatched⟩⟩

theorem sane_new {char : UInt8} {isOpen : Bool} {size : Nat} (small : size ≤ 3) :
    Sane (.marker { isOpen, tokenCharacter := char, size }) :=
  ⟨small, fun shown => by cases shown⟩

theorem sane_matched (sane : Sane (.marker c)) (shown : c.disabled = false) :
    Sane (.marker { c with matchId := some id }) :=
  ⟨sane.1, fun disabled => by simp [shown] at disabled⟩

theorem spell_marker (shown : c.disabled = false) : spell (.marker c) = List.replicate c.size c.tokenCharacter := by
  rw [spell, if_neg (by simp [shown])]

theorem spell_disable : spell (.marker c.disable) = [] := rfl

structure Spells (tokens out : List Token) : Prop where
  sane : ∀ token ∈ out, Sane token
  same : out.flatMap spell = tokens.flatMap spell

theorem Spells.cons {here there : Token} (sane : Sane there) (same : spell there = spell here)
    (rest : Spells after out) : Spells (here :: after) (there :: out) where
  sane := by
    intro token mem
    rcases List.mem_cons.mp mem with rfl | mem
    · exact sane
    · exact rest.sane token mem
  same := by rw [List.flatMap_cons, List.flatMap_cons, same, rest.same]

theorem Spells.disabled {first second : Marker} (sane : Sane (.marker c)) (unmatched : Unmatched (.marker c))
    (same : spell (.marker first) ++ spell (.marker second) = spell (.marker c))
    (rest : Spells (.marker first :: .marker second :: after) out) :
    Spells (.marker c :: after) (.marker c.disable :: out) where
  sane := by
    intro token mem
    rcases List.mem_cons.mp mem with rfl | mem
    · exact sane_disable sane unmatched
    · exact rest.sane token mem
  same := by
    rw [List.flatMap_cons, spell_disable, List.nil_append, rest.same, List.flatMap_cons, List.flatMap_cons,
      List.flatMap_cons, ← List.append_assoc, same]

def KeepsText (o : Marker) (after : List Token) : Pairing → Prop
  | .unmatched out => Spells after out
  | .matched out => Spells after out
  | .split first second out =>
      (Sane (.marker first) ∧ Sane (.marker second) ∧
        spell (.marker first) ++ spell (.marker second) = spell (.marker o)) ∧ Spells after out

theorem KeepsText.map {after' : List Token} {f : List Token → List Token} {r : Pairing}
    (step : ∀ out, Spells after out → Spells after' (f out)) (keeps : KeepsText o after r) :
    KeepsText o after' (r.map f) := by
  cases r with
  | unmatched out => exact step out keeps
  | matched out => exact step out keeps
  | split first second out => exact ⟨keeps.1, step out keeps.2⟩

theorem spell_parts {char : UInt8} {isOpen : Bool} {size : Nat} (shown : c.disabled = false)
    (char_ : char = c.tokenCharacter) (le : size ≤ c.size) :
    spell (.marker { isOpen, tokenCharacter := char, size := c.size - size }) ++
        spell (.marker { isOpen, tokenCharacter := char, size }) = spell (.marker c) := by
  rw [spell_marker rfl, spell_marker rfl, spell_marker shown, List.replicate_append_replicate, char_]
  congr 1
  exact Nat.sub_add_cancel le

theorem keepsText_of_tryCloseMarkers {r : Pairing} (here : Sane (.marker o))
    (startable : o.isUnmatchedOpenMarker = true) (run : tryCloseMarkers o id fuel after = some r)
    (sane : ∀ token ∈ after, Sane token) : KeepsText o after r := by
  revert sane
  refine tryCloseMarkers_induction (P := fun after r => (∀ token ∈ after, Sane token) → KeepsText o after r)
    ?_ ?_ ?_ ?_ ?_ ?_ run
  · exact fun sane => ⟨sane, rfl⟩
  · intro token after r _ ih sane
    obtain ⟨first, rest⟩ := List.forall_mem_cons.mp sane
    exact (ih rest).map fun out spells => spells.cons first rfl
  · intro c after r alive three _ ih sane
    obtain ⟨first, rest⟩ := List.forall_mem_cons.mp sane
    have small : Sane (closing c (c.size - o.size)) := sane_new (by omega)
    have parts : ∀ token ∈ closing c (c.size - o.size) :: closing c o.size :: after, Sane token :=
      List.forall_mem_cons.mpr ⟨small, List.forall_mem_cons.mpr ⟨sane_new here.1, rest⟩⟩
    refine (ih parts).map fun out spells => spells.disabled first (unmatched_of_alive alive) ?_
    exact spell_parts (shown_of_alive first alive) rfl (three ▸ here.1)
  · intro c after alive _ _ sane
    obtain ⟨first, rest⟩ := List.forall_mem_cons.mp sane
    exact Spells.cons (sane_matched first (shown_of_alive first alive)) rfl ⟨rest, rfl⟩
  · intro c after alive three _ sane
    obtain ⟨first, -⟩ := List.forall_mem_cons.mp sane
    refine ⟨⟨sane_new (by omega), sane_new first.1, ?_⟩, sane, rfl⟩
    exact spell_parts (shown_of_startable here startable) rfl (three ▸ first.1)
  · intro c after r _ ih sane
    obtain ⟨first, rest⟩ := List.forall_mem_cons.mp sane
    exact (ih rest).map fun out spells => spells.cons first rfl

theorem spells_of_matchMarkers (run : matchMarkers fuel id tokens = some out)
    (sane : ∀ token ∈ tokens, Sane token) : Spells tokens out := by
  revert sane
  refine matchMarkers_induction (P := fun _ tokens out => (∀ token ∈ tokens, Sane token) → Spells tokens out)
    ?_ ?_ ?_ ?_ ?_ run
  · exact fun _ sane => ⟨sane, rfl⟩
  · intro id token after out _ ih sane
    obtain ⟨first, rest⟩ := List.forall_mem_cons.mp sane
    exact (ih rest).cons first rfl
  · intro id fuel o after after' out startable tried ih sane
    obtain ⟨first, rest⟩ := List.forall_mem_cons.mp sane
    have keeps : Spells after after' := keepsText_of_tryCloseMarkers first startable tried rest
    have later := ih keeps.sane
    exact Spells.cons first rfl ⟨later.sane, later.same.trans keeps.same⟩
  · intro id fuel o after after' out startable tried ih sane
    obtain ⟨first, rest⟩ := List.forall_mem_cons.mp sane
    have shown := shown_of_startable first startable
    have keeps : Spells after after' := keepsText_of_tryCloseMarkers first startable tried rest
    have later := ih keeps.sane
    exact Spells.cons (sane_matched first shown) rfl ⟨later.sane, later.same.trans keeps.same⟩
  · intro id fuel o one two after after' out startable tried ih sane
    obtain ⟨first, rest⟩ := List.forall_mem_cons.mp sane
    obtain ⟨⟨saneOne, saneTwo, parts⟩, keeps⟩ := keepsText_of_tryCloseMarkers first startable tried rest
    have later := ih (List.forall_mem_cons.mpr ⟨saneOne, List.forall_mem_cons.mpr ⟨saneTwo, keeps.sane⟩⟩)
    refine Spells.disabled first (unmatched_of_startable startable) parts ⟨later.sane, ?_⟩
    rw [later.same, List.flatMap_cons, List.flatMap_cons, keeps.same, List.flatMap_cons, List.flatMap_cons]

theorem sane_unmatch (sane : Sane token) : Sane (Token.unmatch id token) := by
  cases token with
  | marker m =>
      rw [unmatch_marker]
      split_ifs
      · exact ⟨sane.1, fun disabled => ⟨(sane.2 disabled).1, rfl⟩⟩
      · exact sane
  | text kind contents => trivial
  | escapedCharacter char => trivial
  | image altText url title => trivial
  | container kind subTokens => trivial

theorem spell_unmatch : spell (Token.unmatch id token) = spell token := by
  cases token with
  | marker m =>
      rw [unmatch_marker]
      split_ifs <;> rfl
  | text kind contents => rfl
  | escapedCharacter char => rfl
  | image altText url title => rfl
  | container kind subTokens => rfl

theorem unmatchLoop_step {done : List Token} {openMatches : List (Option Nat)}
    (run : unmatchLoop done openMatches (token :: after) = .ok out) :
    ∃ openMatches', unmatchLoop (done ++ [token]) openMatches' after = .ok out ∨
      ∃ id, unmatchLoop ((done ++ [token]).map (Token.unmatch id)) openMatches' after = .ok out := by
  by_cases unmatched : Unmatched token
  · rw [unmatchLoop_skip unmatched] at run
    exact ⟨openMatches, .inl run⟩
  · cases token with
    | marker m =>
        obtain ⟨id, matched⟩ := Option.ne_none_iff_exists'.mp unmatched
        cases opens : m.isOpen with
        | true =>
            rw [unmatchLoop_open opens matched] at run
            exact ⟨_, .inl run⟩
        | false =>
            cases openMatches with
            | nil =>
                rw [unmatchLoop, matched] at run
                simp [opens] at run
            | cons top below =>
                rw [unmatchLoop_close opens matched] at run
                split_ifs at run
                · exact ⟨_, .inl run⟩
                · exact ⟨_, .inr ⟨id, run⟩⟩
    | text kind contents => exact absurd trivial unmatched
    | escapedCharacter char => exact absurd trivial unmatched
    | image altText url title => exact absurd trivial unmatched
    | container kind subTokens => exact absurd trivial unmatched

theorem spells_of_unmatchLoop {done : List Token} {openMatches : List (Option Nat)}
    (run : unmatchLoop done openMatches after = .ok out) (sane : ∀ token ∈ done ++ after, Sane token) :
    Spells (done ++ after) out := by
  induction after generalizing done openMatches with
  | nil =>
      rw [unmatchLoop] at run
      obtain rfl := Except.ok.inj run
      rw [List.append_nil] at sane ⊢
      exact ⟨sane, rfl⟩
  | cons token after ih =>
      rw [List.append_cons] at sane ⊢
      obtain ⟨openMatches', run | ⟨id, run⟩⟩ := unmatchLoop_step run
      · exact ih run sane
      · obtain ⟨before, behind⟩ := List.forall_mem_append.mp sane
        have taken : ∀ t ∈ (done ++ [token]).map (Token.unmatch id), Sane t := by
          intro t mem
          obtain ⟨t', mem', rfl⟩ := List.mem_map.mp mem
          exact sane_unmatch (before t' mem')
        have spells := ih run (List.forall_mem_append.mpr ⟨taken, behind⟩)
        refine ⟨spells.sane, ?_⟩
        rw [spells.same, List.flatMap_append, List.flatMap_append, List.flatMap_map]
        simp only [spell_unmatch]

end Text

/-! ## Markers of a text -/

section Scan
variable {s t u : Spot UInt8} {f : UInt8 → Bool} {c : UInt8} {g text : Bytes} {m : Match UInt8} {tokens : List Token}

structure MarkerRun (g : Bytes) : Prop where
  pos : 0 < g.length
  le : g.length ≤ 3
  chars : ∀ c ∈ g, isMarkerChar c = true

theorem markerRun_of_mem (mem : u ∈ (between 1 3 (.one f)).ends s) (markers : ∀ c, f c = true → isMarkerChar c = true) :
    ∃ n, u = s.take n ∧ MarkerRun (s.rest.take n) := by
  obtain ⟨n, pos, le, rfl⟩ := mem_ends_rep_one.mp mem
  have three : n ≤ 3 := le.trans (Nat.min_le_right _ _)
  have run : n ≤ (s.rest.takeWhile f).length := le.trans (Nat.min_le_left _ _)
  have inside : s.rest.take n = (s.rest.takeWhile f).take n := by
    conv_lhs => rw [← List.takeWhile_append_dropWhile (p := f) (l := s.rest)]
    rw [List.take_append_of_le_length run]
  refine ⟨n, rfl, ?_, ?_, ?_⟩
  · rw [inside, List.length_take]
    omega
  · rw [List.length_take]
    omega
  · intro c mem
    rw [inside] at mem
    exact markers c (List.mem_takeWhile_imp (List.mem_of_mem_take mem))

def markerOf (c : UInt8) (edge : Option UInt8 → Option UInt8 → Bool) : Pattern UInt8 :=
  all [.edge edge, between 1 3 (.one (· = c)), .notAhead (.one (· = c))]

theorem cEmphasisExpression_eq :
    cEmphasisExpression =
      .alt
        (all [notBehind isMarkerChar, .group 1 (between 1 3 (.one isMarkerChar)),
          .group 2 (lazyPlus (noneOf "*_ ")), .backref 1, .notAhead (.one isMarkerChar)])
        (.alt
          (.group 3 (all [.alt (markerOf 42 fun c _ => !c.any (· = 42)) (markerOf 95 fun c _ => !c.any (· = 95)),
            .ahead any, .notAhead blank, .notAhead (all [oneOf ".,:;", blank]),
            .notAhead (all [oneOf ".,:;", lineEnd])]))
          (.group 4 (.alt (markerOf 42 fun c _ => !c.any fun d => d = 42 || d = 32)
            (markerOf 95 fun c _ => !c.any fun d => d = 95 || d = 32)))) := rfl

theorem markerRun_of_markerOf {edge : Option UInt8 → Option UInt8 → Bool} (marker : isMarkerChar c = true)
    (mem : u ∈ (markerOf c edge).ends s) : ∃ n, u = s.take n ∧ MarkerRun (s.rest.take n) := by
  simp only [markerOf, mem_ends_all_cons, mem_ends_all_nil, mem_ends_edge, mem_ends_notAhead] at mem
  obtain ⟨_, ⟨rfl, -⟩, _, run, _, ⟨rfl, -⟩, rfl⟩ := mem
  refine markerRun_of_mem run fun d same => ?_
  obtain rfl := of_decide_eq_true same
  exact marker

/-- The match of a marker is the marker, and that of an emphasis in a word is its contents between two. -/
theorem span_of_emphasis (found : cEmphasisExpression.search text = some m) :
    m.groups 3 = some m.span ∧ MarkerRun m.span ∨
      m.groups 3 = none ∧ m.groups 4 = some m.span ∧ MarkerRun m.span ∨
      m.groups 3 = none ∧ m.groups 4 = none ∧ MarkerRun (m.group 1) ∧
        m.span = m.group 1 ++ m.group 2 ++ m.group 1 := by
  obtain ⟨t, first, -, post, groups⟩ := search_eq_some found
  have mem := List.mem_of_mem_head? first
  clear first
  simp only [Match.group, groups]
  generalize hs : (⟨m.pre.reverse, m.span ++ m.post, fun _ => none⟩ : Spot UInt8) = s at mem
  have unset : ∀ n, s.groups n = none := by
    intro n
    rw [← hs]
  have span : ∀ w, Spot.Reads s w t → m.span = w := by
    intro w reads
    rw [← reads.upTo, Spot.upTo, ← hs, ← post]
    simp
  rw [cEmphasisExpression_eq] at mem
  rcases mem_ends_alt.mp mem with word | alts
  · simp only [mem_ends_all_cons, mem_ends_all_nil, mem_ends_group, mem_ends_notAhead, mem_ends_backref,
      notBehind, mem_ends_edge] at word
    obtain ⟨s, ⟨rfl, -⟩, u, ⟨_, run, hu⟩, v, ⟨_, contents, hv⟩, _, ⟨again, rfl⟩, _, ⟨rfl, -⟩, rfl⟩ := word
    obtain ⟨n, rfl, marker⟩ := markerRun_of_mem run fun _ => id
    obtain ⟨k, -, -, rfl⟩ := mem_ends_rep_one.mp contents
    have groups_u : u.groups 1 = some (s.rest.take n) := by
      rw [← hu, Spot.groups_capture_self, (s.reads_take n).upTo]
    have first : (v.groups 1).getD [] = s.rest.take n := by
      rw [← hv, Spot.groups_capture_of_ne (by decide)]
      exact congrArg (Option.getD · []) groups_u
    have second : (v.groups 2).getD [] = u.rest.take k := by
      rw [← hv, Spot.groups_capture_self, (u.reads_take k).upTo]
      rfl
    have others : ∀ i, i ≠ 1 → i ≠ 2 → v.groups i = none := by
      intro i one_ two_
      rw [← hv, Spot.groups_capture_of_ne two_]
      refine Eq.trans ?_ (unset i)
      rw [← hu]
      exact Spot.groups_capture_of_ne one_
    have readsFirst : s.Reads (s.rest.take n) u := hu ▸ (s.reads_take n).capture 1
    have readsSecond : u.Reads (u.rest.take k) v := hv ▸ (u.reads_take k).capture 2
    have readsAgain : v.Reads (s.rest.take n) (v.take (s.rest.take n).length) := by
      have here := v.reads_take (s.rest.take n).length
      rw [first] at again
      rwa [← List.prefix_iff_eq_take.mp (List.isPrefixOf_iff_prefix.mp again)] at here
    refine .inr (.inr ⟨others 3 (by decide) (by decide), others 4 (by decide) (by decide), ?_, ?_⟩)
    · rw [Spot.groups_take, first]
      exact marker
    · rw [Spot.groups_take, first, second]
      rw [first] at span
      exact span _ ((readsFirst.trans readsSecond).trans readsAgain)
  · rcases mem_ends_alt.mp alts with open_ | close
    · obtain ⟨u, inner, rfl⟩ := mem_ends_group.mp open_
      simp only [mem_ends_all_cons, mem_ends_all_nil, mem_ends_notAhead, mem_ends_ahead, mem_ends_alt] at inner
      obtain ⟨v, markers, _, ⟨w, ahead, rfl⟩, _, ⟨rfl, -⟩, _, ⟨rfl, -⟩, _, ⟨rfl, -⟩, rfl⟩ := inner
      obtain ⟨n, rfl, run⟩ := markers.elim (markerRun_of_markerOf rfl) (markerRun_of_markerOf rfl)
      have read : m.span = s.rest.take n := span _ ⟨(s.reads_take n).rest, (s.reads_take n).before⟩
      refine .inl ⟨?_, read ▸ run⟩
      rw [Spot.groups_capture_self, read]
      exact congrArg some (s.reads_take n).upTo
    · obtain ⟨u, inner, rfl⟩ := mem_ends_group.mp close
      obtain ⟨n, rfl, run⟩ := (mem_ends_alt.mp inner).elim (markerRun_of_markerOf rfl) (markerRun_of_markerOf rfl)
      have read : m.span = s.rest.take n := span _ ⟨(s.reads_take n).rest, (s.reads_take n).before⟩
      refine .inr (.inl ⟨?_, ?_, read ▸ run⟩)
      · exact (Spot.groups_capture_of_ne (by decide)).trans (unset 3)
      · rw [Spot.groups_capture_self, (s.reads_take n).upTo, read]

theorem needs_cEmphasisExpression : Needs isMarkerChar cEmphasisExpression := by
  have markers : ∀ c, isMarkerChar c = true → Needs isMarkerChar (.one (· = c)) := by
    intro c marker s t span mem reads
    obtain ⟨d, here, same⟩ := needs_one s t span mem reads
    exact ⟨d, here, of_decide_eq_true same ▸ marker⟩
  have markerOf_ : ∀ c edge, isMarkerChar c = true → Needs isMarkerChar (markerOf c edge) := fun c edge marker =>
    .seq_right (.seq_left (.rep (markers c marker) (by decide)))
  rw [cEmphasisExpression_eq]
  refine .alt ?_ (.alt ?_ ?_)
  · exact .seq_right (.seq_left (.group (.rep needs_one (by decide))))
  · exact .group (.seq_left (.alt (markerOf_ 42 _ rfl) (markerOf_ 95 _ rfl)))
  · exact .group (.alt (markerOf_ 42 _ rfl) (markerOf_ 95 _ rfl))

def Fresh : Token → Prop
  | .marker m => 0 < m.size ∧ m.size ≤ 3 ∧ m.matchId = none ∧ m.disabled = false
  | _ => True

theorem fresh_newMarker {isOpen : Bool} (run : MarkerRun g) : Fresh (newMarker isOpen g) :=
  ⟨run.pos, run.le, rfl, rfl⟩

theorem oneMarker_append (a b : Bytes) : oneMarker (a ++ b) = oneMarker a ++ oneMarker b := List.map_append

theorem oneMarker_of_markers (markers : ∀ c ∈ g, isMarkerChar c = true) :
    oneMarker g = List.replicate g.length 42 := by
  rw [oneMarker, List.map_eq_replicate_iff.mpr]
  intro c mem
  rw [if_pos (markers c mem)]

theorem oneMarker_newMarker {isOpen : Bool} (run : MarkerRun g) :
    oneMarker (spell (newMarker isOpen g)) = oneMarker g := by
  cases g with
  | nil => exact absurd run.pos (by simp)
  | cons c g =>
      have spelled : spell (newMarker isOpen (c :: g)) = List.replicate (c :: g).length c := rfl
      rw [spelled, oneMarker_of_markers run.chars, oneMarker_of_markers, List.length_replicate]
      intro d mem
      rw [List.eq_of_mem_replicate mem]
      exact run.chars c List.mem_cons_self

theorem emphasisTokens_open (three : m.groups 3 = some g) : emphasisTokens m = [newMarker true g] := by
  simp [emphasisTokens, Match.group, three]

theorem emphasisTokens_close (three : m.groups 3 = none) (four : m.groups 4 = some g) :
    emphasisTokens m = [newMarker false g] := by
  simp [emphasisTokens, Match.group, three, four]

theorem emphasisTokens_cases (found : cEmphasisExpression.search text = some m) :
    (∃ isOpen, emphasisTokens m = [newMarker isOpen m.span] ∧ MarkerRun m.span) ∨
      ∃ g contents, emphasisTokens m = [newMarker true g, .rawText contents, newMarker false g] ∧ MarkerRun g ∧
        m.span = g ++ contents ++ g := by
  rcases span_of_emphasis found with ⟨three, run⟩ | ⟨three, four, run⟩ | ⟨three, four, run, span⟩
  · exact .inl ⟨true, emphasisTokens_open three, run⟩
  · exact .inl ⟨false, emphasisTokens_close three four, run⟩
  · exact .inr ⟨m.group 1, m.group 2, by simp [emphasisTokens, three, four], run, span⟩

theorem emphasisTokens_of_found (found : cEmphasisExpression.search text = some m) :
    (∀ token ∈ emphasisTokens m, Fresh token) ∧
      oneMarker ((emphasisTokens m).flatMap spell) = oneMarker m.span := by
  rcases emphasisTokens_cases found with ⟨isOpen, tokens_, run⟩ | ⟨g, contents, tokens_, run, span⟩
  · rw [tokens_, List.flatMap_singleton]
    exact ⟨List.forall_mem_singleton.mpr (fresh_newMarker run), oneMarker_newMarker run⟩
  · rw [tokens_, span]
    constructor
    · simp only [List.forall_mem_cons]
      exact ⟨fresh_newMarker run, trivial, fresh_newMarker run, by simp⟩
    · simp only [List.flatMap_cons, List.flatMap_nil, List.append_nil, oneMarker_append]
      rw [oneMarker_newMarker run, oneMarker_newMarker run, List.append_assoc]
      rfl

theorem spell_rawTextUnlessEmpty : (rawTextUnlessEmpty text).flatMap spell = text := by
  rw [rawTextUnlessEmpty]
  split_ifs with none_
  · exact none_.symm
  · exact List.append_nil text

theorem fresh_rawTextUnlessEmpty : ∀ token ∈ rawTextUnlessEmpty text, Fresh token := by
  rw [rawTextUnlessEmpty]
  split_ifs
  · exact List.forall_mem_nil _
  · exact List.forall_mem_singleton.mpr trivial

theorem emphasisScan_shape (text : Bytes) :
    ∃ ms rest, searchAll cEmphasisExpression (text.length + 1) text = some (ms, rest) ∧
      emphasisScan text =
        .ok (ms.flatMap (fun m => rawTextUnlessEmpty m.pre ++ emphasisTokens m) ++ rawTextUnlessEmpty rest) := by
  obtain ⟨⟨ms, rest⟩, found⟩ :=
    Option.isSome_iff_exists.mp (searchAll_isSome needs_cEmphasisExpression text.length.lt_succ_self)
  refine ⟨ms, rest, found, ?_⟩
  rw [emphasisScan, searchEach, found]
  rfl

theorem emphasisScan_eq_ok (text : Bytes) :
    ∃ tokens, emphasisScan text = .ok tokens ∧ (∀ token ∈ tokens, Fresh token) ∧
      oneMarker (tokens.flatMap spell) = oneMarker text := by
  obtain ⟨ms, rest, found, scan⟩ := emphasisScan_shape text
  have each : ∀ m ∈ ms, (∀ token ∈ emphasisTokens m, Fresh token) ∧
      oneMarker ((emphasisTokens m).flatMap spell) = oneMarker m.span := by
    intro m mem
    obtain ⟨text', -, here⟩ := mem_searchAll found m mem
    exact emphasisTokens_of_found here
  refine ⟨_, scan, ?_, ?_⟩
  · refine List.forall_mem_append.mpr ⟨?_, fresh_rawTextUnlessEmpty⟩
    intro token mem
    obtain ⟨m, here, inside⟩ := List.mem_flatMap.mp mem
    exact (List.mem_append.mp inside).elim (fresh_rawTextUnlessEmpty token) ((each m here).1 token)
  · rw [searchAll_join found, List.flatMap_append, spell_rawTextUnlessEmpty, oneMarker_append, oneMarker_append]
    congr 1
    clear found scan
    induction ms with
    | nil => rfl
    | cons m ms ih =>
        obtain ⟨here, others⟩ := List.forall_mem_cons.mp each
        rw [List.flatMap_cons, List.flatMap_append, List.flatMap_append, spell_rawTextUnlessEmpty, List.flatMap_cons,
          oneMarker_append, oneMarker_append, oneMarker_append, oneMarker_append, here.2, ih others]

end Scan

end TscServer.Proof
