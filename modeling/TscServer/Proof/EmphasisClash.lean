import TscServer.Proof.Emphasis

/-!
# Clashing markers

An open marker of size three that meets a close one of the other character is split into an empty marker and
itself, and the matching never gets past them.
-/

namespace TscServer.Proof
open Lib Pattern Model Markdown Spec

section Clash
variable {o c : Marker} {fuel : Nat} {before between_ rest : List Token}

/-- An empty open marker splits a close marker of size three into itself and an empty one. -/
theorem tryCloseMarkers_endless (empty : o.size = 0) (dead : ∀ token ∈ between_, ¬ Alive token)
    (alive : c.isUnmatchedCloseMarker = true) (three : c.size = 3) (id fuel : Nat) :
    tryCloseMarkers o id fuel (between_ ++ .marker c :: rest) = none := by
  induction fuel generalizing between_ c rest with
  | zero => rfl
  | succ fuel ih =>
      cases between_ with
      | nil =>
          rw [List.nil_append, tryCloseMarkers_split alive three (by omega), Option.map_eq_none_iff, closing, empty]
          exact ih (List.forall_mem_nil _) rfl three
      | cons token between_ =>
          obtain ⟨first, others⟩ := List.forall_mem_cons.mp dead
          rw [List.cons_append, tryCloseMarkers_skip first, Option.map_eq_none_iff]
          exact ih others alive three

theorem tryCloseMarkers_clash {id fuel : Nat} {r : Pairing} (threeOpen : o.size = 3)
    (dead : ∀ token ∈ between_, ¬ Alive token) (alive : c.isUnmatchedCloseMarker = true) (threeClose : c.size = 3)
    (clash : c.tokenCharacter ≠ o.tokenCharacter)
    (run : tryCloseMarkers o id fuel (between_ ++ .marker c :: rest) = some r) :
    r = .split (opening o 0) (opening o 3) (between_ ++ .marker c :: rest) := by
  induction between_ generalizing fuel r with
  | nil =>
      cases fuel with
      | zero => cases run
      | succ fuel =>
          rw [List.nil_append, tryCloseMarkers_meet alive fun _ => threeOpen,
            if_neg fun same => clash same.1, if_pos threeOpen, threeOpen, threeClose] at run
          exact (Option.some.inj run).symm
  | cons token between_ ih =>
      obtain ⟨first, others⟩ := List.forall_mem_cons.mp dead
      cases fuel with
      | zero => cases run
      | succ fuel =>
          rw [List.cons_append, tryCloseMarkers_skip first] at run
          obtain ⟨r', ran, rfl⟩ := Option.map_eq_some_iff.mp run
          rw [ih others ran]
          rfl

/-- Two markers of size three with different characters, the first one open, that no close marker parts. -/
theorem matchMarkers_endless (unstarted : ∀ token ∈ before, ¬ Startable token)
    (startable : o.isUnmatchedOpenMarker = true) (threeOpen : o.size = 3)
    (dead : ∀ token ∈ between_, ¬ Alive token) (alive : c.isUnmatchedCloseMarker = true) (threeClose : c.size = 3)
    (clash : c.tokenCharacter ≠ o.tokenCharacter) (id fuel : Nat) :
    matchMarkers fuel id (before ++ .marker o :: (between_ ++ .marker c :: rest)) = none := by
  induction fuel generalizing before with
  | zero => rfl
  | succ fuel ih =>
      cases before with
      | cons token before =>
          obtain ⟨first, others⟩ := List.forall_mem_cons.mp unstarted
          rw [List.cons_append, matchMarkers_skip first, Option.map_eq_none_iff]
          exact ih others
      | nil =>
          rw [List.nil_append, matchMarkers_open startable, Option.bind_eq_none_iff]
          intro r run
          rw [tryCloseMarkers_clash threeOpen dead alive threeClose clash run]
          change (matchMarkers fuel id _).map _ = none
          rw [Option.map_eq_none_iff]
          cases fuel with
          | zero => rfl
          | succ fuel =>
              have dead' : ∀ token ∈ Token.marker (opening o 3) :: between_, ¬ Alive token := by
                refine List.forall_mem_cons.mpr ⟨?_, dead⟩
                intro ⟨m, same, opens⟩
                cases same
                cases opens
              rw [matchMarkers_open rfl, ← List.cons_append,
                tryCloseMarkers_endless (o := opening o 0) rfl dead' alive threeClose]
              rfl

end Clash

/-! ## A text whose markers clash -/

section Word
variable {a b : UInt8} {w h : Bytes} {s t : Spot UInt8}

theorem head?_eq_some_of_forall {α : Type} {x : α} {l : List α} (all_ : ∀ y ∈ l, y = x) (mem : x ∈ l) :
    l.head? = some x := by
  cases l with
  | nil => cases mem
  | cons y l => rw [List.head?_cons, all_ y List.mem_cons_self]

abbrev Letters (w : Bytes) : Prop := ∀ c ∈ w, isalpha c = true

theorem plain_of_alpha {c : UInt8} (alpha : isalpha c = true) : (!(bytes "*_ ").contains c) = true := by
  rw [Bool.not_eq_true', Bool.eq_false_iff, ne_eq, List.contains_iff_mem]
  intro mem
  change c ∈ [42, 95, 32] at mem
  simp only [List.mem_cons, List.not_mem_nil, or_false] at mem
  rcases mem with rfl | rfl | rfl <;> exact absurd alpha (by decide)

theorem not_stop_of_alpha {c : UInt8} (alpha : isalpha c = true) : (bytes ".,:;").contains c = false := by
  rw [Bool.eq_false_iff, ne_eq, List.contains_iff_mem]
  intro mem
  change c ∈ [46, 44, 58, 59] at mem
  simp only [List.mem_cons, List.not_mem_nil, or_false] at mem
  rcases mem with rfl | rfl | rfl | rfl <;> exact absurd alpha (by decide)

theorem not_blank_of_alpha {c : UInt8} (alpha : isalpha c = true) : c ≠ 32 := by
  rintro rfl
  exact absurd alpha (by decide)

theorem not_plain_of_marker {c : UInt8} (marker : isMarkerChar c = true) : (!(bytes "*_ ").contains c) = false := by
  simp only [isMarkerChar, Bool.or_eq_true, beq_iff_eq] at marker
  rcases marker with rfl | rfl <;> decide

theorem mem_ends_markerOf {c : UInt8} {edge : Option UInt8 → Option UInt8 → Bool} :
    t ∈ (markerOf c edge).ends s ↔ edge s.before.head? s.rest.head? = true ∧
      1 ≤ (s.rest.takeWhile (· = c)).length ∧ (s.rest.takeWhile (· = c)).length ≤ 3 ∧
        t = s.take (s.rest.takeWhile (· = c)).length := by
  rw [markerOf, mem_ends_all_cons]
  constructor
  · rintro ⟨u, here, run⟩
    obtain ⟨rfl, holds⟩ := mem_ends_edge.mp here
    exact ⟨holds, mem_ends_run_notAhead.mp run⟩
  · rintro ⟨holds, run⟩
    exact ⟨s, mem_ends_edge.mpr ⟨rfl, holds⟩, mem_ends_run_notAhead.mpr run⟩

theorem not_marker_of_alpha {c : UInt8} (alpha : isalpha c = true) : isMarkerChar c = false := by
  by_contra marker
  have plain := plain_of_alpha alpha
  rw [not_plain_of_marker (by simpa using marker)] at plain
  cases plain

theorem takeWhile_word {f : UInt8 → Bool} (inside : ∀ c ∈ w, f c = true) (outside : h.head?.any f = false) :
    (w ++ h).takeWhile f = w := by
  rw [List.takeWhile_append_of_pos inside]
  cases h with
  | nil => simp
  | cons c h =>
      rw [List.takeWhile_cons_of_neg (by simpa using outside), List.append_nil]

/-- A run of three that no marker of its own kind follows starts no emphasis inside a word. -/
theorem word_ends_nil (rest : s.rest = a :: a :: a :: (w ++ h)) (marker : isMarkerChar a = true) (word : Letters w)
    (behind : h.head?.all isMarkerChar = true) (other : h.head? ≠ some a) :
    (all [notBehind isMarkerChar, .group 1 (between 1 3 (.one isMarkerChar)),
      .group 2 (lazyPlus (noneOf "*_ ")), .backref 1, .notAhead (.one isMarkerChar)]).ends s = [] := by
  rw [List.eq_nil_iff_forall_not_mem]
  intro t mem
  simp only [mem_ends_all_cons, mem_ends_all_nil, mem_ends_group, mem_ends_notAhead, mem_ends_backref,
    notBehind, mem_ends_edge] at mem
  obtain ⟨s, ⟨rfl, -⟩, u, ⟨_, run, hu⟩, v, ⟨_, contents, hv⟩, _, ⟨again, rfl⟩, _, ⟨rfl, -⟩, rfl⟩ := mem
  obtain ⟨n, pos, most, rfl⟩ := mem_ends_rep_one.mp run
  obtain ⟨k, some_, le, rfl⟩ := mem_ends_rep_one.mp contents
  have three : n ≤ 3 := most.trans (Nat.min_le_right _ _)
  have rest_u : u.rest = s.rest.drop n := by rw [← hu]; rfl
  rw [rest_u, rest] at le
  have whole : n = 3 := by
    by_contra short
    have next : ((a :: a :: a :: (w ++ h)).drop n).head? = some a := by
      obtain rfl | rfl : n = 1 ∨ n = 2 := by omega
      · rfl
      · rfl
    cases tail : (a :: a :: a :: (w ++ h)).drop n with
    | nil => simp [tail] at next
    | cons c tail_ =>
        rw [tail, List.head?_cons, Option.some.injEq] at next
        rw [tail, next, runLength, Option.elim_none, List.takeWhile_cons_of_neg] at le
        · simp only [List.length_nil] at le
          omega
        · rw [not_plain_of_marker marker]
          exact Bool.noConfusion
  subst whole
  have outside : h.head?.any (fun c => !(bytes "*_ ").contains c) = false := by
    cases head : h.head? with
    | none => rfl
    | some c =>
        rw [head] at behind
        exact not_plain_of_marker behind
  have le' : k ≤ w.length := by
    change k ≤ ((w ++ h).takeWhile fun c => !(bytes "*_ ").contains c).length at le
    rwa [takeWhile_word (fun c mem => plain_of_alpha (word c mem)) outside] at le
  have group : (v.groups 1).getD [] = [a, a, a] := by
    rw [← hv, Spot.groups_capture_of_ne (by decide), Spot.groups_take, ← hu, Spot.groups_capture_self,
      (s.reads_take 3).upTo, rest]
    rfl
  have rest_v : v.rest = (w ++ h).drop k := by
    rw [← hv]
    change u.rest.drop k = _
    rw [rest_u, rest]
    rfl
  rw [group, rest_v, List.drop_append_of_le_length le'] at again
  cases left : w.drop k with
  | nil =>
      rw [left, List.nil_append] at again
      cases h with
      | nil => cases again
      | cons c h =>
          simp only [List.isPrefixOf_cons_cons, Bool.and_eq_true, beq_iff_eq] at again
          exact other (by rw [List.head?_cons, again.1])
  | cons c left_ =>
      rw [left, List.cons_append] at again
      simp only [List.isPrefixOf_cons_cons, Bool.and_eq_true, beq_iff_eq] at again
      have letter := word c (List.mem_of_mem_drop (left ▸ List.mem_cons_self))
      rw [← again.1] at letter
      rw [not_marker_of_alpha letter] at marker
      cases marker

theorem mem_ends_markers (edge : UInt8 → Option UInt8 → Option UInt8 → Bool) (rest : s.rest = a :: a :: a :: h)
    (marker : isMarkerChar a = true) (other : h.head? ≠ some a) :
    t ∈ (Pattern.alt (markerOf 42 (edge 42)) (markerOf 95 (edge 95))).ends s ↔
      edge a s.before.head? (some a) = true ∧ t = s.take 3 := by
  have run : s.rest.takeWhile (· = a) = [a, a, a] := by
    rw [rest]
    have all_ : ([a, a, a] ++ h).takeWhile (· = a) = [a, a, a] := by
      refine takeWhile_word ?_ ?_
      · simp
      · cases head : h.head? with
        | none => rfl
        | some c =>
            rw [Option.any_some, decide_eq_false_iff_not]
            exact fun same => other (by rw [head, same])
    exact all_
  have none_ : ∀ c, c ≠ a → s.rest.takeWhile (· = c) = [] := by
    intro c ne
    rw [rest, List.takeWhile_cons_of_neg (by simpa using Ne.symm ne)]
  have head : s.rest.head? = some a := by rw [rest, List.head?_cons]
  have here : t ∈ (markerOf a (edge a)).ends s ↔ edge a s.before.head? (some a) = true ∧ t = s.take 3 := by
    rw [mem_ends_markerOf, run, head]
    simp
  have apart : ∀ c, c ≠ a → ¬ t ∈ (markerOf c (edge c)).ends s := by
    intro c ne mem
    rw [mem_ends_markerOf, none_ c ne] at mem
    exact absurd mem.2.1 (by decide)
  rw [mem_ends_alt]
  simp only [isMarkerChar, Bool.or_eq_true, beq_iff_eq] at marker
  rcases marker with rfl | rfl
  · rw [here]
    exact or_iff_left (apart 95 (by decide))
  · rw [here]
    exact or_iff_right (apart 42 (by decide))

theorem ends_open (rest : s.rest = a :: a :: a :: (w ++ h)) (marker : isMarkerChar a = true) (first : s.before = [])
    (word : Letters w) (some_ : w ≠ []) (behind : h.head?.all isMarkerChar = true) (other : h.head? ≠ some a) :
    (cEmphasisExpression.ends s).head? = some (s.capture 3 (s.take 3)) := by
  obtain ⟨c, w, rfl⟩ := List.exists_cons_of_ne_nil some_
  have letter := word c List.mem_cons_self
  have ne : (c :: w ++ h).head? ≠ some a := by
    rw [List.cons_append, List.head?_cons, ne_eq, Option.some.injEq]
    rintro rfl
    rw [not_marker_of_alpha letter] at marker
    cases marker
  have rest₃ : (s.take 3).rest = c :: (w ++ h) := by
    rw [Spot.rest_take, rest]
    rfl
  have head₃ : ∀ f : UInt8 → Bool, f c = false → (s.take 3).rest.head?.any f = false := by
    intro f no
    rw [rest₃]
    exact no
  have stop : ∀ p, (all [oneOf ".,:;", p]).ends (s.take 3) = [] := fun p =>
    ends_eq_nil_of_begins (Begins.seq begins_one) (head₃ _ (not_stop_of_alpha letter))
  have none_ : blank.ends (s.take 3) = [] :=
    ends_one_eq_nil_iff.mpr (head₃ _ (by simpa using not_blank_of_alpha letter))
  rw [cEmphasisExpression_eq, ends_alt, word_ends_nil rest marker word behind other, List.nil_append, ends_alt,
    List.head?_append]
  have markers : ∀ v, v ∈ (Pattern.alt (markerOf 42 fun c _ => !c.any (· = 42))
      (markerOf 95 fun c _ => !c.any (· = 95))).ends s ↔ v = s.take 3 := by
    intro v
    rw [mem_ends_markers (fun d c _ => !c.any (· = d)) rest marker ne, first]
    exact and_iff_right rfl
  have next : (any.ends (s.take 3)).head? = some ((s.take 3).take 1) := by
    apply head?_eq_some_of_forall
    · intro t mem
      obtain ⟨_, _, _, rfl⟩ := mem_ends_one.mp mem
      rfl
    · exact mem_ends_one.mpr ⟨c, by rw [rest₃, List.head?_cons], rfl, rfl⟩
  have here : ((Pattern.group 3 (all [.alt (markerOf 42 fun c _ => !c.any (· = 42)) (markerOf 95 fun c _ => !c.any (· = 95)),
      .ahead any, .notAhead blank, .notAhead (all [oneOf ".,:;", blank]),
      .notAhead (all [oneOf ".,:;", lineEnd])])).ends s).head? = some (s.capture 3 (s.take 3)) := by
    apply head?_eq_some_of_forall
    · intro t mem
      obtain ⟨u, inner, rfl⟩ := mem_ends_group.mp mem
      simp only [mem_ends_all_cons, mem_ends_all_nil, mem_ends_notAhead, mem_ends_ahead, markers] at inner
      obtain ⟨_, rfl, _, ⟨w, ahead, rfl⟩, _, ⟨rfl, -⟩, _, ⟨rfl, -⟩, _, ⟨rfl, -⟩, rfl⟩ := inner
      rw [next] at ahead
      obtain rfl := Option.some.inj ahead
      rfl
    · refine mem_ends_group.mpr ⟨s.take 3, ?_, rfl⟩
      simp only [mem_ends_all_cons, mem_ends_all_nil, mem_ends_notAhead, mem_ends_ahead, markers]
      exact ⟨_, rfl, _, ⟨_, next, rfl⟩, _, ⟨rfl, none_⟩, _, ⟨rfl, stop _⟩, _, ⟨rfl, stop _⟩, rfl⟩
  rw [here]
  rfl

theorem ends_close {c : UInt8} {before : Bytes} (rest : s.rest = [b, b, b]) (marker : isMarkerChar b = true)
    (first : s.before = c :: before) (letter : isalpha c = true) :
    (cEmphasisExpression.ends s).head? = some (s.capture 4 (s.take 3)) := by
  have none_ : (s.take 3).rest = [] := by rw [Spot.rest_take, rest]; rfl
  have noOpen : (Pattern.group 3 (all [.alt (markerOf 42 fun c _ => !c.any (· = 42)) (markerOf 95 fun c _ => !c.any (· = 95)),
      .ahead any, .notAhead blank, .notAhead (all [oneOf ".,:;", blank]),
      .notAhead (all [oneOf ".,:;", lineEnd])])).ends s = [] := by
    rw [List.eq_nil_iff_forall_not_mem]
    intro t mem
    obtain ⟨u, inner, rfl⟩ := mem_ends_group.mp mem
    obtain ⟨v, markers, later⟩ := mem_ends_all_cons.mp inner
    obtain ⟨-, rfl⟩ := (mem_ends_markers (fun d c _ => !c.any (· = d)) rest marker (by simp)).mp markers
    obtain ⟨w, ahead, -⟩ := mem_ends_all_cons.mp later
    obtain ⟨x, next, -⟩ := mem_ends_ahead.mp ahead
    obtain ⟨d, head, -⟩ := mem_ends_one.mp (List.mem_of_mem_head? next)
    rw [none_] at head
    cases head
  rw [cEmphasisExpression_eq, ends_alt,
    word_ends_nil (w := []) (h := []) rest marker (List.forall_mem_nil _) rfl (by simp), List.nil_append, ends_alt,
    noOpen, List.nil_append]
  have closes : (!(s.before.head?.any fun e => e = b || e = 32)) = true := by
    have notMarker := not_marker_of_alpha letter
    rw [first, List.head?_cons, Option.any_some, Bool.not_eq_true', Bool.or_eq_false_iff, decide_eq_false_iff_not,
      decide_eq_false_iff_not]
    refine ⟨?_, not_blank_of_alpha letter⟩
    rintro rfl
    rw [marker] at notMarker
    cases notMarker
  have markers : ∀ v, v ∈ (Pattern.alt (markerOf 42 fun c _ => !c.any fun d => d = 42 || d = 32)
      (markerOf 95 fun c _ => !c.any fun d => d = 95 || d = 32)).ends s ↔ v = s.take 3 := by
    intro v
    rw [mem_ends_markers (fun d c _ => !c.any fun e => e = d || e = 32) rest marker (by simp)]
    exact and_iff_right closes
  apply head?_eq_some_of_forall
  · intro t mem
    obtain ⟨u, inner, rfl⟩ := mem_ends_group.mp mem
    rw [(markers u).mp inner]
  · exact mem_ends_group.mpr ⟨s.take 3, (markers _).mpr rfl, rfl⟩

theorem begins_cEmphasisExpression : Begins isMarkerChar cEmphasisExpression := by
  have markers : ∀ c edge, isMarkerChar c = true → Begins isMarkerChar (markerOf c edge) := by
    intro c edge marker
    refine Begins.seq_edge (Begins.seq (Begins.rep (Begins.mono begins_one fun d same => ?_) (by decide)))
    exact of_decide_eq_true same ▸ marker
  rw [cEmphasisExpression_eq]
  refine .alt ?_ (.alt ?_ ?_)
  · exact .seq_edge (.seq (.group (.rep begins_one (by decide))))
  · exact .group (.seq (.alt (markers 42 _ rfl) (markers 95 _ rfl)))
  · exact .group (.alt (markers 42 _ rfl) (markers 95 _ rfl))

theorem search_open (markerA : isMarkerChar a = true) (markerB : isMarkerChar b = true) (ne : a ≠ b)
    (word : Letters w) (some_ : w ≠ []) :
    ∃ m, cEmphasisExpression.search ([a, a, a] ++ w ++ [b, b, b]) = some m ∧ m.pre = [] ∧ m.post = w ++ [b, b, b] ∧
      emphasisTokens m = [newMarker true [a, a, a]] := by
  have first := ends_open (s := ⟨[], [a, a, a] ++ w ++ [b, b, b], fun _ => none⟩) (w := w) (h := [b, b, b]) rfl
    markerA rfl word some_ (by simpa using markerB) (by simpa using Ne.symm ne)
  refine ⟨_, searchFrom_of_ends first, rfl, rfl, emphasisTokens_open ?_⟩
  exact (Spot.groups_capture_self 3).trans (congrArg some (Spot.reads_take _ 3).upTo)

theorem search_close (marker : isMarkerChar b = true) (word : Letters w) (some_ : w ≠ []) :
    ∃ m, cEmphasisExpression.search (w ++ [b, b, b]) = some m ∧ m.pre = w ∧ m.post = [] ∧
      emphasisTokens m = [newMarker false [b, b, b]] := by
  have skip : cEmphasisExpression.search (w ++ [b, b, b]) = searchFrom cEmphasisExpression (w.reverse ++ []) [b, b, b] :=
    searchFrom_skip begins_cEmphasisExpression fun c mem => not_marker_of_alpha (word c mem)
  obtain ⟨c, before, last⟩ := List.exists_cons_of_ne_nil (l := w.reverse) (by simpa using some_)
  have letter : isalpha c = true := word c (List.mem_reverse.mp (last ▸ List.mem_cons_self))
  rw [skip, List.append_nil]
  have first := ends_close (s := ⟨w.reverse, [b, b, b], fun _ => none⟩) rfl marker last letter
  refine ⟨_, searchFrom_of_ends first, List.reverse_reverse w, rfl, emphasisTokens_close ?_ ?_⟩
  · rfl
  · exact (Spot.groups_capture_self 4).trans (congrArg some (Spot.reads_take _ 3).upTo)

theorem emphasisScan_clash (markerA : isMarkerChar a = true) (markerB : isMarkerChar b = true) (ne : a ≠ b)
    (word : Letters w) (some_ : w ≠ []) :
    emphasisScan ([a, a, a] ++ w ++ [b, b, b]) =
      .ok [newMarker true [a, a, a], .rawText w, newMarker false [b, b, b]] := by
  obtain ⟨m₁, found₁, pre₁, post₁, tokens₁⟩ := search_open markerA markerB ne word some_
  obtain ⟨m₂, found₂, pre₂, post₂, tokens₂⟩ := search_close markerB word some_
  have last : cEmphasisExpression.search [] = none := search_eq_none_of_needs needs_cEmphasisExpression (by simp)
  have length : ([a, a, a] ++ w ++ [b, b, b]).length + 1 = w.length + 4 + 1 + 1 + 1 := by simp
  rw [emphasisScan, searchEach, length, searchAll_of_some found₁, post₁, searchAll_of_some found₂, post₂,
    searchAll_of_none last]
  change Except.ok ((rawTextUnlessEmpty m₁.pre ++ emphasisTokens m₁) ++
    ((rawTextUnlessEmpty m₂.pre ++ emphasisTokens m₂) ++ []) ++ rawTextUnlessEmpty []) = _
  rw [pre₁, tokens₁, pre₂, tokens₂, rawTextUnlessEmpty, if_pos rfl, rawTextUnlessEmpty, if_neg some_]
  rfl

theorem emphasise_clash (markerA : isMarkerChar a = true) (markerB : isMarkerChar b = true) (ne : a ≠ b)
    (word : Letters w) (some_ : w ≠ []) (fuel : Nat) :
    emphasise fuel ([a, a, a] ++ w ++ [b, b, b]) = .error .endless := by
  rw [emphasise_eq (emphasisScan_clash markerA markerB ne word some_)]
  have dead : ∀ token ∈ [Token.rawText w], ¬ Alive token := by
    refine List.forall_mem_singleton.mpr ?_
    intro ⟨m, same, _⟩
    cases same
  have endless : matchMarkers fuel 0 ([] ++ newMarker true [a, a, a] :: ([.rawText w] ++ [newMarker false [b, b, b]])) =
      none := matchMarkers_endless (List.forall_mem_nil _) rfl rfl dead rfl rfl (Ne.symm ne) 0 fuel
  change (matchMarkers fuel 0 [newMarker true [a, a, a], .rawText w, newMarker false [b, b, b]]).elim _ _ = _
  exact congrArg (fun out => Option.elim out (.error .endless) (unmatchLoop [] [])) endless

end Word
end TscServer.Proof
