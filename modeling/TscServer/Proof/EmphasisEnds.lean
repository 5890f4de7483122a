import TscServer.Proof.Emphasis

/-!
# The end of the matching

Markers of size three are split, and the matching goes over their parts. It comes to an end unless an open
one meets a close one of the other character, which then are split without getting smaller.
-/

namespace TscServer.Proof
open Lib Pattern Model Markdown Spec

/-- What a token counts: a marker that can be split counts more than all that its split leaves. -/
def weight : Token → Nat
  | .marker m => if m.size = 3 ∧ m.disabled = false then 4 else 1
  | _ => 1

def totalWeight (tokens : List Token) : Nat := tokens.foldr (fun token total => weight token + total) 0

abbrev Agree (a b : Token) : Prop :=
  ∀ m n : Marker, a = .marker m → b = .marker n → m.isOpen = true → n.isOpen = false → m.size = 3 →
    n.size = 3 → m.tokenCharacter = n.tokenCharacter

def Sized : Token → Prop
  | .marker m => 0 < m.size ∧ m.size ≤ 3 ∧ (m.disabled = true → m.cannotMatch = true)
  | _ => True

section Weights
variable {o c : Marker} {token c' : Token} {tokens after out : List Token}

theorem totalWeight_cons : totalWeight (token :: tokens) = weight token + totalWeight tokens := rfl

theorem totalWeight_append : totalWeight (after ++ out) = totalWeight after + totalWeight out := by
  induction after with
  | nil => exact (Nat.zero_add _).symm
  | cons token after ih => rw [List.cons_append, totalWeight_cons, totalWeight_cons, ih, Nat.add_assoc]

theorem weight_pos : 0 < weight token := by
  unfold weight
  split
  · split_ifs <;> decide
  · decide

theorem weight_of_small (small : c.size ≠ 3) : weight (.marker c) = 1 := by
  rw [weight, if_neg fun three => small three.1]

theorem weight_of_three (three : c.size = 3) (shown : c.disabled = false) : weight (.marker c) = 4 := by
  rw [weight, if_pos ⟨three, shown⟩]

theorem weight_disable : weight (.marker c.disable) = 1 := by
  rw [weight, if_neg fun three => by simp [Marker.disable] at three]

theorem shown_of_sized_alive (sized : Sized (.marker c)) (alive : c.isUnmatchedCloseMarker = true) :
    c.disabled = false := by
  cases shown : c.disabled with
  | false => rfl
  | true => simp [Marker.isUnmatchedCloseMarker, sized.2.2 shown] at alive

theorem shown_of_sized_startable (sized : Sized (.marker o)) (startable : o.isUnmatchedOpenMarker = true) :
    o.disabled = false := by
  cases shown : o.disabled with
  | false => rfl
  | true => simp [Marker.isUnmatchedOpenMarker, sized.2.2 shown] at startable

theorem closes_of_alive (alive : c.isUnmatchedCloseMarker = true) : c.isOpen = false := by
  simp only [Marker.isUnmatchedCloseMarker, Bool.and_eq_true, Bool.not_eq_true'] at alive
  exact alive.1.1

theorem opens_of_startable (startable : o.isUnmatchedOpenMarker = true) : o.isOpen = true := by
  simp only [Marker.isUnmatchedOpenMarker, Bool.and_eq_true] at startable
  exact startable.1.1

/-- What the tokens have come to weighs no more and clashes with nothing new. -/
structure Tamer (tokens out : List Token) : Prop where
  lighter : totalWeight out ≤ totalWeight tokens
  sized : ∀ token ∈ out, Sized token
  clash : ∀ token, ClashFree (token :: tokens) → ClashFree (token :: out)

theorem Tamer.refl (sized : ∀ token ∈ tokens, Sized token) : Tamer tokens tokens :=
  ⟨Nat.le_refl _, sized, fun _ => id⟩

theorem clashFree_cons : ClashFree (token :: tokens) ↔ (∀ t ∈ tokens, Agree token t) ∧ ClashFree tokens :=
  List.pairwise_cons

theorem Tamer.cons {here there : Token} (sized : Sized there) (lighter : weight there ≤ weight here)
    (before : ∀ token, Agree token here → Agree token there) (behind : ∀ token, Agree here token → Agree there token)
    (rest : Tamer after out) : Tamer (here :: after) (there :: out) where
  lighter := by
    rw [totalWeight_cons, totalWeight_cons]
    exact Nat.add_le_add lighter rest.lighter
  sized := List.forall_mem_cons.mpr ⟨sized, rest.sized⟩
  clash := by
    intro token free
    obtain ⟨agree, free'⟩ := clashFree_cons.mp free
    obtain ⟨here_, others⟩ := List.forall_mem_cons.mp agree
    obtain ⟨agreeHere, freeAfter⟩ := clashFree_cons.mp free'
    have outer := clashFree_cons.mp (rest.clash token (clashFree_cons.mpr ⟨others, freeAfter⟩))
    have inner := clashFree_cons.mp (rest.clash here free')
    refine clashFree_cons.mpr ⟨List.forall_mem_cons.mpr ⟨before token here_, outer.1⟩, ?_⟩
    exact clashFree_cons.mpr ⟨fun t mem => behind t (inner.1 t mem), inner.2⟩

theorem clashFree_drop (free : ClashFree (token :: c' :: after)) : ClashFree (token :: after) := by
  obtain ⟨agree, free'⟩ := clashFree_cons.mp free
  exact clashFree_cons.mpr ⟨(List.forall_mem_cons.mp agree).2, (clashFree_cons.mp free').2⟩

theorem agree_of_close (closes : c.isOpen = false) : Agree (.marker c) token := by
  intro m n same _ opens
  cases same
  rw [closes] at opens
  cases opens

theorem agree_closing {size : Nat} (small : size ≠ 3) : Agree token (closing c size) := by
  intro m n _ same _ _ _ big
  cases same
  exact absurd big small

theorem clashFree_split {size size' : Nat} (small : size ≠ 3) (small' : size' ≠ 3)
    (free : ClashFree (token :: c' :: after)) : ClashFree (token :: closing c size :: closing c size' :: after) := by
  obtain ⟨agree, free'⟩ := clashFree_cons.mp (clashFree_drop free)
  refine clashFree_cons.mpr ⟨?_, clashFree_cons.mpr ⟨fun t _ => agree_of_close rfl, ?_⟩⟩
  · exact List.forall_mem_cons.mpr ⟨agree_closing small, List.forall_mem_cons.mpr ⟨agree_closing small', agree⟩⟩
  · exact clashFree_cons.mpr ⟨fun t _ => agree_of_close rfl, free'⟩

theorem Tamer.split {size : Nat} (sized : Sized (.marker c)) (alive : c.isUnmatchedCloseMarker = true)
    (three : c.size = 3) (pos : 0 < size) (lt : size < 3)
    (rest : Tamer (closing c (c.size - size) :: closing c size :: after) out) :
    Tamer (.marker c :: after) (.marker c.disable :: out) where
  lighter := by
    have le := rest.lighter
    rw [totalWeight_cons, totalWeight_cons, closing, closing, weight_of_small (by simp; omega),
      weight_of_small (by simp; omega)] at le
    rw [totalWeight_cons, totalWeight_cons, weight_disable, weight_of_three three (shown_of_sized_alive sized alive)]
    omega
  sized := List.forall_mem_cons.mpr ⟨⟨sized.1, sized.2.1, fun _ => rfl⟩, rest.sized⟩
  clash := by
    intro token free
    obtain ⟨agree, -⟩ := clashFree_cons.mp free
    obtain ⟨agreeHere, -⟩ := List.forall_mem_cons.mp agree
    obtain ⟨agreeOut, freeOut⟩ := clashFree_cons.mp (rest.clash token (clashFree_split (by omega) (by omega) free))
    refine clashFree_cons.mpr ⟨List.forall_mem_cons.mpr ⟨?_, agreeOut⟩, clashFree_cons.mpr ⟨?_, freeOut⟩⟩
    · intro m n same₁ same₂
      cases same₂
      exact agreeHere m c same₁ rfl
    · exact fun t _ => agree_of_close (c := c.disable) (closes_of_alive (c := c) alive)

end Weights

section Ends
variable {o c : Marker} {id fuel : Nat} {token : Token} {tokens after out : List Token}

theorem sized_new {char : UInt8} {isOpen : Bool} {size : Nat} (pos : 0 < size) (le : size ≤ 3) :
    Sized (.marker { isOpen, tokenCharacter := char, size }) :=
  ⟨pos, le, fun shown => by cases shown⟩

theorem agree_matched_right (token : Token) (agree : Agree token (.marker c)) :
    Agree token (.marker { c with matchId := some id }) := by
  intro m n same₁ same₂
  cases same₂
  exact agree m c same₁ rfl

theorem agree_matched_left (token : Token) (agree : Agree (.marker c) token) :
    Agree (.marker { c with matchId := some id }) token := by
  intro m n same₁ same₂
  cases same₁
  exact agree c n rfl same₂

def KeepsTame (o : Marker) (after : List Token) : Pairing → Prop
  | .unmatched out => Tamer after out
  | .matched out => Tamer after out
  | .split first second out =>
      (o.size = 3 ∧ ∃ a b, first = opening o a ∧ second = opening o b ∧ 0 < a ∧ a < 3 ∧ 0 < b ∧ b < 3) ∧
        Tamer after out

theorem KeepsTame.map {after' : List Token} {f : List Token → List Token} {r : Pairing}
    (step : ∀ out, Tamer after out → Tamer after' (f out)) (keeps : KeepsTame o after r) :
    KeepsTame o after' (r.map f) := by
  cases r with
  | unmatched out => exact step out keeps
  | matched out => exact step out keeps
  | split first second out => exact ⟨keeps.1, step out keeps.2⟩

theorem keepsTame_of_tryCloseMarkers {r : Pairing} (sizedOpen : Sized (.marker o)) (opens : o.isOpen = true)
    (run : tryCloseMarkers o id fuel after = some r) (sized : ∀ token ∈ after, Sized token)
    (free : ClashFree (.marker o :: after)) : KeepsTame o after r := by
  revert sized free
  refine tryCloseMarkers_induction (P := fun after r => (∀ token ∈ after, Sized token) →
    ClashFree (.marker o :: after) → KeepsTame o after r) ?_ ?_ ?_ ?_ ?_ ?_ run
  · exact fun sized _ => .refl sized
  · intro token after r _ ih sized free
    obtain ⟨first, rest⟩ := List.forall_mem_cons.mp sized
    refine (ih rest (clashFree_drop free)).map fun out tame => ?_
    exact tame.cons first (Nat.le_refl _) (fun _ h => h) fun _ h => h
  · intro c after r alive three other ih sized free
    obtain ⟨first, rest⟩ := List.forall_mem_cons.mp sized
    obtain ⟨pos, le, -⟩ := sizedOpen
    have parts : ∀ token ∈ closing c (c.size - o.size) :: closing c o.size :: after, Sized token := by
      refine List.forall_mem_cons.mpr ⟨sized_new ?_ ?_, List.forall_mem_cons.mpr ⟨sized_new pos le, rest⟩⟩
      · omega
      · omega
    refine (ih parts (clashFree_split (by omega) other free)).map fun out tame => ?_
    exact tame.split first alive three pos (by omega)
  · intro c after alive _ _ sized _
    obtain ⟨first, rest⟩ := List.forall_mem_cons.mp sized
    exact Tamer.cons first (Nat.le_refl _) (fun token => agree_matched_right token) agree_matched_left (.refl rest)
  · intro c after alive three other sized free
    obtain ⟨first, rest⟩ := List.forall_mem_cons.mp sized
    obtain ⟨agree, -⟩ := clashFree_cons.mp free
    have small : c.size ≠ 3 := by
      intro big
      refine other ⟨?_, big.trans three.symm⟩
      exact (agree _ List.mem_cons_self o c rfl rfl opens (closes_of_alive alive) three big).symm
    obtain ⟨pos, le, -⟩ := first
    exact ⟨⟨three, o.size - c.size, c.size, rfl, rfl, by omega, by omega, by omega, by omega⟩, .refl sized⟩
  · intro c after r _ ih sized free
    obtain ⟨first, rest⟩ := List.forall_mem_cons.mp sized
    refine (ih rest (clashFree_drop free)).map fun out tame => ?_
    exact tame.cons first (Nat.le_refl _) (fun _ h => h) fun _ h => h

theorem tryCloseMarkers_ends (sizedOpen : Sized (.marker o)) (enough : totalWeight after < fuel)
    (sized : ∀ token ∈ after, Sized token) : (tryCloseMarkers o id fuel after).isSome = true := by
  induction fuel generalizing after with
  | zero => omega
  | succ fuel ih =>
      cases after with
      | nil => rfl
      | cons token after =>
          obtain ⟨first, rest⟩ := List.forall_mem_cons.mp sized
          have more : totalWeight (token :: after) = weight token + totalWeight after := totalWeight_cons
          have pos : 0 < weight token := weight_pos
          by_cases alive : Alive token
          · obtain ⟨c, rfl, alive⟩ := alive
            by_cases splits : c.size = 3 ∧ o.size ≠ 3
            · rw [tryCloseMarkers_split alive splits.1 splits.2, Option.isSome_map]
              have heavy := weight_of_three splits.1 (shown_of_sized_alive first alive)
              have small := sizedOpen.2.1
              refine ih ?_ ?_
              · rw [totalWeight_cons, totalWeight_cons, closing, closing, weight_of_small, weight_of_small]
                · omega
                · exact splits.2
                · have := sizedOpen.1
                  simp only [splits.1]
                  omega
              · have pos := sizedOpen.1
                refine List.forall_mem_cons.mpr ⟨sized_new ?_ ?_, List.forall_mem_cons.mpr ⟨?_, rest⟩⟩
                · omega
                · omega
                · exact sized_new pos small
            · rw [tryCloseMarkers_meet alive fun three => by_contra fun other => splits ⟨three, other⟩]
              split_ifs
              · rfl
              · rfl
              · rw [Option.isSome_map]
                exact ih (by omega) rest
          · rw [tryCloseMarkers_skip alive, Option.isSome_map]
            exact ih (by omega) rest

theorem agree_opening {size : Nat} (small : size ≠ 3) : Agree (.marker (opening o size)) token := by
  intro m n same _ _ _ big
  cases same
  exact absurd big small

/-- The matching comes to an end when no open marker of size three stands before a close one of the other
character. -/
theorem matchMarkers_ends (enough : totalWeight tokens < fuel) (sized : ∀ token ∈ tokens, Sized token)
    (free : ClashFree tokens) : (matchMarkers fuel id tokens).isSome = true := by
  induction fuel generalizing id tokens with
  | zero => omega
  | succ fuel ih =>
      cases tokens with
      | nil => rfl
      | cons token after =>
          obtain ⟨first, rest⟩ := List.forall_mem_cons.mp sized
          have free' := (clashFree_cons.mp free).2
          rw [totalWeight_cons] at enough
          have pos : 0 < weight token := weight_pos
          by_cases startable : Startable token
          · obtain ⟨o, rfl, startable⟩ := startable
            have ends : (tryCloseMarkers o id fuel after).isSome = true := tryCloseMarkers_ends first (by omega) rest
            obtain ⟨r, run⟩ := Option.isSome_iff_exists.mp ends
            have keeps := keepsTame_of_tryCloseMarkers first (opens_of_startable startable) run rest free
            rw [matchMarkers_open startable, run, Option.bind_some]
            cases r with
            | unmatched out =>
                have tame : Tamer after out := keeps
                rw [Option.isSome_map]
                exact ih (by have := tame.lighter; omega) tame.sized (clashFree_cons.mp (tame.clash _ free)).2
            | matched out =>
                have tame : Tamer after out := keeps
                rw [Option.isSome_map]
                exact ih (by have := tame.lighter; omega) tame.sized (clashFree_cons.mp (tame.clash _ free)).2
            | split one two out =>
                obtain ⟨⟨three, a, b, rfl, rfl, ha, la, hb, lb⟩, tame⟩ := keeps
                rw [Option.isSome_map]
                have heavy := weight_of_three three (shown_of_sized_startable first startable)
                have lighter := tame.lighter
                refine ih ?_ ?_ ?_
                · rw [totalWeight_cons, totalWeight_cons, weight_of_small (by simp [opening]; omega),
                    weight_of_small (by simp [opening]; omega)]
                  omega
                · refine List.forall_mem_cons.mpr ⟨sized_new ha (by omega), ?_⟩
                  exact List.forall_mem_cons.mpr ⟨sized_new hb (by omega), tame.sized⟩
                · have behind := (clashFree_cons.mp (tame.clash _ free)).2
                  have freeTwo := clashFree_cons.mpr ⟨fun t _ => agree_opening (o := o) (by omega : b ≠ 3), behind⟩
                  exact clashFree_cons.mpr ⟨fun t _ => agree_opening (by omega), freeTwo⟩
          · rw [matchMarkers_skip startable, Option.isSome_map]
            exact ih (by omega) rest free'

end Ends

/-! ## Texts -/

section Texts
variable {fuel : Nat} {g text src : Bytes} {m : Match UInt8} {token : Token} {tokens : List Token}

def FromText (text : Bytes) (token : Token) : Prop :=
  ∀ m, token = .marker m →
    ∃ g, MarkerRun g ∧ g <:+: text ∧ m.size = g.length ∧ g.head? = some m.tokenCharacter

theorem fromText_newMarker {isOpen : Bool} (run : MarkerRun g) (inside : g <:+: text) :
    FromText text (newMarker isOpen g) := by
  intro m same
  cases same
  refine ⟨g, run, inside, rfl, ?_⟩
  cases g with
  | nil => exact absurd run.pos (by simp)
  | cons c g => rfl

theorem weight_newMarker (isOpen : Bool) (run : MarkerRun g) : weight (newMarker isOpen g) + 1 ≤ 2 * g.length := by
  have pos := run.pos
  rw [newMarker, weight]
  split_ifs with three
  · have size : g.length = 3 := three.1
    omega
  · omega

theorem rawTextUnlessEmpty_bounds (text src : Bytes) :
    totalWeight (rawTextUnlessEmpty text) ≤ 2 * text.length ∧ ∀ token ∈ rawTextUnlessEmpty text, FromText src token := by
  rw [rawTextUnlessEmpty]
  split_ifs with none_
  · exact ⟨Nat.zero_le _, List.forall_mem_nil _⟩
  · refine ⟨?_, List.forall_mem_singleton.mpr fun m same => by cases same⟩
    have pos := List.length_pos_of_ne_nil none_
    have one_ : totalWeight [Token.rawText text] = 1 := rfl
    omega

theorem emphasisTokens_bounds (found : cEmphasisExpression.search text = some m) (inside : m.span <:+: src) :
    totalWeight (emphasisTokens m) ≤ 2 * m.span.length ∧ ∀ token ∈ emphasisTokens m, FromText src token := by
  rcases emphasisTokens_cases found with ⟨isOpen, tokens_, run⟩ | ⟨g, contents, tokens_, run, span⟩
  · have light := weight_newMarker isOpen run
    have none_ : totalWeight [] = 0 := rfl
    rw [tokens_, totalWeight_cons]
    exact ⟨by omega, List.forall_mem_singleton.mpr (fromText_newMarker run inside)⟩
  · have lightOpen := weight_newMarker true run
    have lightClose := weight_newMarker false run
    have none_ : totalWeight [] = 0 := rfl
    have one_ : weight (.rawText contents) = 1 := rfl
    have here : g <:+: src := by
      refine List.IsInfix.trans ?_ inside
      rw [span, List.append_assoc]
      exact List.infix_append' [] g _
    rw [tokens_, totalWeight_cons, totalWeight_cons, totalWeight_cons, span, List.length_append, List.length_append]
    refine ⟨by omega, List.forall_mem_cons.mpr ⟨fromText_newMarker run here, ?_⟩⟩
    exact List.forall_mem_cons.mpr
      ⟨fun m same => Token.noConfusion same, List.forall_mem_singleton.mpr (fromText_newMarker run here)⟩

theorem emphasisScan_bounds (scan : emphasisScan src = .ok tokens) :
    totalWeight tokens ≤ 2 * src.length ∧ ∀ token ∈ tokens, FromText src token := by
  obtain ⟨ms, rest, found, shape⟩ := emphasisScan_shape src
  obtain rfl := Except.ok.inj (scan.symm.trans shape)
  have each : ∀ m ∈ ms, totalWeight (emphasisTokens m) ≤ 2 * m.span.length ∧
      ∀ token ∈ emphasisTokens m, FromText src token := by
    intro m mem
    obtain ⟨text', suffix, here⟩ := mem_searchAll found m mem
    refine emphasisTokens_bounds here (List.IsInfix.trans ?_ suffix.isInfix)
    rw [search_split here, ← List.append_assoc]
    exact List.infix_append m.pre m.span m.post
  constructor
  · have joined := congrArg List.length (searchAll_join found)
    rw [totalWeight_append]
    have last := (rawTextUnlessEmpty_bounds rest src).1
    have matches_ : totalWeight (ms.flatMap fun m => rawTextUnlessEmpty m.pre ++ emphasisTokens m) ≤
        2 * (ms.flatMap fun m => m.pre ++ m.span).length := by
      clear found shape scan joined
      induction ms with
      | nil => exact Nat.zero_le _
      | cons m ms ih =>
          obtain ⟨here, others⟩ := List.forall_mem_cons.mp each
          have pre := (rawTextUnlessEmpty_bounds m.pre src).1
          have rest_ := ih others
          rw [List.flatMap_cons, totalWeight_append, totalWeight_append, List.flatMap_cons, List.length_append,
            List.length_append]
          omega
    rw [List.length_append] at joined
    omega
  · refine List.forall_mem_append.mpr ⟨?_, (rawTextUnlessEmpty_bounds _ _).2⟩
    intro token mem
    obtain ⟨m, here, inside⟩ := List.mem_flatMap.mp mem
    exact (List.mem_append.mp inside).elim ((rawTextUnlessEmpty_bounds _ _).2 token) ((each m here).2 token)

/-- A text that has only one of the marker characters, or no three of them side by side. -/
def Unclashing (src : Bytes) : Prop :=
  42 ∉ src ∨ 95 ∉ src ∨ ∀ g, g <:+: src → (∀ c ∈ g, isMarkerChar c = true) → g.length < 3

theorem clashFree_of_unclashing (unclashing : Unclashing src) (from_ : ∀ token ∈ tokens, FromText src token) :
    ClashFree tokens := by
  refine List.pairwise_of_forall_mem_list ?_
  intro a mema b memb m n ha hb _ _ big _
  obtain ⟨g, run, inside, size, head⟩ := from_ a mema m ha
  obtain ⟨g', run', inside', -, head'⟩ := from_ b memb n hb
  have char : ∀ {g : Bytes} {c : UInt8}, MarkerRun g → g <:+: src → g.head? = some c →
      isMarkerChar c = true ∧ c ∈ src := fun run inside head =>
    ⟨run.chars _ (List.mem_of_mem_head? head), inside.subset (List.mem_of_mem_head? head)⟩
  obtain ⟨marker, mem⟩ := char run inside head
  obtain ⟨marker', mem'⟩ := char run' inside' head'
  simp only [isMarkerChar, Bool.or_eq_true, beq_iff_eq] at marker marker'
  rcases unclashing with noStar | noLine | short
  · rcases marker with star_ | line
    · exact absurd (star_ ▸ mem) noStar
    · rcases marker' with star_ | line'
      · exact absurd (star_ ▸ mem') noStar
      · rw [line, line']
  · rcases marker with star_ | line
    · rcases marker' with star' | line
      · rw [star_, star']
      · exact absurd (line ▸ mem') noLine
    · exact absurd (line ▸ mem) noLine
  · have := short g inside run.chars
    omega

theorem sized_of_fresh (fresh : Fresh token) : Sized token := by
  cases token with
  | marker m => exact ⟨fresh.1, fresh.2.1, fun disabled => by simp [fresh.2.2.2] at disabled⟩
  | text kind contents => trivial
  | escapedCharacter char => trivial
  | image altText url title => trivial
  | container kind subTokens => trivial

/-- Only markers of three characters of both kinds can keep the matching from coming to an end. -/
theorem emphasise_ends (unclashing : Unclashing src) (enough : 2 * src.length < fuel) :
    ∃ tokens, emphasise fuel src = .ok tokens := by
  obtain ⟨scanned, scan, fresh, -⟩ := emphasisScan_eq_ok src
  obtain ⟨light, from_⟩ := emphasisScan_bounds scan
  have ends : (matchMarkers fuel 0 scanned).isSome = true := matchMarkers_ends (by omega)
    (fun token mem => sized_of_fresh (fresh token mem)) (clashFree_of_unclashing unclashing from_)
  obtain ⟨out, run⟩ := Option.isSome_iff_exists.mp ends
  obtain ⟨tokens, ok, -⟩ := emphasise_of_matchMarkers scan run
  exact ⟨tokens, ok⟩

end Texts

theorem emphasise_ends_strong : ∃ tokens, emphasise 16 (bytes "**a** b") = .ok tokens :=
  emphasise_ends (.inr (.inl (by decide))) (by decide)

end TscServer.Proof
