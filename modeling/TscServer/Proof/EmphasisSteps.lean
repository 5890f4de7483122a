import TscServer.Spec.Emphasis

/-!
# Steps of the matching

What one step of each loop over the markers does, and the inductions that follow the loops.
-/

namespace TscServer.Proof
open Lib Pattern Model Markdown Spec

def Alive (token : Token) : Prop := ∃ m, token = .marker m ∧ m.isUnmatchedCloseMarker = true

def Startable (token : Token) : Prop := ∃ m, token = .marker m ∧ m.isUnmatchedOpenMarker = true

section Steps
variable {o c : Marker} {id fuel : Nat} {token : Token} {after out : List Token} {r : Pairing}

def closing (c : Marker) (size : Nat) : Token :=
  .marker { isOpen := false, tokenCharacter := c.tokenCharacter, size }

def opening (o : Marker) (size : Nat) : Marker :=
  { isOpen := true, tokenCharacter := o.tokenCharacter, size }

theorem tryCloseMarkers_skip (dead : ¬ Alive token) :
    tryCloseMarkers o id (fuel + 1) (token :: after) =
      (tryCloseMarkers o id fuel after).map (.map (token :: ·)) := by
  cases token with
  | marker m =>
      rw [tryCloseMarkers, if_neg fun alive => dead ⟨m, rfl, alive⟩]
  | text kind contents => rfl
  | escapedCharacter char => rfl
  | image altText url title => rfl
  | container kind subTokens => rfl

theorem tryCloseMarkers_split (alive : c.isUnmatchedCloseMarker = true) (three : c.size = 3)
    (other : o.size ≠ 3) :
    tryCloseMarkers o id (fuel + 1) (.marker c :: after) =
      (tryCloseMarkers o id fuel (closing c (c.size - o.size) :: closing c o.size :: after)).map
        (.map (.marker c.disable :: ·)) := by
  rw [tryCloseMarkers, if_pos alive, if_pos ⟨three, other⟩]
  rfl

theorem tryCloseMarkers_meet (alive : c.isUnmatchedCloseMarker = true) (whole : c.size = 3 → o.size = 3) :
    tryCloseMarkers o id (fuel + 1) (.marker c :: after) =
      if c.tokenCharacter = o.tokenCharacter ∧ c.size = o.size then
        some (.matched (.marker { c with matchId := some id } :: after))
      else if o.size = 3 then
        some (.split (opening o (o.size - c.size)) (opening o c.size) (.marker c :: after))
      else (tryCloseMarkers o id fuel after).map (.map (.marker c :: ·)) := by
  rw [tryCloseMarkers, if_pos alive, if_neg fun split => split.2 (whole split.1)]
  rfl

theorem matchMarkers_skip (other : ¬ Startable token) :
    matchMarkers (fuel + 1) id (token :: after) = (matchMarkers fuel id after).map (token :: ·) := by
  cases token with
  | marker m =>
      rw [matchMarkers, if_neg fun startable => other ⟨m, rfl, startable⟩]
  | text kind contents => rfl
  | escapedCharacter char => rfl
  | image altText url title => rfl
  | container kind subTokens => rfl

theorem matchMarkers_open (startable : o.isUnmatchedOpenMarker = true) :
    matchMarkers (fuel + 1) id (.marker o :: after) =
      (tryCloseMarkers o id fuel after).bind fun
        | .unmatched after => (matchMarkers fuel id after).map (.marker o :: ·)
        | .matched after => (matchMarkers fuel (id + 1) after).map (.marker { o with matchId := some id } :: ·)
        | .split first second after =>
            (matchMarkers fuel id (.marker first :: .marker second :: after)).map (.marker o.disable :: ·) := by
  rw [matchMarkers, if_pos startable]
  cases tryCloseMarkers o id fuel after with
  | none => rfl
  | some r => cases r <;> rfl

theorem tryCloseMarkers_induction {P : List Token → Pairing → Prop} (unmatched : P [] (.unmatched []))
    (skip : ∀ token after r, ¬ Alive token → P after r → P (token :: after) (r.map (token :: ·)))
    (split : ∀ c after r, c.isUnmatchedCloseMarker = true → c.size = 3 → o.size ≠ 3 →
      P (closing c (c.size - o.size) :: closing c o.size :: after) r →
      P (.marker c :: after) (r.map (.marker c.disable :: ·)))
    (matched : ∀ c after, c.isUnmatchedCloseMarker = true → c.tokenCharacter = o.tokenCharacter →
      c.size = o.size → P (.marker c :: after) (.matched (.marker { c with matchId := some id } :: after)))
    (splitOpen : ∀ c after, c.isUnmatchedCloseMarker = true → o.size = 3 →
      ¬ (c.tokenCharacter = o.tokenCharacter ∧ c.size = o.size) →
      P (.marker c :: after) (.split (opening o (o.size - c.size)) (opening o c.size) (.marker c :: after)))
    (pass : ∀ c after r, c.isUnmatchedCloseMarker = true → P after r →
      P (.marker c :: after) (r.map (.marker c :: ·)))
    (run : tryCloseMarkers o id fuel after = some r) : P after r := by
  induction fuel generalizing after r with
  | zero => simp [tryCloseMarkers] at run
  | succ fuel ih =>
      cases after with
      | nil =>
          obtain rfl := Option.some.inj run
          exact unmatched
      | cons token after =>
          by_cases alive : Alive token
          · obtain ⟨c, rfl, alive⟩ := alive
            by_cases splits : c.size = 3 ∧ o.size ≠ 3
            · rw [tryCloseMarkers_split alive splits.1 splits.2] at run
              obtain ⟨r', ran, rfl⟩ := Option.map_eq_some_iff.mp run
              exact split c after r' alive splits.1 splits.2 (ih ran)
            · rw [tryCloseMarkers_meet alive fun three => by_contra fun other => splits ⟨three, other⟩] at run
              split_ifs at run with same three
              · obtain rfl := Option.some.inj run
                exact matched c after alive same.1 same.2
              · obtain rfl := Option.some.inj run
                exact splitOpen c after alive three same
              · obtain ⟨r', ran, rfl⟩ := Option.map_eq_some_iff.mp run
                exact pass c after r' alive (ih ran)
          · rw [tryCloseMarkers_skip alive] at run
            obtain ⟨r', ran, rfl⟩ := Option.map_eq_some_iff.mp run
            exact skip token after r' alive (ih ran)

/-- What holds of the tokens that the matching ends with, when each open marker keeps it. -/
theorem matchMarkers_induction {P : Nat → List Token → List Token → Prop} {tokens : List Token}
    (nil : ∀ id, P id [] [])
    (skip : ∀ id token after out, ¬ Startable token → P id after out → P id (token :: after) (token :: out))
    (unmatched : ∀ id fuel o after after' out, o.isUnmatchedOpenMarker = true →
      tryCloseMarkers o id fuel after = some (.unmatched after') → P id after' out →
      P id (.marker o :: after) (.marker o :: out))
    (matched : ∀ id fuel o after after' out, o.isUnmatchedOpenMarker = true →
      tryCloseMarkers o id fuel after = some (.matched after') → P (id + 1) after' out →
      P id (.marker o :: after) (.marker { o with matchId := some id } :: out))
    (split : ∀ id fuel o first second after after' out, o.isUnmatchedOpenMarker = true →
      tryCloseMarkers o id fuel after = some (.split first second after') →
      P id (.marker first :: .marker second :: after') out →
      P id (.marker o :: after) (.marker o.disable :: out))
    (run : matchMarkers fuel id tokens = some out) : P id tokens out := by
  induction fuel generalizing id tokens out with
  | zero => simp [matchMarkers] at run
  | succ fuel ih =>
      cases tokens with
      | nil =>
          obtain rfl := Option.some.inj run
          exact nil id
      | cons token after =>
          by_cases startable : Startable token
          · obtain ⟨o, rfl, startable⟩ := startable
            rw [matchMarkers_open startable] at run
            obtain ⟨r, tried, run⟩ := Option.bind_eq_some_iff.mp run
            cases r with
            | unmatched after' =>
                obtain ⟨out', ran, rfl⟩ := Option.map_eq_some_iff.mp run
                exact unmatched id fuel o after after' out' startable tried (ih ran)
            | matched after' =>
                obtain ⟨out', ran, rfl⟩ := Option.map_eq_some_iff.mp run
                exact matched id fuel o after after' out' startable tried (ih ran)
            | split first second after' =>
                obtain ⟨out', ran, rfl⟩ := Option.map_eq_some_iff.mp run
                exact split id fuel o first second after after' out' startable tried (ih ran)
          · rw [matchMarkers_skip startable] at run
            obtain ⟨out', ran, rfl⟩ := Option.map_eq_some_iff.mp run
            exact skip id token after out' startable (ih ran)

end Steps

end TscServer.Proof
