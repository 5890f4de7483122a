import TscServer.Spec.ConfigText

/-!
# The tokens of the config parser

`ParseToken` finds what stands at the front of the input, and the loop of `Parse` feeds the tokens that
it cuts the input into to the table of transitions.
-/

namespace TscServer.Proof
open Lib Model Spec

def codeFront : Bytes → Front UInt8 ConfigToken :=
  front false fun word rest => if rest = [] then .done else .token (.word word) rest

/-! ## The states of `ParseToken` -/

theorem parseToken_comment (value s : Bytes) :
    (parseToken .comment value s).1 = .eof ∧ s.dropWhile notLineEnd = [] ∨
      ∃ value' c, parseToken .comment value s = (.comment, value', (s.dropWhile notLineEnd).drop 1) ∧
        (s.dropWhile notLineEnd).head? = some c := by
  induction s generalizing value with
  | nil => exact .inl ⟨rfl, rfl⟩
  | cons c s ih =>
      rw [parseToken]
      split
      · rename_i ends
        have stop : notLineEnd c = false := by rcases ends with rfl | rfl <;> decide
        refine .inr ⟨value, c, ?_, ?_⟩ <;> simp [stop]
      · rename_i further
        have goes : notLineEnd c = true := by simpa [notLineEnd, and_comm] using further
        rw [List.dropWhile_cons_of_pos goes]
        exact ih (value ++ [c])

theorem parseToken_quoted {state : TokenParserState} {q : UInt8} (value s : Bytes)
    (quote : state = .singleQuote ∧ q = 39 ∨ state = .doubleQuote ∧ q = 34) :
    (parseToken state value s).1 = .error ∧ s.dropWhile (· != q) = [] ∨
      ∃ rest, parseToken state value s =
          (.normal, value ++ s.takeWhile (· != q) ++ [q], rest) ∧
        s.dropWhile (· != q) = q :: rest := by
  induction s generalizing value with
  | nil =>
      rcases quote with ⟨rfl, rfl⟩ | ⟨rfl, rfl⟩
      · exact .inl ⟨rfl, rfl⟩
      · exact .inl ⟨rfl, rfl⟩
  | cons c s ih =>
      have step : parseToken state value (c :: s) =
          if c = q then (.normal, value ++ [c], s) else parseToken state (value ++ [c]) s := by
        rcases quote with ⟨rfl, rfl⟩ | ⟨rfl, rfl⟩
        · rw [parseToken]
        · rw [parseToken]
      rw [step]
      by_cases same : c = q
      · subst same
        exact .inr ⟨s, by simp, by simp⟩
      · rw [if_neg same]
        have goes : (c != q) = true := by simpa using same
        simp only [List.dropWhile_cons, List.takeWhile_cons, goes, if_true]
        simpa using ih (value ++ [c])

theorem parseToken_normal (value s : Bytes) :
    (parseToken .normal value s).1 = .eof ∧ s.dropWhile (isWordByte false) = [] ∨
      parseToken .normal value s =
          (.normal, value ++ s.takeWhile (isWordByte false), s.dropWhile (isWordByte false)) ∧
        s.dropWhile (isWordByte false) ≠ [] := by
  induction s generalizing value with
  | nil => exact .inl ⟨rfl, rfl⟩
  | cons c s ih =>
      rw [parseToken]
      split
      · rename_i ends
        have stop : isWordByte false c = false := by
          rcases ends with rfl | rfl | rfl | rfl | rfl | rfl | rfl <;> decide
        refine .inr ⟨?_, ?_⟩ <;> simp [stop]
      · rename_i further
        have goes : isWordByte false c = true := by
          simp only [not_or] at further
          simp [isWordByte, further]
        rw [List.dropWhile_cons_of_pos goes, List.takeWhile_cons_of_pos goes]
        simpa using ih (value ++ [c])

/-! ## Rounds of the loop -/

-- the type and the value of a token
def tokenType : ConfigToken → TokenType × Bytes
  | .word text => (.normal, text)
  | .statementEnd => (.statementEnd, [59])
  | .startBlock => (.startBlock, [123])
  | .endBlock => (.endBlock, [125])

def takeToken (p : ParserState) (t : ConfigToken) : Option ParserState :=
  transition p (tokenType t).1 (tokenType t).2

def Takes (p : ParserState) (s : Bytes) : Front UInt8 ConfigToken → Prop
  | .done => ∀ fuel, parseLoop (fuel + 1) p s = finish p
  | .skip rest => rest.length < s.length ∧ ∀ fuel, ∃ fuel',
      parseLoop fuel p s = parseLoop fuel' p rest ∧ (s.length < fuel → rest.length < fuel')
  | .token t rest => rest.length < s.length ∧ ∀ fuel,
      parseLoop (fuel + 1) p s = (takeToken p t).bind fun p => parseLoop fuel p rest
  | .stuck => ∀ fuel, parseLoop fuel p s = none

section Round
variable {p : ParserState} {s rest value : Bytes} {t : ConfigToken}

theorem parseLoop_eof (here : (parseToken .initialWhitespace [] s).1 = .eof) (fuel : Nat) :
    parseLoop (fuel + 1) p s = finish p := by
  obtain ⟨value, rest, same⟩ : ∃ value rest, parseToken .initialWhitespace [] s = (.eof, value, rest) :=
    ⟨_, _, Prod.ext here rfl⟩
  rw [parseLoop, same]

theorem parseLoop_error (here : (parseToken .initialWhitespace [] s).1 = .error) (fuel : Nat) :
    parseLoop fuel p s = none := by
  obtain ⟨value, rest, same⟩ : ∃ value rest, parseToken .initialWhitespace [] s = (.error, value, rest) :=
    ⟨_, _, Prod.ext here rfl⟩
  cases fuel with
  | zero => rfl
  | succ fuel =>
      rw [parseLoop, same]
      rfl

theorem parseLoop_comment (here : parseToken .initialWhitespace [] s = (.comment, value, rest))
    (fuel : Nat) : parseLoop (fuel + 1) p s = parseLoop fuel p rest := by
  rw [parseLoop, here]

theorem parseLoop_token
    (here : parseToken .initialWhitespace [] s = ((tokenType t).1, (tokenType t).2, rest)) (fuel : Nat) :
    parseLoop (fuel + 1) p s = (takeToken p t).bind fun p => parseLoop fuel p rest := by
  rw [parseLoop, here]
  cases t <;> rfl

theorem parseLoop_blank {c : UInt8} (blank : isBlank c = true) (fuel : Nat) :
    parseLoop fuel p (c :: s) = parseLoop fuel p s := by
  have ends : c = 32 ∨ c = 9 ∨ c = 10 ∨ c = 13 := by simpa [isBlank, or_assoc] using blank
  have same : parseToken .initialWhitespace [] (c :: s) = parseToken .initialWhitespace [] s := by
    rw [parseToken]
    rcases ends with rfl | rfl | rfl | rfl <;> rfl
  cases fuel with
  | zero => rfl
  | succ fuel => rw [parseLoop, parseLoop, same]

theorem dropWhile_lt {q : UInt8 → Bool} {c : UInt8} : (s.dropWhile q).length < (c :: s).length :=
  Nat.lt_succ_of_le (List.dropWhile_suffix q).length_le

theorem takes_comment : Takes p (35 :: s) (.skip ((s.dropWhile notLineEnd).drop 1)) := by
  have start : parseToken .initialWhitespace [] (35 :: s) = parseToken .comment [35] s := rfl
  have shorter : ((s.dropWhile notLineEnd).drop 1).length < (35 :: s).length :=
    lt_of_le_of_lt (List.drop_suffix 1 _).length_le dropWhile_lt
  refine ⟨shorter, fun fuel => ?_⟩
  cases fuel with
  | zero => exact ⟨0, rfl, fun less => absurd less (Nat.not_lt_zero _)⟩
  | succ fuel =>
      rcases parseToken_comment [35] s with ⟨eof, none⟩ | ⟨value, c, comment, -⟩
      · refine ⟨1, ?_, fun _ => by simp [none]⟩
        rw [parseLoop_eof (by rwa [start]), none, List.drop_nil, parseLoop_eof rfl]
      · refine ⟨fuel, parseLoop_comment (by rwa [start]) fuel, fun enough => ?_⟩
        exact Nat.lt_of_lt_of_le shorter (Nat.le_of_lt_succ enough)

-- what stands at the front behind a quote
def quotedFront (q : UInt8) (s : Bytes) : Front UInt8 ConfigToken :=
  match s.dropWhile (· != q) with
  | [] => .stuck
  | _ :: rest => .token (.word (q :: s.takeWhile (· != q) ++ [q])) rest

theorem takes_quoted {q : UInt8} (quote : isQuote q = true) :
    Takes p (q :: s) (codeFront (q :: s)) := by
  obtain ⟨state, start, here, kind⟩ : ∃ state,
      parseToken .initialWhitespace [] (q :: s) = parseToken state [q] s ∧
      codeFront (q :: s) = quotedFront q s ∧
      (state = .singleQuote ∧ q = 39 ∨ state = .doubleQuote ∧ q = 34) := by
    have either : q = 34 ∨ q = 39 := by simpa [isQuote] using quote
    rcases either with rfl | rfl
    · exact ⟨.doubleQuote, rfl, rfl, .inr ⟨rfl, rfl⟩⟩
    · exact ⟨.singleQuote, rfl, rfl, .inl ⟨rfl, rfl⟩⟩
  rcases parseToken_quoted [q] s kind with ⟨error, none⟩ | ⟨rest, token, found⟩
  · rw [here, quotedFront, none]
    exact parseLoop_error (by rwa [start])
  · rw [here, quotedFront, found]
    have shorter : rest.length < (q :: s).length := by
      have less := (List.dropWhile_suffix (p := (· != q)) (l := s)).length_le
      rw [found, List.length_cons] at less
      exact Nat.lt_succ_of_lt less
    refine ⟨shorter, fun fuel => parseLoop_token ?_ fuel⟩
    rw [start, token]
    rfl

theorem takes_run {c : UInt8} (start : parseToken .initialWhitespace [] (c :: s) = parseToken .normal [c] s) :
    Takes p (c :: s) (if s.dropWhile (isWordByte false) = [] then .done
      else .token (.word (c :: s.takeWhile (isWordByte false))) (s.dropWhile (isWordByte false))) := by
  rcases parseToken_normal [c] s with ⟨eof, none⟩ | ⟨token, more⟩
  · rw [if_pos none]
    exact parseLoop_eof (by rwa [start])
  · rw [if_neg more]
    exact ⟨dropWhile_lt, fun fuel => parseLoop_token (by rw [start, token]; rfl) fuel⟩

theorem takes_front (p : ParserState) (s : Bytes) : Takes p s (codeFront s) := by
  cases s with
  | nil => exact parseLoop_eof rfl
  | cons c s =>
      by_cases blank : isBlank c = true
      · rw [codeFront, front, if_pos blank]
        exact ⟨Nat.lt_succ_self _, fun fuel =>
          ⟨fuel, parseLoop_blank blank fuel, fun enough => Nat.lt_of_succ_lt enough⟩⟩
      · by_cases quote : isQuote c = true
        · exact takes_quoted quote
        · by_cases comment : c = 35
          · subst comment
            exact takes_comment
          · rw [codeFront, front, if_neg blank, if_neg comment]
            split
            · rename_i same
              subst same
              exact ⟨Nat.lt_succ_self _, fun fuel => parseLoop_token rfl fuel⟩
            · split
              · rename_i same
                subst same
                exact ⟨Nat.lt_succ_self _, fun fuel => parseLoop_token rfl fuel⟩
              · split
                · rename_i same
                  subst same
                  exact ⟨Nat.lt_succ_self _, fun fuel => parseLoop_token rfl fuel⟩
                · rename_i noSemicolon noOpen noClose
                  apply takes_run
                  simp only [isBlank, isQuote, Bool.or_eq_true, beq_iff_eq, not_or] at blank quote
                  rw [parseToken]
                  simp [blank, quote, comment, noSemicolon, noOpen, noClose]

end Round

/-! ## The whole input -/

def takeTokens (p : ParserState) (ts : List ConfigToken) : Option ParserState := ts.foldlM takeToken p

/-- The loop feeds the tokens of the input to the transitions, and fails where it cannot be cut. By
induction on the length of the input. -/
theorem parseLoop_cuts (s : Bytes) :
    (∃ ts, Cuts s ts ∧ ∀ fuel p, s.length < fuel →
      parseLoop fuel p s = (takeTokens p ts).bind finish) ∨
    ((∀ ts, ¬ Cuts s ts) ∧ ∀ fuel p, parseLoop fuel p s = none) := by
  induction length : s.length using Nat.strong_induction_on generalizing s with
  | _ n ih =>
    subst length
    cases here : codeFront s with
    | done =>
        refine .inl ⟨[], .done here, fun fuel p enough => ?_⟩
        obtain ⟨fuel, rfl⟩ := Nat.exists_eq_succ_of_ne_zero (Nat.ne_of_gt (Nat.zero_lt_of_lt enough))
        have round := takes_front p s
        rw [here] at round
        exact round fuel
    | skip rest =>
        have round p := takes_front p s
        rw [here] at round
        rcases ih rest.length (round {}).1 rest rfl with ⟨ts, cuts, ran⟩ | ⟨uncut, fails⟩
        · refine .inl ⟨ts, .skip here cuts, fun fuel p enough => ?_⟩
          obtain ⟨fuel', same, enough'⟩ := (round p).2 fuel
          rw [same, ran fuel' p (enough' enough)]
        · refine .inr ⟨fun ts cuts => uncut ts ((scans_skip_iff here).mp cuts), fun fuel p => ?_⟩
          obtain ⟨fuel', same, -⟩ := (round p).2 fuel
          rw [same, fails]
    | token t rest =>
        have round p := takes_front p s
        rw [here] at round
        rcases ih rest.length (round {}).1 rest rfl with ⟨ts, cuts, ran⟩ | ⟨uncut, fails⟩
        · refine .inl ⟨t :: ts, .token here cuts, fun fuel p enough => ?_⟩
          obtain ⟨fuel, rfl⟩ := Nat.exists_eq_succ_of_ne_zero (Nat.ne_of_gt (Nat.zero_lt_of_lt enough))
          have enough' : rest.length < fuel :=
            Nat.lt_of_lt_of_le (round p).1 (Nat.le_of_lt_succ enough)
          rw [(round p).2 fuel, takeTokens, List.foldlM_cons]
          cases takeToken p t with
          | none => rfl
          | some p' => exact ran fuel p' enough'
        · refine .inr ⟨fun ts cuts => ?_, fun fuel p => ?_⟩
          · obtain ⟨us, -, cuts⟩ := (scans_token_iff here).mp cuts
            exact uncut us cuts
          · cases fuel with
            | zero => rfl
            | succ fuel =>
                rw [(round p).2 fuel]
                cases takeToken p t with
                | none => rfl
                | some p' => exact fails fuel p'
    | stuck =>
        refine .inr ⟨fun ts => not_scans_of_stuck here, fun fuel p => ?_⟩
        have round := takes_front p s
        rw [here] at round
        exact round fuel

theorem parse_iff_cuts {s : Bytes} {config : NginxConfig} :
    NginxConfig.parse s = some config ↔
      ∃ ts, Cuts s ts ∧ (takeTokens {} ts).bind finish = some config := by
  rw [NginxConfig.parse]
  rcases parseLoop_cuts s with ⟨ts, cuts, ran⟩ | ⟨uncut, fails⟩
  · rw [ran _ _ (Nat.lt_succ_self _)]
    constructor
    · exact fun same => ⟨ts, cuts, same⟩
    · intro same
      obtain ⟨ts', cuts', same⟩ := same
      rwa [scans_unique cuts cuts']
  · rw [fails]
    constructor
    · intro never
      cases never
    · intro same
      obtain ⟨ts, cuts, -⟩ := same
      exact absurd cuts (uncut ts)

end TscServer.Proof
