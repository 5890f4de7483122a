import TscServer.Proof.ConfigGrammar

/-!
# What the config parser accepts

The parser cuts a text as the grammar has it as long as no word contains a carriage return and the
text does not end in a word. Where it cuts otherwise, it accepts a text of the grammar only by
returning another tree.
-/

namespace TscServer.Proof
open Lib Model Spec

theorem grammar_unique {returnEnds : Bool} {s : Bytes} {config config' : NginxConfig}
    (grammar : Grammar returnEnds s config) (grammar' : Grammar returnEnds s config') :
    config = config' := by
  obtain ⟨ts, lexes, tree⟩ := grammar
  obtain ⟨ts', lexes', tree'⟩ := grammar'
  rw [scans_unique lexes' lexes] at tree'
  exact Option.some.inj ((finish_of_parseTree tree).symm.trans (finish_of_parseTree tree'))

/-! ## Three ways to cut -/

section Front
variable {returnEnds : Bool} {c : UInt8} {s : Bytes} {ts : List ConfigToken}

-- the first byte of a word that is not quoted
def StartsRun (c : UInt8) : Prop :=
  isBlank c = false ∧ c ≠ 35 ∧ c ≠ 59 ∧ c ≠ 123 ∧ c ≠ 125 ∧ isQuote c = false

theorem front_run (starts : StartsRun c) (run : Bytes → Bytes → Front UInt8 ConfigToken) :
    front returnEnds run (c :: s) =
      run (c :: s.takeWhile (isWordByte returnEnds)) (s.dropWhile (isWordByte returnEnds)) := by
  obtain ⟨blank, comment, semicolon, opens, closes, quote⟩ := starts
  simp [front, blank, comment, semicolon, opens, closes, quote]

theorem front_other {returnEnds' : Bool} {run run' : Bytes → Bytes → Front UInt8 ConfigToken}
    (other : ∀ c ∈ s.head?, ¬ StartsRun c) :
    front returnEnds run s = front returnEnds' run' s := by
  cases s with
  | nil => rfl
  | cons c s =>
      have here := other c rfl
      rw [front, front]
      split
      · rfl
      · split
        · rfl
        · split
          · rfl
          · split
            · rfl
            · split
              · rfl
              · split
                · rfl
                · rename_i blank comment semicolon opens closes quote
                  refine absurd ⟨?_, comment, semicolon, opens, closes, ?_⟩ here
                  · simpa using blank
                  · simpa using quote

theorem isWordByte_true_iff : isWordByte true c = true ↔ isWordByte false c = true ∧ c ≠ 13 := by
  simp [isWordByte]
  tauto

theorem run_of_no_return (none : returnEnds = true → 13 ∉ s.takeWhile (isWordByte false)) :
    s.takeWhile (isWordByte returnEnds) = s.takeWhile (isWordByte false) ∧
      s.dropWhile (isWordByte returnEnds) = s.dropWhile (isWordByte false) := by
  cases returnEnds with
  | false => exact ⟨rfl, rfl⟩
  | true =>
      have absent := none rfl
      clear none
      induction s with
      | nil => exact ⟨rfl, rfl⟩
      | cons c s ih =>
          by_cases goes : isWordByte false c = true
          · rw [List.takeWhile_cons_of_pos goes, List.mem_cons, not_or] at absent
            have goes' : isWordByte true c = true := isWordByte_true_iff.mpr ⟨goes, Ne.symm absent.1⟩
            obtain ⟨same, rest⟩ := ih absent.2
            simp [goes, goes', same, rest]
          · have stops : ¬ isWordByte true c = true := fun more => goes (isWordByte_true_iff.mp more).1
            simp [goes, stops]

theorem no_return_of_run : 13 ∉ s.takeWhile (isWordByte true) := fun mem =>
  (isWordByte_true_iff.mp (List.mem_takeWhile_imp mem)).2 rfl

theorem run_or_other (s : Bytes) :
    (∃ c s', s = c :: s' ∧ StartsRun c) ∨ ∀ c ∈ s.head?, ¬ StartsRun c := by
  cases s with
  | nil => exact .inr fun c mem => by cases mem
  | cons c s =>
      by_cases starts : StartsRun c
      · exact .inl ⟨c, s, rfl, starts⟩
      · exact .inr fun d mem => by rwa [← Option.some.inj mem]

/-- A regular text is cut in one way. By induction on its tokens. -/
theorem cuts_of_regular (regular : Regular returnEnds s) : ∃ ts, Cuts s ts ∧ Lexes returnEnds s ts := by
  obtain ⟨ts, regular⟩ := regular
  refine ⟨ts, ?_⟩
  induction regular with
  | @done s here =>
      rcases run_or_other s with ⟨c, s', rfl, starts⟩ | other
      · rw [front_run starts] at here
        split at here
        · cases here
        · cases here
      · exact ⟨.done ((front_other other).trans here), .done ((front_other other).trans here)⟩
  | @skip s rest ts here _ ih =>
      rcases run_or_other s with ⟨c, s', rfl, starts⟩ | other
      · rw [front_run starts] at here
        split at here
        · cases here
        · cases here
      · exact ⟨.skip ((front_other other).trans here) ih.1,
          .skip ((front_other other).trans here) ih.2⟩
  | @token s rest t ts here _ ih =>
      rcases run_or_other s with ⟨c, s', rfl, starts⟩ | other
      · rw [front_run starts] at here
        split at here
        · cases here
        · rename_i whole
          obtain ⟨more, free⟩ := not_or.mp whole
          obtain ⟨rfl, rfl⟩ := Front.token.inj here
          have none : returnEnds = true → 13 ∉ s'.takeWhile (isWordByte false) :=
            fun ends mem => free ⟨ends, List.mem_cons_of_mem c mem⟩
          obtain ⟨same, rest⟩ := run_of_no_return none
          refine ⟨.token ?_ ih.1, .token ?_ ih.2⟩
          · rw [front_run starts, if_neg more]
          · rw [front_run starts, same, rest]
      · exact ⟨.token ((front_other other).trans here) ih.1,
          .token ((front_other other).trans here) ih.2⟩

/-- A text that is cut in one way is regular. By induction on its tokens. -/
theorem regular_of_cuts (cuts : Cuts s ts) (lexes : Lexes returnEnds s ts) : Regular returnEnds s := by
  refine ⟨ts, ?_⟩
  induction cuts with
  | @done s here =>
      rcases run_or_other s with ⟨c, s', rfl, starts⟩ | other
      · obtain ⟨us, never, -⟩ := (scans_token_iff (front_run starts _)).mp lexes
        cases never
      · exact .done ((front_other other).trans here)
  | @skip s rest ts here _ ih =>
      rcases run_or_other s with ⟨c, s', rfl, starts⟩ | other
      · rw [front_run starts] at here
        split at here
        · cases here
        · cases here
      · have here' : front returnEnds (fun word rest => .token (.word word) rest) s = .skip rest :=
          (front_other other).trans here
        exact .skip ((front_other other).trans here) (ih ((scans_skip_iff here').mp lexes))
  | @token s rest t ts here _ ih =>
      rcases run_or_other s with ⟨c, s', rfl, starts⟩ | other
      · rw [front_run starts] at here
        split at here
        · cases here
        · rename_i more
          obtain ⟨rfl, rfl⟩ := Front.token.inj here
          obtain ⟨us, same, lexes⟩ := (scans_token_iff (front_run starts _)).mp lexes
          obtain ⟨sameWord, rfl⟩ := List.cons.inj same
          have span : s'.takeWhile (isWordByte false) = s'.takeWhile (isWordByte returnEnds) := by
            simpa using sameWord
          have none : returnEnds = true → 13 ∉ s'.takeWhile (isWordByte false) := by
            rintro rfl
            rw [span]
            exact no_return_of_run
          obtain ⟨-, rest⟩ := run_of_no_return none
          have first : c ≠ 13 := by
            rintro rfl
            exact absurd starts.1 (by decide)
          rw [rest] at lexes
          refine .token ?_ (ih lexes)
          rw [front_run starts, if_neg]
          intro bad
          rcases bad with empty | ⟨ends, mem⟩
          · exact more empty
          · rcases List.mem_cons.mp mem with same | mem
            · exact first same.symm
            · exact none ends mem
      · have here' : front returnEnds (fun word rest => .token (.word word) rest) s = .token t rest :=
          (front_other other).trans here
        obtain ⟨us, same, lexes⟩ := (scans_token_iff here').mp lexes
        obtain ⟨-, rfl⟩ := List.cons.inj same
        exact .token ((front_other other).trans here) (ih lexes)

end Front

/-! ## The words that the parser cuts otherwise -/

/-- The parser accepts the texts of the grammar, with their trees, exactly as long as no unquoted word
contains a carriage return that should end it and the text does not end in an unquoted word; or else
neither way of cutting the text gives a sequence of statements. Whether a carriage return should end a
word is left open. -/
theorem parse_meets_grammar_iff (returnEnds : Bool) (s : Bytes) :
    (∀ config, NginxConfig.parse s = some config ↔ Grammar returnEnds s config) ↔
      Regular returnEnds s ∨
        (∀ ts config, Cuts s ts → ¬ ParseTree ts config) ∧
          ∀ ts config, Lexes returnEnds s ts → ¬ ParseTree ts config := by
  constructor
  · intro meets
    by_cases accepted : ∃ config, NginxConfig.parse s = some config
    · obtain ⟨config, accepted⟩ := accepted
      obtain ⟨ts, cuts, tree⟩ := parse_iff.mp accepted
      obtain ⟨ts', lexes, tree'⟩ := (meets config).mp accepted
      obtain rfl : ts = ts' := tree.tokens.trans tree'.tokens.symm
      exact .inl (regular_of_cuts cuts lexes)
    · refine .inr ⟨fun ts config cuts tree => ?_, fun ts config lexes tree => ?_⟩
      · exact accepted ⟨config, parse_iff.mpr ⟨ts, cuts, tree⟩⟩
      · exact accepted ⟨config, (meets config).mpr ⟨ts, lexes, tree⟩⟩
  · intro same config
    rw [parse_iff]
    rcases same with regular | ⟨uncut, unlexed⟩
    · obtain ⟨ts, cuts, lexes⟩ := cuts_of_regular regular
      constructor
      · intro parsed
        obtain ⟨ts', cuts', tree⟩ := parsed
        rw [scans_unique cuts' cuts] at tree
        exact ⟨ts, lexes, tree⟩
      · intro grammar
        obtain ⟨ts', lexes', tree⟩ := grammar
        rw [scans_unique lexes' lexes] at tree
        exact ⟨ts, cuts, tree⟩
    · constructor
      · intro parsed
        obtain ⟨ts, cuts, tree⟩ := parsed
        exact absurd tree (uncut ts config cuts)
      · intro grammar
        obtain ⟨ts, lexes, tree⟩ := grammar
        exact absurd tree (unlexed ts config lexes)

theorem parse_breaks_grammar :
    (∀ returnEnds, ¬ ∀ s config, NginxConfig.parse s = some config ↔ Grammar returnEnds s config) ∧
    NginxConfig.parse (bytes "a;b") = some { statements := [.mk [bytes "a"] none] } ∧
    (∀ returnEnds config, ¬ Grammar returnEnds (bytes "a;b") config) ∧
    NginxConfig.parse (bytes "a\r;") = some { statements := [.mk [bytes "a\r"] none] } ∧
    Grammar true (bytes "a\r;") { statements := [.mk [bytes "a"] none] } := by
  have accepted : NginxConfig.parse (bytes "a;b") = some { statements := [.mk [bytes "a"] none] } := rfl
  have refused (returnEnds : Bool) (config : NginxConfig) : ¬ Grammar returnEnds (bytes "a;b") config := by
    intro grammar
    obtain ⟨ts, lexes, tree⟩ := grammar
    have cut : Lexes returnEnds (bytes "a;b") [.word (bytes "a"), .statementEnd, .word (bytes "b")] := by
      cases returnEnds with
      | false => exact .token rfl (.token rfl (.token rfl (.done rfl)))
      | true => exact .token rfl (.token rfl (.token rfl (.done rfl)))
    rw [scans_unique lexes cut] at tree
    have never := finish_of_parseTree tree
    cases never
  have returned : Grammar true (bytes "a\r;") { statements := [.mk [bytes "a"] none] } := by
    refine ⟨[.word (bytes "a"), .statementEnd], .token rfl (.skip rfl (.token rfl (.done rfl))), ?_⟩
    exact ⟨by simp, by simp [ProperBlock, ProperStatement], rfl⟩
  exact ⟨fun returnEnds meets => refused returnEnds _ ((meets _ _).mp accepted), accepted, refused, rfl,
    returned⟩

end TscServer.Proof
