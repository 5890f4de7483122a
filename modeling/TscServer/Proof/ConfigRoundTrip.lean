import TscServer.Proof.ConfigAcceptance

/-!
# Serializing and parsing configurations

Every word that the parser cuts out of a text is quoted, or a run of word bytes that something else
ends. The serializer puts a space, a semicolon or a space and a brace behind each word, so the parser
cuts its text at the same places.
-/

namespace TscServer.Proof
open Lib Model Spec

inductive IsWord : Bytes → Prop
  | quoted {q : UInt8} {text : Bytes} : isQuote q = true → q ∉ text → IsWord (q :: text ++ [q])
  | run {c : UInt8} {text : Bytes} : StartsRun c → (∀ c ∈ text, isWordByte false c = true) →
      IsWord (c :: text)

section Words
variable {s rest : Bytes} {ts us : List ConfigToken} {word : Bytes}

theorem isWord_of_front {q : UInt8} {text : Bytes} (here : codeFront (q :: s) = .token (.word text) rest) :
    IsWord text := by
  rcases run_or_other (q :: s) with ⟨c, s', same, starts⟩ | other
  · obtain ⟨rfl, rfl⟩ := List.cons.inj same
    rw [codeFront, front_run starts] at here
    split at here
    · cases here
    · obtain ⟨sameWord, -⟩ := Front.token.inj here
      obtain rfl := ConfigToken.word.inj sameWord
      exact .run starts fun c mem => List.mem_takeWhile_imp mem
  · rw [codeFront, front] at here
    split at here
    · cases here
    · split at here
      · cases here
      · split at here
        · cases here
        · split at here
          · cases here
          · split at here
            · cases here
            · split at here
              · rename_i quote
                split at here
                · cases here
                · obtain ⟨sameWord, -⟩ := Front.token.inj here
                  obtain rfl := ConfigToken.word.inj sameWord
                  refine .quoted quote fun mem => ?_
                  have never := List.mem_takeWhile_imp mem
                  simp at never
              · rename_i blank comment semicolon opens closes quote
                refine absurd ⟨?_, comment, semicolon, opens, closes, ?_⟩ (other q rfl)
                · simpa using blank
                · simpa using quote

theorem isWord_of_cuts (cuts : Cuts s ts) (mem : .word word ∈ ts) : IsWord word := by
  induction cuts with
  | done => cases mem
  | skip _ _ ih => exact ih mem
  | @token s rest t ts here _ ih =>
      rcases List.mem_cons.mp mem with rfl | mem
      · cases s with
        | nil => cases here
        | cons q s => exact isWord_of_front here
      · exact ih mem

-- a byte that a run ends at
def StopsRun (s : Bytes) : Prop := ∃ c ∈ s.head?, isWordByte false c = false

theorem cuts_word (isWord : IsWord word) (stops : StopsRun rest) (cuts : Cuts rest us) :
    Cuts (word ++ rest) (.word word :: us) := by
  cases isWord with
  | @quoted q text quote absent =>
      have span : ∀ c ∈ text, (c != q) = true := fun c mem => by
        simpa using fun same : c = q => absent (same ▸ mem)
      have end_ : ∀ c ∈ (q :: rest).head?, (c != q) = false := by simp
      have before := takeWhile_append_stop span end_
      have after := dropWhile_append_stop span end_
      refine .token ?_ cuts
      have either : q = 34 ∨ q = 39 := by simpa [isQuote] using quote
      have text' : q :: text ++ [q] ++ rest = q :: (text ++ q :: rest) := by simp
      rw [text']
      rcases either with rfl | rfl
      · simp [front, isBlank, isQuote, before, after]
      · simp [front, isBlank, isQuote, before, after]
  | @run c text starts span =>
      obtain ⟨d, head, stop⟩ := stops
      have end_ : ∀ c ∈ rest.head?, isWordByte false c = false := by
        intro c mem
        rwa [Option.mem_unique mem head]
      have more : rest ≠ [] := by
        rintro rfl
        cases head
      refine .token ?_ cuts
      rw [List.cons_append, front_run starts, takeWhile_append_stop span end_,
        dropWhile_append_stop span end_, if_neg more]

theorem cuts_words {words : List Bytes} (nonempty : words ≠ []) (isWord : ∀ word ∈ words, IsWord word)
    (stops : StopsRun rest) (cuts : Cuts rest us) :
    Cuts ((bytes " ").intercalate words ++ rest) (words.map .word ++ us) := by
  induction words with
  | nil => exact absurd rfl nonempty
  | cons word words ih =>
      have first := isWord word (by simp)
      cases words with
      | nil => simpa using cuts_word first stops cuts
      | cons next words =>
          have later := ih (by simp) fun other mem => isWord other (by simp [mem])
          have spaced : Cuts (32 :: ((bytes " ").intercalate (next :: words) ++ rest))
              ((next :: words).map .word ++ us) := .skip rfl later
          have whole := cuts_word first ⟨32, rfl, by decide⟩ spaced
          simpa [List.intercalate_cons_cons, bytes] using whole

theorem cuts_indentation (depth : Nat) (cuts : Cuts rest us) : Cuts (indentation depth ++ rest) us := by
  induction depth with
  | zero => exact cuts
  | succ depth ih =>
      have indented : indentation (depth + 1) ++ rest = 32 :: 32 :: (indentation depth ++ rest) := by
        simp [indentation, List.replicate_succ, bytes]
      rw [indented]
      exact .skip rfl (.skip rfl ih)

end Words

/-! ## The serialized tree -/

mutual

theorem cuts_statement : ∀ (statement : NginxConfigStatement), ProperStatement statement →
    (∀ word, .word word ∈ statementTokens statement → IsWord word) →
    ∀ (depth : Nat) (rest : Bytes) (us : List ConfigToken), Cuts rest us →
      Cuts (statement.toBytes depth ++ rest) (statementTokens statement ++ us)
  | .mk words none, proper, isWord, depth, rest, us, cuts => by
      have ended : Cuts (59 :: 10 :: rest) (.statementEnd :: us) := .token rfl (.skip rfl cuts)
      have line := cuts_words proper (fun word mem => isWord word (by simp [statementTokens, mem]))
        ⟨59, rfl, by decide⟩ ended
      have whole := cuts_indentation depth line
      simpa [NginxConfigStatement.toBytes, statementTokens, bytes] using whole
  | .mk words (some block), proper, isWord, depth, rest, us, cuts => by
      obtain ⟨wordsNe, -, properBlock⟩ := proper
      have closed : Cuts (125 :: 10 :: rest) (.endBlock :: us) := .token rfl (.skip rfl cuts)
      have inner := cuts_block block properBlock (fun word mem => isWord word (by simp [statementTokens, mem]))
        (depth + 1) _ _ (cuts_indentation depth closed)
      have opened : Cuts (32 :: 123 :: 10 :: (statementsToBytes block (depth + 1) ++
          (indentation depth ++ 125 :: 10 :: rest))) (.startBlock :: (blockTokens block ++ .endBlock :: us)) :=
        .skip rfl (.token rfl (.skip rfl inner))
      have line := cuts_words wordsNe (fun word mem => isWord word (by simp [statementTokens, mem]))
        ⟨32, rfl, by decide⟩ opened
      have whole := cuts_indentation depth line
      simpa [NginxConfigStatement.toBytes, statementTokens, bytes] using whole

theorem cuts_block : ∀ (block : List NginxConfigStatement), ProperBlock block →
    (∀ word, .word word ∈ blockTokens block → IsWord word) →
    ∀ (depth : Nat) (rest : Bytes) (us : List ConfigToken), Cuts rest us →
      Cuts (statementsToBytes block depth ++ rest) (blockTokens block ++ us)
  | [], _, _, _, _, _, cuts => cuts
  | statement :: block, proper, isWord, depth, rest, us, cuts => by
      have later := cuts_block block proper.2 (fun word mem => isWord word (by simp [blockTokens, mem]))
        depth rest us cuts
      have whole := cuts_statement statement proper.1
        (fun word mem => isWord word (by simp [blockTokens, mem])) depth _ _ later
      simpa [statementsToBytes, blockTokens] using whole

end

/-- Serializer and parser agree: a tree that was parsed is parsed again from its text. -/
theorem parse_toBytes {s : Bytes} {config : NginxConfig} (parsed : NginxConfig.parse s = some config)
    (depth : Nat) : NginxConfig.parse (config.toBytes depth) = some config := by
  obtain ⟨ts, cuts, tree⟩ := parse_iff.mp parsed
  have isWord : ∀ word, .word word ∈ blockTokens config.statements → IsWord word := by
    intro word mem
    rw [← tree.tokens] at mem
    exact isWord_of_cuts cuts mem
  have text := cuts_block config.statements tree.proper isWord depth [] [] (.done rfl)
  rw [List.append_nil, List.append_nil, ← tree.tokens] at text
  exact parse_iff.mpr ⟨ts, text, tree⟩

theorem parse_toBytes_block : ∃ config,
    NginxConfig.parse (bytes "a \x22;b\x22c#\r \x7bd;\x7d# e") = some config ∧
      NginxConfig.parse (config.toBytes 1) = some config := by
  have accepted : (NginxConfig.parse (bytes "a \x22;b\x22c#\r \x7bd;\x7d# e")).isSome = true := by
    decide
  obtain ⟨config, parsed⟩ := Option.isSome_iff_exists.mp accepted
  exact ⟨config, parsed, parse_toBytes parsed 1⟩

end TscServer.Proof
