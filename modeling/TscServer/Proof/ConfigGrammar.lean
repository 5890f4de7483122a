import TscServer.Proof.ConfigTokens

/-!
# The transitions of the config parser

What the stack of open configs has read is determined by it: `Reads` is kept by every transition, so a
tree that the parser returns has the tokens of the input. Over the tokens of a proper tree the parser
comes to this tree.
-/

namespace TscServer.Proof
open Lib Model Spec

/-! ## Trees -/

theorem blockTokens_append (first second : List NginxConfigStatement) :
    blockTokens (first ++ second) = blockTokens first ++ blockTokens second := by
  induction first with
  | nil => rfl
  | cons statement first ih => rw [List.cons_append, blockTokens, blockTokens, ih, List.append_assoc]

theorem properBlock_append {first second : List NginxConfigStatement} :
    ProperBlock (first ++ second) ↔ ProperBlock first ∧ ProperBlock second := by
  induction first with
  | nil => simp [ProperBlock]
  | cons statement first ih => rw [List.cons_append, ProperBlock, ProperBlock, ih, and_assoc]

theorem blockTokens_concat (statements : List NginxConfigStatement) (statement : NginxConfigStatement) :
    blockTokens (statements ++ [statement]) = blockTokens statements ++ statementTokens statement := by
  rw [blockTokens_append, blockTokens, blockTokens, List.append_nil]

theorem properBlock_concat {statements : List NginxConfigStatement} {statement : NginxConfigStatement} :
    ProperBlock (statements ++ [statement]) ↔ ProperBlock statements ∧ ProperStatement statement := by
  rw [properBlock_append, ProperBlock, ProperBlock, and_true]

/-! ## What the stack has read -/

/-- The tokens before the block of the innermost open statement. -/
inductive Opens : List (List NginxConfigStatement) → List ConfigToken → Prop
  | none : Opens [] []
  | block {outer : List (List NginxConfigStatement)} {ts : List ConfigToken}
      {statements : List NginxConfigStatement} {words : List Bytes} :
      Opens outer ts → ProperBlock statements → words ≠ [] →
      Opens ((statements ++ [.mk words none]) :: outer)
        (ts ++ (blockTokens statements ++ words.map .word ++ [.startBlock]))

inductive Reads : ParserState → List ConfigToken → Prop
  | start : Reads {} []
  | opened {outer : List (List NginxConfigStatement)} {ts : List ConfigToken} : outer ≠ [] →
      Opens outer ts →
      Reads { configStack := { top := [], outer }, lastTokenType := .startBlock, blockNum := outer.length }
        ts
  | words {outer : List (List NginxConfigStatement)} {ts : List ConfigToken}
      {statements : List NginxConfigStatement} {words : List Bytes} :
      Opens outer ts → ProperBlock statements → words ≠ [] →
      Reads
        { configStack := { top := statements ++ [.mk words none], outer }, lastTokenType := .normal
          blockNum := outer.length }
        (ts ++ (blockTokens statements ++ words.map .word))
  | ended {outer : List (List NginxConfigStatement)} {ts : List ConfigToken}
      {top : List NginxConfigStatement} {last : TokenType} : last = .statementEnd ∨ last = .endBlock →
      Opens outer ts → ProperBlock top → top ≠ [] →
      Reads { configStack := { top, outer }, lastTokenType := last, blockNum := outer.length }
        (ts ++ blockTokens top)

theorem pushToken_concat (token : Bytes) (statements : List NginxConfigStatement) (words : List Bytes)
    (childBlock : Option (List NginxConfigStatement)) :
    pushToken token (statements ++ [.mk words childBlock]) =
      some (statements ++ [.mk (words ++ [token]) childBlock]) := by
  simp [pushToken]

theorem setChildBlock_concat (block statements : List NginxConfigStatement) (words : List Bytes)
    (childBlock : Option (List NginxConfigStatement)) :
    setChildBlock block (statements ++ [.mk words childBlock]) =
      some (statements ++ [.mk words (some block)]) := by
  simp [setChildBlock]

section Step
variable {p p' : ParserState} {ts : List ConfigToken} {t : ConfigToken} {word : Bytes}

theorem takeToken_first {stack : ConfigStack} {last : TokenType} {blockNum : Nat}
    (starts : last = .start ∨ last = .startBlock ∨ last = .statementEnd ∨ last = .endBlock) :
    takeToken { configStack := stack, lastTokenType := last, blockNum } (.word word) =
      some { configStack := { stack with top := stack.top ++ [.mk [word] none] }
             lastTokenType := .normal, blockNum } := by
  have push := pushToken_concat word stack.top [] none
  rcases starts with rfl | rfl | rfl | rfl <;> simp [takeToken, tokenType, transition, push]

theorem takeToken_next {statements : List NginxConfigStatement} {words : List Bytes}
    {outer : List (List NginxConfigStatement)} {blockNum : Nat} :
    takeToken { configStack := { top := statements ++ [.mk words none], outer }
                lastTokenType := .normal, blockNum } (.word word) =
      some { configStack := { top := statements ++ [.mk (words ++ [word]) none], outer }
             lastTokenType := .normal, blockNum } := by
  simp [takeToken, tokenType, transition, pushToken_concat]

theorem takeToken_endBlock {top statements : List NginxConfigStatement} {words : List Bytes}
    {outer : List (List NginxConfigStatement)} {last : TokenType} {blockNum : Nat}
    (ends : last = .statementEnd ∨ last = .endBlock) :
    takeToken { configStack := { top, outer := (statements ++ [.mk words none]) :: outer }
                lastTokenType := last, blockNum := blockNum + 1 } .endBlock =
      some { configStack := { top := statements ++ [.mk words (some top)], outer }
             lastTokenType := .endBlock, blockNum } := by
  rcases ends with rfl | rfl <;>
    simp [takeToken, tokenType, transition, ConfigStack.pop, setChildBlock_concat]

theorem reads_step (reads : Reads p ts) (step : takeToken p t = some p') : Reads p' (ts ++ [t]) := by
  cases reads with
  | start =>
      cases t with
      | word word =>
          rw [takeToken_first (.inl rfl)] at step
          obtain rfl := Option.some.inj step
          exact @Reads.words [] [] [] [word] .none trivial (List.cons_ne_nil word [])
      | statementEnd => cases step
      | startBlock => cases step
      | endBlock => cases step
  | opened nested opens =>
      cases t with
      | word word =>
          rw [takeToken_first (.inr (.inl rfl))] at step
          obtain rfl := Option.some.inj step
          exact @Reads.words _ _ [] [word] opens trivial (List.cons_ne_nil word [])
      | statementEnd => cases step
      | startBlock => cases step
      | endBlock => simp [takeToken, tokenType, transition] at step
  | @words outer ts statements words opens proper nonempty =>
      cases t with
      | word word =>
          rw [takeToken_next] at step
          obtain rfl := Option.some.inj step
          have more := @Reads.words outer ts statements (words ++ [word]) opens proper (by simp)
          simpa using more
      | statementEnd =>
          obtain rfl := Option.some.inj step
          have whole : ProperBlock (statements ++ [.mk words none]) :=
            properBlock_concat.mpr ⟨proper, nonempty⟩
          have ended := Reads.ended (.inl rfl) opens whole (by simp)
          rw [blockTokens_concat, statementTokens] at ended
          simpa using ended
      | startBlock =>
          obtain rfl := Option.some.inj step
          have opened := Reads.opened (by simp) (Opens.block opens proper nonempty)
          simpa using opened
      | endBlock => simp [takeToken, tokenType, transition] at step
  | @ended outer ts top last ends opens proper nonempty =>
      cases t with
      | word word =>
          rw [takeToken_first (.inr (.inr ends))] at step
          obtain rfl := Option.some.inj step
          have more := Reads.words opens proper (List.cons_ne_nil word [])
          simpa using more
      | statementEnd => rcases ends with rfl | rfl <;> cases step
      | startBlock => rcases ends with rfl | rfl <;> cases step
      | endBlock =>
          cases opens with
          | none => cases step
          | @block outer ts statements words opens properOuter wordsNe =>
              rw [List.length_cons, takeToken_endBlock ends] at step
              obtain rfl := Option.some.inj step
              have whole : ProperBlock (statements ++ [.mk words (some top)]) :=
                properBlock_concat.mpr ⟨properOuter, wordsNe, nonempty, proper⟩
              have ended := Reads.ended (.inr rfl) opens whole (by simp)
              rw [blockTokens_concat, statementTokens] at ended
              simpa using ended

/-- A run adds its tokens to what was read, by induction on them. -/
theorem reads_run (reads : Reads p ts) {us : List ConfigToken} (run : takeTokens p us = some p') :
    Reads p' (ts ++ us) := by
  induction us generalizing p ts with
  | nil =>
      obtain rfl := Option.some.inj run
      rwa [List.append_nil]
  | cons t us ih =>
      rw [takeTokens, List.foldlM_cons] at run
      obtain ⟨mid, step, rest⟩ := Option.bind_eq_some_iff.mp run
      have later := ih (reads_step reads step) rest
      rwa [List.append_assoc] at later

theorem parseTree_of_finish {config : NginxConfig} (reads : Reads p ts) (done : finish p = some config) :
    ParseTree ts config := by
  cases reads with
  | start => cases done
  | opened => cases done
  | words => cases done
  | @ended outer ts top last ends opens proper nonempty =>
      rw [finish, if_neg (by rcases ends with rfl | rfl <;> simp)] at done
      cases opens with
      | none =>
          obtain rfl := Option.some.inj done
          exact ⟨nonempty, proper, rfl⟩
      | block => cases done

end Step

/-! ## The tokens of a tree -/

theorem takeTokens_append (p : ParserState) (ts us : List ConfigToken) :
    takeTokens p (ts ++ us) = (takeTokens p ts).bind fun p => takeTokens p us := by
  rw [takeTokens, List.foldlM_append]
  rfl

theorem takeTokens_words {statements : List NginxConfigStatement} {outer : List (List NginxConfigStatement)}
    {blockNum : Nat} {words : List Bytes} (more : List Bytes) :
    takeTokens { configStack := { top := statements ++ [.mk words none], outer }
                 lastTokenType := .normal, blockNum } (more.map .word) =
      some { configStack := { top := statements ++ [.mk (words ++ more) none], outer }
             lastTokenType := .normal, blockNum } := by
  induction more generalizing words with
  | nil => simp [takeTokens]
  | cons word more ih =>
      have rest := @ih (words ++ [word])
      rw [List.map_cons, takeTokens, List.foldlM_cons, takeToken_next]
      simpa [takeTokens] using rest

-- where a statement can start
def Starts (last : TokenType) : Prop :=
  last = .start ∨ last = .startBlock ∨ last = .statementEnd ∨ last = .endBlock

def Ends (last : TokenType) : Prop := last = .statementEnd ∨ last = .endBlock

theorem takeTokens_statementWords {last : TokenType} (starts : Starts last)
    {statements : List NginxConfigStatement} {outer : List (List NginxConfigStatement)} {blockNum : Nat}
    {words : List Bytes} (nonempty : words ≠ []) :
    takeTokens { configStack := { top := statements, outer }, lastTokenType := last, blockNum }
        (words.map .word) =
      some { configStack := { top := statements ++ [.mk words none], outer }
             lastTokenType := .normal, blockNum } := by
  obtain ⟨word, words, rfl⟩ := List.exists_cons_of_ne_nil nonempty
  rw [List.map_cons, takeTokens, List.foldlM_cons, takeToken_first starts]
  exact takeTokens_words words

mutual

theorem takeTokens_statement : ∀ (statement : NginxConfigStatement), ProperStatement statement →
    ∀ (last : TokenType), Starts last → ∀ (statements : List NginxConfigStatement)
      (outer : List (List NginxConfigStatement)) (blockNum : Nat),
    ∃ last', Ends last' ∧
      takeTokens { configStack := { top := statements, outer }, lastTokenType := last, blockNum }
          (statementTokens statement) =
        some { configStack := { top := statements ++ [statement], outer }
               lastTokenType := last', blockNum }
  | .mk words none, proper, last, starts, statements, outer, blockNum => by
      refine ⟨.statementEnd, .inl rfl, ?_⟩
      rw [statementTokens, takeTokens_append, takeTokens_statementWords starts proper]
      rfl
  | .mk words (some block), proper, last, starts, statements, outer, blockNum => by
      obtain ⟨wordsNe, blockNe, properBlock⟩ := proper
      obtain ⟨last', ends, inner⟩ := takeTokens_block block properBlock .startBlock (.inr (.inl rfl)) []
        ((statements ++ [.mk words none]) :: outer) (blockNum + 1)
      have finished : Ends last' := ends.resolve_left fun empty => blockNe empty.1
      refine ⟨.endBlock, .inr rfl, ?_⟩
      have opened : takeToken
          { configStack := { top := statements ++ [.mk words none], outer }, lastTokenType := .normal
            blockNum } .startBlock =
          some { configStack := { top := [], outer := (statements ++ [.mk words none]) :: outer }
                 lastTokenType := .startBlock, blockNum := blockNum + 1 } := rfl
      rw [statementTokens, takeTokens_append, takeTokens_statementWords starts wordsNe, Option.bind_some,
        takeTokens, List.foldlM_cons, opened]
      change takeTokens _ (blockTokens block ++ [.endBlock]) = _
      rw [takeTokens_append, inner, Option.bind_some, takeTokens, List.foldlM_cons, List.nil_append,
        takeToken_endBlock finished]
      rfl

theorem takeTokens_block : ∀ (block : List NginxConfigStatement), ProperBlock block →
    ∀ (last : TokenType), Starts last → ∀ (statements : List NginxConfigStatement)
      (outer : List (List NginxConfigStatement)) (blockNum : Nat),
    ∃ last', (block = [] ∧ last' = last ∨ Ends last') ∧
      takeTokens { configStack := { top := statements, outer }, lastTokenType := last, blockNum }
          (blockTokens block) =
        some { configStack := { top := statements ++ block, outer }, lastTokenType := last', blockNum }
  | [], _, last, _, statements, outer, blockNum => 
      ⟨last, .inl ⟨rfl, rfl⟩, by simp [blockTokens, takeTokens]⟩
  | statement :: block, proper, last, starts, statements, outer, blockNum => by
      obtain ⟨last', ends, first⟩ :=
        takeTokens_statement statement proper.1 last starts statements outer blockNum
      obtain ⟨last'', ends', rest⟩ := takeTokens_block block proper.2 last' (.inr (.inr ends))
        (statements ++ [statement]) outer blockNum
      refine ⟨last'', .inr ?_, ?_⟩
      · rcases ends' with ⟨-, rfl⟩ | ends'
        · exact ends
        · exact ends'
      · rw [blockTokens, takeTokens_append, first, Option.bind_some, rest]
        simp

end

theorem finish_of_parseTree {ts : List ConfigToken} {config : NginxConfig} (tree : ParseTree ts config) :
    (takeTokens {} ts).bind finish = some config := by
  obtain ⟨nonempty, proper, rfl⟩ := tree
  obtain ⟨last, ends, run⟩ := takeTokens_block config.statements proper .start (.inl rfl) [] [] 0
  have finished : Ends last := ends.resolve_left fun empty => nonempty empty.1
  have run' : takeTokens {} (blockTokens config.statements) = _ := run
  rw [run', Option.bind_some, finish, if_neg (by rcases finished with rfl | rfl <;> simp)]
  rfl

/-- The parser returns a tree exactly when the tokens that it cuts the input into are those of this
tree. -/
theorem parse_iff {s : Bytes} {config : NginxConfig} :
    NginxConfig.parse s = some config ↔ ∃ ts, Cuts s ts ∧ ParseTree ts config := by
  rw [parse_iff_cuts]
  refine exists_congr fun ts => and_congr_right fun _ => ⟨fun done => ?_, finish_of_parseTree⟩
  obtain ⟨p, run, done⟩ := Option.bind_eq_some_iff.mp done
  exact parseTree_of_finish (reads_run .start run) done

end TscServer.Proof
