import TscServer.Proof.ConfigAcceptance

/-!
# The line endings of a configuration

The parser takes a carriage return for a blank and for the end of a comment, and within a word for a
byte of this word. So the line endings of a text make no difference as long as no unquoted word stands
right before one.
-/

namespace TscServer.Proof
open Lib Model Spec

/-! ## Spans -/

section Spans
variable {c : UInt8} {s t : Bytes} {p : UInt8 → Bool}

theorem withCrlf_cons (other : c ≠ 10) (s : Bytes) : withCrlf (c :: s) = c :: withCrlf s := by
  rw [withCrlf, List.flatMap_cons, if_neg other]
  rfl

theorem withCrlf_feed (s : Bytes) : withCrlf (10 :: s) = 13 :: 10 :: withCrlf s := by
  rw [withCrlf, List.flatMap_cons, if_pos rfl]
  rfl

theorem withCrlf_append (s t : Bytes) : withCrlf (s ++ t) = withCrlf s ++ withCrlf t :=
  List.flatMap_append

theorem withCrlf_of_noFeed (noFeed : 10 ∉ s) : withCrlf s = s := by
  induction s with
  | nil => rfl
  | cons c s ih =>
      rw [List.mem_cons, not_or] at noFeed
      rw [withCrlf_cons (Ne.symm noFeed.1), ih noFeed.2]

/-- A span without a line feed stays as it is, unless the carriage return after it belongs to it. -/
theorem span_withCrlf (noFeed : 10 ∉ s.takeWhile p)
    (stops : ∀ c ∈ (withCrlf (s.dropWhile p)).head?, p c = false) :
    (withCrlf s).takeWhile p = s.takeWhile p ∧ (withCrlf s).dropWhile p = withCrlf (s.dropWhile p) := by
  have split : withCrlf s = s.takeWhile p ++ withCrlf (s.dropWhile p) := by
    rw [← congrArg withCrlf List.takeWhile_append_dropWhile, withCrlf_append, withCrlf_of_noFeed noFeed]
  have inside : ∀ c ∈ s.takeWhile p, p c = true := fun c mem => List.mem_takeWhile_imp mem
  rw [split]
  exact ⟨takeWhile_append_stop inside stops, dropWhile_append_stop inside stops⟩

theorem head_withCrlf (mem : c ∈ (withCrlf s).head?) :
    s.head? = some 10 ∧ c = 13 ∨ c ∈ s.head? ∧ c ≠ 10 := by
  cases s with
  | nil => cases mem
  | cons d s =>
      by_cases feed : d = 10
      · subst feed
        rw [withCrlf_feed] at mem
        exact .inl ⟨rfl, (Option.some.inj mem).symm⟩
      · rw [withCrlf_cons feed] at mem
        obtain rfl := Option.some.inj mem
        exact .inr ⟨rfl, feed⟩

theorem stops_dropWhile (mem : c ∈ (s.dropWhile p).head?) : p c = false := by
  have stop := List.head?_dropWhile_not p s
  rwa [mem] at stop

theorem span_withCrlf_of_not (feed : p 10 = false) (ret : p 13 = false) :
    (withCrlf s).takeWhile p = s.takeWhile p ∧ (withCrlf s).dropWhile p = withCrlf (s.dropWhile p) := by
  apply span_withCrlf
  · intro mem
    rw [List.mem_takeWhile_imp mem] at feed
    cases feed
  · intro c mem
    rcases head_withCrlf mem with ⟨-, rfl⟩ | ⟨mem, -⟩
    · exact ret
    · exact stops_dropWhile mem

end Spans

/-! ## Fronts -/

section Fronts
variable {s rest : Bytes} {t : ConfigToken} {ts us : List ConfigToken}

theorem cuts_feed : Cuts (10 :: s) us ↔ Cuts s us := scans_skip_iff rfl

theorem cuts_return : Cuts (13 :: s) us ↔ Cuts s us := scans_skip_iff rfl

theorem cuts_blank {c : UInt8} (blank : isBlank c = true) :
    Cuts (withCrlf (c :: s)) us ↔ Cuts (withCrlf s) us := by
  by_cases feed : c = 10
  · rw [feed, withCrlf_feed, cuts_return, cuts_feed]
  · rw [withCrlf_cons feed]
    refine scans_skip_iff ?_
    rw [front, if_pos blank]

theorem cuts_comment :
    Cuts (withCrlf (35 :: s)) us ↔ Cuts (withCrlf ((s.dropWhile notLineEnd).drop 1)) us := by
  have skips : codeFront (35 :: withCrlf s) = .skip (((withCrlf s).dropWhile notLineEnd).drop 1) := rfl
  have line := (span_withCrlf_of_not (s := s) (p := notLineEnd) (by decide) (by decide)).2
  rw [line] at skips
  rw [withCrlf_cons (by decide)]
  refine (scans_skip_iff skips).trans ?_
  cases tail : s.dropWhile notLineEnd with
  | nil => rfl
  | cons c tail =>
      by_cases feed : c = 10
      · rw [feed, withCrlf_feed]
        exact cuts_feed
      · rw [withCrlf_cons feed]
        rfl

theorem front_quote {c : UInt8} (quote : isQuote c = true) (s : Bytes) : codeFront (c :: s) =
    match s.dropWhile (· != c) with
    | [] => .stuck
    | _ :: rest => .token (.word (c :: s.takeWhile (· != c) ++ [c])) rest := by
  have cases_ : c = 34 ∨ c = 39 := by simpa [isQuote] using quote
  rcases cases_ with rfl | rfl
  · rfl
  · rfl

theorem front_quote_withCrlf {c d : UInt8} (quote : isQuote c = true)
    (closed : s.dropWhile (· != c) = d :: rest)
    (inLine : QuotesInLines [.word (c :: s.takeWhile (· != c) ++ [c])]) :
    codeFront (withCrlf (c :: s)) = .token (.word (c :: s.takeWhile (· != c) ++ [c])) (withCrlf rest) := by
  have noFeed := inLine _ (List.mem_singleton_self _) (by simpa using quote)
  have stop : d = c := by
    have stops : (d != c) = false := stops_dropWhile (p := (· != c)) (s := s) (by rw [closed]; rfl)
    simpa using stops
  have quoteNe : c ≠ 10 := by
    rintro rfl
    cases quote
  have line : (withCrlf s).takeWhile (· != c) = s.takeWhile (· != c) ∧
      (withCrlf s).dropWhile (· != c) = withCrlf (s.dropWhile (· != c)) := by
    apply span_withCrlf
    · exact fun feed => noFeed (List.mem_append_left _ (List.mem_cons_of_mem c feed))
    · intro e mem
      rw [closed, stop, withCrlf_cons quoteNe] at mem
      simp [← Option.some.inj mem]
  rw [withCrlf_cons quoteNe, front_quote quote, line.1, line.2, closed, stop, withCrlf_cons quoteNe]

theorem withCrlf_front (other : ∀ c ∈ s.head?, ¬ StartsRun c) :
    s = [] ∨ (∃ rest, codeFront s = .skip rest ∧ ∀ us, Cuts (withCrlf s) us ↔ Cuts (withCrlf rest) us) ∨
      (∃ t rest, codeFront s = .token t rest ∧
        (QuotesInLines [t] → codeFront (withCrlf s) = .token t (withCrlf rest))) ∨
      codeFront s = .stuck := by
  cases s with
  | nil => exact .inl rfl
  | cons c s =>
      right
      by_cases blank : isBlank c = true
      · exact .inl ⟨s, by rw [codeFront, front, if_pos blank], fun us => cuts_blank blank⟩
      by_cases comment : c = 35
      · rw [comment]
        exact .inl ⟨_, rfl, fun us => cuts_comment⟩
      right
      by_cases semicolon : c = 59
      · rw [semicolon]
        exact .inl ⟨.statementEnd, s, rfl, fun _ => rfl⟩
      by_cases opens : c = 123
      · rw [opens]
        exact .inl ⟨.startBlock, s, rfl, fun _ => rfl⟩
      by_cases closes : c = 125
      · rw [closes]
        exact .inl ⟨.endBlock, s, rfl, fun _ => rfl⟩
      by_cases quote : isQuote c = true
      · rw [front_quote quote]
        cases closed : s.dropWhile (· != c) with
        | nil => exact .inr rfl
        | cons d rest => exact .inl ⟨_, rest, rfl, front_quote_withCrlf quote closed⟩
      · exact absurd ⟨by simpa using blank, comment, semicolon, opens, closes, by simpa using quote⟩ (other c rfl)

end Fronts

/-! ## Unquoted words -/

section Words
variable {c : UInt8} {s rest : Bytes}

theorem withCrlf_run (starts : StartsRun c) (s : Bytes) : withCrlf (c :: s) = c :: withCrlf s := by
  apply withCrlf_cons
  rintro rfl
  exact absurd starts.1 (by decide)

theorem noFeed_run : 10 ∉ s.takeWhile (isWordByte false) := fun feed =>
  absurd (List.mem_takeWhile_imp feed) (by decide)

theorem codeFront_word (starts : StartsRun c)
    (apart : (s.dropWhile (isWordByte false)).head? ≠ some 10) :
    codeFront (withCrlf (c :: s)) =
      if s.dropWhile (isWordByte false) = [] then .done
      else .token (.word (c :: s.takeWhile (isWordByte false))) (withCrlf (s.dropWhile (isWordByte false))) := by
  have line : (withCrlf s).takeWhile (isWordByte false) = s.takeWhile (isWordByte false) ∧
      (withCrlf s).dropWhile (isWordByte false) = withCrlf (s.dropWhile (isWordByte false)) := by
    apply span_withCrlf noFeed_run
    intro d mem
    rcases head_withCrlf mem with ⟨feed, -⟩ | ⟨mem, -⟩
    · exact absurd feed apart
    · exact stops_dropWhile mem
  rw [withCrlf_run starts, codeFront, front_run starts, line.1, line.2]
  cases s.dropWhile (isWordByte false) with
  | nil => rfl
  | cons d rest =>
      have more : withCrlf (d :: rest) ≠ [] := by
        by_cases feed : d = 10
        · simp [feed, withCrlf_feed]
        · simp [withCrlf_cons feed]
      rw [if_neg more, if_neg (List.cons_ne_nil d rest)]

theorem codeFront_word_return (starts : StartsRun c) (ends : s.dropWhile (isWordByte false) = 10 :: rest) :
    codeFront (withCrlf (c :: s)) =
      .token (.word (c :: (s.takeWhile (isWordByte false) ++ [13]))) (10 :: withCrlf rest) := by
  have split : withCrlf s = s.takeWhile (isWordByte false) ++ [13] ++ 10 :: withCrlf rest := by
    rw [← congrArg withCrlf List.takeWhile_append_dropWhile, withCrlf_append, withCrlf_of_noFeed noFeed_run,
      ends, withCrlf_feed, List.append_assoc]
    rfl
  have inside : ∀ d ∈ s.takeWhile (isWordByte false) ++ [13], isWordByte false d = true := by
    intro d mem
    rcases List.mem_append.mp mem with mem | ret
    · exact List.mem_takeWhile_imp mem
    · rw [List.mem_singleton.mp ret]
      decide
  have stops : ∀ d ∈ (10 :: withCrlf rest).head?, isWordByte false d = false := by
    intro d mem
    rw [← Option.some.inj mem]
    decide
  rw [withCrlf_run starts, codeFront, front_run starts, split, takeWhile_append_stop inside stops,
    dropWhile_append_stop inside stops, if_neg (List.cons_ne_nil _ _)]

end Words

/-! ## Whole texts -/

def lineFront : Bytes → Front UInt8 ConfigToken :=
  front false fun word rest =>
    if rest = [] then .done else if rest.head? = some 10 then .stuck else .token (.word word) rest

section Texts
variable {s rest : Bytes} {t : ConfigToken} {ts : List ConfigToken} {config : NginxConfig}

theorem wordsInLines_skip (here : lineFront s = .skip rest) : WordsInLines s ↔ WordsInLines rest :=
  exists_congr fun _ => scans_skip_iff here

theorem wordsInLines_token (here : lineFront s = .token t rest) : WordsInLines s ↔ WordsInLines rest := by
  constructor
  · rintro ⟨ts, scans⟩
    obtain ⟨us, -, scans⟩ := (scans_token_iff here).mp scans
    exact ⟨us, scans⟩
  · rintro ⟨ts, scans⟩
    exact ⟨t :: ts, .token here scans⟩

theorem withCrlf_done (here : codeFront s = .done) : Cuts (withCrlf s) [] ∧ WordsInLines s := by
  rcases run_or_other s with ⟨c, s', rfl, starts⟩ | other
  · rw [codeFront, front_run starts] at here
    split at here
    · rename_i whole
      have apart : (s'.dropWhile (isWordByte false)).head? ≠ some 10 := by
        rw [whole]
        exact fun never => by cases never
      refine ⟨.done ((codeFront_word starts apart).trans (if_pos whole)), [], .done ?_⟩
      rw [front_run starts, if_pos whole]
    · cases here
  · refine ⟨?_, [], .done ((front_other other).trans here)⟩
    rcases withCrlf_front other with rfl | ⟨rest, skips, -⟩ | ⟨t, rest, found, -⟩ | stuck
    · exact .done rfl
    · cases skips.symm.trans here
    · cases found.symm.trans here
    · cases stuck.symm.trans here

theorem withCrlf_skip (here : codeFront s = .skip rest) :
    (Cuts (withCrlf s) ts ↔ Cuts (withCrlf rest) ts) ∧ (WordsInLines s ↔ WordsInLines rest) := by
  rcases run_or_other s with ⟨c, s', rfl, starts⟩ | other
  · rw [codeFront, front_run starts] at here
    split at here
    · cases here
    · cases here
  · refine ⟨?_, wordsInLines_skip ((front_other other).trans here)⟩
    rcases withCrlf_front other with rfl | ⟨rest', skips, same⟩ | ⟨t, rest', found, -⟩ | stuck
    · cases here
    · obtain rfl := Front.skip.inj (skips.symm.trans here)
      exact same ts
    · cases found.symm.trans here
    · cases stuck.symm.trans here

theorem withCrlf_token (here : codeFront s = .token t rest) (quotes : QuotesInLines [t]) :
    codeFront (withCrlf s) = .token t (withCrlf rest) ∧ lineFront s = .token t rest ∨
      ¬ Cuts (withCrlf s) (t :: ts) ∧ lineFront s = .stuck := by
  rcases run_or_other s with ⟨c, s', rfl, starts⟩ | other
  · rw [codeFront, front_run starts] at here
    split at here
    · cases here
    · rename_i more
      obtain ⟨rfl, rfl⟩ := Front.token.inj here
      by_cases feed : (s'.dropWhile (isWordByte false)).head? = some 10
      · refine .inr ⟨fun cut => ?_, ?_⟩
        · obtain ⟨rest, ends⟩ := List.head?_eq_some_iff.mp feed
          obtain ⟨us, same, -⟩ := (scans_token_iff (codeFront_word_return starts ends)).mp cut
          simp at same
        · rw [lineFront, front_run starts, if_neg more, if_pos feed]
      · refine .inl ⟨(codeFront_word starts feed).trans (if_neg more), ?_⟩
        rw [lineFront, front_run starts, if_neg more, if_neg feed]
  · refine .inl ⟨?_, (front_other other).trans here⟩
    rcases withCrlf_front other with rfl | ⟨rest', skips, -⟩ | ⟨t', rest', found, crlf⟩ | stuck
    · cases here
    · cases skips.symm.trans here
    · obtain ⟨rfl, rfl⟩ := Front.token.inj (found.symm.trans here)
      exact crlf quotes
    · cases stuck.symm.trans here

/-- By induction on the tokens of the text. -/
theorem cuts_withCrlf_iff (cuts : Cuts s ts) (quotes : QuotesInLines ts) :
    Cuts (withCrlf s) ts ↔ WordsInLines s := by
  induction cuts with
  | done here =>
      obtain ⟨cut, words⟩ := withCrlf_done here
      exact iff_of_true cut words
  | skip here _ ih =>
      obtain ⟨cut, words⟩ := withCrlf_skip here
      rw [cut, words]
      exact ih quotes
  | @token s rest t ts here _ ih =>
      have first : QuotesInLines [t] := fun text mem =>
        quotes text (List.mem_cons.mpr (.inl (List.mem_singleton.mp mem)))
      have others : QuotesInLines ts := fun text mem => quotes text (List.mem_cons_of_mem t mem)
      rcases withCrlf_token here first with ⟨cut, line⟩ | ⟨uncut, stuck⟩
      · rw [wordsInLines_token line, ← ih others]
        exact scans_token_cons_iff cut
      · exact iff_of_false uncut fun ⟨us, scans⟩ => not_scans_of_stuck stuck scans

/-- The tree of an accepted text does not depend on its line endings exactly when no unquoted word stands
right before one. -/
theorem parse_withCrlf_iff (parsed : NginxConfig.parse s = some config)
    (quotes : ∀ ts, Cuts s ts → QuotesInLines ts) :
    NginxConfig.parse (withCrlf s) = some config ↔ WordsInLines s := by
  obtain ⟨ts, cuts, tree⟩ := parse_iff.mp parsed
  rw [← cuts_withCrlf_iff cuts (quotes ts cuts), parse_iff]
  constructor
  · rintro ⟨ts', cuts', tree'⟩
    rwa [tree.tokens, ← tree'.tokens]
  · exact fun cuts' => ⟨ts, cuts', tree⟩

end Texts

theorem parse_withCrlf_lines : NginxConfig.parse (withCrlf (bytes "a 'b';\n# c\n")) =
    some { statements := [.mk [bytes "a", bytes "'b'"] none] } := by
  have cut : Cuts (bytes "a 'b';\n# c\n") [.word (bytes "a"), .word (bytes "'b'"), .statementEnd] :=
    .token rfl (.skip rfl (.token rfl (.token rfl (.skip rfl (.skip rfl (.done rfl))))))
  refine (parse_withCrlf_iff (s := bytes "a 'b';\n# c\n") rfl fun ts cuts => ?_).mpr ?_
  · rw [scans_unique cuts cut]
    simp [QuotesInLines, bytes]
  · exact ⟨_, .token rfl (.skip rfl (.token rfl (.token rfl (.skip rfl (.skip rfl (.done rfl))))))⟩

theorem not_parse_withCrlf : ¬ ∀ s config, NginxConfig.parse s = some config → 13 ∉ s →
    (∀ ts, Cuts s ts → QuotesInLines ts) → NginxConfig.parse (withCrlf s) = some config := by
  intro claim
  have cut : Cuts (bytes "a\nb;") [.word (bytes "a"), .word (bytes "b"), .statementEnd] :=
    .token rfl (.skip rfl (.token rfl (.token rfl (.done rfl))))
  have parsed : NginxConfig.parse (bytes "a\nb;") =
      some { statements := [.mk [bytes "a", bytes "b"] none] } := rfl
  have quotes : ∀ ts, Cuts (bytes "a\nb;") ts → QuotesInLines ts := by
    intro ts cuts
    rw [scans_unique cuts cut]
    simp [QuotesInLines, bytes, isQuote]
  have same := claim _ _ parsed (by decide) quotes
  have other : NginxConfig.parse (withCrlf (bytes "a\nb;")) =
      some { statements := [.mk [bytes "a\r", bytes "b"] none] } := rfl
  have trees := other.symm.trans same
  simp [bytes] at trees

end TscServer.Proof
