import TscServer.Proof.Revalidation
import TscServer.Proof.ResponseText
import TscServer.Spec.CacheHit

/-!
# Serving a cache file

`serveFile` rewrites the Date and Cache-Control lines of a cache file and leaves its other lines and
its body as they are. On the way it can only put an empty entry into the cache.
-/

namespace TscServer.Proof
open Lib Model Spec ProxyHandler

/-! ## Lines and bodies -/

theorem restAfter_default (s rest : Bytes) (empty : s = [] → rest = []) :
    restAfter (getlines s) rest = bodyOf s := by
  rw [bodyOf]
  rcases getlines_cases s with rfl | ⟨-, lines⟩ | ⟨line, after, -, -, lines⟩
  · rw [empty rfl]
  · rw [lines, restAfter, restAfter, restAfter, restAfter]
  · rw [lines, restAfter, restAfter]

@[simp] theorem bodyOf_nil : bodyOf [] = [] := rfl

theorem bodyOf_line {line rest : Bytes} (noFeed : 10 ∉ line) (solid : line ≠ [13]) :
    bodyOf (line ++ 10 :: rest) = bodyOf rest := by
  rw [bodyOf, getlines_append noFeed, restAfter, if_neg solid, Option.getD_some]
  exact restAfter_default rest rest id

theorem bodyOf_blank (rest : Bytes) : bodyOf (crlf ++ rest) = rest := by
  have split : crlf ++ rest = [13] ++ 10 :: rest := rfl
  rw [bodyOf, split, getlines_append (by decide), restAfter, if_pos rfl, Option.getD_some]

theorem bodyOf_unterminated {line : Bytes} (lines : getlines line = [(line, none)]) :
    bodyOf line = [] := by
  rw [bodyOf, lines, restAfter]
  split
  · rfl
  · rfl

theorem statusLineOf_line {line rest : Bytes} (noFeed : 10 ∉ line) :
    statusLineOf (line ++ 10 :: rest) = line := by
  rw [statusLineOf, getlines_append noFeed]
  rfl

theorem mem_intToDecimal {n : Int} {c : UInt8} (mem : c ∈ intToDecimal n) : c = 45 ∨ isDigit c = true := by
  rw [intToDecimal] at mem
  split at mem
  · exact (List.mem_cons.mp mem).imp_right (isDigit_of_mem_toDecimal c)
  · exact .inr (isDigit_of_mem_toDecimal c mem)

theorem intToDecimal_noFeed (n : Int) : 10 ∉ intToDecimal n := fun feed =>
  absurd (mem_intToDecimal feed) (by decide)

theorem rewriteMaxAge_noFeed {maxAgeSec : Bytes} (sec : 10 ∉ maxAgeSec) {tokens : List Bytes}
    (noFeed : ∀ token ∈ tokens, 10 ∉ token) : 10 ∉ rewriteMaxAge maxAgeSec tokens := by
  have maxAge : 10 ∉ bytes "max-age=" := by decide
  have written (token : Bytes) (plain : 10 ∉ token) :
      10 ∉ (if contains (bytes "max-age") token then bytes "max-age=" ++ maxAgeSec else token) := by
    split
    · simp [maxAge, sec]
    · exact plain
  induction tokens with
  | nil => simp [rewriteMaxAge]
  | cons token tokens ih =>
      have here := noFeed token (by simp)
      have others := ih fun other mem => noFeed other (List.mem_cons_of_mem token mem)
      cases tokens with
      | nil =>
          rw [rewriteMaxAge]
          split
          · simp [maxAge, sec]
          · exact here
      | cons next tokens =>
          rw [rewriteMaxAge, List.mem_append, List.mem_cons]
          · simp [written token here, others]
          · intro never
            cases never

/-! ## Rewriting -/

/-- The clocks were read, and an entry was looked up that may not have been there. -/
structure Looked (path : Bytes) (s s' : ProxyState) : Prop where
  cache : s'.cache = s.cache ∨ s.cache.lookup path = none ∧ s'.cache = s.cache.insert path {}
  files : s'.files = s.files
  contacts : s'.contacts = s.contacts
  installs : s'.installs = s.installs
  readings : s.readings ≤ s'.readings

theorem Looked.refl (path : Bytes) (s : ProxyState) : Looked path s s :=
  ⟨.inl rfl, rfl, rfl, rfl, le_rfl⟩

theorem Looked.trans {path : Bytes} {s s' s'' : ProxyState} (first : Looked path s s')
    (second : Looked path s' s'') : Looked path s s'' where
  cache := by
    rcases first.cache with same | ⟨absent, inserted⟩
    · rw [← same]
      exact second.cache
    · rcases second.cache with same | ⟨absent', -⟩
      · exact .inr ⟨absent, same.trans inserted⟩
      · rw [inserted, AList.lookup_insert] at absent'
        cases absent'
  files := second.files.trans first.files
  contacts := second.contacts.trans first.contacts
  installs := second.installs.trans first.installs
  readings := first.readings.trans second.readings

theorem Looked.tick {path : Bytes} {s s' : ProxyState}
    (looked : Looked path { s with readings := s.readings + 1 } s') : Looked path s s' where
  cache := looked.cache
  files := looked.files
  contacts := looked.contacts
  installs := looked.installs
  readings := (Nat.le_succ _).trans looked.readings

section Rewrite
variable {env : Environment} {path : Bytes} {s : ProxyState}

-- what `operator[]` gives
def usedSign (path : Bytes) (s : ProxyState) : CacheSign := (s.cache.lookup path).getD {}

theorem Looked.usedSign {s' : ProxyState} (looked : Looked path s s') :
    usedSign path s' = usedSign path s := by
  rcases looked.cache with same | ⟨absent, inserted⟩
  · rw [Proof.usedSign, same, Proof.usedSign]
  · rw [Proof.usedSign, inserted, AList.lookup_insert, Proof.usedSign, absent]
    rfl

theorem entry_twp {E : Fault → ProxyState → Prop} : (entry path).twp
    (fun sign s' => Looked path s s' ∧ s'.readings = s.readings ∧ sign = usedSign path s) E s := by
  simp only [entry, usedSign, Proc.twp_bind, Proc.twp_get]
  cases absent : s.cache.lookup path with
  | none => exact ⟨⟨.inr ⟨absent, rfl⟩, rfl, rfl, rfl, le_rfl⟩, rfl, rfl⟩
  | some sign => exact ⟨Looked.refl path s, rfl, rfl⟩

-- a line without anything to rewrite
def Inert (line : Bytes) : Prop :=
  contains (bytes "Date:") line = false ∧ contains (bytes "Cache-Control") line = false

/-- What a line is written as, after a date was put into it if it is to have one. -/
inductive Controlled (line : Bytes) : Bytes → Prop
  | same : contains (bytes "Cache-Control") line = false → Controlled line line
  | control (seconds : Int) : contains (bytes "Cache-Control") line = true →
      Controlled line (bytes "Cache-Control: " ++
        rewriteMaxAge (intToDecimal seconds) ((takenValue line).splitOn 44))

inductive WrittenAs (env : Environment) (line : Bytes) : Bytes → Prop
  | undated {written : Bytes} : contains (bytes "Date:") line = false → Controlled line written →
      WrittenAs env line written
  | dated {written : Bytes} (n : Nat) : contains (bytes "Date:") line = true →
      Controlled (bytes "Date: " ++ env.date n ++ [13]) written → WrittenAs env line written

theorem writtenAs_inert {line written : Bytes} (inert : Inert line) (as : WrittenAs env line written) :
    written = line := by
  cases as with
  | undated _ controlled =>
      cases controlled with
      | same _ => rfl
      | control _ control => exact absurd (control.symm.trans inert.2) (by decide)
  | dated _ dated _ => exact absurd (dated.symm.trans inert.1) (by decide)

theorem controlled_line {line written : Bytes} (noFeed : 10 ∉ line) (solid : line ≠ [13])
    (controlled : Controlled line written) : 10 ∉ written ∧ written ≠ [13] := by
  cases controlled with
  | same _ => exact ⟨noFeed, solid⟩
  | control seconds _ =>
      have inside : takenValue line <:+ line := by
        rw [takenValue, substrFrom]
        split
        · exact List.drop_suffix _ _
        · exact List.nil_suffix
      have tokens : ∀ token ∈ (takenValue line).splitOn 44, 10 ∉ token := by
        intro token mem feed
        have part : token <:+: takenValue line := (splitOnP_parts _ (takenValue line)).2 token mem
        exact noFeed (inside.subset (part.subset feed))
      constructor
      · rw [List.mem_append, not_or]
        exact ⟨by decide, rewriteMaxAge_noFeed (intToDecimal_noFeed _) tokens⟩
      · exact fun same => absurd (congrArg List.length same) (by simp [bytes])

theorem writtenAs_line {line written : Bytes} (noFeed : 10 ∉ line) (solid : line ≠ [13])
    (as : WrittenAs env line written) : 10 ∉ written ∧ written ≠ [13] := by
  cases as with
  | undated _ controlled => exact controlled_line noFeed solid controlled
  | dated n _ controlled =>
      apply controlled_line _ _ controlled
      · simp [env.date_oneLine, bytes]
      · exact fun same => absurd (congrArg List.length same) (by simp [bytes])

/-- What is written for a line from the `n`-th reading of the clocks on, and the readings after it. -/
inductive RewrittenAt (env : Environment) (sign : CacheSign) (n : Nat) (line : Bytes) :
    Bytes → Nat → Prop
  | same : contains (bytes "Cache-Control") line = false → RewrittenAt env sign n line line n
  | control : contains (bytes "Cache-Control") line = true → RewrittenAt env sign n line
      (bytes "Cache-Control: " ++ rewriteMaxAge (intToDecimal (secondsLeft (env.clock n) sign.expiration))
        ((takenValue line).splitOn 44)) (n + 1)

theorem controlled_of_rewrittenAt {sign : CacheSign} {n n' : Nat} {line written : Bytes}
    (rewritten : RewrittenAt env sign n line written n') : Controlled line written := by
  cases rewritten with
  | same free => exact .same free
  | control control => exact .control _ control

theorem rewriteCacheControl_twp (line : Bytes) :
    (if contains (bytes "Cache-Control") line then do
        let now ← localTime env
        let sign ← entry path
        let value ← Proc.ofOption .outOfRange (substrFrom line (offset (find (bytes ": ") line) 2))
        let maxAgeSec := intToDecimal (secondsLeft now sign.expiration)
        return bytes "Cache-Control: " ++ rewriteMaxAge maxAgeSec (value.splitOn 44)
      else return line : ProxyProc Bytes).twp
      (fun written s' => Looked path s s' ∧
        RewrittenAt env (usedSign path s) s.readings line written s'.readings) (fun _ _ => False) s := by
  cases control : contains (bytes "Cache-Control") line with
  | false => exact ⟨Looked.refl path s, .same control⟩
  | true =>
      have nonempty : line ≠ [] := by
        rintro rfl
        exact absurd control (by decide)
      obtain ⟨value, cut⟩ := Option.isSome_iff_exists.mp (etag_isSome nonempty)
      have taken : takenValue line = value := by rw [takenValue, cut, Option.getD_some]
      simp only [if_true, Proc.twp_bind, localTime, Proc.twp_get, Proc.twp_modify, Proc.twp_pure]
      apply Proc.twp_mono entry_twp _ (fun _ _ never => never)
      rintro sign s' ⟨looked, readings, rfl⟩
      rw [cut, Proc.ofOption_some, Proc.twp_pure, ← taken, readings]
      exact ⟨looked.tick, .control control⟩

theorem rewriteLine_exact (line : Bytes) : (rewriteLine env path line).twp
    (fun written s' => Looked path s s' ∧ RewrittenAt env (usedSign path s)
      (afterDate s.readings line) (datedLine env s.readings line) written s'.readings)
    (fun _ _ => False) s := by
  rw [rewriteLine]
  cases dated : contains (bytes "Date:") line with
  | false =>
      simp only [Bool.false_eq_true, if_false, Proc.pure_bind, afterDate, datedLine, dated]
      exact rewriteCacheControl_twp line
  | true =>
      simp only [if_true, universalTime, Proc.twp_bind, Proc.twp_get, Proc.twp_modify, Proc.twp_pure,
        afterDate, datedLine, dated]
      apply Proc.twp_mono (rewriteCacheControl_twp _) _ (fun _ _ never => never)
      exact fun written s' ended => ⟨ended.1.tick, ended.2⟩

theorem rewriteLine_twp (line : Bytes) :
    (rewriteLine env path line).twp
      (fun written s' => Looked path s s' ∧ WrittenAs env line written) (fun _ _ => False) s := by
  apply Proc.twp_mono (rewriteLine_exact line) _ (fun _ _ never => never)
  rintro written s' ⟨looked, rewritten⟩
  have controlled := controlled_of_rewrittenAt rewritten
  rw [datedLine] at controlled
  cases dated : contains (bytes "Date:") line with
  | false =>
      rw [dated] at controlled
      exact ⟨looked, .undated dated controlled⟩
  | true =>
      rw [dated] at controlled
      exact ⟨looked, .dated s.readings dated controlled⟩

/-- The body is not touched, and neither is a first line without anything to rewrite. -/
structure Rewritten (content raw : Bytes) : Prop where
  body : bodyOf raw = bodyOf content
  statusLine : Inert (statusLineOf content) → statusLineOf content ≠ [13] → content ≠ [] →
    statusLineOf raw = statusLineOf content

theorem serveLines_twp (content : Bytes) :
    (serveLines env path (getlines content)).twp
      (fun raw s' => Looked path s s' ∧ Rewritten content raw) (fun _ _ => False) s := by
  induction length : content.length using Nat.strongRecOn generalizing content s with
  | ind n ih =>
      rcases getlines_cases content with rfl | ⟨noFeed, lines⟩ | ⟨line, rest, noFeed, rfl, lines⟩
      · refine ⟨Looked.refl path s, ⟨rfl, fun _ _ nonempty => absurd rfl nonempty⟩⟩
      · rw [lines, serveLines]
        have first : statusLineOf content = content := by
          rw [statusLineOf, lines]
          rfl
        have body := bodyOf_unterminated lines
        by_cases blank : content = [13]
        · rw [if_pos blank, Proc.twp_pure]
          refine ⟨Looked.refl path s, ⟨?_, fun _ solid => absurd (first.trans blank) solid⟩⟩
          rw [body]
          exact bodyOf_blank []
        · rw [if_neg blank, Proc.twp_bind]
          apply Proc.twp_mono (rewriteLine_twp content) _ (fun _ _ never => never)
          intro written s' ended
          obtain ⟨looked, as⟩ := ended
          obtain ⟨noFeed', solid⟩ := writtenAs_line noFeed blank as
          refine ⟨looked, ⟨?_, fun inert _ _ => ?_⟩⟩
          · rw [bodyOf_line noFeed' solid, body, bodyOf_nil]
          · rw [first] at inert ⊢
            rw [statusLineOf_line noFeed', writtenAs_inert inert as]
      · rw [lines, serveLines]
        have first : statusLineOf (line ++ 10 :: rest) = line := statusLineOf_line noFeed
        by_cases blank : line = [13]
        · rw [if_pos blank, Proc.twp_pure]
          refine ⟨Looked.refl path s, ⟨?_, fun _ solid => absurd (first.trans blank) solid⟩⟩
          rw [blank, Option.getD_some]
          rfl
        · rw [if_neg blank, Proc.twp_bind]
          have shorter : rest.length < n := by
            rw [← length, List.length_append, List.length_cons]
            omega
          apply Proc.twp_mono (rewriteLine_twp line) _ (fun _ _ never => never)
          intro written s' ended
          obtain ⟨looked, as⟩ := ended
          obtain ⟨noFeed', solid⟩ := writtenAs_line noFeed blank as
          rw [Proc.twp_bind]
          apply Proc.twp_mono (ih rest.length shorter rest rfl) _ (fun _ _ never => never)
          intro following s'' ended
          obtain ⟨looked', rewritten⟩ := ended
          refine ⟨looked.trans looked', ⟨?_, fun inert _ _ => ?_⟩⟩
          · rw [bodyOf_line noFeed' solid, bodyOf_line noFeed blank, rewritten.body]
          · rw [first] at inert ⊢
            rw [statusLineOf_line noFeed', writtenAs_inert inert as]

def Serves (path content : Bytes) (s s' : ProxyState) (response : Response) : Prop :=
  Looked path s s' ∧ Rewritten content response.rawResponse

theorem serveFile_twp {content : Bytes} (readable : s.files.read (cachePath env path) = some content)
    (response : Response) : (serveFile env path response).twp
      (fun response' s' => Serves path content s s' response') (fun _ _ => False) s := by
  simp only [serveFile, Proc.twp_bind, Proc.twp_get, readable]
  exact Proc.twp_mono (serveLines_twp content) (fun raw s' served => served) (fun _ _ never => never)

theorem serveFile_wp (response : Response) : (serveFile env path response).wp
    (fun response' s' => ∃ content, s.files.read (cachePath env path) = some content ∧
      Serves path content s s' response') (fun _ _ => False) s := by
  cases readable : s.files.read (cachePath env path) with
  | none =>
      simp only [serveFile, Proc.wp_bind, Proc.wp_get, readable]
      trivial
  | some content =>
      apply Proc.wp_mono (Proc.wp_of_twp (serveFile_twp readable response)) _ (fun _ _ never => never)
      exact fun response' s' served => ⟨content, rfl, served⟩

end Rewrite
end TscServer.Proof
