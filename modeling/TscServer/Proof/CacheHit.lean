import TscServer.Proof.Serving
import TscServer.Proof.Transparency

/-!
# What a cache hit sends

The lines of a cache file are rewritten one by one, wherever `Date:` or `Cache-Control` occurs in them.
`hit_reproduces_iff` says for which files this changes nothing else.
-/

namespace TscServer.Proof
open Lib Model Spec ProxyHandler

/-! ## Directives -/

theorem maxAge_written {blank : Bytes} (blanks : blank = [] ∨ blank = [32]) (argument : Bytes) :
    MaxAge (blank ++ (bytes "max-age=" ++ argument)) := by
  have text : blank ++ (bytes "max-age=" ++ argument) = (blank ++ bytes "max-age") ++ 61 :: argument := by
    rw [List.append_assoc]
    rfl
  have name : (blank ++ (bytes "max-age=" ++ argument)).takeWhile (· != 61) = blank ++ bytes "max-age" := by
    rw [text]
    rcases blanks with rfl | rfl
    · exact takeWhile_append_stop (by simp [bytes]) (by simp)
    · exact takeWhile_append_stop (by simp [bytes]) (by simp)
  rw [MaxAge, name]
  rcases blanks with rfl | rfl
  · decide
  · decide

def Rewrites (token token' : Bytes) : Prop :=
  if contains (bytes "max-age") token then MaxAge token' else token' = token

theorem keptDirective_iff {directive token token' : Bytes} (rewrites : Rewrites token token') :
    KeptDirective directive token' ↔ TakenFor directive token := by
  unfold Rewrites at rewrites
  unfold TakenFor KeptDirective
  split at rewrites
  · rename_i replaced
    rw [if_pos replaced]
    constructor
    · intro kept
      rcases kept with rfl | both
      · exact rewrites
      · exact both.1
    · exact fun maxAge => .inr ⟨maxAge, rewrites⟩
  · rename_i copied
    rw [if_neg copied, rewrites]

theorem keptDirectives_iff {directives tokens tokens' : List Bytes}
    (rewrites : List.Forall₂ Rewrites tokens tokens') :
    List.Forall₂ KeptDirective directives tokens' ↔ List.Forall₂ TakenFor directives tokens := by
  induction rewrites generalizing directives with
  | nil => rw [List.forall₂_nil_right_iff, List.forall₂_nil_right_iff]
  | cons here _ ih =>
      rw [List.forall₂_cons_right_iff, List.forall₂_cons_right_iff]
      simp only [keptDirective_iff here, ih]

/-- A directive with the seconds in it for every token that mentions one, and a copy of the others. -/
inductive Replaces (token : Bytes) : Bytes → Prop
  | copied : contains (bytes "max-age") token = false → Replaces token token
  | replaced {argument : Bytes} : contains (bytes "max-age") token = true → 44 ∉ argument →
      Replaces token (bytes "max-age=" ++ argument)

theorem rewriteMaxAge_replaces {sec : Bytes} (noComma : 44 ∉ sec) {tokens : List Bytes}
    (nonempty : tokens ≠ []) : ∃ tokens', rewriteMaxAge sec tokens = [44].intercalate tokens' ∧
      List.Forall₂ Replaces tokens tokens' := by
  induction tokens with
  | nil => exact absurd rfl nonempty
  | cons token tokens ih =>
      have choose (argument : Bytes) (plain : 44 ∉ argument) : Replaces token
          (if contains (bytes "max-age") token then bytes "max-age=" ++ argument else token) := by
        cases mentions : contains (bytes "max-age") token with
        | true => exact .replaced mentions plain
        | false => exact .copied mentions
      cases tokens with
      | nil =>
          refine ⟨[_], ?_, .cons (choose (sec ++ [13]) (by simp [noComma])) .nil⟩
          rw [rewriteMaxAge, List.intercalate_singleton, List.append_assoc]
      | cons next tokens =>
          obtain ⟨tokens', text, replaces⟩ := ih (by simp)
          have some_ : tokens' ≠ [] := by
            rintro rfl
            cases replaces
          refine ⟨_ :: tokens', ?_, .cons (choose sec noComma) replaces⟩
          rw [rewriteMaxAge, List.intercalate_cons_of_ne_nil some_, ← text, List.append_assoc]
          · rfl
          · intro never
            cases never

theorem noComma_of_replaces {token token' : Bytes} (replaces : Replaces token token')
    (noComma : 44 ∉ token) : 44 ∉ token' := by
  cases replaces with
  | copied _ => exact noComma
  | replaced _ plain =>
      rw [List.mem_append, not_or]
      exact ⟨by decide, plain⟩

theorem rewrites_of_replaces {token token' : Bytes} (replaces : Replaces token token') :
    Rewrites token token' := by
  unfold Rewrites
  cases replaces with
  | copied copies => rw [if_neg (by simp [copies])]
  | replaced mentions _ =>
      rw [if_pos mentions]
      exact maxAge_written (.inl rfl) _

theorem rewrites_blank {token token' : Bytes} (replaces : Replaces token token') :
    Rewrites (32 :: token) (32 :: token') := by
  have same : contains (bytes "max-age") (32 :: token) = contains (bytes "max-age") token := by
    rw [Bool.eq_iff_iff, contains_iff, contains_iff, List.infix_cons_iff]
    exact or_iff_right fun start => absurd (List.cons_prefix_cons.mp start).1 (by decide)
  unfold Rewrites
  rw [same]
  cases replaces with
  | copied copies => rw [if_neg (by simp [copies])]
  | replaced mentions _ =>
      rw [if_pos mentions]
      exact maxAge_written (.inr rfl) _

theorem rewrites_tokens {sec : Bytes} (noComma : 44 ∉ sec) (value : Bytes) :
    List.Forall₂ Rewrites ((32 :: value).splitOn 44)
      ((32 :: rewriteMaxAge sec (value.splitOn 44)).splitOn 44) := by
  obtain ⟨tokens', text, replaces⟩ := rewriteMaxAge_replaces noComma (List.splitOn_ne_nil 44 value)
  obtain ⟨token, tokens, split⟩ := List.exists_cons_of_ne_nil (List.splitOn_ne_nil 44 value)
  have plain : ∀ other ∈ token :: tokens, 44 ∉ other := by
    intro other mem
    exact notMem_of_mem_splitOn (split ▸ mem)
  rw [text, List.splitOn_cons_eq_if_modifyHead, if_neg (by decide), split, List.modifyHead_cons]
  rw [split] at replaces
  cases replaces with
  | @cons _ token' _ tokens' here rest =>
      have plain' : ∀ other ∈ (32 :: token') :: tokens', 44 ∉ other := by
        intro other mem
        rcases List.mem_cons.mp mem with rfl | mem
        · simp [noComma_of_replaces here (plain token (by simp))]
        · obtain ⟨origin, inside, replaces⟩ := exists_left_of_forall₂ rest mem
          exact noComma_of_replaces replaces (plain origin (by simp [inside]))
      rw [← List.intercalate_cons_cons_left, List.splitOn_intercalate 44 plain' (by simp)]
      exact .cons (rewrites_blank here) (rest.imp fun _ _ => rewrites_of_replaces)

/-! ## Lines -/

theorem name_of_kept {line name value' : Bytes} (noColon : 58 ∉ name)
    (kept : KeptLine line (name ++ 58 :: value')) : ∃ value, line = name ++ 58 :: value ∧
      (lower name = lower (bytes "Date") ∨
        List.Forall₂ KeptDirective (value.splitOn 44) (value'.splitOn 44)) := by
  have plain {other key : Bytes} (same : lower other = lower key) (noColon' : 58 ∉ key) : 58 ∉ other := by
    rwa [mem_iff_of_lower_eq (by decide) same]
  generalize written : name ++ 58 :: value' = line' at kept
  cases kept with
  | same => exact ⟨value', written.symm, .inr (List.forall₂_same.mpr fun _ _ => .inl rfl)⟩
  | @date other value value'' named =>
      obtain ⟨rfl, rfl⟩ := cut_unique noColon (plain named (by decide)) written
      exact ⟨value, rfl, .inl named⟩
  | @cacheControl other value value'' named directives =>
      obtain ⟨rfl, rfl⟩ := cut_unique noColon (plain named (by decide)) written
      exact ⟨value, rfl, .inr directives⟩

theorem keptLine_date_iff {line : Bytes} (text : Bytes) :
    KeptLine line (bytes "Date: " ++ text) ↔ bytes "Date:" <+: line := by
  have written : bytes "Date: " ++ text = bytes "Date" ++ 58 :: (32 :: text) := rfl
  rw [written]
  constructor
  · intro kept
    obtain ⟨value, rfl, -⟩ := name_of_kept (by decide) kept
    exact ⟨value, rfl⟩
  · rintro ⟨value, rfl⟩
    exact .date value (32 :: text) rfl

-- the colon ends the name, and a blank follows it when the server writes the line
theorem control_colon (value : Bytes) :
    bytes "Cache-Control:" ++ value = bytes "Cache-Control" ++ 58 :: value := by
  simp [bytes]

theorem control_blank (value : Bytes) :
    bytes "Cache-Control: " ++ value = bytes "Cache-Control:" ++ 32 :: value := by
  simp [bytes]

theorem keptLine_control_iff {line value' : Bytes} :
    KeptLine line (bytes "Cache-Control:" ++ value') ↔ ∃ value, line = bytes "Cache-Control:" ++ value ∧
      List.Forall₂ KeptDirective (value.splitOn 44) (value'.splitOn 44) := by
  simp only [control_colon]
  constructor
  · intro kept
    obtain ⟨value, same, directives⟩ := name_of_kept (by decide) kept
    exact ⟨value, same, directives.resolve_left (by decide)⟩
  · rintro ⟨value, rfl, directives⟩
    exact .cacheControl rfl directives

theorem contains_control_date (date : Bytes) :
    contains (bytes "Cache-Control") (bytes "Date: " ++ date ++ [13]) =
      contains (bytes "Cache-Control") date := by
  rw [Bool.eq_iff_iff, contains_iff, contains_iff]
  constructor
  · intro inside
    have front : bytes "Cache-Control" <:+: date ++ [13] := by
      have text : bytes "Date: " ++ date ++ [13] =
          68 :: 97 :: 116 :: 101 :: 58 :: 32 :: (date ++ [13]) := by simp [bytes]
      rw [text] at inside
      simpa [List.infix_cons_iff, bytes] using inside
    refine (List.infix_concat_iff.mp front).resolve_left fun ends => ?_
    obtain ⟨before, same⟩ := ends
    have last := congrArg List.getLast? same
    rw [List.getLast?_concat, List.getLast?_append_of_ne_nil _ (by decide)] at last
    exact absurd last (by decide)
  · intro inside
    exact inside.trans ⟨bytes "Date: ", [13], rfl⟩

theorem keptLine_iff {env : Environment}
    (dates : ∀ n, contains (bytes "Cache-Control") (env.date n) = false) {line written : Bytes}
    (as : WrittenAs env line written) : KeptLine line written ↔ RewritesRight line := by
  unfold RewritesRight
  cases as with
  | dated n dated controlled =>
      rw [if_pos dated]
      cases controlled with
      | same _ =>
          rw [List.append_assoc]
          exact keptLine_date_iff _
      | control _ control =>
          rw [contains_control_date, dates n] at control
          cases control
  | undated undated controlled =>
      rw [if_neg (by simp [undated])]
      cases controlled with
      | same free =>
          constructor
          · intro _ control
            exact absurd (free.symm.trans control) (by decide)
          · intro _
            exact .same line
      | control seconds control =>
          have noComma : 44 ∉ intToDecimal seconds := fun comma =>
            absurd (mem_intToDecimal comma) (by decide)
          rw [control_blank, keptLine_control_iff]
          simp only [keptDirectives_iff (rewrites_tokens noComma _), control, true_imp_iff]

theorem takenValue_control (value : Bytes) : takenValue (bytes "Cache-Control: " ++ value) = value := by
  have found : find (bytes ": ") (bytes "Cache-Control: " ++ value) = some 13 := rfl
  rw [takenValue, found]
  simp [substrFrom, offset, bytes]

/-- When a blank follows the colon, only a directive that mentions `max-age` without being one is lost. -/
theorem rewritesRight_control {value : Bytes}
    (undated : contains (bytes "Date:") (bytes "Cache-Control: " ++ value) = false) :
    RewritesRight (bytes "Cache-Control: " ++ value) ↔ ∀ directive ∈ (32 :: value).splitOn 44,
      contains (bytes "max-age") directive = true → MaxAge directive := by
  have named : contains (bytes "Cache-Control") (bytes "Cache-Control: " ++ value) = true :=
    contains_iff.mpr ⟨[], bytes ": " ++ value, rfl⟩
  have itself (directive : Bytes) : TakenFor directive directive ↔
      (contains (bytes "max-age") directive = true → MaxAge directive) := by
    unfold TakenFor
    split
    · rename_i mentions
      simp [mentions]
    · rename_i silent
      simp [silent, KeptDirective]
  rw [RewritesRight, if_neg (by simp [undated]), takenValue_control]
  simp only [named, true_imp_iff]
  rw [control_blank]
  constructor
  · rintro ⟨other, same, taken⟩
    obtain rfl := List.append_cancel_left same
    exact fun directive mem => (itself directive).mp (List.forall₂_same.mp taken directive mem)
  · intro all
    exact ⟨_, rfl, List.forall₂_same.mpr fun directive mem => (itself directive).mpr (all directive mem)⟩

theorem keptStatus_iff {env : Environment} {line written : Bytes} (http : bytes "HTTP/" <+: line)
    (as : WrittenAs env line written) : written = line ↔ Inert line := by
  refine ⟨fun same => ?_, fun inert => writtenAs_inert inert as⟩
  obtain ⟨rest, rfl⟩ := http
  cases as with
  | dated n dated controlled =>
      cases controlled with
      | same _ => exact absurd (List.cons.inj same).1 (by decide)
      | control _ _ => exact absurd (List.cons.inj same).1 (by decide)
  | undated undated controlled =>
      cases controlled with
      | same free => exact ⟨undated, free⟩
      | control _ _ => exact absurd (List.cons.inj same).1 (by decide)

/-! ## Files -/

theorem fieldLines_block {first : Bytes} {lines : List Bytes} (solid : Solid (first :: lines))
    (after : Bytes) : fieldLines (block (first :: lines) ++ crlf ++ after) = lines := by
  have others : Solid lines := fun line mem => solid line (List.mem_cons_of_mem first mem)
  rw [fieldLines, getlines_block (solid first (by simp)).1, List.map_cons, List.tail_cons]
  clear solid
  induction lines with
  | nil =>
      rw [getlines_blank, List.map_cons, List.takeWhile_cons_of_neg (by simp)]
  | cons line lines ih =>
      have here := others line (by simp)
      rw [getlines_block here.1, List.map_cons, List.takeWhile_cons_of_pos (by simpa using here.2),
        ih fun other mem => others other (List.mem_cons_of_mem line mem)]

theorem statusLineOf_block {first : Bytes} {lines : List Bytes} (solid : Solid (first :: lines))
    (after : Bytes) : statusLineOf (block (first :: lines) ++ crlf ++ after) = first := by
  rw [statusLineOf, getlines_block (solid first (by simp)).1]
  rfl

theorem exists_solid {lines : List Bytes} (noFeed : ∀ line ∈ lines, 10 ∉ line) (after : Bytes) :
    ∃ solid after', Solid solid ∧ block lines ++ crlf ++ after = block solid ++ crlf ++ after' := by
  induction lines with
  | nil => exact ⟨[], after, by simp [Solid], rfl⟩
  | cons line lines ih =>
      by_cases blank : line = [13]
      · refine ⟨[], block lines ++ crlf ++ after, by simp [Solid], ?_⟩
        rw [blank]
        simp [block, crlf]
      · obtain ⟨solid, after', others, same⟩ := ih fun other mem => noFeed other (by simp [mem])
        refine ⟨line :: solid, after', ?_, ?_⟩
        · simpa [Solid] using ⟨⟨noFeed line (by simp), blank⟩, others⟩
        · simpa [block] using same

theorem raw_block {d : Delivered} (oneLine : OneLine d) :
    ∃ lines after, Solid (d.statusLine :: lines) ∧
      d.raw = block (d.statusLine :: lines) ++ crlf ++ after := by
  obtain ⟨lines, after, solid, same⟩ := exists_solid oneLine.dropLast d.body
  have blank : d.statusLine ≠ [13] := by
    intro same
    have space : 32 ∈ d.statusLine := by simp [Delivered.statusLine, bytes]
    rw [same] at space
    exact absurd space (by decide)
  refine ⟨lines, after, ?_, ?_⟩
  · simpa [Solid] using ⟨⟨oneLine.statusLine, blank⟩, solid⟩
  · have text : d.raw = d.statusLine ++ 10 :: (block (d.lines.map List.dropLast) ++ crlf ++ d.body) := by
      simp [Delivered.raw, Delivered.statusLine, StatusLine.toBytes, block, crlf, List.flatMap_map]
    rw [text, same]
    simp [block]

section Hit
variable {env : Environment} {path : Bytes} {s : ProxyState}

theorem serveLines_block_twp {lines : List Bytes} (solid : Solid lines) (after : Bytes) :
    (serveLines env path (getlines (block lines ++ crlf ++ after))).twp
      (fun raw s' => Looked path s s' ∧ ∃ written, List.Forall₂ (WrittenAs env) lines written ∧
        raw = block written ++ crlf ++ after) (fun _ _ => False) s := by
  induction lines generalizing s with
  | nil =>
      rw [getlines_blank, serveLines, if_pos rfl, Proc.twp_pure]
      exact ⟨Looked.refl path s, [], .nil, rfl⟩
  | cons line lines ih =>
      have here := solid line (by simp)
      rw [getlines_block here.1, serveLines, if_neg here.2, Proc.twp_bind]
      apply Proc.twp_mono (rewriteLine_twp line) _ (fun _ _ never => never)
      intro written s' ended
      obtain ⟨looked, as⟩ := ended
      rw [Proc.twp_bind]
      apply Proc.twp_mono (ih fun other mem => solid other (List.mem_cons_of_mem line mem)) _
        (fun _ _ never => never)
      intro following s'' ended
      obtain ⟨looked', others, all, rfl⟩ := ended
      exact ⟨looked.trans looked', written :: others, .cons as all, by simp [block]⟩

theorem keptLines_iff (dates : ∀ n, contains (bytes "Cache-Control") (env.date n) = false)
    {lines lines' : List Bytes} (written : List.Forall₂ (WrittenAs env) lines lines') :
    List.Forall₂ KeptLine lines lines' ↔ ∀ line ∈ lines, RewritesRight line := by
  induction written with
  | nil => simp
  | cons as _ ih => rw [List.forall₂_cons, List.forall_mem_cons, keptLine_iff dates as, ih]

theorem reproduces_iff (dates : ∀ n, contains (bytes "Cache-Control") (env.date n) = false)
    {first : Bytes} {lines written : List Bytes} (solid : Solid (first :: lines))
    (http : bytes "HTTP/" <+: first)
    (all : List.Forall₂ (WrittenAs env) (first :: lines) written) (after : Bytes) :
    Reproduces (block (first :: lines) ++ crlf ++ after) (block written ++ crlf ++ after) ↔
      Reproducible (block (first :: lines) ++ crlf ++ after) := by
  have solid' : Solid written := by
    intro line mem
    obtain ⟨origin, inside, as⟩ := exists_left_of_forall₂ all mem
    exact writtenAs_line (solid origin inside).1 (solid origin inside).2 as
  obtain ⟨first', lines', status, fields, rfl⟩ := List.forall₂_cons_left_iff.mp all
  constructor
  · intro same
    have inert : Inert first := by
      have line := same.statusLine
      rw [statusLineOf_block solid, statusLineOf_block solid'] at line
      exact (keptStatus_iff http status).mp line
    have kept := same.lines
    rw [fieldLines_block solid, fieldLines_block solid', keptLines_iff dates fields] at kept
    constructor
    · rw [statusLineOf_block solid]
      exact inert.1
    · rw [statusLineOf_block solid]
      exact inert.2
    · rwa [fieldLines_block solid]
  · intro right
    have inert : Inert first := by
      have undated := right.undated
      have uncontrolled := right.uncontrolled
      rw [statusLineOf_block solid] at undated uncontrolled
      exact ⟨undated, uncontrolled⟩
    have lines := right.lines
    rw [fieldLines_block solid, ← keptLines_iff dates fields] at lines
    constructor
    · rw [statusLineOf_block solid, statusLineOf_block solid']
      exact (keptStatus_iff http status).mpr inert
    · rwa [fieldLines_block solid, fieldLines_block solid']
    · rw [bodyOf, bodyOf, restAfter_block solid, restAfter_block solid']

theorem handleCache_fresh_twp (handler : ProxyHandler) (inner : Inner) (response : Response)
    {uri content : Bytes} {sign : CacheSign} (cached : s.cache.lookup (cacheKey uri) = some sign)
    (fresh : sign.expiration.expired (env.clock s.readings) = false)
    (stored : s.files.read (cachePath env (cacheKey uri)) = some content)
    {Q : Bytes → ProxyState → Prop}
    (served : (serveLines env (cacheKey uri) (getlines content)).twp Q (fun _ _ => False)
      { s with readings := s.readings + 1 }) :
    (handleCache env handler inner uri response).twp
      (fun answer s' => ∃ response', answer = some response' ∧ Q response'.rawResponse s')
      (fun _ _ => False) s := by
  simp only [handleCache, Proc.twp_bind, Proc.twp_get, cached, localTime, Proc.twp_modify,
    Proc.twp_pure, fresh, Bool.false_eq_true, if_false, if_true, serveFile, stored]
  exact Proc.twp_mono served (fun raw s' holds => ⟨_, rfl, holds⟩) (fun _ _ never => never)

theorem hit_reproduces_iff {handler : ProxyHandler} {inner : Inner} {uri : Bytes} {response : Response}
    {answer : Answer} {d : Delivered} {sign : CacheSign} (arrived : delivery answer = .response d)
    (http : bytes "HTTP/" <+: d.line.version)
    (dates : ∀ n, contains (bytes "Cache-Control") (env.date n) = false)
    (cached : s.cache.lookup (cacheKey uri) = some sign)
    (fresh : sign.expiration.expired (env.clock s.readings) = false)
    (stored : s.files.read (cachePath env (cacheKey uri)) = some d.raw) :
    ∃ response' s', (handleCache env handler inner uri response).run s = .done (some response') s' ∧
      (Reproduces d.raw response'.rawResponse ↔ Reproducible d.raw) := by
  obtain ⟨lines, after, solid, text⟩ := raw_block (delivery_oneLine arrived)
  have http' : bytes "HTTP/" <+: d.statusLine :=
    http.trans ⟨bytes " " ++ toDecimal d.code ++ d.line.message, by simp [Delivered.statusLine]⟩
  rw [text] at stored ⊢
  have ended := handleCache_fresh_twp handler inner response cached fresh stored
    (serveLines_block_twp solid after)
  obtain ⟨_, s', ran, response', rfl, -, written, all, raw⟩ := Proc.done_of_twp ended
  refine ⟨response', s', ran, ?_⟩
  rw [raw]
  exact reproduces_iff dates solid http' all after

end Hit

/-! ## A header that is lost -/

-- a response with one more header, and the handler after it was stored
def taggedAnswer (header : Bytes) : Answer :=
  .stream [bytes "HTTP/1.1 200 OK\r\nCache-Control: max-age=60\r\n" ++ header ++ crlfcrlf ++ bytes "a"] true

def storedState (content : Bytes) : ProxyState where
  cache := (∅ : AList fun _ : Bytes => CacheSign).insert (bytes "/x") { expiration := .at 60 }
  files := fun location =>
    if location = [bytes "proxy_cache", bytes "x"] then some (.file content) else emptyDisk location

theorem stored_read (content : Bytes) : (storedState content).files.read
    (cachePath (scripted []) (cacheKey (bytes "/x"))) = some content := by
  have place : cachePath (scripted []) (cacheKey (bytes "/x")) =
      [.name (bytes "proxy_cache"), .here, .name (bytes "x")] := by decide
  rw [place]
  rfl

theorem stored_cached (content : Bytes) : (storedState content).cache.lookup (cacheKey (bytes "/x")) =
    some { expiration := .at 60 } := by
  have key : cacheKey (bytes "/x") = bytes "/x" := by decide
  rw [key]
  exact AList.lookup_insert _

theorem reproducible_server :
    Reproducible (bytes "HTTP/1.1 200 OK\r\nCache-Control: max-age=60\nServer: x\n\r\na") := by
  have fields : fieldLines (bytes "HTTP/1.1 200 OK\r\nCache-Control: max-age=60\nServer: x\n\r\na") =
      [bytes "Cache-Control: max-age=60", bytes "Server: x"] := by decide
  refine ⟨by decide, by decide, ?_⟩
  rw [fields]
  intro line mem
  simp only [List.mem_cons, List.not_mem_nil, or_false] at mem
  rcases mem with rfl | rfl
  · have directive : TakenFor (bytes " max-age=60") (bytes " max-age=60") := by
      rw [TakenFor, if_pos (by decide)]
      decide
    rw [RewritesRight, if_neg (by decide)]
    exact fun _ => ⟨bytes " max-age=60", rfl, .cons directive .nil⟩
  · rw [RewritesRight, if_neg (by decide)]
    exact fun controls => absurd controls (by decide)

theorem hit_reproduces_server : ∃ d response' s',
    delivery (taggedAnswer (bytes "Server: x")) = .response d ∧
      (handleCache (scripted []) demoProxy (fun _ _ => Proc.spin) (bytes "/x") {}).run
        (storedState d.raw) = .done (some response') s' ∧
      Reproduces d.raw response'.rawResponse := by
  have computed : (responseOf (delivery (taggedAnswer (bytes "Server: x")))).map
      (fun d => (d.line.version, d.raw)) =
        some (bytes "HTTP/1.1", bytes "HTTP/1.1 200 OK\r\nCache-Control: max-age=60\nServer: x\n\r\na") := by decide
  obtain ⟨d, same, read⟩ := Option.map_eq_some_iff.mp computed
  obtain ⟨version, raw⟩ := Prod.mk.inj read
  have arrived := delivery_eq same
  have dates : contains (bytes "Cache-Control") (bytes "Thu, 01, Jan, 1970, 00:00:00 GMT") = false := by
    decide
  have hit : ∃ response' s', (handleCache (scripted []) demoProxy (fun _ _ => Proc.spin) (bytes "/x")
      {}).run (storedState d.raw) = .done (some response') s' ∧
      (Reproduces d.raw response'.rawResponse ↔ Reproducible d.raw) :=
    hit_reproduces_iff arrived (version ▸ ⟨bytes "1.1", rfl⟩) (fun _ => dates) (stored_cached d.raw)
      rfl (stored_read d.raw)
  obtain ⟨response', s', hit, reproduces⟩ := hit
  exact ⟨d, response', s', arrived, hit, reproduces.mpr (raw ▸ reproducible_server)⟩

theorem not_reproduced : ¬ ∀ (env : Environment) (handler : ProxyHandler) (inner : Inner) (uri : Bytes)
    (response response' : Response) (s s' : ProxyState) (sign : CacheSign) (answer : Answer)
    (d : Delivered), delivery answer = .response d → s.cache.lookup (cacheKey uri) = some sign →
    sign.expiration.expired (env.clock s.readings) = false →
    s.files.read (cachePath env (cacheKey uri)) = some d.raw →
    (handleCache env handler inner uri response).run s = .done (some response') s' →
    Reproduces d.raw response'.rawResponse := by
  intro claim
  let stored := bytes "HTTP/1.1 200 OK\r\nCache-Control: max-age=60\nX-Date: today\n\r\na"
  have delivered : (responseOf (delivery (taggedAnswer (bytes "X-Date: today")))).map
      (fun d => d.raw) = some stored := by decide
  obtain ⟨d, same, raw⟩ := Option.map_eq_some_iff.mp delivered
  have served : ((handleCache (scripted []) demoProxy (fun _ _ => Proc.spin) (bytes "/x") {}).run
      (storedState stored)).value?.any (fun answer => answer.any fun response =>
        fieldLines response.rawResponse = [bytes "Cache-Control: max-age=59\r",
          bytes "Date: Thu, 01, Jan, 1970, 00:00:00 GMT\r"]) = true := by
    decide
  obtain ⟨answer, value, served⟩ := Option.any_eq_true _ _ |>.mp served
  obtain ⟨response', rfl, served⟩ := Option.any_eq_true _ _ |>.mp served
  obtain ⟨s', ran⟩ := Outcome.exists_done_of_value value
  have reproduces := claim (scripted []) demoProxy (fun _ _ => Proc.spin) (bytes "/x") {} response' _ s'
    _ _ d (delivery_eq same) (stored_cached stored) rfl (raw ▸ stored_read stored) ran
  have kept := reproduces.lines
  have lines : fieldLines stored = [bytes "Cache-Control: max-age=60", bytes "X-Date: today"] := by
    decide
  rw [raw, lines, of_decide_eq_true served] at kept
  obtain ⟨-, kept⟩ := List.forall₂_cons.mp kept
  obtain ⟨line, -⟩ := List.forall₂_cons.mp kept
  have noColon : 58 ∉ bytes "Date" := by decide
  obtain ⟨value, same, -⟩ := name_of_kept noColon line
  exact absurd (List.cons.inj same).1 (by decide)

end TscServer.Proof
