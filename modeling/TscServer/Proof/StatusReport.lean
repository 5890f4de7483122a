import TscServer.Lib.HeaderLines
import TscServer.Proof.Provenance
import TscServer.Proof.StatusAccounting
import TscServer.Spec.StatusReport

/-!
# Reading the status page

The page of the status handler can be read back as long as its keys have no line feeds in them, which holds of
all that requests put into the statistics.
-/

namespace TscServer.Proof
open Lib Model Spec Connection ServerState

/-! ## Lines -/

section Lines
variable {key : Bytes} {n : Int}

theorem getlines_flatMap {lines : List Bytes} (noFeed : ∀ line ∈ lines, 10 ∉ line) :
    (getlines (lines.flatMap (· ++ [10]))).map Prod.fst = lines := by
  induction lines with
  | nil => rfl
  | cons line lines ih =>
      obtain ⟨here, others⟩ := List.forall_mem_cons.mp noFeed
      rw [List.flatMap_cons, List.append_assoc, List.singleton_append, getlines_append here, List.map_cons, ih others]

theorem mem_intToDecimal_cases {c : UInt8} (mem : c ∈ intToDecimal n) : c = 45 ∨ isDigit c = true := by
  rw [intToDecimal] at mem
  split at mem
  · exact (List.mem_cons.mp mem).imp_right (isDigit_of_mem_toDecimal c)
  · exact .inr (isDigit_of_mem_toDecimal c mem)

theorem not_mem_intToDecimal {c : UInt8} (other : c ≠ 45) (noDigit : isDigit c = false) : c ∉ intToDecimal n := by
  intro mem
  rcases mem_intToDecimal_cases mem with same | digit
  · exact other same
  · rw [noDigit] at digit
    cases digit

theorem readNumber_intToDecimal (n : Int) : readNumber (intToDecimal n) = n := by
  rw [intToDecimal]
  split
  · rename_i negative
    rw [readNumber, List.head?_cons, if_pos rfl, List.tail_cons, decimal_toDecimal]
    omega
  · rename_i positive
    have noSign : (toDecimal n.natAbs).head? ≠ some 45 := by
      intro head
      have digit := isDigit_of_mem_toDecimal 45 (List.mem_of_mem_head? head)
      cases digit
    rw [readNumber, if_neg noSign, decimal_toDecimal]
    omega

def counterLine (counter : Bytes × Int) : Bytes := counter.1 ++ bytes ": " ++ intToDecimal counter.2

def handlerLine (handler : Bytes × List Bytes) : Bytes :=
  handler.1 ++ bytes ":" ++ handler.2.flatMap fun uri => bytes " " ++ uri

theorem readCounter_counterLine (counter : Bytes × Int) : readCounter (counterLine counter) = counter := by
  obtain ⟨key, n⟩ := counter
  have reversed : (counterLine (key, n)).reverse = (intToDecimal n).reverse ++ 32 :: 58 :: key.reverse := by
    simp [counterLine, bytes]
  have noBlank : ∀ c ∈ (intToDecimal n).reverse, (c != 32) = true := by
    intro c mem
    have other : (32 : UInt8) ∉ intToDecimal n := not_mem_intToDecimal (by decide) rfl
    exact bne_iff_ne.mpr fun same => other (same ▸ List.mem_reverse.mp mem)
  have digits : ((counterLine (key, n)).reverse.takeWhile (· != 32)).reverse = intToDecimal n := by
    rw [reversed, List.takeWhile_append_of_pos noBlank, List.takeWhile_cons_of_neg (by decide), List.append_nil,
      List.reverse_reverse]
  have length : (counterLine (key, n)).length - (intToDecimal n).length - 2 = key.length := by
    simp only [counterLine, bytes, List.length_append]
    show key.length + 2 + _ - _ - 2 = key.length
    omega
  rw [readCounter, digits, length, readNumber_intToDecimal, counterLine, List.append_assoc, List.take_left]

theorem append_flatMap_blank (uris : List Bytes) (first : Bytes) :
    first ++ uris.flatMap (fun uri => 32 :: uri) = [32].intercalate (first :: uris) := by
  induction uris generalizing first with
  | nil => simp
  | cons uri uris ih =>
      rw [List.flatMap_cons, List.intercalate_cons_cons, ← ih uri]
      simp

theorem readHandler_handlerLine {handler : Bytes × List Bytes} (noColon : 58 ∉ handler.1)
    (noBlank : ∀ uri ∈ handler.2, 32 ∉ uri) : readHandler (handlerLine handler) = handler := by
  obtain ⟨name, uris⟩ := handler
  have named : ∀ c ∈ name, (c != 58) = true := fun c mem => bne_iff_ne.mpr fun same => noColon (same ▸ mem)
  have line : handlerLine (name, uris) = name ++ 58 :: uris.flatMap fun uri => 32 :: uri := by
    simp [handlerLine, bytes]
  have blanks : ∀ part ∈ [58] :: uris, 32 ∉ part := by
    intro part mem
    rcases List.mem_cons.mp mem with rfl | mem
    · decide
    · exact noBlank part mem
  have parts : (58 :: uris.flatMap fun uri => 32 :: uri).splitOn 32 = [58] :: uris := by
    rw [← List.singleton_append, append_flatMap_blank, List.splitOn_intercalate 32 blanks (by simp)]
  rw [readHandler, line, List.takeWhile_append_of_pos named, List.takeWhile_cons_of_neg (by decide),
    List.append_nil, List.dropWhile_append_of_pos named, List.dropWhile_cons_of_neg (by decide), parts]
  rfl

end Lines

/-! ## The page -/

section Page
variable {status : ServerStatus}

def summaryLines (status : ServerStatus) : List Bytes :=
  [bytes "Information on the status of web server:",
    bytes "Total request received : " ++ intToDecimal status.totalVisit]

def uriLines (status : ServerStatus) : List Bytes :=
  bytes "Count of url requested:" :: (ServerStatus.sorted status.uriVisitCount).map counterLine

def codeLines (status : ServerStatus) : List Bytes :=
  bytes "Count of status code returned:" :: (ServerStatus.sorted status.statusCodeCount).map counterLine

def handlerLines (status : ServerStatus) : List Bytes :=
  bytes "Existing handlers and their matching uri prefix: " ::
    (ServerStatus.sorted status.handlerToUri).map handlerLine

def pageLines (status : ServerStatus) : List Bytes :=
  summaryLines status ++ [] :: (uriLines status ++ [] :: (codeLines status ++ [] :: handlerLines status))

theorem getStatusString_eq (status : ServerStatus) :
    status.getStatusString = (pageLines status).flatMap (· ++ [10]) := by
  have feed : bytes "\n" = [10] := rfl
  have title : bytes "Information on the status of web server:\n" =
      bytes "Information on the status of web server:" ++ [10] := rfl
  have uris : bytes "Count of url requested:\n" = bytes "Count of url requested:" ++ [10] := rfl
  have codes : bytes "Count of status code returned:\n" = bytes "Count of status code returned:" ++ [10] := rfl
  have handlers : bytes "Existing handlers and their matching uri prefix: \n" =
      bytes "Existing handlers and their matching uri prefix: " ++ [10] := rfl
  simp only [ServerStatus.getStatusString, ServerStatus.counterLines, ServerStatus.getRecordNum, title, uris, codes,
    handlers, feed, pageLines, summaryLines, uriLines, codeLines, handlerLines, List.flatMap_append,
    List.flatMap_cons, List.flatMap_map, counterLine, handlerLine, List.append_assoc, List.nil_append,
    List.cons_append]

theorem cutSection_append {lines : List Bytes} (solid : ∀ line ∈ lines, line ≠ []) (others : List Bytes) :
    cutSection (lines ++ [] :: others) = (lines, others) := by
  have kept : ∀ line ∈ lines, (!line.isEmpty) = true := by
    intro line mem
    cases line with
    | nil => exact absurd rfl (solid [] mem)
    | cons c line => rfl
  rw [cutSection, List.takeWhile_append_of_pos kept, List.takeWhile_cons_of_neg (by decide), List.append_nil,
    List.dropWhile_append_of_pos kept, List.dropWhile_cons_of_neg (by decide), List.tail_cons]

theorem counterLine_ne_nil (counter : Bytes × Int) : counterLine counter ≠ [] := by
  simp [counterLine, bytes]

theorem solid_section {title : Bytes} (titled : title ≠ []) (counters : List (Bytes × Int)) :
    ∀ line ∈ title :: counters.map counterLine, line ≠ [] := by
  intro line mem
  rcases List.mem_cons.mp mem with rfl | mem
  · exact titled
  · obtain ⟨counter, -, rfl⟩ := List.mem_map.mp mem
    exact counterLine_ne_nil counter

theorem counterLine_noFeed {counter : Bytes × Int} (key : 10 ∉ counter.1) : 10 ∉ counterLine counter := by
  have number : (10 : UInt8) ∉ intToDecimal counter.2 := not_mem_intToDecimal (by decide) rfl
  simp [counterLine, bytes, key, number]

theorem handlerLine_noFeed {handler : Bytes × List Bytes} (name : 10 ∉ handler.1)
    (uris : ∀ uri ∈ handler.2, 10 ∉ uri) : 10 ∉ handlerLine handler := by
  intro mem
  simp only [handlerLine, List.mem_append, List.mem_flatMap] at mem
  rcases mem with (mem | mem) | ⟨uri, here, mem | mem⟩
  · exact name mem
  · exact absurd mem (by decide)
  · exact absurd mem (by decide)
  · exact uris uri here mem

theorem pageLines_noFeed (printable : Printable status) : ∀ line ∈ pageLines status, 10 ∉ line := by
  have total : (10 : UInt8) ∉ intToDecimal status.totalVisit := not_mem_intToDecimal (by decide) rfl
  intro line mem
  simp only [pageLines, summaryLines, uriLines, codeLines, handlerLines, List.mem_append, List.mem_cons,
    List.not_mem_nil, or_false, List.mem_map] at mem
  rcases mem with (rfl | rfl) | rfl | (rfl | ⟨counter, here, rfl⟩) | rfl | (rfl | ⟨counter, here, rfl⟩) | rfl |
    rfl | ⟨handler, here, rfl⟩
  · decide
  · simp [bytes, total]
  · exact List.not_mem_nil
  · decide
  · exact counterLine_noFeed (printable.uris counter here)
  · exact List.not_mem_nil
  · decide
  · exact counterLine_noFeed (printable.codes counter here)
  · exact List.not_mem_nil
  · decide
  · obtain ⟨name, -, uris⟩ := printable.handlers handler here
    exact handlerLine_noFeed name fun uri mem => (uris uri mem).1

theorem readReport_getStatusString (printable : Printable status) :
    readReport status.getStatusString = reportOf status := by
  have lines : (getlines status.getStatusString).map Prod.fst = pageLines status := by
    rw [getStatusString_eq]
    exact getlines_flatMap (pageLines_noFeed printable)
  have summary : ∀ line ∈ summaryLines status, line ≠ [] := by
    intro line mem
    rcases List.mem_pair.mp mem with rfl | rfl
    · decide
    · simp [bytes]
  have uris : ∀ line ∈ uriLines status, line ≠ [] := solid_section (by decide) _
  have codes : ∀ line ∈ codeLines status, line ≠ [] := solid_section (by decide) _
  have counters (entries : List (Bytes × Int)) : (entries.map counterLine).map readCounter = entries := by
    rw [List.map_map]
    exact List.map_id'' (fun counter => readCounter_counterLine counter) entries
  have handlers : ((ServerStatus.sorted status.handlerToUri).map handlerLine).map readHandler =
      ServerStatus.sorted status.handlerToUri := by
    rw [List.map_map]
    apply (List.map_congr_left _).trans (List.map_id _)
    intro handler mem
    obtain ⟨-, noColon, uris⟩ := printable.handlers handler mem
    exact readHandler_handlerLine noColon fun uri mem => (uris uri mem).2
  have total : (bytes "Total request received : " ++ intToDecimal status.totalVisit).drop
      (bytes "Total request received : ").length = intToDecimal status.totalVisit := List.drop_left
  rw [readReport, lines, pageLines, cutSection_append summary, cutSection_append uris, cutSection_append codes]
  have last : (summaryLines status).getLastD [] =
      bytes "Total request received : " ++ intToDecimal status.totalVisit := rfl
  simp only [last, uriLines, codeLines, handlerLines, List.tail_cons, counters, handlers, total,
    readNumber_intToDecimal, reportOf]

end Page

/-! ## Counters that started from nothing -/

section Tally
variable {keys : List Bytes} {key : Bytes}

theorem lookup_increment (counters : Counters) (key other : Bytes) :
    (counters.increment key).lookup other =
      if other = key then some ((counters.lookup key).getD 0 + 1) else counters.lookup other := by
  unfold Counters.increment
  split
  · rename_i same
    rw [same, AList.lookup_insert]
  · rename_i different
    rw [AList.lookup_insert_ne different]

theorem lookup_tally (keys : List Bytes) (key : Bytes) :
    (keys.foldl Counters.increment ∅).lookup key =
      if keys.count key = 0 then none else some (keys.count key : Int) := by
  induction keys using List.reverseRecOn generalizing key with
  | nil => rfl
  | append_singleton keys last ih =>
      rw [List.foldl_append, List.foldl_cons, List.foldl_nil, lookup_increment, ih, ih, List.count_append]
      by_cases same : key = last
      · subst same
        by_cases new : keys.count key = 0 <;> simp [new]
      · simp [same, Ne.symm same]

theorem mem_sorted {β : Type} {entries : AList fun _ : Bytes => β} {value : β} :
    (key, value) ∈ ServerStatus.sorted entries ↔ entries.lookup key = some value := by
  rw [ServerStatus.sorted, List.mem_mergeSort, List.mem_map, ← Option.mem_def, AList.mem_lookup_iff]
  constructor
  · intro found
    obtain ⟨⟨key', value'⟩, mem, same⟩ := found
    cases same
    exact mem
  · intro mem
    exact ⟨⟨key, value⟩, mem, rfl⟩

theorem mem_sorted_tally {n : Int} :
    (key, n) ∈ ServerStatus.sorted (keys.foldl Counters.increment ∅) ↔ 0 < n ∧ n = keys.count key := by
  rw [mem_sorted, lookup_tally]
  split
  · rename_i none_
    simp only [none_, reduceCtorEq, Int.natCast_zero, false_iff]
    omega
  · rename_i some_
    rw [Option.some_inj]
    omega

end Tally

/-! ## Reports of a run -/

section Reports
variable {written : List Written}

-- the key that `insertRecord` counts a response under
def visitKey (w : Written) : Bytes := if w.response.status = .ok then w.request.uri else sharedKey

def codeKey (w : Written) : Bytes := ServerStatus.responseToString w.response.status

theorem statisticsAfter_eq (handlerToUri : AList fun _ : Bytes => List Bytes) (written : List Written) :
    statisticsAfter handlerToUri written =
      { uriVisitCount := (written.map visitKey).foldl Counters.increment ∅
        statusCodeCount := (written.map codeKey).foldl Counters.increment ∅
        totalVisit := written.length
        handlerToUri } := by
  induction written using List.reverseRecOn with
  | nil => rfl
  | append_singleton written w ih =>
      rw [statisticsAfter_concat, ih]
      simp only [ServerStatus.insertRecord, List.map_append, List.map_cons, List.map_nil, List.foldl_append,
        List.foldl_cons, List.foldl_nil, List.length_append, List.length_singleton]
      rfl

theorem count_map_filter {key : Written → Bytes} {value : Bytes} {p : Written → Prop} [DecidablePred p]
    (same : ∀ w ∈ written, key w = value ↔ p w) :
    (written.map key).count value = (written.filter fun w => p w).length := by
  rw [List.count_eq_countP, List.countP_map, List.countP_eq_length_filter]
  congr 1
  apply List.filter_congr
  intro w mem
  show (key w == value) = decide (p w)
  rw [Bool.eq_iff_iff, beq_iff_eq, decide_eq_true_iff, same w mem]

theorem reports_statisticsAfter (handlerToUri : AList fun _ : Bytes => List Bytes)
    (other : ∀ w ∈ written, w.request.uri ≠ sharedKey) :
    Reports (reportOf (statisticsAfter handlerToUri written)) written where
  total := by
    rw [statisticsAfter_eq]
    rfl
  uris uri n different := by
    have counted : (written.map visitKey).count uri =
        (written.filter fun w => w.response.status = .ok ∧ w.request.uri = uri).length := by
      apply count_map_filter
      intro w mem
      by_cases ok : w.response.status = .ok <;> simp [visitKey, ok, Ne.symm different]
    rw [statisticsAfter_eq, reportOf, mem_sorted_tally, counted]
  unsuccessful n := by
    have counted : (written.map visitKey).count sharedKey =
        (written.filter fun w => w.response.status ≠ .ok).length := by
      apply count_map_filter
      intro w mem
      by_cases ok : w.response.status = .ok <;> simp [visitKey, ok, other w mem]
    rw [statisticsAfter_eq, reportOf, mem_sorted_tally, counted]
  codes code n := by
    have counted : (written.map codeKey).count code =
        (written.filter fun w => ServerStatus.responseToString w.response.status = code).length :=
      count_map_filter fun _ _ => Iff.rfl
    rw [statisticsAfter_eq, reportOf, mem_sorted_tally, counted]

end Reports

section Run
variable {ω : Type} {deployment : Deployment ω} {compression : Compression} {world : ω}
  {handlerToUri : AList fun _ : Bytes => List Bytes} {log : List Event} {s : ServerState ω}

theorem uri_noFeed {raw : Bytes} {request : Request} (parsed : Request.parse raw = some request) :
    10 ∉ request.uri := by
  intro feed
  have solid := ((parse_image parsed).uri_bytes 10 feed).1
  cases solid

theorem printable_statisticsAfter {written : List Written} (handlers : PrintableHandlers handlerToUri)
    (uris : ∀ w ∈ written, 10 ∉ w.request.uri) : Printable (statisticsAfter handlerToUri written) where
  uris counter mem := by
    obtain ⟨key, n⟩ := counter
    rw [statisticsAfter_eq, mem_sorted_tally] at mem
    obtain ⟨positive, rfl⟩ := mem
    obtain ⟨w, here, rfl⟩ := List.mem_map.mp (List.count_pos_iff.mp (Int.natCast_pos.mp positive))
    show 10 ∉ visitKey w
    rw [visitKey]
    split
    · exact uris w here
    · decide
  codes counter mem := by
    obtain ⟨key, n⟩ := counter
    rw [statisticsAfter_eq, mem_sorted_tally] at mem
    obtain ⟨positive, rfl⟩ := mem
    obtain ⟨w, here, rfl⟩ := List.mem_map.mp (List.count_pos_iff.mp (Int.natCast_pos.mp positive))
    show 10 ∉ ServerStatus.responseToString w.response.status
    cases w.response.status <;> decide
  handlers := by
    rw [statisticsAfter_eq]
    exact handlers

theorem reports_of_page (run : Run deployment compression (ServerState.start world handlerToUri) log s)
    (handlers : PrintableHandlers handlerToUri) {before behind : List Written} {w : Written}
    (split_ : s.written = before ++ w :: behind)
    (page : w.response = sent compression w.request
      (StatusHandler.handleRequest (statisticsAfter handlerToUri before) {}).2)
    (plain : ¬ AsksCoding w.request) :
    ∃ head body, cutHead w.data = some (head, body) ∧ Reports (readReport body) before ∧
      (readReport body).handlerToUri = ServerStatus.sorted handlerToUri := by
  have mem : ∀ other ∈ before, other ∈ s.written := by
    intro other mem
    rw [split_]
    exact List.mem_append_left _ mem
  have here : w ∈ s.written := by
    rw [split_]
    exact List.mem_append_right _ List.mem_cons_self
  have printable : Printable (statisticsAfter handlerToUri before) := by
    apply printable_statisticsAfter handlers
    intro other inside
    exact written_uri_of_parsed (P := fun uri => 10 ∉ uri) List.not_mem_nil uri_noFeed run other (mem other inside)
  have body : w.response.body = (statisticsAfter handlerToUri before).getStatusString := by
    rw [page, sent, compressPayload_plain compression plain, ite_self]
    rfl
  have raw : w.response.rawResponse = [] := by
    rw [page, sent_raw]
    rfl
  obtain ⟨answer, composed⟩ := composed_of_run run w here
  obtain ⟨head, cut, -⟩ := (sentPage_of_composed composed raw).cut
  refine ⟨head, w.response.body, ?_, ?_, ?_⟩
  · rw [composed.data, cut]
  · rw [body, readReport_getStatusString printable]
    exact reports_statisticsAfter handlerToUri fun other inside => uri_of_written run other (mem other inside)
  · rw [body, readReport_getStatusString printable, reportOf, statisticsAfter_eq]

/-- What a client reads off the bytes of a status page is the count of all responses before it. -/
theorem status_page_reports (run : Run deployment compression (ServerState.start world handlerToUri) log s)
    (handlers : PrintableHandlers handlerToUri) {before behind : List Written} {w : Written}
    (split_ : s.written = before ++ w :: behind) {handler : Handler ω} {uriPrefix : Bytes}
    (routes : routed deployment.handlers w.request = some (some handler))
    (acts : ActsAs deployment handler (.status uriPrefix)) (ok : w.response.status = .ok)
    (plain : ¬ AsksCoding w.request) :
    ∃ head body, cutHead w.data = some (head, body) ∧ Reports (readReport body) before ∧
      (readReport body).handlerToUri = ServerStatus.sorted handlerToUri := by
  obtain ⟨message, -, originates⟩ := explained_of_run run before w behind split_
  have page := statusPage_of_originates originates routes acts ok
  exact reports_of_page run handlers split_ page plain

end Run

/-! ## The page after an echo -/

theorem printable_empty : PrintableHandlers ∅ := by
  intro handler mem
  obtain ⟨name, uris⟩ := handler
  rw [mem_sorted] at mem
  cases mem

theorem not_asksCoding_of_none {request : Request}
    (none_ : request.getHeaderValueByName (bytes "Accept-Encoding") = []) : ¬ AsksCoding request := by
  rw [AsksCoding, none_]
  decide

theorem status_page_reports_echo : ∃ s echoed page,
    Run statusDeployment noCompression (ServerState.start freshWorld ∅) echoThenStatus.reverse s ∧
      s.written = [echoed] ++ page :: [] ∧ ∃ head body, cutHead page.data = some (head, body) ∧
        Reports (readReport body) [echoed] ∧ (readReport body).handlerToUri = ServerStatus.sorted ∅ := by
  obtain ⟨s, echoed, page, run, written, routes, ok, plain⟩ := exists_page_after_echo
  have reports := status_page_reports run printable_empty written routes
    (fun _ _ _ running => (RegisteredHandler.call_returns running).2.1) ok (not_asksCoding_of_none plain)
  exact ⟨s, echoed, page, run, written, reports⟩

end TscServer.Proof
