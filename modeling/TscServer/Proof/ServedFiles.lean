import TscServer.Proof.ConfiguredStatus
import TscServer.Proof.ContentCoding
import TscServer.Proof.MarkdownFragment
import TscServer.Proof.MarkdownInput
import TscServer.Proof.StaticPaths
import TscServer.Spec.ServedFiles

/-!
# Files in a run of the server

What the static handler answers, followed from the file to the bytes that a client gets. A plain document
arrives as its HTML.
-/

namespace TscServer.Proof
open Lib Model Spec Connection ServerState StaticFileHandler

/-! ## One call -/

def filePage (markdown : Bytes → Bytes) (path contents : Bytes) : Response :=
  (Response.setStatus {} .ok).setPage (fileBody markdown path contents) (fileType path)

inductive FileAnswer (fs : FileSystem) (markdown : Bytes → Bytes) (handler : StaticFileHandler) (request : Request) :
    Status → Response → Prop
  | refused {result : Status} {response : Response} : result ≠ .ok → response.status ≠ .ok →
      (∀ requestUri path, Request.uriDecode request.uri = some requestUri → handler.filePath requestUri = some path →
        fs.isRegularFile (cStr path) = some true → fs.contents (cStr path) = none) →
      FileAnswer fs markdown handler request result response
  | found {requestUri path contents : Bytes} (isImage : Bool) : Request.uriDecode request.uri = some requestUri →
      handler.filePath requestUri = some path → fs.contents (cStr path) = some contents →
      FileAnswer fs markdown handler request .ok
        (if isImage then (filePage markdown path contents).setIsImage true else filePage markdown path contents)

theorem fileAnswer_of_returned {fs : FileSystem} {markdown : Bytes → Bytes} {handler : StaticFileHandler}
    {request : Request} {result : Status} {s : StaticFileState}
    (returned : (handler.handleRequest fs markdown request).run { response := {} } = .done result s) :
    FileAnswer fs markdown handler request result s.response := by
  have badRequest : ((Response.setStatus {} .badRequest).status) ≠ .ok := by decide
  have notFound : ((Response.setStatus {} .notFound).status) ≠ .ok := by decide
  unfold StaticFileHandler.handleRequest at returned
  cases decodes : Request.uriDecode request.uri with
  | none =>
      rw [decodes] at returned
      cases returned
      exact .refused (by decide) badRequest fun _ _ decodes' => absurd (decodes.symm.trans decodes') nofun
  | some requestUri =>
      simp only [decodes] at returned
      cases built : handler.filePath requestUri with
      | none =>
          rw [built] at returned
          cases returned
      | some path =>
          have refused {result : Status} {response : Response} (bad : result ≠ .ok) (notOk : response.status ≠ .ok)
              (noFile : fs.isRegularFile (cStr path) = some true → fs.contents (cStr path) = none) :
              FileAnswer fs markdown handler request result response := by
            refine .refused bad notOk fun requestUri' path' decodes' built' regular' => ?_
            cases decodes.symm.trans decodes'
            cases built.symm.trans built'
            exact noFile regular'
          simp only [built, Proc.ofOption_some, Proc.pure_bind] at returned
          cases regular : fs.isRegularFile (cStr path) with
          | none =>
              rw [regular] at returned
              cases returned
          | some isRegular =>
              simp only [regular, Proc.ofOption_some, Proc.pure_bind] at returned
              cases isRegular with
              | false =>
                  cases returned
                  exact refused (by decide) notFound fun regular' => absurd (regular.symm.trans regular') nofun
              | true =>
                  simp only [Bool.not_true, Bool.false_eq_true, if_false,
                    StaticFileHandler.run_openFile_bind] at returned
                  cases opened : fs.contents (cStr path) with
                  | none =>
                      rw [opened] at returned
                      cases returned
                      exact refused (by decide) notFound fun _ => opened
                  | some contents =>
                      rw [opened] at returned
                      cases returned
                      let extension := if isMarkdownFile path then bytes "html" else fileExtension path
                      have found : FileAnswer fs markdown handler request .ok _ := .found
                        (decide (extension = bytes "jpg" ∨ extension = bytes "png" ∨ extension = bytes "jpeg"))
                        decodes built opened
                      simp only [decide_eq_true_eq] at found
                      exact found

/-! ## Runs -/

section Run
variable {around : Surroundings} {table : AList fun _ : Bytes => RegisteredHandler} {compression : Compression}
  {world : World} {handlerToUri : AList fun _ : Bytes => List Bytes} {log : List Event} {s : ServerState World}
  {w : Written} {key : Bytes} {handler : StaticFileHandler}

theorem body_sent {answer : Response} (plain : ¬ AsksCoding w.request) :
    (sent compression w.request answer).body = answer.body := by
  simp only [sent, compressPayload_plain compression plain, ite_self, Response.addHeader_body]

theorem contentType_sent {answer : Response} {contentType : Bytes} (plain : ¬ AsksCoding w.request)
    (mem : (bytes "Content-Type", contentType) ∈ answer.headers) :
    (bytes "Content-Type", contentType) ∈ (sent compression w.request answer).headers := by
  simp only [sent, compressPayload_plain compression plain, ite_self, mem_addHeader]
  exact .inr ⟨mem, by decide⟩

theorem trimBlanks_fileType (path : Bytes) : trimBlanks (fileType path) = fileType path := by
  unfold fileType extension2type
  split_ifs <;> decide

theorem served_filePage {markdown : Bytes → Bytes} {path contents : Bytes} {isImage : Bool} {answer : Response}
    (composed : Composed compression w answer) (plain : ¬ AsksCoding w.request)
    (response : w.response = sent compression w.request
      (if isImage then (filePage markdown path contents).setIsImage true else filePage markdown path contents)) :
    ServedFile (fileBody markdown path contents) (fileType path) w := by
  have body : w.response.body = fileBody markdown path contents := by
    rw [response, body_sent plain]
    cases isImage <;> rfl
  have raw : w.response.rawResponse = [] := by
    rw [response, sent_raw]
    cases isImage <;> rfl
  have status : w.response.status = .ok := by
    rw [response, sent_status]
    cases isImage <;> simp [filePage, Response.setPage, Response.setBody, Response.setStatus, Response.setIsImage]
  have typed : (bytes "Content-Type", fileType path) ∈ w.response.headers := by
    have listed : (bytes "Content-Type", fileType path) ∈ (filePage markdown path contents).headers := by
      rw [filePage, Response.setPage, mem_addHeader]
      exact .inl rfl
    rw [response]
    apply contentType_sent plain
    cases isImage <;> exact listed
  have page := sentPage_of_composed composed raw
  obtain ⟨head, cut, -⟩ := page.cut
  refine ⟨?_, ?_, head, ?_⟩
  · rw [composed.data, page.code, status]
    rfl
  · rw [composed.data, page.contentType typed, trimBlanks_fileType]
  · rw [composed.data, cut, body]

theorem status_errorHandler (response : Response) : (ErrorHandler.handleRequest response).2.status = response.status := by
  simp [ErrorHandler.handleRequest, Response.setPage, Response.setBody]

theorem fileAnswer_of_answer {status : ServerStatus} {states states' : Bytes → ProxyState} {result : Status}
    {answer : Response}
    (answered : RegisteredHandler.answer around w.request {} status states (.static handler) =
      some (result, answer, states')) :
    FileAnswer around.fs around.markdown handler w.request result answer := by
  rw [RegisteredHandler.answer] at answered
  split at answered
  · rename_i ran
    cases answered
    exact fileAnswer_of_returned ran
  · cases answered

/-- A call of the static handler that returned has sent the file that it opened, or there was none. -/
theorem served_of_returned {status : ServerStatus} {answer : Response} (composed : Composed compression w answer)
    (plain : ¬ AsksCoding w.request) (returned : Returned around compression (.static handler) status w) :
    (∃ requestUri path contents, Request.uriDecode w.request.uri = some requestUri ∧
      handler.filePath requestUri = some path ∧ around.fs.contents (cStr path) = some contents ∧
      ServedFile (fileBody around.markdown path contents) (fileType path) w) ∨
    w.response.status ≠ .ok ∧
      ∀ requestUri path, Request.uriDecode w.request.uri = some requestUri →
        handler.filePath requestUri = some path → around.fs.isRegularFile (cStr path) = some true →
        around.fs.contents (cStr path) = none := by
  cases returned with
  | ok answered response =>
      cases fileAnswer_of_answer answered with
      | refused bad => exact absurd rfl bad
      | found isImage decodes built contents =>
          exact .inl ⟨_, _, _, decodes, built, contents, served_filePage composed plain response⟩
  | failed bad answered response =>
      cases fileAnswer_of_answer answered with
      | refused _ notOk noFile =>
          rw [response, sent_status, status_errorHandler]
          exact .inr ⟨notOk, noFile⟩
      | found => exact absurd rfl bad

/-- A page under a static handler is the file that the handler opened, and no other text. -/
theorem exists_served_file (run : Run (deploy around table) compression (ServerState.start world handlerToUri) log s)
    (mem : w ∈ s.written) (selected : selectPrefix (deploy around table).handlers w.request = some key)
    (own : key ≠ bytes "ErrorHandler") (found : table.lookup key = some (.static handler))
    (ok : w.response.status = .ok) (plain : ¬ AsksCoding w.request) :
    ∃ requestUri path contents, Request.uriDecode w.request.uri = some requestUri ∧
      handler.filePath requestUri = some path ∧ around.fs.contents (cStr path) = some contents ∧
      ServedFile (fileBody around.markdown path contents) (fileType path) w := by
  obtain ⟨before, behind, split_⟩ := List.append_of_mem mem
  obtain ⟨message, -, originates⟩ := explained_of_run run before w behind split_
  have returned := returned_of_originates originates selected own found ok
  obtain ⟨answer, composed⟩ := composed_of_run run w mem
  rcases served_of_returned composed plain returned with served | ⟨notOk, -⟩
  · exact served
  · exact absurd ok notOk

theorem noReturn_plainDocument (document : PlainDocument) : 13 ∉ document.text := by
  intro mem
  obtain ⟨line, here, inside⟩ := List.mem_flatMap.mp mem
  rcases List.mem_append.mp inside with inside | feed
  · exact (verbatim_lines document line here 13 inside).2.2 rfl
  · exact absurd (List.mem_singleton.mp feed) (by decide)

theorem render_ended {document : PlainDocument} {ending : Bytes} (lineEnd : LineEnd ending) {fuel : Nat}
    (enough : document.lines.length + 2 ≤ fuel) :
    Markdown.render fuel (withEnding ending document.text) = .ok document.html := by
  rw [Markdown.render, readDocument_withEnding lineEnd (noReturn_plainDocument document),
    process_plainDocument document enough]
  change Except.ok (Markdown.Token.container .container (document.blocks.flatMap joinedTokens)).writeAsHtml = _
  rw [writeAsHtml_joinedTokens]

theorem converted_document {markdown : Bytes → Bytes} {document : PlainDocument} {ending : Bytes}
    (lineEnd : LineEnd ending) (converts : Converts markdown (withEnding ending document.text)) :
    markdown (withEnding ending document.text) = document.html :=
  converts document.html (document.lines.length + 2) fun _ enough => render_ended lineEnd enough

/-- A plain document in a Markdown file arrives as its HTML, whichever line ends the file has. -/
theorem served_document_of_run {before : List Written} {message : Bytes}
    (writes : WrittenFor (deploy around table) compression (ServerState.start world handlerToUri) log before w message)
    (parsed : (Request.parse message).isSome)
    (selected : selectPrefix (deploy around table).handlers w.request = some key) (nonempty : key ≠ [])
    (own : key ≠ bytes "ErrorHandler") (found : table.lookup key = some (.static handler))
    (plain : ¬ AsksCoding w.request) {requestUri path ending : Bytes} {document : PlainDocument}
    (decodes : Request.uriDecode w.request.uri = some requestUri) (named : handler.filePath requestUri = some path)
    (isMarkdown : isMarkdownFile path = true) (lineEnd : LineEnd ending)
    (regular : around.fs.isRegularFile (cStr path) = some true)
    (read : around.fs.contents (cStr path) = some (withEnding ending document.text))
    (converts : Converts around.markdown (withEnding ending document.text)) :
    ServedFile document.html (bytes "text/html") w := by
  have returned := returned_of_parsed writes.originates parsed selected nonempty own found
  obtain ⟨answer, composed⟩ := writes.composed
  rcases served_of_returned composed plain returned with
    ⟨requestUri', path', contents, decodes', named', read', served⟩ | ⟨-, noFile⟩
  · cases decodes.symm.trans decodes'
    cases named.symm.trans named'
    cases read.symm.trans read'
    rw [fileBody, fileType, if_pos isMarkdown, if_pos isMarkdown, converted_document lineEnd converts] at served
    exact served
  · have unread := noFile requestUri path decodes named regular
    cases read.symm.trans unread

end Run

/-! ## A document with carriage returns -/

def sampleFile : Bytes := withEnding [13, 10] sampleDocument.text

def documentSurroundings : Surroundings :=
  { surroundings [] with
    fs := ⟨fun path => some (path = bytes "a//p.md"), fun path => if path = bytes "a//p.md" then some sampleFile else none⟩
    markdown := fun text => if text = sampleFile then sampleDocument.html else text }

def documentHandler : StaticFileHandler := { uriPrefix := bytes "/s", baseDir := bytes "a" }

def documentDeployment : Deployment World :=
  deploy documentSurroundings (AList.singleton (bytes "/s") (.static documentHandler))

def documentGet : List Event :=
  [.accept .success, .complete 0 .readPartial .success (bytes "GET /s/p.md HTTP/1.1\r\nHost: a\r\n\r\n")]

theorem converts_sampleFile : Converts documentSurroundings.markdown sampleFile := by
  intro html least renders
  have enough : sampleDocument.lines.length + 2 ≤ max least (sampleDocument.lines.length + 2) := Nat.le_max_right _ _
  have ended : Markdown.render _ sampleFile = .ok sampleDocument.html := render_ended .returnFeed enough
  rw [renders _ (Nat.le_max_left _ _)] at ended
  show (if sampleFile = sampleFile then sampleDocument.html else sampleFile) = html
  rw [if_pos rfl, Except.ok.inj ended]

theorem served_sampleDocument : ∃ s w message,
    Run documentDeployment noCompression (ServerState.start freshWorld ∅) documentGet.reverse s ∧
      WrittenFor documentDeployment noCompression (ServerState.start freshWorld ∅) documentGet.reverse [] w message ∧
      ServedFile sampleDocument.html (bytes "text/html") w := by
  have reached : (after documentDeployment noCompression (ServerState.start freshWorld ∅) documentGet).any
      (fun s => s.written.length = 1 ∧ s.written.all (fun w =>
        selectPrefix documentDeployment.handlers w.request = some (bytes "/s") ∧ w.response.status = .ok ∧
          w.request.getHeaderValueByName (bytes "Accept-Encoding") = [] ∧
          w.request.uri = bytes "/s/p.md") = true) = true := by decide +kernel
  obtain ⟨s, reached, pages⟩ := Option.any_eq_true _ _ |>.mp reached
  obtain ⟨one_, pages⟩ := of_decide_eq_true pages
  obtain ⟨w, written⟩ := List.length_eq_one_iff.mp one_
  rw [written] at pages
  obtain ⟨selected, ok, plain, uri⟩ := of_decide_eq_true (List.all_eq_true.mp pages w (List.mem_singleton_self w))
  have run := run_of_after reached
  obtain ⟨message, writes, originates⟩ := explained_of_run run [] w [] written
  have decodes : Request.uriDecode w.request.uri = some (bytes "/s/p.md") := by
    rw [uri]
    decide +kernel
  have named : documentHandler.filePath (bytes "/s/p.md") = some (bytes "a//p.md") := by decide +kernel
  have isMarkdown : isMarkdownFile (bytes "a//p.md") = true := by decide +kernel
  have same : cStr (bytes "a//p.md") = bytes "a//p.md" := by decide
  have regular : documentSurroundings.fs.isRegularFile (cStr (bytes "a//p.md")) = some true := by
    rw [same]
    exact congrArg some (decide_eq_true rfl)
  have read : documentSurroundings.fs.contents (cStr (bytes "a//p.md")) = some sampleFile := by
    show (if cStr (bytes "a//p.md") = bytes "a//p.md" then some sampleFile else none) = some sampleFile
    rw [if_pos same]
  have served := served_document_of_run writes (parsed_of_ok originates ok) selected (by decide) (by decide)
    (AList.lookup_insert ∅) (not_asksCoding_of_none plain) decodes named isMarkdown .returnFeed regular read
    converts_sampleFile
  exact ⟨s, w, message, run, writes, served⟩

/-! ## A configured root -/

section Configured
variable {handler : StaticFileHandler} {request : Request} {decoded file rest : Bytes}

theorem namedFile_of_filePath (split_ : request.uri = handler.uriPrefix ++ rest) (noEscape : 37 ∉ handler.uriPrefix)
    (read : Request.uriDecode request.uri = some decoded) (looked : handler.filePath decoded = some file) :
    namedFile handler request.uri = some file := by
  rw [split_, uriDecode_append noEscape] at read
  obtain ⟨after, decodesAfter, rfl⟩ := Option.map_eq_some_iff.mp read
  have drops : (handler.uriPrefix.map (fun c => (PercentUnit.literal c).byte) ++ after).drop handler.uriPrefix.length =
      after := List.drop_left' (List.length_map _)
  rw [StaticFileHandler.filePath, substrFrom, if_pos (by simp), drops] at looked
  rw [namedFile, split_, List.drop_left, decodesAfter]
  exact looked

theorem uri_ne_nil_of_filePath (nonempty : handler.uriPrefix ≠ [])
    (read : Request.uriDecode request.uri = some decoded) (looked : handler.filePath decoded = some file) :
    request.uri ≠ [] := by
  intro none_
  rw [none_] at read
  cases read
  have short : ¬ handler.uriPrefix.length ≤ ([] : Bytes).length := by simpa using nonempty
  rw [StaticFileHandler.filePath, substrFrom, if_neg short] at looked
  cases looked

theorem uriPrefix_of_initialised {path : PathStatement} (initialised : Initialised path (.static handler)) :
    handler.uriPrefix = path.uriPrefix := by
  cases initialised with
  | static _ _ made =>
      obtain ⟨⟨status, baseDir⟩, -, same⟩ := Option.map_eq_some_iff.mp made
      cases same
      rfl

/-- On a server that was started from a file, a page under a static path is the file under its root that the
rest of the URI names. -/
theorem configured_file {text : Bytes} {config : NginxConfig} {server : Server}
    (parsed : NginxConfig.parse text = some config) (started : Server.init text = .ok server)
    {around : Surroundings} {compression : Compression} {world : World} {log : List Event} {s : ServerState World}
    (run : Run (deploy around server.handlers) compression
      (ServerState.start world server.serverStatus.handlerToUri) log s)
    {w : Written} (mem : w ∈ s.written) {path : PathStatement} (listed : path ∈ pathStatements config.statements)
    (named : path.handlerClass = some .static) (noEscape : 37 ∉ path.uriPrefix)
    (notError : path.uriPrefix ≠ bytes "ErrorHandler") (notDb : path.uriPrefix ≠ bytes "/DbHandler")
    (selected : selectPrefix (deploy around server.handlers).handlers w.request = some path.uriPrefix)
    (ok : w.response.status = .ok) (plain : ¬ AsksCoding w.request) :
    ∃ handler file contents, Initialised path (.static handler) ∧ namedFile handler w.request.uri = some file ∧
      around.fs.contents (cStr file) = some contents ∧
      ServedFile (fileBody around.markdown file contents) (fileType file) w := by
  obtain ⟨registered, lookup, initialised⟩ := lookup_of_init parsed started listed (by simp [named]) notError notDb
  obtain ⟨handler, rfl⟩ : ∃ handler, registered = .static handler := by
    cases initialised with
    | static => exact ⟨_, rfl⟩
    | echo other => cases named.symm.trans other
    | status other => cases named.symm.trans other
    | python other => cases named.symm.trans other
    | proxy other => cases named.symm.trans other
  have own := uriPrefix_of_initialised initialised
  obtain ⟨decoded, file, contents, read, looked, opened, served⟩ :=
    exists_served_file run mem selected notError lookup ok plain
  obtain ⟨before, behind, split_⟩ := List.append_of_mem mem
  obtain ⟨message, -, originates⟩ := explained_of_run run before w behind split_
  have nonempty : path.uriPrefix ≠ [] := nonempty_of_ok originates selected ok
  have slash : w.request.uri.head? = some 47 := by
    have either := written_uri_of_parsed (P := fun uri => uri = [] ∨ uri.head? = some 47) (.inl rfl)
      (fun parsed => .inr (parse_image parsed).uri_slash) run w mem
    exact either.resolve_left (uri_ne_nil_of_filePath (own ▸ nonempty) read looked)
  obtain ⟨rest, cut, -⟩ := atBoundary_of_selected slash nonempty selected
  rw [← own] at cut noEscape
  exact ⟨handler, file, contents, initialised, namedFile_of_filePath cut noEscape read looked, opened, served⟩

end Configured

def staticPath : Bytes := bytes "path /s StaticHandler \x7broot a;\x7d"

theorem configured_file_sample : ∃ config server s w handler file contents,
    NginxConfig.parse staticPath = some config ∧ Server.init staticPath = .ok server ∧
      Run (deploy documentSurroundings server.handlers) noCompression
        (ServerState.start freshWorld server.serverStatus.handlerToUri) documentGet.reverse s ∧ w ∈ s.written ∧
      namedFile handler w.request.uri = some file ∧ documentSurroundings.fs.contents (cStr file) = some contents ∧
      ServedFile (fileBody documentSurroundings.markdown file contents) (fileType file) w := by
  have accepted : (NginxConfig.parse staticPath).any (fun config =>
      (pathStatements config.statements).any fun path =>
        path.handlerClass = some .static ∧ path.uriPrefix = bytes "/s") = true := by decide +kernel
  have served : (Server.init staticPath).toOption.any (fun server =>
      (after (deploy documentSurroundings server.handlers) noCompression
        (ServerState.start freshWorld server.serverStatus.handlerToUri) documentGet).any fun s =>
          s.written.length = 1 ∧ s.written.all (fun w =>
            selectPrefix (deploy documentSurroundings server.handlers).handlers w.request = some (bytes "/s") ∧
              w.response.status = .ok ∧
              w.request.getHeaderValueByName (bytes "Accept-Encoding") = []) = true) = true := by decide +kernel
  obtain ⟨config, parsed, paths⟩ := Option.any_eq_true _ _ |>.mp accepted
  obtain ⟨path, listed, isStatic⟩ := List.any_eq_true.mp paths
  obtain ⟨named, root⟩ := of_decide_eq_true isStatic
  obtain ⟨server, started, served⟩ := Option.any_eq_true _ _ |>.mp served
  obtain ⟨s, reached, pages⟩ := Option.any_eq_true _ _ |>.mp served
  obtain ⟨one_, pages⟩ := of_decide_eq_true pages
  obtain ⟨w, written⟩ := List.length_eq_one_iff.mp one_
  rw [written] at pages
  obtain ⟨selected, ok, plain⟩ := of_decide_eq_true (List.all_eq_true.mp pages w (List.mem_singleton_self w))
  have run := run_of_after reached
  have mem : w ∈ s.written := written ▸ List.mem_singleton_self w
  obtain ⟨handler, file, contents, -, names, read, file_⟩ := configured_file parsed (ok_of_toOption started) run mem
    listed named (by rw [root]; decide) (by rw [root]; decide) (by rw [root]; decide) (root ▸ selected) ok
    (not_asksCoding_of_none plain)
  exact ⟨config, server, s, w, handler, file, contents, parsed, ok_of_toOption started, run, mem, names, read, file_⟩

end TscServer.Proof
