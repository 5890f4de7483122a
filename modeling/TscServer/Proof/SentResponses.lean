import TscServer.Proof.ServerSteps
import TscServer.Spec.RequestText
import TscServer.Spec.Responses

/-!
# The bytes of a page

A page is written as a status line, its length, its type, a Connection header and possibly a
Content-Encoding, one line each, then a blank line and the body.
-/

namespace TscServer.Proof
open Lib Model Spec Connection

/-! ## Headers -/

section Headers
variable {response : Response} {name value old : Bytes} {rest : List (Bytes × Bytes)}

theorem addHeader_new (absent : ∀ header ∈ response.headers, header.1 ≠ name) :
    (response.addHeader name value).headers = response.headers ++ [(name, value)] := by
  rw [Response.addHeader, if_neg]
  simpa using fun value mem => absent (name, value) mem rfl

theorem addHeader_first (headers : response.headers = (name, old) :: rest)
    (absent : ∀ header ∈ rest, header.1 ≠ name) :
    (response.addHeader name value).headers = (name, value) :: rest := by
  rw [Response.addHeader, if_pos (by simp [headers]), headers]
  have same : rest.map (fun header => if header.1 = name then (name, value) else header) = rest := by
    rw [List.map_congr_left (fun header mem => if_neg (absent header mem)), List.map_id']
  simp [same]

end Headers

structure SentPage (request : Request) (answer response : Response) : Prop where
  version : response.version = []
  raw : response.rawResponse = []
  status : response.status = answer.status
  headers : ∃ (contentType : Bytes) (coding : List Bytes),
    Lib.OneLine contentType ∧ (∀ encoding ∈ coding, Lib.OneLine encoding) ∧
    response.headers =
      (bytes "Content-Length", toDecimal response.body.length) ::
        (bytes "Content-Type", contentType) ::
        (bytes "Connection", if asksClose request then bytes "close" else bytes "keep-alive") ::
        coding.map fun encoding => (bytes "Content-Encoding", encoding)

section Sent
variable (compression : Compression) {request : Request} {answer : Response}

theorem sent_raw : (sent compression request answer).rawResponse = answer.rawResponse := by
  simp only [sent, compressPayload]
  split_ifs <;> simp [Response.setBody]

theorem encoded_headers {response : Response} {length contentType connection : Bytes}
    (headers : response.headers = [(bytes "Content-Length", length), (bytes "Content-Type", contentType),
      (bytes "Connection", connection)]) (encoding compressed : Bytes) :
    (((response.addHeader (bytes "Content-Encoding") encoding).setBody compressed).addHeader
      (bytes "Content-Length") (toDecimal compressed.length)).headers =
      [(bytes "Content-Length", toDecimal compressed.length), (bytes "Content-Type", contentType),
        (bytes "Connection", connection), (bytes "Content-Encoding", encoding)] := by
  have new : ∀ header ∈ response.headers, header.1 ≠ bytes "Content-Encoding" := by
    rw [headers]
    simpa using (by decide : bytes "Content-Length" ≠ bytes "Content-Encoding" ∧
      bytes "Content-Type" ≠ bytes "Content-Encoding" ∧ bytes "Connection" ≠ bytes "Content-Encoding")
  have announced : ((response.addHeader (bytes "Content-Encoding") encoding).setBody compressed).headers =
      (bytes "Content-Length", length) :: [(bytes "Content-Type", contentType),
        (bytes "Connection", connection), (bytes "Content-Encoding", encoding)] := by
    show (response.addHeader (bytes "Content-Encoding") encoding).headers = _
    rw [addHeader_new new, headers]
    rfl
  apply addHeader_first announced
  simpa using (by decide : bytes "Content-Type" ≠ bytes "Content-Length" ∧
    bytes "Connection" ≠ bytes "Content-Length" ∧ bytes "Content-Encoding" ≠ bytes "Content-Length")

theorem sentPage (page : Page answer) :
    SentPage request answer (sent compression request answer) := by
  obtain ⟨contentType, plain, headers⟩ := page.headers
  let connection := if asksClose request then bytes "close" else bytes "keep-alive"
  let response := answer.addHeader (bytes "Connection") connection
  have new : ∀ header ∈ answer.headers, header.1 ≠ bytes "Connection" := by
    rw [headers]
    simpa using (by decide : bytes "Content-Length" ≠ bytes "Connection" ∧
      bytes "Content-Type" ≠ bytes "Connection")
  have opened : response.headers = [(bytes "Content-Length", toDecimal answer.body.length),
      (bytes "Content-Type", contentType), (bytes "Connection", connection)] := by
    show (answer.addHeader (bytes "Connection") connection).headers = _
    rw [addHeader_new new, headers]
    rfl
  have version : response.version = [] := by simp [response, page.version]
  have raw : response.rawResponse = [] := by simp [response, page.raw]
  have status : response.status = answer.status := by simp [response]
  have body : response.body = answer.body := by simp [response]
  have asIs : SentPage request answer response :=
    ⟨version, raw, status, contentType, [], plain, by simp, by rw [opened, body]; rfl⟩
  have coded (encoding compressed : Bytes) (one : Lib.OneLine encoding) :
      SentPage request answer (((response.addHeader (bytes "Content-Encoding") encoding).setBody
        compressed).addHeader (bytes "Content-Length") (toDecimal compressed.length)) := by
    refine ⟨by simpa [Response.setBody] using version, by simpa [Response.setBody] using raw,
      by simpa [Response.setBody] using status, contentType, [encoding], plain, by simpa using one, ?_⟩
    rw [encoded_headers opened, Response.addHeader_body]
    rfl
  show SentPage request answer
    (if response.isImage then response else compressPayload compression request response)
  unfold compressPayload
  dsimp only
  split_ifs
  · exact asIs
  · exact asIs
  · exact coded (bytes "gzip") _ (by decide)
  · exact coded (bytes "deflate") _ (by decide)
  · exact asIs

/-! ## Lines -/

def statusText : ResponseCode → Bytes
  | .ok => bytes "HTTP/1.1 200 OK"
  | .badRequest => bytes "HTTP/1.1 400 Bad Request"
  | .notFound => bytes "HTTP/1.1 404 Not Found"
  | .redirect => bytes "HTTP/1.1 302 Redirect"
  | .internalServerError => bytes "HTTP/1.1 500 Internal Server Error"
  | .none => bytes "HTTP/1.1 500 Internal Server Error"

def codeText : ResponseCode → Bytes
  | .ok => bytes "200"
  | .badRequest => bytes "400"
  | .notFound => bytes "404"
  | .redirect => bytes "302"
  | .internalServerError => bytes "500"
  | .none => bytes "500"

theorem toBytes_lines {response : Response} (version : response.version = [])
    (raw : response.rawResponse = []) : response.toBytes =
      (statusText response.status :: response.headers.map printedLine).flatMap (· ++ crlf) ++ crlf ++
        response.body := by
  have status : bytes "HTTP/1.1" ++ bytes " " ++ statusToString response.status =
      statusText response.status ++ crlf := by cases response.status <;> decide
  have lines : (response.headers.map printedLine).flatMap (· ++ crlf) =
      response.headers.flatMap fun header => header.1 ++ bytes ": " ++ header.2 ++ crlf := by
    rw [List.flatMap_map]
    rfl
  rw [Response.toBytes, if_neg (by simpa using raw), if_pos version, status, List.flatMap_cons, lines]

theorem oneLine_statusText (code : ResponseCode) :
    statusText code ≠ [] ∧ Lib.OneLine (statusText code) := by
  cases code <;> decide

theorem oneLine_toDecimal (n : Nat) : Lib.OneLine (toDecimal n) := by
  intro c mem
  have digit := isDigit_of_mem_toDecimal c mem
  constructor <;> rintro rfl <;> exact absurd digit (by decide)

theorem oneLine_printed {name value : Bytes} (nameOne : Lib.OneLine name) (valueOne : Lib.OneLine value) :
    printedLine (name, value) ≠ [] ∧ Lib.OneLine (printedLine (name, value)) := by
  constructor
  · simp [printedLine, bytes]
  · exact (nameOne.append (by decide)).append valueOne

theorem headerValues_printed {name value : Bytes} (key : Bytes) (noColon : 58 ∉ name)
    (lines : List Bytes) :
    headerValues key (printedLine (name, value) :: lines) =
      if lower name = lower key then trimBlanks value :: headerValues key lines
      else headerValues key lines :=
  headerValues_cons key noColon lines

theorem headerValues_codings {key : Bytes} (other : lower (bytes "Content-Encoding") ≠ lower key) (coding : List Bytes) :
    headerValues key ((coding.map fun encoding => (bytes "Content-Encoding", encoding)).map printedLine) = [] := by
  induction coding with
  | nil => rfl
  | cons encoding coding ih =>
      rw [List.map_cons, List.map_cons, headerValues_printed key (by decide), if_neg other, ih]

section Page
variable {response : Response} (page : SentPage request answer response)
include page

theorem SentPage.oneLine : ∀ line ∈ statusText response.status :: response.headers.map printedLine,
    line ≠ [] ∧ Lib.OneLine line := by
  obtain ⟨contentType, coding, plain, encodings, headers⟩ := page.headers
  intro line mem
  rcases List.mem_cons.mp mem with rfl | printed
  · exact oneLine_statusText _
  · obtain ⟨header, listed, rfl⟩ := List.mem_map.mp printed
    rw [headers] at listed
    simp only [List.mem_cons, List.mem_map] at listed
    rcases listed with isLength | isType | isConnection | ⟨encoding, known, isCoding⟩
    · rw [isLength]
      exact oneLine_printed (by decide) (oneLine_toDecimal _)
    · rw [isType]
      exact oneLine_printed (by decide) plain
    · rw [isConnection]
      exact oneLine_printed (by decide) (by split <;> decide)
    · rw [← isCoding]
      exact oneLine_printed (by decide) (encodings encoding known)

theorem SentPage.head : messageHead response.toBytes =
    statusText response.status :: response.headers.map printedLine := by
  rw [toBytes_lines page.version page.raw]
  exact messageHead_lines page.oneLine _

theorem SentPage.cut : ∃ head, cutHead response.toBytes = some (head, response.body) ∧
    crlfLines head = statusText response.status :: response.headers.map printedLine := by
  refine ⟨_, ?_, crlfLines_intercalate (by simp) fun line mem => (page.oneLine line mem).2.noCrlf⟩
  have blank (s : Bytes) : s ++ crlf ++ crlf = s ++ crlfcrlf := by
    rw [List.append_assoc]
    rfl
  rw [toBytes_lines page.version page.raw, flatMap_crlf (by simp), blank]
  exact cutHead_intercalate (by simp) page.oneLine _

theorem SentPage.values :
    headerValues (bytes "Content-Length") (response.headers.map printedLine) =
        [toDecimal response.body.length] ∧
      headerValues (bytes "Connection") (response.headers.map printedLine) =
        [if asksClose request then bytes "close" else bytes "keep-alive"] := by
  obtain ⟨contentType, coding, plain, encodings, headers⟩ := page.headers
  have digits : trimBlanks (toDecimal response.body.length) = toDecimal response.body.length := by
    apply trimBlanks_eq_self
    intro c mem
    have digit := isDigit_of_mem_toDecimal c mem
    simp only [isDigit, isSpaceOrTab, Bool.and_eq_true, decide_eq_true_eq] at digit ⊢
    grind
  have connection : trimBlanks (if asksClose request then bytes "close" else bytes "keep-alive") =
      if asksClose request then bytes "close" else bytes "keep-alive" := by split <;> decide
  rw [headers, List.map_cons, List.map_cons, List.map_cons]
  constructor
  · rw [headerValues_printed _ (by decide), if_pos rfl, headerValues_printed _ (by decide), if_neg (by decide),
      headerValues_printed _ (by decide), if_neg (by decide), headerValues_codings (by decide), digits]
  · rw [headerValues_printed _ (by decide), if_neg (by decide), headerValues_printed _ (by decide),
      if_neg (by decide), headerValues_printed _ (by decide), if_pos rfl, headerValues_codings (by decide), connection]

theorem SentPage.contentType {contentType : Bytes} (listed : (bytes "Content-Type", contentType) ∈ response.headers) :
    headerValues (bytes "Content-Type") (messageHead response.toBytes).tail = [trimBlanks contentType] := by
  obtain ⟨contentType', coding, plain, encodings, headers⟩ := page.headers
  have same : contentType' = contentType := by
    rw [headers] at listed
    simp only [List.mem_cons, List.mem_map, Prod.mk.injEq] at listed
    rcases listed with ⟨isLength, -⟩ | ⟨-, same⟩ | ⟨isConnection, -⟩ | ⟨encoding, -, isCoding, -⟩
    · exact absurd isLength (by decide)
    · exact same.symm
    · exact absurd isConnection (by decide)
    · exact absurd isCoding (by decide)
  rw [page.head, List.tail_cons, headers, List.map_cons, List.map_cons, List.map_cons,
    headerValues_printed _ (by decide), if_neg (by decide), headerValues_printed _ (by decide), if_pos rfl,
    headerValues_printed _ (by decide), if_neg (by decide), headerValues_codings (by decide), same]

theorem SentPage.framed : Framed response.toBytes := by
  obtain ⟨head, cut, lines⟩ := page.cut
  refine ⟨head, response.body, cut, ?_⟩
  rw [lines, List.tail_cons]
  exact page.values.1

theorem SentPage.announcesClose : AnnouncesClose response.toBytes ↔ asksClose request = true := by
  rw [AnnouncesClose, page.head, List.tail_cons, page.values.2]
  cases asksClose request with
  | true => simpa using (by decide : lower (bytes "close") = bytes "close")
  | false => simpa using (by decide : lower (bytes "keep-alive") ≠ bytes "close")

theorem SentPage.code : statusCode response.toBytes = codeText response.status := by
  rw [Spec.statusCode, page.head, List.headD_cons]
  cases response.status <;> decide

end Page
end Sent
end TscServer.Proof
