import TscServer.Lib.CrlfLines
import TscServer.Model.Server
import TscServer.Proof.Calls

/-!
# What handlers answer

A handler that succeeds leaves a page, with its length, its type and no other header, or a raw response
of an upstream. One that fails has set nothing but a status, so that the error handler makes a page
of it.
-/

namespace TscServer.Proof
open Lib Model

def Bare (response : Response) : Prop := ∃ status, response = Response.setStatus {} status

structure Page (response : Response) : Prop where
  version : response.version = []
  raw : response.rawResponse = []
  headers : ∃ contentType, Lib.OneLine contentType ∧ response.headers =
    [(bytes "Content-Length", toDecimal response.body.length), (bytes "Content-Type", contentType)]

structure Raw (response : Response) : Prop where
  raw : response.rawResponse ≠ []
  status : response.status = .none

section Pages
variable {response : Response}

theorem bare_empty : Bare {} := ⟨.none, rfl⟩

theorem Bare.setStatus (bare : Bare response) (code : ResponseCode) : Bare (response.setStatus code) := by
  obtain ⟨status, rfl⟩ := bare
  exact ⟨code, rfl⟩

theorem Bare.setPage (bare : Bare response) (body : Bytes) {contentType : Bytes}
    (one : Lib.OneLine contentType) : Page (response.setPage body contentType) := by
  obtain ⟨status, rfl⟩ := bare
  exact ⟨rfl, rfl, contentType, one, rfl⟩

theorem Page.setIsImage (page : Page response) (isImage : Bool) : Page (response.setIsImage isImage) :=
  ⟨page.version, page.raw, page.headers⟩

theorem page_errorHandler (bare : Bare response) : Page (ErrorHandler.handleRequest response).2 :=
  bare.setPage _ (by decide)

theorem page_reply (bare : Bare response) (rep : Bytes) : Page (DbHandler.reply response rep) := by
  obtain ⟨status, rfl⟩ := bare
  exact ⟨rfl, rfl, bytes "text/plain", by decide, rfl⟩

end Pages

/-! ## Each class -/

def Leaves (status : Status) (response : Response) : Prop :=
  if status = .ok then Page response ∨ Raw response else Bare response

theorem leaves_ok {response : Response} (page : Page response) : Leaves .ok response := .inl page

theorem leaves_fail {response : Response} (bare : Bare response) : Leaves .handleFail response := bare

section Classes
variable {request : Request} {status : Status} {response : Response}

theorem oneLine_extension2type (extension : Bytes) :
    Lib.OneLine (StaticFileHandler.extension2type extension) := by
  unfold StaticFileHandler.extension2type
  split_ifs <;> decide

theorem page_file (body extension : Bytes) (isImage : Prop) [Decidable isImage] :
    Page (if isImage then ((Response.setStatus {} .ok).setPage body
        (StaticFileHandler.extension2type extension)).setIsImage true
      else (Response.setStatus {} .ok).setPage body (StaticFileHandler.extension2type extension)) := by
  have page := (bare_empty.setStatus .ok).setPage body (oneLine_extension2type extension)
  split
  · exact page.setIsImage true
  · exact page

theorem static_leaves {handler : StaticFileHandler} {fs : FileSystem} {markdown : Bytes → Bytes}
    {s : StaticFileState}
    (returned : (handler.handleRequest fs markdown request).run { response := {} } = .done status s) :
    Leaves status s.response := by
  unfold StaticFileHandler.handleRequest at returned
  cases decodes : Request.uriDecode request.uri with
  | none =>
      rw [decodes] at returned
      cases returned
      exact leaves_fail (bare_empty.setStatus _)
  | some requestUri =>
      simp only [decodes] at returned
      cases built : handler.filePath requestUri with
      | none =>
          rw [built] at returned
          cases returned
      | some path =>
          simp only [built, Proc.ofOption_some, Proc.pure_bind] at returned
          cases regular : fs.isRegularFile (cStr path) with
          | none =>
              rw [regular] at returned
              cases returned
          | some isRegular =>
              simp only [regular, Proc.ofOption_some, Proc.pure_bind] at returned
              cases isRegular with
              | false =>
                  cases returned
                  exact leaves_fail (bare_empty.setStatus _)
              | true =>
                  simp only [Bool.not_true, Bool.false_eq_true, if_false,
                    StaticFileHandler.run_openFile_bind] at returned
                  cases opened : fs.contents (cStr path) with
                  | none =>
                      rw [opened] at returned
                      cases returned
                      exact leaves_fail (bare_empty.setStatus _)
                  | some contents =>
                      rw [opened] at returned
                      cases returned
                      exact leaves_ok (page_file _ _ _)

theorem python_leaves {handler : PythonHandler} {python : Interpreter}
    (returned : handler.handleRequest python request {} = .ok (status, response)) :
    Leaves status response := by
  have refused : Leaves .handleFail (({} : Response).setStatus .badRequest) :=
    leaves_fail (bare_empty.setStatus _)
  unfold PythonHandler.handleRequest at returned
  split at returned
  · cases returned
    exact refused
  split at returned
  · split at returned
    · cases returned
    split at returned
    · cases returned
      exact refused
    split at returned
    · cases returned
      exact leaves_fail bare_empty
    · cases returned
    · cases returned
      exact leaves_ok ((bare_empty.setStatus _).setPage _ (by decide))
  · cases returned
    exact refused

theorem page_queryTable (database : Database) (query : Bytes) :
    Page (DbHandler.queryTable database query {}).2 := by
  unfold DbHandler.queryTable
  split
  · exact page_reply bare_empty _
  · exact page_reply bare_empty _

theorem page_updateTable (database : Database) (update : Bytes) :
    Page (DbHandler.updateTable database update {}).2 := by
  unfold DbHandler.updateTable
  split
  · exact page_reply bare_empty _
  · exact page_reply bare_empty _

theorem db_leaves {database : Database}
    (returned : DbHandler.handleRequest database request {} = .ok (status, response)) :
    Leaves status response := by
  unfold DbHandler.handleRequest at returned
  split at returned
  · cases returned
    exact leaves_fail (bare_empty.setStatus _)
  · cases returned
  · rename_i name value rest form
    split_ifs at returned
    · cases returned
      exact leaves_ok (page_queryTable database value)
    · cases returned
      exact leaves_ok (page_updateTable database value)
    · cases returned
      exact leaves_fail (bare_empty.setStatus _)

/-! ### The proxy handler -/

theorem serveLines_ne_nil {env : Environment} {path : Bytes} (lines : List (Bytes × Option Bytes))
    (s : ProxyState) :
    (ProxyHandler.serveLines env path lines).wp (fun raw _ => raw ≠ []) (fun _ _ => True) s := by
  cases lines with
  | nil => simp [ProxyHandler.serveLines]
  | cons line lines =>
      obtain ⟨line, rest⟩ := line
      rw [ProxyHandler.serveLines]
      split
      · simp [crlf]
      · apply Proc.wp_bind_of_forall _ (fun _ _ => trivial)
        intro written s'
        cases rest with
        | none => simp
        | some rest =>
            apply Proc.wp_bind_of_forall _ (fun _ _ => trivial)
            simp

theorem serveFile_raw {env : Environment} {path : Bytes} (s : ProxyState) :
    (ProxyHandler.serveFile env path {}).wp (fun response _ => Raw response) (fun _ _ => True) s := by
  unfold ProxyHandler.serveFile
  rw [Proc.wp_bind, Proc.wp_get]
  split
  · trivial
  · rw [Proc.wp_bind]
    apply Proc.wp_mono (serveLines_ne_nil _ s) _ (fun _ _ _ => trivial)
    intro raw s' nonempty
    exact ⟨nonempty, rfl⟩

theorem handleCache_raw {env : Environment} {handler : ProxyHandler} {inner : ProxyHandler.Inner}
    {uri : Bytes} (s : ProxyState) :
    (ProxyHandler.handleCache env handler inner uri {}).wp
      (fun result _ => ∀ response, result = some response → Raw response) (fun _ _ => True) s := by
  unfold ProxyHandler.handleCache
  rw [Proc.wp_bind, Proc.wp_get]
  split
  · intro response never
    cases never
  · apply Proc.wp_bind_of_forall _ (fun _ _ => trivial)
    intro now s'
    have answer (usable : Bool) (s'' : ProxyState) :
        (if usable = true then do return some (← ProxyHandler.serveFile env (ProxyHandler.cacheKey uri) {})
          else return none : ProxyProc (Option Response)).wp
          (fun result _ => ∀ response, result = some response → Raw response) (fun _ _ => True) s'' := by
      cases usable with
      | false =>
          intro response never
          cases never
      | true =>
          rw [if_pos rfl, Proc.wp_bind]
          apply Proc.wp_mono (serveFile_raw s'') _ (fun _ _ _ => trivial)
          intro response _ raw response' same
          obtain rfl := Option.some.inj same
          exact raw
    dsimp only
    split
    · exact Proc.wp_bind_of_forall answer (fun _ _ => trivial)
    · exact Proc.wp_bind_of_forall answer (fun _ _ => trivial)

theorem raw_delivered (d : Spec.Delivered) : Raw (Response.setRawResponse {} d.raw) :=
  ⟨raw_ne_nil d, rfl⟩

theorem loop_leaves {env : Environment} {requestUri host port uri : Bytes} {s s' : ProxyState}
    (done : LoopDone env request requestUri host port uri s status response s') :
    Leaves status response := by
  obtain ⟨mid, outs, out, -, done⟩ := done
  rcases answers_of_roundDone done with ⟨-, rfl, rfl⟩ | ⟨d, host, port, uri, -, finished⟩
  · exact leaves_fail bare_empty
  · have final := round_not_redirect finished
    rw [Spec.Delivered.round, if_neg final] at finished
    split at finished
    · cases finished
      exact leaves_fail (bare_empty.setStatus _)
    · cases finished
      exact .inr (raw_delivered d)

theorem proxy_leaves {env : Environment} {handler : ProxyHandler} {fuel : Nat} {s s' : ProxyState}
    (returned : (ProxyHandler.handleRequest env handler fuel request {}).run s =
      .done (status, response) s') : Leaves status response := by
  have spec : (ProxyHandler.handleRequest env handler fuel request {}).wp
      (fun result _ => Leaves result.1 result.2) (fun _ _ => True) s := by
    cases fuel with
    | zero => trivial
    | succ fuel =>
        rw [ProxyHandler.handleRequest, Proc.wp_bind]
        apply Proc.wp_mono (handleCache_raw s) _ (fun _ _ _ => trivial)
        intro result mid raw
        cases result with
        | some response => exact .inr (raw response rfl)
        | none =>
            apply Proc.wp_mono (exchangeLoop_wp _) _ (fun _ _ _ => trivial)
            intro result s' done
            exact loop_leaves done
  rw [Proc.wp, returned] at spec
  exact spec

end Classes

theorem returns_leaves {handler : RegisteredHandler} {request : Request} {serverStatus : ServerStatus}
    {status : Status} {response : Response}
    (returned : handler.Returns request {} serverStatus status response) : Leaves status response := by
  cases returned with
  | echo => exact leaves_ok ((bare_empty.setStatus _).setPage _ (by decide))
  | status => exact leaves_ok ((bare_empty.setStatus _).setPage _ (by decide))
  | static ran => exact static_leaves ran
  | python ran => exact python_leaves ran
  | proxy ran => exact proxy_leaves ran
  | error => exact leaves_ok (page_errorHandler bare_empty)
  | db ran => exact db_leaves ran

end TscServer.Proof
