import TscServer.Proof.BodyCompression
import TscServer.Proof.HeaderCase

/-!
# Content codings

What `compress_payload` does to a response: nothing without a coding that the request accepts, and
otherwise a body that decodes to the one before, under the name of its coding.
-/

namespace TscServer.Proof
open Lib Model Spec BodyCompression

/-! ## The accepted codings -/

theorem splitOn_filter {α : Type} [DecidableEq α] (keep : α → Bool) {sep : α} (kept : keep sep = true)
    (s : List α) : (s.filter keep).splitOn sep = (s.splitOn sep).map fun part => part.filter keep := by
  induction s with
  | nil => simp [List.splitOn_nil]
  | cons c s ih =>
      by_cases here : c = sep
      · subst here
        rw [List.filter_cons_of_pos kept, List.splitOn_cons_eq_if_modifyHead, List.splitOn_cons_eq_if_modifyHead,
          if_pos (beq_self_eq_true c), if_pos (beq_self_eq_true c), ih]
        rfl
      · have other : ¬ (c == sep) = true := by simpa using here
        rw [List.splitOn_cons_eq_if_modifyHead, if_neg other]
        obtain ⟨first, parts, split⟩ := List.exists_cons_of_ne_nil (List.splitOn_ne_nil sep s)
        rw [split, List.map_cons] at ih
        rw [split, List.modifyHead_cons, List.map_cons]
        cases stays : keep c with
        | true =>
            rw [List.filter_cons_of_pos stays, List.splitOn_cons_eq_if_modifyHead, if_neg other, ih,
              List.modifyHead_cons, List.filter_cons_of_pos stays]
        | false =>
            have goes : ¬ keep c = true := by simp [stays]
            rw [List.filter_cons_of_neg goes, List.filter_cons_of_neg goes, ih]

theorem accepted_eq (r : Request) : accepted r =
    ((r.getHeaderValueByName (bytes "Accept-Encoding")).filter (· != 32)).splitOn 44 :=
  (splitOn_filter (· != 32) (by decide) _).symm

theorem notMem_accepted {r : Request} (none : r.getHeaderValueByName (bytes "Accept-Encoding") = [])
    (coding : ContentCoding) : coding.name ∉ accepted r := by
  rw [accepted, none]
  cases coding with
  | gzip => decide
  | deflate => decide

/-! ## The response -/

section Response
variable {decode : StreamFormat → Bytes → Option Bytes} {r : Request} {response : Response}

def codedWith (response : Response) (coding : ContentCoding) (body : Bytes) : Response :=
  ((response.addHeader (bytes "Content-Encoding") coding.name).setBody body).addHeader
    (bytes "Content-Length") (toDecimal body.length)

theorem mem_addHeader {name value : Bytes} {header : Bytes × Bytes} :
    header ∈ (response.addHeader name value).headers ↔
      header = (name, value) ∨ header ∈ response.headers ∧ header.1 ≠ name := by
  rw [Response.addHeader]
  split
  · rename_i present
    obtain ⟨old, mem, named⟩ := List.any_eq_true.mp present
    have named : old.1 = name := of_decide_eq_true named
    rw [List.mem_map]
    constructor
    · rintro ⟨other, mem', rfl⟩
      by_cases here : other.1 = name
      · rw [if_pos here]
        exact .inl rfl
      · rw [if_neg here]
        exact .inr ⟨mem', here⟩
    · rintro (rfl | ⟨mem', apart⟩)
      · exact ⟨old, mem, if_pos named⟩
      · exact ⟨header, mem', if_neg apart⟩
  · rename_i absent
    have absent : ∀ old ∈ response.headers, old.1 ≠ name := by
      rw [Bool.not_eq_true, List.any_eq_false] at absent
      exact fun old mem => by simpa using absent old mem
    rw [List.mem_append, List.mem_singleton]
    constructor
    · rintro (mem | rfl)
      · exact .inr ⟨mem, absent header mem⟩
      · exact .inl rfl
    · rintro (rfl | ⟨mem, -⟩)
      · exact .inr rfl
      · exact .inl mem

theorem codedWith_body (response : Response) (coding : ContentCoding) (body : Bytes) :
    (codedWith response coding body).body = body := Response.addHeader_body ..

theorem mem_codedWith (fresh : ∀ header ∈ response.headers, header.1 ≠ bytes "Content-Encoding")
    {coding : ContentCoding} {body value : Bytes} :
    (bytes "Content-Encoding", value) ∈ (codedWith response coding body).headers ↔ value = coding.name := by
  have apart : bytes "Content-Encoding" ≠ bytes "Content-Length" := by decide
  rw [codedWith, mem_addHeader, Response.setBody, mem_addHeader, Prod.mk.injEq, Prod.mk.injEq]
  constructor
  · rintro (⟨same, -⟩ | ⟨⟨-, named⟩ | ⟨mem, -⟩, -⟩)
    · exact absurd same apart
    · exact named
    · exact absurd rfl (fresh _ mem)
  · intro named
    exact .inr ⟨.inl ⟨rfl, named⟩, apart⟩

theorem negotiated_codedWith (fresh : ∀ header ∈ response.headers, header.1 ≠ bytes "Content-Encoding")
    {coding : ContentCoding} {body : Bytes} (inside : coding.name ∈ accepted r)
    (preferred : ContentCoding.gzip.name ∈ accepted r → coding = .gzip)
    (decodes : decode coding.format body = some response.body) :
    Negotiated decode r response (codedWith response coding body) where
  coded value mem := by
    refine ⟨coding, (mem_codedWith fresh).mp mem, inside, preferred, ?_⟩
    rw [codedWith_body, decodes]
  present _ _ := ⟨coding.name, (mem_codedWith fresh).mpr rfl⟩
  plain none := absurd inside (none coding)

theorem negotiated_unchanged (fresh : ∀ header ∈ response.headers, header.1 ≠ bytes "Content-Encoding")
    (none : ∀ coding : ContentCoding, coding.name ∉ accepted r) : Negotiated decode r response response where
  coded _ mem := absurd rfl (fresh _ mem)
  present coding mem := absurd mem (none coding)
  plain _ := rfl

theorem run_replaceBody {coding : ContentCoding} {out : Bytes}
    {compress : Bytes → Proc CompressionError Response Bytes} (returns : compress response.body = pure out) :
    (replaceBody coding.name compress).run response = .done () (codedWith response coding out) := by
  rw [replaceBody, Proc.run_get_bind, Proc.run_modify_bind, returns, Proc.pure_bind, Proc.run_modify_bind,
    Proc.run_modify]
  rfl

theorem negotiated_replaceBody {zlib : Zlib} {setup : DeflateSetup} (valid : ValidSetup setup)
    (documented : Documented zlib decode response.body) (short : response.body.length < 2 ^ 32)
    (fresh : ∀ header ∈ response.headers, header.1 ≠ bytes "Content-Encoding") {coding : ContentCoding}
    (format : streamFormat setup = coding.format) (inside : coding.name ∈ accepted r)
    (preferred : ContentCoding.gzip.name ∈ accepted r → coding = .gzip) :
    ∃ bound, ∀ fuel, bound < fuel → ∃ after,
      (replaceBody coding.name (compress zlib fuel setup)).run response = .done () after ∧
        Negotiated decode r response after := by
  obtain ⟨out, bound, decodes, returns⟩ := compress_of_documented documented short valid
  rw [format] at decodes
  refine ⟨bound, fun fuel enough => ⟨codedWith response coding out, run_replaceBody (returns fuel enough), ?_⟩⟩
  exact negotiated_codedWith fresh inside preferred decodes

theorem compressPayloadWith_eq (zlib : Zlib) (fuel : Nat) (r : Request) : compressPayloadWith zlib fuel r =
    if ContentCoding.gzip.name ∈ accepted r then
      replaceBody ContentCoding.gzip.name (compress zlib fuel { level := 9, windowBits := 15 + 16, memLevel := 9 })
    else if ContentCoding.deflate.name ∈ accepted r then
      replaceBody ContentCoding.deflate.name (compress zlib fuel (DeflateSetup.default 9))
    else pure () := by
  rw [compressPayloadWith]
  by_cases absent : r.getHeaderValueByName (bytes "Accept-Encoding") = []
  · rw [if_pos absent, if_neg (notMem_accepted absent _), if_neg (notMem_accepted absent _)]
  · have listed (name : Bytes) : (((r.getHeaderValueByName (bytes "Accept-Encoding")).filter (· != 32)).splitOn
        44).any (· = name) = decide (name ∈ accepted r) := by
      rw [accepted_eq, Bool.eq_iff_iff, List.any_eq_true]
      simp
    simp only [if_neg absent, listed, decide_eq_true_eq]
    rfl

theorem compressPayload_eq (compression : Compression) (r : Request) (response : Response) :
    Connection.compressPayload compression r response =
      if ContentCoding.gzip.name ∈ accepted r then
        codedWith response .gzip (compression.compressGzip response.body)
      else if ContentCoding.deflate.name ∈ accepted r then
        codedWith response .deflate (compression.compressDeflate response.body)
      else response := by
  rw [Connection.compressPayload]
  by_cases absent : r.getHeaderValueByName (bytes "Accept-Encoding") = []
  · rw [if_pos absent, if_neg (notMem_accepted absent _), if_neg (notMem_accepted absent _)]
  · rw [if_neg absent, accepted_eq]
    rfl

/-- With compressors that return, the response is changed as the connection's model says. -/
theorem run_compressPayloadWith {zlib : Zlib} {compression : Compression} {fuel : Nat}
    (gzip : compressGzip zlib fuel response.body = pure (compression.compressGzip response.body))
    (deflate : compressDeflate zlib fuel response.body = pure (compression.compressDeflate response.body)) :
    (compressPayloadWith zlib fuel r).run response =
      .done () (Connection.compressPayload compression r response) := by
  rw [compressPayloadWith_eq, compressPayload_eq]
  split
  · exact run_replaceBody gzip
  · split
    · exact run_replaceBody deflate
    · rfl

/-- A response that is compressed decodes to the one before, in a coding that the request accepts. -/
theorem compressPayload_negotiated {zlib : Zlib} (r : Request) {response : Response}
    (documented : Documented zlib decode response.body) (short : response.body.length < 2 ^ 32)
    (fresh : ∀ header ∈ response.headers, header.1 ≠ bytes "Content-Encoding") :
    ∃ bound, ∀ fuel, bound < fuel → ∃ after,
      (compressPayloadWith zlib fuel r).run response = .done () after ∧ Negotiated decode r response after := by
  simp only [compressPayloadWith_eq]
  by_cases gzip : ContentCoding.gzip.name ∈ accepted r
  · simp only [if_pos gzip]
    exact negotiated_replaceBody ⟨by decide, by decide, by decide, by decide⟩ documented short fresh rfl gzip
      (fun _ => rfl)
  simp only [if_neg gzip]
  by_cases deflate : ContentCoding.deflate.name ∈ accepted r
  · simp only [if_pos deflate]
    exact negotiated_replaceBody ⟨by decide, by decide, by decide, by decide⟩ documented short fresh rfl deflate
      (fun inside => absurd inside gzip)
  · simp only [if_neg deflate]
    refine ⟨0, fun fuel _ => ⟨response, rfl, negotiated_unchanged fresh fun coding => ?_⟩⟩
    cases coding with
    | gzip => exact gzip
    | deflate => exact deflate

end Response

def sampleStream : StreamFormat → Bytes
  | .gzip => [31, 139, 8, 0, 0, 0, 0, 0, 2, 3, 75, 76, 76, 76, 4, 0, 69, 229, 152, 173, 4, 0, 0, 0]
  | .zlib => [120, 218, 75, 76, 76, 76, 4, 0, 3, 206, 1, 133]

def sampleZlib : Zlib where
  State := StreamFormat
  init setup := some (streamFormat setup)
  deflate format input _ :=
    if input = bytes "aaaa" then (.streamEnd, sampleStream format, format, []) else (.error (-5), [], format, input)

def sampleDecode (format : StreamFormat) (stream : Bytes) : Option Bytes :=
  if stream = sampleStream format then some (bytes "aaaa") else none

theorem deflates_sample {format : StreamFormat} {out : Bytes} :
    Deflates sampleZlib { state := format, input := bytes "aaaa" } out ↔ out = sampleStream format := by
  have step : deflate sampleZlib { state := format, input := bytes "aaaa" } =
      (.streamEnd, sampleStream format, { state := format, input := [], totalOut := (sampleStream format).length }) := by
    rw [deflate]
    simp [sampleZlib]
  constructor
  · intro deflates
    cases deflates with
    | last last =>
        rw [step] at last
        exact (congrArg (fun result => result.2.1) last).symm
    | more more _ =>
        rw [step] at more
        cases congrArg Prod.fst more
  · rintro rfl
    exact .last step

theorem documented_sample : Documented sampleZlib sampleDecode (bytes "aaaa") where
  starts _ _ := rfl
  ends _ format _ := ⟨sampleStream format, deflates_sample.mpr rfl⟩
  decodes setup format out started deflates := by
    obtain rfl := Option.some.inj started
    exact if_pos (deflates_sample.mp deflates)

theorem compressPayload_sample : ∃ r,
    Request.parse (bytes "GET / HTTP/1.1\r\nAccept-Encoding: deflate, gzip\r\n\r\n") = some r ∧
    ∃ bound, ∀ fuel, bound < fuel → ∃ after,
      (compressPayloadWith sampleZlib fuel r).run { body := bytes "aaaa" } = .done () after ∧
        Negotiated sampleDecode r { body := bytes "aaaa" } after := by
  have accepts : (Request.parse (bytes "GET / HTTP/1.1\r\nAccept-Encoding: deflate, gzip\r\n\r\n")).isSome := by
    decide
  obtain ⟨r, parsed⟩ := Option.isSome_iff_exists.mp accepts
  exact ⟨r, parsed, compressPayload_negotiated r documented_sample (by decide) (by simp)⟩

end TscServer.Proof
