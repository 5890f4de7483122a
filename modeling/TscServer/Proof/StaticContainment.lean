import TscServer.Model.StaticFileHandler
import TscServer.Model.Connection
import TscServer.Proof.RequestImage

/-!
# What the static file handler opens

`Request::Parse` refuses `..` in the URI as it was sent, and the path is made from the URI after
percent decoding. `contained_iff` says for which URIs the opened file is below the root.
-/

namespace TscServer.Proof
open Lib Model Connection

/-! ## Segments of a path -/

def HasParentSegment (path : Bytes) : Prop := bytes ".." ∈ path.splitOn 47

theorem hasParentSegment_append {rest name : Bytes} (dir : rest = [] ∨ rest.getLast? = some 47)
    (plain : name.splitOn 47 = [name]) (ne : bytes ".." ≠ name) :
    HasParentSegment (rest ++ name) ↔ HasParentSegment rest := by
  have empty : bytes ".." ≠ [] := by decide
  rw [List.splitOn] at plain
  rcases dir with rfl | slash
  · simp only [HasParentSegment, List.splitOn, List.nil_append, plain, List.splitOnP_nil,
      List.mem_singleton, ne, empty]
  · obtain ⟨front, rfl⟩ := List.getLast?_eq_some_iff.mp slash
    have separator : ((47 : UInt8) == 47) = true := rfl
    have name_segments := List.splitOnP_append_cons (p := (· == 47)) front name separator
    have segments := List.splitOnP_append_cons (p := (· == 47)) front [] separator
    simp only [HasParentSegment, List.splitOn, List.append_assoc, List.singleton_append,
      name_segments, segments, plain, List.mem_append, List.mem_singleton, List.splitOnP_nil, ne,
      empty]

/-! ## Decoded bytes and the escapes they come from -/

def decodeUnits : Bytes → Option (List (UInt8 × Bool))
  | [] => some []
  | c :: s =>
      if c = 37 then
        match s with
        | a :: b :: s =>
            (Request.extractHex a b).bind fun value =>
              (decodeUnits s).map ((Request.toByte value, true) :: ·)
        | _ => none
      else (decodeUnits s).map ((if c = 43 then 32 else c, false) :: ·)

theorem uriDecode_eq_decodeUnits (uri : Bytes) :
    Request.uriDecode uri = (decodeUnits uri).map (List.map Prod.fst) := by
  fun_induction decodeUnits uri with
  | case1 => rfl
  | case2 a b s ih =>
      rw [Request.uriDecode, if_pos rfl, ih]
      cases Request.extractHex a b <;> simp [Function.comp_def]
  | case3 s short =>
      rw [Request.uriDecode, if_pos rfl]
      · rfl
      · exact short
  | case4 c s escape ih =>
      unfold Request.uriDecode
      rw [if_neg escape, ih]
      simp [Function.comp_def]

theorem decodeUnits_eq_cons {uri : Bytes} {u : UInt8 × Bool} {units : List (UInt8 × Bool)}
    (decoded : decodeUnits uri = some (u :: units)) :
    ∃ rest, rest <:+ uri ∧ decodeUnits rest = some units ∧
      (u.2 = false → ∃ c, uri = c :: rest ∧ u.1 = if c = 43 then 32 else c) := by
  unfold decodeUnits at decoded
  split at decoded
  · cases decoded
  · rename_i c s
    split at decoded
    · split at decoded
      · rename_i a b s
        obtain ⟨value, -, found⟩ := Option.bind_eq_some_iff.mp decoded
        obtain ⟨tail, rest, same⟩ := Option.map_eq_some_iff.mp found
        obtain ⟨rfl, rfl⟩ := List.cons.inj same
        exact ⟨s, ⟨[c, a, b], rfl⟩, rest, fun literal => by simp at literal⟩
      · cases decoded
    · obtain ⟨tail, rest, same⟩ := Option.map_eq_some_iff.mp decoded
      obtain ⟨rfl, rfl⟩ := List.cons.inj same
      exact ⟨s, List.suffix_cons c s, rest, fun _ => ⟨c, rfl, rfl⟩⟩

theorem decodeUnits_drop {uri : Bytes} {units : List (UInt8 × Bool)}
    (decoded : decodeUnits uri = some units) (n : Nat) :
    ∃ rest, rest <:+ uri ∧ decodeUnits rest = some (units.drop n) := by
  induction n generalizing uri units with
  | zero => exact ⟨uri, List.suffix_refl uri, decoded⟩
  | succ n ih =>
      cases units with
      | nil => exact ⟨uri, List.suffix_refl uri, decoded⟩
      | cons u units =>
          obtain ⟨rest, suffix, decoded, -⟩ := decodeUnits_eq_cons decoded
          obtain ⟨last, inner, decoded⟩ := ih decoded
          exact ⟨last, inner.trans suffix, decoded⟩

theorem decodeUnits_dot {uri : Bytes} {units : List (UInt8 × Bool)}
    (decoded : decodeUnits uri = some ((46, false) :: units)) :
    ∃ rest, uri = 46 :: rest ∧ decodeUnits rest = some units := by
  obtain ⟨rest, -, tail, literal⟩ := decodeUnits_eq_cons decoded
  obtain ⟨c, rfl, dot⟩ := literal rfl
  split at dot
  · cases dot
  · exact ⟨rest, by rw [← dot], tail⟩

theorem infix_of_literal_dots {uri : Bytes} {units : List (UInt8 × Bool)}
    (decoded : decodeUnits uri = some units) (dots : [(46, false), (46, false)] <:+: units) :
    bytes ".." <:+: uri := by
  obtain ⟨pre, post, rfl⟩ := dots
  obtain ⟨rest, suffix, dropped⟩ := decodeUnits_drop decoded pre.length
  simp only [List.append_assoc, List.drop_left, List.cons_append, List.nil_append] at dropped
  obtain ⟨second, rfl, tail⟩ := decodeUnits_dot dropped
  obtain ⟨last, rfl, -⟩ := decodeUnits_dot tail
  exact (List.prefix_append (bytes "..") last).isInfix.trans suffix.isInfix

def HasEscapedParentSegment (units : List (UInt8 × Bool)) : Prop :=
  ∃ a b, [(46, a), (46, b)] ∈ units.splitOnP (fun u => u.1 == 47) ∧ (a || b) = true

theorem hasParentSegment_units {uri : Bytes} {units part : List (UInt8 × Bool)}
    (decoded : decodeUnits uri = some units) (guarded : ¬ bytes ".." <:+: uri)
    (within : part <:+: units) :
    HasParentSegment (part.map Prod.fst) ↔ HasEscapedParentSegment part := by
  rw [HasParentSegment, List.splitOn, splitOnP_map, List.mem_map]
  constructor
  · rintro ⟨segment, mem, dots⟩
    obtain ⟨⟨x, a⟩, ⟨y, b⟩, rfl⟩ : ∃ u v, segment = [u, v] := by
      apply List.length_eq_two.mp
      rw [← List.length_map Prod.fst, dots]
      rfl
    obtain ⟨rfl, rfl⟩ : x = 46 ∧ y = 46 := by simpa [bytes] using dots
    refine ⟨a, b, mem, ?_⟩
    by_contra literal
    obtain ⟨rfl, rfl⟩ : a = false ∧ b = false := by simpa using literal
    exact guarded (infix_of_literal_dots decoded (((splitOnP_parts _ _).2 _ mem).trans within))
  · rintro ⟨a, b, mem, -⟩
    exact ⟨_, mem, rfl⟩

/-! ## The root -/

def RootStatement (block : NginxConfig) (root : Bytes) : Prop :=
  ∃ statement ∈ block.statements, statement.tokens = [bytes "root", root]

section Init
open StaticFileHandler

theorem initLoop_rooted {statements : List NginxConfigStatement} {baseDir result : Bytes} {n : Nat}
    (h : initLoop statements baseDir (n + 1) = some (.ok, result)) :
    result = baseDir ∧ ∀ root, ¬ RootStatement ⟨statements⟩ root := by
  induction statements with
  | nil =>
      cases h
      exact ⟨rfl, by simp [RootStatement]⟩
  | cons statement statements ih =>
      rw [initLoop] at h
      split at h
      · cases h
      · rename_i startToken arguments tokens
        split at h
        · simp at h
        · rename_i other
          obtain ⟨same, later⟩ := ih h
          refine ⟨same, fun root => ?_⟩
          rintro ⟨found, mem, names⟩
          rcases List.mem_cons.mp mem with rfl | mem
          · rw [tokens] at names
            exact other (List.cons.inj names).1
          · exact later root ⟨found, mem, names⟩

theorem initLoop_ok {statements : List NginxConfigStatement} {result : Bytes}
    (h : initLoop statements [] 0 = some (.ok, result)) :
    (result = [] ∧ ∀ root, ¬ RootStatement ⟨statements⟩ root) ∨
      (result ≠ [] ∧ ∀ root, RootStatement ⟨statements⟩ root ↔ root = result) := by
  induction statements with
  | nil =>
      cases h
      exact .inl ⟨rfl, by simp [RootStatement]⟩
  | cons statement statements ih =>
      rw [initLoop] at h
      split at h
      · cases h
      · rename_i startToken arguments tokens
        split at h
        · rename_i root
          simp only [gt_iff_lt, lt_irrefl, false_or] at h
          split at h
          · cases h
          · rename_i two
            obtain ⟨named, rfl⟩ : ∃ named, arguments = [named] := by
              apply List.length_eq_one_iff.mp
              simpa [tokens] using two
            simp only [List.head?_cons, Option.bind_some, List.headD_cons] at h
            split at h
            · cases h
            · rename_i back last
              split at h
              · cases h
              · rename_i noSlash
                have no_root : named ≠ bytes "/" := by
                  rintro rfl
                  exact noSlash (by simpa [bytes, eq_comm] using last)
                simp only [no_root, if_false] at h
                obtain ⟨rfl, later⟩ := initLoop_rooted h
                have nonempty : result ≠ [] := by
                  rintro rfl
                  cases last
                refine .inr ⟨nonempty, fun other => ?_⟩
                have first_only : RootStatement ⟨statement :: statements⟩ other ↔
                    statement.tokens = [bytes "root", other] := by
                  have absent := later other
                  simp only [RootStatement, List.mem_cons, exists_eq_or_imp] at absent ⊢
                  exact or_iff_left absent
                rw [first_only, tokens, root]
                simp [eq_comm]
        · rename_i other
          have skip root : RootStatement ⟨statement :: statements⟩ root ↔
              RootStatement ⟨statements⟩ root := by
            have not_root : statement.tokens ≠ [bytes "root", root] := fun names =>
              other (List.cons.inj (tokens.symm.trans names)).1
            simp [RootStatement, not_root]
          simpa only [skip] using ih h

end Init

theorem cStr_slash (s : Bytes) : cStr (47 :: s) = 47 :: cStr s := rfl

def Contained (block : NginxConfig) (path : Bytes) : Prop :=
  ∃ root rest, RootStatement block root ∧ root ≠ [] ∧ path = root ++ 47 :: rest ∧
    ¬ HasParentSegment rest

/-! ## The opened file -/

def MayOpen (handler : StaticFileHandler) (request : Request) (path : Bytes) : Prop :=
  ∃ fs markdown response s,
    ((handler.handleRequest fs markdown request).run { response }).state? = some s ∧
      path ∈ s.opened

theorem mayOpen_iff {handler : StaticFileHandler} {request : Request} {path : Bytes} :
    MayOpen handler request path ↔ ∃ decoded full, Request.uriDecode request.uri = some decoded ∧
      handler.filePath decoded = some full ∧ path = cStr full := by
  constructor
  · rintro ⟨fs, markdown, response, s, ran, mem⟩
    rw [StaticFileHandler.handleRequest] at ran
    cases decodes : Request.uriDecode request.uri with
    | none =>
        rw [decodes] at ran
        obtain rfl := Option.some.inj ran
        simp at mem
    | some decoded =>
        simp only [decodes] at ran
        cases built : handler.filePath decoded with
        | none =>
            rw [built] at ran
            obtain rfl := Option.some.inj ran
            simp at mem
        | some full =>
            refine ⟨decoded, full, rfl, built, ?_⟩
            simp only [built, Proc.ofOption_some, Proc.pure_bind] at ran
            cases regular : fs.isRegularFile (cStr full) with
            | none =>
                rw [regular] at ran
                obtain rfl := Option.some.inj ran
                simp at mem
            | some isRegular =>
                simp only [regular, Proc.ofOption_some, Proc.pure_bind] at ran
                cases isRegular with
                | false =>
                    obtain rfl := Option.some.inj ran
                    simp at mem
                | true =>
                    have opens : s.opened = [cStr full] := by
                      rw [Bool.not_true, if_neg Bool.false_ne_true,
                        StaticFileHandler.run_openFile_bind] at ran
                      cases contents : fs.contents (cStr full) <;>
                        · rw [contents] at ran
                          obtain rfl := Option.some.inj ran
                          rfl
                    rw [opens] at mem
                    exact List.mem_singleton.mp mem
  · rintro ⟨decoded, full, decodes, built, rfl⟩
    refine ⟨⟨fun _ => some true, fun _ => none⟩, id, {},
      { response := Response.setStatus {} .notFound, opened := [cStr full] }, ?_, by simp⟩
    simp [StaticFileHandler.handleRequest, decodes, built, Outcome.state?]

theorem filePath_eq {handler : StaticFileHandler} {decoded full : Bytes}
    (built : handler.filePath decoded = some full) :
    handler.uriPrefix.length ≤ decoded.length ∧
      ∃ name, full = handler.baseDir ++ 47 :: (decoded.drop handler.uriPrefix.length ++ name) ∧
        (HasParentSegment (cStr (decoded.drop handler.uriPrefix.length ++ name)) ↔
          HasParentSegment (cStr (decoded.drop handler.uriPrefix.length))) := by
  obtain ⟨rest, cut, path⟩ := Option.map_eq_some_iff.mp built
  unfold substrFrom at cut
  split at cut
  · rename_i le
    obtain rfl := Option.some.inj cut
    refine ⟨le, ?_⟩
    have joined : handler.baseDir ++ bytes "/" ++ decoded.drop handler.uriPrefix.length =
        handler.baseDir ++ 47 :: decoded.drop handler.uriPrefix.length := by
      simp [bytes]
    simp only [joined] at path
    split at path
    · rename_i slash
      refine ⟨bytes "index.html", by simpa using path.symm, ?_⟩
      by_cases nul : 0 ∈ decoded.drop handler.uriPrefix.length
      · rw [cStr_append_of_mem nul]
      · rw [cStr_append nul, cStr_eq_self nul]
        apply hasParentSegment_append _ (by decide) (by decide)
        cases rest : decoded.drop handler.uriPrefix.length with
        | nil => exact .inl rfl
        | cons c rest' => simpa [rest] using slash
    · exact ⟨[], by simpa using path.symm, by simp⟩
  · cases cut

/-! ## Containment -/

/-- A byte string is accepted as a request and routed to a handler that was initialised. -/
structure Served {ω : Type} (handlers : Handlers ω) (uriPrefix : Bytes) (block : NginxConfig)
    (handler : StaticFileHandler) (raw : Bytes) (request : Request) : Prop where
  init : StaticFileHandler.init uriPrefix block = some (.ok, handler)
  parse : Request.parse raw = some request
  routed : selectPrefix handlers request = some uriPrefix
  uriPrefix_ne_nil : uriPrefix ≠ []

/-- If the URI decodes to at least as many bytes as the prefix has, the block names a root without
a NUL, and after the prefix and up to a NUL no escape stands for a dot of a segment `..`. -/
def StaysBelow (uriPrefix : Bytes) (block : NginxConfig) (uri : Bytes) : Prop :=
  ∀ units, decodeUnits uri = some units → uriPrefix.length ≤ units.length →
    (∃ root, RootStatement block root ∧ 0 ∉ root) ∧
      ¬ HasEscapedParentSegment ((units.drop uriPrefix.length).takeWhile fun u => u.1 != 0)

theorem hasParentSegment_cut {uri : Bytes} {units : List (UInt8 × Bool)}
    (decoded : decodeUnits uri = some units) (guarded : ¬ bytes ".." <:+: uri) (n : Nat) :
    HasParentSegment (cStr ((units.map Prod.fst).drop n)) ↔
      HasEscapedParentSegment ((units.drop n).takeWhile fun u => u.1 != 0) := by
  have cut : cStr ((units.map Prod.fst).drop n) =
      ((units.drop n).takeWhile fun u => u.1 != 0).map Prod.fst := by
    rw [cStr, ← List.map_drop, List.takeWhile_map]
    rfl
  rw [cut]
  apply hasParentSegment_units decoded guarded
  exact (List.takeWhile_prefix _).isInfix.trans (List.drop_suffix n units).isInfix

theorem contained_iff {ω : Type} {handlers : Handlers ω} {uriPrefix : Bytes} {block : NginxConfig}
    {handler : StaticFileHandler} {raw : Bytes} {request : Request}
    (served : Served handlers uriPrefix block handler raw request) :
    (∀ path, MayOpen handler request path → Contained block path) ↔
      StaysBelow uriPrefix block request.uri := by
  obtain ⟨⟨status, baseDir⟩, loop, same⟩ := Option.map_eq_some_iff.mp served.init
  simp only [Prod.mk.injEq] at same
  obtain ⟨rfl, rfl⟩ := same
  have guarded := (parse_image served.parse).uri_no_dots
  have roots := initLoop_ok loop
  constructor
  · intro contained units decoded le
    have decodes : Request.uriDecode request.uri = some (units.map Prod.fst) := by
      rw [uriDecode_eq_decodeUnits, decoded, Option.map_some]
    obtain ⟨full, built⟩ : ∃ full,
        StaticFileHandler.filePath ⟨uriPrefix, baseDir⟩ (units.map Prod.fst) = some full := by
      rw [StaticFileHandler.filePath, substrFrom, if_pos (by simpa using le)]
      exact ⟨_, rfl⟩
    obtain ⟨root, rest, named, -, path, noParent⟩ :=
      contained _ (mayOpen_iff.mpr ⟨_, full, decodes, built, rfl⟩)
    obtain ⟨-, name, rfl, segments⟩ := filePath_eq built
    obtain rfl : root = baseDir := by
      rcases roots with ⟨-, unnamed⟩ | ⟨-, only⟩
      · exact absurd named (unnamed root)
      · exact (only root).mp named
    have noNul : 0 ∉ root := fun nul =>
      zero_notMem_cStr _ (path ▸ List.mem_append_left (47 :: rest) nul)
    refine ⟨⟨root, named, noNul⟩, ?_⟩
    rw [cStr_append noNul, List.append_cancel_left_eq, cStr_slash, List.cons.injEq] at path
    rwa [← hasParentSegment_cut decoded guarded, ← segments, path.2]
  · intro below path opens
    obtain ⟨decoded, full, decodes, built, rfl⟩ := mayOpen_iff.mp opens
    obtain ⟨le, name, rfl, segments⟩ := filePath_eq built
    rw [uriDecode_eq_decodeUnits] at decodes
    obtain ⟨units, decoded, rfl⟩ := Option.map_eq_some_iff.mp decodes
    obtain ⟨⟨root, named, noNul⟩, unescaped⟩ := below units decoded (by simpa using le)
    obtain ⟨nonempty, rfl⟩ : baseDir ≠ [] ∧ root = baseDir := by
      rcases roots with ⟨-, unnamed⟩ | ⟨nonempty, only⟩
      · exact absurd named (unnamed root)
      · exact ⟨nonempty, (only root).mp named⟩
    refine ⟨root, _, named, nonempty, by rw [cStr_append noNul, cStr_slash], ?_⟩
    rwa [segments, hasParentSegment_cut decoded guarded]

/-! ## A plain file name, and an escaped one -/

def staticHandlers : Handlers Unit where
  find key :=
    if key = bytes "ErrorHandler" ∨ key = bytes "/static" then
      some fun _ response globals => (.ok, response, globals)
    else none
  errorHandler := fun _ response globals => (.ok, response, globals)
  find_errorHandler := by simp

def serveBlock : NginxConfig := ⟨[.mk [bytes "root", bytes "/srv"] none]⟩

def getStatic (uri : Bytes) : Request where
  rawRequest := bytes "GET " ++ uri ++ bytes " HTTP/1.1\r\nHost: a\r\n\r\n"
  method := bytes "GET"
  uri := uri
  version := bytes "HTTP/1.1"
  headers := [(bytes "Host", bytes "a")]

theorem contained_plain_name : Contained serveBlock (bytes "/srv//a.html") := by
  have served : Served staticHandlers (bytes "/static") serveBlock ⟨bytes "/static", bytes "/srv"⟩
      (getStatic (bytes "/static/a.html")).rawRequest (getStatic (bytes "/static/a.html")) :=
    ⟨by decide, by decide, by decide, by decide⟩
  refine (contained_iff served).mpr ?_ _ (mayOpen_iff.mpr ⟨bytes "/static/a.html",
    bytes "/srv//a.html", by decide +kernel, by decide, by decide⟩)
  intro units decoded _
  obtain rfl : (bytes "/static/a.html").map (·, false) = units :=
    Option.some.inj (Eq.trans (by decide +kernel) decoded)
  refine ⟨⟨bytes "/srv", ⟨_, List.mem_singleton_self _, rfl⟩, by decide⟩, ?_⟩
  rintro ⟨a, b, mem, -⟩
  revert a b
  decide

theorem escaped_dots_not_contained :
    ¬ ∀ (uriPrefix : Bytes) (block : NginxConfig) (handler : StaticFileHandler) (raw : Bytes)
      (request : Request), Served staticHandlers uriPrefix block handler raw request →
      ∀ path, MayOpen handler request path → Contained block path := by
  intro claim
  obtain ⟨root, rest, ⟨statement, mem, named⟩, -, path, noParent⟩ :=
    claim (bytes "/static") serveBlock ⟨bytes "/static", bytes "/srv"⟩
      (getStatic (bytes "/static/%2e%2e/etc")).rawRequest (getStatic (bytes "/static/%2e%2e/etc"))
      ⟨by decide, by decide, by decide, by decide⟩ (bytes "/srv//../etc")
      (mayOpen_iff.mpr ⟨bytes "/static/../etc", bytes "/srv//../etc",
        by decide +kernel, by decide, by decide⟩)
  obtain rfl := List.mem_singleton.mp mem
  obtain rfl : bytes "/srv" = root := by simpa [NginxConfigStatement.tokens] using named
  obtain rfl : bytes "/../etc" = rest := by simpa [bytes] using path
  exact noParent (by rw [HasParentSegment]; decide)

end TscServer.Proof
