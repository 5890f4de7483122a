import TscServer.Lib.ExceptFold
import TscServer.Model.ConfigHandler
import TscServer.Proof.Routing
import TscServer.Proof.UriDecoding
import TscServer.Spec.StaticPaths

/-!
# Prefixes of encoded URIs

Routing compares a prefix with the URI as it was sent, and the static file handler cuts as many bytes
off the decoded URI. `findsFile_iff` says for which prefixes that is the same.
-/

namespace TscServer.Proof
open Lib Model Spec Connection

/-! ## Decoding and cutting -/

theorem uriDecode_append {front : Bytes} (plain : 37 ∉ front) (rest : Bytes) :
    Request.uriDecode (front ++ rest) =
      (Request.uriDecode rest).map (front.map (fun c => (PercentUnit.literal c).byte) ++ ·) := by
  induction front with
  | nil => simp
  | cons c front ih =>
      have other : c ≠ 37 := fun same => plain (by simp [same])
      rw [List.cons_append, uriDecode_literal other, ih fun mem => plain (by simp [mem]), Option.map_map]
      rfl

theorem extractHex_slash (b : UInt8) : Request.extractHex 47 b = none := by
  simp [Request.extractHex, show isSpace 47 = false by decide,
    show hexDigit 47 = none by decide]

/-- An escape in a prefix that ends at a segment boundary shortens what the URI decodes to. -/
theorem uriDecode_shorter {front rest decoded : Bytes} (boundary : Rooted rest)
    (read : Request.uriDecode (front ++ rest) = some decoded) :
    ∃ after, Request.uriDecode rest = some after ∧ decoded.drop front.length <:+ after ∧
      decoded.length ≤ front.length + after.length ∧
      (37 ∈ front → decoded.length < front.length + after.length) := by
  induction front using percentUnits.induct generalizing decoded with
  | case1 => exact ⟨decoded, read, by simp, by simp, by simp⟩
  | case2 a b s ih =>
      rw [List.cons_append, List.cons_append, List.cons_append, uriDecode_escape] at read
      obtain ⟨value, -, read⟩ := Option.bind_eq_some_iff.mp read
      obtain ⟨tail, later, rfl⟩ := Option.map_eq_some_iff.mp read
      obtain ⟨after, decodes, suffix, le, -⟩ := ih later
      refine ⟨after, decodes, ?_, ?_, fun _ => ?_⟩
      · rw [List.length_cons, List.length_cons, List.length_cons, List.drop_succ_cons, ← List.drop_drop]
        exact (List.drop_suffix 2 _).trans suffix
      all_goals
        simp only [List.length_cons]
        omega
  | case3 s short =>
      -- the escape goes on after the prefix, where there is nothing or a slash
      rcases boundary with rfl | slash
      · rw [List.append_nil, uriDecode_cut short] at read
        cases read
      · obtain ⟨r, rfl⟩ := List.head?_eq_some_iff.mp slash
        cases s with
        | nil =>
            cases r with
            | nil => cases read
            | cons x r =>
                rw [List.cons_append, List.nil_append, uriDecode_escape, extractHex_slash] at read
                cases read
        | cons a s =>
            cases s with
            | cons b s => exact absurd rfl (short a b s)
            | nil =>
                rw [List.cons_append, List.cons_append, List.nil_append, uriDecode_escape] at read
                obtain ⟨value, -, read⟩ := Option.bind_eq_some_iff.mp read
                obtain ⟨tail, later, rfl⟩ := Option.map_eq_some_iff.mp read
                refine ⟨_, by rw [uriDecode_literal (by decide), later]; rfl, ?_, ?_, fun _ => ?_⟩
                · exact (List.drop_suffix 1 tail).trans (List.suffix_cons _ tail)
                all_goals
                  simp only [List.length_cons, List.length_nil]
                  omega
  | case4 c s literal ih =>
      rw [List.cons_append, uriDecode_literal literal] at read
      obtain ⟨tail, later, rfl⟩ := Option.map_eq_some_iff.mp read
      obtain ⟨after, decodes, suffix, le, lt⟩ := ih later
      refine ⟨after, decodes, suffix, ?_, fun mem => ?_⟩
      · simp only [List.length_cons]
        omega
      · have fewer := lt (by simpa [Ne.symm literal] using mem)
        simp only [List.length_cons]
        omega

theorem rooted_uriDecode {rest after : Bytes} (boundary : Rooted rest)
    (read : Request.uriDecode rest = some after) : Rooted after := by
  rcases boundary with rfl | slash
  · exact .inl (Option.some.inj read).symm
  · obtain ⟨r, rfl⟩ := List.head?_eq_some_iff.mp slash
    rw [uriDecode_literal (by decide)] at read
    obtain ⟨tail, -, rfl⟩ := Option.map_eq_some_iff.mp read
    exact .inr rfl

/-! ## The handler -/

/-- Paths below one directory differ when one rest is a proper part at the end of the other. -/
theorem withIndex_ne {dir short long : Bytes} (suffix : short <:+ long)
    (shorter : short.length < long.length) (rooted : Rooted long) :
    withIndex (dir ++ bytes "/" ++ short) ≠ withIndex (dir ++ bytes "/" ++ long) := by
  intro same
  have nonempty : long ≠ [] := by
    rintro rfl
    cases shorter
  have last : (dir ++ bytes "/" ++ long).getLast? = long.getLast? :=
    List.getLast?_append_of_ne_nil _ nonempty
  rw [withIndex, withIndex, last] at same
  by_cases empty : short = []
  · subst empty
    rw [if_pos (by simp [bytes]), List.append_nil] at same
    split at same
    · exact nonempty (List.self_eq_append_right.mp (List.append_cancel_right same))
    · obtain rfl := List.append_cancel_left same
      rcases rooted with none | slash
      · exact nonempty none
      · exact absurd slash (by decide)
  · have lastShort : (dir ++ bytes "/" ++ short).getLast? = long.getLast? := by
      obtain ⟨front, rfl⟩ := suffix
      rw [List.getLast?_append_of_ne_nil _ empty, List.getLast?_append_of_ne_nil _ empty]
    rw [lastShort] at same
    have equal : short = long := by
      split at same
      · exact List.append_cancel_left (List.append_cancel_right same)
      · exact List.append_cancel_left same
    rw [equal] at shorter
    exact lt_irrefl _ shorter

theorem findsFile_iff_filePath {handler : StaticFileHandler} {request : Request} {decoded : Bytes}
    (read : Request.uriDecode request.uri = some decoded) :
    FindsFile handler request ↔
      ∃ path, handler.filePath decoded = some path ∧ namedFile handler request.uri = some path := by
  constructor
  · intro finds
    cases looked : handler.filePath decoded with
    | none =>
        have throws := finds.returns ⟨fun _ => none, fun _ => none⟩ id { response := {} } { response := {} }
        simp only [StaticFileHandler.handleRequest, read, looked] at throws
        exact absurd rfl throws
    | some path => exact ⟨path, rfl, finds.path decoded path read looked⟩
  · intro found
    obtain ⟨path, looked, named⟩ := found
    constructor
    · intro fs markdown s s' threw
      have safe : Proc.wp (handler.handleRequest fs markdown request) (fun _ _ => True)
          (fun e _ => e ≠ .outOfRange) s := by
        rw [StaticFileHandler.handleRequest, read]
        simp only [looked, Proc.ofOption_some, Proc.pure_bind]
        cases fs.isRegularFile (cStr path) with
        | none => simp
        | some regular =>
            cases regular with
            | false => simp [StaticFileHandler.setStatus]
            | true =>
                simp only [Proc.ofOption_some, Proc.pure_bind, Bool.not_true, Bool.false_eq_true,
                  if_false, StaticFileHandler.openFile, Proc.wp_bind, Proc.wp_modify, Proc.wp_pure]
                cases fs.contents (cStr path) <;> simp [StaticFileHandler.setStatus]
      exact Proc.wp_threw safe threw rfl
    · intro decoded' path' read' looked'
      obtain rfl : decoded = decoded' := Option.some.inj (read.symm.trans read')
      rwa [← looked', looked]

variable {ω : Type} {handlers : Handlers ω}

theorem atBoundary_of_selected {request : Request} {key : Bytes} (slash : request.uri.head? = some 47)
    (nonempty : key ≠ []) (selected : selectPrefix handlers request = some key) :
    ∃ rest, request.uri = key ++ rest ∧ (37 ∈ key → Rooted rest) := by
  obtain ⟨longest, found, same⟩ := Option.map_eq_some_iff.mp selected
  by_cases empty : longest = []
  · -- without a longest prefix, only the root is selected
    rw [if_pos empty] at same
    dsimp only at same
    split at same
    · subst same
      obtain ⟨rest, split⟩ := List.head?_eq_some_iff.mp slash
      exact ⟨rest, split, fun mem => absurd mem (by decide)⟩
    · exact absurd same.symm nonempty
  · rw [if_neg empty] at same
    subst same
    rcases atBoundary_of_longestPrefix found with none | whole | cut
    · exact absurd none empty
    · exact ⟨[], by rw [whole, List.append_nil], fun _ => .inl rfl⟩
    · obtain ⟨rest, split⟩ := cut
      exact ⟨47 :: rest, by rw [← split, List.append_assoc]; rfl, fun _ => .inr rfl⟩

theorem nonempty_of_accepted {childBlock : Option (List NginxConfigStatement)}
    {before after : ConfigHandler} {path uriPrefix handlerName : Bytes}
    (accepted : ConfigHandler.handlePath [path, uriPrefix, handlerName] childBlock before = .ok after) :
    uriPrefix ≠ [] := by
  rintro rfl
  rw [ConfigHandler.handlePath] at accepted
  split at accepted <;> cases accepted

theorem findsFile_iff {childBlock : Option (List NginxConfigStatement)}
    {before after : ConfigHandler} {path uriPrefix handlerName : Bytes}
    (accepted : ConfigHandler.handlePath [path, uriPrefix, handlerName] childBlock before = .ok after)
    {handler : StaticFileHandler} (registered : handler.uriPrefix = uriPrefix) {request : Request}
    (slash : request.uri.head? = some 47)
    (routed : selectPrefix handlers request = some uriPrefix)
    (decodes : (Request.uriDecode request.uri).isSome) :
    FindsFile handler request ↔ 37 ∉ uriPrefix := by
  obtain ⟨rest, split, boundary⟩ :=
    atBoundary_of_selected slash (nonempty_of_accepted accepted) routed
  obtain ⟨decoded, read⟩ := Option.isSome_iff_exists.mp decodes
  have named : namedFile handler request.uri = (Request.uriDecode rest).map fun after =>
      withIndex (handler.baseDir ++ bytes "/" ++ after) := by
    rw [namedFile, registered, split, List.drop_left]
  rw [findsFile_iff_filePath read, named]
  rw [split] at read
  constructor
  · intro found escape
    obtain ⟨path, looked, same⟩ := found
    obtain ⟨after, decodesAfter, suffix, -, shorter⟩ := uriDecode_shorter (boundary escape) read
    rw [decodesAfter] at same
    obtain ⟨rest', cut, rfl⟩ := Option.map_eq_some_iff.mp looked
    rw [registered, substrFrom, Option.ite_none_right_eq_some] at cut
    obtain ⟨le, rfl⟩ := cut.imp_right Option.some.inj
    have fewer : (decoded.drop uriPrefix.length).length < after.length := by
      have lt := shorter escape
      rw [List.length_drop]
      omega
    exact withIndex_ne suffix fewer (rooted_uriDecode (boundary escape) decodesAfter)
      (Option.some.inj same).symm
  · intro plain
    rw [uriDecode_append plain] at read
    obtain ⟨after, decodesAfter, rfl⟩ := Option.map_eq_some_iff.mp read
    refine ⟨_, ?_, by rw [decodesAfter]; rfl⟩
    have drops : (uriPrefix.map (fun c => (PercentUnit.literal c).byte) ++ after).drop uriPrefix.length =
        after := List.drop_left' (List.length_map _)
    rw [StaticFileHandler.filePath, registered, substrFrom, if_pos (by simp), drops]
    rfl

/-! ## A prefix without escapes, and one with an escape -/

theorem findsFile_plain_prefix :
    FindsFile { uriPrefix := bytes "/A", baseDir := bytes "/srv" } { uri := bytes "/A/a%20b" } := by
  have isOk : (ConfigHandler.handlePath [bytes "path", bytes "/A", bytes "StaticHandler"] (some [])
    {}).isOk := by decide
  obtain ⟨after, accepted⟩ := except_isOk_iff.mp isOk
  have routed : selectPrefix (keyedHandlers [bytes "/A"]) { uri := bytes "/A/a%20b" } =
    some (bytes "/A") := by decide
  exact (findsFile_iff accepted rfl rfl routed (by decide +kernel)).mpr (by decide)

theorem escaped_prefix_throws :
    (ConfigHandler.handlePath [bytes "path", bytes "/%41", bytes "StaticHandler"] (some []) {}).isOk ∧
      selectPrefix (keyedHandlers [bytes "/%41"]) { uri := bytes "/%41" } = some (bytes "/%41") ∧
      Request.uriDecode (bytes "/%41") = some (bytes "/A") ∧
      ¬ FindsFile { uriPrefix := bytes "/%41", baseDir := bytes "/srv" } { uri := bytes "/%41" } := by
  refine ⟨by decide, by decide, by decide, fun finds => ?_⟩
  have decodes : Request.uriDecode (bytes "/%41") = some (bytes "/A") := by decide
  obtain ⟨path, looked, -⟩ := (findsFile_iff_filePath decodes).mp finds
  have throws : StaticFileHandler.filePath { uriPrefix := bytes "/%41", baseDir := bytes "/srv" }
    (bytes "/A") = none := by decide
  rw [throws] at looked
  cases looked

end TscServer.Proof
