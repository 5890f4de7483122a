import TscServer.Spec.Routing
import TscServer.Proof.ConnectionSafety

/-!
# Routing to the longest prefix

The loop of `ProcessRequest` visits the URI and then, from the longest to the shortest, everything
before a slash of it. `processRequest_routes` says which handler is called.
-/

namespace TscServer.Proof
open Lib Model Spec Connection

/-! ## Boundaries -/

theorem isPrefix_of_atBoundary {key uri : Bytes} (boundary : AtBoundary key uri) : key <+: uri := by
  rcases boundary with rfl | slash
  · exact List.prefix_rfl
  · exact (List.prefix_append key [47]).trans slash

theorem atBoundary_unique {first second uri : Bytes} (h : AtBoundary first uri)
    (h' : AtBoundary second uri) (same : first.length = second.length) : first = second :=
  (List.prefix_of_prefix_length_le (isPrefix_of_atBoundary h)
    (isPrefix_of_atBoundary h') same.le).eq_of_length same

theorem head_of_atBoundary {key uri : Bytes} (boundary : AtBoundary key uri) (nonempty : key ≠ [])
    (slash : uri.head? = some 47) : key.head? = some 47 := by
  obtain ⟨rest, rfl⟩ := isPrefix_of_atBoundary boundary
  rwa [List.head?_append_of_ne_nil key nonempty] at slash

theorem atBoundary_cut {front back : Bytes} (last : 47 ∉ back) (key : Bytes) :
    AtBoundary key (front ++ 47 :: back) ↔ key = front ++ 47 :: back ∨ AtBoundary key front := by
  apply or_congr_right
  constructor
  · intro ⟨rest, split⟩
    rw [List.append_assoc, List.singleton_append] at split
    rcases List.append_eq_append_iff.mp split with ⟨middle, rfl, tail⟩ | ⟨middle, rfl, tail⟩
    · cases middle with
      | nil => exact .inl (List.append_nil key).symm
      | cons c middle =>
          obtain ⟨rfl, -⟩ := List.cons.inj tail
          exact .inr ⟨middle, by simp⟩
    · cases middle with
      | nil => exact .inl (List.append_nil front)
      | cons c middle =>
          obtain ⟨-, rfl⟩ := List.cons.inj tail
          exact absurd (by simp) last
  · intro boundary
    rcases boundary with rfl | slash
    · exact ⟨back, by simp⟩
    · exact slash.trans (List.prefix_append front _)

/-! ## The loop -/

section Loop
variable {ω : Type} {handlers : Handlers ω}

theorem longestMatch_unique {uri first second : Bytes} (h : LongestMatch handlers uri first)
    (h' : LongestMatch handlers uri second) : first = second :=
  atBoundary_unique h.atBoundary h'.atBoundary
    (Nat.le_antisymm (h'.longest first h.isKey h.atBoundary) (h.longest second h'.isKey h'.atBoundary))

theorem longestMatch_self {uri : Bytes} (key : (handlers.find uri).isSome) :
    LongestMatch handlers uri uri where
  isKey := key
  atBoundary := .inl rfl
  longest := fun _ _ boundary => (isPrefix_of_atBoundary boundary).length_le

variable {front back : Bytes} (last : 47 ∉ back)
  (notKey : ¬ (handlers.find (front ++ 47 :: back)).isSome)
include last notKey

theorem longestMatch_cut {key : Bytes} (longest : LongestMatch handlers front key) :
    LongestMatch handlers (front ++ 47 :: back) key where
  isKey := longest.isKey
  atBoundary := (atBoundary_cut last key).mpr (.inr longest.atBoundary)
  longest := by
    intro other isKey boundary
    rcases (atBoundary_cut last other).mp boundary with rfl | boundary
    · exact absurd isKey notKey
    · exact longest.longest other isKey boundary

theorem noMatch_cut (none : ∀ key, key ≠ [] → (handlers.find key).isSome → ¬ AtBoundary key front) :
    ∀ key, key ≠ [] → (handlers.find key).isSome → ¬ AtBoundary key (front ++ 47 :: back) := by
  intro key solid isKey boundary
  rcases (atBoundary_cut last key).mp boundary with rfl | boundary
  · exact notKey isKey
  · exact none key solid isKey boundary

omit last notKey

theorem atBoundary_of_longestPrefix {fuel : Nat} {uri key : Bytes}
    (found : longestPrefix handlers fuel uri = some key) : key = [] ∨ AtBoundary key uri := by
  induction fuel generalizing uri with
  | zero => cases found
  | succ fuel ih =>
      rw [longestPrefix] at found
      split at found
      · exact .inl (Option.some.inj found).symm
      · split at found
        · exact .inr (.inl (Option.some.inj found).symm)
        · cases cut : findLast 47 uri with
          | none =>
              rw [cut] at found
              exact ih found
          | some pos =>
              rw [cut] at found
              obtain ⟨front, back, rfl, rfl, last⟩ := findLast_split cut
              simp only [List.take_left] at found
              exact (ih found).imp_right fun boundary => (atBoundary_cut last key).mpr (.inr boundary)

/-- However much more fuel there is, the loop ends with the longest key, or with nothing. -/
theorem longestPrefix_spec (handlers : Handlers ω) {uri : Bytes} (rooted : Rooted uri) {fuel : Nat}
    (enough : uri.length < fuel) :
    (∃ key, key ≠ [] ∧ LongestMatch handlers uri key ∧ longestPrefix handlers fuel uri = some key) ∨
      ((∀ key, key ≠ [] → (handlers.find key).isSome → ¬ AtBoundary key uri) ∧
        longestPrefix handlers fuel uri = some []) := by
  induction fuel generalizing uri with
  | zero => omega
  | succ fuel ih =>
      rw [longestPrefix]
      by_cases empty : uri = []
      · subst empty
        refine .inr ⟨fun key solid _ boundary => solid ?_, if_pos rfl⟩
        exact List.prefix_nil.mp (isPrefix_of_atBoundary boundary)
      · by_cases isKey : (handlers.find uri).isSome
        · exact .inl ⟨uri, empty, longestMatch_self isKey, by rw [if_neg empty, if_pos isKey]⟩
        · rw [if_neg empty, if_neg isKey]
          cases cut : findLast 47 uri with
          | none =>
              rcases rooted with rfl | slash
              · exact absurd rfl empty
              · exact absurd (List.mem_of_head? slash) (findLast_eq_none_iff.mp cut)
          | some pos =>
              obtain ⟨front, back, rfl, rfl, last⟩ := findLast_split cut
              have short : front.length < fuel := by simp at enough; omega
              have root : Rooted front := by simpa using rooted_take rooted front.length
              simp only [List.take_left]
              rcases ih root short with ⟨key, solid, longest, found⟩ | ⟨none, found⟩
              · exact .inl ⟨key, solid, longestMatch_cut last isKey longest, found⟩
              · exact .inr ⟨noMatch_cut last isKey none, found⟩

/-! ## The route -/

theorem route_unique {request : Request} {first second : Option Bytes}
    (h : Route handlers request first) (h' : Route handlers request second) : first = second := by
  cases h with
  | longest longest =>
      cases h' with
      | longest other => rw [longestMatch_unique longest other]
      | followed none => exact absurd longest.atBoundary (none _ longest.isKey)
      | refused none => exact absurd longest.atBoundary (none _ longest.isKey)
  | followed none root follows =>
      cases h' with
      | longest other => exact absurd other.atBoundary (none _ other.isKey)
      | followed => rfl
      | refused _ unfollowed => exact absurd ⟨root, follows⟩ unfollowed
  | refused none unfollowed =>
      cases h' with
      | longest other => exact absurd other.atBoundary (none _ other.isKey)
      | followed _ root follows => exact absurd ⟨root, follows⟩ unfollowed
      | refused => rfl

theorem rooted_of_route {request : Request} (nonempty : handlers.find [] = none)
    (slash : request.uri.head? = some 47) {key : Bytes} (route : Route handlers request (some key)) :
    (handlers.find key).isSome ∧ key.head? = some 47 := by
  cases route with
  | longest longest =>
      have solid : key ≠ [] := by
        intro empty
        have isKey := longest.isKey
        rw [empty, nonempty] at isKey
        cases isKey
      exact ⟨longest.isKey, head_of_atBoundary longest.atBoundary solid slash⟩
  | followed _ root _ => exact ⟨root, rfl⟩

theorem selectPrefix_route (nonempty : handlers.find [] = none) {request : Request}
    (slash : request.uri.head? = some 47) :
    ∃ route, Route handlers request route ∧
      selectPrefix handlers request = some (route.getD []) := by
  rw [selectPrefix]
  rcases longestPrefix_spec _ (.inr slash) (Nat.lt_succ_self _) with
    ⟨key, solid, longest, found⟩ | ⟨unmatched, found⟩
  · exact ⟨some key, .longest longest, by rw [found, Option.map_some, if_neg solid]; rfl⟩
  · have none : NoMatch handlers request.uri := by
      intro key isKey
      refine unmatched key (fun empty => ?_) isKey
      rw [empty, nonempty] at isKey
      cases isKey
    rw [found, Option.map_some, if_pos rfl]
    by_cases follows : (handlers.find (bytes "/")).isSome ∧ FollowsHost request
    · refine ⟨some (bytes "/"), .followed none follows.1 follows.2, ?_⟩
      rw [if_pos ⟨follows.2.1, contains_iff.mpr follows.2.2, follows.1⟩]
      rfl
    · refine ⟨Option.none, .refused none follows, ?_⟩
      rw [if_neg fun held => follows ⟨held.2.2, held.1, contains_iff.mp held.2.1⟩]
      rfl

theorem processRequest_routes (nonempty : handlers.find [] = none) {request : Request}
    (slash : request.uri.head? = some 47) (c : Connection ω) :
    ∃ route, (∀ other, Route handlers request other ↔ other = route) ∧
      route ≠ some (bytes "ErrorHandler") ∧
      (route = none → (processRequest handlers request).run c = .done false
        { c with
          processed := c.processed ++ [request]
          response := c.response.setStatus .badRequest }) ∧
      ∀ key, route = some key → ∃ handler, handlers.find key = some handler ∧
        (processRequest handlers request).run c =
          .done ((handler request c.response c.globals).1 == .ok)
            { c with
              processed := c.processed ++ [request]
              response := (handler request c.response c.globals).2.1
              globals := (handler request c.response c.globals).2.2 } := by
  obtain ⟨route, goes, selected⟩ := selectPrefix_route nonempty slash
  refine ⟨route, fun other => ⟨fun h => route_unique h goes, fun same => same ▸ goes⟩, ?_, ?_, ?_⟩
  · intro isError
    subst isError
    exact absurd (rooted_of_route nonempty slash goes).2 (by decide)
  · intro refused
    subst refused
    exact run_processRequest_unrouted (by rw [routed, selected]; rfl) c
  · intro key reached
    subst reached
    obtain ⟨isKey, head⟩ := rooted_of_route nonempty slash goes
    obtain ⟨handler, found⟩ := Option.isSome_iff_exists.mp isKey
    have solid : key ≠ [] := by
      intro empty
      rw [empty] at head
      cases head
    refine ⟨handler, found, run_processRequest_handled ?_ c⟩
    rw [routed, selected, Option.map_some, Option.getD_some, if_neg solid, found]

end Loop

def keyedHandlers (keys : List Bytes) : Handlers Unit where
  find key :=
    if key = bytes "ErrorHandler" then some fun _ response globals => (.ok, response, globals)
    else if keys.contains key then some fun _ response globals => (.ok, response.setStatus .ok, globals)
    else none
  errorHandler := fun _ response globals => (.ok, response, globals)
  find_errorHandler := if_pos rfl

-- two of the keys of the unit test
def nestedHandlers : Handlers Unit := keyedHandlers [bytes "/handler", bytes "/handler/foo/bar"]

theorem route_nested : Route nestedHandlers { uri := bytes "/handler/foo" } (some (bytes "/handler")) := by
  refine .longest ⟨by decide, .inr (by decide), fun other isKey boundary => ?_⟩
  have keys : other ∈ [bytes "ErrorHandler", bytes "/handler", bytes "/handler/foo/bar"] := by
    by_contra none_
    have notError : other ≠ bytes "ErrorHandler" := fun same => none_ (List.mem_cons.mpr (.inl same))
    have notKey : other ∉ [bytes "/handler", bytes "/handler/foo/bar"] :=
      fun mem => none_ (List.mem_cons_of_mem _ mem)
    have missing : nestedHandlers.find other = none := by
      show (if other = bytes "ErrorHandler" then _ else if _ then _ else none) = none
      rw [if_neg notError, if_neg (mt List.contains_iff_mem.mp notKey)]
    rw [missing] at isKey
    cases isKey
  have short := (isPrefix_of_atBoundary boundary).length_le
  simp only [List.mem_cons, List.not_mem_nil, or_false] at keys
  rcases keys with rfl | rfl | rfl
  · exact absurd (isPrefix_of_atBoundary boundary) (by decide)
  · exact le_rfl
  · exact absurd short (by decide)

theorem processRequest_routes_nested : ∃ handler, nestedHandlers.find (bytes "/handler") = some handler ∧
    (∀ other, Route nestedHandlers { uri := bytes "/handler/foo" } other ↔ other = some (bytes "/handler")) ∧
    (processRequest nestedHandlers { uri := bytes "/handler/foo" }).run { globals := { world := () } } =
      .done ((handler { uri := bytes "/handler/foo" } {} { world := () }).1 == .ok)
        { processed := [{ uri := bytes "/handler/foo" }]
          response := (handler { uri := bytes "/handler/foo" } {} { world := () }).2.1
          globals := (handler { uri := bytes "/handler/foo" } {} { world := () }).2.2 } := by
  have nonempty : nestedHandlers.find [] = none := by decide
  let request : Request := { uri := bytes "/handler/foo" }
  have slash : request.uri.head? = some 47 := rfl
  obtain ⟨route, goes, -, -, called⟩ :=
    processRequest_routes nonempty slash { globals := { world := () } }
  have selected : route = some (bytes "/handler") := ((goes _).mp route_nested).symm
  obtain ⟨handler, found, ran⟩ := called _ selected
  exact ⟨handler, found, selected ▸ goes, ran⟩

end TscServer.Proof
