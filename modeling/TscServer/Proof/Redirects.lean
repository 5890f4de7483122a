import TscServer.Proof.Transparency
import TscServer.Spec.Redirects

/-!
# Redirects

`ParseLocation` takes every URL for one of port 80 unless it names a port, and every text with `://` in
it for a URL.
-/

namespace TscServer.Proof
open Lib Model Spec ProxyHandler

/-! ## Absolute URLs -/

theorem find_scheme (scheme : UrlScheme) (rest : Bytes) :
    find (bytes "://") (scheme.toBytes ++ bytes "://" ++ rest) = some scheme.toBytes.length := by
  cases scheme <;> rfl

theorem find_colon {host : Bytes} (noColon : 58 ∉ host) (rest : Bytes) :
    find [58] (host ++ 58 :: rest) = some host.length := by
  refine find_eq_some_iff.mpr ⟨by simp, by simp, fun j before occurs => noColon ?_⟩
  rw [List.drop_append_of_le_length before.le] at occurs
  obtain ⟨c, tail, split⟩ : ∃ c tail, host.drop j = c :: tail :=
    List.exists_cons_of_ne_nil (by simpa using before)
  rw [split, List.cons_append, List.cons_prefix_cons] at occurs
  have mem : c ∈ host.drop j := by simp [split]
  exact occurs.1 ▸ List.mem_of_mem_drop mem

theorem find_colon_none {host : Bytes} (noColon : 58 ∉ host) : find [58] host = none := by
  rw [find_eq_none_iff, List.singleton_infix_iff]
  exact noColon

section Absolute
variable {url : AbsoluteUrl} (wf : url.WellFormed)
include wf

theorem authority_spans :
    let text := url.host ++ url.port.elim [] (58 :: ·)
    (text ++ url.path.getD []).takeWhile (· != 47) = text ∧
      (text ++ url.path.getD []).dropWhile (· != 47) = url.path.getD [] := by
  intro text
  have all : ∀ c ∈ text, (c != 47) = true := by
    intro c mem
    rcases List.mem_append.mp mem with mem | mem
    · simpa using (wf.host_bytes c mem).1
    · cases named : url.port with
      | none => simp [named] at mem
      | some port =>
          rw [named] at mem
          rcases List.mem_cons.mp mem with rfl | mem
          · decide
          · have digit := wf.port_digits port named c mem
            rw [bne_iff_ne]
            rintro rfl
            exact absurd digit (by decide)
  have stops : ∀ c ∈ (url.path.getD []).head?, (c != 47) = false := by
    intro c mem
    cases named : url.path with
    | none => simp [named] at mem
    | some path =>
        rw [named, Option.getD_some, wf.path_slash path named] at mem
        obtain rfl := Option.some.inj mem
        decide
  exact ⟨takeWhile_append_stop all stops, dropWhile_append_stop all stops⟩

-- what the code makes of a URL, whatever the scheme
theorem parseLocation_absolute (host port : Bytes) :
    parseLocation url.toBytes host port =
      (url.host ++ if url.port = some [] then [58] else [],
        (url.port.filter (· ≠ [])).getD (bytes "80"), url.targetPath) := by
  obtain ⟨front, back⟩ := authority_spans wf
  have noColon : 58 ∉ url.host := fun mem => (wf.host_bytes 58 mem).2 rfl
  have text : url.toBytes = url.scheme.toBytes ++ bytes "://" ++
      (url.host ++ url.port.elim [] (58 :: ·) ++ url.path.getD []) := by
    simp [AbsoluteUrl.toBytes]
  have rest : url.toBytes.drop (url.scheme.toBytes.length + 3) =
      url.host ++ url.port.elim [] (58 :: ·) ++ url.path.getD [] := by
    have length : url.scheme.toBytes.length + 3 = (url.scheme.toBytes ++ bytes "://").length := by
      rw [List.length_append]
      rfl
    rw [text, length, List.drop_left]
  have path : (if url.path.getD [] = [] then bytes "/" else url.path.getD []) = url.targetPath := by
    cases named : url.path with
    | none => simp [AbsoluteUrl.targetPath, named]
    | some path =>
        have nonempty : path ≠ [] := by
          rintro rfl
          cases wf.path_slash [] named
        simp [AbsoluteUrl.targetPath, named, nonempty]
  have found := find_scheme url.scheme
    (url.host ++ url.port.elim [] (58 :: ·) ++ url.path.getD [])
  rw [← text] at found
  simp only [parseLocation, found, rest, front, back, path]
  cases named : url.port with
  | none => simp [find_colon_none noColon]
  | some digits =>
      simp only [Option.elim_some, find_colon noColon]
      cases digits with
      | nil => simp [Option.filter_some]
      | cons c digits => simp [Option.filter_some]

theorem parseLocation_absolute_iff (host port : Bytes) :
    parseLocation url.toBytes host port = (url.host, url.targetPort, url.targetPath) ↔
      url.port ≠ some [] ∧ (url.port = none → url.scheme = .http) := by
  rw [parseLocation_absolute wf, Prod.mk.injEq, Prod.mk.injEq, AbsoluteUrl.targetPort]
  cases named : url.port with
  | none =>
      cases scheme : url.scheme with
      | http => simp [UrlScheme.defaultPort]
      | https => simp [UrlScheme.defaultPort, bytes]
  | some digits =>
      cases digits with
      | nil => simp
      | cons c digits => simp [Option.filter_some]

end Absolute

def plainUrl : AbsoluteUrl :=
  { scheme := .http, host := bytes "h", port := none, path := some (bytes "/a://b:c") }

theorem parseLocation_absolute_plain :
    parseLocation plainUrl.toBytes [] [] = (bytes "h", bytes "80", bytes "/a://b:c") := by
  have wf : plainUrl.WellFormed :=
    { host_ne_nil := by decide
      host_bytes := by decide +kernel
      port_digits := by simp [plainUrl]
      path_slash := by
        intro path named
        obtain rfl := Option.some.inj named
        rfl }
  exact (parseLocation_absolute_iff wf [] []).mpr ⟨by decide, fun _ => rfl⟩

theorem parseLocation_not_https : ¬ ∀ (url : AbsoluteUrl), url.WellFormed → ∀ host port : Bytes,
    parseLocation url.toBytes host port = (url.host, url.targetPort, url.targetPath) := by
  intro claim
  let url : AbsoluteUrl := { scheme := .https, host := bytes "h", port := none, path := none }
  have wf : url.WellFormed :=
    { host_ne_nil := by decide
      host_bytes := by decide +kernel
      port_digits := by simp [url]
      path_slash := by simp [url] }
  exact absurd (claim url wf [] []) (by decide)

/-! ## Relative references -/

theorem count_withSlash (location : Bytes) : (withSlash location).count 58 = location.count 58 := by
  rw [withSlash]
  split
  · rfl
  · exact List.count_cons_of_ne (by decide)

theorem count_path_lt {read : Bytes} (inside : bytes "://" <:+: read) (host port : Bytes) :
    (parseLocation read host port).2.2.count 58 < read.count 58 := by
  obtain ⟨i, found⟩ := Option.ne_none_iff_exists'.mp (mt find_eq_none_iff.mp (not_not.mpr inside))
  obtain ⟨rest, split⟩ := (find_eq_some_iff.mp found).1
  have cut : read.drop (i + 3) = rest := by
    rw [← List.drop_drop, ← split]
    rfl
  have more : rest.count 58 < read.count 58 := by
    have within := (List.drop_sublist i read).count_le 58
    rw [← split, List.count_append] at within
    have one : (bytes "://").count 58 = 1 := by decide
    omega
  have shorter := (List.dropWhile_suffix (· != 47) (l := rest)).sublist.count_le 58
  simp only [parseLocation, found, cut]
  split
  · exact Nat.lt_of_le_of_lt (Nat.zero_le _) more
  · exact lt_of_le_of_lt shorter more

theorem parseLocation_plain {read : Bytes} (plain : ¬ bytes "://" <:+: read) (host port : Bytes) :
    parseLocation read host port = (host, port, withSlash read) := by
  rw [parseLocation, find_eq_none_iff.mpr plain]
  rfl

/-! ## The line that is read -/

theorem dropReturn_ne_nil {line : Bytes} (some_ : line ≠ []) (solid : line ≠ [13]) : dropReturn line ≠ [] := by
  intro nothing
  rw [dropReturn] at nothing
  split at nothing
  · rename_i last
    have whole := List.dropLast_append_getLast? 13 last
    rw [nothing] at whole
    exact solid whole.symm
  · exact some_ nothing

section Named
variable {code : Nat} {line : Bytes} {entries : List (Bytes × Option Bytes)}

-- the lines stand before the blank one
theorem mem_fields_of_read (mem : line ∈ linesRead code entries) (solid : ∀ line ∈ linesRead code entries, line ≠ []) :
    dropReturn line ∈ (entries.map fun entry => dropReturn entry.1).takeWhile fun line => !line.isEmpty := by
  induction entries with
  | nil => cases mem
  | cons entry entries ih =>
      obtain ⟨head, after⟩ := entry
      rw [linesRead] at mem solid
      split at mem
      · cases mem
      · rename_i notBlank
        rw [if_neg notBlank] at solid
        have here : head ≠ [] := by
          split at solid
          · exact solid head List.mem_cons_self
          · exact solid head List.mem_cons_self
        have kept : (!(dropReturn head).isEmpty) = true := by
          simpa using dropReturn_ne_nil here notBlank
        rw [List.map_cons, List.takeWhile_cons_of_pos (p := fun line : Bytes => !line.isEmpty) kept]
        split at mem
        · obtain rfl := List.mem_singleton.mp mem
          exact List.mem_cons_self
        · rename_i other
          rw [if_neg other] at solid
          rcases List.mem_cons.mp mem with rfl | later
          · exact List.mem_cons_self
          · exact List.mem_cons_of_mem _ (ih later fun line later => solid line (List.mem_cons_of_mem _ later))

theorem locationRead_of_named (redirect : code = 302) (mem : line ∈ linesRead code entries)
    (named : headerName line.dropLast = bytes "Location") :
    locationRead code entries = headerValue line.dropLast := by
  induction entries with
  | nil => cases mem
  | cons entry entries ih =>
      obtain ⟨head, after⟩ := entry
      rw [linesRead] at mem
      rw [locationRead]
      split at mem
      · cases mem
      · rename_i notBlank
        rw [if_neg notBlank]
        split at mem
        · rename_i first
          obtain rfl := List.mem_singleton.mp mem
          rw [if_pos first]
        · rename_i other
          rw [if_neg other]
          rcases List.mem_cons.mp mem with rfl | later
          · exact absurd ⟨redirect, named⟩ other
          · exact ih later

theorem locationRead_of_unnamed
    (unnamed : ∀ line ∈ linesRead code entries, headerName line.dropLast ≠ bytes "Location") :
    locationRead code entries = none := by
  induction entries with
  | nil => rfl
  | cons entry entries ih =>
      obtain ⟨head, after⟩ := entry
      rw [linesRead] at unnamed
      rw [locationRead]
      split
      · rfl
      · rename_i notBlank
        rw [if_neg notBlank] at unnamed
        split
        · rename_i first
          rw [if_pos first] at unnamed
          exact absurd first.2 (unnamed head List.mem_cons_self)
        · rename_i other
          rw [if_neg other] at unnamed
          exact ih fun line later => unnamed line (List.mem_cons_of_mem _ later)

end Named

theorem exists_value_of_name {line read : Bytes} (some_ : line ≠ [])
    (named : headerName line.dropLast = bytes "Location")
    (value : headerValue line.dropLast = some read) (inside : bytes "://" <:+: read) :
    ∃ location, headerValue? (bytes "Location") (dropReturn line) = some location ∧
      read.count 58 ≤ location.count 58 := by
  rw [headerName] at named
  rw [headerValue, substrFrom, Option.ite_none_right_eq_some] at value
  obtain ⟨-, value⟩ := value
  obtain rfl := Option.some.inj value
  have whole := List.dropLast_append_getLast some_
  generalize line.dropLast = header at named inside whole ⊢
  cases found : find [58] header with
  | none =>
      rw [found, Option.getD_none, List.take_length] at named
      rw [found, named] at inside
      exact absurd inside (contains_eq_false_iff.mp (by decide))
  | some j =>
      obtain ⟨value, colon⟩ := (find_eq_some_iff.mp found).1
      rw [found, Option.getD_some] at named
      rw [found, offset_some, ← List.drop_drop, ← colon] at inside
      have text : header = bytes "Location" ++ 58 :: value := by
        rw [← List.take_append_drop j header, named, ← colon]
        rfl
      have fewer : ((58 :: value).drop 2).count 58 ≤ value.count 58 :=
        (List.drop_sublist 1 value).count_le 58
      rw [offset_some, ← List.drop_drop, ← colon, dropReturn]
      split
      · refine ⟨trimBlanks value, ?_, ?_⟩
        · rw [← whole, List.dropLast_concat, text, headerValue?_colon _ (by decide), if_pos rfl]
        · rwa [count_trimBlanks (by decide)]
      · refine ⟨trimBlanks (value ++ [line.getLast some_]), ?_, ?_⟩
        · conv_lhs => rw [← whole, text, List.append_assoc, List.cons_append]
          rw [headerValue?_colon _ (by decide), if_pos rfl]
        · rw [count_trimBlanks (by decide), List.count_append]
          exact fewer.trans (Nat.le_add_right _ _)

/-! ## Where the round leads -/

section Relative
variable {env : Environment} {request : Request} {requestUri host port uri location : Bytes}
  {s : ProxyState} {d : Delivered}

theorem readsLocation_of_named (redirect : d.code = 302) {line read : Bytes} (mem : line ∈ d.lines)
    (named : headerName line.dropLast = bytes "Location") (value : headerValue line.dropLast = some read) :
    ReadsLocation d uri location ↔ ¬ bytes "://" <:+: read ∧ withSlash read = withSlash location := by
  constructor
  · intro reads
    exact reads.spelled line mem named read value
  · intro plain
    refine ⟨fun line' mem' named' text value' => ?_, fun unnamed => absurd named (unnamed line mem)⟩
    have same := (locationRead_of_named redirect mem named).symm.trans (locationRead_of_named redirect mem' named')
    rw [value, value'] at same
    cases same
    exact plain

theorem readsLocation_of_unnamed (unnamed : ∀ line ∈ d.lines, headerName line.dropLast ≠ bytes "Location") :
    ReadsLocation d uri location ↔ uri = withSlash location :=
  ⟨fun reads => reads.unspelled unnamed,
    fun same => ⟨fun line mem named => absurd named (unnamed line mem), fun _ => same⟩⟩

theorem round_withSlash_iff (redirect : d.code = 302)
    (located : headerValues (bytes "Location") (fieldsOf d) = [location])
    (safe : ∀ line ∈ d.lines, SafeLine d.code line) :
    d.round host port uri = .redirected host port (withSlash location) ↔ ReadsLocation d uri location := by
  rw [Delivered.round, if_pos redirect]
  by_cases some_ : ∃ line ∈ d.lines, headerName line.dropLast = bytes "Location"
  · obtain ⟨line, mem, named⟩ := some_
    obtain ⟨read, value⟩ := Option.isSome_iff_exists.mp (safe line mem).2.1
    rw [locationRead_of_named redirect mem named, value, readsLocation_of_named redirect mem named value]
    dsimp only
    by_cases inside : bytes "://" <:+: read
    · -- the path of a URL has lost a colon that the value has
      refine ⟨fun same => ?_, fun plain => absurd inside plain.1⟩
      obtain ⟨-, -, path⟩ := Round.redirected.inj same
      obtain ⟨location', valued, more⟩ := exists_value_of_name (safe line mem).1 named value inside
      have listed := mem_fields_of_read mem fun line mem => (safe line mem).1
      have only : location' ∈ headerValues (bytes "Location") (fieldsOf d) :=
        List.mem_filterMap.mpr ⟨_, listed, valued⟩
      rw [located, List.mem_singleton] at only
      have lost := count_path_lt inside host port
      rw [path, count_withSlash, ← only] at lost
      omega
    · rw [parseLocation_plain inside]
      simp [inside]
  · have unnamed : ∀ line ∈ d.lines, headerName line.dropLast ≠ bytes "Location" :=
      fun line mem named => some_ ⟨line, mem, named⟩
    rw [locationRead_of_unnamed unnamed, readsLocation_of_unnamed unnamed]
    simp

/-- Without a blank after the colon a byte is lost. -/
example : headerValue (bytes "Location:login") = some (bytes "ogin") ∧
    headerValue? (bytes "Location") (bytes "Location:login") = some (bytes "login") := by decide

theorem exchange_redirect (requestUri : Bytes)
    (arrived : delivery (env.upstream s.contacts.length (outgoing request host port uri)) = .response d)
    (redirect : d.code = 302) :
    (exchange env request requestUri host port uri).wp
      (fun round _ => (∀ line ∈ d.lines, SafeLine d.code line) ∧ round = d.round host port uri)
      (fun _ _ => ∃ line ∈ d.lines, ¬ SafeLine d.code line) s := by
  apply Proc.wp_mono (exchange_wp request requestUri host port uri rfl rfl)
  · intro round s' done
    obtain ⟨safe, same, -⟩ := roundDone_delivered arrived done
    exact ⟨safe, same⟩
  · intro f s' threw
    rcases roundThrew_delivered arrived threw with ⟨-, bad, -⟩ | ⟨-, -, caches, -⟩
    · exact bad
    · exact absurd redirect (code_of_caches caches)

/-- A Location leads to the same host and to its own path exactly when the header loop gets through and
cuts out a text that stands for this path. -/
theorem sendsNextTo_withSlash_iff
    (arrived : delivery (env.upstream s.contacts.length (outgoing request host port uri)) = .response d)
    (redirect : d.code = 302)
    (located : headerValues (bytes "Location") (fieldsOf d) = [location]) :
    SendsNextTo env request requestUri host port uri s host port (withSlash location) ↔
      (∀ line ∈ d.lines, SafeLine d.code line) ∧ ReadsLocation d uri location := by
  have ended := exchange_redirect requestUri arrived redirect
  constructor
  · rintro ⟨s', ran⟩
    obtain ⟨safe, same⟩ := Proc.wp_done ended ran
    exact ⟨safe, (round_withSlash_iff redirect located safe).mp same.symm⟩
  · rintro ⟨safe, reads⟩
    have same : d.round host port uri = _ := (round_withSlash_iff redirect located safe).mpr reads
    cases ran : (exchange env request requestUri host port uri).run s with
    | running => exact absurd ran (exchange_halts _ _ _ _ _ s)
    | threw f s' =>
        obtain ⟨line, mem, bad⟩ := Proc.wp_threw ended ran
        exact absurd (safe line mem) bad
    | done round s' =>
        obtain ⟨-, rfl⟩ := Proc.wp_done ended ran
        rw [same] at ran
        exact ⟨s', ran⟩

end Relative

/-! ## A return address in a query -/

def redirectTo (location : Bytes) : Answer :=
  .stream [bytes "HTTP/1.1 302 Found\r\nLocation: " ++ location ++ crlfcrlf] true

theorem exists_redirectTo (location : Bytes)
    (computed : (responseOf (delivery (redirectTo location))).any (fun d => d.code == 302 &&
      headerValues (bytes "Location") (fieldsOf d) == [location] && d.lines.length == 1 &&
        d.lines.all fun line => line != [] && headerName line.dropLast == bytes "Location" &&
          headerValue line.dropLast == some location) = true) :
    ∃ d line, delivery (redirectTo location) = .response d ∧ d.code = 302 ∧
      headerValues (bytes "Location") (fieldsOf d) = [location] ∧ line ∈ d.lines ∧
      headerName line.dropLast = bytes "Location" ∧ headerValue line.dropLast = some location ∧
      ∀ line ∈ d.lines, SafeLine d.code line := by
  obtain ⟨d, arrived, test⟩ := Option.any_eq_true _ _ |>.mp computed
  simp only [Bool.and_eq_true, beq_iff_eq, List.all_eq_true, bne_iff_ne] at test
  obtain ⟨⟨⟨redirect, located⟩, single⟩, spelled⟩ := test
  obtain ⟨line, only⟩ := List.length_eq_one_iff.mp single
  have mem : line ∈ d.lines := only ▸ List.mem_singleton_self line
  obtain ⟨⟨-, named⟩, value⟩ := spelled line mem
  refine ⟨d, line, delivery_eq arrived, redirect, located, mem, named, value, fun line mem => ?_⟩
  obtain ⟨⟨some_, -⟩, value⟩ := spelled line mem
  refine ⟨some_, by rw [value]; rfl, fun value age => ?_⟩
  -- no age is read from a redirect
  rw [redirect, ageValue, Option.mem_def, Option.filter_eq_some_iff] at age
  exact absurd age.2 (by simp [cacheable])

theorem sendsNextTo_relative : SendsNextTo (scripted [redirectTo (bytes "b?c=d:e")]) {} (bytes "/a") (bytes "h")
    (bytes "80") (bytes "/a") { files := emptyDisk } (bytes "h") (bytes "80") (bytes "/b?c=d:e") := by
  obtain ⟨d, line, arrived, redirect, located, mem, named, value, safe⟩ :=
    exists_redirectTo (bytes "b?c=d:e") (by decide)
  have reads : ReadsLocation d (bytes "/a") (bytes "b?c=d:e") :=
    (readsLocation_of_named redirect mem named value).mpr ⟨contains_eq_false_iff.mp (by decide), rfl⟩
  exact (sendsNextTo_withSlash_iff arrived redirect located).mpr ⟨safe, reads⟩

theorem not_sendsNextTo_relative : ¬ ∀ (env : Environment) (request : Request)
    (requestUri host port uri location : Bytes) (s : ProxyState) (d : Delivered),
    delivery (env.upstream s.contacts.length (outgoing request host port uri)) = .response d →
    d.code = 302 → headerValues (bytes "Location") (fieldsOf d) = [location] →
    RelativeReference location →
    SendsNextTo env request requestUri host port uri s host port (withSlash location) := by
  intro claim
  let location := bytes "/login?next=http://c/"
  obtain ⟨d, line, arrived, redirect, located, mem, named, value, -⟩ := exists_redirectTo location (by decide)
  have relative : RelativeReference location := by
    rintro scheme rest ⟨c, tail, rfl, alpha, -⟩ same
    obtain ⟨rfl, -⟩ := List.cons.inj same
    exact absurd alpha (by decide)
  have arrivedHere : delivery ((scripted [redirectTo location]).upstream
      ({ files := emptyDisk } : ProxyState).contacts.length (outgoing {} [] [] [])) = .response d := arrived
  obtain ⟨s', ran⟩ := claim _ _ [] _ _ _ location _ d arrivedHere redirect located relative
  obtain ⟨-, same⟩ := Proc.wp_done (exchange_redirect [] arrivedHere redirect) ran
  rw [Delivered.round, if_pos redirect, locationRead_of_named redirect mem named, value] at same
  obtain ⟨host, -⟩ := Round.redirected.inj same
  exact absurd host (by decide)

end TscServer.Proof
