import Mathlib.Data.List.Perm.Basic
import Mathlib.Data.List.Sigma
import TscServer.Proof.ConfigTables

/-!
# The order of the statements

Whether a leaf is accepted depends on the leaves before it only through their prefixes, and what the
tables hold at the end depends on which leaves there were, but not on their order or on the blocks they
stand in.
-/

namespace TscServer.Proof
open Lib Model Spec ConfigHandler

/-! ## Acceptance -/

theorem handleLeaf_of_accepts {leaf : NginxConfigStatement} {handler handler' : ConfigHandler}
    (accepts : Accepts handler leaf handler') : handleLeaf handler leaf = .ok handler' := by
  cases accepts with
  | @port port portNum childBlock number low high =>
      show handlePort [bytes "port", port] handler = _
      simp [handlePort, number, low, high]
  | @thread count threadCount childBlock number positive =>
      show handleThread [bytes "thread", count] handler = _
      simp [handleThread, number, positive]
  | @path path configOpt unused nonempty slash added =>
      show handlePath [bytes "path", path.uriPrefix, path.handlerName] path.childBlock handler = _
      obtain ⟨back, last⟩ := Option.ne_none_iff_exists'.mp (mt List.getLast?_eq_none_iff.mp nonempty)
      have plain : ¬ (back = 47 ∧ path.uriPrefix ≠ bytes "/") := by
        rintro ⟨rfl, other⟩
        exact other (slash last)
      simp [handlePath, unused, last, plain, added, Except.map]

def Acceptable (leaf : NginxConfigStatement) : Prop := ∃ handler handler', Accepts handler leaf handler'

def prefixesOf (leaves : List NginxConfigStatement) : List Bytes :=
  (leaves.filterMap pathStatement).map PathStatement.uriPrefix

theorem prefixesOf_cons (leaf : NginxConfigStatement) (leaves : List NginxConfigStatement) :
    prefixesOf (leaf :: leaves) = prefixesOf [leaf] ++ prefixesOf leaves := by
  rw [prefixesOf, ← List.singleton_append, List.filterMap_append, List.map_append]
  rfl

theorem prefixesOf_singleton_nodup (leaf : NginxConfigStatement) : (prefixesOf [leaf]).Nodup := by
  have short : (prefixesOf [leaf]).length ≤ 1 := by
    rw [prefixesOf, List.length_map]
    exact List.length_filterMap_le _ _
  apply List.nodup_iff_count_le_one.mpr
  exact fun uriPrefix => List.count_le_length.trans short

theorem addPath_anywhere {uriPrefix handlerName : Bytes}
    {childBlock : Option (List NginxConfigStatement)} {opts opts' : ConfigOpts}
    (added : addPath uriPrefix handlerName childBlock opts = .ok opts') (other : ConfigOpts) :
    ∃ other', addPath uriPrefix handlerName childBlock other = .ok other' := by
  unfold addPath at added ⊢
  split_ifs at added ⊢
  all_goals cases childBlock with
    | none => cases added <;> exact ⟨_, rfl⟩
    | some block => cases added <;> exact ⟨_, rfl⟩

theorem Acceptable.accepts {leaf : NginxConfigStatement} (acceptable : Acceptable leaf)
    {handler : ConfigHandler}
    (unused : ∀ uriPrefix ∈ prefixesOf [leaf], uriPrefix ∉ handler.checkDuplicatePath) :
    ∃ handler', Accepts handler leaf handler' := by
  obtain ⟨other, other', accepts⟩ := acceptable
  cases accepts with
  | port number low high => exact ⟨_, .port number low high⟩
  | thread number positive => exact ⟨_, .thread number positive⟩
  | @path path _ _ nonempty slash added =>
      obtain ⟨configOpt, added⟩ := addPath_anywhere added handler.configOpt
      have here : path.uriPrefix ∈ prefixesOf
          [.mk [bytes "path", path.uriPrefix, path.handlerName] path.childBlock] := List.mem_singleton_self _
      exact ⟨_, .path (unused _ here) nonempty slash added⟩

theorem used_of_accepts {leaf : NginxConfigStatement} {handler handler' : ConfigHandler}
    (accepts : Accepts handler leaf handler') :
    (∀ uriPrefix ∈ prefixesOf [leaf], uriPrefix ∉ handler.checkDuplicatePath) ∧
      handler'.checkDuplicatePath = handler.checkDuplicatePath ++ prefixesOf [leaf] := by
  cases accepts with
  | @port port _ childBlock =>
      have none_ : prefixesOf [.mk [bytes "port", port] childBlock] = [] := rfl
      simp [none_]
  | @thread count _ childBlock =>
      have none_ : prefixesOf [.mk [bytes "thread", count] childBlock] = [] := rfl
      simp [none_]
  | @path path _ unused =>
      have one : prefixesOf [.mk [bytes "path", path.uriPrefix, path.handlerName] path.childBlock] =
          [path.uriPrefix] := rfl
      simp [one, unused]

/-- A run over leaves succeeds exactly when each of them is acceptable and no prefix is used twice. By
induction on the leaves, with any prefixes used before them. -/
theorem foldlM_handleLeaf_succeeds {leaves : List NginxConfigStatement} {handler : ConfigHandler}
    (plain : ∀ leaf ∈ leaves, ¬ IsServerBlock leaf) :
    (∃ handler', leaves.foldlM handleLeaf handler = .ok handler') ↔
      (∀ leaf ∈ leaves, Acceptable leaf) ∧ (prefixesOf leaves).Nodup ∧
        ∀ uriPrefix ∈ prefixesOf leaves, uriPrefix ∉ handler.checkDuplicatePath := by
  induction leaves generalizing handler with
  | nil => simp [prefixesOf, pure, Except.pure]
  | cons leaf leaves ih =>
      have later := fun handler => @ih handler fun other mem => plain other (by simp [mem])
      have single := prefixesOf_singleton_nodup leaf
      rw [prefixesOf_cons, List.nodup_append', List.forall_mem_cons]
      constructor
      · rintro ⟨last, ran⟩
        obtain ⟨handler', accepted, rest⟩ := foldlM_cons_eq_ok.mp ran
        have accepts := accepts_of_handleLeaf (plain leaf (by simp)) accepted
        obtain ⟨unused, used⟩ := used_of_accepts accepts
        obtain ⟨all, nodup, unused'⟩ := (later handler').mp ⟨last, rest⟩
        simp only [used, List.mem_append, not_or] at unused'
        refine ⟨⟨⟨handler, handler', accepts⟩, all⟩, ⟨single, nodup, ?_⟩, ?_⟩
        · exact fun uriPrefix first second => (unused' uriPrefix second).2 first
        · intro uriPrefix mem
          rcases List.mem_append.mp mem with first | second
          · exact unused uriPrefix first
          · exact (unused' uriPrefix second).1
      · rintro ⟨⟨acceptable, all⟩, ⟨-, nodup, apart⟩, unused⟩
        obtain ⟨handler', accepts⟩ := acceptable.accepts
          fun uriPrefix mem => unused uriPrefix (List.mem_append_left _ mem)
        have unused' : ∀ uriPrefix ∈ prefixesOf leaves, uriPrefix ∉ handler'.checkDuplicatePath := by
          intro uriPrefix second
          rw [(used_of_accepts accepts).2, List.mem_append, not_or]
          exact ⟨unused uriPrefix (List.mem_append_right _ second), fun first => apart first second⟩
        obtain ⟨last, rest⟩ := (later handler').mpr ⟨all, nodup, unused'⟩
        exact ⟨last, foldlM_cons_eq_ok.mpr ⟨handler', handleLeaf_of_accepts accepts, rest⟩⟩

theorem handleStatements_succeeds (statements : List NginxConfigStatement) :
    (∃ handler, handleStatements statements {} = .ok handler) ↔
      (∀ leaf ∈ leaves statements, Acceptable leaf) ∧ (prefixesOf (leaves statements)).Nodup := by
  rw [← foldlM_leaves, foldlM_handleLeaf_succeeds (not_isServerBlock_of_leaf statements)]
  simp

/-! ## What the run leaves -/

def portOf : NginxConfigStatement → Option Bytes
  | .mk [token, port] _ => if token = bytes "port" then some port else none
  | _ => none

def threadCountOf : NginxConfigStatement → Option Int
  | .mk [token, count] _ => if token = bytes "thread" then lexicalCastInt count else none
  | _ => none

structure Settled (seen : List NginxConfigStatement) (handler : ConfigHandler) : Prop where
  port : handler.configOpt.port = (seen.filterMap portOf).getLastD ({} : ConfigOpts).port
  threadCount : handler.configOpt.threadCount =
    (seen.filterMap threadCountOf).getLastD ({} : ConfigOpts).threadCount

theorem Settled.next {seen : List NginxConfigStatement} {leaf : NginxConfigStatement}
    {handler handler' : ConfigHandler} (settled : Settled seen handler)
    (accepts : Accepts handler leaf handler') : Settled (seen ++ [leaf]) handler' := by
  obtain ⟨portSettled, countSettled⟩ := settled
  cases accepts with
  | @port port _ childBlock =>
      have one : [NginxConfigStatement.mk [bytes "port", port] childBlock].filterMap portOf = [port] := rfl
      have none_ : [NginxConfigStatement.mk [bytes "port", port] childBlock].filterMap threadCountOf = [] :=
        rfl
      constructor
      · simp [List.filterMap_append, one]
      · rw [List.filterMap_append, none_, List.append_nil]
        exact countSettled
  | @thread count threadCount childBlock number =>
      have none_ : [NginxConfigStatement.mk [bytes "thread", count] childBlock].filterMap portOf = [] := rfl
      have one : [NginxConfigStatement.mk [bytes "thread", count] childBlock].filterMap threadCountOf =
          [threadCount] := by
        have here : threadCountOf (.mk [bytes "thread", count] childBlock) = some threadCount := number
        simp [here]
      constructor
      · rw [List.filterMap_append, none_, List.append_nil]
        exact portSettled
      · simp [List.filterMap_append, one]
  | @path path _ _ _ _ added =>
      obtain ⟨port, count⟩ := threadCount_addPath added
      have none_ : [NginxConfigStatement.mk [bytes "path", path.uriPrefix, path.handlerName]
          path.childBlock].filterMap portOf = [] := rfl
      have none' : [NginxConfigStatement.mk [bytes "path", path.uriPrefix, path.handlerName]
          path.childBlock].filterMap threadCountOf = [] := rfl
      constructor
      · rw [List.filterMap_append, none_, List.append_nil, ← portSettled]
        exact port
      · rw [List.filterMap_append, none', List.append_nil, ← countSettled]
        exact count

theorem settled_of_handleStatements {statements : List NginxConfigStatement} {handler : ConfigHandler}
    (ok : handleStatements statements {} = .ok handler) : Settled (leaves statements) handler :=
  handleStatements_induction ⟨rfl, rfl⟩ (fun _ _ _ _ settled accepts => settled.next accepts) ok

def configFor (kind : HandlerClass) (path : PathStatement) : NginxConfig where
  statements := if takesBlock kind then path.childBlock.getD [] else []

theorem configsOf_eq {paths : List PathStatement} {opts : ConfigOpts} (tabulates : Tabulates paths opts)
    (kind : HandlerClass) : configsOf opts kind = (ofClass kind paths).map (configFor kind) := by
  have noBlock : (fun _ : Bytes => ({ statements := [] } : NginxConfig)) ∘ PathStatement.uriPrefix =
      fun _ => { statements := [] } := rfl
  cases takes : takesBlock kind with
  | true =>
      have own : ∀ path config, HasBlock kind path config → configFor kind path = config := by
        intro path config block
        simp [configFor, takes, block takes]
      have pairs := (tabulates.configs kind).imp own
      rw [← List.forall₂_map_left_iff, List.forall₂_eq_eq_eq] at pairs
      exact pairs.symm
  | false =>
      have table := tabulates.uriPrefixes kind
      have empty : configFor kind = fun _ => { statements := [] } := by
        funext path
        simp [configFor, takes]
      cases kind with
      | echo =>
          rw [tableOf] at table
          rw [configsOf, table, List.map_map, empty, noBlock]
      | status =>
          rw [tableOf] at table
          rw [configsOf, table, List.map_map, empty, noBlock]
      | static => cases takes
      | python => cases takes
      | proxy => cases takes

theorem handlerTable_eq {paths : List PathStatement} {opts : ConfigOpts} (tabulates : Tabulates paths opts) :
    handlerTable opts = [HandlerClass.echo, .status, .static, .python, .proxy].flatMap fun kind =>
      (ofClass kind paths).map fun path => ⟨path.uriPrefix, kind, configFor kind path⟩ := by
  unfold handlerTable
  congr 1
  funext kind
  rw [configsOf_eq tabulates kind, tabulates.uriPrefixes kind, List.zipWith_map, List.zipWith_self]

theorem handlerTable_nodupKeys {statements : List NginxConfigStatement} {handler : ConfigHandler}
    (collected : Collected (leaves statements) handler) : (handlerTable handler.configOpt).NodupKeys := by
  have keys : (handlerTable handler.configOpt).keys =
      [HandlerClass.echo, .status, .static, .python, .proxy].flatMap (tableOf handler.configOpt) := by
    rw [handlerTable_eq collected.tabulates, List.keys, List.map_flatMap]
    congr 1
    funext kind
    rw [collected.tabulates.uriPrefixes kind, List.map_map]
    rfl
  rw [List.NodupKeys, keys, List.nodup_flatMap]
  refine ⟨fun kind _ => tableOf_nodup collected kind, ?_⟩
  have distinct : [HandlerClass.echo, .status, .static, .python, .proxy].Nodup := by decide
  exact distinct.imp fun different => tableOf_disjoint collected different

/-! ## Other orders -/

def startsWith (token : Bytes) (statement : NginxConfigStatement) : Bool :=
  statement.tokens.head? == some token

theorem eq_of_perm_of_short {α : Type} {l l' : List α} (perm : l.Perm l') (short : l.length ≤ 1) :
    l = l' := by
  cases l with
  | nil => exact (List.nil_perm.mp perm).symm
  | cons a l =>
      obtain rfl := List.eq_nil_of_length_eq_zero (Nat.le_zero.mp (Nat.le_of_succ_le_succ short))
      exact (List.perm_singleton.mp perm.symm).symm

theorem filterMap_eq_of_perm {α : Type} {f : NginxConfigStatement → Option α} {token : Bytes}
    {l l' : List NginxConfigStatement} (perm : l.Perm l')
    (reads : ∀ leaf, (f leaf).isSome → startsWith token leaf) (one : l.countP (startsWith token) ≤ 1) :
    l.filterMap f = l'.filterMap f := by
  apply eq_of_perm_of_short (perm.filterMap f)
  rw [List.length_filterMap_eq_countP]
  exact (List.countP_mono_left fun leaf _ => reads leaf).trans one

theorem startsWith_of_portOf (leaf : NginxConfigStatement) (port : (portOf leaf).isSome) :
    startsWith (bytes "port") leaf := by
  unfold portOf at port
  split at port
  · split at port
    · rename_i same
      simp [startsWith, NginxConfigStatement.tokens, same]
    · cases port
  · cases port

theorem startsWith_of_threadCountOf (leaf : NginxConfigStatement) (count : (threadCountOf leaf).isSome) :
    startsWith (bytes "thread") leaf := by
  unfold threadCountOf at count
  split at count
  · split at count
    · rename_i same
      simp [startsWith, NginxConfigStatement.tokens, same]
    · cases count
  · cases count

section Reordered
variable {statements statements' : List NginxConfigStatement}

theorem succeeds_of_perm (perm : (leaves statements).Perm (leaves statements')) :
    (∃ handler, handleStatements statements {} = .ok handler) ↔
      ∃ handler, handleStatements statements' {} = .ok handler := by
  rw [handleStatements_succeeds, handleStatements_succeeds]
  have prefixes := (perm.filterMap pathStatement).map PathStatement.uriPrefix
  exact and_congr (by simp [perm.mem_iff]) prefixes.nodup_iff

theorem handlerMap_of_perm {handler handler' : ConfigHandler}
    (perm : (leaves statements).Perm (leaves statements'))
    (collected : Collected (leaves statements) handler)
    (collected' : Collected (leaves statements') handler') :
    handlerMap handler.configOpt = handlerMap handler'.configOpt := by
  funext uriPrefix
  apply List.perm_dlookup uriPrefix (handlerTable_nodupKeys collected)
  rw [handlerTable_eq collected.tabulates, handlerTable_eq collected'.tabulates]
  apply List.Perm.flatMap_left
  intro kind _
  exact ((perm.filterMap pathStatement).filter _).map _

/-- Neither the order of the leaves nor the server blocks around them count. -/
theorem handleStatements_of_perm (perm : (leaves statements).Perm (leaves statements'))
    (onePort : (leaves statements).countP (startsWith (bytes "port")) ≤ 1)
    (oneThread : (leaves statements).countP (startsWith (bytes "thread")) ≤ 1) :
    ((∃ handler, handleStatements statements {} = .ok handler) ↔
        ∃ handler, handleStatements statements' {} = .ok handler) ∧
      ∀ handler handler', handleStatements statements {} = .ok handler →
        handleStatements statements' {} = .ok handler' →
          handler.configOpt.port = handler'.configOpt.port ∧
            handler.configOpt.threadCount = handler'.configOpt.threadCount ∧
              handlerMap handler.configOpt = handlerMap handler'.configOpt := by
  refine ⟨succeeds_of_perm perm, fun handler handler' ok ok' => ?_⟩
  have settled := settled_of_handleStatements ok
  have settled' := settled_of_handleStatements ok'
  refine ⟨?_, ?_, ?_⟩
  · rw [settled.port, settled'.port, filterMap_eq_of_perm perm startsWith_of_portOf onePort]
  · rw [settled.threadCount, settled'.threadCount,
      filterMap_eq_of_perm perm startsWith_of_threadCountOf oneThread]
  · exact handlerMap_of_perm perm (collected_of_handleStatements ok) (collected_of_handleStatements ok')

end Reordered

def flatStatements : List NginxConfigStatement := (leaves nestedStatements).reverse

theorem handleStatements_flat : ∃ handler handler', handleStatements nestedStatements {} = .ok handler ∧
    handleStatements flatStatements {} = .ok handler' ∧ handler.configOpt.port = handler'.configOpt.port ∧
      handler.configOpt.threadCount = handler'.configOpt.threadCount ∧
        handlerMap handler.configOpt = handlerMap handler'.configOpt := by
  have flat : leaves flatStatements = flatStatements := by
    simp [flatStatements, nestedStatements, leaves, leavesOf, bytes]
  have perm : (leaves nestedStatements).Perm (leaves flatStatements) := by
    rw [flat]
    exact (List.reverse_perm _).symm
  have accepted : (handleStatements nestedStatements {}).isOk = true := by decide
  obtain ⟨succeeds, agree⟩ := handleStatements_of_perm perm (by decide) (by decide)
  obtain ⟨handler, ok⟩ := except_isOk_iff.mp accepted
  obtain ⟨handler', ok'⟩ := succeeds.mp ⟨handler, ok⟩
  exact ⟨handler, handler', ok, ok', agree handler handler' ok ok'⟩

end TscServer.Proof
