import TscServer.Spec.Responses

/-!
# Counters

Every call of `insertRecord` adds one visit to each of the three totals, under a key of its own, so that
the totals agree after any sequence of calls.
-/

namespace TscServer.Proof
open Lib Model Spec

/-! ## One counter -/

theorem count_increment (counters : Counters) (key code : Bytes) :
    count (counters.increment key) code = count counters code + if code = key then 1 else 0 := by
  unfold count Counters.increment
  split
  · rename_i same
    rw [same, AList.lookup_insert]
    rfl
  · rename_i other
    rw [AList.lookup_insert_ne other, Int.add_zero]

theorem filter_snoc_length {α : Type} (p : α → Prop) [DecidablePred p] (xs : List α) (x : α) :
    (((xs ++ [x]).filter fun a => p a).length : Int) =
      (xs.filter fun a => p a).length + if p x then 1 else 0 := by
  by_cases here : p x <;> simp [List.filter_append, here]

/-! ## Sums of counters -/

theorem sumWhere_cons (p : Bytes → Bool) (key : Bytes) (n : Int)
    (entries : List (Sigma fun _ : Bytes => Int)) :
    sumWhere p (⟨key, n⟩ :: entries) = (if p key then n else 0) + sumWhere p entries := by
  cases here : p key <;> simp [sumWhere, here]

theorem sumWhere_kerase (p : Bytes → Bool) (key : Bytes) (entries : List (Sigma fun _ : Bytes => Int)) :
    sumWhere p entries =
      sumWhere p (entries.kerase key) + if p key then (entries.dlookup key).getD 0 else 0 := by
  induction entries with
  | nil => simp [sumWhere]
  | cons entry entries ih =>
      obtain ⟨name, n⟩ := entry
      by_cases here : key = name
      · subst here
        have erased : List.kerase key (⟨key, n⟩ :: entries) = entries := List.kerase_cons_eq rfl
        rw [erased, List.dlookup_cons_eq, sumWhere_cons, Option.getD_some, Int.add_comm]
      · have kept : List.kerase key (⟨name, n⟩ :: entries) = ⟨name, n⟩ :: entries.kerase key :=
          List.kerase_cons_ne here
        have deeper : List.dlookup key (⟨name, n⟩ :: entries) = entries.dlookup key :=
          List.dlookup_cons_ne entries ⟨name, n⟩ here
        rw [kept, deeper, sumWhere_cons, sumWhere_cons, ih, Int.add_assoc]

theorem totalWhere_increment (p : Bytes → Bool) (counters : Counters) (key : Bytes) :
    totalWhere p (counters.increment key) = totalWhere p counters + if p key then 1 else 0 := by
  rw [totalWhere, totalWhere, Counters.increment, AList.entries_insert, sumWhere_cons,
    sumWhere_kerase p key counters.entries]
  show _ = sumWhere p _ + (if p key then (counters.lookup key).getD 0 else 0) + _
  split <;> omega

theorem total_increment (counters : Counters) (key : Bytes) :
    total (counters.increment key) = total counters + 1 := totalWhere_increment (fun _ => true) counters key

/-! ## Records -/

section Records
variable {status : ServerStatus} {uri : Bytes} {records : List (Bytes × ResponseCode)}

theorem responseToString_eq_ok {code : ResponseCode} :
    ServerStatus.responseToString code = bytes "200" ↔ code = .ok := by
  cases code <;> decide

theorem conserved_insertRecord (conserved : Conserved status) (other : uri ≠ sharedKey)
    (code : ResponseCode) : Conserved (status.insertRecord uri code) where
  visits := by
    rw [ServerStatus.insertRecord, total_increment, conserved.visits]
  codes := by
    rw [ServerStatus.insertRecord, total_increment, conserved.codes]
  unsuccessful := by
    rw [ServerStatus.insertRecord, count_increment, totalWhere_increment, conserved.unsuccessful]
    congr 1
    by_cases ok : code = .ok
    · subst ok
      rw [if_pos rfl, if_neg (Ne.symm other)]
      rfl
    · have unsuccessful : ServerStatus.responseToString code ≠ bytes "200" := mt responseToString_eq_ok.mp ok
      rw [if_neg ok, ← sharedKey, if_pos rfl]
      simp [unsuccessful]

theorem conserved_empty (handlerToUri : AList fun _ : Bytes => List Bytes) :
    Conserved { handlerToUri } := ⟨rfl, rfl, rfl⟩

theorem ne_sharedKey_of_slash (slash : uri.head? = some 47) : uri ≠ sharedKey := by
  rintro rfl
  cases slash

theorem tallies_snoc {record : Bytes × ResponseCode} (tallies : Tallies records status)
    (other : record.1 ≠ sharedKey) :
    Tallies (records ++ [record]) (status.insertRecord record.1 record.2) where
  conserved := conserved_insertRecord tallies.conserved other record.2
  all := by
    rw [ServerStatus.insertRecord, tallies.all, List.length_append]
    rfl
  uris uri different := by
    obtain ⟨name, code⟩ := record
    rw [ServerStatus.insertRecord, count_increment, tallies.uris uri different, filter_snoc_length]
    congr 1
    by_cases ok : code = .ok
    · simp only [ok, if_true, Prod.mk.injEq, and_true, eq_comm]
    · simp only [ok, if_false, Prod.mk.injEq, and_false]
      exact if_neg different

/-- No sequence of calls loses a visit, counts one twice or attributes an unsuccessful one to a URI. -/
theorem insertRecords_tallies (handlerToUri : AList fun _ : Bytes => List Bytes)
    (slashes : ∀ record ∈ records, record.1.head? = some 47) :
    Tallies records (insertRecords { handlerToUri } records) := by
  induction records using List.reverseRecOn with
  | nil => exact ⟨conserved_empty handlerToUri, rfl, fun _ _ => rfl⟩
  | append_singleton records record ih =>
      have tallies := ih fun record mem => slashes record (by simp [mem])
      have last : insertRecords { handlerToUri } (records ++ [record]) =
          (insertRecords { handlerToUri } records).insertRecord record.1 record.2 := by
        simp [insertRecords]
      rw [last]
      exact tallies_snoc tallies (ne_sharedKey_of_slash (slashes record (by simp)))

theorem insertRecords_tallies_three : Tallies
    [(bytes "/a", .ok), (bytes "/a", .notFound), (bytes "/b", .redirect)]
    (insertRecords {} [(bytes "/a", .ok), (bytes "/a", .notFound), (bytes "/b", .redirect)]) :=
  insertRecords_tallies ∅ (by decide)

end Records

end TscServer.Proof
