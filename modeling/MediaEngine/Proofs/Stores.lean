import MediaEngine.Proofs.Runs

/-! # Which store is used

A store that is supplied takes every entry that is recorded, and the history shows these in front of what the
store had, up to its limit. A bounded store that is supplied empty takes none: another one is used in its place
(`supplied_store_used_iff`). -/

namespace MediaEngine

namespace Job

/-! ## Histories -/

namespace History
variable {h : History} {n : Int}

/-- The history of a limit once some entries were recorded in it. -/
def Of (n : Int) (h : History) : Prop :=
  ∃ empty, ∃ es : List Entry, History.empty? n = some empty ∧ h = es.foldl record empty

theorem take_append_take {α : Type} (n : Nat) (a b : List α) : (a ++ b.take n).take n = (a ++ b).take n := by
  rw [List.take_append, List.take_append, List.take_take, Nat.min_eq_left (Nat.sub_le n a.length)]

theorem record_all_limit (h : History) (es : List Entry) : (es.foldl record h).limit = h.limit := by
  induction es generalizing h with
  | nil => rfl
  | cons e rest ih => exact ih (h.record e)

/-- What is recorded stands in front, the newest first, and the limit cuts off the rest. -/
theorem record_all (hh : h.entries.length ≤ h.limit) (es : List Entry) :
    (es.foldl record h).entries = (es.reverse ++ h.entries).take h.limit := by
  induction es generalizing h with
  | nil => exact (List.take_of_length_le hh).symm
  | cons e rest ih =>
    have hfits : (h.record e).entries.length ≤ (h.record e).limit := List.length_take_le _ _
    rw [List.foldl_cons, ih hfits, List.reverse_cons, List.append_assoc]
    exact take_append_take _ _ _

theorem Of.limit (ho : Of n h) : h.limit = max 1 n.toNat ∧ h.entries.length ≤ h.limit := by
  obtain ⟨empty, es, hempty, rfl⟩ := ho
  unfold History.empty? at hempty
  split at hempty
  · cases hempty
    rw [record_all_limit, record_all (Nat.zero_le _)]
    exact ⟨rfl, List.length_take_le _ _⟩
  · cases hempty

end History

/-! ## Stores -/

namespace Store

/-- A bounded store holds no more entries than its limit. -/
def Within : Store → Prop
  | bounded h => h.entries.length ≤ h.limit
  | selective _ _ => True

/-- What a store shows once these entries were handed to it, the newest first. -/
def after (es : List Entry) : Store → List Entry
  | bounded h => (es.reverse ++ h.entries).take h.limit
  | selective refused old => (es.filter fun e => !refused.contains e.name).reverse ++ old

theorem keep_all_bounded (h : History) (es : List Entry) : es.foldl keep (bounded h) = bounded (es.foldl History.record h) := by
  induction es generalizing h with
  | nil => rfl
  | cons e rest ih => exact ih (h.record e)

theorem keep_all_selective (refused : List String) (es old : List Entry) :
    es.foldl keep (selective refused old) = selective refused ((es.filter fun e => !refused.contains e.name).reverse ++ old) := by
  induction es generalizing old with
  | nil => rfl
  | cons e rest ih =>
    rw [List.foldl_cons, keep, record?]
    cases he : refused.contains e.name with
    | true =>
      rw [List.filter_cons_of_neg (by simpa using he)]
      exact ih old
    | false =>
      rw [List.filter_cons_of_pos (by simpa using he), List.reverse_cons, List.append_assoc]
      exact ih (e :: old)

theorem keep_all_entries {store : Store} (hs : store.Within) (es : List Entry) :
    (es.foldl keep store).entries = store.after es := by
  cases store with
  | bounded h =>
    rw [keep_all_bounded]
    exact History.record_all hs es
  | selective refused old =>
    rw [keep_all_selective]
    rfl

theorem isVoid_iff {store : Store} : store.isVoid = true ↔ ∃ h, store = bounded h ∧ h.entries = [] := by
  cases store <;> simp [isVoid]

theorem chosen?_some {supplied store : Store} {limit : Int} (h : chosen? (some supplied) limit = some store) :
    (supplied.isVoid = false ∧ store = supplied) ∨ (supplied.isVoid = true ∧ store.Within ∧ store.entries = []) := by
  unfold chosen? at h
  cases hv : supplied.isVoid with
  | false =>
    simp only [hv, Option.filter_some, Bool.not_false, if_true] at h
    exact .inl ⟨rfl, (Option.some.inj h).symm⟩
  | true =>
    simp only [hv, Option.filter_some, Bool.not_true, Bool.false_eq_true, if_false] at h
    obtain ⟨empty, hempty, rfl⟩ := Option.map_eq_some_iff.mp h
    unfold History.empty? at hempty
    split at hempty
    · cases hempty
      exact .inr ⟨rfl, Nat.zero_le _, rfl⟩
    · cases hempty

end Store

end Job

/-! ## Runs -/

namespace Scheduler
open Job

variable {settings : Settings} {supplied store : Store} {s : Scheduler}

/-- The supplied store is the one that is used: the history is what it had and what was recorded since, and it shows
    the same itself. -/
structure Uses (q : Queue) (supplied : Store) : Prop where
  history : q.history = supplied.after q.recorded
  shown : q.suppliedStore (some supplied) = .list ((supplied.after q.recorded).map fun e => .text e.jobId)

/-- All that was recorded was handed to the store that the queue began with, in order. -/
theorem Reachable.store_eq (h : Reachable settings store s) : s.queue.store = s.queue.recorded.foldl Store.keep store := by
  obtain ⟨directory, budget, hr⟩ := h
  obtain ⟨es, hrecorded, hstore⟩ := (hr.passes (start_settled settings store directory budget)).continues.handed
  rw [hstore, hrecorded]
  rfl

/-- The supplied store is used exactly if it does not count as none, or as long as nothing is recorded. One that had
    recorded some entries under a limit shows the newest in front, up to that limit, which is at least one. -/
theorem supplied_store_used_iff (hs : supplied.Within)
    (hc : Store.chosen? (some supplied) settings.historyLimit = some store) (h : Reachable settings store s) :
    (Uses s.queue supplied ↔ supplied.isVoid = false ∨ s.queue.recorded = []) ∧
      ∀ n history, supplied = .bounded history → History.Of n history → supplied.isVoid = false →
        s.queue.history = (s.queue.recorded.reverse ++ history.entries).take (max 1 n.toNat) := by
  have hstore := h.store_eq
  -- A supplied history without entries is passed over, and a new one is made in its place.
  rcases Store.chosen?_some hc with ⟨hv, rfl⟩ | ⟨hv, hwithin, hempty⟩
  · have hhistory : s.queue.history = store.after s.queue.recorded := by
      rw [Queue.history, hstore, Store.keep_all_entries hs]
    refine ⟨iff_of_true ⟨hhistory, ?_⟩ (.inl hv), fun n history hb ho _ => ?_⟩
    · simp [Queue.suppliedStore, hv, hhistory]
    · subst hb
      rw [hhistory, ← ho.limit.1]
      rfl
  · refine ⟨?_, fun _ _ _ _ hno => by rw [hv] at hno; cases hno⟩
    obtain ⟨history, rfl, hnone⟩ := Store.isVoid_iff.mp hv
    have hafter : (Store.bounded history).after s.queue.recorded = s.queue.recorded.reverse.take history.limit := by
      rw [Store.after, hnone, List.append_nil]
    constructor
    · intro hu
      have hshown := hu.shown
      rw [hafter] at hshown
      simp [Queue.suppliedStore, hv, Nat.ne_of_gt history.limit_pos] at hshown
      exact .inr hshown
    · rintro (hno | hnothing)
      · rw [hv] at hno
        cases hno
      · rw [hnothing, List.reverse_nil, List.take_nil] at hafter
        rw [hnothing] at hstore
        constructor
        · rw [Queue.history, hstore, hnothing, hafter]
          exact hempty
        · simp [Queue.suppliedStore, hv, hnothing, hafter]

/-- A store that had an entry takes the entry of the job that ends, and shows both. -/
theorem filled_store_used :
    let old : Entry := ⟨"old", "old", .completed, none, none, none, none, none, .info, none⟩
    let supplied : Store := .bounded ⟨5, [old], by decide⟩
    let s := ((start .default supplied "/" 9).giveAll (some supplied) [.enqueue ⟨"a", some [], .none, none, .null⟩, .settle]).2
    Uses s.queue supplied ∧ s.queue.history.map Entry.jobId = ["job-1", "old"] ∧
      s.queue.history = (s.queue.recorded.reverse ++ [old]).take (max 1 (5 : Int).toNat) := by
  intro old supplied s
  have h : Reachable .default supplied s := ⟨"/", 9, giveAll_reaches _ _ _⟩
  have hc : Store.chosen? (some supplied) Settings.default.historyLimit = some supplied := rfl
  have hs : supplied.Within := show 1 ≤ 5 by decide
  obtain ⟨hiff, hbounded⟩ := supplied_store_used_iff hs hc h
  refine ⟨hiff.mpr (.inl rfl), by decide +kernel, hbounded 5 _ rfl ⟨⟨5, [], by decide⟩, [old], rfl, rfl⟩ rfl⟩

/-- A bounded store that is supplied empty shows nothing of a job that has ended. -/
theorem empty_store_unused :
    ∃ settings supplied store s, supplied.Within ∧ Store.chosen? (some supplied) settings.historyLimit = some store ∧
      Reachable settings store s ∧ ¬ Uses s.queue supplied := by
  let supplied : Store := .bounded ⟨5, [], by decide⟩
  let store : Store := .bounded ⟨20, [], by decide⟩
  let s := ((start .default store "/" 9).giveAll (some supplied) [.enqueue ⟨"a", some [], .none, none, .null⟩, .settle]).2
  have hafter : (supplied.after s.queue.recorded).length = 1 := by decide +kernel
  refine ⟨.default, supplied, store, s, Nat.zero_le 5, rfl, ⟨"/", 9, giveAll_reaches _ _ _⟩, fun hu => ?_⟩
  have hshown : (.list [] : Value) = .list ((supplied.after s.queue.recorded).map fun e => .text e.jobId) := hu.shown
  rw [Value.list.injEq, eq_comm, List.map_eq_nil_iff] at hshown
  rw [hshown] at hafter
  cases hafter

end Scheduler
end MediaEngine
