import MediaEngine.Proofs.Lapses
import MediaEngine.Proofs.Warnings

/-! # Warnings of a timeout

A warning of a timeout is about the first entry of the history that mentions one, be it in the message by which a timer
dropped the job, or in what the script of a job said that started. Entries of the former kind always mention it
(`overdue_mentions`); where no other does, the warning is about the job that was dropped last (`timeout_warning_agrees`). -/

namespace MediaEngine

namespace Text

theorem occursIn_append {word cs : List Char} (h : occursIn word cs = true) (ds : List Char) : occursIn word (cs ++ ds) = true := by
  induction cs with
  | nil =>
    rw [occursIn, List.isEmpty_iff] at h
    subst h
    cases ds <;> rfl
  | cons c rest ih =>
    rw [occursIn, Bool.or_eq_true] at h
    rw [List.cons_append, occursIn, Bool.or_eq_true]
    refine h.imp (fun h => ?_) ih
    exact List.isPrefixOf_iff_prefix.mpr ((List.isPrefixOf_iff_prefix.mp h).trans (List.prefix_append (c :: rest) ds))

theorem lower_append (a b : String) : lower (a ++ b) = lower a ++ lower b := by
  rw [lower, String.toList_append, List.flatMap_append]
  rfl

end Text

namespace Job
variable {j : Job} {e : Entry}

theorem mentionsTimeout_append {a : String} (h : mentionsTimeout (some a) = true) (b : String) : mentionsTimeout (some (a ++ b)) = true := by
  rw [mentionsTimeout, Option.any_some] at h ⊢
  rw [Text.lower_append]
  exact Text.occursIn_append h _

theorem mentionsTimeout_expiry (seconds : Int) : mentionsTimeout (some (Scheduler.expiryMessage seconds)) = true := by
  have hhead : mentionsTimeout (some "Queue timeout exceeded (") = true := by decide +kernel
  unfold Scheduler.expiryMessage
  exact mentionsTimeout_append (mentionsTimeout_append hhead _) _

theorem Overdue.mentions (h : j.Overdue) (he : e.MadeOf j) : mentionsTimeout e.message = true := by
  obtain ⟨seconds, hm⟩ := h.1
  rw [he.message, hm]
  exact mentionsTimeout_expiry seconds

theorem Swept.mentions (h : j.Swept) (he : e.MadeOf j) : e.isTimeout = false := by
  rw [Entry.isTimeout, he.message, he.errorMessage, h.1, h.2]
  decide

/-- A message that mentions a timeout is what is told of it. -/
theorem timeoutMessage_of_mentions (h : mentionsTimeout e.message = true) : e.message = some (timeoutMessage e) := by
  unfold timeoutMessage
  cases hm : e.message with
  | none =>
    rw [hm] at h
    cases h
  | some m =>
    have hsaid : m.isEmpty = false := Bool.eq_false_iff.mpr fun hempty => by
      rw [hm, String.isEmpty_iff.mp hempty] at h
      exact absurd h (by decide)
    dsimp only
    rw [hsaid, if_neg Bool.false_ne_true]

end Job

namespace Scheduler
open Job
variable {s : Scheduler} {ids : List JobId} {id : JobId} {e : Entry}

/-! ## Entries of jobs that were dropped -/

/-- The job of an entry that shows no start has ended and never started. -/
theorem Registered.forgone (hr : s.Registered) (he : e ∈ s.queue.recorded) (hno : e.startedAt = none) :
    ∃ j, s.queue.job? j.id = some j ∧ j.Forgone ∧ e.MadeOf j := by
  obtain ⟨j, hj, hfin, hm⟩ := hr.made e he
  refine ⟨j, Queue.job?_of_mem hr.order.fit.nodup hj, ⟨hfin, ?_⟩, hm⟩
  rwa [hm.startedAt, Option.map_eq_none_iff] at hno

theorem Registered.finished (hr : s.Registered) (he : e ∈ s.queue.recorded) : ∃ m, e.finishedAt = some m := by
  obtain ⟨ns, hns, -⟩ := hr.times
  have hm := List.mem_map_of_mem (f := Entry.finishedAt) he
  rw [hns] at hm
  obtain ⟨n, -, hn⟩ := List.mem_map.mp hm
  exact ⟨_, hn.symm⟩

namespace Marked

/-- The entry of a job that was dropped by its timer mentions this in its message. -/
theorem mentions (h : Marked ids s) (hr : s.Registered) (he : e ∈ s.queue.recorded) (hid : id ∈ ids) (htext : e.jobId = id.text) :
    mentionsTimeout e.message = true := by
  obtain ⟨j, hj, -, hm⟩ := hr.made e he
  obtain ⟨k, hk, -, hdue⟩ := h.overdue id hid
  have hjob : s.queue.job? id = some j :=
    JobId.text_inj (hm.jobId.symm.trans htext) ▸ Queue.job?_of_mem hr.order.fit.nodup hj
  cases hk.symm.trans hjob
  exact hdue.mentions hm

/-- Of the jobs that never started, no other has an entry that mentions a timeout. -/
theorem lapsed (h : Marked ids s) (hr : s.Registered) (he : e ∈ s.queue.recorded) (hno : e.startedAt = none)
    (htold : e.isTimeout = true) : ∃ id ∈ ids, id.text = e.jobId := by
  obtain ⟨j, hj, hgone, hm⟩ := hr.forgone he hno
  by_cases hid : j.id ∈ ids
  · exact ⟨j.id, hid, hm.jobId.symm⟩
  · rw [(h.swept j.id j hj hgone hid).mentions hm] at htold
    cases htold

end Marked

/-- If entries stand in the order in which their jobs were dropped, the first one is of the job that was dropped last of those
    that have one. -/
theorem latest_lapsed {es : List Entry} (hsub : (lapsedOf ids es).Sublist (ids.map JobId.text)) (hnodup : ids.Nodup)
    (hfirst : es.find? (fun e => decide (e.jobId ∈ ids.map JobId.text)) = some e) :
    ∃ later id earlier, ids = later ++ id :: earlier ∧ e.jobId = id.text ∧ ∀ f ∈ es, ∀ i ∈ later, f.jobId ≠ i.text := by
  obtain ⟨hlapsed, before, after, rfl, hbefore⟩ := List.find?_eq_some_iff_append.mp hfirst
  have htexts : (ids.map JobId.text).Nodup := hnodup.map fun _ _ => JobId.text_inj
  have hentries : lapsedOf ids (before ++ e :: after) = e.jobId :: lapsedOf ids after := by
    have hnone : lapsedOf ids before = [] := List.eq_nil_iff_forall_not_mem.mpr fun text hm => by
      obtain ⟨⟨f, hf, rfl⟩, i, hi, htext⟩ := mem_lapsedOf.mp hm
      have hno := hbefore f hf
      rw [Bool.not_eq_true', decide_eq_false_iff_not] at hno
      exact hno (htext ▸ List.mem_map_of_mem hi)
    have hhead : lapsedOf ids (e :: after) = e.jobId :: lapsedOf ids after := by
      simp only [lapsedOf, List.map_cons, List.filter_cons, hlapsed, if_true]
    rw [lapsedOf_append, hnone, List.nil_append, hhead]
  have hsub' := hentries ▸ hsub
  obtain ⟨front, back, hsplit, hmem, hback⟩ := List.cons_sublist_iff.mp hsub'
  obtain ⟨texts, rest, rfl⟩ := List.append_of_mem hmem
  rw [List.append_assoc, List.cons_append] at hsplit
  obtain ⟨later, ids', rfl, rfl, hids'⟩ := List.map_eq_append_iff.mp hsplit
  obtain ⟨id, earlier, rfl, hid, hrest⟩ := List.map_eq_cons_iff.mp hids'
  refine ⟨later, id, earlier, rfl, hid.symm, fun f hf i hi htext => ?_⟩
  have hapart := (List.nodup_append.mp (hsplit ▸ htexts)).2.2 i.text (List.mem_map_of_mem hi)
  have hin : f.jobId ∈ lapsedOf (later ++ id :: earlier) (before ++ e :: after) :=
    mem_lapsedOf.mpr ⟨⟨f, hf, rfl⟩, i, List.mem_append_left _ hi, htext.symm⟩
  rw [hentries] at hin
  rcases List.mem_cons.mp hin with heq | hin
  · exact hapart _ List.mem_cons_self (htext.symm.trans heq)
  · exact hapart _ (List.mem_cons_of_mem _ (List.mem_append_right _ (hback.subset hin))) htext.symm

/-! ## Runs -/

section Runs
variable {settings : Settings} {store : Store} {directory : String} {budget : Nat}

/-- In every state of a run of a queue to which no store was supplied, its own views give at most one warning of a timeout, and
    there is one wherever the history has an entry of a job that was dropped by its timer. If the newest entry that mentions a
    timeout is of a job that never started, there is one only then, and it has the message and the time of the job that was
    dropped last by its timer of those in the history. -/
theorem timeout_warning_agrees (h : Lapses (start settings store directory budget) s ids)
    (hdefault : Store.chosen? none settings.historyLimit = some store) (now : MediaEngine.Moment) :
    ∃ ws, warnings s.queue.history (some s.queue.limits) s.queue.waiting.length s.queue.fullEvent now = .ok ws ∧
      (warningsOf .timeout ws).length ≤ 1 ∧
      ((∃ e ∈ s.queue.history, ∃ id ∈ ids, id.text = e.jobId) → warningsOf .timeout ws ≠ []) ∧
      ((∀ e, s.queue.history.find? Entry.isTimeout = some e → e.startedAt = none) →
        (warningsOf .timeout ws ≠ [] ↔ ∃ e ∈ s.queue.history, ∃ id ∈ ids, id.text = e.jobId) ∧
        ∀ w ∈ warningsOf .timeout ws, ∃ later id earlier, ids = later ++ id :: earlier ∧
          (∀ f ∈ s.queue.history, ∀ i ∈ later, f.jobId ≠ i.text) ∧
          ∃ e ∈ s.queue.history, e.jobId = id.text ∧ e.message = some w.message ∧ e.finishedAt = some w.occurredAt) := by
  obtain ⟨hnewest, hsorted⟩ := h.runs.history hdefault
  have hr : s.Registered := h.runs.registered (start_settled settings store directory budget)
    (start_timed settings store directory budget) (start_registered settings store directory budget)
  have hm : Marked ids s := marked_of_lapses h
  have hkept : ∀ e ∈ s.queue.history, e ∈ s.queue.recorded := fun e he => by
    rw [hnewest.history] at he
    exact List.mem_reverse.mp (List.mem_of_mem_take he)
  have hmention : ∀ e ∈ s.queue.history, ∀ id ∈ ids, id.text = e.jobId → e.isTimeout = true := fun e he id hid htext => by
    rw [Entry.isTimeout, hm.mentions hr (hkept e he) hid htext.symm, Bool.true_or]
  obtain ⟨ws, hws, -, htimeout⟩ := warnings_eq hsorted s.queue.limits s.queue.waiting.length s.queue.fullEvent now
  have hsome : (∃ e ∈ s.queue.history, ∃ id ∈ ids, id.text = e.jobId) → warningsOf .timeout ws ≠ [] := by
    rintro ⟨e, he, id, hid, htext⟩ hno
    rw [htimeout, Option.toList_eq_nil_iff, Option.map_eq_none_iff, List.find?_eq_none] at hno
    exact hno e he (hmention e he id hid htext)
  refine ⟨ws, hws, ?_, hsome, fun hunstarted => ?_⟩
  · rw [htimeout]
    cases s.queue.history.find? Entry.isTimeout <;> simp
  cases hfirst : s.queue.history.find? Entry.isTimeout with
  | none =>
    rw [hfirst] at htimeout
    refine ⟨⟨fun hne => absurd htimeout hne, hsome⟩, fun w hw => ?_⟩
    rw [htimeout] at hw
    cases hw
  | some e =>
    have he : e ∈ s.queue.history := List.mem_of_find?_eq_some hfirst
    obtain ⟨i, hi, hitext⟩ := hm.lapsed hr (hkept e he) (hunstarted e hfirst) (List.find?_some hfirst)
    refine ⟨⟨fun _ => ⟨e, he, i, hi, hitext⟩, hsome⟩, fun w hw => ?_⟩
    rw [htimeout, hfirst] at hw
    obtain rfl : w = timeoutWarning e now := List.mem_singleton.mp hw
    have hentries : (lapsedOf ids s.queue.history).Sublist (ids.map JobId.text) := by
      rw [hnewest.history]
      exact (((List.take_sublist _ _).map _).filter _).trans hm.entries
    -- Nothing before this entry mentions a timeout, and so nothing before it is of a job that was dropped.
    have hlatest : s.queue.history.find? (fun e => decide (e.jobId ∈ ids.map JobId.text)) = some e := by
      obtain ⟨-, before, after, hsplit, hbefore⟩ := List.find?_eq_some_iff_append.mp hfirst
      refine List.find?_eq_some_iff_append.mpr ⟨decide_eq_true (hitext ▸ List.mem_map_of_mem hi), before, after, hsplit, ?_⟩
      intro f hf
      rw [Bool.not_eq_true', decide_eq_false_iff_not]
      intro hlapsed
      obtain ⟨k, hk, hktext⟩ := List.mem_map.mp hlapsed
      have hno := hbefore f hf
      rw [hmention f (hsplit ▸ List.mem_append_left _ hf) k hk hktext] at hno
      cases hno
    obtain ⟨later, id, earlier, hids, htext, hlater⟩ := latest_lapsed hentries hm.nodup hlatest
    obtain ⟨m, hat⟩ := hr.finished (hkept e he)
    refine ⟨later, id, earlier, hids, hlater, e, he, htext, timeoutMessage_of_mentions ?_, ?_⟩
    · exact hm.mentions hr (hkept e he) hi hitext.symm
    · rw [hat]
      change some m = some (e.moment?.getD now)
      rw [Entry.moment?, hat]
      rfl

end Runs

/-- The second of two jobs waits too long, and is warned of. -/
theorem expired_job_warned_of :
    let job := fun name : String => Command.enqueue ⟨name, some [.gate "g"], .none, none, .null⟩
    let s₀ := start (.floored 1 1 1500 20) (.bounded ⟨20, [], by decide⟩) "/" 9
    let s := (s₀.giveAll none [job "a", job "b", .advance 2000]).2
    ∃ ids ws, Lapses s₀ s ids ∧ s.queue.warnings s.loop.now = .ok ws ∧ warningsOf .timeout ws ≠ [] ∧
      (∃ e ∈ s.queue.history, ∃ id ∈ ids, id.text = e.jobId) ∧
      ∀ w ∈ warningsOf .timeout ws, ∃ e ∈ s.queue.history, e.jobId = "job-2" ∧ e.message = some w.message ∧
        e.finishedAt = some w.occurredAt := by
  intro job s₀ s
  have hruns : Runs s₀ s := runs_drives.giveAll _ _ _
  obtain ⟨ids, hl⟩ := Runs.lapses hruns
  have hfirst : (s.queue.history.find? Entry.isTimeout).isSome = true := by decide +kernel
  have hunstarted : ∀ e ∈ s.queue.history, e.startedAt = none ∧ e.jobId = "job-2" := by decide +kernel
  obtain ⟨ws, hws, -, -, hagrees⟩ := timeout_warning_agrees hl rfl (.ofClock s.loop.now)
  obtain ⟨hiff, hsame⟩ := hagrees fun e he => (hunstarted e (List.mem_of_find?_eq_some he)).1
  have hwarned : warningsOf .timeout ws ≠ [] := fun hno => by
    obtain ⟨vs, hvs, -, htimeout⟩ := warnings_eq (hruns.history rfl).2 s.queue.limits s.queue.waiting.length s.queue.fullEvent
      (.ofClock s.loop.now)
    cases hws.symm.trans hvs
    rw [htimeout, Option.toList_eq_nil_iff, Option.map_eq_none_iff] at hno
    rw [hno] at hfirst
    cases hfirst
  refine ⟨ids, ws, hl, hws, hwarned, hiff.mp hwarned, fun w hw => ?_⟩
  obtain ⟨-, -, -, -, -, e, he, -, hmessage, hat⟩ := hsame w hw
  exact ⟨e, he, (hunstarted e he).2, hmessage, hat⟩

/-- A timeout is warned of though no job was dropped: one failed with an error that mentions a timeout. -/
theorem failed_job_said_overdue :
    ∃ settings store directory budget s ws, Runs (start settings store directory budget) s ∧
      Store.chosen? none settings.historyLimit = some store ∧
      (∀ ids, Lapses (start settings store directory budget) s ids → ids = []) ∧
      s.queue.warnings s.loop.now = .ok ws ∧ warningsOf .timeout ws ≠ [] := by
  let store : Store := .bounded ⟨20, [], by decide⟩
  let fault : Fault := .raised .runtime [.text "GPU queue timeout"]
  let s := ((start (.floored 1 1 180000 20) store "/" 9).giveAll none
    [.enqueue ⟨"a", some [.fail fault], .none, none, .null⟩, .settle]).2
  have hruns : Runs (start (.floored 1 1 180000 20) store "/" 9) s := runs_drives.giveAll _ _ _
  have hstarted : ∀ j ∈ s.queue.jobs, j.startedAt ≠ none := by decide +kernel
  have hfirst : (s.queue.history.find? Entry.isTimeout).isSome = true := by decide +kernel
  obtain ⟨ws, hws, -, htimeout⟩ := warnings_eq (hruns.history rfl).2 s.queue.limits s.queue.waiting.length s.queue.fullEvent
    (.ofClock s.loop.now)
  refine ⟨.floored 1 1 180000 20, store, "/", 9, s, ws, hruns, rfl, fun ids hl => ?_, hws, fun hno => ?_⟩
  · refine List.eq_nil_iff_forall_not_mem.mpr fun id hid => ?_
    obtain ⟨k, hk, hgone, -⟩ := (marked_of_lapses hl).overdue id hid
    exact hstarted k (Queue.job?_mem hk) hgone.2
  · rw [htimeout, Option.toList_eq_nil_iff, Option.map_eq_none_iff] at hno
    rw [hno] at hfirst
    cases hfirst

end Scheduler

end MediaEngine
