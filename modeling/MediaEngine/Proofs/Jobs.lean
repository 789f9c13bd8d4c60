import Mathlib.Data.List.Forall2
import Mathlib.Data.List.Nodup
import MediaEngine.Queue

/-! # The jobs of a queue

How jobs are found by their numbers, and which changes of a job leave alone where it stands and how it
ended (`Job.Tuned`). Most of what scripts do is a change of that kind. -/

namespace MediaEngine

/-- Numbers are told apart by their names. -/
theorem JobId.text_inj {i k : JobId} (h : i.text = k.text) : i = k := by
  have plain : ∀ n : Nat, Number.intText n = String.ofList (Decimal.digits n) := fun n => by
    rw [Number.intText, if_neg (by omega), Int.natAbs_natCast]
  have hd : Decimal.digits i = Decimal.digits k := by
    rw [JobId.text, JobId.text, plain, plain] at h
    simpa [String.ext_iff] using h
  rw [← Nat.ofDigitChars_ten_toDigits (n := i), ← Nat.ofDigitChars_ten_toDigits (n := k)]
  exact congrArg (Nat.ofDigitChars 10 · 0) hd

/-! ## Finding jobs -/

namespace Queue
variable {q : Queue} {id : JobId} {j : Job}

/-- The numbers of all jobs, in order of admission. -/
def ids (q : Queue) : List JobId := q.jobs.map Job.id

theorem job?_mem (h : q.job? id = some j) : j ∈ q.jobs := List.mem_of_find?_eq_some h

theorem job?_id (h : q.job? id = some j) : j.id = id := by
  simpa using List.find?_some h

theorem job?_eq_none_iff : q.job? id = none ↔ id ∉ q.ids := by
  simp [job?, ids]

theorem job?_isSome (h : id ∈ q.ids) : ∃ j, q.job? id = some j := by
  cases hj : q.job? id with
  | none => exact absurd h (job?_eq_none_iff.mp hj)
  | some j => exact ⟨j, rfl⟩

theorem mem_ids (h : j ∈ q.jobs) : j.id ∈ q.ids := List.mem_map_of_mem h

theorem job?_mem_ids (h : q.job? id = some j) : id ∈ q.ids := job?_id h ▸ mem_ids (job?_mem h)

/-- Where numbers are distinct, every job is the one found by its number. -/
theorem job?_of_mem (hn : q.ids.Nodup) (h : j ∈ q.jobs) : q.job? j.id = some j := by
  obtain ⟨k, hk⟩ := job?_isSome (mem_ids h)
  rw [hk, List.inj_on_of_nodup_map hn (job?_mem hk) h (job?_id hk)]

/-- A change that leaves numbers alone changes the one job and no other. -/
theorem job?_update {f : Job → Job} (hf : ∀ j, (f j).id = j.id) (i : JobId) :
    (q.update id f).job? i = if i = id then (q.job? i).map f else q.job? i := by
  have keeps : ((fun j => j.id == i) ∘ fun j => if j.id = id then f j else j) = fun j : Job => j.id == i := by
    funext j
    by_cases hj : j.id = id <;> simp [hj, hf]
  rw [job?, update, List.find?_map, keeps]
  change Option.map _ (q.job? i) = _
  cases hj : q.job? i with
  | none => simp
  | some j => by_cases hi : i = id <;> simp [job?_id hj, hi]

theorem job?_update_self {f : Job → Job} (hf : ∀ j, (f j).id = j.id) (h : q.job? id = some j) :
    (q.update id f).job? id = some (f j) := by
  rw [job?_update hf, if_pos rfl, h]; rfl

theorem job?_update_ne {f : Job → Job} (hf : ∀ j, (f j).id = j.id) {i : JobId} (h : i ≠ id) :
    (q.update id f).job? i = q.job? i := by
  rw [job?_update hf, if_neg h]

theorem ids_update {f : Job → Job} (hf : ∀ j, (f j).id = j.id) : (q.update id f).ids = q.ids := by
  simp only [ids, update, List.map_map]
  refine List.map_congr_left fun j _ => ?_
  by_cases hj : j.id = id <;> simp [hj, hf]

@[simp] theorem ids_enlist (q : Queue) (j : Job) : (q.enlist j).ids = q.ids ++ [j.id] := List.map_append

theorem job?_enlist (h : j.id ∉ q.ids) (i : JobId) :
    (q.enlist j).job? i = if i = j.id then some j else q.job? i := by
  rw [enlist, job?, List.find?_append]
  change (q.job? i).or _ = _
  by_cases hi : i = j.id
  · rw [hi, job?_eq_none_iff.mpr h]
    simp
  · have : (j.id == i) = false := by simpa using Ne.symm hi
    simp [hi, this]

theorem job?_enlist_some {k : Job} (h : q.job? id = some j) : (q.enlist k).job? id = some j := by
  rw [enlist, job?, List.find?_append]
  change (q.job? id).or _ = _
  rw [h]; rfl

/-! ## Moving jobs -/

theorem recover_job? (q : Queue) (id : JobId) : q.recover.job? id = q.job? id := by
  unfold recover
  split <;> rfl

theorem recover_active (q : Queue) : q.recover.active = q.active := by
  unfold recover
  split <;> rfl

/-- Forgetting a refusal changes nothing else. -/
theorem recover_eq (q : Queue) : ∃ e, q.recover = { q with fullEvent := e } := by
  unfold recover
  split
  · exact ⟨q.fullEvent, rfl⟩
  · exact ⟨none, rfl⟩

/-- Remembering that not all were told of an event changes nothing else, and is about its job. -/
theorem breakOff_eq (q : Queue) (event : Job.Event) : ∃ ids, q.breakOff event = { q with brokenOff := ids } ∧
    ∀ id, id ∈ ids ↔ id ∈ q.brokenOff ∨ (event.kind = .finished ∧ id = event.snapshot.id) := by
  unfold breakOff
  by_cases hk : event.kind = .finished
  · exact ⟨q.brokenOff ++ [event.snapshot.id], by rw [if_pos hk], fun id => by simp [hk]⟩
  · exact ⟨q.brokenOff, by rw [if_neg hk], fun id => by simp [hk]⟩

theorem mem_breakOff {event : Job.Event} : id ∈ (q.breakOff event).brokenOff ↔
    id ∈ q.brokenOff ∨ (event.kind = .finished ∧ id = event.snapshot.id) := by
  obtain ⟨ids, hq, hmem⟩ := q.breakOff_eq event
  rw [hq]
  exact hmem id

theorem shift?_eq {r : Queue} (h : q.shift? = some (id, r)) :
    ∃ rest, q.waiting = id :: rest ∧ r = { q with waiting := rest } := by
  unfold shift? at h
  split at h
  · cases h
  · rename_i i rest hw
    cases h
    exact ⟨rest, hw, rfl⟩

theorem startNext?_eq {r : Queue} (h : q.startNext? = some (id, r)) :
    q.hasSlot = true ∧ ∃ rest, q.waiting = id :: rest ∧ r = { q with waiting := rest } := by
  unfold startNext? at h
  split at h
  · rename_i hs
    exact ⟨hs, shift?_eq h⟩
  · cases h

/-- The queue once its next job is active. -/
theorem activate_eq {r : Queue} (h : q.startNext? = some (id, r)) (now : Nat) :
    ∃ rest e, q.waiting = id :: rest ∧ r.recover.activate id now = Queue.update
      { q with waiting := rest, fullEvent := e, active := q.active ++ [id] } id (·.started now) := by
  obtain ⟨-, rest, hw, rfl⟩ := startNext?_eq h
  obtain ⟨e, he⟩ := recover_eq { q with waiting := rest }
  exact ⟨rest, e, hw, by rw [he]; rfl⟩

/-- Taking the first job out of those that wait. -/
theorem withdraw_first {rest : List JobId} (h : q.waiting = id :: rest) :
    q.withdraw id = { q with waiting := rest } := by
  rw [withdraw, h, List.erase_cons_head]

end Queue

/-! ## Changes that leave a job where it stands -/

namespace Job

/-- What was submitted, how the job ended, and what was signalled stay the same. -/
structure Lasts (j k : Job) : Prop where
  id : k.id = j.id
  submission : k.submission = j.submission
  startedAt : k.startedAt = j.startedAt
  finishedAt : k.finishedAt = j.finishedAt
  errorMessage : k.errorMessage = j.errorMessage
  message : k.message = j.message
  finalized : k.finalized = j.finalized
  signalled : j.token.cancelled = true → k.token.cancelled = true
  reason : j.token.cancelled = true → k.token.reason = j.token.reason

/-- Besides the status stays the same. -/
structure Tuned (j k : Job) : Prop extends Lasts j k where
  status : k.status = j.status

variable {j k l : Job}

theorem Lasts.refl (j : Job) : Lasts j j := by constructor <;> simp

theorem Lasts.trans (h₁ : Lasts j k) (h₂ : Lasts k l) : Lasts j l where
  id := h₂.id.trans h₁.id
  submission := h₂.submission.trans h₁.submission
  startedAt := h₂.startedAt.trans h₁.startedAt
  finishedAt := h₂.finishedAt.trans h₁.finishedAt
  errorMessage := h₂.errorMessage.trans h₁.errorMessage
  message := h₂.message.trans h₁.message
  finalized := h₂.finalized.trans h₁.finalized
  signalled h := h₂.signalled (h₁.signalled h)
  reason h := (h₂.reason (h₁.signalled h)).trans (h₁.reason h)

theorem Tuned.refl (j : Job) : Tuned j j := ⟨.refl j, rfl⟩

theorem Tuned.trans (h₁ : Tuned j k) (h₂ : Tuned k l) : Tuned j l :=
  ⟨h₁.toLasts.trans h₂.toLasts, h₂.status.trans h₁.status⟩

end Job

/-! ## What a store keeps -/

namespace Job.Store

/-- The store after an entry was handed to it, whether or not it took the entry. -/
def keep (store : Store) (e : Entry) : Store := (store.record? e).getD store

theorem keep_entries (store : Store) (e : Entry) : ∀ x ∈ (store.keep e).entries, x = e ∨ x ∈ store.entries := by
  intro x hx
  unfold keep at hx
  cases store with
  | bounded history => exact List.mem_cons.mp (List.mem_of_mem_take hx)
  | selective refused entries =>
    rw [record?] at hx
    split at hx
    · exact .inr hx
    · exact List.mem_cons.mp hx

theorem kept_entries (store : Store) (es : List Entry) :
    ∀ x ∈ (es.foldl keep store).entries, x ∈ store.entries ∨ x ∈ es := by
  induction es generalizing store with
  | nil => exact fun x hx => .inl hx
  | cons e rest ih =>
    intro x hx
    rcases ih (store.keep e) x hx with hx | hx
    · rcases store.keep_entries e x hx with rfl | hx
      · exact .inr List.mem_cons_self
      · exact .inl hx
    · exact .inr (List.mem_cons_of_mem e hx)

end Job.Store

namespace Queue
variable {q r : Queue} {id : JobId} {f : Job → Job}

theorem tuned_refl (l : List Job) : List.Forall₂ Job.Tuned l l := List.forall₂_same.mpr fun j _ => .refl j

theorem tuned_trans {l m n : List Job} (h₁ : List.Forall₂ Job.Tuned l m) (h₂ : List.Forall₂ Job.Tuned m n) :
    List.Forall₂ Job.Tuned l n := by
  induction h₁ generalizing n with
  | nil => exact h₂
  | cons hj _ ih =>
    cases h₂ with
    | cons hk h₂ => exact .cons (hj.trans hk) (ih h₂)

/-- A change of one job, tuned, tunes the jobs. -/
theorem tuned_update (hf : ∀ j ∈ q.jobs, j.id = id → Job.Tuned j (f j)) :
    List.Forall₂ Job.Tuned q.jobs (q.update id f).jobs := by
  rw [update, List.forall₂_map_right_iff]
  refine List.forall₂_same.mpr fun j hj => ?_
  by_cases hid : j.id = id
  · simpa [hid] using hf j hj hid
  · simpa [hid] using Job.Tuned.refl j

theorem tuned_ids (h : List.Forall₂ Job.Tuned q.jobs r.jobs) : r.ids = q.ids := by
  unfold ids
  generalize q.jobs = l, r.jobs = m at h
  induction h with
  | nil => rfl
  | cons hj _ ih => rw [List.map_cons, List.map_cons, ih, hj.id]

/-- What is found among tuned jobs was tuned. -/
theorem tuned_job? (h : List.Forall₂ Job.Tuned q.jobs r.jobs) (id : JobId) :
    Option.Rel Job.Tuned (q.job? id) (r.job? id) := by
  unfold job?
  generalize q.jobs = l, r.jobs = m at h
  induction h with
  | nil => exact .none
  | @cons j k _ _ hj _ ih =>
    rw [List.find?_cons, List.find?_cons, hj.id]
    cases j.id == id
    · exact ih
    · exact .some hj

theorem tuned_job?_some (h : List.Forall₂ Job.Tuned q.jobs r.jobs) {j : Job} (hj : q.job? id = some j) :
    ∃ k, r.job? id = some k ∧ Job.Tuned j k := by
  have hr := tuned_job? h id
  rw [hj] at hr
  cases hk : r.job? id with
  | none => rw [hk] at hr; cases hr
  | some k => rw [hk] at hr; cases hr with | some ht => exact ⟨k, rfl, ht⟩

theorem tuned_job?_none (h : List.Forall₂ Job.Tuned q.jobs r.jobs) (hj : q.job? id = none) : r.job? id = none := by
  rw [job?_eq_none_iff] at hj ⊢
  rwa [tuned_ids h]

/-! ## Jobs that stay known -/

/-- Every job of the one queue is known to the other, with what was submitted. -/
def Knows (q r : Queue) : Prop :=
  ∀ id j, q.job? id = some j → ∃ k, r.job? id = some k ∧ k.submission = j.submission

theorem Knows.refl (q : Queue) : Knows q q := fun _ j hj => ⟨j, hj, rfl⟩

theorem Knows.trans {p : Queue} (h₁ : Knows q r) (h₂ : Knows r p) : Knows q p := by
  intro id j hj
  obtain ⟨k, hk, hjk⟩ := h₁ id j hj
  obtain ⟨l, hl, hkl⟩ := h₂ id k hk
  exact ⟨l, hl, hkl.trans hjk⟩

theorem Knows.of_tuned (h : List.Forall₂ Job.Tuned q.jobs r.jobs) : Knows q r := by
  intro id j hj
  obtain ⟨k, hk, ht⟩ := tuned_job?_some h hj
  exact ⟨k, hk, ht.submission⟩

theorem Knows.update (q : Queue) (id : JobId) {f : Job → Job} (hf : ∀ j, (f j).id = j.id)
    (hs : ∀ j, (f j).submission = j.submission) : Knows q (q.update id f) := by
  intro i j hj
  by_cases hi : i = id
  · subst hi
    exact ⟨f j, job?_update_self hf hj, hs j⟩
  · exact ⟨j, (job?_update_ne hf hi).trans hj, rfl⟩

theorem Knows.activate (q : Queue) (id : JobId) (now : Nat) : Knows q (q.activate id now) :=
  Knows.update { q with active := q.active ++ [id] } id (f := (·.started now)) (fun _ => rfl) fun _ => rfl

theorem Knows.recover (q : Queue) : Knows q q.recover := fun id j hj => ⟨j, (recover_job? q id).trans hj, rfl⟩

theorem Knows.start {p : Queue} (h : q.startNext? = some (id, p)) (now : Nat) :
    Knows q (p.recover.activate id now) := by
  obtain ⟨-, rest, -, rfl⟩ := startNext?_eq h
  have hr : Knows q (Queue.recover { q with waiting := rest }) := Knows.recover { q with waiting := rest }
  exact hr.trans (.activate _ _ _)

theorem Knows.enlist (q : Queue) (k : Job) : Knows q (q.enlist k) := fun _ j hj => ⟨j, job?_enlist_some hj, rfl⟩

/-! ## What is recorded -/

/-- No job is lost, the limits are the same, and what is recorded on the way is handed to the store. -/
structure Continues (q r : Queue) : Prop where
  knows : Knows q r
  settings : r.settings = q.settings
  handed : ∃ es, r.recorded = q.recorded ++ es ∧ r.store = es.foldl Job.Store.keep q.store

namespace Continues
variable {p : Queue}

theorem of_knows (hk : Knows q r) (hs : r.settings = q.settings) (hr : r.recorded = q.recorded)
    (ht : r.store = q.store) : Continues q r where
  knows := hk
  settings := hs
  handed := ⟨[], by rw [hr, List.append_nil], ht⟩

theorem refl (q : Queue) : Continues q q := .of_knows (.refl q) rfl rfl rfl

theorem trans (h₁ : Continues q r) (h₂ : Continues r p) : Continues q p where
  knows := h₁.knows.trans h₂.knows
  settings := h₂.settings.trans h₁.settings
  handed := by
    obtain ⟨es, hr, hs⟩ := h₁.handed
    obtain ⟨es', hr', hs'⟩ := h₂.handed
    exact ⟨es ++ es', by rw [hr', hr, List.append_assoc], by rw [hs', hs, List.foldl_append]⟩

/-- The history gains only what was recorded. -/
theorem history (h : Continues q r) : ∀ e ∈ r.history, e ∈ q.history ∨ e ∈ r.recorded := by
  intro e he
  obtain ⟨es, hr, hs⟩ := h.handed
  rw [Queue.history, hs] at he
  rw [hr]
  exact (q.store.kept_entries es e he).imp_right (List.mem_append_right _)

theorem breakOff (q : Queue) (event : Job.Event) : Continues q (q.breakOff event) := by
  obtain ⟨ids, hq, -⟩ := q.breakOff_eq event
  rw [hq]
  exact .of_knows (.refl q) rfl rfl rfl

theorem hand (q : Queue) (e : Job.Entry) : Continues q (q.hand e (q.store.record? e)) where
  knows _ j hj := ⟨j, hj, rfl⟩
  settings := rfl
  handed := ⟨[e], rfl, rfl⟩

end Continues

end Queue

end MediaEngine
