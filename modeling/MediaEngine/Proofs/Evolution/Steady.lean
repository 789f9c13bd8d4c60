import MediaEngine.Proofs.Evolution

/-! # Steady changes

The changes that move no job: of the loop, of a job's progress or token, of the subscriptions, of a
task's turn. -/

namespace MediaEngine.Scheduler
open Job
variable {s t u : Scheduler}

theorem Stays.of_queue (h : t.queue = s.queue) : Stays s t where
  continues := by rw [h]; exact .refl _
  jobs := by rw [h]; exact Queue.tuned_refl _
  nextId := Nat.le_of_eq (by rw [h])
  waiting := by rw [h]
  active := by rw [h]
  filed e he := .inl (h ▸ he)
  brokenOff := by rw [h]

theorem Stays.refl (s : Scheduler) : Stays s s := .of_queue rfl

theorem Stays.trans (h₁ : Stays s t) (h₂ : Stays t u) : Stays s u where
  continues := h₁.continues.trans h₂.continues
  jobs := Queue.tuned_trans h₁.jobs h₂.jobs
  nextId := Nat.le_trans h₁.nextId h₂.nextId
  waiting := h₂.waiting.trans h₁.waiting
  active := h₂.active.trans h₁.active
  filed e he := by
    rcases h₂.filed e he with he | ⟨id, hid, h⟩
    · exact h₁.filed e he
    · exact .inr ⟨id, Queue.tuned_ids h₁.jobs ▸ hid, h⟩
  brokenOff := h₂.brokenOff.trans h₁.brokenOff

theorem Steady.refl (s : Scheduler) : Steady s s where
  toStays := .refl s
  store := rfl
  recorded := rfl
  lives _ _ h := h
  notes := ⟨[], (List.append_nil _).symm, by simp⟩

theorem Steady.trans (h₁ : Steady s t) (h₂ : Steady t u) : Steady s u where
  toStays := h₁.toStays.trans h₂.toStays
  store := h₂.store.trans h₁.store
  recorded := h₂.recorded.trans h₁.recorded
  lives i id h := h₁.lives i id (h₂.lives i id h)
  notes := by
    obtain ⟨ns, hns, hp⟩ := h₁.notes
    obtain ⟨ms, hms, hq⟩ := h₂.notes
    refine ⟨ns ++ ms, by rw [hms, hns, List.append_assoc], fun n hn => ?_⟩
    rcases List.mem_append.mp hn with hn | hn
    · exact hp n hn
    · exact hq n hn

theorem Steady.noted {n : Queue.Note} (h : n.isPlain = true) : Steady s (s.noted n) where
  __ := Steady.refl s
  notes := ⟨[n], rfl, by simpa using h⟩

/-! ## Tasks -/

/-- A change of one task that neither makes it the task of a job nor takes it up again. -/
theorem lives_modify {k : TaskId} {g : Task → Task} {l : Loop TimerAction}
    (hg : ∀ t, s.tasks[k]? = some t → ∀ id, (g t).work.owner? = some id → (g t).turn ≠ .over →
      t.work.owner? = some id ∧ t.turn ≠ .over) (i : TaskId) (id : JobId)
    (h : Lives { s with tasks := s.tasks.modify k g, loop := l } i id) : s.Lives i id := by
  obtain ⟨t, ht, ho, hl⟩ := h
  change (s.tasks.modify k g)[i]? = some t at ht
  by_cases hk : k = i
  · subst hk
    rw [List.getElem?_modify_eq] at ht
    cases hi : s.tasks[k]? with
    | none => rw [hi] at ht; cases ht
    | some t₀ =>
      rw [hi] at ht
      cases ht
      obtain ⟨ho', hl'⟩ := hg t₀ hi id ho hl
      exact ⟨t₀, hi, ho', hl'⟩
  · rw [List.getElem?_modify_ne _ _ hk] at ht
    exact ⟨t, ht, ho, hl⟩

theorem woken_over (t : Task) (h : t.woken.turn ≠ .over) : t.turn ≠ .over := by
  intro ht
  rw [Task.woken, if_pos ht] at h
  exact h ht

theorem woken_work (t : Task) : t.woken.work = t.work := by
  unfold Task.woken
  split <;> rfl

/-! ## What closes a telling -/

theorem Spawned.queue {id : JobId} {b : Bool} (h : Spawned id b s t) : t.queue = s.queue := by
  cases b <;> cases h <;> rfl

theorem Spawned.stays {id : JobId} {b : Bool} (h : Spawned id b s t) : Stays s t := .of_queue h.queue

theorem Asked.stays {id : JobId} {b : Bool} (h : Asked id b s t) : Stays s t := by
  cases b
  · obtain ⟨u, hu, -, rfl⟩ := h
    exact hu.toStays.trans (.of_queue rfl)
  · cases h
    exact .refl s

theorem keep_stays (s : Scheduler) (id : JobId) (path : Option String) : Stays s (s.keep id path) := by
  unfold keep
  cases hj : s.queue.job? id with
  | none => exact .refl s
  | some j =>
    refine { Stays.refl s with continues := .hand s.queue _, filed := fun e he => ?_ }
    rcases List.mem_append.mp he with he | he
    · exact .inl he
    · rw [List.mem_singleton.mp he]
      exact .inr ⟨id, Queue.job?_mem_ids hj, congrArg JobId.text (Queue.job?_id hj)⟩

theorem Kept.stays {id : JobId} {path : Option String} {b : Bool} (h : Kept id path b s t) : Stays s t := by
  cases b
  · exact (keep_stays s id path).trans h.toStays
  · rw [h.1]
    exact .refl s

end MediaEngine.Scheduler
