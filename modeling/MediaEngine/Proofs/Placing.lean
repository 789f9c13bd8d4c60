import MediaEngine.Proofs.Onward

/-! # Every evolution goes onward

One lemma for each way to evolve, for the number it is about; about all other numbers nothing differs.
A telling is a bracket around an evolution: what precedes it and what closes it are about one number. -/

namespace MediaEngine.Scheduler
open Job

section Steps
variable {told : Option Event} {b : Bool} {s t u : Scheduler} {id i : JobId} {j : Job}

/-! ## Notes -/

theorem hasAsked_append {ns : List Queue.Note} (h : t.notes = s.notes ++ ns) (hp : ∀ n ∈ ns, n.isPlain = true) :
    t.HasAsked id ↔ s.HasAsked id := by
  rw [HasAsked, HasAsked, h, List.mem_append]
  refine ⟨fun hm => hm.elim (fun hm => hm) fun hm => ?_, .inl⟩
  cases hp _ hm

theorem hasTold_append {ns : List Queue.Note} (h : t.notes = s.notes ++ ns) (hp : ∀ n ∈ ns, n.isPlain = true)
    {status : Job.Status} (ht : t.HasTold id status) : s.HasTold id status := by
  obtain ⟨who, event, hm, hk, hrest⟩ := ht
  rw [h] at hm
  rcases List.mem_append.mp hm with hm | hm
  · exact ⟨who, event, hm, hk, hrest⟩
  · have := hp _ hm
    rw [Queue.Note.isPlain, hk] at this
    cases this

theorem hasTold_logged {line : Queue.LogLine} {status : Job.Status}
    (h : (s.noted (.logged line)).HasTold id status) : s.HasTold id status := by
  obtain ⟨who, event, hm, hrest⟩ := h
  rw [noted_notes, List.mem_append, List.mem_singleton] at hm
  rcases hm with hm | hm
  · exact ⟨who, event, hm, hrest⟩
  · cases hm

/-! ## Steady changes -/

theorem Steady.same (h : Steady s t) (hu : s.Upcoming id → t.Upcoming id) : Same s t id where
  upcoming := by
    refine ⟨fun ht => ?_, hu⟩
    rcases ht with hw | hn
    · exact .inl (h.waiting ▸ hw)
    · exact .inr (Nat.le_trans h.nextId hn)
  active := by rw [h.active]
  entries := by rw [entriesOf, h.recorded]; rfl
  lives i hi := h.lives i id hi
  asked := by
    obtain ⟨ns, hns, hp⟩ := h.notes
    exact hasAsked_append hns hp
  told status ht := by
    obtain ⟨ns, hns, hp⟩ := h.notes
    exact hasTold_append hns hp ht
  job := Queue.tuned_job? h.jobs id
  brokenOff := by rw [h.brokenOff]
  settings := h.continues.settings

/-- Only a number that was drawn for nothing changes its place. -/
theorem Steady.onward (h : Steady s t) (hf : Fit s) (hfr : Fresh s) (id : JobId) : Onward told b s t id := by
  by_cases hu : s.Upcoming id → t.Upcoming id
  · exact .of_same (h.same hu) hfr
  obtain ⟨hs, ht⟩ := Classical.not_imp.mp hu
  refine ⟨fun hn => absurd hs hn, fun _ => ?_⟩
  have hfresh : s.queue.nextId ≤ id := by
    rcases hs with hw | hn
    · exact absurd (.inl (h.waiting ▸ hw)) ht
    · exact hn
  have hnone : s.queue.job? id = none := Queue.job?_eq_none_iff.mpr fun hm =>
    Nat.lt_irrefl _ (Nat.lt_of_lt_of_le (hf.fresh id hm) hfresh)
  have hb := hfr id hs
  obtain ⟨ns, hns, hp⟩ := h.notes
  refine .skipped ht (Queue.tuned_job?_none h.jobs hnone) (fun hm => hf.apart id (h.active ▸ hm) hs) ⟨?_, ?_, ?_, ?_⟩
  · rw [entriesOf, h.recorded]
    exact hb.entries
  · exact fun i hi => hb.idle i (h.lives i id hi)
  · exact fun ha => hb.unasked ((hasAsked_append hns hp).mp ha)
  · refine ⟨fun status ht => hb.untold.told status (hasTold_append hns hp ht), ?_⟩
    rw [h.brokenOff]
    exact hb.untold.brokenOff

/-! ## Telling an event -/

theorem same_noted {n : Queue.Note} (ha : n ≠ .logged (.asked id))
    (ht : ∀ who event, n = .heard who event → event.kind = .finished → event.snapshot.id ≠ id) :
    Same s (s.noted n) id where
  __ := Same.refl s id
  asked := by
    rw [HasAsked, HasAsked, noted_notes, List.mem_append, List.mem_singleton]
    exact or_iff_left (Ne.symm ha)
  told status h := by
    obtain ⟨who, event, hm, hk, hid, hs⟩ := h
    rw [noted_notes, List.mem_append, List.mem_singleton] at hm
    rcases hm with hm | hm
    · exact ⟨who, event, hm, hk, hid, hs⟩
    · exact absurd hid (ht who event hm.symm hk)

theorem hear_onward {event : Event} (who : String) (hf : Fresh s) (hp : ¬ s.Upcoming event.snapshot.id)
    (id : JobId) : Onward (some event) b s (s.noted (.heard who event)) id := by
  by_cases hid : event.snapshot.id = id
  · subst hid
    refine ⟨fun hu => ?_, fun hu => absurd hu hp⟩
    -- The note is of the event that is told, and of nothing else.
    have hasked : (s.noted (.heard who event)).HasAsked event.snapshot.id ↔ s.HasAsked event.snapshot.id := by
      simp [HasAsked]
    exact {
      Frame.of_same (Same.refl s _) hu with
      told := fun status h => by
        obtain ⟨w, e, hm, hk, hid, hs⟩ := h
        rw [noted_notes, List.mem_append, List.mem_singleton] at hm
        rcases hm with hm | hm
        · exact .inl ⟨w, e, hm, hk, hid, hs⟩
        · cases hm
          exact .inr ⟨event, rfl, rfl, hs⟩
      asked := hasked.mpr
      quiet := fun _ => hasked.mp
      job := fun j hj => ⟨j, hj, .refl j, .still rfl hasked.mp⟩ }
  · refine .of_same (same_noted (fun h => by cases h) fun w e h _ => ?_) hf
    cases h
    exact hid

theorem breakOff_onward {event : Event} (h : Onward (some event) true s t id) (hp : ¬ s.Upcoming event.snapshot.id) :
    Onward (some event) true s (t.mapQueue (·.breakOff event)) id := by
  obtain ⟨ids, hq, hmem⟩ := t.queue.breakOff_eq event
  rw [mapQueue, hq]
  constructor
  · intro hu
    have hframe : Frame (some event) true t t id := .of_same (.refl t id) (h.frame hu).past
    refine (h.frame hu).trans {
      hframe with
      brokenOff := fun hb => ?_
      broken := fun hb => (hmem id).mpr (.inl hb)
      job := fun j hj => ⟨j, hj, .refl j, .still rfl fun h => h⟩ }
    exact ((hmem id).mp hb).imp_right fun h => ⟨rfl, event, rfl, h.2.symm⟩
  · intro hu
    have hid : id ≠ event.snapshot.id := fun hid => hp (hid ▸ hu)
    exact (h.placed hu).same { Same.refl t id with brokenOff := (hmem id).trans (or_iff_left fun hm => hid hm.2) }

/-! ## Admission -/

theorem enroll_onward (submission : Submission) (progress : Progress) (hfit : Fit s) (hf : Fresh s) (id : JobId) :
    Onward told b s (s.mapQueue fun q => q.draw.enlist (.admitted q.nextId submission progress)) id := by
  by_cases hid : id = s.queue.nextId
  · refine ⟨fun hu => absurd (.inr (Nat.le_of_eq hid.symm)) hu, fun hu => ?_⟩
    have hb := hf id hu
    exact .upcoming (.inl (List.mem_append_right _ (List.mem_singleton.mpr hid)))
      ⟨hb.entries, hb.idle, hb.unasked, hb.untold.told, hb.untold.brokenOff⟩
  · refine .of_same { Same.refl s id with upcoming := ?_, job := ?_ } hf
    · constructor
      · rintro (hw | hn)
        · rcases List.mem_append.mp hw with hw | hw
          · exact .inl hw
          · exact absurd (List.mem_singleton.mp hw) hid
        · exact .inr (Nat.le_of_succ_le hn)
      · rintro (hw | hn)
        · exact .inl (List.mem_append_left _ hw)
        · exact .inr (Nat.lt_of_le_of_ne hn (Ne.symm hid))
    · rw [mapQueue_queue, hfit.job?_admitted submission progress, if_neg hid]
      exact Same.rel_refl _

/-! ## Changes about another number -/

theorem same_update {f : Job → Job} (hf : ∀ j, (f j).id = j.id) (l : Loop TimerAction) (hi : i ≠ id) :
    Same s { s with queue := s.queue.update id f, loop := l } i := by
  refine { Same.refl s i with job := ?_ }
  rw [Queue.job?_update_ne hf hi]
  exact Same.rel_refl _

theorem same_withdraw (l : Loop TimerAction) (hi : i ≠ id) :
    Same s { s with queue := s.queue.withdraw id, loop := l } i where
  __ := Same.refl s i
  upcoming := or_congr (List.mem_erase_of_ne hi) .rfl

theorem same_take {q : Queue} (hq : s.queue.startNext? = some (id, q)) (now : Nat) (l : Loop TimerAction) (hi : i ≠ id) :
    Same s { s with queue := q.recover.activate id now, loop := l } i := by
  obtain ⟨-, rest, hw, rfl⟩ := Queue.startNext?_eq hq
  obtain ⟨e, he⟩ := Queue.recover_eq { s.queue with waiting := rest }
  rw [he]
  refine { Same.refl s i with upcoming := ?_, active := ?_, job := ?_ }
  · refine or_congr ?_ .rfl
    rw [hw, List.mem_cons]
    exact ⟨.inr, fun h => h.resolve_left hi⟩
  · constructor
    · intro hm
      rcases List.mem_append.mp hm with hm | hm
      · exact hm
      · exact absurd (List.mem_singleton.mp hm) hi
    · exact List.mem_append_left _
  · rw [Queue.activate, Queue.job?_update_ne (by intro; rfl) hi]
    exact Same.rel_refl _

theorem lives_spawn {phase : Phase} (h : Lives (s.spawn (.job id phase)) k i) :
    s.Lives k i ∨ (k = s.tasks.length ∧ i = id) := by
  obtain ⟨t, ht, ho, hl⟩ := h
  change (s.tasks ++ [_])[k]? = some t at ht
  rw [List.getElem?_append] at ht
  split at ht
  · exact .inl ⟨t, ht, ho, hl⟩
  · rename_i hk
    rw [List.getElem?_singleton] at ht
    split at ht
    · rename_i h0
      cases ht
      cases ho
      exact .inr ⟨Nat.le_antisymm (Nat.sub_eq_zero_iff_le.mp h0) (Nat.le_of_not_lt hk), rfl⟩
    · cases ht

theorem same_spawned (h : Spawned id b s t) (hi : i ≠ id) : Same s t i := by
  cases b <;> cases h
  · refine { Same.refl s i with lives := fun k hk => ?_ }
    rcases lives_spawn hk with h | ⟨-, h⟩
    · exact h
    · exact absurd h hi
  · exact .refl s i

/-- The entries after one more was handed to the store. -/
theorem entriesOf_keep (hj : s.queue.job? id = some j) (path : Option String) (i : JobId) :
    (s.keep id path).entriesOf i = s.entriesOf i ++ if i = id then [j.entry path] else [] := by
  rw [keep, hj]
  change (s.queue.recorded ++ [j.entry path]).filter _ = _
  rw [List.filter_append, List.filter_singleton]
  congr 1
  have hname : (j.entry path).jobId = id.text := congrArg JobId.text (Queue.job?_id hj)
  by_cases hi : i = id
  · rw [hname, hi]
    simp
  · rw [hname, if_neg hi, beq_eq_false_iff_ne.mpr fun h => hi (JobId.text_inj h).symm]
    rfl

theorem same_keep (path : Option String) (hi : i ≠ id) : Same s (s.keep id path) i := by
  cases hj : s.queue.job? id with
  | none =>
    rw [keep, hj]
    exact .refl s i
  | some j =>
    have he := entriesOf_keep hj path i
    rw [if_neg hi, List.append_nil] at he
    rw [keep, hj] at he ⊢
    exact { Same.refl s i with entries := he }

/-! ## Brackets -/

/-- About every number but the one that is told of, a bracket does what the evolution inside it does. -/
theorem bracket_onward {told' : Option Event} {s₁ : Scheduler} (hp : Past told s) (hf : Fresh s)
    (hopen : Same s s₁ i) (hin : Onward told' b s₁ t i) (hclose : Onward told b t u i)
    (hid : ∀ event, told' = some event → event.snapshot.id ≠ i) : Onward told b s u i := by
  have h₁ : Onward told b s s₁ i := .of_same hopen hf
  exact (h₁.next hp (hin.other hid)).next hp hclose

/-- A job that is about to be told of is not upcoming any longer, and all others are fresh. -/
theorem fresh_open {s₁ : Scheduler} (hf : Fresh s) (hn : ¬ s₁.Upcoming id) (hs : ∀ i, i ≠ id → Same s s₁ i) :
    Fresh s₁ := by
  intro i hi
  have hne : i ≠ id := fun h => hn (h ▸ hi)
  exact (hs i hne).blank (hf i ((hs i hne).upcoming.mp hi))

theorem spawned_onward (h : Spawned id b t u) (hf : Fresh t) (hi : i ≠ id) : Onward told b t u i :=
  .of_same (same_spawned h hi) hf

theorem asked_onward (h : Asked id b t u) (hfit : Fit t) (hf : Fresh t) (hi : i ≠ id) (hp : Past told t) :
    Onward told b t u i := by
  cases b
  · obtain ⟨v, hv, -, rfl⟩ := h
    have hsteady : ∀ i, Onward told false t v i := hv.onward hfit hf
    refine (hsteady i).next hp (.of_same (same_noted (fun he => ?_) fun _ _ he => by cases he) ?_)
    · cases he
      exact hi rfl
    · exact Onward.fresh hsteady (hfit.stays hv.toStays)
  · cases h
    exact .of_same (.refl t i) hf

theorem keep_upcoming (s : Scheduler) (i : JobId) (path : Option String) (id : JobId) :
    (s.keep i path).Upcoming id ↔ s.Upcoming id := by
  unfold keep
  split <;> rfl

theorem fresh_keep {path : Option String} (hf : Fresh t) (hid : ¬ t.Upcoming id) : Fresh (t.keep id path) :=
  fresh_open hf (fun h => hid ((keep_upcoming t id path id).mp h)) fun _ hk => same_keep path hk

theorem kept_onward {path : Option String} (h : Kept id path b t u) (hfit : Fit t) (hf : Fresh t)
    (hid : ¬ t.Upcoming id) (hi : i ≠ id) (hp : Past told t) : Onward told b t u i := by
  cases b
  · refine (Onward.of_same (same_keep path hi) hf).next hp ?_
    exact Steady.onward h (hfit.stays (keep_stays t id path)) (fresh_keep hf hid) i
  · obtain ⟨rfl, -⟩ := h
    exact .of_same (.refl u i) hf

/-! ## Starting -/

/-- A job that starts is active, and it has no task yet. -/
theorem take_placed {q : Queue} (hfit : Fit s) (hf : Fresh s) (hq : s.queue.startNext? = some (id, q)) (now : Nat)
    (l : Loop TimerAction) :
    let s₁ : Scheduler := { s with queue := q.recover.activate id now, loop := l }
    s₁.Placed id ∧ id ∈ s₁.queue.active ∧ ∀ i, ¬ s₁.Lives i id := by
  obtain ⟨rest, e, hw, he⟩ := Queue.activate_eq hq now
  have hid : id ∈ s.queue.waiting := by rw [hw]; exact List.mem_cons_self
  have hb := hf id (.inl hid)
  obtain ⟨j, hj, hopen⟩ := hfit.waits id hid
  have hact : id ∈ s.queue.active ++ [id] := List.mem_append_right _ (List.mem_singleton.mpr rfl)
  rw [he]
  refine ⟨.active (j.started now) hact (Queue.job?_update_self (by intro; rfl) hj) hopen hb.entries
    ⟨hb.untold.told, hb.untold.brokenOff⟩ (fun ha => absurd ha hb.unasked) fun i k hi _ => absurd hi (hb.idle i), hact, hb.idle⟩

theorem spawn_placed {phase : Phase} (h : t.Placed id) (hfit : Fit t) (ha : id ∈ t.queue.active) (hn : ∀ i, ¬ t.Lives i id) :
    (t.spawn (.job id phase)).Placed id := by
  cases h with
  | active j _ hj ho hr ht hq _ =>
    refine .active j ha hj ho hr ⟨ht.told, ht.brokenOff⟩ hq fun i k hi hk => ?_
    rcases lives_spawn hi with h | ⟨hi, -⟩
    · exact absurd h (hn i)
    rcases lives_spawn hk with h | ⟨hk, -⟩
    · exact absurd h (hn k)
    exact hi.trans hk.symm
  | upcoming hu _ => exact absurd hu (hfit.apart id ha)
  | skipped _ _ hna _ => exact absurd ha hna
  | stray j _ hna _ _ _ _ => exact absurd ha hna
  | gone j _ hna _ _ _ _ => exact absurd ha hna

/-- A job that starts is active, and once all were told of it its task is there. -/
theorem start_placed {q : Queue} {now : Nat} {l : Loop TimerAction} (hfit : Fit s) (hf : Fresh s)
    (hq : s.queue.startNext? = some (id, q)) (hfit' : Fit t)
    (hin : Onward none b { s with queue := q.recover.activate id now, loop := l } t id)
    (hc : Spawned id b t u) : u.Placed id := by
  obtain ⟨hp, ha, hn⟩ := take_placed hfit hf hq now l
  have hpast := (hfit.take hq now l).apart id ha
  have hframe := hin.frame hpast
  have ht : t.Placed id := hp.frame hpast hframe nothing_told
  cases b <;> cases hc
  · exact spawn_placed ht hfit' (hframe.active.mpr ha) fun i hi => hn i (hframe.lives i hi)
  · exact ht

/-! ## Asking -/

/-- A job that is asked to stop stays where it is. -/
theorem ask_frame (hfit : Fit s) (hid : id ∈ s.queue.active) (hj : s.queue.job? id = some j)
    (hne : j.status ≠ .cancelling) (hne' : j.status ≠ .canceled) (hfit' : Fit u)
    (hin : Onward none b (s.mapQueue (·.update id fun j => { j with status := .cancelling })) t id)
    (hc : Asked id b t u) : Frame told b s u id := by
  have hjob₁ : (s.queue.update id fun j => { j with status := .cancelling }).job? id =
      some { j with status := .cancelling } := Queue.job?_update_self (by intro; rfl) hj
  have hframe := hin.frame (hfit.apart id hid)
  obtain ⟨k, hk, hlast, hs⟩ := hframe.job _ hjob₁
  have hjk : Lasts j k := by exact { hlast with }
  obtain ⟨hst, hback⟩ : k.status = .cancelling ∧ (t.HasAsked id → s.HasAsked id) := by
    cases hs with
    | still hst hback => exact ⟨hst, hback⟩
    | asked _ hne _ _ _ _ => exact absurd rfl hne
  have hact := hframe.active.mpr hid
  obtain ⟨htold, hbroken⟩ := hframe.told_iff nothing_told
  -- Unless a listener broke off, the token of the job is signalled next.
  cases b
  · obtain ⟨v, hv, hcan, rfl⟩ := hc
    obtain ⟨l, hl, hkl⟩ := Queue.tuned_job?_some hv.jobs hk
    have hsig : l.token.cancelled = true := by
      rw [Queue.isCancelled, hl] at hcan
      exact hcan
    have hsame : Same t v id := hv.same fun h => absurd h hframe.past
    exact {
      past := hfit'.apart id (hsame.active.mpr hact)
      active := hsame.active.trans hframe.active
      entries := hsame.entries.trans hframe.entries
      lives := fun i hi => hframe.lives i (hsame.lives i hi)
      told := fun status ht => .inl (htold status (hsame.told status (hasTold_logged ht)))
      asked := fun ha => List.mem_append_left _ (hsame.asked.mpr (hframe.asked ha))
      quiet := fun h => absurd hid h
      unknown := fun h => by rw [hj] at h; cases h
      brokenOff := fun hb => .inl (hbroken.mp (hsame.brokenOff.mp hb))
      broken := fun hb => hsame.brokenOff.mpr (hbroken.mpr hb)
      settings := hsame.settings.trans hframe.settings
      job := fun j' hj' => by
        cases hj.symm.trans hj'
        refine ⟨l, hl, hjk.trans hkl.toLasts, .asked hid hne hne' (hkl.status.trans hst) (fun _ => ?_) fun _ => .inr hsig⟩
        exact List.mem_append_right _ (List.mem_singleton.mpr rfl) }
  · cases hc
    exact { hframe with
      told := fun status ht => .inl (htold status ht)
      brokenOff := fun hb => .inl (hbroken.mp hb)
      quiet := fun h => absurd hid h
      unknown := fun h => by rw [hj] at h; cases h
      job := fun j' hj' => by
        cases hj.symm.trans hj'
        exact ⟨k, hk, hjk, .asked hid hne hne' hst (fun h => by cases h) fun h => .inl (hback h)⟩ }

/-! ## Ending -/

/-- What is there of a job once its end was told; `s` is where the telling began. -/
structure Told (s t : Scheduler) (id : JobId) (k : Job) : Prop where
  job : t.queue.job? id = some k
  finalized : k.finalized = true
  closed : t.Closed id k
  past : ¬ t.Upcoming id
  active : id ∈ t.queue.active ↔ id ∈ s.queue.active
  lives : ∀ i, t.Lives i id → s.Lives i id

/-- The entry shows the status that was told, or that the job was asked to stop meanwhile. -/
theorem keep_closed {status : Job.Status} {now : Nat} {path errorMessage message : Option String}
    (hf : Frame (some ⟨.finished, (j.ended now status errorMessage message).snapshot⟩) false s t id)
    (hterm : status.isTerminal = true)
    (hj : s.queue.job? id = some (j.ended now status errorMessage message)) (hr : s.entriesOf id = [])
    (hn : s.Untold id) (hq : s.HasAsked id → status = .canceled) :
    ∃ k, t.queue.job? id = some k ∧ (t.keep id path).Closed id k := by
  obtain ⟨k, hk, -, hs⟩ := hf.job _ hj
  have hentries := entriesOf_keep hk path id
  rw [if_pos rfl, hf.entries, hr, List.nil_append] at hentries
  have hnotes : (t.keep id path).notes = t.notes := by
    rw [keep, hk]
    rfl
  have hbroken : (t.keep id path).queue.brokenOff = t.queue.brokenOff := (keep_stays t id path).brokenOff
  refine ⟨k, hk, .filed (k.entry path) (fun hb => ?_) hentries rfl rfl ⟨status, hterm, fun told ht => ?_, ?_⟩⟩
  · rw [hbroken] at hb
    rcases hf.brokenOff hb with h | ⟨h, -⟩
    · exact hn.brokenOff h
    · cases h
  · rw [HasTold, hnotes] at ht
    rcases hf.told told ht with h | ⟨event, he, -, hst⟩
    · exact absurd h (hn.told told)
    · cases he
      exact hst.symm
  · rw [HasAsked, hnotes]
    cases hs with
    | still hst hback => exact .inl ⟨hst, fun ha => hq (hback ha)⟩
    | asked _ _ hne hst hback _ => exact .inr ⟨hst, hne, hback rfl⟩

theorem ended_told {status : Job.Status} {now : Nat} {path errorMessage message : Option String}
    (hf : Frame (some ⟨.finished, (j.ended now status errorMessage message).snapshot⟩) b s t id)
    (hc : Kept id path b t u) (hterm : status.isTerminal = true)
    (hj : s.queue.job? id = some (j.ended now status errorMessage message)) (hr : s.entriesOf id = [])
    (hn : s.Untold id) (hq : s.HasAsked id → status = .canceled) : ∃ k, Told s u id k := by
  obtain ⟨k, hk, hlast, hs⟩ := hf.job _ hj
  cases b
  · obtain ⟨k', hk', hclosed⟩ := keep_closed hf hterm hj hr hn hq
    cases hk.symm.trans hk'
    have hsteady : Steady (t.keep id path) u := hc
    have hpast : ¬ (t.keep id path).Upcoming id := fun h => hf.past ((keep_upcoming t id path id).mp h)
    have hsame : Same (t.keep id path) u id := hsteady.same fun h => absurd h hpast
    have hstays := keep_stays t id path
    obtain ⟨l, hl, hkl⟩ := Queue.tuned_job?_some (hstays.trans hsteady.toStays).jobs hk
    have hlives : ∀ i, (t.keep id path).Lives i id → t.Lives i id := by
      rw [keep, hk]
      exact fun _ h => h
    obtain ⟨k₁, hk₁, hkk₁⟩ := Queue.tuned_job?_some hstays.jobs hk
    obtain ⟨l₁, hl₁, hkl₁⟩ := hsame.job_some hk₁
    cases hl.symm.trans hl₁
    refine ⟨l, hl, (hkl.finalized.trans hlast.finalized), hclosed.same hsame hkl.status, fun h => hpast (hsame.upcoming.mp h),
      ?_, fun i hi => hf.lives i (hlives i (hsame.lives i hi))⟩
    rw [hsame.active, hstays.active]
    exact hf.active
  · obtain ⟨rfl, hi⟩ := hc
    exact ⟨k, hk, hlast.finalized, .lost hi (hf.entries.trans hr), hf.past, hf.active, hf.lives⟩

/-- A job that waited ends: it is gone. -/
theorem leave_placed {now : Nat} {message path : Option String} {l : Loop TimerAction} (hfit : Fit s) (hf : Fresh s)
    (hid : id ∈ s.queue.waiting) (hj : s.queue.job? id = some j)
    (hin : Onward (some ⟨.finished, (j.ended now .canceled none message).snapshot⟩) b
      { s with queue := (s.queue.withdraw id).update id (·.ended now .canceled none message), loop := l } t id)
    (hc : Kept id path b t u) : u.Placed id := by
  have hb := hf id (.inl hid)
  have hj₁ : ((s.queue.withdraw id).update id (·.ended now .canceled none message)).job? id =
      some (j.ended now .canceled none message) := Queue.job?_update_self (by intro; rfl) hj
  obtain ⟨k, ht⟩ := ended_told (hin.frame (hfit.past_withdraw hid l)) hc rfl hj₁ hb.entries ⟨hb.untold.told, hb.untold.brokenOff⟩
    fun _ => rfl
  exact .gone k ht.past (fun ha => hfit.apart id (ht.active.mp ha) (.inl hid)) ht.job ht.finalized
    (fun i hi => hb.idle i (ht.lives i hi)) ht.closed

end Steps

/-! ## Every evolution -/

/-- Between two steps every number is placed. -/
structure Settled (s : Scheduler) : Prop where
  fit : Fit s
  placed : ∀ id, s.Placed id

theorem Settled.fresh {s : Scheduler} (h : Settled s) : Fresh s := fun id hu => (h.placed id).blank h.fit hu

end MediaEngine.Scheduler

namespace MediaEngine.Evolves
open Job Scheduler
variable {told : Option Event} {b : Bool} {s t : Scheduler}

/-- Every evolution goes onward for every number. -/
theorem onward (h : Evolves told b s t) (hfit : Fit s) (hf : Fresh s) (hp : Past told s) (i : JobId) :
    Onward told b s t i := by
  induction h generalizing i with
  | steady hs => exact hs.onward hfit hf i
  | halt => exact .of_same (.refl _ i) hf
  | trans h₁ _ ih₁ ih₂ =>
    have hs := ih₁ hfit hf hp
    have hfit' := hfit.evolves h₁
    exact (hs i).cut hp (ih₂ hfit' (Onward.fresh hs hfit') (Onward.past hs hp) i)
  | hear who => exact hear_onward who hf (hp _ rfl) i
  | breakOff _ ih => exact breakOff_onward (ih hfit hf hp i) (hp _ rfl)
  | enroll submission progress _ => exact enroll_onward submission progress hfit hf i
  | @start told b s t u id q now l hq hin hc ih =>
    have hfit₁ := hfit.take hq now l
    obtain ⟨-, ha, -⟩ := take_placed hfit hf hq now l
    have hsame := fun k (hk : k ≠ id) => same_take hq now l hk
    have hon := ih hfit₁ (fresh_open hf (hfit₁.apart id ha) hsame) Past.none
    have hfit' := hfit₁.evolves hin
    by_cases hi : i = id
    -- The job that starts is placed anew; every other one is as it was before and after what is told in between.
    · subst hi
      refine ⟨fun hn => absurd (.inl ?_) hn, fun _ => start_placed hfit hf hq hfit' (hon i) hc⟩
      obtain ⟨rest, e, hw, -⟩ := Queue.activate_eq hq now
      rw [hw]
      exact List.mem_cons_self
    · exact bracket_onward hp hf (hsame i hi) (hon i) (spawned_onward hc (Onward.fresh hon hfit') hi)
        nothing_told
  | @ask told b s t u id j hid hj hne hne' hin hc ih =>
    have hpast := hfit.apart id hid
    have hsame : ∀ k, k ≠ id → Same s (s.mapQueue (·.update id fun j => { j with status := .cancelling })) k :=
      fun k hk => same_update (by intro; rfl) s.loop hk
    have hfit₁ : Fit (s.mapQueue (·.update id fun j => { j with status := .cancelling })) :=
      hfit.update (by intro; rfl) (fun hw => hpast (.inl hw)) s.loop
    have hon := ih hfit₁ (fresh_open hf hpast hsame) Past.none
    have hfit' := hfit₁.evolves hin
    by_cases hi : i = id
    · subst hi
      exact ⟨fun _ => ask_frame hfit hid hj hne hne' (hfit'.stays hc.stays) (hon i) hc, fun hu => absurd hu hpast⟩
    · have hpt : Past told t := hp.of_upcoming fun k hk => hin.upcoming hk
      exact bracket_onward hp hf (hsame i hi) (hon i) (asked_onward hc hfit' (Onward.fresh hon hfit') hi hpt)
        nothing_told
  | @leave told b s t u id j now message path l hid hj hin hc ih =>
    have hfit₁ : Fit { s with
        queue := (s.queue.withdraw id).update id (·.ended now .canceled none message), loop := l } :=
      (hfit.withdraw id l).update (by intro; rfl) (hfit.not_mem_withdraw id) l
    have hsame : ∀ k, k ≠ id → Same s { s with
        queue := (s.queue.withdraw id).update id (·.ended now .canceled none message), loop := l } k :=
      fun k hk => (same_withdraw l hk).trans (same_update (by intro; rfl) l hk)
    have hpast := hfit.past_withdraw hid l
    have hjid : j.id = id := Queue.job?_id hj
    have hon := ih hfit₁ (fresh_open hf hpast hsame) (Past.some (hjid ▸ hpast))
    have hfit' := hfit₁.evolves hin
    by_cases hi : i = id
    · subst hi
      exact ⟨fun hn => absurd (.inl hid) hn, fun _ => leave_placed hfit hf hid hj (hon i) hc⟩
    · have hpt : Past told t := hp.of_upcoming fun k hk => (hin.upcoming hk).imp_left List.mem_of_mem_erase
      have hnot : ¬ t.Upcoming id := fun h => hpast (hin.upcoming h)
      refine bracket_onward hp hf (hsame i hi) (hon i) (kept_onward hc hfit' (Onward.fresh hon hfit') hnot hi hpt)
        fun event h he => ?_
      cases h
      exact hi (he.symm.trans hjid)

/-- What holds between two steps holds after an evolution that tells of nothing by itself. -/
theorem settled (h : Evolves none b s t) (hs : Settled s) : Settled t := by
  have hfit := hs.fit.evolves h
  refine ⟨hfit, fun i => ?_⟩
  have hon := h.onward hs.fit hs.fresh Past.none i
  by_cases hu : s.Upcoming i
  · exact hon.placed hu
  · exact (hs.placed i).frame hu (hon.frame hu) nothing_told

end MediaEngine.Evolves
