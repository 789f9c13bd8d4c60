import MediaEngine.Proofs.Doing

/-! # Where there is no copy

Telling an event fails where there is no copy of what is told, and so does keeping an entry. What the queue
does then is the same as if a listener had stopped like a cancelled task (`Notify.cut`), except for the fault that
comes of it (`Act.Akin`): operations hand faults on and look at none. So what is kept by every part of what
scripts do is kept also where copies fail, if it does not tell whether a part was cut short. -/

namespace MediaEngine
open Job

/-! ## Acts that may fail differently -/

namespace Act
variable {α β : Type} {x y : Act α} {f g : α → Act β}

/-- What an act yields, without the fault it may end with, and what it leaves. -/
def yields (x : Act α) (s : Scheduler) : Option α × Scheduler := ((x.on s).1.toOption, (x.on s).2)

theorem yields_bind (x : Act α) (f : α → Act β) (s : Scheduler) :
    (x >>= f).yields s = match x.yields s with
      | (some a, t) => (f a).yields t
      | (none, t) => (none, t) := by
  rw [yields, yields, on_bind]
  rcases x.on s with ⟨_ | _, t⟩ <;> rfl

/-- Both acts yield and leave the same, and fail together; they may fail with different faults. -/
def Akin (x y : Act α) : Prop := ∀ s, x.yields s = y.yields s

namespace Akin

theorem refl (x : Act α) : Akin x x := fun _ => rfl

theorem bind (h : Akin x y) (hf : ∀ a, Akin (f a) (g a)) : Akin (x >>= f) (y >>= g) := fun s => by
  rw [yields_bind, yields_bind, h s]
  rcases y.yields s with ⟨_ | a, t⟩
  · rfl
  · exact hf a t

theorem then_ (hf : ∀ a, Akin (f a) (g a)) : Akin (x >>= f) (x >>= g) := (refl x).bind hf

theorem state (h : Akin x y) (s : Scheduler) : (x.on s).2 = (y.on s).2 :=
  congrArg (fun r : Option α × Scheduler => r.2) (h s)

end Akin

end Act

/-- What does not tell whether an act was cut short is told of it if it is told of one akin to it. -/
theorem Leads.akin {α : Type} {P : Scheduler → Scheduler → Prop} {x y : Act α} {s : Scheduler} (h : x.Akin y)
    (hy : Leads (fun _ => P) s y) : Leads (fun _ => P) s x := fun hf => by
  have hy : P s (y.on s).2 := hy hf
  change P s (x.on s).2
  rw [h.state s]
  exact hy

namespace Scheduler

/-! ## Telling that is cut short -/

/-- Breaks the end of a job off if the history could keep no copy of it. -/
def vouch (copies : Copying) (id : JobId) : Act Unit := do
  match (← queueNow).job? id with
  | none => return
  | some job =>
    if job.isCopied copies then return
    else
      onQueue (·.breakOff ⟨.finished, job.snapshot⟩)
      throw .taskCancelled

end Scheduler

open Scheduler in
/-- Tells the same, but stops like a cancelled task whenever telling fails, and also at the end of a job of which the
    history could keep no copy. -/
def Notify.cut (notify : Notify) : Notify where
  copies := .total
  tell kind id := do
    match ← outcome (notify kind id) with
    | .ok () => if kind = .finished then vouch notify.copies id else return
    | .error _ => throw .taskCancelled

namespace Scheduler
open Act
variable {s : Scheduler} {id : JobId} {notify : Notify}

theorem vouch_cases (copies : Copying) (id : JobId) (s : Scheduler) :
    ((∀ j, s.queue.job? id = some j → j.isCopied copies = true) ∧ (vouch copies id).on s = (.ok (), s)) ∨
    ∃ j, s.queue.job? id = some j ∧ j.isCopied copies = false ∧
      (vouch copies id).on s = (.error .taskCancelled, s.mapQueue (·.breakOff ⟨.finished, j.snapshot⟩)) := by
  rw [vouch, Act.on_queueNow_bind]
  cases hj : s.queue.job? id with
  | none => exact .inl ⟨fun _ h => (by cases h), rfl⟩
  | some j =>
    cases hc : j.isCopied copies with
    | true =>
      refine .inl ⟨fun k hk => Option.some.inj hk ▸ hc, ?_⟩
      simp only [hc, if_true]
      rfl
    | false =>
      refine .inr ⟨j, rfl, hc, ?_⟩
      simp only [hc]
      rfl

section Cut
variable {kind : EventKind} {t : Scheduler}

theorem cut_error {f : Fault} (h : (notify kind id).on s = (.error f, t)) :
    (notify.cut kind id).on s = (.error .taskCancelled, t) := by
  rw [Notify.cut, Act.on_outcome_bind, h]
  rfl

theorem cut_ok (h : (notify kind id).on s = (.ok (), t)) (hk : kind ≠ .finished) : (notify.cut kind id).on s = (.ok (), t) := by
  rw [Notify.cut, Act.on_outcome_bind, h]
  simp only [if_neg hk]
  rfl

theorem cut_ends (h : (notify .finished id).on s = (.ok (), t)) :
    (notify.cut .finished id).on s = (vouch notify.copies id).on t := by
  rw [Notify.cut, Act.on_outcome_bind, h]
  rfl

/-- A telling that is cut short stops like a cancelled task, and leaves what the telling left, or that with the end of a job
    broken off. -/
theorem cut_cases (notify : Notify) (kind : EventKind) (id : JobId) (s : Scheduler) :
    (∀ e, ((notify.cut kind id).on s).1 = .error e → e = .taskCancelled) ∧
      (((notify.cut kind id).on s).2 = ((notify kind id).on s).2 ∨
        ∃ event, ((notify.cut kind id).on s).2 = ((notify kind id).on s).2.mapQueue (·.breakOff event)) := by
  rcases h : (notify kind id).on s with ⟨f | ⟨⟩, t⟩
  · rw [cut_error h]
    exact ⟨fun e he => (by cases he; rfl), .inl rfl⟩
  · by_cases hk : kind = .finished
    · subst hk
      rw [cut_ends h]
      rcases vouch_cases notify.copies id t with ⟨-, hv⟩ | ⟨j, -, -, hv⟩ <;> rw [hv]
      · exact ⟨fun e he => (by cases he), .inl rfl⟩
      · exact ⟨fun e he => (by cases he; rfl), .inr ⟨_, rfl⟩⟩
    · rw [cut_ok h hk]
      exact ⟨fun e he => (by cases he), .inl rfl⟩

end Cut

theorem tell_akin {kind : EventKind} (hk : kind ≠ .finished) (notify : Notify) (id : JobId) :
    Akin (notify kind id) (notify.cut kind id) :=
  fun s => by
    rw [yields, yields]
    rcases h : (notify kind id).on s with ⟨f | ⟨⟩, t⟩
    · rw [cut_error h]
      rfl
    · rw [cut_ok h hk]

/-- The end of a job is told and its entry is kept, or one of both fails. -/
theorem close_akin (notify : Notify) (id : JobId) (path : Option String) :
    Akin (do notify .finished id; file notify.copies id path)
      (do notify.cut .finished id; file notify.cut.copies id path) := fun s => by
  change _ = ((notify.cut .finished id >>= fun _ => file .total id path) : Act Unit).yields s
  rw [file_total, yields, yields]
  rcases h : (notify .finished id).on s with ⟨f | ⟨⟩, t⟩
  · rw [Act.on_bind_error h, Act.on_bind_error (cut_error h)]
    rfl
  · rw [Act.on_bind_ok h]
    rcases vouch_cases notify.copies id t with ⟨hc, hv⟩ | ⟨j, hj, hc, hv⟩ <;> rw [← cut_ends h] at hv
    · rw [Act.on_bind_ok hv]
      cases hj : t.queue.job? id with
      | none => rw [file_none hj, record_none hj]
      | some j => rw [file_copied hj (hc j hj)]
    · rw [Act.on_bind_error hv, file_uncopied hj hc]
      rfl

/-! ## Operations -/

section Operations
variable (notify)

theorem finish_akin (id : JobId) (status : Job.Status) (path errorMessage message : Option String) :
    Akin (finish notify id status path errorMessage message) (finish notify.cut id status path errorMessage message) := by
  refine .then_ fun q => ?_
  cases q.job? id with
  | none => exact .refl _
  | some j =>
    dsimp only
    split
    · exact .refl _
    · exact .then_ fun now => .then_ fun _ => close_akin notify id path

theorem setStatus_akin (id : JobId) (status : Job.Status) : Akin (setStatus notify id status) (setStatus notify.cut id status) :=
  .then_ fun _ => tell_akin (by decide) notify id

theorem startJob_akin (id : JobId) : Akin (startJob notify id) (startJob notify.cut id) :=
  .then_ fun _ => .then_ fun _ => .then_ fun _ => .then_ fun _ => (tell_akin (by decide) notify id).bind fun _ => .refl _

theorem startUpTo_akin (n : Nat) : Akin (startUpTo notify n) (startUpTo notify.cut n) := by
  induction n with
  | zero => exact .refl _
  | succ n ih =>
    refine .then_ fun q => ?_
    cases q.startNext? with
    | none => exact .refl _
    | some next => exact .then_ fun _ => .then_ fun _ => (startJob_akin notify next.1).bind fun _ => ih

theorem startWaiting_akin : Akin (startWaiting notify) (startWaiting notify.cut) := .then_ fun _ => startUpTo_akin notify _

theorem enqueue_akin (running : Bool) (submission : Submission) :
    Akin (enqueue notify running submission) (enqueue notify.cut running submission) := by
  unfold enqueue
  cases submission.defect with
  | some part => exact .refl _
  | none =>
    refine .then_ fun q => ?_
    dsimp only
    split
    · exact .refl _
    · split
      · exact .refl _
      · exact .then_ fun _ => .then_ fun _ => .then_ fun _ => .then_ fun _ => (tell_akin (by decide) notify _).bind fun _ =>
          .then_ fun _ => (startWaiting_akin notify).bind fun _ => .refl _

theorem ask_akin (id : JobId) : Akin (ask notify id) (ask notify.cut id) := by
  refine .then_ fun q => ?_
  cases q.job? id with
  | none => exact .refl _
  | some j =>
    dsimp only
    split
    · exact .refl _
    · exact (setStatus_akin notify id _).bind fun _ => .refl _

theorem askAll_akin (ids : List JobId) : Akin (askAll notify ids) (askAll notify.cut ids) := by
  induction ids with
  | nil => exact .refl _
  | cons id rest ih =>
    refine (ask_akin notify id).bind fun asked => ?_
    split
    · exact ih.bind fun _ => .refl _
    · exact ih

theorem cancelUpTo_akin (n : Nat) : Akin (cancelUpTo notify n) (cancelUpTo notify.cut n) := by
  induction n with
  | zero => exact .refl _
  | succ n ih =>
    refine .then_ fun q => ?_
    cases q.shift? with
    | none => exact .refl _
    | some next =>
      exact .then_ fun _ => .then_ fun _ => (finish_akin notify next.1 _ _ _ _).bind fun _ => .then_ fun _ =>
        ih.bind fun _ => .refl _

theorem cancelAll_akin : Akin (cancelAll notify) (cancelAll notify.cut) :=
  .then_ fun _ => (askAll_akin notify _).bind fun _ => .then_ fun _ => (cancelUpTo_akin notify _).bind fun _ => .refl _

theorem expire_akin (id : JobId) : Akin (expire notify id) (expire notify.cut id) := by
  refine .then_ fun q => ?_
  split
  · exact .then_ fun _ => .then_ fun _ => (finish_akin notify id _ _ _ _).bind fun _ => .refl _
  · exact .refl _

end Operations

end Scheduler

/-! ## Listeners who call back -/

namespace Carried
open Scheduler
variable {P : Scheduler → Scheduler → Prop} {notify : Notify} {copies : Copying} {hearing : Hearing}

/-- What happens in a row, and what is carried by it. -/
abbrev Rows (P : Scheduler → Scheduler → Prop) (s t : Scheduler) : Prop := Unfolds none s t ∧ P s t

theorem serves_of_cut (hP : Borne fun _ => P) (hn : Tells (Along fun _ _ _ => P) notify.cut) :
    Serves (fun _ => Rows P) notify where
  enqueue submission s := Leads.akin (P := Rows P) (enqueue_akin notify true submission) ((hP.serves hn).enqueue submission s)
  cancelAll s := Leads.akin (P := Rows P) (cancelAll_akin notify) ((hP.serves hn).cancelAll s)

theorem announce_leads (hP : Carried fun _ => P) (hh : ∀ event index s, Leads (fun _ => Rows P) s (hearing event index))
    (kind : EventKind) (id : JobId) (s : Scheduler) :
    Leads (fun _ => Rows P) s (announce copies hearing kind id) := by
  have := hP.traces
  have hall : ∀ event, Leads (fun _ => Rows P) s (hearAll hearing event s.queue.subscribed) := fun event =>
    hearAll_traces (fun index _ => hh _ index) fun s t h => ⟨h.1.tail (.breakOff _), hP.breakOff _ h.2⟩
  cases hj : s.queue.job? id with
  | none => exact Leads.same (announce_none hj ..) (Leads.pure ())
  | some j =>
    cases hc : j.isCopied copies with
    | true => exact Leads.same (announce_copied hj hc ..) (hall _)
    | false =>
      by_cases hnone : s.queue.subscribed = []
      · exact Leads.same (announce_unheard hnone ..) (Leads.pure ())
      · refine Leads.of_on (announce_uncopied hj hc hnone ..) fun _ => ⟨.one (.breakOff _), hP.breakOff _ (hP.does .still)⟩

theorem cut_tells (hP : Carried fun _ => P) (hh : ∀ event index s, Leads (fun _ => Rows P) s (hearing event index)) :
    Tells (Along fun _ _ _ => P) (announce copies hearing).cut where
  copies := rfl
  leads kind id s hf := by
    have hall : Leads (fun _ => Rows P) s (announce copies hearing kind id) := hP.announce_leads hh kind id s
    obtain ⟨hrow, htold⟩ : Unfolds none s _ ∧ P s _ := hall hf
    change Unfolds none s _ ∧ P s _
    rcases (cut_cases (announce copies hearing) kind id s).2 with h | ⟨event, h⟩ <;> rw [h]
    · exact ⟨hrow, htold⟩
    · exact ⟨hrow.tail (.breakOff event), hP.breakOff event htold⟩
  fault kind id s e t hr := (cut_cases (announce copies hearing) kind id s).1 e (congrArg Prod.fst hr)

/-- Whatever can be copied, and however deep listeners may act, what is carried by all that scripts do is carried by telling
    them. -/
theorem tells_within (hP : Carried fun _ => P) (copies : Copying) (n : Nat) :
    Tells (Along fun _ _ _ => P) (notifyWithin copies n).cut := by
  induction n with
  | zero => exact hP.cut_tells hP.served.hear_leads
  | succ n ih => exact hP.cut_tells (hP.served.hearAndAct_leads (serves_of_cut hP.toBorne ih))

end Carried

end MediaEngine
