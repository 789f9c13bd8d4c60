import MediaEngine.Proofs.Admission
import MediaEngine.Proofs.Quiet
import MediaEngine.Proofs.Turning

/-! # Slots

No more jobs are active and no more wait than the limits allow, whatever listeners do. Where listeners do
not call back and the timeout can be computed, no slot is free between two moves while a job waits
(`Packed`), unless a job that was handed in was left behind: a listener that was told that it is queued
stopped like a cancelled task, and nothing was started (`Strands`). In the middle of a move less holds: a
script that was cut short may leave one job waiting (`Loose`), and a slot that got free is not yet taken
(`Slack`). -/

namespace MediaEngine

/-- The limits are kept. -/
structure Queue.Limited (q : Queue) : Prop where
  parallel : (q.active.length : Int) ≤ q.settings.maxParallelJobs
  length : (q.waiting.length : Int) ≤ q.settings.maxQueueLength

/-- The limits are kept, and no slot is free while a job waits. -/
structure Queue.Balanced (q : Queue) : Prop extends Limited q where
  busy : q.waiting ≠ [] → (q.active.length : Int) = q.settings.maxParallelJobs

namespace Scheduler
open Job

/-- No slot is free while a job waits. -/
def Packed (s : Scheduler) : Prop := s.queue.waiting = [] ∨ s.queue.hasSlot = false

/-- Where a slot is free at most one job waits. -/
def Loose (s : Scheduler) : Prop := s.queue.waiting.length ≤ 1 ∨ s.queue.hasSlot = false

/-- At most one slot is free, or at most one job waits. -/
def Slack (s : Scheduler) : Prop :=
  s.queue.waiting.length ≤ 1 ∨ s.queue.settings.maxParallelJobs ≤ (s.queue.active.length : Int) + 1

variable {s t u : Scheduler} {id : JobId} {own : Option JobId} {depth : Nat}

theorem hasSlot_false {q : Queue} : q.hasSlot = false ↔ q.settings.maxParallelJobs ≤ (q.active.length : Int) := by
  rw [Queue.hasSlot, decide_eq_false_iff_not, Int.not_lt]

theorem isFull_false {q : Queue} : q.isFull = false ↔ (q.waiting.length : Int) < q.settings.maxQueueLength := by
  rw [Queue.isFull, decide_eq_false_iff_not, Int.not_le]

/-! ## Limits -/

theorem Drains.limited (h : Drains s t) (hl : s.queue.Limited) : t.queue.Limited where
  parallel := by rw [h.settings, h.active]; exact hl.parallel
  length := by
    have hle := h.waiting.length_le
    have := hl.length
    rw [h.settings]
    omega

theorem limited_moment (hl : s.queue.Limited) (h : Moment s t) : t.queue.Limited := by
  -- Only being admitted and being started make a list longer, and both look for room first.
  cases h with
  | release id =>
    refine ⟨?_, hl.length⟩
    have hle := (List.erase_sublist (a := id) (l := s.queue.active)).length_le
    have := hl.parallel
    change ((s.queue.active.erase id).length : Int) ≤ s.queue.settings.maxParallelJobs
    omega
  | occurs h =>
    cases h with
    | inert h => exact h.abides.drains.limited hl
    | signal _ h => exact h.abides.drains.limited hl
    | breakOff event => exact (Hushed.breakOff event).toAbides.drains.limited hl
    | keep id path =>
      have h := keep_stays s id path
      exact (Abides.mk h.continues.settings h.waiting h.active).drains.limited hl
    | enroll submission progress hfull =>
      refine ⟨hl.parallel, ?_⟩
      have := isFull_false.mp hfull
      change ((s.queue.waiting ++ [_]).length : Int) ≤ s.queue.settings.maxQueueLength
      rw [List.length_append, List.length_singleton]
      omega
    | take hq =>
      obtain ⟨hslot, -⟩ := Queue.startNext?_eq hq
      obtain ⟨rest, e, hw, he⟩ := taking_eq hq
      have hslot : (s.queue.active.length : Int) < s.queue.settings.maxParallelJobs := of_decide_eq_true hslot
      have hlen := hl.length
      rw [hw, List.length_cons] at hlen
      rw [he]
      refine ⟨?_, ?_⟩
      · change ((s.queue.active ++ [_]).length : Int) ≤ s.queue.settings.maxParallelJobs
        rw [List.length_append, List.length_singleton]
        omega
      · change (rest.length : Int) ≤ s.queue.settings.maxQueueLength
        omega
    | leave => exact Drains.limited (s := s) ⟨rfl, List.erase_sublist, rfl⟩ hl
    | hear | asked | arm | spawn | ask | cool | finish | turn => exact ⟨hl.parallel, hl.length⟩

theorem limited_moments (hl : s.queue.Limited) (h : Moments s t) : t.queue.Limited := by
  induction h with
  | refl => exact hl
  | tail _ h ih => exact limited_moment ih h

/-! ## Packed queues -/

theorem Packed.loose (h : s.Packed) : s.Loose := h.imp_left fun h => by rw [h]; exact Nat.zero_le 1

theorem Loose.slack (h : s.Loose) : s.Slack := h.imp_right fun h => by
  have := hasSlot_false.mp h
  omega

theorem Drains.packed (h : Drains s t) (hp : s.Packed) : t.Packed := by
  refine hp.imp (fun hw => ?_) fun hslot => ?_
  · exact List.eq_nil_of_sublist_nil (hw ▸ h.waiting)
  · rw [hasSlot_false, h.active, h.settings]
    exact hasSlot_false.mp hslot

theorem Abides.loose (h : Abides s t) (hp : s.Loose) : t.Loose := by
  unfold Loose
  rwa [Queue.hasSlot, h.waiting, h.active, h.settings]

/-- The slot of a job gets free. -/
theorem Loose.release (h : s.Loose) (hid : id ∈ s.queue.active) : (s.mapQueue (·.release id)).Slack := by
  refine h.imp_right fun hslot => ?_
  have := hasSlot_false.mp hslot
  have := List.length_pos_of_mem hid
  change s.queue.settings.maxParallelJobs ≤ ((s.queue.active.erase id).length : Int) + 1
  rw [List.length_erase_of_mem hid]
  omega

/-- Where no job can start the queue is packed. -/
theorem packed_of_none (h : s.queue.startNext? = none) : s.Packed := by
  unfold Queue.startNext? at h
  split at h
  · unfold Queue.shift? at h
    split at h
    · rename_i hw
      exact .inl hw
    · cases h
  · rename_i hslot
    exact .inr (Bool.eq_false_iff.mpr hslot)

/-- Starting jobs packs the queue, even if a listener puts an end to it: with the first job that starts the one
    slot that was free is taken, or the one job that waited waits no longer. -/
theorem startUpTo_packs (n : Nat) (hf : Fit s) (hs : s.Slack) (hn : s.queue.waiting.length ≤ n)
    (hq : ((startUpTo (notifyUpTo depth) n).on s).2.queue.Quiet) : Packed ((startUpTo (notifyUpTo depth) n).on s).2 := by
  induction n generalizing s with
  | zero => exact .inl (List.eq_nil_of_length_eq_zero (Nat.le_zero.mp hn))
  | succ n ih =>
    -- As a round begins, at most one slot is free or at most one job waits, so starting one more is enough.
    cases hnext : s.queue.startNext? with
    | none =>
      rw [startUpTo_none hnext]
      exact packed_of_none hnext
    | some next =>
      obtain ⟨id, q⟩ := next
      have hh : Notifies (fun _ => Quietly none fun _ => Hushed) (notifyUpTo depth) := notifyUpTo_quietly (fun h => h) depth
      have htold := hh.leads none .started id (s.taking id q) (by decide) (hf.taking hnext)
      obtain ⟨rest, e, hw, he⟩ := taking_eq hnext
      have hlen : rest.length + 1 = s.queue.waiting.length := by rw [hw, List.length_cons]
      have hrest : (s.taking id q).queue.waiting = rest := by rw [he]; rfl
      have hactive : (s.taking id q).queue.active.length = s.queue.active.length + 1 := by
        rw [taking_active hnext, List.length_append, List.length_singleton]
      have hsettings : (s.taking id q).queue.settings = s.queue.settings := by rw [he]; rfl
      rw [startUpTo_some hnext, Act.on_bind, startJob_eq, Act.on_bind] at hq ⊢
      rcases hr : (notifyUpTo depth .started id).on (s.taking id q) with ⟨f | ⟨⟩, v⟩ <;> rw [hr] at hq htold <;> dsimp only at hq ⊢
      · have ha := (htold.2 hq).toAbides
        unfold Packed
        rw [hasSlot_false, ha.waiting, ha.active, ha.settings, hrest, hactive, hsettings]
        refine hs.imp (fun h => ?_) fun h => by omega
        exact List.eq_nil_of_length_eq_zero (by omega)
      · rw [Act.on_createTask] at hq ⊢
        dsimp only at hq ⊢
        have hfv : Fit (v.spawn (.job id .fresh)) := (htold.1.fit (hf.taking hnext)).stays (.of_queue rfl)
        have hleads := @startUpTo_leads (fun _ _ => Unfolds none) _ none _ _ (notifyUpTo_notifies depth) n hfv
        have hqv : v.queue.Quiet := hq.before (Unfolds.listeners (s := v.spawn (.job id .fresh)) hleads)
        have ha := (htold.2 hqv).toAbides
        refine ih hfv ?_ ?_ hq
        · change v.Slack
          unfold Slack
          rw [ha.waiting, ha.active, ha.settings, hrest, hactive, hsettings]
          exact hs.imp (fun h => by omega) fun h => by omega
        · change v.queue.waiting.length ≤ n
          rw [ha.waiting, hrest]
          omega

variable (depth) in
theorem startWaiting_packs (hf : Fit s) (hs : s.Slack) (hq : ((startWaiting (notifyUpTo depth)).on s).2.queue.Quiet) :
    Packed ((startWaiting (notifyUpTo depth)).on s).2 :=
  startUpTo_packs _ hf hs (Nat.le_add_right _ _) hq

/-- Once a slot is free the queue is packed again. -/
theorem vacate_packs (hf : Fit s) (hs : s.Loose) (hid : id ∈ s.queue.active)
    (hq : ((vacate (notifyUpTo depth) id).on s).2.queue.Quiet) : Packed ((vacate (notifyUpTo depth) id).on s).2 := by
  have hvacate : (vacate (notifyUpTo depth) id).on s =
      (startWaiting (notifyUpTo depth) >>= fun _ => releaseParked).on (s.mapQueue (·.release id)) := rfl
  rw [hvacate, Act.on_bind] at hq ⊢
  have hpacks := startWaiting_packs depth (hf.release id) (hs.release hid)
  rcases hr : (startWaiting (notifyUpTo depth)).on (s.mapQueue (·.release id)) with ⟨e | ⟨⟩, t⟩ <;> rw [hr] at hq hpacks
  · exact hpacks hq
  · obtain ⟨u, hu, hi⟩ := releaseParked_on (s := t)
    dsimp only at hq ⊢
    rw [hu] at hq ⊢
    exact hi.abides.drains.packed (hpacks (hq.before hi.listeners))

/-! ## Handing jobs in -/

/-- What an admitted job sets off: a listener stops the task when it is told that the job is queued, or the queue is
    packed afterwards. -/
theorem afterAdmission_packs (hf : Fit s) (hx : s.queue.settings.Expirable) (hs : s.Loose)
    (hq : ((afterAdmission (notifyUpTo depth) id).on s).2.queue.Quiet) :
    (∃ e t, (notifyUpTo depth .queued id).on s = (.error e, t) ∧ (afterAdmission (notifyUpTo depth) id).on s = (.error e, t) ∧
      Abides s t) ∨
    ((∃ t, (notifyUpTo depth .queued id).on s = (.ok (), t)) ∧ Packed ((afterAdmission (notifyUpTo depth) id).on s).2) := by
  have hh : Notifies (fun _ => Quietly none fun _ => Hushed) (notifyUpTo depth) := notifyUpTo_quietly (fun h => h) depth
  have hn : Notifies (fun _ _ => Unfolds none) (notifyUpTo depth) := notifyUpTo_notifies depth
  have htold := hh.leads none .queued id s (by decide) hf
  unfold afterAdmission at hq ⊢
  rw [Act.on_bind] at hq ⊢
  rcases hr : (notifyUpTo depth .queued id).on s with ⟨e | ⟨⟩, t⟩ <;> rw [hr] at hq htold <;> dsimp only at hq ⊢
  · exact .inl ⟨e, t, rfl, rfl, (htold.2 hq).toAbides⟩
  refine .inr ⟨⟨t, rfl⟩, ?_⟩
  have hft := htold.1.fit hf
  have hsettings : t.queue.settings = s.queue.settings := htold.1.continues.settings
  -- The timeout can be told, so the timer is set or not, and in either case the queue stays as it is.
  obtain ⟨v, hv, hqv⟩ : ∃ v, (armExpiry id).on t = (.ok (), v) ∧ v.queue = t.queue := by
    rcases armExpiry_on (s := t) id with ⟨v, hv, ⟨rfl, -⟩ | ⟨rfl, -⟩⟩ | ⟨e, -, hexp, hsec⟩
    · exact ⟨_, hv, rfl⟩
    · exact ⟨_, hv, rfl⟩
    · rw [hsettings] at hexp hsec
      obtain ⟨x, hok⟩ := (Settings.timeoutSeconds_ok _).mpr (hx (of_decide_eq_true hexp))
      cases hsec.symm.trans hok
  have hfv : Fit v := hft.stays (.of_queue hqv)
  rw [Act.on_bind_ok hv, Act.on_bind] at hq ⊢
  have hleads := @startWaiting_leads (fun _ _ => Unfolds none) _ none _ _ hn hfv
  have hpacks := startWaiting_packs depth hfv
  rcases hr' : (startWaiting (notifyUpTo depth)).on v with ⟨e | ⟨⟩, w⟩ <;> rw [hr'] at hq hpacks hleads
  all_goals
    have hqt : t.queue.Quiet := hqv ▸ Queue.Quiet.before hq (Unfolds.listeners hleads)
    have hloose : v.Loose := by
      unfold Loose
      rw [hqv]
      exact (htold.2 hqt).toAbides.loose hs
    exact hpacks hloose.slack hq

/-- A listener that is told that a job is queued which could start at once stops like a cancelled task; so the job that
    is handed in is left behind. -/
def Strands (depth : Nat) (submission : Submission) (s : Scheduler) : Prop :=
  ∃ progress e t, submission.defect = none ∧ s.queue.isFull = false ∧ Job.Progress.start submission.estimate = .ok progress ∧
    s.queue.hasSlot = true ∧ (notifyUpTo depth .queued s.queue.nextId).on (s.admitting submission progress) = (.error e, t)

/-- Handing a job in keeps the queue packed, or the job is left behind and its submitter gets the fault of a cancelled
    task. -/
theorem enqueue_packs (hf : Fit s) (hx : s.queue.settings.Expirable) (hs : s.Packed) (submission : Submission)
    (hq : ((enqueue (notifyUpTo depth) true submission).on s).2.queue.Quiet) :
    (Packed ((enqueue (notifyUpTo depth) true submission).on s).2 ∧ ¬ Strands depth submission s) ∨
    (Strands depth submission s ∧ Broken ((enqueue (notifyUpTo depth) true submission).on s).1 = true ∧
      Loose ((enqueue (notifyUpTo depth) true submission).on s).2 ∧
      ¬ Packed ((enqueue (notifyUpTo depth) true submission).on s).2) := by
  have same : ∀ {t : Scheduler}, t.queue.waiting = s.queue.waiting → t.queue.active = s.queue.active →
      t.queue.settings = s.queue.settings → t.Packed := fun hw ha hset => (Abides.mk hset hw ha).drains.packed hs
  cases hd : submission.defect with
  | some part =>
    rw [enqueue_defect hd]
    exact .inl ⟨hs, fun ⟨_, _, _, h, _⟩ => by rw [hd] at h; cases h⟩
  | none =>
    cases hfull : s.queue.isFull with
    | true =>
      rw [enqueue_full hd hfull]
      exact .inl ⟨same rfl rfl rfl, fun ⟨_, _, _, _, h, _⟩ => by rw [hfull] at h; cases h⟩
    | false =>
      cases hp : Job.Progress.start submission.estimate with
      | error e =>
        rw [enqueue_estimate hd hfull hp]
        exact .inl ⟨same rfl rfl rfl, fun ⟨_, _, _, _, _, h, _⟩ => by rw [hp] at h; cases h⟩
      | ok progress =>
        rw [enqueue_admits hd hfull hp] at hq ⊢
        have hwaiting : (s.admitting submission progress).queue.waiting = s.queue.waiting ++ [s.queue.nextId] := rfl
        have hloose : (s.admitting submission progress).Loose := by
          refine hs.imp (fun hw => ?_) fun h => h
          rw [hwaiting, hw]
          exact Nat.le_refl 1
        -- Only where being told of the job stopped its submitter are jobs not started afterwards.
        rcases afterAdmission_packs (fit_admitting hf submission progress) hx hloose hq with ⟨e, t, hr, he, ha⟩ | ⟨⟨t, hr⟩, hpacked⟩
        · rw [he]
          have hcut : e = .taskCancelled :=
            (notifyUpTo_notifies (R := fun _ _ => Unfolds none) depth).fault _ _ _ _ _ hr
          have hsome : t.queue.waiting ≠ [] := by
            rw [ha.waiting, hwaiting]
            exact List.append_ne_nil_of_right_ne_nil _ (List.cons_ne_nil _ _)
          have hsame : t.queue.hasSlot = s.queue.hasSlot := by
            rw [Queue.hasSlot, ha.active, ha.settings]
            rfl
          cases hslot : s.queue.hasSlot with
          | true =>
            refine .inr ⟨⟨progress, e, t, hd, hfull, hp, hslot, hr⟩, by rw [hcut]; rfl, ha.loose hloose, fun hpacked => ?_⟩
            rcases hpacked with hw | hno
            · exact hsome hw
            · rw [hsame, hslot] at hno
              cases hno
          | false => exact .inl ⟨.inr (hsame.trans hslot), fun ⟨_, _, _, _, _, _, h, _⟩ => by rw [hslot] at h; cases h⟩
        · refine .inl ⟨hpacked, fun ⟨p, _, _, _, _, h, _, h'⟩ => ?_⟩
          cases hp.symm.trans h
          cases hr.symm.trans h'

/-! ## Moves -/

/-- What a script makes of a packed queue, where the timeout can be computed: the queue is packed, or loose where the
    script was cut short. -/
def Packs (b : Bool) (s t : Scheduler) : Prop :=
  t.queue.settings = s.queue.settings ∧
    (s.queue.settings.Expirable → s.Packed → t.Loose ∧ (b = false → t.Packed))

theorem Drains.packs {b : Bool} (h : Drains s t) : Packs b s t :=
  ⟨h.settings, fun _ hs => ⟨(h.packed hs).loose, fun _ => h.packed hs⟩⟩

instance : Tracks (Quietly own Packs) :=
  Quietly.tracks (fun h => h.abides.drains.packs) (fun s => (Abides.refl s).drains.packs) fun h₁ h₂ =>
    ⟨h₂.1.trans h₁.1, fun hx hs => h₂.2 (h₁.1 ▸ hx) ((h₁.2 hx hs).2 rfl)⟩

theorem Drains.leads {α : Type} {x : Act α} (h : Leads (Quietly own fun _ => Drains) s x) : Leads (Quietly own Packs) s x :=
  fun hf => ⟨(h hf).1, fun hq => ((h hf).2 hq).packs⟩

/-- In its own turn a job moves no job. -/
theorem finish_abides (hf : Fit s) (ha : id ∈ s.queue.active) (status : Job.Status) (path errorMessage message : Option String)
    (hq : ((finish (notifyUpTo depth) id status path errorMessage message).on s).2.queue.Quiet) :
    Abides s ((finish (notifyUpTo depth) id status path errorMessage message).on s).2 := by
  cases hj : s.queue.job? id with
  | none =>
    rw [finish, Act.on_queueNow_bind, hj]
    exact .refl s
  | some j =>
    cases hfin : j.finalized with
    | true =>
      rw [finish_again hj hfin]
      exact (Hushed.noted rfl).toAbides
    | false =>
      obtain ⟨r, t, u, hr, ht, hu⟩ := finish_on (R := fun _ => Quietly none fun _ => Hushed) (notifyUpTo_quietly (fun h => h) depth)
        hf (fun hw => hf.apart id ha (.inl hw)) hj hfin status path errorMessage message
      rw [hr] at hq ⊢
      have hd := (ht.2 (hq.before hu.listeners)).toAbides.trans hu.abides
      exact ⟨hd.settings, hd.waiting, hd.active⟩

theorem packs_owns (depth : Nat) (id : JobId) : Owns (Quietly (some id) Packs) (notifyUpTo depth) id := by
  have hn : Notifies (fun _ _ => Unfolds (some id)) (notifyUpTo depth) := notifyUpTo_notifies depth
  have ho := unfolds_owns hn
  have hd : Notifies (fun _ => Quietly (some id) fun _ => Drains) (notifyUpTo depth) :=
    notifyUpTo_quietly (fun h => h.toAbides.drains) depth
  refine ⟨⟨fun submission s => ?_, fun s => ?_⟩, fun s ha hc => ?_, fun status path errorMessage message s ha => ?_⟩
  · refine Quietly.leads (ho.enqueue submission s) fun hf hq =>
      ⟨(Unfolds.continues (ho.enqueue submission s hf)).settings, fun hx hs => ?_⟩
    rcases enqueue_packs hf hx hs submission hq with ⟨hp, -⟩ | ⟨-, hb, hl, -⟩
    · exact ⟨hp.loose, fun _ => hp⟩
    · exact ⟨hl, fun h => by rw [hb] at h; cases h⟩
  · exact Drains.leads (@cancelAll_leads _ _ none _ _ hd)
  · have hp : Notifies (fun _ => Quietly (some id) Packs) (notifyUpTo depth) :=
      notifyUpTo_quietly (fun h => h.toAbides.drains.packs) depth
    exact Leads.step (Act.on_onQueue _) ⟨.one (.cool rfl ha hc), fun _ => Drains.packs ⟨rfl, .refl _, rfl⟩⟩
      (hp.leads none .status id _ (by decide))
  · exact Quietly.leads (ho.ends status path errorMessage message s ha) fun hf hq =>
      (finish_abides hf ha status path errorMessage message hq).drains.packs

theorem absorb_abides (hf : Fit s) (ha : id ∈ s.queue.active) (fault : Fault)
    (hq : ((absorb (notifyUpTo depth) id fault).on s).2.queue.Quiet) : Abides s ((absorb (notifyUpTo depth) id fault).on s).2 := by
  unfold absorb at hq ⊢
  rw [Act.on_queueNow_bind] at hq ⊢
  split
  · rename_i h
    rw [if_pos h] at hq
    exact finish_abides hf ha _ _ _ _ hq
  · rename_i h
    rw [if_neg h] at hq
    exact finish_abides hf ha _ _ _ _ hq

theorem runJob_packs {task : TaskId} (hf : Fit s) (ha : id ∈ s.queue.active) (hx : s.queue.settings.Expirable) (hs : s.Packed)
    (phase : Phase) (killed : Bool) (hq : ((runJob (notifyUpTo depth) task id phase killed).on s).2.queue.Quiet) :
    Packed ((runJob (notifyUpTo depth) task id phase killed).on s).2 := by
  have hn : ∀ own, Notifies (fun _ _ => Unfolds own) (notifyUpTo depth) := fun _ => notifyUpTo_notifies depth
  cases hj : s.queue.job? id with
  | none =>
    rw [runJob, Act.on_queueNow_bind, hj]
    exact hs
  | some j =>
    obtain ⟨hplay, hpacks⟩ := playJob_leads (packs_owns depth id) (Queue.job?_id hj) ha phase killed hf
    have hran := runJob_ran (notifyUpTo depth) task hj phase killed
    generalize (playJob (notifyUpTo depth) j phase killed).on s = rt at hplay hpacks hran
    generalize ((runJob (notifyUpTo depth) task id phase killed).on s).2 = u at hq hran ⊢
    -- A slot gets free only as the turn ends the job, and then the next job is started.
    cases hran with
    | @waits pause phase t =>
      obtain ⟨g, -, hi⟩ := pausing_inert t task id pause phase
      have hpacked := (hpacks (hq.before hi.listeners)).2 hx hs
      exact hi.abides.drains.packed (s := { t with tasks := _ }) (hpacked.2 rfl)
    | @ended t =>
      have hfr : Fit (t.retire task) := (hplay.fit hf).stays (retire_inert t task).toStays
      have hloose := ((hpacks (hq.before (vacate_listeners hfr depth id))).2 hx hs).1
      exact vacate_packs hfr hloose (hplay.active ha) hq
    | @stops fault t =>
      have hfr : Fit (t.retire task) := (hplay.fit hf).stays (retire_inert t task).toStays
      have har : id ∈ (t.retire task).queue.active := hplay.active ha
      have habsorb : Unfolds (some id) (t.retire task) ((absorb (notifyUpTo depth) id fault).on (t.retire task)).2 :=
        absorb_leads (unfolds_owns (hn (some id))) har fault hfr
      have hqa := hq.before (vacate_listeners (habsorb.fit hfr) depth id)
      have hloose : (t.retire task).Loose := ((hpacks (hqa.before habsorb.listeners)).2 hx hs).1
      exact vacate_packs (habsorb.fit hfr) ((absorb_abides hfr har fault hqa).loose hloose) (habsorb.active har) hq

theorem runTask_packs (hs : Settled s) (hx : s.queue.settings.Expirable) (hp : s.Packed) (task : TaskId)
    (hq : ((runTask (notifyUpTo depth) task).on s).2.queue.Quiet) : Packed ((runTask (notifyUpTo depth) task).on s).2 := by
  cases h : s.playing? task with
  | none => exact (runTask_idle hs.fit h).abides.drains.packed hp
  | some playing =>
    obtain ⟨id, phase, killed⟩ := playing
    obtain ⟨hlives, -, hrun⟩ := playing_on (notifyUpTo depth) h
    have hheed := heeding_inert s task
    have hsettled := hs.inert hheed
    rw [hrun] at hq ⊢
    exact runJob_packs hsettled.fit (hsettled.working hlives).1.active hx (hheed.abides.drains.packed hp) phase killed hq

theorem fire_packs (hf : Fit s) (hx : s.queue.settings.Timely) (hp : s.Packed) (action : TimerAction)
    (hq : ((fire (notifyUpTo depth) action).on s).2.queue.Quiet) : Packed ((fire (notifyUpTo depth) action).on s).2 := by
  have hd : Notifies (fun _ => Quietly none fun _ => Drains) (notifyUpTo depth) :=
    notifyUpTo_quietly (fun h => h.toAbides.drains) depth
  cases action with
  | wake task => exact (Inert.wake [task]).abides.drains.packed hp
  | expire id =>
    obtain ⟨seconds, hseconds⟩ := hx
    exact ((@expire_leads _ _ none _ _ _ hd _ hseconds hf).2 hq).packed hp

/-- From the one state to the other a job is handed in that is left behind. -/
def Leaves (s t : Scheduler) : Prop :=
  ∃ supplied depth submission, t = ((obey supplied (notifyUpTo depth) (.enqueue submission)).on s).2 ∧ Strands depth submission s

theorem obey_enqueue (supplied : Option Store) (submission : Submission) :
    ((obey supplied (notifyUpTo depth) (.enqueue submission)).on s).2 = ((enqueue (notifyUpTo depth) true submission).on s).2 := by
  change (((enqueue (notifyUpTo depth) true submission) >>= fun id => pure (.admitted id) : Act Reply).on s).2 = _
  rw [Act.on_bind]
  rcases (enqueue (notifyUpTo depth) true submission).on s with ⟨_ | _, t⟩ <;> rfl

/-- A move keeps a queue packed, exactly if it leaves no job behind. -/
theorem Moves.packed_iff (h : Moves s t) (hs : Settled s) (hx : Binary64.Covers s.queue.settings.queueTimeout) (hp : s.Packed)
    (hq : t.queue.Quiet) : t.Packed ↔ ¬ Leaves s t := by
  constructor
  · rintro hpacked ⟨supplied, depth, submission, rfl, hstrands⟩
    rw [obey_enqueue] at hpacked hq
    rcases enqueue_packs hs.fit (fun _ => hx) hp submission hq with ⟨-, hno⟩ | ⟨-, -, -, hno⟩
    · exact hno hstrands
    · exact hno hpacked
  · intro hno
    cases h with
    | obey supplied depth c hc =>
      by_cases he : ∃ submission, c = .enqueue submission
      · obtain ⟨submission, rfl⟩ := he
        have hstrands : ¬ Strands depth submission s := fun hstr => hno ⟨supplied, depth, submission, rfl, hstr⟩
        rw [obey_enqueue] at hq ⊢
        rcases enqueue_packs hs.fit (fun _ => hx) hp submission hq with ⟨hpacked, -⟩ | ⟨hstr, -⟩
        · exact hpacked
        · exact absurd hstr hstrands
      · have hd : Notifies (fun _ => Quietly none fun _ => Drains) (notifyUpTo depth) :=
          notifyUpTo_quietly (fun h => h.toAbides.drains) depth
        exact ((obey_other_leads hd supplied hc (fun submission h => he ⟨submission, h⟩) hs.fit).2 hq).packed hp
    | turn depth task => exact runTask_packs hs (fun _ => hx) hp task hq
    | fire depth action => exact fire_packs hs.fit (Settings.timely_of_covers hx) hp action hq
    | loop l => exact hp

/-! ## Runs -/

/-- Moves one after the other of which none leaves a job behind. -/
inductive Smoothly (s : Scheduler) : Scheduler → Prop
  | refl : Smoothly s s
  | move {t u : Scheduler} : Smoothly s t → Moves t u → ¬ Leaves t u → Smoothly s u

theorem Smoothly.reaches (h : Smoothly s t) : Reaches s t := by
  induction h with
  | refl => exact .refl
  | move _ hm _ ih => exact ih.move hm

section Runs
variable {settings : Settings} {store : Store} {directory : String} {budget : Nat}

theorem start_limited (settings : Settings) (store : Store) (directory : String) (budget : Nat) :
    (start settings store directory budget).queue.Limited := by
  have := settings.parallel_pos
  have := settings.length_pos
  exact ⟨show (0 : Int) ≤ settings.maxParallelJobs by omega, show (0 : Int) ≤ settings.maxQueueLength by omega⟩

/-- In no state of a run more jobs are active or wait than the limits allow. -/
theorem Reachable.limited (h : Reachable settings store s) (ht : settings.Timely) : s.queue.Limited := by
  obtain ⟨directory, budget, h⟩ := h
  induction h with
  | refl => exact start_limited settings store directory budget
  | @move t u hr hm ih =>
    have hrt : Reachable settings store t := ⟨directory, budget, hr⟩
    obtain ⟨v, hv, hqueue⟩ := hm.moments hrt.settled (hrt.settings ▸ ht)
    rw [hqueue]
    exact limited_moments ih hv

theorem Smoothly.packed (h : Smoothly (start settings store directory budget) s)
    (hx : Binary64.Covers settings.queueTimeout) (hq : s.queue.Quiet) : s.Packed := by
  induction h with
  | refl => exact .inl rfl
  | @move t u hr hm hno ih =>
    have hrt : Reachable settings store t := ⟨directory, budget, hr.reaches⟩
    obtain ⟨v, hv, hqueue⟩ := hm.moments hrt.settled (hrt.settings ▸ Settings.timely_of_covers hx)
    have hqt : t.queue.Quiet := hq.before (hqueue ▸ hv.listeners)
    exact (hm.packed_iff hrt.settled (hrt.settings ▸ hx) (ih hqt) hq).mpr hno

/-- A move after which the queue is packed has left no job behind. -/
theorem Smoothly.packed_move (h : Smoothly (start settings store directory budget) s) (hm : Moves s t)
    (hx : Binary64.Covers settings.queueTimeout) (hq : t.queue.Quiet) (hp : t.Packed) :
    Smoothly (start settings store directory budget) t := by
  have hs : Reachable settings store s := ⟨directory, budget, h.reaches⟩
  obtain ⟨v, hv, hqueue⟩ := hm.moments hs.settled (hs.settings ▸ Settings.timely_of_covers hx)
  have hqs : s.queue.Quiet := hq.before (hqueue ▸ hv.listeners)
  exact h.move hm ((hm.packed_iff hs.settled (hs.settings ▸ hx) (h.packed hx hqs) hq).mp hp)

theorem balanced_iff (hl : s.queue.Limited) : s.queue.Balanced ↔ s.Packed := by
  refine ⟨fun h => ?_, fun h => ⟨hl, fun hw => ?_⟩⟩
  · by_cases hw : s.queue.waiting = []
    · exact .inl hw
    · exact .inr (hasSlot_false.mpr (Int.le_of_eq (h.busy hw).symm))
  · have := hasSlot_false.mp (h.resolve_left hw)
    have := hl.parallel
    omega

/-- A job is turned away by a queue that is balanced exactly if all slots are taken and as many jobs wait as may. -/
theorem enqueue_full_iff (hf : Fit s) (hb : s.queue.Balanced) {submission : Submission} (hd : submission.defect = none)
    (depth : Nat) (limit : Int) :
    ((enqueue (notifyUpTo depth) true submission).on s).1 = .error (.full limit) ↔
      limit = s.queue.settings.maxQueueLength ∧ (s.queue.active.length : Int) = s.queue.settings.maxParallelJobs ∧
        (s.queue.waiting.length : Int) = s.queue.settings.maxQueueLength := by
  have hn : Notifies Evolves (notifyUpTo depth) := notifyUpTo_notifies depth
  cases hfull : s.queue.isFull with
  | false =>
    have := isFull_false.mp hfull
    exact iff_of_false (enqueue_not_full hn hf hd hfull limit) fun ⟨_, _, h⟩ => by omega
  | true =>
    have hge : s.queue.settings.maxQueueLength ≤ (s.queue.waiting.length : Int) := of_decide_eq_true hfull
    have hle := hb.length
    have hpos := s.queue.settings.length_pos
    have hsome : s.queue.waiting ≠ [] := fun hw => by
      rw [hw] at hge
      have : s.queue.settings.maxQueueLength ≤ 0 := hge
      omega
    rw [enqueue_full hd hfull]
    refine ⟨fun h => ?_, fun ⟨h, _⟩ => by rw [h]⟩
    cases h
    exact ⟨rfl, hb.busy hsome, by omega⟩

/-- A queue in which no job waits lets a job in. -/
theorem enqueue_known (hf : Fit s) (hw : s.queue.waiting = []) {submission : Submission} (hd : submission.defect = none)
    {progress : Progress} (hp : Progress.start submission.estimate = .ok progress) (depth : Nat) :
    ∃ j, ((enqueue (notifyUpTo depth) true submission).on s).2.queue.job? s.queue.nextId = some j ∧
      j.submission = submission := by
  have hfull : s.queue.isFull = false := by
    have := s.queue.settings.length_pos
    rw [isFull_false, hw]
    change (0 : Int) < _
    omega
  have hn : Notifies Evolves (notifyUpTo depth) := notifyUpTo_notifies depth
  have hafter : Evolves none _ _ _ := afterAdmission_leads hn s.queue.nextId (fit_admitting hf submission progress)
  rw [enqueue_admits hd hfull hp]
  exact hafter.continues.knows _ _ (admitting_job hf progress)

/-- In no state of a run more jobs are active or wait than the limits allow. As long as no job was left behind, and where
    no listener calls back, no slot is free while a job waits; a move keeps it so exactly if it leaves no job behind.
    Then a job is turned away exactly if all slots are taken and as many jobs wait as may, and a queue that is idle
    lets every job in. -/
theorem slots_in_use {seconds : Binary64} (hc : settings.timeoutSeconds = .ok seconds) :
    (∀ s, Reachable settings store s → s.queue.Limited) ∧
      ∀ directory budget s, Smoothly (start settings store directory budget) s → s.queue.Quiet →
        s.queue.Balanced ∧ (∀ t, Moves s t → t.queue.Quiet → (t.queue.Balanced ↔ ¬ Leaves s t)) ∧
        ∀ depth submission, submission.defect = none →
          (∀ limit, ((enqueue (notifyUpTo depth) true submission).on s).1 = .error (.full limit) ↔
            limit = s.queue.settings.maxQueueLength ∧ (s.queue.active.length : Int) = s.queue.settings.maxParallelJobs ∧
              (s.queue.waiting.length : Int) = s.queue.settings.maxQueueLength) ∧
          (s.queue.isIdle = true → ∀ progress, Progress.start submission.estimate = .ok progress →
            ∃ j, ((enqueue (notifyUpTo depth) true submission).on s).2.queue.job? s.queue.nextId = some j ∧
              j.submission = submission) := by
  have hx : Binary64.Covers settings.queueTimeout := (Settings.timeoutSeconds_ok settings).mp ⟨seconds, hc⟩
  have ht := Settings.timely_of_covers hx
  refine ⟨fun s h => h.limited ht, fun directory budget s hsm hq => ?_⟩
  have hr : Reachable settings store s := ⟨directory, budget, hsm.reaches⟩
  have hl := hr.limited ht
  have hp := hsm.packed hx hq
  have hb := (balanced_iff hl).mpr hp
  refine ⟨hb, fun t hm hqt => ?_, fun depth submission hd =>
    ⟨enqueue_full_iff hr.settled.fit hb hd depth, fun hidle progress hpr => ?_⟩⟩
  · have hrt : Reachable settings store t := ⟨directory, budget, hsm.reaches.move hm⟩
    rw [balanced_iff (hrt.limited ht)]
    exact hm.packed_iff hr.settled (hr.settings ▸ hx) hp hqt
  · have hw : s.queue.waiting = [] := by
      rw [Queue.isIdle, Bool.and_eq_true] at hidle
      exact List.isEmpty_iff.mp hidle.2
    exact enqueue_known hr.settled.fit hw hd hpr depth

end Runs

/-- A job that is handed in where the only slot is taken waits. -/
theorem second_job_waits :
    let job := fun name : String => Command.enqueue ⟨name, some [], .none, none, .null⟩
    let s₀ := start .default (.selective [] []) "/" 9
    let s₁ := ((obey none (notifyUpTo 9) (job "a")).on s₀).2
    let s₂ := ((obey none (notifyUpTo 9) (job "b")).on s₁).2
    s₂.queue.active = [1] ∧ s₂.queue.waiting = [2] ∧ s₂.queue.Balanced := by
  intro job s₀ s₁ s₂
  obtain ⟨seconds, hc⟩ : ∃ seconds, Settings.default.timeoutSeconds = .ok seconds := by
    refine (Settings.timeoutSeconds_ok _).mpr ?_
    unfold Binary64.Covers
    decide +kernel
  have hx : Binary64.Covers Settings.default.queueTimeout := (Settings.timeoutSeconds_ok _).mp ⟨seconds, hc⟩
  have hq₁ : s₁.queue.Quiet := Queue.quiet_of_none (by decide +kernel)
  have hq₂ : s₂.queue.Quiet := Queue.quiet_of_none (by decide +kernel)
  have h₁ : Smoothly s₀ s₁ := Smoothly.refl.packed_move (.obey none 9 (job "a") rfl) hx hq₁ (.inl (by decide +kernel))
  have h₂ : Smoothly s₀ s₂ := h₁.packed_move (.obey none 9 (job "b") rfl) hx hq₂ (.inr (by decide +kernel))
  exact ⟨by decide +kernel, by decide +kernel, ((slots_in_use hc).2 "/" 9 s₂ h₂ hq₂).1⟩

/-- A listener that stops like a cancelled task when it is told that a job is queued leaves that job behind, with
    every slot free. -/
theorem left_behind :
    ∃ settings store s, Reachable settings store s ∧ (∃ seconds, settings.timeoutSeconds = .ok seconds) ∧ s.queue.Quiet ∧
      s.queue.waiting = [1] ∧ s.queue.active = [] := by
  let listener : Listener := ⟨"l", false, some .queued, none, 1, [.fail .taskCancelled]⟩
  let s := ((start .default (.selective [] []) "/" 9).giveAll none
    [.subscribe listener, .enqueue ⟨"a", some [], .none, none, .null⟩, .settle]).2
  have hlisteners : s.queue.listeners = [listener] := rfl
  refine ⟨.default, .selective [] [], s, ⟨"/", 9, giveAll_reaches _ _ _⟩, (Settings.timeoutSeconds_ok _).mpr ?_, ?_,
    by decide +kernel, by decide +kernel⟩
  · unfold Binary64.Covers
    decide +kernel
  · intro l hl step hstep
    rw [hlisteners] at hl
    cases List.mem_singleton.mp hl
    cases List.mem_singleton.mp hstep
    rfl

end Scheduler

end MediaEngine
