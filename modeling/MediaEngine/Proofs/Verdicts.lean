import MediaEngine.Proofs.Aside
import MediaEngine.Proofs.Quiet

/-! # How a turn ends a job

The story of a job comes to an ending, and the ending decides together with the token how the job ends
(`Verdict`). A turn is followed along its narration: as long as no listener calls back, it leaves the job
waiting at the place that its story has reached, or ended as its story and its token demand (`Follows`). -/

namespace MediaEngine
open Job Scheduler

/-- Whether a preview follows the body. -/
def Job.Submission.hasPreview (s : Submission) : Bool :=
  match s.preview with
  | .waiting _ => true
  | .immediate _ => true
  | .none => false
  | .notRunnable => false

/-- What the scripts of a job come to in the end. -/
inductive Ending where
  | fault (f : Fault)
  | result (r : RunResult)

/-- How a job is left. -/
structure Left where
  status : Job.Status
  outputPath : Option String
  errorMessage : Option String

/-- How a job is due to be left: a signalled token wins over everything else. -/
def Ending.due (signalled : Bool) : Ending → Left
  | fault f => if f.meansCancelled || signalled then ⟨.canceled, none, none⟩ else ⟨.failed, none, some f.description⟩
  | result r => if signalled then ⟨.canceled, none, none⟩ else ⟨.completed, r.outputPath, none⟩

theorem Ending.due_signalled (e : Ending) : e.due true = ⟨.canceled, none, none⟩ := by
  cases e with
  | fault f => exact if_pos (Bool.or_true _)
  | result r => rfl

theorem Ending.due_isTerminal (signalled : Bool) (e : Ending) : (e.due signalled).status.isTerminal = true := by
  cases e with
  | fault f =>
    rw [Ending.due]
    split <;> rfl
  | result r =>
    rw [Ending.due]
    split <;> rfl

/-- The story of a job with or without a preview comes to an ending, and then the token is signalled or not. -/
inductive Comes (hasPreview : Bool) : Bool → List Milestone → Ending → Prop
  | stops (f : Fault) (signalled : Bool) : Comes hasPreview signalled [.body (.error f) signalled] (.fault f)
  | invalid {value : Value} {e : ResultError} (signalled : Bool) : RunResult.ofValue value = .error e →
      Comes hasPreview signalled [.body (.ok value) signalled] (.fault (.result e))
  | returns {value : Value} {r : RunResult} (signalled : Bool) : RunResult.ofValue value = .ok r →
      signalled = true ∨ hasPreview = false → Comes hasPreview signalled [.body (.ok value) signalled] (.result r)
  | cut {value : Value} {r : RunResult} : RunResult.ofValue value = .ok r → hasPreview = true →
      Comes hasPreview false [.body (.ok value) false, .cut] (.fault .taskCancelled)
  | previews {value : Value} {r : RunResult} (signalled : Bool) : RunResult.ofValue value = .ok r → hasPreview = true →
      Comes hasPreview signalled [.body (.ok value) false, .called, .preview (.ok ()) signalled] (.result r)
  | previewStops {value : Value} {r : RunResult} (f : Fault) (signalled : Bool) : RunResult.ofValue value = .ok r →
      hasPreview = true → Comes hasPreview signalled [.body (.ok value) false, .called, .preview (.error f) signalled] (.fault f)

/-- How far a job is that waits, when its story is told so far. -/
def Phase.Reached (hasPreview : Bool) (story : List Milestone) : Phase → Prop
  | .preview result _ => hasPreview = true ∧
      ∃ value, RunResult.ofValue value = .ok result ∧ story = [.body (.ok value) false, .called]
  | _ => story = []

/-- Nothing about how a job ended differs, and neither does its token. -/
structure Job.Frozen (j k : Job) : Prop extends Tuned j k where
  cancelled : k.token.cancelled = j.token.cancelled

theorem Job.Frozen.trans {j k l : Job} (h₁ : Frozen j k) (h₂ : Frozen k l) : Frozen j l :=
  ⟨h₁.toTuned.trans h₂.toTuned, h₂.cancelled.trans h₁.cancelled⟩

namespace Scheduler

/-- The one entry of a job tells how it ended. -/
def Entered (s : Scheduler) (j : Job) (path : Option String) : Prop :=
  ∃ e, s.entriesOf j.id = [e] ∧ e.status = j.status ∧ e.errorMessage = j.errorMessage ∧ e.message = j.message ∧
    e.outputPath = path

/-- The job has ended as its story and its token demand, and there is an entry of it unless telling so was broken
    off. -/
structure Verdict (s : Scheduler) (story : List Milestone) (j : Job) (ending : Ending) : Prop where
  finalized : j.finalized = true
  comes : Comes j.submission.hasPreview j.token.cancelled story ending
  status : j.status = (ending.due j.token.cancelled).status
  errorMessage : j.errorMessage = (ending.due j.token.cancelled).errorMessage
  message : j.token.cancelled = true → j.message = j.token.reason
  unsaid : j.status ≠ .canceled → j.message = none
  lost : j.id ∈ s.queue.brokenOff → s.entriesOf j.id = []
  entered : j.id ∉ s.queue.brokenOff → s.Entered j (ending.due j.token.cancelled).outputPath

/-- The job of a number has ended, as is due. -/
def Decided (s : Scheduler) (id : JobId) (story : List Milestone) : Prop :=
  ∃ j ending, s.queue.job? id = some j ∧ s.Verdict story j ending

variable {s t u : Scheduler} {id : JobId} {j k : Job} {story : List Milestone} {ending : Ending} {depth : Nat}

/-! ## What keeps a verdict -/

theorem token_eq (hj : s.queue.job? id = some j) (hk : t.queue.job? id = some k)
    (h : t.queue.isCancelled id = s.queue.isCancelled id) : k.token.cancelled = j.token.cancelled := by
  rwa [Queue.isCancelled, hk, Queue.isCancelled, hj] at h

theorem Hushed.frozen (h : Hushed s t) (hj : s.queue.job? id = some j) : ∃ k, t.queue.job? id = some k ∧ Frozen j k := by
  obtain ⟨k, hk, ht⟩ := Queue.tuned_job?_some h.jobs hj
  exact ⟨k, hk, ht, token_eq hj hk (h.signalled id)⟩

theorem entriesOf_congr (h : t.queue.recorded = s.queue.recorded) (id : JobId) : t.entriesOf id = s.entriesOf id := by
  rw [entriesOf, h, entriesOf]

theorem Verdict.frozen (h : s.Verdict story j ending) (hk : Frozen j k) (he : t.entriesOf j.id = s.entriesOf j.id)
    (hb : j.id ∈ t.queue.brokenOff ↔ j.id ∈ s.queue.brokenOff) : t.Verdict story k ending where
  finalized := hk.finalized.trans h.finalized
  comes := by
    rw [hk.submission, hk.cancelled]
    exact h.comes
  status := by rw [hk.status, hk.cancelled, h.status]
  errorMessage := by rw [hk.errorMessage, hk.cancelled, h.errorMessage]
  message hc := by
    rw [hk.cancelled] at hc
    rw [hk.message, hk.reason hc, h.message hc]
  unsaid hne := hk.message.trans (h.unsaid (hk.status ▸ hne))
  lost hm := by
    rw [hk.id] at hm ⊢
    exact he.trans (h.lost (hb.mp hm))
  entered hm := by
    rw [hk.id] at hm
    obtain ⟨e, hone, hst, herr, hmsg, hpath⟩ := h.entered fun h' => hm (hb.mpr h')
    refine ⟨e, ?_, hst.trans hk.status.symm, herr.trans hk.errorMessage.symm, hmsg.trans hk.message.symm, ?_⟩
    · rw [hk.id, he, hone]
    · rw [hpath, hk.cancelled]

theorem Decided.inert (h : s.Decided id story) (hi : Inert s t) : t.Decided id story := by
  obtain ⟨j, ending, hj, hv⟩ := h
  obtain ⟨k, hk, hfrozen⟩ := hi.hushed.frozen hj
  exact ⟨k, ending, hk, hv.frozen hfrozen (entriesOf_congr hi.recorded _) (by rw [hi.brokenOff])⟩

/-- What has ended outlasts a frame in which its token is left alone. -/
theorem Decided.frame {told : Option Event} {b : Bool} (h : s.Decided id story) (hf : Frame told b s t id)
    (hn : ∀ event, told = some event → event.snapshot.id ≠ id) (ha : id ∉ s.queue.active)
    (hsig : ∀ r, t.queue.Signalled id r ↔ s.queue.Signalled id r) : t.Decided id story := by
  obtain ⟨j, ending, hj, hv⟩ := h
  obtain ⟨k, hk, hlasts, hheads⟩ := hf.job j hj
  have hst : k.status = j.status := by
    cases hheads with
    | still hst _ => exact hst
    | asked hm _ _ _ _ _ => exact absurd hm ha
  have hc : t.queue.isCancelled id = s.queue.isCancelled id := by
    rw [Bool.eq_iff_iff, isCancelled_iff, isCancelled_iff]
    exact exists_congr hsig
  have hid : j.id = id := Queue.job?_id hj
  subst hid
  exact ⟨k, ending, hk, hv.frozen ⟨⟨hlasts, hst⟩, token_eq hj hk hc⟩ hf.entries (hf.told_iff hn).2⟩

/-! ## Ending a job -/

section Ending
variable {status : Job.Status} {path errorMessage : Option String}

/-- The verdict on a job that ended as is due, where nothing about how it ended has changed since. -/
theorem ended_verdict {now : Nat} (hcomes : Comes j.submission.hasPreview j.token.cancelled story ending)
    (hdue : ending.due j.token.cancelled = ⟨status, path, errorMessage⟩)
    (hk : Frozen (j.ended now status errorMessage none) k) (hlost : k.id ∈ s.queue.brokenOff → s.entriesOf k.id = [])
    (hentered : k.id ∉ s.queue.brokenOff → s.Entered k path) : s.Verdict story k ending := by
  have hc : k.token.cancelled = j.token.cancelled := hk.cancelled
  rw [← hc] at hcomes hdue
  refine ⟨hk.finalized, ?_, ?_, ?_, fun hsig => ?_, fun hne => ?_, hlost, ?_⟩
  · rw [hk.submission]
    exact hcomes
  · rw [hdue]
    exact hk.status
  · rw [hdue]
    exact hk.errorMessage
  · have hstatus : status = .canceled := by
      rw [hsig, ending.due_signalled] at hdue
      exact (congrArg Left.status hdue).symm
    rw [hk.message, hk.reason (hc.symm.trans hsig), hstatus]
    rfl
  · have hstatus : status ≠ .canceled := fun h => hne (hk.status.trans h)
    rw [hk.message]
    change j.finalMessage status none = none
    cases status with
    | canceled => exact absurd rfl hstatus
    | _ => rfl
  · rw [hdue]
    exact hentered

theorem finish_leaving (depth : Nat) (hw : Working s id) (hj : s.queue.job? id = some j)
    (hdue : ending.due j.token.cancelled = ⟨status, path, errorMessage⟩) :
    Leaving ((finish (notifyUpTo depth) id status path errorMessage none).on s).2 id := by
  obtain ⟨j', hj', hopen, -⟩ := hw.job
  cases hj.symm.trans hj'
  obtain ⟨r, u, hr, hends⟩ := finish_ends (notifyUpTo_notifies depth) hw.fit (fun hm => hw.past (.inl hm)) hj hopen status path
    errorMessage none
  have hterminal : status.isTerminal = true := by
    have h := ending.due_isTerminal j.token.cancelled
    rwa [hdue] at h
  have hcanceled : s.queue.isCancelled id = true → status = .canceled := fun hc => by
    rw [Queue.isCancelled, hj] at hc
    change j.token.cancelled = true at hc
    rw [hc, ending.due_signalled] at hdue
    exact (congrArg Left.status hdue).symm
  rw [hr]
  exact (hw.ends hterminal hcanceled hends).1

/-- A job that works ends as is due. -/
theorem finish_decides (hw : Working s id) (hj : s.queue.job? id = some j)
    (hq : ((finish (notifyUpTo depth) id status path errorMessage none).on s).2.queue.Quiet)
    (hcomes : Comes j.submission.hasPreview j.token.cancelled story ending)
    (hdue : ending.due j.token.cancelled = ⟨status, path, errorMessage⟩) :
    Decided ((finish (notifyUpTo depth) id status path errorMessage none).on s).2 id story := by
  have hleaving := finish_leaving depth hw hj hdue
  obtain ⟨j', hj', hopen, hnone, -⟩ := hw.job
  cases hj.symm.trans hj'
  have hh : Notifies (fun _ => Quietly none fun _ => Hushed) (notifyUpTo depth) := notifyUpTo_quietly (fun h => h) depth
  obtain ⟨r, t, u, hr, ht, hu⟩ := finish_on hh hw.fit (fun hm => hw.past (.inl hm)) hj hopen status path errorMessage none
  rw [hr] at hq hleaving ⊢
  have hhush := ht.2 (hq.before hu.listeners)
  obtain ⟨k, hk, hfrozen⟩ := hhush.frozen (Queue.job?_update_self (by intro; rfl) hj)
  have hid : k.id = id := Queue.job?_id hk
  have hempty : t.entriesOf id = [] := (entriesOf_congr hhush.recorded id).trans hnone
  cases hb : Broken r with
  | true =>
    rw [hb] at hu
    obtain ⟨rfl, hlost⟩ := hu
    refine ⟨k, ending, hk, ended_verdict hcomes hdue hfrozen (fun _ => by rw [hid, hempty]) fun hno => ?_⟩
    rw [hid] at hno
    exact absurd hlost hno
  | false =>
    rw [hb] at hu
    have hu : Inert (t.keep id path) u := hu
    have hkept : (t.keep id path).queue.job? id = some k := by rw [keep, hk]; exact hk
    obtain ⟨l, hl, hkl⟩ := hu.hushed.frozen hkept
    have hlid : l.id = id := Queue.job?_id hl
    have hone : u.entriesOf id = [k.entry path] := by
      rw [entriesOf_congr hu.recorded, entriesOf_keep hk, hempty, if_pos rfl, List.nil_append]
    -- It has its entry, and so it is none of those of whose end not all were told.
    have hbroken : id ∉ u.queue.brokenOff := by
      obtain ⟨_, _, -, hclosed⟩ := hleaving.job
      cases hclosed with
      | lost _ h => rw [hone] at h; cases h
      | filed _ h _ _ _ _ => exact h
    refine ⟨l, ending, hl, ended_verdict hcomes hdue (hfrozen.trans hkl) (fun h => absurd (hlid ▸ h) hbroken) fun _ => ?_⟩
    refine ⟨k.entry path, ?_, hkl.status.symm, hkl.errorMessage.symm, hkl.message.symm, rfl⟩
    rw [hlid, hone]

end Ending

/-- The job stopped with a fault and is still to end. -/
def Stops (s : Scheduler) (j : Job) (f : Fault) (story : List Milestone) : Prop :=
  ∃ k ending, s.queue.job? j.id = some k ∧ k.finalized = false ∧
    Comes k.submission.hasPreview k.token.cancelled story ending ∧ (ending = .fault f ∨ k.token.cancelled = true)

/-- A job that stopped with a fault ends as is due. -/
theorem absorb_decides {f : Fault} (hw : Working s j.id) (h : s.Stops j f story)
    (hq : ((absorb (notifyUpTo depth) j.id f).on s).2.queue.Quiet) :
    Decided ((absorb (notifyUpTo depth) j.id f).on s).2 j.id story := by
  obtain ⟨k, ending, hk, -, hcomes, hfault⟩ := h
  have hc : s.queue.isCancelled j.id = k.token.cancelled := by rw [Queue.isCancelled, hk]; rfl
  have hdue : ending.due k.token.cancelled = (Ending.fault f).due k.token.cancelled := by
    rcases hfault with rfl | hsig
    · rfl
    · rw [hsig, Ending.due_signalled, Ending.due_signalled]
  unfold absorb at hq ⊢
  rw [Act.on_queueNow_bind, hc] at hq ⊢
  split at hq
  · rename_i h
    rw [if_pos h]
    exact finish_decides hw hk hq hcomes (hdue.trans (if_pos h))
  · rename_i h
    rw [if_neg h]
    exact finish_decides hw hk hq hcomes (hdue.trans (if_neg h))

/-! ## Following a turn -/

/-- The job whose turn it is works. -/
structure Playing (s : Scheduler) (j : Job) : Prop where
  working : Working s j.id
  known : ∃ k, s.queue.job? j.id = some k ∧ k.submission = j.submission

/-- What a turn has come to: the job waits where its story is, is still to end, or has ended. -/
def After (j : Job) : Except Fault TurnEnd × Scheduler × List Milestone → Prop
  | (.ok (.waiting _ phase), _, story) => phase.Reached j.submission.hasPreview story
  | (.ok .over, t, story) => t.Decided j.id story
  | (.error f, t, story) => t.Stops j f story ∨ t.Decided j.id story

/-- Where no listener calls back, a turn that is narrated comes to what its story is then. -/
def Follows (story : List Milestone) (s : Scheduler) (j : Job) (x : Narrated TurnEnd) : Prop :=
  Playing s j → (x.on s story).2.1.queue.Quiet → After j (x.on s story)

namespace Playing

theorem beside (h : Playing s j) (hw : Working t j.id) (hb : Beside j.id s t) : Playing t j := by
  obtain ⟨k, hk, hs⟩ := h.known
  obtain ⟨l, hl, hs'⟩ := hb.continues.knows _ _ hk
  exact ⟨hw, l, hl, hs'.trans hs⟩

theorem leads {α : Type} {x : Act α} (h : Playing s j) (hx : Leads (Evolves none) s x) : Playing (x.on s).2 j :=
  have hw := h.working.evolves (hx h.working.fit)
  h.beside hw.1 hw.2

theorem comes (h : Playing s j) (ht : Comes j.submission.hasPreview (s.queue.isCancelled j.id) story ending) :
    ∃ k, s.queue.job? j.id = some k ∧ k.finalized = false ∧ s.queue.isCancelled j.id = k.token.cancelled ∧
      Comes k.submission.hasPreview k.token.cancelled story ending := by
  obtain ⟨k, hk, hs⟩ := h.known
  obtain ⟨k', hk', hopen, -⟩ := h.working.job
  cases hk.symm.trans hk'
  have hc : s.queue.isCancelled j.id = k.token.cancelled := by rw [Queue.isCancelled, hk]; rfl
  rw [hc, ← hs] at ht
  exact ⟨k, hk, hopen, hc, ht⟩

theorem stops {f : Fault} (h : Playing s j) (ht : Comes j.submission.hasPreview (s.queue.isCancelled j.id) story ending)
    (hfault : ending = .fault f ∨ s.queue.isCancelled j.id = true) : s.Stops j f story := by
  obtain ⟨k, hk, hopen, hc, ht⟩ := h.comes ht
  exact ⟨k, ending, hk, hopen, ht, hc ▸ hfault⟩

/-- The turn ends the job, as is due. -/
theorem ends {status : Job.Status} {path errorMessage : Option String} (h : Playing s j)
    (ht : Comes j.submission.hasPreview (s.queue.isCancelled j.id) story ending)
    (hdue : ending.due (s.queue.isCancelled j.id) = ⟨status, path, errorMessage⟩)
    (hq : ((finish (notifyUpTo depth) j.id status path errorMessage none).on s).2.queue.Quiet) :
    Decided ((finish (notifyUpTo depth) j.id status path errorMessage none).on s).2 j.id story := by
  obtain ⟨k, hk, -, hc, ht⟩ := h.comes ht
  exact finish_decides h.working hk hq ht (hc ▸ hdue)

end Playing

open Narrated

namespace Follows
variable {α : Type} {x : Act α} {told : Except Fault α → Scheduler → List Milestone} {f : α → Narrated TurnEnd}

theorem bind (hx : Playing s j → Playing (x.on s).2 j)
    (hok : ∀ a t, x.on s = (.ok a, t) → Follows (story ++ told (.ok a) t) t j (f a))
    (herr : ∀ e t, x.on s = (.error e, t) → Playing s j → Playing t j → t.queue.Quiet →
      After j (.error e, t, story ++ told (.error e) t)) : Follows story s j (telling x told >>= f) := by
  intro hp hq
  have ht := hx hp
  rw [on_bind, on_telling] at hq ⊢
  rcases hr : x.on s with ⟨e | a, t⟩ <;> rw [hr] at hq ht
  · exact herr e t hr hp ht hq
  · exact hok a t hr ht hq

/-- The first act is known, and nothing is told of it. -/
theorem step {a : α} (hx : x.on s = (.ok a, t)) (ht : Playing s j → Playing t j) (h : Follows story t j (f a)) :
    Follows story s j (silently x >>= f) := by
  intro hp hq
  rw [on_bind, on_silently, hx] at hq ⊢
  exact h (ht hp) hq

theorem milestone {m : Milestone} {f : Unit → Narrated TurnEnd} (h : Follows (story ++ [m]) s j (f ())) :
    Follows story s j (milestone m >>= f) := by
  intro hp hq
  rw [on_bind, Narrated.milestone, on_telling] at hq ⊢
  exact h hp hq

theorem waiting (pause : Pause) {phase : Phase} (h : phase.Reached j.submission.hasPreview story) :
    Follows story s j (pure (.waiting pause phase)) := fun _ _ => h

/-- An act of which nothing is told, and which comes to what another one does. -/
theorem same {x y : Act TurnEnd} (hx : x.on s = y.on s) (h : Follows story s j (silently y)) :
    Follows story s j (silently x) := by
  have he : (silently x).on s story = (silently y).on s story := by rw [on_silently, hx, on_silently]
  intro hp hq
  rw [he] at hq ⊢
  exact h hp hq

theorem throw {f : Fault} (ht : Comes j.submission.hasPreview (s.queue.isCancelled j.id) story ending)
    (hfault : ending = .fault f ∨ s.queue.isCancelled j.id = true) : Follows story s j (silently (throw f)) := by
  intro hp hq
  rw [on_silently] at hq ⊢
  exact .inl (hp.stops ht hfault)

/-- The turn ends the job. -/
theorem finish {status : Job.Status} {path errorMessage : Option String}
    (ht : Comes j.submission.hasPreview (s.queue.isCancelled j.id) story ending)
    (hdue : ending.due (s.queue.isCancelled j.id) = ⟨status, path, errorMessage⟩) :
    Follows story s j (silently do
      Scheduler.finish (notifyUpTo depth) j.id status path errorMessage none
      return .over) := by
  intro hp hq
  have hends : (_ → Decided ((Scheduler.finish (notifyUpTo depth) j.id status path errorMessage none).on s).2 j.id story) :=
    hp.ends ht hdue
  rw [on_silently, Act.on_bind] at hq ⊢
  rcases hr : (Scheduler.finish (notifyUpTo depth) j.id status path errorMessage none).on s with ⟨e | ⟨⟩, t⟩ <;>
    rw [hr] at hq hends
  · exact .inr (hends hq)
  · exact hends hq

end Follows

theorem play_playing {p : Player} (hp : p.job = some j.id) (steps : List Step) (h : Playing s j) :
    Playing ((play (notifyUpTo depth) p steps).on s).2 j :=
  h.leads (play_leads ((notifyUpTo_notifies depth).serves none) (h.working.player hp) steps)

theorem previewed_follows {value : Value} {result : RunResult} (hv : RunResult.ofValue value = .ok result)
    (hp : j.submission.hasPreview = true) :
    Follows [.body (.ok value) false, .called, .preview (.ok ()) (s.queue.isCancelled j.id)] s j
      (silently (previewed (notifyUpTo depth) j result)) := by
  have hcomes : Comes j.submission.hasPreview (s.queue.isCancelled j.id)
      [.body (.ok value) false, .called, .preview (.ok ()) (s.queue.isCancelled j.id)] (.result result) := .previews _ hv hp
  refine Follows.same (Act.on_queueNow_bind _) ?_
  split
  · rename_i hc
    exact Follows.throw hcomes (.inr hc)
  · rename_i hc
    refine Follows.finish hcomes ?_
    rw [Bool.eq_false_iff.mpr hc]
    rfl

theorem narratePreview_follows {value : Value} {result : RunResult} (hv : RunResult.ofValue value = .ok result)
    (hp : j.submission.hasPreview = true) (steps : List Step) :
    Follows [.body (.ok value) false, .called] s j (narratePreview (notifyUpTo depth) j result steps) := by
  refine Follows.bind (play_playing rfl steps) (fun played t _ => ?_) fun e t _ _ ht _ => ?_
  · cases played with
    | waiting pause rest => exact Follows.waiting pause ⟨hp, value, hv, rfl⟩
    | returned _ => exact previewed_follows hv hp
  · exact .inl (ht.stops (.previewStops e _ hv hp) (.inl rfl))

/-- All are told that the job cools down, or a listener stops like a cancelled task. -/
theorem cool_follows {value : Value} {result : RunResult} (hv : RunResult.ofValue value = .ok result)
    (hp : j.submission.hasPreview = true) (hc : s.queue.isCancelled j.id = false) {f : Unit → Narrated TurnEnd}
    (h : ∀ t, Follows [.body (.ok value) false] t j (f ())) :
    Follows [.body (.ok value) false] s j (telling (setStatus (notifyUpTo depth) j.id .coolingDown) coolTold >>= f) := by
  refine Follows.bind (fun hplay => ?_) (fun _ t _ => ?_) fun e t hr hplay ht hq => ?_
  · obtain ⟨r, t, hr, hplays⟩ := cool_on (notifyUpTo_notifies depth) hplay.working hc
    obtain ⟨hw, hb⟩ := hplay.working.plays hplays
    rw [hr]
    exact hplay.beside hw hb
  · rw [coolTold, List.append_nil]
    exact h t
  · -- Listeners who do not call back signal no token, so the token is not signalled after they were told either.
    have hfit := hplay.working.cools.1.fit
    have hn : Notifies Evolves (notifyUpTo depth) := notifyUpTo_notifies depth
    cases hn.fault _ _ _ _ _ hr
    have hhush := notifyUpTo_hushed depth .status j.id hfit
    have hr' : (notifyUpTo depth .status j.id).on (s.mapQueue (·.update j.id fun j => { j with status := .coolingDown })) =
      (.error .taskCancelled, t) := hr
    rw [hr'] at hhush
    have hsame : t.queue.isCancelled j.id = false := by
      rw [(hhush hq).signalled, Bool.eq_false_iff, Ne, isCancelled_iff]
      rintro ⟨r, hsig⟩
      have hs := (signalled_update (by intro; rfl) (by intro; rfl) _).mp hsig
      rw [(isCancelled_iff _ _).mpr ⟨r, hs⟩] at hc
      cases hc
    exact .inl (ht.stops (hsame ▸ .cut hv hp) (.inl rfl))

theorem moveSilently_on (id : JobId) {f : Progress → Except ArithmeticError Progress} (h : ∀ p, ∃ p', f p = .ok p') :
    ∃ t, (takeTimes.moveSilently id f).on s = (.ok (), t) := by
  unfold takeTimes.moveSilently
  rw [Act.on_queueNow_bind]
  cases s.queue.job? id with
  | none => exact ⟨s, rfl⟩
  | some k =>
    obtain ⟨p', hp'⟩ := h k.progress
    dsimp only
    rw [hp']
    exact ⟨_, rfl⟩

/-- The times of a result are doubles, and so they can be taken over. -/
theorem takeTimes_on (hf : Fit s) (j : Job) (result : RunResult) : ∃ t, (takeTimes j result).on s = (.ok (), t) ∧ Inert s t := by
  have total (x : Binary64) (p : Progress) : ∃ p', p.setTotal (.double x) = .ok p' := ⟨_, rfl⟩
  have output (x : Binary64) (p : Progress) : ∃ p', p.setOutput (.double x) = .ok p' := ⟨_, rfl⟩
  have hok : ∃ u, (takeTimes j result).on s = (.ok (), u) := by
    unfold takeTimes
    cases result.totalTime with
    | none =>
      cases result.outputTime with
      | none => exact ⟨s, rfl⟩
      | some y => exact moveSilently_on j.id (output y)
    | some x =>
      obtain ⟨u, hu⟩ := moveSilently_on (s := s) j.id (total x)
      dsimp only
      rw [Act.on_bind_ok hu]
      cases result.outputTime with
      | none => exact ⟨u, rfl⟩
      | some y => exact moveSilently_on j.id (output y)
  obtain ⟨u, hu⟩ := hok
  obtain ⟨r, t, hr, -, ht⟩ : ∃ r t, _ ∧ _ ∧ Inert s t := calm_takeTimes j result hf
  cases hr.symm.trans hu
  exact ⟨u, hu, ht⟩

/-- What follows a body whose value is read, for a token that stands as the story has it. -/
theorem narrateResult_follows {value : Value} {result : RunResult} (hv : RunResult.ofValue value = .ok result) :
    Follows [.body (.ok value) (s.queue.isCancelled j.id)] s j (narrateResult (notifyUpTo depth) j result) := by
  intro hplay
  obtain ⟨t, ht, hi⟩ := takeTimes_on hplay.working.fit j result
  have hpt : Playing t j := by
    have h := hplay.leads (calm_takeTimes j result).leads
    rwa [ht] at h
  rw [← hi.hushed.signalled j.id]
  refine Follows.step ht (fun _ => hpt) (Follows.step (x := queueNow) rfl (fun h => h) ?_) hplay
  -- A job whose token was signalled by now, or which has no preview, ends with its result.
  split
  · rename_i hsig
    exact Follows.finish (.returns _ hv (.inl hsig)) (by rw [hsig]; rfl)
  · rename_i hsig
    have hsig : t.queue.isCancelled j.id = false := Bool.eq_false_iff.mpr hsig
    have completes (hno : j.submission.hasPreview = false) :
        Follows [.body (.ok value) (t.queue.isCancelled j.id)] t j (silently do
          finish (notifyUpTo depth) j.id .completed result.outputPath none none
          return .over) :=
      Follows.finish (.returns _ hv (.inr hno)) (by rw [hsig]; rfl)
    rw [hsig] at completes ⊢
    cases hp : j.submission.preview with
    | none | notRunnable => exact completes (by rw [Submission.hasPreview, hp])
    | waiting steps =>
      have hpre : j.submission.hasPreview = true := by rw [Submission.hasPreview, hp]
      exact cool_follows hv hpre hsig fun u => Follows.milestone (narratePreview_follows hv hpre steps)
    | immediate steps =>
      have hpre : j.submission.hasPreview = true := by rw [Submission.hasPreview, hp]
      refine cool_follows hv hpre hsig fun u => Follows.milestone ?_
      refine Follows.bind (fun h => h.leads ?_) (fun _ w _ => previewed_follows hv hpre) fun e w _ _ hw _ => ?_
      · exact playAtOnce_leads ((notifyUpTo_notifies depth).serves none) (h.working.player rfl) steps
      · exact .inl (hw.stops (.previewStops e _ hv hpre) (.inl rfl))

theorem narrateSettling_follows (value : Value) :
    Follows [.body (.ok value) (s.queue.isCancelled j.id)] s j (narrateSettling (notifyUpTo depth) j value) := by
  unfold narrateSettling
  cases hv : RunResult.ofValue value with
  | error e =>
    intro hplay hq
    exact .inl (hplay.stops (.invalid _ hv) (.inl rfl))
  | ok result => exact Follows.step rfl (fun h => h) (narrateResult_follows hv)

theorem narrateBody_follows (steps : List Step) : Follows [] s j (narrateBody (notifyUpTo depth) j steps) := by
  refine Follows.bind (play_playing rfl steps) (fun played t _ => ?_) fun e t _ _ ht _ => ?_
  · cases played with
    | waiting pause rest => exact Follows.waiting pause rfl
    | returned value => exact narrateSettling_follows value
  · exact .inl (ht.stops (.stops e _) (.inl rfl))

/-- A turn that begins where its story is comes to what its story is then. -/
theorem narrateJob_follows {phase : Phase} (h : phase.Reached j.submission.hasPreview story) (killed : Bool) :
    Follows story s j (narrateJob (notifyUpTo depth) j phase killed) := by
  unfold narrateJob
  split
  · intro hp hq
    rw [on_telling]
    cases phase with
    | fresh | body rest =>
      obtain rfl : story = [] := h
      exact .inl (hp.stops (.stops .taskCancelled _) (.inl rfl))
    | preview result rest =>
      obtain ⟨hpre, value, hv, rfl⟩ := h
      exact .inl (hp.stops (.previewStops .taskCancelled _ hv hpre) (.inl rfl))
  · cases phase with
    | fresh | body rest =>
      obtain rfl : story = [] := h
      exact narrateBody_follows _
    | preview result rest =>
      obtain ⟨hpre, value, hv, rfl⟩ := h
      exact narratePreview_follows hv hpre rest

end Scheduler

end MediaEngine
