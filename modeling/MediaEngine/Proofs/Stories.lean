import MediaEngine.Proofs.Runs

/-! # Stories of jobs

A scheduler does not keep what the body and the preview of a job came to. A story does: the turn of a job is
narrated, milestone by milestone, and without the milestones it is the turn that the scheduler takes
(`narrateJob_narrates`). A course is a run together with the milestones of its turns. -/

namespace MediaEngine
open Job Scheduler

/-- What the scripts of a job come to. -/
inductive Milestone where
  /-- The body returned a value or stopped with a fault, and whether the token was signalled then. -/
  | body (came : Except Fault Value) (signalled : Bool)
  /-- The preview is called. -/
  | called
  /-- The preview ended or stopped with a fault, and whether the token was signalled then. -/
  | preview (came : Except Fault Unit) (signalled : Bool)
  /-- Not all were told that the job cools down, as a listener stopped like a cancelled task. -/
  | cut

/-- An act along with which milestones are told. What was told before a fault stays told. -/
abbrev Narrated := ExceptT Fault (StateM (Scheduler × List Milestone))

namespace Narrated
variable {α β : Type}

/-- What comes of a narrated act: how it ended, the scheduler it leaves, and what was told by then. -/
def on (x : Narrated α) (s : Scheduler) (story : List Milestone) : Except Fault α × Scheduler × List Milestone :=
  x.run (s, story)

/-- Tells of an act what it came to. -/
def telling (x : Act α) (told : Except Fault α → Scheduler → List Milestone) : Narrated α :=
  ExceptT.mk fun (s, story) => ((x.on s).1, (x.on s).2, story ++ told (x.on s).1 (x.on s).2)

/-- Tells nothing of an act. -/
def silently (x : Act α) : Narrated α := telling x fun _ _ => []

/-- Tells a milestone. -/
def milestone (m : Milestone) : Narrated Unit := telling (pure ()) fun _ _ => [m]

/-- Without what it tells, the narrated act is the other one; and what it tells does not depend on what was told
    before. -/
def Narrates (x' : Narrated α) (x : Act α) : Prop :=
  ∀ s, ∃ new, ∀ story, x'.on s story = ((x.on s).1, (x.on s).2, story ++ new)

theorem on_bind (x : Narrated α) (f : α → Narrated β) (s : Scheduler) (story : List Milestone) :
    (x >>= f).on s story = match x.on s story with
      | (.ok a, t, told) => (f a).on t told
      | (.error e, t, told) => (.error e, t, told) := by
  change ExceptT.bindCont f (x.on s story).1 (x.on s story).2 = _
  rcases x.on s story with ⟨_ | _, t, told⟩ <;> rfl

theorem on_telling (x : Act α) (told : Except Fault α → Scheduler → List Milestone) (s : Scheduler)
    (story : List Milestone) :
    (telling x told).on s story = ((x.on s).1, (x.on s).2, story ++ told (x.on s).1 (x.on s).2) := rfl

theorem on_silently (x : Act α) (s : Scheduler) (story : List Milestone) :
    (silently x).on s story = ((x.on s).1, (x.on s).2, story) := by
  rw [silently, on_telling, List.append_nil]

theorem narrates_telling (x : Act α) (told : Except Fault α → Scheduler → List Milestone) : Narrates (telling x told) x :=
  fun _ => ⟨_, fun _ => rfl⟩

theorem narrates_pure (a : α) : Narrates (pure a) (pure a) := fun s => ⟨[], fun story => by rw [List.append_nil]; rfl⟩

/-- Something that is told and is no act of its own. -/
theorem narrates_milestone {x' : Unit → Narrated α} {x : Act α} (m : Milestone) (h : Narrates (x' ()) x) :
    Narrates (milestone m >>= x') x := fun s => by
  obtain ⟨new, hnew⟩ := h s
  refine ⟨m :: new, fun story => ?_⟩
  rw [on_bind, milestone, on_telling]
  exact (hnew _).trans (by rw [List.append_assoc]; rfl)

theorem Narrates.bind {x' : Narrated α} {x : Act α} {f' : α → Narrated β} {f : α → Act β} (hx : Narrates x' x)
    (hf : ∀ a, Narrates (f' a) (f a)) : Narrates (x' >>= f') (x >>= f) := fun s => by
  obtain ⟨new, hnew⟩ := hx s
  rcases hr : x.on s with ⟨e | a, t⟩
  · refine ⟨new, fun story => ?_⟩
    rw [on_bind, hnew, hr, Act.on_bind_error hr]
  · obtain ⟨more, hmore⟩ := hf a t
    refine ⟨new ++ more, fun story => ?_⟩
    rw [on_bind, hnew, hr, Act.on_bind_ok hr, ← List.append_assoc]
    exact hmore _

end Narrated

namespace Scheduler
open Narrated

/-! ## The turn of a job, narrated -/

/-- What is told of a body that was played. -/
def bodyTold (id : JobId) : Except Fault Played → Scheduler → List Milestone
  | .ok (.waiting _ _), _ => []
  | .ok (.returned value), t => [.body (.ok value) (t.queue.isCancelled id)]
  | .error fault, t => [.body (.error fault) (t.queue.isCancelled id)]

/-- What is told of a preview that was played. -/
def previewTold (id : JobId) : Except Fault Played → Scheduler → List Milestone
  | .ok (.waiting _ _), _ => []
  | .ok (.returned _), t => [.preview (.ok ()) (t.queue.isCancelled id)]
  | .error fault, t => [.preview (.error fault) (t.queue.isCancelled id)]

/-- What is told where listeners were told that a job cools down. -/
def coolTold : Except Fault Unit → Scheduler → List Milestone
  | .ok (), _ => []
  | .error _, _ => [.cut]

/-- What is told where the task of a job was cancelled: the script that waited stops. -/
def killedTold (id : JobId) (phase : Phase) (t : Scheduler) : List Milestone :=
  match phase with
  | .preview _ _ => [.preview (.error .taskCancelled) (t.queue.isCancelled id)]
  | _ => [.body (.error .taskCancelled) (t.queue.isCancelled id)]

/-- Plays the preview of a job on, narrated. -/
def narratePreview (notify : Notify) (j : Job) (result : RunResult) (steps : List Step) : Narrated TurnEnd := do
  match ← telling (play notify (previewPlayer j result) steps) (previewTold j.id) with
  | .waiting pause rest => return .waiting pause (.preview result rest)
  | .returned _ => silently (previewed notify j result)

/-- What follows a body whose value is read, narrated. -/
def narrateResult (notify : Notify) (j : Job) (result : RunResult) : Narrated TurnEnd := do
  silently (takeTimes j result)
  if (← silently queueNow).isCancelled j.id then
    silently do
      cancel notify j.id none
      return .over
  else
    match j.submission.preview with
    | .waiting steps =>
      telling (setStatus notify j.id .coolingDown) coolTold
      milestone .called
      narratePreview notify j result steps
    | .immediate steps =>
      telling (setStatus notify j.id .coolingDown) coolTold
      milestone .called
      telling (playAtOnce notify (previewPlayer j result) steps) fun came t => [.preview came (t.queue.isCancelled j.id)]
      silently (previewed notify j result)
    | _ =>
      silently do
        finish notify j.id .completed result.outputPath none none
        return .over

/-- What follows the body, narrated. -/
def narrateSettling (notify : Notify) (j : Job) (value : Value) : Narrated TurnEnd := do
  let result ← silently (yieldOr ((RunResult.ofValue value).mapError Fault.result))
  narrateResult notify j result

/-- Plays the body of a job on, narrated. -/
def narrateBody (notify : Notify) (j : Job) (steps : List Step) : Narrated TurnEnd := do
  match ← telling (play notify (bodyPlayer j) steps) (bodyTold j.id) with
  | .waiting pause rest => return .waiting pause (.body rest)
  | .returned value => narrateSettling notify j value

/-- Plays a job on, narrated. -/
def narrateJob (notify : Notify) (j : Job) (phase : Phase) (killed : Bool) : Narrated TurnEnd :=
  if killed then telling (throw .taskCancelled) fun _ => killedTold j.id phase
  else
    match phase with
    | .fresh => narrateBody notify j (j.submission.body.getD [])
    | .body rest => narrateBody notify j rest
    | .preview result rest => narratePreview notify j result rest

variable {notify : Notify}

theorem narratePreview_narrates (j : Job) (result : RunResult) (steps : List Step) :
    Narrates (narratePreview notify j result steps) (playPreview notify j result steps) := by
  refine (narrates_telling _ _).bind fun played => ?_
  cases played with
  | waiting pause rest => exact narrates_pure _
  | returned value => exact narrates_telling _ _

theorem narrateSettling_narrates (j : Job) (value : Value) :
    Narrates (narrateSettling notify j value) (settleBody notify j value) := by
  refine (narrates_telling _ _).bind fun result => (narrates_telling _ _).bind fun _ => (narrates_telling _ _).bind fun q => ?_
  split
  · exact narrates_telling _ _
  · cases j.submission.preview with
    | waiting steps =>
      exact (narrates_telling _ _).bind fun _ => narrates_milestone _ (narratePreview_narrates j result steps)
    | immediate steps =>
      exact (narrates_telling _ _).bind fun _ => narrates_milestone _ <|
        (narrates_telling _ _).bind fun _ => narrates_telling _ _
    | none | notRunnable => exact narrates_telling _ _

theorem narrateBody_narrates (j : Job) (steps : List Step) :
    Narrates (narrateBody notify j steps) (playBody notify j steps) := by
  refine (narrates_telling _ _).bind fun played => ?_
  cases played with
  | waiting pause rest => exact narrates_pure _
  | returned value => exact narrateSettling_narrates j value

/-- A job that is narrated is the job that is played. -/
theorem narrateJob_narrates (notify : Notify) (j : Job) (phase : Phase) (killed : Bool) :
    Narrates (narrateJob notify j phase killed) (playJob notify j phase killed) := by
  unfold narrateJob playJob
  split
  · exact narrates_telling _ _
  · cases phase with
    | fresh => exact narrateBody_narrates j _
    | body rest => exact narrateBody_narrates j rest
    | preview result rest => exact narratePreview_narrates j result rest

/-! ## Courses -/

/-- The milestones of the turn of a task. -/
def milestones (notify : Notify) (s : Scheduler) (task : TaskId) : List (JobId × Milestone) :=
  match s.playing? task with
  | none => []
  | some (owner, phase, killed) =>
    match (s.heeding task).queue.job? owner with
    | none => []
    | some j => ((narrateJob notify j phase killed).on (s.heeding task) []).2.2.map fun m => (owner, m)

/-- A run, with the milestones of its turns in order. -/
inductive Course (s : Scheduler) : List (JobId × Milestone) → Scheduler → Prop
  | refl : Course s [] s
  | obey {ms t} (supplied : Option Store) (depth : Nat) (c : Command) : Course s ms t → c.isImmediate = true →
      Course s ms ((obey supplied (notifyUpTo depth) c).on t).2
  | turn {ms t} (depth : Nat) (task : TaskId) : Course s ms t →
      Course s (ms ++ milestones (notifyUpTo depth) t task) ((runTask (notifyUpTo depth) task).on t).2
  | fire {ms t} (depth : Nat) (action : TimerAction) : Course s ms t →
      Course s ms ((fire (notifyUpTo depth) action).on t).2
  | loop {ms t} (l : Loop TimerAction) : Course s ms t → Course s ms { t with loop := l }

/-- The milestones of a job. -/
def storyOf (ms : List (JobId × Milestone)) (id : JobId) : List Milestone :=
  ms.filterMap fun (owner, m) => if owner = id then some m else none

variable {s t : Scheduler} {ms : List (JobId × Milestone)} {id : JobId}

theorem Course.reaches (h : Course s ms t) : Reaches s t := by
  induction h with
  | refl => exact .refl
  | obey supplied depth c _ hc ih => exact ih.move (.obey supplied depth c hc)
  | turn depth task _ ih => exact ih.move (.turn depth task)
  | fire depth action _ ih => exact ih.move (.fire depth action)
  | loop l _ ih => exact ih.move (.loop l)

/-- Every run is a course. -/
theorem Reaches.course (h : Reaches s t) : ∃ ms, Course s ms t := by
  induction h with
  | refl => exact ⟨[], .refl⟩
  | move _ hm ih =>
    obtain ⟨ms, hc⟩ := ih
    cases hm with
    | obey supplied depth c hi => exact ⟨ms, .obey supplied depth c hc hi⟩
    | turn depth task => exact ⟨_, .turn depth task hc⟩
    | fire depth action => exact ⟨ms, .fire depth action hc⟩
    | loop l => exact ⟨ms, .loop l hc⟩

theorem storyOf_append (ms new : List (JobId × Milestone)) (id : JobId) :
    storyOf (ms ++ new) id = storyOf ms id ++ storyOf new id := List.filterMap_append

theorem storyOf_own (story : List Milestone) (id : JobId) : storyOf (story.map fun m => (id, m)) id = story := by
  simp [storyOf, List.filterMap_map]

theorem storyOf_other {owner : JobId} (story : List Milestone) (h : owner ≠ id) :
    storyOf (story.map fun m => (owner, m)) id = [] := by
  simp [storyOf, List.filterMap_map, h]

end Scheduler

end MediaEngine
