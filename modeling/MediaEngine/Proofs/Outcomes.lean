import MediaEngine.Proofs.Tales

/-! # What decides how a job ends

The rule is read off the story: a token that is signalled by the time the scripts are through means that the
job is canceled, and else the job is completed, canceled or failed as its scripts came out (`Ruled`). A job ends
exactly when its story comes to an ending, and then the rule holds unless a listener stopped like a cancelled
task, either when it was told that the job cools down or, where the token is signalled, that it ended
(`token_wins`). -/

namespace MediaEngine
open Job Scheduler

/-- The body returned a result, and the preview ended if there is one. -/
def ScriptsSucceed (hasPreview : Bool) (story : List Milestone) : Prop :=
  (∃ value signalled result, .body (.ok value) signalled ∈ story ∧ RunResult.ofValue value = .ok result) ∧
    (hasPreview = true → ∃ signalled, .preview (.ok ()) signalled ∈ story)

/-- The body or the preview stopped with a fault which means that the job was asked to stop. -/
def ScriptsGiveUp (story : List Milestone) : Prop :=
  ∃ fault signalled, fault.meansCancelled = true ∧
    (.body (.error fault) signalled ∈ story ∨ .preview (.error fault) signalled ∈ story)

/-- The preview is called at most once, and only after a body that returned a result while the token was not
    signalled. -/
def CallsOnce (story : List Milestone) : Prop :=
  ∀ before rest, story = before ++ .called :: rest → .called ∉ rest ∧
    ∃ value result, before = [.body (.ok value) false] ∧ RunResult.ofValue value = .ok result

variable {hasPreview signalled : Bool} {story : List Milestone} {ending e : Ending}

namespace CallsOnce

theorem of_not_mem (h : .called ∉ story) : CallsOnce story := fun before _ he =>
  absurd (he ▸ List.mem_append_right before List.mem_cons_self) h

theorem of_called {value : Value} {result : RunResult} (hv : RunResult.ofValue value = .ok result) {rest : List Milestone}
    (h : .called ∉ rest) : CallsOnce (.body (.ok value) false :: .called :: rest) := by
  intro before _ he
  match before with
  | [] => cases he
  | [first] =>
    cases he
    exact ⟨h, value, result, rfl, hv⟩
  | _ :: _ :: more =>
    cases he
    exact absurd (List.mem_append_right more List.mem_cons_self) h

end CallsOnce

namespace Ending

theorem completed_iff (e : Ending) : (e.due false).status = .completed ↔ ∃ r, e = .result r := by
  cases e with
  | fault f => cases hf : f.meansCancelled <;> simp [due, hf]
  | result r => simp [due]

theorem canceled_iff (e : Ending) : (e.due false).status = .canceled ↔ ∃ f, e = .fault f ∧ f.meansCancelled = true := by
  cases e with
  | fault f => cases hf : f.meansCancelled <;> simp [due, hf]
  | result r => simp [due]

theorem failed_iff (e : Ending) : (e.due false).status = .failed ↔ ¬ (∃ r, e = .result r) ∧
    ¬ ∃ f, e = .fault f ∧ f.meansCancelled = true := by
  cases e with
  | fault f => cases hf : f.meansCancelled <;> simp [due, hf]
  | result r => simp [due]

end Ending

namespace Comes

/-- Where the token is not signalled, the story comes to a result exactly if the scripts succeeded. -/
theorem scriptsSucceed_iff (h : Comes hasPreview false story ending) :
    ScriptsSucceed hasPreview story ↔ ∃ r, ending = .result r := by
  cases h with
  | stops f | invalid _ hv | returns _ hv | cut hv | previews _ hv | previewStops _ _ hv => simp_all [ScriptsSucceed]

theorem not_scriptsGiveUp_cut (value : Value) : ¬ ScriptsGiveUp [.body (.ok value) false, .cut] := by
  simp [ScriptsGiveUp]

/-- Where the token is not signalled and no listener cut the story, the scripts gave up exactly if it says so. -/
theorem scriptsGiveUp_iff (h : Comes hasPreview false story ending) (hcut : .cut ∉ story) :
    ScriptsGiveUp story ↔ ∃ f, ending = .fault f ∧ f.meansCancelled = true := by
  cases h with
  | stops f | returns | previews | previewStops => simp [ScriptsGiveUp]
  | invalid => simp [ScriptsGiveUp, Fault.meansCancelled]
  | cut => simp at hcut

/-- A story is cut after a body that returned a result, while the token was not signalled. -/
theorem of_cut (h : Comes hasPreview signalled story ending) (hcut : .cut ∈ story) :
    signalled = false ∧ ending = .fault .taskCancelled ∧
      ∃ value result, RunResult.ofValue value = .ok result ∧ story = [.body (.ok value) false, .cut] := by
  cases h with
  | cut hv => exact ⟨rfl, rfl, _, _, hv, rfl⟩
  | _ => simp at hcut

/-- The story tells how the token stood in the end. -/
theorem signalled_eq {other : Bool} (h : Comes hasPreview signalled story ending) (h' : Comes hasPreview other story e) :
    other = signalled := by
  cases h <;> cases h' <;> rfl

theorem callsOnce (h : Comes hasPreview signalled story ending) : CallsOnce story := by
  cases h with
  | previews _ hv | previewStops _ _ hv => exact .of_called hv (by simp)
  | _ => exact .of_not_mem (by simp)

end Comes

namespace Scheduler
variable {s t : Scheduler} {j : Job} {id : JobId} {reason : Option String}

/-- How the job ended agrees with its token and its story. -/
structure Ruled (s : Scheduler) (story : List Milestone) (j : Job) : Prop where
  token : j.token.cancelled = true → j.status = .canceled ∧ j.errorMessage = none ∧
    ∃ e, s.entriesOf j.id = [e] ∧ e.status = .canceled ∧ e.outputPath = none ∧ e.errorMessage = none ∧
      e.message = j.token.reason
  completed : j.token.cancelled = false → (j.status = .completed ↔ ScriptsSucceed j.submission.hasPreview story)
  canceled : j.token.cancelled = false → (j.status = .canceled ↔ ScriptsGiveUp story)
  failed : j.token.cancelled = false →
    (j.status = .failed ↔ ¬ ScriptsSucceed j.submission.hasPreview story ∧ ¬ ScriptsGiveUp story)

/-- What is due to a job that started. -/
structure Settles (s : Scheduler) (story : List Milestone) (j : Job) : Prop where
  ends : j.finalized = true ↔ ∃ signalled ending, Comes j.submission.hasPreview signalled story ending
  signalled : ∀ signalled ending, Comes j.submission.hasPreview signalled story ending → j.token.cancelled = signalled
  ruled : j.finalized = true →
    (s.Ruled story j ↔ .cut ∉ story ∧ (j.token.cancelled = true → j.id ∉ s.queue.brokenOff))

/-- A signalled token wins unless there is no entry because listeners were not told of the end. -/
theorem Verdict.ruled_signalled (h : s.Verdict story j ending) (hc : j.token.cancelled = true) :
    s.Ruled story j ↔ j.id ∉ s.queue.brokenOff := by
  obtain ⟨-, -, hst, herr, hmsg, -, hlost, hentered⟩ := h
  rw [hc, Ending.due_signalled] at hst herr hentered
  have hno : j.token.cancelled ≠ false := by rw [hc]; decide
  constructor
  · intro hr hb
    obtain ⟨-, -, e, he, -⟩ := hr.token hc
    rw [hlost hb] at he
    cases he
  · intro hb
    obtain ⟨e, he, hes, hee, hem, hpath⟩ := hentered hb
    exact ⟨fun _ => ⟨hst, herr, e, he, hes.trans hst, hpath, hee.trans herr, hem.trans (hmsg hc)⟩,
      fun h => absurd h hno, fun h => absurd h hno, fun h => absurd h hno⟩

/-- Where the token is not signalled, the scripts decide unless a listener cut the story. -/
theorem Verdict.ruled_unsignalled (h : s.Verdict story j ending) (hc : j.token.cancelled = false) :
    s.Ruled story j ↔ .cut ∉ story := by
  obtain ⟨-, hcomes, hst, -⟩ := h
  rw [hc] at hcomes hst
  constructor
  · intro hr hcut
    obtain ⟨-, rfl, value, _, -, rfl⟩ := hcomes.of_cut hcut
    exact Comes.not_scriptsGiveUp_cut value ((hr.canceled hc).mp hst)
  · intro hcut
    have hgives := (hcomes.scriptsGiveUp_iff hcut).trans ending.canceled_iff.symm
    have hsucceeds := hcomes.scriptsSucceed_iff.trans ending.completed_iff.symm
    refine ⟨fun h => absurd h (by rw [hc]; decide), fun _ => ?_, fun _ => ?_, fun _ => ?_⟩
    · rw [hst, hsucceeds]
    · rw [hst, hgives]
    · rw [hst, hsucceeds, hgives, ending.failed_iff, ending.completed_iff, ending.canceled_iff]

theorem Verdict.ruled_iff (h : s.Verdict story j ending) :
    s.Ruled story j ↔ .cut ∉ story ∧ (j.token.cancelled = true → j.id ∉ s.queue.brokenOff) := by
  cases hc : j.token.cancelled with
  | true =>
    have hcut : .cut ∉ story := fun hm => by
      have hcomes := h.comes
      rw [hc] at hcomes
      cases (hcomes.of_cut hm).1
    rw [h.ruled_signalled hc]
    exact ⟨fun hb => ⟨hcut, fun _ => hb⟩, fun hb => hb.2 rfl⟩
  | false =>
    rw [h.ruled_unsignalled hc]
    exact ⟨fun hcut => ⟨hcut, nofun⟩, And.left⟩

/-! ## In a run -/

theorem Tale.settles (h : s.Tale j.id story) (hj : s.queue.job? j.id = some j) (hstarted : j.startedAt.isSome = true) :
    s.Settles story j := by
  have still (ho : j.finalized = false) (hno : ∀ signalled ending, ¬ Comes j.submission.hasPreview signalled story ending) :
      s.Settles story j := by
    have hopen : j.finalized ≠ true := by rw [ho]; decide
    exact ⟨⟨fun hfin => absurd hfin hopen, fun ⟨signalled, ending, hc⟩ => absurd hc (hno signalled ending)⟩,
      fun signalled ending hc => absurd hc (hno signalled ending), fun hfin => absurd hfin hopen⟩
  cases h with
  | early he => exact still (he.begun j hj hstarted).1 fun _ _ hc => by cases hc
  | called _ hk ho =>
    cases hj.symm.trans hk
    exact still ho fun _ _ hc => by cases hc
  | ended hd =>
    obtain ⟨k, ending, hk, hv⟩ := hd
    cases hj.symm.trans hk
    exact ⟨⟨fun _ => ⟨_, ending, hv.comes⟩, fun _ => hv.finalized⟩, fun _ _ hc => hc.signalled_eq hv.comes,
      fun _ => hv.ruled_iff⟩

theorem Tale.callsOnce (h : s.Tale id story) : CallsOnce story := by
  cases h with
  | early => exact .of_not_mem (by simp)
  | called _ _ _ _ hv => exact .of_called hv (by simp)
  | ended hd =>
    obtain ⟨_, _, _, hv⟩ := hd
    exact hv.comes.callsOnce

section Runs
variable {settings : Settings} {store : Store} {directory : String} {budget : Nat} {ms : List (JobId × Milestone)}

/-- As long as no listener calls back, a job that started ends exactly when its scripts are through, and as its token
    and its scripts demand, unless a listener that was told that it cools down stopped like a cancelled task, or
    one that was told of its end while the token is signalled. The preview is called at most once, after a body
    that returned a result. A token is signalled once and for all, and its reason is the one of the first call. -/
theorem token_wins (h : Course (start settings store directory budget) ms s) (hq : s.queue.Quiet) :
    (∀ j ∈ s.queue.jobs, j.startedAt.isSome = true → s.Settles (storyOf ms j.id) j) ∧
      (∀ id, CallsOnce (storyOf ms id)) ∧
      (∀ id reason, s.queue.Signalled id reason →
        (∃ r u v, Reaches (start settings store directory budget) r ∧ Moments r u ∧ u.queue.isCancelled id = false ∧
          Signals id reason u v) ∧
        ∀ t, Reaches s t → t.queue.Signalled id reason) ∧
      ∀ u : Scheduler, u.Fit → ∀ id j reason, u.queue.job? id = some j →
        ((signalToken id reason).on u).2.queue.Signalled id (if j.token.cancelled then j.token.reason else reason) := by
  have hstart := start_settled settings store directory budget
  have hs := (h.reaches.passes hstart).settled
  refine ⟨fun j hj hstarted => ?_, fun id => (h.tale hq id).callsOnce,
    fun id reason hsig => ⟨?_, fun t ht => ht.signalled hs hsig⟩,
    fun u hf id j reason hj => signalToken_signalled hf hj reason⟩
  · exact (h.tale hq j.id).settles (Queue.job?_of_mem hs.fit.nodup hj) hstarted
  · refine (h.reaches.first hstart hsig).resolve_left ?_
    rintro ⟨j, hj, -⟩
    cases hj

end Runs

/-- A job that signals its own token and then returns ends canceled, and its entry tells why. -/
theorem signalled_job_canceled :
    let s := ((start .default (.selective [] []) "/" 9).giveAll none
      [.enqueue ⟨"a", some [.cancelToken (some "why")], .none, none, .null⟩, .settle]).2
    s.queue.jobs.map Job.status = [.canceled] ∧ s.queue.recorded.map Entry.message = [some "why"] ∧
      ∃ ms, Course (start .default (.selective [] []) "/" 9) ms s ∧
        ∀ j ∈ s.queue.jobs, j.token.cancelled = true ∧ s.Ruled (storyOf ms j.id) j := by
  intro s
  have hq : s.queue.Quiet := Queue.quiet_of_none (by decide +kernel)
  have hbroken : s.queue.brokenOff = [] := by decide +kernel
  have hjobs : (s.queue.jobs.all fun j => j.startedAt.isSome && j.finalized && j.token.cancelled) = true := by decide +kernel
  obtain ⟨ms, hcourse⟩ := (giveAll_reaches none (start .default (.selective [] []) "/" 9)
    [.enqueue ⟨"a", some [.cancelToken (some "why")], .none, none, .null⟩, .settle]).course
  refine ⟨by decide +kernel, by decide +kernel, ms, hcourse, fun j hj => ?_⟩
  have hflags := List.all_eq_true.mp hjobs j hj
  simp only [Bool.and_eq_true] at hflags
  obtain ⟨⟨hstarted, hfin⟩, hc⟩ := hflags
  have hsettles := (token_wins hcourse hq).1 j hj hstarted
  obtain ⟨signalled, ending, hcomes⟩ := hsettles.ends.mp hfin
  have hsignalled := hsettles.signalled signalled ending hcomes
  refine ⟨hc, (hsettles.ruled hfin).mpr ⟨fun hcut => ?_, fun _ => by rw [hbroken]; exact List.not_mem_nil⟩⟩
  have hunsignalled := (hcomes.of_cut hcut).1
  rw [← hsignalled, hc] at hunsignalled
  cases hunsignalled

/-- A listener that stops like a cancelled task when it is told that a job cools down has the job canceled, although
    its body returned a result, its token is not signalled, and its preview is never called. -/
theorem cut_short_canceled :
    ∃ settings store directory budget ms s, Course (start settings store directory budget) ms s ∧ s.queue.Quiet ∧
      ∃ j ∈ s.queue.jobs, j.startedAt.isSome = true ∧ j.finalized = true ∧ j.token.cancelled = false ∧
        j.status = .canceled ∧ ¬ s.Ruled (storyOf ms j.id) j ∧
        ∃ value result, RunResult.ofValue value = .ok result ∧ storyOf ms j.id = [.body (.ok value) false, .cut] := by
  let listener : Listener := ⟨"l", false, some .status, none, 1, [.fail .taskCancelled]⟩
  let s₀ := start .default (.selective [] []) "/" 9
  let s₁ := ((obey none (notifyUpTo 9) (.subscribe listener)).on s₀).2
  let s₂ := ((obey none (notifyUpTo 9) (.enqueue ⟨"a", some [], .immediate [], none, .null⟩)).on s₁).2
  let s₃ := ((runTask (notifyUpTo 9) 0).on s₂).2
  let ms := milestones (notifyUpTo 9) s₂ 0
  have hcourse : Course s₀ ms s₃ := ((Course.refl.obey none 9 _ rfl).obey none 9 _ rfl).turn 9 0
  have hlisteners : (s₃.queue.listeners.all fun l => l.steps.all fun step => !step.callsBack) = true := by decide +kernel
  have hq : s₃.queue.Quiet := fun l hl step hstep => by
    simpa using List.all_eq_true.mp (List.all_eq_true.mp hlisteners l hl) step hstep
  have hjobs : (s₃.queue.jobs.any fun j => j.id == 1 && j.startedAt.isSome && j.finalized && !j.token.cancelled &&
      j.status == .canceled) = true := by decide +kernel
  have hstory : ((storyOf ms 1).any fun m => match m with
      | .cut => true
      | _ => false) = true := by decide +kernel
  -- Its story ends as it was cut short, which is what the ruling excludes.
  have hcut : .cut ∈ storyOf ms 1 := by
    obtain ⟨m, hm, hmcut⟩ := List.any_eq_true.mp hstory
    cases m with
    | cut => exact hm
    | _ => cases hmcut
  obtain ⟨j, hj, hflags⟩ := List.any_eq_true.mp hjobs
  simp only [Bool.and_eq_true, Bool.not_eq_true', beq_iff_eq] at hflags
  obtain ⟨⟨⟨⟨hid, hstarted⟩, hfin⟩, hc⟩, hst⟩ := hflags
  rw [← hid] at hcut
  have hs : Settled s₃ := (hcourse.reaches.passes (start_settled _ _ _ _)).settled
  have hsettles := (hcourse.tale hq j.id).settles (Queue.job?_of_mem hs.fit.nodup hj) hstarted
  obtain ⟨_, _, hcomes⟩ := hsettles.ends.mp hfin
  obtain ⟨-, -, value, result, hv, he⟩ := hcomes.of_cut hcut
  exact ⟨_, _, _, _, ms, s₃, hcourse, hq, j, hj, hstarted, hfin, hc, hst, fun hr => ((hsettles.ruled hfin).mp hr).1 hcut,
    value, result, hv, he⟩

end Scheduler

end MediaEngine
