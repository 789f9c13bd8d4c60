import MediaEngine.Proofs.Shallow

/-! # Runs before two audiences

A run before an audience that only observes is mirrored by the run before the same audience without those who are
hidden: every act yields the same in both, and leaves two schedulers that differ in nothing but their audiences and in
what those noted (`Alike`). -/

namespace MediaEngine
open Job

/-- What is asked of scripts that leave alone those who are hidden: they do not subscribe or unsubscribe them, and whomever
    they subscribe only observes. -/
def Job.Terms.hiding (hidden : String → Bool) : Terms where
  holds _ := true
  sets _ _ := true
  seats l := l.steps.all Step.observes && !hidden l.name
  leaves name := !hidden name
  holds_set _ _ _ _ _ := rfl

/-- Whoever only observes meets all terms. -/
theorem Job.scriptMeets_of_observes {terms : Terms} {steps : List Step} (h : ∀ step ∈ steps, step.observes = true) :
    scriptMeets terms steps = true := by
  induction steps with
  | nil => rfl
  | cons step rest ih =>
    have hrest := ih fun x hx => h x (List.mem_cons_of_mem _ hx)
    have hstep := h step List.mem_cons_self
    rw [scriptMeets, hrest, Bool.and_true]
    cases step <;> first | rfl | cases hstep

namespace Scheduler
variable {hidden : String → Bool} {s t : Scheduler}

/-- Two schedulers that differ in nothing but their audiences, of which the second is the first without those who are
    hidden, and in what those noted. -/
structure Alike (hidden : String → Bool) (s t : Scheduler) : Prop where
  same : t = s.facing t.queue.subscriptions t.queue.subscribed t.notes
  company : Company hidden s.queue t.queue
  notes : seen hidden t.notes = seen hidden s.notes
  fair : s.Fair (.hiding hidden)

theorem Alike.queue (h : Alike hidden s t) : t.queue = s.queue.facing t.queue.subscriptions t.queue.subscribed :=
  congrArg Scheduler.queue h.same

theorem Alike.change {g : Scheduler → Scheduler} (h : Alike hidden s t)
    (hg : ∀ s a b ns, g (s.facing a b ns) = (g s).facing a b ns) (hfair : (g s).Fair (.hiding hidden)) : Alike hidden (g s) (g t) := by
  have hs : g s = (g s).facing s.queue.subscriptions s.queue.subscribed s.notes := hg s _ _ _
  have ht : g t = (g s).facing t.queue.subscriptions t.queue.subscribed t.notes := by
    rw [← hg]
    exact congrArg g h.same
  refine ⟨?_, ?_, ?_, hfair⟩
  · rw [ht]
    rfl
  · rw [hs, ht]
    exact ⟨h.company.seated, h.company.seated', h.company.same, h.company.observes⟩
  · rw [hs, ht]
    exact h.notes

instance (hidden : String → Bool) : Likeness (.hiding hidden) (Alike hidden) where
  same h := h.same
  fair h := h.fair
  change _ h hg hfair := h.change hg hfair
  noted {s t n} h _ := by
    refine ⟨congrArg (fun u : Scheduler => u.noted n) h.same, h.company, ?_, h.fair.queue, h.fair.tasks⟩
    rw [noted_notes, noted_notes, seen_append, seen_append, h.notes]
  subscribe {s t l} h hseats _ := by
    obtain ⟨hobs, hshown⟩ := Bool.and_eq_true_iff.mp hseats
    exact ⟨congrArg (fun u : Scheduler => u.mapQueue (·.subscribe l)) h.same,
      h.company.subscribe (List.all_eq_true.mp hobs) ((Bool.not_eq_true' _).mp hshown), h.notes, h.fair.queue, h.fair.tasks⟩
  unsubscribe {s t name} h hleaves := by
    refine (h.company.unsubscribe ((Bool.not_eq_true' _).mp hleaves)).imp_right fun ⟨i, i', hs, ht, hc⟩ => ⟨i, i', hs, ht, ?_⟩
    exact ⟨congrArg (fun u : Scheduler => u.mapQueue (·.unsubscribe i')) h.same, hc, h.notes, h.fair.queue, h.fair.tasks⟩

theorem notifyUpTo_informs (hidden : String → Bool) (n : Nat) :
    Informs (.hiding hidden) (Alike hidden) (notifyUpTo n) (notifyUpTo n) where
  tells kind id s t h := by
    obtain ⟨c, c', ms, ms', hs, ht, hc, hseen⟩ := notifyUpTo_company n (h.queue ▸ h.company) kind id s.notes t.notes
    refine ⟨.ok (), s.facing c s.queue.subscribed (s.notes ++ ms), s.facing c' t.queue.subscribed (t.notes ++ ms'), hs, ?_,
      ⟨rfl, hc, ?_, h.fair.queue, h.fair.tasks⟩, fun _ _ => trivial⟩
    · rw [← ht, ← h.same]
    · exact (seen_append ..).trans ((congr (congrArg _ h.notes) hseen).trans (seen_append ..).symm)
  copies _ _ := rfl

/-! ## Commands -/

/-- A command by which those who are hidden come or go. -/
def Command.isHidden (hidden : String → Bool) : Command → Bool
  | .subscribe l => hidden l.name
  | .unsubscribe name => hidden name
  | _ => false

/-- A command that hands in scripts that leave alone those who are hidden, or subscribes those who only observe. -/
def Command.isFair (hidden : String → Bool) : Command → Bool
  | .enqueue submission => submission.meets (.hiding hidden)
  | .enqueueOutside submission => submission.meets (.hiding hidden)
  | .subscribe l => l.steps.all Job.Step.observes
  | _ => true

section Commands
variable {c : Command}

theorem Command.meets_of_fair (hfair : c.isFair hidden = true) (hshown : c.isHidden hidden = false) :
    c.meets (.hiding hidden) = true := by
  cases c with
  | enqueue | enqueueOutside => exact hfair
  | subscribe l =>
    have hseats : (Terms.hiding hidden).seats l = true := Bool.and_eq_true_iff.mpr ⟨hfair, (Bool.not_eq_true' _).mpr hshown⟩
    exact Bool.and_eq_true_iff.mpr ⟨hseats, l.meets_eq _ ▸ scriptMeets_of_observes (List.all_eq_true.mp hfair)⟩
  | unsubscribe name => exact (Bool.not_eq_true' _).mpr hshown
  | _ => rfl

/-- A command by which those who are hidden come or go leaves a scheduler that is alike. -/
theorem obey_hidden (supplied : Option Store) (notify : Notify) (h : Alike hidden s t) (hfair : c.isFair hidden = true)
    (hhidden : c.isHidden hidden = true) :
    ∃ r s', (obey supplied notify c).on s = (r, s') ∧ s'.notes = s.notes ∧ Alike hidden s' t := by
  cases c with
  | subscribe l =>
    refine ⟨.ok .done, s.mapQueue (·.subscribe l), rfl, rfl, h.same, ?_, h.notes, h.fair.queue, h.fair.tasks⟩
    exact h.company.subscribe_hidden (List.all_eq_true.mp hfair) hhidden
  | unsubscribe name =>
    rcases h.company.unsubscribe_hidden hhidden with hs | ⟨i, hs, hc⟩
    · refine ⟨.error (.unknownName name), s, Act.on_bind_error ?_, rfl, h⟩
      rw [unsubscribe, Act.on_queueNow_bind, hs]
      rfl
    · refine ⟨.ok .done, s.mapQueue (·.unsubscribe i), ?_, rfl, h.same, hc, h.notes, h.fair.queue, h.fair.tasks⟩
      have hon : (unsubscribe name).on s = (.ok (), s.mapQueue (·.unsubscribe i)) := by
        rw [unsubscribe, Act.on_queueNow_bind, hs]
        rfl
      exact Act.on_bind_ok hon
  | _ => cases hhidden

end Commands

/-! ## Runs -/

/-- A response without the notes of those who are hidden. -/
def Response.hiding (hidden : String → Bool) (r : Response) : Response := { r with notes := seen hidden r.notes }

/-- The commands other than those by which those who are hidden come or go. -/
def shown (hidden : String → Bool) (commands : List Command) : List Command := commands.filter fun c => !c.isHidden hidden

/-- The responses to these, without the notes of those who are hidden. -/
def answers (hidden : String → Bool) (commands : List Command) (responses : List Response) : List Response :=
  ((commands.zip responses).filter fun x => !x.1.isHidden hidden).map fun x => x.2.hiding hidden

/-- Who has subscribed and is not hidden, how often they have acted, and whether they are still subscribed. -/
def attendance (hidden : String → Bool) (s : Scheduler) : List (Subscription × Bool) :=
  others hidden (Queue.seats s.queue.subscribed 0 s.queue.subscriptions)

/-- The scheduler without an audience, and without the notes of those who are hidden. -/
def unattended (hidden : String → Bool) (s : Scheduler) : Scheduler := s.facing [] [] (seen hidden s.notes)

variable {hidden : String → Bool} {s t : Scheduler} {c : Command} {settings : Settings} {store : Store} {directory : String}
  {budget : Nat}

theorem Alike.unattended (h : Alike hidden s t) : t.unattended hidden = s.unattended hidden := by
  rw [Scheduler.unattended, Scheduler.unattended, h.notes, h.same]
  rfl

theorem attendance_idem (h : Alike hidden s t) : t.attendance hidden = s.attendance hidden := by
  rw [attendance, attendance, h.company.same, others, others, List.filter_filter]
  simp only [Bool.and_self]

/-- What is noted in answer to a command is added to what was noted before. -/
theorem Runs.give_notes (h : Runs (start settings store directory budget) s) (supplied : Option Store) (c : Command) :
    s.notes <+: (s.give supplied c).2.notes :=
  have ⟨hs, ht, _⟩ := h.basics
  (Runs.sound (runs_drives.command supplied s.budget c) hs ht).2.2.notes

theorem give_on {supplied : Option Store} {r : Except Fault Reply} (h : (obey supplied (notifyUpTo s.budget) c).on s = (r, t)) :
    s.give supplied c = (⟨r, t.queue.overview, t.notes.drop s.notes.length⟩, t) := by
  have hrun : (obey supplied (notifyUpTo s.budget) c).run s = (r, t) := h
  rw [give, giveWithin, hrun]

theorem giveAll_cons (supplied : Option Store) (s : Scheduler) (c : Command) (rest : List Command) :
    s.giveAll supplied (c :: rest) =
      ((s.give supplied c).1 :: ((s.give supplied c).2.giveAll supplied rest).1, ((s.give supplied c).2.giveAll supplied rest).2) :=
  rfl

/-- Schedulers that are alike respond to a command in the same way, except for the notes of those who are hidden. -/
theorem give_alike {settings' : Settings} {store' : Store} {directory' : String} {budget' : Nat}
    (hs : Runs (start settings store directory budget) s) (ht : Runs (start settings' store' directory' budget') t)
    (h : Alike hidden s t) (supplied : Option Store) (hfair : c.isFair hidden = true) (hshown : c.isHidden hidden = false) :
    (t.give supplied c).1.hiding hidden = (s.give supplied c).1.hiding hidden ∧
      Alike hidden (s.give supplied c).2 (t.give supplied c).2 := by
  have hbudget : t.budget = s.budget := by rw [h.same]; rfl
  obtain ⟨ms, hms⟩ := hs.give_notes supplied c
  obtain ⟨ms', hms'⟩ := ht.give_notes supplied c
  have hmeets := Command.meets_of_fair hfair hshown
  obtain ⟨r, s', t', hon, hon', h', -⟩ := obey_mirrors (notifyUpTo_informs hidden s.budget) supplied hmeets h
  rw [give_on hon] at hms ⊢
  rw [← hbudget] at hon'
  rw [give_on hon'] at hms' ⊢
  dsimp only at hms hms'
  have hretireview : t'.queue.overview = s'.queue.overview := by rw [h'.queue]; rfl
  have hnotes : seen hidden ms' = seen hidden ms := by
    have hall := h'.notes
    rw [← hms, ← hms', seen_append, seen_append, h.notes] at hall
    exact List.append_cancel_left hall
  refine ⟨?_, h'⟩
  rw [Response.hiding, Response.hiding, hretireview, ← hms, ← hms', List.drop_left, List.drop_left, hnotes]

/-- A run is mirrored by the one without the commands by which those who are hidden come or go. -/
theorem giveAll_alike (hs : Runs (start settings store directory budget) s) (ht : Runs (start settings store directory budget) t)
    (h : Alike hidden s t) (supplied : Option Store) {commands : List Command} (hfair : ∀ c ∈ commands, c.isFair hidden = true) :
    answers hidden (shown hidden commands) (t.giveAll supplied (shown hidden commands)).1 =
        answers hidden commands (s.giveAll supplied commands).1 ∧
      Alike hidden (s.giveAll supplied commands).2 (t.giveAll supplied (shown hidden commands)).2 := by
  induction commands generalizing s t with
  | nil => exact ⟨rfl, h⟩
  | cons c rest ih =>
    have hrest : ∀ c ∈ rest, c.isFair hidden = true := fun x hx => hfair x (List.mem_cons_of_mem _ hx)
    have hs' := hs.trans (runs_drives.command supplied s.budget c)
    cases hc : c.isHidden hidden with
    | true =>
      obtain ⟨r, s', hon, -, h'⟩ := obey_hidden supplied (notifyUpTo s.budget) h (hfair c List.mem_cons_self) hc
      rw [hon] at hs'
      obtain ⟨hanswers, halike⟩ := ih hs' ht h' hrest
      have hshown : shown hidden (c :: rest) = shown hidden rest := List.filter_cons_of_neg (by simp [hc])
      rw [hshown, giveAll_cons, give_on hon]
      refine ⟨hanswers.trans ?_, halike⟩
      rw [answers, answers, List.zip_cons_cons, List.filter_cons_of_neg (by simp [hc])]
    | false =>
      have ht' := ht.trans (runs_drives.command supplied t.budget c)
      obtain ⟨hresponse, h'⟩ := give_alike hs ht h supplied (hfair c List.mem_cons_self) hc
      obtain ⟨hanswers, halike⟩ := ih hs' ht' h' hrest
      have hshown : shown hidden (c :: rest) = c :: shown hidden rest := List.filter_cons_of_pos (by simp [hc])
      rw [hshown, giveAll_cons, giveAll_cons]
      refine ⟨?_, halike⟩
      rw [answers, answers, List.zip_cons_cons, List.zip_cons_cons, List.filter_cons_of_pos (by simp [hc]),
        List.filter_cons_of_pos (by simp [hc]), List.map_cons, List.map_cons]
      exact congr (congrArg _ hresponse) hanswers

/-- Listeners that only observe, or stop with ordinary faults, do not interfere where all metadata that are handed in can be
    copied. Two runs in which the same is done, except that those who are hidden come and go differently, respond in the same
    way to all else: with the same answers and overviews, and with the same notes, other than those of who is hidden and those
    about listeners that failed. They leave the same jobs, tasks, timers and history, and those who are not hidden have heard
    the same and acted as often. As there may be any commands and any budget, this is so after every command and every turn. -/
theorem observers_invisible (settings : Settings) (store : Store) (directory : String) (budget : Nat) (copies : Copying)
    (supplied : Option Store) {terms : Terms} (hcopies : ∀ m, terms.holds m = true → copies m = true) {hidden : String → Bool}
    {commands commands' : List Command} (hfair : ∀ c ∈ commands, c.isFair hidden = true ∧ c.meets terms = true)
    (hfair' : ∀ c ∈ commands', c.isFair hidden = true ∧ c.meets terms = true)
    (hsame : shown hidden commands' = shown hidden commands) :
    let run := (start settings store directory budget).giveAllWithin copies supplied commands
    let run' := (start settings store directory budget).giveAllWithin copies supplied commands'
    answers hidden commands' run'.1 = answers hidden commands run.1 ∧ run'.2.unattended hidden = run.2.unattended hidden ∧
      run'.2.attendance hidden = run.2.attendance hidden := by
  have hmeets := start_meets terms settings store directory budget
  have hrun := giveAllWithin_total hcopies supplied hmeets fun c hc => (hfair c hc).2
  have hrun' := giveAllWithin_total hcopies supplied hmeets fun c hc => (hfair' c hc).2
  have hstart : Alike hidden (start settings store directory budget) (start settings store directory budget) :=
    ⟨rfl, .refl_of_none rfl rfl, rfl, ⟨fun _ h => (by cases h), fun _ h => (by cases h)⟩⟩
  obtain ⟨hanswers, halike⟩ := giveAll_alike .refl .refl hstart supplied fun c hc => (hfair c hc).1
  obtain ⟨hanswers', halike'⟩ := giveAll_alike .refl .refl hstart supplied fun c hc => (hfair' c hc).1
  rw [hsame] at hanswers' halike'
  rw [hrun, hrun']
  exact ⟨hanswers'.symm.trans hanswers, halike'.unattended.symm.trans halike.unattended,
    (attendance_idem halike').symm.trans (attendance_idem halike)⟩

/-- A listener that fails on the start of a job is not noticed by another one, who hears all four events of it. -/
theorem failing_observer_invisible :
    let job : Command := .enqueue ⟨"a", some [.total (.int 5), .output (.int 2)], .immediate [.seeResult], some [("k", .null)], .null⟩
    let m : Command := .subscribe ⟨"m", false, none, none, 0, []⟩
    let l : Command := .subscribe ⟨"l", false, some .started, none, 1, [.seeQueue, .fail (.raised .value [])]⟩
    let run := (start .default (.selective [] []) "/" 9).giveAllWithin (.toDepth copyDepth) none [l, m, job, .settle, .view]
    let run' := (start .default (.selective [] []) "/" 9).giveAllWithin (.toDepth copyDepth) none [m, job, .settle, .view]
    answers (· == "l") [m, job, .settle, .view] run'.1 = answers (· == "l") [l, m, job, .settle, .view] run.1 ∧
      run'.2.unattended (· == "l") = run.2.unattended (· == "l") ∧
      (run.2.notes.filterMap fun n => match n with
        | .heard "m" event => some (event.kind, event.snapshot.status)
        | _ => none) = [(.queued, .queued), (.started, .running), (.status, .coolingDown), (.finished, .completed)] := by
  intro job m l run run'
  have hfair : ∀ c ∈ [l, m, job, .settle, .view], c.isFair (· == "l") = true ∧ c.meets (.shallow copyDepth) = true := by
    decide +kernel
  have hfair' : ∀ c ∈ [m, job, .settle, .view], c.isFair (· == "l") = true ∧ c.meets (.shallow copyDepth) = true :=
    fun c hc => hfair c (List.mem_cons_of_mem _ hc)
  obtain ⟨hanswers, hunattended, -⟩ := observers_invisible .default (.selective [] []) "/" 9 (.toDepth copyDepth) none
    (fun _ h => h) hfair hfair' rfl
  exact ⟨hanswers, hunattended, by decide +kernel⟩

/-- A quiet listener is noticed where the metadata of a job have no copy: handing the job in then fails, and the job is left
waiting, while without any listener it is admitted and starts. -/
theorem observer_noticed :
    let deep : Value := (fun v => .list [v])^[copyDepth] (.number (.int 0))
    let job : Command := .enqueue ⟨"a", some [], .none, some [("k", deep)], .null⟩
    let l : Command := .subscribe ⟨"l", true, none, none, 0, []⟩
    let run := (start .default (.selective [] []) "/" 9).giveAllWithin (.toDepth copyDepth) none [l, job]
    let run' := (start .default (.selective [] []) "/" 9).giveAllWithin (.toDepth copyDepth) none [job]
    let fault : Response → Option String := fun r => match r.answer with
      | .ok _ => none
      | .error f => some f.name
    (∀ c ∈ [l, job], c.isFair (· == "l") = true) ∧ shown (· == "l") [l, job] = [job] ∧
      run.1.map fault = [none, some "RecursionError"] ∧ run.2.queue.waiting = [1] ∧ run.2.queue.active = [] ∧
      run'.1.map fault = [none] ∧ run'.2.queue.waiting = [] ∧ run'.2.queue.active = [1] := by
  intro deep job l run run' fault
  refine ⟨by decide +kernel, rfl, ?_⟩
  decide +kernel

end Scheduler
end MediaEngine
