import MediaEngine.Proofs.Registrations
import MediaEngine.Proofs.Streams
import MediaEngine.Proofs.Unheard

/-! # Removers

Removers of the callbacks of a token, and of the listeners of a queue, take their own registrations away where these are not
mistaken (`Orderly`): the others are called as before, in order, and it makes no difference how often a remover is called. Who
is called is settled when a signal or the telling of an event begins: one who is removed meanwhile is still called then, and
never again (`removers_honoured`), whatever can be copied. -/

namespace MediaEngine
open Job Registry

/-- After some uses, the functions of the registrations are listed whose removers were not called; and to call a remover once
more has made no difference. -/
structure Registry.TakesOwn {σ κ : Type} [DecidableEq κ] (R : Registry σ κ) (s : σ) (uses : List (Use κ)) : Prop where
  listed : R.listed (R.run s uses) = (inForce uses).map Prod.fst
  again : ∀ before n more, uses = before ++ .remove n :: more → .remove n ∈ before → R.run s uses = R.run s (before ++ more)

theorem Registry.takesOwn {σ κ : Type} [DecidableEq κ] (R : Registry σ κ) {s : σ} {uses : List (Use κ)} (hs : R.listed s = [])
    (h : Orderly uses) : R.TakesOwn s uses where
  listed := R.listed_run hs h
  again before n more hu hn := by
    rw [hu] at h ⊢
    exact R.run_again hs h hn

/-! ## Signals -/

namespace Job

theorem Token.registry_cancelled {κ ω : Type} [DecidableEq κ] (t : Token κ ω) (uses : List (Use κ)) :
    ((Token.registry κ ω).run t uses).cancelled = t.cancelled := by
  unfold Registry.run
  induction uses using List.reverseRecOn with
  | nil => rfl
  | append_singleton uses u ih =>
    rw [useAll_concat, ← ih]
    cases u with
    | register f => rfl
    | remove n =>
      simp only [use]
      split <;> rfl

namespace Session
variable {s : Session} {reason : Option String} {uses : List (Use NamedCallback)}

/-- From one session to another some callbacks were called, one after the other and whatever they did; then none is left that
a signal could call or a remover could take away. -/
structure CallsOut (callbacks : List NamedCallback) (reason : Option String) (s t : Session) : Prop where
  calls : ∃ called, List.Forall₂ NamedCallback.Calls callbacks called ∧ t.calls = s.calls ++ called.flatten.map (·, .textOr reason)
  again : ∀ other, t.cancel other = (t, false)
  removers : ∀ c, t.token.unregister c = t.token

theorem cancel_callsOut (hs : s.token.cancelled = false) (reason : Option String) :
    (s.cancel reason).2 = true ∧ CallsOut s.token.callbacks reason s (s.cancel reason).1 := by
  have hu : (s.signalling reason).Signalled reason := rfl
  obtain ⟨called, hcalls, htold⟩ := callAll_tells s.token.callbacks hu
  have hsignalled := htold.signalled hu
  rw [cancel_first hs]
  exact ⟨rfl, ⟨called, hcalls, htold.calls⟩, cancel_signalled hsignalled, fun c => by rw [hsignalled]; rfl⟩

end Session

/-- The removers of callbacks are honoured. -/
structure Token.Honours (t : Token NamedCallback String) (uses : List (Use NamedCallback)) : Prop where
  own : (Token.registry NamedCallback String).TakesOwn t uses
  signal : ∀ (s : Session) (reason : Option String), s.token = (Token.registry NamedCallback String).run t uses →
    (s.cancel reason).2 = true ∧ Session.CallsOut ((inForce uses).map Prod.fst) reason s (s.cancel reason).1

theorem Token.honours {t : Token NamedCallback String} {uses : List (Use NamedCallback)} (ht : t.cancelled = false)
    (hc : t.callbacks = []) (h : Orderly uses) : t.Honours uses where
  own := takesOwn _ hc h
  signal s reason hs := by
    rw [← (takesOwn (Token.registry NamedCallback String) hc h).listed, ← hs]
    exact Session.cancel_callsOut ((congrArg Token.cancelled hs).trans ((registry_cancelled t uses).trans ht)) reason

/-! ## Sessions -/

namespace Session
variable {s : Session} {c : NamedCallback} {all given : List NamedCallback} {uses : List (Use NamedCallback)}

/-- The steps of a session that put its token to some uses, a remover being known by the name of its callback. -/
def stepsOf : List NamedCallback → List (Use NamedCallback) → List SessionStep
  | _, [] => []
  | given, .register c :: rest => .add c :: stepsOf (given ++ [c]) rest
  | given, .remove n :: rest =>
    match given[n]? with
    | some c => .remove c.name :: stepsOf given rest
    | none => stepsOf given rest

/-- No two callbacks have the same name. -/
def Named (all : List NamedCallback) : Prop := ∀ c ∈ all, ∀ d ∈ all, c.name = d.name → c = d

/-- How a session stands whose token was not signalled and that has given some removers. -/
structure Gives (all given : List NamedCallback) (s : Session) : Prop where
  cancelled : s.token.cancelled = false
  known : s.known ⊆ all
  callbacks : s.token.callbacks ⊆ all
  within : given ⊆ all
  removable : ∀ c ∈ given, c.name ∈ s.removable

theorem Gives.step_add (h : Gives all given s) (hn : Named all) (hc : c ∈ all) :
    Gives all (given ++ [c]) (s.step (.add c)).1 ∧ (s.step (.add c)).1.token = s.token.register c := by
  have hknown : s.knownOr c = c := by
    unfold knownOr
    cases hfind : s.known.find? (·.name == c.name) with
    | none => rfl
    | some d =>
      have hname : (d.name == c.name) = true := List.find?_some (p := fun e : NamedCallback => e.name == c.name) hfind
      exact hn d (h.known (List.mem_of_find?_eq_some hfind)) c hc (beq_iff_eq.mp hname)
  have hadd : (s.step (.add c)).1 = { s with known := s.known ++ [c], token := s.token.register c }.allowRemoval c.name := by
    simp [Session.step, Session.add, hknown, h.cancelled]
  have hall : [c] ⊆ all := List.cons_subset.mpr ⟨hc, List.nil_subset _⟩
  rw [hadd]
  refine ⟨⟨h.cancelled, List.append_subset.mpr ⟨h.known, hall⟩, List.append_subset.mpr ⟨h.callbacks, hall⟩,
    List.append_subset.mpr ⟨h.within, hall⟩, fun d hd => ?_⟩, rfl⟩
  rcases List.mem_append.mp hd with hd | hd
  · exact List.mem_cons_of_mem _ (h.removable d hd)
  · rw [List.mem_singleton.mp hd]
    exact List.mem_cons_self

theorem Gives.step_remove (h : Gives all given s) (hn : Named all) (hc : c ∈ given) :
    (s.step (.remove c.name)).1 = { s with token := s.token.unregister c } := by
  have hremovable : s.removable.contains c.name = true := List.contains_iff_mem.mpr (h.removable c hc)
  cases hfind : s.token.callbacks.find? (·.name == c.name) with
  | none =>
    have habsent : c ∉ s.token.callbacks := fun hm => List.find?_eq_none.mp hfind c hm (beq_self_eq_true c.name)
    simp only [Session.step, removeFirst, hremovable, if_true, hfind, Token.unregister, List.erase_of_not_mem habsent]
  | some d =>
    have hname : (d.name == c.name) = true := List.find?_some (p := fun e : NamedCallback => e.name == c.name) hfind
    obtain rfl : d = c := hn d (h.callbacks (List.mem_of_find?_eq_some hfind)) c (h.within hc) (beq_iff_eq.mp hname)
    simp only [Session.step, removeFirst, hremovable, if_true, hfind]

theorem Gives.run_stepsOf (h : Gives all given s) (hn : Named all) (hall : functions uses ⊆ all) :
    (s.run (stepsOf given uses)).token = (uses.foldl (Token.registry NamedCallback String).use (s.token, given)).1 := by
  induction uses generalizing s given with
  | nil => rfl
  | cons u rest ih =>
    cases u with
    | register c =>
      obtain ⟨hc, hrest⟩ := List.cons_subset.mp hall
      obtain ⟨hgives, htoken⟩ := h.step_add hn hc
      have hrun := ih hgives hrest
      rw [htoken] at hrun
      exact hrun
    | remove n =>
      cases hgiven : given[n]? with
      | none =>
        simp only [stepsOf, hgiven, List.foldl_cons, use]
        exact ih h hall
      | some c =>
        have hstep := h.step_remove hn (List.mem_of_getElem? hgiven)
        have hgives : Gives all given { s with token := s.token.unregister c } :=
          { h with callbacks := fun d hd => h.callbacks (List.mem_of_mem_erase hd) }
        simp only [stepsOf, hgiven, List.foldl_cons, use]
        change ((s.step (.remove c.name)).1.run (stepsOf given rest)).token = _
        rw [hstep]
        exact ih hgives hall

/-- The steps of a session put its token to these uses. -/
theorem run_stepsOf (hn : Named (functions uses)) :
    (start.run (stepsOf [] uses)).token = (Token.registry NamedCallback String).run .fresh uses :=
  Gives.run_stepsOf ⟨rfl, List.nil_subset _, List.nil_subset _, List.nil_subset _, List.forall_mem_nil _⟩ hn (List.Subset.refl _)

end Session

end Job

/-! ## Events -/

/-- The removers of listeners are honoured. -/
structure Queue.Honours (q : Queue) (uses : List (Use Nat)) : Prop where
  own : Queue.registry.TakesOwn q uses
  tells : ∀ (s : Scheduler) (copies : Copying) (hearing : Scheduler.Hearing) (kind : EventKind) (id : JobId) (j : Job),
    s.queue.subscribed = (Queue.registry.run q uses).subscribed → s.queue.job? id = some j → j.isCopied copies = true →
      Scheduler.TellsEach hearing ⟨kind, j.snapshot⟩ ((inForce uses).map Prod.fst)
        (Broken ((Scheduler.announce copies hearing kind id).on s).1) s ((Scheduler.announce copies hearing kind id).on s).2

theorem Queue.honours {q : Queue} {uses : List (Use Nat)} (hq : q.subscribed = []) (h : Orderly uses) : q.Honours uses where
  own := takesOwn _ hq h
  tells s copies hearing kind id j hs hj hc := by
    have hlisted : s.queue.subscribed = (inForce uses).map Prod.fst := hs.trans (takesOwn Queue.registry hq h).listed
    rw [← hlisted]
    exact Scheduler.announce_tellsEach hearing hj hc

namespace Scheduler
variable {s : Scheduler}

/-- Whoever is subscribed when the telling of an event begins hears of it, if nobody breaks it off, and whoever has
unsubscribed hears nothing of it, whatever listeners do meanwhile. -/
structure TellsSubscribed (s : Scheduler) : Prop where
  heard : ∀ copies n kind id j t who k, s.queue.job? id = some j → (notifyWithin copies n kind id).on s = (.ok (), t) →
    t.queue.Audible who k → k < s.queue.listeners.length → k ∈ s.queue.subscribed → Catches who ⟨kind, j.snapshot⟩ s t
  unheard : ∀ copies n kind id r t who k, (notifyWithin copies n kind id).on s = (r, t) →
    t.queue.Audible who k → k < s.queue.listeners.length → k ∉ s.queue.subscribed → t.hearings who = s.hearings who

theorem tellsSubscribed (s : Scheduler) : s.TellsSubscribed where
  heard _ _ _ _ _ _ _ _ hj hok ha hmade hk := notifyWithin_heard hj hok hk hmade ha
  unheard _ _ _ _ _ _ _ _ hr ha hmade hk := notifyWithin_unheard hr ha hmade hk

/-- Removers are honoured. Of callbacks and of listeners those are called whose removers were not called, once for each
registration and in order; who is removed while they are called is still among them; and a listener that has unsubscribed
hears nothing more in any run, nor of anything that commands do where some metadata have no copy. -/
theorem removers_honoured :
    (∀ (t : Token NamedCallback String) (uses : List (Use NamedCallback)), t.cancelled = false → t.callbacks = [] →
      Orderly uses → t.Honours uses) ∧
    (∀ (q : Queue) (uses : List (Use Nat)), q.subscribed = [] → Orderly uses → q.Honours uses) ∧
    (∀ s : Scheduler, s.TellsSubscribed) ∧
    (∀ (s t : Scheduler) (who : String) (k : Nat), Runs s t → t.queue.Audible who k → k < s.queue.listeners.length →
      k ∉ s.queue.subscribed → t.hearings who = s.hearings who) ∧
    ∀ (copies : Copying) (supplied : Option Store) (s : Scheduler) (commands : List Command) (who : String) (k : Nat),
      let t := (s.giveAllWithin copies supplied commands).2
      t.queue.Audible who k → k < s.queue.listeners.length → k ∉ s.queue.subscribed → t.hearings who = s.hearings who :=
  ⟨fun _ _ => Token.honours, fun _ _ => Queue.honours, tellsSubscribed, fun _ _ _ _ => Runs.unheard,
    fun copies supplied s commands _ _ => giveAllWithin_unheard copies supplied s commands⟩

/-- A callback that is registered twice, one remover that is called twice, and a listener that unsubscribes before a job is
handed in, or one whose metadata have no copy. -/
theorem removed_stay_away :
    let a : NamedCallback := ⟨"a", .nothing⟩
    let b : NamedCallback := ⟨"b", .fail⟩
    let callbacks : List (Use NamedCallback) := [.register a, .register b, .register a, .remove 0, .remove 1, .remove 1]
    let listeners : List (Use Nat) := [.register 0, .register 0, .register 1, .remove 1, .remove 2, .remove 2]
    let signalled := ((Session.start.run (Session.stepsOf [] callbacks)).cancel (some "r")).1
    let s := ((start .default (.selective [] []) "/" 9).giveAll none
      [.subscribe ⟨"l", false, none, none, 0, []⟩, .subscribe ⟨"m", false, none, none, 0, []⟩, .unsubscribe "l"]).2
    let t := (s.giveAll none [.enqueue ⟨"a", some [], .none, none, .null⟩, .settle]).2
    let u := (s.giveAllWithin (.toDepth 0) none [.enqueue ⟨"a", some [], .none, some [], .null⟩, .settle]).2
    (Session.CallsOut [a] (some "r") (Session.start.run (Session.stepsOf [] callbacks)) signalled ∧
        signalled.calls.map Prod.fst = ["a"]) ∧
      ((Queue.start .default (.selective [] [])).Honours listeners ∧ (inForce listeners).map Prod.fst = [0]) ∧
      s.TellsSubscribed ∧ t.hearings "l" = [] ∧ (t.hearings "m").length = 3 ∧ u.hearings "l" = [] ∧ u.queue.waiting = [1] := by
  intro a b callbacks listeners signalled s t u
  have hcallbacks : Orderly callbacks := by
    have h := (((orderly_nil.register a).register b).register a)
    have h₀ := Orderly.remove_iff.mpr ⟨h, a, rfl, (by decide : Registry.Alike _ a 0)⟩
    have h₁ := Orderly.remove_iff.mpr ⟨h₀, b, rfl, (by decide : Registry.Alike _ b 1)⟩
    exact Orderly.remove_iff.mpr ⟨h₁, b, rfl, by decide⟩
  have hlisteners : Orderly listeners := by
    have h := (((orderly_nil.register 0).register 0).register 1)
    have h₀ := Orderly.remove_iff.mpr ⟨h, 0, rfl, (by decide : Registry.Alike _ 0 1)⟩
    have h₁ := Orderly.remove_iff.mpr ⟨h₀, 1, rfl, (by decide : Registry.Alike _ 1 2)⟩
    exact Orderly.remove_iff.mpr ⟨h₁, 1, rfl, by decide⟩
  have htoken : (Session.start.run (Session.stepsOf [] callbacks)).token = (Token.registry NamedCallback String).run .fresh callbacks :=
    Session.run_stepsOf (by unfold Session.Named; decide +kernel)
  have hcalled := ((removers_honoured.1 .fresh callbacks rfl rfl hcallbacks).signal _ (some "r") htoken).2
  have ha : t.queue.Audible "l" 0 := by
    have hnames : t.queue.listeners.map Listener.name = ["l", "m"] := by decide +kernel
    have hloud : ∀ l ∈ t.queue.listeners, l.quiet = false := by decide +kernel
    exact audible_of_names hnames (by decide) rfl hloud
  have ha' : u.queue.Audible "l" 0 := by
    have hnames : u.queue.listeners.map Listener.name = ["l", "m"] := by decide +kernel
    have hloud : ∀ l ∈ u.queue.listeners, l.quiet = false := by decide +kernel
    exact audible_of_names hnames (by decide) rfl hloud
  have hmissed : t.hearings "l" = s.hearings "l" := removers_honoured.2.2.2.1 s t "l" 0 (runs_drives.giveAll _ _ _) ha
    (by decide +kernel) (by decide +kernel)
  have hmissed' : u.hearings "l" = s.hearings "l" := removers_honoured.2.2.2.2 (.toDepth 0) none s _ "l" 0 ha'
    (by decide +kernel) (by decide +kernel)
  have hnone : s.hearings "l" = [] := by decide +kernel
  exact ⟨⟨hcalled, by decide +kernel⟩, ⟨removers_honoured.2.1 _ listeners rfl hlisteners, by decide⟩,
    removers_honoured.2.2.1 s, hmissed.trans hnone, by decide +kernel, hmissed'.trans hnone, by decide +kernel⟩

/-- A remover that is called twice takes the other registration of its function away as well; and callbacks and listeners that
were removed while others were called are still called then. -/
theorem removers_mistaken :
    let a : NamedCallback := ⟨"a", .nothing⟩
    let twice : List (Use NamedCallback) := [.register a, .register a, .remove 1, .remove 1]
    let meanwhile : List SessionStep := [.add ⟨"a", .remove "b"⟩, .add ⟨"b", .nothing⟩, .cancel (some "r")]
    let s := ((start .default (.selective [] []) "/" 9).giveAll none
      [.subscribe ⟨"l", false, some .queued, none, 1, [.unsubscribe "m"]⟩, .subscribe ⟨"m", false, none, none, 0, []⟩,
        .enqueue ⟨"a", some [], .none, none, .null⟩]).2
    (inForce twice).map Prod.fst = [a] ∧ ((Token.registry NamedCallback String).run .fresh twice).callbacks = [] ∧
      (Session.start.run [.add a, .add a, .remove "a", .remove "a", .cancel (some "r")]).calls = [] ∧
      (Session.start.run meanwhile).calls.map Prod.fst = ["a", "b"] ∧
      s.queue.subscribed = [0] ∧ (s.hearings "m").map Event.kind = [.queued] := by
  decide +kernel

end Scheduler

end MediaEngine
