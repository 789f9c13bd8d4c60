import MediaEngine.Proofs.Lasting
import MediaEngine.Proofs.Steps

/-! # What a listener no longer hears

A subscription that was ended is not taken up again, and whoever is told of an event was subscribed when the telling began. So
a listener that has unsubscribed hears nothing of what is told from then on, whatever can be copied and however deep listeners
act (`Since`, `notifyWithin_unheard`, `giveAllWithin_unheard`); only what is being told just then is told to it as well, as to
all who were subscribed (`notifyWithin_heard`). -/

namespace MediaEngine
open Job

namespace Scheduler

/-- Listeners are told of an event one after the other, each as those before have left the scheduler; `true` means that one of
them broke it off. -/
inductive TellsEach (hearing : Hearing) (event : Event) : List Nat → Bool → Scheduler → Scheduler → Prop
  | done {s} : TellsEach hearing event [] false s s
  | hears {index rest b s t u} : (hearing event index).on s = (.ok (), t) → TellsEach hearing event rest b t u →
      TellsEach hearing event (index :: rest) b s u
  | fails {index rest b s t u fault} : (hearing event index).on s = (.error fault, t) → fault.isTaskCancelled = false →
      TellsEach hearing event rest b (t.noted (.logged (.listenerFailed event.kind event.snapshot.id))) u →
      TellsEach hearing event (index :: rest) b s u
  | breaks {index rest s t fault} : (hearing event index).on s = (.error fault, t) → fault.isTaskCancelled = true →
      TellsEach hearing event (index :: rest) true s (t.mapQueue (·.breakOff event))

variable {s t u v : Scheduler} {id : JobId} {j : Job} {b : Bool} {who : String} {k n index : Nat} {out : Prop} {copies : Copying}
  {event : Event}

/-! ## Since a listener left -/

/-- No listener is forgotten, and what was heard under a name stays heard. -/
structure Keeps (who : String) (s t : Scheduler) : Prop where
  listeners : s.queue.listeners <+: t.queue.listeners
  heard : s.hearings who <+: t.hearings who

/-- And if the listener that is known by the name is out, it has no subscription, and nothing more was heard under the name. -/
structure Since (out : Prop) (who : String) (k : Nat) (s t : Scheduler) : Prop extends Keeps who s t where
  gone : out → k < t.queue.listeners.length ∧ k ∉ t.queue.subscribed
  missed : out → t.queue.Audible who k → t.hearings who = s.hearings who

namespace Keeps

theorem of_rolls (hr : s.queue.Rolls t.queue) (hh : t.hearings who = s.hearings who) : Keeps who s t :=
  ⟨hr.listeners, hh ▸ List.prefix_rfl⟩

theorem of_mute (h : Mute s t) : Keeps who s t := .of_rolls h.rolls (h.hearings who)

theorem trans (h : Keeps who s t) (h' : Keeps who t u) : Keeps who s u :=
  ⟨h.listeners.trans h'.listeners, h.heard.trans h'.heard⟩

theorem informed (s : Scheduler) (event : Event) (index : Nat) : Keeps who s (s.informed event index) where
  listeners := (informed_rolls s event index).listeners
  heard := by
    unfold Scheduler.informed
    split
    · exact List.prefix_rfl
    · split
      · exact List.prefix_rfl
      · exact ⟨_, (hearings_append rfl who).symm⟩

end Keeps

namespace Since

theorem now (s : Scheduler) (h : out → k < s.queue.listeners.length ∧ k ∉ s.queue.subscribed) : Since out who k s s :=
  ⟨.of_rolls (.refl _) rfl, h, fun _ _ => rfl⟩

theorem rolls (h : Since out who k s t) (hr : t.queue.Rolls u.queue) (hh : u.hearings who = t.hearings who) :
    Since out who k s u where
  toKeeps := h.toKeeps.trans (.of_rolls hr hh)
  gone hout := by
    obtain ⟨hk, hno⟩ := h.gone hout
    exact ⟨Nat.lt_of_lt_of_le hk hr.listeners.length_le, fun hm => hno (hr.subscribed k hk hm)⟩
  missed hout ha := hh.trans (h.missed hout (ha.before hr.listeners))

theorem informed (h : Since out who k s t) (event : Event) {index : Nat} (hindex : out → index ≠ k) :
    Since out who k s (t.informed event index) where
  toKeeps := h.toKeeps.trans (.informed t event index)
  gone hout := by
    rw [informed_queue]
    exact h.gone hout
  missed hout ha := by
    have haudible : t.queue.Audible who k := ha.before (informed_rolls t event index).listeners
    have hcount : [index].count k = 0 := List.count_eq_zero.mpr fun hm => hindex hout (List.mem_singleton.mp hm).symm
    rw [informed_hearings haudible (h.gone hout).1, hcount, h.missed hout haudible]
    exact List.append_nil _

end Since

instance (out : Prop) (who : String) (k : Nat) (s : Scheduler) : Lasting .none (Since out who k s) where
  fair {t} _ := t.fair_none
  audience _ x _ := x.listener.meets_none
  beside h hs hi hn _ := h.rolls (.of_eq hs hi) (congrArg (List.filterMap _) hn)
  noted h hn := h.rolls (.refl _) ((Mute.noted hn).hearings who)
  subscribe h _ _ := h.rolls (.subscribe _ _) rfl
  unsubscribe index h := h.rolls (.unsubscribe _ index) rfl
  countFiring index h := h.rolls (.countFiring _ index) rfl

/-! ## Telling listeners -/

/-- How a listener hears of an event, whatever it does then. -/
def heardWithin (copies : Copying) : Nat → Hearing
  | 0 => hear
  | n + 1 => hearAndAct (notifyWithin copies n)

theorem notifyWithin_eq (copies : Copying) (n : Nat) : notifyWithin copies n = announce copies (heardWithin copies n) := by
  cases n <;> rfl

/-- One who is out and has no subscription is not among those who are told. -/
theorem announce_since {hearing : Hearing}
    (hh : ∀ event index, (out → index ≠ k) → Reflects (Itself (Since out who k s)) Any (hearing event index)) :
    Informs .none (Itself (Since out who k s)) (announce copies hearing) (announce copies hearing) where
  tells kind id := by
    refine .look fun t ht => ?_
    cases t.queue.job? id with
    | none => exact .pure trivial
    | some job =>
      dsimp only
      split
      · exact hearAll_mirrors fun index hi => hh _ index fun hout he => (ht.gone hout).2 (he ▸ hi)
      · exact .bind (breakOff_mirrors _) fun _ _ => .throw _
  copies _ _ := rfl

theorem hear_since (event : Event) (h : out → index ≠ k) :
    Reflects (Itself (Since out who k s)) Any (hear event index) := hear_mirrors fun _ hs => hs.informed event h

theorem notifyWithin_since (n : Nat) :
    Informs .none (Itself (Since out who k s)) (notifyWithin copies n) (notifyWithin copies n) := by
  induction n with
  | zero => exact announce_since fun event _ => hear_since event
  | succ n ih => exact announce_since fun event _ h => hearAndAct_mirrors ih (hear_since event h)

theorem heardWithin_since (n : Nat) (event : Event) (h : out → index ≠ k) :
    Reflects (Itself (Since out who k s)) Any (heardWithin copies n event index) := by
  cases n with
  | zero => exact hear_since event h
  | succ n => exact hearAndAct_mirrors (notifyWithin_since n) (hear_since event h)

/-- Whoever has no subscription when the telling of an event begins hears nothing of it, nor of what listeners do about it. -/
theorem notifyWithin_unheard {kind : EventKind} {r : Except Fault Unit} (hr : (notifyWithin copies n kind id).on s = (r, t))
    (ha : t.queue.Audible who k) (hk : k < s.queue.listeners.length) (hno : k ∉ s.queue.subscribed) :
    t.hearings who = s.hearings who := by
  have htold : Since True who k s ((notifyWithin copies n kind id).on s).2 :=
    ((notifyWithin_since n).tells kind id).keeps (.now s fun _ => ⟨hk, hno⟩)
  rw [hr] at htold
  exact htold.missed trivial ha

/-! ## One after the other -/

theorem hearAll_tellsEach (hearing : Hearing) (event : Event) (indices : List Nat) (s : Scheduler) :
    TellsEach hearing event indices (Broken ((hearAll hearing event indices).on s).1) s ((hearAll hearing event indices).on s).2 := by
  induction indices generalizing s with
  | nil => exact .done
  | cons index rest ih =>
    unfold hearAll
    rw [Act.on_outcome_bind]
    rcases hx : (hearing event index).on s with ⟨fault | ⟨⟩, t⟩ <;> dsimp only
    · cases hc : fault.isTaskCancelled with
      | true =>
        rw [if_pos rfl, Act.on_bind_ok (Act.on_onQueue _), Act.on_throw]
        change TellsEach hearing event (index :: rest) fault.isTaskCancelled s _
        rw [hc]
        exact .breaks hx hc
      | false =>
        rw [if_neg Bool.false_ne_true, Act.on_bind_ok (Act.on_log _)]
        exact .fails hx hc (ih _)
    · exact .hears hx (ih t)

/-- All who are subscribed when an event is told are told of it, each once and in order, unless one of them breaks it off
    or there is no copy of what they are told. -/
theorem announce_tellsEach {copies : Copying} (hearing : Hearing) {kind : EventKind} (hj : s.queue.job? id = some j)
    (hc : j.isCopied copies = true) :
    TellsEach hearing ⟨kind, j.snapshot⟩ s.queue.subscribed (Broken ((announce copies hearing kind id).on s).1) s
      ((announce copies hearing kind id).on s).2 := by
  rw [announce_copied hj hc]
  exact hearAll_tellsEach hearing _ _ s

/-- An event was heard under a name. -/
def Catches (who : String) (event : Event) (s t : Scheduler) : Prop :=
  ∃ more, t.hearings who = s.hearings who ++ more ∧ event ∈ more

theorem Catches.within {event : Event} (h : Catches who event t u) (hs : s.hearings who <+: t.hearings who)
    (hv : u.hearings who <+: v.hearings who) : Catches who event s v := by
  obtain ⟨before, hbefore⟩ := hs
  obtain ⟨more, hmore, hmem⟩ := h
  obtain ⟨after, hafter⟩ := hv
  refine ⟨before ++ more ++ after, ?_, by simp [hmem]⟩
  rw [← hafter, hmore, ← hbefore]
  simp

/-- What is told to a listener is heard under its name, whether or not it is subscribed. -/
theorem heardWithin_catches (n : Nat) (event : Event) (hk : k < s.queue.listeners.length)
    (ha : ((heardWithin copies n event k).on s).2.queue.Audible who k) :
    Catches who event s ((heardWithin copies n event k).on s).2 := by
  have hinformed : s.queue.Audible who k → Catches who event s (s.informed event k) := fun ha =>
    ⟨[event], by rw [informed_hearings ha hk, List.count_singleton_self]; rfl, List.mem_singleton_self _⟩
  have hlisteners := (informed_rolls s event k).listeners
  cases n with
  | zero =>
    rw [heardWithin, hear_on] at ha ⊢
    exact hinformed (ha.before hlisteners)
  | succ n =>
    have hact : (heardWithin copies (n + 1) event k).on s = (actOn (notifyWithin copies n) event k).on (s.informed event k) :=
      Act.on_bind_ok (hear_on event k s)
    rw [hact] at ha ⊢
    have hkeeps : Since False who k (s.informed event k) ((actOn (notifyWithin copies n) event k).on (s.informed event k)).2 :=
      (actOn_mirrors (notifyWithin_since n)).keeps (.now _ False.elim)
    exact (hinformed (ha.before (hlisteners.trans hkeeps.listeners))).within List.prefix_rfl hkeeps.heard

/-- What was heard of an event, and of whatever listeners did about it, stays heard. -/
theorem heardWithin_keeps {r : Except Fault Unit} (h : (heardWithin copies n event index).on s = (r, t)) : Keeps who s t := by
  have hsince : Since False who 0 s ((heardWithin copies n event index).on s).2 :=
    (heardWithin_since n event False.elim).keeps (.now s False.elim)
  rw [h] at hsince
  exact hsince.toKeeps

section TellsEach
variable {indices rest : List Nat}

theorem TellsEach.keeps (h : TellsEach (heardWithin copies n) event indices b s t) : Keeps who s t := by
  induction h with
  | done => exact .of_rolls (.refl _) rfl
  | hears hx _ ih => exact (heardWithin_keeps hx).trans ih
  | fails hx _ _ ih => exact ((heardWithin_keeps hx).trans (.of_mute (.noted fun _ => rfl))).trans ih
  | @breaks _ _ _ t _ hx _ =>
    obtain ⟨ids, hq, -⟩ := t.queue.breakOff_eq event
    exact (heardWithin_keeps hx).trans (.of_rolls (.of_eq (by rw [mapQueue_queue, hq]) (by rw [mapQueue_queue, hq])) rfl)

/-- Either the first one is the listener, or it is told later. -/
theorem catches_next {r : Except Fault Unit} (hx : (heardWithin copies n event index).on s = (r, t)) (hk : k ∈ index :: rest)
    (hmade : k < s.queue.listeners.length) (hkeeps : Keeps who t u) (ha : u.queue.Audible who k)
    (hrest : k ∈ rest → k < t.queue.listeners.length → Catches who event t u) : Catches who event s u := by
  rcases List.mem_cons.mp hk with rfl | hk
  · have hcaught : ((heardWithin copies n event k).on s).2.queue.Audible who k →
        Catches who event s ((heardWithin copies n event k).on s).2 := heardWithin_catches n event hmade
    rw [hx] at hcaught
    exact (hcaught (ha.before hkeeps.listeners)).within List.prefix_rfl hkeeps.heard
  · have hfirst : Keeps who s t := heardWithin_keeps hx
    exact (hrest hk (Nat.lt_of_lt_of_le hmade hfirst.listeners.length_le)).within hfirst.heard List.prefix_rfl

/-- Unless one of the listeners breaks it off, the event is heard by all who are to be told. -/
theorem TellsEach.catches (h : TellsEach (heardWithin copies n) event indices b s t) (hb : b = false) (hk : k ∈ indices)
    (hmade : k < s.queue.listeners.length) (ha : t.queue.Audible who k) : Catches who event s t := by
  induction h with
  | done => cases hk
  | breaks => cases hb
  | hears hx hrest ih => exact catches_next hx hk hmade hrest.keeps ha fun hk hmade => ih hb hk hmade ha
  | @fails index rest b s t u fault hx _ hrest ih =>
    have hlogged : Keeps who t (t.noted (.logged (.listenerFailed event.kind event.snapshot.id))) :=
      .of_mute (.noted fun _ => rfl)
    exact catches_next hx hk hmade (hlogged.trans hrest.keeps) ha fun hk hmade =>
      (ih hb hk hmade ha).within hlogged.heard List.prefix_rfl

end TellsEach

/-- Whoever is subscribed when the telling of an event begins hears of it, also where its subscription is ended meanwhile. -/
theorem notifyWithin_heard {kind : EventKind} (hj : s.queue.job? id = some j)
    (hok : (notifyWithin copies n kind id).on s = (.ok (), t)) (hk : k ∈ s.queue.subscribed) (hmade : k < s.queue.listeners.length)
    (ha : t.queue.Audible who k) : Catches who ⟨kind, j.snapshot⟩ s t := by
  rw [notifyWithin_eq] at hok
  have hcopied : j.isCopied copies = true := by
    by_contra hc
    rw [announce_uncopied hj (Bool.eq_false_iff.mpr hc) (List.ne_nil_of_mem hk)] at hok
    cases hok
  have htold : TellsEach (heardWithin copies n) ⟨kind, j.snapshot⟩ s.queue.subscribed _ s _ :=
    announce_tellsEach (heardWithin copies n) hj hcopied
  rw [hok] at htold
  exact htold.catches rfl hk hmade ha

/-! ## Runs -/

theorem since_drives (copies : Copying) (out : Prop) (who : String) (k : Nat) (s : Scheduler) :
    Drives copies fun t u => Since out who k s t → Since out who k s u :=
  lasting_drives (fun _ => notifyWithin_since _) Command.meets_none

/-- Whoever has unsubscribed hears nothing of what commands do then. -/
theorem giveAllWithin_unheard (copies : Copying) (supplied : Option Store) (s : Scheduler) (commands : List Command)
    (ha : (s.giveAllWithin copies supplied commands).2.queue.Audible who k) (hk : k < s.queue.listeners.length)
    (hno : k ∉ s.queue.subscribed) : (s.giveAllWithin copies supplied commands).2.hearings who = s.hearings who :=
  ((since_drives copies True who k s).giveAll supplied s commands (.now s fun _ => ⟨hk, hno⟩)).missed trivial ha

/-- It hears nothing in any run. -/
theorem Runs.unheard (h : Runs s t) (ha : t.queue.Audible who k) (hk : k < s.queue.listeners.length)
    (hno : k ∉ s.queue.subscribed) : t.hearings who = s.hearings who :=
  (h.driven (since_drives .total True who k s) (.now s fun _ => ⟨hk, hno⟩)).missed trivial ha

end Scheduler

end MediaEngine
