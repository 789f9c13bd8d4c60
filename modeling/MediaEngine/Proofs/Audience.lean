import Mathlib.Data.List.TakeWhile
import MediaEngine.Proofs.Quiet

/-! # Audiences

Listeners who only observe leave nothing behind but notes, and what they note does not depend on who else is there
(`Remarks`). So when some of them are left out, all others are told the same (`announce_company`). -/

namespace MediaEngine
open Job

/-- A step by which a listener only observes, or stops with an ordinary fault. -/
def Job.Step.observes : Step → Bool
  | .openGate _ => false
  | .cancelAll => false
  | .enqueue _ => false
  | .enqueueOrStop _ => false
  | .fail fault => !fault.isTaskCancelled
  | .subscribe _ => false
  | .unsubscribe _ => false
  | _ => true

/-- A listener that only observes or stops with ordinary faults. -/
def Job.Listener.Observes (l : Listener) : Prop := ∀ step ∈ l.steps, step.observes = true

namespace Queue

/-- A note of what somebody was told or tells, or that a listener failed. -/
def Note.concerns (who : String) : Note → Bool
  | .heard name _ => name == who
  | .told name _ _ => name == who
  | .answered _ _ => false
  | .logged (.listenerFailed _ _) => true
  | .logged _ => false

/-- A note that has nothing to do with those who are hidden, nor with a listener that failed. -/
def Note.visible (hidden : String → Bool) : Note → Bool
  | .heard who _ => !hidden who
  | .told who _ _ => !hidden who
  | .answered _ _ => true
  | .logged (.listenerFailed _ _) => false
  | .logged _ => true

theorem Note.visible_of_concerns {hidden : String → Bool} {who : String} {n : Note} (h : n.concerns who = true)
    (hw : hidden who = true) : n.visible hidden = false := by
  cases n with
  | heard name _ | told name _ _ =>
    rw [beq_iff_eq.mp h]
    simp [visible, hw]
  | answered => cases h
  | logged line =>
    cases line with
    | listenerFailed => rfl
    | _ => cases h

/-- The queue with another audience. -/
def facing (q : Queue) (subscriptions : List Subscription) (subscribed : List Nat) : Queue :=
  { q with subscriptions := subscriptions, subscribed := subscribed }

/-- The positions of those in force, of a number of subscriptions from a position on. -/
def places (subscribed : List Nat) (k n : Nat) : List Nat := (List.range' k n).filter subscribed.contains

/-- Subscriptions from a position on, and whether they are in force. -/
def seats (subscribed : List Nat) : Nat → List Subscription → List (Subscription × Bool)
  | _, [] => []
  | k, x :: rest => (x, subscribed.contains k) :: seats subscribed (k + 1) rest

variable {b b' : List Nat} {k n : Nat} {a a' : List Subscription}

theorem places_succ (b : List Nat) (k n : Nat) :
    places b k (n + 1) = if b.contains k then k :: places b (k + 1) n else places b (k + 1) n := by
  rw [places, List.range'_succ, List.filter_cons, places]

theorem seats_append (b : List Nat) (k : Nat) (a a' : List Subscription) :
    seats b k (a ++ a') = seats b k a ++ seats b (k + a.length) a' := by
  induction a generalizing k with
  | nil => rfl
  | cons x rest ih =>
    rw [List.cons_append, seats, ih, seats, List.cons_append, List.length_cons, Nat.add_assoc, Nat.add_comm 1]

theorem seats_congr (h : ∀ i, k ≤ i → i < k + a.length → b'.contains i = b.contains i) : seats b' k a = seats b k a := by
  induction a generalizing k with
  | nil => rfl
  | cons x rest ih =>
    have hlen : (x :: rest).length = rest.length + 1 := rfl
    rw [seats, seats, h k (Nat.le_refl k) (by omega), ih fun i hi hle => h i (by omega) (by omega)]

theorem places_congr (h : ∀ i, k ≤ i → i < k + n → b'.contains i = b.contains i) : places b' k n = places b k n :=
  List.filter_congr fun i hi => h i (List.mem_range'_1.mp hi).1 (List.mem_range'_1.mp hi).2

/-- Seats in two parts are those of two parts. -/
theorem seats_split {l₁ l₂ : List (Subscription × Bool)} (h : seats b k a = l₁ ++ l₂) :
    ∃ a₁ a₂, a = a₁ ++ a₂ ∧ seats b k a₁ = l₁ ∧ seats b (k + a₁.length) a₂ = l₂ := by
  induction l₁ generalizing k a with
  | nil => exact ⟨[], a, rfl, rfl, h⟩
  | cons y rest ih =>
    cases a with
    | nil => cases h
    | cons x a =>
      obtain ⟨hy, hrest⟩ := List.cons.inj h
      obtain ⟨a₁, a₂, rfl, h₁, h₂⟩ := ih hrest
      refine ⟨x :: a₁, a₂, rfl, ?_, ?_⟩
      · rw [seats, hy, h₁]
      · rw [List.length_cons, ← h₂, Nat.add_assoc, Nat.add_comm 1]

theorem mem_seats {y : Subscription × Bool} (h : y ∈ seats b k a) : y.1 ∈ a := by
  induction a generalizing k with
  | nil => cases h
  | cons x rest ih =>
    rcases List.mem_cons.mp h with rfl | h
    · exact List.mem_cons_self
    · exact List.mem_cons_of_mem _ (ih h)

theorem exists_mem_seats {x : Subscription} (h : x ∈ a) : ∃ c, (x, c) ∈ seats b k a := by
  induction a generalizing k with
  | nil => cases h
  | cons y rest ih =>
    rcases List.mem_cons.mp h with rfl | h
    · exact ⟨b.contains k, List.mem_cons_self⟩
    · obtain ⟨c, hc⟩ := ih (k := k + 1) h
      exact ⟨c, List.mem_cons_of_mem _ hc⟩

/-- The positions in force are positions of subscriptions, in order. -/
def Seated (q : Queue) : Prop := q.subscribed = places q.subscribed 0 q.subscriptions.length

theorem Seated.nodup {q : Queue} (h : q.Seated) : q.subscribed.Nodup := by
  rw [h]
  exact (List.nodup_range' _).filter _

theorem Seated.subscribe {q : Queue} (h : q.Seated) (l : Listener) : (q.subscribe l).Seated := by
  have hold : places (q.subscribed ++ [q.subscriptions.length]) 0 q.subscriptions.length = q.subscribed :=
    (places_congr fun i _ hi => by simp [Nat.ne_of_lt (by simpa using hi)]).trans h.symm
  have hnew : (q.subscribed ++ [q.subscriptions.length]).contains q.subscriptions.length = true := by simp
  change q.subscribed ++ [q.subscriptions.length] =
    places (q.subscribed ++ [q.subscriptions.length]) 0 (q.subscriptions ++ [(⟨l, 0⟩ : Subscription)]).length
  rw [places, List.length_append, List.length_singleton, List.range'_1_concat, List.filter_append, Nat.zero_add,
    List.filter_cons_of_pos hnew, List.filter_nil]
  exact congrArg (· ++ [q.subscriptions.length]) hold.symm

theorem Seated.unsubscribe {q : Queue} (h : q.Seated) (index : Nat) : (q.unsubscribe index).Seated := by
  have herase : ∀ i, (q.subscribed.erase index).contains i = (i != index && q.subscribed.contains i) := fun i =>
    Bool.eq_iff_iff.mpr (by simp [h.nodup.mem_erase_iff])
  rw [Seated, Queue.unsubscribe, places, List.filter_congr fun i _ => herase i, ← List.filter_filter]
  exact (h.nodup.erase_eq_filter index).trans (congrArg (List.filter (· != index)) h)

/-! ## The latest subscription of a name -/

/-- The latest subscription of a name is that of the name behind which there are only others. -/
theorem subscription?_middle {before after : List Subscription} {x : Subscription} {q : Queue} {name : String}
    (hq : q.subscriptions = before ++ x :: after) (hx : x.listener.name = name) (hafter : ∀ y ∈ after, y.listener.name ≠ name) :
    q.subscription? name = some before.length := by
  have hdrop : q.subscriptions.reverse.dropWhile (·.listener.name != name) = x :: before.reverse := by
    rw [hq, List.reverse_append, List.reverse_cons, List.append_assoc, List.dropWhile_append_of_pos]
    · exact List.dropWhile_cons_of_neg (by simp [hx])
    · exact fun y hy => by simpa using hafter y (List.mem_reverse.mp hy)
  rw [subscription?, hdrop, ← List.length_reverse]

theorem subscription?_none {q : Queue} {name : String} (h : ∀ y ∈ q.subscriptions, y.listener.name ≠ name) :
    q.subscription? name = none := by
  have hdrop : q.subscriptions.reverse.dropWhile (·.listener.name != name) = [] :=
    List.dropWhile_eq_nil_iff.mpr fun y hy => by simpa using h y (List.mem_reverse.mp hy)
  rw [subscription?, hdrop]

/-- Either nobody of a name subscribed, or there was a latest one. -/
theorem latest_cases (subs : List Subscription) (name : String) : (∀ y ∈ subs, y.listener.name ≠ name) ∨
    ∃ before x after, subs = before ++ x :: after ∧ x.listener.name = name ∧ ∀ y ∈ after, y.listener.name ≠ name := by
  induction subs with
  | nil => exact .inl fun _ h => by cases h
  | cons y rest ih =>
    rcases ih with hnone | ⟨before, x, after, rfl, hx, hafter⟩
    · by_cases hy : y.listener.name = name
      · exact .inr ⟨[], y, rest, rfl, hy, hnone⟩
      · exact .inl (List.forall_mem_cons.mpr ⟨hy, hnone⟩)
    · exact .inr ⟨y :: before, x, after, rfl, hx, hafter⟩

end Queue

namespace Scheduler

/-- The scheduler with another audience, and other notes. -/
def facing (s : Scheduler) (subscriptions : List Subscription) (subscribed : List Nat) (notes : List Queue.Note) : Scheduler :=
  { s with queue := s.queue.facing subscriptions subscribed, notes := notes }

/-! ## What listeners remark -/

/-- Whoever listens and whatever was noted, the act ends in the same way, not like a cancelled task; and nothing comes of it
    but notes that concern somebody. -/
def Remarks {α : Type} (x : Act α) (who : String) (s : Scheduler) : Prop :=
  ∃ r ms, Broken r = false ∧ (∀ m ∈ ms, Queue.Note.concerns who m = true) ∧
    ∀ a b ns, x.on (s.facing a b ns) = (r, s.facing a b (ns ++ ms))

variable {s : Scheduler} {who : String} {notify : Notify} {p : Player} {step : Step} {event : Event}

namespace Remarks
variable {α β : Type} {x : Act α} {f : α → Act β}

theorem nothing {r : Except Fault α} (hr : Broken r = false) (h : ∀ a b ns, x.on (s.facing a b ns) = (r, s.facing a b ns)) :
    Remarks x who s := by
  refine ⟨r, [], hr, ?_, fun a b ns => ?_⟩
  · intro m hm
    cases hm
  · rw [List.append_nil]
    exact h a b ns

theorem tell (p : Player) (what : String) (value : Value) : Remarks (tell p what value) p.who s :=
  ⟨.ok (), [.told p.who what value], rfl, fun m hm => by rw [List.mem_singleton.mp hm]; exact beq_self_eq_true p.who, fun _ _ _ => rfl⟩

theorem bind (hx : Remarks x who s) (hf : ∀ a, Remarks (f a) who s) : Remarks (x >>= f) who s := by
  obtain ⟨r, ms, hr, hms, hon⟩ := hx
  cases r with
  | error e => exact ⟨.error e, ms, hr, hms, fun a b ns => Act.on_bind_error (hon a b ns)⟩
  | ok v =>
    obtain ⟨r', ms', hr', hms', hon'⟩ := hf v
    refine ⟨r', ms ++ ms', hr', fun m hm => (List.mem_append.mp hm).elim (hms m) (hms' m), fun a b ns => ?_⟩
    rw [Act.on_bind_ok (hon a b ns), hon', List.append_assoc]

end Remarks

theorem compileChain_remarks (p : Player) (chain : Value) : Remarks (compileChain p chain) p.who s := by
  have hon : ∀ a b ns, (compileChain p chain).on (s.facing a b ns) =
      ((yieldOr ((compile s.directory (.value chain) (.value .null)).mapError Fault.compile) : Act Plan) >>= fun plan =>
        tell p "compile" (.list (plan.stages.map fun s => .text s.type))).on (s.facing a b ns) := fun a b ns => by
    rw [compileChain, Act.on_get_bind]
    rfl
  cases hplan : compile s.directory (.value chain) (.value .null) with
  | error e =>
    refine .nothing (r := .error (.compile e)) rfl fun a b ns => ?_
    rw [hon, hplan]
    rfl
  | ok plan =>
    obtain ⟨r, ms, hr, hms, htell⟩ := Remarks.tell (s := s) p "compile" (.list (plan.stages.map fun s => .text s.type))
    refine ⟨r, ms, hr, hms, fun a b ns => ?_⟩
    rw [hon, hplan]
    exact htell a b ns

theorem perform_remarks (notify : Notify) (hp : p.job = none) (h : step.observes = true) : Remarks (perform notify p step) p.who s := by
  have idle : ∀ f : Job → Act Unit, Remarks (do withJob p f; return none : Act (Option Value)) p.who s := fun f =>
    .nothing (r := .ok none) rfl fun a b ns => Act.on_bind_ok (withJob_none hp f)
  have told : ∀ what value, Remarks (do Scheduler.tell p what value; return none : Act (Option Value)) p.who s := fun what value =>
    (Remarks.tell p what value).bind fun _ => .nothing rfl fun _ _ _ => rfl
  cases step with
  | log value => exact told "log" value
  | pause | sleep | gate | finish => exact .nothing rfl fun _ _ _ => rfl
  | awaitToken | seeToken | check | cancelToken | output | total | estimate | bridge | frame | onCancel => exact idle _
  | seeQueue =>
    obtain ⟨r, ms, hr, hms, hon⟩ := told "state" (.object s.queue.overview)
    exact ⟨r, ms, hr, hms, fun a b ns => hon a b ns⟩
  | compile chain => exact (compileChain_remarks p chain).bind fun _ => .nothing rfl fun _ _ _ => rfl
  | fail fault => exact .nothing (r := .error fault) (by simpa [Broken, Step.observes] using h) fun _ _ _ => rfl
  | seeResult =>
    unfold perform
    cases p.result with
    | none => exact .nothing rfl fun _ _ _ => rfl
    | some r => exact told "result" (resultValue r)
  | openGate | cancelAll | enqueue | enqueueOrStop | subscribe | unsubscribe => cases h

theorem playAtOnce_remarks (notify : Notify) (hp : p.job = none) {steps : List Step} (h : ∀ step ∈ steps, step.observes = true) :
    Remarks (playAtOnce notify p steps) p.who s := by
  induction steps with
  | nil => exact .nothing rfl fun _ _ _ => rfl
  | cons step rest ih =>
    have hrest := ih fun x hx => h x (List.mem_cons_of_mem _ hx)
    unfold playAtOnce
    split
    · exact hrest
    · refine (perform_remarks notify hp (h step List.mem_cons_self)).bind fun value => ?_
      cases value with
      | some value => exact .nothing rfl fun _ _ _ => rfl
      | none => exact hrest

/-! ## What is told to listeners -/

variable {x : Subscription} {before after : List Subscription}

theorem getElem?_middle (before : List Subscription) (x : Subscription) (after : List Subscription) :
    (before ++ x :: after)[before.length]? = some x := by
  rw [List.getElem?_append_right (Nat.le_refl _), Nat.sub_self]
  rfl

theorem modify_middle (before : List Subscription) (x : Subscription) (after : List Subscription) (f : Subscription → Subscription) :
    (before ++ x :: after).modify before.length f = before ++ f x :: after := by
  induction before with
  | nil => rfl
  | cons y rest ih => exact congrArg (y :: ·) ih

/-- What a listener does about an event depends on nobody else and leaves nothing behind but notes, and that the listener
    has acted. -/
def Reacts (hearing : Hearing) (event : Event) (s : Scheduler) (x : Subscription) : Prop :=
  ∃ r y ms, Broken r = false ∧ y.listener = x.listener ∧ (∀ m ∈ ms, Queue.Note.concerns x.listener.name m = true) ∧
    ∀ before after b ns, (hearing event before.length).on (s.facing (before ++ x :: after) b ns) =
      (r, s.facing (before ++ y :: after) b (ns ++ ms))

/-- Whoever hears an event and nothing more is noted, or keeps quiet. -/
theorem hear_noted (event : Event) (s : Scheduler) (x : Subscription) :
    ∃ ms, (∀ m ∈ ms, Queue.Note.concerns x.listener.name m = true) ∧ ∀ before after b ns,
      (hear event before.length).on (s.facing (before ++ x :: after) b ns) =
        (.ok (), s.facing (before ++ x :: after) b (ns ++ ms)) := by
  have hon : ∀ before after b ns, (hear event before.length).on (s.facing (before ++ x :: after) b ns) =
      (.ok (), if x.listener.quiet then s.facing (before ++ x :: after) b ns
        else (s.facing (before ++ x :: after) b ns).noted (.heard x.listener.name event)) := by
    intro before after b ns
    have hx : (s.facing (before ++ x :: after) b ns).queue.subscriptions[before.length]? = some x := getElem?_middle ..
    rw [hear_on, informed, hx]
  cases hquiet : x.listener.quiet with
  | true =>
    refine ⟨[], ?_, fun before after b ns => ?_⟩
    · intro m hm
      cases hm
    · rw [hon, hquiet, List.append_nil]
      rfl
  | false =>
    refine ⟨[.heard x.listener.name event], ?_, fun before after b ns => ?_⟩
    · intro m hm
      rw [List.mem_singleton.mp hm]
      exact beq_self_eq_true _
    · rw [hon, hquiet]
      rfl

theorem hear_reacts (event : Event) (s : Scheduler) (x : Subscription) : Reacts hear event s x := by
  obtain ⟨ms, hms, hon⟩ := hear_noted event s x
  exact ⟨.ok (), x, ms, rfl, rfl, hms, hon⟩

theorem hearAndAct_reacts (notify : Notify) (event : Event) (s : Scheduler) (h : x.listener.Observes) :
    Reacts (hearAndAct notify) event s x := by
  obtain ⟨ms, hms, hhear⟩ := hear_noted event s x
  have hon : ∀ before after b ns, (hearAndAct notify event before.length).on (s.facing (before ++ x :: after) b ns) =
      (if x.actsOn event then do
          onQueue (·.countFiring before.length)
          playAtOnce notify ⟨x.listener.name, none, none⟩ x.listener.steps
        else pure () : Act Unit).on (s.facing (before ++ x :: after) b (ns ++ ms)) := by
    intro before after b ns
    have hx : (s.facing (before ++ x :: after) b (ns ++ ms)).queue.subscriptions[before.length]? = some x := getElem?_middle ..
    rw [hearAndAct, Act.on_bind_ok (hhear before after b ns), Act.on_queueNow_bind, hx]
  cases hacts : x.actsOn event with
  | false =>
    refine ⟨.ok (), x, ms, rfl, rfl, hms, fun before after b ns => ?_⟩
    rw [hon, hacts]
    rfl
  | true =>
    obtain ⟨r, ms', hr, hms', hplay⟩ :=
      playAtOnce_remarks (s := s) (p := ⟨x.listener.name, none, none⟩) notify rfl h
    refine ⟨r, { x with fired := x.fired + 1 }, ms ++ ms', hr, rfl, fun m hm => (List.mem_append.mp hm).elim (hms m) (hms' m),
      fun before after b ns => ?_⟩
    have hcount : (s.facing (before ++ x :: after) b (ns ++ ms)).mapQueue (·.countFiring before.length) =
        s.facing (before ++ { x with fired := x.fired + 1 } :: after) b (ns ++ ms) :=
      congrArg (fun a => s.facing a b (ns ++ ms)) (modify_middle before x after fun x => { x with fired := x.fired + 1 })
    rw [hon, hacts, if_pos rfl, Act.on_bind_ok (Act.on_onQueue _), hcount, hplay, List.append_assoc]

/-- One listener is told after the other. -/
theorem hearAll_cons {hearing : Hearing} (h : Reacts hearing event s x) :
    ∃ y ms, y.listener = x.listener ∧ (∀ m ∈ ms, Queue.Note.concerns x.listener.name m = true) ∧ ∀ before after b ns rest,
      (hearAll hearing event (before.length :: rest)).on (s.facing (before ++ x :: after) b ns) =
        (hearAll hearing event rest).on (s.facing (before ++ [y] ++ after) b (ns ++ ms)) := by
  obtain ⟨r, y, ms, hr, hy, hms, hon⟩ := h
  cases r with
  | ok =>
    refine ⟨y, ms, hy, hms, fun before after b ns rest => ?_⟩
    rw [hearAll, Act.on_outcome_bind, hon, List.append_assoc, List.singleton_append]
  | error fault =>
    have hfault : fault.isTaskCancelled = false := hr
    refine ⟨y, ms ++ [.logged (.listenerFailed event.kind event.snapshot.id)], hy, fun m hm => ?_, fun before after b ns rest => ?_⟩
    · rcases List.mem_append.mp hm with hm | hm
      · exact hms m hm
      · rw [List.mem_singleton.mp hm]
        rfl
    · rw [hearAll, Act.on_outcome_bind, hon]
      dsimp only
      rw [hfault, if_neg (by decide), Act.on_bind_ok (Act.on_log _), List.append_assoc, List.singleton_append, ← List.append_assoc]
      rfl

/-! ## Two audiences -/

variable {hidden : String → Bool} {a a' b b' : List Nat}

/-- The seats of those who are not hidden. -/
def others (hidden : String → Bool) (seats : List (Subscription × Bool)) : List (Subscription × Bool) :=
  seats.filter fun x => !hidden x.1.listener.name

theorem others_append (hidden : String → Bool) (l l' : List (Subscription × Bool)) :
    others hidden (l ++ l') = others hidden l ++ others hidden l' :=
  List.filter_append ..

theorem others_cons_hidden {l : List (Subscription × Bool)} (h : hidden x.listener.name = true) (c : Bool) :
    others hidden ((x, c) :: l) = others hidden l :=
  List.filter_cons_of_neg (by simp [h])

theorem others_cons_shown {l : List (Subscription × Bool)} (h : hidden x.listener.name = false) (c : Bool) :
    others hidden ((x, c) :: l) = (x, c) :: others hidden l :=
  List.filter_cons_of_pos (by simp [h])

/-- The notes that have nothing to do with those who are hidden. -/
def seen (hidden : String → Bool) (notes : List Queue.Note) : List Queue.Note := notes.filter (Queue.Note.visible hidden)

theorem seen_append (hidden : String → Bool) (ns ms : List Queue.Note) : seen hidden (ns ++ ms) = seen hidden ns ++ seen hidden ms :=
  List.filter_append ..

theorem seen_of_hidden {ms : List Queue.Note} (hh : hidden who = true) (h : ∀ m ∈ ms, Queue.Note.concerns who m = true) :
    seen hidden ms = [] :=
  List.filter_eq_nil_iff.mpr fun m hm => by rw [Queue.Note.visible_of_concerns (h m hm) hh]; decide

/-- Those from a position on whose subscriptions are in force are told of an event. This leaves these subscriptions, of the
    same listeners, and adds these notes. -/
def Resounds (hearing : Hearing) (event : Event) (s : Scheduler) (b : List Nat) (before after left : List Subscription)
    (ms : List Queue.Note) : Prop :=
  left.map Subscription.listener = after.map Subscription.listener ∧ ∀ ns,
    (hearAll hearing event (Queue.places b before.length after.length)).on (s.facing (before ++ after) b ns) =
      (.ok (), s.facing (before ++ left) b (ns ++ ms))

theorem Resounds.nil {hearing : Hearing} (b : List Nat) (before : List Subscription) : Resounds hearing event s b before [] [] [] :=
  ⟨rfl, fun ns => by
    simp only [List.append_nil]
    rfl⟩

/-- Whoever is at a position is told if the subscription is in force, and then those behind it are told. -/
theorem resounds_cons {hearing : Hearing} (h : Reacts hearing event s x) :
    ∃ (y : Bool → Subscription) (ms : Bool → List Queue.Note), (∀ c, (y c).listener = x.listener) ∧
      (∀ c, ∀ m ∈ ms c, Queue.Note.concerns x.listener.name m = true) ∧ ∀ b before after left ms',
        Resounds hearing event s b (before ++ [y (b.contains before.length)]) after left ms' →
          Resounds hearing event s b before (x :: after) (y (b.contains before.length) :: left) (ms (b.contains before.length) ++ ms') := by
  obtain ⟨y, ms, hy, hms, hnext⟩ := hearAll_cons h
  have hlistener : ∀ c : Bool, (if c then y else x).listener = x.listener := fun c => by
    cases c with
    | true => exact hy
    | false => rfl
  refine ⟨fun c => if c then y else x, fun c => if c then ms else [], hlistener, fun c m hm => ?_,
    fun b before after left ms' hrest => ⟨?_, fun ns => ?_⟩⟩
  · cases c with
    | true => exact hms m hm
    | false => cases hm
  · rw [List.map_cons, List.map_cons, hlistener, hrest.1]
  · have hon := hrest.2
    rw [List.length_append, List.length_singleton] at hon
    rw [List.length_cons, Queue.places_succ]
    generalize b.contains before.length = c at hon ⊢
    cases c with
    | true => exact (hnext before after b ns _).trans ((hon (ns ++ ms)).trans (by simp))
    | false => simpa using hon ns

/-- Two audiences, of which the second is the first without those who are hidden, are told the same. -/
theorem resounds_audiences {hearing : Hearing} (hh : ∀ x : Subscription, x.listener.Observes → Reacts hearing event s x)
    {after after' : List Subscription} (hobs : ∀ x ∈ after, x.listener.Observes) (before before' : List Subscription)
    (hseats : Queue.seats b' before'.length after' = others hidden (Queue.seats b before.length after)) :
    ∃ left left' ms ms', Resounds hearing event s b before after left ms ∧ Resounds hearing event s b' before' after' left' ms' ∧
      Queue.seats b' before'.length left' = others hidden (Queue.seats b before.length left) ∧ seen hidden ms' = seen hidden ms := by
  induction after generalizing before before' after' with
  | nil =>
    cases after' with
    | cons x rest => cases hseats
    | nil => exact ⟨[], [], [], [], .nil b before, .nil b' before', rfl, rfl⟩
  | cons x rest ih =>
    obtain ⟨y, ms, hy, hms, hcons⟩ := resounds_cons (hh x (hobs x List.mem_cons_self))
    have hrest : ∀ x ∈ rest, x.listener.Observes := fun x hx => hobs x (List.mem_cons_of_mem _ hx)
    have hlength : ∀ (l : List Subscription) z, (l ++ [z]).length = l.length + 1 := fun l z => List.length_append ..
    cases hhid : hidden x.listener.name with
    | true =>
      -- Only the first audience has this one.
      rw [Queue.seats, others_cons_hidden hhid, ← hlength before (y (b.contains before.length))] at hseats
      obtain ⟨left, left', ns, ns', hfirst, hsecond, hstill, hseen⟩ := ih hrest (before ++ [y (b.contains before.length)]) before' hseats
      refine ⟨y (b.contains before.length) :: left, left', ms (b.contains before.length) ++ ns, ns', hcons _ _ _ _ _ hfirst, hsecond, ?_, ?_⟩
      · rw [hstill, hlength, Queue.seats, others_cons_hidden (by rw [hy]; exact hhid)]
      · rw [seen_append, seen_of_hidden hhid (hms _), hseen, List.nil_append]
    | false =>
      rw [Queue.seats, others_cons_shown hhid] at hseats
      cases after' with
      | nil => cases hseats
      | cons x' rest' =>
        obtain ⟨hx, htail⟩ := List.cons.inj hseats
        obtain ⟨rfl, hforce⟩ := Prod.mk.inj hx
        rw [← hlength before (y (b.contains before.length)), ← hlength before' (y (b'.contains before'.length))] at htail
        obtain ⟨left, left', ns, ns', hfirst, hsecond, hstill, hseen⟩ :=
          ih hrest (before ++ [y (b.contains before.length)]) (before' ++ [y (b'.contains before'.length)]) htail
        refine ⟨y (b.contains before.length) :: left, y (b'.contains before'.length) :: left', ms (b.contains before.length) ++ ns,
          ms (b'.contains before'.length) ++ ns', hcons _ _ _ _ _ hfirst, hcons _ _ _ _ _ hsecond, ?_, ?_⟩
        · rw [hlength, hlength] at hstill
          rw [Queue.seats, Queue.seats, hstill, hforce, others_cons_shown (by rw [hy]; exact hhid)]
        · rw [seen_append, seen_append, hseen, hforce]

/-- Two audiences of which the second is the first without those who are hidden; they all only observe. -/
structure Company (hidden : String → Bool) (q r : Queue) : Prop where
  seated : q.Seated
  seated' : r.Seated
  same : Queue.seats r.subscribed 0 r.subscriptions = others hidden (Queue.seats q.subscribed 0 q.subscriptions)
  observes : ∀ x ∈ q.subscriptions, x.listener.Observes

/-- Of an event of a job the two audiences are told the same. -/
theorem announce_company {hearing : Hearing} (hh : ∀ event s, ∀ x : Subscription, x.listener.Observes → Reacts hearing event s x)
    {a a' : List Subscription} (h : Company hidden (s.queue.facing a b) (s.queue.facing a' b')) (kind : EventKind) (id : JobId)
    (ns ns' : List Queue.Note) :
    ∃ c c' ms ms', (announce .total hearing kind id).on (s.facing a b ns) = (.ok (), s.facing c b (ns ++ ms)) ∧
      (announce .total hearing kind id).on (s.facing a' b' ns') = (.ok (), s.facing c' b' (ns' ++ ms')) ∧
      Company hidden (s.queue.facing c b) (s.queue.facing c' b') ∧ seen hidden ms' = seen hidden ms := by
  cases hjob : s.queue.job? id with
  | none =>
    have hon : ∀ a b ns, (announce .total hearing kind id).on (s.facing a b ns) = (.ok (), s.facing a b ns) := fun a b ns => by
      have hnone : (s.facing a b ns).queue.job? id = none := hjob
      exact announce_none hnone ..
    refine ⟨a, a', [], [], ?_, ?_, h, rfl⟩ <;> rw [hon, List.append_nil]
  | some job =>
    have hon : ∀ a b ns, (announce .total hearing kind id).on (s.facing a b ns) =
        (hearAll hearing ⟨kind, job.snapshot⟩ b).on (s.facing a b ns) := fun a b ns => by
      have hsome : (s.facing a b ns).queue.job? id = some job := hjob
      exact announce_total hsome ..
    obtain ⟨c, c', ms, ms', hfirst, hsecond, hsame, hseen⟩ :=
      resounds_audiences (hh ⟨kind, job.snapshot⟩ s) h.observes [] [] h.same
    -- Being told adds no subscription and removes none, so the places stay the same.
    have hlength : ∀ {c a : List Subscription}, c.map Subscription.listener = a.map Subscription.listener → a.length = c.length :=
      fun hc => by rw [← List.length_map Subscription.listener, ← hc, List.length_map]
    refine ⟨c, c', ms, ms', ?_, ?_, ⟨?_, ?_, hsame, fun y hy => ?_⟩, hseen⟩
    · rw [hon]
      exact (congrArg (fun l => (hearAll hearing ⟨kind, job.snapshot⟩ l).on _) h.seated).trans (hfirst.2 ns)
    · rw [hon]
      exact (congrArg (fun l => (hearAll hearing ⟨kind, job.snapshot⟩ l).on _) h.seated').trans (hsecond.2 ns')
    · exact h.seated.trans (congrArg (Queue.places b 0) (hlength hfirst.1))
    · exact h.seated'.trans (congrArg (Queue.places b' 0) (hlength hsecond.1))
    · obtain ⟨x, hx, hxy⟩ := List.mem_map.mp (hfirst.1 ▸ List.mem_map_of_mem hy)
      exact hxy ▸ h.observes x hx

theorem notifyUpTo_company {a a' : List Subscription} (n : Nat) (h : Company hidden (s.queue.facing a b) (s.queue.facing a' b'))
    (kind : EventKind) (id : JobId) (ns ns' : List Queue.Note) :
    ∃ c c' ms ms', (notifyUpTo n kind id).on (s.facing a b ns) = (.ok (), s.facing c b (ns ++ ms)) ∧
      (notifyUpTo n kind id).on (s.facing a' b' ns') = (.ok (), s.facing c' b' (ns' ++ ms')) ∧
      Company hidden (s.queue.facing c b) (s.queue.facing c' b') ∧ seen hidden ms' = seen hidden ms := by
  cases n with
  | zero => exact announce_company (fun event s x _ => hear_reacts event s x) h kind id ns ns'
  | succ n => exact announce_company (fun event s _ hx => hearAndAct_reacts (notifyUpTo n) event s hx) h kind id ns ns'

/-! ## Who comes and goes -/

namespace Company
variable {q r : Queue} {l : Listener} {name : String}

theorem refl_of_none (hq : q.subscriptions = []) (hb : q.subscribed = []) : Company hidden q q := by
  have hseated : q.Seated := by rw [Queue.Seated, hq, hb]; rfl
  refine ⟨hseated, hseated, by rw [hq]; rfl, fun x hx => ?_⟩
  rw [hq] at hx
  cases hx

theorem subset (h : Company hidden q r) : r.subscriptions ⊆ q.subscriptions := fun x hx => by
  obtain ⟨c, hc⟩ := Queue.exists_mem_seats (b := r.subscribed) (k := 0) hx
  rw [h.same] at hc
  exact Queue.mem_seats (List.mem_of_mem_filter hc)

theorem seats_subscribe (q : Queue) (l : Listener) : Queue.seats (q.subscribe l).subscribed 0 (q.subscribe l).subscriptions =
    Queue.seats q.subscribed 0 q.subscriptions ++ [(⟨l, 0⟩, true)] := by
  have hold : ∀ i, 0 ≤ i → i < 0 + q.subscriptions.length →
      (q.subscribed ++ [q.subscriptions.length]).contains i = q.subscribed.contains i := fun i _ hi => by
    simp [Nat.ne_of_lt (by simpa using hi)]
  change Queue.seats (q.subscribed ++ [q.subscriptions.length]) 0 (q.subscriptions ++ [⟨l, 0⟩]) = _
  rw [Queue.seats_append, Queue.seats_congr hold, Queue.seats, Queue.seats]
  simp

theorem observes_subscribe (h : Company hidden q r) (hl : l.Observes) : ∀ x ∈ (q.subscribe l).subscriptions, x.listener.Observes :=
  fun x hx => (List.mem_append.mp hx).elim (h.observes x) fun hx => by
    rw [List.mem_singleton.mp hx]
    exact hl

/-- Whoever is not hidden comes to both audiences. -/
theorem subscribe (h : Company hidden q r) (hl : l.Observes) (hshown : hidden l.name = false) :
    Company hidden (q.subscribe l) (r.subscribe l) where
  seated := h.seated.subscribe l
  seated' := h.seated'.subscribe l
  same := by
    rw [seats_subscribe, seats_subscribe, h.same, others_append, others_cons_shown hshown]
    rfl
  observes := h.observes_subscribe hl

/-- Whoever is hidden comes to the first one only. -/
theorem subscribe_hidden (h : Company hidden q r) (hl : l.Observes) (hhidden : hidden l.name = true) :
    Company hidden (q.subscribe l) r where
  seated := h.seated.subscribe l
  seated' := h.seated'
  same := by
    rw [seats_subscribe, h.same, others_append, others_cons_hidden hhidden]
    exact (List.append_nil _).symm
  observes := h.observes_subscribe hl

variable {before after : List Subscription} {x : Subscription}

theorem seats_unsubscribe (hq : q.Seated) (hsubs : q.subscriptions = before ++ x :: after) :
    Queue.seats (q.unsubscribe before.length).subscribed 0 (q.unsubscribe before.length).subscriptions =
      Queue.seats q.subscribed 0 before ++ (x, false) :: Queue.seats q.subscribed (before.length + 1) after := by
  have herase : ∀ i, i ≠ before.length → (q.subscribed.erase before.length).contains i = q.subscribed.contains i := fun i hi =>
    Bool.eq_iff_iff.mpr (by simp [hq.nodup.mem_erase_iff, hi])
  have hgone : (q.subscribed.erase before.length).contains before.length = false :=
    Bool.eq_false_iff.mpr (by simp [hq.nodup.mem_erase_iff])
  have hsame : (q.unsubscribe before.length).subscriptions = before ++ x :: after := hsubs
  rw [hsame, Queue.seats_append, Queue.seats, Nat.zero_add, Queue.unsubscribe, hgone, Queue.seats_congr fun i _ hi => herase i (by omega),
    Queue.seats_congr fun i hi _ => herase i (by omega)]

/-- Whoever is not hidden leaves both audiences, or has come to neither. -/
theorem unsubscribe (h : Company hidden q r) (hshown : hidden name = false) :
    (q.subscription? name = none ∧ r.subscription? name = none) ∨ ∃ i i', q.subscription? name = some i ∧
      r.subscription? name = some i' ∧ Company hidden (q.unsubscribe i) (r.unsubscribe i') := by
  rcases Queue.latest_cases q.subscriptions name with hnone | ⟨before, x, after, hsubs, hx, hafter⟩
  · exact .inl ⟨Queue.subscription?_none hnone, Queue.subscription?_none fun y hy => hnone y (h.subset hy)⟩
  · have hsplit : Queue.seats r.subscribed 0 r.subscriptions = others hidden (Queue.seats q.subscribed 0 before) ++
        (x, q.subscribed.contains before.length) :: others hidden (Queue.seats q.subscribed (before.length + 1) after) := by
      rw [h.same, hsubs, Queue.seats_append, others_append, Queue.seats, others_cons_shown (by rw [hx]; exact hshown), Nat.zero_add]
    obtain ⟨before', rest, hsubs', hbefore, hrest⟩ := Queue.seats_split hsplit
    cases rest with
    | nil => cases hrest
    | cons x' after' =>
      obtain ⟨hx', hafter'⟩ := List.cons.inj hrest
      obtain ⟨rfl, -⟩ := Prod.mk.inj hx'
      rw [Nat.zero_add] at hafter'
      have hnone : ∀ y ∈ after', y.listener.name ≠ name := fun y hy => by
        obtain ⟨c, hc⟩ := Queue.exists_mem_seats (b := r.subscribed) (k := before'.length + 1) hy
        rw [hafter'] at hc
        exact hafter y (Queue.mem_seats (List.mem_of_mem_filter hc))
      refine .inr ⟨before.length, before'.length, Queue.subscription?_middle hsubs hx hafter, Queue.subscription?_middle hsubs' hx hnone,
        h.seated.unsubscribe _, h.seated'.unsubscribe _, ?_, h.observes⟩
      rw [seats_unsubscribe h.seated hsubs, seats_unsubscribe h.seated' hsubs', others_append,
        others_cons_shown (by rw [hx]; exact hshown), hbefore, hafter']

/-- Whoever is hidden leaves the first one. -/
theorem unsubscribe_hidden (h : Company hidden q r) (hhidden : hidden name = true) :
    q.subscription? name = none ∨ ∃ i, q.subscription? name = some i ∧ Company hidden (q.unsubscribe i) r := by
  rcases Queue.latest_cases q.subscriptions name with hnone | ⟨before, x, after, hsubs, hx, hafter⟩
  · exact .inl (Queue.subscription?_none hnone)
  · refine .inr ⟨before.length, Queue.subscription?_middle hsubs hx hafter, h.seated.unsubscribe _, h.seated', ?_, h.observes⟩
    have hgone : hidden x.listener.name = true := hx ▸ hhidden
    rw [seats_unsubscribe h.seated hsubs, h.same, hsubs, Queue.seats_append, others_append, others_append, Queue.seats,
      others_cons_hidden hgone, others_cons_hidden hgone, Nat.zero_add]

end Company

end Scheduler
end MediaEngine
