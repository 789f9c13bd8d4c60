import MediaEngine.Proofs.Copies
import MediaEngine.Proofs.Lasting

/-! # Metadata that are not too deep

Where every metadata that scripts hand in, and every change to them, can be copied, it makes no difference that others
could not be: the run is the one where all metadata can be copied (`giveAllWithin_total`). In the surroundings of a run
these are the metadata that are not too deep (`run?_shallow`). -/

namespace MediaEngine
open Job

theorem Members.height_set_le (key : String) (v : Value) (m : Members) :
    Value.membersHeight (m.set key v) ≤ max v.height (Value.membersHeight m) := by
  induction m with
  | nil => exact Nat.le_refl _
  | cons member rest ih =>
    obtain ⟨k, w⟩ := member
    unfold Members.set
    split <;> simp only [Value.membersHeight] <;> omega

/-- What is asked of scripts whose metadata are no deeper than some depth, whatever is set in them. -/
def Job.Terms.shallow (depth : Nat) : Terms where
  holds := Copying.toDepth depth
  sets _ value := decide (value.height < depth)
  seats _ := true
  leaves _ := true
  holds_set m key value hm hv := by
    have hset := Members.height_set_le key value m
    have hm : 1 + Value.membersHeight m ≤ depth := of_decide_eq_true hm
    have hv := of_decide_eq_true hv
    have hafter : 1 + Value.membersHeight (m.set key value) ≤ depth := by omega
    exact decide_eq_true hafter

namespace Scheduler
variable {terms : Terms} {copies : Copying}

/-- All scripts of a scheduler meet the terms, also those of its listeners. -/
structure Meets (terms : Terms) (s : Scheduler) : Prop where
  fair : s.Fair terms
  listeners : ∀ x ∈ s.queue.subscriptions, x.listener.meets terms = true

instance (terms : Terms) : Lasting terms (Meets terms) where
  fair h := h.fair
  audience h := h.listeners
  beside h hs _ _ hfair := ⟨hfair, hs ▸ h.listeners⟩
  noted h _ := ⟨⟨h.fair.queue, h.fair.tasks⟩, h.listeners⟩
  subscribe {s l} h _ hmeets := by
    refine ⟨⟨h.fair.queue, h.fair.tasks⟩, fun x hx => ?_⟩
    rcases List.mem_append.mp hx with hx | hx
    · exact h.listeners x hx
    · rw [List.mem_singleton.mp hx]
      exact hmeets
  unsubscribe _ h := ⟨⟨h.fair.queue, h.fair.tasks⟩, h.listeners⟩
  countFiring {s} index h := by
    refine ⟨⟨h.fair.queue, h.fair.tasks⟩, fun x hx => ?_⟩
    obtain ⟨y, hy, hl⟩ : ∃ y ∈ s.queue.subscriptions, y.listener = x.listener := by
      have hx : x.listener ∈ (s.queue.countFiring index).listeners := List.mem_map_of_mem hx
      rw [Queue.listeners_countFiring] at hx
      exact List.mem_map.mp hx
    exact hl ▸ h.listeners y hy

/-! ## Telling listeners -/

theorem hear_meets (terms : Terms) (event : Event) (index : Nat) : Reflects (Itself (Meets terms)) Any (hear event index) :=
  hear_mirrors fun s hs => by
    unfold informed
    split
    · exact hs
    · split
      · exact hs
      · exact ⟨⟨hs.fair.queue, hs.fair.tasks⟩, hs.listeners⟩

/-- What meets the terms can be copied, so of such jobs all are told as they are where all metadata can be copied. -/
theorem announce_informs {hearing hearing' : Hearing} (hcopies : ∀ m, terms.holds m = true → copies m = true)
    (hh : ∀ event index, Mirrors (Itself (Meets terms)) Any (hearing event index) (hearing' event index)) :
    Informs terms (Itself (Meets terms)) (announce copies hearing) (announce .total hearing') where
  tells kind id := by
    refine .look fun s hs => ?_
    cases hj : s.queue.job? id with
    | none => exact .pure trivial
    | some job =>
      have hcopied : job.isCopied copies = true := by
        have hm := (hs.fair.queue job (List.mem_of_find?_eq_some hj)).metadata
        rw [Job.isCopied]
        cases h : job.metadata with
        | none => rfl
        | some m =>
          rw [h] at hm
          exact hcopies m hm
      simp only [hcopied, Job.isCopied_total, Bool.or_true, if_true]
      exact hearAll_mirrors fun index _ => hh _ index
  copies m h := (hcopies m h).symm

theorem notifyWithin_informs (hcopies : ∀ m, terms.holds m = true → copies m = true) (n : Nat) :
    Informs terms (Itself (Meets terms)) (notifyWithin copies n) (notifyUpTo n) := by
  induction n with
  | zero => exact announce_informs hcopies (hear_meets terms)
  | succ n ih => exact announce_informs hcopies fun event index => hearAndAct_mirrors ih (hear_meets terms event index)

/-! ## Runs -/

/-- If the metadata that commands hand in can be copied, what they do is the same as where all metadata can be. -/
theorem giveAllWithin_total (hcopies : ∀ m, terms.holds m = true → copies m = true) (supplied : Option Store) {s : Scheduler}
    (hs : s.Meets terms) {commands : List Command} (h : ∀ c ∈ commands, c.meets terms = true) :
    s.giveAllWithin copies supplied commands = s.giveAll supplied commands := by
  induction commands generalizing s with
  | nil => rfl
  | cons c rest ih =>
    obtain ⟨r, t, u, hon, hon', ⟨rfl, hmeets⟩, -⟩ :=
      obey_mirrors (notifyWithin_informs hcopies s.budget) supplied (h c List.mem_cons_self) ⟨rfl, hs⟩
    have hgive : s.giveWithin copies supplied c = (⟨r, u.queue.overview, u.notes.drop s.notes.length⟩, u) := by
      have hrun : (obey supplied (notifyWithin copies s.budget) c).run s = (r, u) := hon
      rw [giveWithin, hrun]
    have hgive' : s.giveWithin .total supplied c = (⟨r, u.queue.overview, u.notes.drop s.notes.length⟩, u) := by
      have hrun : (obey supplied (notifyUpTo s.budget) c).run s = (r, u) := hon'
      rw [giveWithin, hrun]
    have hrest := ih hmeets fun x hx => h x (List.mem_cons_of_mem _ hx)
    rw [giveAll] at hrest
    rw [giveAll, giveAllWithin, giveAllWithin, hgive, hgive']
    dsimp only
    rw [hrest]

theorem start_meets (terms : Terms) (settings : Settings) (store : Store) (directory : String) (budget : Nat) :
    (start settings store directory budget).Meets terms :=
  ⟨⟨fun _ h => (by cases h), fun _ h => (by cases h)⟩, fun _ h => (by cases h)⟩

/-- A run with metadata that are not too deep is one where all metadata can be copied. -/
theorem run?_shallow (settings : Settings) (supplied : Option Store) (directory : String) {commands : List Command}
    (h : ∀ c ∈ commands, c.meets (.shallow copyDepth) = true) :
    run? settings supplied directory commands = (Store.chosen? supplied settings.historyLimit).map fun store =>
      (start settings store directory (budgetOf commands)).giveAll supplied commands := by
  have hsame : ∀ store, (start settings store directory (budgetOf commands)).giveAllWithin (.toDepth copyDepth) supplied commands =
      (start settings store directory (budgetOf commands)).giveAll supplied commands := fun store =>
    giveAllWithin_total (fun _ hm => hm) supplied (start_meets (.shallow copyDepth) settings store directory _) h
  simp only [run?, hsame]

end Scheduler
end MediaEngine
