import Mathlib.Data.List.Induction
import MediaEngine.Proofs.Warnings

/-! # The latest timeout

An entry tells of a timeout if a piece of its message or of its error is the words of one once the letters are in lower case
(`Entry.isTimeout_iff`). Moments that all have an offset, or all have none, are in order, and so there is a first one among
the latest. That is the entry that is warned of, in whatever order entries stand (`latest_timeout_reported`). -/

namespace MediaEngine

namespace Text
variable {word cs : List Char} {c : Char}

/-! ## Words in any case -/

/-- A word stands in a text, in whatever case its letters are. -/
def Holds (word cs : List Char) : Prop := ∃ piece, piece <:+: cs ∧ piece.map Char.toLower = word

/-- A word of which no other character than its letters has them for a lower case form. -/
structure Plain (word : List Char) : Prop where
  ascii : ∀ c ∈ word, c.toNat < 128
  other : 'k' ∉ word
  last : word.getLast? ≠ some 'i'

instance (word : List Char) : Decidable (Plain word) :=
  decidable_of_iff ((word.all fun c => decide (c.toNat < 128)) = true ∧ 'k' ∉ word ∧ word.getLast? ≠ some 'i')
    ⟨fun h => ⟨fun c hc => of_decide_eq_true (List.all_eq_true.mp h.1 c hc), h.2.1, h.2.2⟩,
      fun h => ⟨List.all_eq_true.mpr fun c hc => decide_eq_true (h.ascii c hc), h.other, h.last⟩⟩

theorem occursIn_iff : occursIn word cs = true ↔ word <:+: cs := by
  induction cs with
  | nil => rw [occursIn, List.isEmpty_iff, List.infix_nil]
  | cons c rest ih => rw [occursIn, Bool.or_eq_true, List.isPrefixOf_iff_prefix, ih, List.infix_cons_iff]

/-- Besides the characters that become one letter there are two: one becomes a letter that plain words do not have, the
other a letter and a mark. -/
theorem lowerChar_cases (c : Char) : lowerChar c = [c.toLower] ∨
    (128 ≤ c.toLower.toNat ∧ (lowerChar c = ['k'] ∨ lowerChar c = ['i', Char.ofNat 0x307])) := by
  unfold lowerChar
  split
  · rename_i h
    have hc : c = Char.ofNat 0x212A := by rw [← h, Char.ofNat_toNat]
    exact .inr ⟨by rw [hc]; decide, .inl rfl⟩
  · split
    · rename_i h
      have hc : c = Char.ofNat 0x130 := by rw [← h, Char.ofNat_toNat]
      exact .inr ⟨by rw [hc]; decide, .inr rfl⟩
    · exact .inl rfl

theorem Plain.tail {word : List Char} (h : Plain (c :: word)) (hne : word ≠ []) : Plain word where
  ascii d hd := h.ascii d (List.mem_cons_of_mem _ hd)
  other hk := h.other (List.mem_cons_of_mem _ hk)
  last := by
    have hlast := h.last
    rwa [List.getLast?_cons_of_ne_nil hne] at hlast

/-- A plain word does not begin with what one of the two characters becomes. -/
theorem Plain.apart {rest : List Char} (h : Plain (c :: word)) (d : Char)
    (hd : lowerChar d = ['k'] ∨ lowerChar d = ['i', Char.ofNat 0x307]) :
    ¬ c :: word <+: lowerChar d ++ rest := by
  rintro hp
  rcases hd with hd | hd <;> rw [hd] at hp
  · obtain ⟨rfl, -⟩ := List.cons_prefix_cons.mp hp
    exact h.other List.mem_cons_self
  · obtain ⟨rfl, hrest⟩ := List.cons_prefix_cons.mp hp
    cases word with
    | nil => exact h.last rfl
    | cons e word =>
      obtain ⟨rfl, -⟩ := List.cons_prefix_cons.mp hrest
      exact absurd (h.ascii _ (List.mem_cons_of_mem _ List.mem_cons_self)) (by decide)

/-- A text begins with a plain word in any case exactly if its lower case form begins with the word. -/
theorem prefix_lower_iff (h : word = [] ∨ Plain word) :
    word <+: cs.flatMap lowerChar ↔ ∃ piece, piece <+: cs ∧ piece.map Char.toLower = word := by
  induction cs generalizing word with
  | nil =>
    rw [List.flatMap_nil, List.prefix_nil]
    constructor
    · rintro rfl
      exact ⟨[], List.prefix_rfl, rfl⟩
    · rintro ⟨piece, hp, rfl⟩
      rw [List.prefix_nil.mp hp, List.map_nil]
  | cons d rest ih =>
    cases word with
    | nil => exact iff_of_true (List.nil_prefix) ⟨[], List.nil_prefix, rfl⟩
    | cons c word =>
      have hplain : Plain (c :: word) := h.resolve_left (List.cons_ne_nil _ _)
      have hrest : word = [] ∨ Plain word := by
        by_cases hne : word = []
        · exact .inl hne
        · exact .inr (hplain.tail hne)
      rw [List.flatMap_cons]
      -- A character becomes one letter, or something with which no plain word begins.
      rcases lowerChar_cases d with hd | ⟨hbig, hd⟩
      · rw [hd, List.singleton_append, List.cons_prefix_cons, ih hrest]
        constructor
        · rintro ⟨rfl, piece, hp, rfl⟩
          exact ⟨d :: piece, List.cons_prefix_cons.mpr ⟨rfl, hp⟩, rfl⟩
        · rintro ⟨piece, hp, hw⟩
          obtain ⟨x, piece, rfl, rfl, rfl⟩ := List.map_eq_cons_iff.mp hw
          obtain ⟨hx, hrest⟩ := List.cons_prefix_cons.mp hp
          exact ⟨congrArg Char.toLower hx, piece, hrest, rfl⟩
      · refine iff_of_false (hplain.apart d hd) ?_
        rintro ⟨piece, hp, hw⟩
        obtain ⟨x, piece, rfl, rfl, rfl⟩ := List.map_eq_cons_iff.mp hw
        obtain ⟨rfl, -⟩ := List.cons_prefix_cons.mp hp
        exact absurd (hplain.ascii _ List.mem_cons_self) (Nat.not_lt.mpr hbig)

/-- A plain word stands in a text in any case exactly if it stands in the lower case form. -/
theorem infix_lower_iff (h : Plain word) (hne : word ≠ []) : word <:+: cs.flatMap lowerChar ↔ Holds word cs := by
  unfold Holds
  induction cs with
  | nil =>
    refine iff_of_false (fun hw => hne (List.infix_nil.mp hw)) ?_
    rintro ⟨piece, hp, rfl⟩
    exact hne (by rw [List.infix_nil.mp hp, List.map_nil])
  | cons d rest ih =>
    have hhead : word <+: (d :: rest).flatMap lowerChar ↔ _ := prefix_lower_iff (.inr h)
    have hsplit : (∃ piece, piece <:+: d :: rest ∧ piece.map Char.toLower = word) ↔
        word <+: (d :: rest).flatMap lowerChar ∨ word <:+: rest.flatMap lowerChar := by
      rw [hhead, ih]
      simp only [List.infix_cons_iff, or_and_right, exists_or]
    rw [hsplit, List.flatMap_cons]
    -- A word that begins behind the letter into which a character is changed begins in the rest.
    rcases lowerChar_cases d with hd | ⟨-, hd | hd⟩
    · rw [hd, List.singleton_append, List.infix_cons_iff]
    · rw [hd, List.singleton_append, List.infix_cons_iff]
    · rw [hd, List.cons_append, List.singleton_append, List.infix_cons_iff, List.infix_cons_iff]
      refine or_congr_right (or_iff_right ?_)
      cases word with
      | nil => exact absurd rfl hne
      | cons c word =>
        intro hp
        obtain ⟨rfl, -⟩ := List.cons_prefix_cons.mp hp
        exact absurd (h.ascii _ List.mem_cons_self) (by decide)

end Text

namespace Job
variable {e f : Entry} {es : List Entry}

/-- The message or the error of an entry has the words of a timeout in it, in whatever case. -/
def Entry.TellsTimeout (e : Entry) : Prop :=
  ∃ s, (e.message = some s ∨ e.errorMessage = some s) ∧ Text.Holds timeoutMarker s.toList

theorem mentionsTimeout_iff (s : Option String) : mentionsTimeout s = true ↔ ∃ t, s = some t ∧ Text.Holds timeoutMarker t.toList := by
  have hplain : Text.Plain timeoutMarker := by decide
  have hne : timeoutMarker ≠ [] := by decide
  rw [mentionsTimeout, Option.any_eq_true]
  refine exists_congr fun t => and_congr_right fun _ => ?_
  rw [Text.occursIn_iff, Text.lower, Text.infix_lower_iff hplain hne]

theorem Entry.isTimeout_iff (e : Entry) : e.isTimeout = true ↔ e.TellsTimeout := by
  rw [Entry.isTimeout, Bool.or_eq_true, mentionsTimeout_iff, mentionsTimeout_iff, ← exists_or]
  exact exists_congr fun t => or_and_right.symm

/-! ## Moments in order -/

/-- Both moments of two entries are known in universal time, or neither is. -/
def Entry.Alike (e f : Entry) : Prop := e.eventMoment.offset.isSome = f.eventMoment.offset.isSome

theorem Entry.Alike.later? (h : e.Alike f) :
    e.eventMoment.later? f.eventMoment = some (decide (f.eventMoment.instant < e.eventMoment.instant)) := if_pos h

/-- An entry that is later than those in front of it, and no entry behind it is later. -/
def FirstLatest (es : List Entry) (e : Entry) : Prop :=
  ∃ before after, es = before ++ e :: after ∧ (∀ f ∈ before, e.eventMoment.later? f.eventMoment = some true) ∧
    ∀ f ∈ after, f.eventMoment.later? e.eventMoment = some false

theorem FirstLatest.mem (h : FirstLatest es e) : e ∈ es := by
  obtain ⟨before, after, rfl, -, -⟩ := h
  exact List.mem_append_right _ List.mem_cons_self

/-- No entry at all is later than the first latest one. -/
theorem FirstLatest.le (h : FirstLatest es e) (hall : ∀ f ∈ es, e.Alike f) (hf : f ∈ es) :
    f.eventMoment.instant ≤ e.eventMoment.instant := by
  have hlike := hall f hf
  obtain ⟨before, after, rfl, hbefore, hafter⟩ := h
  rcases List.mem_append.mp hf with hf | hf
  · have hearlier := hbefore f hf
    rw [hlike.later?, Option.some.injEq, decide_eq_true_eq] at hearlier
    exact Int.le_of_lt hearlier
  · rcases List.mem_cons.mp hf with rfl | hf
    · exact Int.le_refl _
    · have hlater := hafter f hf
      rw [Entry.Alike.later? hlike.symm, Option.some.injEq, decide_eq_false_iff_not] at hlater
      exact Int.not_lt.mp hlater

/-- One more entry is the latest one if it is later than the latest so far. -/
theorem laterEntry_step (h : FirstLatest es e) (hall : ∀ g ∈ es ++ [f], ∀ g' ∈ es ++ [f], g.Alike g') :
    ∃ l, laterEntry (some e) f = .ok (some l) ∧ FirstLatest (es ++ [f]) l := by
  have hf : f ∈ es ++ [f] := List.mem_append_right _ (List.mem_singleton_self f)
  have hold : ∀ g ∈ es, g ∈ es ++ [f] := fun g hg => List.mem_append_left _ hg
  have hlike : f.Alike e := hall f hf e (hold e h.mem)
  simp only [laterEntry, hlike.later?]
  by_cases hlt : e.eventMoment.instant < f.eventMoment.instant
  · refine ⟨f, by rw [decide_eq_true hlt]; rfl, es, [], rfl, fun g hg => ?_, List.forall_mem_nil _⟩
    have hle := h.le (fun g hg => hall e (hold e h.mem) g (hold g hg)) hg
    rw [(hall f hf g (hold g hg)).later?, decide_eq_true (Int.lt_of_le_of_lt hle hlt)]
  · refine ⟨e, by rw [decide_eq_false hlt]; rfl, ?_⟩
    obtain ⟨before, after, rfl, hbefore, hafter⟩ := h
    refine ⟨before, after ++ [f], by simp, hbefore, fun g hg => ?_⟩
    rcases List.mem_append.mp hg with hg | hg
    · exact hafter g hg
    · rw [List.mem_singleton.mp hg, hlike.later?, decide_eq_false hlt]

/-- Of entries whose moments are in order the first latest one is found, unless there are none. -/
theorem laterEntry_found (hall : ∀ e ∈ es, ∀ f ∈ es, e.Alike f) :
    ∃ latest, es.foldlM laterEntry none = .ok latest ∧ (latest = none ↔ es = []) ∧ ∀ e, latest = some e → FirstLatest es e := by
  induction es using List.reverseRecOn with
  | nil => exact ⟨none, rfl, Iff.rfl.trans (iff_of_true rfl rfl), fun e he => by cases he⟩
  | append_singleton es f ih =>
    obtain ⟨latest, hfold, hnone, hsome⟩ := ih fun e he g hg => hall e (List.mem_append_left _ he) g (List.mem_append_left _ hg)
    rw [List.foldlM_append, hfold]
    have hne : ¬ es ++ [f] = [] := List.append_ne_nil_of_right_ne_nil _ (List.cons_ne_nil _ _)
    cases latest with
    | none =>
      obtain rfl := hnone.mp rfl
      refine ⟨some f, rfl, iff_of_false (fun h => by cases h) hne, fun e he => ?_⟩
      cases he
      exact ⟨[], [], rfl, List.forall_mem_nil _, List.forall_mem_nil _⟩
    | some e =>
      obtain ⟨l, hl, hfirst⟩ := laterEntry_step (hsome e rfl) hall
      refine ⟨some l, ?_, iff_of_false (fun h => by cases h) hne, fun g hg => Option.some.inj hg ▸ hfirst⟩
      change ([f].foldlM laterEntry (some e) : Except WarningError (Option Entry)) = _
      rw [List.foldlM_cons, hl]
      rfl

/-! ## What is warned of -/

/-- Of the entries that tell of a timeout one that is later than those in front of it, and none behind it is later. -/
def LatestTimeout (history : List Entry) (e : Entry) : Prop :=
  e.TellsTimeout ∧ ∃ before after, history = before ++ e :: after ∧
    (∀ f ∈ before, f.TellsTimeout → e.eventMoment.later? f.eventMoment = some true) ∧
    ∀ f ∈ after, f.TellsTimeout → f.eventMoment.later? e.eventMoment = some false

theorem LatestTimeout.mem {history : List Entry} (h : LatestTimeout history e) : e ∈ history := by
  obtain ⟨-, before, after, rfl, -, -⟩ := h
  exact List.mem_append_right _ List.mem_cons_self

theorem latestTimeout_of_filter {history : List Entry} (h : FirstLatest (history.filter Entry.isTimeout) e) : LatestTimeout history e := by
  have htells := e.isTimeout_iff.mp (List.mem_filter.mp h.mem).2
  obtain ⟨before, after, hsplit, hbefore, hafter⟩ := h
  obtain ⟨front, tail, rfl, hfront, htail⟩ := List.filter_eq_append_iff.mp hsplit
  obtain ⟨between, rest, rfl, hbetween, -, hrest⟩ := List.filter_eq_cons_iff.mp htail
  refine ⟨htells, front ++ between, rest, (List.append_assoc ..).symm, fun f hf ht => ?_, fun f hf ht => ?_⟩
  · rcases List.mem_append.mp hf with hf | hf
    · exact hbefore f (hfront ▸ List.mem_filter.mpr ⟨hf, f.isTimeout_iff.mpr ht⟩)
    · exact absurd (f.isTimeout_iff.mpr ht) (hbetween f hf)
  · exact hafter f (hrest ▸ List.mem_filter.mpr ⟨hf, f.isTimeout_iff.mpr ht⟩)

theorem latestTimeout_found {history : List Entry} (hall : ∀ e ∈ history, ∀ f ∈ history, e.TellsTimeout → f.TellsTimeout → e.Alike f) :
    ∃ latest, latestTimeout history = .ok latest ∧ (latest = none ↔ ∀ e ∈ history, ¬ e.TellsTimeout) ∧
      ∀ e, latest = some e → LatestTimeout history e := by
  have hfiltered : ∀ e ∈ history.filter Entry.isTimeout, ∀ f ∈ history.filter Entry.isTimeout, e.Alike f := fun e he f hf =>
    hall e (List.mem_filter.mp he).1 f (List.mem_filter.mp hf).1 (e.isTimeout_iff.mp (List.mem_filter.mp he).2)
      (f.isTimeout_iff.mp (List.mem_filter.mp hf).2)
  obtain ⟨latest, hfold, hnone, hsome⟩ := laterEntry_found hfiltered
  refine ⟨latest, hfold, hnone.trans ?_, fun e he => latestTimeout_of_filter (hsome e he)⟩
  rw [List.filter_eq_nil_iff]
  exact forall₂_congr fun e _ => not_congr e.isTimeout_iff

/-- Where limits are shown and the entries that tell of a timeout are at moments that can be compared, there is a warning if there
is such an entry, and it is of the latest one. Without limits nothing is warned of. -/
theorem latest_timeout_reported (history : List Entry) (limits : Option Limits) (queued : Int) (event : Option FullEvent) (now : Moment)
    (hall : ∀ e ∈ history, ∀ f ∈ history, e.TellsTimeout → f.TellsTimeout → e.Alike f) :
    ∃ ws, warnings history limits queued event now = .ok ws ∧ (limits = none → ws = []) ∧
      (limits ≠ none → ((∃ e ∈ history, e.TellsTimeout) ↔ warningsOf .timeout ws ≠ []) ∧
        ((∃ e ∈ history, e.TellsTimeout) → ∃ e, LatestTimeout history e ∧ warningsOf .timeout ws = [timeoutWarning e now])) := by
  cases limits with
  | none => exact ⟨[], rfl, fun _ => rfl, fun h => absurd rfl h⟩
  | some limits =>
    obtain ⟨latest, hlatest, hnone, hsome⟩ := latestTimeout_found hall
    obtain ⟨ws, hws, -, htimeout⟩ := warnings_of_latest hlatest limits queued event now
    refine ⟨ws, hws, fun h => absurd h (Option.some_ne_none _), fun _ => ?_⟩
    rw [htimeout]
    cases latest with
    | none =>
      have hno : ¬ ∃ e ∈ history, e.TellsTimeout := fun ⟨e, he, ht⟩ => hnone.mp rfl e he ht
      exact ⟨iff_of_false hno fun h => h rfl, fun h => absurd h hno⟩
    | some e =>
      have hfirst := hsome e rfl
      exact ⟨iff_of_true ⟨e, hfirst.mem, hfirst.1⟩ (List.cons_ne_nil _ _), fun _ => ⟨e, hfirst, rfl⟩⟩

/-- A canceled job with a message, and when it ended. -/
def canceledEntry (message : String) (finishedAt : Option Moment) : Entry :=
  ⟨"job-1", "job", .canceled, none, none, none, finishedAt, none, .warn, some message⟩

/-- A moment of one day in microseconds, at a place some hours ahead of universal time. -/
def dayMoment (micros : Nat) (ahead : Option Int) : Moment := ⟨⟨2024, 5, 1⟩, micros, ahead.map (· * 3600)⟩

/-- Entries at two places, and one without a moment. The second and the third are of the same moment, the last tells of no timeout. -/
def mixedEntries : List Entry :=
  [canceledEntry "Queue timeout exceeded" none, canceledEntry "QUEUE TIMEOUT" (some (dayMoment 43200000000 (some 0))),
    canceledEntry "queue Timeout" (some (dayMoment 50400000000 (some 2))), canceledEntry "Canceled" (some (dayMoment 50400000000 (some 0)))]

theorem latest_of_mixed_entries_reported : ∃ e, LatestTimeout mixedEntries e ∧
    ∃ ws, warnings mixedEntries (some ⟨1, 4, 180000⟩) 0 none .earliest = .ok ws ∧ warningsOf .timeout ws = [timeoutWarning e .earliest] := by
  have hoffsets : ∀ e ∈ mixedEntries, e.eventMoment.offset.isSome = true := by decide +kernel
  have htells : ∃ e ∈ mixedEntries, e.TellsTimeout :=
    ⟨_, List.mem_cons_self, (Entry.isTimeout_iff _).mp (by decide +kernel)⟩
  obtain ⟨ws, hws, -, hshown⟩ := latest_timeout_reported mixedEntries (some ⟨1, 4, 180000⟩) 0 none .earliest
    fun e he f hf _ _ => (hoffsets e he).trans (hoffsets f hf).symm
  obtain ⟨e, hfirst, hwarned⟩ := (hshown (Option.some_ne_none _)).2 htells
  exact ⟨e, hfirst, ws, hws, hwarned⟩

/-- Without limits an entry that tells of a timeout is not warned of, and of two entries whose moments cannot be compared
none is found to be the latest. -/
theorem timeout_not_always_reported :
    (canceledEntry "Queue timeout exceeded" none).TellsTimeout ∧
      warnings [canceledEntry "Queue timeout exceeded" none] none 0 none .earliest = .ok [] ∧
      warnings [canceledEntry "Queue timeout exceeded" none, canceledEntry "Queue timeout exceeded" (some (dayMoment 0 none))]
        (some ⟨1, 4, 180000⟩) 0 none .earliest = .error .incomparable :=
  ⟨(Entry.isTimeout_iff _).mp (by decide +kernel), rfl, by decide +kernel⟩

end Job
end MediaEngine
