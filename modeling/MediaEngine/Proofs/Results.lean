import Mathlib.Data.List.Forall2
import Mathlib.Data.List.Pairwise
import Mathlib.Logic.ExistsUnique
import MediaEngine.Proofs.Records
import MediaEngine.Scheduler.Task

/-! # What becomes of the members of a result

Each member of an object that the body of a job returned either is what a field of the result was read from or stands among
the extras as it is (`Accounts`), and nothing else does. How the fields are spelled makes no difference to the result as long
as none is there in both spellings, and none to what follows the body (`members_accounted_for`). -/

namespace MediaEngine
open Job Schema

namespace Job.RunResult

/-! ## Fields -/

/-- The fields of a result, which are what its members with a meaning are read as. -/
inductive Field where
  | outputPath
  | totalTime
  | outputTime
  | payload
  deriving DecidableEq

namespace Field

/-- The key of a field. -/
def key : Field → Key
  | outputPath => outputPathKey
  | totalTime => totalTimeKey
  | outputTime => outputTimeKey
  | payload => payloadKey

/-- In the result, the field is what this value is read as. -/
def ReadFrom (v : Value) (r : RunResult) : Field → Prop
  | outputPath => orNothing readText v = .ok r.outputPath
  | totalTime => orNothing readDouble v = .ok r.totalTime
  | outputTime => orNothing readDouble v = .ok r.outputTime
  | payload => r.payload = v

/-- In the result, the field is nothing. -/
def IsNull (r : RunResult) : Field → Prop
  | outputPath => r.outputPath = none
  | totalTime => r.totalTime = none
  | outputTime => r.outputTime = none
  | payload => r.payload = .null

variable {f g : Field} {key : String}

theorem exists_key {p : Key → Prop} : (∃ k ∈ keys, p k) ↔ ∃ f : Field, p f.key := by
  constructor
  · rintro ⟨k, hk, h⟩
    simp only [keys, List.mem_cons, List.not_mem_nil, or_false] at hk
    rcases hk with rfl | rfl | rfl | rfl
    · exact ⟨outputPath, h⟩
    · exact ⟨totalTime, h⟩
    · exact ⟨outputTime, h⟩
    · exact ⟨payload, h⟩
  · rintro ⟨f, h⟩
    exact ⟨f.key, by cases f <;> simp [keys, key], h⟩

/-- No two fields have a spelling in common. -/
theorem eq_of_spells (hf : f.key.Spells key) (hg : g.key.Spells key) : f = g := by
  have apart : ∀ k k' : Key, k.Spells key → k'.Spells key →
      k.spelling = k'.spelling ∨ k.spelling = k'.name ∨ k.name = k'.spelling ∨ k.name = k'.name := by
    rintro k k' (rfl | rfl) (h | h)
    · exact .inl h
    · exact .inr (.inl h)
    · exact .inr (.inr (.inl h))
    · exact .inr (.inr (.inr h))
  have hcommon := apart _ _ hf hg
  -- each pair of different fields is told apart by its four spellings
  cases f <;> cases g <;> first | rfl | exact absurd hcommon (by decide)

end Field

/-! ## Reading -/

section Reading
variable {m : Members} {r : RunResult}

theorem ofValue_object : ofValue (.object m) = .ok r ↔ readMembers m = .ok r := by
  rw [ofValue]
  cases readMembers m with
  | ok a => exact ⟨fun h => congrArg _ (Except.ok.inj h), fun h => congrArg _ (Checked.ok.inj h)⟩
  | bad issues => exact iff_of_false (fun h => by cases h) fun h => by cases h

/-- A result has of each field what its value is read as, or nothing if there is none, and the extras. -/
theorem ofValue_eq_ok : ofValue (.object m) = .ok r ↔
    (∀ f : Field, (f.key.value? m).elim (f.IsNull r) fun v => f.ReadFrom v r) ∧ r.extra = extras m := by
  have hpayload : ∀ a, withDefault payloadKey readAny .null m = .ok a ↔ (payloadKey.value? m).elim (a = .null) fun v => a = v := by
    intro a
    rw [withDefault_eq_ok]
    cases payloadKey.value? m with
    | none => rfl
    | some v => exact ⟨fun h => (Checked.ok.inj h).symm, fun h => congrArg _ h.symm⟩
  rw [ofValue_object, readMembers]
  simp only [Checked.seq_eq_ok, Checked.fmap_eq_ok]
  constructor
  · rintro ⟨_, ⟨_, ⟨_, ⟨_, ⟨outputPath, h₁, rfl⟩, totalTime, h₂, rfl⟩, outputTime, h₃, rfl⟩, payload, h₄, rfl⟩, extra, h₅, rfl⟩
    refine ⟨fun f => ?_, (Checked.ok.inj h₅).symm⟩
    cases f with
    | outputPath => exact withDefault_eq_ok.mp h₁
    | totalTime => exact withDefault_eq_ok.mp h₂
    | outputTime => exact withDefault_eq_ok.mp h₃
    | payload => exact (hpayload _).mp h₄
  · rintro ⟨hfields, hextra⟩
    exact ⟨_, ⟨_, ⟨_, ⟨_, ⟨_, withDefault_eq_ok.mpr (hfields .outputPath), rfl⟩,
      _, withDefault_eq_ok.mpr (hfields .totalTime), rfl⟩, _, withDefault_eq_ok.mpr (hfields .outputTime), rfl⟩,
      _, (hpayload _).mpr (hfields .payload), rfl⟩, _, congrArg _ hextra.symm, rfl⟩

end Reading

/-! ## Where members go -/

section Members
variable {m : Members} {r : RunResult} {key : String} {v : Value}

theorem isUsed_iff (hm : (m.map (·.1)).Nodup) : isUsed m key = true ↔ ∃ f : Field, f.key.FoundUnder m key := by
  have hfound : ∀ k : Key, ((k.find? m).any fun member => member.1 == key) = true ↔ k.FoundUnder m key := by
    intro k
    rw [Option.any_eq_true]
    constructor
    · rintro ⟨⟨found, v⟩, hfind, hkey⟩
      rw [← beq_iff_eq.mp hkey]
      exact ((Key.find?_eq_some_iff hm).mp hfind).1
    · intro h
      obtain ⟨member, hmember, rfl⟩ := List.mem_map.mp h.1
      exact ⟨_, (Key.find?_eq_some_iff hm).mpr ⟨h, hmember⟩, beq_self_eq_true _⟩
  rw [isUsed, List.any_eq_true]
  exact (exists_congr fun k => and_congr_right fun _ => hfound k).trans Field.exists_key

theorem mem_extras (hm : (m.map (·.1)).Nodup) :
    (key, v) ∈ extras m ↔ (key, v) ∈ m ∧ ∀ f : Field, ¬ f.key.FoundUnder m key := by
  rw [extras, List.mem_filter, Bool.not_eq_true', ← Bool.not_eq_true, isUsed_iff hm, not_exists]

/-- Where a member of an object is found in the result: a field is read from it, or it is one of the extras. -/
inductive Goes (m : Members) (r : RunResult) (key : String) (v : Value) : Option Field → Prop
  | read {f : Field} (found : f.key.FoundUnder m key) (read : f.ReadFrom v r) : Goes m r key v (some f)
  | kept (extra : (key, v) ∈ r.extra) : Goes m r key v none

/-- The result accounts for the members of an object, and has nothing else. -/
structure Accounts (m : Members) (r : RunResult) : Prop where
  once : ∀ key v, (key, v) ∈ m → ∃! place, Goes m r key v place
  /-- The preferred spelling gives a field its value, and the name does where that spelling is not there. -/
  preferred : ∀ (f : Field) v, (f.key.spelling, v) ∈ m → f.ReadFrom v r
  named : ∀ (f : Field) v, f.key.spelling ∉ m.map (·.1) → (f.key.name, v) ∈ m → f.ReadFrom v r
  missing : ∀ f : Field, f.key.spelling ∉ m.map (·.1) → f.key.name ∉ m.map (·.1) → f.IsNull r
  /-- A name is one of the extras where the preferred spelling is there, and so is every key that is none of a field. -/
  second : ∀ (f : Field) v, f.key.spelling ∈ m.map (·.1) → f.key.name ≠ f.key.spelling → (f.key.name, v) ∈ m →
    (f.key.name, v) ∈ r.extra
  unknown : ∀ key v, (∀ f : Field, ¬ f.key.Spells key) → (key, v) ∈ m → (key, v) ∈ r.extra
  /-- The extras are members of the object, in their order, and no field is read from one of them. -/
  extras : r.extra.Sublist m ∧ ∀ key v, (key, v) ∈ r.extra → ∀ f : Field, ¬ f.key.FoundUnder m key

theorem ofValue_accounts (hm : (m.map (·.1)).Nodup) (h : ofValue (.object m) = .ok r) : Accounts m r := by
  obtain ⟨hfields, hextra⟩ := ofValue_eq_ok.mp h
  have hread : ∀ {f : Field} {key v}, f.key.FoundUnder m key → (key, v) ∈ m → f.ReadFrom v r := by
    intro f key v hfound hv
    have hfield := hfields f
    rwa [Key.value?, (Key.find?_eq_some_iff hm).mpr ⟨hfound, hv⟩] at hfield
  have hkept : ∀ {key v}, (key, v) ∈ r.extra ↔ (key, v) ∈ m ∧ ∀ f : Field, ¬ f.key.FoundUnder m key := by
    rw [hextra]
    exact mem_extras hm
  have hthere : ∀ {key v}, (key, v) ∈ m → key ∈ m.map (·.1) := fun h => List.mem_map_of_mem (f := (·.1)) h
  constructor
  case once =>
    intro key v hv
    by_cases hfound : ∃ f : Field, f.key.FoundUnder m key
    · obtain ⟨f, hf⟩ := hfound
      refine ⟨some f, .read hf (hread hf hv), fun place hplace => ?_⟩
      cases hplace with
      | read hg => rw [Field.eq_of_spells hg.spells hf.spells]
      | kept hextra => exact absurd hf ((hkept.mp hextra).2 f)
    · refine ⟨none, .kept (hkept.mpr ⟨hv, not_exists.mp hfound⟩), fun place hplace => ?_⟩
      cases hplace with
      | @read f hf => exact absurd ⟨f, hf⟩ hfound
      | kept => rfl
  case preferred => exact fun f v hv => hread ⟨hthere hv, .inl rfl⟩ hv
  case named => exact fun f v hno hv => hread ⟨hthere hv, .inr ⟨rfl, hno⟩⟩ hv
  case missing =>
    intro f hspelling hname
    have hfield := hfields f
    rwa [Key.value?, Key.find?_eq_none_iff.mpr ⟨hspelling, hname⟩] at hfield
  case second =>
    intro f v hspelling hne hv
    refine hkept.mpr ⟨hv, fun g hg => ?_⟩
    -- only the field of this name can be found under it, and it is found under the preferred spelling
    obtain rfl := Field.eq_of_spells hg.spells (.inr rfl : f.key.Spells f.key.name)
    rcases hg.2 with h | ⟨-, hno⟩
    · exact hne h
    · exact hno hspelling
  case unknown => exact fun key v hunknown hv => hkept.mpr ⟨hv, fun f hf => hunknown f hf.spells⟩
  case extras => exact ⟨hextra ▸ List.filter_sublist, fun key v hv => (hkept.mp hv).2⟩

end Members

/-! ## Spellings -/

/-- Two keys are the same, or two spellings of one field. -/
def SameKey (a b : String) : Prop := a = b ∨ ∃ f : Field, f.key.Spells a ∧ f.key.Spells b

instance (a b : String) : Decidable (SameKey a b) :=
  decidable_of_iff (a = b ∨ ∃ k ∈ keys, (a = k.spelling ∨ a = k.name) ∧ (b = k.spelling ∨ b = k.name))
    (or_congr_right Field.exists_key)

/-- No key is there twice, be it in the same spelling or in both. -/
def KeyedOnce (m : Members) : Prop := m.Pairwise fun a b => ¬ SameKey a.1 b.1

instance (m : Members) : Decidable (KeyedOnce m) := inferInstanceAs (Decidable (m.Pairwise _))

/-- Some keys of an object are spelled in their other way. -/
def Renamed (m m' : Members) : Prop := List.Forall₂ (fun a b => SameKey a.1 b.1 ∧ a.2 = b.2) m m'

/-- The key is a spelling of some field. -/
def isKnown (key : String) : Bool := keys.any fun k => key == k.spelling || key == k.name

theorem isKnown_iff {key : String} : isKnown key = true ↔ ∃ f : Field, f.key.Spells key := by
  rw [isKnown, List.any_eq_true]
  simp only [Bool.or_eq_true, beq_iff_eq]
  exact Field.exists_key

namespace SameKey
variable {a b c : String} {f : Field}

theorem symm (h : SameKey a b) : SameKey b a := h.imp Eq.symm fun ⟨f, ha, hb⟩ => ⟨f, hb, ha⟩

theorem spells_iff (h : SameKey a b) : f.key.Spells a ↔ f.key.Spells b := by
  rcases h with rfl | ⟨g, ha, hb⟩
  · rfl
  · exact ⟨fun h => Field.eq_of_spells h ha ▸ hb, fun h => Field.eq_of_spells h hb ▸ ha⟩

theorem trans (h : SameKey a b) (h' : SameKey b c) : SameKey a c := by
  rcases h' with rfl | ⟨f, hb, hc⟩
  · exact h
  · exact .inr ⟨f, h.spells_iff.mpr hb, hc⟩

theorem isKnown_eq (h : SameKey a b) : isKnown a = isKnown b := by
  rw [Bool.eq_iff_iff, isKnown_iff, isKnown_iff]
  exact exists_congr fun _ => h.spells_iff

theorem eq_of_unknown (h : SameKey a b) (ha : isKnown a = false) : a = b := by
  refine h.resolve_right fun ⟨f, hf, _⟩ => ?_
  rw [isKnown_iff.mpr ⟨f, hf⟩] at ha
  cases ha

end SameKey

section Spelling
variable {m m' : Members} {key : String} {v : Value} {f : Field}

theorem KeyedOnce.nodup (h : KeyedOnce m) : (m.map (·.1)).Nodup :=
  List.pairwise_map.mpr (h.imp fun hne heq => hne (.inl heq))

theorem KeyedOnce.eq_of_same (h : KeyedOnce m) {a b : String × Value} (ha : a ∈ m) (hb : b ∈ m) (hab : SameKey a.1 b.1) : a = b := by
  have hsymm : Std.Symm fun a b : String × Value => ¬ SameKey a.1 b.1 := ⟨fun _ _ hne hsame => hne hsame.symm⟩
  by_contra hne
  exact h.forall ha hb hne hab

/-- Where no field is there in both spellings, it is found in the one that is there. -/
theorem KeyedOnce.foundUnder_iff (h : KeyedOnce m) (hv : (key, v) ∈ m) : f.key.FoundUnder m key ↔ f.key.Spells key := by
  refine ⟨Key.FoundUnder.spells, fun hkey => ⟨List.mem_map_of_mem (f := (·.1)) hv, ?_⟩⟩
  rcases hkey with hspelling | hname
  · exact .inl hspelling
  · by_cases hthere : f.key.spelling ∈ m.map (·.1)
    · obtain ⟨other, hother, hspelling⟩ := List.mem_map.mp hthere
      have hsame := h.eq_of_same hother hv (.inr ⟨f, .inl hspelling, .inr hname⟩)
      exact .inl (by rw [← hspelling, hsame])
    · exact .inr ⟨hname, hthere⟩

theorem KeyedOnce.value?_eq_some (h : KeyedOnce m) :
    f.key.value? m = some v ↔ ∃ member ∈ m, f.key.Spells member.1 ∧ member.2 = v := by
  rw [Key.value?, Option.map_eq_some_iff]
  constructor
  · rintro ⟨member, hfind, rfl⟩
    obtain ⟨hfound, hmember⟩ := (Key.find?_eq_some_iff h.nodup).mp hfind
    exact ⟨member, hmember, hfound.spells, rfl⟩
  · rintro ⟨member, hmember, hspells, rfl⟩
    exact ⟨member, (Key.find?_eq_some_iff h.nodup).mpr ⟨(h.foundUnder_iff hmember).mpr hspells, hmember⟩, rfl⟩

theorem KeyedOnce.extras_eq (h : KeyedOnce m) : extras m = m.filter fun member => !isKnown member.1 := by
  refine List.filter_congr fun member hmember => congrArg (!·) ?_
  rw [Bool.eq_iff_iff, isUsed_iff h.nodup, isKnown_iff]
  exact exists_congr fun f => h.foundUnder_iff hmember

namespace Renamed

theorem exists_iff (h : Renamed m m') {p : String × Value → Prop}
    (hp : ∀ a b : String × Value, SameKey a.1 b.1 → a.2 = b.2 → (p a ↔ p b)) : (∃ a ∈ m, p a) ↔ ∃ b ∈ m', p b := by
  induction h with
  | nil => rfl
  | cons hab _ ih => rw [List.exists_mem_cons_iff, List.exists_mem_cons_iff, hp _ _ hab.1 hab.2, ih]

theorem keyedOnce (h : Renamed m m') (hm : KeyedOnce m) : KeyedOnce m' := by
  induction h with
  | nil => exact .nil
  | @cons a b rest rest' hab hrest ih =>
    obtain ⟨hnew, hm⟩ := List.pairwise_cons.mp hm
    refine List.pairwise_cons.mpr ⟨fun c hc hbc => ?_, ih hm⟩
    have hthere := (exists_iff hrest (p := fun d => SameKey a.1 d.1) fun c d hcd _ =>
      ⟨fun h => h.trans hcd, fun h => h.trans hcd.symm⟩).mpr ⟨c, hc, hab.1.trans hbc⟩
    obtain ⟨d, hd, had⟩ := hthere
    exact hnew d hd had

theorem value?_eq (h : Renamed m m') (hm : KeyedOnce m) (f : Field) : f.key.value? m = f.key.value? m' := by
  refine Option.ext fun v => ?_
  rw [hm.value?_eq_some, (h.keyedOnce hm).value?_eq_some]
  exact h.exists_iff fun a b hkey hvalue => by rw [hkey.spells_iff, hvalue]

theorem extras_eq (h : Renamed m m') (hm : KeyedOnce m) : extras m = extras m' := by
  rw [hm.extras_eq, (h.keyedOnce hm).extras_eq]
  -- which keys are known is said of each member alone, unlike which ones are used
  clear hm
  induction h with
  | nil => rfl
  | @cons a b rest rest' hab _ ih =>
    rw [List.filter_cons, List.filter_cons, ← hab.1.isKnown_eq, ih]
    cases hknown : isKnown a.1 with
    | true => rfl
    | false => rw [Prod.ext (hab.1.eq_of_unknown hknown) hab.2]

/-- An object is read as the same result however its keys are spelled. -/
theorem result_iff (h : Renamed m m') (hm : KeyedOnce m) (r : RunResult) :
    ofValue (.object m) = .ok r ↔ ofValue (.object m') = .ok r := by
  rw [ofValue_eq_ok, ofValue_eq_ok, h.extras_eq hm]
  simp only [h.value?_eq hm]

end Renamed

end Spelling

end Job.RunResult

/-! ## After the body -/

namespace Scheduler
open RunResult
variable {notify : Notify} {j : Job} {v v' : Value} {r : RunResult}

/-- What follows a body depends on its value as far as the result that the value means. -/
theorem settleBody_of_result (h : ofValue v = .ok r) (h' : ofValue v' = .ok r) : settleBody notify j v = settleBody notify j v' := by
  unfold settleBody
  rw [h, h']

theorem settleBody_of_error {e : ResultError} (h : ofValue v = .error e) : settleBody notify j v = throw (.result e) := by
  unfold settleBody
  rw [h]
  rfl

/-- Both values mean the same result, from which all that follows the body is the same, or neither means one, and both
    stop the turn before anything has changed. -/
inductive SettleAlike (v v' : Value) : Prop
  | same {r : RunResult} (left : ofValue v = .ok r) (right : ofValue v' = .ok r)
      (after : ∀ notify j, settleBody notify j v = settleBody notify j v') : SettleAlike v v'
  | neither {e e' : ResultError} (left : ofValue v = .error e) (right : ofValue v' = .error e')
      (before : ∀ notify j, settleBody notify j v = throw (.result e))
      (after : ∀ notify j, settleBody notify j v' = throw (.result e')) : SettleAlike v v'

theorem settleAlike_of_iff (h : ∀ r, ofValue v = .ok r ↔ ofValue v' = .ok r) : SettleAlike v v' := by
  cases hv : ofValue v with
  | ok r =>
    have hv' := (h r).mp hv
    exact .same hv hv' fun _ _ => settleBody_of_result hv hv'
  | error e =>
    cases hv' : ofValue v' with
    | ok r =>
      rw [(h r).mpr hv'] at hv
      cases hv
    | error e' => exact .neither hv hv' (fun _ _ => settleBody_of_error hv) fun _ _ => settleBody_of_error hv'

/-- Each member of an object that is read as a result is accounted for once: a field is read from it, in the preferred
    spelling or else under its name, or it is one of the extras as it is. Objects that differ in the spelling of their keys
    alone mean the same result, from which the same is recorded. -/
theorem members_accounted_for (m : Members) :
    (∀ r, (m.map (·.1)).Nodup → ofValue (.object m) = .ok r → Accounts m r) ∧
    ∀ m', KeyedOnce m → Renamed m m' → SettleAlike (.object m) (.object m') := by
  refine ⟨fun r hm h => ofValue_accounts hm h, fun m' hm h => ?_⟩
  exact settleAlike_of_iff (h.result_iff hm)

/-- A path in both spellings beside an unknown key, and a path and a time that are spelled in their other way. -/
theorem mixed_members_accounted_for :
    let both : Members := [("plan_stages", .int 3), ("output_path", .text "old.mp4"), ("outputPath", .text "new.mp4")]
    let named : Members := [("output_path", .text "new.mp4"), ("plan_stages", .int 3), ("totalTimeMs", .int 4000)]
    let capital : Members := [("outputPath", .text "new.mp4"), ("plan_stages", .int 3), ("total_time_ms", .int 4000)]
    let r : RunResult := ⟨some "new.mp4", none, none, .null, [("plan_stages", .int 3), ("output_path", .text "old.mp4")]⟩
    (both.map (·.1)).Nodup ∧ ofValue (.object both) = .ok r ∧ Accounts both r ∧
      KeyedOnce named ∧ Renamed named capital ∧ SettleAlike (.object named) (.object capital) := by
  intro both named capital r
  have hnodup : (both.map (·.1)).Nodup := by decide +kernel
  have hresult : ofValue (.object both) = .ok r := by rfl
  have honce : KeyedOnce named := by decide +kernel
  have hrenamed : Renamed named capital :=
    .cons ⟨by decide +kernel, rfl⟩ (.cons ⟨by decide +kernel, rfl⟩ (.cons ⟨by decide +kernel, rfl⟩ .nil))
  exact ⟨hnodup, hresult, (members_accounted_for both).1 r hnodup hresult, honce, hrenamed,
    (members_accounted_for named).2 capital honce hrenamed⟩

end Scheduler

end MediaEngine
