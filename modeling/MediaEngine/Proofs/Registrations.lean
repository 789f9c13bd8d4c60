import Mathlib.Data.List.Induction
import MediaEngine.Proofs.Callbacks
import MediaEngine.Queue

/-! # Registrations

Functions are registered in a list, the same one as often as one likes, and each registration gives a remover. As a remover
looks for its function and not for its registration, it may take another registration of the function away. Where none of
another function stands in between, as where every function is registered once (`Orderly.of_nodup`), that makes no difference
(`Orderly`): the functions listed are those of the registrations whose removers were not called, in order (`listed_run`), and
to call a remover again changes nothing (`run_again`). -/

namespace MediaEngine

namespace Registry

/-- A use of a list of registrations: a function is registered, or the remover of a registration is called. A registration is
known by its position among all that were made. -/
inductive Use (κ : Type) where
  | register (function : κ)
  | remove (position : Nat)
  deriving DecidableEq

variable {κ σ : Type}

def Use.function? : Use κ → Option κ
  | .register f => some f
  | .remove _ => none

/-- The functions that were registered, in order. -/
def functions (uses : List (Use κ)) : List κ := uses.filterMap Use.function?

variable [DecidableEq κ] {uses more : List (Use κ)} {f g : κ} {n : Nat}

/-- The registrations whose removers were not called, each with its position. -/
def inForce (uses : List (Use κ)) : List (κ × Nat) := (functions uses).zipIdx.filter fun p => .remove p.2 ∉ uses

/-- To take the first registration of a function away comes to the same as to take that of a position away: in between there is
none of another function, or there is none of the function at all. -/
def Alike (uses : List (Use κ)) (f : κ) (n : Nat) : Prop :=
  ((f, n) ∈ inForce uses ∧ ∀ p ∈ inForce uses, ∀ q ∈ inForce uses, p.1 = f → p.2 ≤ q.2 → q.2 ≤ n → q.1 = f) ∨
    ∀ p ∈ inForce uses, p.1 ≠ f

instance (uses : List (Use κ)) (f : κ) (n : Nat) : Decidable (Alike uses f n) := inferInstanceAs (Decidable (_ ∨ _))

/-- Every remover that is called was given before, and its registration is not mistaken for one that is called at another
place. -/
def Orderly (uses : List (Use κ)) : Prop :=
  ∀ before n after, uses = before ++ .remove n :: after → ∃ f, (functions before)[n]? = some f ∧ Alike before f n

/-! ## Which registrations are in force -/

omit [DecidableEq κ] in
theorem functions_append : functions (uses ++ more) = functions uses ++ functions more := List.filterMap_append

omit [DecidableEq κ] in
theorem functions_remove (uses : List (Use κ)) (n : Nat) : functions (uses ++ [.remove n]) = functions uses := by
  rw [functions_append]
  exact List.append_nil _

theorem mem_inForce {p : κ × Nat} : p ∈ inForce uses ↔ (functions uses)[p.2]? = some p.1 ∧ .remove p.2 ∉ uses := by
  rw [inForce, List.mem_filter, List.mem_zipIdx_iff_getElem?, decide_eq_true_eq]

theorem inForce_sorted (uses : List (Use κ)) : (inForce uses).Pairwise fun p q => p.2 < q.2 := by
  refine List.Pairwise.filter _ (List.pairwise_map.mp ?_)
  rw [List.zipIdx_map_snd]
  exact List.pairwise_lt_range'

theorem inForce_remove (uses : List (Use κ)) (n : Nat) :
    inForce (uses ++ [.remove n]) = (inForce uses).filter fun p => p.2 ≠ n := by
  rw [inForce, functions_remove, inForce, List.filter_filter]
  refine List.filter_congr fun p _ => ?_
  simp [and_comm]

/-- Where no remover was called that was not given, a new registration is in force. -/
theorem inForce_register (h : .remove (functions uses).length ∉ uses) (f : κ) :
    inForce (uses ++ [.register f]) = inForce uses ++ [(f, (functions uses).length)] := by
  have hfunctions : functions (uses ++ [.register f]) = functions uses ++ [f] := functions_append
  rw [inForce, hfunctions, List.zipIdx_append, List.filter_append, inForce]
  refine congrArg₂ (· ++ ·) (List.filter_congr fun p _ => ?_) ?_
  · simp
  · simp [h]

/-! ## Uses in order -/

theorem orderly_nil : Orderly ([] : List (Use κ)) := fun _ _ _ h => by simp at h

theorem Orderly.left (h : Orderly (uses ++ more)) : Orderly uses := fun before n after hu =>
  h before n (after ++ more) (by rw [hu, List.append_assoc, List.cons_append])

omit [DecidableEq κ] in
theorem concat_eq {u : Use κ} {before after : List (Use κ)} (h : uses ++ [u] = before ++ .remove n :: after) :
    (before = uses ∧ u = .remove n) ∨ ∃ rest, uses = before ++ .remove n :: rest := by
  rcases List.eq_nil_or_concat after with rfl | ⟨rest, last, rfl⟩
  · obtain ⟨rfl, heq⟩ := List.append_inj' h rfl
    exact .inl ⟨rfl, List.singleton_inj.mp heq⟩
  · rw [List.concat_eq_append, ← List.cons_append, ← List.append_assoc] at h
    exact .inr ⟨rest, (List.append_inj' h rfl).1⟩

theorem Orderly.remove_iff : Orderly (uses ++ [.remove n]) ↔
    Orderly uses ∧ ∃ f, (functions uses)[n]? = some f ∧ Alike uses f n := by
  refine ⟨fun h => ⟨h.left, h uses n [] rfl⟩, fun ⟨h, hlast⟩ before m after hu => ?_⟩
  rcases concat_eq hu with ⟨rfl, heq⟩ | ⟨rest, hrest⟩
  · cases heq
    exact hlast
  · exact h before m rest hrest

theorem Orderly.register (h : Orderly uses) (f : κ) : Orderly (uses ++ [.register f]) := fun before n after hu => by
  rcases concat_eq hu with ⟨-, heq⟩ | ⟨rest, hrest⟩
  · cases heq
  · exact h before n rest hrest

theorem Orderly.given (h : Orderly uses) (hn : .remove n ∈ uses) : n < (functions uses).length := by
  obtain ⟨before, after, rfl⟩ := List.append_of_mem hn
  obtain ⟨f, hf, -⟩ := h before n after rfl
  rw [functions_append, List.length_append]
  exact Nat.lt_add_right _ (List.getElem?_eq_some_iff.mp hf).1

/-- Where every function is registered only once, removers cannot be mistaken, as long as each was given before. -/
theorem Orderly.of_nodup (hnodup : (functions uses).Nodup)
    (hgiven : ∀ before n after, uses = before ++ .remove n :: after → n < (functions before).length) : Orderly uses := by
  intro before n after hu
  have hn := hgiven before n after hu
  have hget : (functions before)[n]? = some (functions before)[n] := List.getElem?_eq_getElem hn
  have hbefore : (functions before).Nodup := by
    rw [hu, functions_append] at hnodup
    exact hnodup.of_append_left
  have hsole : ∀ p ∈ inForce before, p.1 = (functions before)[n] → p.2 = n := fun p hp hf => by
    have hp := (mem_inForce.mp hp).1
    exact (List.getElem?_inj (List.getElem?_eq_some_iff.mp hp).1 hbefore).mp (hp.trans (hf ▸ hget.symm))
  refine ⟨_, hget, ?_⟩
  by_cases hm : .remove n ∈ before
  · exact .inr fun p hp hf => (mem_inForce.mp hp).2 (hsole p hp hf ▸ hm)
  · refine .inl ⟨mem_inForce.mpr ⟨hget, hm⟩, fun p hp q hq hf hle hle' => ?_⟩
    have hqn : q.2 = n := Nat.le_antisymm hle' (hsole p hp hf ▸ hle)
    exact Option.some.inj ((mem_inForce.mp hq).1.symm.trans (hqn ▸ hget))

/-- The first registration of a function is erased, and the functions are listed as if it had been that of the position. -/
theorem erase_map {l : List (κ × Nat)} (hsorted : l.Pairwise fun p q => p.2 < q.2) (hmem : (f, n) ∈ l)
    (hbetween : ∀ p ∈ l, ∀ q ∈ l, p.1 = f → p.2 ≤ q.2 → q.2 ≤ n → q.1 = f) :
    (l.map Prod.fst).erase f = (l.filter fun p => p.2 ≠ n).map Prod.fst := by
  induction l with
  | nil => cases hmem
  | cons p rest ih =>
    obtain ⟨hlater, hrest⟩ := List.pairwise_cons.mp hsorted
    have hkept : ∀ p ∈ rest, ∀ q ∈ rest, p.1 = f → p.2 ≤ q.2 → q.2 ≤ n → q.1 = f := fun p hp q hq =>
      hbetween p (List.mem_cons_of_mem _ hp) q (List.mem_cons_of_mem _ hq)
    rcases List.mem_cons.mp hmem with rfl | hmem
    · have hall : rest.filter (fun q => q.2 ≠ n) = rest :=
        List.filter_eq_self.mpr fun q hq => decide_eq_true (Nat.ne_of_gt (hlater q hq))
      rw [List.filter_cons_of_neg (by simp), hall, List.map_cons, List.erase_cons_head]
    · have hlt : p.2 < n := hlater _ hmem
      have hkeeps : (p :: rest).filter (fun p => p.2 ≠ n) = p :: rest.filter fun p => p.2 ≠ n :=
        List.filter_cons_of_pos (decide_eq_true (Nat.ne_of_lt hlt))
      rw [hkeeps, List.map_cons, List.map_cons, ← ih hrest hmem hkept]
      by_cases hp : p.1 = f
      · -- the rest begins with the function as well, which is put back in front of it
        obtain ⟨q, others, rfl⟩ := List.exists_cons_of_ne_nil (List.ne_nil_of_mem hmem)
        have hq : q.2 ≤ n := by
          rcases List.mem_cons.mp hmem with rfl | hm
          · exact Nat.le_refl _
          · exact Nat.le_of_lt ((List.pairwise_cons.mp hrest).1 _ hm)
        have hqf : q.1 = f := hbetween p List.mem_cons_self q (List.mem_cons_of_mem _ List.mem_cons_self) hp
          (Nat.le_of_lt (hlater q List.mem_cons_self)) hq
        rw [hp, List.erase_cons_head, List.map_cons, hqf, List.erase_cons_head]
      · exact List.erase_cons_tail (by simpa using hp)

/-- The remover of a position erases its function, and no other function is listed than before. -/
theorem Alike.erase (h : Alike uses f n) (hf : (functions uses)[n]? = some f) :
    ((inForce uses).map Prod.fst).erase f = ((inForce uses).filter fun p => p.2 ≠ n).map Prod.fst := by
  rcases h with ⟨hmem, hbetween⟩ | hnone
  · exact erase_map (inForce_sorted uses) hmem hbetween
  · have hall : (inForce uses).filter (fun p => p.2 ≠ n) = inForce uses := List.filter_eq_self.mpr fun p hp =>
      decide_eq_true fun hn => hnone p hp (Option.some.inj ((mem_inForce.mp hp).1.symm.trans (hn ▸ hf)))
    rw [hall]
    refine List.erase_of_not_mem fun hm => ?_
    obtain ⟨p, hp, rfl⟩ := List.mem_map.mp hm
    exact hnone p hp rfl

/-- Once its remover was called, no function of a registration is listed that its remover could take away. -/
theorem Alike.absent (h : Alike uses f n) (hn : .remove n ∈ uses) : f ∉ (inForce uses).map Prod.fst := by
  rcases h with ⟨hmem, -⟩ | hnone
  · exact absurd hn (mem_inForce.mp hmem).2
  · intro hm
    obtain ⟨p, hp, rfl⟩ := List.mem_map.mp hm
    exact hnone p hp rfl

end Registry

/-! ## Lists of functions -/

/-- Something with a list of registered functions; a remover takes the first registration of its function away. -/
structure Registry (σ κ : Type) [DecidableEq κ] where
  listed : σ → List κ
  register : σ → κ → σ
  unregister : σ → κ → σ
  listed_register (s : σ) (f : κ) : listed (register s f) = listed s ++ [f]
  listed_unregister (s : σ) (f : κ) : listed (unregister s f) = (listed s).erase f
  unregister_absent (s : σ) (f : κ) : f ∉ listed s → unregister s f = s

namespace Registry
variable {σ κ : Type} [DecidableEq κ] (R : Registry σ κ) {s : σ} {uses more : List (Use κ)} {f : κ} {n : Nat}

/-- Makes a use, the removers that were given being known by their functions. -/
def use : σ × List κ → Use κ → σ × List κ
  | (s, given), .register f => (R.register s f, given ++ [f])
  | (s, given), .remove n => (match given[n]? with | some f => R.unregister s f | none => s, given)

def useAll (s : σ) (uses : List (Use κ)) : σ × List κ := uses.foldl R.use (s, [])

def run (s : σ) (uses : List (Use κ)) : σ := (R.useAll s uses).1

theorem useAll_concat (s : σ) (uses : List (Use κ)) (u : Use κ) : R.useAll s (uses ++ [u]) = R.use (R.useAll s uses) u := by
  rw [useAll, List.foldl_append]
  rfl

theorem useAll_eq (s : σ) (uses : List (Use κ)) : R.useAll s uses = (R.run s uses, functions uses) := by
  refine Prod.ext rfl ?_
  change (R.useAll s uses).2 = functions uses
  induction uses using List.reverseRecOn with
  | nil => rfl
  | append_singleton uses u ih =>
    rw [useAll_concat, functions_append, ← ih]
    cases u with
    | register f => rfl
    | remove n => exact (List.append_nil _).symm

theorem run_register (s : σ) (uses : List (Use κ)) (f : κ) : R.run s (uses ++ [.register f]) = R.register (R.run s uses) f := by
  rw [run, useAll_concat, useAll_eq]
  rfl

theorem run_remove (hf : (functions uses)[n]? = some f) : R.run s (uses ++ [.remove n]) = R.unregister (R.run s uses) f := by
  rw [run, useAll_concat, useAll_eq]
  simp only [use, hf]

/-- The functions listed are those of the registrations in force, in order. -/
theorem listed_run (hs : R.listed s = []) (h : Orderly uses) : R.listed (R.run s uses) = (inForce uses).map Prod.fst := by
  -- one use after the other is added at the end, as it is judged by what was used before
  induction uses using List.reverseRecOn with
  | nil => exact hs
  | append_singleton uses u ih =>
    have hlisted := ih h.left
    cases u with
    | register f =>
      have hfresh : .remove (functions uses).length ∉ uses := fun hm => Nat.lt_irrefl _ (h.left.given hm)
      rw [run_register, R.listed_register, hlisted, inForce_register hfresh, List.map_append]
      rfl
    | remove n =>
      obtain ⟨-, f, hf, halike⟩ := Orderly.remove_iff.mp h
      rw [run_remove R hf, R.listed_unregister, hlisted, inForce_remove, halike.erase hf]

/-- To call a remover again changes nothing, whatever is done afterwards. -/
theorem run_again (hs : R.listed s = []) (h : Orderly (uses ++ .remove n :: more)) (hn : .remove n ∈ uses) :
    R.run s (uses ++ .remove n :: more) = R.run s (uses ++ more) := by
  rw [List.append_cons] at h
  have horderly : Orderly (uses ++ [.remove n]) := h.left
  obtain ⟨hbefore, f, hf, halike⟩ := Orderly.remove_iff.mp horderly
  have habsent : f ∉ R.listed (R.run s uses) := R.listed_run hs hbefore ▸ halike.absent hn
  have hsame : R.useAll s (uses ++ [.remove n]) = R.useAll s uses := by
    rw [useAll_eq, run_remove R hf, functions_remove, R.unregister_absent _ _ habsent, ← useAll_eq]
  have hmore : R.useAll s (uses ++ .remove n :: more) = more.foldl R.use (R.useAll s (uses ++ [.remove n])) := by
    rw [List.append_cons, useAll, List.foldl_append]
    rfl
  rw [run, hmore, hsame, run, useAll, useAll, List.foldl_append]

end Registry

/-! ## Tokens and queues -/

open Registry

/-- The callbacks of a token. -/
def Job.Token.registry (κ ω : Type) [DecidableEq κ] : Registry (Job.Token κ ω) κ where
  listed := Job.Token.callbacks
  register := Job.Token.register
  unregister := Job.Token.unregister
  listed_register _ _ := rfl
  listed_unregister _ _ := rfl
  unregister_absent t c h := by rw [Job.Token.unregister, List.erase_of_not_mem h]

/-- The subscriptions of a queue. -/
def Queue.registry : Registry Queue Nat where
  listed := Queue.subscribed
  register := Queue.enforce
  unregister := Queue.unsubscribe
  listed_register _ _ := rfl
  listed_unregister _ _ := rfl
  unregister_absent q i h := by rw [Queue.unsubscribe, List.erase_of_not_mem h]

end MediaEngine
