import MediaEngine.Job.Bridge
import MediaEngine.Proofs.Progress

/-! # Calls on a bridge

A bridge and its progress hold a part each of what is known, and a call writes to one before the other. A call that fails
has written nothing (`call_unseen`), so that nothing that is called later can tell that it was made, with one exception:
an encoder's time that is a whole number beyond all doubles is remembered by the bridge before the progress refuses it,
and from then on the two cannot be compared. Without such a time no run of calls shows a trace of what failed in it, and
with one it does (`failed_calls_unseen_iff`). -/

namespace MediaEngine.Job
open Binary64

namespace Bridge
variable {b : Bridge} {p : Progress} {v : Value}

/-- The time that the preview has come to once a frame was shown. -/
def timeOf (b : Bridge) (i : Int) : Except ArithmeticError Binary64 := do
  (← (Number.int (i + 1)).mul (.float b.frameDuration)).toDouble

/-- The time of a frame that is told by its number. -/
def frameTime (b : Bridge) (v : Value) : Except BridgeError Binary64 := do bridging (b.timeOf (← frameIndex v))

theorem recordFrame_error {e : BridgeError} (h : b.frameTime v = .error e) : b.recordFrame p v = (b, .error e) := by
  unfold frameTime timeOf at h
  rw [recordFrame, h]

/-- A frame moves the progress if it is further away than is tolerated. -/
theorem recordFrame_ok {t : Binary64} (h : b.frameTime v = .ok t) : b.recordFrame p v =
    ({ b with lastPreview := t }, .ok (if b.tolerance.lt (drift t p) then { p with output := usable t } else p)) := by
  unfold frameTime timeOf at h
  rw [recordFrame, h]
  simp only [Progress.setOutput_double]
  split <;> rfl

theorem recordEncoder_error {e : BridgeError} (h : encoderTime v = .error e) : b.recordEncoder p v = (b, .error e) := by
  rw [recordEncoder, h]

theorem recordEncoder_ok {n : Number} (h : encoderTime v = .ok n) : b.recordEncoder p v =
    ({ b with lastEncoder := n }, bridging (p.setOutput (encoderOutput v n))) := by
  rw [recordEncoder, h]

end Bridge

/-- A bridge, and the progress that it drives. -/
structure Drive where
  bridge : Bridge
  progress : Progress

namespace Drive

/-- A call on a bridge, or on its progress; or a new bridge is built in place of the old one. -/
inductive Call where
  | build (fps tolerance frames : Value)
  | encoder (v : Value)
  | frame (v : Value)
  | inSync
  | progress (c : Progress.Call)

/-- What is answered to a call. -/
inductive Answer where
  | built (b : Bridge)
  | moved (p : Progress)
  | synced (yes : Bool)

/-- What a call comes to: an answer or an error, and what it leaves. -/
abbrev Outcome := EStateM.Result BridgeError Drive Answer

/-- The outcome of what moves a progress. -/
def moving (p : Progress) : Bridge × Except BridgeError Progress → Outcome
  | (b, .ok q) => .ok (.moved q) ⟨b, q⟩
  | (b, .error e) => .error e ⟨b, p⟩

/-- The outcome of what builds another bridge. -/
def building (s : Drive) : Except BridgeError (Bridge × Progress) → Outcome
  | .ok (b, p) => .ok (.built b) ⟨b, p⟩
  | .error e => .error e s

/-- What a call comes to. -/
def call (s : Drive) : Call → Outcome
  | .build fps tolerance frames => building s (Bridge.build fps tolerance frames s.progress)
  | .encoder v => moving s.progress (s.bridge.recordEncoder s.progress v)
  | .frame v => moving s.progress (s.bridge.recordFrame s.progress v)
  | .inSync =>
    match s.bridge.isInSync s.progress with
    | .ok yes => .ok (.synced yes) s
    | .error e => .error (.arithmetic e) s
  | .progress c => moving s.progress (s.bridge, bridging (s.progress.call c))

/-- What an outcome leaves. -/
def Outcome.left : Outcome → Drive
  | .ok _ t => t
  | .error _ t => t

/-- What an outcome tells. -/
def Outcome.told : Outcome → Except BridgeError Answer
  | .ok a _ => .ok a
  | .error e _ => .error e

/-- What calls leave, one after the other, those that fail included. -/
def after (s : Drive) (calls : List Call) : Drive := calls.foldl (fun s c => (s.call c).left) s

/-- What is told of each call. -/
def tellings (s : Drive) : List Call → List (Except BridgeError Answer)
  | [] => []
  | c :: rest => (s.call c).told :: tellings (s.call c).left rest

theorem after_singleton (s : Drive) (c : Call) : s.after [c] = (s.call c).left := rfl

theorem after_append (s : Drive) (before later : List Call) : s.after (before ++ later) = (s.after before).after later :=
  List.foldl_append

theorem tellings_append (s : Drive) (before later : List Call) :
    s.tellings (before ++ later) = s.tellings before ++ (s.after before).tellings later := by
  induction before generalizing s with
  | nil => rfl
  | cons c before ih => exact congrArg (_ :: ·) (ih _)

theorem length_tellings (s : Drive) (calls : List Call) : (s.tellings calls).length = calls.length := by
  induction calls generalizing s with
  | nil => rfl
  | cons c calls ih => exact congrArg Nat.succ (ih _)

/-! ## Write by write -/

/-- What is done to a progress, done to the one of a bridge. -/
def onProgress {α : Type} (m : EStateM ArithmeticError Progress α) : EStateM BridgeError Drive α := fun s =>
  match m s.progress with
  | .ok a p => .ok a { s with progress := p }
  | .error e p => .error (.arithmetic e) { s with progress := p }

/-- What a call does, in its order: what it looks at, what it finds, and each field that it writes. -/
def Call.writes : Call → EStateM BridgeError Drive Answer
  | .build fps tolerance frames => do
    let rate ← ofExcept (usableFps fps)
    let frameDuration := (Binary64.ofNat 1000).div rate
    let tolerated ← ofExcept (toleratedFrames tolerance)
    let tolerance ← ofExcept (bridging (do (← tolerated.mul (.float frameDuration)).toDouble))
    let bridge : Bridge := ⟨frameDuration, tolerance, .zero, .zero⟩
    match ← ofExcept (totalFrames frames) with
    | none => pure ()
    | some n =>
      let total ← ofExcept (bridging (n.mul (.float frameDuration)))
      onProgress (Progress.Call.total (.number total)).writes
    modify fun s => { s with bridge := bridge }
    return .built bridge
  | .encoder v => do
    let time ← ofExcept (Bridge.encoderTime v)
    modify fun s => { s with bridge := { s.bridge with lastEncoder := time } }
    onProgress (Progress.Call.output (Bridge.encoderOutput v time)).writes
    return .moved (← get).progress
  | .frame v => do
    let s ← get
    let time ← ofExcept (s.bridge.frameTime v)
    modify fun s => { s with bridge := { s.bridge with lastPreview := time } }
    if s.bridge.tolerance.lt (Bridge.drift time s.progress) then
      onProgress (Progress.Call.output (.double time)).writes
    return .moved (← get).progress
  | .inSync => do
    let s ← get
    return .synced (← ofExcept (bridging (s.bridge.isInSync s.progress)))
  | .progress c => do
    onProgress c.writes
    return .moved (← get).progress

section Writing
variable {α β : Type} {s t : Drive} {m : EStateM BridgeError Drive α} {f : α → EStateM BridgeError Drive β}

theorem bind_ok {a : α} (h : m s = .ok a t) : (m >>= f) s = f a t := by
  change EStateM.bind m f s = f a t
  rw [EStateM.bind, h]

theorem bind_error {e : BridgeError} (h : m s = .error e t) : (m >>= f) s = .error e t := by
  change EStateM.bind m f s = .error e t
  rw [EStateM.bind, h]

theorem ofExcept_bind_ok (a : α) : (ofExcept (.ok a) >>= f) s = f a s := bind_ok rfl

theorem ofExcept_bind_error (e : BridgeError) : (ofExcept (.error e) >>= f) s = .error e s := bind_error rfl

theorem onProgress_ok {c : Progress.Call} {p : Progress} (h : s.progress.call c = .ok p) :
    onProgress c.writes s = .ok () { s with progress := p } := by
  rw [onProgress, Progress.writes_eq, h]
  rfl

theorem onProgress_error {c : Progress.Call} {e : ArithmeticError} (h : s.progress.call c = .error e) :
    onProgress c.writes s = .error (.arithmetic e) s := by
  rw [onProgress, Progress.writes_eq, h]
  rfl

/-- What is found before anything is written ends the call where there is none of it. -/
theorem building_bind {x : Except BridgeError α} {g : α → Except BridgeError (Bridge × Progress)}
    {f : α → EStateM BridgeError Drive Answer} (h : ∀ a, f a s = building s (g a)) :
    (ofExcept x >>= f) s = building s (x >>= g) := by
  cases x with
  | error e => exact ofExcept_bind_error e
  | ok a => exact (ofExcept_bind_ok a).trans (h a)

end Writing

theorem progress_writes (c : Progress.Call) (s : Drive) : (Call.progress c).writes s = s.call (.progress c) := by
  rw [Call.writes, call]
  cases hc : s.progress.call c with
  | ok p => exact bind_ok (onProgress_ok hc)
  | error e => exact bind_error (onProgress_error hc)

theorem build_writes (fps tolerance frames : Value) (s : Drive) :
    (Call.build fps tolerance frames).writes s = s.call (.build fps tolerance frames) := by
  rw [Call.writes, call, Bridge.build]
  refine building_bind fun rate => building_bind fun tolerated => building_bind fun tolerance => building_bind fun known => ?_
  cases known with
  | none => rfl
  | some n =>
    refine building_bind fun total => ?_
    cases hp : s.progress.setTotal (.number total) with
    | ok p => exact bind_ok (onProgress_ok (c := .total (.number total)) hp)
    | error e => exact bind_error (onProgress_error (c := .total (.number total)) hp)

theorem encoder_writes (v : Value) (s : Drive) : (Call.encoder v).writes s = s.call (.encoder v) := by
  rw [Call.writes, call]
  cases hv : Bridge.encoderTime v with
  | error e =>
    rw [Bridge.recordEncoder_error hv]
    exact ofExcept_bind_error e
  | ok time =>
    rw [Bridge.recordEncoder_ok hv]
    refine (ofExcept_bind_ok time).trans ((bind_ok rfl).trans ?_)
    exact progress_writes (.output (Bridge.encoderOutput v time)) ⟨{ s.bridge with lastEncoder := time }, s.progress⟩

theorem frame_writes (v : Value) (s : Drive) : (Call.frame v).writes s = s.call (.frame v) := by
  rw [Call.writes, call]
  refine (bind_ok rfl).trans ?_
  cases ht : s.bridge.frameTime v with
  | error e =>
    rw [Bridge.recordFrame_error ht]
    exact ofExcept_bind_error e
  | ok time =>
    rw [Bridge.recordFrame_ok ht]
    refine (ofExcept_bind_ok time).trans ((bind_ok rfl).trans ?_)
    by_cases hfar : s.bridge.tolerance.lt (Bridge.drift time s.progress) = true
    · simp only [if_pos hfar]
      refine (progress_writes (.output (.double time)) ⟨{ s.bridge with lastPreview := time }, s.progress⟩).trans ?_
      rw [call, Progress.call, Progress.setOutput_double, bridging]
    · simp only [if_neg hfar]
      rfl

/-- Carried out write by write, a call comes to the same. -/
theorem writes_eq (c : Call) (s : Drive) : c.writes s = s.call c := by
  cases c with
  | build fps tolerance frames => exact build_writes fps tolerance frames s
  | encoder v => exact encoder_writes v s
  | frame v => exact frame_writes v s
  | inSync =>
    rw [Call.writes, call]
    refine (bind_ok rfl).trans ?_
    cases s.bridge.isInSync s.progress with
    | ok yes => exact ofExcept_bind_ok yes
    | error e => exact ofExcept_bind_error _
  | progress c => exact progress_writes c s

end Drive

/-! ## Times beyond all doubles -/

/-- A whole number above zero that has no double. -/
def Oversized (n : Int) : Prop := (ceiling : Int) ≤ n

instance (n : Int) : Decidable (Oversized n) := inferInstanceAs (Decidable (_ ≤ _))

theorem oversized_iff {n : Int} (h : 0 < n) : Oversized n ↔ ¬ (Number.int n).Covered := by
  have hcovered : (Number.int n).Covered ↔ n.natAbs < ceiling := covers_iff_lt
  rw [hcovered, Oversized]
  omega

theorem Oversized.pos {n : Int} (h : Oversized n) : 0 < n :=
  Int.lt_of_lt_of_le (Int.natCast_pos.mpr (by decide +kernel)) h

namespace Bridge
variable {b : Bridge} {p : Progress} {v : Value} {n : Number}

/-- The encoder's time can be converted, unless it is a whole number beyond all doubles. -/
theorem encoderTime_cases (h : encoderTime v = .ok n) : n.Covered ∨ ∃ m, v = .int m ∧ n = .int m ∧ Oversized m := by
  obtain ⟨m, hm, hret⟩ := bind_eq_ok.mp h
  cases hret
  have hzero : Number.zero.Covered := trivial
  cases v with
  | null | text | list | object => cases hm
  | bool yes =>
    cases hm
    refine .inl (Number.covered_max hzero (covers_iff_lt.mpr ?_))
    cases yes <;> decide +kernel
  | number m =>
    cases hm
    cases m with
    | float x => exact .inl (Number.covered_max hzero trivial)
    | int m =>
      unfold Number.max
      split
      · rename_i hpos
        by_cases hover : Oversized m
        · exact .inr ⟨m, rfl, rfl, hover⟩
        · exact .inl (not_not.mp (mt (oversized_iff (Number.zero_lt_int hpos)).mpr hover))
      · exact .inl hzero

theorem encoderTime_oversized {m : Int} (h : Oversized m) : encoderTime (.int m) = .ok (.int m) := by
  change Except.ok (Number.zero.max (.int m)) = _
  rw [Number.max, if_pos (Number.zero_lt_of_pos h.pos)]

theorem setOutput_covered (v : Value) (h : n.Covered) : ∃ q, p.setOutput (encoderOutput v n) = .ok q := by
  obtain ⟨t, ht⟩ : ∃ t, usableTime (encoderOutput v n) = .ok t := by
    unfold encoderOutput
    split
    · exact ⟨_, rfl⟩
    · exact usableTime_covered h
  exact ⟨_, by rw [Progress.setOutput, ht]; rfl⟩

theorem setOutput_oversized {m : Int} (h : Oversized m) : p.setOutput (.int m) = .error .wholeTooLarge := by
  have hnone : ofInt? m = none := by
    rw [← Option.not_isSome_iff_eq_none, Bool.not_eq_true, ← Bool.not_eq_true, ofInt?_isSome]
    exact (oversized_iff h.pos).mp h
  change (do return { p with output := ← usableTime (.number (.int m)) } : Except ArithmeticError Progress) = _
  rw [usableTime, Number.toDouble, hnone]
  rfl

theorem bridging_eq_ok {α : Type} {x : Except ArithmeticError α} {a : α} : bridging x = .ok a ↔ x = .ok a := by
  cases x <;> simp [bridging]

/-- A bridge that was built has heard of no time yet; of the progress, at most the total was set. -/
theorem build_eq {fps tolerance frames : Value} {q : Progress} (h : build fps tolerance frames p = .ok (b, q)) :
    ∃ rate n x, usableFps fps = .ok rate ∧ toleratedFrames tolerance = .ok n ∧ n.toDouble = .ok x ∧
      b = ⟨(Binary64.ofNat 1000).div rate, x.mul ((Binary64.ofNat 1000).div rate), .zero, .zero⟩ ∧
      (q = p ∨ ∃ v, p.setTotal v = .ok q) := by
  obtain ⟨rate, hrate, h⟩ := bind_eq_ok.mp h
  obtain ⟨n, hn, h⟩ := bind_eq_ok.mp h
  obtain ⟨t, ht, h⟩ := bind_eq_ok.mp h
  obtain ⟨m, hm, ht⟩ := bind_eq_ok.mp (bridging_eq_ok.mp ht)
  rw [Number.mul_float] at hm
  obtain ⟨x, hx, hm⟩ := bind_eq_ok.mp hm
  cases hm
  cases ht
  refine ⟨rate, n, x, hrate, hn, hx, ?_⟩
  obtain ⟨known, -, h⟩ := bind_eq_ok.mp h
  cases known with
  | none =>
    cases h
    exact ⟨rfl, .inl rfl⟩
  | some k =>
    obtain ⟨total, -, h⟩ := bind_eq_ok.mp h
    obtain ⟨r, hr, h⟩ := bind_eq_ok.mp h
    cases h
    exact ⟨rfl, .inr ⟨_, bridging_eq_ok.mp hr⟩⟩

theorem isInSync_eq {x : Binary64} (h : ((Number.float b.lastPreview).max b.lastEncoder).toDouble = .ok x) :
    b.isInSync p = .ok ((x.sub p.output).abs.le b.tolerance) := by
  simp only [isInSync, Number.sub_float, h]
  rfl

theorem isInSync_covered (h : b.lastEncoder.Covered) : ∃ yes, b.isInSync p = .ok yes := by
  obtain ⟨x, hx⟩ := (Number.succeeds_toDouble _).mpr
    (Number.covered_max (show (Number.float b.lastPreview).Covered from trivial) h)
  exact ⟨_, isInSync_eq hx⟩

end Bridge

namespace Drive
variable {s t : Drive} {c : Call} {e : BridgeError}

/-- A call that fails leaves everything as it was, but for an encoder's time beyond all doubles. -/
theorem call_unseen (h : s.call c = .error e t) : t = s ∨ ∃ n, c = .encoder (.int n) ∧ Oversized n := by
  cases c with
  | build fps tolerance frames =>
    rw [call] at h
    cases hb : Bridge.build fps tolerance frames s.progress with
    | ok bp =>
      rw [hb] at h
      cases h
    | error e' =>
      rw [hb] at h
      cases h
      exact .inl rfl
  | encoder v =>
    rw [call] at h
    cases hv : Bridge.encoderTime v with
    | error e' =>
      rw [Bridge.recordEncoder_error hv] at h
      cases h
      exact .inl rfl
    | ok n =>
      rw [Bridge.recordEncoder_ok hv] at h
      rcases Bridge.encoderTime_cases hv with hn | ⟨m, rfl, -, hm⟩
      · obtain ⟨q, hq⟩ := Bridge.setOutput_covered (p := s.progress) v hn
        rw [hq] at h
        cases h
      · -- The bridge has remembered the time before the progress refuses it.
        exact .inr ⟨m, rfl, hm⟩
  | frame v =>
    rw [call] at h
    cases hv : s.bridge.frameTime v with
    | error e' =>
      rw [Bridge.recordFrame_error hv] at h
      cases h
      exact .inl rfl
    | ok t' =>
      rw [Bridge.recordFrame_ok hv] at h
      cases h
  | inSync =>
    rw [call] at h
    split at h <;> cases h
    exact .inl rfl
  | progress c =>
    rw [call] at h
    cases hc : s.progress.call c with
    | ok q =>
      rw [hc] at h
      cases h
    | error e' =>
      rw [hc] at h
      cases h
      exact .inl rfl

/-- An encoder's time beyond all doubles is refused, and the bridge remembers it. -/
theorem call_oversized (s : Drive) {n : Int} (h : Oversized n) : s.call (.encoder (.int n)) =
    .error (.arithmetic .wholeTooLarge) { s with bridge := { s.bridge with lastEncoder := .int n } } := by
  rw [call, Bridge.recordEncoder_ok (Bridge.encoderTime_oversized h)]
  change moving s.progress (_, bridging (s.progress.setOutput (.int n))) = _
  rw [Bridge.setOutput_oversized h]
  rfl

theorem after_oversized (s : Drive) {n : Int} (h : Oversized n) :
    s.after [.encoder (.int n)] = { s with bridge := { s.bridge with lastEncoder := .int n } } := by
  rw [after_singleton, call_oversized s h]
  rfl

theorem moving_left (p : Progress) (b : Bridge) (r : Except BridgeError Progress) : (moving p (b, r)).left.bridge = b := by
  cases r <;> rfl

/-- The encoder's time that a bridge remembers can be converted as long as no other was told. -/
theorem call_covered (hs : s.bridge.lastEncoder.Covered) (hc : ∀ n, c = .encoder (.int n) → ¬ Oversized n) :
    (s.call c).left.bridge.lastEncoder.Covered := by
  -- Only what builds a bridge or tells it a time of the encoder changes what it remembers.
  cases c with
  | build fps tolerance frames =>
    rw [call]
    cases hb : Bridge.build fps tolerance frames s.progress with
    | error e => exact hs
    | ok bp =>
      obtain ⟨_, _, _, -, -, -, hbridge, -⟩ := Bridge.build_eq hb
      change bp.1.lastEncoder.Covered
      rw [hbridge]
      trivial
  | encoder v =>
    rw [call]
    cases hv : Bridge.encoderTime v with
    | error e =>
      rw [Bridge.recordEncoder_error hv]
      exact hs
    | ok n =>
      rw [Bridge.recordEncoder_ok hv, moving_left]
      rcases Bridge.encoderTime_cases hv with hn | ⟨m, rfl, -, hm⟩
      · exact hn
      · exact absurd hm (hc m rfl)
  | frame v =>
    rw [call]
    cases hv : s.bridge.frameTime v with
    | error e =>
      rw [Bridge.recordFrame_error hv]
      exact hs
    | ok t =>
      rw [Bridge.recordFrame_ok hv]
      exact hs
  | inSync =>
    rw [call]
    split <;> exact hs
  | progress c =>
    rw [call, moving_left]
    exact hs

/-! ## Runs of calls -/

/-- A call fails. -/
def Fails (s : Drive) (c : Call) : Prop := ∃ e t, s.call c = .error e t

/-- Nothing shows of the calls that fail: what is left and what is told of all later calls is as if they had not been
made. And whether the signals are in sync can always be told. -/
structure Traceless (s : Drive) (calls : List Call) : Prop where
  unseen : ∀ before c rest, calls = before ++ c :: rest → (s.after before).Fails c → ∀ later,
    s.after (before ++ c :: later) = s.after (before ++ later) ∧
      (s.tellings (before ++ c :: later)).eraseIdx before.length = s.tellings (before ++ later)
  synced : ∀ before rest, calls = before ++ rest → ¬ (s.after before).Fails .inSync

theorem after_covered (hs : s.bridge.lastEncoder.Covered) :
    ∀ calls : List Call, (∀ n, .encoder (.int n) ∈ calls → ¬ Oversized n) → (s.after calls).bridge.lastEncoder.Covered := by
  intro calls
  induction calls generalizing s with
  | nil => exact fun _ => hs
  | cons c calls ih =>
    intro hcalls
    have hc : ∀ n, c = .encoder (.int n) → ¬ Oversized n := fun n hn => hcalls n (hn ▸ List.mem_cons_self)
    exact ih (call_covered hs hc) fun n hn => hcalls n (List.mem_cons_of_mem c hn)

theorem inSync_covered (hs : s.bridge.lastEncoder.Covered) : ¬ s.Fails .inSync := by
  rintro ⟨e, t, h⟩
  obtain ⟨yes, hyes⟩ := Bridge.isInSync_covered (p := s.progress) hs
  rw [call, hyes] at h
  cases h

/-- A call that leaves everything as it was can be left out. -/
theorem leave_out {before later : List Call} (h : ((s.after before).call c).left = s.after before) :
    s.after (before ++ c :: later) = s.after (before ++ later) ∧
      (s.tellings (before ++ c :: later)).eraseIdx before.length = s.tellings (before ++ later) := by
  constructor
  · rw [after_append, after_append]
    change ((s.after before).call c).left.after later = _
    rw [h]
  · rw [tellings_append, tellings_append, ← length_tellings s before, List.eraseIdx_append_of_length_le (Nat.le_refl _),
      Nat.sub_self]
    change s.tellings before ++ ((s.after before).call c).left.tellings later = _
    rw [h]

theorem traceless_of_sized (hs : s.bridge.lastEncoder.Covered) {calls : List Call}
    (hcalls : ∀ n, .encoder (.int n) ∈ calls → ¬ Oversized n) : s.Traceless calls where
  unseen := by
    rintro before c rest rfl ⟨e, t, h⟩ later
    refine leave_out ?_
    rcases call_unseen h with rfl | ⟨n, rfl, hn⟩
    · rw [h]
      rfl
    · exact absurd hn (hcalls n (List.mem_append_right _ List.mem_cons_self))
  synced := by
    rintro before rest rfl
    exact inSync_covered (after_covered hs before fun n hn => hcalls n (List.mem_append_left _ hn))

theorem Traceless.tail {calls : List Call} (h : s.Traceless (c :: calls)) : (s.call c).left.Traceless calls where
  unseen := by
    rintro before d rest rfl hfails later
    obtain ⟨hafter, htold⟩ := h.unseen (c :: before) d rest rfl hfails later
    exact ⟨hafter, (List.cons.inj htold).2⟩
  synced before rest hsplit := h.synced (c :: before) rest (congrArg (c :: ·) hsplit)

/-- The first encoder's time beyond all doubles is a trace of itself. -/
theorem Traceless.sized {calls : List Call} (hs : s.bridge.lastEncoder.Covered) (h : s.Traceless calls) :
    ∀ n, .encoder (.int n) ∈ calls → ¬ Oversized n := by
  induction calls generalizing s with
  | nil => exact fun n hn => absurd hn List.not_mem_nil
  | cons c calls ih =>
    have hc : ∀ n, c = .encoder (.int n) → ¬ Oversized n := by
      rintro n rfl hover
      have hunseen := (h.unseen [] _ calls rfl ⟨_, _, s.call_oversized hover⟩ []).1
      -- Without the call, the bridge would remember a time that can be converted.
      have hsame : _ = s := (s.after_oversized hover).symm.trans hunseen
      rw [← hsame] at hs
      exact (oversized_iff hover.pos).mp hover hs
    intro n hn
    rcases List.mem_cons.mp hn with hhead | htail
    · exact hc n hhead.symm
    · exact ih (call_covered hs hc) h.tail n htail

/-- Of the calls on a bridge that was built, on its progress, and for another bridge in its place, those that fail leave
no trace exactly as long as no encoder's time is a whole number beyond all doubles. The outcome of a call, where it fails
too, is what its writes come to, one after the other. -/
theorem failed_calls_unseen_iff {fps tolerance frames : Value} {p q : Progress} {b : Bridge}
    (hb : Bridge.build fps tolerance frames p = .ok (b, q)) (calls : List Call) :
    ((Drive.mk b q).Traceless calls ↔ ∀ n, .encoder (.int n) ∈ calls → ¬ Oversized n) ∧
      ∀ (c : Call) (s : Drive), c.writes s = s.call c := by
  have hcovered : b.lastEncoder.Covered := by
    obtain ⟨_, _, _, -, -, -, rfl, -⟩ := Bridge.build_eq hb
    trivial
  exact ⟨⟨Traceless.sized hcovered, traceless_of_sized hcovered⟩, writes_eq⟩

/-- A frame beyond all doubles, a total beyond them, a rate of nothing and a text for a time leave no trace. -/
theorem refused_calls_unseen : ∃ b q, Bridge.build (.int 25) .null (.int 250) ⟨.zero, none, none, false⟩ = .ok (b, q) ∧
    let calls : List Call := [.encoder (.int 1000), .frame (.int (10 ^ 400)), .progress (.total (.int (10 ^ 400))),
      .build (.int 0) .null .null, .encoder (.text "12"), .inSync]
    (Drive.mk b q).Traceless calls ∧ ∀ n, .encoder (.int n) ∈ calls → ¬ Oversized n := by
  have hb : Bridge.build (.int 25) .null (.int 250) ⟨.zero, none, none, false⟩ =
    .ok (⟨Binary64.ofNat 40, Binary64.ofNat 40, .zero, .zero⟩, ⟨.zero, some (Binary64.ofNat 10000), none, true⟩) := by
      decide +kernel
  refine ⟨_, _, hb, ?_⟩
  intro calls
  have hsized : ∀ n, .encoder (.int n) ∈ calls → ¬ Oversized n := by
    intro n hn
    simp only [calls, List.mem_cons, Call.encoder.injEq, Value.int, Value.number.injEq, Number.int.injEq, reduceCtorEq,
      List.not_mem_nil, or_false] at hn
    rw [hn]
    decide +kernel
  exact ⟨(failed_calls_unseen_iff hb calls).1.mpr hsized, hsized⟩

/-- An encoder's time beyond all doubles is refused, and whether the signals are in sync cannot be told any more. -/
theorem refused_time_remembered :
    let s : Drive := ⟨⟨Binary64.ofNat 40, Binary64.ofNat 40, .zero, .zero⟩, ⟨.zero, none, none, false⟩⟩
    Bridge.build (.int 25) .null .null s.progress = .ok (s.bridge, s.progress) ∧
      s.Fails (.encoder (.int (10 ^ 400))) ∧ ¬ s.Fails .inSync ∧ (s.after [.encoder (.int (10 ^ 400))]).Fails .inSync ∧
      ¬ s.Traceless [.encoder (.int (10 ^ 400))] := by
  intro s
  have hover : Oversized (10 ^ 400) := by decide +kernel
  have hfails : s.Fails (.encoder (.int (10 ^ 400))) := ⟨_, _, call_oversized s hover⟩
  have hlost : (s.after [.encoder (.int (10 ^ 400))]).Fails .inSync := by
    have hsync : Bridge.isInSync ⟨Binary64.ofNat 40, Binary64.ofNat 40, .zero, .int (10 ^ 400)⟩ ⟨.zero, none, none, false⟩ =
      .error .wholeTooLarge := by decide +kernel
    refine ⟨.arithmetic .wholeTooLarge, { s with bridge := { s.bridge with lastEncoder := .int (10 ^ 400) } }, ?_⟩
    rw [after_oversized s hover, call, hsync]
  exact ⟨by decide +kernel, hfails, inSync_covered trivial, hlost,
    fun h => h.synced [.encoder (.int (10 ^ 400))] [] rfl hlost⟩

end Drive
end MediaEngine.Job
