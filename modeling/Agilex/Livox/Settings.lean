import Agilex.Lib.Machine
import Mathlib.Logic.Function.Basic
import Mathlib.Tactic.Common

/-!
# The settings of a lidar

`LivoxLidarCallback` (`livox_lidar_callback.cpp`): when a lidar of the configuration comes up, the node sets a bit for each
setting that the configuration names, and asks the lidar for it. The answers come in any order. A success clears the bit, and
where no bit is left the lidar gets the state `kConnectStateSampling`, without which nothing of it is published; after a
timeout the node asks again; any other answer is printed. A lidar may come up again at any time.

- `Asked`: what is known of the bits, the requests under way and the answers; `asked_step` keeps it.
- `sampling_confirmed`: a lidar is not sampled before each of its settings has been confirmed.
- `settings_settled`: when nothing is under way and nothing has failed, it is sampled if anything has been asked for.
-/

namespace Agilex.Livox.Settings

open Agilex.Lib.Machine Function

/-- `LivoxLidarConfigCodeBit`. -/
inductive ConfigCodeBit where
  | dataType
  | scanPattern
  | blindSpot
  | dualEmit
  deriving DecidableEq, Repr

def ConfigCodeBit.mask : ConfigCodeBit → UInt32
  | .dataType => (1 : UInt32) <<< 0
  | .scanPattern => (1 : UInt32) <<< 1
  | .blindSpot => (1 : UInt32) <<< 2
  | .dualEmit => (1 : UInt32) <<< 3

/-- The answer to a request; after a timeout the next request goes out, or it does not. -/
inductive Status where
  | success
  | timeout (sent : Bool)
  | failure
  deriving DecidableEq, Repr

inductive Event where
  | asked (b : ConfigCodeBit)
  /-- A request could not be sent: no answer will come. -/
  | lost (b : ConfigCodeBit)
  | confirmed (b : ConfigCodeBit)
  | failed (b : ConfigCodeBit)
  deriving DecidableEq, Repr

/-- The setting will not be confirmed by this request. -/
def Event.isFailure : Event → Bool
  | .failed _ | .lost _ => true
  | _ => false

structure Device where
  /-- The settings that the configuration names: their values are not `-1`. -/
  named : ConfigCodeBit → Bool
  setBits : UInt32
  /-- `connect_state` is `kConnectStateSampling`. -/
  sampling : Bool
  /-- How many requests are under way. -/
  requests : ConfigCodeBit → ℕ
  log : List Event

def Device.init (named : ConfigCodeBit → Bool) : Device := ⟨named, 0, false, fun _ => 0, []⟩

def Device.add (d : Device) (e : Event) : Device := { d with log := d.log ++ [e] }

/-- A request to the SDK. -/
def send (sent : Bool) (b : ConfigCodeBit) (d : Device) : Device :=
  if sent then { d with requests := update d.requests b (d.requests b + 1) } else d.add (.lost b)

/-- A setting of `LidarInfoChangeCallback`. -/
def ask (sent : ConfigCodeBit → Bool) (b : ConfigCodeBit) (d : Device) : Device :=
  if d.named b then send (sent b) b ({ d with setBits := d.setBits ||| b.mask }.add (.asked b)) else d

/-- The lock is held for all four settings. -/
def lidarInfoChangeCallback (sent : ConfigCodeBit → Bool) (d : Device) : Device :=
  ask sent .dualEmit (ask sent .blindSpot (ask sent .scanPattern (ask sent .dataType d)))

/-- The four callbacks below; nothing where no request is under way. -/
def answer (b : ConfigCodeBit) (status : Status) (d : Device) : Option Device :=
  if d.requests b = 0 then none
  else
    let d := { d with requests := update d.requests b (d.requests b - 1) }
    match status with
    | .success =>
      let setBits := d.setBits &&& ~~~b.mask
      some ({ d with setBits := setBits, sampling := d.sampling || setBits == 0 }.add (.confirmed b))
    | .timeout sent => some (send sent b d)
    | .failure => some (d.add (.failed b))

def setDataTypeCallback : Status → Device → Option Device := answer .dataType
def setPatternModeCallback : Status → Device → Option Device := answer .scanPattern
def setBlindSpotCallback : Status → Device → Option Device := answer .blindSpot
def setDualEmitCallback : Status → Device → Option Device := answer .dualEmit

inductive Action where
  | lidarInfoChange (sent : ConfigCodeBit → Bool)
  | setDataType (status : Status)
  | setPatternMode (status : Status)
  | setBlindSpot (status : Status)
  | setDualEmit (status : Status)

def step (a : Action) (d : Device) : Option Device :=
  match a with
  | .lidarInfoChange sent => some (lidarInfoChangeCallback sent d)
  | .setDataType status => setDataTypeCallback status d
  | .setPatternMode status => setPatternModeCallback status d
  | .setBlindSpot status => setBlindSpotCallback status d
  | .setDualEmit status => setDualEmitCallback status d

theorem step_cases {a : Action} {d d' : Device} (h : step a d = some d') :
    (∃ sent, d' = lidarInfoChangeCallback sent d) ∨ ∃ b status, answer b status d = some d' := by
  cases a with
  | lidarInfoChange sent => exact .inl ⟨sent, (Option.some.inj h).symm⟩
  | setDataType status => exact .inr ⟨.dataType, status, h⟩
  | setPatternMode status => exact .inr ⟨.scanPattern, status, h⟩
  | setBlindSpot status => exact .inr ⟨.blindSpot, status, h⟩
  | setDualEmit status => exact .inr ⟨.dualEmit, status, h⟩

/-! ## The bits -/

/-- The bits of a set of settings. -/
def bitsOf (f : ConfigCodeBit → Bool) : UInt32 :=
  (if f .dataType then 1 else 0) ||| (if f .scanPattern then 2 else 0) ||| (if f .blindSpot then 4 else 0) |||
    (if f .dualEmit then 8 else 0)

theorem bitsOf_set (f : ConfigCodeBit → Bool) (b : ConfigCodeBit) :
    bitsOf f ||| b.mask = bitsOf (update f b true) := by
  cases b <;> simp only [bitsOf, update, eq_rec_constant, dite_eq_ite, reduceCtorEq, if_false, if_true] <;>
    cases f .dataType <;> cases f .scanPattern <;> cases f .blindSpot <;> cases f .dualEmit <;> rfl

theorem bitsOf_clear (f : ConfigCodeBit → Bool) (b : ConfigCodeBit) :
    bitsOf f &&& ~~~b.mask = bitsOf (update f b false) := by
  cases b <;> simp only [bitsOf, update, eq_rec_constant, dite_eq_ite, reduceCtorEq, if_false, if_true] <;>
    cases f .dataType <;> cases f .scanPattern <;> cases f .blindSpot <;> cases f .dualEmit <;> rfl

theorem bitsOf_eq_zero {f : ConfigCodeBit → Bool} : bitsOf f = 0 ↔ ∀ b, f b = false := by
  constructor
  · intro h b
    revert h
    cases b <;> simp only [bitsOf] <;>
      cases f .dataType <;> cases f .scanPattern <;> cases f .blindSpot <;> cases f .dualEmit <;> decide
  · intro h
    simp [bitsOf, h]

/-! ## Questions and answers -/

/-- What is known of the device, whose bits are those of `f`. -/
structure Asked (d : Device) (f : ConfigCodeBit → Bool) : Prop where
  bits : d.setBits = bitsOf f
  asked : ∀ b, .asked b ∈ d.log → f b = true ∨ .confirmed b ∈ d.log
  /-- A bit that is set waits for an answer. -/
  waits : ∀ b, f b = true → 0 < d.requests b ∨ .failed b ∈ d.log ∨ .lost b ∈ d.log
  under : ∀ b, 0 < d.requests b → .asked b ∈ d.log
  sampled : d.sampling = true → (∃ b, .asked b ∈ d.log) ∧ ∀ b, d.named b = true → .confirmed b ∈ d.log
  cleared : (∃ b, .asked b ∈ d.log) → (∀ b, f b = false) → d.sampling = true

/-- A lidar that comes up is asked for all its settings. -/
def Complete (d : Device) : Prop := (∃ b, .asked b ∈ d.log) → ∀ b, d.named b = true → .asked b ∈ d.log

section
variable {d d' : Device} {f : ConfigCodeBit → Bool} {b : ConfigCodeBit}

theorem Asked.init (named : ConfigCodeBit → Bool) : Asked (.init named) fun _ => false where
  bits := rfl
  asked := by simp [Device.init]
  waits := by simp
  under := by simp [Device.init]
  sampled := by simp [Device.init]
  cleared := by simp [Device.init]

@[simp] theorem ask_named (sent : ConfigCodeBit → Bool) (b : ConfigCodeBit) (d : Device) :
    (ask sent b d).named = d.named := by
  unfold ask send
  split_ifs <;> rfl

/-- What is in the log stays there, and the setting is asked for if it is named. -/
theorem asked_ask (sent : ConfigCodeBit → Bool) (b c : ConfigCodeBit) (d : Device) :
    .asked c ∈ (ask sent b d).log ↔ .asked c ∈ d.log ∨ c = b ∧ d.named b = true := by
  unfold ask send
  split_ifs <;> simp_all [Device.add]

/-- A bit that is left alone waits as before. -/
theorem Asked.still_waits (h : Asked d f) (hlog : d.log ⊆ d'.log) (hf : f b = true) (hb : d'.requests b = d.requests b) :
    0 < d'.requests b ∨ .failed b ∈ d'.log ∨ .lost b ∈ d'.log := by
  rw [hb]
  exact (h.waits b hf).imp_right (Or.imp (fun hmem => hlog hmem) fun hmem => hlog hmem)

theorem Asked.still_under (h : Asked d f) (hlog : d.log ⊆ d'.log) (hb : .asked b ∈ d'.log)
    (hother : ∀ c, c ≠ b → d'.requests c = d.requests c) (c : ConfigCodeBit) (hc : 0 < d'.requests c) :
    .asked c ∈ d'.log := by
  by_cases hcb : c = b
  · rwa [hcb]
  · rw [hother c hcb] at hc
    exact hlog (h.under c hc)

theorem Asked.still_sampled (h : Asked d f) (hnamed : d'.named = d.named) (hlog : d.log ⊆ d'.log)
    (hs : d.sampling = true) : (∃ b, .asked b ∈ d'.log) ∧ ∀ b, d'.named b = true → .confirmed b ∈ d'.log := by
  obtain ⟨⟨c, hc⟩, hall⟩ := h.sampled hs
  exact ⟨⟨c, hlog hc⟩, fun c hc => hlog (hall c (by rwa [hnamed] at hc))⟩

/-- The bit of a setting is set, and the setting is asked for. -/
theorem Asked.set (h : Asked d f) (hbits : d'.setBits = d.setBits ||| b.mask) (hnamed : d'.named = d.named)
    (hsampling : d'.sampling = d.sampling) (hlog : d.log ⊆ d'.log) (hasked : ∀ c, .asked c ∈ d'.log → .asked c ∈ d.log ∨ c = b)
    (hb : .asked b ∈ d'.log) (hwait : 0 < d'.requests b ∨ .lost b ∈ d'.log)
    (hother : ∀ c, c ≠ b → d'.requests c = d.requests c) : Asked d' (update f b true) := by
  refine ⟨by rw [hbits, h.bits, bitsOf_set], fun c hc => ?_, fun c hc => ?_, h.still_under hlog hb hother, fun hs => ?_,
    fun _ hall => ?_⟩
  · by_cases hcb : c = b
    · exact .inl (by simp [hcb])
    · rw [update_of_ne hcb]
      exact (h.asked c ((hasked c hc).resolve_right hcb)).imp_right fun hmem => hlog hmem
  · by_cases hcb : c = b
    · subst hcb
      exact hwait.imp_right .inr
    · rw [update_of_ne hcb] at hc
      exact h.still_waits hlog hc (hother c hcb)
  · rw [hsampling] at hs
    exact h.still_sampled hnamed hlog hs
  · simpa using hall b

theorem Asked.ask (h : Asked d f) (sent : ConfigCodeBit → Bool) (b : ConfigCodeBit) :
    ∃ f, Asked (ask sent b d) f := by
  unfold Settings.ask
  split
  · refine ⟨update f b true, ?_⟩
    unfold send
    split
    · refine h.set (b := b) rfl rfl rfl ?_ ?_ ?_ ?_ ?_
      · exact List.subset_append_left _ _
      · simp [Device.add]
      · simp [Device.add]
      · exact .inl (by simp)
      · exact fun c hc => by simp [Device.add, update_of_ne hc]
    · refine h.set (b := b) rfl rfl rfl ?_ ?_ ?_ ?_ ?_
      · exact fun e he => by simp [Device.add, he]
      · simp [Device.add]
      · simp [Device.add]
      · exact .inr (by simp [Device.add])
      · exact fun c _ => rfl
  · exact ⟨f, h⟩

theorem Asked.lidarInfoChange (h : Asked d f) (sent : ConfigCodeBit → Bool) :
    ∃ f, Asked (lidarInfoChangeCallback sent d) f := by
  obtain ⟨f, h⟩ := h.ask sent .dataType
  obtain ⟨f, h⟩ := h.ask sent .scanPattern
  obtain ⟨f, h⟩ := h.ask sent .blindSpot
  exact h.ask sent .dualEmit

theorem complete_lidarInfoChange (sent : ConfigCodeBit → Bool) (d : Device) :
    Complete (lidarInfoChangeCallback sent d) := by
  intro _ b hb
  simp only [lidarInfoChangeCallback, ask_named] at hb ⊢
  simp only [asked_ask, ask_named]
  cases b <;> simp [hb]

theorem Complete.of (h : Complete d) (hnamed : d'.named = d.named) (hlog : d.log ⊆ d'.log)
    (hasked : ∀ c, .asked c ∈ d'.log → .asked c ∈ d.log) : Complete d' := by
  rintro ⟨c, hc⟩ b hb
  rw [hnamed] at hb
  exact hlog (h ⟨c, hasked c hc⟩ b hb)

/-- An answer that does not clear the bit. -/
theorem Asked.unanswered (h : Asked d f) (hc : Complete d) (hbits : d'.setBits = d.setBits) (hnamed : d'.named = d.named)
    (hsampling : d'.sampling = d.sampling) (hlog : d.log ⊆ d'.log) (hasked : ∀ c, .asked c ∈ d'.log → .asked c ∈ d.log)
    (hb : .asked b ∈ d.log) (hwait : 0 < d'.requests b ∨ .failed b ∈ d'.log ∨ .lost b ∈ d'.log)
    (hother : ∀ c, c ≠ b → d'.requests c = d.requests c) : (∃ f, Asked d' f) ∧ Complete d' := by
  refine ⟨⟨f, hbits.trans h.bits, fun c hm => ?_, fun c hfc => ?_, h.still_under hlog (hlog hb) hother, fun hs => ?_,
    fun hex hall => ?_⟩, hc.of hnamed hlog hasked⟩
  · exact (h.asked c (hasked c hm)).imp_right fun hmem => hlog hmem
  · by_cases hcb : c = b
    · subst hcb
      exact hwait
    · exact h.still_waits hlog hfc (hother c hcb)
  · rw [hsampling] at hs
    exact h.still_sampled hnamed hlog hs
  · obtain ⟨c, hm⟩ := hex
    rw [hsampling]
    exact h.cleared ⟨c, hasked c hm⟩ hall

/-- A success clears the bit, and the last one starts the lidar. -/
theorem Asked.confirmed (h : Asked d f) (hc : Complete d) (hb : .asked b ∈ d.log) (hbits : d'.setBits = d.setBits &&& ~~~b.mask)
    (hnamed : d'.named = d.named) (hsampling : d'.sampling = (d.sampling || d'.setBits == 0))
    (hlog : d'.log = d.log ++ [.confirmed b]) (hother : ∀ c, c ≠ b → d'.requests c = d.requests c) :
    Asked d' (update f b false) := by
  have hf : d'.setBits = bitsOf (update f b false) := by rw [hbits, h.bits, bitsOf_clear]
  have hsub : d.log ⊆ d'.log := by
    rw [hlog]
    exact List.subset_append_left _ _
  refine ⟨hf, fun c hm => ?_, fun c hfc => ?_, h.still_under hsub (hsub hb) hother, fun hs => ?_, fun _ hall => ?_⟩
  · by_cases hcb : c = b
    · exact .inr (by simp [hlog, hcb])
    · rw [update_of_ne hcb]
      exact (h.asked c (by simpa [hlog] using hm)).imp_right fun hmem => hsub hmem
  · by_cases hcb : c = b
    · simp [hcb] at hfc
    · rw [update_of_ne hcb] at hfc
      exact h.still_waits hsub hfc (hother c hcb)
  · rw [hsampling, Bool.or_eq_true, beq_iff_eq] at hs
    rcases hs with hs | hzero
    · exact h.still_sampled hnamed hsub hs
    · -- no bit is left: each setting has been confirmed before, or is the one confirmed now
      rw [hf, bitsOf_eq_zero] at hzero
      refine ⟨⟨b, hsub hb⟩, fun c hn => ?_⟩
      rw [hnamed] at hn
      by_cases hcb : c = b
      · simp [hlog, hcb]
      · have hfc := hzero c
        rw [update_of_ne hcb] at hfc
        have hconf := (h.asked c (hc ⟨b, hb⟩ c hn)).resolve_left (by simp [hfc])
        exact hsub hconf
  · rw [hsampling, hf, bitsOf_eq_zero.2 hall]
    simp

/-- **An answer keeps it**, when all settings have been asked for. -/
theorem Asked.answer (h : Asked d f) (hc : Complete d) {status : Status} (ha : answer b status d = some d') :
    (∃ f, Asked d' f) ∧ Complete d' := by
  unfold Settings.answer at ha
  split at ha
  · exact absurd ha (by simp)
  · next hne =>
    have hb := h.under b (Nat.pos_of_ne_zero hne)
    dsimp only at ha
    split at ha
    · obtain rfl := Option.some.inj ha
      refine ⟨⟨_, h.confirmed hc hb rfl rfl rfl rfl fun c hcb => ?_⟩, hc.of rfl ?_ fun c hm => ?_⟩
      · exact update_of_ne hcb _ _
      · exact List.subset_append_left _ _
      · simpa [Device.add] using hm
    · next sent =>
      obtain rfl := Option.some.inj ha
      cases sent with
      | true =>
        refine h.unanswered (b := b) hc rfl rfl rfl ?_ (fun c hm => hm) hb ?_ fun c hcb => ?_
        · exact List.Subset.refl _
        · exact .inl (by simp [send])
        · simp [send, update_of_ne hcb]
      | false =>
        refine h.unanswered (b := b) hc rfl rfl rfl ?_ (fun c hm => ?_) hb ?_ fun c hcb => ?_
        · exact List.subset_append_left _ _
        · simpa [send, Device.add] using hm
        · exact .inr (.inr (by simp [send, Device.add]))
        · exact update_of_ne hcb _ _
    · obtain rfl := Option.some.inj ha
      refine h.unanswered (b := b) hc rfl rfl rfl ?_ (fun c hm => ?_) hb ?_ fun c hcb => ?_
      · exact List.subset_append_left _ _
      · simpa [Device.add] using hm
      · exact .inr (.inl (by simp [Device.add]))
      · exact update_of_ne hcb _ _

/-- **A step keeps it.** -/
theorem asked_step {a : Action} (h : (∃ f, Asked d f) ∧ Complete d) (hs : step a d = some d') :
    (∃ f, Asked d' f) ∧ Complete d' := by
  obtain ⟨⟨f, h⟩, hc⟩ := h
  rcases step_cases hs with ⟨sent, rfl⟩ | ⟨b, status, ha⟩
  · exact ⟨h.lidarInfoChange sent, complete_lidarInfoChange sent d⟩
  · exact h.answer hc ha

end

/-! ## Runs -/

section
variable {acts : List Action} {named : ConfigCodeBit → Bool} {d : Device}

theorem run_asked (hr : run step acts (.init named) = some d) : ∃ f, Asked d f := by
  have hinit : (∃ f, Asked (.init named) f) ∧ Complete (.init named) :=
    ⟨⟨_, .init named⟩, by simp [Complete, Device.init]⟩
  exact (run_invariant (P := fun d => (∃ f, Asked d f) ∧ Complete d) (fun _ _ _ h hs => asked_step h hs) hinit hr).1

theorem answer_named {b : ConfigCodeBit} {status : Status} {d d' : Device} (h : answer b status d = some d') :
    d'.named = d.named := by
  unfold answer at h
  split at h
  · exact absurd h (by simp)
  · dsimp only at h
    split at h <;> obtain rfl := Option.some.inj h
    · rfl
    · unfold send
      split <;> rfl
    · rfl

theorem run_named (hr : run step acts (.init named) = some d) : d.named = named := by
  refine run_invariant (P := fun d => d.named = named) (fun a d d' h hs => ?_) rfl hr
  rcases step_cases hs with ⟨sent, rfl⟩ | ⟨b, status, ha⟩
  · simpa [lidarInfoChangeCallback] using h
  · exact (answer_named ha).trans h

/-- **A lidar is not sampled before each of its settings has been confirmed**, in whatever order the answers come, however
many are late, and however often it comes up. -/
theorem sampling_confirmed (hr : run step acts (.init named) = some d) (hs : d.sampling = true) :
    (∃ b, .asked b ∈ d.log) ∧ ∀ b, named b = true → .confirmed b ∈ d.log := by
  obtain ⟨f, h⟩ := run_asked hr
  rw [← run_named hr]
  exact h.sampled hs

/-- All four settings, one of them late, and an answer to an earlier request after the lidar has come up again. -/
def lateRun : List Action :=
  [.lidarInfoChange fun _ => true, .setBlindSpot .success, .setDataType (.timeout true), .lidarInfoChange fun _ => true,
    .setDualEmit .success, .setDataType .success, .setPatternMode .success, .setBlindSpot .success, .setPatternMode .success,
    .setDualEmit .success, .setDataType .success]

theorem sampling_confirmed_late : ∃ d, run step lateRun (.init fun _ => true) = some d ∧ d.sampling = true ∧
    ∀ b, .confirmed b ∈ d.log := by
  obtain ⟨d, hd, hs⟩ := (Option.any_eq_true _ _).1
    (show (run step lateRun (.init fun _ => true)).any (·.sampling) by decide +kernel)
  exact ⟨d, hd, hs, fun b => (sampling_confirmed hd hs).2 b rfl⟩

/-- **When all requests are answered, the lidar is sampled if anything has been asked for**, unless an answer was a failure or
a request could not be sent: no other end of the exchange leaves it waiting. -/
theorem settings_settled (hr : run step acts (.init named) = some d) (hidle : ∀ b, d.requests b = 0)
    (hfail : ∀ b, .failed b ∉ d.log ∧ .lost b ∉ d.log) : d.sampling = true ↔ ∃ b, .asked b ∈ d.log := by
  obtain ⟨f, h⟩ := run_asked hr
  refine ⟨fun hs => (h.sampled hs).1, fun hex => h.cleared hex fun b => ?_⟩
  cases hf : f b with
  | false => rfl
  | true =>
    rcases h.waits b hf with hpos | hfailed | hlost
    · exact absurd (hidle b) (Nat.pos_iff_ne_zero.1 hpos)
    · exact absurd hfailed (hfail b).1
    · exact absurd hlost (hfail b).2

theorem settings_settled_late : ∃ d, run step lateRun (.init fun _ => true) = some d ∧
    (d.sampling = true ↔ ∃ b, .asked b ∈ d.log) := by
  obtain ⟨d, hd, hq⟩ := (Option.any_eq_true _ _).1 (show (run step lateRun (.init fun _ => true)).any (fun d =>
    d.requests .dataType = 0 ∧ d.requests .scanPattern = 0 ∧ d.requests .blindSpot = 0 ∧ d.requests .dualEmit = 0 ∧
      d.log.all (!·.isFailure)) by decide +kernel)
  obtain ⟨hdata, hscan, hblind, hdual, hall⟩ := of_decide_eq_true hq
  refine ⟨d, hd, settings_settled hd (fun b => by cases b <;> assumption) fun b => ⟨fun hmem => ?_, fun hmem => ?_⟩⟩
  · simpa [Event.isFailure] using List.all_eq_true.1 hall _ hmem
  · simpa [Event.isFailure] using List.all_eq_true.1 hall _ hmem

end

end Agilex.Livox.Settings
