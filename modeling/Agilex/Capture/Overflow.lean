import Agilex.Capture.RecordQueue

/-!
# Overload and the outcome of a recording

A message is discarded when the byte budget or the queue is exceeded; the main thread learns of it by polling a flag at
the top of its loop, and never again after the loop. So a recording with a discarded message ends INCOMPLETE, without
the final bag, if and only if the loop polls after a discarding callback has set the flag, or the recording fails for a
reason of its own before the bag gets its final name (`overflow_incomplete`); and a message discarded after the last
poll leaves a bag that passes (`overflow_unnoticed`).
-/

namespace Agilex.Capture.RecordQueue

open Agilex.Lib

/-! ## The flag is seen -/

/-- The main loop reads the flag after some callback has set it. -/
def Seen (h : List Event) : Prop := ∃ pre post i, h = pre ++ post ∧ .flag i ∈ pre ∧ .poll ∈ post

theorem not_seen_nil : ¬Seen [] := by
  rintro ⟨pre, post, i, h, hf, -⟩
  obtain ⟨rfl, -⟩ := List.append_eq_nil_iff.1 h.symm
  simp at hf

/-- Only a poll after a flag makes a difference. -/
theorem seen_snoc {h : List Event} {e : Event} : Seen (h ++ [e]) ↔ Seen h ∨ e = .poll ∧ ∃ i, .flag i ∈ h := by
  constructor
  · rintro ⟨pre, post, i, heq, hf, hp⟩
    rcases List.eq_nil_or_concat post with rfl | ⟨post, x, rfl⟩
    · simp at hp
    · rw [List.concat_eq_append, ← List.append_assoc] at heq
      obtain ⟨rfl, hx⟩ := List.append_inj' heq rfl
      obtain rfl : e = x := by simpa using hx
      rw [List.concat_eq_append, List.mem_append, List.mem_singleton] at hp
      rcases hp with hp | hp
      · exact Or.inl ⟨pre, post, i, rfl, hf, hp⟩
      · exact Or.inr ⟨hp.symm, i, List.mem_append_left _ hf⟩
  · rintro (⟨pre, post, i, rfl, hf, hp⟩ | ⟨rfl, i, hf⟩)
    · exact ⟨pre, post ++ [e], i, List.append_assoc _ _ _, hf, List.mem_append_left _ hp⟩
    · exact ⟨h, [.poll], i, rfl, hf, List.mem_singleton_self _⟩

/-! ## A failure before the bag has its final name -/

/-- The recording fails for a reason of its own, and has not renamed the bag before. -/
def FailedFirst (h : List Event) : Prop := ∃ pre post, h = pre ++ .fail :: post ∧ .rename ∉ pre

theorem not_failedFirst_nil : ¬FailedFirst [] := by
  rintro ⟨pre, post, h, -⟩
  simp at h

/-- Only a failure before the rename makes a difference. -/
theorem failedFirst_snoc {h : List Event} {e : Event} :
    FailedFirst (h ++ [e]) ↔ FailedFirst h ∨ e = .fail ∧ .rename ∉ h := by
  constructor
  · rintro ⟨pre, post, heq, hr⟩
    rcases List.eq_nil_or_concat post with rfl | ⟨post, x, rfl⟩
    · obtain ⟨rfl, hx⟩ := List.append_inj' heq rfl
      exact Or.inr ⟨by simpa using hx, hr⟩
    · rw [List.concat_eq_append, ← List.cons_append, ← List.append_assoc] at heq
      obtain ⟨rfl, -⟩ := List.append_inj' heq rfl
      exact Or.inl ⟨pre, post, rfl, hr⟩
  · rintro (⟨pre, post, rfl, hr⟩ | ⟨rfl, hr⟩)
    · exact ⟨pre, post ++ [e], by simp, hr⟩
    · exact ⟨h, [], rfl, hr⟩

/-! ## What the outcome depends on -/

/-- What holds of the outcome where the main thread stands. -/
def Outcome (s : St) : Prop :=
  match s.main with
  | .publishing => s.final = false ∧ (s.error = none → s.summary = .pass)
  | .cleaning => s.final = true ∧ s.error = none ∧ s.summary = .pass
  | .writeReport =>
    s.error ≠ none ∧ s.summary = .incomplete ∧ s.final = false ∨ s.error = none ∧ s.summary = .pass ∧ s.final = true
  | .ended =>
    s.error ≠ none ∧ s.report = some .incomplete ∧ s.final = false ∨
      s.error = none ∧ s.report = some .pass ∧ s.final = true
  | .crashed => (s.error ≠ none → s.final = false) ∧ (s.final = false → FailedFirst s.history)
  | _ => s.final = false

/-- `record` has neither ended nor been left by an exception. -/
def Running (s : St) : Prop := s.main ≠ .ended ∧ s.main ≠ .crashed

/-- What the soundness of the outcome speaks of, besides where the main thread stands. -/
def St.outlook (s : St) : Bool × List Event × Option String × Bool × Option Status :=
  (s.fatal, s.history, s.error, s.final, s.report)

/-- The flag is set by callbacks only; there is an error when the flag was seen or something failed before the rename,
and then only; the final bag and the report follow the error. -/
structure Sound (s : St) : Prop where
  flagged : s.fatal = true ↔ ∃ i, .flag i ∈ s.history
  renamed : s.final = true ↔ .rename ∈ s.history
  seen : Seen s.history → s.error ≠ none
  failing : FailedFirst s.history → s.error ≠ none ∨ s.main = .crashed ∧ s.final = false
  errors : s.error ≠ none → Seen s.history ∨ FailedFirst s.history
  reported : s.main ≠ .ended → s.report = none
  outcome : Outcome s

theorem Sound.init : Sound {} :=
  ⟨by simp, by simp, fun h => absurd h not_seen_nil, fun h => absurd h not_failedFirst_nil, by simp, fun _ => rfl, rfl⟩

/-- A failed recording leaves no final bag. -/
theorem Sound.no_bag {s : St} (h : Sound s) (he : s.error ≠ none) : s.final = false := by
  have ho := h.outcome
  unfold Outcome at ho
  split at ho <;> simp_all

theorem Sound.not_renamed {s : St} (h : Sound s) (hfin : s.final = false) : .rename ∉ s.history := fun hmem => by
  have := h.renamed.2 hmem
  simp [hfin] at this

/-- A step that changes nothing of this. -/
theorem Sound.same {s s' : St} (h : Sound s) (hq : s'.outlook = s.outlook) (hm : Running s) (ho : Outcome s') :
    Sound s' := by
  simp only [St.outlook, Prod.mk.injEq] at hq
  obtain ⟨hf, hh, he, hfin, hrep⟩ := hq
  refine ⟨by rw [hf, hh]; exact h.flagged, by rw [hfin, hh]; exact h.renamed, by rw [hh, he]; exact h.seen,
    fun hfail => ?_, by rw [hh, he]; exact h.errors, fun _ => hrep.trans (h.reported hm.1), ho⟩
  rw [hh] at hfail
  rw [he]
  exact Or.inl ((h.failing hfail).resolve_right fun hc => hm.2 hc.1)

/-- Something fails before the rename: there is an error. -/
theorem Sound.fail {s s' : St} (h : Sound s) (hf : s'.fatal = s.fatal) (hh : s'.history = s.history ++ [.fail])
    (hfin : s.final = false) (hfin' : s'.final = s.final) (he : s'.error ≠ none) (hm : Running s)
    (hrep : s'.report = s.report) (ho : Outcome s') : Sound s' := by
  refine ⟨by rw [hf, hh, h.flagged]; simp, by rw [hfin', hh, h.renamed]; simp, fun _ => he, fun _ => Or.inl he,
    fun _ => Or.inr ?_, fun _ => hrep.trans (h.reported hm.1), ho⟩
  rw [hh]
  exact failedFirst_snoc.2 (Or.inr ⟨rfl, h.not_renamed hfin⟩)

/-- An exception leaves `record`. -/
theorem Sound.crash {s : St} (h : Sound s) (hm : Running s) : Sound (({ s with main := .crashed } : St).log .fail) := by
  have hseen : Seen (s.history ++ [.fail]) ↔ Seen s.history := by simp [seen_snoc]
  refine ⟨by simpa [St.log] using h.flagged, by simpa [St.log] using h.renamed, fun hs => h.seen (hseen.1 hs),
    fun hff => ?_, fun he => ?_, fun _ => h.reported hm.1, ?_⟩
  · rcases failedFirst_snoc.1 hff with hff | ⟨-, hr⟩
    · exact Or.inl ((h.failing hff).resolve_right fun hc => hm.2 hc.1)
    · exact Or.inr ⟨rfl, Bool.eq_false_iff.2 fun hfin => hr (h.renamed.1 hfin)⟩
  · exact (h.errors he).imp hseen.2 fun hff => failedFirst_snoc.2 (Or.inl hff)
  · exact ⟨fun he => h.no_bag he, fun hfin => failedFirst_snoc.2 (Or.inr ⟨rfl, h.not_renamed hfin⟩)⟩

/-- The bag of a recording without an error gets its final name. -/
theorem Sound.rename {s : St} (h : Sound s) (hm : Running s) (he : s.error = none) (hsum : s.summary = .pass) :
    Sound (({ s with final := true, main := .cleaning } : St).log .rename) := by
  have hseen : Seen (s.history ++ [.rename]) ↔ Seen s.history := by simp [seen_snoc]
  have hff : FailedFirst (s.history ++ [.rename]) ↔ FailedFirst s.history := by simp [failedFirst_snoc]
  refine ⟨by simpa [St.log] using h.flagged, by simp [St.log], fun hs => h.seen (hseen.1 hs), fun hfail => ?_,
    fun hne => absurd he hne, fun _ => h.reported hm.1, ⟨rfl, he, hsum⟩⟩
  exact Or.inl ((h.failing (hff.1 hfail)).resolve_right fun hc => hm.2 hc.1)

/-- The report is written. -/
theorem Sound.ended {s : St} (h : Sound s) (hm : Running s)
    (ho : s.error ≠ none ∧ s.summary = .incomplete ∧ s.final = false ∨ s.error = none ∧ s.summary = .pass ∧ s.final = true) :
    Sound { s with report := some s.summary, main := .ended } := by
  refine ⟨h.flagged, h.renamed, h.seen, fun hfail => ?_, h.errors, fun hne => absurd rfl hne, ?_⟩
  · exact Or.inl ((h.failing hfail).resolve_right fun hc => hm.2 hc.1)
  · simpa [Outcome] using ho

/-- The flag is polled, and the step fails when it is set. -/
theorem Sound.poll {s s' : St} (h : Sound s) (hq : s'.outlook = (s.fatal, s.history ++ [.poll], s'.error, s.final, s.report))
    (hm : Running s) (he : if s.fatal then s'.error ≠ none else s'.error = s.error) (ho : Outcome s') : Sound s' := by
  simp only [St.outlook, Prod.mk.injEq, true_and] at hq
  obtain ⟨hf, hh, hfin, hrep⟩ := hq
  have hflagged : s'.fatal = true ↔ ∃ i, .flag i ∈ s'.history := by
    rw [hf, hh, h.flagged]
    simp
  have hrenamed : s'.final = true ↔ .rename ∈ s'.history := by
    rw [hfin, hh, h.renamed]
    simp
  have hfail : FailedFirst s'.history ↔ FailedFirst s.history := by simp [hh, failedFirst_snoc]
  have hreported : s'.main ≠ .ended → s'.report = none := fun _ => hrep.trans (h.reported hm.1)
  split at he
  · rename_i hset
    have hseen : Seen s'.history := hh ▸ seen_snoc.2 (Or.inr ⟨rfl, h.flagged.1 hset⟩)
    exact ⟨hflagged, hrenamed, fun _ => he, fun _ => Or.inl he, fun _ => Or.inl hseen, hreported, ho⟩
  · rename_i hclear
    have hseen : Seen s'.history ↔ Seen s.history := by
      rw [hh, seen_snoc]
      exact or_iff_left fun hex => hclear (h.flagged.2 hex.2)
    refine ⟨hflagged, hrenamed, fun hs => ?_, fun hmem => Or.inl ?_, fun hne => ?_, hreported, ho⟩
    · rw [he]
      exact h.seen (hseen.1 hs)
    · rw [he]
      exact (h.failing (hfail.1 hmem)).resolve_right fun hc => hm.2 hc.1
    · rw [he] at hne
      exact (h.errors hne).imp hseen.2 hfail.2

theorem orError_ne (s : St) (text : String) : (s.orError text).error ≠ none := by
  unfold St.orError St.failed
  cases h : s.error with
  | none => simp
  | some e =>
    simp only [Option.any_some, ne_eq]
    split <;> simp

/-! ## The steps of a callback -/

/-- A callback sets the flag, decides to discard, or does neither. -/
theorem callbackStep_cases {s s' : St} {i : ℕ} {c : Callback} (h : s.callbackStep i c = some s') :
    s'.error = s.error ∧ s'.main = s.main ∧ s'.final = s.final ∧ s'.summary = s.summary ∧ s'.report = s.report ∧
      (s'.fatal = s.fatal ∧ s'.history = s.history ∨
        s'.fatal = s.fatal ∧ s'.history = s.history ++ [.discard i] ∨
        s'.fatal = true ∧ s'.history = s.history ++ [.flag i]) := by
  unfold St.callbackStep at h
  split at h <;> (try split at h) <;> cases h <;> simp [St.setCallback, St.log]

/-- A step beside the main thread, after which the history says the same about the recording. -/
theorem Sound.beside {s s' : St} (h : Sound s) (he : s'.error = s.error) (hm : s'.main = s.main)
    (hfin : s'.final = s.final) (hsum : s'.summary = s.summary) (hrep : s'.report = s.report)
    (hf : s'.fatal = true ↔ ∃ i, .flag i ∈ s'.history) (hseen : Seen s'.history ↔ Seen s.history)
    (hff : FailedFirst s'.history ↔ FailedFirst s.history) (hren : .rename ∈ s'.history ↔ .rename ∈ s.history) :
    Sound s' := by
  refine ⟨hf, by rw [hfin, hren]; exact h.renamed, by rw [hseen, he]; exact h.seen, by rw [hff, he, hm, hfin]; exact h.failing,
    by rw [hseen, hff, he]; exact h.errors, by rw [hm, hrep]; exact h.reported, ?_⟩
  have := h.outcome
  unfold Outcome at this ⊢
  rw [hm, he, hfin, hsum, hrep, hff]
  exact this

theorem Sound.callback {s s' : St} (h : Sound s) {i : ℕ} {c : Callback} (hs : s.callbackStep i c = some s') : Sound s' := by
  obtain ⟨he, hm, hfin, hsum, hrep, hcase⟩ := callbackStep_cases hs
  rcases hcase with ⟨hf, hh⟩ | ⟨hf, hh⟩ | ⟨hf, hh⟩
  · exact h.beside he hm hfin hsum hrep (by rw [hf, hh]; exact h.flagged) (by rw [hh]) (by rw [hh]) (by rw [hh])
  · exact h.beside he hm hfin hsum hrep (by rw [hf, hh, h.flagged]; simp) (by simp [hh, seen_snoc])
      (by simp [hh, failedFirst_snoc]) (by simp [hh])
  · exact h.beside he hm hfin hsum hrep (by rw [hf, hh]; simp) (by simp [hh, seen_snoc])
      (by simp [hh, failedFirst_snoc]) (by simp [hh])

/-! ## The steps of the main thread -/

/-- A step of the first `try`. -/
theorem Sound.trying {s next : St} (h : Sound s) (hm : Running s) (hfin : s.final = false) (env : Env) (hn : Sound next) :
    Sound (s.trying env next) := by
  unfold St.trying
  split
  · exact h.fail rfl rfl hfin rfl (by simp [St.except, St.log]) hm rfl hfin
  · exact hn

/-- A step of the `try` in the `finally` block. -/
theorem Sound.finalizing {s next : St} (h : Sound s) (hm : Running s) (hfin : s.final = false) (env : Env)
    (hn : Sound next) : Sound (s.finalizing env next) := by
  unfold St.finalizing
  split
  · rename_i x _
    exact h.fail rfl rfl hfin rfl (orError_ne s x.text) hm rfl hfin
  · exact hn

/-- A step whose exception leaves `record`. -/
theorem Sound.leavingOn {s next : St} (h : Sound s) (hm : Running s) (env : Env) (hn : Sound next) :
    Sound (s.leavingOn env next) := by
  unfold St.leavingOn
  split
  · exact h.crash hm
  · exact hn

theorem enterTail_outlook (cfg : Settings) (now : ℚ) (s : St) : (s.enterTail cfg now).outlook = s.outlook := by
  unfold St.enterTail
  simp only
  split <;> split <;> simp [St.outlook]

theorem Sound.main {cfg : Settings} {env : Env} {s s' : St} (h : Sound s) (hs : s.mainStep cfg env = some s') :
    Sound s' := by
  have ho := h.outcome
  unfold Outcome at ho
  have hrun : Running s := by
    constructor <;> intro hend <;> simp [St.mainStep, hend] at hs
  have hsame : ∀ t : St, t.outlook = s.outlook → Outcome t → Sound t := fun t hq ht => h.same hq hrun ht
  unfold St.mainStep at hs
  cases hm : s.main with
  | starting | startRaw | top | housekeeping =>
    simp only [hm, Option.some.injEq] at hs ho
    subst hs
    exact h.trying hrun ho env (hsame _ rfl ho)
  | opening | ingest i =>
    simp only [hm, Option.some.injEq] at hs ho
    subst hs
    refine Sound.trying ?_ (by simp [Running]) (by exact ho) env ?_
    · exact hsame _ rfl (by simpa [Outcome, hm] using ho)
    · exact hsame _ rfl ho
  | crediting i | closing =>
    simp only [hm, Option.some.injEq] at hs ho
    subst hs
    exact hsame _ rfl ho
  | subscribing rest =>
    cases rest with
    | nil =>
      simp only [hm, Option.some.injEq] at hs ho
      subst hs
      exact hsame _ rfl ho
    | cons t rest =>
      simp only [hm, Option.some.injEq] at hs ho
      subst hs
      exact h.trying hrun ho env (hsame _ rfl ho)
  | poll now =>
    simp only [hm] at hs ho
    split at hs <;> cases hs
    · rename_i hset
      have hset : s.fatal = true := hset
      exact h.poll rfl hrun (by rw [if_pos hset]; simp [St.except]) ho
    · rename_i hclear
      have hclear : ¬s.fatal = true := hclear
      exact h.poll rfl hrun (by rw [if_neg hclear]; rfl) ho
  | tail now =>
    simp only [hm, Option.some.injEq] at hs ho
    subst hs
    have hq := enterTail_outlook cfg now s
    refine h.trying hrun ho env (hsame _ hq ?_)
    simp only [St.outlook, Prod.mk.injEq] at hq
    unfold Outcome
    split <;> simp_all
    all_goals split at * <;> simp_all
  | get now =>
    simp only [hm] at hs ho
    split at hs <;> cases hs
    · exact h.trying hrun ho env (hsame _ rfl ho)
    · exact hsame _ rfl ho
  | taken i =>
    simp only [hm] at hs ho
    split at hs <;> cases hs
    exact hsame _ rfl ho
  | unregistering =>
    simp only [hm] at hs ho
    split at hs <;> cases hs
    · exact hsame _ rfl ho
    · refine h.leavingOn hrun env (hsame _ rfl ?_)
      simpa [Outcome, hm] using ho
  | stopRaw =>
    simp only [hm, Option.some.injEq] at hs ho
    subst hs
    refine h.finalizing hrun ho env (hsame _ rfl ?_)
    cases he : s.engine <;> simpa [Outcome] using ho
  | emptying =>
    simp only [hm] at hs ho
    split at hs
    · cases hs
      exact hsame _ rfl ho
    · split at hs <;> cases hs
      · exact hsame _ rfl ho
      · exact hsame _ rfl ho
  | ingestQueued i =>
    simp only [hm, Option.some.injEq] at hs ho
    subst hs
    refine Sound.finalizing ?_ (by simp [Running]) (by exact ho) env ?_
    · exact hsame _ rfl (by simpa [Outcome, hm] using ho)
    · exact hsame _ rfl ho
  | drainFinal =>
    simp only [hm, Option.some.injEq] at hs ho
    subst hs
    exact h.finalizing hrun ho env (hsame _ rfl ho)
  | reporting =>
    simp only [hm, Option.some.injEq] at hs ho
    subst hs
    split
    · -- no frames: an error of its own
      have ht : Sound (({ s with error := some "No complete frames recorded" } : St).log .fail) :=
        h.fail rfl rfl ho rfl (by simp [St.log]) hrun rfl (by simpa [Outcome, hm, St.log] using ho)
      exact ht.finalizing hrun ho env (ht.same rfl hrun ho)
    · exact h.finalizing hrun ho env (hsame _ rfl ho)
  | closeBag =>
    simp only [hm] at hs ho
    split at hs
    · rename_i x _
      split at hs <;> cases hs
      · exact h.fail rfl rfl ho rfl (orError_ne s x.text) hrun rfl ⟨ho, fun hnone => absurd hnone (orError_ne s x.text)⟩
      · exact h.crash hrun
    · cases hs
      refine hsame _ rfl ?_
      by_cases he : s.error = none
      · simpa [Outcome, he] using ho
      · simpa [Outcome, he] using ho
  | validating =>
    simp only [hm] at hs ho
    split at hs
    · split at hs <;> cases hs
      · exact h.fail rfl rfl ho rfl (by simp [St.log]) hrun rfl ⟨ho, by simp [St.log]⟩
      · exact h.crash hrun
    · cases hs
      exact hsame _ rfl ⟨ho, fun _ => rfl⟩
  | publishing =>
    simp only [hm] at hs ho
    split at hs
    · rename_i hf
      cases hs
      have he : s.error ≠ none := by
        intro hnone
        simp [St.failed, hnone] at hf
      exact h.leavingOn hrun env (hsame _ rfl (Or.inl ⟨he, rfl, ho.1⟩))
    · split at hs <;> cases hs
      · exact h.crash hrun
      · rename_i he
        have he : s.error = none := not_not.1 he
        exact h.leavingOn hrun env (h.rename hrun he (ho.2 he))
  | cleaning =>
    simp only [hm, Option.some.injEq] at hs ho
    subst hs
    exact h.leavingOn hrun env (hsame _ rfl (Or.inr ⟨ho.2.1, ho.2.2, ho.1⟩))
  | writeReport =>
    simp only [hm, Option.some.injEq] at hs ho
    subst hs
    exact h.leavingOn hrun env (h.ended hrun ho)
  | ended => simp [hm] at hs
  | crashed => simp [hm] at hs

/-- **Every step keeps the outcome sound.** -/
theorem Sound.step {cfg : Settings} {a : Act} {s s' : St} (h : Sound s) (hs : step cfg a s = some s') : Sound s' := by
  unfold RecordQueue.step at hs
  cases a with
  | deliver topic payload =>
    simp only at hs
    split at hs <;> cases hs
    exact h.beside rfl rfl rfl rfl rfl h.flagged Iff.rfl Iff.rfl Iff.rfl
  | callback i =>
    simp only at hs
    split at hs
    · exact h.callback hs
    · cases hs
  | signal =>
    cases hs
    exact h.beside rfl rfl rfl rfl rfl h.flagged Iff.rfl Iff.rfl Iff.rfl
  | main env => exact h.main hs

theorem Sound.run {cfg : Settings} {l : List Act} {s : St} (hr : run cfg l = some s) : Sound s :=
  Machine.run_invariant (fun _ _ _ h hs => Sound.step h hs) Sound.init hr

/-- What is promised for a recording that has lost a message: no final bag, no report of success, and where `record` ends
by itself the report INCOMPLETE. -/
def Incomplete (s : St) : Prop :=
  s.final = false ∧ s.report ≠ some .recorded ∧ s.report ≠ some .pass ∧ (s.main = .ended → s.report = some .incomplete)

/-- A recording is over: it is incomplete when there is an error or when an exception has left `record` before the rename,
and then only. -/
theorem Sound.incomplete_iff {s : St} (h : Sound s) (hover : s.main = .ended ∨ s.main = .crashed) :
    Incomplete s ↔ Seen s.history ∨ FailedFirst s.history := by
  have ho := h.outcome
  unfold Incomplete
  rcases hover with hm | hm <;> simp only [Outcome, hm] at ho
  · -- the report follows the error
    have herr : s.error ≠ none ↔ Seen s.history ∨ FailedFirst s.history := by
      refine ⟨h.errors, fun hb => hb.elim h.seen fun hff => ?_⟩
      exact (h.failing hff).resolve_right (by simp [hm])
    rw [← herr]
    rcases ho with ⟨h1, h2, h3⟩ | ⟨h1, h2, h3⟩ <;> simp [h1, h2, h3]
  · have hrep : s.report = none := h.reported (by simp [hm])
    simp only [hrep, hm, ne_eq, reduceCtorEq, not_false_eq_true, IsEmpty.forall_iff, and_true]
    refine ⟨fun hfin => Or.inr (ho.2 hfin), fun hb => ?_⟩
    rcases hb with hs | hff
    · exact h.no_bag (h.seen hs)
    · exact (h.failing hff).elim h.no_bag And.right

/-- **When overload makes a recording incomplete.** Whatever the order of steps: once the loop has seen the flag there
is no final bag; and a recording with a discarded message that is over, ended or left by an exception, is incomplete if
and only if the loop polled the flag after a discarding callback had set it, or the recording failed for a reason of its
own before the bag got its final name. -/
theorem overflow_incomplete {cfg : Settings} {l : List Act} {s : St} (hr : run cfg l = some s) :
    (Seen s.history → s.final = false) ∧
      (s.main = .ended ∨ s.main = .crashed →
        (((∃ i, .discard i ∈ s.history) → Incomplete s) ↔
          ((∃ i, .discard i ∈ s.history) → Seen s.history ∨ FailedFirst s.history))) := by
  have h := Sound.run hr
  refine ⟨fun hs => h.no_bag (h.seen hs), fun hover => ?_⟩
  rw [h.incomplete_iff hover]

/-! ## Two recordings -/

/-- Steps of the main thread that meet nothing. -/
def mains (n : ℕ) : List Act := List.replicate n (.main {})

/-- An RGB image of 1280×720 pixels reaches `callback` as its call `i`, which makes `n` steps. -/
def deliverImage (i n : ℕ) : List Act := .deliver RGB (.image 2764800) :: List.replicate n (.callback i)

/-- Recording the RGB topic, with the default waiting time. -/
def rgbOnly : Settings := { topics := [RGB], wait := 3 }

/-- 48 images fill the budget; the 49th is discarded while the loop runs. -/
def earlyDiscard : List Act :=
  mains 8 ++ (List.range 49).flatMap (deliverImage · 4) ++ [.callback 48] ++ mains 17

/-- 48 images fill the budget, and the call for the last image waits for the lock while the loop makes its last turn. -/
def lateDiscard : List Act :=
  mains 8 ++ (List.range 48).flatMap (deliverImage · 4) ++ mains 5 ++ deliverImage 48 4 ++ deliverImage 49 1 ++
    deliverImage 50 1 ++ [.signal, .main { now := 1 }] ++ mains 7 ++ List.replicate 3 (.callback 49) ++
    [.main { now := 5 }] ++ mains 2 ++ List.replicate 4 (.callback 50) ++ mains 108

/-- **A message is lost and the recording passes**: the last image is discarded after the last poll. -/
theorem overflow_unnoticed :
    ∃ s, run rgbOnly lateDiscard = some s ∧ s.main = .ended ∧ .discard 50 ∈ s.history ∧ s.report = some .pass ∧
      s.bagReport = some .recorded ∧ s.final = true := by
  have h : (run rgbOnly lateDiscard).map (fun s => (s.main, s.history, s.report, s.bagReport, s.final)) =
      some (.ended, [.poll, .poll, .poll, .discard 50, .flag 50, .rename], some .pass, some .recorded, true) := by decide +kernel
  obtain ⟨s, hs, heq⟩ := Option.map_eq_some_iff.1 h
  simp only [Prod.mk.injEq] at heq
  obtain ⟨h1, h2, h3, h4, h5⟩ := heq
  exact ⟨s, hs, h1, by simp [h2], h3, h4, h5⟩

/-- A message is lost, the loop sees the flag, and the recording is incomplete. -/
theorem overflow_noticed :
    ∃ s, run rgbOnly earlyDiscard = some s ∧ .discard 48 ∈ s.history ∧ s.report = some .incomplete ∧ s.final = false := by
  have h : (run rgbOnly earlyDiscard).map (fun s => (s.main, s.history)) =
      some (.ended, [.poll, .discard 48, .flag 48, .poll]) := by decide +kernel
  obtain ⟨s, hs, heq⟩ := Option.map_eq_some_iff.1 h
  simp only [Prod.mk.injEq] at heq
  obtain ⟨h1, h2⟩ := heq
  have hd : .discard 48 ∈ s.history := by simp [h2]
  have hseen : Seen s.history := ⟨[.poll, .discard 48, .flag 48], [.poll], 48, h2, by simp, by simp⟩
  have hinc : Incomplete s := ((overflow_incomplete hs).2 (Or.inl h1)).2 (fun _ => Or.inl hseen) ⟨48, hd⟩
  exact ⟨s, hs, hd, hinc.2.2.2 h1, hinc.1⟩

end Agilex.Capture.RecordQueue
