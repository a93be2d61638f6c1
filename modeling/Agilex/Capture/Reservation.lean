import Agilex.Capture.Publication

/-!
# Two invocations on one output name

Two invocations may both pass the checks before either reserves `.active`. The error path of the one that fails to reserve
it works on the names of the other: it renames `.active` and writes the report.

- `Orderly` is the condition on a step under which this does no harm;
- `reservation_exclusive`: along such steps, an invocation without the reservation leaves every file of the other as it
  is, and the other ends as if it had run alone;
- `reservation_broken`: without them it loses its recording.
-/

namespace Agilex.Capture.RecordFiles

open Agilex.Lib
open RecordQueue (Exn Status)

/-! ## Where an invocation can be -/

/-- What an invocation may do with and without the reservation. -/
def Phase (pr : Proc) : Prop :=
  match pr.pc with
  | .checking _ | .reserving => pr.reserved = false ∧ pr.rawProc = .off ∧ pr.raw = false
  | .closing | .lastWrites | .closeBag | .publishing | .openReport | .writeReport | .ended =>
    pr.reserved = true ∨ pr.rawProc = .off ∧ pr.raw = false ∧ pr.error ≠ none
  | .crashed => pr.reserved = true ∨ pr.rawProc = .off
  | .rawCheck rest => pr.reserved = true ∧ Path.report ∉ rest
  | _ => pr.reserved = true

theorem phase_init : Phase {} := ⟨rfl, rfl, rfl⟩

/-- An exception leads to the error path. -/
theorem phase_handle {pr : Proc} (h : Phase pr) (x : Exn) : Phase (pr.handle x) := by
  unfold Phase at h
  cases hpc : pr.pc with
  | checking rest => rw [hpc] at h; simp only [Proc.handle, hpc]; exact Or.inr h.2.1
  | reserving => rw [hpc] at h; simp only [Proc.handle, hpc]; exact Or.inr ⟨h.2.1, h.2.2, by simp⟩
  | openingBag | writingSession | openLog | popen | recording =>
    rw [hpc] at h; simp only [Proc.handle, hpc]; exact Or.inl h
  | rawCheck rest => rw [hpc] at h; simp only [Proc.handle, hpc]; exact Or.inl h.1
  | closing | publishing | openReport | writeReport | ended =>
    rw [hpc] at h; simp only [Proc.handle, hpc]; exact h.imp_right And.left
  | lastWrites =>
    rw [hpc] at h; simp only [Proc.handle, hpc]
    exact h.imp_right fun h => ⟨h.1, h.2.1, orError_ne pr x.text⟩
  | closeBag =>
    rw [hpc] at h; simp only [Proc.handle, hpc]
    split
    · exact h.imp_right fun h => ⟨h.1, h.2.1, orError_ne pr x.text⟩
    · exact h.imp_right And.left
  | stopRaw | renamePartial | renameDest | unlinkActive | unlinkRaw | unlinkLog =>
    rw [hpc] at h; simp only [Proc.handle, hpc]; exact Or.inl h
  | space | mergeCheck | mergeOpen | mergeWrite | check =>
    rw [hpc] at h; simp only [Proc.handle, hpc]
    split
    · exact Or.inl h
    · exact Or.inl h
  | crashed => rw [hpc] at h; simp only [Proc.handle, hpc]; exact h

/-- An operation without the reservation either keeps it so or reserves `.active`. -/
theorem attempt_reserved {p : Pid} {raw : Bool} {fs : Fs} {pr : Proc} {d : Done} (hd : attempt p raw fs pr = some d) :
    (d.proc.reserved = pr.reserved ∧ (d.proc.rawProc = pr.rawProc ∨ pr.pc = .popen)) ∨
    (pr.pc = .reserving ∧ d.exn = none ∧ d.proc.reserved = true ∧ d.proc.rawProc = pr.rawProc) := by
  cases attempt_cases hd with
  | reserving hpc => exact Or.inr ⟨hpc, rfl, rfl, rfl⟩
  | popen hpc => exact Or.inl ⟨rfl, Or.inr hpc⟩
  | _ => exact Or.inl ⟨rfl, Or.inl rfl⟩

/-- What is left of the phase when an operation raises after it has taken effect. -/
theorem phase_late {p : Pid} {raw : Bool} {fs : Fs} {pr : Proc} {d : Done} (h : Phase pr)
    (hd : attempt p raw fs pr = some d) (x : Exn) :
    Phase ({ pr with created := d.proc.created, reserved := d.proc.reserved, rawProc := d.proc.rawProc }.handle x) := by
  rcases attempt_reserved hd with ⟨hr, hraw⟩ | ⟨hpc, -, hr, hraw⟩
  · refine phase_handle ?_ x
    rw [hr]
    rcases hraw with hraw | hpc
    · rw [hraw]
      exact h
    · unfold Phase at h ⊢
      rw [hpc] at h ⊢
      exact h
  · simp only [Proc.handle, hpc, hr]
    exact Or.inl rfl

/-- An operation keeps the phase, when one without the reservation does not find `.active` before the report. -/
theorem phase_ok {p : Pid} {raw : Bool} {fs : Fs} {pr : Proc} {d : Done} (h : Phase pr)
    (hpub : pr.reserved = false → pr.pc = .publishing → fs .active = none) (hd : attempt p raw fs pr = some d) :
    Phase d.proc := by
  have hpr := h
  unfold Phase at h
  cases attempt_cases hd with
  | raises x => exact hpr
  | refused hpc =>
    rw [hpc] at h
    simp only [Phase, hpc]
    exact h
  | reserving hpc => rfl
  | writingSession hpc =>
    rw [hpc] at h
    cases raw
    · exact h
    · exact ⟨h, by decide⟩
  | rawChecked hpc => rw [hpc] at h; exact h.1
  | rawCheck q rest hpc => rw [hpc] at h; exact ⟨h.1, fun hmem => h.2 (List.mem_cons_of_mem q hmem)⟩
  | checked hpc | checking q rest hpc | openingBag hpc | openLog hpc | popen hpc | lastWrites hpc | space hpc
  | mergeCheck hpc | mergeOpen hpc | mergeWrite hpc | unlinkActive hpc | unlinkRaw hpc | openReport hpc
  | writeReport hpc => rw [hpc] at h; exact h
  | recording hpc | stopRaw hpc | check hpc | renamePartial hpc | unlinkLog hpc => rw [hpc] at h; exact Or.inl h
  | closing hpc =>
    rw [hpc] at h
    by_cases hraw : pr.raw = true
    · rw [if_pos hraw]
      exact h.resolve_right fun h => by rw [hraw] at h; cases h.2.1
    · rw [if_neg hraw]
      exact h
  | closeBag hpc =>
    rw [hpc] at h
    by_cases he : pr.error = none
    · have hres : pr.reserved = true := h.resolve_right fun h => h.2.2 he
      rw [if_neg (not_not.2 he)]
      by_cases hraw : pr.raw = true
      · rw [if_pos hraw]; exact hres
      · rw [if_neg hraw]; exact hres
    · rw [if_pos he]; exact h
  | givingUp hpc =>
    rw [hpc] at h
    by_cases ha : fs .active = none
    · rw [if_neg (not_not.2 ha)]; exact h
    · rw [if_pos ha]
      by_cases hres : pr.reserved = true
      · exact hres
      · exact absurd (hpub (by simpa using hres) hpc) ha
  | publishing hpc he =>
    rw [hpc] at h
    exact h.resolve_right fun h => h.2.2 he
  | renameDest hpc =>
    rw [hpc] at h
    by_cases hraw : pr.raw = true
    · rw [if_pos hraw]; exact h
    · rw [if_neg hraw]; exact Or.inl h

theorem phase_procStep {p : Pid} {raw : Bool} {env : Env} {fs : Fs} {pr : Proc} {r : Fs × Proc} (h : Phase pr)
    (hpub : pr.reserved = false → pr.pc = .publishing → fs .active = none) (hr : procStep p raw env fs pr = some r) :
    Phase r.2 := by
  obtain ⟨d, hd, ⟨x, -, rfl⟩ | ⟨x, -, -, rfl⟩ | ⟨x, -, -, rfl⟩ | ⟨-, -, rfl⟩⟩ := procStep_cases hr
  · exact phase_handle (phase_ok h hpub hd) x
  · exact phase_late h hd x
  · exact phase_handle h x
  · exact phase_ok h hpub hd

@[simp] theorem handle_reserved (pr : Proc) (x : Exn) : (pr.handle x).reserved = pr.reserved := by
  unfold Proc.handle Proc.orError
  split <;> try rfl
  all_goals split <;> rfl

@[simp] theorem handle_rawProc (pr : Proc) (x : Exn) : (pr.handle x).rawProc = pr.rawProc := by
  unfold Proc.handle Proc.orError
  split <;> try rfl
  all_goals split <;> rfl

/-- A reservation is never given back. -/
theorem procStep_reserved {p : Pid} {raw : Bool} {env : Env} {fs : Fs} {pr : Proc} {r : Fs × Proc}
    (hr : procStep p raw env fs pr = some r) (h : pr.reserved = true) : r.2.reserved = true := by
  obtain ⟨d, hd, hcases⟩ := procStep_cases hr
  have hd' : d.proc.reserved = true := by
    rcases attempt_reserved hd with ⟨hd', -⟩ | ⟨-, -, hd', -⟩
    · exact hd'.trans h
    · exact hd'
  obtain ⟨x, -, rfl⟩ | ⟨x, -, -, rfl⟩ | ⟨x, -, -, rfl⟩ | ⟨-, -, rfl⟩ := hcases
  · rw [handle_reserved]; exact hd'
  · rw [handle_reserved]; exact hd'
  · rw [handle_reserved]; exact h
  · exact hd'

/-- **Without the reservation, an operation writes the report or leaves the files as they are.** -/
theorem procStep_unreserved {p : Pid} {raw : Bool} {env : Env} {fs : Fs} {pr : Proc} {r : Fs × Proc} (h : Phase pr)
    (hr : procStep p raw env fs pr = some r) (hres : r.2.reserved = false) :
    r.1 = fs ∨ (pr.pc = .openReport ∨ pr.pc = .writeReport) ∧ ∃ kind, r.1 = fs.put .report (pr.newFile p kind) := by
  have hno : pr.reserved = false := by
    by_contra hyes
    have := procStep_reserved hr (by simpa using hyes)
    rw [hres] at this
    cases this
  by_cases hpc : pr.pc = .reserving
  · obtain ⟨d, hd, hcases⟩ := procStep_cases hr
    simp only [attempt, hpc] at hd
    split at hd <;> cases hd
    · obtain ⟨x, -, rfl⟩ | ⟨x, hx, -⟩ | ⟨x, hx, -⟩ | ⟨hx, -⟩ := hcases
      · exact Or.inl rfl
      all_goals cases hx
    · obtain ⟨x, hx, -⟩ | ⟨x, -, -, rfl⟩ | ⟨x, -, -, rfl⟩ | ⟨-, -, rfl⟩ := hcases
      · cases hx
      · rw [handle_reserved] at hres; cases hres
      · exact Or.inl rfl
      · cases hres
  · have heff := procStep_effect hr
    obtain ⟨fs', pr'⟩ := r
    unfold Phase at h
    cases heff with
    | keep => exact Or.inl rfl
    | put q kind hq =>
      unfold creates at hq
      split at hq <;> cases hq
      case h_1 hpc' => exact absurd hpc' hpc
      case h_6 hpc' => exact Or.inr ⟨Or.inl hpc', kind, rfl⟩
      case h_7 hpc' => exact Or.inr ⟨Or.inr hpc', kind, rfl⟩
      all_goals
        rename_i hpc'
        rw [hpc', hno] at h
        cases h
    | move q t hq =>
      unfold Proc.renames at hq
      split at hq <;> cases hq
      all_goals
        rename_i hpc'
        rw [hpc', hno] at h
        cases h
    | remove q hq =>
      unfold unlinks at hq
      split at hq <;> cases hq
      all_goals
        rename_i hpc'
        rw [hpc', hno] at h
        cases h

/-! ## The same files but for a report of the other -/

/-- The files of a run, and those of an invocation in it alone: the other may have left its report. -/
def SameBut (p : Pid) (fs fs' : Fs) : Prop :=
  ∀ q, fs' q = fs q ∨ (q = .report ∧ fs' q = none ∧ ∃ f, fs q = some f ∧ f.owner = some p.other)

theorem SameBut.eq {p : Pid} {fs fs' : Fs} (h : SameBut p fs fs') {q : Path} (hq : q ≠ .report) : fs' q = fs q :=
  (h q).resolve_right fun h => hq h.1

theorem SameBut.put {p : Pid} {fs fs' : Fs} (h : SameBut p fs fs') (q : Path) (f : File) :
    SameBut p (fs.put q f) (fs'.put q f) := by
  intro q'
  by_cases hq : q' = q
  · exact Or.inl (by simp [hq])
  · simpa [hq] using h q'

theorem SameBut.remove {p : Pid} {fs fs' : Fs} (h : SameBut p fs fs') (q : Path) :
    SameBut p (fs.remove q) (fs'.remove q) := by
  intro q'
  by_cases hq : q' = q
  · exact Or.inl (by simp [hq])
  · simpa [hq] using h q'

theorem SameBut.move {p : Pid} {fs fs' : Fs} (h : SameBut p fs fs') {q : Path} (hq : q ≠ .report) (t : Path) :
    SameBut p (fs.move q t) (fs'.move q t) := by
  intro q'
  by_cases ht : q' = t
  · exact Or.inl (by simp [ht, h.eq hq])
  · by_cases hq' : q' = q
    · subst hq'
      exact Or.inl (by simp [ht])
    · simpa [ht, hq'] using h q'

/-- A report of the other is an extra file. -/
theorem SameBut.other {p : Pid} {fs fs' : Fs} (h : SameBut p fs fs') {f : File} (hf : f.owner = some p.other)
    (hnone : fs' .report = none) : SameBut p (fs.put .report f) fs' := by
  intro q
  by_cases hq : q = .report
  · exact Or.inr ⟨hq, hq ▸ hnone, f, by simp [hq], hf⟩
  · simpa [hq] using h q

theorem candidate_ne_report (pr : Proc) : pr.candidate ≠ .report := by
  unfold Proc.candidate
  split <;> decide

/-- **An operation does the same in both**, unless it looks for a report. -/
theorem attempt_sameBut {p : Pid} {raw : Bool} {fs fs' : Fs} {pr : Proc} {d : Done} (hs : SameBut p fs fs')
    (hraw : ∀ rest, pr.pc = .rawCheck rest → Path.report ∉ rest)
    (hrep : ∀ rest, pr.pc = .checking (.report :: rest) → fs' .report = fs .report)
    (hd : attempt p raw fs pr = some d) :
    ∃ d', attempt p raw fs' pr = some d' ∧ d'.proc = d.proc ∧ d'.exn = d.exn ∧ SameBut p d.fs d'.fs := by
  have hactive : fs' .active = fs .active := hs.eq (by decide)
  have hrawBag : fs' .rawBag = fs .rawBag := hs.eq (by decide)
  have hrawActive : fs' .rawActive = fs .rawActive := hs.eq (by decide)
  have hrawLog : fs' .rawLog = fs .rawLog := hs.eq (by decide)
  have hmerge : fs' .mergeActive = fs .mergeActive := hs.eq (by decide)
  have hcand : fs' pr.candidate = fs pr.candidate := hs.eq (candidate_ne_report pr)
  cases hpc : pr.pc with
  | checking rest =>
    cases rest with
    | nil =>
      simp only [attempt, hpc] at hd ⊢
      cases hd
      exact ⟨_, rfl, rfl, rfl, hs⟩
    | cons q rest =>
      have hq : fs' q = fs q := by
        by_cases hq : q = .report
        · subst hq
          exact hrep rest hpc
        · exact hs.eq hq
      simp only [attempt, hpc, hq] at hd ⊢
      split_ifs at hd ⊢ <;> cases hd
      all_goals exact ⟨_, rfl, rfl, rfl, hs⟩
  | rawCheck rest =>
    cases rest with
    | nil =>
      simp only [attempt, hpc] at hd ⊢
      cases hd
      exact ⟨_, rfl, rfl, rfl, hs⟩
    | cons q rest =>
      have hq : fs' q = fs q := hs.eq fun heq => hraw _ hpc (by simp [heq])
      simp only [attempt, hpc, hq] at hd ⊢
      split_ifs at hd ⊢ <;> cases hd
      all_goals exact ⟨_, rfl, rfl, rfl, hs⟩
  | writingSession | popen | recording | closing | lastWrites | closeBag =>
    simp only [attempt, hpc] at hd ⊢
    cases hd
    exact ⟨_, rfl, rfl, rfl, hs⟩
  | openingBag | openReport | writeReport =>
    simp only [attempt, hpc] at hd ⊢
    cases hd
    exact ⟨_, rfl, rfl, rfl, hs.put _ _⟩
  | stopRaw =>
    simp only [attempt, hpc, hrawBag, hrawActive] at hd ⊢
    split_ifs at hd ⊢ <;> cases hd
    all_goals exact ⟨_, rfl, rfl, rfl, hs⟩
  | space =>
    simp only [attempt, hpc, requiring, hactive, hrawBag] at hd ⊢
    split_ifs at hd ⊢ <;> cases hd
    all_goals exact ⟨_, rfl, rfl, rfl, hs⟩
  | publishing =>
    simp only [attempt, hpc, hactive] at hd ⊢
    split_ifs at hd ⊢ <;> cases hd
    all_goals exact ⟨_, rfl, rfl, rfl, hs⟩
  | mergeCheck | check =>
    simp only [attempt, hpc, requiring, hmerge, hcand] at hd ⊢
    split_ifs at hd ⊢ <;> cases hd
    all_goals exact ⟨_, rfl, rfl, rfl, hs⟩
  | reserving | openLog | mergeOpen =>
    simp only [attempt, hpc, createNew, hactive, hrawLog, hmerge] at hd ⊢
    split_ifs at hd ⊢ <;> cases hd
    · exact ⟨_, rfl, rfl, rfl, hs⟩
    · exact ⟨_, rfl, rfl, rfl, hs.put _ _⟩
  | mergeWrite =>
    simp only [attempt, hpc, hactive, hrawBag] at hd ⊢
    cases ha : fs .active with
    | none =>
      simp only [ha] at hd ⊢
      cases hd
      exact ⟨_, rfl, rfl, rfl, hs⟩
    | some core =>
      cases hb : fs .rawBag with
      | none =>
        simp only [ha, hb] at hd ⊢
        cases hd
        exact ⟨_, rfl, rfl, rfl, hs⟩
      | some raw =>
        simp only [ha, hb] at hd ⊢
        cases hd
        exact ⟨_, rfl, rfl, rfl, hs.put _ _⟩
  | renamePartial =>
    simp only [attempt, hpc, requiring, hactive] at hd ⊢
    split_ifs at hd ⊢ <;> cases hd
    · exact ⟨_, rfl, rfl, rfl, hs⟩
    · exact ⟨_, rfl, rfl, rfl, hs.move (by decide) _⟩
  | renameDest =>
    simp only [attempt, hpc, requiring, hcand] at hd ⊢
    by_cases hc : fs pr.candidate = none
    · rw [if_pos hc] at hd ⊢
      cases hd
      exact ⟨_, rfl, rfl, rfl, hs⟩
    · rw [if_neg hc] at hd ⊢
      cases hd
      exact ⟨_, rfl, rfl, rfl, hs.move (candidate_ne_report pr) _⟩
  | unlinkActive | unlinkRaw | unlinkLog =>
    simp only [attempt, hpc, requiring, hactive, hrawBag, hrawLog] at hd ⊢
    split_ifs at hd ⊢ <;> cases hd
    · exact ⟨_, rfl, rfl, rfl, hs⟩
    · exact ⟨_, rfl, rfl, rfl, hs.remove _⟩
  | ended | crashed =>
    simp only [attempt, hpc] at hd
    cases hd

theorem procStep_sameBut {p : Pid} {raw : Bool} {env : Env} {fs fs' : Fs} {pr : Proc} {r : Fs × Proc}
    (hs : SameBut p fs fs') (hraw : ∀ rest, pr.pc = .rawCheck rest → Path.report ∉ rest)
    (hrep : ∀ rest, pr.pc = .checking (.report :: rest) → fs' .report = fs .report)
    (hr : procStep p raw env fs pr = some r) :
    ∃ r', procStep p raw env fs' pr = some r' ∧ r'.2 = r.2 ∧ SameBut p r.1 r'.1 := by
  obtain ⟨d, hd, rfl⟩ := Option.map_eq_some_iff.1 hr
  obtain ⟨d', hd', hproc, hexn, hfs⟩ := attempt_sameBut hs hraw hrep hd
  refine ⟨_, Option.map_eq_some_iff.2 ⟨d', hd', rfl⟩, ?_⟩
  rw [hproc, hexn]
  cases d.exn with
  | some x => exact ⟨rfl, hfs⟩
  | none =>
    cases env.fail with
    | none => exact ⟨rfl, hfs⟩
    | some x =>
      cases env.late
      · exact ⟨rfl, hs⟩
      · exact ⟨rfl, hfs⟩

theorem rawStep_sameBut {p : Pid} {killed : Bool} {fs fs' : Fs} {pr : Proc} {r : Fs × Proc} (hs : SameBut p fs fs')
    (hr : rawStep p killed fs pr = some r) :
    ∃ r', rawStep p killed fs' pr = some r' ∧ r'.2 = r.2 ∧ SameBut p r.1 r'.1 := by
  have hrawActive : fs' .rawActive = fs .rawActive := hs.eq (by decide)
  unfold rawStep at hr ⊢
  split at hr
  · cases hr
    exact ⟨_, rfl, rfl, hs.put _ _⟩
  · rw [hrawActive]
    split_ifs at hr ⊢ <;> cases hr
    · exact ⟨_, rfl, rfl, hs⟩
    · exact ⟨_, rfl, rfl, hs.move (by decide) _⟩
  · cases hr
  · cases hr

/-! ## Runs of two invocations -/

@[simp] theorem other_other (p : Pid) : p.other.other = p := by cases p <;> rfl

theorem other_ne (p : Pid) : p.other ≠ p := by cases p <;> decide

theorem eq_other_of_ne {p q : Pid} (h : q ≠ p) : q = p.other := by cases p <;> cases q <;> first | rfl | exact absurd rfl h

/-- The condition on a step: `.active` is not reserved after the other has reserved it; and an invocation without the
reservation finds no `.active` in its error path, and no report of the other when it opens and writes its own. -/
def Orderly (a : Act) (s : Sys) : Prop :=
  ((s.proc a.pid).pc = .reserving → s.fs .active = none → (s.proc a.pid.other).reserved = false) ∧
  ((s.proc a.pid).reserved = false → (s.proc a.pid).pc = .publishing → s.fs .active = none) ∧
  ((s.proc a.pid).reserved = false → (s.proc a.pid).pc = .openReport ∨ (s.proc a.pid).pc = .writeReport →
    ∀ f ∈ s.fs .report, f.owner ≠ some a.pid.other)

instance (a : Act) (s : Sys) : Decidable (Orderly a s) := inferInstanceAs (Decidable (_ ∧ _ ∧ _))

@[simp] theorem set_proc_self (s : Sys) (p : Pid) (r : Fs × Proc) : (s.set p r).proc p = r.2 := if_pos rfl

@[simp] theorem set_proc_other (s : Sys) (p : Pid) (r : Fs × Proc) : (s.set p r).proc p.other = s.proc p.other :=
  if_neg (other_ne p)

/-- A step touches the invocation that makes it only. -/
theorem step_other {raws : Pid → Bool} {a : Act} {s s' : Sys} (hs : step raws a s = some s') :
    s'.proc a.pid.other = s.proc a.pid.other := by
  cases a with
  | op p env =>
    obtain ⟨r, -, rfl⟩ := Option.map_eq_some_iff.1 hs
    exact set_proc_other s p r
  | raw p killed =>
    obtain ⟨r, -, rfl⟩ := Option.map_eq_some_iff.1 hs
    exact set_proc_other s p r

theorem Phase.of_reserved {pr pr' : Proc} (h : Phase pr) (hpc : pr'.pc = pr.pc) (hr : pr.reserved = true)
    (hr' : pr'.reserved = true) : Phase pr' := by
  unfold Phase at h ⊢
  rw [hpc, hr']
  rw [hr] at h
  cases hq : pr.pc with
  | checking rest | reserving => rw [hq] at h; cases h.1
  | closing | lastWrites | closeBag | publishing | openReport | writeReport | ended | crashed => exact Or.inl rfl
  | rawCheck rest => rw [hq] at h; exact h
  | _ => rfl

theorem rawStep_phase {p : Pid} {killed : Bool} {fs : Fs} {pr : Proc} {r : Fs × Proc} (h : Phase pr)
    (hr : rawStep p killed fs pr = some r) : pr.reserved = true ∧ r.2.reserved = true ∧ Phase r.2 := by
  have hon : pr.rawProc ≠ .off := by
    intro hoff
    simp only [rawStep, hoff] at hr
    cases hr
  have hres : pr.reserved = true := by
    unfold Phase at h
    split at h
    · exact absurd h.2.1 hon
    · exact absurd h.2.1 hon
    all_goals first
      | exact h
      | exact h.1
      | exact h.resolve_right fun h => hon h
      | exact h.resolve_right fun h => hon h.1
  have hnew : ∀ c rp, Phase { pr with created := c, rawProc := rp } := fun c rp => h.of_reserved rfl hres hres
  obtain rfl | rfl | ⟨-, rfl⟩ := rawStep_cases hr
  all_goals exact ⟨hres, hres, hnew _ _⟩

theorem step_reserved {raws : Pid → Bool} {a : Act} {s s' : Sys} {p : Pid} (hs : step raws a s = some s')
    (h : (s.proc p).reserved = true) : (s'.proc p).reserved = true := by
  by_cases hp : p = a.pid
  · subst hp
    cases a with
    | op p env =>
      obtain ⟨r, hr, rfl⟩ := Option.map_eq_some_iff.1 hs
      simpa [Act.pid] using procStep_reserved hr h
    | raw p killed =>
      obtain ⟨r, hr, rfl⟩ := Option.map_eq_some_iff.1 hs
      simp only [Act.pid] at h ⊢
      rw [set_proc_self]
      obtain rfl | rfl | ⟨-, rfl⟩ := rawStep_cases hr
      all_goals exact h
  · rw [eq_other_of_ne hp, step_other hs, ← eq_other_of_ne hp]
    exact h

theorem step_phase {raws : Pid → Bool} {a : Act} {s s' : Sys} (ho : Orderly a s) (h : ∀ p, Phase (s.proc p))
    (hs : step raws a s = some s') : ∀ p, Phase (s'.proc p) := by
  intro p
  by_cases hp : p = a.pid
  · subst hp
    cases a with
    | op p env =>
      obtain ⟨r, hr, rfl⟩ := Option.map_eq_some_iff.1 hs
      simpa [Act.pid] using phase_procStep (h p) ho.2.1 hr
    | raw p killed =>
      obtain ⟨r, hr, rfl⟩ := Option.map_eq_some_iff.1 hs
      simpa [Act.pid] using (rawStep_phase (h p) hr).2.2
  · rw [eq_other_of_ne hp, step_other hs, ← eq_other_of_ne hp]
    exact h p

/-- A state of a run, and the state of an invocation in it alone. -/
structure Solo (p : Pid) (s t : Sys) : Prop where
  phase : ∀ p', Phase (s.proc p')
  free : (s.proc p.other).reserved = false
  owned : ∀ q f, t.fs q = some f → f.owner = some p
  sim : (t.proc p = s.proc p ∧ SameBut p s.fs t.fs) ∨
    ((s.proc p).pc = .crashed ∧ (s.proc p).reserved = false ∧ (s.proc p).rawProc = .off)

theorem Effect.owned {p : Pid} {fs fs' : Fs} {pr : Proc} (he : Effect p fs pr fs')
    (h : ∀ q f, fs q = some f → f.owner = some p) : ∀ q f, fs' q = some f → f.owner = some p := by
  cases he with
  | keep => exact h
  | put q kind hq =>
    intro q' f hf
    by_cases hq' : q' = q
    · obtain rfl : pr.newFile p kind = f := by simpa [hq'] using hf
      rfl
    · exact h q' f (by simpa [hq'] using hf)
  | move q t hq =>
    intro q' f hf
    by_cases ht : q' = t
    · exact h q f (by simpa [ht] using hf)
    · by_cases hq' : q' = q
      · subst hq'
        simp [ht] at hf
      · exact h q' f (by simpa [ht, hq'] using hf)
  | remove q hq =>
    intro q' f hf
    by_cases hq' : q' = q
    · simp [hq'] at hf
    · exact h q' f (by simpa [hq'] using hf)

theorem rawStep_owned {p : Pid} {killed : Bool} {fs : Fs} {pr : Proc} {r : Fs × Proc}
    (h : ∀ q f, fs q = some f → f.owner = some p) (hr : rawStep p killed fs pr = some r) :
    ∀ q f, r.1 q = some f → f.owner = some p := by
  obtain rfl | rfl | ⟨-, rfl⟩ := rawStep_cases hr
  · intro q f hf
    by_cases hq : q = .rawActive
    · obtain rfl : pr.newFile p .raw = f := by simpa [hq] using hf
      rfl
    · exact h q f (by simpa [hq] using hf)
  · exact h
  · intro q f hf
    by_cases ht : q = .rawBag
    · exact h .rawActive f (by simpa [ht] using hf)
    · by_cases hq : q = .rawActive
      · subst hq
        simp at hf
      · exact h q f (by simpa [ht, hq] using hf)

/-- A step of the invocation is a step of it alone. -/
theorem Solo.own {raws : Pid → Bool} {a : Act} {s s' t : Sys} (h : Solo a.pid s t) (ho : Orderly a s)
    (hs : step raws a s = some s') : ∃ t', step raws a t = some t' ∧ Solo a.pid s' t' := by
  have hphase := step_phase ho h.phase hs
  have hfree : (s'.proc a.pid.other).reserved = false := by rw [step_other hs]; exact h.free
  cases a with
  | op p env =>
    simp only [Act.pid] at h hfree ⊢
    obtain ⟨r, hr, rfl⟩ := Option.map_eq_some_iff.1 hs
    rcases h.sim with ⟨hproc, hsame⟩ | ⟨hpc, -, -⟩
    · have hraw : ∀ rest, (s.proc p).pc = .rawCheck rest → Path.report ∉ rest := by
        intro rest hpc
        have hp := h.phase p
        rw [Phase, hpc] at hp
        exact hp.2
      by_cases hlook : ∀ rest, (s.proc p).pc = .checking (.report :: rest) → t.fs .report = s.fs .report
      · obtain ⟨r', hr', hproc', hsame'⟩ := procStep_sameBut hsame hraw hlook hr
        rw [← hproc] at hr'
        refine ⟨t.set p r', Option.map_eq_some_iff.2 ⟨r', hr', rfl⟩, hphase, hfree,
          (procStep_effect hr').owned h.owned, Or.inl ⟨?_, hsame'⟩⟩
        rw [set_proc_self, set_proc_self, hproc']
      · -- it finds the report of the other, and stops
        push Not at hlook
        obtain ⟨rest, hpc, hne⟩ := hlook
        obtain ⟨-, hnone, f, hf, -⟩ := (hsame .report).resolve_left hne
        have hd' : attempt p (raws p) t.fs (t.proc p) = some ⟨t.fs, { t.proc p with pc := .checking rest }, none⟩ := by
          rw [hproc]
          simp [attempt, hpc, hnone]
        obtain ⟨r', hr'⟩ : ∃ r', procStep p (raws p) env t.fs (t.proc p) = some r' :=
          ⟨_, Option.map_eq_some_iff.2 ⟨_, hd', rfl⟩⟩
        refine ⟨t.set p r', Option.map_eq_some_iff.2 ⟨r', hr', rfl⟩, hphase, hfree,
          (procStep_effect hr').owned h.owned, Or.inr ?_⟩
        have hp := h.phase p
        rw [Phase, hpc] at hp
        have hcrash : r.2 = { s.proc p with pc := .crashed } := by
          simp only [procStep, attempt, hpc, hf, ne_eq, reduceCtorEq, not_false_eq_true, if_true, Option.map_some,
            Option.some.injEq] at hr
          rw [← hr]
          simp only [Proc.handle, hpc]
        rw [set_proc_self, hcrash]
        exact ⟨rfl, hp.1, hp.2.1⟩
    · simp only [procStep, attempt, hpc, Option.map_none] at hr
      cases hr
  | raw p killed =>
    simp only [Act.pid] at h hfree ⊢
    obtain ⟨r, hr, rfl⟩ := Option.map_eq_some_iff.1 hs
    rcases h.sim with ⟨hproc, hsame⟩ | ⟨-, -, hoff⟩
    · obtain ⟨r', hr', hproc', hsame'⟩ := rawStep_sameBut hsame hr
      rw [← hproc] at hr'
      refine ⟨t.set p r', Option.map_eq_some_iff.2 ⟨r', hr', rfl⟩, hphase, hfree, rawStep_owned h.owned hr',
        Or.inl ⟨?_, hsame'⟩⟩
      rw [set_proc_self, set_proc_self, hproc']
    · simp only [rawStep, hoff] at hr
      cases hr

/-- A step of the other without the reservation is none of its own. -/
theorem Solo.skip {raws : Pid → Bool} {a : Act} {s s' t : Sys} (h : Solo a.pid.other s t) (ho : Orderly a s)
    (hs : step raws a s = some s') (hfree : (s'.proc a.pid).reserved = false) : Solo a.pid.other s' t := by
  have hphase := step_phase ho h.phase hs
  have hsame : s'.proc a.pid.other = s.proc a.pid.other := step_other hs
  refine ⟨hphase, by simpa using hfree, h.owned, ?_⟩
  rw [hsame]
  refine h.sim.imp_left fun ⟨hproc, hbut⟩ => ⟨hproc, ?_⟩
  cases a with
  | op p env =>
    simp only [Act.pid] at *
    obtain ⟨r, hr, rfl⟩ := Option.map_eq_some_iff.1 hs
    have hno : (s.proc p).reserved = false := by simpa using h.free
    rw [set_proc_self] at hfree
    rcases procStep_unreserved (h.phase p) hr hfree with hkeep | ⟨hpc, kind, hput⟩
    · have hfs : (s.set p r).fs = s.fs := hkeep
      rw [hfs]
      exact hbut
    · have hfs : (s.set p r).fs = s.fs.put .report ((s.proc p).newFile p kind) := hput
      rw [hfs]
      refine hbut.other (by simp [Proc.newFile]) ?_
      rcases hbut .report with heq | ⟨-, hnone, -⟩
      · cases hf : t.fs .report with
        | none => rfl
        | some f => exact absurd (h.owned .report f hf) (ho.2.2 hno hpc f (heq ▸ hf))
      · exact hnone
  | raw p killed =>
    simp only [Act.pid] at *
    obtain ⟨r, hr, rfl⟩ := Option.map_eq_some_iff.1 hs
    rw [set_proc_self, (rawStep_phase (h.phase p) hr).2.1] at hfree
    cases hfree

/-- Only the written report leads to the end. -/
theorem attempt_ended {p : Pid} {raw : Bool} {fs : Fs} {pr : Proc} {d : Done} (hd : attempt p raw fs pr = some d)
    (he : d.proc.pc = .ended) : d.fs .report ≠ none := by
  cases attempt_cases hd with
  | writeReport => simp
  | raises x =>
    -- there is no operation at the end
    have hpc : pr.pc = .ended := he
    simp only [attempt, hpc] at hd
    cases hd
  | refused hpc => exact absurd (hpc.symm.trans he) (by simp)
  | writingSession | closing | closeBag | givingUp | renameDest =>
    simp only at he
    split_ifs at he
  | _ => cases he

theorem handle_ne_ended {pr : Proc} {x : Exn} : (pr.handle x).pc ≠ .ended := by
  unfold Proc.handle
  split <;> try simp
  all_goals split <;> simp

/-- An invocation that has ended has left a report. -/
theorem ended_report {raws : Pid → Bool} {fs : Fs} {l : List Act} {s : Sys} {p : Pid} (hl : ∀ a ∈ l, a.pid = p)
    (hr : run raws fs l = some s) : (s.proc p).pc = .ended → s.fs .report ≠ none := by
  have hrun : (∀ a ∈ l, a.pid = p) → (s.proc p).pc = .ended → s.fs .report ≠ none := by
    refine Machine.run_induction
      (P := fun l s => (∀ a ∈ l, a.pid = p) → (s.proc p).pc = .ended → s.fs .report ≠ none) ?_ ?_ hr
    · intro _ he
      cases he
    · intro l s a s' _ ih hs hmem he
      obtain rfl : a.pid = p := hmem a (by simp)
      have ih := ih fun b hb => hmem b (by simp [hb])
      cases a with
      | op p env =>
        obtain ⟨r, hr, rfl⟩ := Option.map_eq_some_iff.1 hs
        simp only [Act.pid, set_proc_self] at he
        obtain ⟨d, hd, ⟨x, -, rfl⟩ | ⟨x, -, -, rfl⟩ | ⟨x, -, -, rfl⟩ | ⟨-, -, rfl⟩⟩ := procStep_cases hr
        · exact absurd he handle_ne_ended
        · exact absurd he handle_ne_ended
        · exact absurd he handle_ne_ended
        · exact attempt_ended hd he
      | raw p killed =>
        obtain ⟨r, hr, rfl⟩ := Option.map_eq_some_iff.1 hs
        simp only [Act.pid, set_proc_self] at he ih
        obtain rfl | rfl | ⟨-, rfl⟩ := rawStep_cases hr
        all_goals exact ih he
  exact hrun hl

/-- A file that was there before keeps both from starting. -/
theorem untouched_run {raws : Pid → Bool} {fs : Fs} {l : List Act} {s : Sys} {q : Path} (hq : fs q ≠ none)
    (hr : run raws fs l = some s) : ∀ p, Untouched fs s.fs (s.proc p) := by
  refine Machine.run_invariant (P := fun s => ∀ p, Untouched fs s.fs (s.proc p)) ?_ ?_ hr
  · intro a s s' h hs
    have hstep : Untouched fs s'.fs (s'.proc a.pid) :=
      (alone_step (Or.inl (h a.pid)) hs).resolve_right fun hnone => hq (hnone.1 q)
    intro p
    by_cases hp : p = a.pid
    · rw [hp]
      exact hstep
    · obtain ⟨-, hres, hraw, hpc⟩ := h p
      rw [eq_other_of_ne hp, step_other hs, ← eq_other_of_ne hp]
      exact ⟨hstep.fs_eq, hres, hraw, hpc⟩
  · exact fun p => ⟨rfl, rfl, rfl, Or.inr ⟨checkedPaths, rfl, rfl, fun q => Or.inl (mem_checkedPaths q)⟩⟩

/-- Along orderly steps, at most one invocation holds the reservation. -/
theorem step_single {raws : Pid → Bool} {a : Act} {s s' : Sys} (ho : Orderly a s)
    (h : ∀ p, (s.proc p).reserved = true → (s.proc p.other).reserved = false) (hph : ∀ p, Phase (s.proc p))
    (hs : step raws a s = some s') : ∀ p, (s'.proc p).reserved = true → (s'.proc p.other).reserved = false := by
  have hother := step_other hs
  suffices hnew : (s'.proc a.pid).reserved = (s.proc a.pid).reserved ∨ (s.proc a.pid.other).reserved = false by
    intro p hp
    by_cases hpa : p = a.pid
    · subst hpa
      rw [hother]
      rcases hnew with hnew | hfree
      · exact h a.pid (hnew ▸ hp)
      · exact hfree
    · have hpo := eq_other_of_ne hpa
      subst hpo
      rw [hother] at hp
      rw [other_other]
      rcases hnew with hnew | hfree
      · rw [hnew]
        simpa using h a.pid.other hp
      · rw [hfree] at hp
        cases hp
  cases a with
  | op p env =>
    obtain ⟨r, hr, rfl⟩ := Option.map_eq_some_iff.1 hs
    simp only [Act.pid, set_proc_self]
    by_cases hfree : (s.proc p).pc = .reserving ∧ s.fs .active = none
    · exact Or.inr (ho.1 hfree.1 hfree.2)
    · obtain ⟨d, hd, hcases⟩ := procStep_cases hr
      have hd' : d.proc.reserved = (s.proc p).reserved := by
        rcases attempt_reserved hd with ⟨hd', -⟩ | ⟨hpc, hx, -, -⟩
        · exact hd'
        · have hne : s.fs .active ≠ none := fun hnone => hfree ⟨hpc, hnone⟩
          simp only [attempt, hpc, hne, ne_eq, not_false_eq_true, if_true, Option.some.injEq] at hd
          rw [← hd] at hx
          cases hx
      left
      obtain ⟨x, -, rfl⟩ | ⟨x, -, -, rfl⟩ | ⟨x, -, -, rfl⟩ | ⟨-, -, rfl⟩ := hcases
      · rw [handle_reserved]; exact hd'
      · rw [handle_reserved]; exact hd'
      · rw [handle_reserved]
      · exact hd'
  | raw p killed =>
    obtain ⟨r, hr, rfl⟩ := Option.map_eq_some_iff.1 hs
    obtain ⟨h1, h2, -⟩ := rawStep_phase (hph p) hr
    simp only [Act.pid, set_proc_self]
    exact Or.inl (h2.trans h1.symm)

/-- **The reservation is exclusive along orderly steps.** After every run whose steps are orderly, (1) an orderly step of
an invocation without the reservation leaves every file of the other where it is; and (2) an invocation with the
reservation is where it would be alone, with the same files but for a report of the other where it has none yet, and at
its end with the same files. -/
theorem reservation_exclusive (raws : Pid → Bool) (fs : Fs) (l : List Act) (s : Sys) (hr : run raws fs l = some s)
    (ho : Machine.Along (step raws) Orderly l { fs := fs }) :
    (∀ a s', Orderly a s → step raws a s = some s' → (s'.proc a.pid).reserved = false →
      ∀ q f, s.fs q = some f → f.owner = some a.pid.other → s'.fs q = some f) ∧
    (∀ p, (s.proc p).reserved = true → ∃ t, run raws fs (l.filter (·.pid = p)) = some t ∧ t.proc p = s.proc p ∧
      (∀ q, t.fs q = s.fs q ∨ t.fs q = none ∧ ∃ f, s.fs q = some f ∧ f.owner = some p.other) ∧
      ((s.proc p).pc = .ended → ∀ q, t.fs q = s.fs q)) := by
  have hinv : (∀ p, Phase (s.proc p)) ∧ ∀ p, (s.proc p).reserved = true → (s.proc p.other).reserved = false :=
    Machine.run_invariant_along (C := Orderly)
      (P := fun s => (∀ p, Phase (s.proc p)) ∧ ∀ p, (s.proc p).reserved = true → (s.proc p.other).reserved = false)
      (fun a s s' ho h hs => ⟨step_phase ho h.1 hs, step_single ho h.2 h.1 hs⟩)
      ⟨fun _ => phase_init, fun _ h => by cases h⟩ hr ho
  obtain ⟨hph, hsingle⟩ := hinv
  refine ⟨fun a s' ho hs hres q f hf hown => ?_, fun p hp => ?_⟩
  · cases a with
    | op p env =>
      obtain ⟨r, hr, rfl⟩ := Option.map_eq_some_iff.1 hs
      simp only [Act.pid, set_proc_self] at hres hown ho
      have hno : (s.proc p).reserved = false := by
        by_contra hyes
        have hkeep := procStep_reserved hr (by simpa using hyes)
        rw [hres] at hkeep
        cases hkeep
      rcases procStep_unreserved (hph p) hr hres with hkeep | ⟨hpc, kind, hput⟩
      · exact (congrFun hkeep q).trans hf
      · by_cases hq : q = .report
        · subst hq
          exact absurd hown (ho.2.2 hno hpc f hf)
        · have hget : r.1 q = s.fs q := by rw [hput]; simp [hq]
          exact hget.trans hf
    | raw p killed =>
      obtain ⟨r, hr, rfl⟩ := Option.map_eq_some_iff.1 hs
      simp only [Act.pid, set_proc_self, (rawStep_phase (hph p) hr).2.1] at hres
      cases hres
  · by_cases hnone : ∀ q, fs q = none
    · have hfree : Machine.Along (step raws) (fun a s => ∀ s', step raws a s = some s' → (s'.proc p.other).reserved = false)
          l { fs := fs } := by
        refine (Machine.along_of_end (Q := fun s => (s.proc p.other).reserved = false) ?_ hr (hsingle p hp)).2
        intro a s s' hs hfalse
        by_contra htrue
        rw [step_reserved hs (by simpa using htrue)] at hfalse
        cases hfalse
      obtain ⟨t, ht, hsolo⟩ := Machine.run_filter (R := Solo p)
        (C := fun a s => Orderly a s ∧ ∀ s', step raws a s = some s' → (s'.proc p.other).reserved = false) (·.pid = p)
        (fun a s s' t hk hc h hs => by
          obtain rfl : a.pid = p := by simpa using hk
          exact h.own hc.1 hs)
        (fun a s s' t hk hc h hs => by
          obtain rfl : p = a.pid.other := by
            have hne : a.pid ≠ p := by simpa using hk
            rw [eq_other_of_ne hne, other_other]
          exact h.skip hc.1 hs (by simpa using hc.2 s' hs))
        (s := { fs := fs }) (t := { fs := fs })
        ⟨fun _ => phase_init, rfl, fun q f hf => absurd hf (by simp [hnone q]), Or.inl ⟨rfl, fun _ => Or.inl rfl⟩⟩ hr
        (ho.and hfree)
      obtain ⟨hproc, hsame⟩ := hsolo.sim.resolve_right fun h => by rw [hp] at h; cases h.2.1
      refine ⟨t, ht, hproc, fun q => ?_, fun hend q => ?_⟩
      · rcases hsame q with heq | ⟨-, hnone, hf⟩
        · exact Or.inl heq
        · exact Or.inr ⟨hnone, hf⟩
      · rcases hsame q with heq | ⟨rfl, hnone, -⟩
        · exact heq
        · refine absurd hnone (ended_report (fun a ha => ?_) ht (hproc ▸ hend))
          simpa using List.of_mem_filter ha
    · push Not at hnone
      obtain ⟨q, hq⟩ := hnone
      rw [(untouched_run hq hr p).reserved] at hp
      cases hp

/-- Both pass the checks, the first reserves `.active` and the second is refused; the first renames its bag before the
second goes on, and reports after it. -/
def orderlyRun : List Act :=
  List.replicate 9 (.op .first {}) ++ List.replicate 9 (.op .second {}) ++ [.op .first {}, .op .second {}] ++
    List.replicate 9 (.op .first {}) ++ List.replicate 6 (.op .second {}) ++ List.replicate 2 (.op .first {})

theorem reservation_exclusive_orderly : ∃ s, run (fun _ => false) (fun _ => none) orderlyRun = some s ∧
    (s.proc .second).refused = true ∧ ∃ t, run (fun _ => false) (fun _ => none) (orderlyRun.filter (·.pid = .first)) = some t ∧
      ∀ q, t.fs q = s.fs q := by
  have h : (run (fun _ => false) (fun _ => none) orderlyRun).map
      (fun s => ((s.proc .first).pc, (s.proc .first).reserved, (s.proc .second).refused)) = some (.ended, true, true) := by
    decide
  obtain ⟨s, hs, heq⟩ := Option.map_eq_some_iff.1 h
  simp only [Prod.mk.injEq] at heq
  obtain ⟨hpc, hres, href⟩ := heq
  have ho : Machine.Along (step fun _ => false) Orderly orderlyRun { fs := fun _ => none } :=
    Machine.along_of_check (by decide)
  obtain ⟨t, ht, -, -, hend⟩ := (reservation_exclusive (fun _ => false) (fun _ => none) orderlyRun s hs ho).2 .first hres
  exact ⟨s, hs, href, t, ht, hend hpc⟩

/-- Both pass the checks, the first reserves `.active` and opens its bag, and the second goes on. -/
def contendingRun : List Act :=
  List.replicate 9 (.op .first {}) ++ List.replicate 9 (.op .second {}) ++ List.replicate 2 (.op .first {}) ++
    List.replicate 5 (.op .second {})

/-- **The reservation does not protect the bag**: the invocation that is refused renames the `.active` of the other, which
then ends without a final bag, where alone it has one. -/
theorem reservation_broken :
    (∃ s s' f, run (fun _ => false) (fun _ => none) contendingRun = some s ∧
      step (fun _ => false) (.op .second {}) s = some s' ∧ (s'.proc .second).reserved = false ∧
      (s'.proc .second).refused = true ∧ s.fs .active = some f ∧ f.owner = some .first ∧ s'.fs .active = none ∧
      s'.fs .partialBag = some f) ∧
    (∃ s t, run (fun _ => false) (fun _ => none)
        (contendingRun ++ List.replicate 1 (.op .second {}) ++ List.replicate 9 (.op .first {})) = some s ∧
      (s.proc .first).reserved = true ∧ (s.proc .first).pc = .ended ∧ s.fs .dest = none ∧
      run (fun _ => false) (fun _ => none) (List.replicate 21 (.op .first {})) = some t ∧ (t.proc .first).pc = .ended ∧
      t.fs .dest = some ⟨some .first, 1, .core⟩) := by
  constructor
  · have h : (run (fun _ => false) (fun _ => none) contendingRun).map (·.fs .active) =
        some (some ⟨some .first, 1, .core⟩) := by decide
    have h' : (run (fun _ => false) (fun _ => none) (contendingRun ++ [.op .second {}])).map (fun s =>
        ((s.proc .second).reserved, (s.proc .second).refused, s.fs .active, s.fs .partialBag)) =
        some (false, true, none, some ⟨some .first, 1, .core⟩) := by decide
    obtain ⟨s', hr', heq⟩ := Option.map_eq_some_iff.1 h'
    obtain ⟨s, hr, hs⟩ := Machine.run_snoc.1 hr'
    have hr : run (fun _ => false) (fun _ => none) contendingRun = some s := hr
    rw [hr] at h
    simp only [Prod.mk.injEq] at heq
    exact ⟨s, s', _, hr, hs, heq.1, heq.2.1, by simpa using h, rfl, heq.2.2.1, heq.2.2.2⟩
  · have h : (run (fun _ => false) (fun _ => none)
        (contendingRun ++ List.replicate 1 (.op .second {}) ++ List.replicate 9 (.op .first {}))).map
        (fun s => ((s.proc .first).reserved, (s.proc .first).pc, s.fs .dest)) = some (true, .ended, none) := by decide
    have h' : (run (fun _ => false) (fun _ => none) (List.replicate 21 (.op .first {}))).map
        (fun s => ((s.proc .first).pc, s.fs .dest)) = some (.ended, some ⟨some .first, 1, .core⟩) := by decide
    obtain ⟨s, hs, heq⟩ := Option.map_eq_some_iff.1 h
    obtain ⟨t, ht, heq'⟩ := Option.map_eq_some_iff.1 h'
    simp only [Prod.mk.injEq] at heq heq'
    exact ⟨s, t, hs, heq.1, heq.2.1, heq.2.2, ht, heq'.1, heq'.2⟩

end Agilex.Capture.RecordFiles
