import Agilex.Capture.RecordFiles

/-!
# Publication of a recording

One invocation on its output name, alone: whatever operation raises and wherever the process dies, the files it leaves are
consistent (`publication_safe`). `Layout` says for every step of `record` which files there are; every operation keeps it,
whether it takes effect (`layout_ok`), raises at once (`layout_handle`), or raises after it has taken effect
(`layout_late`).
-/

namespace Agilex.Capture.RecordFiles

open Agilex.Lib
open RecordQueue (Exn Status)

/-! ## Which files there are -/

/-- The path holds recorded core data. -/
def CoreAt (fs : Fs) (q : Path) : Prop := ∃ f, fs q = some f ∧ f.holdsCore = true

theorem CoreAt.put {fs : Fs} {q : Path} {f : File} (hf : f.holdsCore = true) : CoreAt (fs.put q f) q :=
  ⟨f, by simp, hf⟩

/-- Up to the renames: the core data is in `.active`, and nothing has been published. -/
structure Writing (fs : Fs) (pr : Proc) : Prop where
  dest : fs .dest = none
  partialBag : fs .partialBag = none
  report : fs .report = none
  core : pr.reserved = true → CoreAt fs .active
  reserved : pr.error = none → pr.reserved = true

/-- The candidate is the file `check_bag` has accepted. -/
def Accepted (fs : Fs) (pr : Proc) : Prop :=
  ∃ f, fs pr.candidate = some f ∧ f.holdsCore = true ∧ pr.checked = some f

/-- The final bag is the file `check_bag` has accepted, and there is no error. -/
def Published (fs : Fs) (pr : Proc) : Prop :=
  ∃ f, fs .dest = some f ∧ f.holdsCore = true ∧ pr.checked = some f ∧ pr.error = none

/-- There is no final bag, and the core data is in `.active` or `.partial`. -/
def Kept (fs : Fs) (pr : Proc) : Prop :=
  fs .dest = none ∧ (pr.reserved = true → CoreAt fs .active ∨ CoreAt fs .partialBag)

/-- A report that says PASS has a final bag. -/
def PassPublished (fs : Fs) : Prop := fs .dest = none → ∀ f, fs .report = some f → f.kind ≠ .report (some .pass)

/-- Which files there are at each step, after the checks. -/
def Layout (fs : Fs) (pr : Proc) : Prop :=
  match pr.pc with
  | .checking _ => False
  | .reserving => pr.reserved = false ∧ pr.error = none ∧ fs .dest = none ∧ fs .partialBag = none ∧ fs .report = none
  | .openingBag | .writingSession | .rawCheck _ | .openLog | .popen | .recording => Writing fs pr ∧ pr.error = none
  | .closing | .stopRaw | .lastWrites | .closeBag => Writing fs pr
  | .space | .mergeCheck | .mergeOpen | .mergeWrite => Writing fs pr ∧ pr.error = none ∧ pr.raw = true
  | .check => Writing fs pr ∧ pr.error = none ∧ CoreAt fs pr.candidate
  | .publishing => Writing fs pr ∧ (pr.error = none → Accepted fs pr)
  | .renamePartial => Writing fs pr ∧ pr.summary = .incomplete
  | .renameDest => Writing fs pr ∧ pr.error = none ∧ Accepted fs pr
  | .unlinkActive | .unlinkRaw | .unlinkLog => Published fs pr ∧ fs .report = none
  | .openReport | .writeReport => (Published fs pr ∨ Kept fs pr ∧ pr.summary = .incomplete) ∧ PassPublished fs
  | .ended | .crashed => (Published fs pr ∨ Kept fs pr) ∧ PassPublished fs

theorem passPublished_of_none {fs : Fs} (h : fs .report = none) : PassPublished fs := by
  intro _ f hf
  rw [h] at hf
  cases hf

theorem Published.passPublished {fs : Fs} {pr : Proc} (h : Published fs pr) : PassPublished fs := by
  obtain ⟨f, hf, -⟩ := h
  intro hd
  rw [hf] at hd
  cases hd

theorem Kept.crashed {fs : Fs} {pr pr' : Proc} (h : Kept fs pr) (hp : PassPublished fs) (hpc : pr'.pc = .crashed)
    (hr : pr'.reserved = pr.reserved) : Layout fs pr' := by
  simp only [Layout, hpc]
  exact ⟨Or.inr ⟨h.1, fun hres => h.2 (hr ▸ hres)⟩, hp⟩

theorem Published.crashed {fs : Fs} {pr pr' : Proc} (h : Published fs pr) (hpc : pr'.pc = .crashed)
    (hc : pr'.checked = pr.checked) (he : pr'.error = pr.error) : Layout fs pr' := by
  simp only [Layout, hpc]
  obtain ⟨f, hf, hcore, hck, herr⟩ := h
  refine ⟨Or.inl ⟨f, hf, hcore, hc.trans hck, he.trans herr⟩, ?_⟩
  intro hd
  rw [hf] at hd
  cases hd

theorem Writing.kept {fs : Fs} {pr : Proc} (h : Writing fs pr) : Kept fs pr := ⟨h.dest, fun hr => Or.inl (h.core hr)⟩

theorem Writing.crashed {fs : Fs} {pr pr' : Proc} (h : Writing fs pr) (hpc : pr'.pc = .crashed)
    (hr : pr'.reserved = pr.reserved) : Layout fs pr' :=
  h.kept.crashed (passPublished_of_none h.report) hpc hr

/-- The files of the raw recorder and of the merge are not the ones that are written. -/
theorem Writing.put {fs : Fs} {pr pr' : Proc} {q : Path} {f : File} (h : Writing fs pr)
    (hq : q = .rawLog ∨ q = .rawActive ∨ q = .mergeActive) (hr : pr'.reserved = pr.reserved) (he : pr'.error = pr.error) :
    Writing (fs.put q f) pr' := by
  have hput : ∀ q', q' ≠ .rawLog → q' ≠ .rawActive → q' ≠ .mergeActive → (fs.put q f) q' = fs q' := by
    intro q' h1 h2 h3
    rcases hq with rfl | rfl | rfl <;> simp [*]
  refine ⟨?_, ?_, ?_, ?_, ?_⟩
  · rw [hput _ (by decide) (by decide) (by decide)]; exact h.dest
  · rw [hput _ (by decide) (by decide) (by decide)]; exact h.partialBag
  · rw [hput _ (by decide) (by decide) (by decide)]; exact h.report
  · intro hres
    obtain ⟨g, hg, hcore⟩ := h.core (hr ▸ hres)
    exact ⟨g, by rw [hput _ (by decide) (by decide) (by decide)]; exact hg, hcore⟩
  · intro hnone
    exact hr.trans (h.reserved (he ▸ hnone))

/-- The bag is written to `.active`. -/
theorem Writing.active {fs : Fs} {pr' : Proc} {f : File} (hd : fs .dest = none) (hp : fs .partialBag = none)
    (hrep : fs .report = none) (hf : f.holdsCore = true) (hr : pr'.error = none → pr'.reserved = true) :
    Writing (fs.put .active f) pr' :=
  ⟨by simpa using hd, by simpa using hp, by simpa using hrep, fun _ => CoreAt.put hf, hr⟩

/-- What is written depends on the error and the reservation only. -/
theorem Writing.of_eq {fs : Fs} {pr pr' : Proc} (h : Writing fs pr) (hr : pr'.reserved = pr.reserved)
    (he : pr'.error = pr.error) : Writing fs pr' :=
  ⟨h.dest, h.partialBag, h.report, fun hres => h.core (hr ▸ hres), fun hnone => hr.trans (h.reserved (he ▸ hnone))⟩

/-- An error does not change what is written. -/
theorem Writing.error {fs : Fs} {pr pr' : Proc} (h : Writing fs pr) (he : pr'.error ≠ none)
    (hr : pr'.reserved = pr.reserved) : Writing fs pr' :=
  ⟨h.dest, h.partialBag, h.report, fun hres => h.core (hr ▸ hres), fun hnone => absurd hnone he⟩

theorem orError_ne (pr : Proc) (text : String) : (pr.orError text).error ≠ none := by
  unfold Proc.orError Proc.failed
  cases h : pr.error with
  | none => simp
  | some e =>
    simp only [Option.any_some, ne_eq]
    split <;> simp

/-- **An exception keeps the layout.** -/
theorem layout_handle {fs : Fs} {pr : Proc} (h : Layout fs pr) (x : Exn) : Layout fs (pr.handle x) := by
  unfold Layout at h
  cases hpc : pr.pc with
  | checking rest => rw [hpc] at h; exact h.elim
  | reserving =>
    rw [hpc] at h
    obtain ⟨hr, -, hd, hp, hrep⟩ := h
    simp only [Proc.handle, hpc, Layout]
    exact ⟨hd, hp, hrep, fun hres => absurd hres (by simp [hr]), fun he => absurd he (by simp)⟩
  | openingBag | writingSession | rawCheck rest | openLog | popen | recording =>
    rw [hpc] at h
    simp only [Proc.handle, hpc, Layout]
    exact h.1.error (by simp) rfl
  | closing =>
    rw [hpc] at h
    simp only [Proc.handle, hpc]
    exact h.crashed rfl rfl
  | stopRaw | lastWrites =>
    rw [hpc] at h
    simp only [Proc.handle, hpc, Layout]
    exact h.error (orError_ne pr x.text) rfl
  | closeBag =>
    rw [hpc] at h
    simp only [Proc.handle, hpc]
    split
    · simp only [Layout]
      exact ⟨h.error (orError_ne pr x.text) rfl, fun he => absurd he (orError_ne pr x.text)⟩
    · exact h.crashed rfl rfl
  | space | mergeCheck | mergeOpen | mergeWrite | check =>
    rw [hpc] at h
    simp only [Proc.handle, hpc]
    split
    · simp only [Layout]
      exact ⟨h.1.error (by simp) rfl, fun he => absurd he (by simp)⟩
    · exact h.1.crashed rfl rfl
  | publishing | renamePartial | renameDest =>
    rw [hpc] at h
    simp only [Proc.handle, hpc]
    exact h.1.crashed rfl rfl
  | unlinkActive | unlinkRaw | unlinkLog =>
    rw [hpc] at h
    simp only [Proc.handle, hpc]
    exact h.1.crashed rfl rfl rfl
  | openReport | writeReport =>
    rw [hpc] at h
    simp only [Proc.handle, hpc]
    rcases h with ⟨hpub | hkept, hpass⟩
    · exact hpub.crashed rfl rfl rfl
    · exact hkept.1.crashed hpass rfl rfl
  | ended | crashed =>
    rw [hpc] at h
    simp only [Proc.handle, hpc]
    rcases h with ⟨hpub | hkept, hpass⟩
    · exact hpub.crashed rfl rfl rfl
    · exact hkept.crashed hpass rfl rfl

theorem newFile_holdsCore (pr : Proc) (p : Pid) : (pr.newFile p .core).holdsCore = true := rfl

/-- Published and kept recordings do not depend on what follows the renames. -/
theorem Published.of_eq {fs fs' : Fs} {pr pr' : Proc} (h : Published fs pr) (hfs : fs' .dest = fs .dest)
    (hc : pr'.checked = pr.checked) (he : pr'.error = pr.error) : Published fs' pr' := by
  obtain ⟨f, hf, hcore, hck, herr⟩ := h
  exact ⟨f, hfs.trans hf, hcore, hc.trans hck, he.trans herr⟩

theorem Kept.of_eq {fs fs' : Fs} {pr pr' : Proc} (h : Kept fs pr) (hdest : fs' .dest = fs .dest)
    (ha : fs' .active = fs .active) (hp : fs' .partialBag = fs .partialBag) (hr : pr'.reserved = pr.reserved) :
    Kept fs' pr' := by
  refine ⟨hdest.trans h.1, fun hres => ?_⟩
  unfold CoreAt
  rw [ha, hp]
  exact h.2 (hr ▸ hres)

theorem Published.crashed_of_eq {fs fs' : Fs} {pr pr' : Proc} (h : Published fs pr) (hfs : fs' .dest = fs .dest)
    (hpc : pr'.pc = .crashed) (hc : pr'.checked = pr.checked) (he : pr'.error = pr.error) : Layout fs' pr' :=
  (h.of_eq hfs rfl rfl).crashed hpc hc he

theorem Kept.crashed_of_eq {fs fs' : Fs} {pr pr' : Proc} (h : Kept fs pr) (hp : PassPublished fs')
    (hdest : fs' .dest = fs .dest) (ha : fs' .active = fs .active) (hpart : fs' .partialBag = fs .partialBag)
    (hpc : pr'.pc = .crashed) (hr : pr'.reserved = pr.reserved) : Layout fs' pr' :=
  (h.of_eq hdest ha hpart rfl).crashed hp hpc hr

/-- A new report is no PASS, unless the recording has been published. -/
theorem PassPublished.put {fs : Fs} {f : File} (hf : fs .dest = none → f.kind ≠ .report (some .pass)) :
    PassPublished (fs.put .report f) := by
  intro hd g hg
  obtain rfl : f = g := by simpa using hg
  exact hf (by simpa using hd)

/-- The renames at the end. -/
theorem Writing.published {fs : Fs} {pr : Proc} (h : Writing fs pr) (ha : Accepted fs pr) (he : pr.error = none) :
    Published (fs.move pr.candidate .dest) pr ∧ (fs.move pr.candidate .dest) .report = none := by
  obtain ⟨f, hf, hcore, hck⟩ := ha
  refine ⟨⟨f, by simpa using hf, hcore, hck, he⟩, ?_⟩
  have hrep := h.report
  simp [hrep]

theorem Writing.partial_kept {fs : Fs} {pr : Proc} (h : Writing fs pr) :
    Kept (fs.move .active .partialBag) pr ∧ PassPublished (fs.move .active .partialBag) := by
  refine ⟨⟨by simpa using h.dest, fun hres => Or.inr ?_⟩, passPublished_of_none (by simpa using h.report)⟩
  obtain ⟨f, hf, hcore⟩ := h.core hres
  exact ⟨f, by simpa using hf, hcore⟩

/-- **An operation that takes effect keeps the layout.** -/
theorem layout_ok {p : Pid} {raw : Bool} {fs : Fs} {pr : Proc} {d : Done} (h : Layout fs pr)
    (hd : attempt p raw fs pr = some d) : Layout d.fs d.proc := by
  have hpr := h
  unfold Layout at h
  cases attempt_cases hd with
  | raises x => exact hpr
  | refused hpc =>
    rw [hpc] at h
    simp only [Layout, hpc]
    exact h
  | checked hpc | checking q rest hpc => rw [hpc] at h; exact h.elim
  | reserving hpc =>
    rw [hpc] at h
    obtain ⟨-, he, hdest, hp, hrep⟩ := h
    exact ⟨Writing.active hdest hp hrep (newFile_holdsCore pr p) (fun _ => rfl), he⟩
  | openingBag hpc =>
    rw [hpc] at h
    exact ⟨Writing.active h.1.dest h.1.partialBag h.1.report (newFile_holdsCore pr p) h.1.reserved, h.2⟩
  | writingSession hpc =>
    rw [hpc] at h
    cases raw <;> exact ⟨h.1.of_eq rfl rfl, h.2⟩
  | rawChecked hpc | rawCheck q rest hpc | popen hpc | space hpc | mergeCheck hpc =>
    rw [hpc] at h
    exact ⟨h.1.of_eq rfl rfl, h.2⟩
  | openLog hpc =>
    rw [hpc] at h
    exact ⟨h.1.put (Or.inl rfl) rfl rfl, h.2⟩
  | recording hpc =>
    rw [hpc] at h
    exact h.1.of_eq rfl rfl
  | closing hpc =>
    rw [hpc] at h
    cases pr.raw <;> exact h.of_eq rfl rfl
  | stopRaw hpc | lastWrites hpc =>
    rw [hpc] at h
    exact h.of_eq rfl rfl
  | closeBag hpc =>
    rw [hpc] at h
    by_cases he : pr.error = none
    · rw [if_neg (not_not.2 he)]
      by_cases hraw : pr.raw = true
      · rw [if_pos hraw]
        exact ⟨h.of_eq rfl rfl, he, hraw⟩
      · rw [if_neg hraw]
        have hcand : pr.candidate = .active := by simp [Proc.candidate, hraw]
        have hcore := h.core (h.reserved he)
        rw [← hcand] at hcore
        exact ⟨h.of_eq rfl rfl, he, hcore⟩
    · rw [if_pos he]
      exact ⟨h.of_eq rfl rfl, fun hnone => absurd hnone he⟩
  | mergeOpen hpc =>
    rw [hpc] at h
    exact ⟨h.1.put (Or.inr (Or.inr rfl)) rfl rfl, h.2⟩
  | mergeWrite hpc core hcore =>
    rw [hpc] at h
    obtain ⟨hw, he, hraw⟩ := h
    obtain ⟨f, hf, hholds⟩ := hw.core (hw.reserved he)
    obtain rfl : core = f := Option.some.inj (hcore.symm.trans hf)
    have hcand : (pr.create .check).candidate = .mergeActive := by simp [Proc.candidate, Proc.create, hraw]
    refine ⟨hw.put (Or.inr (Or.inr rfl)) rfl rfl, he, ?_⟩
    rw [hcand]
    exact CoreAt.put (by rw [hholds]; rfl)
  | check hpc =>
    rw [hpc] at h
    obtain ⟨hw, he, f, hf, hcore⟩ := h
    exact ⟨hw.of_eq rfl rfl, fun _ => ⟨f, hf, hcore, hf⟩⟩
  | givingUp hpc =>
    rw [hpc] at h
    by_cases ha : fs .active = none
    · rw [if_neg (not_not.2 ha)]
      exact ⟨Or.inr ⟨h.1.kept, rfl⟩, passPublished_of_none h.1.report⟩
    · rw [if_pos ha]
      exact ⟨h.1.of_eq rfl rfl, rfl⟩
  | publishing hpc he =>
    rw [hpc] at h
    exact ⟨h.1.of_eq rfl rfl, he, h.2 he⟩
  | renamePartial hpc =>
    rw [hpc] at h
    exact ⟨Or.inr ⟨h.1.partial_kept.1, h.2⟩, h.1.partial_kept.2⟩
  | renameDest hpc =>
    rw [hpc] at h
    obtain ⟨hw, he, ha⟩ := h
    have hpub := hw.published ha he
    by_cases hraw : pr.raw = true
    · rw [if_pos hraw]
      exact ⟨hpub.1.of_eq rfl rfl rfl, hpub.2⟩
    · rw [if_neg hraw]
      exact ⟨Or.inl (hpub.1.of_eq rfl rfl rfl), hpub.1.passPublished⟩
  | unlinkActive hpc | unlinkRaw hpc =>
    rw [hpc] at h
    exact ⟨h.1.of_eq rfl rfl rfl, h.2⟩
  | unlinkLog hpc =>
    rw [hpc] at h
    have hpub : Published (fs.remove .rawLog) { pr with pc := .openReport } := h.1.of_eq rfl rfl rfl
    exact ⟨Or.inl hpub, hpub.passPublished⟩
  | openReport hpc =>
    rw [hpc] at h
    refine ⟨?_, PassPublished.put fun _ => by simp [Proc.newFile]⟩
    rcases h.1 with hpub | ⟨hkept, hsum⟩
    · exact Or.inl (hpub.of_eq rfl rfl rfl)
    · exact Or.inr ⟨hkept.of_eq rfl rfl rfl rfl, hsum⟩
  | writeReport hpc =>
    rw [hpc] at h
    rcases h.1 with hpub | ⟨hkept, hsum⟩
    · have hpub' : Published (fs.put .report (pr.newFile p (.report (some pr.summary)))) (pr.create .ended) :=
        hpub.of_eq rfl rfl rfl
      exact ⟨Or.inl hpub', hpub'.passPublished⟩
    · refine ⟨Or.inr (hkept.of_eq rfl rfl rfl rfl), PassPublished.put fun _ => ?_⟩
      simp [Proc.newFile, hsum]

/-! ## Exceptions after the effect, and the raw recorder -/

/-- Two states with the same files, but for those of the raw recorder. -/
structure SameCore (fs fs' : Fs) : Prop where
  dest : fs' .dest = fs .dest
  active : fs' .active = fs .active
  partialBag : fs' .partialBag = fs .partialBag
  report : fs' .report = fs .report
  mergeActive : fs' .mergeActive = fs .mergeActive

theorem SameCore.refl (fs : Fs) : SameCore fs fs := ⟨rfl, rfl, rfl, rfl, rfl⟩

theorem SameCore.writing {fs fs' : Fs} {pr pr' : Proc} (hs : SameCore fs fs') (h : Writing fs pr)
    (hr : pr'.reserved = pr.reserved) (he : pr'.error = pr.error) : Writing fs' pr' := by
  refine ⟨hs.dest.trans h.dest, hs.partialBag.trans h.partialBag, hs.report.trans h.report, ?_, ?_⟩
  · intro hres
    unfold CoreAt
    rw [hs.active]
    exact h.core (hr ▸ hres)
  · exact fun hnone => hr.trans (h.reserved (he ▸ hnone))

theorem SameCore.candidate {fs fs' : Fs} (hs : SameCore fs fs') (pr : Proc) : fs' pr.candidate = fs pr.candidate := by
  unfold Proc.candidate
  split
  · exact hs.mergeActive
  · exact hs.active

theorem SameCore.passPublished {fs fs' : Fs} (hs : SameCore fs fs') (h : PassPublished fs) : PassPublished fs' := by
  intro hd f hf
  exact h (hs.dest ▸ hd) f (hs.report ▸ hf)

/-- The layout depends on the core files, and not on the raw recorder. -/
theorem SameCore.layout {fs fs' : Fs} {pr : Proc} {created : ℕ} {rawProc : RawProc} (hs : SameCore fs fs')
    (h : Layout fs pr) : Layout fs' { pr with created := created, rawProc := rawProc } := by
  unfold Layout at h ⊢
  cases hpc : pr.pc with
  | checking rest => rw [hpc] at h; exact h
  | reserving =>
    rw [hpc] at h
    obtain ⟨hr, he, hd, hp, hrep⟩ := h
    exact ⟨hr, he, hs.dest.trans hd, hs.partialBag.trans hp, hs.report.trans hrep⟩
  | openingBag | writingSession | rawCheck rest | openLog | popen | recording | space | mergeCheck | mergeOpen
  | mergeWrite | renamePartial => rw [hpc] at h; exact ⟨hs.writing h.1 rfl rfl, h.2⟩
  | closing | stopRaw | lastWrites | closeBag => rw [hpc] at h; exact hs.writing h rfl rfl
  | check =>
    rw [hpc] at h
    obtain ⟨hwr, he, f, hf, hcore⟩ := h
    exact ⟨hs.writing hwr rfl rfl, he, f, (hs.candidate pr).trans hf, hcore⟩
  | publishing =>
    rw [hpc] at h
    refine ⟨hs.writing h.1 rfl rfl, fun he => ?_⟩
    obtain ⟨f, hf, hcore⟩ := h.2 he
    exact ⟨f, (hs.candidate pr).trans hf, hcore⟩
  | renameDest =>
    rw [hpc] at h
    obtain ⟨hwr, he, f, hf, hcore⟩ := h
    exact ⟨hs.writing hwr rfl rfl, he, f, (hs.candidate pr).trans hf, hcore⟩
  | unlinkActive | unlinkRaw | unlinkLog => rw [hpc] at h; exact ⟨h.1.of_eq hs.dest rfl rfl, hs.report.trans h.2⟩
  | openReport | writeReport =>
    rw [hpc] at h
    exact ⟨h.1.imp (·.of_eq hs.dest rfl rfl) (And.imp_left (·.of_eq hs.dest hs.active hs.partialBag rfl)), hs.passPublished h.2⟩
  | ended | crashed =>
    rw [hpc] at h
    exact ⟨h.1.imp (·.of_eq hs.dest rfl rfl) (·.of_eq hs.dest hs.active hs.partialBag rfl), hs.passPublished h.2⟩

/-- **An exception that an operation raises after it has taken effect keeps the layout.** -/
theorem layout_late {p : Pid} {raw : Bool} {fs : Fs} {pr : Proc} {d : Done} (h : Layout fs pr)
    (hd : attempt p raw fs pr = some d) (hx : d.exn = none) (x : Exn) :
    Layout d.fs ({ pr with created := d.proc.created, reserved := d.proc.reserved, rawProc := d.proc.rawProc }.handle x) := by
  -- most operations leave the core files as they are
  have hkeep : ∀ {rp c}, d.proc.reserved = pr.reserved → SameCore fs d.fs →
      Layout d.fs ({ pr with created := c, reserved := d.proc.reserved, rawProc := rp }.handle x) := by
    intro rp c hr hs
    rw [hr]
    exact layout_handle (hs.layout h) x
  unfold Layout at h
  cases attempt_cases hd with
  | raises | refused => cases hx
  | checked hpc | checking q rest hpc => rw [hpc] at h; exact h.elim
  | reserving hpc =>
    rw [hpc] at h
    obtain ⟨-, -, hdest, hp, hrep⟩ := h
    simp only [Proc.handle, Proc.create, hpc, Layout]
    exact Writing.active hdest hp hrep (newFile_holdsCore pr p) (fun _ => rfl)
  | openingBag hpc =>
    rw [hpc] at h
    refine layout_handle ?_ x
    simp only [Layout, Proc.create, hpc]
    exact ⟨Writing.active h.1.dest h.1.partialBag h.1.report (newFile_holdsCore pr p) h.1.reserved, h.2⟩
  | mergeOpen hpc | mergeWrite hpc =>
    rw [hpc] at h
    refine layout_handle ?_ x
    simp only [Layout, Proc.create, hpc]
    exact ⟨h.1.put (Or.inr (Or.inr rfl)) rfl rfl, h.2⟩
  | unlinkActive hpc =>
    rw [hpc] at h
    simp only [Proc.handle, hpc]
    exact h.1.crashed_of_eq rfl rfl rfl rfl
  | renamePartial hpc =>
    rw [hpc] at h
    simp only [Proc.handle, hpc]
    exact h.1.partial_kept.1.crashed h.1.partial_kept.2 rfl rfl
  | renameDest hpc =>
    rw [hpc] at h
    simp only [Proc.handle, hpc]
    exact (h.1.published h.2.2 h.2.1).1.crashed rfl rfl rfl
  | openReport hpc =>
    rw [hpc] at h
    simp only [Proc.handle, hpc]
    have hpass : PassPublished (fs.put .report (pr.newFile p (.report none))) :=
      PassPublished.put fun _ => by simp [Proc.newFile]
    rcases h.1 with hpub | ⟨hkept, -⟩
    · exact hpub.crashed_of_eq rfl rfl rfl rfl
    · exact hkept.crashed_of_eq hpass rfl rfl rfl rfl rfl
  | writeReport hpc =>
    rw [hpc] at h
    simp only [Proc.handle, hpc]
    rcases h.1 with hpub | ⟨hkept, hsum⟩
    · exact hpub.crashed_of_eq rfl rfl rfl rfl
    · refine hkept.crashed_of_eq (PassPublished.put fun _ => ?_) rfl rfl rfl rfl rfl
      simp [Proc.newFile, hsum]
  | _ => exact hkeep rfl ⟨rfl, rfl, rfl, rfl, rfl⟩

/-- A step of an invocation keeps the layout. -/
theorem layout_procStep {p : Pid} {raw : Bool} {env : Env} {fs : Fs} {pr : Proc} {r : Fs × Proc} (h : Layout fs pr)
    (hr : procStep p raw env fs pr = some r) : Layout r.1 r.2 := by
  obtain ⟨d, hd, ⟨x, -, rfl⟩ | ⟨x, hx, -, rfl⟩ | ⟨x, -, -, rfl⟩ | ⟨-, -, rfl⟩⟩ := procStep_cases hr
  · exact layout_handle (layout_ok h hd) x
  · exact layout_late h hd hx x
  · exact layout_handle h x
  · exact layout_ok h hd

/-- A step of the raw recorder keeps the layout. -/
theorem layout_rawStep {p : Pid} {killed : Bool} {fs : Fs} {pr : Proc} {r : Fs × Proc} (h : Layout fs pr)
    (hr : rawStep p killed fs pr = some r) : Layout r.1 r.2 := by
  obtain rfl | rfl | ⟨-, rfl⟩ := rawStep_cases hr
  · have hs : SameCore fs (fs.put .rawActive (pr.newFile p .raw)) := ⟨rfl, rfl, rfl, rfl, rfl⟩
    exact hs.layout h
  · exact (SameCore.refl fs).layout h
  · have hs : SameCore fs (fs.move .rawActive .rawBag) := ⟨rfl, rfl, rfl, rfl, rfl⟩
    exact hs.layout h

/-! ## Runs of one invocation -/

/-- The recording has been published, or what is recorded has been kept. -/
theorem Layout.published_or_kept {fs : Fs} {pr : Proc} (h : Layout fs pr) :
    (Published fs pr ∨ Kept fs pr) ∧ PassPublished fs := by
  unfold Layout at h
  cases hpc : pr.pc with
  | checking rest => rw [hpc] at h; exact h.elim
  | reserving =>
    rw [hpc] at h
    obtain ⟨hr, -, hd, -, hrep⟩ := h
    exact ⟨Or.inr ⟨hd, fun hres => absurd hres (by simp [hr])⟩, passPublished_of_none hrep⟩
  | openingBag | writingSession | rawCheck rest | openLog | popen | recording | space | mergeCheck | mergeOpen
  | mergeWrite | check | publishing | renamePartial | renameDest =>
    rw [hpc] at h
    exact ⟨Or.inr h.1.kept, passPublished_of_none h.1.report⟩
  | closing | stopRaw | lastWrites | closeBag =>
    rw [hpc] at h
    exact ⟨Or.inr h.kept, passPublished_of_none h.report⟩
  | unlinkActive | unlinkRaw | unlinkLog => rw [hpc] at h; exact ⟨Or.inl h.1, h.1.passPublished⟩
  | openReport | writeReport => rw [hpc] at h; exact ⟨h.1.imp_right And.left, h.2⟩
  | ended | crashed => rw [hpc] at h; exact h

/-- Before the checks are over, and after a refusal: the files are as they were. -/
structure Untouched (fs₀ : Fs) (fs : Fs) (pr : Proc) : Prop where
  fs_eq : fs = fs₀
  reserved : pr.reserved = false
  rawProc : pr.rawProc = .off
  pc : pr.pc = .crashed ∨ ∃ rest, pr.pc = .checking rest ∧ pr.error = none ∧ ∀ q, q ∈ rest ∨ fs₀ q = none

/-- The state of the only invocation: nothing has happened yet, or there were no files before. -/
def Alone (fs₀ : Fs) (fs : Fs) (pr : Proc) : Prop := Untouched fs₀ fs pr ∨ (∀ q, fs₀ q = none) ∧ Layout fs pr

theorem Untouched.procStep {p : Pid} {raw : Bool} {env : Env} {fs₀ fs : Fs} {pr : Proc} {r : Fs × Proc}
    (h : Untouched fs₀ fs pr) (hr : procStep p raw env fs pr = some r) : Alone fs₀ r.1 r.2 := by
  obtain ⟨d, hd, hcases⟩ := procStep_cases hr
  obtain ⟨rfl, hres, hraw, hpc | ⟨rest, hpc, he, hrest⟩⟩ := h
  · simp only [attempt, hpc] at hd
    cases hd
  · have hcrash : ∀ x, Untouched fs fs (pr.handle x) := fun x => by
      simp only [Proc.handle, hpc]
      exact ⟨rfl, hres, hraw, Or.inl rfl⟩
    cases rest with
    | nil =>
      simp only [attempt, hpc] at hd
      cases hd
      obtain ⟨x, hx, -⟩ | ⟨x, -, -, rfl⟩ | ⟨x, -, -, rfl⟩ | ⟨-, -, rfl⟩ := hcases
      · cases hx
      · exact Or.inl (hcrash x)
      · exact Or.inl (hcrash x)
      · have hnone : ∀ q, fs q = none := fun q => (hrest q).resolve_left List.not_mem_nil
        exact Or.inr ⟨hnone, hres, he, hnone _, hnone _, hnone _⟩
    | cons q rest =>
      simp only [attempt, hpc] at hd
      split at hd <;> cases hd
      · obtain ⟨x, -, rfl⟩ | ⟨x, hx, -⟩ | ⟨x, hx, -⟩ | ⟨hx, -⟩ := hcases
        · exact Or.inl (hcrash x)
        all_goals cases hx
      · rename_i hq
        obtain ⟨x, hx, -⟩ | ⟨x, -, -, rfl⟩ | ⟨x, -, -, rfl⟩ | ⟨-, -, rfl⟩ := hcases
        · cases hx
        · exact Or.inl (hcrash x)
        · exact Or.inl (hcrash x)
        · refine Or.inl ⟨rfl, hres, hraw, Or.inr ⟨rest, rfl, he, fun q' => ?_⟩⟩
          rcases hrest q' with hmem | hnone
          · rcases List.mem_cons.1 hmem with rfl | hmem
            · exact Or.inr (by simpa using hq)
            · exact Or.inl hmem
          · exact Or.inr hnone

theorem alone_step {raws : Pid → Bool} {a : Act} {fs₀ : Fs} {s s' : Sys} (h : Alone fs₀ s.fs (s.proc a.pid))
    (hs : step raws a s = some s') : Alone fs₀ s'.fs (s'.proc a.pid) := by
  cases a with
  | op p env =>
    obtain ⟨r, hr, rfl⟩ := Option.map_eq_some_iff.1 hs
    have hnew : (s.set p r).proc p = r.2 := if_pos rfl
    rw [Act.pid, hnew]
    rcases h with hu | ⟨hnone, hl⟩
    · exact hu.procStep hr
    · exact Or.inr ⟨hnone, layout_procStep hl hr⟩
  | raw p killed =>
    obtain ⟨r, hr, rfl⟩ := Option.map_eq_some_iff.1 hs
    have hnew : (s.set p r).proc p = r.2 := if_pos rfl
    rw [Act.pid, hnew]
    rcases h with hu | ⟨hnone, hl⟩
    · have hoff : (s.proc p).rawProc = .off := hu.rawProc
      simp only [rawStep, hoff] at hr
      cases hr
    · exact Or.inr ⟨hnone, layout_rawStep hl hr⟩

theorem alone_run {raws : Pid → Bool} {fs : Fs} {l : List Act} {s : Sys} {p : Pid} (hl : ∀ a ∈ l, a.pid = p)
    (hr : run raws fs l = some s) : Alone fs s.fs (s.proc p) := by
  have hrun : (∀ a ∈ l, a.pid = p) → Alone fs s.fs (s.proc p) := by
    refine Machine.run_induction (P := fun l s => (∀ a ∈ l, a.pid = p) → Alone fs s.fs (s.proc p)) ?_ ?_ hr
    · exact fun _ => Or.inl ⟨rfl, rfl, rfl, Or.inr ⟨checkedPaths, rfl, rfl, fun q => Or.inl (mem_checkedPaths q)⟩⟩
    · intro l s a s' _ ih hs hmem
      obtain rfl : a.pid = p := hmem a (by simp)
      exact alone_step (ih fun b hb => hmem b (by simp [hb])) hs
  exact hrun hl

/-- What an operation that takes `.active` away has left in its place. -/
theorem Effect.active {p : Pid} {fs fs' : Fs} {pr : Proc} {f : File} (he : Effect p fs pr fs') (h : Layout fs pr)
    (hf : fs .active = some f) (hnone : fs' .active = none) :
    fs' .partialBag = some f ∨ fs' .dest = some f ∨ fs .dest ≠ none := by
  cases he with
  | keep => rw [hf] at hnone; cases hnone
  | put q kind hq => simp only [Fs.put_apply, hf] at hnone; split at hnone <;> cases hnone
  | move q t hq =>
    unfold Proc.renames at hq
    split at hq <;> cases hq
    · exact Or.inl (by simpa using hf)
    · by_cases hc : pr.candidate = .active
      · exact Or.inr (Or.inl (by simpa [hc] using hf))
      · have hne : Path.active ≠ pr.candidate := fun h => hc h.symm
        simp [hne, hf] at hnone
  | remove q hq =>
    unfold unlinks at hq
    split at hq <;> cases hq
    · rename_i hpc
      simp only [Layout, hpc] at h
      obtain ⟨g, hg, -⟩ := h.1
      exact Or.inr (Or.inr (by simp [hg]))
    all_goals simp [hf] at hnone

/-- An operation that takes the raw bag away finds the final bag. -/
theorem Effect.rawBag {p : Pid} {fs fs' : Fs} {pr : Proc} (he : Effect p fs pr fs') (h : Layout fs pr)
    (hf : fs .rawBag ≠ none) (hnone : fs' .rawBag = none) : fs .dest ≠ none := by
  cases he with
  | keep => exact absurd hnone hf
  | put q kind hq => simp only [Fs.put_apply] at hnone; split at hnone; cases hnone; exact absurd hnone hf
  | move q t hq =>
    unfold Proc.renames at hq
    split at hq <;> cases hq
    · simp [hf] at hnone
    · unfold Proc.candidate at hnone
      split at hnone <;> simp [hf] at hnone
  | remove q hq =>
    unfold unlinks at hq
    split at hq <;> cases hq
    · simp [hf] at hnone
    · rename_i hpc
      simp only [Layout, hpc] at h
      obtain ⟨g, hg, -⟩ := h.1
      simp [hg]
    · simp [hf] at hnone

/-- The raw recorder takes neither away. -/
theorem rawStep_keeps {p : Pid} {killed : Bool} {fs : Fs} {pr : Proc} {r : Fs × Proc}
    (hr : rawStep p killed fs pr = some r) : r.1 .active = fs .active ∧ (fs .rawBag ≠ none → r.1 .rawBag ≠ none) := by
  obtain rfl | rfl | ⟨hraw, rfl⟩ := rawStep_cases hr
  · exact ⟨rfl, id⟩
  · exact ⟨rfl, id⟩
  · exact ⟨rfl, fun _ => hraw⟩

theorem Untouched.effect {p : Pid} {fs₀ fs fs' : Fs} {pr : Proc} (h : Untouched fs₀ fs pr) (he : Effect p fs pr fs') :
    fs' = fs := by
  have hpc : pr.pc = .crashed ∨ ∃ rest, pr.pc = .checking rest := h.pc.imp_right fun ⟨rest, hrest, _⟩ => ⟨rest, hrest⟩
  cases he with
  | keep => rfl
  | put q kind hq => rcases hpc with hpc | ⟨rest, hpc⟩ <;> · rw [hpc] at hq; cases hq
  | move q t hq => rcases hpc with hpc | ⟨rest, hpc⟩ <;> · simp only [Proc.renames, hpc] at hq; cases hq
  | remove q hq => rcases hpc with hpc | ⟨rest, hpc⟩ <;> · rw [hpc] at hq; cases hq

/-- What a step of the only invocation takes away. -/
theorem alone_takes {raws : Pid → Bool} {a : Act} {fs₀ : Fs} {s s' : Sys} (h : Alone fs₀ s.fs (s.proc a.pid))
    (hs : step raws a s = some s') :
    (∀ f, s.fs .active = some f → s'.fs .active = none →
      s'.fs .partialBag = some f ∨ s'.fs .dest = some f ∨ s.fs .dest ≠ none) ∧
    (s.fs .rawBag ≠ none → s'.fs .rawBag = none → s.fs .dest ≠ none) := by
  cases a with
  | op p env =>
    obtain ⟨r, hr, rfl⟩ := Option.map_eq_some_iff.1 hs
    have heff := procStep_effect hr
    rcases h with hu | ⟨-, hl⟩
    · have hfs : (s.set p r).fs = s.fs := hu.effect heff
      rw [hfs]
      exact ⟨fun f hf hnone => absurd (hf.symm.trans hnone) (by simp), fun hf hnone => absurd hnone hf⟩
    · exact ⟨fun f hf hnone => heff.active hl hf hnone, fun hf hnone => heff.rawBag hl hf hnone⟩
  | raw p killed =>
    obtain ⟨r, hr, rfl⟩ := Option.map_eq_some_iff.1 hs
    obtain ⟨ha, hb⟩ := rawStep_keeps hr
    refine ⟨fun f hf hnone => ?_, fun hf hnone => absurd hnone (hb hf)⟩
    have : s.fs .active = none := ha.symm.trans hnone
    rw [hf] at this
    cases this

/-- **Publication is safe.** After every run of one invocation on its output name, with any operation raising and with its
end at any moment: a final bag is the file `check_bag` has accepted, without an error; the core data is in `.active`,
`.partial` or the final bag once `.active` is reserved; `.active` and the raw bag are only taken away for the renames
or once there is a final bag; no file that was there before is changed; and a report with PASS has a final bag. -/
theorem publication_safe (raws : Pid → Bool) (fs : Fs) (l : List Act) (s : Sys) (p : Pid) (hl : ∀ a ∈ l, a.pid = p)
    (hr : run raws fs l = some s) :
    (∀ f, s.fs .dest = some f → fs .dest = some f ∨ (s.proc p).checked = some f ∧ (s.proc p).error = none) ∧
    ((s.proc p).reserved = true → CoreAt s.fs .active ∨ CoreAt s.fs .partialBag ∨ CoreAt s.fs .dest) ∧
    (∀ a s', a.pid = p → step raws a s = some s' →
      (∀ f, s.fs .active = some f → s'.fs .active = none →
        s'.fs .partialBag = some f ∨ s'.fs .dest = some f ∨ s.fs .dest ≠ none) ∧
      (s.fs .rawBag ≠ none → s'.fs .rawBag = none → s.fs .dest ≠ none)) ∧
    (∀ q f, fs q = some f → s.fs q = some f) ∧
    (∀ f, s.fs .report = some f → f.kind = .report (some .pass) → fs .report = some f ∨ s.fs .dest ≠ none) := by
  have h := alone_run hl hr
  have htakes := fun a s' (ha : a.pid = p) (hs : step raws a s = some s') => alone_takes (ha ▸ h) hs
  rcases h with hu | ⟨hnone, hlay⟩
  · have hfs := hu.fs_eq
    refine ⟨fun f hf => Or.inl (hfs ▸ hf), fun hres => ?_, htakes, fun q f hf => hfs ▸ hf, fun f hf _ => Or.inl (hfs ▸ hf)⟩
    rw [hu.reserved] at hres
    cases hres
  · obtain ⟨hpk, hpass⟩ := hlay.published_or_kept
    refine ⟨fun f hf => Or.inr ?_, fun hres => ?_, htakes, fun q f hf => ?_, fun f hf hkind => Or.inr fun hd => ?_⟩
    · rcases hpk with ⟨g, hg, -, hck, he⟩ | hk
      · rw [hg] at hf
        cases hf
        exact ⟨hck, he⟩
      · rw [hk.1] at hf
        cases hf
    · rcases hpk with ⟨g, hg, hcore, -⟩ | hk
      · exact Or.inr (Or.inr ⟨g, hg, hcore⟩)
      · exact (hk.2 hres).imp_right Or.inl
    · rw [hnone q] at hf
      cases hf
    · exact hpass hd f hf hkind

/-- A recording with raw sensors up to the event loop, the raw recorder, and the rest with the merge. -/
def mergedRun : List Act :=
  List.replicate 19 (.op .first {}) ++ List.replicate 2 (.raw .first false) ++ List.replicate 16 (.op .first {})

theorem publication_safe_merged : ∃ s, run (fun _ => true) (fun _ => none) mergedRun = some s ∧
    s.fs .dest = some ⟨some .first, 5, .merged true⟩ ∧
    (s.proc .first).checked = some ⟨some .first, 5, .merged true⟩ ∧ (s.proc .first).error = none := by
  obtain ⟨s, hs⟩ := Option.isSome_iff_exists.1 (show (run (fun _ => true) (fun _ => none) mergedRun).isSome by decide)
  have hd : s.fs .dest = some ⟨some .first, 5, .merged true⟩ := by
    have h : (run (fun _ => true) (fun _ => none) mergedRun).map (·.fs .dest) =
        some (some ⟨some .first, 5, .merged true⟩) := by decide
    rw [hs] at h
    simpa using h
  obtain ⟨hdest, -⟩ := publication_safe (fun _ => true) (fun _ => none) mergedRun s .first (by decide) hs
  exact ⟨s, hs, hd, (hdest _ hd).resolve_left (by simp)⟩

end Agilex.Capture.RecordFiles
