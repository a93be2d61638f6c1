import Agilex.Capture.PoseAssociation

/-!
# Trimming the odometry buffer

`ingest` drops old odometry samples by age and by number. What it drops is never needed: a `bracket` at or after the age
limit finds the same samples in the buffer as in all accepted ones, as long as the number of samples stays below its
limit (`brackets_kept`).

- `trimOdoms_spec` says what the trimming loop leaves;
- `bracket_suffix`: the search does not look at what is older than the oldest sample below the target;
- `Trimmed` is the invariant of a run.
-/

namespace Agilex.Capture

open Agilex.Lib Binary64 Outcome

/-- **What trimming leaves**: all samples; or some, the oldest of them before the cutoff, or 2000 of them. -/
theorem trimOdoms_spec (cutoff : ℤ) (l : List Odometry) :
    ∃ old, l = old ++ trimOdoms cutoff l ∧ (trimOdoms cutoff l).length ≤ 2000 ∧
      (old = [] ∨ (∃ m ∈ (trimOdoms cutoff l).head?, m.header.stamp < cutoff) ∨ 2000 ≤ (trimOdoms cutoff l).length) := by
  induction l with
  | nil => exact ⟨[], rfl, by simp [trimOdoms], Or.inl rfl⟩
  | cons a l ih =>
    cases l with
    | nil => exact ⟨[], rfl, by simp [trimOdoms], Or.inl rfl⟩
    | cons b l =>
      rw [trimOdoms]
      split
      · rename_i hpop
        obtain ⟨old, hl, hlen, hold⟩ := ih
        refine ⟨a :: old, by rw [List.cons_append, ← hl], hlen, Or.inr ?_⟩
        rcases hold with rfl | hold
        · -- this was the last turn of the loop
          rw [List.nil_append] at hl
          rw [← hl]
          rcases hpop.2 with hb | hn
          · exact Or.inl ⟨b, rfl, hb⟩
          · refine Or.inr ?_
            simp only [List.length_cons] at hn ⊢
            omega
        · exact hold
      · rename_i hstop
        refine ⟨[], rfl, ?_, Or.inl rfl⟩
        simp only [not_and_or, not_or, not_lt] at hstop
        omega

/-- The search, when some samples are below the target. -/
theorem bracket_pos (cfg : Config) {l : List Odometry} {target : ℤ} {k : ℕ}
    (h : bisectLeft (l.map fun m => m.header.stamp) target = k + 1) :
    bracket cfg l target =
      match l[k]?, l[k + 1]? with
      | some a, some b =>
        if cfg.maxOdomGap < divFloat (b.header.stamp - a.header.stamp) (10 ^ 9) then .error .odometryGap else .ok (a, b)
      | _, _ => .error .noBracketingOdometry := by
  have hj : ∀ q : Prop, ¬(k + 1 = 0 ∧ q) := fun q hq => by omega
  unfold bracket
  simp only [h]
  rw [if_neg (hj _), if_neg (by omega)]
  cases hbefore : l[k]? with
  | none => simp only [Nat.add_sub_cancel, hbefore]
  | some a => cases l[k + 1]? <;> simp only [Nat.add_sub_cancel, hbefore]

/-- **The search looks at a suffix only**, when its oldest sample is below the target. -/
theorem bracket_suffix (cfg : Config) {old l : List Odometry} {m : Odometry} {target : ℤ}
    (hl : Increasing (old ++ l)) (hm : m ∈ l.head?) (ht : m.header.stamp < target) :
    bracket cfg l target = bracket cfg (old ++ l) target := by
  obtain ⟨rest, rfl⟩ : ∃ rest, l = m :: rest := by
    cases l with
    | nil => cases hm
    | cons a rest =>
      obtain rfl : a = m := by simpa using hm
      exact ⟨rest, rfl⟩
  have hbelow : ∀ y ∈ old.map (fun x => x.header.stamp), y < target := by
    intro y hy
    obtain ⟨x, hx, rfl⟩ := List.mem_map.1 hy
    exact ((List.pairwise_append.1 hl).2.2 x hx m List.mem_cons_self).trans ht
  obtain ⟨k, hk⟩ : ∃ k, bisectLeft ((m :: rest).map fun x => x.header.stamp) target = k + 1 :=
    ⟨_, by rw [List.map_cons, bisectLeft_cons, if_pos ht]⟩
  have hk' : bisectLeft ((old ++ m :: rest).map fun x => x.header.stamp) target = old.length + k + 1 := by
    rw [List.map_append, bisectLeft_append _ hbelow, hk, List.length_map]
    omega
  rw [bracket_pos cfg hk, bracket_pos cfg hk', List.getElem?_append_right (by omega), List.getElem?_append_right (by omega),
    Nat.add_sub_cancel_left, Nat.add_assoc, Nat.add_sub_cancel_left]

/-! ## Runs -/

namespace Engine

variable {D : Deps} {cfg : Config}

/-- The newest sample accepted so far. -/
abbrev newestOdom (e : Engine) : Option Odometry := e.accepted.getLast?

/-- The buffer holds the accepted samples but for some at the beginning, which are missing only if the oldest sample left
is over age or the buffer is full. -/
structure Trimmed (keep : ℤ) (e : Engine) : Prop where
  bounded : e.odoms.length ≤ 2000
  kept : ∃ old, e.accepted = old ++ e.odoms ∧
    (old = [] ∨ (∃ m ∈ e.odoms.head?, ∃ n ∈ e.newestOdom, m.header.stamp < n.header.stamp - keep) ∨
      2000 ≤ e.odoms.length)

theorem Trimmed.init (keep : ℤ) : Trimmed keep .init := ⟨by simp [Engine.init], [], rfl, Or.inl rfl⟩

theorem Trimmed.same {keep : ℤ} {e e' : Engine} (h : Trimmed keep e) (ho : e'.odoms = e.odoms)
    (ha : e'.accepted = e.accepted) : Trimmed keep e' := by
  constructor
  · rw [ho]; exact h.bounded
  · unfold newestOdom
    rw [ho, ha]
    exact h.kept

/-- A sample newer than all before it is accepted, and the buffer trimmed. -/
theorem Trimmed.accept {keep : ℤ} {e e' : Engine} (h : Trimmed keep e) {m : Odometry}
    (hnew : ∀ x ∈ e.accepted, x.header.stamp < m.header.stamp)
    (ho : e'.odoms = trimOdoms (m.header.stamp - keep) (e.odoms ++ [m])) (ha : e'.accepted = e.accepted ++ [m]) :
    Trimmed keep e' := by
  obtain ⟨dropped, hl, hlen, hold⟩ := trimOdoms_spec (m.header.stamp - keep) (e.odoms ++ [m])
  obtain ⟨old, hacc, hkept⟩ := h.kept
  rw [← ho] at hl hlen hold
  have hnewest : m ∈ e'.newestOdom := by simp [newestOdom, ha]
  refine ⟨hlen, old ++ dropped, ?_, ?_⟩
  · rw [ha, hacc, List.append_assoc, hl, List.append_assoc]
  · rcases hold with rfl | ⟨x, hx, hlt⟩ | hfull
    · rw [List.nil_append] at hl
      rw [List.append_nil]
      rcases hkept with rfl | ⟨x, hx, n, hn, hlt⟩ | hfull
      · exact Or.inl rfl
      · -- the oldest sample is over age already
        have hnm := hnew n (List.mem_of_getLast? hn)
        refine Or.inr (Or.inl ⟨x, ?_, m, hnewest, by omega⟩)
        rw [← hl, List.head?_append]
        exact Option.or_eq_some_iff.2 (Or.inl hx)
      · rw [← hl]
        exact Or.inr (Or.inr (by simp only [List.length_append]; omega))
    · exact Or.inr (Or.inl ⟨x, hx, m, hnewest, hlt⟩)
    · exact Or.inr (Or.inr hfull)

/-- **A search at or after the age limit**, with fewer than 2000 samples there, finds in the buffer what it finds in all
accepted samples. -/
theorem Trimmed.bracket {keep : ℤ} {e : Engine} (h : Trimmed keep e) (hinc : Increasing e.accepted) {n : Odometry}
    (hn : n ∈ e.newestOdom)
    (hfew : (e.accepted.filter fun m => n.header.stamp - keep ≤ m.header.stamp).length < 2000) {target : ℤ}
    (ht : n.header.stamp - keep ≤ target) : bracket cfg e.odoms target = bracket cfg e.accepted target := by
  obtain ⟨old, hacc, hold⟩ := h.kept
  have hover : old = [] ∨ ∃ m ∈ e.odoms.head?, m.header.stamp < n.header.stamp - keep := by
    rcases hold with rfl | ⟨m, hm, n', hn', hlt⟩ | hfull
    · exact Or.inl rfl
    · obtain rfl : n' = n := Option.some.inj (hn'.symm.trans hn)
      exact Or.inr ⟨m, hm, hlt⟩
    · -- a full buffer holds a sample over age
      cases hl : e.odoms with
      | nil => rw [hl] at hfull; simp at hfull
      | cons m rest =>
        refine Or.inr ⟨m, rfl, ?_⟩
        by_contra hge
        have hall : ∀ x ∈ e.odoms, n.header.stamp - keep ≤ x.header.stamp := by
          have hsorted : Increasing e.odoms := hinc.sublist (hacc ▸ List.sublist_append_right old e.odoms)
          rw [hl] at hsorted ⊢
          intro x hx
          rcases List.mem_cons.1 hx with rfl | hx
          · exact not_lt.1 hge
          · exact (not_lt.1 hge).trans ((List.pairwise_cons.1 hsorted).1 x hx).le
        have hlen : e.odoms.length ≤ (e.accepted.filter fun x => n.header.stamp - keep ≤ x.header.stamp).length := by
          conv_lhs => rw [← List.filter_eq_self.2 fun x hx => decide_eq_true (hall x hx)]
          rw [hacc]
          exact ((List.sublist_append_right old e.odoms).filter _).length_le
        omega
  rw [hacc]
  rcases hover with rfl | ⟨m, hm, hlt⟩
  · rw [List.nil_append]
  · exact bracket_suffix cfg (hacc ▸ hinc) hm (hlt.trans_le ht)

/-- Inputs that are no odometry leave the samples as they are. -/
theorem receive_samples (D : Deps) (cfg : Config) {x : Input} (arrivalNs : ℤ) (wall : ℚ) (e : Engine)
    (hx : ∀ m, x ≠ .odom m) : (Outcome.final (e.receive D cfg x arrivalNs wall)).odoms = e.odoms ∧
      (Outcome.final (e.receive D cfg x arrivalNs wall)).accepted = e.accepted := by
  cases x with
  | odom m => exact absurd rfl (hx m)
  | image c m =>
    have hi := (bufferImage_imaging cfg c m e).trans (pair_imaging cfg wall _)
    exact ⟨hi.odoms, hi.accepted⟩
  | info c m => exact ⟨rfl, history_skip [_] rfl (by simp [Event.acceptance])⟩
  | tf ts => exact ⟨rfl, history_skip [_] rfl (by simp [Event.acceptance])⟩
  | other n data => exact ⟨rfl, history_skip [_] rfl (by simp [Event.acceptance])⟩
  | tfStatic ts =>
    obtain ⟨set, rest, -, hfin⟩ := setStatics_final D ts e
    refine final_bind (P := fun t : Engine => t.odoms = e.odoms ∧ t.accepted = e.accepted) ?_ fun s hs => ?_
    · rw [hfin]
      exact ⟨rfl, rfl⟩
    · exact ⟨hs.1, (history_skip [_] rfl (by simp [Event.acceptance])).trans hs.2⟩

theorem Trimmed.receive {keep : ℤ} (hkeep : pyInt (mul (Binary64.add cfg.wait 2) (10 ^ 9)) = .ok keep) {e : Engine}
    (h : Trimmed keep e) (x : Input) (arrivalNs : ℤ) (wall : ℚ)
    (hx : ∀ m, x = .odom m → ∀ y ∈ e.accepted, y.header.stamp < m.header.stamp) :
    Trimmed keep (Outcome.final (e.receive D cfg x arrivalNs wall)) := by
  by_cases ho : ∃ m, x = .odom m
  · obtain ⟨m, rfl⟩ := ho
    simp only [Engine.receive]
    rcases ingestOdom_cases D cfg m arrivalNs e with ⟨err, hi⟩ | ⟨-, -, -, ⟨err, hk, -⟩ | ⟨keep', hk, hi⟩⟩
    · rw [hi]
      exact h
    · rw [hkeep] at hk
      cases hk
    · obtain rfl : keep = keep' := Except.ok.inj (hkeep.symm.trans hk)
      rw [hi]
      exact h.accept (hx m rfl) rfl (by rw [final_ok, accepted, history_append _ rfl]; rfl)
  · obtain ⟨h1, h2⟩ := receive_samples D cfg arrivalNs wall e fun m hm => ho ⟨m, hm⟩
    exact h.same h1 h2

/-- **Every call keeps the buffer trimmed**, whatever it raises, when the age limit is a number. -/
theorem Trimmed.exec {keep : ℤ} (hkeep : pyInt (mul (Binary64.add cfg.wait 2) (10 ^ 9)) = .ok keep) {e : Engine}
    (hb : OdomBuffer cfg e) (h : Trimmed keep e) (c : Call) : Trimmed keep (Outcome.final (c.exec D cfg e)) := by
  refine exec_rule h (fun e k _ h => h.same rfl rfl) (fun wall final e h => ?_) (fun x arrivalNs wall e₀ hn => ?_) c
  · have hd := drain_draining D cfg wall final e
    exact h.same hd.odoms hd.accepted
  · obtain ⟨-, hx⟩ := hb.noted hn
    have h₀ : Trimmed keep e₀ := by
      obtain ⟨st, l, ls, rfl, -⟩ := hn.eq
      exact h.same rfl rfl
    exact h₀.receive hkeep x arrivalNs wall fun m hm => (hx m hm).2

theorem Trimmed.run (D : Deps) {keep : ℤ} (hkeep : pyInt (mul (Binary64.add cfg.wait 2) (10 ^ 9)) = .ok keep)
    (cs : List Call) : Trimmed keep (runAllCalls D cfg cs) :=
  (runAll_invariant (P := fun e => OdomBuffer cfg e ∧ Trimmed keep e) (fun c _ h => ⟨h.1.exec c, h.2.exec hkeep h.1 c⟩) cs
    ⟨.init cfg, .init keep⟩).2

/-! ## An age limit that is no number -/

/-- `drain` leaves the odometry samples as they are. -/
theorem drains_odoms (D : Deps) (cfg : Config) (ds : List (ℚ × Bool)) (e : Engine) :
    (runAll (Call.exec D cfg) (ds.map fun d => .drain d.1 d.2) e).odoms = e.odoms := by
  induction ds generalizing e with
  | nil => rfl
  | cons d ds ih =>
    rw [List.map_cons, runAll, ih]
    exact (drain_draining D cfg d.1 d.2 e).odoms

/-- Without an age limit the first sample raises: a run up to the first exception accepts one at most. -/
theorem odoms_short {err : PyErr} (herr : pyInt (mul (Binary64.add cfg.wait 2) (10 ^ 9)) = .error err) (cs : List Call) :
    (Outcome.final (runCalls D cfg cs)).odoms.length ≤ 1 := by
  have hnoted : ∀ {e e₀ : Engine} {x : Input}, Noted e x e₀ → e₀.odoms = e.odoms := by
    intro e e₀ x hn
    obtain ⟨st, l, ls, rfl, -⟩ := hn.eq
    rfl
  have hdrain : ∀ wall final (e : Engine), (Outcome.final (e.drain D cfg wall final)).odoms = e.odoms :=
    fun wall final e => (drain_draining D cfg wall final e).odoms
  refine final_run_rule (P := fun e => e.odoms = []) (Q := fun e => e.odoms.length ≤ 1) (fun c s s' hs hc => ?_)
    (fun c s hs => ?_) (fun s hs => by rw [hs]; simp) cs (s := Engine.init) rfl
  · rcases exec_ok hc with ⟨wall, final, rfl, hd⟩ | ⟨x, arrivalNs, wall, hd, rfl, -, -, rfl⟩ |
      ⟨x, arrivalNs, wall, e₀, e₁, rfl, hn, h₁, hrest⟩
    · have := hdrain wall final s
      rw [hd] at this
      exact this.trans hs
    · exact hs
    · have he₁ : e₁.odoms = [] := by
        by_cases ho : ∃ m, x = .odom m
        · obtain ⟨m, rfl⟩ := ho
          simp only [Engine.receive] at h₁
          rcases ingestOdom_cases D cfg m arrivalNs e₀ with ⟨err', hi⟩ | ⟨-, -, -, ⟨err', -, hi⟩ | ⟨keep, hk, -⟩⟩
          · rw [hi] at h₁
            cases h₁
          · rw [hi] at h₁
            cases h₁
          · rw [herr] at hk
            cases hk
        · have := (receive_samples D cfg arrivalNs wall e₀ fun m hm => ho ⟨m, hm⟩).1
          rw [h₁] at this
          exact this.trans ((hnoted hn).trans hs)
      rcases hrest with hd | rfl
      · have := hdrain wall false e₁
        rw [hd] at this
        exact this.trans he₁
      · exact he₁
  · refine exec_rule (P := fun e => e.odoms.length ≤ 1) (by rw [hs]; simp) (fun e k _ h => h)
      (fun wall final e h => by rw [hdrain]; exact h) (fun x arrivalNs wall e₀ hn => ?_) c
    have he₀ : e₀.odoms = [] := (hnoted hn).trans hs
    by_cases ho : ∃ m, x = .odom m
    · obtain ⟨m, rfl⟩ := ho
      simp only [Engine.receive]
      rcases ingestOdom_cases D cfg m arrivalNs e₀ with ⟨err', hi⟩ | ⟨-, -, -, ⟨err', -, hi⟩ | ⟨keep, hk, -⟩⟩
      · rw [hi, final_error, he₀]
        simp
      · rw [hi, final_error]
        show (e₀.odoms ++ [m]).length ≤ 1
        rw [he₀]
        simp
      · rw [herr] at hk
        cases hk
    · rw [(receive_samples D cfg arrivalNs wall e₀ fun m hm => ho ⟨m, hm⟩).1, he₀]
      simp

end Engine

/-- **Trimming odometry never costs a usable bracket.** After any calls, whatever they raised, with `keep` the age limit
`int((wait+2)*1e9)`: the buffer holds at most 2000 samples; and if fewer than 2000 of the accepted samples are at or after
the cutoff, `keep` before the newest of them, every search at or after the cutoff has the same outcome on the buffer as on
all accepted samples. When the age limit is no number, a recording, which ends with the first exception but for its
`drain`s, still holds at most 2000 samples. -/
theorem brackets_kept (D : Deps) (cfg : Config) (cs : List Call) :
    (∀ keep, pyInt (mul (Binary64.add cfg.wait 2) (10 ^ 9)) = .ok keep →
      let e := runAllCalls D cfg cs
      e.odoms.length ≤ 2000 ∧
      ∀ n ∈ e.newestOdom, (e.accepted.filter fun m => n.header.stamp - keep ≤ m.header.stamp).length < 2000 →
        ∀ target, n.header.stamp - keep ≤ target → bracket cfg e.odoms target = bracket cfg e.accepted target) ∧
    ∀ ds : List (ℚ × Bool),
      (runAll (Call.exec D cfg) (ds.map fun d => .drain d.1 d.2) (Outcome.final (runCalls D cfg cs))).odoms.length ≤ 2000 := by
  refine ⟨fun keep hkeep => ?_, fun ds => ?_⟩
  · have h := Engine.Trimmed.run D hkeep cs
    exact ⟨h.bounded, fun n hn hfew target ht => h.bracket (Engine.OdomBuffer.run D cfg cs).increasing hn hfew ht⟩
  · rw [Engine.drains_odoms]
    cases hk : pyInt (mul (Binary64.add cfg.wait 2) (10 ^ 9)) with
    | ok keep =>
      obtain ⟨pre, -, hpre⟩ : ∃ pre, pre <+: cs ∧ Outcome.final (runCalls D cfg cs) = runAllCalls D cfg pre :=
        final_run cs Engine.init
      rw [hpre]
      exact (Engine.Trimmed.run D hk pre).bounded
    | error err => exact (Engine.odoms_short hk cs).trans (by norm_num)

end Agilex.Capture
