import Agilex.Lio.Latch

/-!
# IMU samples are partitioned among bundles

Samples count from the first scan on (`accepted`). With stamps that do not decrease, the samples of the returned bundles
and those still buffered are the accepted ones, in order (`ImuShare`), and the end of a bundle separates what it gets from
what is left (`imu_partitioned`).
-/

namespace Agilex.Lio

open Agilex.Lib

variable {P W : Type} {cfg : Params P} {s s' : State P W}

def Action.isPcl : Action P W → Bool
  | .pcl .. | .pcl2 .. => true
  | _ => false

/-- The IMU samples received since the first scan. -/
def accepted (acts : List (Action P W)) : List (Imu W) := imuMsgs (acts.dropWhile fun a => !a.isPcl)

theorem imuMsgs_append (l l' : List (Action P W)) : imuMsgs (l ++ l') = imuMsgs l ++ imuMsgs l' := List.filterMap_append

theorem accepted_suffix (acts : List (Action P W)) : accepted acts <:+ imuMsgs acts := by
  obtain ⟨l, hl⟩ := List.dropWhile_suffix (l := acts) fun a : Action P W => !a.isPcl
  refine ⟨imuMsgs l, ?_⟩
  rw [accepted, ← imuMsgs_append, hl]

theorem accepted_snoc (l : List (Action P W)) (a : Action P W) :
    accepted (l ++ [a]) = accepted l ++ if l.any Action.isPcl then imuMsgs [a] else [] := by
  induction l with
  | nil => cases a <;> rfl
  | cons b l ih =>
    cases hb : b.isPcl with
    | true =>
      have hhead : ∀ l : List (Action P W), accepted (b :: l) = imuMsgs (b :: l) := fun l => by
        rw [accepted, List.dropWhile_cons_of_neg (by simp [hb])]
      rw [List.cons_append, hhead, hhead, ← List.cons_append, imuMsgs_append, List.any_cons, hb]
      simp
    | false => simpa [accepted, List.dropWhile_cons, hb] using ih

/-! ## The loop over the buffer -/

theorem takeImu_append (e e2 t : ℚ) (l : List (Imu W)) : (takeImu e e2 t l).1 ++ (takeImu e e2 t l).2 = l := by
  induction l generalizing t with
  | nil => rfl
  | cons m l ih =>
    simp only [takeImu]
    split_ifs
    · rfl
    · exact congrArg (m :: ·) (ih m.stamp)
    · rfl

theorem takeImu_le (e e2 t : ℚ) (l : List (Imu W)) : ∀ m ∈ (takeImu e e2 t l).1, m.stamp ≤ max e e2 := by
  induction l generalizing t with
  | nil => simp [takeImu]
  | cons m l ih =>
    simp only [takeImu]
    split_ifs with hopen hbreak
    · simp
    · intro x hx
      rcases List.mem_cons.1 hx with rfl | hx
      · rw [← not_lt, max_lt_iff]
        exact hbreak
      · exact ih m.stamp x hx
    · simp

/-- What is left is not before the end of the bundle. The stamp looked at last is the invariant: nothing left is before
it. -/
theorem takeImu_left (e e2 : ℚ) {t : ℚ} {l : List (Imu W)} (hl : l.Pairwise fun m m' => m.stamp ≤ m'.stamp)
    (ht : ∀ m ∈ l, t ≤ m.stamp) : ∀ m ∈ (takeImu e e2 t l).2, max e e2 ≤ m.stamp := by
  induction l generalizing t with
  | nil => simp [takeImu]
  | cons m l ih =>
    obtain ⟨hm, hl'⟩ := List.pairwise_cons.1 hl
    simp only [takeImu]
    split_ifs with hopen hbreak
    · intro x hx
      have hmx : m.stamp ≤ x.stamp := by
        rcases List.mem_cons.1 hx with rfl | hx
        · exact le_rfl
        · exact hm x hx
      exact (max_lt hbreak.1 hbreak.2).le.trans hmx
    · exact ih hl' hm
    · rw [not_or, not_lt, not_lt] at hopen
      exact fun x hx => (max_le hopen.1 hopen.2).trans (ht x hx)

/-! ## Shares -/

/-- The samples `A` accepted so far are shared among the returned bundles and the buffer, in order. -/
structure ImuShare (A : List (Imu W)) (s : State P W) : Prop where
  shared : (s.bundles.flatMap fun b => b.meas.imu) ++ s.imuBuffer = A
  last : ∀ m ∈ A.getLast?, s.lastTimestampImu = m.stamp
  bounded : ∀ b ∈ s.bundles, ∀ m ∈ b.meas.imu, m.stamp ≤ max b.meas.lidarEndTime b.meas.lidarEndTime2

theorem ImuShare.round {A : List (Imu W)} (h : ImuShare A s) (hinv : Inv cfg s) (hr : Round cfg s s') :
    ImuShare A s' := by
  cases hr with
  | deliver hpushed himu hend hend2 hb ht hb2 ht2 =>
    obtain ⟨hends, hends2⟩ := hinv.ends hpushed
    refine ⟨?_, h.last, fun b hbs => ?_⟩
    · simp only [deliver, List.flatMap_append, List.flatMap_cons, List.flatMap_nil, List.append_nil, List.append_assoc,
        takeImu_append]
      exact h.shared
    · rcases List.mem_append.1 hbs with hbs | hbs
      · exact h.bounded b hbs
      · obtain rfl := List.mem_singleton.1 hbs
        simp only [hends, hends2]
        exact takeImu_le _ _ _ _
  | _ => exact ⟨h.shared, h.last, h.bounded⟩

/-- A sample is accepted. Its stamp is not before the last one, so nothing is cleared. -/
theorem ImuShare.imu {A : List (Imu W)} (h : ImuShare A s) {msg : Imu W} (hfirst : s.firstLidarScanCheck = true)
    (hord : ∀ m ∈ A, m.stamp ≤ msg.stamp) : ImuShare (A ++ [msg]) (imuCbk msg s) := by
  have hsame : imuCbk msg s = { s with lastTimestampImu := msg.stamp, imuBuffer := s.imuBuffer ++ [msg] } := by
    unfold imuCbk
    rw [if_neg (by simp [hfirst])]
    simp only
    split_ifs with hback
    · -- nothing has been accepted before, so there is nothing to clear
      have hnil : A = [] := by
        cases hA : A.getLast? with
        | none => exact List.getLast?_eq_none_iff.1 hA
        | some m =>
          have := hord m (List.mem_of_getLast? hA)
          rw [← h.last m hA] at this
          exact absurd hback (not_lt.2 this)
      have hbuf : s.imuBuffer = [] := (List.append_eq_nil_iff.1 (h.shared.trans hnil)).2
      simp only [hbuf]
    · rfl
  rw [hsame]
  refine ⟨?_, by simp, h.bounded⟩
  simp only [← List.append_assoc, h.shared]

/-- The flag of the first scan, and the shares once stamps do not decrease. -/
theorem reaches_share {acts : List (Action P W)} (h : Reaches cfg acts s)
    (hord : (imuMsgs acts).Pairwise fun m m' => m.stamp ≤ m'.stamp) :
    s.firstLidarScanCheck = acts.any Action.isPcl ∧ ImuShare (accepted acts) s := by
  refine Machine.run_induction (P := fun acts (s : State P W) =>
    (imuMsgs acts).Pairwise (fun m m' => m.stamp ≤ m'.stamp) →
      s.firstLidarScanCheck = acts.any Action.isPcl ∧ ImuShare (accepted acts) s)
    (fun _ => ⟨rfl, rfl, by simp [accepted, imuMsgs], by simp [State.init]⟩) (fun l s a s' hl ih ha hord => ?_) h hord
  rw [imuMsgs_append] at hord
  obtain ⟨hpre, -, hlast⟩ := List.pairwise_append.1 hord
  obtain ⟨hflag, hshare⟩ := ih hpre
  rw [accepted_snoc, List.any_append, ← hflag]
  have hquiet : imuMsgs [a] = [] → ∀ {u : State P W}, ImuShare (accepted l) u →
      ImuShare (accepted l ++ if s.firstLidarScanCheck = true then imuMsgs [a] else []) u := by
    intro hnil u hu
    rw [hnil]
    simpa using hu
  cases a with
  | pcl driver stamp points =>
    obtain rfl := Option.some.inj ((step_pcl ..).symm.trans ha)
    exact ⟨by simp [standardPclCbk, State.pclCbk, Action.isPcl], hquiet rfl ⟨hshare.shared, hshare.last, hshare.bounded⟩⟩
  | pcl2 driver stamp points =>
    obtain rfl := Option.some.inj ((step_pcl2 ..).symm.trans ha)
    exact ⟨by simp [standardPclCbk2, State.pclCbk2, Action.isPcl],
      hquiet rfl ⟨hshare.shared, hshare.last, hshare.bounded⟩⟩
  | imu msg =>
    obtain rfl := Option.some.inj ha
    cases hfirst : s.firstLidarScanCheck with
    | true =>
      refine ⟨?_, hshare.imu hfirst fun m hm => hlast m ((accepted_suffix l).subset hm) msg List.mem_cons_self⟩
      obtain ⟨b, t, hs⟩ := imuCbk_cases msg s
      rw [hs]
      simp [hfirst]
    | false =>
      have hs : imuCbk msg s = s := if_pos (by simp [hfirst])
      rw [hs]
      exact ⟨by simp [hfirst, Action.isPcl], by simpa using hshare⟩
  | sync =>
    obtain ⟨⟨r, u⟩, hr, rfl⟩ := Option.map_eq_some_iff.1 ha
    have hQ := syncPackages_rule (Q := fun u => Inv cfg u ∧ u.firstLidarScanCheck = s.firstLidarScanCheck ∧
      ImuShare (accepted l) u) (fun t t' ht hround => ⟨ht.1.round hround, ?_, ht.2.2.round ht.1 hround⟩) hr
      ⟨reaches_inv hl, rfl, hshare⟩
    · exact ⟨by simp [hQ.2.1, Action.isPcl], hquiet rfl hQ.2.2⟩
    · rw [← ht.2.1]
      cases hround <;> rfl

/-- **IMU samples are partitioned among bundles**: the samples of the returned bundles, then those still buffered, are the
samples accepted since the first scan; no sample of a bundle is after its end; and when a bundle is returned, neither the
samples left nor the newest sample received are before its end. -/
theorem imu_partitioned {acts : List (Action P W)} (h : Reaches cfg acts s)
    (hord : (imuMsgs acts).Pairwise fun m m' => m.stamp ≤ m'.stamp) :
    (s.bundles.flatMap fun b => b.meas.imu) ++ s.imuBuffer = accepted acts ∧
    (∀ b ∈ s.bundles, ∀ m ∈ b.meas.imu, m.stamp ≤ max b.meas.lidarEndTime b.meas.lidarEndTime2) ∧
    ∀ s', syncPackages cfg s = some (true, s') →
      (∀ m ∈ s'.imuBuffer, max s'.meas.lidarEndTime s'.meas.lidarEndTime2 ≤ m.stamp) ∧
      ∃ newest, (imuMsgs acts).getLast? = some newest ∧
        max s'.meas.lidarEndTime s'.meas.lidarEndTime2 ≤ newest.stamp := by
  obtain ⟨-, hshare⟩ := reaches_share h hord
  refine ⟨hshare.shared, hshare.bounded, fun s' hs => ?_⟩
  rcases syncPackages_rounds hs with ⟨hr, -⟩ | ⟨-, t, hprep, hpushed, hlast⟩
  · cases hr
  obtain ⟨hinv, hsht⟩ := hprep.rule (Q := fun t => Inv cfg t ∧ ImuShare (accepted acts) t)
    (fun t t' ht _ hr => ⟨ht.1.round hr, ht.2.round ht.1 hr⟩) ⟨reaches_inv h, hshare⟩
  obtain ⟨hends, hends2⟩ := hinv.ends hpushed
  obtain ⟨front, rest, p, ps, u, us, p2, ps2, u2, us2, himu, ⟨hend, hend2⟩, -, -, rfl⟩ := hlast.returns hpushed
  have hbuf : (accepted acts).Pairwise fun m m' => m.stamp ≤ m'.stamp := hord.sublist (accepted_suffix acts).sublist
  rw [← hsht.shared] at hbuf
  obtain ⟨-, hbuf, -⟩ := List.pairwise_append.1 hbuf
  simp only [deliver, hends, hends2]
  refine ⟨takeImu_left _ _ hbuf fun m hm => ?_, ?_⟩
  · rw [himu] at hm hbuf
    rcases List.mem_cons.1 hm with rfl | hm
    · exact le_rfl
    · exact (List.pairwise_cons.1 hbuf).1 m hm
  · -- the buffer is not empty, so the newest sample is an accepted one
    have hne : accepted acts ≠ [] := by
      rw [← hsht.shared, himu]
      simp
    obtain ⟨l, hl⟩ := accepted_suffix acts
    have hnewest : (imuMsgs acts).getLast? = (accepted acts).getLast? := by
      rw [← hl, List.getLast?_append_of_ne_nil _ hne]
    refine ⟨_, hnewest.trans (List.getLast?_eq_some_getLast hne), ?_⟩
    rw [← hsht.last _ (List.getLast?_eq_some_getLast hne)]
    exact max_le hend hend2

/-- The last call of the run that waits. -/
theorem imu_partitioned_waiting : ∃ s s', Reaches mid360 (waitingRun.take 6) s ∧
    syncPackages mid360 s = some (true, s') ∧
    (s.bundles.flatMap fun b => b.meas.imu) ++ s.imuBuffer = [⟨10, ()⟩, ⟨10 + 1 / 5, ()⟩] ∧
    s'.imuBuffer = [⟨10 + 1 / 5, ()⟩] ∧
    (∀ m ∈ s'.imuBuffer, max s'.meas.lidarEndTime s'.meas.lidarEndTime2 ≤ m.stamp) ∧
    ∃ newest, (imuMsgs (waitingRun.take 6)).getLast? = some newest ∧
      max s'.meas.lidarEndTime s'.meas.lidarEndTime2 ≤ newest.stamp := by
  obtain ⟨s, hs, hq⟩ := reaches_of_any mid360 (waitingRun.take 6) (Q := fun s => (syncPackages mid360 s).any
    fun r : Bool × State ℤ Unit => r.1 && decide (r.2.imuBuffer = [⟨10 + 1 / 5, ()⟩])) (by decide +kernel)
  simp only [Option.any_eq_true, Bool.and_eq_true, decide_eq_true_eq] at hq
  obtain ⟨⟨r, s'⟩, hsync, hr, hleft⟩ := hq
  simp only at hr
  subst hr
  have hp := imu_partitioned hs (by decide +kernel)
  exact ⟨s, s', hs, hsync, hp.1, hleft, hp.2.2 s' hsync⟩

end Agilex.Lio
