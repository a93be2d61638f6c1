import Agilex.Lio.Fronts
import Mathlib.Tactic.FieldSimp

/-!
# Odometry time does not run backward

The end of a scan is the time of its last point, or its start and the mean scan time so far. When last points are within
`T` of their scans (`Within`), the mean stays between `0` and `T`, and so does the length of every scan (`Timed`). When
the scans of a lidar are `T` apart besides, a bundle ends before the next one starts (`odometry_forward`).
-/

namespace Agilex.Lio

open Agilex.Lib

variable {P W : Type} {cfg : Params P} {s s' : State P W} {T : ℚ}

/-- The last point of a cloud, if any, is between `0` and `T` after the start of its scan. -/
def Within (T : ℚ) (c : Cloud P) : Prop := ∀ last ∈ c.getLast?, 0 ≤ last.curvature / 1000 ∧ last.curvature / 1000 ≤ T

instance (T : ℚ) (c : Cloud P) : Decidable (Within T c) := inferInstanceAs (Decidable (∀ last ∈ c.getLast?, _))

theorem Within.transform {c : Cloud P} (h : Within T c) (f : P → P) : Within T (transformPointCloud f c) := by
  intro last hlast
  rw [transformPointCloud, List.getLast?_map] at hlast
  obtain ⟨o, ho, rfl⟩ := Option.map_eq_some_iff.1 hlast
  exact h o ho

/-- The running mean of numbers between `0` and `T`. -/
theorem mean_within {mean x : ℚ} (n : ℕ) (h : 0 ≤ mean ∧ mean ≤ T) (hx : 0 ≤ x ∧ x ≤ T) :
    0 ≤ mean + (x - mean) / (n + 1 : ℕ) ∧ mean + (x - mean) / (n + 1 : ℕ) ≤ T := by
  have hn : (0 : ℚ) < (n + 1 : ℕ) := by exact_mod_cast Nat.succ_pos n
  have hn0 : (0 : ℚ) ≤ n := Nat.cast_nonneg n
  have heq : mean + (x - mean) / (n + 1 : ℕ) = (mean * n + x) / (n + 1 : ℕ) := by
    have := hn.ne'
    push_cast at this ⊢
    field_simp
    ring
  rw [heq]
  constructor
  · exact div_nonneg (add_nonneg (mul_nonneg h.1 hn0) hx.1) hn.le
  · rw [div_le_iff₀ hn]
    push_cast
    have := mul_le_mul_of_nonneg_right h.2 hn0
    linarith [hx.2]

/-- **The three ways of a scan to end** keep the mean and the length of the scan between `0` and `T`. -/
theorem scanEnd_within {L : Lidar P} (h : 0 ≤ L.meanScantime ∧ L.meanScantime ≤ T) (beg : ℚ) {c : Cloud P}
    (hc : Within T c) : (0 ≤ (L.scanEnd beg c).meanScantime ∧ (L.scanEnd beg c).meanScantime ≤ T) ∧
      beg ≤ (L.scanEnd beg c).endTime ∧ (L.scanEnd beg c).endTime ≤ beg + T := by
  have hmean : beg ≤ beg + L.meanScantime ∧ beg + L.meanScantime ≤ beg + T := by
    constructor <;> linarith [h.1, h.2]
  unfold Lidar.scanEnd
  split
  · exact ⟨h, hmean⟩
  · rename_i last hlast
    have hl := hc last hlast
    split_ifs
    · exact ⟨h, hmean⟩
    · exact ⟨h, hmean⟩
    · refine ⟨mean_within L.scanNum h hl, ?_, ?_⟩
      · simp only
        linarith [hl.1]
      · simp only
        linarith [hl.2]

/-- The mean scan times, and the lengths of the scans of the latched and the returned bundles. -/
structure Timed (T : ℚ) (s : State P W) : Prop where
  mean : 0 ≤ s.lidar.meanScantime ∧ s.lidar.meanScantime ≤ T
  mean2 : 0 ≤ s.lidar2.meanScantime ∧ s.lidar2.meanScantime ≤ T
  latched : s.lidarPushed = true →
    (s.meas.lidarBegTime ≤ s.meas.lidarEndTime ∧ s.meas.lidarEndTime ≤ s.meas.lidarBegTime + T) ∧
    s.meas.lidarBegTime2 ≤ s.meas.lidarEndTime2 ∧ s.meas.lidarEndTime2 ≤ s.meas.lidarBegTime2 + T
  returned : ∀ b ∈ s.bundles,
    (b.meas.lidarBegTime ≤ b.meas.lidarEndTime ∧ b.meas.lidarEndTime ≤ b.meas.lidarBegTime + T) ∧
    b.meas.lidarBegTime2 ≤ b.meas.lidarEndTime2 ∧ b.meas.lidarEndTime2 ≤ b.meas.lidarBegTime2 + T

/-- Every scan that has arrived has its last point within `T`. -/
def AllWithin (T : ℚ) (s : State P W) : Prop :=
  (∀ p ∈ s.lidar.arrived, Within T p.points) ∧ ∀ p ∈ s.lidar2.arrived, Within T p.points

theorem standardPcl_meanScantime (scan : Scan P) (L : Lidar P) :
    (L.standardPcl scan).meanScantime = L.meanScantime := by
  simp only [Lidar.standardPcl, Lidar.loopBack]
  split_ifs <;> rfl

theorem Timed.round (h : Timed T s) (hinv : Inv cfg s) (hall : AllWithin T s) (hr : Round cfg s s') : Timed T s' := by
  cases hr with
  | drop => exact ⟨h.mean, h.mean2, h.latched, h.returned⟩
  | drop2 => exact ⟨h.mean, h.mean2, h.latched, h.returned⟩
  | latch hopen hb ht hb2 ht2 hnear =>
    rename_i p ps t ts p2 ps2 t2 ts2
    have hok := hinv.openOk hopen
    have hok2 := hinv.openOk2 hopen
    have hp : p ∈ s.lidar.buffer := by rw [hb]; exact List.mem_cons_self
    have hp2 : p2 ∈ s.lidar2.buffer := by rw [hb2]; exact List.mem_cons_self
    have hend := scanEnd_within h.mean t (c := s.clouds p.num) (by
      rw [hok.raw p hp (by simp)]
      exact hall.1 p (hok.arrived hp))
    have hend2 := scanEnd_within h.mean2 t2
      (c := mutate p2 (transformPointCloud cfg.lidar2WrtLidar1) s.clouds p2.num) (by
        rw [mutate_self, hok2.raw p2 hp2 (by simp)]
        exact (hall.2 p2 (hok2.arrived hp2)).transform _)
    exact ⟨hend.1, hend2.1, fun _ => ⟨hend.2, hend2.2⟩, h.returned⟩
  | deliver hpushed =>
    refine ⟨h.mean, h.mean2, fun hp => Bool.noConfusion hp, fun b hb => ?_⟩
    rcases List.mem_append.1 hb with hb | hb
    · exact h.returned b hb
    · obtain rfl := List.mem_singleton.1 hb
      exact h.latched hpushed

theorem reaches_timed {acts : List (Action P W)} (h : Reaches cfg acts s) (hT : 0 ≤ T) (hall : AllWithin T s) :
    Timed T s := by
  refine (reaches_rule (Q := fun s => Inv cfg s ∧ (AllWithin T s → Timed T s)) ?_ ?_ ?_ ?_ ?_ h).2 hall
  · exact ⟨.init, fun _ => ⟨⟨le_rfl, hT⟩, ⟨le_rfl, hT⟩, fun hp => Bool.noConfusion hp, by simp [State.init]⟩⟩
  · intro s stamp points hs
    refine ⟨hs.1.pcl stamp points, fun hall => ?_⟩
    have ht := hs.2 ⟨fun p hp => hall.1 p ?_, hall.2⟩
    · refine ⟨?_, ht.mean2, ht.latched, ht.returned⟩
      rw [show (standardPclCbk stamp points s).lidar.meanScantime = _ from standardPcl_meanScantime ..]
      exact ht.mean
    · rw [show (standardPclCbk stamp points s).lidar.arrived = _ from standardPcl_arrived ..]
      exact List.mem_append_left _ hp
  · intro s stamp points hs
    refine ⟨hs.1.pcl2 stamp points, fun hall => ?_⟩
    have ht := hs.2 ⟨hall.1, fun p hp => hall.2 p ?_⟩
    · refine ⟨ht.mean, ?_, ht.latched, ht.returned⟩
      rw [show (standardPclCbk2 stamp points s).lidar2.meanScantime = _ from standardPcl_meanScantime ..]
      exact ht.mean2
    · rw [show (standardPclCbk2 stamp points s).lidar2.arrived = _ from standardPcl_arrived ..]
      exact List.mem_append_left _ hp
  · intro s msg hs
    have hinv := hs.1.imu msg
    obtain ⟨b, t, heq⟩ := imuCbk_cases msg s
    rw [heq] at hinv ⊢
    refine ⟨hinv, fun hall => ?_⟩
    have ht := hs.2 hall
    exact ⟨ht.mean, ht.mean2, ht.latched, ht.returned⟩
  · intro s s' hs hr
    refine ⟨hs.1.round hr, fun hall => ?_⟩
    have hall' : AllWithin T s := by
      unfold AllWithin at hall
      rwa [hr.arrived.1, hr.arrived.2] at hall
    exact (hs.2 hall').round hs.1 hall' hr

/-- Successive gaps add up. -/
theorem pairwise_of_gaps {α : Type} {l : List (ℚ × α)} (hT : 0 ≤ T) (h : l.IsChain fun m m' => m.1 + T ≤ m'.1) :
    l.Pairwise fun m m' => m.1 + T ≤ m'.1 := by
  have : IsTrans (ℚ × α) fun m m' => m.1 + T ≤ m'.1 := ⟨fun a b c hab hbc => by linarith⟩
  exact List.isChain_iff_pairwise.1 h

/-- The scans of successive bundles are as far apart as those that arrive. -/
theorem bundles_apart {arrived : List (Scan P)} {msgs : List (ℚ × Cloud P)} {bundles : List (Bundle P W)}
    {scan : Bundle P W → Scan P} (hmsgs : arrived.map (fun p => (p.stamp, p.points)) = msgs)
    (hsub : (bundles.map scan).Sublist arrived) (hgap : msgs.Pairwise fun m m' => m.1 + T ≤ m'.1) :
    bundles.Pairwise fun b b' => (scan b).stamp + T ≤ (scan b').stamp := by
  rw [← hmsgs, List.pairwise_map] at hgap
  have h := hgap.sublist hsub
  rwa [List.pairwise_map] at h

/-- **Odometry time never runs backward** when the scans of a lidar start `T` apart and last no longer; and each scan of a
bundle ends within `T` of its start. -/
theorem odometry_forward {acts : List (Action P W)} (h : Reaches cfg acts s) (hT : 0 < T)
    (hgap : (pclMsgs acts).IsChain fun m m' => m.1 + T ≤ m'.1)
    (hgap2 : (pclMsgs2 acts).IsChain fun m m' => m.1 + T ≤ m'.1)
    (hlast : ∀ m ∈ pclMsgs acts, Within T m.2) (hlast2 : ∀ m ∈ pclMsgs2 acts, Within T m.2) :
    (s.bundles.map fun b => b.odometryStamp).Pairwise (· ≤ ·) ∧
    ∀ b ∈ s.bundles, b.odometryStamp = max b.meas.lidarEndTime b.meas.lidarEndTime2 ∧
      (b.meas.lidarBegTime ≤ b.meas.lidarEndTime ∧ b.meas.lidarEndTime ≤ b.meas.lidarBegTime + T) ∧
      b.meas.lidarBegTime2 ≤ b.meas.lidarEndTime2 ∧ b.meas.lidarEndTime2 ≤ b.meas.lidarBegTime2 + T := by
  obtain ⟨hmsgs, hmsgs2⟩ := arrived_messages h
  have hpw := pairwise_of_gaps hT.le hgap
  have hpw2 := pairwise_of_gaps hT.le hgap2
  have hforward : ∀ {m m' : ℚ × Cloud P}, m.1 + T ≤ m'.1 → m.1 ≤ m'.1 := fun hm => by linarith
  have hf : Fronts cfg s := fronts_of_sorted h (hpw.imp hforward) (hpw2.imp hforward)
  have hall : AllWithin T s := by
    refine ⟨fun p hp => hlast (p.stamp, p.points) ?_, fun p hp => hlast2 (p.stamp, p.points) ?_⟩
    · rw [← hmsgs]
      exact List.mem_map_of_mem (f := fun p : Scan P => (p.stamp, p.points)) hp
    · rw [← hmsgs2]
      exact List.mem_map_of_mem (f := fun p : Scan P => (p.stamp, p.points)) hp
  have ht := reaches_timed h hT.le hall
  refine ⟨?_, fun b hb => ⟨(hf.bundles b hb).odometry, ht.returned b hb⟩⟩
  have hsub := (List.sublist_append_left _ _).trans hf.lidar.order
  have hsub2 := (List.sublist_append_left _ _).trans hf.lidar2.order
  rw [hf.popped] at hsub
  rw [hf.popped2] at hsub2
  rw [List.pairwise_map]
  refine ((bundles_apart hmsgs hsub hpw).and (bundles_apart hmsgs2 hsub2 hpw2)).imp_of_mem ?_
  intro b b' hb hb' hapart
  -- each scan of the earlier bundle ends before the scan of the same lidar in the later one starts
  obtain ⟨⟨-, hend⟩, -, hend2⟩ := ht.returned b hb
  obtain ⟨⟨hbeg, -⟩, hbeg2, -⟩ := ht.returned b' hb'
  have hp := (hf.bundles b hb).paired
  have hp' := (hf.bundles b' hb').paired
  rw [(hf.bundles b hb).odometry, (hf.bundles b' hb').odometry]
  refine max_le_max ?_ ?_
  · linarith [hapart.1, hp.beg, hp'.beg]
  · linarith [hapart.2, hp.beg2, hp'.beg2]

/-- A second bundle, of a scan with one point and a scan that is cut short. -/
def twoBundlesRun : List (Action ℤ Unit) :=
  waitingRun ++ [.pcl .standard (10 + 1 / 10) [⟨1, 0⟩], .pcl2 .standard (10 + 3 / 25) [⟨1, 0⟩, ⟨2, 10⟩],
    .imu ⟨10 + 2 / 5, ()⟩, .sync]

theorem odometry_forward_two : ∃ s, Reaches mid360 twoBundlesRun s ∧
    s.bundles.map (fun b => b.odometryStamp) = [10 + 1 / 10, 10 + 1 / 5] ∧
    (s.bundles.map fun b => b.odometryStamp).Pairwise (· ≤ ·) := by
  obtain ⟨s, hs, hq⟩ := reaches_of_any mid360 twoBundlesRun
    (Q := fun s => decide (s.bundles.map (fun b => b.odometryStamp) = [10 + 1 / 10, 10 + 1 / 5])) (by decide +kernel)
  refine ⟨s, hs, of_decide_eq_true hq, (odometry_forward (T := 1 / 10) hs (by norm_num) ?_ ?_ ?_ ?_).1⟩
  all_goals decide +kernel

end Agilex.Lio
