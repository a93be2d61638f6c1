import Agilex.Lio.Rounds
import Mathlib.Data.List.Forall2
import Mathlib.Data.List.Pairwise
import Mathlib.Tactic.Linarith
import Mathlib.Tactic.Ring

/-!
# What a latched bundle holds

`Lidar.Ok` is what is known of one lidar for any stamps: its two queues are aligned, every scan that arrived is queued,
popped, dropped or cleared, and only the cloud of the scan that a latched bundle holds has been mutated. `Inv` says so of
both lidars. Hence the points of a returned bundle are re-based once (`retimed_once`), and calls of `sync_packages` are
always defined (`reaches_defined`).
-/

namespace Agilex.Lio

open Agilex.Lib

variable {P W : Type} {cfg : Params P}

/-! ## One lidar -/

/-- `scanEnd` changes no queue. -/
theorem scanEnd_eq (beg : ℚ) (c : Cloud P) (L : Lidar P) :
    ∃ e m k, L.scanEnd beg c = { L with endTime := e, meanScantime := m, scanNum := k } := by
  unfold Lidar.scanEnd
  split
  · exact ⟨_, _, _, rfl⟩
  · split_ifs <;> exact ⟨_, _, _, rfl⟩

theorem scanEnd_buffer (beg : ℚ) (c : Cloud P) (L : Lidar P) : (L.scanEnd beg c).buffer = L.buffer := by
  obtain ⟨e, m, k, h⟩ := scanEnd_eq beg c L
  rw [h]

theorem scanEnd_arrived (beg : ℚ) (c : Cloud P) (L : Lidar P) : (L.scanEnd beg c).arrived = L.arrived := by
  obtain ⟨e, m, k, h⟩ := scanEnd_eq beg c L
  rw [h]

theorem scanEnd_cleared (beg : ℚ) (c : Cloud P) (L : Lidar P) : (L.scanEnd beg c).cleared = L.cleared := by
  obtain ⟨e, m, k, h⟩ := scanEnd_eq beg c L
  rw [h]

/-- What is known of one lidar when `n` clouds have been allocated and `held` is its scan in the latched bundle, with the
points that scan has now. -/
structure Lidar.Ok (n : ℕ) (clouds : ℕ → Cloud P) (held : Option (Scan P × Cloud P)) (L : Lidar P) : Prop where
  aligned : L.timeBuffer = L.buffer.map Scan.stamp
  order : (L.popped ++ L.buffer).Sublist L.arrived
  accounted : (L.popped ++ L.dropped ++ L.cleared ++ L.buffer).Perm L.arrived
  numbered : L.arrived.Pairwise fun p q => p.num < q.num
  fresh : ∀ p ∈ L.arrived, p.num < n
  last : ∀ p ∈ L.arrived.getLast?, L.lastTimestamp = p.stamp
  raw : ∀ p ∈ L.buffer, (∀ h ∈ held, h.1 ≠ p) → clouds p.num = p.points
  held_mem : ∀ h ∈ held, h.1 ∈ L.arrived
  held_front : ∀ h ∈ held, h.1 ∉ L.buffer.tail
  held_cloud : ∀ h ∈ held, clouds h.1.num = h.2

namespace Lidar.Ok

variable {n : ℕ} {clouds clouds' : ℕ → Cloud P} {held : Option (Scan P × Cloud P)} {L : Lidar P}

theorem init : (Lidar.init : Lidar P).Ok n clouds none := by
  constructor <;> simp [Lidar.init]

theorem arrived (h : L.Ok n clouds held) {p : Scan P} (hp : p ∈ L.buffer) : p ∈ L.arrived :=
  h.order.subset (List.mem_append_right _ hp)

/-- Scans that have arrived are told apart by their numbers. -/
theorem num_inj (h : L.Ok n clouds held) {p q : Scan P} (hp : p ∈ L.arrived) (hq : q ∈ L.arrived)
    (hnum : p.num = q.num) : p = q := by
  by_contra hne
  have : Std.Symm fun p q : Scan P => p.num ≠ q.num := ⟨fun _ _ h => h.symm⟩
  exact (h.numbered.imp fun hlt => hlt.ne).forall hp hq hne hnum

theorem arrived_nodup (h : L.Ok n clouds held) : L.arrived.Nodup :=
  h.numbered.imp fun hlt heq => hlt.ne (congrArg Scan.num heq)

theorem buffer_nodup (h : L.Ok n clouds held) : L.buffer.Nodup :=
  ((List.sublist_append_right _ _).trans h.order).nodup h.arrived_nodup

theorem front_stamp (h : L.Ok n clouds held) {p : Scan P} {ps : List (Scan P)} {t : ℚ} {ts : List ℚ}
    (hb : L.buffer = p :: ps) (ht : L.timeBuffer = t :: ts) : t = p.stamp ∧ ts = ps.map Scan.stamp := by
  have h := h.aligned
  rw [hb, ht, List.map_cons, List.cons.injEq] at h
  exact h

/-- Clouds that are not of this lidar change, and more are allocated. -/
theorem frame (h : L.Ok n clouds held) {m : ℕ} (hm : n ≤ m) (hc : ∀ p ∈ L.arrived, clouds' p.num = clouds p.num) :
    L.Ok m clouds' held where
  aligned := h.aligned
  order := h.order
  accounted := h.accounted
  numbered := h.numbered
  fresh p hp := lt_of_lt_of_le (h.fresh p hp) hm
  last := h.last
  raw p hp hne := by rw [hc p (h.arrived hp), h.raw p hp hne]
  held_mem := h.held_mem
  held_front := h.held_front
  held_cloud k hk := by rw [hc k.1 (h.held_mem k hk), h.held_cloud k hk]

/-- A cloud is allocated for a message. -/
theorem alloc (h : L.Ok n clouds held) (points : Cloud P) : L.Ok (n + 1) (Function.update clouds n points) held :=
  h.frame (Nat.le_succ n) fun p hp => Function.update_of_ne (h.fresh p hp).ne _ _

theorem loopBack (h : L.Ok n clouds held) (stamp : ℚ) : (L.loopBack stamp).Ok n clouds held := by
  unfold Lidar.loopBack
  split_ifs
  · refine ⟨rfl, ?_, ?_, h.numbered, h.fresh, h.last, by simp, h.held_mem, by simp, h.held_cloud⟩
    · rw [List.append_nil]
      exact (List.sublist_append_left _ _).trans h.order
    · simpa [List.append_assoc] using h.accounted
  · exact h

/-- A scan without a backward stamp: nothing is cleared. -/
theorem loopBack_forward {stamp : ℚ} (h : L.lastTimestamp ≤ stamp) : L.loopBack stamp = L :=
  if_neg (not_lt.2 h)

/-- **A message arrives.** -/
theorem receive (h : L.Ok n clouds held) (stamp : ℚ) (points : Cloud P) :
    (L.standardPcl ⟨n, stamp, points⟩).Ok (n + 1) (Function.update clouds n points) held := by
  have h' := h.loopBack stamp
  have harr : (L.loopBack stamp).arrived = L.arrived := by
    unfold Lidar.loopBack
    split_ifs <;> rfl
  simp only [Lidar.standardPcl]
  generalize L.loopBack stamp = K at *
  have hfresh : ∀ p ∈ K.arrived, p ≠ ⟨n, stamp, points⟩ := by
    rintro p hp rfl
    exact (h'.fresh _ hp).false
  refine ⟨by simp [h'.aligned], ?_, ?_, ?_, ?_, by simp, ?_, ?_, ?_, ?_⟩
  · simpa using h'.order.append_right [_]
  · simpa using h'.accounted.append_right [_]
  · refine List.pairwise_append.2 ⟨h'.numbered, by simp, fun p hp q hq => ?_⟩
    obtain rfl := List.mem_singleton.1 hq
    exact h'.fresh p hp
  · intro p hp
    rcases List.mem_append.1 hp with hp | hp
    · exact Nat.lt_succ_of_lt (h'.fresh p hp)
    · obtain rfl := List.mem_singleton.1 hp
      exact Nat.lt_succ_self n
  · intro p hp hne
    rcases List.mem_append.1 hp with hp | hp
    · rw [Function.update_of_ne (h'.fresh p (h'.arrived hp)).ne, h'.raw p hp hne]
    · obtain rfl := List.mem_singleton.1 hp
      rw [Function.update_self]
  · exact fun k hk => List.mem_append_left _ (h'.held_mem k hk)
  · intro k hk hmem
    have hk' := h'.held_mem k hk
    cases hb : K.buffer with
    | nil => simp [hb] at hmem
    | cons q qs =>
      rw [hb, List.cons_append, List.tail_cons] at hmem
      rcases List.mem_append.1 hmem with hmem | hmem
      · refine h'.held_front k hk ?_
        rw [hb]
        exact hmem
      · exact hfresh _ hk' (List.mem_singleton.1 hmem)
  · intro k hk
    rw [Function.update_of_ne (h'.fresh k.1 (h'.held_mem k hk)).ne, h'.held_cloud k hk]

variable {p : Scan P} {ps : List (Scan P)} {t : ℚ} {ts : List ℚ}

/-- The pairing loop drops the front. -/
theorem drop (h : L.Ok n clouds none) (hb : L.buffer = p :: ps) (ht : L.timeBuffer = t :: ts) :
    Lidar.Ok n clouds none { L with buffer := ps, timeBuffer := ts, dropped := L.dropped ++ [p] } := by
  refine ⟨(h.front_stamp hb ht).2, ?_, ?_, h.numbered, h.fresh, h.last, fun q hq => h.raw q ?_, by simp, by simp, by simp⟩
  · refine List.Sublist.trans ?_ h.order
    rw [hb]
    exact (List.sublist_cons_self p ps).append_left _
  · refine List.Perm.trans ?_ h.accounted
    rw [hb]
    simp only [List.append_assoc, List.singleton_append]
    exact ((List.perm_middle.symm).append_left _).append_left _
  · rw [hb]
    exact List.mem_cons_of_mem _ hq

/-- The front is popped for a returned bundle. -/
theorem pop (h : L.Ok n clouds held) (hb : L.buffer = p :: ps) (ht : L.timeBuffer = t :: ts) :
    Lidar.Ok n clouds none { L with buffer := ps, timeBuffer := ts, popped := L.popped ++ [p] } := by
  refine ⟨(h.front_stamp hb ht).2, ?_, ?_, h.numbered, h.fresh, h.last, fun q hq _ => h.raw q ?_ ?_, by simp, by simp,
    by simp⟩
  · simpa [hb] using h.order
  · refine List.Perm.trans ?_ h.accounted
    rw [hb]
    simp only [List.append_assoc, List.singleton_append]
    refine List.Perm.append_left _ ?_
    rw [← List.append_assoc, ← List.append_assoc]
    exact List.perm_middle.symm
  · rw [hb]
    exact List.mem_cons_of_mem _ hq
  · rintro k hk rfl
    refine h.held_front k hk ?_
    rw [hb]
    exact hq

/-- The end of the scan is worked out. -/
theorem scanEnd (h : L.Ok n clouds held) (beg : ℚ) (c : Cloud P) : (L.scanEnd beg c).Ok n clouds held := by
  obtain ⟨e, m, k, hq⟩ := scanEnd_eq beg c L
  rw [hq]
  exact ⟨h.aligned, h.order, h.accounted, h.numbered, h.fresh, h.last, h.raw, h.held_mem, h.held_front, h.held_cloud⟩

/-- The front is latched, and only its cloud is mutated. -/
theorem latch (h : L.Ok n clouds none) (hb : L.buffer = p :: ps) {c : Cloud P} (hp : clouds' p.num = c)
    (hc : ∀ q ∈ L.arrived, q.num ≠ p.num → clouds' q.num = clouds q.num) : L.Ok n clouds' (some (p, c)) where
  aligned := h.aligned
  order := h.order
  accounted := h.accounted
  numbered := h.numbered
  fresh := h.fresh
  last := h.last
  raw q hq hne := by
    have hqp : q.num ≠ p.num := fun heq =>
      hne (p, c) rfl (h.num_inj (h.arrived hq) (h.arrived (by rw [hb]; exact List.mem_cons_self)) heq).symm
    rw [hc q (h.arrived hq) hqp, h.raw q hq (by simp)]
  held_mem k hk := by
    obtain rfl := Option.some.inj hk
    exact h.arrived (by rw [hb]; exact List.mem_cons_self)
  held_front k hk := by
    obtain rfl := Option.some.inj hk
    have hnd := h.buffer_nodup
    rw [hb] at hnd ⊢
    exact (List.nodup_cons.1 hnd).1
  held_cloud k hk := by
    obtain rfl := Option.some.inj hk
    exact hp

end Lidar.Ok

/-! ## The latched bundle and the returned ones -/

/-- The points of the first scan, with offsets from the start of the bundle. -/
def MeasureGroup.rebased (m : MeasureGroup P W) : Cloud P :=
  addOffset (1000 * (m.lidarBegTime - min m.lidarBegTime m.lidarBegTime2)) m.lidar.points

/-- The points of the second scan in the frame of the first lidar, with offsets from the start of the bundle. -/
def MeasureGroup.rebased2 (cfg : Params P) (m : MeasureGroup P W) : Cloud P :=
  addOffset (1000 * (m.lidarBegTime2 - min m.lidarBegTime m.lidarBegTime2))
    (transformPointCloud cfg.lidar2WrtLidar1 m.lidar2.points)

/-- The scans of a bundle start when their messages say, and not too far from each other. -/
structure MeasureGroup.Paired (cfg : Params P) (m : MeasureGroup P W) : Prop where
  beg : m.lidarBegTime = m.lidar.stamp
  beg2 : m.lidarBegTime2 = m.lidar2.stamp
  near : |m.lidarBegTime - m.lidarBegTime2| ≤ cfg.bundleMaxPairSkew

/-- What holds of a bundle when it is returned. -/
structure Bundle.Sound (cfg : Params P) (b : Bundle P W) : Prop where
  paired : b.meas.Paired cfg
  cloud : b.cloud = b.meas.rebased
  cloud2 : b.cloud2 = b.meas.rebased2 cfg
  odometry : b.odometryStamp = max b.meas.lidarEndTime b.meas.lidarEndTime2

def State.held (s : State P W) : Option (Scan P × Cloud P) :=
  if s.lidarPushed then some (s.meas.lidar, s.meas.rebased) else none

def State.held2 (cfg : Params P) (s : State P W) : Option (Scan P × Cloud P) :=
  if s.lidarPushed then some (s.meas.lidar2, s.meas.rebased2 cfg) else none

/-- What is known in every state reached. -/
structure Inv (cfg : Params P) (s : State P W) : Prop where
  lidar : s.lidar.Ok s.allocated s.clouds s.held
  lidar2 : s.lidar2.Ok s.allocated s.clouds (s.held2 cfg)
  apart : ∀ p ∈ s.lidar.arrived, ∀ q ∈ s.lidar2.arrived, p.num ≠ q.num
  paired : s.lidarPushed = true → s.meas.Paired cfg
  ends : s.lidarPushed = true → s.meas.lidarEndTime = s.lidar.endTime ∧ s.meas.lidarEndTime2 = s.lidar2.endTime
  bundles : ∀ b ∈ s.bundles, b.Sound cfg
  returned : ∀ b ∈ s.bundles, b.meas.lidar ∈ s.lidar.arrived ∧ b.meas.lidar2 ∈ s.lidar2.arrived

theorem mutate_self (p : Scan P) (f : Cloud P → Cloud P) (clouds : ℕ → Cloud P) :
    mutate p f clouds p.num = f (clouds p.num) :=
  Function.update_self ..

theorem mutate_of_ne {p q : Scan P} (h : q.num ≠ p.num) (f : Cloud P → Cloud P) (clouds : ℕ → Cloud P) :
    mutate p f clouds q.num = clouds q.num :=
  Function.update_of_ne h ..

/-! What `latch` does to the clouds -/

section Clouds

variable {p p2 : Scan P} {t t2 : ℚ} {s : State P W}

theorem latch_cloud (h : p.num ≠ p2.num) : (latch cfg p t p2 t2 s).clouds p.num =
    addOffset (1000 * (t - min t t2)) (s.clouds p.num) := by
  simp only [latch]
  rw [mutate_of_ne h, mutate_self, mutate_of_ne h]

theorem latch_cloud2 (h : p.num ≠ p2.num) : (latch cfg p t p2 t2 s).clouds p2.num =
    addOffset (1000 * (t2 - min t t2)) (transformPointCloud cfg.lidar2WrtLidar1 (s.clouds p2.num)) := by
  simp only [latch]
  rw [mutate_self, mutate_of_ne h.symm, mutate_self]

theorem latch_cloud_of_ne {q : Scan P} (h : q.num ≠ p.num) (h2 : q.num ≠ p2.num) :
    (latch cfg p t p2 t2 s).clouds q.num = s.clouds q.num := by
  simp only [latch]
  rw [mutate_of_ne h2, mutate_of_ne h, mutate_of_ne h2]

end Clouds

theorem standardPcl_arrived (scan : Scan P) (L : Lidar P) : (L.standardPcl scan).arrived = L.arrived ++ [scan] := by
  simp only [Lidar.standardPcl, Lidar.loopBack]
  split_ifs <;> rfl

theorem standardPcl_endTime (scan : Scan P) (L : Lidar P) : (L.standardPcl scan).endTime = L.endTime := by
  simp only [Lidar.standardPcl, Lidar.loopBack]
  split_ifs <;> rfl

theorem Inv.init : Inv cfg (State.init : State P W) where
  lidar := .init
  lidar2 := .init
  apart := by simp [State.init, Lidar.init]
  paired := by simp [State.init]
  ends := by simp [State.init]
  bundles := by simp [State.init]
  returned := by simp [State.init]

variable {s s' : State P W}

theorem Inv.pcl (h : Inv cfg s) (stamp : ℚ) (points : Cloud P) : Inv cfg (standardPclCbk stamp points s) where
  lidar := h.lidar.receive stamp points
  lidar2 := h.lidar2.alloc points
  apart p hp q hq := by
    rw [show (standardPclCbk stamp points s).lidar.arrived = _ from standardPcl_arrived ..] at hp
    rcases List.mem_append.1 hp with hp | hp
    · exact h.apart p hp q hq
    · obtain rfl := List.mem_singleton.1 hp
      exact (h.lidar2.fresh q hq).ne'
  paired := h.paired
  ends hpushed := by
    rw [show (standardPclCbk stamp points s).lidar.endTime = _ from standardPcl_endTime ..]
    exact h.ends hpushed
  bundles := h.bundles
  returned b hb := by
    rw [show (standardPclCbk stamp points s).lidar.arrived = _ from standardPcl_arrived ..]
    exact (h.returned b hb).imp_left (List.mem_append_left _)

theorem Inv.pcl2 (h : Inv cfg s) (stamp : ℚ) (points : Cloud P) : Inv cfg (standardPclCbk2 stamp points s) where
  lidar := h.lidar.alloc points
  lidar2 := h.lidar2.receive stamp points
  apart p hp q hq := by
    rw [show (standardPclCbk2 stamp points s).lidar2.arrived = _ from standardPcl_arrived ..] at hq
    rcases List.mem_append.1 hq with hq | hq
    · exact h.apart p hp q hq
    · obtain rfl := List.mem_singleton.1 hq
      exact (h.lidar.fresh p hp).ne
  paired := h.paired
  ends hpushed := by
    rw [show (standardPclCbk2 stamp points s).lidar2.endTime = _ from standardPcl_endTime ..]
    exact h.ends hpushed
  bundles := h.bundles
  returned b hb := by
    rw [show (standardPclCbk2 stamp points s).lidar2.arrived = _ from standardPcl_arrived ..]
    exact (h.returned b hb).imp_right (List.mem_append_left _)

theorem Inv.imu (h : Inv cfg s) (msg : Imu W) : Inv cfg (imuCbk msg s) := by
  obtain ⟨b, t, hs⟩ := imuCbk_cases msg s
  rw [hs]
  exact ⟨h.lidar, h.lidar2, h.apart, h.paired, h.ends, h.bundles, h.returned⟩

theorem held_open (h : s.lidarPushed = false) : s.held = none := by
  simp [State.held, h]

theorem held2_open (h : s.lidarPushed = false) : s.held2 cfg = none := by
  simp [State.held2, h]

theorem held_pushed (h : s.lidarPushed = true) : s.held = some (s.meas.lidar, s.meas.rebased) := by
  simp [State.held, h]

theorem held2_pushed (h : s.lidarPushed = true) : s.held2 cfg = some (s.meas.lidar2, s.meas.rebased2 cfg) := by
  simp [State.held2, h]

/-- What is known of a lidar while no bundle is latched. -/
theorem Inv.openOk (h : Inv cfg s) (hopen : s.lidarPushed = false) : s.lidar.Ok s.allocated s.clouds none := by
  rw [← held_open hopen]
  exact h.lidar

theorem Inv.openOk2 (h : Inv cfg s) (hopen : s.lidarPushed = false) : s.lidar2.Ok s.allocated s.clouds none := by
  have hok := h.lidar2
  rw [held2_open hopen] at hok
  exact hok

/-- **Latching** re-bases the clouds of both fronts. -/
theorem Inv.latch (h : Inv cfg s) (hopen : s.lidarPushed = false) {p p2 : Scan P} {ps ps2 : List (Scan P)} {t t2 : ℚ}
    {ts ts2 : List ℚ} (hb : s.lidar.buffer = p :: ps) (ht : s.lidar.timeBuffer = t :: ts)
    (hb2 : s.lidar2.buffer = p2 :: ps2) (ht2 : s.lidar2.timeBuffer = t2 :: ts2)
    (hnear : |t - t2| ≤ cfg.bundleMaxPairSkew) : Inv cfg (latch cfg p t p2 t2 s) := by
  have hok := h.openOk hopen
  have hok2 := h.openOk2 hopen
  have hp := hok.arrived (p := p) (by rw [hb]; exact List.mem_cons_self)
  have hp2 := hok2.arrived (p := p2) (by rw [hb2]; exact List.mem_cons_self)
  have hne := h.apart p hp p2 hp2
  refine ⟨?_, ?_, ?_, fun _ => ⟨(hok.front_stamp hb ht).1, (hok2.front_stamp hb2 ht2).1, hnear⟩, fun _ => ⟨rfl, rfl⟩,
    h.bundles, fun b hbs => ?_⟩
  · refine (hok.latch hb ?_ fun q hq hqp => latch_cloud_of_ne hqp (h.apart q hq p2 hp2)).scanEnd _ _
    rw [latch_cloud hne, hok.raw p (by rw [hb]; exact List.mem_cons_self) (by simp)]
    rfl
  · refine (hok2.latch hb2 ?_ fun q hq hqp => latch_cloud_of_ne (h.apart p hp q hq).symm hqp).scanEnd _ _
    rw [latch_cloud2 hne, hok2.raw p2 (by rw [hb2]; exact List.mem_cons_self) (by simp)]
    rfl
  · intro q hq q2 hq2
    rw [show (Lio.latch cfg p t p2 t2 s).lidar.arrived = _ from scanEnd_arrived ..] at hq
    rw [show (Lio.latch cfg p t p2 t2 s).lidar2.arrived = _ from scanEnd_arrived ..] at hq2
    exact h.apart q hq q2 hq2
  · rw [show (Lio.latch cfg p t p2 t2 s).lidar.arrived = _ from scanEnd_arrived ..,
      show (Lio.latch cfg p t p2 t2 s).lidar2.arrived = _ from scanEnd_arrived ..]
    exact h.returned b hbs

theorem Inv.round (h : Inv cfg s) (hr : Round cfg s s') : Inv cfg s' := by
  cases hr with
  | drop hopen hb ht ht2 hfar hlt =>
    refine ⟨?_, h.lidar2, h.apart, h.paired, h.ends, h.bundles, h.returned⟩
    rw [held_open (by exact hopen)]
    exact (h.openOk hopen).drop hb ht
  | drop2 hopen ht hb2 ht2 hfar hle =>
    refine ⟨h.lidar, ?_, h.apart, h.paired, h.ends, h.bundles, h.returned⟩
    rw [held2_open (by exact hopen)]
    exact (h.openOk2 hopen).drop hb2 ht2
  | latch hopen hb ht hb2 ht2 hnear => exact h.latch hopen hb ht hb2 ht2 hnear
  | deliver hpushed himu hend hend2 hb ht hb2 ht2 =>
    refine ⟨?_, ?_, h.apart, fun hp => Bool.noConfusion hp, fun hp => Bool.noConfusion hp, fun b hbs => ?_,
      fun b hbs => ?_⟩
    · rw [held_open rfl]
      exact h.lidar.pop hb ht
    · rw [held2_open rfl]
      exact h.lidar2.pop hb2 ht2
    · rcases List.mem_append.1 hbs with hbs | hbs
      · exact h.bundles b hbs
      · obtain rfl := List.mem_singleton.1 hbs
        obtain ⟨hbeg, hbeg2, hnear⟩ := h.paired hpushed
        obtain ⟨hends, hends2⟩ := h.ends hpushed
        refine ⟨⟨hbeg, hbeg2, hnear⟩, h.lidar.held_cloud _ (held_pushed hpushed),
          h.lidar2.held_cloud _ (held2_pushed hpushed), ?_⟩
        simp only [odometryStamp, hends, hends2]
    · rcases List.mem_append.1 hbs with hbs | hbs
      · exact h.returned b hbs
      · obtain rfl := List.mem_singleton.1 hbs
        exact ⟨h.lidar.held_mem _ (held_pushed hpushed), h.lidar2.held_mem _ (held2_pushed hpushed)⟩

theorem reaches_inv {acts : List (Action P W)} (h : Reaches cfg acts s) : Inv cfg s :=
  reaches_rule .init (fun _ _ _ h => h.pcl _ _) (fun _ _ _ h => h.pcl2 _ _) (fun _ _ h => h.imu _) (fun _ _ h => h.round)
    h

/-! ## Messages and scans -/

theorem Round.arrived (hr : Round cfg s s') :
    s'.lidar.arrived = s.lidar.arrived ∧ s'.lidar2.arrived = s.lidar2.arrived := by
  cases hr with
  | latch => exact ⟨scanEnd_arrived .., scanEnd_arrived ..⟩
  | _ => exact ⟨rfl, rfl⟩

/-- What an action adds to the scans that have arrived. -/
theorem step_arrived {a : Action P W} (h : step cfg a s = some s') :
    s'.lidar.arrived = s.lidar.arrived ++ (pclMsgs [a]).map (fun m => ⟨s.allocated, m.1, m.2⟩) ∧
    s'.lidar2.arrived = s.lidar2.arrived ++ (pclMsgs2 [a]).map fun m => ⟨s.allocated, m.1, m.2⟩ := by
  cases a with
  | pcl driver stamp points =>
    obtain rfl := Option.some.inj ((step_pcl ..).symm.trans h)
    exact ⟨standardPcl_arrived .., (List.append_nil _).symm⟩
  | pcl2 driver stamp points =>
    obtain rfl := Option.some.inj ((step_pcl2 ..).symm.trans h)
    exact ⟨(List.append_nil _).symm, standardPcl_arrived ..⟩
  | imu msg =>
    obtain rfl := Option.some.inj h
    obtain ⟨b, t, hs⟩ := imuCbk_cases msg s
    rw [hs]
    exact ⟨(List.append_nil _).symm, (List.append_nil _).symm⟩
  | sync =>
    obtain ⟨⟨r, u⟩, hr, rfl⟩ := Option.map_eq_some_iff.1 h
    have hsame := syncPackages_rule (Q := fun u => u.lidar.arrived = s.lidar.arrived ∧ u.lidar2.arrived = s.lidar2.arrived)
      (fun t t' ht hround => ⟨hround.arrived.1.trans ht.1, hround.arrived.2.trans ht.2⟩) hr ⟨rfl, rfl⟩
    simpa [pclMsgs, pclMsgs2] using hsame

/-- **The scans that have arrived are the messages.** -/
theorem arrived_messages {acts : List (Action P W)} (h : Reaches cfg acts s) :
    s.lidar.arrived.map (fun p => (p.stamp, p.points)) = pclMsgs acts ∧
    s.lidar2.arrived.map (fun p => (p.stamp, p.points)) = pclMsgs2 acts := by
  refine Machine.run_induction (P := fun acts (s : State P W) =>
    s.lidar.arrived.map (fun p => (p.stamp, p.points)) = pclMsgs acts ∧
    s.lidar2.arrived.map (fun p => (p.stamp, p.points)) = pclMsgs2 acts) ⟨rfl, rfl⟩ (fun l s a s' _ ih ha => ?_) h
  obtain ⟨harr, harr2⟩ := step_arrived ha
  have hsplit : pclMsgs (l ++ [a]) = pclMsgs l ++ pclMsgs [a] := List.filterMap_append
  have hsplit2 : pclMsgs2 (l ++ [a]) = pclMsgs2 l ++ pclMsgs2 [a] := List.filterMap_append
  rw [harr, harr2, List.map_append, List.map_append, hsplit, hsplit2, ih.1, ih.2, List.map_map, List.map_map]
  exact ⟨congrArg _ (List.map_id _), congrArg _ (List.map_id _)⟩

/-! ## Calls are defined -/

theorem Lidar.Ok.times {n : ℕ} {clouds : ℕ → Cloud P} {held : Option (Scan P × Cloud P)} {L : Lidar P}
    (h : L.Ok n clouds held) {p : Scan P} {ps : List (Scan P)} (hb : L.buffer = p :: ps) :
    L.timeBuffer = p.stamp :: ps.map Scan.stamp := by
  rw [h.aligned, hb, List.map_cons]

theorem Lidar.Ok.scans {n : ℕ} {clouds : ℕ → Cloud P} {held : Option (Scan P × Cloud P)} {L : Lidar P}
    (h : L.Ok n clouds held) {t : ℚ} {ts : List ℚ} (ht : L.timeBuffer = t :: ts) : ∃ p ps, L.buffer = p :: ps := by
  have hal := h.aligned
  cases hb : L.buffer with
  | nil => simp [ht, hb] at hal
  | cons p ps => exact ⟨p, ps, rfl⟩

theorem popFront_eq {L : Lidar P} {p : Scan P} {ps : List (Scan P)} {t : ℚ} {ts : List ℚ} (hb : L.buffer = p :: ps)
    (ht : L.timeBuffer = t :: ts) : L.popFront = some (p, t, { L with buffer := ps, timeBuffer := ts }) := by
  simp only [Lidar.popFront, hb, ht]

theorem dropUnpaired_defined (n : ℕ) (h : Inv cfg s) (hopen : s.lidarPushed = false) :
    ∃ s', dropUnpaired cfg n s = some s' := by
  induction n generalizing s with
  | zero => exact ⟨s, rfl⟩
  | succ n ih =>
    unfold dropUnpaired
    split
    · rename_i t ts t2 ts2 ht ht2
      obtain ⟨p, ps, hb⟩ := h.lidar.scans ht
      obtain ⟨p2, ps2, hb2⟩ := h.lidar2.scans ht2
      split_ifs with hfar hlt
      · obtain ⟨s', hs'⟩ := ih (h.round (.drop hopen hb ht ht2 hfar hlt)) (by exact hopen)
        refine ⟨s', ?_⟩
        simp only [State.dropScan, popFront_eq hb ht]
        exact hs'
      · obtain ⟨s', hs'⟩ := ih (h.round (.drop2 hopen ht hb2 ht2 hfar (not_lt.1 hlt))) (by exact hopen)
        refine ⟨s', ?_⟩
        simp only [State.dropScan2, popFront_eq hb2 ht2]
        exact hs'
      · exact ⟨s, rfl⟩
    · exact ⟨s, rfl⟩

theorem awaitImu_defined (h : Inv cfg s) (hb : s.lidar.buffer ≠ []) (hb2 : s.lidar2.buffer ≠ [])
    (himu : s.imuBuffer ≠ []) : ∃ r s', awaitImu s = some (r, s') := by
  obtain ⟨p, ps, hb⟩ := List.exists_cons_of_ne_nil hb
  obtain ⟨p2, ps2, hb2⟩ := List.exists_cons_of_ne_nil hb2
  obtain ⟨m, rest, himu⟩ := List.exists_cons_of_ne_nil himu
  unfold awaitImu
  split_ifs
  · exact ⟨_, _, rfl⟩
  · simp only [returnBundle, himu, List.head?_cons, popFront_eq hb (h.lidar.times hb),
      popFront_eq hb2 (h.lidar2.times hb2)]
    exact ⟨_, _, rfl⟩

/-- A call of `sync_packages` never takes the front of an empty deque. -/
theorem syncPackages_defined (h : Inv cfg s) : ∃ r s', syncPackages cfg s = some (r, s') := by
  unfold syncPackages
  split_ifs with hempty hpushed
  · exact ⟨_, _, rfl⟩
  · simp only [Bool.or_eq_true, List.isEmpty_iff, not_or] at hempty
    exact awaitImu_defined h hempty.1.1 hempty.1.2 hempty.2
  · simp only [Bool.or_eq_true, List.isEmpty_iff, not_or] at hempty
    have hopen := Bool.eq_false_iff.2 hpushed
    obtain ⟨u, hu⟩ := dropUnpaired_defined (s.lidar.timeBuffer.length + s.lidar2.timeBuffer.length) h hopen
    obtain ⟨hprep, huopen⟩ := dropUnpaired_rounds hopen hu
    have hinv := hprep.rule (fun t t' ht _ => ht.round) h
    have himu : u.imuBuffer = s.imuBuffer :=
      hprep.rule (Q := fun t => t.imuBuffer = s.imuBuffer) (fun t t' ht hopen hr => by
        cases hr with
        | deliver hpushed => rw [hpushed] at hopen; cases hopen
        | _ => exact ht) rfl
    rw [hu]
    simp only [Option.bind_eq_bind, Option.bind_some]
    split_ifs with hleft
    · exact ⟨_, _, rfl⟩
    · simp only [Bool.or_eq_true, List.isEmpty_iff, not_or] at hleft
      obtain ⟨p, ps, hb⟩ := List.exists_cons_of_ne_nil hleft.1
      obtain ⟨p2, ps2, hb2⟩ := List.exists_cons_of_ne_nil hleft.2
      have ht := hinv.lidar.times hb
      have ht2 := hinv.lidar2.times hb2
      have hlatch := hinv.latch huopen hb ht hb2 ht2 (dropUnpaired_near le_rfl hu ht ht2)
      simp only [pushScans, popFront_eq hb ht, popFront_eq hb2 ht2]
      refine awaitImu_defined hlatch ?_ ?_ ?_
      · rw [show (Lio.latch cfg p _ p2 _ u).lidar.buffer = _ from scanEnd_buffer ..]
        exact hleft.1
      · rw [show (Lio.latch cfg p _ p2 _ u).lidar2.buffer = _ from scanEnd_buffer ..]
        exact hleft.2
      · rw [← himu] at hempty
        exact hempty.2

/-- **Every sequence of callbacks and calls is defined.** -/
theorem reaches_defined (cfg : Params P) (acts : List (Action P W)) : ∃ s, Reaches cfg acts s := by
  induction acts using List.reverseRecOn with
  | nil => exact ⟨_, rfl⟩
  | append_singleton acts a ih =>
    obtain ⟨s, hs⟩ := ih
    have hstep : ∃ s', step cfg a s = some s' := by
      cases a with
      | pcl driver stamp points => exact ⟨_, step_pcl ..⟩
      | pcl2 driver stamp points => exact ⟨_, step_pcl2 ..⟩
      | imu msg => exact ⟨_, rfl⟩
      | sync =>
        obtain ⟨r, s', hs'⟩ := syncPackages_defined (reaches_inv hs)
        exact ⟨s', by simp only [step, hs', Option.map_some]⟩
    obtain ⟨s', hs'⟩ := hstep
    exact ⟨s', Machine.run_snoc.2 ⟨s, hs, hs'⟩⟩

/-! ## Points are re-based once -/

theorem addOffset_forall₂ (offset : ℚ) (f : P → P) (c : Cloud P) :
    List.Forall₂ (fun q o : Point P => q.curvature = o.curvature + offset ∧ q.pos = f o.pos)
      (addOffset offset (transformPointCloud f c)) c := by
  induction c with
  | nil => exact .nil
  | cons o c ih => exact .cons ⟨rfl, rfl⟩ ih

theorem transformPointCloud_id (c : Cloud P) : transformPointCloud id c = c := List.map_id c

/-- An offset that leads from the start of the bundle to the start of the scan. -/
theorem rebased_time {start beg : ℚ} (hle : start ≤ beg) {q o : Point P}
    (h : q.curvature = o.curvature + 1000 * (beg - start)) :
    start + q.curvature / 1000 = beg + o.curvature / 1000 ∧ o.curvature ≤ q.curvature := by
  rw [h]
  constructor
  · ring
  · linarith

/-- **Point times are re-based exactly once**: the points of a returned bundle are those its scans had when queued, in
the same order, at the same times, with offsets from the start of the bundle; those of the second lidar have been moved
once to the frame of the first. -/
theorem retimed_once {acts : List (Action P W)} {s : State P W} (h : Reaches cfg acts s) {b : Bundle P W}
    (hb : b ∈ s.bundles) :
    (b.meas.lidarBegTime, b.meas.lidar.points) ∈ pclMsgs acts ∧
    (b.meas.lidarBegTime2, b.meas.lidar2.points) ∈ pclMsgs2 acts ∧
    List.Forall₂ (fun q o : Point P =>
      min b.meas.lidarBegTime b.meas.lidarBegTime2 + q.curvature / 1000 = b.meas.lidarBegTime + o.curvature / 1000 ∧
        o.curvature ≤ q.curvature ∧ q.pos = o.pos) b.cloud b.meas.lidar.points ∧
    List.Forall₂ (fun q o : Point P =>
      min b.meas.lidarBegTime b.meas.lidarBegTime2 + q.curvature / 1000 = b.meas.lidarBegTime2 + o.curvature / 1000 ∧
        o.curvature ≤ q.curvature ∧ q.pos = cfg.lidar2WrtLidar1 o.pos) b.cloud2 b.meas.lidar2.points := by
  have hinv := reaches_inv h
  have hb' := hinv.bundles b hb
  obtain ⟨hmsg, hmsg2⟩ := arrived_messages h
  obtain ⟨harr, harr2⟩ := hinv.returned b hb
  refine ⟨?_, ?_, ?_, ?_⟩
  · rw [← hmsg, hb'.paired.beg]
    exact List.mem_map_of_mem harr
  · rw [← hmsg2, hb'.paired.beg2]
    exact List.mem_map_of_mem harr2
  · have hall := addOffset_forall₂ (1000 * (b.meas.lidarBegTime - min b.meas.lidarBegTime b.meas.lidarBegTime2)) id
      b.meas.lidar.points
    rw [transformPointCloud_id] at hall
    rw [hb'.cloud]
    refine hall.imp fun q o hqo => ?_
    obtain ⟨htime, hle⟩ := rebased_time (min_le_left _ _) hqo.1
    exact ⟨htime, hle, hqo.2⟩
  · rw [hb'.cloud2]
    refine (addOffset_forall₂ _ _ _).imp fun q o hqo => ?_
    obtain ⟨htime, hle⟩ := rebased_time (min_le_right _ _) hqo.1
    exact ⟨htime, hle, hqo.2⟩

/-- The skew of `mid360.yaml`, and some motion between the frames. -/
def mid360 : Params ℤ := ⟨1 / 20, by norm_num, (· + 100)⟩

/-- Two scans 20 ms apart; the tail of the IMU data comes after two calls. -/
def waitingRun : List (Action ℤ Unit) :=
  [.pcl .livox 10 [⟨1, 0⟩, ⟨2, 90⟩], .pcl2 .livox (10 + 1 / 50) [⟨5, 0⟩, ⟨6, 80⟩], .imu ⟨10, ()⟩, .sync, .sync,
    .imu ⟨10 + 1 / 5, ()⟩, .sync]

theorem reaches_of_any (cfg : Params P) (acts : List (Action P W)) {Q : State P W → Bool}
    (h : (Machine.run (step cfg) acts .init).any Q = true) : ∃ s, Reaches cfg acts s ∧ Q s = true := by
  obtain ⟨s, hs, hQ⟩ := (Option.any_eq_true _ _).1 h
  exact ⟨s, hs, hQ⟩

theorem retimed_once_waiting : ∃ s, Reaches mid360 waitingRun s ∧ ∃ b ∈ s.bundles,
    b.cloud = [⟨1, 0⟩, ⟨2, 90⟩] ∧ b.cloud2 = [⟨105, 20⟩, ⟨106, 100⟩] ∧
    (b.meas.lidarBegTime, b.meas.lidar.points) ∈ pclMsgs waitingRun ∧
    (b.meas.lidarBegTime2, b.meas.lidar2.points) ∈ pclMsgs2 waitingRun ∧
    List.Forall₂ (fun q o : Point ℤ =>
      min b.meas.lidarBegTime b.meas.lidarBegTime2 + q.curvature / 1000 = b.meas.lidarBegTime + o.curvature / 1000 ∧
        o.curvature ≤ q.curvature ∧ q.pos = o.pos) b.cloud b.meas.lidar.points ∧
    List.Forall₂ (fun q o : Point ℤ =>
      min b.meas.lidarBegTime b.meas.lidarBegTime2 + q.curvature / 1000 = b.meas.lidarBegTime2 + o.curvature / 1000 ∧
        o.curvature ≤ q.curvature ∧ q.pos = o.pos + 100) b.cloud2 b.meas.lidar2.points := by
  obtain ⟨s, hs, hq⟩ := reaches_of_any mid360 waitingRun (Q := fun s => s.bundles.any fun b =>
    decide (b.cloud = [⟨1, 0⟩, ⟨2, 90⟩] ∧ b.cloud2 = [⟨105, 20⟩, ⟨106, 100⟩])) (by decide +kernel)
  obtain ⟨b, hb, hclouds⟩ := List.any_eq_true.1 hq
  obtain ⟨hc, hc2⟩ := of_decide_eq_true hclouds
  exact ⟨s, hs, b, hb, hc, hc2, retimed_once hs hb⟩

end Agilex.Lio
