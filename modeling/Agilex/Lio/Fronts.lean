import Agilex.Lio.Latch

/-!
# The popped scans are the returned ones

A call that returns a bundle pops whatever is at the front of the queues then. `Fronts` says that this is what the
latched bundle holds. A message with a backward stamp that arrives while a bundle is latched breaks it
(`loop_back_loses_scan`), and nothing else does; and where no loop back clears a scan that came after an earlier one,
every such scan is queued, returned or dropped for its skew (`fronts_held`). With stamps that do not decrease the fronts
are always held (`fronts_of_sorted`).
-/

namespace Agilex.Lio

open Agilex.Lib

variable {P W : Type} {cfg : Params P} {s s' : State P W}

/-- The scans and start times of a latched bundle are the fronts of the queues. -/
def FrontsHeld (s : State P W) : Prop :=
  s.lidarPushed = true →
    s.lidar.buffer.head? = some s.meas.lidar ∧ s.lidar.timeBuffer.head? = some s.meas.lidarBegTime ∧
    s.lidar2.buffer.head? = some s.meas.lidar2 ∧ s.lidar2.timeBuffer.head? = some s.meas.lidarBegTime2

/-- The fronts are held, and what was popped is what was returned. -/
structure Fronts (cfg : Params P) (s : State P W) : Prop extends Inv cfg s where
  held : FrontsHeld s
  popped : s.lidar.popped = s.bundles.map fun b => b.meas.lidar
  popped2 : s.lidar2.popped = s.bundles.map fun b => b.meas.lidar2

/-- A lidar message with a backward stamp does not arrive while a bundle is latched. -/
def NoLoopBackLatched (a : Action P W) (s : State P W) : Prop :=
  match a with
  | .pcl _ stamp _ => s.lidarPushed = true → s.lidar.lastTimestamp ≤ stamp
  | .pcl2 _ stamp _ => s.lidarPushed = true → s.lidar2.lastTimestamp ≤ stamp
  | _ => True

instance : ∀ (a : Action P W) (s : State P W), Decidable (NoLoopBackLatched a s)
  | .pcl _ stamp _, s => inferInstanceAs (Decidable (s.lidarPushed = true → s.lidar.lastTimestamp ≤ stamp))
  | .pcl2 _ stamp _, s => inferInstanceAs (Decidable (s.lidarPushed = true → s.lidar2.lastTimestamp ≤ stamp))
  | .imu _, _ => inferInstanceAs (Decidable True)
  | .sync, _ => inferInstanceAs (Decidable True)

/-- The scans that come with a backward stamp: each clears the queues of its lidar and joins them. -/
def loopBacks : ℚ → List (Scan P) → List (Scan P)
  | _, [] => []
  | last, p :: ps => if p.stamp < last then p :: loopBacks p.stamp ps else loopBacks p.stamp ps

/-- A scan that is received after a loop back, of either lidar, has cleared queues. -/
def State.AfterLoopBack (s : State P W) (p : Scan P) : Prop :=
  ∃ q ∈ loopBacks 0 s.lidar.arrived ++ loopBacks 0 s.lidar2.arrived, q.num ≤ p.num

instance (s : State P W) (p : Scan P) : Decidable (s.AfterLoopBack p) :=
  inferInstanceAs (Decidable (∃ q ∈ loopBacks 0 s.lidar.arrived ++ loopBacks 0 s.lidar2.arrived, q.num ≤ p.num))

/-- A message with a backward stamp does not clear a scan that was received after an earlier loop back. -/
def NoLaterClear (a : Action P W) (s : State P W) : Prop :=
  match a with
  | .pcl _ stamp _ => stamp < s.lidar.lastTimestamp → ∀ p ∈ s.lidar.buffer, ¬s.AfterLoopBack p
  | .pcl2 _ stamp _ => stamp < s.lidar2.lastTimestamp → ∀ p ∈ s.lidar2.buffer, ¬s.AfterLoopBack p
  | _ => True

instance : ∀ (a : Action P W) (s : State P W), Decidable (NoLaterClear a s)
  | .pcl _ stamp _, s =>
    inferInstanceAs (Decidable (stamp < s.lidar.lastTimestamp → ∀ p ∈ s.lidar.buffer, ¬s.AfterLoopBack p))
  | .pcl2 _ stamp _, s =>
    inferInstanceAs (Decidable (stamp < s.lidar2.lastTimestamp → ∀ p ∈ s.lidar2.buffer, ¬s.AfterLoopBack p))
  | .imu _, _ => inferInstanceAs (Decidable True)
  | .sync, _ => inferInstanceAs (Decidable True)

/-- Loop backs come while no bundle is latched, and clear what came before the first of them only. -/
def LoopsBackOnce (a : Action P W) (s : State P W) : Prop := NoLoopBackLatched a s ∧ NoLaterClear a s

instance (a : Action P W) (s : State P W) : Decidable (LoopsBackOnce a s) :=
  inferInstanceAs (Decidable (NoLoopBackLatched a s ∧ NoLaterClear a s))

theorem standardPcl_popped (scan : Scan P) (L : Lidar P) : (L.standardPcl scan).popped = L.popped := by
  simp only [Lidar.standardPcl, Lidar.loopBack]
  split_ifs <;> rfl

/-- A message without a backward stamp joins the back of the queues. -/
theorem standardPcl_heads (scan : Scan P) {p : Scan P} {t : ℚ} {L : Lidar P} (hforward : L.lastTimestamp ≤ scan.stamp)
    (hb : L.buffer.head? = some p) (ht : L.timeBuffer.head? = some t) :
    (L.standardPcl scan).buffer.head? = some p ∧ (L.standardPcl scan).timeBuffer.head? = some t := by
  simp only [Lidar.standardPcl, Lidar.Ok.loopBack_forward hforward, List.head?_append, hb, ht, Option.some_or, and_self]

theorem Fronts.init : Fronts cfg (State.init : State P W) :=
  { Inv.init with
    held := fun h => Bool.noConfusion h
    popped := rfl
    popped2 := rfl }

theorem Fronts.pcl (h : Fronts cfg s) {stamp : ℚ} {points : Cloud P}
    (hforward : s.lidarPushed = true → s.lidar.lastTimestamp ≤ stamp) : Fronts cfg (standardPclCbk stamp points s) where
  toInv := h.toInv.pcl stamp points
  held hpushed := by
    obtain ⟨hb, ht, hb2, ht2⟩ := h.held hpushed
    obtain ⟨hb', ht'⟩ := standardPcl_heads (s.newScan stamp points) (hforward hpushed) hb ht
    exact ⟨hb', ht', hb2, ht2⟩
  popped := (standardPcl_popped ..).trans h.popped
  popped2 := h.popped2

theorem Fronts.pcl2 (h : Fronts cfg s) {stamp : ℚ} {points : Cloud P}
    (hforward : s.lidarPushed = true → s.lidar2.lastTimestamp ≤ stamp) : Fronts cfg (standardPclCbk2 stamp points s) where
  toInv := h.toInv.pcl2 stamp points
  held hpushed := by
    obtain ⟨hb, ht, hb2, ht2⟩ := h.held hpushed
    obtain ⟨hb', ht'⟩ := standardPcl_heads (s.newScan stamp points) (hforward hpushed) hb2 ht2
    exact ⟨hb, ht, hb', ht'⟩
  popped := h.popped
  popped2 := (standardPcl_popped ..).trans h.popped2

theorem Fronts.imu (h : Fronts cfg s) (msg : Imu W) : Fronts cfg (imuCbk msg s) := by
  have hinv := h.toInv.imu msg
  obtain ⟨b, t, hs⟩ := imuCbk_cases msg s
  rw [hs] at hinv ⊢
  exact { hinv with held := h.held, popped := h.popped, popped2 := h.popped2 }

theorem scanEnd_queues (beg : ℚ) (c : Cloud P) (L : Lidar P) :
    (L.scanEnd beg c).buffer = L.buffer ∧ (L.scanEnd beg c).timeBuffer = L.timeBuffer ∧
    (L.scanEnd beg c).popped = L.popped := by
  obtain ⟨e, m, k, h⟩ := scanEnd_eq beg c L
  rw [h]
  exact ⟨rfl, rfl, rfl⟩

theorem Fronts.round (h : Fronts cfg s) (hr : Round cfg s s') : Fronts cfg s' := by
  have hinv := h.toInv.round hr
  cases hr with
  | drop hopen =>
    refine { hinv with held := fun hp => ?_, popped := h.popped, popped2 := h.popped2 }
    exact absurd hp (by simp [hopen])
  | drop2 hopen =>
    refine { hinv with held := fun hp => ?_, popped := h.popped, popped2 := h.popped2 }
    exact absurd hp (by simp [hopen])
  | latch hopen hb ht hb2 ht2 hnear =>
    rename_i p ps t ts p2 ps2 t2 ts2
    have hq := scanEnd_queues t (s.clouds p.num) s.lidar
    have hq2 := scanEnd_queues t2 (mutate p2 (transformPointCloud cfg.lidar2WrtLidar1) s.clouds p2.num) s.lidar2
    refine { hinv with held := fun _ => ⟨?_, ?_, ?_, ?_⟩, popped := hq.2.2.trans h.popped, popped2 := hq2.2.2.trans h.popped2 }
    · exact (congrArg List.head? (hq.1.trans hb)).trans List.head?_cons
    · exact (congrArg List.head? (hq.2.1.trans ht)).trans List.head?_cons
    · exact (congrArg List.head? (hq2.1.trans hb2)).trans List.head?_cons
    · exact (congrArg List.head? (hq2.2.1.trans ht2)).trans List.head?_cons
  | deliver hpushed himu hend hend2 hb ht hb2 ht2 =>
    rename_i front rest p ps t ts p2 ps2 t2 ts2
    obtain ⟨hp, -, hp2, -⟩ := h.held hpushed
    obtain rfl : p = s.meas.lidar := by simpa [hb] using hp
    obtain rfl : p2 = s.meas.lidar2 := by simpa [hb2] using hp2
    refine { hinv with held := fun hp => Bool.noConfusion hp, popped := ?_, popped2 := ?_ }
    · simp only [deliver, List.map_append, List.map_cons, List.map_nil, h.popped]
    · simp only [deliver, List.map_append, List.map_cons, List.map_nil, h.popped2]

theorem Fronts.step {a : Action P W} (h : Fronts cfg s) (hc : NoLoopBackLatched a s) (ha : step cfg a s = some s') :
    Fronts cfg s' := by
  refine step_rule (Q := Fronts cfg) (fun d stamp points he => ?_) (fun d stamp points he => ?_) h.imu
    (fun t t' ht hr => ht.round hr) ha h
  · subst he
    exact h.pcl hc
  · subst he
    exact h.pcl2 hc

/-! ## A call that returns a bundle -/

/-- What one queue goes through in a call: scans are dropped from its front. -/
def Lidar.Drops (d : List (Scan P)) (L L' : Lidar P) : Prop :=
  L'.dropped = L.dropped ++ d ∧ L.buffer = d ++ L'.buffer ∧ L.timeBuffer = d.map Scan.stamp ++ L'.timeBuffer

theorem Lidar.Drops.refl (L : Lidar P) : L.Drops [] L := ⟨(List.append_nil _).symm, rfl, rfl⟩

theorem Lidar.Drops.drop {n : ℕ} {clouds : ℕ → Cloud P} {held : Option (Scan P × Cloud P)} {L L' : Lidar P}
    {d : List (Scan P)} (h : L.Drops d L') (hok : L'.Ok n clouds held) {p : Scan P} {ps : List (Scan P)} {t : ℚ}
    {ts : List ℚ} (hb : L'.buffer = p :: ps) (ht : L'.timeBuffer = t :: ts) :
    L.Drops (d ++ [p]) { L' with buffer := ps, timeBuffer := ts, dropped := L'.dropped ++ [p] } := by
  obtain ⟨hd, hq, hts⟩ := h
  obtain ⟨rfl, -⟩ := hok.front_stamp hb ht
  refine ⟨?_, ?_, ?_⟩
  · simp only [hd, List.append_assoc]
  · simp only [hq, hb, List.append_assoc, List.singleton_append]
  · simp only [hts, ht, List.map_append, List.map_cons, List.map_nil, List.append_assoc, List.singleton_append]

theorem Lidar.Drops.scanEnd {L L' : Lidar P} {d : List (Scan P)} (h : L.Drops d L') (beg : ℚ) (c : Cloud P) :
    L.Drops d (L'.scanEnd beg c) := by
  obtain ⟨e, m, k, hq⟩ := scanEnd_eq beg c L'
  rw [hq]
  exact h

/-- Until a bundle is returned, a call only drops scans, and none if a bundle was latched before. -/
theorem Prepares.drops (h : Inv cfg s) (hprep : Prepares cfg s s') :
    ∃ d d2, s.lidar.Drops d s'.lidar ∧ s.lidar2.Drops d2 s'.lidar2 ∧ (s.lidarPushed = true → d = [] ∧ d2 = []) := by
  refine (hprep.rule (Q := fun t => Inv cfg t ∧ (s.lidarPushed = true → t = s) ∧
    ∃ d d2, s.lidar.Drops d t.lidar ∧ s.lidar2.Drops d2 t.lidar2 ∧ (s.lidarPushed = true → d = [] ∧ d2 = []))
    (fun t t' ht hopen hr => ?_) ⟨h, fun _ => rfl, [], [], .refl _, .refl _, fun _ => ⟨rfl, rfl⟩⟩).2.2
  obtain ⟨hinv, hsame, d, d2, hd, hd2, hnil⟩ := ht
  have hs : s.lidarPushed = false := by
    by_contra hs
    have hpushed := Bool.eq_true_of_not_eq_false hs
    rw [hsame hpushed, hpushed] at hopen
    cases hopen
  have hno : ∀ {p : Prop}, s.lidarPushed = true → p := fun hp => by rw [hs] at hp; cases hp
  refine ⟨hinv.round hr, hno, ?_⟩
  cases hr with
  | drop hopen hb ht => exact ⟨_, d2, hd.drop hinv.lidar hb ht, hd2, hno⟩
  | drop2 hopen ht hb2 ht2 => exact ⟨d, _, hd, hd2.drop hinv.lidar2 hb2 ht2, hno⟩
  | latch => exact ⟨d, d2, hd.scanEnd _ _, hd2.scanEnd _ _, hno⟩
  | deliver hpushed =>
    rw [hpushed] at hopen
    cases hopen

/-- What one queue goes through in a call that returns the scan `p`, which starts at `t`: the scans `d` are dropped from
its front, then `p` is removed. -/
def Lidar.Removes (d : List (Scan P)) (p : Scan P) (t : ℚ) (L L' : Lidar P) : Prop :=
  L'.dropped = L.dropped ++ d ∧ L.buffer = d ++ p :: L'.buffer ∧ L.timeBuffer = d.map Scan.stamp ++ t :: L'.timeBuffer

/-- **The bundle that is latched is the one that is returned**, and its scans are popped. -/
theorem Fronts.returns (h : Fronts cfg s) (hpushed : s.lidarPushed = true) (hr : Round cfg s s') :
    ∃ front ps ts ps2 ts2,
      (s.lidar.buffer = s.meas.lidar :: ps ∧ s.lidar.timeBuffer = s.meas.lidarBegTime :: ts) ∧
      (s.lidar2.buffer = s.meas.lidar2 :: ps2 ∧ s.lidar2.timeBuffer = s.meas.lidarBegTime2 :: ts2) ∧
      s' = deliver front s.meas.lidar { s.lidar with buffer := ps, timeBuffer := ts } s.meas.lidar2
        { s.lidar2 with buffer := ps2, timeBuffer := ts2 } s := by
  obtain ⟨front, rest, p, ps, t, ts, p2, ps2, t2, ts2, -, -, ⟨hb, ht⟩, ⟨hb2, ht2⟩, rfl⟩ := hr.returns hpushed
  obtain ⟨hp, htp, hp2, htp2⟩ := h.held hpushed
  rw [hb, List.head?_cons, Option.some.injEq] at hp
  rw [ht, List.head?_cons, Option.some.injEq] at htp
  rw [hb2, List.head?_cons, Option.some.injEq] at hp2
  rw [ht2, List.head?_cons, Option.some.injEq] at htp2
  subst hp htp hp2 htp2
  exact ⟨front, ps, ts, ps2, ts2, ⟨hb, ht⟩, ⟨hb2, ht2⟩, rfl⟩

theorem Fronts.removes (h : Fronts cfg s) (hs : syncPackages cfg s = some (true, s')) :
    ∃ d d2, s.lidar.Removes d s'.meas.lidar s'.meas.lidarBegTime s'.lidar ∧
      s.lidar2.Removes d2 s'.meas.lidar2 s'.meas.lidarBegTime2 s'.lidar2 ∧ (s.lidarPushed = true → d = [] ∧ d2 = []) := by
  rcases syncPackages_rounds hs with ⟨hr, -⟩ | ⟨-, t, hprep, hpushed, hlast⟩
  · cases hr
  obtain ⟨d, d2, ⟨hd, hb, ht⟩, ⟨hd2, hb2, ht2⟩, hnil⟩ := hprep.drops h.toInv
  have hf := hprep.rule (fun t t' ht _ => ht.round) h
  obtain ⟨front, ps, ts, ps2, ts2, ⟨hq, hts⟩, ⟨hq2, hts2⟩, rfl⟩ := hf.returns hpushed hlast
  rw [hq] at hb
  rw [hts] at ht
  rw [hq2] at hb2
  rw [hts2] at ht2
  exact ⟨d, d2, ⟨hd, hb, ht⟩, ⟨hd2, hb2, ht2⟩, hnil⟩

/-! ## Scans that come after a loop back -/

theorem loopBacks_snoc (last : ℚ) (l : List (Scan P)) (p : Scan P) :
    loopBacks last (l ++ [p]) ⊆ loopBacks last l ++ [p] := by
  induction l generalizing last with
  | nil =>
    simp only [List.nil_append, loopBacks]
    split_ifs <;> simp
  | cons q l ih =>
    simp only [List.cons_append, loopBacks]
    split_ifs
    · exact List.cons_subset_cons q (ih q.stamp)
    · exact ih q.stamp

/-- No cleared scan came after a loop back. -/
def Kept (s : State P W) : Prop := ∀ p ∈ s.lidar.cleared ++ s.lidar2.cleared, ¬s.AfterLoopBack p

theorem Kept.init : Kept (State.init : State P W) := by
  simp [Kept, State.init, Lidar.init]

theorem Lidar.Ok.cleared_arrived {n : ℕ} {clouds : ℕ → Cloud P} {held : Option (Scan P × Cloud P)} {L : Lidar P}
    (h : L.Ok n clouds held) {p : Scan P} (hp : p ∈ L.cleared) : p ∈ L.arrived :=
  h.accounted.subset (List.mem_append_left _ (List.mem_append_right _ hp))

/-- What a message clears was queued, and there is a backward stamp. -/
theorem standardPcl_cleared (scan : Scan P) {L : Lidar P} {p : Scan P} (hp : p ∈ (L.standardPcl scan).cleared) :
    p ∈ L.cleared ∨ p ∈ L.buffer ∧ scan.stamp < L.lastTimestamp := by
  simp only [Lidar.standardPcl, Lidar.loopBack] at hp
  split_ifs at hp with hback
  · exact (List.mem_append.1 hp).imp_right fun hb => ⟨hb, hback⟩
  · exact Or.inl hp

/-- A message does not bring a loop back before the scans that came before it. -/
theorem afterLoopBack_receive {scan p : Scan P}
    (hs : s'.lidar.arrived = s.lidar.arrived ++ [scan] ∧ s'.lidar2.arrived = s.lidar2.arrived ∨
      s'.lidar.arrived = s.lidar.arrived ∧ s'.lidar2.arrived = s.lidar2.arrived ++ [scan])
    (hlt : p.num < scan.num) (h : s'.AfterLoopBack p) : s.AfterLoopBack p := by
  obtain ⟨q, hq, hle⟩ := h
  have hq' : q ∈ loopBacks 0 s.lidar.arrived ++ loopBacks 0 s.lidar2.arrived ∨ q = scan := by
    rcases hs with ⟨h1, h2⟩ | ⟨h1, h2⟩ <;> rw [h1, h2] at hq <;> rcases List.mem_append.1 hq with hq | hq
    · have := loopBacks_snoc _ _ _ hq
      simp only [List.mem_append, List.mem_singleton] at this ⊢
      tauto
    · exact Or.inl (List.mem_append_right _ hq)
    · exact Or.inl (List.mem_append_left _ hq)
    · have := loopBacks_snoc _ _ _ hq
      simp only [List.mem_append, List.mem_singleton] at this ⊢
      tauto
  rcases hq' with hq' | rfl
  · exact ⟨q, hq', hle⟩
  · exact absurd hle (not_le.2 hlt)

theorem Kept.pcl (h : Kept s) (hinv : Inv cfg s) {stamp : ℚ} {points : Cloud P}
    (hc : stamp < s.lidar.lastTimestamp → ∀ p ∈ s.lidar.buffer, ¬s.AfterLoopBack p) :
    Kept (standardPclCbk stamp points s) := by
  intro p hp hafter
  have harr : p ∈ s.lidar.arrived ∨ p ∈ s.lidar2.arrived := by
    rcases List.mem_append.1 hp with hp | hp
    · refine Or.inl ((standardPcl_cleared _ hp).elim hinv.lidar.cleared_arrived fun hb => hinv.lidar.arrived hb.1)
    · exact Or.inr (hinv.lidar2.cleared_arrived hp)
  have hlt : p.num < (s.newScan stamp points).num := harr.elim (hinv.lidar.fresh p) (hinv.lidar2.fresh p)
  have hbefore : s.AfterLoopBack p := by
    refine afterLoopBack_receive ?_ hlt hafter
    exact Or.inl ⟨standardPcl_arrived .., rfl⟩
  rcases List.mem_append.1 hp with hp | hp
  · rcases standardPcl_cleared _ hp with hp | ⟨hp, hback⟩
    · exact h p (List.mem_append_left _ hp) hbefore
    · exact hc hback p hp hbefore
  · exact h p (List.mem_append_right _ hp) hbefore

theorem Kept.pcl2 (h : Kept s) (hinv : Inv cfg s) {stamp : ℚ} {points : Cloud P}
    (hc : stamp < s.lidar2.lastTimestamp → ∀ p ∈ s.lidar2.buffer, ¬s.AfterLoopBack p) :
    Kept (standardPclCbk2 stamp points s) := by
  intro p hp hafter
  have harr : p ∈ s.lidar.arrived ∨ p ∈ s.lidar2.arrived := by
    rcases List.mem_append.1 hp with hp | hp
    · exact Or.inl (hinv.lidar.cleared_arrived hp)
    · refine Or.inr ((standardPcl_cleared _ hp).elim hinv.lidar2.cleared_arrived fun hb => hinv.lidar2.arrived hb.1)
  have hlt : p.num < (s.newScan stamp points).num := harr.elim (hinv.lidar.fresh p) (hinv.lidar2.fresh p)
  have hbefore : s.AfterLoopBack p := by
    refine afterLoopBack_receive ?_ hlt hafter
    exact Or.inr ⟨rfl, standardPcl_arrived ..⟩
  rcases List.mem_append.1 hp with hp | hp
  · exact h p (List.mem_append_left _ hp) hbefore
  · rcases standardPcl_cleared _ hp with hp | ⟨hp, hback⟩
    · exact h p (List.mem_append_right _ hp) hbefore
    · exact hc hback p hp hbefore

theorem Round.cleared (hr : Round cfg s s') :
    s'.lidar.cleared = s.lidar.cleared ∧ s'.lidar2.cleared = s.lidar2.cleared := by
  cases hr with
  | latch => exact ⟨scanEnd_cleared .., scanEnd_cleared ..⟩
  | _ => exact ⟨rfl, rfl⟩

theorem Kept.step {a : Action P W} (h : Kept s) (hinv : Inv cfg s) (hc : NoLaterClear a s) (ha : step cfg a s = some s') :
    Kept s' := by
  refine step_rule (Q := Kept) (fun d stamp points he => ?_) (fun d stamp points he => ?_) (fun msg => ?_)
    (fun t t' ht hr => ?_) ha h
  · subst he
    exact h.pcl hinv hc
  · subst he
    exact h.pcl2 hinv hc
  · obtain ⟨b, t, hs⟩ := imuCbk_cases msg s
    rw [hs]
    exact h
  · unfold Kept State.AfterLoopBack at ht ⊢
    rw [hr.cleared.1, hr.cleared.2, hr.arrived.1, hr.arrived.2]
    exact ht

theorem reaches_kept {acts : List (Action P W)} (h : Reaches cfg acts s)
    (hc : Machine.Along (step cfg) LoopsBackOnce acts .init) : Fronts cfg s ∧ Kept s :=
  Machine.run_invariant_along (P := fun s => Fronts cfg s ∧ Kept s)
    (fun _ _ _ hc hs ha => ⟨hs.1.step hc.1 ha, hs.2.step hs.1.toInv hc.2 ha⟩) ⟨.init, .init⟩ h hc

/-- A scan that has arrived and was not cleared is returned, dropped for its skew, or queued. -/
theorem Lidar.Ok.whereabouts {n : ℕ} {clouds : ℕ → Cloud P} {held : Option (Scan P × Cloud P)} {L : Lidar P}
    (h : L.Ok n clouds held) {p : Scan P} (hp : p ∈ L.arrived) (hc : p ∉ L.cleared) :
    p ∈ L.popped ∨ p ∈ L.dropped ∨ p ∈ L.buffer := by
  have hmem := h.accounted.symm.subset hp
  simp only [List.mem_append, hc, or_false, or_assoc] at hmem
  exact hmem

/-- **The popped scan is the returned scan** in every run in which a message with a backward stamp arrives only while no
bundle is latched and clears no scan that came after an earlier one: what the bundle holds are the fronts, a call that
returns removes its two scans besides those it drops, every scan is queued, returned, dropped for its skew or cleared by
a loop back, each once, and those that came after a loop back are not cleared. -/
theorem fronts_held {acts : List (Action P W)} (h : Reaches cfg acts s)
    (hc : Machine.Along (step cfg) LoopsBackOnce acts .init) :
    FrontsHeld s ∧
    (∀ s', syncPackages cfg s = some (true, s') →
      ∃ d d2, s.lidar.Removes d s'.meas.lidar s'.meas.lidarBegTime s'.lidar ∧
        s.lidar2.Removes d2 s'.meas.lidar2 s'.meas.lidarBegTime2 s'.lidar2 ∧
        (s.lidarPushed = true → d = [] ∧ d2 = [])) ∧
    (s.bundles.map (fun b => b.meas.lidar) ++ s.lidar.dropped ++ s.lidar.cleared ++ s.lidar.buffer).Perm s.lidar.arrived ∧
    (s.bundles.map (fun b => b.meas.lidar2) ++ s.lidar2.dropped ++ s.lidar2.cleared ++ s.lidar2.buffer).Perm
      s.lidar2.arrived ∧
    (∀ p ∈ s.lidar.arrived, s.AfterLoopBack p →
      (∃ b ∈ s.bundles, b.meas.lidar = p) ∨ p ∈ s.lidar.dropped ∨ p ∈ s.lidar.buffer) ∧
    ∀ p ∈ s.lidar2.arrived, s.AfterLoopBack p →
      (∃ b ∈ s.bundles, b.meas.lidar2 = p) ∨ p ∈ s.lidar2.dropped ∨ p ∈ s.lidar2.buffer := by
  obtain ⟨hf, hk⟩ := reaches_kept h hc
  refine ⟨hf.held, fun s' hs => hf.removes hs, ?_, ?_, fun p hp hafter => ?_, fun p hp hafter => ?_⟩
  · rw [← hf.popped]
    exact hf.lidar.accounted
  · rw [← hf.popped2]
    exact hf.lidar2.accounted
  · have hw := hf.lidar.whereabouts hp fun hcl => hk p (List.mem_append_left _ hcl) hafter
    rw [hf.popped, List.mem_map] at hw
    exact hw
  · have hw := hf.lidar2.whereabouts hp fun hcl => hk p (List.mem_append_right _ hcl) hafter
    rw [hf.popped2, List.mem_map] at hw
    exact hw

/-- A bundle is returned after a wait; then the clocks of both lidars jump back, one scan of the first is cleared, and the
scans that come after the jump make a second bundle. -/
def jumpRun : List (Action ℤ Unit) :=
  waitingRun ++ [.pcl .livox 11 [⟨7, 0⟩, ⟨8, 90⟩], .pcl .standard 5 [⟨3, 0⟩, ⟨4, 90⟩],
    .pcl2 .livox (5 + 1 / 50) [⟨9, 0⟩, ⟨10, 80⟩], .imu ⟨5, ()⟩, .sync, .imu ⟨5 + 1 / 5, ()⟩, .sync]

theorem fronts_held_jump : ∃ s, Reaches mid360 jumpRun s ∧ s.bundles.length = 2 ∧ s.lidar.cleared.length = 1 ∧
    FrontsHeld s ∧ (s.bundles.map (fun b => b.meas.lidar) ++ s.lidar.dropped ++ s.lidar.cleared ++ s.lidar.buffer).Perm
      s.lidar.arrived ∧ ∃ p ∈ s.lidar.arrived, s.AfterLoopBack p ∧
        ((∃ b ∈ s.bundles, b.meas.lidar = p) ∨ p ∈ s.lidar.dropped ∨ p ∈ s.lidar.buffer) := by
  obtain ⟨s, hs, hq⟩ := reaches_of_any mid360 jumpRun
    (Q := fun s : State ℤ Unit => decide (s.bundles.length = 2 ∧ s.lidar.cleared.length = 1 ∧
      ∃ p ∈ s.lidar.arrived, s.AfterLoopBack p)) (by decide +kernel)
  obtain ⟨hb, hcl, p, hp, hafter⟩ := of_decide_eq_true hq
  have hc : Machine.Along (step mid360) LoopsBackOnce jumpRun .init :=
    Machine.along_of_check (by decide +kernel)
  have hf := fronts_held hs hc
  exact ⟨s, hs, hb, hcl, hf.1, hf.2.2.1, p, hp, hafter, hf.2.2.2.2.1 p hp hafter⟩

/-- While a bundle waits for IMU data, the clock of the first lidar jumps back. -/
def loopBackRun : List (Action ℤ Unit) :=
  [.pcl .livox 10 [⟨1, 0⟩, ⟨2, 90⟩], .pcl2 .livox (10 + 1 / 50) [⟨5, 0⟩, ⟨6, 80⟩], .imu ⟨10, ()⟩, .sync,
    .pcl .livox 5 [⟨3, 0⟩, ⟨4, 90⟩], .imu ⟨10 + 1 / 5, ()⟩]

/-- **A loop back while a bundle is latched loses a scan**: the fronts are not held any more, and the call that returns the
bundle pops a scan that came after the clear and is neither returned nor dropped for its skew. -/
theorem loop_back_loses_scan : ∃ s s', Reaches mid360 loopBackRun s ∧ syncPackages mid360 s = some (true, s') ∧
    s.lidarPushed = true ∧ ¬FrontsHeld s ∧ ∃ p ∈ s.lidar.buffer, p ∉ s'.lidar.buffer ∧
      (∀ b ∈ s'.bundles, b.meas.lidar ≠ p) ∧ p ∉ s'.lidar.dropped ∧ p ∉ s'.lidar.cleared := by
  obtain ⟨s, hs, hq⟩ := reaches_of_any mid360 loopBackRun
    (Q := fun s : State ℤ Unit => s.lidarPushed && (decide (s.lidar.buffer.head? ≠ some s.meas.lidar) &&
      (syncPackages mid360 s).any fun r : Bool × State ℤ Unit => r.1 && s.lidar.buffer.any fun p => decide (p ∉ r.2.lidar.buffer ∧
        (∀ b ∈ r.2.bundles, b.meas.lidar ≠ p) ∧ p ∉ r.2.lidar.dropped ∧ p ∉ r.2.lidar.cleared))) (by decide +kernel)
  simp only [Bool.and_eq_true, Option.any_eq_true, List.any_eq_true, decide_eq_true_eq] at hq
  obtain ⟨hpushed, hne, ⟨r, s'⟩, hsync, hr, p, hp, hlost⟩ := hq
  simp only at hr
  subst hr
  exact ⟨s, s', hs, hsync, hpushed, fun hheld => hne (hheld hpushed).1, p, hp, hlost⟩

/-! ## Stamps that do not decrease -/

theorem pclMsgs_append (l l' : List (Action P W)) : pclMsgs (l ++ l') = pclMsgs l ++ pclMsgs l' := List.filterMap_append

theorem pclMsgs2_append (l l' : List (Action P W)) : pclMsgs2 (l ++ l') = pclMsgs2 l ++ pclMsgs2 l' :=
  List.filterMap_append

namespace Lidar.Ok

variable {n : ℕ} {clouds : ℕ → Cloud P} {held : Option (Scan P × Cloud P)} {L : Lidar P}

/-- A message that is not before any other is not before the last one. -/
theorem forward (h : L.Ok n clouds held) (hne : L.arrived ≠ []) {stamp : ℚ} (hord : ∀ p ∈ L.arrived, p.stamp ≤ stamp) :
    L.lastTimestamp ≤ stamp := by
  obtain ⟨p, hp⟩ : ∃ p, L.arrived.getLast? = some p := ⟨_, List.getLast?_eq_some_getLast hne⟩
  rw [h.last p hp]
  exact hord p (List.mem_of_getLast? hp)

theorem messages_le {msgs : List (ℚ × Cloud P)} (hmsgs : L.arrived.map (fun p => (p.stamp, p.points)) = msgs) {stamp : ℚ}
    (hord : ∀ m ∈ msgs, m.1 ≤ stamp) : ∀ p ∈ L.arrived, p.stamp ≤ stamp := by
  intro p hp
  refine hord (p.stamp, p.points) ?_
  rw [← hmsgs]
  exact List.mem_map_of_mem (f := fun p : Scan P => (p.stamp, p.points)) hp

end Lidar.Ok

/-- **With stamps that do not decrease, the popped scans are the returned ones.** -/
theorem fronts_of_sorted {acts : List (Action P W)} (h : Reaches cfg acts s)
    (hord : (pclMsgs acts).Pairwise fun m m' => m.1 ≤ m'.1) (hord2 : (pclMsgs2 acts).Pairwise fun m m' => m.1 ≤ m'.1) :
    Fronts cfg s := by
  refine Machine.run_induction (P := fun acts (s : State P W) => (pclMsgs acts).Pairwise (fun m m' => m.1 ≤ m'.1) →
    (pclMsgs2 acts).Pairwise (fun m m' => m.1 ≤ m'.1) → Fronts cfg s) (fun _ _ => .init)
    (fun l s a s' hl ih ha hord hord2 => ?_) h hord hord2
  rw [pclMsgs_append] at hord
  rw [pclMsgs2_append] at hord2
  obtain ⟨hpre, -, hlast⟩ := List.pairwise_append.1 hord
  obtain ⟨hpre2, -, hlast2⟩ := List.pairwise_append.1 hord2
  have hf := ih hpre hpre2
  obtain ⟨hmsgs, hmsgs2⟩ := arrived_messages hl
  refine hf.step ?_ ha
  cases a with
  | pcl driver stamp points =>
    intro hpushed
    have hok := hf.lidar
    rw [held_pushed hpushed] at hok
    exact hok.forward (List.ne_nil_of_mem (hok.held_mem _ rfl))
      (Lidar.Ok.messages_le hmsgs fun m hm => hlast m hm (stamp, points) List.mem_cons_self)
  | pcl2 driver stamp points =>
    intro hpushed
    have hok := hf.lidar2
    rw [held2_pushed hpushed] at hok
    exact hok.forward (List.ne_nil_of_mem (hok.held_mem _ rfl))
      (Lidar.Ok.messages_le hmsgs2 fun m hm => hlast2 m hm (stamp, points) List.mem_cons_self)
  | imu => trivial
  | sync => trivial

end Agilex.Lio
