import Agilex.Lio.Sync

/-!
# What a call of `sync_packages` is made of

A call is a sequence of rounds (`Round`): drops of the pairing loop, the latching of a bundle, and its return, after
which the call is over (`syncPackages_rounds`). What callbacks and rounds keep holds in every state reached
(`reaches_rule`).
-/

namespace Agilex.Lio

open Agilex.Lib

variable {P W : Type} {cfg : Params P}

/-- The callbacks of the two drivers do the same. -/
@[simp] theorem step_pcl (driver : Driver) (stamp : ℚ) (points : Cloud P) (s : State P W) :
    step cfg (.pcl driver stamp points) s = some (standardPclCbk stamp points s) := by
  cases driver <;> rfl

@[simp] theorem step_pcl2 (driver : Driver) (stamp : ℚ) (points : Cloud P) (s : State P W) :
    step cfg (.pcl2 driver stamp points) s = some (standardPclCbk2 stamp points s) := by
  cases driver <;> rfl

theorem popFront_some {L L' : Lidar P} {p : Scan P} {t : ℚ} (h : L.popFront = some (p, t, L')) :
    ∃ ps ts, L.buffer = p :: ps ∧ L.timeBuffer = t :: ts ∧ L' = { L with buffer := ps, timeBuffer := ts } := by
  unfold Lidar.popFront at h
  split at h
  · rename_i q ps u ts hb ht
    simp only [Option.some.injEq, Prod.mk.injEq] at h
    obtain ⟨rfl, rfl, rfl⟩ := h
    exact ⟨ps, ts, hb, ht, rfl⟩
  · cases h

/-- A part of a call of `sync_packages`, while no bundle is latched (`drop`, `drop2`, `latch`) or once one is
(`deliver`). -/
inductive Round (cfg : Params P) : State P W → State P W → Prop
  | drop {s : State P W} {p ps t ts t2 ts2} (hopen : s.lidarPushed = false) (hb : s.lidar.buffer = p :: ps)
      (ht : s.lidar.timeBuffer = t :: ts) (ht2 : s.lidar2.timeBuffer = t2 :: ts2)
      (hfar : cfg.bundleMaxPairSkew < |t - t2|) (hlt : t < t2) :
      Round cfg s { s with lidar :=
        { s.lidar with buffer := ps, timeBuffer := ts, dropped := s.lidar.dropped ++ [p] } }
  | drop2 {s : State P W} {t ts p2 ps2 t2 ts2} (hopen : s.lidarPushed = false) (ht : s.lidar.timeBuffer = t :: ts)
      (hb2 : s.lidar2.buffer = p2 :: ps2) (ht2 : s.lidar2.timeBuffer = t2 :: ts2)
      (hfar : cfg.bundleMaxPairSkew < |t - t2|) (hle : t2 ≤ t) :
      Round cfg s { s with lidar2 :=
        { s.lidar2 with buffer := ps2, timeBuffer := ts2, dropped := s.lidar2.dropped ++ [p2] } }
  | latch {s : State P W} {p ps t ts p2 ps2 t2 ts2} (hopen : s.lidarPushed = false) (hb : s.lidar.buffer = p :: ps)
      (ht : s.lidar.timeBuffer = t :: ts) (hb2 : s.lidar2.buffer = p2 :: ps2) (ht2 : s.lidar2.timeBuffer = t2 :: ts2)
      (hnear : |t - t2| ≤ cfg.bundleMaxPairSkew) :
      Round cfg s (latch cfg p t p2 t2 s)
  | deliver {s : State P W} {front rest p ps t ts p2 ps2 t2 ts2} (hpushed : s.lidarPushed = true)
      (himu : s.imuBuffer = front :: rest) (hend : s.lidar.endTime ≤ s.lastTimestampImu)
      (hend2 : s.lidar2.endTime ≤ s.lastTimestampImu) (hb : s.lidar.buffer = p :: ps)
      (ht : s.lidar.timeBuffer = t :: ts) (hb2 : s.lidar2.buffer = p2 :: ps2) (ht2 : s.lidar2.timeBuffer = t2 :: ts2) :
      Round cfg s (deliver front p { s.lidar with buffer := ps, timeBuffer := ts } p2
        { s.lidar2 with buffer := ps2, timeBuffer := ts2 } s)

/-- Once a bundle is latched, a round returns it. -/
theorem Round.returns {s s' : State P W} (hr : Round cfg s s') (hpushed : s.lidarPushed = true) :
    ∃ front rest p ps t ts p2 ps2 t2 ts2, s.imuBuffer = front :: rest ∧
      (s.lidar.endTime ≤ s.lastTimestampImu ∧ s.lidar2.endTime ≤ s.lastTimestampImu) ∧
      (s.lidar.buffer = p :: ps ∧ s.lidar.timeBuffer = t :: ts) ∧
      (s.lidar2.buffer = p2 :: ps2 ∧ s.lidar2.timeBuffer = t2 :: ts2) ∧
      s' = Lio.deliver front p { s.lidar with buffer := ps, timeBuffer := ts } p2
        { s.lidar2 with buffer := ps2, timeBuffer := ts2 } s := by
  cases hr with
  | deliver _ himu hend hend2 hb ht hb2 ht2 =>
    exact ⟨_, _, _, _, _, _, _, _, _, _, himu, ⟨hend, hend2⟩, ⟨hb, ht⟩, ⟨hb2, ht2⟩, rfl⟩
  | drop hopen => rw [hpushed] at hopen; cases hopen
  | drop2 hopen => rw [hpushed] at hopen; cases hopen
  | latch hopen => rw [hpushed] at hopen; cases hopen

/-- Rounds before a bundle is returned. -/
def Prepares (cfg : Params P) (s s' : State P W) : Prop :=
  Relation.ReflTransGen (fun s s' => Round cfg s s' ∧ s.lidarPushed = false) s s'

theorem dropUnpaired_rounds {n : ℕ} {s s' : State P W} (hopen : s.lidarPushed = false)
    (h : dropUnpaired cfg n s = some s') : Prepares cfg s s' ∧ s'.lidarPushed = false := by
  induction n generalizing s with
  | zero =>
    obtain rfl : s = s' := by simpa [dropUnpaired] using h
    exact ⟨.refl, hopen⟩
  | succ n ih =>
    unfold dropUnpaired at h
    split at h
    swap
    · obtain rfl : s = s' := by simpa using h
      exact ⟨.refl, hopen⟩
    rename_i t ts t2 ts2 ht ht2
    split_ifs at h with hfar hlt
    · obtain ⟨u, hu, hrest⟩ := Option.bind_eq_some_iff.1 h
      obtain ⟨⟨p, t', L⟩, hpop, hdrop⟩ := Option.bind_eq_some_iff.1 hu
      obtain ⟨ps, ts', hb, ht', rfl⟩ := popFront_some hpop
      obtain ⟨rfl, rfl⟩ : t' = t ∧ ts' = ts := by simpa [ht] using ht'.symm
      obtain rfl := Option.some.inj hdrop
      obtain ⟨hrest, hfin⟩ := ih (by exact hopen) hrest
      exact ⟨.head ⟨.drop hopen hb ht ht2 hfar hlt, hopen⟩ hrest, hfin⟩
    · obtain ⟨u, hu, hrest⟩ := Option.bind_eq_some_iff.1 h
      obtain ⟨⟨p, t', L⟩, hpop, hdrop⟩ := Option.bind_eq_some_iff.1 hu
      obtain ⟨ps, ts', hb, ht', rfl⟩ := popFront_some hpop
      obtain ⟨rfl, rfl⟩ : t' = t2 ∧ ts' = ts2 := by simpa [ht2] using ht'.symm
      obtain rfl := Option.some.inj hdrop
      obtain ⟨hrest, hfin⟩ := ih (by exact hopen) hrest
      exact ⟨.head ⟨.drop2 hopen ht hb ht2 hfar (not_lt.1 hlt), hopen⟩ hrest, hfin⟩
    · obtain rfl : s = s' := by simpa using h
      exact ⟨.refl, hopen⟩

/-- When the pairing loop is over, the fronts are within the skew. -/
theorem dropUnpaired_near {n : ℕ} {s s' : State P W} (hn : s.lidar.timeBuffer.length + s.lidar2.timeBuffer.length ≤ n)
    (h : dropUnpaired cfg n s = some s') {t t2 : ℚ} {ts ts2 : List ℚ} (ht : s'.lidar.timeBuffer = t :: ts)
    (ht2 : s'.lidar2.timeBuffer = t2 :: ts2) : |t - t2| ≤ cfg.bundleMaxPairSkew := by
  induction n generalizing s with
  | zero =>
    obtain rfl : s = s' := by simpa [dropUnpaired] using h
    rw [ht, List.length_cons] at hn
    omega
  | succ n ih =>
    unfold dropUnpaired at h
    split at h
    · rename_i u us u2 us2 hu hu2
      rw [hu, hu2, List.length_cons, List.length_cons] at hn
      split_ifs at h with hfar hlt
      · obtain ⟨v, hv, hrest⟩ := Option.bind_eq_some_iff.1 h
        obtain ⟨⟨p, t', L⟩, hpop, hdrop⟩ := Option.bind_eq_some_iff.1 hv
        obtain ⟨ps, ts', hb, ht', rfl⟩ := popFront_some hpop
        obtain ⟨rfl, rfl⟩ : t' = u ∧ ts' = us := by simpa [hu] using ht'.symm
        obtain rfl := Option.some.inj hdrop
        refine ih ?_ hrest
        simp only [hu2, List.length_cons]
        omega
      · obtain ⟨v, hv, hrest⟩ := Option.bind_eq_some_iff.1 h
        obtain ⟨⟨p, t', L⟩, hpop, hdrop⟩ := Option.bind_eq_some_iff.1 hv
        obtain ⟨ps, ts', hb, ht', rfl⟩ := popFront_some hpop
        obtain ⟨rfl, rfl⟩ : t' = u2 ∧ ts' = us2 := by simpa [hu2] using ht'.symm
        obtain rfl := Option.some.inj hdrop
        refine ih ?_ hrest
        simp only [hu, List.length_cons]
        omega
      · obtain rfl : s = s' := by simpa using h
        rw [hu, List.cons.injEq] at ht
        rw [hu2, List.cons.injEq] at ht2
        rw [← ht.1, ← ht2.1]
        exact not_lt.1 hfar
    · rename_i hempty
      obtain rfl : s = s' := by simpa using h
      exact (hempty _ _ _ _ ht ht2).elim

theorem awaitImu_rounds (cfg : Params P) {s s' : State P W} {r : Bool} (hpushed : s.lidarPushed = true)
    (h : awaitImu s = some (r, s')) : r = false ∧ s' = s ∨ r = true ∧ Round cfg s s' := by
  unfold awaitImu at h
  split_ifs at h with hwait
  · simp only [Option.some.injEq, Prod.mk.injEq] at h
    exact Or.inl ⟨h.1.symm, h.2.symm⟩
  · obtain ⟨hend, hend2⟩ := not_or.1 hwait
    obtain ⟨u, hu, hr⟩ := Option.map_eq_some_iff.1 h
    simp only [Prod.mk.injEq] at hr
    obtain ⟨rfl, rfl⟩ := hr
    obtain ⟨front, hfront, hu⟩ := Option.bind_eq_some_iff.1 hu
    obtain ⟨⟨p, t, L⟩, hpop, hu⟩ := Option.bind_eq_some_iff.1 hu
    obtain ⟨⟨p2, t2, L2⟩, hpop2, hu⟩ := Option.bind_eq_some_iff.1 hu
    obtain ⟨ps, ts, hb, ht, rfl⟩ := popFront_some hpop
    obtain ⟨ps2, ts2, hb2, ht2, rfl⟩ := popFront_some hpop2
    obtain ⟨rest, himu⟩ := List.head?_eq_some_iff.1 hfront
    obtain rfl := Option.some.inj hu
    exact Or.inr ⟨rfl, .deliver hpushed himu (not_lt.1 hend) (not_lt.1 hend2) hb ht hb2 ht2⟩

/-- **A call of `sync_packages`** prepares, and returns a bundle once one is latched, if it returns true. -/
theorem syncPackages_rounds {s s' : State P W} {r : Bool} (h : syncPackages cfg s = some (r, s')) :
    r = false ∧ Prepares cfg s s' ∨ r = true ∧ ∃ t, Prepares cfg s t ∧ t.lidarPushed = true ∧ Round cfg t s' := by
  unfold syncPackages at h
  split_ifs at h with hempty hpushed
  · simp only [Option.some.injEq, Prod.mk.injEq] at h
    obtain ⟨rfl, rfl⟩ := h
    exact Or.inl ⟨rfl, .refl⟩
  · rcases awaitImu_rounds cfg hpushed h with ⟨hr, rfl⟩ | ⟨hr, hround⟩
    · exact Or.inl ⟨hr, .refl⟩
    · exact Or.inr ⟨hr, s, .refl, hpushed, hround⟩
  · obtain ⟨u, hu, h⟩ := Option.bind_eq_some_iff.1 h
    obtain ⟨hprep, hopen⟩ := dropUnpaired_rounds (Bool.eq_false_iff.2 hpushed) hu
    split_ifs at h with hleft
    · simp only [pure, Option.some.injEq, Prod.mk.injEq] at h
      obtain ⟨rfl, rfl⟩ := h
      exact Or.inl ⟨rfl, hprep⟩
    · obtain ⟨v, hv, h⟩ := Option.bind_eq_some_iff.1 h
      obtain ⟨⟨p, t, L⟩, hpop, hv⟩ := Option.bind_eq_some_iff.1 hv
      obtain ⟨⟨p2, t2, L2⟩, hpop2, hv⟩ := Option.bind_eq_some_iff.1 hv
      obtain ⟨ps, ts, hb, ht, rfl⟩ := popFront_some hpop
      obtain ⟨ps2, ts2, hb2, ht2, rfl⟩ := popFront_some hpop2
      obtain rfl := Option.some.inj hv
      have hlatch := Relation.ReflTransGen.tail hprep
        ⟨.latch hopen hb ht hb2 ht2 (dropUnpaired_near le_rfl hu ht ht2), hopen⟩
      rcases awaitImu_rounds cfg rfl h with ⟨hr, rfl⟩ | ⟨hr, hround⟩
      · exact Or.inl ⟨hr, hlatch⟩
      · exact Or.inr ⟨hr, _, hlatch, rfl, hround⟩

/-- What rounds keep is kept by preparing. -/
theorem Prepares.rule {Q : State P W → Prop} {s s' : State P W}
    (hround : ∀ t t', Q t → t.lidarPushed = false → Round cfg t t' → Q t') (h : Prepares cfg s s') (hs : Q s) : Q s' := by
  induction h with
  | refl => exact hs
  | tail _ hlast ih => exact hround _ _ ih hlast.2 hlast.1

/-- What rounds keep is kept by a call of `sync_packages`. -/
theorem syncPackages_rule {Q : State P W → Prop} {s s' : State P W} {r : Bool}
    (hround : ∀ t t', Q t → Round cfg t t' → Q t') (h : syncPackages cfg s = some (r, s')) (hs : Q s) : Q s' := by
  rcases syncPackages_rounds h with ⟨-, hprep⟩ | ⟨-, t, hprep, -, hlast⟩
  · exact hprep.rule (fun t t' ht _ => hround t t' ht) hs
  · exact hround t s' (hprep.rule (fun t t' ht _ => hround t t' ht) hs) hlast

/-- What the callbacks and rounds of an action keep is kept by the action. -/
theorem step_rule {Q : State P W → Prop} {a : Action P W} {s s' : State P W}
    (hpcl : ∀ driver stamp points, a = .pcl driver stamp points → Q (standardPclCbk stamp points s))
    (hpcl2 : ∀ driver stamp points, a = .pcl2 driver stamp points → Q (standardPclCbk2 stamp points s))
    (himu : ∀ msg, Q (imuCbk msg s)) (hround : ∀ t t', Q t → Round cfg t t' → Q t') (h : step cfg a s = some s')
    (hs : Q s) : Q s' := by
  cases a with
  | pcl driver stamp points =>
    obtain rfl := Option.some.inj ((step_pcl ..).symm.trans h)
    exact hpcl driver stamp points rfl
  | pcl2 driver stamp points =>
    obtain rfl := Option.some.inj ((step_pcl2 ..).symm.trans h)
    exact hpcl2 driver stamp points rfl
  | imu msg =>
    obtain rfl := Option.some.inj h
    exact himu msg
  | sync =>
    obtain ⟨⟨r, u⟩, hr, rfl⟩ := Option.map_eq_some_iff.1 h
    exact syncPackages_rule hround hr hs

/-- **What callbacks and rounds keep holds in every state reached.** -/
theorem reaches_rule {Q : State P W → Prop} (hinit : Q .init)
    (hpcl : ∀ s stamp points, Q s → Q (standardPclCbk stamp points s))
    (hpcl2 : ∀ s stamp points, Q s → Q (standardPclCbk2 stamp points s)) (himu : ∀ s msg, Q s → Q (imuCbk msg s))
    (hround : ∀ s s', Q s → Round cfg s s' → Q s') {acts : List (Action P W)} {s : State P W}
    (h : Reaches cfg acts s) : Q s :=
  Machine.run_invariant (P := Q) (fun _ s _ hs ha => step_rule (fun _ stamp points _ => hpcl s stamp points hs)
    (fun _ stamp points _ => hpcl2 s stamp points hs) (fun msg => himu s msg hs) hround ha hs) hinit h

/-! ## Returned bundles -/

theorem imuCbk_cases (msg : Imu W) (s : State P W) :
    ∃ b t, imuCbk msg s = { s with imuBuffer := b, lastTimestampImu := t } := by
  unfold imuCbk
  split_ifs
  exacts [⟨_, _, rfl⟩, ⟨_, _, rfl⟩, ⟨_, _, rfl⟩]

/-- Returned bundles stay returned. -/
theorem Round.bundles {s s' : State P W} (hr : Round cfg s s') : s.bundles <+: s'.bundles := by
  cases hr with
  | deliver => exact List.prefix_append _ _
  | _ => exact List.prefix_rfl

theorem step_bundles {a : Action P W} {s s' : State P W} (h : step cfg a s = some s') : s.bundles <+: s'.bundles := by
  refine step_rule (Q := fun t => s.bundles <+: t.bundles) (fun _ _ _ _ => List.prefix_rfl)
    (fun _ _ _ _ => List.prefix_rfl) (fun msg => ?_) (fun t t' ht hr => ht.trans hr.bundles) h List.prefix_rfl
  obtain ⟨b, t, hs⟩ := imuCbk_cases msg s
  have hb : (imuCbk msg s).bundles = s.bundles := by rw [hs]
  exact hb ▸ List.prefix_rfl

/-- A call that returns true adds the bundle it leaves in `Measures`. -/
theorem syncPackages_bundle {s s' : State P W} (h : syncPackages cfg s = some (true, s')) :
    ∃ b ∈ s'.bundles, b.meas = s'.meas ∧ b.cloud = s'.clouds s'.meas.lidar.num ∧
      b.cloud2 = s'.clouds s'.meas.lidar2.num := by
  rcases syncPackages_rounds h with ⟨hr, -⟩ | ⟨-, t, -, hpushed, hlast⟩
  · cases hr
  · obtain ⟨front, rest, p, ps, u, us, p2, ps2, u2, us2, -, -, -, -, rfl⟩ := hlast.returns hpushed
    exact ⟨_, List.mem_append_right _ List.mem_cons_self, rfl, rfl, rfl⟩

end Agilex.Lio
