import Agilex.Lib.StreamMatch
import Agilex.Lio.Fronts

/-!
# Nothing pairable is lost

With stamps that do not decrease, a scan that leaves its queue without being returned is too far from every scan of the
other lidar that is queued then or arrives later (`removed_far`). When the scans of a lidar are more than twice the skew
apart, the returned bundles are a prefix of all pairs within the skew (`reaches_progress`). `bundling_lossless` puts these
together.
-/

namespace Agilex.Lio

open Agilex.Lib StreamMatch

variable {P W : Type} {cfg : Params P} {s s' s'' : State P W}

/-- Scans arrive with stamps that do not decrease. -/
def InOrder (L : Lidar P) : Prop := L.arrived.Pairwise fun p q => p.stamp ≤ q.stamp

theorem inOrder_of_messages {L : Lidar P} {msgs : List (ℚ × Cloud P)}
    (hmsgs : L.arrived.map (fun p => (p.stamp, p.points)) = msgs) (hord : msgs.Pairwise fun m m' => m.1 ≤ m'.1) :
    InOrder L := by
  rw [← hmsgs, List.pairwise_map] at hord
  exact hord

theorem InOrder.buffer {n : ℕ} {clouds : ℕ → Cloud P} {held : Option (Scan P × Cloud P)} {L : Lidar P} (h : InOrder L)
    (hok : L.Ok n clouds held) : L.buffer.Pairwise fun p q => p.stamp ≤ q.stamp :=
  h.sublist ((List.sublist_append_right _ _).trans hok.order)

/-- A message that is not before any other joins the queue, and nothing is cleared. -/
theorem standardPcl_buffer {n : ℕ} {clouds : ℕ → Cloud P} {held : Option (Scan P × Cloud P)} {L : Lidar P}
    (hok : L.Ok n clouds held) {scan : Scan P} (hord : ∀ p ∈ L.arrived, p.stamp ≤ scan.stamp) :
    (L.standardPcl scan).buffer = L.buffer ++ [scan] := by
  cases harr : L.arrived with
  | nil =>
    have hbuf : L.buffer = [] := by
      have := hok.order
      rw [harr, List.sublist_nil, List.append_eq_nil_iff] at this
      exact this.2
    simp only [Lidar.standardPcl, Lidar.loopBack, hbuf]
    split_ifs
    · rfl
    · simp only [hbuf]
  | cons p ps =>
    have hne : L.arrived ≠ [] := by simp [harr]
    simp only [Lidar.standardPcl, Lidar.Ok.loopBack_forward (hok.forward hne hord)]

/-! ## Scans that leave without being returned -/

/-- A front that is dropped is behind the front of the other lidar. -/
theorem Inv.behind (h : Inv cfg s) {p : Scan P} {ps : List (Scan P)} {t t2 : ℚ} {ts ts2 : List ℚ}
    (hb : s.lidar.buffer = p :: ps) (ht : s.lidar.timeBuffer = t :: ts) (ht2 : s.lidar2.timeBuffer = t2 :: ts2)
    (hfar : cfg.bundleMaxPairSkew < |t - t2|) (hlt : t < t2) :
    ∃ q qs, s.lidar2.buffer = q :: qs ∧ p.stamp + cfg.bundleMaxPairSkew < q.stamp := by
  obtain ⟨q, qs, hq⟩ := h.lidar2.scans ht2
  obtain ⟨rfl, -⟩ := h.lidar.front_stamp hb ht
  obtain ⟨rfl, -⟩ := h.lidar2.front_stamp hq ht2
  rw [abs_of_neg (sub_neg.2 hlt)] at hfar
  exact ⟨q, qs, hq, by linarith⟩

theorem Inv.behind2 (h : Inv cfg s) {p2 : Scan P} {ps2 : List (Scan P)} {t t2 : ℚ} {ts ts2 : List ℚ}
    (ht : s.lidar.timeBuffer = t :: ts) (hb2 : s.lidar2.buffer = p2 :: ps2) (ht2 : s.lidar2.timeBuffer = t2 :: ts2)
    (hfar : cfg.bundleMaxPairSkew < |t - t2|) (hle : t2 ≤ t) :
    ∃ q qs, s.lidar.buffer = q :: qs ∧ p2.stamp + cfg.bundleMaxPairSkew < q.stamp := by
  obtain ⟨q, qs, hq⟩ := h.lidar.scans ht
  obtain ⟨rfl, -⟩ := h.lidar.front_stamp hq ht
  obtain ⟨rfl, -⟩ := h.lidar2.front_stamp hb2 ht2
  rw [abs_of_nonneg (sub_nonneg.2 hle)] at hfar
  exact ⟨q, qs, hq, by linarith⟩

/-- What a call has left of the queues of `s`, before it returns a bundle. -/
theorem Prepares.trimmed (hinv : Inv cfg s) (hord : InOrder s.lidar) (hord2 : InOrder s.lidar2)
    (hprep : Prepares cfg s s') : Trimmed Scan.stamp Scan.stamp cfg.bundleMaxPairSkew s.lidar.buffer s.lidar2.buffer
      s'.lidar.buffer s'.lidar2.buffer := by
  refine (hprep.rule (Q := fun t => (Inv cfg t ∧ InOrder t.lidar ∧ InOrder t.lidar2) ∧
    Trimmed Scan.stamp Scan.stamp cfg.bundleMaxPairSkew s.lidar.buffer s.lidar2.buffer t.lidar.buffer t.lidar2.buffer)
    (fun t t' ht hopen hr => ?_) ⟨⟨hinv, hord, hord2⟩, .refl⟩).2
  obtain ⟨⟨hinv, hord, hord2⟩, htrim⟩ := ht
  refine ⟨⟨hinv.round hr, ?_, ?_⟩, ?_⟩
  · rw [InOrder, hr.arrived.1]
    exact hord
  · rw [InOrder, hr.arrived.2]
    exact hord2
  have hbuf := hord.buffer hinv.lidar
  have hbuf2 := hord2.buffer hinv.lidar2
  cases hr with
  | drop _ hb ht ht2 hfar hlt =>
    obtain ⟨q, qs, hq, hbehind⟩ := hinv.behind hb ht ht2 hfar hlt
    rw [hb, hq] at htrim
    rw [hq] at hbuf2
    simp only [hq]
    exact htrim.drop_left (List.pairwise_cons.1 hbuf2).1 hbehind
  | drop2 _ ht hb2 ht2 hfar hle =>
    obtain ⟨q, qs, hq, hbehind⟩ := hinv.behind2 ht hb2 ht2 hfar hle
    rw [hb2, hq] at htrim
    rw [hq] at hbuf
    simp only [hq]
    exact htrim.drop_right (List.pairwise_cons.1 hbuf).1 hbehind
  | latch =>
    rw [show (Lio.latch cfg _ _ _ _ t).lidar.buffer = _ from scanEnd_buffer ..,
      show (Lio.latch cfg _ _ _ _ t).lidar2.buffer = _ from scanEnd_buffer ..]
    exact htrim
  | deliver hpushed =>
    rw [hpushed] at hopen
    cases hopen

/-- In a call, scans that are queued before and neither queued nor returned after have been dropped. -/
theorem sync_trimmed (hf : Fronts cfg s) (hord : InOrder s.lidar) (hord2 : InOrder s.lidar2) {r : Bool}
    (h : syncPackages cfg s = some (r, s')) : ∃ a b,
      Trimmed Scan.stamp Scan.stamp cfg.bundleMaxPairSkew s.lidar.buffer s.lidar2.buffer a b ∧
      (∀ x ∈ a, x ∈ s'.lidar.buffer ∨ ∃ b ∈ s'.bundles, b.meas.lidar = x) ∧
      ∀ y ∈ b, y ∈ s'.lidar2.buffer ∨ ∃ b ∈ s'.bundles, b.meas.lidar2 = y := by
  rcases syncPackages_rounds h with ⟨-, hprep⟩ | ⟨-, t, hprep, hpushed, hlast⟩
  · exact ⟨_, _, hprep.trimmed hf.toInv hord hord2, fun x hx => Or.inl hx, fun y hy => Or.inl hy⟩
  · refine ⟨_, _, hprep.trimmed hf.toInv hord hord2, ?_⟩
    have ht := hprep.rule (fun t t' ht _ => ht.round) hf
    obtain ⟨front, ps, ts, ps2, ts2, ⟨hb, -⟩, ⟨hb2, -⟩, rfl⟩ := ht.returns hpushed hlast
    constructor
    · intro x hx
      rw [hb] at hx
      rcases List.mem_cons.1 hx with rfl | hx
      · exact Or.inr ⟨_, List.mem_append_right _ List.mem_cons_self, rfl⟩
      · exact Or.inl hx
    · intro y hy
      rw [hb2] at hy
      rcases List.mem_cons.1 hy with rfl | hy
      · exact Or.inr ⟨_, List.mem_append_right _ List.mem_cons_self, rfl⟩
      · exact Or.inl hy

/-- In any step, scans that are queued before and neither queued nor returned after have been dropped. -/
theorem step_trimmed {acts : List (Action P W)} {a : Action P W} (h : Reaches cfg acts s) (ha : step cfg a s = some s')
    (hord : (pclMsgs (acts ++ [a])).Pairwise fun m m' => m.1 ≤ m'.1)
    (hord2 : (pclMsgs2 (acts ++ [a])).Pairwise fun m m' => m.1 ≤ m'.1) : ∃ l l2,
      Trimmed Scan.stamp Scan.stamp cfg.bundleMaxPairSkew s.lidar.buffer s.lidar2.buffer l l2 ∧
      (∀ x ∈ l, x ∈ s'.lidar.buffer ∨ ∃ b ∈ s'.bundles, b.meas.lidar = x) ∧
      ∀ y ∈ l2, y ∈ s'.lidar2.buffer ∨ ∃ b ∈ s'.bundles, b.meas.lidar2 = y := by
  rw [pclMsgs_append] at hord
  rw [pclMsgs2_append] at hord2
  obtain ⟨hpre, -, hlast⟩ := List.pairwise_append.1 hord
  obtain ⟨hpre2, -, hlast2⟩ := List.pairwise_append.1 hord2
  obtain ⟨hmsgs, hmsgs2⟩ := arrived_messages h
  have hinv := reaches_inv h
  have hsame : (∀ x ∈ s.lidar.buffer, x ∈ s'.lidar.buffer) → (∀ y ∈ s.lidar2.buffer, y ∈ s'.lidar2.buffer) → ∃ l l2,
      Trimmed Scan.stamp Scan.stamp cfg.bundleMaxPairSkew s.lidar.buffer s.lidar2.buffer l l2 ∧
      (∀ x ∈ l, x ∈ s'.lidar.buffer ∨ ∃ b ∈ s'.bundles, b.meas.lidar = x) ∧
      ∀ y ∈ l2, y ∈ s'.lidar2.buffer ∨ ∃ b ∈ s'.bundles, b.meas.lidar2 = y :=
    fun h h2 => ⟨_, _, .refl, fun x hx => Or.inl (h x hx), fun y hy => Or.inl (h2 y hy)⟩
  cases a with
  | pcl driver stamp points =>
    obtain rfl := Option.some.inj ((step_pcl ..).symm.trans ha)
    refine hsame (fun x hx => ?_) fun y hy => hy
    rw [show (standardPclCbk stamp points s).lidar.buffer = _ from standardPcl_buffer hinv.lidar
      (Lidar.Ok.messages_le hmsgs fun m hm => hlast m hm (stamp, points) List.mem_cons_self)]
    exact List.mem_append_left _ hx
  | pcl2 driver stamp points =>
    obtain rfl := Option.some.inj ((step_pcl2 ..).symm.trans ha)
    refine hsame (fun x hx => hx) fun y hy => ?_
    rw [show (standardPclCbk2 stamp points s).lidar2.buffer = _ from standardPcl_buffer hinv.lidar2
      (Lidar.Ok.messages_le hmsgs2 fun m hm => hlast2 m hm (stamp, points) List.mem_cons_self)]
    exact List.mem_append_left _ hy
  | imu msg =>
    obtain rfl := Option.some.inj ha
    obtain ⟨b, t, hs⟩ := imuCbk_cases msg s
    rw [hs] at hsame ⊢
    exact hsame (fun x hx => hx) fun y hy => hy
  | sync =>
    obtain ⟨⟨r, u⟩, hr, rfl⟩ := Option.map_eq_some_iff.1 ha
    exact sync_trimmed (fronts_of_sorted h hpre hpre2) (inOrder_of_messages hmsgs hpre)
      (inOrder_of_messages hmsgs2 hpre2) hr

theorem run_arrived {later : List (Action P W)} (h : Machine.run (step cfg) later s = some s') :
    s.lidar.arrived <+: s'.lidar.arrived ∧ s.lidar2.arrived <+: s'.lidar2.arrived := by
  refine Machine.run_invariant (P := fun t => s.lidar.arrived <+: t.lidar.arrived ∧
    s.lidar2.arrived <+: t.lidar2.arrived) (fun a t t' ht ha => ?_) ⟨List.prefix_rfl, List.prefix_rfl⟩ h
  obtain ⟨harr, harr2⟩ := step_arrived ha
  rw [harr, harr2]
  exact ⟨ht.1.trans (List.prefix_append _ _), ht.2.trans (List.prefix_append _ _)⟩

/-- A scan that is behind a scan of the other lidar is behind those that arrive later. -/
theorem behind_later {arrived arrived' buffer : List (Scan P)} (hpre : arrived <+: arrived')
    (hord : arrived'.Pairwise fun p q => p.stamp ≤ q.stamp) (hsub : ∀ z ∈ buffer, z ∈ arrived) {t skew : ℚ}
    (hbehind : ∃ z ∈ buffer, t + skew < z.stamp) {y : Scan P} (hy : y ∈ arrived') (hnew : y ∉ arrived) :
    t + skew < y.stamp := by
  obtain ⟨z, hz, hlt⟩ := hbehind
  obtain ⟨rest, rfl⟩ := hpre
  have hyr := (List.mem_append.1 hy).resolve_left hnew
  exact hlt.trans_le ((List.pairwise_append.1 hord).2.2 z (hsub z hz) y hyr)

/-! ## The returned bundles and the pairs within the skew -/

/-- The scans of the returned bundles. -/
def pairs (s : State P W) : List (Scan P × Scan P) := s.bundles.map fun b => (b.meas.lidar, b.meas.lidar2)

theorem pairs_round (hf : Fronts cfg s)
    (hp : Progress Scan.stamp Scan.stamp cfg.bundleMaxPairSkew s.lidar.arrived s.lidar2.arrived s.lidar.buffer
      s.lidar2.buffer (pairs s))
    (hs : Spaced Scan.stamp (2 * cfg.bundleMaxPairSkew) s.lidar.arrived)
    (hs2 : Spaced Scan.stamp (2 * cfg.bundleMaxPairSkew) s.lidar2.arrived) (hr : Round cfg s s') :
    Progress Scan.stamp Scan.stamp cfg.bundleMaxPairSkew s'.lidar.arrived s'.lidar2.arrived s'.lidar.buffer
      s'.lidar2.buffer (pairs s') := by
  have hskew := cfg.skew_pos
  have hbuf := hs.sublist ((List.sublist_append_right _ _).trans hf.lidar.order)
  have hbuf2 := hs2.sublist ((List.sublist_append_right _ _).trans hf.lidar2.order)
  cases hr with
  | drop _ hb ht ht2 hfar hlt =>
    obtain ⟨q, qs, hq, hbehind⟩ := hf.behind hb ht ht2 hfar hlt
    rw [hb] at hp
    refine hp.drop_left (fun z hz => ?_) (by simp [hq])
    rw [hq] at hz hbuf2
    rcases List.mem_cons.1 hz with rfl | hz
    · exact hbehind
    · linarith [(List.pairwise_cons.1 hbuf2).1 z hz]
  | drop2 _ ht hb2 ht2 hfar hle =>
    obtain ⟨q, qs, hq, hbehind⟩ := hf.behind2 ht hb2 ht2 hfar hle
    rw [hb2] at hp
    refine hp.drop_right (fun z hz => ?_) (by simp [hq])
    rw [hq] at hz hbuf
    rcases List.mem_cons.1 hz with rfl | hz
    · exact hbehind
    · linarith [(List.pairwise_cons.1 hbuf).1 z hz]
  | latch =>
    rw [show (Lio.latch cfg _ _ _ _ s).lidar.buffer = _ from scanEnd_buffer ..,
      show (Lio.latch cfg _ _ _ _ s).lidar2.buffer = _ from scanEnd_buffer ..,
      show (Lio.latch cfg _ _ _ _ s).lidar.arrived = _ from scanEnd_arrived ..,
      show (Lio.latch cfg _ _ _ _ s).lidar2.arrived = _ from scanEnd_arrived ..]
    exact hp
  | deliver hpushed himu hend hend2 hb ht hb2 ht2 =>
    obtain ⟨hfront, -, hfront2, -⟩ := hf.held hpushed
    obtain ⟨hbeg, hbeg2, hnear⟩ := hf.paired hpushed
    rw [hb, List.head?_cons, Option.some.injEq] at hfront
    rw [hb2, List.head?_cons, Option.some.injEq] at hfront2
    subst hfront hfront2
    rw [hbeg, hbeg2] at hnear
    rw [hb, hb2] at hp
    rw [hb] at hbuf
    change Progress _ _ _ _ _ (_ :: _) ([] ++ _ :: _) _ at hp
    have htake := hp.take hs hs2 (fun z hz => by linarith [(List.pairwise_cons.1 hbuf).1 z hz]) hnear
    simpa only [pairs, deliver, List.map_append, List.map_cons, List.map_nil, List.nil_append] using htake

theorem spaced_of_messages {arrived : List (Scan P)} {msgs : List (ℚ × Cloud P)} {gap : ℚ}
    (hmsgs : arrived.map (fun p => (p.stamp, p.points)) = msgs) (hgap : msgs.Pairwise fun m m' => m.1 + gap < m'.1) :
    Spaced Scan.stamp gap arrived := by
  rw [← hmsgs, List.pairwise_map] at hgap
  exact hgap

/-- **When the scans of a lidar are more than twice the skew apart**, the returned bundles are on the way through all
pairs within the skew. -/
theorem reaches_progress {acts : List (Action P W)} (h : Reaches cfg acts s)
    (hgap : (pclMsgs acts).Pairwise fun m m' => m.1 + 2 * cfg.bundleMaxPairSkew < m'.1)
    (hgap2 : (pclMsgs2 acts).Pairwise fun m m' => m.1 + 2 * cfg.bundleMaxPairSkew < m'.1) :
    Progress Scan.stamp Scan.stamp cfg.bundleMaxPairSkew s.lidar.arrived s.lidar2.arrived s.lidar.buffer
      s.lidar2.buffer (pairs s) := by
  have hskew := cfg.skew_pos
  have hinit : Progress Scan.stamp Scan.stamp cfg.bundleMaxPairSkew ([] : List (Scan P)) ([] : List (Scan P)) [] [] [] := .nil
  revert hgap hgap2
  refine (Machine.run_induction (P := fun acts (s : State P W) =>
    (pclMsgs acts).Pairwise (fun m m' => m.1 + 2 * cfg.bundleMaxPairSkew < m'.1) →
    (pclMsgs2 acts).Pairwise (fun m m' => m.1 + 2 * cfg.bundleMaxPairSkew < m'.1) →
    Progress Scan.stamp Scan.stamp cfg.bundleMaxPairSkew s.lidar.arrived s.lidar2.arrived s.lidar.buffer
      s.lidar2.buffer (pairs s)) (fun _ _ => hinit) (fun l s a s' hl ih ha hgap hgap2 => ?_) h : _)
  have hmsgs' := arrived_messages (Machine.run_snoc.2 ⟨s, hl, ha⟩)
  have hs' := spaced_of_messages hmsgs'.1 hgap
  have hs2' := spaced_of_messages hmsgs'.2 hgap2
  obtain ⟨harr, harr2⟩ := step_arrived ha
  rw [pclMsgs_append] at hgap
  rw [pclMsgs2_append] at hgap2
  obtain ⟨hpre, -, hlast⟩ := List.pairwise_append.1 hgap
  obtain ⟨hpre2, -, hlast2⟩ := List.pairwise_append.1 hgap2
  have hp := ih hpre hpre2
  obtain ⟨hmsgs, hmsgs2⟩ := arrived_messages hl
  have hinv := reaches_inv hl
  cases a with
  | pcl driver stamp points =>
    obtain rfl := Option.some.inj ((step_pcl ..).symm.trans ha)
    have hbefore : ∀ m ∈ pclMsgs l, m.1 ≤ stamp := fun m hm => by
      have hm := hlast m hm (stamp, points) List.mem_cons_self
      simp only at hm
      linarith only [hm, hskew]
    rw [show (standardPclCbk stamp points s).lidar.buffer = _ from
      standardPcl_buffer hinv.lidar (Lidar.Ok.messages_le hmsgs hbefore)]
    rw [harr] at hs' ⊢
    exact hp.push_left hs' hskew.le
  | pcl2 driver stamp points =>
    obtain rfl := Option.some.inj ((step_pcl2 ..).symm.trans ha)
    have hbefore : ∀ m ∈ pclMsgs2 l, m.1 ≤ stamp := fun m hm => by
      have hm := hlast2 m hm (stamp, points) List.mem_cons_self
      simp only at hm
      linarith only [hm, hskew]
    rw [show (standardPclCbk2 stamp points s).lidar2.buffer = _ from
      standardPcl_buffer hinv.lidar2 (Lidar.Ok.messages_le hmsgs2 hbefore)]
    rw [harr2] at hs2' ⊢
    exact hp.push_right hs2' hskew.le
  | imu msg =>
    obtain rfl := Option.some.inj ha
    obtain ⟨b, t, hs⟩ := imuCbk_cases msg s
    rw [hs]
    exact hp
  | sync =>
    obtain ⟨⟨r, u⟩, hr, rfl⟩ := Option.map_eq_some_iff.1 ha
    have hforward : ∀ {m m' : ℚ × Cloud P}, m.1 + 2 * cfg.bundleMaxPairSkew < m'.1 → m.1 ≤ m'.1 := fun hm => by
      linarith only [hm, hskew]
    have hf := fronts_of_sorted hl (hpre.imp hforward) (hpre2.imp hforward)
    have hs := spaced_of_messages hmsgs hpre
    have hs2 := spaced_of_messages hmsgs2 hpre2
    refine (syncPackages_rule (Q := fun u => (Fronts cfg u ∧ u.lidar.arrived = s.lidar.arrived ∧
      u.lidar2.arrived = s.lidar2.arrived) ∧ Progress Scan.stamp Scan.stamp cfg.bundleMaxPairSkew u.lidar.arrived
        u.lidar2.arrived u.lidar.buffer u.lidar2.buffer (pairs u)) (fun t t' ht hround => ?_) hr ⟨⟨hf, rfl, rfl⟩, hp⟩).2
    obtain ⟨⟨hft, h1, h2⟩, hpt⟩ := ht
    refine ⟨⟨hft.round hround, hround.arrived.1.trans h1, hround.arrived.2.trans h2⟩,
      pairs_round hft hpt ?_ ?_ hround⟩
    · rw [h1]
      exact hs
    · rw [h2]
      exact hs2

theorem run_pairs {later : List (Action P W)} (h : Machine.run (step cfg) later s = some s') : pairs s <+: pairs s' := by
  have hb : s.bundles <+: s'.bundles := Machine.run_invariant (P := fun t => s.bundles <+: t.bundles)
    (fun _ _ _ ht ha => ht.trans (step_bundles ha)) List.prefix_rfl h
  exact hb.map _

theorem pairwise_of_far {α : Type} {l : List (ℚ × α)} {gap : ℚ} (hgap : 0 ≤ gap)
    (h : l.IsChain fun m m' => m.1 + gap < m'.1) : l.Pairwise fun m m' => m.1 + gap < m'.1 := by
  have : IsTrans (ℚ × α) fun m m' => m.1 + gap < m'.1 := ⟨fun a b c hab hbc => by linarith⟩
  exact List.isChain_iff_pairwise.1 h

/-- **Bundling loses nothing pairable and duplicates nothing.** In any state of a run whose lidar stamps do not decrease,
the queues are aligned; the returned bundles hold scans within the skew, each scan at most once and in order; a scan that
the next step removes without returning it is too far from every scan of the other lidar that is queued or arrives later;
and when scans are more than twice the skew apart, the bundles are the first of all the pairs within the skew. -/
theorem bundling_lossless {acts later : List (Action P W)} {a : Action P W} (h : Reaches cfg acts s)
    (ha : step cfg a s = some s') (hlater : Machine.run (step cfg) later s' = some s'')
    (hord : (pclMsgs (acts ++ a :: later)).Pairwise fun m m' => m.1 ≤ m'.1)
    (hord2 : (pclMsgs2 (acts ++ a :: later)).Pairwise fun m m' => m.1 ≤ m'.1) :
    (s.lidar.timeBuffer = s.lidar.buffer.map Scan.stamp ∧ s.lidar2.timeBuffer = s.lidar2.buffer.map Scan.stamp) ∧
    (∀ b ∈ s.bundles, b.meas.lidarBegTime = b.meas.lidar.stamp ∧ b.meas.lidarBegTime2 = b.meas.lidar2.stamp ∧
      |b.meas.lidarBegTime - b.meas.lidarBegTime2| ≤ cfg.bundleMaxPairSkew) ∧
    (s.lidar.arrived.Nodup ∧ (s.bundles.map fun b => b.meas.lidar).Sublist s.lidar.arrived ∧
      s.lidar2.arrived.Nodup ∧ (s.bundles.map fun b => b.meas.lidar2).Sublist s.lidar2.arrived) ∧
    (∀ x ∈ s.lidar.buffer, x ∉ s'.lidar.buffer → (∀ b ∈ s'.bundles, b.meas.lidar ≠ x) →
      ∀ y, y ∈ s.lidar2.buffer ∨ y ∈ s''.lidar2.arrived ∧ y ∉ s.lidar2.arrived →
        cfg.bundleMaxPairSkew < |x.stamp - y.stamp|) ∧
    (∀ y ∈ s.lidar2.buffer, y ∉ s'.lidar2.buffer → (∀ b ∈ s'.bundles, b.meas.lidar2 ≠ y) →
      ∀ x, x ∈ s.lidar.buffer ∨ x ∈ s''.lidar.arrived ∧ x ∉ s.lidar.arrived →
        cfg.bundleMaxPairSkew < |x.stamp - y.stamp|) ∧
    ((pclMsgs (acts ++ a :: later)).IsChain (fun m m' => m.1 + 2 * cfg.bundleMaxPairSkew < m'.1) →
      (pclMsgs2 (acts ++ a :: later)).IsChain (fun m m' => m.1 + 2 * cfg.bundleMaxPairSkew < m'.1) →
      pairs s <+: pairsWithin Scan.stamp Scan.stamp cfg.bundleMaxPairSkew s''.lidar.arrived s''.lidar2.arrived) := by
  have hskew := cfg.skew_pos
  have hwhole : Machine.run (step cfg) (a :: later) s = some s'' := by
    simp only [Machine.run, ha, Option.bind_some, hlater]
  have hend : Reaches cfg (acts ++ a :: later) s'' := Machine.run_append.2 ⟨s, h, hwhole⟩
  obtain ⟨hmsgs, hmsgs2⟩ := arrived_messages hend
  have hin := inOrder_of_messages hmsgs hord
  have hin2 := inOrder_of_messages hmsgs2 hord2
  obtain ⟨hpre, hpre2⟩ := run_arrived hwhole
  have hsplit : acts ++ a :: later = (acts ++ [a]) ++ later := by simp
  have hnow : (pclMsgs (acts ++ [a])).Pairwise fun m m' => m.1 ≤ m'.1 := by
    rw [hsplit, pclMsgs_append] at hord
    exact (List.pairwise_append.1 hord).1
  have hnow2 : (pclMsgs2 (acts ++ [a])).Pairwise fun m m' => m.1 ≤ m'.1 := by
    rw [hsplit, pclMsgs2_append] at hord2
    exact (List.pairwise_append.1 hord2).1
  have hf : Fronts cfg s := by
    rw [pclMsgs_append] at hnow
    rw [pclMsgs2_append] at hnow2
    exact fronts_of_sorted h (List.pairwise_append.1 hnow).1 (List.pairwise_append.1 hnow2).1
  obtain ⟨l, l2, htrim, hkept, hkept2⟩ := step_trimmed h ha hnow hnow2
  refine ⟨⟨hf.lidar.aligned, hf.lidar2.aligned⟩, fun b hb => ?_, ⟨hf.lidar.arrived_nodup, ?_, hf.lidar2.arrived_nodup, ?_⟩,
    fun x hx hgone hret y hy => ?_, fun y hy hgone hret x hx => ?_, fun hgap hgap2 => ?_⟩
  · exact ⟨(hf.bundles b hb).paired.beg, (hf.bundles b hb).paired.beg2, (hf.bundles b hb).paired.near⟩
  · rw [← hf.popped]
    exact (List.sublist_append_left _ _).trans hf.lidar.order
  · rw [← hf.popped2]
    exact (List.sublist_append_left _ _).trans hf.lidar2.order
  · have hdropped : x ∉ l := by
      intro hxl
      rcases hkept x hxl with hq | ⟨b, hb, hbx⟩
      · exact hgone hq
      · exact hret b hb hbx
    rcases hy with hy | ⟨hy, hnew⟩
    · exact not_le.1 fun hnear => hdropped (htrim.near x hx y hy hnear).1
    · have hlt := behind_later hpre2 hin2 (fun z hz => hf.lidar2.arrived hz)
        ((htrim.left_behind x hx).resolve_left hdropped) hy hnew
      rw [lt_abs]
      right
      linarith
  · have hdropped : y ∉ l2 := by
      intro hyl
      rcases hkept2 y hyl with hq | ⟨b, hb, hby⟩
      · exact hgone hq
      · exact hret b hb hby
    rcases hx with hx | ⟨hx, hnew⟩
    · exact not_le.1 fun hnear => hdropped (htrim.near x hx y hy hnear).2
    · have hlt := behind_later hpre hin (fun z hz => hf.lidar.arrived hz)
        ((htrim.right_behind y hy).resolve_left hdropped) hx hnew
      rw [lt_abs]
      left
      linarith
  · have hgap0 : (0 : ℚ) ≤ 2 * cfg.bundleMaxPairSkew := by linarith
    have hpw := pairwise_of_far hgap0 hgap
    have hpw2 := pairwise_of_far hgap0 hgap2
    exact (run_pairs hwhole).trans ((reaches_progress hend hpw hpw2).isPrefix (spaced_of_messages hmsgs hpw)
      (spaced_of_messages hmsgs2 hpw2) hskew.le)

/-- After a first bundle, a scan of the first lidar has no partner. -/
def startupRun : List (Action ℤ Unit) :=
  [.pcl .livox 10 [⟨1, 0⟩], .pcl2 .livox (10 + 1 / 100) [⟨2, 0⟩], .imu ⟨10, ()⟩, .imu ⟨11, ()⟩, .sync,
    .pcl .livox (10 + 1 / 5) [⟨3, 0⟩], .pcl .livox (10 + 2 / 5) [⟨4, 0⟩], .pcl2 .livox (10 + 41 / 100) [⟨5, 0⟩]]

theorem bundling_lossless_startup : ∃ s s', Reaches mid360 startupRun s ∧ step mid360 .sync s = some s' ∧
    (∃ x ∈ s.lidar.buffer, x ∉ s'.lidar.buffer ∧ x.stamp = 10 + 1 / 5 ∧
      ∀ y ∈ s.lidar2.buffer, mid360.bundleMaxPairSkew < |x.stamp - y.stamp|) ∧
    (pairs s).length = 1 ∧
    pairs s <+: pairsWithin Scan.stamp Scan.stamp mid360.bundleMaxPairSkew s'.lidar.arrived s'.lidar2.arrived := by
  obtain ⟨s, hs, hq⟩ := reaches_of_any mid360 startupRun (Q := fun s => decide ((pairs s).length = 1) &&
    (step mid360 .sync s).any fun s' : State ℤ Unit => s.lidar.buffer.any fun x => decide (x ∉ s'.lidar.buffer ∧
      x.stamp = 10 + 1 / 5 ∧ ∀ b ∈ s'.bundles, b.meas.lidar ≠ x)) (by decide +kernel)
  simp only [Bool.and_eq_true, Option.any_eq_true, List.any_eq_true, decide_eq_true_eq] at hq
  obtain ⟨hlen, s', hs', x, hx, hgone, hstamp, hret⟩ := hq
  obtain ⟨-, -, -, hfar, -, hpairs⟩ := bundling_lossless hs hs' (rfl : Machine.run _ [] s' = some s')
    (by decide +kernel) (by decide +kernel)
  exact ⟨s, s', hs, hs', ⟨x, hx, hgone, hstamp, fun y hy => hfar x hx hgone hret y (Or.inl hy)⟩, hlen,
    hpairs (by decide +kernel) (by decide +kernel)⟩

end Agilex.Lio
