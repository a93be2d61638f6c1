import Agilex.Capture.Discard

/-!
# Images of the same stamp

`_pair` takes the nearest depth image that waits, so an image whose partner is lost can take the partner of a later one:
two images of the same stamp need not be paired (`same_stamp_not_paired`). They are when the streams were in step before
(`InStep`): from some stamp on every image has its twin in the other stream, and the slop before that stamp is empty
(`same_stamp_paired`). The invariant is `Together`: twins wait together or are paired.
-/

namespace Agilex.Capture

open Agilex.Lib Binary64 Outcome

/-- From `c` to `t` every image of either stream has a twin of the same stamp in the other, and no image is within the
slop before `c`. -/
structure InStep (slop c t : ℤ) (A : Cam → List Image) : Prop where
  clear : ∀ k, ∀ m ∈ A k, c ≤ m.stamp ∨ m.stamp + slop < c
  twin : ∀ k, ∀ m ∈ A k, c ≤ m.stamp → m.stamp ≤ t → ∃ m' ∈ A k.other, m'.stamp = m.stamp

namespace Engine

variable {D : Deps} {cfg : Config} {A : Cam → List Image} {c t : ℤ}

/-- Images up to one that arrived have arrived. -/
theorem mem_of_earlier {l L : List Image} (hL : L.Pairwise fun x y => x.stamp < y.stamp) (hl : l <+: L) {x y : Image}
    (hx : x ∈ l) (hy : y ∈ L) (hle : y.stamp ≤ x.stamp) : y ∈ l := by
  obtain ⟨r, rfl⟩ := hl
  refine (List.mem_append.1 hy).resolve_right fun hr => ?_
  have := (List.pairwise_append.1 hL).2.2 x hx y hr
  omega

/-- Images of the same stamp are the same image. -/
theorem eq_of_stamp {L : List Image} (hL : L.Pairwise fun x y => x.stamp < y.stamp) {x y : Image} (hx : x ∈ L) (hy : y ∈ L)
    (hxy : x.stamp = y.stamp) : x = y := by
  have hnodup : (L.map Image.stamp).Nodup := List.pairwise_map.2 (hL.imp ne_of_lt)
  exact List.inj_on_of_nodup_map hnodup hx hy hxy

/-- **Twins stay together**: between `c` and `t`, they are paired with each other, or neither has left its buffer. -/
def Together (A : Cam → List Image) (c t : ℤ) (e : Engine) : Prop :=
  ∀ r ∈ A .rgb, ∀ d ∈ A .depth, r.stamp = d.stamp → c ≤ r.stamp → r.stamp ≤ t →
    (r, d) ∈ e.pairs ∨ (r ∈ e.arrived .rgb → r ∈ e.images .rgb) ∧ (d ∈ e.arrived .depth → d ∈ e.images .depth)

/-- The buffers as `_pair` sees them, with `rgb` at the front and streams that will be those of `A`. -/
structure Turn (cfg : Config) (A : Cam → List Image) (c t : ℤ) (e : Engine) (rgb : Image) (a : List Image) : Prop where
  sorted : ∀ k, (A k).Pairwise fun x y => x.stamp < y.stamp
  inStep : InStep cfg.slopNs c t A
  buffers : PairBuffers cfg e
  sofar : ∀ k, e.arrived k <+: A k
  together : Together A c t e
  front : e.images .rgb = rgb :: a

variable {e : Engine} {rgb : Image} {a : List Image}

theorem Turn.mem_images (h : Turn cfg A c t e rgb a) {k : Cam} {m : Image} (hm : m ∈ e.images k) : m ∈ A k :=
  (h.sofar k).subset ((h.buffers.buffered k).subset hm)

theorem Turn.rgb_mem (h : Turn cfg A c t e rgb a) : rgb ∈ e.images .rgb := by
  rw [h.front]
  exact List.mem_cons_self

/-- An image of before the front is paired with its twin. -/
theorem Turn.passed (h : Turn cfg A c t e rgb a) {r d : Image} (hr : r ∈ A .rgb) (hd : d ∈ A .depth)
    (hrd : r.stamp = d.stamp) (hc : c ≤ r.stamp) (ht : r.stamp ≤ t) (hlt : r.stamp < rgb.stamp) : (r, d) ∈ e.pairs := by
  refine (h.together r hr d hd hrd hc ht).resolve_right fun hw => ?_
  have harr : r ∈ e.arrived .rgb :=
    mem_of_earlier (h.sorted .rgb) (h.sofar .rgb) ((h.buffers.buffered .rgb).subset h.rgb_mem) hr hlt.le
  have hsorted := h.buffers.sorted .rgb
  have hmem := hw.1 harr
  rw [h.front] at hmem hsorted
  rcases List.mem_cons.1 hmem with rfl | hmem
  · exact lt_irrefl _ hlt
  · have := (List.pairwise_cons.1 hsorted).1 r hmem
    omega

/-- A depth image that waits has no twin before the front. -/
theorem Turn.not_passed (h : Turn cfg A c t e rgb a) {r d : Image} (hr : r ∈ A .rgb) (hd : d ∈ e.images .depth)
    (hrd : r.stamp = d.stamp) (hc : c ≤ r.stamp) (ht : r.stamp ≤ t) : rgb.stamp ≤ r.stamp := by
  by_contra hlt
  exact h.buffers.unused _ (h.passed hr (h.mem_images hd) hrd hc ht (not_le.1 hlt)) d hd rfl

/-- The front is not paired yet. -/
theorem Turn.waiting (h : Turn cfg A c t e rgb a) {d : Image} (hd : d ∈ A .depth) (hrd : rgb.stamp = d.stamp)
    (hc : c ≤ rgb.stamp) (ht : rgb.stamp ≤ t) : d ∈ e.arrived .depth → d ∈ e.images .depth := by
  refine ((h.together rgb (h.mem_images h.rgb_mem) d hd hrd hc ht).resolve_left fun hp => ?_).2
  exact lt_irrefl _ (h.buffers.ahead _ hp rgb h.rgb_mem)

/-- **The front takes its twin** when it has one. -/
theorem Turn.takes_twin (h : Turn cfg A c t e rgb a) {dep d : Image} (hdep : dep ∈ e.images .depth)
    (hmin : ∀ m ∈ e.images .depth, |dep.stamp - rgb.stamp| ≤ |m.stamp - rgb.stamp|)
    (hslop : |dep.stamp - rgb.stamp| ≤ cfg.slopNs) (hd : d ∈ A .depth) (hrd : rgb.stamp = d.stamp) (hc : c ≤ rgb.stamp)
    (ht : rgb.stamp ≤ t) : dep = d := by
  have hw := h.waiting hd hrd hc ht
  by_cases harr : d ∈ e.arrived .depth
  · -- the twin waits, and nothing is nearer
    have hz : |dep.stamp - rgb.stamp| ≤ 0 := by simpa [hrd] using hmin d (hw harr)
    have hzero := abs_nonpos_iff.1 hz
    exact eq_of_stamp (h.sorted .depth) (h.mem_images hdep) hd (by omega)
  · -- only images before the twin have arrived, and the nearest of them has an RGB twin that is not paired
    have hlt : dep.stamp < d.stamp := by
      by_contra hle
      exact harr (mem_of_earlier (h.sorted .depth) (h.sofar .depth) ((h.buffers.buffered .depth).subset hdep) hd
        (not_lt.1 hle))
    have hbound := (abs_le.1 hslop).1
    have hcdep : c ≤ dep.stamp := (h.inStep.clear .depth dep (h.mem_images hdep)).resolve_right (by omega)
    obtain ⟨r, hr, hrs⟩ := h.inStep.twin .depth dep (h.mem_images hdep) hcdep (by omega)
    have := h.not_passed hr hdep hrs (by omega) (by omega)
    omega

/-- **Only the twin of the front is taken.** -/
theorem Turn.taken_twin (h : Turn cfg A c t e rgb a) {dep r : Image} (hdep : dep ∈ e.images .depth)
    (hmin : ∀ m ∈ e.images .depth, |dep.stamp - rgb.stamp| ≤ |m.stamp - rgb.stamp|)
    (hslop : |dep.stamp - rgb.stamp| ≤ cfg.slopNs) (hr : r ∈ A .rgb) (hrd : r.stamp = dep.stamp) (hc : c ≤ r.stamp)
    (ht : r.stamp ≤ t) : rgb = r := by
  have hrgb := h.mem_images h.rgb_mem
  have hle := h.not_passed hr hdep hrd hc ht
  have hbound := (abs_le.1 hslop).2
  have hcrgb : c ≤ rgb.stamp := (h.inStep.clear .rgb rgb hrgb).resolve_right (by omega)
  obtain ⟨d, hd, hds⟩ := h.inStep.twin .rgb rgb hrgb hcrgb (by omega)
  obtain rfl := h.takes_twin hdep hmin hslop hd hds.symm hcrgb (by omega)
  exact eq_of_stamp (h.sorted .rgb) hrgb hr (by omega)

/-- Twins stay together with what concerns other things. -/
theorem Together.same {e e' : Engine} (h : Together A c t e) (hp : e'.pairs = e.pairs) (hi : e'.images = e.images)
    (ha : ∀ k, e'.arrived k = e.arrived k) : Together A c t e' := by
  unfold Together
  rw [hp, hi, ha, ha]
  exact h

/-- **One turn of `_pair` keeps twins together.** -/
theorem Turn.pairStep (h : Turn cfg A c t e rgb a) (hslop : 0 ≤ cfg.slopNs) (wall : ℚ) {b₀ : Image} {b : List Image}
    (hb : e.images .depth = b₀ :: b) :
    Together A c t (Outcome.final (Engine.pairStep cfg cfg.slopNs wall rgb a b₀ b e)) := by
  obtain ⟨b₁, dep, b₂, hl, hmin, hs⟩ := pairStep_nearest cfg cfg.slopNs wall rgb a b₀ b e
  have hdep : dep ∈ e.images .depth := by rw [hb, hl]; simp
  have hb₀ : b₀ ∈ e.images .depth := by rw [hb]; exact List.mem_cons_self
  rw [← hb] at hmin
  rw [hs]
  split
  · rename_i hle
    have htake : Together A c t (e.takePair rgb dep a (b₁ ++ b₂)) := by
      have harr : ∀ k, (e.takePair rgb dep a (b₁ ++ b₂)).arrived k = e.arrived k := fun k => by
        simp [takePair, Event.arrival]
      have hpairs : (e.takePair rgb dep a (b₁ ++ b₂)).pairs = e.pairs ++ [(rgb, dep)] := by simp [takePair, Event.pair]
      have hrgb : (e.takePair rgb dep a (b₁ ++ b₂)).images .rgb = a := rfl
      have hdepth : (e.takePair rgb dep a (b₁ ++ b₂)).images .depth = b₁ ++ b₂ := rfl
      intro r hr d hd hrd hc ht
      rw [hpairs, harr, harr, hrgb, hdepth]
      rcases h.together r hr d hd hrd hc ht with hp | ⟨hr', hd'⟩
      · exact Or.inl (List.mem_append_left _ hp)
      by_cases hrr : r = rgb
      · subst hrr
        obtain rfl := h.takes_twin hdep hmin hle hd hrd hc ht
        exact Or.inl (by simp)
      · have hdd : d ≠ dep := by
          rintro rfl
          exact hrr (h.taken_twin hdep hmin hle hr hrd hc ht).symm
        refine Or.inr ⟨fun hra => ?_, fun hda => ?_⟩
        · have hm := hr' hra
          rw [h.front] at hm
          exact (List.mem_cons.1 hm).resolve_left hrr
        · have hm := hd' hda
          rw [hb, hl] at hm
          simpa [hdd] using hm
    rcases select_cases cfg wall rgb dep (e.takePair rgb dep a (b₁ ++ b₂)) with
      ⟨due, -, -, hs⟩ | ⟨period, -, -, hs⟩ | ⟨err, x, hs⟩ <;> rw [hs]
    · exact htake.same (by simp [Event.pair]) rfl fun k => by simp [Event.arrival]
    · exact htake.same (by simp [Event.pair]) rfl fun k => by simp [Event.arrival]
    · exact htake.same rfl rfl fun k => rfl
  · rename_i hgt
    split
    · -- the depth image given up is before the front, so it has no twin
      rename_i hlt
      intro r hr d hd hrd hc ht
      have harr : ∀ k, (e.giveUp .depth b₀ b).arrived k = e.arrived k := fun k => giveUp_arrived e .depth k b₀ b
      have hdepth : (e.giveUp .depth b₀ b).images .depth = b := rfl
      rw [Outcome.final_ok, giveUp_pairs, harr, harr, hdepth]
      rcases h.together r hr d hd hrd hc ht with hp | ⟨hr', hd'⟩
      · exact Or.inl hp
      · refine Or.inr ⟨hr', fun hda => ?_⟩
        have hm := hd' hda
        rw [hb] at hm
        refine (List.mem_cons.1 hm).resolve_left ?_
        rintro rfl
        have := h.not_passed hr hb₀ hrd hc ht
        simp only [Image.stamp] at *
        omega
    · -- the RGB image given up has no depth image within the slop, and the one that waits is after it
      rename_i hge
      intro r hr d hd hrd hc ht
      have harr : ∀ k, (e.giveUp .rgb rgb a).arrived k = e.arrived k := fun k => giveUp_arrived e .rgb k rgb a
      have hrgb : (e.giveUp .rgb rgb a).images .rgb = a := rfl
      rw [Outcome.final_ok, giveUp_pairs, harr, harr, hrgb]
      rcases h.together r hr d hd hrd hc ht with hp | ⟨hr', hd'⟩
      · exact Or.inl hp
      · refine Or.inr ⟨fun hra => ?_, hd'⟩
        have hm := hr' hra
        rw [h.front] at hm
        refine (List.mem_cons.1 hm).resolve_left ?_
        rintro rfl
        have hfar : ∀ m ∈ e.images .depth, cfg.slopNs < |m.stamp - r.stamp| := fun m hm =>
          (not_le.1 hgt).trans_le (hmin m hm)
        have hdarr : d ∈ e.arrived .depth := by
          refine mem_of_earlier (h.sorted .depth) (h.sofar .depth) ((h.buffers.buffered .depth).subset hb₀) hd ?_
          have := hfar b₀ hb₀
          rw [lt_abs] at this
          simp only [Image.stamp] at *
          omega
        have := hfar d (hd' hdarr)
        rw [← hrd, sub_self, abs_zero] at this
        omega

/-- A new image waits for its twin. -/
theorem Together.join {e : Engine} (h : Together A c t e) (k : Cam) (m : Image) : Together A c t (e.join k m) := by
  have hkeep : ∀ k' x, (x ∈ e.arrived k' → x ∈ e.images k') → x ∈ (e.join k m).arrived k' → x ∈ (e.join k m).images k' := by
    intro k' x hw hx
    rw [join_arrived] at hx
    by_cases hk : k' = k
    · subst hk
      have himg : (e.join k' m).images k' = e.images k' ++ [m] := if_pos rfl
      rw [if_pos rfl] at hx
      rw [himg]
      exact List.mem_append.2 ((List.mem_append.1 hx).imp_left hw)
    · have himg : (e.join k m).images k' = e.images k' := if_neg hk
      rw [if_neg hk] at hx
      rw [himg]
      exact hw hx
  intro r hr d hd hrd hc ht
  rw [join_pairs]
  exact (h r hr d hd hrd hc ht).imp_right fun hw => ⟨hkeep .rgb r hw.1, hkeep .depth d hw.2⟩

/-- **Twins stay together in every run**, as long as no full buffer loses an image. -/
theorem Together.run (hslop : 0 ≤ cfg.slopNs) (hA : ∀ k, (A k).Pairwise fun x y => x.stamp < y.stamp)
    (hstep : InStep cfg.slopNs c t A) (cs : List Call) :
    (runAllCalls D cfg cs).overflowed = [] → (∀ k, (runAllCalls D cfg cs).arrived k <+: A k) →
      Together A c t (runAllCalls D cfg cs) := by
  refine runAllCalls_rule (P := fun e => e.overflowed = [] → (∀ k, e.arrived k <+: A k) → Together A c t e)
    (fun _ _ r _ d _ _ _ _ => ?_) (fun e e' h hp ho hs => ?_) (fun k m e hb hnew h ho hs => ?_)
    (fun wall rgb a b₀ b e hb h ha hd ho hs => ?_) (fun p rest r text e h _ ho hs => ?_)
    (fun wall p rest g e e' h _ _ ho hs => ?_) cs
  · exact Or.inr ⟨by simp [Engine.init, history], by simp [Engine.init, history]⟩
  · have hov : e'.overflowed = e.overflowed := hp.history fun ev he => by cases ev <;> first | rfl | cases he
    have harr : ∀ k, e'.arrived k = e.arrived k := fun k => hp.history fun ev he => by cases ev <;> first | rfl | cases he
    rw [hov] at ho
    simp only [harr] at hs
    exact (h ho hs).same (hp.history fun ev he => by cases ev <;> first | rfl | cases he) hp.images harr
  · rcases bufferImage_cases cfg k m e with hc | ⟨old, rest, -, hc⟩
    · rw [hc] at ho hs ⊢
      rw [overflowed, history_skip [.buffered k m] rfl (by simp [Event.overflow])] at ho
      refine (h ho fun k' => ?_).join k m
      have harr := hs k'
      rw [join_arrived] at harr
      by_cases hk : k' = k
      · subst hk
        rw [if_pos rfl] at harr
        exact (List.prefix_append _ _).trans harr
      · rw [if_neg hk] at harr
        exact harr
    · rw [hc] at ho
      simp [Event.overflow] at ho
  · have harr : ∀ k, (Outcome.final (Engine.pairStep cfg cfg.slopNs wall rgb a b₀ b e)).arrived k = e.arrived k := fun k =>
      pairStep_skip (fun _ _ => rfl) (fun _ _ => rfl) (fun _ _ => rfl) (fun _ _ => rfl) cfg cfg.slopNs wall rgb a b₀ b e
    rw [overflowed, pairStep_skip (fun _ _ => rfl) (fun _ _ => rfl) (fun _ _ => rfl) (fun _ _ => rfl)] at ho
    simp only [harr] at hs
    exact Turn.pairStep ⟨hA, hstep, hb, hs, h ho hs, ha⟩ hslop wall hd
  · have hs' : ∀ k, (drop p rest r text e).arrived k = e.arrived k := fun k =>
      history_skip [.dropped r p.rgb p.dep] rfl (by simp [Event.arrival])
    simp only [hs'] at hs
    rw [overflowed, history_skip [.dropped r p.rgb p.dep] rfl (by simp [Event.overflow])] at ho
    exact (h ho hs).same (history_skip [.dropped r p.rgb p.dep] rfl (by simp [Event.pair])) rfl hs'
  · have hs' : ∀ k, (emit wall p rest g e').arrived k = e'.arrived k := fun k => emit_skip rfl fun _ => rfl
    simp only [hs'] at hs
    rw [overflowed, emit_skip rfl fun _ => rfl] at ho
    exact (h ho hs).same (emit_skip rfl fun _ => rfl) (by rw [emit_eq]) hs'

end Engine

/-- **Images of the same stamp are paired with each other** when the streams were in step before: for a valid
configuration, streams of increasing stamps and calls that raise nothing, with no image lost by a full buffer. -/
theorem same_stamp_paired (cfg : Config) (hcfg : cfg.validate = .ok ()) (D : Deps) (cs : List Call) {e : Engine}
    (hr : runCalls D cfg cs = .ok e) (hkept : e.overflowed = [])
    (hinc : ∀ k, (Engine.delivered k cs).Pairwise fun x y => x.stamp < y.stamp) {r d : Image}
    (hrgb : r ∈ Engine.delivered .rgb cs) (hdep : d ∈ Engine.delivered .depth cs) (hrd : r.stamp = d.stamp) {c : ℤ}
    (hc : c ≤ r.stamp) (hstep : InStep cfg.slopNs c r.stamp fun k => Engine.delivered k cs) :
    (r, d) ∈ e.pairs ∧ ∀ p ∈ e.pairs, p.1 = r ∨ p.2 = d → p = (r, d) := by
  have hslop := (Config.validate_ok.1 hcfg).slop_ok.2
  obtain ⟨hd, harr⟩ := Engine.Delivering.run hslop hr
  have harr : ∀ k, e.arrived k = Engine.delivered k cs := fun k => harr k (hinc k)
  have hrun := Engine.Together.run (D := D) hslop hinc hstep cs
  rw [runAllCalls, runAll_of_run hr] at hrun
  have htog := hrun hkept fun k => (harr k) ▸ List.prefix_rfl
  have hpair : (r, d) ∈ e.pairs := by
    refine (htog r hrgb d hdep hrd hc le_rfl).resolve_right fun hw => ?_
    have hr' := hw.1 (harr .rgb ▸ hrgb)
    have hd' := hw.2 (harr .depth ▸ hdep)
    rcases hd.empty with h0 | h0
    · rw [h0] at hr'
      cases hr'
    · rw [h0] at hd'
      cases hd'
  refine ⟨hpair, fun p hp hor => ?_⟩
  have hb := hd.matched.buffers
  rcases hor with h | h
  · have hnodup : (e.pairs.map fun p => p.1.stamp).Nodup := List.pairwise_map.2 (hb.ordered.imp ne_of_lt)
    exact List.inj_on_of_nodup_map hnodup hp hpair (by rw [h])
  · have hnodup : (e.pairs.map fun p => p.2.stamp).Nodup := List.pairwise_map.2 hb.distinct
    exact List.inj_on_of_nodup_map hnodup hp hpair (by rw [h])

/-- A slop of 40 ms, the admitted range ending at 50 ms. -/
def Still.wideSlop : Config := { rgbdSlop := lit (1 / 25) }

/-- RGB at 30 Hz, and the depth image of the first frame is lost. -/
def Still.lostDepth : List Call :=
  [.ingest (.image .rgb (rgb 1 100000000)) 1 0, .ingest (.image .rgb (rgb 2 133000000)) 2 0,
    .ingest (.image .depth (depth 2 133000000)) 3 0]

/-- **Images of the same stamp that are not paired**: the RGB image whose depth image is lost takes the next one. -/
theorem same_stamp_not_paired :
    Still.wideSlop.validate = .ok () ∧ (∀ k, (Engine.delivered k Still.lostDepth).Pairwise fun x y => x.stamp < y.stamp) ∧
      Still.rgb 2 133000000 ∈ Engine.delivered .rgb Still.lostDepth ∧
      Still.depth 2 133000000 ∈ Engine.delivered .depth Still.lostDepth ∧
      (Still.rgb 2 133000000).stamp = (Still.depth 2 133000000).stamp ∧
      ∃ e, runCalls Still.deps Still.wideSlop Still.lostDepth = .ok e ∧ e.overflowed = [] ∧
        e.pairs = [(Still.rgb 1 100000000, Still.depth 2 133000000)] := by
  refine ⟨by decide +kernel, fun k => by cases k <;> decide +kernel, by decide +kernel, by decide +kernel, rfl, ?_⟩
  have h : (runCalls Still.deps Still.wideSlop Still.lostDepth).toOption.map (fun e => (e.overflowed, e.pairs)) =
      some ([], [(Still.rgb 1 100000000, Still.depth 2 133000000)]) := by decide +kernel
  obtain ⟨e, hr, he⟩ := ok_of_toOption h
  exact ⟨e, hr, Prod.mk.inj he⟩

/-- The same two streams without the loss, at the same slop. -/
def Still.kept : List Call :=
  [.ingest (.image .rgb (rgb 1 100000000)) 1 0, .ingest (.image .depth (depth 1 100000000)) 2 0,
    .ingest (.image .rgb (rgb 2 133000000)) 3 0, .ingest (.image .depth (depth 2 133000000)) 4 0]

/-- Two frames 33 ms apart at a slop of 40 ms, in step from the start. -/
theorem same_stamp_paired_kept :
    ∃ e, runCalls Still.deps Still.wideSlop Still.kept = .ok e ∧
      (Still.rgb 2 133000000, Still.depth 2 133000000) ∈ e.pairs := by
  have h : (runCalls Still.deps Still.wideSlop Still.kept).toOption.map (fun e => e.overflowed) = some [] := by
    decide +kernel
  obtain ⟨e, hr, hkept⟩ := ok_of_toOption h
  have hstep : InStep Still.wideSlop.slopNs 100000000 133000000 fun k => Engine.delivered k Still.kept := by
    constructor
    · intro k
      cases k <;> decide +kernel
    · intro k
      cases k <;> decide +kernel
  exact ⟨e, hr, (same_stamp_paired Still.wideSlop (by decide +kernel) Still.deps Still.kept hr hkept
    (fun k => by cases k <;> decide +kernel) (r := Still.rgb 2 133000000) (d := Still.depth 2 133000000)
    (by decide +kernel) (by decide +kernel) rfl (c := 100000000) (by decide +kernel) hstep).1⟩

end Agilex.Capture
