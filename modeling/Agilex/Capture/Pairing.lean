import Agilex.Capture.EngineRules
import Agilex.Lib.StreamMatch

/-!
# Pairing of images

- In every run, whatever is raised, an image is in at most one pair and the images of a pair are within the slop
  (`PairBuffers`);
- for streams spaced by more than twice the slop, the pairs formed are all the pairs within the slop, in whatever order
  the images of the two streams arrive (`Matched`, by the rules of `StreamMatch.Progress`);
- what the rate limit lets through is a function of the pairs formed (`Limited`).
-/

namespace Agilex.Capture

open Agilex.Lib Binary64 Outcome StreamMatch

/-- The key of the image streams. -/
abbrev Image.stamp (m : Image) : ℤ := m.header.stamp

namespace Engine

variable {D : Deps} {cfg : Config}

/-! ## One-to-one -/

/-- What pairing keeps: images arrive with increasing stamps, buffers hold arrived images in order, and pairs use images
that have left their buffers, each once. -/
structure PairBuffers (cfg : Config) (e : Engine) : Prop where
  arrivals : ∀ c, (e.arrived c).Pairwise fun x y => x.stamp < y.stamp
  last : ∀ c, ∀ m ∈ e.arrived c, ∃ s, e.last (.image c) = some s ∧ m.stamp ≤ s
  buffered : ∀ c, (e.images c).Sublist (e.arrived c)
  sound : ∀ p ∈ e.pairs, p.1 ∈ e.arrived .rgb ∧ p.2 ∈ e.arrived .depth ∧ |p.2.stamp - p.1.stamp| ≤ cfg.slopNs
  ordered : e.pairs.Pairwise fun p q => p.1.stamp < q.1.stamp
  distinct : e.pairs.Pairwise fun p q => p.2.stamp ≠ q.2.stamp
  ahead : ∀ p ∈ e.pairs, ∀ m ∈ e.images .rgb, p.1.stamp < m.stamp
  unused : ∀ p ∈ e.pairs, ∀ m ∈ e.images .depth, p.2.stamp ≠ m.stamp

theorem PairBuffers.init (cfg : Config) : PairBuffers cfg .init := by
  constructor <;> simp [Engine.init, history]

/-- Buffers hold images of increasing stamps. -/
theorem PairBuffers.sorted {e : Engine} (h : PairBuffers cfg e) (c : Cam) :
    (e.images c).Pairwise fun x y => x.stamp < y.stamp := (h.arrivals c).sublist (h.buffered c)

/-- Pairing does not change with what concerns other things. -/
theorem PairBuffers.same {e e' : Engine} (h : PairBuffers cfg e) (hi : e'.images = e.images)
    (hl : ∀ c, e'.last (.image c) = e.last (.image c)) (ha : ∀ c, e'.arrived c = e.arrived c)
    (hp : e'.pairs = e.pairs) : PairBuffers cfg e' := by
  constructor
  · intro c; rw [ha]; exact h.arrivals c
  · intro c; rw [ha, hl]; exact h.last c
  · intro c; rw [ha, hi]; exact h.buffered c
  · rw [hp, ha, ha]; exact h.sound
  · rw [hp]; exact h.ordered
  · rw [hp]; exact h.distinct
  · rw [hp, hi]; exact h.ahead
  · rw [hp, hi]; exact h.unused

/-- A buffer gives an image up. -/
theorem PairBuffers.giveUp {e e' : Engine} (h : PairBuffers cfg e) {c : Cam} {m : Image} {rest : List Image}
    (hm : e.images c = m :: rest) (hi : ∀ c', e'.images c' = if c' = c then rest else e.images c')
    (hl : e'.last = e.last) (ha : ∀ c, e'.arrived c = e.arrived c) (hp : e'.pairs = e.pairs) : PairBuffers cfg e' := by
  have hsub : ∀ c', (e'.images c').Sublist (e.images c') := by
    intro c'
    rw [hi]
    split
    · rename_i hcc
      subst hcc
      rw [hm]
      exact List.sublist_cons_self m rest
    · exact List.Sublist.refl _
  refine ⟨fun c' => ?_, fun c' => ?_, fun c' => ?_, ?_, ?_, ?_, ?_, ?_⟩
  · rw [ha]; exact h.arrivals c'
  · rw [ha, hl]; exact h.last c'
  · rw [ha]; exact (hsub c').trans (h.buffered c')
  · rw [hp, ha, ha]; exact h.sound
  · rw [hp]; exact h.ordered
  · rw [hp]; exact h.distinct
  · rw [hp]; exact fun p hp' x hx => h.ahead p hp' x ((hsub .rgb).subset hx)
  · rw [hp]; exact fun p hp' x hx => h.unused p hp' x ((hsub .depth).subset hx)

/-- A new image joins its buffer. -/
theorem PairBuffers.join {e : Engine} (h : PairBuffers cfg e) {c : Cam} {m : Image}
    (hnew : ∀ x ∈ e.arrived c, x.stamp < m.stamp) (hl : e.last (.image c) = some m.stamp) :
    PairBuffers cfg (e.join c m) := by
  have hp := join_pairs c m e
  have himg : ∀ c', (e.join c m).images c' = if c' = c then e.images c ++ [m] else e.images c' := fun c' => rfl
  have hsub : ∀ c', e.arrived c' ⊆ (e.join c m).arrived c' := by
    intro c' x hx
    rw [join_arrived]
    split
    · rename_i hcc
      subst hcc
      exact List.mem_append_left _ hx
    · exact hx
  refine ⟨fun c' => ?_, fun c' x hx => ?_, fun c' => ?_, fun p hp' => ?_, ?_, ?_, fun p hp' x hx => ?_, fun p hp' x hx => ?_⟩
  · rw [join_arrived]
    split
    · refine List.pairwise_append.2 ⟨h.arrivals c, by simp, fun x hx y hy => ?_⟩
      obtain rfl := List.mem_singleton.1 hy
      exact hnew x hx
    · exact h.arrivals c'
  · rw [join_arrived] at hx
    split at hx
    · rename_i hcc
      subst hcc
      rcases List.mem_append.1 hx with hx | hx
      · exact ⟨m.stamp, hl, (hnew x hx).le⟩
      · obtain rfl := List.mem_singleton.1 hx
        exact ⟨x.stamp, hl, le_rfl⟩
    · exact h.last c' x hx
  · rw [join_arrived, himg]
    split
    · exact (h.buffered c).append_right [m]
    · exact h.buffered c'
  · rw [hp] at hp'
    obtain ⟨h1, h2, h3⟩ := h.sound p hp'
    exact ⟨hsub _ h1, hsub _ h2, h3⟩
  · rw [hp]; exact h.ordered
  · rw [hp]; exact h.distinct
  · rw [hp] at hp'
    rw [himg] at hx
    split at hx
    · rename_i hcc
      subst hcc
      rcases List.mem_append.1 hx with hx | hx
      · exact h.ahead p hp' x hx
      · obtain rfl := List.mem_singleton.1 hx
        exact hnew p.1 (h.sound p hp').1
    · exact h.ahead p hp' x hx
  · rw [hp] at hp'
    rw [himg] at hx
    split at hx
    · rename_i hcc
      subst hcc
      rcases List.mem_append.1 hx with hx | hx
      · exact h.unused p hp' x hx
      · obtain rfl := List.mem_singleton.1 hx
        exact (hnew p.2 (h.sound p hp').2.1).ne
    · exact h.unused p hp' x hx

/-- A pair within the slop is formed. -/
theorem PairBuffers.takePair {e : Engine} (h : PairBuffers cfg e) {rgb dep : Image} {a b₁ b₂ : List Image}
    (ha : e.images .rgb = rgb :: a) (hb : e.images .depth = b₁ ++ dep :: b₂)
    (hd : |dep.stamp - rgb.stamp| ≤ cfg.slopNs) : PairBuffers cfg (e.takePair rgb dep a (b₁ ++ b₂)) := by
  have harr : ∀ c, (e.takePair rgb dep a (b₁ ++ b₂)).arrived c = e.arrived c := by
    intro c
    simp [Engine.takePair, Event.arrival]
  have hp : (e.takePair rgb dep a (b₁ ++ b₂)).pairs = e.pairs ++ [(rgb, dep)] := by
    simp [Engine.takePair, Event.pair]
  have hrgb := h.sorted .rgb
  have hdep := h.sorted .depth
  rw [ha] at hrgb
  rw [hb] at hdep
  have hsub : ∀ c, ((e.takePair rgb dep a (b₁ ++ b₂)).images c).Sublist (e.images c) := by
    intro c
    cases c with
    | rgb => rw [ha]; exact List.sublist_cons_self rgb a
    | depth => rw [hb]; exact (List.sublist_cons_self dep b₂).append_left b₁
  have hdne : ∀ m ∈ b₁ ++ b₂, dep.stamp ≠ m.stamp := by
    intro m hm
    obtain ⟨-, h2, h3⟩ := List.pairwise_append.1 hdep
    rcases List.mem_append.1 hm with hm | hm
    · exact (h3 m hm dep List.mem_cons_self).ne'
    · exact ((List.pairwise_cons.1 h2).1 m hm).ne
  refine ⟨fun c => ?_, fun c => ?_, fun c => ?_, fun p hp' => ?_, ?_, ?_, fun p hp' x hx => ?_, fun p hp' x hx => ?_⟩
  · rw [harr]; exact h.arrivals c
  · rw [harr]; exact h.last c
  · rw [harr]; exact (hsub c).trans (h.buffered c)
  · rw [hp] at hp'
    rw [harr, harr]
    rcases List.mem_append.1 hp' with hp' | hp'
    · exact h.sound p hp'
    · obtain rfl := List.mem_singleton.1 hp'
      exact ⟨(h.buffered .rgb).subset (ha ▸ List.mem_cons_self), (h.buffered .depth).subset (hb ▸ by simp), hd⟩
  · rw [hp]
    refine List.pairwise_append.2 ⟨h.ordered, by simp, fun p hp' q hq => ?_⟩
    obtain rfl := List.mem_singleton.1 hq
    exact h.ahead p hp' rgb (ha ▸ List.mem_cons_self)
  · rw [hp]
    refine List.pairwise_append.2 ⟨h.distinct, by simp, fun p hp' q hq => ?_⟩
    obtain rfl := List.mem_singleton.1 hq
    exact h.unused p hp' dep (hb ▸ by simp)
  · rw [hp] at hp'
    rcases List.mem_append.1 hp' with hp' | hp'
    · exact h.ahead p hp' x ((hsub .rgb).subset hx)
    · obtain rfl := List.mem_singleton.1 hp'
      exact (List.pairwise_cons.1 hrgb).1 x hx
  · rw [hp] at hp'
    rcases List.mem_append.1 hp' with hp' | hp'
    · exact h.unused p hp' x ((hsub .depth).subset hx)
    · obtain rfl := List.mem_singleton.1 hp'
      exact hdne x hx

theorem PairBuffers.select {e : Engine} (h : PairBuffers cfg e) (wall : ℚ) (rgb dep : Image) :
    PairBuffers cfg (Outcome.final (Engine.select cfg wall rgb dep e)) := by
  rcases select_cases cfg wall rgb dep e with ⟨due, -, -, hs⟩ | ⟨period, -, -, hs⟩ | ⟨err, x, hs⟩ <;> rw [hs]
  · exact h.same rfl (fun _ => rfl) (fun c => by simp [Event.arrival]) (by simp [Event.pair])
  · exact h.same rfl (fun _ => rfl) (fun c => by simp [Event.arrival]) (by simp [Event.pair])
  · exact h.same rfl (fun _ => rfl) (fun _ => rfl) rfl

theorem PairBuffers.pairStep {e : Engine} (h : PairBuffers cfg e) (wall : ℚ) {rgb : Image} {a : List Image}
    {b₀ : Image} {b : List Image} (ha : e.images .rgb = rgb :: a) (hb : e.images .depth = b₀ :: b) :
    PairBuffers cfg (Outcome.final (Engine.pairStep cfg cfg.slopNs wall rgb a b₀ b e)) := by
  rcases pairStep_cases cfg cfg.slopNs wall rgb a b₀ b e with ⟨b₁, dep, b₂, hl, hd, hs⟩ | ⟨-, -, hs⟩ | ⟨-, -, hs⟩ <;> rw [hs]
  · exact (h.takePair ha (hb.trans hl) hd).select wall rgb dep
  · exact h.giveUp hb (fun _ => rfl) rfl (fun c => by simp [Engine.giveUp, Event.arrival])
      (by simp [Engine.giveUp, Event.pair])
  · exact h.giveUp ha (fun _ => rfl) rfl (fun c => by simp [Engine.giveUp, Event.arrival])
      (by simp [Engine.giveUp, Event.pair])

theorem PairBuffers.pair {e : Engine} (h : PairBuffers cfg e) (wall : ℚ) :
    PairBuffers cfg (Outcome.final (Engine.pair cfg wall e)) := by
  unfold Engine.pair
  cases hs : pyInt (mul cfg.rgbdSlop (10 ^ 9)) with
  | error err => exact h
  | ok slop =>
    obtain rfl : slop = cfg.slopNs := pyInt_ok hs
    exact pairLoop_rule (P := PairBuffers cfg) (fun rgb a b₀ b e h ha hb => h.pairStep wall ha hb) _ e h

theorem PairBuffers.bufferImage {e : Engine} (h : PairBuffers cfg e) {c : Cam} {m : Image}
    (hnew : ∀ x ∈ e.arrived c, x.stamp < m.stamp) (hl : e.last (.image c) = some m.stamp) :
    PairBuffers cfg (e.bufferImage cfg c m) := by
  have hb := h.join hnew hl
  rcases bufferImage_cases cfg c m e with hc | ⟨old, rest, ho, hc⟩ <;> rw [hc]
  · exact hb
  · exact hb.giveUp ho (fun _ => rfl) rfl (fun c => by simp [Event.arrival]) (by simp [Event.pair])

theorem PairBuffers.drain {e : Engine} (h : PairBuffers cfg e) (wall : ℚ) (final : Bool) :
    PairBuffers cfg (Outcome.final (Engine.drain D cfg wall final e)) := by
  have hd := drain_draining D cfg wall final e
  exact h.same hd.images (fun c => by rw [hd.last]) hd.arrived hd.pairs

/-- An input is noted; an image of it is newer than all that arrived on its stream. -/
theorem PairBuffers.noted {e e₀ : Engine} {x : Input} (h : PairBuffers cfg e) (hn : Noted e x e₀) :
    PairBuffers cfg e₀ ∧ ∀ c m, x = .image c m →
      e₀.last (.image c) = some m.stamp ∧ ∀ y ∈ e₀.arrived c, y.stamp < m.stamp := by
  obtain ⟨hother, htopic⟩ := hn.last
  obtain ⟨st, l, ls, rfl, -⟩ := hn.eq
  refine ⟨⟨h.arrivals, fun c m hm => ?_, h.buffered, h.sound, h.ordered, h.distinct, h.ahead, h.unused⟩, fun c m hm => ?_⟩
  · obtain ⟨s, hs, hms⟩ := h.last c m hm
    cases hx : x.sourceHeader with
    | none => exact ⟨s, (hother (.image c) (Or.inl hx)).trans hs, hms⟩
    | some hd =>
      by_cases ht : Topic.image c = x.topic
      · obtain ⟨-, h1, h2⟩ := htopic hd hx
        rw [← ht] at h1 h2
        exact ⟨hd.stamp, h1, hms.trans (h2 s hs).le⟩
      · exact ⟨s, (hother (.image c) (Or.inr ht)).trans hs, hms⟩
  · subst hm
    obtain ⟨-, h1, h2⟩ := htopic m.header rfl
    refine ⟨h1, fun y hy => ?_⟩
    obtain ⟨s, hs, hys⟩ := h.last c y hy
    exact hys.trans_lt (h2 s hs)

theorem PairBuffers.receive {e : Engine} (h : PairBuffers cfg e) {x : Input} (arrivalNs : ℤ) (wall : ℚ)
    (hx : ∀ c m, x = .image c m → e.last (.image c) = some m.stamp ∧ ∀ y ∈ e.arrived c, y.stamp < m.stamp) :
    PairBuffers cfg (Outcome.final (e.receive D cfg x arrivalNs wall)) := by
  by_cases hi : ∃ c m, x = .image c m
  · obtain ⟨c, m, rfl⟩ := hi
    obtain ⟨hlast, hnew⟩ := hx c m rfl
    exact (h.bufferImage hnew hlast).pair wall
  · push Not at hi
    have hq := receive_quiet D cfg arrivalNs wall (e := e) hi
    exact h.same hq.images (fun c => by rw [receive_last]) hq.arrived hq.pairs

/-- **Every call keeps the pairing one-to-one**, whatever it raises. -/
theorem PairBuffers.exec {e : Engine} (h : PairBuffers cfg e) (c : Call) :
    PairBuffers cfg (Outcome.final (c.exec D cfg e)) := by
  refine exec_rule h (fun e k _ h => h.same rfl (fun _ => rfl) (fun _ => rfl) rfl) (fun wall final e h => h.drain wall final)
    (fun x arrivalNs wall e₀ hn => ?_) c
  obtain ⟨h₀, hx⟩ := h.noted hn
  exact h₀.receive arrivalNs wall hx

theorem PairBuffers.run (D : Deps) (cfg : Config) (cs : List Call) : PairBuffers cfg (runAllCalls D cfg cs) :=
  runAll_invariant (P := PairBuffers cfg) (fun c _ h => h.exec c) cs (.init cfg)

/-- **Induction rule of any calls**, whatever they raise: what concerns neither images nor frames, buffering a newer
image, a turn of `_pair`, and the end of a queued frame. -/
theorem runAllCalls_rule {P : Engine → Prop} (h0 : P .init) (hplain : ∀ e e', P e → Plain e e' → P e')
    (hbuffer : ∀ c m e, PairBuffers cfg e → (∀ y ∈ e.arrived c, y.stamp < m.stamp) → P e → P (e.bufferImage cfg c m))
    (hpair : ∀ wall rgb a b₀ b e, PairBuffers cfg e → P e → e.images .rgb = rgb :: a → e.images .depth = b₀ :: b →
      P (Outcome.final (Engine.pairStep cfg cfg.slopNs wall rgb a b₀ b e)))
    (hdrop : ∀ p rest r text e, P e → e.pending = p :: rest → P (drop p rest r text e))
    (hemit : ∀ wall p rest g e e', P e' → e'.pending = p :: rest → makeGroup D cfg p.rgb p.dep e = .ok (g, e') →
      P (emit wall p rest g e'))
    (cs : List Call) : P (runAllCalls D cfg cs) := by
  have hdrain : ∀ wall final e, P e → P (Outcome.final (Engine.drain D cfg wall final e)) := fun wall final e h =>
    drainLoop_rule (P := P) (fun e e' h ht => hplain e e' h ht.quiet.toPlain) hdrop (hemit wall) e.pending e h rfl
  have hreceive : ∀ x arrivalNs wall e, PairBuffers cfg e → P e →
      (∀ c m, x = .image c m → e.last (.image c) = some m.stamp ∧ ∀ y ∈ e.arrived c, y.stamp < m.stamp) →
      P (Outcome.final (e.receive D cfg x arrivalNs wall)) := by
    intro x arrivalNs wall e hb h hx
    by_cases hi : ∃ c m, x = .image c m
    · obtain ⟨c, m, rfl⟩ := hi
      obtain ⟨hlast, hnew⟩ := hx c m rfl
      have h₁ := hbuffer c m e hb hnew h
      simp only [receive, Engine.pair]
      cases hs : pyInt (mul cfg.rgbdSlop (10 ^ 9)) with
      | error err => exact h₁
      | ok slop =>
        obtain rfl : slop = cfg.slopNs := pyInt_ok hs
        exact (pairLoop_rule (P := fun e => PairBuffers cfg e ∧ P e) (fun rgb a b₀ b e h ha hb =>
          ⟨h.1.pairStep wall ha hb, hpair wall rgb a b₀ b e h.1 h.2 ha hb⟩) _ _ ⟨hb.bufferImage hnew hlast, h₁⟩).2
    · exact hplain _ _ h (receive_quiet D cfg arrivalNs wall fun c m hm => hi ⟨c, m, hm⟩).toPlain
  refine (runAll_invariant (P := fun e => PairBuffers cfg e ∧ P e) (fun c e h => ⟨h.1.exec c, ?_⟩) cs ⟨.init cfg, h0⟩).2
  obtain ⟨hb, h⟩ := h
  refine exec_rule h (fun e k hk h => hplain _ _ h (Plain.inc e hk)) hdrain (fun x arrivalNs wall e₀ hn => ?_) c
  obtain ⟨hb₀, hnew⟩ := hb.noted hn
  exact hreceive x arrivalNs wall e₀ hb₀ (hplain _ _ h hn.toPlain) hnew

/-! ## All pairs within the slop, in any order of arrival -/

/-- No image was lost by a full buffer, and images of a stream are more than twice the slop apart. -/
structure Sparse (cfg : Config) (e : Engine) : Prop where
  kept : e.overflowed = []
  spaced : ∀ c, Spaced Image.stamp (2 * cfg.slopNs) (e.arrived c)

/-- The pairs formed and the images buffered are where the matching of two sparse streams stands. -/
def Progressing (cfg : Config) (e : Engine) : Prop :=
  Progress Image.stamp Image.stamp cfg.slopNs (e.arrived .rgb) (e.arrived .depth) (e.images .rgb) (e.images .depth)
    e.pairs

theorem Progressing.same {e e' : Engine} (h : Progressing cfg e) (hi : e'.images = e.images)
    (ha : ∀ c, e'.arrived c = e.arrived c) (hp : e'.pairs = e.pairs) : Progressing cfg e' := by
  unfold Progressing
  rw [hi, ha, ha, hp]
  exact h

/-- What the rate limit lets through of the pairs formed: the next due time, and the pairs. -/
def rateLimit (period : ℤ) (s : Option ℤ × List (Image × Image)) (p : Image × Image) : Option ℤ × List (Image × Image) :=
  if s.1.any (p.1.stamp < ·) then s else (some (advanceDue (s.1.getD p.1.stamp) p.1.stamp period), s.2 ++ [p])

/-- `int(1e9/rate)`. -/
def periodNs (cfg : Config) : ℤ := trunc (div (10 ^ 9) cfg.rate)

/-- The queue of frames is a function of the pairs formed. -/
def Limited (cfg : Config) (e : Engine) : Prop :=
  (e.nextDue, e.selected) = e.pairs.foldl (rateLimit (periodNs cfg)) (none, [])

theorem Limited.same {e e' : Engine} (h : Limited cfg e) (hn : e'.nextDue = e.nextDue) (hs : e'.selected = e.selected)
    (hp : e'.pairs = e.pairs) : Limited cfg e' := by
  unfold Limited
  rw [hn, hs, hp]
  exact h

/-- What `_pair` keeps as long as it raises nothing. -/
structure Matched (cfg : Config) (e : Engine) : Prop where
  buffers : PairBuffers cfg e
  progress : Sparse cfg e → Progressing cfg e
  limited : Limited cfg e

theorem Matched.init (cfg : Config) : Matched cfg .init :=
  ⟨.init cfg, fun _ => Progress.nil, rfl⟩

/-- What a selection that raises nothing does to the pairs and the queue. -/
theorem select_ok {e e' : Engine} {wall : ℚ} {rgb dep : Image} (h : Engine.select cfg wall rgb dep e = .ok e') :
    e'.images = e.images ∧ (∀ c, e'.arrived c = e.arrived c) ∧ e'.pairs = e.pairs ∧ e'.overflowed = e.overflowed ∧
      (e'.nextDue, e'.selected) = rateLimit (periodNs cfg) (e.nextDue, e.selected) (rgb, dep) := by
  rcases select_cases cfg wall rgb dep e with ⟨due, hdue, hlt, hs⟩ | ⟨period, hp, hle, hs⟩ | ⟨err, x, hs⟩ <;>
    rw [hs] at h <;> cases h
  · refine ⟨rfl, fun c => by simp [Event.arrival], by simp [Event.pair], by simp [Event.overflow], ?_⟩
    have hn : ((e.inc .rateFiltered).log (.rateFiltered rgb dep)).nextDue = e.nextDue := rfl
    rw [rateLimit, hn, hdue, if_pos (by simpa using hlt)]
    simp [Event.selection]
  · obtain rfl : period = periodNs cfg := pyInt_ok hp
    refine ⟨rfl, fun c => by simp [Event.arrival], by simp [Event.pair], by simp [Event.overflow], ?_⟩
    have hno : ¬(e.nextDue.any fun due => decide (rgb.stamp < due)) = true := by
      cases hn : e.nextDue with
      | none => simp
      | some due =>
        have := hle due hn
        simpa using this
    rw [rateLimit, if_neg hno]
    simp [Event.selection]
    rfl

/-- A pair is formed, and refused by the rate limit or queued. -/
theorem Matched.match {e e' : Engine} (h : Matched cfg e) {wall : ℚ} {rgb dep : Image} {a b₁ b₂ : List Image}
    (ha : e.images .rgb = rgb :: a) (hb : e.images .depth = b₁ ++ dep :: b₂)
    (hd : |dep.stamp - rgb.stamp| ≤ cfg.slopNs)
    (hs : Engine.select cfg wall rgb dep (e.takePair rgb dep a (b₁ ++ b₂)) = .ok e') : Matched cfg e' := by
  have hbuf := (h.buffers.takePair ha hb hd).select wall rgb dep
  rw [hs, final_ok] at hbuf
  obtain ⟨hi, harr, hp, hov, hlim⟩ := select_ok hs
  have harr' : ∀ c, e'.arrived c = e.arrived c := fun c => by
    rw [harr]; simp [Engine.takePair, Event.arrival]
  have hp' : e'.pairs = e.pairs ++ [(rgb, dep)] := by
    rw [hp]; simp [Engine.takePair, Event.pair]
  refine ⟨hbuf, fun hsp => ?_, ?_⟩
  · have hkept : e.overflowed = [] := by
      have := hsp.kept
      rw [hov] at this
      simpa [Engine.takePair, Event.overflow] using this
    have hspaced : ∀ c, Spaced Image.stamp (2 * cfg.slopNs) (e.arrived c) := fun c => harr' c ▸ hsp.spaced c
    have hpr := h.progress ⟨hkept, hspaced⟩
    have hsorted := h.buffers.sorted .rgb
    unfold Progressing at hpr ⊢
    rw [ha, hb] at hpr
    rw [ha] at hsorted
    rw [hi, harr', harr', hp']
    exact hpr.take (hspaced .rgb) (hspaced .depth) (List.pairwise_cons.1 hsorted).1 (abs_sub_comm rgb.stamp dep.stamp ▸ hd)
  · unfold Limited
    rw [hp', List.foldl_append, ← h.limited]
    have hsel : (e.takePair rgb dep a (b₁ ++ b₂)).selected = e.selected := by simp [Engine.takePair, Event.selection]
    rw [hlim, hsel]
    rfl

theorem giveUp_arrived (e : Engine) (c c' : Cam) (m : Image) (rest : List Image) :
    (e.giveUp c m rest).arrived c' = e.arrived c' := by simp [Engine.giveUp, Event.arrival]

theorem giveUp_pairs (e : Engine) (c : Cam) (m : Image) (rest : List Image) : (e.giveUp c m rest).pairs = e.pairs := by
  simp [Engine.giveUp, Event.pair]

/-- An image without a partner within the slop is given up. -/
theorem Matched.giveUp {e : Engine} (h : Matched cfg e) {c : Cam} {m : Image} {rest : List Image}
    (hm : e.images c = m :: rest)
    (hdrop : Progressing cfg e → Progressing cfg (e.giveUp c m rest)) : Matched cfg (e.giveUp c m rest) := by
  refine ⟨h.buffers.giveUp hm (fun _ => rfl) rfl (giveUp_arrived e c · m rest) (giveUp_pairs e c m rest),
    fun hsp => hdrop (h.progress ⟨?_, fun c' => ?_⟩),
    h.limited.same rfl (by simp [Engine.giveUp, Event.selection]) (giveUp_pairs e c m rest)⟩
  · simpa [Engine.giveUp, Event.overflow] using hsp.kept
  · rw [← giveUp_arrived e c c' m rest]
    exact hsp.spaced c'

theorem Matched.pairStep {e e' : Engine} (h : Matched cfg e) {wall : ℚ} {rgb : Image} {a : List Image} {b₀ : Image}
    {b : List Image} (ha : e.images .rgb = rgb :: a) (hb : e.images .depth = b₀ :: b)
    (hs : Engine.pairStep cfg cfg.slopNs wall rgb a b₀ b e = .ok e') : Matched cfg e' := by
  have hrgb := h.buffers.sorted .rgb
  have hdep := h.buffers.sorted .depth
  rw [ha] at hrgb
  rw [hb] at hdep
  obtain ⟨hrgb, -⟩ := List.pairwise_cons.1 hrgb
  obtain ⟨hdep, -⟩ := List.pairwise_cons.1 hdep
  rcases pairStep_cases cfg cfg.slopNs wall rgb a b₀ b e with ⟨b₁, dep, b₂, hl, hd, hp⟩ | ⟨-, hlt, hp⟩ | ⟨hfar, hle, hp⟩ <;>
    rw [hp] at hs
  · exact h.match ha (hb.trans hl) hd hs
  · -- the oldest depth image is behind every RGB image
    cases hs
    refine h.giveUp hb fun hpr => ?_
    unfold Progressing at hpr ⊢
    rw [hb] at hpr
    rw [giveUp_arrived, giveUp_arrived, giveUp_pairs]
    refine hpr.drop_right (fun r hr => ?_) (by rw [ha]; simp)
    rw [ha] at hr
    rcases List.mem_cons.1 hr with rfl | hr
    · simp only [Image.stamp]
      omega
    · have := hrgb r hr
      simp only [Image.stamp] at *
      omega
  · -- the oldest RGB image is behind every depth image
    cases hs
    refine h.giveUp ha fun hpr => ?_
    unfold Progressing at hpr ⊢
    rw [ha] at hpr
    rw [giveUp_arrived, giveUp_arrived, giveUp_pairs]
    refine hpr.drop_left (fun d hd => ?_) (by rw [hb]; simp)
    have hd' : d ∈ b₀ :: b := hb ▸ hd
    have hslop := hfar d hd'
    have hge : b₀.header.stamp ≤ d.header.stamp := by
      rcases List.mem_cons.1 hd' with rfl | hd'
      · exact le_rfl
      · exact (hdep d hd').le
    simp only [Image.stamp]
    rw [lt_abs] at hslop
    omega

theorem Matched.pair {e e' : Engine} (h : Matched cfg e) {wall : ℚ} (hs : Engine.pair cfg wall e = .ok e') :
    Matched cfg e' ∧ (e'.images .rgb = [] ∨ e'.images .depth = []) := by
  obtain ⟨slop, hslop, hs⟩ := bind_ok.1 hs
  obtain rfl : slop = cfg.slopNs := pyInt_ok (lift_ok.1 hslop)
  exact ⟨pairLoop_ok_rule (P := Matched cfg) (fun rgb a b₀ b e e' h ha hb hs => h.pairStep ha hb hs) _ e e' h hs,
    pairLoop_done _ le_rfl hs⟩

/-- An image joins its buffer; a full buffer loses its oldest, and the streams are no longer sparse. -/
theorem Matched.bufferImage {e : Engine} (hslop : 0 ≤ cfg.slopNs) (h : Matched cfg e) {c : Cam} {m : Image}
    (hnew : ∀ x ∈ e.arrived c, x.stamp < m.stamp) (hl : e.last (.image c) = some m.stamp) :
    Matched cfg (e.bufferImage cfg c m) := by
  have hbuf := h.buffers.bufferImage hnew hl
  rcases bufferImage_cases cfg c m e with hc | ⟨old, rest, -, hc⟩ <;> rw [hc] at hbuf ⊢
  · refine ⟨hbuf, fun hsp => ?_, h.limited.same rfl (by simp [Engine.join, Event.selection]) (join_pairs c m e)⟩
    have hspaced : ∀ c', Spaced Image.stamp (2 * cfg.slopNs) (e.arrived c') := by
      intro c'
      have := hsp.spaced c'
      rw [join_arrived] at this
      split at this
      · rename_i hcc
        subst hcc
        exact (List.pairwise_append.1 this).1
      · exact this
    have hkept : e.overflowed = [] := by simpa [Engine.join, Event.overflow] using hsp.kept
    have hpr := h.progress ⟨hkept, hspaced⟩
    have hnext := hsp.spaced c
    rw [join_arrived, if_pos rfl] at hnext
    unfold Progressing at hpr ⊢
    rw [join_pairs, join_arrived, join_arrived]
    cases c with
    | rgb => exact hpr.push_left hnext hslop
    | depth => exact hpr.push_right hnext hslop
  · refine ⟨hbuf, fun hsp => ?_, h.limited.same rfl (by simp [Engine.join, Event.selection]) ?_⟩
    · have := hsp.kept
      simp [Event.overflow] at this
    · simp [Engine.join, Event.pair]

theorem Matched.quiet {e e' : Engine} (h : Matched cfg e) (hq : Quiet e e') (hbuf : PairBuffers cfg e') :
    Matched cfg e' := by
  refine ⟨hbuf, fun hsp => (h.progress ⟨?_, fun c => ?_⟩).same hq.images hq.arrived hq.pairs,
    h.limited.same hq.nextDue hq.selected hq.pairs⟩
  · rw [← hq.overflowed]
    exact hsp.kept
  · rw [← hq.arrived]
    exact hsp.spaced c

theorem Matched.drain {e : Engine} (h : Matched cfg e) (wall : ℚ) (final : Bool) :
    Matched cfg (Outcome.final (Engine.drain D cfg wall final e)) := by
  have hd := drain_draining D cfg wall final e
  refine ⟨h.buffers.drain wall final, fun hsp => (h.progress ⟨?_, fun c => ?_⟩).same hd.images hd.arrived hd.pairs,
    h.limited.same hd.nextDue hd.selected hd.pairs⟩
  · rw [← hd.overflowed]
    exact hsp.kept
  · rw [← hd.arrived]
    exact hsp.spaced c

/-! ## Runs -/

/-- The images of a stream among some calls. -/
def delivered (c : Cam) (cs : List Call) : List Image :=
  cs.filterMap fun
    | .ingest (.image c' m) _ _ => if c' = c then some m else none
    | _ => none

theorem delivered_append (c : Cam) (cs cs' : List Call) :
    delivered c (cs ++ cs') = delivered c cs ++ delivered c cs' := List.filterMap_append

theorem delivered_image (c : Cam) (m : Image) (arrivalNs : ℤ) (wall : ℚ) :
    delivered c [.ingest (.image c m) arrivalNs wall] = [m] := by
  simp [delivered]

/-- What is no image of the stream adds nothing to it. -/
theorem delivered_of_ne {c : Cam} {x : Input} (hx : ∀ m, x ≠ .image c m) (arrivalNs : ℤ) (wall : ℚ) :
    delivered c [.ingest x arrivalNs wall] = [] := by
  cases x with
  | image c' m =>
    have hc : c' ≠ c := fun hc => hx m (by rw [hc])
    simp [delivered, hc]
  | _ => rfl

/-- Between calls that raise nothing, one buffer is empty, and the source clock shows the last image that arrived. -/
structure Delivering (cfg : Config) (e : Engine) : Prop where
  matched : Matched cfg e
  empty : e.images .rgb = [] ∨ e.images .depth = []
  clock : ∀ c s, e.last (.image c) = some s → ∃ m ∈ e.arrived c, m.stamp = s

theorem Delivering.init (cfg : Config) : Delivering cfg .init :=
  ⟨.init cfg, Or.inl rfl, by simp [Engine.init]⟩

theorem Delivering.drain {e e' : Engine} (h : Delivering cfg e) {wall : ℚ} {final : Bool}
    (hs : Engine.drain D cfg wall final e = .ok e') :
    Delivering cfg e' ∧ ∀ c, e'.arrived c = e.arrived c := by
  have hm := h.matched.drain (D := D) wall final
  have hd := drain_draining D cfg wall final e
  rw [hs, final_ok] at hm hd
  refine ⟨⟨hm, by rw [hd.images]; exact h.empty, fun c s hc => ?_⟩, hd.arrived⟩
  rw [hd.last] at hc
  rw [hd.arrived]
  exact h.clock c s hc

/-- An input that is no image. -/
theorem Delivering.receive {e e' : Engine} (h : Delivering cfg e) {x : Input} {arrivalNs : ℤ} {wall : ℚ}
    (hx : ∀ c m, x ≠ .image c m) (hs : e.receive D cfg x arrivalNs wall = .ok e') :
    Delivering cfg e' ∧ ∀ c, e'.arrived c = e.arrived c := by
  have hq := receive_quiet D cfg arrivalNs wall (e := e) hx
  have hl := receive_last D cfg x arrivalNs wall e
  have hb := h.matched.buffers.receive (D := D) arrivalNs wall fun c m hc => absurd hc (hx c m)
  rw [hs, final_ok] at hq hl hb
  refine ⟨⟨h.matched.quiet hq hb, by rw [hq.images]; exact h.empty, fun c s hc => ?_⟩, hq.arrived⟩
  rw [hl] at hc
  rw [hq.arrived]
  exact h.clock c s hc

/-- Messages are counted. -/
theorem Delivering.inc {e : Engine} (h : Delivering cfg e) (k : Stat) : Delivering cfg (e.inc k) :=
  ⟨⟨h.matched.buffers.same rfl (fun _ => rfl) (fun _ => rfl) rfl,
    fun hsp => h.matched.progress ⟨hsp.kept, hsp.spaced⟩, h.matched.limited⟩, h.empty, h.clock⟩

/-- A new image is received. -/
theorem Delivering.image {e e' : Engine} (hslop : 0 ≤ cfg.slopNs) (h : Matched cfg e) {c : Cam} {m : Image} {wall : ℚ}
    (hclock : ∀ c', c' ≠ c → ∀ s, e.last (.image c') = some s → ∃ m ∈ e.arrived c', m.stamp = s)
    (hlast : e.last (.image c) = some m.stamp) (hnew : ∀ x ∈ e.arrived c, x.stamp < m.stamp)
    (hs : (e.bufferImage cfg c m).pair cfg wall = .ok e') :
    Delivering cfg e' ∧ ∀ c', e'.arrived c' = e.arrived c' ++ if c' = c then [m] else [] := by
  obtain ⟨hm', he⟩ := (h.bufferImage hslop hnew hlast).pair hs
  have harr : ∀ c', e'.arrived c' = e.arrived c' ++ if c' = c then [m] else [] := by
    intro c'
    have hp := pair_arrived cfg wall (e.bufferImage cfg c m) c'
    rw [hs, final_ok, bufferImage_arrived] at hp
    rw [hp]
    by_cases hcc : c' = c
    · subst hcc
      simp
    · simp [hcc]
  refine ⟨⟨hm', he, fun c' s hc => ?_⟩, harr⟩
  have hlast' := (bufferImage_imaging cfg c m e).trans (pair_imaging cfg wall (e.bufferImage cfg c m))
  rw [hs, final_ok] at hlast'
  rw [hlast'.last] at hc
  rw [harr]
  by_cases hcc : c' = c
  · subst hcc
    rw [hlast, Option.some.injEq] at hc
    exact ⟨m, by simp, hc⟩
  · obtain ⟨x, hx, hxs⟩ := hclock c' hcc s hc
    exact ⟨x, List.mem_append_left _ hx, hxs⟩

/-- An input is noted and received. -/
theorem Delivering.noted {e e₀ e₁ : Engine} (hslop : 0 ≤ cfg.slopNs) (h : Delivering cfg e) {x : Input} {arrivalNs : ℤ}
    {wall : ℚ} (hn : Noted e x e₀) (hs : e₀.receive D cfg x arrivalNs wall = .ok e₁) :
    Delivering cfg e₁ ∧ ∀ c, e₁.arrived c = e.arrived c ++ delivered c [.ingest x arrivalNs wall] := by
  obtain ⟨hbuf, hnew⟩ := h.matched.buffers.noted hn
  obtain ⟨hother, -⟩ := hn.last
  have harr : ∀ c, e₀.arrived c = e.arrived c := by
    obtain ⟨st, l, ls, rfl, -⟩ := hn.eq
    exact fun c => rfl
  have hm : Matched cfg e₀ := by
    obtain ⟨st, l, ls, rfl, -⟩ := hn.eq
    exact ⟨hbuf, fun hsp => h.matched.progress ⟨hsp.kept, hsp.spaced⟩, h.matched.limited⟩
  have hclock : ∀ c, Topic.image c ≠ x.topic → ∀ s, e₀.last (.image c) = some s → ∃ m ∈ e₀.arrived c, m.stamp = s := by
    intro c hc s hs
    rw [hother (.image c) (Or.inr hc)] at hs
    rw [harr]
    exact h.clock c s hs
  by_cases hx : ∃ c m, x = .image c m
  · obtain ⟨c, m, rfl⟩ := hx
    obtain ⟨hlast, hnew⟩ := hnew c m rfl
    obtain ⟨hd, ha⟩ := Delivering.image hslop hm (fun c' hc => hclock c' (by simpa [Input.topic] using hc)) hlast hnew hs
    refine ⟨hd, fun c' => ?_⟩
    rw [ha, harr]
    by_cases hcc : c' = c
    · subst hcc
      rw [if_pos rfl, delivered_image]
    · rw [if_neg hcc, delivered_of_ne (fun m' hm' => hcc (Input.image.inj hm').1.symm), List.append_nil]
  · push Not at hx
    have htopic : ∀ c, Topic.image c ≠ x.topic := by
      intro c
      cases x with
      | image c' m => exact absurd rfl (hx c' m)
      | _ => exact Topic.noConfusion
    have hempty : e₀.images .rgb = [] ∨ e₀.images .depth = [] := by
      obtain ⟨st, l, ls, rfl, -⟩ := hn.eq
      exact h.empty
    obtain ⟨hd, ha⟩ := Delivering.receive ⟨hm, hempty, fun c => hclock c (htopic c)⟩ hx hs
    refine ⟨hd, fun c => ?_⟩
    rw [ha, harr, delivered_of_ne (hx c), List.append_nil]

/-- The images of a run that raises nothing arrive in the order delivered; one is missing only if it had the stamp of one
that arrived before. -/
theorem Delivering.run (hslop : 0 ≤ cfg.slopNs) {cs : List Call} {e : Engine} (hr : runCalls D cfg cs = .ok e) :
    Delivering cfg e ∧
      ∀ c, ((delivered c cs).Pairwise fun x y => x.stamp < y.stamp) → e.arrived c = delivered c cs := by
  refine runCalls_rule (P := fun cs e => Delivering cfg e ∧
    ∀ c, ((delivered c cs).Pairwise fun x y => x.stamp < y.stamp) → e.arrived c = delivered c cs) ?_ ?_ ?_ ?_ ?_ hr
  · exact ⟨.init cfg, fun c _ => rfl⟩
  · rintro cs wall final e e' ⟨h, ha⟩ hs
    obtain ⟨hd, harr⟩ := h.drain hs
    exact ⟨hd, fun c hc => (harr c).trans (ha c hc)⟩
  · rintro cs wall final e ⟨h, ha⟩
    refine ⟨h, fun c hc => ?_⟩
    have hdel : delivered c (cs ++ [.drain wall final]) = delivered c cs := by
      rw [delivered_append]
      exact List.append_nil _
    rw [hdel] at hc ⊢
    exact ha c hc
  · rintro cs x arrivalNs wall e hd ⟨h, ha⟩ hsrc hlast
    refine ⟨(h.inc _).inc _, fun c hc => ?_⟩
    rw [delivered_append] at hc
    have hold := ha c (List.pairwise_append.1 hc).1
    have hdel : delivered c [.ingest x arrivalNs wall] = [] := by
      by_cases hx : ∃ m, x = .image c m
      · -- a duplicate is not newer than all images before it
        obtain ⟨m, rfl⟩ := hx
        obtain rfl : m.header = hd := by simpa [Input.sourceHeader] using hsrc
        obtain ⟨y, hy, hys⟩ := h.clock c m.stamp hlast
        rw [hold] at hy
        have := (List.pairwise_append.1 hc).2.2 y hy m (by rw [delivered_image]; exact List.mem_cons_self)
        omega
      · exact delivered_of_ne (fun m hm => hx ⟨m, hm⟩) _ _
    rw [delivered_append, hdel, List.append_nil]
    exact hold
  · rintro cs x arrivalNs wall e e₀ e₁ ⟨h, ha⟩ hn hs
    obtain ⟨hd, harr⟩ := h.noted hslop hn hs
    refine ⟨hd, fun c hc => ?_⟩
    rw [delivered_append] at hc ⊢
    rw [harr, ha c (List.pairwise_append.1 hc).1]

/-- Consecutive images of the delivered streams are more than twice the slop apart. -/
def SparseStreams (cfg : Config) (cs : List Call) : Prop :=
  ∀ c, (delivered c cs).IsChain fun x y => x.stamp + 2 * cfg.slopNs < y.stamp

theorem SparseStreams.spaced {cs : List Call} (h : SparseStreams cfg cs) (hslop : 0 ≤ cfg.slopNs) (c : Cam) :
    Spaced Image.stamp (2 * cfg.slopNs) (delivered c cs) := by
  have htrans : Trans (fun x y : Image => x.stamp + 2 * cfg.slopNs < y.stamp)
      (fun x y : Image => x.stamp + 2 * cfg.slopNs < y.stamp)
      (fun x y : Image => x.stamp + 2 * cfg.slopNs < y.stamp) := ⟨fun {a b c} hab hbc => by omega⟩
  exact List.isChain_iff_pairwise.1 (h c)

/-- The pairs formed, and the frames let through by the rate limit, from sparse streams. -/
theorem pairs_of_sparse {cs : List Call} {e : Engine} (hslop : 0 ≤ cfg.slopNs) (hr : runCalls D cfg cs = .ok e)
    (hkept : e.overflowed = []) (hsp : SparseStreams cfg cs) :
    e.pairs = pairsWithin Image.stamp Image.stamp cfg.slopNs (delivered .rgb cs) (delivered .depth cs) ∧
      e.selected = (e.pairs.foldl (rateLimit (periodNs cfg)) (none, [])).2 := by
  have hspaced := hsp.spaced hslop
  obtain ⟨hd, ha⟩ := Delivering.run hslop hr
  have harr : ∀ c, e.arrived c = delivered c cs := fun c => ha c <| (hspaced c).imp fun {x y} hxy => by
    simp only [Image.stamp] at *
    omega
  have hpr := hd.matched.progress ⟨hkept, fun c => by rw [harr]; exact hspaced c⟩
  unfold Progressing at hpr
  rw [harr, harr] at hpr
  exact ⟨hpr.eq (hspaced .rgb) (hspaced .depth) hslop hd.empty, congrArg Prod.snd hd.matched.limited⟩

end Engine

/-- **Pairing is one-to-one, within the slop, and independent of the interleaving.** After any calls, whatever they
raised, each image is in at most one pair and the stamps of a pair differ by at most the slop. When the consecutive
images of each stream are more than twice the slop apart and no full buffer lost an image, the pairs formed once
everything is delivered are all the pairs within the slop, by increasing RGB stamp; so two runs that deliver the same
two streams, in any interleaving, form the same pairs and accept the same frames. -/
theorem images_paired {cfg : Config} (hcfg : cfg.validate = .ok ()) :
    (∀ D cs, (∀ p ∈ (runAllCalls D cfg cs).pairs, p.1 ∈ (runAllCalls D cfg cs).arrived .rgb ∧
          p.2 ∈ (runAllCalls D cfg cs).arrived .depth ∧ |p.2.stamp - p.1.stamp| ≤ cfg.slopNs) ∧
        ((runAllCalls D cfg cs).pairs.Pairwise fun p q => p.1.stamp < q.1.stamp) ∧
        (runAllCalls D cfg cs).pairs.Pairwise fun p q => p.2.stamp ≠ q.2.stamp) ∧
    (∀ D cs e, runCalls D cfg cs = .ok e → e.overflowed = [] → Engine.SparseStreams cfg cs →
      e.pairs = pairsWithin Image.stamp Image.stamp cfg.slopNs (Engine.delivered .rgb cs) (Engine.delivered .depth cs) ∧
        e.pairs.Pairwise fun p q => p.1.stamp < q.1.stamp) ∧
    ∀ D cs e D' cs' e', runCalls D cfg cs = .ok e → runCalls D' cfg cs' = .ok e' → e.overflowed = [] →
      e'.overflowed = [] → Engine.SparseStreams cfg cs →
      (∀ c, Engine.delivered c cs' = Engine.delivered c cs) → e'.pairs = e.pairs ∧ e'.selected = e.selected := by
  have hslop := (Config.validate_ok.1 hcfg).slop_ok.2
  refine ⟨fun D cs => ?_, fun D cs e hr hk hsp => ?_, fun D cs e D' cs' e' hr hr' hk hk' hsp hdel => ?_⟩
  · have h := Engine.PairBuffers.run D cfg cs
    exact ⟨h.sound, h.ordered, h.distinct⟩
  · have hord := (Engine.PairBuffers.run D cfg cs).ordered
    rw [runAllCalls, runAll_of_run hr] at hord
    exact ⟨(Engine.pairs_of_sparse hslop hr hk hsp).1, hord⟩
  · have hsp' : Engine.SparseStreams cfg cs' := fun c => by rw [hdel]; exact hsp c
    obtain ⟨hp, hs⟩ := Engine.pairs_of_sparse hslop hr hk hsp
    obtain ⟨hp', hs'⟩ := Engine.pairs_of_sparse hslop hr' hk' hsp'
    have heq : e'.pairs = e.pairs := by rw [hp, hp', hdel, hdel]
    exact ⟨heq, by rw [hs, hs', heq]⟩

/-- Two images of each stream, RGB first. -/
def Still.rgbFirst : List Call :=
  [.ingest (.image .rgb (rgb 1 100000000)) 1 0, .ingest (.image .rgb (rgb 2 200000000)) 2 0,
    .ingest (.image .depth (depth 1 105000000)) 3 0, .ingest (.image .depth (depth 2 203000000)) 4 0]

/-- The same images, depth first. -/
def Still.depthFirst : List Call :=
  [.ingest (.image .depth (depth 1 105000000)) 1 0, .ingest (.image .depth (depth 2 203000000)) 2 0,
    .ingest (.image .rgb (rgb 1 100000000)) 3 0, .ingest (.image .rgb (rgb 2 200000000)) 4 0]

/-- Two interleavings of two streams of two images. -/
theorem images_paired_interleavings :
    ∃ e e', runCalls Still.deps {} Still.rgbFirst = .ok e ∧ runCalls Still.deps {} Still.depthFirst = .ok e' ∧
      e.pairs.length = 2 ∧
      e.pairs = pairsWithin Image.stamp Image.stamp (Config.slopNs {}) (Engine.delivered .rgb Still.rgbFirst)
        (Engine.delivered .depth Still.rgbFirst) ∧
      e'.pairs = e.pairs ∧ e'.selected = e.selected := by
  obtain ⟨-, hall, hsame⟩ := images_paired Config.default_valid
  have hok : ∀ cs, (runCalls Still.deps {} cs).toOption.map (fun e => (e.overflowed, e.pairs.length)) = some ([], 2) →
      ∃ e, runCalls Still.deps {} cs = .ok e ∧ e.overflowed = [] ∧ e.pairs.length = 2 := by
    intro cs h
    obtain ⟨e, hr, he⟩ := ok_of_toOption h
    exact ⟨e, hr, Prod.mk.inj he⟩
  obtain ⟨e, hr, hk, hl⟩ := hok Still.rgbFirst (by decide +kernel)
  obtain ⟨e', hr', hk', -⟩ := hok Still.depthFirst (by decide +kernel)
  have hsp : Engine.SparseStreams {} Still.rgbFirst := by
    intro c
    cases c <;> decide +kernel
  obtain ⟨hp, hs⟩ := hsame _ _ e _ _ e' hr hr' hk hk' hsp (by intro c; cases c <;> decide +kernel)
  exact ⟨e, e', hr, hr', hl, (hall _ _ e hr hk hsp).1, hp, hs⟩

end Agilex.Capture
