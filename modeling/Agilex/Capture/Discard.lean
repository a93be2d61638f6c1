import Agilex.Capture.Accounting
import Agilex.Capture.RateLimit

/-!
# No premature discard

An image that `_pair` gives up has no counterpart within the slop, neither among the images of the other stream that wait
nor among those that arrive later (`no_premature_discard`). The reason is in `Discards`: the other stream has by then
shown an image too far ahead, and its stamps increase.
-/

namespace Agilex.Capture

open Agilex.Lib Binary64 Outcome

def Cam.other : Cam → Cam
  | .rgb => .depth
  | .depth => .rgb

/-- The image of a stream that leaves its buffer, in a pair or alone. -/
def Event.leaving (c : Cam) : Event → Option Image
  | .paired rgb dep => some (c.side (rgb, dep))
  | .evicted c' m | .unpaired c' m => if c' = c then some m else none
  | _ => none

namespace Engine

variable {D : Deps} {cfg : Config}

/-- What is known of the images that arrived and of those given up. -/
structure Discards (cfg : Config) (e : Engine) : Prop where
  present : ∀ c, ∀ m ∈ e.arrived c, m ∈ e.images c ∨ m ∈ e.trace.filterMap (Event.leaving c)
  far : ∀ c m evs₁ evs₂, e.trace = evs₁ ++ .unpaired c m :: evs₂ → ∀ m' ∈ e.arrived c.other,
    m' ∈ evs₁.filterMap (Event.leaving c.other) ∨ cfg.slopNs < |m'.stamp - m.stamp|
  beyond : ∀ c m, .unpaired c m ∈ e.trace → ∃ x ∈ e.arrived c.other, m.stamp + cfg.slopNs < x.stamp

theorem Discards.init (cfg : Config) : Discards cfg .init := by
  constructor <;> simp [Engine.init, history]

/-- A split of a longer list at an element the end does not have is one of the list. -/
theorem split_append {α : Type} {l evs l₁ l₂ : List α} {x : α} (h : l ++ evs = l₁ ++ x :: l₂) (hx : x ∉ evs) :
    ∃ l₂', l = l₁ ++ x :: l₂' := by
  rcases List.append_eq_append_iff.1 h with ⟨r, hr, hevs⟩ | ⟨r, hr, hl₂⟩
  · exact absurd (hevs ▸ by simp) hx
  · cases r with
    | nil =>
      rw [List.nil_append] at hl₂
      exact absurd (hl₂ ▸ by simp) hx
    | cons y r =>
      obtain ⟨rfl, -⟩ := List.cons.inj hl₂
      exact ⟨r, hr⟩

/-- Nothing arrives and nothing is given up; images may leave. -/
theorem Discards.mono {e e' : Engine} (h : Discards cfg e) (evs : List Event) (ht : e'.trace = e.trace ++ evs)
    (hno : ∀ c m, .unpaired c m ∉ evs) (harr : ∀ c, e'.arrived c = e.arrived c)
    (himg : ∀ c, ∀ m ∈ e.images c, m ∈ e'.images c ∨ m ∈ evs.filterMap (Event.leaving c)) : Discards cfg e' := by
  refine ⟨fun c m hm => ?_, fun c m evs₁ evs₂ hs m' hm' => ?_, fun c m hm => ?_⟩
  · rw [harr] at hm
    rw [ht, List.filterMap_append, List.mem_append]
    rcases h.present c m hm with hi | hl
    · exact (himg c m hi).imp_right Or.inr
    · exact Or.inr (Or.inl hl)
  · rw [harr] at hm'
    rw [ht] at hs
    obtain ⟨evs₂', hs⟩ := split_append hs (hno c m)
    exact h.far c m evs₁ evs₂' hs m' hm'
  · rw [ht] at hm
    rw [harr]
    exact h.beyond c m ((List.mem_append.1 hm).resolve_right (hno c m))

/-- **A new image is beyond every image given up.** -/
theorem Discards.join {e : Engine} (h : Discards cfg e) {c : Cam} {m : Image}
    (hnew : ∀ y ∈ e.arrived c, y.stamp < m.stamp) : Discards cfg (e.join c m) := by
  have ht : (e.join c m).trace = e.trace ++ [.buffered c m] := rfl
  have himg : ∀ c', (e.join c m).images c' = if c' = c then e.images c ++ [m] else e.images c' := fun c' => rfl
  have hmem : ∀ c', ∀ x ∈ (e.join c m).arrived c', x ∈ e.arrived c' ∨ c' = c ∧ x = m := by
    intro c' x hx
    rw [join_arrived] at hx
    by_cases hc : c' = c
    · rw [if_pos hc] at hx
      subst hc
      simpa using hx
    · rw [if_neg hc] at hx
      exact Or.inl hx
  have hold : ∀ c', ∀ x ∈ e.arrived c', x ∈ (e.join c m).arrived c' := by
    intro c' x hx
    rw [join_arrived]
    by_cases hc : c' = c
    · subst hc
      rw [if_pos rfl]
      exact List.mem_append_left _ hx
    · rw [if_neg hc]
      exact hx
  refine ⟨fun c' x hx => ?_, fun c' x evs₁ evs₂ hs m' hm' => ?_, fun c' x hx => ?_⟩
  · rw [ht, List.filterMap_append, himg]
    rcases hmem c' x hx with hx | ⟨rfl, rfl⟩
    · rcases h.present c' x hx with hi | hl
      · refine Or.inl ?_
        split
        · rename_i hc
          exact List.mem_append_left _ (hc ▸ hi)
        · exact hi
      · exact Or.inr (List.mem_append_left _ hl)
    · exact Or.inl (by simp)
  · rw [ht] at hs
    obtain ⟨evs₂', hsplit⟩ := split_append hs (by simp)
    rcases hmem c'.other m' hm' with hm' | ⟨hc, rfl⟩
    · exact h.far c' x evs₁ evs₂' hsplit m' hm'
    · -- the newer image comes after the one that was too far ahead
      obtain ⟨y, hy, hlt⟩ := h.beyond c' x (by rw [hsplit]; simp)
      have := hnew y (hc ▸ hy)
      exact Or.inr (lt_of_lt_of_le (by omega) (le_abs_self (m'.stamp - x.stamp)))
  · rw [ht] at hx
    obtain ⟨y, hy, hlt⟩ := h.beyond c' x ((List.mem_append.1 hx).resolve_right (by simp))
    exact ⟨y, hold _ y hy, hlt⟩

/-- **An image is given up**: all images of the other stream that wait are far from it, and one is beyond it. -/
theorem Discards.giveUp {e : Engine} (h : Discards cfg e) {c : Cam} {m : Image} {rest : List Image}
    (hm : e.images c = m :: rest) (hfar : ∀ m' ∈ e.images c.other, cfg.slopNs < |m'.stamp - m.stamp|)
    (hbeyond : ∃ x ∈ e.arrived c.other, m.stamp + cfg.slopNs < x.stamp) : Discards cfg (e.giveUp c m rest) := by
  have ht : (e.giveUp c m rest).trace = e.trace ++ [.unpaired c m] := rfl
  have harr : ∀ c', (e.giveUp c m rest).arrived c' = e.arrived c' := fun c' => giveUp_arrived e c c' m rest
  have himg : ∀ c', (e.giveUp c m rest).images c' = if c' = c then rest else e.images c' := fun c' => rfl
  refine ⟨fun c' x hx => ?_, fun c' x evs₁ evs₂ hs m' hm' => ?_, fun c' x hx => ?_⟩
  · rw [harr] at hx
    rw [ht, List.filterMap_append, himg]
    rcases h.present c' x hx with hi | hl
    · by_cases hc : c' = c
      · subst hc
        rw [hm] at hi
        rcases List.mem_cons.1 hi with rfl | hi
        · exact Or.inr (List.mem_append_right _ (by simp [Event.leaving]))
        · exact Or.inl (by simpa using hi)
      · exact Or.inl (by simpa [hc] using hi)
    · exact Or.inr (List.mem_append_left _ hl)
  · rw [harr] at hm'
    rw [ht] at hs
    rcases List.eq_nil_or_concat evs₂ with rfl | ⟨evs, ev, rfl⟩
    · obtain ⟨rfl, hev⟩ := List.append_inj' hs rfl
      obtain ⟨rfl, rfl⟩ : c = c' ∧ m = x := by simpa using hev
      exact (h.present c.other m' hm').symm.imp_right (hfar m')
    · rw [List.concat_eq_append, ← List.cons_append, ← List.append_assoc] at hs
      obtain ⟨hs, -⟩ := List.append_inj' hs rfl
      exact h.far c' x evs₁ evs hs m' hm'
  · rw [harr]
    rw [ht] at hx
    rcases List.mem_append.1 hx with hx | hx
    · exact h.beyond c' x hx
    · obtain ⟨rfl, rfl⟩ : c' = c ∧ x = m := by simpa using hx
      exact hbeyond

theorem Discards.pairStep {e : Engine} (hb : PairBuffers cfg e) (h : Discards cfg e) (wall : ℚ)
    {rgb : Image} {a : List Image} {b₀ : Image} {b : List Image} (ha : e.images .rgb = rgb :: a)
    (hd : e.images .depth = b₀ :: b) :
    Discards cfg (Outcome.final (Engine.pairStep cfg cfg.slopNs wall rgb a b₀ b e)) := by
  have hrgb := hb.sorted .rgb
  rw [ha] at hrgb
  have hfirst := (List.pairwise_cons.1 hrgb).1
  have hrgbArr : rgb ∈ e.arrived .rgb := (hb.buffered .rgb).subset (by simp [ha])
  have hdepArr : b₀ ∈ e.arrived .depth := (hb.buffered .depth).subset (by simp [hd])
  rcases pairStep_cases cfg cfg.slopNs wall rgb a b₀ b e with
    ⟨b₁, dep, b₂, hl, -, hs⟩ | ⟨-, hlt, hs⟩ | ⟨hfar, hle, hs⟩ <;> rw [hs]
  · have htake : Discards cfg (e.takePair rgb dep a (b₁ ++ b₂)) := by
      refine h.mono [.paired rgb dep] rfl (by simp) (fun c => by simp [takePair, Event.arrival]) fun c m hm => ?_
      cases c with
      | rgb =>
        rw [ha] at hm
        rcases List.mem_cons.1 hm with rfl | hm
        · exact Or.inr (by simp [Event.leaving, Cam.side])
        · exact Or.inl hm
      | depth =>
        rw [hd, hl] at hm
        have himg : (e.takePair rgb dep a (b₁ ++ b₂)).images .depth = b₁ ++ b₂ := rfl
        rw [himg]
        rcases List.mem_append.1 hm with hm | hm
        · exact Or.inl (List.mem_append_left _ hm)
        · rcases List.mem_cons.1 hm with rfl | hm
          · exact Or.inr (by simp [Event.leaving, Cam.side])
          · exact Or.inl (List.mem_append_right _ hm)
    rcases select_cases cfg wall rgb dep (e.takePair rgb dep a (b₁ ++ b₂)) with
      ⟨due, -, -, hs⟩ | ⟨period, -, -, hs⟩ | ⟨err, x, hs⟩ <;> rw [hs]
    · exact htake.mono [.rateFiltered rgb dep] rfl (by simp) (fun c => by simp [Event.arrival]) fun c m hm => Or.inl hm
    · exact htake.mono [.queued rgb dep] rfl (by simp) (fun c => by simp [Event.arrival]) fun c m hm => Or.inl hm
    · exact htake.mono [] (List.append_nil _).symm (by simp) (fun c => rfl) fun c m hm => Or.inl hm
  · -- the oldest depth image is far from all RGB images, which are not before the oldest one
    refine h.giveUp hd (fun m' hm' => ?_) ⟨rgb, hrgbArr, by simp only [Image.stamp]; omega⟩
    rw [Cam.other, ha] at hm'
    have hge : rgb.stamp ≤ m'.stamp := by
      rcases List.mem_cons.1 hm' with rfl | hm'
      · exact le_rfl
      · exact (hfirst m' hm').le
    refine lt_of_lt_of_le ?_ (le_abs_self (m'.stamp - b₀.stamp))
    simp only [Image.stamp] at *
    omega
  · refine h.giveUp ha (fun m' hm' => ?_) ⟨b₀, hdepArr, ?_⟩
    · rw [Cam.other, hd] at hm'
      exact hfar m' hm'
    · have hf := hfar b₀ (by simp)
      rcases lt_abs.1 hf with hf | hf
      · simp only [Image.stamp]
        omega
      · omega

theorem Discards.run (D : Deps) (cfg : Config) (cs : List Call) : Discards cfg (runAllCalls D cfg cs) := by
  refine runAllCalls_rule (P := Discards cfg) (.init cfg) (fun e e' h hp => ?_) (fun c m e _ hnew h => ?_)
    (fun wall rgb a b₀ b e hb h ha hd => h.pairStep hb wall ha hd) (fun p rest r text e h _ => ?_)
    (fun wall p rest g e e' h _ _ => ?_) cs
  · obtain ⟨evs, ht, hev⟩ := hp.trace
    refine h.mono evs ht (fun c m hm => ?_) (fun c => hp.history fun ev he => ?_)
      fun c m hm => Or.inl (by rw [hp.images]; exact hm)
    · cases hev _ hm
    · cases ev <;> first | rfl | cases he
  · have hj := h.join hnew
    rcases bufferImage_cases cfg c m e with hc | ⟨old, rest, ho, hc⟩ <;> rw [hc]
    · exact hj
    · refine hj.mono [.evicted c old] rfl (by simp) (fun c => by simp [Event.arrival]) fun c' x hx => ?_
      by_cases hcc : c' = c
      · subst hcc
        rw [ho] at hx
        rcases List.mem_cons.1 hx with rfl | hx
        · exact Or.inr (by simp [Event.leaving])
        · exact Or.inl (by simpa using hx)
      · exact Or.inl (by simpa [hcc] using hx)
  · exact h.mono [.dropped r p.rgb p.dep] rfl (by simp)
      (fun c => history_skip [.dropped r p.rgb p.dep] rfl (by simp [Event.arrival]))
      fun c m hm => Or.inl hm
  · refine h.mono _ emit_trace (by simp) (fun c => emit_skip rfl fun _ => rfl) fun c m hm => Or.inl ?_
    rw [emit_eq]
    exact hm

/-! ## The capacity of the buffers -/

theorem bufferImage_length (hcfg : cfg.Valid) (c : Cam) (m : Image) (e : Engine)
    (h : ∀ c, ((e.images c).length : ℤ) ≤ cfg.imageBuffer) :
    ∀ c', (((e.bufferImage cfg c m).images c').length : ℤ) ≤ cfg.imageBuffer := by
  have htwo := hcfg.buffer_two
  intro c'
  unfold bufferImage
  simp only
  split
  · rename_i old rest himg
    split
    · by_cases hc : c' = c
      · subst hc
        have hlen := congrArg List.length himg
        have := h c'
        simp at hlen ⊢
        omega
      · simpa [hc] using h c'
    · rename_i hle
      by_cases hc : c' = c
      · subst hc
        rw [himg]
        omega
      · simpa [hc] using h c'
  · rename_i himg
    by_cases hc : c' = c
    · subst hc
      rw [himg]
      simp only [List.length_nil]
      omega
    · simpa [hc] using h c'

/-- Turns of `_pair` make no buffer longer. -/
theorem pairStep_length (cfg : Config) (wall : ℚ) {e : Engine} {rgb : Image} {a : List Image} {b₀ : Image} {b : List Image}
    (ha : e.images .rgb = rgb :: a) (hd : e.images .depth = b₀ :: b) (c : Cam) :
    ((Outcome.final (Engine.pairStep cfg cfg.slopNs wall rgb a b₀ b e)).images c).length ≤ (e.images c).length := by
  rcases pairStep_cases cfg cfg.slopNs wall rgb a b₀ b e with ⟨b₁, dep, b₂, hl, -, hs⟩ | ⟨-, -, hs⟩ | ⟨-, -, hs⟩ <;> rw [hs]
  · have htake : ((e.takePair rgb dep a (b₁ ++ b₂)).images c).length ≤ (e.images c).length := by
      cases c with
      | rgb => rw [ha]; exact Nat.le_succ _
      | depth =>
        have himg : (e.takePair rgb dep a (b₁ ++ b₂)).images .depth = b₁ ++ b₂ := rfl
        rw [hd, hl, himg]
        simp
    rcases select_cases cfg wall rgb dep (e.takePair rgb dep a (b₁ ++ b₂)) with
      ⟨due, -, -, hs⟩ | ⟨period, -, -, hs⟩ | ⟨err, x, hs⟩ <;> rw [hs]
    all_goals exact htake
  · cases c with
    | rgb => exact le_rfl
    | depth => rw [hd]; exact Nat.le_succ _
  · cases c with
    | rgb => rw [ha]; exact Nat.le_succ _
    | depth => exact le_rfl

theorem capacity_run (hcfg : cfg.Valid) (cs : List Call) :
    ∀ c, (((runAllCalls D cfg cs).images c).length : ℤ) ≤ cfg.imageBuffer := by
  have htwo := hcfg.buffer_two
  refine runAllCalls_rule (P := fun e => ∀ c, ((e.images c).length : ℤ) ≤ cfg.imageBuffer) (fun c => ?_)
    (fun e e' h hp c => ?_) (fun c m e _ _ h => bufferImage_length hcfg c m e h) (fun wall rgb a b₀ b e _ h ha hd c => ?_)
    (fun p rest r text e h _ => h) (fun wall p rest g e e' h _ _ => ?_) cs
  · simp only [Engine.init, List.length_nil]
    omega
  · rw [hp.images]
    exact h c
  · have := pairStep_length cfg wall ha hd c
    have := h c
    omega
  · rw [emit_eq]
    exact h

/-! ## One buffer is empty -/

theorem pairLoop_raises_nothing {P : ℤ} (hP : pyInt (div (10 ^ 9) cfg.rate) = .ok P) (h0 : P ≠ 0) (slop : ℤ) (wall : ℚ)
    (n : ℕ) (e : Engine) : ∃ e', pairLoop cfg slop wall n e = .ok e' := by
  induction n generalizing e with
  | zero => exact ⟨e, rfl⟩
  | succ n ih =>
    unfold pairLoop
    split
    · rename_i rgb a b₀ b ha hb
      have hstep : ∃ e', Engine.pairStep cfg slop wall rgb a b₀ b e = .ok e' := by
        rcases pairStep_cases cfg slop wall rgb a b₀ b e with ⟨b₁, dep, b₂, -, -, hs⟩ | ⟨-, -, hs⟩ | ⟨-, -, hs⟩
        · rw [hs]
          cases hsel : select cfg wall rgb dep (e.takePair rgb dep a (b₁ ++ b₂)) with
          | error err => exact absurd hsel (select_raises_nothing hP h0 wall rgb dep _)
          | ok e' => exact ⟨e', rfl⟩
        · exact ⟨_, hs⟩
        · exact ⟨_, hs⟩
      obtain ⟨e', he'⟩ := hstep
      rw [he']
      exact ih e'
    · exact ⟨e, rfl⟩

/-- With a period, one of the buffers is empty after every call, whatever it raises. -/
theorem oneEmpty_run (hcfg : cfg.Valid) {P : ℤ} (hP : pyInt (div (10 ^ 9) cfg.rate) = .ok P) (cs : List Call) :
    (runAllCalls D cfg cs).images .rgb = [] ∨ (runAllCalls D cfg cs).images .depth = [] := by
  have hdrain : ∀ wall final (e : Engine), e.images .rgb = [] ∨ e.images .depth = [] →
      (Outcome.final (Engine.drain D cfg wall final e)).images .rgb = [] ∨
        (Outcome.final (Engine.drain D cfg wall final e)).images .depth = [] := by
    intro wall final e h
    rw [(drain_draining D cfg wall final e).images]
    exact h
  have hreceive : ∀ x arrivalNs wall (e : Engine), e.images .rgb = [] ∨ e.images .depth = [] →
      (Outcome.final (e.receive D cfg x arrivalNs wall)).images .rgb = [] ∨
        (Outcome.final (e.receive D cfg x arrivalNs wall)).images .depth = [] := by
    intro x arrivalNs wall e h
    by_cases hi : ∃ c m, x = .image c m
    · obtain ⟨c, m, rfl⟩ := hi
      obtain ⟨e', he'⟩ := pairLoop_raises_nothing hP (period_pos hcfg hP).ne' cfg.slopNs wall
        (((e.bufferImage cfg c m).images .rgb).length + ((e.bufferImage cfg c m).images .depth).length)
        (e.bufferImage cfg c m)
      have hr : e.receive D cfg (.image c m) arrivalNs wall = .ok e' := by
        simp only [receive, Engine.pair, hcfg.slop_ok.1]
        exact he'
      rw [hr, final_ok]
      exact pairLoop_done _ le_rfl he'
    · rw [(receive_quiet D cfg arrivalNs wall fun c m hm => hi ⟨c, m, hm⟩).images]
      exact h
  refine runAll_invariant (P := fun e : Engine => e.images .rgb = [] ∨ e.images .depth = []) (fun c e h => ?_) cs (Or.inl rfl)
  refine exec_rule (P := fun e : Engine => e.images .rgb = [] ∨ e.images .depth = []) h (fun _ _ _ h => h) hdrain
    (fun x arrivalNs wall e₀ hn => hreceive x arrivalNs wall e₀ ?_) c
  rw [hn.toPlain.images]
  exact h

end Engine

/-- **No premature discard.** For a valid configuration and after any calls, whatever they raised: both image buffers are
strictly increasing in stamp and within the capacity, and when `_pair` gave up an image, every image of the other stream, also one
that arrived later, either had left its buffer by then or is more than the slop away. After each call one of the buffers is
empty, also after calls that raise something, as long as `_pair` itself finds its period; and with no condition after
calls that raise nothing. -/
theorem no_premature_discard (cfg : Config) (hcfg : cfg.validate = .ok ()) (D : Deps) (cs : List Call) :
    (∀ c, ((runAllCalls D cfg cs).images c).Pairwise fun x y => x.stamp < y.stamp) ∧
    (∀ c, (((runAllCalls D cfg cs).images c).length : ℤ) ≤ cfg.imageBuffer) ∧
    (∀ c m evs₁ evs₂, (runAllCalls D cfg cs).trace = evs₁ ++ .unpaired c m :: evs₂ →
      ∀ m', .buffered c.other m' ∈ (runAllCalls D cfg cs).trace →
        m' ∈ evs₁.filterMap (Event.leaving c.other) ∨ cfg.slopNs < |m'.stamp - m.stamp|) ∧
    (∀ P, pyInt (div (10 ^ 9) cfg.rate) = .ok P →
      (runAllCalls D cfg cs).images .rgb = [] ∨ (runAllCalls D cfg cs).images .depth = []) ∧
    (∀ e, runCalls D cfg cs = .ok e → e.images .rgb = [] ∨ e.images .depth = []) := by
  have hvalid := Config.validate_ok.1 hcfg
  have hslop := hvalid.slop_ok.2
  refine ⟨(Engine.PairBuffers.run D cfg cs).sorted, Engine.capacity_run hvalid cs, fun c m evs₁ evs₂ hs m' hm' => ?_,
    fun P hP => Engine.oneEmpty_run hvalid hP cs, fun e hr => (Engine.Delivering.run hslop hr).1.empty⟩
  refine (Engine.Discards.run D cfg cs).far c m evs₁ evs₂ hs m' ?_
  exact Engine.mem_arrived.2 hm'

/-- A depth image 50 ms before the first RGB image. -/
def Still.early : List Call :=
  [.ingest (.image .depth (depth 1 50000000)) 1 0, .ingest (.image .rgb (rgb 1 100000000)) 2 0]

/-- The early depth image is given up, and the RGB image is more than the slop away. -/
theorem no_premature_discard_early :
    ∃ m, .unpaired .depth m ∈ (runAllCalls Still.deps {} Still.early).trace ∧
      Config.slopNs {} < |(Still.rgb 1 100000000).stamp - m.stamp| := by
  obtain ⟨-, -, hfar, -⟩ := no_premature_discard {} Config.default_valid Still.deps Still.early
  have hgiven : (Cam.depth, Still.depth 1 50000000) ∈ (runAllCalls Still.deps {} Still.early).trace.filterMap
      fun | .unpaired c m => some (c, m) | _ => none := by decide +kernel
  have hrgb : Still.rgb 1 100000000 ∈ (runAllCalls Still.deps {} Still.early).arrived .rgb := by decide +kernel
  have hnone : (runAllCalls Still.deps {} Still.early).trace.filterMap (Event.leaving .rgb) = [] := by decide +kernel
  have hev : .unpaired .depth (Still.depth 1 50000000) ∈ (runAllCalls Still.deps {} Still.early).trace := by
    obtain ⟨ev, hev, hm⟩ := List.mem_filterMap.1 hgiven
    cases ev with
    | unpaired c m =>
      obtain ⟨rfl, rfl⟩ := Prod.mk.inj (Option.some.inj hm)
      exact hev
    | _ => cases hm
  have hev' := Engine.mem_arrived.1 hrgb
  obtain ⟨evs₁, evs₂, ht⟩ := List.append_of_mem hev
  refine ⟨_, hev, (hfar _ _ _ _ ht _ hev').resolve_left fun hl => ?_⟩
  rw [ht, List.filterMap_append, List.append_eq_nil_iff] at hnone
  simp [Cam.other, hnone.1] at hl

end Agilex.Capture
