import Agilex.Capture.Accounting
import Agilex.Capture.Pairing
import Agilex.Lib.PhaseLimit

/-!
# The rate limit

A pair is queued iff it is the first one of its phase slot (`rate_limited`). `Phases` says what the due time, the queue
and the pairs decided so far have to do with the pairs formed; the slots come from `Agilex.Lib.PhaseLimit`.
-/

namespace Agilex.Capture

open Agilex.Lib Binary64 Outcome

/-- The pair the rate limit refuses. -/
def Event.refusal : Event → Option (Image × Image)
  | .rateFiltered rgb dep => some (rgb, dep)
  | _ => none

/-- The pair that leaves the queue. -/
def Event.departure : Event → Option (Image × Image)
  | .dropped _ rgb dep | .emitted rgb dep _ => some (rgb, dep)
  | _ => none

/-- The events of a pair. -/
def Event.pairing : Event → Bool
  | .paired _ _ | .rateFiltered _ _ | .queued _ _ | .dropped _ _ _ | .emitted _ _ _ => true
  | _ => false

namespace Engine

/-- The pairs refused so far. -/
abbrev refused (e : Engine) : List (Image × Image) := e.history Event.refusal

/-- The pairs that left the queue so far. -/
abbrev departed (e : Engine) : List (Image × Image) := e.history Event.departure

variable {D : Deps} {cfg : Config}

/-! ## The period -/

/-- At most 10 Hz: the period is at least 100 ms. -/
theorem period_pos (hcfg : cfg.Valid) {P : ℤ} (hP : pyInt (div (10 ^ 9) cfg.rate) = .ok P) : 0 < P := by
  have hrate : (10 : ℚ) ^ 8 ≤ 10 ^ 9 / cfg.rate := by
    rw [le_div_iff₀ hcfg.rate_pos]
    nlinarith [hcfg.rate_le]
  have h1 : (1 : ℚ) ≤ div (10 ^ 9) cfg.rate :=
    calc (1 : ℚ) = rnd 1 := rnd_one.symm
      _ ≤ rnd (10 ^ 9 / cfg.rate) := rnd_mono (by linarith)
  have h2 : (1 : ℤ) ≤ ⌊div (10 ^ 9) cfg.rate⌋ := Int.le_floor.2 (by exact_mod_cast h1)
  rw [pyInt_ok hP, trunc, if_neg (by linarith)]
  omega

/-- With a period, the rate limit raises nothing. -/
theorem select_raises_nothing {P : ℤ} (hP : pyInt (div (10 ^ 9) cfg.rate) = .ok P) (h0 : P ≠ 0) (wall : ℚ)
    (rgb dep : Image) (e : Engine) {err : PyErr × Engine} : select cfg wall rgb dep e ≠ .error err := by
  unfold select
  simp only
  split
  · simp
  · simp only [hP, lift, bind, Except.bind, h0, ↓reduceIte]
    simp

/-! ## The pairs formed, let through, and gone -/

/-- Where the rate limit stands: the due time and the queued pairs are those of the limiter, the others are refused and
counted, and the queued pairs leave in order, the emitted ones among them. -/
structure Phases (P : ℤ) (e : Engine) : Prop where
  limited : (e.nextDue, e.selected) = e.pairs.foldl (PhaseLimit.limit (fun p => p.1.stamp) P) (none, [])
  split : e.pairs.Perm (e.selected ++ e.refused)
  counted : e.stats .rateFiltered = e.refused.length
  queue : e.selected = e.departed ++ e.pending.map Pending.images
  emitted : (e.groups.map fun g => g.rgb.stamp).Sublist (e.departed.map fun p => p.1.stamp)

theorem Phases.init (P : ℤ) : Phases P .init := by
  constructor <;> simp [Engine.init, history]

/-- Nothing happens to a pair. -/
theorem Phases.same {P : ℤ} {e e' : Engine} (h : Phases P e) (hn : e'.nextDue = e.nextDue) (hq : e'.pending = e.pending)
    (hs : e'.stats .rateFiltered = e.stats .rateFiltered)
    (ht : ∃ evs, e'.trace = e.trace ++ evs ∧ ∀ ev ∈ evs, ev.pairing = false) : Phases P e' := by
  obtain ⟨evs, ht, hev⟩ := ht
  have hskip : ∀ {α : Type} (f : Event → Option α), (∀ ev : Event, ev.pairing = false → f ev = none) →
      e'.history f = e.history f := fun f hf => history_skip evs ht fun ev hm => hf ev (hev ev hm)
  have hpairs : e'.pairs = e.pairs := hskip _ fun ev he => by cases ev <;> first | rfl | cases he
  have hsel : e'.selected = e.selected := hskip _ fun ev he => by cases ev <;> first | rfl | cases he
  have href : e'.refused = e.refused := hskip _ fun ev he => by cases ev <;> first | rfl | cases he
  have hdep : e'.departed = e.departed := hskip _ fun ev he => by cases ev <;> first | rfl | cases he
  have hgrp : e'.groups = e.groups := hskip _ fun ev he => by cases ev <;> first | rfl | cases he
  refine ⟨?_, ?_, ?_, ?_, ?_⟩
  · rw [hn, hsel, hpairs]; exact h.limited
  · rw [hpairs, hsel, href]; exact h.split
  · rw [hs, href]; exact h.counted
  · rw [hsel, hdep, hq]; exact h.queue
  · rw [hgrp, hdep]; exact h.emitted

/-- **A pair is formed and decided.** -/
theorem Phases.select {P : ℤ} (hP : pyInt (div (10 ^ 9) cfg.rate) = .ok P) (h0 : P ≠ 0) {e : Engine} (h : Phases P e)
    (wall : ℚ) (rgb dep : Image) (a b : List Image) :
    Phases P (Outcome.final (Engine.select cfg wall rgb dep (e.takePair rgb dep a b))) := by
  rcases select_cases cfg wall rgb dep (e.takePair rgb dep a b) with
    ⟨due, hdue, hlt, hs⟩ | ⟨period, hp, hle, hs⟩ | ⟨err, x, hs⟩
  · rw [hs, final_ok]
    have hdue : e.nextDue = some due := hdue
    generalize he' : ((e.takePair rgb dep a b).inc .rateFiltered).log (.rateFiltered rgb dep) = e'
    have hnext : e'.nextDue = e.nextDue := by rw [← he']; rfl
    have hpend : e'.pending = e.pending := by rw [← he']; rfl
    have hstat : e'.stats .rateFiltered = e.stats .rateFiltered + 1 := by rw [← he']; rfl
    have hpairs : e'.pairs = e.pairs ++ [(rgb, dep)] := by simp [← he', takePair, Event.pair]
    have hsel : e'.selected = e.selected := by simp [← he', takePair, Event.selection]
    have href : e'.refused = e.refused ++ [(rgb, dep)] := by simp [← he', takePair, Event.refusal]
    have hdep : e'.departed = e.departed := by simp [← he', takePair, Event.departure]
    have hgrp : e'.groups = e.groups := by simp [← he', takePair, Event.group]
    refine ⟨?_, ?_, ?_, ?_, ?_⟩
    · rw [hnext, hsel, hpairs, List.foldl_append, ← h.limited, List.foldl_cons, List.foldl_nil, PhaseLimit.limit,
        if_pos (by simpa [hdue] using hlt)]
    · rw [hpairs, hsel, href, ← List.append_assoc]
      exact h.split.append_right _
    · rw [hstat, href, h.counted, List.length_append, List.length_singleton]
    · rw [hsel, hdep, hpend]; exact h.queue
    · rw [hgrp, hdep]; exact h.emitted
  · rw [hs, final_ok]
    obtain rfl : P = period := by rw [hP] at hp; cases hp; rfl
    have hle : ∀ due, e.nextDue = some due → due ≤ rgb.header.stamp := hle
    have hdue : (e.takePair rgb dep a b).nextDue = e.nextDue := rfl
    rw [hdue]
    generalize he' : (e.takePair rgb dep a b).enqueue _ ⟨rgb, dep, wall⟩ = e'
    have hnext : e'.nextDue = some (advanceDue (e.nextDue.getD rgb.header.stamp) rgb.header.stamp P) := by rw [← he']; rfl
    have hpend : e'.pending = e.pending ++ [⟨rgb, dep, wall⟩] := by rw [← he']; rfl
    have hstat : e'.stats .rateFiltered = e.stats .rateFiltered := by rw [← he']; rfl
    have hpairs : e'.pairs = e.pairs ++ [(rgb, dep)] := by simp [← he', takePair, Event.pair]
    have hsel : e'.selected = e.selected ++ [(rgb, dep)] := by simp [← he', takePair, Event.selection]
    have href : e'.refused = e.refused := by simp [← he', takePair, Event.refusal]
    have hdep : e'.departed = e.departed := by simp [← he', takePair, Event.departure]
    have hgrp : e'.groups = e.groups := by simp [← he', takePair, Event.group]
    have hno : ¬(e.nextDue.any fun due => decide (rgb.header.stamp < due)) = true := by
      cases hn : e.nextDue with
      | none => simp
      | some due => simpa using hle due hn
    refine ⟨?_, ?_, ?_, ?_, ?_⟩
    · rw [hnext, hsel, hpairs, List.foldl_append, ← h.limited, List.foldl_cons, List.foldl_nil, PhaseLimit.limit, if_neg hno]
      rfl
    · rw [hpairs, hsel, href]
      refine (h.split.append_right _).trans ?_
      rw [List.append_assoc, List.append_assoc]
      exact List.perm_append_comm.append_left _
    · rw [hstat, href, h.counted]
    · rw [hsel, hdep, hpend, h.queue, List.map_append, List.append_assoc]
      rfl
    · rw [hgrp, hdep]; exact h.emitted
  · exact absurd hs (select_raises_nothing hP h0 wall rgb dep _)

theorem Phases.run (hcfg : cfg.Valid) {P : ℤ} (hP : pyInt (div (10 ^ 9) cfg.rate) = .ok P) (cs : List Call) :
    Phases P (runAllCalls D cfg cs) := by
  refine runAllCalls_rule (P := Phases P) (.init P) (fun e e' h hp => ?_) (fun c m e _ _ h => ?_)
    (fun wall rgb a b₀ b e _ h _ _ => ?_) (fun p rest r text e h hp => ?_) (fun wall p rest g e e' h hp hg => ?_) cs
  · obtain ⟨evs, ht, hev⟩ := hp.trace
    refine h.same hp.nextDue hp.pending (hp.stats _ rfl) ⟨evs, ht, fun ev hm => ?_⟩
    have := hev ev hm
    cases ev <;> first | rfl | cases this
  · rcases bufferImage_cases cfg c m e with hc | ⟨old, rest, -, hc⟩ <;> rw [hc]
    · exact h.same rfl rfl rfl ⟨[_], rfl, by simp [Event.pairing]⟩
    · exact h.same rfl rfl rfl ⟨[.buffered c m, .evicted c old], List.append_assoc _ _ _, by simp [Event.pairing]⟩
  · rcases pairStep_cases cfg cfg.slopNs wall rgb a b₀ b e with ⟨b₁, dep, b₂, -, -, hs⟩ | ⟨-, -, hs⟩ | ⟨-, -, hs⟩ <;> rw [hs]
    · exact h.select hP (period_pos hcfg hP).ne' wall rgb dep a (b₁ ++ b₂)
    · exact h.same rfl rfl rfl ⟨[_], rfl, by simp [Event.pairing]⟩
    · exact h.same rfl rfl rfl ⟨[_], rfl, by simp [Event.pairing]⟩
  · generalize he' : drop p rest r text e = e'
    have hskip : ∀ {α : Type} (f : Event → Option α), f (.dropped r p.rgb p.dep) = none → e'.history f = e.history f :=
      fun f hf => history_skip [.dropped r p.rgb p.dep] (by rw [← he']; rfl) (by simpa using hf)
    have hdep : e'.departed = e.departed ++ [p.images] := by rw [← he', drop, departed, history_log]; rfl
    have hpend : e'.pending = rest := by rw [← he']; rfl
    refine ⟨?_, ?_, ?_, ?_, ?_⟩
    · have hnext : e'.nextDue = e.nextDue := by rw [← he']; rfl
      rw [hnext, selected, hskip _ rfl, pairs, hskip _ rfl]; exact h.limited
    · rw [pairs, hskip _ rfl, selected, hskip _ rfl, refused, hskip _ rfl]; exact h.split
    · rw [refused, hskip _ rfl, ← he']; exact h.counted
    · rw [selected, hskip _ rfl, hdep, hpend, List.append_assoc]
      have hq := h.queue
      rw [hp] at hq
      exact hq
    · rw [groups, hskip _ rfl, hdep, List.map_append]
      exact h.emitted.trans (List.sublist_append_left _ _)
  · generalize he' : emit wall p rest g e' = e''
    have hskip : ∀ {α : Type} (f : Event → Option α), f (.emitted p.rgb p.dep g) = none → (∀ r, f (.written r) = none) →
        e''.history f = e'.history f := fun f hf hw => by rw [← he', emit_skip hf hw]
    have hdep : e''.departed = e'.departed ++ [p.images] := by
      rw [← he', departed]
      exact emit_once rfl fun _ => rfl
    have hgrp : e''.groups = e'.groups ++ [g] := by rw [← he', emit_groups]
    have hstamp : g.rgb.stamp = p.rgb.stamp := by
      obtain ⟨_, _, _, _, _, _, _, _, _, _, -, -, rfl⟩ := makeGroup_ok hg
      rfl
    have hpend : e''.pending = rest := by rw [← he', emit_eq]
    have hnext : e''.nextDue = e'.nextDue := by rw [← he', emit_eq]
    have hstat : e''.stats .rateFiltered = e'.stats .rateFiltered := by rw [← he', emit_eq]; rfl
    refine ⟨?_, ?_, ?_, ?_, ?_⟩
    · rw [hnext, selected, hskip _ rfl fun _ => rfl, pairs, hskip _ rfl fun _ => rfl]; exact h.limited
    · rw [pairs, hskip _ rfl fun _ => rfl, selected, hskip _ rfl fun _ => rfl, refused, hskip _ rfl fun _ => rfl]
      exact h.split
    · rw [refused, hskip _ rfl fun _ => rfl, hstat]; exact h.counted
    · rw [selected, hskip _ rfl fun _ => rfl, hdep, hpend, List.append_assoc]
      have hq := h.queue
      rw [hp] at hq
      exact hq
    · rw [hgrp, hdep, List.map_append, List.map_append, List.map_singleton, List.map_singleton, hstamp]
      exact h.emitted.append (List.Sublist.refl _)

end Engine

/-- **The rate limit keeps the first pair of each phase slot.** For a valid configuration, with the period
`P = int(1e9/rate)` and after any calls, whatever they raised: the pairs formed have increasing RGB stamps; a pair is queued iff
no earlier one is in its slot, the slots being counted from the RGB stamp of the first pair; every other pair is refused,
and these are the ones counted as `rate_filtered`; and the emitted frames `i < j` are more than `j - i - 1` periods apart. -/
theorem rate_limited (cfg : Config) (hcfg : cfg.validate = .ok ()) {P : ℤ} (hP : pyInt (div (10 ^ 9) cfg.rate) = .ok P)
    (D : Deps) (cs : List Call) {e : Engine} (he : runAllCalls D cfg cs = e) :
    (e.pairs.Pairwise fun p q => p.1.stamp < q.1.stamp) ∧
    (∀ p₀ l₁ p l₂, e.pairs.head? = some p₀ → e.pairs = l₁ ++ p :: l₂ →
      (p ∈ e.selected ↔ ∀ q ∈ l₁, PhaseLimit.slot p₀.1.stamp P q.1.stamp ≠ PhaseLimit.slot p₀.1.stamp P p.1.stamp)) ∧
    (∀ p ∈ e.pairs, p ∈ e.refused ↔ p ∉ e.selected) ∧
    e.pairs.length = e.selected.length + e.stats .rateFiltered ∧
    ∀ (i j : ℕ) g h, i < j → e.groups[i]? = some g → e.groups[j]? = some h →
      ((j : ℤ) - i - 1) * P < h.rgb.stamp - g.rgb.stamp := by
  have hvalid := Config.validate_ok.1 hcfg
  have hpos := Engine.period_pos hvalid hP
  subst he
  have hord := (Engine.PairBuffers.run D cfg cs).ordered
  have hph := Engine.Phases.run (D := D) hvalid hP cs
  generalize runAllCalls D cfg cs = e at hord hph
  refine ⟨hord, fun p₀ l₁ p l₂ hhead hsplit => ?_, fun p hp => ?_, ?_, fun i j g h hij hi hj => ?_⟩
  · obtain ⟨rest, hrest⟩ : ∃ rest, e.pairs = p₀ :: rest := by
      cases hl : e.pairs with
      | nil => simp [hl] at hhead
      | cons q rest =>
        rw [hl] at hhead
        obtain rfl : q = p₀ := by simpa using hhead
        exact ⟨rest, rfl⟩
    rw [hrest] at hord hsplit
    have hsel : e.selected = ((p₀ :: rest).foldl (PhaseLimit.limit (fun p => p.1.stamp) P) (none, [])).2 := by
      rw [← hrest, ← hph.limited]
    rw [hsel]
    exact PhaseLimit.mem_limit_iff hpos hord hsplit
  · have hnodup : (e.selected ++ e.refused).Nodup := by
      refine hph.split.nodup_iff.1 (hord.imp fun {p q} hpq heq => ?_)
      rw [heq] at hpq
      exact lt_irrefl _ hpq
    have hmem := hph.split.mem_iff.1 hp
    constructor
    · exact fun hr hs => (List.nodup_append.1 hnodup).2.2 p hs p hr rfl
    · exact fun hs => (List.mem_append.1 hmem).resolve_left hs
  · rw [hph.split.length_eq, List.length_append, hph.counted]
  · cases hl : e.pairs with
    | nil =>
      have hempty : e.groups = [] := by
        have := hph.split
        have hq := hph.queue
        have hem := hph.emitted
        rw [hl] at this
        have hnil := List.nil_perm.1 this
        rw [(List.append_eq_nil_iff.1 hnil).1] at hq
        rw [(List.append_eq_nil_iff.1 hq.symm).1] at hem
        simpa using hem
      simp [hempty] at hi
    | cons p₀ rest =>
      rw [hl] at hord
      obtain ⟨due, kept, hfold, hlim⟩ := PhaseLimit.limited_foldl (f := fun p : Image × Image => p.1.stamp) hpos hord
      have hsel : kept = e.selected := by
        have := hph.limited
        rw [hl, hfold] at this
        exact (Prod.mk.inj this).2.symm
      have hslots : (e.selected.map fun p => p.1.stamp).Pairwise fun s t =>
          PhaseLimit.slot p₀.1.stamp P s < PhaseLimit.slot p₀.1.stamp P t := by
        rw [← hsel, List.pairwise_map]
        exact hlim.apart
      have hsub : (e.groups.map fun g => g.rgb.stamp).Sublist (e.selected.map fun p => p.1.stamp) := by
        rw [hph.queue, List.map_append]
        exact hph.emitted.trans (List.sublist_append_left _ _)
      have hgroups := hslots.sublist hsub
      exact PhaseLimit.limit_apart (f := id) hpos hgroups hij (by simp [hi]) (by simp [hj])

/-- Three image pairs 70 ms apart at 10 Hz: the second is in the slot of the first. -/
def Still.burst : List Call :=
  [.ingest (.image .rgb (rgb 1 100000000)) 1 0, .ingest (.image .depth (depth 1 100000000)) 2 0,
    .ingest (.image .rgb (rgb 2 170000000)) 3 0, .ingest (.image .depth (depth 2 170000000)) 4 0,
    .ingest (.image .rgb (rgb 3 240000000)) 5 0, .ingest (.image .depth (depth 3 240000000)) 6 0]

theorem rate_limited_burst :
    (runAllCalls Still.deps { rate := 10 } Still.burst).pairs.length = 3 ∧
      (runAllCalls Still.deps { rate := 10 } Still.burst).selected.length = 2 ∧
      (runAllCalls Still.deps { rate := 10 } Still.burst).stats .rateFiltered = 1 := by
  have hP : pyInt (div (10 ^ 9) 10) = .ok 100000000 := by decide +kernel
  obtain ⟨-, -, -, hcount, -⟩ := rate_limited { rate := 10 } (by decide +kernel) hP Still.deps Still.burst rfl
  have hpairs : (runAllCalls Still.deps { rate := 10 } Still.burst).pairs.length = 3 := by decide +kernel
  have hstat : (runAllCalls Still.deps { rate := 10 } Still.burst).stats .rateFiltered = 1 := by decide +kernel
  exact ⟨hpairs, by omega, hstat⟩

end Agilex.Capture
