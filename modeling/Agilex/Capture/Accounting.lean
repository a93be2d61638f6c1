import Agilex.Capture.EngineRules

/-!
# No frame disappears uncounted

- Each counter counts the events it is named after (`Accounted.counters`);
- an image that joined a buffer is still there, or was given up, or is in a pair (`Accounted.images`);
- a pair is still queued, or was rate filtered, dropped or emitted (`Accounted.frames`).

`Accounted` is kept by every call that raises nothing; the conservation laws follow by counting.
-/

namespace Agilex.Capture

open Agilex.Lib Binary64 Outcome

/-! ## Histories and their counters -/

/-- The counter an event increments. -/
def Event.counter : Event → Option Stat
  | .evicted c _ | .unpaired c _ => some (.unpaired c)
  | .paired _ _ => some .paired
  | .rateFiltered _ _ => some .rateFiltered
  | .dropped r _ _ => some (.dropped r)
  | .emitted _ _ _ => some .frames
  | .buffered _ _ | .queued _ _ | .odometry _ | .interpolating _ _ _ | .written _ => none

/-- How many events increment a counter. -/
def Event.count (k : Stat) (t : List Event) : ℕ := t.countP fun ev => decide (ev.counter = some k)

@[simp] theorem Event.count_nil (k : Stat) : count k [] = 0 := rfl

@[simp] theorem Event.count_cons (k : Stat) (ev : Event) (t : List Event) :
    count k (ev :: t) = count k t + if ev.counter = some k then 1 else 0 := by
  simp [count, List.countP_cons]

theorem Event.count_append (k : Stat) (t t' : List Event) : count k (t ++ t') = count k t + count k t' :=
  List.countP_append

/-- The image of a pair on one stream. -/
def Cam.side : Cam → Image × Image → Image
  | .rgb, p => p.1
  | .depth, p => p.2

def Pending.images (p : Pending) : Image × Image := (p.rgb, p.dep)

namespace Engine

/-! ## The invariant -/

/-- Every counter of events has counted its events. -/
def Counted (e : Engine) : Prop := ∀ k, k.ofEvent → e.stats k = Event.count k e.trace

/-- Every image and every pair is accounted for; `hand` is a pair between its forming and the rate limit. -/
structure Accounted (e : Engine) (hand : List (Image × Image)) : Prop where
  counters : Counted e
  received : ∀ c, e.stats (.received (.image c)) = e.stats (.duplicate (.image c)) + (e.arrived c).length
  images : ∀ c, (e.arrived c).Perm (e.images c ++ e.lost c ++ e.pairs.map c.side)
  frames : e.pairs.Perm (e.pending.map Pending.images ++ e.settled ++ hand)

theorem Accounted.init : Accounted .init [] := by
  constructor <;> simp [Counted, Engine.init, arrived, lost, pairs, settled, history]

/-- An event and its counter go together. -/
theorem Counted.log {e e' : Engine} (h : Counted e) {k : Stat} {ev : Event} (hev : ev.counter = some k)
    (hs : ∀ k', k'.ofEvent → e'.stats k' = if k' = k then e.stats k + 1 else e.stats k')
    (ht : e'.trace = e.trace ++ [ev]) : Counted e' := by
  intro k' hk
  rw [hs k' hk, ht, Event.count_append, ← h k' hk]
  by_cases hkk : k' = k
  · subst hkk
    simp [hev]
  · simp [hev, hkk, Ne.symm hkk]

/-- Events without a counter. -/
theorem Counted.append {e e' : Engine} (h : Counted e) (evs : List Event) (hev : ∀ ev ∈ evs, ev.counter = none)
    (hs : ∀ k, k.ofEvent → e'.stats k = e.stats k) (ht : e'.trace = e.trace ++ evs) : Counted e' := by
  intro k hk
  have hzero : Event.count k evs = 0 := by
    rw [Event.count, List.countP_eq_zero]
    intro ev hm
    simp [hev ev hm]
  rw [hs k hk, ht, Event.count_append, hzero, Nat.add_zero, h k hk]

/-- The accounts do not change with what concerns neither images nor frames. -/
theorem Accounted.quiet {e e' : Engine} {hand : List (Image × Image)} (h : Accounted e hand) (hq : Quiet e e') :
    Accounted e' hand := by
  obtain ⟨evs, ht, hev⟩ := hq.trace
  refine ⟨h.counters.append _ (fun ev hm => ?_) hq.stats ht, fun c => ?_, fun c => ?_, ?_⟩
  · have := hev ev hm
    cases ev <;> simp_all [Event.plain, Event.counter]
  · rw [hq.received, hq.duplicate, hq.arrived, h.received]
  · rw [hq.arrived, hq.lost, hq.pairs, hq.images]
    exact h.images c
  · rw [hq.pairs, hq.settled, hq.pending]
    exact h.frames

/-! ## Steps -/

variable {D : Deps} {cfg : Config}

/-- A duplicate is received and counted. -/
theorem Accounted.duplicate {e : Engine} (h : Accounted e []) (t : Topic) :
    Accounted ((e.inc (.received t)).inc (.duplicate t)) [] := by
  refine ⟨h.counters.append [] (by simp) (fun k hk => ?_) (List.append_nil _).symm, fun c => ?_,
    h.images, h.frames⟩
  · cases k <;> simp_all [Stat.ofEvent]
  · have := h.received c
    by_cases ht : t = .image c
    · subst ht
      simp [arrived] at this ⊢
      omega
    · simpa [Ne.symm ht] using this

/-- A message on a topic without images is received. -/
theorem Accounted.count {e : Engine} (h : Accounted e []) {t : Topic} (ht : ∀ c, t ≠ .image c) :
    Accounted (e.inc (.received t)) [] := by
  refine ⟨h.counters.append [] (by simp) (fun k hk => ?_) (List.append_nil _).symm, fun c => ?_,
    h.images, h.frames⟩
  · cases k <;> simp_all [Stat.ofEvent]
  · simpa [Ne.symm (ht c)] using h.received c

/-- A full buffer gives up its oldest image, or `_pair` gives it up. -/
theorem Accounted.giveUp {e e' : Engine} (h : Accounted e []) {c : Cam} {m : Image} {rest : List Image} {ev : Event}
    (hl : e.images c = m :: rest) (hev : ev = .evicted c m ∨ ev = .unpaired c m)
    (he : e' = ((e.setImages c rest).inc (.unpaired c)).log ev) : Accounted e' [] := by
  subst he
  have hcounter : ev.counter = some (.unpaired c) := by cases hev <;> subst ev <;> rfl
  have hlost : ∀ c', ev.lost c' = if c = c' then some m else none := by cases hev <;> subst ev <;> simp [Event.lost]
  have harr : ∀ c', ev.arrival c' = none := by cases hev <;> subst ev <;> simp [Event.arrival]
  have hpair : ev.pair = none := by cases hev <;> subst ev <;> rfl
  have hset : ev.settled = none := by cases hev <;> subst ev <;> rfl
  refine ⟨h.counters.log hcounter (fun k _ => rfl) rfl, fun c' => ?_, fun c' => ?_, ?_⟩
  · simpa [harr] using h.received c'
  · have := h.images c'
    rw [List.perm_iff_count] at this ⊢
    intro x
    have hx := this x
    by_cases hcc : c' = c
    · subst hcc
      rw [hl] at hx
      simp [arrived, lost, pairs, harr, hlost, hpair, List.count_cons] at hx ⊢
      omega
    · simpa [harr, hlost, hpair, hcc, Ne.symm hcc] using hx
  · simpa [hpair, hset] using h.frames

/-- An image that is counted as received joins its buffer. -/
theorem Accounted.buffered {e : Engine} (h : Accounted e []) (c : Cam) (m : Image) :
    Accounted ((e.inc (.received (.image c))).join c m) [] := by
  refine ⟨h.counters.append [_] (fun ev hm => ?_) (fun k hk => ?_) rfl, fun c' => ?_, fun c' => ?_, ?_⟩
  · obtain rfl := List.mem_singleton.1 hm
    rfl
  · cases k <;> simp_all [join, Stat.ofEvent]
  · have := h.received c'
    by_cases hcc : c' = c
    · subst hcc
      simp [join, arrived, Event.arrival] at this ⊢
      omega
    · simpa [join, Event.arrival, hcc, Ne.symm hcc] using this
  · have := h.images c'
    rw [List.perm_iff_count] at this ⊢
    intro x
    have hx := this x
    by_cases hcc : c' = c
    · subst hcc
      simp [join, arrived, lost, pairs, Event.arrival, Event.lost, Event.pair, List.count_cons] at hx ⊢
      omega
    · simpa [join, Event.arrival, Event.lost, Event.pair, hcc, Ne.symm hcc] using hx
  · simpa [join, Event.pair, Event.settled] using h.frames

theorem Accounted.bufferImage {e : Engine} (h : Accounted e []) (c : Cam) (m : Image) :
    Accounted ((e.inc (.received (.image c))).bufferImage cfg c m) [] := by
  have hb := h.buffered c m
  rcases bufferImage_cases cfg c m (e.inc (.received (.image c))) with hc | ⟨old, rest, hl, hc⟩ <;> rw [hc]
  · exact hb
  · exact hb.giveUp hl (Or.inl rfl) rfl

/-- A pair is formed. -/
theorem Accounted.takePair {e : Engine} (h : Accounted e []) {rgb dep : Image} {a b₁ b₂ : List Image}
    (ha : e.images .rgb = rgb :: a) (hb : e.images .depth = b₁ ++ dep :: b₂) :
    Accounted (e.takePair rgb dep a (b₁ ++ b₂)) [(rgb, dep)] := by
  refine ⟨h.counters.log (k := .paired) rfl (fun k _ => rfl) rfl, fun c => ?_, fun c => ?_, ?_⟩
  · simpa [Engine.takePair, Event.arrival] using h.received c
  · have := h.images c
    rw [List.perm_iff_count] at this ⊢
    intro x
    have hx := this x
    cases c with
    | rgb =>
      rw [ha] at hx
      simp [Engine.takePair, arrived, lost, pairs, Event.arrival, Event.lost, Event.pair, Cam.side, List.count_cons] at hx ⊢
      omega
    | depth =>
      rw [hb] at hx
      simp [Engine.takePair, arrived, lost, pairs, Event.arrival, Event.lost, Event.pair, Cam.side, List.count_cons] at hx ⊢
      omega
  · simpa [Engine.takePair, Event.pair, Event.settled] using h.frames.append_right [(rgb, dep)]

/-- The pair in hand is refused by the rate limit or queued. -/
theorem Accounted.select {e e' : Engine} {rgb dep : Image} (h : Accounted e [(rgb, dep)]) {wall : ℚ}
    (hs : Engine.select cfg wall rgb dep e = .ok e') : Accounted e' [] := by
  have hf := h.frames
  rcases select_cases cfg wall rgb dep e with ⟨due, -, -, h'⟩ | ⟨period, -, -, h'⟩ | ⟨err, x, h'⟩ <;> rw [h'] at hs <;>
    cases hs
  · refine ⟨h.counters.log (k := .rateFiltered) rfl (fun k _ => rfl) rfl, fun c => ?_, fun c => ?_, ?_⟩
    · simpa [Event.arrival] using h.received c
    · simpa [Event.arrival, Event.lost, Event.pair] using h.images c
    · simpa [Event.pair, Event.settled] using hf
  · refine ⟨h.counters.append [.queued rgb dep] (fun ev hm => ?_) (fun k _ => rfl) rfl, fun c => ?_, fun c => ?_, ?_⟩
    · obtain rfl := List.mem_singleton.1 hm
      rfl
    · simpa [Event.arrival] using h.received c
    · simpa [Event.arrival, Event.lost, Event.pair] using h.images c
    · rw [List.perm_iff_count] at hf ⊢
      intro x
      have hx := hf x
      simp [pairs, settled, Event.pair, Event.settled, Pending.images, List.count_cons] at hx ⊢
      omega

theorem Accounted.pairStep {e e' : Engine} (h : Accounted e []) {slop : ℤ} {wall : ℚ} {rgb : Image} {a : List Image}
    {b₀ : Image} {b : List Image} (ha : e.images .rgb = rgb :: a) (hb : e.images .depth = b₀ :: b)
    (hs : Engine.pairStep cfg slop wall rgb a b₀ b e = .ok e') : Accounted e' [] := by
  rcases pairStep_cases cfg slop wall rgb a b₀ b e with ⟨b₁, dep, b₂, hl, -, hp⟩ | ⟨-, -, hp⟩ | ⟨-, -, hp⟩
  · rw [hp] at hs
    exact (h.takePair ha (hb.trans hl)).select hs
  · rw [hp] at hs
    cases hs
    exact h.giveUp hb (Or.inr rfl) rfl
  · rw [hp] at hs
    cases hs
    exact h.giveUp ha (Or.inr rfl) rfl

/-- The head of the queue is dropped or emitted. -/
theorem Accounted.settle {e e' : Engine} (h : Accounted e []) {p : Pending} {rest : List Pending} {k₀ : Stat}
    (ev : Event) (evs : List Event) (hp : e.pending = p :: rest) (hev : ev.counter = some k₀) (hk₀ : k₀.ofEvent)
    (hset : ev.settled = some p.images) (hevs : ∀ ev ∈ evs, ev.plain)
    (hs : ∀ k, e'.stats k = if k = k₀ then e.stats k₀ + 1 else e.stats k) (hi : e'.images = e.images)
    (hrest : e'.pending = rest) (ht : e'.trace = e.trace ++ [ev] ++ evs) : Accounted e' [] := by
  have hpair : ev.pair = none := by cases ev <;> simp_all [Event.settled, Event.pair]
  have harr : ∀ c, ev.arrival c = none := by intro c; cases ev <;> simp_all [Event.settled, Event.arrival]
  have hlost : ∀ c, ev.lost c = none := by intro c; cases ev <;> simp_all [Event.settled, Event.lost]
  -- first the decision, then the plain events
  let t : Engine := { e with stats := e'.stats, pending := rest, nextDue := e'.nextDue, trace := e.trace ++ [ev] }
  have hr : ∀ k, k.ofEvent = false → e'.stats k = e.stats k := by
    intro k hk
    rw [hs k, if_neg (by rintro rfl; simp [hk₀] at hk)]
  have hfr := h.frames
  have hmid : Accounted t [] := by
    refine ⟨h.counters.log hev (fun k _ => hs k) rfl, fun c => ?_, fun c => ?_, ?_⟩
    · have := h.received c
      rw [← hr (.received (.image c)) rfl, ← hr (.duplicate (.image c)) rfl] at this
      simpa [t, history, harr] using this
    · simpa [t, history, harr, hlost, hpair] using h.images c
    · rw [List.perm_iff_count] at hfr ⊢
      intro x
      have hx := hfr x
      rw [hp] at hx
      simp [t, pairs, settled, history, hpair, hset, List.count_cons] at hx ⊢
      omega
  exact hmid.quiet ⟨hi, hrest, rfl, fun _ _ => rfl, fun _ => rfl, fun _ => rfl, evs, ht, hevs⟩

theorem Accounted.drainLoop (D : Deps) (cfg : Config) {e : Engine} (h : Accounted e []) (wall : ℚ) (final : Bool)
    {l : List Pending}
    (hl : e.pending = l) : Accounted (Outcome.final (Engine.drainLoop D cfg wall final l e)) [] := by
  refine drainLoop_rule (P := fun e => Accounted e []) (fun e e' h ht => h.quiet ht.quiet)
    (fun p rest r text e h hp => ?_) (fun p rest g e e' h hp _ => ?_) l e h hl
  · exact h.settle (.dropped r p.rgb p.dep) [] hp rfl rfl rfl (by simp) (fun _ => rfl) rfl rfl
      (List.append_nil _).symm
  · rw [emit_eq]
    refine h.settle (.emitted p.rgb p.dep g) _ hp rfl rfl rfl ?_ (fun _ => rfl) rfl rfl (List.append_cons _ _ _)
    intro ev hm
    obtain ⟨r, -, rfl⟩ := List.mem_map.1 hm
    rfl

theorem Accounted.pair {e e' : Engine} (h : Accounted e []) {wall : ℚ} (hs : Engine.pair cfg wall e = .ok e') :
    Accounted e' [] := by
  obtain ⟨slop, -, hs⟩ := bind_ok.1 hs
  exact pairLoop_ok_rule (P := fun e => Accounted e [])
    (fun rgb a b₀ b e e' h ha hb hs => h.pairStep ha hb hs) _ e e' h hs

theorem Accounted.drain {e e' : Engine} (h : Accounted e []) {wall : ℚ} {final : Bool}
    (hs : Engine.drain D cfg wall final e = .ok e') : Accounted e' [] := by
  have hl := h.drainLoop D cfg wall final rfl
  rw [Engine.drain] at hs
  rwa [hs, final_ok] at hl

/-- An input is counted, noted and received. -/
theorem Accounted.receive {e e₀ e₁ : Engine} (h : Accounted e []) {x : Input} {arrivalNs : ℤ} {wall : ℚ}
    (hn : Noted e x e₀) (hs : e₀.receive D cfg x arrivalNs wall = .ok e₁) : Accounted e₁ [] := by
  obtain ⟨t, ht, rfl⟩ : ∃ t, Accounted t [] ∧ e₀ = t.inc (.received x.topic) := by
    rcases hn with ⟨-, rfl⟩ | ⟨hd, -, -, -, rfl⟩
    · exact ⟨e, h, rfl⟩
    · exact ⟨_, h.quiet (noteSource_quiet x.topic hd e), rfl⟩
  by_cases hx : ∃ c m, x = .image c m
  · obtain ⟨c, m, rfl⟩ := hx
    exact (ht.bufferImage c m).pair hs
  · push Not at hx
    have hq := receive_quiet D cfg arrivalNs wall
      (e := t.inc (.received x.topic)) hx
    rw [hs, final_ok] at hq
    refine (ht.count fun c hc => ?_).quiet hq
    cases x <;> simp_all [Input.topic]

/-- **Every run that raises nothing keeps the accounts.** -/
theorem Accounted.run {cs : List Call} {e : Engine} (h : runCalls D cfg cs = .ok e) : Accounted e [] :=
  runCalls_rule (P := fun _ e => Accounted e []) .init (fun _ _ _ _ _ h hd => h.drain hd) (fun _ _ _ _ h => h)
    (fun _ x _ _ _ _ h _ _ => h.duplicate x.topic) (fun _ _ _ _ _ _ _ h hn hs => h.receive hn hs) h

/-! ## Counting -/

theorem lost_length (e : Engine) (c : Cam) : (e.lost c).length = Event.count (.unpaired c) e.trace := by
  rw [lost, history, List.length_filterMap_eq_countP, Event.count]
  refine List.countP_congr fun ev _ => ?_
  cases ev <;> simp [Event.lost, Event.counter]

theorem pairs_length (e : Engine) : e.pairs.length = Event.count .paired e.trace := by
  rw [pairs, history, List.length_filterMap_eq_countP, Event.count]
  refine List.countP_congr fun ev _ => ?_
  cases ev <;> simp [Event.pair, Event.counter]

/-- The frames dropped, for any reason. -/
def droppedTotal (e : Engine) : ℕ := (DropReason.all.map fun r => e.stats (.dropped r)).sum

/-- The decided pairs are counted once: rate filtered, emitted, or dropped for one of the reasons. -/
theorem settled_length (t : List Event) :
    (t.filterMap Event.settled).length =
      Event.count .rateFiltered t + Event.count .frames t +
        (DropReason.all.map fun r => Event.count (.dropped r) t).sum := by
  induction t with
  | nil => simp [DropReason.all]
  | cons ev t ih =>
    cases ev with
    | dropped r rgb dep => cases r <;> simp [Event.settled, Event.counter, DropReason.all] at ih ⊢ <;> omega
    | rateFiltered rgb dep => simp [Event.settled, Event.counter, DropReason.all] at ih ⊢; omega
    | emitted rgb dep g => simp [Event.settled, Event.counter, DropReason.all] at ih ⊢; omega
    | _ => simpa [List.filterMap_cons, Event.settled, Event.counter, DropReason.all] using ih

/-- The balance of the images of one stream. -/
theorem Accounted.image_balance {e : Engine} (h : Accounted e []) (c : Cam) :
    e.stats (.received (.image c)) =
      e.stats (.duplicate (.image c)) + e.stats .paired + e.stats (.unpaired c) + (e.images c).length := by
  have hl := (h.images c).length_eq
  have hr := h.received c
  rw [List.length_append, List.length_append, List.length_map, lost_length, pairs_length,
    ← h.counters (.unpaired c) rfl, ← h.counters .paired rfl] at hl
  omega

/-- The balance of the pairs. -/
theorem Accounted.frame_balance {e : Engine} (h : Accounted e []) :
    e.stats .paired = e.stats .rateFiltered + e.stats .frames + e.droppedTotal + e.pending.length := by
  have hl := h.frames.length_eq
  rw [List.append_nil, List.length_append, List.length_map, pairs_length, settled, history, settled_length,
    ← h.counters .paired rfl, ← h.counters .rateFiltered rfl, ← h.counters .frames rfl] at hl
  have hd : (DropReason.all.map fun r => Event.count (.dropped r) e.trace) =
      DropReason.all.map fun r => e.stats (.dropped r) :=
    List.map_congr_left fun r _ => (h.counters (.dropped r) rfl).symm
  rw [hd] at hl
  unfold droppedTotal
  omega

end Engine

/-! ## The conservation laws -/

/-- **No frame disappears uncounted.** In every state reached without an exception, the received images that are no
duplicates are paired, unpaired or still buffered, and the pairs are rate filtered, emitted, dropped for a reason or
pending. After a final `drain` nothing is pending, and each image that joined a buffer is exactly once among the
buffered, the unpaired and those of the pairs rate filtered, dropped or emitted. -/
theorem frames_accounted {D : Deps} {cfg : Config} {cs : List Call} {e : Engine} (h : runCalls D cfg cs = .ok e) :
    (∀ c, (e.stats (.received (.image c)) : ℤ) - e.stats (.duplicate (.image c)) =
        e.stats .paired + e.stats (.unpaired c) + (e.images c).length) ∧
      e.stats .paired = e.stats .rateFiltered + e.stats .frames + e.droppedTotal + e.pending.length ∧
      ((∃ cs' wall, cs = cs' ++ [.drain wall true]) → e.pending = [] ∧
        ∀ c, (e.arrived c).Perm (e.images c ++ e.lost c ++ e.settled.map c.side)) := by
  have ha := Engine.Accounted.run h
  refine ⟨fun c => ?_, ha.frame_balance, ?_⟩
  · have := ha.image_balance c
    omega
  · rintro ⟨cs', wall, rfl⟩
    obtain ⟨t, -, hd⟩ := run_append_ok.1 h
    obtain ⟨e', hd, hr⟩ := run_cons_ok hd
    cases hr
    have hp : e.pending = [] := Engine.drainLoop_final rfl hd
    refine ⟨hp, fun c => (ha.images c).trans ?_⟩
    have hf := ha.frames
    rw [hp, List.map_nil, List.nil_append, List.append_nil] at hf
    exact (hf.map c.side).append_left _

/-- A run with a duplicate, two images without a partner, a pair too early for the rate, and three frames. -/
theorem frames_accounted_recording :
    ∃ e, runCalls Still.deps {} Still.recording = .ok e ∧ e.stats .frames = 3 ∧ e.stats .rateFiltered = 1 ∧
      (∀ c, e.stats (.unpaired c) = 1) ∧
      (∀ c, (e.stats (.received (.image c)) : ℤ) - e.stats (.duplicate (.image c)) =
          e.stats .paired + e.stats (.unpaired c) + (e.images c).length) ∧
        e.stats .paired = e.stats .rateFiltered + e.stats .frames + e.droppedTotal + e.pending.length ∧
        ((∃ cs' wall, Still.recording = cs' ++ [.drain wall true]) → e.pending = [] ∧
          ∀ c, (e.arrived c).Perm (e.images c ++ e.lost c ++ e.settled.map c.side)) := by
  have hrun : (runCalls Still.deps {} Still.recording).toOption.map (fun e =>
      (e.stats .frames, e.stats .rateFiltered, e.stats (.unpaired .rgb), e.stats (.unpaired .depth))) = some (3, 1, 1, 1) := by
    decide +kernel
  obtain ⟨e, h, hstats⟩ := ok_of_toOption hrun
  simp only [Prod.mk.injEq] at hstats
  obtain ⟨hframes, hrate, hrgb, hdepth⟩ := hstats
  exact ⟨e, h, hframes, hrate, fun c => by cases c <;> assumption, frames_accounted h⟩

end Agilex.Capture
