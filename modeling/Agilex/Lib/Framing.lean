import Mathlib.Data.List.Chain
import Mathlib.Data.List.Induction
import Mathlib.Data.Nat.Basic
import Mathlib.Tactic.Common
import Mathlib.Tactic.Ring

/-!
# Cutting a stream into frames by its stamps

Intervals come one after the other, each with the stamps of its two ends. `framing` puts them into frames, and closes a frame
with the interval whose last stamp is `due` for the first stamp of the frame.

A frame is `Timely` when it is due on the turns of a clock that counts units of `u`, every `k` of them, and only after `tol`.
Where the intervals follow each other closely enough (`Steady`), no turn is missed:

- `closed_span`: no frame is longer than `tol` and `k + 1` units;
- `closed_paced`: each frame ends `k` units after the one before.
-/

namespace Agilex.Lib.Framing

variable {A : Type}

/-- The closed frames and the open one, each as its first and its last stamp. -/
structure Frames (A : Type) where
  closed : List (A × A)
  opened : Option (A × A)

/-- The next interval. -/
def Frames.add (due : A → A → Bool) (f : Frames A) (x : A × A) : Frames A :=
  let start := (f.opened.map (·.1)).getD x.1
  if due start x.2 then ⟨f.closed ++ [(start, x.2)], none⟩ else ⟨f.closed, some (start, x.2)⟩

def framing (due : A → A → Bool) (l : List (A × A)) : Frames A := l.foldl (Frames.add due) ⟨[], none⟩

@[simp] theorem framing_nil (due : A → A → Bool) : framing due [] = ⟨[], none⟩ := rfl

@[simp] theorem framing_snoc (due : A → A → Bool) (l : List (A × A)) (x : A × A) :
    framing due (l ++ [x]) = (framing due l).add due x := by
  simp [framing]

/-- The open frame is closed if it is due. -/
def settle (due : A → A → Bool) (closed : List (A × A)) : Option (A × A) → Frames A
  | none => ⟨closed, none⟩
  | some w => if due w.1 w.2 then ⟨closed ++ [w], none⟩ else ⟨closed, some w⟩

section
variable {due : A → A → Bool} {closed : List (A × A)}

theorem Frames.add_eq_settle (f : Frames A) (x : A × A) :
    f.add due x = settle due f.closed (some ((f.opened.map (·.1)).getD x.1, x.2)) := rfl

theorem settle_quiet {o : Option (A × A)} (h : ∀ w, o = some w → due w.1 w.2 = false) :
    settle due closed o = ⟨closed, o⟩ := by
  cases o with
  | none => rfl
  | some w => simp [settle, h w rfl]

theorem closed_settle {o : Option (A × A)} : closed <+: (settle due closed o).closed := by
  cases o with
  | none => exact List.prefix_rfl
  | some w => by_cases hd : due w.1 w.2 = true <;> simp [settle, hd]

end

/-- The first and the last element. -/
def ends : List A → Option (A × A)
  | [] => none
  | x :: l => some (x, l.getLastD x)

@[simp] theorem ends_nil : ends ([] : List A) = none := rfl

theorem ends_eq_none {l : List A} : ends l = none ↔ l = [] := by
  cases l <;> simp [ends]

theorem ends_eq_some {l : List A} {w : A × A} : ends l = some w ↔ l.head? = some w.1 ∧ l.getLast? = some w.2 := by
  cases l with
  | nil => simp
  | cons x l => simp [ends, List.getLast?_cons, List.getLastD_eq_getLast?, Prod.ext_iff]

theorem ends_append (l l' : List A) :
    ends (l ++ l') = (ends l').elim (ends l) fun w => some (((ends l).map (·.1)).getD w.1, w.2) := by
  cases l with
  | nil => cases l' <;> rfl
  | cons x l =>
    cases l' with
    | nil => simp
    | cons y l' => simp [ends, List.getLastD_eq_getLast?, List.getLast?_append, List.getLast?_cons]

theorem ends_bound {t : A → ℕ} {l : List A} {w : A × A} {x : A} (h : l.Pairwise fun x y => t x ≤ t y)
    (hw : ends l = some w) (hx : x ∈ l) : t w.1 ≤ t x ∧ t x ≤ t w.2 := by
  obtain ⟨hhead, hlast⟩ := ends_eq_some.1 hw
  constructor
  · obtain ⟨l', rfl⟩ := List.head?_eq_some_iff.1 hhead
    rcases List.mem_cons.1 hx with rfl | hx
    · exact le_rfl
    · exact List.rel_of_pairwise_cons h hx
  · obtain ⟨l', rfl⟩ := List.getLast?_eq_some_iff.1 hlast
    rcases List.mem_append.1 hx with hx | hx
    · exact (List.pairwise_append.1 h).2.2 x hx w.2 (by simp)
    · rw [List.mem_singleton.1 hx]

/-! ## Steady streams -/

/-- The stamps do not go back, and the last stamps of neighbours are at most `g` apart. -/
structure Steady (t : A → ℕ) (g : ℕ) (l : List (A × A)) : Prop where
  within : ∀ x ∈ l, t x.1 ≤ t x.2 ∧ t x.2 ≤ t x.1 + g
  chain : l.IsChain fun x y => t x.2 ≤ t y.1 ∧ t y.2 ≤ t x.2 + g

instance (t : A → ℕ) (g : ℕ) (l : List (A × A)) : Decidable (Steady t g l) :=
  decidable_of_iff ((∀ x ∈ l, t x.1 ≤ t x.2 ∧ t x.2 ≤ t x.1 + g) ∧
    l.IsChain fun x y => t x.2 ≤ t y.1 ∧ t y.2 ≤ t x.2 + g) ⟨fun h => ⟨h.1, h.2⟩, fun h => ⟨h.1, h.2⟩⟩

variable {t : A → ℕ} {g u k tol : ℕ} {l : List (A × A)} {x : A × A}

theorem Steady.init (h : Steady t g (l ++ [x])) : Steady t g l :=
  ⟨fun y hy => h.within y (List.mem_append_left _ hy), (List.isChain_append.1 h.chain).1⟩

theorem Steady.last (h : Steady t g (l ++ [x])) : t x.1 ≤ t x.2 ∧ t x.2 ≤ t x.1 + g :=
  h.within x (by simp)

theorem Steady.next (h : Steady t g (l ++ [x])) {y : A × A} (hy : l.getLast? = some y) :
    t y.2 ≤ t x.1 ∧ t x.2 ≤ t y.2 + g :=
  (List.isChain_append.1 h.chain).2.2 y hy x rfl

/-! ## The turns of a clock -/

/-- A frame is due on a turn of the clock, when it is long enough. -/
def Timely (t : A → ℕ) (u k tol : ℕ) (due : A → A → Bool) : Prop :=
  ∀ b r, t b ≤ t r → (due b r = true ↔ t r / u % k = 0 ∧ t r / u ≠ 0 ∧ t b + tol ≤ t r)

/-- The first turn on which a frame that starts at `b` is due for sure. -/
def turnAfter (u k tol b : ℕ) : ℕ := k * ((b + tol) / u / k + 1)

section
variable {b r r' : ℕ}

theorem lt_turnAfter (hk : 0 < k) : (b + tol) / u < turnAfter u k tol b := Nat.lt_mul_div_succ _ hk

theorem turnAfter_le : turnAfter u k tol b ≤ (b + tol) / u + k := by
  rw [turnAfter, Nat.mul_succ]
  exact Nat.add_le_add_right (Nat.mul_div_le _ _) k

/-- One unit at most goes by. -/
theorem div_le_succ (hu : 0 < u) (h : r' ≤ r + u) : r' / u ≤ r / u + 1 := by
  rw [← Nat.add_div_right r hu]
  exact Nat.div_le_div_right h

/-- The frame is not due yet for sure. -/
def Early (u k tol b r : ℕ) : Prop := r < b + tol ∨ r / u < turnAfter u k tol b

/-- The turn is not passed. -/
theorem Early.reach (h : Early u k tol b r) (hu : 0 < u) (hk : 0 < k) (hr : r' ≤ r + u) :
    r' / u ≤ turnAfter u k tol b := by
  have hlt : r / u < turnAfter u k tol b := by
    rcases h with h | h
    · exact lt_of_le_of_lt (Nat.div_le_div_right h.le) (lt_turnAfter hk)
    · exact h
  exact (div_le_succ hu hr).trans hlt

theorem early_of_not_due (hk : 0 < k) (hr : r / u ≤ turnAfter u k tol b)
    (hd : ¬(r / u % k = 0 ∧ r / u ≠ 0 ∧ b + tol ≤ r)) : Early u k tol b r := by
  rcases hr.lt_or_eq with hlt | heq
  · exact .inr hlt
  · refine .inl (not_le.1 fun hle => hd ⟨?_, ?_, hle⟩)
    · rw [heq, turnAfter, Nat.mul_mod_right]
    · rw [heq]
      exact (Nat.zero_le _).trans_lt (lt_turnAfter hk) |>.ne'

theorem lt_of_reach (hu : 0 < u) (hr : r / u ≤ turnAfter u k tol b) : r < b + tol + (k + 1) * u := by
  have hle : r / u ≤ (b + tol) / u + k := hr.trans turnAfter_le
  have hdiv : (b + tol) / u * u ≤ b + tol := Nat.div_mul_le_self _ _
  have hlt : r < (r / u + 1) * u := by
    rw [← Nat.div_lt_iff_lt_mul hu]
    exact Nat.lt_succ_self _
  calc r < (r / u + 1) * u := hlt
    _ ≤ ((b + tol) / u + k + 1) * u := Nat.mul_le_mul_right u (by omega)
    _ = (b + tol) / u * u + (k + 1) * u := by ring
    _ ≤ b + tol + (k + 1) * u := by omega

end

/-! ## No frame is long -/

/-- What holds of the frames of a steady stream. -/
structure Short (t : A → ℕ) (u k tol : ℕ) (l : List (A × A)) (f : Frames A) : Prop where
  closed : ∀ w ∈ f.closed, t w.1 ≤ t w.2 ∧ t w.2 < t w.1 + tol + (k + 1) * u
  opened : ∀ w, f.opened = some w → t w.1 ≤ t w.2 ∧ Early u k tol (t w.1) (t w.2) ∧ l.getLast?.map (·.2) = some w.2

variable {due : A → A → Bool}

/-- The first stamp of the frame that the next interval belongs to. -/
theorem Short.start (h : Short t u k tol l (framing due l)) (hu : 0 < u) (hk : 0 < k) (htol : 0 < tol) (hg : g ≤ u)
    (hs : Steady t g (l ++ [x])) :
    let start := ((framing due l).opened.map (·.1)).getD x.1
    t start ≤ t x.2 ∧ t x.2 / u ≤ turnAfter u k tol (t start) := by
  cases ho : (framing due l).opened with
  | none =>
    have hnow : Early u k tol (t x.1) (t x.1) := .inl (by omega)
    exact ⟨hs.last.1, hnow.reach hu hk (hs.last.2.trans (by omega))⟩
  | some w =>
    obtain ⟨hle, hearly, hlast⟩ := h.opened w ho
    obtain ⟨y, hy, heq⟩ := Option.map_eq_some_iff.1 hlast
    obtain ⟨hfrom, hto⟩ := hs.next hy
    rw [heq] at hfrom hto
    have hx := hs.last.1
    exact ⟨by simp only [Option.map_some, Option.getD_some]; omega, hearly.reach hu hk (hto.trans (by omega))⟩

theorem short_framing (hdue : Timely t u k tol due) (hu : 0 < u) (hk : 0 < k) (htol : 0 < tol) (hg : g ≤ u)
    (hs : Steady t g l) : Short t u k tol l (framing due l) := by
  induction l using List.reverseRecOn with
  | nil => exact ⟨by simp, by simp⟩
  | append_singleton l x ih =>
    have h := ih hs.init
    obtain ⟨hle, hreach⟩ := h.start hu hk htol hg hs
    rw [framing_snoc, Frames.add]
    split
    · refine ⟨fun w hw => ?_, by simp⟩
      rcases List.mem_append.1 hw with hw | hw
      · exact h.closed w hw
      · obtain rfl := List.mem_singleton.1 hw
        exact ⟨hle, lt_of_reach hu hreach⟩
    · next hnot =>
      refine ⟨h.closed, fun w hw => ?_⟩
      obtain rfl := Option.some.inj hw
      exact ⟨hle, early_of_not_due hk hreach fun hd => hnot ((hdue _ _ hle).2 hd), by simp⟩

/-- **No frame of a steady stream is long.** -/
theorem closed_span (hdue : Timely t u k tol due) (hu : 0 < u) (hk : 0 < k) (htol : 0 < tol) (hg : g ≤ u)
    (hs : Steady t g l) : ∀ w ∈ (framing due l).closed, t w.1 ≤ t w.2 ∧ t w.2 < t w.1 + tol + (k + 1) * u :=
  (short_framing hdue hu hk htol hg hs).closed

/-! ## The frames keep the pace of the clock -/

/-- A frame that follows one with the end `e` is not past the next turn, and on this turn it is too short. -/
def Behind (u k tol e b r : ℕ) : Prop := r / u < e / u + k ∨ r / u = e / u + k ∧ r < b + tol

theorem Behind.reach {e b r r' : ℕ} (h : Behind u k tol e b r) (hu : 0 < u) (hg : g ≤ u) (hpace : 2 * g + tol ≤ k * u)
    (hb : b ≤ e + g) (hr : r' ≤ r + g) : r' / u ≤ e / u + k := by
  rcases h with h | ⟨-, h⟩
  · exact (div_le_succ hu (hr.trans (by omega))).trans h
  · have he : e < (e / u + 1) * u := by
      rw [← Nat.div_lt_iff_lt_mul hu]
      exact Nat.lt_succ_self _
    have hlt : r' < (e / u + k + 1) * u := calc
      r' < (e / u + 1) * u + k * u := by omega
      _ = (e / u + k + 1) * u := by ring
    exact Nat.lt_succ_iff.1 ((Nat.div_lt_iff_lt_mul hu).2 hlt)

/-- A frame that is due on time ends on the next turn. -/
theorem eq_next_turn {m n : ℕ} (hm : m % k = 0) (hn : n % k = 0) (hlt : m < n) (hle : n ≤ m + k) : n = m + k := by
  have hdvd : k ∣ n - m := Nat.dvd_sub (Nat.dvd_of_mod_eq_zero hn) (Nat.dvd_of_mod_eq_zero hm)
  have hk := Nat.le_of_dvd (by omega) hdvd
  omega

/-- What holds of the ends of the frames of a steady stream. -/
structure Paced (t : A → ℕ) (g u k tol : ℕ) (l : List (A × A)) (f : Frames A) : Prop where
  turns : ∀ w ∈ f.closed, t w.2 / u % k = 0
  chain : f.closed.IsChain fun w w' => t w'.2 / u = t w.2 / u + k
  /-- Where nothing is open, the last interval has closed a frame. -/
  idle : f.opened = none → f.closed.getLast?.map (·.2) = l.getLast?.map (·.2)
  behind : ∀ w, f.opened = some w → ∀ e, f.closed.getLast?.map (·.2) = some e →
    t e ≤ t w.1 ∧ t w.1 ≤ t e + g ∧ Behind u k tol (t e) (t w.1) (t w.2)

/-- Where the frame that the next interval belongs to stands after the one before. -/
theorem Paced.start (h : Paced t g u k tol l (framing due l)) (hshort : Short t u k tol l (framing due l)) (hu : 0 < u)
    (hk : 0 < k) (hg : g ≤ u) (hpace : 2 * g + tol ≤ k * u) (hs : Steady t g (l ++ [x])) {e : A}
    (he : (framing due l).closed.getLast?.map (·.2) = some e) :
    let start := ((framing due l).opened.map (·.1)).getD x.1
    t e ≤ t start ∧ t start ≤ t e + g ∧ t x.2 / u ≤ t e / u + k := by
  cases ho : (framing due l).opened with
  | none =>
    obtain ⟨y, hy, rfl⟩ := Option.map_eq_some_iff.1 ((h.idle ho).symm.trans he)
    obtain ⟨hfrom, hto⟩ := hs.next hy
    have hx := hs.last.1
    exact ⟨hfrom, by simp only [Option.map_none, Option.getD_none]; omega,
      (div_le_succ hu (hto.trans (Nat.add_le_add_left hg _))).trans (Nat.add_le_add_left hk _)⟩
  | some w =>
    obtain ⟨hfrom, hto, hbehind⟩ := h.behind w ho e he
    obtain ⟨y, hy, heq⟩ := Option.map_eq_some_iff.1 (hshort.opened w ho).2.2
    have hnext := (hs.next hy).2
    rw [heq] at hnext
    exact ⟨hfrom, hto, hbehind.reach hu hg hpace hto hnext⟩

theorem paced_framing (hdue : Timely t u k tol due) (hu : 0 < u) (hk : 0 < k) (htol : u < tol) (hg : g ≤ u)
    (hpace : 2 * g + tol ≤ k * u) (hs : Steady t g l) : Paced t g u k tol l (framing due l) := by
  induction l using List.reverseRecOn with
  | nil => exact ⟨by simp, .nil, by simp, by simp⟩
  | append_singleton l x ih =>
    have h := ih hs.init
    have hshort := short_framing hdue hu hk (by omega) hg hs.init
    obtain ⟨hle, -⟩ := hshort.start hu hk (by omega) hg hs
    have hstart := fun e he => h.start hshort hu hk hg hpace hs (e := e) he
    rw [framing_snoc, Frames.add]
    generalize ((framing due l).opened.map (·.1)).getD x.1 = start at hle hstart ⊢
    split
    · next hd =>
      obtain ⟨hturn, -, hlong⟩ := (hdue _ _ hle).1 hd
      refine ⟨fun w hw => ?_, List.isChain_append.2 ⟨h.chain, .singleton _, fun w hw w' hw' => ?_⟩, by simp, by simp⟩
      · rcases List.mem_append.1 hw with hw | hw
        · exact h.turns w hw
        · obtain rfl := List.mem_singleton.1 hw
          exact hturn
      · obtain rfl := Option.some.inj hw'
        obtain ⟨hfrom, -, hreach⟩ := hstart w.2 (by rw [hw]; rfl)
        have hlater : t w.2 / u + 1 ≤ t x.2 / u := by
          rw [← Nat.add_div_right _ hu]
          exact Nat.div_le_div_right (by omega)
        exact eq_next_turn (h.turns w (List.mem_of_getLast? hw)) hturn hlater hreach
    · next hnot =>
      refine ⟨h.turns, h.chain, by simp, fun w hw e he => ?_⟩
      obtain rfl := Option.some.inj hw
      obtain ⟨hfrom, hto, hreach⟩ := hstart e he
      refine ⟨hfrom, hto, ?_⟩
      rcases hreach.lt_or_eq with hlt | heq
      · exact .inl hlt
      · have hpos : t x.2 / u ≠ 0 := by
          rw [heq]
          exact (Nat.add_pos_right _ hk).ne'
        refine .inr ⟨heq, not_le.1 fun hlong => hnot ((hdue _ _ hle).2 ⟨?_, hpos, hlong⟩)⟩
        obtain ⟨w, hw, rfl⟩ := Option.map_eq_some_iff.1 he
        rw [heq, Nat.add_mod_right]
        exact h.turns w (List.mem_of_getLast? hw)

/-- **The frames of a steady stream end on successive turns.** -/
theorem closed_paced (hdue : Timely t u k tol due) (hu : 0 < u) (hk : 0 < k) (htol : u < tol) (hg : g ≤ u)
    (hpace : 2 * g + tol ≤ k * u) (hs : Steady t g l) :
    (framing due l).closed.IsChain fun w w' => t w'.2 / u = t w.2 / u + k :=
  (paced_framing hdue hu hk htol hg hpace hs).chain

end Agilex.Lib.Framing
