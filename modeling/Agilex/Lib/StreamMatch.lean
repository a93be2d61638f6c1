import Mathlib.Algebra.Order.Ring.Abs
import Mathlib.Data.List.Sort
import Mathlib.Tactic.Linarith

/-!
# Matching two increasing streams within a tolerance

Two streams `R` and `D`, keyed by `f` and `g`, arrive through two buffers `a` and `b`; elements leave the buffers in
pairs within `tol` of each other or alone. `pairsWithin` is the list of all pairs within `tol`.

`Progress` relates what has arrived, what is buffered and the pairs made so far; it is kept by an arrival on either side
(`Progress.push_left`, `Progress.push_right`), by a match (`Progress.take`), and by dropping an element that is too far
behind the other side (`Progress.drop_left`, `Progress.drop_right`). When elements on each side are more than `2 * tol`
apart, the pairs made are a prefix of `pairsWithin` (`Progress.isPrefix`), and all of it once a buffer is empty
(`Progress.eq`). `Trimmed` is what dropping alone does, for elements that may be closer.
-/

namespace Agilex.Lib.StreamMatch

variable {A B α : Type} [CommRing α] [LinearOrder α] [IsStrictOrderedRing α]

/-- Keys increase by more than `gap` from one element to the next. -/
def Spaced (f : A → α) (gap : α) (l : List A) : Prop := l.Pairwise fun x y => f x + gap < f y

/-- The pairs within `tol`, in the order of the left stream. -/
def pairsWithin (f : A → α) (g : B → α) (tol : α) (R : List A) (D : List B) : List (A × B) :=
  R.flatMap fun r => (D.filter fun d => decide (|f r - g d| ≤ tol)).map fun d => (r, d)

variable {f : A → α} {g : B → α} {tol : α} {R : List A} {D : List B}

omit [IsStrictOrderedRing α] in
theorem mem_pairsWithin {p : A × B} : p ∈ pairsWithin f g tol R D ↔ p.1 ∈ R ∧ p.2 ∈ D ∧ |f p.1 - g p.2| ≤ tol := by
  obtain ⟨r, d⟩ := p
  simp only [pairsWithin, List.mem_flatMap, List.mem_map, List.mem_filter, decide_eq_true_eq, Prod.mk.injEq]
  constructor
  · rintro ⟨r, hr, d, ⟨hd, h⟩, rfl, rfl⟩; exact ⟨hr, hd, h⟩
  · rintro ⟨hr, hd, h⟩; exact ⟨r, hr, d, ⟨hd, h⟩, rfl, rfl⟩

omit [IsStrictOrderedRing α] in
/-- Elements of a spaced list whose keys are within the gap are equal. -/
theorem Spaced.eq_of_near {gap : α} {l : List A} (h : Spaced f gap l) {x y : A} (hx : x ∈ l) (hy : y ∈ l)
    (hxy : f x ≤ f y + gap) (hyx : f y ≤ f x + gap) : x = y := by
  induction l with
  | nil => cases hx
  | cons z l ih =>
    obtain ⟨hz, hl⟩ := List.pairwise_cons.1 h
    rcases List.mem_cons.1 hx with hx | hx <;> rcases List.mem_cons.1 hy with hy | hy
    · rw [hx, hy]
    · exact absurd (hx ▸ hz y hy) (not_lt.2 hyx)
    · exact absurd (hy ▸ hz x hx) (not_lt.2 hxy)
    · exact ih hl hx hy

/-- A strictly increasing list whose elements a longer one has, and has only at the front, is a prefix of it. -/
theorem prefix_of_front {γ : Type} {lt : γ → γ → Prop} (hlt : ∀ x y, lt x y → ¬lt y x) :
    ∀ {M W : List γ}, M.Pairwise lt → W.Pairwise lt → (∀ m ∈ M, m ∈ W) → (∀ w ∈ W, w ∈ M ∨ ∀ m ∈ M, lt m w) → M <+: W
  | [], _, _, _, _, _ => List.nil_prefix
  | m :: M, [], _, _, hsub, _ => absurd (hsub m List.mem_cons_self) (by simp)
  | m :: M, w :: W, hM, hW, hsub, hfront => by
    obtain ⟨hm, hM'⟩ := List.pairwise_cons.1 hM
    obtain ⟨hw, hW'⟩ := List.pairwise_cons.1 hW
    have hmw : m = w := by
      rcases List.mem_cons.1 (hsub m List.mem_cons_self) with h | h
      · exact h
      · -- `w` precedes `m` in the longer list, so it is not after all of the shorter one
        rcases hfront w List.mem_cons_self with h' | h'
        · rcases List.mem_cons.1 h' with h' | h'
          · exact h'.symm
          · exact absurd (hm w h') (hlt _ _ (hw m h))
        · exact absurd (h' m List.mem_cons_self) (hlt _ _ (hw m h))
    subst hmw
    refine List.cons_prefix_cons.2 ⟨rfl, prefix_of_front hlt hM' hW' (fun x hx => ?_) (fun x hx => ?_)⟩
    · rcases List.mem_cons.1 (hsub x (List.mem_cons_of_mem _ hx)) with h | h
      · exact absurd (hm x hx) (h ▸ hlt _ _ (h ▸ hm x hx))
      · exact h
    · rcases hfront x (List.mem_cons_of_mem _ hx) with h | h
      · rcases List.mem_cons.1 h with h | h
        · exact absurd (hw x hx) (h ▸ hlt _ _ (h ▸ hw x hx))
        · exact Or.inl h
      · exact Or.inr fun y hy => h y (List.mem_cons_of_mem _ hy)

/-! ## What has arrived, what is buffered, and the pairs made -/

/-- The pairs `M` made so far from the arrived streams `R` and `D`, with `a` and `b` still buffered. An element that
left its buffer is in a pair or too far behind the other stream for any later partner (`left_gone`, `right_gone`). -/
structure Progress (f : A → α) (g : B → α) (tol : α) (R : List A) (D : List B) (a : List A) (b : List B)
    (M : List (A × B)) : Prop where
  left_sub : ∀ r ∈ a, r ∈ R
  right_sub : ∀ d ∈ b, d ∈ D
  sound : ∀ p ∈ M, p.1 ∈ R ∧ p.2 ∈ D ∧ |f p.1 - g p.2| ≤ tol
  left_gone : ∀ r ∈ R, r ∈ a ∨ (∃ d, (r, d) ∈ M) ∨ ∃ d ∈ D, f r + tol < g d
  right_gone : ∀ d ∈ D, d ∈ b ∨ (∃ r, (r, d) ∈ M) ∨ ∃ r ∈ R, g d + tol < f r
  complete : ∀ r ∈ R, ∀ d ∈ D, |f r - g d| ≤ tol → (r, d) ∈ M ∨ r ∈ a ∧ d ∈ b
  ordered : M.Pairwise fun p q => f p.1 < f q.1
  ahead : ∀ p ∈ M, ∀ r ∈ a, f p.1 < f r

omit [IsStrictOrderedRing α] in
theorem Progress.nil : Progress f g tol [] [] [] [] [] := by
  constructor <;> simp

variable {a : List A} {b : List B} {M : List (A × B)}

/-- **An arrival on the left.** -/
theorem Progress.push_left (h : Progress f g tol R D a b M) {r : A} (hR : Spaced f (2 * tol) (R ++ [r])) (htol : 0 ≤ tol) :
    Progress f g tol (R ++ [r]) D (a ++ [r]) b M := by
  have hnew : ∀ x ∈ R, f x + 2 * tol < f r := fun x hx => (List.pairwise_append.1 hR).2.2 x hx r (by simp)
  refine ⟨?_, h.right_sub, ?_, ?_, ?_, ?_, h.ordered, ?_⟩
  · intro x hx
    rcases List.mem_append.1 hx with hx | hx
    · exact List.mem_append_left _ (h.left_sub x hx)
    · exact List.mem_append_right _ hx
  · intro p hp
    obtain ⟨h1, h2, h3⟩ := h.sound p hp
    exact ⟨List.mem_append_left _ h1, h2, h3⟩
  · intro x hx
    rcases List.mem_append.1 hx with hx | hx
    · exact (h.left_gone x hx).imp_left (List.mem_append_left _)
    · exact Or.inl (List.mem_append_right _ hx)
  · intro d hd
    refine (h.right_gone d hd).imp_right (Or.imp_right ?_)
    rintro ⟨x, hx, hlt⟩
    exact ⟨x, List.mem_append_left _ hx, hlt⟩
  · intro x hx d hd hxd
    rcases List.mem_append.1 hx with hx | hx
    · exact (h.complete x hx d hd hxd).imp_right fun hab => ⟨List.mem_append_left _ hab.1, hab.2⟩
    · -- a partner of the new element cannot have left its buffer: it would be close to an older element
      obtain rfl : x = r := by simpa using hx
      refine Or.inr ⟨List.mem_append_right _ hx, ?_⟩
      have hb := abs_le.1 hxd
      rcases h.right_gone d hd with h' | ⟨y, hy⟩ | ⟨y, hy, hlt⟩
      · exact h'
      · have hs := h.sound _ hy
        have := hnew y hs.1
        have := abs_le.1 hs.2.2
        simp only at *
        linarith
      · have := hnew y hy
        linarith
  · intro p hp x hx
    rcases List.mem_append.1 hx with hx | hx
    · exact h.ahead p hp x hx
    · obtain rfl : x = r := by simpa using hx
      have := hnew p.1 (h.sound p hp).1
      linarith

/-- **An arrival on the right.** -/
theorem Progress.push_right (h : Progress f g tol R D a b M) {d : B} (hD : Spaced g (2 * tol) (D ++ [d])) (htol : 0 ≤ tol) :
    Progress f g tol R (D ++ [d]) a (b ++ [d]) M := by
  have hnew : ∀ x ∈ D, g x + 2 * tol < g d := fun x hx => (List.pairwise_append.1 hD).2.2 x hx d (by simp)
  refine ⟨h.left_sub, ?_, ?_, ?_, ?_, ?_, h.ordered, h.ahead⟩
  · intro x hx
    rcases List.mem_append.1 hx with hx | hx
    · exact List.mem_append_left _ (h.right_sub x hx)
    · exact List.mem_append_right _ hx
  · intro p hp
    obtain ⟨h1, h2, h3⟩ := h.sound p hp
    exact ⟨h1, List.mem_append_left _ h2, h3⟩
  · intro r hr
    refine (h.left_gone r hr).imp_right (Or.imp_right ?_)
    rintro ⟨x, hx, hlt⟩
    exact ⟨x, List.mem_append_left _ hx, hlt⟩
  · intro x hx
    rcases List.mem_append.1 hx with hx | hx
    · exact (h.right_gone x hx).imp_left (List.mem_append_left _)
    · exact Or.inl (List.mem_append_right _ hx)
  · intro r hr x hx hrx
    rcases List.mem_append.1 hx with hx | hx
    · exact (h.complete r hr x hx hrx).imp_right fun hab => ⟨hab.1, List.mem_append_left _ hab.2⟩
    · obtain rfl : x = d := by simpa using hx
      refine Or.inr ⟨?_, List.mem_append_right _ hx⟩
      have hb := abs_le.1 hrx
      rcases h.left_gone r hr with h' | ⟨y, hy⟩ | ⟨y, hy, hlt⟩
      · exact h'
      · have hs := h.sound _ hy
        have := hnew y hs.2.1
        have := abs_le.1 hs.2.2
        simp only at *
        linarith
      · have := hnew y hy
        linarith

/-- **A match** of the oldest element on the left with any buffered element on the right. -/
theorem Progress.take {r : A} {b₁ b₂ : List B} {d : B} (h : Progress f g tol R D (r :: a) (b₁ ++ d :: b₂) M)
    (hR : Spaced f (2 * tol) R) (hD : Spaced g (2 * tol) D) (ha : ∀ x ∈ a, f r < f x) (hrd : |f r - g d| ≤ tol) :
    Progress f g tol R D a (b₁ ++ b₂) (M ++ [(r, d)]) := by
  have hr := h.left_sub r List.mem_cons_self
  have hd := h.right_sub d (by simp)
  have hb := abs_le.1 hrd
  have hmem : ∀ x, x ∈ b₁ ++ d :: b₂ → x ∈ b₁ ++ b₂ ∨ x = d := by
    intro x hx
    simp only [List.mem_append, List.mem_cons] at hx ⊢
    tauto
  refine ⟨fun x hx => h.left_sub x (List.mem_cons_of_mem _ hx), fun x hx => h.right_sub x ?_, ?_, ?_, ?_, ?_, ?_, ?_⟩
  · simp only [List.mem_append, List.mem_cons] at hx ⊢
    tauto
  · intro p hp
    rcases List.mem_append.1 hp with hp | hp
    · exact h.sound p hp
    · obtain rfl : p = (r, d) := by simpa using hp
      exact ⟨hr, hd, hrd⟩
  · intro x hx
    rcases h.left_gone x hx with h' | ⟨y, hy⟩ | h'
    · rcases List.mem_cons.1 h' with rfl | h'
      · exact Or.inr (Or.inl ⟨d, by simp⟩)
      · exact Or.inl h'
    · exact Or.inr (Or.inl ⟨y, List.mem_append_left _ hy⟩)
    · exact Or.inr (Or.inr h')
  · intro x hx
    rcases h.right_gone x hx with h' | ⟨y, hy⟩ | h'
    · rcases hmem x h' with h' | rfl
      · exact Or.inl h'
      · exact Or.inr (Or.inl ⟨r, by simp⟩)
    · exact Or.inr (Or.inl ⟨y, List.mem_append_left _ hy⟩)
    · exact Or.inr (Or.inr h')
  · intro x hx y hy hxy
    have hxy' := abs_le.1 hxy
    rcases h.complete x hx y hy hxy with h' | ⟨h1, h2⟩
    · exact Or.inl (List.mem_append_left _ h')
    · rcases List.mem_cons.1 h1 with rfl | h1
      · obtain rfl : y = d := hD.eq_of_near hy hd (by linarith) (by linarith)
        exact Or.inl (by simp)
      · rcases hmem y h2 with h2 | rfl
        · exact Or.inr ⟨h1, h2⟩
        · obtain rfl : x = r := hR.eq_of_near hx hr (by linarith) (by linarith)
          exact Or.inl (by simp)
  · refine List.pairwise_append.2 ⟨h.ordered, by simp, fun p hp q hq => ?_⟩
    obtain rfl : q = (r, d) := by simpa using hq
    exact h.ahead p hp r List.mem_cons_self
  · intro p hp x hx
    rcases List.mem_append.1 hp with hp | hp
    · exact h.ahead p hp x (List.mem_cons_of_mem _ hx)
    · obtain rfl : p = (r, d) := by simpa using hp
      exact ha x hx

/-- **The oldest element on the left is dropped** when everything on the right is too far ahead of it. -/
theorem Progress.drop_left {r : A} (h : Progress f g tol R D (r :: a) b M) (hb : ∀ d ∈ b, f r + tol < g d)
    (hne : b ≠ []) : Progress f g tol R D a b M := by
  refine ⟨fun x hx => h.left_sub x (List.mem_cons_of_mem _ hx), h.right_sub, h.sound, ?_, h.right_gone, ?_, h.ordered,
    fun p hp x hx => h.ahead p hp x (List.mem_cons_of_mem _ hx)⟩
  · intro x hx
    rcases h.left_gone x hx with h' | h'
    · rcases List.mem_cons.1 h' with rfl | h'
      · obtain ⟨d, hd⟩ := List.exists_mem_of_ne_nil b hne
        exact Or.inr (Or.inr ⟨d, h.right_sub d hd, hb d hd⟩)
      · exact Or.inl h'
    · exact Or.inr h'
  · intro x hx y hy hxy
    rcases h.complete x hx y hy hxy with h' | ⟨h1, h2⟩
    · exact Or.inl h'
    · rcases List.mem_cons.1 h1 with rfl | h1
      · have := hb y h2
        have := abs_le.1 hxy
        linarith
      · exact Or.inr ⟨h1, h2⟩

/-- **The oldest element on the right is dropped** when everything on the left is too far ahead of it. -/
theorem Progress.drop_right {d : B} (h : Progress f g tol R D a (d :: b) M) (ha : ∀ r ∈ a, g d + tol < f r)
    (hne : a ≠ []) : Progress f g tol R D a b M := by
  refine ⟨h.left_sub, fun x hx => h.right_sub x (List.mem_cons_of_mem _ hx), h.sound, h.left_gone, ?_, ?_, h.ordered,
    h.ahead⟩
  · intro x hx
    rcases h.right_gone x hx with h' | h'
    · rcases List.mem_cons.1 h' with rfl | h'
      · obtain ⟨r, hr⟩ := List.exists_mem_of_ne_nil a hne
        exact Or.inr (Or.inr ⟨r, h.left_sub r hr, ha r hr⟩)
      · exact Or.inl h'
    · exact Or.inr h'
  · intro x hx y hy hxy
    rcases h.complete x hx y hy hxy with h' | ⟨h1, h2⟩
    · exact Or.inl h'
    · rcases List.mem_cons.1 h2 with rfl | h2
      · have := ha x h1
        have := abs_le.1 hxy
        linarith
      · exact Or.inr ⟨h1, h2⟩

/-! ## The pairs made are the pairs within the tolerance -/

/-- Each left element of spaced streams has at most one partner, so the pairs increase with the left stream. -/
theorem pairsWithin_ordered (hR : Spaced f (2 * tol) R) (hD : Spaced g (2 * tol) D) (htol : 0 ≤ tol) :
    (pairsWithin f g tol R D).Pairwise fun p q => f p.1 < f q.1 := by
  unfold pairsWithin
  rw [List.pairwise_flatMap]
  refine ⟨fun r _ => ?_, hR.imp fun {x y} hxy p hp q hq => ?_⟩
  · rw [List.pairwise_map]
    have hone : (D.filter fun d => decide (|f r - g d| ≤ tol)).Pairwise fun _ _ => False := by
      refine List.Pairwise.imp_of_mem ?_ (List.Pairwise.filter _ hD)
      intro u v hu hv huv
      have h1 := abs_le.1 (of_decide_eq_true (List.mem_filter.1 hu).2)
      have h2 := abs_le.1 (of_decide_eq_true (List.mem_filter.1 hv).2)
      linarith
    exact hone.imp fun h => h.elim
  · obtain ⟨_, _, rfl⟩ := List.mem_map.1 hp
    obtain ⟨_, _, rfl⟩ := List.mem_map.1 hq
    simp only
    linarith

/-- **The pairs made are a prefix of the pairs within the tolerance.** -/
theorem Progress.isPrefix (h : Progress f g tol R D a b M) (hR : Spaced f (2 * tol) R) (hD : Spaced g (2 * tol) D)
    (htol : 0 ≤ tol) : M <+: pairsWithin f g tol R D := by
  refine prefix_of_front (fun x y hxy => not_lt.2 hxy.le) h.ordered (pairsWithin_ordered hR hD htol)
    (fun p hp => mem_pairsWithin.2 (h.sound p hp)) (fun w hw => ?_)
  obtain ⟨h1, h2, h3⟩ := mem_pairsWithin.1 hw
  exact (h.complete w.1 h1 w.2 h2 h3).imp_right fun hab m hm => h.ahead m hm w.1 hab.1

/-- **Once a buffer is empty, the pairs made are all the pairs within the tolerance.** -/
theorem Progress.eq (h : Progress f g tol R D a b M) (hR : Spaced f (2 * tol) R) (hD : Spaced g (2 * tol) D)
    (htol : 0 ≤ tol) (he : a = [] ∨ b = []) : M = pairsWithin f g tol R D := by
  have hp := h.isPrefix hR hD htol
  have hW := pairsWithin_ordered (R := R) (D := D) hR hD htol
  have hsub : ∀ w ∈ pairsWithin f g tol R D, w ∈ M := by
    intro w hw
    obtain ⟨h1, h2, h3⟩ := mem_pairsWithin.1 hw
    rcases h.complete w.1 h1 w.2 h2 h3 with h' | ⟨h4, h5⟩
    · exact h'
    · rcases he with rfl | rfl
      · cases h4
      · cases h5
  have hq := prefix_of_front (fun x y hxy => not_lt.2 hxy.le) hW h.ordered hsub fun w hw => Or.inl (hp.subset hw)
  exact hp.sublist.antisymm hq.sublist

/-! ## Dropping what is too far behind -/

/-- What is left of the buffers `a` and `b`, as `a'` and `b'`, once elements too far behind the other side have been
dropped: elements within the tolerance are both left (`near`), and one that is not left is behind an element of the other
buffer (`left_behind`, `right_behind`). -/
structure Trimmed (f : A → α) (g : B → α) (tol : α) (a : List A) (b : List B) (a' : List A) (b' : List B) : Prop where
  left_sub : ∀ x ∈ a', x ∈ a
  right_sub : ∀ y ∈ b', y ∈ b
  near : ∀ x ∈ a, ∀ y ∈ b, |f x - g y| ≤ tol → x ∈ a' ∧ y ∈ b'
  left_behind : ∀ x ∈ a, x ∈ a' ∨ ∃ y ∈ b, f x + tol < g y
  right_behind : ∀ y ∈ b, y ∈ b' ∨ ∃ x ∈ a, g y + tol < f x

omit [IsStrictOrderedRing α] in
theorem Trimmed.refl : Trimmed f g tol a b a b where
  left_sub _ hx := hx
  right_sub _ hy := hy
  near _ hx _ hy _ := ⟨hx, hy⟩
  left_behind _ hx := Or.inl hx
  right_behind _ hy := Or.inl hy

variable {a' : List A} {b' : List B}

/-- The oldest element on the left is dropped. -/
theorem Trimmed.drop_left {x : A} {y : B} (h : Trimmed f g tol a b (x :: a') (y :: b')) (hb : ∀ z ∈ b', g y ≤ g z)
    (hfar : f x + tol < g y) : Trimmed f g tol a b a' (y :: b') where
  left_sub z hz := h.left_sub z (List.mem_cons_of_mem _ hz)
  right_sub := h.right_sub
  near u hu v hv huv := by
    obtain ⟨hu', hv'⟩ := h.near u hu v hv huv
    refine ⟨(List.mem_cons.1 hu').resolve_left ?_, hv'⟩
    rintro rfl
    have hyv : g y ≤ g v := by
      rcases List.mem_cons.1 hv' with rfl | hv'
      · exact le_rfl
      · exact hb v hv'
    linarith [abs_le.1 huv]
  left_behind u hu := by
    rcases h.left_behind u hu with hu' | hu'
    · rcases List.mem_cons.1 hu' with rfl | hu'
      · exact Or.inr ⟨y, h.right_sub y List.mem_cons_self, hfar⟩
      · exact Or.inl hu'
    · exact Or.inr hu'
  right_behind := h.right_behind

/-- The oldest element on the right is dropped. -/
theorem Trimmed.drop_right {x : A} {y : B} (h : Trimmed f g tol a b (x :: a') (y :: b')) (ha : ∀ z ∈ a', f x ≤ f z)
    (hfar : g y + tol < f x) : Trimmed f g tol a b (x :: a') b' where
  left_sub := h.left_sub
  right_sub z hz := h.right_sub z (List.mem_cons_of_mem _ hz)
  near u hu v hv huv := by
    obtain ⟨hu', hv'⟩ := h.near u hu v hv huv
    refine ⟨hu', (List.mem_cons.1 hv').resolve_left ?_⟩
    rintro rfl
    have hxu : f x ≤ f u := by
      rcases List.mem_cons.1 hu' with rfl | hu'
      · exact le_rfl
      · exact ha u hu'
    linarith [abs_le.1 huv]
  left_behind := h.left_behind
  right_behind v hv := by
    rcases h.right_behind v hv with hv' | hv'
    · rcases List.mem_cons.1 hv' with rfl | hv'
      · exact Or.inr ⟨x, h.left_sub x List.mem_cons_self, hfar⟩
      · exact Or.inl hv'
    · exact Or.inr hv'

end Agilex.Lib.StreamMatch
