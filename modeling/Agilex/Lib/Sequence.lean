import Mathlib.Data.List.Basic
import Mathlib.Data.List.Induction
import Mathlib.Data.List.Sort
import Mathlib.Order.Basic

/-!
# Sequences: first minima, bisection, neighbours, dictionaries in insertion order

- `argminIdx f l` is the index of the first element of `l` with the least key (`argminIdx_spec`), and `firstMin f l` that
  element (`firstMin_le`), for keys of any type;
- `bisectLeft l x` is the number of leading elements below `x` (`bisectLeft_lt`, `bisectLeft_ge`);
- `Adjacent l a b` says that `a` and `b` are neighbours in `l`; around one value they are determined (`Adjacent.around`);
- `Dict` keeps the insertion order of its keys: setting a key again changes its value in place (`Dict.lookup_set`), and
  removing a key takes away one value (`Dict.Keyed.perm_erase`);
- `lastWith key k l` is the last element of `l` with key `k`; in a dictionary of values by key it is the value of `k`
  (`lastWith_values`);
- `lastValue g l b` is the value that the last element with one gives (`lastValue_eq_iff`).
-/

namespace Agilex.Lib

/-! ## The first minimum -/

/-- The index of the first element with the least key. -/
def argminIdx {A : Type} (f : A → ℤ) : List A → ℕ
  | [] => 0
  | [_] => 0
  | x :: y :: l =>
    let j := argminIdx f (y :: l)
    if f x ≤ f ((y :: l).getD j y) then 0 else j + 1

/-- The list splits at the first minimum. -/
theorem argminIdx_spec {A : Type} (f : A → ℤ) (d : A) : ∀ {l : List A}, l ≠ [] →
    ∃ l₁ m l₂, l = l₁ ++ m :: l₂ ∧ l.getD (argminIdx f l) d = m ∧ l.eraseIdx (argminIdx f l) = l₁ ++ l₂ ∧
      (∀ x ∈ l, f m ≤ f x) ∧ ∀ x ∈ l₁, f m < f x
  | [], h => absurd rfl h
  | [x], _ => ⟨[], x, [], by simp [argminIdx]⟩
  | x :: y :: l, _ => by
    obtain ⟨l₁, m, l₂, hl, hm, he, hmin, hfirst⟩ := argminIdx_spec f y (l := y :: l) (by simp)
    simp only [argminIdx, hm]
    split
    · rename_i hx
      refine ⟨[], x, y :: l, by simp, by simp, by simp, ?_, by simp⟩
      intro z hz
      rcases List.mem_cons.1 hz with rfl | hz
      · exact le_rfl
      · exact hx.trans (hmin z hz)
    · rename_i hx
      refine ⟨x :: l₁, m, l₂, by rw [hl]; rfl, ?_, by simp [he], ?_, ?_⟩
      · have hlt : argminIdx f (y :: l) < (y :: l).length := by
          by_contra hge
          rw [List.eraseIdx_of_length_le (not_lt.1 hge), hl] at he
          have := congrArg List.length he
          simp at this
        simp only [List.getD_eq_getElem?_getD, List.getElem?_cons_succ, List.getElem?_eq_getElem hlt,
          Option.getD_some] at hm ⊢
        exact hm
      · intro z hz
        rcases List.mem_cons.1 hz with rfl | hz
        · exact (not_le.1 hx).le
        · exact hmin z hz
      · intro z hz
        rcases List.mem_cons.1 hz with rfl | hz
        · exact not_le.1 hx
        · exact hfirst z hz

/-- `min(l, key=f)`: the first element with the least key. -/
def firstMin {A K : Type} [LE K] [DecidableLE K] (f : A → K) : List A → Option A
  | [] => none
  | x :: l =>
    match firstMin f l with
    | none => some x
    | some y => if f x ≤ f y then some x else some y

section FirstMin

variable {A K : Type} [Preorder K] [DecidableLE K] {f : A → K}

theorem firstMin_eq_none {l : List A} : firstMin f l = none ↔ l = [] := by
  cases l with
  | nil => exact iff_of_true rfl rfl
  | cons x l =>
    refine iff_of_false ?_ (List.cons_ne_nil x l)
    unfold firstMin
    cases firstMin f l with
    | none => simp
    | some y =>
      simp only
      split <;> simp

/-- The first element, if none is less, or the one found after it. -/
theorem firstMin_cons {x m : A} {l : List A} (h : firstMin f (x :: l) = some m) :
    (m = x ∧ ∀ y, firstMin f l = some y → f x ≤ f y) ∨ (firstMin f l = some m ∧ ¬f x ≤ f m) := by
  unfold firstMin at h
  cases hl : firstMin f l with
  | none =>
    rw [hl] at h
    exact Or.inl ⟨(Option.some.inj h).symm, fun y hy => (nomatch hy)⟩
  | some y =>
    rw [hl] at h
    simp only at h
    split at h
    · rename_i hxy
      refine Or.inl ⟨(Option.some.inj h).symm, fun z hz => ?_⟩
      obtain rfl := Option.some.inj hz
      exact hxy
    · rename_i hxy
      obtain rfl := Option.some.inj h
      exact Or.inr ⟨rfl, hxy⟩

theorem firstMin_mem {l : List A} {m : A} (h : firstMin f l = some m) : m ∈ l := by
  induction l generalizing m with
  | nil => cases h
  | cons x l ih =>
    rcases firstMin_cons h with ⟨rfl, -⟩ | ⟨hm, -⟩
    · exact List.mem_cons_self
    · exact List.mem_cons_of_mem _ (ih hm)

/-- Its key is least. -/
theorem firstMin_le [Std.Total fun a b : K => a ≤ b] {l : List A} {m : A} (h : firstMin f l = some m) :
    ∀ x ∈ l, f m ≤ f x := by
  induction l generalizing m with
  | nil => cases h
  | cons x l ih =>
    rcases firstMin_cons h with ⟨rfl, hfirst⟩ | ⟨hm, hless⟩
    · refine List.forall_mem_cons.mpr ⟨le_refl _, fun z hz => ?_⟩
      cases hl : firstMin f l with
      | none => exact absurd hz (firstMin_eq_none.mp hl ▸ List.not_mem_nil)
      | some y => exact le_trans (hfirst y hl) (ih hl z hz)
    · exact List.forall_mem_cons.mpr ⟨(Std.Total.total (r := fun a b : K => a ≤ b) _ _).resolve_right hless, ih hm⟩

end FirstMin

/-! ## Bisection -/

/-- The number of leading elements below `x`: in a sorted list, the leftmost insertion point of `x`. -/
def bisectLeft (l : List ℤ) (x : ℤ) : ℕ := (l.takeWhile (· < x)).length

theorem bisectLeft_cons (y : ℤ) (l : List ℤ) (x : ℤ) :
    bisectLeft (y :: l) x = if y < x then bisectLeft l x + 1 else 0 := by
  by_cases h : y < x <;> simp [bisectLeft, h]

/-- Elements below `x` in front move the insertion point by their number. -/
theorem bisectLeft_append {l₁ : List ℤ} (l₂ : List ℤ) {x : ℤ} (h : ∀ y ∈ l₁, y < x) :
    bisectLeft (l₁ ++ l₂) x = l₁.length + bisectLeft l₂ x := by
  induction l₁ with
  | nil => simp
  | cons y l₁ ih =>
    rw [List.cons_append, bisectLeft_cons, if_pos (h y List.mem_cons_self), ih fun z hz => h z (List.mem_cons_of_mem _ hz),
      List.length_cons]
    omega

/-- Everything before the insertion point is below. -/
theorem bisectLeft_lt {l : List ℤ} {x y : ℤ} {i : ℕ} (hi : i < bisectLeft l x) (h : l[i]? = some y) : y < x := by
  induction l generalizing i with
  | nil => simp at h
  | cons z l ih =>
    rw [bisectLeft_cons] at hi
    split at hi
    · cases i with
      | zero =>
        simp only [List.getElem?_cons_zero, Option.some.injEq] at h
        omega
      | succ i => exact ih (i := i) (by omega) (by simpa using h)
    · omega

/-- The element at the insertion point is not below. -/
theorem bisectLeft_ge {l : List ℤ} {x y : ℤ} (h : l[bisectLeft l x]? = some y) : x ≤ y := by
  induction l with
  | nil => simp at h
  | cons z l ih =>
    rw [bisectLeft_cons] at h
    split at h
    · exact ih (by simpa using h)
    · simp only [List.getElem?_cons_zero, Option.some.injEq] at h
      omega

/-! ## Neighbours -/

/-- `a` and `b` are adjacent in `l`. -/
def Adjacent {A : Type} (l : List A) (a b : A) : Prop := ∃ pre post, l = pre ++ a :: b :: post

theorem adjacent_of_getElem? {A : Type} {l : List A} {j : ℕ} {a b : A} (ha : l[j]? = some a) (hb : l[j + 1]? = some b) :
    Adjacent l a b := by
  induction l generalizing j with
  | nil => simp at ha
  | cons x l ih =>
    cases j with
    | zero =>
      cases l with
      | nil => simp at hb
      | cons y l =>
        simp only [List.getElem?_cons_zero, List.getElem?_cons_succ, Option.some.injEq, Nat.zero_add] at ha hb
        exact ⟨[], l, by rw [ha, hb]; rfl⟩
    | succ j =>
      obtain ⟨pre, post, h⟩ := ih (j := j) (by simpa using ha) (by simpa using hb)
      exact ⟨x :: pre, post, by rw [h]; rfl⟩

/-- Neighbours in a part of a list are neighbours in the list. -/
theorem Adjacent.infix {A : Type} {l l' : List A} {a b : A} (h : Adjacent l a b) (hl : l <:+: l') : Adjacent l' a b := by
  obtain ⟨pre, post, rfl⟩ := h
  obtain ⟨s, t, rfl⟩ := hl
  exact ⟨s ++ pre, post ++ t, by simp⟩

/-- An element of an increasing list that is not before the first of two neighbours is that one or not before the
second. -/
theorem Adjacent.between {A : Type} {f : A → ℤ} {l : List A} (hl : l.Pairwise fun x y => f x < f y) {a b c : A}
    (h : Adjacent l a b) (hc : c ∈ l) (hac : f a < f c) : f b ≤ f c := by
  obtain ⟨pre, post, rfl⟩ := h
  obtain ⟨-, hab, hpre⟩ := List.pairwise_append.1 hl
  have hb := (List.pairwise_cons.1 (List.pairwise_cons.1 hab).2).1
  rcases List.mem_append.1 hc with hc | hc
  · have := hpre c hc a List.mem_cons_self
    omega
  · rcases List.mem_cons.1 hc with rfl | hc
    · omega
    · rcases List.mem_cons.1 hc with rfl | hc
      · exact le_rfl
      · exact (hb c hc).le

/-- Two pairs of neighbours around one value in an increasing list are the same pair, or the value is the element they
share. -/
theorem Adjacent.around {A : Type} {f : A → ℤ} {l : List A} (hl : l.Pairwise fun x y => f x < f y) {a b a' b' : A}
    (h : Adjacent l a b) (h' : Adjacent l a' b') {q : ℤ} (ha : f a ≤ q) (hb : q ≤ f b) (ha' : f a' ≤ q) (hb' : q ≤ f b') :
    f a = f a' ∧ f b = f b' ∨ f b = q ∧ f a' = q ∨ f b' = q ∧ f a = q := by
  have hmem : ∀ {x y : A}, Adjacent l x y → x ∈ l ∧ y ∈ l := by
    rintro x y ⟨pre, post, rfl⟩
    simp
  rcases lt_trichotomy (f a) (f a') with hlt | heq | hlt
  · have := h.between hl (hmem h').1 hlt
    exact Or.inr (Or.inl ⟨by omega, by omega⟩)
  · have hlt : ∀ {x y : A}, Adjacent l x y → f x < f y := by
      rintro x y ⟨pre, post, rfl⟩
      exact (List.pairwise_cons.1 (List.pairwise_append.1 hl).2.1).1 y List.mem_cons_self
    have h1 := h.between hl (hmem h').2 (heq ▸ hlt h')
    have h2 := h'.between hl (hmem h).2 (heq ▸ hlt h)
    exact Or.inl ⟨heq, by omega⟩
  · have := h'.between hl (hmem h).1 hlt
    exact Or.inr (Or.inr ⟨by omega, by omega⟩)

/-! ## Dictionaries in insertion order -/

/-- A dictionary: keys with their values in the order the keys were first set. -/
abbrev Dict (K V : Type) := List (K × V)

namespace Dict

variable {K V : Type} [DecidableEq K]

/-- `d[k] = v`. -/
def set : Dict K V → K → V → Dict K V
  | [], k, v => [(k, v)]
  | (k', v') :: d, k, v => if k' = k then (k, v) :: d else (k', v') :: set d k v

/-- `list(d.values())`. -/
def values (d : Dict K V) : List V := d.map Prod.snd

theorem lookup_set (d : Dict K V) (k k' : K) (v : V) :
    List.lookup k' (set d k v) = if k' = k then some v else List.lookup k' d := by
  induction d with
  | nil =>
    by_cases h : k' = k
    · subst h
      simp [set]
    · have hb : (k' == k) = false := beq_eq_false_iff_ne.2 h
      simp [set, List.lookup_cons, h, hb]
  | cons p d ih =>
    obtain ⟨k₁, v₁⟩ := p
    by_cases h₁ : k₁ = k
    · subst h₁
      by_cases h : k' = k₁
      · subst h
        simp [set]
      · have hb : (k' == k₁) = false := beq_eq_false_iff_ne.2 h
        simp [set, List.lookup_cons, h, hb]
    · by_cases h : k' = k₁
      · subst h
        simp [set, h₁]
      · have hb : (k' == k₁) = false := beq_eq_false_iff_ne.2 h
        simp only [set, h₁, ↓reduceIte, List.lookup_cons, hb]
        exact ih

/-- A new key is appended. -/
theorem set_new {d : Dict K V} {k : K} (v : V) (h : k ∉ d.map Prod.fst) : set d k v = d ++ [(k, v)] := by
  induction d with
  | nil => rfl
  | cons p d ih =>
    obtain ⟨k₁, v₁⟩ := p
    simp only [List.map_cons, List.mem_cons, not_or] at h
    rw [set, if_neg (Ne.symm h.1), ih h.2, List.cons_append]

/-- A key that was never set has no value. -/
theorem lookup_none {d : Dict K V} {k : K} (h : k ∉ d.map Prod.fst) : List.lookup k d = none := by
  rw [List.lookup_eq_none_iff]
  intro p hp
  simpa using fun (heq : k = p.1) => h (heq ▸ List.mem_map_of_mem hp)

theorem mem_values_set {d : Dict K V} {k : K} {v x : V} (h : x ∈ values (set d k v)) : x = v ∨ x ∈ values d := by
  induction d with
  | nil => exact Or.inl (by simpa [set, values] using h)
  | cons p d ih =>
    obtain ⟨k₁, v₁⟩ := p
    by_cases h₁ : k₁ = k
    · simp only [set, h₁, ↓reduceIte, values, List.map_cons, List.mem_cons] at h ⊢
      tauto
    · simp only [set, h₁, ↓reduceIte, values, List.map_cons, List.mem_cons] at h ih ⊢
      rcases h with h | h
      · exact Or.inr (Or.inl h)
      · exact (ih h).imp_right Or.inr

/-- The keys are distinct, and each is the key of its value. -/
structure Keyed (key : V → K) (d : Dict K V) : Prop where
  keys : ∀ p ∈ d, key p.2 = p.1
  nodup : (d.map Prod.fst).Nodup

theorem Keyed.set {key : V → K} {d : Dict K V} (h : Keyed key d) {k : K} {v : V} (hv : key v = k) :
    Keyed key (set d k v) := by
  have hfst : ∀ d : Dict K V, (Dict.set d k v).map Prod.fst = if k ∈ d.map Prod.fst then d.map Prod.fst
      else d.map Prod.fst ++ [k] := by
    intro d
    induction d with
    | nil => simp [Dict.set]
    | cons p d ih =>
      by_cases h₁ : p.1 = k
      · simp [Dict.set, h₁]
      · simp only [Dict.set, h₁, ↓reduceIte, List.map_cons, ih, List.mem_cons, Ne.symm h₁, false_or]
        split <;> simp
  constructor
  · intro p hp
    have hmem : ∀ d : Dict K V, p ∈ Dict.set d k v → p = (k, v) ∨ p ∈ d := by
      intro d
      induction d with
      | nil => simp [Dict.set]
      | cons q d ih =>
        by_cases h₁ : q.1 = k
        · simp only [Dict.set, h₁, ↓reduceIte, List.mem_cons]
          tauto
        · simp only [Dict.set, h₁, ↓reduceIte, List.mem_cons]
          tauto
    rcases hmem d hp with rfl | hp
    · exact hv
    · exact h.keys p hp
  · rw [hfst]
    split
    · exact h.nodup
    · rename_i hk
      refine List.nodup_append.2 ⟨h.nodup, by simp, ?_⟩
      rintro a ha b hb rfl
      obtain rfl := List.mem_singleton.1 hb
      exact hk ha

/-- `del d[k]`. -/
def erase (d : Dict K V) (k : K) : Dict K V := d.filter fun p => p.1 ≠ k

theorem mem_erase {d : Dict K V} {k : K} {p : K × V} : p ∈ erase d k ↔ p ∈ d ∧ p.1 ≠ k := by
  unfold erase
  rw [List.mem_filter, decide_eq_true_eq]

/-- A key that was never set is not there to be removed. -/
theorem erase_new {d : Dict K V} {k : K} (h : k ∉ d.map Prod.fst) : erase d k = d := by
  refine List.filter_eq_self.2 fun p hp => ?_
  rw [decide_eq_true_eq]
  exact fun hk => h (hk ▸ List.mem_map_of_mem hp)

/-- Setting a new key and removing it. -/
theorem erase_set_new {d : Dict K V} {k : K} (v : V) (h : k ∉ d.map Prod.fst) : erase (set d k v) k = d := by
  rw [set_new v h]
  unfold erase
  rw [List.filter_append]
  have hself : List.filter (fun p : K × V => decide (p.1 ≠ k)) [(k, v)] = [] := by simp
  have hrest : List.filter (fun p : K × V => decide (p.1 ≠ k)) d = d := erase_new h
  rw [hself, hrest, List.append_nil]

/-- Setting a key appends a value, or puts it in the place of another. -/
theorem set_subperm (d : Dict K V) (k : K) (v : V) : (values (set d k v)).Subperm (v :: values d) := by
  induction d with
  | nil => exact List.Subperm.refl _
  | cons p d ih =>
    obtain ⟨k₁, v₁⟩ := p
    by_cases h₁ : k₁ = k
    · rw [set, if_pos h₁]
      exact List.Sublist.subperm ((List.sublist_cons_self _ _).cons_cons _)
    · rw [set, if_neg h₁]
      show (v₁ :: values (set d k v)).Subperm (v :: v₁ :: values d)
      exact ((List.subperm_cons v₁).2 ih).trans (List.Perm.swap v v₁ _).subperm

theorem length_set_le (d : Dict K V) (k : K) (v : V) : (set d k v).length ≤ d.length + 1 := by
  have h := (set_subperm d k v).length_le
  simpa only [values, List.length_map, List.length_cons] using h

theorem mem_keys_set {d : Dict K V} {k k' : K} {v : V} (h : k' ∈ (set d k v).map Prod.fst) :
    k' = k ∨ k' ∈ d.map Prod.fst := by
  induction d with
  | nil => exact Or.inl (by simpa [set] using h)
  | cons p d ih =>
    by_cases h₁ : p.1 = k
    · rw [set, if_pos h₁] at h
      rcases List.mem_cons.1 h with h | h
      · exact Or.inl h
      · exact Or.inr (List.mem_cons_of_mem _ h)
    · rw [set, if_neg h₁] at h
      rcases List.mem_cons.1 h with h | h
      · exact Or.inr (h ▸ List.mem_cons_self)
      · exact (ih h).imp_right (List.mem_cons_of_mem _)

theorem Keyed.erase {key : V → K} {d : Dict K V} (h : Keyed key d) (k : K) : Keyed key (erase d k) where
  keys p hp := h.keys p (mem_erase.1 hp).1
  nodup := h.nodup.sublist ((List.filter_sublist).map _)

/-- Removing a key takes away its value and no other. -/
theorem Keyed.perm_erase {key : V → K} {d : Dict K V} (h : Keyed key d) {k : K} {v : V} (hmem : (k, v) ∈ d) :
    d.Perm ((k, v) :: Dict.erase d k) := by
  induction d with
  | nil => cases hmem
  | cons p d ih =>
    have hnodup := h.nodup
    rw [List.map_cons, List.nodup_cons] at hnodup
    rcases List.mem_cons.1 hmem with rfl | hmem
    · have herase : Dict.erase ((k, v) :: d) k = d := by
        rw [Dict.erase, List.filter_cons_of_neg (by simp)]
        exact erase_new hnodup.1
      rw [herase]
    · have hne : p.1 ≠ k := fun hk => hnodup.1 (hk ▸ List.mem_map_of_mem hmem)
      have herase : Dict.erase (p :: d) k = p :: Dict.erase d k := List.filter_cons_of_pos (by simpa using hne)
      have htail : Keyed key d := ⟨fun q hq => h.keys q (List.mem_cons_of_mem _ hq), hnodup.2⟩
      rw [herase]
      exact ((ih htail hmem).cons p).trans (List.Perm.swap _ _ _)

end Dict

/-! ## The last element with a key -/

/-- The last element of a list with a given key. -/
def lastWith {A K : Type} [DecidableEq K] (key : A → K) (k : K) (l : List A) : Option A :=
  l.reverse.find? fun a => key a = k

section LastWith

variable {A K : Type} [DecidableEq K] {key : A → K}

theorem lastWith_append (k : K) (l l' : List A) :
    lastWith key k (l ++ l') = (lastWith key k l').or (lastWith key k l) := by
  rw [lastWith, List.reverse_append, List.find?_append, lastWith, lastWith]

theorem lastWith_singleton (k : K) (a : A) : lastWith key k [a] = if key a = k then some a else none := by
  by_cases h : key a = k <;> simp [lastWith, h]

/-- In a keyed dictionary the last value with a key is the value of the key. -/
theorem lastWith_values {d : Dict K A} (h : Dict.Keyed key d) (k : K) : lastWith key k d.values = List.lookup k d := by
  induction d with
  | nil => rfl
  | cons p d ih =>
    obtain ⟨k₁, v₁⟩ := p
    obtain ⟨hk, hnd⟩ := h
    have hkv : key v₁ = k₁ := hk (k₁, v₁) List.mem_cons_self
    simp only [List.map_cons, List.nodup_cons] at hnd
    have ih' := ih ⟨fun q hq => hk q (List.mem_cons_of_mem _ hq), hnd.2⟩
    rw [show Dict.values ((k₁, v₁) :: d) = [v₁] ++ Dict.values d from rfl, lastWith_append, ih', lastWith_singleton, hkv]
    by_cases hkk : k = k₁
    · subst hkk
      simp [Dict.lookup_none hnd.1]
    · have hb : (k == k₁) = false := beq_eq_false_iff_ne.2 hkk
      simp [List.lookup_cons, hb, Ne.symm hkk]

end LastWith

/-! ## The last value given -/

/-- The value that the last element with one gives; `b` when none has one. -/
def lastValue {A B : Type} (g : A → Option B) (l : List A) (b : B) : B := ((l.filterMap g).getLast?).getD b

section last

variable {A B : Type} {g g' : A → Option B}

theorem lastValue_cons (g : A → Option B) (a : A) (l : List A) (b : B) :
    lastValue g (a :: l) b = lastValue g l ((g a).getD b) := by
  unfold lastValue
  cases h : g a with
  | none => rw [List.filterMap_cons_none h, Option.getD_none]
  | some v =>
    rw [List.filterMap_cons_some h, List.getLast?_cons, Option.getD_some, Option.getD_some]

theorem lastValue_append (g : A → Option B) (l l' : List A) (b : B) :
    lastValue g (l ++ l') b = lastValue g l' (lastValue g l b) := by
  induction l generalizing b with
  | nil => rfl
  | cons a l ih => rw [List.cons_append, lastValue_cons, lastValue_cons, ih]

theorem lastValue_of_none {l : List A} (h : ∀ a ∈ l, g a = none) (b : B) : lastValue g l b = b := by
  unfold lastValue
  rw [List.filterMap_eq_nil_iff.2 h]
  rfl

/-- **Two ways to give values, from the same elements**: the last values are the same if and only if the last element
with a value gives the same one. -/
theorem lastValue_eq_iff (hdom : ∀ a, g a = none ↔ g' a = none) {l : List A} {b : B} :
    lastValue g l b = lastValue g' l b ↔
      ∀ pre a post, l = pre ++ a :: post → (∀ x ∈ post, g x = none) → g a = g' a := by
  constructor
  · rintro heq pre a post rfl hpost
    rw [lastValue_append, lastValue_append, lastValue_cons, lastValue_cons, lastValue_of_none hpost,
      lastValue_of_none fun x hx => (hdom x).1 (hpost x hx)] at heq
    cases ha : g a with
    | none => exact ((hdom a).1 ha).symm
    | some v =>
      cases ha' : g' a with
      | none => exact absurd ((hdom a).2 ha') (by simp [ha])
      | some v' => simpa [ha, ha'] using heq
  · intro h
    induction l using List.reverseRecOn generalizing b with
    | nil => rfl
    | append_singleton l a ih =>
      rw [lastValue_append, lastValue_append, lastValue_cons, lastValue_cons, h l a [] rfl (by simp)]
      cases ha : g' a with
      | some v => rfl
      | none =>
        have hga : g a = none := (hdom a).2 ha
        refine ih fun pre x post hl hpost => h pre x (post ++ [a]) (by simp [hl]) fun y hy => ?_
        rcases List.mem_append.1 hy with hy | hy
        · exact hpost y hy
        · rw [List.mem_singleton.1 hy]
          exact hga

end last

end Agilex.Lib
