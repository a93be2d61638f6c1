import Agilex.Lib.Sequence
import Mathlib.Algebra.Order.Group.Unbundled.Int

/-!
# Pairing two image streams

`ApproxSync` keeps a buffer for each stream, a dictionary from stamps to messages. A message is put into the buffer of its
stream; if the nearest stamp of the other buffer is within the slop the two leave as a pair, else the own buffer loses its
oldest stamp when it is too long.

- `place_cases` is what one call does;
- `Sound` is the invariant: keyed buffers of bounded length, no stamp of one within the slop of a stamp of the other;
- `addAll_accounts` follows the messages: each is returned at most once.
-/

namespace Agilex.Collect

open Agilex.Lib

/-- The arguments of the constructor, with their defaults `IMG_SLOP_NS` and `MAX_IMG_BUF`. -/
structure SyncConfig where
  slopNs : ℤ := 50000000
  maxBuf : ℕ := 10

/-- The buffers of the RGB and the depth stream, by stamp. -/
structure ApproxSync (M : Type) where
  bufA : Dict ℤ M := []
  bufB : Dict ℤ M := []

namespace ApproxSync

variable {M : Type} (cfg : SyncConfig) (stamp : M → ℤ)

/-- `_trim`: the oldest entry is dropped when there are too many. -/
def trim (buf : Dict ℤ M) : Dict ℤ M :=
  if cfg.maxBuf < buf.length then
    match firstMin id (buf.map Prod.fst) with
    | some oldest => buf.erase oldest
    | none => buf
  else buf

/-- The body of `add` on the buffer of the message's stream and the other one: the partner, and the two buffers. -/
def place (ns : ℤ) (msg : M) (newBuf otherBuf : Dict ℤ M) : Option M × Dict ℤ M × Dict ℤ M :=
  let newBuf := newBuf.set ns msg
  match firstMin (fun p => |p.1 - ns|) otherBuf with
  | none => (none, trim cfg newBuf, otherBuf)
  | some (bestNs, otherMsg) =>
    if cfg.slopNs < |bestNs - ns| then (none, trim cfg newBuf, otherBuf)
    else (some otherMsg, newBuf.erase ns, otherBuf.erase bestNs)

/-- `add`: the pair returned, RGB first, and the buffers. -/
def add (s : ApproxSync M) (msg : M) (isA : Bool) : Option (M × M) × ApproxSync M :=
  if isA then
    let (partner, bufA, bufB) := place cfg (stamp msg) msg s.bufA s.bufB
    (partner.map fun other => (msg, other), ⟨bufA, bufB⟩)
  else
    let (partner, bufB, bufA) := place cfg (stamp msg) msg s.bufB s.bufA
    (partner.map fun other => (other, msg), ⟨bufA, bufB⟩)

/-- Calls of `add` one after the other: the pairs returned, and the buffers. -/
def addAll : List (M × Bool) → ApproxSync M → List (M × M) × ApproxSync M
  | [], s => ([], s)
  | (msg, isA) :: calls, s =>
    let (pair, s) := add cfg stamp s msg isA
    let (pairs, s) := addAll calls s
    (pair.toList ++ pairs, s)

/-- The messages added to a stream. -/
def added (isA : Bool) (calls : List (M × Bool)) : List M := (calls.filter fun c => c.2 = isA).map Prod.fst

variable {cfg stamp}

/-! ## One call -/

/-- **What a call does**: the message leaves with a nearest partner within the slop, or all of the other buffer is further
away and the message is buffered. -/
theorem place_cases (cfg : SyncConfig) (ns : ℤ) (msg : M) (newBuf otherBuf : Dict ℤ M) :
    (∃ p ∈ otherBuf, (∀ q ∈ otherBuf, |p.1 - ns| ≤ |q.1 - ns|) ∧ |p.1 - ns| ≤ cfg.slopNs ∧
      place cfg ns msg newBuf otherBuf = (some p.2, (newBuf.set ns msg).erase ns, otherBuf.erase p.1)) ∨
    ((∀ q ∈ otherBuf, cfg.slopNs < |q.1 - ns|) ∧
      place cfg ns msg newBuf otherBuf = (none, trim cfg (newBuf.set ns msg), otherBuf)) := by
  unfold place
  cases hbest : firstMin (fun p => |p.1 - ns|) otherBuf with
  | none =>
    rw [firstMin_eq_none] at hbest
    subst hbest
    exact Or.inr ⟨fun q hq => absurd hq List.not_mem_nil, rfl⟩
  | some p =>
    have hmem : p ∈ otherBuf := firstMin_mem hbest
    have hmin : ∀ q ∈ otherBuf, |p.1 - ns| ≤ |q.1 - ns| := firstMin_le hbest
    by_cases hslop : cfg.slopNs < |p.1 - ns|
    · exact Or.inr ⟨fun q hq => hslop.trans_le (hmin q hq), if_pos hslop⟩
    · exact Or.inl ⟨p, hmem, hmin, not_lt.mp hslop, if_neg hslop⟩

/-- Trimming leaves the entries, but for one when there are too many. -/
theorem trim_spec (cfg : SyncConfig) {buf : Dict ℤ M} (h : Dict.Keyed stamp buf) (hlength : buf.length ≤ cfg.maxBuf + 1) :
    Dict.Keyed stamp (trim cfg buf) ∧ (trim cfg buf).length ≤ cfg.maxBuf ∧ (trim cfg buf).Sublist buf := by
  unfold trim
  split
  · rename_i hlong
    cases hmin : firstMin id (buf.map Prod.fst) with
    | none =>
      rw [firstMin_eq_none, List.map_eq_nil_iff] at hmin
      subst hmin
      simp at hlong
    | some oldest =>
      obtain ⟨p, hp, rfl⟩ := List.mem_map.mp (firstMin_mem hmin)
      have hperm := (h.perm_erase hp).length_eq
      rw [List.length_cons] at hperm
      have hless : (buf.erase p.1).length ≤ cfg.maxBuf := by omega
      exact ⟨h.erase p.1, hless, List.filter_sublist⟩
  · rename_i hshort
    exact ⟨h, by omega, List.Sublist.refl _⟩

/-! ## The invariant -/

/-- What holds of the two buffers between calls, whichever is whose. -/
structure Sound (cfg : SyncConfig) (stamp : M → ℤ) (a b : Dict ℤ M) : Prop where
  keyedA : Dict.Keyed stamp a
  keyedB : Dict.Keyed stamp b
  lengthA : a.length ≤ cfg.maxBuf
  lengthB : b.length ≤ cfg.maxBuf
  /-- No two buffered messages could be paired. -/
  apart : ∀ k ∈ a.map Prod.fst, ∀ k' ∈ b.map Prod.fst, cfg.slopNs < |k - k'|

namespace Sound

variable {a b : Dict ℤ M}

theorem empty : Sound cfg stamp ([] : Dict ℤ M) [] :=
  ⟨⟨by simp, by simp⟩, ⟨by simp, by simp⟩, Nat.zero_le _, Nat.zero_le _, by simp⟩

theorem symm (h : Sound cfg stamp a b) : Sound cfg stamp b a :=
  ⟨h.keyedB, h.keyedA, h.lengthB, h.lengthA, fun k hk k' hk' => abs_sub_comm k' k ▸ h.apart k' hk' k hk⟩

/-- A message that has a partner is not buffered under its stamp. -/
theorem not_mem_of_near (h : Sound cfg stamp a b) {ns : ℤ} {p : ℤ × M} (hp : p ∈ b) (hnear : |p.1 - ns| ≤ cfg.slopNs) :
    ns ∉ a.map Prod.fst := by
  intro hns
  have hfar := h.apart ns hns p.1 (List.mem_map_of_mem hp)
  rw [abs_sub_comm] at hfar
  exact absurd hfar (not_lt.mpr hnear)

/-- The own buffer after a message that found no partner. -/
theorem trimmed (h : Sound cfg stamp a b) (msg : M) :
    Dict.Keyed stamp (trim cfg (a.set (stamp msg) msg)) ∧ (trim cfg (a.set (stamp msg) msg)).length ≤ cfg.maxBuf ∧
      (trim cfg (a.set (stamp msg) msg)).Sublist (a.set (stamp msg) msg) := by
  have hlength : (a.set (stamp msg) msg).length ≤ cfg.maxBuf + 1 := by
    have hset := Dict.length_set_le a (stamp msg) msg
    have ha := h.lengthA
    omega
  exact trim_spec cfg (h.keyedA.set (v := msg) rfl) hlength

/-- **A call keeps the invariant.** -/
theorem place (h : Sound cfg stamp a b) (msg : M) :
    Sound cfg stamp (place cfg (stamp msg) msg a b).2.1 (place cfg (stamp msg) msg a b).2.2 := by
  rcases place_cases cfg (stamp msg) msg a b with ⟨p, hp, -, hnear, hrun⟩ | ⟨hfar, hrun⟩
  · rw [hrun]
    have hnew := h.not_mem_of_near hp hnear
    have hlength := (h.keyedB.perm_erase hp).length_eq
    rw [List.length_cons] at hlength
    refine ⟨?_, h.keyedB.erase p.1, ?_, ?_, ?_⟩
    · rw [Dict.erase_set_new msg hnew]
      exact h.keyedA
    · rw [Dict.erase_set_new msg hnew]
      exact h.lengthA
    · have hb := h.lengthB
      show (b.erase p.1).length ≤ cfg.maxBuf
      omega
    · rw [Dict.erase_set_new msg hnew]
      intro k hk k' hk'
      obtain ⟨q, hq, rfl⟩ := List.mem_map.mp hk'
      exact h.apart k hk q.1 (List.mem_map_of_mem (Dict.mem_erase.mp hq).1)
  · rw [hrun]
    obtain ⟨hkeyed, hlength, hsub⟩ := h.trimmed msg
    refine ⟨hkeyed, h.keyedB, hlength, h.lengthB, fun k hk k' hk' => ?_⟩
    rcases Dict.mem_keys_set ((hsub.map Prod.fst).subset hk) with rfl | hk
    · obtain ⟨q, hq, rfl⟩ := List.mem_map.mp hk'
      rw [abs_sub_comm]
      exact hfar q hq
    · exact h.apart k hk k' hk'

end Sound

/-- The invariant of a state. -/
def Good (cfg : SyncConfig) (stamp : M → ℤ) (s : ApproxSync M) : Prop := Sound cfg stamp s.bufA s.bufB

theorem Good.add {s : ApproxSync M} (h : Good cfg stamp s) (msg : M) (isA : Bool) :
    Good cfg stamp (add cfg stamp s msg isA).2 := by
  cases isA with
  | true => exact Sound.place h msg
  | false => exact (Sound.place (Sound.symm h) msg).symm

/-- Every reachable state is sound. -/
theorem Good.addAll {s : ApproxSync M} (h : Good cfg stamp s) (calls : List (M × Bool)) :
    Good cfg stamp (addAll cfg stamp calls s).2 := by
  induction calls generalizing s with
  | nil => exact h
  | cons c calls ih => exact ih (h.add c.1 c.2)

/-! ## What becomes of the messages -/

/-- The buffer of a stream. -/
def buf (s : ApproxSync M) (isA : Bool) : Dict ℤ M := if isA then s.bufA else s.bufB

/-- The message of a stream in a pair. -/
def side (isA : Bool) (p : M × M) : M := if isA then p.1 else p.2

/-- What a call does to the values of the two buffers. -/
theorem place_values {a b : Dict ℤ M} (h : Sound cfg stamp a b) (msg : M) :
    (∃ other, (place cfg (stamp msg) msg a b).1 = some other ∧
      Dict.values (place cfg (stamp msg) msg a b).2.1 = Dict.values a ∧
      (other :: Dict.values (place cfg (stamp msg) msg a b).2.2).Perm (Dict.values b)) ∨
    ((place cfg (stamp msg) msg a b).1 = none ∧
      (Dict.values (place cfg (stamp msg) msg a b).2.1).Subperm (msg :: Dict.values a) ∧
      (place cfg (stamp msg) msg a b).2.2 = b) := by
  rcases place_cases cfg (stamp msg) msg a b with ⟨p, hp, -, hnear, hrun⟩ | ⟨-, hrun⟩
  · rw [hrun]
    refine Or.inl ⟨p.2, rfl, ?_, ((h.keyedB.perm_erase hp).map Prod.snd).symm⟩
    rw [Dict.erase_set_new msg (h.not_mem_of_near hp hnear)]
  · rw [hrun]
    obtain ⟨-, -, hsub⟩ := h.trimmed msg
    exact Or.inr ⟨rfl, (hsub.map Prod.snd).subperm.trans (Dict.set_subperm a (stamp msg) msg), rfl⟩

section

variable (cfg stamp) (s : ApproxSync M) (msg : M) (isA : Bool)

/-- `add` in terms of the message's own stream and the other one. -/
abbrev placed : Option M × Dict ℤ M × Dict ℤ M := place cfg (stamp msg) msg (s.buf isA) (s.buf !isA)

theorem add_buf_own : (add cfg stamp s msg isA).2.buf isA = (placed cfg stamp s msg isA).2.1 := by
  cases isA <;> rfl

theorem add_buf_other : (add cfg stamp s msg isA).2.buf (!isA) = (placed cfg stamp s msg isA).2.2 := by
  cases isA <;> rfl

theorem add_side_own : (add cfg stamp s msg isA).1.map (side isA) = (placed cfg stamp s msg isA).1.map fun _ => msg := by
  cases isA <;> exact Option.map_map _ _ _

theorem add_side_other : (add cfg stamp s msg isA).1.map (side !isA) = (placed cfg stamp s msg isA).1 := by
  cases isA <;> exact (Option.map_map _ _ _).trans Option.map_id'

end

theorem Good.sound {s : ApproxSync M} (h : Good cfg stamp s) (isA : Bool) :
    Sound cfg stamp (s.buf isA) (s.buf !isA) := by
  cases isA with
  | true => exact h
  | false => exact Sound.symm h

/-- A call returns and buffers, of either stream, what was buffered and the message added. -/
theorem add_accounts {s : ApproxSync M} (h : Good cfg stamp s) (msg : M) (isA x : Bool) :
    (((add cfg stamp s msg isA).1.map (side x)).toList ++ Dict.values ((add cfg stamp s msg isA).2.buf x)).Subperm
      ((if isA = x then [msg] else []) ++ Dict.values (s.buf x)) := by
  have hplace := place_values (h.sound isA) msg
  obtain rfl | rfl : x = isA ∨ x = !isA := by
    cases x <;> cases isA <;> simp
  · rw [add_side_own, add_buf_own, if_pos rfl]
    rcases hplace with ⟨other, hsome, hvalues, -⟩ | ⟨hnone, hvalues, -⟩
    · rw [placed, hsome, hvalues]
      exact List.Subperm.refl _
    · rw [placed, hnone]
      exact hvalues
  · rw [add_side_other, add_buf_other, if_neg (by simp), List.nil_append]
    rcases hplace with ⟨other, hsome, -, hvalues⟩ | ⟨hnone, -, hsame⟩
    · rw [placed, hsome]
      exact hvalues.subperm
    · rw [placed, hnone, hsame]
      exact List.Subperm.refl _

theorem added_cons (msg : M) (isA x : Bool) (calls : List (M × Bool)) :
    added x ((msg, isA) :: calls) = (if isA = x then [msg] else []) ++ added x calls := by
  unfold added
  by_cases h : isA = x
  · rw [if_pos h, List.filter_cons_of_pos (by simpa using h)]
    rfl
  · rw [if_neg h, List.filter_cons_of_neg (by simpa using h)]
    rfl

/-- **Each message is returned at most once**: what the calls return and leave in a buffer, of either stream, is among what
was buffered and what was added. -/
theorem addAll_accounts {s : ApproxSync M} (h : Good cfg stamp s) (calls : List (M × Bool)) (x : Bool) :
    ((addAll cfg stamp calls s).1.map (side x) ++ Dict.values ((addAll cfg stamp calls s).2.buf x)).Subperm
      (added x calls ++ Dict.values (s.buf x)) := by
  induction calls generalizing s with
  | nil => exact List.Subperm.refl _
  | cons c calls ih =>
    obtain ⟨msg, isA⟩ := c
    have hrest := ih (h.add msg isA)
    have hcall := add_accounts h msg isA x
    rw [added_cons]
    show ((((add cfg stamp s msg isA).1.toList ++ (addAll cfg stamp calls (add cfg stamp s msg isA).2).1).map (side x)) ++
      Dict.values ((addAll cfg stamp calls (add cfg stamp s msg isA).2).2.buf x)).Subperm _
    rw [List.map_append, ← Option.toList_map, List.append_assoc, List.append_assoc]
    refine ((List.subperm_append_left _).2 hrest).trans ?_
    refine (List.perm_append_comm_assoc _ (added x calls) _).subperm.trans ?_
    refine ((List.subperm_append_left _).2 hcall).trans ?_
    exact (List.perm_append_comm_assoc (added x calls) _ _).subperm

/-! ## The pairs returned -/

/-- A pair returned by a call: the message added, with a nearest message of the other stream, within the slop. -/
theorem add_pair {s : ApproxSync M} (h : Good cfg stamp s) {msg : M} {isA : Bool} {p : M × M}
    (hp : (add cfg stamp s msg isA).1 = some p) :
    side isA p = msg ∧ side (!isA) p ∈ Dict.values (s.buf !isA) ∧ |stamp (side (!isA) p) - stamp msg| ≤ cfg.slopNs ∧
      ∀ other ∈ Dict.values (s.buf !isA), |stamp (side (!isA) p) - stamp msg| ≤ |stamp other - stamp msg| := by
  have hown := add_side_own cfg stamp s msg isA
  have hother := add_side_other cfg stamp s msg isA
  rw [hp] at hown hother
  have hkeyed := (h.sound isA).keyedB
  rcases place_cases cfg (stamp msg) msg (s.buf isA) (s.buf !isA) with ⟨q, hq, hmin, hnear, hrun⟩ | ⟨-, hrun⟩
  · rw [placed, hrun] at hown hother
    obtain rfl : side isA p = msg := Option.some.inj hown
    have hpartner : side (!isA) p = q.2 := Option.some.inj hother
    have hstamp : stamp (side (!isA) p) = q.1 := hpartner ▸ hkeyed.keys q hq
    rw [hstamp, hpartner]
    refine ⟨rfl, List.mem_map_of_mem hq, hnear, fun other hother => ?_⟩
    obtain ⟨q', hq', rfl⟩ := List.mem_map.mp hother
    rw [hkeyed.keys q' hq']
    exact hmin q' hq'
  · rw [placed, hrun] at hother
    cases hother

/-- The stamps of a pair are within the slop. -/
theorem addAll_near {s : ApproxSync M} (h : Good cfg stamp s) (calls : List (M × Bool)) :
    ∀ p ∈ (addAll cfg stamp calls s).1, |stamp p.1 - stamp p.2| ≤ cfg.slopNs := by
  induction calls generalizing s with
  | nil => exact fun p hp => absurd hp List.not_mem_nil
  | cons c calls ih =>
    obtain ⟨msg, isA⟩ := c
    intro p hp
    rcases List.mem_append.mp hp with hp | hp
    · obtain ⟨rfl, -, hnear, -⟩ := add_pair h (Option.mem_toList.mp hp)
      cases isA with
      | true => rw [abs_sub_comm]; exact hnear
      | false => exact hnear
    · exact ih (h.add msg isA) p hp

/-- **`ApproxSync` leaves no pair unmatched and uses no message twice.** After any calls: buffered stamps of different streams
are further apart than the slop and the buffers are not too long; the messages returned and buffered are, for each stream,
among those added; pairs are within the slop; and the next call pairs its message, if at all, with a nearest one. -/
theorem approxSync_sound (cfg : SyncConfig) (stamp : M → ℤ) (calls : List (M × Bool)) :
    let (pairs, s) := addAll cfg stamp calls {}
    (∀ k ∈ s.bufA.map Prod.fst, ∀ k' ∈ s.bufB.map Prod.fst, cfg.slopNs < |k - k'|) ∧
    s.bufA.length ≤ cfg.maxBuf ∧ s.bufB.length ≤ cfg.maxBuf ∧
    (pairs.map Prod.fst ++ s.bufA.values).Subperm (added true calls) ∧
    (pairs.map Prod.snd ++ s.bufB.values).Subperm (added false calls) ∧
    (∀ p ∈ pairs, |stamp p.1 - stamp p.2| ≤ cfg.slopNs) ∧
    ∀ msg isA p, (add cfg stamp s msg isA).1 = some p →
      side isA p = msg ∧ side (!isA) p ∈ (s.buf !isA).values ∧ |stamp (side (!isA) p) - stamp msg| ≤ cfg.slopNs ∧
        ∀ other ∈ (s.buf !isA).values, |stamp (side (!isA) p) - stamp msg| ≤ |stamp other - stamp msg| := by
  have hempty : Good cfg stamp ({} : ApproxSync M) := Sound.empty
  have hgood := hempty.addAll calls
  have hA := addAll_accounts hempty calls true
  have hB := addAll_accounts hempty calls false
  refine ⟨hgood.apart, hgood.lengthA, hgood.lengthB, ?_, ?_, addAll_near hempty calls, fun msg isA p hp => add_pair hgood hp⟩
  · rwa [show Dict.values (({} : ApproxSync M).buf true) = [] from rfl, List.append_nil] at hA
  · rwa [show Dict.values (({} : ApproxSync M).buf false) = [] from rfl, List.append_nil] at hB

end ApproxSync

end Agilex.Collect
