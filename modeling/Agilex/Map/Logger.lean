import Agilex.Lib.Ring
import Mathlib.Data.List.Induction

/-!
# The queue of logged operations

`MANUAL_Q` (`ikd_Tree.h`), in which a rebuild finds the operations that came while it was under way. It is a ring of `Q_LEN`
cells that does not look whether there is room; `manualQ_fifo` says that it is a queue as long as no more than `Q_LEN`
operations wait.
-/

namespace Agilex.Map

open Agilex.Lib Function

/-- `Q_LEN`. -/
def qLen : ℕ := 1000000

structure ManualQ (α : Type) where
  head : ℕ
  tail : ℕ
  counter : ℕ
  q : ℕ → α
  isEmpty : Bool

namespace ManualQ

variable {α : Type}

def pop (m : ManualQ α) : ManualQ α :=
  if m.counter = 0 then m
  else
    { m with
      head := (m.head + 1) % qLen
      counter := m.counter - 1
      isEmpty := if m.counter - 1 = 0 then true else m.isEmpty }

def front (m : ManualQ α) : α := m.q m.head

def clear (m : ManualQ α) : ManualQ α := { m with head := 0, tail := 0, counter := 0, isEmpty := true }

def push (m : ManualQ α) (op : α) : ManualQ α :=
  { m with
    q := update m.q m.tail op
    counter := m.counter + 1
    isEmpty := if m.isEmpty then false else m.isEmpty
    tail := (m.tail + 1) % qLen }

def empty (m : ManualQ α) : Bool := m.isEmpty

def size (m : ManualQ α) : ℕ := m.counter

end ManualQ

inductive QueueOp (α : Type) where
  | push (op : α)
  | pop
  | clear

variable {α : Type}

def QueueOp.exec (m : ManualQ α) : QueueOp α → ManualQ α
  | .push op => m.push op
  | .pop => m.pop
  | .clear => m.clear

/-- What an operation does to a queue. -/
def QueueOp.apply (l : List α) : QueueOp α → List α
  | .push op => l ++ [op]
  | .pop => l.tail
  | .clear => []

/-- The operations that wait after some uses of the queue, the oldest one first. -/
def waiting (ops : List (QueueOp α)) : List α := ops.foldl QueueOp.apply []

/-- The ring holds the list. -/
structure ManualQ.Refines (m : ManualQ α) (l : List α) : Prop where
  head_lt : m.head < qLen
  counter : m.counter = l.length
  isEmpty : m.isEmpty = l.isEmpty
  tail : m.tail = (m.head + l.length) % qLen
  holds : Ring.Holds m.q qLen m.head l

namespace ManualQ.Refines

variable {m : ManualQ α} {l : List α} {a : α}

theorem clear : m.clear.Refines [] := ⟨by simp [ManualQ.clear, qLen], rfl, rfl, rfl, .nil _ _ _⟩

theorem push (h : m.Refines l) (hroom : l.length < qLen) : (m.push a).Refines (l ++ [a]) where
  head_lt := h.head_lt
  counter := by simp [ManualQ.push, h.counter]
  isEmpty := by cases hm : m.isEmpty <;> simp [ManualQ.push, hm]
  tail := by
    have htail : (m.push a).tail = (m.tail + 1) % qLen := rfl
    rw [htail, h.tail, Nat.mod_add_mod, List.length_append, List.length_singleton, ← Nat.add_assoc]
    rfl
  holds := by
    have hwritten := h.holds.write (a := a) le_rfl hroom
    rw [← h.tail] at hwritten
    refine hwritten.push hroom ?_
    rw [← h.tail]
    exact update_self _ _ _

theorem pop (h : m.Refines l) : m.pop.Refines l.tail := by
  cases l with
  | nil =>
    have hzero : m.counter = 0 := h.counter
    rw [ManualQ.pop, if_pos hzero]
    exact h
  | cons b l =>
    have hcounter : m.counter = l.length + 1 := h.counter
    rw [ManualQ.pop, if_neg (by omega)]
    refine ⟨Nat.mod_lt _ (by decide), by simp [hcounter], ?_, ?_, ?_⟩
    · have hfull : m.isEmpty = false := h.isEmpty
      cases l <;> simp [hcounter, hfull]
    · have htail := h.tail
      rw [List.length_cons] at htail
      simp only [List.tail_cons, htail, Nat.mod_add_mod]
      congr 1
      omega
    · exact h.holds.pop.congr (Nat.mod_modEq _ _).symm

end ManualQ.Refines

theorem ManualQ.Refines.exec {m : ManualQ α} {l : List α} (h : m.Refines l) (op : QueueOp α)
    (hroom : (op.apply l).length ≤ qLen) : (op.exec m).Refines (op.apply l) := by
  cases op with
  | push a =>
    rw [QueueOp.apply, List.length_append] at hroom
    exact h.push hroom
  | pop => exact h.pop
  | clear => exact .clear

/-- The invariant of a run in which there is always room. -/
theorem refines_waiting (m : ManualQ α) {ops : List (QueueOp α)} (hroom : ∀ pre, pre <+: ops → (waiting pre).length ≤ qLen) :
    (ops.foldl QueueOp.exec m.clear).Refines (waiting ops) := by
  induction ops using List.reverseRecOn with
  | nil => exact .clear
  | append_singleton ops op ih =>
    have h := ih fun pre hpre => hroom pre (hpre.trans (List.prefix_append _ _))
    have hlast := hroom (ops ++ [op]) List.prefix_rfl
    rw [waiting, List.foldl_append] at hlast ⊢
    rw [List.foldl_append]
    exact h.exec op hlast

/-- **`MANUAL_Q` is a queue as long as no more than `Q_LEN` operations wait**, in every run of its operations and wherever the
ring comes round: its front, its size and its flag are those of the operations that wait, the oldest one first. -/
theorem manualQ_fifo (m : ManualQ α) {ops : List (QueueOp α)} (hroom : ∀ pre, pre <+: ops → (waiting pre).length ≤ qLen) :
    let q := ops.foldl QueueOp.exec m.clear
    q.size = (waiting ops).length ∧ q.empty = (waiting ops).isEmpty ∧ ∀ a l, waiting ops = a :: l → q.front = a := by
  have h := refines_waiting m hroom
  refine ⟨h.counter, h.isEmpty, fun a l hl => ?_⟩
  have hholds := h.holds
  rw [hl] at hholds
  rw [← hholds.front, Nat.mod_eq_of_lt h.head_lt]
  rfl

theorem waiting_length_le (ops : List (QueueOp α)) : (waiting ops).length ≤ ops.length := by
  induction ops using List.reverseRecOn with
  | nil => exact le_rfl
  | append_singleton ops op ih =>
    rw [waiting, List.foldl_append, List.length_append]
    change (op.apply (waiting ops)).length ≤ ops.length + 1
    cases op <;> simp [QueueOp.apply] <;> omega

theorem manualQ_fifo_three :
    (([.push 1, .push 2, .pop, .push 3] : List (QueueOp ℕ)).foldl QueueOp.exec
      (ManualQ.clear ⟨0, 0, 0, fun _ => 0, false⟩)).front = 2 := by
  refine (manualQ_fifo _ fun pre hpre => ?_).2.2 2 [3] rfl
  have hlen := hpre.length_le
  simp only [List.length_cons, List.length_nil] at hlen
  exact (waiting_length_le pre).trans (hlen.trans (by simp [qLen]))

end Agilex.Map
