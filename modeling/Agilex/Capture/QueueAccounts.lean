import Agilex.Capture.Overflow
import Mathlib.Algebra.BigOperators.Group.List.Basic

/-!
# The bytes of the event queue

`state['bytes']` is changed in two regions under the lock, before an event is put and after it is taken out; the queue
itself is changed outside of them. `Accounts` says what the counter is worth wherever the threads stand: the queued
events, those reserved and not put yet, those rejected and not given back yet, and those taken out and not taken off yet.
Every step keeps it (`Accounts.step`).
-/

namespace Agilex.Capture.RecordQueue

open Agilex.Lib

variable {s s' : St} {i : ℕ} {c : Callback}

/-! ## Where a message is -/

/-- Before the lock region in which the bytes are reserved. -/
def CallbackPc.isPending : CallbackPc → Bool
  | .entered | .sized | .budgeting => true
  | _ => false

/-- The bytes are reserved, the event is not put yet. -/
def CallbackPc.isReserved : CallbackPc → Bool
  | .reserved => true
  | _ => false

/-- The queue was full, the bytes are not given back yet. -/
def CallbackPc.isRejected : CallbackPc → Bool
  | .full | .returning => true
  | _ => false

/-- Given up, over budget or with the bytes given back. -/
def CallbackPc.isDiscarded : CallbackPc → Bool
  | .flagging | .leaving | .raising | .discarded => true
  | _ => false

/-- The bytes of the message are counted. -/
def CallbackPc.counts : CallbackPc → Bool
  | .reserved | .full | .returning | .put => true
  | _ => false

/-- The event the main thread has taken out of the queue, its bytes still counted. -/
def MainPc.holding : MainPc → List ℕ
  | .taken i | .crediting i | .ingestQueued i => [i]
  | _ => []

/-- The event the main loop has taken the bytes off for, on its way to the engine. -/
def MainPc.handing : MainPc → List ℕ
  | .ingest i => [i]
  | _ => []

/-- The `finally` block has not come to the events still queued. -/
def MainPc.beforeEmptying : MainPc → Bool
  | .emptying | .ingestQueued _ | .drainFinal | .reporting | .closeBag | .validating | .publishing | .cleaning
  | .writeReport | .ended | .crashed => false
  | _ => true

namespace St

/-- The sizes of the messages whose callbacks stand at some places. -/
def bytesAt (s : St) (q : CallbackPc → Bool) : ℤ :=
  (s.callbacks.map fun c => if q c.pc then (c.payload.size : ℤ) else 0).sum

/-- The sizes of some events. -/
def sizes (s : St) (l : List ℕ) : ℤ := (l.map s.sizeOf).sum

/-- The events taken out of the queue, their bytes not taken off: that of the main loop, and those of the `finally` block,
which takes no bytes off. -/
def takenOut (s : St) : List ℕ := s.main.holding ++ s.handed.filter (· ∉ s.released)

/-- The calls of `callback` that have put their events. -/
def putEvents (s : St) : List ℕ := s.queue ++ (s.main.holding ++ (s.main.handing ++ s.handed))

end St

/-! ## The accounts -/

structure Accounts (s : St) : Prop where
  total : s.bytes = s.sizes s.queue + s.bytesAt CallbackPc.isReserved + s.bytesAt CallbackPc.isRejected + s.sizes s.takenOut
  within : s.bytes ≤ budget
  nodup : s.putEvents.Nodup
  put : ∀ i, i ∈ s.putEvents ↔ ∃ c, s.callbacks[i]? = some c ∧ c.pc = .put
  released : ∀ i ∈ s.released, i ∈ s.main.handing ++ s.handed
  handing : ∀ i ∈ s.main.handing, i ∈ s.released
  loop : s.main.beforeEmptying = true → ∀ i ∈ s.handed, i ∈ s.released
  refused : ∀ (i : ℕ) (c : Callback), s.callbacks[i]? = some c → c.pc = .refused →
    Topic.isImage c.topic = true ∧ s.accepting = false
  discarded : ∀ (i : ℕ) (c : Callback), s.callbacks[i]? = some c → c.pc.isDiscarded = true → s.queueError ≠ none

theorem Accounts.init : Accounts {} := by
  refine ⟨rfl, by decide, List.nodup_nil, ?_, ?_, ?_, ?_, ?_, ?_⟩ <;> simp [St.putEvents, MainPc.holding, MainPc.handing]

theorem sizeOf_nonneg (s : St) (i : ℕ) : 0 ≤ s.sizeOf i := by
  unfold St.sizeOf
  cases s.callbacks[i]? <;> simp

theorem sizes_nonneg (s : St) (l : List ℕ) : 0 ≤ s.sizes l := by
  refine List.sum_nonneg fun x hx => ?_
  obtain ⟨i, -, rfl⟩ := List.mem_map.1 hx
  exact sizeOf_nonneg s i

theorem bytesAt_nonneg (s : St) (q : CallbackPc → Bool) : 0 ≤ s.bytesAt q := by
  refine List.sum_nonneg fun x hx => ?_
  obtain ⟨c, -, rfl⟩ := List.mem_map.1 hx
  split <;> simp

theorem sizes_append (s : St) (l l' : List ℕ) : s.sizes (l ++ l') = s.sizes l + s.sizes l' := by
  simp [St.sizes]

theorem sizes_cons (s : St) (i : ℕ) (l : List ℕ) : s.sizes (i :: l) = s.sizeOf i + s.sizes l := by
  simp [St.sizes]

/-- The sizes do not depend on where the callbacks stand. -/
theorem sizeOf_set {pc : CallbackPc} (hc : s.callbacks[i]? = some c) (h : s'.callbacks = s.callbacks.set i { c with pc := pc })
    (j : ℕ) : s'.sizeOf j = s.sizeOf j := by
  unfold St.sizeOf
  rw [h, List.getElem?_set]
  split
  · rename_i hij
    subst hij
    obtain ⟨hlt, hget⟩ := List.getElem?_eq_some_iff.1 hc
    simp [hlt, hget]
  · rfl

/-- The bytes at some places, when one callback moves. -/
theorem bytesAt_set {pc : CallbackPc} (hc : s.callbacks[i]? = some c)
    (h : s'.callbacks = s.callbacks.set i { c with pc := pc }) (q : CallbackPc → Bool) :
    s'.bytesAt q = s.bytesAt q - (if q c.pc then (c.payload.size : ℤ) else 0) + if q pc then (c.payload.size : ℤ) else 0 := by
  obtain ⟨hlt, hget⟩ := List.getElem?_eq_some_iff.1 hc
  unfold St.bytesAt
  rw [h, List.map_set, List.sum_set', dif_pos (by simpa using hlt)]
  simp only [List.getElem_map, hget]
  omega

/-! ## The steps of a callback -/

/-- **What a step of a callback does to the accounts.** -/
structure CallbackMove (i : ℕ) (c : Callback) (pc : CallbackPc) (s s' : St) : Prop where
  callbacks : s'.callbacks = s.callbacks.set i { c with pc := pc }
  main : s'.main = s.main
  released : s'.released = s.released
  handed : s'.handed = s.handed
  accepting : s'.accepting = s.accepting
  notPut : c.pc ≠ .put
  queue : s'.queue = s.queue ++ if pc = .put then [i] else []
  bytes : s'.bytes = s.bytes - (if c.pc.counts then (c.payload.size : ℤ) else 0) +
    if pc.counts then (c.payload.size : ℤ) else 0
  within : s.bytes ≤ budget → s'.bytes ≤ budget
  refused : pc = .refused → Topic.isImage c.topic = true ∧ s.accepting = false
  error : s.queueError ≠ none → s'.queueError ≠ none
  discarded : pc.isDiscarded = true → c.pc.isDiscarded = true ∨ s'.queueError ≠ none

/-- A move that changes neither the counter nor the queue. -/
theorem CallbackMove.quiet {pc : CallbackPc} (hcb : s'.callbacks = s.callbacks.set i { c with pc := pc })
    (hmain : s'.main = s.main) (hrel : s'.released = s.released) (hhand : s'.handed = s.handed)
    (hacc : s'.accepting = s.accepting) (hb : s'.bytes = s.bytes) (hq : s'.queue = s.queue)
    (he : s'.queueError = s.queueError) (hput : c.pc ≠ .put ∧ pc ≠ .put) (hcounts : pc.counts = c.pc.counts)
    (hrefused : pc = .refused → Topic.isImage c.topic = true ∧ s.accepting = false)
    (hdis : pc.isDiscarded = true → c.pc.isDiscarded = true) : CallbackMove i c pc s s' where
  callbacks := hcb
  main := hmain
  released := hrel
  handed := hhand
  accepting := hacc
  notPut := hput.1
  queue := by rw [hq, if_neg hput.2, List.append_nil]
  bytes := by rw [hb, hcounts]; omega
  within := fun h => hb.trans_le h
  refused := hrefused
  error := fun h => by rwa [he]
  discarded := fun h => Or.inl (hdis h)

theorem callbackStep_move (h : s.callbackStep i c = some s') : ∃ pc, CallbackMove i c pc s s' := by
  unfold St.callbackStep at h
  cases hpc : c.pc with
  | entered =>
    simp only [hpc] at h
    split at h <;> cases h
    · rename_i hrefused
      refine ⟨.refused, .quiet rfl rfl rfl rfl rfl rfl rfl rfl ?_ ?_ (fun _ => by simpa using hrefused) ?_⟩ <;>
        simp [hpc, CallbackPc.counts, CallbackPc.isDiscarded]
    · refine ⟨.sized, .quiet rfl rfl rfl rfl rfl rfl rfl rfl ?_ ?_ ?_ ?_⟩ <;>
        simp [hpc, CallbackPc.counts, CallbackPc.isDiscarded]
  | sized | full =>
    simp only [hpc] at h
    split at h <;> cases h
    refine ⟨_, .quiet rfl rfl rfl rfl rfl rfl rfl rfl ?_ ?_ ?_ ?_⟩ <;>
      simp [hpc, CallbackPc.counts, CallbackPc.isDiscarded]
  | flagging | leaving | raising =>
    simp only [hpc] at h
    cases h
    refine ⟨_, .quiet rfl rfl rfl rfl rfl rfl rfl rfl ?_ ?_ ?_ ?_⟩ <;>
      simp [hpc, CallbackPc.counts, CallbackPc.isDiscarded]
  | budgeting =>
    simp only [hpc] at h
    split at h <;> cases h
    · exact ⟨.flagging, ⟨rfl, rfl, rfl, rfl, rfl, by simp [hpc], by simp [St.setCallback, St.log],
        by simp [hpc, CallbackPc.counts, St.setCallback, St.log], fun h => h, by simp, by simp [St.log],
        fun _ => Or.inr (by simp [St.log])⟩⟩
    · rename_i hfits
      exact ⟨.reserved, ⟨rfl, rfl, rfl, rfl, rfl, by simp [hpc], by simp [St.setCallback],
        by simp [hpc, CallbackPc.counts], fun _ => not_lt.1 hfits, by simp, fun h => h,
        by simp [CallbackPc.isDiscarded]⟩⟩
  | reserved =>
    simp only [hpc] at h
    split at h <;> cases h
    · exact ⟨.put, ⟨rfl, rfl, rfl, rfl, rfl, by simp [hpc], by simp, by simp [hpc, CallbackPc.counts, St.setCallback],
        fun h => h, by simp, fun h => h, by simp [CallbackPc.isDiscarded]⟩⟩
    · refine ⟨.full, .quiet rfl rfl rfl rfl rfl rfl rfl rfl ?_ ?_ ?_ ?_⟩ <;>
        simp [hpc, CallbackPc.counts, CallbackPc.isDiscarded]
  | returning =>
    simp only [hpc] at h
    cases h
    have hsize : (0 : ℤ) ≤ c.payload.size := Int.natCast_nonneg _
    exact ⟨.raising, ⟨rfl, rfl, rfl, rfl, rfl, by simp [hpc], by simp [St.setCallback], by simp [hpc, CallbackPc.counts],
      fun h => by simp only; omega, by simp, by simp, fun _ => Or.inr (by simp)⟩⟩
  | refused | discarded | put => simp [hpc] at h

/-- What a callback does keeps the accounts. -/
theorem Accounts.callback (h : Accounts s) (hc : s.callbacks[i]? = some c) {pc : CallbackPc}
    (hm : CallbackMove i c pc s s') : Accounts s' := by
  have hsizes : ∀ l, s'.sizes l = s.sizes l := by
    intro l
    unfold St.sizes
    rw [List.map_congr_left fun j _ => sizeOf_set hc hm.callbacks j]
  have hself : s.sizeOf i = c.payload.size := by simp [St.sizeOf, hc]
  have htaken : s'.takenOut = s.takenOut := by rw [St.takenOut, St.takenOut, hm.main, hm.handed, hm.released]
  have hnot : i ∉ s.putEvents := by
    intro hmem
    obtain ⟨c', hc', hput⟩ := (h.put i).1 hmem
    obtain rfl : c = c' := Option.some.inj (hc.symm.trans hc')
    exact hm.notPut hput
  have hevents : s'.putEvents = s.queue ++ (if pc = .put then [i] else []) ++
      (s.main.holding ++ (s.main.handing ++ s.handed)) := by rw [St.putEvents, hm.queue, hm.main, hm.handed]
  have hi : s'.callbacks[i]? = some { c with pc := pc } := by
    rw [hm.callbacks, List.getElem?_set_self (List.getElem?_eq_some_iff.1 hc).1]
  have hother : ∀ j ≠ i, s'.callbacks[j]? = s.callbacks[j]? := by
    intro j hj
    rw [hm.callbacks, List.getElem?_set_ne hj.symm]
  refine ⟨?_, hm.within h.within, ?_, ?_, ?_, ?_, ?_, ?_, ?_⟩
  · have hparts : ∀ q : CallbackPc, (if q.counts then (c.payload.size : ℤ) else 0) =
        (if q.isReserved then (c.payload.size : ℤ) else 0) + (if q.isRejected then (c.payload.size : ℤ) else 0) +
          if q = .put then (c.payload.size : ℤ) else 0 := by
      intro q
      cases q <;> simp [CallbackPc.counts, CallbackPc.isReserved, CallbackPc.isRejected]
    have hput : s.sizes (if pc = .put then [i] else []) = if pc = .put then (c.payload.size : ℤ) else 0 := by
      split <;> simp [St.sizes, hself]
    rw [htaken, hsizes, hsizes, hm.queue, hm.bytes, h.total, bytesAt_set hc hm.callbacks, bytesAt_set hc hm.callbacks,
      sizes_append, hput, hparts c.pc, hparts pc, if_neg hm.notPut]
    omega
  · rw [hevents]
    split
    · rw [List.append_assoc]
      refine List.perm_middle.nodup_iff.2 (List.nodup_cons.2 ⟨hnot, h.nodup⟩)
    · rw [List.append_nil]
      exact h.nodup
  · intro j
    have hmem : j ∈ s'.putEvents ↔ j ∈ s.putEvents ∨ pc = .put ∧ j = i := by
      rw [hevents]
      by_cases hpc : pc = .put <;> simp [hpc, St.putEvents, or_comm, or_left_comm]
    rw [hmem]
    rcases eq_or_ne j i with rfl | hj
    · simp [hi, hnot]
    · simp [hother j hj, hj, h.put j]
  · rw [hm.main, hm.handed, hm.released]
    exact h.released
  · rw [hm.main, hm.released]
    exact h.handing
  · rw [hm.main, hm.handed, hm.released]
    exact h.loop
  · intro j c' hj hpc
    rw [hm.accepting]
    rcases eq_or_ne j i with rfl | hne
    · obtain rfl := Option.some.inj (hi.symm.trans hj)
      exact hm.refused hpc
    · exact h.refused j c' ((hother j hne).symm.trans hj) hpc
  · intro j c' hj hdis
    rcases eq_or_ne j i with rfl | hne
    · obtain rfl := Option.some.inj (hi.symm.trans hj)
      exact (hm.discarded hdis).elim (fun hold => hm.error (h.discarded j c hc hold)) id
    · exact hm.error (h.discarded j c' ((hother j hne).symm.trans hj) hdis)

/-! ## The steps of the main thread -/

/-- What no step of the main thread touches, and what it only does once. -/
structure MainKeeps (s s' : St) : Prop where
  callbacks : s'.callbacks = s.callbacks
  queueError : s'.queueError = s.queueError
  accepting : s.accepting = false → s'.accepting = false
  before : s'.main.beforeEmptying = true → s.main.beforeEmptying = true

/-- No event moves. -/
structure NoEvent (s s' : St) : Prop extends MainKeeps s s' where
  bytes : s'.bytes = s.bytes
  queue : s'.queue = s.queue
  released : s'.released = s.released
  handed : s'.handed = s.handed
  holding : s'.main.holding = s.main.holding
  handing : s'.main.handing = s.main.handing

/-- An event leaves the queue. -/
structure TakesOut (i : ℕ) (s s' : St) : Prop extends MainKeeps s s' where
  bytes : s'.bytes = s.bytes
  queue : s.queue = i :: s'.queue
  released : s'.released = s.released
  handed : s'.handed = s.handed
  empty : s.main.holding = [] ∧ s.main.handing = []
  holding : s'.main.holding = [i] ∧ s'.main.handing = []

/-- Its bytes are taken off. -/
structure TakesOff (i : ℕ) (s s' : St) : Prop extends MainKeeps s s' where
  bytes : s'.bytes = s.bytes - s.sizeOf i
  queue : s'.queue = s.queue
  released : s'.released = s.released ++ [i]
  handed : s'.handed = s.handed
  holding : s.main.holding = [i] ∧ s.main.handing = []
  handing : s'.main.holding = [] ∧ s'.main.handing = [i]

/-- It is handed to the engine, by the loop or by the `finally` block. -/
structure HandsOver (i : ℕ) (s s' : St) : Prop extends MainKeeps s s' where
  bytes : s'.bytes = s.bytes
  queue : s'.queue = s.queue
  released : s'.released = s.released
  handed : s'.handed = s.handed ++ [i]
  had : s.main.holding = [] ∧ s.main.handing = [i] ∨
    s.main.holding = [i] ∧ s.main.handing = [] ∧ s'.main.beforeEmptying = false
  empty : s'.main.holding = [] ∧ s'.main.handing = []

/-- A step of the first `try` in which no event moves. -/
theorem NoEvent.trying {next : St} (env : Env) (hbefore : s.main.beforeEmptying = true)
    (hpc : s.main.holding = [] ∧ s.main.handing = []) (h : NoEvent s next) : NoEvent s (s.trying env next) := by
  unfold St.trying
  split
  · exact ⟨⟨rfl, rfl, id, fun _ => hbefore⟩, rfl, rfl, rfl, rfl, hpc.1.symm, hpc.2.symm⟩
  · exact h

/-- A step of the `try` in the `finally` block in which no event moves. -/
theorem NoEvent.finalizing {next : St} (env : Env) (hpc : s.main.holding = [] ∧ s.main.handing = [])
    (h : NoEvent s next) : NoEvent s (s.finalizing env next) := by
  unfold St.finalizing
  split
  · refine ⟨⟨rfl, rfl, id, fun hb => ?_⟩, rfl, rfl, rfl, rfl, hpc.1.symm, hpc.2.symm⟩
    simp [St.log, MainPc.beforeEmptying] at hb
  · exact h

theorem NoEvent.leavingOn {next : St} (env : Env) (hpc : s.main.holding = [] ∧ s.main.handing = [])
    (h : NoEvent s next) : NoEvent s (s.leavingOn env next) := by
  unfold St.leavingOn
  split
  · refine ⟨⟨rfl, rfl, id, fun hb => ?_⟩, rfl, rfl, rfl, rfl, hpc.1.symm, hpc.2.symm⟩
    simp [St.log, MainPc.beforeEmptying] at hb
  · exact h

/-- Only the place of the main thread changes, as far as the accounts go. -/
theorem NoEvent.of_main (hcb : s'.callbacks = s.callbacks) (hqe : s'.queueError = s.queueError)
    (hacc : s.accepting = false → s'.accepting = false)
    (hfields : s'.bytes = s.bytes ∧ s'.queue = s.queue ∧ s'.released = s.released ∧ s'.handed = s.handed)
    (hpc : s.main.holding = [] ∧ s.main.handing = []) (hpc' : s'.main.holding = [] ∧ s'.main.handing = [])
    (hbefore : s'.main.beforeEmptying = true → s.main.beforeEmptying = true) : NoEvent s s' where
  callbacks := hcb
  queueError := hqe
  accepting := hacc
  before := hbefore
  bytes := hfields.1
  queue := hfields.2.1
  released := hfields.2.2.1
  handed := hfields.2.2.2
  holding := hpc'.1.trans hpc.1.symm
  handing := hpc'.2.trans hpc.2.symm

theorem enterTail_keeps (cfg : Settings) (now : ℚ) (s : St) :
    let t := s.enterTail cfg now
    t.callbacks = s.callbacks ∧ t.queueError = s.queueError ∧ (s.accepting = false → t.accepting = false) ∧
      t.bytes = s.bytes ∧ t.queue = s.queue ∧ t.released = s.released ∧ t.handed = s.handed := by
  unfold St.enterTail
  simp only
  split <;> split <;> simp

theorem free_of_main {pc : MainPc} (hm : s.main = pc) (hpc : pc.holding = [] ∧ pc.handing = []) :
    s.main.holding = [] ∧ s.main.handing = [] := by
  rw [hm]
  exact hpc

/-- A step of the main thread before the `finally` block comes to the events still queued. -/
theorem mainStep_before {cfg : Settings} {env : Env} (hb : s.main.beforeEmptying = true)
    (h : s.mainStep cfg env = some s') : NoEvent s s' ∨ ∃ i, TakesOut i s s' ∨ TakesOff i s s' ∨ HandsOver i s s' := by
  unfold St.mainStep at h
  cases hm : s.main with
  | opening =>
    have hpc := free_of_main hm ⟨rfl, rfl⟩
    simp only [hm, Option.some.injEq] at h
    subst h
    left
    unfold St.trying
    split <;> exact .of_main rfl rfl id ⟨rfl, rfl, rfl, rfl⟩ hpc ⟨rfl, rfl⟩ fun _ => hb
  | starting | startRaw | top | housekeeping =>
    have hpc := free_of_main hm ⟨rfl, rfl⟩
    simp only [hm, Option.some.injEq] at h
    subst h
    refine Or.inl (.trying env hb hpc ?_)
    exact .of_main rfl rfl id ⟨rfl, rfl, rfl, rfl⟩ hpc ⟨rfl, rfl⟩ fun _ => hb
  | subscribing rest =>
    have hpc := free_of_main hm ⟨rfl, rfl⟩
    cases rest with
    | nil =>
      simp only [hm, Option.some.injEq] at h
      subst h
      exact Or.inl (.of_main rfl rfl id ⟨rfl, rfl, rfl, rfl⟩ hpc ⟨rfl, rfl⟩ fun _ => hb)
    | cons t rest =>
      simp only [hm, Option.some.injEq] at h
      subst h
      refine Or.inl (.trying env hb hpc ?_)
      exact .of_main rfl rfl id ⟨rfl, rfl, rfl, rfl⟩ hpc ⟨rfl, rfl⟩ fun _ => hb
  | poll now =>
    have hpc := free_of_main hm ⟨rfl, rfl⟩
    simp only [hm] at h
    split at h <;> cases h <;>
      exact Or.inl (.of_main rfl rfl id ⟨rfl, rfl, rfl, rfl⟩ hpc ⟨rfl, rfl⟩ fun _ => hb)
  | tail now =>
    have hpc := free_of_main hm ⟨rfl, rfl⟩
    simp only [hm, Option.some.injEq] at h
    subst h
    obtain ⟨hcb, hqe, hacc, hfields⟩ := enterTail_keeps cfg now s
    refine Or.inl (.trying env hb hpc (.of_main hcb hqe hacc hfields hpc ?_ fun _ => hb))
    simp only
    split <;> exact ⟨rfl, rfl⟩
  | get now =>
    have hpc := free_of_main hm ⟨rfl, rfl⟩
    simp only [hm] at h
    split at h <;> cases h
    · refine Or.inl (.trying env hb hpc ?_)
      exact .of_main rfl rfl id ⟨rfl, rfl, rfl, rfl⟩ hpc ⟨rfl, rfl⟩ fun _ => hb
    · rename_i i rest hqueue
      exact Or.inr ⟨i, Or.inl ⟨⟨rfl, rfl, id, fun _ => hb⟩, rfl, hqueue, rfl, rfl, hpc, ⟨rfl, rfl⟩⟩⟩
  | taken i =>
    simp only [hm] at h
    split at h <;> cases h
    refine Or.inl ⟨⟨rfl, rfl, id, fun _ => hb⟩, rfl, rfl, rfl, rfl, ?_, ?_⟩ <;> rw [hm] <;> rfl
  | crediting i =>
    simp only [hm, Option.some.injEq] at h
    subst h
    refine Or.inr ⟨i, Or.inr (Or.inl ⟨⟨rfl, rfl, id, fun _ => hb⟩, rfl, rfl, rfl, rfl, ?_, ⟨rfl, rfl⟩⟩)⟩
    rw [hm]
    exact ⟨rfl, rfl⟩
  | ingest i =>
    have hhad : s.main.holding = [] ∧ s.main.handing = [i] := by
      rw [hm]
      exact ⟨rfl, rfl⟩
    simp only [hm, Option.some.injEq] at h
    subst h
    refine Or.inr ⟨i, Or.inr (Or.inr ?_)⟩
    unfold St.trying
    split <;>
      exact ⟨⟨rfl, rfl, id, fun _ => hb⟩, rfl, rfl, rfl, rfl, Or.inl hhad, ⟨rfl, rfl⟩⟩
  | closing =>
    have hpc := free_of_main hm ⟨rfl, rfl⟩
    simp only [hm, Option.some.injEq] at h
    subst h
    exact Or.inl (.of_main rfl rfl (fun _ => rfl) ⟨rfl, rfl, rfl, rfl⟩ hpc ⟨rfl, rfl⟩ fun _ => hb)
  | unregistering =>
    have hpc := free_of_main hm ⟨rfl, rfl⟩
    simp only [hm] at h
    split at h <;> cases h
    · exact Or.inl (.of_main rfl rfl id ⟨rfl, rfl, rfl, rfl⟩ hpc ⟨rfl, rfl⟩ fun _ => hb)
    · refine Or.inl (.leavingOn env hpc ?_)
      exact .of_main rfl rfl id ⟨rfl, rfl, rfl, rfl⟩ hpc ⟨rfl, rfl⟩ fun _ => hb
  | stopRaw =>
    have hpc := free_of_main hm ⟨rfl, rfl⟩
    simp only [hm, Option.some.injEq] at h
    subst h
    refine Or.inl (.finalizing env hpc (.of_main rfl rfl id ⟨rfl, rfl, rfl, rfl⟩ hpc ?_ fun _ => hb))
    cases s.engine <;> exact ⟨rfl, rfl⟩
  | emptying | ingestQueued | drainFinal | reporting | closeBag | validating | publishing | cleaning | writeReport | ended
  | crashed =>
    rw [hm] at hb
    cases hb

/-- A step of the main thread from then on. -/
theorem mainStep_after {cfg : Settings} {env : Env} (hb : s.main.beforeEmptying = false)
    (h : s.mainStep cfg env = some s') : NoEvent s s' ∨ ∃ i, TakesOut i s s' ∨ TakesOff i s s' ∨ HandsOver i s s' := by
  unfold St.mainStep at h
  cases hm : s.main with
  | emptying =>
    have hpc := free_of_main hm ⟨rfl, rfl⟩
    simp only [hm] at h
    split at h
    · cases h
      exact Or.inl (.of_main rfl rfl id ⟨rfl, rfl, rfl, rfl⟩ hpc ⟨rfl, rfl⟩ fun hb => nomatch hb)
    · rename_i i rest hqueue
      split at h <;> cases h
      · exact Or.inr ⟨i, Or.inl ⟨⟨rfl, rfl, id, fun hb => nomatch hb⟩, rfl, hqueue, rfl, rfl, hpc, ⟨rfl, rfl⟩⟩⟩
      · exact Or.inl (.of_main rfl rfl id ⟨rfl, rfl, rfl, rfl⟩ hpc ⟨rfl, rfl⟩ fun hb => nomatch hb)
  | ingestQueued i =>
    have hhad : s.main.holding = [i] ∧ s.main.handing = [] := by
      rw [hm]
      exact ⟨rfl, rfl⟩
    simp only [hm, Option.some.injEq] at h
    subst h
    refine Or.inr ⟨i, Or.inr (Or.inr ?_)⟩
    unfold St.finalizing
    split <;>
      exact ⟨⟨rfl, rfl, id, fun hb => nomatch hb⟩, rfl, rfl, rfl, rfl, Or.inr ⟨hhad.1, hhad.2, rfl⟩, ⟨rfl, rfl⟩⟩
  | drainFinal =>
    have hpc := free_of_main hm ⟨rfl, rfl⟩
    simp only [hm, Option.some.injEq] at h
    subst h
    exact Or.inl (.finalizing env hpc (.of_main rfl rfl id ⟨rfl, rfl, rfl, rfl⟩ hpc ⟨rfl, rfl⟩ fun hb => nomatch hb))
  | reporting =>
    have hpc := free_of_main hm ⟨rfl, rfl⟩
    simp only [hm, Option.some.injEq] at h
    subst h
    left
    unfold St.finalizing
    split <;> split <;>
      exact .of_main rfl rfl id ⟨rfl, rfl, rfl, rfl⟩ hpc ⟨rfl, rfl⟩ fun hb => nomatch hb
  | closeBag =>
    have hpc := free_of_main hm ⟨rfl, rfl⟩
    simp only [hm] at h
    split at h
    · split at h <;> cases h <;>
        exact Or.inl (.of_main rfl rfl id ⟨rfl, rfl, rfl, rfl⟩ hpc ⟨rfl, rfl⟩ fun hb => nomatch hb)
    · cases h
      refine Or.inl (.of_main rfl rfl id ⟨rfl, rfl, rfl, rfl⟩ hpc ?_ ?_) <;> simp only
      · split <;> exact ⟨rfl, rfl⟩
      · split <;> exact fun hb => nomatch hb
  | validating =>
    have hpc := free_of_main hm ⟨rfl, rfl⟩
    simp only [hm] at h
    split at h
    · split at h <;> cases h <;>
        exact Or.inl (.of_main rfl rfl id ⟨rfl, rfl, rfl, rfl⟩ hpc ⟨rfl, rfl⟩ fun hb => nomatch hb)
    · cases h
      exact Or.inl (.of_main rfl rfl id ⟨rfl, rfl, rfl, rfl⟩ hpc ⟨rfl, rfl⟩ fun hb => nomatch hb)
  | publishing =>
    have hpc := free_of_main hm ⟨rfl, rfl⟩
    simp only [hm] at h
    split at h
    · cases h
      exact Or.inl (.leavingOn env hpc (.of_main rfl rfl id ⟨rfl, rfl, rfl, rfl⟩ hpc ⟨rfl, rfl⟩ fun hb => nomatch hb))
    · split at h <;> cases h
      · exact Or.inl (.of_main rfl rfl id ⟨rfl, rfl, rfl, rfl⟩ hpc ⟨rfl, rfl⟩ fun hb => nomatch hb)
      · exact Or.inl (.leavingOn env hpc (.of_main rfl rfl id ⟨rfl, rfl, rfl, rfl⟩ hpc ⟨rfl, rfl⟩ fun hb => nomatch hb))
  | cleaning | writeReport =>
    have hpc := free_of_main hm ⟨rfl, rfl⟩
    simp only [hm, Option.some.injEq] at h
    subst h
    exact Or.inl (.leavingOn env hpc (.of_main rfl rfl id ⟨rfl, rfl, rfl, rfl⟩ hpc ⟨rfl, rfl⟩ fun hb => nomatch hb))
  | opening | starting | startRaw | subscribing | top | housekeeping | poll | tail | get | taken | crediting | ingest
  | closing | unregistering | stopRaw =>
    rw [hm] at hb
    cases hb
  | ended | crashed => simp [hm] at h

/-- **What a step of the main thread does to the events.** -/
theorem mainStep_cases {cfg : Settings} {env : Env} (h : s.mainStep cfg env = some s') :
    NoEvent s s' ∨ ∃ i, TakesOut i s s' ∨ TakesOff i s s' ∨ HandsOver i s s' := by
  cases hb : s.main.beforeEmptying with
  | true => exact mainStep_before hb h
  | false => exact mainStep_after hb h

/-- The sizes depend on the callbacks only. -/
theorem sizes_of_callbacks (h : s'.callbacks = s.callbacks) (l : List ℕ) : s'.sizes l = s.sizes l := by
  unfold St.sizes St.sizeOf
  rw [h]

theorem bytesAt_of_callbacks (h : s'.callbacks = s.callbacks) (q : CallbackPc → Bool) : s'.bytesAt q = s.bytesAt q := by
  unfold St.bytesAt
  rw [h]

/-- What a step of the main thread leaves to show. -/
theorem Accounts.keep (h : Accounts s) (hk : MainKeeps s s')
    (htotal : s'.bytes = s.sizes s'.queue + s.bytesAt CallbackPc.isReserved + s.bytesAt CallbackPc.isRejected +
      s.sizes s'.takenOut) (hwithin : s'.bytes ≤ s.bytes) (hperm : s'.putEvents.Perm s.putEvents)
    (hreleased : ∀ i ∈ s'.released, i ∈ s'.main.handing ++ s'.handed) (hhanding : ∀ i ∈ s'.main.handing, i ∈ s'.released)
    (hloop : s'.main.beforeEmptying = true → ∀ i ∈ s'.handed, i ∈ s'.released) : Accounts s' where
  total := by
    rw [htotal, sizes_of_callbacks hk.callbacks, sizes_of_callbacks hk.callbacks, bytesAt_of_callbacks hk.callbacks,
      bytesAt_of_callbacks hk.callbacks]
  within := hwithin.trans h.within
  nodup := hperm.nodup_iff.2 h.nodup
  put i := by rw [hperm.mem_iff, hk.callbacks, h.put i]
  released := hreleased
  handing := hhanding
  loop := hloop
  refused i c hc hpc := by
    rw [hk.callbacks] at hc
    obtain ⟨himage, hacc⟩ := h.refused i c hc hpc
    exact ⟨himage, hk.accepting hacc⟩
  discarded i c hc hpc := by
    rw [hk.callbacks] at hc
    rw [hk.queueError]
    exact h.discarded i c hc hpc

theorem Accounts.noEvent (h : Accounts s) (hn : NoEvent s s') : Accounts s' := by
  have htaken : s'.takenOut = s.takenOut := by rw [St.takenOut, St.takenOut, hn.holding, hn.handed, hn.released]
  refine h.keep hn.toMainKeeps ?_ hn.bytes.le ?_ ?_ ?_ fun hb => ?_
  · rw [hn.bytes, hn.queue, htaken]
    exact h.total
  · rw [St.putEvents, St.putEvents, hn.queue, hn.holding, hn.handing, hn.handed]
  · rw [hn.handing, hn.handed, hn.released]
    exact h.released
  · rw [hn.handing, hn.released]
    exact h.handing
  · rw [hn.handed, hn.released]
    exact h.loop (hn.before hb)

theorem Accounts.takesOut (h : Accounts s) (ht : TakesOut i s s') : Accounts s' := by
  obtain ⟨hhold, hhand⟩ := ht.empty
  obtain ⟨hhold', hhand'⟩ := ht.holding
  refine h.keep ht.toMainKeeps ?_ ht.bytes.le ?_ ?_ ?_ fun hb => ?_
  · rw [ht.bytes, h.total, ht.queue, St.takenOut, St.takenOut, hhold, hhold', ht.handed, ht.released, sizes_cons,
      List.singleton_append, sizes_cons, List.nil_append]
    omega
  · rw [St.putEvents, St.putEvents, ht.queue, hhold, hhand, hhold', hhand', ht.handed]
    exact List.perm_middle
  · rw [hhand', ht.handed, ht.released, ← hhand]
    exact h.released
  · rw [hhand']
    simp
  · rw [ht.handed, ht.released]
    exact h.loop (ht.before hb)

theorem Accounts.takesOff (h : Accounts s) (ht : TakesOff i s s') : Accounts s' := by
  obtain ⟨hhold, hhand⟩ := ht.holding
  obtain ⟨hhold', hhand'⟩ := ht.handing
  have hnot : i ∉ s.handed := by
    have hnd := h.nodup
    rw [St.putEvents, hhold, hhand] at hnd
    have := (List.nodup_append.1 hnd).2.1
    simpa using (List.nodup_cons.1 this).1
  have hkept : s'.handed.filter (· ∉ s'.released) = s.handed.filter (· ∉ s.released) := by
    rw [ht.handed, ht.released]
    refine List.filter_congr fun j hj => ?_
    have hne : j ≠ i := fun h => hnot (h ▸ hj)
    simp [hne]
  refine h.keep ht.toMainKeeps ?_ ?_ ?_ ?_ ?_ fun hb => ?_
  · rw [ht.bytes, h.total, ht.queue, St.takenOut, St.takenOut, hkept, hhold, hhold', List.singleton_append, sizes_cons,
      List.nil_append]
    omega
  · have := sizeOf_nonneg s i
    rw [ht.bytes]
    omega
  · rw [St.putEvents, St.putEvents, ht.queue, hhold, hhand, hhold', hhand', ht.handed]
    exact List.Perm.refl _
  · intro j hj
    rw [ht.released, List.mem_append, List.mem_singleton] at hj
    rw [hhand', ht.handed]
    rcases hj with hj | rfl
    · have hold := h.released j hj
      rw [hhand, List.nil_append] at hold
      exact List.mem_append_right _ hold
    · simp
  · rw [hhand', ht.released]
    simp
  · rw [ht.handed, ht.released]
    exact fun j hj => List.mem_append_left _ (h.loop (ht.before hb) j hj)

theorem Accounts.handsOver (h : Accounts s) (ht : HandsOver i s s') : Accounts s' := by
  obtain ⟨hhold', hhand'⟩ := ht.empty
  have htaken : s.sizes s'.takenOut = s.sizes s.takenOut := by
    rw [St.takenOut, St.takenOut, hhold', ht.handed, ht.released, List.nil_append, List.filter_append, sizes_append,
      sizes_append]
    rcases ht.had with ⟨hhold, hhand⟩ | ⟨hhold, hhand, -⟩
    · have hrel : i ∈ s.released := h.handing i (by simp [hhand])
      simp [hhold, hrel, St.sizes]
    · have hrel : i ∉ s.released := by
        intro hmem
        have hhanded := h.released i hmem
        have hnd := h.nodup
        rw [St.putEvents, hhold, hhand] at hnd
        rw [hhand, List.nil_append] at hhanded
        exact (List.nodup_cons.1 (List.nodup_append.1 hnd).2.1).1 (by simpa using hhanded)
      simp [hhold, hrel, St.sizes]
      omega
  have hone : s.main.holding ++ s.main.handing = [i] := by
    rcases ht.had with ⟨hhold, hhand⟩ | ⟨hhold, hhand, -⟩ <;> simp [hhold, hhand]
  refine h.keep ht.toMainKeeps ?_ ht.bytes.le ?_ ?_ ?_ fun hb => ?_
  · rw [ht.bytes, ht.queue, htaken]
    exact h.total
  · rw [St.putEvents, St.putEvents, ht.queue, hhold', hhand', ht.handed, ← List.append_assoc s.main.holding, hone]
    exact List.Perm.append_left _ (List.perm_append_singleton i s.handed)
  · intro j hj
    rw [ht.released] at hj
    rw [hhand', ht.handed, List.nil_append]
    rcases List.mem_append.1 (h.released j hj) with hj | hj
    · have : j ∈ s.main.holding ++ s.main.handing := List.mem_append_right _ hj
      rw [hone] at this
      exact List.mem_append_right _ this
    · exact List.mem_append_left _ hj
  · rw [hhand']
    simp
  · rcases ht.had with ⟨-, hhand⟩ | ⟨-, -, hlate⟩
    · rw [ht.handed, ht.released]
      intro j hj
      rcases List.mem_append.1 hj with hj | hj
      · exact h.loop (ht.before hb) j hj
      · exact h.handing j (by rw [hhand]; exact hj)
    · rw [hlate] at hb
      cases hb

/-! ## Every run -/

/-- The events put and not handed over are those queued or taken out. -/
theorem mem_putEvents {j : ℕ} (h : j ∈ s.queue ∨ j ∈ s.takenOut) : j ∈ s.putEvents := by
  simp only [St.putEvents, St.takenOut, List.mem_append, List.mem_filter] at h ⊢
  tauto

/-- A new call of `callback`. -/
theorem Accounts.deliver (h : Accounts s) (topic : Topic) (payload : Payload) :
    Accounts { s with callbacks := s.callbacks ++ [⟨topic, payload, .entered⟩] } := by
  have hlt : ∀ j ∈ s.putEvents, j < s.callbacks.length := by
    intro j hj
    obtain ⟨c, hc, -⟩ := (h.put j).1 hj
    exact (List.getElem?_eq_some_iff.1 hc).1
  have hget : ∀ (j : ℕ) (c : Callback), (s.callbacks ++ [⟨topic, payload, .entered⟩])[j]? = some c →
      s.callbacks[j]? = some c ∨ c.pc = .entered := by
    intro j c hj
    by_cases hj' : j < s.callbacks.length
    · rw [List.getElem?_append_left hj'] at hj
      exact Or.inl hj
    · rw [List.getElem?_append_right (not_lt.1 hj')] at hj
      have hmem := List.mem_of_getElem? hj
      rw [List.mem_singleton.1 hmem]
      exact Or.inr rfl
  have hsizes : ∀ l, (∀ j ∈ l, j ∈ s.putEvents) →
      St.sizes { s with callbacks := s.callbacks ++ [⟨topic, payload, .entered⟩] } l = s.sizes l := by
    intro l hl
    unfold St.sizes St.sizeOf
    rw [List.map_congr_left fun j hj => by rw [List.getElem?_append_left (hlt j (hl j hj))]]
  have hat : ∀ q : CallbackPc → Bool, q .entered = false →
      St.bytesAt { s with callbacks := s.callbacks ++ [⟨topic, payload, .entered⟩] } q = s.bytesAt q := by
    intro q hq
    simp [St.bytesAt, hq]
  have htotal := h.total
  rw [← hsizes _ fun j hj => mem_putEvents (Or.inl hj), ← hsizes _ fun j hj => mem_putEvents (Or.inr hj), ← hat _ rfl,
    ← hat CallbackPc.isRejected rfl] at htotal
  refine ⟨htotal, h.within, h.nodup, fun j => ?_, h.released, h.handing, h.loop, fun j c hc hpc => ?_, fun j c hc hpc => ?_⟩
  · refine (h.put j).trans ⟨?_, ?_⟩
    · rintro ⟨c, hc, hpc⟩
      exact ⟨c, by rw [List.getElem?_append_left (List.getElem?_eq_some_iff.1 hc).1]; exact hc, hpc⟩
    · rintro ⟨c, hc, hpc⟩
      rcases hget j c hc with hc | hentered
      · exact ⟨c, hc, hpc⟩
      · rw [hentered] at hpc
        cases hpc
  · rcases hget j c hc with hc | hentered
    · exact h.refused j c hc hpc
    · rw [hentered] at hpc
      cases hpc
  · rcases hget j c hc with hc | hentered
    · exact h.discarded j c hc hpc
    · rw [hentered] at hpc
      cases hpc

/-- **Every step keeps the accounts.** -/
theorem Accounts.step {cfg : Settings} {a : Act} (h : Accounts s) (hs : step cfg a s = some s') : Accounts s' := by
  unfold RecordQueue.step at hs
  cases a with
  | deliver topic payload =>
    simp only at hs
    split at hs <;> cases hs
    exact h.deliver topic payload
  | callback i =>
    simp only at hs
    split at hs
    · rename_i c hc
      obtain ⟨pc, hm⟩ := callbackStep_move hs
      exact h.callback hc hm
    · cases hs
  | signal =>
    cases hs
    exact ⟨h.total, h.within, h.nodup, h.put, h.released, h.handing, h.loop, h.refused, h.discarded⟩
  | main env =>
    rcases mainStep_cases hs with hn | ⟨i, ht | ht | ht⟩
    · exact h.noEvent hn
    · exact h.takesOut ht
    · exact h.takesOff ht
    · exact h.handsOver ht

theorem Accounts.run {cfg : Settings} {l : List Act} (hr : run cfg l = some s) : Accounts s :=
  Machine.run_invariant (fun _ _ _ h hs => Accounts.step h hs) Accounts.init hr

/-! ## The place of a message -/

/-- Where a message handed to `callback` can be. -/
inductive Place where
  | pending | reserved | rejected | queued | taken | handed | refused | discarded
  deriving DecidableEq, Repr

/-- The `i`-th message is at a place. -/
def St.IsAt (s : St) (i : ℕ) : Place → Prop
  | .pending => ∃ c, s.callbacks[i]? = some c ∧ c.pc.isPending = true
  | .reserved => ∃ c, s.callbacks[i]? = some c ∧ c.pc.isReserved = true
  | .rejected => ∃ c, s.callbacks[i]? = some c ∧ c.pc.isRejected = true
  | .queued => i ∈ s.queue
  | .taken => i ∈ s.main.holding
  | .handed => i ∈ s.main.handing ∨ i ∈ s.handed
  | .refused => ∃ c, s.callbacks[i]? = some c ∧ c.pc = .refused ∧ Topic.isImage c.topic = true ∧ s.accepting = false
  | .discarded => ∃ c, s.callbacks[i]? = some c ∧ c.pc.isDiscarded = true ∧ s.queueError ≠ none

/-- The place that a callback's own position tells, unless its event is put. -/
def CallbackPc.place : CallbackPc → Option Place
  | .entered | .sized | .budgeting => some .pending
  | .reserved => some .reserved
  | .full | .returning => some .rejected
  | .refused => some .refused
  | .flagging | .leaving | .raising | .discarded => some .discarded
  | .put => none

/-- A message at a place has its event put, or its callback tells the place. -/
theorem place_of_isAt (hc : s.callbacks[i]? = some c) {place : Place} (h : s.IsAt i place) :
    c.pc.place = some place ∨ (place = .queued ∧ i ∈ s.queue ∨ place = .taken ∧ i ∈ s.main.holding ∨
      place = .handed ∧ i ∈ s.main.handing ++ s.handed) := by
  cases place with
  | queued => exact Or.inr (Or.inl ⟨rfl, h⟩)
  | taken => exact Or.inr (Or.inr (Or.inl ⟨rfl, h⟩))
  | handed => exact Or.inr (Or.inr (Or.inr ⟨rfl, List.mem_append.2 h⟩))
  | pending | reserved | rejected =>
    obtain ⟨c', hc', hpc⟩ := h
    obtain rfl : c = c' := Option.some.inj (hc.symm.trans hc')
    left
    cases hp : c.pc <;> first | rfl | simp [hp, CallbackPc.isPending, CallbackPc.isReserved, CallbackPc.isRejected] at hpc
  | refused =>
    obtain ⟨c', hc', hpc, -⟩ := h
    obtain rfl : c = c' := Option.some.inj (hc.symm.trans hc')
    exact Or.inl (by rw [hpc]; rfl)
  | discarded =>
    obtain ⟨c', hc', hpc, -⟩ := h
    obtain rfl : c = c' := Option.some.inj (hc.symm.trans hc')
    left
    cases hp : c.pc <;> first | rfl | simp [hp, CallbackPc.isDiscarded] at hpc

/-- The place that a callback tells. -/
theorem Accounts.isAt_place (h : Accounts s) (hc : s.callbacks[i]? = some c) {place : Place}
    (hp : c.pc.place = some place) : s.IsAt i place := by
  cases hpc : c.pc with
  | entered | sized | budgeting | reserved | full | returning =>
    obtain rfl : _ = place := by simpa [hpc, CallbackPc.place] using hp
    exact ⟨c, hc, by rw [hpc]; rfl⟩
  | refused =>
    obtain rfl : _ = place := by simpa [hpc, CallbackPc.place] using hp
    exact ⟨c, hc, hpc, h.refused i c hc hpc⟩
  | flagging | leaving | raising | discarded =>
    obtain rfl : _ = place := by simpa [hpc, CallbackPc.place] using hp
    exact ⟨c, hc, by rw [hpc]; rfl, h.discarded i c hc (by rw [hpc]; rfl)⟩
  | put => simp [hpc, CallbackPc.place] at hp

/-- **A message is at exactly one place.** -/
theorem Accounts.place (h : Accounts s) (hi : i < s.callbacks.length) : ∃! place, s.IsAt i place := by
  obtain ⟨c, hc⟩ : ∃ c, s.callbacks[i]? = some c := ⟨_, List.getElem?_eq_getElem hi⟩
  have hput : i ∈ s.putEvents ↔ c.pc.place = none := by
    rw [h.put i]
    constructor
    · rintro ⟨c', hc', hpc⟩
      obtain rfl : c = c' := Option.some.inj (hc.symm.trans hc')
      rw [hpc]
      rfl
    · intro hnone
      refine ⟨c, hc, ?_⟩
      cases hpc : c.pc <;> first | rfl | simp [hpc, CallbackPc.place] at hnone
  cases hp : c.pc.place with
  | some place =>
    refine ⟨place, h.isAt_place hc hp, fun place' h' => ?_⟩
    rcases place_of_isAt hc h' with hp' | hevent
    · exact Option.some.inj (hp'.symm.trans hp)
    · have hmem : i ∈ s.putEvents := by
        simp only [St.putEvents, List.mem_append] at hevent ⊢
        tauto
      have hnone := hput.1 hmem
      rw [hp] at hnone
      cases hnone
  | none =>
    have hmem := hput.2 hp
    have hnd := h.nodup
    simp only [St.putEvents] at hmem hnd
    obtain ⟨-, hrest, hqueue⟩ := List.nodup_append.1 hnd
    obtain ⟨-, -, hhold⟩ := List.nodup_append.1 hrest
    have hone : ∀ place', s.IsAt i place' → place' = .queued ∧ i ∈ s.queue ∨ place' = .taken ∧ i ∈ s.main.holding ∨
        place' = .handed ∧ i ∈ s.main.handing ++ s.handed := fun place' h' =>
      (place_of_isAt hc h').resolve_left (by simp [hp])
    rcases List.mem_append.1 hmem with hq | hmem
    · refine ⟨.queued, hq, fun place' h' => ?_⟩
      rcases hone place' h' with ⟨rfl, -⟩ | ⟨rfl, ht⟩ | ⟨rfl, ht⟩
      · rfl
      · exact absurd rfl (hqueue i hq i (List.mem_append_left _ ht))
      · exact absurd rfl (hqueue i hq i (List.mem_append_right _ ht))
    · rcases List.mem_append.1 hmem with ht | hh
      · refine ⟨.taken, ht, fun place' h' => ?_⟩
        rcases hone place' h' with ⟨rfl, hq⟩ | ⟨rfl, -⟩ | ⟨rfl, hh⟩
        · exact absurd rfl (hqueue i hq i hmem)
        · rfl
        · exact absurd rfl (hhold i ht i hh)
      · refine ⟨.handed, List.mem_append.1 hh, fun place' h' => ?_⟩
        rcases hone place' h' with ⟨rfl, hq⟩ | ⟨rfl, ht⟩ | ⟨rfl, -⟩
        · exact absurd rfl (hqueue i hq i hmem)
        · exact absurd rfl (hhold i ht i hh)
        · rfl

/-- **The accounts of the event queue.** Whatever the order of steps: `state['bytes']` is the total size of the queued
events, of those reserved and not put yet, of those rejected and not given back yet, and of those taken out and not taken
off yet; it is neither negative nor above 128 MiB. Up to the `finally` block's own emptying of the queue, an event taken
out is the one in the hands of the main loop. And every message is at exactly one place: its callback has not reserved
its bytes yet, it is at one of these four, or handed over, refused as an image after the stop, or discarded with
`state['error']` set. -/
theorem queue_accounts {cfg : Settings} {l : List Act} {s : St} (hr : run cfg l = some s) :
    s.bytes = s.sizes s.queue + s.bytesAt CallbackPc.isReserved + s.bytesAt CallbackPc.isRejected + s.sizes s.takenOut ∧
      0 ≤ s.bytes ∧ s.bytes ≤ budget ∧ (s.main.beforeEmptying = true → s.takenOut = s.main.holding) ∧
      ∀ i < s.callbacks.length, ∃! place, s.IsAt i place := by
  have h := Accounts.run hr
  refine ⟨h.total, ?_, h.within, fun hb => ?_, fun i hi => h.place hi⟩
  · have hqueue := sizes_nonneg s s.queue
    have hreserved := bytesAt_nonneg s CallbackPc.isReserved
    have hrejected := bytesAt_nonneg s CallbackPc.isRejected
    have htaken := sizes_nonneg s s.takenOut
    rw [h.total]
    omega
  · have hnone : s.handed.filter (· ∉ s.released) = [] := by
      refine List.filter_eq_nil_iff.2 fun j hj => ?_
      simpa using h.loop hb j hj
    rw [St.takenOut, hnone, List.append_nil]

/-- An image in the queue, and one whose bytes are reserved. -/
theorem queue_accounts_two :
    ∃ s, run rgbOnly (mains 8 ++ deliverImage 0 4 ++ deliverImage 1 3) = some s ∧ s.queue = [0] ∧ s.bytes = 2 * 2764800 ∧
      s.bytes = s.sizes s.queue + s.bytesAt CallbackPc.isReserved + s.bytesAt CallbackPc.isRejected + s.sizes s.takenOut := by
  have hrun : (run rgbOnly (mains 8 ++ deliverImage 0 4 ++ deliverImage 1 3)).map (fun s => (s.queue, s.bytes)) =
      some ([0], 2 * 2764800) := by decide +kernel
  obtain ⟨s, hs, heq⟩ := Option.map_eq_some_iff.1 hrun
  rw [Prod.mk.injEq] at heq
  exact ⟨s, hs, heq.1, heq.2, (queue_accounts hs).1⟩

end Agilex.Capture.RecordQueue
