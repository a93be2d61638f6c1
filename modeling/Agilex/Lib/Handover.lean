import Agilex.Lib.Machine

/-!
# Handing over to a rebuilt copy

A structure is rebuilt in the background while it goes on being changed. The rebuilder copies it, builds a new one from
the copy, and replays on the new one the operations that were logged since; when the log is empty it puts the new one in
the place of the old one. An empty copy is not built from: the empty structure takes its place, and the log stays.

- `Kit` is what a rebuilder is made of, `step` one step of the owner or of the rebuilder.
- `run_present`: operations are only replayed on a structure that is there, whatever the order of the steps.
- Two orders go wrong, each with a name. `InTime` keeps the owner, who logs until a rebuild ends, from operating between the
  replacement and the end: the next rebuild would do that operation again (`late_twice`). `NoneMissed` keeps the empty
  structure from being put in place of one that something was logged for.
- In all others `run_handover`: the new structure stands to the old one as the relation says that operations keep;
  `run_meaning`: no operation is lost and none is done twice; `run_log`: the log is empty when a rebuild begins.
- `replace_keeps`: exactly where a replacement keeps what the structure means.
-/

namespace Agilex.Lib.Handover

open Machine

/-- `run` is an operation on the structure. Copying may leave the structure in another shape. -/
structure Kit (X O C : Type) where
  run : X → O → X
  copy : X → C
  copied : X → X
  isEmpty : C → Bool
  build : C → X
  empty : X

inductive Phase (X C : Type) where
  | idle
  | copied (c : C)
  | replaying (c : C) (new : X)
  | emptied (c : C)
  | replaced

/-- `logging` is on while a rebuild goes on. -/
structure State (X O C : Type) where
  live : X
  log : List O
  logging : Bool
  phase : Phase X C

/-- Before any rebuild. -/
def State.start {X O C : Type} (x : X) : State X O C := ⟨x, [], false, .idle⟩

/-- The owner operates, touches the structure without an operation, or turns to another structure where this one is not
being rebuilt; the rebuilder copies, builds, replays one operation, puts the new structure in place, and ends. -/
inductive Act (X O : Type) where
  | operate (o : O)
  | touch (x : X)
  | turn (x : X)
  | copy
  | build
  | replay
  | replace
  | finish

variable {X O C : Type} (K : Kit X O C)

def step : Act X O → State X O C → Option (State X O C)
  | .operate o, s =>
    some { s with live := K.run s.live o, log := if s.logging then s.log ++ [o] else s.log }
  | .touch x, s => some { s with live := x }
  | .turn x, s =>
    match s.phase with
    | .idle | .replaced => some { s with live := x }
    | _ => none
  | .copy, s =>
    match s.phase with
    | .idle => some { s with live := K.copied s.live, logging := true, phase := .copied (K.copy s.live) }
    | _ => none
  | .build, s =>
    match s.phase with
    | .copied c => some { s with phase := if K.isEmpty c then .emptied c else .replaying c (K.build c) }
    | _ => none
  | .replay, s =>
    match s.phase, s.log with
    | .replaying c new, o :: log => some { s with phase := .replaying c (K.run new o), log := log }
    | _, _ => none
  | .replace, s =>
    match s.phase, s.log with
    | .replaying _ new, [] => some { s with live := new, phase := .replaced }
    | .emptied _, _ => some { s with live := K.empty, phase := .replaced }
    | _, _ => none
  | .finish, s =>
    match s.phase with
    | .replaced => some { s with logging := false, phase := .idle }
    | _ => none

/-- The operations on the structure, one after the other. -/
def Kit.runAll (x : X) (os : List O) : X := os.foldl K.run x

@[simp] theorem Kit.runAll_nil (x : X) : K.runAll x [] = x := rfl

@[simp] theorem Kit.runAll_cons (x : X) (o : O) (os : List O) : K.runAll x (o :: os) = K.runAll (K.run x o) os := rfl

theorem Kit.runAll_snoc (x : X) (os : List O) (o : O) : K.runAll x (os ++ [o]) = K.run (K.runAll x os) o := by
  simp [Kit.runAll]

/-- How a structure and its rebuilt copy stand to each other, as far as the operations that are allowed keep it. `Same`
is what a touch leaves as it is, `Present` what an operation must find when it is replayed. -/
structure Relation (Allowed : O → Prop) where
  Ok : X → Prop
  Present : X → Prop
  Same : X → X → Prop
  Rel : C → X → X → Prop
  ok_empty : Ok K.empty
  ok_run : ∀ x o, Ok x → Allowed o → Ok (K.run x o)
  ok_copied : ∀ x, Ok x → Ok (K.copied x)
  ok_same : ∀ x y, Same x y → Ok y
  ok_build : ∀ c, Ok (K.build c)
  build_empty : ∀ c, K.isEmpty c = true → K.build c = K.empty
  present_build : ∀ c, K.isEmpty c = false → Present (K.build c)
  present_run : ∀ x o, Ok x → Present x → Allowed o → Present (K.run x o)
  rel_build : ∀ x, Ok x → Rel (K.copy x) (K.copied x) (K.build (K.copy x))
  rel_run : ∀ c x y o, Ok x → Ok y → Rel c x y → Allowed o → Rel c (K.run x o) (K.run y o)
  rel_same : ∀ c x x' y, Same x x' → Rel c x y → Rel c x' y

variable {K} {Allowed : O → Prop} (R : Relation K Allowed)

/-- The owner does what is allowed. -/
def Relation.Fair : Act X O → State X O C → Prop
  | .operate o, _ => Allowed o
  | .touch x, s => R.Same s.live x
  | .turn x, _ => R.Ok x
  | _, _ => True

/-- The owner does not operate on a structure that has just been put in place, as it would still log that. -/
def InTime : Act X O → State X O C → Prop
  | .operate _, ⟨_, _, _, .replaced⟩ => False
  | _, _ => True

/-- Nothing has been logged where the empty structure is put in place. -/
def NoneMissed : Act X O → State X O C → Prop
  | .replace, ⟨_, log, _, .emptied _⟩ => log = []
  | _, _ => True

/-- The condition on a step: the owner does what is allowed, and neither of the two races happens. -/
def Relation.Cond (a : Act X O) (s : State X O C) : Prop := R.Fair a s ∧ InTime a s ∧ NoneMissed a s

variable {R} {s s' : State X O C} {a : Act X O} {l : List (Act X O)} {x : X}

theorem Relation.ok_runAll {os : List O} {x : X} (hx : R.Ok x) (h : ∀ o ∈ os, Allowed o) : R.Ok (K.runAll x os) := by
  induction os generalizing x with
  | nil => exact hx
  | cons o os ih => exact ih (R.ok_run x o hx (h o (by simp))) fun o' ho' => h o' (by simp [ho'])

/-! ## Every order of the steps -/

/-- What is replayed is allowed, and so is what it is replayed on. -/
structure Relation.Fed (R : Relation K Allowed) (s : State X O C) : Prop where
  live : R.Ok s.live
  allowed : ∀ o ∈ s.log, Allowed o
  new : ∀ c new, s.phase = .replaying c new → R.Ok new ∧ R.Present new

theorem Relation.fed_start (h : R.Ok x) : R.Fed (.start x) := ⟨h, by simp [State.start], by simp [State.start]⟩

theorem Relation.Fed.step (h : R.Fed s) (hf : R.Fair a s) (hs : Handover.step K a s = some s') : R.Fed s' := by
  obtain ⟨live, log, logging, phase⟩ := s
  obtain ⟨hlive, hlog, hnew⟩ := h
  cases a with
  | operate o =>
    obtain rfl := Option.some.inj hs
    refine ⟨R.ok_run _ _ hlive hf, fun o' ho' => ?_, hnew⟩
    cases logging with
    | false => exact hlog o' ho'
    | true => exact (List.mem_append.mp ho').elim (hlog o') fun ho' => List.mem_singleton.mp ho' ▸ hf
  | touch x =>
    obtain rfl := Option.some.inj hs
    exact ⟨R.ok_same _ _ hf, hlog, hnew⟩
  | turn x =>
    cases phase <;> simp only [Handover.step, reduceCtorEq] at hs
    all_goals
      obtain rfl := Option.some.inj hs
      exact ⟨hf, hlog, hnew⟩
  | copy =>
    cases phase <;> simp only [Handover.step, reduceCtorEq] at hs
    obtain rfl := Option.some.inj hs
    exact ⟨R.ok_copied _ hlive, hlog, by simp⟩
  | build =>
    cases phase <;> simp only [Handover.step, reduceCtorEq] at hs
    next c =>
      obtain rfl := Option.some.inj hs
      refine ⟨hlive, hlog, fun c' new hp => ?_⟩
      cases he : K.isEmpty c with
      | true => simp [he] at hp
      | false =>
        simp only [he, Bool.false_eq_true, if_false, Phase.replaying.injEq] at hp
        obtain ⟨rfl, rfl⟩ := hp
        exact ⟨R.ok_build _, R.present_build _ he⟩
  | replay =>
    cases phase <;> cases log <;> simp only [Handover.step, reduceCtorEq] at hs
    obtain rfl := Option.some.inj hs
    obtain ⟨hok, hp⟩ := hnew _ _ rfl
    have ho := hlog _ List.mem_cons_self
    refine ⟨hlive, fun o' ho' => hlog o' (List.mem_cons_of_mem _ ho'), fun c' new' hp' => ?_⟩
    obtain ⟨rfl, rfl⟩ := Phase.replaying.inj hp'
    exact ⟨R.ok_run _ _ hok ho, R.present_run _ _ hok hp ho⟩
  | replace =>
    cases phase <;> cases log <;> simp only [Handover.step, reduceCtorEq] at hs
    · obtain rfl := Option.some.inj hs
      exact ⟨(hnew _ _ rfl).1, hlog, by simp⟩
    all_goals
      obtain rfl := Option.some.inj hs
      exact ⟨R.ok_empty, hlog, by simp⟩
  | finish =>
    cases phase <;> simp only [Handover.step, reduceCtorEq] at hs
    obtain rfl := Option.some.inj hs
    exact ⟨hlive, hlog, by simp⟩

/-- **Operations are only replayed on a structure that is there**, whatever the order of the steps. -/
theorem run_present (hx : R.Ok x) (hr : run (Handover.step K) l (.start x) = some s)
    (hc : Along (Handover.step K) R.Fair l (.start x)) {c : C} {new : X} (hp : s.phase = .replaying c new) :
    R.Present new :=
  ((run_invariant_along (fun _ _ _ hf h hs => h.step hf hs) (R.fed_start hx) hr hc).new c new hp).2

/-- An operation comes between a replacement and the end of its rebuild. -/
def late (o : O) : List (Act X O) := [.copy, .build, .replace, .operate o, .finish]

/-- An operation that comes late is left in the log when the next rebuild begins. -/
theorem run_late {o : O} (hfull : K.isEmpty (K.copy x) = false) :
    run (Handover.step K) (late o) (.start x) = some ⟨K.run (K.build (K.copy x)) o, [o], false, .idle⟩ := by
  simp [late, run, Handover.step, State.start, hfull]

/-- **An operation that comes late is done twice**: once on the new structure, and once more by the next rebuild. -/
theorem late_twice {o : O} (hfull : K.isEmpty (K.copy x) = false)
    (hnext : K.isEmpty (K.copy (K.run (K.build (K.copy x)) o)) = false) :
    run (Handover.step K) (late o ++ [.copy, .build, .replay, .replace]) (.start x) =
      some ⟨K.run (K.build (K.copy (K.run (K.build (K.copy x)) o))) o, [], true, .replaced⟩ :=
  run_append.2 ⟨_, run_late hfull, by simp [run, Handover.step, hnext]⟩

/-! ## The orders without a race -/

/-- Replaying the rest of the log on the new structure leads to one that stands to the live one as the relation says. -/
structure Relation.Behind (R : Relation K Allowed) (s : State X O C) (c : C) (new : X) : Prop where
  logging : s.logging = true
  rel : R.Rel c s.live (K.runAll new s.log)

/-- What holds in each phase. -/
def Relation.Stands (R : Relation K Allowed) (s : State X O C) : Phase X C → Prop
  | .idle => s.log = [] ∧ s.logging = false
  | .copied c => R.Behind s c (K.build c)
  | .replaying c new => R.Behind s c new
  | .emptied c => R.Behind s c K.empty
  | .replaced => s.log = []

structure Relation.Inv (R : Relation K Allowed) (s : State X O C) : Prop where
  fed : R.Fed s
  stands : R.Stands s s.phase

theorem Relation.inv_start (h : R.Ok x) : R.Inv (.start x) := ⟨R.fed_start h, rfl, rfl⟩

/-- An operation that is done and logged leaves the new structure as far behind as it was. -/
theorem Relation.Behind.operate {c : C} {new : X} (h : R.Behind s c new) (hf : R.Fed s) (hnew : R.Ok new) {o : O}
    (ho : Allowed o) :
    R.Behind { s with live := K.run s.live o, log := if s.logging then s.log ++ [o] else s.log } c new where
  logging := h.logging
  rel := by
    simp only [h.logging, if_true, Kit.runAll_snoc]
    exact R.rel_run _ _ _ _ hf.live (R.ok_runAll hnew hf.allowed) h.rel ho

theorem Relation.Behind.touch {c : C} {new x : X} (h : R.Behind s c new) (hs : R.Same s.live x) :
    R.Behind { s with live := x } c new :=
  { h with rel := R.rel_same _ _ _ _ hs h.rel }

theorem Relation.Stands.step (h : R.Stands s s.phase) (hf : R.Fed s) (hc : R.Cond a s)
    (hs : Handover.step K a s = some s') : R.Stands s' s'.phase := by
  obtain ⟨live, log, logging, phase⟩ := s
  obtain ⟨hfair, htime, hnone⟩ := hc
  cases a with
  | operate o =>
    obtain rfl := Option.some.inj hs
    cases phase with
    | idle =>
      obtain ⟨rfl, rfl⟩ := h
      exact ⟨rfl, rfl⟩
    | copied c => exact Relation.Behind.operate h hf (R.ok_build c) hfair
    | replaying c new => exact Relation.Behind.operate h hf (hf.new c new rfl).1 hfair
    | emptied c => exact Relation.Behind.operate h hf R.ok_empty hfair
    | replaced => exact htime.elim
  | touch x =>
    obtain rfl := Option.some.inj hs
    cases phase with
    | idle => exact h
    | copied c => exact Relation.Behind.touch h hfair
    | replaying c new => exact Relation.Behind.touch h hfair
    | emptied c => exact Relation.Behind.touch h hfair
    | replaced => exact h
  | turn x =>
    cases phase <;> simp only [Handover.step, reduceCtorEq] at hs
    all_goals
      obtain rfl := Option.some.inj hs
      exact h
  | copy =>
    cases phase <;> simp only [Handover.step, reduceCtorEq] at hs
    obtain rfl := Option.some.inj hs
    obtain ⟨rfl, -⟩ := h
    exact ⟨rfl, R.rel_build _ hf.live⟩
  | build =>
    cases phase <;> simp only [Handover.step, reduceCtorEq] at hs
    next c =>
      obtain rfl := Option.some.inj hs
      have hb : R.Behind _ c _ := h
      cases he : K.isEmpty c with
      | true =>
        rw [R.build_empty c he] at hb
        exact { hb with }
      | false => exact { hb with }
  | replay =>
    cases phase <;> cases log <;> simp only [Handover.step, reduceCtorEq] at hs
    obtain rfl := Option.some.inj hs
    exact { h with }
  | replace =>
    cases phase <;> cases log <;> simp only [Handover.step, reduceCtorEq] at hs
    · obtain rfl := Option.some.inj hs
      rfl
    · obtain rfl := Option.some.inj hs
      rfl
    · exact absurd hnone (List.cons_ne_nil _ _)
  | finish =>
    cases phase <;> simp only [Handover.step, reduceCtorEq] at hs
    obtain rfl := Option.some.inj hs
    exact ⟨h, rfl⟩

/-- Every step without a race keeps the invariant. -/
theorem Relation.Inv.step (h : R.Inv s) (hc : R.Cond a s) (hs : Handover.step K a s = some s') : R.Inv s' :=
  ⟨h.fed.step hc.1 hs, h.stands.step h.fed hc hs⟩

/-- Operations one after the other, while there is a rebuild. -/
theorem Relation.Inv.operates (h : R.Inv s) (hl : s.logging = true) (hp : s.phase ≠ .replaced) {os : List O}
    (hos : ∀ o ∈ os, Allowed o) : R.Inv ⟨K.runAll s.live os, s.log ++ os, s.logging, s.phase⟩ := by
  induction os generalizing s with
  | nil => simpa using h
  | cons o os ih =>
    obtain ⟨live, log, logging, phase⟩ := s
    obtain rfl : logging = true := hl
    have htime : InTime (.operate o : Act X O) ⟨live, log, true, phase⟩ := by
      cases phase with
      | replaced => exact absurd rfl hp
      | _ => trivial
    have hstep := h.step (a := .operate o) ⟨hos o (by simp), htime, trivial⟩ rfl
    simpa using ih hstep rfl hp fun o' ho' => hos o' (by simp [ho'])

theorem run_inv (h : R.Inv s) (hr : run (Handover.step K) l s = some s') (hc : Along (Handover.step K) R.Cond l s) :
    R.Inv s' :=
  run_invariant_along (fun _ _ _ hc h hs => h.step hc hs) h hr hc

/-- **The new structure stands to the old one as the relation says**, when it takes its place. -/
theorem run_handover (hx : R.Ok x) (hr : run (Handover.step K) l (.start x) = some s)
    (hc : Along (Handover.step K) R.Cond l (.start x)) {c : C} {new : X} (hp : s.phase = .replaying c new)
    (hs : Handover.step K .replace s = some s') : R.Rel c s.live s'.live := by
  have hstands := (run_inv (R.inv_start hx) hr hc).stands
  cases hl : s.log <;> simp only [Handover.step, hp, hl, reduceCtorEq] at hs
  obtain rfl := Option.some.inj hs
  rw [hp] at hstands
  have hrel := Relation.Behind.rel hstands
  rw [hl] at hrel
  exact hrel

/-- **Nothing is left in the log when a rebuild begins.** -/
theorem run_log (hx : R.Ok x) (hr : run (Handover.step K) l (.start x) = some s)
    (hc : Along (Handover.step K) R.Cond l (.start x)) (hs : Handover.step K .copy s = some s') : s.log = [] := by
  have hstands := (run_inv (R.inv_start hx) hr hc).stands
  cases hp : s.phase <;> simp only [Handover.step, hp, reduceCtorEq] at hs
  rw [hp] at hstands
  exact hstands.1

/-! ## What the structure means -/

variable {V : Type} {view : X → V} {act : V → O → V}

/-- What the owner has made of the structure, told from its steps alone. -/
def meaning (view : X → V) (act : V → O → V) : List (Act X O) → V → V
  | [], v => v
  | .operate o :: l, v => meaning view act l (act v o)
  | .turn x :: l, _ => meaning view act l (view x)
  | _ :: l, v => meaning view act l v

/-- A reading of the structure that the relation does not change and that operations act on. -/
structure Reading (R : Relation K Allowed) (view : X → V) (act : V → O → V) : Prop where
  run : ∀ x o, R.Ok x → Allowed o → view (K.run x o) = act (view x) o
  copied : ∀ x, R.Ok x → view (K.copied x) = view x
  same : ∀ x y, R.Same x y → view y = view x
  rel : ∀ c x y, R.Rel c x y → view x = view y

theorem Reading.runAll (hv : Reading R view act) {os : List O} {x : X} (hx : R.Ok x) (h : ∀ o ∈ os, Allowed o) :
    view (K.runAll x os) = os.foldl act (view x) := by
  induction os generalizing x with
  | nil => rfl
  | cons o os ih =>
    have ho := h o (by simp)
    rw [Kit.runAll_cons, ih (R.ok_run x o hx ho) fun o' ho' => h o' (by simp [ho']), hv.run x o hx ho]
    rfl

theorem Reading.step (hv : Reading R view act) (h : R.Inv s) (hc : R.Cond a s)
    (hs : Handover.step K a s = some s') : view s'.live = meaning view act [a] (view s.live) := by
  obtain ⟨live, log, logging, phase⟩ := s
  obtain ⟨hfed, hstands⟩ := h
  cases a with
  | operate o =>
    obtain rfl := Option.some.inj hs
    exact hv.run _ _ hfed.live hc.1
  | touch x =>
    obtain rfl := Option.some.inj hs
    exact hv.same _ _ hc.1
  | copy =>
    cases phase <;> simp only [Handover.step, reduceCtorEq] at hs
    obtain rfl := Option.some.inj hs
    exact hv.copied _ hfed.live
  | replay =>
    cases phase <;> cases log <;> simp only [Handover.step, reduceCtorEq] at hs
    obtain rfl := Option.some.inj hs
    rfl
  | replace =>
    cases phase <;> cases log <;> simp only [Handover.step, reduceCtorEq] at hs
    · obtain rfl := Option.some.inj hs
      exact (hv.rel _ _ _ (Relation.Behind.rel hstands)).symm
    · obtain rfl := Option.some.inj hs
      exact (hv.rel _ _ _ (Relation.Behind.rel hstands)).symm
    · exact absurd hc.2.2 (List.cons_ne_nil _ _)
  | turn x | build | finish =>
    cases phase <;> simp only [Handover.step, reduceCtorEq] at hs
    all_goals
      obtain rfl := Option.some.inj hs
      rfl

theorem meaning_cons (a : Act X O) (l : List (Act X O)) (v : V) :
    meaning view act (a :: l) v = meaning view act l (meaning view act [a] v) := by
  cases a <;> rfl

/-- **No operation is lost and none is done twice**: in every state of a run the structure means what the steps of its
owner have made of it. -/
theorem run_meaning (hv : Reading R view act) (h : R.Inv s) (hr : run (Handover.step K) l s = some s')
    (hc : Along (Handover.step K) R.Cond l s) : view s'.live = meaning view act l (view s.live) := by
  induction l generalizing s with
  | nil =>
    obtain rfl : s = s' := by simpa [run] using hr
    rfl
  | cons a l ih =>
    obtain ⟨t, ht, hrest⟩ := Option.bind_eq_some_iff.1 hr
    rw [meaning_cons, ih (h.step hc.1 ht) hrest (hc.2 t ht), hv.step h hc.1 ht]

/-- **A replacement keeps what the structure means** if and only if what is left of the log does not matter to what is
put in its place. -/
theorem replace_keeps (hv : Reading R view act) (h : R.Inv s) (hs : Handover.step K .replace s = some s') :
    view s'.live = view s.live ↔ ∀ c, s.phase = .emptied c → view (K.runAll K.empty s.log) = view K.empty := by
  obtain ⟨live, log, logging, phase⟩ := s
  have hstands := h.stands
  cases phase <;> cases log <;> simp only [Handover.step, reduceCtorEq] at hs
  · obtain rfl := Option.some.inj hs
    exact iff_of_true (hv.rel _ _ _ (Relation.Behind.rel hstands)).symm (by simp)
  all_goals
    obtain rfl := Option.some.inj hs
    have hrel := hv.rel _ _ _ (Relation.Behind.rel hstands)
    simp only [Phase.emptied.injEq, forall_eq']
    exact ⟨fun e => hrel.symm.trans e.symm, fun e => (hrel.trans e).symm⟩

end Agilex.Lib.Handover
