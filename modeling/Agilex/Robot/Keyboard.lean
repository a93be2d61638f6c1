import Agilex.Lib.Machine
import Mathlib.Algebra.Order.Field.Rat
import Mathlib.Tactic.Linarith

/-!
# Driving with the keyboard

`keyboard_control.py`: the key loop and the motion threads it starts, on one topic. `step` performs the next step of one
of them; time passes in between (`tick`), and ROS may shut down.

- A motion thread publishes its velocity until its time is over and is never stopped (`Live`).
- `Follows` says of a log that velocities follow the latest key. It fails once a key is handled while an earlier thread is
  live (`space_does_not_stop`, `Live.publishes`), and holds in every run in which that does not happen (`follows_latest`).
-/

namespace Agilex.Robot.Keyboard

open Agilex.Lib

structure Twist where
  linear : ℚ
  angular : ℚ
deriving DecidableEq, Repr

/-- `make_twist(0.0, 0.0)`. -/
def Twist.zero : Twist := ⟨0, 0⟩

def LINEAR_SPEED : ℚ := 3 / 10
def ANGULAR_SPEED : ℚ := 1 / 2
def FORWARD_DURATION : ℚ := 2
def ROTATE_DURATION : ℚ := 2

/-- `KEY_MAP`. -/
def keyMap : Char → Option Twist
  | 'w' => some ⟨LINEAR_SPEED, 0⟩
  | 's' => some ⟨-LINEAR_SPEED, 0⟩
  | 'a' => some ⟨0, ANGULAR_SPEED⟩
  | 'd' => some ⟨0, -ANGULAR_SPEED⟩
  | _ => none

def duration (t : Twist) : ℚ := if t.linear ≠ 0 then FORWARD_DURATION else ROTATE_DURATION

/-- Where a thread stands in `run_motion`. -/
inductive ThreadPc where
  | entered
  /-- The test of the loop. -/
  | test (endTime : ℚ)
  | publishing (endTime : ℚ)
  /-- In `rate.sleep`. -/
  | sleeping (endTime : ℚ)
  /-- Out of the loop; publishes the stop. -/
  | stopping
  | done
deriving DecidableEq, Repr

structure MotionThread where
  twist : Twist
  duration : ℚ
  pc : ThreadPc
deriving DecidableEq, Repr

/-- Where the key loop stands. -/
inductive MainPc where
  | top
  /-- In `get_key`. -/
  | reading
  | got (key : Char)
  /-- `q`: the stop is published. -/
  | quitting
  /-- Space: the stop is published. -/
  | halting
  /-- The stop is published before a new motion; in `rospy.sleep(0.05)`. -/
  | settling (key : Char) (wake : ℚ)
  | starting (key : Char)
  | finished
deriving DecidableEq, Repr

inductive Event where
  /-- A press of Space, `q` or a motion key has been handled; a motion key has started a thread. -/
  | handled (key : Char) (thread : Option ℕ)
  /-- A velocity is published, by the key loop or by a thread. -/
  | published (source : Option ℕ) (twist : Twist)
deriving DecidableEq, Repr

structure State where
  now : ℚ
  isShutdown : Bool
  /-- The process has exited; daemon threads with it. -/
  exited : Bool
  main : MainPc
  threads : List MotionThread
  /-- `motion_thread`, by its place in `threads`. -/
  motionThread : Option ℕ
  log : List Event
deriving DecidableEq, Repr

def State.init (now : ℚ) : State := ⟨now, false, false, .top, [], none, []⟩

inductive Action where
  /-- A character arrives at `get_key`. -/
  | press (ch : Char)
  /-- The next step of the key loop. -/
  | main
  /-- The next step of a thread. -/
  | thread (i : ℕ)
  /-- A sleep of the key loop or of a thread raises, once ROS has shut down. -/
  | interrupt (thread : Option ℕ)
  | tick (d : ℚ)
  | shutdown
  | exit
deriving DecidableEq, Repr

def State.publish (source : Option ℕ) (t : Twist) (s : State) : State := { s with log := s.log ++ [.published source t] }

/-- `motion_thread and motion_thread.is_alive()`. -/
def State.moving (s : State) : Bool := (s.motionThread.bind (s.threads[·]?)).any fun t => decide (t.pc ≠ .done)

/-- The next step of the key loop. -/
def mainStep (s : State) : Option State :=
  match s.main with
  | .top => some { s with main := if s.isShutdown then .finished else .reading }
  | .reading => none
  | .got key =>
    if key = 'q' then some { s.publish none .zero with main := .quitting }
    else if key = ' ' then some { s.publish none .zero with main := .halting }
    else if (keyMap key).isSome then
      if s.moving then some { s.publish none .zero with main := .settling key (s.now + 1 / 20) }
      else some { s with main := .starting key }
    else some { s with main := .top }
  | .quitting => some { s with main := .finished, log := s.log ++ [.handled 'q' none] }
  | .halting => some { s with main := .top, log := s.log ++ [.handled ' ' none] }
  | .settling key wake => if s.now < wake then none else some { s with main := .starting key }
  | .starting key => (keyMap key).map fun t =>
    { s with
      main := .top, threads := s.threads ++ [⟨t, duration t, .entered⟩], motionThread := some s.threads.length,
      log := s.log ++ [.handled key (some s.threads.length)] }
  | .finished => none

/-- The next step of thread `i`, which is `t`. -/
def threadStep (i : ℕ) (t : MotionThread) (s : State) : Option State :=
  let goto pc := { s with threads := s.threads.set i { t with pc } }
  match t.pc with
  | .entered => some (goto (.test (s.now + t.duration)))
  | .test endTime => some (goto (if s.now < endTime ∧ s.isShutdown = false then .publishing endTime else .stopping))
  | .publishing endTime => some ((goto (.sleeping endTime)).publish (some i) t.twist)
  | .sleeping endTime => some (goto (.test endTime))
  | .stopping => some ((goto .done).publish (some i) .zero)
  | .done => none

def step : Action → State → Option State
  | .press ch, s =>
    if s.main = .reading then
      -- Ctrl+C raises `KeyboardInterrupt`, which ends the key loop
      some { s with main := if ch = Char.ofNat 3 then .finished else .got ch.toLower }
    else none
  | .main, s => mainStep s
  | .thread i, s => if s.exited then none else s.threads[i]?.bind fun t => threadStep i t s
  | .interrupt none, s =>
    match s.main with
    | .settling _ _ => if s.isShutdown then some { s with main := .finished } else none
    | _ => none
  | .interrupt (some i), s => s.threads[i]?.bind fun t =>
    match t.pc with
    | .sleeping _ => if s.isShutdown then some { s with threads := s.threads.set i { t with pc := .done } } else none
    | _ => none
  | .tick d, s => if 0 ≤ d then some { s with now := s.now + d } else none
  | .shutdown, s => some { s with isShutdown := true }
  | .exit, s => if s.main = .finished then some { s with exited := true } else none

/-! ## Following the latest key -/

/-- The press handled last, with the thread it has started. -/
def lastHandled (log : List Event) : Option (Char × Option ℕ) :=
  (log.filterMap fun
    | .handled key thread => some (key, thread)
    | .published _ _ => none).getLast?

/-- Every velocity published, but the stop, is that of the press handled last and comes from the thread it has started. -/
def Follows (log : List Event) : Prop :=
  ∀ l r source t, log = l ++ .published source t :: r → t ≠ .zero →
    ∃ key i, lastHandled l = some (key, some i) ∧ source = some i ∧ keyMap key = some t

/-- A thread that may still publish its velocity. -/
def Live (s : State) (t : MotionThread) : Prop :=
  match t.pc with
  | .entered => s.isShutdown = false
  | .test endTime => s.now < endTime ∧ s.isShutdown = false
  | .publishing _ => True
  | .sleeping endTime => s.now < endTime ∧ s.isShutdown = false
  | .stopping => False
  | .done => False

/-- No press is handled while an earlier thread may still publish its velocity. -/
def NoLiveThread (a : Action) (s : State) : Prop :=
  match a, s.main with
  | .main, .quitting => ∀ t ∈ s.threads, ¬Live s t
  | .main, .halting => ∀ t ∈ s.threads, ¬Live s t
  | .main, .starting _ => ∀ t ∈ s.threads, ¬Live s t
  | _, _ => True

theorem lastHandled_published (l : List Event) (source : Option ℕ) (t : Twist) :
    lastHandled (l ++ [.published source t]) = lastHandled l := by
  simp [lastHandled]

theorem lastHandled_handled (l : List Event) (key : Char) (thread : Option ℕ) :
    lastHandled (l ++ [.handled key thread]) = some (key, thread) := by
  simp [lastHandled]

theorem Follows.nil : Follows [] := by
  intro l r source t h
  simp at h

/-- The log grows. -/
theorem Follows.snoc {log : List Event} (h : Follows log) {e : Event}
    (he : ∀ source t, e = .published source t → t ≠ .zero →
      ∃ key i, lastHandled log = some (key, some i) ∧ source = some i ∧ keyMap key = some t) : Follows (log ++ [e]) := by
  intro l r source t heq ht
  rcases List.eq_nil_or_concat r with rfl | ⟨r', x, rfl⟩
  · obtain ⟨rfl, hlast⟩ := List.append_inj' heq rfl
    exact he source t (List.singleton_inj.1 hlast) ht
  · rw [List.concat_eq_append, ← List.cons_append, ← List.append_assoc] at heq
    obtain ⟨heq', -⟩ := List.append_inj' heq rfl
    exact h l r' source t heq' ht

/-- Only the thread of the latest key is live, and the log follows the latest key. -/
structure Obeys (s : State) : Prop where
  follows : Follows s.log
  current : ∀ i t, s.threads[i]? = some t → Live s t →
    ∃ key, lastHandled s.log = some (key, some i) ∧ keyMap key = some t.twist

theorem Obeys.init (now : ℚ) : Obeys (.init now) where
  follows := .nil
  current := by simp [State.init]

variable {s s' : State}

/-- A step that starts no thread, makes none live, and handles no press. -/
theorem Obeys.quiet (h : Obeys s) (hthreads : s'.threads = s.threads) (hlive : ∀ t, Live s' t → Live s t)
    (hlog : s'.log = s.log ∨ ∃ source, s'.log = s.log ++ [.published source .zero]) : Obeys s' := by
  have hlast : lastHandled s'.log = lastHandled s.log := by
    rcases hlog with hlog | ⟨source, hlog⟩
    · rw [hlog]
    · rw [hlog, lastHandled_published]
  constructor
  · rcases hlog with hlog | ⟨source, hlog⟩
    · rw [hlog]
      exact h.follows
    · rw [hlog]
      refine h.follows.snoc fun source' t he ht => ?_
      simp only [Event.published.injEq] at he
      exact absurd he.2.symm ht
  · intro i t ht hl
    rw [hlast]
    rw [hthreads] at ht
    exact h.current i t ht (hlive t hl)

/-- A press is handled while no thread is live. -/
theorem Obeys.handle (h : Obeys s) (hquiet : ∀ t ∈ s.threads, ¬Live s t) (hlive : ∀ t, Live s' t → Live s t)
    {key : Char} {thread : Option ℕ} (hlog : s'.log = s.log ++ [.handled key thread])
    (hthreads : ∀ i t, s'.threads[i]? = some t → t ∈ s.threads ∨ thread = some i ∧ keyMap key = some t.twist) :
    Obeys s' := by
  constructor
  · rw [hlog]
    refine h.follows.snoc fun source t he => ?_
    cases he
  · intro i t ht hl
    rw [hlog, lastHandled_handled]
    rcases hthreads i t ht with hold | ⟨rfl, hkey⟩
    · exact absurd (hlive t hl) (hquiet t hold)
    · exact ⟨key, rfl, hkey⟩

theorem Obeys.main (h : Obeys s) (hc : NoLiveThread .main s) (hs : mainStep s = some s') : Obeys s' := by
  unfold mainStep at hs
  split at hs
  · obtain rfl := Option.some.inj hs
    exact h.quiet rfl (fun _ hl => hl) (Or.inl rfl)
  · cases hs
  · split_ifs at hs
    · obtain rfl := Option.some.inj hs
      exact h.quiet rfl (fun _ hl => hl) (Or.inr ⟨none, rfl⟩)
    · obtain rfl := Option.some.inj hs
      exact h.quiet rfl (fun _ hl => hl) (Or.inr ⟨none, rfl⟩)
    · obtain rfl := Option.some.inj hs
      exact h.quiet rfl (fun _ hl => hl) (Or.inr ⟨none, rfl⟩)
    · obtain rfl := Option.some.inj hs
      exact h.quiet rfl (fun _ hl => hl) (Or.inl rfl)
    · obtain rfl := Option.some.inj hs
      exact h.quiet rfl (fun _ hl => hl) (Or.inl rfl)
  · rename_i hmain
    simp only [NoLiveThread, hmain] at hc
    obtain rfl := Option.some.inj hs
    exact h.handle hc (fun _ hl => hl) rfl fun i t ht => Or.inl (List.mem_of_getElem? ht)
  · rename_i hmain
    simp only [NoLiveThread, hmain] at hc
    obtain rfl := Option.some.inj hs
    exact h.handle hc (fun _ hl => hl) rfl fun i t ht => Or.inl (List.mem_of_getElem? ht)
  · split_ifs at hs
    obtain rfl := Option.some.inj hs
    exact h.quiet rfl (fun _ hl => hl) (Or.inl rfl)
  · rename_i key hmain
    simp only [NoLiveThread, hmain] at hc
    obtain ⟨t, hkey, rfl⟩ := Option.map_eq_some_iff.1 hs
    refine h.handle hc (fun _ hl => hl) rfl fun i u hu => ?_
    rw [List.getElem?_append] at hu
    split_ifs at hu with hi
    · exact Or.inl (List.mem_of_getElem? hu)
    · -- the new thread is the last one
      obtain ⟨hi', rfl⟩ := List.getElem?_eq_some_iff.1 hu
      simp only [List.length_cons, List.length_nil] at hi'
      obtain rfl : i = s.threads.length := by omega
      exact Or.inr ⟨rfl, by simpa using hkey⟩
  · cases hs

/-- **A thread moves on**, live only if it was, and publishes its velocity only then. -/
theorem Obeys.moves (h : Obeys s) {i : ℕ} {t : MotionThread} (ht : s.threads[i]? = some t) {pc : ThreadPc}
    (hthreads : s'.threads = s.threads.set i { t with pc }) (hlive : ∀ u, Live s' u → Live s u)
    (hpc : Live s { t with pc } → Live s t)
    (hlog : s'.log = s.log ∨ s'.log = s.log ++ [.published (some i) .zero] ∨
      Live s t ∧ s'.log = s.log ++ [.published (some i) t.twist]) : Obeys s' := by
  have hlast : lastHandled s'.log = lastHandled s.log := by
    rcases hlog with hlog | hlog | ⟨-, hlog⟩
    · rw [hlog]
    · rw [hlog, lastHandled_published]
    · rw [hlog, lastHandled_published]
  constructor
  · rcases hlog with hlog | hlog | ⟨hl, hlog⟩
    · rw [hlog]
      exact h.follows
    · rw [hlog]
      refine h.follows.snoc fun source u he hu => ?_
      simp only [Event.published.injEq] at he
      exact absurd he.2.symm hu
    · rw [hlog]
      refine h.follows.snoc fun source u he _ => ?_
      simp only [Event.published.injEq] at he
      obtain ⟨rfl, rfl⟩ := he
      obtain ⟨key, hkey, htwist⟩ := h.current i t ht hl
      exact ⟨key, i, hkey, rfl, htwist⟩
  · intro j u hu hl
    rw [hlast]
    rw [hthreads, List.getElem?_set] at hu
    have hl := hlive u hl
    split_ifs at hu with hij
    · subst hij
      obtain rfl := Option.some.inj hu
      exact h.current i t ht (hpc hl)
    · exact h.current j u hu hl

theorem Obeys.thread (h : Obeys s) {i : ℕ} {t : MotionThread} (ht : s.threads[i]? = some t)
    (hs : threadStep i t s = some s') : Obeys s' := by
  unfold threadStep at hs
  split at hs
  · rename_i hpc
    obtain rfl := Option.some.inj hs
    exact h.moves ht rfl (fun _ hl => hl) (fun hl => by simpa [Live, hpc] using hl.2) (Or.inl rfl)
  · rename_i e hpc
    obtain rfl := Option.some.inj hs
    refine h.moves ht rfl (fun _ hl => hl) (fun hl => ?_) (Or.inl rfl)
    simp only [Live, hpc]
    split_ifs at hl with hopen
    · exact hopen
    · exact hl.elim
  · rename_i e hpc
    obtain rfl := Option.some.inj hs
    have hl : Live s t := by simp only [Live, hpc]
    exact h.moves ht rfl (fun _ hl => hl) (fun _ => hl) (Or.inr (Or.inr ⟨hl, rfl⟩))
  · rename_i e hpc
    obtain rfl := Option.some.inj hs
    exact h.moves ht rfl (fun _ hl => hl) (fun hl => by simpa [Live, hpc] using hl) (Or.inl rfl)
  · obtain rfl := Option.some.inj hs
    exact h.moves ht rfl (fun _ hl => hl) (fun hl => hl.elim) (Or.inr (Or.inl rfl))
  · cases hs

theorem Obeys.step {a : Action} (h : Obeys s) (hc : NoLiveThread a s) (hs : step a s = some s') : Obeys s' := by
  cases a with
  | press ch =>
    simp only [Keyboard.step] at hs
    split_ifs at hs
    · obtain rfl := Option.some.inj hs
      exact h.quiet rfl (fun _ hl => hl) (Or.inl rfl)
    · obtain rfl := Option.some.inj hs
      exact h.quiet rfl (fun _ hl => hl) (Or.inl rfl)
  | main => exact h.main hc hs
  | thread i =>
    simp only [Keyboard.step] at hs
    split_ifs at hs
    obtain ⟨t, ht, hs⟩ := Option.bind_eq_some_iff.1 hs
    exact h.thread ht hs
  | interrupt thread =>
    cases thread with
    | none =>
      simp only [Keyboard.step] at hs
      split at hs
      · split_ifs at hs
        obtain rfl := Option.some.inj hs
        exact h.quiet rfl (fun _ hl => hl) (Or.inl rfl)
      · cases hs
    | some i =>
      simp only [Keyboard.step] at hs
      obtain ⟨t, ht, hs⟩ := Option.bind_eq_some_iff.1 hs
      split at hs
      · split_ifs at hs
        obtain rfl := Option.some.inj hs
        exact h.moves ht rfl (fun _ hl => hl) (fun hl => hl.elim) (Or.inl rfl)
      · cases hs
  | tick d =>
    simp only [Keyboard.step] at hs
    split_ifs at hs with hd
    obtain rfl := Option.some.inj hs
    refine h.quiet rfl (fun t hl => ?_) (Or.inl rfl)
    unfold Live at hl ⊢
    split at hl
    · exact hl
    · exact ⟨by linarith [hl.1], hl.2⟩
    · trivial
    · exact ⟨by linarith [hl.1], hl.2⟩
    · exact hl
    · exact hl
  | shutdown =>
    obtain rfl := Option.some.inj hs
    refine h.quiet rfl (fun t hl => ?_) (Or.inl rfl)
    unfold Live at hl ⊢
    split at hl
    · cases hl
    · cases hl.2
    · trivial
    · cases hl.2
    · exact hl
    · exact hl
  | exit =>
    simp only [Keyboard.step] at hs
    split_ifs at hs
    obtain rfl := Option.some.inj hs
    exact h.quiet rfl (fun _ hl => hl) (Or.inl rfl)

/-- **Velocities follow the latest key** in every run in which no press is handled while an earlier thread may still
publish its velocity. -/
theorem follows_latest {acts : List Action} {now : ℚ} (h : Machine.run step acts (.init now) = some s)
    (hc : Machine.Along step NoLiveThread acts (.init now)) : Follows s.log :=
  (Machine.run_invariant_along (P := Obeys) (fun _ _ _ hc hs ha => hs.step hc ha) (.init now) h hc).follows

instance (s : State) (t : MotionThread) : Decidable (Live s t) := by
  unfold Live
  split <;> infer_instance

instance (a : Action) (s : State) : Decidable (NoLiveThread a s) := by
  unfold NoLiveThread
  split <;> infer_instance

/-- `w`, whose thread publishes for two seconds, then `d`. -/
def patientRun : List Action :=
  [.main, .press 'W', .main, .main, .thread 0, .thread 0, .thread 0, .tick 2, .thread 0, .thread 0, .thread 0, .main,
    .press 'd', .main, .main, .thread 1, .thread 1, .thread 1]

theorem follows_latest_patient : ∃ s, Machine.run step patientRun (.init 0) = some s ∧
    .published (some 1) ⟨0, -ANGULAR_SPEED⟩ ∈ s.log ∧ Follows s.log := by
  obtain ⟨s, hs, hq⟩ := (Option.any_eq_true _ _).1 (show (Machine.run step patientRun (.init 0)).any
    (fun s => decide (.published (some 1) ⟨0, -ANGULAR_SPEED⟩ ∈ s.log)) = true by decide +kernel)
  exact ⟨s, hs, of_decide_eq_true hq, follows_latest hs (Machine.along_of_check (by decide +kernel))⟩

/-- `w`, then Space while its thread runs. -/
def stopRun : List Action :=
  [.main, .press 'w', .main, .main, .thread 0, .thread 0, .thread 0, .main, .press ' ', .main, .main, .thread 0,
    .thread 0, .thread 0]

/-- **Space does not stop the robot**: the thread publishes its velocity after the stop has been handled. -/
theorem space_does_not_stop : ∃ s l, Machine.run step stopRun (.init 0) = some s ∧
    s.log = l ++ [.published (some 0) ⟨LINEAR_SPEED, 0⟩] ∧ lastHandled l = some (' ', none) ∧ ¬Follows s.log := by
  obtain ⟨s, hs, hq⟩ := (Option.any_eq_true _ _).1 (show (Machine.run step stopRun (.init 0)).any
    (fun s => decide (s.log = s.log.dropLast ++ [.published (some 0) ⟨LINEAR_SPEED, 0⟩] ∧
      lastHandled s.log.dropLast = some (' ', none))) = true by decide +kernel)
  obtain ⟨hlog, hlast⟩ := of_decide_eq_true hq
  refine ⟨s, s.log.dropLast, hs, hlog, hlast, fun hf => ?_⟩
  obtain ⟨key, i, hkey, -⟩ := hf _ [] _ _ hlog (by decide +kernel)
  rw [hlast] at hkey
  simp at hkey

/-! ## Live threads publish -/

/-- Some next steps of thread `i` publish `twist`. -/
def Publishes (s : State) (i : ℕ) (twist : Twist) : Prop :=
  ∃ n s', Machine.run step (List.replicate n (.thread i)) s = some s' ∧
    s'.log = s.log ++ [.published (some i) twist]

section

variable {i : ℕ} {t : MotionThread} (ht : s.threads[i]? = some t) (hrun : s.exited = false)

include ht hrun

theorem step_thread : step (.thread i) s = threadStep i t s := by
  simp only [step, hrun, Bool.false_eq_true, if_false, ht, Option.bind_some]

/-- A thread that goes on publishes if it does so from where it goes on. -/
theorem publishes_goto (pc : ThreadPc) {twist : Twist}
    (hgoto : threadStep i t s = some { s with threads := s.threads.set i { t with pc } })
    (hrest : Publishes { s with threads := s.threads.set i { t with pc } } i twist) : Publishes s i twist := by
  obtain ⟨n, s', hs', hlog⟩ := hrest
  refine ⟨n + 1, s', ?_, hlog⟩
  rw [List.replicate_succ, Machine.run, step_thread ht hrun, hgoto]
  exact hs'

/-- **A live thread publishes its velocity** if it goes on, whatever key was handled last. -/
theorem Live.publishes (hd : 0 < t.duration) (hl : Live s t) : Publishes s i t.twist := by
  obtain ⟨hi, -⟩ := List.getElem?_eq_some_iff.1 ht
  have hset : ∀ pc, (s.threads.set i { t with pc })[i]? = some { t with pc } := fun pc => by simp [hi]
  have hpub : ∀ {u : State} {e : ℚ}, u.threads[i]? = some { t with pc := .publishing e } → u.exited = false →
      Publishes u i t.twist := by
    intro u e hu hrun
    obtain ⟨v, hv, hlog⟩ : ∃ v, threadStep i { t with pc := .publishing e } u = some v ∧
        v.log = u.log ++ [.published (some i) t.twist] := ⟨_, rfl, rfl⟩
    refine ⟨1, v, ?_, hlog⟩
    rw [List.replicate_one, Machine.run, step_thread hu hrun, hv]
    rfl
  have htest : ∀ {u : State} {e : ℚ}, u.threads[i]? = some { t with pc := .test e } → u.exited = false →
      u.now < e → u.isShutdown = false → Publishes u i t.twist := by
    intro u e hu hrun hnow hshut
    obtain ⟨hiu, -⟩ := List.getElem?_eq_some_iff.1 hu
    refine publishes_goto hu hrun (.publishing e) ?_ (hpub (e := e) (by simp [hiu]) hrun)
    simp only [threadStep]
    rw [if_pos ⟨hnow, hshut⟩]
  cases hpc : t.pc with
  | entered =>
    simp only [Live, hpc] at hl
    refine publishes_goto ht hrun (.test (s.now + t.duration)) ?_ (htest (hset _) hrun (by simp only; linarith) hl)
    simp only [threadStep, hpc]
  | test e =>
    simp only [Live, hpc] at hl
    exact htest (by rw [ht, ← hpc]) hrun hl.1 hl.2
  | publishing e => exact hpub (by rw [ht, ← hpc]) hrun
  | sleeping e =>
    simp only [Live, hpc] at hl
    refine publishes_goto ht hrun (.test e) ?_ (htest (hset _) hrun hl.1 hl.2)
    simp only [threadStep, hpc]
  | stopping => simp only [Live, hpc] at hl
  | done => simp only [Live, hpc] at hl

end

end Agilex.Robot.Keyboard
