import Agilex.Livox.Queue
import Agilex.Lib.Machine
import Agilex.Lib.Sequence
import Mathlib.Data.Rat.Floor

/-!
# From the thread that stores frames to the thread that publishes them

`Lds::StoragePointData` and `PushLidarData` (`lds.cpp`), run by the thread of `PubHandler`, and
`Lddc::DistributePointCloudData` (`lddc.cpp`) with its polling loops, run by `PointCloudDataPollThread`. The threads share a
queue for each lidar and one semaphore, whose count the first one only raises where it reads zero. `step` is one step of one
of them; in between the SDK sets the state of a lidar, and the node asks for the exit.

- `Serves`: what is known of the queue of one lidar; `serves_step` keeps it, for every step of either thread.
- `frames_delivered`: frames come out as they went in, none twice, and none is lost but where the queue was full.
- `no_lost_wakeup`: the second thread does not sleep while there is something to publish.
-/

namespace Agilex.Livox

open Agilex.Lib Agilex.Lib.Machine Function

variable {P : Type}

/-- `StoragePacket`; `points_num` is the length of `points`. -/
structure StoragePacket (P : Type) where
  baseTime : UInt64
  points : List P
  deriving DecidableEq

instance : Inhabited (StoragePacket P) := ⟨⟨0, []⟩⟩

/-- `kMaxSourceLidar`. -/
def kMaxSourceLidar : ℕ := 32

/-- `CalculatePacketQueueSize`. -/
def calculatePacketQueueSize (publishFreq : ℚ) : UInt32 :=
  if publishFreq > 10 then UInt32.ofNat ⌊publishFreq⌋₊ + 1 else 10

/-! ## The two threads -/

/-- Where `PushLidarData` stands. -/
inductive PushPc where
  /-- The queue is made, if there is none, and checked for room. -/
  | checking
  /-- `QueuePushAny`, before the cell is filled, and before the index moves on. -/
  | writing
  | advancing
  /-- `!QueueIsEmpty(queue)`. -/
  | testing
  /-- `pcd_semaphore_.GetCount() <= 0`. -/
  | counting
  /-- `pcd_semaphore_.Signal()`. -/
  | signalling
  deriving DecidableEq, Repr

/-- Where `DistributePointCloudData` stands. -/
inductive PollPc (P : Type) where
  /-- `IsRequestExit()`. -/
  | entering
  /-- `pcd_semaphore_.Wait()`. -/
  | waiting
  /-- The loop over the lidars. -/
  | scanning (i : ℕ)
  /-- The outer and the inner loop on the queue of a lidar. -/
  | polling (i : ℕ)
  | popping (i : ℕ)
  /-- `QueuePop` has read its packet. -/
  | taking (i : ℕ) (pkt : StoragePacket P)
  | publishing (i : ℕ) (pkt : StoragePacket P)
  | finished
  deriving DecidableEq

inductive Event (P : Type) where
  /-- A frame is stored, as packets with the index of their lidar. -/
  | offered (frame : List (ℕ × StoragePacket P))
  | pushed (i : ℕ) (pkt : StoragePacket P)
  | dropped (i : ℕ) (pkt : StoragePacket P)
  /-- A packet is popped; it is published if it has points. -/
  | taken (i : ℕ) (pkt : StoragePacket P)
  /-- The lidar gets the state `kConnectStateSampling`. -/
  | sampling (i : ℕ)

structure State (P : Type) where
  queues : ℕ → LidarDataQueue (StoragePacket P)
  sampling : ℕ → Bool
  count : ℕ
  requestExit : Bool
  /-- The packets of the frame that is stored, the one that is pushed first. -/
  todo : List (ℕ × StoragePacket P)
  push : PushPc
  poll : PollPc P
  log : List (Event P)

/-- After `ResetLds`, with the threads started. -/
def State.init : State P := ⟨fun _ => deInitQueue, fun _ => false, 0, false, [], .checking, .entering, []⟩

inductive Action (P : Type) where
  /-- The points callback is given a frame. -/
  | store (frame : List (ℕ × StoragePacket P))
  | push
  | poll
  | sampling (i : ℕ)
  | requestExit

def State.add (s : State P) (e : Event P) : State P := { s with log := s.log ++ [e] }

/-- The queue of a lidar, made if there is none. -/
def readied (publishFreq : ℚ) (q : LidarDataQueue (StoragePacket P)) : LidarDataQueue (StoragePacket P) :=
  if q.storagePacket.isNone then initQueue default (calculatePacketQueueSize publishFreq) else q

/-- The next step of `PushLidarData` for the first packet that is left. -/
def pushStep (publishFreq : ℚ) (s : State P) : Option (State P) :=
  match s.todo with
  | [] => none
  | (i, pkt) :: rest =>
    let done := { s with todo := rest, push := .checking }
    match s.push with
    | .checking =>
      let q := readied publishFreq (s.queues i)
      if q.isFull then some ({ s with queues := update s.queues i q, push := .counting }.add (.dropped i pkt))
      else some { s with queues := update s.queues i q, push := .writing }
    | .writing => some { s with queues := update s.queues i ((s.queues i).write pkt), push := .advancing }
    | .advancing => some ({ s with queues := update s.queues i (s.queues i).advance, push := .testing }.add (.pushed i pkt))
    | .testing => some (if (s.queues i).isEmpty then done else { s with push := .counting })
    | .counting => some (if s.count = 0 then { s with push := .signalling } else done)
    | .signalling => some { done with count := s.count + 1 }

/-- The next step of `DistributePointCloudData`. -/
def pollStep (s : State P) : Option (State P) :=
  match s.poll with
  | .entering => some { s with poll := if s.requestExit then .finished else .waiting }
  | .waiting => if 0 < s.count then some { s with count := s.count - 1, poll := .scanning 0 } else none
  | .scanning i =>
    some { s with
      poll :=
        if i < kMaxSourceLidar then
          if s.sampling i ∧ (s.queues i).storagePacket.isSome then .polling i else .scanning (i + 1)
        else .entering }
  | .polling i => some { s with poll := if s.requestExit ∨ (s.queues i).isEmpty then .scanning (i + 1) else .popping i }
  | .popping i =>
    match (s.queues i).prePop with
    | none => some { s with poll := .polling i }
    | some pkt => some { s with poll := .taking i pkt }
  | .taking i pkt => some { s with queues := update s.queues i (s.queues i).popUpdate, poll := .publishing i pkt }
  | .publishing i pkt => some ({ s with poll := .popping i }.add (.taken i pkt))
  | .finished => none

def step (publishFreq : ℚ) (a : Action P) (s : State P) : Option (State P) :=
  match a with
  | .store frame =>
    match s.todo with
    | [] => some ({ s with todo := frame, push := .checking }.add (.offered frame))
    | _ :: _ => none
  | .push => pushStep publishFreq s
  | .poll => pollStep s
  | .sampling i =>
    if s.sampling i then some s else some ({ s with sampling := update s.sampling i true }.add (.sampling i))
  | .requestExit => some { s with requestExit := true }

/-! ## What has happened to a lidar -/

/-- The packets of a lidar. -/
def packetsOf (i : ℕ) (frame : List (ℕ × StoragePacket P)) : List (StoragePacket P) :=
  (frame.filter (·.1 = i)).map (·.2)

def offeredTo (i : ℕ) (log : List (Event P)) : List (StoragePacket P) :=
  log.flatMap fun
    | .offered frame => packetsOf i frame
    | _ => []

def pushedTo (i : ℕ) (log : List (Event P)) : List (StoragePacket P) :=
  log.filterMap fun
    | .pushed j pkt => if j = i then some pkt else none
    | _ => none

/-- The packets that were pushed or dropped. -/
def handledFor (i : ℕ) (log : List (Event P)) : List (StoragePacket P) :=
  log.filterMap fun
    | .pushed j pkt | .dropped j pkt => if j = i then some pkt else none
    | _ => none

def takenFrom (i : ℕ) (log : List (Event P)) : List (StoragePacket P) :=
  log.filterMap fun
    | .taken j pkt => if j = i then some pkt else none
    | _ => none

section
variable (i : ℕ) (log : List (Event P))

@[simp] theorem offeredTo_offered (frame : List (ℕ × StoragePacket P)) :
    offeredTo i (log ++ [.offered frame]) = offeredTo i log ++ packetsOf i frame := by
  simp [offeredTo]

theorem offeredTo_snoc {e : Event P} (he : ∀ frame, e ≠ .offered frame) :
    offeredTo i (log ++ [e]) = offeredTo i log := by
  cases e <;> simp_all [offeredTo]

@[simp] theorem pushedTo_pushed (pkt : StoragePacket P) :
    pushedTo i (log ++ [.pushed i pkt]) = pushedTo i log ++ [pkt] := by
  simp [pushedTo]

theorem pushedTo_snoc {e : Event P} (he : ∀ pkt, e ≠ .pushed i pkt) : pushedTo i (log ++ [e]) = pushedTo i log := by
  cases e <;> simp_all [pushedTo]

@[simp] theorem handledFor_pushed (pkt : StoragePacket P) :
    handledFor i (log ++ [.pushed i pkt]) = handledFor i log ++ [pkt] := by
  simp [handledFor]

@[simp] theorem handledFor_dropped (pkt : StoragePacket P) :
    handledFor i (log ++ [.dropped i pkt]) = handledFor i log ++ [pkt] := by
  simp [handledFor]

theorem handledFor_snoc {e : Event P} (he : ∀ pkt, e ≠ .pushed i pkt) (he' : ∀ pkt, e ≠ .dropped i pkt) :
    handledFor i (log ++ [e]) = handledFor i log := by
  cases e <;> simp_all [handledFor]

@[simp] theorem takenFrom_taken (pkt : StoragePacket P) :
    takenFrom i (log ++ [.taken i pkt]) = takenFrom i log ++ [pkt] := by
  simp [takenFrom]

theorem takenFrom_snoc {e : Event P} (he : ∀ pkt, e ≠ .taken i pkt) : takenFrom i (log ++ [e]) = takenFrom i log := by
  cases e <;> simp_all [takenFrom]

end

/-- The lidar has got its state after its last packet came, so that nothing has told the second thread yet. -/
def unannounced (i : ℕ) (log : List (Event P)) : Bool :=
  lastValue (fun
    | .pushed j _ | .dropped j _ => if j = i then some false else none
    | .sampling j => if j = i then some true else none
    | _ => none) log false

/-- The packet that has been popped and not yet published. -/
def PollPc.hand (i : ℕ) : PollPc P → List (StoragePacket P)
  | .publishing j pkt => if j = i then [pkt] else []
  | _ => []

/-- The second thread comes by the queue of the lidar before it waits again. -/
def PollPc.Visits (i : ℕ) : PollPc P → Prop
  | .scanning j | .polling j | .popping j | .taking j _ | .publishing j _ => j ≤ i
  | _ => False

/-- The first packet that is left has been pushed or dropped. -/
def PushPc.handled : PushPc → Bool
  | .testing | .counting | .signalling => true
  | _ => false

/-- What is left of the frame for a lidar. -/
def State.left (s : State P) (i : ℕ) : List (StoragePacket P) :=
  packetsOf i (if s.push.handled then s.todo.tail else s.todo)

/-! ## The steps -/

/-- **What a step can do.** -/
inductive Moves (publishFreq : ℚ) : State P → State P → Prop
  | store {s : State P} {frame} (ht : s.todo = []) :
    Moves publishFreq s ({ s with todo := frame, push := .checking }.add (.offered frame))
  | full {s : State P} {i pkt rest} (ht : s.todo = (i, pkt) :: rest) (hp : s.push = .checking)
    (hf : (readied publishFreq (s.queues i)).isFull = true) :
    Moves publishFreq s
      ({ s with queues := update s.queues i (readied publishFreq (s.queues i)), push := .counting }.add (.dropped i pkt))
  | room {s : State P} {i pkt rest} (ht : s.todo = (i, pkt) :: rest) (hp : s.push = .checking)
    (hf : (readied publishFreq (s.queues i)).isFull = false) :
    Moves publishFreq s { s with queues := update s.queues i (readied publishFreq (s.queues i)), push := .writing }
  | write {s : State P} {i pkt rest} (ht : s.todo = (i, pkt) :: rest) (hp : s.push = .writing) :
    Moves publishFreq s { s with queues := update s.queues i ((s.queues i).write pkt), push := .advancing }
  | advance {s : State P} {i pkt rest} (ht : s.todo = (i, pkt) :: rest) (hp : s.push = .advancing) :
    Moves publishFreq s ({ s with queues := update s.queues i (s.queues i).advance, push := .testing }.add (.pushed i pkt))
  | emptied {s : State P} {i pkt rest} (ht : s.todo = (i, pkt) :: rest) (hp : s.push = .testing)
    (he : (s.queues i).isEmpty = true) : Moves publishFreq s { s with todo := rest, push := .checking }
  | tested {s : State P} {i pkt rest} (ht : s.todo = (i, pkt) :: rest) (hp : s.push = .testing)
    (he : (s.queues i).isEmpty = false) : Moves publishFreq s { s with push := .counting }
  | counted {s : State P} {i pkt rest} (ht : s.todo = (i, pkt) :: rest) (hp : s.push = .counting) (hc : s.count = 0) :
    Moves publishFreq s { s with push := .signalling }
  | pending {s : State P} {i pkt rest} (ht : s.todo = (i, pkt) :: rest) (hp : s.push = .counting) (hc : 0 < s.count) :
    Moves publishFreq s { s with todo := rest, push := .checking }
  | signal {s : State P} {i pkt rest} (ht : s.todo = (i, pkt) :: rest) (hp : s.push = .signalling) :
    Moves publishFreq s { s with todo := rest, push := .checking, count := s.count + 1 }
  | enter {s : State P} (hp : s.poll = .entering) :
    Moves publishFreq s { s with poll := if s.requestExit then .finished else .waiting }
  | wake {s : State P} (hp : s.poll = .waiting) (hc : 0 < s.count) :
    Moves publishFreq s { s with count := s.count - 1, poll := .scanning 0 }
  | scan {s : State P} {i} (hp : s.poll = .scanning i) (hi : i < kMaxSourceLidar) (hs : s.sampling i = true)
    (hq : (s.queues i).storagePacket.isSome) : Moves publishFreq s { s with poll := .polling i }
  | skip {s : State P} {i} (hp : s.poll = .scanning i) (hi : i < kMaxSourceLidar)
    (h : s.sampling i = false ∨ (s.queues i).storagePacket = none) :
    Moves publishFreq s { s with poll := .scanning (i + 1) }
  | around {s : State P} {i} (hp : s.poll = .scanning i) (hi : kMaxSourceLidar ≤ i) :
    Moves publishFreq s { s with poll := .entering }
  | next {s : State P} {i} (hp : s.poll = .polling i) (h : s.requestExit = true ∨ (s.queues i).isEmpty = true) :
    Moves publishFreq s { s with poll := .scanning (i + 1) }
  | pop {s : State P} {i} (hp : s.poll = .polling i) : Moves publishFreq s { s with poll := .popping i }
  | popped {s : State P} {i} (hp : s.poll = .popping i) : Moves publishFreq s { s with poll := .polling i }
  | read {s : State P} {i pkt} (hp : s.poll = .popping i) (hq : (s.queues i).prePop = some pkt) :
    Moves publishFreq s { s with poll := .taking i pkt }
  | take {s : State P} {i pkt} (hp : s.poll = .taking i pkt) :
    Moves publishFreq s { s with queues := update s.queues i (s.queues i).popUpdate, poll := .publishing i pkt }
  | publish {s : State P} {i pkt} (hp : s.poll = .publishing i pkt) :
    Moves publishFreq s ({ s with poll := .popping i }.add (.taken i pkt))
  | sampling {s : State P} {i} (h : s.sampling i = false) :
    Moves publishFreq s ({ s with sampling := update s.sampling i true }.add (.sampling i))
  | again {s : State P} : Moves publishFreq s s
  | exit {s : State P} : Moves publishFreq s { s with requestExit := true }

variable {publishFreq : ℚ} {s s' : State P}

theorem pushStep_moves (h : pushStep publishFreq s = some s') : Moves publishFreq s s' := by
  unfold pushStep at h
  split at h
  · exact absurd h (by simp)
  · next i pkt rest ht =>
    split at h
    · next hp =>
      dsimp only at h
      split at h <;> obtain rfl := Option.some.inj h
      · next hf => exact .full ht hp hf
      · next hf => exact .room ht hp (by simpa using hf)
    · next hp =>
      obtain rfl := Option.some.inj h
      exact .write ht hp
    · next hp =>
      obtain rfl := Option.some.inj h
      exact .advance ht hp
    · next hp =>
      obtain rfl := Option.some.inj h
      split
      · next he => exact .emptied ht hp he
      · next he => exact .tested ht hp (by simpa using he)
    · next hp =>
      obtain rfl := Option.some.inj h
      split
      · next hc => exact .counted ht hp hc
      · next hc => exact .pending ht hp (Nat.pos_of_ne_zero hc)
    · next hp =>
      obtain rfl := Option.some.inj h
      exact .signal ht hp

theorem pollStep_moves (h : pollStep s = some s') : Moves publishFreq s s' := by
  unfold pollStep at h
  split at h
  · next hp =>
    obtain rfl := Option.some.inj h
    exact .enter hp
  · next hp =>
    split at h
    · next hc =>
      obtain rfl := Option.some.inj h
      exact .wake hp hc
    · exact absurd h (by simp)
  · next i hp =>
    obtain rfl := Option.some.inj h
    split
    · next hi =>
      split
      · next hs => exact .scan hp hi hs.1 hs.2
      · next hs =>
        refine .skip hp hi ?_
        cases hsam : s.sampling i with
        | false => exact .inl rfl
        | true => exact .inr (by simpa [hsam] using hs)
    · next hi => exact .around hp (not_lt.mp hi)
  · next i hp =>
    obtain rfl := Option.some.inj h
    split
    · next hn => exact .next hp hn
    · exact .pop hp
  · next i hp =>
    split at h <;> obtain rfl := Option.some.inj h
    · exact .popped hp
    · next hq => exact .read hp hq
  · next i pkt hp =>
    obtain rfl := Option.some.inj h
    exact .take hp
  · next i pkt hp =>
    obtain rfl := Option.some.inj h
    exact .publish hp
  · exact absurd h (by simp)

theorem step_moves {a : Action P} (h : step publishFreq a s = some s') : Moves publishFreq s s' := by
  cases a with
  | store frame =>
    simp only [step] at h
    split at h
    · next ht =>
      obtain rfl := Option.some.inj h
      exact .store ht
    · exact absurd h (by simp)
  | push => exact pushStep_moves h
  | poll => exact pollStep_moves h
  | sampling i =>
    simp only [step] at h
    split at h <;> obtain rfl := Option.some.inj h
    · exact .again
    · next hs => exact .sampling (by simpa using hs)
  | requestExit =>
    obtain rfl := Option.some.inj h
    exact .exit

/-- Frames are stored by `store` only. -/
theorem step_offeredTo {a : Action P} (ha : ∀ frame, a ≠ .store frame) (h : step publishFreq a s = some s') (i : ℕ) :
    offeredTo i s'.log = offeredTo i s.log := by
  cases a with
  | store frame => exact absurd rfl (ha frame)
  | push =>
    simp only [step, pushStep] at h
    split at h
    · exact absurd h (by simp)
    · split at h
      · split at h <;> obtain rfl := Option.some.inj h
        · exact offeredTo_snoc i _ (by simp)
        · rfl
      · obtain rfl := Option.some.inj h
        rfl
      · obtain rfl := Option.some.inj h
        exact offeredTo_snoc i _ (by simp)
      · obtain rfl := Option.some.inj h
        split <;> rfl
      · obtain rfl := Option.some.inj h
        split <;> rfl
      · obtain rfl := Option.some.inj h
        rfl
  | poll =>
    simp only [step, pollStep] at h
    split at h
    case h_2 =>
      split at h
      · obtain rfl := Option.some.inj h
        rfl
      · exact absurd h (by simp)
    case h_5 => split at h <;> obtain rfl := Option.some.inj h <;> rfl
    case h_7 =>
      obtain rfl := Option.some.inj h
      exact offeredTo_snoc i _ (by simp)
    case h_8 => exact absurd h (by simp)
    all_goals
      obtain rfl := Option.some.inj h
      rfl
  | sampling j =>
    simp only [step] at h
    split at h <;> obtain rfl := Option.some.inj h
    · rfl
    · exact offeredTo_snoc i _ (by simp)
  | requestExit =>
    obtain rfl := Option.some.inj h
    rfl

/-! ## The queue of a lidar -/

/-- How many packets the queue of a lidar has room for. -/
def packetQueueSize (publishFreq : ℚ) : ℕ :=
  (initQueue (default : ℕ → Unit) (calculatePacketQueueSize publishFreq)).capacity

/-- What is known of lidar `i`, whose queue holds `l`. -/
structure Serves (publishFreq : ℚ) (s : State P) (i : ℕ) (l : List (StoragePacket P)) : Prop where
  stores : Stores (s.queues i) l
  sized : (s.queues i).storagePacket.isSome → (s.queues i).capacity = packetQueueSize publishFreq
  order : pushedTo i s.log = takenFrom i s.log ++ s.poll.hand i ++ l
  reading : ∀ pkt, s.poll = .taking i pkt → l.head? = some pkt
  offered : offeredTo i s.log = handledFor i s.log ++ s.left i
  room : ∀ pkt rest, s.todo = (i, pkt) :: rest → s.push = .writing ∨ s.push = .advancing →
    (s.queues i).storagePacket.isSome ∧ l.length < packetQueueSize publishFreq
  filled : ∀ pkt rest, s.todo = (i, pkt) :: rest → s.push = .advancing → Filled (s.queues i) pkt
  drops : ∀ pre pkt, pre ++ [.dropped i pkt] <+: s.log →
    (takenFrom i pre).length + packetQueueSize publishFreq ≤ (pushedTo i pre).length

section
variable {i : ℕ} {l : List (StoragePacket P)} {q : LidarDataQueue (StoragePacket P)}

theorem Serves.init : Serves publishFreq (State.init : State P) i [] where
  stores := deInitQueue_stores
  sized := by simp [State.init, deInitQueue]
  order := rfl
  reading := by simp [State.init]
  offered := rfl
  room := by simp [State.init]
  filled := by simp [State.init]
  drops := by simp [State.init]

theorem Serves.length_le (h : Serves publishFreq s i l) : l.length ≤ packetQueueSize publishFreq := by
  cases hc : (s.queues i).storagePacket with
  | none => simp [h.stores.null hc]
  | some cells =>
    rw [← h.sized (by simp [hc])]
    exact (h.stores.cells cells hc).fits

variable (publishFreq) in
theorem readied_stores (h : Stores q l) : Stores (readied publishFreq q) l := by
  unfold readied
  split
  · next hn =>
    obtain rfl := h.null (by simpa using hn)
    exact (initQueue_stores _ _).1
  · exact h

theorem readied_sized (h : q.storagePacket.isSome → q.capacity = packetQueueSize publishFreq) :
    (readied publishFreq q).storagePacket.isSome ∧ (readied publishFreq q).capacity = packetQueueSize publishFreq := by
  unfold readied
  split
  · exact ⟨rfl, rfl⟩
  · next hn =>
    have hs : q.storagePacket.isSome := by simpa [Option.isSome_iff_ne_none] using hn
    exact ⟨hs, h hs⟩

/-- A drop that is recorded by an event that is not one was recorded before. -/
theorem dropped_snoc {pre log : List (Event P)} {e : Event P} {pkt : StoragePacket P}
    (h : pre ++ [.dropped i pkt] <+: log ++ [e]) :
    pre ++ [.dropped i pkt] <+: log ∨ pre = log ∧ e = .dropped i pkt := by
  rcases List.prefix_concat_iff.mp h with heq | hpre
  · obtain ⟨hpre, he⟩ := List.append_inj' heq rfl
    exact .inr ⟨hpre, (List.singleton_inj.mp he).symm⟩
  · exact .inl hpre

/-- Packets of other lidars do not matter. -/
theorem packetsOf_cons (j : ℕ) (pkt : StoragePacket P) (rest : List (ℕ × StoragePacket P)) :
    packetsOf i ((j, pkt) :: rest) = if j = i then pkt :: packetsOf i rest else packetsOf i rest := by
  unfold packetsOf
  split <;> simp [*]

/-- What has happened since is not about the lidar, but for frames that are stored. -/
structure Unseen (i : ℕ) (log log' : List (Event P)) : Prop where
  pushed : pushedTo i log' = pushedTo i log
  taken : takenFrom i log' = takenFrom i log
  handled : handledFor i log' = handledFor i log
  dropped : ∀ pre pkt, pre ++ [.dropped i pkt] <+: log' → pre ++ [.dropped i pkt] <+: log

theorem Unseen.refl (log : List (Event P)) : Unseen i log log := ⟨rfl, rfl, rfl, fun _ _ h => h⟩

theorem Unseen.snoc (log : List (Event P)) {e : Event P} (hp : ∀ pkt, e ≠ .pushed i pkt)
    (hd : ∀ pkt, e ≠ .dropped i pkt) (ht : ∀ pkt, e ≠ .taken i pkt) : Unseen i log (log ++ [e]) :=
  ⟨pushedTo_snoc i log hp, takenFrom_snoc i log ht, handledFor_snoc i log hp hd,
    fun _ pkt h => (dropped_snoc h).resolve_right fun h => hd pkt h.2⟩

/-- A step that leaves the queue of a lidar alone. -/
theorem Serves.frame (h : Serves publishFreq s i l) (hq : s'.queues i = s.queues i) (hlog : Unseen i s.log s'.log)
    (hhand : s'.poll.hand i = s.poll.hand i) (hread : ∀ pkt, s'.poll = .taking i pkt → l.head? = some pkt)
    (hoff : offeredTo i s'.log = handledFor i s'.log ++ s'.left i)
    (hpush : ∀ pkt rest, s'.todo = (i, pkt) :: rest → s'.push = .writing ∨ s'.push = .advancing →
      s.todo = (i, pkt) :: rest ∧ s.push = s'.push) : Serves publishFreq s' i l where
  stores := hq ▸ h.stores
  sized := hq ▸ h.sized
  order := by rw [hlog.pushed, hlog.taken, hhand, h.order]
  reading := hread
  offered := hoff
  room pkt rest ht hp := by
    obtain ⟨ht', hp'⟩ := hpush pkt rest ht hp
    rw [hq]
    exact h.room pkt rest ht' (hp' ▸ hp)
  filled pkt rest ht hp := by
    obtain ⟨ht', hp'⟩ := hpush pkt rest ht (.inr hp)
    rw [hq]
    exact h.filled pkt rest ht' (hp'.trans hp)
  drops pre pkt hd := h.drops pre pkt (hlog.dropped pre pkt hd)

/-- The second thread goes somewhere else, or the shared variables change. -/
theorem Serves.goto (h : Serves publishFreq s i l) (hq : s'.queues = s.queues) (hlog : s'.log = s.log)
    (htodo : s'.todo = s.todo) (hpush : s'.push = s.push) (hhand : s'.poll.hand i = s.poll.hand i)
    (hread : ∀ pkt, s'.poll = .taking i pkt → l.head? = some pkt) : Serves publishFreq s' i l := by
  refine h.frame (by rw [hq]) (hlog ▸ Unseen.refl _) hhand hread ?_ fun pkt rest ht _ => ⟨htodo ▸ ht, hpush.symm⟩
  rw [hlog, State.left, htodo, hpush]
  exact h.offered

/-- The first thread is past the push of a packet, and stays there or goes on to the next one. -/
theorem Serves.after (h : Serves publishFreq s i l) (hp : s.push.handled = true) {push : PushPc}
    {todo : List (ℕ × StoragePacket P)} (count : ℕ)
    (hleft : todo = s.todo ∧ push.handled = true ∨ todo = s.todo.tail ∧ push = .checking) :
    Serves publishFreq { s with todo := todo, push := push, count := count } i l := by
  refine h.frame rfl (Unseen.refl _) rfl h.reading ?_ fun pkt rest ht hpush => ?_
  · have hoff := h.offered
    rw [State.left, if_pos hp] at hoff
    rcases hleft with ⟨rfl, hh⟩ | ⟨rfl, rfl⟩
    · simpa [State.left, hh] using hoff
    · simpa [State.left, PushPc.handled] using hoff
  · rcases hleft with ⟨-, hh⟩ | ⟨-, rfl⟩
    · rcases hpush with rfl | rfl <;> simp [PushPc.handled] at hh
    · simp at hpush

/-- An event, but not a frame, and the queue and the frame that is stored are left alone. -/
theorem Serves.event (h : Serves publishFreq s i l) {e : Event P} (hlog : s'.log = s.log ++ [e])
    (hu : Unseen i s.log (s.log ++ [e])) (ho : ∀ frame, e ≠ .offered frame) (hq : s'.queues i = s.queues i)
    (htodo : s'.todo = s.todo) (hpush : s'.push = s.push) (hhand : s'.poll.hand i = s.poll.hand i)
    (hread : ∀ pkt, s'.poll = .taking i pkt → l.head? = some pkt) : Serves publishFreq s' i l := by
  refine h.frame hq (hlog ▸ hu) hhand hread ?_ fun pkt rest ht _ => ⟨htodo ▸ ht, hpush.symm⟩
  rw [hlog, hu.handled, offeredTo_snoc i s.log ho, State.left, htodo, hpush]
  exact h.offered

theorem packetsOf_other {j : ℕ} (hj : j ≠ i) (pkt : StoragePacket P) (rest : List (ℕ × StoragePacket P)) :
    packetsOf i ((j, pkt) :: rest) = packetsOf i rest := by
  rw [packetsOf_cons, if_neg hj]

/-- The first thread pushes a packet of another lidar. -/
theorem Serves.elsewhere (h : Serves publishFreq s i l) {j : ℕ} {pkt : StoragePacket P}
    {rest : List (ℕ × StoragePacket P)} (ht : s.todo = (j, pkt) :: rest) (hj : j ≠ i)
    (q : LidarDataQueue (StoragePacket P)) (push : PushPc) {log : List (Event P)} (hu : Unseen i s.log log)
    (ho : offeredTo i log = offeredTo i s.log) :
    Serves publishFreq { s with queues := update s.queues j q, push := push, log := log } i l := by
  refine h.frame (update_of_ne (Ne.symm hj) _ _) hu rfl h.reading ?_ fun pkt' rest' ht' _ => ?_
  · have hoff := h.offered
    have hleft : ∀ b : Bool, packetsOf i (if b then ((j, pkt) :: rest).tail else (j, pkt) :: rest) = packetsOf i rest := by
      intro b
      cases b <;> simp [packetsOf_other hj]
    rw [State.left, ht, hleft] at hoff
    rw [ho, hu.handled, State.left,
      show ({ s with queues := update s.queues j q, push := push, log := log } : State P).todo = _ from ht,
      hleft, hoff]
  · exact absurd (Prod.mk.inj (List.cons.inj (ht.symm.trans ht')).1).1 hj

/-- The first thread pushes a packet of this lidar. -/
theorem Serves.own {pkt : StoragePacket P} {rest : List (ℕ × StoragePacket P)} (ht : s.todo = (i, pkt) :: rest)
    {push : PushPc} {log : List (Event P)} (hstores : Stores q l)
    (hsized : q.storagePacket.isSome ∧ q.capacity = packetQueueSize publishFreq)
    (horder : pushedTo i log = takenFrom i log ++ s.poll.hand i ++ l)
    (hread : ∀ pkt, s.poll = .taking i pkt → l.head? = some pkt)
    (hoff : offeredTo i log = handledFor i log ++ packetsOf i (if push.handled then rest else (i, pkt) :: rest))
    (hroom : push = .writing ∨ push = .advancing → l.length < packetQueueSize publishFreq)
    (hfilled : push = .advancing → Filled q pkt)
    (hdrops : ∀ pre pkt, pre ++ [.dropped i pkt] <+: log →
      (takenFrom i pre).length + packetQueueSize publishFreq ≤ (pushedTo i pre).length) :
    Serves publishFreq { s with queues := update s.queues i q, push := push, log := log } i l := by
  refine ⟨by simpa using hstores, fun _ => by simpa using hsized.2, horder, hread, ?_, fun pkt' rest' _ hp => ?_,
    fun pkt' rest' ht' hp => ?_, hdrops⟩
  · simpa [State.left, ht] using hoff
  · exact ⟨by simpa using hsized.1, hroom hp⟩
  · obtain rfl : pkt = pkt' := (Prod.mk.inj (List.cons.inj (ht.symm.trans ht')).1).2
    simpa using hfilled hp

/-- Before a packet is pushed or dropped. -/
theorem Serves.before (h : Serves publishFreq s i l) {pkt : StoragePacket P} {rest : List (ℕ × StoragePacket P)}
    (ht : s.todo = (i, pkt) :: rest) (hp : s.push.handled = false) :
    offeredTo i s.log = handledFor i s.log ++ pkt :: packetsOf i rest := by
  have hoff := h.offered
  rwa [State.left, hp, ht, if_neg (by simp), packetsOf_cons, if_pos rfl] at hoff

/-- **A step keeps what is known of a lidar.** -/
theorem serves_step (h : Serves publishFreq s i l) (hm : Moves publishFreq s s') :
    ∃ l', Serves publishFreq s' i l' := by
  cases hm with
  | @store frame ht =>
    refine ⟨l, h.frame rfl (.snoc _ (by simp) (by simp) (by simp)) rfl h.reading ?_ (by simp [State.add])⟩
    have hoff := h.offered
    rw [State.left, ht, List.tail_nil, ite_self, show packetsOf i ([] : List (ℕ × StoragePacket P)) = [] from rfl,
      List.append_nil] at hoff
    simp only [State.add, offeredTo_offered, hoff, State.left, PushPc.handled]
    simp [handledFor_snoc]
  | @full j pkt rest ht hp hf =>
    by_cases hj : j = i
    · subst hj
      have hstores := readied_stores publishFreq h.stores
      have hsized := readied_sized h.sized
      have hlen : packetQueueSize publishFreq ≤ l.length := by simpa [hstores.isFull, hsized.2] using hf
      refine ⟨l, .own ht hstores hsized ?_ h.reading ?_ (by simp) (by simp) fun pre pkt' hd => ?_⟩
      · rw [pushedTo_snoc j s.log (by simp), takenFrom_snoc j s.log (by simp)]
        exact h.order
      · rw [offeredTo_snoc j s.log (by simp), handledFor_dropped, h.before ht (by simp [hp, PushPc.handled])]
        simp [PushPc.handled]
      · rcases dropped_snoc hd with hd | ⟨rfl, -⟩
        · exact h.drops pre pkt' hd
        · rw [h.order]
          simp
          omega
    · exact ⟨l, h.elsewhere ht hj _ _ (.snoc _ (by simp) (by simpa using fun h => absurd h hj) (by simp))
        (offeredTo_snoc i _ (by simp))⟩
  | @room j pkt rest ht hp hf =>
    by_cases hj : j = i
    · subst hj
      have hstores := readied_stores publishFreq h.stores
      have hsized := readied_sized h.sized
      have hlen : l.length < packetQueueSize publishFreq := by simpa [hstores.isFull, hsized.2] using hf
      refine ⟨l, .own ht hstores hsized h.order h.reading ?_ (fun _ => hlen) (by simp) h.drops⟩
      simpa [PushPc.handled, packetsOf_cons] using h.before ht (by simp [hp, PushPc.handled])
    · exact ⟨l, h.elsewhere ht hj _ _ (.refl _) rfl⟩
  | @write j pkt rest ht hp =>
    by_cases hj : j = i
    · subst hj
      obtain ⟨hsome, hlen⟩ := h.room pkt rest ht (.inl hp)
      obtain ⟨cells, hcells⟩ := Option.isSome_iff_exists.mp hsome
      have hsize := h.sized hsome
      refine ⟨l, .own ht (h.stores.write (by rwa [hsize])) ⟨?_, hsize⟩ h.order h.reading ?_ (fun _ => hlen)
        (fun _ => filled_write hcells) h.drops⟩
      · simp [LidarDataQueue.write, hcells]
      · simpa [PushPc.handled, packetsOf_cons] using h.before ht (by simp [hp, PushPc.handled])
    · exact ⟨l, h.elsewhere ht hj _ _ (.refl _) rfl⟩
  | @advance j pkt rest ht hp =>
    by_cases hj : j = i
    · subst hj
      obtain ⟨hsome, hlen⟩ := h.room pkt rest ht (.inr hp)
      have hsize := h.sized hsome
      refine ⟨l ++ [pkt], .own ht (h.stores.advance (by rwa [hsize]) (h.filled pkt rest ht hp)) ⟨hsome, hsize⟩ ?_ ?_ ?_
        (by simp) (by simp) fun pre pkt' hd => ?_⟩
      · rw [pushedTo_pushed, takenFrom_snoc j s.log (by simp), h.order, List.append_assoc]
      · intro pkt' hr
        rw [List.head?_append, h.reading pkt' hr]
        rfl
      · rw [offeredTo_snoc j s.log (by simp), handledFor_pushed, h.before ht (by simp [hp, PushPc.handled])]
        simp [PushPc.handled]
      · exact h.drops pre pkt' ((dropped_snoc hd).resolve_right (by simp))
    · exact ⟨l, h.elsewhere ht hj _ _ (.snoc _ (by simpa using fun h => absurd h hj) (by simp) (by simp))
        (offeredTo_snoc i _ (by simp))⟩
  | emptied ht hp => exact ⟨l, h.after (by simp [hp, PushPc.handled]) _ (.inr ⟨by simp [ht], rfl⟩)⟩
  | tested ht hp => exact ⟨l, h.after (by simp [hp, PushPc.handled]) _ (.inl ⟨rfl, rfl⟩)⟩
  | counted ht hp => exact ⟨l, h.after (by simp [hp, PushPc.handled]) _ (.inl ⟨rfl, rfl⟩)⟩
  | pending ht hp => exact ⟨l, h.after (by simp [hp, PushPc.handled]) _ (.inr ⟨by simp [ht], rfl⟩)⟩
  | signal ht hp => exact ⟨l, h.after (by simp [hp, PushPc.handled]) _ (.inr ⟨by simp [ht], rfl⟩)⟩
  | enter hp =>
    exact ⟨l, h.goto rfl rfl rfl rfl (by rw [hp]; split <;> rfl) (by intro pkt; split <;> simp)⟩
  | wake hp | scan hp | skip hp | around hp | next hp | pop hp | popped hp =>
    exact ⟨l, h.goto rfl rfl rfl rfl (by rw [hp]; rfl) (by simp)⟩
  | @read j pkt hp hq =>
    refine ⟨l, h.goto rfl rfl rfl rfl (by rw [hp]; rfl) fun pkt' he => ?_⟩
    obtain ⟨rfl, rfl⟩ := PollPc.taking.inj he
    rw [← h.stores.prePop]
    exact hq
  | @take j pkt hp =>
    by_cases hj : j = i
    · subst hj
      obtain ⟨l', rfl⟩ := List.head?_eq_some_iff.mp (h.reading pkt hp)
      refine ⟨l', by simpa using h.stores.popUpdate, by simpa using h.sized, ?_, by simp, h.offered,
        fun pkt' rest ht hr => ?_, fun pkt' rest ht hr => by simpa using h.filled pkt' rest ht hr, h.drops⟩
      · simpa [hp, PollPc.hand] using h.order
      · obtain ⟨hsome, hlen⟩ := h.room pkt' rest ht hr
        rw [List.length_cons] at hlen
        exact ⟨by simpa using hsome, by omega⟩
    · refine ⟨l, h.frame (update_of_ne (Ne.symm hj) _ _) (.refl _) ?_ (by simp) h.offered fun _ _ ht _ => ⟨ht, rfl⟩⟩
      rw [hp]
      simp [PollPc.hand, hj]
  | @publish j pkt hp =>
    by_cases hj : j = i
    · subst hj
      refine ⟨l, h.stores, h.sized, ?_, by simp [State.add], ?_, h.room, h.filled, fun pre pkt' hd => ?_⟩
      · have horder := h.order
        rw [hp] at horder
        simp only [State.add, takenFrom_taken, pushedTo_snoc j s.log (e := .taken j pkt) (by simp), horder]
        simp [PollPc.hand]
      · have hsame := handledFor_snoc j s.log (e := .taken j pkt) (by simp) (by simp)
        simp only [State.add, offeredTo_snoc j s.log (e := .taken j pkt) (by simp), hsame]
        exact h.offered
      · exact h.drops pre pkt' ((dropped_snoc hd).resolve_right (by simp))
    · have hhand : PollPc.hand i (.publishing j pkt) = [] := by simp [PollPc.hand, hj]
      exact ⟨l, h.event rfl (.snoc _ (by simp) (by simp) (by simpa using fun h => absurd h hj)) (by simp) rfl rfl rfl
        (by rw [hp, hhand]; rfl) (by simp [State.add])⟩
  | sampling hs =>
    exact ⟨l, h.event rfl (.snoc _ (by simp) (by simp) (by simp)) (by simp) rfl rfl rfl rfl h.reading⟩
  | again => exact ⟨l, h⟩
  | exit => exact ⟨l, h.goto rfl rfl rfl rfl rfl h.reading⟩

end

/-! ## The semaphore -/

section
variable {i : ℕ} {l : List (StoragePacket P)}

theorem unannounced_of_ne (log : List (Event P)) {e : Event P} (hp : ∀ pkt, e ≠ .pushed i pkt)
    (hd : ∀ pkt, e ≠ .dropped i pkt) (hs : e ≠ .sampling i) : unannounced i (log ++ [e]) = unannounced i log := by
  rw [unannounced, lastValue_append]
  refine lastValue_of_none ?_ _
  cases e <;> simp_all

theorem unannounced_sampling (log : List (Event P)) : unannounced i (log ++ [.sampling i]) = true := by
  rw [unannounced, lastValue_append]
  simp [lastValue]

/-- The second thread will look at the queue: it is on its way there, the count lets it go, or the first thread has yet to
raise the count. -/
def Told (s : State P) (i : ℕ) : Prop :=
  0 < s.count ∨ s.poll.Visits i ∨ s.todo ≠ [] ∧ (s.push = .counting ∨ s.push = .signalling) ∨
    s.push = .testing ∧ ∃ pkt rest, s.todo = (i, pkt) :: rest

theorem Told.quiet (h : Told s i) (hp : s.push.handled = false) : 0 < s.count ∨ s.poll.Visits i := by
  rcases h with hc | hv | ⟨-, hp' | hp'⟩ | ⟨hp', -⟩
  · exact .inl hc
  · exact .inr hv
  all_goals simp [hp', PushPc.handled] at hp

/-- The second thread moves, and comes by the queue as before. -/
theorem Told.poll (h : Told s i) {poll : PollPc P} (hv : s.poll.Visits i → poll.Visits i) :
    Told { s with poll := poll } i :=
  h.imp_right (.imp_left hv)

/-- The second thread has been asked for its exit, and will not wait again. -/
def Leaving (s : State P) : Prop := s.requestExit = true ∧ s.poll ≠ .waiting

theorem leaving_step (h : Leaving s) (hm : Moves publishFreq s s') : Leaving s' := by
  obtain ⟨hx, hp⟩ := h
  cases hm with
  | enter => exact ⟨hx, by simp [hx]⟩
  | wake hw => exact absurd hw hp
  | exit => exact ⟨rfl, hp⟩
  | store | full | room | write | advance | emptied | tested | counted | pending | signal | sampling | again =>
    exact ⟨hx, hp⟩
  | scan | skip | around | next | pop | popped | read | take | publish => exact ⟨hx, by simp [State.add]⟩

/-- What holds of the lidars whose frames are published: where something waits, the second thread is told, unless it
leaves. -/
def Announced (s : State P) (i : ℕ) : Prop :=
  s.sampling i = true → ¬Leaving s → unannounced i s.log = false → (s.queues i).isEmpty = false → Told s i

/-- **A step keeps it**: nobody is left waiting. -/
theorem announced_step (hi : i < kMaxSourceLidar) (hl : Serves publishFreq s i l) (h : Announced s i)
    (hm : Moves publishFreq s s') : Announced s' i := by
  intro hs hx' hu he
  have hx : ¬Leaving s := fun hleaving => hx' (leaving_step hleaving hm)
  cases hm with
  | store ht =>
    rw [State.add, unannounced_of_ne _ (by simp) (by simp) (by simp)] at hu
    rcases h hs hx hu he with hc | hv | ⟨hne, -⟩ | ⟨-, pkt, rest, ht'⟩
    · exact .inl hc
    · exact .inr (.inl hv)
    · exact absurd ht hne
    · simp [ht] at ht'
  | full ht => exact .inr (.inr (.inl ⟨by simp [State.add, ht], .inl rfl⟩))
  | @room j pkt rest ht hp =>
    have he' : (s.queues i).isEmpty = false := by
      by_cases hj : j = i
      · subst hj
        rw [hl.stores.isEmpty, ← (readied_stores publishFreq hl.stores).isEmpty]
        simpa using he
      · simpa [update_of_ne (Ne.symm hj)] using he
    exact (h hs hx hu he').quiet (by simp [hp, PushPc.handled]) |>.imp_right .inl
  | @write j pkt rest ht hp =>
    have he' : (s.queues i).isEmpty = false := by
      by_cases hj : j = i
      · subst hj
        simpa using he
      · simpa [update_of_ne (Ne.symm hj)] using he
    exact (h hs hx hu he').quiet (by simp [hp, PushPc.handled]) |>.imp_right .inl
  | @advance j pkt rest ht hp =>
    by_cases hj : j = i
    · subst hj
      exact .inr (.inr (.inr ⟨rfl, pkt, rest, ht⟩))
    · rw [State.add, unannounced_of_ne _ (by simpa using fun h => absurd h hj) (by simp) (by simp)] at hu
      have he' : (s.queues i).isEmpty = false := by simpa [State.add, update_of_ne (Ne.symm hj)] using he
      exact (h hs hx hu he').quiet (by simp [hp, PushPc.handled]) |>.imp_right .inl
  | @emptied j pkt rest ht hp hempty =>
    rcases h hs hx hu he with hc | hv | ⟨-, hp' | hp'⟩ | ⟨-, pkt', rest', ht'⟩
    · exact .inl hc
    · exact .inr (.inl hv)
    · simp [hp] at hp'
    · simp [hp] at hp'
    · -- the packet that has been pushed is for this lidar, whose queue is not empty
      obtain rfl : j = i := (Prod.mk.inj (List.cons.inj (ht.symm.trans ht')).1).1
      simp [hempty] at he
  | tested ht => exact .inr (.inr (.inl ⟨by simp [ht], .inl rfl⟩))
  | counted ht => exact .inr (.inr (.inl ⟨by simp [ht], .inr rfl⟩))
  | pending ht hp hc => exact .inl hc
  | signal => exact .inl (Nat.succ_pos _)
  | enter hp => exact (h hs hx hu he).poll (by simp [hp, PollPc.Visits])
  | wake => exact .inr (.inl (Nat.zero_le i))
  | scan hp => exact (h hs hx hu he).poll (by simp [hp, PollPc.Visits])
  | @skip j hp hj hskip =>
    have hne : j ≠ i := by
      rintro rfl
      rcases hskip with hskip | hnull
      · simp [hskip] at hs
      · simp [hl.stores.isEmpty, hl.stores.null hnull] at he
    refine (h hs hx hu he).poll ?_
    simp only [hp, PollPc.Visits]
    omega
  | @around j hp hj =>
    refine (h hs hx hu he).poll ?_
    simp only [hp, PollPc.Visits]
    omega
  | @next j hp hnext =>
    have hne : j ≠ i := by
      rintro rfl
      rcases hnext with hexit | hempty
      · exact hx' ⟨hexit, by simp⟩
      · simp [hempty] at he
    refine (h hs hx hu he).poll ?_
    simp only [hp, PollPc.Visits]
    omega
  | pop hp => exact (h hs hx hu he).poll (by simp [hp, PollPc.Visits])
  | popped hp => exact (h hs hx hu he).poll (by simp [hp, PollPc.Visits])
  | read hp => exact (h hs hx hu he).poll (by simp [hp, PollPc.Visits])
  | @take j pkt hp =>
    by_cases hj : j = i
    · subst hj
      exact .inr (.inl le_rfl)
    · have he' : (s.queues i).isEmpty = false := by simpa [update_of_ne (Ne.symm hj)] using he
      exact (h hs hx hu he').poll (by simp [hp, PollPc.Visits])
  | publish hp =>
    rw [State.add, unannounced_of_ne _ (by simp) (by simp) (by simp)] at hu
    exact (h hs hx hu he).imp_right (.imp_left (by rw [hp]; exact id))
  | @sampling j hj =>
    have hne : j ≠ i := by
      rintro rfl
      simp [State.add, unannounced_sampling] at hu
    rw [State.add, unannounced_of_ne _ (by simp) (by simp) (by simpa using hne)] at hu
    exact h (by simpa [State.add, update_of_ne (Ne.symm hne)] using hs) hx hu he
  | again => exact h hs hx hu he
  | exit => exact h hs hx hu he

end

/-! ## Runs -/

section
variable {acts : List (Action P)}

theorem run_serves (hr : run (step publishFreq) acts .init = some s) (i : ℕ) : ∃ l, Serves publishFreq s i l := by
  have hstep : ∀ (a : Action P) (s s' : State P), (∃ l, Serves publishFreq s i l) → step publishFreq a s = some s' →
      ∃ l, Serves publishFreq s' i l :=
    fun _ _ _ ⟨_, h⟩ hs => serves_step h (step_moves hs)
  exact run_invariant hstep ⟨[], .init⟩ hr

/-- **The packets of a lidar come out in the order in which they went in**, however the two threads take turns and
wherever the indices wrap: none twice, none that was not stored, and none is missing but those that were dropped. A packet
is dropped only while the queue is full of packets that the second thread has not yet taken. -/
theorem frames_delivered (hr : run (step publishFreq) acts .init = some s) (i : ℕ) :
    takenFrom i s.log <+: pushedTo i s.log ∧ (pushedTo i s.log).length ≤
        (takenFrom i s.log).length + packetQueueSize publishFreq + 1 ∧
      handledFor i s.log <+: offeredTo i s.log ∧ (s.todo = [] → handledFor i s.log = offeredTo i s.log) ∧
      ∀ pre pkt, pre ++ [.dropped i pkt] <+: s.log →
        (takenFrom i pre).length + packetQueueSize publishFreq ≤ (pushedTo i pre).length := by
  obtain ⟨l, h⟩ := run_serves hr i
  refine ⟨⟨_, by rw [h.order, List.append_assoc]⟩, ?_, ⟨_, h.offered.symm⟩, fun ht => ?_, h.drops⟩
  · have hlen := h.length_le
    have hhand : (s.poll.hand i).length ≤ 1 := by
      unfold PollPc.hand
      split
      · split <;> simp
      · simp
    simp only [h.order, List.length_append]
    omega
  · have hoff := h.offered
    simpa [State.left, ht, packetsOf] using hoff.symm

/-- Seventeen packets of one lidar are stored, one more than there is room for, while the second thread waits; then it
publishes, and another one is stored in the meantime. -/
def overfullRun : List (Action ℕ) :=
  [.poll, .sampling 3, .store [(3, ⟨0, [0]⟩), (0, ⟨0, [1]⟩)]] ++ List.replicate 11 .push ++
    ((List.range 15).flatMap fun k => .store [(3, ⟨UInt64.ofNat (k + 1), [k + 1]⟩)] :: List.replicate 5 .push) ++
    [.store [(3, ⟨16, [16]⟩)], .push, .push] ++ List.replicate 20 .poll ++
    [.store [(3, ⟨17, [17]⟩)]] ++ List.replicate 6 .push ++ List.replicate 60 .poll

/-- The packet that finds the queue full is dropped, and the others are taken in their order. -/
theorem frames_delivered_overfull : ∃ s, run (step 10) overfullRun .init = some s ∧
    (offeredTo 3 s.log).length = 18 ∧ (pushedTo 3 s.log).length = 17 ∧ (takenFrom 3 s.log).length = 17 ∧
    takenFrom 3 s.log <+: pushedTo 3 s.log ∧ handledFor 3 s.log = offeredTo 3 s.log ∧
    ∀ pre pkt, pre ++ [.dropped 3 pkt] <+: s.log → (takenFrom 3 pre).length + packetQueueSize 10 ≤ (pushedTo 3 pre).length := by
  obtain ⟨s, hs, hq⟩ := (Option.any_eq_true _ _).1 (show (run (step 10) overfullRun .init).any (fun s =>
    s.todo = [] ∧ (offeredTo 3 s.log).length = 18 ∧ (pushedTo 3 s.log).length = 17 ∧ (takenFrom 3 s.log).length = 17)
      by decide +kernel)
  obtain ⟨hidle, hoffered, hpushed, htaken⟩ := of_decide_eq_true hq
  obtain ⟨horder, -, -, hhandled, hdrops⟩ := frames_delivered hs 3
  exact ⟨s, hs, hoffered, hpushed, htaken, horder, hhandled hidle, hdrops⟩

/-- A packet of each of two lidars. -/
def twoPackets : List (ℕ × StoragePacket ℕ) := [(0, ⟨7, [1, 2]⟩), (3, ⟨7, [3]⟩)]

/-- The second thread waits while the packets are stored, and publishes both. -/
def twoPacketsRun : List (Action ℕ) :=
  [.poll, .sampling 0, .sampling 3, .store twoPackets] ++ List.replicate 11 .push ++ List.replicate 47 .poll

/-- **No wake-up is lost**: while the second thread waits and nothing is being stored, nothing waits in the queue of a
lidar, unless the lidar has got its state after its last packet came. -/
theorem no_lost_wakeup (hr : run (step publishFreq) acts .init = some s) (hwait : s.poll = .waiting)
    (hcount : s.count = 0) (hidle : s.todo = []) {i : ℕ} (hi : i < kMaxSourceLidar) (hs : s.sampling i = true) :
    (s.queues i).isEmpty = true ∨ unannounced i s.log = true := by
  have hstep : ∀ (a : Action P) (s s' : State P), (∃ l, Serves publishFreq s i l) ∧ Announced s i →
      step publishFreq a s = some s' → (∃ l, Serves publishFreq s' i l) ∧ Announced s' i := by
    rintro a s s' ⟨⟨l, h⟩, ha⟩ hs
    exact ⟨serves_step h (step_moves hs), announced_step hi h ha (step_moves hs)⟩
  have hinit : Announced (State.init : State P) i := fun hs => by simp [State.init] at hs
  obtain ⟨-, ha⟩ := run_invariant hstep ⟨⟨[], .init⟩, hinit⟩ hr
  by_contra hno
  rw [not_or, Bool.not_eq_true, Bool.not_eq_true] at hno
  rcases ha hs (fun hleaving => hleaving.2 hwait) hno.2 hno.1 with hc | hv | ⟨hne, -⟩ | ⟨-, pkt, rest, ht⟩
  · omega
  · simp [hwait, PollPc.Visits] at hv
  · exact hne hidle
  · simp [hidle] at ht

theorem no_lost_wakeup_two : ∃ s, run (step 10) twoPacketsRun .init = some s ∧ s.poll = .waiting ∧
    ((s.queues 3).isEmpty = true ∨ unannounced 3 s.log = true) := by
  obtain ⟨s, hs, hq⟩ := (Option.any_eq_true _ _).1 (show (run (step 10) twoPacketsRun .init).any (fun s =>
    s.poll = .waiting ∧ s.count = 0 ∧ s.todo = [] ∧ s.sampling 3 = true) by decide +kernel)
  obtain ⟨hwait, hcount, hidle, hsam⟩ := of_decide_eq_true hq
  exact ⟨s, hs, hwait, no_lost_wakeup hs hwait hcount hidle (by decide) hsam⟩

end

end Agilex.Livox
