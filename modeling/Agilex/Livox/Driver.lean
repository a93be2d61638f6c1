import Agilex.Livox.Cadence
import Mathlib.Data.List.Flatten

/-!
# The driver: from what a lidar sends to its messages

The thread of `PubHandler` gives its frames to `Lds::StoragePointData`, which looks up the index of each lidar (`cache_index.cpp`)
and pushes its part into its queue; the other thread takes them out and makes messages (`lddc.cpp`). `step` puts both sides
together: the first thread is busy until its frame is stored, and in between lidars may come up and get an index, also while
the parts of a frame are gone through.

- `Coupled`: the frames of a lidar are what its queue is offered; `coupled_step` keeps it.
- `points_published`: the points of a lidar come out in their order, whatever is dropped.
- `points_accounted`: nothing is lost but what is dropped, for the lidars of the configuration.
- `stamps_recovered`: the messages give back the stamps of the points.
-/

namespace Agilex.Livox.Driver

open Agilex.Lib.Machine Agilex.Lib.Framing Agilex.Livox.Frames Function

variable {R E C : Type}

/-! ## Indices -/

structure CacheIndex where
  mapIndex : UInt32 → Option ℕ
  indexCache : ℕ → Bool

namespace CacheIndex

def init : CacheIndex := ⟨fun _ => none, fun _ => false⟩

/-- `GetFreeIndex`, and the table after it. -/
def getFreeIndex (c : CacheIndex) (handle : UInt32) : Option (ℕ × CacheIndex) :=
  match c.mapIndex handle with
  | some index => some (index, c)
  | none =>
    ((List.range kMaxSourceLidar).find? fun i => !c.indexCache i).map fun i =>
      (i, ⟨update c.mapIndex handle (some i), update c.indexCache i true⟩)

/-- The loop of `InitLivoxLidar` over the lidars of the configuration. -/
def configured (handles : List UInt32) : CacheIndex :=
  handles.foldl (fun c handle => ((c.getFreeIndex handle).map (·.2)).getD c) init

/-- Different lidars have different indices. -/
structure Sound (c : CacheIndex) : Prop where
  used : ∀ h i, c.mapIndex h = some i → c.indexCache i = true
  injective : ∀ h h' i, c.mapIndex h = some i → c.mapIndex h' = some i → h = h'

variable {c c' : CacheIndex} {handle : UInt32} {index : ℕ}

theorem getFreeIndex_cases (h : c.getFreeIndex handle = some (index, c')) :
    c.mapIndex handle = some index ∧ c' = c ∨
      c.mapIndex handle = none ∧ c.indexCache index = false ∧
        c' = ⟨update c.mapIndex handle (some index), update c.indexCache index true⟩ := by
  unfold getFreeIndex at h
  split at h
  · next i hi =>
    obtain ⟨rfl, rfl⟩ := Prod.mk.inj (Option.some.inj h)
    exact .inl ⟨hi, rfl⟩
  · next hnone =>
    obtain ⟨i, hi, heq⟩ := Option.map_eq_some_iff.1 h
    obtain ⟨rfl, rfl⟩ := Prod.mk.inj heq
    exact .inr ⟨hnone, by simpa using List.find?_some hi, rfl⟩

/-- A lidar keeps its index. -/
theorem getFreeIndex_keeps (h : c.getFreeIndex handle = some (index, c')) {k : UInt32} {i : ℕ}
    (hk : c.mapIndex k = some i) : c'.mapIndex k = some i := by
  rcases getFreeIndex_cases h with ⟨-, rfl⟩ | ⟨hnone, -, rfl⟩
  · exact hk
  · have hne : k ≠ handle := by
      rintro rfl
      simp [hnone] at hk
    simpa [update_of_ne hne] using hk

theorem Sound.getFreeIndex (hc : c.Sound) (h : c.getFreeIndex handle = some (index, c')) : c'.Sound := by
  rcases getFreeIndex_cases h with ⟨-, rfl⟩ | ⟨-, hfree, rfl⟩
  · exact hc
  · have hother (k : UInt32) (hne : k ≠ handle) (i : ℕ)
        (hk : update c.mapIndex handle (some index) k = some i) : c.mapIndex k = some i ∧ i ≠ index := by
      rw [update_of_ne hne] at hk
      refine ⟨hk, ?_⟩
      rintro rfl
      simp [hc.used k i hk] at hfree
    have hself (i : ℕ) (hk : update c.mapIndex handle (some index) handle = some i) : i = index := by
      simpa using hk.symm
    refine ⟨fun k i hk => ?_, fun k k' i hk hk' => ?_⟩
    · by_cases hkh : k = handle
      · subst hkh
        simp [hself i hk]
      · obtain ⟨hold, hne⟩ := hother k hkh i hk
        simpa [update_of_ne hne] using hc.used k i hold
    · by_cases hkh : k = handle <;> by_cases hkh' : k' = handle
      · rw [hkh, hkh']
      · subst hkh
        exact absurd (hself i hk) (hother k' hkh' i hk').2
      · subst hkh'
        exact absurd (hself i hk') (hother k hkh i hk).2
      · exact hc.injective k k' i (hother k hkh i hk).1 (hother k' hkh' i hk').1

theorem sound_configured (handles : List UInt32) : (configured handles).Sound := by
  unfold configured
  have hinit : init.Sound := ⟨by simp [init], by simp [init]⟩
  generalize init = c at hinit
  induction handles generalizing c with
  | nil => exact hinit
  | cons handle handles ih =>
    refine ih _ ?_
    cases hf : c.getFreeIndex handle with
    | none => simpa [hf] using hinit
    | some p => simpa [hf] using hinit.getFreeIndex hf

end CacheIndex

/-! ## Both sides -/

/-- What `QueuePushAny` copies. -/
def storage (p : PointPacket C) : StoragePacket (PointXyzlt C) := ⟨p.baseTime, p.points⟩

structure State (R E C : Type) where
  handler : Frames.State R E C
  lds : Livox.State (PointXyzlt C)
  cacheIndex : CacheIndex
  /-- The parts of the frame that the loop of `StoragePointData` has not come to. -/
  frame : List (PointPacket C)

/-- The lidars of the configuration have their indices. -/
def State.init (handles : List UInt32) : State R E C := ⟨.init, .init, .configured handles, []⟩

inductive Action (R E : Type) where
  | handler (a : Frames.Action R E)
  /-- The loop of `StoragePointData` comes to the next part. -/
  | getIndex
  | push
  | poll
  | sampling (i : ℕ)
  | requestExit
  /-- A lidar that is not in the configuration comes up. -/
  | getFreeIndex (handle : UInt32)

/-- The steps of the thread of `RawDataProcess`. -/
def inThread : Frames.Action R E → Bool
  | .process | .checkTimer _ => true
  | _ => false

/-- The frame that a step of the handler has published. -/
def frameOf (s s' : Frames.State R E C) : Option (List (PointPacket C)) :=
  match s'.log.drop s.log.length with
  | [.published frame] => some frame
  | _ => none

def step (cfg : PubConfig) (v : Conversion R E C) (publishFreq : ℚ) (a : Action R E) (s : State R E C) :
    Option (State R E C) :=
  let ldsStep (a : Livox.Action (PointXyzlt C)) (s : State R E C) :=
    (Livox.step publishFreq a s.lds).map fun lds => { s with lds := lds }
  match a with
  | .handler a =>
    if inThread a && !(s.lds.todo.isEmpty && s.frame.isEmpty) then none
    else
      (Frames.step cfg v a s.handler).map fun handler =>
        { s with handler := handler, frame := (frameOf s.handler handler).getD s.frame }
  | .getIndex =>
    match s.frame with
    | [] => none
    | p :: rest =>
      if s.lds.todo.isEmpty then
        match s.cacheIndex.mapIndex p.handle with
        -- a lidar without an index is passed over
        | none => some { s with frame := rest }
        | some i => ldsStep (.store [(i, storage p)]) { s with frame := rest }
      else none
  | .push => ldsStep .push s
  | .poll => ldsStep .poll s
  | .sampling i => ldsStep (.sampling i) s
  | .requestExit => ldsStep .requestExit s
  | .getFreeIndex handle => (s.cacheIndex.getFreeIndex handle).map fun p => { s with cacheIndex := p.2 }

variable {cfg : PubConfig} {v : Conversion R E C} {publishFreq : ℚ} {s s' : State R E C}

/-- **What a step can do.** -/
inductive Moves (cfg : PubConfig) (v : Conversion R E C) (publishFreq : ℚ) : Option (Frames.Action R E) →
    State R E C → State R E C → Prop
  | handler {s : State R E C} {a handler} (h : Frames.step cfg v a s.handler = some handler)
    (hf : frameOf s.handler handler = none) : Moves cfg v publishFreq (some a) s { s with handler := handler }
  | frame {s : State R E C} {a handler frame} (h : Frames.step cfg v a s.handler = some handler)
    (hf : frameOf s.handler handler = some frame) (hempty : s.frame = []) :
    Moves cfg v publishFreq (some a) s { s with handler := handler, frame := frame }
  | pass {s : State R E C} {p rest} (hf : s.frame = p :: rest) (hi : s.cacheIndex.mapIndex p.handle = none) :
    Moves cfg v publishFreq none s { s with frame := rest }
  | store {s : State R E C} {p rest i lds} (hf : s.frame = p :: rest) (hi : s.cacheIndex.mapIndex p.handle = some i)
    (hl : Livox.step publishFreq (.store [(i, storage p)]) s.lds = some lds) :
    Moves cfg v publishFreq none s { s with frame := rest, lds := lds }
  | lds {s : State R E C} {a lds} (ha : ∀ frame, a ≠ .store frame) (hl : Livox.step publishFreq a s.lds = some lds) :
    Moves cfg v publishFreq none s { s with lds := lds }
  | index {s : State R E C} {handle i c} (hc : s.cacheIndex.getFreeIndex handle = some (i, c)) :
    Moves cfg v publishFreq none s { s with cacheIndex := c }

/-- Only the thread of `RawDataProcess` publishes. -/
theorem frameOf_inThread {h h' : Frames.State R E C} {a : Frames.Action R E} (hs : Frames.step cfg v a h = some h')
    {frame : List (PointPacket C)} (hf : frameOf h h' = some frame) : inThread a = true := by
  cases a with
  | process | checkTimer => rfl
  | receive handle devType data now =>
    simp only [Frames.step, onLivoxLidarPointCloudCallback] at hs
    split_ifs at hs <;> obtain rfl := Option.some.inj hs <;> simp [frameOf, Frames.State.add] at hf
  | addLidarsExtParam | clearAllLidarsExtrinsicParams =>
    obtain rfl := Option.some.inj hs
    simp [frameOf, Frames.State.add] at hf

def Action.ofHandler : Action R E → Option (Frames.Action R E)
  | .handler a => some a
  | _ => none

theorem step_moves {a : Action R E} (h : step cfg v publishFreq a s = some s') :
    Moves cfg v publishFreq a.ofHandler s s' := by
  cases a with
  | handler a =>
    simp only [step] at h
    split at h
    · exact absurd h (by simp)
    · next hbusy =>
      obtain ⟨handler, hh, rfl⟩ := Option.map_eq_some_iff.1 h
      cases hf : frameOf s.handler handler with
      | none => exact .handler hh hf
      | some frame =>
        have hempty : s.frame = [] := by
          rw [frameOf_inThread hh hf] at hbusy
          simp only [Bool.true_and, Bool.not_eq_true, Bool.not_eq_false', Bool.and_eq_true, List.isEmpty_iff] at hbusy
          exact hbusy.2
        exact .frame hh hf hempty
  | getIndex =>
    simp only [step] at h
    split at h
    · exact absurd h (by simp)
    · next p rest hf =>
      split at h
      · split at h
        · next hi =>
          obtain rfl := Option.some.inj h
          exact .pass hf hi
        · next i hi =>
          obtain ⟨lds, hl, rfl⟩ := Option.map_eq_some_iff.1 h
          exact .store hf hi hl
      · exact absurd h (by simp)
  | push | poll | sampling | requestExit =>
    simp only [step] at h
    obtain ⟨lds, hl, rfl⟩ := Option.map_eq_some_iff.1 h
    exact .lds (by simp) hl
  | getFreeIndex handle =>
    obtain ⟨⟨i, c⟩, hc, rfl⟩ := Option.map_eq_some_iff.1 h
    exact .index hc

/-! ## What is offered to the queues -/

theorem frameOf_none {h h' : Frames.State R E C} (hm : Frames.Moves cfg v h h') (hf : frameOf h h' = none) (id : UInt32) :
    publishedFor id h'.log = publishedFor id h.log := by
  cases hm with
  | flag | quiet => rfl
  | receive | process | added | cleared => simp [Frames.State.add]
  | due | timed => simp [frameOf, Frames.State.add] at hf

theorem frameOf_some {h h' : Frames.State R E C} (hm : Frames.Moves cfg v h h') {frame : List (PointPacket C)}
    (hf : frameOf h h' = some frame) (id : UInt32) :
    publishedFor id h'.log = publishedFor id h.log ++ frame.filter (·.handle = id) := by
  cases hm with
  | flag | quiet | receive | process | added | cleared => simp [frameOf, Frames.State.add] at hf
  | due | timed =>
    obtain rfl : _ = frame := by simpa [frameOf, Frames.State.add] using hf
    simp [Frames.State.add]

/-- What is left for a lidar of the frame that is gone through. -/
def State.rest (s : State R E C) (id : UInt32) : List (PointPacket C) := s.frame.filter (·.handle = id)

/-- The queue of a lidar is offered the parts of its frames that the loop has come to, from the first one after it got its
index. -/
structure Coupled (v : Conversion R E C) (publishFreq : ℚ) (handles : List UInt32) (s : State R E C) : Prop where
  framed : Framed v s.handler
  serves : ∀ i, ∃ l, Serves publishFreq s.lds i l
  sound : s.cacheIndex.Sound
  offered : ∀ id, ∃ done, publishedFor id s.handler.log = done ++ s.rest id ∧
    ∀ i, s.cacheIndex.mapIndex id = some i → ∃ l, l <:+ done ∧ offeredTo i s.lds.log = l.map storage
  unoffered : ∀ i, (∀ id, s.cacheIndex.mapIndex id ≠ some i) → offeredTo i s.lds.log = []
  configured : ∀ id i, (CacheIndex.configured handles).mapIndex id = some i → s.cacheIndex.mapIndex id = some i ∧
    ∃ done, publishedFor id s.handler.log = done ++ s.rest id ∧ offeredTo i s.lds.log = done.map storage

theorem Coupled.init {handles : List UInt32} : Coupled v publishFreq handles (.init handles : State R E C) where
  framed := .init
  serves := fun _ => ⟨[], .init⟩
  sound := CacheIndex.sound_configured handles
  offered := fun _ => ⟨[], rfl, fun _ _ => ⟨[], List.nil_suffix, rfl⟩⟩
  unoffered := fun _ _ => rfl
  configured := fun _ _ h => ⟨h, [], rfl, rfl⟩

section
variable {handles : List UInt32}

/-- Storing a part offers it to the queue of its lidar only. -/
theorem store_offeredTo {lds lds' : Livox.State (PointXyzlt C)} {i : ℕ} {p : PointPacket C}
    (hl : Livox.step publishFreq (.store [(i, storage p)]) lds = some lds') (j : ℕ) :
    offeredTo j lds'.log = offeredTo j lds.log ++ if i = j then [storage p] else [] := by
  simp only [Livox.step] at hl
  split at hl
  · obtain rfl := Option.some.inj hl
    rw [Livox.State.add, offeredTo_offered, packetsOf_cons]
    rfl
  · exact absurd hl (by simp)

/-- The loop comes to the next part, which is of a lidar with an index. -/
theorem Coupled.store (h : Coupled v publishFreq handles s) {p : PointPacket C} {rest : List (PointPacket C)} {i : ℕ}
    {lds : Livox.State (PointXyzlt C)} (hf : s.frame = p :: rest) (hi : s.cacheIndex.mapIndex p.handle = some i)
    (hl : Livox.step publishFreq (.store [(i, storage p)]) s.lds = some lds) :
    Coupled v publishFreq handles { s with frame := rest, lds := lds } := by
  have hoffered := store_offeredTo hl
  -- the part goes over from what is left to what has been come to
  have hover (id : UInt32) : s.rest id = (if p.handle = id then [p] else []) ++ rest.filter (·.handle = id) := by
    rw [State.rest, hf, List.filter_cons]
    by_cases hid : p.handle = id <;> simp [hid]
  refine ⟨h.framed, fun j => ?_, h.sound, fun id => ?_, fun j hj => ?_, fun id j hj => ?_⟩
  · obtain ⟨l, hserves⟩ := h.serves j
    exact serves_step hserves (Livox.step_moves hl)
  · obtain ⟨done, hdone, hl⟩ := h.offered id
    refine ⟨done ++ if p.handle = id then [p] else [], ?_, fun j hj => ?_⟩
    · rw [hdone, hover id, List.append_assoc]
      rfl
    · obtain ⟨l, ⟨pre, hpre⟩, heq⟩ := hl j hj
      refine ⟨l ++ if p.handle = id then [p] else [], ⟨pre, by rw [← List.append_assoc, hpre]⟩, ?_⟩
      rw [hoffered, heq, List.map_append]
      by_cases hid : p.handle = id
      · subst hid
        obtain rfl : i = j := Option.some.inj (hi.symm.trans hj)
        simp
      · have hij : i ≠ j := by
          rintro rfl
          exact hid (h.sound.injective _ _ _ hi hj)
        simp [hid, hij]
  · have hij : i ≠ j := by
      rintro rfl
      exact hj p.handle hi
    rw [hoffered, h.unoffered j hj, if_neg hij]
    rfl
  · obtain ⟨hindex, done, hdone, heq⟩ := h.configured id j hj
    refine ⟨hindex, done ++ if p.handle = id then [p] else [], ?_, ?_⟩
    · rw [hdone, hover id, List.append_assoc]
      rfl
    · rw [hoffered, heq, List.map_append]
      by_cases hid : p.handle = id
      · subst hid
        obtain rfl : i = j := Option.some.inj (hi.symm.trans hindex)
        simp
      · have hij : i ≠ j := by
          rintro rfl
          exact hid (h.sound.injective _ _ _ hi hindex)
        simp [hid, hij]

/-- **A step keeps it.** -/
theorem coupled_step {a : Option (Frames.Action R E)} (h : Coupled v publishFreq handles s)
    (hm : Moves cfg v publishFreq a s s') : Coupled v publishFreq handles s' := by
  cases hm with
  | @handler _ a handler hh hf =>
    have hmoves := Frames.step_moves hh
    have hsame (id : UInt32) : publishedFor id handler.log = publishedFor id s.handler.log := frameOf_none hmoves hf id
    exact ⟨framed_step h.framed hmoves, h.serves, h.sound, fun id => by rw [hsame]; exact h.offered id, h.unoffered,
      fun id i hi => by rw [hsame]; exact h.configured id i hi⟩
  | @frame _ a handler frame hh hf hempty =>
    have hmoves := Frames.step_moves hh
    have hnew := frameOf_some hmoves hf
    refine ⟨framed_step h.framed hmoves, h.serves, h.sound, fun id => ?_, h.unoffered, fun id i hi => ?_⟩
    · obtain ⟨done, hdone, hl⟩ := h.offered id
      rw [State.rest, hempty, List.filter_nil, List.append_nil] at hdone
      exact ⟨done, by rw [hnew, hdone]; rfl, hl⟩
    · obtain ⟨hindex, done, hdone, heq⟩ := h.configured id i hi
      rw [State.rest, hempty, List.filter_nil, List.append_nil] at hdone
      exact ⟨hindex, done, by rw [hnew, hdone]; rfl, heq⟩
  | @pass _ p rest hf hi =>
    have hother {id : UInt32} (hne : p.handle ≠ id) : s.rest id = rest.filter (·.handle = id) := by
      rw [State.rest, hf, List.filter_cons, if_neg (by simpa using hne)]
    refine ⟨h.framed, h.serves, h.sound, fun id => ?_, h.unoffered, fun id i hid => ?_⟩
    · obtain ⟨done, hdone, hl⟩ := h.offered id
      by_cases hid : p.handle = id
      · subst hid
        refine ⟨done ++ [p], ?_, fun i hi' => absurd (hi.symm.trans hi') (by simp)⟩
        rw [hdone, State.rest, hf, List.filter_cons, if_pos (by simp), List.append_assoc]
        rfl
      · exact ⟨done, by rw [hdone, hother hid]; rfl, hl⟩
    · obtain ⟨hindex, done, hdone, heq⟩ := h.configured id i hid
      have hne : p.handle ≠ id := by
        rintro rfl
        exact absurd (hi.symm.trans hindex) (by simp)
      exact ⟨hindex, done, by rw [hdone, hother hne]; rfl, heq⟩
  | store hf hi hl => exact h.store hf hi hl
  | @lds _ a lds ha hl =>
    have hsame := step_offeredTo ha hl
    refine ⟨h.framed, fun i => ?_, h.sound, fun id => ?_, fun i hi => ?_, fun id i hi => ?_⟩
    · obtain ⟨l, hserves⟩ := h.serves i
      exact serves_step hserves (Livox.step_moves hl)
    · obtain ⟨done, hdone, hl⟩ := h.offered id
      exact ⟨done, hdone, fun i hi => by rw [hsame]; exact hl i hi⟩
    · rw [hsame]
      exact h.unoffered i hi
    · rw [hsame]
      exact h.configured id i hi
  | @index _ handle j c hc =>
    have hkeeps {k : UInt32} {i : ℕ} (hk : s.cacheIndex.mapIndex k = some i) : c.mapIndex k = some i :=
      CacheIndex.getFreeIndex_keeps hc hk
    refine ⟨h.framed, h.serves, h.sound.getFreeIndex hc, fun id => ?_,
      fun i hi => h.unoffered i fun id hid => hi id (hkeeps hid),
      fun id i hi => ⟨hkeeps (h.configured id i hi).1, (h.configured id i hi).2⟩⟩
    obtain ⟨done, hdone, hl⟩ := h.offered id
    refine ⟨done, hdone, fun i hi => ?_⟩
    rcases CacheIndex.getFreeIndex_cases hc with ⟨-, rfl⟩ | ⟨hnone, hfree, rfl⟩
    · exact hl i hi
    · by_cases hid : id = handle
      · -- nobody had the index before
        subst hid
        obtain rfl : j = i := by simpa using hi
        refine ⟨[], List.nil_suffix, h.unoffered j fun k hk => ?_⟩
        simp [h.sound.used k j hk] at hfree
      · exact hl i (by simpa [update_of_ne hid] using hi)

end

/-! ## Messages -/

structure CustomPoint (C : Type) where
  coords : C
  reflectivity : UInt8
  tag : UInt8
  line : UInt8
  offsetTime : UInt32

/-- `CustomMsg`; `point_num` is the length of `points`. -/
structure CustomMsg (C : Type) where
  timebase : UInt64
  lidarId : UInt32
  points : List (CustomPoint C)

/-- `InitCustomMsg` and `FillPointsToCustomMsg`. -/
def customMsg (lidarId : UInt32) (pkg : StoragePacket (PointXyzlt C)) : CustomMsg C where
  timebase := if pkg.points.isEmpty then 0 else pkg.baseTime
  lidarId := lidarId
  points := pkg.points.map fun p => ⟨p.coords, p.intensity, p.tag, p.line, (p.offsetTime - pkg.baseTime).toUInt32⟩

/-- The stamps that a reader of the message computes. -/
def CustomMsg.stamps (msg : CustomMsg C) : List UInt64 := msg.points.map fun p => msg.timebase + p.offsetTime.toUInt64

theorem customMsg_stamps (lidarId : UInt32) {pkg : StoragePacket (PointXyzlt C)}
    (h : ∀ x ∈ pkg.points, pkg.baseTime.toNat ≤ x.offsetTime.toNat ∧ x.offsetTime.toNat < pkg.baseTime.toNat + 2 ^ 32) :
    (customMsg lidarId pkg).stamps = pkg.points.map (·.offsetTime) := by
  rw [CustomMsg.stamps, customMsg, List.map_map]
  refine List.map_congr_left fun x hx => ?_
  obtain ⟨hfrom, hto⟩ := h x hx
  have hne : pkg.points.isEmpty = false := by
    rw [List.isEmpty_eq_false_iff]
    exact List.ne_nil_of_mem hx
  have hsub := UInt64.toNat_sub_of_le x.offsetTime pkg.baseTime (UInt64.le_iff_toNat_le.2 hfrom)
  have hlt := x.offsetTime.toNat_lt
  simp only [comp_apply, hne, Bool.false_eq_true, if_false]
  rw [← UInt64.toNat_inj, UInt64.toNat_add, UInt32.toNat_toUInt64, UInt64.toNat_toUInt32, hsub]
  omega

/-! ## Runs -/

@[simp] theorem storage_points (l : List (PointPacket C)) :
    (l.map storage).flatMap (·.points) = l.flatMap (·.points) := by
  simp [List.flatMap_map, storage]

theorem pushedTo_sublist {P : Type} (i : ℕ) (log : List (Livox.Event P)) :
    (pushedTo i log).Sublist (handledFor i log) := by
  induction log with
  | nil => exact List.Sublist.slnil
  | cons e log ih =>
    cases e with
    | offered | taken | sampling => simpa [pushedTo, handledFor] using ih
    | pushed j pkt => by_cases hj : j = i <;> simpa [pushedTo, handledFor, hj] using ih
    | dropped j pkt =>
      by_cases hj : j = i
      · simpa [pushedTo, handledFor, hj] using ih.trans (List.sublist_cons_self pkt _)
      · simpa [pushedTo, handledFor, hj] using ih

theorem handledFor_of_no_drop {P : Type} {i : ℕ} {log : List (Livox.Event P)} (h : ∀ pkt, .dropped i pkt ∉ log) :
    handledFor i log = pushedTo i log := by
  refine List.filterMap_congr fun e he => ?_
  cases e with
  | offered | pushed | taken | sampling => rfl
  | dropped j pkt =>
    have hj : j ≠ i := by
      rintro rfl
      exact h pkt he
    simp [hj]

section
variable {acts : List (Action R E)} {handles : List UInt32} {id : UInt32} {i : ℕ}

theorem run_coupled (hr : run (step cfg v publishFreq) acts (.init handles) = some s) :
    Coupled v publishFreq handles s := by
  have hstep : ∀ (a : Action R E) (s s' : State R E C), Coupled v publishFreq handles s →
      step cfg v publishFreq a s = some s' → Coupled v publishFreq handles s' :=
    fun _ _ _ h hs => coupled_step h (step_moves hs)
  exact run_invariant hstep .init hr

/-- The first thread by itself is a run of its machine. -/
theorem run_handler (hr : run (step cfg v publishFreq) acts (.init handles) = some s) :
    run (Frames.step cfg v) (acts.filterMap Action.ofHandler) .init = some s.handler := by
  refine run_induction (P := fun l s => run (Frames.step cfg v) (l.filterMap Action.ofHandler) .init = some s.handler) rfl
    (fun l s a s' _ ih hs => ?_) hr
  have hm := step_moves hs
  have hone : [a].filterMap Action.ofHandler = a.ofHandler.toList := by cases a <;> rfl
  rw [List.filterMap_append, hone]
  generalize a.ofHandler = b at hm
  cases hm with
  | handler hh | frame hh => exact run_snoc.2 ⟨_, ih, hh⟩
  | pass | store | lds | index => simpa using ih

/-- What a queue is offered are frames of its lidar. -/
theorem taken_sublist (hr : run (step cfg v publishFreq) acts (.init handles) = some s)
    (hi : s.cacheIndex.mapIndex id = some i) :
    (takenFrom i s.lds.log).Sublist ((publishedFor id s.handler.log).map storage) := by
  have h := run_coupled hr
  obtain ⟨l, hserves⟩ := h.serves i
  obtain ⟨done, hdone, hfrom⟩ := h.offered id
  obtain ⟨fs, hsuffix, hoffered⟩ := hfrom i hi
  have htaken : takenFrom i s.lds.log <+: pushedTo i s.lds.log := ⟨_, by rw [hserves.order, List.append_assoc]⟩
  have hhandled : handledFor i s.lds.log <+: offeredTo i s.lds.log := ⟨_, hserves.offered.symm⟩
  have hframes : (offeredTo i s.lds.log).Sublist ((publishedFor id s.handler.log).map storage) := by
    rw [hoffered, hdone]
    exact (hsuffix.sublist.trans (List.sublist_append_left _ _)).map storage
  exact htaken.sublist.trans ((pushedTo_sublist i _).trans (hhandled.sublist.trans hframes))

/-- **The points of a lidar come out in the order in which its packets came**: none twice, none that was not sent, whatever is
dropped, however the threads take turns, and whenever the lidar came up. -/
theorem points_published (hr : run (step cfg v publishFreq) acts (.init handles) = some s)
    (hi : s.cacheIndex.mapIndex id = some i) :
    ((takenFrom i s.lds.log).flatMap (·.points)).Sublist (pointsIn v (processedFor id s.handler.log)) := by
  have hpoints := (taken_sublist hr hi).flatMap (·.points)
  rw [storage_points] at hpoints
  refine hpoints.trans ?_
  rw [← (run_coupled hr).framed.cut id]
  exact List.sublist_append_left _ _

/-- Two frames of steady packets are stored, and both are taken. -/
def driverRun : List (Action ℕ ℕ) :=
  (steadyRun.take 57).map .handler ++ [.getIndex] ++ List.replicate 6 .push ++
    ((steadyRun.drop 57).take 60).map .handler ++ [.getIndex] ++ List.replicate 5 .push ++
    (steadyRun.drop 117).map .handler ++ [.sampling 0] ++ List.replicate 10 .poll

theorem driverRun_synced : ∀ a, .handler a ∈ driverRun → a.Synced := by
  intro a ha
  have hmem : a ∈ steadyRun.take 57 ∨ a ∈ (steadyRun.drop 57).take 60 ∨ a ∈ steadyRun.drop 117 := by
    simpa [driverRun, -List.map_take, -List.map_drop] using ha
  rcases hmem with h | h | h
  · exact steadyRun_synced a (List.mem_of_mem_take h)
  · exact steadyRun_synced a (List.mem_of_mem_drop (List.mem_of_mem_take h))
  · exact steadyRun_synced a (List.mem_of_mem_drop h)

theorem driverRun_two : ∃ s, run (step hundredHertz unchanged 100) driverRun (.init [3]) = some s ∧
    s.cacheIndex.mapIndex 3 = some 0 ∧ (takenFrom 0 s.lds.log).length = 2 ∧
    (s.lds.log.all fun | .dropped _ _ => false | _ => true) = true ∧
    Steady UInt64.toNat 500000 (stampsFor 3 s.handler.log) := by
  obtain ⟨s, hs, hq⟩ := (Option.any_eq_true _ _).1 (show (run (step hundredHertz unchanged 100) driverRun (.init [3])).any
    (fun s => s.cacheIndex.mapIndex 3 = some 0 ∧ (takenFrom 0 s.lds.log).length = 2 ∧
      (s.lds.log.all fun | .dropped _ _ => false | _ => true) = true ∧
      Steady UInt64.toNat 500000 (stampsFor 3 s.handler.log)) by decide +kernel)
  exact ⟨s, hs, of_decide_eq_true hq⟩

theorem points_published_two : ∃ s, run (step hundredHertz unchanged 100) driverRun (.init [3]) = some s ∧
    (takenFrom 0 s.lds.log).length = 2 ∧
    ((takenFrom 0 s.lds.log).flatMap (·.points)).Sublist (pointsIn unchanged (processedFor 3 s.handler.log)) := by
  obtain ⟨s, hs, hi, hlen, -⟩ := driverRun_two
  exact ⟨s, hs, hlen, points_published hs hi⟩

/-- **Every point of a lidar of the configuration is accounted for**, as long as none of its packets is dropped: put together
in their order, the packets that are taken, the one in the hand of the second thread, those in the queue, the one that is being
pushed, the parts of the frame that the loop has not come to and the points in the cloud are all the points of the packets that
were processed. -/
theorem points_accounted (hr : run (step cfg v publishFreq) acts (.init handles) = some s)
    (hi : (CacheIndex.configured handles).mapIndex id = some i) (hd : ∀ pkt, .dropped i pkt ∉ s.lds.log) :
    ∃ l, Stores (s.lds.queues i) l ∧
      (takenFrom i s.lds.log ++ s.lds.poll.hand i ++ l ++ s.lds.left i).flatMap (·.points) ++
          (s.rest id).flatMap (·.points) ++ (s.handler.lidarProcessHandlers id).pointsClouds =
        pointsIn v (processedFor id s.handler.log) := by
  have h := run_coupled hr
  obtain ⟨l, hserves⟩ := h.serves i
  obtain ⟨-, done, hdone, hoffered⟩ := h.configured id i hi
  have hcut := h.framed.cut id
  refine ⟨l, hserves.stores, ?_⟩
  rw [← hserves.order, ← handledFor_of_no_drop hd, ← hserves.offered, hoffered, storage_points, ← List.flatMap_append,
    ← hdone]
  exact hcut

theorem points_accounted_two : ∃ s l, run (step hundredHertz unchanged 100) driverRun (.init [3]) = some s ∧
    (takenFrom 0 s.lds.log).length = 2 ∧
    (takenFrom 0 s.lds.log ++ s.lds.poll.hand 0 ++ l ++ s.lds.left 0).flatMap (·.points) ++
      (s.rest 3).flatMap (·.points) ++ (s.handler.lidarProcessHandlers 3).pointsClouds =
        pointsIn unchanged (processedFor 3 s.handler.log) := by
  obtain ⟨s, hs, -, hlen, hall, -⟩ := driverRun_two
  have hd (pkt : StoragePacket (PointXyzlt ℕ)) : .dropped 0 pkt ∉ s.lds.log := fun hmem => by
    simpa using List.all_eq_true.1 hall _ hmem
  obtain ⟨l, -, haccounted⟩ := points_accounted hs (by decide : (CacheIndex.configured [3]).mapIndex 3 = some 0) hd
  exact ⟨s, l, hs, hlen, haccounted⟩

end

end Agilex.Livox.Driver
