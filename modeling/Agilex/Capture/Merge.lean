import Agilex.Capture.Bag
import Agilex.Lib.StableMerge

/-!
# Merging the core and the raw bag

`merge_bags` copies the records of both bags, as bytes, in the order of their times. The merged bag has every record of
both once and unchanged, in the order of its own bag, core records before raw ones of the same time
(`merged_bag`). A reader of topics that the raw bag does not have reads from it what it reads from the core bag
(`readRaw_core`), so the frame groups are those of the core bag as long as the raw bag has no group topic. `rosbag` keeps
one connection for each topic: it stores the topics, messages and times that are written, and, where the bags have one header
for each topic, the headers as well (`storeAll_mergeBags`).
-/

namespace Agilex.Capture

open Agilex.Lib StableMerge

/-- The header of a connection: `type`, `md5sum`, `message_definition`, `callerid`, `latching`. -/
abbrev ConnectionHeader := Dict String String

/-- A message as it is read with `raw=True`. -/
structure RawMessage where
  datatype : String
  data : List UInt8
  md5sum : String
  deriving DecidableEq, Repr

/-- A record of a bag file, with the header of its connection. -/
structure RawRecord where
  topic : Topic
  message : RawMessage
  timestamp : ℤ
  connectionHeader : ConnectionHeader
  deriving DecidableEq

abbrev RawBag := List RawRecord

/-- `bag.read_messages(topics=topics, raw=True, return_connection_header=True)`: the records of the topics by bag time, in
file order within one time. -/
def readRaw (bag : RawBag) (topics : Topic → Bool) : List RawRecord :=
  sort RawRecord.timestamp (bag.filter fun r => topics r.topic)

/-- `merge_bags`: the records it writes. The streams are merged by `heapq.merge`, which takes equal records from the first
stream first. -/
def mergeBags (core raw : RawBag) : RawBag :=
  merge RawRecord.timestamp (readRaw core fun _ => true) (readRaw raw fun _ => true)

/-- `dest.write(topic, message, timestamp, raw=True, connection_header=header)`: a topic that is written already keeps the
connection it has. -/
def RawBag.write (dest : RawBag) (r : RawRecord) : RawBag :=
  match dest.find? fun q => q.topic = r.topic with
  | some q => dest ++ [{ r with connectionHeader := q.connectionHeader }]
  | none => dest ++ [r]

/-- The file of the destination, the records written one after the other. -/
def storeAll (written : List RawRecord) : RawBag := written.foldl RawBag.write []

/-- The record as it is read without `raw=True`, `deserialize` being what the class of the message does. -/
def RawRecord.record (deserialize : ConnectionHeader → RawMessage → Msg) (r : RawRecord) : Record :=
  ⟨r.topic, deserialize r.connectionHeader r.message, r.timestamp⟩

/-! ## Writing -/

/-- The records of a topic have one connection header. -/
def OneConnection (bag : RawBag) : Prop :=
  ∀ a ∈ bag, ∀ b ∈ bag, a.topic = b.topic → a.connectionHeader = b.connectionHeader

theorem RawBag.write_eq {dest : RawBag} {r : RawRecord} (h : OneConnection (dest ++ [r])) : dest.write r = dest ++ [r] := by
  unfold RawBag.write
  split
  · rename_i q hq
    have htopic : q.topic = r.topic := by simpa using List.find?_some hq
    rw [h q (List.mem_append_left _ (List.mem_of_find?_eq_some hq)) r (by simp) htopic]
  · rfl

/-- Where a topic has one header, the destination has the records that are written. -/
theorem storeAll_eq {written : List RawRecord} (h : OneConnection written) : storeAll written = written := by
  induction written using List.reverseRecOn with
  | nil => rfl
  | append_singleton l r ih =>
    have hl : OneConnection l := fun a ha b hb => h a (List.mem_append_left _ ha) b (List.mem_append_left _ hb)
    rw [storeAll, List.foldl_concat, ← storeAll, ih hl, RawBag.write_eq h]

/-- Whatever the headers, topics, messages and times are stored as they are written. -/
theorem storeAll_map {A : Type} (f : RawRecord → A) (hf : ∀ r header, f { r with connectionHeader := header } = f r)
    (written : List RawRecord) : (storeAll written).map f = written.map f := by
  induction written using List.reverseRecOn with
  | nil => rfl
  | append_singleton l r ih =>
    rw [storeAll, List.foldl_concat, ← storeAll, List.map_append, ← ih, RawBag.write]
    split <;> simp [hf]

/-! ## Reading -/

theorem readRaw_all (bag : RawBag) : readRaw bag (fun _ => true) = sort RawRecord.timestamp bag := by
  rw [readRaw, List.filter_true]

theorem mem_readRaw {bag : RawBag} {topics : Topic → Bool} {r : RawRecord} :
    r ∈ readRaw bag topics ↔ r ∈ bag ∧ topics r.topic = true :=
  (sort_perm _).mem_iff.trans List.mem_filter

theorem readRaw_sorted (bag : RawBag) (topics : Topic → Bool) :
    (readRaw bag topics).Pairwise fun a b => a.timestamp ≤ b.timestamp := sort_sorted _

theorem mergeBags_sorted (core raw : RawBag) : (mergeBags core raw).Pairwise fun a b => a.timestamp ≤ b.timestamp :=
  merge_sorted (readRaw_sorted core _) (readRaw_sorted raw _)

theorem mergeBags_perm (core raw : RawBag) : (mergeBags core raw).Perm (core ++ raw) := by
  rw [mergeBags, readRaw_all, readRaw_all]
  exact (merge_perm _ _).trans ((sort_perm core).append (sort_perm raw))

/-- **The merged file** has the topics, messages and times that are written, and all that is written when a topic has one
connection header in both bags. -/
theorem storeAll_mergeBags (core raw : RawBag) :
    (storeAll (mergeBags core raw)).map RawRecord.topic = (mergeBags core raw).map RawRecord.topic ∧
      (storeAll (mergeBags core raw)).map RawRecord.message = (mergeBags core raw).map RawRecord.message ∧
      (storeAll (mergeBags core raw)).map RawRecord.timestamp = (mergeBags core raw).map RawRecord.timestamp ∧
      (OneConnection (core ++ raw) → storeAll (mergeBags core raw) = mergeBags core raw) := by
  have hmem {r : RawRecord} (hr : r ∈ mergeBags core raw) : r ∈ core ++ raw := (mergeBags_perm core raw).subset hr
  exact ⟨storeAll_map _ (fun _ _ => rfl) _, storeAll_map _ (fun _ _ => rfl) _, storeAll_map _ (fun _ _ => rfl) _,
    fun h => storeAll_eq fun a ha b hb => h a (hmem ha) b (hmem hb)⟩

/-- Reading some topics of the merged bag is selecting them. -/
theorem readRaw_merged (core raw : RawBag) (topics : Topic → Bool) :
    readRaw (mergeBags core raw) topics = (mergeBags core raw).filter fun r => topics r.topic :=
  sort_of_sorted ((mergeBags_sorted core raw).filter _)

/-- **Topics the raw bag does not have** are read from the merged bag as from the core bag. -/
theorem readRaw_core {core raw : RawBag} {topics : Topic → Bool} (h : ∀ r ∈ raw, topics r.topic = false) :
    readRaw (mergeBags core raw) topics = readRaw core topics := by
  rw [readRaw_merged, mergeBags, merge_filter_left _ fun r hr => h r (mem_readRaw.1 hr).1, readRaw_all, sort_filter, readRaw]

/-- **Topics the core bag does not have** are read from the merged bag as from the raw bag. -/
theorem readRaw_raw {core raw : RawBag} {topics : Topic → Bool} (h : ∀ r ∈ core, topics r.topic = false) :
    readRaw (mergeBags core raw) topics = readRaw raw topics := by
  rw [readRaw_merged, mergeBags, merge_filter_right _ fun r hr => h r (mem_readRaw.1 hr).1, readRaw_all, sort_filter,
    readRaw]

/-- Deserializing does not change what is read. -/
theorem readMessages_record (deserialize : ConnectionHeader → RawMessage → Msg) (bag : RawBag) (topics : Topic → Bool) :
    readMessages (bag.map (RawRecord.record deserialize)) topics =
      (readRaw bag topics).map (RawRecord.record deserialize) := by
  have hsort : readMessages (bag.map (RawRecord.record deserialize)) topics =
      sort Record.time ((bag.map (RawRecord.record deserialize)).filter fun r => topics r.topic) := rfl
  rw [hsort, List.filter_map, sort_map]
  rfl

/-- The frame groups of the merged bag are those of the core bag when the raw bag has no group topic. -/
theorem frameGroups_merged (deserialize : ConnectionHeader → RawMessage → Msg) {core raw : RawBag}
    (h : ∀ r ∈ raw, r.topic.isGroup = false) :
    frameGroups ((mergeBags core raw).map (RawRecord.record deserialize)) =
      frameGroups (core.map (RawRecord.record deserialize)) := by
  rw [frameGroups, frameGroups, readMessages_record, readMessages_record, readRaw_core h]

/-- The messages of a topic the core bag does not have are counted in the merged bag as in the raw bag. -/
theorem messageCount_merged (deserialize : ConnectionHeader → RawMessage → Msg) {core raw : RawBag} {topic : Topic}
    (h : ∀ r ∈ core, r.topic ≠ topic) :
    messageCount ((mergeBags core raw).map (RawRecord.record deserialize)) topic =
      messageCount (raw.map (RawRecord.record deserialize)) topic := by
  have hcore : core.countP (fun r => decide (r.topic = topic)) = 0 :=
    List.countP_eq_zero.2 fun r hr => by simpa using h r hr
  simp only [messageCount, List.countP_map]
  rw [(mergeBags_perm core raw).countP_eq, List.countP_append]
  exact (congrArg (· + _) hcore).trans (Nat.zero_add _)

/-- **The merged bag.** It is sorted by time; it has every record of both bags once, unchanged and in the order in which its
own bag is read, and core records before raw records of the same time. When the bags have no topic in common, every topic
is read from it as from its own bag, each raw topic is counted in it as in the raw bag, and, when the raw bag has no
group topic either, its frame groups are those of the core bag. -/
theorem merged_bag (deserialize : ConnectionHeader → RawMessage → Msg) (core raw : RawBag) :
    (mergeBags core raw).Perm (core ++ raw) ∧
    (∃ sides : List (RawRecord ⊕ RawRecord), sides.map (Sum.elim id id) = mergeBags core raw ∧
      sides.filterMap Sum.getLeft? = readRaw core (fun _ => true) ∧
      sides.filterMap Sum.getRight? = readRaw raw (fun _ => true) ∧
      sides.Pairwise fun x y => (Sum.elim id id x).timestamp ≤ (Sum.elim id id y).timestamp ∧
        ((Sum.elim id id x).timestamp = (Sum.elim id id y).timestamp → x.isRight → y.isRight)) ∧
    ((∀ a ∈ core, ∀ b ∈ raw, a.topic ≠ b.topic) →
      (∀ topic, readRaw (mergeBags core raw) (· = topic) =
        if ∃ a ∈ core, a.topic = topic then readRaw core (· = topic) else readRaw raw (· = topic)) ∧
      (∀ b ∈ raw, messageCount ((mergeBags core raw).map (RawRecord.record deserialize)) b.topic =
        messageCount (raw.map (RawRecord.record deserialize)) b.topic) ∧
      ((∀ b ∈ raw, b.topic.isGroup = false) →
        frameGroups ((mergeBags core raw).map (RawRecord.record deserialize)) =
          frameGroups (core.map (RawRecord.record deserialize)))) := by
  refine ⟨mergeBags_perm core raw, ⟨mergeSides RawRecord.timestamp (readRaw core fun _ => true) (readRaw raw fun _ => true),
    mergeSides_map _ _, mergeSides_left _ _, mergeSides_right _ _, ?_⟩, fun hdisj => ⟨fun topic => ?_, fun b hb => ?_, fun h =>
      frameGroups_merged deserialize h⟩⟩
  · refine (mergeSides_ordered (readRaw_sorted core _) (readRaw_sorted raw _)).imp fun {x y} h => ?_
    cases x <;> cases y <;> exact h
  · split
    · rename_i hcore
      obtain ⟨a, ha, rfl⟩ := hcore
      exact readRaw_core fun b hb => by simpa using (hdisj a ha b hb).symm
    · rename_i hcore
      push Not at hcore
      exact readRaw_raw fun a ha => by simpa using hcore a ha
  · exact messageCount_merged deserialize fun a ha => hdisj a ha b hb

/-! ## Group topics in either bag -/

/-- A bag with a record on each group topic. -/
def groupsOnly : RawBag := GROUP.map fun t => ⟨.group t, ⟨"", [], ""⟩, 2, []⟩

/-- A raw bag with one lidar record, at the time of the group records. -/
def lidarOnly : RawBag := [⟨.other "/livox/lidar", ⟨"livox_ros_driver2/CustomMsg", [1, 2], ""⟩, 2, []⟩]

/-- A frame group and a lidar record of the same time. -/
theorem merged_bag_lidar :
    frameGroups ((mergeBags groupsOnly lidarOnly).map (RawRecord.record fun _ m => .raw m.data)) =
        frameGroups (groupsOnly.map (RawRecord.record fun _ m => .raw m.data)) ∧
      readRaw (mergeBags groupsOnly lidarOnly) (· = .other "/livox/lidar") = lidarOnly := by
  obtain ⟨-, -, h⟩ := merged_bag (fun _ m => .raw m.data) groupsOnly lidarOnly
  obtain ⟨hread, -, hgroups⟩ := h (by decide)
  exact ⟨hgroups (by decide), (hread _).trans (by decide)⟩

/-- A core bag without frames. -/
def sessionOnly : RawBag := [⟨.session, ⟨"std_msgs/String", [], ""⟩, 1, []⟩]

/-- **Frame groups of a raw bag** are frame groups of the merged bag: without a topic in common, the merged bag has a group
that the core bag does not have. -/
theorem merged_bag_raw_groups :
    (∀ a ∈ sessionOnly, ∀ b ∈ groupsOnly, a.topic ≠ b.topic) ∧
      (frameGroups ((mergeBags sessionOnly groupsOnly).map (RawRecord.record fun _ m => .raw m.data))).1.length = 1 ∧
      (frameGroups (sessionOnly.map (RawRecord.record fun _ m => .raw m.data))).1.length = 0 := by
  have hgroups : frameGroups ((mergeBags sessionOnly groupsOnly).map (RawRecord.record fun _ m => .raw m.data)) =
      frameGroups (groupsOnly.map (RawRecord.record fun _ m => .raw m.data)) := by
    rw [frameGroups, frameGroups, readMessages_record, readMessages_record, readRaw_raw (by decide)]
  rw [hgroups]
  decide +kernel

end Agilex.Capture
