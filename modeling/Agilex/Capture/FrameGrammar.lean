import Agilex.Capture.Bag
import Agilex.Lib.Runs

/-!
# The grammar of frame groups

`frame_groups` cuts the records of the group topics into their maximal runs of equal bag time, and accepts them when every
run holds each of the seven topics once (`frame_groups_grammar`).

- `groupsFrom_collect` and `groupsFrom_duplicate`: what happens within a run;
- `groupsFrom_close`: what happens where a run ends, at the next one or at the end of the bag.
-/

namespace Agilex.Capture

open Agilex.Lib

/-- A record on one of the group topics. -/
structure GroupRecord where
  topic : GroupTopic
  msg : Msg
  time : ℤ

namespace GroupRecord

/-- The record in the bag. -/
def record (m : GroupRecord) : Record := ⟨.group m.topic, m.msg, m.time⟩

/-- What a run of records collects. -/
def entries (run : List GroupRecord) : GroupDict := run.map fun m => (m.topic, m.msg)

/-- Each of the seven topics once. -/
def Complete (run : List GroupRecord) : Prop := (run.map topic).Perm GROUP

instance (run : List GroupRecord) : Decidable (Complete run) := inferInstanceAs (Decidable (List.Perm _ _))

/-- The records of a yielded group. -/
def ofGroup (g : ℤ × GroupDict) : List GroupRecord := g.2.map fun tm => ⟨tm.1, tm.2, g.1⟩

theorem entries_append (run run' : List GroupRecord) : entries (run ++ run') = entries run ++ entries run' :=
  List.map_append

theorem entries_keys (run : List GroupRecord) : (entries run).map Prod.fst = run.map topic := by
  rw [entries, List.map_map]
  rfl

theorem entries_lookup_isSome (run : List GroupRecord) (t : GroupTopic) :
    ((entries run).lookup t).isSome = true ↔ t ∈ run.map topic := by
  rw [← entries_keys]
  constructor
  · intro h
    by_contra hn
    rw [Dict.lookup_none hn] at h
    cases h
  · intro h
    obtain ⟨p, hp, hpt⟩ := List.mem_map.1 h
    by_contra hn
    rw [Bool.not_eq_true, Option.isSome_eq_false_iff, Option.isNone_iff_eq_none, List.lookup_eq_none_iff] at hn
    exact absurd (hn p hp) (by simp [hpt])

/-- A run of distinct topics is complete iff it has all. -/
theorem complete_iff {run : List GroupRecord} (hnd : (run.map topic).Nodup) :
    (entries run).complete = true ↔ Complete run := by
  have hall : (entries run).complete = true ↔ ∀ t ∈ GROUP, t ∈ run.map topic := by
    unfold GroupDict.complete
    rw [List.all_eq_true]
    exact forall₂_congr fun t _ => entries_lookup_isSome run t
  have hmem : ∀ t : GroupTopic, t ∈ GROUP := by
    intro t
    cases t <;> decide
  rw [hall, Complete, List.perm_ext_iff_of_nodup hnd (by decide)]
  exact ⟨fun h t => ⟨fun _ => hmem t, h t⟩, fun h t ht => (h t).2 ht⟩

/-! ## Within a run -/

/-- Records of new topics are collected. -/
theorem groupsFrom_collect {ns : ℤ} (rest : List Record) (run : List GroupRecord) :
    ∀ done : List GroupRecord, (∀ m ∈ run, m.time = ns) → ((done ++ run).map topic).Nodup →
      groupsFrom (some ns) (entries done) (run.map record ++ rest) =
        groupsFrom (some ns) (entries (done ++ run)) rest := by
  induction run with
  | nil => simp
  | cons m run ih =>
    intro done htime hnd
    have hm : m.time = ns := htime m List.mem_cons_self
    have hnew : m.topic ∉ done.map topic := by
      rw [List.map_append, List.nodup_append] at hnd
      exact fun hmem => hnd.2.2 m.topic hmem m.topic (by simp) rfl
    have hlook : ¬((entries done).lookup m.topic).isSome = true := fun h => hnew ((entries_lookup_isSome done m.topic).1 h)
    have hset : Dict.set (entries done) m.topic m.msg = entries (done ++ [m]) := by
      rw [Dict.set_new _ (by rw [entries_keys]; exact hnew), entries_append]
      rfl
    have hsame : ¬((some ns).any (m.time ≠ ·)) = true := by simp [hm]
    rw [List.map_cons, List.cons_append, record, groupsFrom]
    simp only
    rw [if_neg fun h => hsame h.1, if_neg hsame, if_neg hsame, if_neg hlook, hset, hm,
      ih (done ++ [m]) (fun x hx => htime x (List.mem_cons_of_mem _ hx)) (by simpa using hnd), List.append_assoc]
    rfl

/-- A topic that comes again is an error. -/
theorem groupsFrom_duplicate {ns : ℤ} (rest : List Record) (run : List GroupRecord) :
    ∀ done : List GroupRecord, (∀ m ∈ run, m.time = ns) → (done.map topic).Nodup →
      ¬((done ++ run).map topic).Nodup →
      groupsFrom (some ns) (entries done) (run.map record ++ rest) =
        ([], some (.value "Duplicate topic in frame group")) := by
  induction run with
  | nil =>
    intro done _ hd hnd
    exact absurd (by simpa using hd) hnd
  | cons m run ih =>
    intro done htime hd hnd
    have hm : m.time = ns := htime m List.mem_cons_self
    have hsame : ¬((some ns).any (m.time ≠ ·)) = true := by simp [hm]
    by_cases hold : m.topic ∈ done.map topic
    · rw [List.map_cons, List.cons_append, record, groupsFrom]
      simp only
      rw [if_neg fun h => hsame h.1, if_neg hsame, if_neg hsame, if_pos ((entries_lookup_isSome done m.topic).2 hold)]
    · have hd' : ((done ++ [m]).map topic).Nodup := by
        rw [List.map_append, List.map_singleton]
        exact List.nodup_append.2 ⟨hd, by simp, fun a ha b hb => by
          rintro rfl
          obtain rfl := List.mem_singleton.1 hb
          exact hold ha⟩
      have hone : groupsFrom (some ns) (entries done) (m.record :: (run.map record ++ rest)) =
          groupsFrom (some ns) (entries (done ++ [m])) (run.map record ++ rest) :=
        groupsFrom_collect _ [m] done (by simpa using hm) hd'
      rw [List.map_cons, List.cons_append]
      exact hone.trans (ih (done ++ [m]) (fun x hx => htime x (List.mem_cons_of_mem _ hx)) hd' (by simpa using hnd))

/-! ## Where a run ends -/

/-- The first record of a group opens it, whatever came before. -/
theorem groupsFrom_open (m : GroupRecord) (rest : List Record) :
    groupsFrom none [] (m.record :: rest) = groupsFrom (some m.time) (entries [m]) rest := by
  rw [record, groupsFrom]
  rfl

/-- A complete group is yielded at a record of another stamp. -/
theorem groupsFrom_next {ns : ℤ} {d : GroupDict} (hd : d.complete = true) (m : GroupRecord) (hne : m.time ≠ ns)
    (rest : List Record) :
    groupsFrom (some ns) d (m.record :: rest) =
      ((ns, d) :: (groupsFrom none [] (m.record :: rest)).1, (groupsFrom none [] (m.record :: rest)).2) := by
  have hnew : ((some ns).any (m.time ≠ ·)) = true := by simpa using hne
  rw [groupsFrom_open, record, groupsFrom]
  simp only
  rw [if_neg fun h => h.2 hd, if_pos hnew, if_pos hnew]
  rfl

/-- A complete run is yielded where the next one begins, or at the end. -/
theorem groupsFrom_close {ns : ℤ} {run rest : List GroupRecord} (hne : run ≠ []) (hc : (entries run).complete = true)
    (hrest : ∀ m ∈ rest.head?, m.time ≠ ns) :
    groupsFrom (some ns) (entries run) (rest.map record) =
      ((ns, entries run) :: (groupsFrom none [] (rest.map record)).1, (groupsFrom none [] (rest.map record)).2) := by
  cases rest with
  | nil =>
    have hne' : entries run ≠ [] := by simpa [entries] using hne
    rw [List.map_nil, groupsFrom, if_neg hne', if_pos hc]
    rfl
  | cons m rest => exact groupsFrom_next hc m (hrest m rfl) (rest.map record)

/-- An incomplete run is an error where it ends. -/
theorem groupsFrom_incomplete {ns : ℤ} {run rest : List GroupRecord} (hne : run ≠ [])
    (hc : ¬(entries run).complete = true) (hrest : ∀ m ∈ rest.head?, m.time ≠ ns) :
    ∃ err, groupsFrom (some ns) (entries run) (rest.map record) = ([], some err) := by
  cases rest with
  | nil =>
    have hne' : entries run ≠ [] := by simpa [entries] using hne
    exact ⟨_, by rw [List.map_nil, groupsFrom, if_neg hne', if_neg hc]⟩
  | cons m rest =>
    have hnew : ((some ns).any (m.time ≠ ·)) = true := by simpa using hrest m rfl
    refine ⟨.value ("Incomplete frame group at " ++ toString ns), ?_⟩
    rw [List.map_cons, record, groupsFrom]
    simp only
    rw [if_pos ⟨hnew, hc⟩]
    rfl

/-- **A run, read from its beginning**: it is yielded and the rest read on, or it is an error. -/
theorem groupsFrom_run {m : GroupRecord} {run rest : List GroupRecord} (hrun : ∀ x ∈ run, x.time = m.time)
    (hrest : ∀ x ∈ rest.head?, x.time ≠ m.time) :
    if Complete (m :: run) then
      groupsFrom none [] ((m :: run ++ rest).map record) =
        ((m.time, entries (m :: run)) :: (groupsFrom none [] (rest.map record)).1, (groupsFrom none [] (rest.map record)).2)
    else ∃ err, groupsFrom none [] ((m :: run ++ rest).map record) = ([], some err) := by
  rw [List.cons_append, List.map_cons, List.map_append, groupsFrom_open]
  by_cases hnd : ((m :: run).map topic).Nodup
  · rw [groupsFrom_collect _ run [m] hrun hnd, List.singleton_append]
    split
    · rename_i hc
      exact groupsFrom_close (List.cons_ne_nil m run) ((complete_iff hnd).2 hc) hrest
    · rename_i hc
      exact groupsFrom_incomplete (List.cons_ne_nil m run) (fun h => hc ((complete_iff hnd).1 h)) hrest
  · have hc : ¬Complete (m :: run) := fun h => hnd (h.nodup_iff.2 (by decide))
    rw [if_neg hc]
    exact ⟨_, groupsFrom_duplicate _ run [m] hrun (by simp) hnd⟩

/-- The group that a run is yielded as. -/
def yieldedAs (run : List GroupRecord) : ℤ × GroupDict := ((run.head?.map time).getD 0, entries run)

/-- The records of a yielded run are the run. -/
theorem ofGroup_yieldedAs {m : GroupRecord} {run : List GroupRecord} (hrun : ∀ x ∈ run, x.time = m.time) :
    ofGroup (yieldedAs (m :: run)) = m :: run := by
  have hcopy : ∀ x ∈ m :: run, (⟨x.topic, x.msg, m.time⟩ : GroupRecord) = x := by
    intro x hx
    rcases List.mem_cons.1 hx with rfl | hx
    · rfl
    · rw [← hrun x hx]
  simp only [ofGroup, yieldedAs, entries, List.map_map]
  exact (List.map_congr_left hcopy).trans (List.map_id _)

/-- **What `frame_groups` yields**: the complete runs up to the first incomplete one, by induction on the runs. -/
theorem groupsFrom_runs (rs : List GroupRecord) :
    (groupsFrom none [] (rs.map record)).1 = ((keyRuns time rs).takeWhile fun run => Complete run).map yieldedAs ∧
      ((groupsFrom none [] (rs.map record)).2 = none ↔ ∀ run ∈ keyRuns time rs, Complete run) ∧
      ∀ run ∈ keyRuns time rs, ofGroup (yieldedAs run) = run := by
  induction rs using keyRuns_induction time with
  | h0 => exact ⟨rfl, by simp [groupsFrom], by simp⟩
  | hrun m run rest hrun hrest ih =>
    obtain ⟨ih1, ih2, ih3⟩ := ih
    have hstep := groupsFrom_run hrun hrest
    rw [keyRuns_append hrun hrest]
    refine ⟨?_, ?_, ?_⟩
    · split at hstep
      · rename_i hc
        rw [hstep, ih1, List.takeWhile_cons_of_pos (by simpa using hc)]
        rfl
      · rename_i hc
        obtain ⟨err, hstep⟩ := hstep
        rw [hstep, List.takeWhile_cons_of_neg (by simpa using hc)]
        rfl
    · rw [List.forall_mem_cons]
      split at hstep
      · rename_i hc
        rw [hstep, ih2]
        exact ⟨fun h => ⟨hc, h⟩, fun h => h.2⟩
      · rename_i hc
        obtain ⟨err, hstep⟩ := hstep
        rw [hstep]
        exact ⟨fun h => (nomatch h), fun h => absurd h.1 hc⟩
    · intro r hr
      rcases List.mem_cons.1 hr with rfl | hr
      · exact ofGroup_yieldedAs hrun
      · exact ih3 r hr

end GroupRecord

/-- The records `frame_groups` reads are on group topics. -/
theorem readMessages_groups (bag : Bag) :
    ∃ rs : List GroupRecord, readMessages bag Topic.isGroup = rs.map GroupRecord.record := by
  have hall : ∀ r ∈ readMessages bag Topic.isGroup, ∃ m : GroupRecord, m.record = r := by
    intro r hr
    rw [readMessages, List.mem_insertionSort, List.mem_filter] at hr
    obtain ⟨topic, msg, time⟩ := r
    cases topic with
    | group t => exact ⟨⟨t, msg, time⟩, rfl⟩
    | _ => exact absurd hr.2 (by simp [Topic.isGroup])
  generalize readMessages bag Topic.isGroup = rs at hall
  induction rs with
  | nil => exact ⟨[], rfl⟩
  | cons r rs ih =>
    obtain ⟨m, rfl⟩ := hall r List.mem_cons_self
    obtain ⟨ms, rfl⟩ := ih fun x hx => hall x (List.mem_cons_of_mem _ hx)
    exact ⟨m :: ms, rfl⟩

/-- **`frame_groups` accepts the grammar of frame groups.** It reads records on the group topics. Of any such records: it
ends without an error iff every maximal run of consecutive records of one bag time holds each of the seven topics once;
then the groups yielded are the records, in order, with their times; and in any case every group yielded is a complete
run. -/
theorem frame_groups_grammar :
    (∀ bag, ∃ rs : List GroupRecord, readMessages bag Topic.isGroup = rs.map GroupRecord.record ∧
      frameGroups bag = groupsFrom none [] (rs.map GroupRecord.record)) ∧
    ∀ rs : List GroupRecord,
      let groups := (groupsFrom none [] (rs.map GroupRecord.record)).1
      let err := (groupsFrom none [] (rs.map GroupRecord.record)).2
      (err = none ↔ ∀ run ∈ keyRuns GroupRecord.time rs, (run.map GroupRecord.topic).Perm GROUP) ∧
      (err = none → groups.flatMap GroupRecord.ofGroup = rs) ∧
      ∀ g ∈ groups, ∃ run ∈ keyRuns GroupRecord.time rs, (run.map GroupRecord.topic).Perm GROUP ∧
        GroupRecord.ofGroup g = run := by
  refine ⟨fun bag => ?_, fun rs => ?_⟩
  · obtain ⟨rs, hrs⟩ := readMessages_groups bag
    exact ⟨rs, hrs, by rw [frameGroups, hrs]⟩
  obtain ⟨hgroups, herr, hback⟩ := GroupRecord.groupsFrom_runs rs
  refine ⟨herr, fun hnone => ?_, fun g hg => ?_⟩
  · -- all runs are complete, so all are yielded
    have hall : (keyRuns GroupRecord.time rs).takeWhile (fun run => GroupRecord.Complete run) =
        keyRuns GroupRecord.time rs := List.takeWhile_eq_self_iff.2 fun run hr => decide_eq_true (herr.1 hnone run hr)
    rw [hgroups, hall, List.flatMap_map]
    calc (keyRuns GroupRecord.time rs).flatMap (fun run => GroupRecord.ofGroup (GroupRecord.yieldedAs run))
        = (keyRuns GroupRecord.time rs).flatMap id := List.flatMap_congr hback
      _ = (keyRuns GroupRecord.time rs).flatten := List.flatMap_id
      _ = rs := keyRuns_flatten rs
  · rw [hgroups] at hg
    obtain ⟨run, hrun, rfl⟩ := List.mem_map.1 hg
    have hmem := (List.takeWhile_sublist _).subset hrun
    have hc : GroupRecord.Complete run := by simpa using List.mem_takeWhile_imp hrun
    exact ⟨run, hmem, hc, hback run hmem⟩

end Agilex.Capture
