import Haystack.Startup

/-! The numbers of the volumes. The web server counts them up to list them in store_info, the
cache server counts them down to create their tables, and an upload computes one of them. -/
namespace Haystack

open Calls Cql Java

def markedVolume : Call → Option Int32
  | .executeBound .directory (.update "store_info" _ [.eq "lvid" (.value (.int i))]) => some i
  | _ => none

def createdTable : Call → Option String
  | .createTableIfNotExists .store table => some table
  | _ => none

structure Counts (low high : Int) (is : List Int32) : Prop where
  once : is.Nodup
  exactly : ∀ k, k ∈ is ↔ low < k.toInt ∧ k.toInt ≤ high

/-- Both loops end and visit exactly the volumes 1..N, each once, and the volume that an
upload proposes is one of them, computed without an overflow. -/
structure NumberingAgrees (config : HSConfig) (s : World) : Prop where
  listed : ∃ is, Counts 0 config.numLogicalVolumes.toInt is ∧ ∃ t log,
    (WebServer.initCassandraDirectory config).run (Program.record exec) (s, []) =
      ((t, log), .ok ()) ∧
      log.filterMap markedVolume = is
  created : ∃ is, Counts 0 config.numLogicalVolumes.toInt is ∧ ∃ t log,
    (CacheServer.initCassandraStores config.numLogicalVolumes).run (Program.record exec) (s, []) =
      ((t, log), .ok ()) ∧ log.filterMap createdTable = is.map lv
  proposed : 1 ≤ config.numLogicalVolumes.toInt → ∀ tmpPid : Int64, 0 ≤ tmpPid.toInt → ∃ k,
    WebServer.proposedLvid tmpPid config.numLogicalVolumes = .ok k ∧
      k.toInt = tmpPid.toInt % config.numLogicalVolumes.toInt + 1 ∧
      0 < k.toInt ∧ k.toInt ≤ config.numLogicalVolumes.toInt

theorem counts_nil {low high : Int} (empty : high ≤ low) : Counts low high [] := by
  refine ⟨List.nodup_nil, ?_⟩
  intro k
  simp only [List.not_mem_nil, false_iff]
  omega

section Counting

variable {i : Int32} {is : List Int32} {low high : Int}

theorem Counts.add (counts : Counts low high is) {low' high' : Int}
    (fresh : ¬ (low < i.toInt ∧ i.toInt ≤ high))
    (range : ∀ k : Int, low' < k ∧ k ≤ high' ↔ (low < k ∧ k ≤ high) ∨ k = i.toInt) :
    Counts low' high' (is ++ [i]) := by
  constructor
  · rw [List.nodup_append_comm, List.singleton_append, List.nodup_cons]
    exact ⟨fun member => fresh ((counts.exactly i).mp member), counts.once⟩
  · intro k
    rw [List.mem_append, List.mem_singleton, counts.exactly, ← Int32.toInt_inj, range]

theorem Counts.up (counts : Counts low (i.toInt - 1) is) (above : low < i.toInt) :
    Counts low i.toInt (is ++ [i]) := by
  apply counts.add
  · omega
  · intro k
    omega

theorem Counts.down (counts : Counts i.toInt high is) (below : i.toInt ≤ high) :
    Counts (i.toInt - 1) high (is ++ [i]) := by
  apply counts.add
  · omega
  · intro k
    omega

end Counting

namespace WebServer

variable {config : HSConfig} {s : World}

theorem markWritable_record (created : s.directory.storeInfo.isSome = true) (i : Int32)
    (log : List Call) : ∃ new, new.filterMap markedVolume = log.filterMap markedVolume ++ [i] ∧
      (markWritable i).run (Program.record exec) (s, log) = ((s.setStatus i 1, new), .ok ()) := by
  obtain ⟨table, there⟩ := Option.isSome_iff_exists.mp created
  refine ⟨log ++ [.prepare .directory updateQuery] ++ [.executeBound .directory
    (.update "store_info" [("status", .value (.int 1))] [.eq "lvid" (.value (.int i))])], ?_, ?_⟩
  · rw [List.append_assoc, List.filterMap_append]
    rfl
  · simp only [markWritable, dirSession, prepare_bind, executeBound_bind]
    rw [Program.run_call_ok _ (Program.record_ok exec (exec_prepare_updateQuery there) log)]
    exact Program.run_call_ok _ (Program.record_ok exec (exec_statusUpdate there i) _)

/-- Before round i the loop has marked the volumes below i. -/
structure MarkedBelow (s : World) (i : Int) (x : World × List Call) : Prop where
  created : x.1.directory.storeInfo.isSome = true
  keyspace : x.1.directory.keyspace = s.directory.keyspace
  marked : Counts 0 (i - 1) (x.2.filterMap markedVolume)

theorem MarkedBelow.next {i : Int32} {x : World × List Call} (marked : MarkedBelow s i.toInt x)
    (positive : 1 ≤ i.toInt) : ∃ y, (markWritable i).run (Program.record exec) x = (y, .ok ()) ∧
      MarkedBelow s (i.toInt + 1) y := by
  obtain ⟨t, log⟩ := x
  obtain ⟨new, added, ran⟩ := markWritable_record marked.created i log
  refine ⟨(t.setStatus i 1, new), ran, ?_, marked.keyspace, ?_⟩
  · simpa [World.setStatus] using marked.created
  · rw [added, Int.add_sub_cancel]
    exact marked.marked.up (by omega)

theorem volumes_record (below : config.numLogicalVolumes.toInt < 2 ^ 31 - 1)
    (created : s.directory.storeInfo.isSome = true) {log : List Call}
    (unmarked : log.filterMap markedVolume = []) : ∃ x,
      (forInt (fun i => i ≤ config.numLogicalVolumes) (fun i => i + 1) markWritable rounds 1).run
        (Program.record exec) (s, log) =
        (x, .ok ()) ∧ x.1.directory.keyspace = s.directory.keyspace ∧
      Counts 0 config.numLogicalVolumes.toInt (x.2.filterMap markedVolume) := by
  have one : (1 : Int32).toInt = 1 := rfl
  by_cases nonneg : 0 ≤ config.numLogicalVolumes.toInt
  · have small : (rounds : Int) = 2 ^ 32 + 1 := rfl
    have enough : config.numLogicalVolumes.toInt + 1 - (1 : Int32).toInt < rounds := by omega
    have start : MarkedBelow s (1 : Int32).toInt (s, log) := by
      refine ⟨created, rfl, ?_⟩
      rw [unmarked]
      exact counts_nil (by omega)
    obtain ⟨x, ran, marked⟩ :=
      forInt_up below (fun i x lower _ marked => marked.next lower) (by decide)
      (by omega) enough start
    exact ⟨x, ran, marked.keyspace, by simpa using marked.marked⟩
  · have fails : decide ((1 : Int32) ≤ config.numLogicalVolumes) = false := by
      rw [decide_eq_false_iff_not, Int32.le_iff_toInt_le]
      omega
    rw [forInt_stops fails]
    refine ⟨(s, log), rfl, rfl, ?_⟩
    rw [unmarked]
    exact counts_nil (by omega)

theorem initCassandraDirectory_record (config : HSConfig) (s : World) : ∃ t log,
    t.directory.storeInfo.isSome = true ∧ t.directory.keyspace = true ∧
      log.filterMap markedVolume = [] ∧
    (initCassandraDirectory config).run (Program.record exec) (s, []) =
      (do forInt (fun i => i ≤ config.numLogicalVolumes) (fun i => i + 1) markWritable rounds 1
          createPhotoInfoIfNotExist).run (Program.record exec) (t, log) :=
  ⟨(s.createKeyspace .directory).createTable .directory "store_info",
    [.createKeyspaceIfNotExists .directory, .use .directory,
      .createTableIfNotExists .directory "store_info"], rfl, rfl, rfl, rfl⟩

theorem volumes_listed (below : config.numLogicalVolumes.toInt < 2 ^ 31 - 1) (s : World) : ∃ x,
    (initCassandraDirectory config).run (Program.record exec) (s, []) = (x, .ok ()) ∧
      Counts 0 config.numLogicalVolumes.toInt (x.2.filterMap markedVolume) := by
  obtain ⟨t, log, created, keyspace, empty, opened⟩ := initCassandraDirectory_record config s
  obtain ⟨⟨u, new⟩, looped, same, counts⟩ := volumes_record below created empty
  have answered : exec (.createTableIfNotExists .directory "photo_info") u =
      .ok (u.createTable .directory "photo_info", ()) := if_pos (same.trans keyspace)
  have last : createPhotoInfoIfNotExist.run (Program.record exec) (u, new) =
      ((u.createTable .directory "photo_info",
        new ++ [.createTableIfNotExists .directory "photo_info"]), .ok ()) :=
    Program.run_call_ok _ (Program.record_ok exec answered new)
  refine ⟨_, (opened.trans (Program.run_bind_ok _ looped)).trans last, ?_⟩
  have unmarked :
      [Call.createTableIfNotExists .directory "photo_info"].filterMap markedVolume = [] := rfl
  rw [List.filterMap_append, unmarked, List.append_nil]
  exact counts

theorem volumes_endless (largest : ¬ config.numLogicalVolumes.toInt < 2 ^ 31 - 1)
    (fuel : Nat) (i : Int32)
    {x : World × List Call} (created : x.1.directory.storeInfo.isSome = true) :
    ((forInt (fun i => i ≤ config.numLogicalVolumes) (fun i => i + 1) markWritable fuel i).run
      (Program.record exec) x).2 = .error .endless := by
  refine forInt_endless (Q := fun x => x.1.directory.storeInfo.isSome = true) ?_ ?_ fuel i created
  · intro j
    have top := j.toInt_lt
    rw [decide_eq_true_eq, Int32.le_iff_toInt_le]
    omega
  · rintro j ⟨t, log⟩ there
    obtain ⟨new, -, ran⟩ := markWritable_record there j log
    exact ⟨_, ran, by simpa [World.setStatus] using there⟩

theorem initCassandraDirectory_endless
    (largest : ¬ config.numLogicalVolumes.toInt < 2 ^ 31 - 1) (s : World) :
    ((initCassandraDirectory config).run (Program.record exec) (s, [])).2 = .error .endless := by
  obtain ⟨t, log, created, -, -, opened⟩ := initCassandraDirectory_record config s
  have started : (t, log).1.directory.storeInfo.isSome = true := created
  rw [opened]
  exact Program.run_bind_error _ (volumes_endless largest rounds 1 started)

end WebServer

namespace CacheServer

structure CreatedAbove (n i : Int) (x : World × List Call) : Prop where
  keyspace : x.1.store.keyspace = true
  created : ∃ is, Counts i n is ∧ x.2.filterMap createdTable = is.map lv

theorem CreatedAbove.next {n : Int} {i : Int32} {x : World × List Call}
    (created : CreatedAbove n i.toInt x) (upper : i.toInt ≤ n) : ∃ y,
      (createLogicalVolumeIfNotExist ("lv" ++ toString i)).run (Program.record exec) x =
        (y, .ok ()) ∧ CreatedAbove n (i.toInt - 1) y := by
  obtain ⟨t, log⟩ := x
  obtain ⟨is, counts, tables⟩ := created.created
  have answered : exec (.createTableIfNotExists .store (lv i)) t =
      .ok (t.createTable .store (lv i), ()) :=
    if_pos created.keyspace
  have ran : (createLogicalVolumeIfNotExist (lv i)).run (Program.record exec) (t, log) =
      ((t.createTable .store (lv i), log ++ [.createTableIfNotExists .store (lv i)]), .ok ()) :=
    Program.run_call_ok _ (Program.record_ok exec answered log)
  refine ⟨_, ran, created.keyspace, is ++ [i], counts.down upper, ?_⟩
  rw [List.filterMap_append, tables, List.map_append]
  rfl

theorem volumes_created (n : Int32) (s : World) : ∃ x,
    (initCassandraStores n).run (Program.record exec) (s, []) = (x, .ok ()) ∧
      ∃ is, Counts 0 n.toInt is ∧ x.2.filterMap createdTable = is.map lv := by
  have opened : (initCassandraStores n).run (Program.record exec) (s, []) =
      (forInt (fun i => 0 < i) (fun i => i - 1)
        (fun i => createLogicalVolumeIfNotExist ("lv" ++ toString i)) rounds n).run
          (Program.record exec)
        (s.createKeyspace .store, [.createKeyspaceIfNotExists .store, .use .store]) := rfl
  rw [opened]
  by_cases nonneg : 0 ≤ n.toInt
  · have small : (rounds : Int) = 2 ^ 32 + 1 := rfl
    have bound := n.toInt_lt
    have enough : n.toInt < rounds := by omega
    have start : CreatedAbove n.toInt n.toInt
        (s.createKeyspace .store, [.createKeyspaceIfNotExists .store, .use .store]) :=
      ⟨rfl, [], counts_nil (Int.le_refl _), rfl⟩
    obtain ⟨x, ran, created⟩ :=
      forInt_down (fun i x _ upper created => CreatedAbove.next created upper)
      nonneg (Int.le_refl _) enough start
    exact ⟨x, ran, created.created⟩
  · have fails : decide ((0 : Int32) < n) = false := by
      rw [decide_eq_false_iff_not, Int32.lt_iff_toInt_lt]
      change ¬ 0 < n.toInt
      omega
    rw [forInt_stops fails]
    exact ⟨_, rfl, [], counts_nil (by omega), rfl⟩

end CacheServer

/-- The numbering agrees exactly if the number of volumes is not the largest int. -/
theorem numbering_agrees_iff (config : HSConfig) (s : World) :
    NumberingAgrees config s ↔ config.numLogicalVolumes.toInt < 2 ^ 31 - 1 := by
  constructor
  · intro agrees
    by_contra largest
    obtain ⟨-, -, t, log, ran, -⟩ := agrees.listed
    have endless := WebServer.initCassandraDirectory_endless largest s
    rw [ran] at endless
    cases endless
  · intro below
    obtain ⟨⟨t, log⟩, ran, counts⟩ := WebServer.volumes_listed below s
    obtain ⟨⟨u, log'⟩, ran', is, counts', tables⟩ :=
      CacheServer.volumes_created config.numLogicalVolumes s
    refine ⟨⟨_, counts, t, log, ran, rfl⟩, ⟨is, counts', u, log', ran', tables⟩, ?_⟩
    intro positive tmpPid nonneg
    obtain ⟨k, proposed, value, lower, upper⟩ := WebServer.proposedLvid_range nonneg positive
    exact ⟨k, proposed, value, by omega, upper⟩

def HSConfig.largest : HSConfig := { HSConfig.shipped with numLogicalVolumes := 2147483647 }

theorem largest_numbering_endless :
    ¬ NumberingAgrees .largest .shipped ∧
    ∀ fuel, ((forInt (fun i => i ≤ HSConfig.largest.numLogicalVolumes) (fun i => i + 1)
      WebServer.markWritable fuel 1).run (Program.record exec) (World.shipped, [])).2 =
        .error .endless := by
  have largest : ¬ HSConfig.largest.numLogicalVolumes.toInt < 2 ^ 31 - 1 := by decide
  have created : (World.shipped, ([] : List Call)).1.directory.storeInfo.isSome = true := rfl
  refine ⟨?_, fun fuel => WebServer.volumes_endless largest fuel 1 created⟩
  intro agrees
  obtain ⟨-, -, t, log, ran, -⟩ := agrees.listed
  have endless := WebServer.initCassandraDirectory_endless largest .shipped
  rw [ran] at endless
  cases endless

end Haystack
