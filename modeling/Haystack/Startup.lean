import Haystack.System

/-! What the start of a server does to the backends: the cache servers create the
volumes counting down, the web servers list them in store_info counting up. -/
namespace Haystack

open Calls Cql Java

def StoreInfo.status (table : StoreInfo) (lvid : Int32) : Option Int32 := table.rows.lookup lvid

theorem lookup_cons_ne {j k v : Int32} {rows : List (Int32 × Int32)} (differ : k ≠ j) :
    ((j, v) :: rows).lookup k = rows.lookup k := by
  have unequal : (k == j) = false := beq_false_of_ne differ
  simp only [List.lookup_cons, unequal]

theorem upsert_lookup (lvid status : Int32) (rows : List (Int32 × Int32)) (k : Int32) :
    (upsert lvid status rows).lookup k = if k = lvid then some status else rows.lookup k := by
  induction rows with
  | nil =>
    by_cases same : k = lvid
    · simp [upsert, same]
    · rw [upsert, lookup_cons_ne same, if_neg same]
  | cons row rows ih =>
    obtain ⟨j, v⟩ := row
    simp only [upsert]
    split
    · rename_i here
      subst here
      by_cases same : k = j
      · simp [same]
      · rw [lookup_cons_ne same, lookup_cons_ne same, if_neg same]
    · rename_i differ
      by_cases same : k = j
      · subst same
        simp [differ]
      · rw [lookup_cons_ne same, lookup_cons_ne same, ih]

theorem StoreInfo.status_set (table : StoreInfo) (lvid status k : Int32) :
    (table.set lvid status).status k = if k = lvid then some status else table.status k :=
  upsert_lookup lvid status table.rows k

theorem upsert_same {lvid status : Int32} {rows : List (Int32 × Int32)}
    (there : rows.lookup lvid = some status) : upsert lvid status rows = rows := by
  induction rows with
  | nil => simp at there
  | cons row rows ih =>
    obtain ⟨j, v⟩ := row
    simp only [upsert]
    by_cases same : j = lvid
    · subst same
      simp at there
      simp [there]
    · rw [lookup_cons_ne (Ne.symm same)] at there
      rw [if_neg same, ih there]

theorem StoreInfo.set_same {table : StoreInfo} {lvid status : Int32}
    (there : table.status lvid = some status) : table.set lvid status = table := by
  have rows := upsert_same there
  cases table
  simp only [set, mk.injEq]
  exact rows

theorem StoreInfo.mem_iff_status {table : StoreInfo} {lvid status : Int32} :
    (lvid, status) ∈ table.rows ↔ table.status lvid = some status := by
  obtain ⟨rows, distinct⟩ := table
  simp only [StoreInfo.status]
  induction rows with
  | nil => simp
  | cons row rows ih =>
    obtain ⟨j, v⟩ := row
    simp only [List.map_cons, List.nodup_cons] at distinct
    by_cases same : lvid = j
    · subst same
      have missing : (lvid, status) ∉ rows := fun member =>
        distinct.1 (List.mem_map.mpr ⟨_, member, rfl⟩)
      simp [missing, eq_comm]
    · rw [lookup_cons_ne same, ← ih distinct.2]
      simp [same]

def World.setVolumes (s : World) (table : StoreInfo) : World :=
  { s with directory := { s.directory with storeInfo := some table } }

namespace WebServer

variable {s : World} {table : StoreInfo}

theorem exec_prepare_updateQuery (created : s.directory.storeInfo = some table) :
    exec (.prepare .directory updateQuery) s =
      .ok (s, .update "store_info" [("status", .positional)] [.eq "lvid" .positional]) := by
  rw [exec_prepare ofText_updateQuery]
  exact if_pos (by simp [Statement.table, World.hasTable, created])

theorem exec_statusUpdate (created : s.directory.storeInfo = some table) (i : Int32) :
    exec (.executeBound .directory
      (.update "store_info" [("status", .value (.int 1))] [.eq "lvid" (.value (.int i))])) s =
        .ok (s.setStatus i 1, []) := by
  simp [exec, executeOn, executeDirectory, created]

theorem markWritable_run (created : s.directory.storeInfo = some table) (i : Int32) :
    (markWritable i).run exec s = (s.setStatus i 1, .ok ()) := by
  simp only [markWritable, dirSession, prepare_bind, executeBound_bind]
  rw [Program.run_call_ok exec (exec_prepare_updateQuery created)]
  exact Program.run_call_ok exec (exec_statusUpdate created i)

def directoryWith (s : World) (table : StoreInfo) : World :=
  { s with directory := ⟨true, some table, some (s.directory.photoInfo.getD (fun _ => none))⟩ }

/-- The table lists the volumes 1..n as writable and the others as the old one does;
it is the old one if that lists them so already. -/
structure ListedUpTo (n : Int) (old new : StoreInfo) : Prop where
  status : ∀ k, new.status k = if 1 ≤ k.toInt ∧ k.toInt ≤ n then some 1 else old.status k
  same : (∀ k, 1 ≤ k.toInt → k.toInt ≤ n → old.status k = some 1) → new = old

theorem listedUpTo_zero (table : StoreInfo) : ListedUpTo 0 table table := by
  refine ⟨?_, fun _ => rfl⟩
  intro k
  rw [if_neg (by omega)]

theorem ListedUpTo.next {i : Int32} {old new : StoreInfo}
    (listed : ListedUpTo (i.toInt - 1) old new)
    (positive : 1 ≤ i.toInt) : ListedUpTo i.toInt old (new.set i 1) := by
  constructor
  · intro k
    rw [StoreInfo.status_set, listed.status k]
    by_cases same : k = i
    · subst same
      rw [if_pos rfl, if_pos ⟨positive, Int.le_refl _⟩]
    · have differ : k.toInt ≠ i.toInt := fun h => same (Int32.toInt_inj.mp h)
      rw [if_neg same]
      by_cases inside : 1 ≤ k.toInt ∧ k.toInt ≤ i.toInt
      · rw [if_pos inside, if_pos (by omega)]
      · rw [if_neg inside, if_neg (by omega)]
  · intro writable
    have before := listed.same (fun k lower upper => writable k lower (by omega))
    subst before
    exact StoreInfo.set_same (writable i positive (Int.le_refl _))

section Directory

variable {config : HSConfig}

theorem volumes_run (nonneg : 0 ≤ config.numLogicalVolumes.toInt)
    (below : config.numLogicalVolumes.toInt < 2 ^ 31 - 1)
    (created : s.directory.storeInfo = some table) :
    ∃ new,
      (forInt (fun i => i ≤ config.numLogicalVolumes) (fun i => i + 1) markWritable rounds 1).run
        exec s = (s.setVolumes new, .ok ()) ∧
          ListedUpTo config.numLogicalVolumes.toInt table new := by
  have loop : ∃ t,
      (forInt (fun i => i ≤ config.numLogicalVolumes) (fun i => i + 1) markWritable rounds
      1).run exec s = (t, .ok ()) ∧ ∃ new, t = s.setVolumes new ∧
        ListedUpTo (config.numLogicalVolumes.toInt + 1 - 1) table new := by
    refine forInt_up (P := fun i t => ∃ new, t = s.setVolumes new ∧ ListedUpTo (i - 1) table new)
      below ?_ (by decide) ?_ ?_ ?_
    · rintro i t lower upper ⟨new, rfl, listed⟩
      refine ⟨_, markWritable_run rfl i, new.set i 1, rfl, ?_⟩
      simpa using listed.next lower
    · simpa using nonneg
    · have small : (rounds : Int) = 2 ^ 32 + 1 := rfl
      have one : (1 : Int32).toInt = 1 := rfl
      omega
    · refine ⟨table, ?_, by simpa using listedUpTo_zero table⟩
      rw [World.setVolumes, ← created]
  obtain ⟨t, ran, new, rfl, listed⟩ := loop
  refine ⟨new, ran, ?_⟩
  simpa using listed

theorem createStoreInfoIfNotExist_run (nonneg : 0 ≤ config.numLogicalVolumes.toInt)
    (below : config.numLogicalVolumes.toInt < 2 ^ 31 - 1) (keyspace : s.directory.keyspace = true) :
    ∃ new, (createStoreInfoIfNotExist config).run exec s = (s.setVolumes new, .ok ()) ∧
      ListedUpTo config.numLogicalVolumes.toInt
        (s.directory.storeInfo.getD StoreInfo.empty) new := by
  have created : (dirSession.createTableIfNotExists "store_info").run exec s =
      (s.setVolumes (s.directory.storeInfo.getD StoreInfo.empty), .ok ()) := by
    apply Program.run_call_ok exec
    exact if_pos keyspace
  have there : (s.setVolumes (s.directory.storeInfo.getD StoreInfo.empty)).directory.storeInfo =
    some (s.directory.storeInfo.getD StoreInfo.empty) := rfl
  obtain ⟨new, looped, listed⟩ := volumes_run nonneg below there
  refine ⟨new, ?_, listed⟩
  rw [createStoreInfoIfNotExist, Program.run_bind_ok exec created]
  exact looped

theorem initCassandraDirectory_run (s : World) (nonneg : 0 ≤ config.numLogicalVolumes.toInt)
    (below : config.numLogicalVolumes.toInt < 2 ^ 31 - 1) :
    ∃ new, (initCassandraDirectory config).run exec s = (directoryWith s new, .ok ()) ∧
      ListedUpTo config.numLogicalVolumes.toInt
        (s.directory.storeInfo.getD StoreInfo.empty) new := by
  have keyspace : dirSession.createKeyspaceIfNotExists.run exec s =
    (s.createKeyspace .directory, .ok ()) := rfl
  have used : dirSession.use.run exec (s.createKeyspace .directory) =
    (s.createKeyspace .directory, .ok ()) := rfl
  have created : (s.createKeyspace .directory).directory.keyspace = true := rfl
  obtain ⟨new, volumes, listed⟩ := createStoreInfoIfNotExist_run nonneg below created
  refine ⟨new, ?_, listed⟩
  rw [initCassandraDirectory, Program.run_bind_ok exec keyspace, Program.run_bind_ok exec used,
    Program.run_bind_ok exec volumes]
  rfl

theorem main_run (nonneg : 0 ≤ config.numLogicalVolumes.toInt)
    (below : config.numLogicalVolumes.toInt < 2 ^ 31 - 1) (store : s.store.keyspace = true) :
    ∃ new, (main config).run exec s = (directoryWith s new, .ok ()) ∧
      ListedUpTo config.numLogicalVolumes.toInt
        (s.directory.storeInfo.getD StoreInfo.empty) new := by
  obtain ⟨new, ran, listed⟩ := initCassandraDirectory_run s nonneg below
  refine ⟨new, ?_, listed⟩
  rw [main, Program.run_bind_ok exec ran]
  apply Program.run_call_ok exec
  exact if_pos store

end Directory

end WebServer

namespace CacheServer

variable {s : World} {n : Int32}

def storeWith (s : World) (tables : String → Option (String → Option Bytes)) : World :=
  { s with store := ⟨true, tables⟩ }

/-- The volumes between two counts exist, and every other table is as before. -/
def CreatedBetween (low high : Int) (old new : String → Option (String → Option Bytes)) : Prop :=
  ∀ table, ((∃ k : Int32, low < k.toInt ∧ k.toInt ≤ high ∧ table = lv k) ∧
      new table = some ((old table).getD (fun _ => none))) ∨
    ((¬ ∃ k : Int32, low < k.toInt ∧ k.toInt ≤ high ∧ table = lv k) ∧ new table = old table)

theorem createdBetween_self (high : Int) (old : String → Option (String → Option Bytes)) :
    CreatedBetween high high old old := by
  intro table
  refine .inr ⟨?_, rfl⟩
  rintro ⟨k, above, upTo, -⟩
  omega

theorem CreatedBetween.next {i : Int32} {high : Int}
    {old new : String → Option (String → Option Bytes)}
    (created : CreatedBetween i.toInt high old new) (upper : i.toInt ≤ high) :
    CreatedBetween (i.toInt - 1) high old
      (Function.update new (lv i) (some ((new (lv i)).getD (fun _ => none)))) := by
  intro table
  by_cases same : table = lv i
  · subst same
    refine .inl ⟨⟨i, by omega, upper, rfl⟩, ?_⟩
    rw [Function.update_self]
    rcases created (lv i) with ⟨-, here⟩ | ⟨-, here⟩
    · rw [here, Option.getD_some]
    · rw [here]
  · rw [Function.update_of_ne same]
    rcases created table with ⟨⟨k, above, upTo, named⟩, here⟩ | ⟨outside, here⟩
    · exact .inl ⟨⟨k, by omega, upTo, named⟩, here⟩
    · refine .inr ⟨?_, here⟩
      rintro ⟨k, above, upTo, named⟩
      apply outside
      refine ⟨k, ?_, upTo, named⟩
      have differ : k.toInt ≠ i.toInt := by
        intro h
        cases Int32.toInt_inj.mp h
        exact same named
      omega

theorem initCassandraStores_run (s : World) (nonneg : 0 ≤ n.toInt) :
    ∃ new, (initCassandraStores n).run exec s = (storeWith s new, .ok ()) ∧
      CreatedBetween 0 n.toInt s.store.tables new := by
  have keyspace : session.createKeyspaceIfNotExists.run exec s =
    (storeWith s s.store.tables, .ok ()) := rfl
  have used : session.use.run exec (storeWith s s.store.tables) =
    (storeWith s s.store.tables, .ok ()) := rfl
  have loop : ∃ t, (forInt (fun i => 0 < i) (fun i => i - 1)
      (fun i => createLogicalVolumeIfNotExist ("lv" ++ toString i)) rounds n).run exec
        (storeWith s s.store.tables) = (t, .ok ()) ∧
      ∃ new, t = storeWith s new ∧ CreatedBetween 0 n.toInt s.store.tables new := by
    refine forInt_down (P := fun i t => ∃ new, t = storeWith s new ∧
      CreatedBetween i n.toInt s.store.tables new) ?_ nonneg (Int.le_refl _) ?_ ?_
    · rintro i t positive upper ⟨new, rfl, created⟩
      exact ⟨_, rfl, _, rfl, created.next upper⟩
    · have small : (rounds : Int) = 2 ^ 32 + 1 := rfl
      have bound := n.toInt_lt
      omega
    · exact ⟨_, rfl, createdBetween_self _ _⟩
  obtain ⟨t, ran, new, rfl, created⟩ := loop
  refine ⟨new, ?_, created⟩
  rw [initCassandraStores, Program.run_bind_ok exec keyspace, Program.run_bind_ok exec used]
  exact ran

end CacheServer

def World.status (s : World) (lvid : Int32) : Option Int32 :=
  s.directory.storeInfo.bind (fun table => table.status lvid)

/-- From s to t every row and every recorded status stays, and of the volumes 1..n
exactly the missing ones are added, as writable. -/
structure KeepsRecords (n : Int) (s t : World) : Prop where
  rows : ∀ pid, t.photo pid = s.photo pid
  kept : ∀ k v, s.status k = some v → t.status k = some v
  added : ∀ k, s.status k = none →
    t.status k = if 1 ≤ k.toInt ∧ k.toInt ≤ n then some 1 else none

theorem WebServer.photo_directoryWith (s : World) (table : StoreInfo) (pid : String) :
    (directoryWith s table).photo pid = s.photo pid := by
  unfold World.photo directoryWith
  cases s.directory.photoInfo <;> rfl

theorem World.status_getD (s : World) (k : Int32) :
    (s.directory.storeInfo.getD StoreInfo.empty).status k = s.status k := by
  unfold World.status
  cases s.directory.storeInfo <;> rfl

theorem WebServer.status_initCassandraDirectory {config : HSConfig}
    (nonneg : 0 ≤ config.numLogicalVolumes.toInt)
    (below : config.numLogicalVolumes.toInt < 2 ^ 31 - 1) (s : World) (k : Int32) :
    ((WebServer.initCassandraDirectory config).run exec s).1.status k =
      if 1 ≤ k.toInt ∧ k.toInt ≤ config.numLogicalVolumes.toInt then some 1 else s.status k := by
  obtain ⟨new, ran, listed⟩ := WebServer.initCassandraDirectory_run s nonneg below
  rw [ran, ← World.status_getD s k]
  exact listed.status k

/-- The start of a web server, from any directory: it keeps what is recorded, and a
second start changes nothing, exactly if every volume among 1..N that is already listed
is listed as writable. -/
theorem restart_keeps_iff (config : HSConfig) (s : World)
    (nonneg : 0 ≤ config.numLogicalVolumes.toInt)
    (below : config.numLogicalVolumes.toInt < 2 ^ 31 - 1) :
    (KeepsRecords config.numLogicalVolumes.toInt s
        ((WebServer.initCassandraDirectory config).run exec s).1 ∧
      ((WebServer.initCassandraDirectory config).run exec s).2 = .ok () ∧
      (WebServer.initCassandraDirectory config).run exec
          ((WebServer.initCassandraDirectory config).run exec s).1 =
        (((WebServer.initCassandraDirectory config).run exec s).1, .ok ())) ↔
    ∀ k v, 1 ≤ k.toInt → k.toInt ≤ config.numLogicalVolumes.toInt →
      s.status k = some v → v = 1 := by
  obtain ⟨new, ran, listed⟩ := WebServer.initCassandraDirectory_run s nonneg below
  have status := WebServer.status_initCassandraDirectory nonneg below s
  rw [ran] at status
  obtain ⟨again, ran', listed'⟩ :=
    WebServer.initCassandraDirectory_run (WebServer.directoryWith s new) nonneg below
  have writable : ∀ k : Int32, 1 ≤ k.toInt → k.toInt ≤ config.numLogicalVolumes.toInt →
      new.status k = some 1 := by
    intro k lower upper
    rw [listed.status k, if_pos ⟨lower, upper⟩]
  have stable : WebServer.directoryWith (WebServer.directoryWith s new) again =
      WebServer.directoryWith s new := by
    rw [listed'.same writable]
    rfl
  rw [ran, ran', stable]
  constructor
  · rintro ⟨keeps, -, -⟩ k v lower upper recorded
    have after := keeps.kept k v recorded
    rw [status k, if_pos ⟨lower, upper⟩] at after
    exact (Option.some.inj after).symm
  · intro writableBefore
    refine ⟨⟨WebServer.photo_directoryWith s new, ?_, ?_⟩, rfl, rfl⟩
    · intro k v recorded
      rw [status k]
      split
      · rename_i inside
        rw [writableBefore k v inside.1 inside.2 recorded]
      · exact recorded
    · intro k missing
      rw [status k, missing]

theorem restart_overwrites_status :
    (World.fresh ⟨[(1, 0), (2, 1)], by decide⟩ []).status 1 = some 0 ∧
    (((WebServer.initCassandraDirectory .shipped).run exec
      (World.fresh ⟨[(1, 0), (2, 1)], by decide⟩ [])).1.status 1) = some 1 := by
  rw [WebServer.status_initCassandraDirectory (by decide) (by decide)]
  exact ⟨rfl, rfl⟩

theorem restart_keeps_shipped :
    KeepsRecords 2 .shipped ((WebServer.initCassandraDirectory .shipped).run exec .shipped).1 := by
  refine ((restart_keeps_iff .shipped .shipped (by decide) (by decide)).mpr ?_).1
  intro k v lower upper recorded
  have listed : (k, v) ∈ [((1 : Int32), (1 : Int32)), (2, 1)] :=
    StoreInfo.mem_iff_status.mpr recorded
  rcases List.mem_cons.mp listed with first | rest
  · exact (Prod.mk.inj first).2
  · exact (Prod.mk.inj (List.mem_singleton.mp rest)).2

end Haystack
