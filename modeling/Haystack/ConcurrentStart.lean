import Haystack.Deployment
import Haystack.Operation
import Haystack.Calls.Endings

/-! Servers started at the same time. The scripts start cache servers and web servers
without waiting for one another, so their set-up statements interleave; what they leave
behind depends on which servers were started and not on the order. -/
namespace Haystack

open Calls Cql Java

inductive Start where
  | web (config : HSConfig)
  | cache (numLogicalVolumes : Int32)

namespace Start

def program : Start → Handler Unit
  | web config => WebServer.main config
  | cache numLogicalVolumes => CacheServer.initCassandraStores numLogicalVolumes

def session : Start → Session
  | web _ => .directory
  | cache _ => .store

def Lists : Start → Int32 → Prop
  | web config, k => 1 ≤ k.toInt ∧ k.toInt ≤ config.numLogicalVolumes.toInt
  | cache _, _ => False

def Creates : Start → Session → String → Prop
  | web _, .directory, name => name = "store_info" ∨ name = "photo_info"
  | cache n, .store, name => ∃ k : Int32, 1 ≤ k.toInt ∧ k.toInt ≤ n.toInt ∧ name = lv k
  | _, _, _ => False

end Start

section Calls

variable {s : World}

theorem World.hasKeyspace_createKeyspace (s : World) (session other : Session) :
    (s.createKeyspace session).hasKeyspace other = true ↔
      s.hasKeyspace other = true ∨ other = session := by
  cases session <;> cases other <;> simp [World.createKeyspace, World.hasKeyspace]

theorem World.hasTable_createKeyspace (s : World) (session other : Session) (name : String) :
    (s.createKeyspace session).hasTable other name = s.hasTable other name := by
  cases session <;> unfold World.hasTable <;> split <;> rfl

theorem World.hasKeyspace_createTable (s : World) (session other : Session) (name : String) :
    (s.createTable session name).hasKeyspace other = s.hasKeyspace other := by
  unfold World.createTable
  split <;> cases other <;> rfl

theorem World.hasTable_createTable {session : Session} {name : String} (s : World)
    (known : session = .directory → name = "store_info" ∨ name = "photo_info") (other : Session)
    (place : String) : (s.createTable session name).hasTable other place = true ↔
      s.hasTable other place = true ∨ (other = session ∧ place = name) := by
  cases session with
  | directory =>
    rcases known rfl with rfl | rfl
    · unfold World.hasTable
      split <;> simp_all [World.createTable]
    · unfold World.hasTable
      split <;> simp_all [World.createTable]
  | store =>
    cases other with
    | directory =>
      unfold World.hasTable
      split <;> simp_all [World.createTable]
    | store =>
      by_cases same : place = name
      · subst same
        simp [World.hasTable, World.createTable]
      · simp [World.hasTable, World.createTable, same]

theorem World.photo_createTable (s : World) (session : Session) (name pid : String) :
    (s.createTable session name).photo pid = s.photo pid := by
  unfold World.createTable
  split
  · rfl
  · unfold World.photo
    cases s.directory.photoInfo <;> rfl
  · rfl
  · rfl

theorem World.image_createTable (s : World) (session : Session) (name table pid : String) :
    (s.createTable session name).image table pid = s.image table pid := by
  unfold World.createTable
  split
  · rfl
  · rfl
  · rfl
  · by_cases same : table = name
    · subst same
      cases there : s.store.tables table <;> simp [World.image, there]
    · simp [World.image, same]

theorem World.status_createTable (s : World) (session : Session) (name : String) (k : Int32) :
    (s.createTable session name).status k = s.status k := by
  unfold World.createTable
  split
  · unfold World.status
    cases s.directory.storeInfo <;> rfl
  · rfl
  · rfl
  · rfl

theorem World.status_setStatus (listed : s.hasTable .directory "store_info" = true)
    (k v j : Int32) :
    (s.setStatus k v).status j = if j = k then some v else s.status j := by
  obtain ⟨table, found⟩ := Option.isSome_iff_exists.mp listed
  simp only [World.status, World.setStatus, found, Option.map_some, Option.bind_some]
  exact StoreInfo.status_set table k v j

theorem World.hasTable_setStatus (s : World) (k v : Int32) (session : Session) (name : String) :
    (s.setStatus k v).hasTable session name = s.hasTable session name := by
  unfold World.hasTable
  split
  · simp [World.setStatus]
  · rfl
  · rfl
  · rfl

end Calls

/-- What servers that are being started may have made of the backends so far. -/
structure Between (starts : List Start) (s t : World) : Prop where
  redis : t.redis = s.redis
  imageCache : t.imageCache = s.imageCache
  rows : ∀ pid, t.photo pid = s.photo pid
  images : ∀ table pid, t.image table pid = s.image table pid
  status : ∀ k, t.status k = s.status k ∨ (t.status k = some 1 ∧ ∃ x ∈ starts, x.Lists k)
  tables : ∀ session name, t.hasTable session name = true →
    s.hasTable session name = true ∨ ∃ x ∈ starts, x.Creates session name
  keyspaces : ∀ session, t.hasKeyspace session = true →
    s.hasKeyspace session = true ∨ ∃ x ∈ starts, x.session = session

structure SetUp (s t : World) : Prop where
  status : ∀ k, s.status k = some 1 → t.status k = some 1
  tables : ∀ session name, s.hasTable session name = true → t.hasTable session name = true
  keyspaces : ∀ session, s.hasKeyspace session = true → t.hasKeyspace session = true

theorem SetUp.refl (s : World) : SetUp s s :=
  ⟨fun _ h => h, fun _ _ h => h, fun _ h => h⟩

theorem SetUp.trans {s t u : World} (first : SetUp s t) (second : SetUp t u) : SetUp s u :=
  ⟨fun k h => second.status k (first.status k h),
    fun session name h => second.tables session name (first.tables session name h),
    fun session h => second.keyspaces session (first.keyspaces session h)⟩

def starting (starts : List Start) (s : World) : Discipline World :=
  .shared (fun t => Between starts s t ∧ SetUp s t) SetUp SetUp.refl SetUp.trans

section Steps

variable {starts : List Start} {s t : World} {x : Start}

theorem createKeyspace_starting (member : x ∈ starts) (between : Between starts s t ∧ SetUp s t) :
    (starting starts s).Keeps t (t.createKeyspace x.session) := by
  have step : SetUp t (t.createKeyspace x.session) := by
    refine ⟨?_, ?_, ?_⟩
    · intro k listed
      cases x <;> exact listed
    · intro session name there
      rw [World.hasTable_createKeyspace]
      exact there
    · intro session there
      exact (World.hasKeyspace_createKeyspace t _ session).mpr (.inl there)
  obtain ⟨⟨redis, imageCache, rows, images, status, tables, keyspaces⟩, setUp⟩ := between
  refine ⟨⟨⟨?_, ?_, ?_, ?_, ?_, ?_, ?_⟩, setUp.trans step⟩, step⟩
  · cases x <;> exact redis
  · cases x <;> exact imageCache
  · cases x <;> exact rows
  · cases x <;> exact images
  · cases x <;> exact status
  · intro session name there
    rw [World.hasTable_createKeyspace] at there
    exact tables session name there
  · intro session there
    rcases (World.hasKeyspace_createKeyspace t _ session).mp there with before | same
    · exact keyspaces session before
    · exact .inr ⟨x, member, same.symm⟩

theorem createTable_starting {session : Session} {name : String} (member : x ∈ starts)
    (creates : x.Creates session name) (between : Between starts s t ∧ SetUp s t) :
    (starting starts s).Keeps t (t.createTable session name) := by
  have known : session = .directory → name = "store_info" ∨ name = "photo_info" := by
    rintro rfl
    cases x with
    | web config => exact creates
    | cache n => exact creates.elim
  have step : SetUp t (t.createTable session name) := by
    refine ⟨?_, ?_, ?_⟩
    · intro k listed
      rw [World.status_createTable]
      exact listed
    · intro other place there
      exact (World.hasTable_createTable t known other place).mpr (.inl there)
    · intro other there
      rw [World.hasKeyspace_createTable]
      exact there
  obtain ⟨⟨redis, imageCache, rows, images, status, tables, keyspaces⟩, setUp⟩ := between
  refine ⟨⟨⟨?_, ?_, ?_, ?_, ?_, ?_, ?_⟩, setUp.trans step⟩, step⟩
  · unfold World.createTable
    split <;> exact redis
  · unfold World.createTable
    split <;> exact imageCache
  · intro pid
    rw [World.photo_createTable]
    exact rows pid
  · intro table pid
    rw [World.image_createTable]
    exact images table pid
  · intro k
    rw [World.status_createTable]
    exact status k
  · intro other place there
    rcases (World.hasTable_createTable t known other place).mp there with before | ⟨rfl, rfl⟩
    · exact tables other place before
    · exact .inr ⟨x, member, creates⟩
  · intro other there
    rw [World.hasKeyspace_createTable] at there
    exact keyspaces other there

theorem setStatus_starting {k : Int32} (member : x ∈ starts) (lists : x.Lists k)
    (listed : t.hasTable .directory "store_info" = true)
    (between : Between starts s t ∧ SetUp s t) :
    (starting starts s).Keeps t (t.setStatus k 1) := by
  have changed := World.status_setStatus listed k 1
  have step : SetUp t (t.setStatus k 1) := by
    refine ⟨?_, ?_, ?_⟩
    · intro j writable
      rw [changed]
      split
      · rfl
      · exact writable
    · intro session name there
      rw [World.hasTable_setStatus]
      exact there
    · intro session there
      cases session <;> exact there
  obtain ⟨⟨redis, imageCache, rows, images, status, tables, keyspaces⟩, setUp⟩ := between
  refine ⟨⟨⟨redis, imageCache, rows, images, ?_, ?_, ?_⟩, setUp.trans step⟩, step⟩
  · intro j
    rw [changed]
    split
    · rename_i same
      exact .inr ⟨rfl, x, member, same ▸ lists⟩
    · exact status j
  · intro session name there
    rw [World.hasTable_setStatus] at there
    exact tables session name there
  · intro session there
    apply keyspaces session
    cases session <;> exact there

end Steps

structure Start.Done (x : Start) (u : World) : Prop where
  status : ∀ k, x.Lists k → u.status k = some 1
  tables : ∀ session name, x.Creates session name → u.hasTable session name = true
  keyspace : u.hasKeyspace x.session = true

theorem Start.Done.later {x : Start} {t u : World} (finished : x.Done t)
    (setUp : SetUp t u) : x.Done u :=
  ⟨fun k lists => setUp.status k (finished.status k lists),
    fun session name creates => setUp.tables session name (finished.tables session name creates),
    setUp.keyspaces _ finished.keyspace⟩

section Programs

variable {starts : List Start} {s t : World} {config : HSConfig}

theorem storeInfo_of_hasTable {u : World} (listed : u.hasTable .directory "store_info" = true) :
    ∃ table, u.directory.storeInfo = some table :=
  Option.isSome_iff_exists.mp listed

theorem markWritable_starting {i : Int32} (member : .web config ∈ starts)
    (lists : (Start.web config).Lists i) (listed : t.hasTable .directory "store_info" = true) :
    (WebServer.markWritable i).Holds (starting starts s) exec
      (fun x u => x = .ok () ∧ u.status i = some 1) t := by
  simp only [WebServer.markWritable, WebServer.dirSession, prepare_bind, executeBound_bind]
  apply Program.holds_read
  intro u moved _
  obtain ⟨table, created⟩ := storeInfo_of_hasTable (moved.tables _ _ listed)
  refine ⟨_, WebServer.exec_prepare_updateQuery created, ?_⟩
  apply Program.holds_call
  intro v moved' between
  have there := (moved.trans moved').tables _ _ listed
  obtain ⟨table', created'⟩ := storeInfo_of_hasTable there
  refine ⟨_, [], WebServer.exec_statusUpdate created' i,
    setStatus_starting member lists there between, ?_⟩
  intro w moved'' _
  refine ⟨rfl, moved''.status i ?_⟩
  rw [World.status_setStatus there, if_pos rfl]

theorem createStoreInfo_starting (member : .web config ∈ starts)
    (below : config.numLogicalVolumes.toInt < 2 ^ 31 - 1)
    (keyspace : t.hasKeyspace .directory = true) :
    (WebServer.createStoreInfoIfNotExist config).Holds (starting starts s) exec
      (fun x u => x = .ok () ∧ u.hasTable .directory "store_info" = true ∧
        ∀ k, (Start.web config).Lists k → u.status k = some 1) t := by
  apply Program.holds_call
  intro u moved between
  have made : (u.createTable .directory "store_info").hasTable .directory "store_info" = true :=
    (World.hasTable_createTable u (fun _ => .inl rfl) _ _).mpr (.inr ⟨rfl, rfl⟩)
  refine ⟨_, (), if_pos (moved.keyspaces _ keyspace),
    createTable_starting member (Or.inl rfl : (Start.web config).Creates .directory _) between, ?_⟩
  -- Before round i the table is there and lists all volumes below i.
  refine forInt_holds (fun i w => 1 ≤ i.toInt ∧ w.hasTable .directory "store_info" = true ∧
      ∀ k : Int32, 1 ≤ k.toInt → k.toInt < i.toInt → w.status k = some 1)
    (fun i => (config.numLogicalVolumes.toInt + 1 - i.toInt).toNat) ?_ ?_ (loop_enough below) ?_
  · rintro i w more ⟨lower, there, sofar⟩
    have upper : i.toInt ≤ config.numLogicalVolumes.toInt := by
      simpa [Int32.le_iff_toInt_le] using more
    have counted : (i + 1).toInt = i.toInt + 1 := succ_toInt (by omega) (by omega)
    refine ⟨by omega,
      ((markWritable_starting member ⟨lower, upper⟩ there).since (fun moved => moved)
      (SetUp.refl w)).weaken ?_⟩
    rintro x v _ ⟨⟨rfl, marked⟩, setUp⟩
    refine ⟨by omega, setUp.tables _ _ there, ?_⟩
    intro k positive earlier
    by_cases same : k = i
    · exact same ▸ marked
    · have differ : k.toInt ≠ i.toInt := fun h => same (Int32.toInt_inj.mp h)
      exact setUp.status k (sofar k positive (by omega))
  · rintro i w ended ⟨-, there, sofar⟩ v setUp _
    have past : ¬ i.toInt ≤ config.numLogicalVolumes.toInt := by
      simpa [Int32.le_iff_toInt_le] using ended
    refine ⟨rfl, setUp.tables _ _ there, ?_⟩
    rintro k ⟨lower, upper⟩
    exact setUp.status k (sofar k lower (by omega))
  · refine ⟨by decide, made, ?_⟩
    intro k lower upper
    have one : (1 : Int32).toInt = 1 := rfl
    omega

theorem initCassandraDirectory_starting (member : .web config ∈ starts)
    (below : config.numLogicalVolumes.toInt < 2 ^ 31 - 1) :
    (WebServer.initCassandraDirectory config).Holds (starting starts s) exec
      (fun x u => x = .ok () ∧ (Start.web config).Done u) t := by
  apply Program.holds_call
  intro u _ between
  have keyspace : (u.createKeyspace .directory).hasKeyspace .directory = true :=
    (World.hasKeyspace_createKeyspace u _ _).mpr (.inr rfl)
  refine ⟨_, (), rfl, createKeyspace_starting member between, ?_⟩
  apply Program.holds_read
  intro v moved _
  refine ⟨(), if_pos (moved.keyspaces _ keyspace), ?_⟩
  change (WebServer.createStoreInfoIfNotExist config >>=
    fun _ => WebServer.createPhotoInfoIfNotExist).Holds _ _ _ _
  apply Program.holds_bind
  apply ((createStoreInfo_starting member below (moved.keyspaces _ keyspace)).since
    (fun moved => moved)
    moved).weaken
  rintro x w _ ⟨⟨rfl, listed, status⟩, setUp⟩
  apply Program.holds_call
  intro w' moved' between'
  have made : (w'.createTable .directory "photo_info").hasTable .directory "photo_info" = true :=
    (World.hasTable_createTable w' (fun _ => .inr rfl) _ _).mpr (.inr ⟨rfl, rfl⟩)
  have creates : (Start.web config).Creates .directory "photo_info" := Or.inr rfl
  have keeps := createTable_starting member creates between'
  refine ⟨_, (), if_pos ((setUp.trans moved').keyspaces _ keyspace), keeps, ?_⟩
  intro w'' moved'' _
  refine ⟨rfl, ?_, ?_, ?_⟩
  · exact fun k lists => (moved'.trans (keeps.2.trans moved'')).status k (status k lists)
  · rintro (_ | _) name creates
    · rcases creates with rfl | rfl
      · exact (moved'.trans (keeps.2.trans moved'')).tables _ _ listed
      · exact moved''.tables _ _ made
    · exact creates.elim
  · exact (setUp.trans (moved'.trans (keeps.2.trans moved''))).keyspaces _ keyspace

theorem main_starting (member : .web config ∈ starts)
    (below : config.numLogicalVolumes.toInt < 2 ^ 31 - 1) :
    (WebServer.main config).Holds (starting starts s) exec
      (fun _ u => (Start.web config).Done u) t := by
  apply Program.holds_bind
  apply (initCassandraDirectory_starting member below).weaken
  rintro x u _ ⟨rfl, finished⟩
  intro v moved between
  by_cases keyspace : v.hasKeyspace .store = true
  · have answer : exec (.use .store) v = .ok (v, ()) := if_pos keyspace
    rw [WebServer.storeSession, answer]
    exact ⟨⟨between, SetUp.refl v⟩, fun w moved' _ => finished.later (moved.trans moved')⟩
  · have answer : exec (.use .store) v = .error .invalidQuery := if_neg keyspace
    rw [WebServer.storeSession, answer]
    exact fun w moved' _ => finished.later (moved.trans moved')

theorem initCassandraStores_starting {n : Int32} (member : .cache n ∈ starts) :
    (CacheServer.initCassandraStores n).Holds (starting starts s) exec
      (fun x u => x = .ok () ∧ (Start.cache n).Done u) t := by
  apply Program.holds_call
  intro u _ between
  have keyspace : (u.createKeyspace .store).hasKeyspace .store = true :=
    (World.hasKeyspace_createKeyspace u _ _).mpr (.inr rfl)
  refine ⟨_, (), rfl, createKeyspace_starting member between, ?_⟩
  apply Program.holds_read
  intro v moved _
  refine ⟨(), if_pos (moved.keyspaces _ keyspace), ?_⟩
  -- Before round i, counting down, the tables above i are there.
  refine forInt_holds (fun i w => i.toInt ≤ n.toInt ∧ w.hasKeyspace .store = true ∧
      ∀ k : Int32, i.toInt < k.toInt → k.toInt ≤ n.toInt → w.hasTable .store (lv k) = true)
    (fun i => i.toInt.toNat) ?_ ?_ (loop_down_enough n) ?_
  · rintro i w more ⟨upper, there, sofar⟩
    have positive : 0 < i.toInt := by simpa [Int32.lt_iff_toInt_lt] using more
    have counted : (i - 1).toInt = i.toInt - 1 := pred_toInt positive
    refine ⟨by omega, ?_⟩
    apply Program.holds_call
    intro w' moved' between'
    have creates : (Start.cache n).Creates .store (lv i) := ⟨i, positive, upper, rfl⟩
    have keeps := createTable_starting member creates between'
    have made : (w'.createTable .store (lv i)).hasTable .store (lv i) = true :=
      (World.hasTable_createTable w' (fun other => by cases other) _ _).mpr (.inr ⟨rfl, rfl⟩)
    refine ⟨_, (), if_pos (moved'.keyspaces _ there), keeps, ?_⟩
    intro w'' moved'' _
    have onward := moved'.trans (keeps.2.trans moved'')
    refine ⟨by omega, onward.keyspaces _ there, ?_⟩
    intro k above upTo
    by_cases same : k = i
    · subst same
      exact moved''.tables _ _ made
    · have differ : k.toInt ≠ i.toInt := fun h => same (Int32.toInt_inj.mp h)
      exact onward.tables _ _ (sofar k (by omega) upTo)
  · rintro i w ended ⟨-, there, sofar⟩ w' moved' _
    have past : ¬ 0 < i.toInt := by simpa [Int32.lt_iff_toInt_lt] using ended
    refine ⟨rfl, fun k lists => lists.elim, ?_, moved'.keyspaces _ there⟩
    rintro (_ | _) name creates
    · exact creates.elim
    · obtain ⟨k, lower, upper, rfl⟩ := creates
      exact moved'.tables _ _ (sofar k (by omega) upper)
  · exact ⟨Int.le_refl _, moved.keyspaces _ keyspace, fun k above upTo => by omega⟩

end Programs

structure Started (starts : List Start) (s t : World) : Prop where
  redis : t.redis = s.redis
  imageCache : t.imageCache = s.imageCache
  rows : ∀ pid, t.photo pid = s.photo pid
  images : ∀ table pid, t.image table pid = s.image table pid
  listed : ∀ k x, x ∈ starts → x.Lists k → t.status k = some 1
  status : ∀ k, (∀ x ∈ starts, ¬ x.Lists k) → t.status k = s.status k
  tables : ∀ session name, t.hasTable session name = true ↔
    s.hasTable session name = true ∨ ∃ x ∈ starts, x.Creates session name
  keyspaces : ∀ session, t.hasKeyspace session = true ↔
    s.hasKeyspace session = true ∨ ∃ x ∈ starts, x.session = session

theorem started_of_done {starts : List Start} {s t : World} (between : Between starts s t)
    (setUp : SetUp s t) (finished : ∀ x ∈ starts, x.Done t) : Started starts s t := by
  refine ⟨between.redis, between.imageCache, between.rows, between.images, ?_, ?_, ?_, ?_⟩
  · exact fun k x member lists => (finished x member).status k lists
  · intro k unlisted
    rcases between.status k with same | ⟨-, x, member, lists⟩
    · exact same
    · exact absurd lists (unlisted x member)
  · intro session name
    refine ⟨between.tables session name, ?_⟩
    rintro (before | ⟨x, member, creates⟩)
    · exact setUp.tables session name before
    · exact (finished x member).tables session name creates
  · intro session
    refine ⟨between.keyspaces session, ?_⟩
    rintro (before | ⟨x, member, rfl⟩)
    · exact setUp.keyspaces session before
    · exact (finished x member).keyspace

/-- How a start ends in the state that its last call leaves: a web server throws if there is no
store, which no cache server has created then. -/
def Start.Ends (u : World) : Start → Except Exception Unit → Prop
  | web _, r => r = if u.hasKeyspace .store then .ok () else .error .invalidQuery
  | cache _, r => r = .ok ()

section Endings

variable {starts : List Start} {s t : World} {x : Start}

theorem main_ends {config : HSConfig} (member : .web config ∈ starts)
    (below : config.numLogicalVolumes.toInt < 2 ^ 31 - 1)
    (between : Between starts s t ∧ SetUp s t) :
    (WebServer.main config).EndsIn (starting starts s) exec
      (fun u r => (Start.web config).Ends u r) t := by
  refine Program.endsIn_bind between ((initCassandraDirectory_starting member below).weaken ?_)
  rintro _ u _ ⟨rfl, -⟩
  refine ⟨(), rfl, ?_⟩
  intro v _ _
  by_cases keyspace : v.hasKeyspace .store = true
  · have answer : exec (.use .store) v = .ok (v, ()) := if_pos keyspace
    rw [WebServer.storeSession, answer]
    exact (if_pos keyspace).symm
  · have answer : exec (.use .store) v = .error .invalidQuery := if_neg keyspace
    rw [WebServer.storeSession, answer]
    exact (if_neg keyspace).symm

theorem program_starting (member : x ∈ starts)
    (below : ∀ config, x = .web config → config.numLogicalVolumes.toInt < 2 ^ 31 - 1) :
    x.program.Holds (starting starts s) exec (fun _ u => x.Done u) t := by
  cases x with
  | web config => exact main_starting member (below config rfl)
  | cache n => exact (initCassandraStores_starting member).weaken (fun _ _ _ given => given.2)

theorem program_ends (member : x ∈ starts)
    (below : ∀ config, x = .web config → config.numLogicalVolumes.toInt < 2 ^ 31 - 1)
    (between : Between starts s t ∧ SetUp s t) :
    x.program.EndsIn (starting starts s) exec (fun u r => x.Ends u r) t := by
  cases x with
  | web config => exact main_ends member (below config rfl) between
  | cache n =>
    refine Program.Holds.endsIn ?_ between
    exact (initCassandraStores_starting member).weaken (fun _ _ _ given => given.1)

end Endings

abbrev Starting := Pool Start Answer World Exception Unit

theorem starting_good {s : World} {es before after : List (Event Start Exception)} {m : Starting}
    (below : ∀ config, .web config ∈ started es → config.numLogicalVolumes.toInt < 2 ^ 31 - 1)
    (split : es = before ++ after)
    (run : (⟨s, []⟩ : Starting).runs exec Start.program before = some m) :
    m.Good (starting (started es) s) exec (fun i x _ u => Pool.Uncut i es → x.Done u) := by
  have initial : Between (started es) s s ∧ SetUp s s :=
    ⟨⟨rfl, rfl, fun _ => rfl, fun _ _ => rfl, fun _ => .inl rfl, fun _ _ there => .inl there,
      fun _ there => .inl there⟩, SetUp.refl s⟩
  have empty : (⟨s, []⟩ : Starting).Good (starting (started es) s) exec
      (fun i x _ u => Pool.Uncut i es → x.Done u) := .empty _ (fun moved => moved) initial
  refine (empty.runs_cut ?_ ?_ run).1
  · intro i x u begun _ _ _
    have member : x ∈ started es := mem_started.mpr (split ▸ List.mem_append_left after begun)
    refine (program_starting member ?_).weaken (fun _ _ _ given _ => given)
    rintro config rfl
    exact below config member
  · intro i applied e cut _ _ uncut
    exact (uncut applied e (split ▸ List.mem_append_left after cut)).elim

/-- Starts of any servers with any numbers of volumes, in any interleaving of their calls and
cut off anywhere: once each of them has also been carried through, the backends hold what the
set of starts says, and nothing else that was there before has changed. A start that is carried
through throws only if it is that of a web server which finds no store when it ends. -/
theorem starts_converge {s : World} {es : List (Event Start Exception)} {q : Starting}
    (run : (⟨s, []⟩ : Starting).runs exec Start.program es = some q)
    (below : ∀ config, .web config ∈ started es → config.numLogicalVolumes.toInt < 2 ^ 31 - 1)
    (carried : ∀ x ∈ started es, ∃ (i : Nat) (thread : Thread Start Answer Exception Unit),
      q.threads[i]? = some thread ∧ thread.request = x ∧ Pool.Uncut i es ∧
        thread.rest.running = false) :
    Started (started es) s q.state ∧
      ∀ (i : Nat) (thread : Thread Start Answer Exception Unit) r, q.threads[i]? = some thread →
        Pool.Uncut i es → thread.rest.outcome = some r →
        ∃ m, (⟨s, []⟩ : Starting).Moment exec Start.program es i m ∧
          m.threads[i]? = some thread ∧ thread.request.Ends m.state r := by
  have good := starting_good below (List.append_nil es).symm run
  constructor
  · refine started_of_done good.invariant.1 good.invariant.2 ?_
    intro x member
    obtain ⟨i, thread, found, rfl, uncut, idle⟩ := carried x member
    cases rest : thread.rest with
    | done a => exact good.outcome found (by rw [rest]; rfl) uncut
    | throw e => exact good.outcome found (by rw [rest]; rfl) uncut
    | call c next => simp [rest, Program.running] at idle
  · intro i thread r found uncut outcome
    have listed : thread.request ∈ started es := by
      have member : thread.request ∈ q.threads.map Thread.request :=
        List.mem_map_of_mem (List.mem_of_getElem? found)
      rw [Pool.runs_requests exec _ run] at member
      simpa using member
    have last := Pool.endsIn_of_thread (d := starting (started es) s) run (Nat.zero_le i) ?_ ?_
      found (.inr uncut) (fun u between => program_ends listed ?_ between)
    · obtain ⟨m, moment, there, ends, -⟩ := last
      exact ⟨m, moment, there, ends.outcome outcome⟩
    · rintro n ⟨before, after, split, reached⟩
      exact (starting_good below split reached).invariant
    · rintro n e n' ⟨before, after, split, reached⟩ member taken
      refine ((starting_good below split reached).next taken ?_ ?_).2
      · rintro x rfl
        have known : x ∈ started es := mem_started.mpr member
        refine (program_starting known ?_).weaken (fun _ _ _ given _ => given)
        rintro config rfl
        exact below config known
      · rintro j applied e rfl _ _ uncut
        exact (uncut applied e member).elim
    · intro config same
      exact below config (same ▸ listed)

/-- With nothing there yet a web server and a cache server are started at the same time, and
the web server is killed halfway and started again. -/
def startsOverlapping : List (Event Start Exception) :=
  [.start (.web .shipped), .start (.cache 2), .step 0, .step 1, .step 0, .step 1, .step 0, .step 0,
    .abort 0 true .unavailable, .step 1, .start (.web .shipped), .step 2, .step 2, .step 2, .step 2,
    .step 2, .step 2, .step 1, .step 2, .step 2, .step 2]

theorem starts_converge_overlapping : ∃ q : Starting,
    (⟨.blank, []⟩ : Starting).runs exec Start.program startsOverlapping = some q ∧
    Started [.web .shipped, .cache 2, .web .shipped] .blank q.state ∧
    ∃ m, (⟨.blank, []⟩ : Starting).Moment exec Start.program startsOverlapping 2 m ∧
      (Start.web .shipped).Ends m.state (.ok ()) := by
  have evaluated : ((⟨.blank, []⟩ : Starting).runs exec Start.program startsOverlapping).map
      (fun q => q.threads.map (fun t => t.rest.outcome)) =
        some [some (.error .unavailable), some (.ok ()), some (.ok ())] := by
    decide +kernel
  obtain ⟨q, run, ended⟩ := Option.map_eq_some_iff.mp evaluated
  have requests := Pool.runs_requests exec Start.program run
  obtain ⟨first, second, third, threads⟩ : ∃ first second third, q.threads =
      [first, second, third] :=
    List.length_eq_three.mp (by simpa using congrArg List.length ended)
  simp only [threads, List.map_cons, List.map_nil, List.cons.injEq, startsOverlapping, started,
    List.nil_append, and_true] at ended requests
  obtain ⟨-, second_ended, third_ended⟩ := ended
  obtain ⟨-, second_start, third_start⟩ := requests
  have idle : ∀ {t : Thread Start Answer Exception Unit}, t.rest.outcome = some (.ok ()) →
      t.rest.running = false := by
    intro t outcome
    cases rest : t.rest with
    | done a => rfl
    | throw e => rfl
    | call c next => simp [rest, Program.outcome] at outcome
  have uncut : ∀ i, i ≠ 0 → Pool.Uncut i startsOverlapping := by
    intro i other applied e member
    simp [startsOverlapping] at member
    exact other member.1
  have found : q.threads[2]? = some third := by rw [threads]; rfl
  have converged := starts_converge run ?_ ?_
  · obtain ⟨m, moment, -, right⟩ := converged.2 2 third _ found (uncut 2 (by decide)) third_ended
    exact ⟨q, run, converged.1, m, moment, third_start ▸ right⟩
  · intro config member
    simp only [startsOverlapping, started, List.mem_cons, Start.web.injEq, reduceCtorEq,
      List.not_mem_nil, or_false, false_or, or_self] at member
    subst member
    decide
  · intro x member
    simp only [startsOverlapping, started, List.mem_cons, List.not_mem_nil, or_false] at member
    rcases member with rfl | rfl | rfl
    · exact ⟨2, third, found, third_start, uncut 2 (by decide), idle third_ended⟩
    · exact ⟨1, second, by rw [threads]; rfl, second_start, uncut 1 (by decide), idle second_ended⟩
    · exact ⟨2, third, found, third_start, uncut 2 (by decide), idle third_ended⟩

end Haystack
