import Haystack.Cql.Statement
import Haystack.Java

/-! The backends and what each call does to them: one redis next to each web
server and each cache server, the directory (tables store_info and photo_info)
and the store (one table for each logical volume). Every call is atomic. -/
namespace Haystack

open Calls Cql Java

abbrev Row := List (String × Value)

namespace Row

def getString (row : Row) (column : String) : Except Exception String :=
  match row.lookup column with
  | some (.text s) => .ok s
  | _ => .error .illegalArgument

def getInt (row : Row) (column : String) : Except Exception Int32 :=
  match row.lookup column with
  | some (.int i) => .ok i
  | _ => .error .illegalArgument

def getBytes (row : Row) (column : String) : Except Exception Bytes :=
  match row.lookup column with
  | some (.blob b) => .ok b
  | _ => .error .illegalArgument

def project (columns : Option (List String)) (row : Row) : Row :=
  match columns with
  | none => row
  | some names => row.filter (fun c => names.contains c.1)

end Row

structure PhotoInfo where
  cacheUrl : String
  lvid : Int32
  deriving DecidableEq, Repr

def PhotoInfo.row (pid : String) (info : PhotoInfo) : Row :=
  [("pid", .text pid), ("cache_url", .text info.cacheUrl), ("lvid", .int info.lvid)]

def imageRow (pid : String) (image : Bytes) : Row := [("pid", .text pid), ("image", .blob image)]

def upsert (lvid status : Int32) : List (Int32 × Int32) → List (Int32 × Int32)
  | [] => [(lvid, status)]
  | (k, v) :: rows => if k = lvid then (k, status) :: rows else (k, v) :: upsert lvid status rows

theorem upsert_keys (lvid status : Int32) (rows : List (Int32 × Int32)) (k : Int32) :
    k ∈ (upsert lvid status rows).map Prod.fst ↔ k = lvid ∨ k ∈ rows.map Prod.fst := by
  induction rows with
  | nil => simp [upsert]
  | cons row rows ih =>
    simp only [upsert]
    split
    · rename_i same
      simp [same]
    · simp only [List.map_cons, List.mem_cons, ih]
      tauto

theorem upsert_nodup (lvid status : Int32) (rows : List (Int32 × Int32))
    (distinct : (rows.map Prod.fst).Nodup) : ((upsert lvid status rows).map Prod.fst).Nodup := by
  induction rows with
  | nil => simp [upsert]
  | cons row rows ih =>
    simp only [List.map_cons, List.nodup_cons] at distinct
    simp only [upsert]
    split
    · simpa using distinct
    · rename_i differ
      simp only [List.map_cons, List.nodup_cons, upsert_keys]
      exact ⟨fun h => h.elim differ distinct.1, ih distinct.2⟩

/-- The table store_info in the order in which a scan returns its rows. The
volume is the key. -/
structure StoreInfo where
  rows : List (Int32 × Int32)
  distinct : (rows.map Prod.fst).Nodup

def StoreInfo.empty : StoreInfo := ⟨[], List.nodup_nil⟩

def StoreInfo.set (t : StoreInfo) (lvid status : Int32) : StoreInfo :=
  ⟨upsert lvid status t.rows, upsert_nodup lvid status t.rows t.distinct⟩

def storeRow (row : Int32 × Int32) : Row := [("lvid", .int row.1), ("status", .int row.2)]

/-- A table that was never created is none. -/
structure Directory where
  keyspace : Bool
  storeInfo : Option StoreInfo
  photoInfo : Option (String → Option PhotoInfo)

structure Store where
  keyspace : Bool
  tables : String → Option (String → Option Bytes)

structure World where
  redis : Nat → String → Option String
  directory : Directory
  store : Store
  imageCache : Nat → Bytes → Option Bytes

namespace World

def photo (s : World) (pid : String) : Option PhotoInfo :=
  s.directory.photoInfo.bind (fun t => t pid)

def image (s : World) (table pid : String) : Option Bytes :=
  (s.store.tables table).bind (fun t => t pid)

def setRedis (s : World) (server : Nat) (key : String) (value : Option String) : World :=
  { s with redis := Function.update s.redis server (Function.update (s.redis server) key value) }

def setPhoto (s : World) (pid : String) (info : Option PhotoInfo) : World :=
  { s with directory := { s.directory with
      photoInfo := s.directory.photoInfo.map (fun t => Function.update t pid info) } }

def setStatus (s : World) (lvid status : Int32) : World :=
  { s with directory := { s.directory with
      storeInfo := s.directory.storeInfo.map (fun t => t.set lvid status) } }

def setImage (s : World) (table pid : String) (image : Option Bytes) : World :=
  { s with store := { s.store with
      tables := Function.update s.store.tables table
        ((s.store.tables table).map (fun t => Function.update t pid image)) } }

def setCached (s : World) (server : Nat) (key : Bytes) (image : Option Bytes) : World :=
  { s with imageCache :=
      Function.update s.imageCache server (Function.update (s.imageCache server) key image) }

end World

/-- The keys a restriction names; any other restriction is not a lookup by key. -/
def keys : List Relation → Option (List String)
  | [.eq "pid" (.value (.text p))] => some [p]
  | [.within "pid" ts] => ts.mapM (fun t => match t with
    | .value (.text p) => some p
    | _ => none)
  | _ => none

def known (columns : Option (List String)) (all : List String) : Bool :=
  (columns.getD []).all all.contains

def answerOr {α : Type} (e : Exception) : Option α → Except Exception α
  | some a => .ok a
  | none => .error e

theorem answerOr_ok {α : Type} {e : Exception} {m : Option α} {a : α}
    (answer : answerOr e m = .ok a) : m = some a := by
  cases m with
  | none => cases answer
  | some b =>
    cases answer
    rfl

/-- A statement on the directory. Insert and update are upserts on the key. -/
def executeDirectory (st : Statement) (s : World) : Except Exception (World × List Row) :=
  match st with
  | .select columns "photo_info" relations _ =>
    match s.directory.photoInfo, keys relations, known columns ["pid", "cache_url", "lvid"] with
    | some t, some ps, true =>
      .ok (s, ps.filterMap (fun p => (t p).map (fun info => Row.project columns (info.row p))))
    | _, _, _ => .error .invalidQuery
  | .select columns "store_info" [.eq "status" (.value (.int v))] true =>
    match s.directory.storeInfo, known columns ["lvid", "status"] with
    | some t, true =>
      .ok (s,
        (t.rows.filter (fun row => row.2 == v)).map (fun row => Row.project columns (storeRow row)))
    | _, _ => .error .invalidQuery
  | .insert "photo_info" ["pid", "cache_url", "lvid"]
      [.value (.text pid), .value (.text cacheUrl), .value (.int lvid)] =>
    match s.directory.photoInfo with
    | some _ => .ok (s.setPhoto pid (some ⟨cacheUrl, lvid⟩), [])
    | none => .error .invalidQuery
  | .update "store_info" [("status", .value (.int v))] [.eq "lvid" (.value (.int k))] =>
    match s.directory.storeInfo with
    | some _ => .ok (s.setStatus k v, [])
    | none => .error .invalidQuery
  | .delete "photo_info" [.eq "pid" (.value (.text pid))] =>
    match s.directory.photoInfo with
    | some _ => .ok (s.setPhoto pid none, [])
    | none => .error .invalidQuery
  | _ => .error .invalidQuery

theorem executeDirectory_photos {s : World} {t : String → Option PhotoInfo}
    (created : s.directory.photoInfo = some t) {columns : Option (List String)}
    (all : columns = none ∨ columns = some ["pid", "cache_url", "lvid"]) (pid : String)
    (filtering : Bool) :
    executeDirectory (.select columns "photo_info" [.eq "pid" (.value (.text pid))] filtering) s =
      .ok (s, ((t pid).map (PhotoInfo.row pid)).toList) := by
  rcases all with rfl | rfl <;> cases found : t pid <;>
    simp [executeDirectory, keys, known, Row.project, PhotoInfo.row, created, found]

theorem executeDirectory_rest {st : Statement} {s t : World} {rows : List Row}
    (answer : executeDirectory st s = .ok (t, rows)) : t = { s with directory := t.directory } := by
  unfold executeDirectory at answer
  split at answer
  all_goals first
    | (split at answer <;> cases answer <;> rfl)
    | cases answer

def executeStore (st : Statement) (s : World) : Except Exception (World × List Row) :=
  match st with
  | .select columns table relations _ =>
    match s.store.tables table, keys relations, known columns ["pid", "image"] with
    | some t, some ps, true =>
      .ok (s, ps.filterMap (fun p => (t p).map (fun b => Row.project columns (imageRow p b))))
    | _, _, _ => .error .invalidQuery
  | .insert table ["pid", "image"] [.value (.text pid), .value (.blob b)] =>
    match s.store.tables table with
    | some _ => .ok (s.setImage table pid (some b), [])
    | none => .error .invalidQuery
  | .delete table [.eq "pid" (.value (.text pid))] =>
    match s.store.tables table with
    | some _ => .ok (s.setImage table pid none, [])
    | none => .error .invalidQuery
  | _ => .error .invalidQuery

theorem executeStore_lookup {s : World} {table : String} {t : String → Option Bytes}
    (created : s.store.tables table = some t) (pid : String) (filtering : Bool) :
    executeStore (.select none table [.eq "pid" (.value (.text pid))] filtering) s =
      .ok (s, ((t pid).map (imageRow pid)).toList) := by
  cases found : t pid <;> simp [executeStore, keys, known, Row.project, created, found]

theorem executeStore_absent {st : Statement} {s : World}
    (absent : s.store.tables st.table = none) :
    executeStore st s = .error .invalidQuery := by
  unfold executeStore
  split
  · rename_i table _ _
    have missing : s.store.tables table = none := absent
    simp [missing]
  · rename_i table _ _
    have missing : s.store.tables table = none := absent
    simp [missing]
  · rename_i table _
    have missing : s.store.tables table = none := absent
    simp [missing]
  · rfl

theorem executeStore_reads {st : Statement} {s t : World} {rows : List Row}
    (reads : st.writes = false)
    (answer : executeStore st s = .ok (t, rows)) : t = s := by
  cases st with
  | select columns table relations filtering =>
    simp only [executeStore] at answer
    split at answer
    · exact (Prod.mk.inj (Except.ok.inj answer)).1.symm
    · cases answer
  | further table clauses bound => cases answer
  | _ => cases reads

inductive Session where
  | directory | store
  deriving DecidableEq, Repr

def executeOn : Session → Statement → World → Except Exception (World × List Row)
  | .directory => executeDirectory
  | .store => executeStore

def World.hasTable (s : World) : Session → String → Bool
  | .directory, "store_info" => s.directory.storeInfo.isSome
  | .directory, "photo_info" => s.directory.photoInfo.isSome
  | .directory, _ => false
  | .store, table => (s.store.tables table).isSome

/-- Every way a server talks to a backend. The jedis calls are those of a web
server and its strings, the binary calls those of a cache server and its bytes. -/
inductive Call where
  | jedisGet (server : Nat) (key : String)
  | jedisSet (server : Nat) (key value : String)
  | jedisDel (server : Nat) (key : String)
  | execute (session : Session) (query : String) (values : List Value)
  | prepare (session : Session) (query : String)
  | executeBound (session : Session) (st : Statement)
  | createKeyspaceIfNotExists (session : Session)
  | use (session : Session)
  | createTableIfNotExists (session : Session) (table : String)
  | binaryGet (server : Nat) (key : Bytes)
  | binarySet (server : Nat) (key image : Bytes)
  | binaryDel (server : Nat) (key : Bytes)
  deriving DecidableEq

@[reducible] def Answer : Call → Type
  | .jedisGet _ _ => Option String
  | .execute _ _ _ => List Row
  | .prepare _ _ => Statement
  | .executeBound _ _ => List Row
  | .binaryGet _ _ => Option Bytes
  | _ => Unit

def World.createKeyspace (s : World) : Session → World
  | .directory => { s with directory := { s.directory with keyspace := true } }
  | .store => { s with store := { s.store with keyspace := true } }

def World.hasKeyspace (s : World) : Session → Bool
  | .directory => s.directory.keyspace
  | .store => s.store.keyspace

def World.createTable (s : World) : Session → String → World
  | .directory, "store_info" => { s with directory := { s.directory with
      storeInfo := some (s.directory.storeInfo.getD StoreInfo.empty) } }
  | .directory, "photo_info" => { s with directory := { s.directory with
      photoInfo := some (s.directory.photoInfo.getD (fun _ => none)) } }
  | .directory, _ => s
  | .store, table => { s with store := { s.store with
      tables := Function.update s.store.tables table
        (some ((s.store.tables table).getD (fun _ => none))) } }

def exec : (c : Call) → World → Except Exception (World × Answer c)
  | .jedisGet server key, s => .ok (s, s.redis server key)
  | .jedisSet server key value, s => .ok (s.setRedis server key (some value), ())
  | .jedisDel server key, s => .ok (s.setRedis server key none, ())
  | .execute session query values, s =>
    (answerOr .invalidQuery ((Statement.ofText query).bind (fun st => st.bind values))).bind
      (fun st => executeOn session st s)
  | .prepare session query, s =>
    (answerOr .invalidQuery (Statement.ofText query)).bind
      (fun st => if s.hasTable session st.table then .ok (s, st) else .error .invalidQuery)
  | .executeBound session st, s => executeOn session st s
  | .createKeyspaceIfNotExists session, s => .ok (s.createKeyspace session, ())
  | .use session, s => if s.hasKeyspace session then .ok (s, ()) else .error .invalidQuery
  | .createTableIfNotExists session table, s =>
    if s.hasKeyspace session then .ok (s.createTable session table, ()) else .error .invalidQuery
  | .binaryGet server key, s => .ok (s, s.imageCache server key)
  | .binarySet server key image, s => .ok (s.setCached server key (some image), ())
  | .binaryDel server key, s => .ok (s.setCached server key none, ())

theorem exec_execute {session : Session} {query : String} {values : List Value}
    {st bound : Statement}
    (text : Statement.ofText query = some st) (filled : st.bind values = some bound) (s : World) :
    exec (.execute session query values) s = executeOn session bound s := by
  simp only [exec, text, Option.bind_some, filled]
  rfl

theorem exec_prepare {session : Session} {query : String} {st : Statement}
    (text : Statement.ofText query = some st) (s : World) :
    exec (.prepare session query) s =
      if s.hasTable session st.table then .ok (s, st) else .error .invalidQuery := by
  simp only [exec, text]
  rfl

theorem exec_prepare_none {session : Session} {query : String}
    (text : Statement.ofText query = none) (s : World) :
    exec (.prepare session query) s = .error .invalidQuery := by
  simp only [exec, text]
  rfl

/-- What a handler answers. Plain text is answered with status 200. -/
inductive Resp where
  | result (code : Nat) (text : String)
  | status (code : Nat)
  | redirect (url : String)
  | json (code : Nat) (pid : String)
  | image (filename : String) (bytes : Bytes)
  | plain (text : String)
  deriving DecidableEq, Repr

abbrev Handler := Program Answer Exception

def jedisGet (server : Nat) (key : String) : Handler (Option String) :=
  .request (Call.jedisGet server key)
def jedisSet (server : Nat) (key value : String) : Handler Unit :=
  .request (Call.jedisSet server key value)
def jedisDel (server : Nat) (key : String) : Handler Unit := .request (Call.jedisDel server key)
def binaryGet (server : Nat) (key : Bytes) : Handler (Option Bytes) :=
  .request (Call.binaryGet server key)
def binarySet (server : Nat) (key image : Bytes) : Handler Unit :=
  .request (Call.binarySet server key image)
def binaryDel (server : Nat) (key : Bytes) : Handler Unit := .request (Call.binaryDel server key)

namespace Session

def execute (session : Session) (query : String) (values : List Value) : Handler (List Row) :=
  .request (Call.execute session query values)
def prepare (session : Session) (query : String) : Handler Statement :=
  .request (Call.prepare session query)
def executeBound (session : Session) (st : Statement) : Handler (List Row) :=
  .request (Call.executeBound session st)
def createKeyspaceIfNotExists (session : Session) : Handler Unit :=
  .request (Call.createKeyspaceIfNotExists session)
def use (session : Session) : Handler Unit := .request (Call.use session)
def createTableIfNotExists (session : Session) (table : String) : Handler Unit :=
  .request (Call.createTableIfNotExists session table)

end Session

section Calls

variable {β : Type} (server : Nat) (session : Session) (query : String)

@[simp] theorem jedisGet_bind (key : String) (f : Option String → Handler β) :
    jedisGet server key >>= f = .call (.jedisGet server key) f := rfl
@[simp] theorem jedisSet_bind (key value : String) (f : Unit → Handler β) :
    jedisSet server key value >>= f = .call (.jedisSet server key value) f := rfl
@[simp] theorem jedisDel_bind (key : String) (f : Unit → Handler β) :
    jedisDel server key >>= f = .call (.jedisDel server key) f := rfl
@[simp] theorem binaryGet_bind (key : Bytes) (f : Option Bytes → Handler β) :
    binaryGet server key >>= f = .call (.binaryGet server key) f := rfl
@[simp] theorem binarySet_bind (key image : Bytes) (f : Unit → Handler β) :
    binarySet server key image >>= f = .call (.binarySet server key image) f := rfl
@[simp] theorem binaryDel_bind (key : Bytes) (f : Unit → Handler β) :
    binaryDel server key >>= f = .call (.binaryDel server key) f := rfl
@[simp] theorem execute_bind (values : List Value) (f : List Row → Handler β) :
    session.execute query values >>= f = .call (.execute session query values) f := rfl
@[simp] theorem prepare_bind (f : Statement → Handler β) :
    session.prepare query >>= f = .call (.prepare session query) f := rfl
@[simp] theorem executeBound_bind (st : Statement) (f : List Row → Handler β) :
    session.executeBound st >>= f = .call (.executeBound session st) f := rfl

end Calls

end Haystack
