import Haystack.Texts

/-! What each call of a handler does to the world, and what it leaves alone. The
modules after this one know the statement texts only by these equations. -/
namespace Haystack

open Calls Cql Java

namespace World

variable (s : World)

def HasPhotos : Prop := s.directory.photoInfo.isSome = true

def HasVolume (table : String) : Prop := (s.store.tables table).isSome = true

instance : Decidable s.HasPhotos := inferInstanceAs (Decidable (_ = _))
instance (table : String) : Decidable (s.HasVolume table) := inferInstanceAs (Decidable (_ = _))

section Frames

variable (server other : Nat) (key q pid table place : String) (url : Option String)
  (info : Option PhotoInfo) (bytes : Option Bytes) (code : Bytes) (lvid status : Int32)

@[simp] theorem photo_setRedis : (s.setRedis server key url).photo pid = s.photo pid := rfl
@[simp] theorem image_setRedis :
    (s.setRedis server key url).image table pid = s.image table pid := rfl
@[simp] theorem hasPhotos_setRedis : (s.setRedis server key url).HasPhotos ↔ s.HasPhotos := Iff.rfl
@[simp] theorem hasVolume_setRedis :
    (s.setRedis server key url).HasVolume table ↔ s.HasVolume table := Iff.rfl
@[simp] theorem directory_setRedis : (s.setRedis server key url).directory = s.directory := rfl
@[simp] theorem store_setRedis : (s.setRedis server key url).store = s.store := rfl
@[simp] theorem imageCache_setRedis : (s.setRedis server key url).imageCache = s.imageCache := rfl

@[simp] theorem redis_setPhoto : (s.setPhoto q info).redis = s.redis := rfl
@[simp] theorem image_setPhoto : (s.setPhoto q info).image table pid = s.image table pid := rfl
@[simp] theorem hasVolume_setPhoto :
    (s.setPhoto q info).HasVolume table ↔ s.HasVolume table := Iff.rfl
@[simp] theorem storeInfo_setPhoto :
    (s.setPhoto q info).directory.storeInfo = s.directory.storeInfo := rfl
@[simp] theorem store_setPhoto : (s.setPhoto q info).store = s.store := rfl
@[simp] theorem imageCache_setPhoto : (s.setPhoto q info).imageCache = s.imageCache := rfl
@[simp] theorem hasPhotos_setPhoto : (s.setPhoto q info).HasPhotos ↔ s.HasPhotos := by
  simp [HasPhotos, setPhoto]

@[simp] theorem redis_setImage : (s.setImage table q bytes).redis = s.redis := rfl
@[simp] theorem photo_setImage : (s.setImage table q bytes).photo pid = s.photo pid := rfl
@[simp] theorem directory_setImage : (s.setImage table q bytes).directory = s.directory := rfl
@[simp] theorem hasPhotos_setImage : (s.setImage table q bytes).HasPhotos ↔ s.HasPhotos := Iff.rfl
@[simp] theorem imageCache_setImage : (s.setImage table q bytes).imageCache = s.imageCache := rfl
@[simp] theorem hasVolume_setImage :
    (s.setImage table q bytes).HasVolume place ↔ s.HasVolume place := by
  by_cases same : place = table
  · subst same
    simp [HasVolume, setImage]
  · simp [HasVolume, setImage, same]

@[simp] theorem redis_setCached : (s.setCached server code bytes).redis = s.redis := rfl
@[simp] theorem photo_setCached : (s.setCached server code bytes).photo pid = s.photo pid := rfl
@[simp] theorem image_setCached :
    (s.setCached server code bytes).image table pid = s.image table pid := rfl
@[simp] theorem directory_setCached : (s.setCached server code bytes).directory = s.directory := rfl
@[simp] theorem store_setCached : (s.setCached server code bytes).store = s.store := rfl
@[simp] theorem hasPhotos_setCached :
    (s.setCached server code bytes).HasPhotos ↔ s.HasPhotos := Iff.rfl
@[simp] theorem hasVolume_setCached :
    (s.setCached server code bytes).HasVolume table ↔ s.HasVolume table := Iff.rfl

end Frames

variable {s}

theorem redis_setRedis (server other : Nat) (key q : String) (url : Option String) :
    (s.setRedis server key url).redis other q =
      if other = server ∧ q = key then url else s.redis other q := by
  by_cases same : other = server
  · subst same
    by_cases hit : q = key
    · subst hit
      simp [setRedis]
    · simp [setRedis, hit]
  · simp [setRedis, same]

theorem photo_setPhoto (created : s.HasPhotos) (pid q : String) (info : Option PhotoInfo) :
    (s.setPhoto pid info).photo q = if q = pid then info else s.photo q := by
  obtain ⟨t, ht⟩ := Option.isSome_iff_exists.mp created
  by_cases same : q = pid
  · subst same
    simp [photo, setPhoto, ht]
  · simp [photo, setPhoto, ht, same]

theorem redis_of_evicted {server other : Nat} {key q url : String}
    (found : (s.setRedis server key none).redis other q = some url) :
    s.redis other q = some url := by
  rw [redis_setRedis] at found
  split at found
  · contradiction
  · exact found

theorem photo_of_dropped (created : s.HasPhotos) {pid q : String} {info : PhotoInfo}
    (found : (s.setPhoto pid none).photo q = some info) : s.photo q = some info := by
  rw [photo_setPhoto created] at found
  split at found
  · contradiction
  · exact found

theorem image_setImage (table place pid q : String) (created : s.HasVolume table)
    (bytes : Option Bytes) :
    (s.setImage table pid bytes).image place q =
      if place = table ∧ q = pid then bytes else s.image place q := by
  obtain ⟨t, ht⟩ := Option.isSome_iff_exists.mp created
  by_cases same : place = table
  · subst same
    by_cases hit : q = pid
    · subst hit
      simp [image, setImage, ht]
    · simp [image, setImage, ht, hit]
  · simp [image, setImage, same]

theorem imageCache_setCached (server other : Nat) (key code : Bytes) (bytes : Option Bytes) :
    (s.setCached server key bytes).imageCache other code =
      if other = server ∧ code = key then bytes else s.imageCache other code := by
  by_cases same : other = server
  · subst same
    by_cases hit : code = key
    · subst hit
      simp [setCached]
    · simp [setCached, hit]
  · simp [setCached, same]

end World

def StoreInfo.writable (t : StoreInfo) : List Row :=
  (t.rows.filter (fun row => row.2 == 1)).map storeRow

namespace WebServer

variable {s : World} {pid : String}

theorem exec_photoSelect {query : String} {columns : Option (List String)} {filtering : Bool}
    (text : Statement.ofText query =
      some (.select columns "photo_info" [.eq "pid" (.value (.text pid))] filtering))
    (all : columns = none ∨ columns = some ["pid", "cache_url", "lvid"]) (created : s.HasPhotos) :
    exec (.execute .directory query []) s =
      .ok (s, ((s.photo pid).map (PhotoInfo.row pid)).toList) := by
  obtain ⟨t, ht⟩ := Option.isSome_iff_exists.mp created
  have found : s.photo pid = t pid := by rw [World.photo, ht, Option.bind_some]
  rw [exec_execute text rfl, found]
  exact executeDirectory_photos ht all pid filtering

theorem exec_photoSelect_refused {query : String} {columns : Option (List String)}
    {filtering : Bool} (text : Statement.ofText query =
      some (.select columns "photo_info" [.eq "pid" (.value (.text pid))] filtering))
    (absent : ¬ s.HasPhotos) : exec (.execute .directory query []) s = .error .invalidQuery := by
  have missing : s.directory.photoInfo = none := by simpa [World.HasPhotos] using absent
  rw [exec_execute text rfl]
  simp [executeOn, executeDirectory, missing]

theorem exec_selectPhoto (plain : Plain pid) (created : s.HasPhotos) :
    exec (.execute .directory (selectPhoto pid) []) s =
      .ok (s, ((s.photo pid).map (PhotoInfo.row pid)).toList) :=
  exec_photoSelect (ofText_selectPhoto plain) (.inl rfl) created

theorem exec_searchQuery (plain : Plain pid) (created : s.HasPhotos) :
    exec (.execute .directory (searchQuery pid) []) s =
      .ok (s, ((s.photo pid).map (PhotoInfo.row pid)).toList) :=
  exec_photoSelect (ofText_searchQuery plain) (.inr rfl) created

theorem exec_searchQuery_any (pid : String) (s : World) :
    exec (.execute .directory (searchQuery pid) []) s = .error .invalidQuery ∨
      ∃ rows, exec (.execute .directory (searchQuery pid) []) s = .ok (s, rows) ∧
        ∀ row ∈ rows, ∃ q info, s.photo q = some info ∧ row = info.row q := by
  cases accepted : Statement.ofText (searchQuery pid) with
  | none => exact .inl (by simp [exec, accepted, answerOr, Except.bind])
  | some st =>
    cases bound : st.bind [] with
    | none => exact .inl (by simp [exec, accepted, bound, answerOr, Except.bind])
    | some filled =>
      rw [exec_execute accepted bound]
      obtain ⟨relations, filtering, rfl⟩ := ofText_searchQuery_any accepted
      obtain ⟨given, rfl⟩ := Statement.bind_select bound
      simp only [executeOn, executeDirectory]
      split
      · rename_i t ps created named known
        refine .inr ⟨_, rfl, ?_⟩
        intro row member
        obtain ⟨q, _, found⟩ := List.mem_filterMap.mp member
        obtain ⟨info, there, rfl⟩ := Option.map_eq_some_iff.mp found
        exact ⟨q, info, by simp [World.photo, created, there], by simp [Row.project, PhotoInfo.row]⟩
      · exact .inl rfl

theorem exec_delQuery (plain : Plain pid) (created : s.HasPhotos) :
    exec (.execute .directory (delQuery pid) []) s = .ok (s.setPhoto pid none, []) := by
  obtain ⟨t, ht⟩ := Option.isSome_iff_exists.mp created
  rw [exec_execute (ofText_delQuery plain) rfl]
  simp [executeOn, executeDirectory, ht]

theorem exec_lvidQuery (t : StoreInfo) (ht : s.directory.storeInfo = some t) :
    exec (.execute .directory lvidQuery []) s = .ok (s, t.writable) := by
  rw [exec_execute ofText_lvidQuery rfl]
  simp [executeOn, executeDirectory, known, Row.project, ht, StoreInfo.writable]

theorem exec_lvidQuery_refused (absent : s.directory.storeInfo = none) :
    exec (.execute .directory lvidQuery []) s = .error .invalidQuery := by
  rw [exec_execute ofText_lvidQuery rfl]
  simp [executeOn, executeDirectory, absent]

theorem exec_insertQuery (cacheUrl : String) (lvid : Int32) (created : s.HasPhotos) :
    exec (.execute .directory insertQuery [.text pid, .text cacheUrl, .int lvid]) s =
      .ok (s.setPhoto pid (some ⟨cacheUrl, lvid⟩), []) := by
  obtain ⟨t, ht⟩ := Option.isSome_iff_exists.mp created
  rw [exec_execute ofText_insertQuery rfl]
  simp [executeOn, executeDirectory, ht]

theorem exec_insertQuery_refused (cacheUrl : String) (lvid : Int32) (absent : ¬ s.HasPhotos) :
    exec (.execute .directory insertQuery [.text pid, .text cacheUrl, .int lvid]) s =
      .error .invalidQuery := by
  have missing : s.directory.photoInfo = none := by simpa [World.HasPhotos] using absent
  rw [exec_execute ofText_insertQuery rfl]
  simp [executeOn, executeDirectory, missing]

def imageStatement (k : Int32) : Statement :=
  .insert (lv k) ["pid", "image"] [.named "pid", .named "image"]

theorem exec_prepare_insertImage {k : Int32} (nonneg : 0 ≤ k.toInt) (created : s.HasVolume (lv k)) :
    exec (.prepare .store (insertImage k)) s = .ok (s, imageStatement k) := by
  rw [exec_prepare (ofText_insertImage nonneg)]
  exact if_pos created

theorem exec_prepare_refused {k : Int32} (unusable : ¬ (0 ≤ k.toInt ∧ s.HasVolume (lv k))) :
    exec (.prepare .store (insertImage k)) s = .error .invalidQuery := by
  by_cases nonneg : 0 ≤ k.toInt
  · have absent : ¬ s.HasVolume (lv k) := fun created => unusable ⟨nonneg, created⟩
    rw [exec_prepare (ofText_insertImage nonneg)]
    exact if_neg absent
  · exact exec_prepare_none (ofText_insertImage_negative (by omega)) s

def imageInsert (k : Int32) (pid : String) (image : Bytes) : Statement :=
  .insert (lv k) ["pid", "image"] [.value (.text pid), .value (.blob image)]

theorem bind_imageStatement (k : Int32) (pid : String) (image : Bytes) :
    ((imageStatement k).set "pid" (.text pid)).bind (Statement.set "image" (.blob image)) =
      some (imageInsert k pid image) := by
  simp [imageStatement, imageInsert, Statement.set, Statement.put, Term.put]

theorem exec_imageInsert (k : Int32) (image : Bytes) (created : s.HasVolume (lv k)) :
    exec (.executeBound .store (imageInsert k pid image)) s =
      .ok (s.setImage (lv k) pid (some image), []) := by
  obtain ⟨t, ht⟩ := Option.isSome_iff_exists.mp created
  simp [exec, executeOn, imageInsert, executeStore, ht]

end WebServer

namespace CacheServer

variable {s : World} {lvid pid : String}

def lookupStatement (table : String) : Statement :=
  .select none table [.eq "pid" (.named "pid")] false

def lookup (table pid : String) : Statement :=
  .select none table [.eq "pid" (.value (.text pid))] false

theorem exec_prepare_selectImage (word : Wordlike lvid) :
    exec (.prepare .store (selectImage lvid)) s =
      if s.HasVolume ("lv" ++ lowered lvid) then .ok (s, lookupStatement ("lv" ++ lowered lvid))
      else .error .invalidQuery := by
  rw [exec_prepare (ofText_selectImage word)]
  rfl

theorem bind_lookupStatement (table pid : String) :
    (lookupStatement table).set "pid" (.text pid) = some (lookup table pid) := by
  simp [lookupStatement, lookup, Statement.set, Statement.put, Relation.put, Term.put]

theorem exec_lookup (table : String) (created : s.HasVolume table) :
    exec (.executeBound .store (lookup table pid)) s =
      .ok (s, ((s.image table pid).map (imageRow pid)).toList) := by
  obtain ⟨t, ht⟩ := Option.isSome_iff_exists.mp created
  have found : s.image table pid = t pid := by rw [World.image, ht, Option.bind_some]
  rw [found]
  exact executeStore_lookup ht pid false

theorem exec_searchPhoto (absent : s.store.tables "photo" = none) :
    exec (.execute .store (searchPhoto pid) []) s = .error .invalidQuery := by
  simp only [exec]
  cases accepted : Statement.ofText (searchPhoto pid) with
  | none => rfl
  | some st =>
    cases bound : st.bind [] with
    | none => simp [bound, answerOr, Except.bind]
    | some filled =>
      obtain ⟨relations, filtering, rfl⟩ := ofText_searchPhoto accepted
      obtain ⟨given, rfl⟩ := Statement.bind_select bound
      simp only [Option.bind_some, bound, answerOr, Except.bind, executeOn]
      exact executeStore_absent absent

end CacheServer

/-- The call goes to a redis. -/
def ToRedis : Call → Prop
  | .jedisGet _ _ => True
  | .jedisSet _ _ _ => True
  | .jedisDel _ _ => True
  | .binaryGet _ _ => True
  | .binarySet _ _ _ => True
  | .binaryDel _ _ => True
  | _ => False

theorem exec_toRedis {c : Call} {s t : World} {r : Answer c} (redis : ToRedis c)
    (answer : exec c s = .ok (t, r)) : t.directory = s.directory ∧ t.store = s.store := by
  cases c with
  | jedisGet _ _ | jedisSet _ _ _ | jedisDel _ _ | binaryGet _ _ | binarySet _ _ _
  | binaryDel _ _ =>
    cases answer
    exact ⟨rfl, rfl⟩
  | _ => exact redis.elim

/-- The world with other contents of redis. -/
def World.withRedis (s : World) (redis : Nat → String → Option String)
    (imageCache : Nat → Bytes → Option Bytes) : World :=
  { s with redis := redis, imageCache := imageCache }

section Apart

variable (s : World) (redis : Nat → String → Option String)
  (imageCache : Nat → Bytes → Option Bytes)

theorem executeOn_withRedis (session : Session) (st : Statement) :
    executeOn session st (s.withRedis redis imageCache) =
      (executeOn session st s).map
        (fun answer => (answer.1.withRedis redis imageCache, answer.2)) := by
  cases session with
  | directory =>
    simp only [executeOn, executeDirectory, World.withRedis]
    split
    all_goals first | rfl | (split <;> rfl)
  | store =>
    simp only [executeOn, executeStore, World.withRedis]
    split
    all_goals first | rfl | (split <;> rfl)

theorem hasTable_withRedis (session : Session) (table : String) :
    (s.withRedis redis imageCache).hasTable session table = s.hasTable session table := by
  cases session with
  | directory =>
    unfold World.hasTable
    split <;> rfl
  | store => rfl

theorem createTable_withRedis (session : Session) (table : String) :
    (s.withRedis redis imageCache).createTable session table =
      (s.createTable session table).withRedis redis imageCache := by
  cases session with
  | directory =>
    unfold World.createTable
    split <;> rfl
  | store => rfl

theorem exec_withRedis {c : Call} (apart : ¬ ToRedis c) :
    exec c (s.withRedis redis imageCache) =
      (exec c s).map (fun answer => (answer.1.withRedis redis imageCache, answer.2)) := by
  have keyspaces : ∀ session,
      (s.withRedis redis imageCache).hasKeyspace session = s.hasKeyspace session := by
    intro session
    cases session <;> rfl
  cases c with
  | execute session query values =>
    simp only [exec]
    cases (Statement.ofText query).bind (fun st => st.bind values) with
    | none => rfl
    | some st => exact executeOn_withRedis s redis imageCache session st
  | prepare session query =>
    cases text : Statement.ofText query with
    | none =>
      rw [exec_prepare_none text, exec_prepare_none text]
      rfl
    | some st =>
      rw [exec_prepare text, exec_prepare text, hasTable_withRedis]
      split <;> rfl
  | executeBound session st => exact executeOn_withRedis s redis imageCache session st
  | createKeyspaceIfNotExists session => cases session <;> rfl
  | use session =>
    simp only [exec, keyspaces]
    split <;> rfl
  | createTableIfNotExists session table =>
    simp only [exec, keyspaces, createTable_withRedis]
    split <;> rfl
  | _ => exact (apart trivial).elim

theorem exec_apart {c : Call} {t : World} {r : Answer c} (apart : ¬ ToRedis c)
    (answer : exec c s = .ok (t, r)) : t = t.withRedis s.redis s.imageCache := by
  have same := exec_withRedis s s.redis s.imageCache apart
  change exec c s = _ at same
  rw [answer] at same
  exact (Prod.mk.inj (Except.ok.inj same)).1

end Apart

theorem exec_redis_kept {server : Nat} {key : String} (c : Call) (s t : World) (r : Answer c)
    (spared : c ≠ .jedisDel server key) (present : (s.redis server key).isSome)
    (answer : exec c s = .ok (t, r)) : (t.redis server key).isSome := by
  by_cases redis : ToRedis c
  · cases c with
    | jedisSet other name value =>
      cases answer
      rw [World.redis_setRedis]
      split
      · rfl
      · exact present
    | jedisDel other name =>
      cases answer
      rw [World.redis_setRedis, if_neg]
      · exact present
      · rintro ⟨rfl, rfl⟩
        exact spared rfl
    | jedisGet _ _ | binaryGet _ _ | binarySet _ _ _ | binaryDel _ _ =>
      cases answer
      exact present
    | _ => exact redis.elim
  · rw [exec_apart s redis answer]
    exact present

theorem exec_imageCache_kept {server : Nat} {key : Bytes} (c : Call) (s t : World) (r : Answer c)
    (spared : c ≠ .binaryDel server key) (present : (s.imageCache server key).isSome)
    (answer : exec c s = .ok (t, r)) : (t.imageCache server key).isSome := by
  by_cases redis : ToRedis c
  · cases c with
    | binarySet other name image =>
      cases answer
      rw [World.imageCache_setCached]
      split
      · rfl
      · exact present
    | binaryDel other name =>
      cases answer
      rw [World.imageCache_setCached, if_neg]
      · exact present
      · rintro ⟨rfl, rfl⟩
        exact spared rfl
    | jedisGet _ _ | jedisSet _ _ _ | jedisDel _ _ | binaryGet _ _ =>
      cases answer
      exact present
    | _ => exact redis.elim
  · rw [exec_apart s redis answer]
    exact present

end Haystack
