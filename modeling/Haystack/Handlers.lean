import Haystack.Effects
import Haystack.Calls.Assertion

/-! One rule for each handler: what has to be shown of the states it meets, in
terms of rows, images and cache entries, for a postcondition to hold in every
interleaving. The statement texts do not appear any more. -/
namespace Haystack

open Calls Cql Java

/-- What no request changes: the rows of store_info and the set of volume tables. -/
structure Schema where
  table : StoreInfo
  volumes : Set String

structure World.Fits (schema : Schema) (s : World) : Prop where
  photos : s.HasPhotos
  storeInfo : s.directory.storeInfo = some schema.table
  volumes : ∀ table, s.HasVolume table ↔ table ∈ schema.volumes

namespace World.Fits

variable {schema : Schema} {s : World}

theorem setRedis (fits : s.Fits schema) (server : Nat) (key : String) (url : Option String) :
    (s.setRedis server key url).Fits schema :=
  ⟨fits.photos, fits.storeInfo, fits.volumes⟩

theorem setPhoto (fits : s.Fits schema) (pid : String) (info : Option PhotoInfo) :
    (s.setPhoto pid info).Fits schema :=
  ⟨by simpa using fits.photos, fits.storeInfo, fits.volumes⟩

theorem setImage (fits : s.Fits schema) (table pid : String) (bytes : Option Bytes) :
    (s.setImage table pid bytes).Fits schema :=
  ⟨fits.photos, fits.storeInfo, fun place => by simpa using fits.volumes place⟩

theorem setCached (fits : s.Fits schema) (server : Nat) (key : Bytes) (bytes : Option Bytes) :
    (s.setCached server key bytes).Fits schema :=
  ⟨fits.photos, fits.storeInfo, fits.volumes⟩

end World.Fits

def World.schema (table : StoreInfo) (s : World) : Schema := ⟨table, {place | s.HasVolume place}⟩

theorem World.fits_schema {table : StoreInfo} {s : World} (photos : s.HasPhotos)
    (storeInfo : s.directory.storeInfo = some table) : s.Fits (s.schema table) :=
  ⟨photos, storeInfo, fun _ => Iff.rfl⟩

def PhotoInfo.path (pid : String) (info : PhotoInfo) : String :=
  WebServer.photoPath info.cacheUrl info.lvid pid

theorem PhotoInfo.trim_path (pid : String) (info : PhotoInfo) : trim (info.path pid) ≠ "" := by
  apply trim_ne_empty (c := 'h')
  · simp only [path, WebServer.photoPath, String.toList_append, List.append_assoc]
    rfl
  · decide

namespace WebServer

variable {d : Discipline World} {post : Except Exception Resp → World → Prop} {s : World}
  {schema : Schema} {server : Nat} {pid : String}

/-- onGetImage between reading the row and answering. -/
def getAnswer (server : Nat) (pid : String) : Option PhotoInfo → Handler Resp
  | none => .done (.result 404 "PID does not exist.")
  | some info =>
    .call (.jedisSet server pid (info.path pid)) (fun _ => .done (.redirect (info.path pid)))

def usable (tmpUrl : Option String) : Option String := tmpUrl.filter (fun url => trim url ≠ "")

theorem onCacheMiss_rows (server : Nat) (pid : String) : ∃ next,
    onCacheMiss server pid = .call (.execute .directory (selectPhoto pid) []) next ∧
      next [] = .done (.result 404 "PID does not exist.") ∧
      ∀ key (info : PhotoInfo) rows, next (info.row key :: rows) =
        .call (.jedisSet server pid (info.path key))
          (fun _ => .done (.redirect (info.path key))) := by
  simp only [onCacheMiss, dirSession, execute_bind]
  exact ⟨_, rfl, rfl, fun _ _ _ => rfl⟩

theorem onCacheMiss_eq (server : Nat) (pid : String) : ∃ next,
    onCacheMiss server pid = .call (.execute .directory (selectPhoto pid) []) next ∧
      ∀ m : Option PhotoInfo,
        next ((m.map (PhotoInfo.row pid)).toList) = getAnswer server pid m := by
  obtain ⟨next, tree, missing, present⟩ := onCacheMiss_rows server pid
  refine ⟨next, tree, ?_⟩
  intro m
  cases m with
  | none => exact missing
  | some info => exact present pid info []

theorem onGetImage_eq (server : Nat) (named : pid ≠ "") : ∃ next,
    onGetImage server pid = .call (.jedisGet server pid) next ∧
      ∀ m, next m =
        (usable m).elim (onCacheMiss server pid) (fun url => .done (.redirect url)) := by
  unfold onGetImage
  rw [if_neg named, jedisGet_bind]
  refine ⟨_, rfl, ?_⟩
  intro m
  cases m with
  | none => rfl
  | some url =>
    by_cases shown : trim url = ""
    · simp [usable, Option.filter, shown]
    · simp [usable, Option.filter, shown]

theorem onGetImage_holds_miss (plain : Plain pid) (fits : ∀ t, d.invariant t → t.Fits schema)
    (empty : pid = "" → d.Onward s (post (.ok (.result 400 "Bad request: empty pid."))))
    (hit : pid ≠ "" → d.Onward s (fun t => ∀ url, usable (t.redis server pid) = some url →
      d.Onward t (post (.ok (.redirect url)))))
    (absent : pid ≠ "" → d.Onward s (fun t => usable (t.redis server pid) = none →
      d.Onward t (fun u => u.photo pid = none →
        d.Onward u (post (.ok (.result 404 "PID does not exist."))))))
    (fill : pid ≠ "" → d.Onward s (fun t => usable (t.redis server pid) = none →
      d.Onward t (fun u => ∀ info, u.photo pid = some info → d.Onward u (fun v =>
        d.Keeps v (v.setRedis server pid (some (info.path pid))) ∧
          d.Onward (v.setRedis server pid (some (info.path pid)))
            (post (.ok (.redirect (info.path pid)))))))) :
    (onGetImage server pid).Holds d exec post s := by
  by_cases named : pid = ""
  · subst named
    exact empty rfl
  obtain ⟨next, tree, continued⟩ := onGetImage_eq server named
  obtain ⟨next', tree', continued'⟩ := onCacheMiss_eq server pid
  rw [tree]
  apply Program.holds_read
  intro t moved inv
  refine ⟨t.redis server pid, rfl, ?_⟩
  rw [continued]
  cases found : usable (t.redis server pid) with
  | some url => exact hit named t moved inv url found
  | none =>
    rw [Option.elim_none, tree']
    apply Program.holds_read
    intro u moved' inv'
    refine ⟨_, exec_selectPhoto plain (fits u inv').photos, ?_⟩
    rw [continued']
    cases row : u.photo pid with
    | none => exact absent named t moved inv found u moved' inv' row
    | some info =>
      apply Program.holds_call
      intro v moved'' inv''
      have filled := fill named t moved inv found u moved' inv' info row v moved'' inv''
      exact ⟨_, (), rfl, filled.1, filled.2⟩

theorem onGetImage_holds (plain : Plain pid) (fits : ∀ t, d.invariant t → t.Fits schema)
    (empty : pid = "" → d.Onward s (post (.ok (.result 400 "Bad request: empty pid."))))
    (hit : pid ≠ "" → d.Onward s (fun t => ∀ url, usable (t.redis server pid) = some url →
      d.Onward t (post (.ok (.redirect url)))))
    (absent : pid ≠ "" → d.Onward s (fun t => t.photo pid = none →
      d.Onward t (post (.ok (.result 404 "PID does not exist.")))))
    (fill : pid ≠ "" → d.Onward s (fun t => ∀ info, t.photo pid = some info → d.Onward t (fun u =>
      d.Keeps u (u.setRedis server pid (some (info.path pid))) ∧
        d.Onward (u.setRedis server pid (some (info.path pid)))
          (post (.ok (.redirect (info.path pid))))))) :
    (onGetImage server pid).Holds d exec post s := by
  apply onGetImage_holds_miss plain fits empty hit
  · intro named t moved _ _
    exact (absent named).later moved
  · intro named t moved _ _
    exact (fill named).later moved

/-- onDelete between reading the row, whose key is q, and answering. -/
def deleteRow (q : String) : Handler Resp :=
  .call (.execute .directory (delQuery q) []) (fun _ => .done (.result 200 "Image deleted."))

def searchRow (pid : String) : Handler Resp := do
  let r ← dirSession.execute (searchQuery pid) []
  match r.head? with
  | none => return .result 404 "No such image."
  | some row =>
    let resPid ← Program.lift (row.getString "pid")
    let _ ← dirSession.execute (delQuery resPid) []
    return .result 200 "Image deleted."

theorem onDelete_eq (server : Nat) (pid : String) :
    onDelete server pid = .call (.jedisDel server pid) (fun _ => searchRow pid) := rfl

theorem searchRow_eq (pid : String) : ∃ next,
    searchRow pid = .call (.execute .directory (searchQuery pid) []) next ∧
      next [] = .done (.result 404 "No such image.") ∧
      ∀ q (info : PhotoInfo) rows, next (info.row q :: rows) = deleteRow q := by
  simp only [searchRow, dirSession, execute_bind]
  exact ⟨_, rfl, rfl, fun _ _ _ => rfl⟩

theorem deleteRow_holds {q : String} (plain : Plain q) (fits : ∀ t, d.invariant t → t.Fits schema)
    (deleted : d.Onward s (fun v => d.Keeps v (v.setPhoto q none) ∧
      d.Onward (v.setPhoto q none) (post (.ok (.result 200 "Image deleted."))))) :
    (deleteRow q).Holds d exec post s := by
  apply Program.holds_call
  intro v moved inv
  have gone := deleted v moved inv
  exact ⟨_, [], exec_delQuery plain (fits v inv).photos, gone.1, gone.2⟩

theorem onDelete_evicted_holds
    (evict : d.Onward s (fun t => d.Keeps t (t.setRedis server pid none) ∧
      (searchRow pid).Holds d exec post (t.setRedis server pid none))) :
    (onDelete server pid).Holds d exec post s := by
  rw [onDelete_eq]
  apply Program.holds_call
  intro t moved inv
  have evicted := evict t moved inv
  exact ⟨t.setRedis server pid none, (), rfl, evicted.1, evicted.2⟩

theorem onDelete_holds (plain : Plain pid) (fits : ∀ t, d.invariant t → t.Fits schema)
    (evict : d.Onward s (fun t => d.Keeps t (t.setRedis server pid none) ∧
      d.Onward (t.setRedis server pid none) (fun u =>
        (u.photo pid = none → d.Onward u (post (.ok (.result 404 "No such image.")))) ∧
        ∀ info, u.photo pid = some info → d.Onward u (fun v => d.Keeps v (v.setPhoto pid none) ∧
          d.Onward (v.setPhoto pid none) (post (.ok (.result 200 "Image deleted."))))))) :
    (onDelete server pid).Holds d exec post s := by
  obtain ⟨next, tree, missing, present⟩ := searchRow_eq pid
  apply onDelete_evicted_holds
  intro t moved inv
  have evicted := evict t moved inv
  refine ⟨evicted.1, ?_⟩
  rw [tree]
  apply Program.holds_read
  intro u moved' inv'
  refine ⟨_, exec_searchQuery plain (fits u inv').photos, ?_⟩
  have found := evicted.2 u moved' inv'
  cases row : u.photo pid with
  | none =>
    rw [Option.map_none, Option.toList_none, missing]
    exact found.1 row
  | some info =>
    rw [Option.map_some, Option.toList_some, present]
    exact deleteRow_holds plain fits (found.2 info row)

theorem onDelete_any_holds (fits : ∀ t, d.invariant t → t.Fits schema)
    (plain : ∀ t q info, d.invariant t → t.photo q = some info → Plain q)
    (evict : d.Onward s (fun t => d.Keeps t (t.setRedis server pid none) ∧
      d.Onward (t.setRedis server pid none) (fun u =>
        d.Onward u (post (.error .invalidQuery)) ∧
        d.Onward u (post (.ok (.result 404 "No such image."))) ∧
        ∀ q info, u.photo q = some info → d.Onward u (fun v => d.Keeps v (v.setPhoto q none) ∧
          d.Onward (v.setPhoto q none) (post (.ok (.result 200 "Image deleted."))))))) :
    (onDelete server pid).Holds d exec post s := by
  obtain ⟨next, tree, missing, present⟩ := searchRow_eq pid
  apply onDelete_evicted_holds
  intro t moved inv
  have evicted := evict t moved inv
  refine ⟨evicted.1, ?_⟩
  rw [tree]
  intro u moved' inv'
  have found := evicted.2 u moved' inv'
  rcases exec_searchQuery_any pid u with refused | ⟨rows, answer, known⟩
  · rw [refused]
    exact found.1
  · rw [answer]
    refine ⟨⟨inv', d.still u⟩, ?_⟩
    cases rows with
    | nil =>
      rw [missing]
      exact found.2.1
    | cons row rows =>
      obtain ⟨q, info, there, rfl⟩ := known row List.mem_cons_self
      rw [present]
      exact deleteRow_holds (plain u q info inv' there) fits (found.2.2 q info there)

/-- The row an upload writes: the volume and the cache server it selects. -/
def placement (config : HSConfig) (table : StoreInfo) (tmpPid : Int64) :
    Except Exception PhotoInfo := do
  let selectedLvid ← selectLvid table.writable tmpPid config.numLogicalVolumes
  let selectedCacheUrl ← selectCacheUrl config tmpPid
  return ⟨selectedCacheUrl, selectedLvid⟩

def sendImage (tmpPid : Int64) (bound : Statement) : Handler Resp :=
  .call (.executeBound .store bound) (fun _ => .done (.json 201 (toString tmpPid)))

def prepareImage (tmpPid : Int64) (info : PhotoInfo) (fileBytes : Bytes) : Handler Resp :=
  .call (.prepare .store (insertImage info.lvid)) (fun ps =>
    (Program.lift (answerOr .illegalArgument
      ((ps.set "pid" (.text (toString tmpPid))).bind
        (Statement.set "image" (.blob fileBytes))))).bind
      (sendImage tmpPid))

def storeImage (tmpPid : Int64) (info : PhotoInfo) (fileBytes : Bytes) : Handler Resp :=
  .call (.execute .directory insertQuery
    [.text (toString tmpPid), .text info.cacheUrl, .int info.lvid])
    (fun _ => prepareImage tmpPid info fileBytes)

theorem onPostImage_none (config : HSConfig) (tmpPid : Int64) :
    onPostImage config none tmpPid = .done (.json 201 "") := rfl

theorem onPostImage_eq (config : HSConfig) (fileBytes : Bytes) (tmpPid : Int64) : ∃ next,
    onPostImage config (some fileBytes) tmpPid = .call (.execute .directory lvidQuery []) next ∧
      ∀ table : StoreInfo, next table.writable = (Program.lift (placement config table tmpPid)).bind
        (fun info => storeImage tmpPid info fileBytes) := by
  simp only [onPostImage, dirSession, execute_bind]
  refine ⟨_, rfl, ?_⟩
  intro table
  unfold placement
  cases selected : selectLvid table.writable tmpPid config.numLogicalVolumes with
  | error e => rfl
  | ok lvid =>
    cases address : selectCacheUrl config tmpPid with
    | error e => rfl
    | ok url => rfl

def Usable (schema : Schema) (info : PhotoInfo) : Prop :=
  0 ≤ info.lvid.toInt ∧ lv info.lvid ∈ schema.volumes

theorem storeImage_holds {tmpPid : Int64} {info : PhotoInfo} {fileBytes : Bytes}
    (fits : ∀ t, d.invariant t → t.Fits schema)
    (entered : d.Onward s (fun t => d.Keeps t (t.setPhoto (toString tmpPid) (some info)) ∧
      d.Onward (t.setPhoto (toString tmpPid) (some info)) (fun u =>
        (¬ Usable schema info → d.Onward u (post (.error .invalidQuery))) ∧
        (Usable schema info →
          d.Keeps u (u.setImage (lv info.lvid) (toString tmpPid) (some fileBytes)) ∧
          d.Onward (u.setImage (lv info.lvid) (toString tmpPid) (some fileBytes))
            (post (.ok (.json 201 (toString tmpPid)))))))) :
    (storeImage tmpPid info fileBytes).Holds d exec post s := by
  apply Program.holds_call
  intro t moved inv
  have inserted := entered t moved inv
  refine ⟨_, [], exec_insertQuery info.cacheUrl info.lvid (fits t inv).photos, inserted.1, ?_⟩
  by_cases writable : Usable schema info
  · apply Program.holds_read
    intro u moved' inv'
    have created : ∀ w, d.invariant w → w.HasVolume (lv info.lvid) :=
      fun w hw => ((fits w hw).volumes _).mpr writable.2
    refine ⟨_, exec_prepare_insertImage writable.1 (created u inv'), ?_⟩
    rw [bind_imageStatement]
    apply Program.holds_call
    intro v moved'' inv''
    have stored := (inserted.2 v (d.trans moved' moved'') inv'').2 writable
    exact ⟨_, [], exec_imageInsert info.lvid fileBytes (created v inv''), stored.1, stored.2⟩
  · refine Program.holds_refused (e := .invalidQuery) ?_ ?_
    · intro u moved' inv'
      apply exec_prepare_refused
      exact fun good => writable ⟨good.1, ((fits u inv').volumes _).mp good.2⟩
    · intro u moved' inv'
      exact (inserted.2 u moved' inv').1 writable u (d.refl u) inv'

theorem onPostImage_holds {config : HSConfig} {upfile : Option Bytes} {tmpPid : Int64}
    (fits : ∀ t, d.invariant t → t.Fits schema)
    (nofile : upfile = none → d.Onward s (post (.ok (.json 201 ""))))
    (refused : ∀ e, upfile ≠ none → placement config schema.table tmpPid = .error e →
      d.Onward s (post (.error e)))
    (placed : ∀ info fileBytes, upfile = some fileBytes →
      placement config schema.table tmpPid = .ok info →
      d.Onward s (fun t => (storeImage tmpPid info fileBytes).Holds d exec post t)) :
    (onPostImage config upfile tmpPid).Holds d exec post s := by
  cases upfile with
  | none =>
    rw [onPostImage_none]
    exact nofile rfl
  | some fileBytes =>
    obtain ⟨next, tree, continued⟩ := onPostImage_eq config fileBytes tmpPid
    rw [tree]
    apply Program.holds_read
    intro t moved inv
    refine ⟨_, exec_lvidQuery schema.table (fits t inv).storeInfo, ?_⟩
    rw [continued]
    cases chosen : placement config schema.table tmpPid with
    | error e =>
      change (Program.throw e).Holds d exec post t
      exact (refused e (by simp) chosen).later moved
    | ok info =>
      change (storeImage tmpPid info fileBytes).Holds d exec post t
      exact placed info fileBytes rfl chosen t moved inv

end WebServer

namespace CacheServer

variable {d : Discipline World} {post : Except Exception Resp → World → Prop} {s : World}
  {schema : Schema} {charset : Charset} {server : Nat} {lvid pid : String}

/-- The handler of /get between reading the image and answering. -/
def getAnswer (charset : Charset) (server : Nat) (pid : String) : Option Bytes → Handler Resp
  | none => .done (.status 404)
  | some b => .call (.binarySet server (charset.getBytes pid) b) (fun _ => .done (.image pid b))

def getRows (charset : Charset) (server : Nat) (pid : String) (results : List Row) : Handler Resp :=
  match results.head? with
  | none => return .status 404
  | some row => do
    let imageBuffer ← Program.lift (row.getBytes "image")
    binarySet server (charset.getBytes pid) imageBuffer
    return .image pid imageBuffer

def getMiss (charset : Charset) (server : Nat) (lvid pid : String) : Handler Resp := do
  let ps ← session.prepare (selectImage lvid)
  let bound ← Program.lift (answerOr .illegalArgument (ps.set "pid" (.text pid)))
  let results ← session.executeBound bound
  getRows charset server pid results

theorem get_eq (charset : Charset) (server : Nat) (named : lvid ≠ "" ∧ pid ≠ "") : ∃ next,
    get charset server lvid pid = .call (.binaryGet server (charset.getBytes pid)) next ∧
      ∀ m : Option Bytes, next m =
        m.elim (getMiss charset server lvid pid) (fun b => .done (.image pid b)) := by
  unfold get
  rw [if_neg (by tauto), binaryGet_bind]
  refine ⟨_, rfl, ?_⟩
  intro m
  cases m <;> rfl

theorem getRows_eq (charset : Charset) (server : Nat) (pid : String) (m : Option Bytes) :
    getRows charset server pid ((m.map (imageRow pid)).toList) =
      getAnswer charset server pid m := by
  cases m <;> rfl

theorem getMiss_eq (charset : Charset) (server : Nat) (lvid pid : String) : ∃ next,
    getMiss charset server lvid pid = .call (.prepare .store (selectImage lvid)) next ∧
      ∀ table, next (lookupStatement table) =
        .call (.executeBound .store (lookup table pid)) (getRows charset server pid) := by
  unfold getMiss
  simp only [session, prepare_bind]
  refine ⟨_, rfl, ?_⟩
  intro table
  simp only [bind_lookupStatement, answerOr, Program.lift_ok, Program.bind_done, executeBound_bind]

theorem get_holds (word : Wordlike lvid) (fits : ∀ t, d.invariant t → t.Fits schema)
    (empty : lvid = "" ∨ pid = "" → d.Onward s (post (.ok (.result 400 "error"))))
    (hit : lvid ≠ "" ∧ pid ≠ "" → d.Onward s (fun t => ∀ b,
      t.imageCache server (charset.getBytes pid) = some b → d.Onward t (post (.ok (.image pid b)))))
    (unknown : lvid ≠ "" ∧ pid ≠ "" → "lv" ++ lowered lvid ∉ schema.volumes →
      d.Onward s (fun t => t.imageCache server (charset.getBytes pid) = none →
        d.Onward t (post (.error .invalidQuery))))
    (absent : lvid ≠ "" ∧ pid ≠ "" → "lv" ++ lowered lvid ∈ schema.volumes →
      d.Onward s (fun t => t.image ("lv" ++ lowered lvid) pid = none →
        d.Onward t (post (.ok (.status 404)))))
    (fill : lvid ≠ "" ∧ pid ≠ "" → "lv" ++ lowered lvid ∈ schema.volumes →
      d.Onward s (fun t => ∀ b, t.image ("lv" ++ lowered lvid) pid = some b → d.Onward t (fun u =>
        d.Keeps u (u.setCached server (charset.getBytes pid) (some b)) ∧
          d.Onward (u.setCached server (charset.getBytes pid) (some b))
            (post (.ok (.image pid b)))))) :
    (get charset server lvid pid).Holds d exec post s := by
  by_cases named : lvid ≠ "" ∧ pid ≠ ""
  swap
  · have blank : lvid = "" ∨ pid = "" := by tauto
    unfold get
    rw [if_pos blank]
    exact empty blank
  obtain ⟨next, tree, continued⟩ := get_eq charset server named
  obtain ⟨next', tree', prepared⟩ := getMiss_eq charset server lvid pid
  rw [tree]
  apply Program.holds_read
  intro t moved inv
  refine ⟨t.imageCache server (charset.getBytes pid), rfl, ?_⟩
  rw [continued]
  cases found : t.imageCache server (charset.getBytes pid) with
  | some b => exact hit named t moved inv b found
  | none =>
    rw [Option.elim_none, tree']
    by_cases existing : "lv" ++ lowered lvid ∈ schema.volumes
    · have created : ∀ u, d.invariant u → u.HasVolume ("lv" ++ lowered lvid) :=
        fun u hu => ((fits u hu).volumes _).mpr existing
      apply Program.holds_read
      intro u moved₁ inv₁
      refine ⟨lookupStatement ("lv" ++ lowered lvid), ?_, ?_⟩
      · rw [exec_prepare_selectImage word, if_pos (created u inv₁)]
      rw [prepared]
      apply Program.holds_read
      intro v moved₂ inv₂
      refine ⟨_, exec_lookup _ (created v inv₂), ?_⟩
      rw [getRows_eq]
      have later := d.trans moved (d.trans moved₁ moved₂)
      cases stored : v.image ("lv" ++ lowered lvid) pid with
      | none => exact absent named existing v later inv₂ stored
      | some b =>
        apply Program.holds_call
        intro w moved₃ inv₃
        have filled := fill named existing v later inv₂ b stored w moved₃ inv₃
        exact ⟨_, (), rfl, filled.1, filled.2⟩
    · refine Program.holds_refused (e := .invalidQuery) ?_ ?_
      · intro u moved₁ inv₁
        rw [exec_prepare_selectImage word, if_neg]
        exact fun created => existing (((fits u inv₁).volumes _).mp created)
      · exact unknown named existing t moved inv found

theorem delete_eq (charset : Charset) (server : Nat) (pid : String) : ∃ next,
    delete charset server pid = .call (.binaryDel server (charset.getBytes pid))
      (fun _ => .call (.execute .store (searchPhoto pid) []) next) := by
  simp only [delete, session, binaryDel_bind, execute_bind]
  exact ⟨_, rfl⟩

theorem delete_holds (fits : ∀ t, d.invariant t → t.Fits schema) (absent : "photo" ∉ schema.volumes)
    (evict : d.Onward s (fun t => d.Keeps t (t.setCached server (charset.getBytes pid) none) ∧
      d.Onward (t.setCached server (charset.getBytes pid) none) (post (.error .invalidQuery)))) :
    (delete charset server pid).Holds d exec post s := by
  obtain ⟨next, tree⟩ := delete_eq charset server pid
  rw [tree]
  apply Program.holds_call
  intro t moved inv
  have evicted := evict t moved inv
  refine ⟨_, (), rfl, evicted.1, ?_⟩
  refine Program.holds_refused (e := .invalidQuery) ?_ evicted.2
  intro u moved₁ inv₁
  apply exec_searchPhoto
  have missing : ¬ u.HasVolume "photo" := fun h => absent (((fits u inv₁).volumes _).mp h)
  simpa [World.HasVolume] using missing

end CacheServer

end Haystack
