import Haystack.System

/-! What each handler does when nothing else runs in the meantime, as one
equation for its reply and the state it leaves. -/
namespace Haystack

open Calls Cql Java

variable {schema : Schema} {s : World} {server : Nat} {pid : String}

namespace WebServer

theorem onCacheMiss_reads {key : String} (server : Nat)
    (text : Statement.ofText (selectPhoto pid) =
      some (.select none "photo_info" [.eq "pid" (.value (.text key))] false))
    (photos : s.HasPhotos) :
    (onCacheMiss server pid).run exec s = match s.photo key with
      | none => (s, .ok (.result 404 "PID does not exist."))
      | some info =>
        (s.setRedis server pid (some (info.path key)), .ok (.redirect (info.path key))) := by
  obtain ⟨next, tree, missing, present⟩ := onCacheMiss_rows server pid
  rw [tree, Program.run_call_ok exec (exec_photoSelect text (.inl rfl) photos)]
  cases s.photo key with
  | none =>
    rw [Option.map_none, Option.toList_none, missing]
    rfl
  | some info =>
    rw [Option.map_some, Option.toList_some, present]
    rfl

theorem onCacheMiss_run (plain : Plain pid) (photos : s.HasPhotos) :
    (onCacheMiss server pid).run exec s = match s.photo pid with
      | none => (s, .ok (.result 404 "PID does not exist."))
      | some info =>
        (s.setRedis server pid (some (info.path pid)), .ok (.redirect (info.path pid))) :=
  onCacheMiss_reads server (ofText_selectPhoto plain) photos

theorem onGetImage_run (named : pid ≠ "") :
    (onGetImage server pid).run exec s = match usable (s.redis server pid) with
      | some url => (s, .ok (.redirect url))
      | none => (onCacheMiss server pid).run exec s := by
  obtain ⟨next, tree, continued⟩ := onGetImage_eq server named
  rw [tree, Program.run_call_ok exec (r := s.redis server pid) rfl, continued]
  cases usable (s.redis server pid) <;> rfl

theorem onDelete_reads {key : String} (server : Nat)
    (text : Statement.ofText (searchQuery pid) = some (.select (some ["pid", "cache_url", "lvid"])
      "photo_info" [.eq "pid" (.value (.text key))] false)) (plain : Plain key)
    (photos : s.HasPhotos) :
    (onDelete server pid).run exec s = match s.photo key with
      | none => (s.setRedis server pid none, .ok (.result 404 "No such image."))
      | some _ =>
        ((s.setRedis server pid none).setPhoto key none, .ok (.result 200 "Image deleted.")) := by
  obtain ⟨next, tree, missing, present⟩ := searchRow_eq pid
  have evicted : (s.setRedis server pid none).HasPhotos := photos
  rw [onDelete_eq, Program.run_call_ok exec (r := ()) (t := s.setRedis server pid none) rfl, tree,
    Program.run_call_ok exec (exec_photoSelect text (.inr rfl) evicted), World.photo_setRedis]
  cases s.photo key with
  | none =>
    rw [Option.map_none, Option.toList_none, missing]
    rfl
  | some info =>
    rw [Option.map_some, Option.toList_some, present, deleteRow,
      Program.run_call_ok exec (exec_delQuery plain evicted)]
    rfl

theorem onDelete_run (server : Nat) (plain : Plain pid) (photos : s.HasPhotos) :
    (onDelete server pid).run exec s = match s.photo pid with
      | none => (s.setRedis server pid none, .ok (.result 404 "No such image."))
      | some _ =>
        ((s.setRedis server pid none).setPhoto pid none, .ok (.result 200 "Image deleted.")) :=
  onDelete_reads server (ofText_searchQuery plain) plain photos

theorem storeImage_run {tmpPid : Int64} {info : PhotoInfo} {fileBytes : Bytes}
    (fits : s.Fits schema) [Decidable (Usable schema info)] :
    (storeImage tmpPid info fileBytes).run exec s =
      if Usable schema info then
        ((s.setPhoto (toString tmpPid) (some info)).setImage (lv info.lvid) (toString tmpPid)
          (some fileBytes), .ok (.json 201 (toString tmpPid)))
      else (s.setPhoto (toString tmpPid) (some info), .error .invalidQuery) := by
  rw [storeImage, Program.run_call_ok exec (exec_insertQuery info.cacheUrl info.lvid fits.photos),
    prepareImage]
  have later := fits.setPhoto (toString tmpPid) (some info)
  split
  · rename_i usable
    have created := (later.volumes _).mpr usable.2
    rw [Program.run_call_ok exec (exec_prepare_insertImage usable.1 created), bind_imageStatement]
    exact Program.run_call_ok exec (exec_imageInsert info.lvid fileBytes created)
  · rename_i unusable
    apply Program.run_call_error
    apply exec_prepare_refused
    exact fun good => unusable ⟨good.1, (later.volumes _).mp good.2⟩

theorem onPostImage_run {config : HSConfig} {tmpPid : Int64} {fileBytes : Bytes}
    (fits : s.Fits schema) :
    (onPostImage config (some fileBytes) tmpPid).run exec s =
      match placement config schema.table tmpPid with
      | .error e => (s, .error e)
      | .ok info => (storeImage tmpPid info fileBytes).run exec s := by
  obtain ⟨next, tree, continued⟩ := onPostImage_eq config fileBytes tmpPid
  rw [tree, Program.run_call_ok exec (exec_lvidQuery schema.table fits.storeInfo), continued]
  cases placement config schema.table tmpPid <;> rfl

theorem onPostImage_stored {config : HSConfig} {tmpPid : Int64} {fileBytes : Bytes}
    {info : PhotoInfo}
    (fits : s.Fits schema) (placed : placement config schema.table tmpPid = .ok info)
    (good : Usable schema info) :
    (onPostImage config (some fileBytes) tmpPid).run exec s =
      ((s.setPhoto (toString tmpPid) (some info)).setImage (lv info.lvid) (toString tmpPid)
        (some fileBytes), .ok (.json 201 (toString tmpPid))) := by
  classical
  rw [onPostImage_run fits, placed]
  dsimp only
  rw [storeImage_run fits, if_pos good]

end WebServer

namespace CacheServer

variable {charset : Charset} {lvid : String}

theorem get_run (word : Wordlike lvid) (named : lvid ≠ "" ∧ pid ≠ "") :
    (get charset server lvid pid).run exec s =
      match s.imageCache server (charset.getBytes pid) with
      | some b => (s, .ok (.image pid b))
      | none =>
        if s.HasVolume ("lv" ++ lowered lvid) then
          match s.image ("lv" ++ lowered lvid) pid with
          | none => (s, .ok (.status 404))
          | some b => (s.setCached server (charset.getBytes pid) (some b), .ok (.image pid b))
        else (s, .error .invalidQuery) := by
  obtain ⟨next, tree, continued⟩ := get_eq charset server named
  obtain ⟨next', tree', prepared⟩ := getMiss_eq charset server lvid pid
  rw [tree,
    Program.run_call_ok exec (r := s.imageCache server (charset.getBytes pid)) rfl, continued]
  cases s.imageCache server (charset.getBytes pid) with
  | some b => rfl
  | none =>
    rw [Option.elim_none, tree']
    have answer := exec_prepare_selectImage (s := s) word
    by_cases created : s.HasVolume ("lv" ++ lowered lvid)
    · rw [if_pos created] at answer
      rw [Program.run_call_ok exec answer, prepared,
        Program.run_call_ok exec (exec_lookup _ created), getRows_eq]
      cases s.image ("lv" ++ lowered lvid) pid <;> simp [created] <;> rfl
    · rw [if_neg created] at answer
      simpa [created] using Program.run_call_error exec answer

end CacheServer

/-- All that a request run alone can do and answer. -/
inductive Served (config : HSConfig) (charset : Charset) (schema : Schema) (s : World) :
    Request → World → Except Exception Resp → Prop where
  | noFile {w : Nat} {t : Int64} :
      Served config charset schema s (.upload w none t) s (.ok (.json 201 ""))
  | unplaced {w : Nat} {b : Bytes} {t : Int64} {e : Exception} :
      WebServer.placement config schema.table t = .error e →
      Served config charset schema s (.upload w (some b) t) s (.error e)
  | stranded {w : Nat} {b : Bytes} {t : Int64} {info : PhotoInfo} :
      WebServer.placement config schema.table t = .ok info → ¬ WebServer.Usable schema info →
      Served config charset schema s (.upload w (some b) t) (s.setPhoto (toString t) (some info))
        (.error .invalidQuery)
  | stored {w : Nat} {b : Bytes} {t : Int64} {info : PhotoInfo} :
      WebServer.placement config schema.table t = .ok info → WebServer.Usable schema info →
      Served config charset schema s (.upload w (some b) t)
        ((s.setPhoto (toString t) (some info)).setImage (lv info.lvid) (toString t) (some b))
        (.ok (.json 201 (toString t)))
  | blank {w : Nat} :
      Served config charset schema s (.webGet w "") s (.ok (.result 400 "Bad request: empty pid."))
  | hit {w : Nat} {pid url : String} : pid ≠ "" → WebServer.usable (s.redis w pid) = some url →
      Served config charset schema s (.webGet w pid) s (.ok (.redirect url))
  | absent {w : Nat} {pid : String} : pid ≠ "" → WebServer.usable (s.redis w pid) = none →
      s.photo pid = none →
      Served config charset schema s (.webGet w pid) s (.ok (.result 404 "PID does not exist."))
  | fill {w : Nat} {pid : String} {info : PhotoInfo} : pid ≠ "" →
      WebServer.usable (s.redis w pid) = none → s.photo pid = some info →
      Served config charset schema s (.webGet w pid) (s.setRedis w pid (some (info.path pid)))
        (.ok (.redirect (info.path pid)))
  | missing {w : Nat} {pid : String} : s.photo pid = none →
      Served config charset schema s (.webDelete w pid) (s.setRedis w pid none)
        (.ok (.result 404 "No such image."))
  | deleted {w : Nat} {pid : String} {info : PhotoInfo} : s.photo pid = some info →
      Served config charset schema s (.webDelete w pid)
        ((s.setRedis w pid none).setPhoto pid none) (.ok (.result 200 "Image deleted."))
  | unnamed {w : Nat} {lvid pid : String} : lvid = "" ∨ pid = "" →
      Served config charset schema s (.cacheGet w lvid pid) s (.ok (.result 400 "error"))
  | cached {w : Nat} {lvid pid : String} {b : Bytes} : lvid ≠ "" ∧ pid ≠ "" →
      s.imageCache w (charset.getBytes pid) = some b →
      Served config charset schema s (.cacheGet w lvid pid) s (.ok (.image pid b))
  | noVolume {w : Nat} {lvid pid : String} : lvid ≠ "" ∧ pid ≠ "" →
      s.imageCache w (charset.getBytes pid) = none → "lv" ++ lowered lvid ∉ schema.volumes →
      Served config charset schema s (.cacheGet w lvid pid) s (.error .invalidQuery)
  | noImage {w : Nat} {lvid pid : String} : lvid ≠ "" ∧ pid ≠ "" →
      s.imageCache w (charset.getBytes pid) = none → "lv" ++ lowered lvid ∈ schema.volumes →
      s.image ("lv" ++ lowered lvid) pid = none →
      Served config charset schema s (.cacheGet w lvid pid) s (.ok (.status 404))
  | load {w : Nat} {lvid pid : String} {b : Bytes} : lvid ≠ "" ∧ pid ≠ "" →
      s.imageCache w (charset.getBytes pid) = none → "lv" ++ lowered lvid ∈ schema.volumes →
      s.image ("lv" ++ lowered lvid) pid = some b →
      Served config charset schema s (.cacheGet w lvid pid)
        (s.setCached w (charset.getBytes pid) (some b)) (.ok (.image pid b))

section Served

variable {config : HSConfig} {charset : Charset} {q : Request}

theorem onPostImage_served {w : Nat} {img : Option Bytes} {t : Int64} (fits : s.Fits schema) :
    Served config charset schema s (.upload w img t)
      ((WebServer.onPostImage config img t).run exec s).1
      ((WebServer.onPostImage config img t).run exec s).2 := by
  classical
  cases img with
  | none => exact .noFile
  | some b =>
    rw [WebServer.onPostImage_run fits]
    cases placed : WebServer.placement config schema.table t with
    | error e => exact .unplaced placed
    | ok info =>
      dsimp only
      rw [WebServer.storeImage_run fits]
      split
      · rename_i usable
        exact .stored placed usable
      · rename_i unusable
        exact .stranded placed unusable

theorem onGetImage_served {w : Nat} (plain : Plain pid) (fits : s.Fits schema) :
    Served config charset schema s (.webGet w pid) ((WebServer.onGetImage w pid).run exec s).1
      ((WebServer.onGetImage w pid).run exec s).2 := by
  by_cases named : pid = ""
  · subst named
    exact .blank
  · rw [WebServer.onGetImage_run named]
    cases entry : WebServer.usable (s.redis w pid) with
    | some url => exact .hit named entry
    | none =>
      dsimp only
      rw [WebServer.onCacheMiss_run plain fits.photos]
      cases row : s.photo pid with
      | none => exact .absent named entry row
      | some info => exact .fill named entry row

theorem onDelete_served {w : Nat} (plain : Plain pid) (fits : s.Fits schema) :
    Served config charset schema s (.webDelete w pid) ((WebServer.onDelete w pid).run exec s).1
      ((WebServer.onDelete w pid).run exec s).2 := by
  rw [WebServer.onDelete_run w plain fits.photos]
  cases row : s.photo pid with
  | none => exact .missing row
  | some info => exact .deleted row

theorem get_served {w : Nat} {lvid : String} (word : Wordlike lvid) (fits : s.Fits schema) :
    Served config charset schema s (.cacheGet w lvid pid)
      ((CacheServer.get charset w lvid pid).run exec s).1
      ((CacheServer.get charset w lvid pid).run exec s).2 := by
  by_cases named : lvid ≠ "" ∧ pid ≠ ""
  swap
  · have blank : lvid = "" ∨ pid = "" := by tauto
    simp only [CacheServer.get, if_pos blank]
    exact .unnamed blank
  rw [CacheServer.get_run word named]
  cases entry : s.imageCache w (charset.getBytes pid) with
  | some b => exact .cached named entry
  | none =>
    dsimp only
    split
    · rename_i created
      have listed := (fits.volumes _).mp created
      cases stored : s.image ("lv" ++ lowered lvid) pid with
      | none => exact .noImage named entry listed stored
      | some b => exact .load named entry listed stored
    · rename_i absent
      exact .noVolume named entry (fun listed => absent ((fits.volumes _).mpr listed))

theorem handler_served (config : HSConfig) (charset : Charset) (clean : q.Clean)
    (fits : s.Fits schema) :
    Served config charset schema s q ((handler config charset q).run exec s).1
      ((handler config charset q).run exec s).2 := by
  cases q with
  | upload w img t => exact onPostImage_served fits
  | webGet w pid => exact onGetImage_served clean fits
  | webDelete w pid => exact onDelete_served clean fits
  | cacheGet w lvid pid => exact get_served clean fits
  | cacheDelete w pid => exact clean.elim

theorem Served.fits {t : World} {r : Except Exception Resp}
    (served : Served config charset schema s q t r) (fits : s.Fits schema) : t.Fits schema := by
  cases served with
  | noFile => exact fits
  | unplaced => exact fits
  | stranded => exact fits.setPhoto _ _
  | stored => exact (fits.setPhoto _ _).setImage _ _ _
  | blank => exact fits
  | hit => exact fits
  | absent => exact fits
  | fill => exact fits.setRedis _ _ _
  | missing => exact fits.setRedis _ _ _
  | deleted => exact (fits.setRedis _ _ _).setPhoto _ _
  | unnamed => exact fits
  | cached => exact fits
  | noVolume => exact fits
  | noImage => exact fits
  | load => exact fits.setCached _ _ _

end Served

section Shipped

def World.shippedPhoto (b : Bytes) : World :=
  (World.shipped.setPhoto "7" (some ⟨"unix5.andrew.cmu.edu:9876", 2⟩)).setImage "lv2" "7" (some b)

theorem World.fits_shipped :
    World.shipped.Fits (World.shipped.schema ⟨[(1, 1), (2, 1)], by decide⟩) :=
  World.fits_schema World.ready_shipped.photos World.ready_shipped.storeInfo

variable (b : Bytes)

theorem upload_shipped : (WebServer.onPostImage .shipped (some b) 7).run exec .shipped =
    (World.shippedPhoto b, .ok (.json 201 "7")) := by
  have placed : WebServer.placement .shipped ⟨[(1, 1), (2, 1)], by decide⟩ 7 =
      .ok ⟨"unix5.andrew.cmu.edu:9876", 2⟩ := rfl
  exact WebServer.onPostImage_stored World.fits_shipped placed
    ⟨by decide, World.ready_shipped.volumes 2 (by decide) (by decide)⟩

theorem World.shippedPhoto_fits :
    (World.shippedPhoto b).Fits (World.shipped.schema ⟨[(1, 1), (2, 1)], by decide⟩) :=
  (World.fits_shipped.setPhoto _ _).setImage _ _ _

theorem World.shippedPhoto_photo (pid : String) : (World.shippedPhoto b).photo pid =
    if pid = "7" then some ⟨"unix5.andrew.cmu.edu:9876", 2⟩ else none :=
  World.photo_setPhoto World.ready_shipped.photos "7" pid _

theorem World.shippedPhoto_image : (World.shippedPhoto b).image "lv2" "7" = some b := by
  rw [World.shippedPhoto, World.image_setImage _ _ _ _ (by decide), if_pos ⟨rfl, rfl⟩]

theorem get_shipped (w : Nat) : (WebServer.onGetImage w "7").run exec (World.shippedPhoto b) =
    ((World.shippedPhoto b).setRedis w "7"
      (some "http://unix5.andrew.cmu.edu:9876/get?lvid=2&pid=7"),
      .ok (.redirect "http://unix5.andrew.cmu.edu:9876/get?lvid=2&pid=7")) := by
  have empty : (World.shippedPhoto b).redis w "7" = none := rfl
  have missed : WebServer.usable none = none := rfl
  rw [WebServer.onGetImage_run (by decide), empty, missed]
  dsimp only
  rw [WebServer.onCacheMiss_run (by decide) (World.shippedPhoto_fits b).photos,
    World.shippedPhoto_photo, if_pos rfl]
  rfl

theorem load_shipped (w : Nat) :
    (CacheServer.get .utf8 w "2" "7").run exec (World.shippedPhoto b) =
      ((World.shippedPhoto b).setCached w (Charset.utf8.getBytes "7") (some b),
        .ok (.image "7" b)) := by
  have volume : "lv" ++ lowered "2" = "lv2" := by decide
  have created : (World.shippedPhoto b).HasVolume "lv2" := by
    rw [World.shippedPhoto, World.hasVolume_setImage]
    decide
  have empty : (World.shippedPhoto b).imageCache w (Charset.utf8.getBytes "7") = none := rfl
  rw [CacheServer.get_run (by decide) (by decide), empty, volume]
  dsimp only
  rw [if_pos created, World.shippedPhoto_image]

end Shipped

end Haystack
