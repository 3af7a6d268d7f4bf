import Haystack.LvidText

/-! What a delete of the web servers leaves behind when requests are handled one at
a time: the image in its volume, and the entries in the redis of the other servers. -/
namespace Haystack

open Calls Cql Java

/-- Uploads, gets and web deletes, without a quote in a pid that a web server gets. The texts that a
cache server gets are arbitrary. -/
def Request.Unquoted : Request → Prop
  | .webGet _ pid => Plain pid
  | .webDelete _ pid => Plain pid
  | .cacheDelete _ _ => False
  | _ => True

instance : DecidablePred Request.Unquoted
  | .upload _ _ _ => inferInstanceAs (Decidable True)
  | .webGet _ pid => inferInstanceAs (Decidable (Plain pid))
  | .webDelete _ pid => inferInstanceAs (Decidable (Plain pid))
  | .cacheGet _ _ _ => inferInstanceAs (Decidable True)
  | .cacheDelete _ _ => inferInstanceAs (Decidable False)

theorem Request.Clean.unquoted {q : Request} (clean : q.Clean) : q.Unquoted := by
  cases q with
  | upload server img t => trivial
  | webGet server pid => exact clean
  | webDelete server pid => exact clean
  | cacheGet server lvid pid => trivial
  | cacheDelete server pid => exact clean

section Frame

variable {s t : World}

/-- The states differ in the redis of cache servers at most. -/
def OnlyCached (s t : World) : Prop := ∃ cache, t = { s with imageCache := cache }

theorem exec_prepare_some {session : Session} {query : String} {st : Statement}
    (answer : exec (.prepare session query) s = .ok (t, st)) :
    t = s ∧ Statement.ofText query = some st := by
  cases text : Statement.ofText query with
  | none => cases (exec_prepare_none text s).symm.trans answer
  | some found =>
    rw [exec_prepare text] at answer
    split at answer
    · cases answer
      exact ⟨rfl, rfl⟩
    · cases answer

theorem CacheServer.selectImage_reads {lvid : String} {st : Statement}
    (text : Statement.ofText (selectImage lvid) = some st) : st.writes = false := by
  rcases read_selectImage (Statement.read_of_ofText text) with ⟨_, _, _, rfl⟩ | ⟨_, _, rfl, -⟩
  · rfl
  · rfl

theorem get_onlyCached (charset : Charset) (server : Nat) (lvid pid : String) :
    (CacheServer.get charset server lvid pid).Holds (.ofInvariant (OnlyCached s)) exec
      (fun _ _ => True) t := by
  by_cases named : lvid ≠ "" ∧ pid ≠ ""
  swap
  · have blank : lvid = "" ∨ pid = "" := by tauto
    unfold CacheServer.get
    rw [if_pos blank]
    exact fun _ _ _ => trivial
  obtain ⟨next, tree, continued⟩ := CacheServer.get_eq charset server named
  rw [tree]
  refine Program.holds_kept (fun u v m same answer => ?_)
  cases answer
  refine ⟨same, ?_⟩
  rw [continued]
  cases u.imageCache server (charset.getBytes pid) with
  | some b => exact fun _ _ _ => trivial
  | none =>
    rw [Option.elim_none, CacheServer.getMiss_tree]
    refine Program.holds_kept (fun u v ps same answer => ?_)
    obtain ⟨rfl, text⟩ := exec_prepare_some answer
    refine ⟨same, Program.holds_lift _ _ (fun bound binding => ?_)⟩
    refine Program.holds_kept (fun u v rows same answer => ?_)
    have reads : bound.writes = false :=
      (Statement.writes_set (answerOr_ok binding)).trans (CacheServer.selectImage_reads text)
    cases executeStore_reads reads answer
    refine ⟨same, ?_⟩
    unfold CacheServer.getRows
    cases rows.head? with
    | none => exact fun _ _ _ => trivial
    | some row =>
      refine Program.holds_lift _ _ (fun image _ => ?_)
      refine Program.holds_kept (fun u v _ same answer => ⟨?_, fun _ _ _ => trivial⟩)
      cases answer
      obtain ⟨cache, rfl⟩ := same
      exact ⟨_, rfl⟩

theorem unquoted_cases (config : HSConfig) (charset : Charset) {q : Request}
    (unquoted : q.Unquoted) (s : World) :
    q.Clean ∨ OnlyCached s ((handler config charset q).run exec s).1 := by
  cases q with
  | upload server img t => exact .inl trivial
  | webGet server pid => exact .inl unquoted
  | webDelete server pid => exact .inl unquoted
  | cacheGet server lvid pid =>
    exact .inr ((get_onlyCached charset server lvid pid).run ⟨s.imageCache, rfl⟩).1
  | cacheDelete server pid => exact unquoted.elim

end Frame

/-- The backends between two requests. Every row was uploaded and has its image, and
every redis entry is the URL of some row for its pid. -/
structure Settled (schema : Schema) (rs : List Request) (s : World) : Prop where
  fits : s.Fits schema
  uploaded : ∀ pid info, s.photo pid = some info → ∃ t ∈ readings rs, pid = toString t
  stored : ∀ pid info, s.photo pid = some info →
    0 ≤ info.lvid.toInt ∧ (s.image (lv info.lvid) pid).isSome
  urls : ∀ server pid url, s.redis server pid = some url → ∃ info : PhotoInfo, url = info.path pid

section Settled

variable {config : HSConfig} {charset : Charset} {schema : Schema} {rs : List Request} {q : Request}
  {s t : World} {r : Except Exception Resp} {pid : String} {w : Nat}

def Schema.Writable (config : HSConfig) (schema : Schema) : Prop :=
  ∀ t info, WebServer.placement config schema.table t = .ok info → WebServer.Usable schema info

theorem World.Ready.writable (config : HSConfig) {table : StoreInfo} {n : Int32}
    (ready : s.Ready n table) :
    (s.schema table).Writable config := by
  intro t info placed
  obtain ⟨⟨lower, upper⟩, -⟩ := (ready.covers _).mp (WebServer.placement_listed placed)
  exact ⟨Int.le_trans (by decide) lower, ready.volumes info.lvid lower upper⟩

theorem Settled.more (settled : Settled schema rs s) (q : Request) :
    Settled schema (rs ++ [q]) s := by
  refine ⟨settled.fits, ?_, settled.stored, settled.urls⟩
  intro pid info row
  obtain ⟨t, member, key⟩ := settled.uploaded pid info row
  exact ⟨t, by simp [readings_append, member], key⟩

theorem Settled.cached (settled : Settled schema rs s) (only : OnlyCached s t) :
    Settled schema rs t := by
  obtain ⟨cache, rfl⟩ := only
  obtain ⟨photos, storeInfo, volumes⟩ := settled.fits
  exact ⟨⟨photos, storeInfo, volumes⟩, settled.uploaded, settled.stored, settled.urls⟩

theorem Served.image_stays (served : Served config charset schema s q t r) (fits : s.Fits schema)
    {table : String} (there : (s.image table pid).isSome) : (t.image table pid).isSome := by
  cases served with
  | @stored w b t info placed usable =>
    have created : (s.setPhoto (toString t) (some info)).HasVolume (lv info.lvid) :=
      (fits.volumes _).mpr usable.2
    rw [World.image_setImage _ _ _ _ created]
    split
    · rfl
    · exact there
  | _ => exact there

theorem Served.settled (served : Served config charset schema s q t r)
    (writable : schema.Writable config) (settled : Settled schema rs s) :
    Settled schema (rs ++ [q]) t := by
  have photos := settled.fits.photos
  have kept := settled.more q
  have fits := served.fits settled.fits
  cases served with
  | noFile => exact kept
  | unplaced => exact kept
  | stranded placed unusable => exact absurd (writable _ _ placed) unusable
  | @stored w b t info placed usable =>
    have created : (s.setPhoto (toString t) (some info)).HasVolume (lv info.lvid) :=
      (settled.fits.volumes _).mpr usable.2
    refine ⟨fits, ?_, ?_, kept.urls⟩
    · intro pid other row
      rw [World.photo_setImage, World.photo_setPhoto photos] at row
      split at row
      · rename_i same
        exact ⟨t, by simp [readings_append, readings], same⟩
      · exact kept.uploaded pid other row
    · intro pid other row
      rw [World.photo_setImage, World.photo_setPhoto photos] at row
      rw [World.image_setImage _ _ _ _ created]
      split at row
      · rename_i same
        cases row
        exact ⟨usable.1, by simp [same]⟩
      · rename_i differ
        simpa [differ] using kept.stored pid other row
  | blank => exact kept
  | hit => exact kept
  | absent => exact kept
  | @fill w pid info named empty row =>
    refine ⟨fits, kept.uploaded, kept.stored, ?_⟩
    intro server key url found
    rw [World.redis_setRedis] at found
    split at found
    · rename_i same
      exact ⟨info, by rw [same.2, ← Option.some.inj found]⟩
    · exact kept.urls server key url found
  | missing =>
    refine ⟨fits, kept.uploaded, kept.stored, ?_⟩
    intro server key url found
    exact kept.urls server key url (World.redis_of_evicted found)
  | @deleted w pid info row =>
    have evicted : (s.setRedis w pid none).HasPhotos := photos
    refine ⟨fits, ?_, ?_, ?_⟩
    · intro key other found
      exact kept.uploaded key other (World.photo_of_dropped evicted found)
    · intro key other found
      exact kept.stored key other (World.photo_of_dropped evicted found)
    · intro server key url found
      rw [World.redis_setPhoto] at found
      exact kept.urls server key url (World.redis_of_evicted found)
  | unnamed => exact kept
  | cached => exact kept
  | noVolume => exact kept
  | noImage => exact kept
  | load => exact ⟨fits, kept.uploaded, kept.stored, kept.urls⟩

theorem serve_settled (charset : Charset) (writable : schema.Writable config) {qs : List Request}
    (unquoted : ∀ q ∈ qs, q.Unquoted) (settled : Settled schema rs s) :
    Settled schema (rs ++ qs) (serve exec (handler config charset) s qs).1 := by
  apply serve_induction exec (handler config charset) (motive := Settled schema) rs settled
  intro before q t member now
  rcases unquoted_cases config charset (unquoted q member) t with clean | only
  · exact (handler_served config charset clean now.fits).settled writable now
  · exact (now.more q).cached only

theorem settled_initially {table : StoreInfo} {n : Int32} (ready : s.Ready n table)
    (empty : ∀ pid, s.photo pid = none) (forgotten : ∀ server pid, s.redis server pid = none) :
    Settled (s.schema table) [] s := by
  refine ⟨World.fits_schema ready.photos ready.storeInfo, ?_, ?_, ?_⟩
  · intro pid info row
    rw [empty] at row
    contradiction
  · intro pid info row
    rw [empty] at row
    contradiction
  · intro server pid url found
    rw [forgotten] at found
    contradiction

theorem serve_image_stays (config : HSConfig) (charset : Charset) {qs : List Request}
    (unquoted : ∀ q ∈ qs, q.Unquoted) (fits : s.Fits schema) {table : String}
    (there : (s.image table pid).isSome) :
    (serve exec (handler config charset) s qs).1.Fits schema ∧
      ((serve exec (handler config charset) s qs).1.image table pid).isSome := by
  apply serve_induction exec (handler config charset)
    (motive := fun _ t => t.Fits schema ∧ (t.image table pid).isSome) [] ⟨fits, there⟩
  intro before q t member now
  rcases unquoted_cases config charset (unquoted q member) t with clean | ⟨cache, same⟩
  · have served := handler_served config charset clean now.1
    exact ⟨served.fits now.1, served.image_stays now.1 now.2⟩
  · rw [same]
    exact ⟨⟨now.1.photos, now.1.storeInfo, now.1.volumes⟩, now.2⟩

theorem deleted_row (plain : Plain pid) (fits : s.Fits schema)
    (replied : ((handler config charset (.webDelete w pid)).run exec s).2 =
      .ok (.result 200 "Image deleted.")) : ∃ info, s.photo pid = some info := by
  have run := WebServer.onDelete_run w plain fits.photos
  cases row : s.photo pid with
  | none =>
    rw [row] at run
    rw [handler, run] at replied
    simp at replied
  | some info => exact ⟨info, rfl⟩

theorem cacheGet_image {k : Int32} {b : Bytes} (nonneg : 0 ≤ k.toInt) (named : pid ≠ "")
    (stored : s.image (lv k) pid = some b) (cache : Nat) : ∃ image,
      ((handler config charset (.cacheGet cache (toString k) pid)).run exec s).2 =
        .ok (.image pid image) := by
  have created : s.HasVolume (lv k) := by
    unfold World.image at stored
    obtain ⟨rows, found, -⟩ := Option.bind_eq_some_iff.mp stored
    simp [World.HasVolume, found]
  rw [handler, CacheServer.get_run (wordlike_toString nonneg) ⟨toString_ne_empty _, named⟩,
    lowered_toString nonneg]
  cases s.imageCache cache (charset.getBytes pid) with
  | some entry => exact ⟨entry, rfl⟩
  | none =>
    have volume : "lv" ++ toString k = lv k := rfl
    refine ⟨b, ?_⟩
    dsimp only
    rw [volume, if_pos created, stored]

structure Forgotten (pid : String) (s : World) : Prop where
  row : s.photo pid = none
  entries : ∀ server, s.redis server pid = none

theorem Served.forgotten (served : Served config charset schema s q t r) (fits : s.Fits schema)
    (other : ∀ server b u, q = .upload server (some b) u → pid ≠ toString u)
    (gone : Forgotten pid s) : Forgotten pid t := by
  have photos := fits.photos
  cases served with
  | @stranded w b u info placed unusable =>
    refine ⟨?_, gone.entries⟩
    rw [World.photo_setPhoto photos, if_neg (other w b u rfl)]
    exact gone.row
  | @stored w b u info placed usable =>
    refine ⟨?_, gone.entries⟩
    rw [World.photo_setImage, World.photo_setPhoto photos, if_neg (other w b u rfl)]
    exact gone.row
  | @fill w key info named empty row =>
    refine ⟨gone.row, ?_⟩
    intro server
    rw [World.redis_setRedis, if_neg]
    · exact gone.entries server
    · rintro ⟨-, rfl⟩
      cases gone.row.symm.trans row
  | missing =>
    refine ⟨gone.row, ?_⟩
    intro server
    rw [World.redis_setRedis, gone.entries, ite_self]
  | @deleted w key info row =>
    have evicted : (s.setRedis w key none).HasPhotos := photos
    constructor
    · rw [World.photo_setPhoto evicted, World.photo_setRedis, gone.row, ite_self]
    · intro server
      rw [World.redis_setPhoto, World.redis_setRedis, gone.entries, ite_self]
  | load => exact ⟨gone.row, gone.entries⟩
  | _ => exact gone

theorem serve_forgotten (config : HSConfig) (charset : Charset) {qs : List Request}
    (clean : ∀ q ∈ qs, q.Clean) (other : ∀ u ∈ readings qs, pid ≠ toString u)
    (fits : s.Fits schema) (gone : Forgotten pid s) :
    (serve exec (handler config charset) s qs).1.Fits schema ∧
      Forgotten pid (serve exec (handler config charset) s qs).1 := by
  apply serve_induction exec (handler config charset)
    (motive := fun _ t => t.Fits schema ∧ Forgotten pid t) [] ⟨fits, gone⟩
  intro before q t member now
  have served := handler_served config charset (clean q member) now.1
  refine ⟨served.fits now.1, served.forgotten now.1 ?_ now.2⟩
  rintro server b u rfl
  exact other u (mem_readings member)

theorem webGet_forgotten (server : Nat) (plain : Plain pid) (named : pid ≠ "")
    (photos : s.HasPhotos) (gone : Forgotten pid s) :
    ((handler config charset (.webGet server pid)).run exec s).2 =
      .ok (.result 404 "PID does not exist.") := by
  rw [handler, WebServer.onGetImage_run named, gone.entries]
  change ((WebServer.onCacheMiss server pid).run exec s).2 = _
  rw [WebServer.onCacheMiss_run plain photos, gone.row]

theorem webGet_entry {server : Nat} {info : PhotoInfo} (named : pid ≠ "")
    (entry : s.redis server pid = some (info.path pid)) :
    ((handler config charset (.webGet server pid)).run exec s).2 =
      .ok (.redirect (info.path pid)) := by
  have shown : WebServer.usable (some (info.path pid)) = some (info.path pid) := by
    simp [WebServer.usable, Option.filter, PhotoInfo.trim_path]
  rw [handler, WebServer.onGetImage_run named, entry, shown]

end Settled

/-- Requests are handled one at a time, from backends without photos. After a web
server has answered a delete with 200, and whatever follows, a volume still holds the
image, and every cache server answers a get of the pid in that volume with an image. -/
theorem deleted_image_still_served {config : HSConfig} {charset : Charset} {s : World}
    {table : StoreInfo} {n : Int32} {w : Nat} {pid : String} {before after : List Request}
    (ready : s.Ready n table) (empty : ∀ pid, s.photo pid = none)
    (forgotten : ∀ server pid, s.redis server pid = none)
    (unquoted : ∀ q ∈ before ++ .webDelete w pid :: after, q.Unquoted)
    (replied : ((handler config charset (.webDelete w pid)).run exec
      (serve exec (handler config charset) s before).1).2 = .ok (.result 200 "Image deleted.")) :
    ∃ k b, (serve exec (handler config charset) s
        (before ++ .webDelete w pid :: after)).1.image (lv k) pid = some b ∧
      ∀ cache, ∃ image, ((handler config charset (.cacheGet cache (toString k) pid)).run exec
        (serve exec (handler config charset) s (before ++ .webDelete w pid :: after)).1).2 =
          .ok (.image pid image) := by
  have earlier : ∀ q ∈ before, q.Unquoted :=
    fun q member => unquoted q (List.mem_append_left _ member)
  have later : ∀ q ∈ .webDelete w pid :: after, q.Unquoted :=
    fun q member => unquoted q (List.mem_append_right _ member)
  have plain : Plain pid := later _ List.mem_cons_self
  have settled := serve_settled charset (ready.writable config) earlier
    (settled_initially ready empty forgotten)
  obtain ⟨info, row⟩ := deleted_row plain settled.fits replied
  obtain ⟨t, -, rfl⟩ := settled.uploaded pid info row
  obtain ⟨nonneg, there⟩ := settled.stored _ info row
  obtain ⟨fits, stays⟩ := serve_image_stays config charset later settled.fits there
  obtain ⟨b, image⟩ := Option.isSome_iff_exists.mp stays
  rw [serve_append]
  exact ⟨info.lvid, b, image, cacheGet_image nonneg (toString_long_ne_empty t) image⟩

theorem delete_shipped (w : Nat) (b : Bytes) :
    (WebServer.onDelete w "7").run exec (World.shippedPhoto b) =
      (((World.shippedPhoto b).setRedis w "7" none).setPhoto "7" none,
        .ok (.result 200 "Image deleted.")) := by
  rw [WebServer.onDelete_run w (by decide) (World.shippedPhoto_fits b).photos,
    World.shippedPhoto_photo, if_pos rfl]

theorem deleted_image_returned :
    (serve exec (handler .shipped .utf8) .shipped [.upload 0 (some [1]) 7, .webDelete 0 "7",
      .cacheGet 3 "2" "7"]).2 = [.ok (.json 201 "7"), .ok (.result 200 "Image deleted."),
        .ok (.image "7" [1])] := by
  rw [serve, handler, upload_shipped, serve, handler, delete_shipped, serve, handler,
    CacheServer.get_run (by decide) (by decide)]
  rfl

theorem deleted_image_still_served_shipped :
    ∃ k b, (serve exec (handler .shipped .utf8) .shipped ([.upload 0 (some [1]) 7] ++
        .webDelete 0 "7" :: [.cacheGet 0 "2 WHERE pid = :pid --" "7"])).1.image (lv k) "7" =
          some b ∧
      ∀ cache, ∃ image, ((handler .shipped .utf8 (.cacheGet cache (toString k) "7")).run exec
        (serve exec (handler .shipped .utf8) .shipped ([.upload 0 (some [1]) 7] ++
          .webDelete 0 "7" :: [.cacheGet 0 "2 WHERE pid = :pid --" "7"])).1).2 =
            .ok (.image "7" image) :=
  deleted_image_still_served World.ready_shipped (fun _ => rfl) (fun _ _ => rfl) (by decide)
    (by rw [serve, serve, handler, handler, upload_shipped, delete_shipped])

/-- Requests are handled one at a time, each by any of the web servers, from backends
without photos. A delete that was answered 200 holds on every server, whatever follows,
exactly if no other server had the pid in its redis. -/
theorem servers_agree_iff {config : HSConfig} {charset : Charset} {s : World} {table : StoreInfo}
    {n : Int32} {w : Nat} {pid : String} {before : List Request} (ready : s.Ready n table)
    (empty : ∀ pid, s.photo pid = none) (forgotten : ∀ server pid, s.redis server pid = none)
    (clean : ∀ q ∈ before, q.Clean) (plain : Plain pid) (distinct : (readings before).Nodup)
    (replied : ((handler config charset (.webDelete w pid)).run exec
      (serve exec (handler config charset) s before).1).2 = .ok (.result 200 "Image deleted.")) :
    (∀ after server, (∀ q ∈ after, q.Clean) →
      (readings (before ++ .webDelete w pid :: after)).Nodup →
      ((handler config charset (.webGet server pid)).run exec
        (serve exec (handler config charset) s (before ++ .webDelete w pid :: after)).1).2 =
          .ok (.result 404 "PID does not exist.")) ↔
    ∀ server, server ≠ w →
      (serve exec (handler config charset) s before).1.redis server pid = none := by
  have settled := serve_settled charset (ready.writable config)
    (fun q member => (clean q member).unquoted) (settled_initially ready empty forgotten)
  obtain ⟨info, row⟩ := deleted_row plain settled.fits replied
  obtain ⟨t, used, rfl⟩ := settled.uploaded pid info row
  have named := toString_long_ne_empty t
  have photos := settled.fits.photos
  have deleted := WebServer.onDelete_run w plain photos
  rw [row] at deleted
  have served : ∀ after, (serve exec (handler config charset) s
      (before ++ .webDelete w (toString t) :: after)).1 = (serve exec (handler config charset)
        (((serve exec (handler config charset) s before).1.setRedis w (toString t) none).setPhoto
          (toString t) none) after).1 := by
    intro after
    rw [serve_append, serve, handler, deleted]
  constructor
  · intro agree server other
    cases entry : (serve exec (handler config charset) s before).1.redis server (toString t) with
    | none => rfl
    | some url =>
      obtain ⟨kept, rfl⟩ := settled.urls server _ url entry
      have answer := agree [] server (by simp) (by simpa [readings_append, readings] using distinct)
      rw [served, serve, webGet_entry named] at answer
      · cases answer
      · rw [World.redis_setPhoto, World.redis_setRedis, if_neg (fun same => other same.1)]
        exact entry
  · intro nowhere after server cleanAfter apart
    have gone : Forgotten (toString t) (((serve exec (handler config charset) s
        before).1.setRedis w (toString t) none).setPhoto (toString t) none) := by
      constructor
      · rw [World.photo_setPhoto (by exact photos), if_pos rfl]
      · intro v
        rw [World.redis_setPhoto, World.redis_setRedis]
        split
        · rfl
        · rename_i differ
          exact nowhere v (fun same => differ ⟨same, rfl⟩)
    have others : ∀ u ∈ readings after, toString t ≠ toString u := by
      intro u later same
      cases toString_injective same
      rw [readings_append] at apart
      exact (List.nodup_append.mp apart).2.2 t (by simpa using used) t later rfl
    have fits := (settled.fits.setRedis w (toString t) none).setPhoto (toString t) none
    obtain ⟨fitsAfter, goneAfter⟩ := serve_forgotten config charset cleanAfter others fits gone
    rw [served]
    exact webGet_forgotten server plain named fitsAfter.photos goneAfter

theorem other_server_redirects :
    (serve exec (handler .shipped .utf8) .shipped [.upload 0 (some [1]) 7, .webGet 1 "7",
      .webDelete 0 "7", .webGet 0 "7", .webGet 1 "7"]).2 = [.ok (.json 201 "7"),
        .ok (.redirect "http://unix5.andrew.cmu.edu:9876/get?lvid=2&pid=7"),
        .ok (.result 200 "Image deleted."), .ok (.result 404 "PID does not exist."),
        .ok (.redirect "http://unix5.andrew.cmu.edu:9876/get?lvid=2&pid=7")] := by
  let filled := (World.shippedPhoto [1]).setRedis 1 "7"
    (some "http://unix5.andrew.cmu.edu:9876/get?lvid=2&pid=7")
  let after := (filled.setRedis 0 "7" none).setPhoto "7" none
  have photos : filled.HasPhotos := rfl
  have deleted : (WebServer.onDelete 0 "7").run exec filled =
      (after, .ok (.result 200 "Image deleted.")) := by
    rw [WebServer.onDelete_run 0 (by decide) photos, World.photo_setRedis, World.shippedPhoto_photo,
      if_pos rfl]
  have missed : (WebServer.onGetImage 0 "7").run exec after =
      (after, .ok (.result 404 "PID does not exist.")) := by
    rw [WebServer.onGetImage_run (by decide)]
    change (WebServer.onCacheMiss 0 "7").run exec after = _
    rw [WebServer.onCacheMiss_run (by decide) (by exact photos)]
    rfl
  have hit : ((handler .shipped .utf8 (.webGet 1 "7")).run exec after).2 =
      .ok (.redirect (PhotoInfo.path "7" ⟨"unix5.andrew.cmu.edu:9876", 2⟩)) :=
    webGet_entry (by decide) rfl
  rw [serve, handler, upload_shipped, serve, handler, get_shipped, serve, handler, deleted, serve,
    handler, missed, serve, hit]
  rfl

theorem servers_agree_unread :
    (∀ server, server ≠ 0 → (serve exec (handler .shipped .utf8) .shipped
      [.upload 0 (some [1]) 7]).1.redis server "7" = none) ∧
    ∀ after server, (∀ q ∈ after, q.Clean) →
      (readings ([.upload 0 (some [1]) 7] ++ .webDelete 0 "7" :: after)).Nodup →
      ((handler .shipped .utf8 (.webGet server "7")).run exec (serve exec (handler .shipped .utf8)
        .shipped ([.upload 0 (some [1]) 7] ++ .webDelete 0 "7" :: after)).1).2 =
          .ok (.result 404 "PID does not exist.") := by
  have unread : ∀ server, server ≠ 0 → (serve exec (handler .shipped .utf8) .shipped
      [.upload 0 (some [1]) 7]).1.redis server "7" = none := by
    intro server _
    rw [serve, serve, handler, upload_shipped]
    rfl
  refine ⟨unread, (servers_agree_iff World.ready_shipped (fun _ => rfl) (fun _ _ => rfl) (by decide)
    (by decide) (by decide) ?_).mpr unread⟩
  rw [serve, serve, handler, handler, upload_shipped, delete_shipped]

end Haystack
