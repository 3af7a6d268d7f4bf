import Haystack.LvidText
import Haystack.ImageCache

/-! A web server and a cache server on one host. Both connect to the redis at 127.0.0.1, each at
its own port of the configuration, and use the bare pid as the key: one for the URL of a photo,
the other for its bytes. -/
namespace Haystack

open Calls Cql Java

structure RedisConfig extends HSConfig where
  directoryCacheRedisPort : Int32
  objectStoreCacheRedisPort : Int32

/-- Web server i and cache server i run on one host, or on two. -/
structure Hosting where
  config : RedisConfig
  oneHost : Bool

namespace Hosting

def oneRedis (h : Hosting) : Bool :=
  h.oneHost && h.config.directoryCacheRedisPort == h.config.objectStoreCacheRedisPort

/-- The calls with one redis for both servers. Jedis sends the strings of the web server in UTF-8
and makes a string of whatever bytes it receives. -/
def sharing (decode : Bytes → String) : (c : Call) → World → Except Exception (World × Answer c)
  | .jedisGet server key, s => .ok (s, (s.imageCache server (Charset.utf8.getBytes key)).map decode)
  | .jedisSet server key value, s =>
    .ok (s.setCached server (Charset.utf8.getBytes key) (some (Charset.utf8.getBytes value)), ())
  | .jedisDel server key, s => .ok (s.setCached server (Charset.utf8.getBytes key) none, ())
  | c, s => Haystack.exec c s

def exec (h : Hosting) (decode : Bytes → String) :
    (c : Call) → World → Except Exception (World × Answer c) :=
  if h.oneRedis then sharing decode else Haystack.exec

end Hosting

def Request.At (w : Nat) : Request → Prop
  | .webGet server _ => server = w
  | .webDelete server _ => server = w
  | _ => True

/-- What a reply shows, given in the state s after the requests before it: a get on the web server
that is not answered with an error redirects to the URL of the row, and a get on a cache server
returns no image but the one that was uploaded under the pid. -/
def Unmixed (before : List Request) (s : World) (r : Except Exception Resp) : Request → Prop
  | .webGet _ pid => ∀ a, r = .ok a → a = .result 400 "Bad request: empty pid." ∨
      a = .result 404 "PID does not exist." ∨ ∃ info, s.photo pid = some info ∧
        a = .redirect (info.path pid)
  | .cacheGet _ _ pid => ∀ name b, r = .ok (.image name b) → Uploaded before pid b
  | _ => True

/-- Requests are handled one at a time, with distinct clock readings. Whatever they are, the two
kinds of entry do not get mixed up. -/
def CachesApart (h : Hosting) (charset : Charset) (decode : Bytes → String) (w : Nat)
    (s : World) : Prop :=
  ∀ before q, (∀ r ∈ before ++ [q], r.Clean ∧ r.At w) → (readings (before ++ [q])).Nodup →
    Unmixed before (serve (h.exec decode) (handler h.config.toHSConfig charset) s before).1
      ((handler h.config.toHSConfig charset q).run (h.exec decode)
        (serve (h.exec decode) (handler h.config.toHSConfig charset) s before).1).2 q

section Separate

variable {config : HSConfig} {charset : Charset} {schema : Schema} {s t : World} {q : Request}
  {r : Except Exception Resp} {w : Nat} {rs : List Request}

def Backed (w : Nat) (s : World) : Prop :=
  ∀ pid url, s.redis w pid = some url → ∃ info, s.photo pid = some info

theorem Served.backed (served : Served config charset schema s q t r) (photos : s.HasPhotos)
    (here : q.At w) (backed : Backed w s) : Backed w t := by
  intro pid url entry
  cases served with
  | @stranded _ b u info placed unusable =>
    rw [World.photo_setPhoto photos]
    split
    · exact ⟨info, rfl⟩
    · exact backed pid url entry
  | @stored _ b u info placed usable =>
    rw [World.photo_setImage, World.photo_setPhoto photos]
    split
    · exact ⟨info, rfl⟩
    · exact backed pid url entry
  | @fill server key info named empty row =>
    rw [World.redis_setRedis] at entry
    split at entry
    · rename_i same
      exact ⟨info, same.2 ▸ row⟩
    · exact backed pid url entry
  | missing row => exact backed pid url (World.redis_of_evicted entry)
  | @deleted server key info row =>
    cases here
    rw [World.redis_setPhoto, World.redis_setRedis] at entry
    split at entry
    · cases entry
    · rename_i differ
      have evicted : (s.setRedis w key none).HasPhotos := photos
      have other : pid ≠ key := fun same => differ ⟨rfl, same⟩
      rw [World.photo_setPhoto evicted, if_neg other]
      exact backed pid url entry
  | _ => exact backed pid url entry

theorem Request.Clean.orderly (clean : q.Clean) : q.Orderly := by
  cases q <;> first | exact clean | trivial

theorem Coherent.entry_row (coherent : Coherent (.everything config charset schema rs) s)
    (backed : Backed w s) {pid url : String} (entry : s.redis w pid = some url) :
    ∃ info, s.photo pid = some info ∧ url = info.path pid := by
  obtain ⟨t, info, b, assigned, name, rfl⟩ := coherent.redirects w pid url trivial entry
  obtain ⟨info', row⟩ := backed pid _ entry
  obtain ⟨u, b', assigned', name'⟩ := coherent.rows pid info' trivial row
  cases (assigned.unique assigned' (name.symm.trans name')).2.1
  exact ⟨info, row, rfl⟩

theorem uploaded_of_content {before : List Request} {u : Int64} {b : Bytes}
    (other : ∀ web b t, q ≠ .upload web b t)
    (found : content (before ++ [q]) u = some b) : Uploaded before (toString u) b := by
  obtain ⟨web, member⟩ := content_mem found
  rcases List.mem_append.mp member with earlier | last
  · exact ⟨web, u, earlier, rfl⟩
  · exact absurd (List.mem_singleton.mp last).symm (other web (some b) u)

theorem Served.unmixed {before : List Request}
    (served : Served config charset schema s q t r) (here : q.At w) (backed : Backed w s)
    (coherent : Coherent (.everything config charset schema (before ++ [q])) s) :
    Unmixed before s r q := by
  cases served with
  | blank =>
    intro a reply
    cases reply
    exact .inl rfl
  | hit named entry =>
    cases here
    intro a reply
    cases reply
    obtain ⟨info, row, rfl⟩ := coherent.entry_row backed (Option.filter_eq_some_iff.mp entry).1
    exact .inr (.inr ⟨info, row, rfl⟩)
  | absent =>
    intro a reply
    cases reply
    exact .inr (.inl rfl)
  | @fill _ pid info named missed row =>
    intro a reply
    cases reply
    exact .inr (.inr ⟨info, row, rfl⟩)
  | @cached server lvid pid b named entry =>
    intro name b' reply
    cases reply
    obtain ⟨u, info, assigned, key, -⟩ := coherent.cached server pid b trivial entry
    cases charset.decimal pid u key
    exact uploaded_of_content (by simp) assigned.content
  | @load server lvid pid b named missed listed stored =>
    intro name b' reply
    cases reply
    obtain ⟨u, info, assigned, rfl, -⟩ := coherent.images _ pid b trivial stored
    exact uploaded_of_content (by simp) assigned.content
  | unnamed | noVolume | noImage =>
    intro name b reply
    cases reply
  | _ => trivial

theorem apart_of_separate {h : Hosting} {decode : Bytes → String} {table : StoreInfo}
    (separate : h.oneRedis = false) (photos : s.HasPhotos)
    (storeInfo : s.directory.storeInfo = some table)
    (empty : ∀ pid, s.Unused charset pid) : CachesApart h charset decode w s := by
  intro before q fine distinct
  have two : h.exec decode = exec := by simp [Hosting.exec, separate]
  have admitted : ∀ r ∈ before ++ [q],
      (Setting.everything h.config.toHSConfig charset (s.schema table) (before ++ [q])).Admits r :=
    fun r member =>
      admits_of_orderly (fun _ _ same => (same ▸ (fine r member).1).elim) distinct member
      (fine r member).1.orderly
  have earlier : ∀ r ∈ before, r ∈ before ++ [q] := fun r member => List.mem_append_left _ member
  rw [two]
  have reached : Coherent (.everything h.config.toHSConfig charset (s.schema table) (before ++ [q]))
      (serve exec (handler h.config.toHSConfig charset) s before).1 ∧
      Backed w (serve exec (handler h.config.toHSConfig charset) s before).1 := by
    refine serve_induction exec (handler h.config.toHSConfig charset) (motive := fun _ t => Coherent
      (.everything h.config.toHSConfig charset (s.schema table) (before ++ [q])) t ∧ Backed w t)
        [] ⟨?_, ?_⟩ ?_
    · exact coherent_of_empty photos storeInfo empty
    · intro pid url entry
      rw [(empty pid).redis] at entry
      cases entry
    · intro _ r t member now
      have served :=
        handler_served h.config.toHSConfig charset (fine r (earlier r member)).1 now.1.fits
      exact ⟨((handler_coherent (admitted r (earlier r member))).run now.1).1,
        served.backed now.1.fits.photos (fine r (earlier r member)).2 now.2⟩
  have served := handler_served h.config.toHSConfig charset (fine q (by simp)).1 reached.1.fits
  exact served.unmixed (fine q (by simp)).2 reached.2 reached.1

end Separate

def OffJedis : Call → Prop
  | .jedisGet _ _ => False
  | .jedisSet _ _ _ => False
  | .jedisDel _ _ => False
  | _ => True

theorem onPostImage_offJedis (config : HSConfig) (img : Option Bytes) (t : Int64) :
    (WebServer.onPostImage config img t).Everywhere OffJedis := by
  cases img with
  | none => trivial
  | some b =>
    refine Program.everywhere_bind (Program.everywhere_request trivial) (fun rows => ?_)
    refine Program.everywhere_bind (Program.everywhere_lift _) (fun k => ?_)
    refine Program.everywhere_bind (Program.everywhere_lift _) (fun url => ?_)
    refine Program.everywhere_bind (Program.everywhere_request trivial) (fun _ => ?_)
    refine Program.everywhere_bind (Program.everywhere_request trivial) (fun ps => ?_)
    refine Program.everywhere_bind (Program.everywhere_lift _) (fun bound => ?_)
    exact Program.everywhere_bind (Program.everywhere_request trivial) (fun _ => trivial)

theorem get_offJedis (charset : Charset) (server : Nat) (lvid pid : String) :
    (CacheServer.get charset server lvid pid).Everywhere OffJedis := by
  unfold CacheServer.get
  split
  · trivial
  · refine Program.everywhere_bind (Program.everywhere_request trivial) (fun m => ?_)
    split
    · trivial
    · refine Program.everywhere_bind (Program.everywhere_request trivial) (fun ps => ?_)
      refine Program.everywhere_bind (Program.everywhere_lift _) (fun bound => ?_)
      refine Program.everywhere_bind (Program.everywhere_request trivial) (fun rows => ?_)
      split
      · trivial
      · refine Program.everywhere_bind (Program.everywhere_lift _) (fun b => ?_)
        exact Program.everywhere_bind (Program.everywhere_request trivial) (fun _ => trivial)

section Shared

variable {config : HSConfig} {charset : Charset} {decode : Bytes → String}
    {schema : Schema} {s : World}
  {server : Nat} {lvid pid : String}

theorem run_sharing {p : Handler Resp} (all : p.Everywhere OffJedis) (s : World) :
    p.run (Hosting.sharing decode) s = p.run exec s := by
  refine Program.run_congr _ (fun c s off => ?_) all s
  cases c <;> first | rfl | exact off.elim

theorem onGetImage_sharing (plain : Plain pid) (named : pid ≠ "") (photos : s.HasPhotos)
    (missed : s.imageCache server (Charset.utf8.getBytes pid) = none) :
    (WebServer.onGetImage server pid).run (Hosting.sharing decode) s = match s.photo pid with
      | none => (s, .ok (.result 404 "PID does not exist."))
      | some info => (s.setCached server (Charset.utf8.getBytes pid)
          (some (Charset.utf8.getBytes (info.path pid))), .ok (.redirect (info.path pid))) := by
  obtain ⟨next, tree, continued⟩ := WebServer.onGetImage_eq server named
  obtain ⟨next', tree', answered⟩ := WebServer.onCacheMiss_eq server pid
  have first : Hosting.sharing decode (.jedisGet server pid) s = .ok (s, none) := by
    simp [Hosting.sharing, missed]
  have second : Hosting.sharing decode (.execute .directory (WebServer.selectPhoto pid) []) s =
      .ok (s, ((s.photo pid).map (PhotoInfo.row pid)).toList) :=
        WebServer.exec_selectPhoto plain photos
  rw [tree, Program.run_call_ok _ first, continued]
  change (WebServer.onCacheMiss server pid).run _ s = _
  rw [tree', Program.run_call_ok _ second, answered]
  cases s.photo pid <;> rfl

structure World.Void (schema : Schema) (s : World) : Prop where
  fits : s.Fits schema
  photo : ∀ pid, s.photo pid = none
  image : ∀ table pid, s.image table pid = none
  cached : ∀ server key, s.imageCache server key = none

theorem World.Void.setCached_none (void : s.Void schema) (server : Nat) (key : Bytes) :
    s.setCached server key none = s := by
  have same : Function.update (s.imageCache server) key none = s.imageCache server := by
    rw [← void.cached server key, Function.update_eq_self]
  rw [World.setCached, same, Function.update_eq_self]

theorem onDelete_sharing (plain : Plain pid) (void : s.Void schema) :
    (WebServer.onDelete server pid).run (Hosting.sharing decode) s =
      (s, .ok (.result 404 "No such image.")) := by
  obtain ⟨next, tree, missing, -⟩ := WebServer.searchRow_eq pid
  have first : Hosting.sharing decode (.jedisDel server pid) s = .ok (s, ()) := by
    simp only [Hosting.sharing, void.setCached_none]
  have second : Hosting.sharing decode (.execute .directory (WebServer.searchQuery pid) []) s =
      .ok (s, ((s.photo pid).map (PhotoInfo.row pid)).toList) :=
    WebServer.exec_searchQuery plain void.fits.photos
  rw [WebServer.onDelete_eq, Program.run_call_ok _ first, tree, Program.run_call_ok _ second,
    void.photo pid, Option.map_none, Option.toList_none, missing]
  rfl

theorem World.Void.served {q : Request} (void : s.Void schema) (clean : q.Clean)
    (unplaced : ∀ t info, WebServer.placement config schema.table t ≠ .ok info) :
    ((handler config charset q).run (Hosting.sharing decode) s).1 = s ∧
      ∀ before,
        Unmixed before s ((handler config charset q).run (Hosting.sharing decode) s).2 q := by
  cases q with
  | upload web img t =>
    rw [handler, run_sharing (onPostImage_offJedis config img t)]
    refine ⟨?_, fun _ => trivial⟩
    cases img with
    | none => rfl
    | some b =>
      rw [WebServer.onPostImage_run void.fits]
      cases placed : WebServer.placement config schema.table t with
      | error e => rfl
      | ok info => exact absurd placed (unplaced t info)
  | webGet web pid =>
    by_cases named : pid = ""
    · subst named
      refine ⟨rfl, fun _ a reply => ?_⟩
      cases reply
      exact .inl rfl
    · rw [handler, onGetImage_sharing clean named void.fits.photos (void.cached _ _), void.photo]
      refine ⟨rfl, fun _ a reply => ?_⟩
      cases reply
      exact .inr (.inl rfl)
  | webDelete web pid =>
    rw [handler, onDelete_sharing clean void]
    exact ⟨rfl, fun _ => trivial⟩
  | cacheGet cache lvid pid =>
    rw [handler, run_sharing (get_offJedis charset cache lvid pid)]
    by_cases named : lvid ≠ "" ∧ pid ≠ ""
    · rw [CacheServer.get_run clean named, void.cached]
      dsimp only
      rw [void.image]
      split
      · refine ⟨rfl, fun _ name b reply => ?_⟩
        cases reply
      · refine ⟨rfl, fun _ name b reply => ?_⟩
        cases reply
    · have blank : lvid = "" ∨ pid = "" := by tauto
      simp only [CacheServer.get, if_pos blank]
      refine ⟨rfl, fun _ name b reply => ?_⟩
      cases reply
  | cacheDelete cache pid => exact clean.elim

theorem apart_of_unplaced {h : Hosting} {w : Nat} (shared : h.oneRedis = true)
    (void : s.Void schema)
    (unplaced : ∀ t info, WebServer.placement h.config.toHSConfig schema.table t ≠ .ok info) :
    CachesApart h charset decode w s := by
  intro before q fine _
  have one : h.exec decode = Hosting.sharing decode := by simp [Hosting.exec, shared]
  rw [one]
  have same :
      (serve (Hosting.sharing decode) (handler h.config.toHSConfig charset) s before).1 = s := by
    refine serve_induction (Hosting.sharing decode) (handler h.config.toHSConfig charset)
      (motive := fun _ t => t = s) [] rfl ?_
    rintro _ r _ member rfl
    exact (void.served (fine r (List.mem_append_left _ member)).1 unplaced).1
  rw [same]
  exact (void.served (fine q (by simp)).1 unplaced).2 before

theorem placed_row {t : Int64} {info : PhotoInfo} {b : Bytes} (fits : s.Fits schema)
    (placed : WebServer.placement config schema.table t = .ok info) :
    ((WebServer.onPostImage config (some b) t).run exec s).1.Fits schema ∧
      ((WebServer.onPostImage config (some b) t).run exec s).1.photo (toString t) = some info ∧
      ((WebServer.onPostImage config (some b) t).run exec s).1.imageCache = s.imageCache := by
  classical
  rw [WebServer.onPostImage_run fits, placed]
  dsimp only
  rw [WebServer.storeImage_run fits]
  split
  · refine ⟨(fits.setPhoto _ _).setImage _ _ _, ?_, rfl⟩
    rw [World.photo_setImage, World.photo_setPhoto fits.photos, if_pos rfl]
  · refine ⟨fits.setPhoto _ _, ?_, rfl⟩
    rw [World.photo_setPhoto fits.photos, if_pos rfl]

theorem getBytes_path_ne_nil (info : PhotoInfo) (pid : String) :
    Charset.utf8.getBytes (info.path pid) ≠ [] := by
  intro empty
  have blank : Charset.utf8.getBytes (info.path pid) = Charset.utf8.getBytes "" := empty
  have same : info.path pid = "" :=
    String.toByteArray_inj.mp (ByteArray.ext (Array.toList_inj.mp blank))
  exact info.trim_path pid (by rw [same]; rfl)

theorem mixed_of_placed {h : Hosting} {w : Nat} {t : Int64} {info : PhotoInfo}
    (shared : h.oneRedis = true)
    (fits : s.Fits schema) (blank : ∀ server key, s.imageCache server key = none)
    (ascii : ∀ t : Int64, charset.getBytes (toString t) = Charset.utf8.getBytes (toString t))
    (placed : WebServer.placement h.config.toHSConfig schema.table t = .ok info) :
    ¬ CachesApart h charset decode w s := by
  intro apart
  have one : h.exec decode = Hosting.sharing decode := by simp [Hosting.exec, shared]
  have named := toString_long_ne_empty t
  have unmixed :=
    apart [.upload w (some []) t, .webGet w (toString t)] (.cacheGet w "1" (toString t)) ?_ ?_
  · rw [one] at unmixed
    simp only [serve, handler] at unmixed
    rw [run_sharing (onPostImage_offJedis _ _ _)] at unmixed
    obtain ⟨fits', row, entries⟩ := placed_row (b := []) fits placed
    generalize ((WebServer.onPostImage h.config.toHSConfig (some []) t).run exec s).1 = u
      at unmixed fits' row entries
    have missed : u.imageCache w (Charset.utf8.getBytes (toString t)) = none := by
      rw [entries, blank]
    rw [onGetImage_sharing (plain_toString t) named fits'.photos missed, row,
      run_sharing (get_offJedis _ _ _ _), CacheServer.get_run (by decide) ⟨by decide, named⟩,
      World.imageCache_setCached, if_pos ⟨rfl, ascii t⟩] at unmixed
    obtain ⟨web, t', member, -⟩ := unmixed _ _ rfl
    simp only [List.mem_cons, reduceCtorEq, Request.upload.injEq, Option.some.injEq,
      List.not_mem_nil, or_false] at member
    exact getBytes_path_ne_nil info _ member.2.1
  · intro r member
    fin_cases member
    · exact ⟨trivial, trivial⟩
    · exact ⟨plain_toString t, rfl⟩
    · exact ⟨(by decide : Wordlike "1"), trivial⟩
  · simp [readings]

end Shared

/-- The entries of the two servers are kept apart exactly if they do not use the same redis, or no
upload can be placed at all. -/
theorem caches_apart_iff {h : Hosting} {charset : Charset} {decode : Bytes → String}
    {w : Nat} {s : World}
    {table : StoreInfo} (photos : s.HasPhotos) (storeInfo : s.directory.storeInfo = some table)
    (empty : ∀ pid, s.Unused charset pid) (blank : ∀ server key, s.imageCache server key = none)
    (ascii : ∀ t : Int64, charset.getBytes (toString t) = Charset.utf8.getBytes (toString t)) :
    CachesApart h charset decode w s ↔
      ¬ (h.oneRedis = true ∧
        ∃ t info, WebServer.placement h.config.toHSConfig table t = .ok info) := by
  have fits := World.fits_schema photos storeInfo
  constructor
  · rintro apart ⟨shared, t, info, placed⟩
    exact mixed_of_placed shared fits blank ascii placed apart
  · intro separate
    cases shared : h.oneRedis with
    | false => exact apart_of_separate shared photos storeInfo empty
    | true =>
      have void : s.Void (s.schema table) :=
        ⟨fits, fun pid => (empty pid).photo, fun place pid => (empty pid).image place, blank⟩
      apply apart_of_unplaced shared void
      intro t info placed
      exact separate ⟨shared, t, info, placed⟩

def RedisConfig.shipped : RedisConfig := ⟨.shipped, 6380, 6380⟩

theorem caches_apart_twoPorts :
    CachesApart ⟨⟨.shipped, 6379, 6380⟩, true⟩ .utf8 decodeUtf8 0 .shipped :=
  (caches_apart_iff World.ready_shipped.photos World.ready_shipped.storeInfo
    (World.unused_shipped _)
    (fun _ _ => rfl) (fun _ => rfl)).mpr (fun both => absurd both.1 (by decide))

theorem url_served_as_image :
    (serve (Hosting.exec ⟨.shipped, true⟩ decodeUtf8) (handler .shipped .utf8) .shipped
      [.upload 0 (some [1]) 7, .webGet 0 "7", .cacheGet 0 "2" "7"]).2 =
        [.ok (.json 201 "7"), .ok (.redirect "http://unix5.andrew.cmu.edu:9876/get?lvid=2&pid=7"),
          .ok (.image "7"
            (Charset.utf8.getBytes "http://unix5.andrew.cmu.edu:9876/get?lvid=2&pid=7"))] ∧
    Charset.utf8.getBytes "http://unix5.andrew.cmu.edu:9876/get?lvid=2&pid=7" ≠ [1] := by
  have one : Hosting.exec ⟨.shipped, true⟩ decodeUtf8 = Hosting.sharing decodeUtf8 := rfl
  have missed : (World.shippedPhoto [1]).imageCache 0 (Charset.utf8.getBytes "7") = none := rfl
  constructor
  · rw [one, serve, handler, run_sharing (onPostImage_offJedis _ _ _), upload_shipped,
      serve, handler,
      onGetImage_sharing (by decide) (by decide) (World.shippedPhoto_fits [1]).photos missed,
      World.shippedPhoto_photo, if_pos rfl, serve, handler, run_sharing (get_offJedis _ _ _ _),
      CacheServer.get_run (by decide) (by decide), World.imageCache_setCached, if_pos ⟨rfl, rfl⟩]
    rfl
  · decide

end Haystack
