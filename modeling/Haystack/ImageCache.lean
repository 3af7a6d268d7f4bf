import Haystack.ImageSafety
import Haystack.Sequential
import Haystack.Calls.Serial

/-! The redis of a cache server against the same server with an empty one. The entries
are kept by pid alone, so a request that names the wrong volume is answered from redis
where the store would have nothing to answer. -/
namespace Haystack

open Calls Cql Java

variable {config : HSConfig} {charset : Charset} {s : World} {table : StoreInfo} {rs : List Request}

theorem serve_coherent {σ : Setting} (admitted : ∀ q ∈ rs, σ.Admits q) (coherent : Coherent σ s) :
    Coherent σ (serve exec (handler σ.config σ.charset) s rs).1 := by
  apply serve_induction exec (handler σ.config σ.charset)
    (motive := fun _ t => Coherent σ t) [] coherent
  intro _ q t member inv
  exact ((handler_coherent (admitted q member)).run inv).1

/-- An upload, or a get on a cache server whose lvid is made of word characters. -/
def Request.CacheSide : Request → Prop
  | .upload _ _ _ => True
  | .cacheGet _ lvid _ => Wordlike lvid
  | _ => False

instance : DecidablePred Request.CacheSide
  | .upload _ _ _ => inferInstanceAs (Decidable True)
  | .cacheGet _ lvid _ => inferInstanceAs (Decidable (Wordlike lvid))
  | .webGet _ _ => inferInstanceAs (Decidable False)
  | .webDelete _ _ => inferInstanceAs (Decidable False)
  | .cacheDelete _ _ => inferInstanceAs (Decidable False)

theorem admits_of_cacheSide {schema : Schema} {q : Request} (distinct : (readings rs).Nodup)
    (member : q ∈ rs) (side : q.CacheSide) :
    (Setting.everything config charset schema rs).Admits q := by
  refine admits_of_orderly ?_ distinct member ?_
  · rintro _ _ rfl
    exact side.elim
  · cases q <;> first | exact side | trivial

def World.flushed (s : World) (server : Nat) : World :=
  { s with imageCache := Function.update s.imageCache server (fun _ => none) }

namespace Coherent

variable {schema : Schema} {server : Nat} {pid : String} {b : Bytes}

theorem cached_image (coherent : Coherent (.everything config charset schema rs) s)
    (entry : s.imageCache server (charset.getBytes pid) = some b) {place : String} {b' : Bytes}
    (stored : s.image place pid = some b') : b' = b := by
  obtain ⟨t, info, assigned, key, -⟩ := coherent.cached server pid b trivial entry
  obtain ⟨u, info', assigned', name, -⟩ := coherent.images place pid b' trivial stored
  have same : pid = toString t := charset.decimal pid t key
  exact (assigned'.unique assigned (name.symm.trans same)).2.2

end Coherent

/-- After any uploads and cache gets, the next get is answered as with an empty redis
exactly if redis has no entry for the pid, or the volume asked for holds its image. -/
theorem image_cache_transparent_iff {server : Nat} {lvid pid : String} (photos : s.HasPhotos)
    (storeInfo : s.directory.storeInfo = some table) (empty : ∀ pid, s.Unused charset pid)
    (side : ∀ q ∈ rs, q.CacheSide) (distinct : (readings rs).Nodup) (word : Wordlike lvid) :
    ((handler config charset (.cacheGet server lvid pid)).run exec
        (serve exec (handler config charset) s rs).1).2 =
      ((handler config charset (.cacheGet server lvid pid)).run exec
        ((serve exec (handler config charset) s rs).1.flushed server)).2 ↔
    lvid = "" ∨ pid = "" ∨
      (serve exec (handler config charset) s rs).1.imageCache server (charset.getBytes pid) = none ∨
      (serve exec (handler config charset) s rs).1.image ("lv" ++ lowered lvid) pid ≠ none := by
  have coherent : Coherent (.everything config charset (s.schema table) rs)
      (serve exec (handler config charset) s rs).1 :=
    serve_coherent (fun q member => admits_of_cacheSide distinct member (side q member))
      (coherent_of_empty photos storeInfo empty)
  generalize (serve exec (handler config charset) s rs).1 = t at coherent ⊢
  by_cases named : lvid ≠ "" ∧ pid ≠ ""
  swap
  · have blank : lvid = "" ∨ pid = "" := by tauto
    simp only [handler, CacheServer.get, if_pos blank]
    exact ⟨fun _ => by tauto, fun _ => rfl⟩
  have flushed : (t.flushed server).imageCache server (charset.getBytes pid) = none := by
    simp [World.flushed]
  have volume : (t.flushed server).HasVolume ("lv" ++ lowered lvid) ↔
    t.HasVolume ("lv" ++ lowered lvid) := Iff.rfl
  have image : (t.flushed server).image ("lv" ++ lowered lvid) pid =
    t.image ("lv" ++ lowered lvid) pid := rfl
  rw [handler, CacheServer.get_run word named, CacheServer.get_run word named, flushed]
  simp only [volume, image, named.1, named.2, false_or]
  by_cases created : t.HasVolume ("lv" ++ lowered lvid)
  · cases entry : t.imageCache server (charset.getBytes pid) with
    | none => cases t.image ("lv" ++ lowered lvid) pid <;> simp [created]
    | some b =>
      cases stored : t.image ("lv" ++ lowered lvid) pid with
      | none => simp [created]
      | some b' => simp [created, coherent.cached_image entry stored]
  · have absent : t.image ("lv" ++ lowered lvid) pid = none := by
      have missing : t.store.tables ("lv" ++ lowered lvid) = none := by
        simpa [World.HasVolume] using created
      simp [World.image, missing]
    cases t.imageCache server (charset.getBytes pid) <;> simp [created, absent]

section Shipped

def World.shippedRead : World :=
  (World.shippedPhoto [1]).setCached 0 (Charset.utf8.getBytes "7") (some [1])

theorem serve_shippedRead : serve exec (handler .shipped .utf8) .shipped
    [.upload 0 (some [1]) 7, .cacheGet 0 "2" "7"] =
      (.shippedRead, [.ok (.json 201 "7"), .ok (.image "7" [1])]) := by
  rw [serve, handler, upload_shipped, serve, handler, load_shipped]
  rfl

theorem image_cache_shows :
    ((handler .shipped .utf8 (.cacheGet 0 "1" "7")).run exec
      (serve exec (handler .shipped .utf8) .shipped
        [.upload 0 (some [1]) 7, .cacheGet 0 "2" "7"]).1).2 = .ok (.image "7" [1]) ∧
    ((handler .shipped .utf8 (.cacheGet 0 "1" "7")).run exec
      ((serve exec (handler .shipped .utf8) .shipped
        [.upload 0 (some [1]) 7, .cacheGet 0 "2" "7"]).1.flushed 0)).2 = .ok (.status 404) := by
  rw [serve_shippedRead, handler, CacheServer.get_run (by decide) (by decide),
    CacheServer.get_run (by decide) (by decide)]
  exact ⟨rfl, rfl⟩

theorem image_cache_transparent_own :
    ((handler .shipped .utf8 (.cacheGet 0 "2" "7")).run exec
        (serve exec (handler .shipped .utf8) .shipped
          [.upload 0 (some [1]) 7, .cacheGet 0 "2" "7"]).1).2 =
      ((handler .shipped .utf8 (.cacheGet 0 "2" "7")).run exec
        ((serve exec (handler .shipped .utf8) .shipped
          [.upload 0 (some [1]) 7, .cacheGet 0 "2" "7"]).1.flushed 0)).2 := by
  refine (image_cache_transparent_iff World.ready_shipped.photos World.ready_shipped.storeInfo
    (World.unused_shipped _) (by decide) (by decide) (by decide)).mpr (.inr (.inr (.inr ?_)))
  rw [serve_shippedRead]
  exact Option.some_ne_none [1]

end Shipped

end Haystack
