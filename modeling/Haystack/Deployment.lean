import Haystack.Sequential
import Haystack.Startup

/-! Servers that are started, restarted and reconfigured in any order. The volumes
that the web servers list and fill are always among those that the cache servers
have created. -/
namespace Haystack

open Calls Cql Java

/-- What happens to a deployment: a server is started with the counts of its
configuration file, or a web server handles an upload. -/
inductive Deed where
  | cacheStart (numLogicalVolumes : Int32)
  | webStart (server : Nat) (config : HSConfig)
  | upload (server : Nat) (fileBytes : Bytes) (currentTimeMillis : Int64)

structure Deployment where
  world : World
  configs : Nat → Option HSConfig

def World.blank : World where
  redis _ _ := none
  directory := ⟨false, none, none⟩
  store := ⟨false, fun _ => none⟩
  imageCache _ _ := none

namespace Deployment

def empty : Deployment := ⟨.blank, fun _ => none⟩

def perform (d : Deployment) : Deed → Deployment
  | .cacheStart n => ⟨((CacheServer.initCassandraStores n).run exec d.world).1, d.configs⟩
  | .webStart server config =>
    ⟨((WebServer.main config).run exec d.world).1, Function.update d.configs server (some config)⟩
  | .upload server b t =>
    match d.configs server with
    | none => d
    | some config => ⟨((WebServer.onPostImage config (some b) t).run exec d.world).1, d.configs⟩

def after (ds : List Deed) : Deployment := ds.foldl perform empty

end Deployment

/-- A web server is started after a cache server with at least as many volumes, and an
upload goes to a web server that was started and knows some cache server. -/
def Deed.Possible (done : List Deed) : Deed → Prop
  | .cacheStart n => 1 ≤ n.toInt ∧ n.toInt < 2 ^ 31 - 1
  | .webStart _ config => 1 ≤ config.numLogicalVolumes.toInt ∧
      config.numLogicalVolumes.toInt < 2 ^ 31 - 1 ∧
      ∃ n, .cacheStart n ∈ done ∧ config.numLogicalVolumes.toInt ≤ n.toInt
  | .upload server _ t => 0 ≤ t.toInt ∧
      ∃ config, (Deployment.after done).configs server = some config ∧
        config.objectCacheAddresses ≠ []

inductive Orderly : List Deed → Prop where
  | nil : Orderly []
  | snoc {done : List Deed} {deed : Deed} : Orderly done → deed.Possible done →
    Orderly (done ++ [deed])

def clocks (ds : List Deed) : List Int64 :=
  ds.filterMap (fun deed => match deed with
    | .upload _ _ t => some t
    | _ => none)

/-- The volume that an upload of the history proposes, by the configuration that its web server
has then. -/
def Proposes (ds : List Deed) (server : Nat) (b : Bytes) (t : Int64) (k : Int32) : Prop :=
  ∃ before after config, ds = before ++ .upload server b t :: after ∧
    (Deployment.after before).configs server = some config ∧
    WebServer.proposedLvid t config.numLogicalVolumes = .ok k

theorem Proposes.snoc {ds : List Deed} {server : Nat} {b : Bytes} {t : Int64} {k : Int32}
    (proposes : Proposes ds server b t k) (deed : Deed) :
    Proposes (ds ++ [deed]) server b t k := by
  obtain ⟨before, after, config, split, running, proposed⟩ := proposes
  exact ⟨before, after ++ [deed], config, by simp [split], running, proposed⟩

structure Sound (ds : List Deed) (d : Deployment) : Prop where
  keyspace : ∀ n, .cacheStart n ∈ ds → d.world.store.keyspace = true
  volumes : ∀ n, .cacheStart n ∈ ds → ∀ k : Int32, 1 ≤ k.toInt → k.toInt ≤ n.toInt →
    d.world.HasVolume (lv k)
  listed : ∀ k v, d.world.status k = some v → d.world.HasVolume (lv k) ∧ 1 ≤ k.toInt ∧ v = 1
  running : ∀ server config, d.configs server = some config →
    d.world.HasPhotos ∧ 1 ≤ config.numLogicalVolumes.toInt ∧
      ∀ k : Int32, 1 ≤ k.toInt → k.toInt ≤ config.numLogicalVolumes.toInt →
        d.world.status k = some 1
  rows : ∀ pid info, d.world.photo pid = some info → d.world.HasVolume (lv info.lvid)
  kept : ∀ server b t, .upload server b t ∈ ds → ∃ info, Proposes ds server b t info.lvid ∧
    d.world.photo (toString t) = some info ∧
    d.world.image (lv info.lvid) (toString t) = some b

section Sound

variable {ds : List Deed} {d : Deployment}

theorem sound_empty : Sound [] .empty := by
  refine ⟨?_, ?_, ?_, ?_, ?_, ?_⟩
  · simp
  · simp
  · intro k v status
    cases status
  · intro server config running
    cases running
  · intro pid info row
    cases row
  · simp

theorem Sound.cacheStart {n : Int32} (sound : Sound ds d) (positive : 1 ≤ n.toInt) :
    Sound (ds ++ [.cacheStart n]) (d.perform (.cacheStart n)) := by
  obtain ⟨new, ran, created⟩ := CacheServer.initCassandraStores_run d.world (n := n) (by omega)
  have world : (d.perform (.cacheStart n)).world = CacheServer.storeWith d.world new := by
    rw [Deployment.perform, ran]
  have stays : ∀ table, d.world.HasVolume table →
      (CacheServer.storeWith d.world new).HasVolume table := by
    intro table there
    rcases created table with ⟨-, here⟩ | ⟨-, here⟩
    · simp [World.HasVolume, CacheServer.storeWith, here]
    · simpa [World.HasVolume, CacheServer.storeWith, here] using there
  have images : ∀ table pid, (CacheServer.storeWith d.world new).image table pid =
      d.world.image table pid := by
    intro table pid
    rcases created table with ⟨-, here⟩ | ⟨-, here⟩
    · cases found : d.world.store.tables table <;>
        simp [World.image, CacheServer.storeWith, here, found]
    · simp [World.image, CacheServer.storeWith, here]
  refine ⟨?_, ?_, ?_, ?_, ?_, ?_⟩
  · intro m _
    rw [world]
    rfl
  · intro m member k lower upper
    rw [world]
    rcases List.mem_append.mp member with old | here
    · exact stays _ (sound.volumes m old k lower upper)
    · cases List.mem_singleton.mp here
      rcases created (lv k) with ⟨-, present⟩ | ⟨outside, -⟩
      · simp [World.HasVolume, CacheServer.storeWith, present]
      · exact absurd ⟨k, by omega, upper, rfl⟩ outside
  · intro k v status
    rw [world] at status ⊢
    obtain ⟨there, rest⟩ := sound.listed k v status
    exact ⟨stays _ there, rest⟩
  · intro server config running
    rw [world]
    exact sound.running server config running
  · intro pid info row
    rw [world] at row ⊢
    exact stays _ (sound.rows pid info row)
  · intro server b t member
    have old : .upload server b t ∈ ds := by simpa using member
    obtain ⟨info, proposes, row, image⟩ := sound.kept server b t old
    rw [world]
    exact ⟨info, proposes.snoc _, row, (images _ _).trans image⟩

theorem Sound.webStart {server : Nat} {config : HSConfig} {n : Int32} (sound : Sound ds d)
    (positive : 1 ≤ config.numLogicalVolumes.toInt)
    (below : config.numLogicalVolumes.toInt < 2 ^ 31 - 1)
    (earlier : .cacheStart n ∈ ds) (enough : config.numLogicalVolumes.toInt ≤ n.toInt) :
    Sound (ds ++ [.webStart server config]) (d.perform (.webStart server config)) := by
  obtain ⟨new, ran, listed⟩ := WebServer.main_run (by omega) below (sound.keyspace n earlier)
  have world : (d.perform (.webStart server config)).world =
      WebServer.directoryWith d.world new := by
    rw [Deployment.perform, ran]
  have status : ∀ k, (WebServer.directoryWith d.world new).status k =
      if 1 ≤ k.toInt ∧ k.toInt ≤ config.numLogicalVolumes.toInt then some 1
      else d.world.status k := by
    intro k
    rw [← World.status_getD d.world k]
    exact listed.status k
  refine ⟨?_, ?_, ?_, ?_, ?_, ?_⟩
  · intro m member
    rw [world]
    exact sound.keyspace m (by simpa using member)
  · intro m member k lower upper
    rw [world]
    exact sound.volumes m (by simpa using member) k lower upper
  · intro k v recorded
    rw [world] at recorded ⊢
    rw [status k] at recorded
    split at recorded
    · rename_i inside
      cases recorded
      exact ⟨sound.volumes n earlier k inside.1 (by omega), inside.1, rfl⟩
    · exact sound.listed k v recorded
  · intro other theirs running
    rw [world]
    have photos : (WebServer.directoryWith d.world new).HasPhotos := rfl
    simp only [Deployment.perform] at running
    by_cases same : other = server
    · subst same
      rw [Function.update_self] at running
      cases running
      refine ⟨photos, positive, ?_⟩
      intro k lower upper
      rw [status k, if_pos ⟨lower, upper⟩]
    · rw [Function.update_of_ne same] at running
      obtain ⟨-, atLeast, writable⟩ := sound.running other theirs running
      refine ⟨photos, atLeast, ?_⟩
      intro k lower upper
      rw [status k, writable k lower upper, ite_self]
  · intro pid info row
    rw [world] at row ⊢
    rw [WebServer.photo_directoryWith] at row
    exact sound.rows pid info row
  · intro v b t member
    rw [world, WebServer.photo_directoryWith]
    obtain ⟨info, proposes, row, image⟩ := sound.kept v b t (by simpa using member)
    exact ⟨info, proposes.snoc _, row, image⟩

theorem Sound.placed {server : Nat} {config : HSConfig} {t : Int64} (sound : Sound ds d)
    (running : d.configs server = some config) (nonneg : 0 ≤ t.toInt) :
    ∃ table k, d.world.directory.storeInfo = some table ∧
      WebServer.proposedLvid t config.numLogicalVolumes = .ok k ∧ (k, 1) ∈ table.rows ∧
      1 ≤ k.toInt ∧ d.world.HasVolume (lv k) := by
  obtain ⟨-, positive, writable⟩ := sound.running server config running
  obtain ⟨k, proposed, -, lower, upper⟩ := WebServer.proposedLvid_range nonneg positive
  have recorded := writable k lower upper
  cases stored : d.world.directory.storeInfo with
  | none => simp [World.status, stored] at recorded
  | some table =>
    refine ⟨table, k, rfl, proposed, ?_, lower, (sound.listed k 1 recorded).1⟩
    apply StoreInfo.mem_iff_status.mpr
    simpa [World.status, stored] using recorded

theorem Sound.uploaded {server : Nat} (b : Bytes) {t : Int64} {config : HSConfig}
    (sound : Sound ds d) (running : d.configs server = some config) (nonneg : 0 ≤ t.toInt)
    (caches : config.objectCacheAddresses ≠ []) :
    ∃ info, WebServer.proposedLvid t config.numLogicalVolumes = .ok info.lvid ∧
      d.world.HasVolume (lv info.lvid) ∧ (d.perform (.upload server b t)).configs = d.configs ∧
      (d.perform (.upload server b t)).world =
        (d.world.setPhoto (toString t) (some info)).setImage (lv info.lvid) (toString t)
        (some b) := by
  classical
  obtain ⟨table, k, storeInfo, proposed, listed, lower, created⟩ := sound.placed running nonneg
  obtain ⟨address, -, url⟩ := WebServer.selectCacheUrl_found nonneg caches
  have nonzero : k ≠ 0 := by
    rintro rfl
    simp at lower
  have selected := WebServer.selectLvid_found proposed nonzero listed
  have fits := World.fits_schema (sound.running server config running).1 storeInfo
  obtain ⟨info, placed, volume⟩ : ∃ info,
      WebServer.placement config (d.world.schema table).table t =
    .ok info ∧ info.lvid = k := ⟨_, WebServer.placement_ok selected url, rfl⟩
  subst volume
  have usable : WebServer.Usable (d.world.schema table) info :=
    ⟨Int.le_trans (by decide) lower, created⟩
  refine ⟨info, proposed, created, ?_, ?_⟩
  · simp only [Deployment.perform, running]
  · simp only [Deployment.perform, running]
    rw [WebServer.onPostImage_run fits, placed]
    dsimp only
    rw [WebServer.storeImage_run fits, if_pos usable]

theorem Sound.upload {server : Nat} {b : Bytes} {t : Int64} {config : HSConfig} (sound : Sound ds d)
    (reached : d = .after ds) (running : d.configs server = some config) (nonneg : 0 ≤ t.toInt)
    (caches : config.objectCacheAddresses ≠ []) (unused : t ∉ clocks ds) :
    Sound (ds ++ [.upload server b t]) (d.perform (.upload server b t)) := by
  obtain ⟨info, proposed, created, configs, world⟩ := sound.uploaded b running nonneg caches
  have photos := (sound.running server config running).1
  have stays : ∀ place, d.world.HasVolume place →
      (d.perform (.upload server b t)).world.HasVolume place := by
    intro place there
    rw [world, World.hasVolume_setImage]
    exact there
  have status : ∀ j, (d.perform (.upload server b t)).world.status j = d.world.status j := by
    intro j
    rw [world]
    rfl
  refine ⟨?_, ?_, ?_, ?_, ?_, ?_⟩
  · intro m member
    rw [world]
    exact sound.keyspace m (by simpa using member)
  · intro m member j first last
    exact stays _ (sound.volumes m (by simpa using member) j first last)
  · intro j v recorded
    rw [status] at recorded
    obtain ⟨there, rest⟩ := sound.listed j v recorded
    exact ⟨stays _ there, rest⟩
  · intro other theirs live
    rw [configs] at live
    obtain ⟨-, atLeast, writable⟩ := sound.running other theirs live
    refine ⟨?_, atLeast, ?_⟩
    · rw [world, World.hasPhotos_setImage, World.hasPhotos_setPhoto]
      exact photos
    · intro j first last
      rw [status, writable j first last]
  · intro pid other row
    rw [world, World.photo_setImage, World.photo_setPhoto photos] at row
    apply stays
    split at row
    · cases row
      exact created
    · exact sound.rows pid other row
  · intro v c u member
    rw [world, World.photo_setImage, World.photo_setPhoto photos]
    rcases List.mem_append.mp member with old | here
    · have differ : u ≠ t := by
        rintro rfl
        exact unused (List.mem_filterMap.mpr ⟨_, old, rfl⟩)
      have apart : toString u ≠ toString t := fun same => differ (toString_injective same)
      obtain ⟨other, proposes, row, image⟩ := sound.kept v c u old
      refine ⟨other, proposes.snoc _, ?_, ?_⟩
      · rw [if_neg apart, row]
      · rw [World.image_setImage _ _ _ _ (by exact created), if_neg (fun both => apart both.2)]
        exact image
    · cases List.mem_singleton.mp here
      refine ⟨info, ⟨ds, [], config, rfl, reached ▸ running, proposed⟩, if_pos rfl, ?_⟩
      rw [World.image_setImage _ _ _ _ (by exact created), if_pos ⟨rfl, rfl⟩]

theorem orderly_sound (orderly : Orderly ds) (distinct : (clocks ds).Nodup) :
    Sound ds (Deployment.after ds) := by
  induction orderly with
  | nil => exact sound_empty
  | @snoc done deed earlier possible ih =>
    have split : clocks (done ++ [deed]) = clocks done ++ clocks [deed] := List.filterMap_append ..
    rw [split, List.nodup_append] at distinct
    have sound := ih distinct.1
    have next : Deployment.after (done ++ [deed]) = (Deployment.after done).perform deed := by
      simp [Deployment.after, List.foldl_append]
    rw [next]
    cases deed with
    | cacheStart n => exact sound.cacheStart possible.1
    | webStart server config =>
      obtain ⟨positive, below, n, member, enough⟩ := possible
      exact sound.webStart positive below member enough
    | upload server b t =>
      obtain ⟨nonneg, config, running, caches⟩ := possible
      apply sound.upload rfl running nonneg caches
      intro used
      exact distinct.2.2 t used t (by simp [clocks]) rfl

end Sound

/-- After any history of starts and uploads, every volume that store_info lists and
every volume that a row names has its table; the scan of the next upload on any running
web server finds the volume it proposes; and the row of every photo ever uploaded names the volume
that its upload proposed, in whose table the photo is. -/
theorem volumes_agree {ds : List Deed} (orderly : Orderly ds) (distinct : (clocks ds).Nodup) :
    (∀ k v, (Deployment.after ds).world.status k = some v →
      (Deployment.after ds).world.HasVolume (lv k)) ∧
    (∀ pid info, (Deployment.after ds).world.photo pid = some info →
      (Deployment.after ds).world.HasVolume (lv info.lvid)) ∧
    (∀ server config t, (Deployment.after ds).configs server = some config → 0 ≤ t.toInt →
      ∃ table k rest, (Deployment.after ds).world.directory.storeInfo = some table ∧
        WebServer.proposedLvid t config.numLogicalVolumes = .ok k ∧ k ≠ 0 ∧
        WebServer.scanVolumes k table.writable = .ok (k, rest)) ∧
    ∀ server b t, .upload server b t ∈ ds → ∃ info, Proposes ds server b t info.lvid ∧
      (Deployment.after ds).world.photo (toString t) = some info ∧
      (Deployment.after ds).world.image (lv info.lvid) (toString t) = some b := by
  have sound := orderly_sound orderly distinct
  refine ⟨fun k v recorded => (sound.listed k v recorded).1, sound.rows, ?_, sound.kept⟩
  intro server config t running nonneg
  obtain ⟨table, k, stored, proposed, listed, lower, -⟩ := sound.placed running nonneg
  obtain ⟨rest, scanned⟩ := WebServer.scanVolumes_listed listed
  refine ⟨table, k, rest, stored, proposed, ?_, scanned⟩
  rintro rfl
  simp at lower

def shrunk : List Deed := [.cacheStart 3, .webStart 0 .shipped, .upload 0 [1] 7, .cacheStart 1]

theorem volumes_agree_shrunk : ∃ info, Proposes shrunk 0 [1] 7 info.lvid ∧
    (Deployment.after shrunk).world.photo (toString (7 : Int64)) = some info ∧
    (Deployment.after shrunk).world.image (lv info.lvid) (toString (7 : Int64)) = some [1] := by
  have first : Orderly [.cacheStart 3] := .snoc .nil (by simp [Deed.Possible])
  have second : Orderly [.cacheStart 3, .webStart 0 .shipped] :=
    .snoc first ⟨by decide, by decide, 3, by simp, by decide⟩
  have third : Orderly [.cacheStart 3, .webStart 0 .shipped, .upload 0 [1] 7] :=
    .snoc second ⟨by simp, .shipped, rfl, by decide⟩
  have fourth : Orderly shrunk := .snoc third (by simp [Deed.Possible])
  exact (volumes_agree fourth (by decide)).2.2.2 0 [1] 7 (by simp [shrunk])

end Haystack
