import Haystack.Sequential
import Haystack.Stages

/-! The redis of a web server is a cache and nothing more, as long as requests
are handled one at a time: whatever is cut off and whatever redis loses, its
entries are URLs of rows that exist, and no reply depends on it. -/
namespace Haystack

open Calls Cql Java

/-- What a handler goes on with where its redis calls are taken out: a miss. -/
def noRedis : (c : Call) → Option (Answer c)
  | .jedisGet _ _ => some none
  | .jedisSet _ _ _ => some ()
  | .jedisDel _ _ => some ()
  | _ => none

def World.lose (server : Nat) (lost : String → Bool) (s : World) : World :=
  { s with
    redis := Function.update s.redis server
      (fun key => if lost key then none else s.redis server key) }

/-- A request whose calls meet the faults in turn, or redis losing entries. -/
inductive Episode where
  | request (q : Request) (faults : List Fault)
  | loss (lost : String → Bool)

section Episodes

variable (config : HSConfig) (charset : Charset) (server : Nat)

def episode (s : World) : Episode → World
  | .request q faults => ((handler config charset q).faulty exec faults s).1
  | .loss lost => s.lose server lost

def history (s : World) (es : List Episode) : World := es.foldl (episode config charset server) s

end Episodes

structure Mirrored (config : HSConfig) (schema : Schema) (server : Nat) (s : World) : Prop where
  fits : s.Fits schema
  rows : ∀ pid info, s.photo pid = some info →
    ∃ t : Int64, pid = toString t ∧ WebServer.placement config schema.table t = .ok info
  mirror : ∀ pid url, s.redis server pid = some url →
    ∃ info, s.photo pid = some info ∧ url = info.path pid

section Mirror

variable {config : HSConfig} {charset : Charset} {schema : Schema} {server : Nat} {s : World}
  {pid : String}

namespace Mirrored

theorem fill {info : PhotoInfo} (mirrored : Mirrored config schema server s)
    (row : s.photo pid = some info) :
    Mirrored config schema server (s.setRedis server pid (some (info.path pid))) := by
  refine ⟨mirrored.fits.setRedis _ _ _, mirrored.rows, ?_⟩
  intro q url found
  rw [World.redis_setRedis] at found
  split at found
  · rename_i same
    cases same.2
    exact ⟨info, row, (Option.some.inj found).symm⟩
  · exact mirrored.mirror q url found

theorem evict (mirrored : Mirrored config schema server s) :
    Mirrored config schema server (s.setRedis server pid none) := by
  refine ⟨mirrored.fits.setRedis _ _ _, mirrored.rows, ?_⟩
  intro q url found
  exact mirrored.mirror q url (World.redis_of_evicted found)

theorem drop (mirrored : Mirrored config schema server s) (evicted : s.redis server pid = none) :
    Mirrored config schema server (s.setPhoto pid none) := by
  have photos := mirrored.fits.photos
  refine ⟨mirrored.fits.setPhoto _ _, ?_, ?_⟩
  · intro q info found
    exact mirrored.rows q info (World.photo_of_dropped photos found)
  · intro q url found
    obtain ⟨info, row, path⟩ := mirrored.mirror q url found
    refine ⟨info, ?_, path⟩
    rw [World.photo_setPhoto photos, if_neg, row]
    rintro rfl
    cases evicted.symm.trans found

theorem enter {t : Int64} {info : PhotoInfo} (mirrored : Mirrored config schema server s)
    (placed : WebServer.placement config schema.table t = .ok info) :
    Mirrored config schema server (s.setPhoto (toString t) (some info)) := by
  have photos := mirrored.fits.photos
  refine ⟨mirrored.fits.setPhoto _ _, ?_, ?_⟩
  · intro q found entered
    rw [World.photo_setPhoto photos] at entered
    split at entered
    · rename_i same
      cases entered
      exact ⟨t, same, placed⟩
    · exact mirrored.rows q found entered
  · intro q url found
    obtain ⟨old, row, path⟩ := mirrored.mirror q url found
    rw [World.photo_setPhoto photos]
    split
    · rename_i same
      obtain ⟨t', key, placed'⟩ := mirrored.rows q old row
      cases toString_injective (key.symm.trans same)
      cases placed.symm.trans placed'
      exact ⟨info, rfl, path⟩
    · exact ⟨old, row, path⟩

theorem store (mirrored : Mirrored config schema server s) (table : String) (bytes : Option Bytes) :
    Mirrored config schema server (s.setImage table pid bytes) :=
  ⟨mirrored.fits.setImage _ _ _, mirrored.rows, mirrored.mirror⟩

theorem lose (mirrored : Mirrored config schema server s) (lost : String → Bool) :
    Mirrored config schema server (s.lose server lost) := by
  refine ⟨⟨mirrored.fits.photos, mirrored.fits.storeInfo, mirrored.fits.volumes⟩, mirrored.rows, ?_⟩
  intro q url found
  simp only [World.lose, Function.update_self] at found
  split at found
  · contradiction
  · exact mirrored.mirror q url found

end Mirrored

theorem handler_mirrored (charset : Charset) {q : Request} (here : q.Local server) :
    (handler config charset q).Holds (.alone (Mirrored config schema server)) exec
      (fun _ _ => True) s := by
  cases q with
  | upload w img t =>
    refine WebServer.onPostImage_holds (fun _ inv => Mirrored.fits inv) (fun _ _ _ _ => trivial)
      (fun _ _ _ _ _ _ => trivial) ?_
    intro info b file placed u _ _
    apply WebServer.storeImage_holds (fun _ inv => Mirrored.fits inv)
    intro v _ inv
    refine ⟨⟨Mirrored.enter inv placed, trivial⟩, ?_⟩
    intro x _ inv'
    exact ⟨fun _ _ _ _ => trivial,
      fun _ => ⟨⟨Mirrored.store inv' _ _, trivial⟩, fun _ _ _ => trivial⟩⟩
  | webGet w pid =>
    obtain ⟨rfl, plain⟩ := here
    refine WebServer.onGetImage_holds plain (fun _ inv => Mirrored.fits inv)
      (fun _ _ _ _ => trivial)
      (fun _ _ _ _ _ _ _ _ _ => trivial) (fun _ _ _ _ _ _ _ _ => trivial) ?_
    rintro _ u _ _ info row v rfl inv
    exact ⟨⟨Mirrored.fill inv row, trivial⟩, fun _ _ _ => trivial⟩
  | webDelete w pid =>
    obtain ⟨rfl, plain⟩ := here
    apply WebServer.onDelete_holds plain (fun _ inv => Mirrored.fits inv)
    intro u _ inv
    refine ⟨⟨Mirrored.evict inv, trivial⟩, ?_⟩
    rintro v rfl _
    refine ⟨fun _ _ _ _ => trivial, ?_⟩
    rintro info _ x rfl inv'
    refine ⟨⟨Mirrored.drop inv' ?_, trivial⟩, fun _ _ _ => trivial⟩
    rw [World.redis_setRedis, if_pos ⟨rfl, rfl⟩]
  | cacheGet w lvid pid => exact here.elim
  | cacheDelete w pid => exact here.elim

theorem episode_mirrored (charset : Charset) {e : Episode}
    (here : ∀ q faults, e = .request q faults → q.Local server)
    (mirrored : Mirrored config schema server s) :
    Mirrored config schema server (episode config charset server s e) := by
  cases e with
  | request q faults => exact (handler_mirrored charset (here q faults rfl)).faulty mirrored faults
  | loss lost => exact mirrored.lose lost

theorem history_mirrored (charset : Charset) {es : List Episode}
    (here : ∀ q faults, .request q faults ∈ es → q.Local server)
    (mirrored : Mirrored config schema server s) :
    Mirrored config schema server (history config charset server s es) := by
  induction es generalizing s with
  | nil => exact mirrored
  | cons e es ih =>
    apply ih (fun q faults member => here q faults (List.mem_cons_of_mem e member))
    exact episode_mirrored charset
      (fun q faults eq => here q faults (eq ▸ List.mem_cons_self)) mirrored

namespace WebServer

theorem onGetImage_without_run (plain : Plain pid) (photos : s.HasPhotos) (named : pid ≠ "") :
    ((onGetImage server pid).without noRedis).run exec s = (s, .ok (match s.photo pid with
      | none => .result 404 "PID does not exist."
      | some info => .redirect (info.path pid))) := by
  obtain ⟨next, tree, continued⟩ := onGetImage_eq server named
  obtain ⟨next', tree', continued'⟩ := onCacheMiss_eq server pid
  rw [tree, Program.without_removed (r := none) rfl, continued]
  change ((onCacheMiss server pid).without noRedis).run exec s = _
  rw [tree', Program.without_kept rfl, Program.run_call_ok exec (exec_selectPhoto plain photos),
    continued']
  cases s.photo pid <;> rfl

theorem onDelete_without_run (plain : Plain pid) (photos : s.HasPhotos) :
    ((onDelete server pid).without noRedis).run exec s = match s.photo pid with
      | none => (s, .ok (.result 404 "No such image."))
      | some _ => (s.setPhoto pid none, .ok (.result 200 "Image deleted.")) := by
  obtain ⟨next, tree, missing, present⟩ := searchRow_eq pid
  rw [onDelete_eq, Program.without_removed (r := ()) rfl, tree, Program.without_kept rfl,
    Program.run_call_ok exec (exec_searchQuery plain photos)]
  cases s.photo pid with
  | none =>
    rw [Option.map_none, Option.toList_none, missing]
    rfl
  | some info =>
    rw [Option.map_some, Option.toList_some, present, deleteRow, Program.without_kept rfl,
      Program.run_call_ok exec (exec_delQuery plain photos)]
    rfl

theorem onPostImage_without (img : Option Bytes) (t : Int64) :
    (onPostImage config img t).without noRedis = onPostImage config img t := by
  cases img with
  | none => rfl
  | some b =>
    simp only [onPostImage, execute_bind, prepare_bind, executeBound_bind]
    simp only [Program.without, noRedis, Program.without_lift, Program.pure_eq]

end WebServer

theorem handler_without_run (charset : Charset) {q : Request} (here : q.Local server)
    (mirrored : Mirrored config schema server s) :
    ∃ t, ((handler config charset q).without noRedis).run exec s =
        (t, ((handler config charset q).run exec s).2) ∧
      t.directory = ((handler config charset q).run exec s).1.directory ∧
      t.store = ((handler config charset q).run exec s).1.store := by
  have photos := mirrored.fits.photos
  cases q with
  | upload w img t =>
    simp only [handler, WebServer.onPostImage_without]
    exact ⟨_, rfl, rfl, rfl⟩
  | webGet w pid =>
    obtain ⟨rfl, plain⟩ := here
    by_cases named : pid = ""
    · subst named
      exact ⟨s, rfl, rfl, rfl⟩
    · simp only [handler, WebServer.onGetImage_without_run plain photos named,
        WebServer.onGetImage_run named, WebServer.onCacheMiss_run plain photos]
      cases entry : s.redis w pid with
      | none => cases s.photo pid <;> exact ⟨s, rfl, rfl, rfl⟩
      | some url =>
        obtain ⟨info, row, rfl⟩ := mirrored.mirror pid url entry
        simp [WebServer.usable, Option.filter, PhotoInfo.trim_path, row]
  | webDelete w pid =>
    obtain ⟨rfl, plain⟩ := here
    simp only [handler, WebServer.onDelete_without_run plain photos,
      WebServer.onDelete_run w plain photos]
    cases s.photo pid <;> exact ⟨_, rfl, rfl, rfl⟩
  | cacheGet w lvid pid => exact here.elim
  | cacheDelete w pid => exact here.elim

end Mirror

/-- One web server handles requests one after another, any of them cut off at any
call, and its redis loses entries in between. Every redis entry is the URL of a row
that exists, and a request that is answered is answered the same, with the same
directory and store left behind, as by the handler without its redis calls. -/
theorem redirect_cache_invisible (config : HSConfig) (charset : Charset) (server : Nat) {s : World}
    {table : StoreInfo} (photos : s.HasPhotos) (storeInfo : s.directory.storeInfo = some table)
    (noPhotos : ∀ pid, s.photo pid = none) (noEntries : ∀ pid, s.redis server pid = none)
    (es : List Episode) (here : ∀ q faults, .request q faults ∈ es → q.Local server) :
    (∀ pid url, (history config charset server s es).redis server pid = some url →
      ∃ info, (history config charset server s es).photo pid = some info ∧ url = info.path pid) ∧
    ∀ q faults u reply, q.Local server →
      (handler config charset q).faulty exec faults (history config charset server s es) =
        (u, some reply) →
      ∃ t, ((handler config charset q).without noRedis).run exec
          (history config charset server s es) = (t, .ok reply) ∧
        t.directory = u.directory ∧ t.store = u.store := by
  have initially : Mirrored config (s.schema table) server s := by
    refine ⟨World.fits_schema photos storeInfo, ?_, ?_⟩
    · intro pid info found
      rw [noPhotos] at found
      contradiction
    · intro pid url found
      rw [noEntries] at found
      contradiction
  have mirrored := history_mirrored charset here initially
  refine ⟨mirrored.mirror, ?_⟩
  intro q faults u reply this answered
  have ran := Program.run_of_faulty exec answered
  have same := handler_without_run charset this mirrored
  rw [ran] at same
  exact same

theorem redirect_cache_invisible_cutOff :
    let url := "http://unix5.andrew.cmu.edu:9876/get?lvid=2&pid=7"
    let s := history .shipped .utf8 0 .shipped [.request (.upload 0 (some [1]) 7) [],
      .request (.webGet 0 "7") [.none, .none, .after], .loss (fun key => key == "8")]
    s.redis 0 "7" = some url ∧ ∃ t, ((handler .shipped .utf8 (.webGet 0 "7")).without noRedis).run
      exec s = (t, .ok (.redirect url)) ∧ t.directory = s.directory ∧ t.store = s.store := by
  intro url s
  have cut : ((WebServer.onGetImage 0 "7").faulty exec [.none, .none, .after]
      (World.shippedPhoto [1])).1 = (World.shippedPhoto [1]).setRedis 0 "7" (some url) := by
    obtain ⟨next, tree, continued⟩ := WebServer.onGetImage_eq 0 (by decide : "7" ≠ "")
    obtain ⟨next', tree', continued'⟩ := WebServer.onCacheMiss_eq 0 "7"
    have row :=
      WebServer.exec_selectPhoto (by decide : Plain "7") (World.shippedPhoto_fits [1]).photos
    rw [World.shippedPhoto_photo, if_pos rfl] at row
    rw [tree]
    change ((next none).faulty exec [.none, .after] (World.shippedPhoto [1])).1 = _
    rw [continued]
    change ((WebServer.onCacheMiss 0 "7").faulty exec [.none, .after]
      (World.shippedPhoto [1])).1 = _
    rw [tree']
    simp only [Program.faulty, List.headD_cons, List.tail_cons, row]
    rw [continued']
    rfl
  have entry : s.redis 0 "7" = some url := by
    change (((handler .shipped .utf8 (.webGet 0 "7")).faulty exec [.none, .none, .after]
      ((handler .shipped .utf8 (.upload 0 (some [1]) 7)).faulty exec [] .shipped).1).1.lose 0
        (fun key => key == "8")).redis 0 "7" = _
    rw [handler, handler, Program.faulty_nil, upload_shipped, cut]
    rfl
  have answered : (handler .shipped .utf8 (.webGet 0 "7")).faulty exec [] s =
      (s, some (.redirect url)) := by
    have shown : WebServer.usable (some url) = some url := by decide
    rw [Program.faulty_nil, handler, WebServer.onGetImage_run (by decide), entry, shown]
    rfl
  refine ⟨entry, (redirect_cache_invisible .shipped .utf8 0 (s := .shipped) rfl rfl (fun _ => rfl)
    (fun _ => rfl) _ ?_).2 (.webGet 0 "7") [] s _ (by decide) answered⟩
  intro q faults member
  simp only [List.mem_cons, Episode.request.injEq, List.not_mem_nil, reduceCtorEq,
    or_false] at member
  rcases member with ⟨rfl, -⟩ | ⟨rfl, -⟩ <;> decide

end Haystack
