import Haystack.Sequential
import Haystack.Stages
import Haystack.Calls.Rely
import Haystack.Calls.Serial

/-! Requests about different photos do not interfere: any interleaving of them ends
like any order of handling them one after another. -/
namespace Haystack

open Calls Cql Java

def Request.subject : Request → Option String
  | .upload _ (some _) t => some (toString t)
  | .webGet _ pid => some pid
  | .webDelete _ pid => some pid
  | _ => none

def Request.Gets : Request → Prop
  | .webGet _ _ => True
  | _ => False

/-- No two requests are about the same photo, unless both are gets. -/
def Independent (qs : List Request) : Prop :=
  qs.Pairwise (fun q r => ∀ pid, q.subject = some pid → r.subject = some pid → q.Gets ∧ r.Gets)

section Writes

variable (server : Nat) (pid : String)

def Request.WritesEntry : Request → Prop
  | .webGet w p => w = server ∧ p = pid
  | .webDelete w p => w = server ∧ p = pid
  | _ => False

def Request.WritesRow : Request → Prop
  | .upload _ (some _) t => toString t = pid
  | .webDelete _ p => p = pid
  | _ => False

def Request.WritesImage : Request → Prop
  | .upload _ (some _) t => toString t = pid
  | _ => False

end Writes

structure World.Agree (pid : String) (s t : World) : Prop where
  photo : t.photo pid = s.photo pid
  redis : ∀ server, t.redis server pid = s.redis server pid
  image : ∀ table, t.image table pid = s.image table pid

structure World.Alike (s t : World) : Prop where
  directory : t.directory.keyspace = s.directory.keyspace
  storeInfo : t.directory.storeInfo = s.directory.storeInfo
  photos : t.HasPhotos ↔ s.HasPhotos
  store : t.store.keyspace = s.store.keyspace
  volumes : ∀ table, t.HasVolume table ↔ s.HasVolume table
  cached : t.imageCache = s.imageCache

namespace World

variable {s t u : World} {pid : String}

theorem Agree.refl (pid : String) (s : World) : Agree pid s s := ⟨rfl, fun _ => rfl, fun _ => rfl⟩

theorem Agree.trans (first : Agree pid s t) (second : Agree pid t u) : Agree pid s u :=
  ⟨second.photo.trans first.photo, fun v => (second.redis v).trans (first.redis v),
    fun table => (second.image table).trans (first.image table)⟩

theorem Alike.refl (s : World) : Alike s s := ⟨rfl, rfl, Iff.rfl, rfl, fun _ => Iff.rfl, rfl⟩

theorem Alike.setRedis (alike : Alike s t) (server : Nat) (url : Option String) :
    Alike s (t.setRedis server pid url) :=
  ⟨alike.directory, alike.storeInfo, alike.photos, alike.store, alike.volumes, alike.cached⟩

theorem Alike.setPhoto (alike : Alike s t) (info : Option PhotoInfo) :
    Alike s (t.setPhoto pid info) :=
  ⟨alike.directory, alike.storeInfo, by simpa using alike.photos, alike.store, alike.volumes,
    alike.cached⟩

theorem Alike.setImage (alike : Alike s t) (table : String) (bytes : Option Bytes) :
    Alike s (t.setImage table pid bytes) :=
  ⟨alike.directory, alike.storeInfo, alike.photos, alike.store,
    fun place => by simpa using alike.volumes place, alike.cached⟩

theorem Alike.fits {table : StoreInfo} (alike : Alike s t) (photos : s.HasPhotos)
    (storeInfo : s.directory.storeInfo = some table) : t.Fits (s.schema table) :=
  ⟨alike.photos.mpr photos, alike.storeInfo.trans storeInfo, alike.volumes⟩

theorem table_eq {β : Type} {f g : Option (String → Option β)}
    (both : f.isSome = true ↔ g.isSome = true)
    (same : ∀ pid, f.bind (fun rows => rows pid) = g.bind (fun rows => rows pid)) : f = g := by
  cases f with
  | none =>
    cases g with
    | none => rfl
    | some rows => simp at both
  | some rows =>
    cases g with
    | none => simp at both
    | some rows' => exact congrArg some (funext same)

theorem photoInfo_eq (alike : Alike s t) (agree : ∀ pid, Agree pid s t) :
    t.directory.photoInfo = s.directory.photoInfo :=
  table_eq alike.photos (fun pid => (agree pid).photo)

theorem tables_eq (alike : Alike s t) (agree : ∀ pid, Agree pid s t) :
    t.store.tables = s.store.tables :=
  funext fun table => table_eq (alike.volumes table) (fun pid => (agree pid).image table)

theorem eq_of_agree (alike : Alike s t) (agree : ∀ pid, Agree pid s t) : t = s := by
  have redis : t.redis = s.redis := by
    funext server pid
    exact (agree pid).redis server
  have rows := photoInfo_eq alike agree
  have images := tables_eq alike agree
  have keyspace := alike.directory
  have storeInfo := alike.storeInfo
  have keyspace' := alike.store
  have cached := alike.cached
  obtain ⟨redis₁, ⟨keyspace₁, storeInfo₁, rows₁⟩, ⟨keyspace₂, images₂⟩, cached₁⟩ := s
  obtain ⟨redis₃, ⟨keyspace₃, storeInfo₃, rows₃⟩, ⟨keyspace₄, images₄⟩, cached₃⟩ := t
  simp only at redis rows images keyspace storeInfo keyspace' cached
  subst redis rows images keyspace storeInfo keyspace' cached
  rfl

end World

/-- What no request writes is as it was in the state s. -/
structure Undisturbed (qs : List Request) (s t : World) : Prop where
  alike : s.Alike t
  row : ∀ pid, (∀ q ∈ qs, ¬ q.WritesRow pid) → t.photo pid = s.photo pid
  image : ∀ pid, (∀ q ∈ qs, ¬ q.WritesImage pid) → ∀ table, t.image table pid = s.image table pid
  entry : ∀ server pid, (∀ q ∈ qs, ¬ q.WritesEntry server pid) →
    t.redis server pid = s.redis server pid

theorem Undisturbed.same {qs rs : List Request} {s t : World} (kept : Undisturbed qs s t)
    (members : ∀ q, q ∈ qs ↔ q ∈ rs) : Undisturbed rs s t := by
  refine ⟨kept.alike, ?_, ?_, ?_⟩
  · exact fun pid untouched => kept.row pid (fun q member => untouched q ((members q).mp member))
  · exact fun pid untouched => kept.image pid (fun q member => untouched q ((members q).mp member))
  · exact fun v pid untouched =>
      kept.entry v pid (fun q member => untouched q ((members q).mp member))

def Filled (s : World) (server : Nat) (pid : String) (t u : World) : Prop :=
  u.redis server pid = t.redis server pid ∨ pid ≠ "" ∧
    WebServer.usable (t.redis server pid) = none ∧
    ∃ info, s.photo pid = some info ∧ u.redis server pid = some (info.path pid)

theorem usable_path (pid : String) (info : PhotoInfo) :
    WebServer.usable (some (info.path pid)) = some (info.path pid) := by
  simp [WebServer.usable, Option.filter, PhotoInfo.trim_path]

theorem Filled.trans {s t u v : World} {server : Nat} {pid : String}
    (first : Filled s server pid t u)
    (second : Filled s server pid u v) : Filled s server pid t v := by
  rcases first with same | ⟨named, empty, info, row, entry⟩
  · rcases second with again | ⟨named, empty, filled⟩
    · exact .inl (again.trans same)
    · exact .inr ⟨named, same ▸ empty, filled⟩
  · rcases second with again | ⟨-, empty', -⟩
    · exact .inr ⟨named, empty, info, row, again.trans entry⟩
    · rw [entry, usable_path] at empty'
      contradiction

/-- What the others may do to a request, and what it does itself: the others leave its
photo alone, except that another get may fill the redis entry that a get reads. -/
def ownPhoto (qs : List Request) (s : World) (q : Request) : Discipline World where
  invariant := Undisturbed qs s
  moves t u := (q.Gets ∨ ∀ pid, q.subject = some pid → t.Agree pid u) ∧
    ∀ server pid, q = .webGet server pid → Filled s server pid t u
  steps t u := (∀ pid, q.subject ≠ some pid → t.Agree pid u) ∧
    ∀ pid, q.Gets → q.subject = some pid → ∀ server, Filled s server pid t u
  refl t := ⟨.inr (fun pid _ => .refl pid t), fun _ _ _ => .inl rfl⟩
  trans first second := by
    refine ⟨?_, fun server pid get => (first.2 server pid get).trans (second.2 server pid get)⟩
    rcases first.1 with gets | agree
    · exact .inl gets
    · exact second.1.imp_right (fun agree' pid own => (agree pid own).trans (agree' pid own))
  still t := ⟨fun pid _ => .refl pid t, fun _ _ _ _ => .inl rfl⟩

theorem compatible_of_independent {qs rs : List Request} {s : World}
    (independent : Independent rs) :
    rs.Pairwise (Compatible (ownPhoto qs s)) := by
  have oneWay : ∀ q r : Request, (∀ pid, q.subject = some pid → r.subject = some pid →
      q.Gets ∧ r.Gets) → ∀ t u, (ownPhoto qs s q).steps t u → (ownPhoto qs s r).moves t u := by
    intro q r apart t u step
    constructor
    · by_cases gets : r.Gets
      · exact .inl gets
      · refine .inr (fun pid own => step.1 pid ?_)
        exact fun same => gets (apart pid same own).2
    · rintro server pid rfl
      by_cases same : q.subject = some pid
      · exact step.2 pid (apart pid same rfl).1 same server
      · exact .inl ((step.1 pid same).redis server)
  apply independent.imp
  intro q r apart
  exact ⟨oneWay q r apart, oneWay r q (fun pid own other => (apart pid other own).symm)⟩

section Writing

variable {qs : List Request} {s t : World} {q : Request} {pid : String}

theorem World.agree_setRedis {other : String} (differ : other ≠ pid) (server : Nat)
    (url : Option String) : t.Agree other (t.setRedis server pid url) := by
  refine ⟨rfl, ?_, fun _ => rfl⟩
  intro v
  rw [World.redis_setRedis, if_neg (fun same => differ same.2)]

theorem World.agree_setPhoto {other : String} (photos : t.HasPhotos) (differ : other ≠ pid)
    (info : Option PhotoInfo) : t.Agree other (t.setPhoto pid info) := by
  refine ⟨?_, fun _ => rfl, fun _ => rfl⟩
  rw [World.photo_setPhoto photos, if_neg differ]

theorem World.agree_setImage {other table : String} (created : t.HasVolume table)
    (differ : other ≠ pid) (bytes : Option Bytes) : t.Agree other (t.setImage table pid bytes) := by
  refine ⟨rfl, fun _ => rfl, ?_⟩
  intro place
  rw [World.image_setImage _ _ _ _ created, if_neg (fun same => differ same.2)]

theorem World.Agree.setPhoto (agree : s.Agree pid t) (first : s.HasPhotos) (second : t.HasPhotos)
    (info : Option PhotoInfo) : (s.setPhoto pid info).Agree pid (t.setPhoto pid info) := by
  refine ⟨?_, agree.redis, agree.image⟩
  rw [World.photo_setPhoto first, World.photo_setPhoto second, if_pos rfl, if_pos rfl]

theorem World.Agree.setImage {table : String} (agree : s.Agree pid t) (first : s.HasVolume table)
    (second : t.HasVolume table) (bytes : Option Bytes) :
    (s.setImage table pid bytes).Agree pid (t.setImage table pid bytes) := by
  refine ⟨agree.photo, agree.redis, ?_⟩
  intro place
  rw [World.image_setImage _ _ _ _ first, World.image_setImage _ _ _ _ second, agree.image]

theorem keeps_setRedis {server : Nat} {url : Option String} (inv : Undisturbed qs s t)
    (member : q ∈ qs) (subject : q.subject = some pid) (writes : q.WritesEntry server pid)
    (filled : q.Gets → Filled s server pid t (t.setRedis server pid url)) :
    (ownPhoto qs s q).Keeps t (t.setRedis server pid url) := by
  refine ⟨⟨inv.alike.setRedis server url, inv.row, inv.image, ?_⟩, ?_, ?_⟩
  · intro v p untouched
    rw [World.redis_setRedis, if_neg]
    · exact inv.entry v p untouched
    · rintro ⟨rfl, rfl⟩
      exact untouched q member writes
  · intro other own
    apply World.agree_setRedis
    rintro rfl
    exact own subject
  · intro other gets own v
    cases subject.symm.trans own
    by_cases same : v = server
    · subst same
      exact filled gets
    · refine .inl ?_
      rw [World.redis_setRedis, if_neg (fun both => same both.1)]

theorem keeps_setPhoto {info : Option PhotoInfo} (inv : Undisturbed qs s t) (photos : t.HasPhotos)
    (member : q ∈ qs) (subject : q.subject = some pid) (writes : q.WritesRow pid) :
    (ownPhoto qs s q).Keeps t (t.setPhoto pid info) := by
  refine ⟨⟨inv.alike.setPhoto info, ?_, inv.image, inv.entry⟩, ?_, fun _ _ _ _ => .inl rfl⟩
  · intro p untouched
    rw [World.photo_setPhoto photos, if_neg]
    · exact inv.row p untouched
    · rintro rfl
      exact untouched q member writes
  · intro other own
    apply World.agree_setPhoto photos
    rintro rfl
    exact own subject

theorem keeps_setImage {table : String} {bytes : Option Bytes} (inv : Undisturbed qs s t)
    (created : t.HasVolume table) (member : q ∈ qs) (subject : q.subject = some pid)
    (writes : q.WritesImage pid) : (ownPhoto qs s q).Keeps t (t.setImage table pid bytes) := by
  refine ⟨⟨inv.alike.setImage table bytes, inv.row, ?_, inv.entry⟩, ?_, fun _ _ _ _ => .inl rfl⟩
  · intro p untouched place
    rw [World.image_setImage _ _ _ _ created, if_neg]
    · exact inv.image p untouched place
    · rintro ⟨-, rfl⟩
      exact untouched q member writes
  · intro other own
    apply World.agree_setImage created
    rintro rfl
    exact own subject

end Writing

/-- The request has answered what it answers alone from the state s, and has left what
it writes as it leaves it alone. -/
structure AsAlone (config : HSConfig) (charset : Charset) (s : World) (q : Request)
    (r : Except Exception Resp) (t : World) : Prop where
  reply : r = ((handler config charset q).run exec s).2
  entry : ∀ server pid, q.WritesEntry server pid →
    t.redis server pid = ((handler config charset q).run exec s).1.redis server pid
  row : ∀ pid, q.WritesRow pid → t.photo pid = ((handler config charset q).run exec s).1.photo pid
  image : ∀ pid, q.WritesImage pid → ∀ table,
    t.image table pid = ((handler config charset q).run exec s).1.image table pid

section Alone

variable {config : HSConfig} {charset : Charset} {table : StoreInfo} {qs : List Request} {s : World}
  {w : Nat} {pid : String}

theorem webDelete_alone (member : .webDelete w pid ∈ qs) (plain : Plain pid) (photos : s.HasPhotos)
    (storeInfo : s.directory.storeInfo = some table) :
    (handler config charset (.webDelete w pid)).Holds (ownPhoto qs s (.webDelete w pid)) exec
      (AsAlone config charset s (.webDelete w pid)) s := by
  have run := WebServer.onDelete_run w plain photos
  have owned : ∀ {t u}, (ownPhoto qs s (.webDelete w pid)).moves t u → t.Agree pid u := by
    intro t u moved
    exact moved.1.resolve_left (by simp [Request.Gets]) pid rfl
  refine WebServer.onDelete_holds plain (fun t inv => inv.alike.fits photos storeInfo) ?_
  intro t moved inv
  have before := owned moved
  refine ⟨keeps_setRedis inv member rfl ⟨rfl, rfl⟩ (by simp [Request.Gets]), ?_⟩
  intro u moved' inv'
  have between := owned moved'
  have row : u.photo pid = s.photo pid := between.photo.trans before.photo
  have evicted : u.redis w pid = none := by
    rw [between.redis, World.redis_setRedis, if_pos ⟨rfl, rfl⟩]
  constructor
  · intro missing v moved'' _
    have after := owned moved''
    rw [row] at missing
    rw [missing] at run
    refine ⟨by rw [handler, run], ?_, ?_, fun _ writes => writes.elim⟩
    · rintro server p ⟨rfl, rfl⟩
      rw [handler, run, after.redis, evicted, World.redis_setRedis, if_pos ⟨rfl, rfl⟩]
    · rintro p rfl
      rw [handler, run, after.photo, row]
      rfl
  · intro info present v moved'' inv''
    have after := owned moved''
    have photos' : v.HasPhotos := inv''.alike.photos.mpr photos
    rw [row] at present
    rw [present] at run
    refine ⟨keeps_setPhoto inv'' photos' member rfl rfl, ?_⟩
    intro x moved₃ _
    have last := owned moved₃
    refine ⟨by rw [handler, run], ?_, ?_, fun _ writes => writes.elim⟩
    · rintro server p ⟨rfl, rfl⟩
      rw [handler, run, last.redis, World.redis_setPhoto, after.redis, evicted,
        World.redis_setPhoto, World.redis_setRedis, if_pos ⟨rfl, rfl⟩]
    · rintro p rfl
      rw [handler, run, last.photo, World.photo_setPhoto photos', if_pos rfl,
        World.photo_setPhoto (by exact photos), if_pos rfl]

theorem missed {t : World} (filled : Filled s w pid s t)
    (miss : WebServer.usable (t.redis w pid) = none) :
    WebServer.usable (s.redis w pid) = none := by
  rcases filled with same | ⟨-, -, info, -, entry⟩
  · rw [← same, miss]
  · rw [entry, usable_path] at miss
    contradiction

theorem alone_filled {info : PhotoInfo} (named : pid ≠ "") (plain : Plain pid)
    (photos : s.HasPhotos)
    (empty : WebServer.usable (s.redis w pid) = none) (present : s.photo pid = some info) :
    (handler config charset (.webGet w pid)).run exec s =
      (s.setRedis w pid (some (info.path pid)), .ok (.redirect (info.path pid))) := by
  rw [handler, WebServer.onGetImage_run named, empty]
  change (WebServer.onCacheMiss w pid).run exec s = _
  rw [WebServer.onCacheMiss_run plain photos, present]

theorem webGet_alone (member : .webGet w pid ∈ qs) (plain : Plain pid) (photos : s.HasPhotos)
    (storeInfo : s.directory.storeInfo = some table) (unwritten : ∀ q ∈ qs, ¬ q.WritesRow pid) :
    (handler config charset (.webGet w pid)).Holds (ownPhoto qs s (.webGet w pid)) exec
      (AsAlone config charset s (.webGet w pid)) s := by
  have filled : ∀ {t u}, (ownPhoto qs s (.webGet w pid)).moves t u → Filled s w pid t u :=
    fun moved => moved.2 w pid rfl
  -- it is enough to know the reply and the redis entry
  have asAlone : ∀ {r t left}, (handler config charset (.webGet w pid)).run exec s = (left, r) →
      t.redis w pid = left.redis w pid → AsAlone config charset s (.webGet w pid) r t := by
    intro r t left run entry
    refine ⟨by rw [run], ?_, fun _ writes => writes.elim, fun _ writes => writes.elim⟩
    rintro server p ⟨rfl, rfl⟩
    rw [run, entry]
  have row : ∀ {t}, Undisturbed qs s t → t.photo pid = s.photo pid :=
    fun inv => inv.row pid unwritten
  refine WebServer.onGetImage_holds_miss plain
    (fun t inv => inv.alike.fits photos storeInfo) ?_ ?_ ?_ ?_
  · rintro rfl t moved _
    apply asAlone rfl
    rcases filled moved with same | ⟨named, -⟩
    · exact same
    · contradiction
  · intro named t moved _ url shown u moved' _
    have run : (handler config charset (.webGet w pid)).run exec s = _ :=
      WebServer.onGetImage_run named
    have kept : u.redis w pid = t.redis w pid := by
      rcases filled moved' with same | ⟨-, empty, -⟩
      · exact same
      · rw [shown] at empty
        contradiction
    rcases filled moved with same | ⟨-, empty, info, present, entry⟩
    · rw [same] at shown kept
      rw [shown] at run
      exact asAlone run kept
    · rw [entry, usable_path] at shown
      cases shown
      apply asAlone (alone_filled named plain photos empty present)
      rw [kept, entry, World.redis_setRedis, if_pos ⟨rfl, rfl⟩]
  · intro named t moved _ miss u moved' inv' missing v moved'' _
    have empty := missed (filled moved) miss
    rw [row inv'] at missing
    have run : (handler config charset (.webGet w pid)).run exec s = _ :=
      WebServer.onGetImage_run named
    rw [empty] at run
    change _ = (WebServer.onCacheMiss w pid).run exec s at run
    rw [WebServer.onCacheMiss_run plain photos, missing] at run
    apply asAlone run
    rcases ((filled moved).trans (filled moved')).trans (filled moved'') with
      same | ⟨-, -, info, present, -⟩
    · exact same
    · cases missing.symm.trans present
  · intro named t moved _ miss u moved' inv' info present v moved'' inv''
    have empty := missed (filled moved) miss
    rw [row inv'] at present
    have far := ((filled moved).trans (filled moved')).trans (filled moved'')
    refine ⟨keeps_setRedis inv'' member rfl ⟨rfl, rfl⟩ (fun _ => ?_), ?_⟩
    · rcases far with same | ⟨-, -, other, present', entry⟩
      · refine .inr ⟨named, same ▸ empty, info, present, ?_⟩
        rw [World.redis_setRedis, if_pos ⟨rfl, rfl⟩]
      · refine .inl ?_
        cases present.symm.trans present'
        rw [World.redis_setRedis, if_pos ⟨rfl, rfl⟩, entry]
    · intro x moved₃ _
      apply asAlone (alone_filled named plain photos empty present)
      rcases filled moved₃ with same | ⟨-, empty', -⟩
      · rw [same, World.redis_setRedis, if_pos ⟨rfl, rfl⟩, World.redis_setRedis, if_pos ⟨rfl, rfl⟩]
      · rw [World.redis_setRedis, if_pos ⟨rfl, rfl⟩, usable_path] at empty'
        contradiction

theorem upload_alone {img : Option Bytes} {u : Int64} (member : .upload w img u ∈ qs)
    (photos : s.HasPhotos) (storeInfo : s.directory.storeInfo = some table) :
    (handler config charset (.upload w img u)).Holds (ownPhoto qs s (.upload w img u)) exec
      (AsAlone config charset s (.upload w img u)) s := by
  classical
  have fits := World.fits_schema photos storeInfo
  cases img with
  | none =>
    intro t _ _
    exact ⟨rfl, fun _ _ writes => writes.elim, fun _ writes => writes.elim,
      fun _ writes => writes.elim⟩
  | some b =>
    have owned : ∀ {t x}, (ownPhoto qs s (.upload w (some b) u)).moves t x →
        t.Agree (toString u) x := by
      intro t x moved
      exact moved.1.resolve_left (by simp [Request.Gets]) (toString u) rfl
    have asAlone : ∀ {r t left},
        (handler config charset (.upload w (some b) u)).run exec s = (left, r) →
        left.Agree (toString u) t → AsAlone config charset s (.upload w (some b) u) r t := by
      intro r t left run agree
      refine ⟨by rw [run], fun _ _ writes => writes.elim, ?_, ?_⟩
      · rintro pid rfl
        rw [run, agree.photo]
      · rintro pid rfl place
        rw [run, agree.image]
    have run : (handler config charset (.upload w (some b) u)).run exec s = _ :=
      WebServer.onPostImage_run fits
    have fitting : ∀ t, Undisturbed qs s t → t.Fits (s.schema table) :=
      fun t inv => inv.alike.fits photos storeInfo
    change (WebServer.onPostImage config (some b) u).Holds (ownPhoto qs s _) exec _ s
    refine WebServer.onPostImage_holds fitting (fun nofile => by cases nofile) ?_ ?_
    · intro e _ unplaced t moved _
      rw [unplaced] at run
      exact asAlone run (owned moved)
    · intro info fileBytes file placed t moved inv
      cases file
      rw [placed] at run
      change _ = (WebServer.storeImage u info b).run exec s at run
      rw [WebServer.storeImage_run fits] at run
      apply WebServer.storeImage_holds fitting
      intro x moved' inv'
      have before := (owned moved).trans (owned moved')
      have photos' : x.HasPhotos := inv'.alike.photos.mpr photos
      refine ⟨keeps_setPhoto inv' photos' member rfl rfl, ?_⟩
      intro y moved'' inv''
      have entered : (s.setPhoto (toString u) (some info)).Agree (toString u) y :=
        (before.setPhoto photos photos' _).trans (owned moved'')
      constructor
      · intro unusable z moved₃ _
        rw [if_neg unusable] at run
        exact asAlone run (entered.trans (owned moved₃))
      · intro usable
        rw [if_pos usable] at run
        have created : (s.setPhoto (toString u) (some info)).HasVolume (lv info.lvid) := usable.2
        have created' : y.HasVolume (lv info.lvid) := (inv''.alike.volumes _).mpr usable.2
        refine ⟨keeps_setImage inv'' created' member rfl rfl, ?_⟩
        intro z moved₃ _
        exact asAlone run ((entered.setImage created created' _).trans (owned moved₃))

theorem unwritten_of_independent (independent : Independent qs) (member : .webGet w pid ∈ qs) :
    ∀ q ∈ qs, ¬ q.WritesRow pid := by
  intro q other writes
  have differ : q ≠ .webGet w pid := by
    rintro rfl
    exact writes
  have subject : q.subject = some pid ∧ ¬ q.Gets := by
    cases q with
    | upload v img u =>
      cases img with
      | none => exact writes.elim
      | some b => exact ⟨congrArg some writes, id⟩
    | webDelete v p => exact ⟨congrArg some writes, id⟩
    | webGet v p => exact writes.elim
    | cacheGet v lvid p => exact writes.elim
    | cacheDelete v p => exact writes.elim
  have symmetric : Std.Symm (fun q r : Request => ∀ pid, q.subject = some pid →
      r.subject = some pid → q.Gets ∧ r.Gets) :=
    ⟨fun q r apart p own also => (apart p also own).symm⟩
  exact subject.2 (List.Pairwise.forall independent other member differ pid subject.1 rfl).1

theorem handler_alone {q : Request} (member : q ∈ qs) (web : ∃ server, q.Local server)
    (independent : Independent qs) (photos : s.HasPhotos)
    (storeInfo : s.directory.storeInfo = some table) :
    (handler config charset q).Holds (ownPhoto qs s q) exec (AsAlone config charset s q) s := by
  obtain ⟨server, here⟩ := web
  cases q with
  | upload w img u => exact upload_alone member photos storeInfo
  | webGet w pid =>
    exact webGet_alone member here.2 photos storeInfo (unwritten_of_independent independent member)
  | webDelete w pid => exact webDelete_alone member here.2 photos storeInfo
  | cacheGet w lvid pid => exact here.elim
  | cacheDelete w pid => exact here.elim

theorem run_alone {es : List Happening} {p : System}
    (web : ∀ q ∈ started es, ∃ server, q.Local server)
    (independent : Independent (started es)) (unfailing : ∀ e ∈ es, e.unfailing = true)
    (photos : s.HasPhotos) (storeInfo : s.directory.storeInfo = some table)
    (run : (System.idle s).after config charset es = some p) :
    Undisturbed (started es) s p.state ∧ ∀ t ∈ p.threads, ∀ r, t.rest.outcome = some r →
      AsAlone config charset s t.request r p.state := by
  have initially : Undisturbed (started es) s s :=
    ⟨.refl s, fun _ _ => rfl, fun _ _ _ => rfl, fun _ _ _ => rfl⟩
  have apart : (System.idle s).Apart (ownPhoto (started es) s) exec (handler config charset)
      (AsAlone config charset s) (started es) := by
    refine ⟨?_, fun _ => initially, by simp [System.idle], ?_⟩
    · simpa [System.idle] using compatible_of_independent independent
    · exact fun q member => handler_alone member (web q member) independent photos storeInfo
  have after := apart.runs (fun _ _ _ inv => inv) unfailing run
  exact ⟨after.invariant (.upload 0 none 0), fun t member r ended => after.outcome member ended⟩

theorem run_outcomes {es : List Happening} {p : System}
    (alone : ∀ t ∈ p.threads, ∀ r, t.rest.outcome = some r →
      AsAlone config charset s t.request r p.state)
    (run : (System.idle s).after config charset es = some p)
    (ended : ∀ t ∈ p.threads, t.rest.outcome.isSome = true) :
    p.outcomes = (started es).map (fun q => (q, some ((handler config charset q).run exec s).2)) ∧
      ∀ q ∈ started es, ∃ r, AsAlone config charset s q r p.state := by
  have requests : p.threads.map Thread.request = started es := Pool.runs_requests exec _ run
  rw [← requests]
  constructor
  · rw [System.outcomes, List.map_map]
    apply List.map_congr_left
    intro t member
    obtain ⟨r, answer⟩ := Option.isSome_iff_exists.mp (ended t member)
    have reply := (alone t member r answer).reply
    rw [answer, Function.comp_apply, reply]
  · intro q member
    obtain ⟨t, among, rfl⟩ := List.mem_map.mp member
    obtain ⟨r, answer⟩ := Option.isSome_iff_exists.mp (ended t among)
    exact ⟨r, alone t among r answer⟩

theorem state_determined {t u : World} (first : Undisturbed qs s t) (second : Undisturbed qs s u)
    (alone : ∀ q ∈ qs, ∃ r, AsAlone config charset s q r t)
    (alone' : ∀ q ∈ qs, ∃ r, AsAlone config charset s q r u) : t = u := by
  have alike : u.Alike t := by
    have a := first.alike
    have b := second.alike
    exact ⟨a.directory.trans b.directory.symm, a.storeInfo.trans b.storeInfo.symm,
      a.photos.trans b.photos.symm, a.store.trans b.store.symm,
      fun place => (a.volumes place).trans (b.volumes place).symm, a.cached.trans b.cached.symm⟩
  refine World.eq_of_agree alike (fun pid => ⟨?_, ?_, ?_⟩)
  · by_cases written : ∃ q ∈ qs, q.WritesRow pid
    · obtain ⟨q, member, writes⟩ := written
      obtain ⟨⟨_, left⟩, ⟨_, left'⟩⟩ := And.intro (alone q member) (alone' q member)
      rw [left.row pid writes, left'.row pid writes]
    · have untouched : ∀ q ∈ qs, ¬ q.WritesRow pid :=
        fun q member writes => written ⟨q, member, writes⟩
      rw [first.row pid untouched, second.row pid untouched]
  · intro server
    by_cases written : ∃ q ∈ qs, q.WritesEntry server pid
    · obtain ⟨q, member, writes⟩ := written
      obtain ⟨⟨_, left⟩, ⟨_, left'⟩⟩ := And.intro (alone q member) (alone' q member)
      rw [left.entry server pid writes, left'.entry server pid writes]
    · have untouched : ∀ q ∈ qs, ¬ q.WritesEntry server pid :=
        fun q member writes => written ⟨q, member, writes⟩
      rw [first.entry server pid untouched, second.entry server pid untouched]
  · intro place
    by_cases written : ∃ q ∈ qs, q.WritesImage pid
    · obtain ⟨q, member, writes⟩ := written
      obtain ⟨⟨_, left⟩, ⟨_, left'⟩⟩ := And.intro (alone q member) (alone' q member)
      rw [left.image pid writes, left'.image pid writes]
    · have untouched : ∀ q ∈ qs, ¬ q.WritesImage pid :=
        fun q member writes => written ⟨q, member, writes⟩
      rw [first.image pid untouched, second.image pid untouched]

end Alone

/-- Requests about different photos, and any gets of one photo, run on any number of
web servers from any content of the backends. Every interleaving in which all of them
end leaves the backends, and answers each request, like handling them one after another
in any order. -/
theorem independent_requests_serialize {config : HSConfig} {charset : Charset} {s : World}
    {table : StoreInfo} {es : List Happening} {p : System} {order : List Request}
    (photos : s.HasPhotos) (storeInfo : s.directory.storeInfo = some table)
    (web : ∀ q ∈ started es, ∃ server, q.Local server) (independent : Independent (started es))
    (unfailing : ∀ e ∈ es, e.unfailing = true)
    (run : (System.idle s).after config charset es = some p)
    (ended : ∀ t ∈ p.threads, t.rest.outcome.isSome = true) (permuted : order.Perm (started es)) :
    p.state = (serve exec (handler config charset) s order).1 ∧
      p.outcomes.Perm (order.zip ((serve exec (handler config charset) s order).2.map some)) := by
  obtain ⟨es', threads, begun, calm, serial, requests, outcomes⟩ :=
    Pool.serve_runs exec (handler config charset) (System.idle s) order
  have members : ∀ q, q ∈ order ↔ q ∈ started es := fun q => permuted.mem_iff
  have independent' : Independent (started es') := by
    rw [begun]
    refine (permuted.pairwise_iff ?_).mpr independent
    exact fun apart pid own also => (apart pid also own).symm
  have web' : ∀ q ∈ started es', ∃ server, q.Local server := by
    rw [begun]
    exact fun q member => web q ((members q).mp member)
  have ended' : ∀ t ∈ threads, t.rest.outcome.isSome = true := by
    intro t member
    have listed : t.rest.outcome ∈ threads.map (fun t => t.rest.outcome) :=
      List.mem_map_of_mem member
    rw [outcomes] at listed
    obtain ⟨r, -, answer⟩ := List.mem_map.mp listed
    rw [← answer]
    rfl
  obtain ⟨kept, alone⟩ := run_alone web independent unfailing photos storeInfo run
  obtain ⟨kept', alone'⟩ := run_alone web' independent' calm photos storeInfo serial
  obtain ⟨replies, done⟩ := run_outcomes alone run ended
  obtain ⟨replies', done'⟩ := run_outcomes alone' serial ended'
  rw [begun] at kept' replies' done'
  constructor
  · apply state_determined kept (kept'.same members) done
    exact fun q member => done' q ((members q).mpr member)
  · have zipped : order.zip ((serve exec (handler config charset) s order).2.map some) =
        order.map (fun q => (q, some ((handler config charset q).run exec s).2)) :=
      calc order.zip ((serve exec (handler config charset) s order).2.map some)
        _ = (threads.map (fun t => t.request)).zip (threads.map (fun t => t.rest.outcome)) := by
          rw [requests, outcomes]
          rfl
        _ = threads.map (fun t => (t.request, t.rest.outcome)) := List.zip_map' ..
        _ = _ := replies'
    rw [replies, zipped]
    exact (permuted.map _).symm

theorem independent_requests_serialize_overlapping : ∃ p : System,
    (System.idle .shipped).after .shipped .utf8 [.start (.webGet 0 "5"),
      .start (.upload 1 (some [1]) 7), .step 0, .step 1, .start (.webGet 0 "5"), .step 1, .step 2,
      .step 0, .step 1, .step 2, .step 1] = some p ∧
    p.state = (serve exec (handler .shipped .utf8) .shipped
      [.upload 1 (some [1]) 7, .webGet 0 "5", .webGet 0 "5"]).1 := by
  have ended : ((System.idle .shipped).after .shipped .utf8 [.start (.webGet 0 "5"),
      .start (.upload 1 (some [1]) 7), .step 0, .step 1, .start (.webGet 0 "5"), .step 1, .step 2,
      .step 0, .step 1, .step 2, .step 1]).map (fun p => p.threads.all
        (fun t => t.rest.outcome.isSome)) = some true := by decide +kernel
  obtain ⟨p, run, all⟩ := Option.map_eq_some_iff.mp ended
  refine ⟨p, run, ?_⟩
  refine (independent_requests_serialize World.ready_shipped.photos World.ready_shipped.storeInfo
    ?_ ?_ (by decide) run (List.all_eq_true.mp all) (by decide)).1
  · intro q member
    simp only [started, List.mem_cons, List.not_mem_nil, or_false] at member
    rcases member with rfl | rfl | rfl
    · exact ⟨0, by decide⟩
    · exact ⟨1, by decide⟩
    · exact ⟨0, by decide⟩
  · have differ : toString (7 : Int64) ≠ "5" := by decide
    have apart : ∀ pid, toString (7 : Int64) = pid → "5" = pid → False :=
      fun pid own other => differ (own.trans other.symm)
    change Independent [.webGet 0 "5", .upload 1 (some [1]) 7, .webGet 0 "5"]
    refine .cons ?_ (.cons ?_ (.cons (by simp) .nil))
    · simp only [List.mem_cons, List.not_mem_nil, or_false, forall_eq_or_imp, forall_eq]
      exact ⟨fun pid own other => (apart pid (Option.some.inj other) (Option.some.inj own)).elim,
        fun _ _ _ => ⟨trivial, trivial⟩⟩
    · simp only [List.mem_cons, List.not_mem_nil, or_false, forall_eq]
      exact fun pid own other => (apart pid (Option.some.inj own) (Option.some.inj other)).elim

end Haystack
