import Haystack.System

/-! Everything the backends hold comes from an upload: rows, images and both
kinds of cache entry agree on which one. This holds in every interleaving of
uploads, gets and deletes, wherever they are cut off. -/
namespace Haystack

open Calls Cql Java

/-- What stays fixed during a run. The content is what is uploaded under each clock
reading, a row of a kept pid is never deleted, and only the pids in scope are
looked at. -/
structure Setting where
  config : HSConfig
  charset : Charset
  schema : Schema
  content : Int64 → Option Bytes
  kept : String → Prop
  scope : String → Prop
  closed : ∀ p q, scope p → charset.getBytes q = charset.getBytes p → scope q

structure Setting.Assigned (σ : Setting) (t : Int64) (info : PhotoInfo) (b : Bytes) : Prop where
  content : σ.content t = some b
  place : WebServer.placement σ.config σ.schema.table t = .ok info

theorem Setting.Assigned.unique {σ : Setting} {t u : Int64} {info info' : PhotoInfo} {b b' : Bytes}
    (first : σ.Assigned t info b) (second : σ.Assigned u info' b')
    (same : toString t = toString u) :
    t = u ∧ info = info' ∧ b = b' := by
  cases toString_injective same
  exact ⟨rfl, Except.ok.inj (first.place.symm.trans second.place),
    Option.some.inj (first.content.symm.trans second.content)⟩

structure Coherent (σ : Setting) (s : World) : Prop where
  fits : s.Fits σ.schema
  rows : ∀ pid info, σ.scope pid → s.photo pid = some info →
    ∃ t b, σ.Assigned t info b ∧ pid = toString t
  redirects : ∀ server pid url, σ.scope pid → s.redis server pid = some url →
    ∃ t info b, σ.Assigned t info b ∧ pid = toString t ∧ url = info.path pid
  images : ∀ table pid b, σ.scope pid → s.image table pid = some b →
    ∃ t info, σ.Assigned t info b ∧ pid = toString t ∧ table = lv info.lvid
  cached : ∀ server pid b, σ.scope pid → s.imageCache server (σ.charset.getBytes pid) = some b →
    ∃ t info, σ.Assigned t info b ∧ σ.charset.getBytes pid = σ.charset.getBytes (toString t) ∧
      s.image (lv info.lvid) (toString t) = some b

/-- Images are there to stay, and so are the rows of kept pids. -/
structure Grows (σ : Setting) (s t : World) : Prop where
  images : ∀ table pid b, σ.scope pid → s.image table pid = some b → t.image table pid = some b
  rows : ∀ pid info, σ.scope pid → σ.kept pid → s.photo pid = some info → t.photo pid = some info

theorem Grows.refl (σ : Setting) (s : World) : Grows σ s s :=
  ⟨fun _ _ _ _ h => h, fun _ _ _ _ h => h⟩

theorem Grows.trans {σ : Setting} {s t u : World} (first : Grows σ s t) (second : Grows σ t u) :
    Grows σ s u :=
  ⟨fun table pid b within h => second.images table pid b within (first.images table pid b within h),
    fun pid info within kept h =>
      second.rows pid info within kept (first.rows pid info within kept h)⟩

def Setting.discipline (σ : Setting) : Discipline World :=
  .shared (Coherent σ) (Grows σ) (Grows.refl σ) Grows.trans

variable {σ : Setting} {s : World}

namespace Coherent

theorem setRedis (coherent : Coherent σ s) (server : Nat) (pid : String) (entry : Option String)
    (known : ∀ url, σ.scope pid → entry = some url →
      ∃ t info b, σ.Assigned t info b ∧ pid = toString t ∧ url = info.path pid) :
    σ.discipline.Keeps s (s.setRedis server pid entry) := by
  refine ⟨⟨coherent.fits.setRedis server pid entry, coherent.rows, ?_, coherent.images,
    coherent.cached⟩, ⟨fun _ _ _ _ h => h, fun _ _ _ _ h => h⟩⟩
  intro other q url within found
  rw [World.redis_setRedis] at found
  split at found
  · rename_i same
    obtain ⟨rfl, rfl⟩ := same
    exact known url within found
  · exact coherent.redirects other q url within found

theorem setPhoto (coherent : Coherent σ s) {t : Int64} {info : PhotoInfo} {b : Bytes}
    (assigned : σ.Assigned t info b) :
    σ.discipline.Keeps s (s.setPhoto (toString t) (some info)) := by
  have changed := World.photo_setPhoto coherent.fits.photos (toString t)
  refine ⟨⟨coherent.fits.setPhoto _ _, ?_, coherent.redirects, coherent.images, coherent.cached⟩,
    ⟨fun _ _ _ _ h => h, ?_⟩⟩
  · intro pid row within found
    rw [changed] at found
    split at found
    · cases Option.some.inj found
      exact ⟨t, b, assigned, ‹_›⟩
    · exact coherent.rows pid row within found
  · intro pid row within _ found
    rw [changed]
    split
    · rename_i same
      obtain ⟨u, b', assigned', name⟩ := coherent.rows pid row within found
      exact congrArg some (assigned.unique assigned' (same.symm.trans name)).2.1
    · exact found

theorem dropPhoto (coherent : Coherent σ s) {pid : String} (dropped : ¬ σ.kept pid) :
    σ.discipline.Keeps s (s.setPhoto pid none) := by
  refine ⟨⟨coherent.fits.setPhoto _ _, ?_, coherent.redirects, coherent.images, coherent.cached⟩,
    ⟨fun _ _ _ _ h => h, ?_⟩⟩
  · intro q row within found
    exact coherent.rows q row within (World.photo_of_dropped coherent.fits.photos found)
  · intro q row _ kept found
    have differ : q ≠ pid := fun same => dropped (same ▸ kept)
    rw [World.photo_setPhoto coherent.fits.photos, if_neg differ]
    exact found

theorem setImage (coherent : Coherent σ s) {t : Int64} {info : PhotoInfo} {b : Bytes}
    (assigned : σ.Assigned t info b) (created : s.HasVolume (lv info.lvid)) :
    σ.discipline.Keeps s (s.setImage (lv info.lvid) (toString t) (some b)) := by
  have grows : ∀ table pid b', σ.scope pid → s.image table pid = some b' →
      (s.setImage (lv info.lvid) (toString t) (some b)).image table pid = some b' := by
    intro table pid b' within found
    rw [World.image_setImage _ _ _ _ created]
    split
    · rename_i same
      obtain ⟨u, info', assigned', name, _⟩ := coherent.images table pid b' within found
      exact congrArg some (assigned.unique assigned' (same.2.symm.trans name)).2.2
    · exact found
  refine ⟨⟨coherent.fits.setImage _ _ _, coherent.rows, coherent.redirects, ?_, ?_⟩,
    ⟨grows, fun _ _ _ _ h => h⟩⟩
  · intro table pid b' within found
    rw [World.image_setImage _ _ _ _ created] at found
    split at found
    · rename_i same
      cases Option.some.inj found
      exact ⟨t, info, assigned, same.2, same.1⟩
    · exact coherent.images table pid b' within found
  · intro server pid b' within found
    obtain ⟨u, info', assigned', name, stored⟩ := coherent.cached server pid b' within found
    exact ⟨u, info', assigned', name, grows _ _ _ (σ.closed _ _ within name.symm) stored⟩

theorem setCached (coherent : Coherent σ s) (server : Nat) (pid : String) (entry : Option Bytes)
    (stored : ∀ b, σ.scope pid → entry = some b → ∃ table, s.image table pid = some b) :
    σ.discipline.Keeps s (s.setCached server (σ.charset.getBytes pid) entry) := by
  refine ⟨⟨coherent.fits.setCached _ _ _, coherent.rows, coherent.redirects, coherent.images, ?_⟩,
    ⟨fun _ _ _ _ h => h, fun _ _ _ _ h => h⟩⟩
  intro other q b within found
  rw [World.imageCache_setCached] at found
  split at found
  · rename_i same
    have within' := σ.closed _ _ within same.2.symm
    obtain ⟨table, image⟩ := stored b within' found
    obtain ⟨t, info, assigned, rfl, rfl⟩ := coherent.images table pid b within' image
    exact ⟨t, info, assigned, same.2, image⟩
  · exact coherent.cached other q b within found

end Coherent

def Setting.Admits (σ : Setting) : Request → Prop
  | .upload _ img t => ∀ b, img = some b → σ.content t = some b
  | .webGet _ pid => Plain pid
  | .webDelete _ pid => (Plain pid ∧ ¬ σ.kept pid) ∨ ∀ q, σ.scope q ∧ ¬ σ.kept q
  | .cacheGet _ lvid _ => Wordlike lvid
  | .cacheDelete _ _ => "photo" ∉ σ.schema.volumes

/-- What a reply, received in the state u, says about a request made in the state s. -/
def Setting.Reply (σ : Setting) (s : World) (q : Request) (r : Except Exception Resp)
    (u : World) : Prop :=
  match q with
  | .upload _ img t => ∀ b p, img = some b → r = .ok (.json 201 p) →
    p = toString t ∧ ∃ info, σ.Assigned t info b ∧
      (σ.scope p → u.image (lv info.lvid) p = some b ∧ (σ.kept p → u.photo p = some info))
  | .webGet _ pid => σ.scope pid →
    (pid = "" ∧ r = .ok (.result 400 "Bad request: empty pid.")) ∨
    ((σ.kept pid → s.photo pid = none) ∧ r = .ok (.result 404 "PID does not exist.")) ∨
    ∃ t info b, σ.Assigned t info b ∧ pid = toString t ∧ r = .ok (.redirect (info.path pid))
  | .cacheGet _ lvid pid => σ.scope pid →
    ((lvid = "" ∨ pid = "") ∧ r = .ok (.result 400 "error")) ∨
    ("lv" ++ lowered lvid ∉ σ.schema.volumes ∧ r = .error .invalidQuery) ∨
    (s.image ("lv" ++ lowered lvid) pid = none ∧ r = .ok (.status 404)) ∨
    ∃ t info b, σ.Assigned t info b ∧ σ.charset.getBytes pid = σ.charset.getBytes (toString t) ∧
      u.image (lv info.lvid) (toString t) = some b ∧ r = .ok (.image pid b)
  | _ => True

section Replies

variable {server : Nat} {pid lvid : String}

theorem onGetImage_coherent (plain : Plain pid) :
    (WebServer.onGetImage server pid).Holds σ.discipline exec
      (σ.Reply s (.webGet server pid)) s := by
  refine WebServer.onGetImage_holds plain (fun t coherent => coherent.fits) ?_ ?_ ?_ ?_
  · exact fun empty t _ _ _ => .inl ⟨empty, rfl⟩
  · intro _ t _ coherent url found u _ _ within
    have entry : t.redis server pid = some url := (Option.filter_eq_some_iff.mp found).1
    obtain ⟨k, info, b, assigned, name, rfl⟩ := coherent.redirects server pid url within entry
    exact .inr (.inr ⟨k, info, b, assigned, name, rfl⟩)
  · intro _ t grows _ absent u _ _ within
    refine .inr (.inl ⟨?_, rfl⟩)
    intro kept
    rw [Option.eq_none_iff_forall_not_mem]
    intro info present
    rw [grows.rows pid info within kept present] at absent
    contradiction
  · intro _ t _ coherent info row u _ later
    refine ⟨later.setRedis server pid _ ?_, ?_⟩
    · intro url within entry
      obtain ⟨k, b, assigned, name⟩ := coherent.rows pid info within row
      exact ⟨k, info, b, assigned, name, (Option.some.inj entry).symm⟩
    · intro v _ _ within
      obtain ⟨k, b, assigned, name⟩ := coherent.rows pid info within row
      exact .inr (.inr ⟨k, info, b, assigned, name, rfl⟩)

theorem onDelete_coherent (plain : Plain pid) (dropped : ¬ σ.kept pid) :
    (WebServer.onDelete server pid).Holds σ.discipline exec (fun _ _ => True) s := by
  refine WebServer.onDelete_holds plain (fun t coherent => coherent.fits) ?_
  intro t _ coherent
  refine ⟨coherent.setRedis server pid none (by simp), ?_⟩
  intro u _ _
  exact ⟨fun _ _ _ _ => trivial,
    fun info _ v _ later => ⟨later.dropPhoto dropped, fun _ _ _ => trivial⟩⟩

theorem onDelete_any_coherent (dropped : ∀ q, σ.scope q ∧ ¬ σ.kept q) :
    (WebServer.onDelete server pid).Holds σ.discipline exec (fun _ _ => True) s := by
  refine WebServer.onDelete_any_holds (fun t coherent => coherent.fits) ?_ ?_
  · intro t q info coherent row
    obtain ⟨k, _, _, rfl⟩ := coherent.rows q info (dropped q).1 row
    exact plain_toString k
  · intro t _ coherent
    refine ⟨coherent.setRedis server pid none (by simp), ?_⟩
    intro u _ _
    refine ⟨fun _ _ _ => trivial, fun _ _ _ => trivial, ?_⟩
    exact fun q info _ v _ later => ⟨later.dropPhoto (dropped q).2, fun _ _ _ => trivial⟩

theorem onPostImage_coherent {img : Option Bytes} {t : Int64}
    (own : ∀ b, img = some b → σ.content t = some b) :
    (WebServer.onPostImage σ.config img t).Holds σ.discipline exec
      (σ.Reply s (.upload server img t)) s := by
  refine WebServer.onPostImage_holds (fun t coherent => coherent.fits) ?_ ?_ ?_
  · intro none _ _ _ b p some
    rw [none] at some
    contradiction
  · intro e _ _ _ _ _ b p _ reply
    contradiction
  · intro info b file chosen u _ _
    have assigned : σ.Assigned t info b := ⟨own b file, chosen⟩
    refine WebServer.storeImage_holds (fun t coherent => coherent.fits) ?_
    intro v _ coherent
    refine ⟨coherent.setPhoto assigned, ?_⟩
    intro w grows later
    refine ⟨fun _ _ _ _ b p _ reply => by contradiction, ?_⟩
    intro usable
    have created : w.HasVolume (lv info.lvid) := (later.fits.volumes _).mpr usable.2
    refine ⟨later.setImage assigned created, ?_⟩
    intro x grows' _ b' p file' reply
    cases Option.some.inj (file.symm.trans file')
    injection reply with reply
    injection reply with _ name
    subst name
    refine ⟨rfl, info, assigned, fun within => ⟨?_, ?_⟩⟩
    · apply grows'.images _ _ _ within
      rw [World.image_setImage _ _ _ _ created]
      simp
    · intro kept
      apply grows'.rows _ _ within kept
      rw [World.photo_setImage]
      apply grows.rows _ _ within kept
      rw [World.photo_setPhoto coherent.fits.photos]
      simp

theorem get_coherent (word : Wordlike lvid) :
    (CacheServer.get σ.charset server lvid pid).Holds σ.discipline exec
      (σ.Reply s (.cacheGet server lvid pid)) s := by
  refine CacheServer.get_holds word (fun t coherent => coherent.fits) ?_ ?_ ?_ ?_ ?_
  · exact fun empty t _ _ _ => .inl ⟨empty, rfl⟩
  · intro _ t _ coherent b found u grows _ within
    obtain ⟨k, info, assigned, key, stored⟩ := coherent.cached server pid b within found
    have stays := grows.images _ _ _ (σ.closed _ _ within key.symm) stored
    exact .inr (.inr (.inr ⟨k, info, b, assigned, key, stays, rfl⟩))
  · exact fun _ unknown t _ _ _ u _ _ _ => .inr (.inl ⟨unknown, rfl⟩)
  · intro _ _ t grows _ absent u _ _ within
    refine .inr (.inr (.inl ⟨?_, rfl⟩))
    rw [Option.eq_none_iff_forall_not_mem]
    intro b present
    rw [grows.images _ _ b within present] at absent
    contradiction
  · intro _ _ t _ coherent b found u grows later
    refine ⟨later.setCached server pid _ ?_, ?_⟩
    · intro b' within same
      cases Option.some.inj same
      exact ⟨_, grows.images _ _ _ within found⟩
    · intro v grows' _ within
      obtain ⟨k, info, assigned, name, place⟩ := coherent.images _ pid b within found
      have stored := grows'.images _ _ _ within (grows.images _ _ _ within found)
      rw [name, place] at stored
      exact .inr (.inr (.inr ⟨k, info, b, assigned, congrArg _ name, stored, rfl⟩))

theorem delete_coherent (absent : "photo" ∉ σ.schema.volumes) :
    (CacheServer.delete σ.charset server pid).Holds σ.discipline exec (fun _ _ => True) s := by
  refine CacheServer.delete_holds (fun t coherent => coherent.fits) absent ?_
  intro t _ coherent
  exact ⟨coherent.setCached server pid none (by simp), fun _ _ _ => trivial⟩

end Replies

theorem handler_coherent {q : Request} (admitted : σ.Admits q) :
    (handler σ.config σ.charset q).Holds σ.discipline exec (σ.Reply s q) s := by
  cases q with
  | upload server img t => exact onPostImage_coherent admitted
  | webGet server pid => exact onGetImage_coherent admitted
  | webDelete server pid =>
    rcases admitted with ⟨plain, dropped⟩ | dropped
    · exact onDelete_coherent plain dropped
    · exact onDelete_any_coherent dropped
  | cacheGet server lvid pid => exact get_coherent admitted
  | cacheDelete server pid => exact delete_coherent admitted

end Haystack
