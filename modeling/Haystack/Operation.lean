import Haystack.ImageSafety
import Haystack.Startup
import Haystack.Calls.Moments

/-! The system in operation. Next to the requests, servers are started again and redis
loses entries, in any interleaving, and any of it may be cut off at any call. Through all
of this a request is answered as the directory and the store say at one moment between
its start and its answer. -/
namespace Haystack

open Calls Cql Java

/-- All that goes on: a request, the start of a server that has run before, and redis
losing one of its entries. -/
inductive Task where
  | serve (q : Request)
  | startWeb
  | startCache
  | loseRedirect (server : Nat) (key : String)
  | loseImage (server : Nat) (key : Bytes)
  deriving DecidableEq, Repr

namespace Task

def program (config : HSConfig) (charset : Charset) : Task → Handler (Option Resp)
  | serve q => some <$> handler config charset q
  | startWeb => (fun _ => none) <$> WebServer.main config
  | startCache => (fun _ => none) <$> CacheServer.initCassandraStores config.numLogicalVolumes
  | loseRedirect server key => (fun _ => none) <$> jedisDel server key
  | loseImage server key => (fun _ => none) <$> binaryDel server key

def request : Task → Option Request
  | serve q => some q
  | _ => none

end Task

abbrev Operation := Pool Task Answer World Exception (Option Resp)

abbrev Run := Thread Task Answer Exception (Option Resp)

def Operation.after (config : HSConfig) (charset : Charset) (p : Operation)
    (es : List (Event Task Exception)) : Option Operation :=
  p.runs exec (Task.program config charset) es

def Operation.idle (s : World) : Operation := ⟨s, []⟩

theorem Operation.after_append {config : HSConfig} {charset : Charset} {p q r : Operation}
    {before after : List (Event Task Exception)} (reached : p.after config charset before = some q)
    (continued : q.after config charset after = some r) :
    p.after config charset (before ++ after) = some r := by
  unfold Operation.after at reached continued ⊢
  rw [Pool.runs_append, reached]
  exact continued

def requests (es : List (Event Task Exception)) : List Request :=
  (started es).filterMap Task.request

theorem mem_requests {q : Request} {es : List (Event Task Exception)} :
    q ∈ requests es ↔ .serve q ∈ started es := by
  simp only [requests, List.mem_filterMap]
  constructor
  · rintro ⟨task, member, made⟩
    cases task with
    | serve r => exact Option.some.inj made ▸ member
    | startWeb => cases made
    | startCache => cases made
    | loseRedirect server key => cases made
    | loseImage server key => cases made
  · exact fun member => ⟨_, member, rfl⟩

section Maintenance

variable {σ : Setting} {s t : World}

/-- The backends are coherent and initialised, and what redis says about a pid that is
never deleted is what the directory says. -/
structure Maintained (σ : Setting) (s : World) : Prop where
  coherent : Coherent σ s
  keyspaces : ∀ session, s.hasKeyspace session = true
  backed : ∀ server pid url, σ.scope pid → σ.kept pid → s.redis server pid = some url →
    ∃ info, s.photo pid = some info ∧ url = info.path pid

def Setting.maintained (σ : Setting) : Discipline World :=
  .shared (Maintained σ) (Grows σ) (Grows.refl σ) Grows.trans

namespace Maintained

theorem keeps (maintained : Maintained σ s) (kept : σ.discipline.Keeps s t)
    (keyspaces : ∀ session, t.hasKeyspace session = s.hasKeyspace session)
    (redis : ∀ server pid url, t.redis server pid = some url → s.redis server pid = some url) :
    σ.maintained.Keeps s t := by
  refine ⟨⟨kept.1, ?_, ?_⟩, kept.2⟩
  · intro session
    rw [keyspaces]
    exact maintained.keyspaces session
  · intro server pid url within undeleted found
    obtain ⟨info, row, same⟩ :=
      maintained.backed server pid url within undeleted (redis _ _ _ found)
    exact ⟨info, kept.2.rows pid info within undeleted row, same⟩

theorem setRedis (maintained : Maintained σ s) (server : Nat) {pid : String} {info : PhotoInfo}
    (known : σ.scope pid → ∃ k b, σ.Assigned k info b ∧ pid = toString k)
    (row : σ.scope pid → σ.kept pid → s.photo pid = some info) :
    σ.maintained.Keeps s (s.setRedis server pid (some (info.path pid))) := by
  have kept := maintained.coherent.setRedis server pid (some (info.path pid)) (by
    intro url within entry
    obtain ⟨k, b, assigned, name⟩ := known within
    exact ⟨k, info, b, assigned, name, (Option.some.inj entry).symm⟩)
  refine ⟨⟨kept.1, ?_, ?_⟩, kept.2⟩
  · intro session
    cases session with
    | directory => exact maintained.keyspaces .directory
    | store => exact maintained.keyspaces .store
  · intro other q url within undeleted found
    rw [World.redis_setRedis] at found
    split at found
    · rename_i same
      obtain ⟨rfl, rfl⟩ := same
      exact ⟨info, row within undeleted, (Option.some.inj found).symm⟩
    · exact maintained.backed other q url within undeleted found

theorem evict (maintained : Maintained σ s) (server : Nat) (pid : String) :
    σ.maintained.Keeps s (s.setRedis server pid none) := by
  refine maintained.keeps (maintained.coherent.setRedis server pid none (by simp)) ?_
    (fun _ _ _ found => World.redis_of_evicted found)
  intro session
  cases session <;> rfl

theorem setPhoto (maintained : Maintained σ s) {k : Int64} {info : PhotoInfo} {b : Bytes}
    (assigned : σ.Assigned k info b) :
    σ.maintained.Keeps s (s.setPhoto (toString k) (some info)) := by
  refine maintained.keeps (maintained.coherent.setPhoto assigned) ?_ (fun _ _ _ found => found)
  intro session
  cases session <;> rfl

theorem dropPhoto (maintained : Maintained σ s) {pid : String} (dropped : ¬ σ.kept pid) :
    σ.maintained.Keeps s (s.setPhoto pid none) := by
  refine maintained.keeps (maintained.coherent.dropPhoto dropped) ?_ (fun _ _ _ found => found)
  intro session
  cases session <;> rfl

theorem setImage (maintained : Maintained σ s) {k : Int64} {info : PhotoInfo} {b : Bytes}
    (assigned : σ.Assigned k info b) (created : s.HasVolume (lv info.lvid)) :
    σ.maintained.Keeps s (s.setImage (lv info.lvid) (toString k) (some b)) := by
  refine maintained.keeps (maintained.coherent.setImage assigned created) ?_
    (fun _ _ _ found => found)
  intro session
  cases session <;> rfl

theorem setCached (maintained : Maintained σ s) (server : Nat) {pid : String} {b : Bytes}
    (stored : σ.scope pid → ∃ table, s.image table pid = some b) :
    σ.maintained.Keeps s (s.setCached server (σ.charset.getBytes pid) (some b)) := by
  have kept := maintained.coherent.setCached server pid (some b) (fun b' within same =>
    Option.some.inj same ▸ stored within)
  refine maintained.keeps kept ?_ (fun _ _ _ found => found)
  intro session
  cases session <;> rfl

theorem evictImage (maintained : Maintained σ s) (server : Nat) (key : Bytes) :
    σ.maintained.Keeps s (s.setCached server key none) := by
  obtain ⟨fits, rows, redirects, images, cached⟩ := maintained.coherent
  refine maintained.keeps ⟨⟨fits.setCached _ _ _, rows, redirects, images, ?_⟩, ?_⟩ ?_
    (fun _ _ _ found => found)
  · intro other pid b within found
    rw [World.imageCache_setCached] at found
    split at found
    · contradiction
    · exact cached other pid b within found
  · exact ⟨fun _ _ _ _ found => found, fun _ _ _ _ found => found⟩
  · intro session
    cases session <;> rfl

end Maintained

section Requests

variable {server : Nat} {pid lvid : String}

theorem onGetImage_maintained (plain : Plain pid) : (WebServer.onGetImage server pid).Holds
    σ.maintained exec (fun _ _ => True) s := by
  refine WebServer.onGetImage_holds plain (fun t maintained => maintained.coherent.fits) ?_ ?_ ?_ ?_
  · exact fun _ _ _ _ => trivial
  · exact fun _ _ _ _ _ _ _ _ _ => trivial
  · exact fun _ _ _ _ _ _ _ _ => trivial
  · intro _ t _ maintained info row u moved later
    refine ⟨later.setRedis server ?_ ?_, fun _ _ _ => trivial⟩
    · exact fun within => maintained.coherent.rows pid info within row
    · exact fun within kept => moved.rows pid info within kept row

theorem onDelete_maintained (plain : Plain pid) (dropped : ¬ σ.kept pid) :
    (WebServer.onDelete server pid).Holds σ.maintained exec (fun _ _ => True) s := by
  refine WebServer.onDelete_holds plain (fun t maintained => maintained.coherent.fits) ?_
  intro t _ maintained
  refine ⟨maintained.evict server pid, ?_⟩
  intro u _ _
  refine ⟨fun _ _ _ _ => trivial, ?_⟩
  exact fun info _ v _ later => ⟨later.dropPhoto dropped, fun _ _ _ => trivial⟩

theorem onPostImage_maintained {img : Option Bytes} {k : Int64}
    (own : ∀ b, img = some b → σ.content k = some b) :
    (WebServer.onPostImage σ.config img k).Holds σ.maintained exec (fun _ _ => True) s := by
  refine WebServer.onPostImage_holds (fun t maintained => maintained.coherent.fits) ?_ ?_ ?_
  · exact fun _ _ _ _ => trivial
  · exact fun _ _ _ _ _ _ => trivial
  · intro info b file chosen u _ _
    have assigned : σ.Assigned k info b := ⟨own b file, chosen⟩
    refine WebServer.storeImage_holds (fun t maintained => maintained.coherent.fits) ?_
    intro v _ maintained
    refine ⟨maintained.setPhoto assigned, ?_⟩
    intro w _ later
    refine ⟨fun _ _ _ _ => trivial, ?_⟩
    intro usable
    have created : w.HasVolume (lv info.lvid) := (later.coherent.fits.volumes _).mpr usable.2
    exact ⟨later.setImage assigned created, fun _ _ _ => trivial⟩

theorem get_maintained (word : Wordlike lvid) : (CacheServer.get σ.charset server lvid pid).Holds
    σ.maintained exec (fun _ _ => True) s := by
  refine CacheServer.get_holds word (fun t maintained => maintained.coherent.fits) ?_ ?_ ?_ ?_ ?_
  · exact fun _ _ _ _ => trivial
  · exact fun _ _ _ _ _ _ _ _ _ => trivial
  · exact fun _ _ _ _ _ _ _ _ _ => trivial
  · exact fun _ _ _ _ _ _ _ _ _ => trivial
  · intro _ _ t _ _ b found u moved later
    refine ⟨later.setCached server ?_, fun _ _ _ => trivial⟩
    exact fun within => ⟨_, moved.images _ _ _ within found⟩

theorem delete_maintained (absent : "photo" ∉ σ.schema.volumes) :
    (CacheServer.delete σ.charset server pid).Holds σ.maintained exec (fun _ _ => True) s := by
  refine CacheServer.delete_holds (fun t maintained => maintained.coherent.fits) absent ?_
  intro t _ maintained
  exact ⟨maintained.evictImage server _, fun _ _ _ => trivial⟩

end Requests

/-- The tasks that are expected: no quote in a pid, and deletions only of what is not kept. -/
def Setting.Operates (σ : Setting) : Task → Prop
  | .serve (.webDelete _ pid) => Plain pid ∧ ¬ σ.kept pid
  | .serve (.cacheDelete _ _) => "photo" ∉ σ.schema.volumes
  | .serve q => σ.Admits q
  | _ => True

theorem Setting.Operates.admits {q : Request} (operates : σ.Operates (.serve q)) :
    σ.Admits q := by
  cases q with
  | webDelete server pid => exact .inl operates
  | upload server img k => exact operates
  | webGet server pid => exact operates
  | cacheGet server lvid pid => exact operates
  | cacheDelete server pid => exact operates

theorem handler_maintained {q : Request} (operates : σ.Operates (.serve q)) :
    (handler σ.config σ.charset q).Holds σ.maintained exec (fun _ _ => True) s := by
  cases q with
  | upload server img k => exact onPostImage_maintained operates
  | webGet server pid => exact onGetImage_maintained operates
  | webDelete server pid => exact onDelete_maintained operates.1 operates.2
  | cacheGet server lvid pid => exact get_maintained operates
  | cacheDelete server pid => exact delete_maintained operates

theorem handler_replies {q : Request} (operates : σ.Operates (.serve q)) :
    (handler σ.config σ.charset q).Holds σ.maintained exec (σ.Reply s q) s := by
  refine ((handler_coherent operates.admits).refine (d := σ.discipline) (D := σ.maintained)
    (fun _ maintained => maintained.coherent) (fun _ _ moved => moved)
    (handler_maintained operates)).weaken ?_
  exact fun _ _ _ replied => replied.1

section Starts

theorem World.createKeyspace_same {session : Session} (there : s.hasKeyspace session = true) :
    s.createKeyspace session = s := by
  obtain ⟨redis, ⟨k, storeInfo, photoInfo⟩, ⟨k', tables⟩, imageCache⟩ := s
  cases session with
  | directory =>
    exact congrArg
      (fun k => World.mk redis ⟨k, storeInfo, photoInfo⟩ ⟨k', tables⟩ imageCache) there.symm
  | store =>
    exact congrArg
      (fun k' => World.mk redis ⟨k, storeInfo, photoInfo⟩ ⟨k', tables⟩ imageCache) there.symm

theorem World.createTable_same {session : Session} {name : String}
    (there : s.hasTable session name = true) : s.createTable session name = s := by
  obtain ⟨redis, ⟨k, storeInfo, photoInfo⟩, ⟨k', tables⟩, imageCache⟩ := s
  unfold World.createTable
  split
  · obtain ⟨table, rfl⟩ := Option.isSome_iff_exists.mp there
    rfl
  · obtain ⟨table, rfl⟩ := Option.isSome_iff_exists.mp there
    rfl
  · rfl
  · obtain ⟨table, found⟩ := Option.isSome_iff_exists.mp there
    have same : Function.update tables name
        (some ((tables name).getD (fun _ => none))) = tables := by
      rw [Function.update_eq_self_iff]
      change tables name = some table at found
      rw [found]
      rfl
    exact congrArg
      (fun tables => World.mk redis ⟨k, storeInfo, photoInfo⟩ ⟨k', tables⟩ imageCache) same

theorem World.setStatus_same {table : StoreInfo} {lvid status : Int32}
    (created : s.directory.storeInfo = some table) (listed : table.status lvid = some status) :
    s.setStatus lvid status = s := by
  obtain ⟨redis, ⟨k, storeInfo, photoInfo⟩, store, imageCache⟩ := s
  cases created
  exact congrArg (fun table => World.mk redis ⟨k, some table, photoInfo⟩ store imageCache)
    (StoreInfo.set_same listed)

structure Schema.Holding (n : Int32) (schema : Schema) : Prop where
  listed : ∀ k : Int32, 1 ≤ k.toInt → k.toInt ≤ n.toInt → schema.table.status k = some 1
  volumes : ∀ k : Int32, 1 ≤ k.toInt → k.toInt ≤ n.toInt → lv k ∈ schema.volumes

theorem call_maintained {c : Call} (same : ∀ t, Maintained σ t → ∃ r, exec c t = .ok (t, r)) :
    (Program.request c : Handler (Answer c)).Holds σ.maintained exec (fun _ _ => True) s := by
  apply Program.holds_read
  intro t _ maintained
  obtain ⟨r, answer⟩ := same t maintained
  exact ⟨r, answer, fun _ _ _ => trivial⟩

theorem createTable_maintained {session : Session} {name : String}
    (there : ∀ t, Maintained σ t → t.hasTable session name = true) :
    (session.createTableIfNotExists name).Holds σ.maintained exec (fun _ _ => True) s := by
  apply call_maintained
  intro t maintained
  refine ⟨(), ?_⟩
  simp only [exec, if_pos (maintained.keyspaces session),
    World.createTable_same (there t maintained)]

theorem createKeyspace_maintained (session : Session) :
    session.createKeyspaceIfNotExists.Holds σ.maintained exec (fun _ _ => True) s := by
  apply call_maintained
  intro t maintained
  refine ⟨(), ?_⟩
  simp only [exec, World.createKeyspace_same (maintained.keyspaces session)]

theorem use_maintained (session : Session) :
    session.use.Holds σ.maintained exec (fun _ _ => True) s := by
  apply call_maintained
  intro t maintained
  exact ⟨(), if_pos (maintained.keyspaces session)⟩

theorem markWritable_maintained {i : Int32} (listed : σ.schema.table.status i = some 1) :
    (WebServer.markWritable i).Holds σ.maintained exec (fun _ _ => True) s := by
  simp only [WebServer.markWritable, WebServer.dirSession, prepare_bind, executeBound_bind]
  apply Program.holds_read
  intro t _ maintained
  refine ⟨_, WebServer.exec_prepare_updateQuery maintained.coherent.fits.storeInfo, ?_⟩
  apply Program.holds_read
  intro u _ later
  have created := later.coherent.fits.storeInfo
  refine ⟨[], (WebServer.exec_statusUpdate created i).trans ?_, fun _ _ _ => trivial⟩
  rw [World.setStatus_same created listed]

theorem loop_enough {n : Int32} (below : n.toInt < 2 ^ 31 - 1) :
    (n.toInt + 1 - (1 : Int32).toInt).toNat < rounds := by
  have one : (1 : Int32).toInt = 1 := rfl
  have many : rounds = 2 ^ 32 + 1 := rfl
  omega

theorem loop_down_enough (n : Int32) : n.toInt.toNat < rounds := by
  have upper := n.toInt_lt
  have many : rounds = 2 ^ 32 + 1 := rfl
  omega

theorem main_maintained (below : σ.config.numLogicalVolumes.toInt < 2 ^ 31 - 1)
    (holding : σ.schema.Holding σ.config.numLogicalVolumes) :
    (WebServer.main σ.config).Holds σ.maintained exec (fun _ _ => True) s := by
  refine Program.holds_seq (Program.holds_seq (createKeyspace_maintained _) fun _ t =>
    Program.holds_seq (use_maintained _) fun _ t => Program.holds_seq ?_ fun _ t => ?_) fun _ t =>
      use_maintained _
  · refine Program.holds_seq (createTable_maintained fun u maintained => ?_) fun _ u => ?_
    · exact (congrArg Option.isSome maintained.coherent.fits.storeInfo).trans rfl
    · refine forInt_holds (fun i _ => 1 ≤ i.toInt)
        (fun i => (σ.config.numLogicalVolumes.toInt + 1 - i.toInt).toNat) ?_
          (fun _ _ _ _ _ _ _ => trivial)
        (loop_enough below) (by decide)
      intro i w more lower
      have upper : i.toInt ≤ σ.config.numLogicalVolumes.toInt := by
        simpa [Int32.le_iff_toInt_le] using more
      have counted : (i + 1).toInt = i.toInt + 1 := succ_toInt (by omega) (by omega)
      refine ⟨by omega, (markWritable_maintained (holding.listed i lower upper)).weaken ?_⟩
      intro x v _ _
      cases x with
      | ok _ =>
        change 1 ≤ (i + 1).toInt
        omega
      | error e => trivial
  · exact createTable_maintained fun u maintained => maintained.coherent.fits.photos

theorem initCassandraStores_maintained {n : Int32} (holding : σ.schema.Holding n) :
    (CacheServer.initCassandraStores n).Holds σ.maintained exec (fun _ _ => True) s := by
  refine Program.holds_seq (createKeyspace_maintained _) fun _ t =>
    Program.holds_seq (use_maintained _) fun _ t => ?_
  refine forInt_holds (fun i _ => i.toInt ≤ n.toInt) (fun i => i.toInt.toNat) ?_
    (fun _ _ _ _ _ _ _ => trivial) (loop_down_enough n) (Int.le_refl _)
  intro i u more upper
  have positive : 0 < i.toInt := by simpa [Int32.lt_iff_toInt_lt] using more
  have counted : (i - 1).toInt = i.toInt - 1 := pred_toInt positive
  refine ⟨by omega, (createTable_maintained fun w maintained => ?_).weaken ?_⟩
  · exact (maintained.coherent.fits.volumes _).mpr (holding.volumes i positive upper)
  · intro x w _ _
    cases x with
    | ok _ =>
      change (i - 1).toInt ≤ n.toInt
      omega
    | error e => trivial

end Starts

theorem program_maintained {task : Task} (below : σ.config.numLogicalVolumes.toInt < 2 ^ 31 - 1)
    (holding : σ.schema.Holding σ.config.numLogicalVolumes) (operates : σ.Operates task) :
    (task.program σ.config σ.charset).Holds σ.maintained exec (fun x t => ∀ r a,
      task.request = some r → x = .ok (some a) → σ.Reply s r (.ok a) t) s := by
  cases task with
  | serve q =>
    apply Program.holds_map
    apply (handler_replies operates).weaken
    intro x t _ reply r a same given
    cases same
    cases x with
    | error e => cases given
    | ok b =>
      cases given
      exact reply
  | startWeb =>
    exact Program.holds_map _ ((main_maintained below holding).weaken (by simp [Task.request]))
  | startCache =>
    exact Program.holds_map _
      ((initCassandraStores_maintained holding).weaken (by simp [Task.request]))
  | loseRedirect server key =>
    apply Program.holds_map
    apply Program.holds_call
    intro t _ maintained
    exact ⟨_, (), rfl, maintained.evict server key,
      by simp [Task.request, Program.Holds, Discipline.Onward]⟩
  | loseImage server key =>
    apply Program.holds_map
    apply Program.holds_call
    intro t _ maintained
    exact ⟨_, (), rfl, maintained.evictImage server key,
      by simp [Task.request, Program.Holds, Discipline.Onward]⟩

end Maintenance

/-- What the directory and the store say about a request: neither redis nor anything else
that goes on is looked at. An upload is acknowledged if there is a table for the volume of its
image, and then the image is stored. -/
def World.Answers (config : HSConfig) (s : World) : Request → Except Exception Resp → Prop
  | .upload _ none _, x => x = .ok (.json 201 "")
  | .upload _ (some b) t, x => ∃ table, s.directory.storeInfo = some table ∧
    match WebServer.placement config table t with
    | .error e => x = .error e
    | .ok info =>
      if 0 ≤ info.lvid.toInt ∧ s.HasVolume (lv info.lvid) then
        x = .ok (.json 201 (toString t)) ∧ s.image (lv info.lvid) (toString t) = some b
      else x = .error .invalidQuery
  | .webGet _ pid, x => x = .ok (if pid = "" then .result 400 "Bad request: empty pid."
    else match s.photo pid with
      | none => .result 404 "PID does not exist."
      | some info => .redirect (info.path pid))
  | .webDelete _ pid, x => x = .ok (match s.photo pid with
    | none => .result 404 "No such image."
    | some _ => .result 200 "Image deleted.")
  | .cacheGet _ lvid pid, x => x = if lvid = "" ∨ pid = "" then .ok (.result 400 "error")
    else if s.HasVolume ("lv" ++ lowered lvid) then .ok
      (match s.image ("lv" ++ lowered lvid) pid with
      | none => .status 404
      | some b => .image pid b)
    else .error .invalidQuery
  | .cacheDelete _ _, x => x = .error .invalidQuery

section Answers

variable {σ : Setting} {server : Nat} {pid lvid : String}

theorem onGetImage_sees (plain : Plain pid) (within : σ.scope pid) (kept : σ.kept pid) :
    (WebServer.onGetImage server pid).Sees exec (Maintained σ)
      (fun s x => s.Answers σ.config (.webGet server pid) x) := by
  by_cases named : pid = ""
  · subst named
    exact fun s _ => rfl
  obtain ⟨next, tree, continued⟩ := WebServer.onGetImage_eq server named
  obtain ⟨next', tree', continued'⟩ := WebServer.onCacheMiss_eq server pid
  rw [tree]
  apply Program.sees_read
  intro s maintained
  refine ⟨s.redis server pid, rfl, ?_⟩
  rw [continued]
  cases found : WebServer.usable (s.redis server pid) with
  | some url =>
    left
    have entry : s.redis server pid = some url := (Option.filter_eq_some_iff.mp found).1
    obtain ⟨info, row, rfl⟩ := maintained.backed server pid url within kept entry
    change World.Answers σ.config s (.webGet server pid) (.ok (.redirect (info.path pid)))
    simp only [World.Answers, named, if_false, row]
  | none =>
    right
    rw [Option.elim_none, tree']
    apply Program.sees_read
    intro t maintained'
    refine ⟨_, WebServer.exec_selectPhoto plain maintained'.coherent.fits.photos, .inl ?_⟩
    rw [continued']
    cases row : t.photo pid with
    | none =>
      change World.Answers σ.config t (.webGet server pid) (.ok (.result 404 "PID does not exist."))
      simp only [World.Answers, named, if_false, row]
    | some info =>
      apply Program.leaves_call
      intro u _
      refine ⟨_, (), rfl, ?_⟩
      change World.Answers σ.config t (.webGet server pid) (.ok (.redirect (info.path pid)))
      simp only [World.Answers, named, if_false, row]

theorem onDelete_sees (plain : Plain pid) : (WebServer.onDelete server pid).Sees exec (Maintained σ)
    (fun s x => s.Answers σ.config (.webDelete server pid) x) := by
  obtain ⟨next, tree, missing, present⟩ := WebServer.searchRow_eq pid
  rw [WebServer.onDelete_eq]
  apply Program.sees_call
  intro s _
  refine ⟨_, (), rfl, ?_⟩
  rw [tree]
  apply Program.sees_read
  intro t maintained
  refine ⟨_, WebServer.exec_searchQuery plain maintained.coherent.fits.photos, .inl ?_⟩
  cases row : t.photo pid with
  | none =>
    rw [Option.map_none, Option.toList_none, missing]
    change World.Answers σ.config t (.webDelete server pid) (.ok (.result 404 "No such image."))
    simp only [World.Answers, row]
  | some info =>
    rw [Option.map_some, Option.toList_some, present]
    apply Program.leaves_call
    intro u later
    refine ⟨_, [], WebServer.exec_delQuery plain later.coherent.fits.photos, ?_⟩
    change World.Answers σ.config t (.webDelete server pid) (.ok (.result 200 "Image deleted."))
    simp only [World.Answers, row]

theorem onPostImage_sees {img : Option Bytes} {k : Int64} :
    (WebServer.onPostImage σ.config img k).Sees exec (Maintained σ)
      (fun s x => s.Answers σ.config (.upload server img k) x) := by
  cases img with
  | none =>
    rw [WebServer.onPostImage_none]
    exact fun s _ => rfl
  | some b =>
    obtain ⟨next, tree, continued⟩ := WebServer.onPostImage_eq σ.config b k
    rw [tree]
    apply Program.sees_read
    intro s maintained
    refine ⟨_, WebServer.exec_lvidQuery _ maintained.coherent.fits.storeInfo, ?_⟩
    rw [continued]
    cases chosen : WebServer.placement σ.config σ.schema.table k with
    | error e =>
      left
      refine ⟨σ.schema.table, maintained.coherent.fits.storeInfo, ?_⟩
      rw [chosen]
    | ok info =>
      right
      apply Program.sees_call
      intro t maintained
      refine ⟨_, [], WebServer.exec_insertQuery info.cacheUrl info.lvid
        maintained.coherent.fits.photos, ?_⟩
      have volume : ∀ w, Maintained σ w → (w.HasVolume (lv info.lvid) ↔
          lv info.lvid ∈ σ.schema.volumes) := fun w later => later.coherent.fits.volumes _
      by_cases writable : WebServer.Usable σ.schema info
      · apply Program.sees_read
        intro u later
        refine ⟨_, WebServer.exec_prepare_insertImage writable.1 ((volume u later).mpr writable.2),
          .inr ?_⟩
        rw [WebServer.bind_imageStatement]
        apply Program.sees_write
        intro v later'
        have created := (volume v later').mpr writable.2
        refine ⟨_, [], WebServer.exec_imageInsert info.lvid b created, σ.schema.table,
          later'.coherent.fits.storeInfo, ?_⟩
        rw [chosen]
        refine (if_pos ⟨writable.1, (World.hasVolume_setImage ..).mpr created⟩).mpr ⟨rfl, ?_⟩
        rw [World.image_setImage _ _ _ _ created]
        simp
      · apply Program.sees_refused
        intro u later
        have missing : ¬ (0 ≤ info.lvid.toInt ∧ u.HasVolume (lv info.lvid)) :=
          fun good => writable ⟨good.1, (volume u later).mp good.2⟩
        refine ⟨WebServer.exec_prepare_refused missing, σ.schema.table,
          later.coherent.fits.storeInfo, ?_⟩
        rw [chosen]
        exact (if_neg missing).mpr rfl

def Setting.Own (σ : Setting) (lvid pid : String) : Prop :=
  ∀ t info, pid = toString t → WebServer.placement σ.config σ.schema.table t = .ok info →
    "lv" ++ lowered lvid = lv info.lvid

theorem get_sees (word : Wordlike lvid) (within : σ.scope pid) (own : σ.Own lvid pid) :
    (CacheServer.get σ.charset server lvid pid).Sees exec (Maintained σ)
      (fun s x => s.Answers σ.config (.cacheGet server lvid pid) x) := by
  by_cases named : lvid = "" ∨ pid = ""
  · unfold CacheServer.get
    rw [if_pos named]
    intro s _
    simp only [World.Answers, if_pos named]
  obtain ⟨next, tree, continued⟩ := CacheServer.get_eq σ.charset server (not_or.mp named)
  obtain ⟨next', tree', prepared⟩ := CacheServer.getMiss_eq σ.charset server lvid pid
  rw [tree]
  apply Program.sees_read
  intro s maintained
  refine ⟨s.imageCache server (σ.charset.getBytes pid), rfl, ?_⟩
  rw [continued]
  cases found : s.imageCache server (σ.charset.getBytes pid) with
  | some b =>
    left
    obtain ⟨t, info, assigned, key, stored⟩ := maintained.coherent.cached server pid b within found
    have name : pid = toString t := σ.charset.decimal pid t key
    have place := own t info name assigned.place
    rw [← name, ← place] at stored
    have created : s.HasVolume ("lv" ++ lowered lvid) := by
      cases there : s.store.tables ("lv" ++ lowered lvid) with
      | none => simp [World.image, there] at stored
      | some _ => simp [World.HasVolume, there]
    change World.Answers σ.config s (.cacheGet server lvid pid) (.ok (.image pid b))
    simp only [World.Answers, if_neg named, if_pos created, stored]
  | none =>
    right
    rw [Option.elim_none, tree']
    by_cases existing : "lv" ++ lowered lvid ∈ σ.schema.volumes
    · have created : ∀ w, Maintained σ w → w.HasVolume ("lv" ++ lowered lvid) :=
        fun w later => (later.coherent.fits.volumes _).mpr existing
      apply Program.sees_read
      intro t later
      refine ⟨CacheServer.lookupStatement ("lv" ++ lowered lvid), ?_, .inr ?_⟩
      · rw [CacheServer.exec_prepare_selectImage word, if_pos (created t later)]
      rw [prepared]
      apply Program.sees_read
      intro u later'
      refine ⟨_, CacheServer.exec_lookup _ (created u later'), .inl ?_⟩
      rw [CacheServer.getRows_eq]
      cases stored : u.image ("lv" ++ lowered lvid) pid with
      | none =>
        change World.Answers σ.config u (.cacheGet server lvid pid) (.ok (.status 404))
        simp only [World.Answers, if_neg named, if_pos (created u later'), stored]
      | some b =>
        apply Program.leaves_call
        intro v _
        refine ⟨_, (), rfl, ?_⟩
        change World.Answers σ.config u (.cacheGet server lvid pid) (.ok (.image pid b))
        simp only [World.Answers, if_neg named, if_pos (created u later'), stored]
    · apply Program.sees_refused
      intro t later
      have missing : ¬ t.HasVolume ("lv" ++ lowered lvid) :=
        fun created => existing ((later.coherent.fits.volumes _).mp created)
      rw [CacheServer.exec_prepare_selectImage word, if_neg missing]
      refine ⟨rfl, ?_⟩
      simp only [World.Answers, if_neg named, if_neg missing]

theorem delete_sees (absent : "photo" ∉ σ.schema.volumes) :
    (CacheServer.delete σ.charset server pid).Sees exec (Maintained σ)
      (fun s x => s.Answers σ.config (.cacheDelete server pid) x) := by
  obtain ⟨next, tree⟩ := CacheServer.delete_eq σ.charset server pid
  rw [tree]
  apply Program.sees_call
  intro s _
  refine ⟨_, (), rfl, ?_⟩
  apply Program.sees_refused
  intro t maintained
  have missing : ¬ t.HasVolume "photo" :=
    fun h => absent ((maintained.coherent.fits.volumes _).mp h)
  exact ⟨CacheServer.exec_searchPhoto (by simpa [World.HasVolume] using missing), rfl⟩

/-- The gets that redis cannot deceive: of a pid that is not deleted, and of a volume that
is the pid's own. -/
def Setting.Undeceived (σ : Setting) : Request → Prop
  | .webGet _ pid => σ.scope pid ∧ σ.kept pid
  | .cacheGet _ lvid pid => σ.scope pid ∧ σ.Own lvid pid
  | _ => True

theorem handler_sees {r : Request} (operates : σ.Operates (.serve r))
    (undeceived : σ.Undeceived r) :
    (handler σ.config σ.charset r).Sees exec (Maintained σ)
      (fun s x => s.Answers σ.config r x) := by
  cases r with
  | upload server img k => exact onPostImage_sees
  | webGet server pid => exact onGetImage_sees operates undeceived.1 undeceived.2
  | webDelete server pid => exact onDelete_sees operates.1
  | cacheGet server lvid pid => exact get_sees operates undeceived.1 undeceived.2
  | cacheDelete server pid => exact delete_sees operates

end Answers

/-- Pids without a quote, and lvids of letters, digits and underscores. -/
def Request.Tidy : Request → Prop
  | .webGet _ pid => Plain pid
  | .webDelete _ pid => Plain pid
  | .cacheGet _ lvid _ => Wordlike lvid
  | _ => True

instance : DecidablePred Request.Tidy
  | .upload _ _ _ => inferInstanceAs (Decidable True)
  | .webGet _ pid => inferInstanceAs (Decidable (Plain pid))
  | .webDelete _ pid => inferInstanceAs (Decidable (Plain pid))
  | .cacheGet _ lvid _ => inferInstanceAs (Decidable (Wordlike lvid))
  | .cacheDelete _ _ => inferInstanceAs (Decidable True)

def Setting.serving (config : HSConfig) (charset : Charset) (schema : Schema) (rs : List Request) :
    Setting where
  config := config
  charset := charset
  schema := schema
  content := Haystack.content rs
  kept pid := ∀ server, .webDelete server pid ∉ rs
  scope _ := True
  closed _ _ _ _ := trivial

/-- Operation from the day the servers have been set up: the tables are there and empty, and
no two uploads read the same clock. -/
structure Operating (config : HSConfig) (charset : Charset) (table : StoreInfo) (s : World)
    (es : List (Event Task Exception)) : Prop where
  below : config.numLogicalVolumes.toInt < 2 ^ 31 - 1
  ready : s.Ready config.numLogicalVolumes table
  keyspaces : ∀ session, s.hasKeyspace session = true
  empty : ∀ pid, s.Unused charset pid
  absent : ¬ s.HasVolume "photo"
  tidy : ∀ r ∈ requests es, r.Tidy
  distinct : (readings (requests es)).Nodup

namespace Operating

variable {config : HSConfig} {charset : Charset} {table : StoreInfo} {s : World}
  {es : List (Event Task Exception)} {p m : Operation}

def setting (_ : Operating config charset table s es) : Setting :=
  .serving config charset (s.schema table) (requests es)

theorem holding (operating : Operating config charset table s es) :
    operating.setting.schema.Holding config.numLogicalVolumes := by
  constructor
  · intro k lower upper
    exact StoreInfo.mem_iff_status.mp ((operating.ready.covers (k, 1)).mpr ⟨⟨lower, upper⟩, rfl⟩)
  · exact operating.ready.volumes

theorem maintained (operating : Operating config charset table s es) :
    Maintained operating.setting s := by
  refine ⟨⟨World.fits_schema operating.ready.photos operating.ready.storeInfo, ?_, ?_, ?_, ?_⟩,
    operating.keyspaces, ?_⟩
  · intro pid info _ found
    cases (operating.empty pid).photo.symm.trans found
  · intro server pid url _ found
    cases ((operating.empty pid).redis server).symm.trans found
  · intro place pid b _ found
    cases ((operating.empty pid).image place).symm.trans found
  · intro server pid b _ found
    cases ((operating.empty pid).cached server).symm.trans found
  · intro server pid url _ _ found
    cases ((operating.empty pid).redis server).symm.trans found

theorem operates (operating : Operating config charset table s es) {task : Task}
    (member : task ∈ started es) : operating.setting.Operates task := by
  cases task with
  | serve r =>
    have made := mem_requests.mpr member
    have tidy := operating.tidy r made
    cases r with
    | upload server img k =>
      rintro b rfl
      exact content_of_mem operating.distinct made
    | webGet server pid => exact tidy
    | webDelete server pid => exact ⟨tidy, fun kept => kept server made⟩
    | cacheGet server lvid pid => exact tidy
    | cacheDelete server pid => exact operating.absent
  | startWeb => trivial
  | startCache => trivial
  | loseRedirect server key => trivial
  | loseImage server key => trivial

abbrev Kept (operating : Operating config charset table s es) (p : Operation) : Prop :=
  p.Good operating.setting.maintained exec (fun _ task x u => ∀ r a,
    task.request = some r → x = .ok (some a) → ∃ v, operating.setting.Reply v r (.ok a) u)

theorem kept_runs (operating : Operating config charset table s es)
    {xs : List (Event Task Exception)} (listed : ∀ task ∈ started xs, task ∈ started es)
    (kept : operating.Kept p) (run : p.after config charset xs = some m) :
    operating.Kept m ∧ Grows operating.setting p.state m.state := by
  refine kept.runs ?_ ?_ run
  · intro i task v begun _ _ _
    have member := listed task (mem_started.mpr begun)
    refine (program_maintained (σ := operating.setting) operating.below operating.holding
      (operating.operates member)).weaken ?_
    intro x u _ given r a made answered
    exact ⟨v, given r a made answered⟩
  · intro _ _ _ i task e u r a _ given
    cases given

variable {before after : List (Event Task Exception)}

theorem kept_after (operating : Operating config charset table s es) (split : es = before ++ after)
    (run : (Operation.idle s).after config charset before = some p) :
    operating.Kept p := by
  refine (operating.kept_runs ?_
    (Pool.Good.empty _ (fun grows => grows) operating.maintained) run).1
  intro task member
  rw [split, started_append]
  exact List.mem_append_left _ member

theorem kept_onward (operating : Operating config charset table s es) (split : es = before ++ after)
    (run : (Operation.idle s).after config charset before = some p)
    (passes : p.Passes exec (Task.program config charset) after m) :
    operating.Kept m ∧ Grows operating.setting p.state m.state := by
  obtain ⟨xs, ys, rfl, continued⟩ := passes
  refine operating.kept_runs ?_ (operating.kept_after split run) continued
  intro task member
  rw [split, started_append, started_append]
  exact List.mem_append_right _ (List.mem_append_left _ member)

theorem moment (operating : Operating config charset table s es) (split : es = before ++ after)
    (reached : (Operation.idle s).after config charset before = some p)
    (continued : p.after config charset after = some m) {i : Nat}
    {thread : Run} {r : Request} {x : Except Exception (Option Resp)}
    (fresh : p.threads.length ≤ i) (found : m.threads[i]? = some thread)
    (made : thread.request = .serve r) (undeceived : operating.setting.Undeceived r)
    (uncut : Pool.Uncut i after) (ended : thread.rest.outcome = some x) :
    ∃ n, p.Moment exec (Task.program config charset) after i n ∧
      ∃ y, x = y.map some ∧ n.state.Answers config r y := by
  have run := Operation.after_append reached continued
  rw [← split] at run
  have listed : .serve r ∈ started es := by
    have member : thread.request ∈ m.threads.map Thread.request :=
      List.mem_map_of_mem (List.mem_of_getElem? found)
    rw [Pool.runs_requests exec _ run, made] at member
    simpa [Operation.idle] using member
  have sees := Program.sees_map some (handler_sees (operating.operates listed) undeceived)
  refine Pool.moment_of_request (I := Maintained operating.setting)
    (P := fun n z => ∃ y, z = y.map some ∧ n.Answers config r y) continued ?_ uncut fresh found ?_
    ended
  · exact fun n passes => (operating.kept_onward split reached passes).1.invariant
  · rw [made]
    exact sees

end Operating

abbrev Report := Task × Option (Except Exception (Option Resp))

instance : DecidableEq Report := inferInstance

def Operation.outcome (p : Operation) (i : Nat) : Option Report :=
  p.threads[i]?.map (fun t => (t.request, t.rest.outcome))

theorem Operation.outcome_found {p : Operation} {i : Nat} {task : Task}
    {o : Option (Except Exception (Option Resp))} (listed : p.outcome i = some (task, o)) :
    ∃ t, p.threads[i]? = some t ∧ t.request = task ∧ t.rest.outcome = o := by
  simp only [outcome, Option.map_eq_some_iff, Prod.mk.injEq] at listed
  exact listed

def getDuringRestart : List (Event Task Exception) :=
  [.start (.serve (.upload 0 (some [1, 2]) 7)), .step 0, .step 0, .step 0, .step 0,
    .start (.serve (.webGet 1 "7")), .step 1, .start .startWeb, .step 2, .step 2,
    .abort 2 true .unavailable, .start (.loseRedirect 1 "7"), .step 1, .step 3, .step 1]

theorem operating_shipped {es : List (Event Task Exception)} (tidy : ∀ r ∈ requests es, r.Tidy)
    (distinct : (readings (requests es)).Nodup) :
    Operating .shipped .utf8 ⟨[(1, 1), (2, 1)], by decide⟩ .shipped es := by
  refine ⟨by decide, World.ready_shipped, ?_, World.unused_shipped _, by decide, tidy, distinct⟩
  intro session
  cases session <;> rfl

end Haystack
