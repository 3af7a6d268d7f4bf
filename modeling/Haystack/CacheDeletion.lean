import Haystack.Deployment

/-! The /delete of a cache server. It looks the photo up in a table that no start-up
creates, so it fails on every pid and after every history. -/
namespace Haystack

open Calls Cql Java

theorem tables_setImage_absent {table place pid : String} {image : Option Bytes} {s : World}
    (absent : s.store.tables table = none) :
    (s.setImage place pid image).store.tables table = none := by
  by_cases same : table = place
  · subst same
    simp [World.setImage, absent]
  · simp [World.setImage, same, absent]

theorem executeStore_kept {table : String} {st : Statement} {s t : World} {rows : List Row}
    (absent : s.store.tables table = none) (answer : executeStore st s = .ok (t, rows)) :
    t.store.tables table = none := by
  unfold executeStore at answer
  split at answer
  · split at answer
    · cases answer
      exact absent
    · cases answer
  · split at answer
    · cases answer
      exact tables_setImage_absent absent
    · cases answer
  · split at answer
    · cases answer
      exact tables_setImage_absent absent
    · cases answer
  · cases answer

theorem executeOn_kept {session : Session} {table : String} {st : Statement} {s t : World}
    {rows : List Row} (absent : s.store.tables table = none)
    (answer : executeOn session st s = .ok (t, rows)) : t.store.tables table = none := by
  cases session with
  | directory =>
    rw [executeDirectory_rest answer]
    exact absent
  | store => exact executeStore_kept absent answer

theorem exec_execute_sent {session : Session} {query : String} {values : List Value} {s t : World}
    {rows : List Row} (answer : exec (.execute session query values) s = .ok (t, rows)) :
    ∃ st, executeOn session st s = .ok (t, rows) := by
  simp only [exec] at answer
  cases bound : (Statement.ofText query).bind (fun st => st.bind values) with
  | none =>
    rw [bound] at answer
    cases answer
  | some st =>
    rw [bound] at answer
    exact ⟨st, answer⟩

def Spares (table : String) (c : Call) : Prop := c ≠ .createTableIfNotExists .store table

theorem exec_spares {table : String} (c : Call) (s t : World) (r : Answer c)
    (spares : Spares table c)
    (absent : s.store.tables table = none) (answer : exec c s = .ok (t, r)) :
    t.store.tables table = none := by
  cases c with
  | jedisGet _ _ | jedisSet _ _ _ | jedisDel _ _ | binaryGet _ _ | binarySet _ _ _
  | binaryDel _ _ =>
    cases answer
    exact absent
  | execute session query values =>
    obtain ⟨st, executed⟩ := exec_execute_sent answer
    exact executeOn_kept absent executed
  | prepare session query =>
    simp only [exec] at answer
    cases accepted : Statement.ofText query with
    | none =>
      rw [accepted] at answer
      cases answer
    | some st =>
      rw [accepted] at answer
      simp only [answerOr, Except.bind] at answer
      split at answer
      · cases answer
        exact absent
      · cases answer
  | executeBound session st => exact executeOn_kept absent answer
  | createKeyspaceIfNotExists session =>
    cases answer
    cases session <;> exact absent
  | use session =>
    simp only [exec] at answer
    split at answer
    · cases answer
      exact absent
    · cases answer
  | createTableIfNotExists session place =>
    simp only [exec] at answer
    split at answer
    · cases answer
      cases session with
      | directory =>
        unfold World.createTable
        split <;> first | exact absent | simp_all
      | store =>
        have differ : table ≠ place := fun same => spares (same ▸ rfl)
        simp [World.createTable, differ, absent]
    · cases answer

theorem lv_ne_photo (i : Int32) : "lv" ++ toString i ≠ "photo" := by
  intro same
  have first := congrArg (fun name => name.toList.head?) same
  simp at first

section Sparing

theorem onPostImage_spares (config : HSConfig) (img : Option Bytes) (t : Int64) (table : String) :
    (WebServer.onPostImage config img t).Everywhere (Spares table) := by
  cases img with
  | none => trivial
  | some b =>
    refine Program.everywhere_bind (Program.everywhere_request (by simp [Spares])) (fun rows => ?_)
    refine Program.everywhere_bind (Program.everywhere_lift _) (fun k => ?_)
    refine Program.everywhere_bind (Program.everywhere_lift _) (fun url => ?_)
    refine Program.everywhere_bind (Program.everywhere_request (by simp [Spares])) (fun _ => ?_)
    refine Program.everywhere_bind (Program.everywhere_request (by simp [Spares])) (fun ps => ?_)
    refine Program.everywhere_bind (Program.everywhere_lift _) (fun bound => ?_)
    exact Program.everywhere_bind (Program.everywhere_request (by simp [Spares])) (fun _ => trivial)

theorem markWritable_spares (i : Int32) (table : String) :
    (WebServer.markWritable i).Everywhere (Spares table) := by
  refine Program.everywhere_bind (Program.everywhere_request (by simp [Spares])) (fun ps => ?_)
  refine Program.everywhere_bind (Program.everywhere_lift _) (fun bound => ?_)
  exact Program.everywhere_bind (Program.everywhere_request (by simp [Spares])) (fun _ => trivial)

theorem initCassandraDirectory_spares (config : HSConfig) (table : String) :
    (WebServer.initCassandraDirectory config).Everywhere (Spares table) := by
  have directory : WebServer.dirSession ≠ .store := by decide
  refine Program.everywhere_bind (Program.everywhere_request (by simp [Spares])) (fun _ => ?_)
  refine Program.everywhere_bind (Program.everywhere_request (by simp [Spares])) (fun _ => ?_)
  refine Program.everywhere_bind ?_
    (fun _ => Program.everywhere_request (by simp [Spares, directory]))
  exact Program.everywhere_bind (Program.everywhere_request (by simp [Spares, directory]))
    (fun _ => everywhere_forInt _ _ (fun i => markWritable_spares i table) rounds 1)

theorem main_spares (config : HSConfig) (table : String) :
    (WebServer.main config).Everywhere (Spares table) :=
  Program.everywhere_bind (initCassandraDirectory_spares config table)
    (fun _ => Program.everywhere_request (by simp [Spares]))

theorem initCassandraStores_spares (n : Int32) :
    (CacheServer.initCassandraStores n).Everywhere (Spares "photo") := by
  refine Program.everywhere_bind (Program.everywhere_request (by simp [Spares])) (fun _ => ?_)
  refine Program.everywhere_bind (Program.everywhere_request (by simp [Spares])) (fun _ => ?_)
  refine everywhere_forInt _ _ (fun i => Program.everywhere_request ?_) rounds n
  intro same
  injection same with _ name
  exact lv_ne_photo i name

theorem photo_absent (ds : List Deed) :
    (Deployment.after ds).world.store.tables "photo" = none := by
  induction ds using List.reverseRecOn with
  | nil => rfl
  | append_singleton ds deed ih =>
    rw [Deployment.after, List.foldl_append]
    change ((Deployment.after ds).perform deed).world.store.tables "photo" = none
    cases deed with
    | cacheStart n =>
      exact Program.run_everywhere exec exec_spares (initCassandraStores_spares n) ih
    | webStart server config =>
      exact Program.run_everywhere exec exec_spares (main_spares config _) ih
    | upload server b t =>
      simp only [Deployment.perform]
      split
      · exact ih
      · exact Program.run_everywhere exec exec_spares (onPostImage_spares _ _ _ _) ih

end Sparing

namespace CacheServer

/-- What /delete is meant to do: remove the photo from redis and from the volumes and
nothing else, or say that there is none. -/
structure Deletes (charset : Charset) (server : Nat) (pid : String) (s : World)
    (left : World × Except Exception Resp) : Prop where
  present : (∃ table b, s.image table pid = some b) →
    left.2 = .ok (.plain "delete the photo") ∧
    left.1.imageCache server (charset.getBytes pid) = none ∧
      (∀ table, left.1.image table pid = none) ∧
    (∀ table q, q ≠ pid → left.1.image table q = s.image table q) ∧
    ∀ w key, (w ≠ server ∨ key ≠ charset.getBytes pid) →
      left.1.imageCache w key = s.imageCache w key
  absent : (∀ table, s.image table pid = none) →
    left.2 = .ok (.plain "no such photo!") ∧ left.1.store = s.store

theorem delete_run (charset : Charset) (server : Nat) (pid : String) {s : World}
    (absent : s.store.tables "photo" = none) :
    (delete charset server pid).run exec s =
      (s.setCached server (charset.getBytes pid) none, .error .invalidQuery) := by
  obtain ⟨next, tree⟩ := delete_eq charset server pid
  have evicted : exec (.binaryDel server (charset.getBytes pid)) s =
    .ok (s.setCached server (charset.getBytes pid) none, ()) := rfl
  rw [tree, Program.run_call_ok exec evicted]
  exact Program.run_call_error exec (exec_searchPhoto absent)

/-- After any history of starts and uploads, whatever redis holds, /delete fails on every
pid after it has evicted the pid from redis. It never does what it is meant to. -/
theorem delete_never_deletes (ds : List Deed) (cache : Nat → Bytes → Option Bytes)
    (charset : Charset) (server : Nat) (pid : String) :
    let s : World := { (Deployment.after ds).world with imageCache := cache }
    (delete charset server pid).run exec s =
        (s.setCached server (charset.getBytes pid) none, .error .invalidQuery) ∧
      ¬ Deletes charset server pid s ((delete charset server pid).run exec s) := by
  intro s
  have ran : (delete charset server pid).run exec s =
      (s.setCached server (charset.getBytes pid) none, .error .invalidQuery) :=
    delete_run charset server pid (photo_absent ds)
  refine ⟨ran, ?_⟩
  rw [ran]
  intro deletes
  by_cases stored : ∃ table b, s.image table pid = some b
  · cases (deletes.present stored).1
  · have nowhere : ∀ table, s.image table pid = none := by
      intro table
      rw [Option.eq_none_iff_forall_ne_some]
      exact fun b image => stored ⟨table, b, image⟩
    cases (deletes.absent nowhere).1

theorem delete_fails_shipped :
    ((delete .utf8 0 "7").run exec (World.shippedPhoto [1])).2 = .error .invalidQuery ∧
    ((delete .utf8 0 "7").run exec (World.shippedPhoto [1])).1.image "lv2" "7" = some [1] := by
  rw [delete_run .utf8 0 "7" (by decide)]
  exact ⟨rfl, World.shippedPhoto_image [1]⟩

end CacheServer

end Haystack
