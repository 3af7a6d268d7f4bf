import Haystack.Operation
import Haystack.Calls.Endings

/-! What is acknowledged lasts: through restarts, lost redis entries and requests that are
cut off, an upload that was answered can be read until it is deleted. -/
namespace Haystack

open Calls Cql Java

/-- How many calls a task makes at most. The start of a web server makes two for each round
of its loop. -/
def Task.bound : Task → Nat
  | serve q => q.bound
  | startWeb => 1 + (1 + (1 + rounds * 2 + 1)) + 1
  | startCache => 1 + (1 + rounds * 1)
  | loseRedirect _ _ => 1
  | loseImage _ _ => 1

def Task.Possible : Task → Option Resp → Prop
  | serve q, a => ∃ r, a = some r ∧ q.Possible r
  | _, a => a = none

theorem markWritable_within (i : Int32) : (WebServer.markWritable i).Within (fun _ => True) 2 := by
  simp only [WebServer.markWritable, prepare_bind, executeBound_bind]
  intro ps
  apply Program.within_lift
  intro bound _
  trivial

theorem request_within (c : Call) :
    (Program.request c : Handler (Answer c)).Within (fun _ => True) 1 :=
  Program.within_request (fun _ => trivial)

theorem createStoreInfoIfNotExist_within (config : HSConfig) :
    (WebServer.createStoreInfoIfNotExist config).Within (fun _ => True) (1 + rounds * 2) := by
  apply Program.within_bind (request_within _)
  exact fun _ _ => within_forInt _ _ markWritable_within _ _

theorem initCassandraDirectory_within (config : HSConfig) :
    (WebServer.initCassandraDirectory config).Within (fun _ => True)
      (1 + (1 + (1 + rounds * 2 + 1))) := by
  refine Program.within_bind (request_within _) (fun _ _ => ?_)
  refine Program.within_bind (request_within _) (fun _ _ => ?_)
  exact Program.within_bind (createStoreInfoIfNotExist_within config) (fun _ _ => request_within _)

theorem main_within (config : HSConfig) :
    (WebServer.main config).Within (fun _ => True) (1 + (1 + (1 + rounds * 2 + 1)) + 1) :=
  Program.within_bind (initCassandraDirectory_within config) (fun _ _ => request_within _)

theorem initCassandraStores_within (n : Int32) :
    (CacheServer.initCassandraStores n).Within (fun _ => True) (1 + (1 + rounds * 1)) := by
  have table : ∀ i : Int32, (CacheServer.createLogicalVolumeIfNotExist ("lv" ++ toString i)).Within
    (fun _ => True) 1 := fun i => request_within (.createTableIfNotExists .store _)
  refine Program.within_bind (request_within _) (fun _ _ => ?_)
  refine Program.within_bind (request_within _) (fun _ _ => ?_)
  exact within_forInt _ _ table _ _

theorem program_within (config : HSConfig) (charset : Charset) (task : Task) :
    (task.program config charset).Within task.Possible task.bound := by
  have silent : ∀ {α : Type} {n : Nat} {p : Handler α}, p.Within (fun _ => True) n →
      ((fun _ => none) <$> p : Handler (Option Resp)).Within (fun a => a = none) n :=
    fun within => Program.within_bind (n := 0) within (fun _ _ => rfl)
  cases task with
  | serve q =>
    refine Program.within_bind (n := 0) (handler_within config charset q) ?_
    exact fun r possible => ⟨r, rfl, possible⟩
  | startWeb => exact silent (main_within config)
  | startCache => exact silent (initCassandraStores_within _)
  | loseRedirect server key => exact silent (Program.within_request (fun _ => trivial))
  | loseImage server key => exact silent (Program.within_request (fun _ => trivial))

theorem World.Answers.redirect {config : HSConfig} {s : World} {server : Nat} {t : Int64}
    {info : PhotoInfo}
    {y : Except Exception Resp} (answers : s.Answers config (.webGet server (toString t)) y)
    (row : s.photo (toString t) = some info) : y = .ok (.redirect (info.path (toString t))) := by
  rw [answers, if_neg (toString_long_ne_empty t), row]

theorem World.Answers.image {config : HSConfig} {s : World} {server : Nat} {t : Int64}
    {k : Int32} {b : Bytes}
    {y : Except Exception Resp}
    (answers : s.Answers config (.cacheGet server (toString k) (toString t)) y)
    (nonneg : 0 ≤ k.toInt) (stored : s.image (lv k) (toString t) = some b) :
    y = .ok (.image (toString t) b) := by
  have named : ¬ (toString k = "" ∨ toString t = "") := by
    rintro (empty | empty)
    · exact toString_ne_empty k.toInt empty
    · exact toString_long_ne_empty t empty
  have table : "lv" ++ lowered (toString k) = lv k := by
    rw [lowered_toString nonneg]
    rfl
  have created : s.HasVolume (lv k) := by
    cases there : s.store.tables (lv k) with
    | none => simp [World.image, there] at stored
    | some _ => simp [World.HasVolume, there]
  rw [answers, if_neg named, table, if_pos created, stored]

def readBeforeCrash : List (Event Task Exception) :=
  [.start (.serve (.upload 0 (some [1, 2]) 7)), .start (.serve (.upload 1 (some [3]) 8)),
    .step 0, .step 1, .step 0, .step 1, .step 0, .abort 1 false .unavailable, .step 0,
    .start (.serve (.webGet 1 "7")), .step 2, .step 2, .step 2,
    .start (.serve (.cacheGet 0 "2" "7")), .step 3, .step 3, .step 3, .step 3]

def readAfterCrash : List (Event Task Exception) :=
  [.start .startWeb, .step 4, .step 4, .abort 4 true .unavailable, .start .startWeb, .step 5,
    .start (.serve (.webGet 1 "7")), .step 6, .start .startCache, .step 7,
    .start (.serve (.cacheGet 0 "2" "7")), .step 8, .step 7]

theorem operating_crash :
    Operating .shipped .utf8 ⟨[(1, 1), (2, 1)], by decide⟩ .shipped
      (readBeforeCrash ++ readAfterCrash) :=
  operating_shipped (by decide) (by decide)

section Hits

variable {σ : Setting} {s t : World} {server : Nat} {pid lvid url : String} {b : Bytes}

theorem Maintained.redirect_unique {other : Nat} {url' : String} (now : Maintained σ s)
    (later : Maintained σ t) (within : σ.scope pid) (entry : s.redis server pid = some url)
    (entry' : t.redis other pid = some url') : url' = url := by
  obtain ⟨k, info, b, assigned, name, rfl⟩ :=
    now.coherent.redirects server pid url within entry
  obtain ⟨k', info', b', assigned', name', rfl⟩ :=
    later.coherent.redirects other pid url' within entry'
  rw [(assigned.unique assigned' (name.symm.trans name')).2.1]

theorem Maintained.image_unique {other : Nat} {b' : Bytes} (now : Maintained σ s)
    (later : Maintained σ t) (within : σ.scope pid)
    (entry : s.imageCache server (σ.charset.getBytes pid) = some b)
    (entry' : t.imageCache other (σ.charset.getBytes pid) = some b') : b' = b := by
  obtain ⟨k, info, assigned, name, -⟩ := now.coherent.cached server pid b within entry
  obtain ⟨k', info', assigned', name', -⟩ := later.coherent.cached other pid b' within entry'
  have same := (σ.charset.decimal pid k name).symm.trans (σ.charset.decimal pid k' name')
  rw [(assigned.unique assigned' same).2.2]

theorem onGetImage_endsIn (plain : Plain pid) :
    (WebServer.onGetImage server pid).EndsIn (.ofInvariant (Maintained σ)) exec
      (fun t x => ∀ url, x = .ok (.redirect url) → t.redis server pid = some url) s := by
  by_cases named : pid = ""
  · subst named
    rintro _ ⟨⟩
  obtain ⟨next, tree, continued⟩ := WebServer.onGetImage_eq server named
  obtain ⟨next', tree', continued'⟩ := WebServer.onCacheMiss_eq server pid
  rw [tree]
  apply Program.endsIn_call
  intro t _ _
  refine ⟨t, t.redis server pid, rfl, ?_⟩
  rw [continued]
  cases found : WebServer.usable (t.redis server pid) with
  | some url =>
    rintro _ ⟨⟩
    exact (Option.filter_eq_some_iff.mp found).1
  | none =>
    rw [Option.elim_none, tree']
    apply Program.endsIn_call
    intro u _ maintained
    refine ⟨u, _, WebServer.exec_selectPhoto plain maintained.coherent.fits.photos, ?_⟩
    rw [continued']
    cases row : u.photo pid with
    | none => rintro _ ⟨⟩
    | some info =>
      apply Program.endsIn_call
      intro v _ _
      refine ⟨_, (), rfl, ?_⟩
      rintro _ ⟨⟩
      rw [World.redis_setRedis, if_pos ⟨rfl, rfl⟩]

theorem get_endsIn (word : Wordlike lvid) :
    (CacheServer.get σ.charset server lvid pid).EndsIn (.ofInvariant (Maintained σ)) exec
      (fun t x => ∀ b, x = .ok (.image pid b) →
        t.imageCache server (σ.charset.getBytes pid) = some b) s := by
  by_cases named : lvid = "" ∨ pid = ""
  · unfold CacheServer.get
    rw [if_pos named]
    rintro _ ⟨⟩
  obtain ⟨next, tree, continued⟩ := CacheServer.get_eq σ.charset server (not_or.mp named)
  obtain ⟨next', tree', prepared⟩ := CacheServer.getMiss_eq σ.charset server lvid pid
  rw [tree]
  apply Program.endsIn_call
  intro t _ _
  refine ⟨t, t.imageCache server (σ.charset.getBytes pid), rfl, ?_⟩
  rw [continued]
  cases found : t.imageCache server (σ.charset.getBytes pid) with
  | some b =>
    rintro _ ⟨⟩
    exact found
  | none =>
    rw [Option.elim_none, tree']
    by_cases existing : "lv" ++ lowered lvid ∈ σ.schema.volumes
    · have created : ∀ w, Maintained σ w → w.HasVolume ("lv" ++ lowered lvid) :=
        fun w later => (later.coherent.fits.volumes _).mpr existing
      apply Program.endsIn_call
      intro u _ later
      refine ⟨u, CacheServer.lookupStatement ("lv" ++ lowered lvid), ?_, ?_⟩
      · rw [CacheServer.exec_prepare_selectImage word, if_pos (created u later)]
      rw [prepared]
      apply Program.endsIn_call
      intro v _ later'
      refine ⟨v, _, CacheServer.exec_lookup _ (created v later'), ?_⟩
      rw [CacheServer.getRows_eq]
      cases stored : v.image ("lv" ++ lowered lvid) pid with
      | none => rintro _ ⟨⟩
      | some b =>
        apply Program.endsIn_call
        intro w _ _
        refine ⟨_, (), rfl, ?_⟩
        rintro _ ⟨⟩
        rw [World.imageCache_setCached, if_pos ⟨rfl, rfl⟩]
    · apply Program.endsIn_refused (e := .invalidQuery)
      intro u _ later
      have missing : ¬ u.HasVolume ("lv" ++ lowered lvid) :=
        fun created => existing ((later.coherent.fits.volumes _).mp created)
      rw [CacheServer.exec_prepare_selectImage word, if_neg missing]
      exact ⟨rfl, by rintro _ ⟨⟩⟩

theorem Maintained.usable (maintained : Maintained σ s) (within : σ.scope pid)
    (entry : s.redis server pid = some url) :
    WebServer.usable (s.redis server pid) = some url := by
  obtain ⟨t, info, b, _, _, rfl⟩ := maintained.coherent.redirects server pid url within entry
  rw [entry]
  simp [WebServer.usable, Option.filter, PhotoInfo.trim_path]

theorem onGetImage_takes (named : pid ≠ "") (within : σ.scope pid) :
    (some <$> WebServer.onGetImage server pid).Takes exec
      (fun s => Maintained σ s ∧ s.redis server pid = some url) (.ok (some (.redirect url))) 1 := by
  obtain ⟨next, tree, continued⟩ := WebServer.onGetImage_eq server named
  rw [tree]
  rintro s ⟨maintained, entry⟩
  refine ⟨s, s.redis server pid, rfl, ?_⟩
  dsimp only
  rw [continued, maintained.usable within entry]
  rfl

theorem onGetImage_head (named : pid ≠ "") :
    (some <$> WebServer.onGetImage server pid).head = some (.jedisGet server pid) := by
  obtain ⟨next, tree, -⟩ := WebServer.onGetImage_eq server named
  rw [tree]
  rfl

theorem get_takes (named : lvid ≠ "" ∧ pid ≠ "") :
    (some <$> CacheServer.get σ.charset server lvid pid).Takes exec
      (fun s => Maintained σ s ∧ s.imageCache server (σ.charset.getBytes pid) = some b)
      (.ok (some (.image pid b))) 1 := by
  obtain ⟨next, tree, continued⟩ := CacheServer.get_eq σ.charset server named
  rw [tree]
  rintro s ⟨-, entry⟩
  refine ⟨s, s.imageCache server (σ.charset.getBytes pid), rfl, ?_⟩
  dsimp only
  rw [continued, entry]
  rfl

theorem get_head {charset : Charset} (named : lvid ≠ "" ∧ pid ≠ "") :
    (some <$> CacheServer.get charset server lvid pid).head =
      some (.binaryGet server (charset.getBytes pid)) := by
  obtain ⟨next, tree, -⟩ := CacheServer.get_eq charset server named
  rw [tree]
  rfl

end Hits

/-- The thread has ended with x after one call, or has made none and makes the call c next. -/
def AtOnce (thread : Run) (c : Call) (x : Except Exception (Option Resp)) : Prop :=
  (thread.calls = 1 ∧ thread.rest.outcome = some x) ∨
    (thread.calls = 0 ∧ thread.rest.head = some c)

section Answered

variable {config : HSConfig} {charset : Charset} {table : StoreInfo} {s : World}
  {before after : List (Event Task Exception)} {m p q : Operation} {i j : Nat}

def Operation.Without (config : HSConfig) (charset : Charset) (c : Call) (p : Operation)
    (es : List (Event Task Exception)) : Prop :=
  Pool.Along exec (Task.program config charset) (fun n e => ∀ c' ∈ n.made e, c' ≠ c) p es

instance (c : Call) (es : List (Event Task Exception)) :
    Decidable (p.Without config charset c es) :=
  inferInstanceAs (Decidable (Pool.Along exec (Task.program config charset)
    (fun n e => ∀ c' ∈ n.made e, c' ≠ c) p es))

theorem Operation.Without.passes {I : World → Prop} {c : Call}
    (without : p.Without config charset c after)
    (kept : ∀ c' s t r, c' ≠ c → I s → exec c' s = .ok (t, r) → I t) (initial : I p.state)
    (passes : p.Passes exec (Task.program config charset) after m) : I m.state := by
  obtain ⟨xs, ys, rfl, run⟩ := passes
  exact Pool.along_kept exec _ kept initial (Pool.along_append _ _ without run).1 run

theorem atOnce_of_takes {I : World → Prop} {thread : Run} {c : Call}
    {x : Except Exception (Option Resp)} (continued : p.after config charset after = some q)
    (inv : ∀ n, p.Passes exec (Task.program config charset) after n → I n.state)
    (uncut : Pool.Uncut j after) (later : p.threads.length ≤ j)
    (present : q.threads[j]? = some thread)
    (takes : (thread.request.program config charset).Takes exec I x 1)
    (first : (thread.request.program config charset).head = some c) : AtOnce thread c x := by
  obtain ⟨left, count, rest⟩ := Pool.takes_of_request continued inv uncut later present takes
  cases left with
  | zero => exact .inl ⟨count, rest⟩
  | succ n =>
    have unbegun : thread.calls = 0 := by omega
    refine .inr ⟨unbegun, ?_⟩
    rw [Pool.unbegun_of_request continued uncut later present unbegun, first]

theorem Operating.ends_at_answer
    (operating : Operating config charset table s (before ++ .step i :: after))
    (reached : (Operation.idle s).after config charset before = some m)
    (answers : m.next exec (Task.program config charset) (.step i) = some p)
    {thread : Run} {task : Task} (found : p.threads[i]? = some thread)
    (made : thread.request = task) {P : World → Except Exception (Option Resp) → Prop}
    (ends : ∀ u, (task.program config charset).EndsIn
      (.ofInvariant (Maintained operating.setting)) exec P u)
    {x : Except Exception (Option Resp)} (ended : thread.rest.outcome = some x) :
    P p.state x := by
  subst made
  have maintained : ∀ n, (Operation.idle s).Passes exec (Task.program config charset) before n →
      Maintained operating.setting n.state := by
    rintro n ⟨xs, ys, rfl, run⟩
    exact (operating.kept_after (List.append_assoc xs ys _) run).invariant
  obtain ⟨t, w, rest, there, step, rfl⟩ :=
    Pool.next_step_cases exec _ (Pool.next_cases exec _ answers)
  rcases Pool.advance_found found with ⟨-, rfl⟩ | ⟨differ, -⟩
  · obtain ⟨n, -, -, sofar, onward⟩ := Pool.endsIn_of_thread reached (Nat.zero_le i) maintained
      (fun _ _ _ _ _ _ => trivial) there (.inl step.running) (fun u _ => ends u)
    exact (sofar.step onward (maintained m (Pool.passes_last reached)) step).outcome ended
  · exact (differ rfl).elim

theorem Operation.after_step (reached : (Operation.idle s).after config charset before = some m)
    (answers : m.next exec (Task.program config charset) (.step i) = some p) :
    (Operation.idle s).after config charset (before ++ [.step i]) = some p := by
  refine Operation.after_append reached ?_
  simp only [Operation.after, Pool.runs, answers, Option.bind_some]

theorem Operating.tidy_made {r : Request} {thread : Run}
    (operating : Operating config charset table s (before ++ after))
    (reached : (Operation.idle s).after config charset before = some p)
    (found : p.threads[i]? = some thread) (made : thread.request = .serve r) : r.Tidy := by
  have member : thread.request ∈ p.threads.map Thread.request :=
    List.mem_map_of_mem (List.mem_of_getElem? found)
  rw [Pool.runs_requests exec _ reached, made] at member
  apply operating.tidy
  rw [mem_requests, started_append]
  exact List.mem_append_left _ (by simpa [Operation.idle] using member)

section Filled

variable {first : Run} {server : Nat} {pid : String}
  (operating : Operating config charset table s (before ++ .step i :: after))
  (reached : (Operation.idle s).after config charset before = some m)
  (answers : m.next exec (Task.program config charset) (.step i) = some p)
  (found : p.threads[i]? = some first)

include operating reached answers found

theorem tidy_of_answered {r : Request} (made : first.request = .serve r) : r.Tidy := by
  have split : before ++ .step i :: after = before ++ [.step i] ++ after := by simp
  exact Operating.tidy_made (split ▸ operating) (Operation.after_step reached answers) found made

theorem redirect_filled {url : String} (made : first.request = .serve (.webGet server pid))
    (answered : first.rest.outcome = some (.ok (some (.redirect url)))) :
    p.state.redis server pid = some url := by
  have plain : Plain pid := tidy_of_answered operating reached answers found made
  obtain ⟨x, same, entry⟩ := operating.ends_at_answer reached answers found made
    (fun _ => Program.endsIn_map some (onGetImage_endsIn plain)) answered
  cases x with
  | error e => cases same
  | ok a =>
    cases same
    exact entry url rfl

theorem image_filled {lvid : String} {b : Bytes}
    (made : first.request = .serve (.cacheGet server lvid pid))
    (answered : first.rest.outcome = some (.ok (some (.image pid b)))) :
    p.state.imageCache server (charset.getBytes pid) = some b := by
  have word : Wordlike lvid := tidy_of_answered operating reached answers found made
  obtain ⟨x, same, entry⟩ := operating.ends_at_answer reached answers found made
    (fun _ => Program.endsIn_map some (get_endsIn word)) answered
  cases x with
  | error e => cases same
  | ok a =>
    cases same
    exact entry b rfl

end Filled

section Stays

variable {σ : Setting} {server : Nat} {pid : String}
  (maintained : ∀ n, p.Passes exec (Task.program config charset) after n → Maintained σ n.state)
  (now : Maintained σ p.state) (within : σ.scope pid)
  (passes : p.Passes exec (Task.program config charset) after m)

include maintained now within passes

theorem redirect_stays {url : String} (entry : p.state.redis server pid = some url)
    (without : p.Without config charset (.jedisDel server pid) after) :
    Maintained σ m.state ∧ m.state.redis server pid = some url := by
  obtain ⟨url', stays⟩ := Option.isSome_iff_exists.mp
    (without.passes (I := fun w => (w.redis server pid).isSome) exec_redis_kept
      (Option.isSome_of_eq_some entry) passes)
  have unique := now.redirect_unique (maintained m passes) within entry stays
  exact ⟨maintained m passes, unique ▸ stays⟩

theorem image_stays {b : Bytes}
    (entry : p.state.imageCache server (σ.charset.getBytes pid) = some b)
    (without : p.Without config charset (.binaryDel server (σ.charset.getBytes pid)) after) :
    Maintained σ m.state ∧ m.state.imageCache server (σ.charset.getBytes pid) = some b := by
  obtain ⟨b', stays⟩ := Option.isSome_iff_exists.mp
    (without.passes (I := fun w => (w.imageCache server (σ.charset.getBytes pid)).isSome)
      exec_imageCache_kept (Option.isSome_of_eq_some entry) passes)
  have unique := now.image_unique (maintained m passes) within entry stays
  exact ⟨maintained m passes, unique ▸ stays⟩

end Stays

end Answered

def redirectLost : List (Event Task Exception) :=
  [.start (.serve (.upload 0 (some [1, 2]) 7)), .step 0, .step 0, .step 0, .step 0,
    .start (.serve (.webGet 1 "7")), .step 1, .step 1, .step 1, .start (.loseRedirect 1 "7"),
    .step 2, .start (.serve (.webGet 1 "7")), .step 3, .step 3]

def readAgain : List (Event Task Exception) :=
  [.start .startWeb, .step 4, .abort 4 true .unavailable, .start (.serve (.webGet 1 "7")), .step 5]

end Haystack
