import Haystack.Coherence

/-! An acknowledged upload can be read from then on: the web servers redirect to
the right cache server, volume and pid, and the cache servers return its bytes. -/
namespace Haystack

open Calls Cql Java

/-- Only the pid of the clock reading t is looked at, and it is never deleted. -/
def Setting.tracking (config : HSConfig) (charset : Charset) (schema : Schema) (rs : List Request)
    (t : Int64) : Setting where
  config := config
  charset := charset
  schema := schema
  content := Haystack.content rs
  kept pid := pid = toString t
  scope pid := pid = toString t
  closed _ q here same := charset.decimal q t (here ▸ same)

section Tracking

variable {config : HSConfig} {charset : Charset} {s : World} {table : StoreInfo} {rs : List Request}
  {t : Int64}

theorem coherent_of_unused (photos : s.HasPhotos) (storeInfo : s.directory.storeInfo = some table)
    (unused : s.Unused charset (toString t)) :
    Coherent (.tracking config charset (s.schema table) rs t) s := by
  refine ⟨World.fits_schema photos storeInfo, ?_, ?_, ?_, ?_⟩
  · rintro pid info rfl found
    rw [unused.photo] at found
    contradiction
  · rintro server pid url rfl found
    rw [unused.redis] at found
    contradiction
  · rintro place pid b rfl found
    rw [unused.image] at found
    contradiction
  · rintro server pid b rfl found
    cases (unused.cached server).symm.trans found

theorem admits_of_clean {schema : Schema} {q : Request} (distinct : (readings rs).Nodup)
    (member : q ∈ rs) (clean : q.Clean) (kept : ∀ server, q ≠ .webDelete server (toString t)) :
    (Setting.tracking config charset schema rs t).Admits q := by
  cases q with
  | upload server img u =>
    rintro b rfl
    exact content_of_mem distinct member
  | webGet server pid => exact clean
  | webDelete server pid => exact .inl ⟨clean, fun same => kept server (same ▸ rfl)⟩
  | cacheGet server lvid pid => exact clean
  | cacheDelete server pid => exact clean.elim

theorem replies_after {σ : Setting} {before after : List Happening} {p q : System}
    (coherent : Coherent σ s) (admitted : ∀ r ∈ started (before ++ after), σ.Admits r)
    (unfailing : ∀ e ∈ before ++ after, e.unfailing = true)
    (reached : (System.idle s).after σ.config σ.charset before = some p)
    (continued : p.after σ.config σ.charset after = some q) :
    p.Good σ.discipline exec (fun _ r x u => ∃ v, σ.Reply v r x u) ∧
      ∀ (j : Nat) (thread : Job) x, p.threads.length ≤ j → q.threads[j]? = some thread →
        thread.rest.outcome = some x →
        ∃ v, σ.discipline.moves p.state v ∧ σ.Reply v thread.request x q.state := by
  have first : p.Good σ.discipline exec (fun _ r x u => ∃ v, σ.Reply v r x u) := by
    refine ((Pool.Good.empty _ (fun grows => grows) coherent).runs_unfailing ?_
      (fun e inside => unfailing e (List.mem_append_left _ inside)) reached).1
    intro i r v begun _ _ _
    have listed := mem_started.mpr (List.mem_append_left after begun)
    exact (handler_coherent (admitted r listed)).weaken (fun _ _ _ given => ⟨v, given⟩)
  have second :=
    (first.restart
      (fun r x u => ∃ v, σ.discipline.moves p.state v ∧ σ.Reply v r x u)).runs_unfailing
    ?_ (fun e inside => unfailing e (List.mem_append_right _ inside)) continued
  · exact ⟨first, fun j thread x later present ended => second.1.outcome present ended later⟩
  · intro i r v begun _ _ moved
    have listed := mem_started.mpr (List.mem_append_right before begun)
    exact (handler_coherent (admitted r listed)).weaken (fun _ _ _ given _ => ⟨v, moved, given⟩)

theorem good_after_tracking {es : List Happening} {p : System} (photos : s.HasPhotos)
    (storeInfo : s.directory.storeInfo = some table) (unused : s.Unused charset (toString t))
    (distinct : (readings rs).Nodup) (unfailing : ∀ e ∈ es, e.unfailing = true)
    (admitted : ∀ r ∈ started es, r ∈ rs ∧ r.Clean ∧ ∀ server, r ≠ .webDelete server (toString t))
    (run : (System.idle s).after config charset es = some p) :
    p.Good (Setting.tracking config charset (s.schema table) rs t).discipline exec (fun _ r x u =>
      ∃ v, (Setting.tracking config charset (s.schema table) rs t).Reply v r x u) := by
  refine ((Pool.Good.empty _ (fun grows => grows)
    (coherent_of_unused photos storeInfo unused)).runs_unfailing ?_
    unfailing run).1
  intro i r v begun _ _ _
  obtain ⟨member, clean, kept⟩ := admitted r (mem_started.mpr begun)
  exact (handler_coherent (admits_of_clean distinct member clean kept)).weaken
    (fun _ _ _ given => ⟨v, given⟩)

variable {schema : Schema} {info : PhotoInfo} {b : Bytes} {u : World} {server : Nat}
  {r : Except Exception Resp}

theorem webGet_served (assigned : (Setting.tracking config charset schema rs t).Assigned t info b)
    (row : s.photo (toString t) = some info)
    (reply : (Setting.tracking config charset schema rs t).Reply s
      (.webGet server (toString t)) r u) :
    r = .ok (.redirect (info.path (toString t))) := by
  rcases reply rfl with ⟨empty, _⟩ | ⟨absent, _⟩ | ⟨v, info', b', assigned', name, found⟩
  · exact absurd empty (toString_long_ne_empty t)
  · rw [absent rfl] at row
    contradiction
  · rw [found, (assigned.unique assigned' name).2.1]

theorem cacheGet_served {σ : Setting} (within : σ.scope (toString t))
    (assigned : σ.Assigned t info b) (stored : s.image (lv info.lvid) (toString t) = some b)
    (nonneg : 0 ≤ info.lvid.toInt) (created : lv info.lvid ∈ σ.schema.volumes)
    (reply : σ.Reply s (.cacheGet server (toString info.lvid) (toString t)) r u) :
    r = .ok (.image (toString t) b) := by
  have table : "lv" ++ lowered (toString info.lvid) = lv info.lvid := by
    rw [lowered_toString nonneg]
    rfl
  rcases reply within with ⟨empty, _⟩ | ⟨unknown, _⟩ | ⟨absent, _⟩
    | ⟨v, info', b', assigned', key, _, found⟩
  · rcases empty with lvid | pid
    · exact absurd lvid (toString_ne_empty info.lvid.toInt)
    · exact absurd pid (toString_long_ne_empty t)
  · rw [table] at unknown
    exact absurd created unknown
  · rw [table, stored] at absent
    contradiction
  · have name : toString t = toString v := σ.charset.decimal _ v key
    rw [found, (assigned.unique assigned' name).2.2]

end Tracking

/-- Whatever else happens in the meantime, a get that is made after an upload was
acknowledged finds the photo, as long as nobody has asked for its deletion. -/
theorem acknowledged_upload_is_served {config : HSConfig} {charset : Charset} {s : World}
    {table : StoreInfo} {before after : List Happening} {p q : System}
    (valid : config.Valid) (ready : s.Ready config.numLogicalVolumes table)
    (reached : (System.idle s).after config charset before = some p)
    (continued : p.after config charset after = some q)
    (unfailing : ∀ e ∈ before ++ after, e.unfailing = true)
    (clean : ∀ r ∈ started (before ++ after), r.Clean)
    (distinct : (readings (started (before ++ after))).Nodup)
    (nonneg : ∀ t ∈ readings (started (before ++ after)), 0 ≤ t.toInt)
    (unused : ∀ t ∈ readings (started (before ++ after)), s.Unused charset (toString t))
    {i web : Nat} {upload : Job} {b : Bytes} {t : Int64} {pid : String}
    (found : p.threads[i]? = some upload) (made : upload.request = .upload web (some b) t)
    (acknowledged : upload.rest.outcome = some (.ok (.json 201 pid)))
    (kept : ∀ server, .webDelete server pid ∉ started (before ++ after)) :
    pid = toString t ∧ ∃ (k : Int32) (address : String),
      k.toInt = t.toInt % config.numLogicalVolumes.toInt + 1 ∧
      config.objectCacheAddresses[
        (t.toInt % (config.objectCacheAddresses.length : Int)).toNat]? = some address ∧
      ∀ (j : Nat) (thread : Job),
        p.threads.length ≤ j → q.threads[j]? = some thread →
        (∀ server, thread.request = .webGet server pid → thread.Ends 3 (.ok (.redirect
          ("http://" ++ address ++ ":" ++ toString config.objectCachePort ++
            "/get?lvid=" ++ toString k ++ "&pid=" ++ pid)))) ∧
        (∀ server, thread.request = .cacheGet server (toString k) pid →
          thread.Ends 4 (.ok (.image pid b))) := by
  have run : (System.idle s).after config charset (before ++ after) = some q := by
    simp only [System.after, System.idle] at reached continued ⊢
    rw [Pool.runs_append, reached]
    exact continued
  have short := handler_within config charset
  have reply : pid = toString t := by
    have given := (Pool.bounded_runs short reached).returned found acknowledged
    rw [made] at given
    injection given
  subst reply
  have member : .upload web (some b) t ∈ started (before ++ after) := by
    have listed : upload.request ∈ p.threads.map Thread.request :=
      List.mem_map_of_mem (List.mem_of_getElem? found)
    rw [Pool.runs_requests exec (handler config charset) reached, made] at listed
    rw [started_append]
    exact List.mem_append_left _ (by simpa [System.idle] using listed)
  have reading := mem_readings member
  let σ := Setting.tracking config charset (s.schema table) (started (before ++ after)) t
  have admitted : ∀ r ∈ started (before ++ after), σ.Admits r :=
    fun r listed =>
      admits_of_clean distinct listed (clean r listed)
        (fun server same => kept server (same ▸ listed))
  obtain ⟨first, second⟩ := replies_after (σ := σ)
    (coherent_of_unused ready.photos ready.storeInfo (unused t reading)) admitted unfailing
      reached continued
  obtain ⟨v, given⟩ := first.outcome found acknowledged
  rw [made] at given
  obtain ⟨_, info, assigned, there⟩ := given b (toString t) rfl rfl
  have stored := (there rfl).1
  have row := (there rfl).2 rfl
  obtain ⟨info', address, place, lvid, range, cache, url⟩ :=
    WebServer.placement_found valid ready.covers (nonneg t reading)
  cases Except.ok.inj (place.symm.trans assigned.place)
  refine ⟨rfl, info.lvid, address, lvid, cache, ?_⟩
  intro j thread later present
  have bounded := Pool.bounded_runs short run
  constructor
  · intro server asked
    have ends := bounded.ends present (r := .ok (.redirect (info.path (toString t)))) ?_
    · rw [asked] at ends
      simpa [Request.bound, PhotoInfo.path, WebServer.photoPath, url,
        String.append_assoc] using ends
    · intro x ended
      obtain ⟨w, moved, given⟩ := second j thread x later present ended
      rw [asked] at given
      exact webGet_served assigned (moved.rows _ _ rfl rfl row) given
  · intro server asked
    have ends := bounded.ends present (r := .ok (.image (toString t) b)) ?_
    · rw [asked] at ends
      exact ends
    · intro x ended
      obtain ⟨w, moved, given⟩ := second j thread x later present ended
      rw [asked] at given
      exact cacheGet_served rfl assigned (moved.images _ _ _ rfl stored) (by omega)
        (ready.volumes info.lvid range.1 range.2) given

def uploadWatched : List Happening :=
  [.start (.upload 0 (some [1, 2]) 7), .step 0, .start (.webGet 1 "7"), .step 1, .step 0, .step 0,
    .start (.cacheGet 0 "2" "7"), .step 2, .step 2, .step 0]

def readsAfterUpload : List Happening :=
  [.start (.webGet 1 "7"), .start (.cacheGet 0 "2" "7"), .step 3, .step 4, .step 1,
    .step 2, .step 1, .step 3, .step 4, .step 3, .step 4, .step 4]

instance : DecidableEq (Request × Option (Except Exception Resp)) := inferInstance

theorem acknowledged_upload_is_served_watched : ∃ p q : System,
    (System.idle .shipped).after .shipped .utf8 uploadWatched = some p ∧
    p.outcomes[0]? = some (.upload 0 (some [1, 2]) 7, some (.ok (.json 201 "7"))) ∧
    p.after .shipped .utf8 readsAfterUpload = some q ∧
    (∃ read, q.threads[3]? = some read ∧ read.request = .webGet 1 "7" ∧ read.rest.outcome =
      some (.ok (.redirect "http://unix5.andrew.cmu.edu:9876/get?lvid=2&pid=7"))) ∧
    ∃ read, q.threads[4]? = some read ∧ read.request = .cacheGet 0 "2" "7" ∧
      read.rest.outcome = some (.ok (.image "7" [1, 2])) := by
  have evaluated : ((System.idle .shipped).after .shipped .utf8 uploadWatched).map (fun p =>
        (p.threads.length, p.outcomes[0]?, (p.after .shipped .utf8 readsAfterUpload).map (fun q =>
          q.threads.map (fun t => (t.request, t.rest.running))))) =
      some (3, some (.upload 0 (some [1, 2]) 7, some (.ok (.json 201 "7"))),
        some [(.upload 0 (some [1, 2]) 7, false), (.webGet 1 "7", false),
          (.cacheGet 0 "2" "7", true), (.webGet 1 "7", false), (.cacheGet 0 "2" "7", false)]) := by
    decide +kernel
  obtain ⟨p, reached, seen⟩ := Option.map_eq_some_iff.mp evaluated
  simp only [Prod.mk.injEq, Option.map_eq_some_iff] at seen
  obtain ⟨count, answer, q, continued, listed⟩ := seen
  obtain ⟨upload, found, made, acknowledged⟩ := System.outcomes_found answer
  obtain ⟨_, k, address, lvid, cache, served⟩ := acknowledged_upload_is_served
    ⟨by decide, by decide⟩ World.ready_shipped reached continued (by decide) (by decide)
    (by decide) (by simp [uploadWatched, readsAfterUpload, started, readings])
    (fun t _ => World.unused_shipped _ _) found made acknowledged
    (by simp [uploadWatched, readsAfterUpload, started])
  have two : k = 2 := Int32.toInt_inj.mp lvid
  have host : "unix5.andrew.cmu.edu" = address := Option.some.inj cache
  subst two host
  have read : ∀ (j : Nat) r, (q.threads.map (fun t => (t.request, t.rest.running)))[j]? =
      some (r, false) → ∃ t, q.threads[j]? = some t ∧ t.request = r ∧ t.rest.running = false := by
    intro j r at_j
    simpa [List.getElem?_map, Option.map_eq_some_iff] using at_j
  obtain ⟨first, present, asked, idle⟩ := read 3 (.webGet 1 "7") (by rw [listed]; rfl)
  obtain ⟨second, present', asked', idle'⟩ := read 4 (.cacheGet 0 "2" "7") (by rw [listed]; rfl)
  refine ⟨p, q, reached, answer, continued, ⟨first, present, asked, ?_⟩, second,
    present', asked', ?_⟩
  · exact ((served 3 first (by omega) present).1 1 asked).ended idle
  · exact ((served 4 second (by omega) present').2 0 asked').ended idle'

end Haystack
