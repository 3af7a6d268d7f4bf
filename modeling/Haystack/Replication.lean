import Haystack.ImageSafety
import Haystack.Deletion
import Haystack.Calls.Simulation

/-! The store with several replicas of each volume. Neither server sets a consistency level, so
one replica is enough to acknowledge an insert and one is enough to answer a select. -/
namespace Haystack

open Calls Cql Java

def written : Call → Option Statement
  | .executeBound .store st => some st |>.filter Statement.writes
  | .execute .store query values =>
    ((Statement.ofText query).bind (fun st => st.bind values)).filter Statement.writes
  | _ => none

/-- The backends with so many replicas of the store, and the copies that are on their way to
a replica. -/
structure Cluster (rf : Nat) where
  world : World
  replicas : Fin rf → Store
  inFlight : List (Fin rf × Statement)

namespace Cluster

variable {rf : Nat}

def start (s : World) : Cluster rf := ⟨s, fun _ => s.store, []⟩

def view (k : Cluster rf) (r : Fin rf) : World := { k.world with store := k.replicas r }

def deliver (k : Cluster rf) (i : Nat) : Cluster rf :=
  match k.inFlight[i]? with
  | none => k
  | some (r, st) =>
    match executeStore st (k.view r) with
    | .ok (w, _) => ⟨k.world, Function.update k.replicas r w.store, k.inFlight.eraseIdx i⟩
    | .error _ => ⟨k.world, k.replicas, k.inFlight.eraseIdx i⟩

def copies (r : Fin rf) (c : Call) : List (Fin rf × Statement) :=
  match written c with
  | none => []
  | some st => ((List.finRange rf).filter (· ≠ r)).map (fun other => (other, st))

def answered (k : Cluster rf) (r : Fin rf) (c : Call) (w : World) : Cluster rf :=
  ⟨w, Function.update k.replicas r w.store, k.inFlight ++ copies r c⟩

end Cluster

/-- The copies that arrive before a call, one after another, and the replica that answers it. -/
structure Choice (rf : Nat) where
  deliveries : List Nat
  replica : Fin rf

abbrev Schedule (rf : Nat) := Nat → Call → Choice rf

def Schedule.exec {rf : Nat} (schedule : Schedule rf) (c : Call) (x : Cluster rf × Nat) :
    Except Exception ((Cluster rf × Nat) × Answer c) :=
  let choice := schedule x.2 c
  let k := choice.deliveries.foldl Cluster.deliver x.1
  (Haystack.exec c (k.view choice.replica)).map
    (fun answer => ((k.answered choice.replica c answer.1, x.2 + 1), answer.2))

section One

variable {s : World}

theorem Cluster.copies_one (r : Fin 1) (c : Call) : Cluster.copies r c = [] := by
  unfold Cluster.copies
  cases written c with
  | none => rfl
  | some st =>
    have none : (List.finRange 1).filter (· ≠ r) = [] := by
      rw [Subsingleton.elim r 0]
      rfl
    rw [none]
    rfl

theorem Cluster.deliver_nothing {rf : Nat} {k : Cluster rf} (nothing : k.inFlight = [])
    (is : List Nat) :
    is.foldl Cluster.deliver k = k := by
  induction is with
  | nil => rfl
  | cons i is ih =>
    have same : k.deliver i = k := by simp [Cluster.deliver, nothing]
    rw [List.foldl_cons, same, ih]

theorem one_replica_mimics (schedule : Schedule 1) :
    Mimics schedule.exec exec (fun x => x.1.view 0) (fun x => x.1.inFlight = []) := by
  constructor
  · intro c x nothing
    have here : (schedule x.2 c).replica = 0 := Subsingleton.elim _ _
    simp only [Schedule.exec, Cluster.deliver_nothing nothing, here]
    cases exec c (x.1.view 0) with
    | error e => rfl
    | ok answer => simp [Except.map, Cluster.view, Cluster.answered]
  · intro c x y r nothing answer
    simp only [Schedule.exec, Cluster.deliver_nothing nothing] at answer
    cases reply : exec c (x.1.view (schedule x.2 c).replica) with
    | error e =>
      rw [reply] at answer
      cases answer
    | ok given =>
      rw [reply] at answer
      cases answer
      simp [Cluster.answered, nothing, Cluster.copies_one]

end One

abbrev Replicated (rf : Nat) := Pool Request Answer (Cluster rf × Nat) Exception Resp

def Replicated.idle {rf : Nat} (s : World) : Replicated rf := ⟨(Cluster.start s, 0), []⟩

/-- Whatever the replicas do, a get that is made after an upload was acknowledged, with the volume
and the pid of the upload, is answered with its image. -/
def AlwaysVisible (config : HSConfig) (charset : Charset) (table : StoreInfo) (s : World)
    (rf : Nat) : Prop :=
  ∀ (schedule : Schedule rf) (before after : List Happening) (p q : Replicated rf),
    (Replicated.idle s).runs schedule.exec (handler config charset) before = some p →
    p.runs schedule.exec (handler config charset) after = some q →
    (∀ e ∈ before ++ after, e.unfailing = true) → (∀ r ∈ started (before ++ after), r.Orderly) →
    (readings (started (before ++ after))).Nodup →
    ∀ (i web : Nat) (upload : Job) (b : Bytes) (t : Int64) (pid : String) (info : PhotoInfo),
      p.threads[i]? = some upload → upload.request = .upload web (some b) t →
      upload.rest.outcome = some (.ok (.json 201 pid)) →
      WebServer.placement config table t = .ok info →
      ∀ (j server : Nat) (thread : Job), p.threads.length ≤ j → q.threads[j]? = some thread →
        thread.request = .cacheGet server (toString info.lvid) pid →
          thread.Ends 4 (.ok (.image pid b))

section Visible

variable {config : HSConfig} {charset : Charset} {table : StoreInfo} {s : World} {n : Int32}

theorem visible_of_one (ready : s.Ready n table) (empty : ∀ pid, s.Unused charset pid)
    (absent : ¬ s.HasVolume "photo") : AlwaysVisible config charset table s 1 := by
  intro schedule before after p q reached continued unfailing orderly distinct i web
    upload b t pid info
    found made acknowledged placed j server thread later present asked
  obtain ⟨calm, reached'⟩ := Pool.runs_map (one_replica_mimics schedule) rfl reached
  obtain ⟨-, continued'⟩ := Pool.runs_map (one_replica_mimics schedule) calm continued
  have short := handler_within config charset
  have reply : pid = toString t := by
    have given := (Pool.bounded_runs short reached').returned found acknowledged
    rw [made] at given
    injection given
  subst reply
  have missing : "photo" ∉ (s.schema table).volumes := absent
  obtain ⟨first, second⟩ := replies_after
    (σ := .everything config charset (s.schema table) (started (before ++ after)))
    (coherent_of_empty ready.photos ready.storeInfo empty)
    (fun r listed => admits_of_orderly (fun _ _ _ => missing) distinct listed (orderly r listed))
    unfailing reached' continued'
  obtain ⟨v, given⟩ := first.outcome found acknowledged
  rw [made] at given
  obtain ⟨-, info', assigned, there⟩ := given b (toString t) rfl rfl
  cases Except.ok.inj (placed.symm.trans assigned.place)
  have usable := ready.writable config t info placed
  have whole := Pool.runs_append exec (handler config charset)
    (Pool.map (fun x => x.1.view 0) (Replicated.idle s : Replicated 1)) before after
  rw [reached', Option.bind_some, continued'] at whole
  have ends := (Pool.bounded_runs short whole).ends present (r := .ok (.image (toString t) b)) ?_
  · rw [asked] at ends
    exact ends
  · intro x ended
    obtain ⟨w, moved, given⟩ := second j thread x later present ended
    rw [asked] at given
    exact cacheGet_served trivial assigned
      (moved.images _ _ _ trivial (there trivial).1) usable.1 usable.2 given

end Visible

section Late

variable {rf : Nat} {k : Cluster rf} {n : Nat} {c : Call} {w : World} {a : Answer c}

/-- One replica applies every insert, another one answers everything else, and no copy arrives. -/
def late (two : 2 ≤ rf) : Schedule rf := fun _ c =>
  ⟨[], if (written c).isSome then ⟨0, by omega⟩ else ⟨1, two⟩⟩

theorem late_read (two : 2 ≤ rf) (reads : written c = none)
    (answer : exec c (k.view ⟨1, two⟩) = .ok (w, a)) (same : w.store = k.replicas ⟨1, two⟩) :
    (late two).exec c (k, n) = .ok ((⟨w, k.replicas, k.inFlight⟩, n + 1), a) := by
  have chosen : late two n c = ⟨[], ⟨1, two⟩⟩ := by simp [late, reads]
  have kept : Function.update k.replicas ⟨1, two⟩ w.store = k.replicas := by
    rw [same, Function.update_eq_self]
  simp only [Schedule.exec, chosen, List.foldl_nil, answer, Except.map, Cluster.answered,
    Cluster.copies, reads, kept, List.append_nil]

theorem late_write (two : 2 ≤ rf) {st : Statement} (writes : written c = some st)
    (answer : exec c (k.view ⟨0, by omega⟩) = .ok (w, a)) :
    (late two).exec c (k, n) = .ok ((k.answered ⟨0, by omega⟩ c w, n + 1), a) := by
  have chosen : late two n c = ⟨[], ⟨0, by omega⟩⟩ := by simp [late, writes]
  simp only [Schedule.exec, chosen, List.foldl_nil, answer]
  rfl

end Late

section Upload

variable {config : HSConfig} {charset : Charset} {schema : Schema} {s : World}
    {rf : Nat} {t : Int64}
  {info : PhotoInfo} {b : Bytes}

theorem late_upload (two : 2 ≤ rf) (fits : s.Fits schema)
    (placed : WebServer.placement config schema.table t = .ok info)
    (usable : WebServer.Usable schema info) :
    ∃ k : Cluster rf, k.view ⟨1, two⟩ = s.setPhoto (toString t) (some info) ∧
      (WebServer.onPostImage config (some b) t).run (late two).exec (Cluster.start s, 0) =
        ((k, 4), .ok (.json 201 (toString t))) := by
  obtain ⟨next, tree, continued⟩ := WebServer.onPostImage_eq config b t
  have later := fits.setPhoto (toString t) (some info)
  have created := (later.volumes _).mpr usable.2
  have query : (late two).exec (.execute .directory WebServer.lvidQuery []) (Cluster.start s, 0) =
      .ok ((⟨s, fun _ => s.store, []⟩, 1), schema.table.writable) :=
    late_read two rfl (WebServer.exec_lvidQuery schema.table fits.storeInfo) rfl
  have insert : (late two).exec (.execute .directory WebServer.insertQuery
      [.text (toString t), .text info.cacheUrl, .int info.lvid]) (⟨s, fun _ => s.store, []⟩, 1) =
        .ok ((⟨s.setPhoto (toString t) (some info), fun _ => s.store, []⟩, 2), []) :=
    late_read two rfl (WebServer.exec_insertQuery info.cacheUrl info.lvid fits.photos) rfl
  have prepare : (late two).exec (.prepare .store (WebServer.insertImage info.lvid))
      (⟨s.setPhoto (toString t) (some info), fun _ => s.store, []⟩, 2) =
        .ok ((⟨s.setPhoto (toString t) (some info), fun _ => s.store, []⟩, 3),
          WebServer.imageStatement info.lvid) :=
    late_read two rfl (WebServer.exec_prepare_insertImage usable.1 created) rfl
  have store := late_write (n := 3)
    (k := ⟨s.setPhoto (toString t) (some info), fun _ => s.store, []⟩) two
    (c := .executeBound .store (WebServer.imageInsert info.lvid (toString t) b)) rfl
    (WebServer.exec_imageInsert info.lvid b created)
  refine ⟨Cluster.answered ⟨s.setPhoto (toString t) (some info), fun _ => s.store, []⟩ ⟨0, by omega⟩
    (.executeBound .store (WebServer.imageInsert info.lvid (toString t) b))
    ((s.setPhoto (toString t) (some info)).setImage (lv info.lvid) (toString t) (some b)), ?_, ?_⟩
  swap
  · rw [tree, Program.run_call_ok _ query, continued, placed]
    change (WebServer.storeImage t info b).run _ _ = _
    rw [WebServer.storeImage, Program.run_call_ok _ insert, WebServer.prepareImage,
      Program.run_call_ok _ prepare, WebServer.bind_imageStatement]
    exact Program.run_call_ok _ store
  · have other : Function.update (fun _ => s.store)
        (⟨0, by omega⟩ : Fin rf)
          ((s.setPhoto (toString t) (some info)).setImage (lv info.lvid) (toString t)
          (some b)).store ⟨1, two⟩ = s.store := Function.update_of_ne (by simp) _ _
    simp only [Cluster.answered, Cluster.view, other]
    rfl

theorem late_get {k : Cluster rf} {n server : Nat} {lvid pid : String} (two : 2 ≤ rf)
    (word : Wordlike lvid)
    (named : lvid ≠ "" ∧ pid ≠ "") (created : (k.view ⟨1, two⟩).HasVolume ("lv" ++ lowered lvid))
    (missed : (k.view ⟨1, two⟩).imageCache server (charset.getBytes pid) = none)
    (unknown : (k.view ⟨1, two⟩).image ("lv" ++ lowered lvid) pid = none) :
    (CacheServer.get charset server lvid pid).run (late two).exec (k, n) =
      ((⟨k.view ⟨1, two⟩, k.replicas, k.inFlight⟩, n + 3), .ok (.status 404)) := by
  obtain ⟨next, tree, continued⟩ := CacheServer.get_eq charset server named
  obtain ⟨next', tree', prepared⟩ := CacheServer.getMiss_eq charset server lvid pid
  have first : (late two).exec (.binaryGet server (charset.getBytes pid)) (k, n) =
      .ok ((⟨k.view ⟨1, two⟩, k.replicas, k.inFlight⟩, n + 1), none) := by
    refine late_read two rfl ?_ rfl
    rw [exec, missed]
  have second : (late two).exec (.prepare .store (CacheServer.selectImage lvid))
      (⟨k.view ⟨1, two⟩, k.replicas, k.inFlight⟩, n + 1) =
        .ok ((⟨k.view ⟨1, two⟩, k.replicas, k.inFlight⟩, n + 2),
          CacheServer.lookupStatement ("lv" ++ lowered lvid)) := by
    refine late_read two rfl ?_ rfl
    exact (CacheServer.exec_prepare_selectImage word).trans (if_pos created)
  have third : (late two).exec
      (.executeBound .store (CacheServer.lookup ("lv" ++ lowered lvid) pid))
      (⟨k.view ⟨1, two⟩, k.replicas, k.inFlight⟩, n + 2) =
        .ok ((⟨k.view ⟨1, two⟩, k.replicas, k.inFlight⟩, n + 3), []) := by
    refine late_read two rfl ((CacheServer.exec_lookup _ created).trans ?_) rfl
    rw [unknown]
    rfl
  rw [tree, Program.run_call_ok _ first, continued, Option.elim_none, tree',
    Program.run_call_ok _ second, prepared, Program.run_call_ok _ third]
  rfl

theorem late_missing (two : 2 ≤ rf) (fits : s.Fits schema)
    (placed : WebServer.placement config schema.table t = .ok info)
    (usable : WebServer.Usable schema info)
    (unused : s.Unused charset (toString t)) : ∃ x y : Cluster rf × Nat,
      (WebServer.onPostImage config (some b) t).run (late two).exec (Cluster.start s, 0) =
        (x, .ok (.json 201 (toString t))) ∧
      (CacheServer.get charset 0 (toString info.lvid) (toString t)).run (late two).exec x =
        (y, .ok (.status 404)) := by
  obtain ⟨k, seen, uploaded⟩ := late_upload (b := b) two fits placed usable
  have volume : "lv" ++ lowered (toString info.lvid) = lv info.lvid := by
    rw [lowered_toString usable.1]
    rfl
  have created : (k.view ⟨1, two⟩).HasVolume ("lv" ++ lowered (toString info.lvid)) := by
    rw [seen, volume]
    exact (fits.volumes _).mpr usable.2
  have unknown : (k.view ⟨1, two⟩).image ("lv" ++ lowered (toString info.lvid))
      (toString t) = none := by
    rw [seen, World.image_setPhoto]
    exact unused.image _
  have missed : (k.view ⟨1, two⟩).imageCache 0 (charset.getBytes (toString t)) = none := by
    rw [seen, World.imageCache_setPhoto]
    exact unused.cached 0
  exact ⟨_, _, uploaded, late_get two (wordlike_toString usable.1)
    ⟨toString_ne_empty _, toString_long_ne_empty t⟩ created missed unknown⟩

end Upload

theorem invisible_of_two {config : HSConfig} {charset : Charset} {table : StoreInfo}
    {s : World} {rf : Nat}
    (two : 2 ≤ rf) (valid : config.Valid) (ready : s.Ready config.numLogicalVolumes table)
    (empty : ∀ pid, s.Unused charset pid) : ¬ AlwaysVisible config charset table s rf := by
  intro visible
  have nonneg : 0 ≤ (7 : Int64).toInt := by decide
  obtain ⟨info, address, placed, -⟩ := WebServer.placement_found valid ready.covers nonneg
  have usable := ready.writable config 7 info placed
  obtain ⟨x, y, uploaded, refused⟩ :=
    late_missing (b := [1]) two (World.fits_schema ready.photos ready.storeInfo) placed usable
      (empty _)
  obtain ⟨before, upload, posted, calm, reached, made, acknowledged⟩ :=
    Pool.answer_runs (late two).exec (handler config charset) (Replicated.idle s)
      (q := .upload 0 (some [1]) 7) uploaded
  obtain ⟨after, thread, asked, calm', continued, request, given⟩ :=
    Pool.answer_runs (late two).exec (handler config charset) ⟨x, [upload]⟩
      (q := .cacheGet 0 (toString info.lvid) (toString (7 : Int64))) refused
  have requests : started (before ++ after) =
      [.upload 0 (some [1]) 7, .cacheGet 0 (toString info.lvid) (toString (7 : Int64))] := by
    rw [started_append, posted, asked]
    rfl
  have ends := visible (late two) before after ⟨x, [upload]⟩ _ reached continued ?_ ?_ ?_ 0 0
    upload [1] 7 (toString (7 : Int64)) info rfl made acknowledged placed 1 0 thread le_rfl rfl
    request
  · cases ends.unique given
  · intro e member
    exact (List.mem_append.mp member).elim (calm e) (calm' e)
  · rw [requests]
    intro r member
    rcases List.mem_pair.mp member with rfl | rfl
    · trivial
    · exact wordlike_toString usable.1
  · rw [requests]
    simp [readings]

/-- Acknowledged images are visible under every schedule exactly if the store has one replica. -/
theorem always_visible_iff {config : HSConfig} {charset : Charset} {table : StoreInfo}
    {s : World} {rf : Nat}
    (valid : config.Valid) (ready : s.Ready config.numLogicalVolumes table)
    (empty : ∀ pid, s.Unused charset pid)
    (absent : ¬ s.HasVolume "photo") (positive : 1 ≤ rf) :
    AlwaysVisible config charset table s rf ↔ rf = 1 := by
  constructor
  · intro visible
    by_contra several
    have two : 2 ≤ rf := by omega
    exact invisible_of_two two valid ready empty visible
  · rintro rfl
    exact visible_of_one ready empty absent

theorem always_visible_shipped :
    AlwaysVisible .shipped .utf8 ⟨[(1, 1), (2, 1)], by decide⟩ .shipped 1 :=
  (always_visible_iff ⟨by decide, by decide⟩ World.ready_shipped (World.unused_shipped _)
    (by decide) le_rfl).mpr rfl

theorem acknowledged_image_missing :
    (serve (late (le_refl 2)).exec (handler .shipped .utf8) (Cluster.start .shipped, 0)
      [.upload 0 (some [1]) 7, .cacheGet 0 "2" "7"]).2 =
        [.ok (.json 201 "7"), .ok (.status 404)] := by
  have placed : WebServer.placement .shipped ⟨[(1, 1), (2, 1)], by decide⟩ 7 =
      .ok ⟨"unix5.andrew.cmu.edu:9876", 2⟩ := rfl
  have usable := World.ready_shipped.writable .shipped 7 _ placed
  obtain ⟨x, y, uploaded, refused⟩ :=
    late_missing (b := [1]) (le_refl 2) World.fits_shipped placed usable
      (World.unused_shipped .utf8 _)
  change (CacheServer.get .utf8 0 "2" "7").run _ _ = _ at refused
  rw [serve, handler, uploaded, serve, handler, refused]
  rfl

end Haystack
