import Haystack.EndToEnd
import Haystack.Calls.Serial

/-! Uploads among themselves. The pid is the clock reading and both inserts are
upserts, so two uploads stay apart exactly when their clock readings differ. -/
namespace Haystack

open Calls Cql Java

structure Upload where
  server : Nat
  bytes : Bytes
  reading : Int64
  deriving DecidableEq, Repr

def Upload.request (u : Upload) : Request := .upload u.server (some u.bytes) u.reading

/-- No acknowledged upload is lost to another: their pids differ, and under each
of them the store holds the bytes of that upload and nothing else. -/
structure System.UploadsApart (p : System) : Prop where
  pids : ∀ (i j : Nat) (t u : Job) (pid : String),
    p.threads[i]? = some t → p.threads[j]? = some u →
    t.rest.outcome = some (.ok (.json 201 pid)) →
      u.rest.outcome = some (.ok (.json 201 pid)) → i = j
  stored : ∀ t ∈ p.threads, ∀ (u : Upload) (pid : String), t.request = u.request →
    t.rest.outcome = some (.ok (.json 201 pid)) →
    (∃ place, p.state.image place pid = some u.bytes) ∧
      ∀ place b, p.state.image place pid = some b → b = u.bytes

theorem readings_requests (us : List Upload) :
    readings (us.map Upload.request) = us.map Upload.reading := by
  induction us with
  | nil => rfl
  | cons u us ih => simp [Upload.request, readings, ih]

section Alone

variable {config : HSConfig} (charset : Charset) {schema : Schema} {s : World}

theorem upload_acknowledged (u : Upload) {info : PhotoInfo} (fits : s.Fits schema)
    (place : WebServer.placement config schema.table u.reading = .ok info)
    (usable : WebServer.Usable schema info) :
    ((handler config charset u.request).run exec s).1.Fits schema ∧
      ((handler config charset u.request).run exec s).2 = .ok (.json 201 (toString u.reading)) := by
  have kept : ∀ t, (Discipline.ofInvariant (World.Fits schema)).invariant t → t.Fits schema :=
    fun _ fits => fits
  have holds : (handler config charset u.request).Holds (.ofInvariant (World.Fits schema)) exec
      (fun r _ => r = .ok (.json 201 (toString u.reading))) s := by
    change (WebServer.onPostImage config (some u.bytes) u.reading).Holds _ _ _ _
    refine WebServer.onPostImage_holds kept ?_ ?_ ?_
    · intro none
      contradiction
    · intro e _ refused
      rw [place] at refused
      contradiction
    · intro info' b _ chosen t _ _
      cases Except.ok.inj (place.symm.trans chosen)
      apply WebServer.storeImage_holds kept
      intro v _ fits
      refine ⟨⟨fits.setPhoto _ _, trivial⟩, ?_⟩
      intro w _ fits
      exact ⟨fun unusable => absurd usable unusable,
        fun _ => ⟨⟨fits.setImage _ _ _, trivial⟩, fun _ _ _ => rfl⟩⟩
  exact holds.run fits

theorem uploads_acknowledged (us : List Upload) (fits : s.Fits schema)
    (placed : ∀ u ∈ us, ∃ info, WebServer.placement config schema.table u.reading = .ok info ∧
      WebServer.Usable schema info) :
    (serve exec (handler config charset) s (us.map Upload.request)).2 =
      us.map (fun u => .ok (.json 201 (toString u.reading))) := by
  induction us generalizing s with
  | nil => rfl
  | cons u us ih =>
    obtain ⟨info, place, usable⟩ := placed u List.mem_cons_self
    have first := upload_acknowledged charset u fits place usable
    simp only [List.map_cons, serve]
    rw [first.2, ih first.1 (fun v member => placed v (List.mem_cons_of_mem _ member))]

end Alone

section Together

variable {config : HSConfig} {charset : Charset} {s : World} {table : StoreInfo} {us : List Upload}
  {es : List Happening} {p : System}

theorem upload_of_thread (begun : started es = us.map Upload.request)
    (run : (System.idle s).after config charset es = some p) {i : Nat}
    {t : Job} (found : p.threads[i]? = some t) :
    ∃ u, us[i]? = some u ∧ t.request = u.request := by
  have requests := Pool.runs_requests exec (handler config charset) run
  have listed := congrArg (fun rs => rs[i]?) requests
  simp only [System.idle, List.map_nil, List.nil_append, begun, List.getElem?_map, found,
    Option.map_some] at listed
  obtain ⟨u, member, same⟩ := Option.map_eq_some_iff.mp listed.symm
  exact ⟨u, member, same.symm⟩

theorem pid_of_upload (run : (System.idle s).after config charset es = some p) {i : Nat}
    {t : Job} {u : Upload} {pid : String}
    (found : p.threads[i]? = some t) (made : t.request = u.request)
    (acknowledged : t.rest.outcome = some (.ok (.json 201 pid))) : pid = toString u.reading := by
  have given := (Pool.bounded_runs (handler_within config charset) run).returned found acknowledged
  rw [made] at given
  injection given

theorem apart_of_distinct (distinct : (us.map Upload.reading).Nodup)
    (photos : s.HasPhotos) (storeInfo : s.directory.storeInfo = some table)
    (unused : ∀ u ∈ us, s.Unused charset (toString u.reading))
    (begun : started es = us.map Upload.request) (unfailing : ∀ e ∈ es, e.unfailing = true)
    (run : (System.idle s).after config charset es = some p) : p.UploadsApart := by
  constructor
  · intro i j t t' pid found found' acknowledged acknowledged'
    obtain ⟨u, listed, made⟩ := upload_of_thread begun run found
    obtain ⟨u', listed', made'⟩ := upload_of_thread begun run found'
    have pid₁ := pid_of_upload run found made acknowledged
    have pid₂ := pid_of_upload run found' made' acknowledged'
    have same : u.reading = u'.reading := toString_injective (pid₁.symm.trans pid₂)
    have at₁ : (us.map Upload.reading)[i]? = some u.reading := by simp [listed]
    have at₂ : (us.map Upload.reading)[j]? = some u.reading := by simp [listed', same]
    have bound := (List.getElem?_eq_some_iff.mp at₁).1
    exact (List.getElem?_inj bound distinct).mp (at₁.trans at₂.symm)
  · intro t member u pid made acknowledged
    obtain ⟨i, found⟩ := List.mem_iff_getElem?.mp member
    obtain ⟨u', listed, made'⟩ := upload_of_thread begun run found
    obtain rfl : u = u' := by
      obtain ⟨server, bytes, reading⟩ := u
      obtain ⟨server', bytes', reading'⟩ := u'
      simpa [Upload.request] using made.symm.trans made'
    have name := pid_of_upload run found made acknowledged
    subst name
    have admitted : ∀ r ∈ started es, r ∈ started es ∧ r.Clean ∧
        ∀ server, r ≠ .webDelete server (toString u.reading) := by
      intro r listed
      obtain ⟨v, _, rfl⟩ := List.mem_map.mp (begun ▸ listed)
      exact ⟨listed, trivial, fun _ other => by cases other⟩
    have apart : (readings (started es)).Nodup := by
      rw [begun, readings_requests]
      exact distinct
    have good := good_after_tracking photos storeInfo (unused u (List.mem_of_getElem? listed)) apart
      unfailing admitted run
    obtain ⟨v, given⟩ := good.outcome found acknowledged
    rw [made] at given
    obtain ⟨_, info, assigned, there⟩ := given u.bytes _ rfl rfl
    refine ⟨⟨_, (there rfl).1⟩, ?_⟩
    intro place b held
    obtain ⟨k, info', assigned', name, _⟩ := good.invariant.images place _ b rfl held
    exact (assigned.unique assigned' name).2.2.symm

end Together

/-- Uploads stay apart in every interleaving exactly when no two of them read the
same time. -/
theorem uploads_apart_iff {config : HSConfig} {charset : Charset} {s : World} {table : StoreInfo}
    {us : List Upload} (valid : config.Valid) (ready : s.Ready config.numLogicalVolumes table)
    (nonneg : ∀ u ∈ us, 0 ≤ u.reading.toInt)
    (unused : ∀ u ∈ us, s.Unused charset (toString u.reading)) :
    (∀ (es : List Happening) (p : System), started es = us.map Upload.request →
      (∀ e ∈ es, e.unfailing = true) → (System.idle s).after config charset es = some p →
      p.UploadsApart) ↔ (us.map Upload.reading).Nodup := by
  constructor
  · intro apart
    obtain ⟨es, threads, begun, unfailing, run, requests, outcomes⟩ :=
      Pool.serve_runs exec (handler config charset) (System.idle s) (us.map Upload.request)
    have fits := World.fits_schema ready.photos ready.storeInfo
    have placed : ∀ u ∈ us, ∃ info, WebServer.placement config (s.schema table).table u.reading =
        .ok info ∧ WebServer.Usable (s.schema table) info := by
      intro u member
      obtain ⟨info, _, place, _, range, _⟩ :=
        WebServer.placement_found valid ready.covers (nonneg u member)
      exact ⟨info, place, by omega, ready.volumes info.lvid range.1 range.2⟩
    have served : threads.map (fun t => t.rest.outcome) =
        us.map (fun u => some (.ok (.json 201 (toString u.reading)))) := by
      rw [outcomes, show (System.idle s).state = s from rfl,
        uploads_acknowledged charset us fits placed]
      simp
    have kept := (apart es _ begun unfailing run).pids
    have answered : ∀ (k : Nat) (u : Upload), us[k]? = some u →
        ∃ t : Job, threads[k]? = some t ∧
          t.rest.outcome = some (.ok (.json 201 (toString u.reading))) := by
      intro k u member
      have listed := congrArg (fun xs => xs[k]?) served
      simp only [List.getElem?_map, member, Option.map_some] at listed
      exact Option.map_eq_some_iff.mp listed
    rw [List.nodup_iff_getElem?_ne_getElem?]
    intro i j less bound same
    have inside : j < us.length := by simpa using bound
    obtain ⟨t, found, first⟩ := answered i us[i] (List.getElem?_eq_getElem (by omega))
    obtain ⟨t', found', second⟩ := answered j us[j] (List.getElem?_eq_getElem inside)
    have reading : us[i].reading = us[j].reading := by
      simpa [List.getElem?_map, inside, Nat.lt_trans less inside] using same
    rw [reading] at first
    have equal := kept i j t t' _ found found' first second
    omega
  · intro distinct es p begun unfailing run
    exact apart_of_distinct distinct ready.photos ready.storeInfo unused begun unfailing run

/-- Two uploads on two web servers in the same millisecond. -/
def sameTick : List Upload := [⟨0, [1], 7⟩, ⟨1, [2], 7⟩]

def sameTickRun : List Happening :=
  [.start (.upload 0 (some [1]) 7), .start (.upload 1 (some [2]) 7), .step 0, .step 1,
    .step 0, .step 1, .step 0, .step 1, .step 0, .step 1]

theorem sameTick_collides : ∃ p : System,
    (System.idle .shipped).after .shipped .utf8 sameTickRun = some p ∧
    started sameTickRun = sameTick.map Upload.request ∧
    p.outcomes.map Prod.snd = [some (.ok (.json 201 "7")), some (.ok (.json 201 "7"))] ∧
    p.state.image "lv1" "7" = none ∧ p.state.image "lv2" "7" = some [2] ∧ ¬ p.UploadsApart := by
  have replies : ((System.idle .shipped).after .shipped .utf8 sameTickRun).map System.outcomes =
      some [(.upload 0 (some [1]) 7, some (.ok (.json 201 "7"))),
        (.upload 1 (some [2]) 7, some (.ok (.json 201 "7")))] := by decide +kernel
  have images : ((System.idle .shipped).after .shipped .utf8 sameTickRun).map
      (fun p => (p.state.image "lv1" "7", p.state.image "lv2" "7")) = some (none, some [2]) := by
    decide +kernel
  obtain ⟨p, run, outcomes⟩ := Option.map_eq_some_iff.mp replies
  rw [run] at images
  have stored := Prod.mk.inj (Option.some.inj images)
  refine ⟨p, run, by decide, by rw [outcomes]; rfl, stored.1, stored.2, ?_⟩
  intro apart
  obtain ⟨t, found, _, replied⟩ := System.outcomes_found (p := p) (i := 0) (by rw [outcomes]; rfl)
  obtain ⟨u, found', _, replied'⟩ := System.outcomes_found (p := p) (i := 1) (by rw [outcomes]; rfl)
  have same := apart.pids 0 1 t u "7" found found' replied replied'
  contradiction

def nextTick : List Upload := [⟨0, [1], 6⟩, ⟨1, [2], 7⟩]

theorem uploads_apart_nextTick : (nextTick.map Upload.reading).Nodup ∧
    ∀ (es : List Happening) (p : System), started es = nextTick.map Upload.request →
      (∀ e ∈ es, e.unfailing = true) →
      (System.idle .shipped).after .shipped .utf8 es = some p → p.UploadsApart :=
  ⟨by decide, (uploads_apart_iff ⟨by decide, by decide⟩ World.ready_shipped (by simp [nextTick])
    (fun _ _ => World.unused_shipped _ _)).mpr (by decide)⟩

end Haystack
