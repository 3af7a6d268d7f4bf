import Haystack.EndToEnd

/-! The cache servers never serve the wrong photo, whichever requests run and
wherever they are cut off. -/
namespace Haystack

open Calls Cql Java

def Setting.everything (config : HSConfig) (charset : Charset) (schema : Schema)
    (rs : List Request) : Setting where
  config := config
  charset := charset
  schema := schema
  content := Haystack.content rs
  kept _ := False
  scope _ := True
  closed _ _ _ _ := trivial

/-- The requests that cannot send a statement of their own to the store: only
letters, digits and underscores in an lvid, and no quote in the pid of a get. -/
def Request.Orderly : Request → Prop
  | .webGet _ pid => Plain pid
  | .cacheGet _ lvid _ => Wordlike lvid
  | _ => True

instance : DecidablePred Request.Orderly
  | .upload _ _ _ => inferInstanceAs (Decidable True)
  | .webGet _ pid => inferInstanceAs (Decidable (Plain pid))
  | .webDelete _ _ => inferInstanceAs (Decidable True)
  | .cacheGet _ lvid _ => inferInstanceAs (Decidable (Wordlike lvid))
  | .cacheDelete _ _ => inferInstanceAs (Decidable True)

section Everything

variable {config : HSConfig} {charset : Charset} {s : World} {table : StoreInfo} {rs : List Request}

theorem coherent_of_empty (photos : s.HasPhotos) (storeInfo : s.directory.storeInfo = some table)
    (empty : ∀ pid, s.Unused charset pid) :
    Coherent (.everything config charset (s.schema table) rs) s := by
  refine ⟨World.fits_schema photos storeInfo, ?_, ?_, ?_, ?_⟩
  · intro pid info _ found
    cases (empty pid).photo.symm.trans found
  · intro server pid url _ found
    cases ((empty pid).redis server).symm.trans found
  · intro place pid b _ found
    cases ((empty pid).image place).symm.trans found
  · intro server pid b _ found
    cases ((empty pid).cached server).symm.trans found

theorem admits_of_orderly {schema : Schema} {q : Request}
    (absent : ∀ server pid, q = .cacheDelete server pid → "photo" ∉ schema.volumes)
    (distinct : (readings rs).Nodup) (member : q ∈ rs) (orderly : q.Orderly) :
    (Setting.everything config charset schema rs).Admits q := by
  cases q with
  | upload server img u =>
    rintro b rfl
    exact content_of_mem distinct member
  | webGet server pid => exact orderly
  | webDelete server pid => exact .inr (fun _ => ⟨trivial, id⟩)
  | cacheGet server lvid pid => exact orderly
  | cacheDelete server pid => exact absent server pid rfl

theorem coherent_after {es : List Happening} {p : System} (photos : s.HasPhotos)
    (storeInfo : s.directory.storeInfo = some table) (empty : ∀ pid, s.Unused charset pid)
    (absent : ¬ s.HasVolume "photo") (run : (System.idle s).after config charset es = some p)
    (orderly : ∀ r ∈ started es, r.Orderly) (distinct : (readings (started es)).Nodup) :
    p.Good (Setting.everything config charset (s.schema table) (started es)).discipline exec
      (fun _ r x u => ∀ a, x = .ok a → ∃ v,
        (Setting.everything config charset (s.schema table) (started es)).Reply v r x u) := by
  refine ((Pool.Good.empty _ (fun grows => grows) (coherent_of_empty photos storeInfo empty)).runs
    ?_ ?_ run).1
  · intro i r v begun _ _ _
    have listed := mem_started.mpr begun
    have missing : "photo" ∉ (s.schema table).volumes := absent
    exact (handler_coherent
      (admits_of_orderly (fun _ _ _ => missing) distinct listed (orderly r listed))).weaken
      (fun _ _ _ given _ _ => ⟨v, given⟩)
  · intro _ _ _ i r x u a none
    contradiction

end Everything

theorem cache_serves_own_photo {config : HSConfig} {charset : Charset} {s : World}
    {table : StoreInfo} {es : List Happening} {p : System} (photos : s.HasPhotos)
    (storeInfo : s.directory.storeInfo = some table) (empty : ∀ pid, s.Unused charset pid)
    (absent : ¬ s.HasVolume "photo") (run : (System.idle s).after config charset es = some p)
    (orderly : ∀ r ∈ started es, r.Orderly) (distinct : (readings (started es)).Nodup)
    (injective : Function.Injective charset.getBytes) :
    (∀ pid place place' b b', p.state.image place pid = some b →
      p.state.image place' pid = some b' →
      place = place') ∧
    (∀ server pid b, p.state.imageCache server (charset.getBytes pid) = some b →
      ∃ place, p.state.image place pid = some b) ∧
    (∀ thread ∈ p.threads, ∀ server lvid pid name b, thread.request = .cacheGet server lvid pid →
      thread.rest.outcome = some (.ok (.image name b)) →
      name = pid ∧ ∃ web t, .upload web (some b) t ∈ started es ∧ pid = toString t) := by
  have good := coherent_after photos storeInfo empty absent run orderly distinct
  refine ⟨?_, ?_, ?_⟩
  · intro pid place place' b b' first second
    obtain ⟨t, info, assigned, name, rfl⟩ := good.invariant.images place pid b trivial first
    obtain ⟨u, info', assigned', name', rfl⟩ := good.invariant.images place' pid b' trivial second
    rw [(assigned.unique assigned' (name.symm.trans name')).2.1]
  · intro server pid b found
    obtain ⟨t, info, _, key, stored⟩ := good.invariant.cached server pid b trivial found
    cases injective key
    exact ⟨_, stored⟩
  · intro thread member server lvid pid name b asked ended
    obtain ⟨i, found⟩ := List.mem_iff_getElem?.mp member
    obtain ⟨v, given⟩ := good.outcome found ended _ rfl
    rw [asked] at given
    rcases given trivial with ⟨_, h⟩ | ⟨_, h⟩ | ⟨_, h⟩ | ⟨t, info, b', assigned, key, _, h⟩
    · cases h
    · cases h
    · cases h
    · cases h
      obtain ⟨web, uploaded⟩ := content_mem assigned.content
      exact ⟨rfl, web, t, uploaded, injective key⟩

def uploadCutOff : List Happening :=
  [.start (.upload 0 (some [1]) 6), .start (.upload 1 (some [2]) 7), .step 0, .step 1,
    .step 0, .step 1, .step 1, .abort 1 true .unavailable, .step 0, .step 0,
    .start (.cacheGet 0 "2" "7"), .start (.cacheGet 0 "1" "7"), .step 2, .step 2, .step 2,
    .step 2, .step 3, .start (.cacheDelete 0 "7"), .step 4, .step 4, .start (.webDelete 0 "6"),
    .step 5, .step 5, .step 5]

theorem cache_serves_own_photo_cutOff : ∃ p : System,
    (System.idle .shipped).after .shipped .utf8 uploadCutOff = some p ∧
    (∀ pid place place' b b', p.state.image place pid = some b →
      p.state.image place' pid = some b' →
      place = place') ∧
    (∀ server pid b, p.state.imageCache server (Charset.utf8.getBytes pid) = some b →
      ∃ place, p.state.image place pid = some b) ∧
    (∀ thread ∈ p.threads, ∀ server lvid pid name b, thread.request = .cacheGet server lvid pid →
      thread.rest.outcome = some (.ok (.image name b)) →
      name = pid ∧ ∃ web t, .upload web (some b) t ∈ started uploadCutOff ∧ pid = toString t) := by
  have evaluated : ((System.idle .shipped).after .shipped .utf8 uploadCutOff).isSome = true ∧
      (∀ r ∈ started uploadCutOff, r.Orderly) ∧ (readings (started uploadCutOff)).Nodup := by
    decide +kernel
  obtain ⟨possible, orderly, distinct⟩ := evaluated
  obtain ⟨p, run⟩ := Option.isSome_iff_exists.mp possible
  have absent : ¬ World.shipped.HasVolume "photo" := by decide
  exact ⟨p, run, cache_serves_own_photo World.ready_shipped.photos World.ready_shipped.storeInfo
    (World.unused_shipped _) absent run orderly distinct
    (fun _ _ same => String.toByteArray_inj.mp (ByteArray.ext (Array.toList_inj.mp same)))⟩

end Haystack
