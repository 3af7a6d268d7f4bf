import Haystack.System

/-! Where the handler of a web request stands after each of its calls, and what
its next call does. -/
namespace Haystack

open Calls Cql Java

/-- What is left of a web request after so many calls. -/
def Request.Stage (config : HSConfig) : Request → Nat → Handler Resp → Prop
  | .webGet server pid, 0, p => p = WebServer.onGetImage server pid
  | .webGet server pid, 1, p =>
    p = WebServer.onCacheMiss server pid ∨ ∃ url, p = .done (.redirect url)
  | .webGet server pid, 2, p => ∃ m, p = WebServer.getAnswer server pid m
  | .webGet _ _, 3, p => ∃ url, p = .done (.redirect url)
  | .webDelete server pid, 0, p => p = WebServer.onDelete server pid
  | .webDelete _ pid, 1, p => p = WebServer.searchRow pid
  | .webDelete _ pid, 2, p =>
      (p = WebServer.deleteRow pid ∧ pid ≠ "") ∨ p = .done (.result 404 "No such image.")
  | .webDelete _ _, 3, p => p = .done (.result 200 "Image deleted.")
  | .upload _ img t, 0, p => p = WebServer.onPostImage config img t
  | .upload _ (some b) t, 1, p => (∃ info, p = WebServer.storeImage t info b) ∨ ∃ e, p = .throw e
  | .upload _ (some b) t, 2, p => ∃ info, p = WebServer.prepareImage t info b
  | .upload _ (some b) t, 3, p =>
      (∃ k, p = WebServer.sendImage t (WebServer.imageInsert k (toString t) b)) ∨ ∃ e, p = .throw e
  | .upload _ (some _) t, 4, p => p = .done (.json 201 (toString t)) ∨ ∃ e, p = .throw e
  | _, _, _ => False

def Request.Looks : Request → Nat → Prop
  | .webGet _ _, n => n = 0 ∨ n = 1
  | .webDelete _ _, n => n = 1
  | .upload _ _ _, n => n = 0 ∨ n = 2 ∨ n = 3
  | _, _ => False

/-- What a call does to the backends, by how many were made before. -/
inductive Request.Effect : Request → Nat → World → World → Prop where
  | look {r : Request} {n : Nat} {s : World} : r.Looks n → Effect r n s s
  | fill {server : Nat} {pid : String} {s : World} (info : PhotoInfo) :
      Effect (.webGet server pid) 2 s (s.setRedis server pid (some (info.path pid)))
  | evict {server : Nat} {pid : String} {s : World} :
      Effect (.webDelete server pid) 0 s (s.setRedis server pid none)
  | drop {server : Nat} {pid : String} {s : World} :
      Effect (.webDelete server pid) 2 s (s.setPhoto pid none)
  | enter {server : Nat} {b : Bytes} {t : Int64} {s : World} (info : PhotoInfo) :
      Effect (.upload server (some b) t) 1 s (s.setPhoto (toString t) (some info))
  | store {server : Nat} {b : Bytes} {t : Int64} {s : World} (k : Int32) :
      Effect (.upload server (some b) t) 3 s (s.setImage (lv k) (toString t) (some b))

section Steps

variable {config : HSConfig} {schema : Schema} {server n : Nat} {pid : String} {s s' : World}
  {p p' : Handler Resp}

theorem webGet_step (plain : Plain pid) (fits : s.Fits schema)
    (stage : (Request.webGet server pid).Stage config n p) (step : p.Step exec s p' s') :
    (Request.webGet server pid).Stage config (n + 1) p' ∧
    (Request.webGet server pid).Effect n s s' := by
  match n with
  | 0 =>
    cases (stage : p = _)
    by_cases named : pid = ""
    · subst named
      cases step
    · obtain ⟨next, tree, continued⟩ := WebServer.onGetImage_eq server named
      rw [tree] at step
      obtain ⟨rfl, rfl⟩ := step.of_ok exec rfl
      refine ⟨?_, .look (.inl rfl)⟩
      rw [continued]
      cases WebServer.usable (s.redis server pid) with
      | none => exact .inl rfl
      | some url => exact .inr ⟨url, rfl⟩
  | 1 =>
    rcases stage with rfl | ⟨url, rfl⟩
    · obtain ⟨next, tree, continued⟩ := WebServer.onCacheMiss_eq server pid
      rw [tree] at step
      obtain ⟨rfl, rfl⟩ := step.of_ok exec (WebServer.exec_selectPhoto plain fits.photos)
      exact ⟨⟨s.photo pid, continued _⟩, .look (.inr rfl)⟩
    · cases step
  | 2 =>
    obtain ⟨m, rfl⟩ := stage
    cases m with
    | none => cases step
    | some info =>
      obtain ⟨rfl, rfl⟩ := step.of_ok exec rfl
      exact ⟨⟨_, rfl⟩, .fill info⟩
  | 3 =>
    obtain ⟨url, rfl⟩ := stage
    cases step

theorem webDelete_step (plain : Plain pid) (fits : s.Fits schema) (keyed : s.photo "" = none)
    (stage : (Request.webDelete server pid).Stage config n p) (step : p.Step exec s p' s') :
    (Request.webDelete server pid).Stage config (n + 1) p' ∧
      (Request.webDelete server pid).Effect n s s' := by
  match n with
  | 0 =>
    cases (stage : p = _)
    obtain ⟨rfl, rfl⟩ := step.of_ok exec rfl
    exact ⟨rfl, .evict⟩
  | 1 =>
    cases (stage : p = _)
    obtain ⟨next, tree, missing, present⟩ := WebServer.searchRow_eq pid
    rw [tree] at step
    obtain ⟨rfl, rfl⟩ := step.of_ok exec (WebServer.exec_searchQuery plain fits.photos)
    refine ⟨?_, .look rfl⟩
    cases row : s.photo pid with
    | none => exact .inr missing
    | some info =>
      refine .inl ⟨present pid info [], ?_⟩
      rintro rfl
      rw [keyed] at row
      contradiction
  | 2 =>
    rcases stage with ⟨rfl, _⟩ | rfl
    · obtain ⟨rfl, rfl⟩ := step.of_ok exec (WebServer.exec_delQuery plain fits.photos)
      exact ⟨rfl, .drop⟩
    · cases step
  | 3 =>
    cases (stage : p = _)
    cases step

theorem upload_step {b : Bytes} {t : Int64} (fits : s.Fits schema)
    (stage : (Request.upload server (some b) t).Stage config n p) (step : p.Step exec s p' s') :
    (Request.upload server (some b) t).Stage config (n + 1) p' ∧
      (Request.upload server (some b) t).Effect n s s' := by
  match n with
  | 0 =>
    cases (stage : p = _)
    obtain ⟨next, tree, continued⟩ := WebServer.onPostImage_eq config b t
    rw [tree] at step
    obtain ⟨rfl, rfl⟩ := step.of_ok exec (WebServer.exec_lvidQuery schema.table fits.storeInfo)
    refine ⟨?_, .look (.inl rfl)⟩
    rw [continued]
    cases WebServer.placement config schema.table t with
    | error e => exact .inr ⟨e, rfl⟩
    | ok info => exact .inl ⟨info, rfl⟩
  | 1 =>
    rcases stage with ⟨info, rfl⟩ | ⟨e, rfl⟩
    · obtain ⟨rfl, rfl⟩ := step.of_ok exec
        (WebServer.exec_insertQuery info.cacheUrl info.lvid fits.photos)
      exact ⟨⟨info, rfl⟩, .enter info⟩
    · cases step
  | 2 =>
    obtain ⟨info, rfl⟩ := stage
    by_cases usable : 0 ≤ info.lvid.toInt ∧ s.HasVolume (lv info.lvid)
    · obtain ⟨rfl, rfl⟩ := step.of_ok exec (WebServer.exec_prepare_insertImage usable.1 usable.2)
      refine ⟨.inl ⟨info.lvid, ?_⟩, .look (.inr (.inl rfl))⟩
      rw [WebServer.bind_imageStatement]
      rfl
    · obtain ⟨rfl, rfl⟩ := step.of_error exec (WebServer.exec_prepare_refused usable)
      exact ⟨.inr ⟨_, rfl⟩, .look (.inr (.inl rfl))⟩
  | 3 =>
    rcases stage with ⟨k, rfl⟩ | ⟨e, rfl⟩
    · by_cases created : s.HasVolume (lv k)
      · obtain ⟨rfl, rfl⟩ := step.of_ok exec (WebServer.exec_imageInsert k b created)
        exact ⟨.inl rfl, .store k⟩
      · have absent : s.store.tables (lv k) = none := by simpa [World.HasVolume] using created
        have refused : exec (.executeBound .store (WebServer.imageInsert k (toString t) b)) s =
            .error .invalidQuery := by
          simp only [exec, executeOn]
          exact executeStore_absent absent
        obtain ⟨rfl, rfl⟩ := step.of_error exec refused
        exact ⟨.inr ⟨_, rfl⟩, .look (.inr (.inr rfl))⟩
    · cases step
  | 4 =>
    rcases stage with rfl | ⟨e, rfl⟩ <;> cases step

end Steps

def Request.Local (server : Nat) : Request → Prop
  | .upload w _ _ => w = server
  | .webGet w pid => w = server ∧ Plain pid
  | .webDelete w pid => w = server ∧ Plain pid
  | _ => False

instance (server : Nat) : DecidablePred (Request.Local server)
  | .upload _ _ _ => inferInstanceAs (Decidable (_ = _))
  | .webGet _ _ => inferInstanceAs (Decidable (_ ∧ _))
  | .webDelete _ _ => inferInstanceAs (Decidable (_ ∧ _))
  | .cacheGet _ _ _ => inferInstanceAs (Decidable False)
  | .cacheDelete _ _ => inferInstanceAs (Decidable False)

theorem Request.stage_start (config : HSConfig) (charset : Charset) {server : Nat} {r : Request}
    (here : r.Local server) : r.Stage config 0 (handler config charset r) := by
  cases r with
  | upload w img t => rfl
  | webGet w pid => rfl
  | webDelete w pid => rfl
  | cacheGet w lvid pid => exact here.elim
  | cacheDelete w pid => exact here.elim

section Steps

variable {config : HSConfig} {schema : Schema} {server n : Nat} {s s' : World} {p p' : Handler Resp}
  {r : Request}

theorem Request.stage_step (here : r.Local server) (fits : s.Fits schema)
    (keyed : s.photo "" = none) (stage : r.Stage config n p) (step : p.Step exec s p' s') :
    r.Stage config (n + 1) p' ∧ r.Effect n s s' := by
  cases r with
  | upload w img t =>
    cases img with
    | none =>
      cases n with
      | zero =>
        cases (stage : p = _)
        cases step
      | succ n => simp [Request.Stage] at stage
    | some b => exact upload_step fits stage step
  | webGet w pid => exact webGet_step here.2 fits stage step
  | webDelete w pid => exact webDelete_step here.2 fits keyed stage step
  | cacheGet w lvid pid => exact here.elim
  | cacheDelete w pid => exact here.elim

theorem Request.Effect.fits (effect : r.Effect n s s') (fits : s.Fits schema) : s'.Fits schema := by
  cases effect with
  | look => exact fits
  | fill info => exact fits.setRedis _ _ _
  | evict => exact fits.setRedis _ _ _
  | drop => exact fits.setPhoto _ _
  | enter info => exact fits.setPhoto _ _
  | store k => exact fits.setImage _ _ _

theorem Request.Effect.keyed (effect : r.Effect n s s') (photos : s.HasPhotos)
    (keyed : s.photo "" = none) : s'.photo "" = none := by
  cases effect with
  | look => exact keyed
  | fill info => exact keyed
  | evict => exact keyed
  | drop =>
    rw [World.photo_setPhoto photos]
    split
    · rfl
    · exact keyed
  | enter info =>
    rw [World.photo_setPhoto photos, if_neg (toString_long_ne_empty _).symm]
    exact keyed
  | store k => exact keyed

end Steps

end Haystack
