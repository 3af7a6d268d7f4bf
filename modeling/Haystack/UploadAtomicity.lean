import Haystack.System

/-! When an upload is all or nothing: what is left behind when one of its calls
fails, and what a request without a file is told. -/
namespace Haystack.WebServer

open Calls Cql Java

/-- The row that store_info and the clock reading determine. The volume is the
remainder of the reading plus one, if it is listed as writable. Should that sum be 0,
which no reading since 1970 gives, it is the writable volume listed after volume 0. -/
structure RowFor (config : HSConfig) (table : StoreInfo) (tmpPid : Int64) (info : PhotoInfo) :
    Prop where
  volume : ∃ k, proposedLvid tmpPid config.numLogicalVolumes = .ok k ∧
    if k = 0 then ((table.rows.filter (fun row => row.2 == 1)).dropWhile
      (fun row => row.1 != 0)).tail.head?.map Prod.fst = some info.lvid
    else info.lvid = k ∧ (k, 1) ∈ table.rows
  address : selectCacheUrl config tmpPid = .ok info.cacheUrl

structure Entered (config : HSConfig) (tmpPid : Int64) (failing : Option Nat) (s : World)
    (info : PhotoInfo) : Prop where
  placed : ∃ table, s.directory.storeInfo = some table ∧ RowFor config table tmpPid info
  photos : s.HasPhotos
  query : failing ≠ some 0
  insert : failing ≠ some 1

structure Followed (failing : Option Nat) (s : World) (info : PhotoInfo) : Prop where
  nonneg : 0 ≤ info.lvid.toInt
  created : s.HasVolume (lv info.lvid)
  prepare : failing ≠ some 2
  store : failing ≠ some 3

/-- Either the reply is 201 with a pid under which the row and the image are found,
or it is not 201 and photo_info and the volumes are as before. -/
def AllOrNothing (upfile : Option Bytes) (s : World) (left : World × Option Resp) : Prop :=
  (∃ pid info fileBytes, left.2 = some (.json 201 pid) ∧ pid ≠ "" ∧ upfile = some fileBytes ∧
    left.1.photo pid = some info ∧ left.1.image (lv info.lvid) pid = some fileBytes) ∨
  ((∀ pid, left.2 ≠ some (.json 201 pid)) ∧
    left.1.directory.photoInfo = s.directory.photoInfo ∧ left.1.store.tables = s.store.tables)

section Placed

variable {config : HSConfig} {table : StoreInfo} {tmpPid : Int64}

theorem placement_iff {info : PhotoInfo} :
    placement config table tmpPid = .ok info ↔ RowFor config table tmpPid info := by
  have rowFor : RowFor config table tmpPid info ↔
      selectLvid table.writable tmpPid config.numLogicalVolumes = .ok info.lvid ∧
        selectCacheUrl config tmpPid = .ok info.cacheUrl := by
    rw [selectLvid_iff]
    exact ⟨fun row => ⟨row.volume, row.address⟩, fun h => ⟨h.1, h.2⟩⟩
  rw [rowFor]
  obtain ⟨cacheUrl, lvid⟩ := info
  unfold placement
  cases selectLvid table.writable tmpPid config.numLogicalVolumes with
  | error e => simp [bind, Except.bind]
  | ok k =>
    cases selectCacheUrl config tmpPid with
    | error e => simp [bind, Except.bind]
    | ok url => simp [bind, Except.bind, pure, Except.pure, and_comm]

end Placed

section Outcomes

variable {config : HSConfig} {tmpPid : Int64} {info : PhotoInfo} {fileBytes : Bytes} {s : World}

theorem prepareImage_faulty (tmpPid : Int64) (info : PhotoInfo) (fileBytes : Bytes) (s : World)
    (failing : Option Nat) :
    (prepareImage tmpPid info fileBytes).faulty exec (Fault.single failing) s =
        (s.setImage (lv info.lvid) (toString tmpPid) (some fileBytes),
          some (.json 201 (toString tmpPid))) ∧
      0 ≤ info.lvid.toInt ∧ s.HasVolume (lv info.lvid) ∧ failing ≠ some 0 ∧ failing ≠ some 1 ∨
    (prepareImage tmpPid info fileBytes).faulty exec (Fault.single failing) s = (s, none) ∧
      ¬ (0 ≤ info.lvid.toInt ∧ s.HasVolume (lv info.lvid) ∧ failing ≠ some 0 ∧
        failing ≠ some 1) := by
  by_cases usable : 0 ≤ info.lvid.toInt ∧ s.HasVolume (lv info.lvid)
  · rw [prepareImage, Program.faulty_answered exec (exec_prepare_insertImage usable.1 usable.2),
      bind_imageStatement]
    change (if failing = some 0 then _ else (sendImage tmpPid _).faulty exec _ s) = _ ∧ _ ∨
      (if failing = some 0 then _ else (sendImage tmpPid _).faulty exec _ s) = _ ∧ _
    rw [sendImage, Program.faulty_answered exec (exec_imageInsert info.lvid fileBytes usable.2)]
    match failing with
    | none => exact .inl ⟨rfl, usable.1, usable.2, by simp, by simp⟩
    | some 0 => exact .inr ⟨rfl, by simp⟩
    | some 1 => exact .inr ⟨rfl, by simp⟩
    | some (n + 2) => exact .inl ⟨rfl, usable.1, usable.2, by simp, by simp⟩
  · refine .inr ⟨?_, fun h => usable ⟨h.1, h.2.1⟩⟩
    exact Program.faulty_refused exec (exec_prepare_refused usable) _

theorem onPostImage_faulty (config : HSConfig) (fileBytes : Bytes) (tmpPid : Int64)
    (failing : Option Nat) (s : World) :
    ((onPostImage config (some fileBytes) tmpPid).faulty exec (Fault.single failing) s = (s, none) ∧
      ∀ info, ¬ Entered config tmpPid failing s info) ∨
    ∃ info, Entered config tmpPid failing s info ∧
      (∀ other, Entered config tmpPid failing s other → other = info) ∧
      (onPostImage config (some fileBytes) tmpPid).faulty exec (Fault.single failing) s =
        (prepareImage tmpPid info fileBytes).faulty exec
          (Fault.single (failing.map (fun n => n - 2)))
          (s.setPhoto (toString tmpPid) (some info)) := by
  obtain ⟨next, tree, continued⟩ := onPostImage_eq config fileBytes tmpPid
  rw [tree]
  cases stored : s.directory.storeInfo with
  | none =>
    refine .inl ⟨Program.faulty_refused exec (exec_lvidQuery_refused stored) _, ?_⟩
    rintro info ⟨⟨table, found, -⟩, -, -, -⟩
    cases stored.symm.trans found
  | some table =>
    have queried := exec_lvidQuery table stored
    have unique : ∀ {info}, Entered config tmpPid failing s info →
        placement config table tmpPid = .ok info := by
      rintro info ⟨⟨other, found, row⟩, -, -, -⟩
      cases stored.symm.trans found
      exact placement_iff.mpr row
    rw [Program.faulty_answered exec queried, continued]
    by_cases query : failing = some 0
    · exact .inl ⟨if_pos query, fun info entered => entered.query query⟩
    rw [if_neg query]
    cases placed : placement config table tmpPid with
    | error e =>
      refine .inl ⟨rfl, ?_⟩
      intro info entered
      cases (unique entered).symm.trans placed
    | ok info =>
      have going : (Program.lift (.ok info)).bind (fun info => storeImage tmpPid info fileBytes) =
        storeImage tmpPid info fileBytes := rfl
      rw [going, storeImage]
      have row : ∃ table, s.directory.storeInfo = some table ∧ RowFor config table tmpPid info :=
        ⟨table, stored, placement_iff.mp placed⟩
      have only : ∀ other, Entered config tmpPid failing s other → other = info := by
        intro other entered
        cases (unique entered).symm.trans placed
        rfl
      by_cases photos : s.HasPhotos
      · rw [Program.faulty_answered exec (exec_insertQuery info.cacheUrl info.lvid photos)]
        match failing with
        | none =>
          exact .inr ⟨info, ⟨row, photos, by simp, by simp⟩, only, rfl⟩
        | some 1 => exact .inl ⟨rfl, fun info entered => entered.insert rfl⟩
        | some (n + 2) =>
          exact .inr ⟨info, ⟨row, photos, by simp, by simp⟩, only, rfl⟩
      · refine .inl ⟨?_, fun info entered => photos entered.photos⟩
        exact Program.faulty_refused exec (exec_insertQuery_refused _ _ photos) _

end Outcomes

theorem followed_iff {failing : Option Nat} {s : World} {pid : String} {row : Option PhotoInfo}
    {info : PhotoInfo} (query : failing ≠ some 0) (insert : failing ≠ some 1) :
    Followed failing s info ↔ 0 ≤ info.lvid.toInt ∧ (s.setPhoto pid row).HasVolume (lv info.lvid) ∧
      failing.map (fun n => n - 2) ≠ some 0 ∧ failing.map (fun n => n - 2) ≠ some 1 := by
  have shifted : (failing.map (fun n => n - 2) ≠ some 0 ↔ failing ≠ some 2) ∧
      (failing.map (fun n => n - 2) ≠ some 1 ↔ failing ≠ some 3) := by
    match failing with
    | none => simp
    | some 0 => contradiction
    | some 1 => contradiction
    | some (n + 2) => simp
  rw [shifted.1, shifted.2]
  exact ⟨fun h => ⟨h.nonneg, h.created, h.prepare, h.store⟩,
    fun h => ⟨h.1, h.2.1, h.2.2.1, h.2.2.2⟩⟩

theorem photoInfo_setPhoto_same {s : World} {pid : String} {info : PhotoInfo}
    (there : s.photo pid = some info) :
    (s.setPhoto pid (some info)).directory.photoInfo = s.directory.photoInfo := by
  cases created : s.directory.photoInfo with
  | none => simp [World.setPhoto, created]
  | some t =>
    have same : t pid = some info := by simpa [World.photo, created] using there
    simp [World.setPhoto, created, ← same]

/-- Whatever the directory and the store hold, and whichever call of an upload fails:
it is all or nothing exactly if it carries a file and no new row is left without its
image. -/
theorem upload_allOrNothing_iff (config : HSConfig) (upfile : Option Bytes) (tmpPid : Int64)
    (failing : Option Nat) (s : World) :
    AllOrNothing upfile s
      ((onPostImage config upfile tmpPid).faulty exec (Fault.single failing) s) ↔
      upfile ≠ none ∧ ∀ info, Entered config tmpPid failing s info →
        Followed failing s info ∨ s.photo (toString tmpPid) = some info := by
  cases upfile with
  | none =>
    refine ⟨?_, fun h => absurd rfl h.1⟩
    rintro (⟨pid, info, fileBytes, -, -, file, -⟩ | ⟨refused, -⟩)
    · cases file
    · exact absurd rfl (refused "")
  | some fileBytes =>
    rcases onPostImage_faulty config fileBytes tmpPid failing s with
      ⟨left, never⟩ | ⟨info, entered, only, left⟩
    · rw [left]
      refine ⟨fun _ => ⟨by simp, fun info entered => absurd entered (never info)⟩, fun _ => ?_⟩
      exact .inr ⟨by simp, rfl, rfl⟩
    · have row : (s.setPhoto (toString tmpPid) (some info)).photo (toString tmpPid) =
          some info := by
        rw [World.photo_setPhoto entered.photos, if_pos rfl]
      have followed : Followed failing s info ↔ 0 ≤ info.lvid.toInt ∧
          (s.setPhoto (toString tmpPid) (some info)).HasVolume (lv info.lvid) ∧
          failing.map (fun n => n - 2) ≠ some 0 ∧ failing.map (fun n => n - 2) ≠ some 1 :=
        followed_iff entered.query entered.insert
      have photo : (∀ other, Entered config tmpPid failing s other →
          Followed failing s other ∨ s.photo (toString tmpPid) = some other) ↔
          Followed failing s info ∨ s.photo (toString tmpPid) = some info :=
        ⟨fun h => h info entered, fun h other also => only other also ▸ h⟩
      rw [left, photo]
      rcases prepareImage_faulty tmpPid info fileBytes (s.setPhoto (toString tmpPid) (some info))
        (failing.map (fun n => n - 2)) with ⟨done, good⟩ | ⟨done, bad⟩
      · rw [done]
        refine ⟨fun _ => ⟨by simp, .inl (followed.mpr good)⟩, fun _ => .inl ?_⟩
        refine ⟨toString tmpPid, info, fileBytes, rfl, toString_long_ne_empty tmpPid, rfl, row, ?_⟩
        rw [World.image_setImage _ _ _ _ good.2.1, if_pos ⟨rfl, rfl⟩]
      · rw [done, or_iff_right (fun h => bad (followed.mp h))]
        constructor
        · rintro (⟨pid, _, _, replied, -⟩ | ⟨-, same, -⟩)
          · cases replied
          · refine ⟨by simp, ?_⟩
            rw [← row, World.photo, World.photo, same]
        · rintro ⟨-, there⟩
          refine .inr ⟨by simp, ?_, rfl⟩
          exact photoInfo_setPhoto_same there

/-- A request without a file is told 201 with an empty pid, and an upload whose last
call fails leaves its row behind. -/
theorem upload_leaves_row :
    ¬ AllOrNothing none .shipped
      ((onPostImage .shipped none 7).faulty exec (Fault.single none) .shipped) ∧
    ¬ AllOrNothing (some [1]) .shipped
      ((onPostImage .shipped (some [1]) 7).faulty exec (Fault.single (some 3)) .shipped) := by
  constructor
  · rintro (⟨pid, info, fileBytes, -, -, file, -⟩ | ⟨refused, -⟩)
    · cases file
    · exact refused "" rfl
  · obtain ⟨-, never⟩ | ⟨info, entered, -, ran⟩ :=
      onPostImage_faulty .shipped [1] 7 (some 3) .shipped
    · have row : RowFor .shipped ⟨[(1, 1), (2, 1)], by decide⟩ 7 ⟨"unix5.andrew.cmu.edu:9876", 2⟩ :=
        placement_iff.mp rfl
      exact absurd ⟨⟨_, rfl, row⟩, rfl, by simp, by simp⟩ (never _)
    · obtain ⟨-, -, -, -, kept⟩ | ⟨cut, -⟩ := prepareImage_faulty 7 info [1]
        (World.shipped.setPhoto (toString (7 : Int64)) (some info)) (some 1)
      · exact absurd rfl kept
      · rw [ran, Option.map_some, cut]
        rintro (⟨pid, _, fileBytes, replied, -⟩ | ⟨-, same, -⟩)
        · cases replied
        · have there := World.photo_setPhoto entered.photos (toString (7 : Int64))
            (toString (7 : Int64)) (some info)
          rw [if_pos rfl, World.photo, same] at there
          cases there

end Haystack.WebServer
