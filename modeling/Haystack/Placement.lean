import Haystack.Handlers

/-! Where an upload goes. The volume and the cache server are functions of the
clock reading alone, as long as store_info lists every volume as writable. -/
namespace Haystack

open Calls Cql Java

structure HSConfig.Valid (config : HSConfig) : Prop where
  volumes : 1 ≤ config.numLogicalVolumes.toInt
  caches : config.objectCacheAddresses ≠ []

def StoreInfo.Covers (n : Int32) (table : StoreInfo) : Prop :=
  ∀ row, row ∈ table.rows ↔ (1 ≤ row.1.toInt ∧ row.1.toInt ≤ n.toInt) ∧ row.2 = 1

namespace WebServer

variable {config : HSConfig} {tmpPid : Int64} {table : StoreInfo}

theorem proposedLvid_range {n : Int32} (nonneg : 0 ≤ tmpPid.toInt) (positive : 1 ≤ n.toInt) :
    ∃ k, proposedLvid tmpPid n = .ok k ∧ k.toInt = tmpPid.toInt % n.toInt + 1 ∧
      1 ≤ k.toInt ∧ k.toInt ≤ n.toInt := by
  have widened : n.toInt64.toInt = n.toInt := Int32.toInt_toInt64 n
  have upper := n.toInt_lt
  obtain ⟨r, answer, lower, below, value⟩ := remainder_range nonneg (b := n.toInt64) (by omega)
  rw [widened] at below value
  have narrowed : r.toInt32.toInt = r.toInt := narrow_toInt lower (by omega)
  have next : (r.toInt32 + 1).toInt = r.toInt32.toInt + 1 := succ_toInt (by omega) (by omega)
  refine ⟨r.toInt32 + 1, by simp [proposedLvid, answer, Except.map], ?_, ?_, ?_⟩ <;> omega

theorem getInt_storeRow (row : Int32 × Int32) : Row.getInt (storeRow row) "lvid" = .ok row.1 := rfl

theorem scanVolumes_eq (proposed : Int32) (rows : List (Int32 × Int32)) :
    scanVolumes proposed (rows.map storeRow) =
      .ok (match rows.dropWhile (fun row => row.1 != proposed) with
        | [] => (0, [])
        | _ :: rest => (proposed, rest.map storeRow)) := by
  induction rows with
  | nil => rfl
  | cons row rows ih =>
    simp only [List.map_cons, scanVolumes, getInt_storeRow, bind, Except.bind]
    by_cases hit : row.1 = proposed
    · simp [hit]
    · rw [if_neg hit, ih]
      simp [hit]

theorem selectLvid_iff {n k : Int32} : selectLvid table.writable tmpPid n = .ok k ↔
    ∃ proposed, proposedLvid tmpPid n = .ok proposed ∧
      if proposed = 0 then ((table.rows.filter (fun row => row.2 == 1)).dropWhile
        (fun row => row.1 != 0)).tail.head?.map Prod.fst = some k
      else k = proposed ∧ (proposed, 1) ∈ table.rows := by
  unfold selectLvid StoreInfo.writable
  cases given : proposedLvid tmpPid n with
  | error e => simp [bind, Except.bind]
  | ok proposed =>
    simp only [bind, Except.bind, scanVolumes_eq, Except.ok.injEq, exists_eq_left']
    have listed : (proposed, 1) ∈ table.rows ↔
        (table.rows.filter (fun row => row.2 == 1)).dropWhile
          (fun row => row.1 != proposed) ≠ [] := by
      rw [ne_eq, List.dropWhile_eq_nil_iff]
      simp
    cases left : (table.rows.filter (fun row => row.2 == 1)).dropWhile
      (fun row => row.1 != proposed) with
    | nil =>
      rw [left] at listed
      by_cases zero : proposed = 0
      · subst zero
        simp [left]
      · simp [zero, listed]
    | cons row rest =>
      rw [left] at listed
      by_cases zero : proposed = 0
      · subst zero
        cases rest <;> simp [left, getInt_storeRow]
      · simp [zero, listed, eq_comm]

theorem scanVolumes_listed {k : Int32} (listed : (k, 1) ∈ table.rows) :
    ∃ rest, scanVolumes k table.writable = .ok (k, rest) := by
  rw [StoreInfo.writable, scanVolumes_eq]
  cases left : (table.rows.filter (fun row => row.2 == 1)).dropWhile (fun row => row.1 != k) with
  | nil =>
    have passed := List.dropWhile_eq_nil_iff.mp left (k, 1) (by simp [listed])
    simp at passed
  | cons row rest => exact ⟨_, rfl⟩

theorem selectLvid_found {n k : Int32} (proposed : proposedLvid tmpPid n = .ok k) (nonzero : k ≠ 0)
    (listed : (k, 1) ∈ table.rows) : selectLvid table.writable tmpPid n = .ok k := by
  apply selectLvid_iff.mpr
  refine ⟨k, proposed, ?_⟩
  rw [if_neg nonzero]
  exact ⟨rfl, listed⟩

theorem selectLvid_listed {n k : Int32} (selected : selectLvid table.writable tmpPid n = .ok k) :
    (k, 1) ∈ table.rows := by
  obtain ⟨proposed, -, chosen⟩ := selectLvid_iff.mp selected
  split at chosen
  · obtain ⟨row, first, rfl⟩ := Option.map_eq_some_iff.mp chosen
    have dropped := List.mem_of_mem_tail (List.mem_of_mem_head? first)
    have kept := List.mem_filter.mp ((List.dropWhile_sublist _).mem dropped)
    have writable : row.2 = 1 := by simpa using kept.2
    rw [← writable]
    exact kept.1
  · rw [chosen.1]
    exact chosen.2

theorem placement_listed {info : PhotoInfo} (placed : placement config table tmpPid = .ok info) :
    (info.lvid, 1) ∈ table.rows := by
  unfold placement at placed
  cases selected : selectLvid table.writable tmpPid config.numLogicalVolumes with
  | error e => simp [selected, bind, Except.bind] at placed
  | ok k =>
    cases address : selectCacheUrl config tmpPid with
    | error e => simp [selected, address, bind, Except.bind] at placed
    | ok url =>
      simp only [selected, address, bind, Except.bind, pure, Except.pure, Except.ok.injEq] at placed
      subst placed
      exact selectLvid_listed selected

theorem selectCacheUrl_found (nonneg : 0 ≤ tmpPid.toInt)
    (caches : config.objectCacheAddresses ≠ []) :
    ∃ address, config.objectCacheAddresses[
        (tmpPid.toInt % (config.objectCacheAddresses.length : Int)).toNat]? = some address ∧
      selectCacheUrl config tmpPid = .ok (address ++ ":" ++ toString config.objectCachePort) := by
  have bounded := config.bounded
  have positive : 0 < config.objectCacheAddresses.length := List.length_pos_iff.mpr caches
  have length : (Int32.ofNat config.objectCacheAddresses.length).toInt64.toInt =
      (config.objectCacheAddresses.length : Int) := by
    rw [Int32.toInt_toInt64]
    exact Int32.toInt_ofNat_of_lt bounded
  obtain ⟨r, answer, lower, below, value⟩ := remainder_range nonneg
    (b := (Int32.ofNat config.objectCacheAddresses.length).toInt64) (by omega)
  rw [length] at below value
  have narrowed : r.toInt32.toInt = r.toInt := narrow_toInt lower (by omega)
  have inside : r.toInt.toNat < config.objectCacheAddresses.length := by omega
  have counted : ¬ r.toInt32 < 0 := by
    rw [Int32.lt_iff_toInt_lt, narrowed]
    exact Int.not_lt.mpr lower
  refine ⟨config.objectCacheAddresses[r.toInt.toNat], ?_, ?_⟩
  · rw [← value]
    exact List.getElem?_eq_getElem inside
  · unfold selectCacheUrl
    simp only [answer, bind, Except.bind, if_neg counted, narrowed, List.getElem?_eq_getElem inside]

theorem placement_ok {k : Int32} {url : String}
    (selected : selectLvid table.writable tmpPid config.numLogicalVolumes = .ok k)
    (address : selectCacheUrl config tmpPid = .ok url) :
    placement config table tmpPid = .ok ⟨url, k⟩ := by
  unfold placement
  simp only [selected, address, bind, Except.bind, pure, Except.pure]

theorem placement_found (valid : config.Valid) (covers : table.Covers config.numLogicalVolumes)
    (nonneg : 0 ≤ tmpPid.toInt) : ∃ info address,
      placement config table tmpPid = .ok info ∧
      info.lvid.toInt = tmpPid.toInt % config.numLogicalVolumes.toInt + 1 ∧
      (1 ≤ info.lvid.toInt ∧ info.lvid.toInt ≤ config.numLogicalVolumes.toInt) ∧
      config.objectCacheAddresses[
        (tmpPid.toInt % (config.objectCacheAddresses.length : Int)).toNat]? = some address ∧
      info.cacheUrl = address ++ ":" ++ toString config.objectCachePort := by
  obtain ⟨k, proposed, value, range⟩ := proposedLvid_range nonneg valid.volumes
  obtain ⟨address, found, url⟩ := selectCacheUrl_found nonneg valid.caches
  have nonzero : k ≠ 0 := by
    rintro rfl
    simp at range
  have selected := selectLvid_found proposed nonzero ((covers (k, 1)).mpr ⟨range, rfl⟩)
  exact ⟨_, address, placement_ok selected url, value, range, found, rfl⟩

theorem selectLvid_scan (rows : List (Int32 × Int32)) {n k : Int32}
    (proposed : proposedLvid tmpPid n = .ok k) (nonzero : k ≠ 0) :
    selectLvid (rows.map storeRow) tmpPid n =
      if k ∈ rows.map Prod.fst then .ok k else .error .nullPointer := by
  simp only [selectLvid, proposed, bind, Except.bind, scanVolumes_eq]
  have listed : k ∈ rows.map Prod.fst ↔ rows.dropWhile (fun row => row.1 != k) ≠ [] := by
    rw [ne_eq, List.dropWhile_eq_nil_iff]
    simp
  cases left : rows.dropWhile (fun row => row.1 != k) with
  | nil =>
    rw [left] at listed
    simp [listed]
  | cons row rest =>
    rw [left] at listed
    simp [listed, nonzero]

/-- The volume that the selection is meant to pick from the returned rows: the proposed
one if it is among them, and the first one otherwise. -/
def Intended (rows : List (Int32 × Int32)) (proposed : Int) (k : Int32) : Prop :=
  (k.toInt = proposed ∧ k ∈ rows.map Prod.fst) ∨
    ((∀ row ∈ rows, row.1.toInt ≠ proposed) ∧ rows.head?.map Prod.fst = some k)

/-- In whatever order the writable rows are returned, the selection completes and picks
the intended volume exactly if the proposed one is listed as writable. -/
theorem selection_completes_iff {rows : List (Int32 × Int32)} {n : Int32}
    (order : rows.Perm (table.rows.filter (fun row => row.2 == 1))) (positive : 1 ≤ n.toInt)
    (nonneg : 0 ≤ tmpPid.toInt) :
    (∃ k, selectLvid (rows.map storeRow) tmpPid n = .ok k ∧
      Intended rows (tmpPid.toInt % n.toInt + 1) k) ↔
    ∃ k : Int32, k.toInt = tmpPid.toInt % n.toInt + 1 ∧ (k, 1) ∈ table.rows := by
  obtain ⟨k, proposed, value, range⟩ := proposedLvid_range nonneg positive
  have nonzero : k ≠ 0 := by
    rintro rfl
    simp at range
  have returned : k ∈ rows.map Prod.fst ↔ (k, 1) ∈ table.rows := by
    rw [(order.map Prod.fst).mem_iff]
    simp
  rw [selectLvid_scan rows proposed nonzero]
  constructor
  · rintro ⟨picked, selected, -⟩
    split at selected
    · rename_i listed
      exact ⟨k, value, returned.mp listed⟩
    · cases selected
  · rintro ⟨j, same, listed⟩
    cases Int32.toInt_inj.mp (same.trans value.symm)
    have there := returned.mpr listed
    exact ⟨k, if_pos there, .inl ⟨value, there⟩⟩

/-- Volume 2 is not writable and the clock proposes it: the loop runs to the end of the
rows and the fallback fails, although volume 1 was returned. -/
theorem selection_throws :
    (⟨[(1, 1), (2, 0)], by decide⟩ : StoreInfo).writable =
    [((1 : Int32), (1 : Int32))].map storeRow ∧
    selectLvid ([((1 : Int32), (1 : Int32))].map storeRow) 7 2 = .error .nullPointer :=
  ⟨rfl, rfl⟩

theorem selection_completes_listed : ∃ k,
    selectLvid ([((1 : Int32), (1 : Int32))].map storeRow) 6 2 = .ok k ∧
      Intended [(1, 1)] ((6 : Int64).toInt % (2 : Int32).toInt + 1) k := by
  have order : [((1 : Int32), (1 : Int32))].Perm
      ((⟨[(1, 1), (2, 0)], by decide⟩ : StoreInfo).rows.filter (fun row => row.2 == 1)) := .refl _
  exact (selection_completes_iff order (by decide) (by decide)).mpr ⟨1, by decide, by decide⟩

end WebServer

end Haystack
