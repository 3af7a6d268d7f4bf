import Haystack.LvidText
import Haystack.Http

/-! Texts rebuilt from stored data. Whatever the requests are, the keys of photo_info and of
the volume tables are decimal renderings of clock readings, so a row can be put into a query
or a URL and is read back as it was. -/
namespace Haystack

open Calls Cql Java

/-- The text is a select with more quotes than the two that the web server writes. -/
def altered (query : String) : Bool :=
  "SELECT".toList.isPrefixOf query.toList && 2 < query.toList.count '\''

/-- How the directory answers a select that a pid has altered, from the number of those it has
answered, the text and the rows there are: it fails, or returns the rows of some keys. -/
abbrev Reading := Nat → String → World → Option (List String)

def World.existing (s : World) (ps : List String) : List Row :=
  ps.filterMap (fun p => (s.photo p).map (PhotoInfo.row p))

def Reading.exec (reading : Reading) (store : Engine) :
    (c : Call) → World × Nat → Except Exception ((World × Nat) × Answer c)
  | .execute .directory query values, s =>
    if altered query then
      match reading s.2 query s.1 with
      | none => .error .invalidQuery
      | some ps => .ok ((s.1, s.2 + 1), s.1.existing ps)
    else (store.exec (.execute .directory query values) s.1).map (fun a => ((a.1, s.2), a.2))
  | c, s => (store.exec c s.1).map (fun a => ((a.1, s.2), a.2))

theorem plain_of_unaltered {front back pid : String} (select : "SELECT".toList <+: front.toList)
    (quotes : front.toList.count '\'' + back.toList.count '\'' = 2)
    (unaltered : altered (front ++ pid ++ back) = false) : Plain pid := by
  have opened : "SELECT".toList.isPrefixOf (front ++ pid ++ back).toList = true := by
    rw [List.isPrefixOf_iff_prefix, String.toList_append, String.toList_append, List.append_assoc]
    exact select.trans (List.prefix_append _ _)
  have few : ¬ 2 < (front ++ pid ++ back).toList.count '\'' := by
    simpa only [altered, opened, Bool.true_and, decide_eq_false_iff_not] using unaltered
  simp only [String.toList_append, List.count_append] at few
  exact List.count_eq_zero.mp (by omega)

def Unaltered : Call → Prop
  | .execute .directory query _ => altered query = false
  | _ => True

theorem Reading.exec_unaltered {reading : Reading} {store : Engine} {c : Call} {s t : World × Nat}
    {r : Answer c} (unaltered : Unaltered c) (answer : reading.exec store c s = .ok (t, r)) :
    store.exec c s.1 = .ok (t.1, r) := by
  have mapped : (store.exec c s.1).map (fun a => ((a.1, s.2), a.2)) = .ok (t, r) := by
    cases c with
    | execute session query values =>
      cases session with
      | directory =>
        have same : altered query = false := unaltered
        simpa only [Reading.exec, same, Bool.false_eq_true, if_false] using answer
      | store => exact answer
    | _ => exact answer
  cases found : store.exec c s.1 with
  | error e =>
    rw [found] at mapped
    cases mapped
  | ok a =>
    rw [found] at mapped
    cases mapped
    rfl

theorem mem_existing {s : World} {ps : List String} {row : Row} (member : row ∈ s.existing ps) :
    ∃ q info, s.photo q = some info ∧ row = info.row q := by
  obtain ⟨q, -, found⟩ := List.mem_filterMap.mp member
  obtain ⟨info, there, rfl⟩ := Option.map_eq_some_iff.mp found
  exact ⟨q, info, there, rfl⟩

namespace WebServer

variable {reading : Reading} {store : Engine} {pid query : String} {s t : World × Nat}
    {rows : List Row}

theorem altered_lvidQuery : altered lvidQuery = false := by decide

theorem altered_insertQuery : altered insertQuery = false := by decide

def Selects (pid query : String) : Prop := query = selectPhoto pid ∨ query = searchQuery pid

theorem altered_delQuery (pid : String) : altered (delQuery pid) = false := by
  have letters : (delQuery pid).toList =
      "DELETE FROM photo_info WHERE pid = '".toList ++ (pid ++ "';").toList := by
    rw [← String.toList_append, ← String.append_assoc]
    rfl
  rw [altered, letters]
  rfl

theorem Selects.plain (selects : Selects pid query) (unaltered : altered query = false) :
    Plain pid := by
  rcases selects with rfl | rfl
  · exact plain_of_unaltered (by decide) (by decide) unaltered
  · exact plain_of_unaltered (by decide) (by decide) unaltered

theorem Selects.answer (selects : Selects pid query)
    (unaltered : altered query = false) {u v : World}
    (answer : exec (.execute .directory query []) u = .ok (v, rows)) :
    v = u ∧ rows = u.existing [pid] := by
  obtain ⟨columns, text, all⟩ : ∃ columns, Statement.ofText query =
      some (.select columns "photo_info" [.eq "pid" (.value (.text pid))] false) ∧
        (columns = none ∨ columns = some ["pid", "cache_url", "lvid"]) := by
    have plain := selects.plain unaltered
    rcases selects with rfl | rfl
    · exact ⟨_, ofText_selectPhoto plain, .inl rfl⟩
    · exact ⟨_, ofText_searchQuery plain, .inr rfl⟩
  by_cases created : u.HasPhotos
  · cases (exec_photoSelect text all created).symm.trans answer
    refine ⟨rfl, ?_⟩
    cases found : u.photo pid <;> simp [World.existing, found]
  · cases (exec_photoSelect_refused text created).symm.trans answer

theorem Selects.existing (selects : Selects pid query)
    (answer : reading.exec store (.execute .directory query []) s = .ok (t, rows)) :
    t.1 = s.1 ∧ ∀ row ∈ rows, ∃ q info, s.1.photo q = some info ∧ row = info.row q := by
  cases changed : altered query with
  | true =>
    simp only [Reading.exec, changed, if_true] at answer
    split at answer
    · cases answer
    · cases answer
      exact ⟨rfl, fun row member => mem_existing member⟩
  | false =>
    obtain ⟨same, rfl⟩ := selects.answer changed
      (Reading.exec_unaltered (c := .execute .directory query []) changed answer)
    exact ⟨same, fun row member => mem_existing member⟩

end WebServer

def HSConfig.cacheUrls (config : HSConfig) : List String :=
  config.objectCacheAddresses.map (fun address => address ++ ":" ++ toString config.objectCachePort)

theorem WebServer.selectCacheUrl_mem {config : HSConfig} {tmpPid : Int64} {url : String}
    (selected : selectCacheUrl config tmpPid = .ok url) : url ∈ config.cacheUrls := by
  simp only [selectCacheUrl] at selected
  cases answer : remainder tmpPid (Int32.ofNat config.objectCacheAddresses.length).toInt64 with
  | error e =>
    rw [answer] at selected
    cases selected
  | ok r =>
    simp only [answer, bind, Except.bind] at selected
    split at selected
    · cases selected
    · split at selected
      · cases selected
      · rename_i address found
        cases selected
        exact List.mem_map.mpr ⟨address, List.mem_of_getElem? found, rfl⟩

/-- The pid is the decimal rendering of the clock reading of an upload. -/
def Decimal (rs : List Request) (pid : String) : Prop := ∃ t ∈ readings rs, pid = toString t

/-- All keys are decimal, and the rows lead to cache servers of the configuration. -/
structure Stored (config : HSConfig) (rs : List Request) (s : World) : Prop where
  rows : ∀ pid info, s.photo pid = some info → Decimal rs pid ∧ info.cacheUrl ∈ config.cacheUrls
  images : ∀ table pid b, s.image table pid = some b → Decimal rs pid

theorem Decimal.plain {rs : List Request} {pid : String} (decimal : Decimal rs pid) :
    Plain pid := by
  obtain ⟨t, -, rfl⟩ := decimal
  exact plain_toString t

namespace Stored

variable {config : HSConfig} {charset : Charset} {rs : List Request} {s t : World} {pid : String}

theorem unchanged (stored : Stored config rs s) (directory : t.directory = s.directory)
    (store : t.store = s.store) : Stored config rs t := by
  constructor
  · intro pid info found
    exact stored.rows pid info (by simpa only [World.photo, directory] using found)
  · intro table pid b found
    exact stored.images table pid b (by simpa only [World.image, store] using found)

theorem setPhoto (stored : Stored config rs s) (created : s.HasPhotos) {entry : Option PhotoInfo}
    (known : ∀ info, entry = some info → Decimal rs pid ∧ info.cacheUrl ∈ config.cacheUrls) :
    Stored config rs (s.setPhoto pid entry) := by
  refine ⟨?_, stored.images⟩
  intro q info found
  rw [World.photo_setPhoto created] at found
  split at found
  · rename_i same
    exact same ▸ known info found
  · exact stored.rows q info found

theorem setImage (stored : Stored config rs s) {table : String} {b : Bytes}
    (created : s.HasVolume table)
    (decimal : Decimal rs pid) : Stored config rs (s.setImage table pid (some b)) := by
  refine ⟨stored.rows, ?_⟩
  intro place q b' found
  rw [World.image_setImage _ _ _ _ created] at found
  split at found
  · rename_i same
    exact same.2 ▸ decimal
  · exact stored.images place q b' found

end Stored

theorem Engine.exec_select {store : Engine} {st : Statement} {s t : World} {rows : List Row}
    (reads : st.writes = false)
    (answer : store.exec (.executeBound .store st) s = .ok (t, rows)) : t = s := by
  cases st with
  | select columns table relations filtering =>
    simp only [exec, executeScan, executeStore] at answer
    split at answer
    · split at answer
      · cases answer
      · split at answer <;> cases answer
        rfl
    · split at answer <;> cases answer
      rfl
  | further table clauses bound =>
    simp only [exec, executeFurther] at answer
    split at answer
    · cases answer
    · split at answer <;> cases answer
      rfl
  | insert _ _ _ | update _ _ _ | delete _ _ => cases reads

theorem CacheServer.searchPhoto_refused (pid : String) (s : World) :
    exec (.execute .store (searchPhoto pid) []) s = .error .invalidQuery := by
  cases accepted : Statement.ofText (searchPhoto pid) with
  | none => simp [exec, accepted, answerOr, Except.bind]
  | some st =>
    cases bound : st.bind [] with
    | none => simp [exec, accepted, bound, answerOr, Except.bind]
    | some filled =>
      rw [exec_execute accepted bound]
      obtain ⟨relations, filtering, rfl⟩ := ofText_searchPhoto accepted
      obtain ⟨given, rfl⟩ := Statement.bind_select bound
      simp only [executeOn, executeStore]
      split
      · rename_i columns
        exact absurd columns (by decide)
      · rfl

namespace Stored

variable {config : HSConfig} {charset : Charset} {rs : List Request} {reading : Reading}
  {store : Engine} {server : Nat} {lvid pid : String} {s : World × Nat}

def Kept (config : HSConfig) (rs : List Request) (reading : Reading) (store : Engine)
    (p : Handler Resp) : Prop :=
  ∀ s,
    p.Holds (.ofInvariant (fun s => Stored config rs s.1)) (reading.exec store) (fun _ _ => True) s

theorem kept_done (r : Resp) : Kept config rs reading store (.done r) := fun _ _ _ _ => trivial

theorem kept_redis {c : Call} {next : Answer c → Handler Resp} (redis : ToRedis c)
    (rest : ∀ r, Kept config rs reading store (next r)) :
    Kept config rs reading store (.call c next) := by
  intro s
  refine Program.holds_kept (fun s t r stored answer => ⟨?_, rest r t⟩)
  have plain : Unaltered c := by
    cases c <;> trivial
  have base : exec c s.1 = .ok (t.1, r) := by
    have answered := Reading.exec_unaltered plain answer
    cases c <;> first | exact answered | exact redis.elim
  obtain ⟨directory, volumes⟩ := exec_toRedis redis base
  exact stored.unchanged directory volumes

theorem kept_select {query : String} {next : List Row → Handler Resp}
    (selects : WebServer.Selects pid query) (missing : Kept config rs reading store (next []))
    (present : ∀ q info rows, Decimal rs q →
      Kept config rs reading store (next (PhotoInfo.row q info :: rows))) :
    Kept config rs reading store (.call (.execute .directory query []) next) := by
  intro s
  refine Program.holds_kept (fun s t rows stored answer => ?_)
  obtain ⟨same, existing⟩ := selects.existing answer
  refine ⟨same ▸ stored, ?_⟩
  cases rows with
  | nil => exact missing t
  | cons row rows =>
    obtain ⟨q, info, found, rfl⟩ := existing row List.mem_cons_self
    exact present q info rows (stored.rows q info found).1 t

theorem onGetImage_kept : Kept config rs reading store (WebServer.onGetImage server pid) := by
  by_cases named : pid = ""
  · subst named
    exact kept_done _
  obtain ⟨next, tree, continued⟩ := WebServer.onGetImage_eq server named
  obtain ⟨next', tree', missing, present⟩ := WebServer.onCacheMiss_rows server pid
  rw [tree]
  refine kept_redis trivial (fun m => ?_)
  rw [continued]
  cases WebServer.usable m with
  | some url => exact kept_done _
  | none =>
    rw [Option.elim_none, tree']
    refine kept_select (.inl rfl) ?_ ?_
    · rw [missing]
      exact kept_done _
    · intro q info rows _
      rw [present]
      exact kept_redis trivial (fun _ => kept_done _)

theorem deleteRow_kept (decimal : Decimal rs pid) :
    Kept config rs reading store (WebServer.deleteRow pid) := by
  intro s
  refine Program.holds_kept (fun s t rows stored answer => ⟨?_, kept_done _ t⟩)
  have unaltered : Unaltered (.execute .directory (WebServer.delQuery pid) []) :=
    WebServer.altered_delQuery pid
  have base : exec (.execute .directory (WebServer.delQuery pid) []) s.1 = .ok (t.1, rows) :=
    Reading.exec_unaltered unaltered answer
  by_cases created : s.1.HasPhotos
  · rw [WebServer.exec_delQuery decimal.plain created] at base
    injection base with base
    injection base with same
    rw [← same]
    exact stored.setPhoto created (by simp)
  · rw [exec_execute (WebServer.ofText_delQuery decimal.plain) rfl] at base
    have absent : s.1.directory.photoInfo = none := by simpa [World.HasPhotos] using created
    simp [executeOn, executeDirectory, absent] at base

theorem onDelete_kept : Kept config rs reading store (WebServer.onDelete server pid) := by
  obtain ⟨next, tree, missing, present⟩ := WebServer.searchRow_eq pid
  rw [WebServer.onDelete_eq]
  refine kept_redis trivial (fun _ => ?_)
  rw [tree]
  refine kept_select (.inr rfl) ?_ ?_
  · rw [missing]
    exact kept_done _
  · intro q info rows decimal
    rw [present]
    exact deleteRow_kept decimal

theorem kept_unaltered {c : Call} {next : Answer c → Handler Resp} (unaltered : Unaltered c)
    (rest : ∀ s t r, Stored config rs s → store.exec c s = .ok (t, r) →
      Stored config rs t ∧ Kept config rs reading store (next r)) :
    Kept config rs reading store (.call c next) := by
  intro s
  refine Program.holds_kept (fun s t r stored answer => ?_)
  have kept := rest s.1 t.1 r stored (Reading.exec_unaltered unaltered answer)
  exact ⟨kept.1, kept.2 t⟩

theorem kept_lift {β : Type} (x : Except Exception β) (f : β → Handler Resp)
    (rest : ∀ b, x = .ok b → Kept config rs reading store (f b)) :
    Kept config rs reading store (Program.lift x >>= f) :=
  fun s => Program.holds_lift x f (fun b same => rest b same s)

theorem onPostImage_kept {img : Option Bytes} {tmpPid : Int64}
    (own : ∀ b, img = some b → tmpPid ∈ readings rs) :
    Kept config rs reading store (WebServer.onPostImage config img tmpPid) := by
  cases img with
  | none => exact kept_done _
  | some b =>
    have decimal : Decimal rs (toString tmpPid) := ⟨tmpPid, own b rfl, rfl⟩
    simp only [WebServer.onPostImage, WebServer.dirSession, WebServer.storeSession, execute_bind,
      prepare_bind, executeBound_bind]
    refine kept_unaltered WebServer.altered_lvidQuery (fun s t rows stored answer => ⟨?_, ?_⟩)
    · cases present : s.directory.storeInfo with
      | none => cases (WebServer.exec_lvidQuery_refused present).symm.trans answer
      | some table =>
        cases (WebServer.exec_lvidQuery table present).symm.trans answer
        exact stored
    refine kept_lift _ _ (fun k _ => ?_)
    refine kept_lift _ _ (fun url selected => ?_)
    refine kept_unaltered WebServer.altered_insertQuery (fun s t rows stored answer => ⟨?_, ?_⟩)
    · by_cases created : s.HasPhotos
      · cases (WebServer.exec_insertQuery url k created).symm.trans answer
        apply stored.setPhoto created
        intro info same
        cases same
        exact ⟨decimal, WebServer.selectCacheUrl_mem selected⟩
      · cases (WebServer.exec_insertQuery_refused url k created).symm.trans answer
    refine kept_unaltered trivial (fun s t ps stored answer => ?_)
    obtain ⟨rfl, text, -⟩ := Engine.prepared answer
    refine ⟨stored, kept_lift _ _ (fun bound binding => ?_)⟩
    refine kept_unaltered trivial (fun s t rows stored answer => ⟨?_, kept_done _⟩)
    obtain ⟨created, rfl⟩ := Genuine.inserted text binding answer
    exact stored.setImage created decimal

theorem get_kept : Kept config rs reading store (CacheServer.get charset server lvid pid) := by
  by_cases named : lvid ≠ "" ∧ pid ≠ ""
  swap
  · have blank : lvid = "" ∨ pid = "" := by tauto
    unfold CacheServer.get
    rw [if_pos blank]
    exact kept_done _
  obtain ⟨next, tree, continued⟩ := CacheServer.get_eq charset server named
  rw [tree]
  refine kept_redis trivial (fun m => ?_)
  rw [continued]
  cases m with
  | some b => exact kept_done _
  | none =>
    rw [Option.elim_none, CacheServer.getMiss_tree]
    refine kept_unaltered trivial (fun s t ps stored answer => ?_)
    obtain ⟨rfl, text, -⟩ := Engine.prepared answer
    refine ⟨stored, kept_lift _ _ (fun bound binding => ?_)⟩
    have reads : ps.writes = false := by
      rcases CacheServer.read_selectImage text with ⟨_, _, _, rfl⟩ | ⟨_, _, rfl, -⟩ <;> rfl
    refine kept_unaltered trivial (fun s t rows stored answer => ⟨?_, ?_⟩)
    · have read := (Statement.writes_set (answerOr_ok binding)).trans reads
      rw [Engine.exec_select read answer]
      exact stored
    · unfold CacheServer.getRows
      split
      · exact kept_done _
      · exact kept_lift _ _ (fun b _ => kept_redis trivial (fun _ => kept_done _))

theorem delete_kept : Kept config rs reading store (CacheServer.delete charset server pid) := by
  obtain ⟨next, tree⟩ := CacheServer.delete_eq charset server pid
  rw [tree]
  refine kept_redis trivial (fun _ => ?_)
  refine kept_unaltered trivial (fun s t rows stored answer => ?_)
  cases (CacheServer.searchPhoto_refused pid s).symm.trans answer

theorem handler_kept {q : Request} (member : q ∈ rs) :
    Kept config rs reading store (handler config charset q) := by
  cases q with
  | upload web img t =>
    apply onPostImage_kept
    rintro b rfl
    exact mem_readings member
  | webGet server pid => exact onGetImage_kept
  | webDelete server pid => exact onDelete_kept
  | cacheGet server lvid pid => exact get_kept
  | cacheDelete server pid => exact delete_kept

end Stored

section Url

def delimiters : List Char := ['/', '?', '#', '&', '=']

variable {config : HSConfig} {rs : List Request}

theorem literal_decimal (n : Int) : Http.Literal (toString n) := by
  intro c member
  rcases digit_or_minus member with digit | rfl
  · rintro special
    fin_cases special <;> exact absurd digit (by decide)
  · decide

theorem absent_cacheUrl {url : String} {c : Char} (configured : url ∈ config.cacheUrls)
    (plain : ∀ address ∈ config.objectCacheAddresses, ∀ c ∈ delimiters, c ∉ address.toList)
    (delimiter : c ∈ delimiters) : c ∉ url.toList := by
  obtain ⟨address, listed, rfl⟩ := List.mem_map.mp configured
  simp only [String.toList_append, List.mem_append, not_or]
  refine ⟨⟨plain address listed c delimiter, ?_⟩, ?_⟩
  · fin_cases delimiter <;> decide
  · intro member
    rcases digit_or_minus member with digit | rfl
    · fin_cases delimiter <;> exact absurd digit (by decide)
    · exact absurd delimiter (by decide)

theorem toList_path (info : PhotoInfo) (pid : String) : (info.path pid).toList =
    "http://".toList ++ (info.cacheUrl.toList ++ '/' :: ("get".toList ++ '?' ::
      Http.queryText [("lvid", toString info.lvid), ("pid", pid)])) := by
  have question : "/get?".toList = '/' :: ("get".toList ++ ['?']) := rfl
  have first : "lvid=".toList = "lvid".toList ++ ['='] := rfl
  have second : "&pid=".toList = '&' :: ("pid".toList ++ ['=']) := rfl
  simp only [PhotoInfo.path, WebServer.photoPath, String.toList_append, question, first, second,
    Http.queryText, Http.fieldText, List.map_cons, List.map_nil, List.intercalate_cons_cons,
    List.intercalate_singleton, List.append_assoc, List.cons_append, List.nil_append]

theorem receive_path {info : PhotoInfo} {pid : String} (decimal : Decimal rs pid)
    (configured : info.cacheUrl ∈ config.cacheUrls)
    (plain : ∀ address ∈ config.objectCacheAddresses, ∀ c ∈ delimiters, c ∉ address.toList) :
    Http.receive (info.path pid) =
      some ⟨info.cacheUrl, "/get", [("lvid", toString info.lvid), ("pid", pid)]⟩ := by
  obtain ⟨t, -, rfl⟩ := decimal
  have names : Http.Literal "lvid" ∧ Http.Literal "pid" := by simp [Http.Literal]
  have literal : ∀ f ∈ [("lvid", toString info.lvid), ("pid", toString t)],
      Http.Literal f.1 ∧ Http.Literal f.2 := by
    intro f member
    rcases List.mem_cons.mp member with rfl | member
    · exact ⟨names.1, literal_decimal info.lvid.toInt⟩
    · cases List.mem_singleton.mp member
      exact ⟨names.2, literal_decimal t.toInt⟩
  exact Http.receive_url (absent_cacheUrl configured plain (by decide))
    (absent_cacheUrl configured plain (by decide)) (by decide) (by decide) literal (by simp)
    (toList_path info (toString t))

end Url

/-- In every run, whatever the requests are and wherever they are cut off, all keys are decimal
renderings of clock readings. The row that a select returns in the state that is reached is one
of the table; the deletion that is built from it removes this row and no other, at any later
time; and the URL that is built from it is received as the row. -/
theorem stored_text_reads_back {config : HSConfig} {charset : Charset} {reading : Reading}
    {store : Engine} {s : World} {es : List Happening}
    {p : Pool Request Answer (World × Nat) Exception Resp}
    (noRows : ∀ pid, s.photo pid = none) (noImages : ∀ table pid, s.image table pid = none)
    (run : (⟨(s, 0), []⟩ : Pool Request Answer (World × Nat) Exception Resp).runs
      (reading.exec store) (handler config charset) es = some p) :
    (∀ pid info, p.state.1.photo pid = some info → Decimal (started es) pid) ∧
    (∀ table pid b, p.state.1.image table pid = some b → Decimal (started es) pid) ∧
    ∀ pid query t rows row, WebServer.Selects pid query →
      reading.exec store (.execute .directory query []) p.state = .ok (t, rows) → row ∈ rows →
      ∃ resPid info, p.state.1.photo resPid = some info ∧ row.getString "pid" = .ok resPid ∧
        row.getString "cache_url" = .ok info.cacheUrl ∧ row.getInt "lvid" = .ok info.lvid ∧
        (∀ u : World, u.HasPhotos →
          exec (.execute .directory (WebServer.delQuery resPid) []) u =
            .ok (u.setPhoto resPid none, []) ∧
          ∀ q, (u.setPhoto resPid none).photo q = if q = resPid then none else u.photo q) ∧
        ((∀ address ∈ config.objectCacheAddresses, ∀ c ∈ delimiters, c ∉ address.toList) →
          Http.receive (WebServer.photoPath info.cacheUrl info.lvid resPid) =
            some ⟨info.cacheUrl, "/get", [("lvid", toString info.lvid), ("pid", resPid)]⟩) := by
  have start : Stored config (started es) s := by
    constructor
    · intro pid info found
      rw [noRows] at found
      cases found
    · intro table pid b found
      rw [noImages] at found
      cases found
  have stored : Stored config (started es) p.state.1 :=
    Pool.runs_invariant (I := fun s : World × Nat => Stored config (started es) s.1) start
      (fun q member => Stored.handler_kept member) run
  refine ⟨fun pid info found => (stored.rows pid info found).1, stored.images, ?_⟩
  intro pid query t rows row selects answer member
  obtain ⟨-, existing⟩ := selects.existing answer
  obtain ⟨resPid, info, found, rfl⟩ := existing row member
  obtain ⟨decimal, configured⟩ := stored.rows resPid info found
  refine ⟨resPid, info, found, rfl, rfl, rfl, ?_, ?_⟩
  · intro u created
    exact ⟨WebServer.exec_delQuery decimal.plain created,
      fun q => World.photo_setPhoto created resPid q none⟩
  · exact receive_path decimal configured

def Reading.seven : Reading := fun _ _ _ => some ["7"]

def uploadThenGet : List Happening :=
  [.start (.upload 0 (some [1]) 7), .step 0, .step 0, .step 0, .step 0,
    .start (.webGet 0 "' OR"), .step 1, .step 1, .step 1]

def sevenUrl : String := "unix5.andrew.cmu.edu:9876"

theorem stored_text_reads_back_seven :
    ∃ p : Pool Request Answer (World × Nat) Exception Resp,
      (⟨(World.shipped, 0), []⟩ : Pool Request Answer (World × Nat) Exception Resp).runs
        (Reading.seven.exec CacheServer.lookupsOnly) (handler .shipped .utf8) uploadThenGet =
          some p ∧
      p.state.1.photo "7" = some ⟨sevenUrl, 2⟩ ∧
      exec (.execute .directory (WebServer.delQuery "7") []) p.state.1 =
        .ok (p.state.1.setPhoto "7" none, []) ∧
      Http.receive (WebServer.photoPath sevenUrl 2 "7") =
        some ⟨sevenUrl, "/get", [("lvid", toString (2 : Int32)), ("pid", "7")]⟩ := by
  have evaluated : ((⟨(World.shipped, 0), []⟩ : Pool Request Answer (World × Nat) Exception
      Resp).runs (Reading.seven.exec CacheServer.lookupsOnly) (handler .shipped .utf8)
        uploadThenGet).map (fun p => (p.state.1.photo "7", decide p.state.1.HasPhotos)) =
      some (some ⟨sevenUrl, 2⟩, true) := by
    decide +kernel
  obtain ⟨p, run, seen⟩ := Option.map_eq_some_iff.mp evaluated
  simp only [Prod.mk.injEq, decide_eq_true_eq] at seen
  obtain ⟨photo, photos⟩ := seen
  have altered : altered (WebServer.selectPhoto "' OR") = true := by decide
  have answer : Reading.seven.exec CacheServer.lookupsOnly
      (.execute .directory (WebServer.selectPhoto "' OR") []) p.state =
        .ok ((p.state.1, p.state.2 + 1), p.state.1.existing ["7"]) := by
    simp only [Reading.exec, altered, if_true, Reading.seven]
  have member : PhotoInfo.row "7" ⟨sevenUrl, 2⟩ ∈ p.state.1.existing ["7"] := by
    simp [World.existing, photo]
  have empty := World.unused_shipped .utf8
  obtain ⟨resPid, info, found, name, cacheUrl, lvid, deleted, received⟩ :=
    (stored_text_reads_back (fun pid => (empty pid).photo)
      (fun table pid => (empty pid).image table) run).2.2 "' OR" _ _ _ _ (.inl rfl) answer member
  cases Except.ok.inj name
  cases Option.some.inj (photo.symm.trans found)
  have clean : ∀ address ∈ HSConfig.shipped.objectCacheAddresses, ∀ c ∈ delimiters,
      c ∉ address.toList := by
    intro address member
    cases List.mem_singleton.mp member
    simp [delimiters]
  exact ⟨p, run, photo, (deleted p.state.1 photos).1, received clean⟩

end Haystack
