import Haystack.Sequential

/-! The pid of a request inside the directory queries that the web server glues
together from it. The pid is data in them exactly if it has no single quote. -/
namespace Haystack.WebServer

open Calls Cql Java

/-- The pid is only data in the query of a get and in the search of a delete: each text is
the lookup of this pid, the rows it finds have it as their key, and the redis key that is
filled or evicted is the key of the row that is redirected to or deleted. -/
structure PidIsData (pid : String) : Prop where
  getText : Statement.ofText (selectPhoto pid) =
    some (.select none "photo_info" [.eq "pid" (.value (.text pid))] false)
  deleteText : Statement.ofText (searchQuery pid) =
    some (.select (some ["pid", "cache_url", "lvid"])
    "photo_info" [.eq "pid" (.value (.text pid))] false)
  getRow : ∀ s t rows, exec (.execute .directory (selectPhoto pid) []) s = .ok (t, rows) →
    ∀ row ∈ rows, row.getString "pid" = .ok pid
  deleteRow : ∀ s t rows, exec (.execute .directory (searchQuery pid) []) s = .ok (t, rows) →
    ∀ row ∈ rows, row.getString "pid" = .ok pid
  getKey : ∀ server s, ((onGetImage server pid).run exec s).1 = s ∨
    ∃ info, s.photo pid = some info ∧
    (onGetImage server pid).run exec s =
      (s.setRedis server pid (some (info.path pid)), .ok (.redirect (info.path pid)))
  deleteKey : ∀ server s, ((onDelete server pid).run exec s).1 = s.setRedis server pid none ∨
    ∃ info, s.photo pid = some info ∧ (onDelete server pid).run exec s =
      ((s.setRedis server pid none).setPhoto pid none, .ok (.result 200 "Image deleted."))

variable {pid : String}

theorem photoSelect_key {query : String} {columns : Option (List String)}
    (text : Statement.ofText query =
      some (.select columns "photo_info" [.eq "pid" (.value (.text pid))] false))
    (all : columns = none ∨ columns = some ["pid", "cache_url", "lvid"]) {s t : World}
    {rows : List Row} (answered : exec (.execute .directory query []) s = .ok (t, rows)) :
    ∀ row ∈ rows, row.getString "pid" = .ok pid := by
  by_cases created : s.HasPhotos
  · cases (exec_photoSelect text all created).symm.trans answered
    intro row member
    obtain ⟨info, -, rfl⟩ : ∃ info, s.photo pid = some info ∧ info.row pid = row := by
      simpa using member
    rfl
  · cases (exec_photoSelect_refused text created).symm.trans answered

theorem onGetImage_key (plain : Plain pid) (server : Nat) (s : World) :
    ((onGetImage server pid).run exec s).1 = s ∨ ∃ info, s.photo pid = some info ∧
      (onGetImage server pid).run exec s =
        (s.setRedis server pid (some (info.path pid)), .ok (.redirect (info.path pid))) := by
  by_cases named : pid = ""
  · subst named
    exact .inl rfl
  rw [onGetImage_run named]
  cases usable (s.redis server pid) with
  | some url => exact .inl rfl
  | none =>
    dsimp only
    by_cases created : s.HasPhotos
    · rw [onCacheMiss_run plain created]
      cases row : s.photo pid with
      | none => exact .inl rfl
      | some info => exact .inr ⟨info, rfl, rfl⟩
    · obtain ⟨next, tree, -⟩ := onCacheMiss_rows server pid
      rw [tree, Program.run_call_error exec
        (exec_photoSelect_refused (ofText_selectPhoto plain) created)]
      exact .inl rfl

theorem onDelete_key (plain : Plain pid) (server : Nat) (s : World) :
    ((onDelete server pid).run exec s).1 = s.setRedis server pid none ∨
      ∃ info, s.photo pid = some info ∧ (onDelete server pid).run exec s =
        ((s.setRedis server pid none).setPhoto pid none, .ok (.result 200 "Image deleted.")) := by
  by_cases created : s.HasPhotos
  · rw [onDelete_run server plain created]
    cases row : s.photo pid with
    | none => exact .inl rfl
    | some info => exact .inr ⟨info, rfl, rfl⟩
  · obtain ⟨next, tree, -⟩ := searchRow_eq pid
    have absent : ¬ (s.setRedis server pid none).HasPhotos := created
    rw [onDelete_eq, Program.run_call_ok exec (r := ()) (t := s.setRedis server pid none) rfl, tree,
      Program.run_call_error exec (exec_photoSelect_refused (ofText_searchQuery plain) absent)]
    exact .inl rfl

theorem plain_of_selectPhoto (data : Statement.ofText (selectPhoto pid) =
    some (.select none "photo_info" [.eq "pid" (.value (.text pid))] false)) : Plain pid := by
  have opened : scan .blank "SELECT * FROM photo_info WHERE pid='".toList =
      some (.text [], [.word "select", .punct '*', .word "from", .word "photo_info",
        .word "where", .word "pid", .punct '=']) := by decide
  unfold selectPhoto at data
  rw [String.append_assoc] at data
  obtain ⟨s, more, filtering, same, bound⟩ := Statement.ofText_literal opened (fun _ => rfl) data
  cases same
  rw [String.toList_append, List.count_append, List.length_append] at bound
  have last : "'".toList = ['\''] := rfl
  rw [last, List.count_singleton_self, List.length_singleton, ← String.length_toList] at bound
  exact List.count_eq_zero.mp (by omega)

/-- A pid is data in the queries exactly if it has no single quote. -/
theorem pid_is_data_iff (pid : String) : PidIsData pid ↔ Plain pid := by
  constructor
  · intro data
    exact plain_of_selectPhoto data.getText
  · intro plain
    refine ⟨ofText_selectPhoto plain, ofText_searchQuery plain, ?_, ?_, onGetImage_key plain,
      onDelete_key plain⟩
    · intro s t rows answered
      exact photoSelect_key (ofText_selectPhoto plain) (.inl rfl) answered
    · intro s t rows answered
      exact photoSelect_key (ofText_searchQuery plain) (.inr rfl) answered

theorem ofText_selectPhoto_comment : Statement.ofText (selectPhoto "7'--") =
    some (.select none "photo_info" [.eq "pid" (.value (.text "7"))] false) := by
  have read : lex (selectPhoto "7'--") = some [.word "select", .punct '*', .word "from",
    .word "photo_info", .word "where", .word "pid", .punct '=', .text "7"] := by decide
  rw [Statement.ofText, read]
  rfl

theorem ofText_searchQuery_comment : Statement.ofText (searchQuery "7'--") =
    some (.select (some ["pid", "cache_url", "lvid"]) "photo_info" [.eq "pid" (.value (.text "7"))]
      false) := by
  have read : lex (searchQuery "7'--") = some [.word "select", .word "pid", .punct ',',
    .word "cache_url", .punct ',', .word "lvid", .word "from", .word "photo_info", .word "where",
    .word "pid", .punct '=', .text "7"] := by decide
  rw [Statement.ofText, read]
  rfl

/-- A pid that closes its literal and comments out the rest reads as photo 7: a get redirects
to that photo and fills another key, and a delete removes it and evicts another key. -/
theorem pid_reads_as_other :
    ¬ PidIsData "7'--" ∧
    Statement.ofText (selectPhoto "7'--") =
      some (.select none "photo_info" [.eq "pid" (.value (.text "7"))] false) ∧
    (onGetImage 0 "7'--").run exec (World.shippedPhoto [1]) =
      ((World.shippedPhoto [1]).setRedis 0 "7'--"
          (some "http://unix5.andrew.cmu.edu:9876/get?lvid=2&pid=7"),
        .ok (.redirect "http://unix5.andrew.cmu.edu:9876/get?lvid=2&pid=7")) ∧
    (onDelete 0 "7'--").run exec (World.shippedPhoto [1]) =
      (((World.shippedPhoto [1]).setRedis 0 "7'--" none).setPhoto "7" none,
        .ok (.result 200 "Image deleted.")) := by
  have photos := (World.shippedPhoto_fits [1]).photos
  have missed : usable ((World.shippedPhoto [1]).redis 0 "7'--") = none := rfl
  refine ⟨?_, ofText_selectPhoto_comment, ?_, ?_⟩
  · intro data
    exact absurd (plain_of_selectPhoto data.getText) (by decide)
  · rw [onGetImage_run (by decide), missed]
    dsimp only
    rw [onCacheMiss_reads 0 ofText_selectPhoto_comment photos, World.shippedPhoto_photo, if_pos rfl]
    rfl
  · rw [onDelete_reads 0 ofText_searchQuery_comment (by decide) photos, World.shippedPhoto_photo,
      if_pos rfl]

end Haystack.WebServer
