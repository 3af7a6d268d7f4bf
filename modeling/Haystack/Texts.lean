import Haystack.CacheServer

/-! What the statement texts of the two servers say, and what executing them
does. A text that is glued together from request data is read for every value of that data
that leaves the rest of the text as it is written. -/
namespace Haystack

open Calls Cql Java

def lv (lvid : Int32) : String := "lv" ++ toString lvid

section Decimal

theorem plain_toString (t : Int64) : Plain (toString t) := by
  intro member
  rcases digit_or_minus member with digit | minus
  · exact absurd digit (by decide)
  · exact absurd minus (by decide)

theorem toString_long_ne_empty (t : Int64) : toString t ≠ "" := toString_ne_empty t.toInt

theorem isWordChar_of_isDigit {c : Char} (digit : c.isDigit = true) : isWordChar c = true := by
  simp [isWordChar, Char.isAlphanum, digit]

theorem of_isDigit {P : Char → Prop}
    (h : ∀ n < 128, (Char.ofNat n).isDigit = true → P (Char.ofNat n))
    {c : Char} (digit : c.isDigit = true) : P c := by
  have small : c.toNat < 128 := by
    simp only [Char.isDigit, Bool.and_eq_true, decide_eq_true_eq, UInt32.le_iff_toNat_le] at digit
    exact Nat.lt_of_le_of_lt digit.2 (by decide)
  have checked := h c.toNat small
  rw [Char.ofNat_toNat] at checked
  exact checked digit

theorem toLower_of_isDigit {c : Char} (digit : c.isDigit = true) : c.toLower = c :=
  of_isDigit (P := fun c => c.toLower = c) (by decide) digit

theorem digit_after_dash {c : Char} (digit : c.isDigit = true) (read : List Char) :
    scan (.wordDash read) [c] = some (.number (c :: '-' :: read), []) := by
  have other : c ≠ '-' := by
    rintro rfl
    exact absurd digit (by decide)
  simp [scan, step, afterDash, other, isWordChar_of_isDigit digit]

theorem wordlike_toString {k : Int32} (nonneg : 0 ≤ k.toInt) : Wordlike (toString k) :=
  fun _ member => isWordChar_of_isDigit (digits_of_nonneg nonneg member)

theorem lowered_toString {k : Int32} (nonneg : 0 ≤ k.toInt) :
    lowered (toString k) = toString k := by
  have same : (toString k).toList.map Char.toLower = (toString k).toList := by
    conv_rhs => rw [← List.map_id (toString k).toList]
    exact List.map_congr_left fun c member => toLower_of_isDigit (digits_of_nonneg nonneg member)
  rw [lowered, same, String.ofList_toList]

end Decimal

namespace WebServer

theorem ofText_selectPhoto {pid : String} (plain : Plain pid) :
    Statement.ofText (selectPhoto pid) =
      some (.select none "photo_info" [.eq "pid" (.value (.text pid))] false) := by
  unfold Statement.ofText selectPhoto
  rw [lex_literal _ _ _ [.word "select", .punct '*', .word "from", .word "photo_info",
    .word "where", .word "pid", .punct '='] [] plain (by decide) (fun _ => rfl)]
  rfl

theorem ofText_searchQuery {pid : String} (plain : Plain pid) :
    Statement.ofText (searchQuery pid) = some (.select (some ["pid", "cache_url", "lvid"])
      "photo_info" [.eq "pid" (.value (.text pid))] false) := by
  unfold Statement.ofText searchQuery
  rw [lex_literal _ _ _ [.word "select", .word "pid", .punct ',', .word "cache_url", .punct ',',
    .word "lvid", .word "from", .word "photo_info", .word "where", .word "pid", .punct '=']
    [.punct ';'] plain (by decide) (fun _ => rfl)]
  rfl

theorem ofText_searchQuery_any {pid : String} {st : Statement}
    (accepted : Statement.ofText (searchQuery pid) = some st) : ∃ relations filtering,
      st = .select (some ["pid", "cache_url", "lvid"]) "photo_info" relations filtering := by
  have opened : scan .blank "SELECT pid, cache_url, lvid FROM photo_info WHERE pid = '".toList =
      some (.text [], [.word "select", .word "pid", .punct ',', .word "cache_url", .punct ',',
        .word "lvid", .word "from", .word "photo_info", .word "where", .word "pid",
        .punct '=']) := by
    decide
  unfold searchQuery at accepted
  rw [String.append_assoc] at accepted
  exact Statement.ofText_selection [.word "where", .word "pid", .punct '='] opened
    (fun _ => rfl) accepted

theorem ofText_delQuery {pid : String} (plain : Plain pid) :
    Statement.ofText (delQuery pid) =
      some (.delete "photo_info" [.eq "pid" (.value (.text pid))]) := by
  unfold Statement.ofText delQuery
  rw [lex_literal _ _ _ [.word "delete", .word "from", .word "photo_info", .word "where",
    .word "pid", .punct '='] [.punct ';'] plain (by decide) (fun _ => rfl)]
  rfl

theorem ofText_lvidQuery : Statement.ofText lvidQuery =
    some (.select none "store_info" [.eq "status" (.value (.int 1))] true) := by
  have read : lex lvidQuery = some [.word "select", .punct '*', .word "from", .word "store_info",
    .word "where", .word "status", .punct '=', .number "1", .word "allow", .word "filtering",
    .punct ';'] := by decide
  rw [Statement.ofText, read]
  rfl

theorem ofText_insertQuery : Statement.ofText insertQuery =
    some (.insert "photo_info" ["pid", "cache_url", "lvid"]
      [.positional, .positional, .positional]) := by
  have read : lex insertQuery = some [.word "insert", .word "into", .word "photo_info", .punct '(',
    .word "pid", .punct ',', .word "cache_url", .punct ',', .word "lvid", .punct ')',
    .word "values",
    .punct '(', .punct '?', .punct ',', .punct '?', .punct ',', .punct '?', .punct ')',
    .punct ';'] := by decide
  rw [Statement.ofText, read]
  rfl

theorem ofText_updateQuery : Statement.ofText updateQuery =
    some (.update "store_info" [("status", .positional)] [.eq "lvid" .positional]) := by
  have read : lex updateQuery =
      some [.word "update", .word "store_info", .word "set", .word "status",
    .punct '=', .punct '?', .word "where", .word "lvid", .punct '=', .punct '?',
    .punct ';'] := by decide
  rw [Statement.ofText, read]
  rfl

theorem ofText_insertImage {k : Int32} (nonneg : 0 ≤ k.toInt) :
    Statement.ofText (insertImage k) =
      some (.insert (lv k) ["pid", "image"] [.named "pid", .named "image"]) := by
  unfold Statement.ofText insertImage
  rw [lex_word ("INSERT INTO " ++ "lv") "lv" _ _ [.word "insert", .word "into"]
    [.punct '(', .word "pid", .punct ',', .word "image", .punct ')', .word "values",
      .punct '(', .punct ':', .word "pid", .punct ',', .punct ':', .word "image", .punct ')',
      .punct ';'] (wordlike_toString nonneg) (by decide) (fun _ => rfl),
    lowered_toString nonneg]
  rfl

theorem ofText_insertImage_negative {k : Int32} (negative : k.toInt < 0) :
    Statement.ofText (insertImage k) = none := by
  have sign : toString k = "-" ++ Nat.repr (-k.toInt).toNat := by
    change toString k.toInt = _
    rw [Int.toString_eq_repr, Int.repr_eq_if, if_neg (by omega)]
  obtain ⟨c, cs, digits⟩ := List.exists_cons_of_ne_nil
    (show (Nat.repr (-k.toInt).toNat).toList ≠ [] by simp)
  have digit : c.isDigit = true := by
    have member : c ∈ (Nat.repr (-k.toInt).toNat).toList := digits ▸ List.mem_cons_self
    simp only [Nat.repr, String.toList_ofList] at member
    exact Nat.isDigit_of_mem_toDigits (by decide) (by decide) member
  have opened : scan .blank ("INSERT INTO " ++ "lv" ++ "-").toList =
      some (.wordDash ['v', 'l'], [.word "insert", .word "into"]) := by decide
  have letters : (insertImage k).toList = ("INSERT INTO " ++ "lv" ++ "-").toList ++
      ([c] ++ (cs ++ " (pid, image) VALUES (:pid, :image);".toList)) := by
    simp only [insertImage, sign, String.toList_append, digits, List.append_assoc, List.cons_append,
      List.nil_append]
  unfold Statement.ofText lex
  rw [letters, lexFrom_append opened, lexFrom_append (digit_after_dash digit _), Option.map_map]
  cases read : lexFrom (.number [c, '-', 'v', 'l'])
      (cs ++ " (pid, image) VALUES (:pid, :image);".toList) with
  | none => rfl
  | some us =>
    obtain ⟨s, vs, rfl⟩ := lexFrom_number.1 read
    rfl

theorem read_insertImage_negative {k : Int32} (negative : k.toInt < 0) :
    Statement.read (insertImage k) = none := by
  have opened : scan .blank "INSERT INTO lv".toList =
      some (.word ['v', 'l'], [.word "insert", .word "into"]) := by decide
  have letters : insertImage k =
      "INSERT INTO lv" ++ (toString k ++ " (pid, image) VALUES (:pid, :image);") :=
    String.append_assoc
  rw [Statement.read, ofText_insertImage_negative negative, Option.none_or, letters, lex,
    String.toList_append, lexFrom_append opened]
  cases lexFrom (.word ['v', 'l']) (toString k ++ " (pid, image) VALUES (:pid, :image);").toList <;>
    rfl

end WebServer

namespace CacheServer

theorem ofText_selectImage {lvid : String} (word : Wordlike lvid) :
    Statement.ofText (selectImage lvid) =
      some (.select none ("lv" ++ lowered lvid) [.eq "pid" (.named "pid")] false) := by
  unfold Statement.ofText selectImage
  have joint : "SELECT * FROM lv" ++ lvid ++ " WHERE pid= " ++ ":pid" =
      "SELECT * FROM lv" ++ lvid ++ (" WHERE pid= " ++ ":pid") := String.append_assoc
  rw [joint, lex_word "SELECT * FROM lv" "lv" _ _ [.word "select", .punct '*', .word "from"]
    [.word "where", .word "pid", .punct '=', .punct ':', .word "pid"]
    word (by decide) (fun _ => rfl)]
  rfl

theorem ofText_searchPhoto {pid : String} {st : Statement}
    (accepted : Statement.ofText (searchPhoto pid) = some st) : ∃ relations filtering,
      st = .select (some ["pid", "cache_url", "lvid"]) "photo" relations filtering := by
  have opened : scan .blank "SELECT pid, cache_url, lvid FROM photo WHERE pid = '".toList =
      some (.text [], [.word "select", .word "pid", .punct ',', .word "cache_url", .punct ',',
        .word "lvid", .word "from", .word "photo", .word "where", .word "pid", .punct '=']) := by
    decide
  unfold searchPhoto at accepted
  rw [String.append_assoc] at accepted
  exact Statement.ofText_selection [.word "where", .word "pid", .punct '='] opened
    (fun _ => rfl) accepted

end CacheServer

end Haystack
