import Mathlib

/-! How a server receives a URL: host and port up to the path, the query behind the first
question mark, its fields between ampersands, name and value around the first equals sign,
and percent and plus decoding of the values. -/
namespace Haystack.Http

def hex (c : Char) : Option Nat :=
  if c.isDigit then some (c.toNat - '0'.toNat)
  else if 'a' ≤ c ∧ c ≤ 'f' then some (c.toNat - 'a'.toNat + 10)
  else if 'A' ≤ c ∧ c ≤ 'F' then some (c.toNat - 'A'.toNat + 10)
  else none

def octets : List UInt8 → Option (List Char)
  | [] => some []
  | bytes => (String.fromUTF8? ⟨bytes.toArray⟩).map String.toList

/-- The value of a field. Escaped bytes are collected until a character stands for itself. -/
def unescape (bytes : List UInt8) : List Char → Option (List Char)
  | [] => octets bytes
  | '%' :: a :: b :: cs => do
    let high ← hex a
    let low ← hex b
    unescape (bytes ++ [UInt8.ofNat (16 * high + low)]) cs
  | c :: cs =>
    if c = '%' then none
    else do
      let front ← octets bytes
      let rest ← unescape [] cs
      return front ++ (if c = '+' then ' ' else c) :: rest

def cut (c : Char) (cs : List Char) : List Char × List Char :=
  (cs.takeWhile (· != c), (cs.dropWhile (· != c)).drop 1)

structure Received where
  host : String
  path : String
  fields : List (String × String)
  deriving DecidableEq, Repr

def field (cs : List Char) : Option (String × String) :=
  (unescape [] (cut '=' cs).2).map
    (fun value => (String.ofList (cut '=' cs).1, String.ofList value))

/-- A client does not send what follows a number sign. -/
def receive (url : String) : Option Received :=
  if "http://".toList.isPrefixOf url.toList then
    let sent := (cut '#' (url.toList.drop 7)).1
    let target := cut '?' (sent.dropWhile (· != '/'))
    ((target.2.splitOn '&').mapM field).map (fun fields =>
      ⟨String.ofList (sent.takeWhile (· != '/')), String.ofList target.1, fields⟩)
  else none

section Cut

variable {c : Char} {xs : List Char}

theorem bne_of_absent (absent : c ∉ xs) : ∀ x ∈ xs, (x != c) = true := by
  intro x member
  rw [bne_iff_ne]
  rintro rfl
  exact absent member

theorem takeWhile_before (absent : c ∉ xs) (ys : List Char) :
    (xs ++ c :: ys).takeWhile (· != c) = xs := by
  rw [List.takeWhile_append_of_pos (bne_of_absent absent)]
  simp

theorem dropWhile_before (absent : c ∉ xs) (ys : List Char) :
    (xs ++ c :: ys).dropWhile (· != c) = c :: ys := by
  rw [List.dropWhile_append_of_pos (bne_of_absent absent)]
  simp

theorem cut_append (absent : c ∉ xs) (ys : List Char) : cut c (xs ++ c :: ys) = (xs, ys) := by
  rw [cut, takeWhile_before absent, dropWhile_before absent]
  rfl

theorem cut_absent (absent : c ∉ xs) : (cut c xs).1 = xs :=
  List.takeWhile_eq_self_iff.mpr (bne_of_absent absent)

end Cut

/-- A text that stands for itself in a URL. -/
def Literal (s : String) : Prop := ∀ c ∈ s.toList, c ∉ ['#', '&', '=', '%', '+']

theorem Literal.absent {s : String} {c : Char} (literal : Literal s)
    (special : c ∈ ['#', '&', '=', '%', '+']) :
    c ∉ s.toList :=
  fun member => literal c member special

theorem unescape_literal {cs : List Char} (percent : '%' ∉ cs) (plus : '+' ∉ cs) :
    unescape [] cs = some cs := by
  induction cs with
  | nil => rfl
  | cons c cs ih =>
    rw [List.mem_cons, not_or] at percent plus
    have first : c ≠ '%' := fun same => percent.1 same.symm
    have second : c ≠ '+' := fun same => plus.1 same.symm
    rw [unescape.eq_3 [] c cs (fun a b rest same => absurd same first)]
    simp [first, second, octets, ih percent.2 plus.2]

def fieldText (f : String × String) : List Char := f.1.toList ++ '=' :: f.2.toList

theorem field_fieldText {f : String × String} (name : Literal f.1) (value : Literal f.2) :
    field (fieldText f) = some f := by
  have split := cut_append (name.absent (c := '=') (by decide)) f.2.toList
  rw [field, fieldText, split,
    unescape_literal (value.absent (by decide)) (value.absent (by decide))]
  simp

theorem mapM_field {fields : List (String × String)}
    (literal : ∀ f ∈ fields, Literal f.1 ∧ Literal f.2) :
    (fields.map fieldText).mapM field = some fields := by
  induction fields with
  | nil => rfl
  | cons f fields ih =>
    have head := literal f List.mem_cons_self
    have tail := ih (fun g member => literal g (List.mem_cons_of_mem _ member))
    rw [List.map_cons, List.mapM_cons, field_fieldText head.1 head.2, tail]
    rfl

theorem absent_fieldText {c : Char} {f : String × String} (special : c ∈ ['#', '&', '%', '+'])
    (name : Literal f.1) (value : Literal f.2) : c ∉ fieldText f := by
  have listed : c ∈ ['#', '&', '=', '%', '+'] := by
    revert special
    simp only [List.mem_cons, List.not_mem_nil, or_false]
    tauto
  have differ : c ≠ '=' := by
    rintro rfl
    revert special
    decide
  simp only [fieldText, List.mem_append, List.mem_cons, not_or]
  exact ⟨name.absent listed, differ, value.absent listed⟩

theorem absent_intercalate {c d : Char} {xss : List (List Char)} (differ : c ≠ d)
    (absent : ∀ xs ∈ xss, c ∉ xs) : c ∉ [d].intercalate xss := by
  induction xss with
  | nil => simp
  | cons xs rest ih =>
    have head := absent xs List.mem_cons_self
    have tail := ih (fun ys member => absent ys (List.mem_cons_of_mem _ member))
    cases rest with
    | nil => simpa using head
    | cons ys rest =>
      rw [List.intercalate_cons_cons]
      simp only [List.mem_append, List.mem_singleton, not_or]
      exact ⟨⟨head, differ⟩, tail⟩

section Url

variable {host path url : String} {fields : List (String × String)}

def queryText (fields : List (String × String)) : List Char :=
  ['&'].intercalate (fields.map fieldText)

theorem absent_queryText (literal : ∀ f ∈ fields, Literal f.1 ∧ Literal f.2) :
    '#' ∉ queryText fields := by
  apply absent_intercalate (by decide)
  intro xs member
  obtain ⟨f, among, rfl⟩ := List.mem_map.mp member
  exact absent_fieldText (by decide) (literal f among).1 (literal f among).2

theorem splitOn_queryText (literal : ∀ f ∈ fields, Literal f.1 ∧ Literal f.2)
    (filled : fields ≠ []) :
    (queryText fields).splitOn '&' = fields.map fieldText := by
  apply List.splitOn_intercalate
  · intro xs member
    obtain ⟨f, among, rfl⟩ := List.mem_map.mp member
    exact absent_fieldText (by decide) (literal f among).1 (literal f among).2
  · simpa using filled

theorem receive_url (slash : '/' ∉ host.toList) (sharp : '#' ∉ host.toList)
    (question : '?' ∉ path.toList)
    (number : '#' ∉ path.toList) (literal : ∀ f ∈ fields, Literal f.1 ∧ Literal f.2)
    (filled : fields ≠ []) (text : url.toList =
      "http://".toList ++ (host.toList ++ '/' :: (path.toList ++ '?' :: queryText fields))) :
    receive url = some ⟨host, "/" ++ path, fields⟩ := by
  have http : "http://".toList.isPrefixOf url.toList = true :=
    List.isPrefixOf_iff_prefix.mpr ⟨_, text.symm⟩
  have behind : url.toList.drop 7 =
      host.toList ++ '/' :: (path.toList ++ '?' :: queryText fields) := by
    rw [text]
    rfl
  have whole : (cut '#' (url.toList.drop 7)).1 = url.toList.drop 7 := by
    apply cut_absent
    rw [behind]
    simp [sharp, number, absent_queryText literal]
  have target : cut '?' ('/' :: (path.toList ++ '?' :: queryText fields)) =
      ('/' :: path.toList, queryText fields) := by
    rw [← List.cons_append]
    exact cut_append (by simp [question]) _
  simp only [receive, http, if_true]
  rw [whole, behind, takeWhile_before slash, dropWhile_before slash, target,
    splitOn_queryText literal filled, mapM_field literal]
  simp [String.ofList_cons]

end Url

end Haystack.Http
