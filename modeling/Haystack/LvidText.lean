import Haystack.CacheDeletion
import Haystack.Sequential
import Haystack.Calls.Serial
import Haystack.Cql.Suffix

/-! The lvid of a request inside the query that the cache server glues together from it. The
query is the lookup of the pid in a volume or is refused, unless the lvid brings a restriction
of its own and hides the one of the server in a comment. -/
namespace Haystack

open Calls Cql Java

namespace Cql

def Comparison.holds (a b : Int64) : Comparison → Bool
  | .eq => a == b
  | .lt => a < b
  | .le => a ≤ b
  | .gt => b < a
  | .ge => b ≤ a

def Term.textual : Term → Bool
  | .value (.text _) => true
  | _ => false

def Relation.scanned : Relation → Bool
  | .token _ _ _ => true
  | _ => false

def Relation.textual (key : String) : Relation → Bool
  | .eq column t => column == key && t.textual
  | .within column ts => column == key && ts.all Term.textual
  | .token column _ t => column == key && t.textual

def Relation.admits (token : String → Int64) (p : String) : Relation → Bool
  | .eq _ t => t == .value (.text p)
  | .within _ ts => ts.contains (.value (.text p))
  | .token _ op (.value (.text q)) => op.holds (token p) (token q)
  | .token _ _ _ => false

end Cql

/-- What the store does with selects beyond the lookup of keys. For comparisons of tokens these
are the token of each key, the keys of a table in the order in which a scan meets them, and
the restrictions that are answered at all. For any other clauses they are the texts that are
permitted, as far as values are bound to them, and the keys of the rows that such a select
finds. WHERE is a reserved word and its clause comes first, right after the table. -/
structure Engine where
  token : String → Int64
  scan : (String → Option Bytes) → List String
  answers : List Relation → Bool
  permits : List Token → List (String × Value) → Bool
  finds : List Token → List (String × Value) → (String → Option Bytes) → List String
  whereFirst : ∀ t ts bound, .word "where" ∈ ts → permits (t :: ts) bound = false

namespace Engine

variable (store : Engine)

def accepts (relations : List Relation) : Bool :=
  relations.all (Relation.textual "pid") && store.answers relations

def images (t : String → Option Bytes) (ps : List String) : List Row :=
  ps.filterMap (fun p => (t p).map (imageRow p))

def rows (relations : List Relation) (t : String → Option Bytes) : List Row :=
  images t ((store.scan t).filter (fun p => relations.all (Relation.admits store.token p)))

def executeScan (columns : Option (List String)) (table : String) (relations : List Relation)
    (s : World) : Except Exception (World × List Row) :=
  match s.store.tables table with
  | none => .error .invalidQuery
  | some t =>
    if known columns ["pid", "image"] && store.accepts relations then
      .ok (s, (store.rows relations t).map (Row.project columns))
    else .error .invalidQuery

def executeFurther (table : String) (clauses : List Token) (bound : List (String × Value))
    (s : World) : Except Exception (World × List Row) :=
  match s.store.tables table with
  | none => .error .invalidQuery
  | some t =>
    if store.permits clauses bound then .ok (s, images t (store.finds clauses bound t))
    else .error .invalidQuery

/-- The calls with a store that executes all of these selects as well. -/
def exec : (c : Call) → World → Except Exception (World × Answer c)
  | .prepare .store query, s =>
    match Statement.read query with
    | some (.further table clauses bound) =>
      if s.HasVolume table ∧ store.permits clauses bound then
        .ok (s, .further table clauses bound)
      else .error .invalidQuery
    | _ => Haystack.exec (.prepare .store query) s
  | .executeBound .store (.select columns table relations filtering), s =>
    if relations.any Relation.scanned then store.executeScan columns table relations s
    else executeStore (.select columns table relations filtering) s
  | .executeBound .store (.further table clauses bound), s =>
    store.executeFurther table clauses bound s
  | c, s => Haystack.exec c s

variable {store : Engine}

theorem mem_images {t : String → Option Bytes} {ps : List String} {row : Row}
    (member : row ∈ images t ps) : ∃ p b, row = imageRow p b := by
  obtain ⟨p, -, found⟩ := List.mem_filterMap.mp member
  obtain ⟨b, -, rfl⟩ := Option.map_eq_some_iff.mp found
  exact ⟨p, b, rfl⟩

theorem prepared {query : String} {ps : Statement} {s t : World}
    (answer : store.exec (.prepare .store query) s = .ok (t, ps)) :
    t = s ∧ Statement.read query = some ps ∧ s.HasVolume ps.table := by
  simp only [exec] at answer
  split at answer
  · rename_i read
    split at answer
    · rename_i permitted
      cases answer
      exact ⟨rfl, read, permitted.1⟩
    · cases answer
  · cases text : Statement.ofText query with
    | none => cases (exec_prepare_none text s).symm.trans answer
    | some st =>
      rw [exec_prepare text] at answer
      split at answer
      · rename_i created
        cases answer
        exact ⟨rfl, Statement.read_of_ofText text, created⟩
      · cases answer

theorem exec_prepare_select {query table : String} {columns : Option (List String)}
    {relations : List Relation} {filtering : Bool} {s : World} (created : s.HasVolume table)
    (read : Statement.read query = some (.select columns table relations filtering)) :
    store.exec (.prepare .store query) s = .ok (s, .select columns table relations filtering) := by
  have text := Statement.ofText_of_read read
  simp only [exec, read]
  rw [exec_prepare text]
  exact if_pos created

theorem exec_prepare_further {query table : String} {clauses : List Token}
    {bound : List (String × Value)} {s : World} (created : s.HasVolume table)
    (permitted : store.permits clauses bound = true)
    (read : Statement.read query = some (.further table clauses bound)) :
    store.exec (.prepare .store query) s = .ok (s, .further table clauses bound) := by
  simp only [exec, read]
  exact if_pos ⟨created, permitted⟩

end Engine

namespace CacheServer

variable {lvid pid : String}

/-- The lvid ends in a comment that runs to the end of the line. -/
def Commented (lvid : String) : Prop :=
  (scan (.word ['v', 'l']) lvid.toList).map Prod.fst = some .comment

instance (lvid : String) : Decidable (Commented lvid) := inferInstanceAs (Decidable (_ = _))

def whereClause : String := " WHERE pid= " ++ ":pid"

theorem lexFrom_clause {m : Mode} (read : m ≠ .comment) :
    lexFrom m whereClause.toList =
      (finish m).map (fun ts => ts ++ Parse.markerClause "pid" "pid") := by
  cases m with
  | comment => contradiction
  | nameQuote chars => cases chars <;> rfl
  | _ => rfl

theorem lexFrom_clause_comment : lexFrom .comment whereClause.toList = some [] := by
  decide

theorem scan_selectImage : scan .blank "SELECT * FROM lv".toList =
    some (.word ['v', 'l'], [.word "select", .punct '*', .word "from"]) := by
  decide

theorem selectImage_eq (lvid : String) :
    selectImage lvid = "SELECT * FROM lv" ++ (lvid ++ whereClause) := by
  have outer : selectImage lvid = "SELECT * FROM lv" ++ lvid ++ whereClause := String.append_assoc
  exact outer.trans String.append_assoc

theorem selects_table {after : String} {st : Statement}
    (accepted : Statement.ofText ("SELECT * FROM lv" ++ after) = some st) : ∃ w vs rest,
      lexFrom (.word ['v', 'l']) after.toList = some (.word w :: vs) ∧
        Parse.selection none w vs = some (st, rest) ∧ Parse.ending st rest = some st := by
  obtain ⟨vs, rest, lexed, read, ended⟩ := Statement.ofText_append scan_selectImage accepted
  rcases lexFrom_word lexed with ⟨w, us, rfl⟩ | ⟨w, us, rfl⟩
  · have chosen : (Parse.selection none w us).orElse (fun _ => none) = some (st, rest) := read
    exact ⟨w, us, rest, lexed, by simpa using chosen, ended⟩
  · cases read

theorem lexFrom_not_commented {ts : List Token} (visible : ¬ Commented lvid)
    (lexed : lexFrom (.word ['v', 'l']) (lvid ++ whereClause).toList = some ts) :
    ∃ t xs, ts = t :: (xs ++ Parse.markerClause "pid" "pid") := by
  rw [String.toList_append] at lexed
  cases scanned : scan (.word ['v', 'l']) lvid.toList with
  | none => simp [lexFrom, scan_append, scanned] at lexed
  | some found =>
    obtain ⟨m, us⟩ := found
    have going : m ≠ .comment := by
      rintro rfl
      exact visible (by rw [Commented, scanned]; rfl)
    rw [lexFrom_append scanned, lexFrom_clause going, Option.map_map] at lexed
    obtain ⟨vs, closed, rfl⟩ := Option.map_eq_some_iff.mp lexed
    have own : lexFrom (.word ['v', 'l']) lvid.toList = some (us ++ vs) := by
      rw [lexFrom, scanned, Option.bind_some, closed]
      rfl
    obtain ⟨t, xs, front⟩ : ∃ t xs, us ++ vs = t :: xs := by
      rcases lexFrom_word own with ⟨w, xs, front⟩ | ⟨w, xs, front⟩ <;> exact ⟨_, xs, front⟩
    refine ⟨t, xs, ?_⟩
    rw [Function.comp_apply, ← List.append_assoc, front]
    rfl

theorem lookup_of_not_commented {st : Statement} (visible : ¬ Commented lvid)
    (accepted : Statement.ofText (selectImage lvid) = some st) :
    ∃ table, st = lookupStatement table := by
  rw [selectImage_eq] at accepted
  obtain ⟨w, vs, rest, lexed, read, ended⟩ := selects_table accepted
  obtain ⟨t, xs, split⟩ := lexFrom_not_commented visible lexed
  cases split
  exact ⟨w, Parse.selection_clause (by decide) read ended⟩

theorem lex_selectImage (lvid : String) : lex (selectImage lvid) =
    (lexFrom (.word ['v', 'l']) (lvid ++ whereClause).toList).map
      (fun ts => .word "select" :: .punct '*' :: .word "from" :: ts) := by
  rw [selectImage_eq, lex, String.toList_append, lexFrom_append scan_selectImage]
  rfl

theorem further_not_commented {table : String} {clauses : List Token}
    {bound : List (String × Value)} (store : Engine) (visible : ¬ Commented lvid)
    (other : Statement.ofText (selectImage lvid) = none)
    (read : (lex (selectImage lvid)).bind Parse.further = some (.further table clauses bound))
    (given : List (String × Value)) : store.permits clauses given = false := by
  obtain ⟨tokens, lexed, read⟩ := Option.bind_eq_some_iff.mp read
  obtain ⟨t, us, rfl, _, named, same⟩ := Parse.further_some read
  cases same
  rw [lex_selectImage] at lexed
  obtain ⟨ts, front, same⟩ := Option.map_eq_some_iff.mp lexed
  cases same
  obtain ⟨_, xs, split⟩ := lexFrom_not_commented visible front
  cases split
  cases xs with
  | cons x xs =>
    refine store.whereFirst x _ given ?_
    exact List.mem_append_right xs List.mem_cons_self
  | nil =>
    have looked : Statement.parse (.word "select" :: .punct '*' :: .word "from" :: t ::
        Parse.markerClause "pid" "pid") = some (lookupStatement table) := by
      rcases named with rfl | rfl <;> rfl
    rw [Statement.ofText, lex_selectImage, front] at other
    cases other.symm.trans looked

theorem lex_commented (commented : Commented lvid) :
    lex (selectImage lvid) = lex ("SELECT * FROM lv" ++ lvid) := by
  obtain ⟨⟨m, ts⟩, scanned, rfl⟩ := Option.map_eq_some_iff.mp commented
  have hidden : lexFrom (.word ['v', 'l']) (lvid ++ whereClause).toList =
      lexFrom (.word ['v', 'l']) lvid.toList := by
    rw [String.toList_append, lexFrom_append scanned, lexFrom_clause_comment, lexFrom, scanned]
    rfl
  rw [lex_selectImage, hidden, lex, String.toList_append, lexFrom_append scan_selectImage]
  rfl

theorem read_commented (commented : Commented lvid) :
    Statement.read (selectImage lvid) = Statement.read ("SELECT * FROM lv" ++ lvid) := by
  unfold Statement.read Statement.ofText
  rw [lex_commented commented]

theorem read_selectImage {st : Statement} (text : Statement.read (selectImage lvid) = some st) :
    (∃ table relations filtering, st = .select none table relations filtering) ∨
      ∃ table clauses, st = .further table clauses [] ∧
        Statement.ofText (selectImage lvid) = none ∧
        (lex (selectImage lvid)).bind Parse.further = some (.further table clauses []) := by
  rw [Statement.read] at text
  cases accepted : Statement.ofText (selectImage lvid) with
  | some found =>
    rw [accepted] at text
    cases text
    rw [selectImage_eq] at accepted
    obtain ⟨w, vs, rest, -, read, -⟩ := selects_table accepted
    exact .inl ⟨w, Parse.selection_shape read⟩
  | none =>
    rw [accepted, Option.none_or] at text
    obtain ⟨_, -, read⟩ := Option.bind_eq_some_iff.mp text
    obtain ⟨_, clauses, -, table, -, rfl⟩ := Parse.further_some read
    exact .inr ⟨table, clauses, rfl, rfl, text⟩

end CacheServer

section Restrictions

variable {relations : List Relation}

theorem scanned_put (marker : String) (v : Value) (r : Relation) :
    (r.put marker v).scanned = r.scanned := by
  cases r <;> rfl

theorem any_scanned_put (marker : String) (v : Value) (relations : List Relation) :
    (relations.map (Relation.put marker v)).any Relation.scanned =
      relations.any Relation.scanned := by
  simp only [List.any_map, Function.comp_def, scanned_put]

theorem mapM_isSome {α β : Type} (f : α → Option β) (xs : List α) :
    (xs.mapM f).isSome = xs.all (fun x => (f x).isSome) := by
  induction xs with
  | nil => rfl
  | cons x xs ih =>
    rw [List.mapM_cons, List.all_cons, ← ih]
    cases f x with
    | none => rfl
    | some y => cases xs.mapM f <;> rfl

theorem keys_within (ts : List Term) : (keys [.within "pid" ts]).isSome = ts.all Term.textual := by
  refine (mapM_isSome _ ts).trans ?_
  congr 1
  funext t
  rcases t with (_ | _ | _) | _ | _ <;> rfl

theorem keys_some {ps : List String} (named : keys relations = some ps) :
    (∃ p, relations = [.eq "pid" (.value (.text p))]) ∨
      ∃ ts, relations = [.within "pid" ts] ∧ ts.all Term.textual = true := by
  have found : (keys relations).isSome = true := by rw [named]; rfl
  unfold keys at named
  split at named
  · rename_i p
    exact .inl ⟨p, rfl⟩
  · rename_i ts
    exact .inr ⟨ts, rfl, (keys_within ts).symm.trans found⟩
  · cases named

theorem put_ne {marker : String} {v : Value} {t : Term} :
    t.put marker v ≠ t → t = .named marker := by
  unfold Term.put
  split
  · exact fun _ => ‹_›
  · exact fun differ => absurd rfl differ

theorem put_textual {marker p : String} {t : Term} :
    (t.put marker (.text p)).textual = true ↔ t = .named marker ∨ t.textual = true := by
  unfold Term.put
  split
  · rename_i same
    simp [same, Term.textual]
  · rename_i differ
    simp [differ]

end Restrictions

namespace Engine

variable {store : Engine} {relations : List Relation} {pid : String}

/-- A restriction with a marker for the pid that the store answers and that is not the lookup of
the pid: a list of texts and markers, or comparisons of tokens. -/
def Own (store : Engine) (pid : String) (relations : List Relation) : Prop :=
  (∃ ts, relations = [.within "pid" ts] ∧ .named "pid" ∈ ts ∧
    ∀ t ∈ ts, t = .named "pid" ∨ t.textual = true) ∨
  (relations.any Relation.scanned = true ∧
    relations.map (Relation.put "pid" (.text pid)) ≠ relations ∧
    store.accepts (relations.map (Relation.put "pid" (.text pid))) = true)

theorem own_of_keys {ps : List String}
    (marked : relations.map (Relation.put "pid" (.text pid)) ≠ relations)
    (named : keys (relations.map (Relation.put "pid" (.text pid))) = some ps) :
    relations = [.eq "pid" (.named "pid")] ∨ store.Own pid relations := by
  rcases keys_some named with ⟨p, single⟩ | ⟨ts, single, texts⟩
  · obtain ⟨r, rfl, bound⟩ := List.map_eq_singleton_iff.mp single
    cases r with
    | eq column t =>
      injection bound with column_eq value
      have changed : t.put "pid" (.text pid) ≠ t := by
        intro same
        exact marked (by simp [Relation.put, same])
      rw [column_eq, put_ne changed]
      exact .inl rfl
    | within column ts => cases bound
    | token column op t => cases bound
  · obtain ⟨r, rfl, bound⟩ := List.map_eq_singleton_iff.mp single
    cases r with
    | eq column t => cases bound
    | within column given =>
      injection bound with column_eq values
      subst values column_eq
      refine .inr (.inl ⟨given, rfl, ?_, ?_⟩)
      · by_contra absent
        apply marked
        have same : given.map (Term.put "pid" (.text pid)) = given := by
          conv_rhs => rw [← List.map_id given]
          refine List.map_congr_left (fun t member => ?_)
          by_contra changed
          exact absent (put_ne changed ▸ member)
        simp [Relation.put, same]
      · intro t member
        have text := List.all_eq_true.mp texts _ (List.mem_map_of_mem member)
        exact put_textual.mp text
    | token column op t => cases bound

theorem refused_of_not_own {table : String} {filtering : Bool} (s : World)
    (marked : relations.map (Relation.put "pid" (.text pid)) ≠ relations)
    (differs : relations ≠ [.eq "pid" (.named "pid")]) (foreign : ¬ store.Own pid relations) :
    store.exec (.executeBound .store
      (.select none table (relations.map (Relation.put "pid" (.text pid))) filtering)) s =
        .error .invalidQuery := by
  simp only [exec, any_scanned_put]
  split
  · rename_i scanned
    unfold executeScan
    split
    · rfl
    · rw [if_neg]
      intro accepted
      exact foreign (.inr ⟨scanned, marked, (Bool.and_eq_true _ _ ▸ accepted).2⟩)
  · simp only [executeStore]
    split
    · rename_i t ps _ named _
      rcases own_of_keys marked named with same | own
      · exact absurd same differs
      · exact absurd own foreign
    · rfl

theorem answered_of_own {table : String} (filtering : Bool) {s : World}
    (created : s.HasVolume table)
    (own : store.Own pid relations) : ∃ rows, (∀ row ∈ rows, ∃ p b, row = imageRow p b) ∧
      store.exec (.executeBound .store
        (.select none table (relations.map (Relation.put "pid" (.text pid))) filtering)) s =
          .ok (s, rows) := by
  obtain ⟨t, there⟩ := Option.isSome_iff_exists.mp created
  simp only [exec, any_scanned_put]
  rcases own with ⟨ts, rfl, -, texts⟩ | ⟨scanned, -, accepted⟩
  · have all : (ts.map (Term.put "pid" (.text pid))).all Term.textual = true := by
      simp only [List.all_map, List.all_eq_true, Function.comp_apply]
      exact fun t member => put_textual.mpr (texts t member)
    obtain ⟨ps, named⟩ := Option.isSome_iff_exists.mp ((keys_within _).trans all)
    refine ⟨images t ps, fun _ => mem_images, ?_⟩
    simp [Relation.scanned, Relation.put, executeStore, there, named, known, Row.project, images]
  · refine ⟨store.rows (relations.map (Relation.put "pid" (.text pid))) t, fun _ => mem_images, ?_⟩
    have whole : Row.project none = id := rfl
    simp [scanned, executeScan, there, accepted, known, whole]

theorem Own.marked (own : store.Own pid relations) :
    relations.map (Relation.put "pid" (.text pid)) ≠ relations := by
  rcases own with ⟨ts, rfl, member, -⟩ | ⟨-, marked, -⟩
  · intro same
    have terms : ts.map (Term.put "pid" (.text pid)) = ts := by
      simpa [Relation.put] using same
    obtain ⟨t, -, left⟩ := List.mem_map.mp (terms.symm ▸ member)
    unfold Term.put at left
    split at left
    · cases left
    · contradiction
  · exact marked

theorem Own.ne_lookup (own : store.Own pid relations) : relations ≠ [.eq "pid" (.named "pid")] := by
  rintro rfl
  rcases own with ⟨ts, same, -⟩ | ⟨scanned, -⟩
  · cases same
  · cases scanned

/-- The statement has a marker for the pid, the store executes it with the pid in its place, and
it is not the lookup of the pid. -/
def Owns (store : Engine) (pid : String) : Statement → Prop
  | .select _ _ relations _ => store.Own pid relations
  | .further _ clauses bound => marked "pid" clauses = true ∧ store.permits clauses bound = true ∧
    store.permits clauses (("pid", .text pid) :: bound) = true
  | _ => False

end Engine

namespace CacheServer

variable {store : Engine} {charset : Charset} {server : Nat} {n : Int32} {lvid pid : String}
  {s : World}

def Volume (n k : Int32) : Prop := 1 ≤ k.toInt ∧ k.toInt ≤ n.toInt

instance (n k : Int32) : Decidable (Volume n k) := inferInstanceAs (Decidable (_ ∧ _))

def Tables (n : Int32) (s : World) : Prop :=
  ∀ table, s.HasVolume table ↔ ∃ k, Volume n k ∧ table = lv k

def ExactLookup (n : Int32) (lvid : String) : Prop := ∃ k filtering, Volume n k ∧
  Statement.read (selectImage lvid) =
    some (.select none (lv k) [.eq "pid" (.named "pid")] filtering)

/-- The request ends in an exception or is a bad one, and changes nothing. -/
def Refused (store : Engine) (charset : Charset) (server : Nat) (s : World)
    (lvid pid : String) : Prop :=
  ∃ r, (get charset server lvid pid).run store.exec s = (s, r) ∧
    (r = .ok (.result 400 "error") ∨ ∃ e, r = .error e)

/-- The lvid ends in a comment and, up to there, makes a select from a volume that the store
executes and that is not the lookup of the pid. -/
structure Steers (store : Engine) (n : Int32) (lvid pid : String) : Prop where
  named : pid ≠ ""
  commented : Commented lvid
  selects : ∃ k st, Volume n k ∧ Statement.read ("SELECT * FROM lv" ++ lvid) = some st ∧
    st.table = lv k ∧ store.Owns pid st

theorem set_select (table : String) (relations : List Relation) (filtering : Bool) (v : Value) :
    (Statement.select none table relations filtering).set "pid" v =
      if relations.map (Relation.put "pid" v) = relations then none
      else some (.select none table (relations.map (Relation.put "pid" v)) filtering) := by
  simp [Statement.set, Statement.put]

theorem set_further (table : String) (clauses : List Token) (bound : List (String × Value))
    (v : Value) : (Statement.further table clauses bound).set "pid" v =
      if marked "pid" clauses then some (.further table clauses (("pid", v) :: bound))
      else none := by
  simp only [Statement.set, Statement.put]
  split
  · rename_i given
    rw [if_neg]
    intro same
    injection same with _ _ same
    exact List.cons_ne_self _ _ same
  · exact if_pos rfl

theorem refused_of_not_permitted {table : String} {clauses : List Token}
    {bound : List (String × Value)} (s : World) (refused : ¬ store.permits clauses bound = true) :
    store.exec (.executeBound .store (.further table clauses bound)) s = .error .invalidQuery := by
  simp only [Engine.exec, Engine.executeFurther, if_neg refused]
  split <;> rfl

def Fruitless (store : Engine) (lvid pid : String) (st : Statement) : Prop :=
  ∀ s t bound, store.exec (.prepare .store (selectImage lvid)) s = .ok (t, st) →
    st.set "pid" (.text pid) = some bound →
      ∀ u, store.exec (.executeBound .store bound) u = .error .invalidQuery

theorem fruitless_select {k : Int32} {relations : List Relation} {filtering : Bool}
    (named : pid ≠ "") (honest : ¬ Steers store n lvid pid) (commented : Commented lvid)
    (within : Volume n k) (differs : relations ≠ [.eq "pid" (.named "pid")])
    (text : Statement.read (selectImage lvid) =
      some (.select none (lv k) relations filtering)) :
    Fruitless store lvid pid (.select none (lv k) relations filtering) := by
  intro s t bound _ binding u
  rw [set_select] at binding
  split at binding
  · cases binding
  · rename_i marked
    cases binding
    refine Engine.refused_of_not_own u marked differs (fun own => ?_)
    exact honest ⟨named, commented, k, .select none (lv k) relations filtering, within,
      (read_commented commented).symm.trans text, rfl, own⟩

theorem fruitless_further {k : Int32} {clauses : List Token} (named : pid ≠ "")
    (honest : ¬ Steers store n lvid pid) (commented : Commented lvid) (within : Volume n k)
    (text : Statement.read (selectImage lvid) = some (.further (lv k) clauses [])) :
    Fruitless store lvid pid (.further (lv k) clauses []) := by
  intro s t bound prepared binding u
  rw [set_further] at binding
  split at binding
  · rename_i marked
    cases binding
    refine refused_of_not_permitted u (fun permitted => ?_)
    simp only [Engine.exec, text] at prepared
    split at prepared
    · rename_i there
      exact honest ⟨named, commented, k, .further (lv k) clauses [], within,
        (read_commented commented).symm.trans text, rfl, marked, there.2, permitted⟩
    · cases prepared
  · cases binding

theorem text_cases {st : Statement} (named : pid ≠ "") (honest : ¬ Steers store n lvid pid)
    (text : Statement.read (selectImage lvid) = some st) :
    (∃ table filtering, st = .select none table [.eq "pid" (.named "pid")] filtering) ∨
      (¬ ∃ k, Volume n k ∧ st.table = lv k) ∨ Fruitless store lvid pid st := by
  by_cases volume : ∃ k, Volume n k ∧ st.table = lv k
  swap
  · exact .inr (.inl volume)
  obtain ⟨k, within, place⟩ := volume
  rcases read_selectImage text with
    ⟨table, relations, filtering, rfl⟩ | ⟨table, clauses, rfl, other, read⟩
  · cases place
    by_cases commented : Commented lvid
    · by_cases same : relations = [.eq "pid" (.named "pid")]
      · exact .inl ⟨_, filtering, by rw [same]⟩
      · exact .inr (.inr (fruitless_select named honest commented within same text))
    · obtain ⟨place, looked⟩ := lookup_of_not_commented commented (Statement.ofText_of_read text)
      exact .inl ⟨place, false, looked⟩
  · cases place
    by_cases commented : Commented lvid
    · exact .inr (.inr (fruitless_further named honest commented within text))
    · right; right
      intro s t bound _ binding u
      rw [set_further] at binding
      split at binding
      · cases binding
        refine refused_of_not_permitted u ?_
        rw [further_not_commented store commented other read]
        exact Bool.false_ne_true
      · cases binding

theorem get_run_miss (named : lvid ≠ "" ∧ pid ≠ "")
    (missing : s.imageCache server (charset.getBytes pid) = none) :
    (get charset server lvid pid).run store.exec s =
      (getMiss charset server lvid pid).run store.exec s := by
  obtain ⟨next, tree, continued⟩ := get_eq charset server named
  rw [tree, Program.run_call_ok store.exec (r := s.imageCache server (charset.getBytes pid)) rfl,
    continued, missing]
  rfl

theorem getMiss_tree (charset : Charset) (server : Nat) (lvid pid : String) :
    getMiss charset server lvid pid = .call (.prepare .store (selectImage lvid)) (fun ps =>
      Program.lift (answerOr .illegalArgument (ps.set "pid" (.text pid))) >>= fun bound =>
        .call (.executeBound .store bound) (getRows charset server pid)) := rfl

theorem exact_or_refused (tables : Tables n s)
    (missing : s.imageCache server (charset.getBytes pid) = none)
    (honest : ¬ Steers store n lvid pid) :
    ExactLookup n lvid ∨ Refused store charset server s lvid pid := by
  by_cases named : lvid ≠ "" ∧ pid ≠ ""
  swap
  · have blank : lvid = "" ∨ pid = "" := by tauto
    refine .inr ⟨_, ?_, .inl rfl⟩
    unfold get
    rw [if_pos blank]
    rfl
  unfold Refused
  rw [get_run_miss named missing, getMiss_tree]
  cases answer : store.exec (.prepare .store (selectImage lvid)) s with
  | error e => exact .inr ⟨_, Program.run_call_error store.exec answer, .inr ⟨_, rfl⟩⟩
  | ok found =>
    obtain ⟨t, st⟩ := found
    obtain ⟨rfl, text, created⟩ := Engine.prepared answer
    obtain ⟨k, within, place⟩ := (tables _).mp created
    rw [Program.run_call_ok store.exec answer]
    rcases text_cases named.2 honest text with ⟨table, filtering, rfl⟩ | other | fruitless
    · cases place
      exact .inl ⟨k, filtering, within, text⟩
    · exact absurd ⟨k, within, place⟩ other
    · cases binding : st.set "pid" (.text pid) with
      | none => exact .inr ⟨_, rfl, .inr ⟨_, rfl⟩⟩
      | some bound =>
        have refused := fruitless t t bound answer binding t
        exact .inr ⟨_, Program.run_call_error store.exec refused, .inr ⟨_, rfl⟩⟩

theorem owned_is_executed {st : Statement} {query : String} (created : s.HasVolume st.table)
    (whole : ∀ columns table relations filtering,
      st = .select columns table relations filtering → columns = none)
    (text : Statement.read query = some st) (owns : store.Owns pid st) :
    store.exec (.prepare .store query) s = .ok (s, st) ∧
      ∃ bound rows, st.set "pid" (.text pid) = some bound ∧
        (∀ row ∈ rows, ∃ p b, row = imageRow p b) ∧
        store.exec (.executeBound .store bound) s = .ok (s, rows) := by
  cases st with
  | select columns table relations filtering =>
    cases whole _ _ _ _ rfl
    have own : store.Own pid relations := owns
    refine ⟨Engine.exec_prepare_select created text, ?_⟩
    obtain ⟨rows, images, answered⟩ := Engine.answered_of_own filtering created own
    exact ⟨_, rows, (set_select ..).trans (if_neg own.marked), images, answered⟩
  | further table clauses bound =>
    obtain ⟨marked, permitted, filled⟩ := owns
    refine ⟨Engine.exec_prepare_further created permitted text, ?_⟩
    obtain ⟨t, there⟩ := Option.isSome_iff_exists.mp created
    refine ⟨_, Engine.images t (store.finds clauses (("pid", .text pid) :: bound) t),
      (set_further ..).trans (if_pos marked), fun _ => Engine.mem_images, ?_⟩
    change store.executeFurther table clauses _ s = _
    rw [Engine.executeFurther, show s.store.tables table = some t from there]
    exact if_pos filled
  | insert _ _ _ | update _ _ _ | delete _ _ => exact owns.elim

theorem steered_is_answered (tables : Tables n s)
    (missing : s.imageCache server (charset.getBytes pid) = none)
    (steers : Steers store n lvid pid) :
    ¬ ExactLookup n lvid ∧ ¬ Refused store charset server s lvid pid := by
  obtain ⟨k, st, within, text, place, owns⟩ := steers.selects
  rw [← read_commented steers.commented] at text
  have named : lvid ≠ "" ∧ pid ≠ "" := by
    refine ⟨?_, steers.named⟩
    rintro rfl
    exact absurd steers.commented (by decide)
  constructor
  · rintro ⟨j, _, -, looked⟩
    cases text.symm.trans looked
    exact Engine.Own.ne_lookup owns rfl
  · rintro ⟨r, ran, refused⟩
    have whole : ∀ columns table relations filtering,
        st = .select columns table relations filtering → columns = none := by
      rintro columns table relations filtering rfl
      rcases read_selectImage text with ⟨_, _, _, same⟩ | ⟨_, _, same, -⟩ <;> cases same
      rfl
    obtain ⟨prepared, bound, rows, binding, images, answered⟩ :=
      owned_is_executed ((tables _).mpr ⟨k, within, place⟩) whole text owns
    rw [get_run_miss named missing, getMiss_tree, Program.run_call_ok store.exec prepared,
      binding] at ran
    change (Program.call _ _).run store.exec s = _ at ran
    rw [Program.run_call_ok store.exec answered] at ran
    cases rows with
    | nil =>
      cases ran
      rcases refused with h | ⟨_, h⟩ <;> cases h
    | cons row rows =>
      obtain ⟨p, b, rfl⟩ := images row List.mem_cons_self
      have reply := congrArg Prod.snd ran
      change Except.ok (Resp.image pid b) = r at reply
      subst reply
      rcases refused with h | ⟨_, h⟩ <;> cases h

end CacheServer

def Uploaded (rs : List Request) (pid : String) (b : Bytes) : Prop :=
  ∃ web t, .upload web (some b) t ∈ rs ∧ pid = toString t

/-- Every image in a volume and every entry of a cache server was uploaded under its pid. -/
structure Genuine (charset : Charset) (n : Int32) (rs : List Request) (s : World) : Prop where
  tables : ∀ table, s.HasVolume table → ∃ k, CacheServer.Volume n k ∧ table = lv k
  images : ∀ table pid b, s.image table pid = some b → Uploaded rs pid b
  cached : ∀ server key b, s.imageCache server key = some b →
    ∃ pid, key = charset.getBytes pid ∧ Uploaded rs pid b

def Aside : Call → Prop
  | .jedisGet _ _ => True
  | .jedisSet _ _ _ => True
  | .jedisDel _ _ => True
  | .execute .directory _ _ => True
  | _ => False

theorem exec_aside {c : Call} {s t : World} {r : Answer c} (aside : Aside c)
    (answer : exec c s = .ok (t, r)) : t.store = s.store ∧ t.imageCache = s.imageCache := by
  cases c with
  | jedisGet _ _ | jedisSet _ _ _ | jedisDel _ _ =>
    cases answer
    exact ⟨rfl, rfl⟩
  | execute session query values =>
    cases session with
    | store => exact aside.elim
    | directory =>
      obtain ⟨st, executed⟩ := exec_execute_sent answer
      rw [executeDirectory_rest executed]
      exact ⟨rfl, rfl⟩
  | _ => exact aside.elim

theorem onCacheMiss_aside (server : Nat) (pid : String) :
    (WebServer.onCacheMiss server pid).Everywhere Aside := by
  refine Program.everywhere_bind (Program.everywhere_request trivial) (fun rows => ?_)
  dsimp only
  split
  · trivial
  · refine Program.everywhere_bind (Program.everywhere_lift _) (fun _ => ?_)
    refine Program.everywhere_bind (Program.everywhere_lift _) (fun _ => ?_)
    refine Program.everywhere_bind (Program.everywhere_lift _) (fun _ => ?_)
    exact Program.everywhere_bind (Program.everywhere_request trivial) (fun _ => trivial)

theorem onGetImage_aside (server : Nat) (pid : String) :
    (WebServer.onGetImage server pid).Everywhere Aside := by
  by_cases named : pid = ""
  · subst named
    trivial
  · obtain ⟨next, tree, continued⟩ := WebServer.onGetImage_eq server named
    rw [tree]
    refine ⟨trivial, fun m => ?_⟩
    rw [continued]
    cases WebServer.usable m with
    | none => exact onCacheMiss_aside server pid
    | some url => trivial

theorem onDelete_aside (server : Nat) (pid : String) :
    (WebServer.onDelete server pid).Everywhere Aside := by
  refine Program.everywhere_bind (Program.everywhere_request trivial) (fun _ => ?_)
  refine Program.everywhere_bind (Program.everywhere_request trivial) (fun rows => ?_)
  split
  · trivial
  · refine Program.everywhere_bind (Program.everywhere_lift _) (fun _ => ?_)
    exact Program.everywhere_bind (Program.everywhere_request trivial) (fun _ => trivial)

namespace Genuine

variable {store : Engine} {charset : Charset} {n : Int32} {rs : List Request} {s t : World}

theorem unchanged (genuine : Genuine charset n rs s) (volumes : t.store = s.store)
    (cache : t.imageCache = s.imageCache) : Genuine charset n rs t := by
  refine ⟨?_, ?_, ?_⟩
  · intro table created
    exact genuine.tables table (by simpa only [World.HasVolume, volumes] using created)
  · intro table pid b found
    exact genuine.images table pid b (by simpa only [World.image, volumes] using found)
  · intro server key b found
    exact genuine.cached server key b (cache ▸ found)

theorem setImage (genuine : Genuine charset n rs s) {table pid : String} {b : Bytes}
    (created : s.HasVolume table) (uploaded : Uploaded rs pid b) :
    Genuine charset n rs (s.setImage table pid (some b)) := by
  refine ⟨?_, ?_, genuine.cached⟩
  · intro place there
    exact genuine.tables place ((World.hasVolume_setImage s pid table place (some b)).mp there)
  · intro place q b' found
    rw [World.image_setImage _ _ _ _ created] at found
    split at found
    · rename_i same
      cases Option.some.inj found
      exact same.2 ▸ uploaded
    · exact genuine.images place q b' found

theorem setCached (genuine : Genuine charset n rs s) (server : Nat) {pid : String}
    {entry : Option Bytes} (uploaded : ∀ b, entry = some b → Uploaded rs pid b) :
    Genuine charset n rs (s.setCached server (charset.getBytes pid) entry) := by
  refine ⟨genuine.tables, genuine.images, ?_⟩
  intro other key b found
  rw [World.imageCache_setCached] at found
  split at found
  · rename_i same
    exact ⟨pid, same.2, uploaded b found⟩
  · exact genuine.cached other key b found

theorem of_aside {p : Handler Resp} (all : p.Everywhere Aside) :
    p.Holds (.ofInvariant (Genuine charset n rs)) store.exec (fun _ _ => True) s := by
  refine Program.holds_everywhere ?_ all
  intro c s t r aside genuine answer
  have same : store.exec c s = exec c s := by
    cases c <;> first | rfl | exact aside.elim
  obtain ⟨volumes, cache⟩ := exec_aside aside (same.symm.trans answer)
  exact genuine.unchanged volumes cache

theorem inserted {k : Int32} {pid : String} {b : Bytes} {ps bound : Statement} {rows : List Row}
    (text : Statement.read (WebServer.insertImage k) = some ps)
    (binding : answerOr .illegalArgument
      ((ps.set "pid" (.text pid)).bind (Statement.set "image" (.blob b))) =
      .ok bound)
    (answer : store.exec (.executeBound .store bound) s = .ok (t, rows)) :
    s.HasVolume (lv k) ∧ t = s.setImage (lv k) pid (some b) := by
  by_cases nonneg : 0 ≤ k.toInt
  · cases (Statement.read_of_ofText (WebServer.ofText_insertImage nonneg)).symm.trans text
    have filled := WebServer.bind_imageStatement k pid b
    rw [WebServer.imageStatement] at filled
    rw [filled] at binding
    cases binding
    by_cases created : s.HasVolume (lv k)
    · cases (WebServer.exec_imageInsert k b created).symm.trans answer
      exact ⟨created, rfl⟩
    · have absent : s.store.tables (lv k) = none := by simpa [World.HasVolume] using created
      have refused : executeStore (WebServer.imageInsert k pid b) s = .error .invalidQuery :=
        executeStore_absent absent
      cases refused.symm.trans answer
  · cases (WebServer.read_insertImage_negative (by omega)).symm.trans text

theorem looked {table pid : String} {filtering : Bool} {rows : List Row}
    (answer : store.exec (.executeBound .store
      (.select none table [.eq "pid" (.value (.text pid))] filtering)) s = .ok (t, rows)) :
    t = s ∧ ∀ row ∈ rows, ∃ b, s.image table pid = some b ∧ row = imageRow pid b := by
  change executeStore
    (.select none table [.eq "pid" (.value (.text pid))] filtering) s = _ at answer
  cases there : s.store.tables table with
  | none => simp [executeStore, there] at answer
  | some volume =>
    simp only [executeStore, there, keys, known, Option.getD_none, List.all_nil] at answer
    cases answer
    refine ⟨rfl, ?_⟩
    intro row member
    obtain ⟨p, single, found⟩ := List.mem_filterMap.mp member
    cases List.mem_singleton.mp single
    obtain ⟨b, stored, rfl⟩ := Option.map_eq_some_iff.mp found
    exact ⟨b, by simp [World.image, there, stored], rfl⟩

theorem of_upload (config : HSConfig) {img : Option Bytes} {tmpPid : Int64}
    (own : ∀ b, img = some b → Uploaded rs (toString tmpPid) b) :
    (WebServer.onPostImage config img tmpPid).Holds (.ofInvariant (Genuine charset n rs)) store.exec
      (fun _ _ => True) s := by
  cases img with
  | none => exact fun _ _ _ => trivial
  | some b =>
    simp only [WebServer.onPostImage, WebServer.dirSession, WebServer.storeSession, execute_bind,
      prepare_bind, executeBound_bind]
    have directory : ∀ q vs s t r, Genuine charset n rs s →
        store.exec (.execute .directory q vs) s = .ok (t, r) → Genuine charset n rs t := by
      intro q vs s t r genuine answer
      obtain ⟨volumes, cache⟩ := exec_aside (c := .execute .directory q vs) trivial answer
      exact genuine.unchanged volumes cache
    refine Program.holds_kept
      (fun s t rows genuine answer => ⟨directory _ _ s t _ genuine answer, ?_⟩)
    refine Program.holds_lift _ _ (fun k _ => ?_)
    refine Program.holds_lift _ _ (fun url _ => ?_)
    refine Program.holds_kept
      (fun s t rows genuine answer => ⟨directory _ _ s t _ genuine answer, ?_⟩)
    refine Program.holds_kept (fun s t ps genuine answer => ?_)
    obtain ⟨rfl, text, -⟩ := Engine.prepared answer
    refine ⟨genuine, Program.holds_lift _ _ (fun bound binding => ?_)⟩
    refine Program.holds_kept (fun s t rows genuine answer => ⟨?_, fun _ _ _ => trivial⟩)
    obtain ⟨created, rfl⟩ := inserted text binding answer
    exact genuine.setImage created (own b rfl)

theorem of_get {server : Nat} {lvid pid : String} (honest : ¬ CacheServer.Steers store n lvid pid) :
    (CacheServer.get charset server lvid pid).Holds (.ofInvariant (Genuine charset n rs)) store.exec
      (fun _ _ => True) s := by
  by_cases named : lvid ≠ "" ∧ pid ≠ ""
  swap
  · have blank : lvid = "" ∨ pid = "" := by tauto
    unfold CacheServer.get
    rw [if_pos blank]
    exact fun _ _ _ => trivial
  obtain ⟨next, tree, continued⟩ := CacheServer.get_eq charset server named
  rw [tree]
  refine Program.holds_kept (fun s t m genuine answer => ?_)
  cases answer
  refine ⟨genuine, ?_⟩
  rw [continued]
  cases s.imageCache server (charset.getBytes pid) with
  | some b => exact fun _ _ _ => trivial
  | none =>
    rw [Option.elim_none, CacheServer.getMiss_tree]
    refine Program.holds_kept (fun s t ps genuine answer => ?_)
    obtain ⟨rfl, text, created⟩ := Engine.prepared answer
    refine ⟨genuine, Program.holds_lift _ _ (fun bound binding => ?_)⟩
    refine Program.holds_kept (fun s t rows genuine' executed => ?_)
    rcases CacheServer.text_cases named.2 honest text with
      ⟨table, filtering, rfl⟩ | other | fruitless
    · rw [CacheServer.set_select, if_neg (by simp [Relation.put, Term.put])] at binding
      cases binding
      obtain ⟨rfl, found⟩ := looked executed
      refine ⟨genuine', ?_⟩
      cases rows with
      | nil => exact fun _ _ _ => trivial
      | cons row rows =>
        obtain ⟨b, stored, rfl⟩ := found row List.mem_cons_self
        refine Program.holds_kept (fun s t r genuine'' answer => ⟨?_, fun _ _ _ => trivial⟩)
        cases answer
        apply genuine''.setCached server
        intro b' same
        cases same
        exact genuine'.images table pid b stored
    · exact absurd (genuine.tables _ created) other
    · cases (fruitless _ _ _ answer (answerOr_ok binding) s).symm.trans executed

theorem of_delete {server : Nat} {pid : String} :
    (CacheServer.delete charset server pid).Holds (.ofInvariant (Genuine charset n rs)) store.exec
      (fun _ _ => True) s := by
  obtain ⟨next, tree⟩ := CacheServer.delete_eq charset server pid
  rw [tree]
  refine Program.holds_kept (fun s t r genuine answer => ?_)
  cases answer
  refine ⟨genuine.setCached server (by simp),
    Program.holds_kept (fun s t rows genuine answer => ?_)⟩
  have absent : s.store.tables "photo" = none := by
    rw [← Option.not_isSome_iff_eq_none]
    intro created
    obtain ⟨k, -, same⟩ := genuine.tables "photo" created
    exact lv_ne_photo k same.symm
  cases (CacheServer.exec_searchPhoto absent).symm.trans answer

theorem of_request (config : HSConfig) {q : Request} (member : q ∈ rs)
    (honest : ∀ server lvid pid, q = .cacheGet server lvid pid →
      ¬ CacheServer.Steers store n lvid pid) :
    (handler config charset q).Holds (.ofInvariant (Genuine charset n rs)) store.exec
      (fun _ _ => True) s := by
  cases q with
  | upload web img t =>
    apply of_upload config
    rintro b rfl
    exact ⟨web, t, member, rfl⟩
  | webGet server pid => exact of_aside (onGetImage_aside server pid)
  | webDelete server pid => exact of_aside (onDelete_aside server pid)
  | cacheGet server lvid pid => exact of_get (honest server lvid pid rfl)
  | cacheDelete server pid => exact of_delete

end Genuine

namespace CacheServer

def lookupsOnly : Engine :=
  ⟨fun _ => 0, fun _ => [], fun _ => false, fun _ _ => false, fun _ _ _ => [], fun _ _ _ _ => rfl⟩

theorem tables_shipped : Tables 2 World.shipped := by
  intro table
  constructor
  · intro created
    by_cases first : table = "lv1"
    · exact ⟨1, by decide, first⟩
    by_cases second : table = "lv2"
    · exact ⟨2, by decide, second⟩
    simp [World.HasVolume, World.shipped, World.fresh, first, second] at created
  · rintro ⟨k, ⟨lower, upper⟩, rfl⟩
    exact World.ready_shipped.volumes k lower upper

def steeringLvid : String := "2 WHERE pid IN ('7', :pid) --"

theorem read_steeringLvid : Statement.read ("SELECT * FROM lv" ++ steeringLvid) =
    some (.select none "lv2" [.within "pid" [.value (.text "7"), .named "pid"]] false) := by
  have read : lex ("SELECT * FROM lv" ++ steeringLvid) =
      some [.word "select", .punct '*', .word "from",
    .word "lv2", .word "where", .word "pid", .word "in",
    .punct '(', .text "7", .punct ',', .punct ':', .word "pid", .punct ')'] := by decide
  apply Statement.read_of_ofText
  rw [Statement.ofText, read]
  rfl

theorem steeringLvid_commented : Commented steeringLvid := by decide

def limitingLvid : String := "2 WHERE \"pid\" IN ($$7$$, :pid) LIMIT 1 //"

def limitingClauses : List Token :=
  [.word "where", .quoted "pid", .word "in", .punct '(', .text "7", .punct ',', .punct ':',
    .word "pid", .punct ')', .word "limit", .number "1"]

theorem read_limitingLvid : Statement.read ("SELECT * FROM lv" ++ limitingLvid) =
    some (.further "lv2" limitingClauses []) := by
  have read : lex ("SELECT * FROM lv" ++ limitingLvid) = some (.word "select" :: .punct '*' ::
    .word "from" :: .word "lv2" :: limitingClauses) := by decide
  rw [Statement.read, Statement.ofText, read]
  rfl

end CacheServer

end Haystack
