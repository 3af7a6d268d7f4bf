import Haystack.Cql.Lexer

/-! Statements: what a text of tokens says, and how values are bound to its
markers. Only the data statements are read from text; the definition of
keyspaces and tables carries no request data and is not parsed. The clauses and
relations of a select go far beyond those that such a system writes itself. A select that
has any others is read up to its table, and the rest is kept as it is written. -/
namespace Haystack.Cql

abbrev Bytes := List UInt8

inductive Value where
  | text (s : String)
  | int (i : Int32)
  | blob (b : Bytes)
  deriving DecidableEq, Repr

inductive Term where
  | value (v : Value)
  | positional
  | named (name : String)
  deriving DecidableEq, Repr

inductive Comparison where
  | eq | lt | le | gt | ge
  deriving DecidableEq, Repr

inductive Relation where
  | eq (column : String) (t : Term)
  | within (column : String) (ts : List Term)
  | token (column : String) (op : Comparison) (t : Term)
  deriving DecidableEq, Repr

/-- A select without a column list reads all columns. A further select is one of all columns
with clauses of any kind, of which the tokens are kept beside the values bound so far. -/
inductive Statement where
  | select (columns : Option (List String)) (table : String) (relations : List Relation)
      (allowFiltering : Bool)
  | further (table : String) (clauses : List Token) (bound : List (String × Value))
  | insert (table : String) (columns : List String) (values : List Term)
  | update (table : String) (assignments : List (String × Term)) (relations : List Relation)
  | delete (table : String) (relations : List Relation)
  deriving DecidableEq, Repr

def Statement.table : Statement → String
  | .select _ table _ _ => table
  | .further table _ _ => table
  | .insert table _ _ => table
  | .update table _ _ => table
  | .delete table _ => table

def Statement.writes : Statement → Bool
  | .select _ _ _ _ => false
  | .further _ _ _ => false
  | _ => true

abbrev Parse := StateT (List Token) Option

namespace Parse

def keyword (w : String) : Parse Unit
  | .word s :: ts => if s = w then some ((), ts) else none
  | _ => none

def symbol (c : Char) : Parse Unit
  | .punct p :: ts => if p = c then some ((), ts) else none
  | _ => none

def name : Parse String
  | .word s :: ts => some (s, ts)
  | .quoted s :: ts => some (s, ts)
  | _ => none

def orElse {α : Type} (p q : Parse α) : Parse α := fun ts => (p ts).orElse (fun _ => q ts)

def decimal (s : String) : Option Int32 :=
  let n := s.toList.foldl (fun n c => 10 * n + (c.toNat - '0'.toNat)) 0
  if s.toList.all Char.isDigit && n < 2 ^ 31 then some (Int32.ofNat n) else none

def term : Parse Term
  | .text s :: ts => some (.value (.text s), ts)
  | .number s :: ts => (decimal s).map (fun i => (.value (.int i), ts))
  | .punct '?' :: ts => some (.positional, ts)
  | .punct ':' :: .word s :: ts => some (.named s, ts)
  | .punct ':' :: .quoted s :: ts => some (.named s, ts)
  | _ => none

def separated {α : Type} (separator : Parse Unit) (item : Parse α) : Nat → Parse (List α)
  | 0 => fun _ => none
  | fuel + 1 => do
    let a ← item
    orElse (do separator; let rest ← separated separator item fuel; pure (a :: rest)) (pure [a])

def list {α : Type} (separator : Parse Unit) (item : Parse α) : Parse (List α) :=
  fun ts => separated separator item ts.length ts

def comparison : Parse Comparison
  | .punct '=' :: ts => some (.eq, ts)
  | .punct '<' :: .punct '=' :: ts => some (.le, ts)
  | .punct '<' :: ts => some (.lt, ts)
  | .punct '>' :: .punct '=' :: ts => some (.ge, ts)
  | .punct '>' :: ts => some (.gt, ts)
  | _ => none

def tokenRelation : Parse Relation := do
  keyword "token"; symbol '('; let column ← name; symbol ')'
  let op ← comparison
  keyword "token"; symbol '('; let t ← term; symbol ')'
  pure (.token column op t)

def columnRelation : Parse Relation := do
  let column ← name
  orElse (do symbol '='; let t ← term; pure (.eq column t))
    (do keyword "in"; symbol '('; let ts ← list (symbol ',') term; symbol ')'
        pure (.within column ts))

def relation : Parse Relation := orElse tokenRelation columnRelation

def restriction : Parse (List Relation) := do
  keyword "where"
  list (keyword "and") relation

def columns : Parse (Option (List String)) :=
  orElse (do symbol '*'; pure none) (do let names ← list (symbol ',') name; pure (some names))

def allowFiltering : Parse Bool :=
  orElse (do keyword "allow"; keyword "filtering"; pure true) (pure false)

def selection (columns : Option (List String)) (table : String) : Parse Statement := do
  let relations ← orElse restriction (pure [])
  let filtering ← allowFiltering
  pure (.select columns table relations filtering)

def select : Parse Statement := do
  keyword "select"
  let columns ← columns
  keyword "from"
  let table ← name
  selection columns table

def insert : Parse Statement := do
  keyword "insert"; keyword "into"
  let table ← name
  symbol '('; let columns ← list (symbol ',') name; symbol ')'
  keyword "values"
  symbol '('; let values ← list (symbol ',') term; symbol ')'
  pure (.insert table columns values)

def assignment : Parse (String × Term) := do
  let column ← name
  symbol '='
  let t ← term
  pure (column, t)

def update : Parse Statement := do
  keyword "update"
  let table ← name
  keyword "set"
  let assignments ← list (symbol ',') assignment
  let relations ← restriction
  pure (.update table assignments relations)

def delete : Parse Statement := do
  keyword "delete"; keyword "from"
  let table ← name
  let relations ← restriction
  pure (.delete table relations)

/-- A select of all columns, whatever follows its table. -/
def further : List Token → Option Statement
  | .word "select" :: .punct '*' :: .word "from" :: ts =>
    (name ts).map (fun read => .further read.1 read.2 [])
  | _ => none

def ending {α : Type} (a : α) : List Token → Option α
  | [] => some a
  | [.punct ';'] => some a
  | _ => none

end Parse

namespace Parse

theorem bind_some {α β : Type} {p : Parse α} {f : α → Parse β} {ts : List Token}
    {r : β × List Token} (h : (p >>= f) ts = some r) :
    ∃ a us, p ts = some (a, us) ∧ f a us = some r := by
  change (p ts).bind (fun a => f a.1 a.2) = some r at h
  obtain ⟨⟨a, us⟩, first, second⟩ := Option.bind_eq_some_iff.mp h
  exact ⟨a, us, first, second⟩

theorem name_some {s : String} {ts us : List Token} (read : name ts = some (s, us)) :
    ∃ t, ts = t :: us ∧ (t = .word s ∨ t = .quoted s) := by
  unfold name at read
  split at read
  · cases read
    exact ⟨_, rfl, .inl rfl⟩
  · cases read
    exact ⟨_, rfl, .inr rfl⟩
  · cases read

theorem further_some {ts : List Token} {st : Statement} (read : further ts = some st) :
    ∃ t us, ts = .word "select" :: .punct '*' :: .word "from" :: t :: us ∧
      ∃ table, (t = .word table ∨ t = .quoted table) ∧ st = .further table us [] := by
  unfold further at read
  split at read
  · obtain ⟨⟨table, us⟩, named, rfl⟩ := Option.map_eq_some_iff.mp read
    obtain ⟨t, rfl, found⟩ := name_some named
    exact ⟨t, us, rfl, table, found, rfl⟩
  · cases read

theorem selection_shape {columns : Option (List String)} {table : String} {ts rest : List Token}
    {st : Statement} (h : selection columns table ts = some (st, rest)) :
    ∃ relations filtering, st = .select columns table relations filtering := by
  obtain ⟨relations, us, _, h⟩ := bind_some h
  obtain ⟨filtering, vs, _, h⟩ := bind_some h
  cases h
  exact ⟨relations, filtering, rfl⟩

theorem separated_head {α : Type} {item : Parse α} {a : α} {ts us : List Token}
    (separator : Parse Unit) (fuel : Nat) (first : item ts = some (a, us)) :
    ∃ rest vs, separated separator item (fuel + 1) ts = some (a :: rest, vs) := by
  let tail : Parse (List α) := do
    separator
    let rest ← separated separator item fuel
    pure (a :: rest)
  have opened : separated separator item (fuel + 1) ts =
      (tail us).orElse (fun _ => some ([a], us)) := by
    change (item ts).bind _ = _
    rw [first]
    rfl
  rw [opened]
  cases more : tail us with
  | none => exact ⟨[], us, rfl⟩
  | some found =>
    obtain ⟨-, _, -, more⟩ := bind_some more
    obtain ⟨rest, vs, -, more⟩ := bind_some more
    cases more
    exact ⟨rest, vs, rfl⟩

theorem relation_literal (column s : String) (us : List Token) :
    relation (.word column :: .punct '=' :: .text s :: us) =
      some (.eq column (.value (.text s)), us) := by
  by_cases token : column = "token"
  · subst token
    rfl
  · have other : tokenRelation (.word column :: .punct '=' :: .text s :: us) = none := by
      change ((keyword "token" _).bind _) = none
      simp [keyword, token]
    simp only [relation, orElse, other]
    rfl

theorem selection_literal {columns : Option (List String)} {table column s : String}
    {us rest : List Token} {st : Statement}
    (read : selection columns table (.word "where" :: .word column :: .punct '=' :: .text s :: us) =
      some (st, rest)) :
    ∃ more filtering,
      st = .select columns table (.eq column (.value (.text s)) :: more) filtering := by
  obtain ⟨relations, vs, restricted, read⟩ := bind_some read
  obtain ⟨filtering, _, -, read⟩ := bind_some read
  cases read
  obtain ⟨more, ws, named⟩ := separated_head (keyword "and") (us.length + 2)
    (relation_literal column s us)
  have found : orElse restriction (pure [])
      (.word "where" :: .word column :: .punct '=' :: .text s :: us) =
      some (.eq column (.value (.text s)) :: more, ws) := by
    change (separated (keyword "and") relation (us.length + 2 + 1) _).orElse _ = _
    rw [named]
    rfl
  cases found.symm.trans restricted
  exact ⟨more, filtering, rfl⟩

def statement : Parse Statement := orElse select (orElse insert (orElse update delete))

end Parse

def Statement.parse (ts : List Token) : Option Statement :=
  (Parse.statement ts).bind (fun read => Parse.ending read.1 read.2)

/-- The statement a text denotes, if the server accepts it. Proofs go by the
lemmas on each text and never run the lexer. -/
@[irreducible] def Statement.ofText (query : String) : Option Statement :=
  (lex query).bind Statement.parse

/-- The same where the server may accept more selects than those of this module. -/
@[irreducible] def Statement.read (query : String) : Option Statement :=
  (Statement.ofText query).or ((lex query).bind Parse.further)

theorem Statement.read_of_ofText {query : String} {st : Statement}
    (text : Statement.ofText query = some st) : Statement.read query = some st := by
  rw [Statement.read, text]
  rfl

theorem Statement.ofText_of_read {query table : String} {columns : Option (List String)}
    {relations : List Relation} {filtering : Bool}
    (read : Statement.read query = some (.select columns table relations filtering)) :
    Statement.ofText query = some (.select columns table relations filtering) := by
  rw [Statement.read] at read
  cases text : Statement.ofText query with
  | some st =>
    rw [text] at read
    exact read
  | none =>
    rw [text, Option.none_or] at read
    obtain ⟨ts, -, read⟩ := Option.bind_eq_some_iff.mp read
    obtain ⟨_, _, -, _, -, same⟩ := Parse.further_some read
    cases same

theorem Parse.ending_eq {α : Type} {a b : α} {ts : List Token} (ended : ending a ts = some b) :
    a = b := by
  unfold ending at ended
  split at ended <;> simp_all

theorem Statement.ofText_append {front after : String} {m : Mode} {ts : List Token} {st : Statement}
    (opened : scan .blank front.toList = some (m, ts))
    (accepted : Statement.ofText (front ++ after) = some st) : ∃ vs rest,
      lexFrom m after.toList = some vs ∧ Parse.statement (ts ++ vs) = some (st, rest) ∧
        Parse.ending st rest = some st := by
  unfold Statement.ofText lex at accepted
  rw [String.toList_append, lexFrom_append opened] at accepted
  obtain ⟨tokens, lexed, parsed⟩ := Option.bind_eq_some_iff.mp accepted
  obtain ⟨vs, read, rfl⟩ := Option.map_eq_some_iff.mp lexed
  obtain ⟨⟨found, rest⟩, selected, ended⟩ := Option.bind_eq_some_iff.mp parsed
  cases Parse.ending_eq ended
  exact ⟨vs, rest, read, selected, ended⟩

theorem Statement.ofText_selection (us : List Token) {front after : String} {m : Mode}
    {ts : List Token} {columns : Option (List String)} {table : String} {st : Statement}
    (opened : scan .blank front.toList = some (m, ts))
    (reads : ∀ vs, Parse.statement (ts ++ vs) =
      (Parse.selection columns table (us ++ vs)).orElse (fun _ => none))
    (accepted : Statement.ofText (front ++ after) = some st) :
    ∃ relations filtering, st = .select columns table relations filtering := by
  obtain ⟨vs, rest, -, selected, -⟩ := ofText_append opened accepted
  have chosen : Parse.selection columns table (us ++ vs) = some (st, rest) := by
    simpa using (reads vs).symm.trans selected
  exact Parse.selection_shape chosen

theorem Statement.ofText_literal {front after column : String} {ts : List Token}
    {columns : Option (List String)} {table : String} {st : Statement}
    (opened : scan .blank front.toList = some (.text [], ts))
    (reads : ∀ vs, Parse.statement (ts ++ vs) =
      (Parse.selection columns table (.word "where" :: .word column :: .punct '=' :: vs)).orElse
        (fun _ => none))
    (accepted : Statement.ofText (front ++ after) = some st) : ∃ s more filtering,
      st = .select columns table (.eq column (.value (.text s)) :: more) filtering ∧
        2 * s.length + after.toList.count '\'' + 1 ≤ 2 * after.toList.length := by
  obtain ⟨vs, rest, lexed, selected, -⟩ := ofText_append opened accepted
  obtain ⟨s, us, rfl, bound⟩ := (lexFrom_literal after.toList []).1 vs lexed
  have chosen : Parse.selection columns table
      (.word "where" :: .word column :: .punct '=' :: .text s :: us) = some (st, rest) := by
    simpa using (reads (.text s :: us)).symm.trans selected
  obtain ⟨more, filtering, rfl⟩ := Parse.selection_literal chosen
  exact ⟨s, more, filtering, rfl, by simpa using bound⟩

def Term.fill : Term → StateT (List Value) Option Term
  | .positional => fun vs => match vs with
    | v :: vs => some (.value v, vs)
    | [] => none
  | t => pure t

def Relation.fill : Relation → StateT (List Value) Option Relation
  | .eq column t => do return .eq column (← t.fill)
  | .within column ts => do return .within column (← ts.mapM Term.fill)
  | .token column op t => do return .token column op (← t.fill)

def Statement.fill : Statement → StateT (List Value) Option Statement
  | .select columns table relations filtering => do
    return .select columns table (← relations.mapM Relation.fill) filtering
  | .further _ _ _ => fun _ => none
  | .insert table columns values => do return .insert table columns (← values.mapM Term.fill)
  | .update table assignments relations => do
    let assigned ← assignments.mapM (fun a => do return (a.1, ← a.2.fill))
    return .update table assigned (← relations.mapM Relation.fill)
  | .delete table relations => do return .delete table (← relations.mapM Relation.fill)

def Statement.bind (st : Statement) (vs : List Value) : Option Statement :=
  match st.fill vs with
  | some (filled, []) => some filled
  | _ => none

theorem Statement.bind_select {columns : Option (List String)} {table : String}
    {relations : List Relation} {filtering : Bool} {filled : Statement} {vs : List Value}
    (bound : (Statement.select columns table relations filtering).bind vs = some filled) :
    ∃ given, filled = .select columns table given filtering := by
  unfold Statement.bind at bound
  split at bound
  · rename_i read fits
    cases Option.some.inj bound
    obtain ⟨⟨given, us⟩, _, h⟩ := Option.bind_eq_some_iff.mp fits
    cases h
    exact ⟨given, rfl⟩
  · contradiction

def Term.put (marker : String) (v : Value) (t : Term) : Term :=
  if t = .named marker then .value v else t

def Relation.put (marker : String) (v : Value) : Relation → Relation
  | .eq column t => .eq column (t.put marker v)
  | .within column ts => .within column (ts.map (Term.put marker v))
  | .token column op t => .token column op (t.put marker v)

def marked (marker : String) : List Token → Bool
  | .punct ':' :: .word s :: ts => s == marker || marked marker ts
  | .punct ':' :: .quoted s :: ts => s == marker || marked marker ts
  | _ :: ts => marked marker ts
  | [] => false

def Statement.put (marker : String) (v : Value) : Statement → Statement
  | .select columns table relations filtering =>
    .select columns table (relations.map (Relation.put marker v)) filtering
  | .further table clauses bound =>
    .further table clauses (if marked marker clauses then (marker, v) :: bound else bound)
  | .insert table columns values => .insert table columns (values.map (Term.put marker v))
  | .update table assignments relations =>
    .update table (assignments.map (fun a => (a.1, a.2.put marker v)))
      (relations.map (Relation.put marker v))
  | .delete table relations => .delete table (relations.map (Relation.put marker v))

/-- A value for the markers of one name; it is an error if there is none. -/
def Statement.set (marker : String) (v : Value) (st : Statement) : Option Statement :=
  if st.put marker v = st then none else some (st.put marker v)

theorem Statement.writes_set {marker : String} {v : Value} {st bound : Statement}
    (binding : st.set marker v = some bound) : bound.writes = st.writes := by
  unfold Statement.set at binding
  split at binding
  · cases binding
  · cases binding
    cases st <;> rfl

end Haystack.Cql
