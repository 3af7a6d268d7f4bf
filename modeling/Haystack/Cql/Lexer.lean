import Mathlib

/-! The lexical rules of CQL: words, names in double quotes, numbers and the other constants
that are written without quotes, texts in single quotes or between double dollars,
punctuation and comments. The lexer reads one character at a time, so a text that is glued
together from a fixed part and a variable one can be read piece by piece. -/
namespace Haystack.Cql

/-- Words are kept in lower case. A number stands for every constant without quotes, which
is a uuid or a blob as well, and is kept as it is written. -/
inductive Token where
  | word (s : String)
  | quoted (s : String)
  | number (s : String)
  | text (s : String)
  | punct (c : Char)
  deriving DecidableEq, Repr

/-- Where the lexer stands. Characters already read are kept in reverse order. -/
inductive Mode where
  | blank
  | word (read : List Char)
  | wordDash (read : List Char)
  | number (read : List Char)
  | numberDash (read : List Char)
  | name (read : List Char)
  | nameQuote (read : List Char)
  | text (read : List Char)
  | quote (read : List Char)
  | dollar
  | dollars (read : List Char)
  | dollarsEnd (read : List Char)
  | dash
  | slash
  | comment
  | block
  | star
  deriving DecidableEq, Repr

def isWordChar (c : Char) : Bool := c.isAlphanum || c == '_'

def isPunct (c : Char) : Bool :=
  ['(', ')', '[', ']', '{', '}', ',', ';', '.', '*', '=', '<', '>', '!', '?', ':', '+'].contains c

def joined (read : List Char) : String := String.ofList read.reverse

def fresh (c : Char) : Option Mode :=
  if c.isWhitespace then some .blank
  else if c.isAlpha then some (.word [c.toLower])
  else if c.isDigit then some (.number [c])
  else if c = '\'' then some (.text [])
  else if c = '"' then some (.name [])
  else if c = '$' then some .dollar
  else if c = '-' then some .dash
  else if c = '/' then some .slash
  else none

def between (c : Char) (before : List Token) : Option (Mode × List Token) :=
  if isPunct c then some (.blank, before ++ [.punct c])
  else (fresh c).map (fun m => (m, before))

/-- A dash with the tokens before it: a second one opens a comment, and a letter or a digit
makes it part of a number, of which the characters are given. -/
def afterDash (before : List Token) (read : List Char) (c : Char) : Option (Mode × List Token) :=
  if c = '-' then some (.comment, before)
  else if isWordChar c then some (.number (c :: '-' :: read), [])
  else between c (before ++ [.punct '-'])

def quotedName (read : List Char) : Option (List Token) :=
  if read = [] then none else some [.quoted (joined read)]

def goesOn (read : List Char) (c : Char) : Bool :=
  isWordChar c || c == '.' || (c == '+' && (read.head? == some 'e' || read.head? == some 'E'))

/-- One character. Two quotes inside a text or a name denote one; it otherwise ends at the
quote. Two dashes or slashes open a comment that ends with the line. -/
def step : Mode → Char → Option (Mode × List Token)
  | .blank, c => between c []
  | .word read, c =>
    if isWordChar c then some (.word (c.toLower :: read), [])
    else if c = '-' then some (.wordDash read, [])
    else between c [.word (joined read)]
  | .wordDash read, c => afterDash [.word (joined read)] read c
  | .number read, c =>
    if goesOn read c then some (.number (c :: read), [])
    else if c = '-' then some (.numberDash read, [])
    else between c [.number (joined read)]
  | .numberDash read, c => afterDash [.number (joined read)] read c
  | .name read, c => if c = '"' then some (.nameQuote read, []) else some (.name (c :: read), [])
  | .nameQuote read, c =>
    if c = '"' then some (.name ('"' :: read), []) else (quotedName read).bind (between c)
  | .text read, c => if c = '\'' then some (.quote read, []) else some (.text (c :: read), [])
  | .quote read, c =>
    if c = '\'' then some (.text ('\'' :: read), []) else between c [.text (joined read)]
  | .dollar, c => if c = '$' then some (.dollars [], []) else none
  | .dollars read, c =>
    if c = '$' then some (.dollarsEnd read, []) else some (.dollars (c :: read), [])
  | .dollarsEnd read, c =>
    if c = '$' then some (.blank, [.text (joined read)]) else some (.dollars (c :: '$' :: read), [])
  | .dash, c => afterDash [] [] c
  | .slash, c =>
    if c = '/' then some (.comment, []) else if c = '*' then some (.block, [])
    else between c [.punct '/']
  | .comment, c => if c = '\n' ∨ c = '\r' then some (.blank, []) else some (.comment, [])
  | .block, c => if c = '*' then some (.star, []) else some (.block, [])
  | .star, c =>
    if c = '/' then some (.blank, []) else if c = '*' then some (.star, []) else some (.block, [])

/-- The end of the text. A text, a name or a block comment that is still open is an error. -/
def finish : Mode → Option (List Token)
  | .blank => some []
  | .word read => some [.word (joined read)]
  | .wordDash read => some [.word (joined read), .punct '-']
  | .number read => some [.number (joined read)]
  | .numberDash read => some [.number (joined read), .punct '-']
  | .name _ => none
  | .nameQuote read => quotedName read
  | .text _ => none
  | .quote read => some [.text (joined read)]
  | .dollar => none
  | .dollars _ => none
  | .dollarsEnd _ => none
  | .dash => some [.punct '-']
  | .slash => some [.punct '/']
  | .comment => some []
  | .block => none
  | .star => none

def scan (m : Mode) : List Char → Option (Mode × List Token)
  | [] => some (m, [])
  | c :: cs => (step m c).bind (fun a => (scan a.1 cs).map (fun b => (b.1, a.2 ++ b.2)))

def lexFrom (m : Mode) (cs : List Char) : Option (List Token) :=
  (scan m cs).bind (fun a => (finish a.1).map (fun ts => a.2 ++ ts))

def lex (s : String) : Option (List Token) := lexFrom .blank s.toList

theorem scan_append (m : Mode) (xs ys : List Char) :
    scan m (xs ++ ys) =
      (scan m xs).bind (fun a => (scan a.1 ys).map (fun b => (b.1, a.2 ++ b.2))) := by
  induction xs generalizing m with
  | nil => simp [scan]
  | cons c xs ih =>
    simp only [List.cons_append, scan, ih]
    cases step m c with
    | none => rfl
    | some a =>
      simp only [Option.bind_some]
      cases scan a.1 xs with
      | none => rfl
      | some b => simp [Option.map_map, Function.comp_def, List.append_assoc]

theorem lexFrom_append {m n : Mode} {xs : List Char} {ts : List Token}
    (first : scan m xs = some (n, ts)) (ys : List Char) :
    lexFrom m (xs ++ ys) = (lexFrom n ys).map (fun us => ts ++ us) := by
  simp only [lexFrom, scan_append, first, Option.bind_some]
  cases scan n ys with
  | none => rfl
  | some b => simp [Option.map_map, Function.comp_def, List.append_assoc]

theorem lexFrom_cons (m : Mode) (c : Char) (cs : List Char) :
    lexFrom m (c :: cs) =
      (step m c).bind (fun a => (lexFrom a.1 cs).map (fun us => a.2 ++ us)) := by
  cases first : step m c with
  | none => simp [lexFrom, scan, first]
  | some a =>
    have one : scan m [c] = some a := by simp [scan, first]
    exact lexFrom_append one cs

theorem between_before {c : Char} {before ts : List Token} {m : Mode}
    (read : between c before = some (m, ts)) : ∃ more, ts = before ++ more := by
  unfold between at read
  split at read
  · cases read
    exact ⟨_, rfl⟩
  · obtain ⟨n, -, same⟩ := Option.map_eq_some_iff.mp read
    cases same
    exact ⟨[], by simp⟩

theorem length_joined (read : List Char) : (joined read).length = read.length := by
  simp [joined]

theorem lexFrom_literal (cs read : List Char) :
    (∀ ts, lexFrom (.text read) cs = some ts → ∃ s us, ts = .text s :: us ∧
      2 * s.length + cs.count '\'' + 1 ≤ 2 * (read.length + cs.length)) ∧
    (∀ ts, lexFrom (.quote read) cs = some ts → ∃ s us, ts = .text s :: us ∧
      2 * s.length + cs.count '\'' ≤ 2 * (read.length + cs.length)) := by
  induction cs generalizing read with
  | nil =>
    refine ⟨fun ts lexed => (by cases lexed), fun ts lexed => ?_⟩
    cases lexed
    exact ⟨joined read, [], rfl, by simp [length_joined]⟩
  | cons c cs ih =>
    refine ⟨fun ts lexed => ?_, fun ts lexed => ?_⟩
    · rw [lexFrom_cons] at lexed
      by_cases quote : c = '\''
      · simp only [step, if_pos quote, Option.bind_some, List.nil_append, Option.map_id'] at lexed
        obtain ⟨s, us, rfl, bound⟩ := (ih read).2 ts lexed
        refine ⟨s, us, rfl, ?_⟩
        rw [quote, List.count_cons_self, List.length_cons]
        omega
      · simp only [step, if_neg quote, Option.bind_some, List.nil_append, Option.map_id'] at lexed
        obtain ⟨s, us, rfl, bound⟩ := (ih (c :: read)).1 ts lexed
        refine ⟨s, us, rfl, ?_⟩
        rw [List.count_cons_of_ne quote]
        simp only [List.length_cons] at bound ⊢
        omega
    · rw [lexFrom_cons] at lexed
      by_cases quote : c = '\''
      · simp only [step, if_pos quote, Option.bind_some, List.nil_append, Option.map_id'] at lexed
        obtain ⟨s, us, rfl, bound⟩ := (ih ('\'' :: read)).1 ts lexed
        refine ⟨s, us, rfl, ?_⟩
        rw [quote, List.count_cons_self]
        simp only [List.length_cons] at bound ⊢
        omega
      · simp only [step, if_neg quote] at lexed
        obtain ⟨⟨n, before⟩, closed, lexed⟩ := Option.bind_eq_some_iff.mp lexed
        obtain ⟨more, rfl⟩ := between_before closed
        obtain ⟨us, -, rfl⟩ := Option.map_eq_some_iff.mp lexed
        refine ⟨joined read, more ++ us, rfl, ?_⟩
        have few := List.count_le_length (a := '\'') (l := c :: cs)
        rw [length_joined]
        omega

theorem scan_text {cs : List Char} (plain : '\'' ∉ cs) (read : List Char) :
    scan (.text read) cs = some (.text (cs.reverse ++ read), []) := by
  induction cs generalizing read with
  | nil => rfl
  | cons c cs ih =>
    have head : c ≠ '\'' := fun same => plain (same ▸ List.mem_cons_self)
    have tail : '\'' ∉ cs := fun member => plain (List.mem_cons_of_mem _ member)
    simp [scan, step, head, ih tail]

theorem afterDash_before {before ts : List Token} {read : List Char} {c : Char} {m : Mode}
    (dashed : afterDash before read c = some (m, ts)) :
    (∃ chars, m = .number chars ∧ ts = []) ∨ ∃ more, ts = before ++ more := by
  unfold afterDash at dashed
  split at dashed
  · cases dashed
    exact .inr ⟨[], by simp⟩
  · split at dashed
    · cases dashed
      exact .inl ⟨_, rfl, rfl⟩
    · obtain ⟨more, rfl⟩ := between_before dashed
      exact .inr ⟨[.punct '-'] ++ more, by simp⟩

theorem lexFrom_number {cs read : List Char} {ts : List Token} :
    (lexFrom (.number read) cs = some ts → ∃ s us, ts = .number s :: us) ∧
    (lexFrom (.numberDash read) cs = some ts → ∃ s us, ts = .number s :: us) := by
  induction cs generalizing read ts with
  | nil =>
    constructor
    · intro lexed
      cases lexed
      exact ⟨joined read, [], rfl⟩
    · intro lexed
      cases lexed
      exact ⟨joined read, [.punct '-'], rfl⟩
  | cons c cs ih =>
    constructor
    · intro lexed
      rw [lexFrom_cons] at lexed
      simp only [step] at lexed
      split at lexed
      · exact ih.1 (by simpa using lexed)
      · split at lexed
        · exact ih.2 (by simpa using lexed)
        · obtain ⟨⟨n, before⟩, closed, lexed⟩ := Option.bind_eq_some_iff.mp lexed
          obtain ⟨more, rfl⟩ := between_before closed
          obtain ⟨us, -, rfl⟩ := Option.map_eq_some_iff.mp lexed
          exact ⟨joined read, more ++ us, rfl⟩
    · intro lexed
      rw [lexFrom_cons] at lexed
      obtain ⟨⟨n, before⟩, closed, lexed⟩ := Option.bind_eq_some_iff.mp lexed
      obtain ⟨us, rest, rfl⟩ := Option.map_eq_some_iff.mp lexed
      rcases afterDash_before closed with ⟨chars, rfl, rfl⟩ | ⟨more, rfl⟩
      · exact ih.1 rest
      · exact ⟨joined read, more ++ us, rfl⟩

theorem lexFrom_wordDash {cs read : List Char} {ts : List Token}
    (lexed : lexFrom (.wordDash read) cs = some ts) :
    (∃ s us, ts = .word s :: us) ∨ ∃ s us, ts = .number s :: us := by
  cases cs with
  | nil =>
    cases lexed
    exact .inl ⟨joined read, [.punct '-'], rfl⟩
  | cons c cs =>
    rw [lexFrom_cons] at lexed
    obtain ⟨⟨n, before⟩, closed, lexed⟩ := Option.bind_eq_some_iff.mp lexed
    obtain ⟨us, rest, rfl⟩ := Option.map_eq_some_iff.mp lexed
    rcases afterDash_before closed with ⟨chars, rfl, rfl⟩ | ⟨more, rfl⟩
    · exact .inr (lexFrom_number.1 rest)
    · exact .inl ⟨joined read, more ++ us, rfl⟩

theorem lexFrom_word {cs read : List Char} {ts : List Token}
    (lexed : lexFrom (.word read) cs = some ts) :
    (∃ s us, ts = .word s :: us) ∨ ∃ s us, ts = .number s :: us := by
  induction cs generalizing read ts with
  | nil =>
    cases lexed
    exact .inl ⟨joined read, [], rfl⟩
  | cons c cs ih =>
    rw [lexFrom_cons] at lexed
    simp only [step] at lexed
    split at lexed
    · exact ih (by simpa using lexed)
    · split at lexed
      · exact lexFrom_wordDash (by simpa using lexed)
      · obtain ⟨⟨n, before⟩, closed, lexed⟩ := Option.bind_eq_some_iff.mp lexed
        obtain ⟨more, rfl⟩ := between_before closed
        obtain ⟨us, -, rfl⟩ := Option.map_eq_some_iff.mp lexed
        exact .inl ⟨joined read, more ++ us, rfl⟩

theorem scan_word {cs : List Char} (word : ∀ c ∈ cs, isWordChar c = true) (read : List Char) :
    scan (.word read) cs = some (.word ((cs.map Char.toLower).reverse ++ read), []) := by
  induction cs generalizing read with
  | nil => rfl
  | cons c cs ih =>
    have head := word c List.mem_cons_self
    have tail : ∀ c ∈ cs, isWordChar c = true :=
      fun c member => word c (List.mem_cons_of_mem _ member)
    simp [scan, step, head, ih tail]

def Plain (s : String) : Prop := '\'' ∉ s.toList

instance (s : String) : Decidable (Plain s) := inferInstanceAs (Decidable (_ ∉ _))

def Wordlike (s : String) : Prop := ∀ c ∈ s.toList, isWordChar c = true

instance (s : String) : Decidable (Wordlike s) := List.decidableBAll _ s.toList

def lowered (s : String) : String := String.ofList (s.toList.map Char.toLower)

theorem joined_reverse (s : String) : joined s.toList.reverse = s := by
  simp [joined]

theorem joined_lowered (s t : String) :
    joined ((s.toList.map Char.toLower).reverse ++ t.toList.reverse) = t ++ lowered s := by
  simp [joined, lowered, String.ofList_append]

theorem lex_literal (before s after : String) (ts us : List Token) (plain : Plain s)
    (opened : scan .blank before.toList = some (.text [], ts))
    (closed : ∀ read, lexFrom (.text read) after.toList = some (.text (joined read) :: us)) :
    lex (before ++ s ++ after) = some (ts ++ .text s :: us) := by
  unfold lex
  rw [String.toList_append, String.toList_append, List.append_assoc, lexFrom_append opened,
    lexFrom_append (scan_text plain []), closed]
  simp [joined_reverse]

theorem lex_word (before stem s after : String) (ts us : List Token) (word : Wordlike s)
    (opened : scan .blank before.toList = some (.word stem.toList.reverse, ts))
    (closed : ∀ read, lexFrom (.word read) after.toList = some (.word (joined read) :: us)) :
    lex (before ++ s ++ after) = some (ts ++ .word (stem ++ lowered s) :: us) := by
  unfold lex
  rw [String.toList_append, String.toList_append, List.append_assoc, lexFrom_append opened,
    lexFrom_append (scan_word word _), closed]
  simp [joined_lowered]

end Haystack.Cql
