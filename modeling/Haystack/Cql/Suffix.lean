import Haystack.Cql.Statement

/-! The parsers use up their tokens from the front. A text that ends in a comparison with a
marker is therefore that comparison and nothing else, whatever is written in front of it. -/
namespace Haystack.Cql.Parse

variable {α : Type} {ts us : List Token}

theorem keyword_some {w : String} {u : Unit} (read : keyword w ts = some (u, us)) :
    ts = .word w :: us := by
  unfold keyword at read
  split at read
  · split at read
    · rename_i same
      cases read
      rw [same]
    · cases read
  · cases read

theorem symbol_some {c : Char} {u : Unit} (read : symbol c ts = some (u, us)) :
    ts = .punct c :: us := by
  unfold symbol at read
  split at read
  · split at read
    · rename_i same
      cases read
      rw [same]
    · cases read
  · cases read

theorem term_some {t : Term} (read : term ts = some (t, us)) :
    ∃ front, ts = front ++ us ∧ front.length ≤ 2 := by
  unfold term at read
  split at read
  · cases read
    exact ⟨[_], rfl, by simp⟩
  · obtain ⟨i, -, same⟩ := Option.map_eq_some_iff.mp read
    cases same
    exact ⟨[_], rfl, by simp⟩
  · cases read
    exact ⟨[_], rfl, by simp⟩
  · cases read
    exact ⟨[_, _], rfl, by simp⟩
  · cases read
    exact ⟨[_, _], rfl, by simp⟩
  · cases read

theorem comparison_some {op : Comparison} (read : comparison ts = some (op, us)) :
    ∃ front, ts = front ++ us := by
  unfold comparison at read
  split at read
  · cases read
    exact ⟨[_], rfl⟩
  · cases read
    exact ⟨[_, _], rfl⟩
  · cases read
    exact ⟨[_], rfl⟩
  · cases read
    exact ⟨[_, _], rfl⟩
  · cases read
    exact ⟨[_], rfl⟩
  · cases read

theorem orElse_some {p q : Parse α} {a : α} (read : orElse p q ts = some (a, us)) :
    p ts = some (a, us) ∨ (p ts = none ∧ q ts = some (a, us)) := by
  unfold orElse at read
  cases first : p ts with
  | none =>
    rw [first] at read
    exact .inr ⟨rfl, read⟩
  | some found =>
    rw [first] at read
    exact .inl read

theorem separated_some {separator : Parse Unit} {item : Parse α} {fuel : Nat} {as : List α}
    (read : separated separator item fuel ts = some (as, us)) : ∃ a vs rest,
      item ts = some (a, vs) ∧ as = a :: rest ∧ ((rest = [] ∧ vs = us) ∨
        ∃ u ws less, separator vs = some (u, ws) ∧
          separated separator item less ws = some (rest, us)) := by
  cases fuel with
  | zero => cases read
  | succ fuel =>
    obtain ⟨a, vs, first, read⟩ := bind_some read
    rcases orElse_some read with more | ⟨-, last⟩
    · obtain ⟨u, ws, separator, more⟩ := bind_some more
      obtain ⟨rest, xs, items, more⟩ := bind_some more
      cases more
      exact ⟨a, _, rest, first, rfl, .inr ⟨u, ws, fuel, separator, items⟩⟩
    · cases last
      exact ⟨a, us, [], first, rfl, .inl ⟨rfl, rfl⟩⟩

/-- What a parser leaves over is the rest of what it was given. -/
def Frontal (p : Parse α) : Prop := ∀ ts us a, p ts = some (a, us) → ∃ xs, ts = xs ++ us

theorem separated_frontal {separator : Parse Unit} {item : Parse α} (between : Frontal separator)
    (each : Frontal item) (fuel : Nat) : Frontal (separated separator item fuel) := by
  intro ts us as read
  induction as generalizing ts fuel with
  | nil =>
    obtain ⟨a, vs, rest, -, same, -⟩ := separated_some read
    cases same
  | cons b bs ih =>
    obtain ⟨a, vs, rest, first, same, more⟩ := separated_some read
    cases same
    obtain ⟨xs, rfl⟩ := each _ _ _ first
    rcases more with ⟨-, rfl⟩ | ⟨u, ws, less, separator, items⟩
    · exact ⟨xs, rfl⟩
    · obtain ⟨ys, rfl⟩ := between _ _ _ separator
      obtain ⟨zs, rfl⟩ := ih less ws items
      exact ⟨xs ++ (ys ++ zs), by simp⟩

theorem symbol_frontal (c : Char) : Frontal (symbol c) :=
  fun _ _ _ read => ⟨[.punct c], symbol_some read⟩

theorem keyword_frontal (w : String) : Frontal (keyword w) :=
  fun _ _ _ read => ⟨[.word w], keyword_some read⟩

theorem relation_some {r : Relation} (read : relation ts = some (r, us)) :
    ∃ xs, ts = xs ++ us ∧ ((∃ ys, xs = ys ++ [.punct ')']) ∨ xs.length ≤ 4) := by
  rcases orElse_some read with token | ⟨-, column⟩
  · obtain ⟨_, _, word, token⟩ := bind_some token
    obtain ⟨_, _, opening, token⟩ := bind_some token
    obtain ⟨s, _, column, token⟩ := bind_some token
    obtain ⟨_, _, closing, token⟩ := bind_some token
    obtain ⟨_, _, op, token⟩ := bind_some token
    obtain ⟨_, _, word', token⟩ := bind_some token
    obtain ⟨_, _, opening', token⟩ := bind_some token
    obtain ⟨_, _, argument, token⟩ := bind_some token
    obtain ⟨_, _, closing', token⟩ := bind_some token
    cases token
    obtain ⟨xs, compared⟩ := comparison_some op
    obtain ⟨ys, given, -⟩ := term_some argument
    obtain ⟨t, named, -⟩ := name_some column
    rw [keyword_some word, symbol_some opening, named, symbol_some closing, compared,
      keyword_some word', symbol_some opening', given, symbol_some closing']
    refine ⟨.word "token" :: .punct '(' :: t :: .punct ')' :: xs ++
      .word "token" :: .punct '(' :: ys ++ [.punct ')'], by simp, .inl ⟨_, rfl⟩⟩
  · obtain ⟨s, _, column, rest⟩ := bind_some column
    obtain ⟨t, named, -⟩ := name_some column
    rcases orElse_some rest with equal | ⟨-, within⟩
    · obtain ⟨_, _, sign, equal⟩ := bind_some equal
      obtain ⟨_, _, argument, equal⟩ := bind_some equal
      cases equal
      obtain ⟨ys, given, short⟩ := term_some argument
      rw [named, symbol_some sign, given]
      refine ⟨t :: .punct '=' :: ys, by simp, .inr ?_⟩
      simp only [List.length_cons]
      omega
    · obtain ⟨_, _, word, within⟩ := bind_some within
      obtain ⟨_, _, opening, within⟩ := bind_some within
      obtain ⟨_, _, arguments, within⟩ := bind_some within
      obtain ⟨_, _, closing, within⟩ := bind_some within
      cases within
      obtain ⟨ys, given⟩ := separated_frontal (symbol_frontal ',')
        (fun _ _ _ read => (term_some read).imp (fun _ h => h.1)) _ _ _ _ arguments
      rw [named, keyword_some word, symbol_some opening, given, symbol_some closing]
      exact ⟨t :: .word "in" :: .punct '(' :: ys ++ [.punct ')'], by simp, .inl ⟨_, rfl⟩⟩

theorem relation_marker (column marker : String) :
    relation [.word column, .punct '=', .punct ':', .word marker] =
      some (.eq column (.named marker), []) := by
  by_cases token : column = "token"
  · subst token
    rfl
  · have other : tokenRelation [.word column, .punct '=', .punct ':', .word marker] = none := by
      change ((keyword "token" _).bind _) = none
      simp [keyword, token]
    simp only [relation, orElse, other]
    rfl

section Marker

variable {column marker : String}

def markerClause (column marker : String) : List Token :=
  [.word "where", .word column, .punct '=', .punct ':', .word marker]

theorem relations_not_clause {fuel : Nat} {rs : List Relation} {xs : List Token}
    (other : .word "and" ∉ markerClause column marker) :
    separated (keyword "and") relation fuel (xs ++ markerClause column marker) ≠ some (rs, []) := by
  induction rs generalizing xs fuel with
  | nil =>
    intro read
    obtain ⟨a, vs, rest, -, same, -⟩ := separated_some read
    cases same
  | cons r rs ih =>
    intro read
    obtain ⟨a, vs, rest, first, same, more⟩ := separated_some read
    cases same
    obtain ⟨ys, split, shape⟩ := relation_some first
    rcases more with ⟨-, rfl⟩ | ⟨u, ws, less, separator, items⟩
    · rw [List.append_nil] at split
      rcases shape with ⟨zs, rfl⟩ | short
      · have last := congrArg List.getLast? split
        simp [markerClause] at last
      · rw [← split] at short
        simp [markerClause] at short
    · rw [keyword_some separator] at split
      rcases List.append_eq_append_iff.mp split with ⟨zs, -, tail⟩ | ⟨zs, -, tail⟩
      · exact other (tail ▸ List.mem_append_right zs List.mem_cons_self)
      · cases zs with
        | nil => simp [markerClause] at tail
        | cons z zs =>
          cases tail
          exact ih items

theorem restriction_frontal : Frontal restriction := by
  intro ts us rs read
  obtain ⟨_, vs, word, read⟩ := bind_some read
  obtain ⟨xs, rfl⟩ := separated_frontal (keyword_frontal "and")
    (fun _ _ _ read => (relation_some read).imp (fun _ h => h.1)) _ _ _ _ read
  exact ⟨.word "where" :: xs, keyword_some word⟩

theorem allowFiltering_some {b : Bool} (read : allowFiltering ts = some (b, us)) :
    (b = false ∧ ts = us) ∨ ts = .word "allow" :: .word "filtering" :: us := by
  rcases orElse_some read with words | ⟨-, neither⟩
  · obtain ⟨_, _, first, words⟩ := bind_some words
    obtain ⟨_, _, second, words⟩ := bind_some words
    cases words
    rw [keyword_some first, keyword_some second]
    exact .inr rfl
  · cases neither
    exact .inl ⟨rfl, rfl⟩

theorem clause_ends {xs ys : List Token} {u v : Token}
    (same : xs ++ markerClause column marker = ys ++ [u, v]) :
    u = .punct ':' ∧ v = .word marker := by
  have split : (xs ++ [.word "where", .word column, .punct '=']) ++ [.punct ':', .word marker] =
      ys ++ [u, v] := by
    simpa [markerClause] using same
  have tail := (List.append_inj' split rfl).2
  simp only [List.cons.injEq, and_true] at tail
  exact ⟨tail.1.symm, tail.2.symm⟩

theorem restriction_clause {rs : List Relation} {xs : List Token}
    (other : .word "and" ∉ markerClause column marker)
    (read : restriction (xs ++ markerClause column marker) = some (rs, [])) :
    rs = [.eq column (.named marker)] := by
  obtain ⟨_, vs, word, read⟩ := bind_some read
  have opened := keyword_some word
  cases xs with
  | cons x xs =>
    cases opened
    exact absurd read (relations_not_clause other)
  | nil =>
    cases opened
    obtain ⟨a, vs, rest, first, rfl, more⟩ := separated_some read
    cases (relation_marker column marker).symm.trans first
    rcases more with ⟨rfl, -⟩ | ⟨_, _, _, separator, -⟩
    · rfl
    · cases keyword_some separator

theorem selection_clause {columns : Option (List String)} {table : String} {xs rest : List Token}
    {st read : Statement} (other : .word "and" ∉ markerClause column marker)
    (found : selection columns table (xs ++ markerClause column marker) = some (st, rest))
    (ended : ending st rest = some read) :
    read = .select columns table [.eq column (.named marker)] false := by
  obtain ⟨rs, us, restricted, found⟩ := bind_some found
  obtain ⟨b, vs, filtering, found⟩ := bind_some found
  cases found
  cases ending_eq ended
  obtain ⟨ys, split⟩ : ∃ ys, xs ++ markerClause column marker = ys ++ us := by
    rcases orElse_some restricted with named | ⟨-, unnamed⟩
    · exact restriction_frontal _ _ _ named
    · cases unnamed
      exact ⟨[], rfl⟩
  have finished : rest = [] := by
    unfold ending at ended
    split at ended
    · rfl
    · have last := congrArg List.getLast? split
      rcases allowFiltering_some filtering with ⟨-, rfl⟩ | rfl <;> simp [markerClause] at last
    · cases ended
  subst finished
  rcases allowFiltering_some filtering with ⟨rfl, rfl⟩ | rfl
  · rcases orElse_some restricted with named | ⟨-, unnamed⟩
    · rw [restriction_clause other named]
    · obtain ⟨-, nothing⟩ := Prod.mk.inj (Option.some.inj unnamed)
      simp [markerClause] at nothing
  · cases (clause_ends split).1

end Marker

end Haystack.Cql.Parse
