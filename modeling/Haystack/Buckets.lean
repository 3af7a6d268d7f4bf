import Mathlib.Data.List.Nodup

/-! Tables of chained entries. A table is a list of chains, and a function says in which of them
the entry of a key has to be. -/
namespace Haystack.Buckets

variable {K V : Type}

def count {α : Type} (table : List (List α)) : Nat := table.flatten.length

/-- Every entry is in the chain of its key, and no chain has two entries of one key. -/
structure Placed (slot : K → Nat) (table : List (List (K × V))) : Prop where
  own : ∀ (i : Nat) (chain : List (K × V)), table[i]? = some chain → ∀ e ∈ chain, slot e.1 = i
  distinct : ∀ (i : Nat) (chain : List (K × V)), table[i]? = some chain → (chain.map Prod.fst).Nodup

theorem count_set {α : Type} {table : List (List α)} {i : Nat} {chain : List α}
    (there : table[i]? = some chain) (new : List α) :
    count (table.set i new) + chain.length = count table + new.length := by
  induction table generalizing i with
  | nil => simp at there
  | cons first table ih =>
    cases i with
    | zero =>
      cases Option.some.inj there
      simp only [count, List.set_cons_zero, List.flatten_cons, List.length_append]
      omega
    | succ i =>
      have later := ih there
      simp only [count, List.set_cons_succ, List.flatten_cons, List.length_append] at later ⊢
      omega

theorem count_replicate (n : Nat) : count (List.replicate n ([] : List (K × V))) = 0 := by
  simp [count]

theorem exists_of_count {table : List (List (K × V))} (some_entry : count table ≠ 0) :
    ∃ (i : Nat) (e : K × V) (chain : List (K × V)), table[i]? = some (e :: chain) := by
  induction table with
  | nil => exact absurd rfl some_entry
  | cons first table ih =>
    cases first with
    | nil =>
      have later : count table ≠ 0 := by
        simpa [count] using some_entry
      obtain ⟨i, e, chain, there⟩ := ih later
      exact ⟨i + 1, e, chain, there⟩
    | cons e chain => exact ⟨0, e, chain, rfl⟩

theorem Placed.set {slot : K → Nat} {table : List (List (K × V))}
    (placed : Placed slot table) {i : Nat}
    {new : List (K × V)} (own : ∀ e ∈ new, slot e.1 = i) (distinct : (new.map Prod.fst).Nodup) :
    Placed slot (table.set i new) := by
  constructor
  · intro j chain there
    rw [List.getElem?_set] at there
    split at there
    · rename_i same
      subst same
      split at there
      · cases Option.some.inj there
        exact own
      · cases there
    · exact placed.own j chain there
  · intro j chain there
    rw [List.getElem?_set] at there
    split at there
    · split at there
      · cases Option.some.inj there
        exact distinct
      · cases there
    · exact placed.distinct j chain there

theorem placed_replicate (slot : K → Nat) (n : Nat) :
    Placed slot (List.replicate n ([] : List (K × V))) := by
  constructor
  · intro i chain there
    cases List.eq_of_mem_replicate (List.mem_of_getElem? there)
    simp
  · intro i chain there
    cases List.eq_of_mem_replicate (List.mem_of_getElem? there)
    exact List.nodup_nil

theorem Placed.keys_nodup {slot : K → Nat} {table : List (List (K × V))}
    (placed : Placed slot table) :
    (table.flatten.map Prod.fst).Nodup := by
  rw [List.map_flatten, List.nodup_flatten]
  constructor
  · intro keys member
    obtain ⟨chain, listed, rfl⟩ := List.mem_map.mp member
    obtain ⟨i, there⟩ := List.mem_iff_getElem?.mp listed
    exact placed.distinct i chain there
  · rw [List.pairwise_map, List.pairwise_iff_getElem]
    intro i j inside inside' before key first second
    obtain ⟨e, listed, rfl⟩ := List.mem_map.mp first
    obtain ⟨e', listed', same⟩ := List.mem_map.mp second
    have here := placed.own i _ (List.getElem?_eq_getElem inside) e listed
    have there := placed.own j _ (List.getElem?_eq_getElem inside') e' listed'
    rw [same] at there
    omega

section Find

variable [DecidableEq K]

def find (slot : K → Nat) (table : List (List (K × V))) (key : K) : Option V :=
  (table[slot key]?).bind (fun chain => chain.lookup key)

theorem find_eq {slot : K → Nat} {table : List (List (K × V))} {key : K} {chain : List (K × V)}
    (there : table[slot key]? = some chain) : find slot table key = chain.lookup key := by
  rw [find, there, Option.bind_some]

theorem find_set {slot : K → Nat} {table : List (List (K × V))} {i : Nat} {chain : List (K × V)}
    (there : table[i]? = some chain) (new : List (K × V)) (key : K) :
    find slot (table.set i new) key =
      if slot key = i then new.lookup key else find slot table key := by
  have bound : i < table.length := (List.getElem?_eq_some_iff.mp there).1
  simp only [find, List.getElem?_set, bound, if_true]
  split
  · rename_i same
    rw [if_pos same.symm, Option.bind_some]
  · rename_i differ
    rw [if_neg (fun same => differ same.symm)]

theorem find_replicate (slot : K → Nat) (n : Nat) (key : K) :
    find slot (List.replicate n ([] : List (K × V))) key = none := by
  simp only [find, List.getElem?_replicate]
  split <;> rfl

theorem find_of_count {slot : K → Nat} {table : List (List (K × V))}
    (empty : count table = 0) (key : K) :
    find slot table key = none := by
  unfold find
  cases there : table[slot key]? with
  | none => rfl
  | some chain =>
    have counts := count_set there []
    rw [empty, List.length_nil] at counts
    have nothing : chain = [] := List.length_eq_zero_iff.mp (by omega)
    rw [nothing]
    rfl

theorem lookup_isSome {chain : List (K × V)} {key : K} :
    (chain.lookup key).isSome ↔ key ∈ chain.map Prod.fst := by
  rw [List.lookup_isSome_iff, List.mem_map]
  constructor
  · rintro ⟨e, listed, same⟩
    exact ⟨e, listed, (beq_iff_eq.mp same).symm⟩
  · rintro ⟨e, listed, rfl⟩
    exact ⟨e, listed, beq_self_eq_true e.1⟩

theorem mem_keys_iff {slot : K → Nat} {table : List (List (K × V))}
    (placed : Placed slot table) (key : K) :
    key ∈ table.flatten.map Prod.fst ↔ (find slot table key).isSome := by
  constructor
  · intro member
    obtain ⟨e, listed, rfl⟩ := List.mem_map.mp member
    obtain ⟨chain, present, inside⟩ := List.mem_flatten.mp listed
    obtain ⟨i, there⟩ := List.mem_iff_getElem?.mp present
    rw [find_eq ((placed.own i chain there e inside).symm ▸ there), lookup_isSome]
    exact List.mem_map_of_mem inside
  · intro found
    unfold find at found
    cases there : table[slot key]? with
    | none => simp [there] at found
    | some chain =>
      rw [there, Option.bind_some, lookup_isSome] at found
      obtain ⟨e, inside, rfl⟩ := List.mem_map.mp found
      exact List.mem_map_of_mem (List.mem_flatten.mpr ⟨chain, List.mem_of_getElem? there, inside⟩)

theorem lookup_cons (key : K) (value : V) (chain : List (K × V)) (other : K) :
    ((key, value) :: chain).lookup other =
      if other = key then some value else chain.lookup other := by
  rw [List.lookup_cons]
  by_cases same : other = key
  · simp [same]
  · have differ : (other == key) = false := beq_eq_false_iff_ne.mpr same
    simp [same, differ]

def unlink (key : K) (chain : List (K × V)) : List (K × V) := chain.eraseP (fun e => e.1 = key)

theorem unlink_keys (key : K) (chain : List (K × V)) :
    ((unlink key chain).map Prod.fst).Sublist (chain.map Prod.fst) :=
  List.Sublist.map Prod.fst (List.eraseP_sublist ..)

theorem length_unlink {key : K} {chain : List (K × V)} {value : V}
    (found : chain.lookup key = some value) :
    (unlink key chain).length + 1 = chain.length := by
  have member : key ∈ chain.map Prod.fst := lookup_isSome.mp (found ▸ rfl)
  obtain ⟨e, listed, same⟩ := List.mem_map.mp member
  have shorter := List.length_eraseP_of_mem listed (p := fun e => e.1 = key) (by simp [same])
  have positive := List.length_pos_of_mem listed
  rw [unlink, shorter]
  omega

theorem lookup_unlink {key : K} {chain : List (K × V)}
    (distinct : (chain.map Prod.fst).Nodup) (other : K) :
    (unlink key chain).lookup other = if other = key then none else chain.lookup other := by
  induction chain with
  | nil => simp [unlink]
  | cons e chain ih =>
    obtain ⟨first, value⟩ := e
    simp only [List.map_cons, List.nodup_cons] at distinct
    by_cases same : first = key
    · subst same
      rw [unlink, List.eraseP_cons_of_pos (by simp), lookup_cons]
      split
      · rename_i own
        subst own
        exact Option.not_isSome_iff_eq_none.mp (fun found => distinct.1 (lookup_isSome.mp found))
      · rfl
    · rw [unlink, List.eraseP_cons_of_neg (by simpa using same), lookup_cons, lookup_cons]
      have rest := ih distinct.2
      rw [unlink] at rest
      rw [rest]
      by_cases own : other = first
      · subst own
        simp [same]
      · simp [own]

def setVal (key : K) (value : V) : List (K × V) → List (K × V)
  | [] => []
  | e :: chain => if e.1 = key then (e.1, value) :: chain else e :: setVal key value chain

theorem setVal_keys (key : K) (value : V) (chain : List (K × V)) :
    (setVal key value chain).map Prod.fst = chain.map Prod.fst := by
  induction chain with
  | nil => rfl
  | cons e chain ih =>
    simp only [setVal]
    split
    · rfl
    · rw [List.map_cons, ih, List.map_cons]

theorem setVal_absent {key : K} {chain : List (K × V)}
    (absent : key ∉ chain.map Prod.fst) (value : V) :
    setVal key value chain = chain := by
  induction chain with
  | nil => rfl
  | cons e chain ih =>
    simp only [List.map_cons, List.mem_cons, not_or] at absent
    rw [setVal, if_neg (fun same => absent.1 same.symm), ih absent.2]

theorem lookup_setVal {key : K} {chain : List (K × V)}
    (there : key ∈ chain.map Prod.fst) (value : V) (other : K) :
    (setVal key value chain).lookup other =
      if other = key then some value else chain.lookup other := by
  induction chain with
  | nil => cases there
  | cons e chain ih =>
    obtain ⟨first, old⟩ := e
    simp only [setVal]
    split
    · rename_i same
      subst same
      rw [lookup_cons, lookup_cons]
      split <;> rfl
    · rename_i differ
      have later : key ∈ chain.map Prod.fst := by
        rcases List.mem_cons.mp there with same | later
        · exact absurd same.symm differ
        · exact later
      rw [lookup_cons, lookup_cons, ih later]
      by_cases own : other = first
      · subst own
        simp [differ]
      · simp [own]

/-- One chain in place of another one, for a change of what it says about a single key. -/
structure Amends (slot : K → Nat) (key : K) (chain new : List (K × V)) : Prop where
  own : ∀ e ∈ new, slot e.1 = slot key
  distinct : (new.map Prod.fst).Nodup
  others : ∀ other, other ≠ key → new.lookup other = chain.lookup other

section Amends

variable {slot : K → Nat} {table : List (List (K × V))} (placed : Placed slot table) {key : K}
  {chain : List (K × V)} (there : table[slot key]? = some chain)

include placed there

theorem amends_push (absent : chain.lookup key = none) (value : V) :
    Amends slot key chain ((key, value) :: chain) := by
  constructor
  · intro e member
    rcases List.mem_cons.mp member with rfl | member
    · rfl
    · exact placed.own _ chain there e member
  · rw [List.map_cons, List.nodup_cons]
    refine ⟨fun member => ?_, placed.distinct _ chain there⟩
    rw [← lookup_isSome, absent] at member
    cases member
  · intro other differ
    rw [lookup_cons, if_neg differ]

theorem amends_setVal (value : V) : Amends slot key chain (setVal key value chain) := by
  have keys := setVal_keys key value chain
  constructor
  · intro e member
    have listed : e.1 ∈ chain.map Prod.fst := keys ▸ List.mem_map_of_mem member
    obtain ⟨old, before, same⟩ := List.mem_map.mp listed
    exact same ▸ placed.own _ chain there old before
  · exact keys ▸ placed.distinct _ chain there
  · intro other differ
    by_cases present : key ∈ chain.map Prod.fst
    · rw [lookup_setVal present, if_neg differ]
    · rw [setVal_absent present]

theorem amends_unlink : Amends slot key chain (unlink key chain) := by
  have distinct := placed.distinct _ chain there
  constructor
  · intro e member
    exact placed.own _ chain there e (List.mem_of_mem_eraseP member)
  · exact distinct.sublist (unlink_keys key chain)
  · intro other differ
    rw [lookup_unlink distinct, if_neg differ]

end Amends

end Find

end Haystack.Buckets
