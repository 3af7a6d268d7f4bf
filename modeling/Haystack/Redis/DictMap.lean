import Haystack.Redis.Dict
import Mathlib.Logic.Function.Basic
import Mathlib.Data.Set.Card

/-! A dictionary is a map, whatever the hash function and however far a rehashing has come. -/
namespace Haystack.Redis

open Buckets

variable {K V : Type} {hash : K → UInt64}

structure Dictht.Valid (hash : K → UInt64) (ht : Dictht K V) : Prop where
  placed : Placed (slot hash ht.size) ht.table
  counted : ht.used = count ht.table

section Tables

variable {ht : Dictht K V}

theorem slot_lt (nonempty : ht.table ≠ []) (key : K) : slot hash ht.size key < ht.table.length := by
  have bound : slot hash ht.size key ≤ ht.size - 1 := Nat.and_le_right
  have positive := List.length_pos_of_ne_nil nonempty
  unfold Dictht.size at bound
  unfold Dictht.size
  omega

theorem chain_of_slot (hash : K → UInt64) (nonempty : ht.table ≠ []) (key : K) :
    ∃ chain, ht.table[slot hash ht.size key]? = some chain :=
  ⟨_, List.getElem?_eq_getElem (slot_lt nonempty key)⟩

theorem Dictht.valid_reset : (Dictht.reset : Dictht K V).Valid hash := by
  constructor
  · exact placed_replicate _ 0
  · rfl

theorem Dictht.valid_fresh (n : Nat) : (⟨List.replicate n [], 0⟩ : Dictht K V).Valid hash := by
  constructor
  · exact placed_replicate _ n
  · exact (count_replicate n).symm

theorem Dictht.alter_some {i : Nat} {chain : List (K × V)} (there : ht.table[i]? = some chain)
    (new : List (K × V) → List (K × V)) (used : Nat → Nat) :
    ht.alter i new used = some ⟨ht.table.set i (new chain), used ht.used⟩ := by
  rw [alter, there, Option.map_some]

theorem Dictht.size_set (i : Nat) (new : List (K × V)) (used : Nat) :
    (⟨ht.table.set i new, used⟩ : Dictht K V).size = ht.size := List.length_set

theorem skipEmpty_spec {table : List (List (K × V))} {visits idx j : Nat} {e : K × V}
    {chain : List (K × V)} (entry : table[j]? = some (e :: chain)) (positive : 0 < visits)
    (before : ∀ (i : Nat) (chain : List (K × V)), i < idx → table[i]? = some chain → chain = []) :
    ∃ found, skipEmpty table visits idx = some found ∧ idx ≤ found.1 ∧
      (∀ (i : Nat) (chain : List (K × V)), i < found.1 → table[i]? = some chain → chain = []) ∧
      (found.2 = 0 → idx < found.1) ∧
      (found.2 ≠ 0 → ∃ chain, table[found.1]? = some chain) := by
  induction visits generalizing idx with
  | zero => omega
  | succ visits ih =>
    have reach : idx ≤ j := by
      by_contra beyond
      cases before j (e :: chain) (by omega) entry
    have bound : j < table.length := (List.getElem?_eq_some_iff.mp entry).1
    have there : table[idx]? = some table[idx] := List.getElem?_eq_getElem (by omega)
    rw [skipEmpty, there]
    cases content : table[idx] with
    | cons first rest =>
      exact ⟨(idx, visits + 1), rfl, Nat.le_refl _, before, by simp, fun _ => ⟨_, there⟩⟩
    | nil =>
      have further : ∀ (i : Nat) (chain : List (K × V)), i < idx + 1 → table[i]? = some chain →
          chain = [] := by
        intro i other below found
        by_cases last : i = idx
        · subst last
          rw [there, content] at found
          exact (Option.some.inj found).symm
        · exact before i other (by omega) found
      by_cases out : visits = 0
      · exact ⟨(idx + 1, 0), by simp [out], by simp, further, by simp, by simp⟩
      · obtain ⟨found, walked, onward, empty, stopped, stands⟩ := ih (by omega) further
        refine ⟨found, by simp [out, walked], by omega, empty, fun _ => by omega, stands⟩

end Tables

def Dict.left (d : Dict K V) : Nat := (d.rehashidx.map (fun idx => d.ht0.size - idx)).getD 0

theorem Dict.left_le (d : Dict K V) : d.left ≤ d.ht0.size := by
  unfold left
  cases d.rehashidx with
  | none => exact Nat.zero_le _
  | some idx => exact Nat.sub_le _ idx

variable [DecidableEq K]

def Dictht.content (hash : K → UInt64) (ht : Dictht K V) (key : K) : Option V :=
  find (slot hash ht.size) ht.table key

/-- The map that a dictionary stands for. -/
def Dict.content (hash : K → UInt64) (d : Dict K V) (key : K) : Option V :=
  (d.ht0.content hash key).or (d.ht1.content hash key)

structure Dict.Valid (hash : K → UInt64) (d : Dict K V) : Prop where
  first : d.ht0.Valid hash
  second : d.ht1.Valid hash
  apart : ∀ key, (d.ht0.content hash key).isSome → d.ht1.content hash key = none
  idle : d.rehashidx = none → d.ht1 = .reset
  moving : ∀ idx, d.rehashidx = some idx → d.ht0.table ≠ [] ∧ d.ht1.table ≠ [] ∧
    ∀ (i : Nat) (chain : List (K × V)), i < idx → d.ht0.table[i]? = some chain → chain = []

theorem Dict.Valid.ht {d : Dict K V} (valid : d.Valid hash) (second : Bool) :
    (d.ht second).Valid hash := by
  cases second with
  | false => exact valid.first
  | true => exact valid.second

structure Dict.Same (hash : K → UInt64) (d d' : Dict K V) : Prop where
  content : d'.content hash = d.content hash
  size : dictSize d' = dictSize d

theorem Dict.Same.refl (d : Dict K V) : d.Same hash d := ⟨rfl, rfl⟩

theorem Dict.Same.trans {d d' d'' : Dict K V} (first : d.Same hash d') (second : d'.Same hash d'') :
    d.Same hash d'' :=
  ⟨second.content.trans first.content, second.size.trans first.size⟩

section Contents

variable {ht : Dictht K V}

theorem Dictht.content_reset (key : K) : (Dictht.reset : Dictht K V).content hash key = none := rfl

theorem Dictht.content_fresh (hash : K → UInt64) (n : Nat) (key : K) :
    (⟨List.replicate n [], 0⟩ : Dictht K V).content hash key = none := find_replicate _ n key

theorem Dictht.Valid.content_of_unused (valid : ht.Valid hash) (unused : ht.used = 0) (key : K) :
    ht.content hash key = none := by
  exact find_of_count (valid.counted.symm.trans unused) key

theorem Dictht.Valid.set (valid : ht.Valid hash) {key : K} {chain new : List (K × V)}
    (there : ht.table[slot hash ht.size key]? = some chain)
    (amends : Amends (slot hash ht.size) key chain new) (used : Nat)
    (counts : used + chain.length = ht.used + new.length) :
    (⟨ht.table.set (slot hash ht.size key) new, used⟩ : Dictht K V).Valid hash := by
  constructor
  · rw [size_set]
    exact valid.placed.set amends.own amends.distinct
  · have changed := count_set there new
    have before := valid.counted
    show used = count (ht.table.set _ new)
    omega

theorem Dictht.content_set {key : K} {chain new : List (K × V)}
    (there : ht.table[slot hash ht.size key]? = some chain)
    (amends : Amends (slot hash ht.size) key chain new) (used : Nat) (other : K) :
    (⟨ht.table.set (slot hash ht.size key) new, used⟩ : Dictht K V).content hash other =
      if other = key then new.lookup key else ht.content hash other := by
  unfold content
  rw [size_set, find_set there]
  by_cases same : other = key
  · subst same
    simp
  · rw [if_neg same]
    split
    · rename_i meet
      rw [amends.others other same, find_eq (meet.symm ▸ there)]
    · rfl

theorem moveChain_spec {chain : List (K × V)} (valid : ht.Valid hash) (nonempty : ht.table ≠ [])
    (distinct : (chain.map Prod.fst).Nodup)
    (absent : ∀ key ∈ chain.map Prod.fst, ht.content hash key = none) :
    ∃ ht', moveChain hash chain ht = some ht' ∧ ht'.Valid hash ∧ ht'.size = ht.size ∧
      ht'.used = ht.used + chain.length ∧
      ∀ key, ht'.content hash key = (chain.lookup key).or (ht.content hash key) := by
  induction chain generalizing ht with
  | nil => exact ⟨ht, rfl, valid, rfl, rfl, fun key => rfl⟩
  | cons e chain ih =>
    obtain ⟨key, value⟩ := e
    rw [List.map_cons, List.nodup_cons] at distinct
    obtain ⟨old, there⟩ := chain_of_slot hash nonempty key
    have fresh : old.lookup key = none := (find_eq there).symm.trans (absent key List.mem_cons_self)
    have amends := amends_push valid.placed there fresh value
    have pushed := valid.set there amends (ht.used + 1) (by simp; omega)
    have content := fun other => Dictht.content_set there amends (ht.used + 1) other
    obtain ⟨ht', moved, valid', size, used', content'⟩ := ih pushed
      (fun empty => nonempty ((List.set_eq_nil_iff _ _).mp empty)) distinct.2 (by
        intro other member
        rw [content, if_neg (fun same : other = key => distinct.1 (same ▸ member))]
        exact absent other (List.mem_cons_of_mem _ member))
    refine ⟨ht', ?_, valid', size.trans (Dictht.size_set _ _ _), ?_, ?_⟩
    · rw [moveChain, Dictht.alter_some there, Option.bind_some]
      exact moved
    · rw [used', List.length_cons]
      show ht.used + 1 + chain.length = ht.used + (chain.length + 1)
      omega
    · intro other
      rw [content', content, lookup_cons, lookup_cons]
      split
      · rename_i same
        have last : chain.lookup other = none :=
          Option.not_isSome_iff_eq_none.mp (fun found => distinct.1 (same ▸ lookup_isSome.mp found))
        rw [last, if_pos rfl]
        rfl
      · rfl

end Contents

section Rehashing

variable {d : Dict K V}

theorem rehashChain_spec (valid : d.Valid hash) {at_ idx : Nat} (rehashing : d.rehashidx = some at_)
    {chain : List (K × V)} (there : d.ht0.table[idx]? = some chain)
    (before : ∀ (i : Nat) (chain : List (K × V)), i < idx →
      d.ht0.table[i]? = some chain → chain = []) :
    ∃ d', rehashChain hash idx d = some d' ∧ d'.Valid hash ∧ d.Same hash d' ∧
      d'.rehashidx = some (idx + 1) ∧ d'.ht0.size = d.ht0.size ∧ d'.ht1.size = d.ht1.size := by
  have own := valid.first.placed.own idx chain there
  have here : ∀ key, (chain.lookup key).isSome → d.ht0.content hash key = chain.lookup key := by
    intro key found
    obtain ⟨e, listed, rfl⟩ := List.mem_map.mp (lookup_isSome.mp found)
    exact find_eq ((own e listed).symm ▸ there)
  obtain ⟨nonempty, nonempty', -⟩ := valid.moving at_ rehashing
  obtain ⟨ht, moved, valid', size, used, content⟩ := moveChain_spec valid.second nonempty'
    (valid.first.placed.distinct idx chain there) (by
      intro key member
      have found := lookup_isSome.mpr member
      exact valid.apart key ((here key found).symm ▸ found))
  have emptied : ∀ key,
      (⟨d.ht0.table.set idx [], d.ht0.used - chain.length⟩ : Dictht K V).content hash key =
      if slot hash d.ht0.size key = idx then none else d.ht0.content hash key := by
    intro key
    unfold Dictht.content
    rw [Dictht.size_set, find_set there]
    rfl
  have elsewhere : ∀ key, slot hash d.ht0.size key ≠ idx → chain.lookup key = none := by
    intro key other
    refine Option.not_isSome_iff_eq_none.mp (fun found => ?_)
    obtain ⟨e, listed, rfl⟩ := List.mem_map.mp (lookup_isSome.mp found)
    exact other (own e listed)
  have counts := count_set there []
  have counted := valid.first.counted
  refine ⟨_, by rw [rehashChain, there, Option.bind_some, moved, Option.map_some],
    ⟨?_, valid', ?_, ?_, ?_⟩, ⟨?_, ?_⟩, rfl, Dictht.size_set _ _ _, size⟩
  · constructor
    · rw [Dictht.size_set]
      exact valid.first.placed.set (by simp) List.nodup_nil
    · show d.ht0.used - chain.length = count (d.ht0.table.set idx [])
      simp only [List.length_nil] at counts
      omega
  · intro key
    change (Dictht.content hash ⟨_, _⟩ key).isSome → ht.content hash key = none
    rw [emptied, content]
    split
    · exact fun none => absurd none (by simp)
    · rename_i other
      intro found
      rw [elsewhere key other, valid.apart key found]
      rfl
  · exact fun none => by cases none
  · intro i at_
    cases Option.some.inj at_
    refine ⟨fun empty => nonempty ((List.set_eq_nil_iff _ _).mp empty), fun empty => ?_, ?_⟩
    · exact nonempty'
        (List.length_eq_zero_iff.mp (size.symm.trans (List.length_eq_zero_iff.mpr empty)))
    intro j other below found
    change (d.ht0.table.set idx [])[j]? = some other at found
    rw [List.getElem?_set] at found
    split at found
    · split at found
      · exact (Option.some.inj found).symm
      · cases found
    · exact before j other (by omega) found
  · funext key
    change (Dictht.content hash ⟨_, _⟩ key).or (ht.content hash key) = _
    rw [emptied, content]
    unfold Dict.content
    split
    · rename_i own_slot
      have old : d.ht0.content hash key = chain.lookup key := find_eq (own_slot.symm ▸ there)
      rw [old]
      rfl
    · rename_i other
      rw [elsewhere key other]
      rfl
  · change d.ht0.used - chain.length + ht.used = d.ht0.used + d.ht1.used
    simp only [List.length_nil] at counts
    omega

/-- What some steps of rehashing from the index on have made of a dictionary. -/
structure Rehashes (hash : K → UInt64) (n idx : Nat) (d : Dict K V)
    (more : Bool × Dict K V) : Prop where
  valid : more.2.Valid hash
  same : d.Same hash more.2
  flag : more.1 = dictIsRehashing more.2
  going : ∀ idx', more.2.rehashidx = some idx' → idx ≤ idx' ∧ (0 < n → idx < idx') ∧
    more.2.ht0.size = d.ht0.size ∧ more.2.ht1.size = d.ht1.size ∧ more.2.ht0.used ≠ 0
  ended : more.2.rehashidx = none → more.2.ht0.size = d.ht1.size

theorem rehashed_spec (valid : d.Valid hash) {n idx : Nat} (rehashing : d.rehashidx = some idx)
    (last : d.ht0.used ≠ 0 → n = 0) : Rehashes hash n idx d (rehashed d) := by
  unfold rehashed
  split
  · rename_i unused
    have gone := valid.first.content_of_unused unused
    refine ⟨⟨valid.second, Dictht.valid_reset, fun _ _ => rfl, fun _ => rfl,
      fun _ at_ => by cases at_⟩, ⟨?_, ?_⟩, rfl, fun _ at_ => (by cases at_), fun _ => rfl⟩
    · funext key
      simp only [Dict.content, gone, Dictht.content_reset, Option.or_none, Option.none_or]
    · simp [dictSize, unused, Dictht.reset]
  · rename_i used
    refine ⟨valid, .refl d, by simp [dictIsRehashing, rehashing], ?_, fun none => ?_⟩
    · intro idx' at_
      cases rehashing.symm.trans at_
      exact ⟨Nat.le_refl _, fun positive => by have := last used; omega, rfl, rfl, used⟩
    · cases rehashing.symm.trans none

theorem Dict.Valid.inside (valid : d.Valid hash) {idx : Nat} (rehashing : d.rehashidx = some idx)
    (used : d.ht0.used ≠ 0) : idx < d.ht0.size := by
  obtain ⟨j, e, chain, entry⟩ := exists_of_count (fun zero => used (valid.first.counted.trans zero))
  have bound : j < d.ht0.size := (List.getElem?_eq_some_iff.mp entry).1
  by_contra beyond
  cases (valid.moving idx rehashing).2.2 j (e :: chain) (by omega) entry

theorem rehashLoop_spec (valid : d.Valid hash) {idx : Nat} (rehashing : d.rehashidx = some idx)
    (n visits : Nat) (positive : 0 < n → 0 < visits) :
    ∃ more, rehashLoop hash n visits d = some more ∧ Rehashes hash n idx d more := by
  induction n generalizing d visits idx with
  | zero => exact ⟨rehashed d, rfl, rehashed_spec valid rehashing (fun _ => rfl)⟩
  | succ n ih =>
    obtain ⟨nonempty, nonempty', before⟩ := valid.moving idx rehashing
    rw [rehashLoop]
    split
    · rename_i unused
      exact ⟨rehashed d, rfl, rehashed_spec valid rehashing (fun used => absurd unused used)⟩
    · rename_i busy
      obtain ⟨j, e, chain, entry⟩ :=
        exists_of_count (fun zero => busy (valid.first.counted.trans zero))
      have inside : ¬ d.ht0.size ≤ idx := Nat.not_le.mpr (valid.inside rehashing busy)
      obtain ⟨found, walked, onward, empty, stopped, stands⟩ :=
        skipEmpty_spec entry (positive (by omega)) before
      simp only [rehashing, Option.bind_some, if_neg inside, walked]
      split
      · rename_i out
        refine ⟨_, rfl, ⟨valid.first, valid.second, valid.apart, fun none => (by cases none), ?_⟩,
          ⟨rfl, rfl⟩, rfl, ?_, fun none => (by cases none)⟩
        · intro i at_
          cases Option.some.inj at_
          exact ⟨nonempty, nonempty', empty⟩
        · intro i at_
          cases Option.some.inj at_
          exact ⟨onward, fun _ => stopped out, rfl, rfl, busy⟩
      · rename_i left
        obtain ⟨chain', there⟩ := stands left
        obtain ⟨d', moved, valid', same, at', size, size'⟩ :=
          rehashChain_spec valid rehashing there empty
        obtain ⟨more, done, rest⟩ := ih valid' at' found.2 (fun _ => by omega)
        refine ⟨more, by rw [moved, Option.bind_some, done], rest.valid, same.trans rest.same,
          rest.flag, ?_, fun none => (rest.ended none).trans size'⟩
        intro idx' at_
        obtain ⟨least, -, first, second, used⟩ := rest.going idx' at_
        exact ⟨by omega, fun _ => by omega, first.trans size, second.trans size', used⟩

theorem dictRehash_spec (valid : d.Valid hash) (n : Nat) :
    ∃ more, dictRehash hash d n = some more ∧ more.2.Valid hash ∧ d.Same hash more.2 ∧
      more.1 = dictIsRehashing more.2 := by
  unfold dictRehash
  cases rehashing : d.rehashidx with
  | none =>
    have idle : dictIsRehashing d = false := by rw [dictIsRehashing, rehashing]; rfl
    exact ⟨(false, d), by simp [idle], valid, .refl d, by simp [idle]⟩
  | some idx =>
    obtain ⟨more, done, rehashes⟩ := rehashLoop_spec valid rehashing n (n * 10) (by omega)
    exact ⟨more, by simp [dictIsRehashing, rehashing, done], rehashes.valid, rehashes.same,
      rehashes.flag⟩

theorem dictRehashMilliseconds_spec (valid : d.Valid hash) (rounds : Nat) :
    ∃ d', dictRehashMilliseconds hash rounds d = some d' ∧ d'.Valid hash ∧ d.Same hash d' := by
  induction rounds generalizing d with
  | zero =>
    obtain ⟨more, done, valid', same, -⟩ := dictRehash_spec valid 100
    exact ⟨more.2, by rw [dictRehashMilliseconds, done, Option.map_some], valid', same⟩
  | succ rounds ih =>
    obtain ⟨more, done, valid', same, -⟩ := dictRehash_spec valid 100
    rw [dictRehashMilliseconds, done, Option.bind_some]
    split
    · obtain ⟨d', later, valid'', same'⟩ := ih valid'
      exact ⟨d', later, valid'', same.trans same'⟩
    · exact ⟨more.2, rfl, valid', same⟩

theorem dictRehash_round (valid : d.Valid hash) :
    ∃ more, dictRehash hash d 100 = some more ∧ more.2.Valid hash ∧
      more.1 = dictIsRehashing more.2 ∧
      (more.1 = false → more.2.ht0.size = if dictIsRehashing d then d.ht1.size else d.ht0.size) ∧
      (more.1 = true → dictIsRehashing d = true ∧ more.2.ht1.size = d.ht1.size ∧
        more.2.left < d.left) := by
  unfold dictRehash
  cases rehashing : d.rehashidx with
  | none =>
    have idle : dictIsRehashing d = false := by rw [dictIsRehashing, rehashing]; rfl
    exact ⟨(false, d), by simp [idle], valid, idle.symm, by simp [idle], by simp⟩
  | some idx =>
    have busy : dictIsRehashing d = true := by rw [dictIsRehashing, rehashing]; rfl
    obtain ⟨more, done, rehashes⟩ := rehashLoop_spec valid rehashing 100 1000 (by omega)
    refine ⟨more, by simp [busy, done], rehashes.valid, rehashes.flag, ?_, ?_⟩
    · intro finished
      rw [rehashes.flag, dictIsRehashing, Option.isSome_eq_false_iff,
        Option.isNone_iff_eq_none] at finished
      rw [if_pos busy, rehashes.ended finished]
    · intro going
      rw [rehashes.flag, dictIsRehashing] at going
      obtain ⟨idx', left⟩ := Option.isSome_iff_exists.mp going
      obtain ⟨-, further, size, size', used⟩ := rehashes.going idx' left
      have inside := rehashes.valid.inside left used
      have onward := further (by omega)
      refine ⟨busy, size', ?_⟩
      simp only [Dict.left, left, rehashing, Option.map_some, Option.getD_some]
      omega

theorem dictRehashMilliseconds_ends (valid : d.Valid hash) {rounds : Nat}
    (enough : d.left ≤ rounds) :
    ∃ d', dictRehashMilliseconds hash rounds d = some d' ∧ dictIsRehashing d' = false ∧
      d'.ht0.size = if dictIsRehashing d then d.ht1.size else d.ht0.size := by
  induction rounds generalizing d with
  | zero =>
    obtain ⟨more, done, -, flag, ended, going⟩ := dictRehash_round valid
    have finished : more.1 = false := by
      cases still : more.1 with
      | false => rfl
      | true =>
        have fewer := (going still).2.2
        omega
    exact ⟨more.2, by simp [dictRehashMilliseconds, done], flag.symm.trans finished, ended finished⟩
  | succ rounds ih =>
    obtain ⟨more, done, valid', flag, ended, going⟩ := dictRehash_round valid
    cases still : more.1 with
    | false =>
      exact ⟨more.2, by simp [dictRehashMilliseconds, done, still],
        flag.symm.trans still, ended still⟩
    | true =>
      obtain ⟨busy, size, fewer⟩ := going still
      obtain ⟨d', later, idle, final⟩ := ih valid' (by omega)
      refine ⟨d', by simp [dictRehashMilliseconds, done, still, later], idle, ?_⟩
      rw [final, ← flag, still, busy, size]
      rfl

theorem stepIfRehashing_spec (valid : d.Valid hash) :
    ∃ d', stepIfRehashing hash d = some d' ∧ d'.Valid hash ∧ d.Same hash d' := by
  unfold stepIfRehashing dictRehashStep
  split
  · split
    · obtain ⟨more, done, valid', same, -⟩ := dictRehash_spec valid 1
      exact ⟨more.2, by rw [done, Option.map_some], valid', same⟩
    · exact ⟨d, rfl, valid, .refl d⟩
  · exact ⟨d, rfl, valid, .refl d⟩

end Rehashing

theorem nextPowerFrom_pos {size rounds i : Nat} (positive : 0 < i) :
    0 < nextPowerFrom size rounds i := by
  induction rounds generalizing i with
  | zero => exact positive
  | succ rounds ih =>
    rw [nextPowerFrom]
    split
    · exact positive
    · exact ih (by omega)

theorem le_nextPowerFrom {size rounds i : Nat} (reached : size ≤ i * 2 ^ rounds) :
    size ≤ nextPowerFrom size rounds i := by
  induction rounds generalizing i with
  | zero => simpa [nextPowerFrom] using reached
  | succ rounds ih =>
    rw [nextPowerFrom]
    split
    · assumption
    · exact ih (by rw [Nat.mul_assoc, ← Nat.pow_succ']; exact reached)

theorem dictNextPower_pos (size : Nat) : 0 < dictNextPower size := by
  unfold dictNextPower
  split
  · exact Nat.two_pow_pos 63
  · exact nextPowerFrom_pos (by omega)

theorem le_dictNextPower {size : Nat} (below : size < 2 ^ 63) : size ≤ dictNextPower size := by
  unfold dictNextPower
  split
  · exact Nat.le_of_lt below
  · exact le_nextPowerFrom (by omega)

section Expanding

variable {d : Dict K V}

theorem Dict.Valid.not_rehashing (valid : d.Valid hash) (unallocated : d.ht0.table = []) :
    d.rehashidx = none := by
  cases rehashing : d.rehashidx with
  | none => rfl
  | some idx => exact absurd unallocated (valid.moving idx rehashing).1

theorem dictExpand_spec (valid : d.Valid hash) (size : Nat) :
    (dictExpand d size).2.Valid hash ∧ d.Same hash (dictExpand d size).2 ∧
      (d.ht0.table ≠ [] → (dictExpand d size).2.ht0.table ≠ []) := by
  have allocated : List.replicate (dictNextPower size) ([] : List (K × V)) ≠ [] := by
    rw [ne_eq, List.replicate_eq_nil_iff]
    exact Nat.ne_of_gt (dictNextPower_pos size)
  have fresh := fun key => Dictht.content_fresh (V := V) hash (dictNextPower size) key
  simp only [dictExpand]
  split
  · exact ⟨valid, .refl d, id⟩
  · rename_i settled
    split
    · exact ⟨valid, .refl d, id⟩
    · have idle : d.rehashidx = none := by
        simp only [dictIsRehashing, Bool.or_eq_true, Option.isSome_iff_ne_none, not_or,
          not_not] at settled
        exact settled.1
      have second := valid.idle idle
      split
      · rename_i unallocated
        have empty : d.ht0.table = [] := List.isEmpty_iff.mp unallocated
        have unused : d.ht0.used = 0 := by rw [valid.first.counted, empty]; rfl
        refine ⟨⟨Dictht.valid_fresh _, valid.second, ?_, valid.idle, ?_⟩, ⟨?_, ?_⟩,
          fun _ => allocated⟩
        · intro key found
          rw [fresh] at found
          cases found
        · intro idx rehashing
          cases idle.symm.trans rehashing
        · funext key
          simp only [Dict.content, fresh, valid.first.content_of_unused unused]
        · simp [dictSize, unused]
      · refine ⟨⟨valid.first, Dictht.valid_fresh _, fun key _ => fresh key,
          fun none => (by cases none), ?_⟩, ⟨?_, ?_⟩, id⟩
        · rename_i nonempty
          intro idx rehashing
          cases Option.some.inj rehashing
          exact ⟨fun empty => nonempty (List.isEmpty_iff.mpr empty), allocated,
            fun i _ below => by omega⟩
        · funext key
          simp only [Dict.content, fresh, second, Dictht.content_reset]
        · simp [dictSize, second, Dictht.reset]

theorem dictExpandIfNeeded_spec (valid : d.Valid hash) (bound : dictSize d < 2 ^ 61)
    (canResize : Bool) :
    ∃ d', dictExpandIfNeeded canResize d = (true, d') ∧ d'.Valid hash ∧ d.Same hash d' ∧
      d'.ht0.table ≠ [] := by
  unfold dictExpandIfNeeded
  cases rehashing : d.rehashidx with
  | some idx =>
    exact ⟨d, by simp [dictIsRehashing, rehashing], valid, .refl d, (valid.moving idx rehashing).1⟩
  | none =>
    have settled : dictIsRehashing d = false := by simp [dictIsRehashing, rehashing]
    have used : d.ht0.used ≤ dictSize d := Nat.le_add_right _ _
    rw [if_neg (by simp [settled])]
    split
    · rename_i unallocated
      have empty : d.ht0.table = [] := List.length_eq_zero_iff.mp unallocated
      have unused : d.ht0.used = 0 := by rw [valid.first.counted, empty]; rfl
      obtain ⟨valid', same, -⟩ := dictExpand_spec valid 4
      have grown : dictExpand d 4 = (true, { d with ht0 := ⟨List.replicate 4 [], 0⟩ }) := by
        simp [dictExpand, settled, unused, unallocated, empty, dictNextPower, nextPowerFrom]
      rw [grown] at valid' same ⊢
      exact ⟨_, rfl, valid', same, by simp⟩
    · rename_i allocated
      have nonempty : d.ht0.table ≠ [] := fun empty => allocated (List.length_eq_zero_iff.mpr empty)
      split
      · rename_i full
        simp only [Bool.and_eq_true, decide_eq_true_eq] at full
        obtain ⟨valid', same, stays⟩ := dictExpand_spec valid (d.ht0.used * 2)
        have larger : d.ht0.used * 2 ≤ dictNextPower (d.ht0.used * 2) := le_dictNextPower (by omega)
        have flag : (dictExpand d (d.ht0.used * 2)).1 = true := by
          have differ : dictNextPower (d.ht0.used * 2) ≠ d.ht0.size := by omega
          have room : ¬ d.ht0.used * 2 < d.ht0.used := by omega
          simp [dictExpand, settled, room, differ, nonempty]
        exact ⟨_, Prod.ext flag rfl, valid', same, stays nonempty⟩
      · exact ⟨d, rfl, valid, .refl d, nonempty⟩

theorem dictResize_spec (valid : d.Valid hash) (canResize : Bool) :
    (dictResize canResize d).2.Valid hash ∧ d.Same hash (dictResize canResize d).2 := by
  simp only [dictResize]
  split
  · exact ⟨valid, .refl d⟩
  · exact ⟨(dictExpand_spec valid _).1, (dictExpand_spec valid _).2.1⟩

end Expanding

section Keys

variable {d : Dict K V} {key : K}

/-- What is known where the walk for a key has ended. -/
structure Walked (hash : K → UInt64) (d : Dict K V) (key : K) (walk : Walk V)
    (chain : List (K × V)) : Prop where
  index : walk.index = slot hash (d.ht walk.second).size key
  there : (d.ht walk.second).table[slot hash (d.ht walk.second).size key]? = some chain
  value : walk.value = chain.lookup key
  content : walk.value = d.content hash key
  elsewhere : (d.ht !walk.second).content hash key = none
  second : walk.second = true → dictIsRehashing d = true
  free : walk.value = none → dictIsRehashing d = walk.second

theorem dictWalk_spec (valid : d.Valid hash) (nonempty : d.ht0.table ≠ []) (key : K) :
    ∃ walk chain, dictWalk hash d key = some walk ∧ Walked hash d key walk chain := by
  obtain ⟨chain, there⟩ := chain_of_slot hash nonempty key
  have first : d.ht0.content hash key = chain.lookup key := find_eq there
  simp only [dictWalk, there, Option.bind_some]
  cases found : chain.lookup key with
  | some value =>
    have other := valid.apart key (by rw [first, found]; rfl)
    refine ⟨_, chain, rfl, rfl, there, found.symm, ?_, other, by simp, by simp⟩
    rw [Dict.content, first, found, Option.some_or]
  | none =>
    cases rehashing : d.rehashidx with
    | none =>
      have second := valid.idle rehashing
      refine ⟨⟨false, slot hash d.ht0.size key, none⟩,
        chain, by simp [dictIsRehashing, rehashing], rfl, there, found.symm, ?_, ?_, by simp, ?_⟩
      · rw [Dict.content, first, found, second]
        rfl
      · simp [Dict.ht, second, Dictht.content_reset]
      · simp [dictIsRehashing, rehashing]
    | some idx =>
      obtain ⟨chain', there'⟩ := chain_of_slot hash (valid.moving idx rehashing).2.1 key
      have second : d.ht1.content hash key = chain'.lookup key := find_eq there'
      refine ⟨⟨true, slot hash d.ht1.size key, chain'.lookup key⟩, chain',
        by simp [dictIsRehashing, rehashing, there'], rfl, there', rfl, ?_, ?_, ?_, ?_⟩
      · rw [Dict.content, first, found, second, Option.none_or]
      · exact first.trans found
      · simp [dictIsRehashing, rehashing]
      · simp [dictIsRehashing, rehashing]

theorem Walked.alter (valid : d.Valid hash) {walk : Walk V} {chain : List (K × V)}
    (walked : Walked hash d key walk chain) (new : List (K × V) → List (K × V)) (used : Nat → Nat)
    (amends : Amends (slot hash (d.ht walk.second).size) key chain (new chain))
    (counts : used (d.ht walk.second).used + chain.length =
      (d.ht walk.second).used + (new chain).length) :
    ∃ d', d.alter walk.second walk.index new used = some d' ∧ d'.Valid hash ∧
      d'.content hash = Function.update (d.content hash) key ((new chain).lookup key) ∧
      dictSize d' + chain.length = dictSize d + (new chain).length := by
  obtain ⟨second, index, value⟩ := walk
  obtain ⟨index, there, value, -, elsewhere, rehashing, free⟩ := walked
  dsimp only at index there value elsewhere rehashing free amends counts ⊢
  have altered := (valid.ht second).set there amends _ counts
  have content := fun other => Dictht.content_set there amends (used (d.ht second).used) other
  rw [Dict.alter, index, Dictht.alter_some there, Option.map_some]
  refine ⟨_, rfl, ?_⟩
  cases second with
  | false =>
    refine ⟨⟨altered, valid.second, ?_, valid.idle, ?_⟩, ?_, ?_⟩
    · intro other found
      change (Dictht.content hash ⟨_, _⟩ other).isSome at found
      rw [content] at found
      split at found
      · rename_i same
        exact same ▸ elsewhere
      · exact valid.apart other found
    · intro idx at_
      obtain ⟨nonempty, nonempty', before⟩ := valid.moving idx at_
      refine ⟨fun empty => nonempty ((List.set_eq_nil_iff _ _).mp empty), nonempty', ?_⟩
      intro i other below found
      change (d.ht0.table.set _ _)[i]? = some other at found
      rw [List.getElem?_set] at found
      split at found
      · rename_i same
        -- A chain before the index is empty: the key was not found and the walk has gone on.
        have empty := before i chain below (same ▸ there)
        have going := free (value.trans (by rw [empty]; rfl))
        have busy : d.rehashidx = some idx := at_
        simp [dictIsRehashing, busy] at going
      · exact before i other below found
    · funext other
      change (Dictht.content hash ⟨_, _⟩ other).or (d.ht1.content hash other) = _
      rw [content, Function.update_apply]
      split
      · rename_i same
        have gone : d.ht1.content hash key = none := elsewhere
        rw [same, gone, Option.or_none]
      · rfl
    · change used d.ht0.used + d.ht1.used + chain.length =
        d.ht0.used + d.ht1.used + (new chain).length
      change used d.ht0.used + chain.length = d.ht0.used + (new chain).length at counts
      omega
  | true =>
    have gone : d.ht0.content hash key = none := elsewhere
    refine ⟨⟨valid.first, altered, ?_, ?_, ?_⟩, ?_, ?_⟩
    · intro other found
      change Dictht.content hash ⟨_, _⟩ other = none
      rw [content]
      split
      · rename_i same
        change (d.ht0.content hash other).isSome at found
        rw [same, gone] at found
        cases found
      · exact valid.apart other found
    · intro idle
      have busy := rehashing rfl
      have settled : d.rehashidx = none := idle
      simp [dictIsRehashing, settled] at busy
    · intro idx at_
      obtain ⟨nonempty, nonempty', before⟩ := valid.moving idx at_
      exact ⟨nonempty, fun empty => nonempty' ((List.set_eq_nil_iff _ _).mp empty), before⟩
    · funext other
      change (d.ht0.content hash other).or (Dictht.content hash ⟨_, _⟩ other) = _
      rw [content, Function.update_apply]
      split
      · rename_i same
        rw [same, gone, Option.none_or]
      · rfl
    · change d.ht0.used + used d.ht1.used + chain.length =
        d.ht0.used + d.ht1.used + (new chain).length
      change used d.ht1.used + chain.length = d.ht1.used + (new chain).length at counts
      omega

theorem Dict.Valid.nonempty (valid : d.Valid hash) (busy : dictSize d ≠ 0) : d.ht0.table ≠ [] := by
  intro empty
  have unused : d.ht0.used = 0 := by rw [valid.first.counted, empty]; rfl
  have second := valid.idle (valid.not_rehashing empty)
  exact busy (by simp [dictSize, unused, second, Dictht.reset])

theorem Dict.Valid.content_of_empty (valid : d.Valid hash) (empty : dictSize d = 0) (key : K) :
    d.content hash key = none := by
  unfold dictSize at empty
  rw [Dict.content, valid.first.content_of_unused (by omega),
    valid.second.content_of_unused (by omega)]
  rfl

theorem dictFind_spec (valid : d.Valid hash) (key : K) :
    ∃ d', dictFind hash d key = some (d.content hash key, d') ∧ d'.Valid hash ∧ d.Same hash d' := by
  unfold dictFind
  split
  · rename_i empty
    exact ⟨d, by rw [valid.content_of_empty empty key], valid, .refl d⟩
  · rename_i busy
    obtain ⟨d', stepped, valid', same⟩ := stepIfRehashing_spec valid
    obtain ⟨walk, chain, done, walked⟩ := dictWalk_spec valid'
      (valid'.nonempty (by rw [same.size]; exact busy)) key
    refine ⟨d', ?_, valid', same⟩
    rw [stepped, Option.bind_some, done, Option.map_some, walked.content, same.content]

theorem dictKeyIndex_spec (valid : d.Valid hash) (bound : dictSize d < 2 ^ 61)
    (canResize : Bool) (key : K) :
    ∃ d' walk chain, dictKeyIndex hash canResize d key =
        some (if walk.value.isSome then .existing walk.second walk.index
          else .free walk.index, d') ∧
      d'.Valid hash ∧ d.Same hash d' ∧ Walked hash d' key walk chain := by
  obtain ⟨d', expanded, valid', same, nonempty⟩ := dictExpandIfNeeded_spec valid bound canResize
  obtain ⟨walk, chain, done, walked⟩ := dictWalk_spec valid' nonempty key
  exact ⟨d', walk, chain, by simp [dictKeyIndex, expanded, done], valid', same, walked⟩

theorem dictAddRaw_new (valid : d.Valid hash) (bound : dictSize d < 2 ^ 61) (canResize : Bool)
    (absent : d.content hash key = none) (val : V) :
    ∃ index d', dictAddRaw hash canResize d key val = some (.free index, d') ∧ d'.Valid hash ∧
      d'.content hash = Function.update (d.content hash) key (some val) ∧
        dictSize d' = dictSize d + 1 := by
  obtain ⟨d₁, stepped, valid₁, same₁⟩ := stepIfRehashing_spec valid
  obtain ⟨d₂, walk, chain, found, valid₂, same₂, walked⟩ := dictKeyIndex_spec valid₁
    (by rw [same₁.size]; exact bound) canResize key
  have same := same₁.trans same₂
  have missing : walk.value = none := by rw [walked.content, same.content, absent]
  obtain ⟨d', altered, valid', content, size⟩ := walked.alter valid₂ (fun old => (key, val) :: old)
    (· + 1) (amends_push (valid₂.ht _).placed walked.there (walked.value.symm.trans missing) val)
      (by simp; omega)
  refine ⟨walk.index, d', ?_, valid', ?_, ?_⟩
  · simp only [dictAddRaw, stepped, Option.bind_some, found, missing, Option.isSome_none,
      Bool.false_eq_true, if_false, walked.free missing, altered, Option.map_some]
  · rw [content, same.content, lookup_cons, if_pos rfl]
  · have before := same.size
    simp only [List.length_cons] at size
    omega

theorem dictAddRaw_existing (valid : d.Valid hash) (bound : dictSize d < 2 ^ 61) (canResize : Bool)
    (key : K) (present : (d.content hash key).isSome) (val : V) :
    ∃ d' walk chain, dictAddRaw hash canResize d key val =
      some (.existing walk.second walk.index, d') ∧
      d'.Valid hash ∧ d.Same hash d' ∧ Walked hash d' key walk chain := by
  obtain ⟨d₁, stepped, valid₁, same₁⟩ := stepIfRehashing_spec valid
  obtain ⟨d₂, walk, chain, found, valid₂, same₂, walked⟩ := dictKeyIndex_spec valid₁
    (by rw [same₁.size]; exact bound) canResize key
  have same := same₁.trans same₂
  have there : walk.value.isSome = true := by rw [walked.content, same.content, present]
  refine ⟨d₂, walk, chain, ?_, valid₂, same, walked⟩
  simp only [dictAddRaw, stepped, Option.bind_some, found, there, if_true]

theorem dictAdd_spec (valid : d.Valid hash) (bound : dictSize d < 2 ^ 61) (canResize : Bool)
    (key : K) (val : V) :
    ∃ d', dictAdd hash canResize d key val = some ((d.content hash key).isNone, d') ∧
      d'.Valid hash ∧
      d'.content hash = Function.update (d.content hash) key ((d.content hash key).or (some val)) ∧
      dictSize d' ≤ dictSize d + 1 := by
  cases before : d.content hash key with
  | none =>
    obtain ⟨index, d', added, valid', content, size⟩ :=
      dictAddRaw_new valid bound canResize before val
    exact ⟨d', by simp [dictAdd, added], valid', content, by omega⟩
  | some old =>
    obtain ⟨d', walk, chain, found, valid', same, -⟩ :=
      dictAddRaw_existing valid bound canResize key
      (by rw [before]; rfl) val
    refine ⟨d', by simp [dictAdd, found], valid', ?_, by rw [same.size]; omega⟩
    rw [same.content, Option.some_or, ← before, Function.update_eq_self]

theorem dictReplace_spec (valid : d.Valid hash) (bound : dictSize d < 2 ^ 61)
    (canResize : Bool) (key : K) (val : V) :
    ∃ d', dictReplace hash canResize d key val = some ((d.content hash key).isNone, d') ∧
      d'.Valid hash ∧
      d'.content hash = Function.update (d.content hash) key (some val) ∧
        dictSize d' ≤ dictSize d + 1 := by
  cases before : d.content hash key with
  | none =>
    obtain ⟨index, d', added, valid', content, size⟩ :=
      dictAddRaw_new valid bound canResize before val
    exact ⟨d', by simp [dictReplace, added], valid', content, by omega⟩
  | some old =>
    obtain ⟨d₁, walk, chain, found, valid₁, same, walked⟩ :=
      dictAddRaw_existing valid bound canResize key
      (by rw [before]; rfl) val
    have there : (chain.lookup key).isSome := by
      rw [← walked.value, walked.content, same.content, before]
      rfl
    have length : (setVal key val chain).length = chain.length := by
      rw [← List.length_map Prod.fst, setVal_keys, List.length_map]
    obtain ⟨d', altered, valid', content, size⟩ := walked.alter valid₁ (setVal key val) id
      (amends_setVal (valid₁.ht _).placed walked.there val) (by rw [length]; rfl)
    refine ⟨d', by simp [dictReplace, found, altered], valid', ?_, ?_⟩
    · rw [content, same.content, lookup_setVal (lookup_isSome.mp there), if_pos rfl]
    · have unchanged := same.size
      omega

theorem dictDelete_spec (valid : d.Valid hash) (key : K) :
    ∃ d', dictDelete hash d key = some ((d.content hash key).isSome, d') ∧ d'.Valid hash ∧
      d'.content hash = Function.update (d.content hash) key none ∧ dictSize d' ≤ dictSize d := by
  unfold dictDelete
  split
  · rename_i empty
    have nothing := valid.content_of_empty (by unfold dictSize; omega) key
    refine ⟨d, by rw [nothing]; rfl, valid, ?_, Nat.le_refl _⟩
    rw [← nothing, Function.update_eq_self]
  · rename_i busy
    obtain ⟨d₁, stepped, valid₁, same⟩ := stepIfRehashing_spec valid
    have size := same.size
    obtain ⟨walk, chain, done, walked⟩ := dictWalk_spec valid₁
      (valid₁.nonempty (by rw [size]; unfold dictSize; omega)) key
    have value : walk.value = d.content hash key := by rw [walked.content, same.content]
    rw [stepped, Option.bind_some, done, Option.bind_some]
    cases found : d.content hash key with
    | none =>
      refine ⟨d₁, by simp [value, found], valid₁, ?_, by omega⟩
      rw [same.content, ← found, Function.update_eq_self]
    | some old =>
      obtain ⟨placed, counted⟩ := valid₁.ht walk.second
      have length := length_unlink (walked.value.symm.trans (value.trans found))
      have positive : chain.length ≤ (d₁.ht walk.second).used := by
        have counts := count_set walked.there []
        simp only [List.length_nil] at counts
        omega
      obtain ⟨d', altered, valid', content, less⟩ := walked.alter valid₁ (unlink key) (· - 1)
        (amends_unlink placed walked.there) (by omega)
      refine ⟨d', by simp [value, found, altered], valid', ?_, by omega⟩
      rw [content, same.content, lookup_unlink (placed.distinct _ _ walked.there), if_pos rfl]

theorem Dict.Valid.size_eq (valid : d.Valid hash) :
    dictSize d = {key | (d.content hash key).isSome}.ncard := by
  have distinct : ((d.ht0.table.flatten ++ d.ht1.table.flatten).map Prod.fst).Nodup := by
    rw [List.map_append, List.nodup_append']
    refine ⟨valid.first.placed.keys_nodup, valid.second.placed.keys_nodup, ?_⟩
    intro key first second
    have found := (mem_keys_iff valid.first.placed key).mp first
    have there := (mem_keys_iff valid.second.placed key).mp second
    have gone := valid.apart key found
    unfold Dictht.content at gone
    rw [gone] at there
    cases there
  have keys : {key | (d.content hash key).isSome} =
      (((d.ht0.table.flatten ++ d.ht1.table.flatten).map Prod.fst).toFinset : Set K) := by
    ext key
    rw [Set.mem_ofPred_eq, Finset.mem_coe, List.mem_toFinset, List.map_append, List.mem_append,
      mem_keys_iff valid.first.placed, mem_keys_iff valid.second.placed, Dict.content,
      Option.isSome_or, Bool.or_eq_true]
    rfl
  rw [keys, Set.ncard_coe_finset, List.toFinset_card_of_nodup distinct, List.length_map,
    List.length_append, dictSize, valid.first.counted, valid.second.counted]
  rfl

end Keys

/-- What is done to a dictionary: the operations on it, and what else happens to it between them. -/
inductive DictOp (K V : Type) where
  | add (key : K) (val : V)
  | replace (key : K) (val : V)
  | find (key : K)
  | delete (key : K)
  | resize
  | rehash (rounds : Nat)
  | allowResize (canResize : Bool)
  | iterate (iterators : Nat)

inductive DictAnswer (V : Type) where
  | flag (b : Bool)
  | value (v : Option V)
  | nothing
  deriving Repr, DecidableEq

namespace DictOp

def apply (hash : K → UInt64) :
    DictOp K V → Bool × Dict K V → Option (DictAnswer V × Bool × Dict K V)
  | add key val, (canResize, d) =>
    (dictAdd hash canResize d key val).map (fun r => (.flag r.1, canResize, r.2))
  | replace key val, (canResize, d) =>
    (dictReplace hash canResize d key val).map (fun r => (.flag r.1, canResize, r.2))
  | find key, (canResize, d) => (dictFind hash d key).map (fun r => (.value r.1, canResize, r.2))
  | delete key, (canResize, d) => (dictDelete hash d key).map (fun r => (.flag r.1, canResize, r.2))
  | resize, (canResize, d) => some (.nothing, canResize, (dictResize canResize d).2)
  | rehash rounds, (canResize, d) =>
    (dictRehashMilliseconds hash rounds d).map (fun d => (.nothing, canResize, d))
  | allowResize canResize, (_, d) => some (.nothing, canResize, d)
  | iterate iterators, (canResize, d) =>
    some (.nothing, canResize, { d with iterators := iterators })

def meaning : DictOp K V → (K → Option V) → DictAnswer V × (K → Option V)
  | add key val, m => (.flag (m key).isNone, Function.update m key ((m key).or (some val)))
  | replace key val, m => (.flag (m key).isNone, Function.update m key (some val))
  | find key, m => (.value (m key), m)
  | delete key, m => (.flag (m key).isSome, Function.update m key none)
  | _, m => (.nothing, m)

def applyAll (hash : K → UInt64) :
    List (DictOp K V) → Bool × Dict K V → Option (List (DictAnswer V) × Bool × Dict K V)
  | [], s => some ([], s)
  | op :: ops, s => (op.apply hash s).bind (fun first =>
      (applyAll hash ops first.2).map (fun rest => (first.1 :: rest.1, rest.2)))

def meaningAll : List (DictOp K V) → (K → Option V) → List (DictAnswer V) × (K → Option V)
  | [], m => ([], m)
  | op :: ops, m =>
    ((op.meaning m).1 :: (meaningAll ops (op.meaning m).2).1, (meaningAll ops (op.meaning m).2).2)

theorem apply_meaning {s : Bool × Dict K V} (valid : s.2.Valid hash) (bound : dictSize s.2 < 2 ^ 61)
    (op : DictOp K V) :
    ∃ s', op.apply hash s = some ((op.meaning (s.2.content hash)).1, s') ∧ s'.2.Valid hash ∧
      s'.2.content hash = (op.meaning (s.2.content hash)).2 ∧ dictSize s'.2 ≤ dictSize s.2 + 1 := by
  obtain ⟨canResize, d⟩ := s
  dsimp only at valid bound
  cases op with
  | add key val =>
    obtain ⟨d', done, valid', content, size⟩ := dictAdd_spec valid bound canResize key val
    exact ⟨(canResize, d'), by simp [apply, done, meaning], valid', content, size⟩
  | replace key val =>
    obtain ⟨d', done, valid', content, size⟩ := dictReplace_spec valid bound canResize key val
    exact ⟨(canResize, d'), by simp [apply, done, meaning], valid', content, size⟩
  | find key =>
    obtain ⟨d', done, valid', same⟩ := dictFind_spec valid key
    exact ⟨(canResize, d'), by simp [apply, done, meaning], valid',
      same.content, by rw [same.size]; simp⟩
  | delete key =>
    obtain ⟨d', done, valid', content, size⟩ := dictDelete_spec valid key
    exact ⟨(canResize, d'), by simp [apply, done, meaning], valid', content, Nat.le_succ_of_le size⟩
  | resize =>
    obtain ⟨valid', same⟩ := dictResize_spec valid canResize
    exact ⟨_, rfl, valid', same.content, by rw [same.size]; simp⟩
  | rehash rounds =>
    obtain ⟨d', done, valid', same⟩ := dictRehashMilliseconds_spec valid rounds
    exact ⟨(canResize, d'), by simp [apply, done, meaning], valid',
      same.content, by rw [same.size]; simp⟩
  | allowResize canResize' => exact ⟨_, rfl, valid, rfl, Nat.le_succ _⟩
  | iterate iterators =>
    exact ⟨_, rfl, ⟨valid.first, valid.second, valid.apart, valid.idle, valid.moving⟩, rfl,
      Nat.le_succ _⟩

theorem applyAll_meaning {s : Bool × Dict K V} (valid : s.2.Valid hash) {ops : List (DictOp K V)}
    (bound : dictSize s.2 + ops.length ≤ 2 ^ 61) :
    ∃ s', applyAll hash ops s = some ((meaningAll ops (s.2.content hash)).1, s') ∧ s'.2.Valid hash ∧
      s'.2.content hash = (meaningAll ops (s.2.content hash)).2 := by
  induction ops generalizing s with
  | nil => exact ⟨s, rfl, valid, rfl⟩
  | cons op ops ih =>
    rw [List.length_cons] at bound
    obtain ⟨s₁, first, valid₁, content₁, size⟩ := apply_meaning valid (by omega) op
    obtain ⟨s₂, rest, valid₂, content₂⟩ := ih valid₁ (by omega)
    rw [content₁] at rest content₂
    refine ⟨s₂, ?_, valid₂, content₂⟩
    rw [applyAll, first, Option.bind_some, rest, Option.map_some]
    rfl

end DictOp

theorem dictCreate_valid : (dictCreate : Dict K V).Valid hash :=
  ⟨Dictht.valid_reset, Dictht.valid_reset, fun _ _ => rfl, fun _ => rfl, fun _ at_ => by cases at_⟩

/-- Up to 2^61 operations on a new dictionary never fail an assertion and never leave a table, they
answer what a map answers, and the dictionary counts the keys of the map. -/
theorem dict_is_map (hash : K → UInt64) (ops : List (DictOp K V)) (bounded : ops.length ≤ 2 ^ 61) :
    ∃ canResize d, DictOp.applyAll hash ops (true, dictCreate) =
        some ((DictOp.meaningAll ops (fun _ => none)).1, canResize, d) ∧
      d.content hash = (DictOp.meaningAll ops (fun _ => none)).2 ∧
      dictSize d = {key | ((DictOp.meaningAll ops (fun _ => none)).2 key).isSome}.ncard := by
  have empty : dictSize (dictCreate : Dict K V) = 0 := rfl
  obtain ⟨⟨canResize, d⟩, done, valid, content⟩ := DictOp.applyAll_meaning (s := (true, dictCreate))
    (dictCreate_valid : (dictCreate : Dict K V).Valid hash)
      (by rw [empty, Nat.zero_add]; exact bounded)
  refine ⟨canResize, d, done, content, ?_⟩
  rw [valid.size_eq]
  exact congrArg (fun m : K → Option V => {key | (m key).isSome}.ncard) content

theorem dict_is_map_colliding :
    ∃ canResize d, DictOp.applyAll (fun _ => 0)
        [.add 1 10, .add 2 20, .add 3 30, .add 4 40, .add 5 50, .find 2, .delete 1,
          .replace 2 21, .find 1]
          (true, (dictCreate : Dict Nat Nat)) =
        some ([.flag true, .flag true, .flag true, .flag true, .flag true,
          .value (some 20), .flag true,
          .flag false, .value none], canResize, d) ∧
      dictSize d = 4 := by
  obtain ⟨canResize, d, done, -, -⟩ := dict_is_map (K := Nat) (V := Nat) (fun _ => 0)
    [.add 1 10, .add 2 20, .add 3 30, .add 4 40, .add 5 50, .find 2, .delete 1, .replace 2 21,
      .find 1] (by decide)
  refine ⟨canResize, d, done, ?_⟩
  have size : (DictOp.applyAll (fun _ => 0)
      [.add 1 10, .add 2 20, .add 3 30, .add 4 40, .add 5 50, .find 2, .delete 1,
        .replace 2 21, .find 1]
        (true, (dictCreate : Dict Nat Nat))).map (fun r => dictSize r.2.2) =
          some 4 := by decide +kernel
  rw [done] at size
  exact Option.some.inj size

/-- Whatever has been done to a dictionary, as many rounds as its first table has chains end the
rehashing that is under way: the second table takes the place of the first, and no key is lost. -/
theorem rehash_ends (hash : K → UInt64) {ops : List (DictOp K V)} (bounded : ops.length ≤ 2 ^ 61)
    {answers : List (DictAnswer V)} {canResize : Bool} {d : Dict K V}
    (reached : DictOp.applyAll hash ops (true, dictCreate) = some (answers, canResize, d))
    {rounds : Nat} (enough : d.ht0.size ≤ rounds) :
    ∃ d', dictRehashMilliseconds hash rounds d = some d' ∧ dictIsRehashing d' = false ∧
      d'.ht0.size = (if dictIsRehashing d then d.ht1.size else d.ht0.size) ∧
      d'.content hash = (DictOp.meaningAll ops (fun _ => none)).2 := by
  have empty : dictSize (dictCreate : Dict K V) = 0 := rfl
  obtain ⟨s, done, valid, content⟩ := DictOp.applyAll_meaning (s := (true, dictCreate))
    (dictCreate_valid : (dictCreate : Dict K V).Valid hash)
      (by rw [empty, Nat.zero_add]; exact bounded)
  rw [reached] at done
  cases (Prod.mk.inj (Option.some.inj done)).2
  obtain ⟨d', rehashed, idle, size⟩ :=
    dictRehashMilliseconds_ends valid (Nat.le_trans d.left_le enough)
  obtain ⟨same, again, -, kept⟩ := dictRehashMilliseconds_spec valid rounds
  cases Option.some.inj (rehashed.symm.trans again)
  exact ⟨d', rehashed, idle, size, kept.content.trans content⟩

def growing : List (DictOp Nat Nat) := [.add 1 10, .add 2 20, .add 3 30, .add 4 40, .add 5 50]

theorem rehash_ends_growing : ∃ answers canResize d d',
    DictOp.applyAll (fun key => key.toUInt64) growing (true, dictCreate) =
      some (answers, canResize, d) ∧
    dictIsRehashing d = true ∧ dictRehashMilliseconds (fun key => key.toUInt64) 4 d = some d' ∧
    dictIsRehashing d' = false ∧ d'.ht0.size = 8 := by
  have evaluated : (DictOp.applyAll (fun key => key.toUInt64) growing (true, dictCreate)).map
      (fun r => (dictIsRehashing r.2.2, r.2.2.ht0.size, r.2.2.ht1.size)) = some (true, 4, 8) := by
        decide +kernel
  obtain ⟨⟨answers, canResize, d⟩, reached, seen⟩ := Option.map_eq_some_iff.mp evaluated
  obtain ⟨busy, size, larger⟩ : dictIsRehashing d = true ∧ d.ht0.size = 4 ∧ d.ht1.size = 8 := by
    simpa using seen
  obtain ⟨d', ended, idle, final, -⟩ :=
    rehash_ends (fun key => key.toUInt64) (by decide) reached (Nat.le_of_eq size)
  rw [if_pos busy, larger] at final
  exact ⟨answers, canResize, d, d', reached, busy, ended, idle, final⟩

end Haystack.Redis
