import Haystack.Buckets
import Mathlib.Algebra.BigOperators.Group.List.Basic

/-! The dictionary of redis, dict.c: a table of chains that grows and shrinks by moving its chains
to a second table, a few of them with every operation on it. A read or a write outside of a table
and an assertion that fails are none. -/
namespace Haystack.Redis

open Buckets

structure Dictht (K V : Type) where
  table : List (List (K × V))
  used : Nat
  deriving Repr, DecidableEq

def Dictht.reset {K V : Type} : Dictht K V := ⟨[], 0⟩

def Dictht.size {K V : Type} (ht : Dictht K V) : Nat := ht.table.length

/-- A dict. The index -1 of a dict that is not being rehashed is none. -/
structure Dict (K V : Type) where
  ht0 : Dictht K V
  ht1 : Dictht K V
  rehashidx : Option Nat
  iterators : Nat
  deriving Repr, DecidableEq

def dictCreate {K V : Type} : Dict K V := ⟨.reset, .reset, none, 0⟩

section Tables

variable {K V : Type}

def dictIsRehashing (d : Dict K V) : Bool := d.rehashidx.isSome

def dictSize (d : Dict K V) : Nat := d.ht0.used + d.ht1.used

def Dictht.alter (ht : Dictht K V) (i : Nat) (chain : List (K × V) → List (K × V))
    (used : Nat → Nat) :
    Option (Dictht K V) :=
  ht.table[i]?.map (fun old => ⟨ht.table.set i (chain old), used ht.used⟩)

def Dict.ht (d : Dict K V) (second : Bool) : Dictht K V := if second then d.ht1 else d.ht0

def Dict.setHt (d : Dict K V) (second : Bool) (ht : Dictht K V) : Dict K V :=
  if second then { d with ht1 := ht } else { d with ht0 := ht }

def Dict.alter (d : Dict K V) (second : Bool) (i : Nat) (chain : List (K × V) → List (K × V))
    (used : Nat → Nat) : Option (Dict K V) :=
  ((d.ht second).alter i chain used).map (d.setHt second)

/-- The loop of _dictNextPower. From 4 on it reaches every size below LONG_MAX in 61 rounds. -/
def nextPowerFrom (size : Nat) : Nat → Nat → Nat
  | 0, i => i
  | rounds + 1, i => if size ≤ i then i else nextPowerFrom size rounds (i * 2)

def dictNextPower (size : Nat) : Nat :=
  if 2 ^ 63 - 1 ≤ size then 2 ^ 63 else nextPowerFrom size 61 4

def dictExpand (d : Dict K V) (size : Nat) : Bool × Dict K V :=
  let realsize := dictNextPower size
  if dictIsRehashing d || size < d.ht0.used then (false, d)
  else if realsize = d.ht0.size then (false, d)
  else if d.ht0.table.isEmpty then (true, { d with ht0 := ⟨List.replicate realsize [], 0⟩ })
  else (true, { d with ht1 := ⟨List.replicate realsize [], 0⟩, rehashidx := some 0 })

def dictExpandIfNeeded (canResize : Bool) (d : Dict K V) : Bool × Dict K V :=
  if dictIsRehashing d then (true, d)
  else if d.ht0.size = 0 then dictExpand d 4
  else if d.ht0.size ≤ d.ht0.used && (canResize || 5 < d.ht0.used / d.ht0.size) then
    dictExpand d (d.ht0.used * 2)
  else (true, d)

/-- Shrink the table to what its entries need. Their number is kept in an int. -/
def dictResize (canResize : Bool) (d : Dict K V) : Bool × Dict K V :=
  if !canResize || dictIsRehashing d then (false, d)
  else
    let minimal := (Int32.ofNat d.ht0.used).toInt
    dictExpand d (if minimal < 4 then 4 else minimal.toNat)

/-- Walk over empty chains from the index on. The new index comes with the visits that are left;
when there are none, dictRehash has to stop. -/
def skipEmpty (table : List (List (K × V))) : Nat → Nat → Option (Nat × Nat)
  | 0, _ => none
  | visits + 1, idx =>
    match table[idx]? with
    | none => none
    | some [] => if visits = 0 then some (idx + 1, 0) else skipEmpty table visits (idx + 1)
    | some (_ :: _) => some (idx, visits + 1)

end Tables

section Hashing

variable {K V : Type} (hash : K → UInt64)

def slot (size : Nat) (key : K) : Nat := (hash key).toNat &&& (size - 1)

def moveChain : List (K × V) → Dictht K V → Option (Dictht K V)
  | [], ht => some ht
  | e :: chain, ht =>
    (ht.alter (slot hash ht.size e.1) (fun old => e :: old) (· + 1)).bind (moveChain chain)

def rehashChain (idx : Nat) (d : Dict K V) : Option (Dict K V) :=
  d.ht0.table[idx]?.bind (fun chain =>
    (moveChain hash chain d.ht1).map (fun ht =>
      { d with
        ht0 := ⟨d.ht0.table.set idx [], d.ht0.used - chain.length⟩
        ht1 := ht
        rehashidx := some (idx + 1) }))

def rehashed (d : Dict K V) : Bool × Dict K V :=
  if d.ht0.used = 0 then (false, { d with ht0 := d.ht1, ht1 := .reset, rehashidx := none })
  else (true, d)

def rehashLoop : Nat → Nat → Dict K V → Option (Bool × Dict K V)
  | 0, _, d => some (rehashed d)
  | n + 1, visits, d =>
    if d.ht0.used = 0 then some (rehashed d)
    else d.rehashidx.bind (fun idx =>
      if d.ht0.size ≤ idx then none
      else (skipEmpty d.ht0.table visits idx).bind (fun found =>
        if found.2 = 0 then some (true, { d with rehashidx := some found.1 })
        else (rehashChain hash found.1 d).bind (rehashLoop n found.2)))

def dictRehash (d : Dict K V) (n : Nat) : Option (Bool × Dict K V) :=
  if dictIsRehashing d then rehashLoop hash n (n * 10) d else some (false, d)

/-- Rehash for as many rounds after the first one as the clock leaves time for. -/
def dictRehashMilliseconds : Nat → Dict K V → Option (Dict K V)
  | 0, d => (dictRehash hash d 100).map Prod.snd
  | rounds + 1, d => (dictRehash hash d 100).bind (fun more =>
      if more.1 then dictRehashMilliseconds rounds more.2 else some more.2)

def dictRehashStep (d : Dict K V) : Option (Dict K V) :=
  if d.iterators = 0 then (dictRehash hash d 1).map Prod.snd else some d

def stepIfRehashing (d : Dict K V) : Option (Dict K V) :=
  if dictIsRehashing d then dictRehashStep hash d else some d

structure Walk (V : Type) where
  second : Bool
  index : Nat
  value : Option V

inductive KeyIndex where
  | free (index : Nat)
  | existing (second : Bool) (index : Nat)
  | refused

section Keys

variable [DecidableEq K]

/-- The loop over both tables that dictFind, dictGenericDelete and _dictKeyIndex share. -/
def dictWalk (d : Dict K V) (key : K) : Option (Walk V) :=
  let index := slot hash d.ht0.size key
  d.ht0.table[index]?.bind (fun chain =>
    match chain.lookup key with
    | some value => some ⟨false, index, some value⟩
    | none =>
      if dictIsRehashing d then
        let index := slot hash d.ht1.size key
        d.ht1.table[index]?.map (fun chain => ⟨true, index, chain.lookup key⟩)
      else some ⟨false, index, none⟩)

def dictFind (d : Dict K V) (key : K) : Option (Option V × Dict K V) :=
  if d.ht0.used + d.ht1.used = 0 then some (none, d)
  else (stepIfRehashing hash d).bind (fun d =>
    (dictWalk hash d key).map (fun walk => (walk.value, d)))

def dictKeyIndex (canResize : Bool) (d : Dict K V) (key : K) : Option (KeyIndex × Dict K V) :=
  match dictExpandIfNeeded canResize d with
  | (false, d) => some (.refused, d)
  | (true, d) => (dictWalk hash d key).map (fun walk =>
      (if walk.value.isSome then .existing walk.second walk.index else .free walk.index, d))

def dictAddRaw (canResize : Bool) (d : Dict K V) (key : K) (val : V) :
    Option (KeyIndex × Dict K V) :=
  (stepIfRehashing hash d).bind (fun d =>
    (dictKeyIndex hash canResize d key).bind (fun found =>
      match found with
      | (.free index, d) =>
        (d.alter (dictIsRehashing d) index (fun old => (key, val) :: old) (· + 1)).map
          (fun d => (.free index, d))
      | other => some other))

def dictAdd (canResize : Bool) (d : Dict K V) (key : K) (val : V) : Option (Bool × Dict K V) :=
  (dictAddRaw hash canResize d key val).map (fun found =>
    match found with
    | (.free _, d) => (true, d)
    | (_, d) => (false, d))

/-- Add or overwrite. The flag says that the key was added. Without an existing entry to overwrite,
the pointer to it is NULL. -/
def dictReplace (canResize : Bool) (d : Dict K V) (key : K) (val : V) : Option (Bool × Dict K V) :=
  (dictAddRaw hash canResize d key val).bind (fun found =>
    match found with
    | (.free _, d) => some (true, d)
    | (.existing second index, d) =>
      (d.alter second index (setVal key val) id).map (fun d => (false, d))
    | (.refused, _) => none)

def dictDelete (d : Dict K V) (key : K) : Option (Bool × Dict K V) :=
  if d.ht0.used = 0 ∧ d.ht1.used = 0 then some (false, d)
  else (stepIfRehashing hash d).bind (fun d =>
    (dictWalk hash d key).bind (fun walk =>
      if walk.value.isSome then
        (d.alter walk.second walk.index (unlink key) (· - 1)).map (fun d => (true, d))
      else some (false, d)))

end Keys

end Hashing

end Haystack.Redis
