import Haystack.Redis.Framing

/-! A redis server is a map that takes the commands of all its clients one after the other, however
the clients' bytes arrive and whatever the server does to its tables meanwhile. -/
namespace Haystack.Redis

open Digits Buckets

theorem getDecodedObject_encoded (v : Sds) : getDecodedObject (tryObjectEncoding v) = v := by
  unfold tryObjectEncoding
  split
  · rename_i n found
    split at found
    · obtain ⟨lower, upper, same⟩ := (string2ll_iff v n).mp found
      rw [getDecodedObject, ll2string_eq lower upper (by omega), same]
    · cases found
  · rfl

theorem countDigits_eq (rounds : Nat) {n : Int} (bound : n.natAbs < 10 ^ (rounds + 1)) (len : Nat) :
    countDigits rounds n len + 1 = len + (decimal n.natAbs).length := by
  induction rounds generalizing n len with
  | zero =>
    rw [decimal_small (by simpa using bound)]
    rfl
  | succ rounds ih =>
    have quotient : (n.tdiv 10).natAbs = n.natAbs / 10 := Int.natAbs_tdiv n 10
    have power : 10 ^ (rounds + 1 + 1) = 10 ^ (rounds + 1) * 10 := Nat.pow_succ _ _
    rw [countDigits]
    split
    · rename_i zero
      rw [zero, Int.natAbs_zero] at quotient
      rw [decimal_small (by omega)]
      rfl
    · rename_i more
      have large : 10 ≤ n.natAbs := by
        by_contra small
        exact more (Int.natAbs_eq_zero.mp (by omega))
      have rest := ih (n := n.tdiv 10) (by omega) (len + 1)
      rw [quotient] at rest
      rw [length_decimal_large large]
      omega

theorem bulkLength_encoded (v : Sds) : bulkLength (tryObjectEncoding v) = v.length := by
  unfold tryObjectEncoding
  split
  · rename_i n found
    split at found
    · obtain ⟨lower, upper, same⟩ := (string2ll_iff v n).mp found
      rw [bulkLength, same, text]
      split
      · rename_i negative
        have wrapped : (Int.bmod (-n) (2 ^ 64)).natAbs = n.natAbs := by
          by_cases least : n = -2 ^ 63
          · subst least
            decide
          · rw [Int.bmod_eq_of_le (by omega) (by omega), Int.natAbs_neg]
        have digits := countDigits_eq 20 (n := Int.bmod (-n) (2 ^ 64)) (by rw [wrapped]; omega) 2
        rw [wrapped] at digits
        rw [List.length_cons]
        omega
      · have digits := countDigits_eq 20 (n := n) (by omega) 1
        omega
    · cases found
  · rfl

theorem addReplyBulk_encoded {v : Sds} (bound : v.length ≤ protoMaxBulkLen) :
    addReplyBulk (tryObjectEncoding v) = argText v := by
  have room : (v.length : Int) < 2 ^ 63 := by unfold protoMaxBulkLen at bound; omega
  rw [addReplyBulk, addReplyLongLongWithPrefix, bulkLength_encoded, getDecodedObject_encoded,
    argText, ll2string_eq (by omega) room (by omega), ll2string_eq (by omega) room (by omega)]

structure Server.Holds (hash : Sds → UInt64) (s : Server) (m : Sds → Option Sds) : Prop where
  valid : s.dict.Valid hash
  content : s.dict.content hash = fun key => (m key).map tryObjectEncoding
  lengths : ∀ key v, m key = some v → v.length ≤ protoMaxBulkLen

inductive Command where
  | get (key : Sds)
  | set (key val : Sds)
  | del (keys : List Sds)

def Command.argv : Command → List Sds
  | get key => [ascii "GET", key]
  | set key val => [ascii "SET", key, val]
  | del keys => ascii "DEL" :: keys

def Command.Sendable (command : Command) : Prop :=
  Redis.Sendable command.argv ∧ 2 ≤ command.argv.length

instance (command : Command) : Decidable command.Sendable := inferInstanceAs (Decidable (_ ∧ _))

/-- What a command replies and does to a map, which may refuse to be changed. -/
def Command.meaning (refusing : Bool) : Command → (Sds → Option Sds) → Sds × (Sds → Option Sds)
  | get key, m => ((m key).elim (ascii "$-1\r\n") argText, m)
  | set key val, m =>
    if refusing then (bgsaveerr, m) else (ascii "+OK\r\n", Function.update m key (some val))
  | del keys, m =>
    if refusing then (bgsaveerr, m)
    else (addReplyLongLongWithPrefix (keys.toFinset.filter (fun key => (m key).isSome)).card 58,
      fun key => if key ∈ keys then none else m key)

section Commands

variable {hash : Sds → UInt64} {s : Server} {m : Sds → Option Sds}

theorem Server.Holds.update (holds : s.Holds hash m) {d : Dict Sds Robj} (valid : d.Valid hash)
    {key : Sds} {value : Option Sds} (content : d.content hash =
      Function.update (s.dict.content hash) key (value.map tryObjectEncoding))
    (bound : ∀ v, value = some v → v.length ≤ protoMaxBulkLen) :
    Server.Holds hash { s with dict := d } (Function.update m key value) := by
  refine ⟨valid, ?_, ?_⟩
  · funext other
    rw [content, holds.content, Function.update_apply, Function.update_apply]
    split <;> rfl
  · intro other v found
    rw [Function.update_apply] at found
    split at found
    · exact bound v found
    · exact holds.lengths other v found

theorem lookupKey_spec (holds : s.Holds hash m) (key : Sds) :
    ∃ d, lookupKey hash s key = some ((m key).map tryObjectEncoding, { s with dict := d }) ∧
      Server.Holds hash { s with dict := d } m ∧ dictSize d = dictSize s.dict := by
  obtain ⟨d, found, valid, same⟩ := dictFind_spec holds.valid key
  refine ⟨d, ?_, ⟨valid, same.content.trans holds.content, holds.lengths⟩, same.size⟩
  rw [lookupKey, found, Option.map_some, holds.content]

theorem removeExpire_spec (holds : s.Holds hash m) {key val : Sds} (there : m key = some val) :
    ∃ d, removeExpire hash s key = some { s with dict := d } ∧
      Server.Holds hash { s with dict := d } m ∧ dictSize d = dictSize s.dict := by
  obtain ⟨d, found, valid, same⟩ := dictFind_spec holds.valid key
  have present : s.dict.content hash key = some (tryObjectEncoding val) := by
    rw [holds.content]
    simp [there]
  refine ⟨d, ?_, ⟨valid, same.content.trans holds.content, holds.lengths⟩, same.size⟩
  rw [removeExpire, found, Option.bind_some, present]
  rfl

theorem setKey_stores (holds : s.Holds hash m) (bound : dictSize s.dict < 2 ^ 61) (key : Sds)
    {val : Sds} (short : val.length ≤ protoMaxBulkLen) :
    ∃ d, setKey hash s key (tryObjectEncoding val) = removeExpire hash { s with dict := d } key ∧
      Server.Holds hash { s with dict := d } (Function.update m key (some val)) ∧
      dictSize d ≤ dictSize s.dict + 1 := by
  obtain ⟨d₁, looked, holds₁, size₁⟩ := lookupKey_spec holds key
  have fits : ∀ v, some val = some v → v.length ≤ protoMaxBulkLen := by
    rintro v ⟨⟩
    exact short
  rw [setKey, looked, Option.bind_some]
  cases before : m key with
  | none =>
    have absent : d₁.content hash key = none := by
      rw [holds₁.content]
      simp [before]
    obtain ⟨d₂, added, valid, content, size⟩ := dictAdd_spec holds₁.valid (by dsimp only; omega)
      s.canResize key (tryObjectEncoding val)
    dsimp only at added content size
    rw [absent] at added content
    refine ⟨d₂, ?_, holds₁.update valid content fits, by omega⟩
    have stored : dbAdd hash { s with dict := d₁ } key (tryObjectEncoding val) =
        some { s with dict := d₂ } := by
      change (dictAdd hash s.canResize d₁ key (tryObjectEncoding val)).bind _ = _
      rw [added]
      rfl
    simp only [Option.map_none, stored, Option.bind_some]
  | some old =>
    have present : d₁.content hash key = some (tryObjectEncoding old) := by
      rw [holds₁.content]
      simp [before]
    obtain ⟨d₂, found, valid₂, same⟩ := dictFind_spec holds₁.valid key
    have holds₂ : Server.Holds hash { s with dict := d₂ } m :=
      ⟨valid₂, same.content.trans holds₁.content, holds.lengths⟩
    have size₂ := same.size
    dsimp only at found size₂
    obtain ⟨d₃, replaced, valid, content, size⟩ := dictReplace_spec valid₂ (by omega) s.canResize
      key (tryObjectEncoding val)
    refine ⟨d₃, ?_, holds₂.update valid content fits, by omega⟩
    have stored : dbOverwrite hash { s with dict := d₁ } key (tryObjectEncoding val) =
        some { s with dict := d₃ } := by
      rw [dbOverwrite, found, Option.bind_some, present]
      change (dictReplace hash s.canResize d₂ key (tryObjectEncoding val)).map _ = _
      rw [replaced]
      rfl
    simp only [Option.map_some, stored, Option.bind_some]

theorem setKey_spec (holds : s.Holds hash m) (bound : dictSize s.dict < 2 ^ 61) (key : Sds)
    {val : Sds} (short : val.length ≤ protoMaxBulkLen) :
    ∃ d, setKey hash s key (tryObjectEncoding val) = some { s with dict := d } ∧
      Server.Holds hash { s with dict := d } (Function.update m key (some val)) ∧
      dictSize d ≤ dictSize s.dict + 1 := by
  obtain ⟨d₁, stored, holds₁, size₁⟩ := setKey_stores holds bound key short
  obtain ⟨d₂, found, holds₂, size₂⟩ := removeExpire_spec holds₁ (Function.update_self key _ m)
  exact ⟨d₂, stored.trans found, holds₂, by dsimp only at size₂; omega⟩

theorem card_present (m : Sds → Option Sds) (key : Sds) (keys : List Sds) :
    ((key :: keys).toFinset.filter (fun other => (m other).isSome)).card =
      (if (m key).isSome then 1 else 0) +
        (keys.toFinset.filter (fun other => (Function.update m key none other).isSome)).card := by
  have rest : keys.toFinset.filter (fun other => (Function.update m key none other).isSome) =
      (keys.toFinset.erase key).filter (fun other => (m other).isSome) := by
    ext other
    rw [Finset.mem_filter, Finset.mem_filter, Finset.mem_erase, Function.update_apply]
    by_cases same : other = key
    · simp [same]
    · simp [same]
  have whole : (key :: keys).toFinset = insert key (keys.toFinset.erase key) := by
    ext other
    rw [List.toFinset_cons, Finset.mem_insert, Finset.mem_insert, Finset.mem_erase]
    tauto
  rw [rest, whole, Finset.filter_insert]
  split
  · rw [Finset.card_insert_of_notMem (by simp), Nat.add_comm]
  · rw [Nat.zero_add]

theorem delLoop_spec (holds : s.Holds hash m) (keys : List Sds) (numdel : Nat) :
    ∃ d, delLoop hash keys numdel s =
        some (numdel + (keys.toFinset.filter (fun key => (m key).isSome)).card,
          { s with dict := d }) ∧
      Server.Holds hash { s with dict := d } (fun key => if key ∈ keys then none else m key) ∧
      dictSize d ≤ dictSize s.dict := by
  induction keys generalizing s m numdel with
  | nil => exact ⟨s.dict, rfl, by simpa using holds, Nat.le_refl _⟩
  | cons key keys ih =>
    obtain ⟨d₁, deleted, valid, content, size⟩ := dictDelete_spec holds.valid key
    have gone : d₁.content hash =
        Function.update (s.dict.content hash) key (Option.map tryObjectEncoding none) := content
    have holds₁ := holds.update valid gone (fun v impossible => by cases impossible)
    obtain ⟨d₂, rest, holds₂, size₂⟩ := ih holds₁ (if (m key).isSome then numdel + 1 else numdel)
    refine ⟨d₂, ?_, ?_, Nat.le_trans size₂ size⟩
    · have flag : (s.dict.content hash key).isSome = (m key).isSome := by
        rw [holds.content, Option.isSome_map]
      rw [delLoop, dbSyncDelete, deleted, Option.map_some, Option.bind_some, flag, rest,
        card_present]
      congr 2
      split <;> omega
    · have same : (fun other => if other ∈ keys then none else Function.update m key none other) =
          fun other => if other ∈ key :: keys then none else m other := by
        funext other
        rw [Function.update_apply]
        by_cases first : other = key
        · simp [first]
        · simp [first]
      exact same ▸ holds₂

section Names

variable (hash) (s)

theorem processCommand_get (key : Sds) : processCommand hash s (Command.get key).argv =
    (getCommand hash s key).map (fun r => ⟨true, r.1, r.2⟩) := rfl

theorem processCommand_set (key val : Sds) : processCommand hash s (Command.set key val).argv =
    (unlessSaveFailed s (setCommand hash s key val)).map (fun r => ⟨true, r.1, r.2⟩) := rfl

theorem processCommand_del (key : Sds) (keys : List Sds) :
    processCommand hash s (Command.del (key :: keys)).argv =
      (unlessSaveFailed s (delCommand hash s (key :: keys))).map (fun r => ⟨true, r.1, r.2⟩) := rfl

end Names

theorem processCommand_spec (holds : s.Holds hash m) (bound : dictSize s.dict < 2 ^ 61)
    {command : Command} (sendable : command.Sendable) :
    ∃ s', processCommand hash s command.argv =
        some ⟨true, (command.meaning s.saveFailed m).1, s'⟩ ∧
      s'.Holds hash (command.meaning s.saveFailed m).2 ∧ s'.saveFailed = s.saveFailed ∧
      dictSize s'.dict ≤ dictSize s.dict + 1 := by
  cases command with
  | get key =>
    obtain ⟨d, looked, holds', size⟩ := lookupKey_spec holds key
    refine ⟨{ s with dict := d }, ?_, holds', rfl, by dsimp only; omega⟩
    rw [processCommand_get, getCommand, looked, Option.map_some]
    cases found : m key with
    | none => simp [Command.meaning, found]
    | some v => simp [Command.meaning, found, addReplyBulk_encoded (holds.lengths key v found)]
  | set key val =>
    rw [processCommand_set, unlessSaveFailed, Command.meaning]
    by_cases failed : s.saveFailed = true
    · simp only [if_pos failed]
      exact ⟨s, rfl, holds, rfl, Nat.le_succ _⟩
    · simp only [if_neg failed]
      have short : val.length ≤ protoMaxBulkLen := sendable.1.lengths val (by simp [Command.argv])
      obtain ⟨d, done, holds', size⟩ := setKey_spec holds bound key short
      refine ⟨{ s with dict := d }, ?_, holds', rfl, size⟩
      rw [setCommand, done]
      rfl
  | del keys =>
    obtain ⟨first, rest, rfl⟩ :=
      List.exists_cons_of_length_pos (Nat.le_of_succ_le_succ sendable.2)
    rw [processCommand_del, unlessSaveFailed, Command.meaning]
    by_cases failed : s.saveFailed = true
    · simp only [if_pos failed]
      exact ⟨s, rfl, holds, rfl, Nat.le_succ _⟩
    · simp only [if_neg failed]
      obtain ⟨d, done, holds', size⟩ := delLoop_spec holds (first :: rest) 0
      refine ⟨{ s with dict := d }, ?_, holds', rfl, Nat.le_succ_of_le size⟩
      rw [delCommand, done, Nat.zero_add]
      rfl

theorem databasesCron_spec (holds : s.Holds hash m) (rounds : Nat) :
    ∃ d, databasesCron hash rounds s = some { s with dict := d } ∧
      Server.Holds hash { s with dict := d } m ∧
      dictSize d = dictSize s.dict := by
  unfold databasesCron
  split
  · exact ⟨s.dict, rfl, holds, rfl⟩
  · obtain ⟨d, resized, valid, same⟩ : ∃ d, tryResizeHashTables s = { s with dict := d } ∧
        d.Valid hash ∧
        s.dict.Same hash d := by
      unfold tryResizeHashTables
      split
      · obtain ⟨valid, same⟩ := dictResize_spec holds.valid s.canResize
        exact ⟨_, rfl, valid, same⟩
      · exact ⟨s.dict, rfl, holds.valid, .refl _⟩
    rw [resized, incrementallyRehash]
    split
    · obtain ⟨d', done, valid', same'⟩ := dictRehashMilliseconds_spec valid rounds
      refine ⟨d', by rw [done]; rfl, ⟨valid', ?_, holds.lengths⟩, same'.size.trans same.size⟩
      exact same'.content.trans (same.content.trans holds.content)
    · exact ⟨d, rfl, ⟨valid, same.content.trans holds.content, holds.lengths⟩, same.size⟩

end Commands

/-- What happens to a map with clients: one of them gives a command, or the map starts or stops to
refuse changes. -/
inductive Entry where
  | command (i : Nat) (c : Command)
  | save (failed : Bool)

/-- A map that replies to numbered clients. -/
structure Service where
  outputs : Nat → Sds
  store : Sds → Option Sds
  refusing : Bool

def Service.empty : Service := ⟨fun _ => [], fun _ => none, false⟩

def Service.execute (a : Service) : Entry → Service
  | .command i c =>
    ⟨Function.update a.outputs i (a.outputs i ++ (c.meaning a.refusing a.store).1),
      (c.meaning a.refusing a.store).2, a.refusing⟩
  | .save failed => { a with refusing := failed }

def replay (history : List Entry) : Service := history.foldl Service.execute .empty

def commandsOf (i : Nat) (history : List Entry) : List Command :=
  history.filterMap (fun e =>
    match e with
    | .command j c => if j = i then some c else none
    | .save _ => none)

def savesOf (history : List Entry) : List Bool :=
  history.filterMap (fun e =>
    match e with
    | .command _ _ => none
    | .save failed => some failed)

def saves (es : List NodeEvent) : List Bool :=
  es.filterMap (fun e =>
    match e with
    | .save failed => some failed
    | _ => none)

theorem commandsOf_append (j i : Nat) (history : List Entry) (commands : List Command) :
    commandsOf j (history ++ commands.map (Entry.command i)) =
      commandsOf j history ++ if i = j then commands else [] := by
  simp only [commandsOf, List.filterMap_append, List.filterMap_map, Function.comp_def]
  by_cases same : i = j
  · simp [same]
  · simp [same]

theorem savesOf_append (i : Nat) (history : List Entry) (commands : List Command) :
    savesOf (history ++ commands.map (Entry.command i)) = savesOf history := by
  simp [savesOf, List.filterMap_map]

structure Service.Held (hash : Sds → UInt64) (a : Service) (s : Server) : Prop where
  holds : s.Holds hash a.store
  refusing : s.saveFailed = a.refusing

theorem served_spec {hash : Sds → UInt64} {s : Server} {a : Service} (i : Nat)
    (held : a.Held hash s)
    {commands : List Command} (bound : dictSize s.dict + commands.length ≤ 2 ^ 61)
    (sendable : ∀ c ∈ commands, c.Sendable) :
    ∃ out s', served (processCommand hash) (commands.map Command.argv) s = some (out, s') ∧
      ((commands.map (Entry.command i)).foldl Service.execute a).outputs =
        Function.update a.outputs i (a.outputs i ++ out) ∧
      ((commands.map (Entry.command i)).foldl Service.execute a).Held hash s' ∧
      dictSize s'.dict ≤ dictSize s.dict + commands.length := by
  induction commands generalizing s a with
  | nil =>
    refine ⟨[], s, rfl, ?_, held, Nat.le_refl _⟩
    simp
  | cons command commands ih =>
    rw [List.length_cons] at bound
    obtain ⟨s₁, first, holds₁, same, size₁⟩ :=
      processCommand_spec held.holds (by omega) (sendable command List.mem_cons_self)
    rw [held.refusing] at first holds₁ same
    obtain ⟨out, s₂, rest, outputs, held₂, size₂⟩ := ih (a := a.execute (.command i command))
      ⟨holds₁, same⟩ (by omega) (fun c member => sendable c (List.mem_cons_of_mem _ member))
    refine ⟨(command.meaning a.refusing a.store).1 ++ out, s₂, ?_, ?_, held₂, ?_⟩
    · rw [List.map_cons, served_cons first rfl, rest]
      rfl
    · rw [List.map_cons, List.foldl_cons, outputs]
      funext j
      simp only [Service.execute, Function.update_apply]
      split <;> simp
    · rw [List.length_cons]
      omega

theorem replay_append (history more : List Entry) :
    replay (history ++ more) = more.foldl Service.execute (replay history) :=
  List.foldl_append

structure Connection.Follows (i : Nat) (sent later : List Command) (history : List Entry)
    (k : Connection) : Prop where
  split : sent = commandsOf i history ++ later
  expects : Expects (later.map Command.argv) k.stream k.client
  finished : k.stream = [] → later = []
  output : k.client.reply = (replay history).outputs i

section Follows

variable {i j : Nat} {cmds later first second : List Command} {history : List Entry}
  {k k' : Connection} {out : Sds} (outputs :
    ((first.map (Entry.command i)).foldl Service.execute (replay history)).outputs =
      Function.update (replay history).outputs i ((replay history).outputs i ++ out))

include outputs

theorem Connection.Follows.executed (follows : k.Follows i cmds (first ++ second) history)
    (expects : Expects (second.map Command.argv) k'.stream k'.client)
    (finished : k'.stream = [] → second = []) (reply : k'.client.reply = k.client.reply ++ out) :
    k'.Follows i cmds second (history ++ first.map (Entry.command i)) := by
  refine ⟨?_, expects, finished, ?_⟩
  · rw [commandsOf_append, if_pos rfl, List.append_assoc]
    exact follows.split
  · rw [replay_append, outputs, Function.update_self, ← follows.output]
    exact reply

theorem Connection.Follows.other (follows : k.Follows j cmds later history) (differ : i ≠ j) :
    k.Follows j cmds later (history ++ first.map (Entry.command i)) := by
  refine ⟨?_, follows.expects, follows.finished, ?_⟩
  · rw [commandsOf_append, if_neg differ, List.append_nil]
    exact follows.split
  · rw [replay_append, outputs, Function.update_of_ne (Ne.symm differ), follows.output]

end Follows

/-- The node has executed the history, and each client has these commands left. -/
structure Node.Serves (hash : Sds → UInt64) (sent left : List (List Command)) (history : List Entry)
    (node : Node) : Prop where
  clients : node.clients.length = sent.length
  lists : left.length = sent.length
  follows : ∀ (i : Nat) (cmds later : List Command) (k : Connection), sent[i]? = some cmds →
    left[i]? = some later → node.clients[i]? = some k → k.Follows i cmds later history
  origin : ∀ i c, .command i c ∈ history → i < sent.length
  held : (replay history).Held hash node.server
  size : dictSize node.server.dict + count left ≤ count sent

section Serving

variable {hash : Sds → UInt64} {sent left : List (List Command)}
    {history : List Entry} {node : Node}

theorem Node.Serves.read (serves : node.Serves hash sent left history)
    (sendable : ∀ cmds ∈ sent, ∀ c ∈ cmds, c.Sendable) (few : count sent ≤ 2 ^ 61) (i n : Nat) :
    ∃ (node' : Node) (left' : List (List Command)) (commands : List Command),
      node.next hash (.read i n) = some node' ∧
      node'.Serves hash sent left' (history ++ commands.map (Entry.command i)) := by
  simp only [Node.next]
  cases present : node.clients[i]? with
  | none => exact ⟨node, left, [], rfl, by simpa using serves⟩
  | some k =>
    have inside : i < sent.length := serves.clients ▸ (List.getElem?_eq_some_iff.mp present).1
    obtain ⟨cmds, atSent⟩ : ∃ cmds, sent[i]? = some cmds := ⟨_, List.getElem?_eq_getElem inside⟩
    obtain ⟨later, atLeft⟩ : ∃ later, left[i]? = some later :=
      ⟨_, List.getElem?_eq_getElem (serves.lists.symm ▸ inside)⟩
    have follows := serves.follows i cmds later k atSent atLeft present
    have commands : ∀ c ∈ later, c.Sendable := fun c member =>
      sendable cmds (List.mem_of_getElem? atSent) c
        (follows.split ▸ List.mem_append_right _ member)
    have requests : ∀ argv ∈ later.map Command.argv, Sendable argv := by
      intro argv member
      obtain ⟨c, listed, rfl⟩ := List.mem_map.mp member
      exact (commands c listed).1
    have size := serves.size
    have share := count_set atLeft []
    rw [List.length_nil] at share
    obtain ⟨_, _, whole, -⟩ := served_spec i serves.held (by omega) commands
    obtain ⟨rest, k', s', read, ⟨executed, out, split, done, reply⟩, expects, finished⟩ :=
      read_spec requests (Option.isSome_of_eq_some whole) follows.expects
        (fun all => by rw [follows.finished all, List.map_nil]) n
    obtain ⟨first, second, rfl, rfl, rfl⟩ := List.map_eq_append_iff.mp split
    have change := count_set atLeft second
    rw [List.length_append] at change share
    obtain ⟨out', s'', done', outputs, held, grown⟩ := served_spec i serves.held (by omega)
      (fun c member => commands c (List.mem_append_left _ member))
    cases Option.some.inj (done.symm.trans done')
    refine ⟨⟨s', node.clients.set i k'⟩, left.set i second, first, ?_, ?_⟩
    · dsimp only
      rw [read]
      rfl
    · refine ⟨by rw [List.length_set, serves.clients], by rw [List.length_set, serves.lists],
        ?_, ?_, replay_append history _ ▸ held, by dsimp only at grown ⊢; omega⟩
      · intro j cmds' later' k'' atSent' atLeft' present'
        change (node.clients.set i _)[j]? = some k'' at present'
        rw [List.getElem?_set] at atLeft' present'
        by_cases same : i = j
        · subst same
          rw [if_pos rfl, if_pos (serves.lists.symm ▸ inside)] at atLeft'
          rw [if_pos rfl, if_pos (serves.clients.symm ▸ inside)] at present'
          cases Option.some.inj atLeft'
          cases Option.some.inj present'
          cases Option.some.inj (atSent.symm.trans atSent')
          exact follows.executed outputs expects
            (fun all => List.map_eq_nil_iff.mp (finished all)) reply
        · rw [if_neg same] at atLeft' present'
          exact (serves.follows j cmds' later' k'' atSent' atLeft' present').other outputs same
      · intro j c member
        rcases List.mem_append.mp member with before | now
        · exact serves.origin j c before
        · obtain ⟨c', -, same⟩ := List.mem_map.mp now
          cases same
          exact inside

theorem Node.Serves.save (serves : node.Serves hash sent left history) (failed : Bool) :
    Node.Serves hash sent left (history ++ [.save failed])
      { node with server := { node.server with saveFailed := failed } } := by
  have unchanged : ∀ i, commandsOf i (history ++ [.save failed]) = commandsOf i history := by
    intro i
    simp [commandsOf]
  refine ⟨serves.clients, serves.lists, ?_, ?_, ?_, serves.size⟩
  · intro i cmds later k atSent atLeft present
    obtain ⟨begun, expects, allRead, output⟩ := serves.follows i cmds later k atSent atLeft present
    exact ⟨(unchanged i).symm ▸ begun, expects, allRead, by rw [replay_append]; exact output⟩
  · intro i c member
    exact serves.origin i c (by simpa using member)
  · rw [replay_append]
    exact ⟨⟨serves.held.holds.valid, serves.held.holds.content, serves.held.holds.lengths⟩, rfl⟩

theorem Node.Serves.next (serves : node.Serves hash sent left history)
    (sendable : ∀ cmds ∈ sent, ∀ c ∈ cmds, c.Sendable) (few : count sent ≤ 2 ^ 61) (e : NodeEvent) :
    ∃ node' left' more, node.next hash e = some node' ∧
      node'.Serves hash sent left' (history ++ more) ∧
      savesOf (history ++ more) = savesOf history ++ saves [e] := by
  cases e with
  | read i n =>
    obtain ⟨node', left', commands, next, serves'⟩ := serves.read sendable few i n
    refine ⟨node', left', _, next, serves', ?_⟩
    rw [savesOf_append]
    exact (List.append_nil _).symm
  | cron rounds =>
    obtain ⟨d, done, holds, size⟩ := databasesCron_spec serves.held.holds rounds
    refine ⟨⟨{ node.server with dict := d }, node.clients⟩, left, [],
      by rw [Node.next, done]; rfl, ?_, by simp [saves]⟩
    rw [List.append_nil]
    refine ⟨serves.clients, serves.lists, serves.follows, serves.origin,
      ⟨holds, serves.held.refusing⟩, ?_⟩
    have before := serves.size
    dsimp only
    omega
  | child running =>
    refine ⟨_, left, [], rfl, ?_, by simp [saves]⟩
    rw [List.append_nil]
    exact ⟨serves.clients, serves.lists, serves.follows, serves.origin,
      ⟨⟨serves.held.holds.valid, serves.held.holds.content, serves.held.holds.lengths⟩,
        serves.held.refusing⟩, serves.size⟩
  | save failed =>
    exact ⟨_, left, [.save failed], rfl, serves.save failed, by simp [saves, savesOf]⟩

theorem Node.Serves.runs (serves : node.Serves hash sent left history)
    (sendable : ∀ cmds ∈ sent, ∀ c ∈ cmds, c.Sendable) (few : count sent ≤ 2 ^ 61)
    (es : List NodeEvent) :
    ∃ whole, ∀ before after, es = before ++ after → ∃ node' left' history',
      node.runs hash before = some node' ∧ node'.Serves hash sent left' history' ∧
      savesOf history' = savesOf history ++ saves before ∧ history' <+: whole ∧
      (after = [] → history' = whole) ∧ history <+: history' := by
  induction es generalizing node left history with
  | nil =>
    refine ⟨history, fun before after split => ?_⟩
    obtain ⟨rfl, rfl⟩ := List.append_eq_nil_iff.mp split.symm
    exact ⟨node, left, history, rfl, serves, by simp [saves], List.prefix_rfl, fun _ => rfl,
      List.prefix_rfl⟩
  | cons e es ih =>
    obtain ⟨node₁, left₁, more, next, serves₁, saved⟩ := serves.next sendable few e
    obtain ⟨whole, beginnings⟩ := ih serves₁
    obtain ⟨_, _, _, -, -, -, up, -, down⟩ := beginnings [] es rfl
    have start : history <+: whole := (List.prefix_append history more).trans (down.trans up)
    refine ⟨whole, fun before after split => ?_⟩
    cases before with
    | nil =>
      refine ⟨node, left, history, rfl, serves, by simp [saves], start, ?_, List.prefix_rfl⟩
      rintro rfl
      cases split
    | cons f before =>
      obtain ⟨rfl, rest⟩ := List.cons.inj split
      obtain ⟨node₂, left₂, history₂, run, serves₂, saved₂, inside, all, onward⟩ :=
        beginnings before after rest
      refine ⟨node₂, left₂, history₂, by rw [Node.runs, next, Option.bind_some, run], serves₂, ?_,
        inside, all, (List.prefix_append history more).trans onward⟩
      rw [saved₂, saved, List.append_assoc]
      simp only [saves, ← List.filterMap_append, List.singleton_append]

end Serving

def Node.start (sent : List (List Command)) : Node :=
  ⟨initServer, sent.map (fun cmds => ⟨createClient, requestText (cmds.map Command.argv)⟩)⟩

theorem Node.serves_start (hash : Sds → UInt64) {sent : List (List Command)}
    (sendable : ∀ cmds ∈ sent, ∀ c ∈ cmds, c.Sendable) :
    (Node.start sent).Serves hash sent sent [] := by
  refine ⟨by simp [start], rfl, ?_, by simp,
    ⟨⟨dictCreate_valid, rfl, fun _ _ none => by cases none⟩, rfl⟩, Nat.le_of_eq (Nat.zero_add _)⟩
  intro i cmds later k atSent atLeft present
  cases Option.some.inj (atSent.symm.trans atLeft)
  rw [start, List.getElem?_map, atSent] at present
  cases Option.some.inj present
  have requests : ∀ argv ∈ cmds.map Command.argv, Sendable argv := by
    intro argv member
    obtain ⟨c, listed, rfl⟩ := List.mem_map.mp member
    exact (sendable cmds (List.mem_of_getElem? atSent) c listed).1
  refine ⟨rfl, .inl ⟨⟨rfl, rfl, rfl, rfl, rfl⟩, Nat.zero_lt_succ _⟩, ?_, rfl⟩
  exact fun all => List.map_eq_nil_iff.mp (requests_nil requests all)

/-- The history explains what a node has done and replied in a run. It has the commands of each
client in the order in which they were sent, as far as they were executed, and every client has
received the replies of a map that goes through the history. -/
structure Explains (hash : Sds → UInt64) (sent : List (List Command)) (es : List NodeEvent)
    (node : Node) (history : List Entry) : Prop where
  saves : savesOf history = saves es
  holds : node.server.Holds hash (replay history).store
  origin : ∀ i c, .command i c ∈ history → i < sent.length
  clients : ∀ (i : Nat) (cmds : List Command), sent[i]? = some cmds →
    ∃ k later, node.clients[i]? = some k ∧ cmds = commandsOf i history ++ later ∧
      (k.stream = [] → later = []) ∧ k.client.reply = (replay history).outputs i

theorem Node.Serves.explains {hash : Sds → UInt64} {sent left : List (List Command)}
    {history : List Entry} {node : Node} {es : List NodeEvent}
    (serves : node.Serves hash sent left history) (saved : savesOf history = saves es) :
    Explains hash sent es node history := by
  refine ⟨saved, serves.held.holds, serves.origin, ?_⟩
  intro i cmds atSent
  have inside := (List.getElem?_eq_some_iff.mp atSent).1
  have present := List.getElem?_eq_getElem (serves.clients.symm ▸ inside : i < node.clients.length)
  have atLeft := List.getElem?_eq_getElem (serves.lists.symm ▸ inside : i < left.length)
  obtain ⟨begun, -, allRead, output⟩ := serves.follows i cmds _ _ atSent atLeft present
  exact ⟨_, _, present, begun, allRead, output⟩

/-- However the bytes of the clients arrive and whatever the server does to its tables in between,
there is one order of all the commands that were executed that explains the run, and it goes on
from an order that explains what had happened at any earlier moment. -/
theorem redis_serializes (hash : Sds → UInt64) (sent : List (List Command))
    (sendable : ∀ cmds ∈ sent, ∀ c ∈ cmds, c.Sendable) (few : count sent ≤ 2 ^ 61)
    (es : List NodeEvent) :
    ∃ node history, (Node.start sent).runs hash es = some node ∧
      Explains hash sent es node history ∧
      ∀ before after, es = before ++ after → ∃ node' history',
        (Node.start sent).runs hash before = some node' ∧
        Explains hash sent before node' history' ∧ history' <+: history := by
  obtain ⟨history, beginnings⟩ := (Node.serves_start hash sendable).runs sendable few es
  obtain ⟨node, left, history', run, serves, saved, -, all, -⟩ :=
    beginnings es [] (List.append_nil es).symm
  cases all rfl
  refine ⟨node, history, run, serves.explains saved, fun before after split => ?_⟩
  obtain ⟨node', left', history', run', serves', saved', inside, -⟩ := beginnings before after split
  exact ⟨node', history', run', serves'.explains saved', inside⟩

def writerAndDeleter : List (List Command) :=
  [[.set (ascii "7") (ascii "42"), .get (ascii "7")], [.del [ascii "7", ascii "7"]]]

def inPieces : List NodeEvent :=
  [.read 0 9, .read 1 5, .cron 1, .read 0 27, .child true, .read 1 100, .save true, .cron 0,
    .read 0 100]

theorem redis_serializes_in_pieces : ∃ (node : Node) (history : List Entry),
    (Node.start writerAndDeleter).runs (fun _ => 0) inPieces = some node ∧
    (replay history).outputs 0 = ascii "+OK\r\n$-1\r\n" ∧
    (replay history).outputs 1 = ascii ":1\r\n" := by
  obtain ⟨node, history, run, explains, -⟩ := redis_serializes (fun _ => 0) writerAndDeleter
    (by decide +kernel) (by decide) inPieces
  obtain ⟨first, -, atFirst, -, -, output⟩ := explains.clients 0 _ rfl
  obtain ⟨second, -, atSecond, -, -, output'⟩ := explains.clients 1 _ rfl
  have replies : ((Node.start writerAndDeleter).runs (fun _ => 0) inPieces).map
      (fun node => (node.clients[0]?.map (fun k => k.client.reply),
        node.clients[1]?.map (fun k => k.client.reply))) =
      some (some (ascii "+OK\r\n$-1\r\n"), some (ascii ":1\r\n")) := by decide +kernel
  rw [run, Option.map_some, atFirst, atSecond] at replies
  obtain ⟨reply, reply'⟩ := Prod.mk.inj (Option.some.inj replies)
  exact ⟨node, history, run, output ▸ Option.some.inj reply, output' ▸ Option.some.inj reply'⟩

end Haystack.Redis
