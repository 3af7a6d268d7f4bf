import Haystack.Redis.DictMap
import Haystack.Redis.Protocol

/-! A redis server as far as its clients here use it: the commands get, set, del and quit on one
database without expiring keys, and what the server does by itself in between. An assertion that
fails and a command beyond these are none. -/
namespace Haystack.Redis

open Digits

/-- A string object: an integer in the encoding OBJ_ENCODING_INT, or the bytes of a raw or an
embedded string. -/
inductive Robj where
  | int (n : Int)
  | str (s : Sds)
  deriving Repr, DecidableEq

def tryObjectEncoding (s : Sds) : Robj :=
  match if s.length ≤ 20 then string2ll s else none with
  | some n => .int n
  | none => .str s

def getDecodedObject : Robj → Sds
  | .int n => ll2string 32 n
  | .str s => s

/-- The loop that counts the digits of an integer in addReplyBulkLen. A long needs twenty rounds
at most. -/
def countDigits : Nat → Int → Nat → Nat
  | 0, _, len => len
  | rounds + 1, n, len =>
    if n.tdiv 10 = 0 then len else countDigits rounds (n.tdiv 10) (len + 1)

/-- The length that is announced for an object. The negation of a long wraps around. -/
def bulkLength : Robj → Nat
  | .str s => s.length
  | .int n => if n < 0 then countDigits 20 (Int.bmod (-n) (2 ^ 64)) 2 else countDigits 20 n 1

def addReplyLongLongWithPrefix (ll : Int) (first : UInt8) : Sds := first :: ll2string 127 ll ++ crlf

def addReplyBulk (o : Robj) : Sds :=
  addReplyLongLongWithPrefix (bulkLength o) 36 ++ getDecodedObject o ++ crlf

def bgsaveerr : Sds :=
  ["-MISCONF Redis is configured to save RDB snapshots, but it is currently not able to persist ",
    "on disk. Commands that may modify the data set are disabled, because this instance is ",
    "configured to report errors during writes if RDB snapshotting fails ",
    "(stop-writes-on-bgsave-error option). Please check the Redis logs for details about the ",
    "RDB error.\r\n"].flatMap ascii

/-- The database with its dictionary, whether a child process saves it, and whether the last save
failed. -/
structure Server where
  dict : Dict Sds Robj
  child : Bool
  saveFailed : Bool

def initServer : Server := ⟨dictCreate, false, false⟩

section Commands

variable (hash : Sds → UInt64)

def Server.canResize (s : Server) : Bool := !s.child

def lookupKey (s : Server) (key : Sds) : Option (Option Robj × Server) :=
  (dictFind hash s.dict key).map (fun r => (r.1, { s with dict := r.2 }))

def dbAdd (s : Server) (key : Sds) (val : Robj) : Option Server :=
  (dictAdd hash s.canResize s.dict key val).bind (fun r =>
    if r.1 then some { s with dict := r.2 } else none)

def dbOverwrite (s : Server) (key : Sds) (val : Robj) : Option Server :=
  (dictFind hash s.dict key).bind (fun de =>
    if de.1.isNone then none
    else (dictReplace hash s.canResize de.2 key val).map (fun r => { s with dict := r.2 }))

/-- No key expires, so there is nothing to remove. But the program is aborted if the key does not
exist. -/
def removeExpire (s : Server) (key : Sds) : Option Server :=
  (dictFind hash s.dict key).bind (fun de =>
    if de.1.isNone then none else some { s with dict := de.2 })

def setKey (s : Server) (key : Sds) (val : Robj) : Option Server :=
  (lookupKey hash s key).bind (fun found =>
    (match found with
    | (none, s) => dbAdd hash s key val
    | (some _, s) => dbOverwrite hash s key val).bind (fun s => removeExpire hash s key))

def dbSyncDelete (s : Server) (key : Sds) : Option (Bool × Server) :=
  (dictDelete hash s.dict key).map (fun r => (r.1, { s with dict := r.2 }))

def getCommand (s : Server) (key : Sds) : Option (Sds × Server) :=
  (lookupKey hash s key).map (fun found =>
    match found with
    | (none, s) => (ascii "$-1\r\n", s)
    | (some o, s) => (addReplyBulk o, s))

def setCommand (s : Server) (key val : Sds) : Option (Sds × Server) :=
  (setKey hash s key (tryObjectEncoding val)).map (fun s => (ascii "+OK\r\n", s))

def delLoop : List Sds → Nat → Server → Option (Nat × Server)
  | [], numdel, s => some (numdel, s)
  | key :: keys, numdel, s => (dbSyncDelete hash s key).bind (fun r =>
      delLoop keys (if r.1 then numdel + 1 else numdel) r.2)

def delCommand (s : Server) (keys : List Sds) : Option (Sds × Server) :=
  (delLoop hash keys 0 s).map (fun r => (addReplyLongLongWithPrefix r.1 58, r.2))

def lowerCase (s : Sds) : Sds :=
  s.map (fun b => if 65 ≤ b.toNat ∧ b.toNat ≤ 90 then b + 32 else b)

def wrongArity (name : String) (s : Server) : Option (Sds × Server) :=
  some (addReplyErrorFormat
    (ascii ("wrong number of arguments for '" ++ name ++ "' command")), s)

/-- With the settings that redis comes with, a failed save stops the commands that write. -/
def unlessSaveFailed (s : Server) (command : Option (Sds × Server)) : Option (Sds × Server) :=
  if s.saveFailed then some (bgsaveerr, s) else command

/-- The commands that processCommand looks up. The others and a set with options are none. -/
def lookupAndCall (s : Server) (name : Sds) (args : List Sds) : Option (Sds × Server) :=
  if lowerCase name = ascii "get" then
    match args with
    | [key] => getCommand hash s key
    | _ => wrongArity "get" s
  else if lowerCase name = ascii "set" then
    match args with
    | [] => wrongArity "set" s
    | [_] => wrongArity "set" s
    | [key, val] => unlessSaveFailed s (setCommand hash s key val)
    | _ => none
  else if lowerCase name = ascii "del" then
    match args with
    | [] => wrongArity "del" s
    | keys => unlessSaveFailed s (delCommand hash s keys)
  else none

def processCommand (s : Server) : List Sds → Option (Done Server)
  | [] => none
  | name :: args =>
    if lowerCase (cString name) = ascii "quit" then some ⟨false, ascii "+OK\r\n", s⟩
    else (lookupAndCall hash s name args).map (fun r => ⟨true, r.1, r.2⟩)

def htNeedsResize (d : Dict Sds Robj) : Bool :=
  4 < d.ht0.size + d.ht1.size && dictSize d * 100 / (d.ht0.size + d.ht1.size) < 10

def tryResizeHashTables (s : Server) : Server :=
  if htNeedsResize s.dict then { s with dict := (dictResize s.canResize s.dict).2 } else s

def incrementallyRehash (rounds : Nat) (s : Server) : Option Server :=
  if dictIsRehashing s.dict then
    (dictRehashMilliseconds hash rounds s.dict).map (fun d => { s with dict := d })
  else some s

def databasesCron (rounds : Nat) (s : Server) : Option Server :=
  if s.child then some s else incrementallyRehash hash rounds (tryResizeHashTables s)

end Commands

structure Node where
  server : Server
  clients : List Connection

/-- What the event loop does: it reads from a client and executes what has become complete, or it
runs the cron with as many rounds of rehashing as the clock allows. A child process may start and
end at any time, and a save may succeed or fail. -/
inductive NodeEvent where
  | read (i n : Nat)
  | cron (rounds : Nat)
  | child (running : Bool)
  | save (failed : Bool)

def Node.next (hash : Sds → UInt64) (node : Node) : NodeEvent → Option Node
  | .read i n =>
    match node.clients[i]? with
    | none => some node
    | some k =>
      (k.read (processCommand hash) n node.server).map (fun r => ⟨r.2, node.clients.set i r.1⟩)
  | .cron rounds =>
    (databasesCron hash rounds node.server).map (fun s => { node with server := s })
  | .child running => some { node with server := { node.server with child := running } }
  | .save failed => some { node with server := { node.server with saveFailed := failed } }

def Node.runs (hash : Sds → UInt64) : List NodeEvent → Node → Option Node
  | [], node => some node
  | e :: es, node => (node.next hash e).bind (Node.runs hash es)

end Haystack.Redis
