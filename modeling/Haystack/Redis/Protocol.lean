import Haystack.Redis.Numbers

/-! How redis reads the requests of a client, networking.c. The bytes come in pieces, whose ends
have nothing to do with those of the requests. What a request does to the server is left to
processCommand, which is a parameter here. -/
namespace Haystack.Redis

open Digits

/-- What a client structure knows about the request that is being read, and what has been replied
to the client. The bulk length -1 is none; closing is the flag CLIENT_CLOSE_AFTER_REPLY. -/
structure Client where
  querybuf : Sds
  multibulk : Bool
  multibulklen : Nat
  bulklen : Option Nat
  argv : List Sds
  closing : Bool
  reply : Sds
  deriving Repr, DecidableEq

def createClient : Client := ⟨[], false, 0, none, [], false, []⟩

def resetClient (c : Client) : Client :=
  { c with argv := [], multibulk := false, multibulklen := 0, bulklen := none }

def addReply (s : Sds) (c : Client) : Client :=
  if c.closing then c else { c with reply := c.reply ++ s }

def crlf : Sds := [13, 10]

def addReplyErrorLength (s : Sds) : Sds := ascii "-ERR " ++ s ++ crlf

def addReplyError (err : String) : Sds := addReplyErrorLength (ascii err)

def cString (s : Sds) : Sds := s.takeWhile (· ≠ 0)

def addReplyErrorFormat (s : Sds) : Sds :=
  addReplyErrorLength ((cString s).map (fun b => if b = 13 ∨ b = 10 then 32 else b))

def protoMaxBulkLen : Nat := 512 * 1024 * 1024

/-- The index of the first carriage return. A zero byte ends the string for strchr. -/
def newlineIndex : Sds → Option Nat
  | [] => none
  | b :: s => if b = 13 then some 0 else if b = 0 then none else (newlineIndex s).map (· + 1)

def setProtocolError (c : Client) (pos : Nat) : Client :=
  { c with closing := true, querybuf := c.querybuf.drop pos }

/-- What the loop of processMultibulkBuffer knows after the length of an argument: it goes on, it
waits for more bytes, or it fails. -/
inductive Stage where
  | go (c : Client) (pos len : Nat)
  | wait
  | fail (c : Client)

def readBulkLen (c : Client) (pos : Nat) : Stage :=
  match c.bulklen with
  | some len => .go c pos len
  | none =>
    match newlineIndex (c.querybuf.drop pos) with
    | none =>
      if 1024 * 64 < c.querybuf.length then
        .fail (setProtocolError
          (addReply (addReplyError "Protocol error: too big bulk count string") c) 0)
      else .wait
    | some n =>
      if c.querybuf.length < pos + n + 2 then .wait
      else if c.querybuf[pos]? ≠ some 36 then
        .fail (setProtocolError (addReply (addReplyErrorFormat
          (ascii "Protocol error: expected '$', got '" ++ [c.querybuf[pos]?.getD 0] ++ ascii "'"))
          c) pos)
      else
        let invalid := setProtocolError
          (addReply (addReplyError "Protocol error: invalid bulk length") c) pos
        match string2ll ((c.querybuf.drop (pos + 1)).take (n - 1)) with
        | none => .fail invalid
        | some ll =>
          if ll < 0 ∨ protoMaxBulkLen < ll then .fail invalid
          -- The buffer of a large argument starts with it, so that it need not be copied.
          else if 1024 * 32 ≤ ll then
            .go { c with querybuf := c.querybuf.drop (pos + n + 2), bulklen := some ll.toNat } 0
              ll.toNat
          else .go { c with bulklen := some ll.toNat } (pos + n + 2) ll.toNat

def readBulk (c : Client) (pos len : Nat) : Option (Client × Nat) :=
  if c.querybuf.length - pos < len + 2 then none
  else if pos = 0 ∧ 1024 * 32 ≤ len ∧ c.querybuf.length = len + 2 then
    some ({ c with
      argv := c.argv ++ [c.querybuf.take (c.querybuf.length - 2)], querybuf := [],
      bulklen := none }, 0)
  else
    some ({ c with argv := c.argv ++ [(c.querybuf.drop pos).take len], bulklen := none },
      pos + len + 2)

/-- The loop of processMultibulkBuffer, as long as there are arguments to read. The flag is false
for C_ERR. -/
def bulkLoop : Nat → Client → Nat → Bool × Client
  | 0, c, pos => (true, { c with multibulklen := 0, querybuf := c.querybuf.drop pos })
  | m + 1, c, pos =>
    match readBulkLen c pos with
    | .wait => (false, { c with multibulklen := m + 1, querybuf := c.querybuf.drop pos })
    | .fail c => (false, { c with multibulklen := m + 1 })
    | .go c pos len =>
      match readBulk c pos len with
      | none => (false, { c with multibulklen := m + 1, querybuf := c.querybuf.drop pos })
      | some next => bulkLoop m next.1 next.2

def processMultibulkBuffer (c : Client) : Option (Bool × Client) :=
  if c.multibulklen = 0 then
    if c.argv ≠ [] then none
    else
      match newlineIndex c.querybuf with
      | none =>
        if 1024 * 64 < c.querybuf.length then
          some (false, setProtocolError
            (addReply (addReplyError "Protocol error: too big mbulk count string") c) 0)
        else some (false, c)
      | some n =>
        if c.querybuf.length < n + 2 then some (false, c)
        else if c.querybuf.head? ≠ some 42 then none
        else
          let invalid := setProtocolError
            (addReply (addReplyError "Protocol error: invalid multibulk length") c) 0
          match string2ll ((c.querybuf.drop 1).take (n - 1)) with
          | none => some (false, invalid)
          | some ll =>
            if 1024 * 1024 < ll then some (false, invalid)
            else if ll ≤ 0 then some (true, { c with querybuf := c.querybuf.drop (n + 2) })
            else some (bulkLoop ll.toNat c (n + 2))
  else some (bulkLoop c.multibulklen c 0)

/-- What processCommand returns, C_OK or C_ERR, what it replies, and the server after it. C_ERR
comes with the flag CLIENT_CLOSE_AFTER_REPLY. -/
structure Done (σ : Type) where
  ok : Bool
  reply : Sds
  server : σ

def Done.client {σ : Type} (done : Done σ) (c : Client) : Client :=
  if done.ok then resetClient (addReply done.reply c)
  else { addReply done.reply c with closing := true }

section Input

variable {σ : Type} (processCommand : σ → List Sds → Option (Done σ))

/-- The loop of processInputBuffer. An assertion that fails and an inline request, which no client
of the servers sends, are none. -/
def inputLoop : Nat → Client → σ → Option (Client × σ)
  | 0, _, _ => none
  | rounds + 1, c, s =>
    if c.querybuf = [] ∨ c.closing = true then some (c, s)
    else if c.multibulk = false ∧ c.querybuf.head? ≠ some 42 then none
    else (processMultibulkBuffer { c with multibulk := true }).bind (fun read =>
      if read.1 = false then some (read.2, s)
      else if read.2.argv = [] then inputLoop rounds (resetClient read.2) s
      else (processCommand s read.2.argv).bind (fun done =>
        inputLoop rounds (done.client read.2) done.server))

def processInputBuffer (c : Client) (s : σ) : Option (Client × σ) :=
  inputLoop processCommand (c.querybuf.length + 1) c s

def readlen (c : Client) : Nat :=
  match c.bulklen with
  | none => 1024 * 16
  | some len =>
    if c.multibulk = true ∧ c.multibulklen ≠ 0 ∧ 1024 * 32 ≤ len then
      min (1024 * 16) (len + 2 - c.querybuf.length)
    else 1024 * 16

def readQueryFromClient (chunk : Sds) (c : Client) (s : σ) : Option (Client × σ) :=
  -- A client whose buffer gets too long is freed.
  if 1024 * 1024 * 1024 < (c.querybuf ++ chunk).length then none
  else processInputBuffer processCommand { c with querybuf := c.querybuf ++ chunk } s

structure Connection where
  client : Client
  stream : Sds

def Connection.read (n : Nat) (k : Connection) (s : σ) : Option (Connection × σ) :=
  let nread := min n (min (readlen k.client) k.stream.length)
  if nread = 0 then some (k, s)
  else (readQueryFromClient processCommand (k.stream.take nread) k.client s).map (fun r =>
    (⟨r.1, k.stream.drop nread⟩, r.2))

def Connection.reads : List Nat → Connection → σ → Option (Connection × σ)
  | [], k, s => some (k, s)
  | n :: sizes, k, s =>
    (k.read processCommand n s).bind (fun first => first.1.reads sizes first.2)

end Input

def argText (a : Sds) : Sds := 36 :: ll2string 31 a.length ++ crlf ++ a ++ crlf

/-- A request as redis itself writes it, aof.c. -/
def catAppendOnlyGenericCommand (dst : Sds) (argv : List Sds) : Sds :=
  dst ++ (42 :: ll2string 31 argv.length ++ crlf) ++ argv.flatMap argText

def requestText (requests : List (List Sds)) : Sds :=
  requests.foldl catAppendOnlyGenericCommand []

end Haystack.Redis
