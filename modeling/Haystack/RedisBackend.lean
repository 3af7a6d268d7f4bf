import Haystack.Redis.Histories
import Haystack.OneRedis
import Haystack.Operation
import Haystack.SharedJedis
import Haystack.Calls.Simulation

/-! The system with the redis servers themselves in place of maps. The servers of the system send
them commands and read their replies, and the redis servers move their keys between tables in
between. -/
namespace Haystack

open Calls Cql Java

namespace Redis

def Server.get (hash : Sds → UInt64) (s : Server) (key : Sds) : Option Sds :=
  (s.dict.content hash key).map getDecodedObject

theorem Server.Holds.get_eq {hash : Sds → UInt64} {s : Server} {m : Sds → Option Sds}
    (holds : s.Holds hash m) : s.get hash = m := by
  funext key
  rw [get, holds.content, Option.map_map]
  have inverse : getDecodedObject ∘ tryObjectEncoding = id := funext getDecodedObject_encoded
  rw [inverse, Option.map_id_apply]

/-- What a server does by itself between two commands. No save fails. -/
inductive Upkeep where
  | cron (rounds : Nat)
  | child (running : Bool)

def Upkeep.apply (hash : Sds → UInt64) (s : Server) : Upkeep → Option Server
  | cron rounds => databasesCron hash rounds s
  | child running => some { s with child := running }

structure Server.Room (hash : Sds → UInt64) (n : Nat) (s : Server) : Prop where
  holds : s.Holds hash (s.get hash)
  size : dictSize s.dict + n ≤ 2 ^ 61
  writable : s.saveFailed = false

theorem Server.Holds.room {hash : Sds → UInt64} {s : Server} {m : Sds → Option Sds}
    (holds : s.Holds hash m) {n : Nat} (size : dictSize s.dict + n ≤ 2 ^ 61)
    (writable : s.saveFailed = false) : s.Room hash n ∧ s.get hash = m :=
  ⟨⟨holds.get_eq.symm ▸ holds, size, writable⟩, holds.get_eq⟩

theorem Server.Room.less {hash : Sds → UInt64} {s : Server} {n : Nat}
    (room : s.Room hash (n + 1)) : s.Room hash n := by
  have size := room.size
  exact ⟨room.holds, by omega, room.writable⟩

theorem Server.room_initServer (hash : Sds → UInt64) {n : Nat} (few : n ≤ 2 ^ 61) :
    initServer.Room hash n ∧ initServer.get hash = fun _ => none := by
  have empty : dictSize initServer.dict = 0 := rfl
  exact Server.Holds.room ⟨dictCreate_valid, rfl, fun _ _ none => by cases none⟩ (by omega) rfl

section Upkeep

variable {hash : Sds → UInt64} {s : Server} {n : Nat}

theorem Server.Room.upkeep (room : s.Room hash n) (u : Upkeep) :
    ∃ s', u.apply hash s = some s' ∧ s'.Room hash n ∧ s'.get hash = s.get hash := by
  cases u with
  | cron rounds =>
    obtain ⟨d, done, holds, size⟩ := databasesCron_spec room.holds rounds
    refine ⟨_, done, holds.room ?_ room.writable⟩
    have before := room.size
    dsimp only
    omega
  | child running =>
    have holds : Server.Holds hash { s with child := running } (s.get hash) :=
      ⟨room.holds.valid, room.holds.content, room.holds.lengths⟩
    exact ⟨_, rfl, holds.room room.size room.writable⟩

theorem Server.Room.upkeeps (room : s.Room hash n) (us : List Upkeep) :
    ∃ s', us.foldlM (Upkeep.apply hash) s = some s' ∧ s'.Room hash n ∧
      s'.get hash = s.get hash := by
  induction us generalizing s with
  | nil => exact ⟨s, rfl, room, rfl⟩
  | cons u us ih =>
    obtain ⟨s₁, first, room₁, same₁⟩ := room.upkeep u
    obtain ⟨s₂, rest, room₂, same₂⟩ := ih room₁
    refine ⟨s₂, ?_, room₂, same₂.trans same₁⟩
    rw [List.foldlM_cons, first]
    exact rest

def Server.serve (hash : Sds → UInt64) (us : List Upkeep) (command : Command) (s : Server) :
    Option (Done Server) :=
  (us.foldlM (Upkeep.apply hash) s).bind (fun s => processCommand hash s command.argv)

theorem Server.Room.serve (room : s.Room hash (n + 1)) (us : List Upkeep) {command : Command}
    (sendable : command.Sendable) :
    ∃ s', s.serve hash us command = some ⟨true, (command.meaning false (s.get hash)).1, s'⟩ ∧
      s'.Room hash n ∧ s'.get hash = (command.meaning false (s.get hash)).2 := by
  obtain ⟨s₁, done, room₁, same⟩ := room.upkeeps us
  have size₁ := room₁.size
  obtain ⟨s₂, replied, holds, writable, size₂⟩ :=
    processCommand_spec room₁.holds (by omega) sendable
  rw [room₁.writable] at replied holds writable
  refine ⟨s₂, ?_, same ▸ holds.room (by omega) writable⟩
  rw [Server.serve, done, Option.bind_some, replied, same]

end Upkeep

end Redis

/-- What Jedis makes of the replies of redis: a get returns the value that it reads, if there is
one, and the other calls do nothing with theirs. Strings are sent in UTF-8, and what is made of
other bytes is left open. -/
structure ReplyReader where
  decode : Bytes → String
  decoded : ∀ s, decode (Charset.utf8.getBytes s) = s
  read : (c : Call) → Redis.Sds → Except Exception (Answer c)
  jedisGet : ∀ server key (v : Option Redis.Sds), (∀ b ∈ v, b.length ≤ Redis.protoMaxBulkLen) →
    read (.jedisGet server key) (v.elim (Redis.ascii "$-1\r\n") Redis.argText) =
      .ok (v.map decode)
  jedisSet : ∀ server key value,
    read (.jedisSet server key value) (Redis.ascii "+OK\r\n") = .ok ()
  jedisDel : ∀ server key (n : Nat),
    read (.jedisDel server key) (Redis.addReplyLongLongWithPrefix n 58) = .ok ()
  binaryGet : ∀ server key (v : Option Redis.Sds), (∀ b ∈ v, b.length ≤ Redis.protoMaxBulkLen) →
    read (.binaryGet server key) (v.elim (Redis.ascii "$-1\r\n") Redis.argText) = .ok v
  binarySet : ∀ server key image,
    read (.binarySet server key image) (Redis.ascii "+OK\r\n") = .ok ()
  binaryDel : ∀ server key (n : Nat),
    read (.binaryDel server key) (Redis.addReplyLongLongWithPrefix n 58) = .ok ()

def Call.command : Call → Option (Connection × Redis.Command)
  | .jedisGet server key => some (.web server, .get (Charset.utf8.getBytes key))
  | .jedisSet server key value =>
    some (.web server, .set (Charset.utf8.getBytes key) (Charset.utf8.getBytes value))
  | .jedisDel server key => some (.web server, .del [Charset.utf8.getBytes key])
  | .binaryGet server key => some (.cache server, .get key)
  | .binarySet server key image => some (.cache server, .set key image)
  | .binaryDel server key => some (.cache server, .del [key])
  | _ => none

def Call.Fits (c : Call) : Prop := ∀ sent ∈ c.command, sent.2.Sendable

instance : DecidablePred Call.Fits :=
  fun c => inferInstanceAs (Decidable (∀ sent ∈ c.command, sent.2.Sendable))

def Hosting.redisOf (h : Hosting) : Connection → Connection
  | .web server => if h.oneRedis then .cache server else .web server
  | .cache server => .cache server

theorem Call.command_none {c : Call} (apart : c.command = none) : ¬ ToRedis c := by
  intro redis
  cases c with
  | jedisGet _ _ | jedisSet _ _ _ | jedisDel _ _ | binaryGet _ _ | binarySet _ _ _
  | binaryDel _ _ =>
    cases apart
  | _ => exact redis

/-- The backends with redis servers. What the world has in place of them is not used. -/
structure Hosted where
  world : World
  redis : Connection → Redis.Server
  clock : Nat

theorem Hosting.exec_apart (h : Hosting) {decode : Bytes → String} {c : Call}
    (apart : c.command = none) :
    h.exec decode c = Haystack.exec c := by
  funext s
  unfold Hosting.exec
  split
  · cases c with
    | jedisGet _ _ | jedisSet _ _ _ | jedisDel _ _ => cases apart
    | _ => rfl
  · rfl

namespace Hosted

def start (s : World) : Hosted := ⟨s, fun _ => Redis.initServer, 0⟩

/-- Jedis sends the command of a call and reads the reply. Before it, the redis server does what is
due. -/
def exec (h : Hosting) (reader : ReplyReader) (hash : Redis.Sds → UInt64)
    (due : Nat → List Redis.Upkeep) (c : Call) (x : Hosted) :
    Except Exception (Hosted × Answer c) :=
  match c.command with
  | none => (Haystack.exec c x.world).map (fun answer => ({ x with world := answer.1 }, answer.2))
  | some (connection, command) =>
    (answerOr .unavailable
      ((x.redis (h.redisOf connection)).serve hash (due x.clock) command)).bind (fun done =>
        (reader.read c done.reply).map (fun a =>
          (⟨x.world, Function.update x.redis (h.redisOf connection) done.server, x.clock + 1⟩, a)))

def view (h : Hosting) (reader : ReplyReader) (hash : Redis.Sds → UInt64) (x : Hosted) : World :=
  x.world.withRedis
    (fun server key =>
      if h.oneRedis then none
      else ((x.redis (.web server)).get hash (Charset.utf8.getBytes key)).map reader.decode)
    (fun server => (x.redis (.cache server)).get hash)

section View

variable (h : Hosting) (reader : ReplyReader) {hash : Redis.Sds → UInt64} {x : Hosted}
  {s : Redis.Server} {server : Nat} (clock : Nat)

theorem view_same {connection : Connection} (same : s.get hash = (x.redis connection).get hash) :
    view h reader hash ⟨x.world, Function.update x.redis connection s, clock⟩ =
      view h reader hash x := by
  have all : ∀ other,
      (Function.update x.redis connection s other).get hash = (x.redis other).get hash := by
    intro other
    by_cases this : other = connection
    · rw [this, Function.update_self, same]
    · rw [Function.update_of_ne this]
  simp only [view, all]

theorem view_cache {key : Bytes} {value : Option Bytes}
    (changed : s.get hash = Function.update ((x.redis (.cache server)).get hash) key value) :
    view h reader hash ⟨x.world, Function.update x.redis (.cache server) s, clock⟩ =
      (view h reader hash x).setCached server key value := by
  have web : ∀ other, Function.update x.redis (.cache server) s (.web other) =
      x.redis (.web other) :=
    fun other => Function.update_of_ne (by simp) _ _
  have cache : (fun other => (Function.update x.redis (.cache server) s (.cache other)).get hash) =
      Function.update (fun other => (x.redis (.cache other)).get hash) server
        (Function.update ((x.redis (.cache server)).get hash) key value) := by
    funext other
    by_cases this : other = server
    · rw [this, Function.update_self, Function.update_self, changed]
    · rw [Function.update_of_ne this, Function.update_of_ne (by simpa using this)]
  simp only [view, web, cache, World.setCached, World.withRedis]

theorem view_web {h : Hosting} (apart : h.oneRedis = false) {key : String} {value : Option Bytes}
    (changed : s.get hash =
      Function.update ((x.redis (.web server)).get hash) (Charset.utf8.getBytes key) value) :
    view h reader hash ⟨x.world, Function.update x.redis (.web server) s, clock⟩ =
      (view h reader hash x).setRedis server key (value.map reader.decode) := by
  have cache : ∀ other,
      Function.update x.redis (.web server) s (.cache other) = x.redis (.cache other) :=
    fun other => Function.update_of_ne (by simp) _ _
  have web : (fun other pid => ((Function.update x.redis (.web server) s (.web other)).get hash
        (Charset.utf8.getBytes pid)).map reader.decode) =
      Function.update
        (fun other pid =>
          ((x.redis (.web other)).get hash (Charset.utf8.getBytes pid)).map reader.decode)
        server (Function.update
          (fun pid =>
            ((x.redis (.web server)).get hash (Charset.utf8.getBytes pid)).map reader.decode)
          key (value.map reader.decode)) := by
    funext other pid
    by_cases this : other = server
    · rw [this, Function.update_self, Function.update_self, changed]
      by_cases same : pid = key
      · rw [same, Function.update_self, Function.update_self]
      · have differ : Charset.utf8.getBytes pid ≠ Charset.utf8.getBytes key := by
          intro equal
          apply same
          rw [← reader.decoded pid, equal, reader.decoded]
        rw [Function.update_of_ne same, Function.update_of_ne differ]
    · rw [Function.update_of_ne this, Function.update_of_ne (by simpa using this)]
  simp only [view, cache, web, apart, World.setRedis, World.withRedis, Bool.false_eq_true,
    if_false]

theorem view_redisOf {key : String} (value : Option String)
    (changed : s.get hash = Function.update ((x.redis (h.redisOf (.web server))).get hash)
      (Charset.utf8.getBytes key) (value.map Charset.utf8.getBytes)) :
    view h reader hash ⟨x.world, Function.update x.redis (h.redisOf (.web server)) s, clock⟩ =
      if h.oneRedis then
        (view h reader hash x).setCached server (Charset.utf8.getBytes key)
          (value.map Charset.utf8.getBytes)
      else (view h reader hash x).setRedis server key value := by
  have decoded : (value.map Charset.utf8.getBytes).map reader.decode = value := by
    have same : reader.decode ∘ Charset.utf8.getBytes = id := funext reader.decoded
    rw [Option.map_map, same, Option.map_id_apply]
  cases one : h.oneRedis with
  | true =>
    simp only [Hosting.redisOf, one, if_true] at changed ⊢
    exact view_cache h reader clock changed
  | false =>
    simp only [Hosting.redisOf, one, Bool.false_eq_true, if_false] at changed ⊢
    rw [view_web reader clock one changed, decoded]

end View

section Mimics

variable (h : Hosting) (reader : ReplyReader) {hash : Redis.Sds → UInt64}
  (due : Nat → List Redis.Upkeep) {x : Hosted} {n : Nat}

theorem exec_command (room : ∀ connection, (x.redis connection).Room hash (n + 1)) {c : Call}
    {connection : Connection} {command : Redis.Command}
    (sends : c.command = some (connection, command)) (fits : c.Fits) (a : Answer c)
    (reply : reader.read c
      (command.meaning false ((x.redis (h.redisOf connection)).get hash)).1 = .ok a) :
    ∃ s : Redis.Server,
      s.get hash = (command.meaning false ((x.redis (h.redisOf connection)).get hash)).2 ∧
      (∀ other, (Function.update x.redis (h.redisOf connection) s other).Room hash n) ∧
      exec h reader hash due c x =
        .ok (⟨x.world, Function.update x.redis (h.redisOf connection) s, x.clock + 1⟩, a) := by
  have sendable : command.Sendable := fits (connection, command) sends
  obtain ⟨s, served, room', got⟩ := (room (h.redisOf connection)).serve (due x.clock) sendable
  refine ⟨s, got, ?_, ?_⟩
  · intro other
    rw [Function.update_apply]
    split
    · exact room'
    · exact (room other).less
  · simp only [exec, sends, served]
    change (reader.read c _).map _ = _
    rw [reply]
    rfl

theorem exec_none {c : Call} (apart : c.command = none) : exec h reader hash due c x =
    (Haystack.exec c x.world).map (fun answer => ({ x with world := answer.1 }, answer.2)) := by
  simp only [exec, apart]

theorem meaning_del (m : Redis.Sds → Option Redis.Sds) (key : Redis.Sds) :
    (Redis.Command.meaning false (.del [key]) m).2 = Function.update m key none := by
  funext other
  simp [Redis.Command.meaning, Function.update_apply]

theorem exec_answered (room : ∀ connection, (x.redis connection).Room hash (n + 1)) {c : Call}
    {sent : Connection × Redis.Command} (sends : c.command = some sent) (fits : c.Fits) :
    ∃ y a, exec h reader hash due c x = .ok (y, a) ∧
      (∀ connection, (y.redis connection).Room hash n) ∧
      h.exec reader.decode c (view h reader hash x) = .ok (view h reader hash y, a) := by
  have short : ∀ connection key, ∀ b ∈ (x.redis connection).get hash key,
      b.length ≤ Redis.protoMaxBulkLen :=
    fun connection key b found => (room connection).holds.lengths key b found
  cases c with
  | jedisGet server key =>
    obtain ⟨s, got, room', answer⟩ := exec_command h reader due room
      (show (Call.jedisGet server key).command = _ from rfl) fits
      (((x.redis (h.redisOf (.web server))).get hash (Charset.utf8.getBytes key)).map reader.decode)
      (reader.jedisGet server key _ (short _ _))
    refine ⟨_, _, answer, room', ?_⟩
    rw [view_same h reader _ got]
    unfold Hosting.exec Hosting.redisOf
    cases one : h.oneRedis with
    | true => rfl
    | false => simp [Haystack.exec, view, World.withRedis, one]
  | jedisSet server key value =>
    obtain ⟨s, got, room', answer⟩ := exec_command h reader due room
      (show (Call.jedisSet server key value).command = _ from rfl) fits ()
      (reader.jedisSet server key value)
    refine ⟨_, _, answer, room', ?_⟩
    rw [view_redisOf h reader _ (some value) got]
    unfold Hosting.exec
    split <;> rfl
  | jedisDel server key =>
    obtain ⟨s, got, room', answer⟩ := exec_command h reader due room
      (show (Call.jedisDel server key).command = _ from rfl) fits () (reader.jedisDel server key _)
    refine ⟨_, _, answer, room', ?_⟩
    rw [view_redisOf h reader _ none (got.trans (meaning_del _ _))]
    unfold Hosting.exec
    split <;> rfl
  | binaryGet server key =>
    obtain ⟨s, got, room', answer⟩ := exec_command h reader due room
      (show (Call.binaryGet server key).command = _ from rfl) fits
      ((x.redis (.cache server)).get hash key) (reader.binaryGet server key _ (short _ _))
    refine ⟨_, _, answer, room', ?_⟩
    rw [view_same h reader _ got]
    unfold Hosting.exec
    split <;> rfl
  | binarySet server key image =>
    obtain ⟨s, got, room', answer⟩ := exec_command h reader due room
      (show (Call.binarySet server key image).command = _ from rfl) fits ()
      (reader.binarySet server key image)
    refine ⟨_, _, answer, room', ?_⟩
    have changed := view_cache h reader (x.clock + 1) got
    unfold Hosting.exec
    split <;> exact congrArg (fun w => Except.ok (w, ())) changed.symm
  | binaryDel server key =>
    obtain ⟨s, got, room', answer⟩ := exec_command h reader due room
      (show (Call.binaryDel server key).command = _ from rfl) fits ()
      (reader.binaryDel server key _)
    refine ⟨_, _, answer, room', ?_⟩
    have changed := view_cache h reader (x.clock + 1) (got.trans (meaning_del _ _))
    unfold Hosting.exec
    split <;> exact congrArg (fun w => Except.ok (w, ())) changed.symm
  | _ => cases sends

theorem mimics : MimicsWithin (exec h reader hash due) (h.exec reader.decode) (view h reader hash)
    (fun n x => ∀ connection, (x.redis connection).Room hash n) Call.Fits := by
  constructor
  · intro n c x room fits
    cases sends : c.command with
    | some sent =>
      obtain ⟨y, a, answer, -, same⟩ := exec_answered h reader due room sends fits
      rw [answer, same]
      rfl
    | none =>
      rw [h.exec_apart sends, exec_none h reader due sends, view,
        exec_withRedis _ _ _ (Call.command_none sends)]
      cases Haystack.exec c x.world with
      | error e => rfl
      | ok reply => rfl
  · intro n c x y a room fits answer
    cases sends : c.command with
    | some sent =>
      obtain ⟨y', a', answer', room', -⟩ := exec_answered h reader due room sends fits
      rw [answer] at answer'
      cases answer'
      exact room'
    | none =>
      rw [exec_none h reader due sends] at answer
      cases reply : Haystack.exec c x.world with
      | error e =>
        rw [reply] at answer
        cases answer
      | ok r =>
        rw [reply] at answer
        cases answer
        exact fun connection => (room connection).less
  · exact fun n x room connection => (room connection).less

end Mimics

theorem view_start {s : World} (uncached : s.redis = fun _ _ => none)
    (empty : s.imageCache = fun _ _ => none) (h : Hosting) (reader : ReplyReader)
    (hash : Redis.Sds → UInt64) :
    view h reader hash (start s) = s := by
  have nothing : Redis.initServer.get hash = fun _ => none :=
    (Redis.Server.room_initServer hash (Nat.zero_le _)).2
  obtain ⟨redis, directory, store, imageCache⟩ := s
  cases uncached
  cases empty
  simp only [view, start, World.withRedis, nothing, Option.map_none, ite_self]

end Hosted

/-- The system runs on redis servers as it runs on maps. Whatever the hash function and whatever the
redis servers do to their tables between the commands, the same runs are possible, every request is
answered the same, and the redis servers hold what the maps hold, whether the web server and the
cache server of a host share a redis or not. Each call to redis has to keep to the limit on the
length of an argument. -/
theorem runs_on_redis (h : Hosting) (reader : ReplyReader) (charset : Charset)
    (hash : Redis.Sds → UInt64) (due : Nat → List Redis.Upkeep) (s : World)
    (uncached : s.redis = fun _ _ => none) (empty : s.imageCache = fun _ _ => none)
    (es : List (Event Task Exception)) (few : es.length ≤ 2 ^ 61)
    (fits : Pool.Along (h.exec reader.decode) (Task.program h.config.toHSConfig charset)
      (fun p _ => p.Begins Call.Fits) (Operation.idle s) es) :
    (Pool.runs (Hosted.exec h reader hash due) (Task.program h.config.toHSConfig charset)
        ⟨.start s, []⟩ es).map (Pool.map (Hosted.view h reader hash)) =
      (Operation.idle s).runs (h.exec reader.decode) (Task.program h.config.toHSConfig charset)
        es := by
  have seen : Pool.map (Hosted.view h reader hash) ⟨.start s, []⟩ = Operation.idle s := by
    rw [Pool.map, Hosted.view_start uncached empty]
    rfl
  have room : ∀ connection, ((Hosted.start s).redis connection).Room hash es.length :=
    fun _ => (Redis.Server.room_initServer hash few).1
  have same := Pool.runs_within (p := ⟨.start s, []⟩) (Hosted.mimics h reader due) room
    (seen.symm ▸ fits)
  rw [seen] at same
  exact same

section Witness

def bulkText (text : Redis.Sds) : Option Bytes :=
  (Redis.newlineIndex text).bind (fun i =>
    (Redis.string2ll ((text.take i).drop 1)).bind (fun len =>
      if len < 0 then none else some ((text.drop (i + 2)).take len.toNat)))

theorem bulkText_argText {v : Redis.Sds} (bound : v.length ≤ Redis.protoMaxBulkLen) :
    bulkText (Redis.argText v) = some v := by
  have short : v.length < 2 ^ 63 := by unfold Redis.protoMaxBulkLen at bound; omega
  have plain := Redis.plain_header 36 (by decide) (by decide) v.length
  have digits : ((Redis.line (36 :: Digits.decimal v.length) ++ (v ++ Redis.crlf)).take
      (36 :: Digits.decimal v.length).length).drop 1 = Digits.decimal v.length := by
    rw [Redis.line, List.append_assoc, List.take_left]
    rfl
  have bytes : (Redis.line (36 :: Digits.decimal v.length) ++ (v ++ Redis.crlf)).drop
      ((36 :: Digits.decimal v.length).length + 2) = v ++ Redis.crlf :=
    List.drop_left' (by simp [Redis.line, Redis.crlf])
  rw [Redis.argText_eq bound, bulkText, Redis.newlineIndex_line plain, Option.bind_some, digits,
    Redis.string2ll_nat short, Option.bind_some, if_neg (by omega), bytes, Int.toNat_natCast,
    List.take_left]

theorem bulkText_get {v : Option Redis.Sds} (bound : ∀ b ∈ v, b.length ≤ Redis.protoMaxBulkLen) :
    bulkText (v.elim (Redis.ascii "$-1\r\n") Redis.argText) = v := by
  cases v with
  | none => exact show bulkText (Redis.ascii "$-1\r\n") = none by decide +kernel
  | some b => exact bulkText_argText (bound b rfl)

def ReplyReader.plain : ReplyReader where
  decode := decodeUtf8
  decoded := decodeUtf8_getBytes
  read
    | .jedisGet _ _, text => .ok ((bulkText text).map decodeUtf8)
    | .jedisSet _ _ _, _ => .ok ()
    | .jedisDel _ _, _ => .ok ()
    | .binaryGet _ _, text => .ok (bulkText text)
    | .binarySet _ _ _, _ => .ok ()
    | .binaryDel _ _, _ => .ok ()
    | _, _ => .error .unavailable
  jedisGet _ _ _ bound :=
    congrArg (fun v => Except.ok (Option.map decodeUtf8 v)) (bulkText_get bound)
  jedisSet _ _ _ := rfl
  jedisDel _ _ _ := rfl
  binaryGet _ _ _ bound := congrArg Except.ok (bulkText_get bound)
  binarySet _ _ _ := rfl
  binaryDel _ _ _ := rfl

def Hosting.shippedApart : Hosting := ⟨.shipped, false⟩

def everyUpkeep : Nat → List Redis.Upkeep := fun _ => [.child true, .cron 1, .child false, .cron 0]

theorem runs_on_redis_restart : ∃ p : Pool Task Answer Hosted Exception (Option Resp),
    Pool.runs (Hosted.exec .shippedApart .plain (fun _ => 0) everyUpkeep)
      (Task.program .shipped .utf8) ⟨.start .shipped, []⟩ getDuringRestart = some p ∧
    Operation.outcome (Pool.map (Hosted.view .shippedApart .plain (fun _ => 0)) p) 1 =
      some (.serve (.webGet 1 "7"),
        some (.ok (some (.redirect "http://unix5.andrew.cmu.edu:9876/get?lvid=2&pid=7")))) := by
  have evaluated : ((Operation.idle .shipped).runs (Hosting.shippedApart.exec decodeUtf8)
      (Task.program .shipped .utf8) getDuringRestart).bind (fun q => Operation.outcome q 1) =
        some (.serve (.webGet 1 "7"),
          some (.ok (some (.redirect "http://unix5.andrew.cmu.edu:9876/get?lvid=2&pid=7")))) := by
    decide +kernel
  obtain ⟨q, run, answered⟩ := Option.bind_eq_some_iff.mp evaluated
  have same := runs_on_redis .shippedApart .plain .utf8 (fun _ => 0) everyUpkeep .shipped rfl rfl
    getDuringRestart (by decide) (by decide +kernel)
  obtain ⟨p, reached, seen⟩ := Option.map_eq_some_iff.mp (same.trans run)
  exact ⟨p, reached, seen ▸ answered⟩

end Witness

end Haystack
