import Haystack.ImageSafety
import Haystack.Sequential
import Haystack.Calls.Connection

/-! The one Jedis connection of each server, shared by the threads that handle its requests. A
call writes its command and then takes the next unread reply, without a lock in between. -/
namespace Haystack

open Calls Cql Java

inductive Connection where
  | web (server : Nat)
  | cache (server : Nat)
  deriving DecidableEq

def Call.connection : Call → Option Connection
  | .jedisGet server _ => some (.web server)
  | .jedisSet server _ _ => some (.web server)
  | .jedisDel server _ => some (.web server)
  | .binaryGet server _ => some (.cache server)
  | .binarySet server _ _ => some (.cache server)
  | .binaryDel server _ => some (.cache server)
  | _ => none

/-- The redis calls on these connections. A call that takes its own reply returns its answer, and
a get reads a reply without regard to its key. What else Jedis makes of replies is left open. -/
structure Jedis (Reply : Type) extends Wiring Answer Connection Exception Reply where
  connected : connection = Call.connection
  webGets : ∀ server p q reply, decode (.jedisGet server p) reply =
    decode (.jedisGet server q) reply
  cacheGets : ∀ server p q reply,
    decode (.binaryGet server p) reply = decode (.binaryGet server q) reply

abbrev Wires (Reply : Type) :=
  Pool Request (Half.Answer Answer Connection Exception)
    (Wired World Connection Reply) Exception Resp

namespace Wires

variable {Reply : Type}

def idle (s : World) : Wires Reply := ⟨.start s, []⟩

def after (w : Wiring Answer Connection Exception Reply) (config : HSConfig) (charset : Charset)
    (p : Wires Reply) (es : List Happening) : Option (Wires Reply) :=
  p.runs (w.execHalf exec) (fun r => w.split (handler config charset r)) es

/-- On each connection the replies are taken in the order in which the commands were written. -/
def TakesInOrder (w : Wiring Answer Connection Exception Reply) (config : HSConfig)
    (charset : Charset) (p : Wires Reply) (es : List Happening) : Prop :=
  p.Along (w.execHalf exec) (fun r => w.split (handler config charset r)) InOrder es

def outcomes (p : Wires Reply) : List (Option (Except Exception Resp)) :=
  p.threads.map (fun t => t.rest.outcome)

end Wires

section Whole

variable {Reply : Type} {w : Wiring Answer Connection Exception Reply}

theorem whole_run {config : HSConfig} {charset : Charset} {s : World} {es : List Happening}
    {p : Wires Reply} (run : (Wires.idle s).after w config charset es = some p)
    (unfailing : ∀ e ∈ es, e.unfailing = true)
    (inOrder : (Wires.idle s).TakesInOrder w config charset es) :
    ∃ fs q, started fs = started es ∧ (∀ f ∈ fs, f.unfailing = true) ∧
      (System.idle s).after config charset fs = some q ∧
      ∀ thread ∈ p.threads, ∀ x, thread.rest.outcome = some x →
        ∃ (j : Nat) (job : Job), q.threads[j]? = some job ∧ job.request = thread.request ∧
          job.rest.outcome = some x := by
  obtain ⟨fs, q, begun, calm, reached, follows⟩ := (Follows.start s).runs unfailing inOrder run
  refine ⟨fs, q, begun, calm, reached, ?_⟩
  intro thread member x ended
  obtain ⟨j, present⟩ := List.mem_iff_getElem?.mp member
  obtain ⟨job, present', request, matched⟩ := follows.found present
  exact ⟨j, job, present', request, matched.outcome ended⟩

end Whole

/-- While replies are taken in order, a get on a web server redirects to the URL of its own pid
and a get on a cache server returns the image of its own pid, whatever a call makes of a reply
that is not its own. -/
theorem replies_reach_own_request {Reply : Type} (w : Wiring Answer Connection Exception Reply)
    {σ : Setting} {s : World} {es : List Happening} {p : Wires Reply} (coherent : Coherent σ s)
    (everywhere : ∀ pid, σ.scope pid) (admitted : ∀ r ∈ started es, σ.Admits r)
    (unfailing : ∀ e ∈ es, e.unfailing = true)
    (run : (Wires.idle s).after w σ.config σ.charset es = some p)
    (inOrder : (Wires.idle s).TakesInOrder w σ.config σ.charset es) :
    ∀ thread ∈ p.threads,
      (∀ server pid url, thread.request = .webGet server pid →
        thread.rest.outcome = some (.ok (.redirect url)) →
        ∃ t info b, σ.Assigned t info b ∧ pid = toString t ∧ url = info.path pid) ∧
      (∀ server lvid pid name b, thread.request = .cacheGet server lvid pid →
        thread.rest.outcome = some (.ok (.image name b)) →
        name = pid ∧ ∃ t info, σ.Assigned t info b ∧ pid = toString t) := by
  intro thread member
  obtain ⟨fs, q, begun, calm, reached, same⟩ := whole_run run unfailing inOrder
  have stays : q.after σ.config σ.charset [] = some q := rfl
  have good := (replies_after coherent (by simpa [begun] using admitted) (by simpa using calm)
    reached stays).1
  have reply : ∀ x, thread.rest.outcome = some x → ∃ v, σ.Reply v thread.request x q.state := by
    intro x ended
    obtain ⟨j, job, found, request, outcome⟩ := same thread member x ended
    rw [← request]
    exact good.outcome found outcome
  constructor
  · intro server pid url asked ended
    obtain ⟨v, given⟩ := reply _ ended
    rw [asked] at given
    rcases given (everywhere pid) with ⟨_, h⟩ | ⟨_, h⟩ | ⟨t, info, b, assigned, name, h⟩
    · cases h
    · cases h
    · cases h
      exact ⟨t, info, b, assigned, name, rfl⟩
  · intro server lvid pid name b asked ended
    obtain ⟨v, given⟩ := reply _ ended
    rw [asked] at given
    rcases given (everywhere pid) with ⟨_, h⟩ | ⟨_, h⟩ | ⟨_, h⟩ | ⟨t, info, b', assigned, key, _, h⟩
    · cases h
    · cases h
    · cases h
    · cases h
      exact ⟨rfl, t, info, assigned, σ.charset.decimal pid t key⟩

section Swapped

variable {Reply : Type} (jedis : Jedis Reply) {s : World} {server : Nat} {p q : String}
  (config : HSConfig) (charset : Charset)

theorem web_gets_swapped {url url' : String} (named : p ≠ "") (named' : q ≠ "")
    (entry : WebServer.usable (s.redis server p) = some url)
    (entry' : WebServer.usable (s.redis server q) = some url') :
    ((Wires.idle s).after jedis.toWiring config charset
      (overlapped (.webGet server p) (.webGet server q))).map Wires.outcomes =
        some [some (.ok (.redirect url')), some (.ok (.redirect url))] := by
  obtain ⟨next, tree, continued⟩ := WebServer.onGetImage_eq server named
  obtain ⟨next', tree', continued'⟩ := WebServer.onGetImage_eq server named'
  have connected : ∀ key, jedis.connection (.jedisGet server key) = some (.web server) := by
    intro key
    rw [jedis.connected]
    rfl
  obtain ⟨x, run⟩ := overlapped_runs (w := jedis.toWiring) exec (handler config charset)
    (.webGet server p) (.webGet server q) tree tree' (connected p) (connected q) s
  have crossed : ∀ key key', jedis.decode (.jedisGet server key)
      (jedis.encode (.jedisGet server key') (.ok (s.redis server key'))) =
        .ok (s.redis server key') := by
    intro key key'
    rw [jedis.webGets server key key']
    exact jedis.own (.jedisGet server key') _ _ (connected key')
  simp only [Wires.after, Wires.idle, run, effect, exec, Except.map, crossed, Program.lift_ok,
    Program.bind_done, continued, continued', entry, entry', Option.elim_some]
  rfl

theorem cache_gets_swapped {lvid lvid' : String} {b b' : Bytes} (named : lvid ≠ "" ∧ p ≠ "")
    (named' : lvid' ≠ "" ∧ q ≠ "") (entry : s.imageCache server (charset.getBytes p) = some b)
    (entry' : s.imageCache server (charset.getBytes q) = some b') :
    ((Wires.idle s).after jedis.toWiring config charset
      (overlapped (.cacheGet server lvid p) (.cacheGet server lvid' q))).map Wires.outcomes =
        some [some (.ok (.image p b')), some (.ok (.image q b))] := by
  obtain ⟨next, tree, continued⟩ := CacheServer.get_eq charset server named
  obtain ⟨next', tree', continued'⟩ := CacheServer.get_eq charset server named'
  have connected : ∀ key, jedis.connection (.binaryGet server key) = some (.cache server) := by
    intro key
    rw [jedis.connected]
    rfl
  obtain ⟨x, run⟩ := overlapped_runs (w := jedis.toWiring) exec (handler config charset)
    (.cacheGet server lvid p) (.cacheGet server lvid' q) tree tree' (connected _) (connected _) s
  have crossed : ∀ key key' (image : Option Bytes), jedis.decode (.binaryGet server key)
      (jedis.encode (.binaryGet server key') (.ok image)) = .ok image := by
    intro key key' image
    rw [jedis.cacheGets server key key']
    exact jedis.own (.binaryGet server key') _ _ (connected key')
  simp only [Wires.after, Wires.idle, run, effect, exec, entry, entry', Except.map, crossed,
    Program.lift_ok, Program.bind_done, continued, continued', Option.elim_some]
  rfl

end Swapped

inductive RedisReply where
  | bulk (value : Option Bytes)
  | status
  | error (e : Exception)

namespace RedisReply

def value : RedisReply → Except Exception (Option Bytes)
  | bulk v => .ok v
  | status => .error .unavailable
  | error e => .error e

def done : RedisReply → Except Exception Unit
  | error e => .error e
  | _ => .ok ()

end RedisReply

def Jedis.plain : Jedis RedisReply where
  connection := Call.connection
  encode
    | _, .error e => .error e
    | .jedisGet _ _, .ok url => .bulk (url.map Charset.utf8.getBytes)
    | .binaryGet _ _, .ok image => .bulk image
    | _, .ok _ => .status
  decode
    | .jedisGet _ _, reply => reply.value.map (Option.map decodeUtf8)
    | .jedisSet _ _ _, reply => reply.done
    | .jedisDel _ _, reply => reply.done
    | .binaryGet _ _, reply => reply.value
    | .binarySet _ _ _, reply => reply.done
    | .binaryDel _ _, reply => reply.done
    | _, _ => .error .unavailable
  own c k x connected := by
    cases x with
    | error e => cases c <;> first | rfl | cases connected
    | ok a =>
      cases c with
      | jedisGet server key =>
        have same : decodeUtf8 ∘ Charset.utf8.getBytes = id := funext decodeUtf8_getBytes
        simp [RedisReply.value, Except.map, same]
      | _ => first | rfl | cases connected
  timeout := .unavailable
  connected := rfl
  webGets _ _ _ _ := rfl
  cacheGets _ _ _ _ := rfl

section Warm

def warming : List Request := [.upload 0 (some [1]) 7, .upload 0 (some [2]) 8]

theorem shipped_volumes_distinct :
    (([(1, 1), (2, 1)] : List (Int32 × Int32)).map Prod.fst).Nodup := by
  decide

def Setting.warm : Setting :=
  .everything .shipped .utf8
    (World.shipped.schema ⟨[(1, 1), (2, 1)], shipped_volumes_distinct⟩) warming

def World.warm : World :=
  (((((World.shippedPhoto [1]).setPhoto "8" (some ⟨"unix5.andrew.cmu.edu:9876", 1⟩)
    ).setImage "lv1" "8" (some [2])
    ).setRedis 0 "7" (some "http://unix5.andrew.cmu.edu:9876/get?lvid=2&pid=7")
    ).setRedis 0 "8" (some "http://unix5.andrew.cmu.edu:9876/get?lvid=1&pid=8")
    ).setCached 0 (Charset.utf8.getBytes "7") (some [1])
    |>.setCached 0 (Charset.utf8.getBytes "8") (some [2])

theorem World.coherent_warm : Coherent .warm .warm := by
  have seven : Setting.warm.Assigned 7 ⟨"unix5.andrew.cmu.edu:9876", 2⟩ [1] := ⟨rfl, rfl⟩
  have eight : Setting.warm.Assigned 8 ⟨"unix5.andrew.cmu.edu:9876", 1⟩ [2] := ⟨rfl, rfl⟩
  have start : Coherent .warm .shipped :=
    coherent_of_empty World.ready_shipped.photos World.ready_shipped.storeInfo
      (World.unused_shipped _)
  have first : Coherent .warm (World.shippedPhoto [1]) :=
    ((start.setPhoto seven).1.setImage seven (by decide)).1
  have second := ((first.setPhoto eight).1.setImage eight (by decide)).1
  have third :=
    (second.setRedis 0 "7" (some "http://unix5.andrew.cmu.edu:9876/get?lvid=2&pid=7") (by
    rintro url - ⟨⟩
    exact ⟨7, _, _, seven, rfl, rfl⟩)).1
  have fourth :=
    (third.setRedis 0 "8" (some "http://unix5.andrew.cmu.edu:9876/get?lvid=1&pid=8") (by
    rintro url - ⟨⟩
    exact ⟨8, _, _, eight, rfl, rfl⟩)).1
  have fifth := (fourth.setCached 0 "7" (some [1]) (by
    rintro b - ⟨⟩
    exact ⟨"lv2", rfl⟩)).1
  exact (fifth.setCached 0 "8" (some [2]) (by
    rintro b - ⟨⟩
    exact ⟨"lv1", rfl⟩)).1

def readInOrder : List Happening :=
  [.start (.webGet 0 "7"), .start (.webGet 0 "8"), .start (.cacheGet 0 "2" "7"),
    .start (.cacheGet 0 "1" "8"), .step 0, .step 1, .step 2, .step 3, .step 0, .step 2,
    .step 1, .step 3]

theorem replies_reach_own_request_warm : ∃ p : Wires RedisReply,
    (Wires.idle .warm).after Jedis.plain.toWiring .shipped .utf8 readInOrder = some p ∧
    ∀ thread ∈ p.threads,
      (∀ server pid url, thread.request = .webGet server pid →
        thread.rest.outcome = some (.ok (.redirect url)) →
        ∃ t info b, Setting.warm.Assigned t info b ∧ pid = toString t ∧ url = info.path pid) ∧
      (∀ server lvid pid name b, thread.request = .cacheGet server lvid pid →
        thread.rest.outcome = some (.ok (.image name b)) →
        name = pid ∧ ∃ t info, Setting.warm.Assigned t info b ∧ pid = toString t) := by
  have possible :
      ((Wires.idle .warm).after Jedis.plain.toWiring .shipped .utf8 readInOrder).isSome = true :=
        rfl
  obtain ⟨p, run⟩ := Option.isSome_iff_exists.mp possible
  have inOrder : (Wires.idle .warm).TakesInOrder Jedis.plain.toWiring .shipped .utf8 readInOrder :=
    ⟨trivial, trivial, trivial, trivial, trivial, trivial, trivial, trivial, rfl, rfl, rfl, rfl,
      trivial⟩
  have admitted : ∀ r ∈ started readInOrder, Setting.warm.Admits r := by
    intro r member
    fin_cases member
    · exact (by decide : Plain "7")
    · exact (by decide : Plain "8")
    · exact (by decide : Wordlike "2")
    · exact (by decide : Wordlike "1")
  exact ⟨p, run, replies_reach_own_request Jedis.plain.toWiring World.coherent_warm
    (fun _ => trivial) admitted (by decide) run inOrder⟩

/-- Two threads of a server take each other's reply: both gets go to the other photo. -/
theorem overlapping_gets_swapped : Coherent .warm .warm ∧
    ∀ (Reply : Type) (jedis : Jedis Reply),
      ((Wires.idle .warm).after jedis.toWiring .shipped .utf8
        (overlapped (.webGet 0 "7") (.webGet 0 "8"))).map Wires.outcomes =
          some [some (.ok (.redirect "http://unix5.andrew.cmu.edu:9876/get?lvid=1&pid=8")),
            some (.ok (.redirect "http://unix5.andrew.cmu.edu:9876/get?lvid=2&pid=7"))] ∧
      ((Wires.idle .warm).after jedis.toWiring .shipped .utf8
        (overlapped (.cacheGet 0 "2" "7") (.cacheGet 0 "1" "8"))).map Wires.outcomes =
          some [some (.ok (.image "7" [2])), some (.ok (.image "8" [1]))] := by
  refine ⟨World.coherent_warm, fun Reply jedis => ⟨?_, ?_⟩⟩
  · exact web_gets_swapped jedis _ _ (by decide) (by decide) rfl rfl
  · exact cache_gets_swapped jedis _ _ (by decide) (by decide) rfl rfl

end Warm

end Haystack
