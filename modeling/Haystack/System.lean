import Haystack.Placement

/-! The whole system: any number of web servers and cache servers, told apart by
a number, and any number of requests to them. -/
namespace Haystack

open Calls Cql Java

/-- A request and the server it goes to. An upload carries the clock reading that
its handler will make. -/
inductive Request where
  | upload (server : Nat) (img : Option Bytes) (currentTimeMillis : Int64)
  | webGet (server : Nat) (pid : String)
  | webDelete (server : Nat) (pid : String)
  | cacheGet (server : Nat) (lvid pid : String)
  | cacheDelete (server : Nat) (pid : String)
  deriving DecidableEq, Repr

def handler (config : HSConfig) (charset : Charset) : Request → Handler Resp
  | .upload _ img currentTimeMillis => WebServer.onPostImage config img currentTimeMillis
  | .webGet server pid => WebServer.onGetImage server pid
  | .webDelete server pid => WebServer.onDelete server pid
  | .cacheGet server lvid pid => CacheServer.get charset server lvid pid
  | .cacheDelete server pid => CacheServer.delete charset server pid

/-- The requests the web servers and the cache servers answer without a failure:
no quote in a pid, and only letters, digits and underscores in an lvid. -/
def Request.Clean : Request → Prop
  | .upload _ _ _ => True
  | .webGet _ pid => Plain pid
  | .webDelete _ pid => Plain pid
  | .cacheGet _ lvid _ => Wordlike lvid
  | .cacheDelete _ _ => False

instance : DecidablePred Request.Clean
  | .upload _ _ _ => inferInstanceAs (Decidable True)
  | .webGet _ pid => inferInstanceAs (Decidable (Plain pid))
  | .webDelete _ pid => inferInstanceAs (Decidable (Plain pid))
  | .cacheGet _ lvid _ => inferInstanceAs (Decidable (Wordlike lvid))
  | .cacheDelete _ _ => inferInstanceAs (Decidable False)

def Request.bound : Request → Nat
  | .upload _ _ _ => 4
  | .webGet _ _ => 3
  | .webDelete _ _ => 3
  | .cacheGet _ _ _ => 4
  | .cacheDelete _ _ => 3

def Request.Possible : Request → Resp → Prop
  | .upload _ none _, r => r = .json 201 ""
  | .upload _ (some _) t, r => r = .json 201 (toString t)
  | .webGet _ _, r => r = .result 400 "Bad request: empty pid." ∨
      r = .result 404 "PID does not exist." ∨ ∃ url, r = .redirect url
  | .webDelete _ _, r => r = .result 404 "No such image." ∨ r = .result 200 "Image deleted."
  | .cacheGet _ _ pid, r => r = .result 400 "error" ∨ r = .status 404 ∨ ∃ b, r = .image pid b
  | .cacheDelete _ _, r => r = .plain "no such photo!" ∨ r = .plain "delete the photo"

section Shapes

variable (config : HSConfig) (charset : Charset) (server : Nat) (lvid pid : String)

theorem onCacheMiss_within :
    (WebServer.onCacheMiss server pid).Within (Request.webGet server pid).Possible 2 := by
  simp only [WebServer.onCacheMiss, execute_bind]
  intro rows
  dsimp only
  split
  · exact .inr (.inl rfl)
  · refine Program.within_lift _ _ (fun _ => ?_)
    refine Program.within_lift _ _ (fun _ => ?_)
    refine Program.within_lift _ _ (fun _ _ => ?_)
    exact .inr (.inr ⟨_, rfl⟩)

theorem onGetImage_within :
    (WebServer.onGetImage server pid).Within (Request.webGet server pid).Possible 3 := by
  by_cases named : pid = ""
  · subst named
    exact .inl rfl
  · obtain ⟨next, tree, continued⟩ := WebServer.onGetImage_eq server named
    rw [tree]
    intro m
    rw [continued]
    cases WebServer.usable m with
    | none => exact onCacheMiss_within server pid
    | some url => exact .inr (.inr ⟨url, rfl⟩)

theorem onDelete_within :
    (WebServer.onDelete server pid).Within (Request.webDelete server pid).Possible 3 := by
  simp only [WebServer.onDelete, jedisDel_bind, execute_bind]
  intro _ rows
  dsimp only
  split
  · exact .inl rfl
  · refine Program.within_lift _ _ (fun _ _ => ?_)
    exact .inr rfl

theorem onPostImage_within (img : Option Bytes) (t : Int64) :
    (WebServer.onPostImage config img t).Within (Request.upload server img t).Possible 4 := by
  cases img with
  | none => exact rfl
  | some b =>
    simp only [WebServer.onPostImage, execute_bind, prepare_bind, executeBound_bind]
    intro rows
    refine Program.within_lift _ _ (fun _ => ?_)
    refine Program.within_lift _ _ (fun _ _ _ => ?_)
    refine Program.within_lift _ _ (fun _ _ => ?_)
    exact rfl

theorem get_within :
    (CacheServer.get charset server lvid pid).Within
      (Request.cacheGet server lvid pid).Possible 4 := by
  unfold CacheServer.get
  split
  · exact .inl rfl
  · simp only [binaryGet_bind, prepare_bind, executeBound_bind]
    intro m
    dsimp only
    split
    · exact .inr (.inr ⟨_, rfl⟩)
    · intro ps
      refine Program.within_lift _ _ (fun _ rows => ?_)
      dsimp only
      split
      · exact .inr (.inl rfl)
      · refine Program.within_lift _ _ (fun _ _ => ?_)
        exact .inr (.inr ⟨_, rfl⟩)

theorem delete_within :
    (CacheServer.delete charset server pid).Within (Request.cacheDelete server pid).Possible 3 := by
  simp only [CacheServer.delete, binaryDel_bind, execute_bind]
  intro _ rows
  dsimp only
  split
  · exact .inl rfl
  · split
    · trivial
    · refine Program.within_lift _ _ (fun _ _ => ?_)
      exact .inr rfl

theorem handler_within (q : Request) : (handler config charset q).Within q.Possible q.bound := by
  cases q with
  | upload server img t => exact onPostImage_within config server img t
  | webGet server pid => exact onGetImage_within server pid
  | webDelete server pid => exact onDelete_within server pid
  | cacheGet server lvid pid => exact get_within charset server lvid pid
  | cacheDelete server pid => exact delete_within charset server pid

end Shapes

abbrev System := Pool Request Answer World Exception Resp

abbrev Job := Thread Request Answer Exception Resp

abbrev Happening := Event Request Exception

def System.after (config : HSConfig) (charset : Charset) (p : System) (es : List Happening) :
    Option System :=
  p.runs exec (handler config charset) es

def System.idle (s : World) : System := ⟨s, []⟩

/-- The backends as the start-up of the servers leaves them: some volumes, and nothing else. -/
def World.fresh (table : StoreInfo) (volumes : List String) : World where
  redis _ _ := none
  directory := ⟨true, some table, some (fun _ => none)⟩
  store := ⟨true, fun volume => if volume ∈ volumes then some (fun _ => none) else none⟩
  imageCache _ _ := none

def System.outcomes (p : System) : List (Request × Option (Except Exception Resp)) :=
  p.threads.map (fun t => (t.request, t.rest.outcome))

theorem System.outcomes_found {p : System} {i : Nat} {q : Request}
    {o : Option (Except Exception Resp)} (listed : p.outcomes[i]? = some (q, o)) :
    ∃ t, p.threads[i]? = some t ∧ t.request = q ∧ t.rest.outcome = o := by
  simp only [outcomes, List.getElem?_map, Option.map_eq_some_iff, Prod.mk.injEq] at listed
  exact listed

/-- The values of the configuration file that comes with the sources. -/
def HSConfig.shipped : HSConfig := ⟨["unix5.andrew.cmu.edu"], 9876, 2, by decide⟩

def World.shipped : World := .fresh ⟨[(1, 1), (2, 1)], by decide⟩ ["lv1", "lv2"]

def Charset.utf8 : Charset where
  getBytes s := s.toByteArray.data.toList
  decimal _ _ same := String.toByteArray_inj.mp (ByteArray.ext (Array.toList_inj.mp same))

/-- What Jedis makes of the bytes it receives. -/
def decodeUtf8 (b : Bytes) : String := (String.fromUTF8? ⟨b.toArray⟩).getD "\uFFFD"

theorem decodeUtf8_getBytes (s : String) : decodeUtf8 (Charset.utf8.getBytes s) = s := by
  have whole : String.fromUTF8? s.toByteArray = some s := by
    rw [String.fromUTF8?, dif_pos s.isValidUTF8]
    rfl
  simp only [decodeUtf8, Charset.utf8, Array.toArray_toList, whole, Option.getD_some]

/-- The backends after the start-up of the servers, whatever they hold by now. -/
structure World.Ready (n : Int32) (table : StoreInfo) (s : World) : Prop where
  photos : s.HasPhotos
  storeInfo : s.directory.storeInfo = some table
  covers : table.Covers n
  volumes : ∀ k : Int32, 1 ≤ k.toInt → k.toInt ≤ n.toInt → s.HasVolume (lv k)

structure World.Unused (charset : Charset) (pid : String) (s : World) : Prop where
  photo : s.photo pid = none
  redis : ∀ server, s.redis server pid = none
  image : ∀ table, s.image table pid = none
  cached : ∀ server, s.imageCache server (charset.getBytes pid) = none

theorem World.unused_fresh (charset : Charset) (table : StoreInfo) (volumes : List String)
    (pid : String) : (World.fresh table volumes).Unused charset pid := by
  refine ⟨rfl, fun _ => rfl, fun place => ?_, fun _ => rfl⟩
  by_cases created : place ∈ volumes <;> simp [World.image, World.fresh, created]

theorem World.unused_shipped (charset : Charset) (pid : String) :
    World.shipped.Unused charset pid :=
  World.unused_fresh charset _ _ pid

theorem World.ready_shipped : World.shipped.Ready 2 ⟨[(1, 1), (2, 1)], by decide⟩ := by
  have named : ∀ k : Int32, 1 ≤ k.toInt → k.toInt ≤ 2 → k = 1 ∨ k = 2 := by
    intro k lower upper
    simp only [← Int32.toInt_inj]
    change k.toInt = 1 ∨ k.toInt = 2
    omega
  refine ⟨rfl, rfl, ?_, ?_⟩
  · rintro ⟨k, v⟩
    constructor
    · intro member
      rcases List.mem_cons.mp member with first | rest
      · cases first
        decide
      · cases List.mem_singleton.mp rest
        decide
    · rintro ⟨⟨lower, upper⟩, rfl⟩
      rcases named k lower upper with rfl | rfl <;> decide
  · intro k lower upper
    rcases named k lower upper with rfl | rfl <;> decide

def readings : List Request → List Int64
  | [] => []
  | .upload _ (some _) t :: rs => t :: readings rs
  | _ :: rs => readings rs

theorem readings_append (xs ys : List Request) :
    readings (xs ++ ys) = readings xs ++ readings ys := by
  induction xs with
  | nil => rfl
  | cons r rs ih =>
    cases r with
    | upload server img t => cases img <;> simp [readings, ih]
    | webGet server pid => simp [readings, ih]
    | webDelete server pid => simp [readings, ih]
    | cacheGet server lvid pid => simp [readings, ih]
    | cacheDelete server pid => simp [readings, ih]

theorem mem_readings {rs : List Request} {server : Nat} {b : Bytes} {t : Int64}
    (member : .upload server (some b) t ∈ rs) : t ∈ readings rs := by
  obtain ⟨xs, ys, rfl⟩ := List.append_of_mem member
  simp [readings_append, readings]

def content (rs : List Request) (t : Int64) : Option Bytes :=
  rs.findSome? (fun r => match r with
    | .upload _ (some b) t' => if t' = t then some b else none
    | _ => none)

theorem content_mem {rs : List Request} {t : Int64} {b : Bytes} (found : content rs t = some b) :
    ∃ server, .upload server (some b) t ∈ rs := by
  obtain ⟨r, member, h⟩ := List.exists_of_findSome?_eq_some found
  split at h
  · rename_i server b' t'
    split at h
    · rename_i same
      cases same
      cases Option.some.inj h
      exact ⟨server, member⟩
    · contradiction
  · contradiction

theorem content_of_mem {rs : List Request} {server : Nat} {b : Bytes} {t : Int64}
    (distinct : (readings rs).Nodup) (member : .upload server (some b) t ∈ rs) :
    content rs t = some b := by
  induction rs with
  | nil => contradiction
  | cons r rs ih =>
    rcases List.mem_cons.mp member with rfl | later
    · simp [content]
    · have rest : (readings rs).Nodup := by
        cases r with
        | upload server img t' =>
          cases img with
          | none => exact distinct
          | some b' => exact (List.nodup_cons.mp distinct).2
        | webGet server pid => exact distinct
        | webDelete server pid => exact distinct
        | cacheGet server lvid pid => exact distinct
        | cacheDelete server pid => exact distinct
      have found := ih rest later
      unfold content at found ⊢
      rw [List.findSome?_cons]
      split
      · rename_i b' h
        split at h
        · rename_i server' b'' t'
          split at h
          · rename_i same
            subst same
            exact absurd (mem_readings later) (List.nodup_cons.mp distinct).1
          · contradiction
        · contradiction
      · exact found

end Haystack
