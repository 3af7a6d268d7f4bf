import Haystack.WebServer

/-! The cache server: its two handlers and the start-up of the store. -/
namespace Haystack

open Calls Cql Java

/-- What String.getBytes does with the platform's charset. Nothing is known of it
but that no other string has the bytes of the decimal rendering of a long. -/
structure Charset where
  getBytes : String → Bytes
  decimal : ∀ (s : String) (n : Int64), getBytes s = getBytes (toString n) → s = toString n

namespace CacheServer

def session : Session := .store

def selectImage (lvid : String) : String := "SELECT * FROM lv" ++ lvid ++ " WHERE pid= " ++ ":pid"

def get (charset : Charset) (server : Nat) (lvid pid : String) : Handler Resp :=
  if lvid = "" ∨ pid = "" then return .result 400 "error"
  else do
    let imageString ← binaryGet server (charset.getBytes pid)
    match imageString with
    | some image => return .image pid image
    | none =>
      let ps ← session.prepare (selectImage lvid)
      let bound ← Program.lift (answerOr .illegalArgument (ps.set "pid" (.text pid)))
      let results ← session.executeBound bound
      match results.head? with
      | none => return .status 404
      | some row =>
        let imageBuffer ← Program.lift (row.getBytes "image")
        binarySet server (charset.getBytes pid) imageBuffer
        return .image pid imageBuffer

def searchPhoto (pid : String) : String :=
  "SELECT pid, cache_url, lvid FROM photo WHERE pid = '" ++ pid ++ "'"

def deletePhoto (pid : String) : String := "DELETE FROM photo WHERE pid = '" ++ pid ++ "'"

/-- The handler of /delete. All iterators of a result set use up the same rows:
the test looks at one row and the deletion takes the next. -/
def delete (charset : Charset) (server : Nat) (pid : String) : Handler Resp := do
  binaryDel server (charset.getBytes pid)
  let r ← session.execute (searchPhoto pid) []
  match r with
  | [] => return .plain "no such photo!"
  | _ :: rest =>
    match rest.head? with
    | none => .throw .nullPointer
    | some row =>
      let resPid ← Program.lift (row.getString "pid")
      let _ ← session.execute (deletePhoto resPid) []
      return .plain "delete the photo"

def createLogicalVolumeIfNotExist (name : String) : Handler Unit :=
  session.createTableIfNotExists name

def initCassandraStores (numLogicalVolumes : Int32) : Handler Unit := do
  session.createKeyspaceIfNotExists
  session.use
  forInt (fun i => 0 < i) (fun i => i - 1)
    (fun i => createLogicalVolumeIfNotExist ("lv" ++ toString i)) rounds numLogicalVolumes

end CacheServer

end Haystack
