import Haystack.Backend

/-! The web server: its configuration, its three handlers and the start-up of
the directory. A handler is the sequence of its backend calls. The clock reading
an upload makes is part of the request. -/
namespace Haystack

open Calls Cql Java

/-- The fields of the configuration file that the two servers compute with. The
addresses are a Java array, whose length is an int. -/
structure HSConfig where
  objectCacheAddresses : List String
  objectCachePort : Int32
  numLogicalVolumes : Int32
  bounded : objectCacheAddresses.length < 2 ^ 31

namespace WebServer

def dirSession : Session := .directory
def storeSession : Session := .store

def selectPhoto (pid : String) : String := "SELECT * FROM photo_info WHERE pid='" ++ pid ++ "'"

def photoPath (resCacheUrl : String) (resLvid : Int32) (resPid : String) : String :=
  "http://" ++ resCacheUrl ++ "/get?" ++ "lvid=" ++ toString resLvid ++ "&pid=" ++ resPid

def onCacheMiss (server : Nat) (pid : String) : Handler Resp := do
  let results ← dirSession.execute (selectPhoto pid) []
  match results.head? with
  | none => return .result 404 "PID does not exist."
  | some row =>
    let resPid ← Program.lift (row.getString "pid")
    let resCacheUrl ← Program.lift (row.getString "cache_url")
    let resLvid ← Program.lift (row.getInt "lvid")
    let resPath := photoPath resCacheUrl resLvid resPid
    jedisSet server pid resPath
    return .redirect resPath

def onGetImage (server : Nat) (pid : String) : Handler Resp :=
  if pid = "" then return .result 400 "Bad request: empty pid."
  else do
    let tmpUrl ← jedisGet server pid
    match tmpUrl with
    | some url => if (trim url).length ≠ 0 then return .redirect url else onCacheMiss server pid
    | none => onCacheMiss server pid

def proposedLvid (tmpPid : Int64) (numLogicalVolume : Int32) : Except Exception Int32 :=
  (remainder tmpPid numLogicalVolume.toInt64).map (fun r => r.toInt32 + 1)

/-- The loop over the writable volumes. It uses up the rows it looks at. -/
def scanVolumes (proposed : Int32) : List Row → Except Exception (Int32 × List Row)
  | [] => .ok (0, [])
  | row :: rows => do
    let lvid ← row.getInt "lvid"
    if lvid = proposed then .ok (proposed, rows) else scanVolumes proposed rows

/-- The proposed volume if the loop finds it. The fallback takes the next row
that the loop has left over, and there may be none. -/
def selectLvid (results : List Row) (tmpPid : Int64) (numLogicalVolume : Int32) :
    Except Exception Int32 := do
  let proposed ← proposedLvid tmpPid numLogicalVolume
  let (selectedLvid, rest) ← scanVolumes proposed results
  if selectedLvid = 0 then
    match rest.head? with
    | none => .error .nullPointer
    | some row => row.getInt "lvid"
  else .ok selectedLvid

def selectCacheUrl (config : HSConfig) (tmpPid : Int64) : Except Exception String := do
  let length := Int32.ofNat config.objectCacheAddresses.length
  let r ← remainder tmpPid length.toInt64
  let selectedCacheInx := r.toInt32
  if selectedCacheInx < 0 then .error .arrayIndex
  else match config.objectCacheAddresses[selectedCacheInx.toInt.toNat]? with
    | none => .error .arrayIndex
    | some address => .ok (address ++ ":" ++ toString config.objectCachePort)

def lvidQuery : String := "SELECT * FROM store_info WHERE status = 1 ALLOW FILTERING;"

def insertQuery : String := "INSERT INTO photo_info (pid, cache_url, lvid) VALUES (?, ?, ?);"

def insertImage (lvid : Int32) : String :=
  "INSERT INTO " ++ "lv" ++ toString lvid ++ " (pid, image) VALUES (:pid, :image);"

/-- The upload. Without a file no backend is called and the pid is empty. -/
def onPostImage (config : HSConfig) (upfile : Option Bytes) (tmpPid : Int64) : Handler Resp :=
  match upfile with
  | none => return .json 201 ""
  | some fileBytes => do
    let results ← dirSession.execute lvidQuery []
    let selectedLvid ← Program.lift (selectLvid results tmpPid config.numLogicalVolumes)
    let selectedCacheUrl ← Program.lift (selectCacheUrl config tmpPid)
    let _ ← dirSession.execute insertQuery
      [.text (toString tmpPid), .text selectedCacheUrl, .int selectedLvid]
    let ps ← storeSession.prepare (insertImage selectedLvid)
    let bound ← Program.lift (answerOr .illegalArgument
      ((ps.set "pid" (.text (toString tmpPid))).bind (Statement.set "image" (.blob fileBytes))))
    let _ ← storeSession.executeBound bound
    return .json 201 (toString tmpPid)

def searchQuery (pid : String) : String :=
  "SELECT pid, cache_url, lvid FROM photo_info WHERE pid = '" ++ pid ++ "';"

def delQuery (pid : String) : String := "DELETE FROM photo_info WHERE pid = '" ++ pid ++ "';"

def onDelete (server : Nat) (pid : String) : Handler Resp := do
  jedisDel server pid
  let r ← dirSession.execute (searchQuery pid) []
  match r.head? with
  | none => return .result 404 "No such image."
  | some row =>
    let resPid ← Program.lift (row.getString "pid")
    let _ ← dirSession.execute (delQuery resPid) []
    return .result 200 "Image deleted."

def updateQuery : String := "UPDATE store_info " ++ "SET status=? WHERE lvid=?;"

def markWritable (i : Int32) : Handler Unit := do
  let ps ← dirSession.prepare updateQuery
  let bound ← Program.lift (answerOr .illegalArgument (ps.bind [.int 1, .int i]))
  let _ ← dirSession.executeBound bound
  return ()

def createStoreInfoIfNotExist (config : HSConfig) : Handler Unit := do
  dirSession.createTableIfNotExists "store_info"
  forInt (fun i => i ≤ config.numLogicalVolumes) (fun i => i + 1) markWritable rounds 1

def createPhotoInfoIfNotExist : Handler Unit := dirSession.createTableIfNotExists "photo_info"

def initCassandraDirectory (config : HSConfig) : Handler Unit := do
  dirSession.createKeyspaceIfNotExists
  dirSession.use
  createStoreInfoIfNotExist config
  createPhotoInfoIfNotExist

/-- The start of a web server, as far as it touches the backends: the directory
is set up and the store's keyspace is connected to. -/
def main (config : HSConfig) : Handler Unit := do
  initCassandraDirectory config
  storeSession.use

end WebServer

end Haystack
