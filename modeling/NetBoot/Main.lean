-- The server program: it takes packets from the network, answers them by the registry that its
-- data folder holds, and follows the lease file in the background. All it decides is in the
-- library.
import NetBoot.CommandLine
import NetBoot.Registry.Session
import Std.Async.UDP
import Std.Sync.Mutex
import Std.Time.DateTime

namespace NetBoot.Server

open Std.Async.UDP Std.Net

/-! ## Files -/

def faultOf : IO.Error → FileFault
  | .noFileOrDirectory .. => .missing
  | .inappropriateType .. => .isFolder
  | e => .other (toString e)

def readFile (path : String) : IO (Except FileFault Bytes) := do
  try return .ok (← IO.FS.readBinFile path).toList
  catch e => return .error (faultOf e)

def pathText (p : Path) : String := String.join (p.map fun name => "/" ++ name)

/-- The names on the way to a folder that is written as text. -/
def pathOfText (text : String) : IO Path := do
  let here ← IO.currentDir
  let whole := if text.startsWith "/" then text else s!"{here}/{text}"
  return (Volume.steps whole).filter fun step => step ≠ "" ∧ step ≠ "."

def isFolder (p : Path) : IO Bool := do
  try (← IO.FS.realPath (pathText p)).isDir
  catch _ => return false

/-- The volume with the files and folders of a folder that is there, by their names alone. -/
partial def addNames (v : Volume) (folder : Path) : IO Volume := do
  try
    let mut v := v.put folder .folder
    for entry in ← (← IO.FS.realPath (pathText folder)).readDir do
      let p := folder ++ [entry.fileName]
      v ← if ← entry.path.isDir then addNames v p else pure (v.put p (.file []))
    return v
  catch _ => return v

/-- The registry that stands in a folder. -/
def loadRegistry (home : Path) : IO Registry := do
  let empty : Registry := ⟨Volume.empty, home⟩
  let mut v := empty.volume
  for folder in Volume.leading [] home do
    if ← isFolder folder then v := v.put folder .folder
  v ← addNames v empty.profilesPath
  for table in [empty.nodesPath, empty.tasksPath] do
    match ← readFile (pathText table) with
    | .ok content => v := v.put table (.file content)
    | .error .isFolder => v := v.put table .folder
    | .error _ => pure ()
  return ⟨v, home⟩

/-- Writes the table of machines back where it has changed. -/
def saveRegistry (before after : Registry) : IO Unit := do
  match after.volume.get after.nodesPath with
  | some (.file content) =>
    if before.volume.get before.nodesPath ≠ some (.file content) then
      IO.FS.createDirAll (pathText after.home)
      IO.FS.writeBinFile (pathText after.nodesPath) ⟨content.toArray⟩
  | _ => pure ()

def now : IO Instant := do
  let t := (← Std.Time.Timestamp.now).val
  return ⟨t.second.val, t.nano.val.toNat⟩

/-! ## Settings -/

def loadSettings (path : Option String) : IO (Except SettingsError Settings) := do
  let names := Settings.pathVariable :: Setting.all.map Setting.envName
  let values ← names.mapM fun name => do return (name, ← IO.getEnv name)
  let env (name : String) : Option String := (values.lookup name).join
  let paths := (path.or (env Settings.pathVariable)).toList ++ [Settings.defaultPath]
  let contents ← paths.mapM fun path => do return (path, ← readFile path)
  return Settings.load (fun path => (contents.lookup path).getD (.error .missing)) path env

/-! ## The network -/

def addressOf (ip : Ipv4) (port : UInt16) : SocketAddress :=
  .v4 ⟨IPv4Addr.ofParts ip.a ip.b ip.c ip.d, port⟩

/-- The longest packet that is taken from the network. -/
def receiveLimit : UInt64 := 1500

/-- Answers packets for ever. Only one packet or lease file is worked on at a time. -/
partial def serve (c : Settings) (home : Path) (guard : Std.Mutex Unit) (socket : Socket) :
    IO Unit := do
  let (packet, _) ← (socket.recv receiveLimit).block
  let response ← guard.atomically do
    let before ← loadRegistry home
    let (after, response) := before.respond (.ofSettings c) (← now) packet.toList
    saveRegistry before after
    return response
  match response.reply with
  | none => pure ()
  | some ack =>
    let port := ReplyPorts.port ⟨c.outPort, c.efiOutPort⟩ ack
    try (socket.send ⟨ack.packet.toArray⟩ (some (addressOf ack.destination port))).block
    catch e => IO.eprintln s!"Failed to send reply: {e}"
  serve c home guard socket

/-- Follows the lease file for ever. -/
partial def follow (c : Settings) (home : Path) (guard : Std.Mutex Unit) (tail : LeaseTail) :
    IO Unit := do
  let source : LeaseSource := (match ← readFile c.leaseFile with
    | .ok content => .content content
    | .error .missing => .missing
    | .error .isFolder => .folder folderLength
    | .error fault => .closed fault)
  let tail ← guard.atomically do
    let before ← loadRegistry home
    let (after, tail, _) := before.followLeases tail source (← now)
    saveRegistry before after
    return tail
  IO.sleep (UInt32.ofNat (min (c.leasePollSeconds.toNat * 1000) (UInt32.size - 1)))
  follow c home guard tail

def start (line : CommandLine) (c : Settings) : IO Unit := do
  let home ← pathOfText c.dataFolder
  IO.FS.createDirAll (pathText home)
  let socket ← Socket.mk
  socket.bind (addressOf c.bindAddress c.bindPort)
  let guard ← Std.Mutex.new ()
  if line.followLeases then
    let _ ← IO.asTask (follow c home guard {})
  serve c home guard socket

end NetBoot.Server

open NetBoot in
def main (arguments : List String) : IO UInt32 := do
  match CommandLine.read arguments with
  | .error fault =>
    IO.eprintln s!"error: {fault.message}"
    return 2
  | .ok line =>
    if line.help then
      IO.println CommandLine.usage
      return 0
    match ← Server.loadSettings line.settingsPath with
    | .error e =>
      IO.eprintln s!"Failed to load configuration: {e.message}"
      return 1
    | .ok c =>
      Server.start line c
      return 0
