-- The registry: a folder with a table of machines, a table of tasks and the boot profiles.
import NetBoot.Registry.Table

namespace NetBoot

/-- A registry in a folder of a volume. -/
structure Registry where
  volume : Volume
  /-- The folder of the registry. -/
  home : Path
deriving DecidableEq, Repr

namespace Registry

def nodesPath (r : Registry) : Path := r.home ++ ["nodes.txt"]

def tasksPath (r : Registry) : Path := r.home ++ ["tasks.txt"]

def profilesPath (r : Registry) : Path := r.home ++ ["profiles"]

/-- The file name of a boot profile. -/
def profileFile (profile : String) : String := profile ++ ".ipxe"

/-- The result of a change, with the registry as the change leaves it, also where it fails. -/
abbrev Change (α : Type) := Registry × Except ServiceError α

/-! ## Reading -/

/-- The rows of the table at a path. A table that is missing is empty. -/
def readRows {α : Type} (r : Registry) (p : Path)
    (read : List Char → Except RowFault α) : Except ServiceError (List α) :=
  match r.volume.read p with
  | .ok content => readTable read content
  | .error .missing => .ok []
  | .error fault => .error (.storage fault)

def nodes (r : Registry) : Except ServiceError (List NodeRow) :=
  r.readRows r.nodesPath NodeRow.read

def tasks (r : Registry) : Except ServiceError (List TaskRow) :=
  r.readRows r.tasksPath TaskRow.read

def nodeByMac (r : Registry) (mac : String) : Except ServiceError Node := do
  let rows ← r.nodes
  match NodeRow.firstNode? (fun row => row.mac = registryMac mac) rows with
  | some node => return node
  | none => throw (.notFound (registryMac mac))

def nodeById (r : Registry) (id : NodeId) : Except ServiceError Node := do
  let rows ← r.nodes
  match NodeRow.firstNode? (fun row => row.id = id) rows with
  | some node => return node
  | none => throw (.notFound id)

/-- The profile that the first task of a machine asks for. -/
def activeProfile (r : Registry) (id : NodeId) : Except ServiceError String := do
  let rows ← r.tasks
  match rows.find? (fun row => row.id = id) with
  | some row => return row.profile
  | none => throw (.notFound s!"active task for {id}")

/-- Whether a boot profile is there. The name is taken as a path from the folder of profiles. -/
def hasProfile (r : Registry) (profile : String) : Bool :=
  r.volume.holds r.profilesPath (profileFile profile)

/-- The boot file that the task of a machine asks for, if its profile is there. -/
def bootProfile (r : Registry) (id : NodeId) : Except ServiceError String := do
  let profile ← r.activeProfile id
  if r.hasProfile profile then return profileFile profile
  else throw (.notFound s!"profile {profile}")

/-! ## Changing -/

/-- Makes the folder of the registry. -/
def ensureHome (r : Registry) : Change Unit :=
  match r.volume.makeFolder r.home with
  | .ok volume => ({ r with volume }, .ok ())
  | .error fault => (r, .error (.storage fault))

/-- The registry with this content in the table of machines. -/
def writeNodes (r : Registry) (content : Bytes) : Change Unit :=
  match r.volume.write r.nodesPath content with
  | .ok volume => ({ r with volume }, .ok ())
  | .error fault => (r, .error (.storage fault))

/-- The content of the table of machines, after making an empty one where there was none. -/
def openNodes (r : Registry) : Change Bytes :=
  match r.ensureHome with
  | (r, .error e) => (r, .error e)
  | (r, .ok ()) =>
    match r.volume.read r.nodesPath with
    | .ok content => (r, .ok content)
    | .error .missing =>
      match r.writeNodes [] with
      | (r, .ok ()) => (r, .ok [])
      | (r, .error e) => (r, .error e)
    | .error fault => (r, .error (.storage fault))

/-- Reads the table of machines, changes its rows and writes it back. Where reading or the change
fails, the table is left as it is. -/
def updateNodes (r : Registry)
    (change : List NodeRow → Except ServiceError (List NodeRow)) : Change Unit :=
  match r.openNodes with
  | (r, .error e) => (r, .error e)
  | (r, .ok content) =>
    match readNodeTable content >>= change with
    | .error e => (r, .error e)
    | .ok rows => r.writeNodes (writeNodeTable rows)

/-- Notes that a machine holds an address now. -/
def recordAddress (r : Registry) (now : Instant) (ip : Ipv4) (mac : String) : Change Unit :=
  r.updateNodes fun rows => .ok (NodeRow.announce (registryMac mac) ip now rows)

/-! ## As the services of a responder -/

/-- The answers of the registry to a boot decision. -/
def services (r : Registry) (now : Instant) : Services where
  nodeByMac := r.nodeByMac
  activeTask id := (r.activeProfile id).map fun _ => ()
  bootProfile := r.bootProfile
  nodeById := r.nodeById
  register ip mac := (r.recordAddress now ip mac).2.map fun _ => .recorded

end Registry

end NetBoot
