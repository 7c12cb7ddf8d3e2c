-- The boot decision: three stages that each ask the services one thing, and the shorter check
-- whether a client should be sent a boot file at all.
import NetBoot.Boot.Rules
import NetBoot.Boot.Services

namespace NetBoot

/-- How a decision ends. -/
inductive Resolution where
  /-- The machine is unknown or not catalogued, and boots to be catalogued. -/
  | discover
  | defaultFile
  | customFile (name : String)
  | ignore
deriving DecidableEq, Repr

/-- The boot file that a resolution sends, if it sends one. -/
def Resolution.bootFile? (rules : BootRules) (m : Message) : Resolution → Option String
  | discover | defaultFile => rules.bootFile? m
  | customFile name => some name
  | ignore => none

/-- What the stages of one decision hand on. -/
structure Context where
  node : Option NodeId := none
  /-- Whether the machine was found to be catalogued. -/
  discovered : Bool := false
deriving DecidableEq, Repr

inductive Stage where
  | resolveNode
  | knownNode
  | taskFile
deriving DecidableEq, Repr

/-- A stage hands a machine on to the next stage, or ends the decision. -/
inductive StageOutcome where
  | next (node : NodeId)
  | done (resolution : Resolution)
deriving DecidableEq, Repr

namespace Stage

/-- The order of the stages. -/
def order : List Stage := [resolveNode, knownNode, taskFile]

/-- Looks the machine up. One that is not known is discovered like one that is not catalogued,
and with any other failure the client is ignored. -/
def runResolveNode (s : Services) (mac : String) (c : Context) : Asked (Context × StageOutcome) := do
  match ← s.askNodeByMac mac with
  | .ok node =>
    if node.discovered then return ({ c with discovered := true }, .next node.id)
    else return (c, .done .discover)
  | .error e => return (c, .done (if e.isNotFound then .discover else .ignore))

/-- Goes on with a machine that has an active task or a boot profile of its own. A failing task
service counts as no task. -/
def runKnownNode (s : Services) (c : Context) : Asked StageOutcome := do
  match c.node with
  | none => return .done .ignore
  | some id =>
    if !c.discovered then return .done .discover
    match ← s.askActiveTask id with
    | .ok () => return .next id
    | .error _ =>
      match ← s.askNodeById id with
      | .ok node => return if node.profile.isSome then .next id else .done .ignore
      | .error _ => return .done .ignore

/-- Asks for the boot file of the task. -/
def runTaskFile (s : Services) (c : Context) : Asked StageOutcome := do
  match c.node with
  | none => return .done .defaultFile
  | some id =>
    match ← s.askBootProfile id with
    | .ok name => return .done (.customFile name)
    | .error _ => return .done .defaultFile

/-- Runs one stage for the client with this hardware address. The machine that it hands on is not
put into the context yet. -/
def run (s : Services) (mac : String) (c : Context) : Stage → Asked (Context × StageOutcome)
  | resolveNode => runResolveNode s mac c
  | knownNode => do return (c, ← runKnownNode s c)
  | taskFile => do return (c, ← runTaskFile s c)

end Stage

namespace Decision

/-- Runs stages until one ends the decision. If none does, the client is ignored. -/
def runStages (s : Services) (mac : String) (c : Context) :
    List Stage → Asked (Context × Resolution)
  | [] => pure (c, .ignore)
  | stage :: rest => do
    match ← stage.run s mac c with
    | (c, .next id) => runStages s mac { c with node := some id } rest
    | (c, .done resolution) => return (c, resolution)

/-- Runs all stages. -/
def run (s : Services) (mac : String) (c : Context) : Asked (Context × Resolution) :=
  runStages s mac c Stage.order

/-- Whether a client should be sent a boot file at all. A catalogued machine should, if it has a
task with a boot file, or no task but a boot profile of its own. -/
def isWarranted (s : Services) (mac : String) : Asked Bool := do
  match ← s.askNodeByMac mac with
  | .error e => return e.isNotFound
  | .ok node =>
    if !node.discovered then return true
    match ← s.askActiveTask node.id with
    | .ok () =>
      match ← s.askBootProfile node.id with
      | .ok _ => return true
      | .error _ => return false
    | .error _ => return node.profile.isSome

end Decision

end NetBoot
