-- The services that a boot decision consults, as their answers, and the record of the questions
-- that it asks them.
import NetBoot.Net.Ipv4
import NetBoot.Storage.Volume

namespace NetBoot

/-- Why a service gives no answer. -/
inductive ServiceError where
  | notFound (what : String)
  | unavailable (cause : String)
  | corrupt (cause : String)
  | storage (fault : FileFault)
deriving DecidableEq, Repr

namespace ServiceError

def message : ServiceError → String
  | notFound what => s!"not found: {what}"
  | unavailable cause => s!"service unavailable: {cause}"
  | corrupt cause => s!"corrupt record: {cause}"
  | storage fault => s!"IO error: {fault.message}"

def isNotFound : ServiceError → Bool
  | notFound _ => true
  | _ => false

end ServiceError

/-- The identifier of a machine that the services know. -/
abbrev NodeId := String

/-- A machine as the services know it. -/
structure Node where
  id : NodeId
  /-- Whether the machine has been catalogued. -/
  discovered : Bool
  /-- The boot profile kept for the machine, if there is one. -/
  profile : Option String
deriving DecidableEq, Repr

/-- The news that a machine has an address. -/
structure Announcement where
  address : Ipv4
  mac : String
deriving DecidableEq, Repr

/-- The answer to an announcement. -/
inductive Registration where
  | recorded
  /-- The client must not be answered. -/
  | suppressed
deriving DecidableEq, Repr

/-- A question that a decision asks. -/
inductive Query where
  | nodeByMac (mac : String)
  | activeTask (id : NodeId)
  | bootProfile (id : NodeId)
  | nodeById (id : NodeId)
deriving DecidableEq, Repr

/-- What the services answer, question by question. -/
structure Services where
  nodeByMac : String → Except ServiceError Node
  /-- Succeeds where the machine has an active task. -/
  activeTask : NodeId → Except ServiceError Unit
  /-- The boot file that the active task asks for. -/
  bootProfile : NodeId → Except ServiceError String
  nodeById : NodeId → Except ServiceError Node
  register : Ipv4 → String → Except ServiceError Registration

/-- A value together with the questions that were asked for it, in order. -/
structure Asked (α : Type) where
  value : α
  queries : List Query
deriving DecidableEq, Repr

namespace Asked

/-- Asks one question. -/
def ask {α : Type} (q : Query) (answer : α) : Asked α := ⟨answer, [q]⟩

instance : Monad Asked where
  pure a := ⟨a, []⟩
  bind x f :=
    let y := f x.value
    ⟨y.value, x.queries ++ y.queries⟩

@[simp] theorem value_pure {α : Type} (a : α) : (pure a : Asked α).value = a := rfl

@[simp] theorem queries_pure {α : Type} (a : α) : (pure a : Asked α).queries = [] := rfl

@[simp] theorem value_bind {α β : Type} (x : Asked α) (f : α → Asked β) :
    (x >>= f).value = (f x.value).value := rfl

@[simp] theorem queries_bind {α β : Type} (x : Asked α) (f : α → Asked β) :
    (x >>= f).queries = x.queries ++ (f x.value).queries := rfl

@[simp] theorem value_ask {α : Type} (q : Query) (answer : α) : (ask q answer).value = answer := rfl

@[simp] theorem queries_ask {α : Type} (q : Query) (answer : α) :
    (ask q answer).queries = [q] := rfl

end Asked

namespace Services

def askNodeByMac (s : Services) (mac : String) : Asked (Except ServiceError Node) :=
  .ask (.nodeByMac mac) (s.nodeByMac mac)

def askActiveTask (s : Services) (id : NodeId) : Asked (Except ServiceError Unit) :=
  .ask (.activeTask id) (s.activeTask id)

def askBootProfile (s : Services) (id : NodeId) : Asked (Except ServiceError String) :=
  .ask (.bootProfile id) (s.bootProfile id)

def askNodeById (s : Services) (id : NodeId) : Asked (Except ServiceError Node) :=
  .ask (.nodeById id) (s.nodeById id)

end Services

end NetBoot
