import NodeScript.Leaf.Basic

/-! Events to the server and to players. None is sent; the log records what would be. -/

namespace NodeScript

/-- Stands for all players. -/
def broadcastTarget : Value := .int (-1)

namespace Event

/-- Arguments in serial form. -/
def argumentsText (h : Heap) (room : Nat) (args : List Value) : Except Fault String :=
  (Tree.list (args.map h.tree)).jsonOrDisplay room

/-- What the log says of an event to the server. -/
def toServer (h : Heap) (room : Nat) (name : String) (args : List Value) :
    Except Fault Record := do
  let shown ← argumentsText h room args
  return [("action", .text "simulateTriggerServerEvent"), ("event_name", .text name),
    ("args", .list args),
    ("log", .text s!"[SIMULATE] TriggerServerEvent: '{name}' Args: {shown}")]

/-- What the log says of an event to players. -/
def toClient (h : Heap) (room : Nat) (name : String) (target : Value) (args : List Value) :
    Except Fault Record := do
  let shownTarget ← h.jsonOrDisplay room target
  let shown ← argumentsText h room args
  return [("action", .text "simulateTriggerClientEvent"), ("event_name", .text name),
    ("target", .value target), ("args", .list args),
    ("log", .text
      s!"[SIMULATE] TriggerClientEvent: '{name}' Target: {shownTarget} Args: {shown}")]

end Event

structure ServerEvent where
  eventName : Option String
  arguments : List Source

namespace ServerEvent

def decoder (h : Heap) : Decoder ServerEvent :=
  ServerEvent.mk
    <$> .textOrNil ⟨"eventName", "event_name"⟩
    <*> .sources h ⟨"argumentSources", "argument_sources"⟩

def eval (c : ServerEvent) (scope : Scope) : Eval Effect :=
  match givenName? c.eventName with
  | none => return .refusal scope "triggerServerEvent" "Event name is missing"
  | some name => do
    let args ← Source.resolveAll scope c.arguments
    return { entry := some (← Eval.ask fun h room => Event.toServer h room name args) }

end ServerEvent

structure ClientEvent where
  eventName : Option String
  arguments : List Source
  targetPlayer : Value
  useVariable : Bool

namespace ClientEvent

def decoder (h : Heap) : Decoder ClientEvent :=
  ClientEvent.mk
    <$> .textOrNil ⟨"eventName", "event_name"⟩
    <*> .sources h ⟨"argumentSources", "argument_sources"⟩
    <*> .any ⟨"targetPlayer", "target_player"⟩ broadcastTarget
    <*> .flag ⟨"useVariableForTarget", "use_variable_for_target"⟩

/-- A list of players stays as it is; what is no finite number means all players. -/
def target (c : ClientEvent) (scope : Scope) (h : Heap) : Except Fault Value :=
  let given :=
    match c.useVariable, c.targetPlayer with
    | true, .text name => scope.get name broadcastTarget
    | _, v => v
  if (h.array? given).isSome then .ok given
  else
    match given.toNumber? with
    | none => .ok broadcastTarget
    | some n => do
      if ← n.isFinite then return .ofOption (n.truncate?.map .int) else return broadcastTarget

def eval (c : ClientEvent) (scope : Scope) : Eval Effect :=
  match givenName? c.eventName with
  | none => return .refusal scope "triggerClientEvent" "Event name is missing"
  | some name => do
    let args ← Source.resolveAll scope c.arguments
    let target ← Eval.ask fun h _ => c.target scope h
    return { entry := some (← Eval.ask fun h room => Event.toClient h room name target args) }

end ClientEvent

end NodeScript
