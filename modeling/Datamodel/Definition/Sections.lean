/-!
# The sections of a class besides its fields

The lifecycle, methods, indexes, relations, the menu entry, access profiles and branding. Flags and
rights are maps that keep the order in which their keys were first given.
-/

namespace Datamodel

/-- A map that keeps the order of its keys. -/
abbrev OrderedMap (α : Type) := List (String × α)

namespace OrderedMap

variable {α : Type}

/-- Sets a key: a known key keeps its place, a new one comes last. -/
def set (key : String) (value : α) : OrderedMap α → OrderedMap α
  | [] => [(key, value)]
  | (k, v) :: entries => if k = key then (k, value) :: entries else (k, v) :: set key value entries

def ofList (entries : List (String × α)) : OrderedMap α :=
  entries.foldl (fun map entry => set entry.1 entry.2 map) []

end OrderedMap

/-! ## Lifecycle -/

structure State where
  name : String
  flags : OrderedMap Bool := []
  /-- How objects in this state are highlighted. -/
  highlight : String := ""
  deriving DecidableEq, Repr

/-- A transition that a stimulus triggers. -/
structure Transition where
  stimulus : String
  /-- The name of the state it leads to. -/
  target : String
  /-- What is done on the way, in order. -/
  actions : List String := []
  deriving DecidableEq, Repr

/-- A state machine driven by one field. -/
structure Lifecycle where
  /-- The field that holds the state. -/
  driver : String := ""
  states : List State := []
  transitions : List Transition := []
  deriving DecidableEq, Repr

namespace Lifecycle

def isActive (lifecycle : Lifecycle) : Bool :=
  !lifecycle.driver.isEmpty

def declares (lifecycle : Lifecycle) (name : String) : Bool :=
  lifecycle.states.any (·.name == name)

end Lifecycle

/-! ## Methods, indexes and relations -/

inductive MethodKind where
  | overload
  | lifecycleAction
  | custom
  deriving DecidableEq, Repr

namespace MethodKind

def name : MethodKind → String
  | .overload => "Overload-DBObject"
  | .lifecycleAction => "LifecycleAction"
  | .custom => "Custom"

def ofName? : String → Option MethodKind
  | "Overload-DBObject" => some .overload
  | "LifecycleAction" => some .lifecycleAction
  | "Custom" => some .custom
  | _ => none

end MethodKind

/-- A method, its code not looked into. -/
structure Method where
  name : String
  kind : MethodKind := .overload
  code : String := ""
  deriving DecidableEq, Repr

/-- A database index over fields, in order. -/
structure Index where
  name : String
  fields : List String
  deriving DecidableEq, Repr

inductive RelationKind where
  | impacts
  | dependsOn
  deriving DecidableEq, Repr

namespace RelationKind

def name : RelationKind → String
  | .impacts => "impacts"
  | .dependsOn => "depends on"

def ofName? : String → Option RelationKind
  | "impacts" => some .impacts
  | "depends on" | "depends_on" => some .dependsOn
  | _ => none

end RelationKind

/-- An impact relation to a neighbour class. -/
structure Relation where
  kind : RelationKind := .impacts
  neighbour : String
  queryDown : String := ""
  queryUp : String := ""
  deriving DecidableEq, Repr

/-! ## Menu, access and branding -/

inductive MenuKind where
  /-- The entry lists what its query finds. -/
  | query
  | newObject
  | search
  deriving DecidableEq, Repr

namespace MenuKind

def name : MenuKind → String
  | .query => "OQLMenuNode"
  | .newObject => "NewObjectMenuNode"
  | .search => "SearchMenuNode"

def ofName? : String → Option MenuKind
  | "OQLMenuNode" => some .query
  | "NewObjectMenuNode" => some .newObject
  | "SearchMenuNode" => some .search
  | _ => none

end MenuKind

structure MenuEntry where
  kind : MenuKind := .query
  parent : String := ""
  rank : Int := 0
  /-- The query, which only the query kind uses. -/
  query : String := ""
  deriving DecidableEq, Repr

def MenuEntry.hasQuery (menu : MenuEntry) : Bool :=
  menu.kind == .query

inductive Right where
  | allow
  | deny
  deriving DecidableEq, Repr

namespace Right

def name : Right → String
  | .allow => "allow"
  | .deny => "deny"

def ofName? : String → Option Right
  | "allow" => some .allow
  | "deny" => some .deny
  | _ => none

def isAllowed (right : Right) : Bool :=
  right == .allow

end Right

/-- A profile with its rights on the class, by action. -/
structure Profile where
  name : String
  rights : OrderedMap Right := []
  deriving DecidableEq, Repr

structure Branding where
  logo : String := ""
  mainColor : String := ""
  complementaryColor : String := ""
  deriving DecidableEq, Repr

def Branding.isEmpty (branding : Branding) : Bool :=
  branding.logo.isEmpty && branding.mainColor.isEmpty && branding.complementaryColor.isEmpty

end Datamodel
