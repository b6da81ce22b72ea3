/-!
# Class properties

The eight properties of a class. Each is written under a tag of its own, in a fixed order, and a
property with an empty value is left out.
-/

namespace Datamodel

def boolText (value : Bool) : String :=
  if value then "true" else "false"

structure Properties where
  /-- The categories, separated by commas. -/
  category : String := "bizmodel,searchable"
  isAbstract : Bool := false
  /-- How keys are made. -/
  keyType : String := "autoincrement"
  table : String := ""
  keyColumn : String := "id"
  /-- The column that tells the final class. -/
  finalClassColumn : String := "finalclass"
  /-- Whether the class links two others. -/
  isLink : Bool := false
  /-- How instances are named. -/
  namingFormat : String := ""
  deriving DecidableEq, Repr

namespace Properties

/-- Every property's tag and value, in the order in which they are written. -/
def entries (properties : Properties) : List (String × String) :=
  [("category", properties.category),
    ("abstract", boolText properties.isAbstract),
    ("key_type", properties.keyType),
    ("db_table", properties.table),
    ("db_key_field", properties.keyColumn),
    ("db_final_class_field", properties.finalClassColumn),
    ("is_link", boolText properties.isLink),
    ("naming_format", properties.namingFormat)]

def nonEmpty (properties : Properties) : List (String × String) :=
  properties.entries.filter fun entry => !entry.2.isEmpty

end Properties

end Datamodel
