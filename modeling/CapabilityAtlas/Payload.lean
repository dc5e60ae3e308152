import CapabilityAtlas.Calendar.Stamp

set_option autoImplicit false
set_option relaxedAutoImplicit false

/-!
Raw attribute values, as the interface of the hypergraph delivers them: whole numbers of any size
beside binary ones, texts, lists, records in the order of their fields, and moments.
-/

namespace CapabilityAtlas

open CapabilityAtlas.Calendar

inductive Payload
  | null
  | bool (value : Bool)
  | int (value : Int)
  | float (value : Float)
  | text (value : String)
  | list (items : List Payload)
  | record (fields : List (String × Payload))
  | stamp (value : Stamp)

abbrev Fields := List (String × Payload)

namespace Payload

instance : Inhabited Payload := ⟨.null⟩

/-- Whether a value counts as given: not null, false, zero or empty. -/
def isGiven : Payload → Bool
  | .null => false
  | .bool b => b
  | .int n => n != 0
  | .float x => x != 0
  | .text s => s != ""
  | .list items => !items.isEmpty
  | .record fields => !fields.isEmpty
  | .stamp _ => true

def orElse (first second : Payload) : Payload := if first.isGiven then first else second

/-- The name of a kind of value, as failures report it. -/
def kindName : Payload → String
  | .null => "NoneType"
  | .bool _ => "bool"
  | .int _ => "int"
  | .float _ => "float"
  | .text _ => "str"
  | .list _ => "list"
  | .record _ => "dict"
  | .stamp _ => "datetime"

def isText (s : String) : Payload → Bool
  | .text t => t = s
  | _ => false

end Payload

namespace Fields

def get? : Fields → String → Option Payload
  | [], _ => none
  | (name, value) :: rest, field => if name = field then some value else get? rest field

def get (fields : Fields) (field : String) : Payload := (fields.get? field).getD .null

end Fields

end CapabilityAtlas
