/-
JavaScript values as a store sees them: JSON values, `undefined`, and the two kinds of binary
content, a plain `Uint8Array` and a Node `Buffer`. Numbers are integers; an object is its own
enumerable string-keyed properties in order.
-/
import StreetJS.Workflow.Types

namespace StreetJS.Workflow

inductive Value where
  | undefined
  | null
  | bool (b : Bool)
  | num (n : Int)
  | str (s : String)
  | arr (items : List Value)
  | obj (fields : List (String × Value))
  | bytes (content : List UInt8)
  | buffer (content : List UInt8)
deriving Repr

def Value.isUndefined : Value → Bool
  | .undefined => true
  | _ => false

instance : JsValue Value where
  undefined := .undefined
  isUndefined := Value.isUndefined
  isUndefined_iff v := by cases v <;> simp [Value.isUndefined]
  string := .str
  array := .arr
  object := .obj

end StreetJS.Workflow
