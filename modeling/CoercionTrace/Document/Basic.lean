/-!
# Documents

The values of the data format in which settings are kept: what an accepted text holds, with the
fields of objects in the order of the text.
-/

namespace CoercionTrace

inductive Document
  | null
  | bool (b : Bool)
  | number (literal : String)
  | string (text : Option String)
  | array (elements : List Document)
  | object (fields : List (Option String × Document))
  deriving Inhabited

end CoercionTrace
