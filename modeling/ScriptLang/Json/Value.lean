import ScriptLang.Double.Text

namespace ScriptLang

inductive JsonValue where
  | null
  | bool (value : Bool)
  | integer (value : Int)
  | number (value : Double)
  | string (value : String)
  | array (items : List JsonValue)
  | object (fields : List (String × JsonValue))

end ScriptLang
