import Mathlib.Data.Rat.Defs
import SlithyTove.Framework.Checked

/-!
# Replies of the node as the desktop wallet reads them

The wallet client reads the node's replies through `System.Text.Json`.  A `JsonElement` keeps what
the client can see of a value: the text of a number and what the number parsers make of it, and the
raw text of an array or object.  `TryGetProperty` takes the last property of a name and throws on
what is not an object; `ReadString` of `WalletRpcClient` gives a default for a property that is
missing.
-/

namespace SlithyTove

open Framework

/-! ## Exceptions -/

/-- The exceptions of the client. -/
inductive ClientException
  | argument (message : String)
  | argumentOutOfRange (name : String)
  | invalidOperation (message : String)
  | recoveryWindowExceeded (message : String)
  | keyNotFound (name : String)
  | format
  | indexOutOfRange
  | overflow
  /-- A call that failed, with the message of the failure. -/
  | rpc (message : String)

/-! ## Values -/

/-- A JSON value. -/
inductive JsonElement
  | null
  | bool (value : Bool)
  | number (raw : String) (int64 : Option ℤ) (decimal : Option ℚ)
  | string (value : String)
  | array (raw : String) (items : List JsonElement)
  | object (raw : String) (properties : List (String × JsonElement))

namespace JsonElement

/-- What the accessors throw on a value of another kind. -/
def wrongKind : ClientException :=
  .invalidOperation "The requested operation requires another kind."

/-- `ToString()`. -/
def toText : JsonElement → String
  | null => ""
  | bool true => "True"
  | bool false => "False"
  | number raw _ _ => raw
  | string value => value
  | array raw _ => raw
  | object raw _ => raw

/-- `TryGetProperty`. -/
def tryGetProperty (root : JsonElement) (name : String) :
    Except ClientException (Option JsonElement) :=
  match root with
  | object _ properties => .ok ((properties.reverse.find? fun p => p.1 = name).map Prod.snd)
  | _ => .error wrongKind

/-- `GetProperty`. -/
def getProperty (root : JsonElement) (name : String) : Except ClientException JsonElement := do
  match ← root.tryGetProperty name with
  | some value => return value
  | none => .error (.keyNotFound name)

/-- `GetString()`; the null value gives a null string. -/
def getString : JsonElement → Except ClientException (Option String)
  | string value => .ok (some value)
  | null => .ok none
  | _ => .error wrongKind

/-- `GetInt64()`. -/
def getInt64 : JsonElement → Except ClientException ℤ
  | number _ (some value) _ => .ok value
  | number _ none _ => .error .format
  | _ => .error wrongKind

/-- `ValueKind == JsonValueKind.True`. -/
def isTrue : JsonElement → Bool
  | bool value => value
  | _ => false

end JsonElement

/-! ## The helpers of `WalletRpcClient` -/

/-- A property read by `read`, or the default if it is missing. -/
def readOr {α : Type} (default : α) (read : JsonElement → Except ClientException α)
    (root : JsonElement) (name : String) : Except ClientException α := do
  match ← root.tryGetProperty name with
  | some value => read value
  | none => return default

/-- `ReadString`. -/
def readString : JsonElement → String → Except ClientException String :=
  readOr "" fun value => .ok value.toText

end SlithyTove
