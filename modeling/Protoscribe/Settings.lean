import Protoscribe.Text.Segments

set_option autoImplicit false

/-! # Settings

The settings come in one text of tokens `key=value` between commas. A later token for a key
replaces an earlier one. Tokens with an unknown key, a missing value or an unknown style change
nothing, so a text never fails to be read.
-/

namespace Protoscribe

/-- How service clients are written. -/
inductive Style where
  /-- Calls take a callback. -/
  | callback
  /-- Calls with a single request and a single response give a promise. -/
  | promise
  deriving DecidableEq, Repr

namespace Style

/-- The style with a given name, or the text that says there is none. -/
def ofName (name : String) : Except String Style :=
  if name = "grpc-js" then .ok .callback
  else if name = "async" then .ok .promise
  else .error ("unknown style `" ++ name ++ "`")

end Style

/-- The settings of a run. -/
structure Settings where
  /-- Whether clients give promises whatever the style is. -/
  unaryPromise : Bool
  /-- The module that the call runtime is imported from. -/
  callPackage : String
  style : Style
  deriving DecidableEq, Repr

namespace Settings

/-- The settings when nothing is said about them. -/
def standard : Settings := ⟨false, "@grpc/grpc-js", .callback⟩

/-- The settings after a token with a key and, when it has an equals sign, a value. -/
def set (settings : Settings) (key : String) (value : Option String) : Settings :=
  if key = "unary_rpc_promise" then { settings with unaryPromise := value ≠ some "false" }
  else if key = "grpc_package" then
    { settings with callPackage := value.getD settings.callPackage }
  else if key = "style" then
    match value.map Style.ofName with
    | some (.ok style) => { settings with style := style }
    | _ => settings
  else settings

/-- The settings after one token; only its first equals sign separates. -/
def apply (settings : Settings) (token : String) : Settings :=
  let (key, value) := Text.cutFirst '=' token
  settings.set key value

/-- The settings that a text of tokens gives. -/
def ofText (text : String) : Settings :=
  (Text.segments ',' text).foldl apply standard

/-- Whether a call with a single request and a single response gives a promise. -/
def givesPromises (settings : Settings) : Bool :=
  settings.unaryPromise || settings.style = .promise

end Settings

end Protoscribe
