import Protoscribe.Wire.Request
import Protoscribe.Wire.Response

set_option autoImplicit false

/-! # The command line

The program reads a request from its input and writes the response to its output. Failures to
generate code are part of the response; only bytes that are no request end the program with an
error.
-/

namespace Protoscribe

/-- How a run of the program ends. -/
structure Run where
  exitCode : Nat
  output : ByteArray
  errorText : String

namespace Run

/-- The text written for bytes that are no request. -/
def faultText (fault : Wire.Fault) : String := "Error: DecodeError(\"" ++ fault.text ++ "\")\n"

/-- The run on some input. -/
def onInput (input : ByteArray) : Run :=
  match Request.ofBytes input with
  | .ok request => ⟨0, request.respond.toBytes, ""⟩
  | .error fault => ⟨1, ByteArray.empty, faultText fault⟩

end Run

end Protoscribe
