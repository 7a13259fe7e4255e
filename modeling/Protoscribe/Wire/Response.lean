import Protoscribe.Request

set_option autoImplicit false

/-! # Responses as bytes

The error text comes first when there is one, then the features, then the files.
-/

namespace Protoscribe

namespace Wire

/-- The bytes of a number, seven bits a byte and the low ones first; every byte but the last has
its high bit set. -/
def varintBytes (n : Nat) : List UInt8 :=
  if n < 128 then [UInt8.ofNat n] else UInt8.ofNat (n % 128 + 128) :: varintBytes (n / 128)
termination_by n
decreasing_by omega

/-- A number as the value of a field. -/
def numberField (field n : Nat) : ByteArray :=
  ⟨(varintBytes (8 * field) ++ varintBytes n).toArray⟩

/-- Bytes as the value of a field, with their length before them. -/
def delimitedField (field : Nat) (content : ByteArray) : ByteArray :=
  ⟨(varintBytes (8 * field + 2) ++ varintBytes content.size).toArray⟩ ++ content

/-- A text as the value of a field. -/
def textField (field : Nat) (text : String) : ByteArray := delimitedField field text.toUTF8

/-- The bytes of a generated file. -/
def fileBytes (file : GeneratedFile) : ByteArray :=
  textField 1 file.name ++ textField 15 file.content

end Wire

/-- The bytes of a response. -/
def Response.toBytes (response : Response) : ByteArray :=
  let error := match response.error with
    | none => ByteArray.empty
    | some text => Wire.textField 1 text
  response.files.foldl (fun bytes file => bytes ++ Wire.delimitedField 15 (Wire.fileBytes file))
    (error ++ Wire.numberField 2 response.features)

end Protoscribe
