import LibKit.KitBaseEncode.Model
import LibKit.SxeHex.Model
import LibKit.Support.CString

namespace LibKit
namespace KitId

open SxeHex (Stop)

/-!
# `kit-guid.c` and `kit-deviceid.c`

Both identifiers are printed as hexadecimal digits and read back, by different
conversions.  An identifier is the list of its bytes; that a buffer has room for
the text and its NUL is an assertion that is left out of release builds.
-/

/-! ## `kit-guid.c` -/

/-- `KIT_GUID_SIZE` -/
def guidSize : Nat := 16

/-- `KIT_GUID_STR_LEN` -/
def guidStrLen : Nat := 32

/-- `kit_guid_nil` -/
def guidNil : List UInt8 := List.replicate guidSize 0

/-- `kit_guid_to_buf`, with the nil identifier in place of a null pointer. -/
def guidToBuf (guid : Option (List UInt8)) (buf : List UInt8) : Except Stop (List UInt8) :=
  SxeHex.fromBytes buf (guid.getD guidNil) (UInt32.ofNat guidSize)

/-- `kit_guid_from_str`, which drops what the conversion returns. -/
def guidFromStr (guid strHex : List UInt8) : Except Stop (List UInt8) :=
  match CString.strlen strHex with
  | none => .error .undefined
  | some length =>
      if length ≠ guidStrLen then .ok guidNil
      else do
        let converted ← SxeHex.toBytes guid strHex (UInt32.ofNat guidStrLen)
        .ok converted.2

/-! ## `kit-deviceid.c` -/

/-- `KIT_DEVICEID_SIZE` -/
def deviceidSize : Nat := 8

/-- `KIT_DEVICEID_STR_LEN` -/
def deviceidStrLen : Nat := 2 * deviceidSize

/-- `kit_deviceid_nil` -/
def deviceidNil : List UInt8 := List.replicate deviceidSize 0

/-- `kit_deviceid_to_buf`, with the nil identifier in place of a null pointer. -/
def deviceidToBuf (deviceid : Option (List UInt8)) (buf : List UInt8) : List UInt8 :=
  (KitBaseEncode.bin2hex buf (deviceid.getD deviceidNil) .lower).1

/-- `kit_deviceid_from_str`, which drops what the conversion returns. -/
def deviceidFromStr (deviceid strHex : List UInt8) : Except Stop (List UInt8) :=
  match CString.strlen strHex with
  | none => .error .undefined
  | some length =>
      if length ≠ deviceidStrLen then .ok deviceidNil
      else .ok (KitBaseEncode.hex2bin deviceid (strHex.take deviceidStrLen)).1

end KitId
end LibKit
