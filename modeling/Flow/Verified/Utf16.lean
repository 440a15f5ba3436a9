/-!
# Texts of 16-bit units

The web's strings are sequences of UTF-16 units: lengths, slices and character codes count
units, and a character beyond the first 65,536 has two of them.
-/

namespace Flow.Verified.Utf16

abbrev Text := List UInt16

def encode (c : Char) : Text :=
  let code := c.toNat
  if code < 65536 then [code.toUInt16]
  else [(55296 + (code - 65536) / 1024).toUInt16, (56320 + (code - 65536) % 1024).toUInt16]

/-- The units of a text that stands in the source. -/
def units (text : String) : Text := text.toList.flatMap encode

def startsWith (text : Text) (word : String) : Bool := (units word).isPrefixOf text

example : units "a😀" = [97, 55357, 56832] := by decide

end Flow.Verified.Utf16
