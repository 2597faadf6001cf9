import ServiceModel.Text.Hex

/-!
# ASCII string literals of JSON

A literal stands between double quotes and holds only printable ASCII. The double quote, the
backslash and five controls have short escapes; every other character outside that range is
escaped by its UTF-16 units.
-/
namespace ServiceModel.Text.JsonString

def unit (n : Nat) : List Char := '\\' :: 'u' :: hex 4 n

def units (n : Nat) : List Char :=
  if n < 0x10000 then unit n
  else unit (0xd800 + (n - 0x10000) / 0x400) ++ unit (0xdc00 + (n - 0x10000) % 0x400)

def escape (c : Char) : List Char :=
  match c.toNat with
  | 0x22 => ['\\', c]
  | 0x5c => ['\\', c]
  | 0x0a => ['\\', 'n']
  | 0x0d => ['\\', 'r']
  | 0x09 => ['\\', 't']
  | 0x0c => ['\\', 'f']
  | 0x08 => ['\\', 'b']
  | n => if 0x20 ≤ n && n ≤ 0x7e then [c] else units n

def encode (cs : List Char) : List Char := '\x22' :: cs.flatMap escape ++ ['\x22']

end ServiceModel.Text.JsonString
