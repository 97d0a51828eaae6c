import RangeKeeper.Text.Printable

/-!
Quoted text: between double quotes, a quote and a backslash are escaped by a
backslash, the common controls have letters, and any other character that shows
no mark of its own is written as its code point in hexadecimal.
-/

namespace RangeKeeper

def quoteChar (c : Char) : List Char :=
  if c = '\x00' then ['\\', '0']
  else if c = '\t' then ['\\', 't']
  else if c = '\r' then ['\\', 'r']
  else if c = '\n' then ['\\', 'n']
  else if c = '"' then ['\\', '"']
  else if c = '\\' then ['\\', '\\']
  else if isPrintable c then [c]
  else ['\\', 'u', '\x7b'] ++ Nat.toDigits 16 c.toNat ++ ['\x7d']

def quote (s : String) : String := "\"" ++ String.ofList (s.toList.flatMap quoteChar) ++ "\""

end RangeKeeper
