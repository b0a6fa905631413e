import ProgramScan.Text.Hex
import ProgramScan.Text.Visible

/-!
# Quoted text

`quote s` writes `s` between double quotes on one line.  A quote and a backslash get a backslash in
front, the usual controls get their letter, every other hidden character is written by its code
point in braces, and visible characters stand for themselves.
-/

namespace ProgramScan.Text

def escapeCodePoint (c : Char) : List Char :=
  "\\u\x7b".toList ++ Nat.toDigits 16 c.toNat ++ "\x7d".toList

/-- how one character of a quoted text is written -/
def escape (c : Char) : List Char :=
  if c = '"' then ['\\', '"']
  else if c = '\\' then ['\\', '\\']
  else if c = '\n' then ['\\', 'n']
  else if c = '\r' then ['\\', 'r']
  else if c = '\t' then ['\\', 't']
  else if c.toNat = 0 then ['\\', '0']
  else if isVisible c then [c]
  else escapeCodePoint c

def quote (text : String) : String :=
  String.ofList ('"' :: text.toList.flatMap escape ++ ['"'])

end ProgramScan.Text
