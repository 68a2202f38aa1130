import ChainFeed.Text.Printable
import ChainFeed.Text.Numeral

/-!
# Quoted text in messages

A string quoted in an error message: tab, line feed, carriage return, zero, quote and backslash have
short escapes, every other character that does not print is written by its code point.
-/

namespace ChainFeed.Text

def quotedChar (c : Char) : List Char :=
  if c == '\x00' then ['\\', '0']
  else if c == '\t' then ['\\', 't']
  else if c == '\r' then ['\\', 'r']
  else if c == '\n' then ['\\', 'n']
  else if c == '"' then ['\\', '"']
  else if c == '\\' then ['\\', '\\']
  else if isPrintable c then [c]
  else ['\\', 'u', '\x7b'] ++ hexDigits c.toNat ++ ['\x7d']

def quoted (s : String) : String :=
  String.ofList ('"' :: s.toList.flatMap quotedChar ++ ['"'])

end ChainFeed.Text
