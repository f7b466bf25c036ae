import ContractFuzz.Text.Visible
/-!
# Quoted text

The form in which messages show a text that somebody typed: between double quotes, with every
character that could mislead the reader written as an escape.

## Main definitions

* `quoteChar`: how one character is written.
* `quoted`: a whole text between quotes.
-/

namespace ContractFuzz.Text

/-- The lower-case hexadecimal digits of a number, without leading zeros. -/
def hexDigits (n : Nat) : List Char := Nat.toDigits 16 n

/-- How a character is written between quotes: quotes and backslashes after a backslash, the four
controls that have a name by it, visible characters as they are, and all others by number. -/
def quoteChar (c : Char) : List Char :=
  if c = '"' then ['\\', '"']
  else if c = '\\' then ['\\', '\\']
  else if c = '\n' then ['\\', 'n']
  else if c = '\r' then ['\\', 'r']
  else if c = '\t' then ['\\', 't']
  else if c.toNat = 0 then ['\\', '0']
  else if isVisible c then [c]
  else ['\\', 'u', '\x7b'] ++ hexDigits c.toNat ++ ['\x7d']

/-- A text between double quotes. -/
def quoted (s : String) : String :=
  String.ofList ('"' :: s.toList.flatMap quoteChar ++ ['"'])

end ContractFuzz.Text
