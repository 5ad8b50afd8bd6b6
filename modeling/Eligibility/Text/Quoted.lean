import Eligibility.Text.Combining
import Eligibility.Text.Hidden

/-!
# Quoted text in messages

A text shown inside a message stands between double quotes, with everything escaped that a reader
could not see or that would end the quotes early.
-/

namespace Eligibility
namespace Text

/-- Digits of a number in base sixteen, lower case, without leading zeros. -/
def hexDigits (n : Nat) : List Char :=
  Nat.toDigits 16 n

/-- The written form of one character between double quotes. -/
def escapeShown (c : Char) : List Char :=
  if c = '\x00' then ['\\', '0']
  else if c = '\t' then ['\\', 't']
  else if c = '\r' then ['\\', 'r']
  else if c = '\n' then ['\\', 'n']
  else if c = '"' then ['\\', '"']
  else if c = '\\' then ['\\', '\\']
  else if isCombining c || isHidden c then
    ['\\', 'u', '\x7b'] ++ hexDigits c.toNat ++ ['\x7d']
  else [c]

/-- The text between double quotes, with all that could not be seen escaped. -/
def quoted (s : String) : String :=
  String.ofList (['"'] ++ s.toList.flatMap escapeShown ++ ['"'])

end Text
end Eligibility
