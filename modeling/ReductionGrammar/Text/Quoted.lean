import ReductionGrammar.Text.DefaultIgnorable
import ReductionGrammar.Text.GraphemeExtend
import ReductionGrammar.Text.Printable

/-!
# Quoted text

A text between double quotes on one line, in which every character can be told from every other:
what is not printable, shows nothing, or would be drawn on the character before it, is written as
its code point.
-/

namespace ReductionGrammar

/-- The character is one of the two sound marks of half width. They extend the character before
them, but as letters of their own they are drawn beside it and not on it. -/
def isHalfwidthSoundMark (c : Char) : Bool :=
  c == '\uFF9E' || c == '\uFF9F'

def showsAsItself (c : Char) : Bool :=
  isPrintable c && !isDefaultIgnorable c && (!isGraphemeExtend c || isHalfwidthSoundMark c)

/-- The written form of one character inside double quotes. -/
def quotedChar (c : Char) : List Char :=
  if c = '\x00' then ['\\', '0']
  else if c = '\t' then ['\\', 't']
  else if c = '\r' then ['\\', 'r']
  else if c = '\n' then ['\\', 'n']
  else if c = '"' then ['\\', '"']
  else if c = '\\' then ['\\', '\\']
  else if showsAsItself c then [c]
  else ['\\', 'u', '\x7b'] ++ Nat.toDigits 16 c.toNat ++ ['\x7d']

def quoted (s : String) : String :=
  String.ofList ('"' :: s.toList.flatMap quotedChar ++ ['"'])

end ReductionGrammar
