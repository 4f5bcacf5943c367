import RoundScoring.Text.Hex
import RoundScoring.Text.Invisible

/-!
A text between quotes, for messages. Single quotes surround it, or double quotes when it holds a
single quote and no double one. The quote in use and the backslash are written behind a backslash,
and invisible characters by a letter or their code.
-/

namespace RoundScoring.Text.Quoted

def single : Char := Char.ofNat 39

def double : Char := Char.ofNat 34

def backslash : Char := Char.ofNat 92

def quoteFor (text : List Char) : Char :=
  if text.contains single && !text.contains double then double else single

/-- The code of a character, with a letter that tells how many digits it has. -/
def encodeCode (n : Nat) : List Char :=
  if n < 0x100 then backslash :: 'x' :: Hex.digits 2 n
  else if n < 0x10000 then backslash :: 'u' :: Hex.digits 4 n
  else backslash :: 'U' :: Hex.digits 8 n

def encodeChar (quote c : Char) : List Char :=
  if c = quote ∨ c = backslash then [backslash, c]
  else if c = '\n' then [backslash, 'n']
  else if c = '\r' then [backslash, 'r']
  else if c = '\t' then [backslash, 't']
  else if Invisible.isInvisible c then encodeCode c.toNat
  else [c]

def encode (text : List Char) : List Char :=
  let quote := quoteFor text
  quote :: text.flatMap (encodeChar quote) ++ [quote]

def quoted (text : String) : String := String.ofList (encode text.toList)

end RoundScoring.Text.Quoted
