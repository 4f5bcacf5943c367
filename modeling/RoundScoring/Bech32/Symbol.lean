/-!
The 32 symbols of a bech32 text, and bytes regrouped as symbols. Bytes are written as their bits, cut
into fives from the front, with zeros after the last bit. Reading takes eights, and what is left
over must be less than a symbol and zero, so padding has one form.
-/

namespace RoundScoring.Bech32

abbrev Symbol := Fin 32

def Symbol.ofNat (n : Nat) : Symbol := Fin.ofNat 32 n

def alphabet : List Char := "qpzry9x8gf2tvdw0s3jn54khce6mua7l".toList

def Symbol.char (s : Symbol) : Char := alphabet.getD s.val 'q'

def Symbol.ofChar? (c : Char) : Option Symbol :=
  (List.finRange 32).find? fun s => s.char = c

/-- The lowest `width` bits of a number, the highest of them first. -/
def bits : (width : Nat) → (n : Nat) → List Bool
  | 0, _ => []
  | width + 1, n => n.testBit width :: bits width n

def ofBits (bs : List Bool) : Nat := bs.foldl (fun n b => 2 * n + b.toNat) 0

/-- Five bits to a symbol, with zeros after the last bit. -/
def symbolsOfBits : List Bool → List Symbol
  | [] => []
  | [a] => [Symbol.ofNat (ofBits [a, false, false, false, false])]
  | [a, b] => [Symbol.ofNat (ofBits [a, b, false, false, false])]
  | [a, b, c] => [Symbol.ofNat (ofBits [a, b, c, false, false])]
  | [a, b, c, d] => [Symbol.ofNat (ofBits [a, b, c, d, false])]
  | a :: b :: c :: d :: e :: rest =>
      Symbol.ofNat (ofBits [a, b, c, d, e]) :: symbolsOfBits rest

/-- Eight bits to a byte; a rest of five bits or more, or one with a bit set, is refused. -/
def bytesOfBits? : List Bool → Option (List UInt8)
  | a :: b :: c :: d :: e :: f :: g :: h :: rest =>
      (bytesOfBits? rest).map (UInt8.ofNat (ofBits [a, b, c, d, e, f, g, h]) :: ·)
  | rest => if rest.length < 5 ∧ rest.all not then some [] else none

def symbolsOfBytes (bytes : List UInt8) : List Symbol :=
  symbolsOfBits (bytes.flatMap fun b => bits 8 b.toNat)

def bytesOfSymbols? (symbols : List Symbol) : Option (List UInt8) :=
  bytesOfBits? (symbols.flatMap fun s => bits 5 s.val)

theorem Symbol.ofChar?_char (s : Symbol) : Symbol.ofChar? s.char = some s := by
  revert s
  decide

theorem Symbol.char_of_ofChar? {c : Char} {s : Symbol} (found : Symbol.ofChar? c = some s) :
    s.char = c := by
  simpa using List.find?_some found

@[simp] theorem length_bits (width n : Nat) : (bits width n).length = width := by
  induction width with
  | zero => rfl
  | succ width ih => simp [bits, ih]

end RoundScoring.Bech32
