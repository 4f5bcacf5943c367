import RoundScoring.Bech32.Symbol

/-!
The checksum of a bech32 text: a remainder over the symbols, into which the human readable part
enters first by its high bits and then by its low ones. A whole text leaves remainder one, and the
six symbols that bring it there are the checksum.
-/

namespace RoundScoring.Bech32

/-- What the five bits that leave the remainder put back into it. -/
def feedback (top : Nat) : Nat :=
  (if top.testBit 0 then 0x3b6a57b2 else 0) ^^^
  (if top.testBit 1 then 0x26508e6d else 0) ^^^
  (if top.testBit 2 then 0x1ea119fa else 0) ^^^
  (if top.testBit 3 then 0x3d4233dd else 0) ^^^
  (if top.testBit 4 then 0x2a1462b3 else 0)

def step (state value : Nat) : Nat :=
  (((state &&& 0x1ffffff) <<< 5) ^^^ value) ^^^ feedback (state >>> 25)

def remainder (values : List Nat) : Nat := values.foldl step 1

/-- The human readable part as values: the high bits of each character, a zero, the low bits. -/
def expand (hrp : List Char) : List Nat :=
  hrp.map (fun c => c.toNat >>> 5) ++ 0 :: hrp.map (fun c => c.toNat &&& 31)

def isIntact (hrp : List Char) (symbols : List Symbol) : Bool :=
  remainder (expand hrp ++ symbols.map Fin.val) = 1

def checksum (hrp : List Char) (symbols : List Symbol) : List Symbol :=
  let target := remainder (expand hrp ++ symbols.map Fin.val ++ List.replicate 6 0) ^^^ 1
  [25, 20, 15, 10, 5, 0].map fun shift => Symbol.ofNat (target >>> shift)

@[simp] theorem length_checksum (hrp : List Char) (symbols : List Symbol) :
    (checksum hrp symbols).length = 6 := rfl

theorem remainder_append (left right : List Nat) :
    remainder (left ++ right) = right.foldl step (remainder left) := by
  simp [remainder, List.foldl_append]

end RoundScoring.Bech32
