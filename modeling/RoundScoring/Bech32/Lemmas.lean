import RoundScoring.Bech32.Code

/-!
Bytes survive their symbols (`bytesOfSymbols?_symbolsOfBytes`). The bits of the symbols are the bits
of the bytes with fewer than five zeros behind them, and that is just what the reader of bytes lets
pass.
-/

namespace RoundScoring.Bech32

theorem bits_ofNat_ofBits (a b c d e : Bool) :
    bits 5 (Symbol.ofNat (ofBits [a, b, c, d, e])).val = [a, b, c, d, e] := by
  revert a b c d e
  decide

theorem ofBits_bits_eight (n : Fin 256) : ofBits (bits 8 n.val) = n.val := by
  revert n
  decide +kernel

theorem symbolsOfBits_bits (bs : List Bool) :
    ∃ zeros < 5, (symbolsOfBits bs).flatMap (fun s => bits 5 s.val) =
      bs ++ List.replicate zeros false := by
  fun_induction symbolsOfBits bs with
  | case1 => exact ⟨0, by decide, rfl⟩
  | case2 a => exact ⟨4, by decide, by simp [bits_ofNat_ofBits]⟩
  | case3 a b => exact ⟨3, by decide, by simp [bits_ofNat_ofBits]⟩
  | case4 a b c => exact ⟨2, by decide, by simp [bits_ofNat_ofBits]⟩
  | case5 a b c d => exact ⟨1, by decide, by simp [bits_ofNat_ofBits]⟩
  | case6 a b c d e rest ih =>
    obtain ⟨zeros, few, whole⟩ := ih
    exact ⟨zeros, few, by simp [bits_ofNat_ofBits, whole]⟩

theorem bytesOfBits?_replicate {zeros : Nat} (few : zeros < 5) :
    bytesOfBits? (List.replicate zeros false) = some [] := by
  rcases zeros with _ | _ | _ | _ | _ | zeros <;> first | rfl | omega

theorem bytesOfBits?_bits_append (b : UInt8) (rest : List Bool) :
    bytesOfBits? (bits 8 b.toNat ++ rest) = (bytesOfBits? rest).map (b :: ·) := by
  have value := ofBits_bits_eight ⟨b.toNat, b.toNat_lt⟩
  change (bytesOfBits? rest).map (UInt8.ofNat (ofBits (bits 8 b.toNat)) :: ·) = _
  rw [value, UInt8.ofNat_toNat]

theorem bytesOfBits?_flatMap {zeros : Nat} (few : zeros < 5) (bytes : List UInt8) :
    bytesOfBits? (bytes.flatMap (fun b => bits 8 b.toNat) ++ List.replicate zeros false) =
      some bytes := by
  induction bytes with
  | nil => exact bytesOfBits?_replicate few
  | cons b rest ih =>
    rw [List.flatMap_cons, List.append_assoc, bytesOfBits?_bits_append, ih]
    rfl

theorem bytesOfSymbols?_symbolsOfBytes (bytes : List UInt8) :
    bytesOfSymbols? (symbolsOfBytes bytes) = some bytes := by
  obtain ⟨zeros, few, whole⟩ := symbolsOfBits_bits (bytes.flatMap fun b => bits 8 b.toNat)
  unfold bytesOfSymbols? symbolsOfBytes
  rw [whole]
  exact bytesOfBits?_flatMap few bytes

end RoundScoring.Bech32
