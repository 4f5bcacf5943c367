import RoundScoring.Proofs.Bech32.RoundTrip

/-!
An account is read from the text that is written for it, from that text in upper case, and from no
other. Three places leave a reader a choice, and at each of them only one text comes through: the bits
behind the last byte are zeros and fewer than a symbol (`symbolsOfBytes_of_bytesOfSymbols?`), six
symbols that leave remainder one are the checksum (`eq_checksum_of_isIntact`), and a text that is not
in lower case has no lower-case letter in it (`eq_lower_or_upper`).
-/

namespace RoundScoring.Bech32

theorem bits_ofNat_ofBits_eight (a b c d e f g h : Bool) :
    bits 8 (UInt8.ofNat (ofBits [a, b, c, d, e, f, g, h])).toNat = [a, b, c, d, e, f, g, h] := by
  revert a b c d e f g h
  decide

theorem eq_of_bytesOfBits? {bs : List Bool} {bytes : List UInt8}
    (read : bytesOfBits? bs = some bytes) :
    ∃ zeros < 5, bs = bytes.flatMap (fun b => bits 8 b.toNat) ++ List.replicate zeros false := by
  fun_induction bytesOfBits? bs generalizing bytes with
  | case1 a b c d e f g h rest ih =>
    obtain ⟨bytes, later, rfl⟩ := Option.map_eq_some_iff.mp read
    obtain ⟨zeros, few, whole⟩ := ih later
    refine ⟨zeros, few, ?_⟩
    rw [List.flatMap_cons, bits_ofNat_ofBits_eight, List.append_assoc, ← whole]
    rfl
  | case2 rest _ padding =>
    cases read
    refine ⟨rest.length, padding.1, ?_⟩
    rw [List.flatMap_nil, List.nil_append]
    exact List.eq_replicate_iff.mpr ⟨rfl, by simpa using padding.2⟩
  | case3 => cases read

theorem bits_five_injective (s t : Symbol) (same : bits 5 s.val = bits 5 t.val) : s = t := by
  revert s t
  decide

theorem eq_of_flatMap_bits_eq {left right : List Symbol}
    (same : left.flatMap (fun s => bits 5 s.val) = right.flatMap fun s => bits 5 s.val) :
    left = right := by
  induction left generalizing right with
  | nil =>
    cases right with
    | nil => rfl
    | cons t right => cases same
  | cons s left ih =>
    cases right with
    | nil => cases same
    | cons t right =>
      rw [List.flatMap_cons, List.flatMap_cons] at same
      obtain ⟨heads, tails⟩ := List.append_inj same (by simp)
      rw [bits_five_injective s t heads, ih tails]

theorem length_flatMap_bits (symbols : List Symbol) :
    (symbols.flatMap fun s => bits 5 s.val).length = 5 * symbols.length := by
  simp [List.length_flatMap, Nat.mul_comm]

theorem symbolsOfBytes_of_bytesOfSymbols? {symbols : List Symbol} {bytes : List UInt8}
    (read : bytesOfSymbols? symbols = some bytes) : symbolsOfBytes bytes = symbols := by
  obtain ⟨zeros, few, whole⟩ := eq_of_bytesOfBits? read
  obtain ⟨zeros', few', whole'⟩ := symbolsOfBits_bits (bytes.flatMap fun b => bits 8 b.toNat)
  have size := congrArg List.length whole
  have size' := congrArg List.length whole'
  rw [length_flatMap_bits, List.length_append, List.length_replicate] at size size'
  -- Both paddings bring the same number of bits to a multiple of five.
  have padding : zeros' = zeros := by omega
  apply eq_of_flatMap_bits_eq
  unfold symbolsOfBytes
  rw [whole, whole', padding]

theorem map_char_of_mapM_ofChar? {text : List Char} {symbols : List Symbol}
    (read : text.mapM Symbol.ofChar? = some symbols) : symbols.map Symbol.char = text := by
  induction text generalizing symbols with
  | nil =>
    cases read
    rfl
  | cons c text ih =>
    simp only [List.mapM_cons, Option.bind_eq_bind, Option.bind_eq_some_iff, Option.pure_def,
      Option.some.injEq] at read
    obtain ⟨s, first, later, rest, rfl⟩ := read
    rw [List.map_cons, Symbol.char_of_ofChar? first, ih rest]

theorem map_toLower_of_decode? {text hrp : List Char} {symbols : List Symbol}
    (decoded : decode? text = some (hrp, symbols)) :
    text.map Char.toLower = encode hrp symbols := by
  obtain ⟨-, data, whole, cut, ⟨-, -, six⟩, read, intact, rfl⟩ := decode?_eq_some_iff.mp decoded
  have written := map_char_of_mapM_ofChar? read
  have size : whole.length = data.length := by
    rw [← written, List.length_map]
  have parts := List.take_append_drop (whole.length - 6) whole
  have tail : whole.drop (whole.length - 6) = checksum hrp (whole.take (whole.length - 6)) := by
    apply eq_checksum_of_isIntact
    · rw [List.length_drop]
      omega
    · rw [parts]
      exact intact
  unfold encode
  rw [← tail, parts, written]
  exact (eq_of_cutAtLastOne cut).1

theorem toUpper_of_isPlain {c : Char} (plain : isPlain c) :
    isPlain c.toUpper ∧ c.toUpper.isLower = false ∧ c.toUpper.toLower = c.toLower ∧
      (c.isLower = false → c.toLower.toUpper = c) := by
  refine of_isPlain (p := fun c => isPlain c.toUpper ∧ c.toUpper.isLower = false ∧
    c.toUpper.toLower = c.toLower ∧ (c.isLower = false → c.toLower.toUpper = c)) ?_ plain
  decide

theorem eq_lower_or_upper {text : List Char} (plain : ∀ c ∈ text, isPlain c)
    (oneCase : isOneCase text) :
    text = text.map Char.toLower ∨ text = (text.map Char.toLower).map Char.toUpper := by
  unfold isOneCase at oneCase
  rw [Bool.or_eq_true, List.all_eq_true, List.all_eq_true] at oneCase
  rcases oneCase with noUpper | noLower
  · left
    refine (List.map_id text).symm.trans (List.map_congr_left fun c inside => ?_)
    exact ((toLower_of_isPlain (plain c inside)).2.2 (by simpa using noUpper c inside)).symm
  · right
    rw [List.map_map]
    refine (List.map_id text).symm.trans (List.map_congr_left fun c inside => ?_)
    exact ((toUpper_of_isPlain (plain c inside)).2.2.2 (by simpa using noLower c inside)).symm

theorem decode?_toUpper {text hrp : List Char} {symbols : List Symbol}
    (decoded : decode? text = some (hrp, symbols)) :
    decode? (text.map Char.toUpper) = some (hrp, symbols) := by
  obtain ⟨allowed, read⟩ := decode?_eq_some_iff.mp decoded
  rw [Bool.and_eq_true, List.all_eq_true] at allowed
  have lower : (text.map Char.toUpper).map Char.toLower = text.map Char.toLower := by
    rw [List.map_map]
    exact List.map_congr_left fun c inside => (toUpper_of_isPlain (allowed.1 c inside)).2.2.1
  refine decode?_eq_some_iff.mpr ⟨?_, by rwa [lower]⟩
  unfold isOneCase
  rw [Bool.and_eq_true, Bool.or_eq_true, List.all_eq_true, List.all_eq_true, List.all_eq_true]
  refine ⟨fun c inside => ?_, .inr fun c inside => ?_⟩
  · obtain ⟨d, written, rfl⟩ := List.mem_map.mp inside
    exact (toUpper_of_isPlain (allowed.1 d written)).1
  · obtain ⟨d, written, rfl⟩ := List.mem_map.mp inside
    simp [(toUpper_of_isPlain (allowed.1 d written)).2.1]

end RoundScoring.Bech32

namespace RoundScoring.Address

theorem toList_toLower (text : String) : text.toLower.toList = text.toList.map Char.toLower :=
  String.toList_map

theorem toList_toUpper (text : String) : text.toUpper.toList = text.toList.map Char.toUpper :=
  String.toList_map

/-- An account whose text can be read: other accounts can be made from their parts. -/
structure Printable (a : Address) : Prop where
  hrp : Bech32.Proper a.hrp.toList
  payload : PayloadFits a.payload

theorem printable_of_parse {required : Option String} {text : String} {a : Address}
    (parsed : parse required text = .ok a) : a.Printable := by
  obtain ⟨-, symbols, decoded, -, -, fits⟩ := parse_eq_ok_iff.mp parsed
  exact ⟨Bech32.proper_of_decode? decoded, fits⟩

theorem text_of_parse {required : Option String} {text : String} {a : Address}
    (parsed : parse required text = .ok a) : a.text = text.toLower := by
  obtain ⟨-, symbols, decoded, -, read, -⟩ := parse_eq_ok_iff.mp parsed
  apply String.toList_injective
  unfold Address.text
  rw [Bech32.symbolsOfBytes_of_bytesOfSymbols? read, String.toList_ofList, toList_toLower]
  exact (Bech32.map_toLower_of_decode? decoded).symm

theorem eq_text_of_parse {required : Option String} {text : String} {a : Address}
    (parsed : parse required text = .ok a) : text = a.text ∨ text = a.text.toUpper := by
  have lower := text_of_parse parsed
  obtain ⟨-, symbols, decoded, -⟩ := parse_eq_ok_iff.mp parsed
  have allowed := (Bech32.decode?_eq_some_iff.mp decoded).1
  rw [Bool.and_eq_true, List.all_eq_true] at allowed
  rw [lower]
  refine (Bech32.eq_lower_or_upper allowed.1 allowed.2).imp (fun same => ?_) fun same => ?_ <;>
    apply String.toList_injective
  · rw [toList_toLower]
    exact same
  · rw [toList_toUpper, toList_toLower]
    exact same

theorem parse_toUpper {required : Option String} {text : String} {a : Address}
    (parsed : parse required text = .ok a) : parse required text.toUpper = .ok a := by
  obtain ⟨written, symbols, decoded, rest⟩ := parse_eq_ok_iff.mp parsed
  refine parse_eq_ok_iff.mpr ⟨?_, symbols, ?_, rest⟩
  · intro empty
    have impossible := congrArg String.toList empty
    rw [toList_toUpper] at impossible
    exact written (String.toList_injective (List.map_eq_nil_iff.mp impossible))
  · rw [toList_toUpper]
    exact Bech32.decode?_toUpper decoded

/-- Where no human readable part is required, just the texts of printable accounts are read, in either
case, and each as its account. -/
theorem parse_accepts_printed_texts :
    (∀ text a, parse none text = .ok a ↔
      a.Printable ∧ (text = a.text ∨ text = a.text.toUpper)) ∧
    (∀ a, a.Printable → parse none a.text = .ok a) ∧
    (∀ text a, parse none text = .ok a → a.text = text.toLower) ∧
    ∀ text text' a a', parse none text = .ok a → parse none text' = .ok a' →
      (a = a' ↔ text.toLower = text'.toLower) := by
  have printed : ∀ a : Address, a.Printable → parse none a.text = .ok a :=
    fun a printable => parse_text_of_proper printable.hrp printable.payload (by simp)
  refine ⟨fun text a => ⟨fun parsed => ?_, ?_⟩, printed, fun _ _ => text_of_parse, ?_⟩
  · exact ⟨printable_of_parse parsed, eq_text_of_parse parsed⟩
  · rintro ⟨printable, rfl | rfl⟩
    · exact printed a printable
    · exact parse_toUpper (printed a printable)
  · intro text text' a a' parsed parsed'
    rw [← text_of_parse parsed, ← text_of_parse parsed']
    refine ⟨congrArg Address.text, fun same => ?_⟩
    -- One text is read as one account.
    have again := parse_text parsed
    rw [same, parse_text parsed'] at again
    exact (Except.ok.inj again).symm

/-- A human readable part that has the separator in it. -/
theorem parse_accepts_part_with_separator :
    parse none "a11qulry4ke" = .ok ⟨"a1", [7]⟩ ∧ parse none "A11QULRY4KE" = .ok ⟨"a1", [7]⟩ := by
  have printable : Printable ⟨"a1", [7]⟩ :=
    ⟨⟨by simp [Bech32.isPlain], by simp, by decide⟩, by decide⟩
  have written : text ⟨"a1", [7]⟩ = "a11qulry4ke" := by decide
  have upper : "a11qulry4ke".toUpper = "A11QULRY4KE" := by decide +kernel
  have accepted := parse_accepts_printed_texts.1
  rw [← upper, ← written]
  exact ⟨(accepted _ _).mpr ⟨printable, .inl rfl⟩, (accepted _ _).mpr ⟨printable, .inr rfl⟩⟩

end RoundScoring.Address
