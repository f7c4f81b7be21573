import Burrow.Http.JsonReading
import Mathlib.Algebra.Ring.Nat

/-!
# Escapes in the strings of the JSON parser

`decode_unicode_char` replaces an escape by the UTF-8 of its character, the second half of a
surrogate pair by that of the character that the pair stands for.
-/

set_option autoImplicit false

namespace Burrow.Http

/-! ## Hexadecimal digits -/

theorem hexDigit_eq {c : UInt8} {value : Nat} (h : hexValue c = some value) :
    JsonParser.hexDigit c = UInt32.ofNat value ∧ value < 16 := by
  have hall : ∀ n < 256, ∀ value ∈ hexValue (UInt8.ofNat n),
      JsonParser.hexDigit (UInt8.ofNat n) = UInt32.ofNat value ∧ value < 16 := by decide +kernel
  have hc := hall c.toNat (UInt8.toNat_lt c) value
  rw [UInt8.ofNat_toNat] at hc
  exact hc h

/-- One more digit. -/
theorem toNat_shift_or {uc : UInt32} {x : Nat} (hn : uc.toNat < 4096) (hx : x < 16) :
    ((uc <<< 4) ||| UInt32.ofNat x).toNat = uc.toNat * 16 + x := by
  have hor : uc.toNat <<< 4 + x = uc.toNat <<< 4 ||| x :=
    Nat.shiftLeft_add_eq_or_of_lt (i := 4) hx uc.toNat
  rw [Nat.shiftLeft_eq] at hor
  rw [UInt32.toNat_or, UInt32.toNat_shiftLeft, UInt32.toNat_ofNat']
  change uc.toNat <<< 4 % 2 ^ 32 ||| x % 2 ^ 32 = uc.toNat * 16 + x
  rw [Nat.shiftLeft_eq, Nat.mod_eq_of_lt (by omega), Nat.mod_eq_of_lt (by omega)]
  exact hor.symm

/-- The number of four digits. -/
theorem foldl_hexDigit {digits : List UInt8} {n : Nat} (h : Hex digits n) :
    (digits.map JsonParser.hexDigit).all (· < 16) = true ∧ n < 0x10000 ∧
      (digits.map JsonParser.hexDigit).foldl (fun (uc : UInt32) x => (uc <<< 4) ||| x) 0 =
        UInt32.ofNat n := by
  obtain @⟨a, b, c, d, w, x, y, z, ha, hb, hc, hd⟩ := h
  obtain ⟨ha, hw⟩ := hexDigit_eq ha
  obtain ⟨hb, hx⟩ := hexDigit_eq hb
  obtain ⟨hc, hy⟩ := hexDigit_eq hc
  obtain ⟨hd, hz⟩ := hexDigit_eq hd
  have hlt : ∀ v < 16, (UInt32.ofNat v < 16) := by decide
  refine ⟨?_, by omega, ?_⟩
  · simp only [List.map_cons, List.map_nil, List.all_cons, List.all_nil, ha, hb, hc, hd, hlt w hw,
      hlt x hx, hlt y hy, hlt z hz, decide_true, Bool.and_self]
  · simp only [List.map_cons, List.map_nil, List.foldl_cons, List.foldl_nil, ha, hb, hc, hd]
    have h₁ := @toNat_shift_or 0 w (by decide) hw
    have h₂ := toNat_shift_or (by rw [h₁]; change 0 * 16 + w < 4096; omega) hx
    rw [h₁] at h₂
    have h₃ := toNat_shift_or (by rw [h₂]; change (0 * 16 + w) * 16 + x < 4096; omega) hy
    rw [h₂] at h₃
    have h₄ := toNat_shift_or
      (by rw [h₃]; change ((0 * 16 + w) * 16 + x) * 16 + y < 4096; omega) hz
    rw [h₃] at h₄
    apply UInt32.toNat_inj.1
    rw [h₄, UInt32.toNat_ofNat', Nat.mod_eq_of_lt (by omega)]
    change (((0 * 16 + w) * 16 + x) * 16 + y) * 16 + z = _
    rw [Nat.zero_mul, Nat.zero_add]

/-! ## UTF-8 -/

/-- Bits that do not overlap are added. -/
theorem or_toUInt8 {v lead : UInt32} {i a : Nat} (hv : v.toNat < 2 ^ i)
    (hlead : lead.toNat = 2 ^ i * a) :
    (v ||| lead).toUInt8 = UInt8.ofNat (v.toNat + lead.toNat) := by
  apply UInt8.toNat_inj.1
  rw [UInt32.toNat_toUInt8, UInt32.toNat_or, hlead, UInt8.toNat_ofNat', Nat.or_comm,
    ← Nat.two_pow_add_eq_or_of_lt hv, Nat.add_comm]

theorem toNat_shift (uc : UInt32) {trail : Nat} (h : trail ≤ 3) :
    (uc >>> UInt32.ofNat (trail * 6)).toNat = uc.toNat / 2 ^ (trail * 6) := by
  rw [UInt32.toNat_shiftRight, UInt32.toNat_ofNat', Nat.shiftRight_eq_div_pow]
  congr 2
  omega

/-- A byte behind the first. -/
theorem trail_byte (uc : UInt32) {i : Nat} (h : i ≤ 3) :
    (((uc >>> UInt32.ofNat (i * 6)) &&& 0x3F) ||| 0x80).toUInt8 =
      UInt8.ofNat (uc.toNat / 2 ^ (i * 6) % 64 + 128) := by
  have hmask : ((uc >>> UInt32.ofNat (i * 6)) &&& 0x3F).toNat = uc.toNat / 2 ^ (i * 6) % 64 := by
    rw [UInt32.toNat_and, toNat_shift uc h]
    exact Nat.and_two_pow_sub_one_eq_mod _ 6
  have hlt : ((uc >>> UInt32.ofNat (i * 6)) &&& 0x3F).toNat < 2 ^ 6 := by
    rw [hmask]
    omega
  rw [or_toUInt8 (a := 2) hlt rfl, hmask]
  rfl

/-- The bytes in terms of the number, where the first of them has so many bits to fill. -/
theorem encodeUtf8_of_bits {lead uc : UInt32} {trail : Nat} (bits a : Nat) (htrail : trail ≤ 3)
    (hbits : uc.toNat / 2 ^ (trail * 6) < 2 ^ bits) (hlead : lead.toNat = 2 ^ bits * a) :
    JsonParser.encodeUtf8 lead trail uc =
      UInt8.ofNat (uc.toNat / 2 ^ (trail * 6) + lead.toNat) ::
        (List.range trail).reverse.map fun i =>
          UInt8.ofNat (uc.toNat / 2 ^ (i * 6) % 64 + 128) := by
  rw [← toNat_shift uc htrail] at hbits ⊢
  rw [JsonParser.encodeUtf8, or_toUInt8 hbits hlead]
  congr 1
  apply List.map_congr_left
  intro i hi
  have hlt : i < trail := List.mem_range.1 (List.mem_reverse.1 hi)
  exact trail_byte uc (by omega)

/-- **The bytes of a character** are those of its UTF-8. -/
theorem encodeUtf8_eq (char : Char) :
    String.utf8EncodeChar char =
      if char.toNat < 0x80 then JsonParser.encodeUtf8 0x00 0 char.val
      else if char.toNat < 0x800 then JsonParser.encodeUtf8 0xC0 1 char.val
      else if char.toNat < 0x10000 then JsonParser.encodeUtf8 0xE0 2 char.val
      else JsonParser.encodeUtf8 0xF0 3 char.val := by
  have hmax : char.val.toNat < 0x110000 := by
    have hvalid : char.val.toNat < 0xD800 ∨
        0xDFFF < char.val.toNat ∧ char.val.toNat < 0x110000 := char.valid
    omega
  change (if char.val.toNat ≤ 0x7f then _ else _) = if char.val.toNat < 0x80 then _ else _
  by_cases h₁ : char.val.toNat < 0x80
  · rw [if_pos (by omega), if_pos h₁, encodeUtf8_of_bits 7 0 (by decide) (by omega) rfl]
    change [UInt8.ofNat char.val.toNat] = [UInt8.ofNat (char.val.toNat / 1 + 0)]
    rw [Nat.div_one, Nat.add_zero]
  rw [if_neg (by omega), if_neg h₁]
  change (if char.val.toNat ≤ 0x7ff then _ else _) = if char.val.toNat < 0x800 then _ else _
  by_cases h₂ : char.val.toNat < 0x800
  · rw [if_pos (by omega), if_pos h₂, encodeUtf8_of_bits 5 6 (by decide) (by omega) rfl,
      Nat.mod_eq_of_lt (by omega : char.val.toNat / 64 < 32)]
    change _ = [_, UInt8.ofNat (char.val.toNat / 1 % 64 + 128)]
    rw [Nat.div_one]
    rfl
  rw [if_neg (by omega), if_neg h₂]
  change (if char.val.toNat ≤ 0xffff then _ else _) = if char.val.toNat < 0x10000 then _ else _
  by_cases h₃ : char.val.toNat < 0x10000
  · rw [if_pos (by omega), if_pos h₃, encodeUtf8_of_bits 4 14 (by decide) (by omega) rfl,
      Nat.mod_eq_of_lt (by omega : char.val.toNat / 4096 < 16)]
    change _ = [_, _, UInt8.ofNat (char.val.toNat / 1 % 64 + 128)]
    rw [Nat.div_one]
    rfl
  · rw [if_neg (by omega), if_neg h₃, encodeUtf8_of_bits 3 30 (by decide) (by omega) rfl,
      Nat.mod_eq_of_lt (by omega : char.val.toNat / 262144 < 8)]
    change _ = [_, _, _, UInt8.ofNat (char.val.toNat / 1 % 64 + 128)]
    rw [Nat.div_one]
    rfl

/-! ## Surrogates -/

theorem toNat_ofNat_lt {n : Nat} (h : n < 0x10000) : (UInt32.ofNat n).toNat = n := by
  rw [UInt32.toNat_ofNat', Nat.mod_eq_of_lt (by omega)]

/-- The upper bits of a number. -/
theorem upper_bits {n : Nat} (h : n < 0x10000) :
    (UInt32.ofNat n &&& 0xFC00).toNat = n / 1024 * 1024 := by
  rw [UInt32.toNat_and, toNat_ofNat_lt h]
  change n &&& 0xFC00 = _
  have hdiv : (n &&& 0xFC00) / 2 ^ 10 = n / 1024 := by
    rw [Nat.and_div_two_pow]
    change n / 1024 &&& 2 ^ 6 - 1 = _
    rw [Nat.and_two_pow_sub_one_eq_mod, Nat.mod_eq_of_lt (by omega)]
  have hmod : (n &&& 0xFC00) % 2 ^ 10 = 0 := by
    rw [Nat.and_mod_two_pow]
    exact Nat.and_zero _
  have hsplit := Nat.div_add_mod (n &&& 0xFC00) (2 ^ 10)
  rw [hdiv, hmod] at hsplit
  omega

theorem isHighSurrogate_iff {n : Nat} (h : n < 0x10000) :
    JsonParser.isHighSurrogate (UInt32.ofNat n) = true ↔ 0xD800 ≤ n ∧ n < 0xDC00 := by
  rw [JsonParser.isHighSurrogate, decide_eq_true_iff, ← UInt32.toNat_inj, upper_bits h]
  change n / 1024 * 1024 = 0xD800 ↔ _
  omega

theorem isLowSurrogate_iff {n : Nat} (h : n < 0x10000) :
    JsonParser.isLowSurrogate (UInt32.ofNat n) = true ↔ 0xDC00 ≤ n ∧ n < 0xE000 := by
  rw [JsonParser.isLowSurrogate, decide_eq_true_iff, ← UInt32.toNat_inj, upper_bits h]
  change n / 1024 * 1024 = 0xDC00 ↔ _
  omega

/-- The character that a pair stands for. -/
theorem decodeSurrogatePair_toNat {high low : Nat} (hhigh : 0xD800 ≤ high) (hhigh' : high < 0xDC00)
    (hlow : 0xDC00 ≤ low) (hlow' : low < 0xE000) :
    (JsonParser.decodeSurrogatePair (UInt16.ofNat high).toUInt32 (UInt32.ofNat low)).toNat =
      0x10000 + (high - 0xD800) * 0x400 + (low - 0xDC00) := by
  have hfirst : (((UInt16.ofNat high).toUInt32 &&& 0x3FF) <<< 10).toNat =
      (high - 0xD800) * 0x400 := by
    rw [UInt32.toNat_shiftLeft, UInt32.toNat_and, UInt16.toNat_toUInt32, UInt16.toNat_ofNat']
    change (high % 2 ^ 16 &&& 2 ^ 10 - 1) <<< 10 % 2 ^ 32 = _
    rw [Nat.and_two_pow_sub_one_eq_mod, Nat.shiftLeft_eq]
    omega
  have hsecond : (UInt32.ofNat low &&& 0x3FF).toNat = low - 0xDC00 := by
    rw [UInt32.toNat_and, toNat_ofNat_lt (by omega)]
    change low &&& 2 ^ 10 - 1 = _
    rw [Nat.and_two_pow_sub_one_eq_mod]
    omega
  rw [JsonParser.decodeSurrogatePair, UInt32.toNat_add, UInt32.toNat_add, hfirst, hsecond]
  change (((high - 0xD800) * 0x400 + (low - 0xDC00)) % 2 ^ 32 + 0x10000) % 2 ^ 32 = _
  omega

/-! ## `decode_unicode_char` -/

section Decode

variable {σ : Type} {callback : JsonEvent → σ → Except JsonStop σ} {jc : JsonParser σ}
  {state : JsonState} {type : JsonType} {stack : List JsonMode} {buffer digits : List UInt8}
  {half : UInt16} {n : Nat}

theorem Hex.length (h : Hex digits n) : digits.length = 4 := by
  cases h
  rfl

/-- Both assertions hold, and the escape is taken out of the buffer. -/
theorem JsonParser.At.decode_eq (h : jc.At state type stack (buffer ++ 92 :: 117 :: digits) half)
    (hhex : Hex digits n) :
    jc.decodeUnicodeChar =
      if half ≠ 0 then
        if JsonParser.isLowSurrogate (UInt32.ofNat n) then
          .ok { jc with
            utf16HighSurrogate := 0
            parseBuffer := buffer ++ JsonParser.encodeUtf8 0xF0 3
              (JsonParser.decodeSurrogatePair half.toUInt32 (UInt32.ofNat n)) }
        else .error .rejected
      else if UInt32.ofNat n < 0x80 then
        .ok { jc with parseBuffer := buffer ++ JsonParser.encodeUtf8 0x00 0 (UInt32.ofNat n) }
      else if UInt32.ofNat n < 0x800 then
        .ok { jc with parseBuffer := buffer ++ JsonParser.encodeUtf8 0xC0 1 (UInt32.ofNat n) }
      else if JsonParser.isHighSurrogate (UInt32.ofNat n) then
        .ok { jc with
          utf16HighSurrogate := (UInt32.ofNat n).toUInt16
          parseBuffer := buffer }
      else if JsonParser.isLowSurrogate (UInt32.ofNat n) then .error .rejected
      else .ok { jc with
        parseBuffer := buffer ++ JsonParser.encodeUtf8 0xE0 2 (UInt32.ofNat n) } := by
  obtain ⟨hall, -, hfold⟩ := foldl_hexDigit hhex
  have hlength : jc.parseBuffer.length = buffer.length + 6 := by
    rw [h.buffer, List.length_append, List.length_cons, List.length_cons, hhex.length]
  have hdrop : jc.parseBuffer.drop (jc.parseBuffer.length - 4) = digits := by
    rw [hlength, h.buffer]
    exact List.drop_length_add_append 2
  have htake : jc.parseBuffer.take (jc.parseBuffer.length - 6) = buffer := by
    rw [hlength, h.buffer, Nat.add_sub_cancel, List.take_left]
  rw [JsonParser.decodeUnicodeChar, jsonAssert_bind (by omega)]
  dsimp only
  rw [hdrop, jsonAssert_bind hall, hfold, htake, h.half]
  rfl

/-- The parser with a shorter buffer. -/
theorem JsonParser.At.shorten {buffer' : List UInt8} (h : jc.At state type stack buffer half)
    (hlength : buffer'.length ≤ buffer.length) (half' : UInt16) :
    { jc with utf16HighSurrogate := half', parseBuffer := buffer' }.At state type stack buffer'
      half' := by
  have hroom := h.room
  rw [h.buffer] at hroom
  exact { h with buffer := rfl, half := rfl, room := Nat.lt_of_le_of_lt hlength hroom }

theorem length_decoded {bytes : List UInt8} (hhex : Hex digits n) (hbytes : bytes.length ≤ 4) :
    (buffer ++ bytes).length ≤ (buffer ++ 92 :: 117 :: digits).length := by
  rw [List.length_append, List.length_append, List.length_cons, List.length_cons, hhex.length]
  omega

theorem length_utf8EncodeChar_le (char : Char) : (String.utf8EncodeChar char).length ≤ 4 := by
  rw [encodeUtf8_eq]
  split
  · exact length_encodeUtf8_le (by decide)
  · split
    · exact length_encodeUtf8_le (by decide)
    · split <;> exact length_encodeUtf8_le (by decide)

/-- The escape of a character. -/
theorem JsonParser.At.decode_char {char : Char}
    (h : jc.At state type stack (buffer ++ 92 :: 117 :: digits) 0)
    (hhex : Hex digits char.toNat) :
    Delivers callback jc.decodeUnicodeChar []
      (·.At state type stack (buffer ++ String.utf8EncodeChar char) 0) jc.ctx := by
  obtain ⟨-, hlt, -⟩ := foldl_hexDigit hhex
  have hval : UInt32.ofNat char.toNat = char.val := UInt32.ofNat_toNat
  have hvalid : char.toNat < 0xD800 ∨ 0xDFFF < char.toNat ∧ char.toNat < 0x110000 := char.valid
  have hhigh : ¬ JsonParser.isHighSurrogate char.val = true := by
    rw [← hval, isHighSurrogate_iff hlt]
    omega
  have hlow : ¬ JsonParser.isLowSurrogate char.val = true := by
    rw [← hval, isLowSurrogate_iff hlt]
    omega
  have hless : char.val < 0x80 ↔ char.toNat < 0x80 := UInt32.lt_iff_toNat_lt
  have hless' : char.val < 0x800 ↔ char.toNat < 0x800 := UInt32.lt_iff_toNat_lt
  have hresult : jc.decodeUnicodeChar =
      .ok { jc with parseBuffer := buffer ++ String.utf8EncodeChar char } := by
    rw [h.decode_eq hhex, if_neg (by decide), hval, encodeUtf8_eq]
    by_cases h₁ : char.toNat < 0x80
    · rw [if_pos (hless.2 h₁), if_pos h₁]
    rw [if_neg (mt hless.1 h₁), if_neg h₁]
    by_cases h₂ : char.toNat < 0x800
    · rw [if_pos (hless'.2 h₂), if_pos h₂]
    rw [if_neg (mt hless'.1 h₂), if_neg h₂, if_neg hhigh, if_neg hlow, if_pos hlt]
  have hdone := h.shorten (length_decoded hhex (length_utf8EncodeChar_le char)) 0
  rw [← h.half] at hdone
  rw [hresult, ← h.half]
  exact Machine.Makes.ok rfl hdone

/-- The escape of the first half of a pair. -/
theorem JsonParser.At.decode_high (h : jc.At state type stack (buffer ++ 92 :: 117 :: digits) 0)
    (hhex : Hex digits n) (hn : 0xD800 ≤ n) (hn' : n < 0xDC00) :
    Delivers callback jc.decodeUnicodeChar []
      (·.At state type stack buffer (UInt16.ofNat n)) jc.ctx := by
  have hnat := @toNat_ofNat_lt n (by omega)
  have hhalf : (UInt32.ofNat n).toUInt16 = UInt16.ofNat n := by
    apply UInt16.toNat_inj.1
    rw [UInt32.toNat_toUInt16, hnat, UInt16.toNat_ofNat']
  have hresult : jc.decodeUnicodeChar =
      .ok { jc with utf16HighSurrogate := UInt16.ofNat n, parseBuffer := buffer } := by
    have hless : ∀ m : UInt32, m.toNat ≤ 0xD800 → ¬ UInt32.ofNat n < m := by
      intro m hm hlt
      have hlt' := UInt32.lt_iff_toNat_lt.1 hlt
      omega
    rw [h.decode_eq hhex, if_neg (by decide), if_neg (hless 0x80 (by decide)),
      if_neg (hless 0x800 (by decide)),
      if_pos ((isHighSurrogate_iff (by omega)).2 ⟨hn, hn'⟩), hhalf]
  have hshorter : buffer.length ≤ (buffer ++ 92 :: 117 :: digits).length := by
    rw [List.length_append]
    exact Nat.le_add_right _ _
  rw [hresult]
  exact Machine.Makes.ok rfl (h.shorten hshorter _)

theorem half_ne_zero (hn : 0xD800 ≤ n) (hn' : n < 0xDC00) : UInt16.ofNat n ≠ 0 := by
  intro hzero
  have htoNat := congrArg UInt16.toNat hzero
  rw [UInt16.toNat_ofNat'] at htoNat
  change n % 65536 = 0 at htoNat
  omega

/-- The escape of the second half of a pair. -/
theorem JsonParser.At.decode_low {high : Nat} (char : Char)
    (h : jc.At state type stack (buffer ++ 92 :: 117 :: digits) (UInt16.ofNat high))
    (hhigh : 0xD800 ≤ high) (hhigh' : high < 0xDC00) (hhex : Hex digits n) (hn : 0xDC00 ≤ n)
    (hn' : n < 0xE000) (hchar : char.toNat = 0x10000 + (high - 0xD800) * 0x400 + (n - 0xDC00)) :
    Delivers callback jc.decodeUnicodeChar []
      (·.At state type stack (buffer ++ String.utf8EncodeChar char) 0) jc.ctx := by
  have hhalf := half_ne_zero hhigh hhigh'
  have hpair : JsonParser.decodeSurrogatePair (UInt16.ofNat high).toUInt32 (UInt32.ofNat n) =
      char.val := by
    apply UInt32.toNat_inj.1
    rw [decodeSurrogatePair_toNat hhigh hhigh' hn hn']
    exact hchar.symm
  have hresult : jc.decodeUnicodeChar =
      .ok { jc with
        utf16HighSurrogate := 0
        parseBuffer := buffer ++ String.utf8EncodeChar char } := by
    rw [h.decode_eq hhex, if_pos hhalf, if_pos ((isLowSurrogate_iff (by omega)).2 ⟨hn, hn'⟩),
      hpair, encodeUtf8_eq, if_neg (by omega), if_neg (by omega), if_neg (by omega)]
  rw [hresult]
  exact Machine.Makes.ok rfl
    (h.shorten (length_decoded hhex (length_utf8EncodeChar_le char)) 0)

end Decode

/-! ## Strings -/

section Strings

variable {σ : Type} {malloc : Nat → Bool} {callback : JsonEvent → σ → Except JsonStop σ}
  {jc : JsonParser σ} {stack : List JsonMode} {buffer buffer' digits : List UInt8}
  {half half' : UInt16} {n : Nat} {c : UInt8}

/-- In a value that has begun every character is kept. -/
theorem keptIn_of_type {type : JsonType} (h : type ≠ .none) (nextClass : JsonClass)
    (buffer : List UInt8) (c : UInt8) : keptIn type nextClass buffer c = buffer ++ [c] :=
  if_pos (.inl h)

/-- What the table has for the class of a hexadecimal digit. -/
theorem class_of_hex {value : Nat} (h : hexValue c = some value) :
    ∃ nextClass, characterClass (byteValue c) = some nextClass ∧
      stateTransitionTable .u1 nextClass = .state .u2 ∧
      stateTransitionTable .u2 nextClass = .state .u3 ∧
      stateTransitionTable .u3 nextClass = .state .u4 ∧
      stateTransitionTable .u4 nextClass = .action .uc := by
  have hall : ∀ n < 256, (hexValue (UInt8.ofNat n)).isSome = true →
      (characterClass (byteValue (UInt8.ofNat n))).any (fun nextClass =>
        stateTransitionTable .u1 nextClass = .state .u2 ∧
        stateTransitionTable .u2 nextClass = .state .u3 ∧
        stateTransitionTable .u3 nextClass = .state .u4 ∧
        stateTransitionTable .u4 nextClass = .action .uc) = true := by
    decide +kernel
  have hc := hall c.toNat (UInt8.toNat_lt c)
  rw [UInt8.ofNat_toNat, h] at hc
  obtain ⟨nextClass, hclass, htable⟩ := (Option.any_eq_true _ _).1 (hc rfl)
  exact ⟨nextClass, hclass, of_decide_eq_true htable⟩

/-- The last digit of an escape. -/
theorem JsonParser.At.lastDigit (hmalloc : ∀ size, malloc size = true) {value : Nat}
    (h : jc.At .u4 .string stack buffer half) (hc : hexValue c = some value)
    (hdecode : ∀ jc' : JsonParser σ, jc'.At .u4 .string stack (buffer ++ [c]) half →
      Delivers callback jc'.decodeUnicodeChar [] (·.At .u4 .string stack buffer' half') jc'.ctx) :
    Feeds malloc callback [c] []
      (·.At (if half' ≠ 0 then .d1 else .st) .string stack buffer' half') jc := by
  obtain ⟨_, hclass, -, -, -, htable⟩ := class_of_hex hc
  refine h.act hmalloc hclass htable fun jc₁ h₁ => ?_
  rw [keptIn_of_type (by decide)] at h₁
  rw [JsonParser.act]
  refine (hdecode jc₁ h₁).bind fun jc₂ h₂ => ?_
  have hstate : (if jc₂.utf16HighSurrogate ≠ 0 then JsonState.d1 else .st) =
      if half' ≠ 0 then .d1 else .st := by rw [h₂.half]
  exact Machine.Makes.ok rfl { h₂ with state := hstate }

/-- The digits of an escape. -/
theorem JsonParser.At.unicode (hmalloc : ∀ size, malloc size = true)
    (h : jc.At .u1 .string stack (buffer ++ [92, 117]) half) (hhex : Hex digits n)
    (hdecode : ∀ jc' : JsonParser σ,
      jc'.At .u4 .string stack (buffer ++ 92 :: 117 :: digits) half →
      Delivers callback jc'.decodeUnicodeChar [] (·.At .u4 .string stack buffer' half') jc'.ctx) :
    Feeds malloc callback digits []
      (·.At (if half' ≠ 0 then .d1 else .st) .string stack buffer' half') jc := by
  obtain @⟨a, b, c, d, w, x, y, z, ha, hb, hc, hd⟩ := hhex
  obtain ⟨_, hclass₁, htable₁, -⟩ := class_of_hex ha
  obtain ⟨_, hclass₂, -, htable₂, -⟩ := class_of_hex hb
  obtain ⟨_, hclass₃, -, -, htable₃, -⟩ := class_of_hex hc
  have hkept := @keptIn_of_type .string (by decide)
  refine (h.pass hmalloc hclass₁ htable₁).cons fun jc₁ h₁ => ?_
  refine (h₁.pass hmalloc hclass₂ htable₂).cons fun jc₂ h₂ => ?_
  refine (h₂.pass hmalloc hclass₃ htable₃).cons fun jc₃ h₃ => ?_
  refine h₃.lastDigit hmalloc hd fun jc₄ h₄ => hdecode jc₄ ?_
  rw [hkept, hkept, hkept, List.append_assoc, List.append_assoc, List.append_assoc,
    List.append_assoc] at h₄
  exact h₄

/-- The parser behind a backslash. -/
structure JsonParser.AtEscape (jc : JsonParser σ) (stack : List JsonMode) (buffer : List UInt8) :
    Prop where
  escaped : jc.escaped = true
  at_ : { jc with escaped := false }.At .es .string stack (buffer ++ [92]) 0

theorem JsonParser.At.backslash (hmalloc : ∀ size, malloc size = true)
    (h : jc.At .st .string stack buffer 0) :
    Feeds malloc callback [92] [] (·.AtEscape stack buffer) jc := by
  refine h.act hmalloc rfl rfl fun jc₁ h₁ => ?_
  rw [keptIn_of_type (by decide)] at h₁
  exact Machine.Makes.ok rfl ⟨rfl, { h₁ with state := rfl, escaped := rfl }⟩

theorem addEscapedChar_eq (jc : JsonParser σ) {nextChar : Int} {chars : List UInt8}
    (hroom : jc.parseBufferHasSpaceFor 1) (hbuffer : jc.parseBuffer = buffer ++ [92])
    (hchars : JsonParser.escapedChar nextChar = some chars) :
    jc.addEscapedCharToParseBuffer nextChar =
      .ok { jc with escaped := false, parseBuffer := buffer ++ chars } := by
  have hpop : { jc with escaped := false }.parseBufferPopBackChar =
      .ok { jc with escaped := false, parseBuffer := buffer } := by
    rw [JsonParser.parseBufferPopBackChar]
    dsimp only
    rw [hbuffer, jsonAssert_bind (length_push buffer 92), List.dropLast_concat]
    rfl
  have hpush : ∀ jc' : JsonParser σ, ∀ b, jc'.parseBufferHasSpaceFor 1 →
      jc'.parseBufferPushBackChar b = .ok { jc' with parseBuffer := jc'.parseBuffer ++ [b] } :=
    fun jc' b hroom => jsonAssert_bind hroom _
  have hspace : buffer.length + 3 ≤ jc.parseBufferCapacity := by
    rw [JsonParser.parseBufferHasSpaceFor, hbuffer, List.length_append] at hroom
    exact hroom
  have htwo : (∃ c, chars = [c]) ∨ chars = [92, 117] := by
    unfold JsonParser.escapedChar at hchars
    split at hchars <;> cases hchars <;> simp
  have hone : { jc with escaped := false, parseBuffer := buffer }.parseBufferHasSpaceFor 1 :=
    Nat.le_of_succ_le hspace
  rw [JsonParser.addEscapedCharToParseBuffer, jsonAssert_bind hroom, hpop, hchars]
  dsimp only [bind, Except.bind]
  rcases htwo with ⟨b, rfl⟩ | rfl
  · rw [List.foldlM_cons, hpush _ b hone]
    rfl
  · rw [List.foldlM_cons, hpush _ 92 hone]
    dsimp only [bind, Except.bind]
    rw [List.foldlM_cons, hpush _ 117 ?_]
    · dsimp only [bind, Except.bind]
      rw [List.append_assoc]
      rfl
    · change (buffer ++ [92]).length + 1 + 1 ≤ _
      rw [List.length_append]
      exact hspace

/-- What a character behind a backslash is replaced by. -/
theorem JsonParser.AtEscape.char (hmalloc : ∀ size, malloc size = true)
    (h : jc.AtEscape stack buffer) {nextClass : JsonClass} {next : JsonState}
    (hclass : characterClass (byteValue c) = some nextClass)
    (htable : stateTransitionTable .es nextClass = .state next) {chars : List UInt8}
    (hchars : JsonParser.escapedChar (byteValue c) = some chars) (hlength : chars.length ≤ 2) :
    Feeds malloc callback [c] [] (·.At next .string stack (buffer ++ chars) 0) jc := by
  have hhas : jc.HasRoom malloc := .inr (hmalloc _)
  obtain ⟨capacity, hreserve, hspace⟩ := hhas.reserve h.at_.room
  have hadd : jc.addCharToParseBuffer malloc (byteValue c) nextClass =
      .ok { jc with
        escaped := false
        parseBuffer := buffer ++ chars
        parseBufferCapacity := capacity } := by
    rw [JsonParser.addCharToParseBuffer, hreserve]
    dsimp only [bind, Except.bind]
    rw [if_pos h.escaped]
    exact addEscapedChar_eq _ hspace h.at_.buffer hchars
  have hstate : jc.state = .es := h.at_.state
  have hroom : (buffer ++ chars).length < capacity := by
    have hbuffer : jc.parseBuffer = buffer ++ [92] := h.at_.buffer
    rw [hbuffer, List.length_append, List.length_singleton] at hspace
    rw [List.length_append]
    omega
  rw [← hstate] at htable
  have hchar : jsonParserChar malloc callback (byteValue c) jc = _ :=
    jsonParserChar_state (byteValue_not_neg c) hclass hadd htable
  apply Machine.Drives.single
  rw [hchar]
  exact Machine.Makes.ok rfl { h.at_ with state := rfl, buffer := rfl, room := hroom }

theorem short_escape {b : UInt8} (h : (c, b) ∈ shortEscapes) :
    ∃ nextClass, characterClass (byteValue c) = some nextClass ∧
      stateTransitionTable .es nextClass = .state .st ∧
      JsonParser.escapedChar (byteValue c) = some [b] := by
  have hall : shortEscapes.all (fun escape =>
      (characterClass (byteValue escape.1)).any (fun nextClass =>
        stateTransitionTable .es nextClass = .state .st ∧
        JsonParser.escapedChar (byteValue escape.1) = some [escape.2])) = true := by decide
  have hc := List.all_eq_true.1 hall _ h
  obtain ⟨nextClass, hclass, htable⟩ := (Option.any_eq_true _ _).1 hc
  exact ⟨nextClass, hclass, of_decide_eq_true htable⟩

/-- A backslash and `u`. -/
theorem JsonParser.At.unicodeBegin (hmalloc : ∀ size, malloc size = true)
    (h : jc.At .st .string stack buffer 0) :
    Feeds malloc callback [92, 117] [] (·.At .u1 .string stack (buffer ++ [92, 117]) 0) jc :=
  (h.backslash hmalloc).cons fun _ h₁ =>
    h₁.char hmalloc rfl rfl rfl (by decide)

/-- **The characters of a string** come to its bytes. -/
theorem JsonParser.At.chars (hmalloc : ∀ size, malloc size = true) {text bytes : List UInt8}
    (hchars : Chars text bytes) (h : jc.At .st .string stack buffer 0) :
    Feeds malloc callback text [] (·.At .st .string stack (buffer ++ bytes) 0) jc := by
  induction hchars generalizing jc buffer with
  | nil =>
      rw [List.append_nil]
      exact Feeds.nil h
  | @byte c text bytes hc _ ih =>
      obtain ⟨nextClass, hclass, htable⟩ := characterClass_ordinary hc
      refine (h.pass hmalloc hclass htable).cons fun jc₁ h₁ => ?_
      rw [keptIn_of_type (by decide)] at h₁
      have hrest := ih h₁
      rwa [List.append_assoc] at hrest
  | @short c b text bytes hc _ ih =>
      obtain ⟨nextClass, hclass, htable, hescape⟩ := short_escape hc
      refine (h.backslash hmalloc).cons fun jc₁ h₁ => ?_
      refine (h₁.char hmalloc hclass htable hescape (Nat.le_succ 1)).cons fun jc₂ h₂ => ?_
      have hrest := ih h₂
      rwa [List.append_assoc] at hrest
  | @unicode digits text bytes char hhex _ ih =>
      refine (h.unicodeBegin hmalloc).append fun jc₁ h₁ => ?_
      refine (h₁.unicode hmalloc hhex fun jc₂ h₂ => h₂.decode_char hhex).append fun jc₃ h₃ => ?_
      have hrest := ih h₃
      rwa [List.append_assoc] at hrest
  | @pair high low text bytes char hlarge hhigh hlow _ ih =>
      have hvalid : char.toNat < 0xD800 ∨ 0xDFFF < char.toNat ∧ char.toNat < 0x110000 :=
        char.valid
      refine (h.unicodeBegin hmalloc).append fun jc₁ h₁ => ?_
      refine (h₁.unicode hmalloc hhigh fun jc₂ h₂ =>
        h₂.decode_high hhigh (by omega) (by omega)).append fun jc₃ h₃ => ?_
      rw [if_pos (half_ne_zero (by omega) (by omega))] at h₃
      refine (h₃.pass hmalloc rfl rfl).cons fun jc₄ h₄ => ?_
      refine (h₄.pass hmalloc rfl rfl).cons fun jc₅ h₅ => ?_
      rw [keptIn_of_type (by decide), keptIn_of_type (by decide), List.append_assoc] at h₅
      refine (h₅.unicode hmalloc hlow fun jc₆ h₆ => h₆.decode_low char (by omega) (by omega)
        hlow (by omega) (by omega) (by omega)).append fun jc₇ h₇ => ?_
      have hrest := ih h₇
      rwa [List.append_assoc] at hrest

end Strings

end Burrow.Http
