/-!
# Percent-encoding

An unreserved character of a URL stands for itself, and every other byte is written as
`%` and two hexadecimal digits. `Encoded` says that a string is made of such pieces
only, so that none of the characters that separate the parts of a URL occurs in it.
-/

set_option autoImplicit false

namespace PercentEncoding

def unreserved (c : Char) : Bool :=
  c.isAlphanum || c == '-' || c == '.' || c == '_' || c == '~'

def isHexDigit (c : Char) : Bool :=
  c.isDigit || ('A' ≤ c && c ≤ 'F') || ('a' ≤ c && c ≤ 'f')

/-- Unreserved characters and `%XX`. -/
inductive Encoded : List Char → Prop where
  | nil : Encoded []
  | char {c : Char} {s : List Char} : unreserved c = true → Encoded s → Encoded (c :: s)
  | byte {c d : Char} {s : List Char} : isHexDigit c = true → isHexDigit d = true →
      Encoded s → Encoded ('%' :: c :: d :: s)

/-- A character that is neither unreserved nor part of a `%XX`. -/
def separates (c : Char) : Bool := !unreserved c && !isHexDigit c && c != '%'

theorem Encoded.not_mem {s : List Char} (h : Encoded s) {c : Char} (hc : separates c = true) :
    c ∉ s := by
  rw [separates, Bool.and_eq_true, Bool.and_eq_true, Bool.not_eq_true', Bool.not_eq_true',
    bne_iff_ne] at hc
  obtain ⟨⟨hunreserved, hhex⟩, hpercent⟩ := hc
  -- by induction on the encoding: a plain character, or a percent sign and two digits
  induction h with
  | nil => exact List.not_mem_nil
  | char hd _ ih =>
      rw [List.mem_cons, not_or]
      refine ⟨?_, ih⟩
      rintro rfl
      exact Bool.false_ne_true (hunreserved.symm.trans hd)
  | byte hd he _ ih =>
      rw [List.mem_cons, List.mem_cons, List.mem_cons, not_or, not_or, not_or]
      refine ⟨hpercent, ?_, ?_, ih⟩
      · rintro rfl
        exact Bool.false_ne_true (hhex.symm.trans hd)
      · rintro rfl
        exact Bool.false_ne_true (hhex.symm.trans he)

theorem Encoded.append {s t : List Char} (hs : Encoded s) (ht : Encoded t) : Encoded (s ++ t) := by
  induction hs with
  | nil => exact ht
  | char hc _ ih => exact .char hc ih
  | byte hc hd _ ih => exact .byte hc hd ih

/-- The string is empty or starts with a separator. -/
def Delimited (s : List Char) : Prop := ∀ c, s.head? = some c → separates c = true

theorem Delimited.nil : Delimited [] := fun _ h => absurd h (by simp)

theorem Delimited.cons {c : Char} (hc : separates c = true) (s : List Char) :
    Delimited (c :: s) := by
  intro d hd
  rw [← Option.some.inj hd]
  exact hc

theorem append_inj_of_not_mem {s t r r' : List Char} (hs : ∀ c, separates c = true → c ∉ s)
    (ht : ∀ c, separates c = true → c ∉ t) (hr : Delimited r) (hr' : Delimited r')
    (h : s ++ r = t ++ r') : s = t ∧ r = r' := by
  induction s generalizing t with
  | nil =>
      cases t with
      | nil => exact ⟨rfl, h⟩
      -- what follows the shorter one would start with a separator, which the longer one
      -- has not
      | cons c t =>
          have hc := hr c (congrArg List.head? h)
          exact absurd List.mem_cons_self (ht c hc)
  | cons c s ih =>
      cases t with
      | nil =>
          have hc := hr' c (congrArg List.head? h.symm)
          exact absurd List.mem_cons_self (hs c hc)
      | cons d t =>
          obtain ⟨rfl, htail⟩ := List.cons.inj h
          obtain ⟨rfl, hrest⟩ := ih (fun e he hmem => hs e he (List.mem_cons_of_mem _ hmem))
            (fun e he hmem => ht e he (List.mem_cons_of_mem _ hmem)) htail
          exact ⟨rfl, hrest⟩

/-- **An encoded string can be told from what follows it.** -/
theorem Encoded.append_inj {s t r r' : List Char} (hs : Encoded s) (ht : Encoded t)
    (hr : Delimited r) (hr' : Delimited r') (h : s ++ r = t ++ r') : s = t ∧ r = r' :=
  append_inj_of_not_mem (fun _ => hs.not_mem) (fun _ => ht.not_mem) hr hr' h

/-! ## The encoding -/

def hexDigit (n : Nat) : Char := Char.ofNat (if n < 10 then 48 + n else 55 + n)

def encodeByte (b : UInt8) : List Char :=
  if unreserved (Char.ofNat b.toNat) then [Char.ofNat b.toNat]
  else ['%', hexDigit (b.toNat / 16), hexDigit (b.toNat % 16)]

def encodeBytes (bytes : List UInt8) : List Char := bytes.flatMap encodeByte

/-- The bytes of a string, in UTF-8. -/
def bytes (s : String) : List UInt8 := s.toList.flatMap String.utf8EncodeChar

def encode (s : String) : String := String.ofList (encodeBytes (bytes s))

theorem isHexDigit_hexDigit : ∀ n : Fin 16, isHexDigit (hexDigit n) = true := by decide

theorem hexDigit_injective : ∀ m n : Fin 16, hexDigit m = hexDigit n → m = n := by decide

theorem encodeByte_encoded (b : UInt8) : Encoded (encodeByte b) := by
  rw [encodeByte]
  split
  · next h => exact .char h .nil
  · exact .byte (isHexDigit_hexDigit ⟨b.toNat / 16, by have := b.toNat_lt; omega⟩)
      (isHexDigit_hexDigit ⟨b.toNat % 16, by omega⟩) .nil

theorem encodeBytes_encoded (bytes : List UInt8) : Encoded (encodeBytes bytes) := by
  induction bytes with
  | nil => exact .nil
  | cons b bytes ih => exact (encodeByte_encoded b).append ih

theorem toNat_ofNat_byte {n : Nat} (h : n < 256) : (Char.ofNat n).toNat = n := by
  have hvalid : n.isValidChar := Or.inl (by omega)
  rw [Char.ofNat, dif_pos hvalid]
  rfl

/-- The code of a byte can be told from what follows it. -/
theorem encodeByte_append_inj {b b' : UInt8} {s s' : List Char}
    (h : encodeByte b ++ s = encodeByte b' ++ s') : b = b' ∧ s = s' := by
  have hb := b.toNat_lt
  have hb' := b'.toNat_lt
  have hpercent : unreserved '%' = false := by decide
  rw [encodeByte, encodeByte] at h
  split at h
  · next hc =>
      split at h
      · next hc' =>
          obtain ⟨hchar, hs⟩ := List.cons.inj h
          refine ⟨UInt8.toNat_inj.1 ?_, hs⟩
          rw [← toNat_ofNat_byte hb, hchar, toNat_ofNat_byte hb']
      · rw [(List.cons.inj h).1, hpercent] at hc
        exact absurd hc Bool.false_ne_true
  · split at h
    · next hc' =>
        rw [← (List.cons.inj h).1, hpercent] at hc'
        exact absurd hc' Bool.false_ne_true
    · obtain ⟨hhigh, h⟩ := List.cons.inj (List.cons.inj h).2
      obtain ⟨hlow, hs⟩ := List.cons.inj h
      have hdiv := Fin.val_eq_of_eq
        (hexDigit_injective ⟨b.toNat / 16, by omega⟩ ⟨b'.toNat / 16, by omega⟩ hhigh)
      have hmod := Fin.val_eq_of_eq
        (hexDigit_injective ⟨b.toNat % 16, by omega⟩ ⟨b'.toNat % 16, by omega⟩ hlow)
      refine ⟨UInt8.toNat_inj.1 ?_, hs⟩
      dsimp only at hdiv hmod
      omega

theorem encodeByte_ne_nil (b : UInt8) : encodeByte b ≠ [] := by
  rw [encodeByte]
  split <;> exact List.cons_ne_nil _ _

theorem encodeBytes_injective {bs bs' : List UInt8} (h : encodeBytes bs = encodeBytes bs') :
    bs = bs' := by
  induction bs generalizing bs' with
  | nil =>
      cases bs' with
      | nil => rfl
      | cons b' bs' => exact absurd (List.append_eq_nil_iff.1 h.symm).1 (encodeByte_ne_nil b')
  | cons b bs ih =>
      cases bs' with
      | nil => exact absurd (List.append_eq_nil_iff.1 h).1 (encodeByte_ne_nil b)
      | cons b' bs' =>
          obtain ⟨rfl, hrest⟩ := encodeByte_append_inj h
          rw [ih hrest]

theorem bytes_injective {s t : String} (h : bytes s = bytes t) : s = t := by
  have harray : s.toList.utf8Encode = t.toList.utf8Encode := congrArg List.toByteArray h
  rw [String.utf8Encode_toList, String.utf8Encode_toList] at harray
  exact String.toByteArray_inj.1 harray

theorem encode_encoded (s : String) : Encoded (encode s).toList := by
  rw [encode, String.toList_ofList]
  exact encodeBytes_encoded _

theorem encode_injective {s t : String} (h : encode s = encode t) : s = t :=
  bytes_injective (encodeBytes_injective (String.ofList_injective h))

theorem length_le_length_flatMap {α β : Type} {f : α → List β} (hf : ∀ a, f a ≠ [])
    (l : List α) : l.length ≤ (l.flatMap f).length := by
  induction l with
  | nil => exact Nat.le_refl 0
  | cons a l ih =>
      have ha := List.length_pos_iff.2 (hf a)
      rw [List.flatMap_cons, List.length_append, List.length_cons]
      omega

/-- No string gets shorter. -/
theorem length_le_length_encode (s : String) : s.length ≤ (encode s).length := by
  have hchar : ∀ c : Char, String.utf8EncodeChar c ≠ [] := by
    intro c
    rw [← List.length_pos_iff, String.length_utf8EncodeChar]
    exact Char.utf8Size_pos c
  rw [encode, String.length_ofList, ← String.length_toList]
  exact Nat.le_trans (length_le_length_flatMap hchar _)
    (length_le_length_flatMap encodeByte_ne_nil _)

end PercentEncoding
