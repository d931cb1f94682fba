import Tidymark.Text

/-! # UTF-8

Decoding bytes to a text. Bytes that are no UTF-8 answer with the length of their longest
prefix that is. The bytes of a text decode to that text. -/
namespace Tidymark.Text

def isTail (b : UInt8) : Bool := 0x80 ≤ b && b ≤ 0xBF

/-- The second byte after a three- or four-byte lead: the lead narrows its range where a longer
form or a surrogate would begin. -/
def isSecond (lead b : UInt8) : Bool :=
  if lead == 0xE0 then 0xA0 ≤ b && b ≤ 0xBF
  else if lead == 0xED then 0x80 ≤ b && b ≤ 0x9F
  else if lead == 0xF0 then 0x90 ≤ b && b ≤ 0xBF
  else if lead == 0xF4 then 0x80 ≤ b && b ≤ 0x8F
  else isTail b

private def bits (b : UInt8) (mask : Nat) : Nat := b.toNat % mask

/-- The first character of `bytes` and the number of bytes it takes. -/
def decodeChar : List UInt8 → Option (Char × Nat)
  | [] => none
  | a :: rest =>
    if a < 0x80 then some (Char.ofNat a.toNat, 1)
    else match rest with
      | b :: rest =>
        if 0xC2 ≤ a && a ≤ 0xDF then
          if isTail b then some (Char.ofNat (bits a 32 * 64 + bits b 64), 2) else none
        else if !isSecond a b then none
        else match rest with
          | c :: rest =>
            if !isTail c then none
            else if 0xE0 ≤ a && a ≤ 0xEF then
              some (Char.ofNat ((bits a 16 * 64 + bits b 64) * 64 + bits c 64), 3)
            else if 0xF0 ≤ a && a ≤ 0xF4 then
              match rest with
              | d :: _ =>
                if isTail d then
                  some (Char.ofNat (((bits a 8 * 64 + bits b 64) * 64 + bits c 64) * 64 +
                    bits d 64), 4)
                else none
              | [] => none
            else none
          | [] => none
      | [] => none

/-- Decodes the bytes after the first `skip`, which belong to a character already read. -/
private def decodeFrom (offset skip : Nat) : List UInt8 → Except Nat Text
  | [] => .ok []
  | b :: rest =>
    match skip with
    | n + 1 => decodeFrom (offset + 1) n rest
    | 0 =>
      match decodeChar (b :: rest) with
      | none => .error offset
      | some (c, n) => (decodeFrom (offset + 1) (n - 1) rest).map (c :: ·)

/-- The text of `bytes`, or the length of the longest valid prefix. -/
def decode (bytes : List UInt8) : Except Nat Text := decodeFrom 0 0 bytes

/-- The bytes of a text. -/
def encode (t : Text) : List UInt8 := t.flatMap String.utf8EncodeChar

@[simp] theorem encode_append (s t : Text) : encode (s ++ t) = encode s ++ encode t :=
  List.flatMap_append

@[simp] theorem length_encode (t : Text) : (encode t).length = t.size := by
  induction t with
  | nil => rfl
  | cons c t ih =>
    rw [encode, List.flatMap_cons, List.length_append, String.length_utf8EncodeChar, size_cons]
    exact congrArg _ ih

theorem isTail_iff {b : UInt8} : isTail b = true ↔ 0x80 ≤ b.toNat ∧ b.toNat ≤ 0xBF := by
  simp [isTail, UInt8.le_iff_toNat_le]

theorem isSecond_iff {lead b : UInt8} : isSecond lead b = true ↔
    0x80 ≤ b.toNat ∧ b.toNat ≤ 0xBF ∧ (lead.toNat = 0xE0 → 0xA0 ≤ b.toNat) ∧
      (lead.toNat = 0xED → b.toNat ≤ 0x9F) ∧ (lead.toNat = 0xF0 → 0x90 ≤ b.toNat) ∧
      (lead.toNat = 0xF4 → b.toNat ≤ 0x8F) := by
  simp only [isSecond, isTail, ← UInt8.toNat_inj, beq_iff_eq, UInt8.le_iff_toNat_le,
    UInt8.reduceToNat]
  repeat' split
  all_goals
    simp only [Bool.and_eq_true, decide_eq_true_eq]
    omega

section
variable {a b c d : UInt8} (rest : List UInt8)

private theorem decodeChar_one (ha : a.toNat ≤ 0x7F) :
    decodeChar (a :: rest) = some (Char.ofNat a.toNat, 1) := by
  simp only [decodeChar, UInt8.lt_iff_toNat_lt, UInt8.reduceToNat]
  rw [if_pos (by omega)]

private theorem decodeChar_two (ha : 0xC2 ≤ a.toNat ∧ a.toNat ≤ 0xDF) (hb : isTail b = true) :
    decodeChar (a :: b :: rest) = some (Char.ofNat (bits a 32 * 64 + bits b 64), 2) := by
  simp only [decodeChar, UInt8.lt_iff_toNat_lt, UInt8.le_iff_toNat_le, UInt8.reduceToNat,
    Bool.and_eq_true, decide_eq_true_eq, hb, if_true]
  rw [if_neg (by omega), if_pos (by omega)]

private theorem decodeChar_three (ha : 0xE0 ≤ a.toNat ∧ a.toNat ≤ 0xEF)
    (hb : isSecond a b = true) (hc : isTail c = true) :
    decodeChar (a :: b :: c :: rest) =
      some (Char.ofNat ((bits a 16 * 64 + bits b 64) * 64 + bits c 64), 3) := by
  simp only [decodeChar, UInt8.lt_iff_toNat_lt, UInt8.le_iff_toNat_le, UInt8.reduceToNat,
    Bool.and_eq_true, decide_eq_true_eq, hb, hc, Bool.not_true, Bool.false_eq_true, if_false]
  rw [if_neg (by omega), if_neg (by omega), if_pos (by omega)]

private theorem decodeChar_four (ha : 0xF0 ≤ a.toNat ∧ a.toNat ≤ 0xF4)
    (hb : isSecond a b = true) (hc : isTail c = true) (hd : isTail d = true) :
    decodeChar (a :: b :: c :: d :: rest) =
      some (Char.ofNat (((bits a 8 * 64 + bits b 64) * 64 + bits c 64) * 64 + bits d 64), 4) := by
  simp only [decodeChar, UInt8.lt_iff_toNat_lt, UInt8.le_iff_toNat_le, UInt8.reduceToNat,
    Bool.and_eq_true, decide_eq_true_eq, hb, hc, hd, Bool.not_true, Bool.false_eq_true, if_false,
    if_true]
  rw [if_neg (by omega), if_neg (by omega), if_neg (by omega), if_pos (by omega)]

end

private theorem toNat_byte {n : Nat} (h : n < 256) : (UInt8.ofNat n).toNat = n := by
  rw [UInt8.toNat_ofNat']
  omega

/-- The bytes of a character are read as that character, whatever follows them. -/
theorem decodeChar_append (c : Char) (rest : List UInt8) :
    decodeChar (String.utf8EncodeChar c ++ rest) = some (c, c.utf8Size) := by
  have hvalid := c.valid
  have hback : Char.ofNat c.val.toNat = c := Char.ofNat_toNat c
  rw [← String.length_utf8EncodeChar]
  simp only [UInt32.isValidChar, Nat.isValidChar] at hvalid
  unfold String.utf8EncodeChar
  dsimp only
  generalize c.val.toNat = n at *
  split
  · have ha : (UInt8.ofNat n).toNat = n := toNat_byte (by omega)
    exact (decodeChar_one rest (by omega)).trans (by rw [ha, hback]; rfl)
  split
  · have ha : (UInt8.ofNat (n / 64 % 32 + 192)).toNat = n / 64 % 32 + 192 := toNat_byte (by omega)
    have hb : (UInt8.ofNat (n % 64 + 128)).toNat = n % 64 + 128 := toNat_byte (by omega)
    refine (decodeChar_two rest (by omega) (isTail_iff.mpr (by omega))).trans ?_
    have hn : (n / 64 % 32 + 192) % 32 * 64 + (n % 64 + 128) % 64 = n := by omega
    rw [bits, bits, ha, hb, hn, hback]
    rfl
  split
  · have ha : (UInt8.ofNat (n / 4096 % 16 + 224)).toNat = n / 4096 % 16 + 224 :=
      toNat_byte (by omega)
    have hb : (UInt8.ofNat (n / 64 % 64 + 128)).toNat = n / 64 % 64 + 128 := toNat_byte (by omega)
    have hc : (UInt8.ofNat (n % 64 + 128)).toNat = n % 64 + 128 := toNat_byte (by omega)
    refine (decodeChar_three rest (by omega) (isSecond_iff.mpr (by omega))
      (isTail_iff.mpr (by omega))).trans ?_
    have hn : ((n / 4096 % 16 + 224) % 16 * 64 + (n / 64 % 64 + 128) % 64) * 64 +
        (n % 64 + 128) % 64 = n := by omega
    rw [bits, bits, bits, ha, hb, hc, hn, hback]
    rfl
  · have ha : (UInt8.ofNat (n / 262144 % 8 + 240)).toNat = n / 262144 % 8 + 240 :=
      toNat_byte (by omega)
    have hb : (UInt8.ofNat (n / 4096 % 64 + 128)).toNat = n / 4096 % 64 + 128 :=
      toNat_byte (by omega)
    have hc : (UInt8.ofNat (n / 64 % 64 + 128)).toNat = n / 64 % 64 + 128 := toNat_byte (by omega)
    have hd : (UInt8.ofNat (n % 64 + 128)).toNat = n % 64 + 128 := toNat_byte (by omega)
    refine (decodeChar_four rest (by omega) (isSecond_iff.mpr (by omega))
      (isTail_iff.mpr (by omega)) (isTail_iff.mpr (by omega))).trans ?_
    have hn : (((n / 262144 % 8 + 240) % 8 * 64 + (n / 4096 % 64 + 128) % 64) * 64 +
        (n / 64 % 64 + 128) % 64) * 64 + (n % 64 + 128) % 64 = n := by omega
    rw [bits, bits, bits, bits, ha, hb, hc, hd, hn, hback]
    rfl

/-- The bytes of a character that is read already are passed over. -/
private theorem decodeFrom_skip (offset : Nat) (skipped rest : List UInt8) :
    decodeFrom offset skipped.length (skipped ++ rest) =
      decodeFrom (offset + skipped.length) 0 rest := by
  induction skipped generalizing offset with
  | nil => rfl
  | cons b skipped ih =>
    rw [List.length_cons, List.cons_append, decodeFrom, ih, Nat.add_right_comm, Nat.add_assoc]

private theorem decodeFrom_encode (offset : Nat) (t : Text) :
    decodeFrom offset 0 (encode t) = .ok t := by
  induction t generalizing offset with
  | nil => rfl
  | cons c t ih =>
    have hchar := decodeChar_append c (encode t)
    have hsize := String.length_utf8EncodeChar c
    rw [encode, List.flatMap_cons, ← encode]
    cases hbytes : String.utf8EncodeChar c with
    | nil =>
      have hpos := c.utf8Size_pos
      rw [hbytes, List.length_nil] at hsize
      omega
    | cons b bytes =>
      rw [hbytes] at hchar hsize
      rw [List.cons_append] at hchar ⊢
      have hskip : c.utf8Size - 1 = bytes.length := by
        rw [← hsize, List.length_cons, Nat.add_sub_cancel]
      simp only [decodeFrom, hchar, hskip, decodeFrom_skip, ih]
      rfl

/-- The bytes of a text decode to that text. -/
theorem decode_encode (t : Text) : decode (encode t) = .ok t := decodeFrom_encode 0 t

end Tidymark.Text
