import UnoQ.Ssh.NodeText

/-!
# Decoding UTF-8

`toString('utf8')` undoes the encoding of a string, and a text without replacement
characters comes from its own encoding only. So a comparison of the decoded text is one of
the bytes.
-/

namespace UnoQ.Ssh
open BigEndian

def utf8 (s : String) : Bytes := s.toList.flatMap String.utf8EncodeChar

/-! ### One character -/

theorem toNat_cases (c : Char) : c.toNat < 0xd800 ∨ 0xdfff < c.toNat ∧ c.toNat < 0x110000 := c.valid

theorem ofNat_eq {n : ℕ} {c : Char} (h : c.toNat = n) : Char.ofNat n = c := by
  rw [← h]
  exact Char.ofNat_toNat c

theorem toNat_byte {n : ℕ} (h : n < 256) : (UInt8.ofNat n).toNat = n := by
  rw [UInt8.toNat_ofNat']
  exact Nat.mod_eq_of_lt h

theorem nextByte_last {bits lower upper b : ℕ} (hb : lower ≤ b ∧ b ≤ upper) :
    nextByte (some ⟨1, bits, lower, upper⟩) b = ([Char.ofNat (bits * 64 + b % 64)], none) := by
  simp only [nextByte, if_pos hb, if_true]

theorem nextByte_more {needed bits lower upper b : ℕ} (hb : lower ≤ b ∧ b ≤ upper) :
    nextByte (some ⟨needed + 2, bits, lower, upper⟩) b =
      ([], some ⟨needed + 1, bits * 64 + b % 64, 0x80, 0xbf⟩) := by
  have hmore : needed + 2 ≠ 1 := by omega
  simp only [nextByte, if_pos hb, if_neg hmore]
  rfl

theorem decodeChars_cons (q : Option Sequence) (b : UInt8) (bs : Bytes) :
    decodeChars q (b :: bs) = (nextByte q b.toNat).1 ++ decodeChars (nextByte q b.toNat).2 bs := by
  cases q <;> rfl

theorem decodeChars_one {a : UInt8} (ha : a.toNat < 0x80) (bs : Bytes) :
    decodeChars none (a :: bs) = Char.ofNat a.toNat :: decodeChars none bs := by
  rw [decodeChars_cons]
  simp only [nextByte, firstByte, if_pos ha]
  rfl

theorem firstByte_two {a : ℕ} (h : 0xc2 ≤ a ∧ a < 0xe0) :
    firstByte a = ([], some ⟨1, a % 0x20, 0x80, 0xbf⟩) := by
  unfold firstByte
  rw [if_neg (by omega), if_neg (by omega), if_pos h.2]

/-- What may follow the first byte of three. -/
abbrev SecondOfThree (a b : ℕ) : Prop :=
  (if a = 0xe0 then 0xa0 else 0x80) ≤ b ∧ b ≤ if a = 0xed then 0x9f else 0xbf

theorem firstByte_three {a : ℕ} (h : 0xe0 ≤ a ∧ a < 0xf0) :
    firstByte a = ([], some ⟨2, a % 0x10, if a = 0xe0 then 0xa0 else 0x80,
      if a = 0xed then 0x9f else 0xbf⟩) := by
  unfold firstByte
  rw [if_neg (by omega), if_neg (by omega), if_neg (by omega), if_pos h.2]

/-- What may follow the first byte of four. -/
abbrev SecondOfFour (a b : ℕ) : Prop :=
  (if a = 0xf0 then 0x90 else 0x80) ≤ b ∧ b ≤ if a = 0xf4 then 0x8f else 0xbf

theorem firstByte_four {a : ℕ} (h : 0xf0 ≤ a ∧ a < 0xf5) :
    firstByte a = ([], some ⟨3, a % 8, if a = 0xf0 then 0x90 else 0x80,
      if a = 0xf4 then 0x8f else 0xbf⟩) := by
  unfold firstByte
  rw [if_neg (by omega), if_neg (by omega), if_neg (by omega), if_neg (by omega), if_pos h.2]

abbrev TailByte (b : ℕ) : Prop := 0x80 ≤ b ∧ b ≤ 0xbf

theorem decodeChars_two {a b : UInt8} (ha : 0xc2 ≤ a.toNat ∧ a.toNat < 0xe0) (hb : TailByte b.toNat)
    (bs : Bytes) :
    decodeChars none (a :: b :: bs) =
      Char.ofNat (a.toNat % 0x20 * 64 + b.toNat % 64) :: decodeChars none bs := by
  rw [decodeChars_cons]
  simp only [nextByte, firstByte_two ha]
  rw [decodeChars_cons, nextByte_last hb]
  rfl

theorem decodeChars_three {a b c : UInt8} (ha : 0xe0 ≤ a.toNat ∧ a.toNat < 0xf0)
    (hb : SecondOfThree a.toNat b.toNat) (hc : TailByte c.toNat) (bs : Bytes) :
    decodeChars none (a :: b :: c :: bs) =
      Char.ofNat ((a.toNat % 0x10 * 64 + b.toNat % 64) * 64 + c.toNat % 64) ::
        decodeChars none bs := by
  rw [decodeChars_cons]
  simp only [nextByte, firstByte_three ha]
  rw [decodeChars_cons, nextByte_more hb, decodeChars_cons, nextByte_last hc]
  rfl

theorem decodeChars_four {a b c d : UInt8} (ha : 0xf0 ≤ a.toNat ∧ a.toNat < 0xf5)
    (hb : SecondOfFour a.toNat b.toNat) (hc : TailByte c.toNat) (hd : TailByte d.toNat) (bs : Bytes) :
    decodeChars none (a :: b :: c :: d :: bs) =
      Char.ofNat (((a.toNat % 8 * 64 + b.toNat % 64) * 64 + c.toNat % 64) * 64 + d.toNat % 64) ::
        decodeChars none bs := by
  rw [decodeChars_cons]
  simp only [nextByte, firstByte_four ha]
  rw [decodeChars_cons, nextByte_more hb, decodeChars_cons, nextByte_more hc,
    decodeChars_cons, nextByte_last hd]
  rfl

theorem decodeChars_encode (c : Char) (bs : Bytes) :
    decodeChars none (String.utf8EncodeChar c ++ bs) = c :: decodeChars none bs := by
  obtain ⟨n, hn⟩ : ∃ n, c.val.toNat = n := ⟨_, rfl⟩
  have hc : Char.ofNat n = c := ofNat_eq hn
  have hrange : n < 0xd800 ∨ 0xdfff < n ∧ n < 0x110000 := by
    rw [← hn]
    exact toNat_cases c
  have hbyte : ∀ m, m < 256 → (UInt8.ofNat m).toNat = m := fun m hm => toNat_byte hm
  unfold String.utf8EncodeChar
  rw [hn]
  dsimp only
  split
  next hone =>
    rw [List.cons_append, List.nil_append, decodeChars_one (by rw [hbyte n (by omega)]; omega),
      hbyte n (by omega), hc]
  next hone =>
    split
    next htwo =>
      have ha := hbyte (n / 64 % 0x20 + 0xc0) (by omega)
      have hb := hbyte (n % 0x40 + 0x80) (by omega)
      have hbits : (n / 64 % 0x20 + 0xc0) % 0x20 * 64 + (n % 0x40 + 0x80) % 64 = n := by omega
      simp only [List.cons_append, List.nil_append]
      rw [decodeChars_two (by rw [ha]; omega) (by rw [hb, TailByte]; omega), ha, hb, hbits, hc]
    next htwo =>
      split
      next hthree =>
        have ha := hbyte (n / 4096 % 0x10 + 0xe0) (by omega)
        have hb := hbyte (n / 64 % 0x40 + 0x80) (by omega)
        have hd := hbyte (n % 0x40 + 0x80) (by omega)
        have hsecond : SecondOfThree (n / 4096 % 0x10 + 0xe0) (n / 64 % 0x40 + 0x80) := by
          unfold SecondOfThree
          constructor <;> split <;> omega
        have hbits : ((n / 4096 % 0x10 + 0xe0) % 0x10 * 64 + (n / 64 % 0x40 + 0x80) % 64) * 64 +
            (n % 0x40 + 0x80) % 64 = n := by omega
        simp only [List.cons_append, List.nil_append]
        rw [decodeChars_three (by rw [ha]; omega) (by rw [ha, hb]; exact hsecond)
          (by rw [hd, TailByte]; omega), ha, hb, hd, hbits, hc]
      next hthree =>
        have ha := hbyte (n / 262144 % 0x08 + 0xf0) (by omega)
        have hb := hbyte (n / 4096 % 0x40 + 0x80) (by omega)
        have hd := hbyte (n / 64 % 0x40 + 0x80) (by omega)
        have he := hbyte (n % 0x40 + 0x80) (by omega)
        have hsecond : SecondOfFour (n / 262144 % 0x08 + 0xf0) (n / 4096 % 0x40 + 0x80) := by
          unfold SecondOfFour
          constructor <;> split <;> omega
        have hbits : (((n / 262144 % 0x08 + 0xf0) % 8 * 64 + (n / 4096 % 0x40 + 0x80) % 64) * 64 +
            (n / 64 % 0x40 + 0x80) % 64) * 64 + (n % 0x40 + 0x80) % 64 = n := by omega
        simp only [List.cons_append, List.nil_append]
        rw [decodeChars_four (by rw [ha]; omega) (by rw [ha, hb]; exact hsecond)
          (by rw [hd, TailByte]; omega) (by rw [he, TailByte]; omega), ha, hb, hd, he, hbits, hc]

/-! ### Text without replacement characters -/

theorem encode_of_val {n : ℕ} (hn : n.isValidChar) {c : Char} (hc : c = Char.ofNat n) :
    c.val.toNat = n := by
  rw [hc]
  unfold Char.ofNat
  rw [dif_pos hn]
  rfl

theorem ofNat_toNat_byte {b : UInt8} {n : ℕ} (h : n = b.toNat) : UInt8.ofNat n = b := by
  rw [h]
  exact UInt8.ofNat_toNat

theorem encode_one {a : UInt8} (ha : a.toNat < 0x80) :
    String.utf8EncodeChar (Char.ofNat a.toNat) = [a] := by
  have hval := encode_of_val (n := a.toNat) (Or.inl (by omega)) rfl
  unfold String.utf8EncodeChar
  rw [hval]
  dsimp only
  rw [if_pos (by omega), ofNat_toNat_byte rfl]

theorem encode_two {a b : UInt8} (ha : 0xc2 ≤ a.toNat ∧ a.toNat < 0xe0) (hb : TailByte b.toNat) :
    String.utf8EncodeChar (Char.ofNat (a.toNat % 0x20 * 64 + b.toNat % 64)) = [a, b] := by
  obtain ⟨hlow, hhigh⟩ := hb
  have hval := encode_of_val (n := a.toNat % 0x20 * 64 + b.toNat % 64) (Or.inl (by omega)) rfl
  unfold String.utf8EncodeChar
  rw [hval]
  dsimp only
  rw [if_neg (by omega), if_pos (by omega), ofNat_toNat_byte (b := a) (by omega),
    ofNat_toNat_byte (b := b) (by omega)]

theorem encode_three {a b c : UInt8} (ha : 0xe0 ≤ a.toNat ∧ a.toNat < 0xf0)
    (hb : SecondOfThree a.toNat b.toNat) (hc : TailByte c.toNat) :
    String.utf8EncodeChar (Char.ofNat ((a.toNat % 0x10 * 64 + b.toNat % 64) * 64 + c.toNat % 64)) =
      [a, b, c] := by
  obtain ⟨hlow, hhigh⟩ := hb
  obtain ⟨hlow', hhigh'⟩ := hc
  obtain ⟨n, hn⟩ : ∃ n, (a.toNat % 0x10 * 64 + b.toNat % 64) * 64 + c.toNat % 64 = n := ⟨_, rfl⟩
  have hsplit : 0x80 ≤ b.toNat ∧ b.toNat ≤ 0xbf ∧ 0x7ff < n ∧ n ≤ 0xffff ∧
      (n < 0xd800 ∨ 0xdfff < n) := by
    split at hlow <;> split at hhigh <;> omega
  obtain ⟨hb₁, hb₂, hmin, hmax, hgap⟩ := hsplit
  have hval := encode_of_val (n := n) (by unfold Nat.isValidChar; omega) rfl
  rw [hn]
  unfold String.utf8EncodeChar
  rw [hval]
  dsimp only
  rw [if_neg (by omega), if_neg (by omega), if_pos hmax, ofNat_toNat_byte (b := a) (by omega),
    ofNat_toNat_byte (b := b) (by omega), ofNat_toNat_byte (b := c) (by omega)]

theorem encode_four {a b c d : UInt8} (ha : 0xf0 ≤ a.toNat ∧ a.toNat < 0xf5)
    (hb : SecondOfFour a.toNat b.toNat) (hc : TailByte c.toNat) (hd : TailByte d.toNat) :
    String.utf8EncodeChar (Char.ofNat
      (((a.toNat % 8 * 64 + b.toNat % 64) * 64 + c.toNat % 64) * 64 + d.toNat % 64)) =
      [a, b, c, d] := by
  obtain ⟨hlow, hhigh⟩ := hb
  obtain ⟨hlow', hhigh'⟩ := hc
  obtain ⟨hlow'', hhigh''⟩ := hd
  obtain ⟨n, hn⟩ : ∃ n,
      ((a.toNat % 8 * 64 + b.toNat % 64) * 64 + c.toNat % 64) * 64 + d.toNat % 64 = n := ⟨_, rfl⟩
  have hsplit : 0x80 ≤ b.toNat ∧ b.toNat ≤ 0xbf ∧ 0xffff < n ∧ n < 0x110000 := by
    split at hlow <;> split at hhigh <;> omega
  obtain ⟨hb₁, hb₂, hmin, hmax⟩ := hsplit
  have hval := encode_of_val (n := n) (by unfold Nat.isValidChar; omega) rfl
  rw [hn]
  unfold String.utf8EncodeChar
  rw [hval]
  dsimp only
  rw [if_neg (by omega), if_neg (by omega), if_neg (by omega), ofNat_toNat_byte (b := a) (by omega),
    ofNat_toNat_byte (b := b) (by omega), ofNat_toNat_byte (b := c) (by omega),
    ofNat_toNat_byte (b := d) (by omega)]

/-- A sequence that is not replaced goes on with a byte in its range. -/
theorem decodeChars_continued {q : Sequence} {bs : Bytes}
    (h : replacementChar ∉ decodeChars (some q) bs) :
    ∃ b rest, bs = b :: rest ∧ q.lower ≤ b.toNat ∧ b.toNat ≤ q.upper := by
  cases bs with
  | nil => exact absurd (List.mem_singleton_self _) h
  | cons b rest =>
    by_cases hb : q.lower ≤ b.toNat ∧ b.toNat ≤ q.upper
    · exact ⟨b, rest, rfl, hb⟩
    · rw [decodeChars_cons] at h
      simp only [nextByte, if_neg hb, List.cons_append] at h
      exact absurd List.mem_cons_self h

theorem firstByte_replaced {a : ℕ} (h : 0x80 ≤ a ∧ a < 0xc2 ∨ 0xf5 ≤ a) :
    firstByte a = ([replacementChar], none) := by
  unfold firstByte
  rw [if_neg (by omega)]
  rcases h with h | h
  · rw [if_pos h.2]
  · rw [if_neg (by omega), if_neg (by omega), if_neg (by omega), if_neg (by omega)]

/-- What is read without a replacement begins with the encoding of a character. -/
theorem decodeChars_first {a : UInt8} {bs : Bytes} (h : replacementChar ∉ decodeChars none (a :: bs)) :
    ∃ c rest, a :: bs = String.utf8EncodeChar c ++ rest ∧
      decodeChars none (a :: bs) = c :: decodeChars none rest := by
  have hopen := h
  rw [decodeChars_cons] at hopen
  by_cases hone : a.toNat < 0x80
  · exact ⟨_, bs, by rw [encode_one hone]; rfl, decodeChars_one hone bs⟩
  · by_cases hbad : a.toNat < 0xc2 ∨ 0xf5 ≤ a.toNat
    · have hreplaced : firstByte a.toNat = ([replacementChar], none) :=
        firstByte_replaced (by omega)
      simp only [nextByte, hreplaced, List.cons_append] at hopen
      exact absurd List.mem_cons_self hopen
    · by_cases htwo : a.toNat < 0xe0
      · have ha : 0xc2 ≤ a.toNat ∧ a.toNat < 0xe0 := by omega
        simp only [nextByte, firstByte_two ha, List.nil_append] at hopen
        obtain ⟨b, rest, rfl, hb⟩ := decodeChars_continued hopen
        exact ⟨_, rest, by rw [encode_two ha hb]; rfl, decodeChars_two ha hb rest⟩
      · by_cases hthree : a.toNat < 0xf0
        · have ha : 0xe0 ≤ a.toNat ∧ a.toNat < 0xf0 := by omega
          simp only [nextByte, firstByte_three ha, List.nil_append] at hopen
          obtain ⟨b, rest, rfl, hb⟩ := decodeChars_continued hopen
          rw [decodeChars_cons, nextByte_more hb] at hopen
          obtain ⟨c, rest, rfl, hc⟩ := decodeChars_continued hopen
          exact ⟨_, rest, by rw [encode_three ha hb hc]; rfl, decodeChars_three ha hb hc rest⟩
        · have ha : 0xf0 ≤ a.toNat ∧ a.toNat < 0xf5 := by omega
          simp only [nextByte, firstByte_four ha, List.nil_append] at hopen
          obtain ⟨b, rest, rfl, hb⟩ := decodeChars_continued hopen
          rw [decodeChars_cons, nextByte_more hb] at hopen
          obtain ⟨c, rest, rfl, hc⟩ := decodeChars_continued hopen
          rw [decodeChars_cons, nextByte_more hc] at hopen
          obtain ⟨d, rest, rfl, hd⟩ := decodeChars_continued hopen
          exact ⟨_, rest, by rw [encode_four ha hb hc hd]; rfl, decodeChars_four ha hb hc hd rest⟩

/-- Text without replacement characters comes from its own encoding only. The induction is on the
characters. -/
theorem encode_decodeChars (cs : List Char) : ∀ bs : Bytes, decodeChars none bs = cs →
    replacementChar ∉ cs → cs.flatMap String.utf8EncodeChar = bs := by
  induction cs with
  | nil =>
    intro bs hcs hclean
    cases bs with
    | nil => rfl
    | cons a bs =>
      rw [← hcs] at hclean
      obtain ⟨c, rest, -, hdecode⟩ := decodeChars_first hclean
      rw [hcs] at hdecode
      contradiction
  | cons c cs ih =>
    intro bs hcs hclean
    cases bs with
    | nil => contradiction
    | cons a bs =>
      rw [← hcs] at hclean
      obtain ⟨c', rest, hbytes, hdecode⟩ := decodeChars_first hclean
      rw [hdecode] at hcs hclean
      obtain ⟨rfl, hrest⟩ := List.cons.inj hcs
      rw [hrest] at hclean
      rw [hbytes, List.flatMap_cons, ih rest hrest (List.not_mem_of_not_mem_cons hclean)]

/-! ### Strings -/

theorem decodeChars_utf8 (cs : List Char) :
    decodeChars none (cs.flatMap String.utf8EncodeChar) = cs := by
  induction cs with
  | nil => rfl
  | cons c cs ih => rw [List.flatMap_cons, decodeChars_encode, ih]

theorem toUtf8String_utf8 (s : String) : toUtf8String (utf8 s) = s := by
  unfold toUtf8String utf8
  rw [decodeChars_utf8, String.ofList_toList]

/-- A text without replacement characters is decoded from its own bytes only. -/
theorem toUtf8String_eq_iff {s : String} (hs : replacementChar ∉ s.toList) {bs : Bytes} :
    toUtf8String bs = s ↔ bs = utf8 s := by
  constructor
  · rintro rfl
    unfold toUtf8String at hs
    rw [String.toList_ofList] at hs
    unfold utf8 toUtf8String
    rw [String.toList_ofList]
    exact (encode_decodeChars _ bs rfl hs).symm
  · rintro rfl
    exact toUtf8String_utf8 s

end UnoQ.Ssh
