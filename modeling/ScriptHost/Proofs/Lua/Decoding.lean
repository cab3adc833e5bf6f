import ScriptHost.Lua.Bytes

/-! Texts from bytes. The encoding of a character is read back as that character, whatever follows it, and
what stands before a byte of ASCII is read as if nothing followed. So a text that is put together from
pieces is read piece by piece, even where a piece was cut off in the middle of a character. -/

namespace ScriptHost.Text

variable {a b c d : UInt8} {rest : List UInt8}

/-! ### Encoded characters -/

theorem lossyChars_one (ha : a < 0x80) : lossyChars (a :: rest) = Char.ofNat a.toNat :: lossyChars rest := by
  cases rest <;> rw [lossyChars.eq_def] <;> exact if_pos ha

theorem lossyChars_two (ha : 0xC2 ≤ a) (ha' : a ≤ 0xDF) (hb : isTail b = true) :
    lossyChars (a :: b :: rest) = Char.ofNat (a.toNat % 32 * 64 + low6 b) :: lossyChars rest := by
  have hle : 0xC2 ≤ a.toNat := UInt8.le_iff_toNat_le.1 ha
  have hone : ¬ a < 0x80 := fun h => by
    have : a.toNat < 0x80 := UInt8.lt_iff_toNat_lt.1 h
    omega
  rw [lossyChars.eq_def]
  simp only [hone, ha, ha', hb, decide_true, Bool.and_true, if_true, if_false]

theorem lossyChars_three (ha : 0xE0 ≤ a) (ha' : a ≤ 0xEF) (hb : fitsThree a b = true) (hc : isTail c = true) :
    lossyChars (a :: b :: c :: rest) =
      Char.ofNat ((a.toNat % 16 * 64 + low6 b) * 64 + low6 c) :: lossyChars rest := by
  have hle : 0xE0 ≤ a.toNat := UInt8.le_iff_toNat_le.1 ha
  have hone : ¬ a < 0x80 := fun h => by
    have : a.toNat < 0x80 := UInt8.lt_iff_toNat_lt.1 h
    omega
  have htwo : ¬ a ≤ 0xDF := fun h => by
    have : a.toNat ≤ 0xDF := UInt8.le_iff_toNat_le.1 h
    omega
  rw [lossyChars.eq_def]
  simp only [hone, htwo, ha, ha', hb, hc, decide_true, decide_false, Bool.and_true, Bool.and_false, if_true,
    if_false, Bool.false_eq_true]

theorem lossyChars_four (ha : 0xF0 ≤ a) (ha' : a ≤ 0xF4) (hb : fitsFour a b = true) (hc : isTail c = true)
    (hd : isTail d = true) :
    lossyChars (a :: b :: c :: d :: rest) =
      Char.ofNat (((a.toNat % 8 * 64 + low6 b) * 64 + low6 c) * 64 + low6 d) :: lossyChars rest := by
  have hle : 0xF0 ≤ a.toNat := UInt8.le_iff_toNat_le.1 ha
  have hone : ¬ a < 0x80 := fun h => by
    have : a.toNat < 0x80 := UInt8.lt_iff_toNat_lt.1 h
    omega
  have htwo : ¬ a ≤ 0xDF := fun h => by
    have : a.toNat ≤ 0xDF := UInt8.le_iff_toNat_le.1 h
    omega
  have hthree : ¬ a ≤ 0xEF := fun h => by
    have : a.toNat ≤ 0xEF := UInt8.le_iff_toNat_le.1 h
    omega
  rw [lossyChars.eq_def]
  simp only [hone, htwo, hthree, ha, ha', hb, hc, hd, decide_true, decide_false, Bool.and_true, Bool.and_false,
    if_true, if_false, Bool.false_eq_true]

/-! The bytes of an encoding after its first one hold six bits each. -/

theorem toNat_tail (n : Nat) : (UInt8.ofNat (n % 64 + 128)).toNat = n % 64 + 128 :=
  UInt8.toNat_ofNat_of_lt' (by simp only [UInt8.size]; omega)

theorem isTail_tail (n : Nat) : isTail (UInt8.ofNat (n % 64 + 128)) = true := by
  simp only [isTail, UInt8.le_iff_toNat_le, toNat_tail, Bool.and_eq_true, decide_eq_true_eq]
  refine ⟨Nat.le_add_left 128 _, ?_⟩
  show n % 64 + 128 ≤ 191
  omega

theorem low6_tail (n : Nat) : low6 (UInt8.ofNat (n % 64 + 128)) = n % 64 := by
  rw [low6, toNat_tail]
  omega

/-- The second byte tells overlong encodings and surrogates apart, and no character has either. -/
theorem fitsThree_tail {n : Nat} (hlow : 0x7FF < n) (hhigh : n < 0xD800 ∨ 0xDFFF < n) (hn : n ≤ 0xFFFF) :
    fitsThree (UInt8.ofNat (n / 4096 % 16 + 224)) (UInt8.ofNat (n / 64 % 64 + 128)) = true := by
  have hlead : (UInt8.ofNat (n / 4096 % 16 + 224)).toNat = n / 4096 % 16 + 224 :=
    UInt8.toNat_ofNat_of_lt' (by simp only [UInt8.size]; omega)
  simp only [fitsThree, beq_iff_eq, ← UInt8.toNat_inj, hlead, UInt8.le_iff_toNat_le, toNat_tail, isTail_tail]
  split
  · rename_i h
    simp at h ⊢
    omega
  · split
    · rename_i h
      simp at h ⊢
      omega
    · rfl

/-- The second byte tells overlong encodings and what is past the last character apart. -/
theorem fitsFour_tail {n : Nat} (hlow : 0xFFFF < n) (hn : n < 0x110000) :
    fitsFour (UInt8.ofNat (n / 262144 % 8 + 240)) (UInt8.ofNat (n / 4096 % 64 + 128)) = true := by
  have hlead : (UInt8.ofNat (n / 262144 % 8 + 240)).toNat = n / 262144 % 8 + 240 :=
    UInt8.toNat_ofNat_of_lt' (by simp only [UInt8.size]; omega)
  simp only [fitsFour, beq_iff_eq, ← UInt8.toNat_inj, hlead, UInt8.le_iff_toNat_le, toNat_tail, isTail_tail]
  split
  · rename_i h
    simp at h ⊢
    omega
  · split
    · rename_i h
      simp at h ⊢
      omega
    · rfl

/-- A character is read back from its encoding. -/
theorem lossyChars_encoded (c : Char) (rest : List UInt8) :
    lossyChars (String.utf8EncodeChar c ++ rest) = c :: lossyChars rest := by
  have hback : Char.ofNat c.val.toNat = c := Char.ofNat_toNat c
  have hvalid : c.val.toNat < 0xD800 ∨ 0xDFFF < c.val.toNat ∧ c.val.toNat < 0x110000 := c.valid
  unfold String.utf8EncodeChar
  generalize c.val.toNat = n at hback hvalid
  have hsize : ∀ {m : Nat}, m < 256 → (UInt8.ofNat m).toNat = m := UInt8.toNat_ofNat_of_lt'
  dsimp only
  split
  · have hn := hsize (m := n) (by omega)
    have hlow : UInt8.ofNat n < 0x80 := by
      rw [UInt8.lt_iff_toNat_lt, hn]
      simp
      omega
    rw [List.cons_append, List.nil_append, lossyChars_one hlow, hn, hback]
  · split
    · have hlead := hsize (m := n / 64 % 32 + 192) (by omega)
      have hlow : 0xC2 ≤ UInt8.ofNat (n / 64 % 32 + 192) := by
        rw [UInt8.le_iff_toNat_le, hlead]
        simp
        omega
      have hhigh : UInt8.ofNat (n / 64 % 32 + 192) ≤ 0xDF := by
        rw [UInt8.le_iff_toNat_le, hlead]
        simp
        omega
      have hvalue : (n / 64 % 32 + 192) % 32 * 64 + n % 64 = n := by omega
      simp only [List.cons_append, List.nil_append]
      rw [lossyChars_two hlow hhigh (isTail_tail n), low6_tail, hlead, hvalue, hback]
    · split
      · have hlead := hsize (m := n / 4096 % 16 + 224) (by omega)
        have hlow : 0xE0 ≤ UInt8.ofNat (n / 4096 % 16 + 224) := by
          rw [UInt8.le_iff_toNat_le, hlead]
          simp
        have hhigh : UInt8.ofNat (n / 4096 % 16 + 224) ≤ 0xEF := by
          rw [UInt8.le_iff_toNat_le, hlead]
          simp
          omega
        have hfits := fitsThree_tail (n := n) (by omega) (by omega) (by omega)
        have hvalue : ((n / 4096 % 16 + 224) % 16 * 64 + n / 64 % 64) * 64 + n % 64 = n := by omega
        simp only [List.cons_append, List.nil_append]
        rw [lossyChars_three hlow hhigh hfits (isTail_tail n), low6_tail, low6_tail, hlead, hvalue, hback]
      · have hlead := hsize (m := n / 262144 % 8 + 240) (by omega)
        have hlow : 0xF0 ≤ UInt8.ofNat (n / 262144 % 8 + 240) := by
          rw [UInt8.le_iff_toNat_le, hlead]
          simp
        have hhigh : UInt8.ofNat (n / 262144 % 8 + 240) ≤ 0xF4 := by
          rw [UInt8.le_iff_toNat_le, hlead]
          simp
          omega
        have hfits := fitsFour_tail (n := n) (by omega) (by omega)
        have hvalue :
            (((n / 262144 % 8 + 240) % 8 * 64 + n / 4096 % 64) * 64 + n / 64 % 64) * 64 + n % 64 = n := by
          omega
        simp only [List.cons_append, List.nil_append]
        rw [lossyChars_four hlow hhigh hfits (isTail_tail _) (isTail_tail n), low6_tail, low6_tail, low6_tail,
          hlead, hvalue, hback]

theorem lossyChars_encodedAll (cs : List Char) (rest : List UInt8) :
    lossyChars (cs.flatMap String.utf8EncodeChar ++ rest) = cs ++ lossyChars rest := by
  induction cs with
  | nil => rfl
  | cons c cs ih => rw [List.flatMap_cons, List.append_assoc, lossyChars_encoded, ih, List.cons_append]

/-! ### Bytes of ASCII -/

theorem isTail_eq_false (h : b < 0x80) : isTail b = false := by
  have hb : b.toNat < 0x80 := UInt8.lt_iff_toNat_lt.1 h
  have hlow : ¬ 0x80 ≤ b := fun h => by
    have : 0x80 ≤ b.toNat := UInt8.le_iff_toNat_le.1 h
    omega
  rw [isTail, decide_eq_false hlow, Bool.false_and]

theorem fitsThree_eq_false (h : b < 0x80) (a : UInt8) : fitsThree a b = false := by
  have hb : b.toNat < 0x80 := UInt8.lt_iff_toNat_lt.1 h
  have hlow : ¬ 0x80 ≤ b := fun h => by
    have : 0x80 ≤ b.toNat := UInt8.le_iff_toNat_le.1 h
    omega
  have hlow' : ¬ 0xA0 ≤ b := fun h => by
    have : 0xA0 ≤ b.toNat := UInt8.le_iff_toNat_le.1 h
    omega
  simp only [fitsThree, hlow, hlow', isTail_eq_false h, decide_false, Bool.false_and, ite_self]

theorem fitsFour_eq_false (h : b < 0x80) (a : UInt8) : fitsFour a b = false := by
  have hb : b.toNat < 0x80 := UInt8.lt_iff_toNat_lt.1 h
  have hlow : ¬ 0x80 ≤ b := fun h => by
    have : 0x80 ≤ b.toNat := UInt8.le_iff_toNat_le.1 h
    omega
  have hlow' : ¬ 0x90 ≤ b := fun h => by
    have : 0x90 ≤ b.toNat := UInt8.le_iff_toNat_le.1 h
    omega
  simp only [fitsFour, hlow, hlow', isTail_eq_false h, decide_false, Bool.false_and, ite_self]

/-- A byte of ASCII belongs to no character that begins before it. -/
theorem lossyChars_append_ascii (hb : b < 0x80) (as bs : List UInt8) :
    lossyChars (as ++ b :: bs) = lossyChars as ++ lossyChars (b :: bs) := by
  have htail := isTail_eq_false hb
  have hthree := fitsThree_eq_false hb
  have hfour := fitsFour_eq_false hb
  fun_induction lossyChars as with
  | case1 => rfl
  | case11 | case19 | case21 =>
    -- The piece ends before it can be told whether it is a character, so what follows `b` is looked at.
    rw [List.cons_append, lossyChars.eq_def]
    rcases bs with _ | ⟨_, _ | ⟨_, _⟩⟩ <;>
      simp only [*, List.cons_append, List.nil_append, if_true, if_false, Bool.and_false, Bool.false_and,
        Bool.false_eq_true]
  | case20 a _ _ _ _ x _ ih =>
    have ih : lossyChars (x :: b :: bs) = lossyChars [x] ++ lossyChars (b :: bs) := ih
    rw [List.cons_append, lossyChars.eq_def]
    cases bs <;>
      simp only [*, List.cons_append, List.nil_append, if_true, if_false, Bool.and_false, Bool.false_and,
        Bool.false_eq_true]
  | _ =>
    rw [List.cons_append, lossyChars.eq_def]
    simp_all only [List.cons_append, List.nil_append, if_true, if_false, Bool.and_false, Bool.false_and,
      Bool.true_and, Bool.false_eq_true, Bool.not_eq_true]

/-! ### Whole texts -/

theorem toList_loop (bytes : ByteArray) (i : Nat) (r : List UInt8) :
    ByteArray.toList.loop bytes i r = r.reverse ++ bytes.data.toList.drop i := by
  fun_induction ByteArray.toList.loop bytes i r with
  | case1 i r h ih =>
    have hi : i < bytes.data.toList.length := by simpa using h
    have hget : bytes.get! i = bytes.data.toList[i] := by
      rw [ByteArray.get!]
      simp [h]
    rw [ih, List.drop_eq_getElem_cons hi, List.reverse_cons, List.append_assoc, hget]
    rfl
  | case2 i r h =>
    have hi : bytes.data.toList.length ≤ i := by simpa using h
    rw [List.drop_eq_nil_of_le hi, List.append_nil]

theorem toList_eq (bytes : ByteArray) : bytes.toList = bytes.data.toList := by
  rw [ByteArray.toList, toList_loop, List.reverse_nil, List.nil_append, List.drop_zero]

theorem toList_append (x y : ByteArray) : (x ++ y).toList = x.toList ++ y.toList := by
  rw [toList_eq, toList_eq, toList_eq, ByteArray.data_append, Array.toList_append]

theorem toList_toByteArray (s : String) : s.toByteArray.toList = s.toList.flatMap String.utf8EncodeChar := by
  rw [toList_eq, ← String.utf8Encode_toList, List.utf8Encode, List.data_toByteArray]

/-- Reading bytes that are a text does not differ from reading any others. -/
theorem lossy_eq_ofList (bytes : ByteArray) : lossy bytes = String.ofList (lossyChars bytes.toList) := by
  cases h : String.fromUTF8? bytes with
  | none => rw [lossy, h, Option.getD_none]
  | some s =>
    have hbytes : bytes = s.toByteArray := by
      unfold String.fromUTF8? at h
      split at h
      · rw [Option.some.injEq] at h
        rw [← h]
        rfl
      · cases h
    have hchars : lossyChars bytes.toList = s.toList := by
      rw [hbytes, toList_toByteArray, ← List.append_nil (List.flatMap _ _), lossyChars_encodedAll,
        lossyChars.eq_def, List.append_nil]
    rw [lossy, h, Option.getD_some, hchars, String.ofList_toList]

end ScriptHost.Text

namespace ScriptHost.Lua.Bytes

/-- A text that begins with a character of ASCII is read by itself, whatever bytes stand before and after
it. -/
theorem toText_append_ofString {c : Char} {cs : List Char} {s : String} (hs : s.toList = c :: cs)
    (hc : c.toNat < 0x80) (b e : Bytes) : toText (b ++ ofString s ++ e) = toText b ++ s ++ toText e := by
  have hfirst : String.utf8EncodeChar c = [UInt8.ofNat c.toNat] := if_pos (Nat.le_of_lt_succ hc)
  have hlow : UInt8.ofNat c.toNat < 0x80 := by
    rw [UInt8.lt_iff_toNat_lt, UInt8.toNat_ofNat_of_lt' (Nat.lt_trans hc (by decide))]
    exact hc
  have hbytes : (ofString s).toList = s.toList.flatMap String.utf8EncodeChar := Text.toList_toByteArray s
  have hcons : (ofString s).toList = UInt8.ofNat c.toNat :: cs.flatMap String.utf8EncodeChar := by
    rw [hbytes, hs, List.flatMap_cons, hfirst]
    rfl
  have hrest : Text.lossyChars ((ofString s).toList ++ e.toList) = s.toList ++ Text.lossyChars e.toList := by
    rw [hbytes, Text.lossyChars_encodedAll]
  have hchars : Text.lossyChars (b ++ ofString s ++ e).toList =
      Text.lossyChars b.toList ++ (s.toList ++ Text.lossyChars e.toList) := by
    rw [Text.toList_append, Text.toList_append, List.append_assoc, ← hrest, hcons, List.cons_append]
    exact Text.lossyChars_append_ascii hlow _ _
  simp only [toText, Text.lossy_eq_ofList, hchars, String.ofList_append, String.ofList_toList,
    String.append_assoc]

end ScriptHost.Lua.Bytes
