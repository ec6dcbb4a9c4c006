import Calculator.Proofs.Session.Lines

/-!
# The bytes of a line

A text that is to be read as a line is given as the bytes of its UTF-8 form with a newline behind
them (`Line.ofText`). It is divided from what is behind it if no newline stands in the text, since
no other character has the byte of a newline in its form (`eq_of_mem_utf8EncodeChar`). And it is
read as the text it was made of (`Line.decode_ofText`), unless the text ends with a carriage return,
which would be taken for a part of the end of the line.
-/

namespace Calculator

/-! ## Bytes and characters -/

/-- The bytes of a byte array that are listed from `i` on. -/
theorem toList_loop_eq (bs : ByteArray) (i : ℕ) (acc : List UInt8) :
    ByteArray.toList.loop bs i acc = acc.reverse ++ bs.data.toList.drop i := by
  fun_induction ByteArray.toList.loop bs i acc with
  | case1 i acc hlt ih =>
    have hdata : i < bs.data.toList.length := by rwa [Array.length_toList]
    have hget : bs.get! i = bs.data.toList[i] := by
      rw [Array.getElem_toList]
      exact getElem!_pos bs.data i hlt
    rw [ih, List.drop_eq_getElem_cons hdata, hget, List.reverse_cons, List.append_assoc,
      List.singleton_append]
  | case2 i acc hge =>
    have hdata : bs.data.toList.length ≤ i := by
      rw [Array.length_toList]
      exact Nat.le_of_not_lt hge
    rw [List.drop_eq_nil_of_le hdata, List.append_nil]

/-- The bytes of a text are those of its characters in turn. -/
theorem toList_toUTF8 (text : String) :
    text.toUTF8.toList = text.toList.flatMap String.utf8EncodeChar := by
  have htext : text.toByteArray = text.toList.utf8Encode := by
    rw [← String.toByteArray_ofList, String.ofList_toList]
  have hlist : text.toByteArray.toList = text.toByteArray.data.toList := toList_loop_eq _ 0 []
  rw [String.toUTF8_eq_toByteArray, hlist, htext, List.utf8Encode, List.toList_data_toByteArray]

/-- The bytes of a text make up its UTF-8 form. -/
theorem toByteArray_toList_toUTF8 (text : String) :
    text.toUTF8.toList.toByteArray = text.toByteArray := by
  rw [toList_toUTF8, ← List.utf8Encode, ← String.toByteArray_ofList, String.ofList_toList]

/-- The bytes of two texts in turn are those of the texts joined. -/
theorem toList_toUTF8_append (s t : String) :
    (s ++ t).toUTF8.toList = s.toUTF8.toList ++ t.toUTF8.toList := by
  rw [toList_toUTF8, toList_toUTF8, toList_toUTF8, String.toList_append, List.flatMap_append]

/-- The form of a character that is longer than a byte consists of bytes that have the upper half of
the range. -/
theorem le_of_mem_utf8EncodeChar {c : Char} {b : UInt8} (h : b ∈ String.utf8EncodeChar c)
    (hc : c.utf8Size ≠ 1) : 128 ≤ b := by
  have hor : ∀ x m : UInt8, 128 ≤ m → 128 ≤ x ||| m := fun x m hm => by
    rw [UInt8.le_iff_toNat_le] at hm ⊢
    rw [UInt8.toNat_or]
    exact hm.trans Nat.right_le_or
  rcases c.utf8Size_eq with h1 | h2 | h3 | h4
  · exact absurd h1 hc
  · rw [String.utf8EncodeChar_eq_cons_cons h2] at h
    simp only [List.mem_cons, List.not_mem_nil, or_false] at h
    rcases h with rfl | rfl <;> exact hor _ _ (by decide)
  · rw [String.utf8EncodeChar_eq_cons_cons_cons h3] at h
    simp only [List.mem_cons, List.not_mem_nil, or_false] at h
    rcases h with rfl | rfl | rfl <;> exact hor _ _ (by decide)
  · rw [String.utf8EncodeChar_eq_cons_cons_cons_cons h4] at h
    simp only [List.mem_cons, List.not_mem_nil, or_false] at h
    rcases h with rfl | rfl | rfl | rfl <;> exact hor _ _ (by decide)

/-- A byte of the lower half of the range stands for itself only. -/
theorem eq_of_mem_utf8EncodeChar {c d : Char} (h : d.val.toUInt8 ∈ String.utf8EncodeChar c)
    (hd : d.toNat < 128) : c = d := by
  have hbyte : d.val.toUInt8.toNat = d.toNat := by
    rw [UInt32.toNat_toUInt8]
    exact Nat.mod_eq_of_lt (hd.trans (by decide))
  have hsize : c.utf8Size = 1 := by
    by_contra hne
    have hle := UInt8.le_iff_toNat_le.1 (le_of_mem_utf8EncodeChar h hne)
    rw [hbyte] at hle
    exact absurd hd (Nat.not_lt_of_le hle)
  have hc : c.toNat ≤ 127 := UInt32.le_iff_toNat_le.1 (Char.utf8Size_eq_one_iff.1 hsize)
  rw [String.utf8EncodeChar_eq_singleton hsize, List.mem_singleton] at h
  have hval := congrArg UInt8.toNat h
  rw [hbyte, UInt32.toNat_toUInt8] at hval
  have hmod : c.val.toNat % 2 ^ 8 = c.toNat := Nat.mod_eq_of_lt (hc.trans_lt (by decide))
  rw [← Char.toNat_inj, ← hmod, hval]

namespace Line

/-! ## A text as a line -/

variable {text : String}

/-- The line that has the text in it. -/
def ofText (text : String) : List UInt8 := text.toUTF8.toList ++ [newline]

/-- Without a newline in it a text has no byte of a newline. -/
theorem newline_not_mem (h : '\n' ∉ text.toList) : newline ∉ text.toUTF8.toList := by
  rw [toList_toUTF8, List.mem_flatMap]
  rintro ⟨c, hc, hmem⟩
  exact h (eq_of_mem_utf8EncodeChar (d := '\n') hmem (by decide) ▸ hc)

/-- The last byte of a text is a carriage return only if its last character is. -/
theorem getLast?_ne_carriageReturn (h : text.toList.getLast? ≠ some '\r') :
    text.toUTF8.toList.getLast? ≠ some carriageReturn := by
  rw [toList_toUTF8]
  rcases List.eq_nil_or_concat text.toList with hnil | ⟨cs, c, hconcat⟩
  · rw [hnil]
    exact nofun
  · -- The last byte is that of the last character, which has one byte at least.
    rw [hconcat] at h ⊢
    rw [List.concat_eq_append, List.flatMap_append, List.flatMap_singleton,
      List.getLast?_append_of_ne_nil _ String.utf8EncodeChar_ne_nil]
    intro hlast
    have hc := eq_of_mem_utf8EncodeChar (d := '\r') (List.mem_of_getLast? hlast) (by decide)
    exact h (by rw [hc, List.concat_eq_append, List.getLast?_concat])

/-- Without a newline in the text its line is the first one, whatever is behind it. -/
theorem isFirst_ofText (h : '\n' ∉ text.toList) (later : List UInt8) :
    IsFirst (ofText text) later :=
  .terminated (newline_not_mem h)

/-- A line is read as the text that it was made of, unless the text ends with a carriage return. -/
theorem decode_ofText (h : text.toList.getLast? ≠ some '\r') :
    decode (ofText text) = some text := by
  have hcontent : content (ofText text) = text.toUTF8.toList := by
    unfold content ofText
    rw [if_pos List.getLast?_concat, List.dropLast_concat]
    exact if_neg (getLast?_ne_carriageReturn h)
  unfold decode
  rw [hcontent, toByteArray_toList_toUTF8, String.fromUTF8?, dif_pos text.isValidUTF8]
  exact congrArg some (String.toByteArray_inj.1 rfl)

/-- The texts without a newline that are written one after the other, each with a newline behind it,
are the lines of what was written. -/
theorem split_join_newline {texts : List String} (h : ∀ t ∈ texts, '\n' ∉ t.toList) :
    split (String.join (texts.map (· ++ "\n"))).toUTF8.toList = texts.map ofText := by
  have hnewline : "\n".toUTF8.toList = [newline] := by
    rw [toList_toUTF8]
    rfl
  induction texts with
  | nil =>
    rw [List.map_nil, String.join_nil, toList_toUTF8]
    rfl
  | cons t texts ih =>
    rw [List.forall_mem_cons] at h
    have hline : (t ++ "\n").toUTF8.toList = ofText t := by
      rw [toList_toUTF8_append, hnewline, ofText]
    rw [List.map_cons, String.join_cons, toList_toUTF8_append, hline,
      split_append (isFirst_ofText h.1 _), ih h.2, List.map_cons]

end Line

end Calculator
