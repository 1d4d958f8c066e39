import Mathlib
import CarrierTransport.Storage.FileTree
import CarrierTransport.Text.Lines

/-!
# The lines of a text

The lines of a file are cut from its bytes before they are decoded. A text in UTF-8 has no byte of a
line end within another character, so its lines may as well be cut from its characters
(`Text.linesOf`), and every one of them decodes to what was encoded (`Text.lines_toUTF8`). So the
lines that a file is written with are the lines that are read (`Text.linesOf_textOfLines`).
-/

namespace CarrierTransport.Text

/-! ### Lines of characters -/

/-- A line that a line feed ends, in reverse, without the carriage return that belongs to its
end. -/
def dropReturn {β : Type} [DecidableEq β] (cr : β) : List β → List β
  | [] => []
  | c :: before => if c = cr then before else c :: before

/-- The lines of a list of characters, given the characters of the line being read in reverse. -/
def linesFrom (current : List Char) : List Char → List (List Char)
  | [] => if current.isEmpty then [] else [current.reverse]
  | c :: rest =>
    if c = '\n' then (dropReturn '\r' current).reverse :: linesFrom [] rest
    else linesFrom (c :: current) rest

/-- The lines of a text, each ended by a line feed, with or without a carriage return before it, or
by the end of the text. -/
def linesOf (text : List Char) : List (List Char) :=
  linesFrom [] text

/-! ### Bytes -/

/-- The bytes of a list of characters. -/
def bytesOf (text : List Char) : List UInt8 :=
  text.flatMap String.utf8EncodeChar

theorem bytesOf_append (a b : List Char) : bytesOf (a ++ b) = bytesOf a ++ bytesOf b :=
  List.flatMap_append

theorem bytesOf_eq_nil_iff {text : List Char} : bytesOf text = [] ↔ text = [] := by
  cases text with
  | nil => simp [bytesOf]
  | cons c text => simp [bytesOf, String.utf8EncodeChar_ne_nil]

/-- A byte below 128 is the only one of its character. -/
theorem utf8EncodeChar_eq_of_mem {c : Char} {b : UInt8} (hb : b.toNat < 128)
    (hmem : b ∈ String.utf8EncodeChar c) : c.toNat = b.toNat := by
  rw [String.utf8EncodeChar.eq_1] at hmem
  have hc : c.val.toNat < 1114112 := by
    rcases c.valid with h | ⟨-, h⟩
    · exact lt_trans h (by decide)
    · exact h
  have hval : c.toNat = c.val.toNat := rfl
  split_ifs at hmem <;>
    simp only [List.mem_cons, List.not_mem_nil, or_false, ← UInt8.toNat_inj,
      UInt8.toNat_ofNat'] at hmem <;> omega


/-- Only a line feed has the byte of a line feed, and only a carriage return that of a carriage
return. -/
theorem notMem_utf8EncodeChar {c d : Char} (hd : d.toNat < 128) (hne : c ≠ d) :
    UInt8.ofNat d.toNat ∉ String.utf8EncodeChar c := by
  intro hmem
  have hbyte : (UInt8.ofNat d.toNat).toNat = d.toNat := by
    rw [UInt8.toNat_ofNat']
    omega
  have hc := utf8EncodeChar_eq_of_mem (by rwa [hbyte]) hmem
  exact hne (Char.toNat_inj.1 (hc.trans hbyte))

/-! ### Cutting bytes and cutting characters -/

theorem cutLines_feed (current rest : List UInt8) :
    cutLines current (10 :: rest) = (dropReturn 13 current).reverse :: cutLines [] rest := by
  cases current with
  | nil => rfl
  | cons c before =>
    by_cases hc : c = 13
    · subst hc
      rfl
    · rw [dropReturn, if_neg hc]
      conv_lhs => unfold cutLines
      rw [if_pos rfl]
      dsimp only
      split
      · next h => exact absurd (List.cons.inj h).1 hc
      · rfl

theorem cutLines_cons_of_ne {b : UInt8} (h : b ≠ 10) (current rest : List UInt8) :
    cutLines current (b :: rest) = cutLines (b :: current) rest := by
  conv_lhs => unfold cutLines
  exact if_neg h

/-- Bytes that are no line feed belong to the line being read. -/
theorem cutLines_append {bytes : List UInt8} (h : 10 ∉ bytes) (current rest : List UInt8) :
    cutLines current (bytes ++ rest) = cutLines (bytes.reverse ++ current) rest := by
  induction bytes generalizing current with
  | nil => rfl
  | cons b bytes ih =>
    rw [List.mem_cons, not_or] at h
    rw [List.cons_append, cutLines_cons_of_ne (Ne.symm h.1), ih h.2, List.reverse_cons,
      List.append_assoc, List.singleton_append]

/-- A carriage return is dropped from the bytes of a line exactly if it is from the line. -/
theorem dropReturn_bytesOf (current : List Char) :
    dropReturn 13 (bytesOf current.reverse).reverse =
      (bytesOf (dropReturn '\r' current).reverse).reverse := by
  cases current with
  | nil => rfl
  | cons c before =>
    rw [List.reverse_cons, bytesOf_append, List.reverse_append]
    by_cases hc : c = '\r'
    · subst hc
      rfl
    · have hlast : 13 ∉ (String.utf8EncodeChar c).reverse := by
        rw [List.mem_reverse]
        exact notMem_utf8EncodeChar (d := '\r') (by decide) hc
      have hbytes : (bytesOf [c]).reverse = (String.utf8EncodeChar c).reverse := by simp [bytesOf]
      rw [dropReturn, if_neg hc, List.reverse_cons, bytesOf_append, List.reverse_append, hbytes]
      cases hencoded : (String.utf8EncodeChar c).reverse with
      | nil =>
        exact absurd (List.reverse_eq_nil_iff.1 hencoded) String.utf8EncodeChar_ne_nil
      | cons b bytes =>
        rw [hencoded, List.mem_cons, not_or] at hlast
        rw [List.cons_append, dropReturn, if_neg (Ne.symm hlast.1)]

theorem cutLines_bytesOf (current rest : List Char) :
    cutLines (bytesOf current.reverse).reverse (bytesOf rest) =
      (linesFrom current rest).map bytesOf := by
  induction rest generalizing current with
  | nil =>
    rw [linesFrom]
    by_cases hcurrent : current = []
    · subst hcurrent
      rfl
    · have hbytes : (bytesOf current.reverse).reverse ≠ [] := by
        rwa [Ne, List.reverse_eq_nil_iff, bytesOf_eq_nil_iff, List.reverse_eq_nil_iff]
      rw [show bytesOf [] = [] from rfl, cutLines, if_neg (by simpa using hbytes),
        if_neg (by simpa using hcurrent), List.reverse_reverse, List.map_singleton]
  | cons c rest ih =>
    have hcons : bytesOf (c :: rest) = String.utf8EncodeChar c ++ bytesOf rest := List.flatMap_cons
    by_cases hc : c = '\n'
    · subst hc
      have hfeed : String.utf8EncodeChar '\n' = [10] := by decide
      rw [hcons, hfeed, List.singleton_append, cutLines_feed, dropReturn_bytesOf,
        List.reverse_reverse, linesFrom, if_pos rfl, List.map_cons, ← ih []]
      rfl
    · have hcurrent : (String.utf8EncodeChar c).reverse ++ (bytesOf current.reverse).reverse =
          (bytesOf (c :: current).reverse).reverse := by
        rw [List.reverse_cons, bytesOf_append, List.reverse_append]
        simp [bytesOf]
      rw [hcons, cutLines_append (notMem_utf8EncodeChar (d := '\n') (by decide) hc), hcurrent, ih,
        linesFrom, if_neg hc]

/-! ### Decoding -/

/-- A byte array is listed from its first byte to its last. -/
theorem toList_loop (file : ByteArray) (i : Nat) (read : List UInt8) :
    ByteArray.toList.loop file i read = read.reverse ++ file.data.toList.drop i := by
  fun_induction ByteArray.toList.loop file i read with
  | case1 i read h ih =>
    have hi : i < file.data.toList.length := by simpa using h
    rw [ih, List.drop_eq_getElem_cons (l := file.data.toList) hi]
    simp [ByteArray.get!, h]
  | case2 i read h =>
    rw [List.drop_eq_nil_of_le (by simpa using Nat.le_of_not_lt h), List.append_nil]

theorem toList_toUTF8 (text : String) : text.toUTF8.toList = bytesOf text.toList := by
  rw [ByteArray.toList, toList_loop, String.toUTF8_eq_toByteArray, ← String.utf8Encode_toList,
    List.utf8Encode.eq_1, List.toList_data_toByteArray]
  rfl

theorem decode_bytesOf (line : List Char) : decode (bytesOf line) = .ok (String.ofList line) := by
  have hbytes : (⟨(bytesOf line).toArray⟩ : ByteArray) = line.utf8Encode := by
    rw [List.utf8Encode.eq_1]
    refine ByteArray.ext (Array.toList_inj.1 ?_)
    rw [List.toList_data_toByteArray]
    rfl
  rw [decode, hbytes, String.fromUTF8?, dif_pos ByteArray.isValidUTF8_utf8Encode]
  rfl

/-- **The lines of a file that holds a text are the lines of the text.** -/
theorem lines_toUTF8 (text : String) :
    lines text.toUTF8 = (linesOf text.toList).map fun line => .ok (String.ofList line) := by
  have hcut : cutLines [] (bytesOf text.toList) = (linesOf text.toList).map bytesOf :=
    cutLines_bytesOf [] text.toList
  rw [lines, toList_toUTF8, hcut, List.map_map]
  exact List.map_congr_left fun line _ => decode_bytesOf line

/-! ### Writing lines -/

/-- What a line must be like to be read as it was written. -/
def IsLine (line : List Char) : Prop :=
  '\n' ∉ line ∧ line.getLast? ≠ some '\r'

theorem linesFrom_append {line : List Char} (h : '\n' ∉ line) (current rest : List Char) :
    linesFrom current (line ++ rest) = linesFrom (line.reverse ++ current) rest := by
  induction line generalizing current with
  | nil => rfl
  | cons c line ih =>
    rw [List.mem_cons, not_or] at h
    rw [List.cons_append, linesFrom, if_neg (Ne.symm h.1), ih h.2, List.reverse_cons,
      List.append_assoc]
    rfl

theorem dropReturn_reverse {line : List Char} (h : line.getLast? ≠ some '\r') :
    dropReturn '\r' line.reverse = line.reverse := by
  rw [← List.head?_reverse] at h
  cases hreverse : line.reverse with
  | nil => rfl
  | cons c before =>
    rw [hreverse] at h
    exact if_neg fun hc => h (congrArg some hc)

/-- **The lines that are written are read.** -/
theorem linesOf_textOfLines {written : List String} (h : ∀ line ∈ written, IsLine line.toList) :
    linesOf (FileTree.textOfLines written).toList = written.map String.toList := by
  rw [FileTree.textOfLines, String.toList_join, List.flatMap_map, linesOf]
  induction written with
  | nil => rfl
  | cons line written ih =>
    have hline := h line List.mem_cons_self
    have hfeed : (line ++ "\n").toList = line.toList ++ ['\n'] := String.toList_append
    rw [List.flatMap_cons, hfeed, List.append_assoc, linesFrom_append hline.1, List.append_nil,
      List.singleton_append, linesFrom, if_pos rfl, dropReturn_reverse hline.2,
      List.reverse_reverse, ih fun l hl => h l (List.mem_cons_of_mem line hl), List.map_cons]

end CarrierTransport.Text
