import Mathlib
import CarrierTransport.Storage.Path

/-!
# The names of a path

The names of a path are what stands between its slashes (`Path.names_eq`). A file name joined to a
directory comes behind the names of the directory (`Path.IsFileName.names_child`) and changes
neither where the path starts nor that it names a file.
-/

namespace CarrierTransport

/-! ### Pieces between slashes -/

namespace Path

open String (ofList utf8Len) in
/-- What is left of a text is split behind the characters `l` that have been split already and the
characters `m` of the piece that is begun. -/
theorem splitOnAux_slash (l m r : List Char) (acc : List String) :
    String.splitOnAux (ofList (l ++ m ++ r)) "/" ⟨utf8Len l⟩ ⟨utf8Len l + utf8Len m⟩ 0 acc =
      acc.reverse ++ (List.splitOnPPrepend (· == '/') r m.reverse).map ofList := by
  induction r generalizing l m acc with
  | nil =>
    have hend : (⟨utf8Len l + utf8Len m⟩ : String.Pos.Raw).atEnd (ofList (l ++ m ++ [])) := by
      simp [String.atEnd_iff, -String.ofList_append, String.utf8Len_append]
    unfold String.splitOnAux
    rw [if_pos hend]
    simp only [String.extract_of_valid, List.splitOnPPrepend_nil, List.reverse_reverse,
      List.map_cons, List.map_nil, List.reverse_cons]
  | cons c r ih =>
    have hopen :
        ¬(⟨utf8Len l + utf8Len m⟩ : String.Pos.Raw).atEnd (ofList (l ++ m ++ c :: r)) := by
      have hsize := Char.utf8Size_pos c
      simp only [String.atEnd_iff, String.rawEndPos_ofList, String.Pos.Raw.mk_le_mk,
        String.utf8Len_append, String.utf8Len_cons]
      omega
    have hget : String.Pos.Raw.get (ofList (l ++ m ++ c :: r)) ⟨utf8Len l + utf8Len m⟩ = c := by
      simpa [-String.ofList_append] using String.get_of_valid (l ++ m) (c :: r)
    have hnext : String.Pos.Raw.next (ofList (l ++ m ++ c :: r)) ⟨utf8Len l + utf8Len m⟩ =
        ⟨utf8Len l + (utf8Len m + c.utf8Size)⟩ := by
      simpa [-String.ofList_append, Nat.add_assoc] using String.next_of_valid (l ++ m) c r
    have hslash : String.Pos.Raw.get "/" 0 = '/' := by decide
    unfold String.splitOnAux
    simp only [if_neg hopen, hget, hnext, hslash]
    cases hc : c == '/' with
    | true =>
      obtain rfl := eq_of_beq hc
      have hpiece : String.Pos.Raw.extract (ofList (l ++ m ++ '/' :: r)) ⟨utf8Len l⟩
          ((⟨utf8Len l + (utf8Len m + '/'.utf8Size)⟩ : String.Pos.Raw).unoffsetBy
            (String.Pos.Raw.next "/" 0)) = ofList m :=
        String.extract_of_valid l m ('/' :: r)
      have hrest := ih (l ++ m ++ ['/']) [] (ofList m :: acc)
      simp only [List.append_assoc, List.singleton_append, String.utf8Len_append,
        String.utf8Len_cons, String.utf8Len_nil, Nat.zero_add, Nat.add_zero] at hrest
      rw [if_pos rfl, if_pos (by decide), hpiece, List.append_assoc, hrest,
        List.splitOnPPrepend_cons_pos rfl]
      simp
    | false =>
      have hrest := ih l (m ++ [c]) acc
      simp only [List.append_assoc, List.singleton_append, String.utf8Len_append,
        String.utf8Len_cons, String.utf8Len_nil, Nat.zero_add] at hrest
      have hback : String.Pos.Raw.next (ofList (l ++ m ++ c :: r))
          ((⟨utf8Len l + utf8Len m⟩ : String.Pos.Raw).unoffsetBy 0) =
          ⟨utf8Len l + (utf8Len m + c.utf8Size)⟩ := hnext
      rw [if_neg Bool.false_ne_true, hback, List.append_assoc, hrest,
        List.splitOnPPrepend_cons_neg (p := (· == '/')) hc, List.reverse_append,
        List.reverse_singleton, List.singleton_append]

theorem splitOn_slash (text : String) :
    text.splitOn "/" = (text.toList.splitOnP (· == '/')).map String.ofList := by
  have h := splitOnAux_slash [] [] text.toList []
  rw [List.nil_append, List.nil_append, String.ofList_toList, List.reverse_nil, List.nil_append,
    List.reverse_nil, List.splitOnPPrepend_nil_right] at h
  exact h

theorem names_eq (path : Path) :
    path.names =
      ((path.text.toList.splitOnP (· == '/')).map String.ofList).filter (· ≠ "") := by
  rw [names, splitOn_slash]

/-- The names on both sides of a slash. -/
theorem names_slash (a b : String) :
    (Path.mk (a ++ "/" ++ b)).names = (Path.mk a).names ++ (Path.mk b).names := by
  have hslash : (a ++ "/" ++ b).toList = a.toList ++ '/' :: b.toList := by
    simp
  rw [names_eq, names_eq, names_eq, hslash, List.splitOnP_append_cons _ _ rfl, List.map_append,
    List.filter_append]

/-! ### Files of a directory -/

/-- A name that a directory can hold a file under. -/
structure IsFileName (name : String) : Prop where
  plain : '/' ∉ name.toList
  nonempty : name ≠ ""
  notHere : name ≠ "."
  notAbove : name ≠ ".."

variable {directory : Path} {name : String}

theorem IsFileName.names_eq (h : IsFileName name) : (Path.mk name).names = [name] := by
  have hsplit : name.toList.splitOnP (· == '/') = [name.toList] := by
    refine List.splitOnP_eq_singleton fun c hc => ?_
    rw [beq_eq_false_iff_ne]
    rintro rfl
    exact h.plain hc
  rw [Path.names_eq, hsplit]
  simp [h.nonempty]

theorem isAbsolute_iff (path : Path) :
    path.isAbsolute = true ↔ path.text.toList.head? = some '/' := by
  rw [isAbsolute, String.startsWith_string_iff]
  exact List.singleton_prefix_iff_head?_eq_some

theorem endsInSlash_iff (path : Path) :
    path.endsInSlash = true ↔ path.text.toList.getLast? = some '/' := by
  rw [endsInSlash, ← String.endsWith_toSlice, String.Slice.endsWith_string_iff,
    String.copy_toSlice]
  exact List.singleton_suffix_iff_getLast?_eq_some

theorem IsFileName.not_isAbsolute (h : IsFileName name) : (Path.mk name).isAbsolute = false := by
  rw [Bool.eq_false_iff, ne_eq, isAbsolute_iff]
  exact fun hslash => h.plain (List.mem_of_mem_head? hslash)

/-- What is in front of a file name joined to a directory. -/
theorem IsFileName.text_child (h : IsFileName name) (directory : Path) :
    (directory.child name).text =
      if directory.text.isEmpty || directory.endsInSlash then directory.text ++ name
      else directory.text ++ "/" ++ name := by
  rw [child, join, h.not_isAbsolute, if_neg Bool.false_ne_true]
  split_ifs <;> rfl

theorem IsFileName.names_child (h : IsFileName name) (directory : Path) :
    (directory.child name).names = directory.names ++ [name] := by
  have hempty : (Path.mk "").names = [] := by
    rw [Path.names_eq]
    rfl
  have hchild : (directory.child name).names = (Path.mk (directory.child name).text).names := rfl
  rw [hchild, h.text_child]
  split_ifs with hjoin
  · rw [Bool.or_eq_true] at hjoin
    rcases hjoin with hdirectory | hslash
    · obtain ⟨text⟩ := directory
      obtain rfl : text = "" := String.isEmpty_iff.1 hdirectory
      rw [String.empty_append, h.names_eq, hempty, List.nil_append]
    · -- a directory that ends in a slash has the names of what is in front of it
      obtain ⟨front, hfront⟩ := List.getLast?_eq_some_iff.1 (directory.endsInSlash_iff.1 hslash)
      have htext : directory.text = String.ofList front ++ "/" ++ "" := by
        rw [String.append_empty, ← String.toList_inj, hfront]
        simp
      have hdirectory : directory.names = (Path.mk (String.ofList front)).names := by
        have hnames := names_slash (String.ofList front) ""
        rwa [hempty, List.append_nil, ← htext] at hnames
      rw [hdirectory, htext, String.append_empty, names_slash, h.names_eq]
  · rw [names_slash, h.names_eq]

theorem IsFileName.isAbsolute_child (h : IsFileName name) (directory : Path) :
    (directory.child name).isAbsolute = directory.isAbsolute := by
  rw [Bool.eq_iff_iff, isAbsolute_iff, isAbsolute_iff, h.text_child]
  cases htext : directory.text.toList with
  | nil =>
    obtain ⟨text⟩ := directory
    obtain rfl : text = "" := String.toList_eq_nil_iff.1 htext
    have hname := h.not_isAbsolute
    rw [Bool.eq_false_iff, ne_eq, isAbsolute_iff] at hname
    simpa using hname
  | cons c front => split_ifs <;> simp [htext]

theorem IsFileName.not_endsInSlash_child (h : IsFileName name) (directory : Path) :
    (directory.child name).endsInSlash = false := by
  rw [Bool.eq_false_iff, ne_eq, endsInSlash_iff, h.text_child]
  intro hslash
  have hlast : name.toList.getLast? = some '/' := by
    cases hname : name.toList.getLast? with
    | none =>
      exact (h.nonempty (String.toList_eq_nil_iff.1 (List.getLast?_eq_none_iff.1 hname))).elim
    | some c =>
      split_ifs at hslash
      all_goals
        rw [String.toList_append, List.getLast?_append, hname] at hslash
        exact hslash
  exact h.plain (List.mem_of_getLast? hlast)

theorem IsFileName.child_ne_empty (h : IsFileName name) (directory : Path) :
    (directory.child name).text.isEmpty = false := by
  rw [Bool.eq_false_iff, ne_eq, String.isEmpty_iff, h.text_child]
  have hname := h.nonempty
  split_ifs <;> simp [String.append_eq_empty_iff, hname]

end Path

end CarrierTransport
