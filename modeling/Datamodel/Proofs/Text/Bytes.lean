import Datamodel.Definition.Source
import Datamodel.Proofs.Text.Pattern
import Mathlib.Data.List.Infix

/-!
# Bytes of a text

Offsets count the bytes of what stands in front of them. So the offset of a place says where the
place is, an offset of what stands in front of a rest leads to that rest, and the place of a part
covers the bytes of that part.
-/

namespace Datamodel

/-- Whether a range covers a text: it begins and ends with characters of the source, and its bytes
are those of the text. -/
structure Span.Covers (span : Span) (source text : String) : Prop where
  start_isValid : String.Pos.Raw.IsValid source ⟨span.offset⟩
  stop_isValid : String.Pos.Raw.IsValid source ⟨span.stop⟩
  bytes : source.toUTF8.extract span.offset span.stop = text.toUTF8

namespace Text

/-! ### Sizes -/

theorem utf8ByteSize_ofList (s : List Char) : (String.ofList s).utf8ByteSize = size s := by
  induction s with
  | nil => rfl
  | cons c s ih =>
    rw [String.ofList_cons, String.utf8ByteSize_append, String.utf8ByteSize_singleton, ih,
      size_cons]

theorem size_le_of_prefix {front whole : List Char} (h : front <+: whole) :
    size front ≤ size whole := by
  obtain ⟨back, rfl⟩ := h
  rw [size_append]
  exact Nat.le_add_right (size front) (size back)

theorem isEmpty_of_size_eq_zero {s : List Char} (h : size s = 0) : s = [] := by
  cases s with
  | nil => rfl
  | cons c s =>
    have hc := c.utf8Size_pos
    rw [size_cons] at h
    omega

theorem size_le_size_iff {s front back : List Char} (hfront : front <+: s) (hback : back <+: s) :
    size front ≤ size back ↔ front.length ≤ back.length := by
  constructor
  · intro h
    by_contra hlonger
    obtain ⟨more, rfl⟩ := List.prefix_of_prefix_length_le hback hfront (Nat.le_of_not_le hlonger)
    rw [size_append] at h
    have hmore : more = [] := isEmpty_of_size_eq_zero (by omega)
    rw [hmore, List.append_nil] at hlonger
    exact hlonger le_rfl
  · exact fun h => size_le_of_prefix (List.prefix_of_prefix_length_le hfront hback h)

/-! ### Cuts by size -/

theorem dropSize?_size (front back : List Char) :
    dropSize? (size front) (front ++ back) = some back := by
  induction front with
  | nil => rw [size_nil, List.nil_append, dropSize?]
  | cons c front ih =>
    obtain ⟨n, hn⟩ : ∃ n, c.utf8Size + size front = n + 1 :=
      Nat.exists_eq_add_one.2 (Nat.add_pos_left c.utf8Size_pos (size front))
    have hrest : n + 1 - c.utf8Size = size front := by omega
    rw [size_cons, List.cons_append, hn, dropSize?, if_pos (by omega), hrest, ih]

theorem covers_of_eq {source : String} {before text after : List Char}
    (h : source.toList = before ++ text ++ after) :
    Span.Covers ⟨size before, size text⟩ source (String.ofList text) := by
  have hsource : source = String.ofList before ++ (String.ofList text ++ String.ofList after) := by
    rw [← String.ofList_append, ← String.ofList_append, ← List.append_assoc, ← h,
      String.ofList_toList]
  have hstart := utf8ByteSize_ofList before
  have hlength := utf8ByteSize_ofList text
  refine ⟨?_, ?_, ?_⟩
  · rw [String.Pos.Raw.isValid_iff_exists_append]
    exact ⟨_, _, hsource, String.Pos.Raw.ext (by rw [String.byteIdx_rawEndPos, hstart])⟩
  · rw [String.Pos.Raw.isValid_iff_exists_append]
    refine ⟨String.ofList before ++ String.ofList text, String.ofList after, ?_,
      String.Pos.Raw.ext ?_⟩
    · rw [hsource, String.append_assoc]
    · rw [String.byteIdx_rawEndPos, String.utf8ByteSize_append, hstart, hlength, Span.stop]
  · rw [Span.stop, String.toUTF8_eq_toByteArray, hsource, String.toByteArray_append,
      String.toByteArray_append, String.toUTF8_eq_toByteArray, ← hstart, ← hlength,
      ← String.size_toByteArray, ← String.size_toByteArray]
    have hskip := ByteArray.extract_append_size_add (a := (String.ofList before).toByteArray)
      (b := (String.ofList text).toByteArray ++ (String.ofList after).toByteArray) (i := 0)
      (j := (String.ofList text).toByteArray.size)
    rw [Nat.add_zero] at hskip
    rw [hskip, ByteArray.extract_append_eq_left rfl]

end Text

end Datamodel
