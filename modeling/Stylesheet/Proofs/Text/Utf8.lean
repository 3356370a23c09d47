/-! Texts as bytes. A line feed is a byte that stands for nothing else. -/

namespace Stylesheet.Text.Utf8

theorem toList_loop (bytes : ByteArray) (i : Nat) (front : List UInt8) :
    ByteArray.toList.loop bytes i front = front.reverse ++ bytes.data.toList.drop i := by
  unfold ByteArray.toList.loop
  split
  · rename_i inside
    have inside : i < bytes.data.toList.length := inside
    have byte : bytes.get! i = bytes.data.toList[i] := by
      rw [ByteArray.get!, getElem!_pos bytes.data i (by simpa using inside), Array.getElem_toList]
    rw [toList_loop bytes (i + 1), List.drop_eq_getElem_cons inside, byte, List.reverse_cons,
      List.append_assoc, List.singleton_append]
  · rename_i outside
    have done : bytes.data.toList.length ≤ i := Nat.not_lt.mp outside
    rw [List.drop_eq_nil_of_le done, List.append_nil]
termination_by bytes.size - i

theorem toList_eq (bytes : ByteArray) : bytes.toList = bytes.data.toList :=
  toList_loop bytes 0 []

theorem eq_lineFeed_of_mem_utf8EncodeChar {c : Char} (member : 10 ∈ String.utf8EncodeChar c) :
    c = '\n' := by
  have value (n : Nat) (same : 10 = UInt8.ofNat n) : n % 256 = 10 := by
    simpa using (congrArg UInt8.toNat same).symm
  rw [String.utf8EncodeChar] at member
  split at member
  · rename_i ascii
    have isTen := value _ (List.mem_singleton.mp member)
    have isTen : c.val.toNat = 10 := by omega
    exact Char.ext (UInt32.toNat_inj.mp isTen)
  · -- All bytes of a longer encoding are at least 128.
    exfalso
    split at member
    · simp only [List.mem_cons, List.not_mem_nil, or_false] at member
      rcases member with same | same <;> have := value _ same <;> omega
    · split at member
      · simp only [List.mem_cons, List.not_mem_nil, or_false] at member
        rcases member with same | same | same <;> have := value _ same <;> omega
      · simp only [List.mem_cons, List.not_mem_nil, or_false] at member
        rcases member with same | same | same | same <;> have := value _ same <;> omega

theorem lineFeed_notMem_toUTF8 {text : String} (oneLine : '\n' ∉ text.toList) :
    10 ∉ text.toUTF8.data.toList := by
  rw [String.toUTF8_eq_toByteArray, ← String.utf8Encode_toList, List.utf8Encode,
    List.data_toByteArray, List.mem_flatMap]
  rintro ⟨c, member, isLineFeed⟩
  exact oneLine (eq_lineFeed_of_mem_utf8EncodeChar isLineFeed ▸ member)

end Stylesheet.Text.Utf8
