import Mnema.Uploads
import Mnema.Lib.Document
import Mnema.Lib.PurePath

/-! The names that `safe_relative_path` and `validate_upload_name` let through. -/

namespace Mnema

/-- The name of one file in one directory. -/
structure FileName (name : String) : Prop where
  nonempty : name ≠ ""
  notDot : name ≠ "."
  notUp : name ≠ ".."
  slash : '/' ∉ name.toList

variable {value raw name : String} {parts : List String}

/-- The parts of a relative path, without the roots that only an absolute one has. -/
theorem posixParts_relative (h : value.toList.head? ≠ some '/') :
    posixParts value = (PurePath.parts value.toList).map String.ofList := by
  simp only [posixParts, PurePath.parts]
  cases hcs : value.toList with
  | nil => rfl
  | cons c cs =>
    have hc : c ≠ '/' := fun he => h (by simp [hcs, he])
    split
    case h_4 => rfl
    all_goals simp_all

theorem safeRelativePath_iff : safeRelativePath value = .ok parts ↔
    value.toList.head? ≠ some '/' ∧ parts = posixParts value ∧ parts ≠ [] ∧ ".." ∉ parts := by
  simp only [safeRelativePath]
  by_cases hrelative : (value.toList.head? == some '/' || (posixParts value).isEmpty) = true
  · rw [if_pos hrelative]
    refine iff_of_false (by simp) ?_
    rintro ⟨hhead, rfl, hne, -⟩
    rcases Bool.or_eq_true_iff.mp hrelative with h | h
    · exact hhead (beq_iff_eq.mp h)
    · exact hne (List.isEmpty_iff.mp h)
  · rw [if_neg hrelative]
    rw [Bool.or_eq_true, not_or, beq_iff_eq, List.isEmpty_iff] at hrelative
    by_cases hup : (posixParts value).contains ".." = true
    · rw [if_pos hup]
      refine iff_of_false (by simp) ?_
      rintro ⟨-, rfl, -, hno⟩
      exact hno (List.contains_iff_mem.mp hup)
    · rw [if_neg hup]
      rw [List.contains_iff_mem] at hup
      constructor
      · intro h
        obtain rfl := Except.ok.inj h
        exact ⟨hrelative.1, rfl, hrelative.2, hup⟩
      · rintro ⟨-, rfl, -, -⟩
        rfl

theorem safeRelativePath_names (h : safeRelativePath value = .ok parts) :
    ∀ name ∈ parts, FileName name := by
  obtain ⟨hhead, hparts, -, hup⟩ := safeRelativePath_iff.mp h
  intro name hname
  have hne : name ≠ ".." := fun he => hup (he ▸ hname)
  rw [hparts, posixParts_relative hhead] at hname
  obtain ⟨part, hpart, rfl⟩ := List.mem_map.mp hname
  obtain ⟨hempty, hdot, hslash⟩ := PurePath.proper_parts value.toList part hpart
  refine ⟨fun he => hempty (String.ofList_injective he), fun he => hdot (String.ofList_injective he),
    hne, ?_⟩
  rwa [String.toList_ofList]

theorem splitOn_of_not_mem {text : List Char} (h : '/' ∉ text) : text.splitOn '/' = [text] := by
  induction text with
  | nil => rfl
  | cons x xs ih =>
    rw [List.mem_cons, not_or] at h
    have hx : (x == '/') = false := beq_false_of_ne (Ne.symm h.1)
    rw [List.splitOn_cons_eq_if_modifyHead, ih h.2]
    simp [hx]

namespace FileName

theorem head_ne (h : FileName name) : name.toList.head? ≠ some '/' := by
  intro he
  exact h.slash (List.mem_of_mem_head? he)

theorem keep (h : FileName name) : name.toList ≠ [] ∧ name.toList ≠ ['.'] :=
  ⟨fun he => h.nonempty (String.toList_inj.mp (he.trans rfl)),
    fun he => h.notDot (String.toList_inj.mp (he.trans rfl))⟩

theorem posixParts (h : FileName name) : Mnema.posixParts name = [name] := by
  rw [posixParts_relative h.head_ne, PurePath.parts, splitOn_of_not_mem h.slash]
  simp [h.keep.1, h.keep.2]

end FileName

theorem fileName_of_validate (h : validateUploadName raw = .ok name) : FileName name := by
  unfold validateUploadName at h
  obtain ⟨parts, hparts, h⟩ := Except.of_bind_eq_ok h
  by_cases hlast : parts.getLastD "" ≠ strip raw ∨ strip raw = "." ∨ strip raw = ".."
  · rw [if_pos hlast] at h
    cases h
  rw [if_neg hlast] at h
  rw [not_or, not_ne_iff] at hlast
  have hname : strip raw = name := by
    by_cases hlong : (strip raw).utf8ByteSize > 255
    · rw [if_pos hlong] at h
      cases h
    · rw [if_neg hlong] at h
      exact Except.ok.inj h
  rw [← hname]
  have hne := (safeRelativePath_iff.mp hparts).2.2.1
  have hmem : strip raw ∈ parts := by
    rw [← hlast.1, List.getLastD_eq_getLast?, List.getLast?_eq_some_getLast hne, Option.getD_some]
    exact List.getLast_mem hne
  exact safeRelativePath_names hparts _ hmem

/-- The path that the archive item of an upload is given. -/
theorem safeRelativePath_upload (h : FileName name) :
    safeRelativePath ("Uploads/" ++ name) = .ok ["Uploads", name] := by
  have hsplit : ("Uploads/" ++ name).toList.splitOn '/' = ["Uploads".toList, name.toList] := by
    rw [String.toList_append]
    change List.splitOn '/' ('U' :: 'p' :: 'l' :: 'o' :: 'a' :: 'd' :: 's' :: '/' :: name.toList) = _
    simp [List.splitOn_cons_eq_if_modifyHead, splitOn_of_not_mem h.slash]
  have hparts : posixParts ("Uploads/" ++ name) = ["Uploads", name] := by
    rw [posixParts_relative (by simp), PurePath.parts, hsplit]
    simp [h.keep.1, h.keep.2]
  rw [safeRelativePath_iff, hparts]
  refine ⟨by simp, rfl, by simp, ?_⟩
  simp [h.notUp.symm]

end Mnema
