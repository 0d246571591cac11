import DisastrOS.Kernel.MessageQueues

/-! # Strings in the memory of a process

What `strcpy` reads ends before the first zero, and what it writes is the string
with a zero behind it. Other characters are neither looked at nor changed.
-/
namespace DisastrOS.Kernel

variable {chars : ℤ → UInt8} {p a : ℤ} {text : List UInt8} {n : ℕ}

theorem readString_length (h : readString chars p n = some text) : text.length < n := by
  induction n generalizing p text with
  | zero => cases h
  | succ n ih =>
    unfold readString at h
    split at h
    · cases h
      exact Nat.succ_pos n
    · obtain ⟨rest,hrest,rfl⟩ := Option.map_eq_some_iff.mp h
      exact Nat.succ_lt_succ (ih hrest)

theorem readString_nonzero (h : readString chars p n = some text) : 0 ∉ text := by
  induction n generalizing p text with
  | zero => cases h
  | succ n ih =>
    unfold readString at h
    split at h
    · cases h
      exact List.not_mem_nil
    · rename_i hc
      obtain ⟨rest,hrest,rfl⟩ := Option.map_eq_some_iff.mp h
      intro hmem
      rcases List.mem_cons.mp hmem with h0 | hmem
      · exact hc h0.symm
      · exact ih hrest hmem

/-- Characters below the address are not written. -/
theorem writeString_below (ha : a < p) : writeString chars p text a = chars a := by
  induction text generalizing chars p with
  | nil =>
    apply Function.update_of_ne
    omega
  | cons c text ih =>
    have hne : a ≠ p := by omega
    have hlt : a < p + 1 := by omega
    exact (ih hlt).trans (Function.update_of_ne hne _ _)

/-- A string that was stored is read back. -/
theorem readString_writeString (hn : text.length < n) (h0 : 0 ∉ text) :
    readString (writeString chars p text) p n = some text := by
  induction text generalizing chars p n with
  | nil =>
    obtain ⟨n,rfl⟩ := Nat.exists_eq_succ_of_ne_zero (Nat.ne_of_gt hn)
    have hzero : writeString chars p [] p = 0 := Function.update_self _ _ _
    unfold readString
    rw [if_pos hzero]
  | cons c text ih =>
    obtain ⟨n,rfl⟩ := Nat.exists_eq_succ_of_ne_zero (Nat.ne_of_gt (Nat.zero_lt_of_lt hn))
    obtain ⟨hc0,hrest⟩ := not_or.mp (fun h => h0 (List.mem_cons.mpr h))
    have hlt : p < p + 1 := by omega
    have hc : writeString chars p (c :: text) p = c :=
      (writeString_below hlt).trans (Function.update_self _ _ _)
    have hread : readString (writeString (Function.update chars p c) (p + 1) text) (p + 1) n =
        some text := ih (Nat.lt_of_succ_lt_succ hn) hrest
    unfold readString
    rw [hc,if_neg (Ne.symm hc0)]
    exact congrArg (Option.map (c :: ·)) hread

/-- Each character that is read, and the zero behind the last one. -/
theorem readString_getD (h : readString chars p n = some text) :
    ∀ i ≤ text.length, chars (p + i) = text.getD i 0 := by
  induction n generalizing p text with
  | zero => cases h
  | succ n ih =>
    unfold readString at h
    split at h
    · rename_i hc
      cases h
      intro i hi
      obtain rfl := Nat.le_zero.mp hi
      rw [Int.natCast_zero,Int.add_zero,hc]
      rfl
    · obtain ⟨rest,hrest,rfl⟩ := Option.map_eq_some_iff.mp h
      intro i hi
      cases i with
      | zero =>
        rw [Int.natCast_zero,Int.add_zero]
        rfl
      | succ i =>
        rw [Int.natCast_succ,Int.add_comm i 1,← Int.add_assoc]
        exact ih hrest i (Nat.le_of_succ_le_succ hi)

/-- Each character that is written, and the zero behind the last one. -/
theorem writeString_getD :
    ∀ i ≤ text.length, writeString chars p text (p + i) = text.getD i 0 := by
  induction text generalizing chars p with
  | nil =>
    intro i hi
    obtain rfl := Nat.le_zero.mp hi
    rw [Int.natCast_zero,Int.add_zero]
    exact Function.update_self _ _ _
  | cons c text ih =>
    intro i hi
    cases i with
    | zero =>
      have hlt : p < p + 1 := by omega
      rw [Int.natCast_zero,Int.add_zero]
      exact (writeString_below hlt).trans (Function.update_self _ _ _)
    | succ i =>
      rw [Int.natCast_succ,Int.add_comm i 1,← Int.add_assoc]
      exact ih i (Nat.le_of_succ_le_succ hi)

/-- Characters behind the zero are not written. -/
theorem writeString_above (ha : p + text.length < a) : writeString chars p text a = chars a := by
  induction text generalizing chars p with
  | nil =>
    apply Function.update_of_ne
    simp only [List.length_nil,Int.natCast_zero] at ha
    omega
  | cons c text ih =>
    rw [List.length_cons,Int.natCast_succ] at ha
    have hne : a ≠ p := by omega
    have hlt : p + 1 + text.length < a := by omega
    exact (ih hlt).trans (Function.update_of_ne hne _ _)

end DisastrOS.Kernel
