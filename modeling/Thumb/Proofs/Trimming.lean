import Mathlib.Data.List.Induction
import Mathlib.Data.List.TakeWhile
import Thumb.Text.Blank

/-! Blanks around text and between words: trimming takes away exactly the blanks at the ends, and the
first word ends exactly where a blank follows. -/
namespace Thumb.Text

/-- A run of blanks, which may be empty. -/
def IsGap (cs : List Char) : Prop := ∀ c ∈ cs, isBlank c = true

def IsWord (cs : List Char) : Prop := cs ≠ [] ∧ ∀ c ∈ cs, isBlank c = false

/-- A text that is empty or starts with a blank, so that a word can end before it. -/
def StartsBlank (cs : List Char) : Prop := ∀ c ∈ cs.head?, isBlank c = true

theorem isGap_nil : IsGap [] := by simp [IsGap]

theorem isGap_space : IsGap [' '] := by simp [IsGap, isBlank]

theorem isGap_append {cs ds : List Char} : IsGap (cs ++ ds) ↔ IsGap cs ∧ IsGap ds := by
  simp only [IsGap, List.forall_mem_append]

theorem IsGap.startsBlank {cs : List Char} (h : IsGap cs) : StartsBlank cs := by
  intro c hc
  exact h c (List.mem_of_mem_head? hc)

theorem IsGap.startsBlank_append {cs : List Char} (h : IsGap cs) (hne : cs ≠ []) (ds : List Char) :
    StartsBlank (cs ++ ds) := by
  obtain ⟨c, cs, rfl⟩ := List.exists_cons_of_ne_nil hne
  intro d hd
  cases hd
  exact h _ List.mem_cons_self

theorem IsGap.trimStart_append {pre : List Char} (h : IsGap pre) (cs : List Char) :
    trimStart (pre ++ cs) = trimStart cs := List.dropWhile_append_of_pos h

theorem IsGap.trimStart_eq_nil {cs : List Char} (h : IsGap cs) : trimStart cs = [] := by
  simpa using h.trimStart_append []

theorem trimStart_of_isWord {w : List Char} (h : IsWord w) (cs : List Char) :
    trimStart (w ++ cs) = w ++ cs := by
  obtain ⟨hne, hw⟩ := h
  obtain ⟨c, w, rfl⟩ := List.exists_cons_of_ne_nil hne
  simp [trimStart_cons, hw c]

theorem exists_gap_trimStart (cs : List Char) : ∃ pre, IsGap pre ∧ cs = pre ++ trimStart cs :=
  ⟨cs.takeWhile isBlank, fun _ h => List.mem_takeWhile_imp h,
    List.takeWhile_append_dropWhile.symm⟩

theorem IsGap.trimEnd_append {post : List Char} (h : IsGap post) (cs : List Char) :
    trimEnd (cs ++ post) = trimEnd cs := by
  have hr : IsGap post.reverse := fun c hc => h c (List.mem_reverse.mp hc)
  unfold trimEnd
  rw [List.reverse_append, hr.trimStart_append]

theorem IsGap.trimEnd_eq_nil {cs : List Char} (h : IsGap cs) : trimEnd cs = [] := by
  simpa using h.trimEnd_append []

theorem trimEnd_of_isWord {w : List Char} (h : IsWord w) (cs : List Char) :
    trimEnd (cs ++ w) = cs ++ w := by
  have hr : IsWord w.reverse := ⟨by simpa using h.1, fun c hc => h.2 c (List.mem_reverse.mp hc)⟩
  unfold trimEnd
  rw [List.reverse_append, trimStart_of_isWord hr, ← List.reverse_append, List.reverse_reverse]

theorem exists_gap_trimEnd (cs : List Char) : ∃ post, IsGap post ∧ cs = trimEnd cs ++ post := by
  obtain ⟨pre, hpre, h⟩ := exists_gap_trimStart cs.reverse
  refine ⟨pre.reverse, fun c hc => hpre c (List.mem_reverse.mp hc), ?_⟩
  rw [trimEnd, ← List.reverse_append, ← h, List.reverse_reverse]

/-- Trimming does not reach back over a word. -/
theorem trimEnd_append_of_isWord {w : List Char} (h : IsWord w) (cs ds : List Char) :
    trimEnd (cs ++ w ++ ds) = cs ++ w ++ trimEnd ds := by
  induction ds using List.reverseRecOn with
  | nil => rw [List.append_nil, trimEnd_nil, List.append_nil, trimEnd_of_isWord h]
  | append_singleton ds c ih =>
    rw [← List.append_assoc, trimEnd_concat, trimEnd_concat]
    split
    · exact ih
    · exact List.append_assoc _ _ _

theorem trim_of_isWord {w : List Char} (h : IsWord w) : trim w = w := by
  have hstart := trimStart_of_isWord h []
  have hend := trimEnd_of_isWord h []
  rw [List.append_nil] at hstart
  rw [trim, hstart]
  exact hend

theorem IsGap.trim_append {pre : List Char} (h : IsGap pre) (cs : List Char) :
    trim (pre ++ cs) = trim cs := by
  rw [trim, h.trimStart_append]
  rfl

theorem IsGap.append_trim {post : List Char} (h : IsGap post) (cs : List Char) :
    trim (cs ++ post) = trim cs := by
  unfold trim trimStart
  rw [List.dropWhile_append]
  split
  · next hcs =>
    rw [List.isEmpty_iff.mp hcs]
    exact congrArg trimEnd h.trimStart_eq_nil
  · exact h.trimEnd_append _

theorem trim_trimEnd (cs : List Char) : trim (trimEnd cs) = trim cs := by
  obtain ⟨post, hpost, hcs⟩ := exists_gap_trimEnd cs
  nth_rewrite 2 [hcs]
  exact (hpost.append_trim _).symm

theorem exists_gap_trim (cs : List Char) :
    ∃ pre post, IsGap pre ∧ IsGap post ∧ cs = pre ++ trim cs ++ post := by
  obtain ⟨pre, hpre, hstart⟩ := exists_gap_trimStart cs
  obtain ⟨post, hpost, hend⟩ := exists_gap_trimEnd (trimStart cs)
  refine ⟨pre, post, hpre, hpost, ?_⟩
  rw [List.append_assoc]
  change cs = pre ++ (trimEnd (trimStart cs) ++ post)
  rw [← hend, ← hstart]

@[simp] theorem trim_trim (cs : List Char) : trim (trim cs) = trim cs := by
  obtain ⟨pre, post, hpre, hpost, hcs⟩ := exists_gap_trim cs
  have h := congrArg trim hcs
  rw [List.append_assoc, hpre.trim_append, hpost.append_trim] at h
  exact h.symm

@[simp] theorem trimmed_trimmed (s : String) : trimmed (trimmed s) = trimmed s := by
  simp [trimmed]

theorem IsGap.trim_eq_nil {cs : List Char} (h : IsGap cs) : trim cs = [] := by
  rw [trim, h.trimStart_eq_nil, trimEnd_nil]

theorem isGap_of_trim_eq_nil {cs : List Char} (h : trim cs = []) : IsGap cs := by
  obtain ⟨pre, post, hpre, hpost, hcs⟩ := exists_gap_trim cs
  rw [h, List.append_nil] at hcs
  rw [hcs]
  exact isGap_append.mpr ⟨hpre, hpost⟩

/-- Trimmed text starts with a blank only if nothing is left of it. -/
theorem trim_eq_nil_of_startsBlank {cs : List Char} (h : StartsBlank (trim cs)) : trim cs = [] := by
  cases hcs : trim cs with
  | nil => rfl
  | cons c rest =>
    have hblank : IsGap [c] := by
      intro d hd
      rw [List.mem_singleton.mp hd]
      exact h c (by rw [hcs]; rfl)
    have htrim : trim rest = c :: rest := by
      have hwhole := trim_trim cs
      rw [hcs] at hwhole
      exact (hblank.trim_append rest).symm.trans hwhole
    obtain ⟨pre, post, -, -, hrest⟩ := exists_gap_trim rest
    have hlength := congrArg List.length hrest
    rw [htrim] at hlength
    simp only [List.length_append, List.length_cons] at hlength
    omega

theorem StartsBlank.left {cs ds : List Char} (h : StartsBlank (cs ++ ds)) : StartsBlank cs := by
  intro c hc
  apply h c
  rw [List.head?_append, Option.mem_def.mp hc]
  rfl

/-- Of a text that starts with a blank, trimming takes away a blank in front or leaves nothing. -/
theorem StartsBlank.exists_gap_trim {cs : List Char} (h : StartsBlank cs) :
    ∃ pre post, IsGap pre ∧ IsGap post ∧ (trim cs = [] ∨ pre ≠ []) ∧ cs = pre ++ trim cs ++ post := by
  obtain ⟨pre, post, hpre, hpost, hcs⟩ := Text.exists_gap_trim cs
  refine ⟨pre, post, hpre, hpost, ?_, hcs⟩
  rw [or_iff_not_imp_right, not_not]
  rintro rfl
  rw [hcs, List.nil_append] at h
  exact trim_eq_nil_of_startsBlank h.left

/-- The first word ends where a blank follows it. -/
theorem word_append {w rest : List Char} (hw : ∀ c ∈ w, isBlank c = false)
    (hrest : StartsBlank rest) : word (w ++ rest) = w ∧ afterWord (w ++ rest) = rest := by
  have hpos : ∀ c ∈ w, (!isBlank c) = true := fun c hc => by simp [hw c hc]
  unfold word afterWord
  rw [List.takeWhile_append_of_pos hpos, List.dropWhile_append_of_pos hpos]
  cases rest with
  | nil => simp
  | cons c rest => simp [hrest c rfl]

theorem startsBlank_afterWord (cs : List Char) : StartsBlank (afterWord cs) := by
  intro c hc
  unfold afterWord at hc
  cases h : cs.dropWhile (!isBlank ·) with
  | nil => rw [h] at hc; cases hc
  | cons d ds =>
    rw [h] at hc
    cases hc
    have hd := List.head_dropWhile_not (!isBlank ·) (l := cs) (by rw [h]; exact List.cons_ne_nil _ _)
    simpa [h] using hd

theorem isWord_word {cs : List Char} (h : word cs ≠ []) : IsWord (word cs) :=
  ⟨h, fun _ => not_isBlank_of_mem_word⟩

theorem isWord_iff {cs : List Char} : IsWord cs ↔ cs ≠ [] ∧ afterWord cs = [] := by
  constructor
  · rintro ⟨hne, hcs⟩
    have hend : StartsBlank [] := nofun
    have hcut := word_append hcs hend
    rw [List.append_nil] at hcut
    exact ⟨hne, hcut.2⟩
  · rintro ⟨hne, hafter⟩
    have hcut := word_append_afterWord cs
    rw [hafter, List.append_nil] at hcut
    rw [← hcut]
    apply isWord_word
    rwa [hcut]

end Thumb.Text
