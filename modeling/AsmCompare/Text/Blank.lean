import AsmCompare.Text.CharRange

/-! # Blanks and trimming

A blank is a Unicode space character or one of the four ASCII information separators.
-/
namespace AsmCompare.Text

def blankRanges : List (Nat × Nat) :=
  [(0x09, 0x0D), (0x1C, 0x20), (0x85, 0x85), (0xA0, 0xA0), (0x1680, 0x1680), (0x2000, 0x200A),
   (0x2028, 0x2029), (0x202F, 0x202F), (0x205F, 0x205F), (0x3000, 0x3000)]

def isBlank (c : Char) : Bool := inRanges blankRanges c

/-- Drops what satisfies `p` from both ends. -/
def trimEnds (p : Char → Bool) (s : List Char) : List Char :=
  ((s.dropWhile p).reverse.dropWhile p).reverse

/-- Drops the blanks at both ends. -/
def trim (s : List Char) : List Char := trimEnds isBlank s

@[simp] theorem trimEnds_nil (p : Char → Bool) : trimEnds p [] = [] := rfl

theorem length_trimEnds_le (p : Char → Bool) (s : List Char) :
    (trimEnds p s).length ≤ s.length := by
  have h₁ := (List.dropWhile_sublist (l := s) p).length_le
  have h₂ := (List.dropWhile_sublist (l := (s.dropWhile p).reverse) p).length_le
  simp only [trimEnds, List.length_reverse] at *
  omega

theorem length_trim_le (s : List Char) : (trim s).length ≤ s.length := length_trimEnds_le _ s

theorem isBlank_of_visible {c : Char} (hleast : 0x20 < c.toNat) (hmost : c.toNat < 0x80) :
    isBlank c = false := by
  have hapart : ∀ r ∈ blankRanges, r.2 ≤ 0x20 ∨ 0x80 ≤ r.1 := by decide
  rw [Bool.eq_false_iff]
  intro h
  obtain ⟨r, hr, hle, hge⟩ := inRanges_iff.mp h
  have := hapart r hr
  omega

theorem isBlank_of_mem_takeWhile {s : List Char} {c : Char} (h : c ∈ s.takeWhile isBlank) :
    isBlank c = true :=
  List.all_eq_true.mp List.all_takeWhile c h

theorem isBlank_of_head?_dropWhile {s : List Char} {c : Char}
    (h : c ∈ (s.dropWhile isBlank).head?) : isBlank c = false := by
  have hnot := List.head?_dropWhile_not isBlank s
  rw [Option.mem_def.mp h] at hnot
  simpa using hnot

/-- What trimming drops. -/
theorem exists_eq_append_trim (s : List Char) :
    ∃ before after, s = before ++ trim s ++ after ∧ (∀ c ∈ before, isBlank c = true) ∧
      ∀ c ∈ after, isBlank c = true := by
  refine ⟨s.takeWhile isBlank, ((s.dropWhile isBlank).reverse.takeWhile isBlank).reverse, ?_,
    fun c hc => isBlank_of_mem_takeWhile hc, ?_⟩
  · rw [trim, trimEnds, List.append_assoc, ← List.reverse_append, List.takeWhile_append_dropWhile,
      List.reverse_reverse, List.takeWhile_append_dropWhile]
  · intro c hc
    exact isBlank_of_mem_takeWhile (List.mem_reverse.mp hc)

theorem isBlank_of_getLast?_trim {s : List Char} {c : Char} (h : c ∈ (trim s).getLast?) :
    isBlank c = false := by
  rw [trim, trimEnds, List.getLast?_reverse] at h
  exact isBlank_of_head?_dropWhile h

theorem isBlank_of_head?_trim {s : List Char} {c : Char} (h : c ∈ (trim s).head?) :
    isBlank c = false := by
  apply isBlank_of_head?_dropWhile (s := s)
  have hkept := List.takeWhile_append_dropWhile (p := isBlank) (l := (s.dropWhile isBlank).reverse)
  have hinitial : s.dropWhile isBlank =
      trim s ++ ((s.dropWhile isBlank).reverse.takeWhile isBlank).reverse := by
    rw [trim, trimEnds, ← List.reverse_append, hkept, List.reverse_reverse]
  rw [hinitial, List.head?_append, Option.mem_def.mp h]
  rfl

theorem dropWhile_eq_self {p : Char → Bool} {s : List Char} (h : ∀ c ∈ s.head?, p c = false) :
    s.dropWhile p = s := by
  cases s with
  | nil => rfl
  | cons c s => rw [List.dropWhile_cons, h c rfl, if_neg Bool.false_ne_true]

theorem trimEnds_eq_self {p : Char → Bool} {s : List Char} (hstart : ∀ c ∈ s.head?, p c = false)
    (hend : ∀ c ∈ s.getLast?, p c = false) : trimEnds p s = s := by
  have hreverse : ∀ c ∈ s.reverse.head?, p c = false := by
    rw [List.head?_reverse]
    exact hend
  rw [trimEnds, dropWhile_eq_self hstart, dropWhile_eq_self hreverse, List.reverse_reverse]

theorem trim_eq_self {s : List Char} (hstart : ∀ c ∈ s.head?, isBlank c = false)
    (hend : ∀ c ∈ s.getLast?, isBlank c = false) : trim s = s :=
  trimEnds_eq_self hstart hend

theorem trim_trim (s : List Char) : trim (trim s) = trim s :=
  trim_eq_self (fun _ => isBlank_of_head?_trim) fun _ => isBlank_of_getLast?_trim

end AsmCompare.Text
