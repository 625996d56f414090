import AsmCompare.Text.Numeral

/-! # Reading what was written in a base

The digits of a number in a base, most significant first, are read back as the number, whatever
zeros stand in front of them and in whichever case their letters are.
-/
namespace AsmCompare.Text

/-- The digits of a number in a base, of either case, with any zeros in front of them. -/
def IsDigits (base n : Nat) (s : List Char) : Prop :=
  ∃ zeros, s.map Char.toLower = List.replicate zeros '0' ++ Nat.toDigits base n

/-- The digits of the bases up to sixteen. -/
def digitChars : List Char := "0123456789abcdefABCDEF".toList

theorem of_mem_digitChars {p : Char → Bool} (h : digitChars.all p = true) {c : Char}
    (hc : c ∈ digitChars) : p c = true :=
  List.all_eq_true.mp h c hc

theorem toLower_cases (c : Char) :
    c.toLower = c ∨ 65 ≤ c.toNat ∧ c.toLower.toNat = c.toNat + 32 := by
  by_cases h : c.val ≥ 'A'.val ∧ c.val ≤ 'Z'.val
  · right
    have hlower : c.toLower.val = c.val + 32 := congrArg Char.val (dif_pos h)
    have hleast : 65 ≤ c.val.toNat := UInt32.le_iff_toNat_le.mp h.1
    have hmost : c.val.toNat ≤ 90 := UInt32.le_iff_toNat_le.mp h.2
    refine ⟨hleast, ?_⟩
    have hsum : c.toLower.val.toNat = (c.val.toNat + 32) % 2 ^ 32 := by
      rw [hlower, UInt32.toNat_add]
      rfl
    rw [Nat.mod_eq_of_lt (by omega)] at hsum
    exact hsum
  · left
    exact dif_neg h

theorem mem_digitChars {c : Char} {d : Nat} (hd : d < 16) (h : c.toLower = d.digitChar) :
    c ∈ digitChars := by
  rcases toLower_cases c with hsame | ⟨hleast, hlower⟩
  · have hdigits : ∀ d < 16, d.digitChar ∈ digitChars := by decide
    rw [← hsame, h]
    exact hdigits d hd
  · have hcapitals : ∀ d < 16, 97 ≤ d.digitChar.toNat →
        Char.ofNat (d.digitChar.toNat - 32) ∈ digitChars := by decide
    rw [h] at hlower
    have hc := hcapitals d hd (by omega)
    rwa [hlower, Nat.add_sub_cancel, Char.ofNat_toNat] at hc

/-- The value of a character, which stands for a digit. -/
def valueOf (c : Char) : Nat := (digitValue? c).getD 0

theorem digitValue?_eq {c : Char} {d : Nat} (hd : d < 16) (h : c.toLower = d.digitChar) :
    digitValue? c = some d := by
  have hcase : digitChars.all (fun c => digitValue? c.toLower = digitValue? c) = true := by decide
  have hvalue : ∀ d < 16, digitValue? d.digitChar = some d := by decide
  have hlower := of_decide_eq_true (of_mem_digitChars hcase (mem_digitChars hd h))
  rw [← hlower, h, hvalue d hd]

theorem exists_digitChar_of_mem_toDigits {base n : Nat} {c : Char} (hbase : 1 < base)
    (h : c ∈ Nat.toDigits base n) : ∃ d < base, c = d.digitChar := by
  induction n using Nat.strongRecOn with
  | ind n ih =>
    rw [Nat.toDigits_eq_if hbase] at h
    split at h
    · next hlt => exact ⟨n, hlt, List.mem_singleton.mp h⟩
    · next hle =>
      rcases List.mem_append.mp h with h | h
      · exact ih (n / base) (Nat.div_lt_self (by omega) hbase) h
      · exact ⟨n % base, Nat.mod_lt n (by omega), List.mem_singleton.mp h⟩

theorem isDigits_toDigits {base : Nat} (hbase : 1 < base) (hle : base ≤ 16) (n : Nat) :
    IsDigits base n (Nat.toDigits base n) := by
  have hlower : ∀ d < 16, d.digitChar.toLower = d.digitChar := by decide
  refine ⟨0, (List.map_congr_left ?_).trans (List.map_id _)⟩
  intro c hc
  obtain ⟨d, hd, rfl⟩ := exists_digitChar_of_mem_toDigits hbase hc
  exact hlower d (by omega)

theorem head?_toDigits_ne {base n : Nat} (hbase : 1 < base) (hn : 0 < n) :
    (Nat.toDigits base n).head? ≠ some '0' := by
  induction n using Nat.strongRecOn with
  | ind n ih =>
    rw [Nat.toDigits_eq_if hbase]
    split
    · intro hzero
      have := Nat.digitChar_eq_zero.mp (Option.some.inj hzero)
      omega
    · next hle =>
      have hpos : 0 < n / base := Nat.div_pos (by omega) (by omega)
      have hfirst := ih (n / base) (Nat.div_lt_self hn hbase) hpos
      obtain ⟨c, rest, hdigits⟩ := List.exists_cons_of_ne_nil (@Nat.toDigits_ne_nil (n / base) base)
      rw [hdigits] at hfirst ⊢
      exact hfirst

theorem ofDigits_append (base : Nat) (ds es : List Nat) :
    ofDigits base (ds ++ es) = es.foldl (fun n d => n * base + d) (ofDigits base ds) :=
  List.foldl_append

theorem ofDigits_replicate_append (base zeros : Nat) (ds : List Nat) :
    ofDigits base (List.replicate zeros 0 ++ ds) = ofDigits base ds := by
  induction zeros with
  | zero => rfl
  | succ zeros ih =>
    rw [List.replicate_succ, List.cons_append, ofDigits, List.foldl_cons, Nat.zero_mul]
    exact ih

theorem ofDigits_toDigits {base : Nat} (hbase : 1 < base) (hle : base ≤ 16) (n : Nat) :
    ofDigits base ((Nat.toDigits base n).map valueOf) = n := by
  have hvalue : ∀ d < 16, valueOf d.digitChar = d := by decide
  induction n using Nat.strongRecOn with
  | ind n ih =>
    rw [Nat.toDigits_eq_if hbase]
    split
    · next hlt =>
      rw [List.map_singleton, hvalue n (by omega), ofDigits, List.foldl_cons, List.foldl_nil]
      omega
    · have hmod := Nat.mod_lt n (show base > 0 by omega)
      rw [List.map_append, List.map_singleton, ofDigits_append, hvalue _ (by omega),
        ih (n / base) (Nat.div_lt_self (by omega) hbase), List.foldl_cons, List.foldl_nil]
      exact Nat.div_add_mod' n base

/-- Digits without underscores are read one by one. -/
theorem readDigits_eq {base : Nat} {s : List Char} (hne : s ≠ [])
    (h : ∀ c ∈ s, digitIn? base c = some (valueOf c)) :
    readDigits base s = some (s.map valueOf) := by
  fun_induction readDigits base s with
  | case1 => exact absurd rfl hne
  | case2 c => simp [h c]
  | case3 c rest ih =>
    have hnone : digitIn? base '_' = none := rfl
    have hsome := h '_' (by simp)
    rw [hnone] at hsome
    cases hsome
  | case4 c rest hlast hunderscore ih =>
    have hrest : rest ≠ [] := by
      rintro rfl
      exact hlast rfl
    rw [h c List.mem_cons_self, ih hrest fun d hd => h d (List.mem_cons_of_mem c hd)]
    rfl

namespace IsDigits
variable {base n : Nat} {s : List Char}

theorem ne_nil (h : IsDigits base n s) : s ≠ [] := by
  rintro rfl
  obtain ⟨zeros, hs⟩ := h
  exact Nat.toDigits_ne_nil (List.append_eq_nil_iff.mp hs.symm).2

variable (hbase : 1 < base) (hle : base ≤ 16) (h : IsDigits base n s)
include hbase h

theorem exists_digitChar {c : Char} (hc : c ∈ s) : ∃ d < base, c.toLower = d.digitChar := by
  obtain ⟨zeros, hs⟩ := h
  have hlower : c.toLower ∈ List.replicate zeros '0' ++ Nat.toDigits base n :=
    hs ▸ List.mem_map_of_mem hc
  rcases List.mem_append.mp hlower with hzero | hdigit
  · exact ⟨0, by omega, List.eq_of_mem_replicate hzero⟩
  · exact exists_digitChar_of_mem_toDigits hbase hdigit

include hle

theorem mem_digitChars {c : Char} (hc : c ∈ s) : c ∈ digitChars := by
  obtain ⟨d, hd, hlower⟩ := h.exists_digitChar hbase hc
  exact Text.mem_digitChars (by omega) hlower

theorem digitIn?_eq {c : Char} (hc : c ∈ s) : digitIn? base c = some (valueOf c) := by
  obtain ⟨d, hd, hlower⟩ := h.exists_digitChar hbase hc
  have hvalue := digitValue?_eq (by omega) hlower
  simp [digitIn?, valueOf, hvalue, hd]

theorem ofDigits_eq : ofDigits base (s.map valueOf) = n := by
  have hcase : digitChars.all (fun c => valueOf c.toLower = valueOf c) = true := by decide
  have hlower : s.map valueOf = (s.map Char.toLower).map valueOf := by
    rw [List.map_map]
    refine List.map_congr_left fun c hc => ?_
    exact (of_decide_eq_true (of_mem_digitChars hcase (h.mem_digitChars hbase hle hc))).symm
  obtain ⟨zeros, hs⟩ := h
  rw [hlower, hs, List.map_append, List.map_replicate]
  exact (ofDigits_replicate_append base zeros _).trans (ofDigits_toDigits hbase hle n)

theorem trimEnds_eq : trimEnds isNumeralBlank s = s := by
  have hsolid : digitChars.all (fun c => !isNumeralBlank c) = true := by decide
  have hnone : ∀ c ∈ s, isNumeralBlank c = false := by
    intro c hc
    simpa using of_mem_digitChars hsolid (h.mem_digitChars hbase hle hc)
  exact trimEnds_eq_self (fun c hc => hnone c (List.mem_of_head? hc))
    fun c hc => hnone c (List.mem_of_getLast? hc)

/-- The letters in the prefixes of the other bases are no digits. -/
theorem dropBaseMark_eq (htwo : base ≠ 2) : dropBaseMark base s = s := by
  match s, h with
  | [], _ => rfl
  | [c], _ => rfl
  | zero :: mark :: rest, h =>
    have hplain : digitChars.all (fun c => !(c = 'x' || c = 'X' || c = 'o' || c = 'O')) = true := by
      decide
    have hmark := of_mem_digitChars hplain (h.mem_digitChars hbase hle (c := mark) (by simp))
    have hnone : isBaseMark base mark = false := by
      simp only [Bool.not_eq_true', Bool.or_eq_false_iff] at hmark
      simp [isBaseMark, hmark, htwo]
    unfold dropBaseMark
    dsimp only
    rw [hnone, Bool.and_false, if_neg Bool.false_ne_true]

theorem readNatural_eq (htwo : base ≠ 2) (hlimit : base = 10 → s.length ≤ maxDecimalDigits) :
    readNatural base s = some n := by
  have hread : readDigits base s = some (s.map valueOf) :=
    readDigits_eq h.ne_nil fun c hc => h.digitIn?_eq hbase hle hc
  have hshort : (base ≠ 10 || (s.map valueOf).length ≤ maxDecimalDigits) = true := by
    by_cases hten : base = 10
    · simp [hten, hlimit hten]
    · simp [hten]
  rw [readNatural, h.dropBaseMark_eq hbase hle htwo, hread, Option.bind_eq_bind, Option.bind_some,
    hshort, h.ofDigits_eq hbase hle]
  rfl

/-- Digits are read as the number they were written for. -/
theorem readInteger_eq (htwo : base ≠ 2) (hlimit : base = 10 → s.length ≤ maxDecimalDigits) :
    readInteger base s = some (n : Int) := by
  have hsign : digitChars.all (fun c => !(c = '+' || c = '-')) = true := by decide
  have hfirst : ∀ c rest, s = c :: rest → c ≠ '+' ∧ c ≠ '-' := by
    rintro c rest rfl
    simpa using of_mem_digitChars hsign (h.mem_digitChars hbase hle List.mem_cons_self)
  rw [readInteger, h.trimEnds_eq hbase hle]
  split
  · exact absurd rfl (hfirst _ _ rfl).1
  · exact absurd rfl (hfirst _ _ rfl).2
  · rw [h.readNatural_eq hbase hle htwo hlimit]
    rfl

end IsDigits

end AsmCompare.Text
