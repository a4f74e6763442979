import Mathlib.Data.Nat.Digits.Lemmas
import Mathlib.Tactic

/-!
# Text functions of the C library

On the bytes of a text, without its terminator.
-/
namespace StmGateway.Lib

/-- The loop of `strstr`: the first place where `s2` starts. -/
def strstrLoop : List UInt8 → List UInt8 → Option (List UInt8)
  | [], _ => none
  | c :: s1, s2 =>
    if (c :: s1).length < s2.length then none
    else if (c :: s1).take s2.length = s2 then some (c :: s1)
    else strstrLoop s1 s2

def strstr (s1 s2 : List UInt8) : Option (List UInt8) :=
  if s2.length = 0 then some s1 else strstrLoop s1 s2

theorem strstrLoop_isSome {s2 : List UInt8} (hs2 : s2 ≠ []) (s1 : List UInt8) :
    (strstrLoop s1 s2).isSome ↔ s2 <:+: s1 := by
  induction s1 with
  | nil => simp [strstrLoop, hs2]
  | cons c s1 ih =>
    unfold strstrLoop
    rw [List.infix_cons_iff]
    split
    · next hlen =>
      simp only [Option.isSome_none, Bool.false_eq_true, false_iff, not_or]
      constructor
      · intro h
        have := h.length_le
        omega
      · intro h
        have := h.length_le
        rw [List.length_cons] at hlen
        omega
    · split
      · next htake =>
        simp only [Option.isSome_some, true_iff]
        left
        rw [List.prefix_iff_eq_take]
        exact htake.symm
      · next htake =>
        rw [ih]
        constructor
        · exact Or.inr
        · intro h
          cases h with
          | inl hprefix => exact absurd (List.prefix_iff_eq_take.mp hprefix).symm htake
          | inr hinfix => exact hinfix

/-- `strstr` finds `s2` when it occurs in `s1`. -/
theorem strstr_isSome (s1 s2 : List UInt8) : (strstr s1 s2).isSome ↔ s2 <:+: s1 := by
  unfold strstr
  split
  · next hlen =>
    rw [List.eq_nil_of_length_eq_zero hlen]
    simp
  · next hlen => exact strstrLoop_isSome (fun h => hlen (by simp [h])) s1

/-- `strncmp(s1, s2, n) == 0`. -/
def strncmpEq : List UInt8 → List UInt8 → Nat → Bool
  | _, _, 0 => true
  | [], [], _ + 1 => true
  | a :: s1, b :: s2, n + 1 => a == b && strncmpEq s1 s2 n
  | _, _, _ + 1 => false

/-- With the lengths compared as well, it is equality. -/
theorem strncmpEq_iff {s1 s2 : List UInt8} :
    (strncmpEq s1 s2 s1.length = true ∧ s2.length = s1.length) ↔ s1 = s2 := by
  induction s1 generalizing s2 with
  | nil =>
    rw [List.length_nil, List.length_eq_zero_iff]
    simp [strncmpEq, eq_comm]
  | cons a s1 ih =>
    cases s2 with
    | nil => simp
    | cons b s2 =>
      rw [List.length_cons, List.length_cons, strncmpEq, List.cons_eq_cons, ← ih]
      simp only [Bool.and_eq_true, beq_iff_eq, Nat.add_right_cancel_iff, and_assoc]

/-- `%d` of a number that is not negative. -/
def decimal (n : Nat) : List UInt8 :=
  if n = 0 then [0x30] else ((Nat.digits 10 n).map fun d => UInt8.ofNat (0x30 + d)).reverse

/-- The value of the digits at the front of a text. -/
def digitsValue (acc : Nat) : List UInt8 → Nat
  | [] => acc
  | c :: s => if 0x30 ≤ c ∧ c ≤ 0x39 then digitsValue (acc * 10 + (c.toNat - 0x30)) s else acc

def isSpace (c : UInt8) : Bool := c = 0x20 || (0x09 ≤ c && c ≤ 0x0d)

/-- `atoi`, without the overflow that C leaves undefined. -/
def atoi (s : List UInt8) : Int :=
  match s.dropWhile isSpace with
  | 0x2d :: s => -(digitsValue 0 s : Int)
  | 0x2b :: s => digitsValue 0 s
  | s => digitsValue 0 s

theorem digit_toNat {d : Nat} (hd : d < 10) : (UInt8.ofNat (0x30 + d)).toNat = 0x30 + d := by
  rw [UInt8.toNat_ofNat', Nat.mod_eq_of_lt (by omega)]

theorem digit_range {d : Nat} (hd : d < 10) :
    0x30 ≤ UInt8.ofNat (0x30 + d) ∧ UInt8.ofNat (0x30 + d) ≤ 0x39 := by
  rw [UInt8.le_iff_toNat_le, UInt8.le_iff_toNat_le, digit_toNat hd]
  constructor
  · exact Nat.le_add_right _ _
  · change 0x30 + d ≤ 0x39
    omega

theorem digitsValue_append {ds : List Nat} (hds : ∀ d ∈ ds, d < 10) (acc : Nat) (s : List UInt8) :
    digitsValue acc ((ds.map fun d => UInt8.ofNat (0x30 + d)) ++ s) =
      digitsValue (digitsValue acc (ds.map fun d => UInt8.ofNat (0x30 + d))) s := by
  induction ds generalizing acc with
  | nil => rfl
  | cons d ds ih =>
    have hd := digit_range (hds d List.mem_cons_self)
    rw [List.map_cons, List.cons_append, digitsValue, digitsValue, if_pos hd, if_pos hd]
    exact ih (fun e he => hds e (List.mem_cons_of_mem _ he)) _

theorem digitsValue_reverse {ds : List Nat} (hds : ∀ d ∈ ds, d < 10) :
    digitsValue 0 ((ds.map fun d => UInt8.ofNat (0x30 + d)).reverse) = Nat.ofDigits 10 ds := by
  induction ds with
  | nil => rfl
  | cons d ds ih =>
    have hd := hds d List.mem_cons_self
    have hrest := fun e he => hds e (List.mem_cons_of_mem d he)
    rw [List.map_cons, List.reverse_cons, ← List.map_reverse,
      digitsValue_append (fun e he => hrest e (List.mem_reverse.mp he)), List.map_reverse, ih hrest,
      digitsValue, if_pos (digit_range hd), digitsValue, digit_toNat hd, Nat.ofDigits_cons]
    omega

/-- The digits of a number read back as the number. -/
theorem digitsValue_decimal (n : Nat) : digitsValue 0 (decimal n) = n := by
  unfold decimal
  split
  · next h => rw [h]; rfl
  · rw [digitsValue_reverse fun d hd => Nat.digits_lt_base (by decide) hd, Nat.ofDigits_digits]

theorem mem_decimal {n : Nat} {c : UInt8} (hc : c ∈ decimal n) : 0x30 ≤ c ∧ c ≤ 0x39 := by
  unfold decimal at hc
  split at hc
  · rw [List.mem_singleton] at hc
    subst hc
    decide
  · rw [List.mem_reverse, List.mem_map] at hc
    obtain ⟨d, hd, rfl⟩ := hc
    exact digit_range (Nat.digits_lt_base (by decide) hd)

theorem decimal_ne_nil (n : Nat) : decimal n ≠ [] := by
  unfold decimal
  split
  · simp
  · next h => simp [Nat.digits_eq_nil_iff_eq_zero, h]

theorem decimal_length {n k : Nat} (hk : 0 < k) (hn : n < 10 ^ k) : (decimal n).length ≤ k := by
  unfold decimal
  split
  · exact hk
  · rw [List.length_reverse, List.length_map]
    exact (Nat.digits_length_le_iff (by decide) n).mpr hn

/-- `atoi` undoes `%d`. -/
theorem atoi_decimal (n : Nat) : atoi (decimal n) = n := by
  obtain ⟨c, s, hcs⟩ := List.exists_cons_of_ne_nil (decimal_ne_nil n)
  obtain ⟨hlow, hhigh⟩ : 0x30 ≤ c ∧ c ≤ 0x39 := by
    apply mem_decimal
    rw [hcs]
    exact List.mem_cons_self
  rw [UInt8.le_iff_toNat_le] at hlow hhigh
  change 48 ≤ c.toNat at hlow
  change c.toNat ≤ 57 at hhigh
  have hspace : isSpace c = false := by
    simp only [isSpace, Bool.or_eq_false_iff, decide_eq_false_iff_not, Bool.and_eq_false_iff,
      UInt8.le_iff_toNat_le]
    constructor
    · intro h
      subst h
      simp at hlow
    · right
      change ¬ c.toNat ≤ 13
      omega
  have hdrop : (decimal n).dropWhile isSpace = decimal n := by
    rw [hcs, List.dropWhile_cons_of_neg (by simp [hspace])]
  unfold atoi
  rw [hdrop, hcs]
  split
  · next heq =>
    cases heq
    simp at hlow
  · next heq =>
    cases heq
    simp at hlow
  · rw [← hcs, digitsValue_decimal]

end StmGateway.Lib
