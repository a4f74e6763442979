import StmGateway.At.Getters
import StmGateway.At.Ring

/-!
# Answers without the parameter

`atk_ide01_get_parameter` reports a missing parameter only where the answer has
no `=`. Behind a `=` it always returns `ATK_IDE01_EOK`, with an index or a
length that it may never have assigned.
-/
namespace StmGateway.At.Missing

open StmGateway.Lib StmGateway.At.Parameter StmGateway.At.Ring StmGateway.At.Setters
open StmGateway.At.Getters

/-- A module that answers with what the buffer holds. -/
def answered (src : Nat → UInt8) : Send := fun _ => some (.eok, src)

/-- The text behind the first `=`. -/
def afterEquals (text : List UInt8) : List UInt8 := (text.dropWhile (· ≠ 0x3d)).drop 1

/-- How many quoted strings of a text are complete. -/
def completeStrings (text : List UInt8) : Nat := text.count 0x22 / 2

variable {src : Nat → UInt8} {len : Nat} {num : UInt8} {stack : Stack}

theorem mem_slice {b : UInt8} : b ∈ slice src 0 len ↔ ∃ j < len, src j = b := by
  simp only [slice, List.mem_map, List.mem_range'_1, Nat.zero_le, true_and, Nat.zero_add]

/-- Without a `=` nothing is assigned. -/
theorem getParameter_missing (h : Answer src len) (hlen : len ≤ 255) (hequals : 0x3d ∉ slice src 0 len)
    (hnum : num ≠ 0) (index length : Option UInt16) (stackIndex stackLen : UInt16) :
    Returns (atkIde01GetParameter src num index length stackIndex stackLen) (.einval, index, length) := by
  obtain ⟨e, he, hle, _, _, hseek⟩ := seekEquals_answer h (.inl hlen)
  apply getParameter_einval hnum hseek
  rw [index_toNat he]
  intro hsrc
  rcases Nat.lt_or_eq_of_le hle with hlt | rfl
  · exact hequals (mem_slice.mpr ⟨e, hlt, hsrc⟩)
  · rw [h.ends] at hsrc
    exact absurd hsrc (by decide)

/-- With one the status is `ATK_IDE01_EOK`. -/
theorem getParameter_accepts (h : Answer src len) (hlen : len ≤ 255) (hequals : 0x3d ∈ slice src 0 len)
    (hnum : num ≠ 0) (index length : Option UInt16) (stackIndex stackLen : UInt16) :
    ∃ i l, Returns (atkIde01GetParameter src num index length stackIndex stackLen) (.eok, i, l) := by
  obtain ⟨e, he, hle, hstop, hbefore, hseek⟩ := seekEquals_answer h (.inl hlen)
  have hsrc : src e = 0x3d := by
    obtain ⟨j, hj, hsrc⟩ := mem_slice.mp hequals
    refine hstop.resolve_left fun hnul => ?_
    have hje : e ≤ j := Nat.le_of_not_lt fun hlt => (hbefore j hlt).2 hsrc
    exact h.inside e (by omega) hnul
  obtain ⟨s, hs⟩ := @scanQuotes_answer src len length.isSome num stackIndex stackLen h e he hle hnum
    (.inl hlen)
  exact ⟨_, _, getParameter_eok hnum hseek (by rw [index_toNat he]; exact hsrc) hs⟩

/-- So no byte is chosen for a copy, whichever parameter is asked for. -/
theorem copyParameter_missing (h : Answer src len) (hlen : len ≤ 255)
    (hequals : 0x3d ∉ slice src 0 len) (num : UInt8) (stack : Stack) :
    Returns (copyParameter src num stack) (.einval, []) := by
  have hreturns : Returns (atkIde01GetParameter src num (some 0) (some 0) (stack num).1 (stack num).2)
      (.einval, some 0, some 0) := by
    by_cases hnum : num = 0
    · subst hnum
      exact Returns.pure _
    · exact getParameter_missing h hlen hequals hnum _ _ _ _
  exact copyParameter_of_get hreturns

/-- From some fuel on no parameter of the answer can be copied. -/
def NoParameter (src : Nat → UInt8) (stack : Stack) : Prop :=
  ∃ bound, ∀ fuel, bound ≤ fuel → ∀ num, copyParameter src num stack fuel = some (.einval, [])

theorem noParameter (h : Answer src len) (hlen : len ≤ 255) (hequals : 0x3d ∉ slice src 0 len)
    (stack : Stack) : NoParameter src stack := by
  obtain ⟨bound, hall⟩ := Returns.all (n := 256) fun i _ =>
    copyParameter_missing h hlen hequals (UInt8.ofNat i) stack
  refine ⟨bound, fun fuel hle num => ?_⟩
  have hnum := hall fuel hle num.toNat num.toNat_lt
  rwa [UInt8.ofNat_toNat] at hnum

namespace NoParameter

variable (h : NoParameter src stack)

include h

theorem queryOne {β : Type} (cmd : Cmd) (num : UInt8)
    (decode : List UInt8 → Option (Status × Option β)) :
    Returns (fun fuel => Getters.queryOne (answered src) cmd num stack fuel decode) (.error, none) := by
  obtain ⟨bound, hcopy⟩ := h
  refine ⟨bound, fun fuel hle => ?_⟩
  simp only [Getters.queryOne, query, answered, hcopy fuel hle, Option.bind_eq_bind, Option.bind_some,
    ne_eq, not_true_eq_false, ↓reduceIte, reduceCtorEq, not_false_eq_true, Option.pure_def]

theorem getText (cmd : Cmd) (dst : Bool) : ∃ st, st ≠ .eok ∧
    Returns (fun fuel => Getters.getText cmd (answered src) stack fuel dst) (st, none) := by
  cases dst with
  | false => exact ⟨.einval, by decide, Returns.pure _⟩
  | true =>
    exact ⟨.error, by decide, h.queryOne cmd 1 fun text => some (.eok, some (storedText text))⟩

theorem getEnum {β : Type} (size : Nat) (table : List (String × β)) (cmd : Cmd) (dst : Bool) :
    ∃ st, st ≠ .eok ∧
      Returns (fun fuel => Getters.getEnum size table cmd (answered src) stack fuel dst) (st, none) := by
  cases dst with
  | false => exact ⟨.einval, by decide, Returns.pure _⟩
  | true => exact ⟨.error, by decide, h.queryOne cmd 1 (matchText size table)⟩

theorem getNumber (size : Nat) (cmd : Cmd) (dst : Bool) : ∃ st, st ≠ .eok ∧
    Returns (fun fuel => Getters.getNumber size cmd (answered src) stack fuel dst) (st, none) := by
  cases dst with
  | false => exact ⟨.einval, by decide, Returns.pure _⟩
  | true => exact ⟨.error, by decide, h.queryOne cmd 1 (numberText size)⟩

theorem getUart (b s d p : Bool) : ∃ st, st ≠ .eok ∧
    Returns (fun fuel => atkIde01GetUart (answered src) stack fuel b s d p)
      (st, ⟨none, none, none, none⟩) := by
  obtain ⟨bound, hcopy⟩ := h
  refine ⟨if b = false ∧ s = false ∧ d = false ∧ p = false then .einval else .error,
    by split <;> decide, bound, fun fuel hle => ?_⟩
  have hfield : ∀ {β : Type} (dst : Bool) (num : UInt8) (size : Nat) (table : List (String × β)),
      uartField src stack fuel dst num size table =
        some (if dst then (.error, none) else (.eok, none)) := by
    intro β dst num size table
    cases dst with
    | false => rfl
    | true =>
      simp only [uartField, hcopy fuel hle, Option.bind_eq_bind, Option.bind_some, ↓reduceIte, ne_eq,
        reduceCtorEq, not_false_eq_true, Option.pure_def]
  simp only [atkIde01GetUart, query, answered, Option.bind_eq_bind, Option.bind_some, ne_eq,
    not_true_eq_false, ↓reduceIte, hfield]
  cases b <;> cases s <;> cases d <;> cases p <;> rfl

theorem getLinkinfo (name : String) (num : UInt8) (ip port : Bool) : ∃ st, st ≠ .eok ∧
    Returns (fun fuel => Getters.getLinkinfo name (answered src) stack fuel num ip port)
      (st, ⟨none, none⟩) := by
  obtain ⟨bound, hcopy⟩ := h
  refine ⟨if ip = false ∧ port = false then .einval else .error, by split <;> decide, bound,
    fun fuel hle => ?_⟩
  have hfield : ∀ (dst : Bool) (num : UInt8), linkField src stack fuel dst num =
      some (if dst then (.error, none) else (.eok, none)) := by
    intro dst num
    cases dst with
    | false => rfl
    | true =>
      simp only [linkField, hcopy fuel hle, Option.bind_eq_bind, Option.bind_some, ↓reduceIte, ne_eq,
        reduceCtorEq, not_false_eq_true, Option.pure_def]
  simp only [Getters.getLinkinfo, query, answered, Option.bind_eq_bind, Option.bind_some, ne_eq,
    not_true_eq_false, ↓reduceIte, hfield]
  cases ip <;> cases port <;> rfl

/-- Every getter returns an error then, or refuses its pointers, and writes nothing. -/
theorem run (q : Query) : ∃ st, st ≠ .eok ∧
    Returns (fun fuel => q.run (answered src) stack fuel) (st, q.untouched) := by
  cases q with
  | uart b s d p => exact h.getUart b s d p
  | remotelinkinfo num ip port => exact h.getLinkinfo _ num ip port
  | locallinkinfo num ip port => exact h.getLinkinfo _ num ip port
  | version => exact h.getText _ true
  | searchMac dst =>
    cases dst with
    | false => exact ⟨.einval, by decide, Returns.pure _⟩
    | true =>
      exact ⟨.error, by decide, h.queryOne _ 2 fun text =>
        some (.eok, some fun j => if j = 17 then some 0 else text[j]?)⟩
  | clouddomainLen dst =>
    cases dst with
    | false => exact ⟨.einval, by decide, Returns.pure _⟩
    | true =>
      exact ⟨.error, by decide, h.queryOne _ 1 fun text =>
        some (.eok, some (UInt16.ofNat text.length + 1))⟩
  | ethmod dst | echo dst | dhcp dst | cloudlinken dst | netlksta dst => exact h.getEnum _ _ _ dst
  | uartpacktime dst | uartpacklen dst | linknum dst => exact h.getNumber _ _ dst
  | _ dst => exact h.getText _ dst

end NoParameter

/-- What is asked of the function, and of the getters, on an answer without the
parameter `num`: an error, and nothing copied. -/
def Reported (src : Nat → UInt8) (num : UInt8) (index length stackIndex stackLen : UInt16) : Prop :=
  Returns (atkIde01GetParameter src num (some index) (some length) stackIndex stackLen)
      (.einval, some index, some length) ∧
    ∀ (q : Query) (stack : Stack), num ∈ q.asks → ∃ st, st ≠ .eok ∧
      Returns (fun fuel => q.run (answered src) stack fuel) (st, q.untouched)

/-- A missing parameter is reported where the answer has no `=`, and only there. -/
theorem missing_reported_iff (h : Answer src len) (hlen : len ≤ 255) (hnum : num ≠ 0)
    (index length stackIndex stackLen : UInt16) :
    (completeStrings (afterEquals (slice src 0 len)) < num.toNat →
        Reported src num index length stackIndex stackLen) ↔
      0x3d ∉ slice src 0 len ∨ num.toNat ≤ completeStrings (afterEquals (slice src 0 len)) := by
  constructor
  · intro hreported
    by_cases hshort : completeStrings (afterEquals (slice src 0 len)) < num.toNat
    · left
      intro hequals
      obtain ⟨i, l, haccepted⟩ := getParameter_accepts h hlen hequals hnum (some index) (some length)
        stackIndex stackLen
      cases (hreported hshort).1.unique haccepted
    · exact .inr (Nat.le_of_not_lt hshort)
  · intro hcond hshort
    have hequals := hcond.resolve_right (Nat.not_le.mpr hshort)
    exact ⟨getParameter_missing h hlen hequals hnum _ _ _ _,
      fun q stack _ => (noParameter h hlen hequals stack).run q⟩

/-- An answer with a `=` and one string, asked for its second one. -/
theorem missing_reported_short :
    (completeStrings (afterEquals (slice (fun j => (ascii "+M=\"1\"").getD j 0) 0 6)) <
        (2 : UInt8).toNat → Reported (fun j => (ascii "+M=\"1\"").getD j 0) 2 0 0 7 9) ↔
      0x3d ∉ slice (fun j => (ascii "+M=\"1\"").getD j 0) 0 6 ∨
        (2 : UInt8).toNat ≤
          completeStrings (afterEquals (slice (fun j => (ascii "+M=\"1\"").getD j 0) 0 6)) :=
  missing_reported_iff ⟨by decide, rfl⟩ (by decide) (by decide) 0 0 7 9

/-- It is not reported: what was on the stack comes back as index and length. -/
theorem missing_accepted :
    completeStrings (afterEquals (slice (fun j => (ascii "+M=\"1\"").getD j 0) 0 6)) <
        (2 : UInt8).toNat ∧
      Returns (atkIde01GetParameter (fun j => (ascii "+M=\"1\"").getD j 0) 2 (some 0) (some 0) 7 9)
        (.eok, some 7, some 9) ∧
      ¬ Reported (fun j => (ascii "+M=\"1\"").getD j 0) 2 0 0 7 9 := by
  have haccepted : Returns (atkIde01GetParameter (fun j => (ascii "+M=\"1\"").getD j 0) 2 (some 0)
      (some 0) 7 9) (.eok, some 7, some 9) := by
    refine ⟨10, fun fuel hle => ?_⟩
    obtain ⟨k, rfl⟩ : ∃ k, fuel = k + 10 := ⟨fuel - 10, by omega⟩
    rfl
  exact ⟨by decide, haccepted, fun h => nomatch h.1.unique haccepted⟩

end StmGateway.At.Missing
