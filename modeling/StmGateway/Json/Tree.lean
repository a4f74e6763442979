import StmGateway.Json.Switch

/-!
# The token tree

Whatever the text, the tokens form a forest: the parent of a token is below it,
the first child of a token stands right behind it, and `size` counts the
children. `Change` is all that one character can do to the parser.
-/
namespace StmGateway.Json.Tree

open StmGateway.Lib StmGateway.Json.Jsmn StmGateway.Json.Switch

/-- A token that is open is a container; one that is closed is a slice of the text. -/
structure Bounded (len pos : Nat) (tok : Tok) : Prop where
  start : 0 ≤ tok.start
  reached : tok.start ≤ pos
  stop : tok.stop = -1 ∧ tok.type ≠ .string ∧ tok.type ≠ .primitive ∨
    tok.start ≤ tok.stop ∧ tok.stop ≤ len

/-- The tokens that have the token `i` as their parent. -/
def children (p : Parser) (i : Nat) : List Nat :=
  (List.range p.toknext).filter fun j => (p.tokens j).parent = i

structure Sound (len numTokens : Nat) (p : Parser) : Prop where
  count : p.count = p.toknext
  room : p.toknext ≤ numTokens
  low : -1 ≤ p.toksuper
  super : p.toksuper < p.toknext
  parent : ∀ i < p.toknext, -1 ≤ (p.tokens i).parent ∧ (p.tokens i).parent < i
  bounds : ∀ i < p.toknext, Bounded len p.pos (p.tokens i)
  first : ∀ i < p.toknext, 0 ≤ (p.tokens i).parent →
    (p.tokens ((p.tokens i).parent.toNat + 1)).parent = (p.tokens i).parent
  current : 0 ≤ p.toksuper → p.toksuper + 1 < p.toknext →
    (p.tokens (p.toksuper.toNat + 1)).parent = p.toksuper
  sizes : ∀ i < p.toknext, (p.tokens i).size = (children p i).length

/-- What one character does, before the position moves on. -/
inductive Change (len numTokens : Nat) (p : Parser) : Parser → Prop
  | stay : Change len numTokens p p
  | last : Change len numTokens p { p with toksuper := (p.toknext : Int) - 1 }
  | up : 0 ≤ p.toksuper →
      Change len numTokens p { p with toksuper := (p.tokens p.toksuper.toNat).parent }
  | close {i : Nat} : i < p.toknext →
      Change len numTokens p { p with
        tokens := Function.update p.tokens i { p.tokens i with stop := (p.pos : Int) + 1 }
        toksuper := (p.tokens i).parent }
  | add {q : Parser} {tok : Tok} : p.toknext < numTokens → Extends p q tok →
      tok.parent = p.toksuper → tok.size = 0 →
      q.toksuper = p.toksuper ∨ q.toksuper = p.toknext → Bounded len (q.pos + 1) tok →
      p.pos ≤ q.pos → Change len numTokens p q

variable {len numTokens : Nat} {p q : Parser}

theorem Bounded.mono {pos pos' : Nat} {tok : Tok} (h : Bounded len pos tok) (hle : pos ≤ pos') :
    Bounded len pos' tok :=
  ⟨h.start, by have := h.reached; omega, h.stop⟩

/-- The parser moves on to the next character. -/
theorem Sound.next (h : Sound len numTokens p) : Sound len numTokens { p with pos := p.pos + 1 } :=
  ⟨h.count, h.room, h.low, h.super, h.parent,
    fun i hi => (h.bounds i hi).mono (Nat.le_succ _), h.first, h.current, h.sizes⟩

theorem Sound.retarget (h : Sound len numTokens p) {super : Int} (hlow : -1 ≤ super)
    (hsuper : super < p.toknext)
    (hcurrent : 0 ≤ super → super + 1 < p.toknext →
      (p.tokens (super.toNat + 1)).parent = super) :
    Sound len numTokens { p with toksuper := super } :=
  ⟨h.count, h.room, hlow, hsuper, h.parent, h.bounds, h.first, hcurrent, h.sizes⟩

/-- The parent of a token may become the current one. -/
theorem Sound.toParent (h : Sound len numTokens p) {i : Nat} (hi : i < p.toknext) :
    Sound len numTokens { p with toksuper := (p.tokens i).parent } := by
  obtain ⟨hlow, hup⟩ := h.parent i hi
  exact h.retarget hlow (by omega) fun h0 _ => h.first i hi h0

/-- Closing a token changes its end alone. -/
theorem Sound.closed (h : Sound len numTokens p) (hpos : p.pos < len) {i : Nat}
    (hi : i < p.toknext) :
    Sound len numTokens { p with
      tokens := Function.update p.tokens i { p.tokens i with stop := (p.pos : Int) + 1 } } := by
  have hsame : ∀ j, ((Function.update p.tokens i { p.tokens i with stop := (p.pos : Int) + 1 }) j).parent =
      (p.tokens j).parent ∧
      ((Function.update p.tokens i { p.tokens i with stop := (p.pos : Int) + 1 }) j).size =
      (p.tokens j).size := by
    intro j
    by_cases hj : j = i
    · subst hj
      simp
    · simp [hj]
  refine ⟨h.count, h.room, h.low, h.super, fun j hj => ?_, fun j hj => ?_, fun j hj h0 => ?_,
    fun h0 hlt => ?_, fun j hj => ?_⟩
  · simp only [(hsame j).1]
    exact h.parent j hj
  · by_cases hji : j = i
    · subst hji
      obtain ⟨hstart, hreached, _⟩ := h.bounds j hj
      simp only [Function.update_self]
      exact ⟨hstart, hreached, .inr ⟨by simp only; omega, by simp only; omega⟩⟩
    · simp only [Function.update_of_ne hji]
      exact h.bounds j hj
  · simp only [(hsame j).1] at h0 ⊢
    rw [(hsame _).1]
    exact h.first j hj h0
  · rw [(hsame _).1]
    exact h.current h0 hlt
  · simp only [(hsame j).2, children, (hsame _).1]
    exact h.sizes j hj

section Add

variable {tok : Tok} (hext : Extends p q tok)
include hext

theorem extends_parent {j : Nat} (hj : j < p.toknext) :
    (q.tokens j).parent = (p.tokens j).parent := by
  rw [hext.others j hj]
  split <;> rfl

/-- The new token is a child of the current one. -/
theorem children_add (hparent : tok.parent = p.toksuper) (i : Nat) :
    children q i = children p i ++ if p.toksuper = i then [p.toknext] else [] := by
  have hold : (List.range p.toknext).filter (fun j => (q.tokens j).parent = i) = children p i := by
    refine List.filter_congr fun j hj => ?_
    rw [extends_parent hext (List.mem_range.mp hj)]
  rw [children, hext.next, List.range_succ, List.filter_append, hold, List.filter_singleton,
    hext.token, hparent]
  by_cases hi : p.toksuper = i <;> simp [hi]

theorem children_new (h : Sound len numTokens p) (hparent : tok.parent = p.toksuper) :
    children q p.toknext = [] := by
  have hsuper := h.super
  rw [children_add hext hparent, if_neg (by omega), List.append_nil, children,
    List.filter_eq_nil_iff]
  intro j hj
  have hup := (h.parent j (List.mem_range.mp hj)).2
  have hlt := List.mem_range.mp hj
  simp only [decide_eq_true_iff]
  omega

/-- Once the current token has a child, one stands right behind it. -/
theorem extends_current (h : Sound len numTokens p) (hparent : tok.parent = p.toksuper)
    (h0 : 0 ≤ p.toksuper) : (q.tokens (p.toksuper.toNat + 1)).parent = p.toksuper := by
  have hsuper := h.super
  by_cases hlast : p.toksuper + 1 = p.toknext
  · rw [show p.toksuper.toNat + 1 = p.toknext by omega, hext.token, hparent]
  · rw [extends_parent hext (by omega)]
    exact h.current h0 (by omega)

theorem Sound.add (h : Sound len numTokens p) (hroom : p.toknext < numTokens)
    (hparent : tok.parent = p.toksuper) (hsize : tok.size = 0)
    (hsuper : q.toksuper = p.toksuper ∨ q.toksuper = p.toknext)
    (hbounded : Bounded len (q.pos + 1) tok) (hpos : p.pos ≤ q.pos) :
    Sound len numTokens { q with pos := q.pos + 1 } := by
  have hlow := h.low
  have hup := h.super
  have hnext := hext.next
  refine ⟨?_, ?_, ?_, ?_, fun i hi => ?_, fun i hi => ?_, fun i hi h0 => ?_, fun h0 hlt => ?_,
    fun i hi => ?_⟩
  · rw [hext.count, h.count, hnext]
  · simp only [hnext]
    omega
  · simp only
    omega
  · simp only
    omega
  · obtain hi | rfl : i < p.toknext ∨ i = p.toknext := by simp only [hnext] at hi; omega
    · simp only [extends_parent hext hi]
      exact h.parent i hi
    · simp only [hext.token, hparent]
      exact ⟨hlow, by omega⟩
  · obtain hi | rfl : i < p.toknext ∨ i = p.toknext := by simp only [hnext] at hi; omega
    · have hmono := (h.bounds i hi).mono (show p.pos ≤ q.pos + 1 by omega)
      simp only [hext.others i hi]
      split
      · exact ⟨hmono.start, hmono.reached, hmono.stop⟩
      · exact hmono
    · simp only [hext.token]
      exact hbounded
  · obtain hi | rfl : i < p.toknext ∨ i = p.toknext := by simp only [hnext] at hi; omega
    · simp only [extends_parent hext hi] at h0 ⊢
      obtain ⟨_, hlt⟩ := h.parent i hi
      rw [extends_parent hext (by omega)]
      exact h.first i hi h0
    · simp only [hext.token, hparent] at h0 ⊢
      exact extends_current hext h hparent h0
  · simp only at h0 hlt ⊢
    rcases hsuper with hsame | hnew
    · rw [hsame] at h0 ⊢
      exact extends_current hext h hparent h0
    · omega
  · have hchildren : ∀ j, children { q with pos := q.pos + 1 } j = children q j := fun _ => rfl
    rw [hchildren]
    obtain hi | rfl : i < p.toknext ∨ i = p.toknext := by simp only [hnext] at hi; omega
    · simp only [hext.others i hi, children_add hext hparent i, List.length_append]
      by_cases hcurrent : (i : Int) = p.toksuper
      · rw [if_pos hcurrent, if_pos hcurrent.symm]
        simp only [h.sizes i hi, List.length_singleton]
      · rw [if_neg hcurrent, if_neg (Ne.symm hcurrent), h.sizes i hi]
        rfl
    · simp only [hext.token, hsize, children_new hext h hparent]
      rfl

end Add

/-- What a character does keeps the tree, and does not go back. -/
theorem Change.sound (hc : Change len numTokens p q) (h : Sound len numTokens p)
    (hpos : p.pos < len) : Sound len numTokens { q with pos := q.pos + 1 } ∧ p.pos ≤ q.pos := by
  cases hc with
  | stay => exact ⟨h.next, le_rfl⟩
  | last =>
    refine ⟨(h.retarget ?_ ?_ ?_).next, le_rfl⟩
    · have := h.super
      omega
    · omega
    · omega
  | up h0 =>
    have hsuper := h.super
    exact ⟨(h.toParent (i := p.toksuper.toNat) (by omega)).next, le_rfl⟩
  | close hi =>
    have hclosed := (h.closed hpos hi).toParent hi
    simp only [Function.update_self] at hclosed
    exact ⟨hclosed.next, le_rfl⟩
  | add hroom hext hparent hsize hsuper hbounded hle =>
    exact ⟨h.add hext hroom hparent hsize hsuper hbounded hle, hle⟩

theorem init_sound (len numTokens : Nat) (tk : Nat → Tok) :
    Sound len numTokens { jsmnInit tk with count := (jsmnInit tk).toknext } :=
  ⟨rfl, Nat.zero_le _, le_rfl, show (-1 : Int) < 0 by decide, nofun, nofun, nofun,
    fun h => absurd (show (0 : Int) ≤ -1 from h) (by decide), nofun⟩

end StmGateway.Json.Tree
