import StmGateway.Json.Kept
import StmGateway.Json.Report
import StmGateway.Json.Values

/-!
# Members of strings

The two tokens of a member whose value is a string: how the parser makes them,
and how the lookup finds them again.
-/
namespace StmGateway.Json.Members

open StmGateway.Lib StmGateway.Json.Jsmn StmGateway.Json.Switch StmGateway.Json.Tree
open StmGateway.Json.DealCmd StmGateway.Json.Safety StmGateway.Json.Escape StmGateway.Json.Kept
open StmGateway.Json.Report
open StmGateway.Json.Parse (Spans leaf Placed Filled quoted_steps leaf_placed member_filled)

section Steps

variable {js : Nat → UInt8} {len numTokens : Nat} {p q : Parser}
  {m : Entry}

/-- A member has its two tokens from `k` on. -/
structure MemberAt (js : Nat → UInt8) (len : Nat) (p : Parser) (m : Entry)
    (k : Nat) : Prop where
  name : Names js len p m.1 k
  type : (p.tokens (k + 1)).type = .string
  parent : (p.tokens (k + 1)).parent = k
  value : frameSlice js len (p.tokens (k + 1)).start (p.tokens (k + 1)).stop = some m.2

/-- The name has one value, which ends at a quote. -/
structure Quoted (js : Nat → UInt8) (p : Parser) (k : Nat) : Prop where
  size : (p.tokens k).size = 1
  quote : js (p.tokens (k + 1)).stop.toNat = 0x22

/-- The members have their tokens one after the other. -/
def Laid (js : Nat → UInt8) (len : Nat) (p : Parser) (ms : List Entry)
    (k : Nat) : Prop :=
  ∀ i m, ms[i]? = some m → MemberAt js len p m (k + 2 * i)

theorem frameSlice_stop {start stop : Int} {text : List UInt8}
    (h : frameSlice js len start stop = some text) : stop ≠ -1 := by
  rw [frameSlice] at h
  split at h
  · omega
  · cases h

theorem MemberAt.congr {k : Nat} (h : MemberAt js len p m k) (hkey : q.tokens k = p.tokens k)
    (hvalue : q.tokens (k + 1) = p.tokens (k + 1)) : MemberAt js len q m k := by
  obtain ⟨hname, htype, hparent, htext⟩ := h
  refine ⟨⟨?_, ?_, ?_⟩, ?_, ?_, ?_⟩
  · rw [hkey, hname.type]
  · rw [hkey, hname.parent]
  · rw [hkey, hname.text]
  · rw [hvalue, htype]
  · rw [hvalue, hparent]
  · rw [hvalue, htext]

theorem Quoted.congr {k : Nat} (h : Quoted js p k) (hkey : q.tokens k = p.tokens k)
    (hvalue : q.tokens (k + 1) = p.tokens (k + 1)) : Quoted js q k :=
  ⟨by rw [hkey, h.size], by rw [hvalue, h.quote]⟩

theorem Names.keeps {name : List UInt8} {k : Nat} (h : Names js len p name k) (hkeeps : Keeps p q)
    (hk : k < p.toknext) : Names js len q name k := by
  have hkey := hkeeps.tok k hk
  refine ⟨?_, ?_, ?_⟩
  · rw [hkey.type, h.type]
  · rw [hkey.parent, h.parent]
  · rw [hkey.start, hkey.stop (frameSlice_stop h.text), h.text]

theorem MemberAt.keeps {k : Nat} (h : MemberAt js len p m k) (hkeeps : Keeps p q)
    (hk : k + 1 < p.toknext) : MemberAt js len q m k := by
  obtain ⟨hname, htype, hparent, hvalue⟩ := h
  have hval := hkeeps.tok (k + 1) hk
  refine ⟨Names.keeps hname hkeeps (by omega), ?_, ?_, ?_⟩
  · rw [hval.type, htype]
  · rw [hval.parent, hparent]
  · rw [hval.start, hval.stop (frameSlice_stop hvalue), hvalue]

theorem Laid.keeps {ms : List Entry} {k : Nat} (h : Laid js len p ms k)
    (hkeeps : Keeps p q) (hroom : k + 2 * ms.length ≤ p.toknext) : Laid js len q ms k := by
  intro i m hi
  have hlt : i < ms.length := (List.getElem?_eq_some_iff.mp hi).1
  exact (h i m hi).keeps hkeeps (by omega)

/-- The name of a member with its colon. -/
theorem name_steps {name : List UInt8} (hplain : Plain name) (hnul : 0 ∉ name)
    (hread : ReadsAt js p.pos ((0x22 :: name ++ [0x22]) ++ [0x3a, 0x20]))
    (hlen : p.pos + name.length + 4 ≤ len) (hroom : p.toknext < numTokens)
    (hsuper : -1 ≤ p.toksuper) (hlt : p.toksuper < p.toknext) :
    ∃ p', Steps js len numTokens p p' ∧ p'.pos = p.pos + name.length + 4 ∧
      p'.toksuper = p.toknext ∧ Extends p p' (leaf .string (p.pos + 1) name p.toksuper) ∧
      Spans js len (p.pos + 1) name := by
  rw [readsAt_append] at hread
  obtain ⟨hquoted, hrest⟩ := hread
  obtain ⟨hcolon, hlast⟩ := readsAt_cons.mp hrest
  obtain ⟨hblank, _⟩ := readsAt_cons.mp hlast
  obtain ⟨p₁, hfirst, hpos₁, _, hext, hspans⟩ := @quoted_steps p js len numTokens name
    (scans_of_plain hplain.1 hplain.2) hnul hquoted (by omega) hroom hsuper hlt
  have hquote : (0x22 :: name ++ [0x22]).length = name.length + 2 := by
    rw [List.length_append, List.length_cons, List.length_singleton]
  rw [hquote, ← Nat.add_assoc, ← hpos₁] at hcolon hblank
  have hstep := @advance_colon js len numTokens p₁ (by omega) hcolon
  have hspace := @advance_blank js len numTokens { p₁ with
    toksuper := (p₁.toknext : Int) - 1
    pos := p₁.pos + 1 } (by simp only; omega) (.inl hblank)
  have hnext := hext.next
  refine ⟨_, (hfirst.trans hstep.steps).trans hspace.steps, ?_, ?_,
    ⟨hext.next, hext.count, hext.token, hext.others⟩, hspans⟩
  · simp only
    omega
  · simp only
    omega

/-- A member: its name becomes the parent of its value. -/
theorem member_steps (hm : Named m) (hvalue : Plain m.2)
    (hread : ReadsAt js p.pos (memberText m)) (hlen : p.pos + (memberText m).length ≤ len)
    (hroom : p.toknext + 2 ≤ numTokens) (hsuper : p.toksuper = 0) (hlt : 0 < p.toknext) :
    ∃ p', Steps js len numTokens p p' ∧ p'.pos = p.pos + (memberText m).length ∧
      p'.toksuper = p.toknext ∧ Filled 0 2 p p' ∧ MemberAt js len p' m p.toknext ∧
      Quoted js p' p.toknext := by
  rw [memberText, readsAt_append] at hread
  obtain ⟨hfirst, hsecond⟩ := hread
  have hlength : (memberText m).length = m.1.length + m.2.length + 6 := by
    simp only [memberText, List.length_append, List.length_cons, List.length_nil]
    omega
  have hfront : ((0x22 :: m.1 ++ [0x22]) ++ [0x3a, 0x20]).length = m.1.length + 4 := by
    simp only [List.length_append, List.length_cons, List.length_nil]
  rw [hfront] at hsecond
  obtain ⟨p₁, hsteps₁, hpos₁, hsuper₁, hext₁, hspans₁⟩ := @name_steps js len numTokens p m.1
    hm.name hm.nul hfirst (by omega) (by omega) (by omega) (by omega)
  have hnext₁ := hext₁.next
  rw [← Nat.add_assoc, ← hpos₁] at hsecond
  obtain ⟨p₂, hsteps₂, hpos₂, hsuper₂, hext₂, hspans₂⟩ := @quoted_steps p₁ js len numTokens m.2
    (scans_of_plain hvalue.1 hvalue.2) hm.valueNul hsecond (by omega) (by omega) (by omega)
    (by omega)
  have hplaced : Placed 1 (m.2.length + 2) p₁ p₂ := leaf_placed hext₂ (by omega) hsuper₂
  obtain ⟨hfilled, hkey, _⟩ := member_filled hext₁ hsuper₁ hplaced hsuper hlt
  have hleaf : p₂.tokens (p.toknext + 1) = leaf .string (p₁.pos + 1) m.2 p.toknext := by
    rw [← hnext₁, hext₂.token, hsuper₁]
  have hquote : js (p₁.pos + 1 + m.2.length) = 0x22 := by
    rw [List.cons_append, readsAt_cons, readsAt_append] at hsecond
    exact (readsAt_cons.mp hsecond.2.2).1
  refine ⟨p₂, hsteps₁.trans hsteps₂, by omega, by omega, hfilled, ?_⟩
  have htext : ∀ {i : Nat} {text : List UInt8} {tok : Tok}, Spans js len i text → tok.start = i →
      tok.stop = (i + text.length : Nat) → frameSlice js len tok.start tok.stop = some text :=
    fun hspans hstart hstop => Lookup.Carries.frameSlice ⟨_, hstart, hstop, hspans⟩
  refine ⟨⟨⟨?_, ?_, ?_⟩, ?_, ?_, ?_⟩, by rw [hkey], ?_⟩
  · rw [hkey, leaf]
  · rw [hkey, leaf, Nat.cast_zero]
  · exact htext hspans₁ (by rw [hkey, leaf]) (by rw [hkey, leaf])
  · rw [hleaf, leaf]
  · rw [hleaf, leaf]
  · exact htext hspans₂ (by rw [hleaf, leaf]) (by rw [hleaf, leaf])
  · rw [hleaf, leaf, Int.toNat_natCast]
    exact hquote

/-- Members with a comma behind each: the parser is back at the object. -/
theorem lines_steps {ms : List Entry} (hms : ∀ m ∈ ms, Named m ∧ Plain m.2)
    (hread : ReadsAt js p.pos (lines ms)) (hlen : p.pos + (lines ms).length ≤ len)
    (hroom : p.toknext + 2 * ms.length ≤ numTokens) (hsuper : p.toksuper = 0)
    (hlt : 0 < p.toknext) :
    ∃ p', Steps js len numTokens p p' ∧ p'.pos = p.pos + (lines ms).length ∧ p'.toksuper = 0 ∧
      Filled 0 (2 * ms.length) p p' ∧ Laid js len p' ms p.toknext ∧
      ∀ i < ms.length, Quoted js p' (p.toknext + 2 * i) := by
  induction ms generalizing p with
  | nil =>
    refine ⟨p, .refl, rfl, hsuper, ⟨rfl, rfl, fun _ _ _ => rfl, ⟨_, rfl⟩, fun j hlo hhi => ?_⟩,
      fun i m hi => ?_, fun i hi => ?_⟩
    · exact absurd hhi (Nat.not_lt.mpr hlo)
    · cases hi
    · exact absurd hi (Nat.not_lt_zero i)
  | cons m ms ih =>
    obtain ⟨⟨hm, hvalue⟩, hms⟩ := List.forall_mem_cons.mp hms
    rw [lines_cons] at hread hlen ⊢
    rw [readsAt_append, readsAt_cons] at hread
    obtain ⟨hmember, hcomma, hrest⟩ := hread
    rw [List.length_append, List.length_cons] at hlen ⊢
    rw [List.length_cons] at hroom
    obtain ⟨p₁, hsteps₁, hpos₁, hsuper₁, hfilled₁, hat, hquoted⟩ :=
      @member_steps js len numTokens p m hm hvalue hmember (by omega) (by omega) hsuper hlt
    have hnext₁ := hfilled₁.next
    have hback : comma p₁ = some { p₁ with toksuper := 0 } := by
      rw [comma, if_pos (by omega), tok_eq (by omega) (by omega), hsuper₁, Int.toNat_natCast,
        Option.bind_eq_bind, Option.bind_some, hat.name.type, hat.name.parent]
      rfl
    have hstep := @advance_comma js len numTokens p₁ _ (by omega) (by rw [hpos₁]; exact hcomma)
      hback
    obtain ⟨p₂, hsteps₂, hpos₂, hsuper₂, hfilled₂, hlaid, hquotes⟩ :=
      @ih { p₁ with toksuper := 0, pos := p₁.pos + 1 } hms
        (by simp only [hpos₁]; exact hrest) (by simp only; omega) (by simp only; omega) rfl
        (by simp only; omega)
    simp only at hpos₂ hlaid hquotes
    have hold : ∀ j, 0 < j → j < p₁.toknext → p₂.tokens j = p₁.tokens j :=
      fun j hj hlt => hfilled₂.others j hlt (by omega)
    refine ⟨p₂, (hsteps₁.trans hstep.steps).trans hsteps₂, by omega, hsuper₂, ?_, ?_, ?_⟩
    · rw [List.length_cons, show 2 * (ms.length + 1) = 2 + 2 * ms.length by omega]
      exact hfilled₁.trans ⟨hfilled₂.next, hfilled₂.count, hfilled₂.others, hfilled₂.self,
        hfilled₂.inside⟩ hlt
    · intro i m' hi
      cases i with
      | zero =>
        cases hi
        exact hat.congr (hold _ hlt (by omega)) (hold _ (by omega) (by omega))
      | succ i =>
        have hlater := hlaid i m' hi
        rwa [hnext₁, show p.toknext + 2 + 2 * i = p.toknext + 2 * (i + 1) by omega] at hlater
    · intro i hi
      cases i with
      | zero =>
        rw [Nat.mul_zero, Nat.add_zero]
        exact hquoted.congr (hold _ hlt (by omega)) (hold _ (by omega) (by omega))
      | succ i =>
        have hlater := hquotes i (by rw [List.length_cons] at hi; omega)
        rwa [hnext₁, show p.toknext + 2 + 2 * i = p.toknext + 2 * (i + 1) by omega] at hlater

/-- The members of an object. -/
theorem members_steps {before : List Entry}
    (hbefore : ∀ b ∈ before, Named b ∧ Plain b.2) (hm : Named m) (hvalue : Plain m.2)
    (hread : ReadsAt js p.pos (lines before ++ memberText m))
    (hlen : p.pos + (lines before ++ memberText m).length ≤ len)
    (hroom : p.toknext + (2 * before.length + 2) ≤ numTokens) (hsuper : p.toksuper = 0)
    (hlt : 0 < p.toknext) :
    ∃ p', Steps js len numTokens p p' ∧ p'.pos = p.pos + (lines before ++ memberText m).length ∧
      Filled 0 (2 * before.length + 2) p p' ∧ Laid js len p' (before ++ [m]) p.toknext ∧
      ∀ i < before.length + 1, Quoted js p' (p.toknext + 2 * i) := by
  rw [readsAt_append] at hread
  rw [List.length_append] at hlen ⊢
  obtain ⟨p₁, hsteps₁, hpos₁, hsuper₁, hfilled₁, hlaid₁, hquotes₁⟩ :=
    @lines_steps js len numTokens p before hbefore hread.1 (by omega) (by omega) hsuper hlt
  have hnext₁ := hfilled₁.next
  obtain ⟨p₂, hsteps₂, hpos₂, _, hfilled₂, hat, hquoted⟩ := @member_steps js len numTokens p₁ m hm
    hvalue (by rw [hpos₁]; exact hread.2) (by omega) (by omega) hsuper₁ (by omega)
  have hold : ∀ j, 0 < j → j < p₁.toknext → p₂.tokens j = p₁.tokens j :=
    fun j hj hlt => hfilled₂.others j hlt (by omega)
  rw [hnext₁] at hat hquoted
  refine ⟨p₂, hsteps₁.trans hsteps₂, by omega, hfilled₁.trans hfilled₂ hlt, fun i m' hi => ?_,
    fun i hi => ?_⟩
  · by_cases hlast : i < before.length
    · rw [List.getElem?_append_left hlast] at hi
      exact (hlaid₁ i m' hi).congr (hold _ (by omega) (by omega)) (hold _ (by omega) (by omega))
    · obtain ⟨hle, _⟩ := List.getElem?_eq_some_iff.mp hi
      rw [List.length_append, List.length_singleton] at hle
      obtain rfl : i = before.length := by omega
      rw [List.getElem?_concat_length] at hi
      cases hi
      exact hat
  · by_cases hlast : i < before.length
    · exact (hquotes₁ i hlast).congr (hold _ (by omega) (by omega)) (hold _ (by omega) (by omega))
    · obtain rfl : i = before.length := by omega
      exact hquoted

end Steps

/-! ## The lookups -/

section Lookups

variable {js js' : Nat → UInt8} {len : Nat} {p : Parser} {name text : List UInt8} {k : Nat}

theorem frameSlice_inv {start stop : Int} (h : frameSlice js len start stop = some text) :
    ∃ i : Nat, start = i ∧ stop = (i + text.length : Nat) ∧ i + text.length ≤ len ∧
      ReadsAt js i text := by
  rw [frameSlice] at h
  split at h
  · next hin =>
    cases h
    refine ⟨start.toNat, by omega, ?_, ?_, readsAt_slice js _ _⟩
    · rw [slice_length]
      omega
    · rw [slice_length]
      omega
  · cases h

/-- No token before it is the name of a member. -/
theorem firstName_of_laid {before : List Entry} (hlaid : Laid js len p before 1)
    (hname : Names js len p name (1 + 2 * before.length)) (hother : ∀ b ∈ before, b.1 ≠ name) :
    FirstName js len p name 1 (1 + 2 * before.length) := by
  refine ⟨by omega, hname, fun j hlo hj hnames => ?_⟩
  obtain ⟨i, hi⟩ : ∃ i, j = 1 + 2 * i ∨ j = 1 + 2 * i + 1 := ⟨(j - 1) / 2, by omega⟩
  have hlt : i < before.length := by omega
  have hat := hlaid i _ (List.getElem?_eq_getElem hlt)
  rcases hi with rfl | rfl
  · have heq := Option.some.inj (hat.name.text.symm.trans hnames.text)
    exact hother _ (List.getElem_mem hlt) heq
  · have hparent := hat.parent.symm.trans hnames.parent
    omega

/-- The text of a string, terminated where its closing quote was. -/
theorem jsmnGetString_string {item : Item} {tok : Tok} (htok : p.tok item.t = some tok)
    (htype : tok.type = .string) (htext : frameSlice js len tok.start tok.stop = some text)
    (hnul : 0 ∉ text) :
    ∃ start, jsmnGetString len p js item =
        some (some start, Function.update js tok.stop.toNat 0) ∧
      cString (Function.update js tok.stop.toNat 0) (len + 1 - start) start = text := by
  obtain ⟨i, hstart, hstop, hin, hread⟩ := frameSlice_inv htext
  refine ⟨tok.start.toNat, ?_, ?_⟩
  · rw [jsmnGetString, htok, Option.bind_eq_bind, Option.bind_some,
      if_neg fun h => h.1 htype, if_pos ⟨by omega, by omega, by omega⟩]
  · rw [hstart, hstop, Int.toNat_natCast, Int.toNat_natCast]
    apply cString_eq text _ _ hnul (by omega)
    · intro j hj
      rw [hread j hj, Function.update_of_ne (by omega)]
    · exact Function.update_self _ _ _

/-- The lookup of a name with a string behind it. -/
theorem lookUp_value (h : Sound len 256 p) (hroot : (p.tokens 0).type = .object)
    (hk : k + 1 < p.toknext) (hfirst : FirstName js len p name 1 k)
    (htype : (p.tokens (k + 1)).type = .string)
    (hvalue : frameSlice js len (p.tokens (k + 1)).start (p.tokens (k + 1)).stop = some text)
    (hnul : 0 ∉ text) :
    lookUp len p p.toknext name js = some (if (p.tokens k).size = 1 then
      (some text, Function.update js (p.tokens (k + 1)).stop.toNat 0) else (none, js)) := by
  have htok : p.tok (Lookup.itemAt p.toknext k).t = some (p.tokens k) :=
    tok_eq (by simp [Lookup.itemAt]) (by simp only [Lookup.itemAt]; omega)
  rw [lookUp, Values.jsmnGetObjectItem_first h hroot (by omega) hfirst, Option.bind_eq_bind,
    Option.bind_some]
  simp only [jsmnGetValueString, htok, Option.bind_eq_bind, Option.bind_some]
  by_cases hsize : (p.tokens k).size = 1
  · have hnext : p.tok ((k : Int) + 1) = some (p.tokens (k + 1)) := tok_eq (by omega) (by omega)
    obtain ⟨start, hget, hstring⟩ := @jsmnGetString_string js len p text
      ⟨(Lookup.itemAt p.toknext k).t + 1, (Lookup.itemAt p.toknext k).index + 1,
        (Lookup.itemAt p.toknext k).leftNum - 1⟩ _ hnext htype hvalue hnul
    have hleft : ¬ (Lookup.itemAt p.toknext k).leftNum ≤ 0 := by
      simp only [Lookup.itemAt]
      omega
    rw [if_neg (by simp [hfirst.names.type, hsize, hleft]), if_pos hsize, hget, Option.bind_some,
      Option.map_some, hstring]
    rfl
  · rw [if_pos (.inr (.inl hsize)), if_neg hsize]
    rfl

end Lookups

end StmGateway.Json.Members
