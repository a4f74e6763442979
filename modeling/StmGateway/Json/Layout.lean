import StmGateway.Json.Parse

/-!
# The tokens of every part of a JSON text

A value at token `k` has its tokens from `k` on, its parts one behind the other,
each under the token it belongs to.
-/
namespace StmGateway.Json.Layout

open StmGateway.Lib StmGateway.Json.Jsmn StmGateway.Json.Grammar StmGateway.Json.Switch
open StmGateway.Json.Parse

/-- The token of a member name of the object `n`, with the value behind it. -/
structure ShowsKey (js : Nat → UInt8) (len : Nat) (tokens : Nat → Tok) (n : Nat) (key : Key)
    (m : Nat) : Prop where
  type : (tokens m).type = .string
  name : Carries js len (tokens m) (raw key.name)
  size : (tokens m).size = 1
  parent : (tokens m).parent = n
  value : (tokens (m + 1)).parent = m

section Shows

variable (js : Nat → UInt8) (len : Nat) (tokens : Nat → Tok)

mutual

/-- The tokens from `k` on are those of the value. -/
def Shows : Value → Nat → Prop
  | .string text, k => (tokens k).type = .string ∧ Carries js len (tokens k) (raw text)
  | .primitive prim, k => (tokens k).type = .primitive ∧ Carries js len (tokens k) prim.text
  | .emptyArray _, k => (tokens k).type = .array
  | .array es, k => (tokens k).type = .array ∧ ShowsElements k es (k + 1)
  | .emptyObject _, k => (tokens k).type = .object
  | .object ms, k => (tokens k).type = .object ∧ ShowsMembers k ms (k + 1)

/-- The tokens from `m` on are those of the elements of the array `n`. -/
def ShowsElements (n : Nat) : Elements → Nat → Prop
  | .one _ v _, m => (tokens m).parent = n ∧ Shows v m
  | .cons _ v _ rest, m =>
    (tokens m).parent = n ∧ Shows v m ∧ ShowsElements n rest (m + v.size)

/-- The tokens from `m` on are those of the members of the object `n`. -/
def ShowsMembers (n : Nat) : Members → Nat → Prop
  | .one key v _, m => ShowsKey js len tokens n key m ∧ Shows v (m + 1)
  | .cons key v _ rest, m =>
    ShowsKey js len tokens n key m ∧ Shows v (m + 1) ∧ ShowsMembers n rest (m + 1 + v.size)

end

end Shows

variable {js : Nat → UInt8} {len numTokens : Nat} {p p' : Parser} {n : Nat}
variable {tokens tokens' : Nat → Tok}

theorem ShowsKey.congr {key : Key} {m : Nat} (h : ShowsKey js len tokens n key m)
    (hname : tokens' m = tokens m) (hvalue : tokens' (m + 1) = tokens (m + 1)) :
    ShowsKey js len tokens' n key m := by
  refine ⟨?_, ?_, ?_, ?_, ?_⟩
  · rw [hname]
    exact h.type
  · rw [hname]
    exact h.name
  · rw [hname]
    exact h.size
  · rw [hname]
    exact h.parent
  · rw [hvalue]
    exact h.value

mutual

theorem shows_congr : ∀ (v : Value) (k : Nat),
    (∀ j, k ≤ j → j < k + v.size → tokens' j = tokens j) → Shows js len tokens v k →
      Shows js len tokens' v k
  | .string _, k, heq, h => by
    rw [Shows, heq k le_rfl (by simp [Value.size])]
    exact h
  | .primitive _, k, heq, h => by
    rw [Shows, heq k le_rfl (by simp [Value.size])]
    exact h
  | .emptyArray _, k, heq, h => by
    rw [Shows, heq k le_rfl (by simp [Value.size])]
    exact h
  | .array es, k, heq, h => by
    simp only [Value.size] at heq
    rw [Shows, heq k le_rfl (by omega)]
    exact ⟨h.1, showsElements_congr es k _ (fun j hlo hhi => heq j (by omega) (by omega)) h.2⟩
  | .emptyObject _, k, heq, h => by
    rw [Shows, heq k le_rfl (by simp [Value.size])]
    exact h
  | .object ms, k, heq, h => by
    simp only [Value.size] at heq
    rw [Shows, heq k le_rfl (by omega)]
    exact ⟨h.1, showsMembers_congr ms k _ (fun j hlo hhi => heq j (by omega) (by omega)) h.2⟩

theorem showsElements_congr : ∀ (es : Elements) (n m : Nat),
    (∀ j, m ≤ j → j < m + es.size → tokens' j = tokens j) → ShowsElements js len tokens n es m →
      ShowsElements js len tokens' n es m
  | .one _ v _, n, m, heq, h => by
    have hpos := value_size_pos v
    simp only [Elements.size] at heq
    rw [ShowsElements, heq m le_rfl (by omega)]
    exact ⟨h.1, shows_congr v m heq h.2⟩
  | .cons _ v _ rest, n, m, heq, h => by
    have hpos := value_size_pos v
    simp only [Elements.size] at heq
    rw [ShowsElements, heq m le_rfl (by omega)]
    exact ⟨h.1, shows_congr v m (fun j hlo hhi => heq j hlo (by omega)) h.2.1,
      showsElements_congr rest n _ (fun j hlo hhi => heq j (by omega) (by omega)) h.2.2⟩

theorem showsMembers_congr : ∀ (ms : Members) (n m : Nat),
    (∀ j, m ≤ j → j < m + ms.size → tokens' j = tokens j) → ShowsMembers js len tokens n ms m →
      ShowsMembers js len tokens' n ms m
  | .one key v _, n, m, heq, h => by
    have hpos := value_size_pos v
    simp only [Members.size] at heq
    rw [ShowsMembers]
    exact ⟨h.1.congr (heq m le_rfl (by omega)) (heq (m + 1) (by omega) (by omega)),
      shows_congr v _ (fun j hlo hhi => heq j (by omega) (by omega)) h.2⟩
  | .cons key v _ rest, n, m, heq, h => by
    have hpos := value_size_pos v
    simp only [Members.size] at heq
    rw [ShowsMembers]
    exact ⟨h.1.congr (heq m le_rfl (by omega)) (heq (m + 1) (by omega) (by omega)),
      shows_congr v _ (fun j hlo hhi => heq j (by omega) (by omega)) h.2.1,
      showsMembers_congr rest n _ (fun j hlo hhi => heq j (by omega) (by omega)) h.2.2⟩

end

mutual

/-- The tokens of a value are all below its first one. -/
theorem shows_inside : ∀ (v : Value) (k : Nat), Shows js len tokens v k →
    ∀ j, k < j → j < k + v.size → (k : Int) ≤ (tokens j).parent
  | .string _, k, _, j, hlo, hhi => by
    simp only [Value.size] at hhi
    omega
  | .primitive _, k, _, j, hlo, hhi => by
    simp only [Value.size] at hhi
    omega
  | .emptyArray _, k, _, j, hlo, hhi => by
    simp only [Value.size] at hhi
    omega
  | .array es, k, h, j, hlo, hhi => by
    simp only [Value.size] at hhi
    rcases showsElements_inside es k _ h.2 j hlo (by omega) with hown | hlow <;> omega
  | .emptyObject _, k, _, j, hlo, hhi => by
    simp only [Value.size] at hhi
    omega
  | .object ms, k, h, j, hlo, hhi => by
    simp only [Value.size] at hhi
    rcases showsMembers_inside ms k _ h.2 j hlo (by omega) with hown | hlow <;> omega

/-- The tokens of elements are children of the array, or below one of them. -/
theorem showsElements_inside : ∀ (es : Elements) (n m : Nat), ShowsElements js len tokens n es m →
    ∀ j, m ≤ j → j < m + es.size → (tokens j).parent = n ∨ (m : Int) ≤ (tokens j).parent
  | .one _ v _, n, m, h, j, hlo, hhi => by
    simp only [Elements.size] at hhi
    obtain rfl | hlt := Nat.eq_or_lt_of_le hlo
    · exact .inl h.1
    · exact .inr (shows_inside v m h.2 j hlt hhi)
  | .cons _ v _ rest, n, m, h, j, hlo, hhi => by
    simp only [Elements.size] at hhi
    obtain rfl | hlt := Nat.eq_or_lt_of_le hlo
    · exact .inl h.1
    · by_cases hfirst : j < m + v.size
      · exact .inr (shows_inside v m h.2.1 j hlt hfirst)
      · exact (showsElements_inside rest n _ h.2.2 j (by omega) (by omega)).imp_right fun hle => by
          omega

theorem showsMembers_inside : ∀ (ms : Members) (n m : Nat), ShowsMembers js len tokens n ms m →
    ∀ j, m ≤ j → j < m + ms.size → (tokens j).parent = n ∨ (m : Int) ≤ (tokens j).parent
  | .one _ v _, n, m, h, j, hlo, hhi => by
    simp only [Members.size] at hhi
    obtain rfl | hlt := Nat.eq_or_lt_of_le hlo
    · exact .inl h.1.parent
    · obtain rfl | hlt' := Nat.eq_or_lt_of_le hlt
      · exact .inr (by rw [h.1.value])
      · exact .inr (by have := shows_inside v _ h.2 j hlt' (by omega); omega)
  | .cons _ v _ rest, n, m, h, j, hlo, hhi => by
    simp only [Members.size] at hhi
    obtain rfl | hlt := Nat.eq_or_lt_of_le hlo
    · exact .inl h.1.parent
    · obtain rfl | hlt' := Nat.eq_or_lt_of_le hlt
      · exact .inr (by rw [h.1.value])
      · by_cases hfirst : j < m + 1 + v.size
        · exact .inr (by have := shows_inside v _ h.2.1 j hlt' hfirst; omega)
        · exact (showsMembers_inside rest n _ h.2.2 j (by omega) (by omega)).imp_right fun hle => by
            omega

end

/-- From any place with room for it the parser passes over the value, and leaves its tokens. -/
def Decodes (js : Nat → UInt8) (len numTokens : Nat) (v : Value) : Prop :=
  ∀ p : Parser, ReadsAt js p.pos v.bytes → p.pos + v.bytes.length < len →
    endsPrimitive (js (p.pos + v.bytes.length)) = true → p.toknext + v.size ≤ numTokens →
    -1 ≤ p.toksuper → p.toksuper < p.toknext →
    ∃ p', Steps js len numTokens p p' ∧ Placed v.size v.bytes.length p p' ∧
      Shows js len p'.tokens v p.toknext

/-- And over the elements of the open array `n`. -/
def DecodesElements (js : Nat → UInt8) (len numTokens : Nat) (es : Elements) : Prop :=
  ∀ (p : Parser) (n : Nat), p.toksuper = n → n < p.toknext → (p.tokens n).type = .array →
    ReadsAt js p.pos es.bytes → p.pos + es.bytes.length < len →
    js (p.pos + es.bytes.length) = 0x5d → p.toknext + es.size ≤ numTokens →
    ∃ p', Steps js len numTokens p p' ∧ p'.pos = p.pos + es.bytes.length ∧
      Filled n es.size p p' ∧ ShowsElements js len p'.tokens n es p.toknext

/-- And over the members of the open object `n`. -/
def DecodesMembers (js : Nat → UInt8) (len numTokens : Nat) (ms : Members) : Prop :=
  ∀ (p : Parser) (n : Nat), p.toksuper = n → n < p.toknext →
    ReadsAt js p.pos ms.bytes → p.pos + ms.bytes.length < len →
    js (p.pos + ms.bytes.length) = 0x7d → p.toknext + ms.size ≤ numTokens →
    ∃ p', Steps js len numTokens p p' ∧ p'.pos = p.pos + ms.bytes.length ∧
      Filled n ms.size p p' ∧ ShowsMembers js len p'.tokens n ms p.toknext

theorem decodes_string (text : List Piece) : Decodes js len numTokens (.string text) := by
  intro p hread hlen _ hroom hsuper hlt
  obtain ⟨p', i, hsteps, hpos, hsuper', hext, hraw⟩ :=
    @string_steps p js len numTokens text hread (Nat.le_of_lt hlen) hroom hsuper hlt
  refine ⟨p', hsteps, leaf_placed hext hpos hsuper', ?_⟩
  rw [Shows, hext.token]
  exact ⟨rfl, i, rfl, rfl, hraw⟩

theorem decodes_primitive (prim : Primitive) : Decodes js len numTokens (.primitive prim) := by
  intro p hread hlen hend hroom hsuper hlt
  obtain ⟨p', hsteps, hpos, hsuper', hext⟩ :=
    @primitive_steps p js len numTokens prim hread hlen hend hroom hsuper hlt
  refine ⟨p', hsteps, leaf_placed hext hpos hsuper', ?_⟩
  rw [Shows, hext.token]
  exact ⟨rfl, p.pos, rfl, rfl, hread, Nat.le_of_lt hlen⟩

/-- A container with nothing but white space in it. -/
theorem empty_decodes {type : TokType} {o c : UInt8} {space : Space}
    (hbrackets : (o = 0x7b ∧ c = 0x7d ∧ type = .object) ∨ (o = 0x5b ∧ c = 0x5d ∧ type = .array))
    (hread : ReadsAt js p.pos (o :: space.text ++ [c]))
    (hlen : p.pos + (o :: space.text ++ [c]).length ≤ len) (hroom : p.toknext < numTokens)
    (hsuper : -1 ≤ p.toksuper) (hlt : p.toksuper < p.toknext) :
    ∃ p', Steps js len numTokens p p' ∧ Placed 1 (o :: space.text ++ [c]).length p p' ∧
      (p'.tokens p.toknext).type = type := by
  have hparts := hread
  rw [List.cons_append, readsAt_cons, readsAt_append] at hparts
  obtain ⟨_, hspace, _⟩ := hparts
  have hin : p.pos + 1 + space.text.length ≤ len := by
    simp only [List.cons_append, List.length_cons, List.length_append, List.length_nil] at hlen
    omega
  obtain ⟨p', hsteps, hplaced, htype, _⟩ := @bracket_steps p 0 js len numTokens type o c space.text
    hbrackets (fun _ => True) (fun _ _ _ => id) (fun p₁ hpos _ _ _ => by
      refine ⟨_, space_steps space.blank (by rw [hpos]; exact hspace) (by rw [hpos]; exact hin),
        by simp only [hpos], ⟨rfl, rfl, fun _ _ _ => rfl, ⟨(p₁.tokens p.toknext).size, rfl⟩,
          fun _ hlo hhi => absurd hhi (Nat.not_lt.mpr hlo)⟩, trivial⟩)
    hread hlen hroom hsuper hlt
  exact ⟨p', hsteps, hplaced, htype⟩

/-- An element of an array with the white space around it. -/
theorem element_decodes {v : Value} (hv : Decodes js len numTokens v) {before after : Space}
    (hsuper : p.toksuper = n) (hn : n < p.toknext)
    (hread : ReadsAt js p.pos (before.text ++ v.bytes ++ after.text))
    (hlen : p.pos + (before.text ++ v.bytes ++ after.text).length < len)
    (hend : endsPrimitive (js (p.pos + (before.text ++ v.bytes ++ after.text).length)) = true)
    (hroom : p.toknext + v.size ≤ numTokens) :
    ∃ p', Steps js len numTokens p p' ∧
      p'.pos = p.pos + (before.text ++ v.bytes ++ after.text).length ∧ p'.toksuper = n ∧
      Filled n v.size p p' ∧ (p'.tokens p.toknext).parent = n ∧
      Shows js len p'.tokens v p.toknext := by
  rw [readsAt_append, readsAt_append] at hread
  obtain ⟨⟨hbefore, hvalue⟩, hafter⟩ := hread
  simp only [List.length_append] at hlen hend hafter ⊢
  have hfirst := @space_steps js len numTokens p _ before.blank hbefore (by omega)
  obtain ⟨p₂, hsteps, hplaced, hshows⟩ := hv { p with pos := p.pos + before.text.length } hvalue
    (by simp only; omega)
    (ends_space (by rwa [← Nat.add_assoc] at hafter)
      (by simpa only [Nat.add_assoc] using hend))
    hroom (by simp only; omega) (by simp only; omega)
  have hpos := hplaced.pos
  simp only at hpos
  have hlast := @space_steps js len numTokens p₂ _ after.blank
    (by rw [hpos, Nat.add_assoc]; exact hafter) (by omega)
  have hfilled := hplaced.filled hsuper hn
  refine ⟨_, (hfirst.trans hsteps).trans hlast, ?_, hplaced.super.trans hsuper,
    ⟨hfilled.next, hfilled.count, hfilled.others, hfilled.self, hfilled.inside⟩,
    hplaced.parent.trans hsuper, hshows⟩
  simp only
  omega

theorem decodesElements_one {v : Value} (hv : Decodes js len numTokens v) (before after : Space) :
    DecodesElements js len numTokens (.one before v after) := by
  intro p n hsuper hn _ hread hlen hend hroom
  simp only [Elements.bytes, Elements.size] at hread hlen hend hroom ⊢
  obtain ⟨p₁, hsteps, hpos₁, _, hfilled, hparent, hshows⟩ := @element_decodes js len numTokens p n v
    hv before after hsuper hn hread hlen (by rw [hend]; rfl) hroom
  exact ⟨p₁, hsteps, hpos₁, hfilled, hparent, hshows⟩

/-- The elements behind one leave its tokens as they are. -/
theorem decodesElements_cons {v : Value} (hv : Decodes js len numTokens v) {rest : Elements}
    (hrest : DecodesElements js len numTokens rest) (before after : Space) :
    DecodesElements js len numTokens (.cons before v after rest) := by
  intro p n hsuper hn htype hread hlen hend hroom
  simp only [Elements.bytes, Elements.size] at hread hlen hend hroom ⊢
  rw [readsAt_append, readsAt_cons] at hread
  obtain ⟨helement, hcomma, htail⟩ := hread
  rw [List.length_append, List.length_cons] at hlen hend ⊢
  obtain ⟨p₁, hfirst, hpos₁, hsuper₁, hfilled₁, hparent, hshows⟩ := @element_decodes js len numTokens
    p n v hv before after hsuper hn helement (by omega) (by rw [hcomma]; rfl) (by omega)
  have hnext₁ := hfilled₁.next
  have hsize := value_size_pos v
  obtain ⟨_, hself⟩ := hfilled₁.self
  have hsame : comma p₁ = some p₁ := by
    rw [comma, if_pos (by omega), tok_eq (by omega) (by omega), hsuper₁, Int.toNat_natCast,
      Option.bind_eq_bind, Option.bind_some, hself, htype]
    rfl
  have hstep := @advance_comma js len numTokens p₁ p₁ (by omega) (by rw [hpos₁]; exact hcomma) hsame
  obtain ⟨p₃, hsteps, hpos₃, hfilled₃, hshows₃⟩ := hrest { p₁ with pos := p₁.pos + 1 } n hsuper₁
    (by simp only; omega) (by simp only [hself, htype]) (by simp only [hpos₁]; exact htail)
    (by simp only; omega)
    (by simp only [hpos₁]; rw [← hend]; congr 1; omega) (by simp only; omega)
  simp only at hpos₃ hshows₃
  have hothers : ∀ j, p.toknext ≤ j → j < p.toknext + v.size → p₃.tokens j = p₁.tokens j :=
    fun j hlo hhi => hfilled₃.others j (by simp only; omega) (by omega)
  refine ⟨p₃, (hfirst.trans hstep.steps).trans hsteps, by omega,
    hfilled₁.trans ⟨hfilled₃.next, hfilled₃.count, hfilled₃.others, hfilled₃.self,
      hfilled₃.inside⟩ hn, ?_, shows_congr v _ hothers hshows, ?_⟩
  · rw [hothers _ le_rfl (by omega)]
    exact hparent
  · rw [← hnext₁]
    exact hshows₃

/-- A member of an object with the white space around it. -/
theorem member_decodes {key : Key} {v : Value} (hv : Decodes js len numTokens v) {after : Space}
    (hsuper : p.toksuper = n) (hn : n < p.toknext)
    (hread : ReadsAt js p.pos (key.bytes ++ v.bytes ++ after.text))
    (hlen : p.pos + (key.bytes ++ v.bytes ++ after.text).length < len)
    (hend : endsPrimitive (js (p.pos + (key.bytes ++ v.bytes ++ after.text).length)) = true)
    (hroom : p.toknext + (1 + v.size) ≤ numTokens) :
    ∃ p', Steps js len numTokens p p' ∧
      p'.pos = p.pos + (key.bytes ++ v.bytes ++ after.text).length ∧ p'.toksuper = p.toknext ∧
      Filled n (1 + v.size) p p' ∧ ShowsKey js len p'.tokens n key p.toknext ∧
      Shows js len p'.tokens v (p.toknext + 1) := by
  rw [readsAt_append, readsAt_append] at hread
  obtain ⟨⟨hkey, hvalue⟩, hafter⟩ := hread
  simp only [List.length_append] at hlen hend hafter ⊢
  obtain ⟨p₁, i, hfirst, hpos₁, hsuper₁, hext, hraw⟩ :=
    @key_steps p js len numTokens key hkey (by omega) (by omega) (by omega) (by omega)
  have hnext₁ := hext.next
  obtain ⟨p₂, hsteps, hplaced, hshows⟩ := hv p₁ (by rw [hpos₁]; exact hvalue) (by omega)
    (ends_space (by rw [hpos₁, Nat.add_assoc]; exact hafter)
      (by rw [hpos₁]; simpa only [Nat.add_assoc] using hend))
    (by omega) (by omega) (by omega)
  have hpos := hplaced.pos
  have hparent := hplaced.parent
  rw [hnext₁] at hparent hshows
  have hlast := @space_steps js len numTokens p₂ _ after.blank
    (by rw [hpos, hpos₁, Nat.add_assoc]; exact hafter) (by omega)
  obtain ⟨hfilled, hname, _⟩ := member_filled hext hsuper₁ hplaced hsuper hn
  refine ⟨_, (hfirst.trans hsteps).trans hlast, ?_, hplaced.super.trans hsuper₁,
    ⟨hfilled.next, hfilled.count, hfilled.others, hfilled.self, hfilled.inside⟩, ?_, hshows⟩
  · simp only
    omega
  · refine ⟨?_, ⟨i, ?_, ?_, hraw⟩, ?_, ?_, hparent.trans hsuper₁⟩
    all_goals simp only [hname, leaf]

theorem decodesMembers_one {key : Key} {v : Value} (hv : Decodes js len numTokens v)
    (after : Space) : DecodesMembers js len numTokens (.one key v after) := by
  intro p n hsuper hn hread hlen hend hroom
  simp only [Members.bytes, Members.size] at hread hlen hend hroom ⊢
  obtain ⟨p₁, hsteps, hpos₁, _, hfilled, hkey, hshows⟩ := @member_decodes js len numTokens p n key v
    hv after hsuper hn hread hlen (by rw [hend]; rfl) hroom
  exact ⟨p₁, hsteps, hpos₁, hfilled, hkey, hshows⟩

theorem decodesMembers_cons {key : Key} {v : Value} (hv : Decodes js len numTokens v)
    {rest : Members} (hrest : DecodesMembers js len numTokens rest) (after : Space) :
    DecodesMembers js len numTokens (.cons key v after rest) := by
  intro p n hsuper hn hread hlen hend hroom
  simp only [Members.bytes, Members.size] at hread hlen hend hroom ⊢
  rw [readsAt_append, readsAt_cons] at hread
  obtain ⟨hmember, hcomma, htail⟩ := hread
  rw [List.length_append, List.length_cons] at hlen hend ⊢
  obtain ⟨p₁, hfirst, hpos₁, hsuper₁, hfilled₁, hkey, hshows⟩ := @member_decodes js len numTokens p n
    key v hv after hsuper hn hmember (by omega) (by rw [hcomma]; rfl) (by omega)
  have hnext₁ := hfilled₁.next
  have hsize := value_size_pos v
  have hback : comma p₁ = some { p₁ with toksuper := n } := by
    rw [comma, if_pos (by omega), tok_eq (by omega) (by omega), hsuper₁, Int.toNat_natCast,
      Option.bind_eq_bind, Option.bind_some, hkey.type, hkey.parent]
    rfl
  have hstep := @advance_comma js len numTokens p₁ _ (by omega) (by rw [hpos₁]; exact hcomma) hback
  obtain ⟨p₃, hsteps, hpos₃, hfilled₃, hshows₃⟩ := hrest
    { p₁ with toksuper := n, pos := p₁.pos + 1 } n rfl (by simp only; omega)
    (by simp only [hpos₁]; exact htail) (by simp only; omega)
    (by simp only [hpos₁]; rw [← hend]; congr 1; omega) (by simp only; omega)
  simp only at hpos₃ hshows₃
  have hothers : ∀ j, p.toknext ≤ j → j < p.toknext + 1 + v.size → p₃.tokens j = p₁.tokens j :=
    fun j hlo hhi => hfilled₃.others j (by simp only; omega) (by omega)
  refine ⟨p₃, (hfirst.trans hstep.steps).trans hsteps, by omega,
    hfilled₁.trans ⟨hfilled₃.next, hfilled₃.count, hfilled₃.others, hfilled₃.self,
      hfilled₃.inside⟩ hn,
    hkey.congr (hothers _ le_rfl (by omega)) (hothers _ (by omega) (by omega)),
    shows_congr v _ (fun j hlo hhi => hothers j (by omega) hhi) hshows, ?_⟩
  rw [show p.toknext + 1 + v.size = p₁.toknext by omega]
  exact hshows₃

/-- An array with elements, up to its bracket. -/
theorem array_decodes {es : Elements} (hes : DecodesElements js len numTokens es)
    (hread : ReadsAt js p.pos (Value.array es).bytes)
    (hlen : p.pos + (Value.array es).bytes.length ≤ len)
    (hroom : p.toknext + (Value.array es).size ≤ numTokens) (hsuper : -1 ≤ p.toksuper)
    (hlt : p.toksuper < p.toknext) :
    ∃ p', Steps js len numTokens p p' ∧
      Placed (Value.array es).size (Value.array es).bytes.length p p' ∧
      Shows js len p'.tokens (.array es) p.toknext := by
  simp only [Value.bytes, Value.size, Shows] at hread hlen hroom ⊢
  have hparts := hread
  rw [List.cons_append, readsAt_cons, readsAt_append, readsAt_cons] at hparts
  obtain ⟨_, helements, hclose, _⟩ := hparts
  have hin := hlen
  simp only [List.cons_append, List.length_cons, List.length_append, List.length_nil] at hin
  apply bracket_steps (.inr ⟨rfl, rfl, rfl⟩)
    (fun tokens => ShowsElements js len tokens p.toknext es (p.toknext + 1))
    (fun tokens tokens' heq => showsElements_congr es _ _ fun j hlo _ => heq j (by omega)) ?_ hread
    hlen (by omega) hsuper hlt
  intro p₁ hpos hsup hnext htype
  obtain ⟨p₂, hsteps, hpos₂, hfilled, hshows⟩ := hes p₁ p.toknext hsup (by omega) htype
    (by rw [hpos]; exact helements) (by omega) (by rw [hpos]; exact hclose) (by omega)
  refine ⟨p₂, hsteps, by omega, hfilled, ?_⟩
  rw [← hnext]
  exact hshows

theorem object_decodes {ms : Members} (hms : DecodesMembers js len numTokens ms)
    (hread : ReadsAt js p.pos (Value.object ms).bytes)
    (hlen : p.pos + (Value.object ms).bytes.length ≤ len)
    (hroom : p.toknext + (Value.object ms).size ≤ numTokens) (hsuper : -1 ≤ p.toksuper)
    (hlt : p.toksuper < p.toknext) :
    ∃ p', Steps js len numTokens p p' ∧
      Placed (Value.object ms).size (Value.object ms).bytes.length p p' ∧
      Shows js len p'.tokens (.object ms) p.toknext := by
  simp only [Value.bytes, Value.size, Shows] at hread hlen hroom ⊢
  have hparts := hread
  rw [List.cons_append, readsAt_cons, readsAt_append, readsAt_cons] at hparts
  obtain ⟨_, hmembers, hclose, _⟩ := hparts
  have hin := hlen
  simp only [List.cons_append, List.length_cons, List.length_append, List.length_nil] at hin
  apply bracket_steps (.inl ⟨rfl, rfl, rfl⟩)
    (fun tokens => ShowsMembers js len tokens p.toknext ms (p.toknext + 1))
    (fun tokens tokens' heq => showsMembers_congr ms _ _ fun j hlo _ => heq j (by omega)) ?_ hread
    hlen (by omega) hsuper hlt
  intro p₁ hpos hsup hnext _
  obtain ⟨p₂, hsteps, hpos₂, hfilled, hshows⟩ := hms p₁ p.toknext hsup (by omega)
    (by rw [hpos]; exact hmembers) (by omega) (by rw [hpos]; exact hclose) (by omega)
  refine ⟨p₂, hsteps, by omega, hfilled, ?_⟩
  rw [← hnext]
  exact hshows

mutual

/-- The parser decodes every value. -/
theorem value_decodes (js : Nat → UInt8) (len numTokens : Nat) :
    ∀ v : Value, Decodes js len numTokens v
  | .string text => decodes_string text
  | .primitive prim => decodes_primitive prim
  | .emptyArray _ => fun _ hread hlen _ hroom hsuper hlt =>
    empty_decodes (.inr ⟨rfl, rfl, rfl⟩) hread (Nat.le_of_lt hlen) hroom hsuper hlt
  | .array es => fun _ hread hlen _ hroom hsuper hlt =>
    array_decodes (elements_decode js len numTokens es) hread (Nat.le_of_lt hlen) hroom hsuper hlt
  | .emptyObject _ => fun _ hread hlen _ hroom hsuper hlt =>
    empty_decodes (.inl ⟨rfl, rfl, rfl⟩) hread (Nat.le_of_lt hlen) hroom hsuper hlt
  | .object ms => fun _ hread hlen _ hroom hsuper hlt =>
    object_decodes (members_decode js len numTokens ms) hread (Nat.le_of_lt hlen) hroom hsuper hlt

theorem elements_decode (js : Nat → UInt8) (len numTokens : Nat) :
    ∀ es : Elements, DecodesElements js len numTokens es
  | .one before v after => decodesElements_one (value_decodes js len numTokens v) before after
  | .cons before v after rest => decodesElements_cons (value_decodes js len numTokens v)
    (elements_decode js len numTokens rest) before after

theorem members_decode (js : Nat → UInt8) (len numTokens : Nat) :
    ∀ ms : Members, DecodesMembers js len numTokens ms
  | .one _ v after => decodesMembers_one (value_decodes js len numTokens v) after
  | .cons _ v after rest => decodesMembers_cons (value_decodes js len numTokens v)
    (members_decode js len numTokens rest) after

end

/-- A word that the text ends with. -/
theorem primitiveLoop_last {text : List UInt8} (hword : ∀ b ∈ text, Word b) {pos : Nat}
    (hread : ReadsAt js pos text) (hlen : pos + text.length = len) :
    Returns (fun fuel => primitiveLoop js len fuel pos) (.ok len) := by
  induction text generalizing pos with
  | nil =>
    apply (Returns.pure _).step
    intro fuel
    simp only [List.length_nil, Nat.add_zero] at hlen
    rw [primitiveLoop, if_neg (fun h => by omega), hlen]
  | cons b text ih =>
    rw [readsAt_cons] at hread
    simp only [List.forall_mem_cons] at hword
    rw [List.length_cons] at hlen
    obtain ⟨hends, hrange, hne, _⟩ := word_plain hword.1
    apply (ih hword.2 hread.2 (by omega)).step
    intro fuel
    rw [primitiveLoop, hread.1, if_pos ⟨by omega, hne⟩, hends, if_neg (by decide), if_neg hrange]

theorem primitive_last {prim : Primitive} (hread : ReadsAt js p.pos prim.text)
    (hlen : p.pos + prim.text.length = len) (hroom : p.toknext < numTokens)
    (hsuper : -1 ≤ p.toksuper) (hlt : p.toksuper < p.toknext) :
    Advances js len numTokens p (added p .primitive p.pos (p.pos + prim.text.length : Nat)
      (p.pos + prim.text.length)) := by
  obtain ⟨text, nonempty, word⟩ := prim
  simp only at hread hlen ⊢
  have hloop := primitiveLoop_last word hread hlen
  obtain ⟨b, rest, rfl⟩ := List.exists_cons_of_ne_nil nonempty
  have hfirst : js p.pos = b := (readsAt_cons.mp hread).1
  obtain ⟨_, _, hb, hother⟩ := word_plain (word b List.mem_cons_self)
  simp only [List.mem_cons, List.not_mem_nil, or_false, not_or] at hother
  rw [List.length_cons] at hlen
  refine ⟨by omega, by rw [hfirst]; exact hb, added p .primitive p.pos len (len - 1), ?_, ?_⟩
  · obtain ⟨bound, hbound⟩ := hloop
    refine ⟨bound, fun fuel hle => ?_⟩
    have hloop : primitiveLoop js len fuel p.pos = some (.ok len) := hbound fuel hle
    simp only [parseChar, hfirst, hother, or_self, ↓reduceIte, jsmnParsePrimitive, hloop,
      addToken_eq hroom, Option.bind_eq_bind, Option.bind_some, Option.pure_def]
    exact counted_token hsuper hlt _ _ _ _
  · rw [List.length_cons, hlen]
    simp only [added, Parser.mk.injEq, and_self, and_true]
    omega

/-- A value that the text ends with, or that is followed by what ends a primitive. -/
theorem root_decodes (v : Value) (hread : ReadsAt js p.pos v.bytes)
    (hend : p.pos + v.bytes.length = len ∨ p.pos + v.bytes.length < len ∧
      endsPrimitive (js (p.pos + v.bytes.length)) = true)
    (hroom : p.toknext + v.size ≤ numTokens) (hsuper : -1 ≤ p.toksuper)
    (hlt : p.toksuper < p.toknext) :
    ∃ p', Steps js len numTokens p p' ∧ Placed v.size v.bytes.length p p' ∧
      Shows js len p'.tokens v p.toknext := by
  rcases hend with hlast | ⟨hin, hend⟩
  · cases v with
    | string text =>
      obtain ⟨p', i, hsteps, hpos, hsuper', hext, hraw⟩ :=
        @string_steps p js len numTokens text hread hlast.le hroom hsuper hlt
      refine ⟨p', hsteps, leaf_placed hext hpos hsuper', ?_⟩
      rw [Shows, hext.token]
      exact ⟨rfl, i, rfl, rfl, hraw⟩
    | primitive prim =>
      have hext := added_extends hlt .primitive p.pos (p.pos + prim.text.length : Nat)
        (p.pos + prim.text.length)
      refine ⟨_, (primitive_last hread hlast hroom hsuper hlt).steps, leaf_placed hext rfl rfl, ?_⟩
      rw [Shows, hext.token]
      exact ⟨rfl, p.pos, rfl, rfl, hread, hlast.le⟩
    | emptyArray space =>
      exact empty_decodes (.inr ⟨rfl, rfl, rfl⟩) hread hlast.le hroom hsuper hlt
    | array es =>
      exact array_decodes (elements_decode js len numTokens es) hread hlast.le hroom hsuper hlt
    | emptyObject space =>
      exact empty_decodes (.inl ⟨rfl, rfl, rfl⟩) hread hlast.le hroom hsuper hlt
    | object ms =>
      exact object_decodes (members_decode js len numTokens ms) hread hlast.le hroom hsuper hlt
  · exact value_decodes js len numTokens v p hread hin hend hroom hsuper hlt

end StmGateway.Json.Layout
