import StmGateway.At.Ring

/-!
# Rendered answers

The module renders an answer as a name, a `=` and quoted parameters. On such an
answer `atk_ide01_get_parameter` finds each parameter whose closing quote its index
can reach.
-/
namespace StmGateway.At.Parameter

open StmGateway.Lib StmGateway.At.Ring

/-- Text that a scan for quotes passes over. -/
def Plain (text : List UInt8) : Prop := 0 ∉ text ∧ 0x22 ∉ text

/-- A quoted parameter and its separator. -/
def field (p : List UInt8 × List UInt8) : List UInt8 := p.1 ++ 0x22 :: p.2 ++ [0x22]

theorem field_length (p : List UInt8 × List UInt8) :
    (field p).length = p.1.length + p.2.length + 2 := by
  simp [field]
  omega

variable {src : Nat → UInt8}

theorem readsAt_field {p : List UInt8 × List UInt8} {i : Nat} (h : ReadsAt src i (field p)) :
    ReadsAt src i p.1 ∧ src (i + p.1.length) = 0x22 ∧ ReadsAt src (i + p.1.length + 1) p.2 ∧
      src (i + p.1.length + 1 + p.2.length) = 0x22 := by
  unfold field at h
  rw [readsAt_append, readsAt_append, readsAt_cons, readsAt_cons] at h
  obtain ⟨⟨hsep, hopen, hp⟩, hclose, _⟩ := h
  refine ⟨hsep, hopen, hp, ?_⟩
  rw [← hclose]
  congr 1
  simp only [List.length_append, List.length_cons]
  omega

/-- Fields that are split up by their quotes as they were put together. -/
def PlainFields (ps : List (List UInt8 × List UInt8)) : Prop := ∀ p ∈ ps, Plain p.1 ∧ Plain p.2

theorem two_le_field (p : List UInt8 × List UInt8) : 2 ≤ (field p).length := by
  rw [field_length]
  omega

theorem length_le_fields (ps : List (List UInt8 × List UInt8)) :
    2 * ps.length ≤ (ps.flatMap field).length := by
  induction ps with
  | nil => simp
  | cons p ps ih =>
    have := two_le_field p
    rw [List.flatMap_cons, List.length_append, List.length_cons]
    omega

theorem nul_fields {ps : List (List UInt8 × List UInt8)} (hps : PlainFields ps) :
    0 ∉ ps.flatMap field := by
  intro h
  simp only [field, List.mem_flatMap, List.mem_append, List.mem_cons] at h
  obtain ⟨p, hp, (h | h | h) | h | h⟩ := h
  · exact (hps p hp).1.1 h
  · exact absurd h (by decide)
  · exact (hps p hp).2.1 h
  · exact absurd h (by decide)
  · exact absurd h List.not_mem_nil

theorem fields_take (ps : List (List UInt8 × List UInt8)) (k : Nat) :
    ps.flatMap field = (ps.take k).flatMap field ++ (ps.drop k).flatMap field := by
  rw [← List.flatMap_append, List.take_append_drop]

theorem fields_split {ps : List (List UInt8 × List UInt8)} {k : Nat} (hk : k < ps.length) :
    (ps.take (k + 1)).flatMap field = (ps.take k).flatMap field ++ field ps[k] := by
  rw [List.take_succ_eq_append_getElem hk, List.flatMap_append, List.flatMap_singleton]

/-- A text without quotes leads to the quote behind it. -/
theorem nextQuote_text {i : Nat} {text : List UInt8} (hread : ReadsAt src i text)
    (hplain : 0x22 ∉ text) (hquote : src (i + text.length) = 0x22) (hlen : i + text.length < 256) :
    NextQuote src i (i + text.length) := by
  refine ⟨Nat.le_add_right _ _, by rwa [Nat.mod_eq_of_lt hlen], fun j hle hlt hj => hplain ?_⟩
  rw [Nat.mod_eq_of_lt (by omega)] at hj
  have hmem := hread.mem (by omega : j - i < text.length)
  rwa [show i + (j - i) = j by omega, hj] at hmem

/-- The quotes of field `k` are those that a count from the first field comes to. -/
theorem nthPair_fields {ps : List (List UInt8 × List UInt8)} :
    ∀ {k i : Nat} (hk : k < ps.length), PlainFields ps → ReadsAt src i ((ps.take (k + 1)).flatMap field) →
      i + ((ps.take (k + 1)).flatMap field).length ≤ 256 →
      ∃ o, NthPair src k i o (o + 1 + ps[k].2.length) ∧ ReadsAt src (o + 1) ps[k].2 ∧
        o + 1 + ps[k].2.length + 1 = i + ((ps.take (k + 1)).flatMap field).length := by
  induction ps with
  | nil => exact fun hk => absurd hk (Nat.not_lt_zero _)
  | cons p ps ih =>
    intro k i hk hplain hread hlen
    obtain ⟨hsep, hp⟩ := hplain p List.mem_cons_self
    rw [List.take_succ_cons, List.flatMap_cons, readsAt_append] at hread
    obtain ⟨hsepRead, hopen, hpRead, hclose⟩ := readsAt_field hread.1
    rw [List.take_succ_cons, List.flatMap_cons, List.length_append, field_length] at hlen ⊢
    have hfirst : NextQuote src i (i + p.1.length) :=
      nextQuote_text hsepRead hsep.2 hopen (by omega)
    have hsecond : NextQuote src (i + p.1.length + 1) (i + p.1.length + 1 + p.2.length) :=
      nextQuote_text hpRead hp.2 hclose (by omega)
    cases k with
    | zero => exact ⟨i + p.1.length, ⟨hfirst, hsecond⟩, hpRead, by simp; omega⟩
    | succ k =>
      rw [field_length] at hread
      obtain ⟨o, hpair, hvalue, hend⟩ := @ih k (i + (p.1.length + p.2.length + 2))
        (Nat.lt_of_succ_lt_succ hk) (fun q hq => hplain q (List.mem_cons_of_mem _ hq)) hread.2
        (by omega)
      refine ⟨o, ⟨_, _, hfirst, hsecond, ?_⟩, hvalue, by rw [List.getElem_cons_succ]; omega⟩
      rwa [show i + p.1.length + 1 + p.2.length + 1 = i + (p.1.length + p.2.length + 2) by omega]

/-- In a rendered answer the count from the `=` comes to each parameter in reach. -/
theorem nthPair_answer {lead : List UInt8} {ps : List (List UInt8 × List UInt8)}
    (hps : PlainFields ps) {k : Nat} (hk : k < ps.length)
    (hclose : (lead ++ 0x3d :: (ps.take (k + 1)).flatMap field).length ≤ 256)
    (hread : ReadsAt src 0 (lead ++ 0x3d :: (ps.take (k + 1)).flatMap field)) :
    ∃ o, NthPair src k lead.length o (o + 1 + ps[k].2.length) ∧ ReadsAt src (o + 1) ps[k].2 ∧
      o + 1 + ps[k].2.length + 1 = (lead ++ 0x3d :: (ps.take (k + 1)).flatMap field).length := by
  rw [readsAt_append, readsAt_cons, Nat.zero_add] at hread
  obtain ⟨_, hequals, hfields⟩ := hread
  rw [List.length_append, List.length_cons] at hclose ⊢
  obtain ⟨o, hpair, hvalue, hend⟩ := nthPair_fields hk hps hfields (by omega)
  refine ⟨o, hpair.back ?_, hvalue, by omega⟩
  rw [Nat.mod_eq_of_lt (by omega), hequals]
  decide

theorem getParameter_returns {lead : List UInt8} {ps : List (List UInt8 × List UInt8)}
    (hlead : 0 ∉ lead ∧ 0x3d ∉ lead) (hps : PlainFields ps) {k : Nat} (hk : k < ps.length)
    (hclose : (lead ++ 0x3d :: (ps.take (k + 1)).flatMap field).length ≤ 256)
    (hread : ReadsAt src 0 (lead ++ 0x3d :: (ps.take (k + 1)).flatMap field))
    (index length stackIndex stackLen : UInt16) :
    ∃ off, Returns (atkIde01GetParameter src (UInt8.ofNat (k + 1)) (some index) (some length)
        stackIndex stackLen)
        (.eok, some (UInt16.ofNat off), some (UInt16.ofNat ps[k].2.length)) ∧
      ReadsAt src off ps[k].2 ∧
      off + ps[k].2.length + 1 = (lead ++ 0x3d :: (ps.take (k + 1)).flatMap field).length := by
  obtain ⟨o, hpair, hvalue, hend⟩ := nthPair_answer hps hk hclose hread
  have hcount := length_le_fields (ps.take (k + 1))
  have hparts := @List.length_append _ lead (0x3d :: (ps.take (k + 1)).flatMap field)
  rw [List.length_cons] at hparts
  rw [List.length_take] at hcount
  have hnul : ∀ j, lead.length ≤ j → j < o + 1 + ps[k].2.length → src (j % 256) ≠ 0 := by
    intro j _ hj hsrc
    have hmem := hread.mem (by omega : j < _)
    rw [Nat.zero_add, ← Nat.mod_eq_of_lt (by omega : j < 256), hsrc, List.mem_append,
      List.mem_cons] at hmem
    rcases hmem with hmem | hmem | hmem
    · exact hlead.1 hmem
    · exact absurd hmem (by decide)
    · exact nul_fields (fun p hp => hps p (List.mem_of_mem_take hp)) hmem
  have hpass : ∀ j, 0 ≤ j → j < lead.length → src j ≠ 0 ∧ src j ≠ 0x3d := by
    intro j _ hj
    have hmem := (readsAt_append.mp hread).1.mem hj
    rw [Nat.zero_add] at hmem
    exact ⟨fun hsrc => hlead.1 (hsrc ▸ hmem), fun hsrc => hlead.2 (hsrc ▸ hmem)⟩
  have hequals : src lead.length = 0x3d := by
    rw [readsAt_append, readsAt_cons, Nat.zero_add] at hread
    exact hread.2.1
  obtain ⟨s, hscan, hindex, hlength⟩ := @ring_nth src true stackIndex stackLen k _ o _ hpair
    (by omega) hnul
  have hseek := seekEquals_stops (by omega) (.inr hequals) (Nat.zero_le _) hpass
  have hnum : UInt8.ofNat (k + 1) ≠ 0 := index_ne (by omega) (Nat.succ_ne_zero k)
  have hfound := @getParameter_eok src _ (some index) (some length) _ _ _ hnum
    hseek (by rw [index_toNat (by omega)]; exact hequals) _ hscan
  rw [Option.map_some, Option.map_some, hindex, hlength rfl] at hfound
  have hstart : foundIndex o = UInt16.ofNat (o + 1) := by
    rw [← UInt16.toNat_inj, foundIndex_toNat, UInt16.toNat_ofNat']
    omega
  have hcopied : foundLen o (o + 1 + ps[k].2.length) = UInt16.ofNat ps[k].2.length := by
    rw [← UInt16.toNat_inj, foundLen_toNat, UInt16.toNat_ofNat']
    omega
  rw [hstart, hcopied] at hfound
  exact ⟨o + 1, hfound, hvalue, hend⟩

/-- In a rendered answer the scan finds each parameter whose closing quote is at
most at offset 255, whatever stands behind that quote. -/
theorem getParameter_inverts {lead suffix : List UInt8} {ps : List (List UInt8 × List UInt8)}
    (hlead : 0 ∉ lead ∧ 0x3d ∉ lead) (hps : PlainFields ps) {k : Nat} (hk : k < ps.length)
    (hclose : (lead ++ 0x3d :: (ps.take (k + 1)).flatMap field).length ≤ 256)
    (hread : ReadsAt src 0 (lead ++ 0x3d :: (ps.flatMap field ++ suffix)))
    (index length stackIndex stackLen : UInt16) :
    ∃ off, Returns (atkIde01GetParameter src (UInt8.ofNat (k + 1)) (some index) (some length)
        stackIndex stackLen)
        (.eok, some (UInt16.ofNat off), some (UInt16.ofNat ps[k].2.length)) ∧
      ReadsAt src off ps[k].2 ∧ off + ps[k].2.length ≤ 255 ∧
      ∀ src', (∀ j < (lead ++ 0x3d :: (ps.take (k + 1)).flatMap field).length, src' j = src j) →
        Returns (atkIde01GetParameter src' (UInt8.ofNat (k + 1)) (some index) (some length)
          stackIndex stackLen)
          (.eok, some (UInt16.ofNat off), some (UInt16.ofNat ps[k].2.length)) := by
  have hfront : ReadsAt src 0 (lead ++ 0x3d :: (ps.take (k + 1)).flatMap field) := by
    rw [fields_take ps (k + 1), List.append_assoc, ← List.cons_append, ← List.append_assoc,
      readsAt_append] at hread
    exact hread.1
  obtain ⟨off, hret, hstands, hend⟩ := getParameter_returns hlead hps hk hclose hfront index length
    stackIndex stackLen
  refine ⟨off, hret, hstands, by omega, fun src' hsame => ?_⟩
  have hfront' : ReadsAt src' 0 (lead ++ 0x3d :: (ps.take (k + 1)).flatMap field) := by
    intro j hj
    have hget := hfront j hj
    rw [Nat.zero_add] at hget ⊢
    rwa [hsame j hj]
  obtain ⟨off', hret', _, hend'⟩ := getParameter_returns hlead hps hk hclose hfront' index length
    stackIndex stackLen
  obtain rfl : off' = off := by omega
  exact hret'

/-- The second of two parameters, the first one empty, with a quoted prefix. -/
theorem getParameter_inverts_second :
    ∃ off, Returns (atkIde01GetParameter
        (fun i => (ascii "\"+A\"=\"\",\"80\"\r\n").getD i 0) (UInt8.ofNat (1 + 1)) (some 0) (some 0)
        7 9) (.eok, some (UInt16.ofNat off), some (UInt16.ofNat 2)) ∧
      ReadsAt (fun i => (ascii "\"+A\"=\"\",\"80\"\r\n").getD i 0) off (ascii "80") ∧
      off + 2 ≤ 255 ∧
      ∀ src', (∀ j < 12, src' j = (ascii "\"+A\"=\"\",\"80\"\r\n").getD j 0) →
        Returns (atkIde01GetParameter src' (UInt8.ofNat (1 + 1)) (some 0) (some 0) 7 9)
          (.eok, some (UInt16.ofNat off), some (UInt16.ofNat 2)) :=
  @getParameter_inverts (fun i => (ascii "\"+A\"=\"\",\"80\"\r\n").getD i 0) (ascii "\"+A\"")
    (ascii "\r\n") [([], []), (ascii ",", ascii "80")] ⟨by decide, by decide⟩
    (by unfold PlainFields Plain; decide) 1 (by decide) (by decide)
    (readsAt_getD (ascii "\"+A\"=\"\",\"80\"\r\n")) 0 0 7 9

end StmGateway.At.Parameter
