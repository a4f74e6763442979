import StmGateway.At.Present

/-!
# Room for a parameter

A getter copies a parameter into an array of the caller or into a local one, and
none compares its length with the room there is.
-/
namespace StmGateway.At.Capacity

open StmGateway.Lib StmGateway.At.Parameter StmGateway.At.Ring StmGateway.At.Setters
open StmGateway.At.Getters StmGateway.At.Missing StmGateway.At.Untouched StmGateway.At.Present

/-- The bytes of the array for parameter `num`, as documented for the caller's
arrays and as declared for the local ones. For the cloud domain they are as many
as `atk_ide01_get_clouddomain_len` tells. -/
def room (a : Reply) : Query → UInt8 → Nat
  | .searchMac _, _ => 18
  | .netmask _, _ | .gateway _, _ | .dns _, _ | .staticip _, _ | .multcastip _, _ => 16
  | .localport _, _ | .remoteport _, _ | .xcomport _, _ | .cloudport _, _ | .multcastport _, _ => 6
  | .version, _ => 14
  | .atklinkpwd _, _ => 9
  | .atkyundevid _, _ => 21
  | .remotelinkinfo .., num | .locallinkinfo .., num => if num = 1 then 16 else 6
  | .ethmod _, _ => 14
  | .echo _, _ | .dhcp _, _ | .cloudlinken _, _ | .netlksta _, _ => 4
  | .uart .., num => if num = 1 then 7 else if num = 4 then 5 else 2
  | .uartpacktime _, _ | .uartpacklen _, _ | .linknum _, _ => 6
  | .clouddomainLen _, num | .clouddomain _, num => (a.value num).length + 1

/-- The destinations hold exactly the parameters: the caller's arrays with a
terminator, the local ones before they are decoded, and the cloud domain's length
counts both. -/
def Holds (a : Reply) (src : Nat → UInt8) (stack : Stack) : (q : Query) → q.Out → Prop
  | .searchMac _, out => out = some (storedText (a.value 2))
  | .netmask _, out | .gateway _, out | .dns _, out | .localport _, out | .remoteport _, out
  | .staticip _, out | .version, out | .xcomport _, out | .cloudport _, out | .clouddomain _, out
  | .atklinkpwd _, out | .atkyundevid _, out | .multcastip _, out | .multcastport _, out =>
    out = some (storedText (a.value 1))
  | .remotelinkinfo _ ip port, out | .locallinkinfo _ ip port, out =>
    (ip = true → out.ip = some (storedText (a.value 1))) ∧
      (port = true → out.port = some (storedText (a.value 2)))
  | .clouddomainLen _, out => out = some (UInt16.ofNat (a.value 1).length + 1)
  | .ethmod _, _ | .echo _, _ | .dhcp _, _ | .cloudlinken _, _ | .netlksta _, _
  | .uartpacktime _, _ | .uartpacklen _, _ | .linknum _, _ =>
    Returns (copyParameter src 1 stack) (.eok, a.value 1)
  | .uart b s d p, _ => ∀ num ∈ (Query.uart b s d p).asks,
    Returns (copyParameter src num stack) (.eok, a.value num)

/-- The call returns, and reports an error or has written the parameters and no
more bytes than there is room for. -/
def Respects (a : Reply) (src : Nat → UInt8) (stack : Stack) (q : Query) : Prop :=
  Ends (fun fuel => q.run (answered src) stack fuel) fun st out =>
    st ≠ .eok ∨ (Holds a src stack q out ∧ ∀ num ∈ q.asks, (a.value num).length + 1 ≤ room a q num)

/-! ## The condition on the answer -/

/-- There is room for the parameter, and the scan comes to it. -/
def Taken (a : Reply) (src : Nat → UInt8) (q : Query) (num : UInt8) : Prop :=
  (a.value num).length + 1 ≤ room a q num ∧ a.Counted src num (a.value num)

/-- The text the scan comes to fits the local array, and `found` of its table. -/
def Read {β : Type} (a : Reply) (src : Nat → UInt8) (num : UInt8) (size : Nat)
    (table : List (String × β)) (found : Bool) : Prop :=
  ∃ text, a.Counted src num text ∧ text.length < size ∧
    (lookup table (text.takeWhile (· ≠ 0))).isSome = found

/-- A state is taken, or refused by its table. -/
def TakenOrRefused {β : Type} (a : Reply) (src : Nat → UInt8) (q : Query) (size : Nat)
    (table : List (String × β)) : Prop :=
  ∀ num ∈ q.asks, Taken a src q num ∨ Read a src num size table false

/-- The fields of `atk_ide01_get_uart`, with what the answer has for each. -/
def readFields (a : Reply) (src : Nat → UInt8) (baudrate stop data parity : Bool) :
    List (Bool × Prop × Prop) :=
  [(baudrate, Read a src 1 7 baudrateTable true, Read a src 1 7 baudrateTable false),
    (stop, Read a src 2 2 stopTable true, Read a src 2 2 stopTable false),
    (data, Read a src 3 2 dataTable true, Read a src 3 2 dataTable false),
    (parity, Read a src 4 5 parityTable true, Read a src 4 5 parityTable false)]

/-- When a call respects its destinations: each parameter is taken, or a text is
read that its table refuses. -/
def Fits (a : Reply) (src : Nat → UInt8) : Query → Prop
  | .searchMac mac => mac = true → (a.value 2).length = 17 ∧
    ∃ text, a.Counted src 2 text ∧ text.length ≤ 18 ∧ text.take 17 = a.value 2
  | .clouddomainLen len => len = true →
    ∃ text, a.Counted src 1 text ∧ text.length = (a.value 1).length
  | .ethmod dst => TakenOrRefused a src (.ethmod dst) 14 ethmodTable
  | .echo dst => TakenOrRefused a src (.echo dst) 4 echoTable
  | .dhcp dst => TakenOrRefused a src (.dhcp dst) 4 dhcpTable
  | .cloudlinken dst => TakenOrRefused a src (.cloudlinken dst) 4 cloudlinkTable
  | .netlksta dst => TakenOrRefused a src (.netlksta dst) 4 netlkstaTable
  | .uart b s d p => Chain (fun _ => True) (∀ num ∈ (Query.uart b s d p).asks,
    Taken a src (.uart b s d p) num) (readFields a src b s d p) false
  | q => ∀ num ∈ q.asks, Taken a src q num

/-! ## The getters -/

section Getters

variable {a : Reply} {src : Nat → UInt8} {num : UInt8} {stack : Stack} {β : Type} {cmd : Cmd}

theorem storedText_inj {t t' : List UInt8} : storedText t = storedText t' ↔ t = t' := by
  refine ⟨fun h => ?_, fun h => by rw [h]⟩
  have hall : t ++ [0] = t' ++ [0] := List.ext_getElem? fun j => congrFun h j
  exact List.append_cancel_right hall

/-- `mac[17]` is the terminator where the text of the address has 17 bytes. -/
theorem storedMac_iff {t v : List UInt8} (hnul : 0 ∉ v) :
    (fun j => if j = 17 then some 0 else t[j]? : Stored) = storedText v ↔
      v.length = 17 ∧ t.length ≤ 18 ∧ t.take 17 = v := by
  constructor
  · intro h
    have hstored : ∀ j, (if j = 17 then some 0 else t[j]?) = (v ++ [0])[j]? := fun j => congrFun h j
    have hlen : v.length = 17 := by
      have hlast := hstored 17
      rw [if_pos rfl] at hlast
      rcases Nat.lt_trichotomy v.length 17 with hlt | heq | hgt
      · rw [List.getElem?_eq_none (by simp; omega)] at hlast
        cases hlast
      · exact heq
      · rw [List.getElem?_append_left hgt] at hlast
        exact absurd (List.mem_of_getElem? hlast.symm) hnul
    have hend := hstored 18
    rw [if_neg (by decide), List.getElem?_eq_none (l := v ++ [0]) (by simp; omega),
      List.getElem?_eq_none_iff] at hend
    refine ⟨hlen, hend, List.ext_getElem? fun j => ?_⟩
    rw [List.getElem?_take]
    by_cases hj : j < 17
    · rw [if_pos hj, ← List.getElem?_append_left (by omega : j < v.length), ← hstored,
        if_neg (by omega)]
    · rw [if_neg hj, List.getElem?_eq_none (by omega)]
  · intro hfits
    obtain ⟨hlen, hend, rfl⟩ := hfits
    funext j
    rw [List.length_take] at hlen
    simp only [storedText]
    by_cases hj : j < 17
    · rw [if_neg (by omega), List.getElem?_append_left (by rw [List.length_take]; omega),
        List.getElem?_take, if_pos hj]
    by_cases hlast : j = 17
    · subst hlast
      rw [if_pos rfl, List.getElem?_append_right (by rw [List.length_take]; omega),
        List.length_take, hlen]
      rfl
    · rw [if_neg hlast, List.getElem?_eq_none (by omega), List.getElem?_eq_none (by simp; omega)]

/-- A getter of one parameter decodes what is copied. -/
theorem queryOne_ends (h : a.In src) (hnum : num ≠ 0)
    {decode : List UInt8 → Option (Status × Option β)} {P : Status → Option β → Prop} :
    Ends (fun fuel => queryOne (answered src) cmd num stack fuel decode) P ↔
      ∃ text st out, Returns (copyParameter src num stack) (.eok, text) ∧
        decode text = some (st, out) ∧ P st out := by
  constructor
  · intro hends
    obtain ⟨st, out, ⟨bound, hrun⟩, hP⟩ := hends
    obtain ⟨⟨ret, text⟩, hcopy, hrest⟩ := Option.bind_eq_some_iff.mp (hrun bound le_rfl)
    obtain rfl := h.copy_eok hnum hcopy
    exact ⟨text, st, out, (copyParameter_settles src num stack).returns hcopy, hrest, hP⟩
  · intro hdecoded
    obtain ⟨text, st, out, ⟨bound, hcopy⟩, hdecode, hP⟩ := hdecoded
    refine ⟨st, out, ⟨bound, fun fuel hle => ?_⟩, hP⟩
    simp only [queryOne, query, answered, hcopy fuel hle, Option.bind_eq_bind, Option.bind_some, ne_eq,
      not_true_eq_false, ↓reduceIte, hdecode]

/-- One that takes any text passes on what is copied. -/
theorem queryOne_passes (h : a.In src) (hnum : num ≠ 0) {f : List UInt8 → β} {Q : Option β → Prop} :
    Ends (fun fuel => queryOne (answered src) cmd num stack fuel fun text =>
        some (.eok, some (f text))) (fun st out => st ≠ .eok ∨ Q out) ↔
      ∃ text, Returns (copyParameter src num stack) (.eok, text) ∧ Q (some (f text)) := by
  rw [queryOne_ends h hnum]
  constructor
  · intro hdecoded
    obtain ⟨text, st, out, hcopy, hdecode, hQ⟩ := hdecoded
    cases hdecode
    exact ⟨text, hcopy, hQ.resolve_left (not_not.mpr rfl)⟩
  · intro hcopied
    obtain ⟨text, hcopy, hQ⟩ := hcopied
    exact ⟨text, _, _, hcopy, rfl, .inr hQ⟩

/-- A copied text is as long as a 16-bit length. -/
theorem copy_length_lt {text : List UInt8} (hcopy : Returns (copyParameter src num stack) (.eok, text)) :
    text.length < 65536 := by
  obtain ⟨bound, hrun⟩ := hcopy
  obtain ⟨⟨_, index, len⟩, _, hrest⟩ := Option.bind_eq_some_iff.mp (hrun bound le_rfl)
  cases index with
  | none => cases hrest
  | some index =>
    cases len with
    | none => cases hrest
    | some len =>
      cases hrest
      simpa only [slice, List.length_map, List.length_range'] using len.toNat_lt

theorem linkField_settles (dst : Bool) (num : UInt8) :
    Settles fun fuel => linkField src stack fuel dst num := by
  cases dst with
  | false => exact settles_const _
  | true => exact (copyParameter_settles src num stack).bind fun r => settles_const _

/-- A NULL pointer is an error. -/
theorem einval_ends {γ : Type} {out : γ} {Q : γ → Prop} :
    Ends (fun _ => some (.einval, out)) fun st out => st ≠ .eok ∨ Q out :=
  ⟨.einval, out, Returns.pure _, .inl (by decide)⟩

variable (h : a.In src) (hhas : a.Has 1) {size : UInt8 → Nat}

include h hhas

theorem getText_ends :
    Ends (fun fuel => getText cmd (answered src) stack fuel true) (fun st out => st ≠ .eok ∨
        (out = some (storedText (a.value 1)) ∧ ∀ num ∈ [1], (a.value num).length + 1 ≤ size num)) ↔
      ∀ num ∈ [1], (a.value num).length + 1 ≤ size num ∧ a.Counted src num (a.value num) := by
  have hlen := hhas.value_length_le
  simp only [List.mem_singleton, forall_eq]
  rw [← h.copy_iff hhas (by omega) stack]
  change Ends (fun fuel => queryOne (answered src) cmd 1 stack fuel fun text =>
    some (.eok, some (storedText text))) _ ↔ _
  rw [queryOne_passes h hhas.1]
  constructor
  · intro hread
    obtain ⟨text, hcopy, hout, hroom⟩ := hread
    exact ⟨hroom, storedText_inj.mp (Option.some.inj hout) ▸ hcopy⟩
  · intro htaken
    obtain ⟨hroom, hcopy⟩ := htaken
    exact ⟨_, hcopy, rfl, hroom⟩

/-- What the local array holds does not show in the result. -/
theorem getEnum_ends {table : List (String × β)} {room : Nat} (hroom : room ≤ 65280) :
    Ends (fun fuel => getEnum room table cmd (answered src) stack fuel true) (fun st _ => st ≠ .eok ∨
        (Returns (copyParameter src 1 stack) (.eok, a.value 1) ∧
          ∀ num ∈ [1], (a.value num).length + 1 ≤ room)) ↔
      ∀ num ∈ [1], ((a.value num).length + 1 ≤ room ∧ a.Counted src num (a.value num)) ∨
        Read a src num room table false := by
  have hlen := hhas.value_length_le
  simp only [List.mem_singleton, forall_eq]
  rw [← h.copy_iff hhas (by omega) stack]
  change Ends (fun fuel => queryOne (answered src) cmd 1 stack fuel (matchText room table)) _ ↔ _
  rw [queryOne_ends h hhas.1]
  constructor
  · intro hdecoded
    obtain ⟨text, st, out, hcopy, hdecode, hP⟩ := hdecoded
    by_cases hfit : text.length < room
    · cases hlookup : lookup table (text.takeWhile (· ≠ 0)) with
      | none =>
        exact .inr ⟨text, (h.copy_iff hhas (by omega) stack).mp hcopy, hfit, by rw [hlookup]; rfl⟩
      | some v =>
        rw [matchText_eq hfit, hlookup] at hdecode
        cases hdecode
        exact .inl (hP.resolve_left (not_not.mpr rfl)).symm
    · rw [matchText, localText, if_neg hfit] at hdecode
      cases hdecode
  · intro htaken
    rcases htaken with ⟨hfit, hcopy⟩ | ⟨text, hcounted, hfit, hlookup⟩
    · exact ⟨_, _, _, hcopy, matchText_eq (by omega), .inr ⟨hcopy, hfit⟩⟩
    · have hnone := Option.not_isSome_iff_eq_none.mp (Bool.not_eq_true _ ▸ hlookup)
      refine ⟨text, .error, none, (h.copy_iff hhas (by omega) stack).mpr hcounted, ?_, .inl (by decide)⟩
      rw [matchText_eq hfit, hnone]

theorem getNumber_ends {room : Nat} :
    Ends (fun fuel => getNumber room cmd (answered src) stack fuel true) (fun st _ => st ≠ .eok ∨
        (Returns (copyParameter src 1 stack) (.eok, a.value 1) ∧
          ∀ num ∈ [1], (a.value num).length + 1 ≤ room)) ↔
      ∀ num ∈ [1], (a.value num).length + 1 ≤ room ∧ a.Counted src num (a.value num) := by
  have hlen := hhas.value_length_le
  simp only [List.mem_singleton, forall_eq]
  rw [← h.copy_iff hhas (by omega) stack]
  change Ends (fun fuel => queryOne (answered src) cmd 1 stack fuel (numberText room)) _ ↔ _
  rw [queryOne_ends h hhas.1]
  constructor
  · intro hdecoded
    obtain ⟨text, st, out, hcopy, hdecode, hP⟩ := hdecoded
    obtain ⟨value, _, hvalue⟩ := Option.bind_eq_some_iff.mp hdecode
    cases hvalue
    exact (hP.resolve_left (not_not.mpr rfl)).symm
  · intro htaken
    obtain ⟨hfit, hcopy⟩ := htaken
    have hdecode : numberText room (a.value 1) =
        some (.eok, some (UInt16.ofInt (atoi ((a.value 1).takeWhile (· ≠ 0))))) := by
      rw [numberText, localText, if_pos (by omega)]
      rfl
    exact ⟨_, _, _, hcopy, hdecode, .inr ⟨hcopy, hfit⟩⟩

theorem getClouddomainLen_ends {room : Prop} (hroom : room) :
    Ends (fun fuel => atkIde01GetClouddomainLen (answered src) stack fuel true) (fun st out =>
        st ≠ .eok ∨ (out = some (UInt16.ofNat (a.value 1).length + 1) ∧ room)) ↔
      ∃ text, a.Counted src 1 text ∧ text.length = (a.value 1).length := by
  have hlen := hhas.value_length_le
  change Ends (fun fuel => queryOne (answered src) _ 1 stack fuel fun text =>
    some (.eok, some (UInt16.ofNat text.length + 1))) _ ↔ _
  rw [queryOne_passes h hhas.1]
  constructor
  · intro hread
    obtain ⟨text, hcopy, hout, _⟩ := hread
    have hshort := copy_length_lt hcopy
    have hnat := congrArg UInt16.toNat ((UInt16.add_left_inj 1).mp (Option.some.inj hout))
    rw [UInt16.toNat_ofNat', UInt16.toNat_ofNat', Nat.mod_eq_of_lt hshort,
      Nat.mod_eq_of_lt (by omega)] at hnat
    exact ⟨text, (h.copy_iff hhas (by omega) stack).mp hcopy, hnat⟩
  · intro hread
    obtain ⟨text, hcounted, hcount⟩ := hread
    exact ⟨text, (h.copy_iff hhas (by omega) stack).mpr hcounted, by rw [hcount], hroom⟩

omit hhas

theorem searchMac_ends (hhas : a.Has 2) :
    Ends (fun fuel => atkIde01SearchMac (answered src) stack fuel true) (fun st out => st ≠ .eok ∨
        (out = some (storedText (a.value 2)) ∧ ∀ num ∈ [2], (a.value num).length + 1 ≤ 18)) ↔
      (a.value 2).length = 17 ∧
        ∃ text, a.Counted src 2 text ∧ text.length ≤ 18 ∧ text.take 17 = a.value 2 := by
  have hnul := a.value_plain 2
  change Ends (fun fuel => queryOne (answered src) _ 2 stack fuel fun text =>
    some (.eok, some fun j => if j = 17 then some 0 else text[j]?)) _ ↔ _
  rw [queryOne_passes h hhas.1]
  constructor
  · intro hread
    obtain ⟨text, hcopy, hout, _⟩ := hread
    obtain ⟨hlen, hend, htake⟩ := (storedMac_iff hnul).mp (Option.some.inj hout)
    exact ⟨hlen, text, (h.copy_iff hhas (by omega) stack).mp hcopy, hend, htake⟩
  · intro hfits
    obtain ⟨hlen, text, hcounted, hend, htake⟩ := hfits
    refine ⟨text, (h.copy_iff hhas (by omega) stack).mpr hcounted, ?_, ?_⟩
    · rw [(storedMac_iff hnul).mpr ⟨hlen, hend, htake⟩]
    · simp only [List.mem_singleton, forall_eq]
      omega

/-- One block of a link query. -/
theorem linkField_iff (hnum : num ≠ 0) {dst : Bool} {ret : Status} {v : Option Stored} :
    Returns (fun fuel => linkField src stack fuel dst num) (ret, v) ↔ ret = .eok ∧
      if dst then ∃ text, Returns (copyParameter src num stack) (.eok, text) ∧ v = some (storedText text)
      else v = none := by
  cases dst with
  | false =>
    constructor
    · intro hreturns
      obtain ⟨bound, hrun⟩ := hreturns
      cases hrun bound le_rfl
      exact ⟨rfl, rfl⟩
    · intro hwritten
      obtain ⟨rfl, hv⟩ := hwritten
      cases hv
      exact Returns.pure _
  | true =>
    constructor
    · intro hreturns
      obtain ⟨bound, hrun⟩ := hreturns
      obtain ⟨⟨ret', text⟩, hcopy, hrest⟩ := Option.bind_eq_some_iff.mp (hrun bound le_rfl)
      obtain rfl := h.copy_eok hnum hcopy
      cases hrest
      exact ⟨rfl, text, (copyParameter_settles src num stack).returns hcopy, rfl⟩
    · intro hwritten
      obtain ⟨rfl, text, ⟨bound, hcopy⟩, rfl⟩ := hwritten
      refine ⟨bound, fun fuel hle => ?_⟩
      simp only [linkField, hcopy fuel hle, ↓reduceIte, Option.bind_eq_bind, Option.bind_some, ne_eq,
        not_true_eq_false, Option.pure_def]

/-- The two blocks in turn. -/
theorem getLinkinfo_ends {name : String} {n : UInt8} {ip port : Bool} (hasked : ip = true ∨ port = true)
    {P : Status → LinkOut → Prop} :
    Ends (fun fuel => getLinkinfo name (answered src) stack fuel n ip port) P ↔
      ∃ i p, Returns (fun fuel => linkField src stack fuel ip 1) (.eok, i) ∧
        Returns (fun fuel => linkField src stack fuel port 2) (.eok, p) ∧ P .eok ⟨i, p⟩ := by
  have hnot : ¬ (ip = false ∧ port = false) := by
    intro hnone
    obtain ⟨rfl, rfl⟩ := hnone
    exact hasked.elim nofun nofun
  constructor
  · intro hends
    obtain ⟨st, out, ⟨bound, hrun⟩, hP⟩ := hends
    have hblocks : getLinkinfo name (answered src) stack bound n ip port = some (st, out) :=
      hrun bound le_rfl
    rw [getLinkinfo, if_neg hnot] at hblocks
    obtain ⟨⟨ret₁, i⟩, hip, hrest⟩ := Option.bind_eq_some_iff.mp hblocks
    have hfirst := (linkField_settles ip 1).returns hip
    obtain ⟨rfl, _⟩ := (linkField_iff h (by decide)).mp hfirst
    obtain ⟨⟨ret₂, p⟩, hport, hlast⟩ := Option.bind_eq_some_iff.mp hrest
    have hsecond := (linkField_settles port 2).returns hport
    obtain ⟨rfl, _⟩ := (linkField_iff h (by decide)).mp hsecond
    cases hlast
    exact ⟨i, p, hfirst, hsecond, hP⟩
  · intro hfields
    obtain ⟨i, p, ⟨m, hip⟩, ⟨k, hport⟩, hP⟩ := hfields
    refine ⟨.eok, ⟨i, p⟩, ⟨max m k, fun fuel hle => ?_⟩, hP⟩
    have hfirst : linkField src stack fuel ip 1 = some (.eok, i) := hip fuel (by omega)
    have hsecond : linkField src stack fuel port 2 = some (.eok, p) := hport fuel (by omega)
    simp only [getLinkinfo, if_neg hnot, query, answered, hfirst, hsecond, Option.bind_eq_bind,
      Option.bind_some, ne_eq, not_true_eq_false, ↓reduceIte, Option.pure_def]

/-- A block that writes what it is asked for. -/
theorem linkField_writes {dst : Bool} (hhas : dst = true → a.Has num) (stack : Stack) :
    (∃ v, Returns (fun fuel => linkField src stack fuel dst num) (.eok, v) ∧
        (dst = true → v = some (storedText (a.value num)))) ↔
      (dst = true → a.Counted src num (a.value num)) := by
  cases dst with
  | false => exact ⟨fun _ => nofun, fun _ => ⟨none, Returns.pure _, nofun⟩⟩
  | true =>
    have hnum := hhas rfl
    have hlen := hnum.value_length_le
    rw [← h.copy_iff hnum (by omega) stack]
    constructor
    · intro hwrites _
      obtain ⟨v, hfield, hv⟩ := hwrites
      obtain ⟨_, text, hcopy, htext⟩ := (linkField_iff h hnum.1).mp hfield
      rw [hv rfl] at htext
      exact storedText_inj.mp (Option.some.inj htext) ▸ hcopy
    · intro hcopy
      exact ⟨_, (linkField_iff h hnum.1).mpr ⟨rfl, _, hcopy rfl, rfl⟩, fun _ => rfl⟩

omit h in
theorem mem_asks {ip port : Bool} :
    num ∈ (if ip then [1] else []) ++ (if port then [2] else []) ↔
      ip = true ∧ num = 1 ∨ port = true ∧ num = 2 := by
  cases ip <;> cases port <;> simp

theorem getLinkinfo_respects {name : String} {n : UInt8} {ip port : Bool} {room : UInt8 → Nat}
    (hhas : ∀ num ∈ (if ip then [1] else []) ++ (if port then [2] else []), a.Has num) :
    Ends (fun fuel => getLinkinfo name (answered src) stack fuel n ip port) (fun st out =>
        st ≠ .eok ∨ (((ip = true → out.ip = some (storedText (a.value 1))) ∧
            (port = true → out.port = some (storedText (a.value 2)))) ∧
          ∀ num ∈ (if ip then [1] else []) ++ (if port then [2] else []),
            (a.value num).length + 1 ≤ room num)) ↔
      ∀ num ∈ (if ip then [1] else []) ++ (if port then [2] else []),
        (a.value num).length + 1 ≤ room num ∧ a.Counted src num (a.value num) := by
  by_cases hasked : ip = true ∨ port = true
  · have hfirst := linkField_writes h (fun hip => hhas 1 (mem_asks.mpr (.inl ⟨hip, rfl⟩))) stack
    have hsecond := linkField_writes h (fun hport => hhas 2 (mem_asks.mpr (.inr ⟨hport, rfl⟩))) stack
    rw [getLinkinfo_ends h hasked]
    constructor
    · intro hfields num hnum
      obtain ⟨i, p, hip, hport, hP⟩ := hfields
      obtain ⟨⟨hi, hp⟩, hroom⟩ := hP.resolve_left (not_not.mpr rfl)
      refine ⟨hroom num hnum, ?_⟩
      rcases mem_asks.mp hnum with ⟨hdst, rfl⟩ | ⟨hdst, rfl⟩
      · exact hfirst.mp ⟨i, hip, hi⟩ hdst
      · exact hsecond.mp ⟨p, hport, hp⟩ hdst
    · intro hall
      obtain ⟨i, hip, hi⟩ := hfirst.mpr fun hdst => (hall 1 (mem_asks.mpr (.inl ⟨hdst, rfl⟩))).2
      obtain ⟨p, hport, hp⟩ := hsecond.mpr fun hdst => (hall 2 (mem_asks.mpr (.inr ⟨hdst, rfl⟩))).2
      exact ⟨i, p, hip, hport, .inr ⟨⟨hi, hp⟩, fun num hnum => (hall num hnum).1⟩⟩
  · obtain ⟨hip, hport⟩ := not_or.mp hasked
    obtain rfl := Bool.eq_false_iff.mpr hip
    obtain rfl := Bool.eq_false_iff.mpr hport
    exact iff_of_true einval_ends nofun

/-! ## `atk_ide01_get_uart` -/

omit h in
/-- A chain depends on the fields that are asked for. -/
theorem chain_congr {fail : Bool → Prop} {done done' : Prop} (hdone : done ↔ done')
    {fields fields' : List (Bool × Prop × Prop)}
    (hall : List.Forall₂ (fun x y => x.1 = y.1 ∧ (x.1 = true → (x.2.1 ↔ y.2.1) ∧ (x.2.2 ↔ y.2.2)))
      fields fields') :
    ∀ stored, Chain fail done fields stored ↔ Chain fail done' fields' stored := by
  induction hall with
  | nil => exact fun _ => hdone
  | @cons x y _ _ hxy _ ih =>
    intro stored
    obtain ⟨dst, decodes, refused⟩ := x
    obtain ⟨dst', decodes', refused'⟩ := y
    obtain ⟨rfl, hsame⟩ := hxy
    cases dst with
    | false => exact ih stored
    | true =>
      obtain ⟨hdecodes, hrefused⟩ := hsame rfl
      exact or_congr (and_congr_right fun _ => hrefused) (and_congr hdecodes (ih true))

omit h in
/-- A field of which the answer has nothing ends a chain. -/
theorem chain_none {fail : Bool → Prop} {done : Prop} {fields : List (Bool × Prop × Prop)}
    (hnone : ∀ x ∈ fields, ¬ x.2.1 ∧ ¬ x.2.2) (hasked : ∃ x ∈ fields, x.1 = true) :
    ∀ stored, ¬ Chain fail done fields stored := by
  induction fields with
  | nil => exact absurd hasked (by simp)
  | cons x fields ih =>
    intro stored
    obtain ⟨hx, hrest⟩ := List.forall_mem_cons.mp hnone
    obtain ⟨dst, decodes, refused⟩ := x
    cases dst with
    | true => exact fun hchain => hchain.elim (fun h => hx.2 h.2) fun h => hx.1 h.1
    | false =>
      refine ih hrest ?_ stored
      obtain ⟨y, hy, hasks⟩ := hasked
      rcases List.mem_cons.mp hy with rfl | hy
      · cases hasks
      · exact ⟨y, hy, hasks⟩

theorem decodes_iff (hhas : a.Has num) {room : Nat} (hroom : room ≤ 65280)
    {table : List (String × β)} :
    Decodes src stack num room table ↔ Read a src num room table true := by
  constructor
  · intro hdecodes
    obtain ⟨text, v, hcopy, hlen, hlookup⟩ := hdecodes
    exact ⟨text, (h.copy_iff hhas (by omega) stack).mp hcopy, hlen, by rw [hlookup]; rfl⟩
  · intro hread
    obtain ⟨text, hcounted, hlen, hlookup⟩ := hread
    obtain ⟨v, hv⟩ := Option.isSome_iff_exists.mp hlookup
    exact ⟨text, v, (h.copy_iff hhas (by omega) stack).mpr hcounted, hlen, hv⟩

theorem refused_iff (hhas : a.Has num) {room : Nat} (hroom : room ≤ 65280)
    {table : List (String × β)} :
    Refused src stack num room table ↔ Read a src num room table false := by
  constructor
  · intro hrefused
    obtain ⟨text, hcopy, hlen, hlookup⟩ := hrefused
    exact ⟨text, (h.copy_iff hhas (by omega) stack).mp hcopy, hlen, by rw [hlookup]; rfl⟩
  · intro hread
    obtain ⟨text, hcounted, hlen, hlookup⟩ := hread
    have hnone := Option.not_isSome_iff_eq_none.mp (Bool.not_eq_true _ ▸ hlookup)
    exact ⟨text, (h.copy_iff hhas (by omega) stack).mpr hcounted, hlen, hnone⟩

theorem taken_iff {q : Query} (hhas : ∀ num ∈ q.asks, a.Has num) :
    ((∀ num ∈ q.asks, Returns (copyParameter src num stack) (.eok, a.value num)) ∧
        ∀ num ∈ q.asks, (a.value num).length + 1 ≤ room a q num) ↔
      ∀ num ∈ q.asks, Taken a src q num := by
  have hcopied : ∀ num ∈ q.asks, (Returns (copyParameter src num stack) (.eok, a.value num) ↔
      a.Counted src num (a.value num)) := by
    intro num hnum
    have hlen := (hhas num hnum).value_length_le
    exact h.copy_iff (hhas num hnum) (by omega) stack
  constructor
  · exact fun hall num hnum => ⟨hall.2 num hnum, (hcopied num hnum).mp (hall.1 num hnum)⟩
  · exact fun hall => ⟨fun num hnum => (hcopied num hnum).mpr (hall num hnum).2,
      fun num hnum => (hall num hnum).1⟩

/-- Without a `=` in reach the first field asked for is looked for without end. -/
theorem uartBlocks_far (hlead : 255 < a.lead.length) {b s d p : Bool}
    (hasked : ¬ (b = false ∧ s = false ∧ d = false ∧ p = false)) (fuel : Nat) :
    uartBlocks id src stack b s d p fuel = none := by
  have hfield : ∀ {γ : Type} (dst : Bool) (num : UInt8) (size : Nat) (table : List (String × γ))
      (fail : UartOut) (next : Option γ → Option (Status × UartOut)), num ≠ 0 →
      afterField src stack fuel dst num size table fail next = if dst then none else next none := by
    intro γ dst num size table fail next hnum
    cases dst with
    | false => rfl
    | true =>
      simp only [afterField, uartField, h.copy_far hnum hlead, ↓reduceIte, Option.bind_eq_bind,
        Option.bind_none]
  simp only [uartBlocks, hfield _ 1 _ _ _ _ (by decide), hfield _ 2 _ _ _ _ (by decide),
    hfield _ 3 _ _ _ _ (by decide), hfield _ 4 _ _ _ _ (by decide)]
  cases b <;> cases s <;> cases d <;> cases p <;> first | rfl | exact absurd ⟨rfl, rfl, rfl, rfl⟩ hasked

theorem getUart_respects {b s d p : Bool} (hhas : ∀ num ∈ (Query.uart b s d p).asks, a.Has num) :
    Respects a src stack (.uart b s d p) ↔ Fits a src (.uart b s d p) := by
  by_cases hasked : b = false ∧ s = false ∧ d = false ∧ p = false
  · obtain ⟨rfl, rfl, rfl, rfl⟩ := hasked
    exact iff_of_true einval_ends nofun
  have hrun : ∀ fuel, (Query.uart b s d p).run (answered src) stack fuel =
      uartBlocks id src stack b s d p fuel := by
    intro fuel
    change atkIde01GetUart (answered src) stack fuel b s d p = _
    rw [getUart_blocks, if_neg hasked]
    rfl
  unfold Respects
  simp only [hrun]
  by_cases hlead : a.lead.length ≤ 255
  · have hequals : HasEquals src :=
      ⟨_, h.seek hlead, by rw [index_toNat hlead]; exact h.equals⟩
    have hends := @uartBlocks_ends src stack (fun st _ => st ≠ .eok ∨
      ((∀ num ∈ (Query.uart b s d p).asks, Returns (copyParameter src num stack) (.eok, a.value num)) ∧
        ∀ num ∈ (Query.uart b s d p).asks, (a.value num).length + 1 ≤ room a (.uart b s d p) num))
      (fun _ => True) (∀ num ∈ (Query.uart b s d p).asks, Taken a src (.uart b s d p) num) id
      (fun _ _ _ => iff_of_true (.inl (by decide)) trivial) (fun _ => ?_) (fun _ => hequals) b s d p
    · refine hends.trans (chain_congr Iff.rfl ?_ false)
      have hfield : ∀ {γ : Type} (dst : Bool) (num : UInt8) (size : Nat) (table : List (String × γ)),
          size ≤ 65280 → (dst = true → num ∈ (Query.uart b s d p).asks) →
          (dst = dst ∧ (dst = true →
            (Decodes src stack num size table ↔ Read a src num size table true) ∧
              (Refused src stack num size table ↔ Read a src num size table false))) := by
        intro γ dst num size table hsize hnum
        exact ⟨rfl, fun hdst => ⟨decodes_iff h (hhas num (hnum hdst)) hsize,
          refused_iff h (hhas num (hnum hdst)) hsize⟩⟩
      exact .cons (hfield b 1 7 _ (by decide) fun hb => by simp [Query.asks, hb])
        (.cons (hfield s 2 2 _ (by decide) fun hs => by simp [Query.asks, hs])
          (.cons (hfield d 3 2 _ (by decide) fun hd => by simp [Query.asks, hd])
            (.cons (hfield p 4 5 _ (by decide) fun hp => by simp [Query.asks, hp]) .nil)))
    · rw [← taken_iff h hhas]
      exact ⟨fun hP => hP.resolve_left (not_not.mpr rfl), .inr⟩
  · have hread : ∀ {γ : Type} (num : UInt8) (size : Nat) (table : List (String × γ)) (found : Bool),
        ¬ Read a src num size table found := by
      rintro γ num size table found ⟨text, hcounted, _⟩
      exact hlead hcounted.1
    refine iff_of_false ?_ (chain_none ?_ ?_ false)
    · intro hends
      obtain ⟨st, out, ⟨bound, hblocks⟩, _⟩ := hends
      cases (uartBlocks_far h (by omega) hasked bound).symm.trans (hblocks bound le_rfl)
    · simp only [readFields, List.mem_cons, List.not_mem_nil, or_false, forall_eq_or_imp, forall_eq,
        hread, not_false_eq_true, and_self]
    · by_contra hnone
      simp only [readFields, List.mem_cons, List.not_mem_nil, or_false, exists_eq_or_imp,
        exists_eq_left, not_or, Bool.not_eq_true] at hnone
      exact hasked hnone

end Getters

/-- In reach of the index a parameter is taken where there is room for it. -/
theorem taken_reach {a : Reply} {src : Nat → UInt8} (h : a.In src) {q : Query} {num : UInt8}
    (hhas : a.Has num) (hclose : (a.upTo num).length ≤ 256) :
    Taken a src q num ↔ (a.value num).length + 1 ≤ room a q num := by
  rw [Taken, h.counted_iff hhas hclose]
  exact and_iff_left rfl

/-- For every answer in which the requested parameters are present, a getter returns
an error, or has written exactly these and no more than there is room for, if and
only if they fit. -/
theorem respects_iff {a : Reply} {src : Nat → UInt8} (h : a.In src) (stack : Stack) (q : Query)
    (hhas : ∀ num ∈ q.asks, a.Has num) : Respects a src stack q ↔ Fits a src q := by
  cases q with
  | version => exact getText_ends h (hhas 1 (by decide))
  | uart b s d p => exact getUart_respects h hhas
  | remotelinkinfo n ip port => exact getLinkinfo_respects h hhas
  | locallinkinfo n ip port => exact getLinkinfo_respects h hhas
  | searchMac dst =>
    cases dst with
    | false => exact iff_of_true einval_ends nofun
    | true => exact (searchMac_ends h (hhas 2 (by decide))).trans ⟨fun hfit _ => hfit, fun hfit => hfit rfl⟩
  | clouddomainLen dst =>
    cases dst with
    | false => exact iff_of_true einval_ends nofun
    | true =>
      exact (getClouddomainLen_ends h (hhas 1 (by decide)) fun num _ => le_rfl).trans
        ⟨fun hfit _ => hfit, fun hfit => hfit rfl⟩
  | ethmod dst | echo dst | dhcp dst | cloudlinken dst | netlksta dst =>
    cases dst with
    | false => exact iff_of_true einval_ends nofun
    | true => exact getEnum_ends h (hhas 1 (by decide)) (by decide)
  | uartpacktime dst | uartpacklen dst | linknum dst =>
    cases dst with
    | false => exact iff_of_true einval_ends nofun
    | true => exact getNumber_ends h (hhas 1 (by decide))
  | _ dst =>
    cases dst with
    | false => exact iff_of_true einval_ends nofun
    | true => exact getText_ends h (hhas 1 (by decide))

/-- A frame buffer with this answer, and zeros behind it. -/
def bufferOf (a : Reply) : Nat → UInt8 := fun j => a.text.getD j 0

theorem in_bufferOf (a : Reply) : a.In (bufferOf a) := by
  refine ⟨readsAt_getD a.text, ?_⟩
  rw [bufferOf, List.getD_eq_getElem?_getD, List.getElem?_eq_none le_rfl, Option.getD_none]

/-- An answer to `AT+NETMASK?`. -/
def mask : Reply :=
  ⟨ascii "+NETMASK", [([], ascii "255.255.255.0")], ascii "\r\nOK\r\n", by decide,
    by unfold PlainFields Plain; decide, by decide, by decide⟩

theorem respects_mask :
    (Respects mask (bufferOf mask) (fun _ => (7, 9)) (.netmask true) ↔
        Fits mask (bufferOf mask) (.netmask true)) ∧ Fits mask (bufferOf mask) (.netmask true) := by
  have hone : mask.Has 1 := ⟨by decide, by decide⟩
  have hhas : ∀ num ∈ (Query.netmask true).asks, mask.Has num := by
    intro num hnum
    obtain rfl := List.mem_singleton.mp hnum
    exact hone
  refine ⟨respects_iff (in_bufferOf mask) (fun _ => (7, 9)) (.netmask true) hhas, fun num hnum => ?_⟩
  obtain rfl := List.mem_singleton.mp hnum
  exact (taken_reach (in_bufferOf mask) hone (by decide)).mpr (by decide)

/-- An answer with a mask of 19 bytes. -/
def longMask : Reply :=
  ⟨ascii "+NETMASK", [([], ascii "255.255.255.255.255")], ascii "\r\nOK\r\n", by decide,
    by unfold PlainFields Plain; decide, by decide, by decide⟩

/-- The array of 16 bytes is written 20. -/
theorem netmask_overrun :
    longMask.In (bufferOf longMask) ∧ (∀ num ∈ (Query.netmask true).asks, longMask.Has num) ∧
      Returns (fun fuel => (Query.netmask true).run (answered (bufferOf longMask)) (fun _ => (7, 9)) fuel)
        (.eok, some (storedText (ascii "255.255.255.255.255"))) ∧
      (ascii "255.255.255.255.255" ++ [0]).length = 20 ∧
      ¬ Respects longMask (bufferOf longMask) (fun _ => (7, 9)) (.netmask true) := by
  have hreturns : Returns (fun fuel => (Query.netmask true).run (answered (bufferOf longMask))
      (fun _ => (7, 9)) fuel) (.eok, some (storedText (ascii "255.255.255.255.255"))) := by
    refine ⟨40, fun fuel hle => ?_⟩
    obtain ⟨k, rfl⟩ : ∃ k, fuel = k + 40 := ⟨fuel - 40, by omega⟩
    rfl
  have hhas : ∀ num ∈ (Query.netmask true).asks, longMask.Has num := by
    intro num hnum
    obtain rfl := List.mem_singleton.mp hnum
    exact ⟨by decide, by decide⟩
  refine ⟨in_bufferOf longMask, hhas, hreturns, by decide, ?_⟩
  intro ⟨st, out, hrun, hP⟩
  cases hrun.unique hreturns
  have hroom := (hP.resolve_left (not_not.mpr rfl)).2 1 (by decide)
  exact absurd hroom (by decide)

end StmGateway.At.Capacity
