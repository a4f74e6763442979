import StmGateway.Json.Safety

/-!
# Whose text a line shows

The three fetches share `json_age`, and a fetch for a key that has no value, or
several, leaves it as it is. What a line shows is then what the line before it
showed, or what was on the stack.
-/
namespace StmGateway.Json.Values

open StmGateway.Lib StmGateway.Json.Jsmn StmGateway.Json.Switch StmGateway.Json.Tree
open StmGateway.Json.DealCmd StmGateway.Json.Safety

variable {js : Nat → UInt8} {len : Nat} {p : Parser}

/-- The text of the value that belongs to a key: empty for a container, and for a
key without a value. -/
def ownText (js : Nat → UInt8) (len : Nat) (p : Parser) (k : Nat) : List UInt8 :=
  match children p k with
  | [] => []
  | v :: _ =>
    if (p.tokens v).type = .string ∨ (p.tokens v).type = .primitive then
      (frameSlice js len (p.tokens v).start (p.tokens v).stop).getD []
    else []

/-- The key has exactly one value. -/
def OneValue (p : Parser) (k : Nat) : Prop := (children p k).length = 1

instance (p : Parser) (k : Nat) : Decidable (OneValue p k) := inferInstanceAs (Decidable (_ = _))

/-- `json_age` after the fetch for the key `k`. -/
def after (js : Nat → UInt8) (len : Nat) (p : Parser) (k : Nat) (buf : Nat → UInt8) : Nat → UInt8 :=
  if OneValue p k then Lookup.fetched (ownText js len p k) buf else buf

/-- The line printed of the buffer. -/
def line (label : String) (text : List UInt8) : Output := .print (ascii label ++ text ++ ascii "\n")

/-- What the parser made of the frame, and the keys the three lookups find. -/
structure Answers (js : Nat → UInt8) (len : Nat) (tk : Nat → Tok) (p : Parser)
    (age email name : Nat) : Prop where
  command : ¬(12 ≤ len ∧ strncmpEq (slice js 0 len) (ascii "U2E SENT ERR") 12 = true)
  parse : Returns (fun fuel => jsmnParse js len 256 fuel (jsmnInit tk)) (p.toknext, p)
  root : (p.tokens 0).type = .object
  age : age < p.toknext ∧ FirstName js len p (ascii "age") 1 age
  email : email < p.toknext ∧ FirstName js len p (ascii "email") 1 email
  name : name < p.toknext ∧ FirstName js len p (ascii "name") 1 name

/-- Whatever was on the stack, the lines show these texts. -/
def Shows (js : Nat → UInt8) (tk : Nat → Tok) (age email name : List UInt8) : Prop :=
  ∀ jsonAge out, Returns (jsonDealCmd js tk jsonAge) (1, out) →
    out = [line "age:" age, line "email:" email, line "name:" name]

/-- Each line shows the text of the value of its own key. -/
def ShowsValues (js : Nat → UInt8) (len : Nat) (tk : Nat → Tok) (p : Parser)
    (age email name : Nat) : Prop :=
  Shows js tk (ownText js len p age) (ownText js len p email) (ownText js len p name)

/-- What of a text `json_age` has room for: `JSMN_GetStringBuffered` drops the rest. -/
def cut (text : List UInt8) : List UInt8 := text.take 63

/-- Each line shows it as far as the buffer reaches. -/
def ShowsCut (js : Nat → UInt8) (len : Nat) (tk : Nat → Tok) (p : Parser)
    (age email name : Nat) : Prop :=
  Shows js tk (cut (ownText js len p age)) (cut (ownText js len p email))
    (cut (ownText js len p name))

/-- The age key has one value, and each of the other two has one value or the text
shown before it. -/
structure OneEach (js : Nat → UInt8) (len : Nat) (p : Parser) (age email name : Nat) : Prop where
  first : OneValue p age
  second : OneValue p email ∨ cut (ownText js len p email) = cut (ownText js len p age)
  third : OneValue p name ∨ cut (ownText js len p name) = cut (ownText js len p email)

/-- A slice of the frame has no terminator in it. -/
theorem frameSlice_no_nul (hframe : FrameAt js len) {start stop : Int} {text : List UInt8}
    (h : frameSlice js len start stop = some text) : 0 ∉ text := by
  rw [frameSlice] at h
  split at h
  · next hin =>
    cases h
    intro hmem
    obtain ⟨i, hi, hzero⟩ := List.mem_map.mp hmem
    rw [List.mem_range'_1] at hi
    exact hframe.before i (by omega) hzero
  · cases h

section Fetch

variable (h : Sound len 256 p)
include h

/-- The first value of a key stands right behind it. -/
theorem children_head {k v : Nat} {rest : List Nat} (hc : children p k = v :: rest) :
    v = k + 1 ∧ v < p.toknext := by
  have hmem : ∀ j, j ∈ v :: rest ↔ j < p.toknext ∧ (p.tokens j).parent = k := by
    intro j
    rw [← hc, children, List.mem_filter, List.mem_range, decide_eq_true_iff]
  have hsorted : (v :: rest).Pairwise (· < ·) := by
    rw [← hc]
    exact List.pairwise_lt_range.filter _
  obtain ⟨hlt, hparent⟩ := (hmem v).mp List.mem_cons_self
  have hup := (h.parent v hlt).2
  have hfirst := h.first v hlt (by omega)
  rw [hparent, Int.toNat_natCast] at hfirst
  have hnext : k + 1 ∈ v :: rest := (hmem (k + 1)).mpr ⟨by omega, hfirst⟩
  refine ⟨?_, hlt⟩
  rcases List.mem_cons.mp hnext with heq | hrest
  · exact heq.symm
  · have hafter := List.rel_of_pairwise_cons hsorted hrest
    omega

/-- The fetch of the one value of a key. -/
theorem fetch_one (hframe : FrameAt js len) {k : Nat} (hone : OneValue p k)
    (buf : Nat → UInt8) :
    k + 1 < p.toknext ∧ 0 ∉ ownText js len p k ∧ ∃ r,
      jsmnGetStringBuffered js len p
        ⟨(k : Int) + 1, (k : Int) + 1, (p.toknext : Int) - 1 - k - 1⟩ buf jsonAgeSize =
        some (r, Lookup.fetched (ownText js len p k) buf) := by
  obtain ⟨v, hv⟩ := List.length_eq_one_iff.mp hone
  obtain ⟨rfl, hlt⟩ := children_head h hv
  have htok : p.tok ((k : Int) + 1) = some (p.tokens (k + 1)) := tok_eq (by omega) (by omega)
  refine ⟨hlt, ?_⟩
  by_cases htype : (p.tokens (k + 1)).type = .string ∨ (p.tokens (k + 1)).type = .primitive
  · obtain ⟨text, htext⟩ := leaf_slice js h hlt htype
    have hown : ownText js len p k = text := by
      rw [ownText, hv]
      simp only [if_pos htype, htext, Option.getD_some]
    rw [hown]
    exact ⟨frameSlice_no_nul hframe htext, _,
      Lookup.jsmnGetStringBuffered_leaf htok htype htext buf⟩
  · have hown : ownText js len p k = [] := by
      rw [ownText, hv]
      simp only [if_neg htype]
    rw [hown]
    exact ⟨List.not_mem_nil, _,
      Lookup.jsmnGetStringBuffered_container htok (not_or.mp htype) buf⟩

/-- The line of a key, and the buffer it leaves. -/
theorem valueLine_after (hframe : FrameAt js len) {k : Nat} (hk : k < p.toknext)
    (htype : (p.tokens k).type = .string) (label : String) (buf : Nat → UInt8) :
    valueLine js len p (Lookup.itemAt p.toknext k) label buf =
      some (line label (cString (after js len p k buf) jsonAgeSize 0), after js len p k buf) := by
  have hsize := h.sizes k hk
  unfold after
  split
  · next hone =>
    obtain ⟨hlt, hnul, r, hget⟩ := fetch_one h hframe hone buf
    rw [Lookup.valueLine_eq rfl hlt htype (hsize.trans hone) hnul label hget,
      Lookup.cString_fetched hnul, line]
  · next hmany =>
    have htok : p.tok (Lookup.itemAt p.toknext k).t = some (p.tokens k) :=
      tok_eq (by simp [Lookup.itemAt]) (by simp [Lookup.itemAt, hk])
    simp only [valueLine, jsmnGetValueStringBuffered, htok, Option.bind_eq_bind, Option.bind_some]
    rw [if_neg (by decide), if_pos (.inr (.inl fun hone => hmany (hsize.symm.trans hone)))]
    rfl

/-- After the fetch of a key with one value the buffer holds its text. -/
theorem cString_after_one (hframe : FrameAt js len) {k : Nat} (hone : OneValue p k)
    (buf : Nat → UInt8) :
    cString (after js len p k buf) jsonAgeSize 0 = cut (ownText js len p k) := by
  obtain ⟨_, hnul, _⟩ := fetch_one h hframe hone buf
  rw [after, if_pos hone, Lookup.cString_fetched hnul, cut]

end Fetch

theorem after_many {k : Nat} (hmany : ¬OneValue p k) (buf : Nat → UInt8) :
    after js len p k buf = buf := if_neg hmany

section Answers

variable {tk : Nat → Tok} {age email name : Nat}

theorem Answers.sound (h : Answers js len tk p age email name) : Sound len 256 p := by
  obtain ⟨bound, hbound⟩ := h.parse
  obtain ⟨r, q, hparse, hsound⟩ := parseLoop_total js (max bound (2 * len + 300))
    (init_sound len 256 tk) (by simp only [jsmnInit]; omega)
  have hrun := hbound (max bound (2 * len + 300)) (Nat.le_max_left _ _)
  have heq : some ((p.toknext : Int), p) = some (r, q) := hrun.symm.trans hparse
  cases heq
  exact (hsound (by omega)).1

/-- The lookup of a name that is there. -/
theorem jsmnGetObjectItem_first (h : Sound len 256 p) (hroot : (p.tokens 0).type = .object)
    {label : List UInt8} {k : Nat} (hk : k < p.toknext) (hfirst : FirstName js len p label 1 k) :
    jsmnGetObjectItem js len p (jsmnItemInit 0 0 p.toknext) label =
      some (some (Lookup.itemAt p.toknext k)) := by
  obtain ⟨found, hget, hfound⟩ := jsmnGetObjectItem_total js h (by omega) hroot label
  rw [hget]
  cases found with
  | none => exact absurd hfirst.names (hfound k hfirst.le hk)
  | some item =>
    obtain ⟨k', hlt, hfirst', rfl⟩ := hfound
    have hle : ¬k < k' := fun hlt => hfirst'.before k hfirst.le hlt hfirst.names
    have hge : ¬k' < k := fun hlt => hfirst.before k' hfirst'.le hlt hfirst'.names
    obtain rfl : k = k' := by omega
    rfl

/-- With its three keys the frame is answered by 1, and the lines are these. -/
theorem Answers.lines (h : Answers js len tk p age email name) (hframe : FrameAt js len)
    (jsonAge : Nat → UInt8) :
    Returns (jsonDealCmd js tk jsonAge) (1,
      [line "age:" (cString (after js len p age jsonAge) jsonAgeSize 0),
        line "email:" (cString (after js len p email (after js len p age jsonAge)) jsonAgeSize 0),
        line "name:" (cString (after js len p name
          (after js len p email (after js len p age jsonAge))) jsonAgeSize 0)]) := by
  have hsound := h.sound
  obtain ⟨hage, hfirstAge⟩ := h.age
  obtain ⟨hemail, hfirstEmail⟩ := h.email
  obtain ⟨hname, hfirstName⟩ := h.name
  obtain ⟨bound, hbound⟩ := h.parse
  have hroot := h.root
  refine ⟨max bound (len + 1), fun fuel hle => ?_⟩
  have hscan : scanNul js fuel 0 = some len := hframe.scanned (by omega)
  have hrun : jsmnParse js len 256 fuel (jsmnInit tk) = some ((p.toknext : Int), p) :=
    hbound fuel (by omega)
  have htok : p.tok 0 = some (p.tokens 0) := tok_eq le_rfl (by omega)
  rw [jsonDealCmd, hscan, Option.bind_eq_bind, Option.bind_some, if_neg h.command]
  simp only [hrun, Option.bind_eq_bind, Option.bind_some]
  rw [if_neg (by omega), if_neg (by omega), htok, Option.bind_some, if_neg (not_not.mpr hroot),
    dealItems, jsmnGetObjectItem_first hsound hroot hage hfirstAge, Option.bind_eq_bind,
    Option.bind_some]
  simp only [jsmnGetObjectItem_first hsound hroot hemail hfirstEmail,
    jsmnGetObjectItem_first hsound hroot hname hfirstName,
    valueLine_after hsound hframe hage hfirstAge.names.type,
    valueLine_after hsound hframe hemail hfirstEmail.names.type,
    valueLine_after hsound hframe hname hfirstName.names.type, Option.bind_eq_bind,
    Option.bind_some, Option.pure_def]

/-- Where the lookups and lines give 1, the three keys were found. -/
theorem keys_of_dealItems (h : Sound len 256 p) (hpos : 0 < p.toknext)
    (hroot : (p.tokens 0).type = .object) {jsonAge : Nat → UInt8} {out : List Output}
    (hdeal : dealItems js len p (jsmnItemInit 0 0 p.toknext) jsonAge = some (1, out)) :
    ∃ age email name,
      (age < p.toknext ∧ FirstName js len p (ascii "age") 1 age) ∧
      (email < p.toknext ∧ FirstName js len p (ascii "email") 1 email) ∧
      (name < p.toknext ∧ FirstName js len p (ascii "name") 1 name) := by
  obtain ⟨age, hage, hfoundAge⟩ := jsmnGetObjectItem_total js h hpos hroot (ascii "age")
  obtain ⟨email, hemail, hfoundEmail⟩ := jsmnGetObjectItem_total js h hpos hroot (ascii "email")
  obtain ⟨name, hname, hfoundName⟩ := jsmnGetObjectItem_total js h hpos hroot (ascii "name")
  rw [dealItems, hage, Option.bind_eq_bind, Option.bind_some] at hdeal
  cases age with
  | none => cases hdeal
  | some age =>
    simp only [hemail, Option.bind_eq_bind, Option.bind_some] at hdeal
    cases email with
    | none => cases hdeal
    | some email =>
      simp only [hname, Option.bind_some] at hdeal
      cases name with
      | none => cases hdeal
      | some name =>
        obtain ⟨a, ha, hfirstAge, _⟩ := hfoundAge
        obtain ⟨e, he, hfirstEmail, _⟩ := hfoundEmail
        obtain ⟨n, hn, hfirstName, _⟩ := hfoundName
        exact ⟨a, e, n, ⟨ha, hfirstAge⟩, ⟨he, hfirstEmail⟩, hn, hfirstName⟩

/-- A frame answered by 1 has the three keys. -/
theorem answers_of_returns (hframe : FrameAt js len) {jsonAge : Nat → UInt8} {out : List Output}
    (h : Returns (jsonDealCmd js tk jsonAge) (1, out)) :
    ∃ p age email name, Answers js len tk p age email name := by
  obtain ⟨bound, hbound⟩ := h
  obtain ⟨r, q, hparse, hsound⟩ := parseLoop_total js (max bound (2 * len + 300))
    (init_sound len 256 tk) (by simp only [jsmnInit]; omega)
  have hrun : jsmnParse js len 256 (max bound (2 * len + 300)) (jsmnInit tk) = some (r, q) := hparse
  have hscan : scanNul js (max bound (2 * len + 300)) 0 = some len := hframe.scanned (by omega)
  have hdeal := hbound (max bound (2 * len + 300)) (Nat.le_max_left _ _)
  rw [jsonDealCmd, hscan, Option.bind_eq_bind, Option.bind_some] at hdeal
  split at hdeal
  · cases hdeal
  · next hcommand =>
    simp only [hrun, Option.bind_eq_bind, Option.bind_some] at hdeal
    split at hdeal
    · cases hdeal
    · split at hdeal
      · cases hdeal
      · obtain ⟨hq, rfl⟩ := hsound (by omega)
        have htok : q.tok 0 = some (q.tokens 0) := tok_eq le_rfl (by omega)
        simp only [htok, Option.bind_some] at hdeal
        split at hdeal
        · cases hdeal
        · next hroot =>
          obtain ⟨age, email, name, hage, hemail, hname⟩ :=
            keys_of_dealItems hq (by omega) (not_not.mp hroot) hdeal
          exact ⟨q, age, email, name, hcommand, (jsmnParse_settles _).returns hrun,
            not_not.mp hroot, hage, hemail, hname⟩

end Answers

/-- A buffer that shows something else. -/
theorem exists_other (text : List UInt8) :
    ∃ buf : Nat → UInt8, cString buf jsonAgeSize 0 ≠ text := by
  cases text with
  | nil => exact ⟨fun _ => 1, by decide⟩
  | cons b text => exact ⟨fun _ => 0, by simp [jsonAgeSize, cString]⟩

theorem line_inj {label : String} {text text' : List UInt8} (h : line label text = line label text') :
    text = text' := by
  rw [line, line, Output.print.injEq, List.append_left_inj, List.append_right_inj] at h
  exact h

/-- A line shows its own value where the key has one, or the text was there before. -/
theorem shows_own_iff (hsound : Sound len 256 p) (hframe : FrameAt js len) (k : Nat)
    (buf : Nat → UInt8) :
    cString (after js len p k buf) jsonAgeSize 0 = cut (ownText js len p k) ↔
      OneValue p k ∨ cut (ownText js len p k) = cString buf jsonAgeSize 0 := by
  by_cases hone : OneValue p k
  · exact iff_of_true (cString_after_one hsound hframe hone buf) (.inl hone)
  · rw [after_many hone]
    exact ⟨fun h => .inr h.symm, fun h => (h.resolve_left hone).symm⟩

section Shown

variable {tk : Nat → Tok} {age email name : Nat} (h : Answers js len tk p age email name)
  (hframe : FrameAt js len)
include h hframe

theorem shows_iff {a e n : List UInt8} :
    Shows js tk a e n ↔ ∀ jsonAge,
      cString (after js len p age jsonAge) jsonAgeSize 0 = a ∧
      cString (after js len p email (after js len p age jsonAge)) jsonAgeSize 0 = e ∧
      cString (after js len p name (after js len p email (after js len p age jsonAge))) jsonAgeSize 0 =
        n := by
  constructor
  · intro hshows jsonAge
    have hlines := hshows jsonAge _ (h.lines hframe jsonAge)
    simp only [List.cons.injEq, and_true] at hlines
    exact ⟨line_inj hlines.1, line_inj hlines.2.1, line_inj hlines.2.2⟩
  · intro htexts jsonAge out hout
    obtain ⟨hage, hemail, hname⟩ := htexts jsonAge
    have heq := hout.unique (h.lines hframe jsonAge)
    rw [hage, hemail, hname] at heq
    exact congrArg Prod.snd heq

/-- The stack does not show the right text by itself. -/
theorem one_age {a e n : List UInt8} (hshows : Shows js tk a e n) : OneValue p age := by
  by_contra hmany
  obtain ⟨buf, hother⟩ := exists_other a
  have hage := ((shows_iff h hframe).mp hshows buf).1
  rw [after_many hmany] at hage
  exact hother hage

theorem showsCut_iff :
    ShowsCut js len tk p age email name ↔ OneEach js len p age email name := by
  have hsound := h.sound
  constructor
  · intro hshows
    have hone := one_age h hframe hshows
    obtain ⟨_, hemail, hname⟩ := (shows_iff h hframe).mp hshows fun _ => 0
    refine ⟨hone, ?_, ?_⟩
    · rwa [shows_own_iff hsound hframe, cString_after_one hsound hframe hone] at hemail
    · rwa [shows_own_iff hsound hframe, hemail] at hname
  · intro ⟨hone, hemail, hname⟩
    refine (shows_iff h hframe).mpr fun jsonAge => ?_
    have hage := cString_after_one hsound hframe hone jsonAge
    have hsecond := (shows_own_iff hsound hframe email (after js len p age jsonAge)).mpr
      (by rwa [hage])
    exact ⟨hage, hsecond, (shows_own_iff hsound hframe name _).mpr (by rwa [hsecond])⟩

omit h in
/-- No line shows more than the buffer takes, if the one before it does not. -/
theorem shown_length (hsound : Sound len 256 p) (k : Nat) {buf : Nat → UInt8}
    (hbuf : (cString buf jsonAgeSize 0).length ≤ 63) :
    (cString (after js len p k buf) jsonAgeSize 0).length ≤ 63 := by
  by_cases hone : OneValue p k
  · rw [cString_after_one hsound hframe hone, cut, List.length_take]
    exact Nat.min_le_left _ _
  · rwa [after_many hone]

theorem showsValues_iff :
    ShowsValues js len tk p age email name ↔ OneEach js len p age email name ∧
      (ownText js len p age).length ≤ 63 ∧ (ownText js len p email).length ≤ 63 ∧
      (ownText js len p name).length ≤ 63 := by
  have hsound := h.sound
  have hwhole : ∀ {k}, (ownText js len p k).length ≤ 63 →
      cut (ownText js len p k) = ownText js len p k := fun hk => List.take_of_length_le hk
  constructor
  · intro hshows
    obtain ⟨hage, hemail, hname⟩ := (shows_iff h hframe).mp hshows fun _ => 0
    have ha := @shown_length js len p hframe hsound age (fun _ => 0) (by decide)
    have he := shown_length hframe hsound email ha
    have hn := shown_length hframe hsound name he
    rw [hage] at ha
    rw [hemail] at he
    rw [hname] at hn
    refine ⟨(showsCut_iff h hframe).mp ?_, ha, he, hn⟩
    rwa [ShowsCut, hwhole ha, hwhole he, hwhole hn]
  · intro ⟨hone, ha, he, hn⟩
    have hcut := (showsCut_iff h hframe).mpr hone
    rwa [ShowsCut, hwhole ha, hwhole he, hwhole hn] at hcut

end Shown

/-- The lines of a frame that is answered by 1 show the values of their own keys
as far as `json_age` reaches exactly where the age key has one value, and each of
the other two has one value or the text shown before it; and they show the whole
values exactly where in addition none is longer than 63 bytes. -/
theorem values_shown_iff (hframe : FrameAt js len) (tk : Nat → Tok)
    (h : ∃ jsonAge out, Returns (jsonDealCmd js tk jsonAge) (1, out)) :
    ∃ p age email name, Answers js len tk p age email name ∧
      (ShowsCut js len tk p age email name ↔ OneEach js len p age email name) ∧
      (ShowsValues js len tk p age email name ↔ OneEach js len p age email name ∧
        (ownText js len p age).length ≤ 63 ∧ (ownText js len p email).length ≤ 63 ∧
        (ownText js len p name).length ≤ 63) := by
  obtain ⟨jsonAge, out, hout⟩ := h
  obtain ⟨p, age, email, name, hanswers⟩ := answers_of_returns hframe hout
  exact ⟨p, age, email, name, hanswers, showsCut_iff hanswers hframe,
    showsValues_iff hanswers hframe⟩

/-- A frame of this text, with zeros after it. -/
def frameOf (text : String) : Nat → UInt8 := fun i => (ascii text).getD i 0

/-- A token array of zeros. -/
def zeros : Nat → Tok := fun _ => ⟨.undefined, 0, 0, 0, 0⟩

theorem returns_of_fuel {js : Nat → UInt8} {tk : Nat → Tok} {jsonAge : Nat → UInt8} (n : Nat)
    {r : Int × List Output} (h : jsonDealCmd js tk jsonAge n = some r) :
    Returns (jsonDealCmd js tk jsonAge) r := (jsonDealCmd_settles tk jsonAge).returns h

/-- Three values of three kinds. -/
def answered : Nat → UInt8 := frameOf "\x7b\"age\":7,\"email\":\"e\",\"name\":[1]\x7d"

set_option maxRecDepth 4000 in
theorem values_shown_answered :
    FrameAt answered 32 ∧ ∃ p age email name, Answers answered 32 zeros p age email name ∧
      (ShowsCut answered 32 zeros p age email name ↔ OneEach answered 32 p age email name) ∧
      (ShowsValues answered 32 zeros p age email name ↔ OneEach answered 32 p age email name ∧
        (ownText answered 32 p age).length ≤ 63 ∧ (ownText answered 32 p email).length ≤ 63 ∧
        (ownText answered 32 p name).length ≤ 63) := by
  have hframe : FrameAt answered 32 := ⟨by decide, by decide⟩
  have hreturns : jsonDealCmd answered zeros (fun _ => 0) 64 =
      some (1, [line "age:" (ascii "7"), line "email:" (ascii "e"), line "name:" []]) := rfl
  exact ⟨hframe, values_shown_iff hframe zeros ⟨_, _, returns_of_fuel 64 hreturns⟩⟩

/-- An age key without a value. -/
def ageAlone : Nat → UInt8 := frameOf "\x7b\"age\",\"email\":\"e\",\"name\":\"n\"\x7d"

/-- An email key without a value. -/
def emailAlone : Nat → UInt8 := frameOf "\x7b\"age\":\"7\",\"email\",\"name\":\"n\"\x7d"

set_option maxRecDepth 4000 in
/-- The age line shows the stack, and the email line the value of the age. -/
theorem stale_lines :
    FrameAt ageAlone 30 ∧
      (∀ jsonAge, ∃ out, Returns (jsonDealCmd ageAlone zeros jsonAge) (1, out)) ∧
      (¬∃ p age email name, Answers ageAlone 30 zeros p age email name ∧
        ShowsCut ageAlone 30 zeros p age email name) ∧
      ∀ jsonAge, Returns (jsonDealCmd emailAlone zeros jsonAge)
        (1, [line "age:" (ascii "7"), line "email:" (ascii "7"), line "name:" (ascii "n")]) := by
  have hempty : jsonDealCmd ageAlone zeros (fun _ => 0) 64 =
      some (1, [line "age:" [], line "email:" (ascii "e"), line "name:" (ascii "n")]) := rfl
  have hother : jsonDealCmd ageAlone zeros (frameOf "x") 64 =
      some (1, [line "age:" (ascii "x"), line "email:" (ascii "e"), line "name:" (ascii "n")]) := rfl
  have hframe : FrameAt ageAlone 30 := ⟨by decide, by decide⟩
  refine ⟨hframe, fun jsonAge => ?_, ?_, fun jsonAge => ?_⟩
  · obtain ⟨p, age, email, name, hanswers⟩ := answers_of_returns hframe (returns_of_fuel 64 hempty)
    exact ⟨_, hanswers.lines hframe jsonAge⟩
  · rintro ⟨p, age, email, name, _, hshows⟩
    have hsame := (hshows _ _ (returns_of_fuel 64 hempty)).trans (hshows _ _ (returns_of_fuel 64 hother)).symm
    exact absurd hsame (by decide)
  · exact returns_of_fuel 64 rfl

end StmGateway.Json.Values
