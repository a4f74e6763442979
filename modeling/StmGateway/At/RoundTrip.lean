import Mathlib.Data.List.TakeWhile
import StmGateway.At.Delivery

/-!
# Settings read back

The module remembers under NAME what `AT+NAME="v1",...,"vn"` sets, and answers
`AT+NAME?` with it. A getter then returns what its setter was last called with:
the two agree on the name, on the texts of each value and on how they are
quoted. Two baud rates are the exception: 128000 is sent as 120000, and 19200 is
not among the texts that `atk_ide01_get_uart` knows.
-/
namespace StmGateway.At.RoundTrip

open StmGateway.Lib StmGateway.At.Parameter StmGateway.At.Setters StmGateway.At.Getters
open StmGateway.At.Link StmGateway.At.Delivery
open StmGateway.Uart.RxBuffer (RxFrame Holds holds_zero zero)

/-- What the module remembers under each name. -/
abbrev Store := List UInt8 → Option (List (List UInt8))

/-- The texts between quotes; the first argument is the one being read. -/
def quoted : Option (List UInt8) → List UInt8 → List (List UInt8)
  | _, [] => []
  | none, b :: rest => if b = 0x22 then quoted (some []) rest else quoted none rest
  | some v, b :: rest => if b = 0x22 then v :: quoted none rest else quoted (some (v ++ [b])) rest

/-- The module executes a command line `AT+NAME=...`. -/
def exec (store : Store) : List UInt8 → Store
  | 0x41 :: 0x54 :: 0x2b :: rest =>
    match rest.dropWhile (· ≠ 0x3d) with
    | _ :: args => Function.update store (rest.takeWhile (· ≠ 0x3d)) (some (quoted none args))
    | [] => store
  | _ => store

/-- A call of a setter, up to the module's execution of what it sends. A command
line that leaves its array has no result. -/
def issue (store : Store) (setter : Setter) : Option Store :=
  match setter.cmd with
  | .error _ => some store
  | .ok cmd => if cmd.text.length < cmd.size then some (exec store cmd.text) else none

/-- A string argument: free of quotes and line ends, and as long as documented. -/
def Text (limit : Nat) (v : List UInt8) : Prop :=
  v.length ≤ limit ∧ 0 ∉ v ∧ 0x22 ∉ v ∧ 0x0d ∉ v ∧ 0x0a ∉ v

/-- The arguments that the documentation of the setters allows. -/
def Documented : Setter → Prop
  | .netmask v | .gateway v | .dns v | .remoteip v | .staticip v | .multcastip v => Text 15 v
  | .localport v | .remoteport v | .xcomport v | .cloudport v | .multcastport v => Text 5 v
  | .mac v => Text 17 v
  | .moduname v => Text 49 v
  | .clouddomain v => Text 45 v
  | .atklinkpwd v => Text 8 v
  | .atkyundevid v => Text 20 v ∧ v.length = 20
  | .uartpacklen n => 1 ≤ n ∧ n ≤ 1450
  | _ => True

/-- What a setter sets. -/
inductive Item where
  | netmask | mac | gateway | ethmod | dns | localport | remoteport | remoteip | staticip | echo
  | dhcp | moduname | xcomport | uart | uartpacktime | uartpacklen | cloudlinken | cloudport
  | clouddomain | atklinkpwd | atkyundevid | multcastip | multcastport
  deriving DecidableEq

def item : Setter → Item
  | .netmask _ => .netmask
  | .mac _ => .mac
  | .gateway _ => .gateway
  | .ethmod _ => .ethmod
  | .dns _ => .dns
  | .localport _ => .localport
  | .remoteport _ => .remoteport
  | .remoteip _ => .remoteip
  | .staticip _ => .staticip
  | .echo _ => .echo
  | .dhcp _ => .dhcp
  | .moduname _ => .moduname
  | .xcomport _ => .xcomport
  | .uart .. => .uart
  | .uartpacktime _ => .uartpacktime
  | .uartpacklen _ => .uartpacklen
  | .cloudlinken _ => .cloudlinken
  | .cloudport _ => .cloudport
  | .clouddomain _ => .clouddomain
  | .atklinkpwd _ => .atklinkpwd
  | .atkyundevid _ => .atkyundevid
  | .multcastip _ => .multcastip
  | .multcastport _ => .multcastport

/-- The module's name for it. -/
def itemName : Item → String
  | .netmask => "NETMASK"
  | .mac => "MAC_ID"
  | .gateway => "GATEWAY"
  | .ethmod => "ETH_MOD"
  | .dns => "DNS_SERVER"
  | .localport => "LOCAL_PORT"
  | .remoteport => "REMOTE_PORT"
  | .remoteip => "REMOTEIP"
  | .staticip => "STATICIP"
  | .echo => "ECHO"
  | .dhcp => "DHCP"
  | .moduname => "MODUNAME"
  | .xcomport => "XCOM_PORT"
  | .uart => "UART"
  | .uartpacktime => "UART_PACKTIME"
  | .uartpacklen => "UART_PACKLEN"
  | .cloudlinken => "CLOUD_LINK_EN"
  | .cloudport => "CLOUD_PORT"
  | .clouddomain => "COLUD_DOMAIN"
  | .atklinkpwd => "ATKLINKPWD"
  | .atkyundevid => "ATKYUNDEVID"
  | .multcastip => "MULTCAST_IP"
  | .multcastport => "MULTCAST_PORT"

def name (setter : Setter) : List UInt8 := ascii (itemName (item setter))

/-- The values a setter puts between quotes. -/
def sentValues : Setter → List (List UInt8)
  | .ethmod e => [ascii (ethmodText e)]
  | .echo e => [ascii (echoText e)]
  | .dhcp e => [ascii (dhcpText e)]
  | .uart b s d p =>
    [ascii (baudrateText b), ascii (stopText s), ascii (dataText d), ascii (parityText p)]
  | .uartpacktime n | .uartpacklen n => [decimal n.toNat]
  | .cloudlinken e => [ascii (cloudlinkText e)]
  | .netmask v | .mac v | .gateway v | .dns v | .localport v | .remoteport v | .remoteip v
  | .staticip v | .moduname v | .xcomport v | .cloudport v | .clouddomain v | .atklinkpwd v
  | .atkyundevid v | .multcastip v | .multcastport v => [v]

theorem ascii_injective_itemName {i j : Item} (h : ascii (itemName i) = ascii (itemName j)) :
    i = j := by
  revert h
  cases i <;> cases j <;> decide

theorem equals_itemName (i : Item) : 0x3d ∉ ascii (itemName i) := by
  cases i <;> decide

theorem quoted_separator {text rest : List UInt8} (h : 0x22 ∉ text) :
    quoted none (text ++ 0x22 :: rest) = quoted (some []) rest := by
  induction text with
  | nil => simp [quoted]
  | cons b text ih =>
    simp only [List.mem_cons, not_or] at h
    rw [List.cons_append, quoted, if_neg (Ne.symm h.1)]
    exact ih h.2

theorem quoted_value {v rest : List UInt8} (h : 0x22 ∉ v) (start : List UInt8) :
    quoted (some start) (v ++ 0x22 :: rest) = (start ++ v) :: quoted none rest := by
  induction v generalizing start with
  | nil => simp [quoted]
  | cons b v ih =>
    simp only [List.mem_cons, not_or] at h
    rw [List.cons_append, quoted, if_neg (Ne.symm h.1), ih h.2]
    simp

/-- What is put between quotes is read back. -/
theorem quoted_params {ps : List (List UInt8 × List UInt8)}
    (h : ∀ p ∈ ps, 0x22 ∉ p.1 ∧ 0x22 ∉ p.2) :
    quoted none (ps.flatMap field) = ps.map Prod.snd := by
  induction ps with
  | nil => rfl
  | cons p ps ih =>
    obtain ⟨hsep, hval⟩ := h p List.mem_cons_self
    rw [List.flatMap_cons, field, List.append_assoc, List.append_assoc, List.cons_append,
      quoted_separator hsep, List.singleton_append, quoted_value hval, List.nil_append,
      ih fun q hq => h q (List.mem_cons_of_mem _ hq)]
    rfl

/-- Values with their quotes and the commas between them. -/
def rendered : List (List UInt8) → List (List UInt8 × List UInt8)
  | [] => []
  | v :: vs => ([], v) :: vs.map fun v => ([0x2c], v)

theorem rendered_values (vs : List (List UInt8)) : (rendered vs).map Prod.snd = vs := by
  cases vs with
  | nil => rfl
  | cons v vs => simp [rendered, Function.comp_def]

theorem rendered_quotes {vs : List (List UInt8)} (h : ∀ v ∈ vs, 0x22 ∉ v) :
    ∀ p ∈ rendered vs, 0x22 ∉ p.1 ∧ 0x22 ∉ p.2 := by
  cases vs with
  | nil => simp [rendered]
  | cons v vs =>
    simp only [List.forall_mem_cons] at h
    simp only [rendered, List.forall_mem_cons, List.forall_mem_map]
    exact ⟨⟨List.not_mem_nil, h.1⟩, fun w hw => ⟨by decide, h.2 w hw⟩⟩

/-- The module takes a command line apart as it was put together. -/
theorem exec_rendered (store : Store) (i : Item) {vs : List (List UInt8)} (h : ∀ v ∈ vs, 0x22 ∉ v) :
    exec store (ascii "AT+" ++ ascii (itemName i) ++ 0x3d :: (rendered vs).flatMap field) =
      Function.update store (ascii (itemName i)) (some vs) := by
  have hpos : ∀ b ∈ ascii (itemName i), decide (b ≠ 0x3d) = true := by
    intro b hb
    rw [decide_eq_true_iff]
    rintro rfl
    exact equals_itemName i hb
  have hline : ascii "AT+" ++ ascii (itemName i) ++ 0x3d :: (rendered vs).flatMap field =
      0x41 :: 0x54 :: 0x2b ::
        (ascii (itemName i) ++ 0x3d :: (rendered vs).flatMap field) := rfl
  rw [hline, exec, List.dropWhile_append_of_pos hpos, List.takeWhile_append_of_pos hpos]
  simp [quoted_params (rendered_quotes h), rendered_values]

theorem textCmd_text (size : Nat) {n : String} {i : Item} (v : List UInt8)
    (hname : ascii n = ascii "AT+" ++ ascii (itemName i)) :
    (textCmd size n v).text =
      ascii "AT+" ++ ascii (itemName i) ++ 0x3d :: (rendered [v]).flatMap field := by
  simp [textCmd, hname, rendered, field]

theorem textCmd_length {size : Nat} {n : String} {v : List UInt8} {limit : Nat}
    (hv : v.length ≤ limit) (hsize : (ascii n).length + limit + 3 < size) :
    (textCmd size n v).text.length < (textCmd size n v).size := by
  simp only [textCmd, List.length_append, List.length_cons, List.length_nil]
  omega

theorem decimal_length_uint16 (n : UInt16) : (decimal n.toNat).length ≤ 5 :=
  decimal_length (by decide) (n.toNat_lt.trans (by decide))

theorem uart_length (b : Baudrate) (s : StopBits) (d : DataBits) (p : Parity) :
    (ascii (baudrateText b)).length ≤ 6 ∧ (ascii (stopText s)).length = 1 ∧
      (ascii (dataText d)).length = 1 ∧ (ascii (parityText p)).length ≤ 4 := by
  refine ⟨?_, ?_, ?_, ?_⟩
  · cases b <;> decide
  · cases s <;> decide
  · cases d
    decide
  · cases p <;> decide

/-- The four values of `atk_ide01_set_uart`. -/
theorem uart_text (b s d p : List UInt8) :
    ascii "AT+UART=\"" ++ b ++ ascii "\",\"" ++ s ++ ascii "\",\"" ++ d ++ ascii "\",\"" ++ p ++
        ascii "\"" =
      ascii "AT+" ++ ascii "UART" ++ 0x3d :: (rendered [b, s, d, p]).flatMap field := by
  have hstart : ascii "AT+UART=\"" = ascii "AT+" ++ ascii "UART" ++ [0x3d, 0x22] := rfl
  have hcomma : ascii "\",\"" = [0x22, 0x2c, 0x22] := rfl
  have hend : ascii "\"" = [0x22] := rfl
  rw [hstart, hcomma, hend]
  simp [rendered, field]

/-- The command line of a setter says its values under its name. -/
theorem cmd_text {setter : Setter} (h : Documented setter) :
    ∃ cmd, setter.cmd = .ok cmd ∧ cmd.text.length < cmd.size ∧
      cmd.text = ascii "AT+" ++ name setter ++ 0x3d :: (rendered (sentValues setter)).flatMap field := by
  cases setter with
  | ethmod e => exact ⟨_, rfl, by cases e <;> decide, textCmd_text 27 _ (by simp only [item]; decide)⟩
  | echo e => exact ⟨_, rfl, by cases e <;> decide, textCmd_text 14 _ (by simp only [item]; decide)⟩
  | dhcp e => exact ⟨_, rfl, by cases e <;> decide, textCmd_text 14 _ (by simp only [item]; decide)⟩
  | cloudlinken e => exact ⟨_, rfl, by cases e <;> decide, textCmd_text 23 _ (by simp only [item]; decide)⟩
  | uart b s d p =>
    refine ⟨_, rfl, ?_, uart_text _ _ _ _⟩
    obtain ⟨hb, hs, hd, hp⟩ := uart_length b s d p
    have hstart : (ascii "AT+UART=\"").length = 9 := rfl
    have hcomma : (ascii "\",\"").length = 3 := rfl
    have hend : (ascii "\"").length = 1 := rfl
    simp only [List.length_append]
    omega
  | uartpacktime n =>
    exact ⟨_, rfl, textCmd_length (decimal_length_uint16 n) (by decide),
      textCmd_text 25 _ (by simp only [item]; decide)⟩
  | uartpacklen n =>
    obtain ⟨hlow, hhigh⟩ := h
    have hrange : ¬ (n < 1 ∨ n > 1450) := by
      rw [not_or, UInt16.not_lt, gt_iff_lt, UInt16.not_lt]
      exact ⟨hlow, hhigh⟩
    refine ⟨_, if_neg hrange, ?_, textCmd_text 24 _ (by simp only [item]; decide)⟩
    apply textCmd_length (decimal_length (k := 4) (by decide) _) (by decide)
    have : n.toNat ≤ 1450 := UInt16.le_iff_toNat_le.mp hhigh
    omega
  | atkyundevid v =>
    obtain ⟨hv, hlen⟩ := h
    refine ⟨_, if_neg (not_not.mpr hlen), ?_, textCmd_text 38 _ (by simp only [item]; decide)⟩
    exact textCmd_length hv.1 (by decide)
  | _ => exact ⟨_, rfl, textCmd_length h.1 (by decide), textCmd_text _ _ (by simp only [item]; decide)⟩

theorem decimal_quote (n : Nat) : 0x22 ∉ decimal n := by
  intro h
  have := (mem_decimal h).1
  revert this
  decide

theorem sentValues_quotes {setter : Setter} (h : Documented setter) :
    ∀ v ∈ sentValues setter, 0x22 ∉ v := by
  cases setter with
  | ethmod e => cases e <;> decide
  | echo e => cases e <;> decide
  | dhcp e => cases e <;> decide
  | cloudlinken e => cases e <;> decide
  | uart b s d p =>
    have hb : 0x22 ∉ ascii (baudrateText b) := by cases b <;> decide
    have hs : 0x22 ∉ ascii (stopText s) := by cases s <;> decide
    have hd : 0x22 ∉ ascii (dataText d) := by cases d; decide
    have hp : 0x22 ∉ ascii (parityText p) := by cases p <;> decide
    simp [sentValues, hb, hs, hd, hp]
  | uartpacktime n => simp [sentValues, decimal_quote]
  | uartpacklen n => simp [sentValues, decimal_quote]
  | atkyundevid v => simpa [sentValues] using h.1.2.2.1
  | _ => simpa [sentValues] using h.2.2.1

/-- A documented call is remembered. -/
theorem issue_documented {setter : Setter} (h : Documented setter) (store : Store) :
    issue store setter = some (Function.update store (name setter) (some (sentValues setter))) := by
  obtain ⟨cmd, hcmd, hsize, htext⟩ := cmd_text h
  rw [issue, hcmd]
  simp only [if_pos hsize]
  rw [htext, name, exec_rendered store _ (sentValues_quotes h)]

/-- Calls of other setters leave what is remembered. -/
theorem issue_others {setters : List Setter} {i : Item} (hdoc : ∀ t ∈ setters, Documented t)
    (hother : ∀ t ∈ setters, item t ≠ i) (store : Store) :
    ∃ store', setters.foldlM issue store = some store' ∧
      store' (ascii (itemName i)) = store (ascii (itemName i)) := by
  induction setters generalizing store with
  | nil => exact ⟨store, rfl, rfl⟩
  | cons t setters ih =>
    simp only [List.forall_mem_cons] at hdoc hother
    obtain ⟨store', hfold, hkept⟩ := ih hdoc.2 hother.2
      (Function.update store (name t) (some (sentValues t)))
    refine ⟨store', ?_, ?_⟩
    · rw [List.foldlM_cons, issue_documented hdoc.1]
      exact hfold
    · rw [hkept, Function.update_of_ne]
      exact fun heq => hother.1 (ascii_injective_itemName heq).symm

theorem issue_all {setters : List Setter} (hdoc : ∀ t ∈ setters, Documented t) (store : Store) :
    ∃ store', setters.foldlM issue store = some store' := by
  induction setters generalizing store with
  | nil => exact ⟨store, rfl⟩
  | cons t setters ih =>
    simp only [List.forall_mem_cons] at hdoc
    rw [List.foldlM_cons, issue_documented hdoc.1]
    exact ih hdoc.2 _

/-- The last call of a setter is what is remembered under its name. -/
theorem issue_last {earlier later : List Setter} {setter : Setter}
    (hdoc : ∀ t ∈ earlier ++ setter :: later, Documented t)
    (hlast : ∀ t ∈ later, item t ≠ item setter) (store : Store) :
    ∃ store', (earlier ++ setter :: later).foldlM issue store = some store' ∧
      store' (name setter) = some (sentValues setter) := by
  simp only [List.forall_mem_append, List.forall_mem_cons] at hdoc
  obtain ⟨hbefore, hsetter, hafter⟩ := hdoc
  obtain ⟨store₁, hearlier⟩ := issue_all hbefore store
  obtain ⟨store₂, hlater, hkept⟩ := issue_others hafter hlast
    (Function.update store₁ (name setter) (some (sentValues setter)))
  refine ⟨store₂, ?_, ?_⟩
  · rw [List.foldlM_append, hearlier]
    change (setter :: later).foldlM issue store₁ = some store₂
    rw [List.foldlM_cons, issue_documented hsetter]
    exact hlater
  · rw [name, hkept]
    exact Function.update_self _ _ _

/-- What the matching query of a setter returns on success. The caller of
`atk_ide01_get_uart` asks for at least one of the four values. -/
inductive ReadBack : Setter → (q : Query) → q.Out → Prop
  | netmask (v) : ReadBack (.netmask v) (.netmask true) (some (storedText v))
  | gateway (v) : ReadBack (.gateway v) (.gateway true) (some (storedText v))
  | ethmod (e) : ReadBack (.ethmod e) (.ethmod true) (some e)
  | dns (v) : ReadBack (.dns v) (.dns true) (some (storedText v))
  | localport (v) : ReadBack (.localport v) (.localport true) (some (storedText v))
  | remoteport (v) : ReadBack (.remoteport v) (.remoteport true) (some (storedText v))
  | staticip (v) : ReadBack (.staticip v) (.staticip true) (some (storedText v))
  | echo (e) : ReadBack (.echo e) (.echo true) (some e)
  | dhcp (e) : ReadBack (.dhcp e) (.dhcp true) (some e)
  | xcomport (v) : ReadBack (.xcomport v) (.xcomport true) (some (storedText v))
  | uart (b s d p) (baudrate stop data parity : Bool)
    (hwanted : ¬ (baudrate = false ∧ stop = false ∧ data = false ∧ parity = false)) :
    ReadBack (.uart b s d p) (.uart baudrate stop data parity)
      (UartOut.mk (if baudrate then some b else none) (if stop then some s else none)
        (if data then some d else none) (if parity then some p else none))
  | uartpacktime (n) : ReadBack (.uartpacktime n) (.uartpacktime true) (some n)
  | uartpacklen (n) : ReadBack (.uartpacklen n) (.uartpacklen true) (some n)
  | cloudlinken (e) : ReadBack (.cloudlinken e) (.cloudlinken true) (some e)
  | cloudport (v) : ReadBack (.cloudport v) (.cloudport true) (some (storedText v))
  | clouddomain (v) : ReadBack (.clouddomain v) (.clouddomain true) (some (storedText v))
  | atklinkpwd (v) : ReadBack (.atklinkpwd v) (.atklinkpwd true) (some (storedText v))
  | atkyundevid (v) : ReadBack (.atkyundevid v) (.atkyundevid true) (some (storedText v))
  | multcastip (v) : ReadBack (.multcastip v) (.multcastip true) (some (storedText v))
  | multcastport (v) : ReadBack (.multcastport v) (.multcastport true) (some (storedText v))

/-- A baud rate that is asked for and whose text `atk_ide01_get_uart` does not
know. -/
def Drifted : Setter → Query → Prop
  | .uart b _ _ _, .uart true _ _ _ => b = .b19200 ∨ b = .b128000
  | _, _ => False

/-- The query for what a setter sets. -/
def asked (i : Item) : List UInt8 := ascii "AT+" ++ ascii (itemName i) ++ ascii "?"

variable {send : Send} {stack : Stack} {fuel size : Nat} {n : String} {i : Item} {β : Type}

theorem queryOne_sent {decode : List UInt8 → Option (Status × Option β)} {v : List UInt8}
    (hn : ascii n = asked i) (h : Delivers (send (asked i)) stack fuel [v]) :
    queryOne send (queryCmd size n) 1 stack fuel decode = decode v := by
  have hsent : Delivers (send (queryCmd size n).text) stack fuel [v] := by
    rw [← hn] at h
    exact h
  exact queryOne_delivered 1 0 rfl hsent (by simp)

theorem getText_sent {v : List UInt8} (hn : ascii n = asked i)
    (h : Delivers (send (asked i)) stack fuel [v]) :
    getText (queryCmd size n) send stack fuel true = some (.eok, some (storedText v)) := by
  rw [getText, if_neg (by decide)]
  exact queryOne_sent hn h

theorem getEnum_sent {room : Nat} {table : List (String × β)} {v : List UInt8} {e : β}
    (hn : ascii n = asked i) (h : Delivers (send (asked i)) stack fuel [v])
    (hmatch : matchText room table v = some (.eok, some e)) :
    getEnum room table (queryCmd size n) send stack fuel true = some (.eok, some e) :=
  (queryOne_sent hn h).trans hmatch

/-- A number comes back through `%d` and `atoi`. -/
theorem numberText_decimal (m : UInt16) :
    numberText 6 (decimal m.toNat) = some (.eok, some m) := by
  have hlen : (decimal m.toNat).length < 6 := by
    have := decimal_length_uint16 m
    omega
  have hnul : (decimal m.toNat).takeWhile (· ≠ 0) = decimal m.toNat := by
    rw [List.takeWhile_eq_self_iff]
    intro b hb
    have := (mem_decimal hb).1
    rw [decide_eq_true_iff]
    rintro rfl
    revert this
    decide
  have hback : UInt16.ofInt (m.toNat : Int) = m := by
    apply UInt16.toNat_inj.mp
    have := m.toNat_lt
    rw [UInt16.ofInt, UInt16.toNat_ofNat']
    omega
  rw [numberText, localText, if_pos hlen, hnul]
  simp only [Option.bind_eq_bind, Option.bind_some, Option.pure_def, atoi_decimal, hback]

theorem getNumber_sent {m : UInt16} (hn : ascii n = asked i)
    (h : Delivers (send (asked i)) stack fuel [decimal m.toNat]) :
    getNumber 6 (queryCmd size n) send stack fuel true = some (.eok, some m) :=
  (queryOne_sent hn h).trans (numberText_decimal m)

theorem matchText_stop (s : StopBits) :
    matchText 2 stopTable (ascii (stopText s)) = some (.eok, some s) := by
  cases s <;> decide

theorem matchText_data (d : DataBits) :
    matchText 2 dataTable (ascii (dataText d)) = some (.eok, some d) := by
  cases d
  decide

theorem matchText_parity (p : Parity) :
    matchText 5 parityTable (ascii (parityText p)) = some (.eok, some p) := by
  cases p <;> decide

/-- Of the baud rates two are not read back. -/
theorem matchText_baudrate (b : Baudrate) :
    matchText 7 baudrateTable (ascii (baudrateText b)) =
      if b = .b19200 ∨ b = .b128000 then some (.error, none) else some (.eok, some b) := by
  cases b <;> decide

variable {buf : Nat → UInt8} {values : List (List UInt8)}

theorem uartField_sent {room : Nat} {dst : Bool} {table : List (String × β)} {e : β}
    (num : UInt8) (i : Nat) (hnum : num = UInt8.ofNat (i + 1))
    (hcopy : ∀ i, (hi : i < values.length) →
      copyParameter buf (UInt8.ofNat (i + 1)) stack fuel = some (.eok, values[i]))
    (hi : i < values.length)
    (hmatch : matchText room table (values.getD i []) = some (.eok, some e)) :
    uartField buf stack fuel dst num room table = some (.eok, if dst then some e else none) := by
  rw [uartField_delivered num i hnum hcopy fun _ => hi, hmatch]
  cases dst <;> rfl

/-- The four values of `atk_ide01_get_uart`, or the error at a baud rate that is
not read back. -/
theorem getUart_sent {b : Baudrate} {s : StopBits} {d : DataBits} {p : Parity}
    {baudrate stop data parity : Bool}
    (hwanted : ¬ (baudrate = false ∧ stop = false ∧ data = false ∧ parity = false))
    (h : Delivers (send (asked .uart)) stack fuel (sentValues (.uart b s d p))) :
    atkIde01GetUart send stack fuel baudrate stop data parity =
      if baudrate = true ∧ (b = .b19200 ∨ b = .b128000) then
        some (.error, ⟨none, none, none, none⟩)
      else
        some (.eok, ⟨if baudrate then some b else none, if stop then some s else none,
          if data then some d else none, if parity then some p else none⟩) := by
  obtain ⟨buf, hsend, hcopy⟩ := h
  rw [show asked .uart = ascii "AT+UART?" by decide] at hsend
  have hlen : (sentValues (.uart b s d p)).length = 4 := rfl
  have hbaud : uartField buf stack fuel baudrate 1 7 baudrateTable =
      if baudrate = true ∧ (b = .b19200 ∨ b = .b128000) then some (.error, none)
      else some (.eok, if baudrate then some b else none) := by
    rw [uartField_delivered 1 0 rfl hcopy fun _ => hlen ▸ (by decide)]
    change (if baudrate then matchText 7 baudrateTable (ascii (baudrateText b)) else _) = _
    rw [matchText_baudrate]
    cases baudrate <;> simp
  have hstop : uartField buf stack fuel stop 2 2 stopTable =
      some (.eok, if stop then some s else none) :=
    uartField_sent 2 1 rfl hcopy (hlen ▸ by decide) (matchText_stop s)
  have hdata : uartField buf stack fuel data 3 2 dataTable =
      some (.eok, if data then some d else none) :=
    uartField_sent 3 2 rfl hcopy (hlen ▸ by decide) (matchText_data d)
  have hparity : uartField buf stack fuel parity 4 5 parityTable =
      some (.eok, if parity then some p else none) :=
    uartField_sent 4 3 rfl hcopy (hlen ▸ by decide) (matchText_parity p)
  rw [atkIde01GetUart, if_neg hwanted]
  by_cases hdrift : baudrate = true ∧ (b = .b19200 ∨ b = .b128000)
  · rw [if_pos hdrift] at hbaud ⊢
    simp only [query, queryCmd, hsend, hbaud, Option.bind_eq_bind, Option.bind_some]
    rfl
  · rw [if_neg hdrift] at hbaud ⊢
    simp only [query, queryCmd, hsend, hbaud, hstop, hdata, hparity, Option.bind_eq_bind,
      Option.bind_some]
    rfl

/-- What a query returns when its setter's values were delivered. -/
theorem setter_run_sent {setter : Setter} {q : Query} {value : q.Out} (hback : ReadBack setter q value)
    (h : Delivers (send (asked (item setter))) stack fuel (sentValues setter)) :
    (¬ Drifted setter q → q.run send stack fuel = some (.eok, value)) ∧
      (Drifted setter q → ∃ out, q.run send stack fuel = some (.error, out)) := by
  cases hback with
  | uart b s d p baudrate stop data parity hwanted =>
    have hrun := getUart_sent hwanted h
    cases baudrate with
    | false =>
      rw [if_neg (by simp)] at hrun
      exact ⟨fun _ => hrun, False.elim⟩
    | true =>
      refine ⟨fun hdrift => ?_, fun hdrift => ?_⟩
      · rwa [if_neg fun hboth => hdrift hboth.2] at hrun
      · rw [if_pos ⟨rfl, hdrift⟩] at hrun
        exact ⟨_, hrun⟩
  | ethmod e =>
    refine ⟨fun _ => getEnum_sent (by simp only [item]; decide) h ?_, False.elim⟩
    cases e <;> decide
  | echo e =>
    refine ⟨fun _ => getEnum_sent (by simp only [item]; decide) h ?_, False.elim⟩
    cases e <;> decide
  | dhcp e =>
    refine ⟨fun _ => getEnum_sent (by simp only [item]; decide) h ?_, False.elim⟩
    cases e <;> decide
  | cloudlinken e =>
    refine ⟨fun _ => getEnum_sent (by simp only [item]; decide) h ?_, False.elim⟩
    cases e <;> decide
  | uartpacktime m => exact ⟨fun _ => getNumber_sent (by simp only [item]; decide) h, False.elim⟩
  | uartpacklen m => exact ⟨fun _ => getNumber_sent (by simp only [item]; decide) h, False.elim⟩
  | _ => exact ⟨fun _ => getText_sent (by simp only [item]; decide) h, False.elim⟩

/-- The module answers a query in one burst: an echo perhaps, then the name and
what it remembers. -/
structure Replies (i : Item) (values : List (List UInt8)) (events : List Event) : Prop where
  burst : ∃ (a : Answer) (before : List Event) (echo : List UInt8),
    a.lead = echo ++ ascii (itemName i) ∧ a.params = rendered values ∧ Brings a before events ∧
      .idle ∉ before

/-- Such an answer delivers the values. -/
theorem Replies.delivers {f : RxFrame} {received : List UInt8} {line : List UInt8 → List Event}
    (h : Replies i values (line (asked i))) (hf : Holds f received) (stack : Stack) :
    ∃ bound, ∀ fuel, bound ≤ fuel → Delivers (sendVia f line (asked i)) stack fuel values := by
  obtain ⟨a, before, _, _, hparams, hbrings, hburst⟩ := h.burst
  have hclean : Undisturbed 0 a.core.length 0 false (line (asked i)) := by
    obtain ⟨after, hsplit⟩ := hbrings.split
    rw [hsplit]
    apply burst_undisturbed hburst
    rw [hbrings.arrived_eq, Nat.zero_add]
    exact a.core_le
  have hvalues : a.values = values := by
    rw [Answer.values, hparams, rendered_values]
  rw [← hvalues]
  exact delivers_undisturbed (quiet_zero a) hf hbrings hclean stack

/-- After any sequence of documented calls each query returns exactly the value
that its setter was last called with, unless that is a baud rate of 19200 or
128000 and the query asks for it. -/
theorem last_set_returned_iff {earlier later : List Setter} {setter : Setter} {q : Query}
    {value : q.Out} (hdoc : ∀ t ∈ earlier ++ setter :: later, Documented t)
    (hlast : ∀ t ∈ later, item t ≠ item setter) (hback : ReadBack setter q value) (store : Store) :
    ∃ store', (earlier ++ setter :: later).foldlM issue store = some store' ∧
      ∀ (f : RxFrame) (received : List UInt8) (line : List UInt8 → List Event) (stack : Stack),
        Holds f received →
        (∀ values, store' (name setter) = some values →
          Replies (item setter) values (line (asked (item setter)))) →
        (Returns (q.run (sendVia f line) stack) (.eok, value) ↔ ¬ Drifted setter q) := by
  obtain ⟨store', hfold, hstored⟩ := issue_last hdoc hlast store
  refine ⟨store', hfold, fun f received line stack hf hline => ?_⟩
  obtain ⟨bound, hbound⟩ := (hline _ hstored).delivers hf stack
  constructor
  · intro hret hdrift
    obtain ⟨n, hn⟩ := hret
    obtain ⟨out, hrun⟩ :=
      (setter_run_sent hback (hbound (max bound n) (Nat.le_max_left _ _))).2 hdrift
    have heok := hn (max bound n) (Nat.le_max_right _ _)
    simp [hrun] at heok
  · intro hdrift
    exact ⟨bound, fun fuel hle => (setter_run_sent hback (hbound fuel hle)).1 hdrift⟩

/-- An answer without an echo. -/
def plainAnswer (name : String) (values : List (List UInt8))
    (nul : 0 ∉ render (ascii name) (rendered values) (ascii "\r\n") (ascii "\r\n"))
    (equals : 0x3d ∉ ascii name) (quotes : ∀ p ∈ rendered values, 0x22 ∉ p.1 ∧ 0x22 ∉ p.2)
    (room : (render (ascii name) (rendered values) (ascii "\r\n") (ascii "\r\n")).length ≤ 255) :
    Answer :=
  ⟨ascii name, rendered values, ascii "\r\n", ascii "\r\n", nul, equals, quotes, room⟩

/-- A netmask, set between two other calls. -/
theorem netmask_returned :
    ∃ store', [.uart .b115200 .stop1 .data8 .none, .netmask (ascii "255.255.255.0"),
        .echo .off].foldlM issue (fun _ => none) = some store' ∧
      Returns (fun fuel => Query.run (sendVia zero fun _ =>
          burst "NETMASK=\"255.255.255.0\"\r\nOK\r\n" ++ [.idle, .poll]) (fun _ => (0, 0)) fuel
        (.netmask true)) (.eok, some (storedText (ascii "255.255.255.0"))) := by
  have hnetmask : Documented (.netmask (ascii "255.255.255.0")) :=
    ⟨by decide, by decide, by decide, by decide, by decide⟩
  have hdoc : ∀ t ∈ [.uart .b115200 .stop1 .data8 .none] ++ .netmask (ascii "255.255.255.0") ::
      [.echo .off], Documented t := by
    simp only [List.forall_mem_append, List.forall_mem_cons]
    exact ⟨⟨trivial, nofun⟩, hnetmask, trivial, nofun⟩
  obtain ⟨store', hfold, hreturns⟩ :=
    last_set_returned_iff hdoc (by simp [item]) (.netmask (ascii "255.255.255.0")) fun _ => none
  have hstored : store' (ascii "NETMASK") = some [ascii "255.255.255.0"] := by
    cases hfold
    rfl
  refine ⟨store', hfold, (hreturns zero [] _ _ holds_zero fun values hvalues => ?_).mpr id⟩
  obtain rfl := Option.some.inj (hstored.symm.trans hvalues)
  refine ⟨plainAnswer "NETMASK" [ascii "255.255.255.0"] (by decide) (by decide) (by decide)
    (by decide), burst "NETMASK=\"255.255.255.0\"\r\nOK\r\n", [], rfl, rfl,
    ⟨⟨[], rfl⟩, rfl, by decide⟩, ?_⟩
  intro h
  simp [burst] at h

/-- The module remembers 120000 for 128000, which is none of the texts that
`atk_ide01_get_uart` knows. -/
theorem baudrate_not_returned :
    ∃ store' line, issue (fun _ => none) (.uart .b128000 .stop1 .data8 .none) = some store' ∧
      (∀ values, store' (ascii "UART") = some values → Replies .uart values line) ∧
      (Query.run (sendVia zero fun _ => line) (fun _ => (0, 0)) 300
        (.uart true true true true)).map Prod.fst = some .error := by
  refine ⟨_, burst "UART=\"120000\",\"1\",\"8\",\"NONE\"\r\nOK\r\n" ++ [Event.idle, Event.poll], rfl,
    fun values hvalues => ?_, by decide⟩
  have hstored : Function.update (fun _ => none) (ascii "UART")
      (some [ascii "120000", ascii "1", ascii "8", ascii "NONE"]) (ascii "UART") =
      some [ascii "120000", ascii "1", ascii "8", ascii "NONE"] := Function.update_self _ _ _
  obtain rfl := Option.some.inj (hstored.symm.trans hvalues)
  refine ⟨plainAnswer "UART" [ascii "120000", ascii "1", ascii "8", ascii "NONE"] (by decide)
    (by decide) (by decide) (by decide),
    burst "UART=\"120000\",\"1\",\"8\",\"NONE\"\r\nOK\r\n", [], rfl, rfl,
    ⟨⟨[], rfl⟩, rfl, by decide⟩, ?_⟩
  intro h
  simp [burst] at h

end StmGateway.At.RoundTrip
