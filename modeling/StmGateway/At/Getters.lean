import StmGateway.At.Setters

/-!
# The AT queries

Each getter of `atk_net.c` sends a query, waits for the answer and decodes
parameters of the frame with `atk_ide01_get_parameter`. A text goes to the
caller's array, anything else through a local array that is compared or
converted; a copy that leaves a local array has no result. What a getter writes
through its pointers is part of its result, `none` where it writes nothing.
-/
namespace StmGateway.At.Getters

open StmGateway.Lib StmGateway.At.Parameter StmGateway.At.Setters

inductive Netlksta where
  | on
  | off
  deriving DecidableEq

/-- `atk_ide01_send_at_cmd` with "OK" and the timeout: its status, and the frame
buffer that `atk_ide01_uart_rx_get_frame` then gives. -/
abbrev Send := List UInt8 → Option (Status × (Nat → UInt8))

/-- What `atk_ide01_get_parameter` finds in its uninitialised local variables,
for each parameter number. -/
abbrev Stack := UInt8 → UInt16 × UInt16

/-- Bytes stored in a caller's array, by index. -/
abbrev Stored := Nat → Option UInt8

/-- The stores of a text and its terminator. -/
def storedText (text : List UInt8) : Stored := fun j => (text ++ [0])[j]?

/-- Parameter `num` of the frame: the status and the bytes the callers copy. -/
def copyParameter (buf : Nat → UInt8) (num : UInt8) (stack : Stack) (fuel : Nat) :
    Option (Status × List UInt8) := do
  let (ret, index, len) ← atkIde01GetParameter buf num (some 0) (some 0) (stack num).1 (stack num).2
    fuel
  match index, len with
  | some index, some len => return (ret, slice buf index.toNat len.toNat)
  | _, _ => none

theorem copyParameter_of_get {buf : Nat → UInt8} {num : UInt8} {stack : Stack} {ret : Status}
    {index len : UInt16} (h : Returns (atkIde01GetParameter buf num (some 0) (some 0) (stack num).1
      (stack num).2) (ret, some index, some len)) :
    Returns (copyParameter buf num stack) (ret, slice buf index.toNat len.toNat) := by
  apply (h.bind (fun r _ => match r.2.1, r.2.2 with
    | some index, some len => some (r.1, slice buf index.toNat len.toNat)
    | _, _ => none) (Returns.pure _)).congr
  exact fun fuel => rfl

/-- A parameter in a local array of `size` bytes, read back as a C string. -/
def localText (size : Nat) (text : List UInt8) : Option (List UInt8) :=
  if text.length < size then some (text.takeWhile (· ≠ 0)) else none

/-- The query, and on success the frame. -/
def query {β : Type} (send : Send) (cmd : Cmd) (untouched : β)
    (parse : (Nat → UInt8) → Option (Status × β)) : Option (Status × β) := do
  let (ret, buf) ← send cmd.text
  if ret ≠ .eok then return (.error, untouched) else parse buf

/-- One parameter, decoded by `decode` into what is written. -/
def queryOne {β : Type} (send : Send) (cmd : Cmd) (num : UInt8) (stack : Stack) (fuel : Nat)
    (decode : List UInt8 → Option (Status × Option β)) : Option (Status × Option β) :=
  query send cmd none fun buf => do
    let (ret, text) ← copyParameter buf num stack fuel
    if ret ≠ .eok then return (.error, none) else decode text

/-- A getter that copies parameter 1 to the caller's array. -/
def getText (cmd : Cmd) (send : Send) (stack : Stack) (fuel : Nat) (dst : Bool) :
    Option (Status × Option Stored) :=
  if dst = false then some (.einval, none)
  else queryOne send cmd 1 stack fuel fun text => some (.eok, some (storedText text))

/-- The value a table gives a text, if it has one. -/
def lookup {β : Type} (table : List (String × β)) (text : List UInt8) : Option β :=
  (table.find? fun entry => ascii entry.1 = text).map Prod.snd

/-- A chain of `rt_strcmp` against a local array of `size` bytes. -/
def matchText {β : Type} (size : Nat) (table : List (String × β)) (text : List UInt8) :
    Option (Status × Option β) := do
  let text ← localText size text
  match lookup table text with
  | some value => return (.eok, some value)
  | none => return (.error, none)

/-- A getter of an enumeration. -/
def getEnum {β : Type} (size : Nat) (table : List (String × β)) (cmd : Cmd) (send : Send)
    (stack : Stack) (fuel : Nat) (dst : Bool) : Option (Status × Option β) :=
  if dst = false then some (.einval, none)
  else queryOne send cmd 1 stack fuel (matchText size table)

/-- `(rt_uint16_t)atoi` of a local array of `size` bytes. -/
def numberText (size : Nat) (text : List UInt8) : Option (Status × Option UInt16) := do
  let text ← localText size text
  return (.eok, some (UInt16.ofInt (atoi text)))

/-- A getter of a number. -/
def getNumber (size : Nat) (cmd : Cmd) (send : Send) (stack : Stack) (fuel : Nat) (dst : Bool) :
    Option (Status × Option UInt16) :=
  if dst = false then some (.einval, none)
  else queryOne send cmd 1 stack fuel (numberText size)

def queryCmd (size : Nat) (text : String) : Cmd := ⟨size, ascii text⟩

/-- `mac[17] = '\0'`, wherever the parameter ends. -/
def atkIde01SearchMac (send : Send) (stack : Stack) (fuel : Nat) (mac : Bool) :
    Option (Status × Option Stored) :=
  if mac = false then some (.einval, none)
  else queryOne send (queryCmd 11 "AT+SEARCH?") 2 stack fuel fun text =>
    some (.eok, some fun j => if j = 17 then some 0 else text[j]?)

def atkIde01GetNetmask := getText (queryCmd 12 "AT+NETMASK?")

def atkIde01GetGateway := getText (queryCmd 12 "AT+GATEWAY?")

def ethmodTable : List (String × Ethmod) :=
  [("UDP_CLIENT", .udpClient), ("UDP_SERVER", .udpServer), ("TCP_CLIENT", .tcpClient),
    ("TCP_SERVER", .tcpServer), ("TCP_CLOUD", .tcpCloud), ("UDP_MULTICAST", .udpMulticast)]

def atkIde01GetEthmod := getEnum 14 ethmodTable (queryCmd 12 "AT+ETH_MOD?")

def atkIde01GetDns := getText (queryCmd 15 "AT+DNS_SERVER?")

def atkIde01GetLocalport := getText (queryCmd 15 "AT+LOCAL_PORT?")

def atkIde01GetRemoteport := getText (queryCmd 16 "AT+REMOTE_PORT?")

def atkIde01GetStaticip := getText (queryCmd 13 "AT+STATICIP?")

def echoTable : List (String × Echo) := [("ON", .on), ("OFF", .off)]

def atkIde01GetEcho := getEnum 4 echoTable (queryCmd 9 "AT+ECHO?")

def dhcpTable : List (String × Dhcp) := [("ON", .on), ("OFF", .off)]

def atkIde01GetDhcp := getEnum 4 dhcpTable (queryCmd 9 "AT+DHCP?")

/-- This getter does not look whether `version` is NULL. -/
def atkIde01GetVersion (send : Send) (stack : Stack) (fuel : Nat) :
    Option (Status × Option Stored) :=
  getText (queryCmd 12 "AT+VERSION?") send stack fuel true

def atkIde01GetXcomport := getText (queryCmd 14 "AT+XCOM_PORT?")

/-- What `atk_ide01_get_uart` writes. -/
structure UartOut where
  baudrate : Option Baudrate
  stop : Option StopBits
  data : Option DataBits
  parity : Option Parity

/-- 19200 is not in the chain. -/
def baudrateTable : List (String × Baudrate) :=
  [("2400", .b2400), ("4800", .b4800), ("9600", .b9600), ("14400", .b14400), ("38400", .b38400),
    ("43000", .b43000), ("57600", .b57600), ("76800", .b76800), ("115200", .b115200),
    ("128000", .b128000), ("230400", .b230400), ("256000", .b256000), ("460800", .b460800),
    ("921600", .b921600)]

def stopTable : List (String × StopBits) := [("1", .stop1), ("2", .stop2)]

def dataTable : List (String × DataBits) := [("8", .data8)]

def parityTable : List (String × Parity) := [("NONE", .none), ("EVEN", .even), ("ODD", .odd)]

/-- One of the four blocks of `atk_ide01_get_uart`: nothing for a NULL pointer,
else a parameter matched against its table. -/
def uartField {β : Type} (buf : Nat → UInt8) (stack : Stack) (fuel : Nat) (dst : Bool) (num : UInt8)
    (size : Nat) (table : List (String × β)) : Option (Status × Option β) :=
  if dst then do
    let (ret, text) ← copyParameter buf num stack fuel
    if ret ≠ .eok then return (.error, none) else matchText size table text
  else
    some (.eok, none)

/-- The fields are decoded and stored one after the other, up to the first that
fails. -/
def atkIde01GetUart (send : Send) (stack : Stack) (fuel : Nat)
    (baudrate stop data parity : Bool) : Option (Status × UartOut) :=
  if baudrate = false ∧ stop = false ∧ data = false ∧ parity = false then
    some (.einval, ⟨none, none, none, none⟩)
  else query send (queryCmd 9 "AT+UART?") ⟨none, none, none, none⟩ fun buf => do
    let (ret, b) ← uartField buf stack fuel baudrate 1 7 baudrateTable
    if ret ≠ .eok then return (.error, ⟨none, none, none, none⟩)
    let (ret, s) ← uartField buf stack fuel stop 2 2 stopTable
    if ret ≠ .eok then return (.error, ⟨b, none, none, none⟩)
    let (ret, d) ← uartField buf stack fuel data 3 2 dataTable
    if ret ≠ .eok then return (.error, ⟨b, s, none, none⟩)
    let (ret, p) ← uartField buf stack fuel parity 4 5 parityTable
    if ret ≠ .eok then return (.error, ⟨b, s, d, none⟩)
    return (.eok, ⟨b, s, d, p⟩)

def atkIde01GetUartpacktime := getNumber 6 (queryCmd 18 "AT+UART_PACKTIME?")

def atkIde01GetUartpacklen := getNumber 6 (queryCmd 17 "AT+UART_PACKLEN?")

def cloudlinkTable : List (String × Cloudlink) := [("ON", .on), ("OFF", .off)]

def atkIde01GetCloudlinken := getEnum 4 cloudlinkTable (queryCmd 18 "AT+CLOUD_LINK_EN?")

def atkIde01GetCloudport := getText (queryCmd 15 "AT+CLOUD_PORT?")

/-- The length of the parameter, with its terminator. -/
def atkIde01GetClouddomainLen (send : Send) (stack : Stack) (fuel : Nat) (len : Bool) :
    Option (Status × Option UInt16) :=
  if len = false then some (.einval, none)
  else queryOne send (queryCmd 17 "AT+COLUD_DOMAIN?") 1 stack fuel fun text =>
    some (.eok, some (UInt16.ofNat text.length + 1))

def atkIde01GetClouddomain := getText (queryCmd 17 "AT+COLUD_DOMAIN?")

def atkIde01GetAtklinkpwd := getText (queryCmd 15 "AT+ATKLINKPWD?")

def atkIde01GetAtkyundevid := getText (queryCmd 16 "AT+ATKYUNDEVID?")

def netlkstaTable : List (String × Netlksta) := [("ON", .on), ("OFF", .off)]

def atkIde01GetNetlksta := getEnum 4 netlkstaTable (queryCmd 13 "AT+NETLK_ST?")

def atkIde01GetLinknum := getNumber 6 (queryCmd 12 "AT+LINKNUM?")

/-- What the two link queries write. -/
structure LinkOut where
  ip : Option Stored
  port : Option Stored

/-- One of the two blocks of a link query. -/
def linkField (buf : Nat → UInt8) (stack : Stack) (fuel : Nat) (dst : Bool) (num : UInt8) :
    Option (Status × Option Stored) :=
  if dst then do
    let (ret, text) ← copyParameter buf num stack fuel
    if ret ≠ .eok then return (.error, none) else return (.eok, some (storedText text))
  else
    some (.eok, none)

/-- The address and the port of a connection. -/
def getLinkinfo (name : String) (send : Send) (stack : Stack) (fuel : Nat) (num : UInt8)
    (ip port : Bool) : Option (Status × LinkOut) :=
  if ip = false ∧ port = false then
    some (.einval, ⟨none, none⟩)
  else query send (textCmd 20 name (decimal num.toNat)) ⟨none, none⟩ fun buf => do
    let (ret, i) ← linkField buf stack fuel ip 1
    if ret ≠ .eok then return (.error, ⟨none, none⟩)
    let (ret, p) ← linkField buf stack fuel port 2
    if ret ≠ .eok then return (.error, ⟨i, none⟩)
    return (.eok, ⟨i, p⟩)

def atkIde01GetRemotelinkinfo := getLinkinfo "AT+LINKINF_RM"

def atkIde01GetLocallinkinfo := getLinkinfo "AT+LINKINF_LC"

def atkIde01GetMultcastip := getText (queryCmd 16 "AT+MULTCAST_IP?")

def atkIde01GetMultcastport := getText (queryCmd 18 "AT+MULTCAST_PORT?")

/-- A call of one of the getters, with which of its pointers are not NULL. -/
inductive Query where
  | searchMac (mac : Bool)
  | netmask (netmask : Bool)
  | gateway (gateway : Bool)
  | ethmod (ethmod : Bool)
  | dns (dns : Bool)
  | localport (localport : Bool)
  | remoteport (remoteport : Bool)
  | staticip (staticip : Bool)
  | echo (echo : Bool)
  | dhcp (dhcp : Bool)
  | version
  | xcomport (xcomport : Bool)
  | uart (baudrate stop data parity : Bool)
  | uartpacktime (uartpacktime : Bool)
  | uartpacklen (uartpacklen : Bool)
  | cloudlinken (cloudlink : Bool)
  | cloudport (cloudport : Bool)
  | clouddomainLen (len : Bool)
  | clouddomain (clouddomain : Bool)
  | atklinkpwd (atklinkpwd : Bool)
  | atkyundevid (atkyundevid : Bool)
  | netlksta (netlksta : Bool)
  | linknum (linknum : Bool)
  | remotelinkinfo (num : UInt8) (ip port : Bool)
  | locallinkinfo (num : UInt8) (ip port : Bool)
  | multcastip (multcastip : Bool)
  | multcastport (multcastport : Bool)

/-- What the call writes. -/
def Query.Out : Query → Type
  | .ethmod _ => Option Ethmod
  | .echo _ => Option Echo
  | .dhcp _ => Option Dhcp
  | .uart .. => UartOut
  | .uartpacktime _ | .uartpacklen _ | .clouddomainLen _ | .linknum _ => Option UInt16
  | .cloudlinken _ => Option Cloudlink
  | .netlksta _ => Option Netlksta
  | .remotelinkinfo .. | .locallinkinfo .. => LinkOut
  | _ => Option Stored

def Query.run (send : Send) (stack : Stack) (fuel : Nat) : (q : Query) → Option (Status × q.Out)
  | .searchMac dst => atkIde01SearchMac send stack fuel dst
  | .netmask dst => atkIde01GetNetmask send stack fuel dst
  | .gateway dst => atkIde01GetGateway send stack fuel dst
  | .ethmod dst => atkIde01GetEthmod send stack fuel dst
  | .dns dst => atkIde01GetDns send stack fuel dst
  | .localport dst => atkIde01GetLocalport send stack fuel dst
  | .remoteport dst => atkIde01GetRemoteport send stack fuel dst
  | .staticip dst => atkIde01GetStaticip send stack fuel dst
  | .echo dst => atkIde01GetEcho send stack fuel dst
  | .dhcp dst => atkIde01GetDhcp send stack fuel dst
  | .version => atkIde01GetVersion send stack fuel
  | .xcomport dst => atkIde01GetXcomport send stack fuel dst
  | .uart b s d p => atkIde01GetUart send stack fuel b s d p
  | .uartpacktime dst => atkIde01GetUartpacktime send stack fuel dst
  | .uartpacklen dst => atkIde01GetUartpacklen send stack fuel dst
  | .cloudlinken dst => atkIde01GetCloudlinken send stack fuel dst
  | .cloudport dst => atkIde01GetCloudport send stack fuel dst
  | .clouddomainLen dst => atkIde01GetClouddomainLen send stack fuel dst
  | .clouddomain dst => atkIde01GetClouddomain send stack fuel dst
  | .atklinkpwd dst => atkIde01GetAtklinkpwd send stack fuel dst
  | .atkyundevid dst => atkIde01GetAtkyundevid send stack fuel dst
  | .netlksta dst => atkIde01GetNetlksta send stack fuel dst
  | .linknum dst => atkIde01GetLinknum send stack fuel dst
  | .remotelinkinfo num ip port => atkIde01GetRemotelinkinfo send stack fuel num ip port
  | .locallinkinfo num ip port => atkIde01GetLocallinkinfo send stack fuel num ip port
  | .multcastip dst => atkIde01GetMultcastip send stack fuel dst
  | .multcastport dst => atkIde01GetMultcastport send stack fuel dst

/-- Nothing written. -/
def Query.untouched : (q : Query) → q.Out
  | .uart .. => ⟨none, none, none, none⟩
  | .remotelinkinfo .. => ⟨none, none⟩
  | .locallinkinfo .. => ⟨none, none⟩
  | .searchMac _ => none
  | .netmask _ => none
  | .gateway _ => none
  | .ethmod _ => none
  | .dns _ => none
  | .localport _ => none
  | .remoteport _ => none
  | .staticip _ => none
  | .echo _ => none
  | .dhcp _ => none
  | .version => none
  | .xcomport _ => none
  | .uartpacktime _ => none
  | .uartpacklen _ => none
  | .cloudlinken _ => none
  | .cloudport _ => none
  | .clouddomainLen _ => none
  | .clouddomain _ => none
  | .atklinkpwd _ => none
  | .atkyundevid _ => none
  | .netlksta _ => none
  | .linknum _ => none
  | .multcastip _ => none
  | .multcastport _ => none

/-- The parameters of the answer that the call asks for. -/
def Query.asks : Query → List UInt8
  | .searchMac dst => if dst then [2] else []
  | .version => [1]
  | .uart b s d p =>
    (if b then [1] else []) ++ (if s then [2] else []) ++ (if d then [3] else []) ++
      if p then [4] else []
  | .remotelinkinfo _ ip port | .locallinkinfo _ ip port =>
    (if ip then [1] else []) ++ if port then [2] else []
  | .netmask dst | .gateway dst | .ethmod dst | .dns dst | .localport dst | .remoteport dst
  | .staticip dst | .echo dst | .dhcp dst | .xcomport dst | .uartpacktime dst | .uartpacklen dst
  | .cloudlinken dst | .cloudport dst | .clouddomainLen dst | .clouddomain dst | .atklinkpwd dst
  | .atkyundevid dst | .netlksta dst | .linknum dst | .multcastip dst | .multcastport dst =>
    if dst then [1] else []

end StmGateway.At.Getters
