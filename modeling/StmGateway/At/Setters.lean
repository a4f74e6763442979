import StmGateway.At.Parameter
import StmGateway.Lib.CText

/-!
# The AT commands that set something

Each setter of `atk_net.c` formats one command line into a local array, sends it
and waits for the answer. Strings are their bytes; the enumerations are those of
`atk_net.h`, so the `default` branches, which refuse any other number, have no
counterpart here.
-/
namespace StmGateway.At.Setters

open StmGateway.Lib StmGateway.At.Parameter

inductive Ethmod where
  | udpClient
  | udpServer
  | tcpClient
  | tcpServer
  | tcpCloud
  | udpMulticast
  deriving DecidableEq

inductive Echo where
  | on
  | off
  deriving DecidableEq

inductive Dhcp where
  | on
  | off
  deriving DecidableEq

inductive Baudrate where
  | b2400
  | b4800
  | b9600
  | b14400
  | b19200
  | b38400
  | b43000
  | b57600
  | b76800
  | b115200
  | b128000
  | b230400
  | b256000
  | b460800
  | b921600
  deriving DecidableEq

inductive StopBits where
  | stop1
  | stop2
  deriving DecidableEq

inductive DataBits where
  | data8
  deriving DecidableEq

inductive Parity where
  | none
  | even
  | odd
  deriving DecidableEq

inductive Cloudlink where
  | on
  | off
  deriving DecidableEq

/-- A command line formatted with `rt_sprintf` into an array of `size` bytes. -/
structure Cmd where
  size : Nat
  text : List UInt8

/-- `AT+NAME="%s"`, where `name` is what stands before the `=`. -/
def textCmd (size : Nat) (name : String) (arg : List UInt8) : Cmd :=
  ⟨size, ascii name ++ 0x3d :: 0x22 :: arg ++ [0x22]⟩

def atkIde01SetNetmask (netmask : List UInt8) : Except Status Cmd :=
  .ok (textCmd 29 "AT+NETMASK" netmask)

def atkIde01SetMac (mac : List UInt8) : Except Status Cmd := .ok (textCmd 30 "AT+MAC_ID" mac)

def atkIde01SetGateway (gateway : List UInt8) : Except Status Cmd :=
  .ok (textCmd 29 "AT+GATEWAY" gateway)

def ethmodText : Ethmod → String
  | .udpClient => "UDP_CLIENT"
  | .udpServer => "UDP_SERVER"
  | .tcpClient => "TCP_CLIENT"
  | .tcpServer => "TCP_SERVER"
  | .tcpCloud => "TCP_CLOUD"
  | .udpMulticast => "UDP_MULTICAST"

def atkIde01SetEthmod (ethmod : Ethmod) : Except Status Cmd :=
  .ok (textCmd 27 "AT+ETH_MOD" (ascii (ethmodText ethmod)))

def atkIde01SetDns (dns : List UInt8) : Except Status Cmd := .ok (textCmd 32 "AT+DNS_SERVER" dns)

def atkIde01SetLocalport (localport : List UInt8) : Except Status Cmd :=
  .ok (textCmd 22 "AT+LOCAL_PORT" localport)

def atkIde01SetRemoteport (remoteport : List UInt8) : Except Status Cmd :=
  .ok (textCmd 23 "AT+REMOTE_PORT" remoteport)

def atkIde01SetRemoteip (remoteip : List UInt8) : Except Status Cmd :=
  .ok (textCmd 30 "AT+REMOTEIP" remoteip)

def atkIde01SetStaticip (staticip : List UInt8) : Except Status Cmd :=
  .ok (textCmd 30 "AT+STATICIP" staticip)

def echoText : Echo → String
  | .on => "ON"
  | .off => "OFF"

def atkIde01SetEcho (echo : Echo) : Except Status Cmd :=
  .ok (textCmd 14 "AT+ECHO" (ascii (echoText echo)))

def dhcpText : Dhcp → String
  | .on => "ON"
  | .off => "OFF"

def atkIde01SetDhcp (dhcp : Dhcp) : Except Status Cmd :=
  .ok (textCmd 14 "AT+DHCP" (ascii (dhcpText dhcp)))

def atkIde01SetModuname (moduname : List UInt8) : Except Status Cmd :=
  .ok (textCmd 64 "AT+MODUNAME" moduname)

def atkIde01SetXcomport (xcomport : List UInt8) : Except Status Cmd :=
  .ok (textCmd 21 "AT+XCOM_PORT" xcomport)

/-- 128000 is written as 120000. -/
def baudrateText : Baudrate → String
  | .b2400 => "2400"
  | .b4800 => "4800"
  | .b9600 => "9600"
  | .b14400 => "14400"
  | .b19200 => "19200"
  | .b38400 => "38400"
  | .b43000 => "43000"
  | .b57600 => "57600"
  | .b76800 => "76800"
  | .b115200 => "115200"
  | .b128000 => "120000"
  | .b230400 => "230400"
  | .b256000 => "256000"
  | .b460800 => "460800"
  | .b921600 => "921600"

def stopText : StopBits → String
  | .stop1 => "1"
  | .stop2 => "2"

def dataText : DataBits → String
  | .data8 => "8"

def parityText : Parity → String
  | .none => "NONE"
  | .even => "EVEN"
  | .odd => "ODD"

/-- `AT+UART="%s","%s","%s","%s"`. -/
def atkIde01SetUart (baudrate : Baudrate) (stop : StopBits) (data : DataBits) (parity : Parity) :
    Except Status Cmd :=
  .ok ⟨32, ascii "AT+UART=\"" ++ ascii (baudrateText baudrate) ++ ascii "\",\"" ++
    ascii (stopText stop) ++ ascii "\",\"" ++ ascii (dataText data) ++ ascii "\",\"" ++
    ascii (parityText parity) ++ ascii "\""⟩

def atkIde01SetUartpacktime (uartpacktime : UInt16) : Except Status Cmd :=
  .ok (textCmd 25 "AT+UART_PACKTIME" (decimal uartpacktime.toNat))

def atkIde01SetUartpacklen (uartpacklen : UInt16) : Except Status Cmd :=
  if uartpacklen < 1 ∨ uartpacklen > 1450 then .error .einval
  else .ok (textCmd 24 "AT+UART_PACKLEN" (decimal uartpacklen.toNat))

def cloudlinkText : Cloudlink → String
  | .on => "ON"
  | .off => "OFF"

def atkIde01SetCloudlinken (cloudlink : Cloudlink) : Except Status Cmd :=
  .ok (textCmd 23 "AT+CLOUD_LINK_EN" (ascii (cloudlinkText cloudlink)))

def atkIde01SetCloudport (cloudport : List UInt8) : Except Status Cmd :=
  .ok (textCmd 22 "AT+CLOUD_PORT" cloudport)

def atkIde01SetClouddomain (clouddomain : List UInt8) : Except Status Cmd :=
  .ok (textCmd 64 "AT+COLUD_DOMAIN" clouddomain)

def atkIde01SetAtklinkpwd (atklinkpwd : List UInt8) : Except Status Cmd :=
  .ok (textCmd 25 "AT+ATKLINKPWD" atklinkpwd)

def atkIde01SetAtkyundevid (atkyundevid : List UInt8) : Except Status Cmd :=
  if atkyundevid.length ≠ 20 then .error .einval
  else .ok (textCmd 38 "AT+ATKYUNDEVID" atkyundevid)

def atkIde01SetMultcastip (multcastip : List UInt8) : Except Status Cmd :=
  .ok (textCmd 33 "AT+MULTCAST_IP" multcastip)

def atkIde01SetMultcastport (multcastport : List UInt8) : Except Status Cmd :=
  .ok (textCmd 35 "AT+MULTCAST_PORT" multcastport)

/-- A call of one of the setters. -/
inductive Setter where
  | netmask (netmask : List UInt8)
  | mac (mac : List UInt8)
  | gateway (gateway : List UInt8)
  | ethmod (ethmod : Ethmod)
  | dns (dns : List UInt8)
  | localport (localport : List UInt8)
  | remoteport (remoteport : List UInt8)
  | remoteip (remoteip : List UInt8)
  | staticip (staticip : List UInt8)
  | echo (echo : Echo)
  | dhcp (dhcp : Dhcp)
  | moduname (moduname : List UInt8)
  | xcomport (xcomport : List UInt8)
  | uart (baudrate : Baudrate) (stop : StopBits) (data : DataBits) (parity : Parity)
  | uartpacktime (uartpacktime : UInt16)
  | uartpacklen (uartpacklen : UInt16)
  | cloudlinken (cloudlink : Cloudlink)
  | cloudport (cloudport : List UInt8)
  | clouddomain (clouddomain : List UInt8)
  | atklinkpwd (atklinkpwd : List UInt8)
  | atkyundevid (atkyundevid : List UInt8)
  | multcastip (multcastip : List UInt8)
  | multcastport (multcastport : List UInt8)

/-- The command line of a call, or the status it is refused with. -/
def Setter.cmd : Setter → Except Status Cmd
  | .netmask v => atkIde01SetNetmask v
  | .mac v => atkIde01SetMac v
  | .gateway v => atkIde01SetGateway v
  | .ethmod v => atkIde01SetEthmod v
  | .dns v => atkIde01SetDns v
  | .localport v => atkIde01SetLocalport v
  | .remoteport v => atkIde01SetRemoteport v
  | .remoteip v => atkIde01SetRemoteip v
  | .staticip v => atkIde01SetStaticip v
  | .echo v => atkIde01SetEcho v
  | .dhcp v => atkIde01SetDhcp v
  | .moduname v => atkIde01SetModuname v
  | .xcomport v => atkIde01SetXcomport v
  | .uart b s d p => atkIde01SetUart b s d p
  | .uartpacktime v => atkIde01SetUartpacktime v
  | .uartpacklen v => atkIde01SetUartpacklen v
  | .cloudlinken v => atkIde01SetCloudlinken v
  | .cloudport v => atkIde01SetCloudport v
  | .clouddomain v => atkIde01SetClouddomain v
  | .atklinkpwd v => atkIde01SetAtklinkpwd v
  | .atkyundevid v => atkIde01SetAtkyundevid v
  | .multcastip v => atkIde01SetMultcastip v
  | .multcastport v => atkIde01SetMultcastport v

end StmGateway.At.Setters
