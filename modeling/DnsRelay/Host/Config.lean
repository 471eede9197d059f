import DnsRelay.Host.Address

/-!
# Configuration

`config.c`: the defaults, the two environment variables and the command line. `argv` is
the list of the arguments, the program's name first. What the build and the environment
fix are inputs; a NULL error buffer is one of size 0.
-/
namespace DnsRelay.Host

open DnsRelay.Foundation
open DnsRelay.Wire
open DnsRelay.Store (drParseIpv4)

def DR_MAX_IPV4_TEXT_LEN : Nat := 16
def DR_MAX_PATH_LEN : Nat := 512
def DR_DEFAULT_UPSTREAM_PORT : UInt16 := 53
def DR_DEFAULT_CACHE_CAPACITY : Nat := 128
def DR_DEFAULT_UPSTREAM_TIMEOUT_MS : UInt32 := 5000

def DR_DEFAULT_UPSTREAM_IP : CString := asciiText "202.106.0.20"
def DR_DEFAULT_TABLE_FILE : CString := asciiText "dnsrelay.txt"
def DR_DEFAULT_BIND_IP : CString := asciiText "0.0.0.0"

inductive DrDebugLevel where
  | none
  | basic
  | verbose
  deriving DecidableEq

structure DrConfig where
  debugLevel : DrDebugLevel
  showHelp : Bool
  upstreamIp : CString
  upstreamPort : UInt16
  tablePath : CString
  bindIp : CString
  bindPort : UInt16
  cacheCapacity : Nat
  upstreamTimeoutMs : UInt32
  deriving DecidableEq

/-- `ULONG_MAX`, `DNSRELAY_DEV_PORT`, and the variables `DNSRELAY_BIND_PORT` and
`DNSRELAY_UPSTREAM_PORT`. -/
structure Environment where
  ulongMax : Nat
  devPort : UInt16
  bindPort : Option CString
  upstreamPort : Option CString

/-- The text `strncpy` leaves in an array of `dstSize` characters. -/
def copyText (dstSize : Nat) (src : CString) : CString := src.truncate (dstSize - 1)

/-- `isspace` in the C locale. -/
def isSpace (c : UInt8) : Bool := c == 0x20 || (0x09 ≤ c && c ≤ 0x0d)

def minusSign : UInt8 := 0x2d
def plusSign : UInt8 := 0x2b

/-- The value, the text behind the numeral, and whether `errno` is set. -/
structure Conversion where
  value : Nat
  rest : Bytes
  outOfRange : Bool

/-- The sign in front of the digits and what follows it. -/
def signOf : Bytes → Option UInt8 × Bytes
  | [] => (none, [])
  | c :: text => if c = minusSign ∨ c = plusSign then (some c, text) else (none, c :: text)

/-- `strtoul` to base 10. Without digits nothing is converted; a minus sign negates the value as an
`unsigned long`. -/
def strtoul (ulongMax : Nat) (text : Bytes) : Conversion :=
  let (sign, numeral) := signOf (text.dropWhile isSpace)
  let digits := numeral.takeWhile isDigit
  let rest := numeral.dropWhile isDigit
  let value := decimalValue digits
  if digits.isEmpty then { value := 0, rest := text, outOfRange := false }
  else if value > ulongMax then { value := ulongMax, rest, outOfRange := true }
  else if sign = some minusSign then
    { value := (ulongMax + 1 - value) % (ulongMax + 1), rest, outOfRange := false }
  else { value, rest, outOfRange := false }

def parsePortText (ulongMax : Nat) (text : Option CString) : Option UInt16 :=
  match text with
  | none => none
  | some text =>
    if octet text.octets 0 = 0 then none
    else
      let result := strtoul ulongMax text.octets
      -- the end of the numeral is the start of the text just when all of it is left
      if result.outOfRange ∨ result.rest = text.octets ∨ octet result.rest 0 ≠ 0 ∨
          result.value = 0 ∨ result.value > 65535 then none
      else some (UInt16.ofNat result.value)

def applyPortEnv (env : Environment) (config : DrConfig) : DrConfig :=
  { config with
    bindPort := (parsePortText env.ulongMax env.bindPort).getD config.bindPort
    upstreamPort := (parsePortText env.ulongMax env.upstreamPort).getD config.upstreamPort }

def drConfigSetDefaults (env : Environment) : DrConfig :=
  applyPortEnv env {
    debugLevel := .none
    showHelp := false
    upstreamIp := copyText DR_MAX_IPV4_TEXT_LEN DR_DEFAULT_UPSTREAM_IP
    upstreamPort := DR_DEFAULT_UPSTREAM_PORT
    tablePath := copyText DR_MAX_PATH_LEN DR_DEFAULT_TABLE_FILE
    bindIp := copyText DR_MAX_IPV4_TEXT_LEN DR_DEFAULT_BIND_IP
    bindPort := env.devPort
    cacheCapacity := DR_DEFAULT_CACHE_CAPACITY
    upstreamTimeoutMs := DR_DEFAULT_UPSTREAM_TIMEOUT_MS }

/-- The text in the error buffer; one of size 0 stays as it is. -/
def setError (errbufSize : Nat) (message : String) : CString :=
  if errbufSize > 0 then copyText errbufSize (asciiText message) else cstr []

/-- The debug options, and the index of the argument behind them. -/
def debugOption (argv : List CString) (index : Nat) : DrDebugLevel × Nat :=
  if argv[index]? = some (asciiText "-d") then (.basic, index + 1)
  else if argv[index]? = some (asciiText "-dd") then (.verbose, index + 1)
  else (.none, index)

/-- The last section of `dr_config_parse`, from the upstream address on. -/
def parseOperands (inetPton : CString → Option Ipv4Be) (config : DrConfig) (argv : List CString)
    (index : Nat) (errbufSize : Nat) : DrConfig × Option CString :=
  match argv[index]? with
  | none =>
    if index ≠ argv.length then (config, some (setError errbufSize "too many arguments"))
    else (config, none)
  | some upstream =>
    match drParseIpv4 inetPton upstream with
    | none => (config, some (setError errbufSize "invalid upstream DNS IPv4 address"))
    | some _ =>
      let config := { config with upstreamIp := copyText DR_MAX_IPV4_TEXT_LEN upstream }
      let (config, index) := match argv[index + 1]? with
        | none => (config, index + 1)
        | some path => ({ config with tablePath := copyText DR_MAX_PATH_LEN path }, index + 2)
      if index ≠ argv.length then (config, some (setError errbufSize "too many arguments"))
      else (config, none)

/-- The configuration, and what is left in the error buffer when the call reports failure. -/
def drConfigParse (inetPton : CString → Option Ipv4Be) (env : Environment) (argv : List CString)
    (errbufSize : Nat) : DrConfig × Option CString :=
  let config := drConfigSetDefaults env
  if argv[1]? = some (asciiText "-h") ∨ argv[1]? = some (asciiText "--help") then
    let config := { config with showHelp := true }
    if argv.length ≠ 2 then
      (config, some (setError errbufSize "help option does not take extra arguments"))
    else (config, none)
  else
    let (debugLevel, index) := debugOption argv 1
    parseOperands inetPton { config with debugLevel } argv index errbufSize

end DnsRelay.Host
