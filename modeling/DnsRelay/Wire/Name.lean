import DnsRelay.Wire.Header

/-!
# Domain names on the wire

The name routines of `dns_packet.c`: the encoder `write_name`, the walker
`skip_name`, the decoder `read_name` and `dr_dns_normalize_name`. Every index goes
through `load` or `store`. A C loop is a recursion on an iteration budget; a spent
budget is `stuck`, so the specifications also show that the budgets suffice.
-/
namespace DnsRelay.Wire

open DnsRelay.Foundation

/-- The octet `'.'`. -/
def dot : UInt8 := 0x2e

def asciiLower (ch : UInt8) : UInt8 :=
  if ch ≥ 0x41 ∧ ch ≤ 0x5a then ch + (0x61 - 0x41) else ch

/-- One pass of the `while` loop of `write_name` per label; `labelStart` is the rest of the
text, `base` the position of `out` inside the response buffer. -/
def writeNameLoop (base outSize : Nat) : Nat → Bytes → Nat → Bytes → Call (Nat × Bytes)
  | _, [], total, out => .ok (total, out)
  | 0, _ :: _, _, _ => .stuck
  | fuel + 1, c :: cs, total, out =>
    let labelStart := c :: cs
    let label := labelStart.takeWhile (· ≠ dot)
    let labelLen := label.length
    if labelLen = 0 ∨ labelLen > 63 ∨ total + 1 + labelLen + 1 > outSize then .fail ()
    else do
      let out ← store out (base + total) [labelLen.toUInt8]
      let out ← store out (base + (total + 1)) label
      match labelStart.dropWhile (· ≠ dot) with
      | [] => .ok (total + 1 + labelLen, out)
      | _ :: rest => writeNameLoop base outSize fuel rest (total + 1 + labelLen) out

/-- Returns the written buffer and `*written`. -/
def writeName (name : CString) (out : Bytes) (base outSize : Nat) : Call (Bytes × Nat) :=
  if outSize = 0 then .fail ()
  else if name.octets = [dot] then do
    let out ← store out base [0]
    pure (out, 1)
  else do
    let (total, out) ← writeNameLoop base outSize name.octets.length name.octets 0 out
    if total + 1 > outSize ∨ total > DR_DNS_MAX_DOMAIN_LEN then .fail ()
    else do
      let out ← store out (base + total) [0]
      pure (out, total + 1)

/-- The fourteen-bit target of a compression pointer. -/
def pointer (labelLen low : UInt8) : UInt16 :=
  ((labelLen &&& 0x3f).toUInt16 <<< 8) ||| low.toUInt16

def skipNameLoop (packet : Bytes) (offset : Nat) : Nat → Nat → Call Nat
  | 0, _ => .stuck
  | fuel + 1, pos =>
    if pos < packet.length then do
      let labelLen ← load packet pos
      if labelLen &&& 0xc0 = 0xc0 then
        if pos + 1 ≥ packet.length then .fail ()
        else do
          let low ← load packet (pos + 1)
          if (pointer labelLen low).toNat ≥ packet.length then .fail ()
          else .ok (pos - offset + 2)
      else if labelLen = 0 then .ok (pos - offset + 1)
      else if labelLen &&& 0xc0 ≠ 0 ∨ labelLen > 63 ∨ pos + 1 + labelLen.toNat > packet.length then
        .fail ()
      else skipNameLoop packet offset fuel (pos + (1 + labelLen.toNat))
    else .fail ()

/-- Returns `*consumed`. -/
def skipName (packet : Bytes) (offset : Nat) : Call Nat :=
  if offset ≥ packet.length then .fail ()
  else skipNameLoop packet offset (packet.length + 1) offset

/-- The locals of `read_name`. -/
structure NameReader where
  pos : Nat
  written : Nat
  jumps : Nat
  jumped : Bool
  consumed : Nat
  output : Bytes

/-- The dot before every label but the first. -/
def writeSeparator (outputSize written : Nat) (output : Bytes) : Call (Nat × Bytes) :=
  if written ≠ 0 then
    if written + 1 ≥ outputSize then .fail ()
    else do
      let output ← store output written [dot]
      pure (written + 1, output)
  else pure (written, output)

/-- The inner loop of `read_name`, which copies one label in lower case. -/
def copyLabel (packet : Bytes) (outputSize : Nat) : Nat → Nat → Nat → Bytes → Call (Nat × Bytes)
  | 0, _, written, output => .ok (written, output)
  | labelLen + 1, pos, written, output =>
    if written + 1 ≥ outputSize then .fail ()
    else do
      let ch ← load packet pos
      let output ← store output written [asciiLower ch]
      copyLabel packet outputSize labelLen (pos + 1) (written + 1) output

def readNameLoop (packet : Bytes) (offset outputSize : Nat) : Nat → NameReader → Call (Bytes × Nat)
  | 0, _ => .stuck
  | fuel + 1, s =>
    if s.pos < packet.length then do
      let labelLen ← load packet s.pos
      if labelLen &&& 0xc0 = 0xc0 then
        if s.pos + 1 ≥ packet.length then .fail ()
        else do
          let low ← load packet (s.pos + 1)
          let target := (pointer labelLen low).toNat
          let consumed := if s.jumped then s.consumed else s.pos - offset + 2
          if s.jumps + 1 > 16 ∨ target ≥ packet.length then .fail ()
          else
            readNameLoop packet offset outputSize fuel
              { s with pos := target, jumps := s.jumps + 1, jumped := true, consumed := consumed }
      else if labelLen = 0 then
        let consumed := if s.jumped then s.consumed else s.pos - offset + 1
        if s.written = 0 then
          if outputSize < 2 then .fail ()
          else do
            let output ← store s.output 0 [dot, 0]
            pure (output, consumed)
        else do
          let output ← store s.output s.written [0]
          pure (output, consumed)
      else if labelLen &&& 0xc0 ≠ 0 ∨ labelLen > 63 ∨ s.pos + 1 + labelLen.toNat > packet.length then
        .fail ()
      else do
        let (written, output) ← writeSeparator outputSize s.written s.output
        let (written, output) ← copyLabel packet outputSize labelLen.toNat (s.pos + 1) written output
        readNameLoop packet offset outputSize fuel
          { s with pos := s.pos + 1 + labelLen.toNat, written := written, output := output }
    else .fail ()

/-- Iterations `read_name` can make: each one either jumps, at most seventeen times, or moves
forward inside the packet. -/
def readNameFuel (packet : Bytes) : Nat := 18 * (packet.length + 1)

/-- Returns the output array and `*consumed`. -/
def readName (packet : Bytes) (offset : Nat) (output : Bytes) (outputSize : Nat) :
    Call (Bytes × Nat) :=
  if outputSize = 0 ∨ offset ≥ packet.length then .fail ()
  else readNameLoop packet offset outputSize (readNameFuel packet)
    { pos := offset, written := 0, jumps := 0, jumped := false, consumed := 0, output := output }

/-- The length of the input without its trailing dots. -/
def trimDots (input : Bytes) : Nat → Nat
  | 0 => 0
  | len + 1 => if octet input len = dot then trimDots input len else len + 1

def normalizeLoop : Bytes → Nat → Bytes → Call (Nat × Bytes)
  | [], labelLen, output => .ok (labelLen, output)
  | ch :: rest, labelLen, output =>
    if ch = dot then
      if labelLen = 0 then .fail () else normalizeLoop rest 0 (output ++ [dot])
    else if labelLen + 1 > 63 then .fail ()
    else normalizeLoop rest (labelLen + 1) (output ++ [asciiLower ch])

/-- Returns the string left in `output`. -/
def drDnsNormalizeName (input : CString) (outputSize : Nat) : Call CString :=
  if outputSize = 0 then .fail ()
  else
    let len := trimDots input.octets input.octets.length
    if len = 0 ∨ len > DR_DNS_MAX_DOMAIN_LEN ∨ len + 1 > outputSize then .fail ()
    else do
      let (labelLen, output) ← normalizeLoop (input.octets.take len) 0 []
      if labelLen = 0 then .fail () else pure (cstr output)

end DnsRelay.Wire
