namespace ScriptLang.Text

inductive Utf8Reason where
  | invalidStart
  | invalidContinuation
  | unexpectedEnd
  deriving DecidableEq

structure Utf8Fault where
  reason : Utf8Reason
  position : Nat
  bytes : List Nat
  deriving DecidableEq

/-- A character that is being read: its bytes so far, the value of their bits, how many bytes are
missing, and the range of the next one. -/
structure PartialChar where
  position : Nat
  bytes : List Nat
  value : Nat
  missing : Nat
  low : Nat
  high : Nat

def PartialChar.begin? (position byte : Nat) : Option PartialChar :=
  let start (value missing low high : Nat) : Option PartialChar :=
    some ⟨position, [byte], value, missing, low, high⟩
  if byte < 0xc2 then none
  else if byte < 0xe0 then start (byte - 0xc0) 1 0x80 0xbf
  -- 0xe0 and 0xf0 leave out what fewer bytes can say, 0xed the surrogates, and 0xf4 all beyond the
  -- last code point
  else if byte = 0xe0 then start 0 2 0xa0 0xbf
  else if byte = 0xed then start 0xd 2 0x80 0x9f
  else if byte < 0xf0 then start (byte - 0xe0) 2 0x80 0xbf
  else if byte = 0xf0 then start 0 3 0x90 0xbf
  else if byte < 0xf4 then start (byte - 0xf0) 3 0x80 0xbf
  else if byte = 0xf4 then start 4 3 0x80 0x8f
  else none

def PartialChar.extend (part : PartialChar) (byte : Nat) : PartialChar :=
  { part with
    bytes := part.bytes ++ [byte]
    value := part.value * 0x40 + byte % 0x40
    missing := part.missing - 1
    low := 0x80
    high := 0xbf }

/-- Reads on from a position, with the characters read so far in reverse. -/
def decodeFrom (position : Nat) (part : Option PartialChar) (read : List Char) :
    List Nat → Except Utf8Fault (List Char)
  | [] =>
    match part with
    | none => .ok read.reverse
    | some part => .error ⟨.unexpectedEnd, part.position, part.bytes⟩
  | byte :: rest =>
    match part with
    | none =>
      if byte < 0x80 then decodeFrom (position + 1) none (Char.ofNat byte :: read) rest
      else
        match PartialChar.begin? position byte with
        | none => .error ⟨.invalidStart, position, [byte]⟩
        | some part => decodeFrom (position + 1) (some part) read rest
    | some part =>
      if part.low ≤ byte ∧ byte ≤ part.high then
        let part := part.extend byte
        if part.missing = 0 then
          decodeFrom (position + 1) none (Char.ofNat part.value :: read) rest
        else decodeFrom (position + 1) (some part) read rest
      else .error ⟨.invalidContinuation, part.position, part.bytes⟩

def decodeUtf8 (bytes : List UInt8) : Except Utf8Fault (List Char) :=
  decodeFrom 0 none [] (bytes.map UInt8.toNat)

end ScriptLang.Text
