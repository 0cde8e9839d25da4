import TinyLisp.Text.Quoted

/-!
# Text from bytes

Decoding of UTF-8, strict about shortest forms and surrogates. On the
first bad sequence it says where the sequence stands, how many of its
bytes were well formed, and what is wrong with it.
-/

namespace TinyLisp.Text

/-- What is wrong with a byte sequence. -/
inductive Utf8Reason where
  /-- The first byte starts no sequence. -/
  | start
  /-- A further byte is not allowed where it stands. -/
  | continuation
  /-- The bytes end inside the sequence. -/
  | truncated

/-- A bad sequence: its offset, its first byte and the number of its bytes
up to the one that is missing or wrong. -/
structure Utf8Fault where
  offset : Nat
  first : UInt8
  length : Nat
  reason : Utf8Reason

def Utf8Reason.message : Utf8Reason → String
  | .start => "invalid start byte"
  | .continuation => "invalid continuation byte"
  | .truncated => "unexpected end of data"

def Utf8Fault.message (f : Utf8Fault) : String :=
  let what :=
    if f.length ≤ 1 then
      "byte 0x" ++ String.ofList (hexDigits 2 f.first.toNat) ++ " in position " ++ f.offset.repr
    else "bytes in position " ++ f.offset.repr ++ "-" ++ (f.offset + f.length - 1).repr
  "'utf-8' codec can't decode " ++ what ++ ": " ++ f.reason.message

/-- Whether a byte continues a sequence. -/
def isContinuation (b : UInt8) : Bool := 0x80 ≤ b && b ≤ 0xbf

/-- Whether `b` may follow `first`: the second byte also rules out
overlong forms, surrogates and values past the last code point. -/
def isSecond (first b : UInt8) : Bool :=
  if first == 0xe0 then 0xa0 ≤ b && b ≤ 0xbf
  else if first == 0xed then 0x80 ≤ b && b ≤ 0x9f
  else if first == 0xf0 then 0x90 ≤ b && b ≤ 0xbf
  else if first == 0xf4 then 0x80 ≤ b && b ≤ 0x8f
  else isContinuation b

/-- The character with the given first bits and six bits of each further
byte. -/
def assemble (lead : Nat) (further : List UInt8) : Char :=
  Char.ofNat (further.foldl (fun n b => n * 64 + b.toNat % 64) lead)

/-- Decodes the bytes that stand from `offset` on. -/
def decodeFrom (offset : Nat) : List UInt8 → Except Utf8Fault (List Char)
  | [] => .ok []
  | a :: rest =>
    let bad (length : Nat) (reason : Utf8Reason) : Except Utf8Fault (List Char) :=
      .error ⟨offset, a, length, reason⟩
    if a < 0x80 then (assemble a.toNat [] :: ·) <$> decodeFrom (offset + 1) rest
    else if a < 0xc2 || 0xf4 < a then bad 1 .start
    else
      match rest with
      | [] => bad 1 .truncated
      | b :: rest =>
        if !isSecond a b then bad 1 .continuation
        else if a < 0xe0 then
          (assemble (a.toNat % 32) [b] :: ·) <$> decodeFrom (offset + 2) rest
        else
          match rest with
          | [] => bad 2 .truncated
          | c :: rest =>
            if !isContinuation c then bad 2 .continuation
            else if a < 0xf0 then
              (assemble (a.toNat % 16) [b, c] :: ·) <$> decodeFrom (offset + 3) rest
            else
              match rest with
              | [] => bad 3 .truncated
              | d :: rest =>
                if !isContinuation d then bad 3 .continuation
                else (assemble (a.toNat % 8) [b, c, d] :: ·) <$> decodeFrom (offset + 4) rest

/-- The text that the bytes encode. -/
def decodeUtf8 (bytes : List UInt8) : Except Utf8Fault String :=
  String.ofList <$> decodeFrom 0 bytes

end TinyLisp.Text
