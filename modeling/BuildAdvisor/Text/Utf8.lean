/-!
UTF-8 bytes read as characters.

* `Defect` — where a byte sequence stops being UTF-8, and over how many bytes;
* `decode` — the characters of a byte sequence, or its first defect.

A character has one written form: the shortest, and no form for the surrogate range.
-/

set_option autoImplicit false

namespace BuildAdvisor.Utf8

/-- `offset` bytes are sound.  Then come `length` bytes that begin no character, or, without a
length, the input ends within a character. -/
structure Defect where
  offset : Nat
  length : Option Nat
deriving DecidableEq, Repr

def Defect.message (d : Defect) : String :=
  match d.length with
  | some n => s!"invalid utf-8 sequence of {n} bytes from index {d.offset}"
  | none => s!"incomplete utf-8 byte sequence from index {d.offset}"

def isContinuation (b : UInt8) : Bool :=
  decide (0x80 ≤ b ∧ b ≤ 0xbf)

/-- The range of the second byte after a leading byte of a longer form, with the number of
bytes in all. -/
def second? (b : UInt8) : Option (UInt8 × UInt8 × Nat) :=
  if 0xc2 ≤ b ∧ b ≤ 0xdf then some (0x80, 0xbf, 2)
  else if b = 0xe0 then some (0xa0, 0xbf, 3)
  else if b = 0xed then some (0x80, 0x9f, 3)
  else if 0xe1 ≤ b ∧ b ≤ 0xef then some (0x80, 0xbf, 3)
  else if b = 0xf0 then some (0x90, 0xbf, 4)
  else if b = 0xf4 then some (0x80, 0x8f, 4)
  else if 0xf1 ≤ b ∧ b ≤ 0xf3 then some (0x80, 0xbf, 4)
  else none

def payload (b : UInt8) : Nat :=
  (b &&& 0x3f).toNat

/-- Reads from `offset` on, putting the characters found so far, last one first, in `acc`. -/
def decodeFrom (offset : Nat) (acc : List Char) : List UInt8 → Except Defect (List Char)
  | [] => .ok acc.reverse
  | b :: rest =>
    if b < 0x80 then decodeFrom (offset + 1) (Char.ofNat b.toNat :: acc) rest
    else match second? b with
      | none => .error ⟨offset, some 1⟩
      | some (low, high, size) =>
        match rest with
        | [] => .error ⟨offset, none⟩
        | b₂ :: rest =>
          if b₂ < low ∨ high < b₂ then .error ⟨offset, some 1⟩
          else if size = 2 then
            let n := (b &&& 0x1f).toNat * 64 + payload b₂
            decodeFrom (offset + 2) (Char.ofNat n :: acc) rest
          else match rest with
            | [] => .error ⟨offset, none⟩
            | b₃ :: rest =>
              if !isContinuation b₃ then .error ⟨offset, some 2⟩
              else if size = 3 then
                let n := ((b &&& 0x0f).toNat * 64 + payload b₂) * 64 + payload b₃
                decodeFrom (offset + 3) (Char.ofNat n :: acc) rest
              else match rest with
                | [] => .error ⟨offset, none⟩
                | b₄ :: rest =>
                  if !isContinuation b₄ then .error ⟨offset, some 3⟩
                  else
                    let n := (((b &&& 0x07).toNat * 64 + payload b₂) * 64 + payload b₃) * 64
                      + payload b₄
                    decodeFrom (offset + 4) (Char.ofNat n :: acc) rest

def decode (bytes : List UInt8) : Except Defect (List Char) :=
  decodeFrom 0 [] bytes

end BuildAdvisor.Utf8
