import Propolis.Lib.Bytes

/-!
# SHA-256

The hash function as its standard defines it, on byte strings.  Developments that
take a hash as a parameter use it as the instance their examples are computed with.
-/

namespace Sha256

abbrev Word := BitVec 32

def roundConstants : List Word := [
  0x428a2f98, 0x71374491, 0xb5c0fbcf, 0xe9b5dba5, 0x3956c25b, 0x59f111f1, 0x923f82a4, 0xab1c5ed5,
  0xd807aa98, 0x12835b01, 0x243185be, 0x550c7dc3, 0x72be5d74, 0x80deb1fe, 0x9bdc06a7, 0xc19bf174,
  0xe49b69c1, 0xefbe4786, 0x0fc19dc6, 0x240ca1cc, 0x2de92c6f, 0x4a7484aa, 0x5cb0a9dc, 0x76f988da,
  0x983e5152, 0xa831c66d, 0xb00327c8, 0xbf597fc7, 0xc6e00bf3, 0xd5a79147, 0x06ca6351, 0x14292967,
  0x27b70a85, 0x2e1b2138, 0x4d2c6dfc, 0x53380d13, 0x650a7354, 0x766a0abb, 0x81c2c92e, 0x92722c85,
  0xa2bfe8a1, 0xa81a664b, 0xc24b8b70, 0xc76c51a3, 0xd192e819, 0xd6990624, 0xf40e3585, 0x106aa070,
  0x19a4c116, 0x1e376c08, 0x2748774c, 0x34b0bcb5, 0x391c0cb3, 0x4ed8aa4a, 0x5b9cca4f, 0x682e6ff3,
  0x748f82ee, 0x78a5636f, 0x84c87814, 0x8cc70208, 0x90befffa, 0xa4506ceb, 0xbef9a3f7, 0xc67178f2]

structure Registers where
  a : Word
  b : Word
  c : Word
  d : Word
  e : Word
  f : Word
  g : Word
  h : Word

def initialRegisters : Registers :=
  ⟨0x6a09e667, 0xbb67ae85, 0x3c6ef372, 0xa54ff53a, 0x510e527f, 0x9b05688c, 0x1f83d9ab, 0x5be0cd19⟩

def smallSigma0 (x : Word) : Word :=
  x.rotateRight 7 ^^^ x.rotateRight 18 ^^^ (x >>> 3)

def smallSigma1 (x : Word) : Word :=
  x.rotateRight 17 ^^^ x.rotateRight 19 ^^^ (x >>> 10)

def bigSigma0 (x : Word) : Word :=
  x.rotateRight 2 ^^^ x.rotateRight 13 ^^^ x.rotateRight 22

def bigSigma1 (x : Word) : Word :=
  x.rotateRight 6 ^^^ x.rotateRight 11 ^^^ x.rotateRight 25

def choice (x y z : Word) : Word :=
  (x &&& y) ^^^ (~~~x &&& z)

def majority (x y z : Word) : Word :=
  (x &&& y) ^^^ (x &&& z) ^^^ (y &&& z)

def round (registers : Registers) (constant word : Word) : Registers :=
  let ⟨a, b, c, d, e, f, g, h⟩ := registers
  let first := h + bigSigma1 e + choice e f g + constant + word
  let second := bigSigma0 a + majority a b c
  ⟨first + second, a, b, c, d + first, e, f, g⟩

/-- One round for each constant; `window` holds the next sixteen words of the schedule. -/
def rounds (registers : Registers) (window : List Word) : List Word → Registers
  | [] => registers
  | constant :: constants =>
      let word := window.getD 0 0
      let next := smallSigma1 (window.getD 14 0) + window.getD 9 0 +
        smallSigma0 (window.getD 1 0) + word
      rounds (round registers constant word) (window.drop 1 ++ [next]) constants

def compress (registers : Registers) (block : List Word) : Registers :=
  let mixed := rounds registers block roundConstants
  ⟨registers.a + mixed.a, registers.b + mixed.b, registers.c + mixed.c, registers.d + mixed.d,
    registers.e + mixed.e, registers.f + mixed.f, registers.g + mixed.g, registers.h + mixed.h⟩

/-- A one bit, zeros, and the length in bits, up to a multiple of 64 bytes. -/
def pad (message : Bytes) : Bytes :=
  message ++ 0x80 :: (List.replicate ((119 - message.length % 64) % 64) 0 ++
    Bytes.bigEndian 8 (8 * message.length))

def words : Bytes → List Word
  | a :: b :: c :: d :: rest => BitVec.ofNat 32 (Bytes.ofBigEndian [a, b, c, d]) :: words rest
  | _ => []

def compressBlocks : ℕ → Registers → List Word → Registers
  | 0, registers, _ => registers
  | count + 1, registers, schedule =>
      compressBlocks count (compress registers (schedule.take 16)) (schedule.drop 16)

def registerBytes (registers : Registers) : Bytes :=
  let ⟨a, b, c, d, e, f, g, h⟩ := registers
  [a, b, c, d, e, f, g, h].flatMap fun word => Bytes.bigEndian 4 word.toNat

end Sha256

open Sha256 in
def sha256 (message : Bytes) : Digest :=
  let padded := pad message
  ⟨registerBytes (compressBlocks (padded.length / 64) initialRegisters (words padded)), by
    simp [registerBytes]⟩

example : (sha256 (Bytes.ofText "abc")).val = [
    0xba, 0x78, 0x16, 0xbf, 0x8f, 0x01, 0xcf, 0xea, 0x41, 0x41, 0x40, 0xde, 0x5d, 0xae, 0x22, 0x23,
    0xb0, 0x03, 0x61, 0xa3, 0x96, 0x17, 0x7a, 0x9c, 0xb4, 0x10, 0xff, 0x61, 0xf2, 0x00, 0x15,
    0xad] := by
  decide +kernel
