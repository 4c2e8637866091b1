import Metaspace.Coding.Bytes

set_option autoImplicit false

namespace Metaspace.Zstandard.Checksum

def factor1 : UInt64 := 0x9E3779B185EBCA87

def factor2 : UInt64 := 0xC2B2AE3D27D4EB4F

def factor3 : UInt64 := 0x165667B19E3779F9

def factor4 : UInt64 := 0x85EBCA77C2B2AE63

def factor5 : UInt64 := 0x27D4EB2F165667C5

def rotate (w n : UInt64) : UInt64 := (w <<< n) ||| (w >>> (64 - n))

def word (bytes : ByteArray) (place width : Nat) : UInt64 :=
  UInt64.ofNat (Coding.numberAt bytes place width)

def stir (state input : UInt64) : UInt64 :=
  rotate (state + input * factor2) 31 * factor1

def lanes : List UInt64 := [factor1 + factor2, factor2, 0, 0 - factor1]

def stirBlock (bytes : ByteArray) (state : List UInt64) (block : Nat) : List UInt64 :=
  state.zipIdx.map fun (w, lane) => stir w (word bytes (32 * block + 8 * lane) 8)

def join (state : List UInt64) : UInt64 :=
  let sum := (state.zip [1, 7, 12, 18]).foldl (fun sum (w, n) => sum + rotate w n) 0
  state.foldl (fun sum w => (sum ^^^ stir 0 w) * factor1 + factor4) sum

def mixWord (sum w : UInt64) : UInt64 :=
  rotate (sum ^^^ stir 0 w) 27 * factor1 + factor4

def mixHalf (sum w : UInt64) : UInt64 :=
  rotate (sum ^^^ (w * factor1)) 23 * factor2 + factor3

def mixByte (sum w : UInt64) : UInt64 :=
  rotate (sum ^^^ (w * factor5)) 11 * factor1

def spread (sum : UInt64) : UInt64 :=
  let sum := (sum ^^^ (sum >>> 33)) * factor2
  let sum := (sum ^^^ (sum >>> 29)) * factor3
  sum ^^^ (sum >>> 32)

def checksum64 (bytes : ByteArray) : UInt64 :=
  let blocks := bytes.size / 32
  let sum :=
    if blocks = 0 then factor5 else join ((List.range blocks).foldl (stirBlock bytes) lanes)
  let sum := sum + UInt64.ofNat bytes.size
  let words := bytes.size % 32 / 8
  let sum := (List.range words).foldl
    (fun sum k => mixWord sum (word bytes (32 * blocks + 8 * k) 8)) sum
  let place := 32 * blocks + 8 * words
  let (sum, place) :=
    if place + 4 ≤ bytes.size then (mixHalf sum (word bytes place 4), place + 4) else (sum, place)
  let sum := (List.range (bytes.size - place)).foldl
    (fun sum k => mixByte sum (word bytes (place + k) 1)) sum
  spread sum

def checksum (bytes : ByteArray) : Nat :=
  (checksum64 bytes).toNat % 0x100000000

end Metaspace.Zstandard.Checksum
