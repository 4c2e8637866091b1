import Metaspace.Coding.BlockSorting
import Metaspace.Coding.LzmaAlone
import Metaspace.Coding.WideInflate
import Metaspace.Coding.Xz.Stream
import Metaspace.Coding.Zstandard.Frame

set_option autoImplicit false

namespace Metaspace

inductive Packing where
  | stored
  | deflated
  | deflatedWide
  | blockSorted
  | lzma
  | zstandard
  | xz
  deriving DecidableEq, Repr

inductive UnpackingFault where
  | deflated (fault : CodingFault)
  | deflatedWide
  | blockSorted (fault : CodingFault)
  | lzma (fault : LzmaFault)
  | zstandard (fault : ZstandardFault)
  | xz (fault : CodingFault)
  deriving DecidableEq, Repr

namespace Packing

def code : Packing → Nat
  | .stored => 0
  | .deflated => 8
  | .deflatedWide => 9
  | .blockSorted => 12
  | .lzma => 14
  | .zstandard => 93
  | .xz => 95

def ofCode? (n : Nat) : Option Packing :=
  [stored, deflated, deflatedWide, blockSorted, lzma, zstandard, xz].find? (·.code = n)

def unpack (packing : Packing) (packed : ByteArray) (size : Nat) :
    Except UnpackingFault ByteArray :=
  match packing with
  | .stored => .ok packed
  | .deflated => (inflate packed).mapError .deflated
  | .deflatedWide => (inflateWide packed).mapError fun _ => .deflatedWide
  | .blockSorted => (unsortBlocks packed).mapError .blockSorted
  | .lzma => (unpackLzma packed).mapError .lzma
  | .zstandard => (unpackZstandard packed size).mapError .zstandard
  | .xz => (unpackXz packed).mapError .xz

end Packing

def Lzma.Fault.message : Lzma.Fault → String
  | .literalBeyondReach distance reach =>
    "Match distance " ++ toString distance ++ " is beyond dictionary size " ++ toString reach
  | .literalBeyondOutput distance size =>
    "Match distance " ++ toString distance ++ " is beyond output size " ++ toString size
  | .copyBeyondReach distance reach =>
    "LZ distance " ++ toString distance ++ " is beyond dictionary size " ++ toString reach
  | .copyBeyondOutput distance size =>
    "LZ distance " ++ toString distance ++ " is beyond output size " ++ toString size
  | .incomplete => "failed to fill whole buffer"
  | .corrupt => "corrupt symbol"

def LzmaFault.message : LzmaFault → String
  | .badProperties n =>
    "LZMA header invalid properties: " ++ toString n ++ " must be < 225"
  | .badSymbol fault => "LzmaError(\"" ++ fault.message ++ "\")"
  | .inputBehindEnd =>
    "LzmaError(\"Found end-of-stream marker but more bytes are available\")"
  | .inputNotTaken => "failed to write whole buffer"

def UnpackingFault.message : UnpackingFault → String
  | .deflated .incomplete => "incomplete deflate stream"
  | .deflated _ => "corrupt deflate stream"
  | .deflatedWide => "invalid deflate64"
  | .blockSorted .incomplete => "decompression not finished but EOF reached"
  | .blockSorted .foreign => "bzip2: bz2 header missing"
  | .blockSorted _ => "bzip2: invalid data"
  | .lzma fault => fault.message
  | .zstandard fault => fault.message
  | .xz .incomplete => "premature eof"
  | .xz .foreign => "stream/file format not recognized"
  | .xz .unsupported => "invalid options"
  | .xz .surplus => "corrupt xz stream"
  | .xz .corrupt => "lzma data error"

end Metaspace
