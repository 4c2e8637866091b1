set_option autoImplicit false

namespace Metaspace

inductive ZstandardFault where
  | incomplete
  | foreign
  | unsupported
  | hugeWindow
  | otherDictionary
  | noTable
  | corrupt
  | noRoom
  | badSize
  | fewLiterals
  | badChecksum
  deriving DecidableEq, Repr

def ZstandardFault.message : ZstandardFault → String
  | .incomplete => "incomplete frame"
  | .foreign => "Unknown frame descriptor"
  | .unsupported => "Unsupported frame parameter"
  | .hugeWindow => "Frame requires too much memory for decoding"
  | .otherDictionary => "Dictionary mismatch"
  | .noTable => "Dictionary is corrupted"
  | .corrupt => "Data corruption detected"
  | .noRoom => "Destination buffer is too small"
  | .badSize => "Src size is incorrect"
  | .fewLiterals => "Header of Literals' block doesn't respect format specification"
  | .badChecksum => "Restored data doesn't match checksum"

namespace Zstandard

def demand (fault : ZstandardFault) (holds : Bool) : Except ZstandardFault Unit :=
  if holds then .ok () else .error fault

def orCorrupt {α : Type} : Option α → Except ZstandardFault α
  | some a => .ok a
  | none => .error .corrupt

end Zstandard
end Metaspace
