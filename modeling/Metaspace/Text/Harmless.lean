import Metaspace.Text.Quoted

set_option autoImplicit false

namespace Metaspace.Harmless

def written : List Char := ['\x07', '\x08', '\x0c', '\x1b', '\x7f']

def hexByte (n : Nat) : List Char :=
  [Nat.digitChar (n / 16), Nat.digitChar (n % 16)]

def escape (c : Char) : List Char :=
  if written.contains c then '\\' :: 'x' :: hexByte c.toNat
  else if 0x80 ≤ c.toNat ∧ c.toNat ≤ 0x9F then Quoted.codePoint c
  else [c]

end Metaspace.Harmless

namespace Metaspace

def harmless (text : String) : String :=
  String.ofList (text.toList.flatMap Harmless.escape)

end Metaspace
