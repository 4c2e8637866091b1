import Metaspace.FieldType.Basic

set_option autoImplicit false

namespace Metaspace.FieldType

def precedes (a b : FieldType) : Bool :=
  (compare a b).isLE

def sorted (types : List FieldType) : List FieldType :=
  types.mergeSort precedes

end Metaspace.FieldType
