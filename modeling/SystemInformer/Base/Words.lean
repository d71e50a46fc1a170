import Mathlib

/-!
# Machine words of the user-mode library
-/

namespace SystemInformer

abbrev ULong := BitVec 32

namespace PhLib

abbrev ULongPtr := BitVec 64

abbrev WChar := UInt16

def pageSize : Nat := 4096

end PhLib

end SystemInformer
