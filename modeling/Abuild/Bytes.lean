import Mathlib.Data.List.Basic

/-!
Strings of bytes, as what is read from programs and connections comes.
-/

set_option autoImplicit false
set_option relaxedAutoImplicit false

namespace Abuild

abbrev Bytes := List UInt8

def ascii (text : String) : Bytes := text.toList.map Char.toUInt8

end Abuild
