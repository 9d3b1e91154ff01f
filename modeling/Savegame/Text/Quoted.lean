import Savegame.Text.Hidden
import Savegame.Text.Numeral

/-!
# Quoted text

Text between double quotes, with everything escaped that would not show.
-/

namespace Savegame.Text

/-- The characters with an escape of one letter. -/
def escapeLetters : List (Char × Char) :=
  [('\x00', '0'), ('\t', 't'), ('\r', 'r'), ('\n', 'n'), ('"', '"'), ('\\', '\\')]

def escape (c : Char) : String :=
  match escapeLetters.lookup c with
  | some letter => String.ofList ['\\', letter]
  | none => if isHidden c then "\\u\x7b" ++ Numeral.hex 1 c.toNat ++ "\x7d" else String.singleton c

def quoted (text : String) : String :=
  "\"" ++ String.join (text.toList.map escape) ++ "\""

end Savegame.Text
