import PropertyFile.Encoding
import PropertyFile.Platform
import PropertyFile.Toml.Parser

/-!
# The standard platform

What the program brings with it: codecs for the encodings of
`PropertyFile.Encoding`, and a reader of TOML documents.
-/

namespace PropertyFile

/-- The platform of the program. -/
def Platform.standard : Platform := { codecs := Encoding.codecs, parse := Toml.parse }

end PropertyFile
