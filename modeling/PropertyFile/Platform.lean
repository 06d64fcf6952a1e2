import PropertyFile.Codec
import PropertyFile.Toml.Fault

/-!
# What a run is given

The codecs of texts and the reader of configuration files are no part of
this library's subject: a run is given them, and what is proved of runs
holds whichever they are. The ones that the program brings with it are in
`PropertyFile.StandardPlatform`.
-/

namespace PropertyFile

/-- **What a run is given** beside the files. -/
structure Platform where
  /-- The codecs that there are. -/
  codecs : Codecs
  /-- The reader of configuration files. -/
  parse : Toml.Reader

end PropertyFile
