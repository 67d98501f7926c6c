import Notebook.Digest.Sha256
import Notebook.Program.Manifest

namespace Notebook.Program

/-- What tells one build from another: 64 digits. -/
structure Key where
  digits : List Char
  deriving DecidableEq, Repr

namespace Key

/-- The bytes that a key is the digest of. -/
def message (source : List Char) (m : Manifest) : List UInt8 :=
  Text.Utf8.encode source ++ Text.Utf8.encode m.text

/-- The digest of the code with the manifest after it. -/
def derive (source : List Char) (m : Manifest) : Key :=
  ⟨Digest.hex (Digest.sha256 (message source m))⟩

/-- The first twelve digits. -/
def short (k : Key) : List Char := k.digits.take 12

end Key

end Notebook.Program
