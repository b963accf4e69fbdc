import Stabber.Callbacks
import Stabber.Utf8

/-!
# The end of the stream

`read_stream` keeps all bytes received in one string. After each chunk it looks
whether that string ends in `</stream:stream>`, and if so it answers with the same
text and reads no further.
-/

namespace Stabber.ReadStream
open XmlDocument Callbacks Utf8

/-- A C string ends before its first zero byte. -/
def cString (bs : List UInt8) : List UInt8 := bs.takeWhile (· ≠ 0)

def gStrHasSuffix (stream : List UInt8) (suffix : Str) : Bool :=
  (utf8 suffix).isSuffixOf (cString stream)

theorem gStrHasSuffix_nil : gStrHasSuffix [] STREAM_END = false := by decide

end Stabber.ReadStream
