import ScriptGraph.Bytes.Utf16

/-!
# Encodings of scripts

A byte order mark at the start of a script tells its encoding; without one it is UTF-8.  The mark
is no part of the text.
-/

namespace ScriptGraph.Script

/-- The encodings that a mark can announce. -/
inductive Encoding where
  | utf8
  | utf16 (order : Utf16.ByteOrder)
deriving DecidableEq

namespace Encoding

def mark : Encoding → List UInt8
  | utf8 => [0xef, 0xbb, 0xbf]
  | utf16 .littleEndian => [0xff, 0xfe]
  | utf16 .bigEndian => [0xfe, 0xff]

def encode : Encoding → List Char → List UInt8
  | utf8 => Utf8.encode
  | utf16 order => Utf16.encode order

def decode : Encoding → List UInt8 → List Char
  | utf8 => Utf8.decodeLossy
  | utf16 order => Utf16.decodeLossy order

end Encoding

def textOfBytes : List UInt8 → List Char
  | 0xef :: 0xbb :: 0xbf :: rest => Encoding.utf8.decode rest
  | 0xff :: 0xfe :: rest => (Encoding.utf16 .littleEndian).decode rest
  | 0xfe :: 0xff :: rest => (Encoding.utf16 .bigEndian).decode rest
  | bytes => Encoding.utf8.decode bytes

end ScriptGraph.Script
