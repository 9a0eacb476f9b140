import SCMessenger.Lib.Bytes

/-!
# UUIDs as text

The forms in which a UUID is read (`Uuid::parse_str`), and the version number it carries.
-/

namespace SCMessenger

namespace Uuid

def parseSimple (cs : List Char) : Option (Arr 16) :=
  match hexDecodeChars 0 cs with
  | .ok bytes => Arr.ofBytes? 16 bytes
  | .error _ => none

def parseHyphenated (cs : List Char) : Option (Arr 16) :=
  if cs[8]? = some '-' ∧ cs[13]? = some '-' ∧ cs[18]? = some '-' ∧ cs[23]? = some '-' then
    parseSimple (cs.take 8 ++ (cs.drop 9).take 4 ++ (cs.drop 14).take 4 ++ (cs.drop 19).take 4
      ++ cs.drop 24)
  else none

def parseStr (s : String) : Option (Arr 16) :=
  let cs := s.toList
  if cs.length = 32 then parseSimple cs
  else if cs.length = 36 then parseHyphenated cs
  else if cs.length = 38 ∧ cs.head? = some '\x7b' ∧ cs.getLast? = some '\x7d' then
    parseHyphenated (cs.drop 1).dropLast
  else if cs.length = 45 ∧ cs.take 9 = "urn:uuid:".toList then parseHyphenated (cs.drop 9)
  else none

def getVersionNum (uuid : Arr 16) : Nat := (uuid.1.getD 6 0).toNat / 16

end Uuid

end SCMessenger
