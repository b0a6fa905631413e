/-!
# Searching and replacing in text

Text is searched as a list of characters.

* `replaceAll pattern new text`   every occurrence of `pattern`, taken from the left and without
                                  overlap, becomes `new`;
* `occursIn pattern text`         `pattern` stands somewhere in `text`;
* `cutAt c text`                  the parts before and after the first `c`, if there is one;
* `sameIgnoringCase`              equality up to the case of the letters `A` to `Z`.
-/

namespace ProgramScan.Text

/-- Replacement from the left; `skip` characters of the text still belong to the occurrence
that was just replaced. -/
def replaceFrom (pattern new : List Char) : Nat → List Char → List Char
  | _, [] => []
  | skip + 1, _ :: rest => replaceFrom pattern new skip rest
  | 0, c :: rest =>
    if pattern.isPrefixOf (c :: rest) then
      new ++ replaceFrom pattern new (pattern.length - 1) rest
    else
      c :: replaceFrom pattern new 0 rest

/-- every occurrence of the non-empty `pattern` in `text` becomes `new` -/
def replaceAll (pattern new text : List Char) : List Char :=
  replaceFrom pattern new 0 text

/-- true if `pattern` stands somewhere in `text` -/
def occursIn (pattern : List Char) : List Char → Bool
  | [] => pattern.isEmpty
  | c :: rest => pattern.isPrefixOf (c :: rest) || occursIn pattern rest

/-- the parts of `text` before and after the first `c` -/
def cutAt (c : Char) : List Char → Option (List Char × List Char)
  | [] => none
  | d :: rest =>
    if d = c then some ([], rest)
    else (cutAt c rest).map fun (before, after) => (d :: before, after)

/-- equality of names up to the case of the letters `A` to `Z` -/
def sameIgnoringCase (a b : String) : Bool :=
  a.toList.map Char.toLower == b.toList.map Char.toLower

end ProgramScan.Text
