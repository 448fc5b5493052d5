import Mathlib.Data.Nat.Digits.Defs

/-!
# Wallet tags

`generateWalletTag`: a slug of the user's name and two random bytes in hexadecimal.
-/

namespace LiorParisWallet

/-- `toLowerCase`, as far as the tag can see it.  Besides `A`–`Z` only two characters have a lower case
    with a letter of `a`–`z` in it, the dotted capital I and the Kelvin sign; what any other character
    becomes is replaced by a dash like the character itself. -/
def toLowerCase (c : Char) : List Char :=
  if c = 'İ' then ['i', '\u0307']
  else if c = '\u212A' then ['k']
  else [c.toLower]

/-- `[a-z0-9]` -/
def isSlugChar (c : Char) : Bool :=
  ('a' ≤ c && c ≤ 'z') || ('0' ≤ c && c ≤ '9')

/-- `replaceAll(/[^a-z0-9]+/g, '-')`; `inRun` says that the dash of the current run is written. -/
def collapse (inRun : Bool) : List Char → List Char
  | [] => []
  | c :: cs =>
      if isSlugChar c then c :: collapse false cs
      else if inRun then collapse true cs
      else '-' :: collapse true cs

/-- `replaceAll(/^-|-$/g, '')` -/
def trimDashes (cs : List Char) : List Char :=
  let cs := if cs.head? = some '-' then cs.tail else cs
  if cs.getLast? = some '-' then cs.dropLast else cs

def slug (name : String) : List Char :=
  (trimDashes (collapse false (name.toList.flatMap toLowerCase))).take 4

def byteHex (b : UInt8) : List Char :=
  [Nat.digitChar (b.toNat / 16), Nat.digitChar (b.toNat % 16)]

def generateWalletTag (name : String) (bytes : UInt8 × UInt8) : String :=
  String.ofList (slug name ++ '-' :: (byteHex bytes.1 ++ byteHex bytes.2))

example : generateWalletTag "Ada Lovelace" (0xa1, 0x0b) = "ada--a10b" := by decide

end LiorParisWallet
