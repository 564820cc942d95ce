import NekoEcat.Core.QJson

/-!
# Strings as `QString` treats them

* `trimmed`, `number`: `QString::trimmed` and `QString::number`.
* `arg`: `QString::arg`, which replaces the place markers of the lowest number,
  those that came in with an earlier argument included.
-/
namespace NekoEcat.QString

/-- `QChar::isSpace` -/
def isSpace (c : Char) : Bool :=
  c.toNat == 0x20 || (0x9 ≤ c.toNat && c.toNat ≤ 0xd) || c.toNat == 0x85 || c.toNat == 0xa0 ||
    c.toNat == 0x1680 || (0x2000 ≤ c.toNat && c.toNat ≤ 0x200a) || c.toNat == 0x2028 ||
    c.toNat == 0x2029 || c.toNat == 0x202f || c.toNat == 0x205f || c.toNat == 0x3000

/-- `QString::trimmed` -/
def trimmed (s : String) : String :=
  String.ofList ((s.toList.dropWhile isSpace).reverse.dropWhile isSpace).reverse

/-- `QString::number(n)` -/
def number (n : Int) : String := String.ofList (QJson.intText n)

def digit (c : Char) : Option Nat := if c.isDigit then some (c.toNat - 48) else none

/-- The number of the place marker that follows a `%`, and how long it is. -/
def marker (cs : List Char) : Option (Nat × Nat) :=
  let (skipped, ds) := match cs with
    | 'L' :: ds => (1, ds)
    | _ => (0, cs)
  match ds with
  | c :: ds =>
    (digit c).map fun d =>
      match ds.head?.bind digit with
      | some d' => (10 * d + d', skipped + 2)
      | none => (d, skipped + 1)
  | [] => none

/-- The numbers of the place markers. -/
def markers : List Char → List Nat
  | [] => []
  | c :: cs =>
    match if c = '%' then marker cs else none with
    | some (n, _) => n :: markers cs
    | none => markers cs

/-- The markers with the number `n` replaced; `skip` characters of one are still
to be dropped. -/
def replace (n : Nat) (a : List Char) : Nat → List Char → List Char
  | _, [] => []
  | skip + 1, _ :: cs => replace n a skip cs
  | 0, c :: cs =>
    match if c = '%' then marker cs else none with
    | some (n', len) => if n' = n then a ++ replace n a len cs else c :: replace n a 0 cs
    | none => c :: replace n a 0 cs

/-- `s.arg(a)` -/
def arg (s a : String) : String :=
  match (markers s.toList).min? with
  | some n => String.ofList (replace n a.toList 0 s.toList)
  | none => s

end NekoEcat.QString
