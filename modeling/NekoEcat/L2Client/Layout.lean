import NekoEcat.Core.CScan
import NekoEcat.L1Abi.Shm

/-!
# The client's layout (`client/nekoecat_client.c`, layout part)

The minimal scanner that turns the text of a shm-info answer into the fixed
layout array, and the lookup of an entry's offset. The scanner searches for
`"key":` from the object's brace on and knows neither strings nor the end of
an object. A text is a list of characters without NUL; the field width of
`%7[^"]` counts characters.

* `parseEntries_length`: the loop never exceeds the array.
* `layoutByteOffset_found`: the lookup gives the offset of the first matching entry.
-/
namespace NekoEcat.L2.Layout
open NekoEcat.CScan NekoEcat.L1.Shm

/-- `if ((f = strstr(obj, needle))) sscanf(f + skip, .., &v)`, for a `v` of `w`
bits that starts at 0. -/
def scanField (obj : List Char) (needle : String) (skip w : Nat) : Nat :=
  match strstr needle.toList obj with
  | some f => (scanUnsigned w (f.drop skip)).getD 0
  | none => 0

/-- `char dirbuf[8] = {0}` and its conversion. -/
def scanDirection (obj : List Char) : List Char :=
  match strstr "\"direction\":".toList obj with
  | some f => (scanUntilQuote 7 (f.drop 12)).getD []
  | none => []

/-- The loop body between the braces.
mirrors client/nekoecat_client.c:677-699 -/
def parseEntry (obj : List Char) : ShmLayoutEntry :=
  let bl := UInt8.ofNat (scanField obj "\"bitLength\":" 12 8)
  let dirbuf := scanDirection obj
  { slave := UInt16.ofNat (scanField obj "\"slave\":" 8 16)
    index := UInt16.ofNat (scanField obj "\"index\":" 8 16)
    sub := UInt8.ofNat (scanField obj "\"subindex\":" 11 8)
    bitLength := if bl ≠ 0 then bl else 16
    direction := if dirbuf.isEmpty then "TxPDO" else String.ofList dirbuf
    offset := UInt32.ofNat (scanField obj "\"offset\":" 9 32) }

/-- Of two pointers into one text (`none`: null) the first is set and stands
before the second, or the second is null. -/
def before (p q : Option (List Char)) : Bool :=
  match p, q with
  | none, _ => false
  | some _, none => true
  | some p, some q => decide (q.length < p.length)

/-- The loop from the pointer `p` on, `fuel` array slots being free: the
entries it stores and where `p` ends.
mirrors client/nekoecat_client.c:671-705 -/
def parseEntries : (fuel : Nat) → (p : List Char) → List ShmLayoutEntry × List Char
  | 0, p => ([], p)
  | fuel + 1, p =>
    match strstr ['{'] p with
    | none => ([], p)
    | some obj =>
      match strstr ['}'] obj with
      | none => ([], p)
      | some endobj =>
        let p := endobj.tail
        if before (strstr ['{'] p) (strstr [']'] p) then
          let (es, q) := parseEntries fuel p
          (parseEntry obj :: es, q)
        else ([parseEntry obj], p)

/-- One round of the loop, `q` standing behind the closing brace. -/
theorem parseEntries_round {fuel : Nat} {p obj q : List Char} (ho : strstr ['{'] p = some obj)
    (hq : strstr ['}'] obj = some ('}' :: q)) :
    parseEntries (fuel + 1) p =
      if before (strstr ['{'] q) (strstr [']'] q) = true then
        (parseEntry obj :: (parseEntries fuel q).1, (parseEntries fuel q).2)
      else ([parseEntry obj], q) := by
  rw [parseEntries, ho]
  dsimp only
  rw [hq]
  rfl

theorem parseEntries_length (fuel : Nat) (p : List Char) : (parseEntries fuel p).1.length ≤ fuel := by
  induction fuel generalizing p with
  | zero => exact Nat.le_refl 0
  | succ fuel ih =>
    unfold parseEntries
    split
    · exact Nat.zero_le _
    split
    · exact Nat.zero_le _
    dsimp only
    split
    · exact Nat.succ_le_succ (ih _)
    · exact Nat.succ_le_succ (Nat.zero_le fuel)

/-- The result and the layout it filled in.
mirrors client/nekoecat_client.c:658-714 -/
def layoutParseFromShmInfoJson (json : List Char) : Bool × ShmLayout :=
  let dataSize := UInt32.ofNat (scanField json "\"data_size\":" 12 32)
  match strstr "\"layout\":[".toList json with
  | none => (false, { ShmLayout.zero with dataSize := dataSize })
  | some lay =>
    let r := parseEntries layoutMaxEntries (lay.drop 10)
    (decide (0 < r.1.length), {
      entries := r.1
      count_le := parseEntries_length _ _
      dataSize := dataSize
      truncated := decide (layoutMaxEntries ≤ r.1.length) && before (strstr ['{'] r.2) (strstr [']'] r.2) })

/-- `UINT32_MAX`: not found.
mirrors client/nekoecat_client.c:716-727 -/
def layoutByteOffset (layout : ShmLayout) (slave index : UInt16) (sub : UInt8) : UInt32 :=
  match layout.entries.find? fun e => e.slave == slave && e.index == index && e.sub == sub with
  | some e => e.offset
  | none => 0xFFFFFFFF

/-! ## The lookup -/

/-- The entry a by-index access names: the first one of the layout with this
address. -/
def addressed (layout : ShmLayout) (slave index : UInt16) (sub : UInt8) (e : ShmLayoutEntry) : Prop :=
  layout.entries.find? (fun e => e.slave == slave && e.index == index && e.sub == sub) = some e

/-- An offset other than `UINT32_MAX` is that of the addressed entry. -/
theorem layoutByteOffset_found {layout : ShmLayout} {slave index : UInt16} {sub : UInt8}
    (h : layoutByteOffset layout slave index sub ≠ 0xFFFFFFFF) :
    ∃ e, addressed layout slave index sub e ∧ e.offset = layoutByteOffset layout slave index sub := by
  unfold layoutByteOffset at h ⊢
  split at h
  · rename_i e he
    exact ⟨e, he, rfl⟩
  · exact absurd rfl h

end NekoEcat.L2.Layout
